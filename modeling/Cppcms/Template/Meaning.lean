import Cppcms.Template.Filters
import Cppcms.Template.Loops

/-!
# The emitted code of a body writes its rendering

The compiler reads the chunks of a body and writes lines piece by piece.  By induction on the body,
these lines are statements (`Groups`), and the statements write what the body renders to (`Means`).
-/

namespace Cppcms

namespace Template

open State

variable {cfg : Config} {st st' : State}

/-! ## Runs over a body -/

/-- The compiler has read chunks that spell the given items. -/
def Performs (cfg : Config) (st : State) (is : List Item) (st' : State) : Prop :=
  ∃ es, Spells cfg.unicode es is ∧ run cfg st es = some st'

/-- The events of two lists of items come one after the other. -/
lemma Spells.append_inv {u : Unicode} {es : List Event} {is is' : List Item}
    (h : Spells u es (is ++ is')) :
    ∃ es₁ es₂, es = es₁ ++ es₂ ∧ Spells u es₁ is ∧ Spells u es₂ is' := by
  generalize hall : is ++ is' = all at h
  induction h generalizing is with
  | nil =>
    obtain ⟨rfl, rfl⟩ := List.append_eq_nil_iff.1 hall
    exact ⟨[], [], rfl, .nil, .nil⟩
  | @skip n es all _ ih =>
    obtain ⟨es₁, es₂, rfl, h₁, h₂⟩ := ih hall
    exact ⟨.chunk n [] :: es₁, es₂, rfl, .skip h₁, h₂⟩
  | @text n x es all hx hparse h ih =>
    cases is with
    | nil =>
      rw [List.nil_append] at hall
      exact ⟨[], _, rfl, .nil, hall ▸ .text hx hparse h⟩
    | cons i is =>
      obtain ⟨rfl, hrest⟩ := List.cons.inj hall
      obtain ⟨es₁, es₂, rfl, h₁, h₂⟩ := ih hrest
      exact ⟨.chunk n x :: es₁, es₂, rfl, .text hx hparse h₁, h₂⟩
  | @command n x c es all hx hparse h ih =>
    cases is with
    | nil =>
      rw [List.nil_append] at hall
      exact ⟨[], _, rfl, .nil, hall ▸ .command hx hparse h⟩
    | cons i is =>
      obtain ⟨rfl, hrest⟩ := List.cons.inj hall
      obtain ⟨es₁, es₂, rfl, h₁, h₂⟩ := ih hrest
      exact ⟨.chunk n x :: es₁, es₂, rfl, .command hx hparse h₁, h₂⟩

namespace Performs

lemma append {is is' : List Item} (h : Performs cfg st (is ++ is') st') :
    ∃ st₁, Performs cfg st is st₁ ∧ Performs cfg st₁ is' st' := by
  obtain ⟨es, hspells, hrun⟩ := h
  obtain ⟨es₁, es₂, rfl, h₁, h₂⟩ := hspells.append_inv
  rw [run_append] at hrun
  obtain ⟨st₁, hrun₁, hrun₂⟩ := Option.bind_eq_some_iff.1 hrun
  exact ⟨st₁, ⟨es₁, h₁, hrun₁⟩, ⟨es₂, h₂, hrun₂⟩⟩

lemma exitFlag {is : List Item} (h : Performs cfg st is st') (hflag : st'.exitFlag = false) :
    st.exitFlag = false := by
  obtain ⟨es, -, hrun⟩ := h
  exact exitFlag_of_run hrun hflag

/-- A command is performed at its line. -/
lemma command {c : Command} {is : List Item} (h : Performs cfg st (.command c :: is) st')
    (hstack : st.stack ≠ []) :
    ∃ n st₁, use cfg { st with lineNumber := n } c = some st₁ ∧ Performs cfg st₁ is st' := by
  obtain ⟨es, hspells, hrun⟩ := h
  generalize hall : Item.command c :: is = all at hspells
  induction hspells generalizing st with
  | nil => cases hall
  | @skip n es all _ ih => exact @ih { st with lineNumber := n } hstack hrun hall
  | text => cases hall
  | @command n x c' es all hx hparse hrest _ =>
    cases hall
    obtain ⟨st₁, hstep, hrun'⟩ := Option.bind_eq_some_iff.1 hrun
    refine ⟨n, st₁, ?_, es, hrest, hrun'⟩
    have hchunk : processChunk cfg { st with lineNumber := n } x = some st₁ := hstep
    rwa [processChunk, if_neg hx, if_neg (fun h => hstack h.1), if_neg (fun h => hstack h.1),
      hparse] at hchunk

/-- Text is written at its line. -/
lemma text {x : Text} {is : List Item} (h : Performs cfg st (.text x :: is) st')
    (hstack : st.stack ≠ []) :
    ∃ n, Performs cfg (inlineContent cfg { st with lineNumber := n } x) is st' := by
  obtain ⟨es, hspells, hrun⟩ := h
  generalize hall : Item.text x :: is = all at hspells
  induction hspells generalizing st with
  | nil => cases hall
  | @skip n es all _ ih => exact @ih { st with lineNumber := n } hstack hrun hall
  | @text n x' es all hx hparse hrest _ =>
    cases hall
    obtain ⟨st₁, hstep, hrun'⟩ := Option.bind_eq_some_iff.1 hrun
    refine ⟨n, es, hrest, ?_⟩
    have hchunk : processChunk cfg { st with lineNumber := n } x = some st₁ := hstep
    rw [processChunk, if_neg hx, if_neg (fun h => hstack h.1), if_neg (fun h => hstack h.1),
      hparse] at hchunk
    obtain rfl := Option.some.inj hchunk
    exact hrun'
  | command => cases hall

/-- Without items there is nothing to do. -/
lemma nil (h : Performs cfg st [] st') : ∃ n, st' = { st with lineNumber := n } := by
  obtain ⟨es, hspells, hrun⟩ := h
  generalize hall : ([] : List Item) = all at hspells
  induction hspells generalizing st with
  | nil =>
    obtain rfl := Option.some.inj hrun
    exact ⟨st.lineNumber, rfl⟩
  | @skip n es all _ ih => exact @ih { st with lineNumber := n } hrun hall
  | text => cases hall
  | command => cases hall

end Performs

namespace Wrote

variable {st₁ : State} {bs bs' : List Block} {names names' : List Text} {cs cs' : List Code}

lemma trans (h : Wrote cfg st st₁ bs names cs) (h' : Wrote cfg st₁ st' bs' names' cs') :
    Wrote cfg st st' bs' names' (cs ++ cs') where
  exitFlag := h'.exitFlag.trans h.exitFlag
  stack := h'.stack
  tmplSeq := h'.tmplSeq
  code := by rw [h'.code, h.code, List.append_assoc]
  other := h'.other.trans h.other
  scopeFilter := h'.scopeFilter.trans h.scopeFilter
  ignoreInline := h'.ignoreInline.trans h.ignoreInline

lemma line (h : Wrote cfg st st' bs names cs) (n : ℕ) :
    Wrote cfg st { st' with lineNumber := n } bs names cs :=
  ⟨h.exitFlag, h.stack, h.tmplSeq, h.code, h.other, h.scopeFilter, h.ignoreInline⟩

/-- The number of the line and the blocks before do not matter. -/
lemma of_line {n : ℕ} {bs₀ : List Block}
    (h : Wrote cfg { st with lineNumber := n, stack := bs₀ } st' bs names cs) :
    Wrote cfg st st' bs names cs :=
  ⟨h.exitFlag, h.stack, h.tmplSeq, h.code, h.other, h.scopeFilter, h.ignoreInline⟩

end Wrote

/-- The end of a block for which only a line is written. -/
lemma Performs.end' {name : Option Text} {is : List Item} {b : Block} {bs : List Block} {c : Code}
    (h : Performs cfg st (.command (.end' name) :: is) st') (hstack : st.stack = b :: bs)
    (hend : ∀ st, onEnd cfg st b = some (st.outputTemplate cfg c)) (hflag : st'.exitFlag = false) :
    ∃ st₁, Wrote cfg st st₁ bs st.tmplSeq [c] ∧ Performs cfg st₁ is st' := by
  obtain ⟨n, st₁, huse, hrest⟩ := h.command (by simp [hstack])
  obtain ⟨b', bs', hstack', -, hon⟩ := useEnd_cases huse (hrest.exitFlag hflag)
  obtain ⟨rfl, rfl⟩ := List.cons.inj (hstack.symm.trans hstack')
  rw [hend] at hon
  obtain rfl := Option.some.inj hon
  have hwrote : Wrote cfg { st with lineNumber := n, stack := bs } _ bs st.tmplSeq [c] :=
    wrote_outputTemplate { st with lineNumber := n, stack := bs } c
  exact ⟨_, hwrote.of_line, hrest⟩

section Induction

variable {V : Type*} (cfg) (sem : Sem V)

/-- The lines that have been written are statements with the given meaning. -/
def Translates (st st' : State) (fine : Locals → Bool) (P : Values V → Prop)
    (R : Values V → Option Text) : Prop :=
  ∃ cs ss, Wrote cfg st st' st.stack st.tmplSeq cs ∧ Groups cs ss ∧
    ∀ L, fine L = true → Means cfg.unicode sem L ss P R

/-- In every accepted run over the body its lines write its rendering. -/
def BodyTranslates (b : Body) : Prop :=
  ∀ st st', Performs cfg st b.items st' → st.stack ≠ [] → st.ignoreInline = false →
    st'.exitFlag = false → Translates cfg sem st st' (b.fine cfg.unicode st.scopeFilter st.tmplSeq)
      (b.rowsFit cfg.unicode sem st.tmplSeq) (b.render cfg.unicode st.scopeFilter sem st.tmplSeq)

def PartTranslates (p : Part) : Prop :=
  ∀ st st', Performs cfg st p.items st' → st.stack ≠ [] → st.ignoreInline = false →
    st'.exitFlag = false → Translates cfg sem st st' (p.fine cfg.unicode st.scopeFilter st.tmplSeq)
      (p.rowsFit cfg.unicode sem st.tmplSeq) (p.render cfg.unicode st.scopeFilter sem st.tmplSeq)

/-- The branches close the block of their `if`, and the statement after `else` writes their
rendering. -/
def BranchesTranslate (bs : Branches) : Prop :=
  ∀ st st' elif stack, Performs cfg st bs.items st' → st.stack = .if' elif :: stack →
    st.ignoreInline = false → st'.exitFlag = false →
    ∃ cs es, Wrote cfg st st' stack st.tmplSeq cs ∧ GroupsElse cs es ∧ es.length ≤ 1 ∧
      ∀ L, bs.fine cfg.unicode st.scopeFilter st.tmplSeq L = true →
        Means cfg.unicode sem L es (bs.rowsFit cfg.unicode sem st.tmplSeq)
          (bs.render cfg.unicode st.scopeFilter sem st.tmplSeq)

variable {cfg sem}

lemma translates_nil : BodyTranslates cfg sem .nil := by
  intro st st' h _ _ _
  obtain ⟨n, rfl⟩ := h.nil
  refine ⟨[], [], ?_, Groups.nil, fun L _ => Means.nil⟩
  exact ⟨rfl, rfl, rfl, by simp [templateCode], rfl, rfl, rfl⟩

/-- A part and the rest. -/
lemma translates_cons {p : Part} {b : Body} (hp : PartTranslates cfg sem p)
    (hb : BodyTranslates cfg sem b) : BodyTranslates cfg sem (.cons p b) := by
  intro st st' h hstack hinline hflag
  obtain ⟨st₁, h₁, h₂⟩ := h.append
  obtain ⟨cs, ss, hwrote, hgroups, hmeans⟩ := hp st st₁ h₁ hstack hinline (h₂.exitFlag hflag)
  obtain ⟨cs', ss', hwrote', hgroups', hmeans'⟩ := hb st₁ st' h₂ (by rwa [hwrote.stack])
    (by rw [hwrote.ignoreInline, hinline]) hflag
  rw [hwrote.stack, hwrote.tmplSeq] at hwrote'
  rw [hwrote.scopeFilter, hwrote.tmplSeq] at hmeans'
  refine ⟨cs ++ cs', ss ++ ss', hwrote.trans hwrote', hgroups.append hgroups', ?_⟩
  intro L hL
  rw [Body.fine, Bool.and_eq_true] at hL
  apply ((hmeans L hL.1).append (hmeans' L hL.2)).congr
  · intro σ hσ
    rwa [Body.rowsFit] at hσ
  · intro σ
    rw [Body.render]

/-- A text is printed as it is. -/
lemma translates_text (s : Text) : PartTranslates cfg sem (.text s) := by
  intro st st' h hstack hinline hflag
  obtain ⟨n, hrest⟩ := h.text hstack
  obtain ⟨m, rfl⟩ := hrest.nil
  refine ⟨[.text (toString' st.stack.length s)], [.text (toString' st.stack.length s)], ?_, ?_, ?_⟩
  · have hwrote : Wrote cfg { st with lineNumber := n } _ st.stack st.tmplSeq _ :=
      wrote_outputTemplate { st with lineNumber := n } (.text (toString' st.stack.length s))
    have hcontent : inlineContent cfg { st with lineNumber := n } s =
        outputTemplate cfg { st with lineNumber := n } (.text (toString' st.stack.length s)) := by
      simp [inlineContent, hinline]
    rw [hcontent]
    exact hwrote.of_line.line m
  · exact fun gs fs => rfl
  · intro L hL
    rw [Part.fine, Bool.and_eq_true] at hL
    exact Means.text hL.1 hL.2

/-- A variable is printed through its filters. -/
lemma translates_show (d : Bool) (s : Text) : PartTranslates cfg sem (.show' d s) := by
  intro st st' h hstack _ hflag
  obtain ⟨n, st₁, huse, hrest⟩ := h.command hstack
  obtain ⟨m, rfl⟩ := hrest.nil
  obtain ⟨e, hprepare, hwrote⟩ := useFiltersShow_wrote huse hflag
  have hscope : prepare cfg.unicode ⟨st.tmplSeq, st.scopeFilter⟩ none s = some ([], .expr e) :=
    hprepare
  refine ⟨[.show' e], [.show' e], hwrote.of_line.line m, fun gs fs => rfl, ?_⟩
  intro L hL
  rw [Part.fine, hscope, Bool.and_eq_true] at hL
  apply (Means.show' hL.1 hL.2).congr (P := fun _ => True)
  · exact fun _ _ => trivial
  · intro σ
    rw [Part.render, renderShow, hscope]

/-- The body after a condition, and the branches behind it. -/
lemma translates_branch {cond : IfCondition} {c : Condition} {b : Body} {bs : Branches}
    {st₁ : State} {elif : Bool} {stack : List Block} (hb : BodyTranslates cfg sem b)
    (hbs : BranchesTranslate cfg sem bs) (hc : conditionOf cfg.unicode st₁.tmplSeq cond = some c)
    (h : Performs cfg st₁ (b.items ++ bs.items) st') (hstack : st₁.stack = .if' elif :: stack)
    (hinline : st₁.ignoreInline = false) (hflag : st'.exitFlag = false) :
    ∃ cs s, Wrote cfg st₁ st' stack st₁.tmplSeq cs ∧ Groups (.if' c :: cs) [s] ∧
      ∀ L, ((conditionOf cfg.unicode st₁.tmplSeq cond).all (L.clearCondition cfg.unicode) &&
          b.fine cfg.unicode st₁.scopeFilter st₁.tmplSeq L &&
          bs.fine cfg.unicode st₁.scopeFilter st₁.tmplSeq L) = true →
        Means cfg.unicode sem L [s]
          (fun σ => match (conditionOf cfg.unicode st₁.tmplSeq cond).bind fun c =>
              c.holds cfg.unicode sem (σ.names sem) with
            | none => True
            | some t => if t then b.rowsFit cfg.unicode sem st₁.tmplSeq σ
              else bs.rowsFit cfg.unicode sem st₁.tmplSeq σ)
          (fun σ => ((conditionOf cfg.unicode st₁.tmplSeq cond).bind fun c =>
              c.holds cfg.unicode sem (σ.names sem)).bind fun t =>
            if t then b.render cfg.unicode st₁.scopeFilter sem st₁.tmplSeq σ
            else bs.render cfg.unicode st₁.scopeFilter sem st₁.tmplSeq σ) := by
  obtain ⟨st₂, h₁, h₂⟩ := h.append
  obtain ⟨cs, ss, hwrote, hgroups, hmeans⟩ := hb st₁ st₂ h₁ (by simp [hstack]) hinline
    (h₂.exitFlag hflag)
  obtain ⟨cs', es, hwrote', hgroups', hes, hmeans'⟩ := hbs st₂ st' elif stack h₂
    (hwrote.stack.trans hstack) (hwrote.ignoreInline.trans hinline) hflag
  rw [hwrote.tmplSeq] at hwrote'
  rw [hwrote.scopeFilter, hwrote.tmplSeq] at hmeans'
  refine ⟨cs ++ cs', .if' (.condition c) ss es, hwrote.trans hwrote',
    hgroups.if' rfl hgroups' hes, ?_⟩
  intro L hL
  rw [hc, Option.all_some, Bool.and_eq_true, Bool.and_eq_true] at hL
  rw [hc]
  exact (hmeans L hL.1.2).if' hL.1.1 (hmeans' L hL.2)

/-- The branch that is taken is the one that is rendered. -/
lemma translates_if {cond : IfCondition} {b : Body} {bs : Branches} (hb : BodyTranslates cfg sem b)
    (hbs : BranchesTranslate cfg sem bs) : PartTranslates cfg sem (.if' cond b bs) := by
  intro st st' h hstack hinline hflag
  obtain ⟨n, st₁, huse, hrest⟩ := h.command hstack
  obtain ⟨c, hcond, hwrote⟩ := useIf_wrote huse
  have hif := hwrote.of_line
  rw [condition_eq] at hcond
  obtain ⟨cs, s, hwrote', hgroups, hmeans⟩ := translates_branch hb hbs
    (by rw [hif.tmplSeq]; exact hcond) hrest hif.stack (hif.ignoreInline.trans hinline) hflag
  rw [hif.tmplSeq] at hwrote'
  rw [hif.tmplSeq, hif.scopeFilter] at hmeans
  refine ⟨_, [s], hif.trans hwrote', hgroups, ?_⟩
  intro L hL
  rw [Part.fine] at hL
  apply (hmeans L hL).congr
  · intro σ hσ
    rwa [Part.rowsFit] at hσ
  · intro σ
    rw [Part.render]

lemma translates_end (name : Option Text) : BranchesTranslate cfg sem (.end' name) := by
  intro st st' elif stack h hstack _ hflag
  obtain ⟨st₁, hwrote, hrest⟩ := h.end' hstack (fun _ => rfl) hflag
  obtain ⟨n, rfl⟩ := hrest.nil
  exact ⟨[.endIf], [], hwrote.line n, GroupsElse.end' rfl, Nat.zero_le _, fun L _ => Means.nil⟩

lemma translates_else {b : Body} (hb : BodyTranslates cfg sem b) (name : Option Text) :
    BranchesTranslate cfg sem (.else' b name) := by
  intro st st' elif stack h hstack hinline hflag
  obtain ⟨n, st₁, huse, hrest⟩ := h.command (by simp [hstack])
  obtain ⟨st₂, h₁, h₂⟩ := hrest.append
  obtain ⟨elif', stack', hstack', hwrote⟩ := useElse_wrote huse (hrest.exitFlag hflag)
  obtain ⟨-, rfl⟩ := List.cons.inj (hstack.symm.trans hstack')
  have helse := hwrote.of_line
  obtain ⟨cs, ss, hwrote', hgroups, hmeans⟩ := hb st₁ st₂ h₁ (by simp [helse.stack])
    (helse.ignoreInline.trans hinline) (h₂.exitFlag hflag)
  rw [helse.stack, helse.tmplSeq] at hwrote'
  rw [helse.scopeFilter, helse.tmplSeq] at hmeans
  obtain ⟨st₃, hend, hnil⟩ := h₂.end' hwrote'.stack (fun _ => rfl) hflag
  obtain ⟨m, rfl⟩ := hnil.nil
  rw [hwrote'.tmplSeq] at hend
  refine ⟨.closeElse :: (cs ++ [.endElse]), [.block ss],
    helse.trans (hwrote'.trans (hend.line m)), GroupsElse.else' rfl rfl hgroups, le_refl 1, ?_⟩
  intro L hL
  rw [Branches.fine] at hL
  apply (hmeans L hL).block.congr
  · intro σ hσ
    rwa [Branches.rowsFit] at hσ
  · intro σ
    rw [Branches.render]

/-- An `elif` is an `if` in the `else`. -/
lemma translates_elif {cond : IfCondition} {b : Body} {bs : Branches}
    (hb : BodyTranslates cfg sem b) (hbs : BranchesTranslate cfg sem bs) :
    BranchesTranslate cfg sem (.elif cond b bs) := by
  intro st st' elif stack h hstack hinline hflag
  obtain ⟨n, st₁, huse, hrest⟩ := h.command (by simp [hstack])
  obtain ⟨c, elif', stack', hcond, hstack', hwrote⟩ := useElif_wrote huse (hrest.exitFlag hflag)
  obtain ⟨-, rfl⟩ := List.cons.inj (hstack.symm.trans hstack')
  have helif := hwrote.of_line
  rw [condition_eq] at hcond
  obtain ⟨cs, s, hwrote', hgroups, hmeans⟩ := translates_branch hb hbs
    (by rw [helif.tmplSeq]; exact hcond) hrest helif.stack (helif.ignoreInline.trans hinline) hflag
  rw [helif.tmplSeq] at hwrote'
  rw [helif.tmplSeq, helif.scopeFilter] at hmeans
  refine ⟨_, [s], helif.trans hwrote', GroupsElse.elif hgroups, le_refl 1, ?_⟩
  intro L hL
  rw [Branches.fine] at hL
  apply (hmeans L hL).congr
  · intro σ hσ
    rwa [Branches.rowsFit] at hσ
  · intro σ
    rw [Branches.render]

/-! ### Sequences -/

/-- The lines of a separator, around the lines of its body. -/
def separatorLines (f : Foreach) : Option (List Code) → List Code
  | none => []
  | some cs => .ifNotFirst f.ident f.reverse f.seqName :: (cs ++ [.endSeparator])

/-- The separator, if there is one, and the start of the item. -/
lemma separator_item {separator : OptBody} {is : List Item} {f : Foreach} {bs : List Block}
    (hsep : ∀ b, separator = .some b → BodyTranslates cfg sem b)
    (h : Performs cfg st (separator.items .separator ++ .command .item :: is) st')
    (hstack : st.stack = .foreach f :: bs) (hf : f.hasSeparator = false)
    (hinline : st.ignoreInline = false) (hflag : st'.exitFlag = false) :
    ∃ st₁ f' ocs oss, Performs cfg st₁ is st' ∧
      Wrote cfg st st₁ (.item :: .foreach f' :: bs) st.tmplSeq
        (loopHead f ++ separatorLines f ocs) ∧
      f'.ident = f.ident ∧ f'.rowid = f.rowid ∧ f'.hasItem = true ∧
      (separator = .none ∧ ocs = none ∧ oss = none ∨
        ∃ b cs ss, separator = .some b ∧ ocs = some cs ∧
        oss = some ss ∧ Groups cs ss ∧
        ∀ L, b.fine cfg.unicode st.scopeFilter st.tmplSeq L = true →
          Means cfg.unicode sem L ss (b.rowsFit cfg.unicode sem st.tmplSeq)
            (b.render cfg.unicode st.scopeFilter sem st.tmplSeq)) := by
  cases separator with
  | none =>
    obtain ⟨n, st₁, huse, hrest⟩ := h.command (by simp [hstack])
    obtain rfl := Option.some.inj huse
    obtain ⟨f', bs', hstack', hitem, hwrote⟩ := useItem_wrote (hrest.exitFlag hflag)
    obtain ⟨hff, rfl⟩ := List.cons.inj (hstack.symm.trans hstack')
    obtain rfl := Block.foreach.inj hff
    rw [if_neg (by simp [hf])] at hwrote
    refine ⟨_, { f with hasItem := true }, none, none, hrest, ?_, rfl, rfl, rfl,
      .inl ⟨rfl, rfl, rfl⟩⟩
    rw [separatorLines, List.append_nil]
    exact hwrote.of_line
  | some b =>
    obtain ⟨n, st₁, huse, hrest⟩ := h.command (by simp [hstack])
    obtain rfl := Option.some.inj huse
    obtain ⟨f', bs', hstack', -, hwrote⟩ := useSeparator_wrote (hrest.exitFlag hflag)
    obtain ⟨hff, rfl⟩ := List.cons.inj (hstack.symm.trans hstack')
    obtain rfl := Block.foreach.inj hff
    have hseparator := hwrote.of_line
    obtain ⟨st₂, h₁, h₂⟩ := hrest.append
    obtain ⟨cs, ss, hwrote', hgroups, hmeans⟩ := hsep b rfl _ st₂ h₁ (by simp [hseparator.stack])
      (hseparator.ignoreInline.trans hinline) (h₂.exitFlag hflag)
    rw [hseparator.stack, hseparator.tmplSeq] at hwrote'
    rw [hseparator.scopeFilter, hseparator.tmplSeq] at hmeans
    obtain ⟨m, st₃, huse', hrest'⟩ := h₂.command (by simp [hwrote'.stack])
    have hst₃ : useItem cfg { st₂ with lineNumber := m } = st₃ := Option.some.inj huse'
    obtain ⟨f'', bs'', hstack'', -, hwrote''⟩ := useItem_wrote (by
      rw [hst₃]
      exact hrest'.exitFlag hflag)
    rw [hst₃] at hwrote''
    obtain ⟨hff', rfl⟩ := List.cons.inj (hwrote'.stack.symm.trans hstack'')
    obtain rfl := Block.foreach.inj hff'
    rw [if_pos rfl] at hwrote''
    have hitem := hwrote''.of_line
    rw [hwrote'.tmplSeq] at hitem
    refine ⟨_, { f with hasSeparator := true, hasItem := true }, some cs, some ss,
      hrest', ?_, rfl, rfl, rfl, .inr ⟨b, cs, ss, rfl, rfl, rfl, hgroups, hmeans⟩⟩
    have hall := hseparator.trans (hwrote'.trans hitem)
    rw [List.append_assoc] at hall
    exact hall

/-- The empty part, if there is one, and the end of the sequence. -/
lemma empty_end {empty : OptBody} {name : Option Text} {f : Foreach} {bs : List Block}
    (hempty : ∀ b, empty = .some b → BodyTranslates cfg sem b)
    (h : Performs cfg st (empty.items .empty ++ [.command (.end' name)]) st')
    (hstack : st.stack = .foreach f :: bs) (hinline : st.ignoreInline = false)
    (hflag : st'.exitFlag = false) :
    ∃ cs es, Wrote cfg st st' bs (eraseNames st.tmplSeq f.ident f.rowid) (cs ++ [.endBlock]) ∧
      GroupsElse cs es ∧ es.length ≤ 1 ∧
      ∀ L, empty.fine cfg.unicode st.scopeFilter st.tmplSeq L = true →
        Means cfg.unicode sem L es (empty.rowsFit cfg.unicode sem st.tmplSeq)
          (empty.render cfg.unicode st.scopeFilter sem st.tmplSeq) := by
  cases empty with
  | none =>
    obtain ⟨n, st₁, huse, hnil⟩ := h.command (by simp [hstack])
    obtain ⟨m, rfl⟩ := hnil.nil
    obtain ⟨b, bs', hstack', -, hend⟩ := useEnd_cases huse hflag
    obtain ⟨rfl, rfl⟩ := List.cons.inj (hstack.symm.trans hstack')
    have hwrote : Wrote cfg { st with lineNumber := n, stack := bs } st₁ bs
      (eraseNames st.tmplSeq f.ident f.rowid) [.endNonempty, .endBlock] :=
        (endForeach_wrote hend hflag).2
    exact ⟨[.endNonempty], [], hwrote.of_line.line m, GroupsElse.end' rfl, Nat.zero_le _,
      fun L _ => Means.nil⟩
  | some b =>
    obtain ⟨n, st₁, huse, hrest⟩ := h.command (by simp [hstack])
    obtain rfl := Option.some.inj huse
    obtain ⟨f', bs', hstack', -, hwrote⟩ := useEmpty_wrote (hrest.exitFlag hflag)
    obtain ⟨hff, rfl⟩ := List.cons.inj (hstack.symm.trans hstack')
    obtain rfl := Block.foreach.inj hff
    have hstart := hwrote.of_line
    obtain ⟨st₂, h₁, h₂⟩ := hrest.append
    obtain ⟨cs, ss, hwrote', hgroups, hmeans⟩ := hempty b rfl _ st₂ h₁ (by simp [hstart.stack])
      (hstart.ignoreInline.trans hinline) (h₂.exitFlag hflag)
    rw [hstart.stack, hstart.tmplSeq] at hwrote'
    rw [hstart.scopeFilter, hstart.tmplSeq] at hmeans
    obtain ⟨m, st₃, huse', hnil⟩ := h₂.command (by simp [hwrote'.stack])
    obtain ⟨k, rfl⟩ := hnil.nil
    obtain ⟨b', bs'', hstack'', -, hend⟩ := useEnd_cases huse' hflag
    obtain ⟨rfl, rfl⟩ := List.cons.inj (hwrote'.stack.symm.trans hstack'')
    have hwrote'' : Wrote cfg { st₂ with lineNumber := m, stack := bs } st₃ bs
      (eraseNames st₂.tmplSeq f.ident f.rowid) [.endEmpty, .endBlock] := endEmpty_wrote hend
    have hlast := hwrote''.of_line.line k
    rw [hwrote'.tmplSeq] at hlast
    refine ⟨.elseEmpty :: (cs ++ [.endEmpty]), [.block ss], ?_, GroupsElse.else' rfl rfl hgroups,
      le_refl 1, ?_⟩
    · have hall := hstart.trans (hwrote'.trans hlast)
      simpa using hall
    · intro L hL
      rw [OptBody.fine] at hL
      apply (hmeans L hL).block.congr
      · intro σ hσ
        rwa [OptBody.rowsFit] at hσ
      · intro σ
        rw [OptBody.render]

/-- The names of a sequence are taken away again. -/
lemma eraseNames_insertNames {names : List Text} {ident : Text} {rowid : Option Text}
    (hrow : rowid ≠ some ident) :
    eraseNames (insertNames names ident rowid) ident rowid = names := by
  cases rowid with
  | none => simp [eraseNames, insertNames]
  | some r =>
    have hne : r ≠ ident := fun heq => hrow (by rw [heq])
    simp [eraseNames, insertNames, hne]

/-- The names in an expression are names in scope. -/
lemma makeIdent_names {u : Unicode} {names : List Text} {val : Text} {e : Expr}
    (h : makeIdent u names val = some e) {n : Text} (hn : Tok.name n ∈ e) : n ∈ names := by
  unfold makeIdent at h
  split at h
  · cases h
  · dsimp only at h
    split_ifs at h with hmem
    · split at h
      · obtain rfl := Option.some.inj h
        simp at hn
        rwa [hn]
      · obtain rfl := Option.some.inj h
        simp at hn
        rwa [hn]
    · split at h
      · obtain rfl := Option.some.inj h
        simp at hn
      · obtain rfl := Option.some.inj h
        simp at hn

/-- The block that a `foreach` puts on the stack. -/
def ForeachHead.opened (h : ForeachHead) (e : Expr) : Foreach :=
  ⟨h.ident, h.typeName, h.rowid, h.reverse, e, false, false⟩

/-- The lines of a round are its statements. -/
lemma groups_round (h : ForeachHead) (e : Expr) {ocs : Option (List Code)}
    {oss : Option (List Stmt)} {cs : List Code} {ss : List Stmt}
    (hsep : ocs = none ∧ oss = none ∨ ∃ cs ss, ocs = some cs ∧ oss = some ss ∧ Groups cs ss)
    (h' : Groups cs ss) :
    Groups (.reference h.typeName h.ident :: (separatorLines (h.opened e) ocs ++ cs))
      (h.roundStmts e oss ss) := by
  have href : Groups [.reference h.typeName h.ident] [.reference h.ident] := fun gs fs => rfl
  apply href.append
  refine Groups.append ?_ h'
  obtain ⟨rfl, rfl⟩ | ⟨cs, ss, rfl, rfl, hgroups⟩ := hsep
  · exact Groups.nil
  · exact hgroups.if' rfl (GroupsElse.end' rfl) (Nat.zero_le 1)

/-- The lines of a sequence are its statement. -/
lemma groups_foreach {h : ForeachHead} {e : Expr} {ocs : Option (List Code)}
    {oss : Option (List Stmt)} {csPre csItem csPost csEnd : List Code}
    {pre item post es : List Stmt}
    (hsep : ocs = none ∧ oss = none ∨ ∃ cs ss, ocs = some cs ∧ oss = some ss ∧ Groups cs ss)
    (hpre : Groups csPre pre) (hitem : Groups csItem item) (hpost : Groups csPost post)
    (hend : GroupsElse csEnd es) (hes : es.length ≤ 1) :
    Groups
      (foreachHead cfg h e ++
      (csPre ++ ((loopHead (h.opened e) ++ separatorLines (h.opened e) ocs) ++
      (csItem ++ ([.endItem] ++ (csPost ++ (csEnd ++ [.endBlock])))))))
      [h.stmt cfg.unicode e pre oss item post es] := by
  have hrow : Groups (h.rowid.map fun r => Code.rowid r (h.start cfg.unicode)).toList
      (h.rowStmts cfg.unicode) := by
    unfold ForeachHead.rowStmts
    cases h.rowid with
    | none => exact Groups.nil
    | some r => exact fun gs fs => rfl
  have hloop : Groups (.for' h.typeName h.ident h.reverse e h.rowid :: (_ ++ [.endItem]))
    [.for' (h.forHead e) _] := Groups.for' rfl rfl (groups_round h e hsep hitem)
  have hif : Groups (.ifNonempty h.reverse e :: (_ ++ csEnd)) [.if' (.nonempty h.reverse e) _ es] :=
    Groups.if' rfl (hrow.append (hpre.append (hloop.append hpost))) hend hes
  have hall : Groups (.block :: (_ ++ [.endBlock])) [.block _] := Groups.block rfl rfl hif
  unfold ForeachHead.stmt
  simpa [foreachHead, loopHead, ForeachHead.opened, ForeachHead.start] using hall

/-- A loop renders its parts for every element, with the separator between two items. -/
lemma translates_foreach {h : ForeachHead} {pre item post : Body} {separator empty : OptBody}
    (hpre : BodyTranslates cfg sem pre) (hsep : ∀ b, separator = .some b → BodyTranslates cfg sem b)
    (hitem : BodyTranslates cfg sem item) (hpost : BodyTranslates cfg sem post)
    (hempty : ∀ b, empty = .some b → BodyTranslates cfg sem b) (endItem endName : Option Text) :
    PartTranslates cfg sem (.foreach h pre separator item endItem post empty endName) := by
  intro st st' hperf hstack hinline hflag
  obtain ⟨n, st₁, huse, hrest⟩ := hperf.command hstack
  obtain ⟨e, he, hident, hne, hrow, hwrote⟩ := useForeach_wrote huse (hrest.exitFlag hflag)
  have hw₁ : Wrote cfg st st₁ (.foreach (h.opened e) :: st.stack)
    (insertNames st.tmplSeq h.ident h.rowid) (foreachHead cfg h e) := hwrote.of_line
  -- the parts of the sequence one after the other
  obtain ⟨st₂, h₁, hrest₁⟩ := hrest.append
  obtain ⟨csPre, ssPre, hwPre, hgPre, hmPre⟩ := hpre st₁ st₂ h₁ (by simp [hw₁.stack])
    (hw₁.ignoreInline.trans hinline) (hrest₁.exitFlag hflag)
  rw [hw₁.stack, hw₁.tmplSeq] at hwPre
  rw [hw₁.scopeFilter, hw₁.tmplSeq] at hmPre
  have hw₂ := hw₁.trans hwPre
  obtain ⟨st₃, f, ocs, oss, hrest₂, hwSep, hfident, hfrow, hfitem, hcase⟩ :=
    separator_item hsep hrest₁
    hw₂.stack rfl (hw₂.ignoreInline.trans hinline) hflag
  rw [hw₂.tmplSeq] at hwSep
  have hw₃ := hw₂.trans hwSep
  obtain ⟨st₄, h₃, hrest₃⟩ := hrest₂.append
  obtain ⟨csItem, ssItem, hwItem, hgItem, hmItem⟩ := hitem st₃ st₄ h₃ (by simp [hw₃.stack])
    (hw₃.ignoreInline.trans hinline) (hrest₃.exitFlag hflag)
  rw [hw₃.stack, hw₃.tmplSeq] at hwItem
  rw [hw₃.scopeFilter, hw₃.tmplSeq] at hmItem
  have hw₄ := hw₃.trans hwItem
  obtain ⟨st₅, hwEnd, hrest₄⟩ := hrest₃.end' hw₄.stack (fun _ => rfl) hflag
  rw [hw₄.tmplSeq] at hwEnd
  have hw₅ := hw₄.trans hwEnd
  obtain ⟨st₆, h₅, hrest₅⟩ := hrest₄.append
  obtain ⟨csPost, ssPost, hwPost, hgPost, hmPost⟩ := hpost st₅ st₆ h₅ (by simp [hw₅.stack])
    (hw₅.ignoreInline.trans hinline) (hrest₅.exitFlag hflag)
  rw [hw₅.stack, hw₅.tmplSeq] at hwPost
  rw [hw₅.scopeFilter, hw₅.tmplSeq] at hmPost
  have hw₆ := hw₅.trans hwPost
  obtain ⟨csEnd, es, hwLast, hgEnd, hes, hmEnd⟩ := empty_end hempty hrest₅ hw₆.stack
    (hw₆.ignoreInline.trans hinline) hflag
  rw [hw₆.tmplSeq, hfident, hfrow, ForeachHead.opened, eraseNames_insertNames hne] at hwLast
  rw [hw₆.scopeFilter, hw₆.tmplSeq] at hmEnd
  rw [hw₂.scopeFilter, hw₂.tmplSeq] at hcase
  have hgroups : ocs = none ∧ oss = none ∨ ∃ cs ss, ocs = some cs ∧ oss = some ss ∧
      Groups cs ss := by
    obtain ⟨-, hocs, hoss⟩ | ⟨b, cs, ss, -, hocs, hoss, hg, -⟩ := hcase
    · exact .inl ⟨hocs, hoss⟩
    · exact .inr ⟨cs, ss, hocs, hoss, hg⟩
  refine ⟨_, [h.stmt cfg.unicode e ssPre oss ssItem ssPost es], ?_,
    groups_foreach hgroups hgPre hgItem hgPost hgEnd hes, ?_⟩
  · have hall := hw₆.trans hwLast
    simpa only [List.append_assoc] using hall
  · intro L hL
    have hseq : makeIdent cfg.unicode st.tmplSeq h.seq = some e := he
    simp only [Part.fine, hseq, Option.all_some, Bool.and_eq_true] at hL
    obtain ⟨⟨hfine, hclear⟩, ⟨⟨⟨hLpre, hLsep⟩, hLitem⟩, hLpost⟩, hLempty⟩ := hL
    have hseparate : h.Separate L e :=
      ⟨hfine, hclear, fun hmem => hident (makeIdent_names hseq hmem), fun r hr hmem =>
        hrow r hr (makeIdent_names hseq hmem)⟩
    have hnone : oss = none → ∀ σ, separator.render cfg.unicode st.scopeFilter sem
        (insertNames st.tmplSeq h.ident h.rowid) σ = some [] := by
      rintro hoss σ
      obtain ⟨rfl, -, -⟩ | ⟨b, cs, ss, -, -, hsome, -⟩ := hcase
      · rw [OptBody.render]
      · cases hoss.symm.trans hsome
    have hsome : ∀ ss, oss = some ss → Means cfg.unicode sem (h.loopLocals L) ss
        (separator.rowsFit cfg.unicode sem (insertNames st.tmplSeq h.ident h.rowid))
        (separator.render cfg.unicode st.scopeFilter sem
          (insertNames st.tmplSeq h.ident h.rowid)) := by
      rintro ss hoss
      obtain ⟨-, -, hno⟩ | ⟨b, cs, ss', rfl, -, hsome, -, hmeans⟩ := hcase
      · cases hoss.symm.trans hno
      · obtain rfl := Option.some.inj (hoss.symm.trans hsome)
        rw [OptBody.fine] at hLsep
        apply (hmeans _ hLsep).congr
        · intro σ hσ
          rwa [OptBody.rowsFit] at hσ
        · intro σ
          rw [OptBody.render]
    apply (means_foreach hseparate (hmPre _ hLpre) hnone hsome (hmItem _ hLitem) (hmPost _ hLpost)
      (hmEnd _ hLempty)).congr
    · intro σ hσ
      rwa [Part.rowsFit, hseq] at hσ
    · intro σ
      rw [Part.render, hseq]
      rfl

mutual

/-- Every body, by recursion over its parts. -/
theorem Body.translates : (b : Body) → BodyTranslates cfg sem b
  | .nil => translates_nil
  | .cons p b => translates_cons (Part.translates p) (Body.translates b)

theorem Part.translates : (p : Part) → PartTranslates cfg sem p
  | .text s => translates_text s
  | .show' d s => translates_show d s
  | .if' _ b bs => translates_if (Body.translates b) (Branches.translates bs)
  | .foreach _ pre separator item endItem post empty endName =>
    translates_foreach (Body.translates pre) (OptBody.translates separator) (Body.translates item)
      (Body.translates post) (OptBody.translates empty) endItem endName

theorem Branches.translates : (bs : Branches) → BranchesTranslate cfg sem bs
  | .end' name => translates_end name
  | .else' b name => translates_else (Body.translates b) name
  | .elif _ b bs => translates_elif (Body.translates b) (Branches.translates bs)

theorem OptBody.translates : (o : OptBody) → ∀ b, o = .some b → BodyTranslates cfg sem b
  | .none, _, h => nomatch h
  | .some b, _, h => OptBody.some.inj h ▸ Body.translates b

end

end Induction

/-! ## The code of a body -/

/-- The names of a template are local variables of the emitted function. -/
def Values.env {V : Type*} (σ : Values V) : Env V := σ.map fun p => (p.1, .element p.2)

def Values.locals {V : Type*} (σ : Values V) : Locals := σ.map fun p => (p.1, false)

/-- The values that the template begins with are the ones in scope. -/
lemma agrees_values {V : Type*} (sem : Sem V) (σ : Values V) : Agrees sem σ.locals σ.env σ := by
  induction σ with
  | nil => exact .nil
  | cons p σ ih => exact .name ih rfl

/-- The code that is written for an accepted body writes its rendering, whatever the values are, if
no name is taken for another one and the row numbers stay in the range of `int`. -/
theorem run_body_writes {V : Type*} (sem : Sem V) {b : Body} {es : List Event}
    (hspells : Spells cfg.unicode es b.items) (hrun : run cfg st es = some st')
    (hflag : st'.exitFlag = false) (hstack : st.stack ≠ []) (hinline : st.ignoreInline = false) :
    ∃ cs, st'.templateCode cfg = st.templateCode cfg ++ cs ∧
      ∀ σ : Values V, b.fine cfg.unicode st.scopeFilter st.tmplSeq σ.locals = true →
        b.rowsFit cfg.unicode sem st.tmplSeq σ →
        execCode cfg.unicode sem cs σ.env =
          (b.render cfg.unicode st.scopeFilter sem st.tmplSeq σ).map fun t => (σ.env, t) := by
  obtain ⟨cs, ss, hwrote, hgroups, hmeans⟩ :=
    Body.translates b st st' ⟨es, hspells, hrun⟩ hstack hinline
    hflag
  refine ⟨cs, hwrote.code, ?_⟩
  intro σ hfine hrows
  rw [execCode, hgroups.parse, Option.bind_some]
  exact hmeans σ.locals hfine σ.env σ (agrees_values sem σ) hrows

/-- Numbers: a number has the numbers below it as elements, `content` is 2, an expression is worth
the first value in it. -/
def Sem.numbers : Sem ℕ where
  content := 2
  expr ts := (ts.filterMap Sum.getRight?).headD 0
  int n := n
  print n := (toString n).toList
  truth n := n ≠ 0
  elements := List.range
  raw _ _ := false

/-- A state in a template. -/
def State.inTemplate : State :=
  { State.init [] [] with stack := [.template (str "t")], ignoreInline := false }

/-- A numbered list. -/
def listBody : Body :=
  .cons (.foreach ⟨str "x", none, some (str "i"), some (str "1"), false, str "items"⟩ .nil
    (.some (.cons (.text (str ", ")) .nil))
    (.cons (.show' false (str "i "))
      (.cons (.text (str ":")) (.cons (.show' false (str "x ")) .nil)))
    none .nil (.some (.cons (.text (str "-")) .nil)) none) .nil

def listEvents : List Event :=
  [.chunk 1 (str "<% foreach x rowid i from 1 in items %>"), .chunk 1 [],
    .chunk 1 (str "<% separator %>"), .chunk 1 (str ", "), .chunk 1 (str "<% item %>"),
    .chunk 1 (str "<%= i %>"), .chunk 1 (str ":"), .chunk 1 (str "<%= x %>"),
    .chunk 1 (str "<% end %>"), .chunk 1 (str "<% empty %>"), .chunk 1 (str "-"),
    .chunk 1 (str "<% end %>")]

theorem run_body_writes_list : ∃ st', run .ascii .inTemplate listEvents = some st' ∧
    st'.exitFlag = false ∧ ∃ cs, st'.templateCode .ascii =
      State.inTemplate.templateCode .ascii ++ cs ∧
      execCode .ascii .numbers cs [] = some ([], str "1:0, 2:1") := by
  have hspells : Spells .ascii listEvents listBody.items :=
    .command (by decide) (by decide +kernel) <| .skip <| .command (by decide) (by decide +kernel) <|
    .text (by decide) (by decide +kernel) <| .command (by decide) (by decide +kernel) <|
    .command (by decide) (by decide +kernel) <| .text (by decide) (by decide +kernel) <|
    .command (by decide) (by decide +kernel) <| .command (by decide) (by decide +kernel) <|
    .command (by decide) (by decide +kernel) <| .text (by decide) (by decide +kernel) <|
    .command (by decide) (by decide +kernel) .nil
  have h : (run .ascii .inTemplate listEvents).map State.exitFlag = some false := by decide +kernel
  obtain ⟨st', hrun, hflag⟩ := Option.map_eq_some_iff.1 h
  obtain ⟨cs, hcode, hexec⟩ := run_body_writes Sem.numbers hspells hrun hflag (by decide) rfl
  have hseq : ((makeIdent .ascii [] (str "items")).bind fun e =>
      sequence Sem.numbers (Values.names Sem.numbers []) false e) = some [0, 1] := by decide +kernel
  have hrows : listBody.rowsFit .ascii Sem.numbers [] [] := by
    simp only [listBody, Body.rowsFit, Part.rowsFit, OptBody.rowsFit, hseq]
    exact ⟨⟨fun _ => by decide +kernel, trivial, by simp, trivial⟩, trivial⟩
  have hrender : listBody.render .ascii State.inTemplate.scopeFilter Sem.numbers [] [] =
      some (str "1:0, 2:1") := by decide +kernel
  refine ⟨st', hrun, hflag, cs, hcode, (hexec [] (by decide +kernel) hrows).trans ?_⟩
  exact congrArg (Option.map fun t => (_, t)) hrender

/-- A sequence whose row number is named like the iterator. -/
def capturedBody : Body :=
  .cons (.foreach ⟨str "x", none, some (str "x_ptr"), none, false, str "items"⟩ .nil .none
    (.cons (.text (str "a")) .nil) none .nil .none none) .nil

def capturedEvents : List Event :=
  [.chunk 1 (str "<% foreach x rowid x_ptr in items %>"), .chunk 1 (str "<% item %>"),
    .chunk 1 (str "a"), .chunk 1 (str "<% end %>"), .chunk 1 (str "<% end %>")]

/-- The compiler accepts a row number with the name of the iterator.  The loop then moves the
iterator twice in a round, and every other item is left out. -/
theorem run_body_captured :
    Spells .ascii capturedEvents capturedBody.items ∧
      capturedBody.render .ascii State.inTemplate.scopeFilter Sem.numbers [] [] = some (str "aa") ∧
      ∃ st' cs, run .ascii .inTemplate capturedEvents = some st' ∧ st'.exitFlag = false ∧
        st'.templateCode .ascii = State.inTemplate.templateCode .ascii ++ cs ∧
        (execCode .ascii .numbers cs []).map Prod.snd = some (str "a") := by
  have h : (run .ascii .inTemplate capturedEvents).map (fun st => (st.exitFlag,
      (execCode .ascii .numbers (st.templateCode .ascii) []).map Prod.snd)) =
        some (false, some (str "a")) := by decide +kernel
  obtain ⟨st', hrun, hresult⟩ := Option.map_eq_some_iff.1 h
  obtain ⟨hflag, hexec⟩ := Prod.mk.inj hresult
  refine ⟨?_, by decide +kernel, st', st'.templateCode .ascii, hrun, hflag, rfl, hexec⟩
  exact .command (by decide) (by decide +kernel) <| .command (by decide) (by decide +kernel) <|
    .text (by decide) (by decide +kernel) <| .command (by decide) (by decide +kernel) <|
    .command (by decide) (by decide +kernel) .nil

end Template

end Cppcms
