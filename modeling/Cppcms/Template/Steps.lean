import Cppcms.Template.Effects
import Cppcms.Template.Grammar

/-!
# What a command does

One lemma for each command: what must have held and what has been done, if no error was reported.
All later proofs about runs of the compiler use these lemmas and do not look into the commands.
-/

namespace Cppcms

namespace Template

open Delimiter State

/-- Lines have been written to the stream of the templates, and the stack and the names have
changed. -/
structure Wrote (cfg : Config) (st st' : State) (stack : List Block) (names : List Text)
    (cs : List Code) : Prop where
  exitFlag : st'.exitFlag = st.exitFlag
  stack : st'.stack = stack
  tmplSeq : st'.tmplSeq = names
  code : st'.templateCode cfg = st.templateCode cfg ++ cs
  other : st'.otherCode cfg = st.otherCode cfg
  scopeFilter : st'.scopeFilter = st.scopeFilter
  ignoreInline : st'.ignoreInline = st.ignoreInline

variable {cfg : Config} {st st' : State}

variable {p : Prop} {x : Text} {bs : List Block} {cs : List Code} {names : List Text}
  {cond : IfCondition} {b : Block} {ident : Text} {rowid : Option Text} {content : Option Text}
  {c : Code} {param : StrOrVar} {params : Option Text} {s : Text}

/-- A check that reports an error. -/
lemma errorExit_ite [Decidable p] (h : (if p then st.errorExit x else st).exitFlag = false) :
    ¬ p := by
  intro hp
  rw [if_pos hp] at h
  cases h

/-- A check that reports an error otherwise. -/
lemma errorExit_ite_not [Decidable p] (h : (if p then st else st.errorExit x).exitFlag = false) :
    p := by
  by_contra hp
  rw [if_neg hp] at h
  cases h

/-- Lines that leave the stack and the names as they are. -/
lemma wrote_outputs (st : State) (cs : List Code) :
    Wrote cfg st (st.outputs (outputTemplate cfg) cs) st.stack st.tmplSeq cs := by
  constructor <;> simp

lemma wrote_outputTemplate (st : State) (c : Code) :
    Wrote cfg st (st.outputTemplate cfg c) st.stack st.tmplSeq [c] := wrote_outputs st [c]

/-- The stack may be changed afterwards. -/
lemma Wrote.setStack (h : Wrote cfg st st' bs names cs) (bs' : List Block) :
    Wrote cfg st { st' with stack := bs' } bs' names cs :=
  ⟨h.exitFlag, rfl, h.tmplSeq, h.code, h.other, h.scopeFilter, h.ignoreInline⟩

/-- A block may be put on the stack afterwards. -/
lemma Wrote.push (h : Wrote cfg st st' bs names cs) (b : Block) :
    Wrote cfg st (st'.push b) (b :: bs) names cs := by
  rw [← h.stack]
  exact h.setStack (b :: st'.stack)

/-- Another line. -/
lemma Wrote.output (h : Wrote cfg st st' bs names cs) (c : Code) :
    Wrote cfg st (st'.outputTemplate cfg c) bs names (cs ++ [c]) := by
  constructor <;>
    simp [h.exitFlag, h.stack, h.tmplSeq, h.code, h.other, h.scopeFilter, h.ignoreInline]

/-! ## Conditions -/

/-- `if` writes its condition and opens a block. -/
lemma useIf_wrote (h : useIf cfg st cond = some st') :
    ∃ c, condition cfg st cond = some c ∧
      Wrote cfg st st' (.if' false :: st.stack) st.tmplSeq [.if' c] := by
  unfold useIf at h
  obtain ⟨c, hc, rfl⟩ := Option.map_eq_some_iff.1 h
  refine ⟨c, hc, ?_⟩
  constructor <;> simp

lemma isIf_eq (h : b.isIf = true) : ∃ elif, b = .if' elif := by
  cases b with
  | if' elif => exact ⟨elif, rfl⟩
  | _ => cases h

/-- `elif` needs an `if` on top and turns it into one that closes twice. -/
lemma useElif_wrote (h : useElif cfg st cond = some st') (hflag : st'.exitFlag = false) :
    ∃ c elif bs, condition cfg st cond = some c ∧ st.stack = .if' elif :: bs ∧
      Wrote cfg st st' (.if' true :: bs) st.tmplSeq [.closeIf, .else', .if' c] := by
  unfold useElif at h
  obtain ⟨c, hc, rfl⟩ := Option.map_eq_some_iff.1 h
  split at hflag
  · cases hflag
  · rename_i prev bs hstack
    rw [push_exitFlag, outputs_exitFlag] at hflag
    have hif := errorExit_ite_not hflag
    obtain ⟨elif, rfl⟩ := isIf_eq hif
    refine ⟨c, elif, bs, hc, hstack, ?_⟩
    simp only [if_pos hif]
    constructor <;> simp

/-- `else` needs an `if` on top. -/
lemma useElse_wrote (h : useElse cfg st = some st') (hflag : st'.exitFlag = false) :
    ∃ elif bs, st.stack = .if' elif :: bs ∧
      Wrote cfg st st' (.else' :: bs) st.tmplSeq [.closeElse] := by
  unfold useElse at h
  split at h
  · cases h
  · rename_i prev bs hstack
    obtain rfl := Option.some.inj h
    rw [push_exitFlag, outputTemplate_exitFlag] at hflag
    have hif := errorExit_ite_not hflag
    obtain ⟨elif, rfl⟩ := isIf_eq hif
    refine ⟨elif, bs, hstack, ?_⟩
    rw [if_pos hif]
    constructor <;> simp

/-! ## Sequences -/

/-- The names with the name of an element and the name of the row number. -/
def insertNames (names : List Text) (ident : Text) (rowid : Option Text) : List Text :=
  rowid.toList ++ ident :: names

/-- The names without the name of an element and the name of the row number. -/
def eraseNames (names : List Text) (ident : Text) : Option Text → List Text
  | none => names.erase ident
  | some r => (names.erase ident).erase r

/-- The lines before the head of the loop. -/
def foreachHead (cfg : Config) (h : ForeachHead) (seqName : Expr) : List Code :=
  [.block, .ifNonempty h.reverse seqName] ++
    (h.rowid.map fun r => Code.rowid r (cfg.unicode.int (h.rowidBegin.getD []))).toList

/-- A loop that is taken has new names, and writes its head. -/
lemma useForeach_wrote {h : ForeachHead} (hst : useForeach cfg st h = some st')
    (hflag : st'.exitFlag = false) :
    ∃ seqName, st.ident cfg h.seq = some seqName ∧ h.ident ∉ st.tmplSeq ∧ h.rowid ≠ some h.ident ∧
      (∀ r, h.rowid = some r → r ∉ st.tmplSeq) ∧
      Wrote cfg st st'
        (.foreach ⟨h.ident, h.typeName, h.rowid, h.reverse, seqName, false, false⟩ :: st.stack)
        (insertNames st.tmplSeq h.ident h.rowid) (foreachHead cfg h seqName) := by
  unfold useForeach at hst
  split at hst
  · cases hst
  · rename_i seqName hseq
    obtain rfl := Option.some.inj hst
    rw [push_exitFlag] at hflag
    -- the checks one after the other, the last one first
    cases hrow : h.rowid with
    | none =>
      simp only [hrow, reduceCtorEq, if_false, outputs_exitFlag, addName_exitFlag] at hflag ⊢
      have hident := errorExit_ite hflag
      rw [if_neg hident] at hflag ⊢
      refine ⟨seqName, hseq, hident, by simp, by simp, ?_⟩
      constructor <;> simp [foreachHead, insertNames, hrow, hident]
    | some r =>
      simp only [hrow, outputTemplate_exitFlag, outputs_exitFlag, addName_exitFlag] at hflag ⊢
      have hr := errorExit_ite hflag
      rw [if_neg hr] at hflag ⊢
      have hne := errorExit_ite hflag
      rw [if_neg hne] at hflag hr ⊢
      have hident := errorExit_ite hflag
      rw [if_neg hident] at hflag hr ⊢
      refine ⟨seqName, hseq, hident, hne, by simpa using hr, ?_⟩
      have hne' : r ≠ h.ident := by simpa using hne
      constructor <;> simp [foreachHead, insertNames, hrow, hident, hr, hne']

/-- The lines that open a loop. -/
def loopHead (f : Foreach) : List Code :=
  [.for' f.typeName f.ident f.reverse f.seqName f.rowid, .reference f.typeName f.ident]

/-- The first separator of a loop. -/
lemma useSeparator_wrote (hflag : (useSeparator cfg st).exitFlag = false) :
    ∃ f bs, st.stack = .foreach f :: bs ∧ f.hasSeparator = false ∧
      Wrote cfg st (useSeparator cfg st) (.foreach { f with hasSeparator := true } :: bs) st.tmplSeq
        (loopHead f ++ [.ifNotFirst f.ident f.reverse f.seqName]) := by
  unfold useSeparator at hflag ⊢
  split at hflag
  · rename_i f bs hstack
    unfold prepareForeach at hflag ⊢
    rw [outputs_exitFlag] at hflag
    have hsep := errorExit_ite hflag
    refine ⟨f, bs, hstack, by simpa using hsep, ?_⟩
    simp only [if_neg hsep]
    constructor <;> simp [loopHead]
  · cases hflag

/-- The first item of a loop. -/
lemma useItem_wrote (hflag : (useItem cfg st).exitFlag = false) :
    ∃ f bs, st.stack = .foreach f :: bs ∧ f.hasItem = false ∧
      Wrote cfg st (useItem cfg st) (.item :: .foreach { f with hasItem := true } :: bs) st.tmplSeq
        (if f.hasSeparator then [.endSeparator] else loopHead f) := by
  unfold useItem at hflag ⊢
  split at hflag
  · rename_i f bs hstack
    have hitem : ¬ f.hasItem = true := by
      intro hitem
      simp only [hitem, if_true] at hflag
      split_ifs at hflag <;> simp [prepareForeach] at hflag
    refine ⟨f, bs, hstack, by simpa using hitem, ?_⟩
    simp only [if_neg hitem]
    split_ifs with hsep
    · exact (wrote_outputTemplate st .endSeparator).setStack _
    · have hwrote : Wrote cfg st (prepareForeach cfg st f) st.stack st.tmplSeq (loopHead f) := by
        constructor <;> simp [prepareForeach, loopHead, hsep]
      exact hwrote.setStack _
  · cases hflag

/-- The part for an empty sequence comes behind the item. -/
lemma useEmpty_wrote (hflag : (useEmpty cfg st).exitFlag = false) :
    ∃ f bs, st.stack = .foreach f :: bs ∧ f.hasItem = true ∧
      Wrote cfg st (useEmpty cfg st) (.empty f.ident f.rowid :: bs) st.tmplSeq [.elseEmpty] := by
  unfold useEmpty at hflag ⊢
  split at hflag
  · rename_i f bs hstack
    rw [push_exitFlag, outputTemplate_exitFlag] at hflag
    have hitem := errorExit_ite_not hflag
    refine ⟨f, bs, hstack, hitem, ?_⟩
    simp only [if_pos hitem]
    constructor <;> simp
  · cases hflag

/-- The names are in use when they are taken away. -/
lemma delNames_wrote (cfg : Config) {st1 st2 : State} (h1 : st.delName ident = some st1)
    (h2 : st1.delNameOpt rowid = some st2) :
    Wrote cfg st st2 st.stack (eraseNames st.tmplSeq ident rowid) [] := by
  rw [(delName_eq h1).2] at h2
  cases rowid with
  | none =>
    obtain rfl := Option.some.inj h2
    constructor <;> simp [eraseNames]
  | some r =>
    rw [(delName_eq h2).2]
    constructor <;> simp [eraseNames]

/-- A loop that ends has had its item, and its names are forgotten. -/
lemma endForeach_wrote {f : Foreach} (h : endForeach cfg st f = some st')
    (hflag : st'.exitFlag = false) : f.hasItem = true ∧
      Wrote cfg st st' st.stack (eraseNames st.tmplSeq f.ident f.rowid)
        [.endNonempty, .endBlock] := by
  dsimp only [endForeach] at h
  split at h
  · cases h
  · rename_i st1 h1
    obtain ⟨st2, h2, rfl⟩ := Option.map_eq_some_iff.1 h
    have hnames := delNames_wrote cfg h1 h2
    rw [outputs_exitFlag, hnames.exitFlag] at hflag
    have hitem := errorExit_ite_not hflag
    rw [if_pos hitem] at hnames
    refine ⟨hitem, ?_⟩
    constructor <;> simp [hnames.exitFlag, hnames.stack, hnames.tmplSeq, hnames.code, hnames.other,
      hnames.scopeFilter, hnames.ignoreInline]

lemma endEmpty_wrote (h : endEmpty cfg st ident rowid = some st') :
    Wrote cfg st st' st.stack (eraseNames st.tmplSeq ident rowid) [.endEmpty, .endBlock] := by
  dsimp only [endEmpty] at h
  split at h
  · cases h
  · rename_i st1 h1
    have hnames := delNames_wrote cfg h1 h
    constructor <;> simp [hnames.exitFlag, hnames.stack, hnames.tmplSeq, hnames.code, hnames.other,
      hnames.scopeFilter, hnames.ignoreInline]

/-! ## The other commands -/

/-- Lines with balanced braces have been written, and the stack and the names are as before. -/
def WrotePlain (cfg : Config) (st st' : State) : Prop :=
  ∃ cs, Balanced (cs.flatMap Code.braces) ∧ Wrote cfg st st' st.stack st.tmplSeq cs

lemma balanced_pair (b : Brace) : Balanced [opening b, closing b] := .wrap b .nil .nil

/-- The lines of `print_using_block_start`. -/
lemma printUsingBlockStart_wrote {c v : Text} {tv : Option Expr}
    (h : printUsingBlockStart cfg st c v content tv = some st') :
    ∃ cs, cs.flatMap Code.braces = [opening .using'] ∧ Wrote cfg st st' st.stack st.tmplSeq cs := by
  unfold printUsingBlockStart at h
  obtain ⟨e, -, rfl⟩ := Option.map_eq_some_iff.1 h
  refine ⟨_, ?_, wrote_outputs st _⟩
  cases content <;> cases tv <;> rfl

/-- `using` opens one brace. -/
lemma useUsing_wrote {c n : Text} {from' : Option RenderNames}
    (h : useUsing cfg st c content n from' = some st') :
    ∃ cs, cs.flatMap Code.braces = [opening .using'] ∧
      Wrote cfg st st' (.using' :: st.stack) st.tmplSeq cs := by
  dsimp only [useUsing] at h
  split at h
  · cases h
  · obtain ⟨st1, h1, rfl⟩ := Option.map_eq_some_iff.1 h
    obtain ⟨cs, hcs, hwrote⟩ := printUsingBlockStart_wrote h1
    exact ⟨cs, hcs, hwrote.push .using'⟩

lemma useRender_wrote {names : RenderNames} (h : useRender cfg st names content = some st') :
    WrotePlain cfg st st' := by
  dsimp only [useRender] at h
  split at h
  · obtain rfl := Option.some.inj h
    refine ⟨_, ?_, wrote_outputs st _⟩
    cases content
    · exact balanced_pair Brace.render
    · exact balanced_pair Brace.render
  · cases h

/-- A line without braces. -/
lemma wrotePlain_output (st : State) (hc : c.braces = []) :
    WrotePlain cfg st (st.outputTemplate cfg c) := by
  refine ⟨[c], ?_, wrote_outputTemplate st c⟩
  simpa [hc] using Balanced.nil

lemma useInclude_wrote {call params : Text} {from' class' content : Option Text}
    (h : useInclude cfg st call params from' class' content = some st')
    (hflag : st'.exitFlag = false) :
    WrotePlain cfg st st' := by
  dsimp only [useInclude] at h
  split at h
  · cases h
  · rename_i errs ps _
    split at h
    · obtain rfl := Option.some.inj h
      rw [outputTemplate_exitFlag] at hflag
      rw [(errors_of_exitFlag hflag).1]
      exact wrotePlain_output st rfl
    · obtain ⟨st1, h1, rfl⟩ := Option.map_eq_some_iff.1 h
      obtain ⟨cs, hcs, hwrote⟩ := printUsingBlockStart_wrote h1
      rw [printUsingBlockEnd, outputTemplate_exitFlag, outputTemplate_exitFlag,
        hwrote.exitFlag] at hflag
      rw [(errors_of_exitFlag hflag).1] at hwrote
      refine ⟨_, ?_, (hwrote.output _).output _⟩
      rw [List.flatMap_append, List.flatMap_append, hcs]
      exact balanced_pair Brace.using'
    · obtain rfl := Option.some.inj h
      rw [outputTemplate_exitFlag] at hflag
      rw [(errors_of_exitFlag hflag).1]
      exact wrotePlain_output st rfl

/-- `cache` opens its two braces and remembers the key for the end. -/
lemma useCache_wrote {timeout callback : Option Text} {nt nr : Bool}
    (h : useCache cfg st param timeout callback nt nr = some st') :
    ∃ p cs, cs.flatMap Code.braces = [opening .cache, opening .miss] ∧
      Wrote cfg st st' (.cache p timeout nt nr :: st.stack) st.tmplSeq cs := by
  dsimp only [useCache] at h
  split at h
  · rename_i p call hp hcall
    obtain rfl := Option.some.inj h
    have hbraces : call.flatMap Code.braces = [] := by
      cases callback with
      | none =>
        obtain rfl := Option.some.inj hcall
        rfl
      | some c =>
        obtain ⟨e, -, rfl⟩ := Option.map_eq_some_iff.1 hcall
        rfl
    refine ⟨p, _, ?_, (wrote_outputs st _).push _⟩
    rw [List.flatMap_append, hbraces]
    cases nr <;> rfl
  · cases h

lemma formatInput_wrote (cfg : Config) (st : State) (type : Text) (e : Expr) :
    WrotePlain cfg st (formatInput cfg st type e) := by
  unfold formatInput
  refine ⟨_, ?_, wrote_outputs st _⟩
  split_ifs <;> exact balanced_pair Brace.form

/-- A form in parts is a block, the other ones are written at once. -/
lemma useForm_wrote {type ident : Text} (h : useForm cfg st type ident = some st') :
    (WrotePlain cfg st st' ∧ type ≠ str "block") ∨
      ∃ e cs, Balanced (cs.flatMap Code.braces) ∧
        Wrote cfg st st' (.form e :: st.stack) st.tmplSeq cs ∧ type = str "block" := by
  unfold useForm at h
  obtain ⟨e, -, rfl⟩ := Option.map_eq_some_iff.1 h
  split_ifs with hinput hblock
  · refine .inl ⟨formatInput_wrote cfg st _ e, ?_⟩
    rintro rfl
    simp [str] at hinput
  · obtain ⟨cs, hcs, hwrote⟩ := formatInput_wrote cfg st (str "begin") e
    exact .inr ⟨e, cs, hcs, hwrote.push (.form e), hblock⟩
  · refine .inl ⟨⟨_, ?_, wrote_outputTemplate st _⟩, hblock⟩
    exact balanced_pair Brace.form

lemma useTrigger_wrote (h : useTrigger cfg st param = some st') :
    WrotePlain cfg st st' := by
  unfold useTrigger at h
  obtain ⟨p, -, rfl⟩ := Option.map_eq_some_iff.1 h
  exact wrotePlain_output st rfl

lemma useCsrf_wrote (st : State) (type : Csrf) : WrotePlain cfg st (useCsrf cfg st type) := by
  apply wrotePlain_output
  cases type <;> rfl

/-! ### Text with parameters -/

/-- A line after the messages of its parameters. -/
lemma errors_output_wrote {xs : List Text}
    (hflag : ((st.errors xs).outputTemplate cfg c).exitFlag = false) :
    xs = [] ∧ Wrote cfg st ((st.errors xs).outputTemplate cfg c) st.stack st.tmplSeq [c] := by
  rw [outputTemplate_exitFlag] at hflag
  obtain ⟨heq, hxs, -⟩ := errors_of_exitFlag hflag
  rw [heq]
  exact ⟨hxs, wrote_outputTemplate st c⟩

/-- A translated text is one line, with its parameters. -/
lemma useGettext_wrote (h : useGettext cfg st s params = some st') (hflag : st'.exitFlag = false) :
    ∃ es, usingParams cfg st params none = some ([], es) ∧
      Wrote cfg st st' st.stack st.tmplSeq [translateLine [.user s] es] := by
  unfold useGettext at h
  obtain ⟨⟨xs, es⟩, hparams, rfl⟩ := Option.map_eq_some_iff.1 h
  obtain ⟨rfl, hwrote⟩ := errors_output_wrote hflag
  exact ⟨es, hparams, hwrote⟩

lemma useNgettext_wrote {s1 s2 ident : Text} (h : useNgettext cfg st s1 s2 ident params = some st')
    (hflag : st'.exitFlag = false) :
    ∃ idt es, st.ident cfg ident = some idt ∧ usingParams cfg st params none = some ([], es) ∧
      Wrote cfg st st' st.stack st.tmplSeq
        [translateLine [.user s1, .ofString ",", .user s2, .ofString ",", .ofExpr idt] es] := by
  unfold useNgettext at h
  split at h
  · cases h
  · rename_i idt hidt
    obtain ⟨⟨xs, es⟩, hparams, rfl⟩ := Option.map_eq_some_iff.1 h
    obtain ⟨rfl, hwrote⟩ := errors_output_wrote hflag
    exact ⟨idt, es, hidt, hparams, hwrote⟩

lemma useUrl_wrote (h : useUrl cfg st s params = some st') (hflag : st'.exitFlag = false) :
    ∃ es, usingParams cfg st params (some urlencodeFilter) = some ([], es) ∧
      Wrote cfg st st' st.stack st.tmplSeq [urlLine s es] := by
  unfold useUrl at h
  obtain ⟨⟨xs, es⟩, hparams, rfl⟩ := Option.map_eq_some_iff.1 h
  obtain ⟨rfl, hwrote⟩ := errors_output_wrote hflag
  exact ⟨es, hparams, hwrote⟩

/-- Without an error a variable is prepared and shown. -/
lemma useFiltersShow_wrote {deprecated : Bool} (h : useFiltersShow cfg st deprecated s = some st')
    (hflag : st'.exitFlag = false) :
    ∃ e, prepare cfg.unicode st.scope none s = some ([], .expr e) ∧
      Wrote cfg st st' st.stack st.tmplSeq [.show' e] := by
  unfold useFiltersShow at h
  generalize hst1 : (if deprecated then st.warning
    (str "Variables syntax like <% foo %> is deprecated, use <%= foo %> syntax") else st) = st1 at h
  have hwarning : Wrote cfg st st1 st.stack st.tmplSeq [] := by
    subst hst1
    split_ifs
    · exact ⟨rfl, rfl, rfl, by simp, rfl, rfl, rfl⟩
    · exact ⟨rfl, rfl, rfl, by simp, rfl, rfl, rfl⟩
  have hscope : st1.scope = st.scope := by rw [scope, scope, hwarning.tmplSeq, hwarning.scopeFilter]
  obtain ⟨⟨xs, r⟩, hprepare, rfl⟩ := Option.map_eq_some_iff.1 h
  rw [hscope] at hprepare
  have hxs : (st1.errors xs).exitFlag = false := by
    cases r with
    | failed => exact hflag
    | expr e => exact (outputTemplate_exitFlag cfg _ _).symm.trans hflag
    | noVariable => exact (outputTemplate_exitFlag cfg _ _).symm.trans hflag
  obtain ⟨heq, rfl, -⟩ := errors_of_exitFlag hxs
  obtain ⟨e, rfl⟩ := prepare_expr hprepare
  refine ⟨e, hprepare, ?_⟩
  exact hwarning.output (.show' e)

lemma translateLine_braces {args : List Fragment} (params : List Expr)
    (hargs : args.filterMap Fragment.brace = []) : (translateLine args params).braces = [] := by
  unfold translateLine
  split_ifs <;> simp [List.filterMap_cons, hargs]

lemma urlLine_braces (s : Text) (params : List Expr) : (urlLine s params).braces = [] := by
  unfold urlLine
  split_ifs <;> rfl

/-! ## Skins, views and templates -/

/-- Nothing is written, and the stack and the filter in force stay; errors may be reported. -/
structure SameOutput (st st' : State) : Prop where
  stack : st'.stack = st.stack
  declarations : st'.declarations = st.declarations
  definitions : st'.definitions = st.definitions
  scopeFilter : st'.scopeFilter = st.scopeFilter
  exitFlag : st'.exitFlag = false → st.exitFlag = false

lemma SameOutput.refl (st : State) : SameOutput st st := ⟨rfl, rfl, rfl, rfl, id⟩

lemma SameOutput.trans {st'' : State} (h : SameOutput st st') (h' : SameOutput st' st'') :
    SameOutput st st'' :=
  ⟨h'.stack.trans h.stack, h'.declarations.trans h.declarations, h'.definitions.trans h.definitions,
    h'.scopeFilter.trans h.scopeFilter, h.exitFlag ∘ h'.exitFlag⟩

lemma sameOutput_errorExit (st : State) (x : Text) : SameOutput st (st.errorExit x) :=
  ⟨rfl, rfl, rfl, rfl, fun h => by cases h⟩

lemma sameOutput_delNames {vs : List Text} (h : delNames st vs = some st') : SameOutput st st' := by
  induction vs generalizing st with
  | nil =>
    obtain rfl := Option.some.inj h
    exact SameOutput.refl st
  | cons v vs ih =>
    unfold delNames at h
    split at h
    · cases h
    · rename_i st1 h1
      rw [(delName_eq h1).2] at h
      have hrest := ih h
      exact ⟨hrest.stack, hrest.declarations, hrest.definitions, hrest.scopeFilter, hrest.exitFlag⟩

/-- Reading the parameters of a template writes nothing. -/
lemma sameOutput_createParametersLoop {n : ℕ} {lst : Text} {res : List Text} {p : Option Text}
    (h : createParametersLoop cfg n st lst res = some (st', p)) : SameOutput st st' := by
  induction n generalizing st lst res with
  | zero => cases h
  | succ n ih =>
    unfold createParametersLoop at h
    split at h
    · obtain ⟨st1, h1, heq⟩ := Option.map_eq_some_iff.1 h
      obtain ⟨rfl, -⟩ := Prod.mk.inj heq
      exact (sameOutput_delNames h1).trans (sameOutput_errorExit _ _)
    · dsimp only at h
      split_ifs at h
      · obtain ⟨st1, h1, heq⟩ := Option.map_eq_some_iff.1 h
        obtain ⟨rfl, -⟩ := Prod.mk.inj heq
        exact (sameOutput_errorExit st _).trans (sameOutput_delNames h1)
      · have hrest := ih h
        exact ⟨hrest.stack, hrest.declarations, hrest.definitions,
          hrest.scopeFilter, hrest.exitFlag⟩
      · obtain ⟨rfl, -⟩ := Prod.mk.inj (Option.some.inj h)
        exact ⟨rfl, rfl, rfl, rfl, id⟩

lemma sameOutput_templateParameters {params : Text} {p : Option Text}
    (h : templateParameters cfg st params = some (st', p)) : SameOutput st st' := by
  unfold templateParameters at h
  split_ifs at h
  · exact sameOutput_createParametersLoop h
  · obtain ⟨rfl, -⟩ := Prod.mk.inj (Option.some.inj h)
    exact SameOutput.refl _

/-- Without an error a view is on top of the stack. -/
lemma checkView_cases (hflag : (checkView st).exitFlag = false) :
    checkView st = st ∧ ∃ c bs, st.stack = .view c :: bs := by
  unfold checkView at hflag ⊢
  split at hflag
  · rename_i c bs hstack
    exact ⟨rfl, c, bs, hstack⟩
  · cases hflag

/-- A template is declared and its body is opened, in one of the streams. -/
lemma useTemplate_cases {name params : Text} {abstract : Bool}
    (h : useTemplate cfg st name params abstract = some st') (hflag : st'.exitFlag = false) :
    ∃ c bs st1 p, st.stack = .view c :: bs ∧ st.exitFlag = false ∧
      st'.scopeFilter = st.scopeFilter ∧
      st'.stack = (if abstract then [] else [.template name]) ++ st.stack ∧
      Added cfg st st' (templateDeclarations cfg name p abstract)
        (templateDefinitions cfg st1 name p abstract) := by
  unfold useTemplate at h
  split at h
  · cases h
  · rename_i st1 p h1
    have hsame := sameOutput_templateParameters h1
    dsimp only at h
    generalize hst2 : (st1.outputs outputDeclaration (templateDeclarations cfg name (pyStr p)
      abstract)).outputs outputDefinition (templateDefinitions cfg st1 name (pyStr p) abstract) =
        st2 at h
    have hflag2 : (checkView st2).exitFlag = false := by
      split_ifs at h
      · obtain rfl := Option.some.inj h
        exact hflag
      · obtain rfl := Option.some.inj h
        exact hflag
    obtain ⟨hcheck, c, bs, hstack⟩ := checkView_cases hflag2
    rw [hcheck] at h hflag2
    have hst2_stack : st2.stack = st.stack := by simp [← hst2, hsame.stack]
    have hst2_flag : st2.exitFlag = st1.exitFlag := by simp [← hst2]
    have hst2_scope : st2.scopeFilter = st.scopeFilter := by simp [← hst2, hsame.scopeFilter]
    have hdecls : st2.declarations.map Line.code = st.declarations.map Line.code ++
        templateDeclarations cfg name (pyStr p) abstract := by
      rw [← hst2, (outputs_definitions _ _).2, (outputs_declarations _ _).1, hsame.declarations]
    have hdefs : st2.definitions.map Line.code = st.definitions.map Line.code ++
        templateDefinitions cfg st1 name (pyStr p) abstract := by
      rw [← hst2, (outputs_definitions _ _).1, (outputs_declarations _ _).2, hsame.definitions]
    refine ⟨c, bs, st1, pyStr p, hst2_stack.symm.trans hstack,
      hsame.exitFlag (hst2_flag.symm.trans hflag2), ?_⟩
    split_ifs at h with habs
    · obtain rfl := Option.some.inj h
      exact ⟨hst2_scope, by simpa [habs] using hst2_stack, Added.of_lines cfg st hdecls hdefs⟩
    · obtain rfl := Option.some.inj h
      exact ⟨hst2_scope, by simpa [habs] using hst2_stack, Added.of_lines cfg st hdecls hdefs⟩

/-- A view stands directly in a skin. -/
lemma useView_cases {name uses : Text} {extends' : Option Text} {abstract inline : Bool}
    (h : useView cfg st name uses extends' abstract inline = st') (hflag : st'.exitFlag = false) :
    st.stack = [.skin] ∧ st.exitFlag = false ∧ st'.scopeFilter = st.scopeFilter ∧
      st'.stack = .view name :: st.stack ∧
      Added cfg st st' (viewDeclarations cfg st.specGettext name uses extends' inline) [] := by
  unfold useView at h
  dsimp only at h
  generalize hst1 :
    declareView cfg { st with viewCreated := true, viewName := name } name uses extends'
    inline = st1 at h
  have hstack1 : st1.stack = st.stack := by simp [← hst1, declareView]
  have hflag1 : st1.exitFlag = st.exitFlag := by simp [← hst1, declareView]
  have hscope1 : st1.scopeFilter = st.scopeFilter := by simp [← hst1, declareView]
  have hplace : st1.stack = [.skin] := by
    by_contra hne
    rw [if_neg hne] at h
    split_ifs at h <;> subst h <;> cases hflag
  rw [if_pos hplace] at h
  have hadded : Added cfg st st1 (viewDeclarations cfg st.specGettext name uses extends' inline)
      [] := by
    subst hst1
    apply Added.of_lines
    · exact (outputs_declarations _ _).1
    · rw [declareView, (outputs_declarations _ _).2, List.append_nil]
  split_ifs at h <;> subst h
  · exact ⟨hstack1.symm.trans hplace, hflag1.symm.trans hflag, hscope1, by simp [hstack1],
      ⟨hadded.template, hadded.other⟩⟩
  · exact ⟨hstack1.symm.trans hplace, hflag1.symm.trans hflag, hscope1, by simp [hstack1],
      ⟨hadded.template, hadded.other⟩⟩

/-! ## The end of a block -/

/-- The end of a block takes no error back. -/
lemma onEnd_exitFlag (h : onEnd cfg st b = some st') (hflag : st'.exitFlag = false) :
    st.exitFlag = false := by
  cases b with
  | foreach f =>
    rw [← (endForeach_wrote h hflag).2.exitFlag]
    exact hflag
  | empty i r =>
    rw [← (endEmpty_wrote h).exitFlag]
    exact hflag
  | form e =>
    obtain rfl := Option.some.inj h
    obtain ⟨cs, -, hwrote⟩ := formatInput_wrote cfg st (str "end") e
    exact hwrote.exitFlag.symm.trans hflag
  | _ =>
    obtain rfl := Option.some.inj h
    simpa [endSkin, outputAll, endView, endTemplate, printUsingBlockEnd, endCache] using hflag

/-- `end` takes the block on top away, and the block ends. -/
lemma useEnd_cases {name : Option Text} (h : useEnd cfg st name = some st')
    (hflag : st'.exitFlag = false) :
    ∃ b bs, st.stack = b :: bs ∧ (∀ n, name = some n → b.type = n) ∧
      onEnd cfg { st with stack := bs } b = some st' := by
  unfold useEnd at h
  split at h
  · obtain rfl := Option.some.inj h
    cases hflag
  · rename_i b bs hstack
    refine ⟨b, bs, hstack, ?_⟩
    cases name with
    | none => exact ⟨by simp, h⟩
    | some n =>
      have htype := errorExit_ite_not (onEnd_exitFlag h hflag)
      simp only [if_pos htype] at h
      exact ⟨by simpa using htype, h⟩

end Template

end Cppcms
