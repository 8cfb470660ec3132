import Cppcms.Template.Body

/-!
# Executing the emitted statements

The statements that belong to the parts of a body, and what they do.  A list of statements means a
rendering (`Means`) if in every environment that agrees with the values of the template it writes
what the rendering gives, and leaves the environment as it was.
-/

namespace Cppcms

namespace Template

/-! ## Text -/

/-- The tabs before a literal are skipped. -/
lemma readLiteral_tabs (k : ℕ) (s : Text) :
    readLiteral false (List.replicate k '\t' ++ s) = readLiteral false s := by
  induction k with
  | zero => rfl
  | succ k ih =>
    rw [List.replicate_succ, List.cons_append, ← ih]
    simp [readLiteral]

variable {c : Char} {ss ss' : List Stmt}

/-- A character that is no escape stands for itself. -/
lemma readLiteral_self (hn : c ≠ '\n') (hb : c ≠ '\\') (hq : c ≠ '"') (s : Text) :
    readLiteral true (c :: s) = (readLiteral true s).map (c :: ·) := by
  rw [readLiteral.eq_6, if_neg hn]
  · exact fun d t h => absurd h hb
  · exact fun h => absurd h hb
  · exact fun h => absurd h hq

/-- A literal reads back one character. -/
lemma readLiteral_charToString (n : ℕ) (hc : plainChar c = true) (s : Text) :
    readLiteral true (charToString n c ++ s) = (readLiteral true s).map (c :: ·) := by
  have hplain : c ≠ '\n' → c ≠ '\t' → ¬ c.toNat < 32 := by
    have hcases : 32 ≤ c.toNat ∨ c = '\n' ∨ c = '\t' := by simpa [plainChar, or_assoc] using hc
    intro h1 h2 h3
    obtain h | h | h := hcases
    · omega
    · exact h1 h
    · exact h2 h
  unfold charToString
  split_ifs with h1 h2 h3 h4 h5 h6 h7 h8 h9 h10
  · subst h1
    have hrest := readLiteral_tabs n ('\t' :: '"' :: s)
    simp [str, readLiteral, escapeChar, hrest]
  · subst h2
    simp [str, readLiteral, escapeChar]
  · exact absurd (by omega) (hplain h1 h2)
  · exact absurd (by omega) (hplain h1 h2)
  · subst h5
    exact absurd (by decide) (hplain h1 h2)
  · exact absurd (by omega) (hplain h1 h2)
  · exact absurd (by omega) (hplain h1 h2)
  · subst h8
    simp [str, readLiteral, escapeChar]
  · subst h9
    simp [str, readLiteral, escapeChar]
  · exact absurd h10.2 (hplain h1 h2)
  · exact readLiteral_self h1 h8 h9 s

/-- A literal reads back the text that `to_string` made it of. -/
lemma readLiteral_toString (n : ℕ) {s : Text} (hs : s.all plainChar = true) :
    readLiteral true (toString' n s) = some s := by
  induction s with
  | nil => rfl
  | cons c s ih =>
    rw [List.all_cons, Bool.and_eq_true] at hs
    rw [toString', List.flatMap_cons, readLiteral_charToString n hs.1, ← toString', ih hs.2]
    rfl

/-! ## Statements from lines -/

/-- The tokens are read from behind. -/
lemma reduces_append (ts ts' : List CppTok) (fs : List (List Node)) :
    reduces (ts ++ ts') fs = (reduces ts' fs).bind (reduces ts) := by
  unfold reduces
  rw [List.foldr_append]
  generalize List.foldr (fun t r => Option.bind r (reduce t)) (some fs) ts' = r
  cases r with
  | some fs => rfl
  | none =>
    induction ts with
    | nil => rfl
    | cons t ts ih =>
      rw [List.foldr_cons, ih]
      rfl

@[simp] lemma Node.stmts_map (ss : List Stmt) : Node.stmts (ss.map .stmt) = some ss := by
  induction ss with
  | nil => rfl
  | cons s ss ih => simp [Node.stmts, ih]

/-- The lines are the given statements, whatever comes after them in the block. -/
def Groups (cs : List Code) (ss : List Stmt) : Prop :=
  ∀ gs fs, reduces (cs.flatMap Code.tokens) ((gs.map Node.stmt) :: fs) =
    some ((ss ++ gs).map Node.stmt :: fs)

lemma Groups.nil : Groups [] [] := fun _ _ => rfl

lemma Groups.append {cs cs' : List Code} (h : Groups cs ss) (h' : Groups cs' ss') :
    Groups (cs ++ cs') (ss ++ ss') := by
  intro gs fs
  rw [List.flatMap_append, reduces_append, h', Option.bind_some, h, List.append_assoc]

/-- The statements of a whole list of lines. -/
lemma Groups.parse {cs : List Code} {ss : List Stmt} (h : Groups cs ss) :
    parse (cs.flatMap Code.tokens) = some ss := by
  have hall := h [] []
  rw [List.map_nil, List.append_nil] at hall
  rw [Template.parse, hall]
  exact Node.stmts_map ss

/-! ### Blocks -/

/-- The lines close a block; a statement after `else` may come behind it. -/
def GroupsElse (cs : List Code) (es : List Stmt) : Prop :=
  ∀ (gs : List Stmt) (fs : List (List Node)),
    reduces (cs.flatMap Code.tokens) ((gs.map Node.stmt) :: fs) =
      some ([] :: (es.map Node.else' ++ gs.map Node.stmt) :: fs)

section Blocks

variable {cs cs' : List Code} {ss es : List Stmt} {c c' : Code}

lemma reduces_cons (c : Code) (cs : List Code) (fs : List (List Node)) :
    reduces ((c :: cs).flatMap Code.tokens) fs =
      (reduces (cs.flatMap Code.tokens) fs).bind (reduces c.tokens) := by
  rw [List.flatMap_cons, reduces_append]

/-- A closing brace begins a new block, as the tokens are read from behind. -/
lemma reduces_brace (hc : c.tokens = [.rbrace]) (fs : List (List Node)) :
    reduces ([c].flatMap Code.tokens) fs = some ([] :: fs) := by
  simp [hc, reduces]

/-- The statements of a block, from its last line on. -/
lemma Groups.reduces_block (h : Groups cs ss) (f : List Node) (fs : List (List Node)) :
    reduces (cs.flatMap Code.tokens) ([] :: f :: fs) = some (ss.map Node.stmt :: f :: fs) := by
  have hall := h [] (f :: fs)
  rwa [List.map_nil, List.append_nil] at hall

/-- The lines of a branch and of what follows it are one statement. -/
lemma Groups.if' {t : Test} (hc : c.tokens = [.if' t, .lbrace]) (h : Groups cs ss)
    (h' : GroupsElse cs' es) (hes : es.length ≤ 1) : Groups (c :: (cs ++ cs')) [.if' t ss es] := by
  intro gs fs
  rw [reduces_cons, List.flatMap_append, reduces_append, h', Option.bind_some, h.reduces_block,
    Option.bind_some, hc]
  match es, hes with
  | [], _ => simp [reduces]
  | [e], _ => simp [reduces]

/-- The lines of a loop are one statement. -/
lemma Groups.for' {head : ForHead} (hc : c.tokens = [.for' head, .lbrace])
    (hc' : c'.tokens = [.rbrace]) (h : Groups cs ss) :
    Groups (c :: (cs ++ [c'])) [.for' head ss] := by
  intro gs fs
  rw [reduces_cons, List.flatMap_append, reduces_append, reduces_brace hc', Option.bind_some,
    h.reduces_block, Option.bind_some, hc]
  simp [reduces]

lemma Groups.block (hc : c.tokens = [.lbrace]) (hc' : c'.tokens = [.rbrace]) (h : Groups cs ss) :
    Groups (c :: (cs ++ [c'])) [.block ss] := by
  intro gs fs
  rw [reduces_cons, List.flatMap_append, reduces_append, reduces_brace hc', Option.bind_some,
    h.reduces_block, Option.bind_some, hc]
  simp [reduces]

lemma GroupsElse.end' (hc : c.tokens = [.rbrace]) : GroupsElse [c] [] := by
  intro gs fs
  rw [reduces_brace hc]
  rfl

/-- The end with an `else`. -/
lemma GroupsElse.else' (hc : c.tokens = [.rbrace, .else', .lbrace]) (hc' : c'.tokens = [.rbrace])
    (h : Groups cs ss) : GroupsElse (c :: (cs ++ [c'])) [.block ss] := by
  intro gs fs
  rw [reduces_cons, List.flatMap_append, reduces_append, reduces_brace hc', Option.bind_some,
    h.reduces_block, Option.bind_some, hc]
  simp [reduces]

/-- An `else` with one statement needs no block of its own. -/
lemma GroupsElse.elif {s : Stmt} (h : Groups cs [s]) :
    GroupsElse (.closeIf :: .else' :: cs) [s] := by
  intro gs fs
  rw [reduces_cons, reduces_cons, h, Option.bind_some]
  simp [reduces, Code.tokens]

end Blocks

/-! ## Environments -/

section Agree

variable {V : Type*} {u : Unicode} {sem : Sem V}

/-- The variables in scope: those of the template have their values, and there are others. -/
inductive Agrees (sem : Sem V) : Locals → Env V → Values V → Prop
  | nil : Agrees sem [] [] []
  | name {L : Locals} {ρ : Env V} {σ : Values V} {n : Text} {c : Cell V} {v : V}
      (h : Agrees sem L ρ σ) (hc : c.value sem = some v) :
      Agrees sem ((n, false) :: L) ((n, c) :: ρ) ((n, v) :: σ)
  | madeUp {L : Locals} {ρ : Env V} {σ : Values V} {n : Text} {c : Cell V} (h : Agrees sem L ρ σ) :
      Agrees sem ((n, true) :: L) ((n, c) :: ρ) σ

variable {β : Type*} {ρ ρ' : Env V} {t : Option Text}

lemma lookup_cons_self (n : Text) (b : β) (l : List (Text × β)) :
    ((n, b) :: l).lookup n = some b := List.lookup_cons_self

lemma lookup_cons_of_ne {n m : Text} (h : n ≠ m) (b : β) (l : List (Text × β)) :
    ((m, b) :: l).lookup n = l.lookup n := by
  have hne : (n == m) = false := by simpa using h
  rw [List.lookup_cons, hne]

namespace Agrees

variable {L : Locals} {ρ : Env V} {σ : Values V}

variable {n : Text} {e : Expr}

/-- A visible name has its value. -/
lemma lookup (h : Agrees sem L ρ σ) (hn : L.visible n = true) :
    (ρ.lookup n).bind (Cell.value sem) = σ.lookup n := by
  induction h with
  | nil => rfl
  | @name L ρ σ m c v _ hc ih =>
    by_cases hnm : n = m
    · subst hnm
      simp [hc]
    · rw [lookup_cons_of_ne hnm, lookup_cons_of_ne hnm]
      apply ih
      rwa [Locals.visible, lookup_cons_of_ne hnm] at hn
  | @madeUp L ρ σ m c _ ih =>
    by_cases hnm : n = m
    · subst hnm
      rw [Locals.visible, lookup_cons_self] at hn
      cases hn
    · rw [lookup_cons_of_ne hnm]
      apply ih
      rwa [Locals.visible, lookup_cons_of_ne hnm] at hn

/-- A free name is no local variable. -/
lemma lookup_of_free (h : Agrees sem L ρ σ) (hn : L.free n = true) : ρ.lookup n = none := by
  induction h with
  | nil => rfl
  | @name L ρ σ m c v _ _ ih =>
    by_cases hnm : n = m
    · subst hnm
      rw [Locals.free, lookup_cons_self] at hn
      cases hn
    · rw [lookup_cons_of_ne hnm]
      apply ih
      rwa [Locals.free, lookup_cons_of_ne hnm] at hn
  | @madeUp L ρ σ m c _ ih =>
    by_cases hnm : n = m
    · subst hnm
      rw [Locals.free, lookup_cons_self] at hn
      cases hn
    · rw [lookup_cons_of_ne hnm]
      apply ih
      rwa [Locals.free, lookup_cons_of_ne hnm] at hn

/-- The stream is visible where no local has its name. -/
lemma outVisible (h : Agrees sem L ρ σ) (hout : L.free (str "out") = true) :
    ρ.outVisible = true := by
  rw [Env.outVisible, h.lookup_of_free hout]
  rfl

/-- A token has the same value for the code and for the template. -/
lemma tok_value (h : Agrees sem L ρ σ) {t : Tok} (ht : L.clear [t] = true) :
    t.value (ρ.names sem) = t.value (σ.names sem) := by
  cases t with
  | code s => rfl
  | name n =>
    have hn : L.visible n = true := by simpa [Locals.clear] using ht
    rw [Tok.value, Tok.value]
    exact congrArg (Option.map Sum.inr) (h.lookup hn)
  | content =>
    have hn : L.free (str "content") = true := by simpa [Locals.clear] using ht
    rw [Tok.value, Tok.value, Env.names, h.lookup_of_free hn]
    rfl

/-- An expression without hidden names has the same value on both sides. -/
lemma expr_value (h : Agrees sem L ρ σ) (he : L.clear e = true) :
    Expr.value sem (ρ.names sem) e = Expr.value sem (σ.names sem) e := by
  unfold Expr.value
  congr 1
  induction e with
  | nil => rfl
  | cons t e ih =>
    have hsplit : L.clear [t] = true ∧ L.clear e = true := by
      simpa [Locals.clear] using he
    rw [List.mapM_cons, List.mapM_cons, h.tok_value hsplit.1, ih hsplit.2]

/-- A condition without hidden names holds on both sides or on none. -/
lemma condition_holds (h : Agrees sem L ρ σ) {c : Condition} (hc : L.clearCondition u c = true) :
    c.holds u sem (ρ.names sem) = c.holds u sem (σ.names sem) := by
  cases c with
  | expr e => rw [Condition.holds, Condition.holds, h.expr_value hc]
  | raw s =>
    rw [Condition.holds, Condition.holds]
    congr 2
    apply List.map_congr_left
    intro n hn
    exact h.lookup (List.all_eq_true.1 hc n hn)

/-- A loop without hidden names runs over the same sequence on both sides. -/
lemma sequence_eq (h : Agrees sem L ρ σ) (he : L.clear e = true) (r : Bool) :
    sequence sem (ρ.names sem) r e = sequence sem (σ.names sem) r e := by
  rw [sequence, sequence, h.expr_value he]

end Agrees

/-- A list of statements writes what a rendering gives. -/
def Means (u : Unicode) (sem : Sem V) (L : Locals) (ss : List Stmt) (P : Values V → Prop)
    (R : Values V → Option Text) : Prop :=
  ∀ ρ σ, Agrees sem L ρ σ → P σ → execs u sem ss ρ = (R σ).map fun t => (ρ, t)

/-- One statement after the other, in the same environment. -/
lemma execs_append (ss ss' : List Stmt) (ρ : Env V) : execs u sem (ss ++ ss') ρ =
    (execs u sem ss ρ).bind fun r => (execs u sem ss' r.1).map fun r' => (r'.1, r.2 ++ r'.2) := by
  induction ss generalizing ρ with
  | nil =>
    rw [List.nil_append, execs, Option.bind_some]
    simp
  | cons s ss ih =>
    rw [List.cons_append, execs, execs, Option.bind_assoc]
    congr 1
    funext r
    rw [ih]
    simp [Option.map_bind, Option.bind_map, Function.comp_def]

@[simp] lemma leave_self (ρ : Env V) (t : Text) : Env.leave ρ (ρ, t) = (ρ, t) := by
  simp [Env.leave]

/-- At the end of a block the variables declared in it go away, and the others keep their values. -/
lemma leave_append (xs : Env V) (h : ρ'.length = ρ.length) (t : Text) :
    Env.leave ρ (xs ++ ρ', t) = (ρ', t) := by
  simp [Env.leave, ← h]

/-- A block of statements that leave the environment. -/
lemma map_leave {ρ : Env V} {r : Option (Env V × Text)} (h : r = t.map fun t => (ρ, t)) :
    r.map (Env.leave ρ) = t.map fun t => (ρ, t) := by
  subst h
  cases t <;> simp

/-- One statement. -/
lemma execs_singleton {s : Stmt} (h : s.exec u sem ρ = t.map fun t => (ρ', t)) :
    execs u sem [s] ρ = t.map fun t => (ρ', t) := by
  rw [execs, h]
  cases t <;> simp [execs]

/-- Statements after which the variables are the same. -/
lemma execs_append_same {ρ : Env V} (h : execs u sem ss ρ = t.map fun t => (ρ, t)) :
    execs u sem (ss ++ ss') ρ =
      t.bind fun a => (execs u sem ss' ρ).map fun r => (r.1, a ++ r.2) := by
  rw [execs_append, h]
  cases t <;> rfl

/-! ## Simple statements -/

namespace Means

variable {L : Locals} {ss ss' : List Stmt} {P P' : Values V → Prop} {R R' : Values V → Option Text}

lemma nil : Means u sem L [] P fun _ => some [] := fun _ _ _ _ => rfl

/-- The same meaning in other words. -/
lemma congr (h : Means u sem L ss P R) (hP : ∀ σ, P' σ → P σ) (hR : ∀ σ, R' σ = R σ) :
    Means u sem L ss P' R' := by
  intro ρ σ hagree hσ
  rw [hR]
  exact h ρ σ hagree (hP σ hσ)

lemma append (h : Means u sem L ss P R) (h' : Means u sem L ss' P' R') :
    Means u sem L (ss ++ ss') (fun σ => P σ ∧ P' σ)
      fun σ => (R σ).bind fun s => (R' σ).map (s ++ ·) := by
  intro ρ σ hagree hP
  rw [execs_append_same (h ρ σ hagree hP.1), h' ρ σ hagree hP.2]
  simp [Option.map_bind, Function.comp_def]

/-- A literal writes the text that it was made of. -/
lemma text {n : ℕ} {s : Text} (hs : s.all plainChar = true) (hout : L.free (str "out") = true) :
    Means u sem L [.text (toString' n s)] P fun _ => some s := by
  intro ρ σ hagree _
  apply execs_singleton
  rw [Stmt.exec, if_pos (hagree.outVisible hout), readLiteral_toString n hs]

/-- A variable is printed. -/
lemma show' {e : Expr} (hout : L.free (str "out") = true) (he : L.clear e = true) :
    Means u sem L [.show' e] P fun σ => (Expr.value sem (σ.names sem) e).map sem.print := by
  intro ρ σ hagree _
  apply execs_singleton
  rw [Stmt.exec, if_pos (hagree.outVisible hout), hagree.expr_value he, Option.map_map]
  rfl

lemma block (h : Means u sem L ss P R) : Means u sem L [.block ss] P R := by
  intro ρ σ hagree hP
  apply execs_singleton
  rw [Stmt.exec]
  exact map_leave (h ρ σ hagree hP)

/-- An `if` means one of its branches. -/
lemma if' {c : Condition} (hc : L.clearCondition u c = true) (h : Means u sem L ss P R)
    (h' : Means u sem L ss' P' R') :
    Means u sem L [.if' (.condition c) ss ss']
      (fun σ => match c.holds u sem (σ.names sem) with
        | none => True
        | some t => if t then P σ else P' σ)
      fun σ => (c.holds u sem (σ.names sem)).bind fun t => if t then R σ else R' σ := by
  intro ρ σ hagree hP
  apply execs_singleton
  rw [Stmt.exec, Test.holds, hagree.condition_holds hc]
  dsimp only
  cases ht : c.holds u sem (σ.names sem) with
  | none => rfl
  | some t =>
    rw [ht] at hP
    cases t with
    | true => exact map_leave (h ρ σ hagree hP)
    | false => exact map_leave (h' ρ σ hagree hP)

end Means

end Agree

end Template

end Cppcms
