import Cppcms.Template.Exec

/-!
# Executing sequences

The statement that is written for a sequence, with its loop, and what it does if its parts do what
they should (`means_foreach`).
-/

namespace Cppcms

namespace Template

section Agree

variable {V : Type*} {u : Unicode} {sem : Sem V}

/-! ## Loops -/

section Loop

variable (u) (h : ForeachHead) (l : List V) (ρ : Env V)

/-- The variables before and after the loop: the row number. -/
def ForeachHead.rowEnv (k : ℕ) : Env V :=
  (h.rowid.map fun r => (r, Cell.int (h.start u + k))).toList ++ ρ

/-- The variables at the start of a round. -/
def ForeachHead.loopEnv (k : ℕ) : Env V :=
  (ptrEnd h.ident, .iterator l l.length) :: (ptr h.ident, .iterator l k) :: h.rowEnv u ρ k

/-- The head of the loop that is written for a sequence. -/
def ForeachHead.forHead (e : Expr) : ForHead := ⟨h.ident, h.reverse, e, h.rowid⟩

end Loop

/-- The two names that a loop makes up are different. -/
lemma ptr_ne_ptrEnd (x : Text) : ptr x ≠ ptrEnd x := by
  intro heq
  have hlen := congrArg List.length heq
  simp [ptr, ptrEnd, str] at hlen

/-- A name is never the name that is made from it. -/
lemma ne_ptr (x : Text) : x ≠ ptr x := by
  intro heq
  have hlen := congrArg List.length heq
  simp [ptr, str] at hlen

section Loop

variable {h : ForeachHead} {l : List V} {ρ : Env V} {k : ℕ}

lemma loopEnv_ptr : (h.loopEnv u l ρ k).lookup (ptr h.ident) = some (.iterator l k) := by
  rw [ForeachHead.loopEnv, lookup_cons_of_ne (ptr_ne_ptrEnd _), lookup_cons_self]

/-- The end of the iteration is the end of the sequence. -/
lemma loopEnv_ptrEnd :
    (h.loopEnv u l ρ k).lookup (ptrEnd h.ident) = some (.iterator l l.length) := by
  rw [ForeachHead.loopEnv, lookup_cons_self]

/-- `++` on the iterator and on the row number leads to the next round. -/
lemma loopEnv_increment (hfine : h.fine = true) (hk : k < l.length)
    (hrow : h.rowid ≠ none → h.start u + l.length ≤ intMax) :
    (Env.increment (h.loopEnv u l ρ k) (ptr h.ident)).bind (fun ρ => ρ.incrementOpt h.rowid) =
      some (h.loopEnv u l ρ (k + 1)) := by
  have hptr : Env.increment (h.loopEnv u l ρ k) (ptr h.ident) = some
      ((ptrEnd h.ident, .iterator l l.length) :: (ptr h.ident, .iterator l (k + 1)) ::
        h.rowEnv u ρ k) := by
    rw [Env.increment, loopEnv_ptr]
    dsimp only
    rw [if_pos hk]
    simp [ForeachHead.loopEnv, Env.assign, (ptr_ne_ptrEnd h.ident).symm]
  rw [hptr, Option.bind_some]
  cases hid : h.rowid with
  | none => simp [Env.incrementOpt, ForeachHead.loopEnv, ForeachHead.rowEnv, hid]
  | some r =>
    have hne : r ≠ ptr h.ident ∧ r ≠ ptrEnd h.ident := by
      simp only [ForeachHead.fine, hid, Option.all_some, Bool.and_eq_true,
        decide_eq_true_eq] at hfine
      exact ⟨hfine.2.1.2, hfine.2.2⟩
    have hmax : h.start u + k < intMax := by
      have hall := hrow (by simp [hid])
      omega
    simp [Env.incrementOpt, Env.increment, ForeachHead.rowEnv, ForeachHead.loopEnv, hid,
      lookup_cons_of_ne hne.1, lookup_cons_of_ne hne.2, hmax, Env.assign, hne.1.symm, hne.2.symm,
      Nat.add_assoc]

/-- The rounds of a loop, if a round writes the separator, but not the first time, and the item. -/
lemma loop_eq {e : Expr} {body : Env V → Option (Env V × Text)}
    {separator item : ℕ → V → Option Text}
    (hfine : h.fine = true) (hrow : h.rowid ≠ none → h.start u + l.length ≤ intMax)
    (hbody : ∀ k v, l[k]? = some v → body (h.loopEnv u l ρ k) =
      (if k = 0 then some [] else separator k v).bind fun a => (item k v).map fun b =>
        ((h.ident, .element v) :: h.loopEnv u l ρ k, a ++ b))
    {n : ℕ} (hk : k ≤ l.length) (hn : l.length - k < n) :
    (h.forHead e).loop body n (h.loopEnv u l ρ k) =
      (renderItems separator item k (l.drop k)).map fun t => (h.loopEnv u l ρ l.length, t) := by
  induction n generalizing k with
  | zero => omega
  | succ n ih =>
    have hp : (h.loopEnv u l ρ k).lookup (ptr (h.forHead e).ident) = some (.iterator l k) :=
      loopEnv_ptr
    have hq : (h.loopEnv u l ρ k).lookup (ptrEnd (h.forHead e).ident) =
      some (.iterator l l.length) := loopEnv_ptrEnd
    rw [ForHead.loop, hp, hq]
    dsimp only
    by_cases hlast : k = l.length
    · rw [if_pos hlast, hlast, List.drop_length]
      rfl
    · have hlt : k < l.length := by omega
      have hleave (v : V) (t : Text) : Env.leave (h.loopEnv u l ρ k)
          ((h.ident, .element v) :: h.loopEnv u l ρ k, t) = (h.loopEnv u l ρ k, t) :=
        leave_append [(h.ident, .element v)] rfl t
      have hround := loopEnv_increment (ρ := ρ) hfine hlt hrow
      rw [if_neg hlast, hbody k l[k] (List.getElem?_eq_getElem hlt), List.drop_eq_getElem_cons hlt,
        renderItems]
      cases (if k = 0 then some [] else separator k l[k]) with
      | none => rfl
      | some a =>
        cases item k l[k] with
        | none => rfl
        | some b =>
          have hrest := ih hlt (by omega)
          obtain ⟨ρ', hρ', hnext⟩ := Option.bind_eq_some_iff.1 hround
          simp only [Option.bind_some, Option.map_some, hleave]
          have hinc : Env.increment (h.loopEnv u l ρ k) (ptr (h.forHead e).ident) = some ρ' := hρ'
          have hinc' : ρ'.incrementOpt (h.forHead e).rowid = some (h.loopEnv u l ρ (k + 1)) := hnext
          rw [hinc, Option.bind_some, hinc', Option.bind_some, hrest,
            Option.map_map, Option.map_map]
          rfl

end Loop

/-! ## Sequences -/

variable {n : Text}

/-- A local that does not hide a name may be left out. -/
lemma Locals.clear_of_cons {b : Bool} {L : Locals} {e : Expr}
    (h : Locals.clear ((n, b) :: L) e = true) (hn : b = false → Tok.name n ∉ e) :
    L.clear e = true := by
  unfold Locals.clear at h ⊢
  rw [List.all_eq_true] at h ⊢
  intro t ht
  cases t with
  | code s => rfl
  | name m =>
    have hm := h _ ht
    by_cases hmn : m = n
    · subst hmn
      dsimp only [Locals.visible] at hm
      rw [lookup_cons_self] at hm
      cases b with
      | true => cases hm
      | false => exact absurd ht (hn rfl)
    · dsimp only [Locals.visible] at hm ⊢
      rwa [lookup_cons_of_ne hmn] at hm
  | content =>
    have hm := h _ ht
    dsimp only [Locals.free] at hm ⊢
    by_cases hmn : str "content" = n
    · rw [hmn, lookup_cons_self] at hm
      cases hm
    · rwa [lookup_cons_of_ne hmn] at hm

/-- A name that does not occur in an expression does not matter for it. -/
lemma value_cons {e : Expr} (hn : Tok.name n ∉ e) (v : V) (σ : Values V) :
    Expr.value sem (Values.names sem ((n, v) :: σ)) e = Expr.value sem (σ.names sem) e := by
  unfold Expr.value
  congr 1
  induction e with
  | nil => rfl
  | cons t e ih =>
    rw [List.mem_cons, not_or] at hn
    have ht : t.value (Values.names sem ((n, v) :: σ)) = t.value (σ.names sem) := by
      cases t with
      | name m =>
        have hmn : m ≠ n := fun heq => hn.1 (by rw [heq])
        exact congrArg (Option.map Sum.inr) (lookup_cons_of_ne hmn v σ)
      | _ => rfl
    rw [List.mapM_cons, List.mapM_cons, ht, ih hn.2]

section Foreach

variable {h : ForeachHead} {l : List V} {e : Expr} {L : Locals} {ρ : Env V} {σ : Values V} {k : ℕ}

/-- The row number is the same on both sides. -/
lemma Agrees.row (hagree : Agrees sem L ρ σ) (h : ForeachHead) (k : ℕ) :
    Agrees sem (h.rowLocals L) (h.rowEnv u ρ k) (h.row u sem k σ) := by
  unfold ForeachHead.rowLocals ForeachHead.rowEnv ForeachHead.row
  cases h.rowid with
  | none => exact hagree
  | some r => exact .name hagree rfl

/-- The element is the same on both sides. -/
lemma Agrees.loop (hagree : Agrees sem L ρ σ) (h : ForeachHead) (l : List V) (k : ℕ) (v : V) :
    Agrees sem (h.loopLocals L) ((h.ident, .element v) :: h.loopEnv u l ρ k)
      ((h.ident, v) :: h.row u sem k σ) :=
  .name (.madeUp (.madeUp (hagree.row h k))) rfl

/-- The names of a sequence do not occur in its own expression, and are not taken for others. -/
structure ForeachHead.Separate (h : ForeachHead) (L : Locals) (e : Expr) : Prop where
  fine : h.fine = true
  clear : (h.loopLocals L).clear e = true
  ident : Tok.name h.ident ∉ e
  rowid : ∀ r, h.rowid = some r → Tok.name r ∉ e

namespace ForeachHead.Separate

/-- The sequence is the same with the row number. -/
lemma sequence_row (hs : h.Separate L e) (k : ℕ) (σ : Values V) :
    sequence sem ((h.row u sem k σ).names sem) h.reverse e =
      sequence sem (σ.names sem) h.reverse e := by
  unfold sequence
  congr 1
  unfold ForeachHead.row
  cases hid : h.rowid with
  | none => rfl
  | some r => exact value_cons (hs.rowid r hid) _ σ

lemma clear_ptrEnd (hs : h.Separate L e) :
    Locals.clear ((ptrEnd h.ident, true) :: (ptr h.ident, true) :: h.rowLocals L) e = true :=
  Locals.clear_of_cons hs.clear fun _ => hs.ident

/-- The name of the iterator hides nothing. -/
lemma clear_ptr (hs : h.Separate L e) :
    Locals.clear ((ptr h.ident, true) :: h.rowLocals L) e = true :=
  Locals.clear_of_cons hs.clear_ptrEnd (by simp)

lemma clear_locals (hs : h.Separate L e) : L.clear e = true := by
  have hrow : (h.rowLocals L).clear e = true := Locals.clear_of_cons hs.clear_ptr (by simp)
  unfold ForeachHead.rowLocals at hrow
  cases hid : h.rowid with
  | none =>
    rw [hid] at hrow
    exact hrow
  | some r =>
    rw [hid] at hrow
    exact Locals.clear_of_cons hrow fun _ => hs.rowid r hid

/-- The sequence in a round. -/
lemma sequence_loop (hs : h.Separate L e) (hagree : Agrees sem L ρ σ) (l : List V) (k : ℕ) (v : V) :
    sequence sem (Env.names sem ((h.ident, .element v) :: h.loopEnv u l ρ k)) h.reverse e =
      sequence sem (σ.names sem) h.reverse e := by
  rw [(hagree.loop h l k v).sequence_eq hs.clear, ← hs.sequence_row (u := u) k σ]
  unfold sequence
  rw [value_cons hs.ident]

/-- The loop starts with the first element. -/
lemma enter_eq (hs : h.Separate L e) (hagree : Agrees sem L ρ σ)
    (hl : sequence sem (σ.names sem) h.reverse e = some l) :
    (h.forHead e).enter sem (h.rowEnv u ρ 0) = some (l, h.loopEnv u l ρ 0) := by
  have hrow := hagree.row (u := u) h 0
  have hbegin : sequence sem (Env.names sem ((ptr h.ident, .uninitialized) :: h.rowEnv u ρ 0))
      h.reverse e = some l := by
    have hagree' : Agrees sem _ ((ptr h.ident, .uninitialized) :: h.rowEnv u ρ 0) _ := .madeUp hrow
    rw [hagree'.sequence_eq hs.clear_ptr, hs.sequence_row, hl]
  have hend : sequence sem (Env.names sem ((ptrEnd h.ident, .uninitialized) ::
      (ptr h.ident, .iterator l 0) :: h.rowEnv u ρ 0)) h.reverse e = some l := by
    have hagree' : Agrees sem _ ((ptrEnd h.ident, .uninitialized) ::
      (ptr h.ident, .iterator l 0) :: h.rowEnv u ρ 0) _ := .madeUp (.madeUp hrow)
    rw [hagree'.sequence_eq hs.clear_ptrEnd, hs.sequence_row, hl]
  rw [ForHead.enter]
  dsimp only [ForeachHead.forHead]
  rw [hbegin, Option.bind_some, hend]
  rfl

end ForeachHead.Separate

/-- The declaration of the row number. -/
def ForeachHead.rowStmts (u : Unicode) (h : ForeachHead) : List Stmt :=
  (h.rowid.map fun r => Stmt.int r (h.start u)).toList

/-- The statement around the separator. -/
def ForeachHead.separatorStmts (h : ForeachHead) (e : Expr) : Option (List Stmt) → List Stmt
  | none => []
  | some ss => [.if' (.notFirst h.ident h.reverse e) ss []]

/-- The statements of a round. -/
def ForeachHead.roundStmts (h : ForeachHead) (e : Expr) (separator : Option (List Stmt))
    (item : List Stmt) : List Stmt :=
  .reference h.ident :: (h.separatorStmts e separator ++ item)

/-- The statement of a sequence; `es` has the statement after its `else`. -/
def ForeachHead.stmt (u : Unicode) (h : ForeachHead) (e : Expr) (pre : List Stmt)
    (separator : Option (List Stmt)) (item post es : List Stmt) : Stmt :=
  .block [.if' (.nonempty h.reverse e)
    (h.rowStmts u ++ (pre ++ (.for' (h.forHead e) (h.roundStmts e separator item) :: post))) es]

end Foreach

section Foreach

variable {h : ForeachHead} {l : List V} {e : Expr} {L : Locals} {ρ : Env V} {σ : Values V} {k : ℕ}
  {separator : Option (List Stmt)} {pre item post es : List Stmt}
  {Ppre Psep Pitem Ppost Pempty : Values V → Prop}
    {Rpre Rsep Ritem Rpost Rempty : Values V → Option Text}

/-- The statement of the separator, if the separator means what it should. -/
lemma exec_separator (hs : h.Separate L e) (hagree : Agrees sem L ρ σ)
    (hl : sequence sem (σ.names sem) h.reverse e = some l)
    (hnone : separator = none → ∀ σ, Rsep σ = some [])
    (hsome : ∀ ss, separator = some ss → Means u sem (h.loopLocals L) ss Psep Rsep) {v : V}
    (hP : k ≠ 0 → Psep ((h.ident, v) :: h.row u sem k σ)) :
    execs u sem (h.separatorStmts e separator) ((h.ident, .element v) :: h.loopEnv u l ρ k) =
      (if k = 0 then some [] else Rsep ((h.ident, v) :: h.row u sem k σ)).map
        fun t => ((h.ident, .element v) :: h.loopEnv u l ρ k, t) := by
  cases hsep : separator with
  | none =>
    rw [hnone hsep, ite_self]
    rfl
  | some ss =>
    have htest : (Test.notFirst h.ident h.reverse e).holds u sem
        ((h.ident, .element v) :: h.loopEnv u l ρ k) = some (decide (k ≠ 0)) := by
      rw [Test.holds.eq_3, lookup_cons_of_ne (ne_ptr h.ident).symm, loopEnv_ptr,
        hs.sequence_loop hagree, hl]
    have hmeans := hsome ss hsep _ _ (hagree.loop (u := u) h l k v)
    have hexec : (Stmt.if' (.notFirst h.ident h.reverse e) ss []).exec u sem
        ((h.ident, .element v) :: h.loopEnv u l ρ k) =
        (if k = 0 then some [] else Rsep ((h.ident, v) :: h.row u sem k σ)).map
          fun t => ((h.ident, .element v) :: h.loopEnv u l ρ k, t) := by
      rw [Stmt.exec, htest, Option.bind_some]
      by_cases hk : k = 0
      · simp [hk, execs]
      · simp only [hk, ne_eq, not_false_eq_true, decide_true, if_true, if_false]
        exact map_leave (hmeans (hP hk))
    exact execs_singleton hexec

/-- A round writes the separator, but not the first time, and the item. -/
lemma exec_round (hs : h.Separate L e) (hagree : Agrees sem L ρ σ)
    (hl : sequence sem (σ.names sem) h.reverse e = some l)
    (hnone : separator = none → ∀ σ, Rsep σ = some [])
    (hsome : ∀ ss, separator = some ss → Means u sem (h.loopLocals L) ss Psep Rsep)
    (hitem : Means u sem (h.loopLocals L) item Pitem Ritem) {v : V} (hv : l[k]? = some v)
    (hP : (k ≠ 0 → Psep ((h.ident, v) :: h.row u sem k σ)) ∧
      Pitem ((h.ident, v) :: h.row u sem k σ)) :
    execs u sem (h.roundStmts e separator item) (h.loopEnv u l ρ k) =
      (if k = 0 then some [] else Rsep ((h.ident, v) :: h.row u sem k σ)).bind fun a =>
        (Ritem ((h.ident, v) :: h.row u sem k σ)).map fun b =>
          ((h.ident, .element v) :: h.loopEnv u l ρ k, a ++ b) := by
  have hkey : h.ident ∉ keywords := by
    have hfine := hs.fine
    simp only [ForeachHead.fine, Bool.and_eq_true, decide_eq_true_eq] at hfine
    exact hfine.1
  have href : (Stmt.reference h.ident).exec u sem (h.loopEnv u l ρ k) =
      some ((h.ident, .element v) :: h.loopEnv u l ρ k, []) := by
    rw [Stmt.exec, loopEnv_ptr]
    simp [hv, Env.declare, hkey]
  rw [ForeachHead.roundStmts, execs, href, Option.bind_some,
    execs_append_same (exec_separator hs hagree hl hnone hsome hP.1),
    hitem _ _ (hagree.loop h l k v) hP.2]
  simp [Option.map_bind, Function.comp_def]

/-- The row number takes one place, whatever it is. -/
lemma length_rowEnv (h : ForeachHead) (ρ : Env V) (k k' : ℕ) :
    (h.rowEnv u ρ k).length = (h.rowEnv u ρ k').length := by
  unfold ForeachHead.rowEnv
  cases h.rowid <;> rfl

/-- The declaration of the row number. -/
lemma exec_rowStmts (hfine : h.fine = true) (hrow : h.rowid ≠ none → h.start u ≤ intMax) :
    execs u sem (h.rowStmts u) ρ = some (h.rowEnv u ρ 0, []) := by
  unfold ForeachHead.rowStmts ForeachHead.rowEnv
  cases hid : h.rowid with
  | none => rfl
  | some r =>
    have hmax := hrow (by simp [hid])
    have hkey : r ∉ keywords := by
      simp only [ForeachHead.fine, hid, Option.all_some, Bool.and_eq_true,
        decide_eq_true_eq] at hfine
      exact hfine.2.1.1
    simp [execs, Stmt.exec, hmax, Env.declare, hkey]

/-- The loop writes the items. -/
lemma exec_for (hs : h.Separate L e) (hagree : Agrees sem L ρ σ)
    (hl : sequence sem (σ.names sem) h.reverse e = some l)
    (hrow : h.rowid ≠ none → h.start u + l.length ≤ intMax)
    (hnone : separator = none → ∀ σ, Rsep σ = some [])
    (hsome : ∀ ss, separator = some ss → Means u sem (h.loopLocals L) ss Psep Rsep)
    (hitem : Means u sem (h.loopLocals L) item Pitem Ritem)
    (hP : ∀ k v, l[k]? = some v → (k ≠ 0 → Psep ((h.ident, v) :: h.row u sem k σ)) ∧
      Pitem ((h.ident, v) :: h.row u sem k σ)) :
    (Stmt.for' (h.forHead e) (h.roundStmts e separator item)).exec u sem (h.rowEnv u ρ 0) =
      (renderItems (fun k v => Rsep ((h.ident, v) :: h.row u sem k σ))
        (fun k v => Ritem ((h.ident, v) :: h.row u sem k σ)) 0 l).map
          fun t => (h.rowEnv u ρ l.length, t) := by
  have hbody (k : ℕ) (v : V) (hv : l[k]? = some v) :=
    exec_round (ρ := ρ) hs hagree hl hnone hsome hitem hv (hP k v hv)
  have hloop := loop_eq (e := e) (ρ := ρ) hs.fine hrow hbody (Nat.zero_le _)
    (Nat.lt_succ_of_le (Nat.sub_le _ _))
  have hleave (t : Text) : Env.leave (h.rowEnv u ρ 0) (h.loopEnv u l ρ l.length, t) =
      (h.rowEnv u ρ l.length, t) := leave_append [_, _] (length_rowEnv h ρ _ _) t
  rw [Stmt.exec, hs.enter_eq hagree hl, Option.bind_some]
  dsimp only
  rw [hloop, Option.map_map, List.drop_zero]
  simp only [Function.comp_def, hleave]

/-- What is written for a sequence with elements. -/
lemma exec_nonempty (hs : h.Separate L e) (hagree : Agrees sem L ρ σ)
    (hl : sequence sem (σ.names sem) h.reverse e = some l)
    (hpre : Means u sem (h.rowLocals L) pre Ppre Rpre)
    (hnone : separator = none → ∀ σ, Rsep σ = some [])
    (hsome : ∀ ss, separator = some ss → Means u sem (h.loopLocals L) ss Psep Rsep)
    (hitem : Means u sem (h.loopLocals L) item Pitem Ritem)
    (hpost : Means u sem (h.rowLocals L) post Ppost Rpost)
    (hrow : h.rowid ≠ none → h.start u + l.length ≤ intMax) (hPpre : Ppre (h.row u sem 0 σ))
    (hP : ∀ k v, l[k]? = some v → (k ≠ 0 → Psep ((h.ident, v) :: h.row u sem k σ)) ∧
      Pitem ((h.ident, v) :: h.row u sem k σ)) (hPpost : Ppost (h.row u sem l.length σ)) :
    execs u sem
      (h.rowStmts u ++ (pre ++ (.for' (h.forHead e) (h.roundStmts e separator item) :: post))) ρ =
      ((Rpre (h.row u sem 0 σ)).bind fun a =>
        (renderItems (fun k v => Rsep ((h.ident, v) :: h.row u sem k σ))
          (fun k v => Ritem ((h.ident, v) :: h.row u sem k σ)) 0 l).bind fun b =>
            (Rpost (h.row u sem l.length σ)).map fun c => a ++ b ++ c).map
              fun t => (h.rowEnv u ρ l.length, t) := by
  have hstart : h.rowid ≠ none → h.start u ≤ intMax := fun hid =>
    (Nat.le_add_right _ _).trans (hrow hid)
  rw [execs_append, exec_rowStmts hs.fine hstart, Option.bind_some,
    execs_append_same (hpre _ _ (hagree.row h 0) hPpre), execs,
    exec_for hs hagree hl hrow hnone hsome hitem hP]
  cases Rpre (h.row u sem 0 σ) with
  | none => rfl
  | some a =>
    cases renderItems (fun k v => Rsep ((h.ident, v) :: h.row u sem k σ))
      (fun k v => Ritem ((h.ident, v) :: h.row u sem k σ)) 0 l with
    | none => rfl
    | some b =>
      simp only [Option.bind_some, Option.map_some]
      rw [hpost _ _ (hagree.row h l.length) hPpost]
      cases Rpost (h.row u sem l.length σ) with
      | none => rfl
      | some c => simp

/-- The statement of a sequence, if its parts mean what they should. -/
lemma means_foreach (hs : h.Separate L e) (hpre : Means u sem (h.rowLocals L) pre Ppre Rpre)
    (hnone : separator = none → ∀ σ, Rsep σ = some [])
    (hsome : ∀ ss, separator = some ss → Means u sem (h.loopLocals L) ss Psep Rsep)
    (hitem : Means u sem (h.loopLocals L) item Pitem Ritem)
    (hpost : Means u sem (h.rowLocals L) post Ppost Rpost)
    (hempty : Means u sem L es Pempty Rempty) :
    Means u sem L [h.stmt u e pre separator item post es]
      (fun σ => match sequence sem (σ.names sem) h.reverse e with
        | none => True
        | some l => if l.isEmpty then Pempty σ
          else (h.rowid ≠ none → h.start u + l.length ≤ intMax) ∧ Ppre (h.row u sem 0 σ) ∧
            (∀ k v, l[k]? = some v → (k ≠ 0 → Psep ((h.ident, v) :: h.row u sem k σ)) ∧
              Pitem ((h.ident, v) :: h.row u sem k σ)) ∧ Ppost (h.row u sem l.length σ))
      (fun σ => (sequence sem (σ.names sem) h.reverse e).bind fun l =>
        if l.isEmpty then Rempty σ
        else (Rpre (h.row u sem 0 σ)).bind fun a =>
          (renderItems (fun k v => Rsep ((h.ident, v) :: h.row u sem k σ))
            (fun k v => Ritem ((h.ident, v) :: h.row u sem k σ)) 0 l).bind fun b =>
              (Rpost (h.row u sem l.length σ)).map fun c => a ++ b ++ c) := by
  intro ρ σ hagree hP
  have htest : (Test.nonempty h.reverse e).holds u sem ρ =
      (sequence sem (σ.names sem) h.reverse e).map fun l => !l.isEmpty := by
    rw [Test.holds, hagree.sequence_eq hs.clear_locals]
  cases hl : sequence sem (σ.names sem) h.reverse e with
  | none => simp [execs, ForeachHead.stmt, Stmt.exec, htest, hl]
  | some l =>
    rw [hl] at htest hP
    dsimp only at hP
    have hif : execs u sem [.if' (.nonempty h.reverse e) (h.rowStmts u ++ (pre ++
        (.for' (h.forHead e) (h.roundStmts e separator item) :: post))) es] ρ =
        (if l.isEmpty then Rempty σ
          else (Rpre (h.row u sem 0 σ)).bind fun a =>
            (renderItems (fun k v => Rsep ((h.ident, v) :: h.row u sem k σ))
              (fun k v => Ritem ((h.ident, v) :: h.row u sem k σ)) 0 l).bind fun b =>
                (Rpost (h.row u sem l.length σ)).map fun c => a ++ b ++ c).map fun t => (ρ, t) := by
      apply execs_singleton
      rw [Stmt.exec, htest, Option.map_some, Option.bind_some]
      cases hnil : l.isEmpty with
      | true =>
        rw [hnil, if_pos rfl] at hP
        simpa using map_leave (hempty ρ σ hagree hP)
      | false =>
        rw [hnil, if_neg (by simp)] at hP
        obtain ⟨hrow, hPpre, hPround, hPpost⟩ := hP
        have hleave (t : Text) : Env.leave ρ (h.rowEnv u ρ l.length, t) = (ρ, t) :=
          leave_append _ rfl t
        simp only [Bool.not_false, if_true, Bool.false_eq_true, if_false]
        rw [exec_nonempty hs hagree hl hpre hnone hsome hitem hpost hrow hPpre hPround hPpost,
          Option.map_map]
        simp only [Function.comp_def, hleave]
    apply execs_singleton
    rw [ForeachHead.stmt, Stmt.exec]
    simp only [hl, Option.bind_some]
    exact map_leave hif

end Foreach

end Agree

end Template

end Cppcms
