import Cppcms.Library.Machine

/-!
# The pool of applications

`_pool_policy` of `applications_pool.cpp`.  Applications that nobody uses are kept in a vector of
pointers, of which the first `size_` ones are in use.

A `put` to a full pool deletes the application and goes on as if it had not: the pointer is written
behind the last element of the vector, and `size_` grows over its size.  `slots` is the memory from
the first element of the vector on, also behind its end.
-/

namespace Cppcms

namespace Service

/-- An application, by the number of its creation. -/
abbrev App := ℕ

/-- What `get_new` does: the factory makes an application, returns a null pointer or throws. -/
inductive Creation where
  | made
  | null
  | throws
  deriving DecidableEq

/-- `_pool_policy`. -/
structure PoolPolicy where
  /-- `apps_.size()`. -/
  capacity : ℕ
  slots : ℕ → Option App
  size : ℕ

/-- The pool and where the applications are that it made. -/
structure PoolWorld where
  pool : PoolPolicy
  /-- The number of applications that were made. -/
  next : ℕ
  /-- What the users hold. -/
  held : List App
  deleted : List App

/-- The calls. -/
inductive PoolCall where
  | get (c : Creation)
  | put (app : Option App)
  /-- The first argument tells whether the flags of the pool ask for it. -/
  | prepopulate (asked : Bool) (c : ℕ → Creation)

namespace PoolWorld

/-- The constructor. -/
def init (n : ℕ) : PoolWorld := ⟨⟨n, fun _ => none, 0⟩, 0, [], []⟩

/-- `size_++; apps_[size_-1]= get_new(srv);`. -/
def addNew (w : PoolWorld) : Creation → PoolWorld
  | .made =>
    { w with
      pool := { w.pool with slots := Function.update w.pool.slots w.pool.size (some w.next), size :=
        w.pool.size + 1 }
      next := w.next + 1 }
  | .null =>
    { w with pool := { w.pool with slots := Function.update w.pool.slots w.pool.size none, size :=
      w.pool.size + 1 } }
  | .throws => { w with pool := { w.pool with size := w.pool.size + 1 } }

/-- The loop of `prepopulate`, which an exception leaves. -/
def fill : ℕ → (ℕ → Creation) → PoolWorld → PoolWorld
  | 0, _, w => w
  | rounds + 1, c, w =>
    if w.pool.size < w.pool.capacity then
      if c w.pool.size = .throws then w.addNew .throws else fill rounds c (w.addNew (c w.pool.size))
    else w

/-- `get`. -/
def get (w : PoolWorld) (c : Creation) : PoolWorld :=
  if w.pool.size = 0 then
    if c = .made then { w with next := w.next + 1, held := w.held ++ [w.next] } else w
  else
    { w with
      pool := { w.pool with
        size := w.pool.size - 1
        slots := Function.update w.pool.slots (w.pool.size - 1) none }
      held := w.held ++ (w.pool.slots (w.pool.size - 1)).toList }

/-- `put`. -/
def put (w : PoolWorld) : Option App → PoolWorld
  | none => w
  | some a =>
    { w with
      deleted := if w.pool.size ≥ w.pool.capacity then w.deleted ++ [a] else w.deleted
      pool := { w.pool with slots := Function.update w.pool.slots w.pool.size (some a), size :=
        w.pool.size + 1 }
      held := w.held.erase a }

def step (w : PoolWorld) : PoolCall → PoolWorld
  | .get c => w.get c
  | .put app => w.put app
  | .prepopulate asked c => if asked then w.fill (w.pool.capacity - w.pool.size) c else w

/-- An application is put back by the one who holds it. -/
def Proper (w : PoolWorld) : PoolCall → Prop
  | .put (some a) => a ∈ w.held
  | _ => True

/-- An application is not put back to a full pool. -/
def Room (w : PoolWorld) : PoolCall → Prop
  | .put (some _) => w.pool.size < w.pool.capacity
  | _ => True

/-- The applications in the pool. -/
def pooled (w : PoolWorld) : List App := (List.range w.pool.size).filterMap w.pool.slots

/-- The pool does not overflow, and every application that was made is in one place: in a slot of
the pool, with a user, or deleted. -/
structure Owned (w : PoolWorld) : Prop where
  size_le : w.pool.size ≤ w.pool.capacity
  unused : ∀ i, w.pool.size ≤ i → w.pool.slots i = none
  once : (w.pooled ++ w.held ++ w.deleted).Perm (List.range w.next)

/-! ## What a call does to the slots -/

section Slots

variable {w : PoolWorld}

lemma filterMap_range_update (slots : ℕ → Option App) (n : ℕ) (a : Option App) :
    (List.range (n + 1)).filterMap (Function.update slots n a) =
      (List.range n).filterMap slots ++ a.toList := by
  have hbelow : (List.range n).filterMap (Function.update slots n a) =
      (List.range n).filterMap slots := by
    refine List.filterMap_congr fun i hi => ?_
    rw [Function.update_of_ne (List.mem_range.1 hi).ne]
  rw [List.range_succ, List.filterMap_append, hbelow]
  congr 1
  rcases a with _ | a
  · simp
  · simp

lemma filterMap_range_succ (slots : ℕ → Option App) (n : ℕ) :
    (List.range (n + 1)).filterMap slots = (List.range n).filterMap slots ++ (slots n).toList := by
  have h := filterMap_range_update slots n (slots n)
  rwa [Function.update_eq_self] at h

lemma unused_update (h : ∀ i, w.pool.size ≤ i → w.pool.slots i = none) (a : Option App) :
    ∀ i, w.pool.size + 1 ≤ i → Function.update w.pool.slots w.pool.size a i = none := by
  intro i hi
  rw [Function.update_of_ne (by omega)]
  exact h i (by omega)

/-- A slot more is used. -/
lemma owned_addNew (h : w.Owned) (hroom : w.pool.size < w.pool.capacity) (c : Creation) :
    (w.addNew c).Owned := by
  have honce := h.once
  cases c with
  | made =>
    refine ⟨hroom, unused_update h.unused _, ?_⟩
    unfold pooled addNew
    dsimp only
    rw [filterMap_range_update, List.range_succ]
    refine List.Perm.trans ?_ (honce.append_right [w.next])
    unfold pooled
    simp only [List.append_assoc]
    refine List.Perm.append_left _ ?_
    rw [← List.append_assoc w.held]
    exact List.perm_append_comm
  | null =>
    refine ⟨hroom, unused_update h.unused _, ?_⟩
    unfold pooled addNew
    dsimp only
    rw [filterMap_range_update, Option.toList_none, List.append_nil]
    exact honce
  | throws =>
    refine ⟨hroom, fun i hi => h.unused i (Nat.le_of_succ_le hi), ?_⟩
    unfold pooled addNew
    dsimp only
    rw [filterMap_range_succ, h.unused _ le_rfl, Option.toList_none, List.append_nil]
    exact honce

lemma owned_fill (h : w.Owned) (rounds : ℕ) (c : ℕ → Creation) : (w.fill rounds c).Owned := by
  induction rounds generalizing w with
  | zero => exact h
  | succ rounds ih =>
    rw [fill]
    split_ifs with hroom
    · exact owned_addNew h hroom _
    · exact ih (owned_addNew h hroom _)
    · exact h

lemma owned_get (h : w.Owned) (c : Creation) : (w.get c).Owned := by
  have honce := h.once
  unfold get
  split_ifs with hempty hmade
  · refine ⟨h.size_le, h.unused, ?_⟩
    dsimp only
    rw [List.range_succ]
    refine List.Perm.trans ?_ (honce.append_right [w.next])
    show (w.pooled ++ (w.held ++ [w.next]) ++ w.deleted).Perm _
    simp only [List.append_assoc]
    have hswap : ([w.next] ++ w.deleted).Perm (w.deleted ++ [w.next]) := List.perm_append_comm
    exact (hswap.append_left _).append_left _
  · exact h
  · rcases Nat.exists_eq_succ_of_ne_zero hempty with ⟨n, hn⟩
    have hsize := h.size_le
    refine ⟨?_, ?_, ?_⟩
    · dsimp only
      omega
    · intro i hi
      dsimp only at hi ⊢
      by_cases hin : i = w.pool.size - 1
      · rw [hin, Function.update_self]
      · rw [Function.update_of_ne hin]
        exact h.unused i (by omega)
    · refine List.Perm.trans ?_ honce
      unfold pooled
      dsimp only
      rw [hn, Nat.succ_eq_add_one, Nat.add_sub_cancel, filterMap_range_succ]
      have hbelow : (List.range n).filterMap (Function.update w.pool.slots n none) =
          (List.range n).filterMap w.pool.slots := by
        refine List.filterMap_congr fun i hi => ?_
        rw [Function.update_of_ne (List.mem_range.1 hi).ne]
      rw [hbelow]
      simp only [List.append_assoc]
      refine List.Perm.append_left _ ?_
      rw [← List.append_assoc, ← List.append_assoc]
      exact List.perm_append_comm.append_right _

lemma owned_put (h : w.Owned) {a : App} (ha : a ∈ w.held) (hroom : w.pool.size < w.pool.capacity) :
    (w.put (some a)).Owned := by
  refine ⟨hroom, unused_update h.unused _, List.Perm.trans ?_ h.once⟩
  unfold pooled put
  dsimp only
  rw [filterMap_range_update, if_neg (by omega)]
  refine List.Perm.append_right _ ?_
  rw [List.append_assoc]
  exact (List.perm_cons_erase ha).symm.append_left _

end Slots

/-! ## Runs -/

lemma owned_init (n : ℕ) : (init n).Owned := ⟨Nat.zero_le n, fun _ _ => rfl, List.Perm.refl _⟩

variable {c : PoolCall} {w : PoolWorld}

lemma owned_step (h : w.Owned) (hproper : w.Proper c) (hroom : w.Room c) :
    (w.step c).Owned := by
  rcases c with c | (_ | a) | ⟨asked, c⟩
  · exact owned_get h c
  · exact h
  · exact owned_put h hproper hroom
  · show (if asked then _ else _ : PoolWorld).Owned
    split_ifs
    · exact owned_fill h _ c
    · exact h

/-- After a `put` to a full pool there is one more application than the pool can have. -/
lemma room_of_owned_step (h : (w.step c).Owned) : w.Room c := by
  rcases c with c | (_ | a) | ⟨asked, c⟩
  · trivial
  · trivial
  · exact h.size_le
  · trivial

/-- Every application has one place in all states of a run exactly if no application is put back to
a full pool. -/
theorem forall_owned_iff (n : ℕ) (calls : List PoolCall)
    (hproper : Machine.Obeys step Proper (init n) calls) :
    (∀ w ∈ Machine.states step (init n) calls, w.Owned) ↔
    Machine.Obeys step Room (init n) calls := by
  constructor
  · intro h
    exact hproper.of_states h fun w c _ _ hstep => room_of_owned_step hstep
  · intro hroom
    exact Machine.forall_mem_states (fun w c h hc => owned_step h hc.1 hc.2) (owned_init n)
      (hproper.and hroom)

/-- Two applications are used, and both come back to a pool of one. -/
def overflow : List PoolCall := [.get .made, .get .made, .put (some 0), .put (some 1), .get .made]

lemma proper_overflow : Machine.Obeys step Proper (init 1) overflow := by
  refine ⟨trivial, trivial, ?_, ?_, trivial, trivial⟩
  · show 0 ∈ ([0, 1] : List App)
    decide
  · show 1 ∈ ([1] : List App)
    decide

/-- Up to the second `put` every application has its place, and then one of them has lost it. -/
theorem forall_owned_overflow : (∀ w ∈ Machine.states step (init 1) (overflow.take 3), w.Owned) ∧
    Machine.Obeys step Proper (init 1) overflow ∧
    ¬ ∀ w ∈ Machine.states step (init 1) overflow, w.Owned := by
  have hproper : Machine.Obeys step Proper (init 1) (overflow.take 3) :=
    ⟨proper_overflow.1, proper_overflow.2.1, proper_overflow.2.2.1, trivial⟩
  refine ⟨(forall_owned_iff 1 (overflow.take 3) hproper).2 ⟨trivial, trivial, ?_, trivial⟩,
    proper_overflow, fun h => ?_⟩
  · show (0 : ℕ) < 1
    decide
  · have hroom : (1 : ℕ) < 1 := ((forall_owned_iff 1 overflow proper_overflow).1 h).2.2.2.1
    exact absurd hroom (by decide)

/-- The second `put` makes the pool greater than its vector, and the `get` hands out the application
that it deleted. -/
theorem not_owned_overflow : Machine.Obeys step Proper (init 1) overflow ∧
    (∃ w ∈ Machine.states step (init 1) overflow, w.pool.capacity < w.pool.size) ∧
    (∃ w ∈ Machine.states step (init 1) overflow, ∃ a ∈ w.deleted, a ∈ w.held) := by
  refine ⟨proper_overflow, ⟨(overflow.take 4).foldl step (init 1), ?_, by decide⟩,
    ⟨overflow.foldl step (init 1), ?_, 1, by decide, by decide⟩⟩
  · simp [Machine.states, overflow]
  · simp [Machine.states, overflow]

end PoolWorld

end Service

end Cppcms
