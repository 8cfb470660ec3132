import Cppcms.Service.Pool

/-!
# The pool of the legacy applications

`_legacy_pool_policy` of `applications_pool.cpp`.  An application is made when a request for one
arrives and not when it is taken: `application_requested` counts the requests that were not served
yet in `pending_` and makes an application if there are more of them than free applications.  When
the limit is reached the requests are not counted any more, while `get` goes on to subtract them, so
that `pending_` passes below zero.
-/

namespace Cppcms

namespace Service

/-- `_legacy_pool_policy`. -/
structure LegacyPolicy where
  slots : ℕ → Option App
  total : ℕ
  /-- A `size_t`. -/
  pending : ℕ
  size : ℕ
  limit : ℕ

/-- The pool, its users and the requests on their way to a `get`. -/
structure LegacyWorld where
  pool : LegacyPolicy
  /-- The number of applications that were made. -/
  next : ℕ
  /-- The calls of `application_requested` that no `get` followed so far. -/
  requests : ℕ
  /-- The calls of `application_requested` that the factory left by an exception. -/
  failures : ℕ
  held : List App
  deleted : List App

/-- The calls. -/
inductive LegacyCall where
  /-- The argument tells what the factory does if it is called. -/
  | applicationRequested (c : Creation)
  | get
  | put (app : Option App)

namespace LegacyWorld

/-- The constructor. -/
def init (n : ℕ) : LegacyWorld := ⟨⟨fun _ => none, 0, 0, 0, n⟩, 0, 0, 0, [], []⟩

/-- `apps_[size_] = get_new(srv); size_++; total_++;`. -/
def addNew (w : LegacyWorld) : Creation → LegacyWorld
  | .made =>
    { w with
      pool := { w.pool with
        slots := Function.update w.pool.slots w.pool.size (some w.next)
        size := w.pool.size + 1
        total := w.pool.total + 1 }
      next := w.next + 1
      requests := w.requests + 1 }
  | .null =>
    { w with
      pool := { w.pool with
        slots := Function.update w.pool.slots w.pool.size none
        size := w.pool.size + 1
        total := w.pool.total + 1 }
      requests := w.requests + 1 }
  | .throws => { w with failures := w.failures + 1 }

/-- `pending_++`. -/
def addPending (w : LegacyWorld) : LegacyWorld :=
  { w with pool := { w.pool with pending := (w.pool.pending + 1) % 2 ^ 64 } }

/-- `application_requested`. -/
def applicationRequested (w : LegacyWorld) (c : Creation) : LegacyWorld :=
  if w.pool.total ≥ w.pool.limit then { w with requests := w.requests + 1 }
  else if w.addPending.pool.pending > w.pool.size then w.addPending.addNew c
  else { w.addPending with requests := w.requests + 1 }

/-- What `get` returns. -/
def result (w : LegacyWorld) : Option App :=
  if w.pool.size = 0 then none else w.pool.slots (w.pool.size - 1)

/-- `get`. -/
def get (w : LegacyWorld) : LegacyWorld :=
  if w.pool.size = 0 then { w with requests := w.requests - 1 }
  else
    { w with
      pool := { w.pool with
        size := w.pool.size - 1
        pending := (w.pool.pending + (2 ^ 64 - 1)) % 2 ^ 64
        slots := Function.update w.pool.slots (w.pool.size - 1) none }
      requests := w.requests - 1
      held := w.held ++ w.result.toList }

/-- `put`. -/
def put (w : LegacyWorld) : Option App → LegacyWorld
  | none => w
  | some a =>
    { w with
      deleted := if w.pool.size ≥ w.pool.limit then w.deleted ++ [a] else w.deleted
      pool := { w.pool with slots := Function.update w.pool.slots w.pool.size (some a), size :=
        w.pool.size + 1 }
      held := w.held.erase a }

def step (w : LegacyWorld) : LegacyCall → LegacyWorld
  | .applicationRequested c => w.applicationRequested c
  | .get => w.get
  | .put app => w.put app

/-- What the callers keep to: the factory makes an application or throws, not `2 ^ 64` times though;
a `get` follows a request of its own and is made while fewer applications are in use than the pool
can have; an application is put back by the one who holds it. -/
def Proper (w : LegacyWorld) : LegacyCall → Prop
  | .applicationRequested .made => True
  | .applicationRequested .null => False
  | .applicationRequested .throws => w.failures + 1 + w.pool.limit < 2 ^ 64
  | .get => 0 < w.requests ∧ w.held.length < w.pool.limit
  | .put none => True
  | .put (some a) => a ∈ w.held

/-- The branches that must never happen do not: `get` finds an application, and `put` finds a place
for one. -/
def Served (w : LegacyWorld) : LegacyCall → Prop
  | .applicationRequested _ => True
  | .get => w.result ≠ none
  | .put none => True
  | .put (some _) => w.pool.size < w.pool.limit

/-- The free applications are enough for the requests that were counted.  When the limit is reached
there are as many applications as may be in use at once, and `pending_` is of no use any more. -/
structure Stocked (n : ℕ) (w : LegacyWorld) : Prop where
  limit_eq : w.pool.limit = n
  filled : ∀ i < w.pool.size, w.pool.slots i ≠ none
  total_eq : w.pool.size + w.held.length = w.pool.total
  next_eq : w.next = w.pool.total
  total_le : w.pool.total ≤ n
  failures_lt : w.failures + n < 2 ^ 64
  pending_eq : w.pool.total < n → w.pool.pending = w.requests + w.failures
  requests_le : w.pool.total < n → w.requests ≤ w.pool.size

section Calls

variable {n : ℕ} {w : LegacyWorld}

lemma filled_update (h : ∀ i < w.pool.size, w.pool.slots i ≠ none) (a : App) :
    ∀ i < w.pool.size + 1, Function.update w.pool.slots w.pool.size (some a) i ≠ none := by
  intro i hi
  by_cases heq : i = w.pool.size
  · rw [heq, Function.update_self]
    exact Option.some_ne_none a
  · rw [Function.update_of_ne heq]
    exact h i (by omega)

lemma Stocked.addPending_pending (h : w.Stocked n) (hlimit : w.pool.total < n) :
    w.addPending.pool.pending = w.requests + 1 + w.failures := by
  have hpending := h.pending_eq hlimit
  have hrequests := h.requests_le hlimit
  have htotal := h.total_eq
  have hfailures := h.failures_lt
  show (w.pool.pending + 1) % 2 ^ 64 = _
  rw [Nat.mod_eq_of_lt (by omega), hpending]
  omega

lemma Stocked.applicationRequested (h : w.Stocked n) {c : Creation}
    (hproper : w.Proper (.applicationRequested c)) :
    (w.applicationRequested c).Stocked n := by
  have hlimit := h.limit_eq
  have htotal := h.total_eq
  have hfailures := h.failures_lt
  unfold LegacyWorld.applicationRequested
  split_ifs with hfull hmore
  · exact
      { h with
        pending_eq := fun hlt => absurd (hlimit ▸ hfull : n ≤ w.pool.total) (Nat.not_le.2 hlt)
        requests_le := fun hlt => absurd (hlimit ▸ hfull : n ≤ w.pool.total) (Nat.not_le.2 hlt) }
  · have hlt : w.pool.total < n := by omega
    have hpending := h.addPending_pending hlt
    have hrequests := h.requests_le hlt
    cases c with
    | made =>
      refine ⟨hlimit, filled_update h.filled w.next, ?_, congrArg (· + 1) h.next_eq, hlt,
        hfailures, fun _ => ?_, fun _ => ?_⟩
      · show w.pool.size + 1 + w.held.length = w.pool.total + 1
        omega
      · exact hpending
      · exact Nat.succ_le_succ hrequests
    | null => exact hproper.elim
    | throws =>
      have hbound : w.failures + 1 + w.pool.limit < 2 ^ 64 := hproper
      refine ⟨hlimit, h.filled, htotal, h.next_eq, h.total_le, ?_, fun _ => ?_, h.requests_le⟩
      · show w.failures + 1 + n < 2 ^ 64
        omega
      · show w.addPending.pool.pending = w.requests + (w.failures + 1)
        omega
  · have hlt : w.pool.total < n := by omega
    have hpending := h.addPending_pending hlt
    refine ⟨hlimit, h.filled, htotal, h.next_eq, h.total_le, hfailures, fun _ =>
      hpending, fun _ => ?_⟩
    show w.requests + 1 ≤ w.pool.size
    omega

/-- A free application is there for the `get`. -/
lemma Stocked.size_pos (h : w.Stocked n) (hproper : w.Proper .get) : 0 < w.pool.size := by
  have hheld : w.held.length < w.pool.limit := hproper.2
  have hlimit := h.limit_eq
  have htotal := h.total_eq
  have hrequested := hproper.1
  by_cases hlt : w.pool.total < n
  · have hrequests := h.requests_le hlt
    omega
  · omega

lemma Stocked.result_ne_none (h : w.Stocked n) (hproper : w.Proper .get) : w.result ≠ none := by
  have hsize := h.size_pos hproper
  unfold result
  rw [if_neg hsize.ne']
  exact h.filled _ (by omega)

lemma Stocked.get (h : w.Stocked n) (hproper : w.Proper .get) : (w.get).Stocked n := by
  have hsize := h.size_pos hproper
  have hrequested : 0 < w.requests := hproper.1
  have htotal := h.total_eq
  rcases Option.ne_none_iff_exists'.1 (h.result_ne_none hproper) with ⟨a, ha⟩
  unfold LegacyWorld.get
  rw [if_neg hsize.ne', ha]
  refine ⟨h.limit_eq, fun i hi => ?_, ?_, h.next_eq, h.total_le, h.failures_lt,
    fun hlt => ?_, fun hlt => ?_⟩
  · dsimp only at hi ⊢
    rw [Function.update_of_ne (by omega)]
    exact h.filled i (by omega)
  · show w.pool.size - 1 + (w.held ++ [a]).length = w.pool.total
    rw [List.length_append, List.length_singleton]
    omega
  · -- while the requests are counted there is one to subtract
    have hpending := h.pending_eq hlt
    have hrequests := h.requests_le hlt
    have hfailures := h.failures_lt
    have hle := h.total_le
    have hfits : w.requests - 1 + w.failures < 2 ^ 64 := by omega
    have hwrap : w.pool.pending + (2 ^ 64 - 1) = w.requests - 1 + w.failures + 2 ^ 64 := by omega
    show (w.pool.pending + (2 ^ 64 - 1)) % 2 ^ 64 = w.requests - 1 + w.failures
    rw [hwrap, Nat.add_mod_right, Nat.mod_eq_of_lt hfits]
  · have hrequests := h.requests_le hlt
    show w.requests - 1 ≤ w.pool.size - 1
    omega

variable {a : App}

lemma Stocked.size_lt (h : w.Stocked n) (ha : a ∈ w.held) : w.pool.size < n := by
  have hheld := List.length_pos_of_mem ha
  have htotal := h.total_eq
  have hle := h.total_le
  omega

lemma Stocked.put (h : w.Stocked n) (ha : a ∈ w.held) : (w.put (some a)).Stocked n := by
  have hheld := List.length_pos_of_mem ha
  have htotal := h.total_eq
  refine ⟨h.limit_eq, filled_update h.filled a, ?_, h.next_eq, h.total_le, h.failures_lt,
    h.pending_eq, fun hlt => ?_⟩
  · show w.pool.size + 1 + (w.held.erase a).length = w.pool.total
    rw [List.length_erase_of_mem ha]
    omega
  · exact (h.requests_le hlt).trans (Nat.le_succ _)

end Calls

/-! ## Runs -/

section Runs

variable {n : ℕ} {w : LegacyWorld} {c : LegacyCall}

lemma stocked_init (hn : n < 2 ^ 64) : (init n).Stocked n :=
  ⟨rfl, fun _ hi => absurd hi (Nat.not_lt_zero _), rfl, rfl,
    Nat.zero_le n, by simpa [init] using hn, fun _ => rfl, fun _ => le_rfl⟩

lemma Stocked.step (h : w.Stocked n) (hproper : w.Proper c) : (w.step c).Stocked n := by
  rcases c with c | _ | (_ | a)
  · exact h.applicationRequested hproper
  · exact h.get hproper
  · exact h
  · exact h.put hproper

lemma Stocked.served (h : w.Stocked n) (hproper : w.Proper c) : w.Served c := by
  rcases c with c | _ | (_ | a)
  · trivial
  · exact h.result_ne_none hproper
  · trivial
  · have hlt := h.size_lt hproper
    rwa [← h.limit_eq] at hlt

/-- Whatever the order of the calls, every `get` returns an application, every `put` finds a place,
and no more than `n` applications are ever made. -/
theorem run_served {n : ℕ} (hn : n < 2 ^ 64) {calls : List LegacyCall}
    (hproper : Machine.Obeys LegacyWorld.step Proper (init n) calls) :
    Machine.Obeys LegacyWorld.step Served (init n) calls ∧
      ∀ w ∈ Machine.states LegacyWorld.step (init n) calls, w.next ≤ n := by
  have hstep : ∀ (w : LegacyWorld) c, w.Stocked n → w.Proper c → (w.step c).Stocked n :=
    fun w c h hc => h.step hc
  constructor
  · exact hproper.of_invariant hstep (stocked_init hn) fun w c h hc => h.served hc
  · intro w hw
    have h := Machine.forall_mem_states hstep (stocked_init hn) hproper w hw
    rw [h.next_eq]
    exact h.total_le

end Runs

/-- The one application of a pool is used three times, and the second request is made while it is in
use; the last `get` takes `pending_` below zero. -/
def reused : List LegacyCall :=
  [.applicationRequested .made, .get, .applicationRequested .made, .put (some 0),
    .get, .put (some 0), .applicationRequested .made, .get]

lemma proper_reused : Machine.Obeys step Proper (init 1) reused := by
  refine ⟨trivial, ⟨by decide, by decide⟩, trivial, ?_, ⟨by decide, by decide⟩, ?_, trivial,
    ⟨by decide, by decide⟩, trivial⟩
  · show 0 ∈ ([0] : List App)
    decide
  · show 0 ∈ ([0] : List App)
    decide

theorem run_served_reused :
    Machine.Obeys step Proper (init 1) reused ∧ Machine.Obeys step Served (init 1) reused ∧
    ∀ w ∈ Machine.states step (init 1) reused, w.next ≤ 1 :=
  ⟨proper_reused, run_served (by decide) proper_reused⟩

end LegacyWorld

end Service

end Cppcms
