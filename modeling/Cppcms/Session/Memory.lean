import Cppcms.Library.Cells
import Cppcms.Session.Storage

/-!
# Sessions in memory

`session_memory_storage` of `session_memory_storage.cpp`.  The sessions are found by their ids in
one container, and by their deadlines in another one, and the elements of each refer to those of the
other by iterators.  An iterator is the handle of a cell (`Cells`), and a call that uses an iterator
whose cell has been erased fails with `none`.

Every change collects a few sessions whose deadline has passed.
-/

namespace Cppcms

namespace Session

/-- The time of a call. -/
def Call.now : Call → ℤ
  | .save now _ _ _ => now
  | .load now _ => now
  | .remove now _ => now

/-- `_data`. -/
structure Info where
  timeout : ℤ
  info : Bytes
  timeoutPtr : ℕ
  deriving DecidableEq, Repr

/-- `session_memory_storage`.  `next` is a handle that has not been used yet. -/
structure MemoryStorage where
  map : Cells (Bytes × Info)
  timeout : Cells (ℤ × ℕ)
  next : ℕ
  deriving DecidableEq, Repr

namespace MemoryStorage

def init : MemoryStorage := ⟨[], [], 0⟩

/-- `map_.find`. -/
def find (s : MemoryStorage) (key : Bytes) : Option (ℕ × Bytes × Info) :=
  s.map.find? fun x => x.2.1 = key

/-- `timeout_.insert`: behind the elements with the same deadline. -/
def insertTimeout (l : Cells (ℤ × ℕ)) (x : ℕ × ℤ × ℕ) : Cells (ℤ × ℕ) :=
  l.orderedInsert (fun x y => x.2.1 < y.2.1) x

/-- The loop of `short_gc`, for at most so many rounds. -/
def collect (now : ℤ) : ℕ → MemoryStorage → Option MemoryStorage
  | 0, s => some s
  | count + 1, s =>
    match s.timeout with
    | [] => some s
    | (_, deadline, p) :: rest =>
      if deadline < now then
        (s.map.without? p).bind fun map => collect now count { s with map := map, timeout := rest }
      else some s

def shortGc (now : ℤ) (s : MemoryStorage) : Option MemoryStorage := collect now 5 s

/-- `save` without the call of `short_gc`. -/
def put (s : MemoryStorage) (key : Bytes) (timeout : ℤ) (value : Bytes) : Option MemoryStorage :=
  match s.find key with
  | none =>
    some
      { map := (s.next, key, ⟨timeout, value, s.next⟩) :: s.map
        timeout := insertTimeout s.timeout (s.next, timeout, s.next)
        next := s.next + 1 }
  | some (p, _, d) =>
    (s.timeout.without? d.timeoutPtr).map fun rest =>
      { map := s.map.modify p fun x => (x.1, ⟨timeout, value, s.next⟩)
        timeout := insertTimeout rest (s.next, timeout, p)
        next := s.next + 1 }

def save (now : ℤ) (s : MemoryStorage) (key : Bytes) (timeout : ℤ) (value : Bytes) :
    Option MemoryStorage :=
  (s.put key timeout value).bind (shortGc now)

def load (now : ℤ) (s : MemoryStorage) (key : Bytes) : Option (ℤ × Bytes) :=
  (s.find key).bind fun x => if x.2.2.timeout < now then none else some (x.2.2.timeout, x.2.2.info)

def remove (now : ℤ) (s : MemoryStorage) (key : Bytes) : Option MemoryStorage :=
  match s.find key with
  | none => some s
  | some (p, _, d) =>
    (s.timeout.without? d.timeoutPtr).bind fun timeout =>
      (s.map.without? p).bind fun map => shortGc now { s with map := map, timeout := timeout }

/-- The storage after a call; loading does not change it. -/
def call (s : MemoryStorage) : Call → Option MemoryStorage
  | .save now key timeout value => s.save now key timeout value
  | .load _ _ => some s
  | .remove now key => s.remove now key

def run (s : MemoryStorage) (calls : List Call) : Option MemoryStorage := calls.foldlM call s

/-! ## The containers refer to each other -/

/-- The iterators of the two containers are inverse to each other, and the ids are distinct. -/
structure Paired (s : MemoryStorage) : Prop where
  map_distinct : s.map.Distinct
  timeout_distinct : s.timeout.Distinct
  map_below : s.map.Below s.next
  timeout_below : s.timeout.Below s.next
  ids : ∀ p q key d e, (p, key, d) ∈ s.map → (q, key, e) ∈ s.map → p = q
  forth : ∀ p key d, (p, key, d) ∈ s.map → (d.timeoutPtr, d.timeout, p) ∈ s.timeout
  back : ∀ h t p, (h, t, p) ∈ s.timeout → ∃ key info, (p, key, ⟨t, info, h⟩) ∈ s.map
  sorted : s.timeout.Pairwise fun x y => x.2.1 ≤ y.2.1

/-- What is left in the storage is what was last written, and what is not left has expired. -/
structure Keeps (s : MemoryStorage) (now : ℤ) (last : Bytes → Option (ℤ × Bytes)) : Prop where
  holds : ∀ p key d, (p, key, d) ∈ s.map → last key = some (d.timeout, d.info)
  kept : ∀ key x, last key = some x → (∃ p d, (p, key, d) ∈ s.map) ∨ x.1 < now

variable {s : MemoryStorage} {now : ℤ} {last : Bytes → Option (ℤ × Bytes)}

lemma paired_init : init.Paired where
  map_distinct := .nil
  timeout_distinct := .nil
  map_below := List.forall_mem_nil _
  timeout_below := List.forall_mem_nil _
  ids _ _ _ _ _ h := absurd h List.not_mem_nil
  forth _ _ _ h := absurd h List.not_mem_nil
  back _ _ _ h := absurd h List.not_mem_nil
  sorted := .nil

variable {key : Bytes} {p : ℕ}

lemma find_eq_some {x : ℕ × Bytes × Info} (hfind : s.find key = some x) :
    x.2.1 = key ∧ (x.1, key, x.2.2) ∈ s.map := by
  have hkey : x.2.1 = key := by simpa using List.find?_some hfind
  refine ⟨hkey, ?_⟩
  rw [← hkey]
  exact List.mem_of_find?_eq_some hfind

lemma find_eq_none (hfind : s.find key = none) : ∀ p d, (p, key, d) ∉ s.map := by
  intro p d hmem
  simpa using List.find?_eq_none.1 hfind _ hmem

/-! ## Changes of both containers -/

/-- The order of the ids does not matter. -/
lemma Paired.perm (h : s.Paired) {map : Cells (Bytes × Info)} (hperm : map.Perm s.map) :
    Paired { s with map := map } where
  map_distinct := ((hperm.map Prod.fst).nodup_iff).2 h.map_distinct
  timeout_distinct := h.timeout_distinct
  map_below x hx := h.map_below x (hperm.mem_iff.1 hx)
  timeout_below := h.timeout_below
  ids p q key d e hp hq := h.ids p q key d e (hperm.mem_iff.1 hp) (hperm.mem_iff.1 hq)
  forth p key d hp := h.forth p key d (hperm.mem_iff.1 hp)
  back n t p hp := by
    rcases h.back n t p hp with ⟨key, info, hmem⟩
    exact ⟨key, info, hperm.mem_iff.2 hmem⟩
  sorted := h.sorted

/-- A session is taken out of both containers. -/
lemma Paired.drop (h : s.Paired) {d : Info} (hmem : (p, key, d) ∈ s.map) :
    Paired { s with map := s.map.without p, timeout := s.timeout.without d.timeoutPtr } where
  map_distinct := h.map_distinct.without p
  timeout_distinct := h.timeout_distinct.without _
  map_below x hx := h.map_below x (Cells.mem_without.1 hx).1
  timeout_below x hx := h.timeout_below x (Cells.mem_without.1 hx).1
  ids q q' key d e hq hq' :=
    h.ids q q' key d e (Cells.mem_without.1 hq).1 (Cells.mem_without.1 hq').1
  forth q key' e hq := by
    rcases Cells.mem_without.1 hq with ⟨hq, hne⟩
    refine Cells.mem_without.2 ⟨h.forth q key' e hq, fun heq => hne ?_⟩
    -- a deadline belongs to one session
    dsimp only at heq
    have hp := h.forth p key d hmem
    rw [← heq] at hp
    have hcell := h.timeout_distinct.eq_of_mem (h.forth q key' e hq) hp
    exact (Prod.mk.inj hcell).2
  back n t q hq := by
    rcases Cells.mem_without.1 hq with ⟨hq, hne⟩
    rcases h.back n t q hq with ⟨key', info, hentry⟩
    refine ⟨key', info, Cells.mem_without.2 ⟨hentry, fun heq => hne ?_⟩⟩
    dsimp only at heq
    subst heq
    have hcell := h.map_distinct.eq_of_mem hentry hmem
    exact congrArg (fun x : Bytes × Info => x.2.timeoutPtr) hcell
  sorted := h.sorted.sublist List.filter_sublist

/-- A session gets into both containers. -/
lemma Paired.add (h : s.Paired) (hp : ∀ x ∈ s.map, x.1 ≠ p) (hlt : p ≤ s.next)
    (hkey : ∀ q d, (q, key, d) ∉ s.map) (timeout : ℤ) (value : Bytes) :
    Paired
      { map := (p, key, ⟨timeout, value, s.next⟩) :: s.map
        timeout := insertTimeout s.timeout (s.next, timeout, p)
        next := s.next + 1 } where
  map_distinct := by
    refine List.nodup_cons.2 ⟨fun hmem => ?_, h.map_distinct⟩
    rcases List.mem_map.1 hmem with ⟨x, hx, heq⟩
    exact hp x hx heq
  timeout_distinct := h.timeout_distinct.orderedInsert h.timeout_below _ _
  map_below x hx := by
    rcases List.mem_cons.1 hx with rfl | hx
    · exact Nat.lt_succ_of_le hlt
    · exact (h.map_below x hx).trans (Nat.lt_succ_self _)
  timeout_below x hx := by
    rcases (List.mem_orderedInsert _).1 hx with rfl | hx
    · exact Nat.lt_succ_self _
    · exact (h.timeout_below x hx).trans (Nat.lt_succ_self _)
  ids q q' key' d e hq hq' := by
    rcases List.mem_cons.1 hq with heq | hq <;> rcases List.mem_cons.1 hq' with heq' | hq'
    · rw [(Prod.mk.inj heq).1, (Prod.mk.inj heq').1]
    · rw [(Prod.mk.inj (Prod.mk.inj heq).2).1] at hq'
      exact absurd hq' (hkey _ _)
    · rw [(Prod.mk.inj (Prod.mk.inj heq').2).1] at hq
      exact absurd hq (hkey _ _)
    · exact h.ids _ _ _ _ _ hq hq'
  forth q key' d hq := by
    rcases List.mem_cons.1 hq with heq | hq
    · cases heq
      exact (List.mem_orderedInsert _).2 (.inl rfl)
    · exact (List.mem_orderedInsert _).2 (.inr (h.forth q key' d hq))
  back n t q hq := by
    rcases (List.mem_orderedInsert _).1 hq with heq | hq
    · cases heq
      exact ⟨key, value, List.mem_cons_self⟩
    · rcases h.back n t q hq with ⟨key', info, hmem⟩
      exact ⟨key', info, List.mem_cons_of_mem _ hmem⟩
  sorted := pairwise_orderedInsert_lt (fun x : ℕ × ℤ × ℕ => x.2.1) h.sorted _

/-! ## Collecting -/

/-- The session with the first deadline is taken out of both containers. -/
lemma Paired.pop (h : s.Paired) {n : ℕ} {t : ℤ} {rest : Cells (ℤ × ℕ)}
    (htimeout : s.timeout = (n, t, p) :: rest) :
    ∃ key info, (p, key, ⟨t, info, n⟩) ∈ s.map ∧ s.map.without? p = some (s.map.without p) ∧
      Paired { s with map := s.map.without p, timeout := rest } := by
  have hmem : (n, t, p) ∈ s.timeout := by
    rw [htimeout]
    exact List.mem_cons_self
  have hnew : n ∉ rest.map Prod.fst := by
    have hall := h.timeout_distinct
    unfold Cells.Distinct at hall
    rw [htimeout] at hall
    exact (List.nodup_cons.1 hall).1
  have hrest : s.timeout.without n = rest := by
    unfold Cells.without
    rw [htimeout, List.filter_cons_of_neg (by simp), List.filter_eq_self]
    intro x hx
    exact decide_eq_true fun heq => hnew (List.mem_map.2 ⟨x, hx, heq⟩)
  rcases h.back n t p hmem with ⟨key, info, hentry⟩
  have hdrop := h.drop hentry
  dsimp only at hdrop
  rw [hrest] at hdrop
  exact ⟨key, info, hentry, h.map_distinct.without?_eq hentry, hdrop⟩

/-- Only sessions whose deadline has passed are collected. -/
lemma Paired.collect (h : s.Paired) (now : ℤ) (count : ℕ) :
    ∃ s', collect now count s = some s' ∧ s'.Paired ∧ (∀ x ∈ s'.map, x ∈ s.map) ∧
      ∀ x ∈ s.map, x ∈ s'.map ∨ x.2.2.timeout < now := by
  induction count generalizing s with
  | zero => exact ⟨s, rfl, h, fun x hx => hx, fun x hx => .inl hx⟩
  | succ count ih =>
    rcases htimeout : s.timeout with _ | ⟨⟨n, t, p⟩, rest⟩
    · refine ⟨s, ?_, h, fun x hx => hx, fun x hx => .inl hx⟩
      rw [MemoryStorage.collect, htimeout]
    · rw [MemoryStorage.collect, htimeout]
      dsimp only
      by_cases hlt : t < now
      · rcases h.pop htimeout with ⟨key, info, hentry, hwithout, hpop⟩
        rcases ih hpop with ⟨s', hcollect, hpaired, hsub, hexpired⟩
        refine ⟨s', ?_, hpaired, fun x hx => (Cells.mem_without.1 (hsub x hx)).1, fun x hx => ?_⟩
        · rw [if_pos hlt, hwithout, Option.bind_some, hcollect]
        · by_cases hp : x.1 = p
          · rcases x with ⟨q, y⟩
            dsimp only at hp
            subst hp
            rw [h.map_distinct.eq_of_mem hx hentry]
            exact .inr hlt
          · exact hexpired x (Cells.mem_without.2 ⟨hx, hp⟩)
      · rw [if_neg hlt]
        exact ⟨s, rfl, h, fun x hx => hx, fun x hx => .inl hx⟩

lemma Paired.shortGc (h : s.Paired) (now : ℤ) :
    ∃ s', s.shortGc now = some s' ∧ s'.Paired ∧ (∀ x ∈ s'.map, x ∈ s.map) ∧
      ∀ x ∈ s.map, x ∈ s'.map ∨ x.2.2.timeout < now := h.collect now 5

/-! ## Calls -/

/-- A session is replaced, the others stay. -/
lemma Paired.put (h : s.Paired) (key : Bytes) (timeout : ℤ) (value : Bytes) :
    ∃ s' p, s.put key timeout value = some s' ∧ s'.Paired ∧
    (p, key, ⟨timeout, value, s.next⟩) ∈ s'.map ∧
      ∀ q key' d, key' ≠ key → ((q, key', d) ∈ s'.map ↔ (q, key', d) ∈ s.map) := by
  unfold MemoryStorage.put
  rcases hfind : s.find key with _ | ⟨p, key', d⟩
  · have hfresh : ∀ x ∈ s.map, x.1 ≠ s.next := fun x hx => (h.map_below x hx).ne
    refine ⟨_, s.next, rfl, h.add hfresh le_rfl (find_eq_none hfind) timeout value,
      List.mem_cons_self, ?_⟩
    intro q key' d hne
    dsimp only
    rw [List.mem_cons, Prod.mk.injEq, Prod.mk.injEq]
    exact ⟨fun hor => hor.resolve_left fun heq => hne heq.2.1, .inr⟩
  · rcases find_eq_some hfind with ⟨hkey, hmem⟩
    dsimp only at hkey hmem ⊢
    subst hkey
    rw [h.timeout_distinct.without?_eq (h.forth p key' d hmem), Option.map_some]
    have hperm := h.map_distinct.perm_modify hmem fun x => (x.1, ⟨timeout, value, s.next⟩)
    have hhandle : ∀ x ∈ s.map.without p, x.1 ≠ p := fun x hx => (Cells.mem_without.1 hx).2
    have hkey : ∀ q e, (q, key', e) ∉ s.map.without p := by
      intro q e hq
      rcases Cells.mem_without.1 hq with ⟨hq, hne⟩
      exact hne (h.ids _ _ _ _ _ hq hmem)
    have hadd := (h.drop hmem).add hhandle (h.map_below _ hmem).le hkey timeout value
    refine ⟨_, p, rfl, hadd.perm hperm, hperm.mem_iff.2 List.mem_cons_self, ?_⟩
    intro q key'' e hne
    rw [hperm.mem_iff, List.mem_cons, Prod.mk.injEq, Prod.mk.injEq]
    constructor
    · rintro (heq | hq)
      · exact absurd heq.2.1 hne
      · exact (Cells.mem_without.1 hq).1
    · intro hq
      refine .inr (Cells.mem_without.2 ⟨hq, fun heq => hne ?_⟩)
      dsimp only at heq
      subst heq
      exact (Prod.mk.inj (h.map_distinct.eq_of_mem hq hmem)).1

/-- A session is taken out, the others stay. -/
lemma Paired.remove (h : s.Paired) (now : ℤ) (key : Bytes) :
    ∃ s', s.remove now key = some s' ∧ s'.Paired ∧ (∀ x ∈ s'.map, x ∈ s.map ∧ x.2.1 ≠ key) ∧
      ∀ x ∈ s.map, x.2.1 ≠ key → x ∈ s'.map ∨ x.2.2.timeout < now := by
  unfold MemoryStorage.remove
  rcases hfind : s.find key with _ | ⟨p, key', d⟩
  · refine ⟨s, rfl, h, fun x hx => ⟨hx, fun heq => ?_⟩, fun x hx _ => .inl hx⟩
    rw [← heq] at hfind
    exact find_eq_none hfind _ _ hx
  · rcases find_eq_some hfind with ⟨hkey, hmem⟩
    dsimp only at hkey hmem ⊢
    subst hkey
    rcases (h.drop hmem).shortGc now with ⟨s', hgc, hpaired, hsub, hexpired⟩
    refine ⟨s', ?_, hpaired, fun x hx => ?_, fun x hx hne => ?_⟩
    · rw [h.timeout_distinct.without?_eq (h.forth p key' d hmem), Option.bind_some,
        h.map_distinct.without?_eq hmem, Option.bind_some, hgc]
    · rcases Cells.mem_without.1 (hsub x hx) with ⟨hx, hp⟩
      refine ⟨hx, fun heq => hp ?_⟩
      rcases x with ⟨q, key'', e⟩
      dsimp only at heq
      subst heq
      exact h.ids _ _ _ _ _ hx hmem
    · apply hexpired
      refine Cells.mem_without.2 ⟨hx, fun heq => hne ?_⟩
      rcases x with ⟨q, key'', e⟩
      dsimp only at heq
      subst heq
      exact (Prod.mk.inj (h.map_distinct.eq_of_mem hx hmem)).1

/-- A session that a call does not write to is left, or has expired. -/
lemma Keeps.stay (hkeeps : s.Keeps now last) {s' : MemoryStorage} {now' : ℤ} (hnow : now ≤ now')
    (hstay : ∀ p d, (p, key, d) ∈ s.map → (p, key, d) ∈ s'.map ∨ d.timeout < now') {x : ℤ × Bytes}
    (hlast : last key = some x) : (∃ p d, (p, key, d) ∈ s'.map) ∨ x.1 < now' := by
  rcases hkeeps.kept key x hlast with ⟨p, d, hp⟩ | hlt
  · have hx := hkeeps.holds p key d hp
    rw [hlast] at hx
    cases hx
    exact (hstay p d hp).imp_left fun hp' => ⟨p, d, hp'⟩
  · exact .inr (hlt.trans_le hnow)

/-- What a call leaves, and what has become of the other sessions. -/
lemma Paired.call (h : s.Paired) (hkeeps : s.Keeps now last) (c : Call) (hnow : now ≤ c.now) :
    ∃ s', s.call c = some s' ∧ s'.Paired ∧
    s'.Keeps c.now (fun sid => Storage.written sid (last sid) c) ∧
      ∀ x ∈ s.map, x.2.1 ≠ c.sid → x ∈ s'.map ∨ x.2.2.timeout < c.now := by
  cases c with
  | load now' key =>
    refine ⟨s, rfl, h, ⟨hkeeps.holds, fun key' x hlast => ?_⟩, fun x hx _ => .inl hx⟩
    exact (hkeeps.kept key' x hlast).imp_right fun hlt => hlt.trans_le hnow
  | save now' key timeout value =>
    rcases h.put key timeout value with ⟨s₁, p, hput, hpaired₁, hmem, hothers⟩
    rcases hpaired₁.shortGc now' with ⟨s', hgc, hpaired, hsub, hexpired⟩
    have hcall : s.call (.save now' key timeout value) = some s' := by
      rw [MemoryStorage.call, MemoryStorage.save, hput, Option.bind_some, hgc]
    have hstay : ∀ x ∈ s.map, x.2.1 ≠ key → x ∈ s'.map ∨ x.2.2.timeout < now' :=
      fun x hx hne => hexpired x ((hothers _ _ _ hne).2 hx)
    refine ⟨s', hcall, hpaired, ⟨fun q key' d hq => ?_, fun key' x hlast => ?_⟩, hstay⟩
    · rw [Storage.written]
      by_cases heq : key = key'
      · subst heq
        have hq₁ := hsub _ hq
        have hpq := hpaired₁.ids _ _ _ _ _ hq₁ hmem
        subst hpq
        rw [if_pos rfl, (Prod.mk.inj (hpaired₁.map_distinct.eq_of_mem hq₁ hmem)).2]
      · rw [if_neg heq]
        exact hkeeps.holds q key' d ((hothers _ _ _ (Ne.symm heq)).1 (hsub _ hq))
    · rw [Storage.written] at hlast
      split_ifs at hlast with heq
      · subst heq
        cases hlast
        exact (hexpired _ hmem).imp_left fun hmem => ⟨p, _, hmem⟩
      · exact hkeeps.stay hnow (fun q d hq => hstay _ hq (Ne.symm heq)) hlast
  | remove now' key =>
    rcases h.remove now' key with ⟨s', hremove, hpaired, hsub, hstay⟩
    refine ⟨s', hremove, hpaired, ⟨fun q key' d hq => ?_, fun key' x hlast => ?_⟩, hstay⟩
    · rcases hsub _ hq with ⟨hq, hne⟩
      rw [Storage.written, if_neg (Ne.symm hne)]
      exact hkeeps.holds q key' d hq
    · rw [Storage.written] at hlast
      split_ifs at hlast with heq
      exact hkeeps.stay hnow (fun q d hq => hstay _ hq (Ne.symm heq)) hlast

/-! ## Runs -/

lemma run_append (s : MemoryStorage) (calls : List Call) (c : Call) :
    s.run (calls ++ [c]) = (s.run calls).bind fun s => s.call c := by
  unfold MemoryStorage.run
  rw [List.foldlM_append]
  simp only [List.foldlM_cons, List.foldlM_nil, Option.bind_eq_bind, Option.pure_def,
    Option.bind_fun_some]

lemma paired_run {calls : List Call} (hclock : calls.Pairwise fun c c' => c.now ≤ c'.now) :
    ∃ s, init.run calls = some s ∧ s.Paired ∧
      ∀ now, (∀ c ∈ calls, c.now ≤ now) → s.Keeps now fun sid => Storage.lastWrite sid calls := by
  induction calls using List.reverseRecOn with
  | nil =>
    refine ⟨init, rfl, paired_init, fun now _ => ⟨fun p key d hmem => ?_, fun key x hlast => ?_⟩⟩
    · exact absurd hmem List.not_mem_nil
    · cases hlast
  | append_singleton calls c ih =>
    rcases List.pairwise_append.1 hclock with ⟨hclock, -, hlater⟩
    rcases ih hclock with ⟨s, hrun, hpaired, hkeeps⟩
    have hbefore : ∀ c' ∈ calls, c'.now ≤ c.now := fun c' hc' =>
      hlater c' hc' c (List.mem_singleton.2 rfl)
    rcases hpaired.call (hkeeps c.now hbefore) c le_rfl with ⟨s', hcall, hpaired', hkeeps', -⟩
    refine ⟨s', ?_, hpaired', fun now hnow => ⟨fun p key d hmem => ?_, fun key x hlast => ?_⟩⟩
    · rw [run_append, hrun, Option.bind_some, hcall]
    · rw [Storage.lastWrite_append]
      exact hkeeps'.holds p key d hmem
    · rw [Storage.lastWrite_append] at hlast
      have hc : c.now ≤ now := hnow c (List.mem_append_right _ (List.mem_singleton.2 rfl))
      exact (hkeeps'.kept key x hlast).imp_right fun hlt => hlt.trans_le hc

/-- A session is found until its deadline. -/
lemma Keeps.load (hkeeps : s.Keeps now last) (sid : Bytes) :
    s.load now sid = (last sid).filter fun x => now ≤ x.1 := by
  unfold MemoryStorage.load
  rcases hfind : s.find sid with _ | ⟨p, key, d⟩
  · rcases hlast : last sid with _ | x
    · rfl
    · rcases hkeeps.kept sid x hlast with ⟨p, d, hmem⟩ | hlt
      · exact absurd hmem (find_eq_none hfind p d)
      · rw [Option.filter_some, if_neg (by simpa using hlt)]
        rfl
  · rcases find_eq_some hfind with ⟨-, hmem⟩
    rw [hkeeps.holds _ _ _ hmem, Option.bind_some, Option.filter_some]
    by_cases hlt : d.timeout < now
    · rw [if_pos hlt, if_neg (by simpa using hlt)]
    · rw [if_neg hlt, if_pos (by simpa using hlt)]

/-- The iterators of the two containers stay inverse to each other.  A session is loaded exactly if
it was saved, not removed and its deadline has not passed, and a call takes away no other session
before its deadline. -/
theorem run_loads_last (calls : List Call) (hclock : calls.Pairwise fun c c' => c.now ≤ c'.now) :
    ∃ s, init.run calls = some s ∧ s.Paired ∧
      (∀ now sid, (∀ c ∈ calls, c.now ≤ now) →
        s.load now sid = (Storage.lastWrite sid calls).filter fun x => now ≤ x.1) ∧
      ∀ c, (∀ c' ∈ calls, c'.now ≤ c.now) → ∃ s', s.call c = some s' ∧
        ∀ x ∈ s.map, x.2.1 ≠ c.sid → x ∉ s'.map → x.2.2.timeout < c.now := by
  rcases paired_run hclock with ⟨s, hrun, hpaired, hkeeps⟩
  refine ⟨s, hrun, hpaired, fun now sid hnow => (hkeeps now hnow).load sid, fun c hc => ?_⟩
  rcases hpaired.call (hkeeps c.now hc) c le_rfl with ⟨s', hcall, -, -, hstay⟩
  exact ⟨s', hcall, fun x hx hne hgone => (hstay x hx hne).resolve_left hgone⟩

/-- A session that is saved again, and one that is collected meanwhile. -/
def savedTwice : List Call :=
  [.save 1 (bytes "a") 10 (bytes "x"), .save 2 (bytes "b") 3 (bytes "y"),
    .save 5 (bytes "a") 20 (bytes "z"), .load 12 (bytes "a")]

theorem run_loads_last_savedTwice :
    ∃ s, init.run savedTwice = some s ∧ s.load 12 (bytes "a") = some (20, bytes "z") := by
  rcases run_loads_last savedTwice (by decide) with ⟨s, hrun, -, hload, -⟩
  refine ⟨s, hrun, (hload 12 _ (by decide)).trans ?_⟩
  decide

end MemoryStorage

end Session

end Cppcms
