import Mathlib.Tactic

/-!
# Cells with handles

A node-based container keeps its elements in cells, and other objects refer to a cell by a handle,
such as an iterator.  A handle stays valid until its cell is erased; to use it afterwards is an
error.  Here a container is the list of its cells in their order, each with its handle, and looking
up a handle that is not there gives `none`.
-/

namespace Cppcms

/-- In a list with distinct keys, the pair with a key and the other pairs. -/
lemma perm_filter_key {κ α : Type*} [DecidableEq κ] {l : List (κ × α)} {k : κ} {a : α}
    (hl : (l.map Prod.fst).Nodup) (ha : (k, a) ∈ l) :
    l.Perm ((k, a) :: l.filter fun x => x.1 ≠ k) := by
  induction l with
  | nil => cases ha
  | cons x l ih =>
    obtain ⟨hx, hl⟩ := List.nodup_cons.1 hl
    have hx' : ∀ y ∈ l, y.1 ≠ x.1 := fun y hy heq => hx (List.mem_map.2 ⟨y, hy, heq⟩)
    obtain rfl | ha := List.mem_cons.1 ha
    · have hrest : ((k, a) :: l).filter (fun x => decide (x.1 ≠ k)) = l := by
        rw [List.filter_cons_of_neg (by simp), List.filter_eq_self]
        exact fun y hy => by simpa using hx' y hy
      rw [hrest]
    · have hne : x.1 ≠ k := fun heq => hx' _ ha heq.symm
      rw [List.filter_cons_of_pos (by simpa using hne)]
      exact ((ih hl ha).cons x).trans (List.Perm.swap _ _ _)

/-- A sorted list stays sorted if an element is put behind those that are not greater. -/
lemma pairwise_orderedInsert_lt {α κ : Type*} [LinearOrder κ] (f : α → κ) {l : List α}
    (hl : l.Pairwise fun x y => f x ≤ f y) (x : α) :
    (l.orderedInsert (fun x y => f x < f y) x).Pairwise fun x y => f x ≤ f y := by
  induction l with
  | nil => exact List.pairwise_singleton _ _
  | cons y l ih =>
    obtain ⟨hy, hl⟩ := List.pairwise_cons.1 hl
    rw [List.orderedInsert_cons]
    split_ifs with hxy
    · refine List.pairwise_cons.2 ⟨?_, List.pairwise_cons.2 ⟨hy, hl⟩⟩
      intro z hz
      obtain rfl | hz := List.mem_cons.1 hz
      · exact hxy.le
      · exact hxy.le.trans (hy z hz)
    · refine List.pairwise_cons.2 ⟨?_, ih hl⟩
      intro z hz
      obtain rfl | hz := (List.mem_orderedInsert _).1 hz
      · exact not_lt.1 hxy
      · exact hy z hz

/-- The cells of a container, in its order. -/
abbrev Cells (α : Type*) := List (ℕ × α)

namespace Cells

variable {α : Type*} {l : Cells α} {h k : ℕ} {a b : α}

/-- No two cells have the same handle. -/
def Distinct (l : Cells α) : Prop := (l.map Prod.fst).Nodup

/-- The container without a cell. -/
def without (l : Cells α) (h : ℕ) : Cells α := l.filter fun x => x.1 ≠ h

/-- Erasing a cell, which must be there. -/
def without? (l : Cells α) (h : ℕ) : Option (Cells α) := (l.lookup h).map fun _ => l.without h

/-- A change of the content of a cell. -/
def modify (l : Cells α) (h : ℕ) (f : α → α) : Cells α :=
  l.map fun x => (x.1, if x.1 = h then f x.2 else x.2)

/-! ## Lookup -/

/-- A cell has one value. -/
lemma Distinct.eq_of_mem (hl : l.Distinct) (ha : (h, a) ∈ l) (hb : (h, b) ∈ l) : a = b := by
  have heq := List.inj_on_of_nodup_map hl ha hb rfl
  exact (Prod.mk.inj heq).2

lemma mem_of_lookup (hlookup : l.lookup h = some a) : (h, a) ∈ l := by
  obtain ⟨l₁, l₂, rfl, -⟩ := List.lookup_eq_some_iff.1 hlookup
  simp

lemma Distinct.lookup (hl : l.Distinct) (ha : (h, a) ∈ l) : l.lookup h = some a := by
  cases hlookup : l.lookup h with
  | none =>
    rw [List.lookup_eq_none_iff] at hlookup
    have hne := hlookup _ ha
    simp at hne
  | some b => rw [hl.eq_of_mem ha (mem_of_lookup hlookup)]

/-! ## Erasing -/

@[simp] lemma mem_without {x : ℕ × α} : x ∈ l.without h ↔ x ∈ l ∧ x.1 ≠ h := by
  simp [without]

/-- Removing a cell leaves the others distinct. -/
lemma Distinct.without (hl : l.Distinct) (h : ℕ) : (l.without h).Distinct :=
  List.Nodup.sublist (List.filter_sublist.map _) hl

lemma Distinct.without?_eq (hl : l.Distinct) (ha : (h, a) ∈ l) :
    l.without? h = some (l.without h) := by
  rw [without?, hl.lookup ha]
  rfl

/-- A cell and the other ones. -/
lemma Distinct.perm_without (hl : l.Distinct) (ha : (h, a) ∈ l) : l.Perm ((h, a) :: l.without h) :=
  perm_filter_key hl ha

/-- One cell is removed. -/
lemma Distinct.length_without (hl : l.Distinct) (ha : (h, a) ∈ l) :
    (l.without h).length + 1 = l.length := by
  rw [(hl.perm_without ha).length_eq, List.length_cons]

/-- A sum over the cells loses the summand of the removed cell. -/
lemma Distinct.sum_without (hl : l.Distinct) (ha : (h, a) ∈ l) (f : ℕ × α → ℕ) :
    ((l.without h).map f).sum + f (h, a) = (l.map f).sum := by
  rw [((hl.perm_without ha).map f).sum_eq, List.map_cons, List.sum_cons, Nat.add_comm]

/-! ## Changing -/

@[simp] lemma map_fst_modify (f : α → α) : (l.modify h f).map Prod.fst = l.map Prod.fst := by
  simp [modify, Function.comp_def]

/-- Changing a value does not change the numbers. -/
lemma Distinct.modify (hl : l.Distinct) (h : ℕ) (f : α → α) : (l.modify h f).Distinct := by
  rwa [Distinct, map_fst_modify]

/-- Only the value of one cell is changed. -/
lemma mem_modify {f : α → α} :
    (k, b) ∈ l.modify h f ↔ ∃ a, (k, a) ∈ l ∧ b = if k = h then f a else a := by
  constructor
  · intro hb
    obtain ⟨⟨k', a⟩, ha, heq⟩ := List.mem_map.1 hb
    obtain ⟨rfl, rfl⟩ := Prod.mk.inj heq
    exact ⟨a, ha, rfl⟩
  · rintro ⟨a, ha, rfl⟩
    exact List.mem_map.2 ⟨(k, a), ha, rfl⟩

lemma length_modify (f : α → α) : (l.modify h f).length = l.length := by
  simp [modify]

lemma without_modify (f : α → α) : (l.modify h f).without h = l.without h := by
  unfold Cells.modify Cells.without
  rw [List.filter_map]
  apply (List.map_congr_left fun x hx => ?_).trans (List.map_id _)
  have hne : x.1 ≠ h := by simpa using (List.mem_filter.1 hx).2
  simp [hne]

/-- A cell that has been changed and the other ones. -/
lemma Distinct.perm_modify (hl : l.Distinct) (ha : (h, a) ∈ l) (f : α → α) :
    (l.modify h f).Perm ((h, f a) :: l.without h) := by
  have hmem : (h, f a) ∈ l.modify h f := mem_modify.2 ⟨a, ha, by simp⟩
  have hperm := (hl.modify h f).perm_without hmem
  rwa [without_modify] at hperm

/-- A sum over the cells, after one of them has been changed. -/
lemma Distinct.sum_modify (hl : l.Distinct) (ha : (h, a) ∈ l) (f : α → α) (g : ℕ × α → ℕ) :
    ((l.modify h f).map g).sum + g (h, a) = (l.map g).sum + g (h, f a) := by
  have hafter := ((hl.perm_modify ha f).map g).sum_eq
  have hbefore := hl.sum_without ha g
  rw [List.map_cons, List.sum_cons] at hafter
  omega

/-! ## Fresh handles -/

/-- All handles are below a bound. -/
def Below (l : Cells α) (n : ℕ) : Prop := ∀ x ∈ l, x.1 < n

variable {n : ℕ}

/-- The next number is free. -/
lemma Below.not_mem (hl : l.Below n) : (n, a) ∉ l := fun hmem => (hl _ hmem).false

lemma Below.mono {n m : ℕ} (hl : l.Below n) (hnm : n ≤ m) : l.Below m :=
  fun x hx => (hl x hx).trans_le hnm

lemma Below.cons {n : ℕ} (hl : l.Below n) (a : α) : Below ((n, a) :: l) (n + 1) := by
  intro x hx
  obtain rfl | hx := List.mem_cons.1 hx
  · exact Nat.lt_succ_self n
  · exact (hl x hx).trans (Nat.lt_succ_self n)

/-- A cell with a fresh handle, wherever it is put. -/
lemma Distinct.orderedInsert (hl : l.Distinct) (hn : l.Below n) (a : α) (r : ℕ × α → ℕ × α → Prop)
    [DecidableRel r] : Distinct (List.orderedInsert r (n, a) l) := by
  have hperm := ((List.perm_orderedInsert r (n, a) l).map Prod.fst)
  refine hperm.nodup_iff.2 (List.nodup_cons.2 ⟨fun hmem => ?_, hl⟩)
  obtain ⟨x, hx, heq⟩ := List.mem_map.1 hmem
  exact (hn x hx).ne heq

/-- A cell with the next number is a new one. -/
lemma Distinct.cons {n : ℕ} (hl : l.Distinct) (hn : l.Below n) (a : α) :
    Distinct ((n, a) :: l) := by
  refine List.nodup_cons.2 ⟨?_, hl⟩
  intro hmem
  obtain ⟨x, hx, heq⟩ := List.mem_map.1 hmem
  have hlt := hn x hx
  rw [heq] at hlt
  exact hlt.false

end Cells

end Cppcms
