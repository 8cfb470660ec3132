import Mathlib.Tactic

/-!
# Sorted sets

A set that is iterated in the order of its elements: the list of its elements, each one once and in
ascending order.  Two such sets are equal if they have the same elements.
-/

namespace Cppcms

/-- The elements of an ordered set, as it is iterated. -/
structure SortedSet (α : Type*) [LinearOrder α] where
  toList : List α
  sorted : toList.Pairwise (· < ·)

namespace SortedSet

variable {α : Type*} [LinearOrder α] {s : SortedSet α} {a b : α}

instance : DecidableEq (SortedSet α) := fun s t =>
  decidable_of_iff (s.toList = t.toList)
    ⟨fun h => by cases s; cases t; cases h; rfl, fun h => h ▸ rfl⟩

instance : Membership α (SortedSet α) := ⟨fun s a => a ∈ s.toList⟩

instance : Decidable (a ∈ s) := inferInstanceAs (Decidable (a ∈ s.toList))

instance : EmptyCollection (SortedSet α) := ⟨⟨[], .nil⟩⟩

@[simp] lemma mem_toList : a ∈ s.toList ↔ a ∈ s := Iff.rfl

@[simp] lemma not_mem_empty : a ∉ (∅ : SortedSet α) := List.not_mem_nil

@[ext] lemma ext {s t : SortedSet α} (h : ∀ a, a ∈ s ↔ a ∈ t) : s = t := by
  obtain ⟨l, hl⟩ := s
  obtain ⟨l', hl'⟩ := t
  obtain rfl : l = l' := hl.eq_of_mem_iff hl' h
  rfl

lemma nodup (s : SortedSet α) : s.toList.Nodup := s.sorted.imp fun h => h.ne

/-- A new element goes between the smaller and the larger ones. -/
lemma sorted_orderedInsert {l : List α} (hl : l.Pairwise (· < ·)) (ha : a ∉ l) :
    (l.orderedInsert (· ≤ ·) a).Pairwise (· < ·) := by
  induction l with
  | nil => simp
  | cons b l ih =>
    rw [List.mem_cons, not_or] at ha
    obtain ⟨hb, hl⟩ := List.pairwise_cons.1 hl
    rw [List.orderedInsert_cons]
    split_ifs with hab
    · refine List.pairwise_cons.2 ⟨?_, List.pairwise_cons.2 ⟨hb, hl⟩⟩
      have hlt : a < b := lt_of_le_of_ne hab ha.1
      intro c hc
      obtain rfl | hc := List.mem_cons.1 hc
      · exact hlt
      · exact hlt.trans (hb c hc)
    · refine List.pairwise_cons.2 ⟨?_, ih hl ha.2⟩
      intro c hc
      obtain rfl | hc := (List.mem_orderedInsert _).1 hc
      · exact not_le.1 hab
      · exact hb c hc

/-- The set with an element. -/
def insert (s : SortedSet α) (a : α) : SortedSet α :=
  if h : a ∈ s then s else ⟨s.toList.orderedInsert (· ≤ ·) a, sorted_orderedInsert s.sorted h⟩

@[simp] lemma mem_insert : b ∈ s.insert a ↔ b = a ∨ b ∈ s := by
  unfold insert
  split_ifs with h
  · constructor
    · exact .inr
    · rintro (rfl | hb)
      · exact h
      · exact hb
  · exact List.mem_orderedInsert _

/-- The set with the elements of a list, one after the other. -/
def insertAll (s : SortedSet α) (l : List α) : SortedSet α := l.foldl insert s

@[simp] lemma mem_insertAll {l : List α} : b ∈ s.insertAll l ↔ b ∈ l ∨ b ∈ s := by
  unfold insertAll
  induction l generalizing s with
  | nil => simp
  | cons a l ih =>
    rw [List.foldl_cons, ih, mem_insert, List.mem_cons]
    tauto

/-- Inserting the elements of a set again gives it back. -/
lemma insertAll_toList (s : SortedSet α) : (∅ : SortedSet α).insertAll s.toList = s := by
  ext a
  simp

end SortedSet

end Cppcms
