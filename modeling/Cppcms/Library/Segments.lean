import Mathlib.Tactic
import Mathlib.Data.List.TakeWhile

/-!
# Segments of a word

What a word has between the occurrences of a separator, without the empty pieces; repeated
separators, and separators at the ends, do not count.
-/

namespace Cppcms

variable {α : Type*} [DecidableEq α] {a : α}

/-- The pieces between separators that are not empty. -/
def segments (a : α) (w : List α) : List (List α) := (w.splitOn a).filter (· ≠ [])

/-- A word without separators is one segment, or none. -/
lemma segments_of_not_mem {w : List α} (h : a ∉ w) (hne : w ≠ []) : segments a w = [w] := by
  unfold segments
  rw [List.splitOn_eq_singleton h]
  exact List.filter_cons_of_pos (by simpa using hne)

@[simp] lemma segments_nil : segments a [] = [] := rfl

/-- Words can be cut at a separator. -/
lemma segments_append_cons (u v : List α) :
    segments a (u ++ a :: v) = segments a u ++ segments a v := by
  unfold segments
  rw [List.splitOn_append_cons_self, List.filter_append]

lemma segments_append_singleton (u : List α) : segments a (u ++ [a]) = segments a u := by
  rw [segments_append_cons, segments_nil, List.append_nil]

lemma segments_singleton : segments a [a] = [] := segments_append_singleton []

omit [DecidableEq α] in
/-- A word has a last separator. -/
lemma eq_append_last_of_mem {w : List α} (h : a ∈ w) : ∃ u v, w = u ++ a :: v ∧ a ∉ v := by
  rcases List.eq_append_cons_of_mem (List.mem_reverse.2 h) with ⟨s, t, hst, hs⟩
  refine ⟨t.reverse, s.reverse, ?_, fun hmem => hs (List.mem_reverse.1 hmem)⟩
  have hw := congrArg List.reverse hst
  simpa using hw

/-- A word is cut at its first separator. -/
lemma eq_takeWhile_append_cons {w : List α} (h : (w.takeWhile (· ≠ a)).length < w.length) :
    w = w.takeWhile (· ≠ a) ++ a :: w.drop ((w.takeWhile (· ≠ a)).length + 1) := by
  induction w with
  | nil => exact absurd h (lt_irrefl _)
  | cons b w ih =>
    by_cases hb : b = a
    · rw [List.takeWhile_cons_of_neg (by simpa using hb), hb]
      rfl
    · rw [List.takeWhile_cons_of_pos (by simpa using hb)] at h ⊢
      rw [List.length_cons, List.length_cons] at h
      rw [List.length_cons, List.drop_succ_cons, List.cons_append, ← ih (by omega)]

lemma notMem_takeWhile (w : List α) : a ∉ w.takeWhile (· ≠ a) := by
  intro hmem
  have hnot := List.mem_takeWhile_imp hmem
  simp at hnot

/-- The pieces have no separators. -/
lemma notMem_of_mem_splitOn {w x : List α} (hx : x ∈ w.splitOn a) : a ∉ x := by
  induction hn : w.length using Nat.strong_induction_on generalizing w with
  | _ n ih =>
    by_cases ha : a ∈ w
    · rcases List.eq_append_cons_of_mem ha with ⟨u, v, rfl, hu⟩
      rw [List.splitOn_append_cons_self, List.splitOn_eq_singleton hu] at hx
      rcases List.mem_append.1 hx with hx | hx
      · rw [List.mem_singleton.1 hx]
        exact hu
      · refine ih v.length ?_ hx rfl
        rw [← hn, List.length_append, List.length_cons]
        omega
    · rw [List.splitOn_eq_singleton ha] at hx
      rw [List.mem_singleton.1 hx]
      exact ha

/-- A word that goes on behind another one prolongs its last segment at most. -/
lemma mem_segments_append {w c x : List α} (hc : a ∉ c) (hne : c ≠ [])
    (hx : x ∈ segments a (w ++ c)) :
    x ∈ segments a w ∨ ∃ y, (y = [] ∨ y ∈ segments a w) ∧ x = y ++ c := by
  by_cases hw : a ∈ w
  · rcases eq_append_last_of_mem hw with ⟨u, v, rfl, hv⟩
    have hvc : a ∉ v ++ c := fun hmem => (List.mem_append.1 hmem).elim hv hc
    have hvne : v ++ c ≠ [] := List.append_ne_nil_of_right_ne_nil v hne
    rw [List.append_assoc, List.cons_append, segments_append_cons,
      segments_of_not_mem hvc hvne] at hx
    rw [segments_append_cons]
    rcases List.mem_append.1 hx with hx | hx
    · exact Or.inl (List.mem_append_left _ hx)
    · refine Or.inr ⟨v, ?_, List.mem_singleton.1 hx⟩
      by_cases hempty : v = []
      · exact Or.inl hempty
      · rw [segments_of_not_mem hv hempty]
        exact Or.inr (List.mem_append_right _ (List.mem_singleton_self v))
  · have hwc : a ∉ w ++ c := fun hmem => (List.mem_append.1 hmem).elim hw hc
    rw [segments_of_not_mem hwc (List.append_ne_nil_of_right_ne_nil w hne)] at hx
    refine Or.inr ⟨w, ?_, List.mem_singleton.1 hx⟩
    by_cases hempty : w = []
    · exact Or.inl hempty
    · rw [segments_of_not_mem hw hempty]
      exact Or.inr (List.mem_singleton_self w)

end Cppcms
