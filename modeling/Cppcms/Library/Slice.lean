import Mathlib.Tactic

/-!
# Parts of a list

A range of positions is read and written only inside the list.
-/

namespace Cppcms

variable {α : Type*} {l part a b c : List α} {start len : ℕ}

/-- A part of a list, if it is inside. -/
def slice (l : List α) (start len : ℕ) : Option (List α) :=
  if start + len ≤ l.length then some ((l.drop start).take len) else none

lemma slice_of_le (h : start + len ≤ l.length) :
    slice l start len = some ((l.drop start).take len) :=
  if_pos h

lemma length_of_slice (h : slice l start len = some part) : part.length = len := by
  unfold slice at h
  split_ifs at h with hle
  rw [← Option.some.inj h, List.length_take, List.length_drop]
  omega

lemma length_le_of_slice (h : slice l start len = some part) : part.length ≤ l.length := by
  unfold slice at h
  split_ifs at h with hle
  rw [← Option.some.inj h, List.length_take, List.length_drop]
  omega

/-- The part between two others. -/
lemma slice_append (hstart : a.length = start) (hlen : b.length = len) :
    slice (a ++ (b ++ c)) start len = some b := by
  subst hstart hlen
  have hle : a.length + b.length ≤ (a ++ (b ++ c)).length := by
    simp only [List.length_append]
    omega
  rw [slice_of_le hle, List.drop_left, List.take_left]

/-- The list with other elements from a position on, if they have a place inside. -/
def overwrite (l : List α) (start : ℕ) (part : List α) : Option (List α) :=
  if start + part.length ≤ l.length then some
    (l.take start ++ (part ++ l.drop (start + part.length))) else none

/-- The part between two others is replaced. -/
lemma overwrite_append {b' : List α} (hstart : a.length = start) (hlen : b.length = b'.length) :
    overwrite (a ++ (b ++ c)) start b' = some (a ++ (b' ++ c)) := by
  subst hstart
  have hle : a.length + b'.length ≤ (a ++ (b ++ c)).length := by
    simp only [List.length_append]
    omega
  rw [overwrite, if_pos hle, List.take_left, ← hlen, ← List.drop_drop,
    List.drop_left, List.drop_left]

end Cppcms
