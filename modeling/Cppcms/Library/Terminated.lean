import Mathlib.Tactic
import Mathlib.Data.List.TakeWhile

/-!
# Terminated strings

A list of strings on the wire: each string is followed by a terminator.  A reader that goes from
terminator to terminator gets the strings back if none of them has the terminator inside.
-/

namespace Cppcms

variable {α : Type*}

/-- A list up to the first element that fails a test is a front of it, and the rest is what is left.
-/
lemma takeWhile_eq_take (p : α → Bool) (l : List α) :
    l.takeWhile p = l.take (l.takeWhile p).length := by
  have hsplit : (l.takeWhile p ++ l.dropWhile p).take (l.takeWhile p).length = l.takeWhile p :=
    List.take_left
  rw [List.takeWhile_append_dropWhile] at hsplit
  exact hsplit.symm

lemma dropWhile_eq_drop (p : α → Bool) (l : List α) :
    l.dropWhile p = l.drop (l.takeWhile p).length := by
  have hsplit : (l.takeWhile p ++ l.dropWhile p).drop (l.takeWhile p).length = l.dropWhile p :=
    List.drop_left
  rw [List.takeWhile_append_dropWhile] at hsplit
  exact hsplit.symm

/-- The strings one after the other, each with its terminator. -/
def terminate (z : α) (l : List (List α)) : List α := l.flatMap fun s => s ++ [z]

@[simp] lemma terminate_nil (z : α) : terminate z [] = [] := rfl

@[simp] lemma terminate_cons (z : α) (s : List α) (l : List (List α)) :
    terminate z (s :: l) = s ++ z :: terminate z l := by
  unfold terminate
  rw [List.flatMap_cons, List.append_assoc, List.singleton_append]

variable [DecidableEq α] {z : α}

/-- The strings that are read from terminator to terminator; at the end of the text the terminator
may be missing. -/
def pieces (z : α) : List α → List (List α)
  | [] => []
  | b :: l =>
    if b = z then [] :: pieces z l
    else
      match pieces z l with
      | [] => [[b]]
      | p :: ps => (b :: p) :: ps

lemma pieces_append {s l : List α} (hs : z ∉ s) : pieces z (s ++ z :: l) = s :: pieces z l := by
  induction s with
  | nil => rw [List.nil_append, pieces, if_pos rfl]
  | cons b s ih =>
    rw [List.mem_cons, not_or] at hs
    rw [List.cons_append, pieces, if_neg (Ne.symm hs.1), ih hs.2]

/-- Strings without the terminator are found again. -/
lemma pieces_terminate {l : List (List α)} (hl : ∀ s ∈ l, z ∉ s) :
    pieces z (terminate z l) = l := by
  induction l with
  | nil => rfl
  | cons s l ih =>
    rw [terminate_cons, pieces_append (hl s List.mem_cons_self),
      ih fun s hs => hl s (List.mem_cons_of_mem _ hs)]

/-- The strings that are read do not have the terminator. -/
lemma not_mem_of_mem_pieces {l s : List α} (hs : s ∈ pieces z l) : z ∉ s := by
  induction l generalizing s with
  | nil => cases hs
  | cons b l ih =>
    unfold pieces at hs
    split_ifs at hs with hb
    · obtain rfl | hs := List.mem_cons.1 hs
      · exact List.not_mem_nil
      · exact ih hs
    · split at hs
      · obtain rfl := List.mem_singleton.1 hs
        rw [List.mem_singleton]
        exact Ne.symm hb
      · rename_i p ps heq
        obtain rfl | hs := List.mem_cons.1 hs
        · rw [List.mem_cons, not_or]
          exact ⟨Ne.symm hb, ih (heq ▸ List.mem_cons_self)⟩
        · exact ih (heq ▸ List.mem_cons_of_mem _ hs)

/-- The first string that is read ends at the first terminator. -/
lemma pieces_cons {l : List α} (hl : l ≠ []) :
    pieces z l = l.takeWhile (· ≠ z) :: pieces z ((l.dropWhile (· ≠ z)).drop 1) := by
  induction l with
  | nil => exact absurd rfl hl
  | cons b l ih =>
    rw [pieces]
    by_cases hb : b = z
    · rw [if_pos hb, List.takeWhile_cons_of_neg (by simpa using hb),
        List.dropWhile_cons_of_neg (by simpa using hb), List.drop_one, List.tail_cons]
    · rw [if_neg hb, List.takeWhile_cons_of_pos (by simpa using hb),
        List.dropWhile_cons_of_pos (by simpa using hb)]
      cases l with
      | nil => rfl
      | cons b' l => rw [ih (List.cons_ne_nil _ _)]

end Cppcms
