import Mathlib.Tactic

/-!
# Labelled delimiters

Words of opening and closing delimiters that carry labels.  `Balanced` is the grammar of the words
in which every delimiter has its partner, of the same label and properly nested; `matchStack` reads
a word from left to right with the stack of labels that are still open.  A word is balanced exactly
if the stack is empty after it (`balanced_iff`), and reading may be resumed (`matchStack_append`),
so that an emitter of delimiters is verified step by step.
-/

namespace Cppcms

/-- An opening or a closing delimiter with a label. -/
inductive Delimiter (α : Type*) where
  | opening (a : α)
  | closing (a : α)
  deriving DecidableEq, Repr

namespace Delimiter

variable {α : Type*}

/-- Every delimiter has its partner, and pairs are disjoint or nested. -/
inductive Balanced : List (Delimiter α) → Prop
  | nil : Balanced []
  | wrap (a : α) {u v : List (Delimiter α)} (hu : Balanced u) (hv : Balanced v) :
      Balanced (opening a :: (u ++ closing a :: v))

variable [DecidableEq α]

/-- The labels that are open after a word, or `none` at a closing delimiter that is not the partner
of the last open one. -/
def matchStack : List α → List (Delimiter α) → Option (List α)
  | st, [] => some st
  | st, opening a :: w => matchStack (a :: st) w
  | [], closing _ :: _ => none
  | b :: st, closing a :: w => if a = b then matchStack st w else none

/-- Reading a word can be interrupted. -/
lemma matchStack_append (st : List α) (u v : List (Delimiter α)) :
    matchStack st (u ++ v) = (matchStack st u).bind fun st' => matchStack st' v := by
  fun_induction matchStack st u with
  | case1 => rfl
  | case2 st a w ih => simpa [matchStack] using ih
  | case3 a w => simp [matchStack]
  | case4 b st w ih => simpa [matchStack] using ih
  | case5 b st a w h => simp [matchStack, h]

/-- A balanced word leaves the stack as it was. -/
lemma Balanced.matchStack_eq {w : List (Delimiter α)} (hw : Balanced w) (st : List α) :
    matchStack st w = some st := by
  induction hw generalizing st with
  | nil => rfl
  | wrap a _ _ ihu ihv =>
    rw [matchStack, matchStack_append, ihu, Option.bind_some, matchStack, if_pos rfl, ihv]

/-- The words that close the labels of a stack, one after the other, with balanced words between. -/
inductive Closes : List α → List (Delimiter α) → Prop
  | nil {u : List (Delimiter α)} (hu : Balanced u) : Closes [] u
  | cons (a : α) {st : List α} {u w : List (Delimiter α)} (hu : Balanced u) (hw : Closes st w) :
      Closes (a :: st) (u ++ closing a :: w)

/-- A word that empties the stack closes exactly the labels of the stack. -/
lemma closes_of_matchStack {st : List α} {w : List (Delimiter α)} (h : matchStack st w = some []) :
    Closes st w := by
  fun_induction matchStack st w with
  | case1 st =>
    obtain rfl : st = [] := by simpa using h
    exact .nil .nil
  | case2 st a w ih =>
    cases ih h with
    | cons _ hu hw =>
      cases hw with
      | nil hv => exact .nil (.wrap a hu hv)
      | @cons b st' v w' hv hw' =>
        have := Closes.cons b (.wrap a hu hv) hw'
        simpa using this
  | case3 a w => simp at h
  | case4 b st w ih => exact .cons (u := []) _ .nil (ih h)
  | case5 b st a w hab => simp at h

/-- A word is balanced exactly if reading it leaves nothing open. -/
theorem balanced_iff (w : List (Delimiter α)) : Balanced w ↔ matchStack [] w = some [] := by
  refine ⟨fun h => h.matchStack_eq [], fun h => ?_⟩
  cases closes_of_matchStack h with
  | nil hu => exact hu

end Delimiter

end Cppcms
