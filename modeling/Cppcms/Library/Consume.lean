import Mathlib.Tactic

/-!
# Scanning loops that consume their input

A hand-written scanner is a loop: while input is left, one step reads a non-empty piece of it and
yields a value, or fails.  `consume step` is that loop.  It is defined by structural recursion on a
budget equal to the length of the input, so that it computes; `consume_of_step` shows that for a
step that always shortens the input the budget is never the reason to stop, and every later proof
works with that equation only.

Nothing here is about bytes: the input is a list over an arbitrary type.
-/

namespace Cppcms

namespace Consume

variable {α β : Type*}

/-- A step shortens the input if every success leaves strictly less of it. -/
def Shortens (step : List β → Option (α × List β)) : Prop :=
  ∀ s a r, step s = some (a, r) → r.length < s.length

/-- At most `n` rounds of the loop; `none` as soon as a step fails. -/
def rounds (step : List β → Option (α × List β)) : ℕ → List β → Option (List α)
  | _, [] => some []
  | 0, _ :: _ => none
  | n + 1, b :: s =>
    match step (b :: s) with
    | none => none
    | some (a, r) => (rounds step n r).map (a :: ·)

/-- The values read while consuming the whole input, or `none` if some step fails. -/
def consume (step : List β → Option (α × List β)) (s : List β) : Option (List α) :=
  rounds step s.length s

/-- The loop does nothing on empty input. -/
@[simp] lemma consume_nil (step : List β → Option (α × List β)) : consume step [] = some [] := rfl

/-- A budget of the length of the input is enough, and any larger budget gives the same result. -/
lemma rounds_eq_consume {step : List β → Option (α × List β)} (hstep : Shortens step) {n : ℕ}
    {s : List β} (hn : s.length ≤ n) : rounds step n s = consume step s := by
  induction n using Nat.strong_induction_on generalizing s with
  | _ n ih =>
    cases s with
    | nil => cases n <;> rfl
    | cons b s =>
      obtain ⟨m, rfl⟩ : ∃ m, n = m + 1 := ⟨n - 1, by simp at hn; omega⟩
      simp only [consume, rounds, List.length_cons]
      cases hs : step (b :: s) with
      | none => rfl
      | some q =>
        obtain ⟨a, r⟩ := q
        have hr : r.length ≤ s.length := by
          have := hstep _ _ _ hs
          simp at this
          omega
        have hsm : s.length ≤ m := by simpa using hn
        simp only
        rw [ih m (Nat.lt_succ_self m) (hr.trans hsm), ← ih s.length (by omega) hr]

/-- One round of the loop. -/
lemma consume_of_step {step : List β → Option (α × List β)} (hstep : Shortens step) {s : List β}
    (hs : s ≠ []) {a : α} {r : List β} (h : step s = some (a, r)) :
    consume step s = (consume step r).map (a :: ·) := by
  obtain ⟨b, t, rfl⟩ := List.exists_cons_of_ne_nil hs
  have hr : r.length ≤ t.length := by
    have := hstep _ _ _ h
    simp at this
    omega
  rw [consume, List.length_cons, rounds, h]
  simp only
  rw [rounds_eq_consume hstep hr]

/-- The loop fails where its step fails. -/
lemma consume_of_step_none {step : List β → Option (α × List β)} {s : List β} (hs : s ≠ [])
    (h : step s = none) : consume step s = none := by
  obtain ⟨b, t, rfl⟩ := List.exists_cons_of_ne_nil hs
  rw [consume, List.length_cons, rounds, h]

/-- Induction along the loop: on the empty input, at a failing step, and after a successful step. -/
theorem consume_induction {step : List β → Option (α × List β)} (hstep : Shortens step)
    {P : List β → Prop} (nil : P []) (fail : ∀ s, s ≠ [] → step s = none → P s)
    (next : ∀ s a r, s ≠ [] → step s = some (a, r) → P r → P s) (s : List β) : P s := by
  induction hn : s.length using Nat.strong_induction_on generalizing s with
  | _ n ih =>
    by_cases hs : s = []
    · exact hs ▸ nil
    · cases h : step s with
      | none => exact fail s hs h
      | some q =>
        obtain ⟨a, r⟩ := q
        exact next s a r hs h (ih r.length (hn ▸ hstep _ _ _ h) r rfl)

end Consume

end Cppcms
