import Mathlib.Tactic

/-!
# Outcomes of calls

A call returns, or it throws an exception, or its behaviour is not defined, as after an access
outside of a buffer.
-/

namespace Cppcms

inductive Outcome (α : Type*) where
  | returns (a : α)
  | throws (what : String)
  | undefined
  deriving DecidableEq, Repr

namespace Outcome

/-- The next call is made only if this one returns. -/
instance : Monad Outcome where
  pure := .returns
  bind x f :=
    match x with
    | .returns a => f a
    | .throws what => .throws what
    | .undefined => .undefined

universe u

variable {α β : Type u}

@[simp] lemma returns_bind (a : α) (f : α → Outcome β) : (Outcome.returns a >>= f) = f a := rfl

@[simp] lemma pure_eq (a : α) : (pure a : Outcome α) = .returns a := rfl

/-- Calls that follow each other return if each one does. -/
lemma bind_eq_returns {x : Outcome α} {f : α → Outcome β} {b : β} :
    (x >>= f) = .returns b ↔ ∃ a, x = .returns a ∧ f a = .returns b := by
  constructor
  · intro h
    rcases x with a | what | _
    · exact ⟨a, rfl, h⟩
    · cases h
    · cases h
  · rintro ⟨a, rfl, h⟩
    exact h

/-- Calls that follow each other are defined if each one that is made is. -/
lemma bind_ne_undefined {x : Outcome α} {f : α → Outcome β} :
    (x >>= f) ≠ .undefined ↔ x ≠ .undefined ∧ ∀ a, x = .returns a → f a ≠ .undefined := by
  rcases x with a | what | _
  · constructor
    · intro h
      refine ⟨(fun hx => by cases hx), ?_⟩
      rintro b hb
      cases hb
      exact h
    · exact fun h => h.2 a rfl
  · constructor
    · exact fun _ => ⟨(fun hx => by cases hx), fun _ hx => by cases hx⟩
    · exact fun _ hx => by cases hx
  · constructor
    · exact fun h => absurd rfl h
    · exact fun h => absurd rfl h.1

end Outcome

end Cppcms
