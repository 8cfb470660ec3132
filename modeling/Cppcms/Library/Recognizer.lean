import Mathlib.Tactic

/-!
# Recognizers

A recursive-descent recognizer moves a position in a text and answers whether it succeeded.  The
position is given by the rest of the text.  A recognizer that fails may leave the position moved, so
that the next alternative starts there, unless a save point brings it back (`saved`).  `many` is the
loop `while(p());`.
-/

namespace Cppcms

/-- The answer of a recognizer and the rest of the text. -/
abbrev Recognizer (β : Type*) := List β → Bool × List β

namespace Recognizer

variable {β : Type*}

/-- `p() || q()`. -/
def orElse (p q : Recognizer β) : Recognizer β := fun s =>
  if (p s).1 then p s else q (p s).2

/-- `p() && q()`. -/
def andThen (p q : Recognizer β) : Recognizer β := fun s =>
  if (p s).1 then q (p s).2 else p s

/-- A recognizer with a save point that is committed on success. -/
def saved (p : Recognizer β) : Recognizer β := fun s => if (p s).1 then p s else (false, s)

/-- The rounds of a loop, with a budget. -/
def manyRounds (p : Recognizer β) : ℕ → List β → List β
  | 0, s => s
  | n + 1, s => if (p s).1 then manyRounds p n (p s).2 else (p s).2

/-- `while(p()); return true`: a budget of one round for every character and one for the failure is
enough if every successful round reads something (`many_stop`). -/
def many (p : Recognizer β) : Recognizer β := fun s => (true, manyRounds p (s.length + 1) s)

@[simp] lemma orElse_fst (p q : Recognizer β) (s : List β) :
    (p.orElse q s).1 = ((p s).1 || (q (p s).2).1) := by
  cases h : (p s).1 <;> simp [orElse, h]

@[simp] lemma andThen_fst (p q : Recognizer β) (s : List β) :
    (p.andThen q s).1 = ((p s).1 && (q (p s).2).1) := by
  cases h : (p s).1 <;> simp [andThen, h]

@[simp] lemma saved_fst (p : Recognizer β) (s : List β) : (saved p s).1 = (p s).1 := by
  cases h : (p s).1 <;> simp [saved, h]

@[simp] lemma many_fst (p : Recognizer β) (s : List β) : (many p s).1 = true := rfl

/-- Every success reads something, and a failure reads nothing. -/
def Progresses (p : Recognizer β) : Prop :=
  ∀ s, ((p s).1 = true → (p s).2.length < s.length) ∧ ((p s).1 = false → (p s).2 = s)

lemma Progresses.orElse {p q : Recognizer β} (hp : Progresses p) (hq : Progresses q) :
    Progresses (p.orElse q) := by
  intro s
  by_cases h : (p s).1 = true
  · simpa [Recognizer.orElse, h] using (hp s).1 h
  · have hs : (p s).2 = s := (hp s).2 (by simpa using h)
    simpa [Recognizer.orElse, h, hs] using hq s

/-- A loop reads forward. -/
lemma many_length_le {p : Recognizer β} (hp : Progresses p) (s : List β) :
    (many p s).2.length ≤ s.length := by
  have key : ∀ n s, (manyRounds p n s).length ≤ s.length := by
    intro n
    induction n with
    | zero => exact fun s => le_rfl
    | succ n ih =>
      intro s
      rw [manyRounds]
      split_ifs with h
      · have := (hp s).1 h
        exact (ih _).trans (by omega)
      · rw [(hp s).2 (by simpa using h)]
  exact key _ s

/-- A recognizer that progresses, followed by a loop, with a save point. -/
lemma Progresses.saved_andThen_many {p q : Recognizer β} (hp : Progresses p) (hq : Progresses q) :
    Progresses (saved (p.andThen (many q))) := by
  intro s
  by_cases h : (p s).1 = true
  · have h1 := (hp s).1 h
    have h2 := many_length_le hq (p s).2
    refine ⟨fun _ => ?_, fun h' => ?_⟩
    · simp only [saved, andThen, h, if_true, many_fst]
      omega
    · simp [h] at h'
  · simp [saved, andThen, h]

/-- A loop over a recognizer that progresses ends where the recognizer fails. -/
theorem many_stop {p : Recognizer β} (hp : Progresses p) (s : List β) :
    (p (many p s).2).1 = false := by
  have key : ∀ n s, s.length < n → (p (manyRounds p n s)).1 = false := by
    intro n
    induction n with
    | zero => simp
    | succ n ih =>
      intro s hs
      rw [manyRounds]
      split_ifs with h
      · have := (hp s).1 h
        exact ih _ (by omega)
      · have h : (p s).1 = false := by simpa using h
        rw [(hp s).2 h, h]
  exact key _ s (Nat.lt_succ_self _)

end Recognizer

end Cppcms
