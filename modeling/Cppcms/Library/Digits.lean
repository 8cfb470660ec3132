import Mathlib.Tactic

/-!
# Numbers in positional notation

Reading the digits of a number from the left gives the number back, whatever characters stand for
the digits.
-/

namespace Cppcms

variable {α : Type*} {b n : ℕ} {digit : Char → α} {value : α → ℕ}

/-- The number whose digits stand in a list, the highest first. -/
def ofDigitList (b : ℕ) (value : α → ℕ) (l : List α) : ℕ := l.foldl (fun n c => b * n + value c) 0

lemma ofDigitList_append_singleton (l : List α) (c : α) :
    ofDigitList b value (l ++ [c]) = b * ofDigitList b value l + value c := by
  unfold ofDigitList
  rw [List.foldl_append, List.foldl_cons, List.foldl_nil]

/-- Every character of a number is a digit. -/
lemma exists_digit_of_mem_toDigits (hb : 1 < b) {c : Char} (hc : c ∈ Nat.toDigits b n) :
    ∃ d < b, c = Nat.digitChar d := by
  induction n using Nat.strong_induction_on with
  | h n ih =>
    rw [Nat.toDigits_eq_if hb] at hc
    split_ifs at hc with hlt
    · exact ⟨n, hlt, List.mem_singleton.1 hc⟩
    · rcases List.mem_append.1 hc with hc | hc
      · exact ih (n / b) (Nat.div_lt_self (by omega) hb) hc
      · exact ⟨n % b, Nat.mod_lt n (by omega), List.mem_singleton.1 hc⟩

/-- A number does not start with a zero. -/
lemma head_toDigits (hb : 1 < b) (hn : n ≠ 0) :
    ∃ d, 0 < d ∧ d < b ∧ (Nat.toDigits b n).head? = some (Nat.digitChar d) := by
  induction n using Nat.strong_induction_on with
  | h n ih =>
    rw [Nat.toDigits_eq_if hb]
    split_ifs with hlt
    · exact ⟨n, Nat.pos_of_ne_zero hn, hlt, rfl⟩
    · have hquot : n / b ≠ 0 := (Nat.div_pos (not_lt.1 hlt) (by omega)).ne'
      rcases ih (n / b) (Nat.div_lt_self (by omega) hb) hquot with ⟨d, hpos, hd, hhead⟩
      exact ⟨d, hpos, hd, by rw [List.head?_append, hhead, Option.some_or]⟩

/-- The digits of a number are read as the number. -/
lemma ofDigitList_toDigits (hb : 1 < b) (hdigit : ∀ d < b, value (digit (Nat.digitChar d)) = d)
    (n : ℕ) :
    ofDigitList b value ((Nat.toDigits b n).map digit) = n := by
  induction n using Nat.strong_induction_on with
  | h n ih =>
    rw [Nat.toDigits_eq_if hb]
    split_ifs with hlt
    · rw [List.map_singleton]
      show b * 0 + value (digit (Nat.digitChar n)) = n
      rw [hdigit n hlt, Nat.mul_zero, Nat.zero_add]
    · rw [List.map_append, List.map_singleton, ofDigitList_append_singleton,
        ih (n / b) (Nat.div_lt_self (by omega) hb), hdigit _ (Nat.mod_lt n (by omega)),
        Nat.div_add_mod]

end Cppcms
