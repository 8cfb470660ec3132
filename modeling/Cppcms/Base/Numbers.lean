import Cppcms.Base.Bytes
import Cppcms.Library.Digits

/-!
# Numbers as text
-/

namespace Cppcms

/-- The octets of a number in decimal notation. -/
def showNat (n : ℕ) : Bytes := (Nat.toDigits 10 n).map Char.toUInt8

/-- An `int` as it is written to a stream. -/
def showInt (n : ℤ) : Bytes := if n < 0 then Ch.minus :: showNat n.natAbs else showNat n.natAbs

/-- The characters that are skipped in front of a number. -/
def isSpace (c : UInt8) : Bool := c = Ch.space || (Ch.tab ≤ c && c ≤ Ch.return')

/-- The number that the digits at the begin of a text denote. -/
def leadingNumber (s : Bytes) : ℕ :=
  (s.takeWhile fun c => 0x30 ≤ c && c ≤ 0x39).foldl (fun n c => 10 * n + (c.toNat - 0x30)) 0

/-- `atoll`: the number at the begin of a text, in 64 bits. -/
def atoll (s : Bytes) : ℤ :=
  match s.dropWhile isSpace with
  | [] => 0
  | c :: s =>
    if c = Ch.minus then max (-2 ^ 63) (-(leadingNumber s : ℤ))
    else if c = Ch.plus then min (2 ^ 63 - 1) (leadingNumber s : ℤ)
    else min (2 ^ 63 - 1) (leadingNumber (c :: s) : ℤ)

/-! ## Numbers that are read as they were written -/

variable {c : UInt8} {s : Bytes}

lemma isDigit_of_mem_showNat {n : ℕ} (hc : c ∈ showNat n) : (0x30 ≤ c && c ≤ 0x39) = true := by
  rcases List.mem_map.1 hc with ⟨a, ha, rfl⟩
  rcases exists_digit_of_mem_toDigits (by decide) ha with ⟨d, hd, rfl⟩
  have hdigit : ∀ d < 10, (0x30 ≤ (Nat.digitChar d).toUInt8 && (Nat.digitChar d).toUInt8 ≤ 0x39) =
    true := by decide
  exact hdigit d hd

lemma showNat_ne_nil (n : ℕ) : showNat n ≠ [] := by
  unfold showNat
  rw [Ne, List.map_eq_nil_iff]
  exact Nat.toDigits_ne_nil

/-- A number is read up to the first character that is no digit. -/
lemma leadingNumber_showNat_append (n : ℕ) (hs : ∀ c ∈ s.head?, (0x30 ≤ c && c ≤ 0x39) = false) :
    leadingNumber (showNat n ++ s) = n := by
  have htake : (showNat n ++ s).takeWhile (fun c => 0x30 ≤ c && c ≤ 0x39) = showNat n := by
    rw [List.takeWhile_append_of_pos fun c hc => isDigit_of_mem_showNat hc]
    rcases s with _ | ⟨c, s⟩
    · rw [List.takeWhile_nil, List.append_nil]
    · rw [List.takeWhile_cons_of_neg, List.append_nil]
      rw [hs c rfl]
      exact Bool.false_ne_true
  unfold leadingNumber
  rw [htake]
  show ofDigitList 10 (fun c : UInt8 => c.toNat - 0x30) ((Nat.toDigits 10 n).map Char.toUInt8) = n
  exact ofDigitList_toDigits (by decide) (by decide) n

lemma leadingNumber_showNat (n : ℕ) : leadingNumber (showNat n) = n := by
  have h := leadingNumber_showNat_append n (s := []) fun c hc => by cases hc
  rwa [List.append_nil] at h

/-- A text that starts with a digit has no sign and no space in front. -/
lemma atoll_cons (hc : (0x30 ≤ c && c ≤ 0x39) = true) (s : Bytes) :
    atoll (c :: s) = min (2 ^ 63 - 1) (leadingNumber (c :: s) : ℤ) := by
  have hspace : isSpace c = false := by
    simp only [isSpace, Ch.space, Ch.tab, Ch.return', Bool.and_eq_true, decide_eq_true_eq,
      Bool.or_eq_false_iff, decide_eq_false_iff_not, Bool.and_eq_false_iff,
      UInt8.le_iff_toNat_le, ← UInt8.toNat_inj, UInt8.reduceToNat] at hc ⊢
    omega
  unfold atoll
  rw [List.dropWhile_cons_of_neg (by rw [hspace]; exact Bool.false_ne_true)]
  dsimp only
  rw [if_neg, if_neg]
  all_goals
    rintro rfl
    revert hc
    decide

lemma atoll_showNat_append (n : ℕ) (hs : ∀ c ∈ s.head?, (0x30 ≤ c && c ≤ 0x39) = false) :
    atoll (showNat n ++ s) = min (2 ^ 63 - 1) (n : ℤ) := by
  have hnumber := leadingNumber_showNat_append n hs
  rcases hn : showNat n with _ | ⟨c, t⟩
  · exact absurd hn (showNat_ne_nil n)
  · rw [hn, List.cons_append] at hnumber
    rw [List.cons_append, atoll_cons (isDigit_of_mem_showNat (hn ▸ List.mem_cons_self)), hnumber]

end Cppcms
