import Mathlib.Tactic
import Mathlib.Data.UInt

/-!
# Linear congruential generators

A generator goes from `x` to `a * x + c` modulo a power of two.  If `a` is one modulo four and `c`
is odd, it comes to every number from every other one: `2 ^ k` steps add `2 ^ k`, up to a multiple
of twice as much.
-/

namespace Cppcms

namespace Congruential

/-- One step, before the reduction. -/
def next (a c x : ℤ) : ℤ := a * x + c

section Period

variable {a c : ℤ}

/-- The steps of a power of two are one step of another generator of the same kind. -/
lemma iterate_two_pow (ha : a % 4 = 1) (hc : c % 2 = 1) (k : ℕ) :
    ∃ s t : ℤ, (next a c)^[2 ^ k] = next (1 + 2 ^ (k + 2) * s) (2 ^ k * (2 * t + 1)) := by
  induction k with
  | zero =>
    have hmul : a = 1 + 2 ^ (0 + 2) * (a / 4) := by omega
    have hadd : c = 2 ^ 0 * (2 * (c / 2) + 1) := by omega
    refine ⟨a / 4, c / 2, ?_⟩
    rw [← hmul, ← hadd]
    exact Function.iterate_one _
  | succ k ih =>
    rcases ih with ⟨s, t, h⟩
    refine ⟨s + 2 ^ (k + 1) * s ^ 2, t + 2 ^ k * s * (2 * t + 1), funext fun x => ?_⟩
    have htwice : 2 ^ (k + 1) = 2 ^ k + 2 ^ k := by ring
    rw [htwice, Function.iterate_add_apply, h]
    unfold next
    ring

/-- The steps of a power of two change the last bits by it. -/
lemma iterate_two_pow_modEq (ha : a % 4 = 1) (hc : c % 2 = 1) (k : ℕ) (x : ℤ) :
    (next a c)^[2 ^ k] x ≡ x + 2 ^ k [ZMOD 2 ^ (k + 1)] := by
  rcases iterate_two_pow ha hc k with ⟨s, t, h⟩
  rw [h]
  refine (Int.modEq_iff_dvd.2 ⟨2 * s * x + t, ?_⟩).symm
  unfold next
  ring

/-- The generator comes to every number. -/
theorem exists_iterate_modEq (ha : a % 4 = 1) (hc : c % 2 = 1) (k : ℕ) (x y : ℤ) :
    ∃ n, (next a c)^[n] x ≡ y [ZMOD 2 ^ k] := by
  induction k with
  | zero => exact ⟨0, Int.modEq_one⟩
  | succ k ih =>
    rcases ih with ⟨n, hn⟩
    rcases Int.modEq_iff_dvd.1 hn with ⟨d, hd⟩
    rcases Int.even_or_odd' d with ⟨e, he | he⟩
    · refine ⟨n, Int.modEq_iff_dvd.2 ⟨e, ?_⟩⟩
      rw [hd, he]
      ring
    · -- the numbers differ in one bit, which more steps change
      refine ⟨2 ^ k + n, ?_⟩
      rw [Function.iterate_add_apply]
      refine (iterate_two_pow_modEq ha hc k _).trans (Int.modEq_iff_dvd.2 ⟨e, ?_⟩)
      rw [← sub_sub, hd, he]
      ring

end Period

/-- A generator of words of 32 bits. -/
theorem exists_iterate_eq {a c : UInt32} (ha : a.toNat % 4 = 1) (hc : c.toNat % 2 = 1)
    (x y : UInt32) :
    ∃ n, (fun z : UInt32 => z * a + c)^[n] x = y := by
  have hcast : ∀ (n : ℕ) (z : UInt32),
      (((fun z : UInt32 => z * a + c)^[n] z).toNat : ℤ) ≡ (next a.toNat c.toNat)^[n] z.toNat
        [ZMOD 2 ^ 32] := by
    intro n
    induction n with
    | zero => exact fun z => Int.ModEq.refl _
    | succ n ih =>
      intro z
      rw [Function.iterate_succ_apply', Function.iterate_succ_apply', UInt32.toNat_add,
        UInt32.toNat_mul]
      unfold next
      have hstep :
        ((((fun z : UInt32 => z * a + c)^[n] z).toNat * a.toNat % 2 ^ 32 + c.toNat) % 2 ^ 32 : ℕ) ≡
          ((fun z : UInt32 => z * a + c)^[n] z).toNat * a.toNat + c.toNat [MOD 2 ^ 32] :=
        (Nat.mod_modEq _ _).trans ((Nat.mod_modEq _ _).add_right _)
      have hint := (Int.natCast_modEq_iff.2 hstep)
      push_cast at hint ⊢
      refine hint.trans ?_
      rw [mul_comm]
      exact ((ih z).mul_left _).add_right _
  rcases exists_iterate_modEq (a := a.toNat) (c := c.toNat) (by omega)
    (by omega) 32 x.toNat y.toNat with ⟨n, hn⟩
  refine ⟨n, ?_⟩
  have heq := (hcast n x).trans hn
  have hnat :=
    Int.natCast_modEq_iff.1 (show _ ≡ _ [ZMOD ((2 ^ 32 : ℕ) : ℤ)] from by exact_mod_cast heq)
  apply UInt32.toNat_inj.1
  rw [Nat.ModEq, Nat.mod_eq_of_lt (UInt32.toNat_lt _), Nat.mod_eq_of_lt (UInt32.toNat_lt _)] at hnat
  exact hnat

end Congruential

end Cppcms
