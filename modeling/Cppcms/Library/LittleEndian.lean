import Mathlib.Tactic

/-!
# Integers in memory

An unsigned integer of some octets, the octet with the lowest value first, and a signed one in two's
complement.
-/

namespace Cppcms

/-- The octets of an unsigned integer. -/
def littleEndian : ℕ → ℕ → List UInt8
  | 0, _ => []
  | w + 1, v => UInt8.ofNat v :: littleEndian w (v / 256)

/-- The unsigned integer with the given octets. -/
def fromLittleEndian : List UInt8 → ℕ
  | [] => 0
  | b :: l => b.toNat + 256 * fromLittleEndian l

@[simp] lemma length_littleEndian (w v : ℕ) : (littleEndian w v).length = w := by
  induction w generalizing v with
  | zero => rfl
  | succ w ih => rw [littleEndian, List.length_cons, ih]

lemma fromLittleEndian_littleEndian (w v : ℕ) :
    fromLittleEndian (littleEndian w v) = v % 256 ^ w := by
  induction w generalizing v with
  | zero => rw [littleEndian, fromLittleEndian, pow_zero, Nat.mod_one]
  | succ w ih =>
    have hbyte : (UInt8.ofNat v).toNat = v % 256 := UInt8.toNat_ofNat'
    rw [littleEndian, fromLittleEndian, ih, hbyte, pow_succ', @Nat.mod_mul 256 (256 ^ w) v]

lemma fromLittleEndian_of_lt {w v : ℕ} (h : v < 256 ^ w) :
    fromLittleEndian (littleEndian w v) = v := by
  rw [fromLittleEndian_littleEndian, Nat.mod_eq_of_lt h]

lemma fromLittleEndian_lt (l : List UInt8) : fromLittleEndian l < 256 ^ l.length := by
  induction l with
  | nil => simp [fromLittleEndian]
  | cons b l ih =>
    have hb := b.toNat_lt
    rw [fromLittleEndian, List.length_cons, pow_succ]
    omega

/-- The octets of a signed integer. -/
def littleEndianInt (w : ℕ) (v : ℤ) : List UInt8 := littleEndian w (v % 256 ^ w).toNat

/-- The signed integer with the given octets. -/
def fromLittleEndianInt (l : List UInt8) : ℤ := Int.bmod (fromLittleEndian l) (256 ^ l.length)

@[simp] lemma length_littleEndianInt (w : ℕ) (v : ℤ) : (littleEndianInt w v).length = w :=
  length_littleEndian w _

/-- A signed integer that fits is found again. -/
lemma fromLittleEndianInt_littleEndianInt {w : ℕ} {v : ℤ} (hlow : -(256 ^ w / 2) ≤ v)
    (hhigh : v < 256 ^ w / 2) : fromLittleEndianInt (littleEndianInt w v) = v := by
  have hpos : (0 : ℤ) < 256 ^ w := by positivity
  have hnonneg : 0 ≤ v % 256 ^ w := Int.emod_nonneg v hpos.ne'
  have hlt : (v % 256 ^ w).toNat < 256 ^ w := by
    have hmod := Int.emod_lt_of_pos v hpos
    zify
    rwa [Int.toNat_of_nonneg hnonneg]
  unfold fromLittleEndianInt
  rw [length_littleEndianInt, littleEndianInt, fromLittleEndian_of_lt hlt,
    Int.toNat_of_nonneg hnonneg]
  have hcast : (256 : ℤ) ^ w = ((256 ^ w : ℕ) : ℤ) := by push_cast; rfl
  rw [hcast, Int.emod_bmod, Int.bmod_eq_of_le]
  · rw [← hcast]
    exact hlow
  · rw [← hcast]
    omega

end Cppcms
