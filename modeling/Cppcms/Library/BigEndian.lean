import Cppcms.Library.LittleEndian

/-!
# Integers in network order

An unsigned integer of some octets, the octet with the highest value first.
-/

namespace Cppcms

/-- The octets of an unsigned integer. -/
def bigEndian (w v : ℕ) : List UInt8 := (littleEndian w v).reverse

/-- The unsigned integer with the given octets. -/
def fromBigEndian (l : List UInt8) : ℕ := fromLittleEndian l.reverse

@[simp] lemma length_bigEndian (w v : ℕ) : (bigEndian w v).length = w := by
  unfold bigEndian
  rw [List.length_reverse, length_littleEndian]

lemma fromBigEndian_of_lt {w v : ℕ} (h : v < 256 ^ w) : fromBigEndian (bigEndian w v) = v := by
  unfold fromBigEndian bigEndian
  rw [List.reverse_reverse, fromLittleEndian_of_lt h]

end Cppcms
