import Cppcms.Base.Bytes
import Cppcms.Library.SortedSet

/-!
# Sets of strings

Strings are compared as `std::string` compares them, by the values of their octets, and
`std::set<std::string>` is iterated in this order.
-/

namespace Cppcms

instance instLinearOrderUInt8 : LinearOrder UInt8 where
  le_refl := UInt8.le_refl
  le_trans _ _ _ := UInt8.le_trans
  lt_iff_le_not_ge a b := by
    rw [UInt8.not_le]
    exact ⟨fun h => ⟨UInt8.le_of_lt h, h⟩, fun h => h.2⟩
  le_antisymm _ _ := UInt8.le_antisymm
  le_total := UInt8.le_total
  toDecidableLE := inferInstance

/-- `std::set<std::string>`. -/
abbrev StringSet := SortedSet Bytes

end Cppcms
