import Mathlib.Tactic
import Mathlib.Data.List.TakeWhile

/-!
# Byte strings

The C++ sources of the framework work on `char` ranges.  Here a range is a list of octets, and the
characters that the sources compare with are the octets named below.
-/

namespace Cppcms

/-- The contents of a `char` range or of a `std::string`. -/
abbrev Bytes := List UInt8

/-- The octets of an ASCII string literal. -/
def bytes (s : String) : Bytes := s.toList.map Char.toUInt8

namespace Ch

@[simp] abbrev tab : UInt8 := 0x09
@[simp] abbrev newline : UInt8 := 0x0A
@[simp] abbrev return' : UInt8 := 0x0D
@[simp] abbrev space : UInt8 := 0x20
@[simp] abbrev exclamation : UInt8 := 0x21
@[simp] abbrev quote : UInt8 := 0x22
@[simp] abbrev hash : UInt8 := 0x23
@[simp] abbrev percent : UInt8 := 0x25
@[simp] abbrev amp : UInt8 := 0x26
@[simp] abbrev apostrophe : UInt8 := 0x27
@[simp] abbrev plus : UInt8 := 0x2B
@[simp] abbrev minus : UInt8 := 0x2D
@[simp] abbrev dot : UInt8 := 0x2E
@[simp] abbrev slash : UInt8 := 0x2F
@[simp] abbrev colon : UInt8 := 0x3A
@[simp] abbrev semicolon : UInt8 := 0x3B
@[simp] abbrev lt : UInt8 := 0x3C
@[simp] abbrev eq : UInt8 := 0x3D
@[simp] abbrev gt : UInt8 := 0x3E
@[simp] abbrev question : UInt8 := 0x3F
@[simp] abbrev at' : UInt8 := 0x40
@[simp] abbrev underscore : UInt8 := 0x5F
@[simp] abbrev tilde : UInt8 := 0x7E

end Ch

end Cppcms
