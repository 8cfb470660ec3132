import Cppcms.Base.Bytes

/-!
# Code units and their octets

The functions of `utf16` in `private/utf_iterator.h` that the JSON parser uses, and `utf8::encode`.
-/

namespace Cppcms

namespace Utf16

def isFirstSurrogate (x : ℕ) : Bool := 0xD800 ≤ x ∧ x ≤ 0xDBFF

def isSecondSurrogate (x : ℕ) : Bool := 0xDC00 ≤ x ∧ x ≤ 0xDFFF

def combineSurrogate (w₁ w₂ : ℕ) : ℕ := (((w₁ &&& 0x3FF) <<< 10) ||| (w₂ &&& 0x3FF)) + 0x10000

end Utf16

namespace Utf8

/-- `utf8::encode`. -/
def encode (value : ℕ) : Bytes :=
  if value ≤ 0x7F then [.ofNat value]
  else if value ≤ 0x7FF then [.ofNat ((value >>> 6) ||| 0xC0), .ofNat ((value &&& 0x3F) ||| 0x80)]
  else if value ≤ 0xFFFF then
    [.ofNat ((value >>> 12) ||| 0xE0), .ofNat (((value >>> 6) &&& 0x3F) ||| 0x80),
      .ofNat ((value &&& 0x3F) ||| 0x80)]
  else
    [.ofNat ((value >>> 18) ||| 0xF0), .ofNat (((value >>> 12) &&& 0x3F) ||| 0x80),
      .ofNat (((value >>> 6) &&& 0x3F) ||| 0x80), .ofNat ((value &&& 0x3F) ||| 0x80)]

end Utf8

end Cppcms
