import Cppcms.Library.Digits
import Cppcms.Xss.Entry

/-!
# Numeric entities

`parse_html_entity` of `src/xss.cpp` on the entities `&#digits;` and `&#xdigits;`.  It is meant to
accept the numbers of the characters that may stand in a document.  Its test for surrogates leaves
the low ones out.
-/

namespace Cppcms

namespace Xss

/-- The base of the digits of an entity. -/
def entityBase (hex : Bool) : ℕ := if hex then 16 else 10

/-- A digit of an entity. -/
def isEntityDigit (hex : Bool) (c : UInt8) : Bool := if hex then asciiIsxdigit c else asciiIsdigit c

/-- The text of a numeric entity. -/
def numericEntityText (hex : Bool) (digits : Bytes) : Bytes :=
  bytes "&#" ++ ((if hex then bytes "x" else []) ++ (digits ++ bytes ";"))

/-- The number that the digits denote. -/
def entityNumber (hex : Bool) (digits : Bytes) : ℕ := ofDigitList (entityBase hex) digitValue digits

/-- A control character of Unicode. -/
def IsControl (codePoint : ℕ) : Prop := codePoint < 0x20 ∨ 0x7F ≤ codePoint ∧ codePoint ≤ 0x9F

/-- The characters that an entity may denote: the scalar values of Unicode which are neither
`U+FFFE` nor `U+FFFF` nor control characters other than tab, line feed and carriage return. -/
structure LegalCharacter (codePoint : ℕ) : Prop where
  bound : codePoint ≤ 0x10FFFF
  not_surrogate : ¬(0xD800 ≤ codePoint ∧ codePoint ≤ 0xDFFF)
  not_end : codePoint ≠ 0xFFFE ∧ codePoint ≠ 0xFFFF
  not_control : IsControl codePoint → codePoint = 0x9 ∨ codePoint = 0xA ∨ codePoint = 0xD

/-- `parse_html_entity` takes the entity for a numeric one. -/
def AcceptsNumeric (hex : Bool) (digits : Bytes) : Prop :=
  (parseHtmlEntity ⟨numericEntityText hex digits, .htmlEntity, {}⟩).type = .htmlNumericEntity

/-! ## What is accepted -/

lemma digitsValue_eq (base : ℕ) (digits : Bytes) :
    digitsValue base digits = ofDigitList base digitValue digits := by
  unfold digitsValue ofDigitList
  simp only [mul_comm]

/-- A number that does not fit is refused as the clamped one is. -/
lemma illegalCodePoint_strtol (base : ℕ) (digits : Bytes) :
    illegalCodePoint (strtol base digits) =
      illegalCodePoint (ofDigitList base digitValue digits) := by
  rw [strtol, digitsValue_eq]
  rcases le_total (ofDigitList base digitValue digits) (2 ^ 63 - 1) with hle | hle
  · rw [min_eq_left hle]
  · have hbig : 0x10FFFF < ofDigitList base digitValue digits := lt_of_lt_of_le (by norm_num) hle
    have hclamped : 0x10FFFF < 2 ^ 63 - 1 := by norm_num
    rw [min_eq_right hle]
    simp only [illegalCodePoint, hbig, hclamped, decide_true, Bool.true_or]

/-- The refused numbers are the illegal characters but the low surrogates. -/
lemma illegalCodePoint_eq_false_iff (codePoint : ℕ) :
    illegalCodePoint codePoint = false ↔
      LegalCharacter codePoint ∨ 0xDC00 ≤ codePoint ∧ codePoint ≤ 0xDFFF := by
  have hlegal : LegalCharacter codePoint ↔
    codePoint ≤ 0x10FFFF ∧ ¬(0xD800 ≤ codePoint ∧ codePoint ≤ 0xDFFF) ∧
      (codePoint ≠ 0xFFFE ∧ codePoint ≠ 0xFFFF) ∧
      (IsControl codePoint → codePoint = 0x9 ∨ codePoint = 0xA ∨ codePoint = 0xD) :=
    ⟨fun h => ⟨h.1, h.2, h.3, h.4⟩, fun h => ⟨h.1, h.2.1, h.2.2.1, h.2.2.2⟩⟩
  rw [hlegal]
  simp only [illegalCodePoint, IsControl, Bool.or_eq_false_iff, Bool.and_eq_false_iff,
    Bool.not_eq_false', Bool.or_eq_true, Bool.and_eq_true, decide_eq_true_eq,
    decide_eq_false_iff_not, beq_iff_eq, beq_eq_false_iff_ne]
  omega

/-- The characters between `&` and `;`. -/
lemma acceptsNumeric_iff_type (hex : Bool) (digits : Bytes) :
    AcceptsNumeric hex digits ↔
      parseHtmlEntityType (Ch.hash :: ((if hex then bytes "x" else []) ++ digits)) =
        .htmlNumericEntity := by
  have hbody : (numericEntityText hex digits).tail.dropLast =
      Ch.hash :: ((if hex then bytes "x" else []) ++ digits) := by
    have htext : numericEntityText hex digits =
        Ch.amp :: (Ch.hash :: ((if hex then bytes "x" else []) ++ digits) ++ [Ch.semicolon]) := by
      rw [List.cons_append, List.append_assoc]
      rfl
    rw [htext, List.tail_cons, List.dropLast_concat]
  unfold AcceptsNumeric parseHtmlEntity
  dsimp only
  rw [hbody]
  split
  · rename_i htype
    rw [htype]
  · rfl

/-- A string of digits is accepted if the number is none of those that are refused. -/
lemma acceptsNumeric_iff {hex : Bool} {digits : Bytes}
    (hdigits : ∀ c ∈ digits, isEntityDigit hex c = true) :
    AcceptsNumeric hex digits ↔ illegalCodePoint (entityNumber hex digits) = false := by
  rw [acceptsNumeric_iff_type]
  rcases digits with _ | ⟨d, digits⟩
  · -- without digits there is no entity, and zero is no character
    cases hex <;> decide
  · have hall : (d :: digits).all (isEntityDigit hex) = true := List.all_eq_true.2 hdigits
    have hlegal : numericLegal (isEntityDigit hex) (entityBase hex) (d :: digits) = true ↔
        illegalCodePoint (entityNumber hex (d :: digits)) = false := by
      rw [numericLegal, hall, Bool.true_and, Bool.not_eq_true', illegalCodePoint_strtol]
      rfl
    rw [← hlegal]
    cases hex with
    | false =>
      have hmarker : ¬(d = 0x78 ∨ d = 0x58) := by
        have hdigit : asciiIsdigit d = true := hdigits d List.mem_cons_self
        rintro (rfl | rfl)
        · exact absurd hdigit (by decide)
        · exact absurd hdigit (by decide)
      show parseHtmlEntityType (Ch.hash :: d :: digits) = _ ↔
        numericLegal asciiIsdigit 10 (d :: digits) = true
      simp only [parseHtmlEntityType, if_true, if_neg hmarker]
      cases numericLegal asciiIsdigit 10 (d :: digits) <;> simp
    | true =>
      show parseHtmlEntityType (Ch.hash :: 0x78 :: d :: digits) = _ ↔
        numericLegal asciiIsxdigit 16 (d :: digits) = true
      simp only [parseHtmlEntityType, if_true, true_or, if_neg (List.cons_ne_nil d digits)]
      cases numericLegal asciiIsxdigit 16 (d :: digits) <;> simp

/-- A numeric entity of any length is accepted exactly when it denotes a legal character, unless the
number is that of a low surrogate, which is accepted and illegal. -/
theorem acceptsNumeric_legal_iff (hex : Bool) (digits : Bytes)
    (hdigits : ∀ c ∈ digits, isEntityDigit hex c = true) :
    (AcceptsNumeric hex digits ↔ LegalCharacter (entityNumber hex digits)) ↔
      ¬(0xDC00 ≤ entityNumber hex digits ∧ entityNumber hex digits ≤ 0xDFFF) := by
  rw [acceptsNumeric_iff hdigits, illegalCodePoint_eq_false_iff]
  constructor
  · intro h hlow
    have hlegal := h.1 (.inr hlow)
    exact hlegal.not_surrogate ⟨by omega, hlow.2⟩
  · exact fun hnot => or_iff_left hnot

theorem acceptsNumeric_legal_newline :
    (AcceptsNumeric true (bytes "0A") ↔ LegalCharacter 10) ↔ ¬(0xDC00 ≤ 10 ∧ 10 ≤ 0xDFFF) :=
  acceptsNumeric_legal_iff true (bytes "0A") (by set_option maxRecDepth 2048 in decide)

/-- The entity of the first low surrogate is accepted. -/
theorem acceptsNumeric_lowSurrogate :
    AcceptsNumeric true (bytes "DC00") ∧ ¬LegalCharacter (entityNumber true (bytes "DC00")) := by
  have hnumber : entityNumber true (bytes "DC00") = 0xDC00 := by decide
  constructor
  · unfold AcceptsNumeric
    decide
  · rw [hnumber]
    intro h
    exact h.not_surrogate ⟨by norm_num, by norm_num⟩

end Xss

end Cppcms
