import Cppcms.Xss.Rules

/-!
# Entries and their parsing

The filter cuts a text into entries (`Split.lean`) and then parses each entry on its own:
`parse_html_entity`, `parse_html_tag` with `parse_properties`, and `validate_property_value` of
`src/xss.cpp`.

In the source the parsers walk over an entry with a pointer `begin` and compare it with a pointer
`end`, which stands one or two characters before the end of the entry (before `>` or `;`, or before
`/>`).  Here `begin` is the rest of the entry from that position on, including the characters after
`end`, so that reading the character at `end` is reading a character of the entry, as in the source;
`begin < end` reads `k < begin.length`, where `k` characters stand after `end`.
-/

namespace Cppcms

namespace Xss

open Consume

/-! ## Character classes -/

def asciiIsalpha (c : UInt8) : Bool :=
  (0x61 ≤ c && c ≤ 0x7A) || (0x41 ≤ c && c ≤ 0x5A) || c == Ch.underscore

def asciiIsdigit (c : UInt8) : Bool := 0x30 ≤ c && c ≤ 0x39

def asciiIsalnum (c : UInt8) : Bool :=
  asciiIsdigit c || (0x61 ≤ c && c ≤ 0x7A) || (0x41 ≤ c && c ≤ 0x5A)

def asciiIsxdigit (c : UInt8) : Bool :=
  asciiIsdigit c || (0x61 ≤ c && c ≤ 0x66) || (0x41 ≤ c && c ≤ 0x46)

def asciiIsspace (c : UInt8) : Bool :=
  c == Ch.space || c == Ch.return' || c == Ch.newline || c == Ch.tab

/-- `ascii_streq`: equality of names, up to case in HTML mode. -/
def asciiStreq (l r : Bytes) (xhtml : Bool) : Bool :=
  if l.length ≠ r.length then false
  else if xhtml then (l.zip r).all fun p => p.1 == p.2
  else (l.zip r).all fun p => asciiTolower p.1 == asciiTolower p.2

/-! ## Entries -/

/-- `html_data_type`. -/
inductive HtmlDataType where
  | invalidData
  | plainText
  | htmlEntity
  | htmlTag
  | openTag
  | closeTag
  | openAndCloseTag
  | htmlComment
  | htmlNumericEntity
  | openAndCloseTagWithoutSlash
  deriving DecidableEq, Repr

/-- An attribute; the value is `none` while `value_begin` is null. -/
structure PropertyData where
  property : Bytes
  value : Option Bytes
  deriving DecidableEq, Repr

/-- `tag_data`; the pair is `none` for `-1`. -/
structure TagData where
  name : Bytes := []
  pair : Option ℕ := none
  properties : List PropertyData := []
  deriving DecidableEq, Repr

/-- An entry: a range of the text, its type and the data of its tag. -/
structure Entry where
  text : Bytes
  type : HtmlDataType
  tag : TagData := {}
  deriving DecidableEq, Repr

namespace Entry

def setType (e : Entry) (t : HtmlDataType) : Entry := { e with type := t }

def setPair (e : Entry) (i : ℕ) : Entry := { e with tag := { e.tag with pair := some i } }

@[simp] lemma setType_text (e : Entry) (t : HtmlDataType) : (e.setType t).text = e.text := rfl
@[simp] lemma setType_type (e : Entry) (t : HtmlDataType) : (e.setType t).type = t := rfl
@[simp] lemma setType_tag (e : Entry) (t : HtmlDataType) : (e.setType t).tag = e.tag := rfl
@[simp] lemma setPair_text (e : Entry) (i : ℕ) : (e.setPair i).text = e.text := rfl
@[simp] lemma setPair_type (e : Entry) (i : ℕ) : (e.setPair i).type = e.type := rfl
@[simp] lemma setPair_name (e : Entry) (i : ℕ) : (e.setPair i).tag.name = e.tag.name := rfl
@[simp] lemma setPair_properties (e : Entry) (i : ℕ) :
    (e.setPair i).tag.properties = e.tag.properties := rfl
@[simp] lemma setPair_pair (e : Entry) (i : ℕ) : (e.setPair i).tag.pair = some i := rfl

end Entry

/-! ## Attribute values -/

/-- `ends_with`: the rest after `value`, if the range is not empty and starts with it. -/
def endsWith (range value : Bytes) : Option Bytes :=
  if range = [] ∨ range.length < value.length then none
  else if range.take value.length = value then some (range.drop value.length)
  else none

/-- What may follow an ampersand in the value of an attribute. -/
def valueEscapes : List Bytes :=
  [bytes "amp;", bytes "lt;", bytes "gt;", bytes "quot;", bytes "apos;", bytes "#x27;",
    bytes "#X27;", bytes "#39;"]

/-- One round of the loop in `validate_property_value`. -/
def valueStep : Bytes → Option (Unit × Bytes)
  | [] => none
  | c :: s =>
    if c = Ch.lt ∨ c = Ch.gt then none
    else if c = Ch.amp then (valueEscapes.findSome? (endsWith s)).map fun r => ((), r)
    else some ((), s)

/-- `validate_property_value`. -/
def validatePropertyValue (value : Bytes) : Bool := (consume valueStep value).isSome

/-! ## Attributes -/

/-- The loop of `parse_properties`, with a budget of rounds.  `k` characters stand after `end`; the
result is `none` where the source sets the type of the entry to `invalid_data`. -/
def parsePropertiesLoop (k : ℕ) :
    ℕ → Bool → Bytes → List PropertyData → Option (List PropertyData)
  | 0, _, _, _ => none
  | _ + 1, _, [], props => some props
  | n + 1, spaceFound, c :: tl, props =>
    if (c :: tl).length ≤ k then some props
    else if asciiIsspace c then parsePropertiesLoop k n true tl props
    else if !spaceFound then none
    else if !asciiIsalpha c then none
    else
      let name := (c :: tl).takeWhile asciiIsalnum
      match (c :: tl).dropWhile asciiIsalnum with
      | [] => none
      | d :: begin =>
        if asciiIsspace d then parsePropertiesLoop k n spaceFound begin (props ++ [⟨name, none⟩])
        else if d ≠ Ch.eq then none
        else
          match begin with
          | [] => none
          | quote :: begin =>
            if quote ≠ Ch.apostrophe ∧ quote ≠ Ch.quote then none
            else
              let value := (begin.take (begin.length - k)).takeWhile (· ≠ quote)
              let vbegin := begin.drop value.length
              if vbegin.length ≤ k then none
              else if !validatePropertyValue value then none
              else parsePropertiesLoop k n false (vbegin.drop 1) (props ++ [⟨name, some value⟩])

/-- `parse_properties`. -/
def parseProperties (begin : Bytes) (k : ℕ) : Option (List PropertyData) :=
  parsePropertiesLoop k (begin.length + 1) true begin []

/-! ## Entities -/

/-- The value of a digit, in base 10 or 16. -/
def digitValue (c : UInt8) : ℕ :=
  if asciiIsdigit c then c.toNat - 0x30
  else if 0x61 ≤ c ∧ c ≤ 0x66 then c.toNat - 0x61 + 10
  else c.toNat - 0x41 + 10

/-- The value of a string of digits. -/
def digitsValue (base : ℕ) (digits : Bytes) : ℕ :=
  digits.foldl (fun v c => v * base + digitValue c) 0

/-- `strtol` on a string of digits of the given base: values that do not fit are clamped to
`LONG_MAX`. -/
def strtol (base : ℕ) (digits : Bytes) : ℕ := min (digitsValue base digits) (2 ^ 63 - 1)

/-- The code points refused in a numeric entity. -/
def illegalCodePoint (codePoint : ℕ) : Bool :=
  0x10FFFF < codePoint || (0xD800 ≤ codePoint && codePoint ≤ 0xDBFF) || codePoint == 0xFFFF ||
    codePoint == 0xFFFE || (0x7F ≤ codePoint && codePoint ≤ 0x9F) ||
    (codePoint < 0x20 && !((0x9 ≤ codePoint && codePoint ≤ 0xA) || codePoint == 0xD)) ||
    codePoint ≤ 0x08

/-- The digits of a numeric entity, all of class `isDigit`, denote a code point that is accepted. -/
def numericLegal (isDigit : UInt8 → Bool) (base : ℕ) (digits : Bytes) : Bool :=
  digits.all isDigit && !illegalCodePoint (strtol base digits)

/-- `parse_html_entity`, on the characters between `&` and `;`: the resulting type of the entry. -/
def parseHtmlEntityType : Bytes → HtmlDataType
  | [] => .invalidData
  | c :: body =>
    if c = Ch.hash then
      match body with
      | [] => .invalidData
      | d :: digits =>
        if d = 0x78 ∨ d = 0x58 then
          if digits = [] then .invalidData
          else if numericLegal asciiIsxdigit 16 digits then .htmlNumericEntity
          else .invalidData
        else if numericLegal asciiIsdigit 10 (d :: digits) then .htmlNumericEntity
        else .invalidData
    else if (c :: body).all asciiIsalnum then .htmlEntity
    else .invalidData

/-- `parse_html_entity`. -/
def parseHtmlEntity (part : Entry) : Entry :=
  let body := part.text.tail.dropLast
  match parseHtmlEntityType body with
  | .htmlEntity => { part with type := .htmlEntity, tag := { part.tag with name := body } }
  | t => { part with type := t }

/-! ## Tags -/

/-- The part of `parse_html_tag` for a closing tag, after `</`: the name. -/
def parseCloseTag : Bytes → Option Bytes
  | [] => none
  | c :: begin =>
    if !asciiIsalpha c then none
    else if ((begin.dropWhile asciiIsalnum).dropWhile asciiIsspace).length ≠ 1 then none
    else some (c :: begin.takeWhile asciiIsalnum)

/-- The part of `parse_html_tag` for an opening tag, after `<`: the type, the name and the
attributes. -/
def parseOpenTag : Bytes → Option (HtmlDataType × Bytes × List PropertyData)
  | [] => none
  | c :: begin =>
    if !asciiIsalpha c then none
    else
      let name := c :: begin.takeWhile asciiIsalnum
      let slash := (c :: begin).dropLast.getLast? = some Ch.slash
      let type := if slash then HtmlDataType.openAndCloseTag else HtmlDataType.openTag
      (parseProperties (begin.dropWhile asciiIsalnum) (if slash then 2 else 1)).map fun props =>
        (type, name, props)

/-- `parse_html_tag`. -/
def parseHtmlTag (part : Entry) : Entry :=
  match part.text.tail with
  | [] => part.setType .invalidData
  | [_] => part.setType .invalidData
  | c :: d :: begin =>
    if c = Ch.slash then
      match parseCloseTag (d :: begin) with
      | none => part.setType .invalidData
      | some name => { part with type := .closeTag, tag := { part.tag with name := name } }
    else
      match parseOpenTag (c :: d :: begin) with
      | none => part.setType .invalidData
      | some (type, name, props) =>
        { part with type := type, tag := { part.tag with name := name, properties := props } }

/-- `parse_part`. -/
def parsePart (part : Entry) : Entry :=
  match part.type with
  | .htmlEntity => parseHtmlEntity part
  | .htmlTag => parseHtmlTag part
  | _ => part

end Xss

end Cppcms
