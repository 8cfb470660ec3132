import Cppcms.Base.Strings
import Cppcms.Library.Multimap

/-!
# Form data

`request::parse_form_urlencoded` of `http_request.cpp`, and `urldecode` of `util.cpp`.
-/

namespace Cppcms

namespace Http

/-- `form_type`. -/
abbrev Form := Multimap Bytes Bytes

namespace Form

/-- `xdigit` of `http_protocol.h`. -/
def xdigit (c : UInt8) : Bool :=
  (0x30 ≤ c && c ≤ 0x39) || (0x61 ≤ c && c ≤ 0x66) || (0x41 ≤ c && c ≤ 0x46)

/-- The value of a digit that `sscanf` reads with `%x`. -/
def digitValue (c : UInt8) : UInt8 :=
  if c ≤ 0x39 then c - 0x30 else if c ≤ 0x46 then c - 0x41 + 10 else c - 0x61 + 10

/-- `urldecode`.  A percent sign that is not followed by two digits is left out. -/
def urldecode : Bytes → Bytes
  | [] => []
  | c :: a :: b :: s =>
    if c = Ch.plus then Ch.space :: urldecode (a :: b :: s)
    else if c = Ch.percent then
      if xdigit a ∧ xdigit b then (digitValue a * 16 + digitValue b) ::
        urldecode s else urldecode (a :: b :: s)
    else c :: urldecode (a :: b :: s)
  | c :: s =>
    if c = Ch.plus then Ch.space :: urldecode s
    else if c = Ch.percent then urldecode s
    else c :: urldecode s

/-- The loop of `parse_form_urlencoded`: whether every pair was well formed, and the pairs up to the
first one that was not. -/
def parseRounds : ℕ → Bytes → Form → Bool × Form
  | 0, _, out => (true, out)
  | fuel + 1, p, out =>
    if p = [] then (true, out)
    else
      let pair := p.takeWhile (· ≠ Ch.amp)
      let name := pair.takeWhile (· ≠ Ch.eq)
      if name = pair ∨ name = [] then (false, out)
      else
        parseRounds fuel (p.drop (pair.length + 1))
          (out.insert (urldecode name) (urldecode (pair.drop (name.length + 1))))

/-- `parse_form_urlencoded`.  Every round reads a character at least. -/
def parseFormUrlencoded (s : Bytes) (out : Form) : Bool × Form := parseRounds s.length s out

end Form

end Http

end Cppcms
