import Cppcms.Base.Numbers
import Cppcms.Base.Strings
import Cppcms.Http.Protocol
import Cppcms.Library.SortedMap

/-!
# Cookies

`cookie::write` of `http_cookie.cpp`, and `request::parse_cookies` of `http_request.cpp`, which
reads the cookies that a client sends back.
-/

namespace Cppcms

namespace Http

open Protocol

structure Cookie where
  name : Bytes
  value : Bytes
  path : Bytes
  domain : Bytes
  comment : Bytes
  maxAge : Option ℕ
  expires : Option ℤ
  secure : Bool
  httponly : Bool
  samesiteNone : Bool
  samesiteLax : Bool
  samesiteStrict : Bool
  deriving DecidableEq

namespace Cookie

/-- The constructor from a name and a value. -/
def ofValue (name value : Bytes) : Cookie :=
  ⟨name, value, [], [], [], none, none, false, false, false, false, false⟩

/-- The default constructor. -/
def empty : Cookie := ofValue [] []

/-! ## Writing -/

/-- `quote`: only the control characters get a backslash. -/
def quote (input : Bytes) : Bytes :=
  Ch.quote :: (input.flatMap fun c => if c < 0x20 then [0x5C, c] else [c]) ++ [Ch.quote]

/-- The name and the value as `write` prints them. -/
def nameValue (c : Cookie) : Bytes :=
  c.name ++ [Ch.eq] ++ if (tocken c.value).2 = [] then c.value else quote c.value

/-- An attribute that is printed only if its text is not empty. -/
def textAttribute (title text shown : Bytes) : Bytes := if text = [] then [] else title ++ shown

/-- `write`; it throws if there is no name.  `date` is how `std::time_put` prints a time. -/
def write (date : ℤ → Bytes) (c : Cookie) : Option Bytes :=
  if c.name = [] then none
  else some (bytes "Set-Cookie:" ++ c.nameValue
    ++ textAttribute (bytes "; Comment=") c.comment (quote c.comment)
    ++ textAttribute (bytes "; Domain=") c.domain c.domain
    ++ (match c.maxAge with | none => [] | some age => bytes "; Max-Age=" ++ showNat age)
    ++ (match c.expires with | none => [] | some time => bytes "; Expires=" ++ date time)
    ++ textAttribute (bytes "; Path=") c.path c.path
    ++ (if c.secure then bytes "; Secure" else [])
    ++ (if c.httponly then bytes "; HttpOnly" else [])
    ++ (if c.samesiteNone then bytes "; SameSite=None" else [])
    ++ (if c.samesiteLax then bytes "; SameSite=Lax" else [])
    ++ (if c.samesiteStrict then bytes "; SameSite=Strict" else [])
    ++ bytes "; Version=1")

end Cookie

/-! ## Reading -/

/-- A text of the environment is handed out as a C string. -/
def cString (s : Bytes) : Bytes := s.takeWhile (· ≠ 0)

/-- Where a cookie ends. -/
def isPeriod (c : UInt8) : Bool := c = Ch.semicolon || c = 0x2C

def skipAfterPeriod : Bytes → Bytes
  | [] => []
  | c :: p => if isPeriod c then p else skipAfterPeriod p

/-- The end of `read_key_value`, behind a value. -/
def skipPeriod (p : Bytes) : Bytes :=
  match skipWs p with
  | [] => []
  | c :: p => if isPeriod c then skipWs p else c :: p

/-- The part of `read_key_value` that reads the value. -/
def readValue (key p : Bytes) : Option (Bytes × Bytes) × Bytes :=
  match p with
  | [] => (some (key, []), [])
  | c :: p =>
    if c = Ch.quote then
      match unquote (c :: p) with
      | none => (none, [])
      | some (value, p) => (some (key, value), skipPeriod p)
    else if (tocken (c :: p)).1 = [] ∧ !isPeriod c then (none, skipAfterPeriod (c :: p))
    else (some (key, (tocken (c :: p)).1), skipPeriod (tocken (c :: p)).2)

/-- The part of `read_key_value` behind the key.  Only a period is not taken for an equals sign. -/
def readAssignment (key p : Bytes) : Option (Bytes × Bytes) × Bytes :=
  match skipWs p with
  | [] => (some (key, []), [])
  | c :: p => if isPeriod c then (some (key, []), p) else readValue key (skipWs p)

/-- `read_key_value`: a key with its value if it succeeds, and what is left of the text. -/
def readKeyValue (p : Bytes) : Option (Bytes × Bytes) × Bytes :=
  if (tocken (skipWs p)).1 = [] ∧ skipWs p ≠ [] then (none, skipAfterPeriod (skipWs p))
  else readAssignment (tocken (skipWs p)).1 (tocken (skipWs p)).2

/-- The variables of `parse_cookies`: the cookie that is being read, and those that are complete. -/
structure CookieReader where
  cookie : Cookie
  cookies : SortedMap Bytes Cookie

namespace CookieReader

/-- The cookie that is being read is complete. -/
def complete (r : CookieReader) : SortedMap Bytes Cookie :=
  if r.cookie.name = [] then r.cookies else r.cookies.insertNew r.cookie.name r.cookie

/-- What a key with its value does. -/
def assign (r : CookieReader) (key value : Bytes) : CookieReader :=
  if key.head? = some 0x24 then
    if r.cookie.name ≠ [] then r
    else if Protocol.compare key (bytes "$Path") =
      0 then ⟨{ r.cookie with name := value }, r.cookies⟩
    else if Protocol.compare key (bytes "$Domain") =
      0 then ⟨{ r.cookie with domain := value }, r.cookies⟩
    else r
  else ⟨.ofValue key value, r.complete⟩

/-- A round of the loop of `parse_cookies`. -/
def step (r : CookieReader) : Option (Bytes × Bytes) → CookieReader
  | none => ⟨.empty, r.cookies⟩
  | some (key, value) => r.assign key value

/-- The loop of `parse_cookies`. -/
def loop : ℕ → Bytes → CookieReader → CookieReader
  | 0, _, r => r
  | _ + 1, [], r => r
  | fuel + 1, c :: p, r => loop fuel (readKeyValue (c :: p)).2 (r.step (readKeyValue (c :: p)).1)

end CookieReader

/-- `parse_cookies`, on the text of `HTTP_COOKIE`.  Every round takes a character at least. -/
def parseCookies (text : Bytes) : SortedMap Bytes Cookie :=
  (CookieReader.loop (cString text).length (skipWs (cString text)) ⟨.empty, ∅⟩).complete

end Http

end Cppcms
