import Cppcms.Encoding.Utf16
import Cppcms.Encoding.Utf8
import Cppcms.Json.Parser

/-!
# The tokens of a JSON text

`tockenizer` of `json.cpp`.  A number is read by the extractor of the standard library for `double`,
of which nothing is known: `scan` tells for a text that begins with a digit or a minus the number at
its front, and how many octets behind the first one belong to it.

`Lexes` says which texts consist of which tokens, and `tokenize` finds them.
-/

namespace Cppcms

namespace Json

open Utf16

/-! ## Strings -/

def backslash : UInt8 := 0x5C

/-- The letter of the escape of a code unit. -/
def letterU : UInt8 := 0x75

def hexValue (c : UInt8) : Option ℕ :=
  if 0x30 ≤ c ∧ c ≤ 0x39 then some (c.toNat - 0x30)
  else if 0x41 ≤ c ∧ c ≤ 0x46 then some (c.toNat - 0x41 + 10)
  else if 0x61 ≤ c ∧ c ≤ 0x66 then some (c.toNat - 0x61 + 10)
  else none

/-- `read_4_digits`. -/
def read4Digits (a b c d : UInt8) : Option ℕ := do
  let a ← hexValue a
  let b ← hexValue b
  let c ← hexValue c
  let d ← hexValue d
  return a * 16 ^ 3 + b * 16 ^ 2 + c * 16 + d

/-- The escapes of one letter. -/
def unescape (e : UInt8) : Option UInt8 :=
  if e = Ch.quote ∨ e = backslash ∨ e = Ch.slash then some e
  else if e = 0x62 then some 0x08
  else if e = 0x66 then some 0x0C
  else if e = 0x6E then some Ch.newline
  else if e = 0x72 then some Ch.return'
  else if e = 0x74 then some Ch.tab
  else none

/-- What one pass through the loop of `parse_string` does: it fails, it comes to the end of the
string, or it appends octets and goes on, perhaps with a first surrogate that expects a second one.
-/
inductive StringStep where
  | fail
  | close (rest : Bytes)
  | more (first : Option ℕ) (octets rest : Bytes)

/-- The escape of a code unit. -/
def unitStep (first : Option ℕ) : Bytes → StringStep
  | a :: b :: c :: d :: text =>
    match read4Digits a b c d with
    | none => .fail
    | some x =>
      match first with
      | some w => if isSecondSurrogate x then .more none
          (Utf8.encode (combineSurrogate w x)) text else .fail
      | none => if isFirstSurrogate x then .more (some x) [] text
        else .more none (Utf8.encode x) text
  | _ => .fail

def escapeStep (first : Option ℕ) : Bytes → StringStep
  | [] => .fail
  | e :: text =>
    if first.isSome ∧ e ≠ letterU then .fail
    else if e = letterU then unitStep first text
    else
      match unescape e with
      | some c => .more none [c] text
      | none => .fail

def stringStep (first : Option ℕ) : Bytes → StringStep
  | [] => .fail
  | c :: text =>
    if first.isSome ∧ c ≠ backslash then .fail
    else if c ≤ 0x1F then .fail
    else if c = Ch.quote then .close text
    else if c = backslash then escapeStep first text
    else .more none [c] text

/-- The loop of `parse_string`.  Every pass takes an octet. -/
def stringLoop : ℕ → Option ℕ → Bytes → Bytes → Option (Bytes × Bytes)
  | 0, _, _, _ => none
  | n + 1, first, str, text =>
    match stringStep first text with
    | .fail => none
    | .close rest => some (str, rest)
    | .more first octets rest => stringLoop n first (str ++ octets) rest

/-- `parse_string` behind the quotation mark. -/
def parseString (text : Bytes) : Option (Bytes × Bytes) :=
  match stringLoop (text.length + 1) none [] text with
  | some (s, rest) => if Utf8.validate false s then some (s, rest) else none
  | none => none

/-- What stands between the quotation marks of a string. -/
inductive Literal : Bytes → Bytes → Prop
  | nil : Literal [] []
  | plain {c : UInt8} {t s : Bytes} (hcontrol : ¬ c ≤ 0x1F) (hquote : c ≠ Ch.quote)
      (hbackslash : c ≠ backslash)
    (h : Literal t s) : Literal (c :: t) (c :: s)
  | escape {e c : UInt8} {t s : Bytes} (he : unescape e = some c) (h : Literal t s) :
    Literal (backslash :: e :: t) (c :: s)
  | unit {a b c d : UInt8} {x : ℕ} {t s : Bytes} (hx : read4Digits a b c d = some x)
      (hfirst : ¬ isFirstSurrogate x)
    (h : Literal t s) : Literal (backslash :: letterU :: a :: b :: c :: d :: t) (Utf8.encode x ++ s)
  | pair {a b c d a' b' c' d' : UInt8} {w x : ℕ} {t s : Bytes} (hw : read4Digits a b c d = some w)
    (hfirst : isFirstSurrogate w) (hx : read4Digits a' b' c' d' = some x)
      (hsecond : isSecondSurrogate x)
    (h : Literal t s) :
    Literal
      (backslash :: letterU :: a :: b :: c :: d :: backslash :: letterU :: a' ::
      b' :: c' :: d' :: t)
      (Utf8.encode (combineSurrogate w x) ++ s)

/-! ## Tokens -/

def punctuation {ν : Type} (c : UInt8) : Option (Token ν) :=
  if c = 0x5B then some .openArray
  else if c = 0x5D then some .closeArray
  else if c = 0x7B then some .openObject
  else if c = 0x7D then some .closeObject
  else if c = Ch.colon then some .colon
  else if c = 0x2C then some .comma
  else none

def isSpace (c : UInt8) : Bool := c = Ch.space ∨ c = Ch.tab ∨ c = Ch.return' ∨ c = Ch.newline

/-- The words, without the first letter. -/
def word {ν : Type} (c : UInt8) : Option (Bytes × Token ν) :=
  if c = 0x74 then some (bytes "rue", .true_)
  else if c = 0x6E then some (bytes "ull", .null)
  else if c = 0x66 then some (bytes "alse", .false_)
  else none

/-- The octets that a number begins with. -/
def beginsNumber (c : UInt8) : Bool := c = Ch.minus ∨ 0x30 ≤ c ∧ c ≤ 0x39

/-- The part of the loop of `next` that skips: it is between tokens, or behind a slash, or in a
comment. -/
inductive Mode where
  | space
  | slash
  | comment
  deriving DecidableEq

/-- White space and comments are skipped.  A slash that begins no comment is left. -/
def skip : Mode → Bytes → Bytes
  | .space, [] => []
  | .slash, [] => [Ch.slash]
  | .comment, [] => []
  | .space, c :: text => if isSpace c then skip .space text
    else if c = Ch.slash then skip .slash text else c :: text
  | .slash, c :: text => if c = Ch.slash then skip .comment text else Ch.slash :: c :: text
  | .comment, c :: text => if c = Ch.newline then skip .space text else skip .comment text

section

variable {ν : Type} (scan : Bytes → Option (ν × ℕ))

/-- The token that begins with an octet, and the text behind it. -/
def token (c : UInt8) (text : Bytes) : Token ν × Bytes :=
  match punctuation c, word c with
  | some t, _ => (t, text)
  | none, some (w, t) => if w <+: text then (t, text.drop w.length) else (.err, text)
  | none, none =>
    if c = Ch.quote then
      match parseString text with
      | some (s, rest) => (.str s, rest)
      | none => (.err, text)
    else if beginsNumber c then
      match scan (c :: text) with
      | some (x, n) => (.number x, text.drop n)
      | none => (.err, text)
    else (.err, text)

/-- `next`, and the text behind the token; there is no token at the end of the text. -/
def next (text : Bytes) : Option (Token ν × Bytes) :=
  match skip .space text with
  | [] => none
  | c :: text => some (token scan c text)

/-- The tokens up to the end of the text or to the first error.  Every token takes an octet. -/
def tokens : ℕ → Bytes → List (Token ν)
  | 0, _ => []
  | n + 1, text =>
    match next scan text with
    | none => []
    | some (.err, _) => [.err]
    | some (t, rest) => t :: tokens n rest

def tokenize (text : Bytes) : List (Token ν) := tokens scan (text.length + 1) text

/-- `value::load`: whether the text is read, and the value afterwards. -/
def load (full : Bool) (text : Bytes) (v : Value ν) : Outcome (Bool × Value ν) :=
  parseStream full (tokenize scan text) v

/-- The texts that consist of some tokens, with white space and comments around them. -/
inductive Lexes : Bytes → List (Token ν) → Prop
  | nil : Lexes [] []
  | space {c : UInt8} {text : Bytes} {ts : List (Token ν)} (hc : isSpace c) (h : Lexes text ts) :
      Lexes (c :: text) ts
  | comment {body text : Bytes} {ts : List (Token ν)} (hbody : Ch.newline ∉ body)
      (h : Lexes text ts) :
    Lexes (Ch.slash :: Ch.slash :: (body ++ Ch.newline :: text)) ts
  | lastComment {body : Bytes} (hbody : Ch.newline ∉ body) : Lexes (Ch.slash :: Ch.slash :: body) []
  | punctuation {c : UInt8} {t : Token ν} {text : Bytes} {ts : List (Token ν)}
      (hc : punctuation c = some t)
    (h : Lexes text ts) : Lexes (c :: text) (t :: ts)
  | word {c : UInt8} {w : Bytes} {t : Token ν} {text : Bytes} {ts : List (Token ν)}
      (hc : word c = some (w, t))
    (h : Lexes text ts) : Lexes (c :: (w ++ text)) (t :: ts)
  | string {l s text : Bytes} {ts : List (Token ν)} (hl : Literal l s)
      (hs : Utf8.validate false s = true)
    (h : Lexes text ts) : Lexes (Ch.quote :: (l ++ Ch.quote :: text)) (.str s :: ts)
  | number {c : UInt8} {x : ν} {n : ℕ} {text : Bytes} {ts : List (Token ν)} (hc : beginsNumber c)
    (hx : scan (c :: text) = some (x, n)) (h : Lexes (text.drop n) ts) :
    Lexes (c :: text) (.number x :: ts)

end

end Json

end Cppcms
