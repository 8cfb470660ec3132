import Cppcms.Encoding.Hex
import Cppcms.Json.Tokenizer

/-!
# Writing JSON

`value::save` of `json.cpp`.  The numbers are written by the inserter of the standard library for
`double`: `print` is what it writes.
-/

namespace Cppcms

namespace Json

/-! ## Strings -/

/-- What is written in the place of an octet, if it is not written as it is. -/
def addon (c : UInt8) : Option Bytes :=
  if c = Ch.quote then some [backslash, Ch.quote]
  else if c = backslash then some [backslash, backslash]
  else if c = 0x08 then some [backslash, 0x62]
  else if c = 0x0C then some [backslash, 0x66]
  else if c = Ch.newline then some [backslash, 0x6E]
  else if c = Ch.return' then some [backslash, 0x72]
  else if c = Ch.tab then some [backslash, 0x74]
  else if c ≤ 0x1F then some
    [backslash, letterU, 0x30, 0x30, hexDigit (c >>> 4), hexDigit (c &&& 0xF)]
  else none

/-- The loop of `generic_append`.  `pending` is what is between `last` and `i`. -/
def appendLoop (pending : Bytes) : Bytes → Bytes
  | [] => pending
  | c :: s =>
    match addon c with
    | some a => pending ++ (a ++ appendLoop [] s)
    | none => appendLoop (pending ++ [c]) s

/-- `to_json`. -/
def toJson (s : Bytes) : Bytes := Ch.quote :: (appendLoop [] s ++ [Ch.quote])

/-! ## Indentation -/

def pad (tb : ℤ) : Bytes := List.replicate tb.toNat Ch.tab

def openBracket : UInt8 := 0x5B

def closeBracket : UInt8 := 0x5D

def openBrace : UInt8 := 0x7B

def closeBrace : UInt8 := 0x7D

def comma : UInt8 := 0x2C

/-- `indent`: what is written, and the new value of `tabs`. -/
def indent (c : UInt8) (tabs : ℤ) : Bytes × ℤ :=
  if tabs < 0 then ([c], tabs)
  else if c = openBrace ∨ c = openBracket then (c :: Ch.newline :: pad (tabs + 1), tabs + 1)
  else if c = comma then (c :: Ch.newline :: pad tabs, tabs)
  else if c = Ch.colon then ([Ch.space, Ch.colon, Ch.tab], tabs)
  else if c = closeBrace ∨ c = closeBracket then
    (Ch.newline :: pad (tabs - 1) ++ c :: Ch.newline :: pad (tabs - 1), tabs - 1)
  else ([], tabs)

/-! ## Values -/

/-- The loop over the elements of an array from the index `i` on, which is an `unsigned`; the texts
of the elements are given.  It is not known to end after any number of passes: there is no result if
`passes` of them are not enough. -/
def arrayLoop (texts : List (Option Bytes)) (separator : Bytes) : ℕ → ℕ → Option Bytes
  | 0, _ => none
  | passes + 1, i =>
    match texts[i]? with
    | none => some []
    | some none => none
    | some (some text) =>
      let i := (i + 1) % 2 ^ 32
      (arrayLoop texts separator passes i).map fun out =>
        text ++ ((if i < texts.length then separator else []) ++ out)

section

variable {ν : Type} (print : ν → Bytes)

mutual

/-- `write_value`.  There is no text of an undefined value, which throws, and of an array whose loop
does not end. -/
def writeValue : Value ν → ℤ → Option Bytes
  | .undefined, _ => none
  | .null, _ => some (bytes "null")
  | .number x, _ => some (print x)
  | .str s, _ => some (toJson s)
  | .boolean b, _ => some (if b then bytes "true" else bytes "false")
  | .array a, tabs =>
    let begin := indent openBracket tabs
    (arrayLoop (writeElements a begin.2) (indent comma begin.2).1 (a.length + 1) 0).map fun out =>
      begin.1 ++ (out ++ (indent closeBracket begin.2).1)
  | .object o, tabs =>
    let begin := indent openBrace tabs
    (writeMembers o begin.2).map fun out => begin.1 ++ (out ++ (indent closeBrace begin.2).1)

def writeElements : List (Value ν) → ℤ → List (Option Bytes)
  | [], _ => []
  | v :: a, tabs => writeValue v tabs :: writeElements a tabs

/-- The loop over the members of an object. -/
def writeMembers : List (Bytes × Value ν) → ℤ → Option Bytes
  | [], _ => some []
  | (key, v) :: o, tabs =>
    match writeValue v tabs, writeMembers o tabs with
    | some text, some out =>
      some
        (toJson key ++ ((indent Ch.colon tabs).1 ++
        (text ++ ((if o = [] then [] else (indent comma tabs).1) ++ out))))
    | _, _ => none

end

inductive How where
  | compact
  | readable
  deriving DecidableEq

/-- `save`. -/
def save (how : How) (v : Value ν) : Option Bytes :=
  writeValue print v (if how = .readable then 0 else -1)

end

end Json

end Cppcms
