import Cppcms.Library.Regex

/-!
# The patterns of the template compiler

The regular expressions of `bin/cppcms_tmpl_cc`, in the order of its classes.  An expression with
groups is a function of the number of its first group, so that the groups of a pattern have the
numbers they have in the source, also where one pattern is built into another one.

Python's classes `\w`, `\d` and `\s` depend on the Unicode tables for characters beyond ASCII; these
are a parameter (`Unicode`).
-/

namespace Cppcms

namespace Template

open Regex

/-- A text, as a list of characters. -/
abbrev Text := List Char

instance instLawfulBEqText : LawfulBEq Text := inferInstance

/-- A text given as a string literal. -/
def str (s : String) : Text := s.toList

/-- What the character classes contain beyond ASCII, and the values of the digits there. -/
structure Unicode where
  word : Char → Bool
  digit : Char → Bool
  space : Char → Bool
  value : Char → ℕ

/-- The classes restricted to ASCII. -/
def Unicode.ascii : Unicode := ⟨fun _ => false, fun _ => false, fun _ => false, fun _ => 0⟩

/-! ## Character classes -/

def isLetter (c : Char) : Bool := ('a' ≤ c && c ≤ 'z') || ('A' ≤ c && c ≤ 'Z')

def isAsciiDigit (c : Char) : Bool := '0' ≤ c && c ≤ '9'

def isAscii (c : Char) : Bool := c.toNat < 128

namespace Unicode

variable (u : Unicode)

/-- `\w`. -/
def isWord (c : Char) : Bool :=
  if isAscii c then isLetter c || isAsciiDigit c || c == '_' else u.word c

/-- `\d`. -/
def isDigit (c : Char) : Bool := if isAscii c then isAsciiDigit c else u.digit c

/-- `\s`. -/
def isSpace (c : Char) : Bool :=
  if isAscii c then (9 ≤ c.toNat && c.toNat ≤ 13) || (28 ≤ c.toNat && c.toNat ≤ 32) else u.space c

/-- `int`, on digits. -/
def int (s : Text) : ℕ :=
  s.foldl (fun v c => v * 10 + if isAscii c then c.toNat - 48 else u.value c) 0

/-- `\w+`. -/
def words : Regex Char := plus (char u.isWord)

/-- `\d+`. -/
def digits : Regex Char := plus (char u.isDigit)

/-- `\s*`. -/
def spaces : Regex Char := star (char u.isSpace)

/-- `\s+`. -/
def spaces1 : Regex Char := plus (char u.isSpace)

end Unicode

/-- A fixed string. -/
def lit (s : String) : Regex Char := word (str s)

/-- `.`. -/
def dot : Regex Char := char (· != '\n')

/-- `$`: at the end, or before a newline at the end. -/
def atEnd : Regex Char := ahead fun s => s == [] || s == ['\n']

/-! ## Names, strings and variables -/

/-- `([^"\\]|\\[^"]|\\")*`, the characters of a string, with the group of its loop. -/
def strBody (wrap : Regex Char → Regex Char) : Regex Char :=
  star <| wrap <| any (char fun c => c != '"' && c != '\\')
    [seq (char (· == '\\')) (char (· != '"')), lit "\\\""]

/-- `str_match`; group `i`. -/
def strMatch (i : ℕ) : Regex Char := cat [lit "\"", strBody (group i), lit "\""]

/-- `single_var_param_match`. -/
def singleVarParamMatch (u : Unicode) : Regex Char :=
  alt (seq (opt (lit "-")) u.digits) (cat [lit "\"", strBody id, lit "\""])

/-- `call_param_match`. -/
def callParamMatch (u : Unicode) : Regex Char :=
  alt (lit "()") (cat [lit "(", singleVarParamMatch u,
    star (seq (lit ",") (singleVarParamMatch u)), lit ")"])

/-- `[a-zA-Z][a-zA-Z0-9_]*` and an optional call. -/
def nameAndCall (u : Unicode) : Regex Char :=
  cat [char isLetter, star (char fun c => isLetter c || isAsciiDigit c || c == '_'),
    opt (callParamMatch u)]

/-- `variable_match`; groups `i` to `i + 4`. -/
def variableMatch (u : Unicode) (i : ℕ) : Regex Char :=
  cat [opt (lit "*"), group i (nameAndCall u),
    group (i + 1) (star (group (i + 2) (seq (group (i + 3) (alt (lit ".") (lit "->")))
      (group (i + 4) (nameAndCall u)))))]

/-- `[a-zA-Z]\w*`. -/
def identifier (u : Unicode) : Regex Char := seq (char isLetter) (star (char u.isWord))

/-- `:?:?\w+`. -/
def scopedName (u : Unicode) : Regex Char := cat [opt (lit ":"), opt (lit ":"), u.words]

/-! ## Commands -/

/-- A command: `<%\s*`, the given part and `%>$`. -/
def command (u : Unicode) (parts : List (Regex Char)) : Regex Char :=
  cat ([lit "<%", u.spaces] ++ parts ++ [lit "%>", atEnd])

/-- The test whether a chunk belongs to a class: `^<%\s*`, its `basic_pattern` and `.*%>$`. -/
def basic (u : Unicode) (r : Regex Char) : Regex Char := command u [r, star dot]

def skinPattern (u : Unicode) : Regex Char :=
  command u [lit "skin", u.spaces1, opt (group 1 u.words), u.spaces]

def htmlPattern (u : Unicode) : Regex Char :=
  command u [opt (group 1 (lit "x")), lit "html", u.spaces]

def viewPattern (u : Unicode) : Regex Char :=
  command u [lit "view", u.spaces1, group 1 u.words, u.spaces1, lit "uses", u.spaces1,
    group 2 (seq (scopedName u) (star (group 3 (seq (lit "::") u.words)))),
    opt (group 4 (cat [u.spaces1, lit "extends", u.spaces1,
      group 5 (seq (scopedName u) (opt (group 6 (seq (lit "::") u.words))))])),
    opt (group 7 (seq u.spaces1 (lit "abstract"))), opt (group 8 (seq u.spaces1 (lit "inline"))),
    u.spaces]

def templatePattern (u : Unicode) : Regex Char :=
  command u [lit "template", u.spaces1, group 1 (identifier u), u.spaces, lit "(",
    group 2 (star (char fun c => u.isWord c || u.isSpace c || c == ',' || c == ':' || c == '&')),
    lit ")", u.spaces, opt (group 3 (cat [lit "=", u.spaces, lit "0", u.spaces]))]

/-- The pattern in `create_parameters`. -/
def parameterPattern (u : Unicode) : Regex Char :=
  cat
    [u.spaces,
      group 1
      (cat [group 2 (seq (scopedName u) (star (group 3 (seq (lit "::") u.words)))), u.spaces,
      opt (group 4 (lit "const")), u.spaces, opt (group 5 (lit "&")), u.spaces,
    group 6 u.words]), u.spaces, opt (group 7 (seq (lit ",") (group 8 (star dot)))), atEnd]

/-- The alternative of a string and a variable, in groups `i` and `j` with their inner groups. -/
def strOrVar (u : Unicode) (i j : ℕ) : Regex Char :=
  alt (group i (strMatch (i + 1))) (group j (variableMatch u (j + 1)))

def usingPattern (u : Unicode) : Regex Char :=
  command u [lit "using", u.spaces1, group 1 (seq (star (seq u.words (lit "::"))) u.words),
    opt (cat [u.spaces1, lit "with", u.spaces1, group 2 (variableMatch u 3)]),
    u.spaces1, lit "as", u.spaces1,
    group 8 (seq (char fun c => isLetter c || c == '_') (star (char u.isWord))),
    opt (group 9 (cat [u.spaces1, lit "from",
      group 10 (alt (seq u.spaces (group 11 (strMatch 12)))
        (seq u.spaces1 (group 13 (variableMatch u 14)))),
      opt (group 19 (cat [u.spaces, lit ",", u.spaces, group 20 (strOrVar u 21 23)]))])),
    u.spaces]

def foreachPattern (u : Unicode) : Regex Char :=
  command u [lit "foreach", u.spaces1, group 1 (identifier u),
    opt (group 2 (cat [u.spaces1, lit "as", u.spaces1,
      group 3 (seq (group 4 (scopedName u)) (star (group 5 (seq (lit "::") u.words))))])),
    opt (cat [u.spaces1, lit "rowid", u.spaces1, group 6 (identifier u),
      opt (cat [u.spaces1, lit "from", u.spaces1, group 7 u.digits])]),
    opt (seq u.spaces1 (group 8 (lit "reverse"))),
    u.spaces1, lit "in", u.spaces1, group 9 (variableMatch u 10), u.spaces]

def separatorPattern (u : Unicode) : Regex Char :=
  cat [lit "<%", u.spaces, lit "separator", u.spaces, lit "%>"]

def itemPattern (u : Unicode) : Regex Char :=
  cat [lit "<%", u.spaces, lit "item", u.spaces, lit "%>"]

def emptyPattern (u : Unicode) : Regex Char :=
  cat [lit "<%", u.spaces, lit "empty", u.spaces, lit "%>"]

def elsePattern (u : Unicode) : Regex Char := command u [lit "else", u.spaces]

def ifPattern (u : Unicode) : Regex Char :=
  command u [group 1 (alt (lit "if") (lit "elif")), u.spaces1,
    group 2 (any (seq (opt (group 3 (any (seq (lit "not") u.spaces1)
        [cat [lit "not", u.spaces1, lit "empty", u.spaces1], seq (lit "empty") u.spaces1])))
        (group 4 (variableMatch u 5)))
      [cat [lit "(", group 10 (plus dot), lit ")"], empty]), u.spaces]

def endPattern (u : Unicode) : Regex Char :=
  command u [lit "end", opt (group 1 (seq u.spaces1 (group 2 u.words))), u.spaces]

def errorPattern : Regex Char := cat [lit "<%", group 1 (star dot), lit "%>", atEnd]

def domainPattern (u : Unicode) : Regex Char :=
  command u [lit "domain", u.spaces1, group 1 u.words, u.spaces]

def cppIncludePattern (u : Unicode) : Regex Char :=
  command u [lit "c++", opt (group 1 (lit "src")), u.spaces1, group 2 (star dot)]

/-- `base_show.base_pattern`. -/
def basePattern (u : Unicode) : Regex Char :=
  cat [u.spaces, group 1 (variableMatch u 2), u.spaces,
    opt (group 7 (seq (lit "|") (group 8 (star dot)))), atEnd]

/-- The pattern in `base_show.get_params`. -/
def getParamsPattern (u : Unicode) : Regex Char :=
  cat [u.spaces, group 1 (any (group 2 (variableMatch u 3)) [group 8 (strMatch 9),
    group 10
      (cat [opt (lit "-"), u.digits, opt (group 11 (seq (lit ".") (star (char u.isDigit))))])]),
    u.spaces, opt (group 12 (seq (lit ",") (group 13 (star dot)))), atEnd]

/-- The expression for one filter in `base_show.prepare`. -/
def filterExpr (u : Unicode) : Regex Char :=
  cat [u.spaces, opt (group 1 (seq (lit "ext") u.spaces1)), group 2 u.words, u.spaces,
    opt (group 3 (cat [lit "(",
      group 4 (star (group 5 (alt (char fun c => c != '"' && c != ')') (strMatch 6)))), lit ")"])),
    u.spaces, opt (group 7 (seq (lit "|") (group 8 (star dot)))), atEnd]

def formPattern (u : Unicode) : Regex Char :=
  command u [lit "form", u.spaces1, group 1 (any (lit "as_p") [lit "as_table", lit "as_ul",
      lit "as_dl", lit "as_space", lit "input", lit "block", lit "begin", lit "end"]),
    u.spaces1, group 2 (variableMatch u 3), u.spaces]

def renderPattern (u : Unicode) : Regex Char :=
  command u [lit "render", u.spaces1, group 1 (strOrVar u 2 4),
    opt (group 10 (cat [u.spaces, lit ",", u.spaces, group 11 (strOrVar u 12 14)])),
    opt (group 20 (cat [u.spaces1, lit "with", u.spaces1, group 21 (variableMatch u 22)])),
    u.spaces]

def filtersShowPattern (u : Unicode) : Regex Char :=
  cat [lit "<%", opt (group 1 (lit "=")), u.spaces,
    group 2 (cat [variableMatch u 3, u.spaces, opt (group 8 (seq (lit "|") (star dot)))]),
    lit "%>", atEnd]

/-- The pattern in `make_format_params`. -/
def formatParamsPattern : Regex Char :=
  cat [group 1 (plus (group 2 (any (char fun c => c != ',' && c != '(' && c != '"')
      [strMatch 3, cat [lit "(", star (group 4 (alt (char fun c => c != '"' && c != ')')
        (strMatch 5))), lit ")"]]))),
    opt (group 6 (seq (lit ",") (group 7 (star dot)))), atEnd]

def filterPattern (u : Unicode) : Regex Char :=
  cat [lit "<%", u.spaces, lit "filter", u.spaces1, opt (group 1 (seq (lit "ext") u.spaces1)),
    group 2 u.words, u.spaces, lit "%>"]

def cachePattern (u : Unicode) : Regex Char :=
  command u [lit "cache", u.spaces1, group 1 (strOrVar u 2 4),
    opt (group 10 (cat [u.spaces1, lit "for", u.spaces1, group 11 u.digits])),
    opt (group 12 (cat [u.spaces1, lit "on", u.spaces1, lit "miss", u.spaces1,
      group 13 (identifier u), lit "()"])),
    opt (group 14 (cat [u.spaces1, lit "no", u.spaces1, lit "triggers"])),
    opt (group 15 (cat [u.spaces1, lit "no", u.spaces1, lit "recording"])), u.spaces]

def triggerPattern (u : Unicode) : Regex Char :=
  command u [lit "trigger", u.spaces1, group 1 (strOrVar u 2 4), u.spaces]

/-- The one or two strings of a translated message, in group 1 with the inner groups 2 and 3. -/
def messageMatch (u : Unicode) : Regex Char :=
  group 1 (seq (opt (cat [strMatch 2, u.spaces, lit ",", u.spaces])) (strMatch 3))

/-- `(using(.*))?`; groups `i` and `i + 1`. -/
def usingMatch (i : ℕ) : Regex Char := opt (group i (seq (lit "using") (group (i + 1) (star dot))))

def ngettextPattern (u : Unicode) : Regex Char :=
  command u [lit "ngt", u.spaces, messageMatch u, u.spaces, lit ",", u.spaces, group 4 (strMatch 5),
    u.spaces, lit ",", u.spaces, group 6 (variableMatch u 7), u.spaces, usingMatch 12, u.spaces]

def gettextPattern (u : Unicode) : Regex Char :=
  command u [lit "gt", u.spaces, messageMatch u, u.spaces, usingMatch 4, u.spaces]

def urlPattern (u : Unicode) : Regex Char :=
  command u [lit "url", u.spaces, group 1 (strMatch 2), u.spaces, usingMatch 3, u.spaces]

def csrfPattern (u : Unicode) : Regex Char :=
  command u [lit "csrf", opt (group 1 (seq u.spaces1
    (group 2 (any (lit "token") [lit "cookie", lit "script"])))), u.spaces]

def includePattern (u : Unicode) : Regex Char :=
  command u [lit "include", u.spaces1,
    group 1 (seq (identifier u) (opt (group 2 (seq (lit "::") u.words)))), u.spaces, lit "(",
    u.spaces, group 3 (star dot), lit ")",
    opt (seq u.spaces1 (group 4 (alt (cat [lit "from", u.spaces1, group 5 u.words])
      (cat [lit "using", u.spaces1,
        group 6 (seq (star (group 7 (seq u.words (lit "::")))) (group 8 u.words)),
        opt (cat [u.spaces1, lit "with", u.spaces1, group 9 (variableMatch u 10)])])))), u.spaces]

/-- The expression that finds the commands of a line in `fetch_content`. -/
def chunkPattern : Regex Char :=
  cat [lit "<%", star (group 1 (any (char fun c => c != '"' && c != '%')
    [cat [lit "\"", strBody (group 2), lit "\""], seq (lit "%") (char (· != '>'))])), lit "%>"]

end Template

end Cppcms
