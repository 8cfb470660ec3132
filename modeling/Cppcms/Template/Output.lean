import Cppcms.Library.Delimiter
import Cppcms.Template.Patterns

/-!
# Emitted code

What the template compiler writes.  A line of C++ is built from pieces of the compiler's own text,
from text taken over from the template (names, expressions, conditions, C++), from the contents of
string literals and from braces (`Fragment`).  Every brace carries a label that says what it belongs
to, so that a closing brace can be compared with the brace it is meant to close.

The lines that carry the control structure of a template have constructors of their own (`Code`);
the text of a line and its braces are both read off its fragments.
-/

namespace Cppcms

namespace Template

/-! ## Expressions -/

/-- A piece of a C++ expression: text, a name of the template (a loop variable, a row number or a
parameter), or the name `content`. -/
inductive Tok where
  | code (s : Text)
  | name (n : Text)
  | content
  deriving DecidableEq, Repr

/-- An expression of the emitted code. -/
abbrev Expr := List Tok

def Tok.text : Tok → Text
  | code s => s
  | name n => n
  | content => str "content"

def Expr.text (e : Expr) : Text := e.flatMap Tok.text

/-- A piece of text as an expression. -/
def Expr.ofString (s : String) : Expr := [.code (str s)]

/-- `sep.join(es)`. -/
def Expr.join (sep : String) (es : List Expr) : Expr := (es.intersperse (ofString sep)).flatten

/-- A condition: `none` is what Python writes for a group that took no part in the match. -/
inductive Condition where
  | expr (e : Expr)
  | raw (s : Option Text)
  deriving DecidableEq, Repr

/-- `"%s" % x` for a string or `None`. -/
def pyStr : Option Text → Text
  | none => str "None"
  | some s => s

def Condition.text : Condition → Text
  | expr e => e.text
  | raw s => pyStr s

/-! ## Lines -/

/-- What a brace belongs to. -/
inductive Brace where
  | skin
  | view
  | constructor
  | template
  | conditional
  | sequence
  | nonempty
  | loop
  | separator
  | using'
  | cache
  | miss
  | form
  | render
  | loader
  deriving DecidableEq, Repr

/-- A piece of a line. -/
inductive Fragment where
  /-- text of the compiler -/
  | code (s : Text)
  /-- text taken from the template -/
  | user (s : Text)
  /-- the characters of a string literal -/
  | literal (s : Text)
  | opening (b : Brace)
  | closing (b : Brace)
  deriving DecidableEq, Repr

namespace Fragment

def text : Fragment → Text
  | code s => s
  | user s => s
  | literal s => s
  | opening _ => ['\x7b']
  | closing _ => ['\x7d']

def brace : Fragment → Option (Delimiter Brace)
  | opening b => some (.opening b)
  | closing b => some (.closing b)
  | _ => none

/-- Text of the compiler. -/
def ofString (s : String) : Fragment := code (str s)

/-- An expression inside a line. -/
def ofExpr (e : Expr) : Fragment := user (Expr.text e)

@[simp] lemma code_brace (s : Text) : (code s).brace = none := rfl
@[simp] lemma user_brace (s : Text) : (user s).brace = none := rfl
@[simp] lemma literal_brace (s : Text) : (literal s).brace = none := rfl
@[simp] lemma ofString_brace (s : String) : (ofString s).brace = none := rfl
@[simp] lemma ofExpr_brace (e : Expr) : (ofExpr e).brace = none := rfl
@[simp] lemma opening_brace (b : Brace) : (opening b).brace = some (.opening b) := rfl
@[simp] lemma closing_brace (b : Brace) : (closing b).brace = some (.closing b) := rfl

end Fragment

/-- A natural number in decimal. -/
def natText (n : ℕ) : Text := Nat.toDigits 10 n

/-- The prefix of `booster::rbegin` and `booster::rend`. -/
def reverseText (reverse : Bool) : Text := if reverse then str "r" else []

/-- A line of the output. -/
inductive Code where
  /-- a line without a part in the control structure of a template -/
  | line (fragments : List Fragment)
  /-- `out()<<"...";` -/
  | text (escaped : Text)
  /-- `out()<<expr;` -/
  | show' (e : Expr)
  /-- `if(cond) {` -/
  | if' (c : Condition)
  /-- `}` before an `else` in a line of its own -/
  | closeIf
  /-- `else` -/
  | else'
  /-- `}else{` -/
  | closeElse
  /-- `}` after an `else` branch -/
  | endElse
  /-- `} // endif` -/
  | endIf
  /-- `{` around a `foreach` -/
  | block
  /-- `if(booster::begin(seq)!=booster::end(seq)) {` -/
  | ifNonempty (reverse : Bool) (seq : Expr)
  /-- `int rowid = begin;` -/
  | rowid (name : Text) (begin : ℕ)
  /-- the head of the loop -/
  | for' (type : Option Text) (ident : Text) (reverse : Bool) (seq : Expr) (rowid : Option Text)
  /-- `auto &ident=*ident_ptr;` -/
  | reference (type : Option Text) (ident : Text)
  /-- `if(ident_ptr!=booster::begin(seq)) {` -/
  | ifNotFirst (ident : Text) (reverse : Bool) (seq : Expr)
  /-- `} // end of separator` -/
  | endSeparator
  /-- `} // end of item` -/
  | endItem
  /-- ` } else {` -/
  | elseEmpty
  /-- `} // end of empty` -/
  | endEmpty
  /-- `}` of the test for elements -/
  | endNonempty
  /-- `}` around a `foreach` -/
  | endBlock
  deriving DecidableEq, Repr

namespace Code

open Fragment in
/-- The pieces of a line. -/
def fragments : Code → List Fragment
  | line fs => fs
  | text s => [ofString "out()<<\"", literal s, ofString "\";"]
  | show' e => [ofString "out()<<", ofExpr e, ofString ";"]
  | if' c => [ofString "if(", user c.text, ofString ") ", opening .conditional]
  | closeIf => [closing .conditional]
  | else' => [ofString "else"]
  | closeElse => [closing .conditional, ofString "else", opening .conditional]
  | endElse => [closing .conditional]
  | endIf => [closing .conditional, ofString " // endif"]
  | block => [opening .sequence]
  | ifNonempty r s => [ofString "if(booster::", code (reverseText r), ofString "begin(", ofExpr s,
      ofString ")!=booster::", code (reverseText r), ofString "end(", ofExpr s, ofString ")) ",
      opening .nonempty]
  | rowid n b => [ofString "    int ", user n, ofString " = ", code (natText b), ofString ";"]
  | for' t i r s row => [ofString "for(", user (t.getD (str "auto")), ofString " ", user i,
      ofString "_ptr=booster::", code (reverseText r), ofString "begin(", ofExpr s, ofString "),",
      user i, ofString "_ptr_end=booster::", code (reverseText r), ofString "end(", ofExpr s,
      ofString ");", user i, ofString "_ptr!=", user i, ofString "_ptr_end;++", user i,
      ofString "_ptr", user (row.elim [] fun n => str ",++" ++ n), ofString ") ", opening .loop]
  | reference t i => (match t with
      | none => [ofString "auto &", user i, ofString "=*", user i, ofString "_ptr;"]
      | some t => [ofString "std::iterator_traits< ", user t, ofString " >::value_type &", user i,
          ofString "=*", user i, ofString "_ptr;"])
  | ifNotFirst i r s => [ofString "if(", user i, ofString "_ptr!=booster::", code (reverseText r),
      ofString "begin(", ofExpr s, ofString ")) ", opening .separator]
  | endSeparator => [closing .separator, ofString " // end of separator"]
  | endItem => [closing .loop, ofString " // end of item"]
  | elseEmpty => [ofString " ", closing .nonempty, ofString " else ", opening .nonempty]
  | endEmpty => [closing .nonempty, ofString " // end of empty"]
  | endNonempty => [closing .nonempty]
  | endBlock => [closing .sequence]

/-- The C++ text of a line. -/
def toText (c : Code) : Text := c.fragments.flatMap Fragment.text

/-- The braces of a line. -/
def braces (c : Code) : List (Delimiter Brace) := c.fragments.filterMap Fragment.brace

section Braces

open Delimiter

@[simp] lemma line_braces (fs : List Fragment) : (line fs).braces = fs.filterMap Fragment.brace :=
  rfl
@[simp] lemma text_braces (s : Text) : (text s).braces = [] := rfl
@[simp] lemma show_braces (e : Expr) : (show' e).braces = [] := rfl
@[simp] lemma if_braces (c : Condition) : (if' c).braces = [opening .conditional] := rfl
@[simp] lemma closeIf_braces : closeIf.braces = [closing .conditional] := rfl
@[simp] lemma else_braces : else'.braces = [] := rfl
@[simp] lemma closeElse_braces : closeElse.braces = [closing .conditional, opening .conditional] :=
  rfl
@[simp] lemma endElse_braces : endElse.braces = [closing .conditional] := rfl
@[simp] lemma endIf_braces : endIf.braces = [closing .conditional] := rfl
@[simp] lemma block_braces : block.braces = [opening .sequence] := rfl
@[simp] lemma ifNonempty_braces (r : Bool) (s : Expr) :
    (ifNonempty r s).braces = [opening .nonempty] := rfl
@[simp] lemma rowid_braces (n : Text) (b : ℕ) : (rowid n b).braces = [] := rfl
@[simp] lemma for_braces (t : Option Text) (i : Text) (r : Bool) (s : Expr) (row : Option Text) :
    (for' t i r s row).braces = [opening .loop] := rfl
@[simp] lemma reference_braces (t : Option Text) (i : Text) : (reference t i).braces = [] := by
  cases t <;> rfl
@[simp] lemma ifNotFirst_braces (i : Text) (r : Bool) (s : Expr) :
    (ifNotFirst i r s).braces = [opening .separator] := rfl
@[simp] lemma endSeparator_braces : endSeparator.braces = [closing .separator] := rfl
@[simp] lemma endItem_braces : endItem.braces = [closing .loop] := rfl
@[simp] lemma elseEmpty_braces : elseEmpty.braces = [closing .nonempty, opening .nonempty] := rfl
@[simp] lemma endEmpty_braces : endEmpty.braces = [closing .nonempty] := rfl
@[simp] lemma endNonempty_braces : endNonempty.braces = [closing .nonempty] := rfl
@[simp] lemma endBlock_braces : endBlock.braces = [closing .sequence] := rfl

end Braces

end Code

/-- A line as it is written: with its indentation, after a `#line` directive. -/
structure Line where
  indent : ℕ
  lineNumber : ℕ
  fileName : Text
  code : Code
  deriving DecidableEq, Repr

/-- The text of a line with its directive. -/
def Line.text (l : Line) : Text :=
  List.replicate l.indent '\t' ++ str "#line " ++ natText l.lineNumber ++ str " \"" ++ l.fileName ++
    str "\"\n" ++ List.replicate l.indent '\t' ++ l.code.toText ++ str "\n"

/-- The braces of a stream. -/
def braces (ls : List Line) : List (Delimiter Brace) := ls.flatMap fun l => l.code.braces

end Template

end Cppcms
