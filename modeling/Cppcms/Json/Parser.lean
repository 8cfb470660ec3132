import Cppcms.Base.Outcome
import Cppcms.Json.Value

/-!
# The JSON parser

`parse_stream` of `json.cpp`: an automaton with a stack of the states to return to and of pointers
into the value that it builds.  A pointer is the way from the value to the place.  Pointers into a
vector do not survive a `push_back`: they know the length of the vector, and are not valid if it has
another one.
-/

namespace Cppcms

namespace Json

variable {ν : Type}

/-- The tokens but for the end of the input. -/
inductive Token (ν : Type) where
  | openArray
  | closeArray
  | openObject
  | closeObject
  | colon
  | comma
  | str (s : Bytes)
  | number (x : ν)
  | true_
  | false_
  | null
  | err
  deriving DecidableEq

/-- A token that is a value by itself. -/
def Token.scalar : Token ν → Option (Value ν)
  | .str s => some (.str s)
  | .number x => some (.number x)
  | .true_ => some (.boolean true)
  | .false_ => some (.boolean false)
  | .null => some .null
  | _ => none

/-! ## Pointers -/

/-- One step of a pointer: to an element of an array of some size, or to a member of an object. -/
inductive Place where
  | element (i size : ℕ)
  | member (key : Bytes)
  deriving DecidableEq

def child : Value ν → Place → Option (Value ν)
  | .array a, .element i size => if a.length = size then a[i]? else none
  | .object o, .member key => (o.find? fun m => m.1 = key).map Prod.snd
  | _, _ => none

def setChild (x : Value ν) : Value ν → Place → Value ν
  | .array a, .element i _ => .array (a.set i x)
  | .object o, .member key => .object (SortedMap.insertList key x o)
  | v, _ => v

/-- The value that a pointer points to. -/
def deref (v : Value ν) : List Place → Option (Value ν)
  | [] => some v
  | place :: p => (child v place).bind fun x => deref x p

/-- The assignment to what a pointer points to. -/
def assign (w v : Value ν) : List Place → Option (Value ν)
  | [] => some w
  | place :: p => (child v place).bind fun x => (assign w x p).map fun y => setChild y v place

/-! ## The automaton -/

inductive State where
  | valueExpected
  | objectKeyOrCloseExpected
  | objectColonExpected
  | objectValueExpected
  | objectCloseOrCommaExpected
  | arrayValueOrCloseExpected
  | arrayCloseOrCommaExpected
  | error
  | done
  deriving DecidableEq

def maxDepth : ℕ := 512

structure Parser (ν : Type) where
  state : State
  key : Bytes
  stack : List (State × List Place)
  result : Value ν

namespace Parser

def init : Parser ν := ⟨.valueExpected, [], [(.done, [])], .undefined⟩

/-- The value on the top of the stack is complete. -/
def pop (p : Parser ν) : Outcome (Parser ν) :=
  match p.stack with
  | [] => .undefined
  | (state, _) :: stack => .returns { p with state, stack }

def fail (p : Parser ν) : Outcome (Parser ν) := .returns { p with state := .error }

/-- An assignment through a pointer. -/
def store (p : Parser ν) (place : List Place) (w : Value ν) : Outcome (Parser ν) :=
  match assign w p.result place with
  | some result => .returns { p with result }
  | none => .undefined

/-- The new member or element at a place is given its value.  The state is `close` when it is
complete. -/
def fill (p : Parser ν) (close : State) (place : List Place) (c : Option (Token ν)) :
    Outcome (Parser ν) :=
  match c with
  | some .openArray => do
    let p ← p.store place (.array [])
    return { p with state := .arrayValueOrCloseExpected, stack := (close, place) :: p.stack }
  | some .openObject => do
    let p ← p.store place (.object [])
    return { p with state := .objectKeyOrCloseExpected, stack := (close, place) :: p.stack }
  | some c =>
    match c.scalar with
    | some v => do
      let p ← p.store place v
      return { p with state := close }
    | none => p.fail
  | none => p.fail

/-- An element is added to the array on the top of the stack. -/
def addElement (p : Parser ν) (top : List Place) (c : Option (Token ν)) : Outcome (Parser ν) :=
  match deref p.result top with
  | some (.array a) => do
    let p ← p.store top (.array (a ++ [.undefined]))
    p.fill .arrayCloseOrCommaExpected (top ++ [.element a.length (a.length + 1)]) c
  | some _ => .throws "bad_value_cast"
  | none => .undefined

/-- A member with the last key is added to the object on the top of the stack. -/
def addMember (p : Parser ν) (top : List Place) (c : Option (Token ν)) : Outcome (Parser ν) :=
  match deref p.result top with
  | some (.object o) =>
    if o.any fun m => m.1 = p.key then p.fail
    else do
      let q ← p.store top (.object (SortedMap.insertList p.key .undefined o))
      q.fill .objectCloseOrCommaExpected (top ++ [.member p.key]) c
  | some _ => .throws "bad_value_cast"
  | none => .undefined

/-- The switch over the states, with the pointer on the top of the stack.  The end of the input is
no token. -/
def switch (p : Parser ν) (top : List Place) (c : Option (Token ν)) : Outcome (Parser ν) :=
  match p.state with
  | .valueExpected =>
    match c with
    | some .openArray => do
      let p ← p.store top (.array [])
      return { p with state := .arrayValueOrCloseExpected }
    | some .openObject => do
      let p ← p.store top (.object [])
      return { p with state := .objectKeyOrCloseExpected }
    | some c =>
      match c.scalar with
      | some v => do
        let p ← p.store top v
        p.pop
      | none => p.fail
    | none => p.fail
  | .objectKeyOrCloseExpected =>
    match c with
    | some .closeObject => p.pop
    | some (.str key) => .returns { p with key, state := .objectColonExpected }
    | _ => p.fail
  | .objectColonExpected =>
    match c with
    | some .colon => .returns { p with state := .objectValueExpected }
    | _ => p.fail
  | .objectValueExpected => p.addMember top c
  | .objectCloseOrCommaExpected =>
    match c with
    | some .comma => .returns { p with state := .objectKeyOrCloseExpected }
    | some .closeObject => p.pop
    | _ => p.fail
  | .arrayValueOrCloseExpected =>
    match c with
    | some .closeArray => p.pop
    | _ => p.addElement top c
  | .arrayCloseOrCommaExpected =>
    match c with
    | some .closeArray => p.pop
    | some .comma => .returns { p with state := .arrayValueOrCloseExpected }
    | _ => p.fail
  | .error => .returns p
  | .done => .returns p

def step (p : Parser ν) (c : Option (Token ν)) : Outcome (Parser ν) :=
  match p.stack with
  | [] => .undefined
  | (_, top) :: _ => p.switch top c

/-- The condition of the loop. -/
def running (p : Parser ν) : Bool :=
  p.stack ≠ [] ∧ p.state ≠ .error ∧ p.state ≠ .done ∧ p.stack.length ≤ maxDepth

/-- The loop.  Behind the last token comes the end of the input, again and again: it stops every
state. -/
def run (p : Parser ν) : List (Token ν) → Outcome (Parser ν × List (Token ν))
  | [] =>
    if p.running then do
      let p ← p.step none
      return (p, [])
    else .returns (p, [])
  | t :: ts =>
    if p.running then do
      let p ← p.step (some t)
      p.run ts
    else .returns (p, t :: ts)

end Parser

/-- `parse_stream`: whether it succeeds, and the value of the target. -/
def parseStream (forceEof : Bool) (ts : List (Token ν)) (out : Value ν) :
    Outcome (Bool × Value ν) := do
  let (p, rest) ← Parser.init.run ts
  if p.state = .done then
    if forceEof ∧ rest ≠ [] then return (false, out) else return (true, p.result)
  else return (false, out)

end Json

end Cppcms
