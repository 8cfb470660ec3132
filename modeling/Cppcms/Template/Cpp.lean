import Cppcms.Template.Compiler

/-!
# The meaning of the emitted statements

A small part of C++: the statements that the compiler writes for text, variables, conditions and
sequences.  The lines are cut into tokens, the tokens are grouped to statements by their braces
(`parse`), and statements are executed in an environment of local variables (`Stmt.exec`).

Expressions are abstract: what an expression is worth depends on its text and on the values of the
names in it (`Sem`).  Local variables are found by name, the innermost one first, and it is an error
(`none`) to use a variable before it has a value, to move an iterator beyond its end, to count
beyond the range of `int`, to declare a variable under a reserved name, or to write to `out()` where
`out` is a local variable.
-/

namespace Cppcms

namespace Template

/-! ## Statements -/

/-- The test of an `if`. -/
inductive Test where
  | condition (c : Condition)
  | nonempty (reverse : Bool) (seq : Expr)
  | notFirst (ident : Text) (reverse : Bool) (seq : Expr)
  deriving DecidableEq, Repr

/-- The head of a loop over a sequence. -/
structure ForHead where
  ident : Text
  reverse : Bool
  seq : Expr
  rowid : Option Text
  deriving DecidableEq, Repr

/-- A token of the statements. -/
inductive CppTok where
  | text (literal : Text)
  | show' (e : Expr)
  | int (name : Text) (value : ℕ)
  | reference (ident : Text)
  | if' (t : Test)
  | else'
  | for' (h : ForHead)
  | lbrace
  | rbrace
  /-- a line that is not considered here -/
  | other
  deriving DecidableEq, Repr

/-- The tokens of a line. -/
def Code.tokens : Code → List CppTok
  | line _ => [.other]
  | text s => [.text s]
  | show' e => [.show' e]
  | if' c => [.if' (.condition c), .lbrace]
  | closeIf => [.rbrace]
  | else' => [.else']
  | closeElse => [.rbrace, .else', .lbrace]
  | endElse => [.rbrace]
  | endIf => [.rbrace]
  | block => [.lbrace]
  | ifNonempty r s => [.if' (.nonempty r s), .lbrace]
  | rowid n b => [.int n b]
  | for' _ i r s row => [.for' ⟨i, r, s, row⟩, .lbrace]
  | reference _ i => [.reference i]
  | ifNotFirst i r s => [.if' (.notFirst i r s), .lbrace]
  | endSeparator => [.rbrace]
  | endItem => [.rbrace]
  | elseEmpty => [.rbrace, .else', .lbrace]
  | endEmpty => [.rbrace]
  | endNonempty => [.rbrace]
  | endBlock => [.rbrace]

inductive Stmt where
  | text (literal : Text)
  | show' (e : Expr)
  | int (name : Text) (value : ℕ)
  | reference (ident : Text)
  | block (ss : List Stmt)
  /-- an `if`; the second list is empty, or it has the one statement after `else` -/
  | if' (t : Test) (ss es : List Stmt)
  | for' (h : ForHead) (ss : List Stmt)

/-- A statement, or a statement after an `else` whose `if` is still to come. -/
inductive Node where
  | stmt (s : Stmt)
  | else' (s : Stmt)

/-- A list of nodes without an `else` that has no `if`. -/
def Node.stmts : List Node → Option (List Stmt)
  | [] => some []
  | stmt s :: ns => (stmts ns).map (s :: ·)
  | else' _ :: _ => none

/-- One token, from right to left.  The state has the nodes that have been read in each open block,
the innermost first. -/
def reduce : CppTok → List (List Node) → Option (List (List Node))
  | .text s, f :: fs => some ((.stmt (.text s) :: f) :: fs)
  | .show' e, f :: fs => some ((.stmt (.show' e) :: f) :: fs)
  | .int n b, f :: fs => some ((.stmt (.int n b) :: f) :: fs)
  | .reference i, f :: fs => some ((.stmt (.reference i) :: f) :: fs)
  | .rbrace, fs => some ([] :: fs)
  | .lbrace, f :: g :: fs => (Node.stmts f).map fun ss => (.stmt (.block ss) :: g) :: fs
  | .else', (.stmt s :: f) :: fs => some ((.else' s :: f) :: fs)
  | .if' t, (.stmt (.block ss) :: .else' s :: f) :: fs => some ((.stmt (.if' t ss [s]) :: f) :: fs)
  | .if' t, (.stmt (.block ss) :: f) :: fs => some ((.stmt (.if' t ss []) :: f) :: fs)
  | .for' h, (.stmt (.block ss) :: f) :: fs => some ((.stmt (.for' h ss) :: f) :: fs)
  | _, _ => none

@[simp] lemma reduce_rbrace (fs : List (List Node)) : reduce .rbrace fs = some ([] :: fs) := by
  rcases fs with _ | ⟨f, fs⟩
  · rfl
  · rfl

@[simp] lemma reduce_lbrace (f g : List Node) (fs : List (List Node)) :
    reduce .lbrace (f :: g :: fs) = (Node.stmts f).map fun ss =>
    (.stmt (.block ss) :: g) :: fs := rfl

@[simp] lemma reduce_else' (s : Stmt) (f : List Node) (fs : List (List Node)) :
    reduce .else' ((.stmt s :: f) :: fs) = some ((.else' s :: f) :: fs) := rfl

@[simp] lemma reduce_if'_else' (t : Test) (ss : List Stmt) (s : Stmt) (f : List Node)
    (fs : List (List Node)) :
    reduce (.if' t) ((.stmt (.block ss) :: .else' s :: f) :: fs) =
      some ((.stmt (.if' t ss [s]) :: f) :: fs) := rfl

@[simp] lemma reduce_if' (t : Test) (ss gs : List Stmt) (fs : List (List Node)) :
    reduce (.if' t) ((.stmt (.block ss) :: gs.map .stmt) :: fs) =
      some ((.stmt (.if' t ss []) :: gs.map .stmt) :: fs) := by
  rcases gs with _ | ⟨g, gs⟩
  · rfl
  · rfl

@[simp] lemma reduce_for' (h : ForHead) (ss : List Stmt) (f : List Node) (fs : List (List Node)) :
    reduce (.for' h) ((.stmt (.block ss) :: f) :: fs) = some ((.stmt (.for' h ss) :: f) :: fs) :=
      rfl

/-- Tokens in front of what has been read. -/
def reduces (ts : List CppTok) (fs : List (List Node)) : Option (List (List Node)) :=
  ts.foldr (fun t r => r.bind (reduce t)) (some fs)

/-- The statements of a list of tokens. -/
def parse (ts : List CppTok) : Option (List Stmt) :=
  match reduces ts [[]] with
  | some [f] => Node.stmts f
  | _ => none

/-! ## String literals -/

/-- The escape sequences that `to_string` writes. -/
def escapeChar : Char → Option Char
  | 'n' => some '\n'
  | 't' => some '\t'
  | 'r' => some '\r'
  | 'v' => some (Char.ofNat 11)
  | 'b' => some (Char.ofNat 8)
  | 'f' => some (Char.ofNat 12)
  | 'a' => some (Char.ofNat 7)
  | '\\' => some '\\'
  | '"' => some '"'
  | _ => none

/-- The characters of a literal, in it or (`false`) between two adjacent ones. -/
def readLiteral : Bool → Text → Option Text
  | true, [] => some []
  | false, [] => none
  | true, '\\' :: c :: s => (escapeChar c).bind fun d => (readLiteral true s).map (d :: ·)
  | true, ['\\'] => none
  | true, '"' :: s => readLiteral false s
  | true, c :: s => if c = '\n' then none else (readLiteral true s).map (c :: ·)
  | false, '"' :: s => readLiteral true s
  | false, c :: s => if c = '\n' ∨ c = '\t' ∨ c = ' ' then readLiteral false s else none

/-! ## Values and variables -/

/-- The values of expressions and what can be done with them: the value of an expression from its
text and the values in it, what is printed, whether it holds, its elements; the truth of a condition
in C++ from its text and the values of the words in it. -/
structure Sem (V : Type*) where
  content : V
  expr : List (Text ⊕ V) → V
  int : ℕ → V
  print : V → Text
  truth : V → Bool
  elements : V → List V
  raw : Text → List (Option V) → Bool

/-- What a local variable holds: an element (by reference), a number, an iterator, or nothing yet.
-/
inductive Cell (V : Type*) where
  | element (v : V)
  | int (n : ℕ)
  | iterator (l : List V) (k : ℕ)
  | uninitialized

/-- The local variables, the innermost first. -/
abbrev Env (V : Type*) := List (Text × Cell V)

/-- The largest value of `int`. -/
def intMax : ℕ := 2147483647

/-- The reserved words of C++. -/
def keywords : List Text :=
  ["alignas", "alignof", "and", "and_eq", "asm", "auto", "bitand", "bitor", "bool", "break", "case",
    "catch", "char", "char16_t", "char32_t", "class", "compl", "const", "const_cast", "constexpr",
    "continue", "decltype", "default", "delete", "do", "double", "dynamic_cast", "else", "enum",
    "explicit", "export", "extern", "false", "float", "for", "friend", "goto", "if",
    "inline", "int", "long", "mutable", "namespace", "new", "noexcept", "not", "not_eq", "nullptr",
    "operator", "or", "or_eq", "private", "protected", "public", "register", "reinterpret_cast",
    "return", "short", "signed", "sizeof", "static", "static_assert", "static_cast", "struct",
    "switch", "template", "this", "thread_local", "throw", "true", "try", "typedef", "typeid",
    "typename", "union", "unsigned", "using", "virtual", "void", "volatile", "wchar_t", "while",
    "xor", "xor_eq"].map str

/-- The name of the iterator of a loop. -/
def ptr (ident : Text) : Text := ident ++ str "_ptr"

/-- The name of the end of a loop. -/
def ptrEnd (ident : Text) : Text := ident ++ str "_ptr_end"

/-- The words of a condition in C++. -/
def Unicode.identifiers (u : Unicode) (s : Text) : List Text := s.splitOnP fun c => !u.isWord c

section Eval

variable {V : Type*} (u : Unicode) (sem : Sem V)

/-- The values of names and of `content`. -/
structure Names (V : Type*) where
  name : Text → Option V
  content : Option V

variable (N : Names V)

/-- A token of an expression, with its name replaced by a value. -/
def Tok.value : Tok → Option (Text ⊕ V)
  | code s => some (.inl s)
  | name n => (N.name n).map .inr
  | content => N.content.map .inr

/-- The value of an expression. -/
def Expr.value (e : Expr) : Option V := (e.mapM (Tok.value N)).map sem.expr

/-- The truth of a condition. -/
def Condition.holds : Condition → Option Bool
  | expr e => (Expr.value sem N e).map sem.truth
  | raw s => some (sem.raw (pyStr s) ((u.identifiers (pyStr s)).map N.name))

/-- The elements of a sequence, in the order of the loop. -/
def sequence (reverse : Bool) (seq : Expr) : Option (List V) :=
  (Expr.value sem N seq).map fun v => if reverse then (sem.elements v).reverse else sem.elements v

end Eval

section Exec

variable {V : Type*} (u : Unicode) (sem : Sem V)

/-- The value that a variable stands for in an expression. -/
def Cell.value : Cell V → Option V
  | element v => some v
  | int n => some (sem.int n)
  | iterator _ _ => none
  | uninitialized => none

namespace Env

/-- The names as the emitted code sees them: local variables, and `content`, if it is not one of
them. -/
def names (ρ : Env V) : Names V where
  name n := (ρ.lookup n).bind (Cell.value sem)
  content := match ρ.lookup (str "content") with
    | none => some sem.content
    | some c => c.value sem

/-- The function `out` is not hidden. -/
def outVisible (ρ : Env V) : Bool := (ρ.lookup (str "out")).isNone

/-- A declaration. -/
def declare (ρ : Env V) (n : Text) (c : Cell V) : Option (Env V) :=
  if n ∈ keywords then none else some ((n, c) :: ρ)

/-- A new value for a variable. -/
def assign : Env V → Text → Cell V → Env V
  | [], _, _ => []
  | (m, d) :: ρ, n, c => if m = n then (m, c) :: ρ else (m, d) :: assign ρ n c

/-- `++n`. -/
def increment (ρ : Env V) (n : Text) : Option (Env V) :=
  match ρ.lookup n with
  | some (.int k) => if k < intMax then some (ρ.assign n (.int (k + 1))) else none
  | some (.iterator l k) => if k < l.length then some (ρ.assign n (.iterator l (k + 1))) else none
  | _ => none

/-- `++n`, if there is a name. -/
def incrementOpt (ρ : Env V) : Option Text → Option (Env V)
  | none => some ρ
  | some n => ρ.increment n

/-- The end of a block: its own variables go away. -/
def leave (ρ : Env V) (r : Env V × Text) : Env V × Text := (r.1.drop (r.1.length - ρ.length), r.2)

end Env

/-- The test of an `if`. -/
def Test.holds (ρ : Env V) : Test → Option Bool
  | condition c => c.holds u sem (ρ.names sem)
  | nonempty r s => (sequence sem (ρ.names sem) r s).map fun l => !l.isEmpty
  | notFirst i r s =>
    match ρ.lookup (ptr i), sequence sem (ρ.names sem) r s with
    | some (.iterator _ k), some _ => some (k ≠ 0)
    | _, _ => none

/-- The variables of a loop; the scope of each one starts before its own value. -/
def ForHead.enter (ρ : Env V) (h : ForHead) : Option (List V × Env V) :=
  (sequence sem (Env.names sem ((ptr h.ident, .uninitialized) :: ρ)) h.reverse h.seq).bind fun l =>
    let ρ := (ptr h.ident, .iterator l 0) :: ρ
    (sequence sem (Env.names sem ((ptrEnd h.ident, .uninitialized) :: ρ)) h.reverse h.seq).map
      fun l' =>
      (l, (ptrEnd h.ident, .iterator l' l'.length) :: ρ)

/-- The rounds of a loop, with a budget. -/
def ForHead.loop (h : ForHead) (body : Env V → Option (Env V × Text)) :
    ℕ → Env V → Option (Env V × Text)
  | 0, _ => none
  | n + 1, ρ =>
    match ρ.lookup (ptr h.ident), ρ.lookup (ptrEnd h.ident) with
    | some (.iterator _ k), some (.iterator _ k') =>
      if k = k' then some (ρ, [])
      else
        (body ρ).bind fun r =>
          (Env.increment (Env.leave ρ r).1 (ptr h.ident)).bind fun ρ =>
            (ρ.incrementOpt h.rowid).bind fun ρ =>
              (loop h body n ρ).map fun r' => (r'.1, r.2 ++ r'.2)
    | _, _ => none

mutual

/-- A statement: the variables afterwards and what has been written. -/
def Stmt.exec : Stmt → Env V → Option (Env V × Text)
  | .text s, ρ => if ρ.outVisible then (readLiteral true s).map fun t => (ρ, t) else none
  | .show' e, ρ =>
    if ρ.outVisible then (Expr.value sem (ρ.names sem) e).map fun v => (ρ, sem.print v) else none
  | .int n b, ρ => if b ≤ intMax then (ρ.declare n (.int b)).map fun ρ => (ρ, []) else none
  | .reference i, ρ =>
    match ρ.lookup (ptr i) with
    | some (.iterator l k) => l[k]?.bind fun v => (ρ.declare i (.element v)).map fun ρ => (ρ, [])
    | _ => none
  | .block ss, ρ => (execs ss ρ).map (Env.leave ρ)
  | .if' t ss es, ρ => (t.holds u sem ρ).bind fun b =>
    if b then (execs ss ρ).map (Env.leave ρ) else (execs es ρ).map (Env.leave ρ)
  | .for' h ss, ρ => (h.enter sem ρ).bind fun p =>
    (h.loop (execs ss) (p.1.length + 1) p.2).map (Env.leave ρ)

/-- A list of statements. -/
def execs : List Stmt → Env V → Option (Env V × Text)
  | [], ρ => some (ρ, [])
  | s :: ss, ρ => (s.exec ρ).bind fun r => (execs ss r.1).map fun r' => (r'.1, r.2 ++ r'.2)

end

/-- What a list of emitted lines does. -/
def execCode (cs : List Code) (ρ : Env V) : Option (Env V × Text) :=
  (parse (cs.flatMap Code.tokens)).bind fun ss => execs u sem ss ρ

end Exec

end Template

end Cppcms
