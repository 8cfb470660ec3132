import Cppcms.Template.Cpp
import Cppcms.Template.Steps

/-!
# Bodies of templates

The nested form of a template body: text, shown variables, chains of conditions, and sequences.  A
body is spelled by a list of chunks (`Spells`), and it has a meaning of its own, without any C++
(`Body.render`): text is written as it is, of a chain the first branch whose condition holds, and
for a sequence its empty part, or the part before its items, the items in their order with the
separator between them, and the part after them.

In the emitted code the names of a template live together with names that the compiler makes up.
`Body.fine` is the condition that no name is taken for another one, and `Body.rowsFit` that the row
numbers stay in the range of `int`.
-/

namespace Cppcms

namespace Template

mutual

/-- A body: parts one after the other. -/
inductive Body where
  | nil
  | cons (p : Part) (b : Body)

inductive Part where
  | text (s : Text)
  | show' (deprecated : Bool) (s : Text)
  | if' (c : IfCondition) (b : Body) (rest : Branches)
  /-- `foreach`, the part before the items, the separator, `item`, its `end`, the part after the
  items, the empty part, `end` -/
  | foreach (h : ForeachHead) (pre : Body) (separator : OptBody) (item : Body)
      (endItem : Option Text)
      (post : Body) (empty : OptBody) (endName : Option Text)

/-- What comes after the first branch of a condition. -/
inductive Branches where
  | end' (name : Option Text)
  | else' (b : Body) (name : Option Text)
  | elif (c : IfCondition) (b : Body) (rest : Branches)

/-- A part of a sequence that may be left out. -/
inductive OptBody where
  | none
  | some (b : Body)

end

/-! ## Spelling -/

/-- What a chunk stands for. -/
inductive Item where
  | text (s : Text)
  | command (c : Command)

mutual

def Body.items : Body → List Item
  | .nil => []
  | .cons p b => p.items ++ b.items

def Part.items : Part → List Item
  | .text s => [.text s]
  | .show' d s => [.command (.filtersShow d s)]
  | .if' c b rest => .command (.if' c) :: (b.items ++ rest.items)
  | .foreach h pre separator item endItem post empty endName =>
    .command (.foreach h) :: (pre.items ++ (separator.items .separator ++ (.command .item ::
      (item.items ++ (.command (.end' endItem) :: (post.items ++ (empty.items .empty ++
        [.command (.end' endName)])))))))

def Branches.items : Branches → List Item
  | .end' name => [.command (.end' name)]
  | .else' b name => .command .else' :: (b.items ++ [.command (.end' name)])
  | .elif c b rest => .command (.elif c) :: (b.items ++ rest.items)

/-- The items of an optional part, with the command in front of it. -/
def OptBody.items (c : Command) : OptBody → List Item
  | .none => []
  | .some b => .command c :: b.items

end

/-- The chunks of a body.  Empty chunks stand for nothing. -/
inductive Spells (u : Unicode) : List Event → List Item → Prop
  | nil : Spells u [] []
  | skip {n : ℕ} {es : List Event} {is : List Item} (h : Spells u es is) :
      Spells u (.chunk n [] :: es) is
  | text {n : ℕ} {x : Text} {es : List Event} {is : List Item} (hx : x ≠ [])
      (hparse : Command.parse u x = .text) (h : Spells u es is) :
      Spells u (.chunk n x :: es) (.text x :: is)
  | command {n : ℕ} {x : Text} {c : Command} {es : List Event} {is : List Item} (hx : x ≠ [])
      (hparse : Command.parse u x = .command c) (h : Spells u es is) :
      Spells u (.chunk n x :: es) (.command c :: is)

/-! ## Rendering -/

/-- The expression of a condition, for the names in scope. -/
def conditionOf (u : Unicode) (names : List Text) : IfCondition → Option Condition
  | .raw s => some (.raw s)
  | .var not v =>
    let ident := if v = str "rtl" then
      some (Expr.ofString "(cppcms::locale::translate(\"LTR\").str(out().getloc())==\"RTL\")")
      else makeIdent u names v
    ident.map fun e =>
      if truthy not then
        let g := not.getD []
        let e := if (pyMatch (Regex.seq (Regex.star dot) (lit "empty")) g).isSome then
          e ++ Expr.ofString ".empty()" else e
        let e := if (pyMatch (Regex.seq (lit "not") (Regex.star dot)) g).isSome then
          Expr.ofString "!(" ++ e ++ Expr.ofString ")" else e
        .expr e
      else .expr e

/-- The condition of the compiler and the one of the template. -/
lemma condition_eq (cfg : Config) (st : State) (c : IfCondition) :
    condition cfg st c = conditionOf cfg.unicode st.tmplSeq c := by
  cases c <;> rfl

section Render

variable {V : Type*} (u : Unicode) (filter : Expr) (sem : Sem V)

/-- The values of the names of a template. -/
abbrev Values (V : Type*) := List (Text × V)

/-- The names as the template means them. -/
def Values.names (σ : Values V) : Names V := ⟨fun n => σ.lookup n, some sem.content⟩

/-- The value of a shown variable. -/
def renderShow (names : List Text) (σ : Values V) (s : Text) : Option Text :=
  match prepare u ⟨names, filter⟩ none s with
  | some ([], .expr e) => (Expr.value sem (σ.names sem) e).map sem.print
  | _ => none

/-- The first row number. -/
def ForeachHead.start (h : ForeachHead) : ℕ := u.int (h.rowidBegin.getD [])

/-- The values with the row number of the `k`-th element. -/
def ForeachHead.row (h : ForeachHead) (k : ℕ) (σ : Values V) : Values V :=
  (h.rowid.map fun r => (r, sem.int (h.start u + k))).toList ++ σ

/-- The items of a sequence from the `k`-th element on, each one but the first after the separator.
-/
def renderItems (separator item : ℕ → V → Option Text) : ℕ → List V → Option Text
  | _, [] => some []
  | k, v :: l =>
    (if k = 0 then some [] else separator k v).bind fun a =>
      (item k v).bind fun b => (renderItems separator item (k + 1) l).map fun t => a ++ b ++ t

mutual

def Body.render : Body → List Text → Values V → Option Text
  | .nil, _, _ => some []
  | .cons p b, names, σ => (p.render names σ).bind fun s => (b.render names σ).map (s ++ ·)

def Part.render : Part → List Text → Values V → Option Text
  | .text s, _, _ => some s
  | .show' _ s, names, σ => renderShow u filter sem names σ s
  | .if' c b rest, names, σ =>
    ((conditionOf u names c).bind fun c => c.holds u sem (σ.names sem)).bind fun t =>
      if t then b.render names σ else rest.render names σ
  | .foreach h pre separator item _ post empty _, names, σ =>
    ((makeIdent u names h.seq).bind fun e => sequence sem (σ.names sem) h.reverse e).bind fun l =>
      let names := insertNames names h.ident h.rowid
      if l.isEmpty then empty.render names σ
      else
        (pre.render names (h.row u sem 0 σ)).bind fun a =>
          (renderItems (fun k v => separator.render names ((h.ident, v) :: h.row u sem k σ))
            (fun k v => item.render names ((h.ident, v) :: h.row u sem k σ)) 0 l).bind fun b =>
              (post.render names (h.row u sem l.length σ)).map fun c => a ++ b ++ c

def Branches.render : Branches → List Text → Values V → Option Text
  | .end' _, _, _ => some []
  | .else' b _, names, σ => b.render names σ
  | .elif c b rest, names, σ =>
    ((conditionOf u names c).bind fun c => c.holds u sem (σ.names sem)).bind fun t =>
      if t then b.render names σ else rest.render names σ

def OptBody.render : OptBody → List Text → Values V → Option Text
  | .none, _, _ => some []
  | .some b, names, σ => b.render names σ

end

end Render

/-! ## Names that are not taken for others -/

/-- The local variables in scope, the innermost first; `true` for those that the compiler makes up.
-/
abbrev Locals := List (Text × Bool)

namespace Locals

/-- The name means a name of the template, if it is in scope at all. -/
def visible (L : Locals) (n : Text) : Bool := L.lookup n != some true

/-- The name means no local variable. -/
def free (L : Locals) (n : Text) : Bool := (L.lookup n).isNone

/-- The names of an expression mean what the template means. -/
def clear (L : Locals) (e : Expr) : Bool := e.all fun
  | .code _ => true
  | .name n => L.visible n
  | .content => L.free (str "content")

/-- The names of a condition mean what the template means. -/
def clearCondition (u : Unicode) (L : Locals) : Condition → Bool
  | .expr e => L.clear e
  | .raw s => (u.identifiers (pyStr s)).all L.visible

end Locals

/-- The locals with the row number. -/
def ForeachHead.rowLocals (h : ForeachHead) (L : Locals) : Locals :=
  (h.rowid.map fun r => (r, false)).toList ++ L

/-- The locals in the loop. -/
def ForeachHead.loopLocals (h : ForeachHead) (L : Locals) : Locals :=
  (h.ident, false) :: (ptrEnd h.ident, true) :: (ptr h.ident, true) :: h.rowLocals L

/-- The names of a sequence can be declared, and the row number is not taken for the iterator. -/
def ForeachHead.fine (h : ForeachHead) : Bool :=
  h.ident ∉ keywords && h.rowid.all fun r => r ∉ keywords && r ≠ ptr h.ident && r ≠ ptrEnd h.ident

/-- The characters of a text that are written as they are: no control character but newline and tab.
A carriage return does not get beyond `readText`. -/
def plainChar (c : Char) : Bool := 32 ≤ c.toNat || c = '\n' || c = '\t'

section Fine

variable (u : Unicode) (filter : Expr)

mutual

/-- No name is taken for another one. -/
def Body.fine : Body → List Text → Locals → Bool
  | .nil, _, _ => true
  | .cons p b, names, L => p.fine names L && b.fine names L

def Part.fine : Part → List Text → Locals → Bool
  | .text s, _, L => s.all plainChar && L.free (str "out")
  | .show' _ s, names, L => L.free (str "out") && match prepare u ⟨names, filter⟩ none s with
    | some ([], .expr e) => L.clear e
    | _ => true
  | .if' c b rest, names, L =>
    (conditionOf u names c).all (L.clearCondition u) && b.fine names L && rest.fine names L
  | .foreach h pre separator item _ post empty _, names, L =>
    h.fine && (makeIdent u names h.seq).all (h.loopLocals L).clear &&
      let names := insertNames names h.ident h.rowid
      pre.fine names (h.rowLocals L) && separator.fine names (h.loopLocals L) &&
        item.fine names (h.loopLocals L) && post.fine names (h.rowLocals L) && empty.fine names L

def Branches.fine : Branches → List Text → Locals → Bool
  | .end' _, _, _ => true
  | .else' b _, names, L => b.fine names L
  | .elif c b rest, names, L =>
    (conditionOf u names c).all (L.clearCondition u) && b.fine names L && rest.fine names L

def OptBody.fine : OptBody → List Text → Locals → Bool
  | .none, _, _ => true
  | .some b, names, L => b.fine names L

end

end Fine

/-! ## Row numbers -/

section Rows

variable {V : Type*} (u : Unicode) (sem : Sem V)

mutual

/-- The row numbers that occur stay in the range of `int`. -/
def Body.rowsFit : Body → List Text → Values V → Prop
  | .nil, _, _ => True
  | .cons p b, names, σ => p.rowsFit names σ ∧ b.rowsFit names σ

def Part.rowsFit : Part → List Text → Values V → Prop
  | .text _, _, _ => True
  | .show' _ _, _, _ => True
  | .if' c b rest, names, σ =>
    match (conditionOf u names c).bind fun c => c.holds u sem (σ.names sem) with
    | none => True
    | some t => if t then b.rowsFit names σ else rest.rowsFit names σ
  | .foreach h pre separator item _ post empty _, names, σ =>
    match (makeIdent u names h.seq).bind fun e => sequence sem (σ.names sem) h.reverse e with
    | none => True
    | some l =>
      let names := insertNames names h.ident h.rowid
      if l.isEmpty then empty.rowsFit names σ
      else
        (h.rowid ≠ none → h.start u + l.length ≤ intMax) ∧ pre.rowsFit names (h.row u sem 0 σ) ∧
          (∀ k v, l[k]? = some v →
            (k ≠ 0 → separator.rowsFit names ((h.ident, v) :: h.row u sem k σ)) ∧
              item.rowsFit names ((h.ident, v) :: h.row u sem k σ)) ∧
          post.rowsFit names (h.row u sem l.length σ)

def Branches.rowsFit : Branches → List Text → Values V → Prop
  | .end' _, _, _ => True
  | .else' b _, names, σ => b.rowsFit names σ
  | .elif c b rest, names, σ =>
    match (conditionOf u names c).bind fun c => c.holds u sem (σ.names sem) with
    | none => True
    | some t => if t then b.rowsFit names σ else rest.rowsFit names σ

def OptBody.rowsFit : OptBody → List Text → Values V → Prop
  | .none, _, _ => True
  | .some b, names, σ => b.rowsFit names σ

end

end Rows

end Template

end Cppcms
