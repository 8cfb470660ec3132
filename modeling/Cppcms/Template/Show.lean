import Cppcms.Template.Output

/-!
# Variables and filters

`make_ident`, the class `base_show` and `make_format_params` of `bin/cppcms_tmpl_cc`: how a variable
with its filters becomes a C++ expression.

The functions read two globals, the names of the template in scope and the filter in force
(`Scope`), and report errors.  Here they return the messages of the errors with their result; `none`
stands for an exception of the compiler, where Python takes a group of a match that failed.
-/

namespace Cppcms

namespace Template

open Regex

/-- `re.match`. -/
def pyMatch (r : Regex Char) (s : Text) : Option (Captures Char) := (r.matchPrefix s).map Prod.snd

/-- A group in a condition: it took part in the match and is not empty. -/
def truthy (g : Option Text) : Bool := g.getD [] ≠ []

@[simp] lemma truthy_none : truthy none = false := rfl

lemma truthy_some {w : Text} (h : w ≠ []) : truthy (some w) = true := by
  simpa [truthy] using h

/-- The globals `tmpl_seq` and `scope_filter`. -/
structure Scope where
  tmplSeq : List Text
  scopeFilter : Expr
  deriving DecidableEq, Repr

variable (u : Unicode)

/-- `make_ident`. -/
def makeIdent (tmplSeq : List Text) (val : Text) : Option Expr :=
  match pyMatch (seq (variableMatch u 1) atEnd) val with
  | none => none
  | some m =>
    let head := (m.get 1).getD []
    if head ∈ tmplSeq then
      match val with
      | '*' :: rest => some [.code ['*'], .name head, .code (rest.drop head.length)]
      | _ => some [.name head, .code (val.drop head.length)]
    else
      match pyMatch (cat [lit "*", group 1 (star dot), atEnd]) val with
      | some m2 => some [.code ['*'], .content, .code ('.' :: (m2.get 1).getD [])]
      | none => some [.content, .code ('.' :: val)]

/-- The parameter in the groups of a match in `base_show.get_params`. -/
def paramOfGroups (tmplSeq : List Text) (var string number : Option Text) : Option (List Expr) :=
  if truthy var then (makeIdent u tmplSeq (var.getD [])).map fun e => [e]
  else if truthy string then some [[.code (string.getD [])]]
  else if truthy number then some [[.code (number.getD [])]]
  else some []

/-- `base_show.get_params`, with a budget of rounds: the errors and the parameters. -/
def getParamsLoop (tmplSeq : List Text) : ℕ → Text → List Expr → Option (List Text × List Expr)
  | 0, _, _ => none
  | n + 1, s, res =>
    match pyMatch (getParamsPattern u) s with
    | none => some ([str "Invalid parameters: `" ++ s ++ str "'"], [])
    | some m =>
      match paramOfGroups u tmplSeq (m.get 2) (m.get 8) (m.get 10) with
      | none => none
      | some es =>
        if truthy (m.get 13) then getParamsLoop tmplSeq n ((m.get 13).getD []) (res ++ es)
        else some ([], res ++ es)

/-- `base_show.get_params`. -/
def getParams (tmplSeq : List Text) (s : Text) : Option (List Text × List Expr) :=
  getParamsLoop u tmplSeq (s.length + 1) s []

/-- The result of `base_show.prepare`: an expression, the empty string, or the empty list. -/
inductive Prepared where
  | expr (e : Expr)
  | failed
  | noVariable
  deriving DecidableEq, Repr

/-- The function of a filter. -/
def filterFunction (ext : Option Text) (name : Text) : Expr :=
  if truthy ext then [.content, .code ('.' :: name)] else [.code (str "cppcms::filters::" ++ name)]

/-- A function applied to arguments. -/
def call (func : Expr) (args : List Expr) : Expr :=
  func ++ Expr.ofString "(" ++ Expr.join "," args ++ Expr.ofString ")"

/-- The loop over the filters in `base_show.prepare`, with a budget of rounds. -/
def prepareLoop (tmplSeq : List Text) : ℕ → Text → Expr → Option (List Text × Prepared)
  | 0, _, _ => none
  | n + 1, filters, var =>
    match pyMatch (filterExpr u) filters with
    | none => some ([str "Seems to be a problem in expression " ++ filters], .failed)
    | some m =>
      let func := filterFunction (m.get 1) ((m.get 2).getD [])
      let params : Option (List Text × List Expr) :=
        if truthy (m.get 3) then getParams u tmplSeq ((m.get 4).getD []) else some ([], [])
      match params with
      | none => none
      | some (errors, es) =>
        let var := call func (var :: es)
        if truthy (m.get 8) then
          (prepareLoop tmplSeq n ((m.get 8).getD []) var).map fun q => (errors ++ q.1, q.2)
        else some (errors, .expr var)

/-- `base_show.prepare`; `get_filter` takes the filter in force if there is no default. -/
def prepare (scope : Scope) (defaultFilter : Option Expr) (s : Text) :
    Option (List Text × Prepared) :=
  match pyMatch (basePattern u) s with
  | none => some ([str "No variable"], .noVariable)
  | some m =>
    match makeIdent u scope.tmplSeq ((m.get 1).getD []) with
    | none => none
    | some var =>
      if truthy (m.get 8) then
        prepareLoop u scope.tmplSeq (((m.get 8).getD []).length + 1) ((m.get 8).getD []) var
      else some ([], .expr (call (defaultFilter.getD scope.scopeFilter) [var]))

/-- The loop of `make_format_params`, with a budget of rounds. -/
def formatParamsLoop (scope : Scope) (defaultFilter : Option Expr) :
    ℕ → Text → List Expr → Option (List Text × List Expr)
  | 0, _, _ => none
  | n + 1, s, params =>
    match pyMatch formatParamsPattern s with
    | none => none
    | some m =>
      match prepare u scope defaultFilter ((m.get 1).getD []) with
      | none => none
      | some (errors, res) =>
        let params := params ++ (match res with
          | .expr e => [e]
          | _ => [])
        if truthy (m.get 6) then
          (formatParamsLoop scope defaultFilter n ((m.get 7).getD []) params).map fun q =>
            (errors ++ q.1, q.2)
        else some (errors, params)

/-- `make_format_params`. -/
def makeFormatParams (scope : Scope) (s : Text) (defaultFilter : Option Expr) :
    Option (List Text × List Expr) :=
  formatParamsLoop u scope defaultFilter (s.length + 1) s []

end Template

end Cppcms
