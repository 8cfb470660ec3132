import Cppcms.Template.Show

/-!
# Commands

The commands of `bin/cppcms_tmpl_cc` with the data that their patterns capture, and how a chunk of a
file is recognized: the classes are tried in the order of the main loop, by a basic pattern first
and then, once the class is chosen, by the pattern of its arguments.
-/

namespace Cppcms

namespace Template

open Regex

/-! ## Commands -/

/-- The condition of an `if`, as the groups of its pattern: the words before the variable and the
variable, or the text in parentheses. -/
inductive IfCondition where
  | var (not : Option Text) (var : Text)
  | raw (s : Option Text)
  deriving DecidableEq, Repr

/-- The head of a `foreach`. -/
structure ForeachHead where
  ident : Text
  typeName : Option Text
  rowid : Option Text
  /-- the digits after `from` -/
  rowidBegin : Option Text
  reverse : Bool
  seq : Text
  deriving DecidableEq, Repr

/-- A string or a variable. -/
inductive StrOrVar where
  | str (s : Text)
  | var (v : Text)
  deriving DecidableEq, Repr

/-- The template and the view of a `render` or of a `using ... from`. -/
structure RenderNames where
  fst : StrOrVar
  snd : Option StrOrVar
  deriving DecidableEq, Repr

/-- The forms of `csrf`. -/
inductive Csrf where
  | input
  | token
  | cookie
  | script
  deriving DecidableEq, Repr

/-- A command with what its pattern captures. -/
inductive Command where
  | skin (name : Option Text)
  | view (name uses : Text) (extends' : Option Text) (abstract inline : Bool)
  | template (name params : Text) (abstract : Bool)
  | end' (name : Option Text)
  | if' (cond : IfCondition)
  | elif (cond : IfCondition)
  | else'
  | cppInclude (src : Bool) (s : Text)
  | gettext (message : Text) (params : Option Text)
  | ngettext (message plural ident : Text) (params : Option Text)
  | url (s : Text) (params : Option Text)
  | foreach (h : ForeachHead)
  | item
  | empty
  | separator
  | include' (call : Text) (params : Text) (from' : Option Text) (class' content : Option Text)
  | cache (parameter : StrOrVar) (timeout callback : Option Text) (notriggers norecording : Bool)
  | trigger (parameter : StrOrVar)
  | filter (ext : Option Text) (name : Text)
  | using' (class' : Text) (content : Option Text) (name : Text) (from' : Option RenderNames)
  | render (names : RenderNames) (content : Option Text)
  | html (xhtml : Bool)
  | form (type ident : Text)
  | csrf (type : Csrf)
  | domain (name : Text)
  | filtersShow (deprecated : Bool) (s : Text)
  | error (s : Text)
  deriving DecidableEq, Repr

namespace Command

/-- A string or a variable from two groups. -/
def strOrVar (m : Captures Char) (i j : ℕ) : StrOrVar :=
  if truthy (m.get i) then .str ((m.get i).getD []) else .var ((m.get j).getD [])

/-- The template and the view from the four groups of their names. -/
def renderNames (m : Captures Char) (fstStr fstVar sndStr sndVar : ℕ) : RenderNames where
  fst := if truthy (m.get fstVar) then .var ((m.get fstVar).getD [])
    else .str ((m.get fstStr).getD [])
  snd := if truthy (m.get sndVar) then (m.get sndVar).map .var else (m.get sndStr).map .str

/-- The condition of an `if`. -/
def ifCondition (m : Captures Char) : IfCondition :=
  if truthy (m.get 4) then .var (m.get 3) ((m.get 4).getD []) else .raw (m.get 10)

/-- A class: its name, its `basic_pattern`, its pattern, and its command for a match. -/
structure Class where
  basicName : String
  basicPattern : Regex Char
  pattern : Regex Char
  make : Captures Char → Command

variable (u : Unicode)

/-- The classes, in the order in which the main loop tries them. -/
def classes : List Class :=
  [⟨"skin", lit "skin", skinPattern u, fun m => .skin (m.get 1)⟩,
   ⟨"view", lit "view", viewPattern u, fun m => .view ((m.get 1).getD []) ((m.get 2).getD [])
      (if truthy (m.get 4) then m.get 5 else none) (m.get 7).isSome (m.get 8).isSome⟩,
   ⟨"template", lit "template", templatePattern u, fun m => .template ((m.get 1).getD [])
      ((m.get 2).getD []) (m.get 3).isSome⟩,
   ⟨"end", lit "end", endPattern u, fun m => .end' (if truthy (m.get 1) then m.get 2 else none)⟩,
   ⟨"if/elif", alt (lit "if") (lit "elif"), ifPattern u, fun m =>
      if m.get 1 = some (str "if") then .if' (ifCondition m) else .elif (ifCondition m)⟩,
   ⟨"else", lit "else", elsePattern u, fun _ => .else'⟩,
   ⟨"c++", seq (lit "c++") (opt (lit "src")), cppIncludePattern u, fun m =>
      .cppInclude (truthy (m.get 1)) ((m.get 2).getD [])⟩,
   ⟨"gt", lit "gt", gettextPattern u, fun m => .gettext ((m.get 1).getD [])
      (if truthy (m.get 4) then m.get 5 else none)⟩,
   ⟨"ngt", lit "ngt", ngettextPattern u, fun m => .ngettext ((m.get 1).getD []) ((m.get 4).getD [])
      ((m.get 6).getD []) (if truthy (m.get 12) then m.get 13 else none)⟩,
   ⟨"url", lit "url", urlPattern u, fun m => .url ((m.get 1).getD [])
      (if truthy (m.get 3) then m.get 4 else none)⟩,
   ⟨"foreach", lit "foreach", foreachPattern u, fun m => .foreach
      ⟨(m.get 1).getD [], m.get 3, m.get 6, m.get 7, truthy (m.get 8), (m.get 9).getD []⟩⟩,
   ⟨"item", lit "item", itemPattern u, fun _ => .item⟩,
   ⟨"empty", lit "empty", emptyPattern u, fun _ => .empty⟩,
   ⟨"separator", lit "separator", separatorPattern u, fun _ => .separator⟩,
   ⟨"include", lit "include", includePattern u, fun m => .include' ((m.get 1).getD [])
      ((m.get 3).getD []) (m.get 5) (m.get 6) (m.get 9)⟩,
   ⟨"cache", lit "cache", cachePattern u, fun m => .cache (strOrVar m 2 4) (m.get 11) (m.get 13)
      (truthy (m.get 14)) (truthy (m.get 15))⟩,
   ⟨"trigger", lit "trigger", triggerPattern u, fun m => .trigger (strOrVar m 2 4)⟩,
   ⟨"filter", lit "filter", filterPattern u, fun m => .filter (m.get 1) ((m.get 2).getD [])⟩,
   ⟨"using", lit "using", usingPattern u, fun m => .using' ((m.get 1).getD []) (m.get 2)
      ((m.get 8).getD []) (if truthy (m.get 9) then some (renderNames m 11 13 21 23) else none)⟩,
   ⟨"render", lit "render", renderPattern u, fun m => .render (renderNames m 2 4 12 14) (m.get 21)⟩,
   ⟨"xhtml", seq (opt (lit "x")) (lit "html"), htmlPattern u, fun m => .html (truthy (m.get 1))⟩,
   ⟨"form", lit "form", formPattern u, fun m => .form ((m.get 1).getD []) ((m.get 2).getD [])⟩,
   ⟨"csrf", lit "csrf", csrfPattern u, fun m => .csrf
      (if !truthy (m.get 2) then .input else if m.get 2 = some (str "token") then .token
        else if m.get 2 = some (str "cookie") then .cookie else .script)⟩,
   ⟨"domain", lit "domain", domainPattern u, fun m => .domain ((m.get 1).getD [])⟩,
   ⟨"Inline Variable", opt (lit "="), filtersShowPattern u, fun m =>
      .filtersShow (!truthy (m.get 1)) ((m.get 2).getD [])⟩,
   ⟨"", Regex.empty, errorPattern, fun m => .error ((m.get 1).getD [])⟩]

/-- What a chunk is: text, a command, or a command with a syntax error. -/
inductive Parsed where
  | text
  | command (c : Command)
  | syntaxError (basicName : String)
  deriving DecidableEq, Repr

/-- The inner loop of the main loop: the first class whose basic pattern matches decides. -/
def parse (x : Text) : Parsed :=
  match (classes u).find? fun c => (pyMatch (basic u c.basicPattern) x).isSome with
  | none => .text
  | some c =>
    match pyMatch c.pattern x with
    | none => .syntaxError c.basicName
    | some m => .command (c.make m)

end Command

end Template

end Cppcms
