import Cppcms.Template.Command

/-!
# The template compiler

The blocks of `bin/cppcms_tmpl_cc` and its main loop.  The compiler reads the chunks of a file one
by one and lets the class of a command act on the globals (`State`).  Blocks that are open stand on
a stack; `end` takes the block on top away and lets it write its end.

A function returns `none` where the Python code stops with an exception.  Such a run is not
accepted, and neither is one that set `exit_flag`.
-/

namespace Cppcms

namespace Template

open Regex Fragment

/-! ## State -/

/-- The options of a run. -/
structure Config where
  unicode : Unicode
  inlineTemplates : Bool
  dllApi : Text
  writeLoader : Bool
  unsafeBuild : Bool

/-- A view for the loader. -/
structure ClassInfo where
  contentName : Text
  name : Text
  namespaceName : Option Text
  deriving DecidableEq, Repr

/-- The attributes of a `foreach_block`. -/
structure Foreach where
  ident : Text
  typeName : Option Text
  rowid : Option Text
  reverse : Bool
  seqName : Expr
  hasItem : Bool := false
  hasSeparator : Bool := false
  deriving DecidableEq, Repr

/-- An open block. -/
inductive Block where
  | skin
  | view (className : Text)
  | template (name : Text)
  | using'
  | foreach (f : Foreach)
  | item
  | empty (ident : Text) (rowid : Option Text)
  | else'
  | if' (elif : Bool)
  | form (ident : Expr)
  | filter (saveFilter : Expr)
  | cache (parameter : Expr) (timeout : Option Text) (notriggers norecording : Bool)
  deriving DecidableEq, Repr

/-- The attribute `type`. -/
def Block.type : Block → Text
  | skin => str "skin"
  | view _ => str "view"
  | template _ => str "template"
  | using' => str "using"
  | foreach _ => str "foreach"
  | item => str "item"
  | empty _ _ => str "empty"
  | else' => str "else"
  | if' elif => if elif then str "elif" else str "if"
  | form _ => str "form"
  | filter _ => str "filter"
  | cache _ _ _ _ => str "cache"

/-- The filter in force outside of filter blocks. -/
def escapeFilter : Expr := Expr.ofString "cppcms::filters::escape"

/-- The globals.  The top of the stack is the head of the list; `namespaceName` is `none` for
`None`. -/
structure State where
  stack : List Block := []
  tmplSeq : List Text := []
  /-- the class attribute of `template_block` -/
  plist : List Text := []
  exitFlag : Bool := false
  stderr : List Text := []
  scopeFilter : Expr := escapeFilter
  namespaceName : Option Text := some []
  declarations : List Line := []
  definitions : List Line := []
  /-- `inline_cpp_to` is `output_template` -/
  inlineCppToTemplate : Bool := false
  ignoreInline : Bool := true
  xhtml : Bool := false
  specGettext : Text := []
  viewCreated : Bool := false
  viewName : Text := []
  classList : List ClassInfo := []
  fileName : Text := []
  lineNumber : ℕ := 0

variable (cfg : Config)

namespace State

/-- A message with its place. -/
def message (st : State) (kind : String) (x : Text) : Text :=
  str kind ++ x ++ str " in file " ++ st.fileName ++ str ", line " ++
    natText st.lineNumber ++ str "\n"

/-- `error_exit`. -/
def errorExit (st : State) (x : Text) : State :=
  { st with exitFlag := true, stderr := st.stderr ++ [st.message "Error: " x] }

/-- Several errors, one after the other. -/
def errors (st : State) (xs : List Text) : State := xs.foldl errorExit st

/-- `warning`. -/
def warning (st : State) (x : Text) : State :=
  { st with stderr := st.stderr ++ [st.message "Warning: " x] }

/-- `output_declaration`. -/
def outputDeclaration (st : State) (c : Code) : State :=
  { st with declarations := st.declarations ++ [⟨st.stack.length, st.lineNumber, st.fileName, c⟩] }

/-- `output_definition`. -/
def outputDefinition (st : State) (c : Code) : State :=
  { st with definitions :=
    st.definitions ++ [⟨st.stack.length - 1, st.lineNumber, st.fileName, c⟩] }

/-- `output_all`. -/
def outputAll (st : State) (c : Code) : State := (st.outputDefinition c).outputDeclaration c

/-- `output_template`. -/
def outputTemplate (st : State) (c : Code) : State :=
  if cfg.inlineTemplates then st.outputDeclaration c else st.outputDefinition c

/-- Several lines to one output. -/
def outputs (st : State) (out : State → Code → State) (cs : List Code) : State := cs.foldl out st

/-- `stack.append`. -/
def push (st : State) (b : Block) : State := { st with stack := b :: st.stack }

/-- `tmpl_seq[key] = ''`. -/
def addName (st : State) (key : Text) : State :=
  { st with tmplSeq := if key ∈ st.tmplSeq then st.tmplSeq else key :: st.tmplSeq }

/-- `del tmpl_seq[key]`. -/
def delName (st : State) (key : Text) : Option State :=
  if key ∈ st.tmplSeq then some { st with tmplSeq := st.tmplSeq.erase key } else none

/-- `del tmpl_seq[key]`, if there is a key. -/
def delNameOpt (st : State) : Option Text → Option State
  | none => some st
  | some key => st.delName key

/-- The globals that `base_show` reads. -/
def scope (st : State) : Scope := ⟨st.tmplSeq, st.scopeFilter⟩

/-- `make_ident`. -/
def ident (st : State) (val : Text) : Option Expr := makeIdent cfg.unicode st.tmplSeq val

end State

open State

/-- `"%03o" % ord(c)`. -/
def octal (c : Char) : Text :=
  [c.toNat / 64 % 8, c.toNat / 8 % 8, c.toNat % 8].map fun d => Char.ofNat (d + 48)

/-- One character of `to_string`; `n` is the height of the stack. -/
def charToString (n : ℕ) (c : Char) : Text :=
  if c = '\n' then str "\\n\"\n" ++ List.replicate n '\t' ++ str "\t\""
  else if c = '\t' then str "\\t"
  else if c.toNat = 11 then str "\\v"
  else if c.toNat = 8 then str "\\b"
  else if c = '\r' then str "\\r"
  else if c.toNat = 12 then str "\\f"
  else if c.toNat = 7 then str "\\a"
  else if c = '\\' then str "\\\\"
  else if c = '"' then str "\\\""
  else if 0 < c.toNat ∧ c.toNat < 32 then octal c
  else [c]

/-- `to_string`. -/
def toString' (n : ℕ) (s : Text) : Text := s.flatMap (charToString n)

/-- `inline_content`. -/
def inlineContent (st : State) (s : Text) : State :=
  if st.ignoreInline then st else st.outputTemplate cfg (.text (toString' st.stack.length s))

/-! ## Skins, views and templates -/

/-- `skin_block.use`. -/
def useSkin (st : State) (name : Option Text) : Option State :=
  let st := { st with inlineCppToTemplate := false }
  if st.namespaceName = some [] ∧ name = some [] then none
  else
    let st :=
      if st.namespaceName = some [] then { st with namespaceName := name }
      else if st.namespaceName ≠ name ∧ truthy name then
        st.errorExit (str "Can't use more then one skin name for same skin: " ++
          pyStr st.namespaceName ++ str ", " ++ pyStr name)
      else st
    some ((st.outputAll (.line [ofString "namespace ", user (pyStr st.namespaceName), ofString " ",
      opening .skin])).push .skin)

/-- `skin_block.on_end`. -/
def endSkin (st : State) : State :=
  st.outputAll (.line [closing .skin, ofString " // end of namespace ",
    user (pyStr st.namespaceName)])

/-- The lines of `view_block.declare`; `domain` is the gettext domain. -/
def viewDeclarations (domain className uses : Text) (extends' : Option Text) (inline : Bool) :
    List Code :=
  let base := extends'.getD (str "cppcms::base_view")
  let constructor' : List Fragment := match extends' with
    | none => [ofString "cppcms::base_view(_s)"]
    | some e => [user e, ofString "(_s,_content)"]
  let api := if inline then [] else cfg.dllApi
  let head : List Code :=
    [.line [ofString "struct ", code api, ofString " ", user className,
      ofString " :public ", user base],
     .line [opening .view]]
  let signature : List Code :=
    if uses ≠ [] then
      [.line [ofString "\t", user uses, ofString " &content;"],
       .line ([ofString "\t", user className, ofString "(std::ostream &_s,", user uses,
         ofString " &_content): "] ++ constructor' ++
           [ofString ",content(_content),_domain_id(0)"])]
    else
      [.line ([ofString "\t", user className, ofString "(std::ostream &_s): "] ++ constructor' ++
        [ofString ",_domain_id(0)"])]
  let body : List Code :=
    [.line [ofString "\t", opening .constructor],
     if domain ≠ [] then
       .line [ofString "\t\t_domain_id=cppcms::translation_domain_scope::domain_id(_s,\"",
         user domain, ofString "\");"]
     else .line [ofString "\t\t_domain_id=booster::locale::ios_info::get(_s).domain_id();"],
     .line [ofString "\t", closing .constructor]]
  head ++ signature ++ body

/-- `view_block.declare`. -/
def declareView (st : State) (className uses : Text) (extends' : Option Text) (inline : Bool) :
    State :=
  st.outputs outputDeclaration (viewDeclarations cfg st.specGettext className uses extends' inline)

/-- `view_block.use`. -/
def useView (st : State) (name uses : Text) (extends' : Option Text) (abstract inline : Bool) :
    State :=
  let st := { st with viewCreated := true, viewName := name }
  let st := declareView cfg st name uses extends' inline
  let st := if st.stack = [.skin] then st
    else st.errorExit (str "You must define view inside skin block only")
  let st := st.push (.view name)
  if abstract then st
  else { st with classList := st.classList ++ [⟨uses, name, st.namespaceName⟩] }

/-- `view_block.on_end`. -/
def endView (st : State) (className : Text) : State :=
  st.outputs outputDeclaration [.line [ofString "private:"], .line [ofString "\tint _domain_id;"],
    .line [closing .view, ofString "; // end of class ", user className]]

/-- `del tmpl_seq[v]` for every name in the list. -/
def delNames (st : State) : List Text → Option State
  | [] => some st
  | v :: vs =>
    match st.delName v with
    | none => none
    | some st => delNames st vs

/-- The loop of `template_block.create_parameters`, with a budget of rounds: the state and the
parameters, or the empty string, or `None`. -/
def createParametersLoop : ℕ → State → Text → List Text → Option (State × Option Text)
  | 0, _, _, _ => none
  | n + 1, st, lst, res =>
    match pyMatch (parameterPattern cfg.unicode) lst with
    | none =>
      (delNames st st.plist).map fun st => (st.errorExit (str "Wrong expression " ++ lst), none)
    | some m =>
      let id := (m.get 6).getD []
      if id ∈ st.tmplSeq then
        let st := st.errorExit (str "Duplicate definition of patameter " ++ id)
        (delNames st st.plist).map fun st => (st, some [])
      else
        let st := st.addName id
        let st := { st with plist := st.plist ++ [id] }
        let res := res ++ [(m.get 1).getD []]
        if truthy (m.get 8) then createParametersLoop n st ((m.get 8).getD []) res
        else some (st, some ((res.intersperse [',']).flatten))

/-- The parameters of a template. -/
def templateParameters (st : State) (params : Text) : Option (State × Option Text) :=
  if params ≠ [] ∧ !(pyMatch (seq cfg.unicode.spaces atEnd) params).isSome then
    createParametersLoop cfg (params.length + 1) st params []
  else some (st, some [])

/-- The declaration of a template, with what stands after it. -/
def declareTemplate (name params : Text) (ending : List Fragment) : Code :=
  .line ([ofString "virtual void ", user name, ofString "(", user params, ofString ")"] ++ ending)

/-- The first line in the body of a template. -/
def domainLine : Code :=
  .line [ofString "\tcppcms::translation_domain_scope _trs(out(),_domain_id);\n"]

/-- What `template_block` writes to the declarations. -/
def templateDeclarations (name params : Text) (abstract : Bool) : List Code :=
  if abstract then [declareTemplate name params [ofString " = 0;"]]
  else if cfg.inlineTemplates then
    [declareTemplate name params [ofString " ", opening .template], domainLine]
  else [declareTemplate name params [ofString ";"]]

/-- What `template_block` writes to the definitions. -/
def templateDefinitions (st : State) (name params : Text) (abstract : Bool) : List Code :=
  if abstract then []
  else if cfg.inlineTemplates then []
  else [.line [ofString "void ", user st.viewName, ofString "::", user name,
    ofString "(", user params, ofString ") ", opening .template], domainLine]

/-- A template stands directly in a view. -/
def checkView (st : State) : State :=
  match st.stack with
  | .view _ :: _ => st
  | _ => st.errorExit (str "You must define template inside view block only")

/-- `template_block.use`. -/
def useTemplate (st : State) (name params : Text) (abstract : Bool) : Option State :=
  match templateParameters cfg st params with
  | none => none
  | some (st, params) =>
    let decls := templateDeclarations cfg name (pyStr params) abstract
    let defs := templateDefinitions cfg st name (pyStr params) abstract
    let st := checkView ((st.outputs outputDeclaration decls).outputs outputDefinition defs)
    if abstract then some st
    else some { st.push (.template name) with ignoreInline := false, inlineCppToTemplate := true }

/-- `template_block.on_end`. -/
def endTemplate (st : State) (name : Text) : State :=
  { st.outputTemplate cfg
    (.line [closing .template, ofString " // end of template ", user name]) with
    ignoreInline := true, tmplSeq := [], inlineCppToTemplate := false }

/-! ## Other views -/

/-- `get_render_names`. -/
def getRenderNames (st : State) (names : RenderNames) : Option Expr :=
  let ofName : StrOrVar → Option Expr
    | .str s => some [.code s]
    | .var v => st.ident cfg v
  match ofName names.fst with
  | none => none
  | some first =>
    match names.snd with
    | some snd => (ofName snd).map fun second => first ++ Expr.ofString ", " ++ second
    | none => st.namespaceName.map fun ns => [.code (str "\"" ++ ns ++ str "\", ")] ++ first

/-- `print_using_block_start`. -/
def printUsingBlockStart (st : State) (className variableName : Text) (contentName : Option Text)
    (tempAndView : Option Expr) : Option State :=
  let content : Option Expr := match contentName with
    | none => some [.content]
    | some c => st.ident cfg c
  content.map fun content =>
    let guard : List Code := if contentName.isSome then
      [.line [ofString "  cppcms::base_content::app_guard _g(", ofExpr content,
        ofString ",content);"]]
      else []
    let view : Code := match tempAndView with
      | some tv => .line [ofString "  cppcms::views::view_lock _vl(", ofExpr tv, ofString ",out(),",
          ofExpr content, ofString "); ", user className, ofString " &", user variableName,
          ofString " = _vl.use_view<", user className, ofString ">();"]
      | none => .line [ofString "  ", user className, ofString " ", user variableName,
          ofString "(out(),", ofExpr content, ofString ");"]
    st.outputs (outputTemplate cfg) ([.line [opening .using']] ++ guard ++ [view])

/-- `print_using_block_end`. -/
def printUsingBlockEnd (st : State) : State := st.outputTemplate cfg (.line [closing .using'])

/-- `using_block.use`. -/
def useUsing (st : State) (class' : Text) (content : Option Text) (name : Text)
    (from' : Option RenderNames) : Option State :=
  let tempAndView : Option (Option Expr) := match from' with
    | none => some none
    | some names => (getRenderNames cfg st names).map some
  match tempAndView with
  | none => none
  | some tempAndView =>
    (printUsingBlockStart cfg st class' name content tempAndView).map fun st => st.push .using'

/-- `render_block.use`. -/
def useRender (st : State) (names : RenderNames) (content : Option Text) : Option State :=
  let contentExpr : Option Expr := match content with
    | none => some [.content]
    | some c => st.ident cfg c
  match contentExpr, getRenderNames cfg st names with
  | some c, some tempAndView =>
    let guard : List Code := if content.isSome then
      [.line [ofString "cppcms::base_content::app_guard _g(", ofExpr c, ofString ",content);"]]
        else []
    some (st.outputs (outputTemplate cfg) ([.line [opening .render]] ++ guard ++
      [.line [ofString "cppcms::views::pool::instance().render(", ofExpr tempAndView,
        ofString ",out(),", ofExpr c, ofString ");"], .line [closing .render]]))
  | _, _ => none

/-- `include_block.use`. -/
def useInclude (st : State) (call params : Text) (from' : Option Text)
    (class' content : Option Text) :
    Option State :=
  let ps : Option (List Text × List Expr) :=
    if params ≠ [] then getParams cfg.unicode st.tmplSeq params else some ([], [])
  match ps with
  | none => none
  | some (errs, ps) =>
    let st := st.errors errs
    let print (target : Text) : Code :=
      .line [user (target ++ call), ofString "(", ofExpr (Expr.join "," ps), ofString ");"]
    match from', class' with
    | some f, _ => some (st.outputTemplate cfg (print (f ++ str ".")))
    | none, some c =>
      (printUsingBlockStart cfg st c (str "_using") content none).map fun st =>
        printUsingBlockEnd cfg (st.outputTemplate cfg (print (str "_using.")))
    | none, none => some (st.outputTemplate cfg (print []))

/-! ## Sequences -/

/-- `foreach_block.use`. -/
def useForeach (st : State) (h : ForeachHead) : Option State :=
  match st.ident cfg h.seq with
  | none => none
  | some seqName =>
    let st := if h.ident ∈ st.tmplSeq then
      st.errorExit (str "Nested sequences with same name " ++ h.ident) else st
    let st := if h.rowid = some h.ident then
      st.errorExit (str "Nested sequence and rowid has same name " ++ h.ident) else st
    let st := match h.rowid with
      | none => st
      | some r => if r ∈ st.tmplSeq then
          st.errorExit (str "Nested sequences with same rowid name " ++ r) else st
    let st := st.addName h.ident
    let st := st.outputs (outputTemplate cfg) [.block, .ifNonempty h.reverse seqName]
    let st := match h.rowid with
      | none => st
      | some r =>
          (st.addName r).outputTemplate cfg (.rowid r (cfg.unicode.int (h.rowidBegin.getD [])))
    some (st.push (.foreach ⟨h.ident, h.typeName, h.rowid, h.reverse, seqName, false, false⟩))

/-- `foreach_block.on_end`. -/
def endForeach (st : State) (f : Foreach) : Option State :=
  let st := if f.hasItem then st else st.errorExit (str "foreach without item")
  match st.delName f.ident with
  | none => none
  | some st =>
    (st.delNameOpt f.rowid).map fun st => st.outputs (outputTemplate cfg) [.endNonempty, .endBlock]

/-- `foreach_block.prepare_foreach`. -/
def prepareForeach (st : State) (f : Foreach) : State :=
  st.outputs (outputTemplate cfg)
    ([.for' f.typeName f.ident f.reverse f.seqName f.rowid, .reference f.typeName f.ident] ++
      if f.hasSeparator then [.ifNotFirst f.ident f.reverse f.seqName] else [])

/-- `separator_block.use`. -/
def useSeparator (st : State) : State :=
  match st.stack with
  | .foreach f :: stack =>
    let st := if f.hasSeparator then st.errorExit (str "two separators for one foreach") else st
    let f := { f with hasSeparator := true }
    prepareForeach cfg { st with stack := .foreach f :: stack } f
  | _ => st.errorExit (str "separator without foreach")

/-- `item_block.use`. -/
def useItem (st : State) : State :=
  match st.stack with
  | .foreach f :: stack =>
    let st := if f.hasItem then st.errorExit (str "Two items for one foreach") else st
    let st :=
      if f.hasSeparator then st.outputTemplate cfg .endSeparator else prepareForeach cfg st f
    { st with stack := .item :: .foreach { f with hasItem := true } :: stack }
  | _ => st.errorExit (str "item without foreach")

/-- `empty_block.use`. -/
def useEmpty (st : State) : State :=
  match st.stack with
  | .foreach f :: stack =>
    let st := { st with stack := stack }
    let st := if f.hasItem then st else st.errorExit (str "Unexpected empty - item missed?")
    (st.outputTemplate cfg .elseEmpty).push (.empty f.ident f.rowid)
  | _ => st.errorExit (str "empty without foreach")

/-- `empty_block.on_end`. -/
def endEmpty (st : State) (ident : Text) (rowid : Option Text) : Option State :=
  let st := st.outputs (outputTemplate cfg) [.endEmpty, .endBlock]
  match st.delName ident with
  | none => none
  | some st => st.delNameOpt rowid

/-! ## Conditions -/

/-- The expression of a condition. -/
def condition (st : State) : IfCondition → Option Condition
  | .raw s => some (.raw s)
  | .var not v =>
    let ident := if v = str "rtl" then
      some (Expr.ofString "(cppcms::locale::translate(\"LTR\").str(out().getloc())==\"RTL\")")
      else st.ident cfg v
    ident.map fun e =>
      if truthy not then
        let g := not.getD []
        let e := if (pyMatch (seq (star dot) (lit "empty")) g).isSome then
          e ++ Expr.ofString ".empty()" else e
        let e := if (pyMatch (seq (lit "not") (star dot)) g).isSome then
          Expr.ofString "!(" ++ e ++ Expr.ofString ")" else e
        .expr e
      else .expr e

/-- `if_block.use` for `if`. -/
def useIf (st : State) (cond : IfCondition) : Option State :=
  (condition cfg st cond).map fun c => (st.outputTemplate cfg (.if' c)).push (.if' false)

/-- The block is an `if` or an `elif`. -/
def Block.isIf : Block → Bool
  | if' _ => true
  | _ => false

/-- `if_block.use` for `elif`. -/
def useElif (st : State) (cond : IfCondition) : Option State :=
  (condition cfg st cond).map fun c =>
    match st.stack with
    | [] => st.errorExit (str "Unexpeced elif")
    | prev :: stack =>
      let st := { st with stack := stack }
      let st := if prev.isIf then st else st.errorExit (str "elif without if")
      (st.outputs (outputTemplate cfg) [.closeIf, .else', .if' c]).push (.if' true)

/-- `else_block.use`. -/
def useElse (st : State) : Option State :=
  match st.stack with
  | [] => none
  | prev :: stack =>
    let st := { st with stack := stack }
    let st := if prev.isIf then st else st.errorExit (str "elif without if")
    some ((st.outputTemplate cfg .closeElse).push .else')

/-! ## Text with parameters -/

/-- `filters_show_block.use`. -/
def useFiltersShow (st : State) (deprecated : Bool) (s : Text) : Option State :=
  let st := if deprecated then st.warning
    (str "Variables syntax like <% foo %> is deprecated, use <%= foo %> syntax") else st
  (prepare cfg.unicode st.scope none s).map fun q =>
    let st := st.errors q.1
    match q.2 with
    | .expr e => st.outputTemplate cfg (.show' e)
    | .noVariable => st.outputTemplate cfg (.show' (Expr.ofString "[]"))
    | .failed => st

/-- The parameters after `using`. -/
def usingParams (st : State) (params : Option Text) (defaultFilter : Option Expr) :
    Option (List Text × List Expr) :=
  match params with
  | none => some ([], [])
  | some s => makeFormatParams cfg.unicode st.scope s defaultFilter

/-- A translated message: `args` are the arguments of `translate`. -/
def translateLine (args : List Fragment) (params : List Expr) : Code :=
  if params = [] then .line
    ([ofString "out()<<cppcms::locale::translate("] ++ args ++ [ofString ");"])
  else .line ([ofString "out()<<cppcms::locale::format(cppcms::locale::translate("] ++ args ++
    [ofString ")) % (", ofExpr (Expr.join ") % (" params), ofString ");"])

/-- `gettext_block.use`. -/
def useGettext (st : State) (s : Text) (params : Option Text) : Option State :=
  (usingParams cfg st params none).map fun q =>
    (st.errors q.1).outputTemplate cfg (translateLine [user s] q.2)

/-- `ngettext_block.use`. -/
def useNgettext (st : State) (s1 s2 ident : Text) (params : Option Text) : Option State :=
  match st.ident cfg ident with
  | none => none
  | some idt =>
    (usingParams cfg st params none).map fun q =>
      (st.errors q.1).outputTemplate cfg
        (translateLine [user s1, ofString ",", user s2, ofString ",", ofExpr idt] q.2)

/-- The default filter of the parameters of a URL. -/
def urlencodeFilter : Expr := Expr.ofString "cppcms::filters::urlencode"

/-- A mapped URL. -/
def urlLine (s : Text) (params : List Expr) : Code :=
  if params = [] then
    .line [ofString "content.app().mapper().map(out(),", user s, ofString ");"]
  else .line [ofString "content.app().mapper().map(out(),", user s, ofString ", ",
    ofExpr (Expr.join ", " params), ofString ");"]

/-- `url_block.use`. -/
def useUrl (st : State) (s : Text) (params : Option Text) : Option State :=
  (usingParams cfg st params (some urlencodeFilter)).map fun q =>
    (st.errors q.1).outputTemplate cfg (urlLine s q.2)

/-- `filter_block.use`. -/
def useFilter (st : State) (ext : Option Text) (name : Text) : State :=
  { st with scopeFilter := filterFunction ext name }.push (.filter st.scopeFilter)

/-! ## Forms, cached parts and the rest -/

/-- The flag of `html_type_code`. -/
def htmlTypeCode (st : State) : String := if st.xhtml then "as_xhtml" else "as_html"

/-- `form_block.format_input`. -/
def formatInput (st : State) (commandType : Text) (ident : Expr) : State :=
  let context : Code := .line [opening .form, ofString " cppcms::form_context _form_context(out(),",
    ofString "cppcms::form_flags::", ofString (htmlTypeCode st), ofString ");"]
  let part (p : String) : Code :=
    .line [ofString "    _form_context.widget_part(cppcms::form_context::",
      ofString p, ofString ");"]
  let render : Code :=
    .line [ofString "    (", ofExpr ident, ofString ").render_input(_form_context);"]
  let body : List Code :=
    if commandType = str "begin" then [part "first_part", render]
    else if commandType = str "end" then [part "second_part", render]
    else [part "first_part", render,
      .line [ofString "    out() << (", ofExpr ident, ofString ").attributes_string();"],
      part "second_part", render]
  st.outputs (outputTemplate cfg) ([context] ++ body ++ [.line [closing .form]])

/-- `form_block.use`. -/
def useForm (st : State) (type ident : Text) : Option State :=
  (st.ident cfg ident).map fun e =>
    if type = str "input" ∨ type = str "begin" ∨ type = str "end" then formatInput cfg st type e
    else if type = str "block" then (formatInput cfg st (str "begin") e).push (.form e)
    else st.outputTemplate cfg (.line [opening .form,
      ofString " cppcms::form_context _form_context(out(),cppcms::form_flags::",
      ofString (htmlTypeCode st), ofString ",cppcms::form_flags::", user type, ofString "); (",
      ofExpr e, ofString ").render(_form_context); ", closing .form])

/-- A string or a variable as an expression. -/
def parameter (st : State) : StrOrVar → Option Expr
  | .str s => some [.code s]
  | .var v => st.ident cfg v

/-- `cache_block.use`. -/
def useCache (st : State) (param : StrOrVar) (timeout callback : Option Text)
    (notriggers norecording : Bool) : Option State :=
  let callbackExpr : Option (List Code) := match callback with
    | none => some []
    | some c => (st.ident cfg (c ++ str "()")).map fun e =>
        [.line [ofString "    ", ofExpr e, ofString ";"]]
  match parameter cfg st param, callbackExpr with
  | some p, some call =>
    let recorder : List Code := if norecording then [] else
      [.line [ofString "    cppcms::triggers_recorder _cppcms_trig_rec(content.app().cache());"]]
    some ((st.outputs (outputTemplate cfg) ([.line [opening .cache,
        ofString " std::string _cppcms_temp_val;"],
      .line [ofString "  if(content.app().cache().fetch_frame(", ofExpr p,
        ofString ",_cppcms_temp_val))"],
      .line [ofString "      out() << _cppcms_temp_val;"],
      .line [ofString "  else ", opening .miss],
      .line [ofString "    cppcms::copy_filter _cppcms_cache_flt(out());"]] ++
        recorder ++ call)).push
        (.cache p timeout notriggers norecording))
  | _, _ => none

/-- `cache_block.on_end`. -/
def endCache (st : State) (p : Expr) (timeout : Option Text) (notriggers norecording : Bool) :
    State :=
  st.outputs (outputTemplate cfg)
    [.line [ofString "    content.app().cache().store_frame(", ofExpr p,
      ofString ",_cppcms_cache_flt.detach(),",
      ofString (if norecording then "std::set<std::string>()" else "_cppcms_trig_rec.detach()"),
      ofString ",", user (timeout.getD (str "-1")), ofString ",",
      ofString (if notriggers then "true" else "false"), ofString ");"],
     .line [closing .miss, closing .cache, ofString " // cache"]]

/-- `trigger_block.use`. -/
def useTrigger (st : State) (param : StrOrVar) : Option State :=
  (parameter cfg st param).map fun p =>
    st.outputTemplate cfg (.line [ofString "content.app().cache().add_trigger(", ofExpr p,
      ofString ");"])

/-- The lines of the script of `csrf_block`. -/
def csrfScript (suffix : String) : Text :=
  let indent (n : ℕ) : Text := List.replicate n ' '
  str "\n" ++ indent 12 ++ str "<script type='text/javascript'>\n" ++ indent 12 ++ str "<!--\n" ++
    indent 16 ++ str "\x7b\n" ++
    indent 20 ++ str "var cppcms_cs = document.cookie.indexOf(\"$=\");\n" ++
    indent 20 ++ str "if(cppcms_cs != -1) \x7b\n" ++
    indent 24 ++ str "cppcms_cs += '$='.length;\n" ++
    indent 24 ++ str "var cppcms_ce = document.cookie.indexOf(\";\",cppcms_cs);\n" ++
    indent 24 ++ str "if(cppcms_ce == -1) \x7b\n" ++
    indent 28 ++ str "cppcms_ce = document.cookie.length;\n" ++
    indent 24 ++ str "\x7d\n" ++
    indent 24 ++ str "var cppcms_token = document.cookie.substring(cppcms_cs,cppcms_ce);\n" ++
    indent 24 ++ str "document.write('<input type=\"hidden\" name=\"_csrf\" value=\"' + " ++
      str "cppcms_token + '\" " ++ str suffix ++ str ">');\n" ++
    indent 20 ++ str "\x7d\n" ++
    indent 16 ++ str "\x7d\n" ++
    indent 12 ++ str "-->\n" ++ indent 12 ++ str "</script>\n" ++ indent 12

/-- `csrf_block.use`. -/
def useCsrf (st : State) (type : Csrf) : State :=
  let suffix := if st.xhtml then "/" else ""
  let cookieName := str "\"<< content.app().session().get_csrf_token_cookie_name() <<\""
  st.outputTemplate cfg <| match type with
    | .input => .line [ofString "out() << \"",
        literal (str "<input type=\\\"hidden\\\" name=\\\"_csrf\\\" value=\\\""),
        ofString "\" << content.app().session().get_csrf_token() <<\"",
        literal (str "\\\" " ++ str suffix ++ str ">\\n"), ofString "\";"]
    | .token => .line [ofString "out() << content.app().session().get_csrf_token();"]
    | .cookie => .line [ofString "out() << content.app().session().get_csrf_token_cookie_name();"]
    | .script => .line [ofString "out() << \"", literal ((toString' st.stack.length
        (csrfScript suffix)).flatMap fun c => if c = '$' then cookieName else [c]), ofString "\";"]

/-- `cpp_include_block.use`. -/
def useCppInclude (st : State) (src : Bool) (s : Text) : State :=
  if src then st.outputDefinition (.line [user s])
  else if st.inlineCppToTemplate then st.outputTemplate cfg (.line [user s])
  else st.outputDeclaration (.line [user s])

/-- `domain_block.use`. -/
def useDomain (st : State) (gt : Text) : State :=
  if st.specGettext = [] then
    if st.viewCreated then st.errorExit (str "Can't use domain command after a view was created")
    else { st with specGettext := gt }
  else if st.specGettext ≠ gt then
    st.errorExit (str "Gettext domain is already defined as `" ++ st.specGettext ++
      str "' and differs from given `" ++ gt ++ str "'")
  else st

/-! ## The main loop -/

/-- `on_end` of a block. -/
def onEnd (st : State) : Block → Option State
  | .skin => some (endSkin st)
  | .view c => some (endView st c)
  | .template n => some (endTemplate cfg st n)
  | .using' => some (printUsingBlockEnd cfg st)
  | .foreach f => endForeach cfg st f
  | .item => some (st.outputTemplate cfg .endItem)
  | .empty i r => endEmpty cfg st i r
  | .else' => some (st.outputTemplate cfg .endElse)
  | .if' _ => some (st.outputTemplate cfg .endIf)
  | .form e => some (formatInput cfg st (str "end") e)
  | .filter f => some { st with scopeFilter := f }
  | .cache p t nt nr => some (endCache cfg st p t nt nr)

/-- `end_block.use`. -/
def useEnd (st : State) (name : Option Text) : Option State :=
  match st.stack with
  | [] => some (st.errorExit (str "Unexpeced 'end'"))
  | obj :: stack =>
    let st := { st with stack := stack }
    let st := match name with
      | none => st
      | some n => if obj.type = n then st else
          st.errorExit (str "End of " ++ n ++ str " does not match block " ++ obj.type)
    onEnd cfg st obj

/-- `use` of the class of a command. -/
def use (st : State) : Command → Option State
  | .skin n => useSkin st n
  | .view n us e a i => some (useView cfg st n us e a i)
  | .template n p a => useTemplate cfg st n p a
  | .end' n => useEnd cfg st n
  | .if' c => useIf cfg st c
  | .elif c => useElif cfg st c
  | .else' => useElse cfg st
  | .cppInclude src s => some (useCppInclude cfg st src s)
  | .gettext m p => useGettext cfg st m p
  | .ngettext m p i ps => useNgettext cfg st m p i ps
  | .url s p => useUrl cfg st s p
  | .foreach h => useForeach cfg st h
  | .item => some (useItem cfg st)
  | .empty => some (useEmpty cfg st)
  | .separator => some (useSeparator cfg st)
  | .include' c p f cl co => useInclude cfg st c p f cl co
  | .cache p t c nt nr => useCache cfg st p t c nt nr
  | .trigger p => useTrigger cfg st p
  | .filter e n => some (useFilter st e n)
  | .using' c co n f => useUsing cfg st c co n f
  | .render n c => useRender cfg st n c
  | .html x => some { st with xhtml := x }
  | .form t i => useForm cfg st t i
  | .csrf t => some (useCsrf cfg st t)
  | .domain n => some (useDomain st n)
  | .filtersShow d s => useFiltersShow cfg st d s
  | .error s => some (st.errorExit (str "Invalid statement `" ++ s ++ str "'"))

/-- What the compiler meets: the start of a file, a chunk in a line, the end of a file. -/
inductive Event where
  | fileStart (name : Text)
  | chunk (lineNumber : ℕ) (x : Text)
  | fileEnd (name : Text)
  deriving DecidableEq, Repr

/-- One chunk in the main loop. -/
def processChunk (st : State) (x : Text) : Option State :=
  if x = [] then some st
  else if st.stack = [] ∧ (pyMatch (seq cfg.unicode.spaces atEnd) x).isSome then some st
  else if st.stack = [] ∧ !(pyMatch (cat [lit "<%", star dot, lit "%>"]) x).isSome then
    some (st.errorExit (str "Content is not allowed outside template blocks"))
  else
    match Command.parse cfg.unicode x with
    | .text => some (inlineContent cfg st x)
    | .command c => use cfg st c
    | .syntaxError name =>
      some (st.errorExit (str "Syntax error in command " ++ str name ++ str " : " ++ x))

/-- One event of the main loop. -/
def step (st : State) : Event → Option State
  | .fileStart name =>
      some { st with inlineCppToTemplate := false, lineNumber := 0, fileName := name }
  | .chunk n x => processChunk cfg { st with lineNumber := n } x
  | .fileEnd name =>
    if st.stack ≠ [] then some (st.errorExit (str "Unexpected end of file " ++ name)) else some st

/-- A list of events. -/
def run (st : State) (es : List Event) : Option State := es.foldlM (step cfg) st

/-- The chunks of a row: the text before a command is joined to `tmp`, the text after the last
command is returned. -/
def rowChunks (n : ℕ) : ℕ → Text → Text → List (ℕ × Text) × Text
  | 0, tmp, _ => ([], tmp)
  | _ + 1, tmp, [] => ([], tmp)
  | k + 1, tmp, c :: s =>
    match chunkPattern.matchPrefix (c :: s) with
    | some (rest, _) =>
      let q := rowChunks n k [] rest
      ((n, tmp) :: (n, (c :: s).take ((c :: s).length - rest.length)) :: q.1, q.2)
    | none => rowChunks n k (tmp ++ [c]) s

/-- `fetch_content`, from the row with number `n + 1` on. -/
def fetchRows : ℕ → Text → List Text → List (ℕ × Text)
  | n, tmp, [] => [(n, tmp)]
  | n, tmp, row :: rows =>
    let q := rowChunks (n + 1) (row.length + 1) tmp row
    q.1 ++ fetchRows (n + 1) (q.2 ++ ['\n']) rows

/-- `fetch_content`. -/
def fetchContent (content : Text) : List (ℕ × Text) := fetchRows 0 [] (content.splitOn '\n')

/-- What `open(file,'r').read()` makes of the characters of a file: every end of a line is a
newline. -/
def readText : Text → Text
  | [] => []
  | [c] => [if c = '\r' then '\n' else c]
  | c :: d :: s =>
    if c = '\r' ∧ d = '\n' then '\n' :: readText s
    else (if c = '\r' then '\n' else c) :: readText (d :: s)

/-- The events of a file with a name and characters. -/
def fileEvents (file : Text × Text) : List Event :=
  .fileStart file.1 :: ((fetchContent (readText file.2)).map fun p => .chunk p.1 p.2) ++
    [.fileEnd file.1]

/-- `write_class_loader`. -/
def writeClassLoader (st : State) : State :=
  let safe := if cfg.unsafeBuild then "false" else "true"
  let head : List Code := [.line [ofString "namespace ", opening .loader],
    .line [ofString " cppcms::views::generator my_generator; "],
    .line [ofString " struct loader ", opening .loader, ofString " "],
    .line [ofString "  loader() ", opening .loader, ofString " "],
    .line [ofString "   my_generator.name(\"", user (pyStr st.namespaceName), ofString "\");"]]
  let views : List Code := st.classList.map fun c =>
    .line [ofString "   my_generator.add_view<", user (pyStr c.namespaceName), ofString "::",
      user c.name, ofString ",", user c.contentName, ofString ">(\"", user c.name, ofString "\",",
      ofString safe, ofString ");"]
  let tail : List Code :=
    [.line [ofString "    cppcms::views::pool::instance().add(my_generator);"],
     .line [ofString " ", closing .loader],
     .line [ofString " ~loader() ", opening .loader,
       ofString "  cppcms::views::pool::instance().remove(my_generator); ", closing .loader],
     .line [closing .loader, ofString " a_loader;"],
     .line [closing .loader, ofString " // anon "]]
  st.outputs outputDefinition (head ++ views ++ tail)

/-- The main function, after the options: the files one after the other, then the loader. -/
def compile (st : State) (files : List (Text × Text)) : Option State :=
  (run cfg st (files.flatMap fileEvents)).map fun st =>
    if st.classList ≠ [] ∧ st.exitFlag = false ∧
      cfg.writeLoader then writeClassLoader cfg st else st

/-- The globals after the options: the skin given by `-s` and the domain given by `-d`. -/
def State.init (skin domain : Text) : State := { namespaceName := some skin, specGettext := domain }

end Template

end Cppcms
