import Cppcms.Base.Numbers
import Cppcms.Base.Strings
import Cppcms.Library.SortedMap

/-!
# The mapping of keys to URLs

`url_mapper`, with the applications that are mounted on each other.  A mapper has templates for
keys, by the number of parameters.  A mapper that is mounted gives its URL to the one above it, as
the only parameter of the template it is mounted with.

An application is a number that stands for a pointer to it.  The functions that follow the pointers
to the applications above count their steps; without an end they give `none`.
-/

namespace Cppcms

namespace Url

def openBrace : UInt8 := 0x7B

def closeBrace : UInt8 := 0x7D

def comma : UInt8 := 0x2C

/-- A pointer to an application, and to its mapper. -/
abbrev App := ℕ

/-- `cppcms_error`. -/
inductive MapperError where
  | keyNotFound (key url : Bytes)
  | invalidNumber (key url : Bytes)
  | notChild (name url : Bytes)
  | outOfRange
  | tooManyKeywords
  | noParent
  | badKey
  | emptyIndex
  | zeroIndex
  | unclosed
  | unopened
  | notOneParameter
  | mountedShared (key : Bytes)
  | ordinaryShared (key : Bytes)
  deriving DecidableEq

/-- The text of an exception. -/
def MapperError.what : MapperError → Bytes
  | keyNotFound key url => bytes "url_mapper: key `" ++ key ++ bytes "' not found for url `" ++
      url ++ bytes "'"
  | invalidNumber key url =>
    bytes "url_mapper: invalid number of parameters for " ++ key ++ bytes "in url `" ++
      url ++ bytes "'"
  | notChild name url =>
    bytes "url_mapper: the key " ++ name ++ bytes " is not child application key in url `" ++
      url ++ bytes "'"
  | outOfRange => bytes "url_mapper: Index of parameter out of range"
  | tooManyKeywords =>
      bytes "url_mapper: number of keywords is larger then number of actual parameters"
  | noParent => bytes "url_mapper: no parent found"
  | badKey =>
      bytes "cppcms::url_mapper: key may not be '' , '.' or '..' and must not include '/' in it"
  | emptyIndex => bytes "cppcms::url_mapper: empty index between \x7b\x7d"
  | zeroIndex => bytes "cppcms::url_mapper: index 0 is invalid"
  | unclosed => bytes "cppcms::url_mapper: '\x7b' in url without '\x7d'"
  | unopened => bytes "cppcms::url_mapper: '\x7d' in url without '\x7b'"
  | notOneParameter =>
      bytes "cppcms::url_mapper the application mapping should use only 1 parameter"
  | mountedShared key =>
    bytes "cppcms::url_mapper: mounted application key `" ++ key ++
      bytes "' can't be shared with ordinary url key"
  | ordinaryShared key =>
    bytes "cppcms::url_mapper: ordinary url key `" ++ key ++
      bytes "can't be shared with mounted application key"

/-! ## Templates -/

/-- `url_mapper::data::entry`. -/
structure Entry where
  parts : List Bytes
  indexes : List ℤ
  keys : List Bytes
  child : Option App
  deriving DecidableEq

def isDigit (c : UInt8) : Bool := 0x30 ≤ c && c ≤ 0x39

/-- `atoi`: the low 32 bits of the number that `strtol` reads. -/
def atoi (s : Bytes) : ℤ := (atoll s).bmod (2 ^ 32)

/-- What `real_assign` does at a closing brace, with the text since the opening one. -/
def addKey (e : Entry) (maxIndex : ℤ) (hkey : Bytes) : Except MapperError (Entry × ℤ) :=
  if hkey = [] then .error .emptyIndex
  else if hkey.all isDigit then
    if atoi hkey = 0 then .error .zeroIndex
    else .ok ({ e with indexes := e.indexes ++ [atoi hkey], keys := e.keys ++ [[]] },
      max (atoi hkey) maxIndex)
  else .ok ({ e with indexes := e.indexes ++ [0], keys := e.keys ++ [hkey] }, maxIndex)

/-- The loops of `real_assign`: the outer one, or the inner one, which looks for a closing brace;
with the text from `prev` to `p`, and the rest of the URL. -/
def scan (inside : Bool) (e : Entry) (maxIndex : ℤ) (text : Bytes) :
    Bytes → Except MapperError (Entry × ℤ)
  | [] => if inside then .error .unclosed else .ok ({ e with parts := e.parts ++ [text] }, maxIndex)
  | c :: url =>
    if inside then
      if c = closeBrace then
        match addKey e maxIndex text with
        | .error x => .error x
        | .ok (e, maxIndex) => scan false e maxIndex [] url
      else scan true e maxIndex (text ++ [c]) url
    else if c = openBrace then scan true { e with parts := e.parts ++ [text] } maxIndex [] url
    else if c = closeBrace then .error .unopened
    else scan false e maxIndex (text ++ [c]) url

/-! ## Mappers -/

/-- `std::map<string_key,std::string>`. -/
abbrev Helpers := SortedMap Bytes Bytes

/-- `url_mapper::data`. -/
structure Mapper where
  throws : Bool
  thisName : Bytes
  parent : Option App
  byKey : SortedMap Bytes (SortedMap ℕ Entry)
  helpers : Helpers
  root : Bytes

namespace Mapper

/-- `url_mapper::url_mapper`. -/
def new (throws : Bool) : Mapper := ⟨throws, [], none, ∅, ∅, []⟩

/-- `real_assign`. -/
def realAssign (d : Mapper) (key url : Bytes) (child : Option App) : Except MapperError Mapper :=
  match scan false ⟨[], [], [], none⟩ 0 [] url with
  | .error x => .error x
  | .ok (e, maxIndex) =>
    if child.isSome ∧ maxIndex ≠ 1 then .error .notOneParameter
    else if child.isSome ∧ (d.byKey.find key).isSome then .error (.mountedShared key)
    else if child.isNone ∧
    (((d.byKey.find key).bind fun s => s.find 1).bind Entry.child).isSome then
      .error (.ordinaryShared key)
    else
      .ok { d with byKey :=
        d.byKey.insert key (((d.byKey.find key).getD ∅).insert maxIndex.toNat { e with child }) }

/-- `get_entry`. -/
def getEntry (d : Mapper) (key : Bytes) (paramsNo : ℕ) (fullUrl : Bytes) :
    Except MapperError Entry :=
  match d.byKey.find key with
  | none => .error (.keyNotFound key fullUrl)
  | some s =>
    match s.find paramsNo with
    | none => .error (.invalidNumber key fullUrl)
    | some e => .ok e

/-- `is_app`. -/
def isApp (d : Mapper) (key : Bytes) : Option App :=
  (d.byKey.find key).bind fun s => s.toList.head?.bind fun x => x.2.child

/-- `child`. -/
def child (d : Mapper) (name fullUrl : Bytes) : Except MapperError App :=
  match d.getEntry name 1 fullUrl with
  | .error x => .error x
  | .ok e =>
    match e.child with
    | none => .error (.notChild name fullUrl)
    | some a => .ok a

end Mapper

/-! ## The hierarchy -/

/-- The mappers of the applications. -/
abbrev World := App → Mapper

namespace World

/-- The mappers at first. -/
def init (throws : App → Bool) : World := fun a => Mapper.new (throws a)

/-- The mapper of an application is changed. -/
def set (w : World) (a : App) (d : Mapper) : World := Function.update w a d

/-- `assign` of a key. -/
def assign (w : World) (a : App) (key url : Bytes) : World × Option MapperError :=
  if key = [] ∨ Ch.slash ∈ key ∨ Ch.semicolon ∈ key ∨ comma ∈ key ∨ key = [Ch.dot, Ch.dot] ∨
    key = [Ch.dot] then
    (w, some .badKey)
  else
    match (w a).realAssign key url none with
    | .error x => (w, some x)
    | .ok d => (w.set a d, none)

/-- `assign` of the default URL. -/
def assignDefault (w : World) (a : App) (url : Bytes) : World × Option MapperError :=
  match (w a).realAssign [] url none with
  | .error x => (w, some x)
  | .ok d => (w.set a d, none)

/-- `root_mapper`, where `root` is the application that `application::root` gives for the one above.
-/
def rootMapper (w : World) (a root : App) : App := if (w a).parent.isSome then root else a

/-- `set_value`. -/
def setValue (w : World) (a root : App) (key value : Bytes) : World :=
  w.set (w.rootMapper a root)
    { w (w.rootMapper a root) with helpers := (w (w.rootMapper a root)).helpers.insert key value }

/-- `clear_value`. -/
def clearValue (w : World) (a root : App) (key : Bytes) : World :=
  w.set (w.rootMapper a root)
    { w (w.rootMapper a root) with helpers := (w (w.rootMapper a root)).helpers.erase key }

/-- `root`. -/
def setRoot (w : World) (a : App) (r : Bytes) : World := w.set a { w a with root := r }

/-- The first lines of `mount`. -/
def hang (w : World) (a : App) (name : Bytes) (app : App) : World :=
  w.set app { w app with parent := some a, thisName := name }

/-- The last lines of `mount`: the values are copied to the root, and cleared. -/
def moveValues (w : World) (a root app : App) : World :=
  let w' := (w app).helpers.toList.foldl (fun w x => w.setValue a root x.1 x.2) w
  w'.set app { w' app with helpers := ∅ }

/-- `mount`. -/
def mount (w : World) (a root : App) (name url : Bytes) (app : App) : World × Option MapperError :=
  match ((w.hang a name app) a).realAssign name url (some app) with
  | .error x => (w.hang a name app, some x)
  | .ok d => (((w.hang a name app).set a d).moveValues a root app, none)

end World

/-- The calls that build the hierarchy. -/
inductive Call where
  | assign (a : App) (key url : Bytes)
  | assignDefault (a : App) (url : Bytes)
  | mount (a root : App) (name url : Bytes) (app : App)
  | setValue (a root : App) (key value : Bytes)
  | clearValue (a root : App) (key : Bytes)
  | setRoot (a : App) (r : Bytes)

/-- A call, and its exception if there is one. -/
def World.call (w : World) : Call → World × Option MapperError
  | .assign a key url => w.assign a key url
  | .assignDefault a url => w.assignDefault a url
  | .mount a root name url app => w.mount a root name url app
  | .setValue a root key value => (w.setValue a root key value, none)
  | .clearValue a root key => (w.clearValue a root key, none)
  | .setRoot a r => (w.setRoot a r, none)

/-! ## Writing URLs -/

/-- What is written to a stream, and the exception if there is one. -/
abbrev Writing := Bytes × Option MapperError

/-- One thing is written after another. -/
def Writing.andThen (x y : Writing) : Writing :=
  match x.2 with
  | some _ => x
  | none => (x.1 ++ y.1, y.2)

/-- The value of a placeholder in `write`. -/
def writeHole (params : List Writing) (dflt override : Helpers) (index : ℤ) (key : Bytes) :
    Writing :=
  if index = 0 then (((override.find key).orElse fun _ => dflt.find key).getD [], none)
  else
    -- the index is converted to `size_t`
    match params[((index - 1) % 2 ^ 64).toNat]? with
    | none => ([], some .outOfRange)
    | some p => p

/-- The loop of `write`. -/
def writeParts (params : List Writing) (dflt override : Helpers) :
    List Bytes → List ℤ → List Bytes → Writing
  | [], _, _ => ([], none)
  | part :: parts, [], keys =>
      Writing.andThen (part, none) (writeParts params dflt override parts [] keys)
  | part :: parts, index :: indexes, keys =>
    Writing.andThen (part, none)
      (Writing.andThen (writeHole params dflt override index (keys.headD []))
      (writeParts params dflt override parts indexes keys.tail))

/-- `write`. -/
def Entry.write (e : Entry) (params : List Writing) (dflt override : Helpers) : Writing :=
  writeParts params dflt override e.parts e.indexes e.keys

namespace World

/-- `topmost`. -/
def topmost (w : World) : ℕ → App → Option App
  | 0, _ => none
  | fuel + 1, a =>
    match (w a).parent with
    | none => some a
    | some p => w.topmost fuel p

/-- `map` of `url_mapper::data`. -/
def map (w : World) (fullUrl : Bytes) (dflt override : Helpers) :
    ℕ → App → Bytes → List Writing → Option Writing
  | 0, _, _, _ => none
  | fuel + 1, a, key, params =>
    match (w a).getEntry key params.length fullUrl with
    | .error x => some ([], some x)
    | .ok e =>
      match (w a).parent with
      | some p => w.map fullUrl dflt override fuel p (w a).thisName [e.write params dflt override]
      | none => some (Writing.andThen ((w a).root, none) (e.write params dflt override))

/-- The key and the keywords at the end of a path. -/
def splitKeywords (last : Bytes) : Bytes × List Bytes :=
  if Ch.semicolon ∈ last then
    (last.takeWhile (· ≠ Ch.semicolon), ((last.dropWhile (· ≠ Ch.semicolon)).tail).splitOn comma)
  else (last, [])

/-- `get_mapper_for_key` at the end of a path, for a key. -/
def lastMapper (w : World) (a : App) (realKey : Bytes) : Except MapperError (App × Bytes) :=
  if realKey = [Ch.dot] then .ok (((w a).isApp []).getD a, [])
  else if realKey = [Ch.dot, Ch.dot] then
    match (w a).parent with
    | none => .error .noParent
    | some p => .ok (((w p).isApp []).getD p, [])
  else
    match (w a).isApp realKey with
    | some b => .ok (b, [])
    | none => .ok (a, realKey)

/-- The loop of `get_mapper_for_key`, over what the slashes separate. -/
def mapperForPath (w : World) (fullUrl : Bytes) :
    App → List Bytes → Except MapperError ((App × Bytes) × List Bytes)
  | a, [] => (w.lastMapper a []).map (·, [])
  | a, [last] => (w.lastMapper a (splitKeywords last).1).map (·, (splitKeywords last).2)
  | a, subapp :: path =>
    if subapp = [Ch.dot] then w.mapperForPath fullUrl a path
    else if subapp = [Ch.dot, Ch.dot] then
      match (w a).parent with
      | none => .error .noParent
      | some p => w.mapperForPath fullUrl p path
    else
      match (w a).child subapp fullUrl with
      | .error x => .error x
      | .ok b => w.mapperForPath fullUrl b path

/-- `get_mapper_for_key`: the mapper and the key, and the keywords. -/
def getMapperForKey (w : World) (fuel : ℕ) (a : App) (key : Bytes) :
    Option (Except MapperError ((App × Bytes) × List Bytes)) :=
  match key with
  | [] => some (.ok ((a, []), []))
  | c :: rest =>
    if c = Ch.slash then (w.topmost fuel a).map fun top =>
      w.mapperForPath key top (rest.splitOn Ch.slash)
    else some (w.mapperForPath key a (key.splitOn Ch.slash))

/-- `real_map` inside of its `try`. -/
def mapKey (w : World) (fuel : ℕ) (a : App) (key : Bytes) (params : List Bytes) : Option Writing :=
  match w.getMapperForKey fuel a key with
  | none => none
  | some (.error x) => some ([], some x)
  | some (.ok ((mp, realKey), direct)) =>
    if params.length < direct.length then some ([], some .tooManyKeywords)
    else
      (w.topmost fuel a).bind fun top =>
        w.map key (w top).helpers
          ((direct.zip params).foldl (fun m x => m.insert x.1 x.2) ∅) fuel mp realKey
          ((params.drop direct.length).map (·, none))

end World

/-- What is written instead of a URL. -/
def invalidUrl : Bytes := bytes "/this_is_an_invalid_url_generated_by_url_mapper"

/-- The ends of `real_map`: without exceptions the output is written to a buffer first, and from
there as a string that ends at its first zero. -/
def finish (throws : Bool) (r : Writing) : Writing :=
  if throws then r
  else
    match r.2 with
    | some _ => (invalidUrl, none)
    | none => (r.1.takeWhile (· ≠ 0), none)

/-- `map` and `real_map`, for a key, which is passed as a C string, and for parameters that are
written as these texts. -/
def World.realMap (w : World) (fuel : ℕ) (a : App) (key : Bytes) (params : List Bytes) :
    Option Writing :=
  (w.mapKey fuel a (key.takeWhile (· ≠ 0)) params).map (finish (w a).throws)

end Url

end Cppcms
