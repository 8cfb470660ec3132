import Cppcms.Encoding.Validators

/-!
# White-list rules

The rules object of the filter (`xss::rules`, first part of `src/xss.cpp`): the tags, attributes and
entities that may occur in a text.  A rules object holds one white list for XHTML, where names are
case sensitive, and one for HTML, where they are not; the flag `isXhtml` selects the one in use.

The lists are ordered maps keyed by byte ranges (`c_string`).  Such a map is searched with its
comparator only, so that a key is found if neither key is less than the other (`equivalent`); for
the two comparators in use this is equality, and equality up to the case of ASCII letters.
-/

namespace Cppcms

namespace Xss

/-! ## Comparison of names -/

/-- `std::lexicographical_compare`. -/
def lexicographicalCompare (lt : UInt8 → UInt8 → Bool) : Bytes → Bytes → Bool
  | _, [] => false
  | [], _ :: _ => true
  | a :: l, b :: r =>
      if lt a b then true else if lt b a then false else lexicographicalCompare lt l r

/-- `c_string::tolower`, and `ascii_tolower` of the filter. -/
def asciiTolower (c : UInt8) : UInt8 := if 0x41 ≤ c ∧ c ≤ 0x5A then c - 0x41 + 0x61 else c

/-- `c_string::compare`. -/
def compare : Bytes → Bytes → Bool := lexicographicalCompare fun l r => l < r

/-- `c_string::icompare`. -/
def icompare : Bytes → Bytes → Bool :=
  lexicographicalCompare fun l r => asciiTolower l < asciiTolower r

/-- Two keys are the same to an ordered container. -/
def equivalent (comp : Bytes → Bytes → Bool) (l r : Bytes) : Bool := !comp l r && !comp r l

/-- Keys compared through a function on octets are equivalent if the images agree. -/
lemma equivalent_lexicographicalCompare (f : UInt8 → UInt8) (l r : Bytes) :
    equivalent (lexicographicalCompare fun a b => f a < f b) l r = true ↔ l.map f = r.map f := by
  induction l generalizing r with
  | nil => cases r <;> simp [equivalent, lexicographicalCompare]
  | cons a l ih =>
    cases r with
    | nil => simp [equivalent, lexicographicalCompare]
    | cons b r =>
      have ih := ih r
      simp only [equivalent, lexicographicalCompare, decide_eq_true_eq, List.map_cons,
        List.cons.injEq, Bool.and_eq_true, Bool.not_eq_true'] at ih ⊢
      by_cases hab : f a < f b
      · have : f a ≠ f b := fun h => UInt8.lt_irrefl _ (h ▸ hab)
        simp [hab, this]
      · by_cases hba : f b < f a
        · have : f a ≠ f b := fun h => UInt8.lt_irrefl _ (h ▸ hba)
          simp [hab, hba, this]
        · have : f a = f b := UInt8.le_antisymm (UInt8.not_lt.mp hba) (UInt8.not_lt.mp hab)
          rw [if_neg hab, if_neg hba, if_neg hba, if_neg hab, ih]
          simp [this]

/-- Equivalence of case sensitive names is equality. -/
lemma equivalent_compare (l r : Bytes) : equivalent compare l r = true ↔ l = r := by
  have := equivalent_lexicographicalCompare id l r
  simpa [compare] using this

/-- Equivalence of case insensitive names is equality up to case. -/
lemma equivalent_icompare (l r : Bytes) :
    equivalent icompare l r = true ↔ l.map asciiTolower = r.map asciiTolower :=
  equivalent_lexicographicalCompare asciiTolower l r

/-- `find` of an ordered map. -/
def find {α : Type*} (comp : Bytes → Bytes → Bool) (map : List (Bytes × α)) (key : Bytes) :
    Option α :=
  (map.find? fun p => equivalent comp p.1 key).map Prod.snd

/-- Assignment through `operator[]` of an ordered map: the value of an existing key is changed,
otherwise the default is inserted and changed. -/
def assign {α : Type*} (comp : Bytes → Bytes → Bool) (map : List (Bytes × α)) (key : Bytes)
    (default' : α) (change : α → α) : List (Bytes × α) :=
  if map.any fun p => equivalent comp p.1 key then
    map.map fun p => if equivalent comp p.1 key then (p.1, change p.2) else p
  else map ++ [(key, change default')]

/-! ## White lists -/

/-- `rules::tag_type`. -/
inductive TagType where
  | invalidTag
  | openingAndClosing
  | standAlone
  | anyTag
  deriving DecidableEq, Repr

/-- A functor that checks the value of an attribute. -/
abbrev Validator := Bytes → Bool

/-- The attributes allowed for a tag, and its type; a boolean attribute has no validator. -/
structure Tag where
  properties : List (Bytes × Option Validator)
  type : TagType

/-- The entities every rules object starts with. -/
def baseEntities : List Bytes := [bytes "lt", bytes "gt", bytes "amp", bytes "quot"]

/-- One white list.  Entities are only ever added, so the initial ones are always there. -/
structure RulesHolder where
  entities : List Bytes
  tags : List (Bytes × Tag)
  base : ∀ e ∈ baseEntities, e ∈ entities

namespace RulesHolder

/-- The white list made by the constructor. -/
def empty : RulesHolder where
  entities := baseEntities
  tags := []
  base := fun _ h => h

/-- `add_entity`. -/
def addEntity (h : RulesHolder) (name : Bytes) : RulesHolder where
  entities := name :: h.entities
  tags := h.tags
  base := fun e he => List.mem_cons_of_mem _ (h.base e he)

/-- `add_tag`. -/
def addTag (comp : Bytes → Bytes → Bool) (h : RulesHolder) (name : Bytes) (type : TagType) :
    RulesHolder :=
  { h with tags := assign comp h.tags name ⟨[], .invalidTag⟩ fun t => { t with type := type } }

/-- `add_property`: a tag that is not there yet is added as an invalid one. -/
def addProperty (comp : Bytes → Bytes → Bool) (h : RulesHolder) (tname pname : Bytes)
    (r : Option Validator) : RulesHolder :=
  { h with tags := assign comp h.tags tname ⟨[], .invalidTag⟩ fun t =>
      { t with properties := assign comp t.properties pname none fun _ => r } }

/-- `valid_entity`: the set of entities is case sensitive in both modes. -/
def validEntity (h : RulesHolder) (name : Bytes) : Bool :=
  h.entities.any fun e => equivalent compare e name

/-- `valid_tag`. -/
def validTag (comp : Bytes → Bytes → Bool) (h : RulesHolder) (t : Bytes) : TagType :=
  match find comp h.tags t with
  | none => .invalidTag
  | some tag => tag.type

/-- The validator of an attribute of a tag, if the attribute is in the white list at all. -/
def property (comp : Bytes → Bytes → Bool) (h : RulesHolder) (tname pname : Bytes) :
    Option (Option Validator) :=
  match find comp h.tags tname with
  | none => none
  | some tag => find comp tag.properties pname

/-- `valid_boolean_property`. -/
def validBooleanProperty (comp : Bytes → Bytes → Bool) (isXhtml : Bool) (h : RulesHolder)
    (tname pname : Bytes) : Bool :=
  if isXhtml then false
  else
    match h.property comp tname pname with
    | some none => true
    | _ => false

/-- `valid_property`: in XHTML a boolean attribute has its own name as value. -/
def validProperty (comp : Bytes → Bytes → Bool) (isXhtml : Bool) (h : RulesHolder)
    (tname pname value : Bytes) : Bool :=
  match h.property comp tname pname with
  | none => false
  | some none => if isXhtml then !comp pname value && !comp value pname else false
  | some (some validator) => validator value

end RulesHolder

/-- `rules::data`. -/
structure Rules where
  xhtmlRules : RulesHolder
  htmlRules : RulesHolder
  isXhtml : Bool
  commentsAllowed : Bool
  numericEntitiesAllowed : Bool
  encoding : Bytes

namespace Rules

/-- The rules made by the default constructor. -/
def default' : Rules where
  xhtmlRules := .empty
  htmlRules := .empty
  isXhtml := true
  commentsAllowed := false
  numericEntitiesAllowed := false
  encoding := []

/-- The comparator of the white list in use. -/
def comp (r : Rules) : Bytes → Bytes → Bool := if r.isXhtml then compare else icompare

/-- `rules::impl`: the white list in use. -/
def impl (r : Rules) : RulesHolder := if r.isXhtml then r.xhtmlRules else r.htmlRules

/-- A change of the white list in use. -/
def change (r : Rules) (f : RulesHolder → RulesHolder) : Rules :=
  if r.isXhtml then { r with xhtmlRules := f r.xhtmlRules }
  else { r with htmlRules := f r.htmlRules }

/-- `rules::add_entity`. -/
def addEntity (r : Rules) (entity : Bytes) : Rules := r.change fun h => h.addEntity entity

/-- `rules::add_tag`. -/
def addTag (r : Rules) (name : Bytes) (type : TagType) : Rules :=
  r.change fun h => h.addTag r.comp name type

/-- `rules::add_property`. -/
def addProperty (r : Rules) (tname pname : Bytes) (v : Option Validator) : Rules :=
  r.change fun h => h.addProperty r.comp tname pname v

/-- `rules::add_boolean_property`. -/
def addBooleanProperty (r : Rules) (tname pname : Bytes) : Rules := r.addProperty tname pname none

/-- `rules::valid_tag`. -/
def validTag (r : Rules) (t : Bytes) : TagType := r.impl.validTag r.comp t

/-- `rules::valid_boolean_property`. -/
def validBooleanProperty (r : Rules) (tname pname : Bytes) : Bool :=
  r.impl.validBooleanProperty r.comp r.isXhtml tname pname

/-- `rules::valid_property`. -/
def validProperty (r : Rules) (tname pname value : Bytes) : Bool :=
  r.impl.validProperty r.comp r.isXhtml tname pname value

/-- `rules::valid_entity`. -/
def validEntity (r : Rules) (val : Bytes) : Bool := r.impl.validEntity val

/-- The four entities that escaping uses are always allowed. -/
lemma validEntity_of_mem_base (r : Rules) {e : Bytes} (he : e ∈ baseEntities) :
    r.validEntity e = true := by
  rw [validEntity, RulesHolder.validEntity, List.any_eq_true]
  exact ⟨e, r.impl.base e he, (equivalent_compare e e).mpr rfl⟩

end Rules

/-- `integer_property_functor`: an optional minus sign and at least one decimal digit. -/
def integerPropertyFunctor (value : Bytes) : Bool :=
  let digits := if value.head? = some Ch.minus then value.tail else value
  digits ≠ [] && digits.all fun c => 0x30 ≤ c && c ≤ 0x39

end Xss

end Cppcms
