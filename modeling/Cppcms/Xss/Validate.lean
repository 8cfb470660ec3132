import Cppcms.Xss.Split
import Cppcms.Xss.Nesting

/-!
# Validation and filtering

`validate_entry_by_rules`, `validate` and `validate_and_filter_if_invalid` of `src/xss.cpp`.

Both functions run the same passes: split, parse, pair the tags, check against the rules.  The first
one stops at the first problem.  The second one marks the entries that have a problem, together with
the partner of a tag, and then writes the text again, without them or with their special characters
escaped.
-/

namespace Cppcms

namespace Xss

/-! ## One entry -/

/-- The type of a tag in the white list allows an entry of the given type. -/
def tagTypeAllows : TagType → HtmlDataType → Bool
  | .invalidTag, _ => false
  | .standAlone, t => t == .openAndCloseTagWithoutSlash || t == .openAndCloseTag
  | .openingAndClosing, t => t == .openTag || t == .closeTag
  | .anyTag, _ => true

/-- The loop over the attributes of a tag; `found` holds the names seen so far. -/
def propertiesAllowed (r : Rules) (name : Bytes) (found : List Bytes) : List PropertyData → Bool
  | [] => true
  | prop :: props =>
    if found.any fun p => equivalent r.comp p prop.property then false
    else
      (match prop.value with
        | none => r.validBooleanProperty name prop.property
        | some value => r.validProperty name prop.property value) &&
      propertiesAllowed r name (prop.property :: found) props

/-- The checks on a tag of any form; the attributes of a closing tag are not looked at. -/
def tagAllowed (r : Rules) (part : Entry) : Bool :=
  tagTypeAllows (r.validTag part.tag.name) part.type &&
    (part.type == .closeTag || propertiesAllowed r part.tag.name [] part.tag.properties)

/-- `validate_entry_by_rules`. -/
def validateEntryByRules (part : Entry) (r : Rules) : Bool :=
  match part.type with
  | .invalidData => false
  | .plainText => true
  | .htmlTag => false
  | .htmlEntity => r.validEntity part.tag.name
  | .htmlComment => r.commentsAllowed
  | .htmlNumericEntity => r.numericEntitiesAllowed
  | .openTag => tagAllowed r part
  | .closeTag => tagAllowed r part
  | .openAndCloseTag => tagAllowed r part
  | .openAndCloseTagWithoutSlash => tagAllowed r part

/-! ## Validation -/

/-- No entry is invalid before or after parsing. -/
def partsParse (parts : List Entry) : Bool :=
  parts.all fun e => e.type != .invalidData && (parsePart e).type != .invalidData

/-- The part of `validate` after the encoding has been dealt with. -/
def validateText (s : Bytes) (r : Rules) : Bool :=
  let parts := splitToParts s
  let parsed := validateNesting (parts.map parsePart) r.isXhtml
  partsParse parts && parsed.all (fun e => e.type != .invalidData) &&
    parsed.all fun e => validateEntryByRules e r

/-- The text that is checked and its encoding test: the input itself, or its conversion to UTF-8 if
the encoding is not ASCII compatible.  `none` if the input is refused on the way. -/
def decodeInput (conv : Encoding.Conv) (s : Bytes) (r : Rules) : Option Bytes :=
  if r.encoding = [] then some s
  else if Encoding.isAsciiCompatible r.encoding then
    if Encoding.valid conv r.encoding s then some s else none
  else
    match conv.toUtf r.encoding s with
    | none => none
    | some t => if Encoding.valid conv (bytes "UTF-8") t then some t else none

/-- `validate`. -/
def validate (conv : Encoding.Conv) (s : Bytes) (r : Rules) : Bool :=
  match decodeInput conv s r with
  | none => false
  | some t => validateText t r

/-! ## Filtering -/

/-- `filtering_method_type`. -/
inductive FilteringMethod where
  | removeInvalid
  | escapeInvalid
  deriving DecidableEq, Repr

/-- One round of the loop that checks the rules: an entry that fails is marked, with its pair. -/
def killStep (r : Rules) (q : List Entry × Bool) (i : ℕ) : List Entry × Bool :=
  match q.1[i]? with
  | none => q
  | some e =>
    if validateEntryByRules e r then q
    else
      let parsed :=
        match e.tag.pair with
        | none => q.1
        | some pair => q.1.modify pair fun e => e.setType .invalidData
      (parsed.modify i fun e => e.setType .invalidData, false)

/-- The escaped form of a character. -/
def escapeChar (c : UInt8) : Bytes :=
  if c = Ch.lt then bytes "&lt;"
  else if c = Ch.gt then bytes "&gt;"
  else if c = Ch.amp then bytes "&amp;"
  else if c = Ch.quote then bytes "&quot;"
  else [c]

/-- What is written for an entry. -/
def writeEntry (method : FilteringMethod) (e : Entry) : Bytes :=
  if e.type = .invalidData then
    match method with
    | .removeInvalid => []
    | .escapeInvalid => e.text.flatMap escapeChar
  else e.text

/-- The part of `validate_and_filter_if_invalid` between decoding and encoding: whether everything
is valid, and the filtered text. -/
def filterText (s : Bytes) (r : Rules) (method : FilteringMethod) : Bool × Bytes :=
  let parts := splitToParts s
  let parsed := validateNesting (parts.map parsePart) r.isXhtml
  let valid := partsParse parts && parsed.all fun e => e.type != .invalidData
  let q := (List.range parsed.length).foldl (killStep r) (parsed, valid)
  (q.2, q.1.flatMap (writeEntry method))

/-- The first part of `validate_and_filter_if_invalid`: whether the input was valid in its encoding,
the text to work on and its encoding.  `none` stands for an exception. -/
def decodeAndFilterInput (conv : Encoding.Conv) (s : Bytes) (r : Rules) (replCh : UInt8) :
    Option (Bool × Bytes × Bytes) :=
  if r.encoding = [] then some (true, s, r.encoding)
  else
    let decoded : Option (Bool × Bytes × Bytes × UInt8) :=
      if Encoding.isAsciiCompatible r.encoding then some (true, s, r.encoding, replCh)
      else
        match conv.toUtf r.encoding s with
        | some t => some (true, t, bytes "UTF-8", 0)
        | none => (conv.toUtfSkip r.encoding s).map fun t => (false, t, bytes "UTF-8", 0)
    match decoded with
    | none => none
    | some (valid, t, workEncoding, replCh) =>
      match Encoding.validateOrFilter conv workEncoding t replCh with
      | .exception => none
      | .valid => some (valid, t, workEncoding)
      | .filtered t' => some (false, t', workEncoding)

/-- `validate_and_filter_if_invalid`: the returned flag and the contents of `output` afterwards;
`none` stands for an exception. -/
def validateAndFilterIfInvalid (conv : Encoding.Conv) (s : Bytes) (r : Rules) (output : Bytes)
    (method : FilteringMethod) (replCh : UInt8) : Option (Bool × Bytes) :=
  match decodeAndFilterInput conv s r replCh with
  | none => none
  | some (valid, t, workEncoding) =>
    let q := filterText t r method
    if valid && q.1 then some (true, output)
    else if workEncoding = r.encoding then some (false, q.2)
    else
      match conv.fromUtf r.encoding q.2 with
      | some tmp => some (false, tmp)
      | none => some (false, output)

/-! ## The checks, on the forest -/

/-- A property of every entry of a forest with its final type. -/
def Forest.All (P : Entry → Prop) : Forest → Prop
  | .nil => True
  | .leaf e t f => P (e.setType t) ∧ f.All P
  | .node o b c f => P o ∧ P c ∧ b.All P ∧ f.All P

variable {P : Entry → Prop} {e : Entry} {f : Forest}

@[simp] lemma Forest.all_append (f g : Forest) :
    (f.append g).All P ↔ f.All P ∧ g.All P := by
  induction f with
  | nil => simp [append, All]
  | leaf e t f ih => simp [append, All, ih, and_assoc]
  | node o b c f _ ih => simp [append, All, ih, and_assoc]

/-- A property that does not depend on the pair indices holds of the array if it holds of the
forest. -/
lemma Forest.forall_mem_flatten (hP : ∀ e i, P (e.setPair i) ↔ P e) (f : Forest) (off : ℕ) :
    (∀ e ∈ f.flatten off, P e) ↔ f.All P := by
  induction f generalizing off with
  | nil => simp [flatten, All]
  | leaf e t f ih => simp [flatten, All, ih]
  | node o b c f ihb ih =>
    simp only [flatten, All, List.forall_mem_cons, List.forall_mem_append, hP, ihb, ih]
    tauto

/-- The rules do not look at pairs. -/
lemma validateEntryByRules_setPair (e : Entry) (i : ℕ) (r : Rules) :
    validateEntryByRules (e.setPair i) r = validateEntryByRules e r := rfl

/-- An invalid entry fails the rules. -/
lemma ne_invalidData_of_rules {r : Rules} (h : validateEntryByRules e r = true) :
    e.type ≠ .invalidData := by
  intro he
  simp [validateEntryByRules, he] at h

/-- Parsing never makes an invalid entry valid. -/
lemma ne_invalidData_of_parsePart (h : (parsePart e).type ≠ .invalidData) :
    e.type ≠ .invalidData := by
  intro he
  simp [parsePart, he] at h

/-- The final types of a well paired forest are valid only for entries that were valid. -/
lemma Forest.ne_invalidData_of_all {xhtml : Bool} (hf : f.WellPaired xhtml)
    (h : f.All fun e => e.type ≠ .invalidData) : ∀ e ∈ f.toList, e.type ≠ .invalidData := by
  induction f with
  | nil => simp [toList]
  | leaf e t f ih =>
    obtain ⟨ht, hf⟩ := hf
    obtain ⟨he, h⟩ := h
    simp only [toList, List.forall_mem_cons]
    refine ⟨fun hi => he ?_, ih hf h⟩
    simp [ht, hi, leafType]
  | node o b c f ihb ih =>
    obtain ⟨-, -, -, hb, hf⟩ := hf
    obtain ⟨ho, hc, hball, hfall⟩ := h
    simp only [toList, List.forall_mem_cons, List.forall_mem_append]
    exact ⟨ho, ihb hb hball, hc, ih hf hfall⟩

lemma Forest.All.imp {P Q : Entry → Prop} (h : ∀ e, P e → Q e) (hf : f.All P) :
    f.All Q := by
  induction f with
  | nil => trivial
  | leaf e t f ih => exact ⟨h _ hf.1, ih hf.2⟩
  | node o b c f ihb ih => exact ⟨h _ hf.1, h _ hf.2.1, ihb hf.2.2.1, ih hf.2.2.2⟩

/-- A text is accepted exactly if every entry of its forest passes the rules. -/
theorem validateText_iff (s : Bytes) (r : Rules) :
    validateText s r = true ↔ (nestForest r.isXhtml ((splitToParts s).map parsePart)).All
      fun e => validateEntryByRules e r = true := by
  set es := (splitToParts s).map parsePart with hes
  have hrules : (∀ e ∈ validateNesting es r.isXhtml, validateEntryByRules e r = true) ↔
      (nestForest r.isXhtml es).All fun e => validateEntryByRules e r = true := by
    rw [validateNesting_eq]
    exact Forest.forall_mem_flatten (fun e i => by rw [validateEntryByRules_setPair]) _ 0
  rw [validateText]
  simp only [← hes, Bool.and_eq_true, List.all_eq_true, bne_iff_ne, ← hrules]
  refine ⟨fun h => h.2, fun h => ⟨⟨?_, fun e he => ne_invalidData_of_rules (h e he)⟩, h⟩⟩
  have hall := (hrules.mp h).imp (Q := fun e => e.type ≠ .invalidData) fun e =>
    ne_invalidData_of_rules
  have hparsed := Forest.ne_invalidData_of_all (nestForest_wellPaired r.isXhtml es) hall
  rw [nestForest_toList] at hparsed
  rw [partsParse, List.all_eq_true]
  intro e he
  have := hparsed (parsePart e) (List.mem_map_of_mem he)
  simp [this, ne_invalidData_of_parsePart this]

end Xss

end Cppcms
