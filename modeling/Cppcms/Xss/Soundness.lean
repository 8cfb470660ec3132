import Cppcms.Library.Delimiter
import Cppcms.Xss.Clean

/-!
# Soundness of the white list

What an accepted text looks like: it is a sequence of pieces (`Piece`), each of which is plain or is
allowed by the rules, and its tags are properly nested.  The pieces are described by grammars of
their own, which know nothing of the scanners of the filter; the lemmas of this file say of each
scanner that it accepts only words of its grammar.
-/

namespace Cppcms

namespace Xss

open Consume Delimiter

/-! ## The grammar of accepted texts -/

/-- An attribute value without raw `<` and `>`, in which every `&` starts one of the eight escapes.
-/
inductive SafeValue : Bytes → Prop
  | nil : SafeValue []
  | char {c : UInt8} {v : Bytes} (hlt : c ≠ Ch.lt) (hgt : c ≠ Ch.gt) (hamp : c ≠ Ch.amp)
      (hv : SafeValue v) : SafeValue (c :: v)
  | escape {e v : Bytes} (he : e ∈ valueEscapes) (hv : SafeValue v) :
      SafeValue (Ch.amp :: (e ++ v))

/-- The name of an attribute: letters and digits, the first one a letter. -/
def IsAttributeName (name : Bytes) : Prop :=
  (∃ c tl, name = c :: tl ∧ asciiIsalpha c = true) ∧ ∀ c ∈ name, asciiIsalnum c = true

/-- The name of a tag: letters and digits, the first one a letter or an underscore. -/
def IsTagName (name : Bytes) : Prop :=
  ∃ c tl, name = c :: tl ∧ asciiIsalpha c = true ∧ ∀ d ∈ tl, asciiIsalnum d = true

/-- The part of a tag between its name and its end, with the attributes it contains.  Every
attribute stands after white space (the flag), and a boolean one also before white space. -/
inductive AttributesText : Bool → Bytes → List PropertyData → Prop
  | nil (spaceFound : Bool) : AttributesText spaceFound [] []
  | space (spaceFound : Bool) {c : UInt8} {w : Bytes} {props : List PropertyData}
      (hc : asciiIsspace c = true) (hw : AttributesText true w props) :
      AttributesText spaceFound (c :: w) props
  | boolean {name w : Bytes} {c : UInt8} {props : List PropertyData} (hname : IsAttributeName name)
      (hc : asciiIsspace c = true) (hw : AttributesText true w props) :
      AttributesText true (name ++ c :: w) (⟨name, none⟩ :: props)
  | quoted {name value w : Bytes} {q : UInt8} {props : List PropertyData}
      (hname : IsAttributeName name) (hq : q = Ch.apostrophe ∨ q = Ch.quote)
      (hvalue : ∀ c ∈ value, c ≠ q) (hsafe : SafeValue value) (hw : AttributesText false w props) :
      AttributesText true (name ++ Ch.eq :: q :: (value ++ q :: w)) (⟨name, some value⟩ :: props)

/-- The characters of a numeric entity after `#`, and its base. -/
def IsNumericBody (body : Bytes) : Prop :=
  (body ≠ [] ∧ ∀ c ∈ body, asciiIsdigit c = true) ∨
    ∃ x digits, body = x :: digits ∧ (x = 0x78 ∨ x = 0x58) ∧ digits ≠ [] ∧
      ∀ c ∈ digits, asciiIsxdigit c = true

/-- The pieces of a text. -/
inductive Piece where
  | text (t : Bytes)
  | entity (name : Bytes)
  | numericEntity (body : Bytes)
  | comment (body : Bytes)
  /-- `<name attributes>` with a partner -/
  | openTag (name attributes : Bytes) (props : List PropertyData)
  /-- `<name attributes>` without a partner -/
  | standAloneTag (name attributes : Bytes) (props : List PropertyData)
  /-- `<name attributes/>` -/
  | openAndCloseTag (name attributes : Bytes) (props : List PropertyData)
  /-- `</name>`, possibly with white space before its end -/
  | closeTag (name spaces : Bytes)

namespace Piece

/-- The text of a piece. -/
def render : Piece → Bytes
  | text t => t
  | entity name => Ch.amp :: (name ++ [Ch.semicolon])
  | numericEntity body => Ch.amp :: Ch.hash :: (body ++ [Ch.semicolon])
  | comment body =>
    [Ch.lt, Ch.exclamation, Ch.minus, Ch.minus] ++ body ++ [Ch.minus, Ch.minus, Ch.gt]
  | openTag name attributes _ => Ch.lt :: (name ++ attributes ++ [Ch.gt])
  | standAloneTag name attributes _ => Ch.lt :: (name ++ attributes ++ [Ch.gt])
  | openAndCloseTag name attributes _ => Ch.lt :: (name ++ attributes ++ [Ch.slash, Ch.gt])
  | closeTag name spaces => Ch.lt :: Ch.slash :: (name ++ spaces ++ [Ch.gt])

/-- The tags as delimiters, labelled with what counts of their names. -/
def delimiter (r : Rules) : Piece → Option (Delimiter Bytes)
  | openTag name _ _ => some (opening (r.key name))
  | closeTag name _ => some (closing (r.key name))
  | _ => none

end Piece

/-- An attribute is white-listed for the tag, and its value is one that the white list accepts: the
validator of the attribute accepts it, or the attribute is boolean and written as the mode asks. -/
def AttributeAllowed (r : Rules) (name : Bytes) (prop : PropertyData) : Prop :=
  (∃ validator value, r.impl.property r.comp name prop.property = some (some validator) ∧
      prop.value = some value ∧ validator value = true) ∨
    r.impl.property r.comp name prop.property = some none ∧
      prop.value = if r.isXhtml then some prop.property else none

/-- The attributes of a tag: their text is well formed, every one is allowed, and none occurs twice.
-/
def AttributesAllowed (r : Rules) (name attributes : Bytes) (props : List PropertyData) : Prop :=
  AttributesText false attributes props ∧ (∀ prop ∈ props, AttributeAllowed r name prop) ∧
    (props.map fun prop => r.key prop.property).Nodup

/-- A piece is allowed by the rules. -/
def Piece.Allowed (r : Rules) : Piece → Prop
  | text t => ∀ c ∈ t, c ≠ Ch.lt ∧ c ≠ Ch.gt ∧ c ≠ Ch.amp
  | entity name => name ∈ r.impl.entities
  | numericEntity body => r.numericEntitiesAllowed = true ∧ IsNumericBody body
  | comment body => r.commentsAllowed = true ∧ (∀ c ∈ body, c ≠ Ch.lt ∧ c ≠ Ch.gt ∧ c ≠ Ch.amp) ∧
      ¬ [Ch.minus, Ch.minus] <:+: body
  | openTag name attributes props => IsTagName name ∧
      (r.validTag name = .openingAndClosing ∨ r.validTag name = .anyTag) ∧
      AttributesAllowed r name attributes props
  | standAloneTag name attributes props => r.isXhtml = false ∧ IsTagName name ∧
      (r.validTag name = .standAlone ∨ r.validTag name = .anyTag) ∧
      AttributesAllowed r name attributes props
  | openAndCloseTag name attributes props => IsTagName name ∧
      (r.validTag name = .standAlone ∨ r.validTag name = .anyTag) ∧
      AttributesAllowed r name attributes props
  | closeTag name spaces => IsTagName name ∧
      (r.validTag name = .openingAndClosing ∨ r.validTag name = .anyTag) ∧
      ∀ c ∈ spaces, asciiIsspace c = true

/-- A text is a sequence of allowed pieces, and its tags are balanced. -/
def WhiteListed (r : Rules) (s : Bytes) : Prop :=
  ∃ ps : List Piece, s = ps.flatMap Piece.render ∧ (∀ p ∈ ps, p.Allowed r) ∧
    Balanced (ps.filterMap (Piece.delimiter r))

/-! ## Attribute values -/

/-- The rest after an escape. -/
lemma eq_append_of_endsWith {range value rest : Bytes} (h : endsWith range value = some rest) :
    range = value ++ rest := by
  rw [endsWith] at h
  split_ifs at h with h1 h2
  have := List.take_append_drop value.length range
  rw [h2, Option.some.inj h] at this
  exact this.symm

variable {s : Bytes} {z : Bytes} {c : UInt8} {w : Bytes} {n : ℕ} {spaceFound : Bool}
  {props : List PropertyData} {body : Bytes} {name : Bytes} {e : Entry} {r : Rules} {p : Entry}

/-- One round reads a plain character or an escape. -/
lemma valueStep_eq_some {u : Unit} {t : Bytes} (h : valueStep s = some (u, t)) :
    (∃ c, s = c :: t ∧ c ≠ Ch.lt ∧ c ≠ Ch.gt ∧ c ≠ Ch.amp) ∨
      ∃ e ∈ valueEscapes, s = Ch.amp :: (e ++ t) := by
  cases s with
  | nil => simp [valueStep] at h
  | cons c s =>
    rw [valueStep] at h
    split_ifs at h with h1 h2
    · obtain ⟨r, hr, hrt⟩ := Option.map_eq_some_iff.mp h
      obtain ⟨e, he, her⟩ := List.exists_of_findSome?_eq_some hr
      obtain rfl : r = t := (Prod.ext_iff.mp hrt).2
      exact Or.inr ⟨e, he, by rw [h2, eq_append_of_endsWith her]⟩
    · obtain rfl : s = t := (Prod.ext_iff.mp (Option.some.inj h)).2
      push Not at h1
      exact Or.inl ⟨c, rfl, h1.1, h1.2, h2⟩

lemma shortens_valueStep : Shortens valueStep := by
  intro s u t h
  rcases valueStep_eq_some h with ⟨c, rfl, -⟩ | ⟨e, -, rfl⟩
  · simp
  · simp

/-- A value that is accepted is safe. -/
lemma safeValue_of_validate {value : Bytes} (h : validatePropertyValue value = true) :
    SafeValue value := by
  rw [validatePropertyValue] at h
  induction value using consume_induction shortens_valueStep with
  | nil => exact .nil
  | fail s hs hstep =>
    rw [consume_of_step_none hs hstep] at h
    simp at h
  | next s u t hs hstep ih =>
    rw [consume_of_step shortens_valueStep hs hstep, Option.isSome_map] at h
    rcases valueStep_eq_some hstep with ⟨c, rfl, hlt, hgt, hamp⟩ | ⟨e, he, rfl⟩
    · exact .char hlt hgt hamp (ih h)
    · exact .escape he (ih h)

/-! ## Attributes -/

/-- How a tag ends. -/
def IsTagEnd (z : Bytes) : Prop := z = [Ch.gt] ∨ z = [Ch.slash, Ch.gt]

/-- The first character of the end of a tag. -/
lemma IsTagEnd.exists_cons (hz : IsTagEnd z) :
    ∃ d z', z = d :: z' ∧ (d = Ch.gt ∨ d = Ch.slash) := by
  rcases hz with rfl | rfl
  · exact ⟨_, _, rfl, Or.inl rfl⟩
  · exact ⟨_, _, rfl, Or.inr rfl⟩

/-- Scanning stops at the latest at a character that is not scanned over. -/
lemma takeWhile_append_cons {p : UInt8 → Bool} {d : UInt8} (hd : p d = false) (w z : Bytes) :
    (w ++ d :: z).takeWhile p = w.takeWhile p ∧
      (w ++ d :: z).dropWhile p = w.dropWhile p ++ d :: z := by
  induction w with
  | nil => simp [hd]
  | cons c w ih =>
    cases hc : p c
    · simp [hc]
    · simpa [hc] using ih

/-- A name starts where scanning starts, if the first character is a letter. -/
lemma isAttributeName_takeWhile (hc : asciiIsalpha c = true)
    (hne : (c :: w).takeWhile asciiIsalnum ≠ []) :
    IsAttributeName ((c :: w).takeWhile asciiIsalnum) := by
  have hcn : asciiIsalnum c = true := by
    by_contra h
    simp [h] at hne
  refine ⟨⟨c, w.takeWhile asciiIsalnum, ?_, hc⟩, fun d hd => List.mem_takeWhile_imp hd⟩
  simp [hcn]

/-- Scanning for the closing quote, up to the end `z` of the tag. -/
lemma scan_value {q : UInt8} {w z : Bytes}
    (hlen : ¬ ((w ++ z).drop (((w ++ z).take ((w ++ z).length - z.length)).takeWhile
      (fun c => decide (c ≠ q))).length).length ≤ z.length) :
    ∃ value w', (∀ c ∈ value, c ≠ q) ∧ w = value ++ q :: w' ∧
      ((w ++ z).take ((w ++ z).length - z.length)).takeWhile (fun c => decide (c ≠ q)) = value ∧
      ((w ++ z).drop value.length).drop 1 = w' ++ z := by
  have htake : (w ++ z).take ((w ++ z).length - z.length) = w := by simp
  rw [htake] at hlen ⊢
  set value := w.takeWhile fun c => decide (c ≠ q) with hvalue
  have hw : w = value ++ w.dropWhile fun c => decide (c ≠ q) :=
    (List.takeWhile_append_dropWhile).symm
  have hdrop : (w ++ z).drop value.length = (w.dropWhile fun c => decide (c ≠ q)) ++ z := by
    nth_rewrite 1 [hw]
    rw [List.append_assoc]
    exact List.drop_left
  rw [hdrop] at hlen
  cases hclose : w.dropWhile fun c => decide (c ≠ q) with
  | nil =>
    rw [hclose] at hlen
    simp at hlen
  | cons d w' =>
    obtain rfl : d = q := by
      have := List.head?_dropWhile_not (fun c => decide (c ≠ q)) w
      rw [hclose] at this
      simpa using this
    refine ⟨value, w', fun c hc => ?_, hclose ▸ hw, rfl, by rw [hdrop, hclose]; rfl⟩
    have := List.mem_takeWhile_imp hc
    simpa using this

/-- What one round of the loop over the attributes does in front of the end of the tag. -/
lemma parsePropertiesLoop_succ (hz : IsTagEnd z) {props out : List PropertyData}
    (h : parsePropertiesLoop z.length (n + 1) spaceFound (w ++ z) props = some out) :
    (w = [] ∧ out = props) ∨
      (∃ c w', w = c :: w' ∧ asciiIsspace c = true ∧
        parsePropertiesLoop z.length n true (w' ++ z) props = some out) ∨
      (∃ name c w', spaceFound = true ∧ w = name ++ c :: w' ∧ IsAttributeName name ∧
        asciiIsspace c = true ∧
        parsePropertiesLoop z.length n true (w' ++ z) (props ++ [⟨name, none⟩]) = some out) ∨
      ∃ name q value w', spaceFound = true ∧ w = name ++ Ch.eq :: q :: (value ++ q :: w') ∧
        IsAttributeName name ∧ (q = Ch.apostrophe ∨ q = Ch.quote) ∧ (∀ c ∈ value, c ≠ q) ∧
        SafeValue value ∧
        parsePropertiesLoop z.length n false (w' ++ z) (props ++ [⟨name, some value⟩]) =
          some out := by
  obtain ⟨d, z', hzd, hd⟩ := hz.exists_cons
  have hdn : asciiIsalnum d = false ∧ asciiIsspace d = false ∧ d ≠ Ch.eq ∧ d ≠ Ch.apostrophe ∧
      d ≠ Ch.quote := by
    rcases hd with rfl | rfl <;> decide
  cases w with
  | nil =>
    rw [hzd, List.nil_append, parsePropertiesLoop, if_pos (by simp)] at h
    exact Or.inl ⟨rfl, (Option.some.inj h).symm⟩
  | cons c w =>
    rw [List.cons_append, parsePropertiesLoop, if_neg (by simp)] at h
    by_cases hsp : asciiIsspace c = true
    · rw [if_pos hsp] at h
      exact Or.inr (Or.inl ⟨c, w, rfl, hsp, h⟩)
    rw [if_neg hsp] at h
    cases hfound : spaceFound
    · simp [hfound] at h
    by_cases halpha : asciiIsalpha c = true
    swap
    · simp [hfound, halpha] at h
    simp only [hfound, halpha, Bool.not_true, Bool.false_eq_true, if_false] at h
    have hscan := takeWhile_append_cons hdn.1 (c :: w) z'
    rw [← hzd, List.cons_append] at hscan
    rw [hscan.1, hscan.2] at h
    set name := (c :: w).takeWhile asciiIsalnum with hname
    have hsplit : c :: w = name ++ (c :: w).dropWhile asciiIsalnum :=
      (List.takeWhile_append_dropWhile).symm
    cases hrest : (c :: w).dropWhile asciiIsalnum with
    | nil =>
      -- the name reaches the end of the tag
      simp [hrest, hzd, hdn.2.1, hdn.2.2.1] at h
    | cons e rest =>
      rw [hrest] at hsplit
      rw [hrest, List.cons_append] at h
      have hIsName : asciiIsspace e = true ∨ e = Ch.eq → IsAttributeName name := by
        intro he
        refine isAttributeName_takeWhile halpha fun hnil => ?_
        rw [← hname] at hnil
        rw [hnil] at hsplit
        obtain ⟨rfl, -⟩ : c = e ∧ w = rest := by simpa using hsplit
        rcases he with he | rfl
        · exact hsp he
        · exact absurd halpha (by decide)
      by_cases hesp : asciiIsspace e = true
      · simp only [hesp, if_true] at h
        exact Or.inr (Or.inr (Or.inl ⟨name, e, rest, rfl, hsplit, hIsName (Or.inl hesp), hesp, h⟩))
      by_cases heq : e = Ch.eq
      swap
      · simp [heq, hesp] at h
      have heq' : asciiIsspace Ch.eq = false := by decide
      simp only [heq, heq', Bool.false_eq_true, if_false, ne_eq, not_true_eq_false] at h
      cases rest with
      | nil =>
        -- the end of the tag stands where a quote should be
        simp [hzd, hdn.2.2.2.1, hdn.2.2.2.2] at h
      | cons q rest =>
        simp only [List.cons_append] at h
        split_ifs at h with hq hlen hsafe
        have hq' : q = Ch.apostrophe ∨ q = Ch.quote := by tauto
        obtain ⟨value, w', hvalue, hrest', hv, hafter⟩ := scan_value hlen
        simp only [ne_eq] at hv
        rw [hv] at h hsafe
        rw [hafter] at h
        refine Or.inr
          (Or.inr
            (Or.inr ⟨name, q, value, w', rfl, ?_, hIsName (Or.inr heq), hq', hvalue,
            safeValue_of_validate (by simpa using hsafe), h⟩))
        rw [hsplit, heq, hrest']

/-- What the loop over the attributes accepts. -/
lemma attributesText_of_loop (hz : IsTagEnd z) {props out : List PropertyData}
    (h : parsePropertiesLoop z.length n spaceFound (w ++ z) props = some out) :
    ∃ new, out = props ++ new ∧ AttributesText spaceFound w new := by
  induction n generalizing spaceFound w props with
  | zero => simp [parsePropertiesLoop] at h
  | succ n ih =>
    rcases parsePropertiesLoop_succ hz h with ⟨rfl, rfl⟩ | ⟨c, w', rfl, hc, h⟩ |
      ⟨name, c, w', rfl, rfl, hname, hc, h⟩ | ⟨name, q, value, w', rfl, rfl, hname, hq, hv, hs, h⟩
    · exact ⟨[], by simp, .nil _⟩
    · obtain ⟨new, hout, hw⟩ := ih h
      exact ⟨new, hout, .space _ hc hw⟩
    · obtain ⟨new, hout, hw⟩ := ih h
      exact ⟨_ :: new, by simpa using hout, .boolean hname hc hw⟩
    · obtain ⟨new, hout, hw⟩ := ih h
      exact ⟨_ :: new, by simpa using hout, .quoted hname hq hv hs hw⟩

/-- The attributes of a tag, after its name. -/
lemma attributesText_of_parseProperties {w z : Bytes} (hz : IsTagEnd z)
    (h : parseProperties (w ++ z) z.length = some props)
    (hw : ∀ c tl, w = c :: tl → asciiIsalnum c = false) : AttributesText false w props := by
  obtain ⟨new, hout, htext⟩ := attributesText_of_loop hz h
  obtain rfl : props = new := by simpa using hout
  -- the first character is no letter, so it is white space
  have hname : ∀ {name u : Bytes}, IsAttributeName name → w ≠ name ++ u := by
    rintro name u ⟨⟨c, tl, rfl, -⟩, hall⟩ hwu
    have := hw c (tl ++ u) hwu
    rw [hall c (by simp)] at this
    simp at this
  generalize htrue : true = b at htext
  cases htext with
  | nil => exact .nil _
  | space _ hc htext => exact .space _ hc htext
  | boolean h1 _ _ => exact absurd rfl (hname h1)
  | quoted h1 _ _ _ _ => exact absurd rfl (hname h1)

/-! ## Tags -/

/-- An opening tag, after `<`. -/
lemma parseOpenTag_shape {t : HtmlDataType}
    (h : parseOpenTag (body ++ [Ch.gt]) = some (t, name, props)) :
    IsTagName name ∧ ∃ attributes, AttributesText false attributes props ∧
      (t = .openTag ∧ body = name ++ attributes ∨
        t = .openAndCloseTag ∧ body = name ++ attributes ++ [Ch.slash]) := by
  cases body with
  | nil => simp [parseOpenTag, asciiIsalpha] at h
  | cons c begin =>
    rw [List.cons_append, parseOpenTag] at h
    split_ifs at h with halpha
    rw [Bool.not_eq_true', Bool.not_eq_false] at halpha
    have hlast : (c :: (begin ++ [Ch.gt])).dropLast = c :: begin := by
      rw [← List.cons_append, List.dropLast_concat]
    simp only [hlast, Option.map_eq_some_iff, Prod.mk.injEq] at h
    obtain ⟨props', hprops, ht, hname, rfl⟩ := h
    have hIsName : IsTagName name :=
      ⟨c, _, hname.symm, halpha, fun d hd => List.mem_takeWhile_imp hd⟩
    -- the attributes start with a character that does not belong to the name
    have hattr : ∀ {w z : Bytes} (hz : IsTagEnd z), begin ++ [Ch.gt] = w ++ z →
        parseProperties ((begin ++ [Ch.gt]).dropWhile asciiIsalnum) z.length = some props' →
        name = c :: w.takeWhile asciiIsalnum ∧
          AttributesText false (w.dropWhile asciiIsalnum) props' := by
      intro w z hz hw hp
      obtain ⟨d, z', rfl, hd⟩ := hz.exists_cons
      have hdn : asciiIsalnum d = false := by rcases hd with rfl | rfl <;> decide
      obtain ⟨htake, hdrop⟩ := takeWhile_append_cons hdn w z'
      rw [hw, hdrop] at hp
      rw [hw, htake] at hname
      refine ⟨hname.symm, attributesText_of_parseProperties hz hp fun e tl he => ?_⟩
      have := List.head?_dropWhile_not asciiIsalnum w
      rw [he] at this
      simpa using this
    refine ⟨hIsName, ?_⟩
    by_cases hslash : (c :: begin).getLast? = some Ch.slash
    · simp only [hslash, if_true] at ht hprops
      obtain ⟨w, hw⟩ : ∃ w, begin = w ++ [Ch.slash] := by
        rw [List.getLast?_eq_some_iff] at hslash
        obtain ⟨w, hw⟩ := hslash
        cases w with
        | nil =>
          obtain ⟨rfl, -⟩ : c = Ch.slash ∧ begin = [] := by simpa using hw
          exact absurd halpha (by decide)
        | cons d w => exact ⟨w, by simpa using (List.cons_eq_cons.mp hw).2⟩
      obtain ⟨hname, htext⟩ := hattr (w := w) (z := [Ch.slash, Ch.gt]) (Or.inr rfl)
        (by simp [hw]) hprops
      refine ⟨_, htext, Or.inr ⟨ht.symm, ?_⟩⟩
      rw [hname, hw]
      simp [List.takeWhile_append_dropWhile]
    · simp only [hslash, if_false] at ht hprops
      obtain ⟨hname, htext⟩ := hattr (w := begin) (z := [Ch.gt]) (Or.inl rfl) rfl hprops
      refine ⟨_, htext, Or.inl ⟨ht.symm, ?_⟩⟩
      rw [hname]
      simp [List.takeWhile_append_dropWhile]

/-- A closing tag, after `</`. -/
lemma parseCloseTag_shape {body name : Bytes} (h : parseCloseTag (body ++ [Ch.gt]) = some name) :
    IsTagName name ∧ ∃ spaces, body = name ++ spaces ∧ ∀ c ∈ spaces, asciiIsspace c = true := by
  cases body with
  | nil => simp [parseCloseTag, asciiIsalpha] at h
  | cons c begin =>
    rw [List.cons_append, parseCloseTag] at h
    split_ifs at h with halpha hlen
    rw [Bool.not_eq_true', Bool.not_eq_false] at halpha
    obtain ⟨htake, hdrop⟩ := takeWhile_append_cons (p := asciiIsalnum) (d := Ch.gt) (by decide)
      begin []
    rw [hdrop, (takeWhile_append_cons (p := asciiIsspace) (d := Ch.gt) (by decide) _ []).2] at hlen
    rw [htake] at h
    obtain rfl := Option.some.inj h
    refine ⟨⟨c, _, rfl, halpha, fun d hd => List.mem_takeWhile_imp hd⟩,
      begin.dropWhile asciiIsalnum, by simp [List.takeWhile_append_dropWhile], ?_⟩
    have hnil : (begin.dropWhile asciiIsalnum).dropWhile asciiIsspace = [] := by
      simpa using hlen
    exact List.dropWhile_eq_nil_iff.mp hnil

/-- A parsed tag. -/
lemma parseHtmlTag_shape (he : e = parseHtmlTag ⟨Ch.lt :: (body ++ [Ch.gt]), .htmlTag, {}⟩) :
    e.text = Ch.lt :: (body ++ [Ch.gt]) ∧ (e.type = .invalidData ∨
      (e.type = .closeTag ∧ IsTagName e.tag.name ∧
        ∃ spaces, body = Ch.slash :: (e.tag.name ++ spaces) ∧
        ∀ c ∈ spaces, asciiIsspace c = true) ∨
      (IsTagName e.tag.name ∧ ∃ attributes, AttributesText false attributes e.tag.properties ∧
        (e.type = .openTag ∧ body = e.tag.name ++ attributes ∨
          e.type = .openAndCloseTag ∧ body = e.tag.name ++ attributes ++ [Ch.slash]))) := by
  subst he
  unfold parseHtmlTag
  split
  · exact ⟨rfl, Or.inl rfl⟩
  · exact ⟨rfl, Or.inl rfl⟩
  · rename_i c d begin hbody
    rw [List.tail_cons] at hbody
    split_ifs with hc
    · split
      · exact ⟨rfl, Or.inl rfl⟩
      · rename_i name hname
        refine ⟨rfl, Or.inr (Or.inl ?_)⟩
        -- the closing character is not the slash, so it stands at the end of the rest
        obtain ⟨w, rfl, hw⟩ : ∃ w, body = Ch.slash :: w ∧ d :: begin = w ++ [Ch.gt] := by
          cases body with
          | nil => simp at hbody
          | cons c' w =>
            obtain ⟨rfl, hw⟩ : c' = c ∧ w ++ [Ch.gt] = d :: begin := by simpa using hbody
            exact ⟨w, by rw [hc], hw.symm⟩
        rw [hw] at hname
        obtain ⟨hIsName, spaces, rfl, hsp⟩ := parseCloseTag_shape hname
        exact ⟨rfl, hIsName, spaces, rfl, hsp⟩
    · split
      · exact ⟨rfl, Or.inl rfl⟩
      · rename_i t name props hname
        rw [← hbody] at hname
        exact ⟨rfl, Or.inr (Or.inr (parseOpenTag_shape hname))⟩

/-! ## Entities and comments -/

/-- A numeric entity, after `#`. -/
lemma isNumericBody_of_numericEntity (h : parseHtmlEntityType (c :: body) = .htmlNumericEntity) :
    c = Ch.hash ∧ IsNumericBody body := by
  simp only [parseHtmlEntityType] at h
  split_ifs at h with hc hall
  refine ⟨hc, ?_⟩
  split at h
  · simp at h
  · rename_i d digits
    split_ifs at h with hx hnil hhex hdec
    · rw [numericLegal, Bool.and_eq_true, List.all_eq_true] at hhex
      exact Or.inr ⟨d, digits, rfl, hx, hnil, hhex.1⟩
    · rw [numericLegal, Bool.and_eq_true, List.all_eq_true] at hdec
      exact Or.inl ⟨by simp, hdec.1⟩

/-- A parsed entity. -/
lemma parseHtmlEntity_shape
    (he : e = parseHtmlEntity ⟨Ch.amp :: (body ++ [Ch.semicolon]), .htmlEntity, {}⟩) :
    e.type = .invalidData ∨
      (e.type = .htmlEntity ∧ e.text = (Piece.entity e.tag.name).render) ∨
      (e.type = .htmlNumericEntity ∧
        ∃ digits, IsNumericBody digits ∧ e.text = (Piece.numericEntity digits).render) := by
  have hbody : (Ch.amp :: (body ++ [Ch.semicolon])).tail.dropLast = body := by simp
  subst he
  simp only [parseHtmlEntity, hbody]
  cases ht : parseHtmlEntityType body with
  | htmlEntity => exact Or.inr (Or.inl ⟨rfl, rfl⟩)
  | invalidData => exact Or.inl rfl
  | htmlNumericEntity =>
    refine Or.inr (Or.inr ⟨rfl, ?_⟩)
    cases body with
    | nil => simp [parseHtmlEntityType] at ht
    | cons c digits =>
      obtain ⟨rfl, hdigits⟩ := isNumericBody_of_numericEntity ht
      exact ⟨digits, hdigits, rfl⟩
  | _ =>
    -- no other type comes out of an entity
    exfalso
    unfold parseHtmlEntityType at ht
    split at ht
    · simp at ht
    · split_ifs at ht
      split at ht
      · simp at ht
      · split_ifs at ht

/-- What was passed over before the first two dashes contains no two dashes. -/
lemma not_infix_of_scanDashes (s : Bytes) : ¬ [Ch.minus, Ch.minus] <:+: (scanDashes s).1 := by
  induction s with
  | nil => simp [scanDashes]
  | cons a s ih =>
    rcases s with _ | ⟨b, e⟩
    · simp [scanDashes]
    unfold scanDashes
    split_ifs with hab
    · simp
    rw [List.infix_cons_iff]
    rintro (hpre | hin)
    · obtain ⟨t, ht⟩ := hpre
      obtain ⟨rfl, htail⟩ : Ch.minus = a ∧ Ch.minus :: t = (scanDashes (b :: e)).1 := by
        simpa using ht
      have happ := scanDashes_append (b :: e)
      rw [← htail, List.cons_append] at happ
      exact hab ⟨rfl, (List.cons_eq_cons.mp happ).1.symm⟩
    · exact ih hin

/-- The characters that may stand in plain text. -/
lemma ne_of_isSpecial (h : isSpecial c = false) : c ≠ Ch.lt ∧ c ≠ Ch.gt ∧ c ≠ Ch.amp := by
  simp only [isSpecial, Bool.or_eq_false_iff, beq_eq_false_iff_ne] at h
  exact ⟨h.1.1, h.1.2, h.2⟩

/-! ## Entries as pieces -/

/-- The attributes of a tag pass the rules. -/
lemma attributeAllowed_of_properties {found : List Bytes}
    (h : propertiesAllowed r name found props = true) :
    (∀ prop ∈ props, AttributeAllowed r name prop) ∧
      (props.map fun prop => r.key prop.property).Nodup ∧
      ∀ p ∈ found, ∀ prop ∈ props, r.key p ≠ r.key prop.property := by
  induction props generalizing found with
  | nil => simp
  | cons prop props ih =>
    rw [propertiesAllowed] at h
    split_ifs at h with hany
    rw [Bool.and_eq_true] at h
    obtain ⟨hall, hnodup, hfound⟩ := ih h.2
    have hthis : AttributeAllowed r name prop := by
      have h1 := h.1
      cases hv : prop.value with
      | none =>
        simp only [hv, Rules.validBooleanProperty, RulesHolder.validBooleanProperty] at h1
        split_ifs at h1 with hx
        split at h1
        · rename_i hp
          exact Or.inr ⟨hp, by simp [hv, hx]⟩
        · simp at h1
      | some value =>
        simp only [hv, Rules.validProperty, RulesHolder.validProperty] at h1
        split at h1
        · simp at h1
        · rename_i hp
          split_ifs at h1 with hx
          have hkey := (equivalent_comp r prop.property value).mp h1
          simp only [Rules.key, hx, if_true] at hkey
          exact Or.inr ⟨hp, by simp [hv, hx, hkey]⟩
        · rename_i validator hp
          exact Or.inl ⟨validator, value, hp, hv, h1⟩
    have hnew : ∀ p ∈ found, r.key p ≠ r.key prop.property := by
      intro p hp hkey
      apply hany
      rw [List.any_eq_true]
      exact ⟨p, hp, (equivalent_comp r p prop.property).mpr hkey⟩
    refine ⟨List.forall_mem_cons.mpr ⟨hthis, hall⟩, ?_, ?_⟩
    · rw [List.map_cons, List.nodup_cons]
      refine ⟨fun hmem => ?_, hnodup⟩
      obtain ⟨prop', hprop', hkey⟩ := List.mem_map.mp hmem
      exact hfound prop.property (by simp) prop' hprop' hkey.symm
    · intro p hp
      rw [List.forall_mem_cons]
      exact ⟨hnew p hp, hfound p (List.mem_cons_of_mem _ hp)⟩

lemma attributesAllowed_of_entry {attributes : Bytes}
    (htext : AttributesText false attributes e.tag.properties) (h : attributesAllowed r e = true) :
    AttributesAllowed r e.tag.name attributes e.tag.properties := by
  obtain ⟨hall, hnodup, -⟩ := attributeAllowed_of_properties h
  exact ⟨htext, hall, hnodup⟩

/-- What a parsed entry looks like. -/
lemma parsePart_shape (hp : p ∈ splitToParts s) (he : e = parsePart p) :
    (e.type = .plainText ∧ ∀ c ∈ e.text, isSpecial c = false) ∨ e.type = .invalidData ∨
      (e.type = .htmlEntity ∧ e.text = (Piece.entity e.tag.name).render) ∨
      (e.type = .htmlNumericEntity ∧
        ∃ digits, IsNumericBody digits ∧ e.text = (Piece.numericEntity digits).render) ∨
      (e.type = .htmlComment ∧ ∃ body, (∀ c ∈ body, isSpecial c = false) ∧
        ¬ [Ch.minus, Ch.minus] <:+: body ∧ e.text = (Piece.comment body).render) ∨
      (e.type = .closeTag ∧ IsTagName e.tag.name ∧ ∃ spaces,
        (∀ c ∈ spaces, asciiIsspace c = true) ∧
        e.text = (Piece.closeTag e.tag.name spaces).render) ∨
      (IsTagName e.tag.name ∧ ∃ attributes, AttributesText false attributes e.tag.properties ∧
        (e.type = .openTag ∧ e.text =
            (Piece.openTag e.tag.name attributes e.tag.properties).render ∨
          e.type = .openAndCloseTag ∧ e.text =
            (Piece.openAndCloseTag e.tag.name attributes e.tag.properties).render)) := by
  obtain ⟨q, hq⟩ := exists_splitPart_of_mem hp
  rcases splitPart_cases hq with ⟨ht, hsp⟩ | ht | ⟨body, -, rfl⟩ | ⟨body, -, -, rfl⟩ |
    ⟨pre, hpre, hs, rfl⟩
  · obtain rfl : e = p := by simp [he, parsePart, ht]
    exact Or.inl ⟨ht, hsp⟩
  · obtain rfl : e = p := by simp [he, parsePart, ht]
    exact Or.inr (Or.inl ht)
  · rcases parseHtmlEntity_shape he with h | h | h
    · exact Or.inr (Or.inl h)
    · exact Or.inr (Or.inr (Or.inl h))
    · exact Or.inr (Or.inr (Or.inr (Or.inl h)))
  · obtain ⟨htext, h | ⟨ht, hname, spaces, hbody, hsp⟩ | ⟨hname, attributes, hattr, h⟩⟩ :=
      parseHtmlTag_shape he
    · exact Or.inr (Or.inl h)
    · refine Or.inr (Or.inr (Or.inr (Or.inr (Or.inr (Or.inl ⟨ht, hname, spaces, hsp, ?_⟩)))))
      rw [htext, hbody]
      rfl
    · refine Or.inr (Or.inr (Or.inr (Or.inr (Or.inr (Or.inr ⟨hname, attributes, hattr, ?_⟩)))))
      refine h.imp (fun h => ⟨h.1, ?_⟩) fun h => ⟨h.1, ?_⟩
      · rw [htext, h.2]
        rfl
      · rw [htext, h.2]
        simp [Piece.render]
  · refine Or.inr
      (Or.inr (Or.inr (Or.inr (Or.inl ⟨by rw [he]; rfl, pre, hpre, ?_, by rw [he]; rfl⟩))))
    have := not_infix_of_scanDashes (pre ++ Ch.minus :: Ch.minus :: [])
    rwa [hs []] at this

/-- A leaf that passes the rules is an allowed piece outside the nesting. -/
lemma exists_piece_of_leaf (hp : p ∈ splitToParts s) (he : e = parsePart p)
    (hok : validateEntryByRules (e.setType (leafType r.isXhtml e.type)) r = true) :
    ∃ q : Piece, q.render = e.text ∧ q.Allowed r ∧ q.delimiter r = none := by
  rcases parsePart_shape hp he with ⟨ht, hsp⟩ | ht | ⟨ht, htext⟩ | ⟨ht, digits, hdigits, htext⟩ |
    ⟨ht, body, hsp, hdash, htext⟩ | ⟨ht, -⟩ | ⟨hname, attributes, hattr, ⟨ht, htext⟩ | ⟨ht, htext⟩⟩
  · exact ⟨.text e.text, rfl, fun c hc => ne_of_isSpecial (hsp c hc), rfl⟩
  · simp [ht, leafType, validateEntryByRules] at hok
  · refine ⟨.entity e.tag.name, htext.symm, ?_, rfl⟩
    have hvalid : r.validEntity e.tag.name = true := by
      simpa [ht, leafType, validateEntryByRules] using hok
    rw [Rules.validEntity, RulesHolder.validEntity, List.any_eq_true] at hvalid
    obtain ⟨name, hmem, heq⟩ := hvalid
    exact (equivalent_compare _ _).mp heq ▸ hmem
  · exact ⟨.numericEntity digits, htext.symm,
      ⟨by simpa [ht, leafType, validateEntryByRules] using hok, hdigits⟩, rfl⟩
  · exact ⟨.comment body, htext.symm, ⟨by simpa [ht, leafType, validateEntryByRules] using hok,
      fun c hc => ne_of_isSpecial (hsp c hc), hdash⟩, rfl⟩
  · simp [ht, leafType, validateEntryByRules] at hok
  · cases hx : r.isXhtml with
    | true => simp [ht, hx, leafType, unclosedType, validateEntryByRules] at hok
    | false =>
      simp only [ht, hx, leafType, unclosedType, Bool.false_eq_true, if_false] at hok
      obtain ⟨htype, hprops⟩ := (withoutSlash_allowed_iff rfl).mp hok
      exact ⟨.standAloneTag e.tag.name attributes e.tag.properties, htext.symm,
        ⟨hx, hname, htype, attributesAllowed_of_entry hattr hprops⟩, rfl⟩
  · have hok : validateEntryByRules e r = true := by
      rw [ht] at hok
      simpa [leafType, Entry.setType, ← ht] using hok
    simp only [validateEntryByRules, ht, tagAllowed, Bool.and_eq_true] at hok
    obtain ⟨htype, hprops⟩ := hok
    refine ⟨.openAndCloseTag e.tag.name attributes e.tag.properties, htext.symm,
      ⟨hname, ?_, attributesAllowed_of_entry hattr (by simpa [attributesAllowed] using hprops)⟩,
      rfl⟩
    cases hv : r.validTag e.tag.name <;> simp [hv, tagTypeAllows] at htype ⊢

/-- The ends of a pair that pass the rules are allowed pieces. -/
lemma exists_piece_of_pair (hp : p ∈ splitToParts s) (he : e = parsePart p)
    (hok : validateEntryByRules e r = true) :
    (e.type = .openTag → ∃ q : Piece, q.render = e.text ∧ q.Allowed r ∧
        q.delimiter r = some (opening (r.key e.tag.name))) ∧
      (e.type = .closeTag → ∃ q : Piece, q.render = e.text ∧ q.Allowed r ∧
        q.delimiter r = some (closing (r.key e.tag.name))) := by
  have hshape := parsePart_shape hp he
  constructor
  · intro ht
    simp only [ht, reduceCtorEq, false_and, true_and, false_or, or_false] at hshape
    obtain ⟨hname, attributes, hattr, htext⟩ := hshape
    obtain ⟨htype, hprops⟩ := (openTag_allowed_iff ht).mp hok
    exact ⟨.openTag e.tag.name attributes e.tag.properties, htext.symm,
      ⟨hname, htype, attributesAllowed_of_entry hattr hprops⟩, rfl⟩
  · intro ht
    simp only [ht, reduceCtorEq, false_and, true_and, false_or, or_false, and_false,
      exists_false] at hshape
    obtain ⟨hname, spaces, hsp, htext⟩ := hshape
    exact ⟨.closeTag e.tag.name spaces, htext.symm,
      ⟨hname, (closeTag_allowed_iff ht).mp hok, hsp⟩, rfl⟩

/-- A forest that passes the rules is a sequence of allowed pieces with balanced tags. -/
lemma exists_pieces_of_forest {f : Forest}
    (hmem : ∀ e ∈ f.toList, ∃ p ∈ splitToParts s, e = parsePart p) (hf : f.WellPaired r.isXhtml)
    (hok : f.All fun e => validateEntryByRules e r = true) :
    ∃ ps : List Piece, f.toList.flatMap Entry.text = ps.flatMap Piece.render ∧
      (∀ p ∈ ps, p.Allowed r) ∧ Balanced (ps.filterMap (Piece.delimiter r)) := by
  induction f with
  | nil => exact ⟨[], rfl, by simp, .nil⟩
  | leaf e t f ih =>
    obtain ⟨rfl, hf⟩ := hf
    rw [Forest.toList, List.forall_mem_cons] at hmem
    obtain ⟨p, hp, he⟩ := hmem.1
    obtain ⟨q, hq, hqa, hqd⟩ := exists_piece_of_leaf hp he hok.1
    obtain ⟨ps, htext, hall, hbal⟩ := ih hmem.2 hf hok.2
    refine ⟨q :: ps, ?_, List.forall_mem_cons.mpr ⟨hqa, hall⟩, ?_⟩
    · rw [Forest.toList, List.flatMap_cons, List.flatMap_cons, htext, hq]
    · rwa [List.filterMap_cons_none hqd]
  | node o b c f ihb ih =>
    obtain ⟨ho, hc, hname, hb, hf⟩ := hf
    obtain ⟨hook, hcok, hbok, hfok⟩ := hok
    simp only [Forest.toList, List.forall_mem_cons, List.forall_mem_append] at hmem
    obtain ⟨⟨po, hpo, heo⟩, hmb, ⟨pc, hpc, hec⟩, hmf⟩ := hmem
    obtain ⟨qo, hqo, hqoa, hqod⟩ := (exists_piece_of_pair hpo heo hook).1 ho
    obtain ⟨qc, hqc, hqca, hqcd⟩ := (exists_piece_of_pair hpc hec hcok).2 hc
    obtain ⟨bs, hbtext, hball, hbbal⟩ := ihb hmb hb hbok
    obtain ⟨ps, hptext, hpall, hpbal⟩ := ih hmf hf hfok
    refine ⟨qo :: (bs ++ qc :: ps), ?_, ?_, ?_⟩
    · simp only [Forest.toList, List.flatMap_cons, List.flatMap_append, hbtext, hptext, hqo, hqc]
    · simp only [List.forall_mem_cons, List.forall_mem_append]
      exact ⟨hqoa, hball, hqca, hpall⟩
    · have hkey := (asciiStreq_iff r _ _).mp hname
      rw [List.filterMap_cons_some hqod, List.filterMap_append, List.filterMap_cons_some hqcd,
        ← hkey]
      exact .wrap _ hbbal hpbal

/-- A text that passes the checks is a sequence of allowed pieces. -/
theorem whiteListed_of_validateText (h : validateText s r = true) :
    WhiteListed r s := by
  set es := (splitToParts s).map parsePart with hes
  have hmem : ∀ e ∈ (nestForest r.isXhtml es).toList, ∃ p ∈ splitToParts s, e = parsePart p := by
    intro e he
    rw [nestForest_toList, hes, List.mem_map] at he
    obtain ⟨p, hp, rfl⟩ := he
    exact ⟨p, hp, rfl⟩
  obtain ⟨ps, htext, hall, hbal⟩ := exists_pieces_of_forest hmem (nestForest_wellPaired _ _)
    ((validateText_iff s r).mp h)
  refine ⟨ps, ?_, hall, hbal⟩
  rw [← htext, nestForest_toList, hes, List.flatMap_map]
  simp only [parsePart_text]
  exact (splitToParts_text s).symm

/-! ## Accepted texts -/

/-- The text that `validate` checks: the input, or its conversion to UTF-8 if the encoding is not
ASCII compatible. -/
def IsChecked (conv : Encoding.Conv) (r : Rules) (s t : Bytes) : Prop :=
  if r.encoding = [] ∨ Encoding.isAsciiCompatible r.encoding = true then t = s
  else conv.toUtf r.encoding s = some t

lemma isChecked_of_decodeInput {conv : Encoding.Conv} {s t : Bytes}
    (h : decodeInput conv s r = some t) : IsChecked conv r s t := by
  rw [decodeInput] at h
  rw [IsChecked]
  split_ifs at h with h1 h2 h3
  · rw [if_pos (Or.inl h1)]
    exact (Option.some.inj h).symm
  · rw [if_pos (Or.inr h2)]
    exact (Option.some.inj h).symm
  · rw [if_neg (by tauto)]
    split at h
    · simp at h
    · rename_i u hu
      split_ifs at h
      rw [hu, Option.some.inj h]

/-- The text checked by a successful `validate` is a sequence of allowed pieces with balanced tags.
-/
theorem validate_whiteListed (conv : Encoding.Conv) (s : Bytes) (r : Rules)
    (h : validate conv s r = true) : ∃ t, IsChecked conv r s t ∧ WhiteListed r t := by
  rw [validate] at h
  split at h
  · simp at h
  · rename_i t ht
    exact ⟨t, isChecked_of_decodeInput ht, whiteListed_of_validateText h⟩

theorem validate_whiteListed_xhtml :
    ∃ t, IsChecked Encoding.utf16leConv (Rules.default'.addTag (bytes "b") .openingAndClosing)
        (bytes "<b>1 &lt; 2</b>") t ∧
      WhiteListed (Rules.default'.addTag (bytes "b") .openingAndClosing) t :=
  validate_whiteListed Encoding.utf16leConv (bytes "<b>1 &lt; 2</b>")
    (Rules.default'.addTag (bytes "b") .openingAndClosing) (by decide)

/-- An accepted text in UTF-16LE is not itself a sequence of allowed pieces. -/
theorem validate_utf16le_not_whiteListed :
    validate Encoding.utf16leConv [0x26, 0, 0x6C, 0, 0x74, 0, 0x3B, 0]
        { Rules.default' with encoding := bytes "UTF-16LE" } = true ∧
      ¬ WhiteListed { Rules.default' with encoding := bytes "UTF-16LE" }
        [0x26, 0, 0x6C, 0, 0x74, 0, 0x3B, 0] := by
  refine ⟨by decide, ?_⟩
  rintro ⟨ps, htext, hall, -⟩
  induction ps with
  | nil => simp at htext
  | cons p ps ih =>
    rw [List.forall_mem_cons] at hall
    rw [List.flatMap_cons] at htext
    cases p with
    | text t =>
      cases t with
      | nil => exact ih htext hall.2
      | cons c t =>
        have hc := (hall.1 c (by simp)).2.2
        exact hc (List.cons_eq_cons.mp htext).1.symm
    | entity name =>
      have hbase : name ∈ baseEntities := hall.1
      have hfirst : ∀ name ∈ baseEntities, ∃ c tl, name = c :: tl ∧ c ≠ 0 := by
        simp [baseEntities, bytes]
        decide
      obtain ⟨c, tl, rfl, hc⟩ := hfirst name hbase
      simp only [Piece.render, List.cons_append, List.cons.injEq] at htext
      exact hc htext.2.1.symm
    | numericEntity body => exact absurd hall.1.1 (by decide)
    | comment body => simp [Piece.render] at htext
    | openTag name attributes props => simp [Piece.render] at htext
    | standAloneTag name attributes props => simp [Piece.render] at htext
    | openAndCloseTag name attributes props => simp [Piece.render] at htext
    | closeTag name spaces => simp [Piece.render] at htext

end Xss

end Cppcms
