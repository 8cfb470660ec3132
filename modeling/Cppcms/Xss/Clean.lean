import Cppcms.Xss.Marking

/-!
# The filtered text is clean

`validate_and_filter_if_invalid` writes a text that `validate` accepts under the same rules.

The text that is written is glued from entries of the input and from escapes, so its markup is known
piece by piece (`markup_write`).  What remains is the pairing of the tags that are left.  Dropping
pairs may pair other tags differently in HTML mode: an opening tag that was given up below a dropped
pair can become the partner of a closing tag.  Such a tag is allowed in both roles, and so is the
tag that loses its partner to it.  The proof follows the forest of the input, with the stack of open
tags as the only state of the second run (`openRun`): every piece of the forest leaves on the stack
only tags that may stand alone (`Loose`).
-/

namespace Cppcms

namespace Xss

/-! ## Names -/

/-- What counts of a name: all of it, or in HTML mode the name in lower case. -/
def Rules.key (r : Rules) (name : Bytes) : Bytes :=
  if r.isXhtml then name else name.map asciiTolower

lemma equivalent_comp (r : Rules) (l l' : Bytes) :
    equivalent r.comp l l' = true ↔ r.key l = r.key l' := by
  cases h : r.isXhtml
  · simpa [Rules.comp, Rules.key, h] using equivalent_icompare l l'
  · simpa [Rules.comp, Rules.key, h] using equivalent_compare l l'

variable {l l' : Bytes} {r : Rules} {e : Entry} {s : Bytes} {f : Forest}

/-- Two lists agree under a function if they agree place by place. -/
lemma all_zip_iff (f : UInt8 → UInt8) (h : l.length = l'.length) :
    ((l.zip l').all fun p => f p.1 == f p.2) = true ↔ l.map f = l'.map f := by
  induction l generalizing l' with
  | nil =>
    obtain rfl : l' = [] := by simpa using h.symm
    simp
  | cons a l ih =>
    cases l' with
    | nil => simp at h
    | cons b l' =>
      have := @ih l' (by simpa using h)
      simp only [List.zip_cons_cons, List.all_cons, Bool.and_eq_true, beq_iff_eq, this,
        List.map_cons, List.cons.injEq]

lemma asciiStreq_iff (r : Rules) (l l' : Bytes) :
    asciiStreq l l' r.isXhtml = true ↔ r.key l = r.key l' := by
  rw [asciiStreq]
  split_ifs with hlen hx
  · simp only [false_iff]
    intro hk
    apply hlen
    have := congrArg List.length hk
    unfold Rules.key at this
    split_ifs at this <;> simpa using this
  · have := all_zip_iff id (not_not.mp hlen)
    simpa [Rules.key, hx] using this
  · have := all_zip_iff asciiTolower (not_not.mp hlen)
    simpa [Rules.key, hx] using this

/-- The type of a tag depends only on what counts of its name. -/
lemma validTag_congr (h : r.key l = r.key l') :
    r.validTag l = r.validTag l' := by
  have : ∀ p : Bytes × Tag, equivalent r.comp p.1 l = equivalent r.comp p.1 l' := by
    intro p
    rw [Bool.eq_iff_iff, equivalent_comp, equivalent_comp, h]
  simp only [Rules.validTag, RulesHolder.validTag, find, this]

/-! ## Tags in their roles -/

/-- The attributes of a tag are allowed. -/
def attributesAllowed (r : Rules) (e : Entry) : Bool :=
  propertiesAllowed r e.tag.name [] e.tag.properties

lemma openTag_allowed_iff (he : e.type = .openTag) :
    validateEntryByRules e r = true ↔
      (r.validTag e.tag.name = .openingAndClosing ∨ r.validTag e.tag.name = .anyTag) ∧
        attributesAllowed r e = true := by
  simp only [validateEntryByRules, he, tagAllowed, attributesAllowed]
  cases r.validTag e.tag.name <;> simp [tagTypeAllows]

lemma closeTag_allowed_iff (he : e.type = .closeTag) :
    validateEntryByRules e r = true ↔
      r.validTag e.tag.name = .openingAndClosing ∨ r.validTag e.tag.name = .anyTag := by
  simp only [validateEntryByRules, he, tagAllowed]
  cases r.validTag e.tag.name <;> simp [tagTypeAllows]

lemma withoutSlash_allowed_iff (he : e.type = .openAndCloseTagWithoutSlash) :
    validateEntryByRules e r = true ↔
      (r.validTag e.tag.name = .standAlone ∨ r.validTag e.tag.name = .anyTag) ∧
        attributesAllowed r e = true := by
  simp only [validateEntryByRules, he, tagAllowed, attributesAllowed]
  cases r.validTag e.tag.name <;> simp [tagTypeAllows]

/-- An opening tag that may stay without a partner. -/
def Loose (r : Rules) (o : Entry) : Prop :=
  r.isXhtml = false ∧ o.type = .openTag ∧
    validateEntryByRules (o.setType .openAndCloseTagWithoutSlash) r = true

/-- A loose tag that is closed after all may also be paired, and the tag that should have been
closed instead becomes loose. -/
lemma allowed_of_loose {o e c : Entry} (he : Loose r e) (ho : o.type = .openTag)
    (hc : c.type = .closeTag) (hok : validateEntryByRules o r = true)
    (hck : validateEntryByRules c r = true) (hkey : r.key e.tag.name = r.key c.tag.name)
    (hkey' : r.key o.tag.name = r.key c.tag.name) :
    validateEntryByRules e r = true ∧ Loose r o := by
  obtain ⟨hx, het, heok⟩ := he
  rw [withoutSlash_allowed_iff rfl] at heok
  simp only [Entry.setType_tag, attributesAllowed] at heok
  rw [closeTag_allowed_iff hc] at hck
  rw [openTag_allowed_iff ho] at hok
  have hany : r.validTag c.tag.name = .anyTag := by
    rcases hck with hck | hck
    · rw [validTag_congr hkey, hck] at heok
      simp at heok
    · exact hck
  refine ⟨(openTag_allowed_iff het).mpr ⟨Or.inr ?_, heok.2⟩, hx, ho, ?_⟩
  · rw [validTag_congr hkey, hany]
  · rw [withoutSlash_allowed_iff rfl]
    simp only [Entry.setType_tag, attributesAllowed]
    exact ⟨Or.inr (by rw [validTag_congr hkey', hany]), hok.2⟩

/-! ## The second run, on the stack of open tags -/

/-- A closing tag in HTML mode: `none` if some entry gets a type that the rules refuse. -/
def openClose (r : Rules) (c : Entry) : List Entry → Option (List Entry)
  | [] => none
  | o :: st =>
    if asciiStreq o.tag.name c.tag.name false then
      if validateEntryByRules o r && validateEntryByRules c r then some st else none
    else if validateEntryByRules (o.setType .openAndCloseTagWithoutSlash) r then openClose r c st
    else none

/-- One entry; the state is the stack of open tags. -/
def openStep (r : Rules) (st : List Entry) (e : Entry) : Option (List Entry) :=
  match e.type with
  | .closeTag =>
    if r.isXhtml then
      match st with
      | [] => none
      | o :: st =>
        if asciiStreq o.tag.name e.tag.name true && validateEntryByRules o r &&
          validateEntryByRules e r then some st else none
    else openClose r e st
  | .openTag => some (e :: st)
  | _ => if validateEntryByRules e r then some st else none

/-- A list of entries. -/
def openRun (r : Rules) (st es : List Entry) : Option (List Entry) := es.foldlM (openStep r) st

lemma openRun_append (r : Rules) (st es es' : List Entry) :
    openRun r st (es ++ es') = (openRun r st es).bind fun st' => openRun r st' es' :=
  List.foldlM_append

lemma openRun_singleton (r : Rules) (st : List Entry) (e : Entry) :
    openRun r st [e] = openStep r st e := by
  simp [openRun]

/-- Plain entries do not matter. -/
lemma openRun_filter (r : Rules) (st es : List Entry) :
    openRun r st (es.filter fun e => e.type ≠ .plainText) = openRun r st es := by
  induction es generalizing st with
  | nil => rfl
  | cons e es ih =>
    by_cases he : e.type = .plainText
    · have hstep : openStep r st e = some st := by simp [openStep, validateEntryByRules, he]
      rw [List.filter_cons_of_neg (by simpa using he), ih]
      simp [openRun, hstep]
    · rw [List.filter_cons_of_pos (by simpa using he)]
      simp only [openRun, List.foldlM_cons]
      exact bind_congr fun st' => ih st'

section Sound

open Zipper

/-- Every entry read so far and not open any more passes the rules. -/
def ReadAllowed (r : Rules) (z : Zipper) : Prop :=
  (z.base.All fun e => validateEntryByRules e r = true) ∧
    ∀ fr ∈ z.frames, fr.2.All fun e => validateEntryByRules e r = true

variable {r : Rules} {base : Forest} {frames : List Frame}

lemma readAllowed_add {g : Forest} (h : ReadAllowed r ⟨base, frames⟩)
    (hg : g.All fun e => validateEntryByRules e r = true) :
    ReadAllowed r (add base frames g) ∧ (add base frames g).frames.map Prod.fst =
      frames.map Prod.fst := by
  obtain ⟨hb, hf⟩ := h
  cases frames with
  | nil => exact ⟨⟨(Forest.all_append _ _).mpr ⟨hb, hg⟩, by simp [add]⟩, rfl⟩
  | cons fr frames =>
    obtain ⟨o, seg⟩ := fr
    refine ⟨⟨hb, fun fr hfr => ?_⟩, rfl⟩
    rcases List.mem_cons.mp hfr with rfl | hfr
    · exact (Forest.all_append _ _).mpr ⟨hf (o, seg) (by simp), hg⟩
    · exact hf fr (by simp [hfr])

lemma ReadAllowed.of_cons {fr : Frame} (h : ReadAllowed r ⟨base, fr :: frames⟩) :
    ReadAllowed r ⟨base, frames⟩ ∧ fr.2.All fun e => validateEntryByRules e r = true :=
  ⟨⟨h.1, fun fr' hfr => h.2 fr' (by simp [hfr])⟩, h.2 fr (by simp)⟩

variable {acc : Forest} {st : List Entry} {z : Zipper}

lemma readAllowed_closeHtml {c : Entry} (h : ReadAllowed r ⟨base, frames⟩)
    (hacc : acc.All fun e => validateEntryByRules e r = true)
    (hst : openClose r c (frames.map Prod.fst) = some st) :
    ReadAllowed r (Zipper.closeHtml base c frames acc) ∧
      (Zipper.closeHtml base c frames acc).frames.map Prod.fst = st := by
  induction frames generalizing acc with
  | nil => simp [openClose] at hst
  | cons fr frames ih =>
    obtain ⟨o, seg⟩ := fr
    obtain ⟨h', hseg⟩ := h.of_cons
    rw [List.map_cons, openClose] at hst
    rw [Zipper.closeHtml]
    simp only at hst hseg
    split_ifs at hst ⊢ with h1 h2 h3
    · rw [Bool.and_eq_true] at h2
      obtain ⟨ha, hm⟩ := readAllowed_add (g := .node o (seg.append acc) c .nil) h'
        ⟨h2.1, h2.2, (Forest.all_append _ _).mpr ⟨hseg, hacc⟩, trivial⟩
      exact ⟨ha, hm.trans (Option.some.inj hst)⟩
    · exact ih h' ⟨h3, (Forest.all_append _ _).mpr ⟨hseg, hacc⟩⟩ hst

/-- A step of the stack of open tags is a step of the zipper. -/
lemma readAllowed_step (h : ReadAllowed r z)
    (hst : openStep r (z.frames.map Prod.fst) e = some st) :
    ReadAllowed r (z.step r.isXhtml e) ∧ (z.step r.isXhtml e).frames.map Prod.fst = st := by
  have hother : ∀ t, e.type = t → (if validateEntryByRules e r then some (z.frames.map Prod.fst)
      else none) = some st → ReadAllowed r (add z.base z.frames (.leaf e t .nil)) ∧
        (add z.base z.frames (.leaf e t .nil)).frames.map Prod.fst = st := by
    rintro t rfl hst
    split_ifs at hst with hok
    obtain ⟨ha, hm⟩ := readAllowed_add (g := .leaf e e.type .nil) h ⟨hok, trivial⟩
    exact ⟨ha, hm.trans (Option.some.inj hst)⟩
  unfold openStep at hst
  rw [step]
  cases he : e.type with
  | closeTag =>
    simp only [he] at hst
    cases hx : r.isXhtml with
    | true =>
      simp only [hx, if_true] at hst ⊢
      obtain ⟨base, frames⟩ := z
      cases frames with
      | nil => simp at hst
      | cons fr frames =>
        obtain ⟨o, seg⟩ := fr
        simp only [List.map_cons] at hst
        split_ifs at hst with hok
        simp only [Bool.and_eq_true] at hok
        obtain ⟨h', hseg⟩ := h.of_cons
        rw [Zipper.closeXhtml, if_pos hok.1.1]
        obtain ⟨ha, hm⟩ := readAllowed_add (g := .node o seg e .nil) h'
          ⟨hok.1.2, hok.2, hseg, trivial⟩
        exact ⟨ha, hm.trans (Option.some.inj hst)⟩
    | false =>
      simp only [hx, Bool.false_eq_true, if_false] at hst ⊢
      exact readAllowed_closeHtml h trivial hst
  | openTag =>
    simp only [he, Option.some.injEq] at hst
    refine ⟨⟨h.1, fun fr hfr => ?_⟩, by simpa using hst⟩
    rcases List.mem_cons.mp hfr with rfl | hfr
    · trivial
    · exact h.2 fr hfr
  | _ =>
    simp only [he] at hst
    exact hother _ he hst

lemma readAllowed_run {es st : List Entry} (h : ReadAllowed r z)
    (hst : openRun r (z.frames.map Prod.fst) es = some st) :
    ReadAllowed r (z.run r.isXhtml es) ∧ (z.run r.isXhtml es).frames.map Prod.fst = st := by
  induction es generalizing z with
  | nil => exact ⟨h, by simpa [openRun, run] using hst⟩
  | cons e es ih =>
    simp only [openRun, List.foldlM_cons, Option.bind_eq_bind, Option.bind_eq_some_iff] at hst
    obtain ⟨st', h1, h2⟩ := hst
    obtain ⟨h', hm⟩ := readAllowed_step h h1
    exact ih h' (by rw [hm]; exact h2)

lemma all_finish {t : HtmlDataType} (h : ReadAllowed r ⟨base, frames⟩)
    (hacc : acc.All fun e => validateEntryByRules e r = true)
    (hopen : ∀ o ∈ frames.map Prod.fst, validateEntryByRules (o.setType t) r = true) :
    (finish t base frames acc).All fun e => validateEntryByRules e r = true := by
  induction frames generalizing acc with
  | nil => exact (Forest.all_append _ _).mpr ⟨h.1, hacc⟩
  | cons fr frames ih =>
    obtain ⟨o, seg⟩ := fr
    obtain ⟨h', hseg⟩ := h.of_cons
    rw [finish]
    exact ih h' ⟨hopen o (by simp), (Forest.all_append _ _).mpr ⟨hseg, hacc⟩⟩
      fun o' ho' => hopen o' (List.mem_cons_of_mem _ ho')

/-- If the run on the stack of open tags ends with loose tags only, every entry passes the rules. -/
theorem nestForest_all_of_openRun {es st : List Entry} (h : openRun r [] es = some st)
    (hst : ∀ o ∈ st, Loose r o) :
    (nestForest r.isXhtml es).All fun e => validateEntryByRules e r = true := by
  have hz : ReadAllowed r ⟨.nil, []⟩ := ⟨trivial, by simp⟩
  obtain ⟨ha, hm⟩ := readAllowed_run hz h
  refine all_finish ha trivial ?_
  rw [hm]
  intro o ho
  obtain ⟨hx, -, hok⟩ := hst o ho
  rwa [unclosedType, hx]

end Sound

/-! ## The pieces of the output -/

/-- An entry that is parsed again to itself wherever its text occurs, or is plain, or invalid. -/
def Reparses (e : Entry) : Prop :=
  (e.type = .plainText ∧ ∀ d ∈ e.text, isSpecial d = false) ∨ e.type = .invalidData ∨
    ∃ p, IsToken p ∧ p.type ≠ .plainText ∧ p.text = e.text ∧ parsePart p = e

lemma parsePart_text (e : Entry) : (parsePart e).text = e.text := by
  unfold parsePart
  split
  · simp only [parseHtmlEntity]
    split <;> rfl
  · unfold parseHtmlTag
    split
    · rfl
    · rfl
    · split_ifs
      · split <;> rfl
      · split <;> rfl
  · rfl

/-- The entries of a text are parsed again to themselves. -/
lemma reparses_parsePart {p : Entry} (hp : p ∈ splitToParts s) :
    Reparses (parsePart p) := by
  obtain ⟨q, hq⟩ := exists_splitPart_of_mem hp
  by_cases h1 : p.type = .plainText
  · refine Or.inl ?_
    rw [show parsePart p = p by simp [parsePart, h1]]
    exact ⟨h1, isSpecial_of_plainText hq h1⟩
  · by_cases h2 : p.type = .invalidData
    · refine Or.inr (Or.inl ?_)
      simp [parsePart, h2]
    · exact Or.inr (Or.inr ⟨p, isToken_of_splitPart hq h1 h2, h1, (parsePart_text p).symm, rfl⟩)

/-- The name of the entity that replaces a character. -/
def escapeName (c : UInt8) : Option Bytes :=
  if c = Ch.lt then some (bytes "lt")
  else if c = Ch.gt then some (bytes "gt")
  else if c = Ch.amp then some (bytes "amp")
  else if c = Ch.quote then some (bytes "quot")
  else none

/-- A parsed entity. -/
def entityEntry (name : Bytes) : Entry :=
  ⟨Ch.amp :: (name ++ [Ch.semicolon]), .htmlEntity, { name := name }⟩

lemma mem_baseEntities_of_escapeName {c : UInt8} {name : Bytes} (h : escapeName c = some name) :
    name ∈ baseEntities := by
  unfold escapeName at h
  split_ifs at h <;> simp only [Option.some.injEq] at h <;> subst h <;> decide

/-- Escaping a character adds its entity to the markup, or nothing. -/
lemma markup_escapeChar (c : UInt8) (u : Bytes) :
    (markup (escapeChar c ++ u)).map parsePart =
      ((escapeName c).map entityEntry).toList ++ (markup u).map parsePart := by
  have hentity : ∀ name ∈ baseEntities,
      (markup (Ch.amp :: (name ++ [Ch.semicolon]) ++ u)).map parsePart =
        entityEntry name :: (markup u).map parsePart := by
    intro name hname
    have hsemi : ∀ d ∈ name, d ≠ Ch.semicolon := by
      revert name
      set_option maxRecDepth 2048 in decide
    have hparse : parsePart ⟨Ch.amp :: (name ++ [Ch.semicolon]), .htmlEntity, {}⟩ =
        entityEntry name := by
      revert name
      set_option maxRecDepth 2048 in decide
    have := markup_token_append (isToken_entity hsemi) (by simp) u
    rw [this, List.map_cons, hparse]
  by_cases h1 : c = Ch.lt
  · subst h1
    exact hentity (bytes "lt") (by decide)
  by_cases h2 : c = Ch.gt
  · subst h2
    exact hentity (bytes "gt") (by decide)
  by_cases h3 : c = Ch.amp
  · subst h3
    exact hentity (bytes "amp") (by decide)
  by_cases h4 : c = Ch.quote
  · subst h4
    exact hentity (bytes "quot") (by decide)
  have hsp : isSpecial c = false := by simp [isSpecial, h1, h2, h3]
  simp only [escapeChar, escapeName, if_neg h1, if_neg h2, if_neg h3, if_neg h4]
  simpa using congrArg (List.map parsePart) (markup_plain_cons hsp u)

/-- The markup of an escaped text. -/
def escapeEntries (text : Bytes) : List Entry :=
  text.flatMap fun c => ((escapeName c).map entityEntry).toList

lemma markup_escape (text u : Bytes) :
    (markup (text.flatMap escapeChar ++ u)).map parsePart =
      escapeEntries text ++ (markup u).map parsePart := by
  induction text with
  | nil => rfl
  | cons c text ih =>
    rw [List.flatMap_cons, List.append_assoc, markup_escapeChar, ih, escapeEntries, escapeEntries,
      List.flatMap_cons, List.append_assoc]

/-- The parsed markup of what is written for an entry that gets the type `t`. -/
def piece (method : FilteringMethod) (e : Entry) (t : HtmlDataType) : List Entry :=
  if t = .invalidData then
    match method with
    | .removeInvalid => []
    | .escapeInvalid => escapeEntries e.text
  else if e.type = .plainText then []
  else [e]

/-- The parsed markup of what is written for a forest. -/
def rewritten (method : FilteringMethod) : Forest → List Entry
  | .nil => []
  | .leaf e t f => piece method e t ++ rewritten method f
  | .node o b c f => piece method o o.type ++
      (rewritten method b ++ (piece method c c.type ++ rewritten method f))

/-- An entity is never parsed to plain text. -/
lemma parseHtmlEntityType_ne_plainText (body : Bytes) :
    parseHtmlEntityType body ≠ .plainText := by
  unfold parseHtmlEntityType
  split
  · simp
  · split_ifs
    · split
      · simp
      · split_ifs <;> simp
    · simp
    · simp

/-- An opening tag is parsed to one of two types. -/
lemma parseOpenTag_type {q : HtmlDataType × Bytes × List PropertyData}
    (h : parseOpenTag s = some q) : q.1 = .openAndCloseTag ∨ q.1 = .openTag := by
  unfold parseOpenTag at h
  split at h
  · simp at h
  · split_ifs at h
    simp only [Option.map_eq_some_iff] at h
    obtain ⟨props, -, rfl⟩ := h
    simp only
    split_ifs <;> simp

/-- Plain text is what was plain text before parsing. -/
lemma parsePart_type_eq_plainText (e : Entry) :
    (parsePart e).type = .plainText ↔ e.type = .plainText := by
  unfold parsePart
  split
  · rename_i he
    simp only [parseHtmlEntity, he]
    have := parseHtmlEntityType_ne_plainText e.text.tail.dropLast
    split
    · simp
    · simpa using this
  · rename_i he
    unfold parseHtmlTag
    rw [he]
    split
    · simp
    · simp
    · split_ifs
      · split <;> simp
      · split
        · simp
        · rename_i type name props hq
          rcases parseOpenTag_type hq with h | h <;> simp only at h <;> simp [h]
  · rfl

/-- What is written for an entry, in front of any text. -/
lemma markup_writeEntry {method : FilteringMethod} {t : HtmlDataType} (he : Reparses e)
    (ht : e.type = .invalidData → t = .invalidData) (u : Bytes) :
    (markup (writeEntry method (e.setType t) ++ u)).map parsePart =
      piece method e t ++ (markup u).map parsePart := by
  simp only [writeEntry, piece, Entry.setType_type, Entry.setType_text]
  by_cases hi : t = .invalidData
  · simp only [hi, if_true]
    cases method with
    | removeInvalid => rfl
    | escapeInvalid => exact markup_escape e.text u
  · simp only [hi, if_false]
    rcases he with ⟨hp, hsp⟩ | hinv | ⟨p, hp, hpt, htext, hparse⟩
    · simp only [hp, if_true]
      rw [markup_plain_append hsp]
      rfl
    · exact absurd (ht hinv) hi
    · have hpl : e.type ≠ .plainText := by
        rw [← hparse, Ne, parsePart_type_eq_plainText]
        exact hpt
      simp only [hpl, if_false]
      rw [← htext, markup_token_append hp hpt, List.map_cons, hparse]
      rfl

/-! ## The forest after marking -/

/-- What marking leaves: every leaf is invalid or allowed with its type, and every node has two
invalid ends or is a pair of allowed tags. -/
def Forest.Marked (r : Rules) : Forest → Prop
  | .nil => True
  | .leaf e t f => (t = .invalidData ∨
      t = leafType r.isXhtml e.type ∧ validateEntryByRules (e.setType t) r = true) ∧ f.Marked r
  | .node o b c f => (o.type = .invalidData ∧ c.type = .invalidData ∨
      (o.type = .openTag ∧ c.type = .closeTag ∧ r.key o.tag.name = r.key c.tag.name ∧
        validateEntryByRules o r = true ∧ validateEntryByRules c r = true)) ∧
      b.Marked r ∧ f.Marked r

lemma Forest.marked_kill (hf : f.WellPaired r.isXhtml) :
    (f.kill r).Marked r := by
  induction f with
  | nil => trivial
  | leaf e t f ih =>
    obtain ⟨ht, hf⟩ := hf
    refine ⟨?_, ih hf⟩
    split_ifs with h
    · exact Or.inr ⟨ht, h⟩
    · exact Or.inl rfl
  | node o b c f ihb ih =>
    obtain ⟨ho, hc, hname, hb, hf⟩ := hf
    rw [kill]
    split_ifs with h
    · rw [Bool.and_eq_true] at h
      exact ⟨Or.inr ⟨ho, hc, (asciiStreq_iff r _ _).mp hname, h⟩, ihb hb, ih hf⟩
    · exact ⟨Or.inl ⟨rfl, rfl⟩, ihb hb, ih hf⟩

/-- Marking keeps what holds of entries, if it holds of invalid ones. -/
lemma Forest.kill_toList {P : Entry → Prop} (hP : ∀ e : Entry, P e → P (e.setType .invalidData))
    (hf : ∀ e ∈ f.toList, P e) : ∀ e ∈ (f.kill r).toList, P e := by
  induction f with
  | nil => simpa [kill] using hf
  | leaf e t f ih =>
    simp only [toList, kill, List.forall_mem_cons] at hf ⊢
    exact ⟨hf.1, ih hf.2⟩
  | node o b c f ihb ih =>
    simp only [toList, List.forall_mem_cons, List.forall_mem_append] at hf
    obtain ⟨ho, hb, hc, hf⟩ := hf
    rw [kill]
    split_ifs <;> simp only [toList, List.forall_mem_cons, List.forall_mem_append]
    · exact ⟨ho, ihb hb, hc, ih hf⟩
    · exact ⟨hP o ho, ihb hb, hP c hc, ih hf⟩

/-- The markup of the text that is written for a forest. -/
lemma markup_flatten (method : FilteringMethod) (hf : f.Marked r) (he : ∀ e ∈ f.toList, Reparses e)
    (off : ℕ) (u : Bytes) :
    (markup ((f.flatten off).flatMap (writeEntry method) ++ u)).map parsePart =
      rewritten method f ++ (markup u).map parsePart := by
  induction f generalizing off u with
  | nil => rfl
  | leaf e t f ih =>
    simp only [Forest.toList, List.forall_mem_cons] at he
    have ht : e.type = .invalidData → t = .invalidData := by
      intro hi
      rcases hf.1 with h | ⟨h, -⟩
      · exact h
      · rw [h, hi]
        rfl
    rw [Forest.flatten, List.flatMap_cons, List.append_assoc, markup_writeEntry he.1 ht,
      ih hf.2 he.2, rewritten, List.append_assoc]
  | node o b c f ihb ih =>
    simp only [Forest.toList, List.forall_mem_cons, List.forall_mem_append] at he
    obtain ⟨ho, hb, hc, hft⟩ := he
    have hpair : ∀ (e : Entry) (i : ℕ),
        writeEntry method (e.setPair i) = writeEntry method (e.setType e.type) := fun _ _ => rfl
    simp only [Forest.flatten, List.flatMap_cons, List.flatMap_append, List.append_assoc, hpair,
      rewritten]
    rw [markup_writeEntry ho id, ihb hf.2.1 hb, markup_writeEntry hc id, ih hf.2.2 hft]

/-! ## The second run over the output -/

/-- Escapes are allowed and open nothing. -/
lemma openRun_escapeEntries (r : Rules) (st : List Entry) (text : Bytes) :
    openRun r st (escapeEntries text) = some st := by
  induction text with
  | nil => rfl
  | cons c text ih =>
    rw [escapeEntries, List.flatMap_cons, openRun_append]
    cases hc : escapeName c with
    | none =>
      simp only [Option.map_none, Option.toList_none, openRun, List.foldlM_nil]
      exact ih
    | some name =>
      have hok : r.validEntity name = true :=
        r.validEntity_of_mem_base (mem_baseEntities_of_escapeName hc)
      have hstep : openRun r st [entityEntry name] = some st := by
        simp [openRun_singleton, openStep, entityEntry, validateEntryByRules, hok]
      simp only [Option.map_some, Option.toList_some, hstep, Option.bind_some]
      exact ih

/-- What is written for an invalid entry opens nothing. -/
lemma openRun_piece_invalid (r : Rules) (st : List Entry) (method : FilteringMethod) (e : Entry) :
    openRun r st (piece method e .invalidData) = some st := by
  cases method with
  | removeInvalid => rfl
  | escapeInvalid => exact openRun_escapeEntries r st e.text

/-- The entry that is written for a leaf with an allowed type leaves nothing open, or a loose tag.
-/
lemma openRun_piece_leaf (method : FilteringMethod)
    (hok : validateEntryByRules (e.setType (leafType r.isXhtml e.type)) r = true)
    (st : List Entry) :
    ∃ E, openRun r st (piece method e (leafType r.isXhtml e.type)) = some (E ++ st) ∧
      ∀ o ∈ E, Loose r o := by
  have hother : ∀ t, e.type = t → t ≠ .openTag → t ≠ .closeTag → ∃ E,
      openRun r st (piece method e (leafType r.isXhtml e.type)) = some (E ++ st) ∧
        ∀ o ∈ E, Loose r o := by
    rintro t rfl ho hc
    refine ⟨[], ?_, by simp⟩
    have hlt : leafType r.isXhtml e.type = e.type := by
      cases h : e.type <;> simp_all [leafType]
    rw [hlt] at hok ⊢
    have hsame : e.setType e.type = e := rfl
    rw [hsame] at hok
    have hinv := ne_invalidData_of_rules hok
    simp only [piece, hinv, if_false]
    split_ifs
    · rfl
    · rw [openRun_singleton]
      cases h : e.type <;> simp_all [openStep]
  cases he : e.type with
  | openTag =>
    rw [he] at hok
    cases hx : r.isXhtml with
    | true => simp [hx, leafType, unclosedType, validateEntryByRules] at hok
    | false =>
      simp only [hx, leafType, unclosedType, Bool.false_eq_true, if_false] at hok ⊢
      refine ⟨[e], ?_, ?_⟩
      · simp [piece, he, openRun_singleton, openStep]
      · simpa using ⟨hx, he, hok⟩
  | closeTag =>
    rw [he] at hok
    simp [leafType, validateEntryByRules] at hok
  | _ =>
    rw [← he]
    exact hother _ he (by simp) (by simp)

/-- A closing tag, after loose tags that stand above its partner. -/
lemma openClose_of_loose {o c : Entry} (hx : r.isXhtml = false) (ho : o.type = .openTag)
    (hc : c.type = .closeTag) (hkey : r.key o.tag.name = r.key c.tag.name)
    (hok : validateEntryByRules o r = true) (hck : validateEntryByRules c r = true) {E : List Entry}
    (hE : ∀ e ∈ E, Loose r e) (st : List Entry) :
    ∃ E', openClose r c (E ++ o :: st) = some (E' ++ st) ∧ ∀ e ∈ E', Loose r e := by
  have hstreq : ∀ e : Entry, asciiStreq e.tag.name c.tag.name false = true ↔
      r.key e.tag.name = r.key c.tag.name := by
    intro e
    rw [← hx, asciiStreq_iff]
  induction E with
  | nil =>
    refine ⟨[], ?_, by simp⟩
    simp [openClose, (hstreq o).mpr hkey, hok, hck]
  | cons e E ih =>
    rw [List.forall_mem_cons] at hE
    rw [List.cons_append, openClose]
    by_cases h : asciiStreq e.tag.name c.tag.name false = true
    · -- the partner is lost to a loose tag and becomes loose itself
      obtain ⟨hek, hol⟩ := allowed_of_loose hE.1 ho hc hok hck ((hstreq e).mp h) hkey
      refine ⟨E ++ [o], ?_, ?_⟩
      · simp [h, hek, hck]
      · rw [List.forall_mem_append]
        exact ⟨hE.2, by simpa using hol⟩
    · rw [if_neg h, if_pos hE.1.2.2]
      exact ih hE.2

/-- The run over what is written for a forest leaves only loose tags open. -/
theorem openRun_rewritten (method : FilteringMethod) (hf : f.Marked r) (st : List Entry) :
    ∃ E, openRun r st (rewritten method f) = some (E ++ st) ∧ ∀ e ∈ E, Loose r e := by
  induction f generalizing st with
  | nil => exact ⟨[], rfl, by simp⟩
  | leaf e t f ih =>
    have hpiece : ∃ E, openRun r st (piece method e t) = some (E ++ st) ∧ ∀ o ∈ E, Loose r o := by
      rcases hf.1 with rfl | ⟨rfl, hok⟩
      · exact ⟨[], openRun_piece_invalid r st method e, by simp⟩
      · exact openRun_piece_leaf method hok st
    obtain ⟨E, hE, hl⟩ := hpiece
    obtain ⟨E', hE', hl'⟩ := ih hf.2 (E ++ st)
    refine ⟨E' ++ E, ?_, List.forall_mem_append.mpr ⟨hl', hl⟩⟩
    rw [rewritten, openRun_append, hE, Option.bind_some, hE', List.append_assoc]
  | node o b c f ihb ih =>
    obtain ⟨hends, hb, hf⟩ := hf
    have hpair : ∃ E, openRun r st (piece method o o.type ++ (rewritten method b ++
        piece method c c.type)) = some (E ++ st) ∧ ∀ e ∈ E, Loose r e := by
      rcases hends with ⟨ho, hc⟩ | ⟨ho, hc, hkey, hok, hck⟩
      · obtain ⟨E, hE, hl⟩ := ihb hb st
        refine ⟨E, ?_, hl⟩
        rw [ho, hc, openRun_append, openRun_piece_invalid, Option.bind_some, openRun_append, hE,
          Option.bind_some, openRun_piece_invalid]
      · obtain ⟨E, hE, hl⟩ := ihb hb (o :: st)
        have hopen : openRun r st (piece method o o.type) = some (o :: st) := by
          simp [piece, ho, openRun_singleton, openStep]
        have hclose : piece method c c.type = [c] := by simp [piece, hc]
        rw [openRun_append, hopen, Option.bind_some, openRun_append, hE, Option.bind_some, hclose,
          openRun_singleton]
        cases hx : r.isXhtml with
        | true =>
          -- nothing is loose in XHTML, so the partner is on top
          have hEnil : E = [] := by
            refine List.eq_nil_iff_forall_not_mem.mpr fun e he => ?_
            simpa [hx] using (hl e he).1
          have hstreq := (asciiStreq_iff r o.tag.name c.tag.name).mpr hkey
          rw [hx] at hstreq
          refine ⟨[], ?_, by simp⟩
          simp [hEnil, openStep, hc, hx, hstreq, hok, hck]
        | false =>
          obtain ⟨E', hE', hl'⟩ := openClose_of_loose hx ho hc hkey hok hck hl st
          refine ⟨E', ?_, hl'⟩
          simp [openStep, hc, hx, hE']
    obtain ⟨E, hE, hl⟩ := hpair
    obtain ⟨E', hE', hl'⟩ := ih hf (E ++ st)
    refine ⟨E' ++ E, ?_, List.forall_mem_append.mpr ⟨hl', hl⟩⟩
    have hsplit : rewritten method (.node o b c f) = (piece method o o.type ++
        (rewritten method b ++ piece method c c.type)) ++ rewritten method f := by
      simp [rewritten]
    rw [hsplit, openRun_append, hE, Option.bind_some, hE', List.append_assoc]

/-- The filtered text passes the checks. -/
theorem validateText_filterText (s : Bytes) (r : Rules) (method : FilteringMethod) :
    validateText (filterText s r method).2 r = true := by
  set f := (nestForest r.isXhtml ((splitToParts s).map parsePart)).kill r with hf
  have hmarked : f.Marked r := Forest.marked_kill (nestForest_wellPaired _ _)
  have hentries : ∀ e ∈ f.toList, Reparses e := by
    refine Forest.kill_toList (fun e _ => Or.inr (Or.inl rfl)) fun e he => ?_
    rw [nestForest_toList, List.mem_map] at he
    obtain ⟨p, hp, rfl⟩ := he
    exact reparses_parsePart hp
  have hout : (filterText s r method).2 = (f.flatten 0).flatMap (writeEntry method) := by
    rw [filterText_eq]
  rw [hout, validateText_iff]
  set out := (f.flatten 0).flatMap (writeEntry method) with hdef
  have hmarkup : ((splitToParts out).map parsePart).filter (fun e => e.type ≠ .plainText) =
      rewritten method f := by
    have h := markup_flatten method hmarked hentries 0 []
    simp only [List.append_nil, ← hdef] at h
    have hnil : markup [] = [] := rfl
    rw [hnil, List.map_nil, List.append_nil, markup] at h
    rw [← h, List.filter_map]
    congr 1
    refine List.filter_congr fun e _ => ?_
    simp [parsePart_type_eq_plainText]
  obtain ⟨E, hE, hl⟩ := openRun_rewritten method hmarked []
  rw [← hmarkup, openRun_filter, List.append_nil] at hE
  exact nestForest_all_of_openRun hE hl

end Xss

end Cppcms
