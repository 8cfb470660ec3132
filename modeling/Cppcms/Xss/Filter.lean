import Cppcms.Xss.Clean

/-!
# The filter as a whole

`validate_and_filter_if_invalid` agrees with `validate` on which inputs are valid, and what it
writes for the others is valid.  Besides the checks on markup (`Clean.lean`) this needs that the
text that is written is still correct UTF-8: entries are cut next to ASCII characters only, and
escaping replaces ASCII characters by ASCII characters.
-/

namespace Cppcms

namespace Xss

/-! ## Entries of correct UTF-8 -/

variable {e : Entry} {s : Bytes} {c : UInt8} {r : Rules}

/-- An entry ends with the text, before an ASCII character, or with one. -/
lemma cut_of_splitPart {r : Bytes} (h : splitPart s = some (e, r)) :
    r = [] ∨ (∃ b t, b < 128 ∧ r = b :: t) ∨ ∃ x b, b < 128 ∧ e.text = x ++ [b] := by
  have huntil : ∀ o c t q, c < 128 → (splitUntil o c t q).2 = [] ∨
      ∃ x b, b < 128 ∧ (splitUntil o c t q).1.text = x ++ [b] := by
    intro o c t q hc
    by_cases hi : (splitUntil o c .htmlTag q).1.type = .invalidData
    · left
      rw [splitUntil] at hi ⊢
      split at hi
      · rfl
      · simp at hi
    · obtain ⟨body, -, -, he⟩ := exists_of_splitUntil hi
      refine Or.inr ⟨o :: body, c, hc, ?_⟩
      have htext : (splitUntil o c t q).1.text = (splitUntil o c .htmlTag q).1.text := by
        unfold splitUntil
        split <;> rfl
      rw [htext, he]
      rfl
  have hcomment : ∀ b, (splitComment b).2 = [] ∨
      ∃ x d, d < 128 ∧ (splitComment b).1.text = x ++ [d] := by
    intro b
    unfold splitComment
    split
    · rename_i pre a b c rest _
      by_cases hc : c = Ch.gt
      · exact Or.inr ⟨[Ch.lt, Ch.exclamation, Ch.minus, Ch.minus] ++ pre ++ [a, b], c,
          by rw [hc]; decide, by simp [hc]⟩
      · exact Or.inl (by simp [hc])
    · exact Or.inl rfl
  cases s with
  | nil => simp [splitPart] at h
  | cons c p =>
    rw [splitPart] at h
    split_ifs at h <;> obtain ⟨rfl, rfl⟩ := Prod.ext_iff.mp (Option.some.inj h)
    · exact (huntil _ _ _ _ (by decide)).imp id Or.inr
    · exact (hcomment _).imp id Or.inr
    · exact (huntil _ _ _ _ (by decide)).imp id Or.inr
    · rename_i hc
      exact Or.inr (Or.inr ⟨[], c, by rw [hc]; decide, rfl⟩)
    · simp only
      cases hd : p.dropWhile fun d => !isSpecial d with
      | nil => exact Or.inl rfl
      | cons d q =>
        refine Or.inr (Or.inl ⟨d, q, ?_, rfl⟩)
        have hsp : isSpecial d = true := by
          have := List.head?_dropWhile_not (fun d => !isSpecial d) p
          rw [hd] at this
          simpa using this
        simp only [isSpecial, Bool.or_eq_true, beq_iff_eq] at hsp
        rcases hsp with (rfl | rfl) | rfl <;> decide

/-- The entries of a correct text are correct. -/
lemma validate_of_mem_splitToParts (h : Utf8.validate true s = true) :
    ∀ e ∈ splitToParts s, Utf8.validate true e.text = true := by
  induction s using split_induction with
  | nil => simp
  | next e r hr _ ih =>
    have hcut : Utf8.validate true e.text = true ∧ Utf8.validate true r = true := by
      rcases cut_of_splitPart hr with hnil | ⟨b, t, hb, hrt⟩ | ⟨x, b, hb, hx⟩
      · rw [hnil] at h ⊢
        exact ⟨by simpa using h, rfl⟩
      · rw [hrt] at h ⊢
        exact (Utf8.validate_append_cons_iff hb).mp h
      · rw [hx, List.append_assoc, List.singleton_append] at h
        obtain ⟨h1, h2⟩ := (Utf8.validate_append_cons_iff hb).mp h
        obtain ⟨hl, h3⟩ := (Utf8.validate_cons_iff hb).mp h2
        rw [hx]
        exact ⟨(Utf8.validate_append_cons_iff hb).mpr
          ⟨h1, (Utf8.validate_cons_iff hb).mpr ⟨hl, rfl⟩⟩, h3⟩
    rw [splitToParts_of_splitPart hr, List.forall_mem_cons]
    exact ⟨hcut.1, ih hcut.2⟩

/-! ## Correctness of the text that is written -/

/-- An escape is correct if the character is. -/
lemma validate_escapeChar (h : Utf8.validate true [c] = true) :
    Utf8.validate true (escapeChar c) = true := by
  unfold escapeChar
  split_ifs
  · decide
  · decide
  · decide
  · decide
  · exact h

/-- A character beyond ASCII is not escaped. -/
lemma escapeChar_of_le (h : 128 ≤ c) : escapeChar c = [c] := by
  have hne : ∀ d : UInt8, d < 128 → c ≠ d := by
    rintro d hd rfl
    exact absurd hd (UInt8.not_lt.mpr h)
  rw [escapeChar, if_neg (hne _ (by decide)), if_neg (hne _ (by decide)),
    if_neg (hne _ (by decide)), if_neg (hne _ (by decide))]

/-- Escaping keeps a text correct. -/
lemma validate_escape (h : Utf8.validate true s = true) :
    Utf8.validate true (s.flatMap escapeChar) = true := by
  refine Utf8.validate_induction (P := fun s => Utf8.validate true (s.flatMap escapeChar) = true)
    rfl ?_ h
  intro x u hx _ ih
  rw [List.flatMap_append]
  refine Utf8.validate_append ?_ ih
  have hvalid : Utf8.validate true x = true := by
    have := Utf8.validate_char_append hx []
    simpa using this
  rcases hx.ascii_or with ⟨b, rfl, -⟩ | hall
  · simpa using validate_escapeChar hvalid
  · have hsame : x.flatMap escapeChar = x.flatMap fun c => [c] :=
      List.flatMap_congr fun c hc => escapeChar_of_le (hall c hc)
    rw [hsame]
    simpa using hvalid

/-- What is written for a correct entry is correct. -/
lemma validate_writeEntry {method : FilteringMethod} (h : Utf8.validate true e.text = true) :
    Utf8.validate true (writeEntry method e) = true := by
  unfold writeEntry
  split_ifs
  · cases method with
    | removeInvalid => rfl
    | escapeInvalid => exact validate_escape h
  · exact h

/-- The array of a forest has the texts of its entries. -/
lemma Forest.flatten_text (f : Forest) (off : ℕ) :
    (f.flatten off).map Entry.text = f.toList.map Entry.text := by
  induction f generalizing off with
  | nil => rfl
  | leaf e t f ih => simp [flatten, toList, ih]
  | node o b c f ihb ih => simp [flatten, toList, ihb, ih]

/-- The filtered text is correct if the input is. -/
lemma validate_filterText (h : Utf8.validate true s = true) (r : Rules) (method : FilteringMethod) :
    Utf8.validate true (filterText s r method).2 = true := by
  set f := (nestForest r.isXhtml ((splitToParts s).map parsePart)).kill r with hf
  have htoList : ∀ e ∈ f.toList, Utf8.validate true e.text = true := by
    refine Forest.kill_toList (fun e he => he) fun e he => ?_
    rw [nestForest_toList, List.mem_map] at he
    obtain ⟨p, hp, rfl⟩ := he
    rw [parsePart_text]
    exact validate_of_mem_splitToParts h p hp
  have hflat : ∀ e ∈ f.flatten 0, Utf8.validate true e.text = true := by
    intro e he
    have : e.text ∈ f.toList.map Entry.text := by
      rw [← f.flatten_text 0]
      exact List.mem_map_of_mem he
    obtain ⟨e', he', htext⟩ := List.mem_map.mp this
    rw [← htext]
    exact htoList e' he'
  have hjoin : ∀ es : List Entry, (∀ e ∈ es, Utf8.validate true e.text = true) →
      Utf8.validate true (es.flatMap (writeEntry method)) = true := by
    intro es hes
    induction es with
    | nil => rfl
    | cons e es ih =>
      rw [List.forall_mem_cons] at hes
      rw [List.flatMap_cons]
      exact Utf8.validate_append (validate_writeEntry hes.1) (ih hes.2)
  rw [filterText_eq]
  exact hjoin _ hflat

/-! ## The two functions -/

/-- `validate` for the encodings that need no conversion. -/
lemma validate_eq {conv : Encoding.Conv}
    (henc : r.encoding = [] ∨ Encoding.isUtf8 r.encoding = true) (s : Bytes) :
    validate conv s r = ((r.encoding == [] || Utf8.validate true s) && validateText s r) := by
  by_cases hnil : r.encoding = []
  · simp [validate, decodeInput, hnil]
  · have hutf := henc.resolve_left hnil
    simp only [validate, decodeInput, hnil, if_false, Encoding.isAsciiCompatible_of_isUtf8 hutf,
      if_true, Encoding.valid_of_isUtf8 conv hutf]
    cases Utf8.validate true s <;> simp [hnil]

/-- The text the filter works on: the input, or what the encoding filter leaves of it. -/
lemma decodeAndFilterInput_eq (conv : Encoding.Conv)
    (henc : r.encoding = [] ∨ Encoding.isUtf8 r.encoding = true) (s : Bytes) :
    ∃ t, decodeAndFilterInput conv s r 0 =
        some (r.encoding == [] || Utf8.validate true s, t, r.encoding) ∧
      (r.encoding ≠ [] → Utf8.validate true t = true) ∧
      ((r.encoding == [] || Utf8.validate true s) = true → t = s) := by
  by_cases hnil : r.encoding = []
  · exact ⟨s, by simp [decodeAndFilterInput, hnil], fun h => absurd hnil h, fun _ => rfl⟩
  · have hutf := henc.resolve_left hnil
    simp only [decodeAndFilterInput, hnil, if_false, Encoding.isAsciiCompatible_of_isUtf8 hutf,
      if_true, Encoding.validateOrFilter_of_isUtf8 conv hutf]
    cases hfilter : Utf8.validateOrFilterUtf8 s 0 with
    | none =>
      have hvalid := (Utf8.validateOrFilterUtf8_eq_none_iff s 0).mp hfilter
      exact ⟨s, by simp [Encoding.FilterResult.ofOption, hvalid], fun _ => hvalid, fun _ => rfl⟩
    | some t =>
      have hinvalid : Utf8.validate true s = false := by
        rw [Bool.eq_false_iff, Ne, ← Utf8.validateOrFilterUtf8_eq_none_iff s 0, hfilter]
        simp
      refine ⟨t, by simp [Encoding.FilterResult.ofOption, hinvalid, hnil], fun _ =>
        Utf8.validate_of_validateOrFilterUtf8 hfilter, fun h => ?_⟩
      simp [hnil, hinvalid] at h

/-- The filter accepts what `validate` accepts, and what it writes otherwise is accepted. -/
theorem validateAndFilterIfInvalid_clean (conv : Encoding.Conv) (s : Bytes) (r : Rules)
    (output : Bytes) (method : FilteringMethod)
    (henc : r.encoding = [] ∨ Encoding.isUtf8 r.encoding = true) :
    ∃ flag out, validateAndFilterIfInvalid conv s r output method 0 = some (flag, out) ∧
      (flag = true ↔ validate conv s r = true) ∧
      (flag = false → validate conv out r = true) := by
  obtain ⟨t, hdecode, hutf, hsame⟩ := decodeAndFilterInput_eq conv henc s
  set ok := (r.encoding == [] || Utf8.validate true s) with hok
  have hflag : (filterText t r method).1 = validateText t r := by rw [filterText_eq]
  have hclean : validate conv (filterText t r method).2 r = true := by
    rw [validate_eq henc, validateText_filterText, Bool.and_true, Bool.or_eq_true, beq_iff_eq]
    by_cases hnil : r.encoding = []
    · exact Or.inl hnil
    · exact Or.inr (validate_filterText (hutf hnil) r method)
  rw [validateAndFilterIfInvalid, hdecode]
  simp only [hflag, if_true]
  rw [validate_eq henc, ← hok]
  by_cases hall : (ok && validateText t r) = true
  · rw [if_pos hall]
    rw [Bool.and_eq_true] at hall
    refine ⟨true, output, rfl, ?_, by simp⟩
    rw [← hsame hall.1, hall.1, hall.2]
    simp
  · rw [if_neg hall]
    refine ⟨false, _, rfl, ?_, fun _ => hclean⟩
    simp only [Bool.false_eq_true, false_iff]
    intro h
    rw [Bool.and_eq_true] at h
    rw [hsame h.1, h.1, h.2] at hall
    simp at hall

/-- Rules in HTML mode for text in UTF-8 with a tag that may or may not be closed. -/
def listItems : Rules :=
  { Rules.default' with isXhtml := false, encoding := bytes "UTF-8" }.addTag (bytes "li") .anyTag

theorem validateAndFilterIfInvalid_clean_html :
    ∃ flag out, validateAndFilterIfInvalid Encoding.utf16leConv (bytes "<LI><b></li>&") listItems []
        .escapeInvalid 0 = some (flag, out) ∧
      (flag = true ↔ validate Encoding.utf16leConv (bytes "<LI><b></li>&") listItems = true) ∧
      (flag = false → validate Encoding.utf16leConv out listItems = true) :=
  validateAndFilterIfInvalid_clean Encoding.utf16leConv (bytes "<LI><b></li>&") listItems []
    .escapeInvalid (Or.inr (by decide))

end Xss

end Cppcms
