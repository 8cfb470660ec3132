import Cppcms.Xss.Entry

/-!
# Splitting a text into entries

`split_to_parts` of `src/xss.cpp` cuts a text into plain runs, `&...;`, `<...>` and comments; what
cannot be cut that way becomes an entry of type `invalid_data`.

Markup is self-delimiting: an entity, a tag or a comment that was found once is found again in front
of any other text (`IsToken`), and plain characters in front of a text do not change the markup
found in it.  Both facts together say how a text glued from such pieces is split
(`markup_token_append`, `markup_plain_cons`).
-/

namespace Cppcms

namespace Xss

open Consume

/-- The three characters that end a run of plain text. -/
def isSpecial (c : UInt8) : Bool := c == Ch.lt || c == Ch.gt || c == Ch.amp

/-- The inner loop over a comment: moves on until two dashes, or to the last character. -/
def scanDashes : Bytes → Bytes × Bytes
  | a :: b :: e =>
    if a = Ch.minus ∧ b = Ch.minus then ([], a :: b :: e)
    else (a :: (scanDashes (b :: e)).1, (scanDashes (b :: e)).2)
  | e => ([], e)

/-- The range starts like a comment: `p + 4 < end` and the characters after `<` are `!--`. -/
def startsComment (p : Bytes) : Bool :=
  3 < p.length && p.take 3 == [Ch.exclamation, Ch.minus, Ch.minus]

/-- The case of `split_to_parts` for a comment; `body` follows the characters `<!--`. -/
def splitComment (body : Bytes) : Entry × Bytes :=
  let start : Bytes := [Ch.lt, Ch.exclamation, Ch.minus, Ch.minus]
  match scanDashes body with
  | (pre, a :: b :: c :: rest) =>
    if c = Ch.gt then
      (⟨start ++ pre ++ [a, b, c], if pre.any isSpecial then .invalidData else .htmlComment, {}⟩,
        rest)
    else (⟨start ++ body, .invalidData, {}⟩, [])
  | _ => (⟨start ++ body, .invalidData, {}⟩, [])

/-- The case of `split_to_parts` for markup that starts with `open'` and runs up to the first
`close'`. -/
def splitUntil (open' close' : UInt8) (type : HtmlDataType) (p : Bytes) : Entry × Bytes :=
  match p.dropWhile (· != close') with
  | [] => (⟨open' :: p, .invalidData, {}⟩, [])
  | e :: rest => (⟨open' :: (p.takeWhile (· != close') ++ [e]), type, {}⟩, rest)

/-- One round of the loop in `split_to_parts`. -/
def splitPart : Bytes → Option (Entry × Bytes)
  | [] => none
  | c :: p =>
    if c = Ch.amp then some (splitUntil c Ch.semicolon .htmlEntity p)
    else if c = Ch.lt then
      if startsComment p then some (splitComment (p.drop 3))
      else some (splitUntil c Ch.gt .htmlTag p)
    else if c = Ch.gt then some (⟨[c], .invalidData, {}⟩, p)
    else
      some (⟨c :: p.takeWhile fun d => !isSpecial d, .plainText, {}⟩,
        p.dropWhile fun d => !isSpecial d)

/-- `split_to_parts`. -/
def splitToParts (s : Bytes) : List Entry := (consume splitPart s).getD []

/-! ## What a round reads -/

lemma scanDashes_append (s : Bytes) : (scanDashes s).1 ++ (scanDashes s).2 = s := by
  induction s with
  | nil => rfl
  | cons a s ih =>
    rcases s with _ | ⟨b, e⟩
    · rfl
    · unfold scanDashes
      split_ifs
      · rfl
      · exact congrArg (a :: ·) ih

lemma splitUntil_text (o c : UInt8) (t : HtmlDataType) (p : Bytes) :
    (splitUntil o c t p).1.text ++ (splitUntil o c t p).2 = o :: p := by
  rw [splitUntil]
  cases h : p.dropWhile (· != c) with
  | nil => simp
  | cons e rest =>
    have := List.takeWhile_append_dropWhile (p := fun x => x != c) (l := p)
    rw [h] at this
    simpa using this

lemma splitComment_text (body : Bytes) :
    (splitComment body).1.text ++ (splitComment body).2 =
      [Ch.lt, Ch.exclamation, Ch.minus, Ch.minus] ++ body := by
  have h := scanDashes_append body
  rw [splitComment]
  split
  · rename_i pre a b c rest hs
    rw [hs] at h
    split
    · simpa using h
    · simp
  · simp

lemma splitUntil_ne_nil (o c : UInt8) (t : HtmlDataType) (p : Bytes) :
    (splitUntil o c t p).1.text ≠ [] := by
  rw [splitUntil]
  split <;> simp

lemma splitComment_ne_nil (body : Bytes) : (splitComment body).1.text ≠ [] := by
  rw [splitComment]
  split
  · split <;> simp
  · simp

variable {p : Bytes} {s : Bytes} {e : Entry} {r : Bytes} {body : Bytes} {t : HtmlDataType}
  {c : UInt8}

/-- A comment start, cut off. -/
lemma startsComment_eq (h : startsComment p = true) :
    p = [Ch.exclamation, Ch.minus, Ch.minus] ++ p.drop 3 := by
  rw [startsComment, Bool.and_eq_true, beq_iff_eq] at h
  rw [← h.2, List.take_append_drop]

/-- A round succeeds on every non-empty text and reads a prefix of it. -/
lemma splitPart_eq (hs : s ≠ []) :
    ∃ e r, splitPart s = some (e, r) ∧ s = e.text ++ r ∧ e.text ≠ [] := by
  obtain ⟨c, p, rfl⟩ := List.exists_cons_of_ne_nil hs
  have huntil : ∀ d t, ∃ e r, some (splitUntil c d t p) = some (e, r) ∧ c :: p = e.text ++ r ∧
      e.text ≠ [] := fun d t =>
    ⟨(splitUntil c d t p).1, (splitUntil c d t p).2, rfl, (splitUntil_text c d t p).symm,
      splitUntil_ne_nil c d t p⟩
  rw [splitPart]
  split_ifs with h1 h2 h3 h4
  · exact huntil _ _
  · refine ⟨(splitComment (p.drop 3)).1, (splitComment (p.drop 3)).2, rfl, ?_,
      splitComment_ne_nil _⟩
    rw [splitComment_text, h2]
    exact congrArg (List.cons Ch.lt) (startsComment_eq h3)
  · exact huntil _ _
  · exact ⟨_, _, rfl, by simp, by simp⟩
  · exact ⟨_, _, rfl, by simp [List.takeWhile_append_dropWhile], by simp⟩

lemma shortens_splitPart : Shortens splitPart := by
  intro s e r h
  have hs : s ≠ [] := by
    rintro rfl
    simp [splitPart] at h
  obtain ⟨e', r', h', hsr, hne⟩ := splitPart_eq hs
  obtain ⟨rfl, rfl⟩ : e' = e ∧ r' = r := by simpa [h'] using h
  have : 0 < e'.text.length := List.length_pos_iff.mpr hne
  rw [hsr, List.length_append]
  omega

/-! ## The whole loop -/

@[simp] lemma splitToParts_nil : splitToParts [] = [] := rfl

/-- The loop never fails. -/
lemma consume_splitPart (s : Bytes) : consume splitPart s = some (splitToParts s) := by
  have : (consume splitPart s).isSome := by
    induction s using consume_induction shortens_splitPart with
    | nil => rfl
    | fail s hs h =>
      obtain ⟨e, r, h', -⟩ := splitPart_eq hs
      simp [h] at h'
    | next s e r hs h ih => simpa [consume_of_step shortens_splitPart hs h] using ih
  rw [splitToParts, ← Option.some_get this, Option.getD_some]

/-- One round of the loop. -/
lemma splitToParts_of_splitPart (h : splitPart s = some (e, r)) :
    splitToParts s = e :: splitToParts r := by
  have hs : s ≠ [] := by
    rintro rfl
    simp [splitPart] at h
  rw [splitToParts, consume_of_step shortens_splitPart hs h, consume_splitPart r]
  rfl

/-- Induction along the entries of a text. -/
theorem split_induction {P : Bytes → Prop} (nil : P [])
    (next : ∀ e r, splitPart (e.text ++ r) = some (e, r) → e.text ≠ [] → P r → P (e.text ++ r))
    (s : Bytes) : P s := by
  induction s using consume_induction shortens_splitPart with
  | nil => exact nil
  | fail s hs h =>
    obtain ⟨e, r, h', -⟩ := splitPart_eq hs
    simp [h] at h'
  | next s e r hs h ih =>
    obtain ⟨e', r', h', hsr, hne⟩ := splitPart_eq hs
    obtain ⟨rfl, rfl⟩ : e' = e ∧ r' = r := by simpa [h'] using h
    subst hsr
    exact next e' r' h hne ih

/-- The entries are consecutive pieces of the text. -/
theorem splitToParts_text (s : Bytes) : (splitToParts s).flatMap Entry.text = s := by
  induction s using split_induction with
  | nil => rfl
  | next e r h _ ih => rw [splitToParts_of_splitPart h, List.flatMap_cons, ih]

/-! ## Tokens -/

/-- An entry that is found in front of every text. -/
def IsToken (e : Entry) : Prop := e.text ≠ [] ∧ ∀ u, splitPart (e.text ++ u) = some (e, u)

/-- Scanning for the first occurrence of a character finds it again in front of any text. -/
lemma splitUntil_append {o c : UInt8} (hb : ∀ d ∈ body, d ≠ c) (u : Bytes) :
    splitUntil o c t (body ++ c :: u) = (⟨o :: (body ++ [c]), t, {}⟩, u) := by
  have h1 : (body ++ c :: u).dropWhile (fun d => d != c) = c :: u := by
    rw [List.dropWhile_append_of_pos (by simpa using hb)]
    simp
  have h2 : (body ++ c :: u).takeWhile (fun d => d != c) = body := by
    rw [List.takeWhile_append_of_pos (by simpa using hb)]
    simp
  rw [splitUntil, h1]
  simp only
  rw [h2]

/-- An entry of the intended type ends at the first closing character. -/
lemma exists_of_splitUntil {o c : UInt8} (h : (splitUntil o c t p).1.type ≠ .invalidData) :
    ∃ body, (∀ d ∈ body, d ≠ c) ∧ p = body ++ c :: (splitUntil o c t p).2 ∧
      (splitUntil o c t p).1 = ⟨o :: (body ++ [c]), t, {}⟩ := by
  rw [splitUntil] at h ⊢
  cases hd : p.dropWhile (· != c) with
  | nil => simp [hd] at h
  | cons e rest =>
    have hec : e = c := by
      have := List.head?_dropWhile_not (fun x => x != c) p
      rw [hd] at this
      simpa using this
    subst hec
    refine ⟨p.takeWhile (· != e), ?_, ?_, rfl⟩
    · intro d hdm
      simpa using List.mem_takeWhile_imp hdm
    · have := List.takeWhile_append_dropWhile (p := fun x => x != e) (l := p)
      rw [hd] at this
      exact this.symm

/-- An entity found once is found everywhere. -/
lemma isToken_entity (hb : ∀ d ∈ body, d ≠ Ch.semicolon) :
    IsToken ⟨Ch.amp :: (body ++ [Ch.semicolon]), .htmlEntity, {}⟩ := by
  refine ⟨by simp, fun u => ?_⟩
  have := splitUntil_append (o := Ch.amp) (t := .htmlEntity) hb u
  simp only [List.cons_append, List.append_assoc, List.nil_append, splitPart, if_true]
  rw [this]

/-- A tag found once is found everywhere. -/
lemma isToken_tag (hb : ∀ d ∈ body, d ≠ Ch.gt) (hc : startsComment (body ++ [Ch.gt]) = false) :
    IsToken ⟨Ch.lt :: (body ++ [Ch.gt]), .htmlTag, {}⟩ := by
  refine ⟨by simp, fun u => ?_⟩
  have hu := splitUntil_append (o := Ch.lt) (t := .htmlTag) hb u
  have hc' : startsComment (body ++ Ch.gt :: u) = false := by
    rw [startsComment, Bool.and_eq_false_iff] at hc ⊢
    by_cases hlen : 3 ≤ body.length
    · rcases hc with hc | hc
      · simp at hc
        omega
      · rw [List.take_append_of_le_length hlen] at hc ⊢
        exact Or.inr hc
    · -- the closing character is one of the first three
      refine Or.inr ?_
      rcases body with _ | ⟨a, _ | ⟨b, _ | ⟨c, body⟩⟩⟩ <;> simp_all
  simp only [List.cons_append, List.append_assoc, List.nil_append]
  rw [splitPart, if_neg (by decide), if_pos rfl, hc', if_neg (by decide), hu]

/-- Scanning a comment stops at the same dashes in front of any text. -/
lemma scanDashes_snoc {pre rest : Bytes} {a b : UInt8}
    (h : scanDashes s = (pre, a :: b :: c :: rest)) (u : Bytes) :
    a = Ch.minus ∧ b = Ch.minus ∧ scanDashes (pre ++ a :: b :: u) = (pre, a :: b :: u) := by
  induction s generalizing pre with
  | nil => simp [scanDashes] at h
  | cons a' s ih =>
    rcases s with _ | ⟨b', e⟩
    · simp [scanDashes] at h
    unfold scanDashes at h
    by_cases hab : a' = Ch.minus ∧ b' = Ch.minus
    · rw [if_pos hab] at h
      obtain ⟨rfl, rfl, rfl, -⟩ : [] = pre ∧ a' = a ∧ b' = b ∧ e = c :: rest := by simpa using h
      refine ⟨hab.1, hab.2, ?_⟩
      simp [scanDashes, hab.1, hab.2]
    rw [if_neg hab] at h
    cases pre with
    | nil => simp at h
    | cons d pre =>
      obtain ⟨⟨rfl, h1⟩, h2⟩ : (a' = d ∧ (scanDashes (b' :: e)).1 = pre) ∧
          (scanDashes (b' :: e)).2 = a :: b :: c :: rest := by simpa using h
      have hs : scanDashes (b' :: e) = (pre, a :: b :: c :: rest) := Prod.ext h1 h2
      obtain ⟨ha, hb, ih⟩ := ih hs
      refine ⟨ha, hb, ?_⟩
      have hhead : ∃ t, pre ++ a :: b :: u = b' :: t := by
        have happ := scanDashes_append (b' :: e)
        rw [hs] at happ
        cases pre with
        | nil => exact ⟨b :: u, by simp at happ; simp [happ.1]⟩
        | cons d' pre => exact ⟨pre ++ a :: b :: u, by simp at happ; simp [happ.1]⟩
      obtain ⟨t, ht⟩ := hhead
      rw [ht] at ih
      rw [List.cons_append, ht, scanDashes, if_neg hab, ih]

/-- The shape of an accepted comment: no special character inside, and the first two dashes are the
closing ones. -/
lemma exists_of_splitComment (h : (splitComment body).1.type ≠ .invalidData) :
    ∃ pre, (∀ d ∈ pre, isSpecial d = false) ∧
      (∀ u, scanDashes (pre ++ Ch.minus :: Ch.minus :: u) = (pre, Ch.minus :: Ch.minus :: u)) ∧
      (splitComment body).1 = ⟨[Ch.lt, Ch.exclamation, Ch.minus, Ch.minus] ++ pre ++
        [Ch.minus, Ch.minus, Ch.gt], .htmlComment, {}⟩ := by
  rw [splitComment] at h ⊢
  split at h
  · rename_i pre a b c rest hs
    split_ifs at h with hc hany
    · simp at h
    · obtain ⟨rfl, rfl, -⟩ := scanDashes_snoc hs []
      refine ⟨pre, ?_, fun u => (scanDashes_snoc hs u).2.2, ?_⟩
      · intro d hd
        have : ¬ ∃ x ∈ pre, isSpecial x = true := by simpa using hany
        by_contra hsp
        exact this ⟨d, hd, by simpa using hsp⟩
      · simp [hc, hany]
    · simp at h
  · simp at h

/-- A comment found once is found everywhere. -/
lemma isToken_comment {pre : Bytes} (hp : ∀ d ∈ pre, isSpecial d = false)
    (hs : ∀ u, scanDashes (pre ++ Ch.minus :: Ch.minus :: u) = (pre, Ch.minus :: Ch.minus :: u)) :
    IsToken ⟨[Ch.lt, Ch.exclamation, Ch.minus, Ch.minus] ++ pre ++ [Ch.minus, Ch.minus, Ch.gt],
      .htmlComment, {}⟩ := by
  refine ⟨by simp, fun u => ?_⟩
  have hany : pre.any isSpecial = false := by
    rw [List.any_eq_false]
    intro d hd
    simp [hp d hd]
  have hstart : startsComment ([Ch.exclamation, Ch.minus, Ch.minus] ++ pre ++
      Ch.minus :: Ch.minus :: Ch.gt :: u) = true := by
    simp [startsComment]
  have hcut : splitComment (pre ++ Ch.minus :: Ch.minus :: Ch.gt :: u) =
      (⟨[Ch.lt, Ch.exclamation, Ch.minus, Ch.minus] ++ pre ++ [Ch.minus, Ch.minus, Ch.gt],
        .htmlComment, {}⟩, u) := by
    rw [splitComment, hs (Ch.gt :: u)]
    simp [hany]
  simp only [List.cons_append, List.append_assoc, List.nil_append] at hstart hcut ⊢
  rw [splitPart, if_neg (by decide), if_pos rfl, if_pos hstart]
  simpa using hcut

/-- What a round of the splitting loop finds: plain text, an invalid entry, an entity, a tag or a
comment. -/
theorem splitPart_cases (h : splitPart s = some (e, r)) :
    (e.type = .plainText ∧ ∀ d ∈ e.text, isSpecial d = false) ∨ e.type = .invalidData ∨
      (∃ body, (∀ d ∈ body, d ≠ Ch.semicolon) ∧
        e = ⟨Ch.amp :: (body ++ [Ch.semicolon]), .htmlEntity, {}⟩) ∨
      (∃ body, (∀ d ∈ body, d ≠ Ch.gt) ∧ startsComment (body ++ [Ch.gt]) = false ∧
        e = ⟨Ch.lt :: (body ++ [Ch.gt]), .htmlTag, {}⟩) ∨
      ∃ pre, (∀ d ∈ pre, isSpecial d = false) ∧
        (∀ u, scanDashes (pre ++ Ch.minus :: Ch.minus :: u) = (pre, Ch.minus :: Ch.minus :: u)) ∧
        e = ⟨[Ch.lt, Ch.exclamation, Ch.minus, Ch.minus] ++ pre ++ [Ch.minus, Ch.minus, Ch.gt],
          .htmlComment, {}⟩ := by
  by_cases hi : e.type = .invalidData
  · exact Or.inr (Or.inl hi)
  cases s with
  | nil => simp [splitPart] at h
  | cons c p =>
    rw [splitPart] at h
    split_ifs at h with h1 h2 h3 h4 <;> obtain ⟨rfl, -⟩ := Prod.ext_iff.mp (Option.some.inj h)
    · obtain ⟨body, hb, -, he⟩ := exists_of_splitUntil hi
      rw [he, h1]
      exact Or.inr (Or.inr (Or.inl ⟨body, hb, rfl⟩))
    · obtain ⟨pre, hpre, hs, he⟩ := exists_of_splitComment hi
      rw [he]
      exact Or.inr (Or.inr (Or.inr (Or.inr ⟨pre, hpre, hs, rfl⟩)))
    · obtain ⟨body, hb, hpb, he⟩ := exists_of_splitUntil hi
      rw [he, h2]
      refine Or.inr (Or.inr (Or.inr (Or.inl ⟨body, hb, ?_, rfl⟩)))
      rw [startsComment, Bool.and_eq_false_iff]
      by_cases hlen : 3 ≤ body.length
      · refine Or.inr ?_
        rw [startsComment, Bool.and_eq_true, not_and_or, hpb] at h3
        rw [List.take_append_of_le_length hlen] at h3 ⊢
        rcases h3 with h3 | h3
        · simp at h3
          omega
        · simpa using h3
      · exact Or.inl (by simp; omega)
    · simp at hi
    · refine Or.inl ⟨rfl, fun d hd => ?_⟩
      rcases List.mem_cons.mp hd with rfl | hd
      · simp only [isSpecial, Bool.or_eq_false_iff, beq_eq_false_iff_ne]
        exact ⟨⟨h2, h4⟩, h1⟩
      · simpa using List.mem_takeWhile_imp hd

/-- Every entry of a text is plain, invalid, or a token. -/
theorem isToken_of_splitPart (h : splitPart s = some (e, r)) (hp : e.type ≠ .plainText)
    (hi : e.type ≠ .invalidData) : IsToken e := by
  rcases splitPart_cases h with ⟨h, -⟩ | h | ⟨body, hb, rfl⟩ | ⟨body, hb, hc, rfl⟩ |
    ⟨pre, hb, hs, rfl⟩
  · exact absurd h hp
  · exact absurd h hi
  · exact isToken_entity hb
  · exact isToken_tag hb hc
  · exact isToken_comment hb hs

/-- A plain entry has no special character. -/
lemma isSpecial_of_plainText (h : splitPart s = some (e, r)) (hp : e.type = .plainText) :
    ∀ d ∈ e.text, isSpecial d = false := by
  rcases splitPart_cases h with ⟨-, h⟩ | h | ⟨body, -, rfl⟩ | ⟨body, -, -, rfl⟩ | ⟨pre, -, -, rfl⟩
  · exact h
  · rw [h] at hp
    simp at hp
  · simp at hp
  · simp at hp
  · simp at hp

/-! ## Markup of a text -/

/-- The entries of a text that are not plain. -/
def markup (s : Bytes) : List Entry := (splitToParts s).filter fun e => e.type ≠ .plainText

/-- A token in front of a text is the first markup. -/
lemma markup_token_append (he : IsToken e) (hp : e.type ≠ .plainText) (u : Bytes) :
    markup (e.text ++ u) = e :: markup u := by
  rw [markup, splitToParts_of_splitPart (he.2 u),
    List.filter_cons_of_pos (by simpa using hp), markup]

/-- A round on a plain character reads the run of plain text. -/
lemma splitPart_plain (hc : isSpecial c = false) (p : Bytes) :
    splitPart (c :: p) = some (⟨c :: p.takeWhile fun d => !isSpecial d, .plainText, {}⟩,
      p.dropWhile fun d => !isSpecial d) := by
  simp only [isSpecial, Bool.or_eq_false_iff, beq_eq_false_iff_ne] at hc
  rw [splitPart, if_neg hc.2, if_neg hc.1.1, if_neg hc.1.2]

/-- A plain character in front of a text does not change its markup. -/
lemma markup_plain_cons (hc : isSpecial c = false) (u : Bytes) :
    markup (c :: u) = markup u := by
  rw [markup, splitToParts_of_splitPart (splitPart_plain hc u), List.filter_cons_of_neg (by simp)]
  cases u with
  | nil => rfl
  | cons d u =>
    by_cases hd : isSpecial d = true
    · rw [List.dropWhile_cons_of_neg (by simpa using hd), markup]
    · have hd : isSpecial d = false := by simpa using hd
      rw [markup, splitToParts_of_splitPart (splitPart_plain hd u),
        List.filter_cons_of_neg (by simp), List.dropWhile_cons_of_pos (by simpa using hd)]

/-- Plain text in front of a text does not change its markup. -/
lemma markup_plain_append (hs : ∀ d ∈ s, isSpecial d = false) (u : Bytes) :
    markup (s ++ u) = markup u := by
  induction s with
  | nil => rfl
  | cons c s ih =>
    rw [List.cons_append, markup_plain_cons (hs c (by simp)), ih fun d hd => hs d (by simp [hd])]

end Xss

end Cppcms
