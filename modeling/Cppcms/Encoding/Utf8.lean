import Cppcms.Base.Bytes
import Cppcms.Library.Consume

/-!
# The UTF-8 scanner

`private/utf_iterator.h` decodes one code point at a time (`utf8::next`), in two modes: the plain
one and the HTML one, which also refuses control characters.  `utf8::validate` repeats it over a
whole range, and `validate_or_filter_utf8` of `src/encoding.cpp` drops or replaces what it refuses.

A code point that `next` accepts occupies a block of octets that is accepted in every context
(`IsChar`), and a block of more than one octet has no ASCII octet in it.  Hence a valid text may be
cut before or after any ASCII octet (`validate_append_cons_iff`), which is what every filter that
cuts texts at ASCII delimiters relies on.
-/

namespace Cppcms

namespace Utf

/-- `utf::valid`: inside the Unicode range and not a surrogate. -/
def valid (v : ℕ) : Bool :=
  if 0x10FFFF < v then false
  else if 0xD800 ≤ v ∧ v ≤ 0xDFFF then false
  else true

end Utf

namespace Utf8

open Consume

/-! ## One code point -/

/-- A continuation octet `10xxxxxx`. -/
def isTrail (c : UInt8) : Bool := c &&& 0xC0 == 0x80

/-- The number of continuation octets announced by a first octet; `none` stands for `-1`. -/
def trailLength (c : UInt8) : Option ℕ :=
  if c < 128 then some 0
  else if c < 194 then none
  else if c < 224 then some 1
  else if c < 240 then some 2
  else if c ≤ 244 then some 3
  else none

/-- The number of octets of the shortest encoding of a code point. -/
def width (value : ℕ) : ℕ :=
  if value ≤ 0x7F then 1
  else if value ≤ 0x7FF then 2
  else if value ≤ 0xFFFF then 3
  else 4

/-- The cases `3`, `2`, `1` of the switch in `utf8::next`, which fall through into each other. -/
def readTrail : ℕ → ℕ → Bytes → Option (ℕ × Bytes)
  | 0, c, p => some (c, p)
  | _ + 1, _, [] => none
  | n + 1, c, tmp :: p =>
    if isTrail tmp then readTrail n ((c <<< 6) ||| (tmp.toNat &&& 0x3F)) p else none

/-- The ASCII octets that are accepted: all of them, or in HTML mode those that are printable or
white space. -/
def asciiLegal (html : Bool) (lead : UInt8) : Bool :=
  !html || (0x20 ≤ lead && lead != 0x7F) || lead == 0x9 || lead == 0x0A || lead == 0x0D

/-- `utf8::next`: the code point at the start of the range and the rest of the range, or `none` for
`utf::illegal`.  The position after an illegal sequence is never used by the callers. -/
def next (html : Bool) : Bytes → Option (ℕ × Bytes)
  | [] => none
  | lead :: p =>
    match trailLength lead with
    | none => none
    | some 0 => if asciiLegal html lead then some (lead.toNat, p) else none
    | some (n + 1) =>
      match readTrail (n + 1) (lead.toNat &&& ((1 <<< (6 - (n + 1))) - 1)) p with
      | none => none
      | some (c, p') =>
        if !Utf.valid c then none
        else if width c ≠ n + 2 then none
        else if html && c < 0xA0 then none
        else some (c, p')

/-- `utf8::validate`: every code point of the range is legal. -/
def validate (html : Bool) (s : Bytes) : Bool := (consume (next html) s).isSome

/-! ## Blocks of octets -/

/-- A block of octets that is read as one code point in front of any text. -/
def IsChar (html : Bool) (x : Bytes) : Prop := x ≠ [] ∧ ∃ c, ∀ t, next html (x ++ t) = some (c, t)

variable {q : ℕ × Bytes} {b : UInt8} {html : Bool} {s : Bytes} {x : Bytes}

/-- Reading continuation octets consumes a block of them and nothing else. -/
lemma readTrail_eq_some {n c : ℕ} {p : Bytes} (h : readTrail n c p = some q) :
    ∃ x, p = x ++ q.2 ∧ (∀ b ∈ x, isTrail b) ∧ ∀ t, readTrail n c (x ++ t) = some (q.1, t) := by
  induction n generalizing c p with
  | zero =>
    simp only [readTrail, Option.some.injEq] at h
    subst h
    exact ⟨[], by simp [readTrail]⟩
  | succ n ih =>
    cases p with
    | nil => simp [readTrail] at h
    | cons tmp p =>
      rw [readTrail] at h
      split_ifs at h with ht
      obtain ⟨x, hp, hx, ht'⟩ := ih h
      refine ⟨tmp :: x, by simp [hp], ?_, ?_⟩
      · intro b hb
        rcases List.mem_cons.mp hb with rfl | hb
        · exact ht
        · exact hx b hb
      · intro t
        simp [readTrail, ht, ht' t]

/-- Continuation octets are not ASCII. -/
lemma le_of_isTrail (h : isTrail b) : 128 ≤ b := by
  rw [isTrail, beq_iff_eq] at h
  have := congrArg UInt8.toNat h
  rw [UInt8.le_iff_toNat_le]
  simp at this ⊢
  have hb : b.toNat &&& 192 ≤ b.toNat := Nat.and_le_left
  omega

/-- What a successful `next` has read: an ASCII octet, or a block without ASCII octets. -/
theorem next_eq_some (h : next html s = some q) :
    ∃ x, s = x ++ q.2 ∧ IsChar html x ∧
      ((∃ b, x = [b] ∧ b < 128 ∧ asciiLegal html b) ∨ ∀ b ∈ x, 128 ≤ b) := by
  cases s with
  | nil => simp [next] at h
  | cons lead p =>
    rw [next] at h
    split at h
    · simp at h
    · rename_i hl
      split_ifs at h with ha
      have hlt : lead < 128 := by
        unfold trailLength at hl
        split_ifs at hl <;> simp_all
      simp only [Option.some.injEq] at h
      subst h
      refine ⟨[lead], by simp, ⟨by simp, lead.toNat, ?_⟩, Or.inl ⟨lead, rfl, hlt, ha⟩⟩
      intro t
      simp [next, hl, ha]
    · rename_i n hl
      have hge : 128 ≤ lead := by
        by_contra hlt
        have : trailLength lead = some 0 := by
          rw [trailLength, if_pos (UInt8.not_le.mp hlt)]
        simp [this] at hl
      split at h
      · simp at h
      · rename_i c p' hr
        split_ifs at h with h1 h2 h3
        simp only [Option.some.injEq] at h
        subst h
        obtain ⟨x, hp, hx, ht⟩ := readTrail_eq_some hr
        refine ⟨lead :: x, by simp [hp], ⟨by simp, c, ?_⟩, Or.inr ?_⟩
        · intro t
          simp only [next, List.cons_append, hl, ht t]
          rw [if_neg h1, if_neg h2, if_neg h3]
        · intro b hb
          rcases List.mem_cons.mp hb with rfl | hb
          · exact hge
          · exact le_of_isTrail (hx b hb)

/-- `next` always moves forward. -/
lemma shortens_next (html : Bool) : Shortens (next html) := by
  intro s c r h
  obtain ⟨x, hs, hx, -⟩ := next_eq_some h
  have : 0 < x.length := List.length_pos_iff.mpr hx.1
  simp [hs]
  omega

/-- A block is either one ASCII octet or has no ASCII octet. -/
lemma IsChar.ascii_or (hx : IsChar html x) :
    (∃ b, x = [b] ∧ b < 128 ∧ asciiLegal html b) ∨ ∀ b ∈ x, 128 ≤ b := by
  obtain ⟨-, c, hc⟩ := hx
  have h := hc []
  rw [List.append_nil] at h
  obtain ⟨y, hy, -, hcases⟩ := next_eq_some h
  rw [List.append_nil] at hy
  rwa [hy]

/-- A legal ASCII octet is a block of its own. -/
lemma isChar_singleton (hb : b < 128) (hl : asciiLegal html b) :
    IsChar html [b] := by
  refine ⟨by simp, b.toNat, fun t => ?_⟩
  simp [next, trailLength, hb, hl]

/-! ## Valid texts -/

@[simp] lemma validate_nil (html : Bool) : validate html [] = true := rfl

/-- A leading block does not matter for validity. -/
lemma validate_char_append (hx : IsChar html x) (t : Bytes) :
    validate html (x ++ t) = validate html t := by
  obtain ⟨hne, c, hc⟩ := hx
  have : x ++ t ≠ [] := by simp [hne]
  rw [validate, consume_of_step (shortens_next html) this (hc t), Option.isSome_map]
  rfl

/-- A non-empty valid text starts with a block, and the rest is valid. -/
lemma exists_char_of_validate (hs : s ≠ []) (h : validate html s) :
    ∃ x t, s = x ++ t ∧ IsChar html x ∧ validate html t := by
  cases hn : next html s with
  | none =>
    rw [validate, consume_of_step_none hs hn] at h
    simp at h
  | some q =>
    obtain ⟨x, hsx, hx, -⟩ := next_eq_some hn
    refine ⟨x, q.2, hsx, hx, ?_⟩
    rwa [hsx, validate_char_append hx] at h

/-- Induction over the blocks of a valid text. -/
theorem validate_induction {P : Bytes → Prop} (nil : P [])
    (char : ∀ x t, IsChar html x → validate html t → P t → P (x ++ t)) (h : validate html s) :
    P s := by
  induction hn : s.length using Nat.strong_induction_on generalizing s with
  | _ n ih =>
    by_cases hs : s = []
    · exact hs ▸ nil
    · obtain ⟨x, t, rfl, hx, ht⟩ := exists_char_of_validate hs h
      have : 0 < x.length := List.length_pos_iff.mpr hx.1
      exact char x t hx ht (ih t.length (by simp at hn; omega) ht rfl)

/-- Valid texts may be joined. -/
lemma validate_append {s t : Bytes} (hs : validate html s) (ht : validate html t) :
    validate html (s ++ t) := by
  refine validate_induction (P := fun s => validate html (s ++ t) = true) ?_ ?_ hs
  · simpa using ht
  · intro x u hx _ ih
    rwa [List.append_assoc, validate_char_append hx]

/-- A valid text may be cut before an ASCII octet. -/
theorem validate_append_cons_iff {s t : Bytes} (hb : b < 128) :
    validate html (s ++ b :: t) = true ↔
    validate html s = true ∧ validate html (b :: t) = true := by
  refine ⟨?_, fun h => validate_append h.1 h.2⟩
  induction hn : s.length using Nat.strong_induction_on generalizing s with
  | _ n ih =>
    intro h
    by_cases hs : s = []
    · subst hs
      simpa using h
    · obtain ⟨x, u, hxu, hx, hu⟩ := exists_char_of_validate (by simp) h
      have hxpos : 0 < x.length := List.length_pos_iff.mpr hx.1
      rcases List.append_eq_append_iff.mp hxu with ⟨v, hv, hu'⟩ | ⟨v, hv, ht⟩
      · -- the block reaches beyond `s`, so it would contain `b`
        cases v with
        | nil =>
          have hsx : s = x := by simpa using hv.symm
          have hbu : u = b :: t := by simpa using hu'.symm
          subst hsx hbu
          refine ⟨?_, hu⟩
          have := validate_char_append hx []
          simpa using this
        | cons d v =>
          have hd : d = b := by simpa using (List.cons_eq_cons.mp hu').1.symm
          subst hd
          rcases hx.ascii_or with ⟨e, he, -⟩ | hall
          · have : s.length + (d :: v).length = 1 := by
              rw [← List.length_append, ← hv, he]
              rfl
            have : 0 < s.length := List.length_pos_iff.mpr hs
            simp at *
            omega
          · have := hall d (by simp [hv])
            exact absurd hb (UInt8.not_lt.mpr this)
      · have hlen : v.length < n := by
          have := congrArg List.length hv
          simp at this
          omega
        have := ih v.length hlen rfl (by rwa [← ht])
        refine ⟨?_, this.2⟩
        rw [hv, validate_char_append hx]
        exact this.1

/-- A valid text may be cut after an ASCII octet. -/
lemma validate_cons_iff {t : Bytes} (hb : b < 128) :
    validate html (b :: t) = true ↔ asciiLegal html b = true ∧ validate html t = true := by
  constructor
  · intro h
    obtain ⟨x, u, hxu, hx, hu⟩ := exists_char_of_validate (by simp) h
    rcases hx.ascii_or with ⟨e, rfl, -, hl⟩ | hall
    · obtain ⟨rfl, rfl⟩ : b = e ∧ t = u := by simpa using hxu
      exact ⟨hl, hu⟩
    · obtain ⟨d, x', rfl⟩ := List.exists_cons_of_ne_nil hx.1
      obtain ⟨rfl, -⟩ : b = d ∧ t = x' ++ u := by simpa using hxu
      exact absurd hb (UInt8.not_lt.mpr (hall b (by simp)))
  · rintro ⟨hl, ht⟩
    exact (validate_char_append (isChar_singleton hb hl) t).trans ht

/-! ## Filtering -/

/-- The octets between two positions of one range, given as the rests from there on. -/
def between (s r : Bytes) : Bytes := s.take (s.length - r.length)

lemma between_append (x r : Bytes) : between (x ++ r) r = x := by
  simp [between]

/-- The first loop of `validate_or_filter_utf8`: the longest prefix of legal code points and the
rest, with a budget of rounds. -/
def legalPrefix : ℕ → Bytes → Bytes × Bytes
  | 0, s => ([], s)
  | n + 1, s =>
    match next true s with
    | none => ([], s)
    | some (_, r) => (between s r ++ (legalPrefix n r).1, (legalPrefix n r).2)

/-- The replacement written for a dropped sequence; the character `0` stands for none. -/
def replacement (replace : UInt8) : Bytes := if replace ≠ 0 then [replace] else []

/-- The second loop of `validate_or_filter_utf8`, with a budget of rounds.  A sequence that is legal
outside HTML mode is dropped as a whole, any other illegal octet is dropped alone. -/
def filterRest (replace : UInt8) : ℕ → Bytes → Bytes
  | 0, _ => []
  | _ + 1, [] => []
  | n + 1, b :: s =>
    match next true (b :: s) with
    | some (_, r) => between (b :: s) r ++ filterRest replace n r
    | none =>
      match next false (b :: s) with
      | none => replacement replace ++ filterRest replace n s
      | some (_, r) => replacement replace ++ filterRest replace n r

/-- `validate_or_filter_utf8`: `none` if the text is valid, otherwise the filtered text. -/
def validateOrFilterUtf8 (s : Bytes) (replace : UInt8) : Option Bytes :=
  let p := legalPrefix s.length s
  if p.2 = [] then none else some (p.1 ++ filterRest replace p.2.length p.2)

/-- The prefix found by the first loop is valid, and the whole text is its concatenation with the
rest; the rest is empty exactly for a valid text. -/
lemma legalPrefix_spec {n : ℕ} (hn : s.length ≤ n) :
    s = (legalPrefix n s).1 ++ (legalPrefix n s).2 ∧ validate true (legalPrefix n s).1 = true ∧
      ((legalPrefix n s).2 = [] ↔ validate true s = true) := by
  induction n generalizing s with
  | zero =>
    obtain rfl : s = [] := by simpa using hn
    simp [legalPrefix]
  | succ n ih =>
    rw [legalPrefix]
    cases h : next true s with
    | none =>
      refine ⟨by simp, by simp, ?_⟩
      by_cases hs : s = []
      · simp [hs]
      · simp [hs, validate, consume_of_step_none hs h]
    | some q =>
      obtain ⟨x, hs, hx, -⟩ := next_eq_some h
      obtain ⟨c, r⟩ := q
      simp only at hs ⊢
      subst hs
      have hxpos : 0 < x.length := List.length_pos_iff.mpr hx.1
      have hr : r.length ≤ n := by simp at hn; omega
      obtain ⟨h1, h2, h3⟩ := ih hr
      refine ⟨?_, ?_, ?_⟩
      · rw [between_append, List.append_assoc, ← h1]
      · rw [between_append, validate_char_append hx]
        exact h2
      · rw [validate_char_append hx]
        exact h3

/-- The second loop writes valid text if the replacement is legal. -/
lemma validate_filterRest {replace : UInt8} (hrepl : validate true (replacement replace) = true)
    (n : ℕ) (s : Bytes) : validate true (filterRest replace n s) = true := by
  induction n generalizing s with
  | zero => rfl
  | succ n ih =>
    cases s with
    | nil => rfl
    | cons b s =>
      rw [filterRest]
      cases h : next true (b :: s) with
      | some q =>
        obtain ⟨x, hs, hx, -⟩ := next_eq_some h
        obtain ⟨c, r⟩ := q
        simp only at hs ⊢
        rw [hs, between_append, validate_char_append hx]
        exact ih r
      | none =>
        cases h' : next false (b :: s) with
        | none => exact validate_append hrepl (ih s)
        | some q => exact validate_append hrepl (ih q.2)

/-- The filter accepts exactly the valid texts. -/
theorem validateOrFilterUtf8_eq_none_iff (s : Bytes) (replace : UInt8) :
    validateOrFilterUtf8 s replace = none ↔ validate true s = true := by
  rw [← (legalPrefix_spec (le_refl s.length)).2.2, validateOrFilterUtf8]
  by_cases h : (legalPrefix s.length s).2 = [] <;> simp [h]

/-- What the filter writes with the replacement `0` is valid. -/
theorem validate_of_validateOrFilterUtf8 {s out : Bytes} (h : validateOrFilterUtf8 s 0 = some out) :
    validate true out = true := by
  rw [validateOrFilterUtf8] at h
  split_ifs at h
  simp only [Option.some.injEq] at h
  subst h
  exact validate_append (legalPrefix_spec le_rfl).2.1 (validate_filterRest rfl _ _)

end Utf8

end Cppcms
