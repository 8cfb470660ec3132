import Cppcms.Encoding.Utf8

/-!
# What the UTF-8 filter keeps

The characters that `utf8::next` accepts are those of the grammar of RFC 3629, in HTML mode without
the control characters.  `validate_or_filter_utf8` reads them one after the other; where there is
none, it asks again in plain mode how much is to be dropped.  Its result is the one of a filter that
is described by the grammar alone (`Filtered`).
-/

namespace Cppcms

namespace Utf8

open Consume

/-! ## The grammar -/

/-- A continuation octet. -/
def IsTail (b : UInt8) : Prop := 0x80 ≤ b ∧ b ≤ 0xBF

/-- The well-formed characters.  The octet behind the first one is bounded where the form would be
too long, a surrogate or above the range of Unicode. -/
inductive WellFormed : Bytes → Prop
  | one {a : UInt8} (ha : a ≤ 0x7F) : WellFormed [a]
  | two {a b : UInt8} (ha : 0xC2 ≤ a ∧ a ≤ 0xDF) (hb : IsTail b) : WellFormed [a, b]
  | three {a b c : UInt8} (ha : 0xE0 ≤ a ∧ a ≤ 0xEF) (hb : IsTail b) (hlow : a = 0xE0 → 0xA0 ≤ b)
    (hhigh : a = 0xED → b ≤ 0x9F) (hc : IsTail c) : WellFormed [a, b, c]
  | four {a b c d : UInt8} (ha : 0xF0 ≤ a ∧ a ≤ 0xF4) (hb : IsTail b) (hlow : a = 0xF0 → 0x90 ≤ b)
    (hhigh : a = 0xF4 → b ≤ 0x8F) (hc : IsTail c) (hd : IsTail d) : WellFormed [a, b, c, d]

/-- The control characters of one octet and of two octets, but tab, line feed and carriage return.
-/
inductive Forbidden : Bytes → Prop
  | one {a : UInt8} (ha : a < 0x20 ∨ a = 0x7F) (hspace : a ≠ 0x9 ∧ a ≠ 0xA ∧ a ≠ 0xD) :
      Forbidden [a]
  | two {b : UInt8} (hb : 0x80 ≤ b ∧ b ≤ 0x9F) : Forbidden [0xC2, b]

/-- A character that the filter keeps. -/
def Allowed (x : Bytes) : Prop := WellFormed x ∧ ¬Forbidden x

/-- A sequence of such characters. -/
def IsText (s : Bytes) : Prop := ∃ xs : List Bytes, s = xs.flatten ∧ ∀ x ∈ xs, Allowed x

/-- The filter by the grammar alone: an allowed character is kept, a control character is dropped as
a whole, and where no character starts one octet is dropped.  The replacement is written for
everything that is dropped. -/
inductive Filtered (replace : UInt8) : Bytes → Bytes → Prop
  | nil : Filtered replace [] []
  | keep {x s out : Bytes} (hx : Allowed x) (h : Filtered replace s out) :
      Filtered replace (x ++ s) (x ++ out)
  | control {x s out : Bytes} (hx : WellFormed x) (hforbidden : Forbidden x)
      (h : Filtered replace s out) :
    Filtered replace (x ++ s) (replacement replace ++ out)
  | skip {b : UInt8} {s out : Bytes} (hnone : ∀ x t, b :: s = x ++ t → ¬WellFormed x)
      (h : Filtered replace s out) :
    Filtered replace (b :: s) (replacement replace ++ out)

/-! ## Octets -/

lemma isTrail_iff (b : UInt8) : isTrail b = true ↔ 0x80 ≤ b.toNat ∧ b.toNat ≤ 0xBF := by
  have hall : ∀ n : Fin 256, isTrail (UInt8.ofNat n) = true ↔ 0x80 ≤ n.val ∧ n.val ≤ 0xBF := by
    decide +kernel
  have h := hall ⟨b.toNat, b.toNat_lt⟩
  rwa [UInt8.ofNat_toNat] at h

/-- One step of reading a continuation octet. -/
lemma shiftLeft_or (c : ℕ) {b : UInt8} (hb : isTrail b = true) :
    (c <<< 6) ||| (b.toNat &&& 0x3F) = 64 * c + (b.toNat - 0x80) := by
  rcases (isTrail_iff b).1 hb with ⟨hlow, hhigh⟩
  have hmask : b.toNat &&& 0x3F = b.toNat - 0x80 := by
    rw [show (0x3F : ℕ) = 2 ^ 6 - 1 from rfl, Nat.and_two_pow_sub_one_eq_mod]
    omega
  rw [hmask, ← Nat.shiftLeft_add_eq_or_of_lt (by omega : b.toNat - 0x80 < 2 ^ 6), Nat.shiftLeft_eq]
  ring

lemma isTail_iff (b : UInt8) : IsTail b ↔ 0x80 ≤ b.toNat ∧ b.toNat ≤ 0xBF := by
  unfold IsTail
  rw [UInt8.le_iff_toNat_le, UInt8.le_iff_toNat_le]
  rfl

/-- A continuation octet is read, and then the others. -/
lemma readTrail_succ_eq_some_iff {n c : ℕ} {p : Bytes} {q : ℕ × Bytes} :
    readTrail (n + 1) c p = some q ↔
      ∃ b p', p = b :: p' ∧ IsTail b ∧ readTrail n (64 * c + (b.toNat - 0x80)) p' = some q := by
  rcases p with _ | ⟨b, p⟩
  · refine iff_of_false (fun h => by cases h) ?_
    rintro ⟨b, p', hp, -⟩
    cases hp
  · rw [readTrail]
    split_ifs with hb
    · rw [shiftLeft_or c hb]
      have htail : IsTail b := (isTail_iff b).2 ((isTrail_iff b).1 hb)
      constructor
      · exact fun h => ⟨b, p, rfl, htail, h⟩
      · rintro ⟨b', p', hp, -, h⟩
        cases hp
        exact h
    · refine iff_of_false (fun h => by cases h) ?_
      rintro ⟨b', p', hp, htail, -⟩
      cases hp
      exact hb ((isTrail_iff b).2 ((isTail_iff b).1 htail))

lemma readTrail_zero (c : ℕ) (p : Bytes) : readTrail 0 c p = some (c, p) := by
  rw [readTrail]

/-- The tests of `utf8::next` on a number that was read from more than one octet. -/
def acceptsCode (html : Bool) (trail c : ℕ) : Bool :=
  Utf.valid c && width c == trail + 1 && !(html && decide (c < 0xA0))

variable {a : UInt8} {n : ℕ} {html : Bool} {c : ℕ} {x : Bytes}

lemma next_cons_of_trail (html : Bool) (ha : trailLength a = some (n + 1)) (p : Bytes) :
    next html (a :: p) =
      (readTrail (n + 1) (a.toNat % 2 ^ (6 - (n + 1))) p).bind fun q =>
        if acceptsCode html (n + 1) q.1 = true then some q else none := by
  rw [next, ha]
  dsimp only
  rw [Nat.one_shiftLeft, Nat.and_two_pow_sub_one_eq_mod]
  rcases readTrail (n + 1) (a.toNat % 2 ^ (6 - (n + 1))) p with _ | ⟨c, p'⟩
  · rfl
  · rw [Option.bind_some]
    dsimp only
    unfold acceptsCode
    by_cases hvalid : Utf.valid c = true
    · by_cases hwidth : width c = n + 2
      · by_cases hcontrol : (html && decide (c < 0xA0)) = true
        · simp [hvalid, hwidth, hcontrol]
        · simp [hvalid, hwidth, hcontrol]
      · simp [hvalid, hwidth]
    · simp [hvalid]

lemma acceptsCode_iff {trail c : ℕ} :
    acceptsCode html trail c = true ↔
      c ≤ 0x10FFFF ∧ ¬(0xD800 ≤ c ∧ c ≤ 0xDFFF) ∧ width c = trail + 1 ∧
      (html = true → 0xA0 ≤ c) := by
  unfold acceptsCode Utf.valid
  cases html with
  | false =>
    split_ifs <;> simp <;> omega
  | true =>
    split_ifs <;> simp <;> omega

/-- The numbers that a first octet with continuation octets is the begin of. -/
lemma next_eq_some_iff_of_trail {n c : ℕ} {p r : Bytes} (ha : trailLength a = some (n + 1)) :
    next html (a :: p) = some (c, r) ↔
      readTrail (n + 1) (a.toNat % 2 ^ (6 - (n + 1))) p = some (c, r) ∧
      acceptsCode html (n + 1) c = true := by
  rw [next_cons_of_trail html ha]
  rcases readTrail (n + 1) (a.toNat % 2 ^ (6 - (n + 1))) p with _ | ⟨c', r'⟩
  · exact iff_of_false (fun h => by cases h) fun h => by cases h.1
  · rw [Option.bind_some]
    split_ifs with haccepts
    · constructor
      · intro h
        cases h
        exact ⟨rfl, haccepts⟩
      · exact fun h => h.1
    · refine iff_of_false (fun h => by cases h) ?_
      rintro ⟨h, hcode⟩
      cases h
      exact haccepts hcode

/-- The first octets. -/
lemma trailLength_cases (a : UInt8) :
    (a.toNat ≤ 0x7F ∧ trailLength a = some 0) ∨
    (0xC2 ≤ a.toNat ∧ a.toNat ≤ 0xDF ∧ trailLength a = some 1) ∨
      (0xE0 ≤ a.toNat ∧ a.toNat ≤ 0xEF ∧ trailLength a = some 2) ∨
      (0xF0 ≤ a.toNat ∧ a.toNat ≤ 0xF4 ∧ trailLength a = some 3) ∨ trailLength a = none := by
  unfold trailLength
  simp only [UInt8.lt_iff_toNat_lt, UInt8.le_iff_toNat_le, UInt8.reduceToNat]
  split_ifs <;> simp <;> omega

lemma asciiLegal_true_iff (ha : a.toNat ≤ 0x7F) : asciiLegal true a = true ↔ ¬Forbidden [a] := by
  have hforbidden : Forbidden [a] ↔ (a < 0x20 ∨ a = 0x7F) ∧ a ≠ 0x9 ∧ a ≠ 0xA ∧ a ≠ 0xD := by
    constructor
    · rintro (⟨ha, hspace⟩ | -)
      exact ⟨ha, hspace⟩
    · exact fun h => .one h.1 h.2
  rw [hforbidden]
  unfold asciiLegal
  simp only [Bool.not_true, Bool.false_or, Bool.or_eq_true, Bool.and_eq_true, decide_eq_true_eq,
    bne_iff_ne, beq_iff_eq, UInt8.lt_iff_toNat_lt, UInt8.le_iff_toNat_le, ← UInt8.toNat_inj,
    UInt8.reduceToNat, ne_eq]
  omega

/-- A control character of two octets is below the first number that the HTML mode takes. -/
lemma forbidden_two_iff {a b : UInt8} (hb : IsTail b) :
    Forbidden [a, b] ↔ a.toNat = 0xC2 ∧ b.toNat ≤ 0x9F := by
  rw [isTail_iff] at hb
  constructor
  · rintro (- | ⟨hb'⟩)
    rw [UInt8.le_iff_toNat_le, UInt8.le_iff_toNat_le] at hb'
    exact ⟨rfl, hb'.2⟩
  · rintro ⟨ha, hle⟩
    have heq : a = 0xC2 := UInt8.toNat_inj.1 ha
    subst heq
    refine .two ⟨?_, ?_⟩
    · rw [UInt8.le_iff_toNat_le]
      exact hb.1
    · rw [UInt8.le_iff_toNat_le]
      exact hle

/-! ## Characters are read -/

lemma width_eq_two : width c = 2 ↔ 0x80 ≤ c ∧ c ≤ 0x7FF := by
  unfold width
  split_ifs <;> simp <;> omega

lemma width_eq_three : width c = 3 ↔ 0x800 ≤ c ∧ c ≤ 0xFFFF := by
  unfold width
  split_ifs <;> simp <;> omega

lemma width_eq_four : width c = 4 ↔ 0x10000 ≤ c := by
  unfold width
  split_ifs <;> simp <;> omega

section Next

variable {html : Bool} {a : UInt8} {p r : Bytes} {c : ℕ}

lemma next_iff_one (ha : trailLength a = some 0) (hle : a.toNat ≤ 0x7F) :
    next html (a :: p) = some (c, r) ↔ (a.toNat, p) = (c, r) ∧ (html = true → ¬Forbidden [a]) := by
  have hnext : next html (a :: p) = if asciiLegal html a then some (a.toNat, p) else none := by
    rw [next, ha]
  rw [hnext, ← asciiLegal_true_iff hle]
  cases html with
  | false =>
    rw [if_pos (show asciiLegal false a = true from rfl), Option.some_inj]
    exact (and_iff_left fun h => by cases h).symm
  | true =>
    split_ifs with hlegal
    · rw [Option.some_inj]
      exact (and_iff_left fun _ => hlegal).symm
    · exact iff_of_false (fun h => by cases h) fun h => hlegal (h.2 rfl)

lemma next_iff_two (ha : trailLength a = some 1) (hlow : 0xC2 ≤ a.toNat) (hhigh : a.toNat ≤ 0xDF) :
    next html (a :: p) = some (c, r) ↔
      ∃ b, p = b :: r ∧ IsTail b ∧ c = 64 * (a.toNat - 0xC0) + (b.toNat - 0x80) ∧
      (html = true → ¬Forbidden [a, b]) := by
  have hmod : a.toNat % 2 ^ (6 - (0 + 1)) = a.toNat - 0xC0 := by omega
  rw [next_eq_some_iff_of_trail ha, hmod, readTrail_succ_eq_some_iff]
  constructor
  · rintro ⟨⟨b, p', rfl, hb, hread⟩, haccepts⟩
    rw [readTrail_zero] at hread
    rcases Prod.mk.inj (Option.some.inj hread) with ⟨rfl, rfl⟩
    refine ⟨b, rfl, hb, rfl, fun hhtml => ?_⟩
    have hcode := (acceptsCode_iff.1 haccepts).2.2.2 hhtml
    rw [forbidden_two_iff hb]
    omega
  · rintro ⟨b, rfl, hb, hc, hforbidden⟩
    rw [forbidden_two_iff hb] at hforbidden
    have htail := (isTail_iff b).1 hb
    refine ⟨⟨b, r, rfl, hb, by rw [readTrail_zero, hc]⟩,
      acceptsCode_iff.2 ⟨by omega, by omega, ?_, fun hhtml => ?_⟩⟩
    · rw [width_eq_two]
      omega
    · have hnot := hforbidden hhtml
      omega

lemma next_iff_three (ha : trailLength a = some 2) (hlow : 0xE0 ≤ a.toNat)
    (hhigh : a.toNat ≤ 0xEF) :
    next html (a :: p) = some (c, r) ↔
      ∃ b d, p = b :: d :: r ∧ WellFormed [a, b, d] ∧
        c = 64 * (64 * (a.toNat - 0xE0) + (b.toNat - 0x80)) + (d.toNat - 0x80) := by
  have hmod : a.toNat % 2 ^ (6 - (1 + 1)) = a.toNat - 0xE0 := by omega
  rw [next_eq_some_iff_of_trail ha, hmod, readTrail_succ_eq_some_iff]
  constructor
  · rintro ⟨⟨b, p', rfl, hb, hread⟩, haccepts⟩
    rcases readTrail_succ_eq_some_iff.1 hread with ⟨d, p'', rfl, hd, hread⟩
    rw [readTrail_zero] at hread
    rcases Prod.mk.inj (Option.some.inj hread) with ⟨rfl, rfl⟩
    rcases acceptsCode_iff.1 haccepts with ⟨-, hsurrogate, hwidth, -⟩
    have hb' := (isTail_iff b).1 hb
    have hd' := (isTail_iff d).1 hd
    rw [width_eq_three] at hwidth
    refine ⟨b, d, rfl, .three ?_ hb ?_ ?_ hd, rfl⟩
    · simp only [UInt8.le_iff_toNat_le, UInt8.reduceToNat]
      exact ⟨hlow, hhigh⟩
    · rintro rfl
      simp only [UInt8.le_iff_toNat_le, UInt8.reduceToNat] at hwidth ⊢
      omega
    · rintro rfl
      simp only [UInt8.le_iff_toNat_le, UInt8.reduceToNat] at hsurrogate ⊢
      omega
  · rintro ⟨b, d, rfl, hwell, hc⟩
    rcases hwell with _ | _ | ⟨-, hb, hlong, hsurrogate, hd⟩ | _
    have hb' := (isTail_iff b).1 hb
    have hd' := (isTail_iff d).1 hd
    rw [← UInt8.toNat_inj, UInt8.le_iff_toNat_le] at hlong hsurrogate
    simp only [UInt8.reduceToNat] at hlong hsurrogate
    refine ⟨⟨b, d :: r, rfl, hb,
      readTrail_succ_eq_some_iff.2 ⟨d, r, rfl, hd, by rw [readTrail_zero, hc]⟩⟩,
      acceptsCode_iff.2 ⟨by omega, by omega, ?_, by omega⟩⟩
    rw [width_eq_three]
    omega

lemma next_iff_four (ha : trailLength a = some 3) (hlow : 0xF0 ≤ a.toNat) (hhigh : a.toNat ≤ 0xF4) :
    next html (a :: p) = some (c, r) ↔
      ∃ b d e, p = b :: d :: e :: r ∧ WellFormed [a, b, d, e] ∧
        c = 64 * (64 * (64 * (a.toNat - 0xF0) + (b.toNat - 0x80)) + (d.toNat - 0x80)) +
          (e.toNat - 0x80) := by
  have hmod : a.toNat % 2 ^ (6 - (2 + 1)) = a.toNat - 0xF0 := by omega
  rw [next_eq_some_iff_of_trail ha, hmod, readTrail_succ_eq_some_iff]
  constructor
  · rintro ⟨⟨b, p', rfl, hb, hread⟩, haccepts⟩
    rcases readTrail_succ_eq_some_iff.1 hread with ⟨d, p'', rfl, hd, hread⟩
    rcases readTrail_succ_eq_some_iff.1 hread with ⟨e, p''', rfl, he, hread⟩
    rw [readTrail_zero] at hread
    rcases Prod.mk.inj (Option.some.inj hread) with ⟨rfl, rfl⟩
    rcases acceptsCode_iff.1 haccepts with ⟨hrange, -, hwidth, -⟩
    have hb' := (isTail_iff b).1 hb
    have hd' := (isTail_iff d).1 hd
    have he' := (isTail_iff e).1 he
    rw [width_eq_four] at hwidth
    refine ⟨b, d, e, rfl, .four ?_ hb ?_ ?_ hd he, rfl⟩
    · simp only [UInt8.le_iff_toNat_le, UInt8.reduceToNat]
      exact ⟨hlow, hhigh⟩
    · rintro rfl
      simp only [UInt8.le_iff_toNat_le, UInt8.reduceToNat] at hwidth ⊢
      omega
    · rintro rfl
      simp only [UInt8.le_iff_toNat_le, UInt8.reduceToNat] at hrange ⊢
      omega
  · rintro ⟨b, d, e, rfl, hwell, hc⟩
    rcases hwell with _ | _ | _ | ⟨-, hb, hlong, hrange, hd, he⟩
    have hb' := (isTail_iff b).1 hb
    have hd' := (isTail_iff d).1 hd
    have he' := (isTail_iff e).1 he
    rw [← UInt8.toNat_inj, UInt8.le_iff_toNat_le] at hlong hrange
    simp only [UInt8.reduceToNat] at hlong hrange
    have hread : readTrail 2 (64 * (a.toNat - 0xF0) + (b.toNat - 0x80)) (d :: e :: r) =
        some (c, r) :=
      readTrail_succ_eq_some_iff.2 ⟨d, e :: r, rfl, hd,
        readTrail_succ_eq_some_iff.2 ⟨e, r, rfl, he, by rw [readTrail_zero, hc]⟩⟩
    refine ⟨⟨b, d :: e :: r, rfl, hb, hread⟩, acceptsCode_iff.2 ⟨by omega, by omega, ?_, by omega⟩⟩
    rw [width_eq_four]
    omega

end Next

/-- What is read is a well-formed character, which in HTML mode is no control character. -/
lemma wellFormed_of_next {s r : Bytes} (h : next html s = some (c, r)) :
    ∃ x, s = x ++ r ∧ WellFormed x ∧ (html = true → ¬Forbidden x) := by
  rcases s with _ | ⟨a, p⟩
  · cases h
  rcases trailLength_cases a with ⟨hle, ha⟩ | ⟨hlow, hhigh, ha⟩ | ⟨hlow, hhigh, ha⟩ |
    ⟨hlow, hhigh, ha⟩ | ha
  · rcases (next_iff_one ha hle).1 h with ⟨heq, hforbidden⟩
    rw [(Prod.mk.inj heq).2]
    exact ⟨[a], rfl, .one (UInt8.le_iff_toNat_le.2 hle), hforbidden⟩
  · rcases (next_iff_two ha hlow hhigh).1 h with ⟨b, rfl, hb, -, hforbidden⟩
    refine ⟨[a, b], rfl, .two ?_ hb, hforbidden⟩
    rw [UInt8.le_iff_toNat_le, UInt8.le_iff_toNat_le]
    exact ⟨hlow, hhigh⟩
  · rcases (next_iff_three ha hlow hhigh).1 h with ⟨b, d, rfl, hwell, -⟩
    refine ⟨[a, b, d], rfl, hwell, fun _ hforbidden => ?_⟩
    cases hforbidden
  · rcases (next_iff_four ha hlow hhigh).1 h with ⟨b, d, e, rfl, hwell, -⟩
    refine ⟨[a, b, d, e], rfl, hwell, fun _ hforbidden => ?_⟩
    cases hforbidden
  · rw [next, ha] at h
    cases h

/-- A well-formed character is read in front of any text. -/
lemma exists_next_of_wellFormed (hx : WellFormed x) (hforbidden : html = true → ¬Forbidden x)
    (t : Bytes) : ∃ c, next html (x ++ t) = some (c, t) := by
  have hwell := hx
  cases hx with
  | @one a ha =>
    have hle : a.toNat ≤ 0x7F := UInt8.le_iff_toNat_le.1 ha
    have htrail : trailLength a = some 0 := by
      rcases trailLength_cases a with ⟨-, h⟩ | h | h | h | h
      · exact h
      · omega
      · omega
      · omega
      · rw [trailLength, if_pos
          (show a < 128 by rw [UInt8.lt_iff_toNat_lt]; exact Nat.lt_succ_of_le hle)] at h
        cases h
    exact ⟨a.toNat, (next_iff_one htrail hle).2 ⟨rfl, hforbidden⟩⟩
  | @two a b ha hb =>
    rw [UInt8.le_iff_toNat_le, UInt8.le_iff_toNat_le] at ha
    have htrail : trailLength a = some 1 := by
      unfold trailLength
      simp only [UInt8.lt_iff_toNat_lt, UInt8.reduceToNat] at ha ⊢
      rw [if_neg (by omega), if_neg (by omega), if_pos (by omega)]
    exact ⟨_, (next_iff_two htrail ha.1 ha.2).2 ⟨b, rfl, hb, rfl, hforbidden⟩⟩
  | @three a b c ha hb hlow hhigh hc =>
    rw [UInt8.le_iff_toNat_le, UInt8.le_iff_toNat_le] at ha
    have htrail : trailLength a = some 2 := by
      unfold trailLength
      simp only [UInt8.lt_iff_toNat_lt, UInt8.reduceToNat] at ha ⊢
      rw [if_neg (by omega), if_neg (by omega), if_neg (by omega), if_pos (by omega)]
    exact ⟨_, (next_iff_three htrail ha.1 ha.2).2 ⟨b, c, rfl, hwell, rfl⟩⟩
  | @four a b c d ha hb hlow hhigh hc hd =>
    rw [UInt8.le_iff_toNat_le, UInt8.le_iff_toNat_le] at ha
    have htrail : trailLength a = some 3 := by
      unfold trailLength
      simp only [UInt8.lt_iff_toNat_lt, UInt8.le_iff_toNat_le, UInt8.reduceToNat] at ha ⊢
      rw [if_neg (by omega), if_neg (by omega), if_neg (by omega), if_neg (by omega),
        if_pos (by omega)]
    exact ⟨_, (next_iff_four htrail ha.1 ha.2).2 ⟨b, c, d, rfl, hwell, rfl⟩⟩

lemma exists_next_plain (hx : WellFormed x) (t : Bytes) : ∃ c, next false (x ++ t) = some (c, t) :=
  exists_next_of_wellFormed hx (fun hfalse => by cases hfalse) t

lemma WellFormed.ne_nil (h : WellFormed x) : x ≠ [] := by
  cases h <;> exact List.cons_ne_nil _ _

/-- No two well-formed characters start at the same place. -/
lemma WellFormed.append_inj {x y s t : Bytes} (hx : WellFormed x) (hy : WellFormed y)
    (h : x ++ s = y ++ t) :
    x = y ∧ s = t := by
  rcases exists_next_plain hx s with ⟨c, hc⟩
  rcases exists_next_plain hy t with ⟨d, hd⟩
  rw [h, hd] at hc
  have hst : t = s := (Prod.mk.inj (Option.some.inj hc)).2
  subst hst
  exact ⟨List.append_cancel_right h, rfl⟩

/-! ## Texts -/

lemma isChar_iff_allowed (x : Bytes) : IsChar true x ↔ Allowed x := by
  constructor
  · rintro ⟨-, c, hc⟩
    rcases wellFormed_of_next (hc []) with ⟨y, hy, hwell, hforbidden⟩
    rw [List.append_nil, List.append_nil] at hy
    exact hy ▸ ⟨hwell, hforbidden rfl⟩
  · intro hx
    rcases exists_next_of_wellFormed hx.1 (fun _ => hx.2) [] with ⟨c, hc⟩
    rcases next_eq_some hc with ⟨y, hy, hchar, -⟩
    rw [List.append_nil, List.append_nil] at hy
    exact hy ▸ hchar

/-- The valid texts are the sequences of allowed characters. -/
lemma validate_iff_isText (s : Bytes) : validate true s = true ↔ IsText s := by
  constructor
  · intro h
    refine validate_induction ⟨[], rfl, fun x hx => absurd hx List.not_mem_nil⟩ ?_ h
    rintro x t hx - ⟨xs, rfl, hxs⟩
    refine ⟨x :: xs, List.flatten_cons.symm, fun y hy => ?_⟩
    rcases List.mem_cons.1 hy with rfl | hy
    · exact (isChar_iff_allowed y).1 hx
    · exact hxs y hy
  · rintro ⟨xs, rfl, hxs⟩
    induction xs with
    | nil => rfl
    | cons x xs ih =>
      rw [List.flatten_cons, validate_char_append
        ((isChar_iff_allowed x).2 (hxs x List.mem_cons_self))]
      exact ih fun y hy => hxs y (List.mem_cons_of_mem x hy)

/-! ## The filter -/

variable {replace : UInt8}

/-- Valid text in front is kept. -/
lemma Filtered.append {s t out : Bytes} (h : Filtered replace t out) (hs : validate true s = true) :
    Filtered replace (s ++ t) (s ++ out) := by
  refine validate_induction (P := fun s => Filtered replace (s ++ t) (s ++ out)) ?_ ?_ hs
  · exact h
  · intro x u hx _ ih
    rw [List.append_assoc, List.append_assoc]
    exact .keep ((isChar_iff_allowed x).1 hx) ih

/-- The second loop is the filter. -/
lemma filtered_filterRest {s : Bytes} (hn : s.length ≤ n) :
    Filtered replace s (filterRest replace n s) := by
  induction n generalizing s with
  | zero =>
    rw [List.length_eq_zero_iff.1 (Nat.le_zero.1 hn)]
    exact .nil
  | succ n ih =>
    rcases s with _ | ⟨b, s⟩
    · exact .nil
    have hs : s.length ≤ n := Nat.le_of_succ_le_succ hn
    rw [filterRest]
    rcases hkeep : next true (b :: s) with _ | ⟨c, r⟩
    · rcases hplain : next false (b :: s) with _ | ⟨c, r⟩
      · refine .skip ?_ (ih hs)
        intro x t heq hx
        rcases exists_next_plain hx t with ⟨c, hc⟩
        rw [← heq, hplain] at hc
        cases hc
      · dsimp only
        rcases wellFormed_of_next hplain with ⟨x, heq, hx, -⟩
        have hforbidden : Forbidden x := by
          by_contra hnot
          rcases exists_next_of_wellFormed hx (fun _ => hnot) r with ⟨d, hd⟩
          rw [← heq, hkeep] at hd
          cases hd
        have hlength := congrArg List.length heq
        have hpos := List.length_pos_iff.2 hx.ne_nil
        rw [List.length_cons, List.length_append] at hlength
        rw [heq]
        exact .control hx hforbidden (ih (by omega))
    · dsimp only
      rcases wellFormed_of_next hkeep with ⟨x, heq, hx, hforbidden⟩
      have hlength := congrArg List.length heq
      have hpos := List.length_pos_iff.2 hx.ne_nil
      rw [List.length_cons, List.length_append] at hlength
      rw [heq, between_append]
      exact .keep ⟨hx, hforbidden rfl⟩ (ih (by omega))

/-- The grammar leaves the filter no choice. -/
lemma Filtered.unique {s out out' : Bytes} (h : Filtered replace s out)
    (h' : Filtered replace s out') : out' = out := by
  induction h generalizing out' with
  | nil =>
    generalize hs : ([] : Bytes) = s at h'
    cases h' with
    | nil => rfl
    | keep hx h' => exact absurd (List.append_eq_nil_iff.1 hs.symm).1 hx.1.ne_nil
    | control hx hforbidden h' => exact absurd (List.append_eq_nil_iff.1 hs.symm).1 hx.ne_nil
    | skip hnone h' => cases hs
  | @keep x s out hx _ ih =>
    generalize hs : x ++ s = s' at h'
    cases h' with
    | nil => exact absurd (List.append_eq_nil_iff.1 hs).1 hx.1.ne_nil
    | keep hy h' =>
      rcases hx.1.append_inj hy.1 hs with ⟨rfl, rfl⟩
      rw [ih h']
    | control hy hforbidden h' =>
      rcases hx.1.append_inj hy hs with ⟨rfl, rfl⟩
      exact absurd hforbidden hx.2
    | skip hnone h' => exact absurd hx.1 (hnone x s hs.symm)
  | @control x s out hx hforbidden _ ih =>
    generalize hs : x ++ s = s' at h'
    cases h' with
    | nil => exact absurd (List.append_eq_nil_iff.1 hs).1 hx.ne_nil
    | keep hy h' =>
      rcases hx.append_inj hy.1 hs with ⟨rfl, rfl⟩
      exact absurd hforbidden hy.2
    | control hy hforbidden' h' =>
      rcases hx.append_inj hy hs with ⟨rfl, rfl⟩
      rw [ih h']
    | skip hnone h' => exact absurd hx (hnone x s hs.symm)
  | @skip b s out hnone _ ih =>
    generalize hs : b :: s = s' at h'
    cases h' with
    | nil => cases hs
    | keep hy h' => exact absurd hy.1 (hnone _ _ hs)
    | control hy hforbidden h' => exact absurd hy (hnone _ _ hs)
    | skip hnone' h' =>
      cases hs
      rw [ih h']

/-- What is written is what the filter by the grammar writes. -/
lemma filtered_validateOrFilterUtf8 {s out : Bytes}
    (h : validateOrFilterUtf8 s replace = some out) :
    Filtered replace s out := by
  rw [validateOrFilterUtf8] at h
  split_ifs at h
  have hspec := legalPrefix_spec (le_refl s.length)
  have hrest : Filtered replace (legalPrefix s.length s).2
      (filterRest replace (legalPrefix s.length s).2.length (legalPrefix s.length s).2) :=
        filtered_filterRest le_rfl
  have hfiltered := hrest.append hspec.2.1
  rw [← hspec.1] at hfiltered
  exact Option.some.inj h ▸ hfiltered

/-- A printable character may be written. -/
lemma validate_replacement (hreplace : replace = 0 ∨ 0x20 ≤ replace ∧ replace ≤ 0x7E) :
    validate true (replacement replace) = true := by
  unfold replacement
  split_ifs with hzero
  · have hbounds := hreplace.resolve_left hzero
    rw [UInt8.le_iff_toNat_le, UInt8.le_iff_toNat_le] at hbounds
    simp only [UInt8.reduceToNat] at hbounds
    have hascii : replace < 128 := by
      rw [UInt8.lt_iff_toNat_lt]
      simp only [UInt8.reduceToNat]
      omega
    refine (validate_cons_iff hascii).2 ⟨?_, rfl⟩
    unfold asciiLegal
    simp only [Bool.not_true, Bool.false_or, Bool.or_eq_true, Bool.and_eq_true, decide_eq_true_eq,
      bne_iff_ne, beq_iff_eq, UInt8.le_iff_toNat_le, ← UInt8.toNat_inj, UInt8.reduceToNat, ne_eq]
    omega
  · rfl

/-- The filter takes exactly the sequences of allowed characters for valid; of any other text it
writes what the filter by the grammar writes, which is such a sequence and is valid when it is
filtered again. -/
theorem validateOrFilterUtf8_filters (s : Bytes) (replace : UInt8)
    (hreplace : replace = 0 ∨ 0x20 ≤ replace ∧ replace ≤ 0x7E) :
    (validateOrFilterUtf8 s replace = none ↔ IsText s) ∧
      ∀ out, validateOrFilterUtf8 s replace = some out →
        IsText out ∧ (∀ out', Filtered replace s out' ↔ out' = out) ∧
        validateOrFilterUtf8 out replace = none := by
  refine ⟨(validateOrFilterUtf8_eq_none_iff s replace).trans (validate_iff_isText s),
    fun out h => ?_⟩
  have hfiltered := filtered_validateOrFilterUtf8 h
  have hvalid : validate true out = true := by
    rw [validateOrFilterUtf8] at h
    split_ifs at h
    rw [← Option.some.inj h]
    exact validate_append (legalPrefix_spec le_rfl).2.1
      (validate_filterRest (validate_replacement hreplace) _ _)
  refine ⟨(validate_iff_isText out).1 hvalid, fun out' => ⟨fun h' => hfiltered.unique h', ?_⟩,
    (validateOrFilterUtf8_eq_none_iff out replace).2 hvalid⟩
  rintro rfl
  exact hfiltered

/-- An octet that starts no character and a control character of two octets. -/
theorem validateOrFilterUtf8_filters_question :
    validateOrFilterUtf8 [0x61, 0xFF, 0xC2, 0x85, 0x62] 0x3F = some [0x61, 0x3F, 0x3F, 0x62] ∧
      IsText [0x61, 0x3F, 0x3F, 0x62] := by
  have h : validateOrFilterUtf8 [0x61, 0xFF, 0xC2, 0x85, 0x62] 0x3F =
    some [0x61, 0x3F, 0x3F, 0x62] := by decide
  exact ⟨h, ((validateOrFilterUtf8_filters _ 0x3F (by decide)).2 _ h).1⟩

end Utf8

end Cppcms
