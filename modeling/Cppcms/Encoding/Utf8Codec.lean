import Cppcms.Encoding.Utf16
import Cppcms.Encoding.Utf8

/-!
# The UTF-8 scanner reads what the encoder writes

`utf8::next` without the HTML mode and `utf8::encode` are inverse to each other on the scalar values
of Unicode.  An encoded value has its highest bits in the first octet and six bits in each further
one, and the checks of `next` behind the last octet leave only the shortest encodings and no
surrogates.
-/

namespace Cppcms

namespace Utf8

open Consume

/-- The scalar values of Unicode. -/
def IsScalar (c : ℕ) : Prop := c < 0xD800 ∨ 0xE000 ≤ c ∧ c ≤ 0x10FFFF

lemma valid_iff {c : ℕ} : Utf.valid c = true ↔ IsScalar c := by
  unfold Utf.valid IsScalar
  split_ifs with h1 h2
  · exact ⟨(fun h => by cases h), fun h => by omega⟩
  · exact ⟨(fun h => by cases h), fun h => by omega⟩
  · exact ⟨fun _ => by omega, fun _ => rfl⟩

/-! ## Continuation octets -/

lemma and_63 (c : ℕ) : c &&& 0x3F = c % 64 := Nat.and_two_pow_sub_one_eq_mod c 6

lemma shiftLeft_or_bits {a b : ℕ} (hb : b < 64) : (a <<< 6) ||| b = 64 * a + b := by
  rw [← Nat.shiftLeft_add_eq_or_of_lt hb, Nat.shiftLeft_eq, Nat.mul_comm]

/-- A continuation octet with its six bits. -/
def trail (b : ℕ) : UInt8 := .ofNat (b ||| 0x80)

set_option maxRecDepth 2048 in
lemma trail_spec : ∀ b < 64, isTrail (trail b) = true ∧ (trail b).toNat &&& 0x3F = b := by decide

set_option maxRecDepth 2048 in
lemma eq_trail_mod : ∀ n < 256, isTrail (.ofNat n) = true → UInt8.ofNat n = trail (n % 64) :=
  by decide

variable {c : UInt8} {n : ℕ} {v : ℕ} {l : Lead} {s t : Bytes}

/-- Every continuation octet is one of these. -/
lemma exists_trail (h : isTrail c = true) : ∃ b < 64, c = trail b := by
  refine ⟨c.toNat % 64, Nat.mod_lt _ (by decide), ?_⟩
  have hc := eq_trail_mod c.toNat c.toNat_lt
  rw [UInt8.ofNat_toNat] at hc
  exact hc h

lemma readTrail_trail {n c b : ℕ} (hb : b < 64) (p : Bytes) :
    readTrail (n + 1) c (trail b :: p) = readTrail n (64 * c + b) p := by
  rcases trail_spec b hb with ⟨htrail, hbits⟩
  rw [readTrail, if_pos htrail, hbits, shiftLeft_or_bits hb]

/-- The continuation octets of a value: its lowest `6 * n` bits, six in each octet. -/
def trails : ℕ → ℕ → Bytes
  | 0, _ => []
  | n + 1, v => trail (v / 64 ^ n % 64) :: trails n v

/-- The bits in front of the last `6 * n` ones are read back together with those. -/
lemma readTrail_trails (n v : ℕ) (t : Bytes) :
    readTrail n (v / 64 ^ n) (trails n v ++ t) = some (v, t) := by
  induction n with
  | zero => rw [pow_zero, Nat.div_one, trails, List.nil_append, readTrail]
  | succ n ih =>
    have hsplit : 64 * (v / 64 ^ (n + 1)) + v / 64 ^ n % 64 = v / 64 ^ n := by
      rw [pow_succ, ← Nat.div_div_eq_div_mul]
      exact Nat.div_add_mod _ _
    rw [trails, List.cons_append, readTrail_trail (Nat.mod_lt _ (by decide)), hsplit]
    exact ih

/-- Whatever was read, its last bits are the continuation octets. -/
lemma eq_trails {n a v : ℕ} {p t : Bytes} (h : readTrail n a p = some (v, t)) :
    p = trails n v ++ t ∧ v / 64 ^ n = a := by
  induction n generalizing a p with
  | zero =>
    rw [readTrail, Option.some.injEq, Prod.mk.injEq] at h
    rcases h with ⟨rfl, rfl⟩
    exact ⟨rfl, by rw [pow_zero, Nat.div_one]⟩
  | succ n ih =>
    cases p with
    | nil => rw [readTrail] at h; cases h
    | cons tmp p =>
      have htrail : isTrail tmp = true := by
        by_contra hnot
        rw [readTrail, if_neg hnot] at h
        cases h
      rcases exists_trail htrail with ⟨b, hb, rfl⟩
      rw [readTrail_trail hb] at h
      rcases ih h with ⟨rfl, hdiv⟩
      have hmod : v / 64 ^ n % 64 = b := by rw [hdiv]; omega
      refine ⟨by rw [trails, hmod, List.cons_append], ?_⟩
      rw [pow_succ, ← Nat.div_div_eq_div_mul, hdiv]
      omega

/-! ## First octets -/

/-- A first octet: its mark, how many octets follow it, and the values that its own bits can have.
-/
structure Lead where
  mark : ℕ
  more : ℕ
  least : ℕ
  limit : ℕ

/-- The first octets of the encodings with two, three and four octets. -/
def leads : List Lead := [⟨0xC0, 1, 2, 32⟩, ⟨0xE0, 2, 0, 16⟩, ⟨0xF0, 3, 0, 5⟩]

def Lead.octet (l : Lead) (a : ℕ) : UInt8 := .ofNat (a ||| l.mark)

/-- The bits of an octet behind the mark of a first octet. -/
def Lead.bits (l : Lead) (c : ℕ) : ℕ := c &&& ((1 <<< (6 - l.more)) - 1)

set_option maxRecDepth 2048 in
lemma lead_spec : ∀ l ∈ leads, ∀ a < l.limit, l.least ≤ a →
    trailLength (l.octet a) = some l.more ∧ l.bits (l.octet a).toNat = a := by
  decide

set_option maxRecDepth 4096 in
lemma eq_lead : ∀ n < 256, ∀ m < 3, trailLength (.ofNat n) = some (m + 1) →
    ∃ l ∈ leads, l.more = m + 1 ∧ UInt8.ofNat n = l.octet (l.bits n) := by
  decide

lemma trailLength_le (h : trailLength c = some n) : n ≤ 3 := by
  unfold trailLength at h
  split_ifs at h <;> simp_all <;> omega

lemma exists_lead (h : trailLength c = some (n + 1)) :
    ∃ l ∈ leads, l.more = n + 1 ∧ c = l.octet (l.bits c.toNat) := by
  have hn : n < 3 := by have := trailLength_le h; omega
  have hc := eq_lead c.toNat c.toNat_lt n hn
  rw [UInt8.ofNat_toNat] at hc
  exact hc h

lemma more_pos : ∀ l ∈ leads, 0 < l.more := by decide

/-! ## One encoded value -/

/-- The values of each width. -/
lemma width_cases (v : ℕ) :
    width v = 1 ∧ v ≤ 0x7F ∨ width v = 2 ∧ 0x7F < v ∧ v ≤ 0x7FF ∨ width v = 3 ∧
    0x7FF < v ∧ v ≤ 0xFFFF ∨
      width v = 4 ∧ 0xFFFF < v := by
  unfold width
  split_ifs <;> omega

lemma encode_of_width_one (h : width v = 1) : v ≤ 0x7F ∧ encode v = [.ofNat v] := by
  have hv : v ≤ 0x7F := by have := width_cases v; omega
  exact ⟨hv, by rw [encode, if_pos hv]⟩

lemma mem_leads :
    l ∈ leads ↔ l = ⟨0xC0, 1, 2, 32⟩ ∨ l = ⟨0xE0, 2, 0, 16⟩ ∨ l = ⟨0xF0, 3, 0, 5⟩ := by
  simp only [leads, List.mem_cons, List.not_mem_nil, or_false]

/-- An encoding with several octets is its first octet and its continuation octets. -/
lemma encode_of_width (hl : l ∈ leads) (h : width v = l.more + 1) :
    encode v = l.octet (v / 64 ^ l.more) :: trails l.more v := by
  have hcases := width_cases v
  unfold encode
  rcases mem_leads.mp hl with rfl | rfl | rfl
  · have hv : ¬ v ≤ 0x7F ∧ v ≤ 0x7FF := by simp only at h; omega
    rw [if_neg hv.1, if_pos hv.2, and_63, Nat.shiftRight_eq_div_pow]
    simp only [Lead.octet, trails, trail, pow_zero, pow_one, Nat.div_one]
  · have hv : ¬ v ≤ 0x7F ∧ ¬ v ≤ 0x7FF ∧ v ≤ 0xFFFF := by simp only at h; omega
    rw [if_neg hv.1, if_neg hv.2.1, if_pos hv.2.2]
    simp only [and_63, Nat.shiftRight_eq_div_pow, Lead.octet, trails, trail, pow_zero,
      pow_one, Nat.div_one]
    norm_num
  · have hv : ¬ v ≤ 0x7F ∧ ¬ v ≤ 0x7FF ∧ ¬ v ≤ 0xFFFF := by simp only at h; omega
    rw [if_neg hv.1, if_neg hv.2.1, if_neg hv.2.2]
    simp only [and_63, Nat.shiftRight_eq_div_pow, Lead.octet, trails, trail, pow_zero,
      pow_one, Nat.div_one]
    norm_num

/-- The first octet of a scalar value can hold its highest bits, and shows that the encoding is not
too long. -/
lemma lead_bounds (hl : l ∈ leads) (hv : IsScalar v) (h : width v = l.more + 1) :
    v / 64 ^ l.more < l.limit ∧ l.least ≤ v / 64 ^ l.more := by
  have hcases := width_cases v
  unfold IsScalar at hv
  rcases mem_leads.mp hl with rfl | rfl | rfl
  · simp only [pow_one] at h ⊢
    omega
  · norm_num at h ⊢
    omega
  · norm_num at h ⊢
    omega

lemma exists_lead_of_width (h : width v ≠ 1) : ∃ l ∈ leads, width v = l.more + 1 := by
  rcases width_cases v with hv | hv | hv | hv
  · exact absurd hv.1 h
  · exact ⟨_, mem_leads.mpr (Or.inl rfl), hv.1⟩
  · exact ⟨_, mem_leads.mpr (Or.inr (Or.inl rfl)), hv.1⟩
  · exact ⟨_, mem_leads.mpr (Or.inr (Or.inr rfl)), hv.1⟩

/-- What `next` does behind a first octet. -/
lemma next_cons (hl : l ∈ leads) (h : trailLength c = some l.more) (p : Bytes) :
    next false (c :: p) = (readTrail l.more (l.bits c.toNat) p).bind fun q =>
      if Utf.valid q.1 = true ∧ width q.1 = l.more + 1 then some q else none := by
  rcases Nat.exists_eq_succ_of_ne_zero (more_pos l hl).ne' with ⟨n, hn⟩
  rw [next, h, hn]
  simp only [Lead.bits, hn]
  cases readTrail (n + 1) (c.toNat &&& ((1 <<< (6 - (n + 1))) - 1)) p with
  | none => rfl
  | some q =>
    rcases q with ⟨v, t⟩
    simp only [Option.bind_some, Bool.false_and]
    by_cases hvalid : Utf.valid v = true
    · by_cases hwidth : width v = n + 2
      · simp [hvalid, hwidth]
      · simp [hvalid, hwidth]
    · simp [hvalid]

/-- An encoded scalar value is read back, and nothing behind it is touched. -/
theorem next_encode (hv : IsScalar v) (t : Bytes) : next false (encode v ++ t) = some (v, t) := by
  by_cases hone : width v = 1
  · rcases encode_of_width_one hone with ⟨hle, henc⟩
    have hnat : (UInt8.ofNat v).toNat = v := by
      rw [UInt8.toNat_ofNat']
      exact Nat.mod_eq_of_lt (by omega)
    have hlead : trailLength (.ofNat v) = some 0 := by
      rw [trailLength, if_pos]
      rw [UInt8.lt_iff_toNat_lt, hnat]
      exact Nat.lt_succ_of_le hle
    rw [henc, List.singleton_append, next, hlead]
    simp only [asciiLegal, Bool.not_false, Bool.true_or, if_true, hnat]
  · rcases exists_lead_of_width hone with ⟨l, hl, hwidth⟩
    rcases lead_bounds hl hv hwidth with ⟨hlimit, hleast⟩
    rcases lead_spec l hl _ hlimit hleast with ⟨htrail, hbits⟩
    rw [encode_of_width hl hwidth, List.cons_append, next_cons hl htrail, hbits, readTrail_trails,
      Option.bind_some, if_pos ⟨valid_iff.mpr hv, hwidth⟩]

/-- Whatever `next` reads is an encoded scalar value. -/
theorem eq_encode_of_next (h : next false s = some (v, t)) :
    IsScalar v ∧ s = encode v ++ t := by
  cases s with
  | nil => cases h
  | cons c p =>
    cases hlead : trailLength c with
    | none => rw [next, hlead] at h; cases h
    | some m =>
      cases m with
      | zero =>
        rw [next, hlead] at h
        simp only [asciiLegal, Bool.not_false, Bool.true_or, if_true, Option.some.injEq,
          Prod.mk.injEq] at h
        rcases h with ⟨rfl, rfl⟩
        have hlt : c.toNat < 128 := by
          by_contra hge
          have hnot : ¬ c < 128 := by rw [UInt8.lt_iff_toNat_lt]; exact hge
          unfold trailLength at hlead
          rw [if_neg hnot] at hlead
          split_ifs at hlead <;> cases hlead
        refine ⟨Or.inl (by omega), ?_⟩
        rw [encode, if_pos (by omega), UInt8.ofNat_toNat, List.singleton_append]
      | succ n =>
        rcases exists_lead hlead with ⟨l, hl, hmore, hc⟩
        rw [← hmore] at hlead
        rw [next_cons hl hlead] at h
        rcases Option.bind_eq_some_iff.mp h with ⟨q, hread, hq⟩
        by_cases hcond : Utf.valid q.1 = true ∧ width q.1 = l.more + 1
        · rw [if_pos hcond, Option.some.injEq] at hq
          subst hq
          rcases eq_trails hread with ⟨hp, hdiv⟩
          refine ⟨valid_iff.mp hcond.1, ?_⟩
          rw [encode_of_width hl hcond.2, hdiv, ← hc, List.cons_append, ← hp]
        · rw [if_neg hcond] at hq
          cases hq

/-- `next` reads exactly the encoded scalar values. -/
theorem next_eq_some_iff :
    next false s = some (v, t) ↔ IsScalar v ∧ s = encode v ++ t := by
  constructor
  · exact eq_encode_of_next
  · rintro ⟨hv, rfl⟩
    exact next_encode hv t

lemma encode_ne_nil (v : ℕ) : encode v ≠ [] := by
  unfold encode
  split_ifs <;> exact List.cons_ne_nil _ _

/-! ## Whole texts -/

/-- The loop over a text reads exactly the values whose encodings make it up. -/
theorem consume_eq_some_iff {s : Bytes} {cs : List ℕ} :
    consume (next false) s = some cs ↔ (∀ c ∈ cs, IsScalar c) ∧ s = cs.flatMap encode := by
  constructor
  · intro h
    refine consume_induction (shortens_next false)
      (P := fun s => ∀ cs, consume (next false) s = some cs →
        (∀ c ∈ cs, IsScalar c) ∧ s = cs.flatMap encode)
      ?_ ?_ ?_ s cs h
    · intro cs h
      rw [consume_nil, Option.some.injEq] at h
      subst h
      exact ⟨fun c hc => absurd hc List.not_mem_nil, rfl⟩
    · intro s hs hnone cs h
      rw [consume_of_step_none hs hnone] at h
      cases h
    · intro s v t hs hnext ih cs h
      rw [consume_of_step (shortens_next false) hs hnext] at h
      rcases Option.map_eq_some_iff.mp h with ⟨ds, hds, rfl⟩
      rcases ih ds hds with ⟨hscalar, rfl⟩
      rcases eq_encode_of_next hnext with ⟨hv, rfl⟩
      exact ⟨List.forall_mem_cons.mpr ⟨hv, hscalar⟩, List.flatMap_cons.symm⟩
  · rintro ⟨hscalar, rfl⟩
    induction cs with
    | nil => rfl
    | cons c cs ih =>
      have hne : encode c ++ cs.flatMap encode ≠ [] := fun h =>
        encode_ne_nil c (List.append_eq_nil_iff.mp h).1
      rw [List.flatMap_cons,
        consume_of_step (shortens_next false) hne (next_encode (hscalar c List.mem_cons_self) _),
        ih fun d hd => hscalar d (List.mem_cons_of_mem c hd)]
      rfl

/-- A text is valid if and only if it is made up of encoded scalar values. -/
theorem validate_iff_flatMap {s : Bytes} :
    validate false s = true ↔ ∃ cs : List ℕ, (∀ c ∈ cs, IsScalar c) ∧ s = cs.flatMap encode := by
  rw [validate, Option.isSome_iff_exists]
  exact exists_congr fun _ => consume_eq_some_iff

end Utf8

namespace Utf16

/-- The scalar value that a pair of surrogates denotes. -/
def denoted (w₁ w₂ : ℕ) : ℕ := 0x10000 + (w₁ - 0xD800) * 0x400 + (w₂ - 0xDC00)

variable {w₁ w₂ : ℕ}

lemma combineSurrogate_eq (h₁ : isFirstSurrogate w₁ = true) (h₂ : isSecondSurrogate w₂ = true) :
    combineSurrogate w₁ w₂ = denoted w₁ w₂ := by
  unfold isFirstSurrogate at h₁
  unfold isSecondSurrogate at h₂
  simp only [Bool.decide_and, Bool.and_eq_true, decide_eq_true_eq] at h₁ h₂
  have hmask : ∀ w, w &&& 0x3FF = w % 1024 := fun w => Nat.and_two_pow_sub_one_eq_mod w 10
  have hlow : w₂ % 1024 < 2 ^ 10 := Nat.mod_lt _ (by decide)
  have hor : ((w₁ % 1024) <<< 10) ||| (w₂ % 1024) = w₁ % 1024 * 1024 + w₂ % 1024 := by
    rw [← Nat.shiftLeft_add_eq_or_of_lt hlow, Nat.shiftLeft_eq]
  unfold combineSurrogate denoted
  rw [hmask, hmask, hor]
  clear hmask hor hlow
  omega

lemma isScalar_denoted (h₁ : isFirstSurrogate w₁ = true) (h₂ : isSecondSurrogate w₂ = true) :
    Utf8.IsScalar (denoted w₁ w₂) := by
  unfold isFirstSurrogate at h₁
  unfold isSecondSurrogate at h₂
  simp only [Bool.decide_and, Bool.and_eq_true, decide_eq_true_eq] at h₁ h₂
  unfold Utf8.IsScalar denoted
  omega

end Utf16

namespace Utf8

open Consume

/-- The decoder and the encoder are inverse to each other on the scalar values: the valid texts are
the concatenations of encoded values, they are read as these values octet for octet, and a pair of
surrogates is encoded as the value that it denotes. -/
theorem utf8_codec (s : Bytes) :
    (validate false s = true ↔ ∃ cs : List ℕ, (∀ c ∈ cs, IsScalar c) ∧ s = cs.flatMap encode) ∧
    (∀ cs, consume (next false) s = some cs ↔ (∀ c ∈ cs, IsScalar c) ∧ s = cs.flatMap encode) ∧
    (∀ v t, next false s = some (v, t) ↔ IsScalar v ∧ s = encode v ++ t) ∧
    ∀ w₁ w₂, Utf16.isFirstSurrogate w₁ = true → Utf16.isSecondSurrogate w₂ = true →
      IsScalar (Utf16.denoted w₁ w₂) ∧
        encode (Utf16.combineSurrogate w₁ w₂) = encode (Utf16.denoted w₁ w₂) ∧
        next false (encode (Utf16.combineSurrogate w₁ w₂) ++ s) =
          some (Utf16.denoted w₁ w₂, s) := by
  refine ⟨validate_iff_flatMap, fun _ => consume_eq_some_iff, fun _ _ => next_eq_some_iff, ?_⟩
  intro w₁ w₂ h₁ h₂
  have hscalar := Utf16.isScalar_denoted h₁ h₂
  rw [Utf16.combineSurrogate_eq h₁ h₂]
  exact ⟨hscalar, rfl, next_encode hscalar s⟩

/-- A pair of surrogates in front of a letter. -/
theorem utf8_codec_emoji :
    Utf16.isFirstSurrogate 0xD83D = true ∧ Utf16.isSecondSurrogate 0xDE00 = true ∧
      next false (encode (Utf16.combineSurrogate 0xD83D 0xDE00) ++ [0x41]) =
        some (0x1F600, [0x41]) := by
  have hfirst : Utf16.isFirstSurrogate 0xD83D = true := by decide
  have hsecond : Utf16.isSecondSurrogate 0xDE00 = true := by decide
  have hvalue : Utf16.denoted 0xD83D 0xDE00 = 0x1F600 := by decide
  have hread := ((utf8_codec [0x41]).2.2.2 _ _ hfirst hsecond).2.2
  rw [hvalue] at hread
  exact ⟨hfirst, hsecond, hread⟩

end Utf8

end Cppcms
