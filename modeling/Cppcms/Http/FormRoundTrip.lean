import Cppcms.Encoding.Hex
import Cppcms.Http.Form

/-!
# Forms that are read back

`urldecode` takes back what `urlencode` does, for all octets.  A text made by `urlencode` has
neither `&` nor `=`, so that `parse_form_urlencoded` finds the pairs of a form again.
-/

namespace Cppcms

namespace Http

namespace Form

/-! ## Single texts -/

/-- An octet as `urlencode` writes it. -/
def encodeOctet (c : UInt8) : Bytes := if isUnreserved c then [c] else Ch.percent :: hexOctet c

lemma urlencode_cons (c : UInt8) (s : Bytes) : urlencode (c :: s) = encodeOctet c ++ urlencode s :=
  rfl

/-- The digits of `urlencode` are those that `urldecode` reads. -/
lemma xdigit_hexDigit {v : UInt8} (hv : v.toNat < 16) :
    xdigit (hexDigit v) = true ∧ digitValue (hexDigit v) = v := by
  have hdigits : ∀ n < 16, xdigit ((bytes "0123456789abcdef").getD n 0) = true ∧
      digitValue ((bytes "0123456789abcdef").getD n 0) = UInt8.ofNat n := by
    decide
  have hn := hdigits v.toNat hv
  rw [UInt8.ofNat_toNat] at hn
  exact hn

lemma toNat_low (c : UInt8) : (c &&& 0xF).toNat = c.toNat % 16 := by
  rw [UInt8.toNat_and]
  exact Nat.and_two_pow_sub_one_eq_mod c.toNat 4

lemma toNat_high (c : UInt8) : ((c >>> 4) &&& 0xF).toNat = c.toNat / 16 := by
  have hlt := c.toNat_lt
  rw [toNat_low, UInt8.toNat_shiftRight]
  show c.toNat >>> 4 % 16 = c.toNat / 16
  rw [Nat.shiftRight_eq_div_pow]
  omega

/-- An octet is its two halves. -/
lemma halves (c : UInt8) : ((c >>> 4) &&& 0xF) * 16 + (c &&& 0xF) = c := by
  have hlt := c.toNat_lt
  apply UInt8.toNat_inj.1
  rw [UInt8.toNat_add, UInt8.toNat_mul, toNat_high, toNat_low]
  show (c.toNat / 16 * 16 % 256 + c.toNat % 16) % 256 = c.toNat
  omega

variable {c : UInt8} {s : Bytes}

lemma urldecode_of_isUnreserved (hc : isUnreserved c = true) (s : Bytes) :
    urldecode (c :: s) = c :: urldecode s := by
  have hplus : c ≠ Ch.plus := by
    rintro rfl
    revert hc
    decide
  have hpercent : c ≠ Ch.percent := by
    rintro rfl
    revert hc
    decide
  rcases s with _ | ⟨a, _ | ⟨b, s⟩⟩
  · exact (if_neg hplus).trans (if_neg hpercent)
  · exact (if_neg hplus).trans (if_neg hpercent)
  · exact (if_neg hplus).trans (if_neg hpercent)

lemma urldecode_encodeOctet (c : UInt8) (s : Bytes) :
    urldecode (encodeOctet c ++ s) = c :: urldecode s := by
  unfold encodeOctet
  split_ifs with hc
  · exact urldecode_of_isUnreserved hc s
  · have hlt := c.toNat_lt
    have hhigh := xdigit_hexDigit (v := (c >>> 4) &&& 0xF) (by rw [toNat_high]; omega)
    have hlow := xdigit_hexDigit (v := c &&& 0xF) (by rw [toNat_low]; omega)
    show urldecode (Ch.percent :: hexDigit ((c >>> 4) &&& 0xF) :: hexDigit (c &&& 0xF) :: s) = _
    rw [urldecode, if_neg (by decide), if_pos rfl, if_pos ⟨hhigh.1, hlow.1⟩,
      hhigh.2, hlow.2, halves]

theorem urldecode_urlencode (s : Bytes) : urldecode (urlencode s) = s := by
  induction s with
  | nil => rfl
  | cons c s ih => rw [urlencode_cons, urldecode_encodeOctet, ih]

/-! ## Delimiters -/

/-- The characters that `urlencode` writes. -/
lemma mem_urlencode (hc : c ∈ urlencode s) : isUnreserved c = true ∨ c = Ch.percent := by
  unfold urlencode at hc
  obtain ⟨d, -, hd⟩ := List.mem_flatMap.1 hc
  split_ifs at hd with hplain
  · rw [List.mem_singleton.1 hd]
    exact .inl hplain
  · rcases List.mem_cons.1 hd with rfl | hd
    · exact .inr rfl
    · exact .inl (isUnreserved_of_isLowHexDigit (isLowHexDigit_of_mem_hexOctet d c hd))

lemma eq_notMem_urlencode (s : Bytes) : Ch.eq ∉ urlencode s := by
  intro hmem
  rcases mem_urlencode hmem with h | h
  · revert h
    decide
  · cases h

lemma amp_notMem_urlencode (s : Bytes) : Ch.amp ∉ urlencode s := by
  intro hmem
  rcases mem_urlencode hmem with h | h
  · revert h
    decide
  · cases h

lemma urlencode_ne_nil (hs : s ≠ []) : urlencode s ≠ [] := by
  obtain ⟨c, s, rfl⟩ := List.exists_cons_of_ne_nil hs
  rw [urlencode_cons]
  unfold encodeOctet
  split_ifs
  · exact List.cons_ne_nil _ _
  · exact List.cons_ne_nil _ _

/-! ## Forms -/

/-- A pair as it is written. -/
def encodePair (x : Bytes × Bytes) : Bytes := urlencode x.1 ++ Ch.eq :: urlencode x.2

/-- The pairs, with `&` between them. -/
def encodeForm : List (Bytes × Bytes) → Bytes
  | [] => []
  | [x] => encodePair x
  | x :: l => encodePair x ++ Ch.amp :: encodeForm l

lemma amp_notMem_encodePair (x : Bytes × Bytes) : Ch.amp ∉ encodePair x := by
  intro hmem
  rcases List.mem_append.1 hmem with h | h
  · exact amp_notMem_urlencode x.1 h
  · rcases List.mem_cons.1 h with h | h
    · cases h
    · exact amp_notMem_urlencode x.2 h

/-- One round reads one pair. -/
lemma parseRounds_encodePair {x : Bytes × Bytes} (hx : x.1 ≠ []) (fuel : ℕ) {rest : Bytes}
    (hrest : rest = [] ∨ ∃ s, rest = Ch.amp :: s) (out : Form) :
    parseRounds (fuel + 1) (encodePair x ++ rest) out = parseRounds fuel rest.tail
      (out.insert x.1 x.2) := by
  have hpair : (encodePair x ++ rest).takeWhile (· ≠ Ch.amp) = encodePair x := by
    have hall : ∀ c ∈ encodePair x, decide (c ≠ Ch.amp) = true := by
      intro c hc
      exact decide_eq_true fun h => amp_notMem_encodePair x (h ▸ hc)
    rw [List.takeWhile_append_of_pos hall]
    rcases hrest with rfl | ⟨s, rfl⟩
    · rw [List.takeWhile_nil, List.append_nil]
    · rw [List.takeWhile_cons_of_neg (by decide), List.append_nil]
  have hname : (encodePair x).takeWhile (· ≠ Ch.eq) = urlencode x.1 := by
    have hall : ∀ c ∈ urlencode x.1, decide (c ≠ Ch.eq) = true := by
      intro c hc
      exact decide_eq_true fun h => eq_notMem_urlencode x.1 (h ▸ hc)
    unfold encodePair
    rw [List.takeWhile_append_of_pos hall, List.takeWhile_cons_of_neg (by decide), List.append_nil]
  have hvalue : (encodePair x).drop ((urlencode x.1).length + 1) = urlencode x.2 := by
    unfold encodePair
    rw [← List.drop_drop, List.drop_left]
    rfl
  have htail : (encodePair x ++ rest).drop ((encodePair x).length + 1) = rest.tail := by
    rw [← List.drop_drop, List.drop_left, List.drop_one]
  have hne : encodePair x ++ rest ≠ [] := by
    intro hnil
    exact urlencode_ne_nil hx (List.append_eq_nil_iff.1 (List.append_eq_nil_iff.1 hnil).1).1
  have hwhole : ¬ (urlencode x.1 = encodePair x ∨ urlencode x.1 = []) := by
    rintro (h | h)
    · have hlen := congrArg List.length h
      unfold encodePair at hlen
      rw [List.length_append, List.length_cons] at hlen
      omega
    · exact urlencode_ne_nil hx h
  rw [parseRounds, if_neg hne]
  dsimp only
  rw [hpair, hname, if_neg hwhole, htail, hvalue, urldecode_urlencode, urldecode_urlencode]

/-- The loop reads all pairs. -/
lemma parseRounds_encodeForm {l : List (Bytes × Bytes)} (hl : ∀ x ∈ l, x.1 ≠ []) {fuel : ℕ}
    (hfuel : l.length ≤ fuel) (out : Form) :
    parseRounds fuel (encodeForm l) out = (true, l.foldl (fun m x => m.insert x.1 x.2) out) := by
  induction l generalizing fuel out with
  | nil =>
    rcases fuel with _ | fuel
    · rfl
    · exact if_pos rfl
  | cons x l ih =>
    obtain ⟨fuel, rfl⟩ : ∃ k, fuel = k + 1 := ⟨fuel - 1, by rw [List.length_cons] at hfuel; omega⟩
    have hx := hl x List.mem_cons_self
    have hrest := ih (fun y hy => hl y (List.mem_cons_of_mem x hy)) (Nat.le_of_succ_le_succ hfuel)
      (out.insert x.1 x.2)
    rcases l with _ | ⟨y, l⟩
    · have hround := parseRounds_encodePair hx fuel (.inl rfl) out
      rw [List.append_nil] at hround
      exact hround.trans hrest
    · exact (parseRounds_encodePair hx fuel (.inr ⟨_, rfl⟩) out).trans hrest

/-- Every pair has a character at least. -/
lemma length_le_encodeForm (l : List (Bytes × Bytes)) : l.length ≤ (encodeForm l).length := by
  induction l with
  | nil => exact le_refl 0
  | cons x l ih =>
    have hpair : 1 ≤ (encodePair x).length := by
      unfold encodePair
      rw [List.length_append, List.length_cons]
      omega
    rcases l with _ | ⟨y, l⟩
    · exact hpair
    · show (y :: l).length + 1 ≤ (encodePair x ++ Ch.amp :: encodeForm (y :: l)).length
      simp only [List.length_append, List.length_cons] at ih ⊢
      omega

/-- The pairs of a form are read back, with the values of each name in their order; and so is each
text. -/
theorem parseFormUrlencoded_encodeForm (l : List (Bytes × Bytes)) (hl : ∀ x ∈ l, x.1 ≠ []) :
    (∃ out, parseFormUrlencoded (encodeForm l) ∅ = (true, out) ∧ out.toList.Perm l ∧
      ∀ name, out.values name = (l.filter fun x => x.1 = name).map Prod.snd) ∧
    ∀ s, urldecode (urlencode s) = s := by
  refine ⟨⟨_, parseRounds_encodeForm hl (length_le_encodeForm l) ∅, ?_, ?_⟩, urldecode_urlencode⟩
  · exact Multimap.toList_foldl_insert_perm l ∅
  · intro name
    rw [Multimap.values_foldl_insert, Multimap.values_empty, List.nil_append]
    refine congrArg (List.map Prod.snd) (List.filter_congr fun x _ => ?_)
    exact decide_eq_decide.2 Iff.rfl

/-- Two values of one name, one of them with the delimiters. -/
theorem parseFormUrlencoded_encodeForm_delimiters :
    (∃ out, parseFormUrlencoded (bytes "n=%26%3d&n=") ∅ = (true, out) ∧
      out.toList.Perm [(bytes "n", bytes "&="), (bytes "n", [])] ∧
      ∀ name, out.values name =
        ([(bytes "n", bytes "&="), (bytes "n", [])].filter fun x => x.1 = name).map Prod.snd) ∧
    ∀ s, urldecode (urlencode s) = s := by
  have htext : encodeForm [(bytes "n", bytes "&="), (bytes "n", [])] = bytes "n=%26%3d&n=" := by
    decide
  have h := parseFormUrlencoded_encodeForm [(bytes "n", bytes "&="), (bytes "n", [])] (by decide)
  rwa [htext] at h

end Form

end Http

end Cppcms
