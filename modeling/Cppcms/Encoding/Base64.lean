import Cppcms.Base.Outcome
import Cppcms.Encoding.Hex

/-!
# Base64 for URLs

The functions of `base64.cpp`.  Three octets are written as four characters that stand for six bits
each; at the end one octet takes two characters and two octets take three.  The sizes of the buffers
are numbers of type `int`.
-/

namespace Cppcms

namespace B64url

/-- `encode_6_to_8`. -/
def alphabet : Bytes := bytes "ABCDEFGHIJKLMNOPQRSTUVWXYZabcdefghijklmnopqrstuvwxyz0123456789-_"

/-- The character for six bits. -/
def encode6to8 (i : UInt8) : UInt8 := alphabet.getD i.toNat 0

/-- `encode_8_to_6`. -/
def encode8to6 (c : UInt8) : UInt8 :=
  if 0x41 ≤ c ∧ c ≤ 0x5A then c - 0x41
  else if 0x61 ≤ c ∧ c ≤ 0x7A then 26 + c - 0x61
  else if 0x30 ≤ c ∧ c ≤ 0x39 then 2 * 26 + c - 0x30
  else if c = Ch.minus then 62
  else if c = Ch.underscore then 63
  else 0

/-- `bencode`: the characters for a group of up to three octets. -/
def bencode : Bytes → Bytes
  | [] => []
  | [a] => [encode6to8 (a >>> 2), encode6to8 ((a &&& 0x03) <<< 4)]
  | [a, b] => [encode6to8 (a >>> 2), encode6to8 (((a &&& 0x03) <<< 4) ||| ((b &&& 0xf0) >>> 4)),
      encode6to8 ((b &&& 0x0f) <<< 2)]
  | a :: b :: c :: _ =>
      [encode6to8 (a >>> 2), encode6to8 (((a &&& 0x03) <<< 4) ||| ((b &&& 0xf0) >>> 4)),
        encode6to8 (((b &&& 0x0f) <<< 2) ||| ((c &&& 0xc0) >>> 6)), encode6to8 (c &&& 0x3f)]

/-- `bdecode`: the octets of a group of up to four characters. -/
def bdecode (chars : Bytes) : Bytes :=
  let six := chars.map encode8to6
  let out0 := (six.getD 0 0 <<< 2) ||| (six.getD 1 0 >>> 4)
  if chars.length = 2 then [out0]
  else
    let out1 := (six.getD 1 0 <<< 4) ||| (six.getD 2 0 >>> 2)
    if chars.length = 3 then [out0, out1]
    else [out0, out1, ((six.getD 2 0 <<< 6) &&& 0xc0) ||| six.getD 3 0]

/-- `encode` from one range to another. -/
def encodeRange : Bytes → Bytes
  | a :: b :: c :: rest => bencode [a, b, c] ++ encodeRange rest
  | rest => bencode rest

/-- `decode` from one range to another. -/
def decodeRange : Bytes → Bytes
  | a :: b :: c :: d :: rest => bdecode [a, b, c, d] ++ decodeRange rest
  | [] => []
  | rest => bdecode rest

/-- A value of type `int`. -/
def int (n : ℤ) : ℤ := n.bmod (2 ^ 32)

/-- The number of characters for a number of octets. -/
def encodedLength (s : ℕ) : ℕ :=
  if s % 3 = 1 then s / 3 * 4 + 2
  else if s % 3 = 2 then s / 3 * 4 + 3
  else s / 3 * 4

/-- `encoded_size`. -/
def encodedSize (s : ℕ) : ℤ := int (encodedLength s)

/-- `decoded_size`. -/
def decodedSize (s : ℕ) : ℤ :=
  if s % 4 = 1 then -1
  else if s % 4 = 2 then int (s / 4 * 3 + 1 : ℕ)
  else if s % 4 = 3 then int (s / 4 * 3 + 2 : ℕ)
  else int (s / 4 * 3 : ℕ)

/-- What a vector of the given size holds after the octets were written to it. -/
def fill (size : ℤ) (content : Bytes) : Outcome Bytes :=
  if size < 0 then .throws "cannot create std::vector larger than max_size()"
  else if content.length ≤ size.toNat then .returns
    (content ++ List.replicate (size.toNat - content.length) 0)
  else .undefined

/-- `encode` of a string. -/
def encode (input : Bytes) : Outcome Bytes :=
  if encodedSize input.length = 0 then .returns []
  else fill (encodedSize input.length) (encodeRange input)

/-- `decode` of a string: the result and the new contents of the output string. -/
def decode (input output : Bytes) : Outcome (Bool × Bytes) :=
  let ds := decodedSize input.length
  if ds < 0 then .returns (false, output)
  else if ds = 0 then .returns (true, output)
  else
    match fill ds (decodeRange input) with
    | .returns output => .returns (true, output)
    | .throws what => .throws what
    | .undefined => .undefined

/-! ## One group

The bits of the octets and of the numbers with six bits, on bit vectors.
-/

section Bits

variable (a b c : UInt8)

lemma first_or (a b : BitVec 8) :
    ((a >>> 2) <<< 2) ||| ((((a &&& 0x03) <<< 4) ||| ((b &&& 0xf0) >>> 4)) >>> 4) = a := by
  ext i hi
  simp only [BitVec.getElem_or, BitVec.getElem_shiftLeft, BitVec.getElem_ushiftRight]
  interval_cases i <;> simp

lemma second_or (a b c : BitVec 8) :
    ((((a &&& 0x03) <<< 4) ||| ((b &&& 0xf0) >>> 4)) <<< 4) |||
      ((((b &&& 0x0f) <<< 2) ||| ((c &&& 0xc0) >>> 6)) >>> 2) = b := by
  ext i hi
  simp only [BitVec.getElem_or, BitVec.getElem_shiftLeft, BitVec.getElem_ushiftRight]
  interval_cases i <;> simp

lemma third_or (b c : BitVec 8) :
    (((((b &&& 0x0f) <<< 2) ||| ((c &&& 0xc0) >>> 6)) <<< 6) &&& 0xc0) ||| (c &&& 0x3f) = c := by
  ext i hi
  simp only [BitVec.getElem_or, BitVec.getElem_and, BitVec.getElem_shiftLeft,
    BitVec.getElem_ushiftRight]
  interval_cases i <;> simp

lemma lt_of_shiftRight {x : BitVec 8} (hx : x >>> 6 = 0) : x < 64 := by
  bv_omega

lemma first_lt : a >>> 2 < 64 := by
  apply lt_of_shiftRight
  ext i hi
  simp only [UInt8.toBitVec_shiftRight, BitVec.ushiftRight_eq', BitVec.getElem_ushiftRight]
  interval_cases i <;> simp

lemma second_lt : ((a &&& 0x03) <<< 4) ||| ((b &&& 0xf0) >>> 4) < 64 := by
  apply lt_of_shiftRight
  ext i hi
  simp [BitVec.getElem_ushiftRight]
  interval_cases i <;> simp

lemma third_lt : ((b &&& 0x0f) <<< 2) ||| ((c &&& 0xc0) >>> 6) < 64 := by
  apply lt_of_shiftRight
  ext i hi
  simp [BitVec.getElem_ushiftRight]
  interval_cases i <;> simp

lemma fourth_lt : c &&& 0x3f < 64 := by
  apply lt_of_shiftRight
  ext i hi
  simp [BitVec.getElem_ushiftRight]
  interval_cases i <;> simp

end Bits

/-- Every digit is decoded as the number that it was made from. -/
lemma encode8to6_encode6to8 {i : UInt8} (hi : i < 64) : encode8to6 (encode6to8 i) = i := by
  have htable : ∀ n < 64, encode8to6 (encode6to8 (UInt8.ofNat n)) = UInt8.ofNat n := by
    decide +kernel
  have hlt : i.toNat < 64 := UInt8.lt_iff_toNat_lt.1 hi
  have heq := htable i.toNat hlt
  rwa [UInt8.ofNat_toNat] at heq

lemma bdecode_bencode_three (a b c : UInt8) : bdecode (bencode [a, b, c]) = [a, b, c] := by
  unfold bencode bdecode
  simp only [List.map_cons, List.map_nil, List.length_cons, List.length_nil, List.getD_cons_zero,
    List.getD_cons_succ, encode8to6_encode6to8 (first_lt a), encode8to6_encode6to8 (second_lt a b),
    encode8to6_encode6to8 (third_lt b c), encode8to6_encode6to8 (fourth_lt c)]
  have hfirst := congrArg UInt8.ofBitVec (first_or a.toBitVec b.toBitVec)
  have hsecond := congrArg UInt8.ofBitVec (second_or a.toBitVec b.toBitVec c.toBitVec)
  have hthird := congrArg UInt8.ofBitVec (third_or b.toBitVec c.toBitVec)
  exact congrArg₂ List.cons hfirst (congrArg₂ List.cons hsecond (congrArg₂ List.cons hthird rfl))

/-- A shorter group is the beginning of a group with zeros at its end. -/
lemma bencode_two (a b : UInt8) : bencode [a, b] = (bencode [a, b, 0]).take 3 := by
  unfold bencode
  simp

/-- One octet is encoded like three and cut. -/
lemma bencode_one (a : UInt8) : bencode [a] = (bencode [a, 0, 0]).take 2 := by
  unfold bencode
  simp

lemma bdecode_bencode_two (a b : UInt8) : bdecode (bencode [a, b]) = [a, b] := by
  rw [bencode_two]
  exact congrArg (List.take 2) (bdecode_bencode_three a b 0)

lemma bdecode_bencode_one (a : UInt8) : bdecode (bencode [a]) = [a] := by
  rw [bencode_one]
  exact congrArg (List.take 1) (bdecode_bencode_three a 0 0)

/-! ## Strings -/

/-- Every text is decoded as itself. -/
lemma decodeRange_encodeRange (x : Bytes) : decodeRange (encodeRange x) = x := by
  induction x using encodeRange.induct with
  | case1 a b c rest ih =>
    have hgroup := bdecode_bencode_three a b c
    rw [encodeRange]
    unfold bencode at hgroup ⊢
    rw [List.cons_append, List.cons_append, List.cons_append, List.cons_append,
      List.nil_append, decodeRange, hgroup, ih]
    rfl
  | case2 rest hrest =>
    match rest with
    | [] => rfl
    | [a] => exact bdecode_bencode_one a
    | [a, b] => exact bdecode_bencode_two a b
    | a :: b :: c :: rest => exact absurd rfl (hrest a b c rest)

lemma length_encodeRange (x : Bytes) : (encodeRange x).length = encodedLength x.length := by
  induction x using encodeRange.induct with
  | case1 a b c rest ih =>
    have hmod : (rest.length + 3) % 3 = rest.length % 3 := Nat.add_mod_right _ _
    have hdiv : (rest.length + 3) / 3 = rest.length / 3 + 1 := Nat.add_div_right _ (by decide)
    have hadd : encodedLength (rest.length + 3) = encodedLength rest.length + 4 := by
      unfold encodedLength
      rw [hmod, hdiv]
      split_ifs <;> omega
    rw [encodeRange, List.length_append, ih]
    simp only [List.length_cons, hadd, bencode, List.length_nil]
    omega
  | case2 rest hrest =>
    match rest with
    | [] => rfl
    | [a] => simp [encodeRange, bencode, encodedLength]
    | [a, b] => simp [encodeRange, bencode, encodedLength]
    | a :: b :: c :: rest => exact absurd rfl (hrest a b c rest)

/-- The size of the decoded text is that of the text, as an `int`. -/
lemma decodedSize_encodedLength (n : ℕ) : decodedSize (encodedLength n) = int n := by
  unfold encodedLength
  split_ifs with h1 h2 <;> unfold decodedSize
  · have hn : (n / 3 * 4 + 2) / 4 * 3 + 1 = n := by omega
    rw [if_neg (by omega), if_pos (by omega), hn]
  · have hn : (n / 3 * 4 + 3) / 4 * 3 + 2 = n := by omega
    rw [if_neg (by omega), if_neg (by omega), if_pos (by omega), hn]
  · have hn : n / 3 * 4 / 4 * 3 = n := by omega
    rw [if_neg (by omega), if_neg (by omega), if_neg (by omega), hn]

lemma le_encodedLength (n : ℕ) : n ≤ encodedLength n := by
  unfold encodedLength
  split_ifs <;> omega

variable {n : ℕ} {x : Bytes} {c : UInt8}

lemma int_of_lt (hn : n < 2 ^ 31) : int n = n := by
  unfold int
  rw [Int.bmod_eq_of_le] <;> omega

/-- The contents of a vector of their size. -/
lemma fill_length {content : Bytes} : fill content.length content = .returns content := by
  unfold fill
  rw [if_neg (by omega), Int.toNat_natCast, if_pos le_rfl, Nat.sub_self, List.replicate_zero,
    List.append_nil]

/-- Without an overflow the text is encoded. -/
lemma encode_of_lt (hx : encodedLength x.length < 2 ^ 31) :
    encode x = .returns (encodeRange x) := by
  unfold encode encodedSize
  rw [int_of_lt hx, ← length_encodeRange]
  split_ifs with hzero
  · rw [List.length_eq_zero_iff.1 (Int.natCast_eq_zero.1 hzero)]
  · exact fill_length

/-- A string that has been encoded is found again. -/
lemma decode_encodeRange (hx : encodedLength x.length < 2 ^ 31) :
    decode (encodeRange x) [] = .returns (true, x) := by
  have hlt : x.length < 2 ^ 31 := (le_encodedLength _).trans_lt hx
  unfold decode
  rw [length_encodeRange, decodedSize_encodedLength, int_of_lt hlt, decodeRange_encodeRange]
  dsimp only
  rw [if_neg (by omega), fill_length]
  split_ifs with hzero
  · rw [List.length_eq_zero_iff.1 (Int.natCast_eq_zero.1 hzero)]
  · rfl

lemma isUnreserved_of_mem_bencode (hc : c ∈ bencode x) : isUnreserved c := by
  have htable : ∀ n < 64, isUnreserved (encode6to8 (UInt8.ofNat n)) := by decide +kernel
  have hsix : ∀ i : UInt8, i < 64 → isUnreserved (encode6to8 i) := by
    intro i hi
    have hn := htable i.toNat (UInt8.lt_iff_toNat_lt.1 hi)
    rwa [UInt8.ofNat_toNat] at hn
  -- the missing octets of a short group are zeros
  have hthree : ∀ a b d : UInt8, ∀ c ∈ bencode [a, b, d], isUnreserved c := by
    intro a b d c hc
    unfold bencode at hc
    simp only [List.mem_cons, List.not_mem_nil, or_false] at hc
    obtain rfl | rfl | rfl | rfl := hc
    · exact hsix _ (first_lt a)
    · exact hsix _ (second_lt a b)
    · exact hsix _ (third_lt b d)
    · exact hsix _ (fourth_lt d)
  match x with
  | [] => cases hc
  | [a] =>
    rw [bencode_one] at hc
    exact hthree a 0 0 c (List.mem_of_mem_take hc)
  | [a, b] =>
    rw [bencode_two] at hc
    exact hthree a b 0 c (List.mem_of_mem_take hc)
  | a :: b :: d :: _ => exact hthree a b d c hc

lemma isUnreserved_of_mem_encodeRange (hc : c ∈ encodeRange x) : isUnreserved c := by
  induction x using encodeRange.induct with
  | case1 a b d rest ih =>
    rw [encodeRange] at hc
    obtain hc | hc := List.mem_append.1 hc
    · exact isUnreserved_of_mem_bencode hc
    · exact ih hc
  | case2 rest hrest =>
    rw [encodeRange] at hc
    · exact isUnreserved_of_mem_bencode hc
    · exact hrest

/-- The size of the text is no `int`, and what is left of it is not negative. -/
def Wraps (n : ℕ) : Prop := 2 ^ 31 ≤ encodedLength n ∧ encodedLength n % 2 ^ 32 < 2 ^ 31

instance (n : ℕ) : Decidable (Wraps n) := inferInstanceAs (Decidable (_ ∧ _))

/-- An overflow leaves the size modulo 2^32. -/
lemma encodedSize_of_wraps (hn : Wraps n) : encodedSize n = (encodedLength n % 2 ^ 32 : ℕ) := by
  obtain ⟨-, hmod⟩ := hn
  unfold encodedSize int
  have hemod : ((encodedLength n : ℤ)).bmod (2 ^ 32) =
      ((encodedLength n % 2 ^ 32 : ℕ) : ℤ).bmod (2 ^ 32) := by
    rw [Int.natCast_mod, Int.natCast_pow]
    exact (Int.emod_bmod _ _).symm
  rw [hemod, Int.bmod_eq_of_le] <;> omega

/-- Nothing is encoded if nothing is left of the size. -/
lemma encode_of_wraps_zero (hx : Wraps x.length) (hzero : encodedLength x.length % 2 ^ 32 = 0) :
    encode x = .returns [] := by
  unfold encode
  rw [encodedSize_of_wraps hx, hzero]
  rfl

/-- Otherwise the buffer is too small. -/
lemma encode_of_wraps (hx : Wraps x.length) (hzero : encodedLength x.length % 2 ^ 32 ≠ 0) :
    encode x = .undefined := by
  have hlt : encodedLength x.length % 2 ^ 32 < encodedLength x.length := by
    have hle := hx.1
    have hmod := hx.2
    omega
  unfold encode fill
  rw [encodedSize_of_wraps hx, if_neg (by omega), if_neg (by omega), if_neg]
  rw [length_encodeRange, Int.toNat_natCast]
  omega

/-- No memory is found for a text of a negative size. -/
lemma encode_throws (hle : 2 ^ 31 ≤ encodedLength x.length) (hx : ¬Wraps x.length) :
    ∃ what, encode x = .throws what := by
  have hneg : encodedSize x.length < 0 := by
    unfold encodedSize int
    unfold Wraps at hx
    rw [Int.bmod_def]
    omega
  unfold encode fill
  rw [if_neg hneg.ne, if_pos hneg]
  exact ⟨_, rfl⟩

end B64url

end Cppcms
