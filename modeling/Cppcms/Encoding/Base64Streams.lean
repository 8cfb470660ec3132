import Cppcms.Encoding.Base64

/-!
# The encoders of Base64 compared

`base64.cpp` has three encoders, from one range to another, to a stream and from a string to a
string, and they write the same text.  The decoder of strings finds the string again, with one
exception: of an empty text it returns before it touches its output, which keeps what it had.
-/

namespace Cppcms

namespace B64url

/-- What is in a buffer after its beginning was overwritten. -/
def overwrite (target group : Bytes) : Bytes := group ++ target.drop group.length

/-- The writes of `encode` to a stream, which puts every group into the same buffer of four octets
first. -/
def streamWrites : Bytes → Bytes → List Bytes
  | target, a :: b :: c :: rest =>
    (overwrite target (bencode [a, b, c])).take 4 ::
      streamWrites (overwrite target (bencode [a, b, c])) rest
  | _, [] => []
  | target, rest => [(overwrite target (bencode rest)).take (bencode rest).length]

/-- `encode` to a stream: the text that the stream gets, for what was in the buffer. -/
def encodeStream (target x : Bytes) : Bytes := (streamWrites target x).flatten

lemma take_overwrite (target group : Bytes) : (overwrite target group).take group.length = group :=
  List.take_left

/-- Nothing is left of the groups before. -/
lemma encodeStream_eq (target x : Bytes) : encodeStream target x = encodeRange x := by
  unfold encodeStream
  induction x using encodeRange.induct generalizing target with
  | case1 a b c rest ih =>
    have hgroup : (overwrite target (bencode [a, b, c])).take 4 = bencode [a, b, c] :=
      take_overwrite target (bencode [a, b, c])
    rw [streamWrites, List.flatten_cons, hgroup, ih, encodeRange]
  | case2 rest hrest =>
    rcases rest with _ | ⟨a, _ | ⟨b, _ | ⟨c, rest⟩⟩⟩
    · rfl
    · exact List.append_nil _
    · exact List.append_nil _
    · exact absurd rfl (hrest a b c rest)

lemma encodedLength_lt {n : ℕ} (hn : n < 2 ^ 30) : encodedLength n < 2 ^ 31 := by
  unfold encodedLength
  split_ifs <;> omega

/-- The decoder of strings and any output: an empty text leaves it as it is. -/
lemma decode_encodeRange_output {x : Bytes} (hx : encodedLength x.length < 2 ^ 31)
    (output : Bytes) :
    decode (encodeRange x) output = .returns (true, if x = [] then output else x) := by
  have hlt : x.length < 2 ^ 31 := (le_encodedLength _).trans_lt hx
  have hsize : decodedSize (encodeRange x).length = x.length := by
    rw [length_encodeRange, decodedSize_encodedLength, int_of_lt hlt]
  unfold decode
  dsimp only
  rw [hsize, decodeRange_encodeRange, if_neg (by omega), fill_length]
  by_cases hnil : x = []
  · rw [if_pos hnil, hnil]
    rfl
  · have hpos := List.length_pos_iff.2 hnil
    rw [if_neg hnil, if_neg (by omega)]

lemma decode_of_mod_four {input : Bytes} (h : input.length % 4 = 1) (output : Bytes) :
    decode input output = .returns (false, output) := by
  have hsize : decodedSize input.length = -1 := by
    unfold decodedSize
    rw [if_pos h]
  unfold decode
  rw [hsize]
  rfl

/-- What is asked of the codec for a string `x`, an output string that is used again and a buffer of
the stream. -/
structure IsCodec (x output target : Bytes) : Prop where
  /-- The string is found again. -/
  decode : ∃ text, encode x = .returns text ∧ decode text output = .returns (true, x)
  /-- The sizes are those that the functions tell. -/
  sizes : ∃ text, encode x = .returns text ∧ encodedSize x.length = text.length ∧
    decodedSize text.length = x.length
  /-- The encoders agree. -/
  encoders : encode x = .returns (encodeRange x) ∧ encodeStream target x = encodeRange x
  /-- A text with a single character at the end is rejected. -/
  rejects : ∀ input : Bytes, input.length % 4 = 1 →
    B64url.decode input output = .returns (false, output)

/-- The codec does what is asked of it exactly if the string is not empty or the output was. -/
theorem isCodec_iff (x output target : Bytes) (hx : x.length < 2 ^ 30) :
    IsCodec x output target ↔ x ≠ [] ∨ output = [] := by
  have hlt := encodedLength_lt hx
  have hencode := encode_of_lt hlt
  have hdecode := decode_encodeRange_output hlt output
  constructor
  · intro h
    by_contra hnot
    rw [not_or, not_not] at hnot
    rcases h.decode with ⟨text, htext, hfound⟩
    rw [hencode] at htext
    cases htext
    rw [hdecode, if_pos hnot.1] at hfound
    -- the output keeps what it had
    have hkept : output = x := by
      cases hfound
      rfl
    exact hnot.2 (hkept.trans hnot.1)
  · intro h
    have hfound : decode (encodeRange x) output = .returns (true, x) := by
      rw [hdecode]
      by_cases hnil : x = []
      · rw [if_pos hnil, hnil, h.resolve_left (not_not.2 hnil)]
      · rw [if_neg hnil]
    refine ⟨⟨_, hencode, hfound⟩, ⟨_, hencode, ?_, ?_⟩, ⟨hencode, encodeStream_eq target x⟩, ?_⟩
    · rw [length_encodeRange]
      exact int_of_lt hlt
    · rw [length_encodeRange, decodedSize_encodedLength]
      exact int_of_lt (by omega)
    · exact fun input hinput => decode_of_mod_four hinput output

theorem isCodec_word :
    (bytes "ab").length < 2 ^ 30 ∧ (IsCodec (bytes "ab") (bytes "old") [0, 0, 0, 0] ↔
    bytes "ab" ≠ [] ∨ bytes "old" = []) :=
  ⟨by decide, isCodec_iff _ _ _ (by decide)⟩

/-- The empty string is not found again in an output that had something. -/
theorem not_isCodec_empty : ([] : Bytes).length < 2 ^ 30 ∧ encode [] = .returns [] ∧
    decode [] (bytes "old") = .returns (true, bytes "old") ∧
    ¬ IsCodec [] (bytes "old") [0, 0, 0, 0] := by
  refine ⟨by decide, by decide, by decide, fun h => ?_⟩
  rcases h.decode with ⟨text, htext, hfound⟩
  rw [show encode [] = .returns [] by decide] at htext
  cases htext
  revert hfound
  decide

end B64url

end Cppcms
