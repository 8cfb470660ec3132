import Cppcms.Base.Bytes
import Cppcms.Library.Chaining
import Cppcms.Library.LittleEndian
import Cppcms.Library.Slice

/-!
# Signed and encrypted session data

`hmac_cipher` of `hmac_encryptor.cpp` and `aes_cipher` of `aes_encryptor.cpp`.  The keys are those
of the cipher object, so that the signature is a function of the message alone.  A decryption that
returns `false` has the result `some none`; there is no result (`none`) if it reads outside of a
buffer.
-/

namespace Cppcms

namespace Session

/-- `crypto::hmac` with a key. -/
structure Mac where
  digestSize : ℕ
  mac : Bytes → Bytes
  length_mac : ∀ m, (mac m).length = digestSize

/-- `crypto::cbc` with a key: every block but the first is recovered, whatever the initial vectors
are. -/
structure Cbc where
  blockSize : ℕ
  four_le_blockSize : 4 ≤ blockSize
  encrypt : Bytes → Bytes → Bytes
  decrypt : Bytes → Bytes → Bytes
  length_encrypt : ∀ iv x, blockSize ∣ x.length → (encrypt iv x).length = x.length
  length_decrypt : ∀ iv x, blockSize ∣ x.length → (decrypt iv x).length = x.length
  drop_decrypt_encrypt : ∀ iv iv' x, blockSize ∣ x.length →
    (decrypt iv' (encrypt iv x)).drop blockSize = x.drop blockSize

/-- The chaining of a block cipher. -/
def Cbc.chain (cipher : BlockCipher) (size : ℕ) (hsize : 4 ≤ size) : Cbc where
  blockSize := size
  four_le_blockSize := hsize
  encrypt iv x := cipher.encryptChain size (x.length / size) iv x
  decrypt iv x := cipher.decryptChain size (x.length / size) iv x
  length_encrypt iv x hx := by
    rw [cipher.length_encryptChain iv (Nat.div_mul_cancel hx).symm, Nat.div_mul_cancel hx]
  length_decrypt iv x hx := by
    rw [cipher.length_decryptChain iv (Nat.div_mul_cancel hx).symm, Nat.div_mul_cancel hx]
  drop_decrypt_encrypt iv iv' x hx := by
    have hdiv := (Nat.div_mul_cancel hx).symm
    have hlen : (cipher.encryptChain size (x.length / size) iv x).length = x.length := by
      rw [cipher.length_encryptChain iv hdiv, ← hdiv]
    rw [hlen]
    exact cipher.drop_decryptChain_encryptChain iv iv' hdiv

/-! ## The ciphers -/

/-- `hmac_cipher::equal`: the number of places with different octets is zero. -/
def equal (left right : Bytes) : Bool := (left.zip right).countP (fun x => x.1 ≠ x.2) = 0

/-- `hmac_cipher::encrypt`. -/
def hmacEncrypt (md : Mac) (plain : Bytes) : Bytes := plain ++ md.mac plain

/-- `hmac_cipher::decrypt`. -/
def hmacDecrypt (md : Mac) (cipher : Bytes) : Option (Option Bytes) :=
  if cipher.length < md.digestSize then some none
  else
    let messageSize := cipher.length - md.digestSize
    (slice cipher 0 messageSize).bind fun message =>
      (slice cipher messageSize md.digestSize).map fun digest =>
        if equal (md.mac message) digest then some message else none

/-- `aes_cipher::encrypt` with the initial vector of the cipher object.  The size of the message is
a number of 32 bits; the copy of a message that does not fit would leave the buffer. -/
def aesEncrypt (cbc : Cbc) (md : Mac) (iv plain : Bytes) : Option Bytes :=
  let size := plain.length % 2 ^ 32
  let blockSize := (size + 4 + (cbc.blockSize - 1)) / cbc.blockSize * cbc.blockSize + cbc.blockSize
  (overwrite (List.replicate blockSize 0) cbc.blockSize (littleEndian 4 size)).bind fun input =>
    (overwrite input (cbc.blockSize + 4) plain).map fun input =>
      let output := cbc.encrypt iv input
      output ++ md.mac output

/-- `aes_cipher::decrypt` with the initial vector of the cipher object. -/
def aesDecrypt (cbc : Cbc) (md : Mac) (iv cipher : Bytes) : Option (Option Bytes) :=
  if cipher.length < md.digestSize + cbc.blockSize then some none
  else
    let realSize := cipher.length - md.digestSize
    if realSize % cbc.blockSize ≠ 0 then some none
    else if realSize / cbc.blockSize < 2 then some none
    else
      (slice cipher 0 realSize).bind fun body =>
        (slice cipher realSize md.digestSize).bind fun digest =>
          if !equal (md.mac body) digest then some none
          else
            let fullPlain := cbc.decrypt iv body
            (slice fullPlain cbc.blockSize 4).bind fun field =>
              let size := fromLittleEndian field
              if realSize - cbc.blockSize - 4 < size then some none
              else (slice fullPlain (cbc.blockSize + 4) size).map some

/-! ## What is accepted -/

lemma equal_iff {left right : Bytes} (hlen : left.length = right.length) :
    equal left right ↔ left = right := by
  unfold equal
  rw [decide_eq_true_iff, List.countP_eq_zero]
  induction left generalizing right with
  | nil =>
    rw [List.length_eq_zero_iff.1 hlen.symm]
    simp
  | cons a left ih =>
    cases right with
    | nil => cases hlen
    | cons b right =>
      rw [List.zip_cons_cons, List.forall_mem_cons, ih (Nat.succ.inj hlen), List.cons.injEq]
      simp

/-- The last octets of an encrypted text are the signature of those before them. -/
def Mac.Signed (md : Mac) (cipher : Bytes) : Prop :=
  md.digestSize ≤ cipher.length ∧
    cipher.drop (cipher.length - md.digestSize) =
      md.mac (cipher.take (cipher.length - md.digestSize))

lemma Mac.signed_append (md : Mac) (message : Bytes) : md.Signed (message ++ md.mac message) := by
  have hlen : (message ++ md.mac message).length - md.digestSize = message.length := by
    rw [List.length_append, md.length_mac, Nat.add_sub_cancel]
  constructor
  · rw [List.length_append, md.length_mac]
    exact Nat.le_add_left _ _
  · rw [hlen, List.drop_left, List.take_left]

/-- The comparison of the ciphers. -/
lemma Mac.equal_iff_signed (md : Mac) {cipher : Bytes} (hle : md.digestSize ≤ cipher.length) :
    equal (md.mac (cipher.take (cipher.length - md.digestSize)))
      (cipher.drop (cipher.length - md.digestSize)) ↔ md.Signed cipher := by
  rw [equal_iff]
  · exact ⟨fun h => ⟨hle, h.symm⟩, fun h => h.2.symm⟩
  · rw [md.length_mac, List.length_drop]
    omega

section Slices

variable {md : Mac} {cipher : Bytes} (hle : md.digestSize ≤ cipher.length)
include hle

lemma slice_message : slice cipher 0 (cipher.length - md.digestSize) =
    some (cipher.take (cipher.length - md.digestSize)) := by
  rw [slice_of_le (by omega), List.drop_zero]

lemma slice_digest : slice cipher (cipher.length - md.digestSize) md.digestSize =
    some (cipher.drop (cipher.length - md.digestSize)) := by
  rw [slice_of_le (by omega), List.take_of_length_le]
  rw [List.length_drop]
  omega

end Slices

/-- A signed text is accepted, and nothing else. -/
lemma hmacDecrypt_eq_some (md : Mac) (cipher : Bytes) : ∃ r, hmacDecrypt md cipher = some r ∧
    ∀ p, r = some p ↔ md.Signed cipher ∧ p = cipher.take (cipher.length - md.digestSize) := by
  unfold hmacDecrypt
  split_ifs with hlt
  · refine ⟨none, rfl, ?_⟩
    intro p
    constructor
    · intro h
      cases h
    · rintro ⟨hsigned, -⟩
      exact absurd hsigned.1 (not_le.2 hlt)
  · have hle := not_lt.1 hlt
    have hequal := md.equal_iff_signed hle
    dsimp only
    rw [slice_message hle, Option.bind_some, slice_digest hle, Option.map_some]
    refine ⟨_, rfl, ?_⟩
    intro p
    split_ifs with hif
    · have hsigned := hequal.1 hif
      exact ⟨fun h => ⟨hsigned, (Option.some.inj h).symm⟩, fun h => congrArg some h.2.symm⟩
    · exact iff_of_false (fun h => by cases h) (fun h => hif (hequal.2 h.1))

/-- The AES cipher accepts only what is signed, and reads inside of its buffers. -/
lemma aesDecrypt_eq_some (cbc : Cbc) (md : Mac) (iv cipher : Bytes) :
    ∃ r, aesDecrypt cbc md iv cipher = some r ∧
      ∀ p, r = some p → md.Signed cipher ∧ p.length ≤ cipher.length - md.digestSize := by
  have hnone : ∀ p : Bytes, none = some p →
      md.Signed cipher ∧ p.length ≤ cipher.length - md.digestSize := by
    intro p h
    cases h
  have hfour := cbc.four_le_blockSize
  unfold aesDecrypt
  split_ifs with hlt
  · exact ⟨none, rfl, hnone⟩
  have hle : md.digestSize ≤ cipher.length := by omega
  have hbody : (cipher.take (cipher.length - md.digestSize)).length =
      cipher.length - md.digestSize := by
    rw [List.length_take]
    omega
  dsimp only
  split_ifs with hmod hdiv
  · exact ⟨none, rfl, hnone⟩
  · exact ⟨none, rfl, hnone⟩
  -- there are two blocks, so that the size field is inside
  have htwo : 2 * cbc.blockSize ≤ cipher.length - md.digestSize :=
    (Nat.le_div_iff_mul_le (by omega)).1 (not_lt.1 hdiv)
  have hdvd : cbc.blockSize ∣ (cipher.take (cipher.length - md.digestSize)).length := by
    rw [hbody]
    exact Nat.dvd_of_mod_eq_zero (not_not.1 hmod)
  have hplain := cbc.length_decrypt iv _ hdvd
  rw [hbody] at hplain
  rw [slice_message hle, Option.bind_some, slice_digest hle, Option.bind_some]
  split_ifs with hequal
  · exact ⟨none, rfl, hnone⟩
  rw [slice_of_le (by omega), Option.bind_some]
  split_ifs with hsize
  · exact ⟨none, rfl, hnone⟩
  rw [slice_of_le (by omega), Option.map_some]
  refine ⟨_, rfl, ?_⟩
  intro p hp
  rw [Bool.not_eq_true', Bool.not_eq_false] at hequal
  refine ⟨(md.equal_iff_signed hle).1 hequal, ?_⟩
  rw [← Option.some.inj hp, List.length_take, List.length_drop]
  omega

/-! ## Round trips -/

lemma hmacDecrypt_hmacEncrypt (md : Mac) (plain : Bytes) :
    hmacDecrypt md (hmacEncrypt md plain) = some (some plain) := by
  obtain ⟨r, hr, hiff⟩ := hmacDecrypt_eq_some md (hmacEncrypt md plain)
  rw [hr, (hiff plain).2]
  refine ⟨md.signed_append plain, ?_⟩
  rw [hmacEncrypt, List.length_append, md.length_mac, Nat.add_sub_cancel, List.take_left]

section Aes

variable (cbc : Cbc) (md : Mac) {plain : Bytes}

/-- The buffer that is encrypted: an unused block, the size, the message and zeros. -/
def Cbc.input (plain : Bytes) : Bytes :=
  List.replicate cbc.blockSize 0 ++ (littleEndian 4 plain.length ++ (plain ++ List.replicate
    ((plain.length + 4 + (cbc.blockSize - 1)) / cbc.blockSize * cbc.blockSize - (plain.length + 4))
      0))

lemma Cbc.le_blocks (plain : Bytes) :
    plain.length + 4 ≤ (plain.length + 4 + (cbc.blockSize - 1)) / cbc.blockSize *
      cbc.blockSize := by
  have hfour := cbc.four_le_blockSize
  have hmod := Nat.div_add_mod' (plain.length + 4 + (cbc.blockSize - 1)) cbc.blockSize
  have hlt := Nat.mod_lt (plain.length + 4 + (cbc.blockSize - 1)) (show cbc.blockSize > 0 by omega)
  omega

lemma Cbc.length_input (plain : Bytes) : (cbc.input plain).length =
    (plain.length + 4 + (cbc.blockSize - 1)) / cbc.blockSize * cbc.blockSize + cbc.blockSize := by
  have hle := cbc.le_blocks plain
  unfold Cbc.input
  simp only [List.length_append, List.length_replicate, length_littleEndian]
  omega

lemma Cbc.dvd_length_input (plain : Bytes) : cbc.blockSize ∣ (cbc.input plain).length := by
  rw [cbc.length_input]
  exact dvd_add (dvd_mul_left _ _) dvd_rfl

lemma aesEncrypt_eq (iv : Bytes) (hplain : plain.length < 2 ^ 32) :
    aesEncrypt cbc md iv plain =
      some (cbc.encrypt iv (cbc.input plain) ++ md.mac (cbc.encrypt iv (cbc.input plain))) := by
  have hle := cbc.le_blocks plain
  unfold aesEncrypt
  dsimp only
  rw [Nat.mod_eq_of_lt hplain]
  generalize hblocks : (plain.length + 4 + (cbc.blockSize - 1)) / cbc.blockSize * cbc.blockSize =
    blocks at *
  have hzero : List.replicate (blocks + cbc.blockSize) (0 : UInt8) =
      List.replicate cbc.blockSize 0 ++ (List.replicate 4 0 ++ (List.replicate plain.length 0 ++
        List.replicate (blocks - (plain.length + 4)) 0)) := by
    rw [← List.replicate_add, ← List.replicate_add, ← List.replicate_add]
    congr 1
    omega
  rw [hzero, overwrite_append List.length_replicate
    (by rw [List.length_replicate, length_littleEndian]), Option.bind_some, ← List.append_assoc,
    overwrite_append _ List.length_replicate, Option.map_some, List.append_assoc,
    Cbc.input, hblocks]
  rw [List.length_append, List.length_replicate, length_littleEndian]

lemma aesDecrypt_aesEncrypt (iv iv' : Bytes) (hplain : plain.length < 2 ^ 32) :
    ∃ c, aesEncrypt cbc md iv plain = some c ∧ aesDecrypt cbc md iv' c = some (some plain) := by
  refine ⟨_, aesEncrypt_eq cbc md iv hplain, ?_⟩
  have hfour := cbc.four_le_blockSize
  have hle := cbc.le_blocks plain
  have hinput := cbc.length_input plain
  have hdvd := cbc.dvd_length_input plain
  have hbody := cbc.length_encrypt iv _ hdvd
  generalize hout : cbc.encrypt iv (cbc.input plain) = body at *
  have hlen : (body ++ md.mac body).length - md.digestSize = body.length := by
    rw [List.length_append, md.length_mac, Nat.add_sub_cancel]
  have hsigned := md.signed_append body
  have hequal := (md.equal_iff_signed hsigned.1).2 hsigned
  have hmessage := slice_message hsigned.1
  have hdigest := slice_digest hsigned.1
  rw [hlen, List.take_left, List.drop_left] at hequal
  rw [hlen, List.take_left] at hmessage
  rw [hlen, List.drop_left] at hdigest
  -- what is decrypted after the first block
  have hdrop : (cbc.decrypt iv' body).drop cbc.blockSize = littleEndian 4 plain.length ++ (plain ++
      List.replicate ((plain.length + 4 + (cbc.blockSize - 1)) / cbc.blockSize * cbc.blockSize -
        (plain.length + 4)) 0) := by
    rw [← hout, cbc.drop_decrypt_encrypt iv iv' _ hdvd, Cbc.input,
      List.drop_left' List.length_replicate]
  have hfull := cbc.length_decrypt iv' body (hbody ▸ hdvd)
  have hfirst : ((cbc.decrypt iv' body).take cbc.blockSize).length = cbc.blockSize := by
    rw [List.length_take]
    omega
  generalize hrest : List.replicate _ (0 : UInt8) = rest at hdrop
  have hparts : cbc.decrypt iv' body = (cbc.decrypt iv' body).take cbc.blockSize ++
      (littleEndian 4 plain.length ++ (plain ++ rest)) := by
    rw [← hdrop, List.take_append_drop]
  have hfield : slice (cbc.decrypt iv' body) cbc.blockSize 4 =
      some (littleEndian 4 plain.length) := by
    rw [hparts]
    exact slice_append hfirst (length_littleEndian 4 _)
  have hvalue : slice (cbc.decrypt iv' body) (cbc.blockSize + 4) plain.length = some plain := by
    rw [hparts, ← List.append_assoc]
    refine slice_append ?_ rfl
    rw [List.length_append, hfirst, length_littleEndian]
  unfold aesDecrypt
  rw [if_neg (by rw [List.length_append, md.length_mac]; omega)]
  dsimp only
  rw [hlen, if_neg (not_not.2 (Nat.mod_eq_zero_of_dvd (hbody ▸ hdvd))), if_neg]
  · rw [hmessage, Option.bind_some, hdigest, Option.bind_some, hequal, Bool.not_true,
      if_neg Bool.false_ne_true, hfield, Option.bind_some, fromLittleEndian_of_lt hplain, hvalue,
      if_neg (by omega), Option.map_some]
  · -- the message and its size take a block at least
    have hpos : 1 ≤ (plain.length + 4 + (cbc.blockSize - 1)) / cbc.blockSize :=
      (Nat.le_div_iff_mul_le (by omega)).2 (by omega)
    rw [not_lt, Nat.le_div_iff_mul_le (by omega), hbody, hinput]
    have hmul := Nat.mul_le_mul_right cbc.blockSize hpos
    omega

end Aes

/-- The ciphers give back what they encrypt; they accept only what is signed, read inside of their
buffers and return no more than the signed octets. -/
theorem ciphers_authenticated (cbc : Cbc) (md : Mac) :
    (∀ iv iv' p : Bytes, p.length < 2 ^ 32 →
      ∃ c, aesEncrypt cbc md iv p = some c ∧ aesDecrypt cbc md iv' c = some (some p)) ∧
    (∀ p : Bytes, p.length < 2 ^ 32 → hmacDecrypt md (hmacEncrypt md p) = some (some p)) ∧
    (∀ iv c : Bytes, ∃ r, aesDecrypt cbc md iv c = some r ∧
      ∀ p, r = some p → md.Signed c ∧ p.length ≤ c.length - md.digestSize) ∧
    ∀ c : Bytes, ∃ r, hmacDecrypt md c = some r ∧
      ∀ p, r = some p → md.Signed c ∧ p.length ≤ c.length - md.digestSize := by
  refine ⟨?_, ?_, aesDecrypt_eq_some cbc md, ?_⟩
  · intro iv iv' p hp
    exact aesDecrypt_aesEncrypt cbc md iv iv' hp
  · intro p _
    exact hmacDecrypt_hmacEncrypt md p
  · intro c
    obtain ⟨r, hr, hiff⟩ := hmacDecrypt_eq_some md c
    refine ⟨r, hr, ?_⟩
    intro p hp
    obtain ⟨hsigned, rfl⟩ := (hiff p).1 hp
    refine ⟨hsigned, ?_⟩
    rw [List.length_take]
    exact Nat.min_le_left _ _

/-- A block cipher that adds a key to every octet. -/
def addKey (key : UInt8) : BlockCipher where
  encrypt x := x.map (· + key)
  decrypt x := x.map (· - key)
  length_encrypt _ := List.length_map _
  length_decrypt _ := List.length_map _
  decrypt_encrypt x := by
    rw [List.map_map]
    exact (List.map_congr_left fun a _ => UInt8.add_sub_cancel a key).trans (List.map_id x)

/-- A signature of one octet. -/
def checksum (key : UInt8) : Mac where
  digestSize := 1
  mac m := [m.foldl (· + ·) key]
  length_mac _ := rfl

theorem ciphers_authenticated_addKey : (bytes "secret").length < 2 ^ 32 ∧
    ∃ c, aesEncrypt (Cbc.chain (addKey 7) 16 (by decide)) (checksum 3) [1, 2]
      (bytes "secret") = some c ∧
      aesDecrypt (Cbc.chain (addKey 7) 16 (by decide)) (checksum 3) [5] c =
        some (some (bytes "secret")) :=
  ⟨by decide, (ciphers_authenticated (Cbc.chain (addKey 7) 16 (by decide)) (checksum 3)).1 [1, 2]
    [5]
    (bytes "secret") (by decide)⟩

end Session

end Cppcms
