import Mathlib.Tactic

/-!
# Cipher block chaining

Every block is masked with the encrypted block before it; the initial vector masks the first one.  A
block after the first is therefore recovered without the initial vector.
-/

namespace Cppcms

/-- The octets of a block masked with those of another. -/
def mask : List UInt8 → List UInt8 → List UInt8
  | [], _ => []
  | a :: x, [] => a :: x
  | a :: x, b :: y => (a ^^^ b) :: mask x y

@[simp] lemma length_mask (x y : List UInt8) : (mask x y).length = x.length := by
  induction x generalizing y with
  | nil => rfl
  | cons a x ih =>
    cases y with
    | nil => rfl
    | cons b y => rw [mask, List.length_cons, ih, List.length_cons]

lemma mask_mask (x y : List UInt8) : mask (mask x y) y = x := by
  induction x generalizing y with
  | nil => rfl
  | cons a x ih =>
    cases y with
    | nil => rfl
    | cons b y => rw [mask, mask, ih, UInt8.xor_assoc, UInt8.xor_self, UInt8.xor_zero]

/-- A permutation of the blocks of each length. -/
structure BlockCipher where
  encrypt : List UInt8 → List UInt8
  decrypt : List UInt8 → List UInt8
  length_encrypt : ∀ x, (encrypt x).length = x.length
  length_decrypt : ∀ x, (decrypt x).length = x.length
  decrypt_encrypt : ∀ x, decrypt (encrypt x) = x

namespace BlockCipher

variable (cipher : BlockCipher) (size : ℕ)

/-- The encryption of a number of blocks after the given one. -/
def encryptChain : ℕ → List UInt8 → List UInt8 → List UInt8
  | 0, _, _ => []
  | n + 1, last, x =>
    let c := cipher.encrypt (mask (x.take size) last)
    c ++ encryptChain n c (x.drop size)

/-- The decryption of a number of blocks after the given one. -/
def decryptChain : ℕ → List UInt8 → List UInt8 → List UInt8
  | 0, _, _ => []
  | n + 1, last, c =>
    mask (cipher.decrypt (c.take size)) last ++ decryptChain n (c.take size) (c.drop size)

variable {size} {n : ℕ} {x : List UInt8}

lemma length_take_of_mul (hx : x.length = (n + 1) * size) : (x.take size).length = size := by
  rw [List.length_take, hx]
  exact Nat.min_eq_left (Nat.le_mul_of_pos_left size n.succ_pos)

lemma length_drop_of_mul (hx : x.length = (n + 1) * size) : (x.drop size).length = n * size := by
  rw [List.length_drop, hx, Nat.succ_mul, Nat.add_sub_cancel]

lemma length_encryptChain (last : List UInt8) (hx : x.length = n * size) :
    (cipher.encryptChain size n last x).length = n * size := by
  induction n generalizing last x with
  | zero => rw [Nat.zero_mul]; rfl
  | succ n ih =>
    rw [encryptChain, List.length_append, ih _ (length_drop_of_mul hx),
      cipher.length_encrypt, length_mask, length_take_of_mul hx, Nat.succ_mul, Nat.add_comm]

lemma length_decryptChain (last : List UInt8) (hx : x.length = n * size) :
    (cipher.decryptChain size n last x).length = n * size := by
  induction n generalizing last x with
  | zero => rw [Nat.zero_mul]; rfl
  | succ n ih =>
    rw [decryptChain, List.length_append, ih _ (length_drop_of_mul hx), length_mask,
      cipher.length_decrypt, length_take_of_mul hx, Nat.succ_mul, Nat.add_comm]

/-- The first block of a chain is split from the others. -/
lemma decryptChain_encryptChain_succ (last last' : List UInt8) (hx : x.length = (n + 1) * size) :
    cipher.decryptChain size (n + 1) last' (cipher.encryptChain size (n + 1) last x) =
      mask (mask (x.take size) last) last' ++
        cipher.decryptChain size n (cipher.encrypt (mask (x.take size) last))
          (cipher.encryptChain size n (cipher.encrypt (mask (x.take size) last))
            (x.drop size)) := by
  have hlen : (cipher.encrypt (mask (x.take size) last)).length = size := by
    rw [cipher.length_encrypt, length_mask, length_take_of_mul hx]
  rw [decryptChain, encryptChain]
  simp only [List.take_left' hlen, List.drop_left' hlen, cipher.decrypt_encrypt]

lemma decryptChain_encryptChain (last : List UInt8) (hx : x.length = n * size) :
    cipher.decryptChain size n last (cipher.encryptChain size n last x) = x := by
  induction n generalizing last x with
  | zero =>
    rw [Nat.zero_mul] at hx
    exact (List.length_eq_zero_iff.1 hx).symm
  | succ n ih =>
    rw [cipher.decryptChain_encryptChain_succ last last hx, ih _ (length_drop_of_mul hx), mask_mask,
      List.take_append_drop]

/-- Every block after the first is recovered, whatever the initial vectors are. -/
lemma drop_decryptChain_encryptChain (iv iv' : List UInt8) (hx : x.length = n * size) :
    (cipher.decryptChain size n iv' (cipher.encryptChain size n iv x)).drop size = x.drop size := by
  cases n with
  | zero =>
    rw [Nat.zero_mul] at hx
    rw [List.length_eq_zero_iff.1 hx]
    rfl
  | succ n =>
    have hlen : (mask (mask (x.take size) iv) iv').length = size := by
      rw [length_mask, length_mask, length_take_of_mul hx]
    rw [cipher.decryptChain_encryptChain_succ iv iv' hx, List.drop_left' hlen,
      cipher.decryptChain_encryptChain _ (length_drop_of_mul hx)]

end BlockCipher

end Cppcms
