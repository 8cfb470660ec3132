import Cppcms.Session.Encryptors
import Mathlib.Data.UInt

/-!
# Signatures

`crypto::hmac` of `crypto.cpp`.  One object holds two digest objects and the key; every readout
drains both and primes them again, so that it can sign one message after the other.
-/

namespace Cppcms

namespace Crypto

/-- A hash function as `message_digest` offers it. -/
structure Algorithm where
  digestSize : ℕ
  blockSize : ℕ
  hash : Bytes → Bytes
  length_hash : ∀ m, (hash m).length = digestSize
  digestSize_le : digestSize ≤ blockSize

/-- The state of a `message_digest`: the bytes that were appended since the last reset. -/
structure MessageDigest where
  pending : Bytes
  deriving DecidableEq

namespace MessageDigest

/-- A new object, and what `clone` makes. -/
def initial : MessageDigest := ⟨[]⟩

def append (d : MessageDigest) (s : Bytes) : MessageDigest := ⟨d.pending ++ s⟩

/-- `readout`: the digest, and the object, which is reset. -/
def readout (a : Algorithm) (d : MessageDigest) : Bytes × MessageDigest :=
  (a.hash d.pending, initial)

end MessageDigest

/-- `memcpy` to the front of a vector. -/
def memcpy (s v : Bytes) : Bytes := s ++ v.drop s.length

structure Hmac where
  md : MessageDigest
  mdOpad : MessageDigest
  key : Bytes
  deriving DecidableEq

namespace Hmac

/-- The part of `init` behind the pads. -/
def prime (h : Hmac) (ipad opad : Bytes) : Hmac :=
  { h with
    mdOpad := h.mdOpad.append (opad.map (· ^^^ 0x5C))
    md := h.md.append (ipad.map (· ^^^ 0x36)) }

def init (a : Algorithm) (h : Hmac) : Hmac :=
  let zeros := List.replicate a.blockSize 0
  if a.blockSize < h.key.length then
    let (digest, md) := (h.md.append h.key).readout a
    let ipad := memcpy digest zeros
    { h with md := md }.prime ipad (memcpy (ipad.take a.digestSize) zeros)
  else h.prime (memcpy h.key zeros) (memcpy h.key zeros)

/-- The constructor with a digest object. -/
def ofDigest (a : Algorithm) (digest : MessageDigest) (key : Bytes) : Hmac :=
  Hmac.init a ⟨digest, .initial, key⟩

/-- The constructor with the name of the algorithm; the object of `create_by_name` is a new one. -/
def ofName (createByName : Bytes → Option Algorithm) (name key : Bytes) : Option Hmac :=
  (createByName name).map fun a => ofDigest a .initial key

def append (h : Hmac) (s : Bytes) : Hmac := { h with md := h.md.append s }

def readout (a : Algorithm) (h : Hmac) : Bytes × Hmac :=
  let (digest, md) := h.md.readout a
  let (signature, mdOpad) := (h.mdOpad.append digest).readout a
  (signature, Hmac.init a ⟨md, mdOpad, h.key⟩)

end Hmac

/-- What is done with an object. -/
inductive Call where
  | append (s : Bytes)
  | readout

/-- The signatures that the calls read out. -/
def Hmac.run (a : Algorithm) : List Call → Hmac → List Bytes
  | [], _ => []
  | .append s :: calls, h => Hmac.run a calls (h.append s)
  | .readout :: calls, h => (h.readout a).1 :: Hmac.run a calls (h.readout a).2

/-! ## The signature of a message -/

namespace Algorithm

/-- The key of the size of a block: a longer one is hashed before. -/
def blockKey (a : Algorithm) (key : Bytes) : Bytes :=
  if a.blockSize < key.length then a.hash key ++ List.replicate (a.blockSize - a.digestSize) 0
  else key ++ List.replicate (a.blockSize - key.length) 0

/-- The signature of RFC 2104. -/
def hmac (a : Algorithm) (key m : Bytes) : Bytes :=
  a.hash ((a.blockKey key).map (· ^^^ 0x5C) ++ a.hash ((a.blockKey key).map (· ^^^ 0x36) ++ m))

/-- What the ciphers of the sessions use. -/
def mac (a : Algorithm) (key : Bytes) : Session.Mac where
  digestSize := a.digestSize
  mac := a.hmac key
  length_mac _ := a.length_hash _

end Algorithm

/-- The messages between the readouts; `m` was appended before. -/
def messages (m : Bytes) : List Call → List Bytes
  | [] => []
  | .append s :: calls => messages (m ++ s) calls
  | .readout :: calls => m :: messages [] calls

/-! ## Objects that are ready -/

/-- Both digest objects are primed with the key, and the bytes of the message are appended. -/
structure Hmac.Primed (a : Algorithm) (key m : Bytes) (h : Hmac) : Prop where
  key_eq : h.key = key
  md : h.md.pending = (a.blockKey key).map (· ^^^ 0x36) ++ m
  mdOpad : h.mdOpad.pending = (a.blockKey key).map (· ^^^ 0x5C)

lemma memcpy_zeros (s : Bytes) (n : ℕ) :
    memcpy s (List.replicate n 0) = s ++ List.replicate (n - s.length) 0 := by
  rw [memcpy, List.drop_replicate]

variable {a : Algorithm} {key m : Bytes}

/-- Digest objects without bytes are primed with nothing else. -/
lemma Hmac.primed_init : (Hmac.init a ⟨.initial, .initial, key⟩).Primed a key [] := by
  unfold init
  dsimp only
  by_cases hlong : a.blockSize < key.length
  · have hdigest : ((MessageDigest.initial.append key).readout a).1 = a.hash key := rfl
    have hpad : memcpy (a.hash key) (List.replicate a.blockSize 0) =
        a.hash key ++ List.replicate (a.blockSize - a.digestSize) 0 := by
      rw [memcpy_zeros, a.length_hash]
    have htake : (a.hash key ++ List.replicate (a.blockSize - a.digestSize) 0).take a.digestSize =
        a.hash key :=
      List.take_left' (a.length_hash key)
    rw [if_pos hlong, hdigest, hpad, htake, hpad]
    constructor
    · rfl
    · unfold Algorithm.blockKey
      rw [if_pos hlong, List.append_nil]
      rfl
    · unfold Algorithm.blockKey
      rw [if_pos hlong]
      rfl
  · rw [if_neg hlong, memcpy_zeros]
    constructor
    · rfl
    · unfold Algorithm.blockKey
      rw [if_neg hlong, List.append_nil]
      rfl
    · unfold Algorithm.blockKey
      rw [if_neg hlong]
      rfl

variable {h : Hmac}

lemma Hmac.Primed.append (hp : h.Primed a key m) (s : Bytes) :
    (h.append s).Primed a key (m ++ s) where
  key_eq := hp.key_eq
  md := by
    show h.md.pending ++ s = _
    rw [hp.md, List.append_assoc]
  mdOpad := hp.mdOpad

/-- The signature of the message is read out. -/
lemma Hmac.Primed.readout_fst (hp : h.Primed a key m) : (h.readout a).1 = a.hmac key m := by
  show a.hash (h.mdOpad.pending ++ a.hash h.md.pending) = _
  rw [hp.md, hp.mdOpad]
  rfl

/-- Every object is ready behind a readout, whatever was in its digest objects. -/
lemma Hmac.primed_readout (h : Hmac) : (h.readout a).2.Primed a h.key [] := Hmac.primed_init

/-- An object that is ready signs every message. -/
lemma Hmac.Primed.run (hp : h.Primed a key m) (calls : List Call) :
    Hmac.run a calls h = (messages m calls).map (a.hmac key) := by
  induction calls generalizing h m with
  | nil => rfl
  | cons call calls ih =>
    cases call with
    | append s => exact ih (hp.append s)
    | readout =>
      have hnext := h.primed_readout (a := a)
      rw [hp.key_eq] at hnext
      rw [Hmac.run, messages, List.map_cons, hp.readout_fst, ih hnext]

/-- The key is the one that the object was made with. -/
lemma Hmac.key_ofDigest (d : MessageDigest) : (Hmac.ofDigest a d key).key = key := by
  unfold ofDigest init
  dsimp only
  split_ifs
  · rfl
  · rfl

/-- Behind the first readout all signatures are right. -/
lemma Hmac.tail_run (h : Hmac) (m : Bytes) (calls : List Call) :
    (Hmac.run a calls h).tail = ((messages m calls).map (a.hmac h.key)).tail := by
  induction calls generalizing h m with
  | nil => rfl
  | cons call calls ih =>
    cases call with
    | append s => exact ih (h.append s) (m ++ s)
    | readout =>
      rw [Hmac.run, messages, List.map_cons, List.tail_cons, List.tail_cons]
      exact h.primed_readout.run calls

/-- Every readout gives the signature of the bytes that were appended since the one before.  Only
bytes that were appended to the digest object before it was handed over spoil the first one. -/
theorem Hmac.run_ofDigest (a : Algorithm) (d : MessageDigest) (key : Bytes) (calls : List Call) :
    (Hmac.run a calls (Hmac.ofDigest a d key)).tail = ((messages [] calls).map (a.hmac key)).tail ∧
      (d.pending = [] → Hmac.run a calls (Hmac.ofDigest a d key) =
        (messages [] calls).map (a.hmac key)) := by
  constructor
  · have htail := (Hmac.ofDigest a d key).tail_run (a := a) [] calls
    rwa [Hmac.key_ofDigest] at htail
  · intro hd
    have hinitial : d = .initial := congrArg MessageDigest.mk hd
    rw [hinitial]
    exact Hmac.primed_init.run calls

/-- The ciphers of the sessions sign a message with a new object. -/
lemma Hmac.run_mac (a : Algorithm) (key m : Bytes) :
    Hmac.run a [.append m, .readout] (Hmac.ofDigest a .initial key) = [(a.mac key).mac m] :=
  Hmac.primed_init.run [.append m, .readout]

/-- A hash of one octet. -/
def octetSum : Algorithm where
  digestSize := 1
  blockSize := 2
  hash m := [m.sum]
  length_hash _ := rfl
  digestSize_le := by decide

/-- A digest object that already holds an octet signs it with the first message. -/
theorem Hmac.run_ofDigest_pending :
    ¬ ∀ (a : Algorithm) (d : MessageDigest) (key : Bytes) (calls : List Call),
    Hmac.run a calls (Hmac.ofDigest a d key) = (messages [] calls).map (a.hmac key) := by
  intro h
  exact absurd (h octetSum ⟨[1]⟩ [] [.readout]) (by decide)

end Crypto

end Cppcms
