import Cppcms.Base.Outcome
import Cppcms.Locale.MoFile

/-!
# What the catalogue reader looks at

`mo_file` of `message.cpp` with every look at the memory that holds the file.  A look outside of it,
a range that leaves the file, and a division by zero are not defined.  `get` and `value` check what
they use, though the sum in `value` is one of 32 bits; `key` does not check the offset that it
returns, and `find` divides by the size of the table less two.
-/

namespace Cppcms

namespace Locale

/-- Where a file comes from: a callback that returns it, or a stream. -/
inductive Source where
  | callback (data : Bytes)
  | stream (data : Bytes)

/-- `mo_file` with the memory that holds the file.  A file that is read from a stream has a zero
behind it. -/
structure Image where
  file : MoFile
  tail : Bytes
  deriving DecidableEq

namespace Image

/-! ## Looks at the memory -/

def memory (f : Image) : Bytes := f.file.data ++ f.tail

/-- `file_size_ - 4`, in 64 bits. -/
def lastOffset (fileSize : ℕ) : ℕ := if fileSize < 4 then fileSize + (2 ^ 64 - 4) else fileSize - 4

/-- `get`. -/
def readNumber (memory : Bytes) (fileSize : ℕ) (native : Bool) (offset : ℕ) : Outcome ℕ :=
  if lastOffset fileSize < offset then .throws "Bad mo-file format"
  else if memory.length < offset + 4 then .undefined
  else
    let octets := (memory.drop offset).take 4
    .returns (if native then fromLittleEndian octets else fromLittleEndian octets.reverse)

/-- `strlen` at a place of the memory. -/
def strlenOf : Bytes → Option ℕ
  | [] => none
  | c :: s => if c = 0 then some 0 else (strlenOf s).map (· + 1)

/-- `strcmp(real_key,key) == 0`. -/
def strcmpOf : Bytes → Bytes → Option Bool
  | [], _ => none
  | c :: _, [] => some (c = 0)
  | c :: s, d :: key => if c = d then strcmpOf s key else some false

/-- `is_us_ascii_string`. -/
def isUsAsciiOf : Bytes → Option Bool
  | [] => none
  | c :: s => if c = 0 then some true else if c < 0x7F then isUsAsciiOf s else some false

/-- The result of a function that walks over a string. -/
def ofOption {α : Type} : Option α → Outcome α
  | none => .undefined
  | some a => .returns a

/-! ## The constructors -/

/-- `init`. -/
def init (data tail : Bytes) (native : Bool) : Outcome (Option Image) := do
  let get := readNumber (data ++ tail) data.length native
  let size ← get 8
  let keysOffset ← get 12
  let translationsOffset ← get 16
  let hashSize ← get 20
  let hashOffset ← get 24
  return some ⟨⟨data, native, size, keysOffset, translationsOffset, hashSize, hashOffset⟩, tail⟩

/-- The order of the octets by the first four of them. -/
def byteOrder (what : String) (data : Bytes) : Outcome Bool :=
  if fromLittleEndian (data.take 4) = 0x950412de then .returns true
  else if fromLittleEndian (data.take 4) = 0xde120495 then .returns false
  else .throws what

/-- The file that `load_file` of `mo_message` makes; a callback may have no file. -/
def construct : Source → Outcome (Option Image)
  | .callback data =>
    if data = [] then .returns none
    else if data.length < 4 then .throws "invalid 'mo' file format - the file is too short"
    else byteOrder "Invalid file format - invalid magic number" data >>= init data []
  | .stream data => do
    let native ← byteOrder "Invalid file format" data
    if 2 ^ 32 ≤ data.length then .throws "Failed to read file" else init data [0] native

/-! ## The calls -/

section Calls

variable (f : Image)

def get (offset : ℕ) : Outcome ℕ :=
  readNumber f.memory f.file.data.length f.file.nativeByteorder offset

/-- `key`: the place of the key. -/
def key (id : ℕ) : Outcome ℕ := f.get (u32 (f.file.keysOffset + id * 8 + 4))

/-- `value`: the place of the translation and its length. -/
def value (id : ℕ) : Outcome (ℕ × ℕ) := do
  let len ← f.get (u32 (f.file.translationsOffset + id * 8))
  let off ← f.get (u32 (f.file.translationsOffset + id * 8 + 4))
  if off ≥ f.file.data.length ∨
    u32 (off + len) ≥ f.file.data.length then .throws "Bad mo-file format"
  else if f.file.data.length < off + len then .undefined
  else .returns (off, len)

def strlen (p : ℕ) : Outcome ℕ := ofOption (strlenOf (f.memory.drop p))

/-- `key_equals`; with a context the length of the key in the file is taken first. -/
def keyEquals (p : ℕ) (context : Option CString) (key : CString) : Outcome Bool :=
  match context with
  | none => ofOption (strcmpOf (f.memory.drop p) key.1)
  | some c => do
    let realLen ← f.strlen p
    return MoFile.keyEquals ((f.memory.drop p).take realLen) (some c) key

/-- The loop of `find`, for a number of rounds. -/
def probe (context : Option CString) (key : CString) (incr orig : ℕ) :
    ℕ → ℕ → Outcome (Option (ℕ × ℕ))
  | 0, _ => .returns none
  | rounds + 1, hkey => do
    let idx ← f.get (u32 (f.file.hashOffset + 4 * hkey))
    if idx = 0 then .returns none
    else
      let p ← f.key (idx - 1)
      let same ← f.keyEquals p context key
      if same then
        let r ← f.value (idx - 1)
        return some r
      else if u32 (hkey + incr) % f.file.hashSize = orig then .returns none
      else probe context key incr orig rounds (u32 (hkey + incr) % f.file.hashSize)

/-- `hash_size_-2`. -/
def divisor : ℕ := u32 (f.file.hashSize + (2 ^ 32 - 2))

def find (context : Option CString) (key : CString) (rounds : ℕ) : Outcome (Option (ℕ × ℕ)) :=
  if f.file.hashSize = 0 then .returns none
  else if f.divisor = 0 then .undefined
  else
    f.probe context key (1 + (MoFile.hash context key).toNat % f.divisor)
      ((MoFile.hash context key).toNat % f.file.hashSize) rounds
        ((MoFile.hash context key).toNat % f.file.hashSize)

end Calls

/-- The calls of `load_file` and `get`: `value(0)`, whose translation is read as a string, keys that
are read as strings or as far as they are ASCII, translations, and `find`, for any number of its
rounds. -/
inductive Call where
  | header
  | key (id : ℕ)
  | asciiKey (id : ℕ)
  | value (id : ℕ)
  | find (context : Option CString) (key : CString) (rounds : ℕ)

def run (f : Image) : Call → Outcome Unit
  | .header => do
    let r ← f.value 0
    let _ ← f.strlen r.1
    return ()
  | .key id => do
    let p ← f.key id
    let _ ← f.strlen p
    return ()
  | .asciiKey id => do
    let p ← f.key id
    let _ ← ofOption (isUsAsciiOf (f.memory.drop p))
    return ()
  | .value id => do
    let _ ← f.value id
    return ()
  | .find context key rounds => do
    let _ ← f.find context key rounds
    return ()

/-- A file is made without a look outside, and so is a call on it. -/
def Inside (s : Source) (c : Call) : Prop :=
  construct s ≠ .undefined ∧ ∀ f, construct s = .returns (some f) → f.run c ≠ .undefined

/-! ## What the tables have to hold -/

/-- A string that ends in the memory. -/
def Terminated (f : Image) (p : ℕ) : Prop := 0 ∈ f.memory.drop p

/-- The place of a key, as the table of the keys has it. -/
def keyPlace (f : Image) (id : ℕ) : Option ℕ := f.file.get (u32 (f.file.keysOffset + id * 8 + 4))

def valueLength (f : Image) (id : ℕ) : Option ℕ :=
  f.file.get (u32 (f.file.translationsOffset + id * 8))

def valuePlace (f : Image) (id : ℕ) : Option ℕ :=
  f.file.get (u32 (f.file.translationsOffset + id * 8 + 4))

/-- A slot of the hash table. -/
def slot (f : Image) (hkey : ℕ) : Option ℕ := f.file.get (u32 (f.file.hashOffset + 4 * hkey))

/-- An entry for a translation is refused, or its range is in the file. -/
def ValueFits (f : Image) (id : ℕ) : Prop :=
  ∀ len ∈ f.valueLength id, ∀ off ∈ f.valuePlace id, off < f.file.data.length →
    u32 (off + len) < f.file.data.length → off + len ≤ f.file.data.length

/-- A key in the file is compared up to its end in the memory, or up to a difference in front of the
end. -/
def Comparable (f : Image) (p : ℕ) (context : Option CString) (key : CString) : Prop :=
  match context with
  | none => ¬ f.memory.drop p <+: key.1
  | some _ => f.Terminated p

/-- A slot leads to a key that can be compared, and to a translation that fits if the key is the one
that is looked for. -/
def SlotFits (f : Image) (context : Option CString) (key : CString) (hkey : ℕ) : Prop :=
  ∀ idx ∈ f.slot hkey, idx ≠ 0 → ∀ p ∈ f.keyPlace (idx - 1), f.Comparable p context key ∧
    (MoFile.keyEquals (cString (f.memory.drop p)) context key → f.ValueFits (idx - 1))

/-- The slot behind a slot. -/
def nextSlot (f : Image) (incr hkey : ℕ) : ℕ := u32 (hkey + incr) % f.file.hashSize

/-- The search goes on behind a slot: it leads to another key, and the slot behind it is not the
first one. -/
def Passed (f : Image) (context : Option CString) (key : CString) (incr orig hkey : ℕ) : Prop :=
  ∃ idx ∈ f.slot hkey, idx ≠ 0 ∧ (∃ p ∈ f.keyPlace (idx - 1),
    MoFile.keyEquals (cString (f.memory.drop p)) context key = false) ∧ f.nextSlot incr hkey ≠ orig

/-- The slots that a search comes to in a number of rounds fit. -/
def SearchFits (f : Image) (context : Option CString) (key : CString) (incr orig hkey rounds : ℕ) :
    Prop :=
  ∀ k < rounds, (∀ j < k, f.Passed context key incr orig ((f.nextSlot incr)^[j] hkey)) →
    f.SlotFits context key ((f.nextSlot incr)^[k] hkey)

/-- What a call needs. -/
def CallFits (f : Image) : Call → Prop
  | .header =>
    f.ValueFits 0 ∧ ∀ len ∈ f.valueLength 0, ∀ off ∈ f.valuePlace 0, off < f.file.data.length →
      u32 (off + len) < f.file.data.length → f.Terminated off
  | .key id => ∀ p ∈ f.keyPlace id, f.Terminated p
  | .asciiKey id => ∀ p ∈ f.keyPlace id, ∃ c ∈ f.memory.drop p, c = 0 ∨ 0x7F ≤ c
  | .value id => f.ValueFits id
  | .find context key rounds =>
    f.file.hashSize = 0 ∨ (f.file.hashSize ≠ 2 ∧
      f.SearchFits context key (1 + (MoFile.hash context key).toNat % f.divisor)
        ((MoFile.hash context key).toNat % f.file.hashSize)
          ((MoFile.hash context key).toNat % f.file.hashSize) rounds)

def Fits (s : Source) (c : Call) : Prop := ∀ f, construct s = .returns (some f) → f.CallFits c

/-! ## Single looks -/

variable {s : Bytes} {data : Bytes} {native : Bool} {offset v : ℕ}

/-- The length cannot be found without a null character. -/
lemma strlenOf_eq_none : strlenOf s = none ↔ 0 ∉ s := by
  induction s with
  | nil => exact ⟨fun _ => List.not_mem_nil, fun _ => rfl⟩
  | cons c s ih =>
    rw [strlenOf]
    by_cases hc : c = 0
    · rw [if_pos hc, hc]
      exact ⟨(fun h => by cases h), fun h => absurd List.mem_cons_self h⟩
    · rw [if_neg hc, Option.map_eq_none_iff, ih, List.mem_cons, not_or]
      exact ⟨fun h => ⟨Ne.symm hc, h⟩, fun h => h.2⟩

/-- The length is that of the string. -/
lemma take_strlenOf {n : ℕ} (h : strlenOf s = some n) : s.take n = cString s := by
  induction s generalizing n with
  | nil => cases h
  | cons c s ih =>
    rw [strlenOf] at h
    unfold cString at ih ⊢
    by_cases hc : c = 0
    · rw [if_pos hc] at h
      cases h
      rw [List.takeWhile_cons_of_neg (by simpa using hc), List.take_zero]
    · rw [if_neg hc] at h
      rcases Option.map_eq_some_iff.1 h with ⟨m, hm, rfl⟩
      rw [List.takeWhile_cons_of_pos (by simpa using hc), List.take_succ_cons, ih hm]

/-- The comparison of a string of the file with another one leaves the memory if all of it is a
front of that. -/
lemma strcmpOf_eq_none {s key : Bytes} : strcmpOf s key = none ↔ s <+: key := by
  induction s generalizing key with
  | nil => exact ⟨fun _ => List.nil_prefix, fun _ => by cases key <;> rfl⟩
  | cons c s ih =>
    rcases key with _ | ⟨d, key⟩
    · exact ⟨(fun h => by cases h), fun h => absurd (List.prefix_nil.1 h) (List.cons_ne_nil _ _)⟩
    · rw [strcmpOf, List.cons_prefix_cons]
      by_cases hcd : c = d
      · rw [if_pos hcd, ih]
        exact ⟨fun h => ⟨hcd, h⟩, fun h => h.2⟩
      · rw [if_neg hcd]
        exact ⟨(fun h => by cases h), fun h => absurd h.1 hcd⟩

/-- Where the comparison ends it compares the C string. -/
lemma strcmpOf_eq_some {s key : Bytes} (hkey : 0 ∉ key) {b : Bool} (h : strcmpOf s key = some b) :
    b = decide (cString s = key) := by
  unfold cString
  induction s generalizing key with
  | nil => cases key <;> cases h
  | cons c s ih =>
    rcases key with _ | ⟨d, key⟩
    · cases h
      by_cases hc : c = 0
      · rw [List.takeWhile_cons_of_neg (by simpa using hc)]
        rw [decide_eq_true hc, decide_eq_true rfl]
      · rw [List.takeWhile_cons_of_pos (by simpa using hc), decide_eq_false hc,
          decide_eq_false (List.cons_ne_nil _ _)]
    · rw [List.mem_cons, not_or] at hkey
      rw [strcmpOf] at h
      by_cases hcd : c = d
      · have hc : c ≠ 0 := fun h0 => hkey.1 (h0.symm.trans hcd)
        rw [if_pos hcd] at h
        rw [List.takeWhile_cons_of_pos (by simpa using hc), ih hkey.2 h, hcd]
        exact decide_eq_decide.2 ⟨fun h => h ▸ rfl, fun h => (List.cons.inj h).2⟩
      · rw [if_neg hcd] at h
        cases h
        symm
        apply decide_eq_false
        intro heq
        by_cases hc : c = 0
        · rw [List.takeWhile_cons_of_neg (by simpa using hc)] at heq
          cases heq
        · rw [List.takeWhile_cons_of_pos (by simpa using hc)] at heq
          exact hcd (List.cons.inj heq).1

lemma isUsAsciiOf_ne_none : isUsAsciiOf s ≠ none ↔ ∃ c ∈ s, c = 0 ∨ 0x7F ≤ c := by
  induction s with
  | nil => exact ⟨fun h => absurd rfl h, fun ⟨c, hc, _⟩ => absurd hc List.not_mem_nil⟩
  | cons c s ih =>
    rw [isUsAsciiOf, List.exists_mem_cons_iff]
    by_cases hc : c = 0
    · rw [if_pos hc]
      exact ⟨fun _ => .inl (.inl hc), fun _ h => by cases h⟩
    · by_cases hascii : c < 0x7F
      · rw [if_neg hc, if_pos hascii, ih]
        refine ⟨.inr, fun h => h.resolve_left ?_⟩
        rintro (h | h)
        · exact hc h
        · exact absurd hascii (UInt8.not_lt.2 h)
      · rw [if_neg hc, if_neg hascii]
        exact ⟨fun _ => .inl (.inr (UInt8.not_lt.1 hascii)), fun _ h => by cases h⟩

lemma ofOption_ne_undefined {α : Type} {x : Option α} : ofOption x ≠ .undefined ↔ x ≠ none := by
  rcases x with _ | a
  · exact ⟨fun h => absurd rfl h, fun h => absurd rfl h⟩
  · exact ⟨(fun _ h => by cases h), fun _ h => by cases h⟩

/-- A number of a file that is long enough is read as it was, or an exception is thrown. -/
lemma readNumber_eq (tail : Bytes) (hdata : 4 ≤ data.length) (native : Bool) (offset : ℕ) :
    readNumber (data ++ tail) data.length native offset =
      match getNumber data native offset with
      | none => .throws "Bad mo-file format"
      | some v => .returns v := by
  have hlast : lastOffset data.length = data.length - 4 := if_neg (not_lt.2 hdata)
  unfold readNumber getNumber
  rw [hlast]
  by_cases hoffset : offset + 4 > data.length
  · rw [if_pos hoffset, if_pos (by omega)]
  · have hlength : ¬ (data ++ tail).length < offset + 4 := by
      rw [List.length_append]
      omega
    have htake : ((data ++ tail).drop offset).take 4 = (data.drop offset).take 4 := by
      rw [List.drop_append_of_le_length (by omega), List.take_append_of_le_length]
      rw [List.length_drop]
      omega
    rw [if_neg hoffset, if_neg (by omega), if_neg hlength, htake]

/-- What a file is like from which an object was made. -/
structure Made (f : Image) : Prop where
  length : 4 ≤ f.file.data.length
  hashSize : f.file.hashSize < 2 ^ 32

/-- The numbers of a file have 32 bits. -/
lemma getNumber_lt (h : getNumber data native offset = some v) :
    v < 2 ^ 32 := by
  unfold getNumber at h
  have hlength : ((data.drop offset).take 4).length ≤ 4 := List.length_take_le _ _
  have hpow : ∀ l : Bytes, l.length ≤ 4 → fromLittleEndian l < 2 ^ 32 := by
    intro l hl
    calc fromLittleEndian l < 256 ^ l.length := fromLittleEndian_lt l
      _ ≤ 256 ^ 4 := Nat.pow_le_pow_right (by decide) hl
  split_ifs at h
  · cases h
    exact hpow _ hlength
  · cases h
    exact hpow _ (by rwa [List.length_reverse])

/-- Opening reads nothing outside, and gives a file or refuses it. -/
lemma init_cases (tail : Bytes) (hdata : 4 ≤ data.length) (native : Bool) :
    init data tail native ≠ .undefined ∧ ∀ f, init data tail native = .returns (some f) →
    f.Made := by
  have hnumber : ∀ offset, readNumber (data ++ tail) data.length native offset ≠ .undefined ∧
      ∀ v, readNumber (data ++ tail) data.length native offset = .returns v → v < 2 ^ 32 := by
    intro offset
    rw [readNumber_eq tail hdata]
    rcases hv : getNumber data native offset with _ | v
    · exact ⟨(fun h => by cases h), fun _ h => by cases h⟩
    · refine ⟨(fun h => by cases h), fun w h => ?_⟩
      cases h
      exact getNumber_lt hv
  constructor
  · refine Outcome.bind_ne_undefined.2 ⟨(hnumber 8).1, fun _ _ => ?_⟩
    refine Outcome.bind_ne_undefined.2 ⟨(hnumber 12).1, fun _ _ => ?_⟩
    refine Outcome.bind_ne_undefined.2 ⟨(hnumber 16).1, fun _ _ => ?_⟩
    refine Outcome.bind_ne_undefined.2 ⟨(hnumber 20).1, fun _ _ => ?_⟩
    exact Outcome.bind_ne_undefined.2 ⟨(hnumber 24).1, fun _ _ h => by cases h⟩
  · intro f h
    rcases Outcome.bind_eq_returns.1 h with ⟨size, -, h⟩
    rcases Outcome.bind_eq_returns.1 h with ⟨keysOffset, -, h⟩
    rcases Outcome.bind_eq_returns.1 h with ⟨translationsOffset, -, h⟩
    rcases Outcome.bind_eq_returns.1 h with ⟨hashSize, hhash, h⟩
    rcases Outcome.bind_eq_returns.1 h with ⟨hashOffset, -, h⟩
    cases h
    exact ⟨hdata, (hnumber 20).2 _ hhash⟩

lemma byteOrder_ne_undefined (what : String) (data : Bytes) : byteOrder what data ≠ .undefined := by
  unfold byteOrder
  split_ifs
  all_goals
    intro h
    cases h

/-- A file with one of the magic numbers has four octets. -/
lemma length_of_byteOrder {what : String} (h : byteOrder what data = .returns native) :
    4 ≤ data.length := by
  by_contra hlt
  have htake : data.take 4 = data := List.take_of_length_le (by omega)
  have hsmall : fromLittleEndian (data.take 4) < 256 ^ 3 := by
    rw [htake]
    calc fromLittleEndian data < 256 ^ data.length := fromLittleEndian_lt data
      _ ≤ 256 ^ 3 := Nat.pow_le_pow_right (by decide) (by omega)
  unfold byteOrder at h
  rw [if_neg (by omega), if_neg (by omega)] at h
  cases h

/-- The constructors stay in the file. -/
lemma construct_cases (s : Source) :
    construct s ≠ .undefined ∧ ∀ f, construct s = .returns (some f) → f.Made := by
  cases s with
  | callback data =>
    rw [construct]
    by_cases hnil : data = []
    · rw [if_pos hnil]
      exact ⟨(fun h => by cases h), fun _ h => by cases h⟩
    · by_cases hlength : data.length < 4
      · rw [if_neg hnil, if_pos hlength]
        exact ⟨(fun h => by cases h), fun _ h => by cases h⟩
      · have hinit := fun native => init_cases [] (not_lt.1 hlength) native
        rw [if_neg hnil, if_neg hlength]
        constructor
        · exact Outcome.bind_ne_undefined.2
            ⟨byteOrder_ne_undefined _ _, fun native _ => (hinit native).1⟩
        · intro f h
          rcases Outcome.bind_eq_returns.1 h with ⟨native, -, h⟩
          exact (hinit native).2 f h
  | stream data =>
    rw [construct]
    constructor
    · refine Outcome.bind_ne_undefined.2 ⟨byteOrder_ne_undefined _ _, fun native hnative => ?_⟩
      split_ifs
      · exact fun h => by cases h
      · exact (init_cases [0] (length_of_byteOrder hnative) native).1
    · intro f h
      rcases Outcome.bind_eq_returns.1 h with ⟨native, hnative, h⟩
      split_ifs at h
      exact (init_cases [0] (length_of_byteOrder hnative) native).2 f h

/-! ## The calls -/

section Calls

variable {f : Image}

lemma Made.get_eq (hf : f.Made) (offset : ℕ) :
    f.get offset = match f.file.get offset with
      | none => .throws "Bad mo-file format"
      | some v => .returns v := readNumber_eq f.tail hf.length _ offset

/-- Numbers are read inside of the file, or there is an exception. -/
lemma Made.get_ne_undefined (hf : f.Made) (offset : ℕ) : f.get offset ≠ .undefined := by
  rw [hf.get_eq]
  rcases f.file.get offset with _ | v
  · exact fun h => by cases h
  · exact fun h => by cases h

lemma Made.get_eq_returns (hf : f.Made) : f.get offset = .returns v ↔ v ∈ f.file.get offset := by
  rw [hf.get_eq, Option.mem_def]
  rcases f.file.get offset with _ | w
  · exact ⟨(fun h => by cases h), fun h => by cases h⟩
  · constructor
    · intro h
      cases h
      rfl
    · intro h
      cases h
      rfl

/-- The place of a key is inside of the file. -/
lemma Made.key_ne_undefined (hf : f.Made) (id : ℕ) : f.key id ≠ .undefined := hf.get_ne_undefined _

lemma Made.key_eq_returns (hf : f.Made) {id p : ℕ} : f.key id = .returns p ↔ p ∈ f.keyPlace id :=
  hf.get_eq_returns

/-- A translation is read inside of the file if and only if it fits. -/
lemma Made.value_ne_undefined (hf : f.Made) (id : ℕ) :
    f.value id ≠ .undefined ↔ f.ValueFits id := by
  unfold value ValueFits
  rw [Outcome.bind_ne_undefined]
  constructor
  · rintro ⟨-, h⟩ len hlen off hoff hstart hend
    have hlast := (Outcome.bind_ne_undefined.1 (h len (hf.get_eq_returns.2 hlen))).2 off
      (hf.get_eq_returns.2 hoff)
    rw [if_neg (by omega)] at hlast
    by_contra hout
    rw [if_pos (not_le.1 hout)] at hlast
    exact hlast rfl
  · intro h
    refine ⟨hf.get_ne_undefined _, fun len hlen => ?_⟩
    refine Outcome.bind_ne_undefined.2 ⟨hf.get_ne_undefined _, fun off hoff => ?_⟩
    have hfits := h len (hf.get_eq_returns.1 hlen) off (hf.get_eq_returns.1 hoff)
    split_ifs with hthrow hout
    · exact fun h => by cases h
    · rw [not_or, not_le, not_le] at hthrow
      exact absurd (hfits hthrow.1 hthrow.2) (not_le.2 hout)
    · exact fun h => by cases h

/-- Where `value` returns a place, it is the one in the table. -/
lemma Made.value_eq_returns (hf : f.Made) {id off len : ℕ} (h : f.value id = .returns (off, len)) :
    len ∈ f.valueLength id ∧ off ∈ f.valuePlace id ∧ off < f.file.data.length ∧
      u32 (off + len) < f.file.data.length := by
  rcases Outcome.bind_eq_returns.1 h with ⟨len', hlen, h⟩
  rcases Outcome.bind_eq_returns.1 h with ⟨off', hoff, h⟩
  split_ifs at h with hthrow
  cases h
  rw [not_or, not_le, not_le] at hthrow
  exact ⟨hf.get_eq_returns.1 hlen, hf.get_eq_returns.1 hoff, hthrow.1, hthrow.2⟩

/-- A comparison stays inside of the file if and only if it ends there. -/
lemma keyEquals_ne_undefined (p : ℕ) (context : Option CString) (key : CString) :
    f.keyEquals p context key ≠ .undefined ↔ f.Comparable p context key := by
  cases context with
  | none => exact ofOption_ne_undefined.trans (not_congr strcmpOf_eq_none)
  | some c =>
    show (f.strlen p >>= _) ≠ _ ↔ 0 ∈ f.memory.drop p
    rw [Outcome.bind_ne_undefined]
    unfold strlen
    rw [ofOption_ne_undefined, Ne, strlenOf_eq_none, not_not]
    exact ⟨fun h => h.1, fun h => ⟨h, fun _ _ h => by cases h⟩⟩

variable {context : Option CString} {key : CString}

/-- A comparison that ends compares the strings. -/
lemma keyEquals_eq {p : ℕ} (h : f.Comparable p context key) :
    f.keyEquals p context key =
      .returns (MoFile.keyEquals (cString (f.memory.drop p)) context key) := by
  cases context with
  | none =>
    rcases hsame : strcmpOf (f.memory.drop p) key.1 with _ | b
    · exact absurd (strcmpOf_eq_none.1 hsame) h
    · have hb := strcmpOf_eq_some key.2 hsame
      show ofOption (strcmpOf (f.memory.drop p) key.1) = _
      rw [hsame, hb]
      rfl
  | some c =>
    rcases hlen : strlenOf (f.memory.drop p) with _ | n
    · exact absurd h (strlenOf_eq_none.1 hlen)
    · show (ofOption (strlenOf (f.memory.drop p)) >>= _) = _
      rw [hlen, ← take_strlenOf hlen]
      rfl

lemma searchFits_succ {incr orig hkey rounds : ℕ} :
    f.SearchFits context key incr orig hkey (rounds + 1) ↔
      f.SlotFits context key hkey ∧ (f.Passed context key incr orig hkey →
        f.SearchFits context key incr orig (f.nextSlot incr hkey) rounds) := by
  constructor
  · intro h
    refine ⟨h 0 (Nat.succ_pos _) fun j hj =>
      absurd hj (Nat.not_lt_zero _), fun hpassed k hk hbefore => ?_⟩
    refine h (k + 1) (Nat.succ_lt_succ hk) fun j hj => ?_
    rcases j with _ | j
    · exact hpassed
    · exact hbefore j (Nat.lt_of_succ_lt_succ hj)
  · rintro ⟨hfirst, hrest⟩ k hk hbefore
    rcases k with _ | k
    · exact hfirst
    · exact hrest (hbefore 0 (Nat.succ_pos _)) k (Nat.lt_of_succ_lt_succ hk) fun j hj =>
        hbefore (j + 1) (Nat.succ_lt_succ hj)

/-- A search stays in the file if and only if the slots that it comes to fit. -/
lemma Made.probe_ne_undefined (hf : f.Made) (context : Option CString) (key : CString)
    (incr orig rounds hkey : ℕ) :
    f.probe context key incr orig rounds hkey ≠ .undefined ↔
    f.SearchFits context key incr orig hkey rounds := by
  induction rounds generalizing hkey with
  | zero => exact ⟨fun _ k hk => absurd hk (Nat.not_lt_zero _), fun _ h => by cases h⟩
  | succ rounds ih =>
    rw [searchFits_succ, probe, Outcome.bind_ne_undefined]
    constructor
    · rintro ⟨-, h⟩
      -- what the round does where the slot leads to a key
      have hround : ∀ idx ∈ f.slot hkey, idx ≠ 0 →
        ∀ p ∈ f.keyPlace (idx - 1), f.Comparable p context key ∧
          (if MoFile.keyEquals (cString (f.memory.drop p)) context key then f.value (idx - 1) >>=
            fun r => return some r
            else if u32 (hkey + incr) % f.file.hashSize = orig then .returns none
            else f.probe context key incr orig rounds (u32 (hkey + incr) % f.file.hashSize)) ≠
              .undefined := by
        intro idx hidx hne p hp
        have hslot := h idx (hf.get_eq_returns.2 hidx)
        rw [if_neg hne] at hslot
        have hkeyed := (Outcome.bind_ne_undefined.1 hslot).2 p (hf.key_eq_returns.2 hp)
        have hcompared := Outcome.bind_ne_undefined.1 hkeyed
        have hcomparable := (keyEquals_ne_undefined p context key).1 hcompared.1
        exact ⟨hcomparable, hcompared.2 _ (keyEquals_eq hcomparable)⟩
      constructor
      · intro idx hidx hne p hp
        refine ⟨(hround idx hidx hne p hp).1, fun hsame => ?_⟩
        have hvalue := (hround idx hidx hne p hp).2
        rw [if_pos hsame] at hvalue
        exact (hf.value_ne_undefined _).1 (Outcome.bind_ne_undefined.1 hvalue).1
      · rintro ⟨idx, hidx, hne, ⟨p, hp, hdiffers⟩, hnext⟩
        have hnext : u32 (hkey + incr) % f.file.hashSize ≠ orig := hnext
        have hrest := (hround idx hidx hne p hp).2
        rw [if_neg (by rw [hdiffers]; exact Bool.false_ne_true), if_neg hnext] at hrest
        exact (ih _).1 hrest
    · rintro ⟨hslot, hrest⟩
      refine ⟨hf.get_ne_undefined _, fun idx hidx => ?_⟩
      have hidx := hf.get_eq_returns.1 hidx
      by_cases hne : idx = 0
      · rw [if_pos hne]
        exact fun h => by cases h
      rw [if_neg hne]
      refine Outcome.bind_ne_undefined.2 ⟨hf.key_ne_undefined _, fun p hp => ?_⟩
      have hp := hf.key_eq_returns.1 hp
      have hfits := hslot idx hidx hne p hp
      refine Outcome.bind_ne_undefined.2
        ⟨(keyEquals_ne_undefined p context key).2 hfits.1, fun same hsame => ?_⟩
      rw [keyEquals_eq hfits.1] at hsame
      cases hsame
      by_cases hequal : MoFile.keyEquals (cString (f.memory.drop p)) context key = true
      · rw [if_pos hequal]
        exact Outcome.bind_ne_undefined.2
          ⟨(hf.value_ne_undefined _).2 (hfits.2 hequal), fun _ _ h => by cases h⟩
      · rw [if_neg hequal]
        by_cases hnext : u32 (hkey + incr) % f.file.hashSize = orig
        · rw [if_pos hnext]
          exact fun h => by cases h
        · rw [if_neg hnext]
          exact (ih _).2 (hrest ⟨idx, hidx, hne, ⟨p, hp, Bool.eq_false_iff.2 hequal⟩, hnext⟩)

/-- The divisor is zero for a table of two slots. -/
lemma Made.divisor_eq_zero (hf : f.Made) : f.divisor = 0 ↔ f.file.hashSize = 2 := by
  have hlt := hf.hashSize
  unfold divisor u32
  constructor
  · intro h
    omega
  · intro h
    rw [h]
    norm_num

/-- A call stays in the file if and only if what it comes to fits. -/
lemma Made.run_ne_undefined (hf : f.Made) (c : Call) : f.run c ≠ .undefined ↔ f.CallFits c := by
  cases c with
  | header =>
    show (f.value 0 >>= _) ≠ _ ↔ _ ∧ _
    rw [Outcome.bind_ne_undefined, hf.value_ne_undefined]
    refine and_congr_right fun hvalue => ?_
    have hstring : ∀ r : ℕ × ℕ,
      (f.strlen r.1 >>= fun _ => (return () : Outcome Unit)) ≠ .undefined ↔
        f.Terminated r.1 := by
      intro r
      rw [Outcome.bind_ne_undefined]
      unfold strlen Terminated
      rw [ofOption_ne_undefined, Ne, strlenOf_eq_none, not_not]
      exact ⟨fun h => h.1, fun h => ⟨h, fun _ _ h => by cases h⟩⟩
    constructor
    · intro h len hlen off hoff hstart hend
      have hreturns : f.value 0 = .returns (off, len) := by
        have hfits := hvalue len hlen off hoff hstart hend
        unfold value
        refine Outcome.bind_eq_returns.2 ⟨len, hf.get_eq_returns.2 hlen, ?_⟩
        refine Outcome.bind_eq_returns.2 ⟨off, hf.get_eq_returns.2 hoff, ?_⟩
        rw [if_neg (by omega), if_neg (by omega)]
      exact (hstring _).1 (h _ hreturns)
    · rintro h ⟨off, len⟩ hreturns
      rcases hf.value_eq_returns hreturns with ⟨hlen, hoff, hstart, hend⟩
      exact (hstring _).2 (h len hlen off hoff hstart hend)
  | key id =>
    show (f.key id >>= _) ≠ _ ↔ _
    rw [Outcome.bind_ne_undefined]
    constructor
    · intro h p hp
      have hstring := (Outcome.bind_ne_undefined.1 (h.2 p (hf.key_eq_returns.2 hp))).1
      unfold strlen at hstring
      rw [ofOption_ne_undefined, Ne, strlenOf_eq_none, not_not] at hstring
      exact hstring
    · intro h
      refine ⟨hf.key_ne_undefined id, fun p hp => ?_⟩
      refine Outcome.bind_ne_undefined.2 ⟨?_, fun _ _ h => by cases h⟩
      unfold strlen
      rw [ofOption_ne_undefined, Ne, strlenOf_eq_none, not_not]
      exact h p (hf.key_eq_returns.1 hp)
  | asciiKey id =>
    show (f.key id >>= _) ≠ _ ↔ _
    rw [Outcome.bind_ne_undefined]
    constructor
    · intro h p hp
      have hstring := (Outcome.bind_ne_undefined.1 (h.2 p (hf.key_eq_returns.2 hp))).1
      exact isUsAsciiOf_ne_none.1 (ofOption_ne_undefined.1 hstring)
    · intro h
      refine ⟨hf.key_ne_undefined id, fun p hp => ?_⟩
      refine Outcome.bind_ne_undefined.2 ⟨?_, fun _ _ h => by cases h⟩
      exact ofOption_ne_undefined.2 (isUsAsciiOf_ne_none.2 (h p (hf.key_eq_returns.1 hp)))
  | value id =>
    show (f.value id >>= _) ≠ _ ↔ _
    rw [Outcome.bind_ne_undefined, hf.value_ne_undefined]
    exact ⟨fun h => h.1, fun h => ⟨h, fun _ _ h => by cases h⟩⟩
  | find context key rounds =>
    show (f.find context key rounds >>= _) ≠ _ ↔ _
    have hreturn : (f.find context key rounds >>= fun _ => (return () : Outcome Unit)) ≠
      .undefined ↔
        f.find context key rounds ≠ .undefined := by
      rw [Outcome.bind_ne_undefined]
      exact ⟨fun h => h.1, fun h => ⟨h, fun _ _ h => by cases h⟩⟩
    rw [hreturn]
    unfold find CallFits
    by_cases h0 : f.file.hashSize = 0
    · rw [if_pos h0]
      exact ⟨fun _ => .inl h0, fun _ h => by cases h⟩
    · rw [if_neg h0]
      by_cases h2 : f.file.hashSize = 2
      · rw [if_pos (hf.divisor_eq_zero.2 h2)]
        exact ⟨fun h => absurd rfl h, fun h => absurd h2 (h.resolve_left h0).1⟩
      · rw [if_neg fun h => h2 (hf.divisor_eq_zero.1 h), hf.probe_ne_undefined]
        exact ⟨fun h => .inr ⟨h2, h⟩, fun h => (h.resolve_left h0).2⟩

end Calls

/-- A call on a file stays in the file and divides by no zero if and only if what it comes to fits.
-/
theorem inside_iff (s : Source) (c : Call) : Inside s c ↔ Fits s c := by
  have hs := construct_cases s
  constructor
  · rintro ⟨-, h⟩ f hf
    exact ((hs.2 f hf).run_ne_undefined c).1 (h f hf)
  · intro h
    refine ⟨hs.1, fun f hf => ?_⟩
    exact ((hs.2 f hf).run_ne_undefined c).2 (h f hf)

/-- A file of 58 octets with one message, whose key is said to be at the offset 200. -/
def strayKey : Bytes :=
  [0xDE, 0x12, 0x04, 0x95, 0, 0, 0, 0, 1, 0, 0, 0, 28, 0, 0, 0, 36, 0, 0, 0, 0, 0, 0, 0, 0, 0, 0, 0,
    0, 0, 0, 0, 200, 0, 0, 0, 13, 0, 0, 0, 44, 0, 0, 0] ++ bytes "charset=UTF-8" ++ [0]

/-- The key of a message is looked for outside of the file. -/
theorem not_inside_key : ¬ ∀ s c, Inside s c := by
  intro h
  exact (h (.callback strayKey) (.key 0)).2 _ rfl rfl

end Image

end Locale

end Cppcms
