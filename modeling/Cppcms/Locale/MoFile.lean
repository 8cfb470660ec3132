import Cppcms.Base.Strings
import Cppcms.Library.LittleEndian
import Cppcms.Library.SortedMap

/-!
# Message catalogues

`mo_file` and `mo_message<char>` of the localization library, `message.cpp`.  A catalogue in the
format of GNU gettext is used as it is, through the hash table in the file, or it is loaded into a
map in memory; this depends on the encodings only.  A key in the file is a message, or a context and
a message with the octet 4 between them.

A pointer to characters is given by the memory from there on.  An exception is `none`.
-/

namespace Cppcms

namespace Locale

/-- A string that is handed over as a pointer to characters. -/
abbrev CString := { s : Bytes // 0 ∉ s }

/-- The string at a pointer. -/
def cString (memory : Bytes) : Bytes := memory.takeWhile (· ≠ 0)

/-- The separator of context and message. -/
def eot : UInt8 := 4

/-! ## The hash function -/

/-- `pj_winberger_hash::update_state` for a character. -/
def updateState (value : UInt32) (c : UInt8) : UInt32 :=
  let value := (value <<< 4) + c.toUInt32
  let high := value &&& 0xF0000000
  if high ≠ 0 then (value ^^^ (high >>> 24)) ^^^ high else value

/-- `pj_winberger_hash::update_state` for a string. -/
def updateStates (value : UInt32) (s : Bytes) : UInt32 := s.foldl updateState value

/-! ## The file -/

/-- A number of 32 bits. -/
def u32 (n : ℕ) : ℕ := n % 2 ^ 32

/-- A pair of pointers: the memory from the first one on, and the distance to the second one. -/
structure Range where
  memory : Bytes
  length : ℕ

/-- `mo_file`. -/
structure MoFile where
  data : Bytes
  nativeByteorder : Bool
  size : ℕ
  keysOffset : ℕ
  translationsOffset : ℕ
  hashSize : ℕ
  hashOffset : ℕ
  deriving DecidableEq

/-- `get`, with the octets in the order of the file. -/
def getNumber (data : Bytes) (native : Bool) (offset : ℕ) : Option ℕ :=
  if offset + 4 > data.length then none
  else
    let octets := (data.drop offset).take 4
    some (if native then fromLittleEndian octets else fromLittleEndian octets.reverse)

namespace MoFile

def get (f : MoFile) (offset : ℕ) : Option ℕ := getNumber f.data f.nativeByteorder offset

/-- `load_file` and `init`. -/
def load (data : Bytes) : Option MoFile := do
  let magic ← getNumber data true 0
  if magic ≠ 0x950412de ∧ magic ≠ 0xde120495 then none
  else
    let native := decide (magic = 0x950412de)
    let size ← getNumber data native 8
    let keysOffset ← getNumber data native 12
    let translationsOffset ← getNumber data native 16
    let hashSize ← getNumber data native 20
    let hashOffset ← getNumber data native 24
    some ⟨data, native, size, keysOffset, translationsOffset, hashSize, hashOffset⟩

/-- `key`. -/
def key (f : MoFile) (id : ℕ) : Option Bytes :=
  (f.get (u32 (f.keysOffset + id * 8 + 4))).map fun offset => cString (f.data.drop offset)

/-- `value`. -/
def value (f : MoFile) (id : ℕ) : Option Range := do
  let len ← f.get (u32 (f.translationsOffset + id * 8))
  let offset ← f.get (u32 (f.translationsOffset + id * 8 + 4))
  if offset ≥ f.data.length ∨
    u32 (offset + len) ≥ f.data.length then none else some ⟨f.data.drop offset, len⟩

/-- `key_equals`. -/
def keyEquals (realKey : Bytes) (context : Option CString) (key : CString) : Bool :=
  match context with
  | none => realKey = key.1
  | some c =>
    if c.1.length + 1 + key.1.length ≠ realKey.length then false
    else
      realKey.take c.1.length = c.1 && realKey[c.1.length]? = some eot &&
        (realKey.drop (c.1.length + 1)).take key.1.length = key.1

/-- The hash value in `find`. -/
def hash (context : Option CString) (key : CString) : UInt32 :=
  match context with
  | none => updateStates 0 key.1
  | some c => updateStates (updateState (updateStates 0 c.1) eot) key.1

/-- The loop of `find`. -/
def probe (f : MoFile) (context : Option CString) (key : CString) (incr orig : ℕ) :
    ℕ → ℕ → Option (Option Range)
  | 0, _ => none
  | rounds + 1, hkey => do
    let idx ← f.get (u32 (f.hashOffset + 4 * hkey))
    if idx = 0 then some none
    else
      let realKey ← f.key (idx - 1)
      if keyEquals realKey context key then (f.value (idx - 1)).map some
      else if u32 (hkey + incr) % f.hashSize = orig then some none
      else f.probe context key incr orig rounds (u32 (hkey + incr) % f.hashSize)

/-- `find`; the loop comes back to the first slot after at most as many rounds as there are slots.
-/
def find (f : MoFile) (context : Option CString) (key : CString) : Option (Option Range) :=
  if f.hashSize = 0 then some none
  else
    f.probe context key (1 + (hash context key).toNat % u32 (f.hashSize + (2 ^ 32 - 2)))
      ((hash context key).toNat % f.hashSize) f.hashSize ((hash context key).toNat % f.hashSize)

end MoFile

/-! ## The map in memory -/

/-- `message_key` of a string in a file: the context and the message. -/
def messageKey (c : Bytes) : Bytes × Bytes :=
  if eot ∈ c then (c.takeWhile (· ≠ eot), (c.dropWhile (· ≠ eot)).tail) else ([], c)

/-- `std::map<message_key,std::string>`.  Keys are compared as strings that end at their first zero.
-/
abbrev CatalogMap := SortedMap (Bytes ×ₗ Bytes) Bytes

/-- `catalogs_[id][key].swap(value)`. -/
def CatalogMap.add (m : CatalogMap) (key value : Bytes) : CatalogMap :=
  m.insert (toLex (cString (messageKey key).1, cString (messageKey key).2)) value

/-- The loop of `load_file` that loads the catalogue, with the two converters. -/
def MoFile.loadCatalog (f : MoFile) (cvtKey cvtValue : Bytes → Option Bytes) : Option CatalogMap :=
  (List.range f.size).foldlM (fun (m : CatalogMap) i => do
    let ckey ← f.key i
    let skey ← cvtKey ckey
    let tmp ← f.value i
    let value ← cvtValue (tmp.memory.take tmp.length)
    some (m.add skey value)) ∅

/-! ## Messages -/

/-- A domain of `mo_message<char>`: the file is used directly, or it was loaded. -/
inductive Catalog where
  | direct (f : MoFile)
  | loaded (m : CatalogMap)

namespace Catalog

/-- `get_string`. -/
def getString (c : Catalog) (context : Option CString) (id : CString) : Option (Option Range) :=
  match c with
  | .direct f => f.find context id
  | .loaded m =>
    some ((m.find (toLex ((context.map Subtype.val).getD [], id.1))).map fun value =>
      ⟨value ++ [0], value.length⟩)

/-- `get` of a message. -/
def get (c : Catalog) (context : Option CString) (id : CString) : Option (Option Bytes) :=
  (c.getString context id).map fun r => r.map fun r => cString r.memory

end Catalog

/-- The loop of `get` over the forms: the position of the form, or a null pointer. -/
def formPosition (r : Range) : ℕ → ℕ → Option ℕ
  | 0, p => some p
  | form + 1, p =>
    if p < r.length then
      let next := p + (((r.memory.take r.length).drop p).takeWhile (· ≠ 0)).length
      if next = r.length then none else formPosition r form (next + 1)
    else some p

/-- The form of a translation. -/
def Range.form (r : Range) (form : ℤ) : Option Bytes :=
  (formPosition r form.toNat 0).bind fun p =>
    if p ≥ r.length then none else some (cString (r.memory.drop p))

/-- The number of the form for `n`, by the function of the catalogue or as in English. -/
def formOf (plural : Option (ℤ → ℤ)) (n : ℤ) : ℤ :=
  match plural with
  | some g => g n
  | none => if n = 1 then 0 else 1

/-- `get` of a message in the plural. -/
def Catalog.getPlural (c : Catalog) (plural : Option (ℤ → ℤ)) (context : Option CString)
    (id : CString) (n : ℤ) :
    Option (Option Bytes) :=
  (c.getString context id).map fun r => r.bind fun r => r.form (formOf plural n)

end Locale

end Cppcms
