import Cppcms.Base.Bytes

/-!
# The map of the environment

`string_map`, a hash table with open addressing.  The entries are linked to each other, so that they
are all found when the table grows.  The keys and the values are strings that end at their first
zero.
-/

namespace Cppcms

/-- `string_hash::update_state`. -/
def hashUpdate (value : UInt32) (c : UInt8) : UInt32 :=
  let value := (value <<< 4) + c.toUInt32
  let high := value &&& 0xF0000000
  if high ≠ 0 then (value ^^^ (high >>> 24)) ^^^ high else value

/-- `entry::calc_hash`. -/
def calcHash (key : Bytes) : UInt32 := key.foldl hashUpdate 0

namespace StringMap

/-- `entry`.  A `next_index` of -1 is `none`. -/
structure Entry where
  key : Bytes
  value : Bytes
  hash : UInt32
  nextIndex : Option ℕ
  deriving DecidableEq, Repr

def Entry.of (key value : Bytes) : Entry := ⟨key, value, calcHash key, none⟩

/-- A slot without a key is `none`. -/
abbrev Slots := List (Option Entry)

end StringMap

open StringMap

structure StringMap where
  data : Slots
  total : ℕ
  first : Option ℕ
  deriving DecidableEq, Repr

namespace StringMap

/-- The constructor, and `clear`. -/
def init : StringMap := ⟨List.replicate 64 none, 0, none⟩

/-- The slot where the probing from `pos` stops. -/
def probe (stops : Option Entry → Bool) (d : Slots) : ℕ → ℕ → Option ℕ
  | 0, _ => none
  | fuel + 1, pos => if stops (d.getD pos none) then some pos
    else probe stops d fuel ((pos + 1) % d.length)

/-- `insert`: the slots and `first`. -/
def insert (d : Slots) (e : Entry) (first : Option ℕ) : Option (Slots × Option ℕ) :=
  (probe Option.isNone d d.length (e.hash.toNat % d.length)).map fun pos =>
    (d.set pos (some { e with nextIndex := first }), some pos)

/-- The loop over all entries that moves them to a new table. -/
def moveAll (d : Slots) : ℕ → Option ℕ → Slots → Option ℕ → Option (Slots × Option ℕ)
  | _, none, new, newFirst => some (new, newFirst)
  | 0, some _, _, _ => none
  | fuel + 1, some pos, new, newFirst => do
    let e ← d.getD pos none
    let (new, newFirst) ← insert new e newFirst
    moveAll d fuel e.nextIndex new newFirst

def add (m : StringMap) (key value : Bytes) : Option StringMap := do
  let (data, first) ←
    if m.total * 2 ≥ m.data.length then
      moveAll m.data m.data.length m.first (List.replicate (m.data.length * 2) none) none
    else some (m.data, m.first)
  let (data, first) ← insert data (.of key value) first
  return ⟨data, m.total + 1, first⟩

/-- `get`; the inner `none` is the null pointer. -/
def get (m : StringMap) (key : Bytes) : Option (Option Bytes) := do
  let pos ← probe (fun slot => slot.all fun e => e.hash = calcHash key ∧ e.key = key)
    m.data m.data.length
    ((calcHash key).toNat % m.data.length)
  return (m.data.getD pos none).map Entry.value

end StringMap

end Cppcms
