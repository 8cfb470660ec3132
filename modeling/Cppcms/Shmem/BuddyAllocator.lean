import Cppcms.Library.Memory
import Mathlib.Data.Nat.Bitwise

/-!
# The allocator of the shared memory

`buddy_allocator` of `buddy_allocator.h`, on a platform where pointers have 64 bits.  The memory
that it gives out is behind the object itself.  A page begins with its header, which tells its size
and whether it is in use, and links it with the other free pages of this size; what a caller gets is
behind the first 16 octets of the page, so it has the last field of the header in it.
-/

namespace Cppcms

namespace Shmem

/-- The fields of `page`. -/
inductive Field where
  | bits
  | next
  | prev
  deriving DecidableEq

namespace Field

def offset : Field → ℕ
  | bits => 0
  | next => 8
  | prev => 16

def width : Field → ℕ
  | bits => 4
  | next => 8
  | prev => 8

end Field

/-- A `buddy_allocator` at an address, and the octets of the address space.  A pointer is 0 if it is
null. -/
structure BuddyAllocator where
  octets : Memory
  self : ℕ
  freeList : ℕ → ℕ
  memorySize : ℕ
  maxBitSize : ℤ

namespace BuddyAllocator

/-- `sizeof(*this)`. -/
def sizeOfThis : ℕ := 544

/-- `sizeof(page)`. -/
def sizeOfPage : ℕ := 24

def alignmentBits : ℕ := 4

def alignment : ℕ := 2 ^ alignmentBits

def pageInUse : ℕ := 0x100

/-- `memory`. -/
def memory (s : BuddyAllocator) : ℕ := s.self + sizeOfThis

/-- A field of the page at an address. -/
def get (f : Field) (p : ℕ) (s : BuddyAllocator) : ℕ := s.octets.load f.width (p + f.offset)

/-- A value is given to a field of the page at an address. -/
def set (f : Field) (p v : ℕ) (s : BuddyAllocator) : BuddyAllocator :=
  { s with octets := s.octets.store f.width (p + f.offset) v }

/-- A value is given to a field of a page, if there is one. -/
def setIf (f : Field) (p v : ℕ) (s : BuddyAllocator) : BuddyAllocator :=
  if p = 0 then s else s.set f p v

/-- A value is given to an element of `free_list_`. -/
def setFree (bits p : ℕ) (s : BuddyAllocator) : BuddyAllocator :=
  { s with freeList := Function.update s.freeList bits p }

/-! ## Construction -/

/-- `containts_bits`. -/
def containtsBits (n : ℕ) : ℤ :=
  match (List.range' 1 62).reverse.find? fun i => 2 ^ i ≤ n ∧ n < 2 ^ (i + 1) with
  | some i => i
  | none => -1

lemma containtsBits_spec (n : ℕ) :
    containtsBits n = -1 ∧ (n < 2 ∨ 2 ^ 63 ≤ n) ∨
      ∃ i : ℕ, containtsBits n = i ∧ 1 ≤ i ∧ i ≤ 62 ∧ 2 ^ i ≤ n ∧ n < 2 ^ (i + 1) := by
  unfold containtsBits
  rcases hfind : (List.range' 1 62).reverse.find? fun i => 2 ^ i ≤ n ∧ n < 2 ^ (i + 1) with _ | i
  · refine .inl ⟨rfl, ?_⟩
    by_contra hcontra
    push Not at hcontra
    obtain ⟨hlow, hhigh⟩ := hcontra
    have hlog := Nat.log_lt_of_lt_pow (by omega : n ≠ 0) hhigh
    have hpos : 1 ≤ Nat.log 2 n := Nat.log_pos (by decide) hlow
    have hnot := List.find?_eq_none.mp hfind (Nat.log 2 n) (by
      rw [List.mem_reverse, List.mem_range'_1]
      omega)
    refine hnot
      (decide_eq_true ⟨Nat.pow_log_le_self 2 (by omega), Nat.lt_pow_succ_log_self (by decide) n⟩)
  · have hi := List.mem_of_find?_eq_some hfind
    rw [List.mem_reverse, List.mem_range'_1] at hi
    have hbounds : 2 ^ i ≤ n ∧ n < 2 ^ (i + 1) := by simpa using List.find?_some hfind
    exact .inr ⟨i, rfl, hi.1, by omega, hbounds.1, hbounds.2⟩

/-- The body of the loop of the constructor. -/
def addPage (bits pos : ℕ) (s : BuddyAllocator) : BuddyAllocator :=
  { (((s.set .bits pos bits).set .prev pos 0).set .next pos 0).setFree bits pos with
    maxBitSize := if s.maxBitSize = -1 then bits else s.maxBitSize }

/-- The loop of the constructor. -/
def addPages (pos reminder : ℕ) (s : BuddyAllocator) : BuddyAllocator :=
  if containtsBits reminder < alignmentBits + 1 then s
  else
    addPages (pos + 2 ^ (containtsBits reminder).toNat)
      (reminder - 2 ^ (containtsBits reminder).toNat)
      (s.addPage (containtsBits reminder).toNat pos)
termination_by reminder
decreasing_by
  rename_i h
  have hpos : 0 < 2 ^ (containtsBits reminder).toNat := Nat.two_pow_pos _
  rcases containtsBits_spec reminder with ⟨hnone, -⟩ | ⟨i, hi, -, -, hle, -⟩
  · rw [hnone] at h
    exact absurd (by decide) h
  · rw [hi, Int.toNat_natCast] at hpos ⊢
    omega

/-- The constructor of an object at an address. -/
def init (octets : Memory) (self memorySize : ℕ) : BuddyAllocator :=
  addPages (self + sizeOfThis) (memorySize - sizeOfThis)
    { octets
      self
      freeList := fun _ => 0
      memorySize := memorySize - sizeOfThis
      maxBitSize := -1 }

/-! ## Allocation -/

/-- The size of the page for a request, without the rounding to a power of two. -/
def roundUp (requiredSize : ℕ) : ℕ :=
  ((requiredSize + alignment - 1) % 2 ^ 64 / alignment + 1) * alignment % 2 ^ 64

/-- `get_bits`. -/
def getBits (n : ℕ) : ℕ := ((List.range 64).find? fun i => n ≤ 2 ^ i).getD 64

/-- The second half of a page becomes a free page. -/
def splitOff (toSplit bitSize : ℕ) (s : BuddyAllocator) : BuddyAllocator :=
  let unused := toSplit + 2 ^ bitSize
  (((s.set .prev unused 0).set .next unused 0).set .bits unused bitSize).setFree bitSize unused

/-- The first page of a list is taken out of it. -/
def disconnect (bitSize : ℕ) (s : BuddyAllocator) : BuddyAllocator :=
  let next := s.get .next (s.freeList bitSize)
  (s.setFree bitSize next).setIf .prev next 0

/-- What `page_alloc` does to its result. -/
def markUsed (result bitSize : ℕ) (s : BuddyAllocator) : BuddyAllocator :=
  ((s.set .next result 0).set .prev result 0).set .bits result (bitSize + pageInUse)

/-- `page_alloc` where so many sizes from `bit_size` on are not above `max_bit_size_`. -/
def pageAllocFrom : ℕ → ℕ → BuddyAllocator → ℕ × BuddyAllocator
  | 0, _, s => (0, s)
  | levels + 1, bitSize, s =>
    if s.freeList bitSize = 0 then
      let (toSplit, s) := pageAllocFrom levels (bitSize + 1) s
      if toSplit = 0 then (0, s)
        else (toSplit, (s.splitOff toSplit bitSize).markUsed toSplit bitSize)
    else (s.freeList bitSize, (s.disconnect bitSize).markUsed (s.freeList bitSize) bitSize)

/-- `page_alloc`. -/
def pageAlloc (bitSize : ℕ) (s : BuddyAllocator) : ℕ × BuddyAllocator :=
  pageAllocFrom (s.maxBitSize + 1 - bitSize).toNat bitSize s

/-- `malloc`. -/
def malloc (requiredSize : ℕ) (s : BuddyAllocator) : ℕ × BuddyAllocator :=
  let (p, s) := s.pageAlloc (getBits (roundUp requiredSize))
  (if p = 0 then 0 else p + alignment, s)

/-! ## Freeing -/

/-- `get_buddy`; a shift by 64 or more is not defined. -/
def getBuddy (p : ℕ) (s : BuddyAllocator) : Option ℕ :=
  let bits := s.get .bits p
  let bPtr := 2 ^ bits ^^^ (p - s.memory)
  if 64 ≤ bits then none
  else if s.memorySize < (bPtr + 2 ^ bits) % 2 ^ 64 then some 0
  else some (bPtr + s.memory)

/-- The buddy is taken out of its list. -/
def unlinkBuddy (buddy bits : ℕ) (s : BuddyAllocator) : BuddyAllocator :=
  let bnext := s.get .next buddy
  let bprev := s.get .prev buddy
  let s := (s.setIf .prev bnext bprev).setIf .next bprev bnext
  if bprev = 0 then s.setFree bits bnext else s

/-- The page is put at the front of its list. -/
def giveBack (p bits : ℕ) (s : BuddyAllocator) : BuddyAllocator :=
  let next := s.freeList bits
  (((s.set .next p next).set .prev p 0).setIf .prev next p).setFree bits p

/-- The loop of `free_page`, in which the size of the page grows. -/
def freePageFrom : ℕ → ℕ → BuddyAllocator → Option BuddyAllocator
  | 0, _, _ => none
  | fuel + 1, p, s =>
    let bits := s.get .bits p - pageInUse
    let s := s.set .bits p bits
    (s.getBuddy p).bind fun buddy =>
      if buddy ≠ 0 ∧ s.get .bits buddy = bits then
        let p := if buddy < p then buddy else p
        freePageFrom fuel p ((s.unlinkBuddy buddy bits).set .bits p (bits + 1 + pageInUse))
      else some (s.giveBack p bits)

/-- `free_page`; it is `none` if the assertion fails. -/
def freePage (p : ℕ) (s : BuddyAllocator) : Option BuddyAllocator :=
  if (s.get .bits p).testBit 8 then freePageFrom 65 p s else none

/-- `free`. -/
def free (ptr : ℕ) (s : BuddyAllocator) : Option BuddyAllocator :=
  if ptr = 0 then some s
  else if (s.get .bits (ptr - alignment)).testBit 8 then s.freePage (ptr - alignment)
  else none

/-! ## What is free -/

/-- How many pages are linked from a page on, if the list has not more than `fuel`. -/
def count (s : BuddyAllocator) : ℕ → ℕ → Option ℕ
  | _, 0 => some 0
  | 0, _ => none
  | fuel + 1, p => (s.count fuel (s.get .next p)).map (· + 1)

/-- `total_free_at`.  There are not more pages than octets, unless the list has no end. -/
def totalFreeAt (bits : ℕ) (s : BuddyAllocator) : Option ℕ :=
  (s.count s.memorySize (s.freeList bits)).map fun count =>
    count * ((2 ^ bits + 2 ^ 64 - alignment) % 2 ^ 64) % 2 ^ 64

/-- `max_free_chunk`. -/
def maxFreeChunk (s : BuddyAllocator) : Option ℕ :=
  match (List.range' 1 63).reverse.find? fun bits => s.freeList bits ≠ 0 with
  | some bits => s.totalFreeAt bits
  | none => some 0

end BuddyAllocator

end Shmem

end Cppcms
