import Cppcms.Shmem.BuddyCalls
import Cppcms.Library.Machine

/-!
# The allocator at work

The pages after the construction tile the memory but for a rest that is too small for one.  Those
who use the memory ask for blocks, write to them and give them back; a run of such calls keeps the
layout.
-/

namespace Cppcms

namespace Shmem

open BuddySystem DoublyLinked

namespace BuddyAllocator

variable {s : BuddyAllocator} {g : Field} {bits done reminder x y : ℕ} {L : Layout}

/-! ## Construction -/

/-- The pages that the loop of the constructor has made. -/
structure Building (s : BuddyAllocator) (L : Layout) (done reminder : ℕ) : Prop where
  tiles : L.Tiles 5 done
  sum : done + reminder = s.memorySize
  in_space : s.memory + s.memorySize ≤ 2 ^ 64
  free : ∀ {x p}, L x = some p → p.used = false
  lt_pow : ∀ {x p}, L x = some p → reminder < 2 ^ p.order
  unique : ∀ {x y p}, L x = some p → L y = some p → x = y
  dvd : ∀ {i}, 2 ^ i ≤ reminder → 2 ^ i ∣ done
  header : ∀ {x p}, L x = some p →
    s.get .bits (s.memory + x) = p.order + if p.used then pageInUse else 0
  lists : ∀ o, Lists s L o
  max : done = 0 ∧ s.maxBitSize = -1 ∨
    0 < done ∧ reminder < 2 ^ 63 ∧ ∃ b : ℕ, s.maxBitSize = b ∧ b < 63 ∧ s.memorySize < 2 ^ (b + 1)

lemma get_addPage {p q : ℕ} (h : p ≡ q [MOD 32]) (hbits : bits < 64) :
    (s.addPage bits p).get g q = if q = p then if g = .bits then bits else 0 else s.get g q := by
  have hwidth : 256 ^ Field.bits.width = 2 ^ 32 := rfl
  have hvalue : bits < 256 ^ Field.bits.width := by omega
  have hsame : (s.addPage bits p).get g q =
    (((s.set .bits p bits).set .prev p 0).set .next p 0).get g q := rfl
  rw [hsame, get_set zero_lt_width h, get_set zero_lt_width h, get_set hvalue h]
  cases g <;> simp

/-- A round of the loop. -/
lemma Building.addPage (h : Building s L done reminder) (hfive : 5 ≤ bits) (hlt : bits < 63)
    (hle : 2 ^ bits ≤ reminder) (hless : reminder < 2 ^ (bits + 1)) :
    Building (s.addPage bits (s.memory + done)) (L.set done (some ⟨bits, false⟩)) (done + 2 ^ bits)
      (reminder - 2 ^ bits) := by
  have hgrow : 2 ^ (bits + 1) = 2 ^ bits + 2 ^ bits := by rw [pow_succ, Nat.mul_two]
  have hpos : 0 < 2 ^ bits := Nat.two_pow_pos bits
  have hfive' : 2 ^ 5 ∣ 2 ^ bits := Nat.pow_dvd_pow 2 hfive
  have hdone : 2 ^ bits ∣ done := h.dvd hle
  have hdone' : 2 ^ 5 ∣ done := hfive'.trans hdone
  have hmod : ∀ {y page}, L y = some page → s.memory + done ≡ s.memory + y [MOD 32] := by
    intro y page hy
    have hdvd : 2 ^ 5 ∣ y := (Nat.pow_dvd_pow 2 (h.tiles.order_ge hy)).trans (h.tiles.dvd hy)
    unfold Nat.ModEq
    omega
  have hbefore : ∀ {y page}, L y = some page → y ≠ done := by
    rintro y page hy rfl
    have hin := h.tiles.inside hy
    have hpow : 0 < 2 ^ page.order := Nat.two_pow_pos _
    omega
  have horder : ∀ {y o u}, L y = some ⟨o, u⟩ → o ≠ bits := by
    rintro y o u hy rfl
    have hsmall := h.lt_pow hy
    dsimp only at hsmall
    omega
  have hold : ∀ {g y page}, L y = some page →
      (s.addPage bits (s.memory + done)).get g (s.memory + y) = s.get g (s.memory + y) := by
    intro g y page hy
    rw [get_addPage (hmod hy) (by omega), if_neg]
    have hne := hbefore hy
    omega
  have hmemory : (s.addPage bits (s.memory + done)).memory = s.memory := rfl
  constructor
  · exact h.tiles.append false hfive hdone
  · show done + 2 ^ bits + (reminder - 2 ^ bits) = s.memorySize
    have hsum := h.sum
    omega
  · exact h.in_space
  · intro y page hy
    rcases Layout.set_eq_some.mp hy with ⟨-, hpage⟩ | ⟨-, hpage⟩
    · rw [← Option.some.inj hpage]
    · exact h.free hpage
  · intro y page hy
    rcases Layout.set_eq_some.mp hy with ⟨-, hpage⟩ | ⟨-, hpage⟩
    · rw [← Option.some.inj hpage]
      show reminder - 2 ^ bits < 2 ^ bits
      omega
    · have hsmall := h.lt_pow hpage
      omega
  · intro y w page hy hw
    rcases Layout.set_eq_some.mp hy with ⟨rfl, hpage⟩ | ⟨-, hpage⟩
    · rcases Layout.set_eq_some.mp hw with ⟨rfl, -⟩ | ⟨-, hpage'⟩
      · rfl
      · rw [← Option.some.inj hpage] at hpage'
        exact absurd rfl (horder hpage')
    · rcases Layout.set_eq_some.mp hw with ⟨rfl, hpage'⟩ | ⟨-, hpage'⟩
      · rw [← Option.some.inj hpage'] at hpage
        exact absurd rfl (horder hpage)
      · exact h.unique hpage hpage'
  · intro i hi
    have hsmall : i ≤ bits := by
      by_contra hcontra
      have hlarge : 2 ^ bits ≤ 2 ^ i := Nat.pow_le_pow_right Nat.two_pos (by omega)
      omega
    exact Nat.dvd_add (h.dvd (by omega)) (Nat.pow_dvd_pow 2 hsmall)
  · intro y page hy
    rw [hmemory]
    rcases Layout.set_eq_some.mp hy with ⟨rfl, hpage⟩ | ⟨-, hpage⟩
    · rw [get_addPage rfl (by omega), if_pos rfl, if_pos rfl, ← Option.some.inj hpage]
      rfl
    · rw [hold hpage]
      exact h.header hpage
  · intro o
    by_cases ho : o = bits
    · subst ho
      refine ⟨[s.memory + done], ?_, fun q => ?_⟩
      · have hfirst : (s.addPage o (s.memory + done)).freeList o = s.memory + done :=
          Function.update_self _ _ _
        have hlink : ∀ g, g ≠ .bits →
            (s.addPage o (s.memory + done)).get g (s.memory + done) = 0 := by
          intro g hg
          rw [get_addPage rfl (by omega), if_pos rfl, if_neg hg]
        have hmem := Describes.memory_pos s
        exact ⟨hfirst, by omega, hlink .prev (by decide), hlink .next (by decide)⟩
      · rw [hmemory, List.mem_singleton]
        constructor
        · rintro rfl
          exact ⟨done, rfl, Layout.set_self _ _ _⟩
        · rintro ⟨y, rfl, hy⟩
          rcases Layout.set_eq_some.mp hy with ⟨rfl, -⟩ | ⟨-, hpage⟩
          · rfl
          · exact absurd rfl (horder hpage)
    · refine Describes.lists_of_unchanged (h.lists o) hmemory ?_ (fun y => ?_) fun y hy g _ =>
        hold hy
      · exact Function.update_of_ne ho _ _
      · rw [Layout.set_eq_some]
        constructor
        · rintro (⟨-, hpage⟩ | ⟨-, hpage⟩)
          · exact absurd (congrArg Page.order (Option.some.inj hpage)).symm ho
          · exact hpage
        · exact fun hpage => .inr ⟨hbefore hpage, hpage⟩
  · have hmax : (s.addPage bits (s.memory + done)).maxBitSize = if s.maxBitSize =
        -1 then (bits : ℤ) else s.maxBitSize := by
      show (if _ then _ else _) = _
      split_ifs <;> rfl
    have hpow63 : 2 ^ (bits + 1) ≤ 2 ^ 63 := Nat.pow_le_pow_right Nat.two_pos (by omega)
    refine .inr ⟨by omega, by omega, ?_⟩
    rw [hmax]
    rcases h.max with ⟨hzero, hnone⟩ | ⟨-, -, b, hb, hb63, hsize⟩
    · rw [if_pos hnone]
      refine ⟨bits, rfl, hlt, ?_⟩
      show s.memorySize < 2 ^ (bits + 1)
      have hsum := h.sum
      omega
    · rw [if_neg (by omega)]
      exact ⟨b, hb, hb63, hsize⟩

/-- The allocator as it is constructed: no page is in use, and nothing can be merged. -/
structure Fresh (s : BuddyAllocator) (L : Layout) (total : ℕ) : Prop where
  describes : Describes s L total
  merged : L.Merged
  free : ∀ x p, L x = some p → p.used = false
  inside : total ≤ s.memorySize
  rest : s.memorySize < 2 ^ 63 → s.memorySize < total + 32

/-- The loop ends where what remains is too small for a page. -/
lemma Building.fresh (h : Building s L done reminder)
    (hstop : containtsBits reminder < alignmentBits + 1) :
    Fresh s L done := by
  have hsum := h.sum
  have hrest : reminder < 32 ∨ 2 ^ 63 ≤ reminder := by
    rcases containtsBits_spec reminder with ⟨-, hsmall | hlarge⟩ | ⟨i, hi, -, -, -, hless⟩
    · exact .inl (by omega)
    · exact .inr hlarge
    · have hfour : i ≤ 4 := by
        have halign : (alignmentBits : ℤ) = 4 := rfl
        omega
      have hpow : 2 ^ (i + 1) ≤ 2 ^ 5 := Nat.pow_le_pow_right Nat.two_pos (by omega)
      exact .inl (by omega)
  have hmerged : L.Merged := by
    intro x o hx hbuddy
    have hpos : 0 < 2 ^ o := Nat.two_pow_pos o
    have hsame := h.unique hx hbuddy
    obtain ⟨z, -, hhalves⟩ : ∃ z, 2 ^ (o + 1) ∣ z ∧
        (x = z ∧ buddy o x = z + 2 ^ o ∨ x = z + 2 ^ o ∧ buddy o x = z) :=
      halves (h.tiles.dvd hx)
    omega
  refine ⟨⟨⟨by omega, ?_, h.in_space, ?_, ?_⟩, h.tiles, h.header, h.lists⟩, hmerged, fun _ _ =>
    h.free, by omega, ?_⟩
  · intro hpos
    rcases h.max with ⟨hzero, -⟩ | ⟨-, hless, -⟩ <;> omega
  · intro o ho
    have hpow : 0 < 2 ^ o := Nat.two_pow_pos o
    rcases h.max with ⟨hzero, -⟩ | ⟨-, -, b, hb, -, hsize⟩
    · omega
    · rw [hb]
      by_contra hcontra
      have hlarge : 2 ^ (b + 1) ≤ 2 ^ o := Nat.pow_le_pow_right Nat.two_pos (by omega)
      omega
  · rcases h.max with ⟨-, hmax⟩ | ⟨-, -, b, hb, hb63, -⟩ <;> omega
  · intro hsmall
    omega

/-- The loop makes pages of the memory. -/
lemma Building.addPages (h : Building s L done reminder) :
    ∃ L' total, Fresh (addPages (s.memory + done) reminder s) L' total ∧
      (addPages (s.memory + done) reminder s).memory = s.memory ∧
      (addPages (s.memory + done) reminder s).memorySize = s.memorySize := by
  induction reminder using Nat.strong_induction_on generalizing s L done with
  | _ reminder ih =>
    rw [BuddyAllocator.addPages]
    by_cases hstop : containtsBits reminder < alignmentBits + 1
    · rw [if_pos hstop]
      exact ⟨L, done, h.fresh hstop, rfl, rfl⟩
    · rw [if_neg hstop]
      rcases containtsBits_spec reminder with ⟨hnone, -⟩ | ⟨i, hi, -, hi62, hle, hless⟩
      · rw [hnone] at hstop
        exact absurd (by decide) hstop
      · rw [hi] at hstop ⊢
        have halign : (alignmentBits : ℤ) = 4 := rfl
        have hpos : 0 < 2 ^ i := Nat.two_pow_pos i
        have hnext := h.addPage (by omega) (by omega) hle hless
        have hrest := ih (reminder - 2 ^ i) (by omega) hnext
        have hmemory : (s.addPage i (s.memory + done)).memory = s.memory := rfl
        rw [hmemory, ← Nat.add_assoc] at hrest
        rw [Int.toNat_natCast]
        exact hrest

/-- The memory for an allocator at an address is large enough, and part of the address space. -/
structure Provided (address memorySize : ℕ) : Prop where
  le_size : sizeOfThis ≤ memorySize
  in_space : address + memorySize ≤ 2 ^ 64

theorem init_fresh (octets : Memory) {address memorySize : ℕ} (h : Provided address memorySize) :
    ∃ L total, Fresh (init octets address memorySize) L total ∧
      (init octets address memorySize).memory = address + sizeOfThis ∧
      (init octets address memorySize).memorySize = memorySize - sizeOfThis := by
  have hle := h.le_size
  have hspace := h.in_space
  have hstart : Building ⟨octets, address, fun _ => 0, memorySize - sizeOfThis, -1⟩
    (fun _ => none) 0
      (memorySize - sizeOfThis) := by
    refine ⟨Layout.tiles_empty 5, Nat.zero_add _, ?_, fun h => absurd h (by simp), fun h =>
      absurd h (by simp), fun h => absurd h (by simp), fun _ => Nat.dvd_zero _, fun h =>
        absurd h (by simp), fun o => ⟨[], rfl, fun q => by simp⟩,
      .inl ⟨rfl, rfl⟩⟩
    show address + sizeOfThis + (memorySize - sizeOfThis) ≤ 2 ^ 64
    omega
  exact hstart.addPages

end BuddyAllocator

open BuddyAllocator

/-! ## Runs -/

/-- The allocator, and the blocks that those who use the memory have got and not given back. -/
structure Heap where
  allocator : BuddyAllocator
  live : List ℕ

/-- What those who use the memory do: they call the allocator, or write to a block. -/
inductive Call where
  | malloc (requiredSize : ℕ)
  | free (ptr : ℕ)
  | write (address : ℕ) (octet : UInt8)

namespace Heap

/-- Nothing is in use. -/
def init (octets : Memory) (address memorySize : ℕ) : Heap :=
  ⟨BuddyAllocator.init octets address memorySize, []⟩

def step (u : Heap) : Call → Heap
  | .malloc n =>
    ⟨(u.allocator.malloc n).2, if (u.allocator.malloc n).1 =
      0 then u.live else (u.allocator.malloc n).1 :: u.live⟩
  | .free ptr =>
    match u.allocator.free ptr with
    | some s => ⟨s, u.live.filter (· ≠ ptr)⟩
    | none => u
  | .write a c =>
      { u with allocator := { u.allocator with octets := Function.update u.allocator.octets a c } }

variable {s : BuddyAllocator} {u : Heap}

lemma step_malloc {n ptr : ℕ} (h : u.allocator.malloc n = (ptr, s)) :
    u.step (.malloc n) = ⟨s, if ptr = 0 then u.live else ptr :: u.live⟩ := by
  show Heap.mk (u.allocator.malloc n).2 _ = _
  rw [h]

lemma step_free {ptr : ℕ} (h : u.allocator.free ptr = some s) :
    u.step (.free ptr) = ⟨s, u.live.filter (· ≠ ptr)⟩ := by
  unfold step
  simp only [h]

/-- Where the page of a block ends. -/
def blockEnd (u : Heap) (ptr : ℕ) : ℕ :=
  ptr - alignment + 2 ^ (u.allocator.get .bits (ptr - alignment) - pageInUse)

/-- What those who use the memory may do. -/
def Allowed (u : Heap) : Call → Prop
  | .malloc n => n < 2 ^ 64
  | .free ptr => ptr = 0 ∨ ptr ∈ u.live
  | .write a _ => ∃ ptr ∈ u.live, ptr ≤ a ∧ a < u.blockEnd ptr

/-- A size is neither 0 nor so close to the greatest one that its rounding overflows, or there is no
free page. -/
def Ordinary (u : Heap) : Call → Prop
  | .malloc n => 1 ≤ n ∧ n ≤ 2 ^ 64 - 32 ∨ ∀ bits, u.allocator.freeList bits = 0
  | _ => True

/-- The pages of the list of free pages of a size. -/
inductive OnList (s : BuddyAllocator) (bits : ℕ) : ℕ → Prop where
  | first : s.freeList bits ≠ 0 → OnList s bits (s.freeList bits)
  | next {p : ℕ} : OnList s bits p → s.get .next p ≠ 0 → OnList s bits (s.get .next p)

/-- A page of an order is in use. -/
def InUse (u : Heap) (p o : ℕ) : Prop :=
  p + alignment ∈ u.live ∧ u.allocator.get .bits p = o + pageInUse

/-- A page of an order is in use or free. -/
def IsPage (u : Heap) (p o : ℕ) : Prop := OnList u.allocator o p ∨ u.InUse p o

/-- The pages in use are those of the blocks, and no free pages could be merged. -/
structure Valid (u : Heap) (L : Layout) (total : ℕ) : Prop where
  describes : Describes u.allocator L total
  merged : L.Merged
  live : ∀ ptr, ptr ∈ u.live ↔ ∃ x o, ptr = u.allocator.memory + x + alignment ∧
    L x = some ⟨o, true⟩

variable {u : Heap} {L : Layout} {p o total : ℕ}

lemma onList_iff {l : List ℕ} {before first : ℕ}
    (h : Linked (fun q => s.get .next q) (fun q => s.get .prev q) 0 before l first)
    (hfirst : s.freeList o = first) :
    OnList s o p ↔ p ∈ l := by
  constructor
  · intro hp
    induction hp with
    | first hne =>
      rcases l with _ | ⟨a, l⟩
      · exact absurd (hfirst.trans h) hne
      · rw [hfirst, h.1]
        exact List.mem_cons_self
    | next _ hne ih => exact (h.next_mem ih).resolve_left hne
  · have hall : ∀ {l before first},
      Linked (fun q => s.get .next q) (fun q => s.get .prev q) 0 before l first →
        (first ≠ 0 → OnList s o first) → ∀ q ∈ l, OnList s o q := by
      intro l
      induction l with
      | nil => exact fun _ _ q hq => absurd hq List.not_mem_nil
      | cons a l ih =>
        intro before first h hon q hq
        obtain ⟨rfl, hne, -, hrest⟩ := h
        rcases List.mem_cons.mp hq with rfl | hin
        · exact hon hne
        · exact ih hrest (.next (hon hne)) q hin
    refine hall h (fun hne => ?_) p
    rw [← hfirst] at hne ⊢
    exact .first hne

namespace Valid

lemma onList_iff (h : Valid u L total) :
    OnList u.allocator o p ↔ ∃ x, p = u.allocator.memory + x ∧ L x = some ⟨o, false⟩ := by
  obtain ⟨l, hl, hmem⟩ := h.describes.lists o
  rw [Heap.onList_iff hl rfl, hmem]

lemma inUse_iff (h : Valid u L total) :
    u.InUse p o ↔ ∃ x, p = u.allocator.memory + x ∧ L x = some ⟨o, true⟩ := by
  unfold InUse
  rw [h.live]
  constructor
  · rintro ⟨⟨x, o', heq, hx⟩, hheader⟩
    obtain rfl : p = u.allocator.memory + x := by omega
    rw [h.describes.header hx] at hheader
    obtain rfl : o' = o := Nat.add_right_cancel hheader
    exact ⟨x, rfl, hx⟩
  · rintro ⟨x, rfl, hx⟩
    exact ⟨⟨x, o, rfl, hx⟩, h.describes.header hx⟩

/-- The pages are those of the layout. -/
lemma isPage_iff (h : Valid u L total) :
    u.IsPage p o ↔ ∃ x b, p = u.allocator.memory + x ∧ L x = some ⟨o, b⟩ := by
  unfold IsPage
  rw [h.onList_iff, h.inUse_iff]
  constructor
  · rintro (⟨x, hp, hx⟩ | ⟨x, hp, hx⟩)
    · exact ⟨x, false, hp, hx⟩
    · exact ⟨x, true, hp, hx⟩
  · rintro ⟨x, _ | _, hp, hx⟩
    · exact .inl ⟨x, hp, hx⟩
    · exact .inr ⟨x, hp, hx⟩

/-- What is written in a block is not in a header, but for the last field of that of its page. -/
lemma write (h : Valid u L total) {a : ℕ} {c : UInt8} (hallowed : u.Allowed (.write a c)) :
    Valid (u.step (.write a c)) L total := by
  obtain ⟨ptr, hptr, hle, hlt⟩ := hallowed
  obtain ⟨x, o, rfl, hx⟩ := (h.live ptr).mp hptr
  have halign : alignment = 16 := rfl
  have hend : u.blockEnd (u.allocator.memory + x + alignment) = u.allocator.memory + x + 2 ^ o := by
    unfold blockEnd
    rw [Nat.add_sub_cancel, h.describes.header hx]
    show u.allocator.memory + x + 2 ^ (o + pageInUse - pageInUse) = _
    rw [Nat.add_sub_cancel]
  rw [hend] at hlt
  refine ⟨h.describes.of_get rfl rfl fun {y page g} hy hused => ?_, h.merged, h.live⟩
  show (Memory.load g.width _ _) = Memory.load g.width _ _
  unfold Memory.load
  refine congrArg fromLittleEndian (Memory.read_congr fun b hb hb' => Function.update_of_ne ?_ _ _)
  have hfield : g.offset + g.width ≤ 24 := by rcases g with _ | _ | _ <;> decide
  have hsize := h.describes.le_pow hy
  rcases Nat.lt_trichotomy y x with hbefore | rfl | hbehind
  · have hdisjoint := h.describes.tiles.disjoint hy hx hbefore
    omega
  · -- the field of a page in use that matters is not in the block
    obtain rfl : page = ⟨o, true⟩ := Option.some.inj (hy.symm.trans hx)
    obtain rfl := hused rfl
    have hfour : Field.bits.offset + Field.bits.width = 4 := rfl
    omega
  · have hdisjoint : x + 2 ^ o ≤ y := h.describes.tiles.disjoint hx hy hbehind
    omega

/-- A page is in the memory, and has room for its header. -/
lemma size_le (h : Valid u L total) (hp : u.IsPage p o) :
    sizeOfPage ≤ 2 ^ o ∧ u.allocator.memory ≤ p ∧
    p + 2 ^ o ≤ u.allocator.memory + u.allocator.memorySize := by
  obtain ⟨x, b, rfl, hx⟩ := h.isPage_iff.mp hp
  have hin : x + 2 ^ o ≤ total := h.describes.tiles.inside hx
  have hle := h.describes.arena.total_le
  have hsize : 2 ^ 5 ≤ 2 ^ o := h.describes.le_pow hx
  have hheader : sizeOfPage = 24 := rfl
  omega

variable {L' : Layout} {s' : BuddyAllocator} {x : ℕ}

/-- A block is given to the users. -/
lemma allocated (h : Valid u L total) (hallocated : Allocated u.allocator L s' L' x o total) :
    Valid ⟨s', (u.allocator.memory + x + alignment) :: u.live⟩ L' total := by
  refine ⟨hallocated.describes, hallocated.merged h.merged, fun ptr => ?_⟩
  rw [memory_of_arena hallocated.arena, List.mem_cons, h.live]
  simp only [hallocated.used]
  constructor
  · rintro (rfl | ⟨y, q, rfl, hy⟩)
    · exact ⟨x, o, rfl, .inl ⟨rfl, rfl⟩⟩
    · exact ⟨y, q, rfl, .inr hy⟩
  · rintro ⟨y, q, rfl, ⟨rfl, rfl⟩ | hy⟩
    · exact .inl rfl
    · exact .inr ⟨y, q, rfl, hy⟩

/-- A block is given back. -/
lemma freed (h : Valid u L total) (hfreed : Freed u.allocator L s' L' x total) :
    Valid ⟨s', u.live.filter (· ≠ u.allocator.memory + x + alignment)⟩ L' total := by
  refine ⟨hfreed.describes, hfreed.merged h.merged, fun ptr => ?_⟩
  rw [memory_of_arena hfreed.arena, List.mem_filter, h.live]
  simp only [hfreed.used, decide_eq_true_eq]
  constructor
  · rintro ⟨⟨y, q, rfl, hy⟩, hne⟩
    exact ⟨y, q, rfl, fun heq => hne (by rw [heq]), hy⟩
  · rintro ⟨y, q, rfl, hyx, hy⟩
    exact ⟨⟨y, q, rfl, hy⟩, by omega⟩

end Valid

lemma valid_init (octets : Memory) {address memorySize : ℕ}
    (h : Fresh (BuddyAllocator.init octets address memorySize) L total) :
    (init octets address memorySize).Valid L total := by
  refine ⟨h.describes, h.merged, fun ptr => iff_of_false List.not_mem_nil ?_⟩
  rintro ⟨x, o, -, hx⟩
  exact absurd (h.free x _ hx) (by simp)

end Heap

end Shmem

end Cppcms
