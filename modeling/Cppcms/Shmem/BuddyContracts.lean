import Cppcms.Shmem.BuddyRuns

/-!
# What the users of the allocator rely on

A block has room for what was asked for, and headers of pages stay inside of them, as long as no
size is 0 or so close to the greatest one that its rounding overflows.  `max_free_chunk` counts all
pages of the greatest size that is free, so it is right exactly if there are not two of them.
-/

namespace Cppcms

namespace Shmem

open BuddySystem DoublyLinked BuddyAllocator

namespace Heap

/-! ## Sizes -/

/-- A page of an order lies in the memory, and has room for its header. -/
structure Inside (u : Heap) (p o : ℕ) : Prop where
  header : sizeOfPage ≤ 2 ^ o
  lower : u.allocator.memory ≤ p
  upper : p + 2 ^ o ≤ u.allocator.memory + u.allocator.memorySize

/-- A block of so many octets lies in its page, behind the first octets of it, and the page in the
memory. -/
def HasRoom (u : Heap) (ptr n : ℕ) : Prop :=
  ∃ p o, ptr = p + alignment ∧ u.InUse p o ∧ ptr + n ≤ p + 2 ^ o ∧ u.Inside p o

/-- A call writes only in headers, and they are inside of their pages. -/
structure HeadersFit (u u' : Heap) : Prop where
  pages : ∀ p o, u.IsPage p o ∨ u'.IsPage p o → u.Inside p o
  written : ∀ a, u'.allocator.octets a ≠ u.allocator.octets a →
    ∃ p o, (u.IsPage p o ∨ u'.IsPage p o) ∧ p ≤ a ∧ a < p + sizeOfPage

/-- What a call is expected to do. -/
def Contract (u : Heap) : Call → Prop
  | .malloc n =>
    ((u.allocator.malloc n).1 = 0 ∨ (u.step (.malloc n)).HasRoom (u.allocator.malloc n).1 n) ∧
      u.HeadersFit (u.step (.malloc n))
  | .free ptr => (u.allocator.free ptr).isSome ∧ u.HeadersFit (u.step (.free ptr))
  | .write _ _ => True

/-- The pages in use are those of the blocks. -/
def Sound (u : Heap) : Prop := ∃ L total, Valid u L total

variable {u : Heap} {L : Layout} {p o n total : ℕ}

lemma Valid.inside (h : Valid u L total) (hp : u.IsPage p o) : u.Inside p o := by
  obtain ⟨hheader, hlower, hupper⟩ := h.size_le hp
  exact ⟨hheader, hlower, hupper⟩

variable {u' : Heap} {L' : Layout} {y : ℕ} {bits : ℕ}

lemma Inside.of_arena (h : u'.Inside p o) (harena : u'.allocator.arena = u.allocator.arena) :
    u.Inside p o := by
  have hmemory := memory_of_arena harena
  have hsize : u'.allocator.memorySize = u.allocator.memorySize :=
    congrArg (fun a : ℕ × ℕ × ℤ => a.2.1) harena
  have hlower := h.lower
  have hupper := h.upper
  exact ⟨h.header, by omega, by omega⟩

lemma Valid.headersFit {P : ℕ → Prop} (h : Valid u L total) (h' : Valid u' L' total)
    (harena : u'.allocator.arena = u.allocator.arena) (hwrites : Writes u.allocator u'.allocator P)
    (hP : ∀ p, P p → ∃ o, u.IsPage p o ∨ u'.IsPage p o) : u.HeadersFit u' := by
  constructor
  · rintro p o (hp | hp)
    · exact h.inside hp
    · exact (h'.inside hp).of_arena harena
  · intro a ha
    obtain ⟨p, hp, hle, hlt⟩ := hwrites a ha
    obtain ⟨o, hpage⟩ := hP p hp
    exact ⟨p, o, hpage, hle, hlt⟩

lemma Valid.headersFit_self (h : Valid u L total) : u.HeadersFit u :=
  h.headersFit h rfl (Writes.refl _ fun _ => False) fun _ hcontra => hcontra.elim

/-- `malloc` where it finds a page. -/
lemma Valid.step_allocated (h : Valid u L total) {s' : BuddyAllocator} {x : ℕ}
    (hmalloc : u.allocator.malloc n = (u.allocator.memory + x + alignment, s'))
    (hallocated : Allocated u.allocator L s' L' x o total) (hroom : n + 16 ≤ 2 ^ o) :
    (u.step (.malloc n)).Valid L' total ∧ (u.step (.malloc n)).HasRoom (u.allocator.malloc n).1 n ∧
      u.HeadersFit (u.step (.malloc n)) := by
  have halign : alignment = 16 := rfl
  have hpos : u.allocator.memory + x + alignment ≠ 0 := by omega
  have hstep : u.step (.malloc n) = ⟨s', (u.allocator.memory + x + alignment) :: u.live⟩ := by
    rw [step_malloc hmalloc, if_neg hpos]
  have hvalid := h.allocated hallocated
  rw [hstep, hmalloc]
  have hinUse : Heap.InUse ⟨s', (u.allocator.memory + x + alignment) :: u.live⟩
      (u.allocator.memory + x) o := by
    refine hvalid.inUse_iff.mpr ⟨x, ?_, hallocated.used.mpr (.inl ⟨rfl, rfl⟩)⟩
    exact congrArg (· + x) (memory_of_arena hallocated.arena).symm
  refine ⟨hvalid, ⟨_, o, rfl, hinUse, by omega, hvalid.inside (.inr hinUse)⟩, ?_⟩
  refine h.headersFit hvalid hallocated.arena hallocated.writes ?_
  rintro p ⟨y, page, rfl, hy⟩
  refine ⟨page.order, .inr (hvalid.isPage_iff.mpr ⟨y, page.used, ?_, hy⟩)⟩
  exact congrArg (· + y) (memory_of_arena hallocated.arena).symm

/-- Every call keeps the pages, and does what is expected. -/
lemma Valid.step (h : Valid u L total) (c : Call) (hallowed : u.Allowed c)
    (hordinary : u.Ordinary c) :
    (∃ L', (u.step c).Valid L' total) ∧ u.Contract c := by
  cases c with
  | malloc n =>
    have hnone : u.allocator.malloc n = (0, u.allocator) →
        (∃ L', (u.step (.malloc n)).Valid L' total) ∧ u.Contract (.malloc n) := by
      intro hmalloc
      have hstep : u.step (.malloc n) = u := step_malloc hmalloc
      have hcontract :
        ((u.allocator.malloc n).1 = 0 ∨ (u.step (.malloc n)).HasRoom (u.allocator.malloc n).1 n) ∧
          u.HeadersFit (u.step (.malloc n)) := by
        rw [hstep, hmalloc]
        exact ⟨.inl rfl, h.headersFit_self⟩
      exact ⟨⟨L, hstep.symm ▸ h⟩, hcontract⟩
    rcases hordinary with hn | hempty
    · rcases malloc_spec h.describes hn with ⟨hmalloc, -⟩ |
        ⟨x, s', L', o, hmalloc, hallocated, hroom⟩
      · exact hnone hmalloc
      · obtain ⟨hvalid, hhas, hfit⟩ := h.step_allocated hmalloc hallocated hroom
        exact ⟨⟨L', hvalid⟩, .inr hhas, hfit⟩
    · exact hnone (malloc_of_empty n hempty)
  | free ptr =>
    rcases hallowed with rfl | hptr
    · have hstep : u.step (.free 0) = ⟨u.allocator, u.live.filter (· ≠ 0)⟩ := rfl
      have hvalid : (u.step (.free 0)).Valid L total := by
        refine ⟨h.describes, h.merged, fun ptr => ?_⟩
        rw [hstep, List.mem_filter]
        dsimp only
        rw [h.live]
        have halign : alignment = 16 := rfl
        constructor
        · exact fun hptr => hptr.1
        · rintro ⟨x, o, rfl, hx⟩
          exact ⟨⟨x, o, rfl, hx⟩, decide_eq_true (by omega)⟩
      exact ⟨⟨L, hvalid⟩, rfl, h.headersFit hvalid rfl (Writes.refl _ fun _ => False)
        fun _ hcontra => hcontra.elim⟩
    · obtain ⟨x, o, rfl, hx⟩ := (h.live ptr).mp hptr
      obtain ⟨s', L', hfree, hfreed⟩ := free_spec h.describes hx
      have hstep : u.step (.free (u.allocator.memory + x + alignment)) =
          ⟨s', u.live.filter (· ≠ u.allocator.memory + x + alignment)⟩ := step_free hfree
      have hvalid : (u.step (.free (u.allocator.memory + x + alignment))).Valid L' total := by
        rw [hstep]
        exact h.freed hfreed
      have hfit : u.HeadersFit (u.step (.free (u.allocator.memory + x + alignment))) := by
        rw [hstep] at hvalid ⊢
        refine h.headersFit hvalid hfreed.arena hfreed.writes ?_
        rintro p ⟨y, page, rfl, hy⟩
        exact ⟨page.order, .inl (h.isPage_iff.mpr ⟨y, page.used, rfl, hy⟩)⟩
      exact ⟨⟨L', hvalid⟩, Option.isSome_of_eq_some hfree, hfit⟩
  | write a c => exact ⟨⟨L, h.write hallowed⟩, trivial⟩

lemma Sound.step (h : u.Sound) (c : Call) (hc : u.Allowed c ∧ u.Ordinary c) : (u.step c).Sound := by
  obtain ⟨L, total, hvalid⟩ := h
  obtain ⟨⟨L', hvalid'⟩, -⟩ := hvalid.step c hc.1 hc.2
  exact ⟨L', total, hvalid'⟩

lemma sound_init (octets : Memory) {address memorySize : ℕ} (h : Provided address memorySize) :
    (init octets address memorySize).Sound := by
  obtain ⟨L, total, hfresh, -⟩ := init_fresh octets h
  exact ⟨L, total, valid_init octets hfresh⟩

/-- In every run in which no size is 0 or close to the greatest one, unless there is no free page, a
block has room for what was asked for, `free` never fails, and what is written are headers inside of
their pages. -/
theorem contract_of_ordinary (octets : Memory) {address memorySize : ℕ}
    (h : Provided address memorySize)
    (calls : List Call) (hcalls : Machine.Obeys step (fun u c => u.Allowed c ∧ u.Ordinary c)
      (init octets address memorySize) calls) :
    Machine.Obeys step Contract (init octets address memorySize) calls := by
  refine hcalls.of_invariant (fun u c hu hc => hu.step c hc) (sound_init octets h)
    fun u c hsound hc => ?_
  obtain ⟨L, total, hvalid⟩ := hsound
  exact (hvalid.step c hc.1 hc.2).2

/-- A block of one octet, and a null pointer that is freed. -/
theorem contract_oneBlock :
    Machine.Obeys step Contract (init (fun _ => 0) 1024 (sizeOfThis + 64)) [.malloc 1, .free 0] :=
  contract_of_ordinary (fun _ => 0) ⟨by decide, by decide⟩ [.malloc 1, .free 0]
    ⟨⟨by show 1 < 2 ^ 64; decide, .inl ⟨le_rfl, by decide⟩⟩, ⟨.inl rfl, trivial⟩, trivial⟩

/-- A block of no octets gets a page that is shorter than its header. -/
theorem emptyBlock_breaks_contract :
    ¬ ∀ (octets : Memory) (address memorySize : ℕ) (calls : List Call),
    Provided address memorySize →
      Machine.Obeys step Allowed (init octets address memorySize) calls →
        Machine.Obeys step Contract (init octets address memorySize) calls := by
  intro hall
  have hcontract := hall (fun _ => 0) 1024 (sizeOfThis + 64) [.malloc 0] ⟨by decide, by decide⟩
    ⟨by show 0 < 2 ^ 64; decide, trivial⟩
  have hpage : ((init (fun _ => 0) 1024 (sizeOfThis + 64)).step (.malloc 0)).IsPage 1568 4 := by
    refine .inr ⟨?_, ?_⟩
    · decide +kernel
    · decide +kernel
  have hheader := (hcontract.1.2.pages 1568 4 (.inr hpage)).header
  exact absurd hheader (by decide)

/-! ## The greatest block -/

/-- `malloc` would give a block of so many octets. -/
def Succeeds (u : Heap) (n : ℕ) : Prop :=
  (u.allocator.malloc n).1 ≠ 0 ∧ (u.step (.malloc n)).HasRoom (u.allocator.malloc n).1 n

/-- The number is the size of the greatest block that `malloc` would give, or 0 if it would give
none. -/
def IsLargest (u : Heap) (v : ℕ) : Prop :=
  (u.Succeeds v ∧ ∀ n < 2 ^ 64, u.Succeeds n → n ≤ v) ∨ v = 0 ∧ ∀ n < 2 ^ 64, ¬ u.Succeeds n

/-- There is one free page of the greatest size of which there are any. -/
def OneOfTop (u : Heap) : Prop :=
  ∀ bits, u.allocator.freeList bits ≠ 0 → (∀ b, bits < b → u.allocator.freeList b = 0) →
    u.allocator.get .next (u.allocator.freeList bits) = 0

lemma arena_pageAllocFrom (levels : ℕ) (s : BuddyAllocator) :
    (pageAllocFrom levels o s).2.arena = s.arena := by
  induction levels generalizing o with
  | zero => rfl
  | succ levels ih =>
    unfold pageAllocFrom
    split_ifs
    · have harena := @ih (o + 1)
      generalize pageAllocFrom levels (o + 1) s = r at harena ⊢
      rcases r with ⟨p, s'⟩
      dsimp only at harena ⊢
      split_ifs
      · exact harena
      · simpa using harena
    · simp

/-- A block cannot be so great that the rounding of its size overflows. -/
lemma Valid.le_of_succeeds (h : Valid u L total) (hn : u.Succeeds n) : n ≤ 2 ^ 64 - 32 := by
  obtain ⟨-, p, o, hptr, -, hle, hinside⟩ := hn
  have harena : (u.step (.malloc n)).allocator.arena = u.allocator.arena := arena_pageAllocFrom _ _
  have hinside' := hinside.of_arena harena
  have hlower := hinside'.lower
  have hupper := hinside'.upper
  have hspace := h.describes.arena.in_space
  have hmemory : u.allocator.memory = u.allocator.self + 544 := rfl
  omega

/-- A block is given if there is a free page for it. -/
lemma Valid.succeeds_iff (h : Valid u L total) (hn : 1 ≤ n ∧ n ≤ 2 ^ 64 - 32) :
    u.Succeeds n ↔ ∃ y o, L y = some ⟨o, false⟩ ∧ n + 16 ≤ 2 ^ o := by
  rcases malloc_spec h.describes hn with ⟨hmalloc, hsmall⟩ |
    ⟨x, s', L', o, hmalloc, hallocated, hroom⟩
  · refine iff_of_false ?_ ?_
    · rintro ⟨hne, -⟩
      rw [hmalloc] at hne
      exact hne rfl
    · rintro ⟨y, o, hy, hle⟩
      have hlt := hsmall y o hy
      omega
  · refine iff_of_true ⟨?_, (h.step_allocated hmalloc hallocated hroom).2.1⟩ ?_
    · rw [hmalloc]
      show _ + 16 ≠ 0
      omega
    · obtain ⟨y, o', hle, hy⟩ := hallocated.found
      exact ⟨y, o', hy, hroom.trans (Nat.pow_le_pow_right Nat.two_pos hle)⟩

lemma count_eq {s : BuddyAllocator} {l : List ℕ} {before first fuel : ℕ}
    (h : Linked (fun q => s.get .next q) (fun q => s.get .prev q) 0 before l first)
    (hfuel : l.length ≤ fuel) :
    s.count fuel first = some l.length := by
  induction l generalizing before first fuel with
  | nil =>
    obtain rfl : first = 0 := h
    unfold count
    rfl
  | cons a l ih =>
    obtain ⟨rfl, hne, -, hrest⟩ := h
    obtain ⟨k, rfl⟩ : ∃ k, fuel = k + 1 := ⟨fuel - 1, by rw [List.length_cons] at hfuel; omega⟩
    obtain ⟨m, rfl⟩ := Nat.exists_eq_succ_of_ne_zero hne
    have hlen : s.count k (s.get .next (m + 1)) = some l.length :=
      ih hrest (Nat.le_of_succ_le_succ hfuel)
    show (s.count k (s.get .next (m + 1))).map (· + 1) = _
    rw [hlen]
    rfl

/-- `total_free_at`. -/
lemma Valid.totalFreeAt_eq (h : Valid u L total) (ho : u.allocator.freeList o ≠ 0) :
    ∃ l, Linked (fun q => u.allocator.get .next q) (fun q => u.allocator.get .prev q) 0 0 l
      (u.allocator.freeList o) ∧
      u.allocator.totalFreeAt o = some (l.length * (2 ^ o - 16)) ∧ l.length * 2 ^ o ≤ total := by
  obtain ⟨l, hl, hmem⟩ := h.describes.lists o
  have hfit : l.length * 2 ^ o ≤ total := by
    have hlen : (l.map (· - u.allocator.memory)).length * 2 ^ o ≤ total := by
      refine Layout.length_mul_le (hl.nodup.map_on fun p hp q hq heq => ?_) fun x hx => ?_
      · obtain ⟨x, rfl, -⟩ := (hmem p).mp hp
        obtain ⟨y, rfl, -⟩ := (hmem q).mp hq
        omega
      · obtain ⟨p, hp, rfl⟩ := List.mem_map.mp hx
        obtain ⟨y, rfl, hy⟩ := (hmem p).mp hp
        rw [Nat.add_sub_cancel_left]
        exact ⟨h.describes.tiles.dvd hy, h.describes.tiles.inside hy⟩
    rwa [List.length_map] at hlen
  refine ⟨l, hl, ?_, hfit⟩
  obtain ⟨y, -, hy⟩ := (h.describes.first o).resolve_left ho
  have hlt : o < 63 := h.describes.order_lt hy
  have hsize : 2 ^ 5 ≤ 2 ^ o := h.describes.le_pow hy
  have hpow : 2 ^ o ≤ 2 ^ 62 := Nat.pow_le_pow_right Nat.two_pos (by omega)
  have htotal := h.describes.total_lt
  have hmemory := h.describes.arena.total_le
  have halign : alignment = 16 := rfl
  have hlen : l.length ≤ u.allocator.memorySize := by
    have hmul : l.length * 1 ≤ l.length * 2 ^ o := Nat.mul_le_mul_left _ (by omega)
    omega
  have hchunk : (2 ^ o + 2 ^ 64 - alignment) % 2 ^ 64 = 2 ^ o - 16 := by omega
  have hproduct : l.length * (2 ^ o - 16) ≤ l.length * 2 ^ o :=
    Nat.mul_le_mul_left _ (Nat.sub_le _ _)
  unfold totalFreeAt
  rw [count_eq hl hlen, Option.map_some, hchunk, Nat.mod_eq_of_lt (by omega)]

lemma Valid.freeList_ne (h : Valid u L total) (hy : L y = some ⟨o, false⟩) :
    u.allocator.freeList o ≠ 0 := by
  obtain ⟨l, hl, hmem⟩ := h.describes.lists o
  intro hzero
  rw [hzero] at hl
  obtain rfl := hl.eq_nil
  exact absurd ((hmem _).mpr ⟨y, rfl, hy⟩) List.not_mem_nil

/-- The loop of `max_free_chunk` finds the greatest size. -/
lemma top_of_find {f : ℕ → ℕ}
    (h : (List.range' 1 63).reverse.find? (fun bits => f bits ≠ 0) = some bits) :
    f bits ≠ 0 ∧ ∀ b, bits < b → b < 64 → f b = 0 := by
  obtain ⟨hbits, as, bs, hsplit, hfirst⟩ := List.find?_eq_some_iff_append.mp h
  refine ⟨by simpa using hbits, fun b hlt hlt' => ?_⟩
  have hsorted : (List.range' 1 63).reverse.Pairwise (· > ·) :=
    List.pairwise_reverse.mpr List.pairwise_lt_range'
  have hmem : b ∈ as ++ bits :: bs := by
    rw [← hsplit, List.mem_reverse, List.mem_range'_1]
    omega
  rw [hsplit] at hsorted
  rcases List.mem_append.mp hmem with hin | hin
  · simpa using hfirst b hin
  · have hbehind := (List.pairwise_cons.mp (List.pairwise_append.mp hsorted).2.1).1
    rcases List.mem_cons.mp hin with rfl | hin
    · omega
    · have hless := hbehind b hin
      omega

/-- One page of the top size. -/
lemma Valid.isLargest_of_one (h : Valid u L total) (hy : L y = some ⟨bits, false⟩)
    (htop : ∀ {y o}, L y = some ⟨o, false⟩ → o ≤ bits) : u.IsLargest (2 ^ bits - 16) := by
  have hlt : bits < 63 := h.describes.order_lt hy
  have hsize : 2 ^ 5 ≤ 2 ^ bits := h.describes.le_pow hy
  have hpow : 2 ^ bits ≤ 2 ^ 62 := Nat.pow_le_pow_right Nat.two_pos (by omega)
  refine .inl ⟨(h.succeeds_iff (by omega)).mpr ⟨y, bits, hy, by omega⟩, fun n _ hn => ?_⟩
  rcases Nat.eq_zero_or_pos n with rfl | hpos
  · exact Nat.zero_le _
  · obtain ⟨w, o, hw, hle⟩ := (h.succeeds_iff ⟨hpos, h.le_of_succeeds hn⟩).mp hn
    have hgreat : 2 ^ o ≤ 2 ^ bits := Nat.pow_le_pow_right Nat.two_pos (htop hw)
    omega

/-- More than one page of the top size. -/
lemma Valid.not_isLargest_of_two (h : Valid u L total) {bits y k : ℕ}
    (hy : L y = some ⟨bits, false⟩) (htop : ∀ {y o}, L y = some ⟨o, false⟩ → o ≤ bits) (hk : 2 ≤ k)
    (hfit : k * 2 ^ bits ≤ total) :
    ¬ u.IsLargest (k * (2 ^ bits - 16)) := by
  have hsize : 2 ^ 5 ≤ 2 ^ bits := h.describes.le_pow hy
  have htotal := h.describes.total_lt
  have hless : k * (2 ^ bits - 16) ≤ k * 2 ^ bits := Nat.mul_le_mul_left _ (Nat.sub_le _ _)
  have hmore : 2 * (2 ^ bits - 16) ≤ k * (2 ^ bits - 16) := Nat.mul_le_mul_right _ hk
  rintro (⟨hsucceeds, -⟩ | ⟨hzero, -⟩)
  · obtain ⟨w, o, hw, hle⟩ := (h.succeeds_iff (by omega)).mp hsucceeds
    have hgreat : 2 ^ o ≤ 2 ^ bits := Nat.pow_le_pow_right Nat.two_pos (htop hw)
    omega
  · omega

lemma Valid.maxFreeChunk (h : Valid u L total) :
    ∃ v, u.allocator.maxFreeChunk = some v ∧ (u.IsLargest v ↔ u.OneOfTop) := by
  have horder : ∀ {bits}, u.allocator.freeList bits ≠ 0 → 5 ≤ bits ∧ bits < 63 := by
    intro bits hne
    obtain ⟨y, -, hy⟩ := (h.describes.first bits).resolve_left hne
    exact ⟨h.describes.tiles.order_ge hy, h.describes.order_lt hy⟩
  unfold BuddyAllocator.maxFreeChunk
  rcases hfind : (List.range' 1 63).reverse.find? fun bits => u.allocator.freeList bits ≠ 0 with
    _ | bits
  · have hempty : ∀ bits, u.allocator.freeList bits = 0 := by
      intro bits
      by_contra hne
      have hbounds := horder hne
      have hnot := List.find?_eq_none.mp hfind bits (by
        rw [List.mem_reverse, List.mem_range'_1]
        omega)
      exact hnot (decide_eq_true hne)
    refine ⟨0, rfl, iff_of_true (.inr ⟨rfl, fun n _ hn => ?_⟩) fun bits hne =>
      absurd (hempty bits) hne⟩
    refine hn.1 ?_
    rw [malloc_of_empty n hempty]
  · obtain ⟨hne, habove⟩ := top_of_find hfind
    obtain ⟨l, hl, htotal, hfit⟩ := h.totalFreeAt_eq hne
    obtain ⟨y, -, hy⟩ := (h.describes.first bits).resolve_left hne
    have htop : ∀ {y o}, L y = some ⟨o, false⟩ → o ≤ bits := by
      intro y o hy
      by_contra hcontra
      have hlt : o < 63 := h.describes.order_lt hy
      exact h.freeList_ne hy (habove o (by omega) (by omega))
    refine ⟨_, htotal, ?_⟩
    rcases l with _ | ⟨a, _ | ⟨b, l⟩⟩
    · exact absurd hl hne
    · have hone : ([a] : List ℕ).length * (2 ^ bits - 16) = 2 ^ bits - 16 := Nat.one_mul _
      rw [hone]
      refine iff_of_true (h.isLargest_of_one hy htop) fun bits' hne' habove' => ?_
      have hsame : bits' = bits := by
        rcases Nat.lt_trichotomy bits' bits with hlt | heq | hlt
        · exact absurd (habove' bits hlt) hne
        · exact heq
        · have hbounds := horder hne'
          exact absurd (habove bits' hlt (by omega)) hne'
      rw [hsame, hl.1]
      exact hl.2.2.2
    · refine iff_of_false (h.not_isLargest_of_two hy htop ?_ hfit) fun hone => ?_
      · rw [List.length_cons, List.length_cons]
        omega
      · have hlast := hone bits hne fun b hlt => by
          by_contra hcontra
          have hbounds := horder hcontra
          exact hcontra (habove b hlt (by omega))
        rw [hl.1] at hlast
        have hnext : u.allocator.get .next a = b := hl.2.2.2.1
        exact hl.2.2.2.2.1 (hnext.symm.trans hlast)

/-- In every run with sizes of this kind `max_free_chunk` is right exactly where there is one free
page of the greatest size of which there are any, or none at all. -/
theorem maxFreeChunk_largest_iff (octets : Memory) {address memorySize : ℕ}
    (h : Provided address memorySize)
    (calls : List Call) (hcalls : Machine.Obeys step (fun u c => u.Allowed c ∧ u.Ordinary c)
      (init octets address memorySize) calls) :
    ∀ u ∈ Machine.states step (init octets address memorySize) calls,
      ∃ v, u.allocator.maxFreeChunk = some v ∧ (u.IsLargest v ↔ u.OneOfTop) := by
  intro u hu
  obtain ⟨L, total, hvalid⟩ :=
    Machine.forall_mem_states (fun u c hu hc => hu.step c hc) (sound_init octets h) hcalls u hu
  exact hvalid.maxFreeChunk

/-- The memory after the construction. -/
theorem maxFreeChunk_atOnce :
    ∃ v, (init (fun _ => 0) 1024 (sizeOfThis + 64)).allocator.maxFreeChunk = some v ∧
    ((init (fun _ => 0) 1024 (sizeOfThis + 64)).IsLargest v ↔
      (init (fun _ => 0) 1024 (sizeOfThis + 64)).OneOfTop) :=
  maxFreeChunk_largest_iff (fun _ => 0) ⟨by decide, by decide⟩
    [] trivial _ (List.mem_singleton_self _)

/-- Four blocks, of which the first and the third are given back. -/
def twoOfFour : List Call :=
  [.malloc 16, .malloc 16, .malloc 16, .malloc 16, .free 1584, .free 1648]

/-- Two free pages of 32 octets are reported as one block of 32 octets. -/
theorem twoPages_reported_as_one :
    ¬ ∀ (octets : Memory) (address memorySize : ℕ) (calls : List Call),
    Provided address memorySize →
      Machine.Obeys step (fun u c => u.Allowed c ∧ u.Ordinary c)
        (init octets address memorySize) calls →
        ∀ u ∈ Machine.states step (init octets address memorySize) calls,
          ∃ v, u.allocator.maxFreeChunk = some v ∧ u.IsLargest v := by
  intro hall
  have hsize : 1 ≤ 16 ∧ 16 ≤ 2 ^ 64 - 32 := by decide
  have hlt : 16 < 2 ^ 64 := by decide
  have hcalls : Machine.Obeys step (fun u c => u.Allowed c ∧ u.Ordinary c)
      (init (fun _ => 0) 1024 (sizeOfThis + 128)) twoOfFour :=
    ⟨⟨hlt, .inl hsize⟩, ⟨hlt, .inl hsize⟩, ⟨hlt, .inl hsize⟩, ⟨hlt, .inl hsize⟩,
      ⟨.inr (by decide +kernel), trivial⟩, ⟨.inr (by decide +kernel), trivial⟩, trivial⟩
  obtain ⟨v, hv, hlargest⟩ :=
    hall (fun _ => 0) 1024 (sizeOfThis + 128) twoOfFour ⟨by decide, by decide⟩ hcalls _
    (Machine.foldl_mem_states _ twoOfFour)
  have hreported :
      (twoOfFour.foldl step (init (fun _ => 0) 1024 (sizeOfThis + 128))).allocator.maxFreeChunk =
      some 32 := by
    decide +kernel
  have hnone :
      ((twoOfFour.foldl step (init (fun _ => 0) 1024 (sizeOfThis + 128))).allocator.malloc 32).1 =
      0 := by
    decide +kernel
  obtain rfl : v = 32 := Option.some.inj (hv.symm.trans hreported)
  rcases hlargest with ⟨⟨hne, -⟩, -⟩ | ⟨hzero, -⟩
  · exact hne hnone
  · exact absurd hzero (by decide)

end Heap

end Shmem

end Cppcms
