import Cppcms.Shmem.BuddyContracts

/-!
# The pages tile the memory

In every run the pages in use and the free ones tile the memory up to a rest of less than two units
of alignment, and every free page is in the list of its size.  Where everything has been given back,
the free pages are those of the construction: there is one way to tile a region with aligned pages
of which no two could be merged.
-/

namespace Cppcms

namespace Shmem

open BuddySystem DoublyLinked BuddyAllocator

namespace Heap

/-- The pages of a state, those of the state at the start, and the memory that the constructor was
called for. -/
structure Consistent (address memorySize : ℕ) (start u : Heap) : Prop where
  memory : u.allocator.memory = address + sizeOfThis
  aligned : ∀ p o, u.IsPage p o → u.allocator.memory ≤ p ∧ 2 ^ o ∣ p - u.allocator.memory
  disjoint : ∀ p o q o', u.IsPage p o → u.IsPage q o' →
    p = q ∧ o = o' ∨ p + 2 ^ o ≤ q ∨ q + 2 ^ o' ≤ p
  free_or_used : ∀ p o o', OnList u.allocator o p → ¬ u.InUse p o'
  tiles : ∃ total, total ≤ memorySize - sizeOfThis ∧
    memorySize - sizeOfThis < total + 2 * alignment ∧
    ∀ a, (∃ p o, u.IsPage p o ∧ p ≤ a ∧ a < p + 2 ^ o) ↔
      u.allocator.memory ≤ a ∧ a < u.allocator.memory + total
  marked : ∀ p o, OnList u.allocator o p → u.allocator.get .bits p = o
  linked : ∀ o, ∃ l, Linked (fun q => u.allocator.get .next q)
    (fun q => u.allocator.get .prev q) 0 0 l
    (u.allocator.freeList o) ∧ ∀ p, p ∈ l ↔ OnList u.allocator o p
  merged : ∀ x o, OnList u.allocator o (u.allocator.memory + x) →
    ¬ OnList u.allocator o (u.allocator.memory + buddy o x)
  restored : u.live = [] → ∀ p o, OnList u.allocator o p ↔ OnList start.allocator o p

/-- A size is not 0, and not more than the half of the greatest one. -/
def UpToHalf : Call → Prop
  | .malloc n => 1 ≤ n ∧ n ≤ (2 ^ 64 - 1) / 2
  | _ => True

variable {u start : Heap} {L L₀ : Layout} {c : Call} {total : ℕ}

lemma UpToHalf.ordinary (h : UpToHalf c) (u : Heap) : u.Ordinary c := by
  cases c with
  | malloc n =>
    obtain ⟨hpos, hle⟩ : 1 ≤ n ∧ n ≤ (2 ^ 64 - 1) / 2 := h
    exact .inl ⟨hpos, by omega⟩
  | free ptr => trivial
  | write a c => trivial

lemma OnList.freeList_ne {s : BuddyAllocator} {bits p : ℕ} (h : OnList s bits p) :
    s.freeList bits ≠ 0 := by
  induction h with
  | first hne => exact hne
  | next _ _ ih => exact ih

lemma arena_freePageFrom (fuel p : ℕ) (s s' : BuddyAllocator)
    (h : freePageFrom fuel p s = some s') :
    s'.arena = s.arena := by
  induction fuel generalizing p s with
  | zero => exact absurd h (by simp [freePageFrom])
  | succ fuel ih =>
    obtain ⟨b, -, hb⟩ := Option.bind_eq_some_iff.mp h
    split_ifs at hb
    · exact (ih _ _ hb).trans (by simp)
    · exact (ih _ _ hb).trans (by simp)
    · rw [← Option.some.inj hb]
      simp

lemma arena_step (u : Heap) (c : Call) : (u.step c).allocator.arena = u.allocator.arena := by
  cases c with
  | malloc n => exact arena_pageAllocFrom _ _
  | free ptr =>
    rcases hfree : u.allocator.free ptr with _ | s
    · have hstep : u.step (.free ptr) = u := by
        unfold step
        simp only [hfree]
      rw [hstep]
    · rw [step_free hfree]
      unfold BuddyAllocator.free freePage at hfree
      split_ifs at hfree
      · rw [← Option.some.inj hfree]
      · exact arena_freePageFrom _ _ _ _ hfree
  | write a c => rfl

lemma Valid.consistent (h : Valid u L total) (hstart : Valid start L₀ total)
    (hfree : ∀ x p, L₀ x = some p → p.used = false)
    (harena : u.allocator.arena = start.allocator.arena) {address memorySize : ℕ}
    (hbegin : start.allocator.memory = address + sizeOfThis)
    (hinside : total ≤ memorySize - sizeOfThis) (hrest : memorySize - sizeOfThis < total + 32) :
    start.Consistent address memorySize u := by
  have hmemory := memory_of_arena harena
  constructor
  · exact hmemory.trans hbegin
  · intro p o hp
    obtain ⟨x, b, rfl, hx⟩ := h.isPage_iff.mp hp
    rw [Nat.add_sub_cancel_left]
    exact ⟨Nat.le_add_right _ _, h.describes.tiles.dvd hx⟩
  · intro p o q o' hp hq
    obtain ⟨x, b, rfl, hx⟩ := h.isPage_iff.mp hp
    obtain ⟨y, b', rfl, hy⟩ := h.isPage_iff.mp hq
    rcases Nat.lt_trichotomy x y with hlt | rfl | hlt
    · have hbehind : x + 2 ^ o ≤ y := h.describes.tiles.disjoint hx hy hlt
      omega
    · exact .inl ⟨rfl, congrArg Page.order (Option.some.inj (hx.symm.trans hy))⟩
    · have hbehind : y + 2 ^ o' ≤ x := h.describes.tiles.disjoint hy hx hlt
      omega
  · intro p o o' hp hused
    obtain ⟨x, rfl, hx⟩ := h.onList_iff.mp hp
    obtain ⟨y, heq, hy⟩ := h.inUse_iff.mp hused
    obtain rfl : x = y := by omega
    exact absurd (hx.symm.trans hy) (by simp)
  · refine ⟨total, hinside, hrest, fun a => ⟨?_, ?_⟩⟩
    · rintro ⟨p, o, hp, hle, hlt⟩
      obtain ⟨x, b, rfl, hx⟩ := h.isPage_iff.mp hp
      have hin : x + 2 ^ o ≤ total := h.describes.tiles.inside hx
      omega
    · rintro ⟨hle, hlt⟩
      obtain ⟨x, ⟨o, b⟩, hx, hbelow, habove⟩ :=
        h.describes.tiles.cover (by omega : a - u.allocator.memory < total)
      dsimp only at habove
      exact ⟨_, o, h.isPage_iff.mpr ⟨x, b, rfl, hx⟩, by omega, by omega⟩
  · intro p o hp
    obtain ⟨x, rfl, hx⟩ := h.onList_iff.mp hp
    exact h.describes.header hx
  · intro o
    obtain ⟨l, hl, hmem⟩ := h.describes.lists o
    exact ⟨l, hl, fun p => (hmem p).trans h.onList_iff.symm⟩
  · intro x o hx hbuddy
    obtain ⟨y, heq, hy⟩ := h.onList_iff.mp hx
    obtain ⟨z, heq', hz⟩ := h.onList_iff.mp hbuddy
    obtain rfl : x = y := by omega
    obtain rfl : buddy o x = z := by omega
    exact h.merged x o hy hz
  · intro hnone p o
    have hfree' : ∀ x p, L x = some p → p.used = false := by
      rintro x ⟨o, _ | _⟩ hx
      · rfl
      · have hlive := (h.live _).mpr ⟨x, o, rfl, hx⟩
        rw [hnone] at hlive
        exact absurd hlive List.not_mem_nil
    rw [h.onList_iff, hstart.onList_iff, hmemory]
    constructor
    · rintro ⟨x, hp, hx⟩
      exact ⟨x, hp, h.describes.tiles.unique hstart.describes.tiles hfree' hfree h.merged
        hstart.merged x _ hx⟩
    · rintro ⟨x, hp, hx⟩
      exact ⟨x, hp, hstart.describes.tiles.unique h.describes.tiles hfree hfree' hstart.merged
        h.merged x _ hx⟩

/-- The memory is the one of the start, and the pages in use are those of the blocks. -/
def Keeps (start : Heap) (total : ℕ) (u : Heap) : Prop :=
  u.allocator.arena = start.allocator.arena ∧ ∃ L, Valid u L total

lemma Keeps.step (h : Keeps start total u) (c : Call) (hc : u.Allowed c ∧ UpToHalf c) :
    Keeps start total (u.step c) := by
  obtain ⟨harena, L, hvalid⟩ := h
  exact ⟨(arena_step u c).trans harena, (hvalid.step c hc.1 (hc.2.ordinary u)).1⟩

/-- In every run the pages tile the memory, the free ones are in the lists of their sizes, and they
are those of the construction where everything has been given back. -/
theorem consistent_of_upToHalf (octets : Memory) {address memorySize : ℕ}
    (h : Provided address memorySize)
    (hsize : memorySize - sizeOfThis < 2 ^ 63) (calls : List Call)
    (hcalls : Machine.Obeys step (fun u c => u.Allowed c ∧ UpToHalf c)
      (init octets address memorySize) calls) :
    ∀ u ∈ Machine.states step (init octets address memorySize) calls,
      (init octets address memorySize).Consistent address memorySize u := by
  obtain ⟨L, total, hfresh, hbegin, hmemorySize⟩ := init_fresh octets h
  have hstart := valid_init octets hfresh
  have hkeeps : Keeps (init octets address memorySize) total (init octets address memorySize) :=
    ⟨rfl, L, hstart⟩
  intro u hu
  obtain ⟨harena, L', hvalid⟩ :=
    Machine.forall_mem_states (fun u c hu hc => hu.step c hc) hkeeps hcalls u hu
  refine hvalid.consistent hstart hfresh.free harena hbegin (hmemorySize ▸ hfresh.inside) ?_
  rw [← hmemorySize] at hsize ⊢
  exact hfresh.rest hsize

/-- A block is taken and given back. -/
theorem consistent_oneBlock :
    Machine.Obeys step (fun u c => u.Allowed c ∧ UpToHalf c)
      (init (fun _ => 0) 1024 (sizeOfThis + 64))
        [.malloc 1, .free 1584] ∧
      ∀ u ∈ Machine.states step (init (fun _ => 0) 1024 (sizeOfThis + 64)) [.malloc 1, .free 1584],
        (init (fun _ => 0) 1024 (sizeOfThis + 64)).Consistent 1024 (sizeOfThis + 64) u := by
  have hone : 1 ≤ 1 ∧ 1 ≤ (2 ^ 64 - 1) / 2 := by decide
  have hlt : 1 < 2 ^ 64 := by decide
  have hcalls : Machine.Obeys step (fun u c => u.Allowed c ∧ UpToHalf c)
      (init (fun _ => 0) 1024 (sizeOfThis + 64)) [.malloc 1, .free 1584] :=
    ⟨⟨hlt, hone⟩, ⟨.inr (by decide +kernel), trivial⟩, trivial⟩
  exact ⟨hcalls, consistent_of_upToHalf (fun _ => 0) ⟨by decide, by decide⟩ (by decide)
    [.malloc 1, .free 1584] hcalls⟩

/-- A memory of 2 ^ 63 octets gets no page at all. -/
theorem hugeMemory_not_tiled :
    ¬ ∀ (octets : Memory) (address memorySize : ℕ) (calls : List Call),
    Provided address memorySize →
      Machine.Obeys step (fun u c => u.Allowed c ∧ UpToHalf c)
        (init octets address memorySize) calls →
        ∀ u ∈ Machine.states step (init octets address memorySize) calls,
          (init octets address memorySize).Consistent address memorySize u := by
  intro hall
  have hconsistent :=
    hall (fun _ => 0) 1024 (sizeOfThis + 2 ^ 63) [] ⟨by decide, by decide⟩ trivial _
    (List.mem_singleton_self _)
  have hbits : containtsBits (2 ^ 63) = -1 := by decide
  have hsize : sizeOfThis + 2 ^ 63 - sizeOfThis = 2 ^ 63 := by decide
  have hinit : (init (fun _ => 0) 1024 (sizeOfThis + 2 ^ 63)).allocator =
      ⟨fun _ => 0, 1024, fun _ => 0, 2 ^ 63, -1⟩ := by
    show BuddyAllocator.init _ _ _ = _
    unfold BuddyAllocator.init
    rw [hsize, addPages, hbits, if_pos (by decide)]
  obtain ⟨total, -, hrest, htiles⟩ := hconsistent.tiles
  have hpage : ∀ p o, ¬ (init (fun _ => 0) 1024 (sizeOfThis + 2 ^ 63)).IsPage p o := by
    rintro p o (hp | ⟨hlive, -⟩)
    · rw [hinit] at hp
      exact hp.freeList_ne rfl
    · exact absurd hlive List.not_mem_nil
  have halign : alignment = 16 := rfl
  rw [hsize, halign] at hrest
  have hin : (init (fun _ => 0) 1024 (sizeOfThis + 2 ^ 63)).allocator.memory < _ + total :=
    Nat.lt_add_of_pos_right (by omega)
  obtain ⟨p, o, hp, -, -⟩ := (htiles _).mpr ⟨le_rfl, hin⟩
  exact hpage p o hp

end Heap

end Shmem

end Cppcms
