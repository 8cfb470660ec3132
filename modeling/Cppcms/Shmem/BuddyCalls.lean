import Cppcms.Shmem.BuddyPages

/-!
# What the calls of the allocator do

`page_alloc` either finds no free page that is large enough, or gives a page of just the order that
was asked for. `free_page` makes the page and all free pages that it can be merged with one free
page.  Both keep everything else as it is, and write headers of pages only.
-/

namespace Cppcms

namespace Shmem

open BuddySystem DoublyLinked

namespace BuddyAllocator

variable {s s' s'' : BuddyAllocator} {f : Field} {p v bits o x y total : ℕ} {L L' : Layout}
    {P Q R : ℕ → Prop}

/-! ## The headers that are written -/

/-- A page begins at the address. -/
def Begins (m : ℕ) (L : Layout) (p : ℕ) : Prop := ∃ x page, p = m + x ∧ L x = some page

/-- The octets that differ are in the headers of some pages. -/
def Writes (s s' : BuddyAllocator) (P : ℕ → Prop) : Prop :=
  ∀ a, s'.octets a ≠ s.octets a → ∃ p, P p ∧ p ≤ a ∧ a < p + sizeOfPage

lemma Writes.refl (s : BuddyAllocator) (P : ℕ → Prop) : Writes s s P := fun _ ha => absurd rfl ha

lemma Writes.mono (h : Writes s s' P) (hP : ∀ p, P p → Q p) : Writes s s' Q := by
  intro a ha
  obtain ⟨p, hp, hin⟩ := h a ha
  exact ⟨p, hP p hp, hin⟩

lemma Writes.trans (h : Writes s s' P) (h' : Writes s' s'' P) : Writes s s'' P := by
  intro a ha
  by_cases hfirst : s'.octets a = s.octets a
  · exact h' a (by rwa [hfirst])
  · exact h a hfirst

lemma Writes.set (h : Writes s s' P) (hp : P p) : Writes s (s'.set f p v) P := by
  refine h.trans fun a ha => ⟨p, hp, ?_⟩
  have hf : f.offset + f.width ≤ sizeOfPage := by rcases f with _ | _ | _ <;> decide
  by_contra hcontra
  exact ha (Memory.store_of_outside (by omega))

lemma Writes.setIf (h : Writes s s' P) (hp : p ≠ 0 → P p) : Writes s (s'.setIf f p v) P := by
  unfold BuddyAllocator.setIf
  split_ifs with hzero
  · exact h
  · exact h.set (hp hzero)

lemma Writes.setFree (h : Writes s s' P) : Writes s (s'.setFree bits p) P := h

lemma Writes.markUsed (h : Writes s s' P) (hp : P p) : Writes s (s'.markUsed p bits) P :=
  ((h.set hp).set hp).set hp

lemma Writes.splitOff (h : Writes s s' P) (hp : P (p + 2 ^ bits)) :
    Writes s (s'.splitOff p bits) P :=
  (((h.set hp).set hp).set hp).setFree

lemma Writes.disconnect (h : Writes s s' P)
    (hnext : s'.get .next (s'.freeList bits) ≠ 0 → P (s'.get .next (s'.freeList bits))) :
    Writes s (s'.disconnect bits) P := h.setFree.setIf hnext

lemma Writes.unlinkBuddy (h : Writes s s' P)
    (hlink : ∀ f, f ≠ .bits → s'.get f p ≠ 0 → P (s'.get f p)) :
    Writes s (s'.unlinkBuddy p bits) P := by
  have hlinks :
    Writes s ((s'.setIf .prev (s'.get .next p) (s'.get .prev p)).setIf .next (s'.get .prev p)
    (s'.get .next p))
      P := (h.setIf (hlink .next (by decide))).setIf (hlink .prev (by decide))
  unfold BuddyAllocator.unlinkBuddy
  by_cases hzero : s'.get .prev p = 0
  · simp only [if_pos hzero]
    exact hlinks.setFree
  · simp only [if_neg hzero]
    exact hlinks

lemma Writes.giveBack (h : Writes s s' P) (hp : P p)
    (hfirst : s'.freeList bits ≠ 0 → P (s'.freeList bits)) :
    Writes s (s'.giveBack p bits) P := (((h.set hp).set hp).setIf hfirst).setFree

/-! ## Allocation -/

/-- A page of an order is in use that was not, and nothing else has changed for those who use the
memory. -/
structure Allocated (s : BuddyAllocator) (L : Layout) (s' : BuddyAllocator) (L' : Layout)
    (x o total : ℕ) : Prop where
  describes : Describes s' L' total
  used : ∀ {y q}, L' y = some ⟨q, true⟩ ↔ y = x ∧ q = o ∨ L y = some ⟨q, true⟩
  fresh : ∀ q, L x ≠ some ⟨q, true⟩
  merged : L.Merged → L'.Merged
  arena : s'.arena = s.arena
  freeList : ∀ o' < o, s'.freeList o' = s.freeList o'
  found : ∃ y o', o ≤ o' ∧ L y = some ⟨o', false⟩
  begins : ∀ {y page}, L y = some page → ∃ page', L' y = some page'
  writes : Writes s s' (Begins s.memory L')

lemma Describes.allocated (h : Describes s L total) (hne : s.freeList o ≠ 0) :
    ∃ x L', s.freeList o = s.memory + x ∧
      Allocated s L ((s.disconnect o).markUsed (s.freeList o) o) L' x o total := by
  obtain ⟨x, hfirst, hx, hdescribes⟩ := h.take hne
  have hbegins : ∀ {y page}, L y = some page →
      ∃ page', L.set x (some ⟨o, true⟩) y = some page' := by
    intro y page hy
    by_cases hyx : y = x
    · exact ⟨_, Layout.set_eq_some.mpr (.inl ⟨hyx, rfl⟩)⟩
    · exact ⟨page, Layout.set_eq_some.mpr (.inr ⟨hyx, hy⟩)⟩
  refine ⟨x, _, hfirst, hdescribes, ?_, ?_, fun hmerged =>
    hmerged.take x o, by simp, ?_, ⟨x, o, le_rfl, hx⟩, hbegins, ?_⟩
  · intro y q
    rw [Layout.set_eq_some]
    constructor
    · rintro (⟨rfl, hpage⟩ | ⟨-, hold⟩)
      · exact .inl ⟨rfl, (congrArg Page.order (Option.some.inj hpage)).symm⟩
      · exact .inr hold
    · rintro (⟨rfl, rfl⟩ | hold)
      · exact .inl ⟨rfl, rfl⟩
      · refine .inr ⟨?_, hold⟩
        rintro rfl
        exact absurd (hold.symm.trans hx) (by simp)
  · intro q hcontra
    exact absurd (hcontra.symm.trans hx) (by simp)
  · intro o' hlt
    rw [freeList_markUsed, freeList_disconnect]
    exact Function.update_of_ne hlt.ne _ _
  · refine ((Writes.refl s _).disconnect fun hnext => ?_).markUsed ?_
    · rw [hfirst] at hnext ⊢
      rcases h.link hx (by decide : Field.next ≠ .bits) with hzero | ⟨y, heq, hy⟩
      · exact absurd hzero hnext
      · obtain ⟨page', hpage'⟩ := hbegins hy
        exact ⟨y, page', heq, hpage'⟩
    · exact ⟨x, _, hfirst, Layout.set_self _ _ _⟩

lemma Allocated.split (h : Allocated s L s' L' x (o + 1) total) (ho : 5 ≤ o)
    (hempty : s.freeList o = 0) :
    Allocated s L ((s'.splitOff (s.memory + x) o).markUsed (s.memory + x) o)
      (L'.split x o) x o total := by
  have hx : L' x = some ⟨o + 1, true⟩ := h.used.mpr (.inl ⟨rfl, rfl⟩)
  have hmemory := memory_of_arena h.arena
  have hempty' : s'.freeList o = 0 := (h.freeList o (Nat.lt_succ_self o)).trans hempty
  have hdescribes := h.describes.splitPage hx ho hempty'
  have hnot : L' (x + 2 ^ o) = none := by
    rcases hhalf : L' (x + 2 ^ o) with _ | page
    · rfl
    · have hpos : 0 < 2 ^ o := Nat.two_pow_pos o
      have hend : x + 2 ^ (o + 1) ≤ x + 2 ^ o := h.describes.tiles.disjoint hx hhalf (by omega)
      have hgrow : 2 ^ (o + 1) = 2 ^ o + 2 ^ o := by rw [pow_succ, Nat.mul_two]
      omega
  have hbegins : ∀ {y page}, L' y = some page → ∃ page', L'.split x o y = some page' := by
    intro y page hy
    by_cases hyx : y = x
    · exact ⟨_, Layout.split_eq_some.mpr (.inr (.inl ⟨hyx, rfl⟩))⟩
    · have hne : y ≠ x + 2 ^ o := by
        rintro rfl
        rw [hnot] at hy
        exact absurd hy (by simp)
      exact ⟨page, Layout.split_eq_some.mpr (.inr (.inr ⟨hne, hyx, hy⟩))⟩
  rw [hmemory] at hdescribes
  refine ⟨hdescribes, ?_, h.fresh, fun hmerged =>
    (h.merged hmerged).split (h.describes.tiles.dvd hx), ?_, ?_, ?_, ?_, ?_⟩
  · intro y q
    rw [Layout.split_eq_some]
    constructor
    · rintro (⟨-, hcontra⟩ | ⟨rfl, hpage⟩ | ⟨-, hyx, hold⟩)
      · exact absurd hcontra (by simp)
      · exact .inl ⟨rfl, congrArg Page.order hpage⟩
      · exact .inr ((h.used.mp hold).resolve_left fun hcontra => hyx hcontra.1)
    · rintro (⟨rfl, rfl⟩ | hold)
      · exact .inr (.inl ⟨rfl, rfl⟩)
      · have hyx : y ≠ x := by
          rintro rfl
          exact h.fresh q hold
        have hy := h.used.mpr (.inr hold)
        refine .inr (.inr ⟨?_, hyx, hy⟩)
        rintro rfl
        rw [hnot] at hy
        exact absurd hy (by simp)
  · simpa using h.arena
  · intro o' hlt
    rw [freeList_markUsed, freeList_splitOff, Function.update_of_ne hlt.ne]
    exact h.freeList o' (hlt.trans (Nat.lt_succ_self o))
  · obtain ⟨y, o', hle, hy⟩ := h.found
    exact ⟨y, o', (Nat.le_succ o).trans hle, hy⟩
  · intro y page hy
    obtain ⟨page', hy'⟩ := h.begins hy
    exact hbegins hy'
  · have hold : Writes s s' (Begins s.memory (L'.split x o)) := by
      refine h.writes.mono fun p => ?_
      rintro ⟨y, page, rfl, hy⟩
      obtain ⟨page', hy'⟩ := hbegins hy
      exact ⟨y, page', rfl, hy'⟩
    refine (hold.splitOff ?_).markUsed ?_
    · exact ⟨x + 2 ^ o, _, Nat.add_assoc _ _ _, Layout.split_eq_some.mpr (.inl ⟨rfl, rfl⟩)⟩
    · exact ⟨x, _, rfl, Layout.split_eq_some.mpr (.inr (.inl ⟨rfl, rfl⟩))⟩

/-- `page_alloc` finds a page of the order, unless all free pages are smaller. -/
theorem pageAllocFrom_spec (levels : ℕ) (h : Describes s L total) (ho : 5 ≤ o)
    (hlevels : (s.maxBitSize + 1 - o).toNat = levels) :
    (pageAllocFrom levels o s = (0, s) ∧ ∀ y o', L y = some ⟨o', false⟩ → o' < o) ∨
      ∃ x s' L', pageAllocFrom levels o s = (s.memory + x, s') ∧ Allocated s L s' L' x o total := by
  induction levels generalizing o with
  | zero =>
    refine .inl ⟨rfl, fun y o' hy => ?_⟩
    have hin := h.tiles.inside hy
    dsimp only at hin
    have hpow : 2 ^ o' ≤ total := by omega
    have hle := h.arena.order_le hpow
    omega
  | succ levels ih =>
    have hpos := Describes.memory_pos s
    unfold pageAllocFrom
    by_cases hempty : s.freeList o = 0
    · rw [if_pos hempty]
      rcases ih (by omega : 5 ≤ o + 1) (by omega) with ⟨hnone, hsmall⟩ |
        ⟨x, s', L', hsome, hallocated⟩
      · rw [hnone]
        refine .inl ⟨rfl, fun y o' hy => ?_⟩
        have hlt := hsmall y o' hy
        have hne : o' ≠ o := by
          rintro rfl
          obtain ⟨l, hl, hmem⟩ := h.lists o'
          rw [hempty] at hl
          obtain rfl := hl.eq_nil
          exact absurd ((hmem _).mpr ⟨y, rfl, hy⟩) List.not_mem_nil
        omega
      · rw [hsome]
        dsimp only
        rw [if_neg (by omega)]
        exact .inr ⟨x, _, _, rfl, hallocated.split ho hempty⟩
    · rw [if_neg hempty]
      obtain ⟨x, L', hfirst, hallocated⟩ := h.allocated hempty
      refine .inr ⟨x, _, L', ?_, hallocated⟩
      rw [← hfirst]

/-! ### Sizes -/

variable {n : ℕ}

/-- `get_bits` gives the least order that is large enough. -/
lemma getBits_le_iff (h : o < 64) : getBits n ≤ o ↔ n ≤ 2 ^ o := by
  unfold getBits
  rcases hfind : (List.range 64).find? fun i => n ≤ 2 ^ i with _ | i
  · have hnot := List.find?_eq_none.mp hfind o (List.mem_range.mpr h)
    have hlarge : ¬ n ≤ 2 ^ o := by simpa using hnot
    refine iff_of_false ?_ hlarge
    show ¬ 64 ≤ o
    omega
  · obtain ⟨hi, -, hfirst⟩ := List.find?_range_eq_some.mp hfind
    have hle : n ≤ 2 ^ i := by simpa using hi
    show i ≤ o ↔ n ≤ 2 ^ o
    constructor
    · exact fun hio => hle.trans (Nat.pow_le_pow_right Nat.two_pos hio)
    · intro hn
      by_contra hcontra
      have hnot : ¬ n ≤ 2 ^ o := by simpa using hfirst o (not_le.mp hcontra)
      exact hnot hn

/-- For a size that is neither 0 nor close to the greatest one nothing overflows. -/
lemma roundUp_eq (h : 1 ≤ n ∧ n ≤ 2 ^ 64 - 32) : roundUp n = ((n + 15) / 16 + 1) * 16 := by
  have halign : alignment = 16 := rfl
  unfold roundUp
  rw [halign]
  omega

lemma roundUp_le_iff (h : 1 ≤ n ∧ n ≤ 2 ^ 64 - 32) : roundUp n ≤ 2 ^ o ↔ n + 16 ≤ 2 ^ o := by
  rw [roundUp_eq h]
  by_cases ho : 4 ≤ o
  · obtain ⟨k, hk⟩ : 2 ^ 4 ∣ 2 ^ o := Nat.pow_dvd_pow 2 ho
    omega
  · have hsmall : 2 ^ o ≤ 2 ^ 3 := Nat.pow_le_pow_right Nat.two_pos (by omega)
    omega

/-- The order of the page for a request. -/
lemma five_le_getBits (h : 1 ≤ n ∧ n ≤ 2 ^ 64 - 32) : 5 ≤ getBits (roundUp n) := by
  by_contra hcontra
  have hle := (getBits_le_iff (by decide)).mp (by omega : getBits (roundUp n) ≤ 4)
  have hfour : n + 16 ≤ 2 ^ 4 := (roundUp_le_iff h).mp hle
  omega

/-- `malloc` gives a page with room for the header and the request, unless all free pages are
smaller. -/
theorem malloc_spec (h : Describes s L total) (hn : 1 ≤ n ∧ n ≤ 2 ^ 64 - 32) :
    (s.malloc n = (0, s) ∧ ∀ y o', L y = some ⟨o', false⟩ → 2 ^ o' < n + 16) ∨
      ∃ x s' L' o, s.malloc n = (s.memory + x + alignment, s') ∧ Allocated s L s' L' x o total ∧
      n + 16 ≤ 2 ^ o := by
  have hpos := Describes.memory_pos s
  unfold malloc pageAlloc
  rcases pageAllocFrom_spec _ h (five_le_getBits hn) rfl with ⟨hnone, hsmall⟩ |
    ⟨x, s', L', hsome, hallocated⟩
  · rw [hnone]
    refine .inl ⟨rfl, fun y o' hy => ?_⟩
    have hlt := hsmall y o' hy
    by_contra hcontra
    have hlarge := (roundUp_le_iff hn).mpr (not_lt.mp hcontra)
    have horder : o' < 63 := h.order_lt hy
    have hle := (getBits_le_iff (by omega)).mpr hlarge
    omega
  · rw [hsome]
    have horder : getBits (roundUp n) < 63 :=
      hallocated.describes.order_lt (hallocated.used.mpr (.inl ⟨rfl, rfl⟩))
    have hle := (roundUp_le_iff hn).mp ((getBits_le_iff (by omega)).mp le_rfl)
    refine .inr ⟨x, s', L', _, ?_, hallocated, hle⟩
    dsimp only
    rw [if_neg (by omega)]

/-- Where no page is free `malloc` finds none, whatever the size. -/
lemma malloc_of_empty (n : ℕ) (h : ∀ bits, s.freeList bits = 0) : s.malloc n = (0, s) := by
  have hnone : ∀ levels o, pageAllocFrom levels o s = (0, s) := by
    intro levels
    induction levels with
    | zero => exact fun _ => rfl
    | succ levels ih =>
      intro o
      unfold pageAllocFrom
      rw [if_pos (h o), ih]
      rfl
  unfold malloc pageAlloc
  rw [hnone]
  rfl

/-! ## Freeing -/

/-- A page is not in use any more, and nothing else has changed for those who use the memory. -/
structure Freed (s : BuddyAllocator) (L : Layout) (s' : BuddyAllocator) (L' : Layout)
    (x total : ℕ) : Prop where
  describes : Describes s' L' total
  used : ∀ {y q}, L' y = some ⟨q, true⟩ ↔ y ≠ x ∧ L y = some ⟨q, true⟩
  merged : L.Merged → L'.Merged
  arena : s'.arena = s.arena
  writes : Writes s s' (Begins s.memory L)

namespace Describes

/-- The region ends where a page ends. -/
lemma dvd_total (h : Describes s L total) : 32 ∣ total := by
  rcases Nat.eq_zero_or_pos total with rfl | hpos
  · exact Nat.dvd_zero 32
  · obtain ⟨x, page, hx, hle, hlt⟩ := h.tiles.cover (by omega : total - 1 < total)
    have hin := h.tiles.inside hx
    have hend : total = x + 2 ^ page.order := by omega
    have hpow : 2 ^ 5 ∣ 2 ^ page.order := Nat.pow_dvd_pow 2 (h.tiles.order_ge hx)
    rw [hend]
    exact Nat.dvd_add (h.dvd hx) hpow

lemma total_lt (h : Describes s L total) : total < 2 ^ 63 := by
  by_contra hcontra
  have hle := h.arena.order_le (not_lt.mp hcontra)
  have hmax := h.arena.max_lt
  omega

/-- `get_buddy` finds the buddy if there can be a page. -/
lemma getBuddy_eq (h : Describes s L total) {u : Bool} (hx : L x = some ⟨o, u⟩)
    (hbits : s'.get .bits (s.memory + x) = o) (harena : s'.arena = s.arena) :
    s'.getBuddy (s.memory + x) =
      some (if buddy o x + 2 ^ o ≤ total then s.memory + buddy o x else 0) := by
  have hlt : o < 63 := h.order_lt hx
  have hin : x + 2 ^ o ≤ total := h.tiles.inside hx
  have htotal := h.total_lt
  have hpos : 0 < 2 ^ o := Nat.two_pow_pos o
  have hmemory := memory_of_arena harena
  have hsize : s'.memorySize = s.memorySize := congrArg (fun a : ℕ × ℕ × ℤ => a.2.1) harena
  have hle := h.arena.total_le
  have hend := h.arena.lt_total (by omega)
  obtain ⟨z, hz, hhalves⟩ : ∃ z, 2 ^ (o + 1) ∣ z ∧
      (x = z ∧ buddy o x = z + 2 ^ o ∨ x = z + 2 ^ o ∧ buddy o x = z) :=
    halves (h.tiles.dvd hx)
  have hbuddy : 32 ∣ buddy o x := by
    have hdvd := h.dvd hx
    have hpow : 2 ^ 5 ∣ 2 ^ o := Nat.pow_dvd_pow 2 (h.tiles.order_ge hx)
    rcases hhalves with ⟨heq, heq'⟩ | ⟨heq, heq'⟩ <;> omega
  have hwrap : (buddy o x + 2 ^ o) % 2 ^ 64 = buddy o x + 2 ^ o := by
    refine Nat.mod_eq_of_lt ?_
    rcases hhalves with ⟨heq, heq'⟩ | ⟨heq, heq'⟩ <;> omega
  have hxor : 2 ^ o ^^^ (s.memory + x - s.memory) = buddy o x := by
    rw [Nat.add_sub_cancel_left, Nat.xor_comm]
    rfl
  unfold BuddyAllocator.getBuddy
  simp only [hbits, hmemory, hsize, hxor, hwrap]
  rw [if_neg (by omega)]
  by_cases hfits : buddy o x + 2 ^ o ≤ total
  · rw [if_neg (by omega), if_pos hfits, Nat.add_comm]
  · have hdvd := h.dvd_total
    have hpow : 2 ^ 5 ∣ 2 ^ o := Nat.pow_dvd_pow 2 (h.tiles.order_ge hx)
    rw [if_pos (by omega), if_neg hfits]

end Describes

lemma Describes.freed (h : Describes s L total) (hx : L x = some ⟨o, true⟩)
    (hbuddy : L (buddy o x) ≠ some ⟨o, false⟩) (hne : buddy o x ≠ x) :
    Freed s L ((s.set .bits (s.memory + x) o).giveBack (s.memory + x) o)
      (L.set x (some ⟨o, false⟩)) x total := by
  refine ⟨h.givePage hx, ?_, fun hmerged => hmerged.give hbuddy hne, by simp, ?_⟩
  · intro y q
    rw [Layout.set_eq_some]
    constructor
    · rintro (⟨-, hcontra⟩ | hold)
      · exact absurd hcontra (by simp)
      · exact hold
    · exact .inr
  · have hbegins : Begins s.memory L (s.memory + x) := ⟨x, _, rfl, hx⟩
    refine ((Writes.refl s _).set hbegins).giveBack hbegins fun hfirst => ?_
    rcases h.first o with hzero | ⟨y, heq, hy⟩
    · exact absurd hzero hfirst
    · exact ⟨y, _, heq, hy⟩

lemma Freed.of_merged {z : ℕ} (h' : Freed (s.merged x o z) (L.merge z o) s' L' z total)
    (h : Describes s L total) (hx : L x = some ⟨o, true⟩) (hbuddy : L (buddy o x) = some ⟨o, false⟩)
    (hwhich : z = x ∧ z + 2 ^ o = buddy o x ∨ z = buddy o x ∧ z + 2 ^ o = x) :
    Freed s L s' L' x total := by
  have hbegins : ∀ {y}, y = z ∨ y = buddy o x ∨ y = x → Begins s.memory L (s.memory + y) := by
    intro y hy
    have hor : y = x ∨ y = buddy o x := by
      rcases hwhich with ⟨rfl, -⟩ | ⟨rfl, -⟩ <;> tauto
    rcases hor with rfl | rfl
    · exact ⟨_, _, rfl, hx⟩
    · exact ⟨_, _, rfl, hbuddy⟩
  refine ⟨h'.describes, ?_, fun hmerged =>
    h'.merged (hmerged.merge z o), h'.arena.trans arena_merged, ?_⟩
  · intro y q
    rw [h'.used, Layout.merge_eq_some]
    constructor
    · rintro ⟨hyz, ⟨hcontra, -⟩ | ⟨-, hyb, hold⟩⟩
      · exact absurd hcontra hyz
      · refine ⟨?_, hold⟩
        rcases hwhich with ⟨rfl, -⟩ | ⟨-, heq⟩
        · exact hyz
        · exact fun hcontra => hyb (hcontra.trans heq.symm)
    · rintro ⟨hyx, hold⟩
      have hyb : y ≠ buddy o x := by
        rintro rfl
        exact absurd (hold.symm.trans hbuddy) (by simp)
      rcases hwhich with ⟨rfl, heq⟩ | ⟨rfl, heq⟩
      · exact ⟨hyx, .inr ⟨hyx, fun hcontra => hyb (hcontra.trans heq), hold⟩⟩
      · exact ⟨hyb, .inr ⟨hyb, fun hcontra => hyx (hcontra.trans heq), hold⟩⟩
  · have hmerged : Writes s (s.merged x o z) (Begins s.memory L) := by
      have hfirst : Writes s (s.set .bits (s.memory + x) o) (Begins s.memory L) :=
        (Writes.refl s _).set (hbegins (.inr (.inr rfl)))
      refine (hfirst.unlinkBuddy fun f hf hne => ?_).set (hbegins (.inl rfl))
      have hlt : o < 63 := h.order_lt hx
      have hwidth : 256 ^ Field.bits.width = 2 ^ 32 := rfl
      have hsame : (s.set .bits (s.memory + x) o).get f (s.memory + buddy o x) =
          s.get f (s.memory + buddy o x) := by
        rw [get_set (by omega) (h.modEq₂ hx hbuddy s.memory), if_neg (fun hcontra => hf hcontra.1)]
      rw [hsame] at hne ⊢
      rcases h.link hbuddy hf with hzero | ⟨y, heq, hy⟩
      · exact absurd hzero hne
      · exact ⟨y, _, heq, hy⟩
    refine hmerged.trans (h'.writes.mono fun p => ?_)
    rw [memory_of_arena arena_merged]
    rintro ⟨y, page, rfl, hy⟩
    rcases Layout.merge_eq_some.mp hy with ⟨rfl, -⟩ | ⟨-, -, hold⟩
    · exact hbegins (.inl rfl)
    · exact ⟨y, page, rfl, hold⟩

/-- `free_page` merges as long as it can, and gives the page back. -/
theorem freePageFrom_spec (fuel : ℕ) (h : Describes s L total) (hx : L x = some ⟨o, true⟩)
    (hfuel : 63 ≤ o + fuel) :
    ∃ s' L', freePageFrom fuel (s.memory + x) s = some s' ∧ Freed s L s' L' x total := by
  induction fuel generalizing s L x o with
  | zero =>
    have hlt : o < 63 := h.order_lt hx
    omega
  | succ fuel ih =>
    have hpos := Describes.memory_pos s
    have hlt : o < 63 := h.order_lt hx
    have hwidth : 256 ^ Field.bits.width = 2 ^ 32 := rfl
    have hheader : s.get .bits (s.memory + x) - pageInUse = o := by
      rw [h.header hx]
      exact Nat.add_sub_cancel o pageInUse
    have hbits : ∀ {y page}, L y = some page →
      (s.set .bits (s.memory + x) o).get .bits (s.memory + y) =
        if y = x then o else s.get .bits (s.memory + y) := by
      intro y page hy
      rw [get_set (by omega) (h.modEq₂ hx hy s.memory)]
      simp
    have hbuddyx : buddy o x ≠ x := by
      have hpow : 0 < 2 ^ o := Nat.two_pow_pos o
      obtain ⟨z, hz, hhalves⟩ : ∃ z, 2 ^ (o + 1) ∣ z ∧
          (x = z ∧ buddy o x = z + 2 ^ o ∨ x = z + 2 ^ o ∧ buddy o x = z) :=
        halves (h.tiles.dvd hx)
      omega
    unfold freePageFrom
    dsimp only
    rw [hheader, h.getBuddy_eq hx ((hbits hx).trans (if_pos rfl)) arena_set, Option.bind_some]
    by_cases hbuddy : L (buddy o x) = some ⟨o, false⟩
    · have hfits : buddy o x + 2 ^ o ≤ total := h.tiles.inside hbuddy
      have hcondition : s.memory + buddy o x ≠ 0 ∧
          (s.set .bits (s.memory + x) o).get .bits (s.memory + buddy o x) = o := by
        refine ⟨by omega, ?_⟩
        rw [hbits hbuddy, if_neg hbuddyx, h.header hbuddy]
        rfl
      obtain ⟨z, hwhich, hmin, hdescribes⟩ := h.mergePage hx hbuddy
      rw [if_pos hfits, if_pos hcondition, hmin]
      have hz : L.merge z o z = some ⟨o + 1, true⟩ := Layout.merge_eq_some.mpr (.inl ⟨rfl, rfl⟩)
      obtain ⟨s', L', heq, hfreed⟩ := ih hdescribes hz (by omega)
      rw [memory_of_arena arena_merged] at heq
      exact ⟨s', L', heq, hfreed.of_merged h hx hbuddy hwhich⟩
    · have hcondition : ¬ ((if buddy o x + 2 ^ o ≤ total then s.memory + buddy o x else 0) ≠ 0 ∧
          (s.set .bits (s.memory + x) o).get .bits
            (if buddy o x + 2 ^ o ≤ total then s.memory + buddy o x else 0) =
            o) := by
        by_cases hfits : buddy o x + 2 ^ o ≤ total
        · rw [if_pos hfits]
          rintro ⟨-, hsame⟩
          obtain ⟨⟨o', u⟩, hq, -⟩ := h.tiles.exists_buddy hx hfits
          rw [hbits hq, if_neg hbuddyx, h.header hq] at hsame
          cases u with
          | false =>
            obtain rfl : o' = o := hsame
            exact hbuddy hq
          | true =>
            have huse : o' + 256 = o := hsame
            omega
        · rw [if_neg hfits]
          exact fun hcontra => hcontra.1 rfl
      rw [if_neg hcondition]
      exact ⟨_, _, rfl, h.freed hx hbuddy hbuddyx⟩

/-- `free` of what `malloc` has given. -/
theorem free_spec (h : Describes s L total) (hx : L x = some ⟨o, true⟩) :
    ∃ s' L', s.free (s.memory + x + alignment) = some s' ∧ Freed s L s' L' x total := by
  have hpos := Describes.memory_pos s
  have hlt : o < 63 := h.order_lt hx
  have hheader : s.get .bits (s.memory + x) = 2 ^ 8 * 1 + o := by
    rw [h.header hx]
    exact Nat.add_comm _ _
  have hused : (s.get .bits (s.memory + x)).testBit 8 = true := by
    rw [hheader, Nat.testBit_two_pow_mul_add 1 (by omega : o < 2 ^ 8)]
    rfl
  obtain ⟨s', L', heq, hfreed⟩ := freePageFrom_spec 65 h hx (by omega)
  refine ⟨s', L', ?_, hfreed⟩
  unfold free freePage
  rw [if_neg (by omega), Nat.add_sub_cancel, if_pos hused, if_pos hused]
  exact heq

end BuddyAllocator

end Shmem

end Cppcms
