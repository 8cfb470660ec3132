import Cppcms.Shmem.BuddyAllocator
import Cppcms.Library.BuddySystem
import Cppcms.Library.DoublyLinked

/-!
# The pages of the allocator

The headers and the lists of the allocator describe a layout of its memory (`Describes`).  Its
functions change the layout in the four ways of a buddy system: `page_alloc` takes a free page or
splits one in use, `free_page` merges a page with its buddy or gives it back.  There is a lemma for
each of the four, and each tells which headers are written.
-/

namespace Cppcms

namespace Shmem

open BuddySystem DoublyLinked

namespace BuddyAllocator

variable {s : BuddyAllocator} {f g : Field} {p q r v bits o x y total : ℕ} {L : Layout}

/-! ## Fields -/

/-- What never changes. -/
def arena (s : BuddyAllocator) : ℕ × ℕ × ℤ := (s.self, s.memorySize, s.maxBitSize)

variable {s' : BuddyAllocator} {z : ℕ}

lemma memory_of_arena (h : s'.arena = s.arena) : s'.memory = s.memory :=
  congrArg (fun a : ℕ × ℕ × ℤ => a.1 + sizeOfThis) h

@[simp] lemma arena_set : (s.set f p v).arena = s.arena := rfl

@[simp] lemma arena_setFree : (s.setFree bits p).arena = s.arena := rfl

@[simp] lemma arena_setIf : (s.setIf f p v).arena = s.arena := by
  unfold setIf
  split_ifs <;> rfl

@[simp] lemma freeList_set : (s.set f p v).freeList = s.freeList := rfl

@[simp] lemma freeList_setFree : (s.setFree bits p).freeList = Function.update s.freeList bits p :=
  rfl

@[simp] lemma freeList_setIf : (s.setIf f p v).freeList = s.freeList := by
  unfold setIf
  split_ifs <;> rfl

@[simp] lemma get_setFree : (s.setFree bits p).get f q = s.get f q := rfl

/-- The headers of different pages do not overlap, since pages have 32 octets at least, nor do the
fields of one. -/
lemma get_set (hv : v < 256 ^ f.width) (h : p ≡ q [MOD 32]) :
    (s.set f p v).get g q = if g = f ∧ q = p then v else s.get g q := by
  by_cases hsame : g = f ∧ q = p
  · obtain ⟨rfl, rfl⟩ := hsame
    rw [if_pos ⟨rfl, rfl⟩]
    exact Memory.load_store hv
  · rw [if_neg hsame]
    refine Memory.load_store_of_disjoint ?_
    by_cases hqp : q = p
    · subst hqp
      rcases f with _ | _ | _ <;> rcases g with _ | _ | _ <;>
        simp [Field.offset, Field.width] at hsame ⊢
    · have hf : f.offset + f.width ≤ 24 := by rcases f with _ | _ | _ <;> decide
      have hg : g.offset + g.width ≤ 24 := by rcases g with _ | _ | _ <;> decide
      unfold Nat.ModEq at h
      omega

lemma get_setIf (hv : v < 256 ^ f.width) (h : p = 0 ∨ p ≡ q [MOD 32]) (hq : q ≠ 0) :
    (s.setIf f p v).get g q = if g = f ∧ q = p then v else s.get g q := by
  unfold setIf
  by_cases hzero : p = 0
  · have hnot : ¬ (g = f ∧ q = p) := fun hcontra => hq (hcontra.2.trans hzero)
    rw [if_pos hzero, if_neg hnot]
  · rw [if_neg hzero, get_set hv (h.resolve_left hzero)]

lemma get_lt : s.get f p < 256 ^ f.width := by
  have hlt := fromLittleEndian_lt (s.octets.read (p + f.offset) f.width)
  rw [Memory.length_read] at hlt
  exact hlt

/-! ## What the parts of the functions do to the headers -/

lemma zero_lt_width : 0 < 256 ^ f.width := Nat.pow_pos (by decide)

lemma get_markUsed (h : p ≡ q [MOD 32]) (hbits : bits < 64) :
    (s.markUsed p bits).get g q = if q = p then if g =
      .bits then bits + pageInUse else 0 else s.get g q := by
  have hvalue : bits + pageInUse < 256 ^ Field.bits.width := by
    have hwidth : 256 ^ Field.bits.width = 2 ^ 32 := rfl
    have huse : pageInUse = 256 := rfl
    omega
  unfold markUsed
  rw [get_set hvalue h, get_set zero_lt_width h, get_set zero_lt_width h]
  rcases g with _ | _ | _ <;> simp

lemma get_splitOff (h : p + 2 ^ bits ≡ q [MOD 32]) (hbits : bits < 64) :
    (s.splitOff p bits).get g q = if q = p + 2 ^ bits then if g =
      .bits then bits else 0 else s.get g q := by
  have hvalue : bits < 256 ^ Field.bits.width := by
    have hwidth : 256 ^ Field.bits.width = 2 ^ 32 := rfl
    omega
  unfold splitOff
  dsimp only
  rw [get_setFree, get_set hvalue h, get_set zero_lt_width h, get_set zero_lt_width h]
  rcases g with _ | _ | _ <;> simp

/-- The second page of the list gets to be the first one. -/
lemma get_disconnect
    (h : s.get .next (s.freeList bits) = 0 ∨ s.get .next (s.freeList bits) ≡ q [MOD 32])
    (hq : q ≠ 0) :
    (s.disconnect bits).get g q = if g = .prev ∧
    q = s.get .next (s.freeList bits) then 0 else s.get g q := by
  unfold disconnect
  dsimp only
  rw [get_setIf zero_lt_width h hq, get_setFree]

lemma get_unlinkBuddy (hnext : s.get .next p = 0 ∨ s.get .next p ≡ q [MOD 32])
    (hprev : s.get .prev p = 0 ∨ s.get .prev p ≡ q [MOD 32]) (hq : q ≠ 0) :
    (s.unlinkBuddy p bits).get g q =
      if g = .next ∧ q = s.get .prev p then s.get .next p
      else if g = .prev ∧ q = s.get .next p then s.get .prev p else s.get g q := by
  have hsame : (s.unlinkBuddy p bits).get g q =
      ((s.setIf .prev (s.get .next p) (s.get .prev p)).setIf .next (s.get .prev p)
        (s.get .next p)).get g q := by
    unfold unlinkBuddy
    by_cases hzero : s.get .prev p = 0
    · simp only [if_pos hzero, get_setFree]
    · simp only [if_neg hzero]
  rw [hsame, get_setIf (get_lt (f := .next)) hprev hq, get_setIf (get_lt (f := .prev)) hnext hq]

lemma get_giveBack (h : p ≡ q [MOD 32]) (hlist : s.freeList bits = 0 ∨ s.freeList bits ≡ q [MOD 32])
    (hlt : s.freeList bits < 2 ^ 64) (hplt : p < 2 ^ 64) (hq : q ≠ 0) :
    (s.giveBack p bits).get g q =
      if g = .prev ∧ q = s.freeList bits then p
      else if q = p ∧ g ≠ .bits then if g = .next then s.freeList bits else 0 else s.get g q := by
  have hlt' : s.freeList bits < 256 ^ Field.next.width := hlt
  have hplt' : p < 256 ^ Field.prev.width := hplt
  unfold giveBack
  dsimp only
  rw [get_setFree, get_setIf hplt' hlist hq, get_set zero_lt_width h, get_set hlt' h]
  rcases g with _ | _ | _ <;> simp

@[simp] lemma arena_markUsed : (s.markUsed p bits).arena = s.arena := rfl

@[simp] lemma arena_splitOff : (s.splitOff p bits).arena = s.arena := rfl

@[simp] lemma arena_disconnect : (s.disconnect bits).arena = s.arena := by
  unfold disconnect
  simp

@[simp] lemma arena_unlinkBuddy : (s.unlinkBuddy p bits).arena = s.arena := by
  unfold unlinkBuddy
  dsimp only
  split_ifs <;> simp

@[simp] lemma arena_giveBack : (s.giveBack p bits).arena = s.arena := by
  unfold giveBack
  simp

@[simp] lemma freeList_markUsed : (s.markUsed p bits).freeList = s.freeList := rfl

@[simp] lemma freeList_splitOff :
    (s.splitOff p bits).freeList = Function.update s.freeList bits (p + 2 ^ bits) := rfl

@[simp] lemma freeList_disconnect :
    (s.disconnect bits).freeList = Function.update s.freeList bits
      (s.get .next (s.freeList bits)) := by
  unfold disconnect
  simp

lemma freeList_unlinkBuddy : (s.unlinkBuddy p bits).freeList =
    if s.get .prev p = 0 then Function.update s.freeList bits (s.get .next p) else s.freeList := by
  unfold unlinkBuddy
  dsimp only
  split_ifs <;> simp

@[simp] lemma freeList_giveBack :
    (s.giveBack p bits).freeList = Function.update s.freeList bits p := by
  unfold giveBack
  simp

/-- The allocator after a page in use has been merged with its buddy to a page at `z`. -/
def merged (s : BuddyAllocator) (x o z : ℕ) : BuddyAllocator :=
  ((s.set .bits (s.memory + x) o).unlinkBuddy (s.memory + buddy o x) o).set .bits (s.memory + z)
    (o + 1 + pageInUse)

@[simp] lemma arena_merged : (s.merged x o z).arena = s.arena := by
  unfold merged
  simp

/-! ## Layouts -/

/-- What is known of the memory as a whole: the pages are in its first `total` octets. -/
structure Arena (s : BuddyAllocator) (total : ℕ) : Prop where
  total_le : total ≤ s.memorySize
  lt_total : 0 < total → s.memorySize < total + 32
  in_space : s.memory + s.memorySize ≤ 2 ^ 64
  order_le : ∀ {o : ℕ}, 2 ^ o ≤ total → (o : ℤ) ≤ s.maxBitSize
  max_lt : s.maxBitSize < 63

lemma Arena.of_eq (h : Arena s total) (harena : s'.arena = s.arena) : Arena s' total := by
  have hmemory := memory_of_arena harena
  obtain ⟨-, hsize, hmax⟩ : s'.self = s.self ∧ s'.memorySize = s.memorySize ∧
      s'.maxBitSize = s.maxBitSize := by
    simpa [arena] using harena
  constructor
  · rw [hsize]
    exact h.total_le
  · rw [hsize]
    exact h.lt_total
  · rw [hmemory, hsize]
    exact h.in_space
  · rw [hmax]
    exact h.order_le
  · rw [hmax]
    exact h.max_lt

/-- The pages of an order are the nodes of a list. -/
def Lists (s : BuddyAllocator) (L : Layout) (o : ℕ) : Prop :=
  ∃ l, Linked (fun q => s.get .next q) (fun q => s.get .prev q) 0 0 l (s.freeList o) ∧
    ∀ q, q ∈ l ↔ ∃ x, q = s.memory + x ∧ L x = some ⟨o, false⟩

/-- The headers and the lists of the allocator tell the layout. -/
structure Describes (s : BuddyAllocator) (L : Layout) (total : ℕ) : Prop where
  arena : Arena s total
  tiles : L.Tiles 5 total
  header : ∀ {x p}, L x = some p →
    s.get .bits (s.memory + x) = p.order + if p.used then pageInUse else 0
  lists : ∀ o, Lists s L o

namespace Describes

variable {s' : BuddyAllocator} {L' : Layout} {page : Page}

lemma memory_pos (s : BuddyAllocator) : 0 < s.memory := by
  unfold memory sizeOfThis
  omega

lemma dvd (h : Describes s L total) (hx : L x = some page) : 32 ∣ x :=
  (Nat.pow_dvd_pow 2 (h.tiles.order_ge hx)).trans (h.tiles.dvd hx)

lemma modEq (h : Describes s L total) (hx : L x = some page) (m : ℕ) : m + x ≡ m [MOD 32] := by
  have hdvd := h.dvd hx
  unfold Nat.ModEq
  omega

variable {page' : Page}

/-- Two pages. -/
lemma modEq₂ (h : Describes s L total) (hx : L x = some page) (hy : L y = some page') (m : ℕ) :
    m + x ≡ m + y [MOD 32] := (h.modEq hx m).trans (h.modEq hy m).symm

lemma le_pow (h : Describes s L total) (hx : L x = some page) : 2 ^ 5 ≤ 2 ^ page.order :=
  Nat.pow_le_pow_right Nat.two_pos (h.tiles.order_ge hx)

lemma order_lt (h : Describes s L total) (hx : L x = some page) : page.order < 63 := by
  have hin := h.tiles.inside hx
  have hpow : 2 ^ page.order ≤ total := by omega
  have hle := h.arena.order_le hpow
  have hmax := h.arena.max_lt
  omega

lemma end_le (h : Describes s L total) (hx : L x = some page) :
    s.memory + x + 2 ^ page.order ≤ 2 ^ 64 := by
  have hin := h.tiles.inside hx
  have hle := h.arena.total_le
  have hspace := h.arena.in_space
  omega

/-- The list of an order of which neither the pages nor their links have changed. -/
lemma lists_of_unchanged (h : Lists s L o) (hmemory : s'.memory = s.memory)
    (hfirst : s'.freeList o = s.freeList o)
    (hL : ∀ x, L' x = some ⟨o, false⟩ ↔ L x = some ⟨o, false⟩)
    (hget : ∀ x, L x = some ⟨o, false⟩ → ∀ g, g ≠ .bits →
      s'.get g (s.memory + x) = s.get g (s.memory + x)) :
    Lists s' L' o := by
  obtain ⟨l, hl, hmem⟩ := h
  refine ⟨l, ?_, fun q => ?_⟩
  · rw [hfirst]
    refine hl.congr (fun q hq => ?_) fun q hq => ?_
    · obtain ⟨x, rfl, hx⟩ := (hmem q).mp hq
      exact hget x hx .next (by decide)
    · obtain ⟨x, rfl, hx⟩ := (hmem q).mp hq
      exact hget x hx .prev (by decide)
  · rw [hmem q, hmemory]
    simp only [hL]

/-- What is not in a header does not matter, nor do the links of a page in use. -/
lemma of_get (h : Describes s L total) (harena : s'.arena = s.arena)
    (hfirst : s'.freeList = s.freeList)
    (hget : ∀ {y page g}, L y = some page → (page.used = true → g = .bits) →
      s'.get g (s.memory + y) = s.get g (s.memory + y)) : Describes s' L total := by
  have hmemory := memory_of_arena harena
  refine ⟨h.arena.of_eq harena, h.tiles, fun hx => ?_, fun o => ?_⟩
  · rw [hmemory, hget hx fun _ => rfl]
    exact h.header hx
  · refine lists_of_unchanged (h.lists o) hmemory (congrFun hfirst o) (fun _ => Iff.rfl)
      fun y hy g _ => ?_
    exact hget hy fun hcontra => absurd hcontra Bool.false_ne_true

/-- The list of an order begins with a free page of it, if there is one. -/
lemma first (h : Describes s L total) (o : ℕ) :
    s.freeList o = 0 ∨ ∃ y, s.freeList o = s.memory + y ∧ L y = some ⟨o, false⟩ := by
  obtain ⟨l, hl, hmem⟩ := h.lists o
  rcases l with _ | ⟨a, l⟩
  · exact .inl hl
  · right
    rw [hl.1]
    exact (hmem a).mp List.mem_cons_self

/-- The links of a free page lead to free pages of its order. -/
lemma link (h : Describes s L total) (hx : L x = some ⟨o, false⟩) (hf : f ≠ .bits) :
    s.get f (s.memory + x) = 0 ∨ ∃ y, s.get f (s.memory + x) = s.memory + y ∧
    L y = some ⟨o, false⟩ := by
  obtain ⟨l, hl, hmem⟩ := h.lists o
  have hin : s.memory + x ∈ l := (hmem _).mpr ⟨x, rfl, hx⟩
  cases f with
  | bits => exact absurd rfl hf
  | next => exact (hl.next_mem hin).imp_right (hmem _).mp
  | prev => exact (hl.prev_mem hin).imp_right (hmem _).mp

/-- A free page is taken from its list. -/
lemma take (h : Describes s L total) (hne : s.freeList o ≠ 0) :
    ∃ x, s.freeList o = s.memory + x ∧ L x = some ⟨o, false⟩ ∧
      Describes ((s.disconnect o).markUsed (s.freeList o) o) (L.set x (some ⟨o, true⟩)) total := by
  obtain ⟨l, hl, hmem⟩ := h.lists o
  rcases l with _ | ⟨a, l⟩
  · exact absurd hl hne
  have hfirst : s.freeList o = a := hl.1
  have hnotin := (List.nodup_cons.mp hl.nodup).1
  obtain ⟨x, rfl, hx⟩ := (hmem a).mp List.mem_cons_self
  have hpos := memory_pos s
  have hlt : o < 64 := (h.order_lt hx).trans (by decide)
  have hnext := h.link hx (by decide : Field.next ≠ .bits)
  -- the fields of a page
  have hget : ∀ {g y page}, L y = some page →
    ((s.disconnect o).markUsed (s.memory + x) o).get g (s.memory + y) =
      if y = x then if g = .bits then o + pageInUse else 0
      else if g = .prev ∧ s.memory + y = s.get .next (s.memory + x) then 0
        else s.get g (s.memory + y) := by
    intro g y page hy
    have hmod := h.modEq₂ hx hy s.memory
    have hmod' : s.get .next (s.freeList o) = 0 ∨
        s.get .next (s.freeList o) ≡ s.memory + y [MOD 32] := by
      rw [hfirst]
      refine hnext.imp_right fun ⟨z, hz, hpage⟩ => ?_
      rw [hz]
      exact h.modEq₂ hpage hy s.memory
    rw [get_markUsed hmod hlt, get_disconnect hmod' (by omega), hfirst]
    simp only [Nat.add_left_cancel_iff]
  rw [hfirst]
  refine ⟨x, rfl, hx, h.arena.of_eq (by simp), h.tiles.mark hx, ?_, fun o' => ?_⟩
  · intro y page hy
    rw [memory_of_arena (by simp : _ = s.arena)]
    rcases Layout.set_eq_some.mp hy with ⟨rfl, hpage⟩ | ⟨hyx, hpage⟩
    · rw [hget hx, if_pos rfl, if_pos rfl, ← Option.some.inj hpage]
      rfl
    · rw [hget hpage, if_neg hyx, if_neg (by simp)]
      exact h.header hpage
  · by_cases horder : o' = o
    · subst horder
      refine ⟨l, ?_, fun q => ?_⟩
      · rw [freeList_markUsed, freeList_disconnect, Function.update_self, hfirst]
        refine hl.pop (fun q hq => ?_) fun q hq => ?_
        · obtain ⟨y, rfl, hy⟩ := (hmem q).mp (List.mem_cons_of_mem _ hq)
          have hyx : y ≠ x := fun heq => hnotin (heq ▸ hq)
          rw [hget hy, if_neg hyx, if_neg (by simp)]
        · obtain ⟨y, rfl, hy⟩ := (hmem q).mp (List.mem_cons_of_mem _ hq)
          have hyx : y ≠ x := fun heq => hnotin (heq ▸ hq)
          rw [hget hy, if_neg hyx]
          simp only [true_and]
      · rw [memory_of_arena (by simp : _ = s.arena)]
        constructor
        · intro hq
          obtain ⟨y, rfl, hy⟩ := (hmem q).mp (List.mem_cons_of_mem _ hq)
          have hyx : y ≠ x := fun heq => hnotin (heq ▸ hq)
          exact ⟨y, rfl, Layout.set_eq_some.mpr (.inr ⟨hyx, hy⟩)⟩
        · rintro ⟨y, rfl, hy⟩
          rcases Layout.set_eq_some.mp hy with ⟨-, hcontra⟩ | ⟨hyx, hpage⟩
          · exact absurd hcontra (by simp)
          · refine (List.mem_cons.mp ((hmem _).mpr ⟨y, rfl, hpage⟩)).resolve_left ?_
            omega
    · refine lists_of_unchanged (h.lists o') (memory_of_arena (by simp)) ?_ (fun y => ?_)
        fun y hy g hg => ?_
      · rw [freeList_markUsed, freeList_disconnect, Function.update_of_ne horder]
      · rw [Layout.set_eq_some]
        constructor
        · rintro (⟨-, hcontra⟩ | ⟨-, hpage⟩)
          · exact absurd hcontra (by simp)
          · exact hpage
        · intro hpage
          refine .inr ⟨?_, hpage⟩
          rintro rfl
          exact horder (congrArg Page.order (Option.some.inj (hpage.symm.trans hx)))
      · have hyx : y ≠ x := by
          rintro rfl
          exact horder (congrArg Page.order (Option.some.inj (hy.symm.trans hx)))
        rw [hget hy, if_neg hyx, if_neg]
        rintro ⟨-, heq⟩
        rcases hnext with hzero | ⟨z, hz, hpage⟩
        · omega
        · obtain rfl : y = z := by omega
          exact horder (congrArg Page.order (Option.some.inj (hy.symm.trans hpage)))

/-- A page in use is split, and its second half is free. -/
lemma splitPage (h : Describes s L total) (hx : L x = some ⟨o + 1, true⟩) (ho : 5 ≤ o)
    (hempty : s.freeList o = 0) :
    Describes ((s.splitOff (s.memory + x) o).markUsed (s.memory + x) o) (L.split x o) total := by
  have hpos := memory_pos s
  have hpow : 2 ^ 5 ≤ 2 ^ o := Nat.pow_le_pow_right Nat.two_pos ho
  have hhalf : 2 ^ 5 ∣ 2 ^ o := Nat.pow_dvd_pow 2 ho
  have hlt : o < 64 := by
    have hlt' : o + 1 < 63 := h.order_lt hx
    omega
  have hnone : ∀ y, L y ≠ some ⟨o, false⟩ := by
    intro y hy
    obtain ⟨l, hl, hmem⟩ := h.lists o
    rw [hempty] at hl
    obtain rfl := hl.eq_nil
    exact absurd ((hmem _).mpr ⟨y, rfl, hy⟩) List.not_mem_nil
  have hadd : s.memory + x + 2 ^ o = s.memory + (x + 2 ^ o) := Nat.add_assoc _ _ _
  have hdvd : 32 ∣ x := h.dvd hx
  have hget : ∀ {g y}, 32 ∣ y →
    ((s.splitOff (s.memory + x) o).markUsed (s.memory + x) o).get g (s.memory + y) =
      if y = x then if g = .bits then o + pageInUse else 0
      else if y = x + 2 ^ o then if g = .bits then o else 0 else s.get g (s.memory + y) := by
    intro g y hy
    have hmod : s.memory + x ≡ s.memory + y [MOD 32] := by
      unfold Nat.ModEq
      omega
    have hmod' : s.memory + x + 2 ^ o ≡ s.memory + y [MOD 32] := by
      unfold Nat.ModEq
      omega
    rw [get_markUsed hmod hlt, get_splitOff hmod' hlt, hadd]
    simp only [Nat.add_left_cancel_iff]
  have htiles := h.tiles.split hx ho
  have hother : ∀ {y page}, L y = some page → y ≠ x → y ≠ x + 2 ^ o := by
    rintro y page hy hne rfl
    have hend : x + 2 ^ (o + 1) ≤ x + 2 ^ o := h.tiles.disjoint hx hy (by omega)
    have hgrow : 2 ^ (o + 1) = 2 ^ o + 2 ^ o := by rw [pow_succ, Nat.mul_two]
    omega
  refine ⟨h.arena.of_eq (by simp), htiles, ?_, fun o' => ?_⟩
  · intro y page hy
    rw [memory_of_arena (by simp : _ = s.arena)]
    rcases Layout.split_eq_some.mp hy with ⟨rfl, rfl⟩ | ⟨rfl, rfl⟩ | ⟨hyu, hyx, hpage⟩
    · rw [hget (Nat.dvd_add hdvd hhalf), if_neg (by omega), if_pos rfl, if_pos rfl]
      rfl
    · rw [hget hdvd, if_pos rfl, if_pos rfl]
      rfl
    · rw [hget (h.dvd hpage), if_neg hyx, if_neg hyu]
      exact h.header hpage
  · by_cases horder : o' = o
    · subst horder
      refine ⟨[s.memory + (x + 2 ^ o')], ?_, fun q => ?_⟩
      · rw [freeList_markUsed, freeList_splitOff, Function.update_self, hadd]
        have hlink : ∀ g, g ≠ .bits →
            ((s.splitOff (s.memory + x) o').markUsed (s.memory + x) o').get g
              (s.memory + (x + 2 ^ o')) = 0 := by
          intro g hg
          rw [hget (Nat.dvd_add hdvd hhalf), if_neg (by omega), if_pos rfl, if_neg hg]
        exact ⟨rfl, by omega, hlink .prev (by decide), hlink .next (by decide)⟩
      · rw [memory_of_arena (by simp : _ = s.arena), List.mem_singleton]
        constructor
        · rintro rfl
          exact ⟨_, rfl, Layout.split_eq_some.mpr (.inl ⟨rfl, rfl⟩)⟩
        · rintro ⟨y, rfl, hy⟩
          rcases Layout.split_eq_some.mp hy with ⟨rfl, -⟩ | ⟨-, hcontra⟩ | ⟨-, -, hpage⟩
          · rfl
          · exact absurd hcontra (by simp)
          · exact absurd hpage (hnone y)
    · refine lists_of_unchanged (h.lists o') (memory_of_arena (by simp)) ?_ (fun y => ?_)
        fun y hy g hg => ?_
      · rw [freeList_markUsed, freeList_splitOff, Function.update_of_ne horder]
      · rw [Layout.split_eq_some]
        constructor
        · rintro (⟨-, hcontra⟩ | ⟨-, hcontra⟩ | ⟨-, -, hpage⟩)
          · exact absurd (congrArg Page.order hcontra) horder
          · exact absurd hcontra (by simp)
          · exact hpage
        · intro hpage
          have hyx : y ≠ x := by
            rintro rfl
            exact absurd (hpage.symm.trans hx) (by simp)
          exact .inr (.inr ⟨hother hpage hyx, hyx, hpage⟩)
      · have hyx : y ≠ x := by
          rintro rfl
          exact absurd (hy.symm.trans hx) (by simp)
        rw [hget (h.dvd hy), if_neg hyx, if_neg (hother hy hyx)]

/-- The fields of the pages after the merge. -/
lemma get_merged (h : Describes s L total) (hx : L x = some ⟨o, true⟩)
    (hbuddy : L (buddy o x) = some ⟨o, false⟩) (hz : L z = some page') (hy : L y = some page) :
    (s.merged x o z).get g (s.memory + y) =
      match g with
      | .bits => if y = z then o + 1 + pageInUse
        else if y = x then o else s.get .bits (s.memory + y)
      | .next => if s.memory + y = s.get .prev (s.memory + buddy o x) then s.get .next
          (s.memory + buddy o x)
          else s.get .next (s.memory + y)
      | .prev => if s.memory + y = s.get .next (s.memory + buddy o x) then s.get .prev
          (s.memory + buddy o x)
          else s.get .prev (s.memory + y) := by
  have hpos := memory_pos s
  have hlt : o < 63 := h.order_lt hx
  have hwidth : 256 ^ Field.bits.width = 2 ^ 32 := rfl
  have huse : pageInUse = 256 := rfl
  have hvalue : o < 256 ^ Field.bits.width := by omega
  have hvalue' : o + 1 + pageInUse < 256 ^ Field.bits.width := by omega
  have hsame : ∀ f, f ≠ .bits → (s.set .bits (s.memory + x) o).get f (s.memory + buddy o x) =
      s.get f (s.memory + buddy o x) := by
    intro f hf
    rw [get_set hvalue (h.modEq₂ hx hbuddy s.memory), if_neg (fun hcontra => hf hcontra.1)]
  have hmod : ∀ f, f ≠ .bits → s.get f (s.memory + buddy o x) = 0 ∨
      s.get f (s.memory + buddy o x) ≡ s.memory + y [MOD 32] := by
    intro f hf
    refine (h.link hbuddy hf).imp_right fun ⟨w, hw, hpage⟩ => ?_
    rw [hw]
    exact h.modEq₂ hpage hy s.memory
  have hnext := hsame .next (by decide)
  have hprev := hsame .prev (by decide)
  unfold merged
  rw [get_set hvalue' (h.modEq₂ hz hy s.memory), get_unlinkBuddy, hnext, hprev,
    get_set hvalue (h.modEq₂ hx hy s.memory)]
  · cases g <;> simp
  · rw [hnext]
    exact hmod .next (by decide)
  · rw [hprev]
    exact hmod .prev (by decide)
  · omega

lemma freeList_merged (h : Describes s L total) (hx : L x = some ⟨o, true⟩)
    (hbuddy : L (buddy o x) = some ⟨o, false⟩) :
    (s.merged x o z).freeList = if s.get .prev (s.memory + buddy o x) = 0 then
      Function.update s.freeList o (s.get .next (s.memory + buddy o x)) else s.freeList := by
  have hlt : o < 63 := h.order_lt hx
  have hwidth : 256 ^ Field.bits.width = 2 ^ 32 := rfl
  have hvalue : o < 256 ^ Field.bits.width := by omega
  have hmod := h.modEq₂ hx hbuddy s.memory
  unfold merged
  rw [freeList_set, freeList_unlinkBuddy, get_set hvalue hmod, get_set hvalue hmod]
  simp

/-- A page in use is merged with its buddy, which is free. -/
lemma mergePage (h : Describes s L total) (hx : L x = some ⟨o, true⟩)
    (hbuddy : L (buddy o x) = some ⟨o, false⟩) :
    ∃ z, (z = x ∧ z + 2 ^ o = buddy o x ∨ z = buddy o x ∧ z + 2 ^ o = x) ∧
      (if s.memory + buddy o x < s.memory + x then s.memory + buddy o x else s.memory + x) =
        s.memory + z ∧
      Describes (s.merged x o z) (L.merge z o) total := by
  obtain ⟨z, hz, hhalves⟩ :
      ∃ z, 2 ^ (o + 1) ∣ z ∧ (x = z ∧ buddy o x = z + 2 ^ o ∨ x = z + 2 ^ o ∧ buddy o x = z) :=
    halves (h.tiles.dvd hx)
  have hpow : 0 < 2 ^ o := Nat.two_pow_pos o
  have hpos := memory_pos s
  have hwhich : z = x ∨ z = buddy o x := hhalves.imp (fun heq => heq.1.symm) fun heq => heq.2.symm
  have hmin : (if s.memory + buddy o x < s.memory + x then s.memory + buddy o x else s.memory + x) =
      s.memory + z := by
    rcases hhalves with ⟨heq, heq'⟩ | ⟨heq, heq'⟩
    · rw [if_neg (by omega), heq]
    · rw [if_pos (by omega), heq']
  have hpages : ∃ u u', L z = some ⟨o, u⟩ ∧ L (z + 2 ^ o) = some ⟨o, u'⟩ := by
    rcases hhalves with ⟨heq, heq'⟩ | ⟨heq, heq'⟩
    · exact ⟨true, false, heq ▸ hx, heq' ▸ hbuddy⟩
    · exact ⟨false, true, heq' ▸ hbuddy, heq ▸ hx⟩
  obtain ⟨u, u', hpage, hpage'⟩ := hpages
  have hmerge : ∀ {y q}, L.merge z o y = some q ↔
      y = z ∧ q = ⟨o + 1, true⟩ ∨ y ≠ x ∧ y ≠ buddy o x ∧ L y = some q := by
    intro y q
    rw [Layout.merge_eq_some]
    rcases hhalves with ⟨heq, heq'⟩ | ⟨heq, heq'⟩
    · rw [heq', heq]
    · rw [heq', heq]
      tauto
  -- a free page is not the one in use
  have hne : ∀ {y o'}, L y = some ⟨o', false⟩ → y ≠ x := by
    rintro y o' hy rfl
    exact absurd (hy.symm.trans hx) (by simp)
  refine ⟨z, hhalves.imp (fun heq => ⟨heq.1.symm, heq.2.symm⟩) fun heq =>
    ⟨heq.2.symm, heq.1.symm⟩, hmin, h.arena.of_eq arena_merged,
    h.tiles.merge hpage hpage' hz, ?_, fun o' => ?_⟩
  · intro y page hy
    rw [memory_of_arena arena_merged]
    rcases hmerge.mp hy with ⟨rfl, rfl⟩ | ⟨hyx, hyb, hold⟩
    · rw [get_merged h hx hbuddy hpage hpage]
      exact if_pos rfl
    · have hyz : y ≠ z := by
        rcases hwhich with rfl | rfl
        · exact hyx
        · exact hyb
      rw [get_merged h hx hbuddy hpage hold]
      simp only [if_neg hyz, if_neg hyx]
      exact h.header hold
  · by_cases horder : o' = o
    · subst horder
      obtain ⟨l, hl, hmem⟩ := h.lists o'
      have hin : s.memory + buddy o' x ∈ l := (hmem _).mpr ⟨_, rfl, hbuddy⟩
      have hzero : 0 ∉ l := fun hcontra => hl.ne_null hcontra rfl
      refine ⟨l.erase (s.memory + buddy o' x), ?_, fun q => ?_⟩
      · have hfirst : (s.merged x o' z).freeList o' =
          if s.get .prev (s.memory + buddy o' x) = 0 then
            s.get .next (s.memory + buddy o' x) else s.freeList o' := by
          rw [freeList_merged h hx hbuddy]
          split_ifs
          · exact Function.update_self _ _ _
          · rfl
        rw [hfirst]
        refine hl.remove hzero hin (fun q hq _ => ?_) fun q hq _ => ?_
        · obtain ⟨y, rfl, hy⟩ := (hmem q).mp hq
          exact get_merged h hx hbuddy hpage hy
        · obtain ⟨y, rfl, hy⟩ := (hmem q).mp hq
          exact get_merged h hx hbuddy hpage hy
      · rw [memory_of_arena arena_merged, hl.nodup.mem_erase_iff, hmem]
        constructor
        · rintro ⟨hqb, y, rfl, hy⟩
          exact ⟨y, rfl, hmerge.mpr (.inr ⟨hne hy, fun heq => hqb (by rw [heq]), hy⟩)⟩
        · rintro ⟨y, rfl, hy⟩
          rcases hmerge.mp hy with ⟨-, hcontra⟩ | ⟨-, hyb, hold⟩
          · exact absurd hcontra (by simp)
          · exact ⟨by omega, y, rfl, hold⟩
    · -- the links that change are those of pages of the order
      have hlink : ∀ {y f}, f ≠ .bits → L y = some ⟨o', false⟩ →
          s.memory + y ≠ s.get f (s.memory + buddy o x) := by
        intro y f hf hy heq
        rcases h.link hbuddy hf with hzero | ⟨w, hw, hpage⟩
        · omega
        · obtain rfl : y = w := by omega
          exact horder (congrArg Page.order (Option.some.inj (hy.symm.trans hpage)))
      refine lists_of_unchanged (h.lists o') (memory_of_arena arena_merged) ?_ (fun y => ?_)
        fun y hy g hg => ?_
      · rw [freeList_merged h hx hbuddy]
        split_ifs
        · exact Function.update_of_ne horder _ _
        · rfl
      · rw [hmerge]
        constructor
        · rintro (⟨-, hcontra⟩ | ⟨-, -, hold⟩)
          · exact absurd hcontra (by simp)
          · exact hold
        · intro hold
          refine .inr ⟨hne hold, ?_, hold⟩
          rintro rfl
          exact horder (congrArg Page.order (Option.some.inj (hold.symm.trans hbuddy)))
      · rw [get_merged h hx hbuddy hpage hy]
        cases g with
        | bits => exact absurd rfl hg
        | next => exact if_neg (hlink (by decide) hy)
        | prev => exact if_neg (hlink (by decide) hy)

/-- A page in use is given back. -/
lemma givePage (h : Describes s L total) (hx : L x = some ⟨o, true⟩) :
    Describes ((s.set .bits (s.memory + x) o).giveBack (s.memory + x) o)
      (L.set x (some ⟨o, false⟩)) total := by
  obtain ⟨l, hl, hmem⟩ := h.lists o
  have hpos := memory_pos s
  have hlt : o < 63 := h.order_lt hx
  have hwidth : 256 ^ Field.bits.width = 2 ^ 32 := rfl
  have hvalue : o < 256 ^ Field.bits.width := by omega
  have hplt : s.memory + x < 2 ^ 64 := by
    have hend := h.end_le hx
    have hpow : 0 < 2 ^ o := Nat.two_pow_pos o
    dsimp only at hend
    omega
  -- a free page is not the one in use
  have hne : ∀ {y o'}, L y = some ⟨o', false⟩ → y ≠ x := by
    rintro y o' hy rfl
    exact absurd (hy.symm.trans hx) (by simp)
  have hfirst := h.first o
  have hfirstlt : s.freeList o < 2 ^ 64 := by
    rcases hfirst with hzero | ⟨y, heq, hy⟩
    · omega
    · have hend := h.end_le hy
      have hpow : 0 < 2 ^ o := Nat.two_pow_pos o
      dsimp only at hend
      omega
  have hget : ∀ {g y page}, L y = some page →
      ((s.set .bits (s.memory + x) o).giveBack (s.memory + x) o).get g (s.memory + y) =
        match g with
        | .bits => if y = x then o else s.get .bits (s.memory + y)
        | .next => if y = x then s.freeList o else s.get .next (s.memory + y)
        | .prev => if s.memory + y = s.freeList o then s.memory + x
            else if y = x then 0 else s.get .prev (s.memory + y) := by
    intro g y page hy
    have hmod := h.modEq₂ hx hy s.memory
    have hmod' : s.freeList o = 0 ∨ s.freeList o ≡ s.memory + y [MOD 32] := by
      refine hfirst.imp_right fun ⟨w, hw, hpage⟩ => ?_
      rw [hw]
      exact h.modEq₂ hpage hy s.memory
    have hback := @get_giveBack (s.set .bits (s.memory + x) o) g (s.memory + x) (s.memory + y)
      o hmod hmod' hfirstlt hplt
      (by omega)
    rw [hback, get_set hvalue hmod]
    cases g <;> simp
  have hmemory : ((s.set .bits (s.memory + x) o).giveBack (s.memory + x) o).memory = s.memory :=
    memory_of_arena (by simp)
  refine ⟨h.arena.of_eq (by simp), h.tiles.mark hx, ?_, fun o' => ?_⟩
  · intro y page hy
    rw [hmemory]
    rcases Layout.set_eq_some.mp hy with ⟨rfl, hpage⟩ | ⟨hyx, hpage⟩
    · rw [hget hx, ← Option.some.inj hpage]
      exact if_pos rfl
    · rw [hget hpage]
      exact (if_neg hyx).trans (h.header hpage)
  · by_cases horder : o' = o
    · subst horder
      refine ⟨(s.memory + x) :: l, ?_, fun q => ?_⟩
      · rw [freeList_giveBack, Function.update_self]
        have hlinkx : s.memory + x ≠ s.freeList o' := by
          rcases hfirst with hzero | ⟨y, heq, hy⟩
          · omega
          · have hyx := hne hy
            omega
        refine hl.push (by omega) ?_ ?_ (fun q hq => ?_) fun q hq => ?_
        · rw [hget hx]
          exact if_pos rfl
        · rw [hget hx]
          exact (if_neg hlinkx).trans (if_pos rfl)
        · obtain ⟨y, rfl, hy⟩ := (hmem q).mp hq
          rw [hget hy]
          exact if_neg (hne hy)
        · obtain ⟨y, rfl, hy⟩ := (hmem q).mp hq
          rw [hget hy]
          simp only [if_neg (hne hy)]
      · rw [hmemory, List.mem_cons, hmem]
        constructor
        · rintro (rfl | ⟨y, rfl, hy⟩)
          · exact ⟨x, rfl, Layout.set_self _ _ _⟩
          · exact ⟨y, rfl, Layout.set_eq_some.mpr (.inr ⟨hne hy, hy⟩)⟩
        · rintro ⟨y, rfl, hy⟩
          rcases Layout.set_eq_some.mp hy with ⟨rfl, -⟩ | ⟨-, hold⟩
          · exact .inl rfl
          · exact .inr ⟨y, rfl, hold⟩
    · refine lists_of_unchanged (h.lists o') (memory_of_arena (by simp)) ?_ (fun y => ?_)
        fun y hy g hg => ?_
      · rw [freeList_giveBack]
        exact Function.update_of_ne horder _ _
      · rw [Layout.set_eq_some]
        constructor
        · rintro (⟨-, hpage⟩ | ⟨-, hold⟩)
          · exact absurd (congrArg Page.order (Option.some.inj hpage)).symm horder
          · exact hold
        · exact fun hold => .inr ⟨hne hold, hold⟩
      · have hnot : s.memory + y ≠ s.freeList o := by
          rcases hfirst with hzero | ⟨w, hw, hpage⟩
          · omega
          · intro heq
            obtain rfl : y = w := by omega
            exact horder (congrArg Page.order (Option.some.inj (hy.symm.trans hpage)))
        rw [hget hy]
        cases g with
        | bits => exact absurd rfl hg
        | next => exact if_neg (hne hy)
        | prev => exact (if_neg hnot).trans (if_neg (hne hy))

end Describes

end BuddyAllocator

end Shmem

end Cppcms
