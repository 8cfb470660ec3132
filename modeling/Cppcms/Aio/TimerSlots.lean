import Cppcms.Aio.Timers
import Cppcms.Library.Congruential

/-!
# The search for a slot

`set_timer_event` draws positions of `timer_events_index_` until a slot is free.  When ten of them
were not, it makes the index twice as long and takes the first new slot, but not if the index has
32768 slots already.  `rand` has no more than 32768 values: where all the slots that it can draw are
taken the search never ends, and the mutex is never given back.
-/

namespace Cppcms

namespace Aio

/-- `rand` can draw the position from an index of this size. -/
def IsDrawn (size pos : ℕ) : Prop := ∃ rv < 32768, pos = rv * size / 32768

/-- One of the slots that can be drawn is free. -/
def HasFreeSlot (index : List (Option ℕ)) : Prop :=
  ∃ pos, IsDrawn index.length pos ∧ index[pos]? = some none

/-! ## Positions -/

/-- The seed after one call of `rand`. -/
def nextSeed (seed : UInt32) : UInt32 := seed * 1103515245 + 12345

/-- The position that is drawn with a new seed. -/
def drawn (seed : UInt32) (size : ℕ) : ℕ := seed.toNat / 65536 % 32768 * size / 32768

lemma rand_fst (seed limit : UInt32) : (rand seed limit).1 = nextSeed seed := rfl

variable {size : ℕ}

/-- The product does not overflow in an index of this size. -/
lemma rand_snd (seed : UInt32) (hsize : size ≤ 131072) :
    (rand seed (UInt32.ofNat size)).2.toNat = drawn (nextSeed seed) size := by
  have hrv : (nextSeed seed).toNat / 65536 % 32768 ≤ 32767 := by omega
  have hmul : (nextSeed seed).toNat / 65536 % 32768 * size ≤ 32767 * 131072 :=
    Nat.mul_le_mul hrv hsize
  have hlimit : (UInt32.ofNat size).toNat = size :=
    UInt32.toNat_ofNat_of_lt' (by simp only [UInt32.size]; omega)
  have hrand : (rand seed (UInt32.ofNat size)).2.toNat =
      (nextSeed seed).toNat / 65536 % 32768 * (UInt32.ofNat size).toNat % 2 ^ 32 / 32768 := by
    show (nextSeed seed / 65536 % 32768 * UInt32.ofNat size / 32768).toNat = _
    rw [UInt32.toNat_div, UInt32.toNat_mul, UInt32.toNat_mod, UInt32.toNat_div]
    rfl
  rw [hrand, hlimit, Nat.mod_eq_of_lt (by omega)]
  rfl

lemma isDrawn_drawn (seed : UInt32) (size : ℕ) : IsDrawn size (drawn seed size) :=
  ⟨_, Nat.mod_lt _ (by norm_num), rfl⟩

/-- Every position that can be drawn is drawn some time, whatever the seed is. -/
lemma exists_drawn (seed : UInt32) {size pos : ℕ} (h : IsDrawn size pos) :
    ∃ n, drawn (nextSeed^[n + 1] seed) size = pos := by
  rcases h with ⟨rv, hrv, rfl⟩
  rcases Congruential.exists_iterate_eq (a := 1103515245) (c := 12345) rfl rfl (nextSeed seed)
    (UInt32.ofNat (rv * 65536)) with ⟨n, hn⟩
  refine ⟨n, ?_⟩
  have hseed : (UInt32.ofNat (rv * 65536)).toNat = rv * 65536 :=
    UInt32.toNat_ofNat_of_lt' (by simp only [UInt32.size]; omega)
  rw [Function.iterate_succ_apply]
  show ((fun z : UInt32 => z * 1103515245 + 12345)^[n] (nextSeed seed)).toNat / 65536 % 32768 *
    size / 32768 = _
  rw [hn, hseed, Nat.mul_div_cancel _ (by norm_num), Nat.mod_eq_of_lt hrv]

/-! ## The loop -/

section Loop

variable {seed seed' : UInt32} {index index' : List (Option ℕ)} {attempts fuel pos : ℕ}

/-- One round, for an index of a size that does not overflow. -/
lemma findSlot_succ (hsize : index.length ≤ 131072) :
    findSlot (fuel + 1) seed index attempts =
      if index[drawn (nextSeed seed) index.length]? = some none then
        some (nextSeed seed, index, drawn (nextSeed seed) index.length)
      else if attempts + 1 < 10 ∨
        index.length ≥ 32768 then findSlot fuel (nextSeed seed) index (attempts + 1)
      else some (nextSeed seed, index ++ List.replicate index.length none, index.length) := by
  rw [findSlot, rand_snd seed hsize, rand_fst]

/-- More rounds do not change what was found. -/
lemma findSlot_mono {r : UInt32 × List (Option ℕ) × ℕ} {fuel' : ℕ}
    (h : findSlot fuel seed index attempts = some r) (hle : fuel ≤ fuel') :
    findSlot fuel' seed index attempts = some r := by
  induction fuel generalizing seed attempts fuel' with
  | zero => cases h
  | succ fuel ih =>
    rcases Nat.exists_eq_succ_of_ne_zero (by omega : fuel' ≠ 0) with ⟨n, rfl⟩
    rw [findSlot] at h ⊢
    split_ifs at h ⊢ with hfree hagain
    · exact h
    · exact ih h (by omega)
    · exact h

/-- A small index grows after ten attempts at most. -/
lemma exists_findSlot_of_small (hsmall : index.length < 32768) (hattempts : 9 ≤ attempts + fuel) :
    ∃ r, findSlot (fuel + 1) seed index attempts = some r := by
  induction fuel generalizing seed attempts with
  | zero =>
    rw [findSlot_succ (by omega)]
    split_ifs
    · exact ⟨_, rfl⟩
    · omega
    · exact ⟨_, rfl⟩
  | succ fuel ih =>
    rw [findSlot_succ (by omega)]
    split_ifs
    · exact ⟨_, rfl⟩
    · exact ih (by omega)
    · exact ⟨_, rfl⟩

/-- The search ends when a free slot is drawn, if it did not end before. -/
lemma exists_findSlot_of_drawn (hsize : index.length ≤ 131072) {n : ℕ}
    (hfree : index[drawn (nextSeed^[n + 1] seed) index.length]? = some none) :
    ∃ r, findSlot (n + 1) seed index attempts = some r := by
  induction n generalizing seed attempts with
  | zero =>
    rw [zero_add, Function.iterate_one] at hfree
    rw [findSlot_succ hsize, if_pos hfree]
    exact ⟨_, rfl⟩
  | succ n ih =>
    rw [Function.iterate_succ_apply] at hfree
    rw [findSlot_succ hsize]
    split_ifs
    · exact ⟨_, rfl⟩
    · exact ih hfree
    · exact ⟨_, rfl⟩

/-- In a large index the slot is one that was drawn. -/
lemma hasFreeSlot_of_findSlot (hsize : index.length ≤ 131072) (hbig : 32768 ≤ index.length)
    (h : findSlot fuel seed index attempts = some (seed', index', pos)) : HasFreeSlot index := by
  induction fuel generalizing seed attempts with
  | zero => cases h
  | succ fuel ih =>
    rw [findSlot_succ hsize] at h
    split_ifs at h with hfree hagain
    · exact ⟨_, isDrawn_drawn _ _, hfree⟩
    · exact ih h
    · exact absurd (.inr hbig) hagain

/-- The search ends if and only if the index may grow, or a slot that can be drawn is free. -/
lemma exists_findSlot_iff (hsize : index.length ≤ 131072) :
    (∃ fuel r, findSlot fuel seed index 0 = some r) ↔ index.length < 32768 ∨ HasFreeSlot index := by
  constructor
  · rintro ⟨fuel, ⟨seed', index', pos⟩, h⟩
    by_cases hbig : 32768 ≤ index.length
    · exact .inr (hasFreeSlot_of_findSlot hsize hbig h)
    · exact .inl (not_le.1 hbig)
  · rintro (hsmall | ⟨pos, hdrawn, hfree⟩)
    · have hend : ∃ r, findSlot (9 + 1) seed index 0 = some r :=
        exists_findSlot_of_small hsmall (by omega)
      exact ⟨10, hend⟩
    · rcases exists_drawn seed hdrawn with ⟨n, rfl⟩
      exact ⟨_, exists_findSlot_of_drawn hsize hfree⟩

/-- The index keeps its size, or it is twice as long. -/
lemma length_of_findSlot (h : findSlot fuel seed index attempts = some (seed', index', pos)) :
    index'.length = index.length ∨ index.length < 32768 ∧ index'.length = 2 * index.length := by
  induction fuel generalizing seed attempts with
  | zero => cases h
  | succ fuel ih =>
    rw [findSlot] at h
    split_ifs at h with hfree hagain
    · rcases Prod.mk.inj (Prod.mk.inj (Option.some.inj h)).2 with ⟨rfl, -⟩
      exact .inl rfl
    · exact ih h
    · rcases Prod.mk.inj (Prod.mk.inj (Option.some.inj h)).2 with ⟨rfl, -⟩
      refine .inr ⟨by omega, ?_⟩
      rw [List.length_append, List.length_replicate, two_mul]

end Loop

namespace TimerLoop

/-- `set_timer_event` returns `pos`: the number of the wait is this one whatever the number of
further rounds is. -/
def Returns (l : TimerLoop) (pos : ℕ) : Prop :=
  ∃ rounds, ∀ fuel ≥ rounds, ∀ timer deadline,
    (l.asyncWait timer deadline fuel).assigning = l.assigning ++ [(timer, ⟨pos, l.waits.length⟩)]

/-- `set_timer_event` ends, with a slot that no pending timer has. -/
def Registers (l : TimerLoop) : Prop := ∃ pos, l.Returns pos ∧ ∀ ev ∈ l.events, ev.eventId ≠ pos

/-- What the index has place for: it may still grow, or a slot that can be drawn is free. -/
def HasRoom (l : TimerLoop) : Prop := l.index.length < 32768 ∨ HasFreeSlot l.index

/-- The sizes of the index. -/
def IsIndexSize (size : ℕ) : Prop := ∃ k ≤ 6, size = 1000 * 2 ^ k

/-- Every pending timer is in its slot, and the index has one of its sizes. -/
structure Placed (l : TimerLoop) : Prop where
  slot : ∀ {pos wait : ℕ}, l.index[pos]? = some (some wait) →
    ∃ ev ∈ l.events, ev.eventId = pos ∧ ev.wait = wait
  event : ∀ {ev : TimerEvent}, ev ∈ l.events → l.index[ev.eventId]? = some (some ev.wait)
  once : (l.events.map TimerEvent.wait).Nodup
  old : ∀ {ev : TimerEvent}, ev ∈ l.events → ev.wait < l.waits.length
  size : l.index.length = 0 ∨ IsIndexSize l.index.length

/-! ## Sizes -/

lemma IsIndexSize.le (h : IsIndexSize size) : 1000 ≤ size ∧ size ≤ 64000 := by
  rcases h with ⟨k, hk, rfl⟩
  have hpow : 2 ^ k ≤ 2 ^ 6 := Nat.pow_le_pow_right two_pos hk
  have hpos : 0 < 2 ^ k := Nat.two_pow_pos k
  omega

/-- The size that is doubled is one of the first six. -/
lemma IsIndexSize.double (h : IsIndexSize size) (hsmall : size < 32768) :
    IsIndexSize (2 * size) := by
  rcases h with ⟨k, hk, rfl⟩
  have hlt : k ≠ 6 := by
    rintro rfl
    omega
  exact ⟨k + 1, by omega, by ring⟩

section Steps

variable {l : TimerLoop}

lemma Placed.size_resized (h : l.Placed) : IsIndexSize l.resized.length := by
  unfold resized
  rcases h.size with hzero | hsize
  · rw [if_pos (by omega), List.length_append, List.length_replicate, hzero]
    exact ⟨0, by omega, rfl⟩
  · rw [if_neg (by have := hsize.le; omega)]
    exact hsize

lemma placed_init (seed : UInt32) : (init seed).Placed := by
  constructor
  · intro pos wait hslot
    cases hslot
  · intro ev hev
    cases hev
  · exact List.nodup_nil
  · intro ev hev
    cases hev
  · exact .inl rfl

/-- The search of a registration, with the state that it leaves. -/
lemma asyncWait_cases (l : TimerLoop) (timer : ℕ) (deadline : ℤ) (fuel : ℕ) :
    (findSlot fuel l.seed l.resized 0 = none ∧ l.asyncWait timer deadline fuel = l) ∨
      ∃ seed index pos, findSlot fuel l.seed l.resized 0 = some (seed, index, pos) ∧
        l.asyncWait timer deadline fuel =
          { l with
            seed := seed
            events := insertEvent ⟨deadline, pos, l.waits.length⟩ l.events
            index := index.set pos (some l.waits.length)
            assigning := l.assigning ++ [(timer, ⟨pos, l.waits.length⟩)]
            waits := l.waits ++ [(timer, deadline)] } := by
  unfold asyncWait
  rcases findSlot fuel l.seed l.resized 0 with _ | ⟨seed, index, pos⟩
  · exact .inl ⟨rfl, rfl⟩
  · exact .inr ⟨seed, index, pos, rfl, rfl⟩

variable {ev : TimerEvent} {events : List TimerEvent}

/-- A slot that is free in the index of a search has no pending timer. -/
lemma Placed.eventId_ne (h : l.Placed) {index : List (Option ℕ)} {pos : ℕ}
    (hsame : SameSlots l.index index) (hfree : index[pos]? = some none) (hev : ev ∈ l.events) :
    ev.eventId ≠ pos := by
  rintro rfl
  have hslot := hsame.keeps (h.event hev)
  rw [hfree] at hslot
  cases hslot

lemma Placed.asyncWait (h : l.Placed) (timer : ℕ) (deadline : ℤ) (fuel : ℕ) :
    (l.asyncWait timer deadline fuel).Placed := by
  rcases asyncWait_cases l timer deadline fuel with ⟨-, heq⟩ | ⟨seed, index, pos, hfind, heq⟩
  · rw [heq]
    exact h
  · rw [heq]
    rcases findSlot_spec (sameSlots_resized l).2 hfind with ⟨hslots, hfree⟩
    have hsame := (sameSlots_resized l).1.trans hslots
    have hpos : pos < index.length := (List.getElem?_eq_some_iff.1 hfree).1
    have hperm := perm_insertEvent ⟨deadline, pos, l.waits.length⟩ l.events
    constructor
    · intro pos' wait hslot
      dsimp only at hslot ⊢
      by_cases hat : pos = pos'
      · rw [hat, List.getElem?_set_self (hat ▸ hpos)] at hslot
        exact ⟨_, hperm.mem_iff.2 List.mem_cons_self, hat, Option.some.inj (Option.some.inj hslot)⟩
      · rw [List.getElem?_set_ne hat] at hslot
        rcases h.slot (hsame.adds hslot) with ⟨ev, hev, hrest⟩
        exact ⟨ev, hperm.mem_iff.2 (List.mem_cons_of_mem _ hev), hrest⟩
    · intro ev hev
      dsimp only at hev ⊢
      rcases List.mem_cons.1 (hperm.mem_iff.1 hev) with rfl | hev
      · exact List.getElem?_set_self hpos
      · rw [List.getElem?_set_ne (h.eventId_ne hsame hfree hev).symm]
        exact hsame.keeps (h.event hev)
    · have hnew : l.waits.length ∉ l.events.map TimerEvent.wait := by
        intro hmem
        rcases List.mem_map.1 hmem with ⟨ev, hev, hwait⟩
        exact (h.old hev).ne hwait
      exact (hperm.map TimerEvent.wait).nodup_iff.2 (List.nodup_cons.2 ⟨hnew, h.once⟩)
    · intro ev hev
      dsimp only at hev ⊢
      rw [List.length_append, List.length_singleton]
      rcases List.mem_cons.1 (hperm.mem_iff.1 hev) with rfl | hev
      · exact Nat.lt_succ_self _
      · exact (h.old hev).trans (Nat.lt_succ_self _)
    · right
      show IsIndexSize (index.set pos (some l.waits.length)).length
      rw [List.length_set]
      rcases length_of_findSlot hfind with hlength | ⟨hsmall, hlength⟩
      · rw [hlength]
        exact h.size_resized
      · rw [hlength]
        exact h.size_resized.double hsmall

/-- A pending timer leaves its slot. -/
lemma Placed.complete (h : l.Placed) (hperm : l.events.Perm (ev :: events)) (o : TimerOutcome) :
    { l.complete ev.wait o with
      events := events, index := l.index.set ev.eventId none }.Placed := by
  have hev : ev ∈ l.events := hperm.mem_iff.2 List.mem_cons_self
  have hrest : ∀ {x : TimerEvent}, x ∈ events → x ∈ l.events := fun hx =>
    hperm.mem_iff.2 (List.mem_cons_of_mem _ hx)
  have hslot := h.event hev
  have hpos := (List.getElem?_eq_some_iff.1 hslot).1
  have honce : (ev.wait :: events.map TimerEvent.wait).Nodup :=
    (hperm.map TimerEvent.wait).nodup_iff.1 h.once
  constructor
  · intro pos wait hmem
    dsimp only at hmem ⊢
    by_cases hat : ev.eventId = pos
    · rw [hat, List.getElem?_set_self (hat ▸ hpos)] at hmem
      cases hmem
    · rw [List.getElem?_set_ne hat] at hmem
      rcases h.slot hmem with ⟨x, hx, hid, hwait⟩
      rcases List.mem_cons.1 (hperm.mem_iff.1 hx) with rfl | hx
      · exact absurd hid hat
      · exact ⟨x, hx, hid, hwait⟩
  · intro x hx
    dsimp only at hx ⊢
    have hslot' := h.event (hrest hx)
    have hne : ev.eventId ≠ x.eventId := by
      intro hat
      rw [← hat, hslot] at hslot'
      have hwait : ev.wait = x.wait := Option.some.inj (Option.some.inj hslot')
      exact (List.nodup_cons.1 honce).1 (hwait ▸ List.mem_map_of_mem hx)
    rw [List.getElem?_set_ne hne]
    exact hslot'
  · exact (List.nodup_cons.1 honce).2
  · exact fun hx => h.old (hrest hx)
  · show (l.index.set ev.eventId none).length = 0 ∨ IsIndexSize (l.index.set ev.eventId none).length
    rw [List.length_set]
    exact h.size

lemma Placed.expire (h : l.Placed) (now : ℤ) (hevents : l.events = events) :
    (TimerLoop.expire now events l).Placed := by
  induction events generalizing l with
  | nil => exact h
  | cons ev events ih =>
    rw [TimerLoop.expire]
    split_ifs with hnow
    · exact ih (h.complete (hevents ▸ List.Perm.refl _) (.expired now)) rfl
    · exact h

/-- Other fields do not matter. -/
lemma Placed.of_eq {l' : TimerLoop} (h : l.Placed) (hevents : l'.events = l.events)
    (hindex : l'.index = l.index) (hwaits : l'.waits = l.waits) : l'.Placed := by
  refine ⟨?_, ?_, ?_, ?_, ?_⟩
  · rw [hevents, hindex]
    exact h.slot
  · rw [hevents, hindex]
    exact h.event
  · rw [hevents]
    exact h.once
  · rw [hevents, hwaits]
    exact h.old
  · rw [hindex]
    exact h.size

lemma Placed.cancelTimerEvent (h : l.Placed) (pos : ℕ) : (l.cancelTimerEvent pos).Placed := by
  unfold TimerLoop.cancelTimerEvent
  rcases hslot : l.index[pos]? with _ | _ | wait
  · exact h
  · exact h
  · rcases h.slot hslot with ⟨ev, hev, rfl, rfl⟩
    exact h.complete (perm_eraseP h.once hev) .canceled

lemma Placed.step (h : l.Placed) (s : TimerStep) : (l.step s).Placed := by
  cases s with
  | asyncWait timer deadline fuel => exact h.asyncWait timer deadline fuel
  | assign timer id =>
    unfold TimerLoop.step
    dsimp only
    split_ifs
    · exact h.of_eq rfl rfl rfl
    · exact h
  | cancel timer =>
    show (l.cancel timer).Placed
    unfold TimerLoop.cancel
    rcases l.eventId timer with _ | id
    · exact h.of_eq rfl rfl rfl
    · exact h.of_eq rfl rfl rfl
  | cancelTimerEvent timer id =>
    unfold TimerLoop.step
    dsimp only
    split_ifs
    · have herased : { l with cancelling := l.cancelling.erase (timer, id) }.Placed :=
        h.of_eq rfl rfl rfl
      exact herased.cancelTimerEvent id.pos
    · exact h
  | expire now => exact h.expire now rfl
  | dispatch =>
    show l.dispatch.Placed
    unfold TimerLoop.dispatch
    rcases l.queue with _ | ⟨⟨wait, o⟩, queue⟩
    · exact h
    · exact h.of_eq rfl rfl rfl
  | randomizeEvents n =>
    unfold TimerLoop.step
    dsimp only
    split_ifs
    · exact h
    · exact h.of_eq rfl rfl rfl

/-! ## Registrations -/

/-- A registration ends if and only if the search does. -/
lemma Placed.registers_iff (h : l.Placed) :
    l.Registers ↔ ∃ fuel r, findSlot fuel l.seed l.resized 0 = some r := by
  constructor
  · rintro ⟨pos, ⟨rounds, hrounds⟩, -⟩
    have hassigning := hrounds rounds le_rfl 0 0
    rcases asyncWait_cases l 0 0 rounds with ⟨-, heq⟩ | ⟨seed, index, pos', hfind, -⟩
    · rw [heq] at hassigning
      have hlength := congrArg List.length hassigning
      rw [List.length_append, List.length_singleton] at hlength
      omega
    · exact ⟨rounds, _, hfind⟩
  · rintro ⟨rounds, ⟨seed, index, pos⟩, hfind⟩
    rcases findSlot_spec (sameSlots_resized l).2 hfind with ⟨hslots, hfree⟩
    refine ⟨pos, ⟨rounds, fun fuel hfuel timer deadline => ?_⟩,
      fun ev hev => h.eventId_ne ((sameSlots_resized l).1.trans hslots) hfree hev⟩
    have hsame := findSlot_mono hfind hfuel
    rcases asyncWait_cases l timer deadline fuel with ⟨hnone, -⟩ |
      ⟨seed', index', pos', hfind', heq⟩
    · rw [hnone] at hsame
      cases hsame
    · rw [hfind'] at hsame
      rcases Prod.mk.inj (Prod.mk.inj (Option.some.inj hsame)).2 with ⟨-, rfl⟩
      rw [heq]

/-- An index that is made at the first registration may grow. -/
lemma hasRoom_iff (l : TimerLoop) :
    l.HasRoom ↔ l.resized.length < 32768 ∨ HasFreeSlot l.resized := by
  unfold HasRoom resized
  split_ifs with hsmall
  · have hlength : (l.index ++ List.replicate (1000 - l.index.length) (none : Option ℕ)).length =
        1000 := by
      rw [List.length_append, List.length_replicate]
      omega
    exact iff_of_true (.inl (by omega)) (.inl (by omega))
  · exact Iff.rfl

lemma Placed.registers_iff_hasRoom (h : l.Placed) : l.Registers ↔ l.HasRoom := by
  have hsize := h.size_resized.le
  rw [h.registers_iff, hasRoom_iff, exists_findSlot_iff (by omega)]

/-- The pending timers have different slots. -/
lemma Placed.length_le (h : l.Placed) : l.events.length ≤ 64000 := by
  have hnodup : (l.events.map TimerEvent.eventId).Nodup := by
    refine h.once.of_map _ |>.map_on ?_
    intro ev hev x hx heq
    have hslot := h.event hev
    rw [heq, h.event hx] at hslot
    exact List.inj_on_of_nodup_map h.once hev hx (Option.some.inj (Option.some.inj hslot)).symm
  have hsub : l.events.map TimerEvent.eventId ⊆ List.range l.index.length := by
    intro pos hpos
    rcases List.mem_map.1 hpos with ⟨ev, hev, rfl⟩
    exact List.mem_range.2 (List.getElem?_eq_some_iff.1 (h.event hev)).1
  have hle := (List.subperm_of_subset hnodup hsub).length_le
  rw [List.length_map, List.length_range] at hle
  rcases h.size with hzero | hsize
  · omega
  · exact hle.trans hsize.le.2

/-- A registration that ends adds a pending timer. -/
lemma Placed.exists_register (h : l.Placed) (hregisters : l.Registers) :
    ∃ fuel, (l.step (.asyncWait 0 0 fuel)).events.length = l.events.length + 1 := by
  rcases h.registers_iff.1 hregisters with ⟨fuel, r, hfind⟩
  refine ⟨fuel, ?_⟩
  show (l.asyncWait 0 0 fuel).events.length = _
  rcases asyncWait_cases l 0 0 fuel with ⟨hnone, -⟩ | ⟨seed, index, pos, -, heq⟩
  · rw [hnone] at hfind
    cases hfind
  · rw [heq]
    exact (perm_insertEvent _ l.events).length_eq

end Steps

/-! ## Runs -/

lemma placed_run (seed : UInt32) (steps : List TimerStep) :
    ∀ l ∈ Machine.states step (init seed) steps, l.Placed := by
  have hobeys : Machine.Obeys step (fun _ _ => True) (init seed) steps :=
    Machine.obeys_of_forall (fun _ _ => trivial) _ _
  exact Machine.forall_mem_states (fun _ s h _ => h.step s) (placed_init seed) hobeys

/-- In every state of a run, with any seed, a registration ends with a slot of its own if and only
if the index may still grow or a slot that `rand` can draw is free. -/
theorem run_registers_iff (seed : UInt32) (steps : List TimerStep) :
    ∀ l ∈ Machine.states step (init seed) steps, l.Registers ↔ l.HasRoom :=
  fun l hl => (placed_run seed steps l hl).registers_iff_hasRoom

/-- Behind a first timer another one gets a slot. -/
theorem run_registers_iff_init :
    (init 0).step (.asyncWait 0 100 1) ∈ Machine.states step (init 0) [.asyncWait 0 100 1] ∧
      ((init 0).step (.asyncWait 0 100 1)).Registers := by
  have hmem : (init 0).step (.asyncWait 0 100 1) ∈ Machine.states step (init 0)
      [.asyncWait 0 100 1] := by
    simp [Machine.states]
  have hroom : ((init 0).step (.asyncWait 0 100 1)).HasRoom := .inl (by decide +kernel)
  exact ⟨hmem, (run_registers_iff 0 [.asyncWait 0 100 1] _ hmem).2 hroom⟩

/-- If every registration ended there would be more pending timers than slots. -/
theorem exists_not_registers :
    ∃ steps : List TimerStep, steps.length ≤ 64000 ∧ ¬(steps.foldl step (init 0)).Registers := by
  by_contra hcon
  push Not at hcon
  have hmany : ∀ n ≤ 64001, ∃ steps : List TimerStep, steps.length = n ∧
      (steps.foldl step (init 0)).events.length = n := by
    intro n
    induction n with
    | zero => exact fun _ => ⟨[], rfl, rfl⟩
    | succ n ih =>
      intro hle
      rcases ih (by omega) with ⟨steps, hlength, hevents⟩
      have hplaced := placed_run 0 steps _ (Machine.foldl_mem_states _ steps)
      rcases hplaced.exists_register (hcon steps (by omega)) with ⟨fuel, hfuel⟩
      refine ⟨steps ++
        [.asyncWait 0 0 fuel], by rw [List.length_append, List.length_singleton, hlength], ?_⟩
      rw [List.foldl_append, List.foldl_cons, List.foldl_nil, hfuel, hevents]
  rcases hmany 64001 le_rfl with ⟨steps, -, hevents⟩
  have hle := (placed_run 0 steps _ (Machine.foldl_mem_states _ steps)).length_le
  omega

end TimerLoop

end Aio

end Cppcms
