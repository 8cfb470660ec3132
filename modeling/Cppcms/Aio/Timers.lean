import Cppcms.Library.Machine

/-!
# Timers of the event loop

`set_timer_event`, `cancel_timer_event` and the timers of `run_one` in `io_service.cpp`, with
`deadline_timer`.  A wait is known to its timer by a slot of `timer_events_index_` that is picked at
random.  The slot is free again as soon as the wait expired, while the timer forgets the slot only
when its handler is called; until then another wait may have got it.

A step is what is done under the mutex without a break, or an access to `event_id_` of a timer,
which no mutex protects.
-/

namespace Cppcms

namespace Aio

/-- An element of `timer_events_`, with the number of its wait in place of the handler. -/
structure TimerEvent where
  point : ℤ
  eventId : ℕ
  wait : ℕ
  deriving DecidableEq

/-- How a wait ends: with the error `canceled`, or without one by a `run_one` that found it to be
`now`. -/
inductive TimerOutcome where
  | canceled
  | expired (now : ℤ)
  deriving DecidableEq

/-- A number that `set_timer_event` returned, and the wait that it was returned for. -/
structure EventId where
  pos : ℕ
  wait : ℕ
  deriving DecidableEq

/-- The timers of the loop, and the `event_id_` of every `deadline_timer`. -/
structure TimerLoop where
  seed : UInt32
  /-- `timer_events_`, in the order of the points. -/
  events : List TimerEvent
  /-- `timer_events_index_`: an iterator is given by the wait it points to. -/
  index : List (Option ℕ)
  /-- The waits in `dispatch_queue_`. -/
  queue : List (ℕ × TimerOutcome)
  eventId : ℕ → Option EventId
  /-- The calls of `async_wait` which have not stored the number yet, by their timers. -/
  assigning : List (ℕ × EventId)
  /-- The calls of `cancel` which have not called `cancel_timer_event` yet. -/
  cancelling : List (ℕ × EventId)
  /-- The timer and the deadline of every call of `async_wait`; its number stands for its handler.
  -/
  waits : List (ℕ × ℤ)
  /-- The waits that were put to the queue so far. -/
  completed : List (ℕ × TimerOutcome)
  /-- The waits whose handlers were called. -/
  called : List ℕ
  /-- The calls of `cancel`, with the number of waits at that time. -/
  cancels : List (ℕ × ℕ)

/-- The steps of the callers and of the loop. -/
inductive TimerStep where
  /-- `async_wait` until `set_timer_event` returns; its loop is given up after `fuel` rounds. -/
  | asyncWait (timer : ℕ) (deadline : ℤ) (fuel : ℕ)
  | assign (timer : ℕ) (id : EventId)
  | cancel (timer : ℕ)
  | cancelTimerEvent (timer : ℕ) (id : EventId)
  /-- `run_one` between the handlers and the poll. -/
  | expire (now : ℤ)
  /-- `run_one` calls the next handler. -/
  | dispatch
  | randomizeEvents (n : ℕ)

/-- `rand`, with the new seed. -/
def rand (seed limit : UInt32) : UInt32 × UInt32 :=
  (seed * 1103515245 + 12345, (seed * 1103515245 + 12345) / 65536 % 32768 * limit / 32768)

/-- The loop of `set_timer_event` that looks for a slot. -/
def findSlot : ℕ → UInt32 → List (Option ℕ) → ℕ → Option (UInt32 × List (Option ℕ) × ℕ)
  | 0, _, _, _ => none
  | fuel + 1, seed, index, attempts =>
    let seed' := (rand seed (UInt32.ofNat index.length)).1
    let pos := (rand seed (UInt32.ofNat index.length)).2.toNat
    if index[pos]? = some none then some (seed', index, pos)
    else if attempts + 1 < 10 ∨ index.length ≥ 32768 then findSlot fuel seed' index (attempts + 1)
    else some (seed', index ++ List.replicate index.length none, index.length)

/-- `insert` of the multimap: behind the elements with the same key. -/
def insertEvent (ev : TimerEvent) : List TimerEvent → List TimerEvent
  | [] => [ev]
  | x :: events => if ev.point < x.point then ev :: x :: events else x :: insertEvent ev events

namespace TimerLoop

/-- The constructor does not set the seed. -/
def init (seed : UInt32) : TimerLoop := ⟨seed, [], [], [], fun _ => none, [], [], [], [], [], []⟩

/-- `timer_events_index_.resize(1000,end)`. -/
def resized (l : TimerLoop) : List (Option ℕ) :=
  if l.index.length < 1000 then l.index ++ List.replicate (1000 - l.index.length) none else l.index

/-- `async_wait` and `set_timer_event`. -/
def asyncWait (l : TimerLoop) (timer : ℕ) (deadline : ℤ) (fuel : ℕ) : TimerLoop :=
  match findSlot fuel l.seed l.resized 0 with
  | none => l
  | some (seed, index, pos) =>
    { l with
      seed := seed
      events := insertEvent ⟨deadline, pos, l.waits.length⟩ l.events
      index := index.set pos (some l.waits.length)
      assigning := l.assigning ++ [(timer, ⟨pos, l.waits.length⟩)]
      waits := l.waits ++ [(timer, deadline)] }

/-- A wait is put to the queue. -/
def complete (l : TimerLoop) (wait : ℕ) (o : TimerOutcome) : TimerLoop :=
  { l with queue := l.queue ++ [(wait, o)], completed := l.completed ++ [(wait, o)] }

/-- `cancel` until it calls `cancel_timer_event`. -/
def cancel (l : TimerLoop) (timer : ℕ) : TimerLoop :=
  match l.eventId timer with
  | none => { l with cancels := l.cancels ++ [(timer, l.waits.length)] }
  | some id =>
    { l with
      eventId := Function.update l.eventId timer none
      cancelling := l.cancelling ++ [(timer, id)]
      cancels := l.cancels ++ [(timer, l.waits.length)] }

/-- `cancel_timer_event`. -/
def cancelTimerEvent (l : TimerLoop) (pos : ℕ) : TimerLoop :=
  match l.index[pos]? with
  | some (some wait) =>
    { l.complete wait .canceled with
      events := l.events.eraseP (fun ev => ev.wait = wait)
      index := l.index.set pos none }
  | _ => l

/-- The loop of `run_one` over the timers. -/
def expire (now : ℤ) : List TimerEvent → TimerLoop → TimerLoop
  | [], l => l
  | ev :: events, l =>
    if ev.point ≤ now then
      expire now events
        { l.complete ev.wait (.expired now) with
          events := events
          index := l.index.set ev.eventId none }
    else l

/-- The next handler is called, which is a `waiter` of its timer. -/
def dispatch (l : TimerLoop) : TimerLoop :=
  match l.queue with
  | [] => l
  | (wait, _) :: queue =>
    { l with
      queue := queue
      eventId := match l.waits[wait]? with
        | some (timer, _) => Function.update l.eventId timer none
        | none => l.eventId
      called := l.called ++ [wait] }

def step (l : TimerLoop) : TimerStep → TimerLoop
  | .asyncWait timer deadline fuel => l.asyncWait timer deadline fuel
  | .assign timer id =>
    if (timer, id) ∈ l.assigning then
      { l with assigning := l.assigning.erase (timer, id), eventId :=
        Function.update l.eventId timer (some id) }
    else l
  | .cancel timer => l.cancel timer
  | .cancelTimerEvent timer id =>
    if (timer, id) ∈ l.cancelling then
      { l with cancelling := l.cancelling.erase (timer, id) }.cancelTimerEvent id.pos
    else l
  | .expire now => expire now l.events l
  | .dispatch => l.dispatch
  | .randomizeEvents n =>
    if n < 2 then l
    else { l with seed :=
      (List.range n).foldl (fun seed i => (rand seed (UInt32.ofNat (n - i))).1) l.seed }

/-- A timer has one wait at a time: the handler of the last one was called. -/
def Proper (l : TimerLoop) : TimerStep → Prop
  | .asyncWait timer _ _ => ∀ (wait : ℕ) (deadline : ℤ), l.waits[wait]? = some (timer, deadline) →
      wait ∈ l.called
  | _ => True

/-- The slot that a `cancel` remembered is free, or the wait is in it that the slot was picked for.
-/
def Current (l : TimerLoop) : TimerStep → Prop
  | .cancelTimerEvent timer id => (timer, id) ∈ l.cancelling →
      ∀ wait, l.index[id.pos]? = some (some wait) → wait = id.wait
  | _ => True

end TimerLoop

/-! ## Slots and the order of the timers -/

lemma perm_insertEvent (ev : TimerEvent) (events : List TimerEvent) :
    (insertEvent ev events).Perm (ev :: events) := by
  induction events with
  | nil => exact List.Perm.refl _
  | cons x events ih =>
    rw [insertEvent]
    split_ifs
    · exact List.Perm.refl _
    · exact (ih.cons x).trans (List.Perm.swap ev x events)

variable {ev : TimerEvent} {events : List TimerEvent}

/-- The element that an iterator points to is erased. -/
lemma perm_eraseP (honce : (events.map TimerEvent.wait).Nodup) (hev : ev ∈ events) :
    events.Perm (ev :: events.eraseP (fun x => x.wait = ev.wait)) := by
  rcases List.exists_of_eraseP (p := fun x => decide (x.wait = ev.wait)) hev
    (decide_eq_true rfl) with
    ⟨x, front, rest, -, hx, hsplit, herase⟩
  have hxev : x = ev :=
    List.inj_on_of_nodup_map honce (hsplit ▸ List.mem_append_right _ List.mem_cons_self) hev
      (of_decide_eq_true hx)
  rw [herase, hsplit, hxev]
  exact List.perm_middle

/-- The index has the waits of another one, and perhaps more free slots. -/
structure SameSlots (index index' : List (Option ℕ)) : Prop where
  keeps : ∀ {pos wait : ℕ}, index[pos]? = some (some wait) → index'[pos]? = some (some wait)
  adds : ∀ {pos wait : ℕ}, index'[pos]? = some (some wait) → index[pos]? = some (some wait)

lemma SameSlots.refl (index : List (Option ℕ)) : SameSlots index index := ⟨id, id⟩

lemma SameSlots.trans {index index' index'' : List (Option ℕ)} (h : SameSlots index index')
    (h' : SameSlots index' index'') : SameSlots index index'' :=
  ⟨fun hmem => h'.keeps (h.keeps hmem), fun hmem => h.adds (h'.adds hmem)⟩

lemma sameSlots_append (index : List (Option ℕ)) (n : ℕ) :
    SameSlots index (index ++ List.replicate n none) := by
  constructor
  · intro pos wait hmem
    rw [List.getElem?_append_left (List.getElem?_eq_some_iff.1 hmem).1]
    exact hmem
  · intro pos wait hmem
    by_cases hlt : pos < index.length
    · rwa [List.getElem?_append_left hlt] at hmem
    · rw [List.getElem?_append_right (not_lt.1 hlt)] at hmem
      have hnone := List.eq_of_mem_replicate (List.mem_of_getElem? hmem)
      cases hnone

/-- The slot that is found is free. -/
lemma findSlot_spec {fuel : ℕ} {seed seed' : UInt32} {index index' : List (Option ℕ)}
    {attempts pos : ℕ} (hlength : 0 < index.length)
    (h : findSlot fuel seed index attempts = some (seed', index', pos)) :
    SameSlots index index' ∧ index'[pos]? = some none := by
  induction fuel generalizing seed attempts with
  | zero => cases h
  | succ fuel ih =>
    rw [findSlot] at h
    split_ifs at h with hfree hagain
    · rcases Prod.mk.inj (Prod.mk.inj (Option.some.inj h)).2 with ⟨rfl, rfl⟩
      exact ⟨SameSlots.refl index, hfree⟩
    · exact ih h
    · rcases Prod.mk.inj (Prod.mk.inj (Option.some.inj h)).2 with ⟨rfl, rfl⟩
      refine ⟨sameSlots_append index _, ?_⟩
      rw [List.getElem?_append_right le_rfl, Nat.sub_self, List.getElem?_replicate, if_pos hlength]

namespace TimerLoop

lemma sameSlots_resized (l : TimerLoop) : SameSlots l.index l.resized ∧ 0 < l.resized.length := by
  unfold resized
  split_ifs with hsmall
  · refine ⟨sameSlots_append l.index _, ?_⟩
    rw [List.length_append, List.length_replicate]
    omega
  · exact ⟨SameSlots.refl _, by omega⟩

/-! ## The waits and their slots -/

/-- The waits that did not end, and those that ended. -/
def all (l : TimerLoop) : List ℕ := l.events.map TimerEvent.wait ++ l.completed.map Prod.fst

/-- The wait is one of the timer. -/
def IsWaitOf (l : TimerLoop) (timer wait : ℕ) : Prop :=
  ∃ deadline, l.waits[wait]? = some (timer, deadline)

/-- `cancel` of the timer was called when the wait was on. -/
def Cancelled (l : TimerLoop) (timer wait : ℕ) : Prop := ∃ n, wait < n ∧ (timer, n) ∈ l.cancels

/-- Every wait that did not end has a slot of its own, and every one that ended did so for a reason.
-/
structure Sound (l : TimerLoop) : Prop where
  slot : ∀ {pos wait : ℕ}, l.index[pos]? = some (some wait) →
    ∃ ev ∈ l.events, ev.eventId = pos ∧ ev.wait = wait
  event : ∀ {ev : TimerEvent}, ev ∈ l.events → l.index[ev.eventId]? = some (some ev.wait)
  once : l.all.Nodup
  deadline : ∀ {ev : TimerEvent}, ev ∈ l.events →
    ∃ timer, l.waits[ev.wait]? = some (timer, ev.point)
  remembered : ∀ {timer : ℕ} {id : EventId}, l.eventId timer = some id → l.IsWaitOf timer id.wait
  assigning : ∀ {timer : ℕ} {id : EventId}, (timer, id) ∈ l.assigning → l.IsWaitOf timer id.wait
  cancelling : ∀ {timer : ℕ} {id : EventId}, (timer, id) ∈ l.cancelling →
    l.IsWaitOf timer id.wait ∧ l.Cancelled timer id.wait
  canceled : ∀ {wait : ℕ}, (wait, .canceled) ∈ l.completed → ∃ timer, l.IsWaitOf timer wait ∧
    l.Cancelled timer wait
  expired : ∀ {wait : ℕ} {now : ℤ}, (wait, .expired now) ∈ l.completed →
    ∃ timer deadline, l.waits[wait]? = some (timer, deadline) ∧ deadline ≤ now

section Steps

variable {l l' : TimerLoop}

variable {wait : ℕ} {id : EventId}

lemma Sound.lt_length (h : l.Sound) (hmem : wait ∈ l.all) : wait < l.waits.length := by
  rcases List.mem_append.1 hmem with hmem | hmem
  · rcases List.mem_map.1 hmem with ⟨ev, hev, rfl⟩
    rcases h.deadline hev with ⟨timer, htimer⟩
    exact (List.getElem?_eq_some_iff.1 htimer).1
  · rcases List.mem_map.1 hmem with ⟨⟨wait', o⟩, ho, rfl⟩
    cases o with
    | canceled =>
      rcases h.canceled ho with ⟨timer, ⟨deadline, hwait⟩, -⟩
      exact (List.getElem?_eq_some_iff.1 hwait).1
    | expired now =>
      rcases h.expired ho with ⟨timer, deadline, hwait, -⟩
      exact (List.getElem?_eq_some_iff.1 hwait).1

lemma sound_init (seed : UInt32) : (init seed).Sound := by
  constructor
  · intro pos wait hslot
    cases hslot
  · intro ev hev
    cases hev
  · exact List.nodup_nil
  · intro ev hev
    cases hev
  · intro timer id hid
    cases hid
  · intro timer id hid
    cases hid
  · intro timer id hid
    cases hid
  · intro wait hwait
    cases hwait
  · intro wait now hwait
    cases hwait

lemma getElem?_waits_append (x : ℕ × ℤ) {y : ℕ × ℤ} (h : l.waits[wait]? = some y) :
    (l.waits ++ [x])[wait]? = some y := by
  rw [List.getElem?_append_left (List.getElem?_eq_some_iff.1 h).1]
  exact h

lemma Sound.asyncWait (h : l.Sound) (timer : ℕ) (deadline : ℤ) (fuel : ℕ) :
    (l.asyncWait timer deadline fuel).Sound := by
  unfold TimerLoop.asyncWait
  rcases hfind : findSlot fuel l.seed l.resized 0 with _ | ⟨seed, index, pos⟩
  · exact h
  · rcases findSlot_spec (sameSlots_resized l).2 hfind with ⟨hslots, hfree⟩
    have hsame := (sameSlots_resized l).1.trans hslots
    have hpos : pos < index.length := (List.getElem?_eq_some_iff.1 hfree).1
    have hnew : l.waits.length ∉ l.all := fun hmem => lt_irrefl _ (h.lt_length hmem)
    have hperm := perm_insertEvent ⟨deadline, pos, l.waits.length⟩ l.events
    have hold : ∀ {timer' wait : ℕ}, l.IsWaitOf timer' wait →
        ∃ deadline', (l.waits ++ [(timer, deadline)])[wait]? = some (timer', deadline') :=
      fun ⟨deadline', hwait⟩ => ⟨deadline', getElem?_waits_append _ hwait⟩
    dsimp only
    refine ⟨?_, ?_, ?_, ?_, fun hid =>
      hold (h.remembered hid), ?_, fun hid => ?_, fun hwait => ?_, fun hwait => ?_⟩
    · intro pos' wait hslot
      dsimp only at hslot ⊢
      by_cases heq : pos = pos'
      · rw [heq, List.getElem?_set_self (heq ▸ hpos)] at hslot
        have hwait : l.waits.length = wait := Option.some.inj (Option.some.inj hslot)
        exact ⟨_, hperm.mem_iff.2 List.mem_cons_self, heq, hwait⟩
      · rw [List.getElem?_set_ne heq] at hslot
        rcases h.slot (hsame.adds hslot) with ⟨ev, hev, hrest⟩
        exact ⟨ev, hperm.mem_iff.2 (List.mem_cons_of_mem _ hev), hrest⟩
    · intro ev hev
      dsimp only at hev ⊢
      rcases List.mem_cons.1 (hperm.mem_iff.1 hev) with rfl | hev
      · exact List.getElem?_set_self hpos
      · have hslot := hsame.keeps (h.event hev)
        have hne : pos ≠ ev.eventId := by
          intro heq
          rw [heq, hslot] at hfree
          cases hfree
        rw [List.getElem?_set_ne hne]
        exact hslot
    · have hall : ((insertEvent ⟨deadline, pos, l.waits.length⟩ l.events).map TimerEvent.wait ++
          l.completed.map Prod.fst).Perm (l.waits.length :: l.all) :=
            (hperm.map TimerEvent.wait).append_right _
      exact hall.nodup_iff.2 (List.nodup_cons.2 ⟨hnew, h.once⟩)
    · intro ev hev
      dsimp only at hev ⊢
      rcases List.mem_cons.1 (hperm.mem_iff.1 hev) with rfl | hev
      · exact ⟨timer, List.getElem?_concat_length⟩
      · rcases h.deadline hev with ⟨timer', hwait⟩
        exact ⟨timer', getElem?_waits_append _ hwait⟩
    · intro timer' id hid
      rcases List.mem_append.1 hid with hid | hid
      · exact hold (h.assigning hid)
      · cases List.mem_singleton.1 hid
        exact ⟨deadline, List.getElem?_concat_length⟩
    · exact ⟨hold (h.cancelling hid).1, (h.cancelling hid).2⟩
    · rcases h.canceled hwait with ⟨timer', hwaitOf, hcancelled⟩
      exact ⟨timer', hold hwaitOf, hcancelled⟩
    · rcases h.expired hwait with ⟨timer', deadline', hwaits, hle⟩
      exact ⟨timer', deadline', getElem?_waits_append _ hwaits, hle⟩

/-- A wait leaves its slot and ends. -/
lemma Sound.complete (h : l.Sound) (hperm : l.events.Perm (ev :: events)) {o : TimerOutcome}
    (hcanceled : o = .canceled → ∃ timer, l.IsWaitOf timer ev.wait ∧ l.Cancelled timer ev.wait)
    (hexpired : ∀ now, o = .expired now → ev.point ≤ now) :
    { l.complete ev.wait o with events := events, index := l.index.set ev.eventId none }.Sound := by
  have hev : ev ∈ l.events := hperm.mem_iff.2 List.mem_cons_self
  have hrest : ∀ {x : TimerEvent}, x ∈ events → x ∈ l.events := fun hx =>
    hperm.mem_iff.2 (List.mem_cons_of_mem _ hx)
  have hslot := h.event hev
  have hpos := (List.getElem?_eq_some_iff.1 hslot).1
  have honce : (ev.wait :: (events.map TimerEvent.wait ++ l.completed.map Prod.fst)).Nodup :=
    ((hperm.map TimerEvent.wait).append_right _).nodup_iff.1 h.once
  have hother : ∀ {x : TimerEvent}, x ∈ events → x.wait ≠ ev.wait := by
    intro x hx heq
    exact (List.nodup_cons.1 honce).1 (List.mem_append_left _ (List.mem_map.2 ⟨x, hx, heq⟩))
  refine ⟨?_, ?_, ?_, fun hx =>
    h.deadline (hrest hx), h.remembered, h.assigning, h.cancelling, ?_, ?_⟩
  · intro pos wait hmem
    dsimp only at hmem ⊢
    by_cases heq : ev.eventId = pos
    · rw [heq, List.getElem?_set_self (heq ▸ hpos)] at hmem
      cases hmem
    · rw [List.getElem?_set_ne heq] at hmem
      rcases h.slot hmem with ⟨x, hx, hid, hwait⟩
      rcases List.mem_cons.1 (hperm.mem_iff.1 hx) with rfl | hx
      · exact absurd hid heq
      · exact ⟨x, hx, hid, hwait⟩
  · intro x hx
    dsimp only at hx ⊢
    have hslot' := h.event (hrest hx)
    have hne : ev.eventId ≠ x.eventId := by
      intro heq
      rw [← heq, hslot] at hslot'
      exact hother hx (Option.some.inj (Option.some.inj hslot')).symm
    rw [List.getElem?_set_ne hne]
    exact hslot'
  · show (events.map TimerEvent.wait ++ (l.completed ++ [(ev.wait, o)]).map Prod.fst).Nodup
    rw [List.map_append, ← List.append_assoc]
    exact (List.perm_append_singleton _ _).nodup_iff.2 honce
  · intro wait hwait
    rcases List.mem_append.1 hwait with hwait | hwait
    · exact h.canceled hwait
    · rcases Prod.mk.inj (List.mem_singleton.1 hwait) with ⟨rfl, ho⟩
      exact hcanceled ho.symm
  · intro wait now hwait
    rcases List.mem_append.1 hwait with hwait | hwait
    · exact h.expired hwait
    · rcases Prod.mk.inj (List.mem_singleton.1 hwait) with ⟨rfl, ho⟩
      rcases h.deadline hev with ⟨timer, htimer⟩
      exact ⟨timer, ev.point, htimer, hexpired now ho.symm⟩

lemma Sound.expire (h : l.Sound) (now : ℤ) (hevents : l.events = events) :
    (TimerLoop.expire now events l).Sound := by
  induction events generalizing l with
  | nil => exact h
  | cons ev events ih =>
    rw [TimerLoop.expire]
    split_ifs with hnow
    · refine ih (h.complete (hevents ▸ List.Perm.refl _) (fun ho => by cases ho)
        fun now' ho => ?_) rfl
      cases ho
      exact hnow
    · exact h

/-- A slot that is given up by the timer it was picked for. -/
lemma Sound.cancelTimerEvent (h : l.Sound) {timer : ℕ} (hwait : l.IsWaitOf timer id.wait)
    (hcancelled : l.Cancelled timer id.wait)
    (hcurrent : ∀ wait, l.index[id.pos]? = some (some wait) → wait = id.wait) :
    (l.cancelTimerEvent id.pos).Sound := by
  unfold TimerLoop.cancelTimerEvent
  rcases hslot : l.index[id.pos]? with _ | _ | wait
  · exact h
  · exact h
  · rcases h.slot hslot with ⟨ev, hev, hid, rfl⟩
    have hown := hcurrent ev.wait hslot
    have hcomplete := h.complete (perm_eraseP h.once.of_append_left hev) (o := .canceled)
      (fun _ => ⟨timer, hown ▸ hwait, hown ▸ hcancelled⟩) (fun now ho => by cases ho)
    rw [hid] at hcomplete
    exact hcomplete

lemma Sound.cancel (h : l.Sound) (timer : ℕ) : (l.cancel timer).Sound := by
  have hold : ∀ {timer' wait : ℕ}, l.Cancelled timer' wait →
      ∃ n, wait < n ∧ (timer', n) ∈ l.cancels ++ [(timer, l.waits.length)] :=
    fun ⟨n, hlt, hmem⟩ => ⟨n, hlt, List.mem_append_left _ hmem⟩
  have hcanceled : ∀ {wait : ℕ}, (wait, .canceled) ∈ l.completed →
      ∃ timer', l.IsWaitOf timer' wait ∧ ∃ n, wait < n ∧
      (timer', n) ∈ l.cancels ++ [(timer, l.waits.length)] := by
    intro wait hmem
    rcases h.canceled hmem with ⟨timer', hwait, hcancelled⟩
    exact ⟨timer', hwait, hold hcancelled⟩
  unfold TimerLoop.cancel
  rcases hid : l.eventId timer with _ | id
  · exact ⟨h.slot, h.event, h.once, h.deadline, h.remembered, h.assigning,
      fun hmem => ⟨(h.cancelling hmem).1, hold (h.cancelling hmem).2⟩, hcanceled, h.expired⟩
  · refine ⟨h.slot, h.event, h.once, h.deadline, ?_, h.assigning, ?_, hcanceled, h.expired⟩
    · intro timer' id' hid'
      dsimp only at hid'
      by_cases heq : timer' = timer
      · rw [heq, Function.update_self] at hid'
        cases hid'
      · rw [Function.update_of_ne heq] at hid'
        exact h.remembered hid'
    · intro timer' id' hmem
      rcases List.mem_append.1 hmem with hmem | hmem
      · exact ⟨(h.cancelling hmem).1, hold (h.cancelling hmem).2⟩
      · rcases Prod.mk.inj (List.mem_singleton.1 hmem) with ⟨rfl, rfl⟩
        rcases h.remembered hid with ⟨deadline, hwait⟩
        refine ⟨⟨deadline, hwait⟩, l.waits.length, (List.getElem?_eq_some_iff.1 hwait).1, ?_⟩
        exact List.mem_append_right _ (List.mem_singleton_self _)

/-- A timer forgets its number. -/
lemma remembered_update (h : l.Sound) (timer : ℕ) {timer' : ℕ}
    (hid : Function.update l.eventId timer none timer' = some id) : l.IsWaitOf timer' id.wait := by
  by_cases heq : timer' = timer
  · rw [heq, Function.update_self] at hid
    cases hid
  · rw [Function.update_of_ne heq] at hid
    exact h.remembered hid

lemma Sound.dispatch (h : l.Sound) : l.dispatch.Sound := by
  unfold TimerLoop.dispatch
  rcases l.queue with _ | ⟨⟨wait, o⟩, queue⟩
  · exact h
  · refine ⟨h.slot, h.event, h.once, h.deadline, ?_, h.assigning, h.cancelling,
      h.canceled, h.expired⟩
    intro timer id hid
    dsimp only at hid
    rcases hwait : l.waits[wait]? with _ | ⟨timer', deadline⟩
    · rw [hwait] at hid
      exact h.remembered hid
    · rw [hwait] at hid
      exact remembered_update h timer' hid

lemma Sound.step (h : l.Sound) {s : TimerStep} (hcurrent : l.Current s) : (l.step s).Sound := by
  cases s with
  | asyncWait timer deadline fuel => exact h.asyncWait timer deadline fuel
  | assign timer id =>
    unfold TimerLoop.step
    dsimp only
    split_ifs with hmem
    · refine ⟨h.slot, h.event, h.once, h.deadline, ?_, fun hid =>
        h.assigning (List.mem_of_mem_erase hid), h.cancelling, h.canceled, h.expired⟩
      intro timer' id' hid
      dsimp only at hid
      by_cases heq : timer' = timer
      · rw [heq, Function.update_self] at hid
        rw [heq, ← Option.some.inj hid]
        exact h.assigning hmem
      · rw [Function.update_of_ne heq] at hid
        exact h.remembered hid
    · exact h
  | cancel timer => exact h.cancel timer
  | cancelTimerEvent timer id =>
    unfold TimerLoop.step
    dsimp only
    split_ifs with hmem
    · have herased : { l with cancelling := l.cancelling.erase (timer, id) }.Sound :=
        ⟨h.slot, h.event, h.once, h.deadline, h.remembered, h.assigning,
          fun hid => h.cancelling (List.mem_of_mem_erase hid), h.canceled, h.expired⟩
      exact herased.cancelTimerEvent (h.cancelling hmem).1 (h.cancelling hmem).2 (hcurrent hmem)
    · exact h
  | expire now => exact h.expire now rfl
  | dispatch => exact h.dispatch
  | randomizeEvents n =>
    unfold TimerLoop.step
    dsimp only
    split_ifs
    · exact h
    · exact ⟨h.slot, h.event, h.once, h.deadline, h.remembered, h.assigning, h.cancelling,
        h.canceled, h.expired⟩

end Steps

/-! ## Runs -/

/-- If no slot that a `cancel` remembered has gone to another wait, then in all states of a run
every wait was put to the queue once at most; as canceled only if `cancel` of its own timer was
called when it was on, and as expired not before its deadline. -/
theorem run_isolated {seed : UInt32} {steps : List TimerStep}
    (hcurrent : Machine.Obeys step Current (init seed) steps) :
    ∀ l ∈ Machine.states step (init seed) steps, (l.completed.map Prod.fst).Nodup ∧
      (∀ wait, (wait, .canceled) ∈ l.completed →
        ∃ timer deadline n, l.waits[wait]? = some (timer, deadline) ∧ wait < n ∧
        (timer, n) ∈ l.cancels) ∧
      ∀ wait now, (wait, .expired now) ∈ l.completed →
        ∃ timer deadline, l.waits[wait]? = some (timer, deadline) ∧ deadline ≤ now := by
  intro l hmem
  have h := Machine.forall_mem_states (fun l s h hc => h.step hc) (sound_init seed) hcurrent l hmem
  refine ⟨h.once.of_append_right, fun wait hwait => ?_, fun wait now hwait => h.expired hwait⟩
  rcases h.canceled hwait with ⟨timer, ⟨deadline, hwaits⟩, n, hlt, hcancels⟩
  exact ⟨timer, deadline, n, hwaits, hlt, hcancels⟩

/-- A wait is cancelled. -/
def cancelledTimer : List TimerStep :=
  [.asyncWait 0 10 1, .assign 0 ⟨772, 0⟩, .cancel 0, .cancelTimerEvent 0 ⟨772, 0⟩]

lemma cancelledTimer_run :
    ((((init 200).step (.asyncWait 0 10 1)).step (.assign 0 ⟨772, 0⟩)).step
      (.cancel 0)).index[772]? = some (some 0) ∧
      (0, .canceled) ∈ (cancelledTimer.foldl step (init 200)).completed := by
  decide +kernel

lemma current_cancelledTimer : Machine.Obeys step Current (init 200) cancelledTimer := by
  refine ⟨trivial, trivial, trivial, fun _ wait hwait => ?_, trivial⟩
  have hslot : (some (some 0) : Option (Option ℕ)) = some (some wait) :=
    cancelledTimer_run.1.symm.trans hwait
  exact (Option.some.inj (Option.some.inj hslot)).symm

theorem run_isolated_cancelledTimer : Machine.Obeys step Current (init 200) cancelledTimer ∧
    ∃ timer deadline n, (cancelledTimer.foldl step (init 200)).waits[0]? = some (timer, deadline) ∧
    0 < n ∧
      (timer, n) ∈ (cancelledTimer.foldl step (init 200)).cancels :=
  ⟨current_cancelledTimer,
    (run_isolated current_cancelledTimer _ (Machine.foldl_mem_states _ _)).2.1 0
    cancelledTimer_run.2⟩

/-- The wait of the first timer expires, the second timer gets its slot, and the first one is
cancelled before its handler was called. -/
def reusedSlot : List TimerStep :=
  [.asyncWait 0 10 1, .assign 0 ⟨772, 0⟩, .expire 10, .asyncWait 1 100 1,
    .assign 1 ⟨772, 1⟩, .cancel 0, .cancelTimerEvent 0 ⟨772, 0⟩]

lemma reusedSlot_run :
    ((((init 200).step (.asyncWait 0 10 1)).step (.assign 0 ⟨772, 0⟩)).step (.expire 10)).waits =
      [(0, 10)] ∧
      (1, .canceled) ∈ (reusedSlot.foldl step (init 200)).completed ∧
      (reusedSlot.foldl step (init 200)).waits[1]? = some (1, 100) ∧
      (reusedSlot.foldl step (init 200)).cancels = [(0, 2)] := by
  decide +kernel

/-- The wait of the second timer is canceled, and nobody called its `cancel`. -/
theorem reusedSlot_canceled : Machine.Obeys step Proper (init 200) reusedSlot ∧
    (1, .canceled) ∈ (reusedSlot.foldl step (init 200)).completed ∧
    (reusedSlot.foldl step (init 200)).waits[1]? = some (1, 100) ∧
    ∀ n, (1, n) ∉ (reusedSlot.foldl step (init 200)).cancels := by
  refine ⟨⟨?_, trivial, trivial, ?_, trivial, trivial, trivial, trivial⟩, reusedSlot_run.2.1,
    reusedSlot_run.2.2.1, ?_⟩
  · intro wait deadline hwait
    cases hwait
  · intro wait deadline hwait
    rw [reusedSlot_run.1] at hwait
    rcases wait with _ | wait
    · cases hwait
    · cases hwait
  · intro n hmem
    rw [reusedSlot_run.2.2.2] at hmem
    cases List.mem_singleton.1 hmem

end TimerLoop

end Aio

end Cppcms
