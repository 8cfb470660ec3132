import Cppcms.Aio.EventLoop

/-!
# Every wait is completed once

The handler of a wait is in one place: in a registration that was put to the queue, in `map_`, or
among those that were put to the queue to be called.  While a registration is carried out its
handler is in neither of them (`limbo`).
-/

namespace Cppcms

namespace Aio

/-- The handler of a registration. -/
def Item.handler : Item → Option ℕ
  | .setter _ _ h => some h
  | _ => none

namespace IoData

variable {d : IoData} {event event' : Direction}

lemma handler_store_self (d : IoData) (event : Direction) (h : ℕ) :
    (d.store event h).handler event = some h := by
  cases event with
  | input => rfl
  | output => rfl

variable {h : ℕ}

lemma handler_store_of_ne (hne : event' ≠ event) :
    (d.store event h).handler event' = d.handler event' := by
  cases event <;> cases event' <;> first | rfl | exact absurd rfl hne

lemma has_store_self (d : IoData) (event : Direction) (h : ℕ) :
    (d.store event h).currentEvent.has event = true := by
  cases event with
  | input => rfl
  | output => rfl

lemma has_store (hhas : d.currentEvent.has event' = true) :
    (d.store event h).currentEvent.has event' = true := by
  cases event <;> cases event' <;> first | rfl | exact hhas

lemma handler_keep (d : IoData) (events : Events) (event : Direction) :
    (d.keep events).handler event = if events.has event then d.handler event else none := by
  cases event with
  | input => rfl
  | output => rfl

/-- A handler is released if it is there and its direction is not among the events. -/
lemma mem_released_iff {events : Events} :
    h ∈ d.released events ↔ ∃ event, events.has event = false ∧ d.handler event = some h := by
  unfold released
  rw [List.mem_append, Option.mem_toList, Option.mem_toList]
  constructor
  · rintro (hin | hout)
    · split_ifs at hin with hhas
      exact ⟨.input, Bool.not_eq_true _ ▸ hhas, hin⟩
    · split_ifs at hout with hhas
      exact ⟨.output, Bool.not_eq_true _ ▸ hhas, hout⟩
  · rintro ⟨event, hhas, hh⟩
    cases event with
    | input =>
      refine Or.inl ?_
      rw [if_neg (Bool.not_eq_true _ ▸ hhas)]
      exact hh
    | output =>
      refine Or.inr ?_
      rw [if_neg (Bool.not_eq_true _ ▸ hhas)]
      exact hh

end IoData

namespace EventLoop

/-- The handlers of the registrations that wait to be carried out. -/
def waiting (l : EventLoop) : List ℕ := l.pending.filterMap Item.handler

/-- Every wait that was registered has its place. -/
structure Consistent (limbo : Option ℕ) (l : EventLoop) : Prop where
  /-- At most one wait of a descriptor and a direction is not completed. -/
  unique : ∀ {h h' : ℕ} {x : ℤ × Direction}, l.registered[h]? = some x →
    l.registered[h']? = some x → h ∉ l.done →
    h' ∉ l.done → h = h'
  waiting_nodup : l.waiting.Nodup
  done_nodup : l.done.Nodup
  done_lt : ∀ {h : ℕ}, h ∈ l.done → h < l.registered.length
  setter : ∀ {fd event h}, Item.setter fd event h ∈ l.pending →
    l.registered[h]? = some (fd, event) ∧ h ∉ l.done
  stored : ∀ {fd event h}, (l.map fd).handler event = some h → l.registered[h]? = some (fd, event) ∧
    (l.map fd).currentEvent.has event = true ∧ h ∉ l.done ∧ h ∉ l.waiting ∧ limbo ≠ some h
  limbo_free : ∀ {h : ℕ}, limbo = some h → h < l.registered.length ∧ h ∉ l.done ∧ h ∉ l.waiting
  kept : ∀ {fd event h}, l.registered[h]? = some (fd, event) →
    h ∈ l.waiting ∨ (l.map fd).handler event = some h ∨
    h ∈ l.done ∨ limbo = some h

section Primitives

variable {limbo : Option ℕ} {l : EventLoop}

lemma pending_push (l : EventLoop) (item : Item) : (l.push item).pending = l.pending ++ [item] := by
  unfold pending push
  cases l.phase with
  | outside => rfl
  | executing item' counter => rfl
  | executed counter => rfl
  | polling => rfl

lemma waiting_push (l : EventLoop) (item : Item) :
    (l.push item).waiting = l.waiting ++ item.handler.toList := by
  unfold waiting
  rw [pending_push, List.filterMap_append]
  rfl

variable {h : ℕ} {event : Direction} {fd : ℤ}

lemma mem_waiting_iff : h ∈ l.waiting ↔ ∃ fd event, Item.setter fd event h ∈ l.pending := by
  unfold waiting
  rw [List.mem_filterMap]
  constructor
  · rintro ⟨item, hmem, hitem⟩
    cases item with
    | setter fd event h' =>
      have heq : h' = h := Option.some.inj hitem
      exact ⟨fd, event, heq ▸ hmem⟩
    | canceler fd => cases hitem
    | completion h' e => cases hitem
    | other => cases hitem
  · rintro ⟨fd, event, hmem⟩
    exact ⟨_, hmem, rfl⟩

/-- A step that leaves the waits where they are. -/
lemma Consistent.of_eq {l' : EventLoop} (hl : l.Consistent limbo) (hmap : l'.map = l.map)
    (hregistered : l'.registered = l.registered) (hcompleted : l'.completed = l.completed)
    (hwaiting : l'.waiting = l.waiting)
    (hsetter : ∀ fd event h, Item.setter fd event h ∈ l'.pending →
      Item.setter fd event h ∈ l.pending) :
    l'.Consistent limbo := by
  have hdone : l'.done = l.done := congrArg (List.map Prod.fst) hcompleted
  constructor
  · rw [hregistered, hdone]
    exact hl.unique
  · rw [hwaiting]
    exact hl.waiting_nodup
  · rw [hdone]
    exact hl.done_nodup
  · rw [hregistered, hdone]
    exact hl.done_lt
  · rw [hregistered, hdone]
    exact fun hmem => hl.setter (hsetter _ _ _ hmem)
  · rw [hmap, hregistered, hdone, hwaiting]
    exact hl.stored
  · rw [hregistered, hdone, hwaiting]
    exact hl.limbo_free
  · rw [hregistered, hmap, hdone, hwaiting]
    exact hl.kept

/-- An element that is no registration comes to the queue. -/
lemma Consistent.push (hl : l.Consistent limbo) {item : Item} (hitem : item.handler = none) :
    (l.push item).Consistent limbo := by
  refine hl.of_eq rfl rfl rfl ?_ fun fd event h hmem => ?_
  · rw [waiting_push, hitem, Option.toList_none, List.append_nil]
  · rw [pending_push, List.mem_append, List.mem_singleton] at hmem
    rcases hmem with hmem | rfl
    · exact hmem
    · cases hitem

lemma done_complete (l : EventLoop) (h : ℕ) (e : Option WaitError) :
    (l.complete h e).done = l.done ++ [h] :=
  List.map_append

lemma waiting_complete (l : EventLoop) (h : ℕ) (e : Option WaitError) :
    (l.complete h e).waiting = l.waiting := by
  have hpush := waiting_push l (.completion h e)
  exact hpush.trans (List.append_nil _)

lemma setter_mem_complete {h h' : ℕ} {e : Option WaitError}
    (hmem : Item.setter fd event h' ∈ (l.complete h e).pending) :
    Item.setter fd event h' ∈ l.pending := by
  have hpush : (l.complete h e).pending = l.pending ++ [.completion h e] :=
    pending_push l (.completion h e)
  rw [hpush, List.mem_append, List.mem_singleton] at hmem
  rcases hmem with hmem | hmem
  · exact hmem
  · cases hmem

/-- The handler that is carried out is put to the queue. -/
lemma Consistent.complete (hl : l.Consistent (some h)) (e : Option WaitError) :
    (l.complete h e).Consistent none := by
  rcases hl.limbo_free rfl with ⟨hlt, hdone, hwaiting⟩
  have hmem : ∀ {h' : ℕ}, h' ∉ (l.complete h e).done → h' ∉ l.done := by
    intro h' hnot hmem
    rw [done_complete] at hnot
    exact hnot (List.mem_append_left _ hmem)
  constructor
  · intro h₁ h₂ x hx₁ hx₂ hn₁ hn₂
    exact hl.unique hx₁ hx₂ (hmem hn₁) (hmem hn₂)
  · rw [waiting_complete]
    exact hl.waiting_nodup
  · rw [done_complete]
    exact hl.done_nodup.append (List.nodup_singleton h) (List.disjoint_singleton.2 hdone)
  · intro h' hh'
    rw [done_complete, List.mem_append, List.mem_singleton] at hh'
    rcases hh' with hh' | rfl
    · exact hl.done_lt hh'
    · exact hlt
  · intro fd event h' hsetter
    have hold := setter_mem_complete hsetter
    rcases hl.setter hold with ⟨hregistered, hnot⟩
    refine ⟨hregistered, ?_⟩
    rw [done_complete, List.mem_append, List.mem_singleton, not_or]
    refine ⟨hnot, ?_⟩
    rintro rfl
    exact hwaiting (mem_waiting_iff.2 ⟨fd, event, hold⟩)
  · intro fd event h' hstored
    rcases hl.stored hstored with ⟨hregistered, hbit, hnot, hnot', hlimbo⟩
    refine ⟨hregistered, hbit, ?_, by rwa [waiting_complete], by simp⟩
    rw [done_complete, List.mem_append, List.mem_singleton, not_or]
    exact ⟨hnot, fun heq => hlimbo (heq ▸ rfl)⟩
  · intro h' hnone
    cases hnone
  · intro fd event h' hregistered
    rw [waiting_complete, done_complete, List.mem_append, List.mem_singleton]
    rcases hl.kept hregistered with hkept | hkept | hkept | hkept
    · exact Or.inl hkept
    · exact Or.inr (Or.inl hkept)
    · exact Or.inr (Or.inr (Or.inl (Or.inl hkept)))
    · exact Or.inr (Or.inr (Or.inl (Or.inr (Option.some.inj hkept).symm)))

/-- A handler that is carried out is stored.  The place is free: a wait that is stored there would
be a second one of the descriptor and the direction. -/
lemma Consistent.store {fd : ℤ} {event : Direction} {h : ℕ} (hl : l.Consistent (some h))
    (hregistered : l.registered[h]? = some (fd, event)) :
    { l with map := Function.update l.map fd ((l.map fd).store event h) }.Consistent none := by
  rcases hl.limbo_free rfl with ⟨hlt, hdone, hwaiting⟩
  have hfree : (l.map fd).handler event = none := by
    by_contra hne
    rcases Option.ne_none_iff_exists'.1 hne with ⟨h', hh'⟩
    rcases hl.stored hh' with ⟨hregistered', -, hnot, -, hlimbo⟩
    exact hlimbo (congrArg some (hl.unique hregistered hregistered' hdone hnot))
  refine ⟨hl.unique, hl.waiting_nodup, hl.done_nodup, hl.done_lt, hl.setter, ?_, fun hnone =>
    (by cases hnone), ?_⟩
  · intro fd' event' h' hstored
    dsimp only at hstored ⊢
    by_cases hfd : fd' = fd
    · rw [hfd, Function.update_self] at hstored ⊢
      by_cases hevent : event' = event
      · have hself : h = h' := by
          rw [hevent, IoData.handler_store_self] at hstored
          exact Option.some.inj hstored
        rw [hevent, ← hself]
        exact ⟨hregistered, IoData.has_store_self _ _ _, hdone, hwaiting, by simp⟩
      · rw [IoData.handler_store_of_ne hevent] at hstored
        rcases hl.stored hstored with ⟨hregistered', hbit, hnot, hnot', -⟩
        exact ⟨hregistered', IoData.has_store hbit, hnot, hnot', by simp⟩
    · rw [Function.update_of_ne hfd] at hstored ⊢
      rcases hl.stored hstored with ⟨hregistered', hbit, hnot, hnot', -⟩
      exact ⟨hregistered', hbit, hnot, hnot', by simp⟩
  · intro fd' event' h' hregistered'
    dsimp only at hregistered' ⊢
    rcases hl.kept hregistered' with hkept | hkept | hkept | hkept
    · exact Or.inl hkept
    · refine Or.inr (Or.inl ?_)
      by_cases hfd : fd' = fd
      · rw [hfd, Function.update_self]
        rw [hfd] at hkept
        by_cases hevent : event' = event
        · rw [hevent, hfree] at hkept
          cases hkept
        · rw [IoData.handler_store_of_ne hevent]
          exact hkept
      · rw [Function.update_of_ne hfd]
        exact hkept
    · exact Or.inr (Or.inr (Or.inl hkept))
    · have heq : h = h' := Option.some.inj hkept
      rw [← heq, hregistered] at hregistered'
      rcases Prod.mk.inj (Option.some.inj hregistered') with ⟨rfl, rfl⟩
      refine Or.inr (Or.inl ?_)
      rw [Function.update_self, IoData.handler_store_self, heq]

lemma completeAll_registered (l : EventLoop) (hs : List ℕ) (e : Option WaitError) :
    (l.completeAll hs e).registered = l.registered := by
  induction hs generalizing l with
  | nil => rfl
  | cons h hs ih => exact ih (l.complete h e)

lemma completeAll_completed (l : EventLoop) (hs : List ℕ) (e : Option WaitError) :
    (l.completeAll hs e).completed = l.completed ++ hs.map (fun h => (h, e)) := by
  induction hs generalizing l with
  | nil => exact (List.append_nil _).symm
  | cons h hs ih =>
    refine (ih (l.complete h e)).trans ?_
    show l.completed ++ [(h, e)] ++ hs.map (fun h => (h, e)) = l.completed ++ (h, e) ::
      hs.map (fun h => (h, e))
    rw [List.append_assoc, List.singleton_append]

lemma completeAll_pending (l : EventLoop) (hs : List ℕ) (e : Option WaitError) :
    (l.completeAll hs e).pending = l.pending ++ hs.map (fun h => .completion h e) := by
  induction hs generalizing l with
  | nil => exact (List.append_nil _).symm
  | cons h hs ih =>
    have hcomplete : (l.complete h e).pending = l.pending ++ [.completion h e] :=
      pending_push l (.completion h e)
    refine (ih (l.complete h e)).trans ?_
    rw [hcomplete, List.append_assoc, List.singleton_append, List.map_cons]

lemma release_pending (l : EventLoop) (fd : ℤ) (events : Events) (e : Option WaitError) :
    (l.release fd events e).pending =
      l.pending ++ ((l.map fd).released events).map (fun h => .completion h e) :=
        completeAll_pending l _ e

lemma release_done (l : EventLoop) (fd : ℤ) (events : Events) (e : Option WaitError) :
    (l.release fd events e).done = l.done ++ (l.map fd).released events := by
  show ((l.completeAll _ e).completed).map Prod.fst = _
  rw [completeAll_completed, List.map_append, List.map_map]
  exact congrArg _ (List.map_id _)

lemma release_registered (l : EventLoop) (fd : ℤ) (events : Events) (e : Option WaitError) :
    (l.release fd events e).registered = l.registered := completeAll_registered l _ e

lemma release_waiting (l : EventLoop) (fd : ℤ) (events : Events) (e : Option WaitError) :
    (l.release fd events e).waiting = l.waiting := by
  unfold waiting
  rw [release_pending, List.filterMap_append, List.filterMap_map]
  have hnone : ((l.map fd).released events).filterMap
      (Item.handler ∘ fun h => Item.completion h e) = [] :=
    List.filterMap_eq_nil_iff.2 fun _ _ => rfl
  rw [hnone, List.append_nil]

/-- The handlers of the two directions are different ones. -/
lemma Consistent.nodup_released (hl : l.Consistent limbo) (fd : ℤ) (events : Events) :
    ((l.map fd).released events).Nodup := by
  unfold IoData.released
  refine List.Nodup.append ?_ ?_ ?_
  · cases (if events.input then none else (l.map fd).readable) with
    | none => exact List.nodup_nil
    | some h => exact List.nodup_singleton h
  · cases (if events.output then none else (l.map fd).writeable) with
    | none => exact List.nodup_nil
    | some h => exact List.nodup_singleton h
  · intro h hin hout
    rw [Option.mem_toList] at hin hout
    split_ifs at hin with hinput
    split_ifs at hout with houtput
    have hinput : (l.map fd).handler .input = some h := hin
    have houtput : (l.map fd).handler .output = some h := hout
    have hreadable := (hl.stored hinput).1
    have hwriteable := (hl.stored houtput).1
    rw [hreadable] at hwriteable
    cases hwriteable

/-- Handlers go from `map_` to the queue. -/
lemma Consistent.release (hl : l.Consistent limbo) (fd : ℤ) (events : Events)
    (e : Option WaitError) :
    (l.release fd events e).Consistent limbo := by
  have hreleased : ∀ {h : ℕ}, h ∈ (l.map fd).released events → ∃ event, events.has event = false ∧
      (l.map fd).handler event = some h := fun hmem => IoData.mem_released_iff.1 hmem
  have hdone : ∀ {h : ℕ}, h ∉ (l.release fd events e).done → h ∉ l.done := by
    intro h hnot hmem
    rw [release_done] at hnot
    exact hnot (List.mem_append_left _ hmem)
  constructor
  · intro h h' x hx hx' hn hn'
    rw [release_registered] at hx hx'
    exact hl.unique hx hx' (hdone hn) (hdone hn')
  · rw [release_waiting]
    exact hl.waiting_nodup
  · rw [release_done]
    refine hl.done_nodup.append (hl.nodup_released fd events) fun h hmem hmem' => ?_
    rcases hreleased hmem' with ⟨event, -, hstored⟩
    exact (hl.stored hstored).2.2.1 hmem
  · intro h hmem
    rw [release_done, List.mem_append] at hmem
    rw [release_registered]
    rcases hmem with hmem | hmem
    · exact hl.done_lt hmem
    · rcases hreleased hmem with ⟨event, -, hstored⟩
      exact (List.getElem?_eq_some_iff.1 (hl.stored hstored).1).1
  · intro fd' event h hmem
    rw [release_pending, List.mem_append] at hmem
    rcases hmem with hmem | hmem
    · rcases hl.setter hmem with ⟨hregistered, hnot⟩
      rw [release_registered, release_done, List.mem_append, not_or]
      refine ⟨hregistered, hnot, fun hmem' => ?_⟩
      rcases hreleased hmem' with ⟨event', -, hstored⟩
      exact (hl.stored hstored).2.2.2.1 (mem_waiting_iff.2 ⟨fd', event, hmem⟩)
    · rcases List.mem_map.1 hmem with ⟨h', -, hh'⟩
      cases hh'
  · intro fd' event h hstored
    have hmap : (l.release fd events e).map = Function.update l.map fd ((l.map fd).keep events) :=
      rfl
    rw [hmap] at hstored ⊢
    rw [release_registered, release_done, release_waiting, List.mem_append, not_or]
    by_cases hfd : fd' = fd
    · rw [hfd, Function.update_self] at hstored ⊢
      rw [IoData.handler_keep] at hstored
      split_ifs at hstored with hhas
      rcases hl.stored hstored with ⟨hregistered, hbit, hnot, hnot', hlimbo⟩
      refine ⟨hregistered, hhas, ⟨hnot, fun hmem => ?_⟩, hnot', hlimbo⟩
      -- the handler of the other direction has another number
      rcases hreleased hmem with ⟨event', hhas', hstored'⟩
      have hregistered' := (hl.stored hstored').1
      rw [hregistered] at hregistered'
      have hevent : event = event' := congrArg Prod.snd (Option.some.inj hregistered')
      rw [hevent, hhas'] at hhas
      cases hhas
    · rw [Function.update_of_ne hfd] at hstored ⊢
      rcases hl.stored hstored with ⟨hregistered, hbit, hnot, hnot', hlimbo⟩
      refine ⟨hregistered, hbit, ⟨hnot, fun hmem => ?_⟩, hnot', hlimbo⟩
      rcases hreleased hmem with ⟨event', -, hstored'⟩
      have hregistered' := (hl.stored hstored').1
      rw [hregistered] at hregistered'
      exact hfd (congrArg Prod.fst (Option.some.inj hregistered'))
  · intro h hlimbo
    rcases hl.limbo_free hlimbo with ⟨hlt, hnot, hnot'⟩
    rw [release_registered, release_done, release_waiting, List.mem_append, not_or]
    refine ⟨hlt, ⟨hnot, fun hmem => ?_⟩, hnot'⟩
    rcases hreleased hmem with ⟨event, -, hstored⟩
    exact (hl.stored hstored).2.2.2.2 hlimbo
  · intro fd' event h hregistered
    rw [release_registered] at hregistered
    have hmap : (l.release fd events e).map = Function.update l.map fd ((l.map fd).keep events) :=
      rfl
    rw [hmap, release_done, release_waiting, List.mem_append]
    rcases hl.kept hregistered with hkept | hkept | hkept | hkept
    · exact Or.inl hkept
    · by_cases hfd : fd' = fd
      · rw [hfd] at hkept ⊢
        rw [Function.update_self, IoData.handler_keep]
        by_cases hhas : events.has event = true
        · rw [if_pos hhas]
          exact Or.inr (Or.inl hkept)
        · exact Or.inr
            (Or.inr
            (Or.inl (Or.inr (IoData.mem_released_iff.2 ⟨event, Bool.not_eq_true _ ▸ hhas, hkept⟩))))
      · rw [Function.update_of_ne hfd]
        exact Or.inr (Or.inl hkept)
    · exact Or.inr (Or.inr (Or.inl (Or.inl hkept)))
    · exact Or.inr (Or.inr (Or.inr hkept))

/-- A wait is registered that is the only one of its descriptor and direction. -/
lemma Consistent.register (hl : l.Consistent none)
    (hfree : ∀ h : ℕ, l.registered[h]? = some (fd, event) → h ∈ l.done) :
    { l with registered := l.registered ++ [(fd, event)] }.Consistent
      (some l.registered.length) := by
  have hold : ∀ {h : ℕ}, h < l.registered.length →
      (l.registered ++ [(fd, event)])[h]? = l.registered[h]? :=
    fun hlt => List.getElem?_append_left hlt
  have hlt : ∀ {h : ℕ} {x : ℤ × Direction}, l.registered[h]? = some x → h < l.registered.length :=
    fun hx => (List.getElem?_eq_some_iff.1 hx).1
  -- a wait is an old one or the new one
  have hcases : ∀ {h : ℕ} {x : ℤ × Direction}, (l.registered ++ [(fd, event)])[h]? = some x →
      l.registered[h]? = some x ∨ h = l.registered.length ∧ x = (fd, event) := by
    intro h x hx
    by_cases hh : h < l.registered.length
    · exact Or.inl ((hold hh).symm.trans hx)
    · have hlength := (List.getElem?_eq_some_iff.1 hx).1
      rw [List.length_append, List.length_singleton] at hlength
      have heq : h = l.registered.length := by omega
      rw [heq, List.getElem?_concat_length] at hx
      exact Or.inr ⟨heq, (Option.some.inj hx).symm⟩
  refine ⟨?_, hl.waiting_nodup, hl.done_nodup, ?_, ?_, ?_, ?_, ?_⟩
  · intro h h' x hx hx' hnot hnot'
    rcases hcases hx with hx | ⟨hh, hx⟩
    · rcases hcases hx' with hx' | ⟨-, hx'⟩
      · exact hl.unique hx hx' hnot hnot'
      · exact absurd (hfree h (hx' ▸ hx)) hnot
    · rcases hcases hx' with hx' | ⟨hh', -⟩
      · exact absurd (hfree h' (hx ▸ hx')) hnot'
      · exact hh.trans hh'.symm
  · intro h hmem
    have hold := hl.done_lt hmem
    simp only [List.length_append, List.length_singleton]
    omega
  · intro fd' event' h hmem
    rcases hl.setter hmem with ⟨hregistered, hnot⟩
    exact ⟨(hold (hlt hregistered)).trans hregistered, hnot⟩
  · intro fd' event' h hstored
    rcases hl.stored hstored with ⟨hregistered, hbit, hnot, hnot', -⟩
    refine ⟨(hold (hlt hregistered)).trans hregistered, hbit, hnot, hnot', fun heq => ?_⟩
    have hless := hlt hregistered
    rw [← Option.some.inj heq] at hless
    exact lt_irrefl _ hless
  · intro h hlimbo
    have heq : l.registered.length = h := Option.some.inj hlimbo
    refine ⟨?_, fun hmem => ?_, fun hmem => ?_⟩
    · simp only [List.length_append, List.length_singleton]
      omega
    · exact absurd (hl.done_lt hmem) (by omega)
    · rcases mem_waiting_iff.1 hmem with ⟨fd', event', hsetter⟩
      exact absurd (hlt (hl.setter hsetter).1) (by omega)
  · intro fd' event' h hregistered
    rcases hcases hregistered with hregistered | ⟨hh, -⟩
    · rcases hl.kept hregistered with hkept | hkept | hkept | hkept
      · exact Or.inl hkept
      · exact Or.inr (Or.inl hkept)
      · exact Or.inr (Or.inr (Or.inl hkept))
      · cases hkept
    · exact Or.inr (Or.inr (Or.inr (congrArg some hh.symm)))

/-- The registration is put to the queue. -/
lemma Consistent.pushSetter (hl : l.Consistent (some h))
    (hregistered : l.registered[h]? = some (fd, event)) :
    (l.push (.setter fd event h)).Consistent none := by
  rcases hl.limbo_free rfl with ⟨-, hdone, hwaiting⟩
  have hpush : (l.push (.setter fd event h)).waiting = l.waiting ++ [h] := waiting_push l _
  refine ⟨hl.unique, ?_, hl.done_nodup, hl.done_lt, ?_, ?_, fun hnone => (by cases hnone), ?_⟩
  · rw [hpush]
    exact hl.waiting_nodup.append (List.nodup_singleton h) (List.disjoint_singleton.2 hwaiting)
  · intro fd' event' h' hmem
    rw [pending_push, List.mem_append, List.mem_singleton] at hmem
    rcases hmem with hmem | hmem
    · exact hl.setter hmem
    · cases hmem
      exact ⟨hregistered, hdone⟩
  · intro fd' event' h' hstored
    rcases hl.stored hstored with ⟨hregistered', hbit, hnot, hnot', hlimbo⟩
    refine ⟨hregistered', hbit, hnot, ?_, by simp⟩
    rw [hpush, List.mem_append, List.mem_singleton, not_or]
    exact ⟨hnot', fun heq => hlimbo (heq ▸ rfl)⟩
  · intro fd' event' h' hregistered'
    rw [hpush, List.mem_append, List.mem_singleton]
    rcases hl.kept hregistered' with hkept | hkept | hkept | hkept
    · exact Or.inl (Or.inl hkept)
    · exact Or.inr (Or.inl hkept)
    · exact Or.inr (Or.inr (Or.inl hkept))
    · exact Or.inl (Or.inr (Option.some.inj hkept).symm)

lemma Consistent.runSetter (hl : l.Consistent (some h))
    (hregistered : l.registered[h]? = some (fd, event)) (fault : Option Errno) :
    (l.runSetter fd event h fault).Consistent none := by
  unfold EventLoop.runSetter
  split_ifs
  · exact hl.complete _
  · rcases fault with _ | e
    · exact hl.store hregistered
    · exact hl.complete _

end Primitives

/-! ## The steps -/

section Steps

variable {l : EventLoop}

variable {event : Direction} {fd : ℤ}

lemma Consistent.setIoEvent {fault : Option Errno} (hl : l.Consistent none)
    (hfree : l.Proper (.setIoEvent fd event fault)) :
    (l.setIoEvent fd event fault).Consistent none := by
  have hlast : (l.registered ++ [(fd, event)])[l.registered.length]? = some (fd, event) :=
    List.getElem?_concat_length
  unfold EventLoop.setIoEvent
  split_ifs
  · exact (hl.register hfree).pushSetter hlast
  · exact (hl.register hfree).runSetter hlast fault

lemma Consistent.cancelIoEvents (hl : l.Consistent none) (fd : ℤ) :
    (l.cancelIoEvents fd).Consistent none := by
  unfold EventLoop.cancelIoEvents
  split_ifs
  · exact hl
  · exact hl.push rfl
  · exact hl.release fd _ _
  · exact hl

/-- What is taken off the queue stays in front of it. -/
lemma dispatch_cases (l : EventLoop) (counter timers : ℕ) :
    (∃ item queue, l.queue = item :: queue ∧
      l.dispatch counter timers = { l with queue := queue, phase := .executing item counter }) ∨
    l.dispatch counter timers =
      { l with queue := l.queue ++ List.replicate timers .other, polling := true, phase :=
        .polling } := by
  unfold dispatch
  rcases hqueue : l.queue with _ | ⟨item, queue⟩
  · exact Or.inr rfl
  · rcases counter with _ | counter
    · exact Or.inr rfl
    · exact Or.inl ⟨item, queue, rfl, rfl⟩

lemma Consistent.dispatch (hl : l.Consistent none) (hphase : l.pending = l.queue)
    (counter timers : ℕ) :
    (l.dispatch counter timers).Consistent none := by
  rcases dispatch_cases l counter timers with ⟨item, queue, hqueue, hdispatch⟩ | hdispatch
  · have hpending : (l.dispatch counter timers).pending = l.pending := by
      rw [hdispatch, hphase, hqueue]
      rfl
    refine hl.of_eq ?_ ?_ ?_ ?_ ?_
    · rw [hdispatch]
    · rw [hdispatch]
    · rw [hdispatch]
    · exact congrArg (List.filterMap Item.handler) hpending
    · intro fd event h hmem
      rwa [hpending] at hmem
  · have hpending : (l.dispatch counter timers).pending =
        l.pending ++ List.replicate timers .other := by
      rw [hdispatch, hphase]
      rfl
    refine hl.of_eq ?_ ?_ ?_ ?_ ?_
    · rw [hdispatch]
    · rw [hdispatch]
    · rw [hdispatch]
    · unfold waiting
      have hnone : (List.replicate timers Item.other).filterMap Item.handler = [] :=
        List.filterMap_eq_nil_iff.2 fun item hitem => by rw [List.eq_of_mem_replicate hitem]; rfl
      rw [hpending, List.filterMap_append, hnone, List.append_nil]
    · intro fd event h hmem
      rw [hpending, List.mem_append] at hmem
      rcases hmem with hmem | hmem
      · exact hmem
      · cases List.eq_of_mem_replicate hmem

/-- The element that is called is not pending any more. -/
lemma Consistent.take {h counter : ℕ} (hl : l.Consistent none)
    (hphase : l.phase = .executing (.setter fd event h) counter) :
    { l with phase := .executed counter }.Consistent (some h) := by
  have hpending : l.pending = .setter fd event h :: l.queue := by
    unfold pending
    rw [hphase]
  have hwaiting : l.waiting = h :: l.queue.filterMap Item.handler := by
    unfold waiting
    rw [hpending]
    rfl
  have hnodup := hl.waiting_nodup
  rw [hwaiting, List.nodup_cons] at hnodup
  have hself := hl.setter (hpending ▸ List.mem_cons_self)
  refine ⟨hl.unique, hnodup.2, hl.done_nodup, hl.done_lt, ?_, ?_, ?_, ?_⟩
  · intro fd' event' h' hmem
    exact hl.setter (hpending ▸ List.mem_cons_of_mem _ hmem)
  · intro fd' event' h' hstored
    rcases hl.stored hstored with ⟨hregistered, hbit, hnot, hnot', -⟩
    rw [hwaiting, List.mem_cons, not_or] at hnot'
    exact ⟨hregistered, hbit, hnot, hnot'.2, fun heq => hnot'.1 (Option.some.inj heq).symm⟩
  · intro h' heq
    rw [← Option.some.inj heq]
    exact ⟨(List.getElem?_eq_some_iff.1 hself.1).1, hself.2, hnodup.1⟩
  · intro fd' event' h' hregistered
    rcases hl.kept hregistered with hkept | hkept | hkept | hkept
    · rw [hwaiting, List.mem_cons] at hkept
      rcases hkept with hkept | hkept
      · exact Or.inr (Or.inr (Or.inr (congrArg some hkept.symm)))
      · exact Or.inl hkept
    · exact Or.inr (Or.inl hkept)
    · exact Or.inr (Or.inr (Or.inl hkept))
    · cases hkept

/-- An element that is no registration is taken. -/
lemma Consistent.skip {item : Item} {counter : ℕ} (hl : l.Consistent none)
    (hphase : l.phase = .executing item counter) (hitem : item.handler = none) :
    { l with phase := .executed counter }.Consistent none := by
  have hpending : l.pending = item :: l.queue := by
    unfold pending
    rw [hphase]
  refine hl.of_eq rfl rfl rfl ?_ fun fd event h hmem => ?_
  · unfold waiting
    rw [hpending, List.filterMap_cons_none hitem]
    rfl
  · rw [hpending]
    exact List.mem_cons_of_mem _ hmem

lemma Consistent.exec {item : Item} {counter : ℕ} (hl : l.Consistent none)
    (hphase : l.phase = .executing item counter) (fault : Option Errno) :
    ({ l with phase := .executed counter }.run item fault).Consistent none := by
  have hpending : l.pending = item :: l.queue := by
    unfold pending
    rw [hphase]
  cases item with
  | setter fd event h =>
    have hregistered := (hl.setter (hpending ▸ List.mem_cons_self)).1
    exact (hl.take hphase).runSetter hregistered fault
  | canceler fd => exact (hl.skip hphase rfl).release fd _ _
  | completion h e => exact hl.skip hphase rfl
  | other => exact hl.skip hphase rfl

lemma Consistent.reports (hl : l.Consistent none) (reports : List (ℤ × Events × Option Errno)) :
    (reports.foldl report l).Consistent none := by
  induction reports generalizing l with
  | nil => exact hl
  | cons x reports ih => exact ih (hl.release _ _ _)

/-- The poll is over. -/
lemma Consistent.outside (hl : l.Consistent none) (hphase : l.phase = .polling) :
    { l with polling := false, phase := .outside }.Consistent none := by
  have hpending : l.pending = l.queue := by
    unfold pending
    rw [hphase]
  refine hl.of_eq rfl rfl rfl ?_ fun fd event h hmem => ?_
  · exact congrArg (List.filterMap Item.handler) hpending.symm
  · rw [hpending]
    exact hmem

lemma Consistent.step {s : LoopStep} (hl : l.Consistent none) (hproper : l.Proper s) :
    (l.step s).Consistent none := by
  cases s with
  | setIoEvent fd event fault => exact hl.setIoEvent hproper
  | cancelIoEvents fd => exact hl.cancelIoEvents fd
  | post => exact hl.push rfl
  | enter timers =>
    unfold EventLoop.step
    rcases hphase : l.phase with _ | ⟨item, counter⟩ | counter | _
    · have hpending : l.pending = l.queue := by
        unfold pending
        rw [hphase]
      have hreactor : { l with reactor := true }.Consistent none :=
        hl.of_eq rfl rfl rfl rfl fun _ _ _ hmem => hmem
      exact hreactor.dispatch hpending _ timers
    · exact hl
    · exact hl
    · exact hl
  | exec fault =>
    unfold EventLoop.step
    rcases hphase : l.phase with _ | ⟨item, counter⟩ | counter | _
    · exact hl
    · exact hl.exec hphase fault
    · exact hl
    · exact hl
  | resume timers =>
    unfold EventLoop.step
    rcases hphase : l.phase with _ | ⟨item, counter⟩ | counter | _
    · exact hl
    · exact hl
    · have hpending : l.pending = l.queue := by
        unfold pending
        rw [hphase]
      exact hl.dispatch hpending _ timers
    · exact hl
  | polled reports =>
    unfold EventLoop.step
    rcases hphase : l.phase with _ | ⟨item, counter⟩ | counter | _
    · exact hl
    · exact hl
    · exact hl
    · exact (hl.outside hphase).reports reports

lemma consistent_init : init.Consistent none := by
  constructor
  · intro h h' x hx
    cases hx
  · exact List.nodup_nil
  · exact List.nodup_nil
  · intro h hmem
    cases hmem
  · intro fd event h hmem
    cases hmem
  · intro fd event h hstored
    cases event with
    | input => cases hstored
    | output => cases hstored
  · intro h hlimbo
    cases hlimbo
  · intro fd event h hregistered
    cases hregistered

end Steps

end EventLoop

end Aio

end Cppcms
