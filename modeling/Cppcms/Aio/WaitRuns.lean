import Cppcms.Aio.Completion

/-!
# Runs of the event loop

What the waits get over a whole run: a handler is put to the queue once at most, without an error
only if its direction was reported, and it is put there when the poll reports its descriptor, when
`select` fails, and after a cancellation as soon as the loop has called the elements in front of it.

The last one is not so if a cancellation overtakes a registration that waits in the queue.
-/

namespace Cppcms

namespace Aio

lemma Events.has_zero (event : Direction) : Events.zero.has event = false := by
  cases event with
  | input => rfl
  | output => rfl

namespace IoData

variable {flags : Events} {event : Direction}

/-- A direction that was watched is given up only if it was reported, or because of an error. -/
lemma has_of_newEvents {d : IoData} (hbit : d.currentEvent.has event = true)
    (hnew : (d.newEvents flags).has event = false) :
    flags.error = true ∨ flags.has event = true := by
  unfold newEvents at hnew
  split_ifs at hnew with herror
  · exact Or.inl herror
  · refine Or.inr ?_
    cases event with
    | input =>
      have hinput : d.currentEvent.input = true := hbit
      simpa [Events.has, hinput] using hnew
    | output =>
      have houtput : d.currentEvent.output = true := hbit
      simpa [Events.has, houtput] using hnew

/-- An event that was reported is no longer waited for. -/
lemma newEvents_has_of_flags (d : IoData) (hflags : flags.has event = true) :
    (d.newEvents flags).has event = false := by
  unfold newEvents
  split_ifs
  · exact Events.has_zero event
  · cases event with
    | input =>
      have hinput : flags.input = true := hflags
      simp [Events.has, hinput]
    | output =>
      have houtput : flags.output = true := hflags
      simp [Events.has, houtput]

end IoData

namespace EventLoop

/-! ## What the calls leave as it is -/

/-- The queue grows at its end by elements that are no registrations, and no handler is taken back.
-/
structure Grows (l l' : EventLoop) : Prop where
  queue : ∃ extra : List Item, l'.queue = l.queue ++ extra ∧ extra.filterMap Item.handler = []
  done : l.done ⊆ l'.done
  registered : l'.registered = l.registered
  phase : l'.phase = l.phase
  polling : l'.polling = l.polling
  reactor : l'.reactor = l.reactor

section Grows

variable {l l' l'' : EventLoop}

lemma Grows.refl (l : EventLoop) : Grows l l :=
  ⟨⟨[], (List.append_nil _).symm, rfl⟩, List.Subset.refl _, rfl, rfl, rfl, rfl⟩

lemma Grows.trans (h : Grows l l') (h' : Grows l' l'') : Grows l l'' := by
  rcases h.queue with ⟨extra, hqueue, hextra⟩
  rcases h'.queue with ⟨extra', hqueue', hextra'⟩
  refine ⟨⟨extra ++ extra', ?_, ?_⟩, List.Subset.trans h.done h'.done,
    h'.registered.trans h.registered, h'.phase.trans h.phase, h'.polling.trans h.polling,
    h'.reactor.trans h.reactor⟩
  · rw [hqueue', hqueue, List.append_assoc]
  · rw [List.filterMap_append, hextra, hextra', List.nil_append]

lemma grows_push (l : EventLoop) {item : Item} (hitem : item.handler = none) :
    Grows l (l.push item) :=
  ⟨⟨[item], rfl, List.filterMap_cons_none hitem⟩, List.Subset.refl _, rfl, rfl, rfl, rfl⟩

lemma grows_complete (l : EventLoop) (h : ℕ) (e : Option WaitError) : Grows l (l.complete h e) := by
  refine ⟨⟨[.completion h e], rfl, rfl⟩, ?_, rfl, rfl, rfl, rfl⟩
  rw [done_complete]
  exact List.subset_append_left _ _

lemma grows_completeAll (l : EventLoop) (hs : List ℕ) (e : Option WaitError) :
    Grows l (l.completeAll hs e) := by
  induction hs generalizing l with
  | nil => exact Grows.refl l
  | cons h hs ih => exact (grows_complete l h e).trans (ih _)

/-- The handlers of a released descriptor go to the queue. -/
lemma grows_release (l : EventLoop) (fd : ℤ) (events : Events) (e : Option WaitError) :
    Grows l (l.release fd events e) := by
  have h := grows_completeAll l ((l.map fd).released events) e
  exact ⟨h.queue, h.done, h.registered, h.phase, h.polling, h.reactor⟩

/-- A wait that cannot be set up is completed with its error. -/
lemma grows_runSetter (l : EventLoop) (fd : ℤ) (event : Direction) (h : ℕ) (fault : Option Errno) :
    Grows l (l.runSetter fd event h fault) := by
  unfold runSetter
  split_ifs
  · exact grows_complete l h _
  · rcases fault with _ | e
    · exact ⟨⟨[], (List.append_nil _).symm, rfl⟩, List.Subset.refl _, rfl, rfl, rfl, rfl⟩
    · exact grows_complete l h _

/-- What an item of the queue does before its handler is called. -/
lemma grows_run (l : EventLoop) (item : Item) (fault : Option Errno) :
    Grows l (l.run item fault) := by
  cases item with
  | setter fd event h => exact grows_runSetter l fd event h fault
  | canceler fd => exact grows_release l fd _ _
  | completion h e => exact Grows.refl l
  | other => exact Grows.refl l

lemma grows_cancelIoEvents (l : EventLoop) (fd : ℤ) : Grows l (l.cancelIoEvents fd) := by
  unfold cancelIoEvents
  split_ifs
  · exact Grows.refl l
  · exact grows_push l rfl
  · exact grows_release l fd _ _
  · exact Grows.refl l

/-- The reports of a poll only add to the queue. -/
lemma grows_reports (l : EventLoop) (reports : List (ℤ × Events × Option Errno)) :
    Grows l (reports.foldl report l) := by
  induction reports generalizing l with
  | nil => exact Grows.refl l
  | cons x reports ih => exact (grows_release l _ _ _).trans (ih _)

/-- What is added behind the queue calls no handler yet. -/
lemma Grows.pending (h : Grows l l') :
    ∃ extra : List Item, l'.pending = l.pending ++ extra ∧ extra.filterMap Item.handler = [] := by
  rcases h.queue with ⟨extra, hqueue, hextra⟩
  refine ⟨extra, ?_, hextra⟩
  unfold EventLoop.pending
  rw [h.phase, hqueue]
  cases l.phase with
  | outside => rfl
  | executing item counter => rfl
  | executed counter => rfl
  | polling => rfl

end Grows

lemma dispatch_completed (l : EventLoop) (counter timers : ℕ) :
    (l.dispatch counter timers).completed = l.completed := by
  rcases dispatch_cases l counter timers with ⟨item, queue, -, hdispatch⟩ | hdispatch
  · rw [hdispatch]
  · rw [hdispatch]

lemma dispatch_registered (l : EventLoop) (counter timers : ℕ) :
    (l.dispatch counter timers).registered = l.registered := by
  rcases dispatch_cases l counter timers with ⟨item, queue, -, hdispatch⟩ | hdispatch
  · rw [hdispatch]
  · rw [hdispatch]

/-! ## The phases of the loop -/

/-- Calls are put to the queue only while the loop does not call an element. -/
structure Steady (l : EventLoop) : Prop where
  polling : l.polling = true → l.phase = .polling
  reactor : l.reactor = false → l.phase = .outside

section Steady

variable {l l' : EventLoop}

lemma Steady.pending_eq (h : l.Steady) (hdefers : l.Defers) : l.pending = l.queue := by
  unfold pending
  rcases hdefers with hpolling | hreactor
  · rw [h.polling hpolling]
  · rw [h.reactor hreactor]

lemma Steady.grows (h : l.Steady) (hgrows : Grows l l') : l'.Steady := by
  constructor
  · rw [hgrows.polling, hgrows.phase]
    exact h.polling
  · rw [hgrows.reactor, hgrows.phase]
    exact h.reactor

lemma steady_dispatch (hpolling : l.polling = false) (hreactor : l.reactor = true)
    (counter timers : ℕ) :
    (l.dispatch counter timers).Steady := by
  rcases dispatch_cases l counter timers with ⟨item, queue, -, hdispatch⟩ | hdispatch
  · rw [hdispatch]
    refine ⟨fun htrue => ?_, fun hfalse => ?_⟩
    · rw [show _ = false from hpolling] at htrue
      cases htrue
    · rw [show _ = true from hreactor] at hfalse
      cases hfalse
  · rw [hdispatch]
    refine ⟨fun _ => rfl, fun hfalse => ?_⟩
    rw [show _ = true from hreactor] at hfalse
    cases hfalse

/-- In another phase the loop does not poll. -/
lemma Steady.polling_eq_false (h : l.Steady) (hphase : l.phase ≠ .polling) : l.polling = false := by
  by_contra hpolling
  exact hphase (h.polling (Bool.not_eq_false _ ▸ hpolling))

/-- Inside of `run` there is a reactor. -/
lemma Steady.reactor_eq_true (h : l.Steady) (hphase : l.phase ≠ .outside) : l.reactor = true := by
  by_contra hreactor
  exact hphase (h.reactor (Bool.not_eq_true _ ▸ hreactor))

/-- Every step keeps the flags in line with the phase. -/
lemma Steady.step (h : l.Steady) (s : LoopStep) : (l.step s).Steady := by
  cases s with
  | setIoEvent fd event fault =>
    show (l.setIoEvent fd event fault).Steady
    unfold EventLoop.setIoEvent
    split_ifs
    · exact ⟨h.polling, h.reactor⟩
    · have hregister :
          ({ l with registered := l.registered ++ [(fd, event)] } : EventLoop).Steady :=
        ⟨h.polling, h.reactor⟩
      exact hregister.grows (grows_runSetter _ _ _ _ _)
  | cancelIoEvents fd => exact h.grows (grows_cancelIoEvents l fd)
  | post => exact h.grows (grows_push l rfl)
  | enter timers =>
    unfold EventLoop.step
    rcases hphase : l.phase with _ | ⟨item, counter⟩ | counter | _
    · have hpolling := h.polling_eq_false (by rw [hphase]; exact Phase.noConfusion)
      exact steady_dispatch (l := { l with reactor := true }) hpolling rfl _ timers
    · exact h
    · exact h
    · exact h
  | exec fault =>
    unfold EventLoop.step
    rcases hphase : l.phase with _ | ⟨item, counter⟩ | counter | _
    · exact h
    · have hpolling := h.polling_eq_false (by rw [hphase]; exact Phase.noConfusion)
      have hreactor := h.reactor_eq_true (by rw [hphase]; exact Phase.noConfusion)
      have hexecuted : ({ l with phase := .executed counter } : EventLoop).Steady :=
        ⟨fun htrue => absurd (hpolling.symm.trans htrue) Bool.noConfusion,
          fun hfalse => absurd (hreactor.symm.trans hfalse) Bool.noConfusion⟩
      exact hexecuted.grows (grows_run _ item fault)
    · exact h
    · exact h
  | resume timers =>
    unfold EventLoop.step
    rcases hphase : l.phase with _ | ⟨item, counter⟩ | counter | _
    · exact h
    · exact h
    · have hpolling := h.polling_eq_false (by rw [hphase]; exact Phase.noConfusion)
      have hreactor := h.reactor_eq_true (by rw [hphase]; exact Phase.noConfusion)
      exact steady_dispatch hpolling hreactor _ timers
    · exact h
  | polled reports =>
    unfold EventLoop.step
    rcases hphase : l.phase with _ | ⟨item, counter⟩ | counter | _
    · exact h
    · exact h
    · exact h
    · have houtside : ({ l with polling := false, phase := .outside } : EventLoop).Steady :=
        ⟨fun htrue => absurd htrue Bool.noConfusion, fun _ => rfl⟩
      exact houtside.grows (grows_reports _ reports)

end Steady

/-! ## What the poll reports -/

/-- A handler gets no error only from a poll that reported its direction. -/
def Reported (l : EventLoop) (s : LoopStep) : Prop :=
  ∀ h : ℕ, (h, none) ∈ (l.step s).completed → (h, none) ∉ l.completed →
    ∃ reports fd event flags fault, s = .polled reports ∧ (fd, flags, fault) ∈ reports ∧
      l.registered[h]? = some (fd, event) ∧ flags.has event = true

/-- A handler is put to the queue when the poll reports its direction or an error, and when `select`
fails. -/
def Answered (l : EventLoop) : LoopStep → Prop
  | .setIoEvent fd event (some e) => ¬l.Defers →
      l.registered.length ∈ (l.step (.setIoEvent fd event (some e))).done
  | .exec (some e) => ∀ fd event h counter, l.phase = .executing (.setter fd event h) counter →
      h ∈ (l.step (.exec (some e))).done
  | .polled reports => l.phase = .polling →
      ∀ fd flags fault, (fd, flags, fault) ∈ reports → ∀ event h, (l.map fd).handler event =
        some h → flags.has event = true ∨ flags.error = true ∨ fault ≠ none →
      h ∈ (l.step (.polled reports)).done
  | _ => True

section Reports

variable {l : EventLoop}

variable {e : Option WaitError} {fd : ℤ} {h : ℕ} {event : Direction} {fault : Option Errno}
  {reports : List (ℤ × Events × Option Errno)} {flags : Events}

/-- A completion with an error is no success. -/
lemma mem_completed_complete {h h' : ℕ} (he : e ≠ none)
    (hmem : (h', none) ∈ (l.complete h e).completed) : (h', none) ∈ l.completed := by
  rcases List.mem_append.1 hmem with hmem | hmem
  · exact hmem
  · have hpair := List.mem_singleton.1 hmem
    exact absurd (congrArg Prod.snd hpair).symm he

/-- Only a release without an error gives no error to a handler. -/
lemma mem_completed_release {events : Events}
    (hmem : (h, none) ∈ (l.release fd events e).completed) :
    (h, none) ∈ l.completed ∨ e = none ∧ h ∈ (l.map fd).released events := by
  have hcompleted : (l.release fd events e).completed =
      l.completed ++ ((l.map fd).released events).map (fun h => (h, e)) :=
        completeAll_completed l _ e
  rw [hcompleted] at hmem
  rcases List.mem_append.1 hmem with hmem | hmem
  · exact Or.inl hmem
  · rcases List.mem_map.1 hmem with ⟨h', hh', hpair⟩
    rcases Prod.mk.inj hpair with ⟨rfl, rfl⟩
    exact Or.inr ⟨rfl, hh'⟩

lemma mem_completed_runSetter {h h' : ℕ}
    (hmem : (h', none) ∈ (l.runSetter fd event h fault).completed) : (h', none) ∈ l.completed := by
  unfold runSetter at hmem
  split_ifs at hmem
  · exact mem_completed_complete (Option.some_ne_none _) hmem
  · rcases fault with _ | e
    · exact hmem
    · exact mem_completed_complete (Option.some_ne_none _) hmem

lemma mem_completed_runCanceler (hmem : (h, none) ∈ (l.runCanceler fd).completed) :
    (h, none) ∈ l.completed := by
  rcases mem_completed_release hmem with hmem | ⟨he, -⟩
  · exact hmem
  · cases he

lemma mem_completed_run {item : Item} (hmem : (h, none) ∈ (l.run item fault).completed) :
    (h, none) ∈ l.completed := by
  cases item with
  | setter fd event h' => exact mem_completed_runSetter hmem
  | canceler fd => exact mem_completed_runCanceler hmem
  | completion h' e => exact hmem
  | other => exact hmem

/-- One report. -/
lemma Consistent.mem_completed_report (hl : l.Consistent none) {x : ℤ × Events × Option Errno}
    (hmem : (h, none) ∈ (l.report x).completed) :
    (h, none) ∈ l.completed ∨ ∃ event, l.registered[h]? = some (x.1, event) ∧
    x.2.1.has event = true := by
  rcases mem_completed_release hmem with hmem | ⟨he, hreleased⟩
  · exact Or.inl hmem
  · rcases IoData.mem_released_iff.1 hreleased with ⟨event, hhas, hstored⟩
    rcases hl.stored hstored with ⟨hregistered, hbit, -⟩
    refine Or.inr ⟨event, hregistered, ?_⟩
    unfold reportError at he
    split_ifs at he with herror
    have hfault : x.2.2 = none := Option.map_eq_none_iff.1 he
    rw [if_pos hfault] at hhas
    rcases IoData.has_of_newEvents hbit hhas with herror' | hflags
    · exact absurd herror' herror
    · exact hflags

/-- A success comes from a report for its descriptor and its event. -/
lemma Consistent.mem_completed_reports (hl : l.Consistent none)
    (hmem : (h, none) ∈ (reports.foldl report l).completed) :
    (h, none) ∈ l.completed ∨ ∃ fd event flags fault, (fd, flags, fault) ∈ reports ∧
      l.registered[h]? = some (fd, event) ∧ flags.has event = true := by
  induction reports generalizing l with
  | nil => exact Or.inl hmem
  | cons x reports ih =>
    have hnext : (l.report x).Consistent none := hl.release _ _ _
    rcases ih hnext hmem with hmem | ⟨fd, event, flags, fault, hreport, hregistered, hflags⟩
    · rcases hl.mem_completed_report hmem with hmem | ⟨event, hregistered, hflags⟩
      · exact Or.inl hmem
      · exact Or.inr ⟨x.1, event, x.2.1, x.2.2, List.mem_cons_self, hregistered, hflags⟩
    · refine Or.inr ⟨fd, event, flags, fault, List.mem_cons_of_mem _ hreport, ?_, hflags⟩
      rwa [report, release_registered] at hregistered

/-- Every success was reported in its step. -/
lemma Consistent.reported (hl : l.Consistent none) (s : LoopStep) : l.Reported s := by
  intro h hmem hold
  cases s with
  | setIoEvent fd event fault =>
    refine absurd ?_ hold
    unfold EventLoop.step EventLoop.setIoEvent at hmem
    dsimp only at hmem
    split_ifs at hmem
    · exact hmem
    · have hcompleted := mem_completed_runSetter hmem
      exact hcompleted
  | cancelIoEvents fd =>
    refine absurd ?_ hold
    unfold EventLoop.step EventLoop.cancelIoEvents at hmem
    dsimp only at hmem
    split_ifs at hmem
    · exact hmem
    · exact hmem
    · exact mem_completed_runCanceler hmem
    · exact hmem
  | post => exact absurd hmem hold
  | enter timers =>
    refine absurd ?_ hold
    unfold EventLoop.step at hmem
    rcases hphase : l.phase with _ | ⟨item, counter⟩ | counter | _
    · simp only [hphase] at hmem
      rwa [dispatch_completed] at hmem
    · simpa only [hphase] using hmem
    · simpa only [hphase] using hmem
    · simpa only [hphase] using hmem
  | exec fault =>
    refine absurd ?_ hold
    unfold EventLoop.step at hmem
    rcases hphase : l.phase with _ | ⟨item, counter⟩ | counter | _
    · simpa only [hphase] using hmem
    · simp only [hphase] at hmem
      have hcompleted := mem_completed_run hmem
      exact hcompleted
    · simpa only [hphase] using hmem
    · simpa only [hphase] using hmem
  | resume timers =>
    refine absurd ?_ hold
    unfold EventLoop.step at hmem
    rcases hphase : l.phase with _ | ⟨item, counter⟩ | counter | _
    · simpa only [hphase] using hmem
    · simpa only [hphase] using hmem
    · simp only [hphase] at hmem
      rwa [dispatch_completed] at hmem
    · simpa only [hphase] using hmem
  | polled reports =>
    unfold EventLoop.step at hmem
    rcases hphase : l.phase with _ | ⟨item, counter⟩ | counter | _
    · exact absurd (by simpa only [hphase] using hmem) hold
    · exact absurd (by simpa only [hphase] using hmem) hold
    · exact absurd (by simpa only [hphase] using hmem) hold
    · simp only [hphase] at hmem
      rcases (hl.outside hphase).mem_completed_reports hmem with hmem |
        ⟨fd, event, flags, fault, hreport, hrest⟩
      · exact absurd hmem hold
      · exact ⟨reports, fd, event, flags, fault, rfl, hreport, hrest⟩

/-- A wait that is stored is stored or done after a release. -/
lemma stored_release {fd fd' : ℤ} (hstored : (l.map fd).handler event = some h) (events : Events)
    (e : Option WaitError) :
    ((l.release fd' events e).map fd).handler event = some h ∨
    h ∈ (l.release fd' events e).done := by
  rw [release_done, List.mem_append]
  by_cases hfd : fd = fd'
  · rw [hfd] at hstored ⊢
    show (Function.update l.map fd' _ fd').handler event = some h ∨ _
    rw [Function.update_self, IoData.handler_keep]
    split_ifs with hhas
    · exact Or.inl hstored
    · exact Or.inr (Or.inr (IoData.mem_released_iff.2 ⟨event, Bool.not_eq_true _ ▸ hhas, hstored⟩))
  · show (Function.update l.map fd' _ fd).handler event = some h ∨ _
    rw [Function.update_of_ne hfd]
    exact Or.inl hstored

/-- A report of its direction completes a wait. -/
lemma mem_done_report (hstored : (l.map fd).handler event = some h)
    (hflags : flags.has event = true ∨ flags.error = true ∨ fault ≠ none) :
    h ∈ (l.report (fd, flags, fault)).done := by
  unfold report
  rw [release_done, List.mem_append]
  refine Or.inr (IoData.mem_released_iff.2 ⟨event, ?_, hstored⟩)
  dsimp only
  split_ifs with hfault
  · rcases hflags with hflags | herror | hne
    · exact IoData.newEvents_has_of_flags _ hflags
    · unfold IoData.newEvents
      rw [if_pos herror]
      exact Events.has_zero event
    · exact absurd hfault hne
  · exact Events.has_zero event

/-- A report for the event, or of an error, ends the wait. -/
lemma mem_done_reports (hreport : (fd, flags, fault) ∈ reports)
    (hstored : (l.map fd).handler event = some h)
    (hflags : flags.has event = true ∨ flags.error = true ∨ fault ≠ none) :
    h ∈ (reports.foldl report l).done := by
  induction reports generalizing l with
  | nil => cases hreport
  | cons x reports ih =>
    rcases List.mem_cons.1 hreport with rfl | hreport
    · exact (grows_reports _ reports).done (mem_done_report hstored hflags)
    · rcases stored_release hstored _ _ with hstored | hdone
      · exact ih hreport hstored
      · exact (grows_reports _ reports).done hdone

lemma mem_done_runSetter (l : EventLoop) (fd : ℤ) (event : Direction) (h : ℕ) (e : Errno) :
    h ∈ (l.runSetter fd event h (some e)).done := by
  unfold runSetter
  split_ifs
  · rw [done_complete]
    exact List.mem_append_right _ (List.mem_singleton_self h)
  · show h ∈ (l.complete h _).done
    rw [done_complete]
    exact List.mem_append_right _ (List.mem_singleton_self h)

/-- Every step answers the handlers that it has to answer. -/
lemma answered (l : EventLoop) (s : LoopStep) : l.Answered s := by
  rcases s with ⟨fd, event, _ | e⟩ | fd | _ | timers | (_ | e) | timers | reports
  · trivial
  · intro hdefers
    show _ ∈ (l.setIoEvent fd event (some e)).done
    unfold EventLoop.setIoEvent
    rw [if_neg hdefers]
    exact mem_done_runSetter _ fd event _ e
  · trivial
  · trivial
  · trivial
  · trivial
  · intro fd event h counter hphase
    unfold EventLoop.step
    simp only [hphase]
    exact mem_done_runSetter _ fd event h e
  · trivial
  · intro hphase fd flags fault hreport event h hstored hflags
    unfold EventLoop.step
    simp only [hphase]
    exact mem_done_reports hreport hstored hflags

end Reports

/-! ## Cancellations -/

/-- The step is a call of an element by the loop. -/
def calls (l : EventLoop) : LoopStep → Bool
  | .exec _ =>
    match l.phase with
    | .executing _ _ => true
    | _ => false
  | _ => false

/-- The number of elements that the loop calls in a run. -/
def callCount (l : EventLoop) : List LoopStep → ℕ
  | [] => 0
  | s :: steps => (if l.calls s then 1 else 0) + callCount (l.step s) steps

/-- The handler is done, or a canceler of its descriptor is among the next `n` elements and its
registration is not behind it. -/
def Doomed (l : EventLoop) (fd : ℤ) (h n : ℕ) : Prop :=
  h ∈ l.done ∨ ∃ front rest, l.pending = front ++ .canceler fd :: rest ∧ front.length < n ∧
    h ∉ rest.filterMap Item.handler

section Cancellations

variable {l l' : EventLoop} {fd : ℤ} {event : Direction} {h n : ℕ}

/-- What is added behind the queue does not put off a cancellation. -/
lemma Doomed.append (hdoomed : l.Doomed fd h n) (hdone : l.done ⊆ l'.done) (extra : List Item)
    (hpending : l'.pending = l.pending ++ extra) (hextra : h ∉ extra.filterMap Item.handler) :
    l'.Doomed fd h n := by
  rcases hdoomed with hmem | ⟨front, rest, hsplit, hlength, hrest⟩
  · exact Or.inl (hdone hmem)
  · refine Or.inr ⟨front, rest ++ extra, ?_, hlength, ?_⟩
    · rw [hpending, hsplit, List.append_assoc, List.cons_append]
    · rw [List.filterMap_append, List.mem_append, not_or]
      exact ⟨hrest, hextra⟩

lemma Doomed.grows (hdoomed : l.Doomed fd h n) (hgrows : Grows l l') : l'.Doomed fd h n := by
  rcases hgrows.pending with ⟨extra, hpending, hextra⟩
  exact hdoomed.append hgrows.done extra hpending (hextra ▸ List.not_mem_nil)

lemma Doomed.of_pending (hdoomed : l.Doomed fd h n) (hdone : l'.done = l.done)
    (hpending : l'.pending = l.pending) :
    l'.Doomed fd h n :=
  hdoomed.append (hdone ▸ List.Subset.refl _) [] (hpending.trans (List.append_nil _).symm)
    List.not_mem_nil

lemma Doomed.dispatch (hdoomed : l.Doomed fd h n) (hphase : l.pending = l.queue)
    (counter timers : ℕ) :
    (l.dispatch counter timers).Doomed fd h n := by
  have hdone : (l.dispatch counter timers).done = l.done :=
    congrArg (List.map Prod.fst) (dispatch_completed l _ _)
  rcases dispatch_cases l counter timers with ⟨item, queue, hqueue, hdispatch⟩ | hdispatch
  · refine hdoomed.of_pending hdone ?_
    rw [hdispatch, hphase, hqueue]
    rfl
  · refine hdoomed.append (hdone ▸ List.Subset.refl _) (List.replicate timers .other) ?_ ?_
    · rw [hdispatch, hphase]
      rfl
    · intro hmem
      rcases List.mem_filterMap.1 hmem with ⟨item, hitem, hhandler⟩
      rw [List.eq_of_mem_replicate hitem] at hhandler
      cases hhandler

/-- A canceler completes the waits that are stored. -/
lemma mem_done_runCanceler (hstored : (l.map fd).handler event = some h) :
    h ∈ (l.runCanceler fd).done := by
  unfold runCanceler
  rw [release_done, List.mem_append]
  exact Or.inr (IoData.mem_released_iff.2 ⟨event, Events.has_zero event, hstored⟩)

/-- One element less is in front of the canceler, or it is called. -/
lemma Doomed.exec (hl : l.Consistent none) (hdoomed : l.Doomed fd h n)
    (hregistered : l.registered[h]? = some (fd, event)) {item : Item} {counter : ℕ}
    (hphase : l.phase = .executing item counter) (fault : Option Errno) :
    ({ l with phase := .executed counter }.run item fault).Doomed fd h (n - 1) := by
  have hpending : l.pending = item :: l.queue := by
    unfold pending
    rw [hphase]
  rcases hdoomed with hmem | ⟨front, rest, hsplit, hlength, hrest⟩
  · exact Or.inl ((grows_run _ item fault).done hmem)
  · rw [hpending] at hsplit
    rcases front with _ | ⟨item', front⟩
    · rcases List.cons.inj hsplit with ⟨rfl, hqueue⟩
      rcases hl.kept hregistered with hkept | hkept | hkept | hkept
      · rcases mem_waiting_iff.1 hkept with ⟨fd', event', hsetter⟩
        rw [hpending, List.mem_cons] at hsetter
        rcases hsetter with hsetter | hsetter
        · cases hsetter
        · have hmem : h ∈ rest.filterMap Item.handler :=
            List.mem_filterMap.2 ⟨_, hqueue ▸ hsetter, rfl⟩
          exact absurd hmem hrest
      · exact Or.inl (mem_done_runCanceler (l := { l with phase := .executed counter }) hkept)
      · exact Or.inl ((grows_run _ _ fault).done hkept)
      · cases hkept
    · rcases List.cons.inj hsplit with ⟨-, hqueue⟩
      have htaken : ({ l with phase := .executed counter } : EventLoop).Doomed fd h (n - 1) := by
        refine Or.inr ⟨front, rest, hqueue, ?_, hrest⟩
        rw [List.length_cons] at hlength
        omega
      exact htaken.grows (grows_run _ item fault)

/-- Every call of the loop brings the canceler one place nearer. -/
lemma Doomed.step (hl : l.Consistent none) (hdoomed : l.Doomed fd h n)
    (hregistered : l.registered[h]? = some (fd, event)) (s : LoopStep) :
    (l.step s).Doomed fd h (if l.calls s then n - 1 else n) := by
  cases s with
  | setIoEvent fd' event' fault =>
    show (l.setIoEvent fd' event' fault).Doomed fd h n
    unfold EventLoop.setIoEvent
    split_ifs
    · refine hdoomed.append (List.Subset.refl _) _
        (pending_push l (.setter fd' event' l.registered.length)) fun hmem => ?_
      have heq : h = l.registered.length := List.mem_singleton.1 hmem
      have hlt := (List.getElem?_eq_some_iff.1 hregistered).1
      omega
    · have hregister : ({ l with registered := l.registered ++ [(fd', event')] } : EventLoop).Doomed
        fd h n := hdoomed
      exact hregister.grows (grows_runSetter _ _ _ _ _)
  | cancelIoEvents fd' => exact hdoomed.grows (grows_cancelIoEvents l fd')
  | post => exact hdoomed.grows (grows_push l rfl)
  | enter timers =>
    show (EventLoop.step l (.enter timers)).Doomed fd h n
    unfold EventLoop.step
    rcases hphase : l.phase with _ | ⟨item, counter⟩ | counter | _
    · have hpending : l.pending = l.queue := by
        unfold pending
        rw [hphase]
      have hreactor : ({ l with reactor := true } : EventLoop).Doomed fd h n := hdoomed
      exact hreactor.dispatch hpending _ timers
    · exact hdoomed
    · exact hdoomed
    · exact hdoomed
  | exec fault =>
    unfold EventLoop.step calls
    rcases hphase : l.phase with _ | ⟨item, counter⟩ | counter | _
    · exact hdoomed
    · exact hdoomed.exec hl hregistered hphase fault
    · exact hdoomed
    · exact hdoomed
  | resume timers =>
    show (EventLoop.step l (.resume timers)).Doomed fd h n
    unfold EventLoop.step
    rcases hphase : l.phase with _ | ⟨item, counter⟩ | counter | _
    · exact hdoomed
    · exact hdoomed
    · have hpending : l.pending = l.queue := by
        unfold pending
        rw [hphase]
      exact hdoomed.dispatch hpending _ timers
    · exact hdoomed
  | polled reports =>
    show (EventLoop.step l (.polled reports)).Doomed fd h n
    unfold EventLoop.step
    rcases hphase : l.phase with _ | ⟨item, counter⟩ | counter | _
    · exact hdoomed
    · exact hdoomed
    · exact hdoomed
    · have hpending : l.pending = l.queue := by
        unfold pending
        rw [hphase]
      have houtside : ({ l with polling := false, phase := .outside } : EventLoop).Doomed fd h n :=
        hdoomed.of_pending rfl hpending.symm
      exact houtside.grows (grows_reports _ reports)

/-- A cancellation that does not overtake a registration. -/
lemma doomed_cancelIoEvents (hl : l.Consistent none) (hsteady : l.Steady)
    (hordered : l.Ordered (.cancelIoEvents fd)) (hfd : 0 ≤ fd)
    (hregistered : l.registered[h]? = some (fd, event)) :
    (l.cancelIoEvents fd).Doomed fd h (l.pending.length + 1) := by
  have hnone : ¬l.Defers → h ∉ l.waiting := by
    intro hdefers hmem
    rcases mem_waiting_iff.1 hmem with ⟨fd', event', hsetter⟩
    have hsame := (hl.setter hsetter).1
    rw [hregistered] at hsame
    rcases Prod.mk.inj (Option.some.inj hsame) with ⟨rfl, rfl⟩
    rcases hordered with hdefers' | hpending
    · exact hdefers hdefers'
    · exact hpending ⟨event, h, hsetter⟩
  unfold EventLoop.cancelIoEvents
  rw [if_neg (by omega)]
  split_ifs with hneeded hdefers
  · refine Or.inr ⟨l.pending, [], pending_push l (.canceler fd), Nat.lt_succ_self _,
      List.not_mem_nil⟩
  · rcases hl.kept hregistered with hkept | hkept | hkept | hkept
    · exact absurd hkept (hnone hdefers)
    · exact Or.inl (mem_done_runCanceler hkept)
    · exact Or.inl ((grows_release l fd _ _).done hkept)
    · cases hkept
  · -- nothing is queued and nothing is stored
    unfold CancelationIsNeeded at hneeded
    push Not at hneeded
    rcases hneeded with ⟨hqueue, -, hreadable, hwriteable⟩
    rcases hl.kept hregistered with hkept | hkept | hkept | hkept
    · by_cases hdefers : l.Defers
      · unfold waiting at hkept
        rw [hsteady.pending_eq hdefers, hqueue] at hkept
        cases hkept
      · exact absurd hkept (hnone hdefers)
    · cases event with
      | input =>
        rw [show (l.map fd).handler .input = none from hreadable] at hkept
        cases hkept
      | output =>
        rw [show (l.map fd).handler .output = none from hwriteable] at hkept
        cases hkept
    · exact Or.inl hkept
    · cases hkept

/-- A step registers behind those that are there. -/
lemma registered_step (l : EventLoop) (s : LoopStep) : l.registered <+: (l.step s).registered := by
  cases s with
  | setIoEvent fd event fault =>
    show l.registered <+: (l.setIoEvent fd event fault).registered
    unfold EventLoop.setIoEvent
    split_ifs
    · exact List.prefix_append _ _
    · rw [(grows_runSetter _ _ _ _ _).registered]
      exact List.prefix_append _ _
  | cancelIoEvents fd =>
      rw [show (l.step (.cancelIoEvents fd)).registered = _ from
        (grows_cancelIoEvents l fd).registered]
  | post => exact List.prefix_rfl
  | enter timers =>
    unfold EventLoop.step
    rcases hphase : l.phase with _ | ⟨item, counter⟩ | counter | _
    · rw [dispatch_registered]
    · exact List.prefix_rfl
    · exact List.prefix_rfl
    · exact List.prefix_rfl
  | exec fault =>
    unfold EventLoop.step
    rcases hphase : l.phase with _ | ⟨item, counter⟩ | counter | _
    · exact List.prefix_rfl
    · rw [(grows_run _ item fault).registered]
    · exact List.prefix_rfl
    · exact List.prefix_rfl
  | resume timers =>
    unfold EventLoop.step
    rcases hphase : l.phase with _ | ⟨item, counter⟩ | counter | _
    · exact List.prefix_rfl
    · exact List.prefix_rfl
    · rw [dispatch_registered]
    · exact List.prefix_rfl
  | polled reports =>
    unfold EventLoop.step
    rcases hphase : l.phase with _ | ⟨item, counter⟩ | counter | _
    · exact List.prefix_rfl
    · exact List.prefix_rfl
    · exact List.prefix_rfl
    · rw [(grows_reports _ reports).registered]

/-- After as many calls of elements the handler is done. -/
lemma Doomed.mem_done_foldl (hl : l.Consistent none) (hdoomed : l.Doomed fd h n)
    (hregistered : l.registered[h]? = some (fd, event)) {later : List LoopStep}
    (hproper : Machine.Obeys EventLoop.step Proper l later) (hcount : n ≤ l.callCount later) :
    h ∈ (later.foldl EventLoop.step l).done := by
  induction later generalizing l n with
  | nil =>
    have hzero : n = 0 := Nat.le_zero.1 hcount
    rcases hdoomed with hmem | ⟨front, rest, -, hlength, -⟩
    · exact hmem
    · omega
  | cons s later ih =>
    have hnext : (l.step s).registered[h]? = some (fd, event) := by
      rcases registered_step l s with ⟨extra, hextra⟩
      rw [← hextra, List.getElem?_append_left (List.getElem?_eq_some_iff.1 hregistered).1]
      exact hregistered
    refine ih (hl.step hproper.1) (hdoomed.step hl hregistered s) hnext hproper.2 ?_
    rw [callCount] at hcount
    split_ifs at hcount ⊢
    · omega
    · omega

end Cancellations

/-! ## Runs -/

/-- In every run in which no cancellation overtakes a registration of its descriptor every handler
is put to the queue once at most, and is in its place until then; it gets no error only if its
direction was reported; it is put to the queue when its direction or an error is reported or
`select` fails; and after a cancellation of its descriptor it is put there before the loop has
called the elements that were pending and one more. -/
theorem run_completes {steps : List LoopStep} (hproper : Machine.Obeys step Proper init steps)
    (hordered : Machine.Obeys step Ordered init steps) :
    (∀ l ∈ Machine.states step init steps, l.done.Nodup ∧
      ∀ fd event h, l.registered[h]? = some (fd, event) →
      Item.setter fd event h ∈ l.pending ∨ (l.map fd).handler event = some h ∨ h ∈ l.done) ∧
    Machine.Obeys step Reported init steps ∧ Machine.Obeys step Answered init steps ∧
    ∀ before fd later, steps = before ++ .cancelIoEvents fd :: later → 0 ≤ fd → ∀ event h,
      (before.foldl step init).registered[h]? = some (fd, event) →
      (before.foldl step init).pending.length + 1 ≤
        ((before.foldl step init).step (.cancelIoEvents fd)).callCount later →
      h ∈ (later.foldl step ((before.foldl step init).step (.cancelIoEvents fd))).done := by
  have hstep : ∀ (l : EventLoop) s, l.Consistent none → l.Proper s → (l.step s).Consistent none :=
    fun l s hl hs => hl.step hs
  refine ⟨fun l hmem => ?_, ?_, ?_, ?_⟩
  · have hl := Machine.forall_mem_states hstep consistent_init hproper l hmem
    refine ⟨hl.done_nodup, fun fd event h hregistered => ?_⟩
    rcases hl.kept hregistered with hkept | hkept | hkept | hkept
    · rcases mem_waiting_iff.1 hkept with ⟨fd', event', hsetter⟩
      have hsame := (hl.setter hsetter).1
      rw [hregistered] at hsame
      rcases Prod.mk.inj (Option.some.inj hsame) with ⟨rfl, rfl⟩
      exact Or.inl hsetter
    · exact Or.inr (Or.inl hkept)
    · exact Or.inr (Or.inr hkept)
    · cases hkept
  · exact hproper.of_invariant hstep consistent_init fun l s hl _ => hl.reported s
  · exact hproper.imp fun l s _ => answered l s
  · rintro before fd later rfl hfd event h hregistered hcount
    rcases Machine.obeys_append.1 hproper with ⟨hbefore, hcancel, hlater⟩
    rcases Machine.obeys_append.1 hordered with ⟨-, hordered, -⟩
    have hl := Machine.invariant_foldl hstep consistent_init hbefore
    have hsteady : (before.foldl step init).Steady :=
      Machine.invariant_foldl (fun l s hl _ => hl.step s)
        ⟨fun htrue => absurd htrue Bool.noConfusion, fun _ => rfl⟩
        hbefore
    have hdoomed := doomed_cancelIoEvents hl hsteady hordered hfd hregistered
    have hregistered' : ((before.foldl step init).cancelIoEvents fd).registered[h]? =
        some (fd, event) := by
      rw [(grows_cancelIoEvents _ fd).registered]
      exact hregistered
    exact hdoomed.mem_done_foldl (hl.step hcancel) hregistered' hlater hcount

/-- The loop runs, and a wait is registered and cancelled while it polls. -/
def cancelledWait : List LoopStep :=
  [.enter 0, .setIoEvent 5 .input none, .cancelIoEvents 5, .polled [], .enter 0, .exec none,
    .resume 0, .exec none]

lemma proper_cancelledWait : Machine.Obeys step Proper init cancelledWait := by
  refine ⟨trivial, ?_, ?_, trivial, trivial, trivial, trivial, trivial, trivial⟩
  · intro h hregistered
    cases hregistered
  · show (-1 : ℤ) ≤ 5
    decide

lemma ordered_cancelledWait : Machine.Obeys step Ordered init cancelledWait :=
  ⟨trivial, trivial, Or.inl (Or.inl rfl), trivial, trivial, trivial, trivial, trivial, trivial⟩

theorem run_completes_cancelledWait : Machine.Obeys step Proper init cancelledWait ∧
    Machine.Obeys step Ordered init cancelledWait ∧ 0 ∈ (cancelledWait.foldl step init).done :=
  ⟨proper_cancelledWait, ordered_cancelledWait,
    (run_completes proper_cancelledWait ordered_cancelledWait).2.2.2
      [.enter 0, .setIoEvent 5 .input none] 5
      [.polled [], .enter 0, .exec none, .resume 0, .exec none] rfl (by decide) .input 0
        (by decide) (by decide)⟩

/-- A registration waits in the queue behind a posted handler, and this one cancels the descriptor.
-/
def overtakenWait : List LoopStep :=
  [.enter 0, .post, .setIoEvent 5 .input none, .polled [], .enter 0, .cancelIoEvents 5, .exec none,
    .resume 0, .exec none, .resume 0]

lemma proper_overtakenWait : Machine.Obeys step Proper init overtakenWait := by
  refine ⟨trivial, trivial, ?_, trivial, trivial, ?_, trivial, trivial, trivial, trivial, trivial⟩
  · intro h hregistered
    cases hregistered
  · show (-1 : ℤ) ≤ 5
    decide

/-- The loop may go on as long as it likes: the handler is not called. -/
theorem overtakenWait_not_done : Machine.Obeys step Proper init overtakenWait ∧
    (overtakenWait.foldl step init).registered[0]? = some (5, .input) ∧
    (overtakenWait.foldl step init).queue = [] ∧
    ∀ rounds, ((List.replicate rounds [.polled [], .enter 0]).flatten.foldl step
      (overtakenWait.foldl step init)).done = [] := by
  refine ⟨proper_overtakenWait, by decide, by decide, fun rounds => ?_⟩
  have hround : ([.polled [], .enter 0] : List LoopStep).foldl step
    (overtakenWait.foldl step init) =
      overtakenWait.foldl step init := rfl
  induction rounds with
  | zero => decide
  | succ rounds ih =>
    rw [List.replicate_succ, List.flatten_cons, List.foldl_append, hround]
    exact ih

end EventLoop

end Aio

end Cppcms
