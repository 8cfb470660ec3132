import Cppcms.Library.Machine

/-!
# The epoll reactor

`epoll_reactor` of `reactor.cpp` and the users of its `select` in `io_service.cpp`.  Which call of
`epoll_ctl` is made, if any, is decided by `events_`, the flags of the last `select` of the
descriptor.  They are stored also if `epoll_ctl` failed and the kernel kept what it watched before.
-/

namespace Cppcms

namespace Aio

/-- A mask of `io_events`. -/
structure Events where
  input : Bool
  output : Bool
  error : Bool
  deriving DecidableEq

/-- `io_events::in` and `io_events::out`, the events one can wait for. -/
inductive Direction where
  | input
  | output
  deriving DecidableEq

namespace Events

/-- The mask `0`. -/
def zero : Events := ⟨false, false, false⟩

/-- `flags | event`. -/
def add (e : Events) : Direction → Events
  | .input => { e with input := true }
  | .output => { e with output := true }

/-- `flags & event`. -/
def has (e : Events) : Direction → Bool
  | .input => e.input
  | .output => e.output

end Events

/-- A value of `errno`. -/
abbrev Errno := ℕ

/-! ## What the kernel watches -/

/-- A mask of `EPOLLIN` and `EPOLLOUT`. -/
structure Interest where
  input : Bool
  output : Bool
  deriving DecidableEq

def Interest.has (i : Interest) : Direction → Bool
  | .input => i.input
  | .output => i.output

/-- The operations of `epoll_ctl`. -/
inductive Ctl where
  | add
  | mod
  | del

/-- `epoll_ctl` on a descriptor, with the registration of it.  It fails with `EEXIST` or `ENOENT` if
the registration is not as the operation needs it, and it may fail for any other reason (`fault`).
-/
def epollCtl (fault : Option Errno) (op : Ctl) (i : Interest) (registration : Option Interest) :
    Option Errno × Option Interest :=
  match fault, op, registration with
  | some e, _, _ => (some e, registration)
  | none, .add, none => (none, some i)
  | none, .add, some _ => (some 17, registration)
  | none, .mod, some _ => (none, some i)
  | none, .mod, none => (some 2, registration)
  | none, .del, some _ => (none, none)
  | none, .del, none => (some 2, registration)

/-! ## The reactor -/

/-- `epoll_reactor`, with the registrations of its epoll descriptor.  The vector `events_` grows by
zeros. -/
structure Reactor where
  events : ℤ → Events
  kernel : ℤ → Option Interest

/-- `to_poll_events`. -/
def toPollEvents (e : Events) : Interest := ⟨e.input, e.output⟩

/-- What the kernel should watch after `select(fd,flags)`. -/
def wanted (flags : Events) : Option Interest :=
  if flags = Events.zero then none else some (toPollEvents flags)

namespace Reactor

/-- `write_flag`. -/
def writeFlag (r : Reactor) (fault : Option Errno) (fd : ℤ) (op : Ctl) (i : Interest) :
    Option Errno × Reactor :=
  ((epollCtl fault op i (r.kernel fd)).1,
    { r with kernel := Function.update r.kernel fd (epollCtl fault op i (r.kernel fd)).2 })

/-- The call of `epoll_ctl` in `select`, if there is one. -/
def control (r : Reactor) (fault : Option Errno) (fd : ℤ) (flags : Events) :
    Option Errno × Reactor :=
  if r.events fd ≠ Events.zero ∧ flags = Events.zero then r.writeFlag fault fd .del ⟨false, false⟩
  else if r.events fd = Events.zero ∧
    flags ≠ Events.zero then r.writeFlag fault fd .add (toPollEvents flags)
  else if r.events fd ≠ flags then r.writeFlag fault fd .mod (toPollEvents flags)
  else (none, r)

/-- `select`. -/
def select (r : Reactor) (fault : Option Errno) (fd : ℤ) (flags : Events) :
    Option Errno × Reactor :=
  if fd < 0 then (some 22, r)
  else
    ((r.control fault fd flags).1,
      { (r.control fault fd flags).2 with events := Function.update r.events fd flags })

section Select

variable {r : Reactor} {fault : Option Errno} {fd : ℤ} {flags : Events}

variable {fd' : ℤ} {i : Interest} {registration : Option Interest}

lemma control_kernel_of_ne (h : fd' ≠ fd) :
    (r.control fault fd flags).2.kernel fd' = r.kernel fd' := by
  unfold control writeFlag
  split_ifs
  · exact Function.update_of_ne h _ _
  · exact Function.update_of_ne h _ _
  · exact Function.update_of_ne h _ _
  · rfl

/-- The other registrations are untouched. -/
lemma select_kernel_of_ne (h : fd' ≠ fd) :
    (r.select fault fd flags).2.kernel fd' = r.kernel fd' := by
  unfold select
  split_ifs
  · rfl
  · exact control_kernel_of_ne h

lemma select_events (h : 0 ≤ fd) :
    (r.select fault fd flags).2.events = Function.update r.events fd flags := by
  unfold select
  rw [if_neg (not_lt.2 h)]

/-- Flags that are those of the last call are not written to the kernel. -/
lemma select_of_events_eq (h : 0 ≤ fd) (heq : r.events fd = flags) :
    (r.select fault fd flags).1 = none ∧ (r.select fault fd flags).2.kernel = r.kernel := by
  have hcontrol : r.control fault fd flags = (none, r) := by
    unfold control
    rw [heq, if_neg (fun h => h.1 h.2), if_neg (fun h => h.2 h.1), if_neg (fun h => h rfl)]
  unfold select
  rw [if_neg (not_lt.2 h), hcontrol]
  exact ⟨rfl, rfl⟩

lemma epollCtl_del (h : (epollCtl fault .del i registration).1 = none) :
    (epollCtl fault .del i registration).2 = none := by
  rcases fault with _ | e
  · rcases registration with _ | i'
    · cases h
    · rfl
  · cases h

lemma epollCtl_add (h : (epollCtl fault .add i registration).1 = none) :
    (epollCtl fault .add i registration).2 = some i := by
  rcases fault with _ | e
  · rcases registration with _ | i'
    · rfl
    · cases h
  · cases h

lemma epollCtl_mod (h : (epollCtl fault .mod i registration).1 = none) :
    (epollCtl fault .mod i registration).2 = some i := by
  rcases fault with _ | e
  · rcases registration with _ | i'
    · cases h
    · rfl
  · cases h

lemma writeFlag_kernel (op : Ctl) (i : Interest) :
    (r.writeFlag fault fd op i).2.kernel fd = (epollCtl fault op i (r.kernel fd)).2 :=
      Function.update_self _ _ _

lemma control_kernel_of_events_ne (hne : r.events fd ≠ flags)
    (hnone : (r.control fault fd flags).1 = none) :
    (r.control fault fd flags).2.kernel fd = wanted flags := by
  unfold wanted
  by_cases hzero : flags = Events.zero
  · have hcontrol : r.control fault fd flags = r.writeFlag fault fd .del ⟨false, false⟩ :=
      if_pos ⟨hzero ▸ hne, hzero⟩
    rw [hcontrol] at hnone ⊢
    rw [if_pos hzero, writeFlag_kernel]
    exact epollCtl_del hnone
  · rw [if_neg hzero]
    by_cases hold : r.events fd = Events.zero
    · have hcontrol : r.control fault fd flags = r.writeFlag fault fd .add
          (toPollEvents flags) := by
        unfold control
        rw [if_neg (fun h => h.1 hold), if_pos ⟨hold, hzero⟩]
      rw [hcontrol] at hnone ⊢
      rw [writeFlag_kernel]
      exact epollCtl_add hnone
    · have hcontrol : r.control fault fd flags = r.writeFlag fault fd .mod
          (toPollEvents flags) := by
        unfold control
        rw [if_neg (fun h => hzero h.2), if_neg (fun h => hold h.1), if_pos hne]
      rw [hcontrol] at hnone ⊢
      rw [writeFlag_kernel]
      exact epollCtl_mod hnone

/-- A `select` without an error has done what it should, unless it found nothing to do and was wrong
about it. -/
lemma select_kernel (h : 0 ≤ fd) (hsame : r.events fd = flags → r.kernel fd = wanted flags)
    (hnone : (r.select fault fd flags).1 = none) :
    (r.select fault fd flags).2.kernel fd = wanted flags := by
  by_cases heq : r.events fd = flags
  · rw [(select_of_events_eq h heq).2]
    exact hsame heq
  · unfold select at hnone ⊢
    rw [if_neg (not_lt.2 h)] at hnone ⊢
    exact control_kernel_of_events_ne heq hnone

end Select

end Reactor

/-! ## The waits of the event loop -/

/-- `io_data`, with the handlers by the numbers of their registration. -/
structure IoData where
  currentEvent : Events
  readable : Option ℕ
  writeable : Option ℕ

namespace IoData

/-- The constructor. -/
def empty : IoData := ⟨Events.zero, none, none⟩

/-- The handler of a direction. -/
def handler (d : IoData) : Direction → Option ℕ
  | .input => d.readable
  | .output => d.writeable

/-- What `io_event_setter` writes when `select` returned without an error. -/
def store (d : IoData) (event : Direction) (h : ℕ) : IoData :=
  match event with
  | .input => { d with currentEvent := d.currentEvent.add .input, readable := some h }
  | .output => { d with currentEvent := d.currentEvent.add .output, writeable := some h }

/-- The flags that `run_one` goes on to watch when `flags` were reported. -/
def newEvents (d : IoData) (flags : Events) : Events :=
  if flags.error then Events.zero
  else ⟨d.currentEvent.input && !flags.input, d.currentEvent.output && !flags.output,
    d.currentEvent.error⟩

/-- What `run_one` leaves: a handler goes to the queue when its direction is not watched any more.
-/
def keep (d : IoData) (events : Events) : IoData :=
  ⟨events, if events.input then d.readable else none, if events.output then d.writeable else none⟩

end IoData

/-- The reactor and `map_` of the event loop. -/
structure Watch where
  reactor : Reactor
  map : ℤ → IoData
  /-- The last `select` of the descriptor returned an error. -/
  failed : ℤ → Bool

/-- The calls of `select`: by itself, from `io_event_setter` and `io_event_canceler`, and from
`run_one` for a descriptor that the poll reported.  `fault` is how the call of `epoll_ctl` goes, if
there is one. -/
inductive WatchCall where
  | select (fd : ℤ) (flags : Events) (fault : Option Errno)
  | setter (fd : ℤ) (event : Direction) (h : ℕ) (fault : Option Errno)
  | canceler (fd : ℤ) (fault : Option Errno)
  | reported (fd : ℤ) (flags : Events) (fault : Option Errno)

namespace WatchCall

def fd : WatchCall → ℤ
  | .select fd _ _ => fd
  | .setter fd _ _ _ => fd
  | .canceler fd _ => fd
  | .reported fd _ _ => fd

def fault : WatchCall → Option Errno
  | .select _ _ fault => fault
  | .setter _ _ _ fault => fault
  | .canceler _ fault => fault
  | .reported _ _ fault => fault

end WatchCall

namespace Watch

def init : Watch := ⟨⟨fun _ => Events.zero, fun _ => none⟩, fun _ => IoData.empty, fun _ => false⟩

/-- The flags that are handed to `select`. -/
def flags (w : Watch) : WatchCall → Events
  | .select _ flags _ => flags
  | .setter fd event _ _ => (w.map fd).currentEvent.add event
  | .canceler _ _ => Events.zero
  | .reported fd flags _ => (w.map fd).newEvents flags

/-- The call of `select`. -/
def selected (w : Watch) (c : WatchCall) : Option Errno × Reactor :=
  w.reactor.select c.fault c.fd (w.flags c)

/-- What becomes of the `io_data` of the descriptor. -/
def data (w : Watch) (c : WatchCall) : IoData :=
  match c with
  | .select fd _ _ => w.map fd
  | .setter fd event h _ => if (w.selected c).1 = none then (w.map fd).store event h else w.map fd
  | .canceler _ _ => IoData.empty
  | .reported fd _ _ => (w.map fd).keep (if (w.selected c).1 = none then w.flags c else Events.zero)

def step (w : Watch) (c : WatchCall) : Watch :=
  ⟨(w.selected c).2, Function.update w.map c.fd (w.data c),
    Function.update w.failed c.fd (w.selected c).1.isSome⟩

/-- The promise of `select`, and what follows for the handlers that are stored. -/
structure Watched (w : Watch) (c : WatchCall) : Prop where
  kernel_eq : (w.selected c).1 = none → (w.step c).reactor.kernel c.fd = wanted (w.flags c)
  others : ∀ fd ≠ c.fd, (w.step c).reactor.kernel fd = w.reactor.kernel fd
  stored : ∀ fd event h fault, c = .setter fd event h fault →
    ((w.step c).map fd).handler event = some h →
    (w.map fd).handler event ≠ some h → ∃ i, (w.step c).reactor.kernel fd = some i ∧
    i.has event = true

/-- The flags are not once more those of a `select` that failed, unless the kernel watches them all
the same. -/
def Renewed (w : Watch) (c : WatchCall) : Prop :=
  w.failed c.fd = true → w.reactor.events c.fd = w.flags c →
    w.reactor.kernel c.fd = wanted (w.flags c)

/-- A descriptor is an open one. -/
def Open (_ : Watch) (c : WatchCall) : Prop := 0 ≤ c.fd

/-- Where the last `select` did not fail the kernel watches what the reactor believes. -/
def Agrees (w : Watch) : Prop :=
  ∀ fd, w.failed fd = false → w.reactor.kernel fd = wanted (w.reactor.events fd)

section Calls

variable {w : Watch} {c : WatchCall}

lemma agrees_init : init.Agrees := fun _ _ => rfl

/-- The direction of a wait is among the flags of its `select`. -/
lemma wanted_add (e : Events) (event : Direction) :
    ∃ i, wanted (e.add event) = some i ∧ i.has event = true := by
  refine ⟨toPollEvents (e.add event), if_neg ?_, ?_⟩
  · cases event with
    | input => exact fun h => absurd (congrArg Events.input h) Bool.noConfusion
    | output => exact fun h => absurd (congrArg Events.output h) Bool.noConfusion
  · cases event with
    | input => rfl
    | output => rfl

lemma watched_of_exact
    (hexact : (w.selected c).1 = none → (w.selected c).2.kernel c.fd = wanted (w.flags c)) :
    w.Watched c := by
  refine ⟨hexact, fun fd hne => Reactor.select_kernel_of_ne hne, ?_⟩
  rintro fd event h fault rfl hstored hold
  have hdata : ((w.data (.setter fd event h fault)).handler event) = some h := by
    have hself : (w.step (.setter fd event h fault)).map fd = w.data (.setter fd event h fault) :=
      Function.update_self _ _ _
    rwa [hself] at hstored
  by_cases hnone : (w.selected (.setter fd event h fault)).1 = none
  · rw [show (w.step (.setter fd event h fault)).reactor.kernel fd = _ from hexact hnone]
    exact wanted_add _ event
  · -- on an error the data stay as they were
    unfold data at hdata
    dsimp only at hdata
    rw [if_neg hnone] at hdata
    exact absurd hdata hold

lemma watched_step (hagrees : w.Agrees) (hopen : w.Open c) (hrenewed : w.Renewed c) :
    w.Watched c := by
  refine watched_of_exact (Reactor.select_kernel hopen fun heq => ?_)
  by_cases hfailed : w.failed c.fd = true
  · exact hrenewed hfailed heq
  · rw [← heq]
    exact hagrees c.fd (Bool.not_eq_true _ ▸ hfailed)

lemma Watched.agrees (h : w.Watched c) (hagrees : w.Agrees) (hopen : w.Open c) :
    (w.step c).Agrees := by
  have hevents : (w.step c).reactor.events = Function.update w.reactor.events c.fd (w.flags c) :=
    Reactor.select_events hopen
  intro fd hfailed
  by_cases hfd : fd = c.fd
  · have hnone : (w.selected c).1 = none := by
      rw [hfd] at hfailed
      have hself : (w.step c).failed c.fd = (w.selected c).1.isSome := Function.update_self _ _ _
      rw [hself] at hfailed
      exact Option.isSome_eq_false_iff.1 hfailed |> Option.isNone_iff_eq_none.1
    rw [hevents, hfd, Function.update_self]
    exact h.kernel_eq hnone
  · have hold : (w.step c).failed fd = w.failed fd := Function.update_of_ne hfd _ _
    rw [hevents, Function.update_of_ne hfd, h.others fd hfd]
    exact hagrees fd (hold ▸ hfailed)

lemma Watched.renewed (h : w.Watched c) (hopen : w.Open c) : w.Renewed c := by
  intro _ heq
  have hselect : (w.reactor.select c.fault c.fd (w.flags c)).1 = none ∧
      (w.reactor.select c.fault c.fd (w.flags c)).2.kernel = w.reactor.kernel :=
        Reactor.select_of_events_eq hopen heq
  have hkernel := h.kernel_eq hselect.1
  have hsame : (w.step c).reactor.kernel = w.reactor.kernel := hselect.2
  rwa [hsame] at hkernel

end Calls

/-- The kernel watches what it should after every `select` of a run that returns without an error
exactly if no `select` repeats the flags of one that failed while the kernel watches others. -/
theorem run_watched_iff {calls : List WatchCall} (hopen : Machine.Obeys step Open init calls) :
    Machine.Obeys step Watched init calls ↔ Machine.Obeys step Renewed init calls := by
  constructor
  · intro h
    exact (hopen.and h).imp fun w c hc => hc.2.renewed hc.1
  · intro h
    have hstep : ∀ (w : Watch) (c : WatchCall), w.Agrees → w.Open c ∧ w.Renewed c →
        (w.step c).Agrees :=
      fun w c hagrees hc => (watched_step hagrees hc.1 hc.2).agrees hagrees hc.1
    exact (hopen.and h).of_invariant hstep agrees_init fun w c hagrees hc =>
      watched_step hagrees hc.1 hc.2

/-- The first wait on a descriptor fails, and it is made again. -/
def waitedAgain : List WatchCall := [.setter 5 .input 0 (some 12), .setter 5 .input 1 none]

lemma open_waitedAgain : Machine.Obeys step Open init waitedAgain := by
  refine ⟨?_, ?_, trivial⟩
  · show (0 : ℤ) ≤ 5
    decide
  · show (0 : ℤ) ≤ 5
    decide

theorem run_watched_iff_waitedAgain : Machine.Obeys step Open init waitedAgain ∧
    (Machine.Obeys step Watched init waitedAgain ↔ Machine.Obeys step Renewed init waitedAgain) :=
  ⟨open_waitedAgain, run_watched_iff open_waitedAgain⟩

/-- The second `select` returns without an error, its handler is stored, and the kernel watches
nothing. -/
theorem not_watched_waitedAgain : Machine.Obeys step Open init waitedAgain ∧
    ((init.step (.setter 5 .input 0 (some 12))).selected (.setter 5 .input 1 none)).1 = none ∧
    ((waitedAgain.foldl step init).map 5).readable = some 1 ∧
    (waitedAgain.foldl step init).reactor.kernel 5 = none ∧
    ¬ Machine.Obeys step Watched init waitedAgain := by
  refine ⟨open_waitedAgain, by decide, by decide, by decide, fun h => ?_⟩
  have hkernel : ((waitedAgain.foldl step init).reactor.kernel 5) = _ := h.2.1.kernel_eq (by decide)
  exact absurd hkernel (by decide)

end Watch

end Aio

end Cppcms
