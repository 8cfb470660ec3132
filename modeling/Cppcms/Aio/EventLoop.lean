import Cppcms.Aio.Reactor

/-!
# Waits for descriptors in the event loop

`set_io_event`, `cancel_io_events` and `run_one` of `io_service.cpp`.  While the loop polls, or
before it runs for the first time, a registration or a cancellation is put to the dispatch queue;
otherwise it is carried out at once.  `run_one` takes an element off the queue and carries it out
after it released the mutex.

A step is what is done under the mutex without a break.  The calls of a handler that the loop runs
are steps of their own, as those of other threads are.  How the system calls of `select` go is given
with every step, and so is what the poll reports.
-/

namespace Cppcms

namespace Aio

/-- The errors that a handler of a wait gets. -/
inductive WaitError where
  | canceled
  | selectFailed
  | system (e : Errno)
  deriving DecidableEq

/-- The elements of `dispatch_queue_`.  What was posted and the handlers of timers are `other`. -/
inductive Item where
  | setter (fd : ℤ) (event : Direction) (h : ℕ)
  | canceler (fd : ℤ)
  | completion (h : ℕ) (e : Option WaitError)
  | other
  deriving DecidableEq

/-- Where the loop is: not in `run_one`, in front of the call of the element it took, behind it, or
in the poll. -/
inductive Phase where
  | outside
  | executing (item : Item) (counter : ℕ)
  | executed (counter : ℕ)
  | polling

/-- `event_loop_impl`, with the history of the waits. -/
structure EventLoop where
  /-- `reactor_` was made. -/
  reactor : Bool
  polling : Bool
  map : ℤ → IoData
  queue : List Item
  phase : Phase
  /-- The descriptor and the direction of every call of `set_io_event`; its number stands for its
  handler. -/
  registered : List (ℤ × Direction)
  /-- The handlers that were put to the queue, with their errors. -/
  completed : List (ℕ × Option WaitError)

/-- The steps of the callers and of the loop. -/
inductive LoopStep where
  | setIoEvent (fd : ℤ) (event : Direction) (fault : Option Errno)
  | cancelIoEvents (fd : ℤ)
  | post
  /-- `run_one` begins; the argument is the number of timers that expire if it comes to the poll. -/
  | enter (timers : ℕ)
  /-- The element is called. -/
  | exec (fault : Option Errno)
  /-- `run_one` goes on behind the element. -/
  | resume (timers : ℕ)
  /-- The poll returns. -/
  | polled (reports : List (ℤ × Events × Option Errno))

namespace EventLoop

/-- The constructor. -/
def init : EventLoop := ⟨false, false, fun _ => IoData.empty, [], .outside, [], []⟩

/-- `dispatch_queue_.push_back`. -/
def push (l : EventLoop) (item : Item) : EventLoop := { l with queue := l.queue ++ [item] }

/-- A handler is put to the queue. -/
def complete (l : EventLoop) (h : ℕ) (e : Option WaitError) : EventLoop :=
  { l.push (.completion h e) with completed := l.completed ++ [(h, e)] }

def completeAll (l : EventLoop) (hs : List ℕ) (e : Option WaitError) : EventLoop :=
  hs.foldl (fun l h => l.complete h e) l

end EventLoop

/-- The handlers whose directions are not among the events. -/
def IoData.released (d : IoData) (events : Events) : List ℕ :=
  (if events.input then none else d.readable).toList ++
    (if events.output then none else d.writeable).toList

namespace EventLoop

/-- Only `events` are watched any more, and the handlers of the other directions are put to the
queue. -/
def release (l : EventLoop) (fd : ℤ) (events : Events) (e : Option WaitError) : EventLoop :=
  { l.completeAll ((l.map fd).released events) e with
    map := Function.update l.map fd ((l.map fd).keep events) }

/-- `io_event_setter`; the error `EBADF` has the number 9. -/
def runSetter (l : EventLoop) (fd : ℤ) (event : Direction) (h : ℕ) (fault : Option Errno) :
    EventLoop :=
  if fd < 0 then l.complete h (some (.system 9))
  else
    match fault with
    | none => { l with map := Function.update l.map fd ((l.map fd).store event h) }
    | some e => l.complete h (some (.system e))

/-- `io_event_canceler`. -/
def runCanceler (l : EventLoop) (fd : ℤ) : EventLoop := l.release fd Events.zero (some .canceled)

/-- Calls are put to the queue. -/
def Defers (l : EventLoop) : Prop := l.polling = true ∨ l.reactor = false

instance (l : EventLoop) : Decidable l.Defers := inferInstanceAs (Decidable (_ ∨ _))

/-- `set_io_event`. -/
def setIoEvent (l : EventLoop) (fd : ℤ) (event : Direction) (fault : Option Errno) : EventLoop :=
  if l.Defers then { l.push (.setter fd event l.registered.length) with registered :=
    l.registered ++ [(fd, event)] }
  else { l with registered := l.registered ++ [(fd, event)] }.runSetter fd event
    l.registered.length fault

/-- `cancelation_is_needed_with_data_mutex_locked`. -/
def CancelationIsNeeded (l : EventLoop) (fd : ℤ) : Prop :=
  l.queue ≠ [] ∨
    ¬((l.map fd).currentEvent = Events.zero ∧ (l.map fd).readable = none ∧
      (l.map fd).writeable = none)

instance (l : EventLoop) (fd : ℤ) : Decidable (l.CancelationIsNeeded fd) :=
  inferInstanceAs (Decidable (_ ∨ _))

/-- `cancel_io_events`; `invalid_socket` is -1. -/
def cancelIoEvents (l : EventLoop) (fd : ℤ) : EventLoop :=
  if fd = -1 then l
  else if ¬l.CancelationIsNeeded fd then l
  else if l.Defers then l.push (.canceler fd)
  else l.runCanceler fd

/-- `run_one` until it gives the mutex away: it takes the next element, or it polls. -/
def dispatch (l : EventLoop) (counter timers : ℕ) : EventLoop :=
  match l.queue, counter with
  | item :: queue, counter + 1 => { l with queue := queue, phase := .executing item (counter + 1) }
  | _, _ =>
    { l with
      queue := l.queue ++ List.replicate timers .other
      polling := true
      phase := .polling }

/-- The element is called. -/
def run (l : EventLoop) (item : Item) (fault : Option Errno) : EventLoop :=
  match item with
  | .setter fd event h => l.runSetter fd event h fault
  | .canceler fd => l.runCanceler fd
  | .completion _ _ => l
  | .other => l

/-- The error that goes with the report of a descriptor. -/
def reportError (flags : Events) (fault : Option Errno) : Option WaitError :=
  if flags.error then some .selectFailed else fault.map .system

/-- What `run_one` does for a descriptor that the poll reported. -/
def report (l : EventLoop) (x : ℤ × Events × Option Errno) : EventLoop :=
  l.release x.1 (if x.2.2 = none then (l.map x.1).newEvents x.2.1 else Events.zero)
    (reportError x.2.1 x.2.2)

def step (l : EventLoop) : LoopStep → EventLoop
  | .setIoEvent fd event fault => l.setIoEvent fd event fault
  | .cancelIoEvents fd => l.cancelIoEvents fd
  | .post => l.push .other
  | .enter timers =>
    match l.phase with
    | .outside => { l with reactor := true }.dispatch l.queue.length timers
    | _ => l
  | .exec fault =>
    match l.phase with
    | .executing item counter => { l with phase := .executed counter }.run item fault
    | _ => l
  | .resume timers =>
    match l.phase with
    | .executed counter => l.dispatch (counter - 1) timers
    | _ => l
  | .polled reports =>
    match l.phase with
    | .polling => reports.foldl report { l with polling := false, phase := .outside }
    | _ => l

/-- The element that is about to be called and the queue. -/
def pending (l : EventLoop) : List Item :=
  match l.phase with
  | .executing item _ => item :: l.queue
  | _ => l.queue

/-- The handlers that were put to the queue. -/
def done (l : EventLoop) : List ℕ := l.completed.map Prod.fst

/-- A registration waits to be carried out. -/
def SetterPending (l : EventLoop) (fd : ℤ) : Prop := ∃ event h, Item.setter fd event h ∈ l.pending

/-- What the callers keep to: one wait at a time for a descriptor and a direction, and no
cancellation of a number that is neither a descriptor nor `invalid_socket`. -/
def Proper (l : EventLoop) : LoopStep → Prop
  | .setIoEvent fd event _ => ∀ h : ℕ, l.registered[h]? = some (fd, event) → h ∈ l.done
  | .cancelIoEvents fd => -1 ≤ fd
  | _ => True

/-- A cancellation is not carried out at once, or dropped as needless, while a registration of the
descriptor waits to be carried out. -/
def Ordered (l : EventLoop) : LoopStep → Prop
  | .cancelIoEvents fd => l.Defers ∨ ¬l.SetterPending fd
  | _ => True

end EventLoop

end Aio

end Cppcms
