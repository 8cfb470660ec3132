import Cppcms.Aio.Buffer
import Cppcms.Aio.Reactor

/-!
# Transfers of a whole buffer

`read` and `write` of `stream_socket` block until the whole buffer is transferred or an error
occurs.  `async_read` and `async_write` do that without blocking and call a handler at the end:
`async_write` tries once at first, and then an object tries again, at once and whenever the socket
is ready.

A buffer is given by its chunks.  The elements of a chunk are the octets that are sent, or the
places for what is received.  Each state of a transfer stands in front of a call of the system, and
a step is what that call gives.  The socket does not block, so there is nothing to do for
`dont_block`, and no wait fails.
-/

namespace Cppcms

namespace Aio

variable {β : Type*}

/-- What `get` gives for a buffer.  No chunk is empty. -/
@[ext]
structure Chunks (β : Type*) where
  get : List (List β)
  nonempty : ∀ e ∈ get, e ≠ []

namespace Chunks

def empty (b : Chunks β) : Bool := b.get.isEmpty

def bytesCount (b : Chunks β) : ℕ := (b.get.map List.length).sum

/-- The loops of `details::advance`. -/
def advanceLoop : List (List β) → ℕ → List (List β)
  | [], _ => []
  | e :: rest, 0 => e :: advanceLoop rest 0
  | e :: rest, n + 1 =>
    if e.length ≤ n + 1 then advanceLoop rest (n + 1 - e.length)
    else e.drop (n + 1) :: advanceLoop rest 0

lemma nonempty_advanceLoop {l : List (List β)} (hl : ∀ e ∈ l, e ≠ []) (n : ℕ) :
    ∀ e ∈ advanceLoop l n, e ≠ [] := by
  induction l generalizing n with
  | nil => exact hl
  | cons e rest ih =>
    have hrest := ih fun e he => hl e (List.mem_cons_of_mem _ he)
    cases n with
    | zero =>
      rw [advanceLoop]
      exact List.forall_mem_cons.2 ⟨hl e List.mem_cons_self, hrest 0⟩
    | succ n =>
      rw [advanceLoop]
      split_ifs with hle
      · exact hrest _
      · refine List.forall_mem_cons.2 ⟨?_, hrest 0⟩
        rw [ne_eq, List.drop_eq_nil_iff]
        exact hle

/-- `operator+` with a number. -/
def advance (b : Chunks β) (n : ℕ) : Chunks β :=
  ⟨advanceLoop b.get n, nonempty_advanceLoop b.nonempty n⟩

/-- All elements of a buffer. -/
def elements (b : Chunks β) : List β := b.get.flatten

end Chunks

/-- What a call of the system may fail with, as far as that is told apart. -/
inductive SystemError where
  | again
  | inProgress
  | interrupted
  | other (code : ℕ)
  deriving DecidableEq

inductive IoError where
  | system (e : SystemError)
  | eof
  deriving DecidableEq

/-- `would_block`. -/
def IoError.wouldBlock : IoError → Bool
  | .system .again => true
  | .system .inProgress => true
  | _ => false

/-- What a call of the system gives: it moves as much as it likes, or it fails. -/
inductive SystemResult where
  | moved (n : ℕ)
  | failed (e : SystemError)
  deriving DecidableEq

/-- A failure because the socket is not ready. -/
def SystemResult.wouldBlock : SystemResult → Bool
  | .moved _ => false
  | .failed e => (IoError.system e).wouldBlock

namespace Chunks

/-- What `readv` and `writev` offer to the system, which has a limit of its own for one call. -/
def offered (b : Chunks β) : List β := (b.get.take 16).flatten.take 0x7FFFF000

/-- `read_some` and `write_some`: what is moved, and the error.  A call that is interrupted is
repeated. -/
def transferSome (b : Chunks β) : SystemResult → Option (List β × Option IoError)
  | .failed .interrupted => none
  | .failed e => some ([], some (.system e))
  | .moved n =>
    if b.offered.take n = [] then some ([], some .eof)
    else some (b.offered.take n, none)

end Chunks

/-! ## The loop that blocks -/

/-- The loop of `read` and `write`, with all that was moved. -/
structure Blocking (β : Type*) where
  tmp : Chunks β
  count : ℕ
  moved : List β
  result : Option (Option IoError × ℕ)

namespace Blocking

/-- The condition of the loop. -/
def loop (w : Blocking β) : Blocking β :=
  if w.tmp.empty then { w with result := some (none, w.count) } else w

def start (buffer : Chunks β) : Blocking β := loop ⟨buffer, 0, [], none⟩

def step (w : Blocking β) (r : SystemResult) : Blocking β :=
  if w.result.isSome then w
  else
    match w.tmp.transferSome r with
    | none => w
    | some (elements, some e) =>
      { w with
        count := w.count + elements.length
        moved := w.moved ++ elements
        result := some (some e, w.count + elements.length) }
    | some (elements, none) =>
      loop
        { w with
          tmp := w.tmp.advance elements.length
          count := w.count + elements.length
          moved := w.moved ++ elements }

/-- The call with what the system gives one after the other.  There is no result while it blocks. -/
def run (buffer : Chunks β) (rs : List SystemResult) : Blocking β := rs.foldl step (start buffer)

end Blocking

/-! ## The transfer that does not block -/

/-- Where the next call of the system is made. -/
inductive TransferPhase where
  /-- In `async_write`. -/
  | attempt
  /-- In `run` of `reader_all` and `writer_all`. -/
  | run
  /-- In `operator()`, when the socket is ready. -/
  | ready
  /-- Nowhere. -/
  | finished
  deriving DecidableEq

/-- An asynchronous transfer, with all that was moved and the calls of the handler. -/
structure Transfer (β : Type*) where
  phase : TransferPhase
  buf : Chunks β
  count : ℕ
  moved : List β
  calls : List (Option IoError × ℕ)

namespace Transfer

/-- `async_read` is for the input and `async_write` for the output. -/
def start (event : Direction) (buffer : Chunks β) : Transfer β :=
  match event with
  | .input => ⟨.run, buffer, 0, [], []⟩
  | .output => ⟨.attempt, buffer, 0, [], []⟩

/-- `async_write` behind its call of `write_some`. -/
def attempt (t : Transfer β) (elements : List β) (e : Option IoError) : Transfer β :=
  let n := elements.length
  let t := { t with moved := t.moved ++ elements }
  if (e = none ∧ n ≠ t.buf.bytesCount) ∨ e.any IoError.wouldBlock then
    { t with phase := .run, buf := t.buf.advance n, count := n }
  else { t with phase := .finished, calls := t.calls ++ [(e, n)] }

/-- `run` and `operator()` behind their call of `read_some` or `write_some`. -/
def tryAgain (t : Transfer β) (elements : List β) (e : Option IoError) : Transfer β :=
  let n := elements.length
  let t := { t with count := t.count + n, buf := t.buf.advance n, moved := t.moved ++ elements }
  if t.buf.empty ∨ (e ≠ none ∧ ¬ e.any IoError.wouldBlock) then
    { t with phase := .finished, calls := t.calls ++ [(e, t.count)] }
  else { t with phase := .ready }

def step (t : Transfer β) (r : SystemResult) : Transfer β :=
  if t.phase = .finished then t
  else
    match t.buf.transferSome r with
    | none => t
    | some (elements, e) =>
        if t.phase = .attempt then t.attempt elements e else t.tryAgain elements e

def run (event : Direction) (buffer : Chunks β) (rs : List SystemResult) : Transfer β :=
  rs.foldl step (start event buffer)

end Transfer

/-! ## The chunks of a buffer -/

namespace Buffer

/-- The buffer of octets as its chunks. -/
def chunks (b : Buffer) : Chunks UInt8 := ⟨b.get, fun _ he => ne_nil_of_mem_get he⟩

lemma get_advanceLoop {l : List Bytes} (hl : ∀ e ∈ l, e ≠ []) (n : ℕ) (b : Buffer) :
    (advanceLoop l n b).get = b.get ++ Chunks.advanceLoop l n := by
  induction l generalizing n b with
  | nil => exact (List.append_nil b.get).symm
  | cons e l ih =>
    have hrest : ∀ x ∈ l, x ≠ [] := fun x hx => hl x (List.mem_cons_of_mem _ hx)
    cases n with
    | zero =>
      rw [advanceLoop, Chunks.advanceLoop, ih hrest, get_add (hl e List.mem_cons_self),
        List.append_assoc, List.singleton_append]
    | succ n =>
      rw [advanceLoop, Chunks.advanceLoop]
      split_ifs with hle
      · exact ih hrest _ b
      · have hdrop : e.drop (n + 1) ≠ [] := by rwa [ne_eq, List.drop_eq_nil_iff]
        rw [ih hrest, get_add hdrop, List.append_assoc, List.singleton_append]

/-- A buffer and its chunks are advanced in the same way. -/
lemma chunks_advance (b : Buffer) (n : ℕ) : (b.advance n).chunks = b.chunks.advance n :=
  Chunks.ext (get_advanceLoop (fun _ he => ne_nil_of_mem_get he) n nil)

end Buffer

namespace Chunks

lemma bytesCount_eq (b : Chunks β) : b.bytesCount = b.elements.length := List.length_flatten.symm

lemma empty_iff {b : Chunks β} : b.empty = true ↔ b.elements = [] := by
  unfold empty elements
  rw [List.isEmpty_iff, List.flatten_eq_nil_iff]
  constructor
  · intro hget e he
    rw [hget] at he
    cases he
  · intro hall
    apply List.eq_nil_iff_forall_not_mem.2
    intro e he
    exact b.nonempty e he (hall e he)

lemma flatten_advanceLoop (l : List (List β)) (n : ℕ) :
    (advanceLoop l n).flatten = l.flatten.drop n := by
  induction l generalizing n with
  | nil => rw [advanceLoop, List.flatten_nil, List.drop_nil]
  | cons e rest ih =>
    cases n with
    | zero =>
        rw [advanceLoop, List.flatten_cons, ih, List.drop_zero, List.drop_zero, List.flatten_cons]
    | succ n =>
      rw [advanceLoop, List.flatten_cons, List.drop_append]
      split_ifs with hle
      · rw [ih, List.drop_of_length_le hle, List.nil_append]
      · have hzero : n + 1 - e.length = 0 := by omega
        rw [List.flatten_cons, ih, hzero]

@[simp] lemma elements_advance (b : Chunks β) (n : ℕ) :
    (b.advance n).elements = b.elements.drop n :=
  flatten_advanceLoop b.get n

lemma advanceLoop_zero (l : List (List β)) : advanceLoop l 0 = l := by
  induction l with
  | nil => rfl
  | cons e rest ih => rw [advanceLoop, ih]

@[simp] lemma advance_zero (b : Chunks β) : b.advance 0 = b := Chunks.ext (advanceLoop_zero b.get)

lemma offered_prefix (b : Chunks β) : b.offered <+: b.elements :=
  (List.take_prefix _ _).trans (List.take_prefix 16 b.get).flatten

/-- What one call does: it moves some of the first elements, or it has an error. -/
lemma transferSome_spec {b : Chunks β} {r : SystemResult} {elements : List β} {e : Option IoError}
    (h : b.transferSome r = some (elements, e)) :
    (e = none ∧ r.wouldBlock = false ∧ elements ≠ [] ∧ elements <+: b.elements) ∨
      (elements = [] ∧ ∃ e', e = some e' ∧ e'.wouldBlock = r.wouldBlock) := by
  rcases r with n | error
  · rw [transferSome] at h
    split_ifs at h with hempty
    · cases h
      exact .inr ⟨rfl, .eof, rfl, rfl⟩
    · cases h
      exact .inl ⟨rfl, rfl, hempty, (List.take_prefix n _).trans b.offered_prefix⟩
  · cases error with
    | interrupted => cases h
    | again =>
      cases h
      exact .inr ⟨rfl, _, rfl, rfl⟩
    | inProgress =>
      cases h
      exact .inr ⟨rfl, _, rfl, rfl⟩
    | other code =>
      cases h
      exact .inr ⟨rfl, _, rfl, rfl⟩

end Chunks

/-! ## Both ways of a transfer -/

/-- The asynchronous transfer is as far as the one that blocks. -/
structure Follows (buffer : Chunks β) (t : Transfer β) (w : Blocking β) : Prop where
  moved : t.moved = w.moved
  rest : w.moved ++ w.tmp.elements = buffer.elements
  count : w.count = w.moved.length
  running : w.result = none → t.phase ≠ .finished ∧ t.calls = [] ∧ t.buf = w.tmp ∧
    t.count = w.count ∧
    w.tmp.empty = false ∧ (t.phase = .attempt → t.count = 0)
  returned : ∀ r, w.result = some r → t.phase = .finished ∧ t.calls = [r] ∧ r.2 = w.moved.length

section Follows

variable {buffer : Chunks β} {t : Transfer β} {w : Blocking β}

lemma follows_start (event : Direction) (hbuffer : buffer.empty = false) :
    Follows buffer (Transfer.start event buffer) (Blocking.start buffer) := by
  have hnot : ¬ buffer.empty = true := by rw [hbuffer]; decide
  unfold Blocking.start Blocking.loop
  rw [if_neg hnot]
  cases event with
  | input =>
    refine ⟨rfl, rfl, rfl, fun _ =>
      ⟨?_, rfl, rfl, rfl, hbuffer, fun _ => rfl⟩, fun r hr => by cases hr⟩
    exact fun h => TransferPhase.noConfusion h
  | output =>
    refine ⟨rfl, rfl, rfl, fun _ =>
      ⟨?_, rfl, rfl, rfl, hbuffer, fun _ => rfl⟩, fun r hr => by cases hr⟩
    exact fun h => TransferPhase.noConfusion h

/-- Nothing happens behind the end. -/
lemma Follows.step_returned (h : Follows buffer t w) {r : Option IoError × ℕ}
    (hr : w.result = some r) (answer : SystemResult) : t.step answer = t ∧ w.step answer = w := by
  have hfinished := (h.returned r hr).1
  constructor
  · unfold Transfer.step
    rw [if_pos hfinished]
  · unfold Blocking.step
    rw [hr]
    rfl

variable {answer : SystemResult}

/-- A call that moves something. -/
lemma Follows.step_moved (h : Follows buffer t w) (hr : w.result = none) {elements : List β}
    (hanswer : w.tmp.transferSome answer = some (elements, none))
    (hfront : elements <+: w.tmp.elements) :
    Follows buffer (t.step answer) (w.step answer) := by
  rcases h.running hr with ⟨hphase, hcalls, hbuf, hcount, hempty, hattempt⟩
  have hall : w.moved ++ elements ++ (w.tmp.advance elements.length).elements =
      buffer.elements := by
    rw [List.append_assoc, Chunks.elements_advance, List.prefix_iff_eq_append.1 hfront, h.rest]
  have hlength : w.count + elements.length = (w.moved ++ elements).length := by
    rw [List.length_append, h.count]
  have hmoved : t.moved ++ elements = w.moved ++ elements := by rw [h.moved]
  have hend : (w.tmp.advance elements.length).empty = true ↔
      elements.length = w.tmp.bytesCount := by
    have hle := hfront.length_le
    rw [Chunks.empty_iff, Chunks.elements_advance, List.drop_eq_nil_iff, Chunks.bytesCount_eq]
    omega
  have hnone : ¬ w.result.isSome = true := by rw [hr]; decide
  have hwstep : w.step answer = Blocking.loop
      ⟨w.tmp.advance elements.length, w.count + elements.length, w.moved ++ elements, none⟩ := by
    unfold Blocking.step
    rw [if_neg hnone, hanswer, hr]
  have htstep : t.step answer = if t.phase =
      .attempt then t.attempt elements none else t.tryAgain elements none := by
    unfold Transfer.step
    rw [if_neg hphase, hbuf, hanswer]
  rw [hwstep, htstep]
  split_ifs with hphase'
  · have hzero : w.count = 0 := hcount.symm.trans (hattempt hphase')
    unfold Blocking.loop Transfer.attempt
    dsimp only
    rw [hbuf]
    by_cases hlast : (w.tmp.advance elements.length).empty = true
    · have hnot : ¬ ((none = (none : Option IoError) ∧ elements.length ≠ w.tmp.bytesCount) ∨
          (none : Option IoError).any IoError.wouldBlock = true) := by
        rintro (⟨-, hne⟩ | hany)
        · exact hne (hend.1 hlast)
        · cases hany
      rw [if_pos hlast, if_neg hnot]
      refine ⟨hmoved, hall, hlength, (fun hresult => by cases hresult), ?_⟩
      intro r hresult
      cases hresult
      refine ⟨rfl, ?_, hlength⟩
      rw [hcalls, hzero, Nat.zero_add]
      rfl
    · have hne : elements.length ≠ w.tmp.bytesCount := fun heq => hlast (hend.2 heq)
      rw [if_neg hlast, if_pos (.inl ⟨rfl, hne⟩)]
      refine ⟨hmoved, hall, hlength, fun _ =>
        ⟨?_, hcalls, rfl, ?_, ?_, ?_⟩, fun r hresult => by cases hresult⟩
      · exact fun h' => TransferPhase.noConfusion h'
      · rw [hzero, Nat.zero_add]
      · exact Bool.eq_false_of_not_eq_true hlast
      · exact fun h' => TransferPhase.noConfusion h'
  · unfold Blocking.loop Transfer.tryAgain
    dsimp only
    rw [hbuf]
    by_cases hlast : (w.tmp.advance elements.length).empty = true
    · rw [if_pos hlast, if_pos (.inl hlast)]
      refine ⟨hmoved, hall, hlength, (fun hresult => by cases hresult), ?_⟩
      intro r hresult
      cases hresult
      refine ⟨rfl, ?_, hlength⟩
      rw [hcalls, hcount]
      rfl
    · have hnot : ¬ ((w.tmp.advance elements.length).empty = true ∨
          (none : Option IoError) ≠ none ∧
          ¬ (none : Option IoError).any IoError.wouldBlock = true) := by
        rintro (hlast' | ⟨hne, -⟩)
        · exact hlast hlast'
        · exact hne rfl
      rw [if_neg hlast, if_neg hnot]
      refine ⟨hmoved, hall, hlength, fun _ =>
        ⟨?_, hcalls, rfl, ?_, ?_, ?_⟩, fun r hresult => by cases hresult⟩
      · exact fun h' => TransferPhase.noConfusion h'
      · rw [hcount]
      · exact Bool.eq_false_of_not_eq_true hlast
      · exact fun h' => TransferPhase.noConfusion h'

/-- A call that has an error which ends the transfer. -/
lemma Follows.step_failed (h : Follows buffer t w) (hr : w.result = none) {e : IoError}
    (hanswer : w.tmp.transferSome answer = some ([], some e)) (he : e.wouldBlock = false) :
    Follows buffer (t.step answer) (w.step answer) := by
  rcases h.running hr with ⟨hphase, hcalls, hbuf, hcount, hempty, hattempt⟩
  have hnone : ¬ w.result.isSome = true := by rw [hr]; decide
  have hany : ¬ (some e).any IoError.wouldBlock = true := by
    rw [Option.any_some, he]
    decide
  have hwstep : w.step answer = ⟨w.tmp, w.count, w.moved, some (some e, w.count)⟩ := by
    unfold Blocking.step
    rw [if_neg hnone, hanswer]
    dsimp only
    rw [List.append_nil]
    rfl
  have htstep : t.step answer = if t.phase = .attempt then t.attempt [] (some e)
    else t.tryAgain [] (some e) := by
    unfold Transfer.step
    rw [if_neg hphase, hbuf, hanswer]
  rw [hwstep, htstep]
  split_ifs with hphase'
  · have hzero : w.count = 0 := hcount.symm.trans (hattempt hphase')
    have hnot : ¬ ((some e = none ∧ ([] : List β).length ≠ t.buf.bytesCount) ∨
        (some e).any IoError.wouldBlock = true) := by
      rintro (⟨hsome, -⟩ | hblock)
      · cases hsome
      · exact hany hblock
    unfold Transfer.attempt
    dsimp only
    rw [List.append_nil, if_neg hnot]
    refine ⟨h.moved, h.rest, h.count, (fun hresult => by cases hresult), ?_⟩
    intro r hresult
    cases hresult
    refine ⟨rfl, ?_, h.count⟩
    rw [hcalls, hzero]
    rfl
  · unfold Transfer.tryAgain
    dsimp only
    rw [List.append_nil, if_pos (.inr ⟨Option.some_ne_none e, hany⟩)]
    refine ⟨h.moved, h.rest, h.count, (fun hresult => by cases hresult), ?_⟩
    intro r hresult
    cases hresult
    refine ⟨rfl, ?_, h.count⟩
    rw [hcalls, hcount]
    rfl

/-- A call for which the socket is not ready. -/
lemma Follows.skip (h : Follows buffer t w) {answer : SystemResult}
    (hblock : answer.wouldBlock = true) :
    Follows buffer (t.step answer) w := by
  rcases hr : w.result with _ | r
  · rcases h.running hr with ⟨hphase, hcalls, hbuf, hcount, hempty, hattempt⟩
    unfold Transfer.step
    rw [if_neg hphase, hbuf]
    rcases hanswer : w.tmp.transferSome answer with _ | ⟨elements, e⟩
    · exact h
    · rcases Chunks.transferSome_spec hanswer with ⟨-, hfalse, -⟩ | ⟨rfl, e, rfl, he⟩
      · rw [hblock] at hfalse
        cases hfalse
      · have hany : (some e).any IoError.wouldBlock = true := by rw [Option.any_some, he, hblock]
        have hmore : ¬ (w.tmp.empty = true) := by rw [hempty]; decide
        dsimp only
        split_ifs with hphase'
        · unfold Transfer.attempt
          dsimp only
          rw [List.append_nil, List.length_nil, hbuf, Chunks.advance_zero, if_pos (.inr hany)]
          refine ⟨h.moved, h.rest, h.count, fun _ =>
            ⟨?_, hcalls, rfl, ?_, hempty, fun _ => rfl⟩, fun r hresult => ?_⟩
          · exact fun h' => TransferPhase.noConfusion h'
          · rw [← hcount, hattempt hphase']
          · rw [hr] at hresult
            cases hresult
        · have hnot : ¬ (w.tmp.empty = true ∨ some e ≠ none ∧
              ¬ (some e).any IoError.wouldBlock = true) := by
            rintro (hlast | ⟨-, hblock'⟩)
            · exact hmore hlast
            · exact hblock' hany
          unfold Transfer.tryAgain
          dsimp only
          rw [List.append_nil, List.length_nil, hbuf, Chunks.advance_zero, if_neg hnot]
          refine ⟨h.moved, h.rest, h.count, fun _ =>
            ⟨?_, hcalls, rfl, hcount, hempty, ?_⟩, fun r hresult => ?_⟩
          · exact fun h' => TransferPhase.noConfusion h'
          · exact fun h' => TransferPhase.noConfusion h'
          · rw [hr] at hresult
            cases hresult
  · rw [(h.step_returned hr answer).1]
    exact h

/-- Any other call. -/
lemma Follows.step (h : Follows buffer t w) {answer : SystemResult}
    (hblock : answer.wouldBlock = false) :
    Follows buffer (t.step answer) (w.step answer) := by
  rcases hr : w.result with _ | r
  · rcases hanswer : w.tmp.transferSome answer with _ | ⟨elements, e⟩
    · -- the call is repeated
      rcases h.running hr with ⟨hphase, hcalls, hbuf, -⟩
      unfold Transfer.step Blocking.step
      rw [if_neg hphase, hbuf, hanswer, hr]
      exact h
    · rcases Chunks.transferSome_spec hanswer with ⟨rfl, -, -, hfront⟩ | ⟨rfl, e, rfl, he⟩
      · exact h.step_moved hr hanswer hfront
      · exact h.step_failed hr hanswer (he.trans hblock)
  · rw [(h.step_returned hr answer).1, (h.step_returned hr answer).2]
    exact h

end Follows

/-- The answers that are left when those of a socket that is not ready are taken out. -/
def withoutBlocks (rs : List SystemResult) : List SystemResult := rs.filter fun r => !r.wouldBlock

/-- The asynchronous transfer stays at the one that blocks. -/
lemma follows_run (event : Direction) {buffer : Chunks β} (hbuffer : buffer.empty = false)
    (rs : List SystemResult) :
    Follows buffer (Transfer.run event buffer rs) (Blocking.run buffer (withoutBlocks rs)) := by
  refine Machine.simulation_filter (fun t w r hr h => ?_) (fun t w r hr h => ?_)
    (follows_start event hbuffer)
  · exact h.step (Bool.not_eq_eq_eq_not.1 hr)
  · exact h.skip (Bool.not_eq_eq_eq_not.1 hr)

/-- The handler gets what the call that blocks returns, once it returns, and the elements that are
counted are moved. -/
def Agrees (event : Direction) (buffer : Chunks β) (rs : List SystemResult) : Prop :=
  (Transfer.run event buffer rs).calls = (Blocking.run buffer (withoutBlocks rs)).result.toList ∧
    (Transfer.run event buffer rs).moved = (Blocking.run buffer (withoutBlocks rs)).moved ∧
    (Transfer.run event buffer rs).moved <+: buffer.elements ∧
    ∀ c ∈ (Transfer.run event buffer rs).calls, c.2 = (Transfer.run event buffer rs).moved.length

lemma agrees_of_nonempty (event : Direction) {buffer : Chunks β} (hbuffer : buffer.empty = false)
    (rs : List SystemResult) : Agrees event buffer rs := by
  have h := follows_run event hbuffer rs
  refine ⟨?_, h.moved, ?_, ?_⟩
  · rcases hr : (Blocking.run buffer (withoutBlocks rs)).result with _ | r
    · exact (h.running hr).2.1
    · exact (h.returned r hr).2.1
  · rw [h.moved]
    exact ⟨_, h.rest⟩
  · rcases hr : (Blocking.run buffer (withoutBlocks rs)).result with _ | r
    · intro c hc
      rw [(h.running hr).2.1] at hc
      cases hc
    · intro c hc
      rw [(h.returned r hr).2.1, List.mem_singleton] at hc
      rw [hc, (h.returned r hr).2.2, h.moved]

/-! ## An empty buffer -/

/-- With an empty buffer the handler gets no call but one with an error. -/
structure EmptyTransfer (t : Transfer β) : Prop where
  buf : t.buf.elements = []
  calls : ∀ c ∈ t.calls, c.1 ≠ none

lemma EmptyTransfer.step {t : Transfer β} (h : EmptyTransfer t) (r : SystemResult) :
    EmptyTransfer (t.step r) := by
  have hbuf : ∀ n, (t.buf.advance n).elements = [] := by
    intro n
    rw [Chunks.elements_advance, h.buf, List.drop_nil]
  unfold Transfer.step
  by_cases hphase : t.phase = .finished
  · rw [if_pos hphase]
    exact h
  · rw [if_neg hphase]
    rcases hanswer : t.buf.transferSome r with _ | ⟨elements, e⟩
    · exact h
    · have he : e ≠ none := by
        rcases Chunks.transferSome_spec hanswer with ⟨-, -, hne, hfront⟩ | ⟨-, e', rfl, -⟩
        · rw [h.buf] at hfront
          exact absurd (List.prefix_nil.1 hfront) hne
        · exact Option.some_ne_none e'
      have hcalls : ∀ n, ∀ c ∈ t.calls ++ [(e, n)], c.1 ≠ none := by
        intro n c hc
        rcases List.mem_append.1 hc with hc | hc
        · exact h.calls c hc
        · rw [List.mem_singleton.1 hc]
          exact he
      dsimp only
      by_cases hattempt : t.phase = .attempt
      · rw [if_pos hattempt]
        unfold Transfer.attempt
        dsimp only
        split_ifs
        · exact ⟨hbuf _, h.calls⟩
        · exact ⟨h.buf, hcalls _⟩
      · rw [if_neg hattempt]
        unfold Transfer.tryAgain
        dsimp only
        split_ifs
        · exact ⟨hbuf _, hcalls _⟩
        · exact ⟨hbuf _, h.calls⟩

lemma emptyTransfer_run (event : Direction) {buffer : Chunks β} (hbuffer : buffer.empty = true)
    (rs : List SystemResult) : EmptyTransfer (Transfer.run event buffer rs) := by
  have hstart : EmptyTransfer (Transfer.start event buffer) := by
    cases event with
    | input => exact ⟨Chunks.empty_iff.1 hbuffer, fun c hc => by cases hc⟩
    | output => exact ⟨Chunks.empty_iff.1 hbuffer, fun c hc => by cases hc⟩
  have hstep : ∀ (t : Transfer β) (r : SystemResult), EmptyTransfer t → True →
      EmptyTransfer (t.step r) :=
    fun t r h _ => h.step r
  exact Machine.invariant_foldl hstep hstart
    (Machine.obeys_of_forall (fun _ _ => trivial) _ rs)

/-- The loop that blocks returns at once. -/
lemma run_blocking_empty {buffer : Chunks β} (hbuffer : buffer.empty = true)
    (rs : List SystemResult) :
    (Blocking.run buffer rs).result = some (none, 0) := by
  have hstart : (Blocking.start buffer).result = some (none, 0) := by
    unfold Blocking.start Blocking.loop
    rw [if_pos hbuffer]
  have hstep : ∀ (w : Blocking β) (r : SystemResult), w.result = some (none, 0) → True →
      (w.step r).result = some (none, 0) := by
    intro w r h _
    unfold Blocking.step
    rw [h]
    exact h
  exact Machine.invariant_foldl hstep hstart (Machine.obeys_of_forall (fun _ _ => trivial) _ rs)

/-- A transfer that does not block and one that does agree if there is something to transfer. -/
theorem agrees_iff (event : Direction) (buffer : Chunks β) (rs : List SystemResult) :
    Agrees event buffer rs ↔ buffer.empty = false := by
  constructor
  · intro h
    by_contra hempty
    have hbuffer := Bool.eq_true_of_not_eq_false hempty
    have hcalls := h.1
    rw [run_blocking_empty hbuffer] at hcalls
    have hmem : ((none, 0) : Option IoError × ℕ) ∈ (Transfer.run event buffer rs).calls := by
      rw [hcalls]
      exact List.mem_singleton_self _
    exact (emptyTransfer_run event hbuffer rs).calls _ hmem rfl
  · intro hbuffer
    exact agrees_of_nonempty event hbuffer rs

/-- The handler of an `async_write` of nothing gets an error. -/
theorem not_agrees_nil : ¬ Agrees .output Buffer.nil.chunks [.moved 0] := by
  rintro ⟨hcalls, -⟩
  exact absurd hcalls (by decide)

end Aio

end Cppcms
