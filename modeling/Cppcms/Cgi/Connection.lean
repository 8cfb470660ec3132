import Cppcms.Aio.Buffer

/-!
# The output of a connection

`connection` of `cgi_api.cpp` gives the octets that `format_output` returns to the socket.  What the
socket does not take at once is kept in `pending_output_`, or by the handler of an asynchronous
write.  `format_output` depends on the protocol: a call is given by the buffer that it returns, or
by none if it fails.
-/

namespace Cppcms

namespace Cgi

open Aio

/-- The result of a write on the socket: the socket takes some octets, it would block, or there is
an error. -/
inductive Sent where
  | accepted (n : ℕ)
  | wouldBlock
  | error
  deriving DecidableEq, Repr

/-- The errors that the callers are told. -/
inductive WriteError where
  | format
  | wouldBlock
  | socket
  deriving DecidableEq, Repr

/-- `write_some`: the number of octets that the socket takes, and the error.  To take nothing is an
error. -/
def writeSome (output : Buffer) : Sent → ℕ × Option WriteError
  | .accepted n => if n = 0 then (0, some .socket) else (min n output.bytesCount, none)
  | .wouldBlock => (0, some .wouldBlock)
  | .error => (0, some .socket)

/-- The connection.  `handler` is the `output` of the `async_write_handler` that is running.  `sent`
are the octets that the socket has taken, `formatted` those that `format_output` has returned,
`failed` tells that there was an error of the socket, and `completions` are the calls of the
handlers of the callers. -/
structure Connection where
  pendingOutput : Bytes
  handler : Option Buffer
  sent : Bytes
  formatted : Bytes
  failed : Bool
  completions : List (Option WriteError)
  deriving DecidableEq

namespace Connection

def init : Connection := ⟨[], none, [], [], false, []⟩

/-- `append_pending`: the chunks are copied one after the other. -/
def appendPending (newData : Buffer) (c : Connection) : Connection :=
  { c with pendingOutput := newData.get.foldl (· ++ ·) c.pendingOutput }

/-- What is to be sent now. -/
def output (newData : Buffer) (c : Connection) : Buffer :=
  if c.pendingOutput = [] then newData else (Buffer.of c.pendingOutput).append newData

/-- `write_to_socket`: the octets that were taken, and the error.  The socket blocks, so that
everything but taking octets is an error. -/
def writeToSocket : Buffer → List Sent → ℕ × Option WriteError
  | _, [] => (0, some .socket)
  | b, r :: rs =>
    if b.empty then (0, none)
    else
      match writeSome b r with
      | (n, some e) => (n, some e)
      | (n, none) =>
        if (b.advance n).empty then (n, none)
        else ((n + (writeToSocket (b.advance n) rs).1), (writeToSocket (b.advance n) rs).2)

/-- `write` after `format_output`.  `blocks` tells whether the socket could be made to block. -/
def write (newData : Buffer) (blocks : Bool) (rs : List Sent) (c : Connection) :
    Connection × Option WriteError :=
  let c := { c with formatted := c.formatted ++ newData.bytes }
  let out := c.output newData
  if out.empty then (c, none)
  else if !blocks then ({ c with failed := true }, some .socket)
  else
    let (n, e) := writeToSocket out rs
    ({ c with pendingOutput := [], sent := c.sent ++ out.bytes.take n, failed := e.isSome }, e)

/-- `nonblocking_write` after `format_output`: whether all was sent, and the error. -/
def nonblockingWrite (newData : Buffer) (unblocks : Bool) (r : Sent) (c : Connection) :
    Connection × Bool × Option WriteError :=
  let c := { c with formatted := c.formatted ++ newData.bytes }
  let out := c.output newData
  if out.empty then (c, true, none)
  else if !unblocks then ({ c with failed := true }, false, some .socket)
  else
    let (n, e) := writeSome out r
    let c := { c with sent := c.sent ++ out.bytes.take n }
    if n = out.bytesCount then ({ c with pendingOutput := [] }, true, e)
    else
      let c := if n = 0 then c.appendPending newData
        else { c with pendingOutput := [] }.appendPending (out.advance n)
      if e = some .wouldBlock then (c, false, none)
      else ({ c with failed := e.isSome }, false, e)

/-- The handler of the caller is called. -/
def complete (e : Option WriteError) (c : Connection) : Connection :=
  { c with completions := c.completions ++ [e] }

/-- `async_write` after `format_output`. -/
def asyncWrite (newData : Buffer) (unblocks : Bool) (r : Sent) (c : Connection) : Connection :=
  match c.nonblockingWrite newData unblocks r with
  | (c, done, e) =>
    if done ∨ e.isSome then c.complete e
    else { c with pendingOutput := [], handler := some (Buffer.of c.pendingOutput) }

/-- `async_write_handler::operator()`. -/
def onWriteable (out : Buffer) (ein : Bool) (unblocks : Bool) (r : Sent) (c : Connection) :
    Connection :=
  if ein then { c with handler := none, failed := true }.complete (some .socket)
  else
    let (n, e) := writeSome out r
    -- an error of `set_non_blocking_if_needed` stays if the write has none
    let e := if e.isNone ∧ !unblocks then some .socket else e
    let c := { c with sent := c.sent ++ out.bytes.take n }
    let out := out.advance n
    if out.empty then { c with handler := none, failed := e.isSome }.complete e
    else if e.isSome ∧
      e ≠ some .wouldBlock then { c with handler := none, failed := true }.complete e
    else { c with handler := some out }

/-! ## Runs -/

/-- A call of one of the functions, or the call of the running handler by the event loop. -/
inductive Op where
  | write (newData : Option Buffer) (blocks : Bool) (rs : List Sent)
  | nonblockingWrite (newData : Option Buffer) (unblocks : Bool) (r : Sent)
  | asyncWrite (newData : Option Buffer) (unblocks : Bool) (r : Sent)
  | onWriteable (ein : Bool) (unblocks : Bool) (r : Sent)

/-- No function is called while an asynchronous write is running, and the run ends with an error of
the socket. -/
def step (c : Connection) (op : Op) : Connection :=
  if c.failed then c
  else
    match c.handler, op with
    | some out, .onWriteable ein unblocks r => c.onWriteable out ein unblocks r
    | none, .write (some newData) blocks rs => (c.write newData blocks rs).1
    | none, .nonblockingWrite (some newData) unblocks r => (c.nonblockingWrite newData unblocks r).1
    | none, .asyncWrite (some newData) unblocks r => c.asyncWrite newData unblocks r
    | none, .asyncWrite none _ _ => c.complete (some .format)
    | _, _ => c

def run (ops : List Op) : Connection := ops.foldl step init

/-- What has not been sent yet. -/
def remainder (c : Connection) : Bytes :=
  match c.handler with
  | none => c.pendingOutput
  | some out => out.bytes

/-- Everything is sent or kept, in order. -/
structure Keeps (c : Connection) : Prop where
  all : c.failed = false → c.formatted = c.sent ++ c.remainder
  inOrder : c.sent <+: c.formatted
  pending : c.handler ≠ none → c.pendingOutput = []

/-! ## Writes on the socket -/

variable {out : Buffer}

lemma writeSome_cases (hout : out.bytes ≠ []) (r : Sent) :
    (∃ n, writeSome out r = (n, none) ∧ 0 < n ∧ n ≤ out.bytes.length) ∨
    ∃ e, writeSome out r = (0, some e) := by
  have hpos := List.length_pos_iff.2 hout
  cases r with
  | accepted n =>
    rw [writeSome]
    by_cases hn : n = 0
    · rw [if_pos hn]
      exact .inr ⟨_, rfl⟩
    · rw [if_neg hn, Buffer.bytesCount_eq]
      exact .inl ⟨_, rfl, by omega, Nat.min_le_right _ _⟩
  | wouldBlock => exact .inr ⟨_, rfl⟩
  | error => exact .inr ⟨_, rfl⟩

/-- Without an error, the socket has taken everything. -/
lemma writeToSocket_eq (hout : out.bytes ≠ []) (rs : List Sent) :
    (writeToSocket out rs).2 = none → (writeToSocket out rs).1 = out.bytes.length := by
  induction rs generalizing out with
  | nil =>
    intro h
    cases h
  | cons r rs ih =>
    have hempty : ¬ out.empty = true := fun h => hout (Buffer.empty_iff.1 h)
    rw [writeToSocket, if_neg hempty]
    rcases writeSome_cases hout r with ⟨n, hwrite, hpos, hle⟩ | ⟨e, hwrite⟩
    · rw [hwrite]
      dsimp only
      have hadvance : (out.advance n).bytes = out.bytes.drop n := Buffer.bytes_advance out n
      by_cases hdone : (out.advance n).empty = true
      · rw [if_pos hdone]
        intro _
        rw [Buffer.empty_iff, hadvance, List.drop_eq_nil_iff] at hdone
        exact Nat.le_antisymm hle hdone
      · rw [if_neg hdone]
        have hrest : (out.advance n).bytes ≠ [] := fun h => hdone (Buffer.empty_iff.2 h)
        intro hnone
        have hcount := ih hrest hnone
        rw [hadvance, List.length_drop] at hcount
        dsimp only
        omega
    · rw [hwrite]
      intro h
      cases h

section Steps

variable {c : Connection}

lemma bytes_output (newData : Buffer) :
    (c.output newData).bytes = c.pendingOutput ++ newData.bytes := by
  unfold output
  by_cases hpending : c.pendingOutput = []
  · rw [if_pos hpending, hpending, List.nil_append]
  · rw [if_neg hpending, Buffer.bytes_append, Buffer.bytes_of]

lemma foldl_append (l : List Bytes) (a : Bytes) : l.foldl (· ++ ·) a = a ++ l.flatten := by
  induction l generalizing a with
  | nil => exact (List.append_nil a).symm
  | cons e l ih => rw [List.foldl_cons, ih, List.append_assoc, List.flatten_cons]

lemma appendPending_eq (newData : Buffer) (c : Connection) :
    c.appendPending newData = { c with pendingOutput := c.pendingOutput ++ newData.bytes } := by
  unfold appendPending
  rw [foldl_append]
  rfl

/-- What a write does to a connection without errors: the socket has taken a part of what was to be
sent, and without an error the rest is kept. -/
structure Wrote (newData : Buffer) (c c' : Connection) (e : Option WriteError) : Prop where
  handler : c'.handler = c.handler
  completions : c'.completions = c.completions
  formatted : c'.formatted = c.formatted ++ newData.bytes
  failed : c'.failed = e.isSome
  sent : ∃ n, c'.sent = c.sent ++ (c.output newData).bytes.take n ∧
    (e = none → c'.pendingOutput = (c.output newData).bytes.drop n)

variable {newData : Buffer} {c' : Connection} {e : Option WriteError}

lemma pendingOutput_of_empty (hempty : (c.output newData).empty = true) :
    c.pendingOutput = [] ∧ (c.output newData).bytes = [] := by
  rw [Buffer.empty_iff] at hempty
  have happend := hempty
  rw [bytes_output] at happend
  exact ⟨(List.append_eq_nil_iff.1 happend).1, hempty⟩

/-- There is nothing to be sent. -/
lemma wrote_of_empty (hok : c.failed = false) (hempty : (c.output newData).empty = true) :
    Wrote newData c { c with formatted := c.formatted ++ newData.bytes } none := by
  have hnil := pendingOutput_of_empty hempty
  refine ⟨rfl, rfl, rfl, hok, 0, ?_, fun _ => ?_⟩
  · rw [List.take_zero, List.append_nil]
  · rw [hnil.2]
    exact hnil.1

/-- The mode of the socket could not be set. -/
lemma wrote_of_mode (newData : Buffer) :
    Wrote newData c { c with formatted := c.formatted ++ newData.bytes, failed := true }
      (some .socket) := by
  refine ⟨rfl, rfl, rfl, rfl, 0, ?_, fun h => ?_⟩
  · rw [List.take_zero, List.append_nil]
  · cases h

lemma write_wrote (hok : c.failed = false) (newData : Buffer) (blocks : Bool) (rs : List Sent) :
    Wrote newData c (c.write newData blocks rs).1 (c.write newData blocks rs).2 := by
  have houtput :
    ({ c with formatted := c.formatted ++ newData.bytes } : Connection).output newData =
      c.output newData := rfl
  unfold Connection.write
  dsimp only
  rw [houtput]
  by_cases hempty : (c.output newData).empty = true
  · rw [if_pos hempty]
    exact wrote_of_empty hok hempty
  rw [if_neg hempty]
  by_cases hblocks : (!blocks) = true
  · rw [if_pos hblocks]
    exact wrote_of_mode newData
  rw [if_neg hblocks]
  have hne : (c.output newData).bytes ≠ [] := fun h => hempty (Buffer.empty_iff.2 h)
  refine ⟨rfl, rfl, rfl, rfl, _, rfl, fun hnone => ?_⟩
  rw [writeToSocket_eq hne rs hnone, List.drop_length]

/-- If all was sent, there was no error and nothing is kept. -/
lemma nonblockingWrite_wrote (hok : c.failed = false) (newData : Buffer) (unblocks : Bool)
    (r : Sent) :
    Wrote newData c (c.nonblockingWrite newData unblocks r).1
      (c.nonblockingWrite newData unblocks r).2.2 ∧
      ((c.nonblockingWrite newData unblocks r).2.1 = true →
        (c.nonblockingWrite newData unblocks r).1.pendingOutput = []) := by
  have houtput :
    ({ c with formatted := c.formatted ++ newData.bytes } : Connection).output newData =
      c.output newData := rfl
  unfold Connection.nonblockingWrite
  dsimp only
  rw [houtput]
  by_cases hempty : (c.output newData).empty = true
  · rw [if_pos hempty]
    exact ⟨wrote_of_empty hok hempty, fun _ => (pendingOutput_of_empty hempty).1⟩
  rw [if_neg hempty]
  by_cases hunblocks : (!unblocks) = true
  · rw [if_pos hunblocks]
    exact ⟨wrote_of_mode newData, fun h => by cases h⟩
  rw [if_neg hunblocks]
  have hne : (c.output newData).bytes ≠ [] := fun h => hempty (Buffer.empty_iff.2 h)
  have hpos := List.length_pos_iff.2 hne
  rw [Buffer.bytesCount_eq]
  rcases writeSome_cases hne r with ⟨n, hwrite, hn, hle⟩ | ⟨e, hwrite⟩
  · rw [hwrite]
    dsimp only
    by_cases hall : n = (c.output newData).bytes.length
    · rw [if_pos hall]
      refine ⟨⟨rfl, rfl, rfl, hok, n, rfl, fun _ => ?_⟩, fun _ => rfl⟩
      rw [hall, List.drop_length]
    · rw [if_neg hall, if_neg hn.ne', appendPending_eq]
      refine ⟨⟨rfl, rfl, rfl, rfl, n, rfl, fun _ => ?_⟩, fun h => by cases h⟩
      exact Buffer.bytes_advance _ _
  · rw [hwrite]
    dsimp only
    rw [if_neg hpos.ne, if_pos rfl, appendPending_eq, List.take_zero, List.append_nil]
    by_cases hwould : some e = some WriteError.wouldBlock
    · rw [if_pos hwould]
      refine ⟨⟨rfl, rfl, rfl, hok, 0, ?_, fun _ => ?_⟩, fun h => by cases h⟩
      · rw [List.take_zero, List.append_nil]
      · rw [List.drop_zero, bytes_output]
    · rw [if_neg hwould]
      refine ⟨⟨rfl, rfl, rfl, rfl, 0, ?_, fun h => by cases h⟩, fun h => by cases h⟩
      rw [List.take_zero, List.append_nil]

/-! ## Invariant -/

/-- No asynchronous write is running. -/
lemma Keeps.idle (hnone : c.handler = none)
    (hall : c.failed = false → c.formatted = c.sent ++ c.pendingOutput)
    (horder : c.sent <+: c.formatted) : Keeps c := by
  refine ⟨?_, horder, fun h => absurd hnone h⟩
  unfold remainder
  rw [hnone]
  exact hall

/-- An asynchronous write is running. -/
lemma Keeps.running (hsome : c.handler = some out) (hpending : c.pendingOutput = [])
    (hall : c.formatted = c.sent ++ out.bytes) : Keeps c := by
  refine ⟨fun _ => ?_, ?_, fun _ => hpending⟩
  · unfold remainder
    rw [hsome]
    exact hall
  · rw [hall]
    exact List.prefix_append _ _

/-- The octets that a call adds stand behind the others. -/
lemma Keeps.formatted (hc : Keeps c) (hok : c.failed = false) (hnone : c.handler = none)
    (newData : Buffer) :
    c.formatted ++ newData.bytes = c.sent ++ (c.output newData).bytes := by
  have hall := hc.all hok
  unfold remainder at hall
  rw [hnone] at hall
  rw [hall, bytes_output, List.append_assoc]

lemma Keeps.wrote (hc : Keeps c) (hok : c.failed = false) (hnone : c.handler = none)
    (h : Wrote newData c c' e) : Keeps c' := by
  have hformatted := h.formatted.trans (hc.formatted hok hnone newData)
  rcases h.sent with ⟨n, hsent, hrest⟩
  apply Keeps.idle (h.handler.trans hnone)
  · intro hok'
    have he : e = none :=
      Option.isNone_iff_eq_none.1 (Option.isSome_eq_false_iff.1 (h.failed.symm.trans hok'))
    rw [hformatted, hsent, hrest he, List.append_assoc, List.take_append_drop]
  · rw [hformatted, hsent]
    exact (List.prefix_append_right_inj c.sent).2 (List.take_prefix n _)

/-- The call of a handler changes nothing of what is sent. -/
lemma Keeps.complete (hc : Keeps c) (e : Option WriteError) : Keeps (c.complete e) :=
  ⟨hc.all, hc.inOrder, hc.pending⟩

lemma completions_ne (l : List (Option WriteError)) : l ≠ l ++ [none] := by
  intro h
  have hlength := congrArg List.length h
  rw [List.length_append, List.length_singleton] at hlength
  omega

/-- A step keeps the invariant, and if a handler is told of no error, everything has been sent. -/
structure Delivers (c c' : Connection) : Prop where
  keeps : Keeps c'
  completes : c'.completions = c.completions ++ [none] → c'.sent = c'.formatted

lemma delivers_of_silent (hkeeps : Keeps c') (hsilent : c'.completions = c.completions) :
    Delivers c c' := by
  refine ⟨hkeeps, fun h => ?_⟩
  rw [hsilent] at h
  exact absurd h (completions_ne _)

/-- The handler of the caller is called when nothing is left. -/
lemma delivers_complete (hkeeps : Keeps c') (hsame : c'.completions = c.completions)
    (hall : e = none → c'.sent = c'.formatted) :
    Delivers c (c'.complete e) := by
  refine ⟨hkeeps.complete e, fun h => ?_⟩
  unfold Connection.complete at h
  dsimp only at h
  rw [hsame] at h
  apply hall
  exact List.singleton_inj.1 (List.append_cancel_left h)

lemma asyncWrite_delivers (hc : Keeps c) (hok : c.failed = false) (hnone : c.handler = none)
    (newData : Buffer) (unblocks : Bool) (r : Sent) :
    Delivers c (c.asyncWrite newData unblocks r) := by
  have hwrote := nonblockingWrite_wrote hok newData unblocks r
  unfold asyncWrite
  generalize c.nonblockingWrite newData unblocks r = w at hwrote ⊢
  rcases w with ⟨c', done, e⟩
  dsimp only at hwrote ⊢
  have hkeeps := hc.wrote hok hnone hwrote.1
  have hidle : c'.handler = none := hwrote.1.handler.trans hnone
  have hfailed := hwrote.1.failed
  have hrest : c'.failed = false → c'.formatted = c'.sent ++ c'.pendingOutput := by
    intro hok'
    have hall := hkeeps.all hok'
    unfold remainder at hall
    rw [hidle] at hall
    exact hall
  by_cases hdone : done = true ∨ e.isSome = true
  · rw [if_pos hdone]
    refine delivers_complete hkeeps hwrote.1.completions fun he => ?_
    subst he
    rcases hdone with hdone | he
    · rw [hrest hfailed, hwrote.2 hdone, List.append_nil]
    · cases he
  · rw [if_neg hdone]
    have hok' : c'.failed = false := by
      rw [hfailed]
      exact Bool.eq_false_iff.2 fun h => hdone (.inr h)
    refine delivers_of_silent ?_ hwrote.1.completions
    apply Keeps.running rfl rfl
    dsimp only
    rw [Buffer.bytes_of]
    exact hrest hok'

lemma onWriteable_delivers (hc : Keeps c) (hok : c.failed = false) (hsome : c.handler = some out)
    (ein unblocks : Bool) (r : Sent) : Delivers c (c.onWriteable out ein unblocks r) := by
  have hall := hc.all hok
  unfold remainder at hall
  rw [hsome] at hall
  dsimp only at hall
  unfold onWriteable
  by_cases hein : ein = true
  · rw [if_pos hein]
    refine delivers_complete (Keeps.idle rfl (fun h => ?_) hc.inOrder) rfl fun h => ?_
    · cases h
    · cases h
  rw [if_neg hein]
  dsimp only
  generalize hn : (writeSome out r).1 = n
  generalize (if (writeSome out r).2.isNone = true ∧ (!unblocks) = true then some WriteError.socket
    else (writeSome out r).2) = e
  have hadvance : (out.advance n).bytes = out.bytes.drop n := Buffer.bytes_advance out n
  have hsplit : c.formatted = c.sent ++ out.bytes.take n ++ (out.advance n).bytes := by
    rw [hall, hadvance, List.append_assoc, List.take_append_drop]
  have hpending : c.pendingOutput = [] := hc.pending (by rw [hsome]; exact Option.some_ne_none _)
  by_cases hempty : (out.advance n).empty = true
  · rw [if_pos hempty]
    rw [Buffer.empty_iff] at hempty
    rw [hempty, List.append_nil] at hsplit
    refine delivers_complete (Keeps.idle rfl (fun _ => ?_) ?_) rfl fun _ => hsplit.symm
    · dsimp only
      rw [hpending, List.append_nil]
      exact hsplit
    · dsimp only
      rw [hsplit]
  rw [if_neg hempty]
  by_cases herror : e.isSome = true ∧ e ≠ some .wouldBlock
  · rw [if_pos herror]
    refine delivers_complete (Keeps.idle rfl (fun h => ?_) ?_) rfl fun h => ?_
    · cases h
    · dsimp only
      rw [hsplit]
      exact List.prefix_append _ _
    · rw [h] at herror
      cases herror.1
  · rw [if_neg herror]
    exact delivers_of_silent (Keeps.running rfl hpending hsplit) rfl

lemma step_delivers (hc : Keeps c) (op : Op) : Delivers c (c.step op) := by
  unfold step
  by_cases hfailed : c.failed = true
  · rw [if_pos hfailed]
    exact delivers_of_silent hc rfl
  rw [if_neg hfailed]
  have hok : c.failed = false := Bool.eq_false_iff.2 hfailed
  split
  · next out ein unblocks r hsome => exact onWriteable_delivers hc hok hsome ein unblocks r
  · next newData blocks rs hnone =>
    have hwrote := write_wrote hok newData blocks rs
    exact delivers_of_silent (hc.wrote hok hnone hwrote) hwrote.completions
  · next newData unblocks r hnone =>
    have hwrote := (nonblockingWrite_wrote hok newData unblocks r).1
    exact delivers_of_silent (hc.wrote hok hnone hwrote) hwrote.completions
  · next newData unblocks r hnone => exact asyncWrite_delivers hc hok hnone newData unblocks r
  · refine delivers_complete hc rfl fun h => ?_
    cases h
  · exact delivers_of_silent hc rfl

end Steps

lemma keeps_run (ops : List Op) : Keeps (run ops) := by
  unfold run
  induction ops using List.reverseRecOn with
  | nil => exact Keeps.idle rfl (fun _ => rfl) (List.prefix_refl _)
  | append_singleton ops op ih =>
    rw [List.foldl_append]
    exact (step_delivers ih op).keeps

/-- In every run the socket takes the octets in order, each of them once.  Without an error of the
socket the rest is in `pending_output_`, or in the running handler, and a handler that is told of no
error is called when everything has been sent. -/
theorem run_in_order (ops : List Op) :
    (run ops).sent <+: (run ops).formatted ∧
      ((run ops).failed = false → (run ops).formatted = (run ops).sent ++ (run ops).remainder ∧
        ((run ops).handler ≠ none → (run ops).pendingOutput = [])) ∧
      ∀ op, ((run ops).step op).completions = (run ops).completions ++ [none] →
        ((run ops).step op).sent = ((run ops).step op).formatted := by
  have hkeeps := keeps_run ops
  refine ⟨hkeeps.inOrder, fun hok => ⟨hkeeps.all hok, hkeeps.pending⟩, fun op => ?_⟩
  exact (step_delivers hkeeps op).completes

-- two octets are sent behind a call that would block, one after the other
example : (run [.nonblockingWrite (some (Buffer.of [1])) true .wouldBlock,
    .asyncWrite (some (Buffer.of [2])) true (.accepted 1), .onWriteable false true (.accepted 5)]) =
    ⟨[], none, [1, 2], [1, 2], false, [none]⟩ := by decide +kernel

end Connection

end Cgi

end Cppcms
