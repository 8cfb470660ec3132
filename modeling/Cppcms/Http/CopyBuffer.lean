import Cppcms.Base.Bytes
import Cppcms.Library.Machine

/-!
# The copy of a page

`copy_buf` of `src/http_response.cpp` forwards what is written to it and keeps a copy for the cache.
The copy is the part of the buffer in front of `pptr()`, and `getstr` computes its length from the
room that is left.  Behind a `getstr` the pointers are null: there is no room left, and the length
is the size of the whole buffer.

The output takes as much of what it is offered as it likes, which is given with every step that may
forward something.
-/

namespace Cppcms

namespace Http

/-- `pbase()`, `pptr()` and `epptr()`, as positions in the buffer. -/
structure PutArea where
  pbase : ℕ
  pptr : ℕ
  epptr : ℕ
  deriving DecidableEq

/-- `copy_buf`.  The pointers are `none` while they are null. -/
structure CopyBuf where
  /-- `borrowed_buffer_`, the vector that is shared with the callers. -/
  borrowed : Option Bytes
  /-- A caller holds the shared vector. -/
  held : Bool
  buffer : Bytes
  area : Option PutArea
  /-- `out_` is not null. -/
  attached : Bool
  deriving DecidableEq

namespace CopyBuf

/-- The constructor. -/
def init (attached : Bool) : CopyBuf := ⟨none, false, [], none, attached⟩

/-- The call of `sputn` in `overflow`: whether it succeeds, and what the output takes.  The length
is an `int`. -/
def forward (b : CopyBuf) (answer : ℕ) : Bool × Bytes :=
  match b.area with
  | none => (true, [])
  | some a =>
    if b.attached ∧ a.pbase ≠ a.pptr then
      let n := ((a.pptr - a.pbase : ℕ) : ℤ).bmod (2 ^ 32)
      let taken := ((b.buffer.drop a.pbase).take n.toNat).take answer
      (decide ((taken.length : ℤ) = n), taken)
    else (true, [])

/-- The buffer that is used when the pointers are null. -/
def prepare (b : CopyBuf) : CopyBuf :=
  if b.buffer ≠ [] then b
  else
    match b.borrowed with
    | none => { b with buffer := List.replicate 128 0 }
    | some v =>
      if !b.held ∧ v ≠ [] then { b with buffer := v, borrowed := some [] }
      else { b with buffer := List.replicate 128 0 }

/-- The second part of `overflow`, which sets the pointers. -/
def makeRoom (b : CopyBuf) : CopyBuf :=
  match b.area with
  | none => { b.prepare with area := some ⟨0, 0, b.prepare.buffer.length⟩ }
  | some a =>
    if a.pptr = a.epptr then
      { b with
        buffer := b.buffer ++ List.replicate b.buffer.length 0
        area := some ⟨b.buffer.length, b.buffer.length, b.buffer.length + b.buffer.length⟩ }
    else { b with area := some ⟨a.pptr, a.pptr, a.epptr⟩ }

/-- `sputc` where there is room. -/
def put (b : CopyBuf) (c : UInt8) : CopyBuf :=
  match b.area with
  | none => b
  | some a =>
    if a.pptr < a.epptr then
      { b with buffer := b.buffer.set a.pptr c, area := some { a with pptr := a.pptr + 1 } }
    else b

/-- `overflow`: whether it succeeds, what the output takes, and the new state. -/
def overflow (b : CopyBuf) (c : Option UInt8) (answer : ℕ) : Bool × Bytes × CopyBuf :=
  ((b.forward answer).1, (b.forward answer).2,
    if (b.forward answer).1 then c.elim b.makeRoom b.makeRoom.put else b.makeRoom)

/-- There is room for another character. -/
def hasRoom (b : CopyBuf) : Bool := b.area.elim false fun a => decide (a.pptr < a.epptr)

/-- `sputc`. -/
def sputc (b : CopyBuf) (c : UInt8) (answer : ℕ) : Bool × Bytes × CopyBuf :=
  if b.hasRoom then (true, [], b.put c) else b.overflow (some c) answer

/-- `getstr` with a string. -/
def getString (b : CopyBuf) : Bytes × CopyBuf :=
  let n := b.buffer.length - (b.area.elim 0 fun a => a.epptr - a.pptr)
  (b.buffer.take n, { b with area := none })

/-- `getstr` with a shared vector: the part of it that is the result. -/
def getShared (b : CopyBuf) : Bytes × CopyBuf :=
  let n := b.buffer.length - (b.area.elim 0 fun a => a.epptr - a.pptr)
  (b.buffer.take n,
    { b with area := none, buffer := b.borrowed.getD [], borrowed := some b.buffer, held := true })

end CopyBuf

/-- A buffer with its history. -/
structure CopyLog where
  buf : CopyBuf
  /-- What was written so far. -/
  written : Bytes
  /-- What the output took. -/
  forwarded : Bytes
  /-- What was written since the last `getstr`. -/
  since : Bytes
  deriving DecidableEq

/-- The calls.  The answers say how much the output takes, for a write by the place of the character
that is written. -/
inductive CopyStep where
  | write (data : Bytes) (answer : ℕ → ℕ)
  | flush (answer : ℕ)
  | close (answer : ℕ)
  | openOutput
  | getString
  | getShared
  /-- The holder of the shared vector changes it. -/
  | change (v : Bytes)
  /-- The last holder of the shared vector gives it up. -/
  | release

namespace CopyLog

def init (attached : Bool) : CopyLog := ⟨CopyBuf.init attached, [], [], []⟩

/-- `sputn`, which is `sputc` for every character until one fails. -/
def write (l : CopyLog) : Bytes → (ℕ → ℕ) → CopyLog
  | [], _ => l
  | c :: data, answer =>
    match l.buf.sputc c (answer 0) with
    | (true, taken, b) => write ⟨b, l.written ++ [c], l.forwarded ++ taken, l.since ++ [c]⟩ data
        fun i => answer (i + 1)
    | (false, taken, b) => ⟨b, l.written, l.forwarded ++ taken, l.since⟩

/-- `sync`, where the output flushes itself, too. -/
def flush (l : CopyLog) (answer : ℕ) : CopyLog :=
  match l.buf.overflow none answer with
  | (_, taken, b) => ⟨b, l.written, l.forwarded ++ taken, l.since⟩

def close (l : CopyLog) (answer : ℕ) : CopyLog :=
  { l.flush answer with buf := { (l.flush answer).buf with attached := false } }

def step (l : CopyLog) : CopyStep → CopyLog
  | .write data answer => l.write data answer
  | .flush answer => l.flush answer
  | .close answer => l.close answer
  | .openOutput => { l with buf := { l.buf with attached := true } }
  | .getString => { l with buf := l.buf.getString.2, since := [] }
  | .getShared => { l with buf := l.buf.getShared.2, since := [] }
  | .change v => if l.buf.held then { l with buf := { l.buf with borrowed := some v } } else l
  | .release => { l with buf := { l.buf with held := false } }

/-- What a `getstr` returns is what was written since the one before. -/
def Exact (l : CopyLog) : CopyStep → Prop
  | .getString => l.buf.getString.1 = l.since
  | .getShared => l.buf.getShared.1 = l.since
  | _ => True

/-- At a `getstr` the pointers are set, or there is no buffer. -/
def Fresh (l : CopyLog) : CopyStep → Prop
  | .getString => l.buf.area ≠ none ∨ l.buf.buffer = []
  | .getShared => l.buf.area ≠ none ∨ l.buf.buffer = []
  | _ => True

end CopyLog

/-! ## The copy and what is not forwarded yet -/

namespace CopyBuf

/-- The copy. -/
def copy (b : CopyBuf) : Bytes := b.area.elim [] fun a => b.buffer.take a.pptr

/-- What is still to be forwarded. -/
def pending (b : CopyBuf) : Bytes := b.area.elim [] fun a => (b.buffer.take a.pptr).drop a.pbase

/-- The pointers stand in the buffer, the last one at its end. -/
def Sound (b : CopyBuf) : Prop :=
  ∀ a ∈ b.area, a.pbase ≤ a.pptr ∧ a.pptr ≤ a.epptr ∧ a.epptr = b.buffer.length ∧
    0 < b.buffer.length

variable {b : CopyBuf}

/-- What the output takes is the begin of what is pending. -/
lemma forward_prefix (b : CopyBuf) (answer : ℕ) : (b.forward answer).2 <+: b.pending := by
  unfold forward pending
  rcases b.area with _ | a
  · exact List.nil_prefix
  · dsimp only
    split_ifs
    · have hle : (((a.pptr - a.pbase : ℕ) : ℤ).bmod (2 ^ 32)).toNat ≤ a.pptr - a.pbase := by
        rw [Int.bmod_def]
        split_ifs
        · omega
        · omega
      refine (List.take_prefix _ _).trans ?_
      rw [Option.elim_some, List.drop_take]
      exact List.take_prefix_take_left hle
    · exact List.nil_prefix

lemma prepare_ne_nil (b : CopyBuf) : 0 < b.prepare.buffer.length := by
  have hnew : 0 < (List.replicate 128 (0 : UInt8)).length := by
    rw [List.length_replicate]
    norm_num
  unfold prepare
  split_ifs with hbuffer
  · exact List.length_pos_iff.2 hbuffer
  · rcases b.borrowed with _ | v
    · exact hnew
    · dsimp only
      split_ifs with hv
      · exact List.length_pos_iff.2 hv.2
      · exact hnew

/-- What `overflow` leaves: the copy is the same, there is room for another character, and nothing
is pending. -/
lemma makeRoom_spec (h : b.Sound) :
    b.makeRoom.Sound ∧ b.makeRoom.hasRoom = true ∧ b.makeRoom.copy = b.copy ∧
    b.makeRoom.pending = [] := by
  unfold makeRoom
  rcases harea : b.area with _ | a
  · have hpos := b.prepare_ne_nil
    dsimp only
    refine ⟨?_, ?_, ?_, rfl⟩
    · rintro a' ⟨⟩
      exact ⟨le_rfl, Nat.zero_le _, rfl, hpos⟩
    · exact decide_eq_true hpos
    · unfold copy
      rw [harea]
      rfl
  · rcases h a harea with ⟨hbase, hptr, hend, hpos⟩
    dsimp only
    split_ifs with hfull
    · have hcopy : (b.buffer ++ List.replicate b.buffer.length 0).take b.buffer.length =
          b.buffer := by
        rw [List.take_append_of_le_length le_rfl, List.take_length]
      refine ⟨?_, ?_, ?_, ?_⟩
      · rintro a' ⟨⟩
        dsimp only
        rw [List.length_append, List.length_replicate]
        exact ⟨le_rfl, Nat.le_add_right _ _, rfl, by omega⟩
      · refine decide_eq_true ?_
        dsimp only
        omega
      · unfold copy
        rw [harea, Option.elim_some, Option.elim_some, hcopy, hfull, hend, List.take_length]
      · unfold pending
        rw [Option.elim_some, hcopy, List.drop_length]
    · refine ⟨?_, ?_, ?_, ?_⟩
      · rintro a' ⟨⟩
        exact ⟨le_rfl, hptr, hend, hpos⟩
      · refine decide_eq_true ?_
        dsimp only
        omega
      · unfold copy
        rw [harea]
        rfl
      · unfold pending
        rw [Option.elim_some]
        refine List.drop_of_length_le ?_
        rw [List.length_take]
        exact min_le_left _ _

/-- A character is added to the copy and to what is pending. -/
lemma put_spec (h : b.Sound) (hroom : b.hasRoom = true) (c : UInt8) :
    (b.put c).Sound ∧ (b.put c).copy = b.copy ++ [c] ∧ (b.put c).pending = b.pending ++ [c] := by
  unfold hasRoom at hroom
  rcases harea : b.area with _ | a
  · rw [harea] at hroom
    cases hroom
  · rw [harea, Option.elim_some, decide_eq_true_eq] at hroom
    rcases h a harea with ⟨hbase, hptr, hend, hpos⟩
    have htake : (b.buffer.set a.pptr c).take (a.pptr + 1) = b.buffer.take a.pptr ++ [c] := by
      rw [List.take_add_one, List.take_set_of_le le_rfl, List.getElem?_set_self (by omega)]
      rfl
    unfold put
    rw [harea]
    dsimp only
    rw [if_pos hroom]
    refine ⟨?_, ?_, ?_⟩
    · rintro a' ⟨⟩
      dsimp only
      rw [List.length_set]
      exact ⟨by omega, hroom, hend, hpos⟩
    · unfold copy
      rw [harea]
      exact htake
    · unfold pending
      have hlength : (b.buffer.take a.pptr).length = a.pptr := by
        rw [List.length_take]
        omega
      rw [harea, Option.elim_some, Option.elim_some, htake,
        List.drop_append_of_le_length (by rw [hlength]; exact hbase)]

end CopyBuf

namespace CopyLog

variable {l : CopyLog}

/-- The copy is what was written since the last `getstr`, and what the output took is a part of what
is not pending. -/
structure Inv (l : CopyLog) : Prop where
  sound : l.buf.Sound
  since : l.since = l.buf.copy
  forwarded : ∃ front, l.written = front ++ l.buf.pending ∧ l.forwarded.Sublist front

lemma inv_init (attached : Bool) : (init attached).Inv := by
  refine ⟨?_, rfl, [], rfl, List.Sublist.slnil⟩
  rintro a ⟨⟩

/-- What `overflow` forwards was pending. -/
lemma Inv.overflow (h : l.Inv) (answer : ℕ) :
    Inv ⟨l.buf.makeRoom, l.written, l.forwarded ++ (l.buf.forward answer).2, l.since⟩ := by
  rcases CopyBuf.makeRoom_spec h.sound with ⟨hsound, -, hcopy, hpending⟩
  rcases h.forwarded with ⟨front, hwritten, hforwarded⟩
  refine ⟨hsound, h.since.trans hcopy.symm, l.written, ?_, ?_⟩
  · rw [hpending, List.append_nil]
  · dsimp only
    rw [hwritten]
    exact hforwarded.append (l.buf.forward_prefix answer).sublist

lemma Inv.put (h : l.Inv) (hroom : l.buf.hasRoom = true) (c : UInt8) :
    Inv ⟨l.buf.put c, l.written ++ [c], l.forwarded, l.since ++ [c]⟩ := by
  rcases CopyBuf.put_spec h.sound hroom c with ⟨hsound, hcopy, hpending⟩
  rcases h.forwarded with ⟨front, hwritten, hforwarded⟩
  refine ⟨hsound, ?_, front, ?_, hforwarded⟩
  · dsimp only
    rw [hcopy, h.since]
  · dsimp only
    rw [hpending, hwritten, List.append_assoc]

lemma Inv.write (h : l.Inv) (data : Bytes) (answer : ℕ → ℕ) : (l.write data answer).Inv := by
  induction data generalizing l answer with
  | nil => exact h
  | cons c data ih =>
    rw [CopyLog.write]
    unfold CopyBuf.sputc
    by_cases hroom : l.buf.hasRoom = true
    · rw [if_pos hroom]
      dsimp only
      rw [List.append_nil]
      exact ih (h.put hroom c) _
    · rw [if_neg hroom]
      unfold CopyBuf.overflow
      have hoverflow := h.overflow (answer 0)
      rcases (l.buf.forward (answer 0)).1 with _ | _
      · exact hoverflow
      · exact ih (hoverflow.put (CopyBuf.makeRoom_spec h.sound).2.1 c) _

lemma Inv.flush (h : l.Inv) (answer : ℕ) : (l.flush answer).Inv := by
  have hoverflow := h.overflow answer
  unfold CopyLog.flush CopyBuf.overflow
  dsimp only
  rcases (l.buf.forward answer).1 with _ | _
  · exact hoverflow
  · exact hoverflow

/-- Behind a `getstr` there is no copy, and what was pending is not forwarded any more. -/
lemma Inv.take (h : l.Inv) {b : CopyBuf} (harea : b.area = none) :
    Inv { l with buf := b, since := [] } := by
  rcases h.forwarded with ⟨front, hwritten, hforwarded⟩
  refine ⟨?_, ?_, l.written, ?_, ?_⟩
  · intro a ha
    rw [harea] at ha
    cases ha
  · unfold CopyBuf.copy
    rw [harea]
    rfl
  · unfold CopyBuf.pending
    rw [harea]
    exact (List.append_nil _).symm
  · rw [hwritten]
    exact hforwarded.trans (List.sublist_append_left _ _)

lemma Inv.step (h : l.Inv) (s : CopyStep) : (l.step s).Inv := by
  cases s with
  | write data answer => exact h.write data answer
  | flush answer => exact h.flush answer
  | close answer =>
      exact ⟨(h.flush answer).sound, (h.flush answer).since, (h.flush answer).forwarded⟩
  | openOutput => exact ⟨h.sound, h.since, h.forwarded⟩
  | getString => exact h.take rfl
  | getShared => exact h.take rfl
  | change v =>
    unfold CopyLog.step
    dsimp only
    split_ifs
    · exact ⟨h.sound, h.since, h.forwarded⟩
    · exact h
  | release => exact ⟨h.sound, h.since, h.forwarded⟩

/-- The length that `getstr` computes is right while the pointers are set, and that of the whole
buffer otherwise. -/
lemma Inv.take_eq_since_iff (h : l.Inv) :
    l.buf.buffer.take (l.buf.buffer.length - (l.buf.area.elim 0 fun a => a.epptr - a.pptr)) =
      l.since ↔
      l.buf.area ≠ none ∨ l.buf.buffer = [] := by
  rw [h.since]
  unfold CopyBuf.copy
  rcases harea : l.buf.area with _ | a
  · rw [Option.elim_none, Option.elim_none, Nat.sub_zero, List.take_length]
    exact (or_iff_right fun hne => hne rfl).symm
  · rcases h.sound a harea with ⟨hbase, hptr, hend, hpos⟩
    have hlength : l.buf.buffer.length - (a.epptr - a.pptr) = a.pptr := by omega
    rw [Option.elim_some, Option.elim_some, hlength]
    exact iff_of_true rfl (.inl (Option.some_ne_none a))

lemma Inv.exact_iff (h : l.Inv) (s : CopyStep) : l.Exact s ↔ l.Fresh s := by
  cases s with
  | getString => exact h.take_eq_since_iff
  | getShared => exact h.take_eq_since_iff
  | _ => exact Iff.rfl

/-! ## Runs -/

/-- In every run, whatever the output takes, the characters that it gets are some of those that were
written, in order. The results of `getstr` are what was written since the one before if and only if
every `getstr` finds the pointers set or no buffer. -/
theorem run_copies_iff (attached : Bool) (steps : List CopyStep) :
    ((∀ l ∈ Machine.states step (init attached) steps, l.forwarded.Sublist l.written) ∧
        Machine.Obeys step Exact (init attached) steps) ↔
      Machine.Obeys step Fresh (init attached) steps := by
  have hinv : ∀ l ∈ Machine.states step (init attached) steps, l.Inv := by
    have hobeys : Machine.Obeys step (fun _ _ => True) (init attached) steps :=
      Machine.obeys_of_forall (fun _ _ => trivial) _ _
    exact Machine.forall_mem_states (fun _ s h _ => h.step s) (inv_init attached) hobeys
  have hforwarded : ∀ l ∈ Machine.states step (init attached) steps,
      l.forwarded.Sublist l.written := by
    intro l hl
    rcases (hinv l hl).forwarded with ⟨front, hwritten, hsublist⟩
    rw [hwritten]
    exact hsublist.trans (List.sublist_append_left _ _)
  rw [and_iff_right hforwarded]
  constructor
  · intro h
    exact h.of_invariant (fun _ s h _ => h.step s) (inv_init attached) fun l s hl hexact =>
      (hl.exact_iff s).1 hexact
  · intro h
    exact h.of_invariant (fun _ s h _ => h.step s) (inv_init attached) fun l s hl hfresh =>
      (hl.exact_iff s).2 hfresh

/-- A page is stored, and then another one without a character between them. -/
theorem copies_stale :
    ¬((∀ l ∈ Machine.states step (init true) [.write [0x61] fun _ => 0, .getString, .getString],
        l.forwarded.Sublist l.written) ∧
      Machine.Obeys step Exact (init true) [.write [0x61] fun _ => 0, .getString, .getString]) := by
  rintro ⟨-, -, -, hexact, -⟩
  have hlength :
      (((init true).step (.write [0x61] fun _ => 0)).step .getString).buf.getString.1.length =
      128 := by
    decide +kernel
  have hsince : (((init true).step (.write [0x61] fun _ => 0)).step .getString).since = [] := rfl
  have heq : (((init true).step (.write [0x61] fun _ => 0)).step .getString).buf.getString.1 = [] :=
    hexact.trans hsince
  rw [heq] at hlength
  cases hlength

end CopyLog

end Http

end Cppcms
