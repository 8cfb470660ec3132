import Cppcms.Stream.FilterBuf

/-!
# Text that is written through filters and into stolen buffers

The filters send the conversion of what is written to them, and a `steal_buffer` holds what is
written to its stream, as long as its memory can grow: `overflow` doubles the size, so that a size
of zero stays, and hands the size to `pbump`, which takes an `int`.
-/

namespace Cppcms

namespace Stream

/-! ## A buffer that accepts characters -/

/-- The last buffer of a stream: the text that it has taken, the number of characters that it still
takes if there is a bound, and whether it has refused one. -/
structure Sink where
  text : Bytes
  room : Option ℕ
  refused : Bool
  deriving DecidableEq

def sinkbuf : Streambuf Sink where
  sputc d c :=
    match d.room with
    | none => ⟨{ d with text := d.text ++ [c] }, true, false⟩
    | some 0 => ⟨{ d with refused := true }, false, false⟩
    | some (n + 1) => ⟨{ d with text := d.text ++ [c], room := some n }, true, false⟩

/-- Nothing was refused, and the room that is left goes with the text. -/
def Sink.Ok (bound : Option ℕ) (d : Sink) : Prop :=
  d.refused = false ∧ d.room.map (d.text.length + ·) = bound

/-- A text that does not fit. -/
def TooLong (bound : Option ℕ) (t : Bytes) : Prop := ∃ n ∈ bound, n < t.length

/-- The text that the last buffer has in the end. -/
def sinkFlow (d : Sink) (x : Bytes) : Bytes := d.text ++ x

lemma flows_sinkbuf (bound : Option ℕ) :
    Flows sinkbuf Future.text sinkFlow (Sink.Ok bound) (TooLong bound) := by
  have hsputc : ∀ (d : Sink) c, Sends Future.text sinkFlow (Sink.Ok bound) (TooLong bound) [c] d
      (sinkbuf.sputc d c) := by
    rintro ⟨text, room, refused⟩ c
    have hflow : ∀ x, text ++ [c] ++ x = text ++ ([c] ++ x) := fun x => List.append_assoc _ _ _
    rcases room with _ | _ | n
    · exact ⟨fun h => h, fun _ => ⟨rfl, rfl, hflow⟩, fun h hnot => absurd h hnot⟩
    · have hnot : ¬ Sink.Ok bound (sinkbuf.sputc ⟨text, some 0, refused⟩ c).state := fun h =>
        Bool.noConfusion h.1
      refine ⟨fun h => absurd h hnot, fun h => absurd h hnot, fun h _ x => ?_⟩
      refine ⟨text.length + 0, h.2.symm, ?_⟩
      show text.length < (text ++ ([c] ++ x)).length
      rw [List.length_append, List.length_append, List.length_singleton]
      omega
    · have hroom : (some n).map ((text ++ [c]).length + ·) =
          (some (n + 1)).map (text.length + ·) := by
        rw [Option.map_some, Option.map_some, List.length_append, List.length_singleton,
          Nat.add_assoc, Nat.add_comm 1]
      refine ⟨fun h => ⟨h.1, hroom.symm.trans h.2⟩, fun _ => ⟨rfl, rfl, hflow⟩, fun h hnot => ?_⟩
      exact absurd ⟨h.1, hroom.trans h.2⟩ hnot
  exact ⟨fun d c => (hsputc d c).keeps, fun d c => (hsputc d c).takes, fun d c =>
    (hsputc d c).refuses⟩

/-! ## `stackbuf` -/

/-- `stackbuf`: the text between `pbase()` and `pptr()`, the size of the put area, which was doubled
a number of times while it was an `int`, and whether the area is on the heap. -/
structure StackBuf (onStackSize : ℕ) where
  text : Bytes
  size : ℕ
  onHeap : Bool
  length_le : text.length ≤ size
  onStack : onHeap = false → size = onStackSize
  doubled : ∃ k, size = onStackSize * 2 ^ k ∧ ∀ j < k, onStackSize * 2 ^ j < 2 ^ 31

namespace StackBuf

variable {n : ℕ}

/-- `init`. -/
def init (n : ℕ) : StackBuf n where
  text := []
  size := n
  onHeap := false
  length_le := Nat.zero_le _
  onStack _ := rfl
  doubled := ⟨0, (Nat.mul_one n).symm, fun j hj => absurd hj (Nat.not_lt_zero j)⟩

/-- A character where there is room. -/
def push (b : StackBuf n) (h : b.text.length < b.size) (c : UInt8) : StackBuf n :=
  { b with
    text := b.text ++ [c]
    length_le := by
      rw [List.length_append, List.length_singleton]
      exact h }

/-- `current_size` in `overflow`. -/
def currentSize (b : StackBuf n) : ℕ := if b.onHeap then b.text.length else n

lemma currentSize_eq (b : StackBuf n) (hfull : ¬ b.text.length < b.size) :
    b.currentSize = b.size := by
  have hlength : b.text.length = b.size := le_antisymm b.length_le (not_lt.1 hfull)
  unfold currentSize
  rcases hheap : b.onHeap with _ | _
  · exact (b.onStack hheap).symm
  · exact hlength

/-- The buffer with twice the size, on the heap. -/
def grow (b : StackBuf n) (hfull : ¬ b.text.length < b.size) (hint : b.currentSize < 2 ^ 31) :
    StackBuf n where
  text := b.text
  size := b.currentSize * 2
  onHeap := true
  length_le := by
    rw [b.currentSize_eq hfull]
    exact b.length_le.trans (Nat.le_mul_of_pos_right _ (by decide))
  onStack h := by cases h
  doubled := by
    rcases b.doubled with ⟨k, hk, hsmall⟩
    rw [b.currentSize_eq hfull] at hint ⊢
    refine ⟨k + 1, by rw [hk, pow_succ, Nat.mul_assoc], fun j hj => ?_⟩
    rcases Nat.lt_succ_iff_lt_or_eq.1 hj with hj | rfl
    · exact hsmall j hj
    · rw [← hk]
      exact hint

/-- `overflow` of a buffer without room: the new size is twice the old one, and `pbump` moves the
pointer behind the text if the old size is an `int`.  The `sputc` in it calls `overflow` again if
there still is no room, and so on. -/
def overflow (b : StackBuf n) (hfull : ¬ b.text.length < b.size) (c : UInt8) :
    Option (StackBuf n) :=
  if hint : b.currentSize < 2 ^ 31 then
    if hroom : (b.grow hfull hint).text.length < (b.grow hfull hint).size then some
      ((b.grow hfull hint).push hroom c)
    else none
  else none

end StackBuf

/-- `stackbuf` as a buffer of a stream; `none` is a call that does not end or a pointer that is
lost. -/
def stackbuf (n : ℕ) : Streambuf (Option (StackBuf n)) where
  sputc d c :=
    match d with
    | none => ⟨none, true, false⟩
    | some b => if h : b.text.length <
        b.size then ⟨some (b.push h c), true, false⟩ else ⟨b.overflow h c, true, false⟩

/-- A text for which the memory can grow: none in a buffer of the size zero, and none beyond a size
that is no `int`. -/
def Grows (n length : ℕ) : Prop :=
  (n = 0 → length = 0) ∧ ∀ k, 2 ^ 31 ≤ n * 2 ^ k → length ≤ n * 2 ^ k

/-- What the buffer holds in the end. -/
def stackFlow {n : ℕ} (d : Option (StackBuf n)) (x : Bytes) : Bytes :=
  ((d.map StackBuf.text).getD []) ++ x

section StackBuf

variable {n : ℕ}

/-- The memory grows once more, or it has come to its end. -/
lemma StackBuf.overflow_cases (b : StackBuf n) (hfull : ¬ b.text.length < b.size) (c : UInt8) :
    (b.overflow hfull c = none ∧ ∀ length, b.size < length → ¬ Grows n length) ∨
      ∃ b', b.overflow hfull c = some b' ∧ b'.text = b.text ++ [c] := by
  have hcurrent := b.currentSize_eq hfull
  rcases b.doubled with ⟨k, hk, -⟩
  unfold overflow
  by_cases hint : b.currentSize < 2 ^ 31
  · rw [dif_pos hint]
    by_cases hroom : (b.grow hfull hint).text.length < (b.grow hfull hint).size
    · rw [dif_pos hroom]
      exact .inr ⟨_, rfl, rfl⟩
    · -- a size of zero stays
      rw [dif_neg hroom]
      refine .inl ⟨rfl, fun length hlength hgrows => ?_⟩
      have hsize : b.size * 2 ≤ b.text.length := by
        rw [← hcurrent]
        exact not_lt.1 hroom
      have hle := b.length_le
      have hzero : n * 2 ^ k = 0 := by omega
      have hn : n = 0 := (Nat.mul_eq_zero.1 hzero).resolve_right (Nat.two_pow_pos k).ne'
      have hnone := hgrows.1 hn
      omega
  · rw [dif_neg hint]
    refine .inl ⟨rfl, fun length hlength hgrows => ?_⟩
    have hlarge : 2 ^ 31 ≤ n * 2 ^ k := by
      rw [← hk, ← hcurrent]
      exact not_lt.1 hint
    have hle := hgrows.2 k hlarge
    omega

/-- The text of a buffer is one for which the memory could grow. -/
lemma StackBuf.grows (b : StackBuf n) : Grows n b.text.length := by
  have hle := b.length_le
  rcases b.doubled with ⟨k, hk, hsmall⟩
  constructor
  · intro hn
    have hzero : n * 2 ^ k = 0 := Nat.mul_eq_zero.2 (.inl hn)
    omega
  · intro i hi
    have hki : k ≤ i := by
      by_contra hlt
      exact absurd (hsmall i (not_le.1 hlt)) (not_lt.2 hi)
    calc b.text.length ≤ n * 2 ^ k := hk ▸ hle
      _ ≤ n * 2 ^ i := Nat.mul_le_mul_left n (Nat.pow_le_pow_right (by decide) hki)

lemma flows_stackbuf (n : ℕ) :
    Flows (stackbuf n) Future.text stackFlow (· ≠ none) (fun t => ¬ Grows n t.length) := by
  have hsputc : ∀ (d : Option (StackBuf n)) c,
      Sends Future.text stackFlow (· ≠ none) (fun t => ¬ Grows n t.length) [c] d
        ((stackbuf n).sputc d c) := by
    intro d c
    rcases d with _ | b
    · exact ⟨fun h => h, fun h => absurd rfl h, fun h _ => absurd rfl h⟩
    have hflow : ∀ b' : StackBuf n, b'.text = b.text ++ [c] →
        ∀ x, stackFlow (some b') x = stackFlow (some b) ([c] ++ x) := by
      intro b' hb' x
      show b'.text ++ x = b.text ++ ([c] ++ x)
      rw [hb', List.append_assoc]
    have hsome : some b ≠ none := Option.some_ne_none b
    unfold stackbuf
    dsimp only
    by_cases hroom : b.text.length < b.size
    · rw [dif_pos hroom]
      exact ⟨fun _ => hsome, fun _ => ⟨rfl, rfl, hflow _ rfl⟩, fun _ hnot =>
        absurd (Option.some_ne_none _) hnot⟩
    · rw [dif_neg hroom]
      rcases b.overflow_cases hroom c with ⟨hnone, hlost⟩ | ⟨b', hb', htext⟩
      · rw [hnone]
        refine ⟨fun _ => hsome, fun h => absurd rfl h, fun _ _ x => hlost _ ?_⟩
        show b.size < (b.text ++ ([c] ++ x)).length
        rw [List.length_append, List.length_append, List.length_singleton]
        omega
      · rw [hb']
        exact ⟨fun _ => hsome, fun _ => ⟨rfl, rfl, hflow b' htext⟩, fun _ hnot =>
          absurd (Option.some_ne_none _) hnot⟩
  exact ⟨fun d c => (hsputc d c).keeps, fun d c => (hsputc d c).takes, fun d c =>
    (hsputc d c).refuses⟩

end StackBuf

/-! ## `steal_buffer` -/

/-- `steal_buffer`: the buffer that holds the text, and the pointer `stolen_`. -/
structure StealBuffer (n : ℕ) where
  buf : Option (StackBuf n)
  stolen : ℕ

def stealBuffer (n : ℕ) : Streambuf (StealBuffer n) where
  sputc d c := { (stackbuf n).sputc d.buf c with state :=
    { d with buf := ((stackbuf n).sputc d.buf c).state } }

lemma flows_stealBuffer (n : ℕ) :
    Flows (stealBuffer n) Future.text (fun d => stackFlow d.buf) (·.buf ≠ none)
      (fun t => ¬ Grows n t.length) :=
  ⟨fun d => (flows_stackbuf n).keeps d.buf, fun d => (flows_stackbuf n).takes d.buf,
    fun d => (flows_stackbuf n).refuses d.buf⟩

lemma fixed_stealBuffer (n : ℕ) : Fixed (stealBuffer n) StealBuffer.stolen := fun _ _ => rfl

/-- `steal` of a buffer at the address `self`. -/
def Ostream.stealBuffer {σ : Type} (n self : ℕ) (st : Ostream σ) : Ostream (StealBuffer n) :=
  ⟨⟨some (.init n), st.rdbuf⟩, self, false⟩

/-- `release`: the stream has the pointer `stolen_` again, to a buffer that nothing was written to.
-/
def Ostream.giveBack {σ : Type} {n : ℕ} (st : Ostream (StealBuffer n)) (buffer : σ) : Ostream σ :=
  ⟨buffer, st.buffer.stolen, false⟩

/-! ## Filters and stolen buffers as they are used -/

/-- An object that is written to a stream through a filter, or to a stream whose buffer is stolen by
a `steal_buffer` of some size; the new buffers are at the address `self`. -/
inductive Use where
  | filter (k : Filter) (self : ℕ) (o : Object)
  | steal (n self : ℕ) (o : Object)

/-- The stream after an object was written through a filter. -/
def filtered (k : Filter) (self : ℕ) (o : Object) (st : Ostream Sink) : Ostream Sink :=
  Object.run (.filter k self o .done) sinkbuf st

/-- The stream after an object was written while its buffer was stolen. -/
def stolen (n self : ℕ) (o : Object) (st : Ostream Sink) : Ostream (StealBuffer n) :=
  o.run (stealBuffer n) (st.stealBuffer n self)

/-- A filter sends the conversion of the whole text to a buffer that accepts everything, a stolen
buffer holds the whole text, and the stream has its buffer back. -/
def Exact (u : Use) (st : Ostream Sink) : Prop :=
  match u with
  | .filter k self o => (filtered k self o st).buffer =
      { st.buffer with text := st.buffer.text ++ k.text o.text } ∧
      (filtered k self o st).rdbuf = st.rdbuf
  | .steal n self o => (stolen n self o st).buffer.buf.map StackBuf.text = some o.text ∧
      ((stolen n self o st).giveBack st.buffer).buffer = st.buffer ∧
      ((stolen n self o st).giveBack st.buffer).rdbuf = st.rdbuf

/-- The memory of a stolen buffer can grow to the size of the text. -/
def Use.Fits : Use → Prop
  | filter _ _ _ => True
  | steal n _ o => Grows n o.text.length

lemma fixed_sinkbuf : Fixed sinkbuf fun _ => () := fun _ _ => rfl

/-- The run of a filter, whatever the state of the stream was. -/
lemma filtered_runs (k : Filter) (self : ℕ) (o : Object) (st : Ostream Sink) (bound : Option ℕ) :
    Runs Future.text sinkFlow (Sink.Ok bound) (TooLong bound) (k.text o.text) st
      (filtered k self o st) := by
  have hflows := flows_sinkbuf bound
  exact hflows.release k self ((o.runs (hflows.filterbuf k) (st.steal self)).2 rfl)

/-- A buffer that accepts everything takes the conversion of the text. -/
lemma filtered_buffer (k : Filter) (self : ℕ) (o : Object) {st : Ostream Sink}
    (hroom : st.buffer.room = none) (hrefused : st.buffer.refused = false) :
    (filtered k self o st).buffer = { st.buffer with text := st.buffer.text ++ k.text o.text } := by
  have hruns := filtered_runs k self o st none
  have hbefore : Sink.Ok none st.buffer := ⟨hrefused, by rw [hroom]; rfl⟩
  have hafter : Sink.Ok none (filtered k self o st).buffer := by
    by_contra hnot
    rcases hruns.refuses hbefore hnot [] with ⟨n, hn, -⟩
    cases hn
  have hflow : (filtered k self o st).buffer.text ++ [] = st.buffer.text ++ (k.text o.text ++ []) :=
    (hruns.takes hafter).2 []
  rw [List.append_nil, List.append_nil] at hflow
  have hroom' := Option.map_eq_none_iff.1 hafter.2
  rcases hbuffer : (filtered k self o st).buffer with ⟨text, room, refused⟩
  rw [hbuffer] at hflow hroom' hafter
  exact congr (congr (congrArg Sink.mk hflow) (hroom'.trans hroom.symm))
    (hafter.1.trans hrefused.symm)

lemma filtered_rdbuf (k : Filter) (self : ℕ) (o : Object) (st : Ostream Sink) :
    (filtered k self o st).rdbuf = st.rdbuf :=
  (Object.run_rdbuf (.filter k self o .done) fixed_sinkbuf st).2

/-- A stolen buffer holds the text if its memory can grow to its size, and not otherwise. -/
lemma stolen_text_iff (n self : ℕ) (o : Object) (st : Ostream Sink) :
    (stolen n self o st).buffer.buf.map StackBuf.text = some o.text ↔ Grows n o.text.length := by
  have hruns := (o.runs (flows_stealBuffer n) (st.stealBuffer n self)).2 rfl
  have hbefore : (st.stealBuffer n self).buffer.buf ≠ none := Option.some_ne_none _
  change (o.run (stealBuffer n) (st.stealBuffer n self)).buffer.buf.map StackBuf.text =
    some o.text ↔ _
  constructor
  · intro h
    rcases Option.map_eq_some_iff.1 h with ⟨b, -, hb⟩
    rw [← hb]
    exact b.grows
  · intro hgrows
    have hafter : (o.run (stealBuffer n) (st.stealBuffer n self)).buffer.buf ≠ none := by
      intro hnone
      have hnot := hruns.refuses hbefore (fun h => h hnone) []
      rw [show stackFlow (st.stealBuffer n self).buffer.buf (Future.text.write o.text []) =
        o.text from
        List.append_nil _] at hnot
      exact hnot hgrows
    rcases Option.ne_none_iff_exists'.1 hafter with ⟨b, hb⟩
    have hflow := (hruns.takes hafter).2 []
    rw [hb] at hflow ⊢
    have htext : b.text ++ [] = [] ++ (o.text ++ []) := hflow
    rw [List.append_nil, List.append_nil, List.nil_append] at htext
    rw [Option.map_some, htext]

lemma giveBack_rdbuf (n self : ℕ) (o : Object) (st : Ostream Sink) :
    ((stolen n self o st).giveBack st.buffer).rdbuf = st.rdbuf :=
  (o.run_rdbuf (fixed_stealBuffer n) (st.stealBuffer n self)).1

/-- Filters are exact at every buffer that accepts everything, and stolen buffers as far as their
memory can grow. -/
theorem stackbuf_exact_iff (u : Use) (text : Bytes) (rdbuf : ℕ) (failed : Bool) :
    Exact u ⟨⟨text, none, false⟩, rdbuf, failed⟩ ↔ u.Fits := by
  rcases u with ⟨k, self, o⟩ | ⟨n, self, o⟩
  · exact ⟨fun _ => trivial, fun _ => ⟨filtered_buffer k self o rfl rfl, filtered_rdbuf k self o _⟩⟩
  · have htext := stolen_text_iff n self o ⟨⟨text, none, false⟩, rdbuf, failed⟩
    exact ⟨fun h => htext.1 h.1, fun h => ⟨htext.2 h, rfl, giveBack_rdbuf n self o _⟩⟩

/-- A buffer of the size zero has no place for a character, and `overflow` calls itself without end.
-/
theorem not_exact_zero :
    ¬ Exact (.steal 0 2 (.write (bytes "x") .done)) ⟨⟨[], none, false⟩, 1, false⟩ := by
  intro h
  have hgrows := (stolen_text_iff _ _ _ _).1 h.1
  exact absurd (hgrows.1 rfl) (by decide)

end Stream

end Cppcms
