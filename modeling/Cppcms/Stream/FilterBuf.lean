import Cppcms.Encoding.Hex

/-!
# Filters of a stream

`filterbuf` of `steal_buf.h` and the filters `escape`, `jsescape` and `urlencode` of `filters.cpp`.
A filter puts a buffer of its own in the place of the buffer of the stream, lets its object write,
and puts the old buffer back.  Filters may stand in each other: the buffer of the inner one writes
to the buffer of the outer one.
-/

namespace Cppcms

namespace Stream

/-! ## What the filters make of a character -/

inductive Filter where
  | escape
  | jsescape
  | urlencode
  deriving DecidableEq

/-- A character in `util::escape`. -/
def escapeChar (c : UInt8) : Bytes :=
  if c = Ch.lt then bytes "&lt;"
  else if c = Ch.gt then bytes "&gt;"
  else if c = Ch.amp then bytes "&amp;"
  else if c = Ch.quote then bytes "&quot;"
  else if c = Ch.apostrophe then bytes "&#39;"
  else [c]

/-- `encode` of `jsescape_buf`. -/
def encode (c : UInt8) : Bytes := bytes "\\u00" ++ hexOctet c

/-- A character in `convert` of `jsescape_buf`. -/
def jsescapeChar (c : UInt8) : Bytes :=
  if c = 0x22 then bytes "\\\""
  else if c = 0x5C then bytes "\\\\"
  else if c = 0x08 then bytes "\\b"
  else if c = 0x0C then bytes "\\f"
  else if c = Ch.newline then bytes "\\n"
  else if c = Ch.return' then bytes "\\r"
  else if c = Ch.tab then bytes "\\t"
  else if c = Ch.apostrophe then encode c
  else if c ≤ 0x1F then encode c
  else [c]

/-- A character in `urlencode_impl`. -/
def urlencodeChar (c : UInt8) : Bytes := if isUnreserved c then [c] else Ch.percent :: hexOctet c

def Filter.char : Filter → UInt8 → Bytes
  | escape => escapeChar
  | jsescape => jsescapeChar
  | urlencode => urlencodeChar

/-- The conversion of a whole text. -/
def Filter.text (k : Filter) (s : Bytes) : Bytes := s.flatMap k.char

lemma Filter.text_append (k : Filter) (s t : Bytes) : k.text (s ++ t) = k.text s ++ k.text t :=
  List.flatMap_append

/-! ## Buffers of streams -/

/-- What a call on a buffer leads to: the state of the buffer, whether it took the characters, and
whether the failbit of the stream was set on the way. -/
structure Put (σ : Type) where
  state : σ
  taken : Bool
  failbit : Bool

/-- `std::streambuf` with the states `σ`. -/
structure Streambuf (σ : Type) where
  sputc : σ → UInt8 → Put σ

namespace Streambuf

variable {σ : Type} (D : Streambuf σ)

/-- One call after another one that has taken its characters. -/
def andThen (r : Put σ) (f : σ → Put σ) : Put σ :=
  if r.taken then ⟨(f r.state).state, (f r.state).taken, r.failbit || (f r.state).failbit⟩ else r

/-- `sputn`, which ends at the first character that is refused. -/
def sputn : Bytes → σ → Put σ
  | [], d => ⟨d, true, false⟩
  | c :: s, d => andThen (D.sputc d c) (sputn s)

/-- The loop over the characters of a text, each of which is written as the filter has it. -/
def convertLoop (k : Filter) : Bytes → σ → Put σ
  | [], d => ⟨d, true, false⟩
  | c :: s, d => andThen (D.sputn (k.char c) d) (convertLoop k s)

/-- `convert`: `urlencode` gives its iterator away by value and asks the copy that it has kept. -/
def convert (k : Filter) (s : Bytes) (d : σ) : Put σ :=
  match k with
  | .urlencode => { D.convertLoop k s d with taken := true }
  | _ => D.convertLoop k s d

end Streambuf

/-- `filterbuf`: the put area, and the pointer `output_`.  What `output_` points to is the second
part of the state. -/
structure FilterBuf where
  area : Bytes
  output : ℕ
  deriving DecidableEq

/-- `BufferSize`. -/
def bufferSize : ℕ := 128

section Filterbuf

variable {σ : Type} (k : Filter) (D : Streambuf σ)

/-- `write` of `filterbuf`, which sets the failbit of the stream if `convert` fails. -/
def writeArea (b : FilterBuf × σ) : Put (FilterBuf × σ) :=
  let r := D.convert k b.1.area b.2
  if r.taken then ⟨({ b.1 with area := [] }, r.state), true, r.failbit⟩
    else ⟨(b.1, r.state), false, true⟩

/-- `filterbuf` of a filter: `overflow` writes the put area if there is no room. -/
def filterbuf : Streambuf (FilterBuf × σ) where
  sputc b c :=
    if b.1.area.length < bufferSize then ⟨({ b.1 with area := b.1.area ++ [c] }, b.2), true, false⟩
    else
      Streambuf.andThen (writeArea k D b) fun b =>
        ⟨({ b.1 with area := b.1.area ++ [c] }, b.2), true, false⟩

end Filterbuf

/-! ## Streams -/

/-- `std::ostream`: the buffer, the pointer to it, and whether the stream is in a failed state. -/
structure Ostream (σ : Type) where
  buffer : σ
  rdbuf : ℕ
  failed : Bool
  deriving DecidableEq

namespace Ostream

variable {σ : Type}

/-- A write, which a stream in a failed state leaves out. -/
def write (D : Streambuf σ) (s : Bytes) (st : Ostream σ) : Ostream σ :=
  if st.failed then st
  else
    let r := D.sputn s st.buffer
    { st with buffer := r.state, failed := !r.taken || r.failbit }

/-- `steal` of a buffer at the address `self`; a new buffer resets the state of the stream. -/
def steal (self : ℕ) (st : Ostream σ) : Ostream (FilterBuf × σ) :=
  ⟨(⟨[], st.rdbuf⟩, st.buffer), self, false⟩

/-- `rdbuf(output_)`, which resets the state of the stream. -/
def putBack (st : Ostream (FilterBuf × σ)) : Ostream σ := ⟨st.buffer.2, st.buffer.1.output, false⟩

/-- `release`. -/
def release (k : Filter) (D : Streambuf σ) (st : Ostream (FilterBuf × σ)) : Ostream σ :=
  let r := writeArea k D st.buffer
  putBack { st with buffer := r.state, failed := st.failed || r.failbit }

end Ostream

/-- What an object does that is written to a stream: writes, and filters with objects of their own.
-/
inductive Object where
  | done
  | write (s : Bytes) (rest : Object)
  | filter (k : Filter) (self : ℕ) (inner rest : Object)

namespace Object

/-- The text of an object. -/
def text : Object → Bytes
  | done => []
  | write s rest => s ++ rest.text
  | filter k _ inner rest => k.text inner.text ++ rest.text

/-- The object is written to a stream. -/
def run : Object → {σ : Type} → Streambuf σ → Ostream σ → Ostream σ
  | done, _, _, st => st
  | write s rest, _, D, st => rest.run D (st.write D s)
  | filter k self inner rest, _, D, st =>
      rest.run D ((inner.run (filterbuf k D) (st.steal self)).release k D)

end Object

/-! ## What reaches the last buffer -/

/-- What is written to a stream later on, behind what is written now. -/
structure Future (X : Type) where
  write : Bytes → X → X
  write_nil : ∀ x, write [] x = x
  write_append : ∀ s t x, write (s ++ t) x = write s (write t x)

/-- At the last buffer, more text. -/
def Future.text : Future Bytes := ⟨(· ++ ·), List.nil_append, List.append_assoc⟩

/-- At a filter, more text, and what is written behind the filter when it is released. -/
def Future.filter (X : Type) : Future (Bytes × X) where
  write s x := (s ++ x.1, x.2)
  write_nil _ := rfl
  write_append s t x := by rw [List.append_assoc]

/-- A buffer with a last buffer behind it: `flow d x` is what the last one has in the end if `x`
comes and all buffers are released, `ok d` is that it has refused nothing so far, and `tooLong` are
the texts that it does not take. -/
structure Flows {σ X : Type} (D : Streambuf σ) (F : Future X) (flow : σ → X → Bytes) (ok : σ → Prop)
    (tooLong : Bytes → Prop) : Prop where
  keeps : ∀ d c, ok (D.sputc d c).state → ok d
  takes : ∀ d c, ok (D.sputc d c).state → (D.sputc d c).taken = true ∧
    (D.sputc d c).failbit = false ∧
    ∀ x, flow (D.sputc d c).state x = flow d (F.write [c] x)
  refuses : ∀ d c, ok d → ¬ ok (D.sputc d c).state → ∀ x, tooLong (flow d (F.write [c] x))

/-- A call that writes the text `s`. -/
structure Sends {σ X : Type} (F : Future X) (flow : σ → X → Bytes) (ok : σ → Prop)
    (tooLong : Bytes → Prop) (s : Bytes) (d : σ) (r : Put σ) : Prop where
  keeps : ok r.state → ok d
  takes : ok r.state → r.taken = true ∧ r.failbit = false ∧
    ∀ x, flow r.state x = flow d (F.write s x)
  refuses : ok d → ¬ ok r.state → ∀ x, tooLong (flow d (F.write s x))

section Flows

variable {σ X : Type} {D : Streambuf σ} {F : Future X} {flow : σ → X → Bytes} {ok : σ → Prop}
    {tooLong : Bytes → Prop}

lemma sends_nil (d : σ) : Sends F flow ok tooLong [] d ⟨d, true, false⟩ := by
  refine ⟨id, fun _ => ⟨rfl, rfl, fun x => ?_⟩, fun h hnot => absurd h hnot⟩
  rw [F.write_nil]

/-- Calls one after the other write their texts one after the other. -/
lemma Sends.andThen {s t : Bytes} {d : σ} {r : Put σ} {f : σ → Put σ}
    (hr : Sends F flow ok tooLong s d r) (hf : Sends F flow ok tooLong t r.state (f r.state)) :
    Sends F flow ok tooLong (s ++ t) d (Streambuf.andThen r f) := by
  unfold Streambuf.andThen
  by_cases htaken : r.taken = true
  · rw [if_pos htaken]
    refine ⟨fun h => hr.keeps (hf.keeps h), fun h => ?_, fun hd hnot x => ?_⟩
    · rcases hr.takes (hf.keeps h) with ⟨-, hfail, hflow⟩
      rcases hf.takes h with ⟨htaken', hfail', hflow'⟩
      refine ⟨htaken', ?_, fun x => ?_⟩
      · dsimp only
        rw [hfail, hfail']
        rfl
      · rw [F.write_append, ← hflow, ← hflow']
    · rw [F.write_append]
      by_cases hok : ok r.state
      · rw [← (hr.takes hok).2.2]
        exact hf.refuses hok hnot x
      · exact hr.refuses hd hok _
  · -- the last buffer has refused a character
    rw [if_neg htaken]
    refine ⟨hr.keeps, fun h => absurd (hr.takes h).1 htaken, fun hd hnot x => ?_⟩
    rw [F.write_append]
    exact hr.refuses hd hnot _

lemma Flows.sputn (h : Flows D F flow ok tooLong) (s : Bytes) (d : σ) :
    Sends F flow ok tooLong s d (D.sputn s d) := by
  induction s generalizing d with
  | nil => exact sends_nil d
  | cons c s ih =>
    have hone : Sends F flow ok tooLong [c] d (D.sputc d c) :=
      ⟨h.keeps d c, h.takes d c, h.refuses d c⟩
    exact hone.andThen (ih _)

lemma Flows.convertLoop (h : Flows D F flow ok tooLong) (k : Filter) (s : Bytes) (d : σ) :
    Sends F flow ok tooLong (k.text s) d (D.convertLoop k s d) := by
  induction s generalizing d with
  | nil => exact sends_nil d
  | cons c s ih => exact (h.sputn (k.char c) d).andThen (ih _)

/-- The conversion writes the text of the filter, whatever it returns if a character is refused. -/
lemma Flows.convert (h : Flows D F flow ok tooLong) (k : Filter) (s : Bytes) (d : σ) :
    Sends F flow ok tooLong (k.text s) d (D.convert k s d) := by
  have hloop := h.convertLoop k s d
  cases k with
  | escape => exact hloop
  | jsescape => exact hloop
  | urlencode => exact ⟨hloop.keeps, fun hok => ⟨rfl, (hloop.takes hok).2⟩, hloop.refuses⟩

/-- What reaches the last buffer through a filter. -/
def filterFlow (k : Filter) (F : Future X) (flow : σ → X → Bytes) (b : FilterBuf × σ)
    (x : Bytes × X) : Bytes :=
  flow b.2 (F.write (k.text (b.1.area ++ x.1)) x.2)

/-- The put area is written to the buffer behind it, and is empty then. -/
lemma Flows.writeArea (h : Flows D F flow ok tooLong) (k : Filter) (b : FilterBuf × σ) :
    (ok (writeArea k D b).state.2 → ok b.2) ∧
      (ok (writeArea k D b).state.2 → (writeArea k D b).taken = true ∧
        (writeArea k D b).failbit = false ∧
        (writeArea k D b).state.1 = { b.1 with area := [] } ∧
        ∀ x, flow (writeArea k D b).state.2 x = flow b.2 (F.write (k.text b.1.area) x)) ∧
      (ok b.2 → ¬ ok (writeArea k D b).state.2 →
        ∀ x, tooLong (flow b.2 (F.write (k.text b.1.area) x))) := by
  have hconvert := h.convert k b.1.area b.2
  unfold Stream.writeArea
  by_cases htaken : (D.convert k b.1.area b.2).taken = true
  · rw [if_pos htaken]
    refine ⟨hconvert.keeps, fun hok => ?_, hconvert.refuses⟩
    exact ⟨rfl, (hconvert.takes hok).2.1, rfl, (hconvert.takes hok).2.2⟩
  · rw [if_neg htaken]
    exact ⟨hconvert.keeps, fun hok => absurd (hconvert.takes hok).1 htaken, hconvert.refuses⟩

/-- A filter on a buffer is a buffer in the same way. -/
lemma Flows.filterbuf (h : Flows D F flow ok tooLong) (k : Filter) :
    Flows (filterbuf k D) (Future.filter X) (filterFlow k F flow) (fun b => ok b.2) tooLong := by
  have hpush : ∀ (b : FilterBuf × σ) c,
    Sends (Future.filter X) (filterFlow k F flow) (fun b => ok b.2) tooLong [c] b
      ⟨({ b.1 with area := b.1.area ++ [c] }, b.2), true, false⟩ := by
    intro b c
    refine ⟨id, fun _ => ⟨rfl, rfl, fun x => ?_⟩, fun hd hnot => absurd hd hnot⟩
    show flow b.2 (F.write (k.text (b.1.area ++ [c] ++ x.1)) x.2) =
      flow b.2 (F.write (k.text (b.1.area ++ ([c] ++ x.1))) x.2)
    rw [List.append_assoc]
  have harea : ∀ b : FilterBuf × σ,
    Sends (Future.filter X) (filterFlow k F flow) (fun b => ok b.2) tooLong [] b
      (Stream.writeArea k D b) := by
    intro b
    rcases h.writeArea k b with ⟨hkeeps, htakes, hrefuses⟩
    -- the text of the put area and what comes behind it are converted one after the other
    have hsplit : ∀ x : Bytes × X, filterFlow k F flow b ((Future.filter X).write [] x) =
        flow b.2 (F.write (k.text b.1.area) (F.write (k.text x.1) x.2)) := by
      intro x
      rw [(Future.filter X).write_nil]
      unfold filterFlow
      rw [Filter.text_append, F.write_append]
    refine ⟨hkeeps, fun hok => ?_, fun hd hnot x => ?_⟩
    · rcases htakes hok with ⟨htaken, hfail, hempty, hflow⟩
      refine ⟨htaken, hfail, fun x => ?_⟩
      rw [hsplit, ← hflow]
      unfold filterFlow
      rw [hempty]
      rfl
    · rw [hsplit]
      exact hrefuses hd hnot _
  have hsputc : ∀ (b : FilterBuf × σ) c,
    Sends (Future.filter X) (filterFlow k F flow) (fun b => ok b.2) tooLong [c] b
      ((Stream.filterbuf k D).sputc b c) := by
    intro b c
    unfold Stream.filterbuf
    dsimp only
    split_ifs
    · exact hpush b c
    · exact (harea b).andThen (hpush _ c)
  exact ⟨fun b c => (hsputc b c).keeps, fun b c => (hsputc b c).takes, fun b c =>
    (hsputc b c).refuses⟩

end Flows

/-! ## Runs of objects -/

/-- What a part of an object does to a stream that is not in a failed state. -/
structure Runs {σ X : Type} (F : Future X) (flow : σ → X → Bytes) (ok : σ → Prop)
    (tooLong : Bytes → Prop) (s : Bytes) (st st' : Ostream σ) : Prop where
  keeps : ok st'.buffer → ok st.buffer
  takes : ok st'.buffer → st'.failed = false ∧ ∀ x, flow st'.buffer x = flow st.buffer (F.write s x)
  refuses : ok st.buffer → ¬ ok st'.buffer → ∀ x, tooLong (flow st.buffer (F.write s x))

section Runs

variable {σ X : Type} {D : Streambuf σ} {F : Future X} {flow : σ → X → Bytes} {ok : σ → Prop}
    {tooLong : Bytes → Prop}

lemma runs_nil {st : Ostream σ} (hst : st.failed = false) : Runs F flow ok tooLong [] st st := by
  refine ⟨id, fun _ => ⟨hst, fun x => ?_⟩, fun h hnot => absurd h hnot⟩
  rw [F.write_nil]

/-- Parts one after the other; a stream that has failed is not a concern, as the last buffer has
refused something. -/
lemma Runs.trans {s t : Bytes} {st st1 st2 : Ostream σ} (h1 : Runs F flow ok tooLong s st st1)
    (h2keeps : ok st2.buffer → ok st1.buffer)
    (h2 : st1.failed = false → Runs F flow ok tooLong t st1 st2) :
    Runs F flow ok tooLong (s ++ t) st st2 := by
  refine ⟨fun h => h1.keeps (h2keeps h), fun h => ?_, fun hst hnot x => ?_⟩
  · rcases h1.takes (h2keeps h) with ⟨hfailed, hflow⟩
    rcases (h2 hfailed).takes h with ⟨hfailed', hflow'⟩
    refine ⟨hfailed', fun x => ?_⟩
    rw [F.write_append, ← hflow, ← hflow']
  · rw [F.write_append]
    by_cases hok : ok st1.buffer
    · rcases h1.takes hok with ⟨hfailed, hflow⟩
      rw [← hflow]
      exact (h2 hfailed).refuses hok hnot x
    · exact h1.refuses hst hok _

lemma Flows.write_keeps (h : Flows D F flow ok tooLong) (s : Bytes) (st : Ostream σ) :
    ok (st.write D s).buffer → ok st.buffer := by
  unfold Ostream.write
  split_ifs
  · exact id
  · exact (h.sputn s st.buffer).keeps

lemma Flows.write (h : Flows D F flow ok tooLong) (s : Bytes) {st : Ostream σ}
    (hst : st.failed = false) :
    Runs F flow ok tooLong s st (st.write D s) := by
  have hsputn := h.sputn s st.buffer
  unfold Ostream.write
  rw [if_neg (by rw [hst]; exact Bool.false_ne_true)]
  refine ⟨hsputn.keeps, fun hok => ?_, hsputn.refuses⟩
  rcases hsputn.takes hok with ⟨htaken, hfail, hflow⟩
  refine ⟨?_, hflow⟩
  dsimp only
  rw [htaken, hfail]
  rfl

/-- A filter writes the text of its object as it converts it. -/
lemma Flows.release (h : Flows D F flow ok tooLong) (k : Filter) (self : ℕ) {s : Bytes}
    {st : Ostream σ}
    {st' : Ostream (FilterBuf × σ)}
    (hrun : Runs (Future.filter X) (filterFlow k F flow) (fun b => ok b.2) tooLong s
      (st.steal self) st') :
    Runs F flow ok tooLong (k.text s) st (st'.release k D) := by
  rcases h.writeArea k st'.buffer with ⟨hkeeps, htakes, hrefuses⟩
  -- what is written behind the filter stays behind the text of the filter
  have hsteal : ∀ x, filterFlow k F flow (st.steal self).buffer
    ((Future.filter X).write s ([], x)) =
      flow st.buffer (F.write (k.text s) x) := by
    intro x
    show flow st.buffer (F.write (k.text ([] ++ (s ++ []))) x) = _
    rw [List.nil_append, List.append_nil]
  have hrest : ∀ x, filterFlow k F flow st'.buffer ([], x) =
      flow st'.buffer.2 (F.write (k.text st'.buffer.1.area) x) := by
    intro x
    unfold filterFlow
    rw [List.append_nil]
  refine ⟨fun hok => hrun.keeps (hkeeps hok), fun hok => ⟨rfl, fun x => ?_⟩, fun hst hnot x => ?_⟩
  · rw [← hsteal, ← (hrun.takes (hkeeps hok)).2, hrest]
    exact (htakes hok).2.2.2 x
  · rw [← hsteal]
    by_cases hok : ok st'.buffer.2
    · rw [← (hrun.takes hok).2, hrest]
      exact hrefuses hok hnot x
    · exact hrun.refuses hst hok _

end Runs

/-- An object writes its text, unless the last buffer refuses a character of it. -/
lemma Object.runs (o : Object) {σ X : Type} {D : Streambuf σ} {F : Future X} {flow : σ → X → Bytes}
    {ok : σ → Prop} {tooLong : Bytes → Prop} (h : Flows D F flow ok tooLong) (st : Ostream σ) :
    (ok (o.run D st).buffer → ok st.buffer) ∧
      (st.failed = false → Runs F flow ok tooLong o.text st (o.run D st)) := by
  induction o generalizing σ X with
  | done => exact ⟨id, runs_nil⟩
  | write s rest ih =>
    have hrest := ih h (st.write D s)
    refine ⟨fun hok => h.write_keeps s st (hrest.1 hok), fun hst => ?_⟩
    exact (h.write s hst).trans hrest.1 hrest.2
  | filter k self inner rest ihinner ihrest =>
    have hinner := (ihinner (h.filterbuf k) (st.steal self)).2 rfl
    have hfilter := h.release k self hinner
    have hrest := ihrest h ((inner.run (Stream.filterbuf k D) (st.steal self)).release k D)
    exact ⟨fun hok => hfilter.keeps (hrest.1 hok), fun _ => hfilter.trans hrest.1 hrest.2⟩

/-! ## The pointer of a stream -/

/-- What a call on a buffer does not change. -/
def Fixed {σ τ : Type} (D : Streambuf σ) (tag : σ → τ) : Prop :=
  ∀ d c, tag (D.sputc d c).state = tag d

section Fixed

variable {σ τ : Type} {D : Streambuf σ} {tag : σ → τ}

lemma tag_andThen {r : Put σ} {f : σ → Put σ} {a : τ} (hr : tag r.state = a)
    (hf : tag (f r.state).state = tag r.state) :
    tag (Streambuf.andThen r f).state = a := by
  unfold Streambuf.andThen
  split_ifs
  · exact hf.trans hr
  · exact hr

lemma Fixed.sputn (h : Fixed D tag) (s : Bytes) (d : σ) : tag (D.sputn s d).state = tag d := by
  induction s generalizing d with
  | nil => rfl
  | cons c s ih => exact tag_andThen (h d c) (ih _)

lemma Fixed.convertLoop (h : Fixed D tag) (k : Filter) (s : Bytes) (d : σ) :
    tag (D.convertLoop k s d).state = tag d := by
  induction s generalizing d with
  | nil => rfl
  | cons c s ih => exact tag_andThen (h.sputn _ d) (ih _)

lemma Fixed.convert (h : Fixed D tag) (k : Filter) (s : Bytes) (d : σ) :
    tag (D.convert k s d).state = tag d := by
  cases k with
  | escape => exact h.convertLoop _ s d
  | jsescape => exact h.convertLoop _ s d
  | urlencode => exact h.convertLoop _ s d

lemma Fixed.writeArea (h : Fixed D tag) (k : Filter) (b : FilterBuf × σ) :
    (writeArea k D b).state.1.output = b.1.output ∧ tag (writeArea k D b).state.2 = tag b.2 := by
  have hconvert := h.convert k b.1.area b.2
  unfold Stream.writeArea
  by_cases htaken : (D.convert k b.1.area b.2).taken = true
  · rw [if_pos htaken]
    exact ⟨rfl, hconvert⟩
  · rw [if_neg htaken]
    exact ⟨rfl, hconvert⟩

/-- A filter keeps its pointer to the buffer behind it. -/
lemma Fixed.filterbuf (h : Fixed D tag) (k : Filter) :
    Fixed (filterbuf k D) fun b => (b.1.output, tag b.2) := by
  intro b c
  unfold Stream.filterbuf
  dsimp only
  split_ifs
  · rfl
  · have harea := h.writeArea k b
    exact @tag_andThen _ _ (fun b : FilterBuf × σ => (b.1.output, tag b.2)) _ _ _
      (Prod.ext harea.1 harea.2) rfl

end Fixed

/-- The stream has its buffer back. -/
lemma Object.run_rdbuf (o : Object) {σ τ : Type} {D : Streambuf σ} {tag : σ → τ} (h : Fixed D tag)
    (st : Ostream σ) :
    tag (o.run D st).buffer = tag st.buffer ∧ (o.run D st).rdbuf = st.rdbuf := by
  induction o generalizing σ τ with
  | done => exact ⟨rfl, rfl⟩
  | write s rest ih =>
    have hrest := ih h (st.write D s)
    have hwrite : tag (st.write D s).buffer = tag st.buffer ∧ (st.write D s).rdbuf = st.rdbuf := by
      unfold Ostream.write
      split_ifs
      · exact ⟨rfl, rfl⟩
      · exact ⟨h.sputn s st.buffer, rfl⟩
    exact ⟨hrest.1.trans hwrite.1, hrest.2.trans hwrite.2⟩
  | filter k self inner rest ihinner ihrest =>
    have hinner := (ihinner (h.filterbuf k) (st.steal self)).1
    have harea := h.writeArea k (inner.run (Stream.filterbuf k D) (st.steal self)).buffer
    have hrest := ihrest h ((inner.run (Stream.filterbuf k D) (st.steal self)).release k D)
    have houtput := congrArg Prod.fst hinner
    have htag := congrArg Prod.snd hinner
    exact ⟨hrest.1.trans (harea.2.trans htag), hrest.2.trans (harea.1.trans houtput)⟩

end Stream

end Cppcms
