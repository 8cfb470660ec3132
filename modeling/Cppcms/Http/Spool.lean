import Cppcms.Http.FileBuffer

/-!
# Uploaded files as lists of octets

Whoever uses a `file_buffer` sees the octets that were written and a cursor, from which they are
read.  It cannot be seen whether the octets are in memory or in the temporary file.
-/

namespace Cppcms

namespace Http

/-- The octets that were written, and the place where they are read. -/
structure Spool where
  written : Bytes
  cursor : ℕ
  cursor_le : cursor ≤ written.length

namespace Spool

def empty : Spool := ⟨[], 0, Nat.le_refl 0⟩

/-- The place that a seek asks for. -/
def target (off : ℤ) (way : Way) (s : Spool) : ℤ := way.place off s.cursor s.written.length

def write (c : UInt8) (s : Spool) : Spool :=
  ⟨s.written ++ [c], s.cursor, by
    rw [List.length_append]
    exact Nat.le_add_right_of_le s.cursor_le⟩

def read (s : Spool) : Spool :=
  if h : s.cursor < s.written.length then ⟨s.written, s.cursor + 1, h⟩ else s

def unget (s : Spool) : Spool := ⟨s.written, s.cursor - 1, (Nat.sub_le _ _).trans s.cursor_le⟩

def seek (off : ℤ) (way : Way) (s : Spool) : Spool :=
  if h : 0 ≤ s.target off way ∧ s.target off way ≤ s.written.length then
    ⟨s.written, (s.target off way).toNat, Int.toNat_le.2 h.2⟩
  else s

def step (s : Spool) : Op → Spool × Result
  | .write c => (s.write c, .done true)
  | .read => (s.read, .octet s.written[s.cursor]?)
  | .peek => (s, .octet s.written[s.cursor]?)
  | .unget => (s.unget, .octet (if s.cursor = 0 then none else s.written[s.cursor - 1]?))
  | .seek off way =>
    (s.seek off way,
      .offset (if 0 ≤ s.target off way ∧
        s.target off way ≤ s.written.length then s.target off way else -1))
  | .tellp => (s, .offset s.written.length)
  | .sync => (s, .done true)
  | .toFile => (s, .done true)
  | .size => (s, .offset s.written.length)

def run (s : Spool) : List Op → List Result
  | [] => []
  | op :: ops => (s.step op).2 :: (s.step op).1.run ops

/-- Only a write changes what was written. -/
lemma written_step {op : Op} (hwrite : ∀ c, op ≠ .write c) (s : Spool) :
    (s.step op).1.written = s.written := by
  cases op with
  | write c => exact absurd rfl (hwrite c)
  | read =>
    show s.read.written = s.written
    unfold read
    split_ifs <;> rfl
  | seek off way =>
    show (s.seek off way).written = s.written
    unfold seek
    split_ifs <;> rfl
  | _ => rfl

end Spool

/-! ## The buffer holds what was written -/

namespace FileBuffer

/-- The greatest number of octets in memory that `pbump` can go over. -/
def bumpable : ℕ := 2 ^ 31

/-- The buffer is in memory.  Its vector was doubled until there was room. -/
structure InMemory (limit : ℕ) (b : FileBuffer) (s : Spool) : Prop where
  limit_eq : b.limit = limit
  inMemory : b.inMemory = true
  closed : b.closed = false
  file : b.file = none
  fileSize : b.fileSize = 0
  written : s.written = b.data.take b.pptr
  pptr : b.pptr ≤ b.data.length
  epptr : b.epptr = b.data.length
  cursor : s.cursor = b.gptr
  gptr : b.gptr ≤ b.egptr
  egptr : b.egptr ≤ b.pptr
  room : limit ≤ bumpable ∨ b.data = [] ∨ ∃ k, 6 ≤ k ∧ k ≤ 31 ∧ b.data.length = 2 ^ k

/-- The octets are in the file `f`, but for the last ones. -/
structure InFile (f : File) (b : FileBuffer) (s : Spool) : Prop where
  inMemory : b.inMemory = false
  closed : b.closed = false
  file : b.file = some f
  fileSize : b.fileSize = f.content.length
  written : s.written = f.content ++ b.output.take b.pptr
  output : b.output.length = bufferSize
  pptr : b.pptr ≤ bufferSize
  epptr : b.epptr = bufferSize
  cursor : s.cursor = b.readOffset + b.gptr
  gptr : b.gptr ≤ b.egptr
  reach : b.readOffset + b.egptr ≤ f.content.length
  input : b.input.take b.egptr = (f.content.drop b.readOffset).take b.egptr

variable {n : ℕ} {op : Op} {s : Spool} {b : FileBuffer} {limit : ℕ}

lemma take_set_append {v : Bytes} (hn : n < v.length) (c : UInt8) :
    (v.set n c).take (n + 1) = v.take n ++ [c] := by
  have hset : n < (v.set n c).length := by rwa [List.length_set]
  rw [List.take_succ_eq_append_getElem hset, List.take_set_of_le (Nat.le_refl n),
    List.getElem_set_self]

section InFile

variable {f : File} {b : FileBuffer} {s : Spool}

lemma InFile.size_eq (h : InFile f b s) : b.size = s.written.length := by
  unfold size
  rw [h.written, List.length_append, List.length_take, h.output, h.fileSize, Nat.min_eq_left h.pptr]

/-- What was not in the file yet is written behind the rest. -/
lemma InFile.writeBuffer (h : InFile f b s) :
    ∃ f' b', b.writeBuffer = (b', true) ∧ InFile f' b' s ∧ f'.content = s.written ∧ b'.pptr = 0 ∧
      b'.readOffset = b.readOffset ∧ b'.gptr = b.gptr ∧ b'.egptr = b.egptr := by
  have hput : b.putArea = b.output := if_neg (by rw [h.inMemory]; exact Bool.false_ne_true)
  have hlength : (b.output.take b.pptr).length = b.pptr := by
    rw [List.length_take, h.output, Nat.min_eq_left h.pptr]
  unfold FileBuffer.writeBuffer
  rw [if_neg (by rw [h.closed]; exact Bool.false_ne_true), h.file, hput, Option.getD_some]
  dsimp only
  rw [File.write_seekEnd]
  refine ⟨⟨f.content ++ b.output.take b.pptr, f.content.length + (b.output.take b.pptr).length⟩, _,
    rfl, ?_, h.written.symm, rfl, rfl, rfl, rfl⟩
  refine ⟨h.inMemory, h.closed, rfl, ?_, ?_, h.output, Nat.zero_le _, h.epptr,
    h.cursor, h.gptr, ?_, ?_⟩
  · dsimp only
    rw [List.length_append, hlength, h.fileSize]
  · dsimp only
    rw [List.take_zero, List.append_nil]
    exact h.written
  · dsimp only
    rw [List.length_append]
    exact Nat.le_add_right_of_le h.reach
  · dsimp only
    rw [h.input, List.drop_append_of_le_length (by have := h.reach; omega),
      List.take_append_of_le_length (by have := h.reach; rw [List.length_drop]; omega)]

lemma InFile.sync (h : InFile f b s) :
    ∃ f' b', b.sync = (b', true) ∧ InFile f' b' s ∧ f'.content = s.written ∧ b'.pptr = 0 ∧
      b'.readOffset = b.readOffset ∧ b'.gptr = b.gptr ∧ b'.egptr = b.egptr := by
  unfold FileBuffer.sync
  rw [if_neg (by rw [h.inMemory]; exact Bool.false_ne_true)]
  exact h.writeBuffer

/-- The octet at `gptr` is the one at the cursor. -/
lemma InFile.current (h : InFile f b s) (hlt : b.gptr < b.egptr) :
    some b.current = s.written[s.cursor]? := by
  have hreach := h.reach
  have harea : b.getArea = b.input := if_neg (by rw [h.inMemory]; exact Bool.false_ne_true)
  have hinput : b.input[b.gptr]? = f.content[b.readOffset + b.gptr]? := by
    rw [← List.getElem?_take_of_lt hlt, h.input, List.getElem?_take_of_lt hlt, List.getElem?_drop]
  have hsome : ∃ c, f.content[b.readOffset + b.gptr]? = some c :=
    ⟨_, List.getElem?_eq_getElem (by omega)⟩
  rcases hsome with ⟨c, hc⟩
  unfold FileBuffer.current
  rw [harea, List.getD_eq_getElem?_getD, hinput, hc, Option.getD_some, h.written, h.cursor,
    List.getElem?_append_left (by omega), hc]

variable {s' : Spool}

/-- The place of reading is moved to the file offset `n`. -/
lemma InFile.move (h : InFile f b s) (hn : n ≤ f.content.length) (hwritten : s'.written = s.written)
    (hcursor : s'.cursor = n) :
    InFile f { b with readOffset := n, gptr := 0, egptr := 0 } s' := by
  refine ⟨h.inMemory, h.closed, h.file, h.fileSize, ?_, h.output, h.pptr, h.epptr, hcursor,
    Nat.le_refl 0, hn, rfl⟩
  rw [hwritten]
  exact h.written

lemma InFile.seekoff (h : InFile f b s) (off : ℤ) (way : Way) :
    ∃ f', (b.seekoff off way false).2 =
      (if 0 ≤ s.target off way ∧ s.target off way ≤ s.written.length
        then s.target off way else -1) ∧
      InFile f' (b.seekoff off way false).1 (s.seek off way) ∧ f'.content = s.written ∧
      (b.seekoff off way false).1.pptr = 0 ∧ (b.seekoff off way false).1.gptr = 0 ∧
      (b.seekoff off way false).1.readOffset = (s.seek off way).cursor := by
  rcases h.sync with ⟨f', b', hsync, h', hcontent, hpptr, hoffset, hgptr, -⟩
  have hcursor : b'.readOffset + b'.gptr = s.cursor := h'.cursor.symm
  have hsize : b'.fileSize = s.written.length := by rw [h'.fileSize, hcontent]
  have htarget : way.place off (b'.readOffset + b'.gptr) b'.fileSize = s.target off way := by
    unfold Spool.target
    rw [hcursor, hsize]
  unfold FileBuffer.seekoff
  rw [if_neg Bool.false_ne_true, if_neg (by rw [h.inMemory]; exact Bool.false_ne_true), hsync]
  dsimp only
  rw [htarget]
  unfold Spool.seek
  by_cases hin : 0 ≤ s.target off way ∧ s.target off way ≤ s.written.length
  · rw [if_neg (by omega), if_pos hin, dif_pos hin]
    have hle : (s.target off way).toNat ≤ f'.content.length := by
      rw [hcontent]
      omega
    exact ⟨f', rfl, h'.move hle rfl rfl, hcontent, hpptr, rfl, rfl⟩
  · rw [if_pos (by omega), if_neg hin, dif_neg hin]
    have hle : b'.readOffset + b'.gptr ≤ f'.content.length := by
      rw [hcontent, hcursor]
      exact s.cursor_le
    exact ⟨f', rfl, h'.move hle rfl hcursor.symm, hcontent, hpptr, rfl, hcursor⟩

/-- The get area is filled from the cursor on. -/
lemma InFile.underflow (h : InFile f b s) :
    ∃ f', b.underflow.2 = s.written[s.cursor]? ∧ InFile f' b.underflow.1 s ∧
    b.underflow.1.readOffset = s.cursor ∧
      b.underflow.1.gptr = 0 ∧ b.underflow.1.egptr =
        min bufferSize (s.written.length - s.cursor) := by
  rcases h.sync with ⟨f', b', hsync, h', hcontent, hpptr, -⟩
  have hcursor : b'.readOffset + b'.gptr = s.cursor := h'.cursor.symm
  let d := (s.written.drop s.cursor).take bufferSize
  let b'' : FileBuffer := { b' with
    readOffset := s.cursor
    file := some ⟨s.written, s.cursor + d.length⟩
    input := d ++ (resize bufferSize b'.input).drop d.length
    gptr := 0
    egptr := d.length }
  have hlength : d.length = min bufferSize (s.written.length - s.cursor) := by
    rw [List.length_take, List.length_drop]
  have hfilled : InFile ⟨s.written, s.cursor + d.length⟩ b'' s := by
    have hle := s.cursor_le
    refine ⟨h'.inMemory, h'.closed, rfl, ?_, ?_, h'.output, h'.pptr, h'.epptr, rfl,
      Nat.zero_le _, ?_, ?_⟩
    · rw [← hcontent]
      exact h'.fileSize
    · show s.written = s.written ++ b'.output.take b'.pptr
      rw [hpptr, List.take_zero, List.append_nil]
    · show s.cursor + d.length ≤ s.written.length
      omega
    · show (d ++ _).take d.length = (s.written.drop s.cursor).take d.length
      rw [List.take_left]
      exact (List.take_eq_take_iff.2 (by rw [hlength, List.length_drop]; omega))
  have heq : b.underflow = if b''.gptr =
      b''.egptr then (b'', none) else (b'', some b''.current) := by
    unfold FileBuffer.underflow
    rw [if_neg (by rw [h.inMemory]; exact Bool.false_ne_true), hsync]
    dsimp only
    rw [h'.file, Option.getD_some, hcursor]
    unfold File.seek File.read
    dsimp only
    rw [hcontent]
  rw [heq]
  by_cases hnone : b''.gptr = b''.egptr
  · rw [if_pos hnone]
    refine ⟨_, ?_, hfilled, rfl, rfl, hlength⟩
    have hzero : d.length = 0 := hnone.symm
    have hbuffer : 0 < bufferSize := by decide
    exact (List.getElem?_eq_none (by omega)).symm
  · rw [if_neg hnone]
    exact ⟨_, hfilled.current (Nat.pos_of_ne_zero fun h => hnone h.symm), hfilled,
      rfl, rfl, hlength⟩

/-- The cursor is moved inside of the get area. -/
lemma InFile.bump (h : InFile f b s) (hn : n ≤ b.egptr) (hwritten : s'.written = s.written)
    (hcursor : s'.cursor = b.readOffset + n) : InFile f { b with gptr := n } s' := by
  refine ⟨h.inMemory, h.closed, h.file, h.fileSize, ?_, h.output, h.pptr, h.epptr, hcursor, hn,
    h.reach, h.input⟩
  rw [hwritten]
  exact h.written

lemma InFile.sgetc (h : InFile f b s) :
    ∃ f', b.sgetc.2 = s.written[s.cursor]? ∧ InFile f' b.sgetc.1 s ∧
      (s.cursor < s.written.length → b.sgetc.1.gptr < b.sgetc.1.egptr) := by
  unfold FileBuffer.sgetc
  by_cases hlt : b.gptr < b.egptr
  · rw [if_pos hlt]
    exact ⟨f, h.current hlt, h, fun _ => hlt⟩
  · rw [if_neg hlt]
    rcases h.underflow with ⟨f', hvalue, h', -, hgptr, hegptr⟩
    refine ⟨f', hvalue, h', fun hcursor => ?_⟩
    have hbuffer : 0 < bufferSize := by decide
    rw [hgptr, hegptr]
    omega

lemma InFile.sbumpc (h : InFile f b s) :
    ∃ f', b.sbumpc.2 = s.written[s.cursor]? ∧ InFile f' b.sbumpc.1 s.read := by
  rcases h.sgetc with ⟨f', hvalue, h', hlt⟩
  unfold FileBuffer.sbumpc Spool.read
  generalize b.sgetc = r at hvalue h' hlt ⊢
  rcases r with ⟨b', o⟩
  dsimp only at hvalue h' hlt
  subst hvalue
  by_cases hcursor : s.cursor < s.written.length
  · rw [dif_pos hcursor, List.getElem?_eq_getElem hcursor]
    refine ⟨f', rfl, h'.bump (hlt hcursor) rfl ?_⟩
    dsimp only
    rw [h'.cursor, Nat.add_assoc]
  · rw [dif_neg hcursor, List.getElem?_eq_none (Nat.le_of_not_lt hcursor)]
    exact ⟨f', rfl, h'⟩

/-- Half a buffer before the cursor is read again. -/
lemma InFile.pbackfail (h : InFile f b s) (hzero : b.gptr = 0) :
    ∃ f', b.pbackfail.2 = (if s.cursor = 0 then none else s.written[s.cursor - 1]?) ∧
      InFile f' b.pbackfail.1 s.unget := by
  have hcursor : s.cursor = b.readOffset := by rw [h.cursor, hzero, Nat.add_zero]
  have hle := s.cursor_le
  unfold FileBuffer.pbackfail
  rw [if_neg (by rw [h.inMemory]; exact Bool.false_ne_true), ← hcursor]
  by_cases hstart : s.cursor = 0
  · rw [if_pos hstart, if_pos hstart]
    have hunget : s.unget.cursor = s.cursor := by
      show s.cursor - 1 = s.cursor
      omega
    refine ⟨f, rfl, ?_⟩
    have hb : InFile f { b with gptr := b.gptr } s.unget :=
      h.bump h.gptr rfl (hunget.trans h.cursor)
    exact hb
  rw [if_neg hstart, if_neg hstart]
  dsimp only
  generalize hback : min (bufferSize / 2) s.cursor = back
  have hbuffer : bufferSize = 1024 := rfl
  have htarget : s.target (-back) .cur = ((s.cursor - back : ℕ) : ℤ) := by
    show (s.cursor : ℤ) + (-back) = _
    omega
  rcases h.seekoff (-back) .cur with ⟨f₁, hvalue, h₁, -⟩
  have hcursor₁ : (s.seek (-back) .cur).cursor = s.cursor - back := by
    unfold Spool.seek
    rw [dif_pos (by rw [htarget]; omega)]
    dsimp only
    rw [htarget, Int.toNat_natCast]
  have hwritten₁ : (s.seek (-back) .cur).written = s.written := by
    unfold Spool.seek
    split_ifs <;> rfl
  rw [htarget, if_pos (by omega)] at hvalue
  generalize b.seekoff (-back) .cur false = r at hvalue h₁ ⊢
  rcases r with ⟨b₁, n⟩
  dsimp only at hvalue h₁ ⊢
  rw [if_neg (by rw [hvalue]; omega)]
  rcases h₁.underflow with ⟨f₂, hvalue₂, h₂, hoffset, hgptr, hegptr⟩
  rw [hcursor₁, hwritten₁] at hegptr hvalue₂
  rw [List.getElem?_eq_getElem (by omega)] at hvalue₂
  generalize hr : b₁.underflow = r
  rw [hr] at hvalue₂ h₂ hoffset hgptr hegptr
  rcases r with ⟨b₂, o⟩
  dsimp only at hvalue₂ h₂ hoffset hgptr hegptr
  subst hvalue₂
  dsimp only
  have hlt : b₂.gptr + (back - 1) < b₂.egptr := by
    rw [hgptr, hegptr]
    omega
  have hunget : s.unget.cursor = b₂.readOffset + (b₂.gptr + (back - 1)) := by
    show s.cursor - 1 = _
    rw [hoffset, hcursor₁, hgptr]
    omega
  have hb : InFile f₂ { b₂ with gptr := b₂.gptr + (back - 1) } s.unget :=
    h₂.bump hlt.le hwritten₁.symm hunget
  exact ⟨f₂, hb.current hlt, hb⟩

lemma InFile.sungetc (h : InFile f b s) :
    ∃ f', b.sungetc.2 = (if s.cursor = 0 then none else s.written[s.cursor - 1]?) ∧
      InFile f' b.sungetc.1 s.unget := by
  unfold FileBuffer.sungetc
  by_cases hpos : 0 < b.gptr
  · have hcursor := h.cursor
    have hgptr := h.gptr
    have hlt : b.gptr - 1 < b.egptr := by omega
    have hunget : s.unget.cursor = b.readOffset + (b.gptr - 1) := by
      show s.cursor - 1 = _
      omega
    have hb : InFile f { b with gptr := b.gptr - 1 } s.unget := h.bump hlt.le rfl hunget
    rw [if_pos hpos, if_neg (by omega)]
    exact ⟨f, hb.current hlt, hb⟩
  · rw [if_neg hpos]
    exact h.pbackfail (by omega)

lemma InFile.put (h : InFile f b s) (hlt : b.pptr < bufferSize) (c : UInt8) :
    ∃ b', b.put c = .returns b' ∧ InFile f b' (s.write c) := by
  have hmemory : ¬ b.inMemory = true := by
    rw [h.inMemory]
    exact Bool.false_ne_true
  have hput : b.putArea = b.output := if_neg hmemory
  have hroom : b.pptr < b.output.length := by rwa [h.output]
  unfold FileBuffer.put
  rw [hput, if_pos hroom, if_neg hmemory]
  refine ⟨_, rfl, h.inMemory, h.closed, h.file, h.fileSize, ?_, ?_, hlt, h.epptr, h.cursor, h.gptr,
    h.reach, h.input⟩
  · show s.written ++ [c] = f.content ++ (b.output.set b.pptr c).take (b.pptr + 1)
    rw [take_set_append hroom, h.written, List.append_assoc]
  · show (b.output.set b.pptr c).length = bufferSize
    rw [List.length_set]
    exact h.output

lemma InFile.sputc (h : InFile f b s) (c : UInt8) :
    ∃ f' b', b.sputc c = .returns (b', true) ∧ InFile f' b' (s.write c) := by
  unfold FileBuffer.sputc
  by_cases hlt : b.pptr < b.epptr
  · rcases h.put (hlt.trans_eq h.epptr) c with ⟨b', hput, h'⟩
    rw [if_pos hlt, hput]
    exact ⟨f, b', rfl, h'⟩
  · rcases h.writeBuffer with ⟨f₁, b₁, hwrite, h₁, -, hpptr, -⟩
    have hroom : b₁.pptr < bufferSize := by
      rw [hpptr]
      decide
    rcases h₁.put hroom c with ⟨b', hput, h'⟩
    rw [if_neg hlt]
    unfold FileBuffer.overflow FileBuffer.makeRoom
    rw [if_neg (by rw [h.inMemory]; exact Bool.false_ne_true), hwrite]
    refine ⟨f₁, b', ?_, h'⟩
    rw [Outcome.returns_bind]
    dsimp only
    rw [if_pos rfl, hput]
    rfl

end InFile

section InMemory

variable {limit : ℕ} {b : FileBuffer} {s : Spool}

lemma InMemory.length_written (h : InMemory limit b s) : s.written.length = b.pptr := by
  rw [h.written, List.length_take, Nat.min_eq_left h.pptr]

/-- Everything is written to the file, and the cursor stays where it was. -/
lemma InMemory.toFile (h : InMemory limit b s) :
    ∃ f b', b.toFile = (b', true) ∧ InFile f b' s ∧ b'.pptr = 0 := by
  have hput : b.putArea = b.data := if_pos h.inMemory
  have hlength := h.length_written
  unfold FileBuffer.toFile FileBuffer.writeBuffer
  rw [if_neg (by rw [h.inMemory]; exact Bool.false_ne_true),
    if_neg (by rw [h.closed]; exact Bool.false_ne_true), h.file, hput, Option.getD_none]
  dsimp only
  rw [File.write_seekEnd, ← h.written]
  refine ⟨⟨[] ++ s.written, 0 + s.written.length⟩, _, rfl, ?_, rfl⟩
  refine ⟨rfl, h.closed, rfl, ?_, ?_, length_resize _ _, Nat.zero_le _, rfl, ?_,
    Nat.le_refl 0, ?_, rfl⟩
  · dsimp only
    rw [h.fileSize, List.nil_append, hlength, Nat.zero_add]
  · dsimp only
    rw [List.take_zero, List.append_nil, List.nil_append]
  · exact h.cursor
  · dsimp only
    rw [← h.cursor]
    exact s.cursor_le

lemma InMemory.current (h : InMemory limit b s) (hlt : b.gptr < b.pptr) :
    some b.current = s.written[s.cursor]? := by
  have harea : b.getArea = b.data := if_pos h.inMemory
  have hroom : b.gptr < b.data.length := hlt.trans_le h.pptr
  unfold FileBuffer.current
  rw [harea, h.written, h.cursor, List.getElem?_take_of_lt hlt, List.getD_eq_getElem?_getD,
    List.getElem?_eq_getElem hroom, Option.getD_some]

/-- The cursor is moved inside of the get area. -/
lemma InMemory.bump (h : InMemory limit b s) {m n : ℕ} (hn : n ≤ m) (hm : m ≤ b.pptr) {s' : Spool}
    (hwritten : s'.written = s.written) (hcursor : s'.cursor = n) :
    InMemory limit { b with gptr := n, egptr := m } s' := by
  refine ⟨h.limit_eq, h.inMemory, h.closed, h.file, h.fileSize, ?_, h.pptr, h.epptr,
    hcursor, hn, hm, h.room⟩
  rw [hwritten]
  exact h.written

lemma InMemory.seekoff (h : InMemory limit b s) (off : ℤ) (way : Way) :
    (b.seekoff off way false).2 = (if 0 ≤ s.target off way ∧ s.target off way ≤ s.written.length
        then s.target off way else -1) ∧
        InMemory limit (b.seekoff off way false).1 (s.seek off way) := by
  have hlength := h.length_written
  have htarget : way.place off b.gptr b.pptr = s.target off way := by
    unfold Spool.target
    rw [h.cursor, hlength]
  unfold FileBuffer.seekoff
  rw [if_neg Bool.false_ne_true, if_pos h.inMemory]
  dsimp only
  rw [htarget]
  unfold Spool.seek
  by_cases hin : 0 ≤ s.target off way ∧ s.target off way ≤ s.written.length
  · rw [if_neg (by omega), if_pos hin, dif_pos hin]
    have hle : (s.target off way).toNat ≤ b.pptr := by omega
    exact ⟨rfl, h.bump hle le_rfl rfl rfl⟩
  · rw [if_pos (by omega), if_neg hin, dif_neg hin]
    exact ⟨rfl, h⟩

lemma InMemory.sgetc (h : InMemory limit b s) :
    b.sgetc.2 = s.written[s.cursor]? ∧ InMemory limit b.sgetc.1 s ∧
      (s.cursor < s.written.length → b.sgetc.1.gptr < b.sgetc.1.egptr) := by
  have hlength := h.length_written
  have hcursor := h.cursor
  have hegptr := h.egptr
  unfold FileBuffer.sgetc
  by_cases hlt : b.gptr < b.egptr
  · rw [if_pos hlt]
    exact ⟨h.current (by omega), h, fun _ => hlt⟩
  have hb : InMemory limit { b with egptr := b.pptr } s :=
    h.bump (h.gptr.trans hegptr) le_rfl rfl hcursor
  rw [if_neg hlt]
  unfold FileBuffer.underflow
  rw [if_pos h.inMemory]
  dsimp only
  by_cases hend : b.gptr = b.pptr
  · rw [if_pos hend]
    exact ⟨(List.getElem?_eq_none (by omega)).symm, hb, fun hlt => absurd hlt (by omega)⟩
  · rw [if_neg hend]
    have hgptr := h.gptr
    have hlt : b.gptr < b.pptr := by omega
    exact ⟨hb.current hlt, hb, fun _ => hlt⟩

lemma InMemory.sbumpc (h : InMemory limit b s) :
    b.sbumpc.2 = s.written[s.cursor]? ∧ InMemory limit b.sbumpc.1 s.read := by
  rcases h.sgetc with ⟨hvalue, h', hlt⟩
  unfold FileBuffer.sbumpc Spool.read
  generalize b.sgetc = r at hvalue h' hlt ⊢
  rcases r with ⟨b', o⟩
  dsimp only at hvalue h' hlt
  subst hvalue
  by_cases hcursor : s.cursor < s.written.length
  · rw [dif_pos hcursor, List.getElem?_eq_getElem hcursor]
    exact ⟨rfl, h'.bump (hlt hcursor) h'.egptr rfl (by rw [← h'.cursor])⟩
  · rw [dif_neg hcursor, List.getElem?_eq_none (Nat.le_of_not_lt hcursor)]
    exact ⟨rfl, h'⟩

lemma InMemory.sungetc (h : InMemory limit b s) :
    b.sungetc.2 = (if s.cursor = 0 then none else s.written[s.cursor - 1]?) ∧
    InMemory limit b.sungetc.1 s.unget := by
  have hcursor := h.cursor
  have hgptr := h.gptr
  have hegptr := h.egptr
  unfold FileBuffer.sungetc
  by_cases hpos : 0 < b.gptr
  · have hb : InMemory limit { b with gptr := b.gptr - 1 } s.unget :=
      h.bump (by omega) hegptr rfl (by rw [← hcursor]; rfl)
    rw [if_pos hpos, if_neg (by omega)]
    exact ⟨hb.current (by show b.gptr - 1 < b.pptr; omega), hb⟩
  · have hunget : InMemory limit b s.unget := by
      have hsame : s.unget.cursor = b.gptr := by
        show s.cursor - 1 = b.gptr
        omega
      exact h.bump hgptr hegptr rfl hsame
    rw [if_neg hpos, if_pos (by omega)]
    unfold FileBuffer.pbackfail
    rw [if_pos h.inMemory]
    exact ⟨rfl, hunget⟩

lemma InMemory.put (h : InMemory limit b s) (hroom : b.pptr < b.data.length) (c : UInt8) :
    ∃ b', b.put c = .returns b' ∧ InMemory limit b' (s.write c) := by
  have hput : b.putArea = b.data := if_pos h.inMemory
  unfold FileBuffer.put
  rw [hput, if_pos hroom, if_pos h.inMemory]
  refine ⟨_, rfl, h.limit_eq, h.inMemory, h.closed, h.file, h.fileSize, ?_, ?_, ?_,
    h.cursor, h.gptr, Nat.le_succ_of_le h.egptr, ?_⟩
  · show s.written ++ [c] = (b.data.set b.pptr c).take (b.pptr + 1)
    rw [take_set_append hroom, h.written]
  · dsimp only
    rw [List.length_set]
    exact hroom
  · dsimp only
    rw [List.length_set]
    exact h.epptr
  · dsimp only
    rw [List.length_set]
    rcases h.room with hlimit | hnil | hroom'
    · exact .inl hlimit
    · rw [hnil] at hroom
      exact absurd hroom (Nat.not_lt_zero _)
    · exact .inr (.inr hroom')

/-- `pbump` goes over less than `2 ^ 31` octets. -/
lemma pbump_of_lt (hn : n < bumpable) (hzero : b.pptr = 0) :
    b.pbump n = .returns { b with pptr := n } := by
  have hmod : toInt n = n := by
    unfold bumpable at hn
    unfold toInt
    rw [if_pos (by omega), Nat.mod_eq_of_lt (by omega)]
  unfold pbump
  rw [hmod, hzero]
  dsimp only
  rw [if_neg (by omega), Int.natCast_zero, Int.zero_add, Int.toNat_natCast]

lemma pbump_bumpable (hzero : b.pptr = 0) : b.pbump bumpable = .undefined := by
  unfold pbump
  rw [hzero]
  rfl

/-- The length of the vector after it grows. -/
lemma InMemory.newSize (h : InMemory limit b s) (hlimit : b.data.length < limit)
    (hsize : b.data.length < bumpable) :
    b.data.length < b.newSize ∧ (limit ≤ bumpable ∨ ∃ k, 6 ≤ k ∧ k ≤ 31 ∧ b.newSize = 2 ^ k) := by
  unfold FileBuffer.newSize
  refine ⟨?_, ?_⟩
  · rw [h.limit_eq]
    split_ifs <;> omega
  · rw [h.limit_eq]
    rcases h.room with hle | hnil | ⟨k, hk, -, hlength⟩
    · exact .inl hle
    · by_cases hle : limit ≤ bumpable
      · exact .inl hle
      · refine .inr ⟨6, by omega, by omega, ?_⟩
        unfold bumpable at hle
        rw [hnil, List.length_nil, Nat.zero_mul, if_pos rfl]
        omega
    · by_cases hle : limit ≤ bumpable
      · exact .inl hle
      · rw [hlength] at hsize ⊢
        have hk' : k < 31 := (Nat.pow_lt_pow_iff_right (by omega : 1 < 2)).1 hsize
        have hpos : 0 < 2 ^ k := Nat.two_pow_pos k
        have hpow : 2 ^ k * 2 ≤ bumpable := by
          rw [← Nat.pow_succ]
          exact Nat.pow_le_pow_right (by omega) hk'
        refine .inr ⟨k + 1, by omega, hk', ?_⟩
        rw [if_neg (by omega), Nat.pow_succ]
        omega

lemma InMemory.grow (h : InMemory limit b s) (hfull : b.pptr = b.data.length)
    (hlimit : b.pptr < limit) (hsize : b.pptr < bumpable) :
    ∃ b', b.grow = .returns b' ∧ InMemory limit b' s ∧ b'.pptr < b'.data.length := by
  rcases h.newSize (hfull ▸ hlimit) (hfull ▸ hsize) with ⟨hlt, hroom⟩
  generalize hn : b.newSize = n at hlt hroom
  have htake : (resize n b.data).take b.pptr = s.written := by
    unfold resize
    rw [List.take_of_length_le hlt.le, hfull, List.take_left, h.written, hfull, List.take_length]
  unfold FileBuffer.grow
  rw [hn, pbump_of_lt hsize rfl, Outcome.returns_bind]
  refine ⟨_, rfl,
    ⟨h.limit_eq, h.inMemory, h.closed, h.file, h.fileSize, htake.symm, ?_, ?_, h.cursor,
      h.gptr.trans h.egptr, le_rfl, ?_⟩, ?_⟩
  · show b.pptr ≤ (resize n b.data).length
    rw [length_resize]
    omega
  · exact (length_resize n b.data).symm
  · show limit ≤ bumpable ∨ resize n b.data = [] ∨ ∃ k, 6 ≤ k ∧ k ≤ 31 ∧
      (resize n b.data).length = 2 ^ k
    rw [length_resize]
    exact hroom.imp_right .inr
  · show b.pptr < (resize n b.data).length
    rw [length_resize]
    omega

/-- A write in memory.  Up to the limit of `pbump` it stays there, unless the limit of the buffer is
smaller. -/
lemma InMemory.sputc (h : InMemory limit b s)
    (hsize : limit ≤ bumpable ∨ s.written.length < bumpable) (c : UInt8) :
    ∃ b', b.sputc c = .returns (b', true) ∧
      (InMemory limit b' (s.write c) ∨ limit ≤ bumpable ∧ ∃ f, InFile f b' (s.write c)) := by
  have hlength := h.length_written
  have hepptr := h.epptr
  have hpptr := h.pptr
  unfold FileBuffer.sputc
  by_cases hlt : b.pptr < b.epptr
  · rcases h.put (by omega) c with ⟨b', hput, h'⟩
    rw [if_pos hlt, hput]
    exact ⟨b', rfl, .inl h'⟩
  rw [if_neg hlt]
  unfold FileBuffer.overflow FileBuffer.makeRoom
  rw [if_pos h.inMemory, h.limit_eq]
  by_cases hlimit : limit ≤ b.pptr
  · rcases h.toFile with ⟨f, b₁, htoFile, h₁, hzero⟩
    rcases h₁.put (by rw [hzero]; decide) c with ⟨b', hput, h'⟩
    rw [if_pos hlimit, htoFile, Outcome.returns_bind]
    dsimp only
    rw [if_pos rfl, hput]
    exact ⟨b', rfl, .inr ⟨by omega, f, h'⟩⟩
  · rcases h.grow (by omega) (by omega) (by omega) with ⟨b₁, hgrow, h₁, hroom⟩
    rcases h₁.put hroom c with ⟨b', hput, h'⟩
    rw [if_neg hlimit, hgrow]
    refine ⟨b', ?_, .inl h'⟩
    rw [Outcome.returns_bind, Outcome.pure_eq, Outcome.returns_bind]
    dsimp only
    rw [if_pos rfl, hput]
    rfl

/-- The vector is full of `2 ^ 31` octets, and has to grow. -/
lemma InMemory.sputc_undefined (h : InMemory limit b s) (hlimit : bumpable < limit)
    (hsize : bumpable ≤ s.written.length) (c : UInt8) : b.sputc c = .undefined := by
  have hlength := h.length_written
  have hepptr := h.epptr
  have hpptr := h.pptr
  have hdata : b.data.length ≤ bumpable := by
    rcases h.room with hle | hnil | ⟨k, -, hk, hk'⟩
    · omega
    · rw [hnil]
      exact Nat.zero_le _
    · rw [hk']
      exact Nat.pow_le_pow_right (by omega) hk
  have hfull : b.pptr = bumpable := by omega
  unfold FileBuffer.sputc FileBuffer.overflow FileBuffer.makeRoom FileBuffer.grow
  rw [if_neg (by omega), if_pos h.inMemory, h.limit_eq, if_neg (by omega)]
  rw [hfull, pbump_bumpable rfl]
  rfl

end InMemory

/-! ## Runs -/

/-- An operation in the file. -/
lemma InFile.step {f : File} {b : FileBuffer} {s : Spool} (h : InFile f b s) (op : Op) :
    ∃ f' b', b.step op = .returns (b', (s.step op).2) ∧ InFile f' b' (s.step op).1 := by
  cases op with
  | write c =>
    rcases h.sputc c with ⟨f', b', hput, h'⟩
    refine ⟨f', b', ?_, h'⟩
    rw [FileBuffer.step, hput]
    rfl
  | read =>
    rcases h.sbumpc with ⟨f', hvalue, h'⟩
    refine ⟨f', _, ?_, h'⟩
    rw [FileBuffer.step, hvalue]
    rfl
  | peek =>
    rcases h.sgetc with ⟨f', hvalue, h', -⟩
    refine ⟨f', _, ?_, h'⟩
    rw [FileBuffer.step, hvalue]
    rfl
  | unget =>
    rcases h.sungetc with ⟨f', hvalue, h'⟩
    refine ⟨f', _, ?_, h'⟩
    rw [FileBuffer.step, hvalue]
    rfl
  | seek off way =>
    rcases h.seekoff off way with ⟨f', hvalue, h', -⟩
    refine ⟨f', _, ?_, h'⟩
    rw [FileBuffer.step, hvalue]
    rfl
  | tellp =>
    refine ⟨f, b, ?_, h⟩
    rw [Spool.step, ← h.size_eq]
    rfl
  | sync =>
    rcases h.sync with ⟨f', b', hsync, h', -⟩
    refine ⟨f', b', ?_, h'⟩
    rw [FileBuffer.step, hsync]
    rfl
  | toFile =>
    refine ⟨f, b, ?_, h⟩
    rw [FileBuffer.step, FileBuffer.toFile, h.inMemory]
    rfl
  | size =>
    refine ⟨f, b, ?_, h⟩
    rw [Spool.step, ← h.size_eq]
    rfl

/-- An operation in memory that leaves the octets there. -/
lemma InMemory.step {limit : ℕ} {b : FileBuffer} {s : Spool} (h : InMemory limit b s) {op : Op}
    (hwrite : ∀ c, op ≠ .write c) (htoFile : op ≠ .toFile) :
    ∃ b', b.step op = .returns (b', (s.step op).2) ∧ InMemory limit b' (s.step op).1 := by
  have hsize : b.size = s.written.length := by
    unfold FileBuffer.size
    rw [h.fileSize, Nat.zero_add, h.length_written]
  cases op with
  | write c => exact absurd rfl (hwrite c)
  | read =>
    refine ⟨_, ?_, h.sbumpc.2⟩
    rw [FileBuffer.step, h.sbumpc.1]
    rfl
  | peek =>
    refine ⟨_, ?_, h.sgetc.2.1⟩
    rw [FileBuffer.step, h.sgetc.1]
    rfl
  | unget =>
    refine ⟨_, ?_, h.sungetc.2⟩
    rw [FileBuffer.step, h.sungetc.1]
    rfl
  | seek off way =>
    refine ⟨_, ?_, (h.seekoff off way).2⟩
    rw [FileBuffer.step, (h.seekoff off way).1]
    rfl
  | tellp =>
    refine ⟨b, ?_, h⟩
    rw [Spool.step, ← hsize]
    rfl
  | sync =>
    refine ⟨b, ?_, h⟩
    rw [FileBuffer.step, FileBuffer.sync, if_pos h.inMemory]
    rfl
  | toFile => exact absurd rfl htoFile
  | size =>
    refine ⟨b, ?_, h⟩
    rw [Spool.step, ← hsize]
    rfl

lemma init_inMemory (limit : ℕ) : InMemory limit (init limit) .empty :=
  ⟨rfl, rfl, rfl, rfl, rfl, rfl, le_rfl, rfl, rfl, le_rfl, le_rfl, .inr (.inl rfl)⟩

lemma run_cons_of_step {b b' : FileBuffer} (ops : List Op)
    (hstep : b.step op = .returns (b', (s.step op).2))
    (hrun : b'.run ops = .returns ((s.step op).1.run ops)) :
    b.run (op :: ops) = .returns (s.run (op :: ops)) := by
  rw [FileBuffer.run, hstep, Outcome.returns_bind]
  dsimp only
  rw [hrun]
  rfl

lemma InFile.run {f : File} (h : InFile f b s) (ops : List Op) :
    b.run ops = .returns (s.run ops) := by
  induction ops generalizing f b s with
  | nil => rfl
  | cons op ops ih =>
    rcases h.step op with ⟨f', b', hstep, h'⟩
    exact run_cons_of_step ops hstep (ih h')

/-- How many octets are written before the buffer is told to move to the file. -/
def writesInMemory : List Op → ℕ
  | [] => 0
  | .toFile :: _ => 0
  | .write _ :: ops => writesInMemory ops + 1
  | _ :: ops => writesInMemory ops

lemma writesInMemory_cons (hwrite : ∀ c, op ≠ .write c) (htoFile : op ≠ .toFile) (ops : List Op) :
    writesInMemory (op :: ops) = writesInMemory ops := by
  cases op with
  | write c => exact absurd rfl (hwrite c)
  | toFile => exact absurd rfl htoFile
  | _ => rfl

lemma writesInMemory_replicate (n : ℕ) (c : UInt8) :
    writesInMemory (List.replicate n (.write c)) = n := by
  induction n with
  | zero => rfl
  | succ n ih => rw [List.replicate_succ, writesInMemory, ih]

/-- Neither a write nor a move. -/
lemma op_cases (op : Op) :
    (∃ c, op = .write c) ∨ op = .toFile ∨ (∀ c, op ≠ .write c) ∧ op ≠ .toFile := by
  cases op with
  | write c => exact .inl ⟨c, rfl⟩
  | toFile => exact .inr (.inl rfl)
  | _ =>
    refine .inr (.inr ⟨?_, ?_⟩)
    · intro c h
      cases h
    · intro h
      cases h

lemma InMemory.step_toFile (h : InMemory limit b s) :
    ∃ f b', b.step .toFile = .returns (b', (s.step .toFile).2) ∧
    InFile f b' (s.step .toFile).1 := by
  rcases h.toFile with ⟨f, b', htoFile, h', -⟩
  refine ⟨f, b', ?_, h'⟩
  rw [FileBuffer.step, htoFile]
  rfl

lemma InMemory.step_write (h : InMemory limit b s)
    (hsize : limit ≤ bumpable ∨ s.written.length < bumpable) (c : UInt8) :
    ∃ b', b.step (.write c) = .returns (b', (s.step (.write c)).2) ∧
      (InMemory limit b' (s.step (.write c)).1 ∨ limit ≤ bumpable ∧
        ∃ f, InFile f b' (s.step (.write c)).1) := by
  rcases h.sputc hsize c with ⟨b', hput, h'⟩
  refine ⟨b', ?_, h'⟩
  rw [FileBuffer.step, hput]
  rfl

lemma InMemory.run (h : InMemory limit b s) (ops : List Op)
    (hsize : limit ≤ bumpable ∨ s.written.length + writesInMemory ops ≤ bumpable) :
    b.run ops = .returns (s.run ops) := by
  induction ops generalizing b s with
  | nil => rfl
  | cons op ops ih =>
    rcases op_cases op with ⟨c, rfl⟩ | rfl | ⟨hwrite, htoFile⟩
    · have hlength : (s.step (.write c)).1.written.length = s.written.length + 1 :=
        List.length_append.trans (congrArg _ (List.length_singleton))
      rw [writesInMemory] at hsize
      rcases h.step_write (hsize.imp_right fun h => by omega) c with ⟨b', hstep, h' | ⟨-, f, h'⟩⟩
      · apply run_cons_of_step ops hstep (ih h' _)
        rw [hlength]
        exact hsize.imp_right fun h => by omega
      · exact run_cons_of_step ops hstep (h'.run ops)
    · rcases h.step_toFile with ⟨f, b', hstep, h'⟩
      exact run_cons_of_step ops hstep (h'.run ops)
    · rw [writesInMemory_cons hwrite htoFile] at hsize
      rcases h.step hwrite htoFile with ⟨b', hstep, h'⟩
      apply run_cons_of_step ops hstep (ih h' _)
      rw [Spool.written_step hwrite]
      exact hsize

/-- The run goes over the limit of `pbump`. -/
lemma InMemory.run_undefined (h : InMemory limit b s) (ops : List Op) (hlimit : bumpable < limit)
    (hle : s.written.length ≤ bumpable) (hsize : bumpable < s.written.length + writesInMemory ops) :
    b.run ops = .undefined := by
  induction ops generalizing b s with
  | nil =>
    rw [writesInMemory] at hsize
    omega
  | cons op ops ih =>
    rw [FileBuffer.run]
    rcases op_cases op with ⟨c, rfl⟩ | rfl | ⟨hwrite, htoFile⟩
    · rw [writesInMemory] at hsize
      by_cases hfull : s.written.length = bumpable
      · rw [FileBuffer.step, h.sputc_undefined hlimit (by omega) c]
        rfl
      · have hlength : (s.step (.write c)).1.written.length = s.written.length + 1 :=
          List.length_append.trans (congrArg _ (List.length_singleton))
        rcases h.step_write (.inr (by omega)) c with ⟨b', hstep, h' | ⟨hsmall, -⟩⟩
        · rw [hstep, Outcome.returns_bind]
          dsimp only
          rw [ih h' (by omega) (by omega)]
          rfl
        · omega
    · rw [writesInMemory] at hsize
      omega
    · rw [writesInMemory_cons hwrite htoFile] at hsize
      rcases h.step hwrite htoFile with ⟨b', hstep, h'⟩
      have hwritten := Spool.written_step hwrite s
      rw [hstep, Outcome.returns_bind]
      dsimp only
      rw [ih h' (by rw [hwritten]; exact hle) (by rw [hwritten]; exact hsize)]
      rfl

/-- The caller sees the octets that were written and a cursor in them, wherever they are kept, if no
more than `2 ^ 31` of them get into the memory. -/
theorem run_transparent (limit : ℕ) (ops : List Op) :
    (init limit).run ops = .returns (Spool.empty.run ops) ↔
    limit ≤ 2 ^ 31 ∨ writesInMemory ops ≤ 2 ^ 31 := by
  have hinit := init_inMemory limit
  have hempty : Spool.empty.written.length = 0 := rfl
  constructor
  · intro hrun
    by_contra hnot
    have hlimit : bumpable < limit := by
      unfold bumpable
      omega
    have hsize : bumpable < Spool.empty.written.length + writesInMemory ops := by
      unfold bumpable
      omega
    rw [hinit.run_undefined ops hlimit (Nat.zero_le _) hsize] at hrun
    cases hrun
  · intro h
    apply hinit.run ops
    rw [hempty, Nat.zero_add]
    exact h

/-- Three gigabytes may be kept in memory, but `2 ^ 31 + 1` octets cannot be written to it. -/
theorem run_three_gigabytes :
    ¬ (init (3 * 2 ^ 30)).run (List.replicate (2 ^ 31 + 1) (.write 0)) =
      .returns (Spool.empty.run (List.replicate (2 ^ 31 + 1) (.write 0))) := by
  generalize hops : List.replicate (2 ^ 31 + 1) (Op.write 0) = ops
  have hsize : bumpable < Spool.empty.written.length + writesInMemory ops := by
    rw [← hops, writesInMemory_replicate]
    decide
  intro hrun
  rw [(init_inMemory _).run_undefined ops (by decide) (Nat.zero_le _) hsize] at hrun
  cases hrun

-- octets that were written on both sides of the limit
example :
    (init 1).run [.write 1, .read, .write 2, .write 3, .read, .unget, .seek 0 .end_, .read, .size] =
    .returns [.done true, .octet (some 1), .done true, .done true, .octet (some 2),
      .octet (some 2), .offset 3, .octet none, .offset 3] := by
  decide +kernel

end FileBuffer

end Http

end Cppcms
