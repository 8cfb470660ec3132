import Cppcms.Base.Bytes
import Cppcms.Library.LittleEndian

/-!
# The files of the sessions

`write_all` and `read_all` of `session_posix_file_storage.cpp` against system calls that move a part
of what they are asked for or are interrupted, and the files that `save_to_file` and
`read_from_file` make of a session.  The loops count what is left but do not move the buffer, so
every transfer starts at its front.
-/

namespace Cppcms

namespace Session

/-! ## Files and system calls -/

/-- An open file: the octets before the offset and the ones from there on. -/
structure File where
  before : Bytes
  after : Bytes
  deriving DecidableEq, Repr

namespace File

/-- `lseek(fd,0,SEEK_SET)`, or a new descriptor of the file. -/
def rewind (f : File) : File := ⟨[], f.before ++ f.after⟩

def write (f : File) (p : Bytes) : File := ⟨f.before ++ p, f.after.drop p.length⟩

def read (f : File) (n : ℕ) : File := ⟨f.before ++ f.after.take n, f.after.drop n⟩

end File

/-- What a call of `read` or `write` does: `EINTR`, another error, or it moves at most so many
octets. -/
inductive SysCall where
  | interrupted
  | failed
  | moved (k : ℕ)
  deriving DecidableEq, Repr

/-! ## The loops -/

/-- `write_all(fd,buf,n)`, as far as the system calls of the schedule go. -/
def writeAll (buf : Bytes) : List SysCall → ℤ → File → Option (Bool × File)
  | [], n, f => if n > 0 then none else some (true, f)
  | s :: later, n, f =>
    if n > 0 then
      match s with
      | .interrupted => writeAll buf later n f
      | .failed => some (false, f)
      | .moved k =>
        if min k n.toNat = 0 then some (false, f)
        else writeAll buf later (n - min k n.toNat) (f.write (buf.take (min k n.toNat)))
    else some (true, f)

/-- The buffer after `read` has put some octets at its front. -/
def fill (buf p : Bytes) : Bytes := p ++ buf.drop p.length

/-- `read_all(fd,buf,n)`, with the buffer that it leaves. -/
def readAll : List SysCall → Bytes → ℤ → File → Option (Bool × Bytes × File)
  | [], buf, n, f => if n > 0 then none else some (true, buf, f)
  | s :: later, buf, n, f =>
    if n > 0 then
      match s with
      | .interrupted => readAll later buf n f
      | .failed => some (false, buf, f)
      | .moved k =>
        if min k (min n.toNat f.after.length) = 0 then some (false, buf, f)
        else readAll later (fill buf (f.after.take (min k (min n.toNat f.after.length))))
          (n - min k (min n.toNat f.after.length)) (f.read (min k (min n.toNat f.after.length)))
    else some (true, buf, f)

/-! ## Transfers -/

/-- The transfers of a loop that ends well: how many octets were moved before, and how many are
moved.  `left` is what the loop asks for and `avail` what there is. -/
def transfers : List SysCall → ℕ → ℕ → ℕ → Option (List (ℕ × ℕ))
  | [], _, left, _ => if left > 0 then none else some []
  | s :: later, moved, left, avail =>
    if left > 0 then
      match s with
      | .interrupted => transfers later moved left avail
      | .failed => none
      | .moved k =>
        if min k (min left avail) = 0 then none
        else (transfers later (moved + min k (min left avail)) (left - min k (min left avail))
          (avail - min k (min left avail))).map ((moved, min k (min left avail)) :: ·)
    else some []

/-- The number of calls that are not interrupted. -/
def answered (schedule : List SysCall) : ℕ := (schedule.filter (· ≠ .interrupted)).length

/-- `write_all` comes to an end, and what it writes with success are the octets of the buffer. -/
def WritesAll (schedule : List SysCall) (buf : Bytes) (f : File) : Prop :=
  (buf.length ≤ answered schedule → (writeAll buf schedule buf.length f).isSome) ∧
    ∀ f', writeAll buf schedule buf.length f = some (true, f') → f' = f.write buf

/-- `read_all` comes to an end, and with success the buffer has the next octets of the file. -/
def ReadsAll (schedule : List SysCall) (buf : Bytes) (f : File) : Prop :=
  (buf.length ≤ answered schedule → (readAll schedule buf buf.length f).isSome) ∧
    ∀ buf' f', readAll schedule buf buf.length f = some (true, buf', f') →
      buf.length ≤ f.after.length ∧ buf' = f.after.take buf.length ∧ f' = f.read buf.length

/-- Every transfer of a write that ends well finds its octets also at the front of the buffer.  It
is so where everything is moved at once. -/
def Repeats (schedule : List SysCall) (buf : Bytes) : Prop :=
  ∀ ts, transfers schedule 0 buf.length buf.length = some ts →
    ∀ t ∈ ts, (buf.drop t.1).take t.2 = buf.take t.2

/-- Where the last transfer that is longer than `j` starts. -/
def lastOver (ts : List (ℕ × ℕ)) (j : ℕ) : Option ℕ :=
  ts.foldl (fun found t => if j < t.2 then some t.1 else found) none

/-- At every place of the buffer the last transfer that reaches it brings the octet that belongs
there, and a place that no transfer reaches has it before.  It is so where everything is moved at
once. -/
def Settles (schedule : List SysCall) (buf incoming : Bytes) : Prop :=
  ∀ ts, transfers schedule 0 buf.length incoming.length = some ts → ∀ j < buf.length,
    (match lastOver ts j with
      | some k => incoming[k + j]?
      | none => buf[j]?) = incoming[j]?

/-- A loop that reads `n` octets ends well, so that what comes behind it is reached. -/
def Reaches (schedule : List SysCall) (n : ℕ) (incoming : Bytes) : Prop :=
  (transfers schedule 0 n incoming.length).isSome = true

/-! ## Sessions -/

/-- The schedules of the two writes of `save_to_file`. -/
structure SaveSchedule where
  header : List SysCall
  data : List SysCall

/-- The schedules of the four reads of `read_from_file`. -/
structure LoadSchedule where
  timeout : List SysCall
  crc : List SysCall
  size : List SysCall
  data : List SysCall

/-- What is in the variables of `read_from_file` before they are read. -/
structure Locals where
  timeout : Bytes
  crc : Bytes
  size : Bytes
  length_timeout : timeout.length = 8
  length_crc : crc.length = 4
  length_size : size.length = 4

/-- A size as an argument of type `int`. -/
def intOf (n : ℕ) : ℤ := (n : ℤ).bmod (2 ^ 32)

section Sessions

-- `crc32_calc`
variable (checksum : Bytes → UInt32)

/-- The structure that `save_to_file` writes first. -/
def fileHeader (timeout : Int64) (data : Bytes) : Bytes :=
  littleEndianInt 8 timeout.toInt ++ littleEndian 4 (checksum data).toNat ++
    littleEndian 4 data.length

/-- `save_to_file`; `false` is for its exception. -/
def saveToFile (s : SaveSchedule) (timeout : Int64) (data : Bytes) (f : File) :
    Option (Bool × File) :=
  match writeAll (fileHeader checksum timeout data) s.header 16 f with
  | none => none
  | some (false, f) => some (false, f)
  | some (true, f) => writeAll data s.data (intOf data.length) f

/-- The end of `read_from_file`, with what was read of the header. -/
def readData (s : List SysCall) (timeout : ℤ) (crc size : ℕ) (f : File) :
    Option (Option (ℤ × Bytes)) :=
  if size > 0 then
    match readAll s (List.replicate size 0) (intOf size) f with
    | none => none
    | some (false, _, _) => some none
    | some (true, data, _) =>
        if crc ≠ (checksum data).toNat then some none else some (some (timeout, data))
  else if crc ≠ (checksum []).toNat then some none else some (some (timeout, []))

/-- `read_from_file`; the inner `none` is for the result `false`. -/
def readFromFile (s : LoadSchedule) (locals : Locals) (now : ℤ) (f : File) :
    Option (Option (ℤ × Bytes)) :=
  match readAll s.timeout locals.timeout 8 f.rewind with
  | none => none
  | some (false, _, _) => some none
  | some (true, timeout, f) =>
    if fromLittleEndianInt timeout < now then some none
    else match readAll s.crc locals.crc 4 f with
      | none => none
      | some (false, _, _) => some none
      | some (true, crc, f) =>
        match readAll s.size locals.size 4 f with
        | none => none
        | some (false, _, _) => some none
        | some (true, size, f) =>
          readData checksum s.data (fromLittleEndianInt timeout) (fromLittleEndian crc)
            (fromLittleEndian size) f

/-- The data can be counted in an `int`, and every transfer of the save, and of a part of the load
that is reached, brings what it should. -/
structure Undisturbed (s : SaveSchedule) (l : LoadSchedule) (locals : Locals) (timeout : Int64)
    (data : Bytes) (content : Bytes) : Prop where
  length_lt : data.length < 2 ^ 31
  repeats_header : Repeats s.header (fileHeader checksum timeout data)
  repeats_data : Repeats s.data data
  settles_timeout : Settles l.timeout locals.timeout content
  settles_crc : Reaches l.timeout 8 content → Settles l.crc locals.crc (content.drop 8)
  settles_size : Reaches l.timeout 8 content → Reaches l.crc 4 (content.drop 8) →
    Settles l.size locals.size (content.drop 12)
  settles_data : Reaches l.timeout 8 content → Reaches l.crc 4 (content.drop 8) →
    Reaches l.size 4 (content.drop 12) →
    Settles l.data (List.replicate data.length 0) (content.drop 16)

end Sessions

/-! ## Tilings -/

/-- Transfers one after another that move everything. -/
inductive Tiles : ℕ → ℕ → List (ℕ × ℕ) → Prop where
  | done (moved : ℕ) : Tiles moved 0 []
  | step {moved left r : ℕ} {ts : List (ℕ × ℕ)} (hpos : 0 < r) (hle : r ≤ left)
      (rest : Tiles (moved + r) (left - r) ts) : Tiles moved left ((moved, r) :: ts)

section Lemmas

variable {moved left avail n : ℕ} {ts : List (ℕ × ℕ)} {buf incoming : Bytes}

lemma tiles_of_transfers (schedule : List SysCall)
    (h : transfers schedule moved left avail = some ts) :
    Tiles moved left ts ∧ (left = 0 ∨ left ≤ avail) := by
  induction schedule generalizing moved left avail ts with
  | nil =>
    unfold transfers at h
    split_ifs at h with hpos
    obtain rfl : left = 0 := by omega
    obtain rfl := Option.some.inj h
    exact ⟨.done moved, .inl rfl⟩
  | cons s later ih =>
    unfold transfers at h
    by_cases hpos : left > 0
    · rw [if_pos hpos] at h
      cases s with
      | interrupted => exact ih h
      | failed => exact absurd h (by simp)
      | moved k =>
        by_cases hzero : min k (min left avail) = 0
        · exact absurd h (by simp [hzero])
        · simp only [if_neg hzero] at h
          obtain ⟨rest, hrest, rfl⟩ := Option.map_eq_some_iff.mp h
          obtain ⟨htiles, havail⟩ := ih hrest
          exact ⟨.step (by omega) (by omega) htiles, by omega⟩
    · obtain rfl : left = 0 := by omega
      rw [if_neg hpos] at h
      obtain rfl := Option.some.inj h
      exact ⟨.done moved, .inl rfl⟩

/-- Pieces of the front are the pieces of the buffer exactly if each of them is. -/
lemma flatten_take_eq_iff (htiles : Tiles moved left ts) (hlen : moved + left = buf.length) :
    (ts.map fun t => buf.take t.2).flatten = buf.drop moved ↔
      ∀ t ∈ ts, (buf.drop t.1).take t.2 = buf.take t.2 := by
  induction htiles with
  | done moved =>
    have hdrop : buf.drop moved = [] := List.drop_eq_nil_of_le (by omega)
    exact iff_of_true hdrop.symm (by simp)
  | @step moved left r ts hpos hle rest ih =>
    have hsplit : buf.drop moved = (buf.drop moved).take r ++ buf.drop (moved + r) := by
      rw [← List.drop_drop, List.take_append_drop]
    have hsame : (buf.take r).length = ((buf.drop moved).take r).length := by
      rw [List.length_take, List.length_take, List.length_drop]
      omega
    rw [List.map_cons, List.flatten_cons, hsplit, List.forall_mem_cons, ← ih (by omega)]
    constructor
    · intro h
      obtain ⟨hfront, hrest⟩ := List.append_inj h hsame
      exact ⟨hfront.symm, hrest⟩
    · rintro ⟨hfront, hrest⟩
      rw [hrest, hfront]

/-! ## Writing -/

@[simp] lemma File.write_nil (f : File) : f.write [] = f := by
  unfold File.write
  rw [List.append_nil, List.length_nil, List.drop_zero]

lemma File.write_write (f : File) (p q : Bytes) : (f.write p).write q = f.write (p ++ q) := by
  unfold File.write
  rw [List.append_assoc, List.drop_drop, List.length_append]

variable {f : File}

lemma File.write_injective {p q : Bytes} (h : f.write p = f.write q) : p = q :=
  List.append_cancel_left (congrArg File.before h)

/-- A write ends well exactly if its transfers do, and what it leaves are the fronts of the buffer.
-/
lemma writeAll_eq_some_iff (schedule : List SysCall) (moved : ℕ) (f f' : File) :
    writeAll buf schedule left f = some (true, f') ↔
    ∃ ts, transfers schedule moved left left = some ts ∧
      f' = f.write (ts.map fun t => buf.take t.2).flatten := by
  induction schedule generalizing moved left f with
  | nil =>
    unfold writeAll transfers
    by_cases hpos : left > 0
    · have hint : (left : ℤ) > 0 := by omega
      simp [hpos]
    · have hint : ¬ (left : ℤ) > 0 := by omega
      simp [hpos, eq_comm]
  | cons s later ih =>
    unfold writeAll transfers
    by_cases hpos : left > 0
    · have hint : (left : ℤ) > 0 := by omega
      rw [if_pos hpos, if_pos hint]
      cases s with
      | interrupted => exact ih moved f
      | failed => simp
      | moved k =>
        have hmin : min k (min left left) = min k (left : ℤ).toNat := by
          rw [min_self, Int.toNat_natCast]
        simp only [hmin]
        rw [Int.toNat_natCast]
        by_cases hzero : min k left = 0
        · rw [if_pos hzero, if_pos hzero]
          simp
        · have hleft : (left : ℤ) - ((min k left : ℕ) : ℤ) = ((left - min k left : ℕ) : ℤ) := by
            omega
          rw [if_neg hzero, if_neg hzero, hleft, ih (moved + min k left)]
          constructor
          · rintro ⟨ts, hts, rfl⟩
            refine ⟨(moved, min k left) :: ts, by rw [hts]; rfl, ?_⟩
            rw [File.write_write, List.map_cons, List.flatten_cons]
          · rintro ⟨ts', hts', rfl⟩
            obtain ⟨ts, hts, rfl⟩ := Option.map_eq_some_iff.mp hts'
            refine ⟨ts, hts, ?_⟩
            rw [File.write_write, List.map_cons, List.flatten_cons]
    · have hint : ¬ (left : ℤ) > 0 := by omega
      rw [if_neg hpos, if_neg hint]
      simp [eq_comm]

/-- Every call that is not interrupted brings the write nearer to its end. -/
lemma writeAll_isSome (schedule : List SysCall) (f : File) (h : left ≤ answered schedule) :
    (writeAll buf schedule left f).isSome := by
  induction schedule generalizing left f with
  | nil =>
    have hint : ¬ (left : ℤ) > 0 := by
      have hzero : left ≤ 0 := h
      omega
    unfold writeAll
    rw [if_neg hint]
    rfl
  | cons s later ih =>
    unfold writeAll
    by_cases hint : (left : ℤ) > 0
    · rw [if_pos hint]
      cases s with
      | interrupted => exact ih f h
      | failed => rfl
      | moved k =>
        by_cases hzero : min k (left : ℤ).toNat = 0
        · simp only [if_pos hzero]
          rfl
        · have hcount : left ≤ answered later + 1 := h
          have hleft : (left : ℤ) - ((min k (left : ℤ).toNat : ℕ) : ℤ) =
              ((left - min k left : ℕ) : ℤ) := by
            rw [Int.toNat_natCast]
            omega
          have hmin : min k (left : ℤ).toNat = min k left := by rw [Int.toNat_natCast]
          simp only [if_neg hzero]
          rw [hleft]
          exact ih _ (by omega)
    · rw [if_neg hint]
      rfl

/-- What `write_all` writes with success are the octets of the buffer exactly if every transfer
finds its octets also at the front. -/
theorem writesAll_iff (schedule : List SysCall) (buf : Bytes) (f : File) :
    WritesAll schedule buf f ↔ Repeats schedule buf := by
  have hflatten : ∀ {ts}, transfers schedule 0 buf.length buf.length = some ts →
      ((ts.map fun t => buf.take t.2).flatten = buf ↔
        ∀ t ∈ ts, (buf.drop t.1).take t.2 = buf.take t.2) :=
    fun hts => flatten_take_eq_iff (tiles_of_transfers schedule hts).1 (Nat.zero_add _)
  constructor
  · rintro ⟨-, hwrites⟩ ts hts
    have hsame := hwrites _ ((writeAll_eq_some_iff schedule 0 f _).mpr ⟨ts, hts, rfl⟩)
    exact (hflatten hts).mp (File.write_injective hsame)
  · intro hrepeats
    refine ⟨writeAll_isSome schedule f, fun f' hf' => ?_⟩
    obtain ⟨ts, hts, rfl⟩ := (writeAll_eq_some_iff schedule 0 f f').mp hf'
    rw [(hflatten hts).mpr (hrepeats ts hts)]

/-! ## Reading -/

@[simp] lemma File.read_zero (f : File) : f.read 0 = f := by
  unfold File.read
  rw [List.take_zero, List.append_nil, List.drop_zero]

lemma File.read_read (f : File) (m n : ℕ) : (f.read m).read n = f.read (m + n) := by
  unfold File.read
  rw [List.append_assoc, ← List.take_add, List.drop_drop]

/-- The buffer after some transfers. -/
def fillAll (incoming : Bytes) (buf : Bytes) (ts : List (ℕ × ℕ)) : Bytes :=
  ts.foldl (fun buf t => fill buf ((incoming.drop t.1).take t.2)) buf

/-- A read ends well exactly if its transfers do. -/
lemma readAll_eq_some_iff (schedule : List SysCall) (hafter : f.after = incoming.drop moved)
    {buf' : Bytes} {f' : File} :
    readAll schedule buf left f = some (true, buf', f') ↔
    ∃ ts, transfers schedule moved left f.after.length = some ts ∧
      buf' = fillAll incoming buf ts ∧ f' = f.read left := by
  induction schedule generalizing buf moved left f with
  | nil =>
    unfold readAll transfers
    by_cases hpos : left > 0
    · simp [hpos]
    · obtain rfl : left = 0 := by omega
      simp [fillAll, eq_comm]
  | cons s later ih =>
    unfold readAll transfers
    by_cases hpos : left > 0
    · have hint : (left : ℤ) > 0 := by omega
      rw [if_pos hpos, if_pos hint]
      cases s with
      | interrupted => exact ih hafter
      | failed => simp
      | moved k =>
        simp only [Int.toNat_natCast]
        by_cases hzero : min k (min left f.after.length) = 0
        · rw [if_pos hzero, if_pos hzero]
          simp
        · obtain ⟨r, hr⟩ : ∃ r, min k (min left f.after.length) = r := ⟨_, rfl⟩
          rw [if_neg hzero, if_neg hzero, hr]
          have hleft : (left : ℤ) - (r : ℤ) = ((left - r : ℕ) : ℤ) := by omega
          have hnext : (f.read r).after = incoming.drop (moved + r) := by
            show f.after.drop r = _
            rw [hafter, List.drop_drop]
          have hlen : (f.read r).after.length = f.after.length - r := List.length_drop
          have hread : (f.read r).read (left - r) = f.read left := by
            rw [File.read_read]
            congr 1
            omega
          rw [hleft, ih hnext, hlen, hread, hafter]
          constructor
          · rintro ⟨ts, hts, hbuf, hf⟩
            exact ⟨(moved, r) :: ts, by rw [hts]; rfl, hbuf, hf⟩
          · rintro ⟨ts', hts', hbuf, hf⟩
            obtain ⟨ts, hts, rfl⟩ := Option.map_eq_some_iff.mp hts'
            exact ⟨ts, hts, hbuf, hf⟩
    · obtain rfl : left = 0 := by omega
      simp [fillAll, eq_comm]

lemma readAll_isSome (schedule : List SysCall) (f : File) (h : left ≤ answered schedule) :
    (readAll schedule buf left f).isSome := by
  induction schedule generalizing buf left f with
  | nil =>
    have hint : ¬ (left : ℤ) > 0 := by
      have hzero : left ≤ 0 := h
      omega
    unfold readAll
    rw [if_neg hint]
    rfl
  | cons s later ih =>
    unfold readAll
    by_cases hint : (left : ℤ) > 0
    · rw [if_pos hint]
      cases s with
      | interrupted => exact ih f h
      | failed => rfl
      | moved k =>
        simp only [Int.toNat_natCast]
        by_cases hzero : min k (min left f.after.length) = 0
        · rw [if_pos hzero]
          rfl
        · have hcount : left ≤ answered later + 1 := h
          obtain ⟨r, hr⟩ : ∃ r, min k (min left f.after.length) = r := ⟨_, rfl⟩
          have hleft : (left : ℤ) - (r : ℤ) = ((left - r : ℕ) : ℤ) := by omega
          rw [if_neg hzero, hr, hleft]
          exact ih _ (by omega)
    · rw [if_neg hint]
      rfl

/-- An octet after some transfers is brought by the last one that reaches it. -/
lemma getElem?_fillAll (htiles : Tiles moved left ts) (hin : moved + left ≤ incoming.length)
    (start : Bytes) (found : Option ℕ) (j : ℕ)
    (hbuf : buf[j]? = match found with | some k => incoming[k + j]? | none => start[j]?) :
    (fillAll incoming buf ts)[j]? =
      match ts.foldl (fun found t => if j < t.2 then some t.1 else found) found with
      | some k => incoming[k + j]?
      | none => start[j]? := by
  induction htiles generalizing buf found with
  | done moved => exact hbuf
  | @step moved left r ts hpos hle rest ih =>
    have hlen : ((incoming.drop moved).take r).length = r := by
      rw [List.length_take, List.length_drop]
      omega
    refine ih (by omega) _ ?_
    show ((incoming.drop moved).take r ++ buf.drop ((incoming.drop moved).take r).length)[j]? =
      match (if j < r then some moved else found) with
      | some k => incoming[k + j]?
      | none => start[j]?
    by_cases hj : j < r
    · rw [if_pos hj, List.getElem?_append_left (hlen.symm ▸ hj), List.getElem?_take_of_lt hj,
        List.getElem?_drop]
    · have hsum : r + (j - r) = j := by omega
      rw [if_neg hj, List.getElem?_append_right (by omega), hlen, List.getElem?_drop, hsum]
      exact hbuf

lemma length_fillAll (htiles : Tiles moved left ts) (hle : left ≤ buf.length) :
    (fillAll incoming buf ts).length = buf.length := by
  induction htiles generalizing buf with
  | done moved => rfl
  | @step moved left r ts hpos hr rest ih =>
    have hfill : (fill buf ((incoming.drop moved).take r)).length = buf.length := by
      unfold fill
      rw [List.length_append, List.length_drop, List.length_take]
      omega
    have hleft : left - r ≤ (fill buf ((incoming.drop moved).take r)).length := by omega
    exact (ih hleft).trans hfill

/-- What `read_all` leaves with success are the next octets of the file exactly if the last transfer
that reaches a place brings the right octet. -/
theorem readsAll_iff (schedule : List SysCall) (buf : Bytes) (f : File) :
    ReadsAll schedule buf f ↔ Settles schedule buf f.after := by
  have hafter : f.after = f.after.drop 0 := List.drop_zero.symm
  have hsome : ∀ buf' f', readAll schedule buf buf.length f = some (true, buf', f') ↔
      ∃ ts, transfers schedule 0 buf.length f.after.length = some ts ∧
        buf' = fillAll f.after buf ts ∧ f' = f.read buf.length :=
    fun _ _ => readAll_eq_some_iff schedule hafter
  have hfill : ∀ {ts}, transfers schedule 0 buf.length f.after.length = some ts →
    buf.length ≤ f.after.length ∧
      (fillAll f.after buf ts = f.after.take buf.length ↔ ∀ j < buf.length,
        (match lastOver ts j with
          | some k => f.after[k + j]?
          | none => buf[j]?) = f.after[j]?) := by
    intro ts hts
    obtain ⟨htiles, hor⟩ := tiles_of_transfers schedule hts
    have hle : buf.length ≤ f.after.length := by omega
    have hlen : (fillAll f.after buf ts).length = buf.length := length_fillAll htiles le_rfl
    have hget := fun j =>
      getElem?_fillAll htiles (by omega : 0 + buf.length ≤ f.after.length) buf none j rfl
    refine ⟨hle, fun heq j hj => ?_, fun hall => List.ext_getElem? fun j => ?_⟩
    · have hj' := congrArg (·[j]?) heq
      rw [List.getElem?_take_of_lt hj, hget j] at hj'
      exact hj'
    · by_cases hj : j < buf.length
      · rw [List.getElem?_take_of_lt hj, hget j]
        exact hall j hj
      · rw [List.getElem?_eq_none (by omega), List.getElem?_eq_none]
        rw [List.length_take]
        omega
  constructor
  · rintro ⟨-, hreads⟩ ts hts
    obtain ⟨-, hbuf, -⟩ := hreads _ _ ((hsome _ _).mpr ⟨ts, hts, rfl, rfl⟩)
    exact (hfill hts).2.mp hbuf
  · intro hsettles
    refine ⟨readAll_isSome schedule f, fun buf' f' h => ?_⟩
    obtain ⟨ts, hts, rfl, rfl⟩ := (hsome buf' f').mp h
    exact ⟨(hfill hts).1, (hfill hts).2.mpr (hsettles ts hts), rfl⟩

end Lemmas

/-! ## Saving and loading -/

section RoundTrip

variable {checksum : Bytes → UInt32} {s : SaveSchedule} {l : LoadSchedule} {locals : Locals}
    {timeout : Int64}
  {data : Bytes} {f f' : File}

lemma length_fileHeader : (fileHeader checksum timeout data).length = 16 := by
  unfold fileHeader
  simp only [List.length_append, length_littleEndianInt, length_littleEndian]

variable {n : ℕ} {schedule : List SysCall} {r : Option (ℤ × Bytes)} {rest : Bytes}

lemma intOf_eq (h : n < 2 ^ 31) : intOf n = n := by
  unfold intOf
  rw [Int.bmod_eq_of_le] <;> omega

/-- A save that ends well leaves the header and the data. -/
lemma saveToFile_eq (hlen : data.length < 2 ^ 31)
    (hheader : Repeats s.header (fileHeader checksum timeout data)) (hdata : Repeats s.data data)
    (h : saveToFile checksum s timeout data f = some (true, f')) :
    f' = f.write (fileHeader checksum timeout data ++ data) := by
  have hfirst := (writesAll_iff s.header (fileHeader checksum timeout data) f).mpr hheader
  unfold saveToFile at h
  split at h
  · exact absurd h (by simp)
  · exact absurd h (by simp)
  · rename_i g hg
    have hg' : g = f.write (fileHeader checksum timeout data) := by
      refine hfirst.2 g ?_
      rw [length_fileHeader]
      exact hg
    rw [intOf_eq hlen] at h
    have hsecond := ((writesAll_iff s.data data g).mpr hdata).2 f' h
    rw [hsecond, hg', File.write_write]

/-- A read that ends well finds the octets that are next. -/
lemma eq_of_readAll {buf buf' p rest : Bytes} (hn : buf.length = n) (hp : p.length = n)
    (hafter : f.after = p ++ rest) (hsettles : Settles schedule buf f.after)
    (h : readAll schedule buf n f = some (true, buf', f')) : buf' = p ∧ f'.after = rest := by
  subst hn
  obtain ⟨-, hbuf, hf⟩ := ((readsAll_iff schedule buf f).mpr hsettles).2 buf' f' h
  rw [hafter, ← hp, List.take_left] at hbuf
  refine ⟨hbuf, ?_⟩
  rw [hf]
  show f.after.drop buf.length = rest
  rw [hafter, ← hp, List.drop_left]

lemma reaches_of_readAll {buf buf' : Bytes} (h : readAll schedule buf n f = some (true, buf', f')) :
    Reaches schedule n f.after := by
  have hafter : f.after = f.after.drop 0 := List.drop_zero.symm
  obtain ⟨ts, hts, -⟩ := (readAll_eq_some_iff schedule hafter).1 h
  unfold Reaches
  rw [hts]
  rfl

/-- The data that were saved are found, or none. -/
lemma readData_eq {t : ℤ} {crc : ℕ} (hlen : data.length < 2 ^ 31) (hafter : f.after = data ++ rest)
    (hsettles : Settles l.data (List.replicate data.length 0) f.after)
    (h : readData checksum l.data t crc data.length f = some r) :
    r = none ∨ r = some (t, data) := by
  unfold readData at h
  by_cases hpos : data.length > 0
  · rw [if_pos hpos, intOf_eq hlen] at h
    split at h
    · exact absurd h (by simp)
    · exact .inl (Option.some.inj h).symm
    · rename_i buf g hread
      obtain ⟨rfl, -⟩ := eq_of_readAll List.length_replicate rfl hafter hsettles hread
      split_ifs at h
      · exact .inl (Option.some.inj h).symm
      · exact .inr (Option.some.inj h).symm
  · have hnil : data = [] := List.length_eq_zero_iff.mp (by omega)
    rw [if_neg hpos] at h
    split_ifs at h
    · exact .inl (Option.some.inj h).symm
    · rw [hnil]
      exact .inr (Option.some.inj h).symm

lemma fromLittleEndianInt_timeout :
    fromLittleEndianInt (littleEndianInt 8 timeout.toInt) = timeout.toInt := by
  have hlow := timeout.le_toInt
  have hhigh := timeout.toInt_lt
  exact fromLittleEndianInt_littleEndianInt (by omega) (by omega)

/-- A session that was saved is loaded as it was, or not at all. -/
lemma readFromFile_eq {now : ℤ}
    (hcontent : f.before ++ f.after = fileHeader checksum timeout data ++ data ++ rest)
    (hfine : Undisturbed checksum s l locals timeout data (f.before ++ f.after))
    (h : readFromFile checksum l locals now f = some r) :
    r = none ∨ r = some (timeout.toInt, data) := by
  have hlen := hfine.length_lt
  have hsplit : f.before ++ f.after =
    littleEndianInt 8 timeout.toInt ++ (littleEndian 4 (checksum data).toNat ++
      (littleEndian 4 data.length ++ (data ++ rest))) := by
    rw [hcontent]
    unfold fileHeader
    simp only [List.append_assoc]
  have hdrop8 : (f.before ++ f.after).drop 8 = littleEndian 4 (checksum data).toNat ++
      (littleEndian 4 data.length ++ (data ++ rest)) := by
    rw [hsplit]
    exact List.drop_left' (length_littleEndianInt 8 _)
  have hdrop12 : (f.before ++ f.after).drop 12 = littleEndian 4 data.length ++ (data ++ rest) := by
    rw [show 12 = 8 + 4 from rfl, ← List.drop_drop, hdrop8]
    exact List.drop_left' (length_littleEndian 4 _)
  have hdrop16 : (f.before ++ f.after).drop 16 = data ++ rest := by
    rw [show 16 = 12 + 4 from rfl, ← List.drop_drop, hdrop12]
    exact List.drop_left' (length_littleEndian 4 _)
  unfold readFromFile at h
  split at h
  · exact absurd h (by simp)
  · exact .inl (Option.some.inj h).symm
  · rename_i p f₁ hread
    obtain ⟨rfl, hf₁⟩ := eq_of_readAll (f := f.rewind) locals.length_timeout
      (length_littleEndianInt 8 _) hsplit
      hfine.settles_timeout hread
    rw [fromLittleEndianInt_timeout] at h
    split_ifs at h
    · exact .inl (Option.some.inj h).symm
    · split at h
      · exact absurd h (by simp)
      · exact .inl (Option.some.inj h).symm
      · rename_i c f₂ hcrc
        have htimeout : Reaches l.timeout 8 (f.before ++ f.after) :=
          reaches_of_readAll (f := f.rewind) hread
        have hsettles := hfine.settles_crc htimeout
        rw [hdrop8, ← hf₁] at hsettles
        obtain ⟨rfl, hf₂⟩ :=
          eq_of_readAll locals.length_crc (length_littleEndian 4 _) hf₁ hsettles hcrc
        split at h
        · exact absurd h (by simp)
        · exact .inl (Option.some.inj h).symm
        · rename_i n f₃ hsize
          have hreached : Reaches l.crc 4 ((f.before ++ f.after).drop 8) := by
            rw [hdrop8, ← hf₁]
            exact reaches_of_readAll hcrc
          replace hsettles := hfine.settles_size htimeout hreached
          rw [hdrop12, ← hf₂] at hsettles
          obtain ⟨rfl, hf₃⟩ :=
            eq_of_readAll locals.length_size (length_littleEndian 4 _) hf₂ hsettles hsize
          have hreached' : Reaches l.size 4 ((f.before ++ f.after).drop 12) := by
            rw [hdrop12, ← hf₂]
            exact reaches_of_readAll hsize
          replace hsettles := hfine.settles_data htimeout hreached hreached'
          rw [hdrop16, ← hf₃] at hsettles
          rw [fromLittleEndian_of_lt (by omega : data.length < 256 ^ 4)] at h
          exact readData_eq hlen hf₃ hsettles h

end RoundTrip

/-- What a file is loaded as after a save that ended well. -/
def LoadsBack (checksum : Bytes → UInt32) (s : SaveSchedule) (l : LoadSchedule) (locals : Locals)
    (timeout : Int64) (data : Bytes) (old f : File) : Prop :=
  saveToFile checksum s timeout data old.rewind = some (true, f) → ∀ now r,
    readFromFile checksum l locals now f = some r → r = none ∨ r = some (timeout.toInt, data)

/-- The octets of a buffer are written exactly if every transfer finds its octets at the front of
the buffer, the octets of a file are read exactly if the last transfer that reaches a place brings
the one that belongs there, and a session is loaded as it was saved, or not at all, where it is so
of all transfers. -/
theorem fileTransfers_complete_iff (checksum : Bytes → UInt32) :
    (∀ schedule buf f, WritesAll schedule buf f ↔ Repeats schedule buf) ∧
      (∀ schedule buf f, ReadsAll schedule buf f ↔ Settles schedule buf f.after) ∧
      ∀ s l locals timeout data old f,
      Undisturbed checksum s l locals timeout data (f.before ++ f.after) →
        LoadsBack checksum s l locals timeout data old f := by
  refine ⟨writesAll_iff, readsAll_iff,
    fun s l locals timeout data old f hfine hsave now r hload => ?_⟩
  have hfile := saveToFile_eq hfine.length_lt hfine.repeats_header hfine.repeats_data hsave
  have hcontent : f.before ++ f.after = fileHeader checksum timeout data ++ data ++
      (old.before ++ old.after).drop (fileHeader checksum timeout data ++ data).length := by
    rw [hfile]
    rfl
  exact readFromFile_eq hcontent hfine hload

/-- One octet is saved, and found by reads of which one is interrupted. -/
theorem fileTransfers_complete_iff_once : ∃ f,
    saveToFile (fun _ => 7) ⟨[.moved 16], [.moved 1]⟩ 100 [9] ⟨[], []⟩ = some (true, f) ∧ ∀ now r,
      readFromFile (fun _ => 7) ⟨[.interrupted, .moved 8], [.moved 4], [.moved 4], [.moved 1]⟩
        ⟨List.replicate 8 0, List.replicate 4 0, List.replicate 4 0, rfl, rfl, rfl⟩ now f = some r →
        r = none ∨ r = some (100, [9]) := by
  refine ⟨_, rfl, ?_⟩
  refine (fileTransfers_complete_iff fun _ => 7).2.2 ⟨[.moved 16], [.moved 1]⟩
    ⟨[.interrupted, .moved 8], [.moved 4], [.moved 4], [.moved 1]⟩ _ 100 [9] ⟨[], []⟩ _ ?_ rfl
  refine ⟨by decide, ?_, ?_, ?_, fun _ => ?_, fun _ _ => ?_, fun _ _ _ => ?_⟩ <;>
  · intro ts hts
    obtain rfl := Option.some.inj hts
    decide

/-- Two octets go out one at a time, and the first one is written twice. -/
theorem shortWrite_repeats :
    ¬ ∀ schedule buf f, WritesAll schedule buf f := by
  intro h
  have hwrites := (h [.moved 1, .moved 1] [1, 2] ⟨[], []⟩).2 ⟨[1, 1], []⟩ (by decide)
  exact absurd hwrites (by decide)

end Session

end Cppcms
