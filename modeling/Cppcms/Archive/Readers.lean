import Cppcms.Archive.Traits

/-!
# The readers of an archive

The members of `archive` that read, statement by statement: `next_chunk_size`, `read_chunk` and
`read_chunk_as_string` with the position they leave also where they throw, sums in `size_t`, and the
ranges of the text that they look at.  The check of `next_chunk_size` leaves the four octets of the
length out of the sum, so a chunk can be accepted that ends behind the text.
-/

namespace Cppcms

namespace Serialization

/-! ## Members -/

/-- What a `std::string` can hold. -/
def Text : Type := { p : Bytes // p.length < 2 ^ 63 }

/-- The object while its members run.  `reads` are the ranges of the text that have been looked at.
-/
structure Reader where
  text : Text
  ptr : ℕ
  reads : List (ℕ × ℕ)

namespace Reader

/-- The archive of the other modules. -/
def archive (r : Reader) : Archive := ⟨r.text.1, r.ptr⟩

def size (r : Reader) : ℕ := r.text.1.length

/-- `c_str`: the text and the octet behind it. -/
def cStr (r : Reader) : Bytes := r.text.1 ++ [0]

/-- `str(text)`. -/
def start (text : Text) : Reader := ⟨text, 0, []⟩

end Reader

/-- A member function: its outcome and the object that it leaves. -/
def Member (α : Type) : Type := Reader → Outcome α × Reader

namespace Member

instance : Monad Member where
  pure a := fun r => (.returns a, r)
  bind m f := fun r =>
    match m r with
    | (.returns a, r') => f a r'
    | (.throws what, r') => (.throws what, r')
    | (.undefined, r') => (.undefined, r')

variable {α β : Type}

variable {r r' : Reader}

lemma bind_of_returns {m : Member α} {f : α → Member β} {a : α} (h : m r = (.returns a, r')) :
    (m >>= f) r = f a r' := by
  show (match m r with
    | (.returns a, r') => f a r'
    | (.throws what, r') => (.throws what, r')
    | (.undefined, r') => (.undefined, r')) = f a r'
  rw [h]

lemma bind_of_throws {m : Member α} {f : α → Member β} {what : String}
    (h : m r = (.throws what, r')) : (m >>= f) r = (.throws what, r') := by
  show (match m r with
    | (.returns a, r') => f a r'
    | (.throws what, r') => (.throws what, r')
    | (.undefined, r') => (.undefined, r')) = (.throws what, r')
  rw [h]

lemma bind_of_undefined {m : Member α} {f : α → Member β} (h : m r = (.undefined, r')) :
    (m >>= f) r = (.undefined, r') := by
  show (match m r with
    | (.returns a, r') => f a r'
    | (.throws what, r') => (.throws what, r')
    | (.undefined, r') => (.undefined, r')) = (.undefined, r')
  rw [h]

/-- `throw archive_error(what)`. -/
def fail (what : String) : Member α := fun r => (.throws what, r)

/-- A sum of type `size_t`. -/
def plus (x y : ℕ) : ℕ := (x + y) % 2 ^ 64

/-- `ptr_`. -/
def position : Member ℕ := fun r => (.returns r.ptr, r)

/-- `ptr_ += n`. -/
def advance (n : ℕ) : Member Unit := fun r => (.returns (), { r with ptr := plus r.ptr n })

/-- The octets that `memcpy` finds from a position of the text on. -/
def copyFrom (start len : ℕ) : Member Bytes := fun r =>
  match slice r.cStr start len with
  | some p => (.returns p, { r with reads := (start, len) :: r.reads })
  | none => (.undefined, r)

def nextChunkSize : Member ℕ := fun r =>
  if r.ptr ≥ r.size then fail "At end of archive" r
  else if r.size - r.ptr < 4 then fail "Invalid archive format" r
  else (do
    let size := fromLittleEndian (← copyFrom r.ptr 4)
    if plus r.ptr size < r.ptr ∨ plus r.ptr size ≥ r.size then fail "Invalid archive_format"
    else pure size) r

def readChunk (len : ℕ) : Member Bytes := do
  let next ← nextChunkSize
  if next ≠ len then fail "Invalid block length"
  else
    advance 4
    let ptr ← position
    let p ← copyFrom ptr len
    advance len
    return p

def readChunkAsString : Member Bytes := do
  let size ← nextChunkSize
  let ptr ← position
  let result ← copyFrom (plus ptr 4) size
  advance (plus 4 size)
  return result

end Member

/-! ## Calls -/

inductive Call where
  | nextChunkSize
  | readChunk (len : ℕ)
  | readChunkAsString
  deriving DecidableEq, Repr

namespace Call

/-- The call, without the value it returns. -/
def perform : Call → Member Unit
  | nextChunkSize => do let _ ← Member.nextChunkSize
  | readChunk len => do let _ ← Member.readChunk len
  | readChunkAsString => do let _ ← Member.readChunkAsString

/-- The range is a part of the text. -/
def Within (r : Reader) (range : ℕ × ℕ) : Prop := range.1 + range.2 ≤ r.size

/-- The call looks only at the text, and either throws where it was or ends inside the text. -/
def StaysInside (c : Call) (r : Reader) : Prop :=
  (∀ range ∈ (c.perform r).2.reads, range ∈ r.reads ∨ Within r range) ∧
    match (c.perform r).1 with
    | .returns _ => (c.perform r).2.ptr ≤ r.size
    | .throws _ => (c.perform r).2.ptr = r.ptr
    | .undefined => False

/-- The length of the chunk at the position, if there are four octets for it. -/
def declared (r : Reader) : Option ℕ := (slice r.text.1 r.ptr 4).map fromLittleEndian

/-- A chunk of this length that is shorter than what is left of the text is shorter by four octets
at least. -/
def Fits (r : Reader) (len : ℕ) : Prop := r.ptr + len < r.size → r.ptr + 4 + len ≤ r.size

/-- The call does not read a chunk of which the text lacks one to four octets. -/
def Covered : Call → Reader → Prop
  | nextChunkSize, _ => True
  | readChunk len, r => declared r = some len → Fits r len
  | readChunkAsString, r => ∀ len, declared r = some len → Fits r len

/-- The calls with the object that each of them finds.  The caller goes on after an exception. -/
def visits : List Call → Reader → List (Call × Reader)
  | [], _ => []
  | c :: calls, r =>
    (c, r) :: match c.perform r with
      | (.returns _, r') => visits calls r'
      | (.throws _, r') => visits calls r'
      | (.undefined, _) => []

end Call

/-! ## One call -/

section Lemmas

variable {r : Reader} {n : ℕ}

open Member Call

/-- What `next_chunk_size` does before it looks at the number. -/
def Reader.looked (r : Reader) : Reader := { r with reads := (r.ptr, 4) :: r.reads }

lemma plus_eq (hx : n < 2 ^ 63) {m : ℕ} (hm : m < 2 ^ 63) : plus n m = n + m :=
  Nat.mod_eq_of_lt (by omega)

/-- Inside of the text `c_str` is the text. -/
lemma slice_cStr {start len : ℕ} (h : start + len ≤ r.size) :
    slice r.cStr start len = slice r.text.1 start len := by
  have hlen : start + len ≤ r.text.1.length := h
  have hle : start + len ≤ r.cStr.length := by
    unfold Reader.cStr
    rw [List.length_append]
    omega
  have hdrop : r.cStr.drop start = r.text.1.drop start ++ [0] := by
    unfold Reader.cStr
    rw [List.drop_append_of_le_length (by omega)]
  have hdropped : len ≤ (r.text.1.drop start).length := by
    rw [List.length_drop]
    omega
  rw [slice_of_le hle, slice_of_le hlen, hdrop, List.take_append_of_le_length hdropped]

lemma ptr_add_four_le (h : declared r = some n) : r.ptr + 4 ≤ r.size := by
  unfold declared slice at h
  split_ifs at h with hle
  · exact hle
  · exact absurd h (by simp)

lemma lt_of_declared (h : declared r = some n) : n < 2 ^ 32 := by
  obtain ⟨p, hp, hn⟩ := Option.map_eq_some_iff.mp h
  have hlt := fromLittleEndian_lt p
  rw [length_of_slice hp, hn] at hlt
  exact hlt

lemma nextChunkSize_of_none (h : declared r = none) :
    ∃ what, Member.nextChunkSize r = (.throws what, r) := by
  unfold declared slice at h
  split_ifs at h with hle
  · exact absurd h (by simp)
  · have hsize : r.text.1.length = r.size := rfl
    unfold Member.nextChunkSize
    by_cases heof : r.ptr ≥ r.size
    · exact ⟨_, if_pos heof⟩
    · have hshort : r.size - r.ptr < 4 := by omega
      refine ⟨"Invalid archive format", ?_⟩
      rw [if_neg heof, if_pos hshort]
      rfl

/-- Four octets are looked at, and the length is accepted if it is shorter than the rest of the
text. -/
lemma nextChunkSize_of_some (h : declared r = some n) :
    Member.nextChunkSize r =
      if r.ptr + n < r.size then (.returns n, r.looked)
        else (.throws "Invalid archive_format", r.looked) := by
  have hle := ptr_add_four_le h
  have hn := lt_of_declared h
  have hsize : r.size < 2 ^ 63 := r.text.2
  obtain ⟨p, hp, hpn⟩ := Option.map_eq_some_iff.mp h
  have hcopy : copyFrom r.ptr 4 r = (.returns p, r.looked) := by
    unfold copyFrom
    rw [slice_cStr hle, hp]
    rfl
  have hplus : plus r.ptr n = r.ptr + n := plus_eq (by omega) (by omega)
  have heof : ¬ r.ptr ≥ r.size := by omega
  have hfour : ¬ r.size - r.ptr < 4 := by omega
  unfold Member.nextChunkSize
  rw [if_neg heof, if_neg hfour, bind_of_returns hcopy, hpn, hplus]
  by_cases hlt : r.ptr + n < r.size
  · have hcheck : ¬ (r.ptr + n < r.ptr ∨ r.ptr + n ≥ r.size) := by omega
    rw [if_pos hlt, if_neg hcheck]
    rfl
  · have hcheck : r.ptr + n < r.ptr ∨ r.ptr + n ≥ r.size := by omega
    rw [if_neg hlt, if_pos hcheck]
    rfl

/-- The object after a chunk of the given length. -/
def Reader.taken (r : Reader) (n : ℕ) : Reader :=
  { r with ptr := r.ptr + 4 + n, reads := (r.ptr + 4, n) :: (r.ptr, 4) :: r.reads }

/-- The object after a reader looked at the length and moved to a position. -/
def Reader.at (r : Reader) (ptr : ℕ) : Reader := ⟨r.text, ptr, (r.ptr, 4) :: r.reads⟩

/-- The octets behind the length of the chunk. -/
def Reader.payload (r : Reader) (n : ℕ) : Bytes := (r.cStr.drop (r.ptr + 4)).take n

/-- The payload is looked for four octets behind the position, one octet behind the text included.
-/
lemma copyFrom_at (ptr : ℕ) : copyFrom (r.ptr + 4) n (r.at ptr) =
    if r.ptr + 4 + n ≤ r.size + 1 then
      (.returns (r.payload n), ⟨r.text, ptr, (r.ptr + 4, n) :: (r.ptr, 4) :: r.reads⟩)
    else (.undefined, r.at ptr) := by
  have hlen : (r.at ptr).cStr.length = r.size + 1 := by
    show (r.text.1 ++ [0]).length = r.size + 1
    rw [List.length_append]
    rfl
  by_cases hle : r.ptr + 4 + n ≤ r.size + 1
  · have hin : r.ptr + 4 + n ≤ (r.at ptr).cStr.length := hlen ▸ hle
    unfold copyFrom
    rw [slice_of_le hin, if_pos hle]
    rfl
  · have hout : ¬ r.ptr + 4 + n ≤ (r.at ptr).cStr.length := hlen ▸ hle
    unfold copyFrom slice
    rw [if_neg hout, if_neg hle]

/-- An accepted chunk is read if it ends at most one octet behind the text. -/
lemma readChunk_of_lt (h : declared r = some n) (hlt : r.ptr + n < r.size) :
    ∃ r', Member.readChunk n r =
      if r.ptr + 4 + n ≤ r.size + 1 then (.returns (r.payload n), r.taken n)
        else (.undefined, r') := by
  have hn := lt_of_declared h
  have hle := ptr_add_four_le h
  have hsize : r.size < 2 ^ 63 := r.text.2
  have hnext := nextChunkSize_of_some h
  rw [if_pos hlt] at hnext
  have hfour : plus r.ptr 4 = r.ptr + 4 := plus_eq (by omega) (by omega)
  have hend : plus (r.ptr + 4) n = r.ptr + 4 + n := Nat.mod_eq_of_lt (by omega)
  have hadvance : advance 4 r.looked = (.returns (), r.at (r.ptr + 4)) := by
    show (Outcome.returns (), r.at (plus r.ptr 4)) = _
    rw [hfour]
  have hposition : position (r.at (r.ptr + 4)) = (.returns (r.ptr + 4), r.at (r.ptr + 4)) := rfl
  have hsame : ¬ n ≠ n := fun hne => hne rfl
  have hcopy := copyFrom_at (r := r) (n := n) (r.ptr + 4)
  refine ⟨r.at (r.ptr + 4), ?_⟩
  unfold Member.readChunk
  rw [bind_of_returns hnext, if_neg hsame, bind_of_returns hadvance, bind_of_returns hposition]
  by_cases hroom : r.ptr + 4 + n ≤ r.size + 1
  · rw [if_pos hroom] at hcopy
    rw [if_pos hroom, bind_of_returns hcopy]
    show (Outcome.returns (r.payload n), (⟨r.text, plus (r.ptr + 4) n, _⟩ : Reader)) = _
    rw [hend]
    rfl
  · rw [if_neg hroom] at hcopy
    rw [if_neg hroom]
    exact bind_of_undefined hcopy

lemma readChunkAsString_of_lt (h : declared r = some n) (hlt : r.ptr + n < r.size) :
    ∃ r', Member.readChunkAsString r =
      if r.ptr + 4 + n ≤ r.size + 1 then (.returns (r.payload n), r.taken n)
        else (.undefined, r') := by
  have hn := lt_of_declared h
  have hle := ptr_add_four_le h
  have hsize : r.size < 2 ^ 63 := r.text.2
  have hnext := nextChunkSize_of_some h
  rw [if_pos hlt] at hnext
  have hfour : plus r.ptr 4 = r.ptr + 4 := plus_eq (by omega) (by omega)
  have hlen : plus 4 n = 4 + n := plus_eq (by omega) (by omega)
  have hend : plus r.ptr (4 + n) = r.ptr + 4 + n := by
    rw [Nat.add_assoc]
    exact Nat.mod_eq_of_lt (by omega)
  have hposition : position r.looked = (.returns r.ptr, r.at r.ptr) := rfl
  have hcopy := copyFrom_at (r := r) (n := n) r.ptr
  refine ⟨r.looked, ?_⟩
  unfold Member.readChunkAsString
  rw [bind_of_returns hnext, bind_of_returns hposition, hfour]
  by_cases hroom : r.ptr + 4 + n ≤ r.size + 1
  · rw [if_pos hroom] at hcopy
    rw [if_pos hroom, bind_of_returns hcopy]
    show (Outcome.returns (r.payload n), (⟨r.text, plus r.ptr (plus 4 n), _⟩ : Reader)) = _
    rw [hlen, hend]
    rfl
  · rw [if_neg hroom] at hcopy
    rw [if_neg hroom]
    exact bind_of_undefined hcopy

variable {c : Call} {r' : Reader} {what : String}

/-- A call that throws where it was, and looked at the length at most. -/
lemma staysInside_of_throws (hc : c.perform r = (.throws what, r')) (hptr : r'.ptr = r.ptr)
    (hreads : ∀ range ∈ r'.reads, range ∈ r.reads ∨ Within r range) :
    c.StaysInside r := by
  unfold Call.StaysInside
  rw [hc]
  exact ⟨hreads, hptr⟩

/-- The four octets of a length are in the text. -/
lemma within_of_mem_looked (h : declared r = some n) (range : ℕ × ℕ)
    (hmem : range ∈ r.looked.reads) :
    range ∈ r.reads ∨ Within r range := by
  rcases List.mem_cons.mp hmem with rfl | hold
  · exact .inr (ptr_add_four_le h)
  · exact .inl hold

/-- A call that reads an accepted chunk stays inside if the whole chunk is in the text. -/
lemma staysInside_iff_fits (h : declared r = some n) (hlt : r.ptr + n < r.size)
    (hc : c.perform r = if r.ptr + 4 + n ≤ r.size + 1 then (.returns (), r.taken n)
      else (.undefined, r')) :
    c.StaysInside r ↔ Fits r n := by
  by_cases hroom : r.ptr + 4 + n ≤ r.size + 1
  · rw [if_pos hroom] at hc
    unfold Call.StaysInside
    rw [hc]
    constructor
    · rintro ⟨-, hptr⟩ -
      exact hptr
    · intro hfits
      have hend : r.ptr + 4 + n ≤ r.size := hfits hlt
      refine ⟨fun range hmem => ?_, hend⟩
      rcases List.mem_cons.mp hmem with rfl | hlooked
      · exact .inr hend
      · exact within_of_mem_looked h range hlooked
  · rw [if_neg hroom] at hc
    unfold Call.StaysInside
    rw [hc]
    constructor
    · rintro ⟨-, hfalse⟩
      exact hfalse.elim
    · intro hfits
      have hend := hfits hlt
      omega

/-- No call gets further than `next_chunk_size` if that throws. -/
lemma perform_of_throws (h : Member.nextChunkSize r = (.throws what, r')) (c : Call) :
    c.perform r = (.throws what, r') := by
  cases c with
  | nextChunkSize => exact bind_of_throws h
  | readChunk len => exact bind_of_throws (bind_of_throws h)
  | readChunkAsString => exact bind_of_throws (bind_of_throws h)

/-- The outcome of a call without its value. -/
lemma perform_of_eq_ite {m : Member Bytes} {p : Bytes} {room : Prop} [Decidable room]
    (hm : m r = if room then (.returns p, r.taken n) else (.undefined, r')) :
    (do let _ ← m : Member Unit) r = if room then (.returns (), r.taken n)
      else (.undefined, r') := by
  by_cases hroom : room
  · rw [if_pos hroom] at hm
    rw [if_pos hroom]
    exact bind_of_returns hm
  · rw [if_neg hroom] at hm
    rw [if_neg hroom]
    exact bind_of_undefined hm

end Lemmas

/-! ## The archive of the other modules -/

section Refinement

variable (r : Reader)

open Call

/-- A range inside of the text is found by both models. -/
lemma copy_archive {start len : ℕ} (h : start + len ≤ r.size) :
    copy r.archive start len = .returns ((r.cStr.drop start).take len) := by
  have hsize : start + len ≤ r.cStr.length := by
    unfold Reader.cStr
    rw [List.length_append]
    exact Nat.le_succ_of_le h
  have hslice := slice_cStr h
  rw [slice_of_le hsize] at hslice
  unfold copy
  rw [show slice r.archive.buffer start len = some ((r.cStr.drop start).take len) from hslice.symm]

lemma nextChunkSize_refines :
    ∃ r', Member.nextChunkSize r = (nextChunkSize r.archive, r') ∧ r'.archive = r.archive := by
  have heof : eof r.archive = decide (r.ptr ≥ r.size) := rfl
  rcases hd : declared r with _ | n
  · have hshort : r.size < r.ptr + 4 := by
      by_contra hle
      unfold declared at hd
      rw [slice_of_le (not_lt.mp hle)] at hd
      exact absurd hd (by simp)
    refine ⟨r, ?_, rfl⟩
    unfold Member.nextChunkSize nextChunkSize
    by_cases hend : r.ptr ≥ r.size
    · rw [if_pos hend, heof, if_pos (decide_eq_true hend)]
      rfl
    · have hfew : r.size - r.ptr < 4 := by omega
      have hfew' : r.archive.buffer.length - r.archive.ptr < 4 := hfew
      rw [if_neg hend, if_pos hfew, heof, if_neg fun h => hend (of_decide_eq_true h), if_pos hfew']
      rfl
  · have hle := ptr_add_four_le hd
    have hend : ¬ r.ptr ≥ r.size := by omega
    have hfew : ¬ r.archive.buffer.length - r.archive.ptr < 4 := by
      show ¬ r.size - r.ptr < 4
      omega
    obtain ⟨p, hp, hpn⟩ := Option.map_eq_some_iff.mp hd
    have hcopy : copy r.archive r.archive.ptr 4 = .returns p := by
      unfold copy
      rw [show slice r.archive.buffer r.archive.ptr 4 = some p from hp]
    refine ⟨r.looked, ?_, rfl⟩
    rw [nextChunkSize_of_some hd]
    unfold nextChunkSize
    rw [heof, if_neg fun h =>
      hend (of_decide_eq_true h), if_neg hfew, hcopy, Outcome.returns_bind, hpn]
    by_cases hlt : r.ptr + n < r.size
    · have hcheck :
          ¬ (r.archive.ptr + n < r.archive.ptr ∨ r.archive.ptr + n ≥ r.archive.buffer.length) := by
        show ¬ (r.ptr + n < r.ptr ∨ r.ptr + n ≥ r.size)
        omega
      rw [if_pos hlt, if_neg hcheck]
      rfl
    · have hcheck : r.archive.ptr + n < r.archive.ptr ∨
          r.archive.ptr + n ≥ r.archive.buffer.length :=
        .inr (not_lt.mp hlt)
      rw [if_neg hlt, if_pos hcheck]

/-- The outcome and the archive that it leaves are the ones of the other modules, where these are
defined. -/
def Refines (m : Member Bytes) (f : Archive → Outcome (Bytes × Archive)) : Prop :=
  match f r.archive with
  | .returns (p, a) => ∃ r', m r = (.returns p, r') ∧ r'.archive = a
  | .throws what => ∃ r', m r = (.throws what, r') ∧ r'.archive = r.archive
  | .undefined => True

variable {n : ℕ} {r' : Reader}

/-- `next_chunk_size` returns the length it finds. -/
lemma declared_of_returns (h : Member.nextChunkSize r = (.returns n, r')) :
    declared r = some n ∧ r.ptr + n < r.size := by
  rcases hd : declared r with _ | m
  · obtain ⟨what, hthrows⟩ := nextChunkSize_of_none hd
    exact absurd (hthrows.symm.trans h) (by simp)
  · have hnext := (nextChunkSize_of_some hd).symm.trans h
    split_ifs at hnext with hlt
    · obtain rfl : m = n := by simpa using congrArg Prod.fst hnext
      exact ⟨rfl, hlt⟩
    · exact absurd (congrArg Prod.fst hnext) (by simp)

/-- Both models read an accepted chunk alike. -/
lemma refines_of_accepted {m : Member Bytes} {f : Archive → Outcome (Bytes × Archive)}
    (hm : m r = if r.ptr + 4 + n ≤ r.size + 1 then (.returns (r.payload n), r.taken n)
      else (.undefined, r'))
    (hf : f r.archive = do
      let p ← copy r.archive (r.ptr + 4) n
      return (p, { r.archive with ptr := r.ptr + 4 + n })) : Refines r m f := by
  unfold Refines
  by_cases hle : r.ptr + 4 + n ≤ r.size
  · rw [if_pos (Nat.le_succ_of_le hle)] at hm
    rw [copy_archive r hle, Outcome.returns_bind] at hf
    rw [hf]
    exact ⟨r.taken n, hm, rfl⟩
  · have hslice : slice r.archive.buffer (r.ptr + 4) n = none := if_neg hle
    have hcopy : copy r.archive (r.ptr + 4) n = .undefined := by
      unfold copy
      rw [hslice]
    rw [hcopy] at hf
    rw [hf]
    exact trivial

theorem readChunk_refines (len : ℕ) : Refines r (Member.readChunk len) (readChunk len) := by
  obtain ⟨r', hnext, harchive⟩ := nextChunkSize_refines r
  rcases ho : nextChunkSize r.archive with n | what | _
  · rw [ho] at hnext
    by_cases hne : n ≠ len
    · unfold Refines readChunk
      rw [ho, Outcome.returns_bind, if_pos hne]
      refine ⟨r', ?_, harchive⟩
      unfold Member.readChunk
      rw [Member.bind_of_returns hnext, if_pos hne]
      rfl
    · obtain rfl : n = len := not_not.mp hne
      obtain ⟨hd, hlt⟩ := declared_of_returns r hnext
      obtain ⟨r'', hread⟩ := readChunk_of_lt hd hlt
      refine refines_of_accepted r hread ?_
      unfold readChunk
      rw [ho, Outcome.returns_bind, if_neg hne]
      rfl
  · unfold Refines readChunk
    rw [ho] at hnext ⊢
    exact ⟨r', Member.bind_of_throws hnext, harchive⟩
  · unfold Refines readChunk
    rw [ho]
    exact trivial

theorem readChunkAsString_refines : Refines r Member.readChunkAsString readChunkAsString := by
  obtain ⟨r', hnext, harchive⟩ := nextChunkSize_refines r
  rcases ho : nextChunkSize r.archive with n | what | _
  · rw [ho] at hnext
    obtain ⟨hd, hlt⟩ := declared_of_returns r hnext
    obtain ⟨r'', hread⟩ := readChunkAsString_of_lt hd hlt
    refine refines_of_accepted r hread ?_
    unfold readChunkAsString
    rw [ho, Outcome.returns_bind, Nat.add_assoc]
    rfl
  · unfold Refines readChunkAsString
    rw [ho] at hnext ⊢
    exact ⟨r', Member.bind_of_throws hnext, harchive⟩
  · unfold Refines readChunkAsString
    rw [ho]
    exact trivial

end Refinement

namespace Call

open Member

/-- One call, wherever the position is. -/
lemma staysInside_iff (c : Call) (r : Reader) : c.StaysInside r ↔ c.Covered r := by
  rcases hd : declared r with _ | n
  · -- too few octets for a length
    obtain ⟨what, hnext⟩ := nextChunkSize_of_none hd
    refine iff_of_true (staysInside_of_throws (perform_of_throws hnext c) rfl fun range hmem =>
      .inl hmem) ?_
    cases c with
    | nextChunkSize => exact trivial
    | readChunk len => exact fun h => absurd (hd.symm.trans h) (by simp)
    | readChunkAsString => exact fun len h => absurd (hd.symm.trans h) (by simp)
  · have hnext := nextChunkSize_of_some hd
    by_cases hlt : r.ptr + n < r.size
    · rw [if_pos hlt] at hnext
      have hlen : ∀ {len}, declared r = some len → len = n := fun h =>
        Option.some.inj (h.symm.trans hd)
      cases c with
      | nextChunkSize =>
        refine iff_of_true ?_ trivial
        unfold StaysInside
        rw [show (nextChunkSize.perform r) = (.returns (), r.looked) from bind_of_returns hnext]
        have hptr : r.ptr ≤ r.size := by omega
        exact ⟨within_of_mem_looked hd, hptr⟩
      | readChunk len =>
        by_cases hne : n ≠ len
        · have hthrows : (Call.readChunk len).perform r =
              (.throws "Invalid block length", r.looked) := by
            refine bind_of_throws ?_
            unfold Member.readChunk
            rw [bind_of_returns hnext, if_pos hne]
            rfl
          refine iff_of_true (staysInside_of_throws hthrows rfl (within_of_mem_looked hd))
            fun h => ?_
          exact absurd (hlen h).symm hne
        · obtain rfl : n = len := not_not.mp hne
          obtain ⟨r', hread⟩ := readChunk_of_lt hd hlt
          have hperform := perform_of_eq_ite hread
          rw [staysInside_iff_fits (c := .readChunk n) hd hlt hperform]
          exact ⟨fun hfits _ => hfits, fun hcovered => hcovered hd⟩
      | readChunkAsString =>
        obtain ⟨r', hread⟩ := readChunkAsString_of_lt hd hlt
        have hperform := perform_of_eq_ite hread
        rw [staysInside_iff_fits (c := .readChunkAsString) hd hlt hperform]
        refine ⟨fun hfits len h => ?_, fun hcovered => hcovered n hd⟩
        rw [hlen h]
        exact hfits
    · -- the length is not accepted
      rw [if_neg hlt] at hnext
      refine iff_of_true
        (staysInside_of_throws (perform_of_throws hnext c) rfl (within_of_mem_looked hd)) ?_
      have hfits : ∀ {len}, declared r = some len → Fits r len := by
        intro len h hless
        rw [Option.some.inj (h.symm.trans hd)] at hless
        exact absurd hless hlt
      cases c with
      | nextChunkSize => exact trivial
      | readChunk len => exact fun h => hfits h
      | readChunkAsString => exact fun len h => hfits h

/-- Every call of a run of readers stays inside the text exactly if none of them reads a chunk of
which the text lacks one to four octets. -/
theorem reads_inside_iff (text : Text) (calls : List Call) :
    (∀ visit ∈ visits calls (Reader.start text), visit.1.StaysInside visit.2) ↔
      ∀ visit ∈ visits calls (Reader.start text), visit.1.Covered visit.2 :=
  forall₂_congr fun visit _ => staysInside_iff visit.1 visit.2

/-- Three octets are announced and none of them is there. -/
theorem reads_outside :
    ¬ ∀ (text : Text) (calls : List Call), ∀ visit ∈ visits calls (Reader.start text),
      visit.1.StaysInside visit.2 := by
  intro h
  have hinside := h ⟨[3, 0, 0, 0], by decide⟩ [.readChunkAsString] _ (List.mem_cons_self ..)
  rw [staysInside_iff] at hinside
  have hfits : (4 : ℕ) + 3 ≤ 4 := hinside 3 rfl (by decide)
  omega

end Call

end Serialization

end Cppcms
