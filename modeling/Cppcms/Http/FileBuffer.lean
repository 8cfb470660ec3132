import Cppcms.Base.Bytes
import Cppcms.Base.Outcome

/-!
# The buffer of an uploaded file

`file_buffer` keeps the octets that are written to it in memory up to a limit, and in a temporary
file beyond it. They are read independently of the writes.  Its functions are called through the
interface of `std::streambuf`, where reading or writing many octets is the same as doing so with one
octet after the other.

Offsets and sizes are numbers without a bound, but for `pbump`, whose argument is an `int`.
-/

namespace Cppcms

namespace Http

/-! ## The temporary file -/

/-- A file that is open for reading and writing: its octets and the position. -/
structure File where
  content : Bytes
  pos : ℕ
  deriving DecidableEq

namespace File

/-- `fopen` with the mode `w+b`. -/
def opened : File := ⟨[], 0⟩

def seek (n : ℕ) (f : File) : File := { f with pos := n }

def seekEnd (f : File) : File := { f with pos := f.content.length }

/-- `fwrite`: the octets at the position are replaced. -/
def write (d : Bytes) (f : File) : File :=
  ⟨f.content.take f.pos ++ List.replicate (f.pos - f.content.length) 0 ++ d ++ f.content.drop
    (f.pos + d.length), f.pos + d.length⟩

/-- `fread`. -/
def read (n : ℕ) (f : File) : Bytes × File :=
  let d := (f.content.drop f.pos).take n
  (d, { f with pos := f.pos + d.length })

lemma write_seekEnd (d : Bytes) (f : File) :
    f.seekEnd.write d = ⟨f.content ++ d, f.content.length + d.length⟩ := by
  unfold write seekEnd
  dsimp only
  have hdrop : f.content.drop (f.content.length + d.length) = [] :=
    List.drop_eq_nil_of_le (Nat.le_add_right _ _)
  rw [List.take_length, Nat.sub_self, List.replicate_zero, List.append_nil, hdrop, List.append_nil]

end File

/-! ## The buffer -/

/-- `resize` of a `std::vector<char>`. -/
def resize (n : ℕ) (v : Bytes) : Bytes := v.take n ++ List.replicate (n - v.length) 0

lemma length_resize (n : ℕ) (v : Bytes) : (resize n v).length = n := by
  unfold resize
  rw [List.length_append, List.length_take, List.length_replicate]
  omega

/-- `file_buffer`.  The pointers of the areas are offsets from `pbase` and from `eback`: in memory
both areas are in `data_`, otherwise the put area is in `output_` and the get area in `input_`. -/
structure FileBuffer where
  inMemory : Bool
  file : Option File
  limit : ℕ
  fileSize : ℕ
  readOffset : ℕ
  input : Bytes
  output : Bytes
  data : Bytes
  pptr : ℕ
  epptr : ℕ
  gptr : ℕ
  egptr : ℕ
  closed : Bool
  deriving DecidableEq

inductive Way where
  | beg
  | cur
  | end_
  deriving DecidableEq

/-- The place that an offset is counted to. -/
def Way.place (way : Way) (off : ℤ) (position size : ℕ) : ℤ :=
  match way with
  | .beg => off
  | .cur => position + off
  | .end_ => size + off

namespace FileBuffer

def bufferSize : ℕ := 1024

/-- The constructor. -/
def init (mlimit : ℕ) : FileBuffer := ⟨true, none, mlimit, 0, 0, [], [], [], 0, 0, 0, 0, false⟩

def putArea (b : FileBuffer) : Bytes := if b.inMemory then b.data else b.output

def getArea (b : FileBuffer) : Bytes := if b.inMemory then b.data else b.input

def size (b : FileBuffer) : ℕ := b.fileSize + b.pptr

/-- `write_buffer`, and whether it succeeds. -/
def writeBuffer (b : FileBuffer) : FileBuffer × Bool :=
  if b.closed then (b, false)
  else
    let f := (b.file.getD .opened).seekEnd
    ({ b with
      file := some (f.write (b.putArea.take b.pptr))
      fileSize := b.fileSize + b.pptr
      pptr := 0 }, true)

def sync (b : FileBuffer) : FileBuffer × Bool :=
  if b.inMemory then (b, true) else b.writeBuffer

def toFile (b : FileBuffer) : FileBuffer × Bool :=
  if !b.inMemory then (b, true)
  else
    let readOffset := b.gptr
    match b.writeBuffer with
    | (b, false) => (b, false)
    | (b, true) =>
      ({ b with
        data := []
        output := resize bufferSize b.output
        pptr := 0
        epptr := bufferSize
        gptr := 0
        egptr := 0
        readOffset
        inMemory := false }, true)

/-- `seekoff`.  The input is independent of the output, which cannot be moved. -/
def seekoff (off : ℤ) (way : Way) (out : Bool) (b : FileBuffer) : FileBuffer × ℤ :=
  if out then
    if off ≠ 0 ∨ way ≠ .cur then (b, -1) else (b, b.size)
  else if b.inMemory then
    let streamSize := b.pptr
    let rpos := way.place off b.gptr streamSize
    -- `rpos` is a `size_t`, and what is negative is greater than every size
    if rpos < 0 ∨ (streamSize : ℤ) < rpos then (b, -1)
    else ({ b with gptr := rpos.toNat, egptr := b.pptr }, rpos)
  else
    match b.sync with
    | (b, false) => (b, -1)
    | (b, true) =>
      let b := { b with readOffset := b.readOffset + b.gptr, gptr := 0, egptr := 0 }
      let newOffset := way.place off b.readOffset b.fileSize
      if newOffset < 0 ∨ (b.fileSize : ℤ) < newOffset then (b, -1)
      else ({ b with readOffset := newOffset.toNat }, newOffset)

/-- The octet at `gptr`. -/
def current (b : FileBuffer) : UInt8 := b.getArea.getD b.gptr 0

def underflow (b : FileBuffer) : FileBuffer × Option UInt8 :=
  let refilled :=
    if b.inMemory then some { b with egptr := b.pptr }
    else
      match b.sync with
      | (_, false) => none
      | (b, true) =>
        let readOffset := b.readOffset + b.gptr
        let r := ((b.file.getD .opened).seek readOffset).read bufferSize
        some { b with
          readOffset
          file := some r.2
          input := r.1 ++ (resize bufferSize b.input).drop r.1.length
          gptr := 0
          egptr := r.1.length }
  match refilled with
  | none => (b, none)
  | some b => if b.gptr = b.egptr then (b, none) else (b, some b.current)

def pbackfail (b : FileBuffer) : FileBuffer × Option UInt8 :=
  if b.inMemory then (b, none)
  else if b.readOffset = 0 then (b, none)
  else
    let back := min (bufferSize / 2) b.readOffset
    match b.seekoff (-back) .cur false with
    | (b, r) =>
      if r < 0 then (b, none)
      else
        match b.underflow with
        | (b, none) => (b, none)
        | (b, some _) =>
          let b := { b with gptr := b.gptr + (back - 1) }
          (b, some b.current)

/-- The conversion of a `size_t` to an `int`. -/
def toInt (n : ℕ) : ℤ := if n % 2 ^ 32 < 2 ^ 31 then (n % 2 ^ 32 : ℕ) else (n % 2 ^ 32 : ℕ) - 2 ^ 32

/-- `pbump`.  The argument is an `int`, and there is nothing before `pbase`. -/
def pbump (n : ℕ) (b : FileBuffer) : Outcome FileBuffer :=
  let pptr := (b.pptr : ℤ) + toInt n
  if pptr < 0 then .undefined else .returns { b with pptr := pptr.toNat }

/-- An octet is stored at `pptr`. -/
def put (c : UInt8) (b : FileBuffer) : Outcome FileBuffer :=
  if b.pptr < b.putArea.length then
    if b.inMemory then .returns { b with data := b.data.set b.pptr c, pptr := b.pptr + 1 }
    else .returns { b with output := b.output.set b.pptr c, pptr := b.pptr + 1 }
  else .undefined

/-- The length of the vector in memory is doubled up to the limit. -/
def newSize (b : FileBuffer) : ℕ :=
  min (if b.data.length * 2 = 0 then 64 else b.data.length * 2) b.limit

/-- `data_.resize` and `setp`. -/
def resizeData (n : ℕ) (b : FileBuffer) : FileBuffer :=
  { b with data := resize n b.data, pptr := 0, epptr := n }

/-- The octets in memory get more room. -/
def grow (b : FileBuffer) : Outcome FileBuffer := do
  let b' ← (b.resizeData b.newSize).pbump b.pptr
  return { b' with gptr := b.gptr, egptr := b'.pptr }

/-- The part of `overflow` that makes room for an octet. -/
def makeRoom (b : FileBuffer) : Outcome (FileBuffer × Bool) :=
  if b.inMemory then
    if b.limit ≤ b.pptr then .returns b.toFile
    else do
      let b ← b.grow
      return (b, true)
  else .returns b.writeBuffer

def overflow (c : UInt8) (b : FileBuffer) : Outcome (FileBuffer × Bool) := do
  let (b, ok) ← b.makeRoom
  if ok then
    let b ← b.put c
    return (b, true)
  else return (b, false)

/-! ## The interface of `std::streambuf` -/

def sputc (c : UInt8) (b : FileBuffer) : Outcome (FileBuffer × Bool) :=
  if b.pptr < b.epptr then do
    let b ← b.put c
    return (b, true)
  else b.overflow c

def sgetc (b : FileBuffer) : FileBuffer × Option UInt8 :=
  if b.gptr < b.egptr then (b, some b.current) else b.underflow

def sbumpc (b : FileBuffer) : FileBuffer × Option UInt8 :=
  match b.sgetc with
  | (b, none) => (b, none)
  | (b, some c) => ({ b with gptr := b.gptr + 1 }, some c)

def sungetc (b : FileBuffer) : FileBuffer × Option UInt8 :=
  if 0 < b.gptr then
    let b := { b with gptr := b.gptr - 1 }
    (b, some b.current)
  else b.pbackfail

end FileBuffer

/-! ## Operations -/

inductive Op where
  | write (c : UInt8)
  | read
  | peek
  | unget
  | seek (off : ℤ) (way : Way)
  | tellp
  | sync
  | toFile
  | size
  deriving DecidableEq

inductive Result where
  | done (ok : Bool)
  | octet (c : Option UInt8)
  | offset (n : ℤ)
  deriving DecidableEq

/-- An operation, and what the caller sees of it. -/
def FileBuffer.step (b : FileBuffer) : Op → Outcome (FileBuffer × Result)
  | .write c => do
    let (b, ok) ← b.sputc c
    return (b, .done ok)
  | .read => .returns (b.sbumpc.1, .octet b.sbumpc.2)
  | .peek => .returns (b.sgetc.1, .octet b.sgetc.2)
  | .unget => .returns (b.sungetc.1, .octet b.sungetc.2)
  | .seek off way => .returns ((b.seekoff off way false).1, .offset (b.seekoff off way false).2)
  | .tellp => .returns ((b.seekoff 0 .cur true).1, .offset (b.seekoff 0 .cur true).2)
  | .sync => .returns (b.sync.1, .done b.sync.2)
  | .toFile => .returns (b.toFile.1, .done b.toFile.2)
  | .size => .returns (b, .offset b.size)

def FileBuffer.run (b : FileBuffer) : List Op → Outcome (List Result)
  | [] => .returns []
  | op :: ops => do
    let (b, r) ← b.step op
    let rs ← b.run ops
    return r :: rs

end Http

end Cppcms
