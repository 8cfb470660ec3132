import Cppcms.Http.FileBuffer
import Cppcms.Http.ResponseHeaders

/-!
# The output devices of a response

`basic_device` of `http_response.cpp` and the two classes that are derived from it.  An
`async_io_buf` can be told to keep everything in memory; while it is not, it does the same as an
`output_device`, and both are a `Device` here.

The calls that the connection gets are kept in a list.  Offsets and sizes are numbers without a
bound, but for `pbump`, whose argument is an `int`.
-/

namespace Cppcms

namespace Http

open FileBuffer (toInt)

/-- A call of the connection. -/
inductive ConnectionCall where
  | setResponseHeaders (h : ResponseHeaders)
  | write (out : Bytes) (eof : Bool)
  deriving DecidableEq, Repr

/-- What becomes of a write: the connection takes it, it has an error, or it does not exist any
more. -/
inductive Answer where
  | done
  | failed
  | gone
  deriving DecidableEq, Repr

/-- The pointers of the put area are offsets from `pbase`. -/
structure Device where
  full : Bool
  rawMode : Bool
  rawHeaders : CgiHeadersParser
  final : Bool
  eofSend : Bool
  bufferSize : ℕ
  output : Bytes
  pptr : ℕ
  epptr : ℕ
  connected : Bool
  calls : List ConnectionCall
  deriving DecidableEq, Repr

namespace Device

/-- `do_setp`. -/
def doSetp (d : Device) : Device :=
  { d with output := resize d.bufferSize d.output, pptr := 0, epptr := d.bufferSize }

/-- The constructor and `open`. -/
def opened (full rawMode : Bool) (n : ℕ) : Device :=
  doSetp ⟨full, rawMode, .init, false, false, n, [], 0, 0, true, []⟩

/-- `do_write`, and whether it fails. -/
def doWrite (out : Bytes) (eof : Bool) (a : Answer) (d : Device) : Device × Bool :=
  let d := { d with calls := d.calls ++ [.write out eof] }
  if a = .done then (d, true) else ({ d with connected := false }, false)

/-- `write`, and whether it returns zero. -/
def write (out : Bytes) (a : Answer) (d : Device) : Device × Bool :=
  let sendEof := d.final && !d.eofSend
  if !d.connected then (d, false)
  else if a = .gone then ({ d with connected := false }, false)
  else
    let d := { d with eofSend := sendEof }
    if d.rawMode ∧ !d.rawHeaders.completed then
      let (rawHeaders, realOut) := d.rawHeaders.consume out
      let d := { d with rawHeaders }
      if rawHeaders.completed then
        doWrite realOut sendEof a { d with calls := d.calls ++ [.setResponseHeaders rawHeaders.h] }
      else if sendEof then doWrite realOut sendEof a d
      else (d, true)
    else doWrite out sendEof a d

/-- The octets from `pbase` to `pptr`. -/
def pending (d : Device) : Outcome Bytes :=
  if d.pptr ≤ d.output.length then .returns (d.output.take d.pptr) else .undefined

/-- `pbump`.  The argument is an `int`, and there is nothing before `pbase`. -/
def pbump (n : ℕ) (d : Device) : Outcome Device :=
  let pptr := (d.pptr : ℤ) + toInt n
  if pptr < 0 then .undefined else .returns { d with pptr := pptr.toNat }

/-- Octets are copied to `pptr`. -/
def store (s : Bytes) (d : Device) : Outcome Device :=
  if d.pptr + s.length ≤ d.output.length then
    .returns { d with output := d.output.take d.pptr ++ s ++ d.output.drop (d.pptr + s.length) }
  else .undefined

/-- Octets are put behind the others. -/
def append (s : Bytes) (d : Device) : Outcome Device := do
  let d ← d.store s
  d.pbump s.length

/-- `flush`, and whether it returns zero. -/
def flush (a : Answer) (d : Device) : Outcome (Device × Bool) := do
  let out ← d.pending
  let (d, ok) := d.write out a
  return ({ d with pptr := 0 }, ok)

/-- The buffer with some octets behind it is written, and the put area starts again if that
succeeds. -/
def writeWith (s : Bytes) (a : Answer) (d : Device) : Outcome Device := do
  let out ← d.pending
  let (d, ok) := d.write (out ++ s) a
  return if ok then d.doSetp else d

/-! ## Without buffering of everything -/

/-- `basic_device::overflow`; there is no octet in a call of `sync`. -/
def basicOverflow (c : Option UInt8) (a : Answer) (d : Device) : Outcome Device :=
  d.writeWith c.toList a

/-- `basic_device::xsputn`. -/
def basicXsputn (s : Bytes) (a : Answer) (d : Device) : Outcome Device :=
  if d.pptr + s.length ≤ d.epptr then d.append s else d.writeWith s a

/-- `basic_device::setbuf`. -/
def basicSetbuf (size : ℕ) (a : Answer) (d : Device) : Outcome Device :=
  let d := { d with bufferSize := size }
  if size < d.pptr then do
    let (d, ok) ← d.flush a
    return if ok then d.doSetp else d
  else
    let contentSize := d.pptr
    d.doSetp.pbump contentSize

/-! ## With buffering of everything -/

/-- `next_size`. -/
def nextSize (n : ℕ) : ℕ := if n = 0 then 64 else n * 2

/-- The buffer gets another size and keeps what is in it. -/
def resizeTo (n : ℕ) (d : Device) : Outcome Device :=
  let currentSize := d.pptr
  { d with output := resize n d.output, pptr := 0, epptr := n }.pbump currentSize

/-- A full buffer gets larger. -/
def growFull (d : Device) : Outcome Device :=
  if d.pptr = d.epptr then d.resizeTo (nextSize d.output.length) else .returns d

/-- `async_io_buf::overflow`. -/
def fullOverflow (c : Option UInt8) (d : Device) : Outcome Device := do
  let d ← d.growFull
  match c with
  | none => .returns d
  | some c => d.append [c]

/-- The loop that doubles a size until it is not less than `minimal`. -/
def doubleUntil (minimal : ℕ) : ℕ → ℕ → ℕ
  | 0, n => n
  | fuel + 1, n => if n < minimal then doubleUntil minimal fuel (n * 2) else n

/-- The buffer gets large enough for `n` more octets. -/
def growFor (n : ℕ) (d : Device) : Outcome Device :=
  let minimalSize := d.pptr + n
  if d.epptr < minimalSize then d.resizeTo
    (doubleUntil minimalSize minimalSize (nextSize d.output.length))
  else .returns d

/-- `async_io_buf::xsputn`. -/
def fullXsputn (s : Bytes) (d : Device) : Outcome Device := do
  let d ← d.growFor s.length
  d.append s

/-- `async_io_buf::setbuf`. -/
def fullSetbuf (size : ℕ) (d : Device) : Outcome Device :=
  let d := { d with bufferSize := size }
  let contentSize := d.pptr
  let d := if d.output.length < size then { d with output := resize size d.output } else d
  d.doSetp.pbump contentSize

/-! ## The interface -/

def overflow (c : Option UInt8) (a : Answer) (d : Device) : Outcome Device :=
  if d.full then d.fullOverflow c else d.basicOverflow c a

def xsputn (s : Bytes) (a : Answer) (d : Device) : Outcome Device :=
  if d.full then d.fullXsputn s else d.basicXsputn s a

def setbuf (size : ℕ) (a : Answer) (d : Device) : Outcome Device :=
  if d.full then d.fullSetbuf size else d.basicSetbuf size a

/-- `sputc` of `std::streambuf`. -/
def sputc (c : UInt8) (a : Answer) (d : Device) : Outcome Device :=
  if d.pptr < d.epptr then d.append [c] else d.overflow (some c) a

def sync (a : Answer) (d : Device) : Outcome Device := d.overflow none a

/-- `full_buffering`. -/
def fullBuffering (buffering : Bool) (a : Answer) (d : Device) : Outcome Device :=
  if d.full = buffering then .returns d
  else
    let d := { d with full := buffering }
    if buffering then .returns d else d.setbuf d.bufferSize a

def close (a : Answer) (d : Device) : Outcome Device :=
  if d.eofSend then .returns d
  else do
    let (d, _) ← { d with final := true }.flush a
    return d

inductive Op where
  | xsputn (s : Bytes)
  | sputc (c : UInt8)
  | sync
  | flush
  | setbuf (size : ℕ)
  | fullBuffering (buffering : Bool)
  | close
  deriving DecidableEq, Repr

/-- An operation.  It writes to the connection once at most, and `a` is what becomes of that. -/
def step (d : Device) (op : Op) (a : Answer) : Outcome Device :=
  match op with
  | .xsputn s => d.xsputn s a
  | .sputc c => d.sputc c a
  | .sync => d.sync a
  | .flush => do
    let (d, _) ← d.flush a
    return d
  | .setbuf size => d.setbuf size a
  | .fullBuffering buffering => d.fullBuffering buffering a
  | .close => d.close a

def run (d : Device) : List (Op × Answer) → Outcome Device
  | [] => .returns d
  | x :: ops => do
    let d ← d.step x.1 x.2
    d.run ops

end Device

end Http

end Cppcms
