import Cppcms.Http.ContentType
import Cppcms.Http.Spool
import Cppcms.Library.Consume

/-!
# The parser of multipart/form-data

`multipart_parser` of `multipart_parser.h`.  It gets the content of a request in pieces, and returns
to its caller whenever there is something to know about the part that it is reading.

The octets of a part go to a `file_buffer`, of which its `Spool` is kept here.
-/

namespace Cppcms

namespace Http

open Protocol

/-! ## Parts -/

/-- `http::file`. -/
structure HttpFile where
  name : Bytes
  mime : Bytes
  filename : Bytes
  data : Spool

namespace HttpFile

/-- The constructor. -/
def init : HttpFile := ⟨[], [], [], .empty⟩

def hasMime (f : HttpFile) : Bool := f.mime ≠ []

def size (f : HttpFile) : ℕ := f.data.written.length

/-- `sputc` of the output buffer, and whether there is room. -/
def sputc (c : UInt8) (f : HttpFile) : HttpFile × Bool :=
  ({ f with data := (f.data.step (.write c)).1 }, (f.data.step (.write c)).2 = .done true)

/-- `sputn` of the output buffer, and how many octets it has written. -/
def sputn (f : HttpFile) : Bytes → HttpFile × ℕ
  | [] => (f, 0)
  | c :: s =>
    match f.sputc c with
    | (f, false) => (f, 0)
    | (f, true) => ((f.sputn s).1, (f.sputn s).2 + 1)

/-- `data().seekg(0)`. -/
def rewind (f : HttpFile) : HttpFile := { f with data := (f.data.step (.seek 0 .beg)).1 }

end HttpFile

/-! ## The header of a part -/

namespace Multipart

/-- What is before and behind the first end of a line. -/
def findCrlf : Bytes → Option (Bytes × Bytes)
  | [] => none
  | [_] => none
  | c :: d :: s =>
    if c = Ch.return' ∧ d = Ch.newline then some ([], s) else (findCrlf (d :: s)).map fun r =>
      (c :: r.1, r.2)

/-- `parse_pair`. -/
def parsePair (p : Bytes) : Option ((Bytes × Bytes) × Bytes) := do
  let p ← expect Ch.semicolon p
  let (name, p) ← nonemptyTocken (skipWs p)
  let p ← expect Ch.eq p
  let (v, p) ← value (skipWs p)
  return ((name, v), p)

/-- A parameter of `Content-Disposition` is kept. -/
def setField (f : HttpFile) (x : Bytes × Bytes) : HttpFile :=
  let name := x.1.map asciiToLower
  if name = bytes "filename" then { f with filename := x.2 }
  else if name = bytes "name" then { f with name := x.2 }
  else f

/-- A round of the loop of `parse_content_disposition`. -/
def pairStep (p : Bytes) : Option ((Bytes × Bytes) × Bytes) :=
  (parsePair p).map fun r => (r.1, skipWs r.2)

/-- `parse_content_disposition`.  A file that fails is not looked at again. -/
def parseContentDisposition (p : Bytes) (f : HttpFile) : Option HttpFile :=
  (Consume.consume pairStep (skipWs p)).map fun pairs => pairs.foldl setField f

/-- The body of the loop of `process_header`. -/
def oneHeader (line : Bytes) (f : HttpFile) : Option HttpFile := do
  let (headerName, p) := tocken (skipWs line)
  let p ← expect Ch.colon (skipWs p)
  let p := skipWs p
  if Protocol.compare headerName (bytes "Content-Disposition") = 0 then
    let (disposition, p) := tocken p
    if Protocol.compare disposition (bytes "form-data") ≠ 0 then none
    else parseContentDisposition p f
  else if Protocol.compare headerName (bytes "Content-Type") = 0 then
    some { f with mime := (ContentType.parse p).mediaType }
  else some f

/-- The loop of `process_header`, which ends at the empty line. -/
def processLines : ℕ → Bytes → HttpFile → Option HttpFile
  | 0, _, _ => none
  | fuel + 1, hdr, f =>
    match findCrlf hdr with
    | none => none
    | some (line, rest) => if line = [] then some f
      else (oneHeader line f).bind (processLines fuel rest)

/-- `process_header`. -/
def processHeader (hdr : Bytes) (f : HttpFile) : Option HttpFile :=
  processLines (hdr.length + 1) hdr f

/-! ## The parser -/

/-- `parsing_result_type`. -/
inductive ParsingResult where
  | parsingError
  | metaReady
  | contentPartial
  | contentReady
  | continueInput
  | eof
  | noRoomLeft
  deriving DecidableEq

/-- `is_ok`. -/
def ParsingResult.isOk : ParsingResult → Bool
  | metaReady => true
  | contentPartial => true
  | contentReady => true
  | continueInput => true
  | _ => false

/-- `states_type`. -/
inductive State where
  | expectingFirstBoundary
  | expectingOneCrlfOrEof
  | expectingMinus
  | expectingEofCr
  | expectingEofLf
  | expectingLf
  | expectingCrlfcrlf
  | expectingSeparatorBoundary
  deriving DecidableEq

end Multipart

open Multipart

structure MultipartParser where
  state : State
  file : HttpFile
  files : List HttpFile
  position : ℕ
  header : Bytes
  boundary : Bytes
  fileIsReady : Bool

namespace MultipartParser

/-- The constructor. -/
def init : MultipartParser := ⟨.expectingFirstBoundary, .init, [], 0, [], [], false⟩

def crlfcrlf : Bytes := bytes "\r\n\r\n"

/-- `set_content_type`; it is `none` if there is no boundary. -/
def setContentType (ct : ContentType) (p : MultipartParser) : Option MultipartParser :=
  let bkey := ct.parameterByKey (bytes "boundary")
  if bkey = [] then none
  else
    -- the first CRLF does not appear in the first state
    some { p with
      boundary := bytes "\r\n--" ++ bkey
      position := 2
      state := .expectingFirstBoundary
      file := .init }

/-- An octet is consumed and the loop goes on, or `consume` returns with the iterator at the octet
or behind it. -/
inductive Step where
  | next (p : MultipartParser)
  | stop (p : MultipartParser) (r : ParsingResult)
  | past (p : MultipartParser) (r : ParsingResult)

/-- The boundary goes on, or what looked like it was content; the latter is written, and it is told
whether there was room for it. -/
def matchBoundary (c : UInt8) (p : MultipartParser) : MultipartParser × Bool :=
  if c = p.boundary.getD p.position 0 then ({ p with position := p.position + 1 }, true)
  else if 0 < p.position then
    let r := p.file.sputn (p.boundary.take p.position)
    ({ p with file := r.1, position := if c = p.boundary.getD 0 0 then 1 else 0 }, r.2 = p.position)
  else (p, true)

/-- The boundary is complete. -/
def contentReady (p : MultipartParser) : MultipartParser :=
  { p with
    state := .expectingOneCrlfOrEof
    position := 0
    files := p.files ++ [p.file.rewind]
    file := .init
    fileIsReady := false }

/-- The body of the inner loop of `consume`. -/
def contentStep (c : UInt8) (p : MultipartParser) : Step :=
  match p.matchBoundary c with
  | (p, false) => .stop p .noRoomLeft
  | (p, true) =>
    if p.position = 0 then
      match p.file.sputc c with
      | (file, false) => .stop { p with file } .noRoomLeft
      | (file, true) => .next { p with file }
    else if p.position = p.boundary.length then .past p.contentReady .contentReady
    else .next p

/-- The header is complete at the empty line. -/
def headerStep (c : UInt8) (p : MultipartParser) : Step :=
  let header := p.header ++ [c]
  let position := if c = crlfcrlf.getD p.position 0 then p.position + 1 else 0
  if position = crlfcrlf.length then
    match processHeader header p.file with
    | none => .stop { p with header, position } .parsingError
    | some file =>
      .past { p with
        file
        header := []
        position := 0
        state := .expectingSeparatorBoundary
        fileIsReady := true } .metaReady
  else .next { p with header, position }

/-- The next state, if the octet is the one that is expected. -/
def expectOctet (c d : UInt8) (state : State) (p : MultipartParser) : Step :=
  if c ≠ d then .stop p .parsingError else .next { p with state }

/-- The body of the outer loop of `consume`; `last` tells if the buffer ends behind the octet. -/
def step (c : UInt8) (last : Bool) (p : MultipartParser) : Step :=
  match p.state with
  | .expectingFirstBoundary =>
    if c ≠ p.boundary.getD p.position 0 then .stop p .parsingError
    else if p.position + 1 = p.boundary.length then .next
      { p with state := .expectingOneCrlfOrEof, position := 0 }
    else .next { p with position := p.position + 1 }
  | .expectingOneCrlfOrEof =>
    if c = Ch.return' then .next { p with state := .expectingLf }
    else if c = Ch.minus then .next { p with state := .expectingMinus }
    else .stop p .parsingError
  | .expectingMinus => p.expectOctet c Ch.minus .expectingEofCr
  | .expectingEofCr => p.expectOctet c Ch.return' .expectingEofLf
  | .expectingEofLf =>
    if c ≠ Ch.newline then .stop p .parsingError
    else if last then .past p .eof
    else .stop p .parsingError
  | .expectingLf => p.expectOctet c Ch.newline .expectingCrlfcrlf
  | .expectingCrlfcrlf => p.headerStep c
  | .expectingSeparatorBoundary => p.contentStep c

/-- The inner loop of `consume`: the parser, the result and what is left of the buffer. -/
def consumeContent (p : MultipartParser) : Bytes → MultipartParser × ParsingResult × Bytes
  | [] => (p, .contentPartial, [])
  | c :: buffer =>
    match p.contentStep c with
    | .next p => p.consumeContent buffer
    | .stop p r => (p, r, c :: buffer)
    | .past p r => (p, r, buffer)

/-- `consume`: the parser, the result and what is left of the buffer. -/
def consume (p : MultipartParser) : Bytes → MultipartParser × ParsingResult × Bytes
  | [] => (p, if p.fileIsReady then .contentPartial else .continueInput, [])
  | c :: buffer =>
    -- the inner loop always returns
    if p.state = .expectingSeparatorBoundary then p.consumeContent (c :: buffer)
    else
      match p.step c buffer.isEmpty with
      | .next p => p.consume buffer
      | .stop p r => (p, r, c :: buffer)
      | .past p r => (p, r, buffer)

end MultipartParser

end Http

end Cppcms
