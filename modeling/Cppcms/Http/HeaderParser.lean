import Cppcms.Http.Protocol

/-!
# Reading the headers of a request

`parser` of `http_parser.h`, and how `some_headers_data_read` of `http_api.cpp` drives it over the
reads of a socket. A line ends only where the next one is seen not to start with white space, so
that the parser gives a character back.
-/

namespace Cppcms

namespace Http

open Protocol

/-! ## The parser -/

inductive ParserState where
  | idle
  | inputObserved
  | lastLfExptected
  | lfExptected
  | spaceOrOtherExptected
  | quoteExpected
  | passQuoteExptected
  | closingBracketExpected
  | passClosingBracketExpected
  deriving DecidableEq, Repr

/-- What `step` returns; `gotHeader` comes with `header_`. -/
inductive StepResult where
  | moreData
  | gotHeader (header : Bytes)
  | endOfHeaders
  | errorObserverd
  deriving DecidableEq, Repr

structure HeaderParser where
  state : ParserState
  bracketCounter : UInt32
  header : Bytes
  deriving DecidableEq, Repr

namespace HeaderParser

/-- `reset`. -/
def reset : HeaderParser := ⟨.idle, 0, []⟩

/-- What a round of the loop of `step` ends with: the next round, or a result; the last one after
`ungetc`. -/
inductive Turn where
  | goes (p : HeaderParser)
  | returns (p : HeaderParser) (r : StepResult)
  | ungets (p : HeaderParser) (r : StepResult)

/-- `header_+=char(c)`. -/
def append (c : UInt8) (p : HeaderParser) : HeaderParser := { p with header := p.header ++ [c] }

/-- The last two characters of `header_` are removed. -/
def withoutCrlf (p : HeaderParser) : HeaderParser :=
  { p with header := p.header.take (p.header.length - 2) }

/-- The cases of `idle` and of `input_observed`. -/
def observe (onReturn : ParserState) (c : UInt8) (p : HeaderParser) : HeaderParser :=
  if c = Ch.return' then { p with state := onReturn }
  else if c = Ch.quote then { p with state := .quoteExpected }
  else if c = 0x28 then { p with state := .closingBracketExpected, bracketCounter :=
    p.bracketCounter + 1 }
  else { p with state := .inputObserved }

/-- The case of `quote_expected`. -/
def insideQuote (c : UInt8) (p : HeaderParser) : HeaderParser :=
  if c = Ch.quote then { p with state := .inputObserved }
  else if c = 0x5C then { p with state := .passQuoteExptected }
  else p

/-- The case of `closing_bracket_expected`. -/
def insideBracket (c : UInt8) (p : HeaderParser) : HeaderParser :=
  if c = 0x29 then
    { p with
      bracketCounter := p.bracketCounter - 1
      state := if p.bracketCounter - 1 = 0 then .inputObserved else p.state }
  else if c = 0x5C then { p with state := .passClosingBracketExpected }
  else p

/-- A round of the loop of `step` with a character. -/
def turn (c : UInt8) (p : HeaderParser) : Turn :=
  match p.state with
  | .idle => .goes (({ p with header := [] }.observe .lastLfExptected c).append c)
  | .lastLfExptected =>
    if c ≠ Ch.newline then .returns p .errorObserverd
    else .returns { p with header := [] } .endOfHeaders
  | .lfExptected =>
    if c ≠ Ch.newline then .returns p .errorObserverd
    else .goes ({ p with state := .spaceOrOtherExptected }.append c)
  | .spaceOrOtherExptected =>
    if c = Ch.space ∨
      c = Ch.tab then .goes ({ p.withoutCrlf with state := .inputObserved }.append c)
    else .ungets { p.withoutCrlf with state := .idle } (.gotHeader p.withoutCrlf.header)
  | .inputObserved => .goes ((p.observe .lfExptected c).append c)
  | .quoteExpected => .goes ((p.insideQuote c).append c)
  | .passQuoteExptected =>
    if 127 ≤ c then .returns p .errorObserverd
    else .goes ({ p with state := .quoteExpected }.append c)
  | .closingBracketExpected => .goes ((p.insideBracket c).append c)
  | .passClosingBracketExpected =>
    if 127 ≤ c then .returns p .errorObserverd
    else .goes ({ p with state := .closingBracketExpected }.append c)

end HeaderParser

/-! ## The buffer -/

/-- The members of `http` that reading uses.  `ungot` is the stack of `ungetc`. -/
structure HeaderReader where
  parser : HeaderParser
  ungot : List UInt8
  inputBody : Bytes
  inputBodyPtr : ℕ
  totalRead : ℕ
  firstHeaderObserverd : Bool
  deriving DecidableEq, Repr

namespace HeaderReader

/-- After `reset_all`; the buffer may have something left that was read with the request before. -/
def start (inputBody : Bytes) (inputBodyPtr : ℕ) : HeaderReader :=
  ⟨.reset, [], inputBody, inputBodyPtr, 0, false⟩

def getc (r : HeaderReader) : Option UInt8 × HeaderReader :=
  match r.ungot with
  | c :: ungot => (some c, { r with ungot })
  | [] =>
    match r.inputBody[r.inputBodyPtr]? with
    | some c => (some c, { r with inputBodyPtr := r.inputBodyPtr + 1 })
    | none => (none, { r with inputBody := [], inputBodyPtr := 0 })

def ungetc (c : UInt8) (r : HeaderReader) : HeaderReader :=
  if 0 < r.inputBodyPtr then { r with inputBodyPtr := r.inputBodyPtr - 1 }
    else { r with ungot := c :: r.ungot }

/-- The loop of `step`. -/
def stepLoop : ℕ → HeaderReader → HeaderReader × StepResult
  | 0, r => (r, .moreData)
  | fuel + 1, r =>
    match r.getc with
    | (none, r) => (r, .moreData)
    | (some c, r) =>
      match r.parser.turn c with
      | .goes parser => stepLoop fuel { r with parser }
      | .returns parser result => ({ r with parser }, result)
      | .ungets parser result => ({ r with parser }.ungetc c, result)

/-- `step`.  Every round but the last takes a character. -/
def step (r : HeaderReader) : HeaderReader × StepResult :=
  stepLoop (r.ungot.length + r.inputBody.length + 1) r

/-! ## The driver -/

/-- The first header has to be a request line: a method, an address and a protocol. -/
def parseRequestLine (header : Bytes) : Option (Bytes × Bytes × Bytes) :=
  match header.dropWhile (· ≠ Ch.space) with
  | [] => none
  | _ :: rest =>
    match rest.dropWhile (· ≠ Ch.space) with
    | [] => none
    | _ :: protocol =>
        some (header.takeWhile (· ≠ Ch.space), rest.takeWhile (· ≠ Ch.space), protocol)

/-- `parse_single_header`. -/
def parseSingleHeader (header : Bytes) : Option (Bytes × Bytes) := do
  let (name, p) ← nonemptyTocken (skipWs header)
  let p ← expect Ch.colon (skipWs p)
  return (name.map fun c => if c = Ch.minus then Ch.underscore
    else if 0x61 ≤ c ∧ c ≤ 0x7A then c - 0x61 + 0x41 else c, skipWs p)

/-- What a driver of the parser refuses: some headers, and too much to read before the end of the
headers. -/
structure Checks where
  accepts : Bool → Bytes → Bool
  limit : Option ℕ

/-- The parser alone. -/
def Checks.none : Checks := ⟨fun _ _ => true, .none⟩

/-- The checks of `some_headers_data_read`. -/
def Checks.http : Checks where
  accepts first header :=
    if first then (parseRequestLine header).isSome else (parseSingleHeader header).isSome
  limit := some 16384

/-- The checks without the limit. -/
def Checks.unlimited : Checks := { Checks.http with limit := .none }

/-- How far the reading has come: it waits for more, the headers are complete, or there was a
violation. -/
inductive Status where
  | waiting
  | completed
  | refused
  deriving DecidableEq, Repr

/-- The loop of `some_headers_data_read`, with the results of its calls of `step`. -/
def drain (k : Checks) : ℕ → HeaderReader → HeaderReader × List StepResult × Status
  | 0, r => (r, [], .waiting)
  | fuel + 1, r =>
    match r.step with
    | (r, .moreData) => (r, [], if k.limit.any (· < r.totalRead) then .refused else .waiting)
    | (r, .gotHeader header) =>
      if k.accepts (!r.firstHeaderObserverd) header then
        let (r, results, status) := drain k fuel { r with firstHeaderObserverd := true }
        (r, .gotHeader header :: results, status)
      else (r, [.gotHeader header], .refused)
    | (r, .endOfHeaders) => (r, [.endOfHeaders], .completed)
    | (r, .errorObserverd) => (r, [.errorObserverd], .refused)

/-- Every header but the first takes a character. -/
def drainAll (k : Checks) (r : HeaderReader) : HeaderReader × List StepResult × Status :=
  drain k (2 * (r.ungot.length + r.inputBody.length) + 2) r

/-- Octets are read into the empty buffer. -/
def fill (chunk : Bytes) (r : HeaderReader) : HeaderReader :=
  { r with inputBody := chunk, inputBodyPtr := 0, totalRead := r.totalRead + chunk.length }

/-- The reading of the headers: the results of `step`, and what was read and not used. -/
structure Reading where
  results : List StepResult
  status : Status
  unread : Bytes
  deriving DecidableEq, Repr

/-- The calls of `some_headers_data_read` with an empty buffer, one for each read. -/
def drive (k : Checks) : List Bytes → HeaderReader → Reading
  | [], _ => ⟨[], .waiting, []⟩
  | chunk :: reads, r =>
    match (r.fill chunk).drainAll k with
    | (r, results, .waiting) =>
        { drive k reads r with results := results ++ (drive k reads r).results }
    | (r, results, status) => ⟨results, status, r.inputBody.drop r.inputBodyPtr ++ reads.flatten⟩

def inputBufferEmpty (r : HeaderReader) : Bool :=
  r.inputBody = [] || r.inputBodyPtr = r.inputBody.length

/-- `some_headers_data_read` until the headers are complete or there is nothing more to read. -/
def read (k : Checks) (reads : List Bytes) (r : HeaderReader) : Reading :=
  if r.inputBufferEmpty then drive k reads r
  else
    match { r with totalRead := r.totalRead + (r.inputBody.length - r.inputBodyPtr) }.drainAll
      k with
    | (r, results, .waiting) =>
        { drive k reads r with results := results ++ (drive k reads r).results }
    | (r, results, status) => ⟨results, status, r.inputBody.drop r.inputBodyPtr ++ reads.flatten⟩

end HeaderReader

end Http

end Cppcms
