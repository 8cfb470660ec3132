import Cppcms.Http.Form
import Cppcms.Http.Multipart

/-!
# The content of a request

`request::on_content_start` and `request::on_content_progress` of `http_request.cpp`.  The
connection calls the latter for every piece of the content that it has read, until it returns
something else than 0, which is the status of the answer then.
-/

namespace Cppcms

namespace Http

/-- `content_limits`, in octets. -/
structure ContentLimits where
  contentLengthLimit : ℤ
  multipartFormDataLimit : ℤ

/-- The classes of filters that a request tells apart. -/
inductive FilterKind where
  | basic
  | rawContent
  | multipart
  deriving DecidableEq

/-- The calls that a filter gets. -/
inductive FilterCall where
  | onDataChunk (data : Bytes)
  | onNewFile (f : HttpFile)
  | onUploadProgress (f : HttpFile)
  | onDataReady (f : HttpFile)
  | onEndOfContent

/-- A filter of the application; a call may throw, which gives the status of the answer. -/
structure ContentFilter where
  kind : FilterKind
  call : FilterCall → Option ℕ

/-- What a request has of its content. -/
structure Request where
  limits : ContentLimits
  filter : Option ContentFilter
  contentType : ContentType
  contentLength : ℤ
  readSize : ℤ
  readFull : Bool
  postData : Bytes
  parser : Option MultipartParser
  post : Form
  files : List HttpFile
  ready : Bool

namespace Request

open Multipart

/-- A request before its content, as `prepare` leaves it. -/
def init (limits : ContentLimits) (filter : Option ContentFilter) (contentType : ContentType)
    (contentLength : ℤ) :
    Request :=
  ⟨limits, filter, contentType, contentLength, 0, false, [], none, ∅, [], contentLength = 0⟩

/-- `filter_is_raw_content_filter`. -/
def filterIsRaw (r : Request) : Bool := r.filter.any fun f => f.kind = .rawContent

/-- `on_content_start`. -/
def onContentStart (r : Request) : Request × ℕ :=
  if r.contentLength = 0 then (r, 0)
  else if r.contentType.isMultipartFormData ∧
    r.contentLength > r.limits.multipartFormDataLimit then (r, 413)
  else if ¬ r.contentType.isMultipartFormData ∧
  r.contentLength > r.limits.contentLengthLimit then (r, 413)
  else if r.filterIsRaw then (r, 0)
  else if ¬ r.contentType.isMultipartFormData then
    ({ r with postData := List.replicate r.contentLength.toNat 0, readFull := true }, 0)
  else
    match MultipartParser.init.setContentType r.contentType with
    | none => ({ r with parser := some .init }, 400)
    | some p => ({ r with parser := some p }, 0)

/-- A filter of one kind is called. -/
def notify (r : Request) (kind : FilterKind) (c : FilterCall) : Option ℕ :=
  r.filter.bind fun f => if f.kind = kind then f.call c else none

/-- `size_ok`. -/
def sizeOk (f : HttpFile) (size : ℤ) : Bool := ¬ (¬ f.hasMime ∧ (f.size : ℤ) > size)

/-- What is done with the result of `consume`, and the status if the request fails. -/
def check (r : Request) (p : MultipartParser) (rest : Bytes) :
    ParsingResult → MultipartParser × Option ℕ
  | .metaReady => (p, r.notify .multipart (.onNewFile p.file))
  | .contentPartial =>
    if ¬ p.fileIsReady then (p, some 500)
    else if ¬ sizeOk p.file r.limits.contentLengthLimit then (p, some 413)
    else (p, r.notify .multipart (.onUploadProgress p.file))
  | .contentReady =>
    match p.files.getLast? with
    | none => (p, some 500)
    | some f =>
      let p := { p with files := p.files.dropLast ++ [f.rewind] }
      if ¬ sizeOk f.rewind r.limits.contentLengthLimit then (p, some 413)
      else (p, r.notify .multipart (.onDataReady f.rewind))
  | .continueInput => (p, none)
  | .noRoomLeft => (p, some 413)
  | .eof => (p, if rest ≠ [] ∨ r.readSize ≠ r.contentLength then some 400 else none)
  | .parsingError => (p, some 400)

/-- The loop over `consume`: the parser, and the last result or the status. -/
def consumeAll (r : Request) :
    ℕ → MultipartParser → Bytes → ParsingResult → MultipartParser × Except ℕ ParsingResult
  | 0, p, _, result => (p, .ok result)
  | fuel + 1, p, buffer, result =>
    if buffer = [] then (p, .ok result)
    else
      match p.consume buffer with
      | (p, result, rest) =>
        match r.check p rest result with
        | (p, some status) => (p, .error status)
        | (p, none) => r.consumeAll fuel p rest result

/-- The multipart parser gets a piece of the content.  Every call of `consume` that succeeds reads
an octet. -/
def feed (r : Request) (p : MultipartParser) (data : Bytes) : Request × Option ℕ :=
  match r.consumeAll data.length p data .continueInput with
  | (p, .error status) => ({ r with parser := some p }, some status)
  | (p, .ok result) =>
    ({ r with parser := some p }, if r.readSize = r.contentLength ∧
      result ≠ .eof then some 400 else none)

/-- `sbumpc` until there is nothing left. -/
def sbumpcAll : ℕ → Spool → Bytes
  | 0, _ => []
  | fuel + 1, s =>
    match s.step .read with
    | (s, .octet (some c)) => c :: sbumpcAll fuel s
    | _ => []

/-- `read_file`. -/
def readFile (f : HttpFile) : Bytes := sbumpcAll (f.size + 1) f.rewind.data

/-- A part of the content goes to the fields or to the files. -/
def addFile (r : Request) (f : HttpFile) : Request :=
  if ¬ f.hasMime then { r with post := r.post.insert f.name (readFile f) } else { r with files :=
    r.files ++ [f] }

/-- The whole content was read. -/
def finish (r : Request) : Request × ℕ :=
  let r :=
    if r.readFull then
      if r.contentType.isFormUrlencoded then { r with post :=
        (Form.parseFormUrlencoded r.postData r.post).2 } else r
    else { r with postData := [] }
  match r.filter.bind fun f => f.call .onEndOfContent with
  | some status => (r, status)
  | none =>
    match r.parser with
    | none => ({ r with ready := true }, 0)
    | some p => ({ p.files.foldl addFile { r with parser := none } with ready := true }, 0)

/-- A piece of the content comes to its place. -/
def store (r : Request) (data : Bytes) : Request :=
  { r with
    postData :=
      if r.readFull then
        r.postData.take r.readSize.toNat ++ data ++ r.postData.drop (r.readSize.toNat + data.length)
      else data
    readSize := r.readSize + data.length }

/-- `on_content_progress`. -/
def onContentProgress (r : Request) (data : Bytes) : Request × ℕ :=
  if data = [] then (r, 0)
  else
    let r := r.store data
    match r.notify .rawContent (.onDataChunk data) with
    | some status => (r, status)
    | none =>
      match r.parser with
      | none => if r.readSize = r.contentLength then r.finish else (r, 0)
      | some p =>
        match r.feed p data with
        | (r, some status) => (r, status)
        | (r, none) => if r.readSize = r.contentLength then r.finish else (r, 0)

/-- The pieces of a content, up to the first one that makes the request fail. -/
def receive (r : Request) : List Bytes → Request × ℕ
  | [] => (r, 0)
  | data :: pieces =>
    match r.onContentProgress data with
    | (r, 0) => r.receive pieces
    | (r, status) => (r, status)

end Request

end Http

end Cppcms
