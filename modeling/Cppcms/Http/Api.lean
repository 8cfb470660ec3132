import Cppcms.Base.Numbers
import Cppcms.Http.ResponseHeaders

/-!
# The output of the built-in server

The part of `http_api.cpp` that puts a response on the wire: `set_response_headers`,
`make_chunked_wrapper` and `format_output`, with `connection::write` of `cgi_api.cpp`, which drops a
packet for which there was an error. Numbers of octets have no bound, but for `atoll`.
-/

namespace Cppcms

namespace Http

/-- A number as `std::hex` prints it. -/
def showHex (n : ℕ) : Bytes := (Nat.toDigits 16 n).map Char.toUInt8

/-- The members of `http` that the output uses.  `httpConnection` is `HTTP_CONNECTION` of the
environment, and `packageVersion` comes from the build. -/
structure Api where
  packageVersion : Bytes
  httpConnection : Bytes
  errorState : Bool
  isHttp11 : Bool
  clientAcceptsKeepAlive : Bool
  outputContentLength : ℤ
  outputWritten : ℤ
  chunkedTe : Bool
  headersDone : Bool
  keepAlive : Bool
  responseHeaders : Bytes
  deriving DecidableEq, Repr

namespace Api

/-- `reset_all`, and what the request has set after it.  The text of the last response is still
there. -/
def reset (packageVersion httpConnection : Bytes) (errorState isHttp11 : Bool)
    (responseHeaders : Bytes) : Api :=
  ⟨packageVersion, httpConnection, errorState, isHttp11, false, -1, 0, false, false, false,
    responseHeaders⟩

def setResponseHeaders (hdr : ResponseHeaders) (a : Api) : Api :=
  let cl := hdr.getHeader (bytes "Content-Length")
  { a with
    clientAcceptsKeepAlive := Protocol.compare a.httpConnection (bytes "keep-alive") = 0
    outputContentLength := if cl ≠ [] then atoll cl else -1
    outputWritten := 0
    responseHeaders :=
      hdr.formatHttpHeaders (if a.isHttp11 then bytes "1.1" else bytes "1.0") false }

def makeChunkedWrapper (input : Bytes) (completed : Bool) : Bytes :=
  if input.length = 0 then if !completed then input else bytes "0\r\n\r\n"
  else showHex input.length ++ bytes "\r\n" ++ input ++
    if completed then bytes "\r\n0\r\n\r\n" else bytes "\r\n"

/-- Lines of a header. -/
def headerLines (l : List (Bytes × Bytes)) : Bytes :=
  l.flatMap fun x => x.1 ++ bytes ": " ++ x.2 ++ bytes "\r\n"

/-- The length that the first call of `format_output` goes by: it can be calculated if nothing more
follows. -/
def calculatedLength (input : Bytes) (completed : Bool) (a : Api) : ℤ :=
  if a.outputContentLength = -1 ∧ completed then input.length else a.outputContentLength

/-- The connection stays open if the client can tell where the response ends. -/
def keepsAlive (input : Bytes) (completed : Bool) (a : Api) : Bool :=
  a.clientAcceptsKeepAlive && !a.errorState &&
    (a.calculatedLength input completed ≠ -1 || a.isHttp11)

/-- The lines that the first call of `format_output` adds to the headers. -/
def addedLines (input : Bytes) (completed : Bool) (a : Api) : List (Bytes × Bytes) :=
  [(bytes "Server", bytes "CppCMS-Embedded/" ++ a.packageVersion)] ++
    (if a.outputContentLength = -1 ∧
      completed then [(bytes "Content-Length", showNat input.length)] else []) ++
    if a.keepsAlive input completed then
      [(bytes "Connection", bytes "keep-alive")] ++
        if a.calculatedLength input completed =
          -1 then [(bytes "Transfer-Encoding", bytes "chunked")] else []
    else [(bytes "Connection", bytes "close")]

/-- A part of the body that is sent as it is; it is an error if there is more than was announced. -/
def formatPlain (input : Bytes) (a : Api) : Api × Bytes × Bool :=
  let outputWritten := a.outputWritten + input.length
  ({ a with outputWritten }, input, a.outputContentLength ≠ -1 &&
    a.outputContentLength < outputWritten)

/-- A part of the body, behind the headers. -/
def formatBody (input : Bytes) (completed : Bool) (a : Api) : Api × Bytes × Bool :=
  if a.chunkedTe then (a, makeChunkedWrapper input completed, false) else a.formatPlain input

/-- The headers are complete. -/
def finishHeaders (input : Bytes) (completed : Bool) (a : Api) : Api :=
  { a with
    responseHeaders :=
      a.responseHeaders ++ headerLines (a.addedLines input completed) ++ bytes "\r\n"
    outputContentLength := a.calculatedLength input completed
    keepAlive := a.keepsAlive input completed
    chunkedTe := a.keepsAlive input completed && decide (a.calculatedLength input completed = -1)
    headersDone := true }

/-- `format_output`: the packet, and whether there is an error. -/
def formatOutput (input : Bytes) (completed : Bool) (a : Api) : Api × Bytes × Bool :=
  if a.headersDone then a.formatBody input completed
  else
    let a := if a.responseHeaders = [] then a.setResponseHeaders .empty else a
    let a := a.finishHeaders input completed
    let (a, packet, error) := a.formatBody input completed
    (a, a.responseHeaders ++ packet, error)

/-- The calls of `connection::write` for a response, and all octets that go to the socket.  After an
error the device has no connection any more. -/
def writeAll (a : Api) : List (Bytes × Bool) → Api × Bytes
  | [] => (a, [])
  | (input, completed) :: writes =>
    let (a, packet, error) := a.formatOutput input completed
    if error then (a, [])
    else
      let (a, out) := a.writeAll writes
      (a, packet ++ out)

/-- The writes of a body whose last part is `last`. -/
def bodyWrites (parts : List Bytes) (last : Bytes) : List (Bytes × Bool) :=
  (parts.map fun input => (input, false)) ++ [(last, true)]

/-- A response. -/
def respond (hdr : ResponseHeaders) (parts : List Bytes) (last : Bytes) (a : Api) : Api × Bytes :=
  (a.setResponseHeaders hdr).writeAll (bodyWrites parts last)

end Api

end Http

end Cppcms
