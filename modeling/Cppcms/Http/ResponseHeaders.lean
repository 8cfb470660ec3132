import Cppcms.Http.Protocol

/-!
# The headers of a response

`response_headers`, and `cgi_headers_parser`, which reads them from the begin of a raw response.
-/

namespace Cppcms

namespace Http

open Protocol

/-- `response_headers`: the headers by their names, in the order of `icompare_type`, and lines that
were added. -/
structure ResponseHeaders where
  headers : List (Bytes × Bytes)
  added : List Bytes
  deriving DecidableEq, Repr

namespace ResponseHeaders

def empty : ResponseHeaders := ⟨[], []⟩

/-- `headers_[name]=value`.  The spelling of the name stays as it was. -/
def assign (name value : Bytes) : List (Bytes × Bytes) → List (Bytes × Bytes)
  | [] => [(name, value)]
  | x :: l =>
    if Protocol.compare x.1 name < 0 then x :: assign name value l
    else if Protocol.compare name x.1 < 0 then (name, value) :: x :: l
    else (x.1, value) :: l

/-- `headers_.find`. -/
def find (name : Bytes) (h : ResponseHeaders) : Option (Bytes × Bytes) :=
  h.headers.find? fun x => Protocol.compare x.1 name = 0

def eraseHeader (name : Bytes) (h : ResponseHeaders) : ResponseHeaders :=
  { h with headers := h.headers.filter fun x => Protocol.compare x.1 name ≠ 0 }

def setHeader (name value : Bytes) (h : ResponseHeaders) : ResponseHeaders :=
  if value = [] then h.eraseHeader name else { h with headers := assign name value h.headers }

def getHeader (name : Bytes) (h : ResponseHeaders) : Bytes := ((h.find name).map Prod.snd).getD []

/-- `add_header` with a line. -/
def addLine (header : Bytes) (h : ResponseHeaders) : ResponseHeaders :=
  { h with added := h.added ++ [header] }

def addHeader (name value : Bytes) (h : ResponseHeaders) : ResponseHeaders :=
  if Protocol.compare name (bytes "status") = 0 ∨
    Protocol.compare name (bytes "content-length") = 0 then
    h.setHeader name value
  else h.addLine (name ++ bytes ": " ++ value)

/-- `format_http_headers`. -/
def formatHttpHeaders (httpVersion : Bytes) (complete : Bool) (h : ResponseHeaders) : Bytes :=
  let status := (h.find (bytes "Status")).elim (bytes "200 Ok") Prod.snd
  let others := h.headers.filter fun x => some x ≠ h.find (bytes "Status")
  bytes "HTTP/" ++ httpVersion ++ bytes " " ++ status ++ bytes "\r\n" ++
    (others.flatMap fun x => x.1 ++ bytes ": " ++ x.2 ++ bytes "\r\n") ++
    (h.added.flatMap fun line => line ++ bytes "\r\n") ++ (if complete then bytes "\r\n" else [])

end ResponseHeaders

/-- `cgi_headers_parser`. -/
structure CgiHeadersParser where
  header : Bytes
  h : ResponseHeaders
  completed : Bool
  deriving DecidableEq, Repr

namespace CgiHeadersParser

def init : CgiHeadersParser := ⟨[], .empty, false⟩

/-- The headers with the line that was read last. -/
def withLine (line : Bytes) (h : ResponseHeaders) : ResponseHeaders :=
  let start := skipWs line
  let (name, keyEnd) := tocken start
  match skipWs keyEnd with
  | [] => h.addLine line
  | c :: p => if name ≠ [] ∧ c = Ch.colon then h.addHeader name (skipWs p) else h.addLine line

/-- `consume`: the parser and what is left of the data. -/
def consume (p : CgiHeadersParser) : Bytes → CgiHeadersParser × Bytes
  | [] => (p, [])
  | c :: data =>
    if p.completed then (p, c :: data)
    else
      let header := p.header ++ [c]
      let line := header.take (header.length - 2)
      if 2 ≤ header.length ∧ header.drop (header.length - 2) = bytes "\r\n" then
        if line = [] then ({ p with header, completed := true }, data)
        else consume { p with header := [], h := withLine line p.h } data
      else consume { p with header } data

end CgiHeadersParser

end Http

end Cppcms
