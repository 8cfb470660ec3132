import Cppcms.Json.Paths
import Cppcms.Json.Wellformed

/-!
# JSON-RPC

`json_call` and `json_rpc_server::main`.  A method is what it does with its call: it replies, it
releases the call for an asynchronous response, and it throws.  An exception of `return_result` or
`return_error` ends it.

What is written is kept apart for each call of `return_result` and `return_error`.
-/

namespace Cppcms

namespace Rpc

open Json

variable {ν : Type}

/-- The exceptions that `main` tells apart. -/
inductive Thrown where
  | badValueCast
  | callError (what : Bytes)
  | stdException
  | other
  deriving DecidableEq

/-! ## Calls -/

/-- What `json_call` reads of a request. -/
structure Request where
  requestMethod : Bytes
  type : Bytes
  subtype : Bytes
  body : Bytes

/-- `json_call`.  The id of a notification stays undefined. -/
structure Call (ν : Type) where
  id : Value ν
  params : List (Value ν)
  method : Bytes
  notification : Bool

/-- The constructor of `json_call` behind `load`. -/
def Call.ofValue (request : Value ν) : Except Bytes (Call ν) :=
  match request.find (bytes "method"), request.find (bytes "params"), request.find (bytes "id") with
  | some (.str method), some (.array params), some id =>
    match id with
    | .undefined => .error (bytes "Invalid JSON-RPC")
    | .null => .ok ⟨.undefined, params, method, true⟩
    | id => .ok ⟨id, params, method, false⟩
  | _, _, _ => .error (bytes "Invalid JSON-RPC")

/-- The constructor of `json_call`, or the text of a `call_error`. -/
def Call.make (scan : Bytes → Option (ν × ℕ)) (r : Request) : Except Bytes (Call ν) :=
  if r.type ≠ bytes "application" ∨
      (r.subtype ≠ bytes "json" ∧ r.subtype ≠ bytes "jsonrequest" ∧
        r.subtype ≠ bytes "json-rpc") then
    .error (bytes "Invalid content type")
  else if r.requestMethod ≠ bytes "POST" then .error (bytes "Invalid request method")
  else
    match load scan true r.body .undefined with
    | .returns (true, request) => Call.ofValue request
    | _ => .error (bytes "Invalid JSON")

/-! ## Methods -/

/-- `json::value`, whose objects are maps. -/
abbrev JsonValue (ν : Type) := {v : Value ν // Ordered v}

inductive Act (ν : Type) where
  | releaseCall
  | returnResult (v : JsonValue ν)
  | returnError (v : JsonValue ν)
  | throws (x : Thrown)

def Act.isReply : Act ν → Bool
  | returnResult _ => true
  | returnError _ => true
  | _ => false

/-- A method, which replies once at most. -/
structure Method (ν : Type) where
  acts : List (Value ν) → List (Act ν)
  once : ∀ params, (acts params).countP Act.isReply ≤ 1

inductive Role where
  | anyRole
  | methodRole
  | notificationRole
  deriving DecidableEq

/-- `method_data`. -/
structure MethodData (ν : Type) where
  method : Method ν
  role : Role

structure Server (ν : Type) where
  smd : Bytes
  methods : SortedMap Bytes (MethodData ν)

/-! ## Replies -/

/-- The server during a request: whether `current_call_` is there, and the response. -/
structure State where
  held : Bool
  contentHeader : Option Bytes
  texts : List Bytes

def State.init : State := ⟨true, none, []⟩

section

variable (print : ν → Bytes)

/-- `json_call::return_result` with a context. -/
def writeResult (id result : Value ν) : Emitted :=
  (Emitted.done (openBrace :: bytes "\"id\":")).andThen ((insertValue print id).andThen
    ((Emitted.done (bytes ",\"error\":null,\"result\":")).andThen
      ((insertValue print result).andThen
      (.done [closeBrace]))))

/-- `json_call::return_error` with a context. -/
def writeError (id error : Value ν) : Emitted :=
  (Emitted.done (openBrace :: bytes "\"id\":")).andThen ((insertValue print id).andThen
    ((Emitted.done (bytes ",\"error\":")).andThen ((insertValue print error).andThen
      (.done (bytes ",\"result\":null" ++ [closeBrace])))))

/-- What a reply writes. -/
def Act.emitted (id : Value ν) : Act ν → Emitted
  | returnResult v => writeResult print id v
  | returnError v => writeError print id v
  | _ => .done []

namespace State

/-- `return_result` or `return_error` of the server, with the exception if there is one.
`check_call` throws when the call was released. -/
def reply (s : State) (x : Emitted) : Option (State × Option Thrown) :=
  if s.held then
    match x with
    | .done text =>
        some ({ s with contentHeader := some (bytes "application/json"), texts :=
        s.texts ++ [text] }, none)
    | .thrown text =>
      some ({ s with contentHeader := some (bytes "application/json"), texts := s.texts ++ [text] },
        some .badValueCast)
    | .endless => none
  else some (s, some .stdException)

def act (id : Value ν) (s : State) : Act ν → Option (State × Option Thrown)
  | .releaseCall => if s.held then some ({ s with held := false }, none)
    else some (s, some .stdException)
  | .throws x => some (s, some x)
  | a => s.reply (a.emitted print id)

/-- A method is called. -/
def run (id : Value ν) : List (Act ν) → State → Option (State × Option Thrown)
  | [], s => some (s, none)
  | a :: acts, s =>
    match s.act print id a with
    | none => none
    | some (s, some x) => some (s, some x)
    | some (s, none) => run id acts s

end State

/-- The error that a `catch` of `main` replies with. -/
def Thrown.report : Thrown → Option Bytes
  | badValueCast => some (bytes "Invalid parameters")
  | callError what => some (what.takeWhile (· ≠ 0))
  | stdException => some (bytes "Internal Service Error")
  | other => none

/-- A reply with an error of `main`. -/
def State.replyError (call : Call ν) (s : State) (text : Bytes) : Option (State × Option Thrown) :=
  s.reply (writeError print call.id (.str text))

/-- The inner `try` of `main`. -/
def callMethod (call : Call ν) (m : Method ν) : Option (State × Option Thrown) :=
  match State.init.run print call.id (m.acts call.params) with
  | none => none
  | some (s, none) => some (s, none)
  | some (s, some x) =>
    match x.report with
    | none => some (s, some x)
    | some text => if s.held ∧
        call.notification = false then s.replyError print call text else some (s, none)

/-- `main` behind the constructor of the call. -/
def dispatch (server : Server ν) (call : Call ν) : Option (State × Option Thrown) :=
  match server.methods.find call.method with
  | none =>
    if call.notification then some (State.init, none)
    else State.init.replyError print call (bytes "Method not found")
  | some data =>
    if data.role = .notificationRole ∧ call.notification = false then
      State.init.replyError print call (bytes "The request should be notification")
    else if data.role = .methodRole ∧ call.notification then some (State.init, none)
    else callMethod print call data.method

/-- `main`: the response, and the exception that leaves it if there is one. -/
def main (scan : Bytes → Option (ν × ℕ)) (server : Server ν) (r : Request) :
    Option (State × Option Thrown) :=
  if server.smd ≠ [] ∧ r.requestMethod = bytes "GET" then
    some (⟨true, some (bytes "application/json"), [server.smd]⟩, none)
  else
    match Call.make scan r with
    | .error what => some (⟨false, some (bytes "text/plain"), [what ++ [Ch.newline]]⟩, none)
    | .ok call => dispatch print server call

end

end Rpc

end Cppcms
