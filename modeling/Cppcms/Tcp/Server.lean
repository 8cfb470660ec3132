import Cppcms.Cache.Storage
import Cppcms.Library.Slice
import Cppcms.Library.Terminated
import Cppcms.Session.Storage

/-!
# The cache server

The messages of `tcp_cache_protocol.h` and the answers of a session of `tcp_cache_server.cpp`.  A
message is a header and the data that follow it; the size in the header is the number of these
octets.  Reading behind the end of the data is not defined: there is no answer then (`none`).
-/

namespace Cppcms

namespace Tcp

open Cache

/-- The opcode of a header with the fields of the union that go with it. -/
inductive Operation where
  | fetch (currentGen keyLen : ℕ) (transferTriggers transferIfNotUptodate : Bool)
  | rise (triggerLen : ℕ)
  | clear
  | store (timeout : ℤ) (keyLen dataLen triggersLen : ℕ)
  | stats
  | error
  | done
  | data (generation : ℕ) (timeout : ℤ) (dataLen triggersLen : ℕ)
  | noData
  | uptodate
  | outStats (keys triggers : ℕ)
  | sessionSave (timeout : ℤ)
  | sessionLoad
  | sessionLoadData (timeout : ℤ)
  | sessionRemove
  deriving DecidableEq, Repr

/-- A header and the data after it. -/
structure Message where
  operation : Operation
  data : Bytes
  deriving DecidableEq, Repr

/-- The header after `memset`: the opcode zero is `fetch`. -/
def Operation.zero : Operation := .fetch 0 0 false false

/-- A value in a field of 32 bits. -/
def uint32 (n : ℕ) : ℕ := n % 2 ^ 32

/-- The header with a size and the first octets of the data that are sent after it. -/
def send (operation : Operation) (size : ℕ) (data : Bytes) : Option Message :=
  if uint32 size ≤ data.length then some ⟨operation, data.take (uint32 size)⟩ else none

/-- The whole of the data is sent. -/
lemma send_length {operation : Operation} {data : Bytes} (hdata : data.length < 2 ^ 32) :
    send operation data.length data = some ⟨operation, data⟩ := by
  unfold send uint32
  rw [Nat.mod_eq_of_lt hdata, if_pos le_rfl, List.take_length]

/-- The strings of a text, as a loop over `strlen` finds them.  The counter of the loop is an `int`.
-/
def readStrings (text : Bytes) (len : ℕ) : List Bytes :=
  if 2 ^ 31 ≤ len then [] else pieces 0 text

/-- `load_triggers`: an empty string ends the loop with an error. -/
def loadTriggers (text : Bytes) (len : ℕ) : Option StringSet :=
  (readStrings text len).foldlM
    (fun triggers tag => if tag.isEmpty then none else some (triggers.insert tag)) ∅

/-- `tcp_cache_service::session`: the cache and the sessions that it serves. -/
structure Server (σ : Type) where
  cache : Option MemCache
  sessions : Option σ

/-! ## The cache -/

/-- `session::fetch`. -/
def serveFetch (c : MemCache) (now : ℤ) (currentGen : ℕ)
    (transferTriggers transferIfNotUptodate : Bool) (data : Bytes) : Option (MemCache × Message) :=
  (c.fetch now data).bind fun q =>
    match q.2 with
    | none => some (q.1, ⟨.noData, []⟩)
    | some e =>
      if transferIfNotUptodate && e.generation = currentGen then some (q.1, ⟨.uptodate, []⟩)
      else
        let dataLen := uint32 e.data.length
        let dataOut := if transferTriggers then e.data ++ terminate 0 e.triggers.toList else e.data
        let triggersLen := uint32 (dataOut.length - dataLen)
        (send (.data e.generation e.timeout dataLen triggersLen) dataOut.length dataOut).map
          fun m => (q.1, m)

/-- `session::rise`. -/
def serveRise (c : MemCache) (data : Bytes) : Option (MemCache × Message) :=
  (c.rise data).map fun c => (c, ⟨.done, []⟩)

/-- `session::clear`. -/
def serveClear (c : MemCache) : Option (MemCache × Message) := some (c.clear, ⟨.done, []⟩)

/-- `session::stats`. -/
def serveStats (c : MemCache) : Option (MemCache × Message) :=
  some (c, ⟨.outStats (uint32 c.size) (uint32 c.triggersCount), []⟩)

/-- `session::store`. -/
def serveStore (settings : Settings) (c : MemCache) (now : ℤ) (memory : Cache.Memory) (timeout : ℤ)
    (keyLen dataLen triggersLen : ℕ) (data : Bytes) : Option (MemCache × Message) :=
  if uint32 (keyLen + dataLen + triggersLen) ≠ data.length ∨ keyLen = 0 then some (c, ⟨.error, []⟩)
  else
    (slice data (keyLen + dataLen) triggersLen).bind fun ts =>
      match loadTriggers ts triggersLen with
      | none => some (c, ⟨.error, []⟩)
      | some triggers =>
        (slice data 0 keyLen).bind fun key =>
          (slice data keyLen dataLen).bind fun value =>
            (c.store settings now memory key value triggers timeout none).map fun c =>
              (c, ⟨.done, []⟩)

/-! ## The sessions -/

variable {σ : Type}

/-- `session::save`. -/
def serveSave (storage : Session.Storage σ) (s : σ) (now : ℤ) (timeout : ℤ) (data : Bytes) :
    σ × Message :=
  if data.length < 32 then (s, ⟨.error, []⟩)
  else (storage.save now s (data.take 32) timeout (data.drop 32), ⟨.done, []⟩)

/-- The conversion of a `time_t` to an `int`. -/
def toInt (timeout : ℤ) : ℤ := timeout.bmod (2 ^ 32)

/-- `session::load`. -/
def serveLoad (storage : Session.Storage σ) (s : σ) (now : ℤ) (data : Bytes) :
    Option (σ × Message) :=
  if data.length ≠ 32 then some (s, ⟨.error, []⟩)
  else
    let q := storage.load now s data
    match q.2 with
    | none => some (q.1, ⟨.noData, []⟩)
    | some (timeout, value) =>
      if toInt timeout < 0 then some (q.1, ⟨.noData, []⟩)
      else (send (.sessionLoadData (toInt timeout)) value.length value).map fun m => (q.1, m)

/-- `session::remove`: the opcode of the answer is not set. -/
def serveRemove (storage : Session.Storage σ) (s : σ) (now : ℤ) (data : Bytes) : σ × Message :=
  if data.length ≠ 32 then (s, ⟨.error, []⟩) else (storage.remove now s data, ⟨.zero, []⟩)

/-! ## Dispatch -/

/-- A request to the cache. -/
def onCache (server : Server σ) (f : MemCache → Option (MemCache × Message)) :
    Option (Server σ × Message) :=
  match server.cache with
  | none => some (server, ⟨.error, []⟩)
  | some c => (f c).map fun q => ({ server with cache := some q.1 }, q.2)

/-- A request to the sessions. -/
def onSessions (server : Server σ) (f : σ → Option (σ × Message)) : Option (Server σ × Message) :=
  match server.sessions with
  | none => some (server, ⟨.error, []⟩)
  | some s => (f s).map fun q => ({ server with sessions := some q.1 }, q.2)

/-- `on_data_in`: the answer to a message. -/
def onDataIn (settings : Settings) (storage : Session.Storage σ) (server : Server σ) (now : ℤ)
    (memory : Cache.Memory) (m : Message) : Option (Server σ × Message) :=
  match m.operation with
  | .fetch currentGen _ transferTriggers transferIfNotUptodate =>
    onCache server fun c =>
      serveFetch c now currentGen transferTriggers transferIfNotUptodate m.data
  | .rise _ => onCache server fun c => serveRise c m.data
  | .clear => onCache server serveClear
  | .store timeout keyLen dataLen triggersLen =>
    onCache server fun c =>
      serveStore settings c now memory timeout keyLen dataLen triggersLen m.data
  | .stats => onCache server serveStats
  | .sessionSave timeout => onSessions server fun s => some (serveSave storage s now timeout m.data)
  | .sessionLoad => onSessions server fun s => serveLoad storage s now m.data
  | .sessionRemove => onSessions server fun s => some (serveRemove storage s now m.data)
  | _ => some (server, ⟨.error, []⟩)

end Tcp

end Cppcms
