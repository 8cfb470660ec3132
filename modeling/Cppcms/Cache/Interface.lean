import Cppcms.Cache.Represent

/-!
# Pages and frames

`cache_interface`: what a request does with the cache.  Every trigger that is added, and those of
every frame that is fetched or stored, are collected for the page and given to the live recorders,
whose sets can become the triggers of a frame.

The interface of a request is used with a context; an overflow of the time is not considered.
-/

namespace Cppcms

namespace Cache

/-- `cache_interface` in a request: the collected triggers, the live recorders with what they have
recorded, and the variant of the page that is made. -/
structure Interface where
  triggers : StringSet
  recorders : List (ℕ × StringSet)
  pageCompressionUsed : Bool

namespace Interface

/-- The interface of a new request. -/
def init : Interface := ⟨∅, [], false⟩

/-- `add_trigger`. -/
def addTrigger (i : Interface) (t : Bytes) : Interface :=
  { i with
    triggers := i.triggers.insert t
    recorders := i.recorders.map fun r => (r.1, r.2.insert t) }

/-- The loops around `add_trigger`. -/
def addTriggers (i : Interface) (ts : List Bytes) : Interface := ts.foldl addTrigger i

/-- `add_triggers_recorder` for a new recorder. -/
def addRecorder (i : Interface) (id : ℕ) : Interface :=
  { i with recorders := (id, ∅) :: i.recorders.filter fun r => r.1 ≠ id }

/-- `remove_triggers_recorder`. -/
def removeRecorder (i : Interface) (id : ℕ) : Interface :=
  { i with recorders := i.recorders.filter fun r => r.1 ≠ id }

end Interface

/-- `infty` of `cache_interface.cpp`, for a `time_t` of 64 bits. -/
def infty : ℤ := 0x7FFFFFFFFFFFFFFF - 3600 * 24

/-- `deadtime`. -/
def deadtime (now sec : ℤ) : ℤ := if sec < 0 then infty else now + sec

/-- The key of a page in the cache. -/
def pageKey (gzip : Bool) (key : Bytes) : Bytes :=
  (if gzip then bytes "_Z:" else bytes "_U:") ++ key

/-- The cache, if there is one, and the interface of the current request. -/
structure Site where
  cache : Option MemCache
  interface : Interface

/-- What a request does. -/
inductive PageOp where
  /-- a new request begins -/
  | request
  | addTrigger (t : Bytes)
  | reset
  /-- a recorder is made -/
  | record (id : ℕ)
  /-- a recorder is destroyed -/
  | drop (id : ℕ)
  | fetchFrame (now : ℤ) (key : Bytes) (notriggers : Bool)
  /-- a frame is stored with some triggers and, if a recorder is given, with what it has recorded -/
  | storeFrame (now : ℤ) (memory : Memory) (key data : Bytes) (triggers : StringSet)
      (recorder : Option ℕ)
      (timeout : ℤ) (notriggers : Bool)
  | fetchPage (now : ℤ) (key : Bytes) (gzip : Bool)
  | storePage (now : ℤ) (memory : Memory) (key data : Bytes) (timeout : ℤ)
  | rise (t : Bytes)
  | clear

namespace Site

/-- `fetch`: the triggers of the entry are added. -/
def fetch (c : MemCache) (i : Interface) (now : ℤ) (key : Bytes) (notriggers : Bool) :
    Option (Site × Option Bytes) :=
  (c.fetch now key).map fun q =>
    match q.2 with
    | none => (⟨some q.1, i⟩, none)
    | some e =>
      (⟨some q.1, if notriggers then i else i.addTriggers e.triggers.toList⟩, some e.data)

/-- `store`: the triggers and the key are added. -/
def store (settings : Settings) (c : MemCache) (i : Interface) (now : ℤ) (memory : Memory)
    (key data : Bytes) (triggers : StringSet) (timeout : ℤ) (notriggers : Bool) : Option Site :=
  let i := if notriggers then i else (i.addTriggers triggers.toList).addTrigger key
  (c.store settings now memory key data triggers (deadtime now timeout) none).map fun c =>
    ⟨some c, i⟩

/-- `fetch_page`. -/
def fetchPage (c : MemCache) (i : Interface) (now : ℤ) (key : Bytes) (gzip : Bool) :
    Option (Site × Option Bytes) :=
  (c.fetch now (pageKey gzip key)).map fun q =>
    (⟨some q.1, { i with pageCompressionUsed := gzip }⟩, q.2.map Entry.data)

/-- `store_page`. -/
def storePage (settings : Settings) (c : MemCache) (i : Interface) (now : ℤ) (memory : Memory)
    (key data : Bytes) (timeout : ℤ) : Option Site :=
  let i := i.addTrigger key
  (c.store settings now memory (pageKey i.pageCompressionUsed key) data i.triggers
    (deadtime now timeout)
    none).map fun c => ⟨some c, i⟩

/-- The set for `store_frame` and the interface without the recorder; a recorder can be used once.
-/
def detach (i : Interface) (triggers : StringSet) : Option ℕ → Option (Interface × StringSet)
  | none => some (i, triggers)
  | some id => (i.recorders.lookup id).map fun recorded =>
    (i.removeRecorder id, triggers.insertAll recorded.toList)

/-- The result of an operation on a cache that is there. -/
def onCache (s : Site) (f : MemCache → Option (Site × Option Bytes)) :
    Option (Site × Option Bytes) :=
  match s.cache with
  | none => some (s, none)
  | some c => f c

/-- One operation, and what it has found. -/
def step (settings : Settings) (s : Site) : PageOp → Option (Site × Option Bytes)
  | .request => some ({ s with interface := .init }, none)
  | .addTrigger t => s.onCache fun c => some (⟨some c, s.interface.addTrigger t⟩, none)
  | .reset => some ({ s with interface.triggers := ∅ }, none)
  | .record id => some ({ s with interface := s.interface.addRecorder id }, none)
  | .drop id => some ({ s with interface := s.interface.removeRecorder id }, none)
  | .fetchFrame now key notriggers => s.onCache fun c => fetch c s.interface now key notriggers
  | .storeFrame now memory key data triggers recorder timeout notriggers =>
    match detach s.interface triggers recorder with
    -- the exception of `detach`
    | none => some (s, none)
    | some (i, triggers) =>
      { s with interface := i }.onCache fun c =>
        (store settings c i now memory key data triggers timeout notriggers).map fun s => (s, none)
  | .fetchPage now key gzip => s.onCache fun c => fetchPage c s.interface now key gzip
  | .storePage now memory key data timeout => s.onCache fun c =>
    (storePage settings c s.interface now memory key data timeout).map fun s => (s, none)
  | .rise t => s.onCache fun c => (c.rise t).map fun c => (⟨some c, s.interface⟩, none)
  | .clear => s.onCache fun c => some (⟨some c.clear, s.interface⟩, none)

end Site

end Cache

end Cppcms
