import Cppcms.Tcp.Client

/-!
# Clients with local caches

`cache_over_ip`: clients that share the cache of one server, each with a local cache in front of it.
A call is made by a thread of a client in steps: the local cache is asked or changed, the server
answers a request, and at the end of a fetch the local cache is changed again.  Between these steps
other threads make theirs.
-/

namespace Cppcms

namespace Tcp

open Cache

/-- A call of `cache_over_ip`.  `tags` is what the set of the caller contains, if there is one. -/
inductive ClientCall where
  | fetch (key : Bytes) (tags : Option StringSet)
  | store (key data : Bytes) (triggers : StringSet) (timeout : ℤ)
  | rise (trigger : Bytes)
  | clear

/-- Where a thread is in a call. -/
inductive Pc where
  | idle
  /-- the local cache has been asked, and `hit` is what it has, its triggers with the tags -/
  | fetching (key : Bytes) (tags : Option StringSet) (hit : Option Entry)
  /-- the server has answered; `served` is the entry that it had for the key -/
  | fetched (key : Bytes) (hit : Option Entry) (answer : FetchResult) (served : Option Entry)
  | storing (key data : Bytes) (triggers : StringSet) (timeout : ℤ)
  | raising (trigger : Bytes)
  | clearing

/-- The server, the local caches of the clients and the threads.  `stores` counts the stores that
the server has been asked for. -/
structure System where
  server : MemCache
  l1 : ℕ → Option MemCache
  threads : ℕ → Pc
  stores : ℕ

/-- A step of a thread, with the time and the state of the memory at which it is made. -/
inductive Action where
  | start (call : ClientCall)
  | serve (memory : Cache.Memory)
  | finish (memory : Cache.Memory)

/-- The end of a fetch: what it returns, and the entry that the server had when it answered. -/
structure Fetched where
  key : Bytes
  result : Option Entry
  served : Option Entry
  deriving DecidableEq

/-- The settings of the server and of the local caches, and the client of each thread. -/
structure Config where
  server : Settings
  l1 : Settings
  client : ℕ → ℕ

namespace System

/-- A new server, new local caches and no calls. -/
def init (pages : ℕ) (l1 : ℕ → Option ℕ) : System where
  server := MemCache.init pages
  l1 i := (l1 i).map MemCache.init
  threads _ := .idle
  stores := 0

/-- The server answers a message. -/
def ask (cfg : Config) (c : MemCache) (now : ℤ) (memory : Cache.Memory) (m : Message) :
    Option (MemCache × Message) :=
  (onDataIn cfg.server Session.table ⟨some c, none⟩ now memory m).bind fun q =>
    q.1.cache.map fun c => (c, q.2)

/-- A thread goes on. -/
def goto (s : System) (i : ℕ) (pc : Pc) : System :=
  { s with threads := Function.update s.threads i pc }

/-- A change of a local cache, if there is one. -/
def onL1 (s : System) (cfg : Config) (i : ℕ) (f : MemCache → Option MemCache) : Option System :=
  match s.l1 (cfg.client i) with
  | none => some s
  | some c => (f c).map fun c => { s with l1 := Function.update s.l1 (cfg.client i) (some c) }

/-- The first step of a call: the local cache. -/
def start (s : System) (cfg : Config) (i : ℕ) (now : ℤ) : ClientCall → Option System
  | .fetch key tags =>
    match s.l1 (cfg.client i) with
    | none => some (s.goto i (.fetching key tags none))
    | some c =>
      (c.fetch now key).map fun q =>
        let tags := tags.getD ∅
        let hit := q.2.map fun e => { e with triggers := tags.insertAll e.triggers.toList }
        { s with l1 := Function.update s.l1 (cfg.client i) (some q.1) }.goto i
          (.fetching key (some tags) hit)
  | .store key data triggers timeout =>
    (s.onL1 cfg i fun c => c.remove key).map fun s => s.goto i (.storing key data triggers timeout)
  | .rise trigger => (s.onL1 cfg i fun c => c.rise trigger).map fun s => s.goto i (.raising trigger)
  | .clear => (s.onL1 cfg i fun c => some c.clear).map fun s => s.goto i .clearing

/-- The second step of a call: a request to the server. -/
def serve (s : System) (cfg : Config) (i : ℕ) (now : ℤ) (memory : Cache.Memory) : Option System :=
  match s.threads i with
  | .fetching key tags hit =>
    (fetchRequest key tags.isSome (hit.map Entry.generation)).bind fun m =>
      (ask cfg s.server now memory m).bind fun q =>
        (fetchAnswer ((hit.map Entry.triggers).getD (tags.getD ∅))
          (hit.map Entry.generation) q.2).map
          fun answer =>
            { s with server := q.1 }.goto i
              (.fetched key hit answer ((s.server.fetch now key).bind Prod.snd))
  | .storing key data triggers timeout =>
    (storeRequest key data triggers timeout).bind fun m =>
      (ask cfg s.server now memory m).map fun q =>
        { s with server := q.1, stores := s.stores + 1 }.goto i .idle
  | .raising trigger =>
    (riseRequest trigger).bind fun m =>
      (ask cfg s.server now memory m).map fun q => { s with server := q.1 }.goto i .idle
  | .clearing =>
    clearRequest.bind fun m =>
      (ask cfg s.server now memory m).map fun q => { s with server := q.1 }.goto i .idle
  | _ => none

/-- The entry goes to the local cache. -/
def keep (s : System) (cfg : Config) (i : ℕ) (now : ℤ) (memory : Cache.Memory) (key : Bytes)
    (e : Entry) :
    Option System :=
  s.onL1 cfg i fun c => c.store cfg.l1 now memory key e.data e.triggers e.timeout
    (some e.generation)

/-- The last step of a fetch: the local cache follows the server. -/
def finish (s : System) (cfg : Config) (i : ℕ) (now : ℤ) (memory : Cache.Memory) :
    Option (System × Fetched) :=
  match s.threads i with
  | .fetched key hit answer served =>
    let s := s.goto i .idle
    match hit, answer with
    | some e, .upToDate => some (s, ⟨key, some e, served⟩)
    | some _, .notFound => (s.onL1 cfg i fun c => c.remove key).map fun s =>
        (s, ⟨key, none, served⟩)
    | _, .found e => (s.keep cfg i now memory key e).map fun s => (s, ⟨key, some e, served⟩)
    | none, _ => some (s, ⟨key, none, served⟩)
  | _ => none

/-- A step of a thread. -/
def step (cfg : Config) (s : System) (i : ℕ) (now : ℤ) : Action → Option (System × Option Fetched)
  | .start call =>
    match s.threads i with
    | .idle => (s.start cfg i now call).map fun s => (s, none)
    | _ => none
  | .serve memory => (s.serve cfg i now memory).map fun s => (s, none)
  | .finish memory => (s.finish cfg i now memory).map fun q => (q.1, some q.2)

/-- A run: the system after a list of steps, and the fetches that have ended. -/
def run (cfg : Config) (s : System) : List (ℕ × ℤ × Action) → Option (System × List Fetched)
  | [] => some (s, [])
  | (i, now, action) :: rest =>
    (s.step cfg i now action).bind fun q =>
      (q.1.run cfg rest).map fun q' => (q'.1, q.2.toList ++ q'.2)

end System

end Tcp

end Cppcms
