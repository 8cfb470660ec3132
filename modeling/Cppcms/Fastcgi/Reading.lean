import Cppcms.Fastcgi.Record
import Cppcms.Library.Slice

/-!
# Reading records

What the socket delivers goes to a cache first, and records are taken from there.
`non_blocking_read_record` takes a record that is complete in the cache and does not touch the cache
otherwise; `async_read_record` reads from the socket what is missing.  An access outside of the
cache has no result.
-/

namespace Cppcms

namespace Fastcgi

/-- The vector `cache_` with `cache_start_` and `cache_end_`. -/
structure Cache where
  vec : Bytes
  start : ℕ
  stop : ℕ
  deriving DecidableEq, Repr

namespace Cache

/-- `get_buffer_size`. -/
def bufferSize (c : Cache) : ℕ := c.stop - c.start

/-- `peek_bytes`: what `memcpy` gets, or that there are not so many octets. -/
def peekBytes (c : Cache) (n : ℕ) : Option (Option Bytes) :=
  if n ≤ c.stop - c.start then (slice c.vec c.start n).map some else some none

def skipBytes (c : Cache) (n : ℕ) : Cache := { c with start := c.start + n }

def readBytes (c : Cache) (n : ℕ) : Option (Bytes × Cache) :=
  (slice c.vec c.start n).map fun p => (p, c.skipBytes n)

/-- The octets in the cache move to its begin. -/
def compact (c : Cache) : Option Cache :=
  if c.start = c.stop then some { c with start := 0, stop := 0 }
  else if c.start ≠ 0 then do
    let part ← slice c.vec c.start (c.stop - c.start)
    let vec ← overwrite c.vec 0 part
    return { vec, start := 0, stop := c.stop - c.start }
  else some c

/-- The cache gets the size that is needed. -/
def grow (c : Cache) (n : ℕ) : Cache :=
  if c.vec.length < n then { c with vec := c.vec ++ List.replicate (max n 16384 - c.vec.length) 0 }
    else c

/-- The octets in the cache. -/
def held (c : Cache) : Bytes := (c.vec.take c.stop).drop c.start

/-- The positions are in the vector. -/
def Inside (c : Cache) : Prop := c.start ≤ c.stop ∧ c.stop ≤ c.vec.length

end Cache

/-- The pieces that the socket is going to deliver, and after them the end of the stream. -/
abbrev Socket := List Bytes

/-- `async_read_some` into a buffer of the given size; at the end of the stream it is an error. -/
def Socket.readSome (capacity : ℕ) : Socket → Socket × Option Bytes
  | [] => ([], none)
  | p :: rest => if p.length ≤
      capacity then (rest, some p) else (p.drop capacity :: rest, some (p.take capacity))

/-- `async_read_from_socket` and `on_some_read_from_socket`.  The inner `none` is the error that the
handler gets. -/
def readFromSocket (n : ℕ) : ℕ → Cache → Socket → Option (Cache × Socket × Option Bytes)
  | 0, _, _ => none
  | fuel + 1, c, socket =>
    if n ≤ c.stop - c.start then
      (c.readBytes n).map fun (p, c) => (c, socket, some p)
    else do
      let c ← c.compact
      let c := c.grow n
      match Socket.readSome (c.vec.length - c.stop) socket with
      | (socket, none) => return (c, socket, none)
      | (socket, some p) =>
        let vec ← overwrite c.vec c.stop p
        readFromSocket n fuel { c with vec, stop := c.stop + p.length } socket

/-- A bound for the number of reads. -/
def Socket.fuel (socket : Socket) : ℕ := socket.flatten.length + socket.length + 1

/-- The part of the object that reads records. -/
structure Reader where
  cache : Cache
  header : Header
  body : Bytes
  deriving DecidableEq, Repr

/-- The object after the constructor. -/
def Reader.init : Reader := ⟨⟨[], 0, 0⟩, .zero, []⟩

def nonBlockingReadRecord (r : Reader) : Option (Reader × Bool) := do
  match ← r.cache.peekBytes 8 with
  | none => return (r, false)
  | some octets =>
    let header := Header.toHost octets
    if r.cache.bufferSize < 8 + header.contentLength.toNat +
      header.paddingLength.toNat then return (r, false)
    let cache := r.cache.skipBytes 8
    let recSize := header.contentLength.toNat + header.paddingLength.toNat
    if recSize = 0 then return ({ r with cache, header }, true)
    let (p, cache) ← cache.readBytes recSize
    return (⟨cache, header, (r.body ++ p).take (r.body.length + header.contentLength.toNat)⟩, true)

/-- `async_read_record`, `on_header_read` and `on_body_read`, until the handler is called, with an
error or not. -/
def asyncReadRecord (r : Reader) (socket : Socket) : Option (Reader × Socket × Bool) := do
  match ← readFromSocket 8 socket.fuel r.cache socket with
  | (cache, socket, none) => return ({ r with cache }, socket, false)
  | (cache, socket, some octets) =>
    let header := Header.toHost octets
    let recSize := header.contentLength.toNat + header.paddingLength.toNat
    if recSize = 0 then return ({ r with cache, header }, socket, true)
    match ← readFromSocket recSize socket.fuel cache socket with
    | (cache, socket, none) =>
        return (⟨cache, header, r.body ++ List.replicate recSize 0⟩, socket, false)
    | (cache, socket, some p) =>
      return (⟨cache, header, (r.body ++ p).take
        ((r.body ++ p).length - header.paddingLength.toNat)⟩, socket, true)

/-- `reset_all`, as far as it is about reading. -/
def Reader.resetAll (r : Reader) : Reader where
  cache := if r.cache.vec = [] then { r.cache with start := 0, stop := 0 } else r.cache
  header := .zero
  body := []

/-- What the object does between the records. -/
inductive ReadOp where
  | asyncRead
  | nonBlockingRead
  | clearBody
  | reset
  deriving DecidableEq, Repr

/-- A run.  It stops at an error.  The records that were delivered are given by the header and by
what they added to the body. -/
structure Run where
  reader : Reader
  socket : Socket
  delivered : List (Header × Bytes)
  failed : Bool
  deriving DecidableEq, Repr

def Run.deliver (y : Run) (reader : Reader) (socket : Socket) : Run :=
  { y with reader, socket, delivered :=
    y.delivered ++ [(reader.header, reader.body.drop y.reader.body.length)] }

def Run.step (y : Run) (op : ReadOp) : Option Run :=
  if y.failed then some y
  else
    match op with
    | .asyncRead => do
      match ← asyncReadRecord y.reader y.socket with
      | (reader, socket, true) => return y.deliver reader socket
      | (reader, socket, false) => return { y with reader, socket, failed := true }
    | .nonBlockingRead => do
      match ← nonBlockingReadRecord y.reader with
      | (reader, true) => return y.deliver reader y.socket
      | (reader, false) => return { y with reader }
    | .clearBody => some { y with reader := { y.reader with body := [] } }
    | .reset => some { y with reader := y.reader.resetAll }

def Run.steps (y : Run) : List ReadOp → Option Run
  | [] => some y
  | op :: ops => do (← y.step op).steps ops

/-! ## The octets on their way -/

section Stream

variable {c : Cache} {socket : Socket} {n fuel : ℕ}

lemma Cache.length_held (hc : c.Inside) : c.held.length = c.stop - c.start := by
  unfold Cache.held
  rw [List.length_drop, List.length_take, Nat.min_eq_left hc.2]

/-- The next octets of the cache. -/
lemma Cache.slice_eq (hc : c.Inside) (hn : n ≤ c.stop - c.start) :
    slice c.vec c.start n = some (c.held.take n) := by
  rw [slice_of_le (by have := hc.2; have := hc.1; omega)]
  unfold Cache.held
  rw [List.drop_take, List.take_take, Nat.min_eq_left hn]

lemma Cache.held_skipBytes (n : ℕ) : (c.skipBytes n).held = c.held.drop n := by
  unfold Cache.held Cache.skipBytes
  rw [List.drop_drop]

lemma Cache.inside_skipBytes (hc : c.Inside) (hn : n ≤ c.stop - c.start) :
    (c.skipBytes n).Inside := by
  have hle := hc.1
  refine ⟨?_, hc.2⟩
  show c.start + n ≤ c.stop
  omega

lemma Cache.readBytes_eq (hc : c.Inside) (hn : n ≤ c.stop - c.start) :
    c.readBytes n = some (c.held.take n, c.skipBytes n) := by
  unfold Cache.readBytes
  rw [Cache.slice_eq hc hn]
  rfl

/-- The cache keeps its octets when they move. -/
lemma Cache.compact_eq (hc : c.Inside) :
    ∃ c', c.compact = some c' ∧ c'.Inside ∧ c'.held = c.held ∧ c'.start = 0 := by
  unfold Cache.compact
  by_cases hempty : c.start = c.stop
  · rw [if_pos hempty]
    refine ⟨_, rfl, ⟨le_rfl, Nat.zero_le _⟩, ?_, rfl⟩
    unfold Cache.held
    dsimp only
    rw [List.take_zero, List.drop_nil, List.drop_of_length_le]
    rw [List.length_take]
    omega
  · rw [if_neg hempty]
    by_cases hstart : c.start ≠ 0
    · have hle := hc.1
      have hlength := Cache.length_held hc
      have hpart : c.held.take (c.stop - c.start) = c.held := List.take_of_length_le hlength.le
      have hover : overwrite c.vec 0 c.held = some (c.held ++ c.vec.drop c.held.length) := by
        unfold overwrite
        rw [if_pos (by rw [hlength]; have := hc.2; omega), List.take_zero,
          List.nil_append, Nat.zero_add]
      rw [if_pos hstart, Cache.slice_eq hc le_rfl, hpart, Option.bind_eq_bind,
        Option.bind_some, hover, Option.bind_some]
      refine ⟨_, rfl, ⟨Nat.zero_le _, ?_⟩, ?_, rfl⟩
      · rw [List.length_append, hlength]
        exact Nat.le_add_right _ _
      · show ((c.held ++ c.vec.drop c.held.length).take (c.stop - c.start)).drop 0 = c.held
        rw [← hlength, List.take_left, List.drop_zero]
    · rw [if_neg hstart]
      exact ⟨c, rfl, hc, rfl, not_not.1 hstart⟩

/-- There is room for what is missing. -/
lemma Cache.grow_eq (hc : c.Inside) (n : ℕ) :
    (c.grow n).Inside ∧ (c.grow n).held = c.held ∧ (c.grow n).start = c.start ∧
    (c.grow n).stop = c.stop ∧
      n ≤ (c.grow n).vec.length := by
  unfold Cache.grow
  by_cases hlt : c.vec.length < n
  · rw [if_pos hlt]
    refine ⟨⟨hc.1, ?_⟩, ?_, rfl, rfl, ?_⟩
    · rw [List.length_append]
      exact hc.2.trans (Nat.le_add_right _ _)
    · unfold Cache.held
      dsimp only
      rw [List.take_append_of_le_length hc.2]
    · rw [List.length_append, List.length_replicate]
      omega
  · rw [if_neg hlt]
    exact ⟨hc, rfl, rfl, rfl, not_lt.1 hlt⟩

/-- A piece is put behind the octets of the cache. -/
lemma Cache.put_eq (hc : c.Inside) (hstart : c.start = 0) {p : Bytes}
    (hp : p.length ≤ c.vec.length - c.stop) :
    ∃ vec, overwrite c.vec c.stop p = some vec ∧
    ({ c with vec, stop := c.stop + p.length } : Cache).Inside ∧
      ({ c with vec, stop := c.stop + p.length } : Cache).held = c.held ++ p := by
  have hstop := hc.2
  refine ⟨c.vec.take c.stop ++ (p ++ c.vec.drop (c.stop + p.length)), ?_, ⟨?_, ?_⟩, ?_⟩
  · unfold overwrite
    rw [if_pos (by omega)]
  · show c.start ≤ c.stop + p.length
    omega
  · show c.stop + p.length ≤ _
    rw [List.length_append, List.length_append, List.length_take, Nat.min_eq_left hstop]
    omega
  · have hlength : (c.vec.take c.stop ++ p).length = c.stop + p.length := by
      rw [List.length_append, List.length_take, Nat.min_eq_left hstop]
    unfold Cache.held
    dsimp only
    rw [hstart, List.drop_zero, List.drop_zero, ← List.append_assoc, ← hlength, List.take_left]

/-- A read takes octets from the socket, if it has any. -/
lemma Socket.readSome_eq {capacity : ℕ} (hcapacity : 0 < capacity) (socket : Socket) :
    (socket = [] ∧ Socket.readSome capacity socket = ([], none)) ∨
      ∃ socket' p, Socket.readSome capacity socket = (socket', some p) ∧ p.length ≤ capacity ∧
        socket.flatten = p ++ socket'.flatten ∧ socket'.fuel < socket.fuel := by
  cases socket with
  | nil => exact .inl ⟨rfl, rfl⟩
  | cons p rest =>
    right
    rw [Socket.readSome]
    unfold Socket.fuel
    by_cases hle : p.length ≤ capacity
    · rw [if_pos hle]
      refine ⟨rest, p, rfl, hle, List.flatten_cons, ?_⟩
      rw [List.flatten_cons, List.length_append, List.length_cons]
      omega
    · rw [if_neg hle]
      refine ⟨p.drop capacity :: rest, p.take capacity, rfl, ?_, ?_, ?_⟩
      · rw [List.length_take]
        omega
      · rw [List.flatten_cons, List.flatten_cons, ← List.append_assoc, List.take_append_drop]
      · rw [List.flatten_cons, List.flatten_cons, List.length_append, List.length_append,
          List.length_drop, List.length_cons, List.length_cons]
        omega

/-- Reading gives the next octets, or the stream ends before. -/
lemma readFromSocket_eq (hc : c.Inside) (hfuel : socket.fuel ≤ fuel) :
    ∃ c' socket', c'.Inside ∧
      ((n ≤ (c.held ++ socket.flatten).length ∧
          readFromSocket n fuel c socket =
            some (c', socket', some ((c.held ++ socket.flatten).take n)) ∧
          c'.held ++ socket'.flatten = (c.held ++ socket.flatten).drop n) ∨
        ((c.held ++ socket.flatten).length < n ∧
          readFromSocket n fuel c socket = some (c', socket', none))) := by
  induction fuel generalizing c socket with
  | zero =>
    unfold Socket.fuel at hfuel
    omega
  | succ fuel ih =>
    rw [readFromSocket]
    have hheld := Cache.length_held hc
    by_cases hn : n ≤ c.stop - c.start
    · have hle : n ≤ c.held.length := hheld ▸ hn
      refine ⟨c.skipBytes n, socket, Cache.inside_skipBytes hc hn, .inl ⟨?_, ?_, ?_⟩⟩
      · rw [List.length_append]
        omega
      · rw [if_pos hn, Cache.readBytes_eq hc hn, List.take_append_of_le_length hle]
        rfl
      · rw [Cache.held_skipBytes, List.drop_append_of_le_length hle]
    · rw [if_neg hn]
      rcases Cache.compact_eq hc with ⟨c₁, hcompact, hinside₁, hheld₁, hstart₁⟩
      rcases Cache.grow_eq hinside₁ n with ⟨hinside₂, hheld₂, hstart₂, hstop₂, hroom⟩
      rw [hcompact, Option.bind_eq_bind, Option.bind_some]
      dsimp only
      generalize c₁.grow n = c₂ at *
      have hlength : c₂.stop - c₂.start = c.stop - c.start := by
        rw [← Cache.length_held hinside₂, hheld₂, hheld₁, hheld]
      have hzero : c₂.start = 0 := hstart₂.trans hstart₁
      rcases Socket.readSome_eq (show 0 < c₂.vec.length - c₂.stop by omega) socket with
        ⟨rfl, hread⟩ | ⟨socket', p, hread, hp, hflatten, hless⟩
      · rw [hread]
        refine ⟨c₂, [], hinside₂, .inr ⟨?_, rfl⟩⟩
        rw [List.flatten_nil, List.append_nil, hheld]
        omega
      · rw [hread]
        dsimp only
        rcases Cache.put_eq hinside₂ hzero hp with ⟨vec, hover, hinside₃, hheld₃⟩
        rw [hover, Option.bind_eq_bind, Option.bind_some]
        have hall : ({ c₂ with vec, stop := c₂.stop + p.length } : Cache).held ++ socket'.flatten =
            c.held ++ socket.flatten := by
          rw [hheld₃, hheld₂, hheld₁, hflatten, List.append_assoc]
        rcases ih hinside₃ (show socket'.fuel ≤ fuel by omega) with ⟨c', socket'', hinside', hcases⟩
        rw [hall] at hcases
        exact ⟨c', socket'', hinside', hcases⟩

end Stream

/-! ## Records -/

lemma fromBigEndian_two {v : UInt16} {b c : UInt8} (h : bigEndian 2 v.toNat = [b, c]) :
    UInt16.ofNat (fromBigEndian [b, c]) = v := by
  have hlt : v.toNat < 256 ^ 2 := v.toNat_lt
  rw [← h, fromBigEndian_of_lt hlt]
  exact UInt16.ofNat_toNat

/-- A header is found again in its octets. -/
lemma Header.toHost_toNet (h : Header) : Header.toHost h.toNet = h := by
  have hid : UInt16.ofNat (fromBigEndian (bigEndian 2 h.requestId.toNat)) = h.requestId :=
    fromBigEndian_two rfl
  have hlength : UInt16.ofNat (fromBigEndian (bigEndian 2 h.contentLength.toNat)) =
      h.contentLength :=
    fromBigEndian_two rfl
  show (⟨h.version, h.type, UInt16.ofNat (fromBigEndian (bigEndian 2 h.requestId.toNat)),
    UInt16.ofNat (fromBigEndian (bigEndian 2 h.contentLength.toNat)), h.paddingLength, h.reserved⟩ :
    Header) = h
  rw [hid, hlength]

/-- A record: a header with the content and the padding that it announces. -/
structure Record where
  header : Header
  content : Bytes
  padding : Bytes
  contentLength : content.length = header.contentLength.toNat
  paddingLength : padding.length = header.paddingLength.toNat

namespace Record

def octets (x : Record) : Bytes := x.header.toNet ++ (x.content ++ x.padding)

lemma length_octets (x : Record) :
    x.octets.length = 8 + (x.header.contentLength.toNat + x.header.paddingLength.toNat) := by
  unfold octets
  rw [List.length_append, List.length_append, Header.length_toNet, x.contentLength, x.paddingLength]

lemma take_octets (x : Record) (rest : Bytes) : (x.octets ++ rest).take 8 = x.header.toNet := by
  unfold octets
  rw [List.append_assoc, List.take_append_of_le_length (Header.length_toNet x.header).ge,
    List.take_of_length_le (Header.length_toNet x.header).le]

lemma drop_octets (x : Record) (rest : Bytes) :
    (x.octets ++ rest).drop 8 = (x.content ++ x.padding) ++ rest := by
  unfold octets
  rw [List.append_assoc, List.drop_append_of_le_length (Header.length_toNet x.header).ge,
    List.drop_of_length_le (Header.length_toNet x.header).le, List.nil_append]

lemma length_rest (x : Record) :
    (x.content ++ x.padding).length =
      x.header.contentLength.toNat + x.header.paddingLength.toNat := by
  rw [List.length_append, x.contentLength, x.paddingLength]

end Record

/-- Octets that end before their first record does. -/
def Incomplete (t : Bytes) : Prop :=
  8 ≤ t.length → t.length < 8 + (Header.toHost (t.take 8)).restLength

section Records

variable {r : Reader} {socket : Socket}

/-- What the reader can still get. -/
def ahead (r : Reader) (socket : Socket) : Bytes := r.cache.held ++ socket.flatten

/-- The body with the content of a record, when the padding is cut off. -/
lemma take_body (body : Bytes) (x : Record) :
    (body ++ (x.content ++ x.padding)).take (body.length + x.header.contentLength.toNat) =
      body ++ x.content := by
  rw [← x.contentLength, ← List.length_append, ← List.append_assoc, List.take_left]

/-- The reading on the socket delivers the next record. -/
lemma asyncReadRecord_record (hr : r.cache.Inside) {x : Record} {rest : Bytes}
    (h : ahead r socket = x.octets ++ rest) :
    ∃ r' socket', asyncReadRecord r socket = some (r', socket', true) ∧ r'.cache.Inside ∧
      ahead r' socket' = rest ∧ r'.header = x.header ∧ r'.body = r.body ++ x.content := by
  have hlength := x.length_octets
  unfold ahead at h
  unfold asyncReadRecord
  rcases @readFromSocket_eq r.cache socket 8 _ hr le_rfl with
    ⟨c₁, socket₁, hinside₁, ⟨-, hread₁, hahead₁⟩ | ⟨hlt, -⟩⟩
  · rw [h, x.take_octets] at hread₁
    rw [h, x.drop_octets] at hahead₁
    rw [hread₁, Option.bind_eq_bind, Option.bind_some]
    dsimp only
    rw [Header.toHost_toNet]
    by_cases hzero : x.header.contentLength.toNat + x.header.paddingLength.toNat = 0
    · have hnil : x.content ++ x.padding = [] :=
        List.length_eq_zero_iff.1 (x.length_rest.trans hzero)
      rw [if_pos hzero]
      refine ⟨_, _, rfl, hinside₁, ?_, rfl, ?_⟩
      · show c₁.held ++ socket₁.flatten = rest
        rw [hahead₁, hnil, List.nil_append]
      · rw [(List.append_eq_nil_iff.1 hnil).1, List.append_nil]
    · rw [if_neg hzero]
      rcases @readFromSocket_eq c₁ socket₁
        (x.header.contentLength.toNat + x.header.paddingLength.toNat) _ hinside₁
        le_rfl with ⟨c₂, socket₂, hinside₂, ⟨-, hread₂, hahead₂⟩ | ⟨hlt, -⟩⟩
      · rw [hahead₁, ← x.length_rest, List.take_left] at hread₂
        rw [hahead₁, ← x.length_rest, List.drop_left] at hahead₂
        rw [← x.length_rest, hread₂, Option.bind_some]
        refine ⟨_, _, rfl, hinside₂, hahead₂, rfl, ?_⟩
        have hsub : (r.body ++ (x.content ++ x.padding)).length - x.header.paddingLength.toNat =
            r.body.length + x.header.contentLength.toNat := by
          rw [List.length_append, x.length_rest]
          omega
        dsimp only
        rw [hsub, take_body]
      · rw [hahead₁, List.length_append, x.length_rest] at hlt
        omega
  · rw [h, List.length_append] at hlt
    omega

/-- Without a complete record, the end of the stream is an error. -/
lemma asyncReadRecord_incomplete (hr : r.cache.Inside) (h : Incomplete (ahead r socket)) :
    ∃ r' socket', asyncReadRecord r socket = some (r', socket', false) := by
  unfold ahead at h
  unfold asyncReadRecord
  rcases @readFromSocket_eq r.cache socket 8 _ hr le_rfl with
    ⟨c₁, socket₁, hinside₁, ⟨hle, hread₁, hahead₁⟩ | ⟨-, hread₁⟩⟩
  · have hlt := h hle
    rw [hread₁, Option.bind_eq_bind, Option.bind_some]
    dsimp only
    unfold Header.restLength at hlt
    generalize Header.toHost ((r.cache.held ++ socket.flatten).take 8) = header at *
    rw [if_neg (by omega)]
    rcases @readFromSocket_eq c₁ socket₁
      (header.contentLength.toNat + header.paddingLength.toNat) _ hinside₁
      le_rfl with ⟨c₂, socket₂, -, ⟨hle₂, -, -⟩ | ⟨-, hread₂⟩⟩
    · rw [hahead₁, List.length_drop] at hle₂
      omega
    · rw [hread₂, Option.bind_some]
      exact ⟨_, _, rfl⟩
  · rw [hread₁, Option.bind_eq_bind, Option.bind_some]
    exact ⟨_, _, rfl⟩

/-- The reading from the cache delivers a record that is complete there, and does nothing else. -/
lemma nonBlockingReadRecord_cases (hr : r.cache.Inside) :
    (Incomplete r.cache.held ∧ nonBlockingReadRecord r = some (r, false)) ∨
      (¬ Incomplete r.cache.held ∧
        ∀ (x : Record) (rest : Bytes), ahead r socket = x.octets ++ rest →
        ∃ r', nonBlockingReadRecord r = some (r', true) ∧ r'.cache.Inside ∧ ahead r' socket = rest ∧
          r'.header = x.header ∧ r'.body = r.body ++ x.content) := by
  have hheld := Cache.length_held hr
  unfold nonBlockingReadRecord Cache.peekBytes Cache.bufferSize
  by_cases hpeek : 8 ≤ r.cache.stop - r.cache.start
  · rw [if_pos hpeek, Cache.slice_eq hr hpeek, Option.map_some, Option.bind_eq_bind,
      Option.bind_some]
    dsimp only
    by_cases hlt : r.cache.stop - r.cache.start <
      8 + (Header.toHost (r.cache.held.take 8)).contentLength.toNat +
        (Header.toHost (r.cache.held.take 8)).paddingLength.toNat
    · left
      rw [if_pos hlt]
      refine ⟨fun _ => ?_, rfl⟩
      unfold Header.restLength
      omega
    · right
      rw [if_neg hlt]
      constructor
      · intro hincomplete
        have hshort := hincomplete (by omega)
        unfold Header.restLength at hshort
        omega
      · intro x rest hahead
        have hheader : r.cache.held.take 8 = x.header.toNet := by
          rw [← x.take_octets rest, ← hahead]
          exact (List.take_append_of_le_length (by omega)).symm
        have hskip : (r.cache.skipBytes 8).held ++ socket.flatten =
            (x.content ++ x.padding) ++ rest := by
          rw [Cache.held_skipBytes, ← x.drop_octets, ← hahead]
          exact (List.drop_append_of_le_length (by omega)).symm
        have hinside := Cache.inside_skipBytes hr hpeek
        have hsize : (r.cache.skipBytes 8).stop - (r.cache.skipBytes 8).start =
            r.cache.stop - r.cache.start - 8 :=
          Nat.sub_add_eq _ _ _
        rw [hheader, Header.toHost_toNet] at hlt ⊢
        by_cases hzero : x.header.contentLength.toNat + x.header.paddingLength.toNat = 0
        · have hnil : x.content ++ x.padding = [] :=
            List.length_eq_zero_iff.1 (x.length_rest.trans hzero)
          rw [if_pos hzero]
          refine ⟨_, rfl, hinside, ?_, rfl, ?_⟩
          · rw [hnil, List.nil_append] at hskip
            exact hskip
          · rw [(List.append_eq_nil_iff.1 hnil).1, List.append_nil]
        · have hle : (x.content ++ x.padding).length ≤
              (r.cache.skipBytes 8).stop - (r.cache.skipBytes 8).start := by
            rw [x.length_rest, hsize]
            omega
          have hlength := Cache.length_held hinside
          have htake : (r.cache.skipBytes 8).held.take (x.content ++ x.padding).length =
              x.content ++ x.padding := by
            rw [← List.take_append_of_le_length (hlength ▸ hle), hskip, List.take_left]
          rw [if_neg hzero, ← x.length_rest, Cache.readBytes_eq hinside hle, htake,
            Option.bind_eq_bind, Option.bind_some]
          refine ⟨_, rfl, Cache.inside_skipBytes hinside hle, ?_, rfl, take_body r.body x⟩
          show ((r.cache.skipBytes 8).skipBytes _).held ++ socket.flatten = rest
          rw [Cache.held_skipBytes, ← List.drop_append_of_le_length (hlength ▸ hle),
            hskip, List.drop_left]
  · left
    rw [if_neg hpeek]
    exact ⟨fun h => absurd (hheld ▸ h) hpeek, rfl⟩

end Records

/-! ## Runs -/

lemma Incomplete.of_append {a b : Bytes} (h : Incomplete (a ++ b)) : Incomplete a := by
  intro hle
  have hlt := h (by rw [List.length_append]; omega)
  rw [List.take_append_of_le_length hle, List.length_append] at hlt
  omega

/-- The records that a run has delivered are the first ones, and the others are still ahead. -/
structure Delivers (rs : List Record) (t : Bytes) (y : Run) (reads : ℕ) : Prop where
  inside : y.failed = false → y.reader.cache.Inside
  split : ∃ done rest, rs = done ++ rest ∧ y.delivered = done.map (fun x => (x.header, x.content)) ∧
    (y.failed = true → rest = []) ∧
    (y.failed = false → ahead y.reader y.socket = (rest.map Record.octets).flatten ++ t ∧
      reads ≤ done.length)

section Runs

variable {rs : List Record} {t : Bytes} {y : Run} {reads : ℕ}

/-- One more record. -/
lemma Delivers.deliver {reader : Reader} {socket : Socket} {done rest : List Record} {x : Record}
    (hrs : rs = done ++ x :: rest)
    (hdelivered : y.delivered = done.map fun x => (x.header, x.content)) (hok : y.failed = false)
    (hinside : reader.cache.Inside)
    (hahead : ahead reader socket = (rest.map Record.octets).flatten ++ t)
    (hheader : reader.header = x.header) (hbody : reader.body = y.reader.body ++ x.content)
    (hreads : reads ≤ done.length + 1) :
    Delivers rs t (y.deliver reader socket) reads := by
  refine ⟨fun _ => hinside, done ++ [x], rest, ?_, ?_, ?_, ?_⟩
  · rw [hrs, List.append_assoc, List.singleton_append]
  · show y.delivered ++ [(reader.header, reader.body.drop y.reader.body.length)] = _
    rw [hdelivered, hheader, hbody, List.drop_left, List.map_append, List.map_singleton]
  · intro hfailed
    rw [show (y.deliver reader socket).failed = y.failed from rfl, hok] at hfailed
    cases hfailed
  · intro _
    refine ⟨hahead, ?_⟩
    rw [List.length_append, List.length_singleton]
    exact hreads

/-- One operation. -/
lemma Delivers.step (ht : Incomplete t) (hy : Delivers rs t y reads) (op : ReadOp) :
    ∃ y', y.step op = some y' ∧ Delivers rs t y' (reads + [op].count .asyncRead) := by
  unfold Run.step
  rcases hy with ⟨hinside, done, rest, hrs, hdelivered, hfailed, hok⟩
  by_cases hfail : y.failed = true
  · rw [if_pos hfail]
    have hcontra : y.failed ≠ false := by
      rw [hfail]
      simp
    exact ⟨y, rfl, fun h => absurd h hcontra, done, rest, hrs, hdelivered, hfailed, fun h =>
      absurd h hcontra⟩
  rw [Bool.not_eq_true] at hfail
  have hin := hinside hfail
  rcases hok hfail with ⟨hahead, hreads⟩
  rw [if_neg (by rw [hfail]; exact Bool.false_ne_true)]
  cases op with
  | asyncRead =>
    dsimp only
    cases rest with
    | nil =>
      rw [List.map_nil, List.flatten_nil, List.nil_append] at hahead
      rcases asyncReadRecord_incomplete hin (hahead ▸ ht) with ⟨reader, socket, hread⟩
      rw [hread, Option.bind_eq_bind, Option.bind_some]
      exact ⟨_, rfl, fun h => absurd h (by simp), done, [], hrs, hdelivered, fun _ => rfl,
        fun h => absurd h (by simp)⟩
    | cons x rest =>
      rw [List.map_cons, List.flatten_cons, List.append_assoc] at hahead
      rcases asyncReadRecord_record hin hahead with
        ⟨reader, socket, hread, hinside', hahead', hheader, hbody⟩
      rw [hread, Option.bind_eq_bind, Option.bind_some]
      exact ⟨_, rfl, Delivers.deliver hrs hdelivered hfail hinside' hahead' hheader hbody
        (Nat.succ_le_succ hreads)⟩
  | nonBlockingRead =>
    dsimp only
    rcases @nonBlockingReadRecord_cases y.reader y.socket hin with ⟨-, hread⟩ | ⟨hcomplete, hread⟩
    · rw [hread, Option.bind_eq_bind, Option.bind_some]
      exact ⟨_, rfl, fun _ => hin, done, rest, hrs, hdelivered, hfailed, fun _ => ⟨hahead, hreads⟩⟩
    · cases rest with
      | nil =>
        rw [List.map_nil, List.flatten_nil, List.nil_append] at hahead
        unfold ahead at hahead
        rw [← hahead] at ht
        exact absurd ht.of_append hcomplete
      | cons x rest =>
        rw [List.map_cons, List.flatten_cons, List.append_assoc] at hahead
        rcases hread x _ hahead with ⟨reader, hread, hinside', hahead', hheader, hbody⟩
        rw [hread, Option.bind_eq_bind, Option.bind_some]
        exact ⟨_, rfl, Delivers.deliver hrs hdelivered hfail hinside' hahead' hheader hbody
          (hreads.trans (Nat.le_succ _))⟩
  | clearBody =>
    exact ⟨_, rfl, fun _ => hin, done, rest, hrs, hdelivered, hfailed, fun _ => ⟨hahead, hreads⟩⟩
  | reset =>
    have hcache : y.reader.resetAll.cache.Inside ∧
        y.reader.resetAll.cache.held = y.reader.cache.held := by
      unfold Reader.resetAll
      dsimp only
      split_ifs with hvec
      · refine ⟨⟨le_rfl, Nat.zero_le _⟩, ?_⟩
        unfold Cache.held
        dsimp only
        rw [hvec, List.take_nil, List.take_nil, List.drop_nil, List.drop_nil]
      · exact ⟨hin, rfl⟩
    refine ⟨_, rfl, fun _ => hcache.1, done, rest, hrs, hdelivered, hfailed, fun _ => ⟨?_, hreads⟩⟩
    rw [← hahead]
    show y.reader.resetAll.cache.held ++ y.socket.flatten = y.reader.cache.held ++ y.socket.flatten
    rw [hcache.2]

lemma Delivers.steps (ht : Incomplete t) (hy : Delivers rs t y reads) (ops : List ReadOp) :
    ∃ y', y.steps ops = some y' ∧ Delivers rs t y' (reads + ops.count .asyncRead) := by
  induction ops generalizing y reads with
  | nil => exact ⟨y, rfl, hy⟩
  | cons op ops ih =>
    rcases hy.step ht op with ⟨y₁, hstep, hy₁⟩
    rcases ih hy₁ with ⟨y', hsteps, hy'⟩
    refine ⟨y', ?_, ?_⟩
    · rw [Run.steps, hstep, Option.bind_eq_bind, Option.bind_some, hsteps]
    · have hcount : (op :: ops).count .asyncRead = [op].count .asyncRead + ops.count .asyncRead :=
        @List.count_append _ _ .asyncRead [op] ops
      rw [hcount, ← Nat.add_assoc]
      exact hy'

end Runs

/-- However the socket delivers the stream and however the reader alternates, the records come in
order, each with its content only; what has been received and not delivered is still there; and a
reading on the socket fails only when all records have been delivered. -/
theorem steps_deliver (rs : List Record) (t : Bytes) (ht : Incomplete t) (socket : Socket)
    (hsocket : socket.flatten = (rs.map Record.octets).flatten ++ t) (ops : List ReadOp) :
    ∃ y done rest, Run.steps ⟨.init, socket, [], false⟩ ops = some y ∧ rs = done ++ rest ∧
      y.delivered = done.map (fun x => (x.header, x.content)) ∧
      (y.failed = true → rest = []) ∧
      (y.failed = false → y.reader.cache.held ++ y.socket.flatten =
        (rest.map Record.octets).flatten ++ t ∧
        ops.count .asyncRead ≤ done.length) := by
  have hinit : Delivers rs t ⟨.init, socket, [], false⟩ 0 := by
    refine ⟨fun _ => ⟨le_rfl, le_rfl⟩, [], rs, rfl, rfl, fun h =>
      absurd h Bool.false_ne_true, fun _ => ⟨?_, le_rfl⟩⟩
    exact hsocket
  rcases hinit.steps ht ops with ⟨y, hsteps, -, done, rest, hrs, hdelivered, hfailed, hok⟩
  rw [Nat.zero_add] at hok
  exact ⟨y, done, rest, hsteps, hrs, hdelivered, hfailed, hok⟩

/-- A record of parameters without padding, in two pieces. -/
theorem steps_deliver_two_pieces :
    ∃ y done rest, Run.steps ⟨.init, [[1, 4, 0, 1, 0], [2, 0, 0, 65, 66]], [], false⟩
      [.nonBlockingRead, .asyncRead] =
        some y ∧ [(⟨⟨1, 4, 1, 2, 0, 0⟩, [65, 66], [], rfl, rfl⟩ : Record)] = done ++ rest ∧
      y.delivered = done.map (fun x => (x.header, x.content)) ∧
      (y.failed = true → rest = []) ∧
      (y.failed = false → y.reader.cache.held ++ y.socket.flatten =
        (rest.map Record.octets).flatten ++ [] ∧
        [ReadOp.nonBlockingRead, .asyncRead].count .asyncRead ≤ done.length) :=
  steps_deliver [⟨⟨1, 4, 1, 2, 0, 0⟩, [65, 66], [], rfl, rfl⟩] []
    (fun h => absurd h (by decide)) _ (by decide) _

end Fastcgi

end Cppcms
