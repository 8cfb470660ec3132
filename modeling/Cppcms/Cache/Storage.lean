import Cppcms.Base.Strings
import Cppcms.Library.Cells

/-!
# The cache in memory

`mem_cache` of `cache_storage.cpp`.  Four containers refer to each other by iterators: the entries,
the list of entries in the order of their last use, the deadlines, and for each trigger the list of
its entries.  An iterator is the handle of a cell (`Cells`), and an operation that uses an iterator
whose cell has been erased fails with `none`.

The time and what the allocator says about its memory are given to each operation.  An allocation
that fails is not considered.
-/

namespace Cppcms

namespace Cache

/-- `container`. -/
structure Container where
  data : Bytes
  /-- the cell in `lru` -/
  lru : ℕ
  /-- the cells in `triggers`, and in each of them the cell of the entry -/
  triggers : List (ℕ × ℕ)
  /-- the cell in `timeout` -/
  timeout : ℕ
  generation : ℕ
  deriving DecidableEq, Repr

/-- `mem_cache`.  `next` is a handle that has not been used yet. -/
structure MemCache where
  primary : Cells (Bytes × Container)
  triggers : Cells (Bytes × Cells ℕ)
  timeout : Cells (ℤ × ℕ)
  lru : Cells ℕ
  limit : ℕ
  size : ℕ
  triggersCount : ℕ
  generation : ℕ
  next : ℕ
  deriving DecidableEq, Repr

/-- What is known of an entry: the result of a successful fetch. -/
structure Entry where
  data : Bytes
  triggers : StringSet
  timeout : ℤ
  generation : ℕ
  deriving DecidableEq

/-- What the settings of a cache decide: `size_limit`, if the size can exceed it at all. -/
structure Settings where
  sizeLimit : Option ℕ

/-- `thread_settings`: the limit is the largest size that there is. -/
def Settings.thread : Settings := ⟨none⟩

/-- `process_settings` for a given size of the shared memory. -/
def Settings.process (memory : ℕ) : Settings := ⟨some (memory / 20)⟩

/-- The answers of `not_enough_memory` in one call. -/
abbrev Memory := ℕ → Bool

/-- There is always enough memory, as `thread_settings` says. -/
def Memory.enough : Memory := fun _ => false

namespace MemCache

/-- A new cache. -/
def init (pages : ℕ) : MemCache where
  primary := []
  triggers := []
  timeout := []
  lru := []
  limit := pages
  size := 0
  triggersCount := 0
  generation := 0
  next := 0

/-- `primary.find`. -/
def find (c : MemCache) (key : Bytes) : Option (ℕ × Bytes × Container) :=
  c.primary.find? fun x => x.2.1 = key

/-- `triggers.find`. -/
def findTrigger (c : MemCache) (name : Bytes) : Option (ℕ × Bytes × Cells ℕ) :=
  c.triggers.find? fun x => x.2.1 = name

/-! ## Removing an entry -/

/-- The loop in `delete_node`: the entry is taken out of the list of each of its triggers, and lists
that get empty are erased. -/
def unhook : List (ℕ × ℕ) → Cells (Bytes × Cells ℕ) → ℕ → Option (Cells (Bytes × Cells ℕ) × ℕ)
  | [], ts, count => some (ts, count)
  | (t, cell) :: rest, ts, count =>
    (ts.lookup t).bind fun node =>
      (Cells.without? node.2 cell).bind fun cells =>
        let ts := Cells.modify ts t fun node => (node.1, cells)
        let ts := if cells.isEmpty then Cells.without ts t else ts
        unhook rest ts (count - 1)

/-- `delete_node`. -/
def deleteNode (c : MemCache) (p : ℕ) : Option MemCache :=
  (c.primary.lookup p).bind fun node =>
    (c.lru.without? node.2.lru).bind fun lru =>
      (c.timeout.without? node.2.timeout).bind fun timeout =>
        (unhook node.2.triggers c.triggers c.triggersCount).map fun q =>
          { c with
            lru := lru
            timeout := timeout
            triggers := q.1
            triggersCount := q.2
            primary := c.primary.without p
            size := c.size - 1 }

/-! ## Operations -/

/-- The names of the triggers that an entry refers to. -/
def triggerNames (c : MemCache) (ts : List (ℕ × ℕ)) : Option (List Bytes) :=
  ts.mapM fun x => (c.triggers.lookup x.1).map Prod.fst

/-- `fetch`. -/
def fetch (c : MemCache) (now : ℤ) (key : Bytes) : Option (MemCache × Option Entry) :=
  match c.find key with
  | none => some (c, none)
  | some (p, _, cont) =>
    (c.timeout.lookup cont.timeout).bind fun deadline =>
      if deadline.1 < now then some (c, none)
      else
        (c.lru.without? cont.lru).bind fun lru =>
          (c.triggerNames cont.triggers).map fun names =>
            ({ c with
                lru := (c.next, p) :: lru
                primary := c.primary.modify p fun x => (x.1, { x.2 with lru := c.next })
                next := c.next + 1 },
              some ⟨cont.data, (∅ : StringSet).insertAll names, deadline.1, cont.generation⟩)

/-- `rise`. -/
def rise (c : MemCache) (trigger : Bytes) : Option MemCache :=
  match c.findTrigger trigger with
  | none => some c
  | some (_, _, cells) => (cells.map Prod.snd).foldlM deleteNode c

/-- `nl_clear` and `clear`. -/
def clear (c : MemCache) : MemCache :=
  { c with timeout := [], lru := [], primary := [], triggers := [], size := 0, triggersCount := 0 }

/-- `remove`. -/
def remove (c : MemCache) (key : Bytes) : Option MemCache :=
  match c.find key with
  | none => some c
  | some (p, _, _) => c.deleteNode p

/-- The entry that `check_limits` takes away next. -/
def victim (c : MemCache) (now : ℤ) : Option ℕ :=
  match c.timeout with
  | (_, deadline, p) :: _ => if deadline < now then some p else c.lru.getLast?.map Prod.snd
  | [] => c.lru.getLast?.map Prod.snd

/-- The loop of `check_limits`.  The first argument is a bound for the number of rounds; the size is
enough, since every round makes it smaller. -/
def checkLimitsLoop (now : ℤ) (memory : Memory) : ℕ → MemCache → Option MemCache
  | 0, c => some c
  | n + 1, c =>
    if 0 < c.size ∧ (memory n = true ∨ (c.limit ≤ c.size ∧ 0 < c.limit)) then
      match c.victim now with
      | some p => (c.deleteNode p).bind (checkLimitsLoop now memory n)
      | none => some c
    else some c

/-- `check_limits`. -/
def checkLimits (c : MemCache) (now : ℤ) (memory : Memory) : Option MemCache :=
  checkLimitsLoop now memory c.size c

/-- `triggers.insert`: the cell for a name, which may be new. -/
def insertTrigger (c : MemCache) (name : Bytes) : ℕ × MemCache :=
  match c.findTrigger name with
  | some (t, _) => (t, c)
  | none => (c.next, { c with triggers := (c.next, name, []) :: c.triggers, next := c.next + 1 })

/-- `add_trigger`. -/
def addTrigger (p : ℕ) (c : MemCache) (name : Bytes) : MemCache :=
  let (t, c) := c.insertTrigger name
  { c with
    triggers := c.triggers.modify t fun node => (node.1, (c.next, p) :: node.2)
    primary := c.primary.modify p fun x =>
      (x.1, { x.2 with triggers := x.2.triggers ++ [(t, c.next)] })
    triggersCount := c.triggersCount + 1
    next := c.next + 1 }

/-- `timeout.insert`: behind the entries with the same deadline. -/
def insertTimeout (l : Cells (ℤ × ℕ)) (x : ℕ × ℤ × ℕ) : Cells (ℤ × ℕ) :=
  l.orderedInsert (fun x y => x.2.1 < y.2.1) x

/-- The new entry of `store`, without its triggers. -/
def insertEntry (c : MemCache) (key data : Bytes) (timeout : ℤ) (gen : Option ℕ) : MemCache :=
  { c with
    primary := (c.next, key, ⟨data, c.next, [], c.next, gen.getD c.generation⟩) :: c.primary
    size := c.size + 1
    generation := if gen.isSome then c.generation else (c.generation + 1) % 2 ^ 64
    lru := (c.next, c.next) :: c.lru
    timeout := insertTimeout c.timeout (c.next, timeout, c.next)
    next := c.next + 1 }

/-- The triggers that `store` adds: the key, if it is not among them, and the given ones. -/
def allTriggers (key : Bytes) (triggers : StringSet) : List Bytes :=
  if key ∈ triggers then triggers.toList else key :: triggers.toList

/-- `store`. -/
def store (settings : Settings) (c : MemCache) (now : ℤ) (memory : Memory) (key data : Bytes)
    (triggers : StringSet) (timeout : ℤ) (gen : Option ℕ) : Option MemCache :=
  (c.remove key).bind fun c =>
    if settings.sizeLimit.any (· < c.size) then some c
    else
      (c.checkLimits now memory).map fun c =>
        (allTriggers key triggers).foldl (addTrigger c.next) (c.insertEntry key data timeout gen)

end MemCache

end Cache

end Cppcms
