import Cppcms.Base.Bytes
import Cppcms.Base.Outcome
import Cppcms.Library.LittleEndian
import Cppcms.Library.Slice

/-!
# Archives

`archive` of `archive.cpp` is a text of chunks with their lengths before them, and a position for
reading. `archive_traits` says for every serializable type how its values are written as chunks and
read again.  The types are the constructors of `Ty` here, and `Ty.Val` are the values of a type.
-/

namespace Cppcms

namespace Serialization

/-! ## Chunks -/

structure Archive where
  buffer : Bytes
  ptr : ℕ
  deriving DecidableEq, Repr

/-- `write_chunk`, on the text. -/
def writeChunk (p : Bytes) (a : Bytes) : Bytes := a ++ littleEndian 4 p.length ++ p

def eof (a : Archive) : Bool := a.ptr ≥ a.buffer.length

/-- The octets that `memcpy` finds at a position of the text. -/
def copy (a : Archive) (start len : ℕ) : Outcome Bytes :=
  match slice a.buffer start len with
  | some p => .returns p
  | none => .undefined

def nextChunkSize (a : Archive) : Outcome ℕ :=
  if eof a then .throws "At end of archive"
  else if a.buffer.length - a.ptr < 4 then .throws "Invalid archive format"
  else do
    let size := fromLittleEndian (← copy a a.ptr 4)
    if a.ptr + size < a.ptr ∨ a.ptr + size ≥ a.buffer.length then .throws "Invalid archive_format"
    else return size

def readChunk (len : ℕ) (a : Archive) : Outcome (Bytes × Archive) := do
  let next ← nextChunkSize a
  if next ≠ len then .throws "Invalid block length"
  else
    let p ← copy a (a.ptr + 4) len
    return (p, { a with ptr := a.ptr + 4 + len })

def readChunkAsString (a : Archive) : Outcome (Bytes × Archive) := do
  let size ← nextChunkSize a
  let p ← copy a (a.ptr + 4) size
  return (p, { a with ptr := a.ptr + (4 + size) })

/-! ## Types -/

/-- The types that can be archived.  A plain type is given by its size. -/
inductive Ty where
  | pod (size : ℕ+)
  | string
  | pair (first second : Ty)
  | array (n : ℕ) (elem : Ty)
  | vector (elem : Ty)
  | list (elem : Ty)
  | set (elem : Ty)
  | multiset (elem : Ty)
  | map (key value : Ty)
  | multimap (key value : Ty)
  | pointer (elem : Ty)
  deriving DecidableEq

namespace Ty

/-- The values of a type.  A container is the sequence of its elements, and a pointer owns what it
points to. -/
def Val : Ty → Type
  | pod size => { p : Bytes // p.length = size }
  | string => Bytes
  | pair f s => f.Val × s.Val
  | array n t => { l : List t.Val // l.length = n }
  | vector t => List t.Val
  | list t => List t.Val
  | set t => List t.Val
  | multiset t => List t.Val
  | map k v => List (k.Val × v.Val)
  | multimap k v => List (k.Val × v.Val)
  | pointer t => Option t.Val

/-- Values of the type are compared by addresses, at least in part. -/
def hasPointer : Ty → Bool
  | pod _ => false
  | string => false
  | pair f s => f.hasPointer || s.hasPointer
  | array _ t => t.hasPointer
  | vector t => t.hasPointer
  | list t => t.hasPointer
  | set t => t.hasPointer
  | multiset t => t.hasPointer
  | map k v => k.hasPointer || v.hasPointer
  | multimap k v => k.hasPointer || v.hasPointer
  | pointer _ => true

end Ty

/-- A type whose values are plain memory. -/
structure PodView (α : Type) where
  size : ℕ
  toBytes : α → Bytes
  ofBytes : Bytes → α
  pos : 0 < size
  length_toBytes : ∀ x, (toBytes x).length = size
  ofBytes_toBytes : ∀ x, ofBytes (toBytes x) = x

/-- The value with the given octets. -/
def podOfBytes (size : ℕ+) (p : Bytes) : (Ty.pod size).Val :=
  ⟨(p ++ List.replicate size 0).take size, by simp⟩

/-- `CPPCMS_TRIVIAL_ARCHIVE` also gives vectors and arrays of a plain type a form of their own. -/
def podView : (t : Ty) → Option (PodView t.Val)
  | .pod size => some
    { size := size
      toBytes := Subtype.val
      ofBytes := podOfBytes size
      pos := size.pos
      length_toBytes := fun x => x.2
      ofBytes_toBytes := fun x => Subtype.ext (by
        show (x.1 ++ List.replicate size 0).take size = x.1
        rw [List.take_append_of_le_length x.2.ge, List.take_of_length_le x.2.le]) }
  | _ => none

/-! ## Containers -/

section Containers

variable {α β κ : Type}

/-- `archive_traits<size_t>::save`. -/
def saveSize (n : ℕ) (a : Bytes) : Bytes := writeChunk (littleEndian 8 n) a

/-- `archive_traits<size_t>::load`. -/
def loadSize (a : Archive) : Outcome (ℕ × Archive) := do
  let (p, a) ← readChunk 8 a
  return (fromLittleEndian p, a)

/-- The loop that saves the elements. -/
def saveAll (save : α → Bytes → Bytes) (l : List α) (a : Bytes) : Bytes :=
  l.foldl (fun a x => save x a) a

def archiveSaveContainer (save : α → Bytes → Bytes) (l : List α) (a : Bytes) : Bytes :=
  saveAll save l (saveSize l.length a)

/-- The loop that loads the elements and puts them into the container. -/
def loadAll (load : Archive → Outcome (α × Archive)) (insert : β → α → β) :
    ℕ → β → Archive → Outcome (β × Archive)
  | 0, c, a => .returns (c, a)
  | n + 1, c, a => do
    let (x, a) ← load a
    loadAll load insert n (insert c x) a

/-- `archive_load_container`, and the loading of maps. -/
def archiveLoadContainer (load : Archive → Outcome (α × Archive)) (insert : β → α → β) (empty : β)
    (a : Archive) :
    Outcome (β × Archive) := do
  let (n, a) ← loadSize a
  loadAll load insert n empty a

/-- How the elements of an ordered container are compared.  `less` is `std::less` on keys that are
compared by their values.  A key with pointers that have just been made is different from all
others, and its address, which may be any, says where it goes: that is `place`. -/
structure Order where
  less : (t : Ty) → t.Val → t.Val → Bool
  place : (t : Ty) → List t.Val → t.Val → ℕ

/-- A position in a container where an element with a key is put, and whether it is put there at
all. -/
structure Spot where
  index : ℕ
  insert : Bool

/-- The first element that is not less than the key. -/
def lowerBound (less : κ → κ → Bool) (keys : List κ) (k : κ) : ℕ :=
  (keys.takeWhile fun y => less y k).length

/-- The first element that is greater than the key. -/
def upperBound (less : κ → κ → Bool) (keys : List κ) (k : κ) : ℕ :=
  (keys.takeWhile fun y => !less k y).length

/-- `insert` of a container with unique keys. -/
def uniqueSpot (less : κ → κ → Bool) (keys : List κ) (k : κ) : Spot :=
  ⟨lowerBound less keys k, !(keys[lowerBound less keys k]?.any fun y => !less k y)⟩

/-- `insert` of a container with multiple keys, as close to the hint as possible. -/
def multiSpot (less : κ → κ → Bool) (hint : ℕ) (keys : List κ) (k : κ) : Spot :=
  ⟨max (lowerBound less keys k) (min hint (upperBound less keys k)), true⟩

/-- The spot of a key with pointers. -/
def placeSpot (o : Order) (t : Ty) (keys : List t.Val) (k : t.Val) : Spot :=
  ⟨min (o.place t keys k) keys.length, true⟩

/-- The spot in a `set` or `map`. -/
def Order.unique (o : Order) (t : Ty) (keys : List t.Val) (k : t.Val) : Spot :=
  if t.hasPointer then placeSpot o t keys k else uniqueSpot (o.less t) keys k

/-- The spot in a `multiset` or `multimap`. -/
def Order.multi (o : Order) (t : Ty) (hint : ℕ) (keys : List t.Val) (k : t.Val) : Spot :=
  if t.hasPointer then placeSpot o t keys k else multiSpot (o.less t) hint keys k

/-- An element comes to its spot. -/
def Spot.put (s : Spot) (l : List α) (x : α) : List α :=
  if s.insert then l.insertIdx s.index x else l

/-- An assignment through `insert_iterator`: the element is inserted and the iterator goes behind
it. -/
def assign (spot : ℕ → List α → α → Spot) (c : List α × ℕ) (x : α) : List α × ℕ :=
  ((spot c.2 c.1 x).put c.1 x, (spot c.2 c.1 x).index + 1)

/-- The insertion into a sequence goes to the place of the iterator. -/
def sequenceSpot (pos : ℕ) (_ : List α) (_ : α) : Spot := ⟨pos, true⟩

/-- The container without the iterator. -/
def contents (x : Outcome ((List α × ℕ) × Archive)) : Outcome (List α × Archive) := do
  let (c, a) ← x
  return (c.1, a)

end Containers

/-! ## Saving and loading -/

/-- The marker of a pointer. -/
def marker (empty : Bool) : Bytes := [if empty then 1 else 0]

/-- `archive_traits<T>::save`. -/
def save : (t : Ty) → t.Val → Bytes → Bytes
  | .pod _, x, a => writeChunk x.1 a
  | .string, x, a => writeChunk x a
  | .pair f s, x, a => save s x.2 (save f x.1 a)
  | .array _ t, x, a =>
    match podView t with
    | some p => writeChunk (x.1.map p.toBytes).flatten a
    | none => saveAll (save t) x.1 a
  | .vector t, x, a =>
    match podView t with
    | some p => writeChunk (List.map p.toBytes x).flatten a
    | none => archiveSaveContainer (save t) x a
  | .list t, x, a => archiveSaveContainer (save t) x a
  | .set t, x, a => archiveSaveContainer (save t) x a
  | .multiset t, x, a => archiveSaveContainer (save t) x a
  | .map k v, x, a => archiveSaveContainer (fun y a => save v y.2 (save k y.1 a)) x a
  | .multimap k v, x, a => archiveSaveContainer (fun y a => save v y.2 (save k y.1 a)) x a
  | .pointer t, x, a =>
    match x with
    | none => writeChunk (marker true) a
    | some y => save t y (writeChunk (marker false) a)

/-- The values in the memory of plain values. -/
def cut {α : Type} (p : PodView α) : ℕ → Bytes → List α
  | 0, _ => []
  | n + 1, octets => p.ofBytes (octets.take p.size) :: cut p n (octets.drop p.size)

lemma length_cut {α : Type} (p : PodView α) (n : ℕ) (octets : Bytes) :
    (cut p n octets).length = n := by
  induction n generalizing octets with
  | zero => rfl
  | succ n ih => rw [cut, List.length_cons, ih]

/-- The elements of an array, one after the other. -/
def loadArray {α : Type} (load : Archive → Outcome (α × Archive)) :
    (n : ℕ) → Archive → Outcome ({ l : List α // l.length = n } × Archive)
  | 0, a => .returns (⟨[], rfl⟩, a)
  | n + 1, a => do
    let (x, a) ← load a
    let (l, a) ← loadArray load n a
    return (⟨x :: l.1, congrArg (· + 1) l.2⟩, a)

/-- Two values, one after the other. -/
def loadPair {α β : Type} (first : Archive → Outcome (α × Archive))
    (second : Archive → Outcome (β × Archive)) (a : Archive) : Outcome ((α × β) × Archive) := do
  let (x, a) ← first a
  let (y, a) ← second a
  return ((x, y), a)

/-- `archive_traits<T>::load`. -/
def load (o : Order) : (t : Ty) → Archive → Outcome (t.Val × Archive)
  | .pod size, a => do
    let (p, a) ← readChunk size a
    return (podOfBytes size p, a)
  | .string, a => readChunkAsString a
  | .pair f s, a => loadPair (load o f) (load o s) a
  | .array n t, a =>
    match podView t with
    | some p => do
      let (octets, a) ← readChunk (p.size * n) a
      return (⟨cut p n octets, length_cut p n octets⟩, a)
    | none => loadArray (load o t) n a
  | .vector t, a =>
    match podView t with
    | some p => do
      let n := (← nextChunkSize a) / p.size
      let (octets, a) ← readChunk (n * p.size) a
      return (cut p n octets, a)
    | none => contents (archiveLoadContainer (load o t) (assign sequenceSpot) ([], 0) a)
  | .list t, a => contents (archiveLoadContainer (load o t) (assign sequenceSpot) ([], 0) a)
  | .set t, a => contents (archiveLoadContainer (load o t) (assign fun _ => o.unique t) ([], 0) a)
  | .multiset t, a => contents (archiveLoadContainer (load o t) (assign (o.multi t)) ([], 0) a)
  | .map k v, a =>
    archiveLoadContainer (loadPair (load o k) (load o v))
      (fun l x => (o.unique k (l.map Prod.fst) x.1).put l x) [] a
  | .multimap k v, a =>
    archiveLoadContainer (loadPair (load o k) (load o v))
      (fun l x => (o.multi k l.length (l.map Prod.fst) x.1).put l x) [] a
  | .pointer t, a => do
    let (p, a) ← readChunk 1 a
    if p ≠ [0] then return (none, a)
    else
      let (x, a) ← load o t a
      return (some x, a)

end Serialization

end Cppcms
