import Cppcms.Base.Bytes

/-!
# Scatter buffers

The `const_buffer` of the event library: a sequence of chunks of memory that are sent one after the
other.  A chunk is given by its octets.  A single chunk has a place of its own, and more of them are
in a vector.
-/

namespace Cppcms

namespace Aio

/-- `buffer_impl`.  No chunk is empty. -/
structure Buffer where
  size : ℕ
  entry : Bytes
  vec : List Bytes
  wellFormed : (size = 0 ∧ vec = []) ∨ (size = 1 ∧ vec = [] ∧ entry ≠ []) ∨
    (2 ≤ size ∧ vec.length = size ∧ ∀ e ∈ vec, e ≠ [])
  deriving DecidableEq

namespace Buffer

/-- The constructor. -/
def nil : Buffer := ⟨0, [], [], .inl ⟨rfl, rfl⟩⟩

/-- `get`: the chunks. -/
def get (b : Buffer) : List Bytes :=
  if b.size = 0 then []
  else if b.size = 1 then [b.entry]
  else b.vec

/-- The vector with one more chunk. -/
def addVec (b : Buffer) (p : Bytes) : List Bytes :=
  (if b.size = 1 then b.vec ++ [b.entry] else b.vec) ++ [p]

variable {b : Buffer} {p : Bytes}

/-- A vector has at least two entries, and none is empty. -/
lemma addVec_wellFormed (hp : p ≠ []) (hsize : b.size ≠ 0) :
    2 ≤ (b.addVec p).length ∧ ∀ e ∈ b.addVec p, e ≠ [] := by
  unfold addVec
  rcases b.wellFormed with ⟨hzero, -⟩ | ⟨hone, hvec, hentry⟩ | ⟨htwo, hlength, hvec⟩
  · exact absurd hzero hsize
  · rw [if_pos hone, hvec]
    refine ⟨by simp, ?_⟩
    intro e he
    simp only [List.nil_append, List.singleton_append, List.mem_cons,
      List.not_mem_nil, or_false] at he
    rcases he with rfl | rfl
    · exact hentry
    · exact hp
  · have hne : b.size ≠ 1 := by omega
    rw [if_neg hne]
    constructor
    · rw [List.length_append, hlength]
      omega
    · intro e he
      rcases List.mem_append.1 he with he | he
      · exact hvec e he
      · rw [List.mem_singleton.1 he]
        exact hp

/-- `add` appends a chunk. -/
def add (b : Buffer) (p : Bytes) : Buffer :=
  if hp : p = [] then b
  else if hsize : b.size = 0 then
    { size := 1, entry := p, vec := [], wellFormed := .inr (.inl ⟨rfl, rfl, hp⟩) }
  else
    { size := (b.addVec p).length, entry := b.entry, vec := b.addVec p
      wellFormed :=
        .inr (.inr ⟨(addVec_wellFormed hp hsize).1, rfl, (addVec_wellFormed hp hsize).2⟩) }

def empty (b : Buffer) : Bool := b.size == 0

def bytesCount (b : Buffer) : ℕ :=
  if b.size = 0 then 0
  else if b.size = 1 then b.entry.length
  else b.vec.foldl (fun n e => n + e.length) 0

/-- `buffer`: the buffer of one object. -/
def of (p : Bytes) : Buffer := nil.add p

/-- The loops of `details::advance`. -/
def advanceLoop : List Bytes → ℕ → Buffer → Buffer
  | [], _, res => res
  | e :: rest, 0, res => advanceLoop rest 0 (res.add e)
  | e :: rest, n + 1, res =>
    if e.length ≤ n + 1 then advanceLoop rest (n + 1 - e.length) res
    else advanceLoop rest 0 (res.add (e.drop (n + 1)))

/-- `operator+` with a number. -/
def advance (b : Buffer) (n : ℕ) : Buffer := advanceLoop b.get n nil

/-- `operator+` with a buffer. -/
def append (b c : Buffer) : Buffer := c.get.foldl add b

/-- The octets that the buffer stands for. -/
def bytes (b : Buffer) : Bytes := b.get.flatten

/-! ## The octets of a buffer -/

/-- A part comes behind the others. -/
lemma get_add (hp : p ≠ []) : (b.add p).get = b.get ++ [p] := by
  unfold add
  rw [dif_neg hp]
  by_cases hsize : b.size = 0
  · rw [dif_pos hsize]
    unfold get
    rw [if_pos hsize]
    rfl
  · have hlength := (addVec_wellFormed hp hsize).1
    rw [dif_neg hsize]
    unfold get
    dsimp only
    rw [if_neg (by omega), if_neg (by omega), if_neg hsize]
    unfold addVec
    rcases b.wellFormed with ⟨hzero, -⟩ | ⟨hone, hvec, -⟩ | ⟨htwo, -, -⟩
    · exact absurd hzero hsize
    · rw [if_pos hone, if_pos hone, hvec, List.nil_append]
    · have hne : b.size ≠ 1 := by omega
      rw [if_neg hne, if_neg hne]

/-- No part of a buffer is empty. -/
lemma ne_nil_of_mem_get {e : Bytes} (he : e ∈ b.get) : e ≠ [] := by
  unfold get at he
  rcases b.wellFormed with ⟨hzero, -⟩ | ⟨hone, -, hentry⟩ | ⟨htwo, -, hvec⟩
  · rw [if_pos hzero] at he
    exact absurd he List.not_mem_nil
  · rw [hone, if_neg one_ne_zero, if_pos rfl] at he
    rw [List.mem_singleton.1 he]
    exact hentry
  · rw [if_neg (by omega), if_neg (by omega)] at he
    exact hvec e he

@[simp] lemma bytes_nil : nil.bytes = [] := rfl

@[simp] lemma bytes_add (b : Buffer) (p : Bytes) : (b.add p).bytes = b.bytes ++ p := by
  by_cases hp : p = []
  · subst hp
    rw [add, dif_pos rfl, List.append_nil]
  · unfold bytes
    rw [get_add hp, List.flatten_append, List.flatten_singleton]

@[simp] lemma bytes_of (p : Bytes) : (of p).bytes = p := by
  unfold of
  rw [bytes_add, bytes_nil, List.nil_append]

lemma bytes_foldl_add (l : List Bytes) (b : Buffer) :
    (l.foldl add b).bytes = b.bytes ++ l.flatten := by
  induction l generalizing b with
  | nil => exact (List.append_nil b.bytes).symm
  | cons e l ih => rw [List.foldl_cons, ih, bytes_add, List.append_assoc, List.flatten_cons]

@[simp] lemma bytes_append (b c : Buffer) : (b.append c).bytes = b.bytes ++ c.bytes :=
  bytes_foldl_add c.get b

/-- The loop leaves out the first octets. -/
lemma bytes_advanceLoop (l : List Bytes) (n : ℕ) (b : Buffer) :
    (advanceLoop l n b).bytes = b.bytes ++ l.flatten.drop n := by
  induction l generalizing n b with
  | nil => rw [advanceLoop, List.flatten_nil, List.drop_nil, List.append_nil]
  | cons e l ih =>
    cases n with
    | zero => rw [advanceLoop, ih, bytes_add, List.drop_zero, List.drop_zero, List.append_assoc,
        List.flatten_cons]
    | succ n =>
      rw [advanceLoop, List.flatten_cons]
      by_cases hle : e.length ≤ n + 1
      · rw [if_pos hle, ih, List.drop_append, List.drop_of_length_le hle, List.nil_append]
      · have hzero : n + 1 - e.length = 0 := by omega
        rw [if_neg hle, ih, bytes_add, List.drop_zero, List.append_assoc, List.drop_append,
          hzero, List.drop_zero]

@[simp] lemma bytes_advance (b : Buffer) (n : ℕ) : (b.advance n).bytes = b.bytes.drop n := by
  unfold advance
  rw [bytes_advanceLoop, bytes_nil, List.nil_append]
  rfl

lemma foldl_length (l : List Bytes) (n : ℕ) :
    l.foldl (fun n e => n + e.length) n = n + l.flatten.length := by
  induction l generalizing n with
  | nil => rfl
  | cons e l ih => rw [List.foldl_cons, ih, List.flatten_cons, List.length_append, Nat.add_assoc]

lemma bytesCount_eq (b : Buffer) : b.bytesCount = b.bytes.length := by
  unfold bytesCount bytes get
  split_ifs
  · rfl
  · rw [List.flatten_singleton]
  · rw [foldl_length, Nat.zero_add]

/-- A buffer is empty if and only if it has no octets. -/
lemma empty_iff : b.empty = true ↔ b.bytes = [] := by
  unfold empty bytes
  rw [beq_iff_eq]
  constructor
  · intro hsize
    unfold get
    rw [if_pos hsize]
    rfl
  · intro hbytes
    by_contra hsize
    have hget : b.get ≠ [] := by
      unfold get
      rw [if_neg hsize]
      rcases b.wellFormed with ⟨hzero, -⟩ | ⟨hone, -, -⟩ | ⟨htwo, hlength, -⟩
      · exact absurd hzero hsize
      · rw [if_pos hone]
        exact List.cons_ne_nil _ _
      · rw [if_neg (by omega)]
        intro hvec
        rw [hvec, List.length_nil] at hlength
        omega
    rcases List.exists_cons_of_ne_nil hget with ⟨e, l, heq⟩
    have he : e ∈ b.get := heq ▸ List.mem_cons_self
    rw [heq, List.flatten_cons] at hbytes
    exact ne_nil_of_mem_get he (List.append_eq_nil_iff.1 hbytes).1

/-! ## Partial writes -/

/-- `operator+=` with several numbers, one after the other. -/
def advances (b : Buffer) (ns : List ℕ) : Buffer := ns.foldl advance b

/-- What the numbers take from the front of the buffer, one after the other. -/
def consumed : Buffer → List ℕ → Bytes
  | _, [] => []
  | b, n :: ns => b.bytes.take n ++ consumed (b.advance n) ns

/-- Several steps leave out the sum of their octets. -/
lemma bytes_advances (b : Buffer) (ns : List ℕ) : (b.advances ns).bytes = b.bytes.drop ns.sum := by
  unfold advances
  induction ns generalizing b with
  | nil => rfl
  | cons n ns ih => rw [List.foldl_cons, ih, bytes_advance, List.drop_drop, List.sum_cons]

/-- What was left out is the front of the octets. -/
lemma consumed_eq (b : Buffer) (ns : List ℕ) : b.consumed ns = b.bytes.take ns.sum := by
  induction ns generalizing b with
  | nil => rfl
  | cons n ns ih => rw [consumed, ih, bytes_advance, List.sum_cons, List.take_add]

/-- Joining buffers joins their octets, a number takes octets from the front, and numbers that sum
up to the count of the octets take all of them, in their order. -/
theorem buffer_laws (b c : Buffer) (n : ℕ) (ns : List ℕ) :
    (b.append c).bytes = b.bytes ++ c.bytes ∧
      (b.advance n).bytes = b.bytes.drop (min n b.bytesCount) ∧
      b.bytesCount = b.bytes.length ∧
      (b.empty = true ↔ b.bytesCount = 0) ∧
      b.consumed ns = b.bytes.take ns.sum ∧
      (b.advances ns).bytes = b.bytes.drop ns.sum ∧
      ((b.advances ns).empty = true ↔ b.bytesCount ≤ ns.sum) := by
  have hcount := b.bytesCount_eq
  refine ⟨bytes_append b c, ?_, hcount, ?_, consumed_eq b ns, bytes_advances b ns, ?_⟩
  · rw [bytes_advance, hcount]
    rcases le_total n b.bytes.length with hle | hle
    · rw [min_eq_left hle]
    · rw [min_eq_right hle, List.drop_of_length_le hle, List.drop_length]
  · rw [empty_iff, hcount, List.length_eq_zero_iff]
  · rw [empty_iff, bytes_advances, List.drop_eq_nil_iff, hcount]

end Buffer

end Aio

end Cppcms
