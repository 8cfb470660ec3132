import Cppcms.Base.Outcome
import Cppcms.Json.Paths
import Cppcms.Library.Memory

/-!
# Keys that may refer to foreign octets

A `string_key` of `cppcms/string_key.h` owns its octets, or it is a range of octets that belong to
something else, such as the middle of a longer text.  The two are told apart by the pointer to the
begin of the range, which is null in a key that owns its octets.

The functions are followed octet for octet: besides its value a call has the positions that it
reads.  The values are those of `std::string`; the two slips are at the end of the range, which `at`
lets through and where `find` looks when it has not found anything.
-/

namespace Cppcms

namespace Views

/-! ## Calls that read -/

/-- A value, and where the call has read. -/
structure Access (ρ α : Type) where
  value : α
  reads : List ρ

namespace Access

variable {ρ σ α β : Type}

instance : Monad (Access ρ) where
  pure a := ⟨a, []⟩
  bind x f := ⟨(f x.value).value, x.reads ++ (f x.value).reads⟩

@[simp] lemma value_pure (a : α) : (pure a : Access ρ α).value = a := rfl

@[simp] lemma reads_pure (a : α) : (pure a : Access ρ α).reads = [] := rfl

@[simp] lemma value_bind (x : Access ρ α) (f : α → Access ρ β) :
    (x >>= f).value = (f x.value).value := rfl

@[simp] lemma reads_bind (x : Access ρ α) (f : α → Access ρ β) :
    (x >>= f).reads = x.reads ++ (f x.value).reads := rfl

/-- The same call with other names for the positions. -/
def rename (g : ρ → σ) (x : Access ρ α) : Access σ α := ⟨x.value, x.reads.map g⟩

end Access

/-! ## Ranges -/

/-- Some octets in the middle of a memory. -/
structure Range where
  memory : Memory
  first : ℕ
  last : ℕ
  first_le_last : first ≤ last

namespace Range

variable (r : Range)

def size : ℕ := r.last - r.first

/-- The octets of the range. -/
def octets : Bytes := r.memory.read r.first r.size

/-- The positions of the range. -/
def Has (p : ℕ) : Prop := r.first ≤ p ∧ p < r.last

/-- `*(begin() + i)`. -/
def peek (i : ℕ) : Access ℕ UInt8 := ⟨r.memory (r.first + i), [r.first + i]⟩

/-- All octets of the range are copied. -/
def copy : Access ℕ Bytes := ⟨r.octets, List.range' r.first r.size⟩

variable {r}

lemma first_add_size : r.first + r.size = r.last := Nat.add_sub_of_le r.first_le_last

@[simp] lemma length_octets : r.octets.length = r.size := Memory.length_read

variable {i : ℕ}

lemma octets_getElem? (hi : i < r.size) : r.octets[i]? = some (r.memory (r.first + i)) := by
  unfold octets Memory.read
  rw [List.getElem?_map, List.getElem?_range hi]
  rfl

lemma drop_octets (hi : i < r.size) :
    r.octets.drop i = r.memory (r.first + i) :: r.octets.drop (i + 1) := by
  have hlt : i < r.octets.length := by rw [length_octets]; exact hi
  have hget := octets_getElem? hi
  rw [List.getElem?_eq_getElem hlt, Option.some.injEq] at hget
  rw [List.drop_eq_getElem_cons hlt, hget]

lemma has_of_mem_range' {p a n : ℕ} (ha : r.first ≤ a) (hn : a + n ≤ r.last)
    (hp : p ∈ List.range' a n) : r.Has p := by
  rw [List.mem_range'_1] at hp
  exact ⟨by omega, by omega⟩

lemma has_of_mem_copy {p : ℕ} (hp : p ∈ r.copy.reads) : r.Has p :=
  has_of_mem_range' (le_refl _) first_add_size.le hp

end Range

/-! ## Keys -/

/-- `string_key`: the range from `begin_` to `end_`, if these are not null, and `key_`. -/
structure StringKey where
  unowned : Option Range
  key : Bytes

namespace StringKey

/-- The default constructor. -/
def empty : StringKey := ⟨none, []⟩

/-- A key that copies a text. -/
def owned (key : Bytes) : StringKey := ⟨none, key⟩

/-- `string_key(char const *b, char const *e)`. -/
def ofRange (r : Range) : StringKey := ⟨some r, []⟩

/-- What is at `key_.c_str()`: the octets and a zero. -/
def cStr (key : Bytes) : Range where
  memory := fun p => key.getD p 0
  first := 0
  last := key.length
  first_le_last := Nat.le_add_left _ _

variable (k : StringKey)

/-- From `begin()` to `end()`. -/
def held : Range :=
  match k.unowned with
  | some r => r
  | none => cStr k.key

/-- The octets of a key. -/
def octets : Bytes := k.held.octets

def size : ℕ := k.held.size

/-- The loop of `find`, where `pos` and `p` are moved together. -/
def findLoop (r : Range) (c : UInt8) (pos : ℕ) : Access ℕ ℕ :=
  if pos ≤ r.size then do
    let b ← r.peek pos
    if b ≠ c then findLoop r c (pos + 1) else return pos
  else return pos
termination_by r.size + 1 - pos

/-- `find`; `none` is `npos`. -/
def find (c : UInt8) (pos : ℕ) : Access ℕ (Option ℕ) :=
  if k.size ≤ pos then return none
  else do
    let pos ← findLoop k.held c pos
    if k.size ≤ pos then return none else return some pos

/-- `unowned_substr`. -/
def unownedSubstr (pos n : ℕ) : StringKey :=
  if h : k.held.size ≤ pos then empty
  else if hn : k.held.size - pos < n then
    ofRange ⟨k.held.memory, k.held.first + pos, k.held.last, by unfold Range.size at h; omega⟩
  else ofRange ⟨k.held.memory, k.held.first + pos, k.held.first + pos + n, by omega⟩

/-- `substr`. -/
def substr (pos n : ℕ) : Access ℕ StringKey := do
  let s ← (k.unownedSubstr pos n).held.copy
  return owned s

/-- `at`: the position that the result refers to. -/
def at' (n : ℕ) : Outcome ℕ :=
  if k.size < n then .throws "cppcms::string_key::at() range error" else .returns (k.held.first + n)

/-- `str`: the range is copied, or `key_` is. -/
def str : Access ℕ Bytes :=
  match k.unowned with
  | some r => r.copy
  | none => (cStr k.key).copy

/-! ## Comparisons -/

/-- `std::lexicographical_compare`, from a position on; the positions of both ranges are told apart.
-/
def lexicographicalCompare (a b : Range) (i : ℕ) : Access (ℕ ⊕ ℕ) Bool :=
  if i < a.size ∧ i < b.size then do
    let x ← (a.peek i).rename Sum.inl
    let y ← (b.peek i).rename Sum.inr
    if x < y then return true
    else if y < x then return false
    else lexicographicalCompare a b (i + 1)
  else return decide (a.size ≤ i ∧ i < b.size)
termination_by a.size - i

/-- `memcmp` of so many octets, which may look at all of them. -/
def memcmp (a b : Range) (n : ℕ) : Access (ℕ ⊕ ℕ) ℤ where
  value :=
    if a.memory.read a.first n < b.memory.read b.first n then -1
    else if a.memory.read a.first n = b.memory.read b.first n then 0
    else 1
  reads := (List.range' a.first n).map Sum.inl ++ (List.range' b.first n).map Sum.inr

variable (other : StringKey)

/-- `operator<`. -/
def lt : Access (ℕ ⊕ ℕ) Bool := lexicographicalCompare k.held other.held 0

/-- `operator>`: the sides are exchanged. -/
def gt : Access (ℕ ⊕ ℕ) Bool := (other.lt k).rename Sum.swap

/-- `operator>=`. -/
def ge : Access (ℕ ⊕ ℕ) Bool := do
  let less ← k.lt other
  return !less

/-- `operator<=`. -/
def le : Access (ℕ ⊕ ℕ) Bool := do
  let greater ← k.gt other
  return !greater

/-- `operator==`. -/
def eq : Access (ℕ ⊕ ℕ) Bool :=
  if k.size = other.size then do
    let result ← memcmp k.held other.held k.size
    return result == 0
  else return false

/-- `operator!=`. -/
def ne : Access (ℕ ⊕ ℕ) Bool := do
  let equal ← k.eq other
  return !equal

/-! ## The values and the positions that are read -/

variable {k} {r a b : Range} {c : UInt8} {pos n i : ℕ}

/-- One round of the loop: the octet is read, and the loop stops if it is the character. -/
lemma findLoop_stop (hpos : pos ≤ r.size) (hc : r.memory (r.first + pos) = c) :
    findLoop r c pos = ⟨pos, [r.first + pos]⟩ := by
  have hstop : ¬ (r.peek pos).value ≠ c := not_not_intro hc
  have hround : ∀ f : UInt8 → Access ℕ ℕ,
      (r.peek pos >>= f) = ⟨(f (r.peek pos).value).value,
        (r.first + pos) :: (f (r.peek pos).value).reads⟩ := fun _ => rfl
  rw [findLoop, if_pos hpos, hround, if_neg hstop]
  rfl

lemma findLoop_next (hpos : pos ≤ r.size) (hc : r.memory (r.first + pos) ≠ c) :
    findLoop r c pos =
      ⟨(findLoop r c (pos + 1)).value, (r.first + pos) :: (findLoop r c (pos + 1)).reads⟩ := by
  have hgo : (r.peek pos).value ≠ c := hc
  have hround : ∀ f : UInt8 → Access ℕ ℕ,
      (r.peek pos >>= f) = ⟨(f (r.peek pos).value).value,
        (r.first + pos) :: (f (r.peek pos).value).reads⟩ := fun _ => rfl
  rw [findLoop, if_pos hpos, hround, if_pos hgo]

/-- The loop stops at the first place of the character. -/
lemma findLoop_of_eq {s t : Bytes} (hsplit : r.octets.drop pos = s ++ c :: t) (hs : c ∉ s) :
    findLoop r c pos = ⟨pos + s.length, List.range' (r.first + pos) (s.length + 1)⟩ := by
  induction s generalizing pos with
  | nil =>
    have hlt : pos < r.size := by
      by_contra hge
      rw [List.drop_eq_nil_of_le (by rw [Range.length_octets]; omega)] at hsplit
      cases hsplit
    rw [Range.drop_octets hlt, List.nil_append] at hsplit
    exact findLoop_stop hlt.le (List.cons.inj hsplit).1
  | cons d s ih =>
    have hlt : pos < r.size := by
      by_contra hge
      rw [List.drop_eq_nil_of_le (by rw [Range.length_octets]; omega)] at hsplit
      cases hsplit
    rw [Range.drop_octets hlt, List.cons_append] at hsplit
    rw [List.mem_cons, not_or] at hs
    have hgo : r.memory (r.first + pos) ≠ c := fun h => hs.1 (h.symm.trans (List.cons.inj hsplit).1)
    rw [findLoop_next hlt.le hgo, ih (List.cons.inj hsplit).2 hs.2, List.length_cons,
      List.range'_succ]
    dsimp only
    congr 1
    omega

/-- Without such a place the loop goes on up to the octet behind the range. -/
lemma findLoop_of_notMem (hpos : pos ≤ r.size) (hc : c ∉ r.octets.drop pos) :
    r.size ≤ (findLoop r c pos).value ∧ r.last ∈ (findLoop r c pos).reads := by
  induction hn : r.size - pos generalizing pos with
  | zero =>
    have hend : pos = r.size := by omega
    have hlast : r.first + pos = r.last := by rw [hend, Range.first_add_size]
    by_cases hstop : r.memory (r.first + pos) = c
    · rw [findLoop_stop hpos hstop, hlast]
      exact ⟨hend.ge, List.mem_cons_self⟩
    · rw [findLoop_next hpos hstop, hlast, findLoop, if_neg (by omega)]
      exact ⟨by show r.size ≤ pos + 1; omega, List.mem_cons_self⟩
  | succ n ih =>
    have hlt : pos < r.size := by omega
    rw [Range.drop_octets hlt, List.mem_cons, not_or] at hc
    rcases ih (by omega) hc.2 (by omega) with ⟨hvalue, hread⟩
    rw [findLoop_next hpos fun h => hc.1 h.symm]
    exact ⟨hvalue, List.mem_cons_of_mem _ hread⟩

/-- `std::string::find`: the first position from `pos` on where the character stands. -/
def stdFind (s : Bytes) (c : UInt8) (pos : ℕ) : Option ℕ :=
  (List.range s.length).find? fun i => pos ≤ i && s[i]? == some c

variable {s : Bytes}

lemma stdFind_of_eq {x t : Bytes} (hsplit : s.drop pos = x ++ c :: t) (hx : c ∉ x) :
    stdFind s c pos = some (pos + x.length) := by
  have hlength := congrArg List.length hsplit
  rw [List.length_drop, List.length_append, List.length_cons] at hlength
  have hget : ∀ j, s[pos + j]? = (x ++ c :: t)[j]? := fun j => by rw [← hsplit, List.getElem?_drop]
  unfold stdFind
  rw [List.find?_range_eq_some]
  refine ⟨?_, List.mem_range.mpr (by omega), ?_⟩
  · rw [Bool.and_eq_true, decide_eq_true_eq, beq_iff_eq, hget,
      List.getElem?_append_right (le_refl _), Nat.sub_self]
    exact ⟨by omega, rfl⟩
  · intro j hj
    rw [Bool.not_eq_true', Bool.and_eq_false_iff, decide_eq_false_iff_not, beq_eq_false_iff_ne]
    by_cases hle : pos ≤ j
    · right
      rcases Nat.exists_eq_add_of_le hle with ⟨d, rfl⟩
      have hd : d < x.length := by omega
      rw [hget, List.getElem?_append_left hd, List.getElem?_eq_getElem hd, Ne, Option.some.injEq]
      exact fun h => hx (h ▸ List.getElem_mem hd)
    · exact Or.inl hle

lemma stdFind_of_notMem (hc : c ∉ s.drop pos) : stdFind s c pos = none := by
  unfold stdFind
  rw [List.find?_eq_none]
  intro j _
  rw [Bool.and_eq_true, decide_eq_true_eq, beq_iff_eq]
  rintro ⟨hle, hget⟩
  rcases Nat.exists_eq_add_of_le hle with ⟨d, rfl⟩
  rw [← List.getElem?_drop] at hget
  exact hc (List.mem_of_getElem? hget)

/-- The value of `find` is that of `std::string`, and it stays inside of the range unless it misses
the character. -/
lemma find_spec (k : StringKey) (c : UInt8) (pos : ℕ) :
    (k.find c pos).value = stdFind k.octets c pos ∧
      ((∀ p ∈ (k.find c pos).reads, k.held.Has p) ↔ k.size ≤ pos ∨ c ∈ k.octets.drop pos) := by
  unfold find
  by_cases hpos : k.size ≤ pos
  · have hdrop : k.octets.drop pos = [] :=
      List.drop_eq_nil_of_le (by rw [octets, Range.length_octets]; exact hpos)
    have hnone : stdFind k.octets c pos = none :=
      stdFind_of_notMem (by rw [hdrop]; exact List.not_mem_nil)
    rw [if_pos hpos, hnone]
    exact ⟨rfl, fun _ => Or.inl hpos, fun _ p hp => absurd hp List.not_mem_nil⟩
  · rw [if_neg hpos]
    by_cases hc : c ∈ k.octets.drop pos
    · rcases List.eq_append_cons_of_mem hc with ⟨x, t, hsplit, hx⟩
      have hlength := congrArg List.length hsplit
      rw [List.length_drop, List.length_append, List.length_cons, octets,
        Range.length_octets] at hlength
      have hvalue : ¬ k.size ≤ (findLoop k.held c pos).value := by
        rw [findLoop_of_eq hsplit hx]
        show ¬ k.held.size ≤ pos + x.length
        omega
      rw [stdFind_of_eq hsplit hx, Access.value_bind, Access.reads_bind, if_neg hvalue,
        findLoop_of_eq hsplit hx]
      refine ⟨rfl, fun _ => Or.inr hc, fun _ p hp => ?_⟩
      rw [Access.reads_pure, List.append_nil] at hp
      have hend := k.held.first_add_size
      exact Range.has_of_mem_range' (Nat.le_add_right _ _) (by omega) hp
    · rcases findLoop_of_notMem (r := k.held) (by unfold size at hpos; omega) hc with
        ⟨hvalue, hread⟩
      rw [stdFind_of_notMem hc, Access.value_bind, Access.reads_bind]
      have hnone : k.size ≤ (findLoop k.held c pos).value := hvalue
      rw [if_pos hnone]
      refine ⟨rfl, fun hall => absurd (hall _ (List.mem_append.mpr (Or.inl hread))).2
        (lt_irrefl _), ?_⟩
      rintro (h | h)
      · exact absurd h hpos
      · exact absurd h hc

/-! ## Parts -/

lemma read_drop_take (m : Memory) (x len i j : ℕ) (hj : i + j ≤ len) :
    ((m.read x len).drop i).take j = m.read (x + i) j := by
  refine List.ext_getElem? fun d => ?_
  unfold Memory.read
  by_cases hd : d < j
  · rw [List.getElem?_take_of_lt hd, List.getElem?_drop, List.getElem?_map, List.getElem?_map,
      List.getElem?_range (by omega), List.getElem?_range hd, Option.map_some,
      Option.map_some, Nat.add_assoc]
  · rw [List.getElem?_eq_none, List.getElem?_eq_none]
    · rw [List.length_map, List.length_range]
      omega
    · rw [List.length_take]
      omega

/-- The part has the octets that `std::string::substr` gives, none if it starts behind the end, and
it is inside of the range. -/
lemma unownedSubstr_spec (k : StringKey) (pos n : ℕ) :
    (k.unownedSubstr pos n).octets = (k.octets.drop pos).take n ∧
      ∀ p, (k.unownedSubstr pos n).held.Has p → k.held.Has p := by
  have hend := k.held.first_add_size
  unfold unownedSubstr
  by_cases hpos : k.held.size ≤ pos
  · rw [dif_pos hpos]
    have hdrop : k.octets.drop pos = [] :=
      List.drop_eq_nil_of_le (by rw [octets, Range.length_octets]; exact hpos)
    rw [hdrop, List.take_nil]
    exact ⟨rfl, fun p hp => absurd hp.2 (Nat.not_lt_zero p)⟩
  · rw [dif_neg hpos]
    by_cases hn : k.held.size - pos < n
    · rw [dif_pos hn]
      constructor
      · have hlength : (k.octets.drop pos).length = k.held.size - pos := by
          rw [List.length_drop, octets, Range.length_octets]
        have htake : (k.octets.drop pos).take n = (k.octets.drop pos).take (k.held.size - pos) := by
          rw [List.take_of_length_le (by omega), List.take_of_length_le (by omega)]
        have hread := read_drop_take k.held.memory k.held.first k.held.size pos
          (k.held.size - pos) (by omega)
        have hsize : k.held.last - (k.held.first + pos) = k.held.size - pos := by
          unfold Range.size; omega
        rw [htake]
        show k.held.memory.read (k.held.first + pos) (k.held.last - (k.held.first + pos)) = _
        rw [hsize, ← hread]
        rfl
      · rintro p ⟨hlow, hhigh⟩
        exact ⟨(Nat.le_add_right _ _).trans hlow, hhigh⟩
    · rw [dif_neg hn]
      constructor
      · have hread := read_drop_take k.held.memory k.held.first k.held.size pos n (by omega)
        have hsize : k.held.first + pos + n - (k.held.first + pos) = n := by omega
        show k.held.memory.read (k.held.first + pos)
          (k.held.first + pos + n - (k.held.first + pos)) = _
        rw [hsize, ← hread]
        rfl
      · rintro p ⟨hlow, hhigh⟩
        have hhigh' : p < k.held.first + pos + n := hhigh
        exact ⟨(Nat.le_add_right _ _).trans hlow, by omega⟩

lemma octets_owned (s : Bytes) : (owned s).octets = s := by
  refine List.ext_getElem? fun i => ?_
  by_cases hi : i < s.length
  · have hget := Range.octets_getElem? (r := cStr s) hi
    have hat : s.getD (0 + i) 0 = s[i] := by
      rw [Nat.zero_add, List.getD_eq_getElem?_getD, List.getElem?_eq_getElem hi, Option.getD_some]
    rw [List.getElem?_eq_getElem hi, ← hat]
    exact hget
  · rw [List.getElem?_eq_none, List.getElem?_eq_none (by omega)]
    show (cStr s).octets.length ≤ i
    rw [Range.length_octets]
    show s.length - 0 ≤ i
    omega

lemma substr_spec (k : StringKey) (pos n : ℕ) :
    (k.substr pos n).value.octets = (k.octets.drop pos).take n ∧
    ∀ p ∈ (k.substr pos n).reads, k.held.Has p := by
  rcases unownedSubstr_spec k pos n with ⟨hoctets, hinside⟩
  constructor
  · show (owned (k.unownedSubstr pos n).octets).octets = _
    rw [octets_owned, hoctets]
  · intro p hp
    unfold substr at hp
    rw [Access.reads_bind, Access.reads_pure, List.append_nil] at hp
    exact hinside p (Range.has_of_mem_copy hp)

lemma str_spec (k : StringKey) : k.str.value = k.octets ∧ ∀ p ∈ k.str.reads, k.held.Has p := by
  have hstr : k.str = k.held.copy := by
    rcases k with ⟨_ | r, key⟩ <;> rfl
  rw [hstr]
  exact ⟨rfl, fun p hp => Range.has_of_mem_copy hp⟩

lemma at'_spec (k : StringKey) (n : ℕ) :
    k.at' n = .throws "cppcms::string_key::at() range error" ↔ k.size < n := by
  unfold at'
  split_ifs with h
  · exact ⟨fun _ => h, fun _ => rfl⟩
  · exact ⟨(fun hthrow => by cases hthrow), fun hlt => absurd hlt h⟩

/-! ## Order -/

/-- A position of the left or of the right range. -/
def Inside (a b : Range) : ℕ ⊕ ℕ → Prop
  | .inl p => a.Has p
  | .inr p => b.Has p

lemma inside_swap (p : ℕ ⊕ ℕ) : Inside a b p.swap ↔ Inside b a p := by
  rcases p with p | p <;> exact Iff.rfl

/-- The comparison is the lexicographic order of what is left, and it stays inside of both ranges.
-/
lemma lexicographicalCompare_spec (a b : Range) (i : ℕ) :
    (lexicographicalCompare a b i).value = decide (a.octets.drop i < b.octets.drop i) ∧
      ∀ p ∈ (lexicographicalCompare a b i).reads, Inside a b p := by
  induction hn : a.size - i generalizing i with
  | zero =>
    have hend : ¬ (i < a.size ∧ i < b.size) := by omega
    have hdrop : a.octets.drop i = [] := List.drop_eq_nil_of_le (by rw [Range.length_octets]; omega)
    rw [lexicographicalCompare, if_neg hend, hdrop]
    refine ⟨?_, fun p hp => absurd hp List.not_mem_nil⟩
    rw [Access.value_pure, decide_eq_decide]
    by_cases hb : i < b.size
    · rw [Range.drop_octets hb]
      exact ⟨fun _ => List.nil_lt_cons _ _, fun _ => ⟨by omega, hb⟩⟩
    · have hdropb : b.octets.drop i = [] :=
        List.drop_eq_nil_of_le (by rw [Range.length_octets]; omega)
      rw [hdropb]
      exact ⟨fun h => absurd h.2 hb, fun h => absurd h (List.not_lt_nil _)⟩
  | succ n ih =>
    have ha : i < a.size := by omega
    by_cases hb : i < b.size
    · rcases ih (i + 1) (by omega) with ⟨hvalue, hreads⟩
      have hina : Inside a b (.inl (a.first + i)) := by
        have := a.first_add_size
        exact ⟨by omega, by omega⟩
      have hinb : Inside a b (.inr (b.first + i)) := by
        have := b.first_add_size
        exact ⟨by omega, by omega⟩
      have hround : ∀ f : UInt8 → UInt8 → Access (ℕ ⊕ ℕ) Bool,
          ((a.peek i).rename Sum.inl >>= fun x => (b.peek i).rename Sum.inr >>= fun y => f x y) =
            ⟨(f (a.memory (a.first + i)) (b.memory (b.first + i))).value,
              .inl (a.first + i) :: .inr (b.first + i) ::
                (f (a.memory (a.first + i)) (b.memory (b.first + i))).reads⟩ := fun _ => rfl
      rw [lexicographicalCompare, if_pos ⟨ha, hb⟩, hround, Range.drop_octets ha,
        Range.drop_octets hb]
      by_cases hlt : a.memory (a.first + i) < b.memory (b.first + i)
      · rw [if_pos hlt]
        refine ⟨(decide_eq_true (List.cons_lt_cons_iff.mpr (Or.inl hlt))).symm, ?_⟩
        exact List.forall_mem_cons.mpr
          ⟨hina, List.forall_mem_cons.mpr ⟨hinb, List.forall_mem_nil _⟩⟩
      · by_cases hgt : b.memory (b.first + i) < a.memory (a.first + i)
        · rw [if_neg hlt, if_pos hgt]
          refine ⟨(decide_eq_false fun h => ?_).symm, ?_⟩
          · rcases List.cons_lt_cons_iff.mp h with h | ⟨heq, -⟩
            · exact hlt h
            · exact absurd (heq ▸ hgt) (lt_irrefl _)
          · exact List.forall_mem_cons.mpr
              ⟨hina, List.forall_mem_cons.mpr ⟨hinb, List.forall_mem_nil _⟩⟩
        · have heq : a.memory (a.first + i) = b.memory (b.first + i) :=
            le_antisymm (not_lt.mp hgt) (not_lt.mp hlt)
          rw [if_neg hlt, if_neg hgt]
          constructor
          · dsimp only
            rw [hvalue, decide_eq_decide, List.cons_lt_cons_iff]
            exact ⟨fun h => Or.inr ⟨heq, h⟩, fun h => h.elim (fun h => absurd h hlt) fun h => h.2⟩
          · exact List.forall_mem_cons.mpr ⟨hina, List.forall_mem_cons.mpr ⟨hinb, hreads⟩⟩
    · have hend : ¬ (i < a.size ∧ i < b.size) := fun h => hb h.2
      have hdropb : b.octets.drop i = [] :=
        List.drop_eq_nil_of_le (by rw [Range.length_octets]; omega)
      rw [lexicographicalCompare, if_neg hend, hdropb]
      refine ⟨?_, fun p hp => absurd hp List.not_mem_nil⟩
      rw [Access.value_pure, decide_eq_decide]
      exact ⟨fun h => absurd h.2 hb, fun h => absurd h (List.not_lt_nil _)⟩

lemma lt_spec (k other : StringKey) :
    (k.lt other).value = decide (k.octets < other.octets) ∧
      ∀ p ∈ (k.lt other).reads, Inside k.held other.held p := by
  have h := lexicographicalCompare_spec k.held other.held 0
  rwa [List.drop_zero, List.drop_zero] at h

lemma gt_spec (k other : StringKey) :
    (k.gt other).value = decide (other.octets < k.octets) ∧
      ∀ p ∈ (k.gt other).reads, Inside k.held other.held p := by
  rcases lt_spec other k with ⟨hvalue, hreads⟩
  refine ⟨hvalue, fun p hp => ?_⟩
  rcases List.mem_map.mp hp with ⟨q, hq, rfl⟩
  exact (inside_swap q).mpr (hreads q hq)

/-- Two keys are equal if they have the same octets; different lengths are told apart without a look
at them. -/
lemma eq_spec (k other : StringKey) :
    (k.eq other).value = decide (k.octets = other.octets) ∧
      ∀ p ∈ (k.eq other).reads, Inside k.held other.held p := by
  unfold eq
  by_cases hsize : k.size = other.size
  · have hright : other.held.memory.read other.held.first k.size = other.octets := by
      rw [hsize]; rfl
    have hleft : k.held.memory.read k.held.first k.size = k.octets := rfl
    rw [if_pos hsize]
    constructor
    · have hmem : (memcmp k.held other.held k.size).value =
          if k.octets < other.octets then -1 else if k.octets = other.octets then 0 else 1 := by
        unfold memcmp
        rw [hright, hleft]
      rw [Access.value_bind, Access.value_pure, hmem]
      by_cases heq : k.octets = other.octets
      · rw [heq, if_neg (lt_irrefl _), if_pos rfl, decide_eq_true rfl]
        rfl
      · rw [if_neg heq, decide_eq_false heq]
        split_ifs <;> rfl
    · intro p hp
      rw [Access.reads_bind, Access.reads_pure, List.append_nil] at hp
      rcases List.mem_append.mp hp with hp | hp
      · rcases List.mem_map.mp hp with ⟨q, hq, rfl⟩
        exact Range.has_of_mem_copy hq
      · rcases List.mem_map.mp hp with ⟨q, hq, rfl⟩
        rw [hsize] at hq
        exact Range.has_of_mem_copy hq
  · rw [if_neg hsize]
    refine ⟨(decide_eq_false fun h => hsize ?_).symm, fun p hp => absurd hp List.not_mem_nil⟩
    have hlength := congrArg List.length h
    rwa [octets, octets, Range.length_octets, Range.length_octets] at hlength

lemma negate_spec {x : Access (ℕ ⊕ ℕ) Bool} {P : Prop} [Decidable P] (hx : x.value = decide P) :
    (x >>= fun v => return !v).value = decide (¬ P) ∧
    (x >>= fun v => return !v).reads = x.reads := by
  rw [Access.value_bind, Access.reads_bind, hx, Access.value_pure, Access.reads_pure,
    List.append_nil, decide_not]
  exact ⟨rfl, rfl⟩

/-! ## Agreement with strings -/

/-- The comparison operators. -/
inductive Comparison where
  | lt
  | gt
  | le
  | ge
  | eq
  | ne

/-- The operator of `string_key`. -/
def Comparison.run (k other : StringKey) : Comparison → Access (ℕ ⊕ ℕ) Bool
  | lt => k.lt other
  | gt => k.gt other
  | le => k.le other
  | ge => k.ge other
  | eq => k.eq other
  | ne => k.ne other

/-- The operator of `std::string`. -/
def Comparison.ofStrings (s t : Bytes) : Comparison → Bool
  | lt => s < t
  | gt => s > t
  | le => s ≤ t
  | ge => s ≥ t
  | eq => s = t
  | ne => s ≠ t

lemma Comparison.run_spec (k other : StringKey) (op : Comparison) :
    (op.run k other).value = op.ofStrings k.octets other.octets ∧
      ∀ p ∈ (op.run k other).reads, Inside k.held other.held p := by
  rcases lt_spec k other with ⟨hlt, hltReads⟩
  rcases gt_spec k other with ⟨hgt, hgtReads⟩
  rcases eq_spec k other with ⟨heq, heqReads⟩
  cases op with
  | lt => exact ⟨hlt, hltReads⟩
  | gt => exact ⟨hgt, hgtReads⟩
  | eq => exact ⟨heq, heqReads⟩
  | le =>
    rcases negate_spec hgt with ⟨hvalue, hreads⟩
    refine ⟨hvalue.trans (decide_eq_decide.mpr not_lt), fun p hp => hgtReads p ?_⟩
    rw [← hreads]
    exact hp
  | ge =>
    rcases negate_spec hlt with ⟨hvalue, hreads⟩
    refine ⟨hvalue.trans (decide_eq_decide.mpr not_lt), fun p hp => hltReads p ?_⟩
    rw [← hreads]
    exact hp
  | ne =>
    rcases negate_spec heq with ⟨hvalue, hreads⟩
    refine ⟨hvalue, fun p hp => heqReads p ?_⟩
    rw [← hreads]
    exact hp

/-- A question to a key. -/
inductive Query where
  | find (c : UInt8) (pos : ℕ)
  | substr (pos n : ℕ)
  | unownedSubstr (pos n : ℕ)
  | compare (op : Comparison) (other : StringKey)
  | at' (n : ℕ)
  | str

namespace Query

/-- The answer is that of `std::string` on the same octets, an index is refused if it is behind the
last octet, and nothing outside of the range is read. -/
def Agrees (k : StringKey) : Query → Prop
  | find c pos => (k.find c pos).value = stdFind k.octets c pos ∧
      ∀ p ∈ (k.find c pos).reads, k.held.Has p
  | substr pos n =>
    (k.substr pos n).value.octets = (k.octets.drop pos).take n ∧
      ∀ p ∈ (k.substr pos n).reads, k.held.Has p
  | unownedSubstr pos n =>
    (k.unownedSubstr pos n).octets = (k.octets.drop pos).take n ∧
      ∀ p, (k.unownedSubstr pos n).held.Has p → k.held.Has p
  | compare op other =>
    (op.run k other).value = op.ofStrings k.octets other.octets ∧
      ∀ p ∈ (op.run k other).reads, Inside k.held other.held p
  | at' n =>
    (k.at' n = .throws "cppcms::string_key::at() range error" ↔ k.octets.length ≤ n) ∧
      ∀ p, k.at' n = .returns p → k.held.Has p ∧ k.octets[n]? = some (k.held.memory p)
  | str => k.str.value = k.octets ∧ ∀ p ∈ k.str.reads, k.held.Has p

/-- The end of the range is not asked for, and what is searched for is there, unless the search
begins behind the end. -/
def Fine (k : StringKey) : Query → Prop
  | find c pos => k.octets.length ≤ pos ∨ c ∈ k.octets.drop pos
  | at' n => n ≠ k.octets.length
  | _ => True

/-- A key answers a question as a string does, and stays inside of its range, if and only if the
question is not about the end of the range. -/
theorem answers_iff (k : StringKey) (q : Query) : q.Agrees k ↔ q.Fine k := by
  have hsize : k.octets.length = k.size := Range.length_octets
  cases q with
  | find c pos =>
    rcases find_spec k c pos with ⟨hvalue, hreads⟩
    show _ ∧ _ ↔ k.octets.length ≤ pos ∨ _
    rw [hsize, ← hreads]
    exact ⟨fun h => h.2, fun h => ⟨hvalue, h⟩⟩
  | substr pos n => exact iff_of_true (substr_spec k pos n) trivial
  | unownedSubstr pos n => exact iff_of_true (unownedSubstr_spec k pos n) trivial
  | compare op other => exact iff_of_true (op.run_spec k other) trivial
  | at' n =>
    show ((_ ↔ k.octets.length ≤ n) ∧ _) ↔ n ≠ k.octets.length
    rw [at'_spec, hsize]
    constructor
    · rintro ⟨hiff, -⟩ rfl
      exact absurd (hiff.mpr (le_refl _)) (lt_irrefl _)
    · intro hne
      refine ⟨by omega, fun p hp => ?_⟩
      have hlt : n < k.size := by
        by_contra hge
        rw [(at'_spec k n).mpr (by omega)] at hp
        cases hp
      have hposition : p = k.held.first + n := by
        unfold StringKey.at' at hp
        rw [if_neg (by omega), Outcome.returns.injEq] at hp
        exact hp.symm
      subst hposition
      have hend := k.held.first_add_size
      have hin : k.held.first + n < k.held.last := by unfold StringKey.size at hlt; omega
      exact ⟨⟨Nat.le_add_right _ _, hin⟩, Range.octets_getElem? hlt⟩
  | str => exact iff_of_true (str_spec k) trivial

/-- The octet behind a key of two octets is accepted, and it is looked at for a character that the
key does not have. -/
theorem not_agrees_end :
    ¬ (at' 2).Agrees (owned [0x61, 0x62]) ∧
      ¬ (find 0x63 0).Agrees (ofRange ⟨fun p => [0x61, 0x62, 0x63].getD p 0, 0, 2, by decide⟩) := by
  constructor
  · rintro ⟨hiff, -⟩
    have hlt := (at'_spec (owned [0x61, 0x62]) 2).mp (hiff.mpr (by decide))
    exact absurd hlt (by decide)
  · rintro ⟨-, hreads⟩
    rcases (find_spec _ _ _).2.mp hreads with h | h
    · exact absurd h (by decide)
    · exact absurd h (by decide)

end Query

end StringKey

end Views

end Cppcms
