import Cppcms.Library.LinkedBuckets
import Cppcms.Library.Machine

/-!
# The hash map of the cache

`basic_map` of `private/hash_map.h` keeps its elements in one intrusive list, where the elements of
a bucket stand next to each other, and for each bucket a pair of pointers to the first and to the
last of them.  The cache needs it because an iterator of it stays valid until its element is erased.

Containers have addresses, with `0` for the null pointer.  A call that uses a destroyed container or
a bucket outside of the table, or whose loop does not end, gives `none`.
-/

namespace Cppcms

namespace HashMap

open DoublyLinked

/-! ## intrusive_list -/

/-- The links of the containers. -/
structure Links where
  next : ℕ → ℕ
  prev : ℕ → ℕ

/-- `intrusive_list`: its `begin` and its `end`. -/
structure IntrusiveList where
  first : ℕ
  last : ℕ

namespace IntrusiveList

def empty : IntrusiveList := ⟨0, 0⟩

/-- `push_back`. -/
def pushBack (l : IntrusiveList) (s : Links) (p : ℕ) : Links × IntrusiveList :=
  (⟨if l.last = 0 then Function.update s.next p 0
    else Function.update (Function.update s.next p 0) l.last p,
      Function.update s.prev p l.last⟩,
    ⟨if l.first = 0 then p else l.first, p⟩)

/-- `insert_after`. -/
def insertAfter (l : IntrusiveList) (s : Links) (p afterMe : ℕ) : Links × IntrusiveList :=
  if s.next afterMe = 0 then l.pushBack s p
  else
    (⟨Function.update (Function.update s.next p (s.next afterMe)) afterMe p,
        Function.update (Function.update s.prev p afterMe) (s.next afterMe) p⟩, l)

/-- `erase`. -/
def erase (l : IntrusiveList) (s : Links) (p : ℕ) : Links × IntrusiveList :=
  (⟨Function.update (if s.prev p = 0 then s.next else Function.update s.next (s.prev p) (s.next p))
    p 0,
      Function.update
        (if s.next p = 0 then s.prev else Function.update s.prev (s.next p) (s.prev p)) p 0⟩,
    ⟨if l.first = p then s.next p else l.first, if l.last = p then s.prev p else l.last⟩)

end IntrusiveList

/-! ## basic_map -/

/-- The list and the ranges of the buckets, with the links of the containers. -/
structure Table where
  links : Links
  list : IntrusiveList
  hash : List (ℕ × ℕ)

namespace Table

/-- A container begins the range of a bucket. -/
def begins (t : Table) (i p : ℕ) : Table where
  links := (t.list.pushBack t.links p).1
  list := (t.list.pushBack t.links p).2
  hash := t.hash.set i (p, p)

/-- A container is put behind the range of a bucket. -/
def extends' (t : Table) (i : ℕ) (r : ℕ × ℕ) (p : ℕ) : Table where
  links := (t.list.insertAfter t.links p r.2).1
  list := (t.list.insertAfter t.links p r.2).2
  hash := t.hash.set i (r.1, p)

end Table

/-- `basic_map`; `val` are the containers that are not destroyed. -/
structure BasicMap (κ ν : Type) extends Table where
  val : ℕ → Option (κ × ν)
  size : ℕ

section Code

variable {κ ν : Type} [DecidableEq κ] (h : κ → ℕ)

/-- `get`: the position of a bucket, and its range. -/
def get (hash : List (ℕ × ℕ)) (k : κ) : Option (ℕ × ℕ × ℕ) :=
  (hash[h k % hash.length]?).map fun r => (h k % hash.length, r)

namespace BasicMap

variable (m : BasicMap κ ν)

def init : BasicMap κ ν := ⟨⟨⟨fun _ => 0, fun _ => 0⟩, .empty, []⟩, fun _ => none, 0⟩

/-- The loop of `find_in_range`. -/
def findInRange (r : ℕ × ℕ) (k : κ) : ℕ → ℕ → Option ℕ
  | 0, _ => none
  | n + 1, p =>
    if p = 0 then some 0
    else
      (m.val p).bind fun x =>
        if x.1 = k then some p else if p = r.2 then some 0 else findInRange r k n (m.links.next p)

/-- `find`. -/
def find (k : κ) : Option ℕ :=
  if m.hash = [] then some 0 else (get h m.hash k).bind fun b =>
    m.findInRange b.2 k (m.size + 1) b.2.1

/-- The loop of `rehash`, over the old list; the links are those of the new table. -/
def moveAll (val : ℕ → Option (κ × ν)) : ℕ → IntrusiveList → Table → Option Table
  | 0, _, _ => none
  | n + 1, l, t =>
    if l.first = 0 then some t
    else
      (val l.first).bind fun x =>
        (get h t.hash x.1).bind fun b =>
          moveAll val n (l.erase t.links l.first).2
            (if b.2.1 = 0 then ({ t with links := (l.erase t.links l.first).1 } :
              Table).begins b.1 l.first
             else ({ t with links := (l.erase t.links l.first).1 } : Table).extends'
               b.1 b.2 l.first)

/-- `rehash`. -/
def rehash (newSize : ℕ) : Option (BasicMap κ ν) :=
  (moveAll h m.val (m.size + 1) m.list ⟨m.links, .empty, List.replicate newSize (0, 0)⟩).map
    fun t =>
    { m with toTable := t }

/-- `next_size`. -/
def nextSize : ℕ := (1 + m.size) * 2

/-- `rehash_if_needed`. -/
def rehashIfNeeded : Option (BasicMap κ ν) :=
  if m.hash.length ≤ m.size + 1 then m.rehash h m.nextSize else some m

/-- `allocate`, with the address of the new container. -/
def allocate (e : κ × ν) (p : ℕ) : BasicMap κ ν :=
  { m with
    links := ⟨Function.update m.links.next p 0, Function.update m.links.prev p 0⟩
    val := Function.update m.val p (some e) }

/-- `insert`: the container of the key, and whether it is a new one. -/
def insert (e : κ × ν) (p : ℕ) : Option (BasicMap κ ν × ℕ × Bool) :=
  (m.rehashIfNeeded h).bind fun m =>
    (get h m.hash e.1).bind fun b =>
      (m.findInRange b.2 e.1 (m.size + 1) b.2.1).bind fun q =>
        if q ≠ 0 then some (m, q, false)
        else
          some ({ m.allocate e p with
              toTable := if b.2.2 = 0 then (m.allocate e p).begins b.1 p
                else (m.allocate e p).extends' b.1 b.2 p
              size := m.size + 1 }, p, true)

/-- `erase`: the map, and the next container. -/
def erase (p : ℕ) : Option (BasicMap κ ν × ℕ) :=
  if p = 0 then some (m, 0)
  else
    (m.val p).bind fun x =>
      (get h m.hash x.1).bind fun b =>
        -- the assertion of a range with one container
        if b.2.1 = b.2.2 ∧ p ≠ b.2.1 then none
        else
          some ({ m with
              links := (m.list.erase m.links p).1
              list := (m.list.erase m.links p).2
              hash := m.hash.set b.1
                (if b.2.1 = b.2.2 then (0, 0)
                 else if b.2.1 = p then (m.links.next p, b.2.2)
                 else if b.2.2 = p then (b.2.1, m.links.prev p)
                 else b.2)
              val := Function.update m.val p none
              size := m.size - 1 }, m.links.next p)

/-- A container is destroyed by `clear`. -/
def destroy (p : ℕ) : BasicMap κ ν :=
  { m with
    links := ⟨Function.update m.links.next p 0, Function.update m.links.prev p 0⟩
    val := Function.update m.val p none }

/-- The loops of `clear`; the second one clears the range of each container. -/
def clearLoop (ranges : Bool) : ℕ → ℕ → BasicMap κ ν → Option (BasicMap κ ν)
  | 0, _, _ => none
  | n + 1, p, m =>
    if p = 0 then some m
    else
      (m.val p).bind fun x =>
        if ranges then
          (get h m.hash x.1).bind fun b =>
            clearLoop ranges n (m.links.next p) { m.destroy p with hash := m.hash.set b.1 (0, 0) }
        else clearLoop ranges n (m.links.next p) (m.destroy p)

/-- `clear`. -/
def clear : Option (BasicMap κ ν) :=
  (if m.hash.length ≤ m.size / 4 then
    clearLoop h false (m.size + 1) m.list.first { m with hash := m.hash.map fun _ => (0, 0) }
   else clearLoop h true (m.size + 1) m.list.first m).map fun m =>
     { m with list := .empty, size := 0 }

/-- The containers from `begin()` to `end()`. -/
def iterate : ℕ → ℕ → Option (List ℕ)
  | 0, _ => none
  | n + 1, p => if p = 0 then some [] else (iterate n (m.links.next p)).map (p :: ·)

end BasicMap

end Code

/-! ## The list -/

variable {l : IntrusiveList} {s s' : Links} {xs : List ℕ} {p q x : ℕ}

/-- The containers of a list. -/
structure Represents (l : IntrusiveList) (s : Links) (xs : List ℕ) : Prop where
  linked : Linked s.next s.prev 0 0 xs l.first
  last : l.last = xs.getLast?.getD 0

/-- The links of a container are left as they are. -/
def Same (s s' : Links) (q : ℕ) : Prop := s'.next q = s.next q ∧ s'.prev q = s.prev q

lemma Represents.congr (h : Represents l s xs) (hsame : ∀ q ∈ xs, Same s s' q) :
    Represents l s' xs :=
  ⟨h.linked.congr (fun q hq => (hsame q hq).1) fun q hq => (hsame q hq).2, h.last⟩

lemma represents_empty (s : Links) : Represents .empty s [] := ⟨rfl, rfl⟩

lemma Represents.ne_zero (h : Represents l s xs) (hq : q ∈ xs) : q ≠ 0 := h.linked.ne_null hq

/-- The last container. -/
lemma Represents.end_eq {ys : List ℕ} (h : Represents l s (ys ++ [x])) : l.last = x := by
  rw [h.last, List.getLast?_concat, Option.getD_some]

/-- A container is appended. -/
lemma Represents.pushBack (h : Represents l s xs) (hp : p ≠ 0) (hpx : p ∉ xs) :
    Represents (l.pushBack s p).2 (l.pushBack s p).1 (xs ++ [p]) ∧
      ∀ q, q ∉ xs → q ≠ p → Same s (l.pushBack s p).1 q := by
  rcases List.eq_nil_or_concat xs with rfl | ⟨ys, x, rfl⟩
  · have hbegin : l.first = 0 := h.linked
    have hend : l.last = 0 := h.last
    unfold IntrusiveList.pushBack
    rw [if_pos hend, if_pos hbegin, hend]
    refine ⟨⟨⟨rfl, hp, Function.update_self _ _ _, Function.update_self _ _ _⟩, rfl⟩,
      fun q _ hq => ?_⟩
    exact ⟨Function.update_of_ne hq _ _, Function.update_of_ne hq _ _⟩
  · rw [List.concat_eq_append] at h hpx ⊢
    have hend := h.end_eq
    have hmem : x ∈ ys ++ [x] := by simp
    have hx : x ≠ 0 := h.ne_zero hmem
    have hpx' : p ≠ x := fun heq => hpx (heq ▸ hmem)
    have hbegin : l.first ≠ 0 := by
      rw [h.linked.first_eq]
      rcases hhead : (ys ++ [x]).head? with _ | y
      · simp at hhead
      · exact h.ne_zero (List.mem_of_mem_head? hhead)
    have hnodup : x ∉ ys := fun hin =>
      (List.nodup_append'.mp h.linked.nodup).2.2 hin (List.mem_singleton_self x)
    have hnextx : s.next x = 0 := h.linked.next_last
    unfold IntrusiveList.pushBack
    rw [hend, if_neg hx, if_neg hbegin]
    refine ⟨⟨?_, by rw [List.getLast?_concat, Option.getD_some]⟩, fun q hq hqp => ?_⟩
    · rw [← insertAfter_last hnodup]
      refine h.linked.insertAfter hp hmem ?_ (Function.update_self _ _ _)
        (fun q hq => ?_) fun q hq => ?_
      · rw [hnextx]
        show Function.update (Function.update s.next p 0) x p p = 0
        rw [Function.update_of_ne hpx', Function.update_self]
      · have hqp : q ≠ p := fun heq => hpx (heq ▸ hq)
        show Function.update (Function.update s.next p 0) x p q = _
        by_cases hqx : q = x
        · rw [if_pos hqx, hqx, Function.update_self]
        · rw [if_neg hqx, Function.update_of_ne hqx, Function.update_of_ne hqp]
      · have hqp : q ≠ p := fun heq => hpx (heq ▸ hq)
        show Function.update s.prev p x q = _
        rw [hnextx, if_neg (h.ne_zero hq), Function.update_of_ne hqp]
    · have hqx : q ≠ x := fun heq => hq (heq ▸ hmem)
      refine ⟨?_, Function.update_of_ne hqp _ _⟩
      show Function.update (Function.update s.next p 0) x p q = _
      rw [Function.update_of_ne hqx, Function.update_of_ne hqp]

/-- A container is put behind another one. -/
lemma Represents.insertAfter (h : Represents l s xs) (hp : p ≠ 0) (hpx : p ∉ xs) (hx : x ∈ xs) :
    Represents (l.insertAfter s p x).2 (l.insertAfter s p x).1 (DoublyLinked.insertAfter x p xs) ∧
      ∀ q, q ∉ xs → q ≠ p → Same s (l.insertAfter s p x).1 q := by
  rcases List.eq_append_cons_of_mem hx with ⟨a, b, rfl, hxa⟩
  have hnext := h.linked.next_eq
  unfold IntrusiveList.insertAfter
  by_cases hlast : s.next x = 0
  · -- the last container
    have hb : b = [] := by
      rcases b with _ | ⟨y, b⟩
      · rfl
      · have hy : y ≠ 0 := h.ne_zero (q := y) (by simp)
        exact absurd (hnext.symm.trans hlast) hy
    subst hb
    rw [if_pos hlast, insertAfter_last hxa]
    exact h.pushBack hp hpx
  · rw [if_neg hlast]
    have hnextMem : s.next x ∈ a ++ x :: b := (h.linked.next_mem hx).resolve_left hlast
    have hpx' : p ≠ x := fun heq => hpx (heq ▸ hx)
    have hpnext : p ≠ s.next x := fun heq => hpx (heq ▸ hnextMem)
    refine ⟨⟨?_, ?_⟩, fun q hq hqp => ?_⟩
    · refine h.linked.insertAfter hp hx ?_ ?_ (fun q hq => ?_) fun q hq => ?_
      · show Function.update (Function.update s.next p (s.next x)) x p p = _
        rw [Function.update_of_ne hpx', Function.update_self]
      · show Function.update (Function.update s.prev p x) (s.next x) p p = _
        rw [Function.update_of_ne hpnext, Function.update_self]
      · have hqp : q ≠ p := fun heq => hpx (heq ▸ hq)
        show Function.update (Function.update s.next p (s.next x)) x p q = _
        by_cases hqx : q = x
        · rw [if_pos hqx, hqx, Function.update_self]
        · rw [if_neg hqx, Function.update_of_ne hqx, Function.update_of_ne hqp]
      · have hqp : q ≠ p := fun heq => hpx (heq ▸ hq)
        show Function.update (Function.update s.prev p x) (s.next x) p q = _
        by_cases hqx : q = s.next x
        · rw [if_pos hqx, hqx, Function.update_self]
        · rw [if_neg hqx, Function.update_of_ne hqx, Function.update_of_ne hqp]
    · have hb : b ≠ [] := by
        rintro rfl
        exact hlast h.linked.next_last
      rw [h.last, insertAfter_append_of_notMem hxa, DoublyLinked.insertAfter, if_pos rfl,
        List.getLast?_append_of_ne_nil _ (List.cons_ne_nil _ _),
        List.getLast?_append_of_ne_nil _ (List.cons_ne_nil _ _)]
      rcases b with _ | ⟨y, b⟩
      · exact absurd rfl hb
      · rw [List.getLast?_cons_cons, List.getLast?_cons_cons, List.getLast?_cons_cons]
    · have hqx : q ≠ x := fun heq => hq (heq ▸ hx)
      have hqnext : q ≠ s.next x := fun heq => hq (heq ▸ hnextMem)
      constructor
      · show Function.update (Function.update s.next p (s.next x)) x p q = _
        rw [Function.update_of_ne hqx, Function.update_of_ne hqp]
      · show Function.update (Function.update s.prev p x) (s.next x) p q = _
        rw [Function.update_of_ne hqnext, Function.update_of_ne hqp]

/-- A container is taken out. -/
lemma Represents.erase (h : Represents l s xs) (hp : p ∈ xs) :
    Represents (l.erase s p).2 (l.erase s p).1 (xs.erase p) ∧ ∀ q, q ∉ xs →
    Same s (l.erase s p).1 q := by
  rcases List.eq_append_cons_of_mem hp with ⟨a, b, hxs, hpa⟩
  have hlinked := h.linked
  have hlast := h.last
  rw [hxs] at hlinked hlast
  have hnull : (0 : ℕ) ∉ xs := h.linked.null_notMem
  have hprev := hlinked.split.1
  have hnext := hlinked.next_eq
  have hprevMem := h.linked.prev_mem hp
  have hnextMem := h.linked.next_mem hp
  have hpb : p ∉ b := (List.nodup_cons.mp (List.nodup_append'.mp hlinked.nodup).2.1).1
  have herase : xs.erase p = a ++ b := by
    rw [hxs, List.erase_append_right _ hpa, List.erase_cons_head]
  refine ⟨⟨?_, ?_⟩, fun q hq => ?_⟩
  · have hfirst : (if s.prev p = 0 then s.next p else l.first) = if l.first =
        p then s.next p else l.first := by
      rcases a with _ | ⟨y, a⟩
      · have hbegin : l.first = p := hlinked.first_eq
        have hprev0 : s.prev p = 0 := hprev
        rw [if_pos hprev0, if_pos hbegin]
      · have hprevNe : s.prev p ≠ 0 := by
          rw [hprev, List.getLast?_eq_some_getLast (List.cons_ne_nil y a), Option.getD_some]
          refine h.ne_zero ?_
          rw [hxs]
          exact List.mem_append.mpr (Or.inl (List.getLast_mem _))
        have hbegin : l.first ≠ p := by
          have hy : l.first = y := hlinked.first_eq
          rintro heq
          exact hpa (by rw [← heq, hy]; exact List.mem_cons_self)
        rw [if_neg hprevNe, if_neg hbegin]
    show Linked (l.erase s p).1.next (l.erase s p).1.prev 0 0 (xs.erase p)
      (if l.first = p then s.next p else l.first)
    rw [← hfirst]
    refine h.linked.remove hnull hp (fun q hq hqp => ?_) fun q hq hqp => ?_
    · have hq0 : q ≠ 0 := h.ne_zero hq
      show Function.update _ p 0 q = _
      rw [Function.update_of_ne hqp]
      by_cases hprev0 : s.prev p = 0
      · rw [if_pos hprev0, hprev0, if_neg hq0]
      · rw [if_neg hprev0]
        by_cases hqprev : q = s.prev p
        · rw [if_pos hqprev, hqprev, Function.update_self]
        · rw [if_neg hqprev, Function.update_of_ne hqprev]
    · have hq0 : q ≠ 0 := h.ne_zero hq
      show Function.update _ p 0 q = _
      rw [Function.update_of_ne hqp]
      by_cases hnext0 : s.next p = 0
      · rw [if_pos hnext0, hnext0, if_neg hq0]
      · rw [if_neg hnext0]
        by_cases hqnext : q = s.next p
        · rw [if_pos hqnext, hqnext, Function.update_self]
        · rw [if_neg hqnext, Function.update_of_ne hqnext]
  · rw [herase]
    show (if l.last = p then s.prev p else l.last) = _
    rcases List.eq_nil_or_concat b with rfl | ⟨b, y, rfl⟩
    · have hend : l.last = p := by rw [hlast, List.getLast?_concat, Option.getD_some]
      rw [if_pos hend, hprev, List.append_nil]
    · rw [List.concat_eq_append] at hlast hpb ⊢
      have hend : l.last = y := by
        rw [hlast, ← List.cons_append, ← List.append_assoc, List.getLast?_concat, Option.getD_some]
      have hne : l.last ≠ p := by
        rw [hend]
        rintro rfl
        exact hpb (by simp)
      rw [if_neg hne, hend, ← List.append_assoc, List.getLast?_concat, Option.getD_some]
  · have hqp : q ≠ p := fun heq => hq (heq ▸ hp)
    constructor
    · show Function.update _ p 0 q = _
      rw [Function.update_of_ne hqp]
      split_ifs with hprev0
      · rfl
      · have hqprev : q ≠ s.prev p := by
          rintro rfl
          exact hq (hprevMem.resolve_left hprev0)
        exact Function.update_of_ne hqprev _ _
    · show Function.update _ p 0 q = _
      rw [Function.update_of_ne hqp]
      split_ifs with hnext0
      · rfl
      · have hqnext : q ≠ s.next p := by
          rintro rfl
          exact hq (hnextMem.resolve_left hnext0)
        exact Function.update_of_ne hqnext _ _

/-! ## The buckets -/

variable {home : ℕ → Option ℕ} {t : Table} {i : ℕ} {r : ℕ × ℕ}

/-- The list of a table, and the range of every bucket; `home` says which bucket a container belongs
to. -/
structure Table.Sorted (home : ℕ → Option ℕ) (t : Table) (xs : List ℕ) : Prop where
  represents : Represents t.list t.links xs
  chains : ∀ i r, t.hash[i]? = some r → Chain home 0 (some i) xs r

namespace Table

/-- Both pointers of a range are null, or none is. -/
lemma Sorted.fst_eq_zero_iff (ht : t.Sorted home xs) (hr : t.hash[i]? = some r) :
    r.1 = 0 ↔ r.2 = 0 := by
  rcases (ht.chains i r hr).cases ht.represents.linked.null_notMem with ⟨rfl, -⟩ | ⟨h1, h2, -⟩
  · exact Iff.rfl
  · exact iff_of_false h1 h2

/-- The links of other containers do not matter. -/
lemma Sorted.relink (ht : t.Sorted home xs) (hsame : ∀ q ∈ xs, Same t.links s q) :
    ({ t with links := s } : Table).Sorted home xs :=
  ⟨ht.represents.congr hsame, ht.chains⟩

/-- What a table has behind a new container. -/
structure Placed (home : ℕ → Option ℕ) (t : Table) (xs : List ℕ) (p : ℕ) (t' : Table)
    (ys : List ℕ) : Prop where
  sorted : t'.Sorted home ys
  mem : ∀ q, q ∈ ys ↔ q ∈ xs ∨ q = p
  length : ys.length = xs.length + 1
  hash_length : t'.hash.length = t.hash.length
  frame : ∀ q, q ∉ xs → q ≠ p → Same t.links t'.links q

/-- The first container of a bucket is put at the end of the list. -/
lemma Sorted.begins (ht : t.Sorted home xs) (hp : p ≠ 0) (hpx : p ∉ xs) (hhome : home p = some i)
    (hr : t.hash[i]? = some r) (hvacant : r.2 = 0) :
    Placed home t xs p (t.begins i p) (xs ++ [p]) := by
  rcases ht.represents.pushBack hp hpx with ⟨hlist, hframe⟩
  have hi : i < t.hash.length := (List.getElem?_eq_some_iff.mp hr).1
  have hnone : ∀ q ∈ xs, home q ≠ some i := by
    rcases (ht.chains i r hr).cases ht.represents.linked.null_notMem with ⟨-, h⟩ | ⟨-, h, -⟩
    · exact h
    · exact absurd hvacant h
  refine ⟨⟨hlist, fun j r' hj => ?_⟩, fun q => ?_, ?_, List.length_set, hframe⟩
  · by_cases hij : i = j
    · subst hij
      have hget : (t.hash.set i (p, p))[i]? = some r' := hj
      rw [List.getElem?_set_self hi, Option.some.injEq] at hget
      rw [← hget]
      exact chain_append_self hnone hhome
    · have hget : (t.hash.set i (p, p))[j]? = some r' := hj
      rw [List.getElem?_set_ne hij] at hget
      refine (ht.chains j r' hget).append_other ?_
      rw [hhome]
      exact fun heq => hij (Option.some.inj heq)
  · rw [List.mem_append, List.mem_singleton]
  · rw [List.length_append, List.length_singleton]

/-- A further container of a bucket is put behind the last one. -/
lemma Sorted.extends' (ht : t.Sorted home xs) (hp : p ≠ 0) (hpx : p ∉ xs) (hhome : home p = some i)
    (hr : t.hash[i]? = some r) (hlast : r.2 ≠ 0) :
    Placed home t xs p (t.extends' i r p) (DoublyLinked.insertAfter r.2 p xs) := by
  have hi : i < t.hash.length := (List.getElem?_eq_some_iff.mp hr).1
  rcases (ht.chains i r hr).cases ht.represents.linked.null_notMem with ⟨rfl, -⟩ |
    ⟨-, -, -, hmem, -, hhomeLast⟩
  · exact absurd rfl hlast
  · rcases ht.represents.insertAfter hp hpx hmem with ⟨hlist, hframe⟩
    refine ⟨⟨hlist, fun j r' hj => ?_⟩, fun q =>
      mem_insertAfter hmem, length_insertAfter hmem, List.length_set, hframe⟩
    by_cases hij : i = j
    · subst hij
      have hget : (t.hash.set i (r.1, p))[i]? = some r' := hj
      rw [List.getElem?_set_self hi, Option.some.injEq] at hget
      rw [← hget]
      exact (ht.chains i r hr).insertAfter_self ht.represents.linked.nodup hlast hhome
    · have hget : (t.hash.set i (r.1, p))[j]? = some r' := hj
      rw [List.getElem?_set_ne hij] at hget
      have hne : some i ≠ some j := fun heq => hij (Option.some.inj heq)
      exact (ht.chains j r' hget).insertAfter_other (hhomeLast ▸ hne) hmem (hhome ▸ hne)

/-- A container is taken out of its bucket. -/
lemma Sorted.erase (ht : t.Sorted home xs) (hpx : p ∈ xs) (hhome : home p = some i)
    (hr : t.hash[i]? = some r) :
    (⟨(t.list.erase t.links p).1, (t.list.erase t.links p).2,
      t.hash.set i (endsWithout t.links.next t.links.prev 0 p r)⟩ : Table).Sorted home
        (xs.erase p) := by
  have hi : i < t.hash.length := (List.getElem?_eq_some_iff.mp hr).1
  refine ⟨(ht.represents.erase hpx).1, fun j r' hj => ?_⟩
  by_cases hij : i = j
  · subst hij
    have hget : (t.hash.set i (endsWithout t.links.next t.links.prev 0 p r))[i]? = some r' := hj
    rw [List.getElem?_set_self hi, Option.some.injEq] at hget
    rw [← hget]
    exact (ht.chains i r hr).erase_self ht.represents.linked hhome hpx
  · have hget : (t.hash.set i (endsWithout t.links.next t.links.prev 0 p r))[j]? = some r' := hj
    rw [List.getElem?_set_ne hij] at hget
    refine (ht.chains j r' hget).erase_other ?_
    rw [hhome]
    exact fun heq => hij (Option.some.inj heq)

end Table

/-! ## The map -/

section Map

variable {κ ν : Type} [DecidableEq κ] {h : κ → ℕ} {m : BasicMap κ ν} {k : κ} {n : ℕ}
    {val : ℕ → Option (κ × ν)}

/-- The bucket that a container belongs to. -/
def homeOf (h : κ → ℕ) (n : ℕ) (val : ℕ → Option (κ × ν)) (p : ℕ) : Option ℕ :=
  (val p).map fun x => h x.1 % n

/-- The map is well formed, with these containers in their order. -/
structure Holds (h : κ → ℕ) (m : BasicMap κ ν) (xs : List ℕ) : Prop where
  sorted : m.toTable.Sorted (homeOf h m.hash.length m.val) xs
  live : ∀ p, (∃ x, m.val p = some x) ↔ p ∈ xs
  unique : ∀ p q x y, m.val p = some x → m.val q = some y → x.1 = y.1 → p = q
  size_eq : m.size = xs.length
  table : xs ≠ [] → m.hash ≠ []

omit [DecidableEq κ] in
lemma exists_get {hash : List (ℕ × ℕ)} (hhash : hash ≠ []) (k : κ) :
    ∃ r, get h hash k = some (h k % hash.length, r) ∧ hash[h k % hash.length]? = some r := by
  have hlt : h k % hash.length < hash.length := Nat.mod_lt _ (List.length_pos_iff.mpr hhash)
  refine ⟨hash[h k % hash.length], ?_, List.getElem?_eq_getElem hlt⟩
  unfold get
  rw [List.getElem?_eq_getElem hlt, Option.map_some]

omit [DecidableEq κ] in
/-- Moving the containers of one list into a new table. -/
lemma moveAll_spec {fuel : ℕ} {ys : List ℕ} (hl : Represents l t.links xs)
    (ht : t.Sorted (homeOf h n val) ys) (hdisjoint : ∀ q ∈ xs, q ∉ ys) (hfuel : xs.length < fuel)
    (hn : t.hash.length = n) (hval : ∀ q ∈ xs, ∃ x, val q = some x) (hpos : xs ≠ [] → 0 < n) :
    ∃ t' zs, BasicMap.moveAll h val fuel l t = some t' ∧ t'.Sorted (homeOf h n val) zs ∧
    t'.hash.length = n ∧
      (∀ q, q ∈ zs ↔ q ∈ xs ∨ q ∈ ys) ∧ zs.length = xs.length + ys.length := by
  induction fuel generalizing l t xs ys with
  | zero => omega
  | succ fuel ih =>
    rcases xs with _ | ⟨p, xs⟩
    · have hbegin : l.first = 0 := hl.linked
      refine ⟨t, ys, ?_, ht, hn, fun q => by simp, by simp⟩
      rw [BasicMap.moveAll, if_pos hbegin]
    · have hbegin : l.first = p := hl.linked.first_eq
      have hp0 : p ≠ 0 := hl.ne_zero List.mem_cons_self
      have hnodup := List.nodup_cons.mp hl.linked.nodup
      have hpy : p ∉ ys := hdisjoint p List.mem_cons_self
      rcases hval p List.mem_cons_self with ⟨x, hx⟩
      have hhash : t.hash ≠ [] := by
        rintro hnil
        rw [hnil] at hn
        have := hpos (List.cons_ne_nil p xs)
        rw [← hn] at this
        exact absurd this (lt_irrefl _)
      rcases exists_get (h := h) hhash x.1 with ⟨r, hget, hr⟩
      have hhome : homeOf h n val p = some (h x.1 % t.hash.length) := by
        unfold homeOf
        rw [hx, Option.map_some, hn]
      rcases hl.erase (List.mem_cons_self) with ⟨hrest, hframe⟩
      rw [List.erase_cons_head] at hrest
      have ht₁ := ht.relink (s := (l.erase t.links p).1) fun q hq => hframe q fun hin =>
        hdisjoint q hin hq
      rw [BasicMap.moveAll, if_neg (by rw [hbegin]; exact hp0), hbegin, hx, Option.bind_some, hget,
        Option.bind_some]
      dsimp only
      have hplaced : ∃ ys', Table.Placed (homeOf h n val)
        { t with links := (l.erase t.links p).1 } ys p
          (if r.1 = 0 then ({ t with links := (l.erase t.links p).1 } : Table).begins
            (h x.1 % t.hash.length) p
            else ({ t with links := (l.erase t.links p).1 } : Table).extends'
              (h x.1 % t.hash.length) r p) ys' := by
        by_cases hr0 : r.1 = 0
        · rw [if_pos hr0]
          exact ⟨_, ht₁.begins hp0 hpy hhome hr ((ht.fst_eq_zero_iff hr).mp hr0)⟩
        · rw [if_neg hr0]
          exact ⟨_, ht₁.extends' hp0 hpy hhome hr fun h2 => hr0 ((ht.fst_eq_zero_iff hr).mpr h2)⟩
      rcases hplaced with ⟨ys', hplaced⟩
      have hrest' := hrest.congr fun q hq =>
        hplaced.frame q (hdisjoint q (List.mem_cons_of_mem p hq)) fun heq =>
        hnodup.1 (heq ▸ hq)
      have hdisjoint' : ∀ q ∈ xs, q ∉ ys' := by
        intro q hq hin
        rcases (hplaced.mem q).mp hin with hin | rfl
        · exact hdisjoint q (List.mem_cons_of_mem p hq) hin
        · exact hnodup.1 hq
      rw [List.length_cons] at hfuel
      rcases ih hrest' hplaced.sorted hdisjoint' (by omega) (hplaced.hash_length.trans hn)
        (fun q hq => hval q (List.mem_cons_of_mem p hq)) fun _ => hpos (List.cons_ne_nil p xs) with
        ⟨t', zs, hmove, hsorted, hlength, hmem, hzs⟩
      refine ⟨t', zs, hmove, hsorted, hlength, fun q => ?_, ?_⟩
      · rw [hmem q, hplaced.mem q, List.mem_cons]
        tauto
      · rw [hzs, hplaced.length, List.length_cons]
        omega

omit [DecidableEq κ] in
/-- A new table has the same containers. -/
lemma Holds.rehash (hm : Holds h m xs) (hn : 0 < n ∨ m.size = 0) :
    ∃ m' ys, m.rehash h n = some m' ∧ Holds h m' ys ∧ m'.val = m.val ∧ m'.size = m.size ∧
    m'.hash.length = n ∧
      ∀ q, q ∈ ys ↔ q ∈ xs := by
  have hpos : xs ≠ [] → 0 < n := by
    intro hne
    rcases hn with hn | hzero
    · exact hn
    · rw [hm.size_eq] at hzero
      exact absurd (List.length_eq_zero_iff.mp hzero) hne
  have hsorted : (⟨m.links, .empty, List.replicate n (0, 0)⟩ : Table).Sorted
      (homeOf h n m.val) [] := by
    refine ⟨represents_empty _, fun i r hr => ?_⟩
    rw [List.eq_of_mem_replicate (List.mem_of_getElem? hr)]
    exact chain_vacant fun q hq => absurd hq List.not_mem_nil
  have hlist : Represents m.list (⟨m.links, .empty, List.replicate n (0, 0)⟩ : Table).links xs :=
    hm.sorted.represents
  have hfuel : xs.length < m.size + 1 := by rw [hm.size_eq]; omega
  rcases moveAll_spec hlist hsorted (fun q _ => List.not_mem_nil) hfuel List.length_replicate
    (fun q hq => (hm.live q).mpr hq) hpos with ⟨t', ys, hmove, ht', hlength, hmem, hys⟩
  refine ⟨{ m with toTable := t' }, ys, ?_, ⟨?_, fun q => ?_, hm.unique, ?_, fun hne => ?_⟩, rfl,
    rfl, hlength, fun q => ?_⟩
  · unfold BasicMap.rehash
    rw [hmove, Option.map_some]
  · show t'.Sorted (homeOf h t'.hash.length m.val) ys
    rw [hlength]
    exact ht'
  · rw [hmem q]
    exact (hm.live q).trans (by simp)
  · rw [hys, List.length_nil, Nat.add_zero]
    exact hm.size_eq
  · rintro hnil
    have hzero : n = 0 := by
      rw [← hlength]
      exact congrArg List.length hnil
    rcases List.exists_mem_of_ne_nil ys hne with ⟨q, hq⟩
    have hxs : xs ≠ [] := List.ne_nil_of_mem (((hmem q).mp hq).resolve_right List.not_mem_nil)
    have := hpos hxs
    omega
  · rw [hmem q]
    simp

/-- The loop over a range, at some of its last containers. -/
lemma findInRange_loop (hm : Holds h m xs) (r : ℕ × ℕ) (k : κ) {a s b : List ℕ}
    (hxs : xs = a ++ (s ++ b)) (hs : s ≠ []) (hr : r.2 = s.getLast?.getD 0) {fuel : ℕ}
    (hfuel : s.length ≤ fuel) :
    ∃ q, m.findInRange r k fuel (s.head?.getD 0) = some q ∧
      ((q ≠ 0 ∧ ∃ v, m.val q = some (k, v)) ∨ q = 0 ∧ ∀ p ∈ s, ∀ v, m.val p ≠ some (k, v)) := by
  induction s generalizing a fuel with
  | nil => exact absurd rfl hs
  | cons y s ih =>
    rcases fuel with _ | fuel
    · rw [List.length_cons] at hfuel
      omega
    · have hy : y ∈ xs := by rw [hxs]; simp
      have hy0 : y ≠ 0 := hm.sorted.represents.ne_zero hy
      rcases (hm.live y).mpr hy with ⟨⟨k', v⟩, hv⟩
      rw [List.head?_cons, Option.getD_some, BasicMap.findInRange, if_neg hy0, hv, Option.bind_some]
      by_cases hkey : k' = k
      · rw [if_pos hkey]
        exact ⟨y, rfl, Or.inl ⟨hy0, v, by rw [hv, hkey]⟩⟩
      · rw [if_neg hkey]
        have hother : ∀ w, m.val y ≠ some (k, w) := by
          intro w hw
          rw [hv, Option.some.injEq, Prod.mk.injEq] at hw
          exact hkey hw.1
        rcases s with _ | ⟨z, s⟩
        · have hlast : y = r.2 := by rw [hr]; rfl
          rw [if_pos hlast]
          refine ⟨0, rfl, Or.inr ⟨rfl, fun p hp => ?_⟩⟩
          rw [List.mem_singleton.mp hp]
          exact hother
        · have hlinked := hm.sorted.represents.linked
          rw [hxs] at hlinked
          have hnodup := hlinked.nodup
          have hlast : y ≠ r.2 := by
            rw [hr, List.getLast?_cons_cons, List.getLast?_eq_some_getLast (List.cons_ne_nil z s),
              Option.getD_some]
            intro heq
            have hmem := List.getLast_mem (List.cons_ne_nil z s)
            rw [← heq] at hmem
            exact (List.nodup_cons.mp
              (List.nodup_append'.mp (List.nodup_append'.mp hnodup).2.1).1).1 hmem
          have hnext : m.links.next y = z := hlinked.next_eq
          rw [if_neg hlast, hnext]
          rw [List.getLast?_cons_cons] at hr
          have hxs' : xs = (a ++ [y]) ++ ((z :: s) ++ b) := by rw [hxs]; simp
          rw [List.length_cons] at hfuel
          rcases ih hxs' (List.cons_ne_nil z s) hr (Nat.le_of_succ_le_succ hfuel) with
            ⟨q, hq, hcases⟩
          refine ⟨q, hq, ?_⟩
          rcases hcases with hfound | ⟨rfl, hnone⟩
          · exact Or.inl hfound
          · refine Or.inr ⟨rfl, fun p hp => ?_⟩
            rcases List.mem_cons.mp hp with rfl | hp
            · exact hother
            · exact hnone p hp

/-- The range of the bucket of a key has the container of the key, if there is one. -/
lemma Holds.findInRange (hm : Holds h m xs) (k : κ) {r : ℕ × ℕ}
    (hr : m.hash[h k % m.hash.length]? = some r) :
    ∃ q, m.findInRange r k (m.size + 1) r.1 = some q ∧
      ((q ≠ 0 ∧ ∃ v, m.val q = some (k, v)) ∨ q = 0 ∧ ∀ p v, m.val p ≠ some (k, v)) := by
  rcases hm.sorted.chains _ r hr with ⟨a, s, b, hxs, hs, ha, hb, hends⟩
  -- a container with the key stands in this bucket
  have hin : ∀ p v, m.val p = some (k, v) → p ∈ s := by
    intro p v hv
    have hhome : homeOf h m.hash.length m.val p = some (h k % m.hash.length) := by
      unfold homeOf
      rw [hv, Option.map_some]
    have hp : p ∈ a ++ (s ++ b) := hxs ▸ (hm.live p).mp ⟨_, hv⟩
    rcases List.mem_append.mp hp with hp | hp
    · exact absurd hhome (ha p hp)
    · exact (List.mem_append.mp hp).resolve_right fun hp => hb p hp hhome
  by_cases hsnil : s = []
  · subst hsnil
    refine ⟨0, ?_, Or.inr ⟨rfl, fun p v hv => absurd (hin p v hv) List.not_mem_nil⟩⟩
    rw [hends, BasicMap.findInRange]
    exact if_pos rfl
  · have hlength : s.length ≤ m.size + 1 := by
      rw [hm.size_eq, hxs, List.length_append, List.length_append]
      omega
    rcases findInRange_loop hm r k hxs hsnil (by rw [hends]) hlength with ⟨q, hq, hcases⟩
    refine ⟨q, ?_, ?_⟩
    · have hfirst : r.1 = s.head?.getD 0 := by rw [hends]
      rw [hfirst]
      exact hq
    · rcases hcases with hfound | ⟨rfl, hnone⟩
      · exact Or.inl hfound
      · exact Or.inr ⟨rfl, fun p v hv => hnone p (hin p v hv) v hv⟩

/-- `find` gives the container of the key, if there is one. -/
lemma Holds.find (hm : Holds h m xs) (k : κ) :
    ∃ q, m.find h k = some q ∧
    ((q ≠ 0 ∧ ∃ v, m.val q = some (k, v)) ∨ q = 0 ∧ ∀ p v, m.val p ≠ some (k, v)) := by
  unfold BasicMap.find
  by_cases hhash : m.hash = []
  · rw [if_pos hhash]
    refine ⟨0, rfl, Or.inr ⟨rfl, fun p v hv => ?_⟩⟩
    have hp := (hm.live p).mp ⟨_, hv⟩
    exact hm.table (List.ne_nil_of_mem hp) hhash
  · rcases exists_get (h := h) hhash k with ⟨r, hget, hr⟩
    rw [if_neg hhash, hget, Option.bind_some]
    exact hm.findInRange k hr

omit [DecidableEq κ] in
lemma Holds.rehashIfNeeded (hm : Holds h m xs) :
    ∃ m' ys, m.rehashIfNeeded h = some m' ∧ Holds h m' ys ∧ m'.val = m.val ∧ m'.hash ≠ [] := by
  unfold BasicMap.rehashIfNeeded
  by_cases hsmall : m.hash.length ≤ m.size + 1
  · have hpos : 0 < m.nextSize := by unfold BasicMap.nextSize; omega
    rcases hm.rehash (Or.inl hpos) with ⟨m', ys, hrehash, hm', hval, -, hlength, -⟩
    rw [if_pos hsmall]
    exact ⟨m', ys, hrehash, hm', hval, List.ne_nil_of_length_pos (hlength ▸ hpos)⟩
  · rw [if_neg hsmall]
    exact ⟨m, xs, rfl, hm, rfl, List.ne_nil_of_length_pos (by omega)⟩

omit [DecidableEq κ] in
/-- A new container of a key that no other one has. -/
lemma Holds.allocated (hm : Holds h m xs) {e : κ × ν} {p : ℕ} {t : Table} {ys : List ℕ}
    (hfree : m.val p = none) (hnew : ∀ q v, m.val q ≠ some (e.1, v))
    (ht : t.Sorted (homeOf h m.hash.length (Function.update m.val p (some e))) ys)
    (hlength : t.hash.length = m.hash.length) (hmem : ∀ q, q ∈ ys ↔ q ∈ xs ∨ q = p)
    (hys : ys.length = xs.length + 1) (hhash : m.hash ≠ []) :
    Holds h (⟨t, Function.update m.val p (some e), m.size + 1⟩ : BasicMap κ ν) ys where
  sorted := by
    show t.Sorted (homeOf h t.hash.length (Function.update m.val p (some e))) ys
    rw [hlength]
    exact ht
  live := by
    intro q
    rw [hmem q]
    by_cases hqp : q = p
    · subst hqp
      exact iff_of_true ⟨e, Function.update_self _ _ _⟩ (Or.inr rfl)
    · show (∃ x, Function.update m.val p (some e) q = some x) ↔ _
      rw [Function.update_of_ne hqp, hm.live q]
      exact ⟨Or.inl, fun h => h.resolve_right hqp⟩
  unique := by
    intro q q' x y hx hy hkey
    have hx' : Function.update m.val p (some e) q = some x := hx
    have hy' : Function.update m.val p (some e) q' = some y := hy
    by_cases hq : q = p
    · by_cases hq' : q' = p
      · rw [hq, hq']
      · rw [hq, Function.update_self, Option.some.injEq] at hx'
        rw [Function.update_of_ne hq'] at hy'
        exact absurd (by rw [hy', hx', hkey]) (hnew q' y.2)
    · by_cases hq' : q' = p
      · rw [hq', Function.update_self, Option.some.injEq] at hy'
        rw [Function.update_of_ne hq] at hx'
        exact absurd (by rw [hx', hy', ← hkey]) (hnew q x.2)
      · rw [Function.update_of_ne hq] at hx'
        rw [Function.update_of_ne hq'] at hy'
        exact hm.unique q q' x y hx' hy' hkey
  size_eq := by
    show m.size + 1 = ys.length
    rw [hys, hm.size_eq]
  table := by
    rintro - hnil
    have hzero : t.hash.length = 0 := congrArg List.length hnil
    rw [hlength] at hzero
    exact hhash (List.length_eq_zero_iff.mp hzero)

/-- `insert` gives the container that the key has, or the new one at the address of the allocator.
-/
lemma Holds.insert (hm : Holds h m xs) (e : κ × ν) {p : ℕ} (hp : p ≠ 0) (hfree : m.val p = none) :
    ∃ m' q new ys, m.insert h e p = some (m', q, new) ∧ Holds h m' ys ∧
      ((new = false ∧ m'.val = m.val ∧ ∃ v, m.val q = some (e.1, v)) ∨
        (new = true ∧ q = p ∧ (∀ q v, m.val q ≠ some (e.1, v)) ∧
          m'.val = Function.update m.val p (some e))) := by
  rcases hm.rehashIfNeeded with ⟨m₁, ys, hrehash, hm₁, hval, hhash⟩
  rcases exists_get (h := h) hhash e.1 with ⟨r, hget, hr⟩
  rcases hm₁.findInRange e.1 hr with ⟨q, hfind, hcases⟩
  unfold BasicMap.insert
  rw [hrehash, Option.bind_some, hget, Option.bind_some, hfind, Option.bind_some]
  rcases hcases with ⟨hq, v, hv⟩ | ⟨rfl, hnone⟩
  · rw [if_pos hq]
    exact ⟨m₁, q, false, ys, rfl, hm₁, Or.inl ⟨rfl, hval, v, hval ▸ hv⟩⟩
  · rw [if_neg (not_not_intro rfl)]
    have hfree₁ : m₁.val p = none := by rw [hval]; exact hfree
    have hpy : p ∉ ys := by
      intro hin
      rcases (hm₁.live p).mpr hin with ⟨x, hx⟩
      rw [hfree₁] at hx
      cases hx
    have hne : ∀ q ∈ ys, q ≠ p := fun q hq heq => hpy (heq ▸ hq)
    have hsame : ∀ q ∈ ys, Same m₁.links (m₁.allocate e p).links q := fun q hq =>
      ⟨Function.update_of_ne (hne q hq) _ _, Function.update_of_ne (hne q hq) _ _⟩
    have hsorted : (m₁.allocate e p).toTable.Sorted
        (homeOf h m₁.hash.length (Function.update m₁.val p (some e))) ys := by
      refine ⟨hm₁.sorted.represents.congr hsame, fun i r hi => ?_⟩
      refine (hm₁.sorted.chains i r hi).congr fun q hq => ?_
      unfold homeOf
      rw [Function.update_of_ne (hne q hq)]
    have hhome : homeOf h m₁.hash.length (Function.update m₁.val p (some e)) p =
        some (h e.1 % m₁.hash.length) := by
      unfold homeOf
      rw [Function.update_self, Option.map_some]
    have hfinal : ∃ zs, Table.Placed (homeOf h m₁.hash.length (Function.update m₁.val p (some e)))
        (m₁.allocate e p).toTable ys p
        (if r.2 = 0 then (m₁.allocate e p).begins (h e.1 % m₁.hash.length) p
          else (m₁.allocate e p).extends' (h e.1 % m₁.hash.length) r p) zs := by
      by_cases hr0 : r.2 = 0
      · rw [if_pos hr0]
        exact ⟨_, hsorted.begins hp hpy hhome hr hr0⟩
      · rw [if_neg hr0]
        exact ⟨_, hsorted.extends' hp hpy hhome hr hr0⟩
    rcases hfinal with ⟨zs, hplaced⟩
    refine ⟨_, p, true, zs, rfl, ?_, Or.inr ⟨rfl, rfl, fun q v hv => hnone q v (hval ▸ hv), ?_⟩⟩
    · exact hm₁.allocated hfree₁ hnone hplaced.sorted hplaced.hash_length hplaced.mem
        hplaced.length hhash
    · show Function.update m₁.val p (some e) = _
      rw [hval]

omit [DecidableEq κ] in
/-- `erase` removes the container and keeps the other ones. -/
lemma Holds.erase (hm : Holds h m xs) {p : ℕ} {x : κ × ν} (hx : m.val p = some x) :
    ∃ m' next ys, m.erase h p = some (m', next) ∧ Holds h m' ys ∧
    m'.val = Function.update m.val p none := by
  have hpx := (hm.live p).mp ⟨x, hx⟩
  have hp0 := hm.sorted.represents.ne_zero hpx
  have hhash := hm.table (List.ne_nil_of_mem hpx)
  have hnodup := hm.sorted.represents.linked.nodup
  have hhome : homeOf h m.hash.length m.val p = some (h x.1 % m.hash.length) := by
    unfold homeOf
    rw [hx, Option.map_some]
  rcases exists_get (h := h) hhash x.1 with ⟨r, hget, hr⟩
  have hassert : ¬ (r.1 = r.2 ∧ p ≠ r.1) := fun hfail =>
    hfail.2 ((hm.sorted.chains _ r hr).eq_of_ends hnodup hfail.1 hhome hpx)
  unfold BasicMap.erase
  rw [if_neg hp0, hx, Option.bind_some, hget, Option.bind_some]
  dsimp only
  rw [if_neg hassert]
  refine ⟨_, _, xs.erase p, rfl, ⟨?_, fun q => ?_, ?_, ?_, fun hne hnil => ?_⟩, rfl⟩
  · have hsorted := hm.sorted.erase hpx hhome hr
    refine ⟨hsorted.represents, fun i r' hi => (hsorted.chains i r' hi).congr fun q hq => ?_⟩
    have hqp : q ≠ p := (hnodup.mem_erase_iff.mp hq).1
    unfold homeOf
    show (Function.update m.val p none q).map (fun x => h x.1 % (m.hash.set _ _).length) = _
    rw [Function.update_of_ne hqp, List.length_set]
  · rw [hnodup.mem_erase_iff]
    show (∃ x, Function.update m.val p none q = some x) ↔ _
    by_cases hqp : q = p
    · rw [hqp, Function.update_self]
      exact ⟨(fun ⟨_, h⟩ => by cases h), fun h => absurd rfl h.1⟩
    · rw [Function.update_of_ne hqp, hm.live q]
      exact ⟨fun h => ⟨hqp, h⟩, fun h => h.2⟩
  · intro q q' y z hy hz hkey
    have hy' : Function.update m.val p none q = some y := hy
    have hz' : Function.update m.val p none q' = some z := hz
    have hq : q ≠ p := by
      rintro rfl
      rw [Function.update_self] at hy'
      cases hy'
    have hq' : q' ≠ p := by
      rintro rfl
      rw [Function.update_self] at hz'
      cases hz'
    rw [Function.update_of_ne hq] at hy'
    rw [Function.update_of_ne hq'] at hz'
    exact hm.unique q q' y z hy' hz' hkey
  · show m.size - 1 = _
    rw [List.length_erase_of_mem hpx, hm.size_eq]
  · have hzero : m.hash.length = 0 := by
      rw [← List.length_set]
      exact congrArg List.length hnil
    exact hhash (List.length_eq_zero_iff.mp hzero)

omit [DecidableEq κ] in
/-- The loops of `clear` end, with no containers and no ranges. -/
lemma clearLoop_spec {ranges : Bool} {fuel before first : ℕ}
    (hl : Linked m.links.next m.links.prev 0 before xs first)
    (hfuel : xs.length < fuel) (hlive : ∀ q, (∃ x, m.val q = some x) ↔ q ∈ xs)
      (htable : xs ≠ [] → m.hash ≠ [])
    (hranges : ∀ i r, m.hash[i]? = some r →
      r = (0, 0) ∨ ranges = true ∧ ∃ q ∈ xs, homeOf h m.hash.length m.val q = some i) :
    ∃ m' : BasicMap κ ν, BasicMap.clearLoop h ranges fuel first m = some m' ∧
      (∀ q, m'.val q = none) ∧
      ∀ (i : ℕ) (r : ℕ × ℕ), m'.hash[i]? = some r → r = (0, 0) := by
  induction fuel generalizing m xs before first with
  | zero => omega
  | succ fuel ih =>
    rcases xs with _ | ⟨p, xs⟩
    · have hfirst : first = 0 := hl
      refine ⟨m, ?_, fun q => ?_, fun i r hi => ?_⟩
      · rw [BasicMap.clearLoop, if_pos hfirst]
      · rw [Option.eq_none_iff_forall_ne_some]
        exact fun x hx => absurd ((hlive q).mp ⟨x, hx⟩) List.not_mem_nil
      · rcases hranges i r hi with hr | ⟨-, q, hq, -⟩
        · exact hr
        · exact absurd hq List.not_mem_nil
    · have hnodup := List.nodup_cons.mp hl.nodup
      obtain ⟨rfl, hp0, -, hrest⟩ := hl
      rcases (hlive first).mpr List.mem_cons_self with ⟨x, hx⟩
      have hne : ∀ q ∈ xs, q ≠ first := fun q hq heq => hnodup.1 (heq ▸ hq)
      have hrest' : Linked (m.destroy first).links.next (m.destroy first).links.prev 0 first xs
          (m.links.next first) :=
        hrest.congr (fun q hq => Function.update_of_ne (hne q hq) _ _) fun q hq =>
          Function.update_of_ne (hne q hq) _ _
      have hlive' : ∀ q, (∃ x, Function.update m.val first none q = some x) ↔ q ∈ xs := by
        intro q
        by_cases hq : q = first
        · rw [hq, Function.update_self]
          exact ⟨(fun ⟨_, h⟩ => by cases h), fun h => absurd h hnodup.1⟩
        · rw [Function.update_of_ne hq, hlive q, List.mem_cons]
          exact ⟨fun h => h.resolve_left hq, Or.inr⟩
      have hhash := htable (List.cons_ne_nil _ _)
      rw [List.length_cons] at hfuel
      rw [BasicMap.clearLoop, if_neg hp0, hx, Option.bind_some]
      rcases ranges with _ | _
      · refine ih hrest' (by omega) hlive' (fun _ => hhash) fun i r hi => ?_
        rcases hranges i r hi with hr | ⟨hfalse, -⟩
        · exact Or.inl hr
        · cases hfalse
      · rcases exists_get (h := h) hhash x.1 with ⟨r₀, hget, hr₀⟩
        have hhome : homeOf h m.hash.length m.val first = some (h x.1 % m.hash.length) := by
          unfold homeOf
          rw [hx, Option.map_some]
        rw [if_pos rfl, hget, Option.bind_some]
        refine ih (m := { m.destroy first with hash := m.hash.set (h x.1 % m.hash.length) (0, 0) })
          hrest' (by omega) hlive'
          (fun _ hnil => ?_) fun i r hi => ?_
        · have hzero : m.hash.length = 0 := by
            rw [← List.length_set]
            exact congrArg List.length hnil
          exact hhash (List.length_eq_zero_iff.mp hzero)
        · have hi' : (m.hash.set (h x.1 % m.hash.length) (0, 0))[i]? = some r := hi
          by_cases hbucket : h x.1 % m.hash.length = i
          · subst hbucket
            rw [List.getElem?_set_self (List.getElem?_eq_some_iff.mp hr₀).1,
              Option.some.injEq] at hi'
            exact Or.inl hi'.symm
          · rw [List.getElem?_set_ne hbucket] at hi'
            rcases hranges i r hi' with hr | ⟨-, q, hq, hqhome⟩
            · exact Or.inl hr
            · have hqne : q ≠ first := by
                rintro rfl
                rw [hhome, Option.some.injEq] at hqhome
                exact hbucket hqhome
              refine Or.inr ⟨rfl, q, (List.mem_cons.mp hq).resolve_left hqne, ?_⟩
              show (Function.update m.val first none q).map
                (fun x => h x.1 % (m.hash.set _ _).length) = _
              rw [Function.update_of_ne hqne, List.length_set]
              exact hqhome

omit [DecidableEq κ] in
/-- `clear` leaves an empty map. -/
lemma Holds.clear (hm : Holds h m xs) :
    ∃ m', m.clear h = some m' ∧ Holds h m' [] ∧ ∀ q, m'.val q = none := by
  have hfuel : xs.length < m.size + 1 := by rw [hm.size_eq]; omega
  have hloop : ∃ m' : BasicMap κ ν, (if m.hash.length ≤ m.size / 4 then
      BasicMap.clearLoop h false (m.size + 1) m.list.first
        { m with hash := m.hash.map fun _ => (0, 0) }
      else BasicMap.clearLoop h true (m.size + 1) m.list.first m) = some m' ∧
      (∀ q, m'.val q = none) ∧
      ∀ (i : ℕ) (r : ℕ × ℕ), m'.hash[i]? = some r → r = (0, 0) := by
    by_cases hsmall : m.hash.length ≤ m.size / 4
    · rw [if_pos hsmall]
      refine clearLoop_spec (m := { m with hash := m.hash.map fun _ => (0, 0) })
        hm.sorted.represents.linked hfuel hm.live
        (fun hne hnil => hm.table hne (List.map_eq_nil_iff.mp hnil)) fun i r hi => ?_
      have hi' : (m.hash.map fun _ => ((0, 0) : ℕ × ℕ))[i]? = some r := hi
      rw [List.getElem?_map] at hi'
      rcases Option.map_eq_some_iff.mp hi' with ⟨-, -, hr⟩
      exact Or.inl hr.symm
    · rw [if_neg hsmall]
      refine clearLoop_spec hm.sorted.represents.linked hfuel hm.live hm.table fun i r hi => ?_
      rcases (hm.sorted.chains i r hi).cases hm.sorted.represents.linked.null_notMem with ⟨hr, -⟩ |
        ⟨-, -, hmem, -, hhome, -⟩
      · exact Or.inl hr
      · exact Or.inr ⟨rfl, r.1, hmem, hhome⟩
  rcases hloop with ⟨m', hclear, hval, hhash⟩
  refine ⟨{ m' with list := .empty, size := 0 }, ?_,
    ⟨⟨represents_empty _, fun i r hi => ?_⟩, fun p => ?_, ?_, rfl, ?_⟩, hval⟩
  · unfold BasicMap.clear
    rw [hclear, Option.map_some]
  · rw [hhash i r hi]
    exact chain_vacant fun q hq => absurd hq List.not_mem_nil
  · refine iff_of_false (fun ⟨x, hx⟩ => ?_) List.not_mem_nil
    have hx' : m'.val p = some x := hx
    rw [hval p] at hx'
    cases hx'
  · intro p q x y hx
    have hx' : m'.val p = some x := hx
    rw [hval p] at hx'
    cases hx'
  · exact fun hne => absurd rfl hne

omit [DecidableEq κ] in
/-- The iteration meets the containers in their order. -/
lemma iterate_spec {fuel before first : ℕ} (hl : Linked m.links.next m.links.prev 0 before xs first)
    (hfuel : xs.length < fuel) : m.iterate fuel first = some xs := by
  induction fuel generalizing xs before first with
  | zero => omega
  | succ fuel ih =>
    rcases xs with _ | ⟨p, xs⟩
    · have hfirst : first = 0 := hl
      rw [BasicMap.iterate, if_pos hfirst]
    · obtain ⟨rfl, hp0, -, hrest⟩ := hl
      rw [List.length_cons] at hfuel
      rw [BasicMap.iterate, if_neg hp0, ih hrest (by omega), Option.map_some]

end Map

/-! ## The reference map -/

section Reference

variable {κ ν : Type} [DecidableEq κ]

/-- A finite map with unique keys; a value has the address of its container. -/
abbrev Reference (κ ν : Type) := κ → Option (ν × ℕ)

/-- A call of the map.  An insertion has the address that the allocator would give to a new
container. -/
inductive Call (κ ν : Type) where
  | find (k : κ)
  | insert (e : κ × ν) (p : ℕ)
  | erase (p : ℕ)
  | clear
  | rehash (n : ℕ)

/-- What a call says: the container that is found, the container of an inserted key and whether it
is new. -/
inductive Answer where
  | found (q : ℕ)
  | inserted (q : ℕ) (new : Bool)
  | done
  deriving DecidableEq

namespace Reference

/-- A call of the reference map. -/
def step (f : Reference κ ν) : Call κ ν → Reference κ ν × Answer
  | .find k => (f, .found (((f k).map Prod.snd).getD 0))
  | .insert e p =>
    match f e.1 with
    | some y => (f, .inserted y.2 false)
    | none => (Function.update f e.1 (some (e.2, p)), .inserted p true)
  | .erase p => (fun k => (f k).filter fun y => y.2 ≠ p, .done)
  | .clear => (fun _ => none, .done)
  | .rehash _ => (f, .done)

/-- What callers and the allocator see to: a new container is not null and not in use, an erased one
is present, and a table without buckets is asked for only if the map is empty. -/
def Allowed (f : Reference κ ν) : Call κ ν → Prop
  | .insert _ p => p ≠ 0 ∧ ∀ k v, f k ≠ some (v, p)
  | .erase p => ∃ k v, f k = some (v, p)
  | .rehash n => 0 < n ∨ ∀ k, f k = none
  | _ => True

/-- A number of calls. -/
def run (f : Reference κ ν) : List (Call κ ν) → Reference κ ν × List Answer
  | [] => (f, [])
  | c :: calls => ((run (f.step c).1 calls).1, (f.step c).2 :: (run (f.step c).1 calls).2)

end Reference

namespace BasicMap

/-- A call of the map. -/
def step (h : κ → ℕ) (m : BasicMap κ ν) : Call κ ν → Option (BasicMap κ ν × Answer)
  | .find k => (m.find h k).map fun q => (m, .found q)
  | .insert e p => (m.insert h e p).map fun r => (r.1, .inserted r.2.1 r.2.2)
  | .erase p => (m.erase h p).map fun r => (r.1, .done)
  | .clear => (m.clear h).map fun m => (m, .done)
  | .rehash n => (m.rehash h n).map fun m => (m, .done)

/-- A number of calls. -/
def run (h : κ → ℕ) (m : BasicMap κ ν) : List (Call κ ν) → Option (BasicMap κ ν × List Answer)
  | [] => some (m, [])
  | c :: calls => (m.step h c).bind fun r => (run h r.1 calls).map fun q => (q.1, r.2 :: q.2)

end BasicMap

/-- The containers of a map are the entries of the reference map. -/
def Agrees (f : Reference κ ν) (m : BasicMap κ ν) : Prop :=
  ∀ k v p, f k = some (v, p) ↔ m.val p = some (k, v)

variable {h : κ → ℕ} {m : BasicMap κ ν} {f : Reference κ ν}

/-- One call is answered as the reference map answers it. -/
lemma step_spec (hm : Holds h m xs) (hf : Agrees f m) {c : Call κ ν} (hc : f.Allowed c) :
    ∃ m' ys, m.step h c = some (m', (f.step c).2) ∧ Holds h m' ys ∧ Agrees (f.step c).1 m' := by
  cases c with
  | find k =>
    rcases hm.find k with ⟨q, hfind, hcases⟩
    refine ⟨m, xs, ?_, hm, hf⟩
    have hq : ((f k).map Prod.snd).getD 0 = q := by
      rcases hcases with ⟨-, v, hv⟩ | ⟨rfl, hnone⟩
      · rw [(hf k v q).mpr hv]
        rfl
      · rcases hk : f k with _ | ⟨v, p⟩
        · rfl
        · exact absurd ((hf k v p).mp hk) (hnone p v)
    show (m.find h k).map _ = some (m, Answer.found (((f k).map Prod.snd).getD 0))
    rw [hfind, hq, Option.map_some]
  | insert e p =>
    have hfree : m.val p = none := by
      rcases hp : m.val p with _ | ⟨k, v⟩
      · rfl
      · exact absurd ((hf k v p).mpr hp) (hc.2 k v)
    rcases hm.insert e hc.1 hfree with ⟨m', q, new, ys, hinsert, hm', hcases⟩
    show ∃ m' ys, (m.insert h e p).map _ = some (m', (f.step (.insert e p)).2) ∧ _
    rw [hinsert, Option.map_some]
    rcases hcases with ⟨rfl, hval, v, hv⟩ | ⟨rfl, rfl, hnone, hval⟩
    · have hk := (hf e.1 v q).mpr hv
      unfold Reference.step
      dsimp only
      rw [hk]
      dsimp only
      refine ⟨m', ys, rfl, hm', fun k w p => ?_⟩
      rw [hval]
      exact hf k w p
    · have hk : f e.1 = none := by
        rcases hk : f e.1 with _ | ⟨v, p⟩
        · rfl
        · exact absurd ((hf e.1 v p).mp hk) (hnone p v)
      unfold Reference.step
      dsimp only
      rw [hk]
      dsimp only
      refine ⟨m', ys, rfl, hm', fun k w p => ?_⟩
      rw [hval]
      by_cases hkey : k = e.1
      · subst hkey
        rw [Function.update_self, Option.some.injEq, Prod.mk.injEq]
        by_cases hp : p = q
        · subst hp
          rw [Function.update_self, Option.some.injEq, Prod.ext_iff]
          exact ⟨fun h => ⟨rfl, h.1⟩, fun h => ⟨h.2, rfl⟩⟩
        · rw [Function.update_of_ne hp]
          exact ⟨fun h => absurd h.2.symm hp, fun h => absurd h (hnone p w)⟩
      · rw [Function.update_of_ne hkey]
        by_cases hp : p = q
        · subst hp
          rw [Function.update_self, Option.some.injEq, Prod.ext_iff]
          exact ⟨fun h => absurd h (hc.2 k w), fun h => absurd h.1.symm hkey⟩
        · rw [Function.update_of_ne hp]
          exact hf k w p
  | erase p =>
    rcases hc with ⟨k, v, hk⟩
    rcases hm.erase ((hf k v p).mp hk) with ⟨m', next, ys, herase, hm', hval⟩
    refine ⟨m', ys, ?_, hm', fun k w q => ?_⟩
    · show (m.erase h p).map _ = _
      rw [herase, Option.map_some]
      rfl
    · show (f k).filter (fun y => y.2 ≠ p) = some (w, q) ↔ _
      rw [hval, Option.filter_eq_some_iff, decide_eq_true_eq, hf k w q]
      by_cases hq : q = p
      · rw [hq, Function.update_self]
        exact ⟨fun h => absurd rfl h.2, fun h => by cases h⟩
      · rw [Function.update_of_ne hq]
        exact ⟨fun h => h.1, fun h => ⟨h, hq⟩⟩
  | clear =>
    rcases hm.clear with ⟨m', hclear, hm', hval⟩
    refine ⟨m', [], ?_, hm', fun k w q => ?_⟩
    · show (m.clear h).map _ = _
      rw [hclear, Option.map_some]
      rfl
    · rw [hval q]
      exact ⟨(fun h => by cases h), fun h => by cases h⟩
  | rehash n =>
    have hn : 0 < n ∨ m.size = 0 := by
      rcases hc with hn | hnone
      · exact Or.inl hn
      · right
        rw [hm.size_eq, List.length_eq_zero_iff, List.eq_nil_iff_forall_not_mem]
        intro p hp
        rcases (hm.live p).mpr hp with ⟨⟨k, v⟩, hv⟩
        have hk := (hf k v p).mpr hv
        rw [hnone k] at hk
        cases hk
    rcases hm.rehash hn with ⟨m', ys, hrehash, hm', hval, -, -, -⟩
    refine ⟨m', ys, ?_, hm', fun k w q => ?_⟩
    · show (m.rehash h n).map _ = _
      rw [hrehash, Option.map_some]
      rfl
    · rw [hval]
      exact hf k w q

/-- All calls are answered as the reference map answers them. -/
lemma run_spec (hm : Holds h m xs) (hf : Agrees f m) {calls : List (Call κ ν)}
    (hcalls : Machine.Obeys (fun f c => (Reference.step f c).1) Reference.Allowed f calls) :
    ∃ m' ys, m.run h calls = some (m', (f.run calls).2) ∧ Holds h m' ys ∧
    Agrees (f.run calls).1 m' := by
  induction calls generalizing m f xs with
  | nil => exact ⟨m, xs, rfl, hm, hf⟩
  | cons c calls ih =>
    rcases step_spec hm hf hcalls.1 with ⟨m₁, ys, hstep, hm₁, hf₁⟩
    rcases ih hm₁ hf₁ hcalls.2 with ⟨m', zs, hrun, hm', hf'⟩
    refine ⟨m', zs, ?_, hm', hf'⟩
    rw [BasicMap.run, hstep, Option.bind_some, hrun, Option.map_some]
    rfl

omit [DecidableEq κ] in
lemma holds_init (h : κ → ℕ) : Holds h (.init : BasicMap κ ν) [] :=
  ⟨⟨represents_empty _, (fun _ _ hi => by cases hi)⟩, fun _ =>
    iff_of_false (fun ⟨_, hx⟩ => by cases hx) List.not_mem_nil, (fun _ _ _ _ hx => by cases hx),
    rfl, fun hne => absurd rfl hne⟩

/-- Behind all allowed calls the map is well formed, every call was answered as a finite map with
unique keys answers it, and the iteration meets the containers of its entries, each one once. -/
theorem hashMap_refines (h : κ → ℕ) (calls : List (Call κ ν))
    (hcalls : Machine.Obeys (fun f c => (Reference.step f c).1) Reference.Allowed
      (fun _ => none) calls) :
    ∃ m xs, BasicMap.run h .init calls = some (m, (Reference.run (fun _ => none) calls).2) ∧
    Holds h m xs ∧
      Agrees (Reference.run (fun _ => none) calls).1 m ∧
      m.iterate (m.size + 1) m.list.first = some xs ∧ xs.Nodup ∧
      ∀ p, p ∈ xs ↔ ∃ k v, (Reference.run (fun _ => none) calls).1 k = some (v, p) := by
  have hinit : Agrees (fun _ => none) (.init : BasicMap κ ν) := fun _ _ _ =>
    iff_of_false (fun h => by cases h) fun h => by cases h
  rcases run_spec (holds_init h) hinit hcalls with ⟨m, xs, hrun, hm, hf⟩
  have hfuel : xs.length < m.size + 1 := by rw [hm.size_eq]; omega
  refine ⟨m, xs, hrun, hm, hf, iterate_spec hm.sorted.represents.linked hfuel,
    hm.sorted.represents.linked.nodup, fun p => ?_⟩
  rw [← hm.live p]
  constructor
  · rintro ⟨⟨k, v⟩, hv⟩
    exact ⟨k, v, (hf k v p).mpr hv⟩
  · rintro ⟨k, v, hk⟩
    exact ⟨_, (hf k v p).mp hk⟩

/-- An element is inserted twice, found, and erased by its iterator; then the map is cleared. -/
def sampleCalls : List (Call ℕ Char) :=
  [.insert (1, 'a') 100, .insert (1, 'b') 101, .find 1, .erase 100, .clear, .rehash 0]

theorem hashMap_refines_sample :
    Machine.Obeys (fun (f : Reference ℕ Char) c => (f.step c).1) Reference.Allowed
      (fun _ => none) sampleCalls ∧
      ∃ m xs, BasicMap.run id .init sampleCalls =
        some (m, (Reference.run (fun _ => none) sampleCalls).2) ∧
        Holds id m xs ∧ m.iterate (m.size + 1) m.list.first = some xs := by
  have hobeys : Machine.Obeys (fun (f : Reference ℕ Char) c => (f.step c).1)
    Reference.Allowed (fun _ => none)
      sampleCalls := by
    refine ⟨⟨by decide, fun _ _ h => ?_⟩, ⟨by decide, fun k v => ?_⟩, trivial, ⟨1, 'a', rfl⟩,
      trivial, Or.inr fun _ => rfl, trivial⟩
    · cases h
    · show Function.update (fun _ : ℕ => (none : Option (Char × ℕ))) 1 (some ('a', 100))
        k ≠ some (v, 101)
      by_cases hk : k = 1
      · rw [hk, Function.update_self]
        simp
      · rw [Function.update_of_ne hk]
        exact nofun
  rcases hashMap_refines id _ hobeys with ⟨m, xs, hrun, hm, -, hiterate, -⟩
  exact ⟨hobeys, m, xs, hrun, hm, hiterate⟩

end Reference

end HashMap

end Cppcms
