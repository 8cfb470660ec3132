import Mathlib.Tactic

/-!
# Arrays with an index

The entries of a set of keys stand next to each other in an array, in no order, and a map from the
keys to positions finds them.  To remove an entry the last one is moved into its place, so two cells
of the map change.

Every access has its bounds: an operation that would leave the array or the map gives `none`.  The
map and the array are inverse to each other (`Inverse`) in the empty array, and the operations keep
that, so they are never outside.
-/

namespace Cppcms

/-- The positions of the keys, and the entries. -/
structure IndexedArray (ε : Type*) where
  map : List (Option ℕ)
  entries : List (ℕ × ε)

namespace IndexedArray

variable {ε : Type*} (a : IndexedArray ε) {b : IndexedArray ε} {k i j : ℕ} {x e : ℕ × ε}

/-- The cell of a key is the position of the only entry of the key; a key without an entry has an
empty cell or none. -/
def Inverse : Prop := ∀ k i : ℕ, a.map[k]? = some (some i) ↔ (a.entries[i]?).map Prod.fst = some k

/-- The map with a cell for the key. -/
def grow (k : ℕ) : List (Option ℕ) :=
  if a.map.length ≤ k then a.map ++ List.replicate (k + 1 - a.map.length) none else a.map

/-- The position of an entry, which is put at the end if the key has none. -/
def entry (k : ℕ) (new : ε) : Option (IndexedArray ε × ℕ) :=
  match (a.grow k)[k]? with
  | none => none
  | some none =>
      some (⟨(a.grow k).set k (some a.entries.length), a.entries ++ [(k, new)]⟩, a.entries.length)
  | some (some i) => some (⟨a.grow k, a.entries⟩, i)

/-- The value of an entry is changed. -/
def assign (i : ℕ) (f : ε → ε) : Option (IndexedArray ε) :=
  match a.entries[i]? with
  | none => none
  | some x => some { a with entries := a.entries.set i (x.1, f x.2) }

/-- An entry is exchanged with the last one, and the last place is given up. -/
def swapRemove (l : List (ℕ × ε)) (index : ℕ) (x last : ℕ × ε) : List (ℕ × ε) :=
  ((l.set index last).set (l.length - 1) x).dropLast

/-- The entry of a key is exchanged with the last one, the cell of that one is corrected, and the
last place and the cell of the key are given up. -/
def remove (k : ℕ) : Option (IndexedArray ε) :=
  match a.map[k]? with
  | none => some a
  | some none => some a
  | some (some index) =>
    match a.entries[index]?, a.entries.getLast? with
    | some x, some last =>
      if last.1 < a.map.length then
        some ⟨(a.map.set last.1 (some index)).set k none, swapRemove a.entries index x last⟩
      else none
    | _, _ => none

variable {a}

/-! ## The invariant -/

/-- Without entries and with empty cells only. -/
lemma inverse_empty (n : ℕ) : (⟨List.replicate n none, []⟩ : IndexedArray ε).Inverse := by
  intro k i
  rw [List.getElem?_nil, Option.map_none]
  constructor
  · intro h
    exact absurd (List.eq_of_mem_replicate (List.mem_of_getElem? h)) (by simp)
  · intro h
    cases h

/-- The key of an entry leads back to the entry. -/
lemma Inverse.map_eq (ha : a.Inverse) (hi : a.entries[i]? = some x) : a.map[x.1]? = some (some i) :=
  (ha x.1 i).mpr (by rw [hi, Option.map_some])

lemma Inverse.exists_entry (ha : a.Inverse) (hk : a.map[k]? = some (some i)) :
    ∃ v, a.entries[i]? = some (k, v) := by
  have h := (ha k i).mp hk
  rcases Option.map_eq_some_iff.mp h with ⟨⟨k', v⟩, hget, rfl⟩
  exact ⟨v, hget⟩

/-- No two entries have the same key. -/
lemma Inverse.index_inj (ha : a.Inverse) (hi : a.entries[i]? = some x) (hj : a.entries[j]? = some e)
    (h : x.1 = e.1) :
    i = j := by
  have hx := ha.map_eq hi
  have he := ha.map_eq hj
  rw [h, he, Option.some.injEq, Option.some.injEq] at hx
  exact hx.symm

lemma Inverse.eq_of_key (ha : a.Inverse) (hx : x ∈ a.entries) (he : e ∈ a.entries) (h : x.1 = e.1) :
    x = e := by
  rcases List.mem_iff_getElem?.mp hx with ⟨i, hi⟩
  rcases List.mem_iff_getElem?.mp he with ⟨j, hj⟩
  have hij := ha.index_inj hi hj h
  rw [hij, hj, Option.some.injEq] at hi
  exact hi.symm

/-! ## Entries that are added or changed -/

lemma length_grow : k < (a.grow k).length := by
  unfold grow
  split_ifs with h
  · rw [List.length_append, List.length_replicate]
    omega
  · omega

lemma getElem?_grow (q i : ℕ) : (a.grow k)[q]? = some (some i) ↔ a.map[q]? = some (some i) := by
  unfold grow
  split_ifs with h
  · by_cases hq : q < a.map.length
    · rw [List.getElem?_append_left hq]
    · rw [List.getElem?_append_right (by omega), List.getElem?_eq_none (l := a.map) (by omega)]
      constructor
      · intro hget
        exact absurd (List.eq_of_mem_replicate (List.mem_of_getElem? hget)) (by simp)
      · intro hget
        cases hget
  · exact Iff.rfl

/-- The entry of the key is found or put at the end; the other entries stay where they are. -/
lemma Inverse.entry (ha : a.Inverse) (k : ℕ) (new : ε) :
    ∃ b i, a.entry k new = some (b, i) ∧ b.Inverse ∧
      ((∃ v, a.entries[i]? = some (k, v) ∧ b.entries = a.entries) ∨
        (∀ x ∈ a.entries, x.1 ≠ k) ∧ i = a.entries.length ∧
        b.entries = a.entries ++ [(k, new)]) := by
  rcases hcell : (a.grow k)[k]? with _ | _ | i
  · have := List.getElem?_eq_none_iff.mp hcell
    have := a.length_grow (k := k)
    omega
  · have habsent : ∀ x ∈ a.entries, x.1 ≠ k := by
      rintro x hx rfl
      rcases List.mem_iff_getElem?.mp hx with ⟨i, hi⟩
      have hmap := (getElem?_grow (k := x.1) x.1 i).mpr (ha.map_eq hi)
      rw [hcell] at hmap
      cases hmap
    refine ⟨⟨(a.grow k).set k (some a.entries.length), a.entries ++ [(k, new)]⟩,
      a.entries.length, ?_, ?_, ?_⟩
    · unfold IndexedArray.entry
      rw [hcell]
    · intro q j
      by_cases hq : q = k
      · subst hq
        rw [List.getElem?_set_self length_grow, Option.some.injEq, Option.some.injEq]
        constructor
        · rintro rfl
          rw [List.getElem?_append_right (le_refl _), Nat.sub_self]
          rfl
        · intro hget
          by_cases hj : j < a.entries.length
          · rw [List.getElem?_append_left hj] at hget
            rcases Option.map_eq_some_iff.mp hget with ⟨x, hx, hkey⟩
            exact absurd hkey (habsent x (List.mem_of_getElem? hx))
          · by_contra hne
            rw [List.getElem?_eq_none
              (by rw [List.length_append, List.length_singleton]; omega)] at hget
            cases hget
      · rw [List.getElem?_set_ne (Ne.symm hq), getElem?_grow, ha q j]
        by_cases hj : j < a.entries.length
        · rw [List.getElem?_append_left hj]
        · rw [List.getElem?_eq_none (l := a.entries) (by omega),
            List.getElem?_append_right (by omega)]
          constructor
          · intro hget
            cases hget
          · intro hget
            rcases Option.map_eq_some_iff.mp hget with ⟨x, hx, hkey⟩
            have hnew := List.mem_singleton.mp (List.mem_of_getElem? hx)
            rw [hnew] at hkey
            exact absurd hkey.symm hq
    · exact Or.inr ⟨habsent, rfl, rfl⟩
  · refine ⟨⟨a.grow k, a.entries⟩, i, ?_, ?_, ?_⟩
    · unfold IndexedArray.entry
      rw [hcell]
    · intro q j
      rw [getElem?_grow]
      exact ha q j
    · rcases ha.exists_entry ((getElem?_grow k i).mp hcell) with ⟨v, hv⟩
      exact Or.inl ⟨v, hv, rfl⟩

/-- A changed value does not move anything. -/
lemma Inverse.assign (ha : a.Inverse) (hi : a.entries[i]? = some x) (f : ε → ε) :
    ∃ b, a.assign i f = some b ∧ b.Inverse ∧ b.entries = a.entries.set i (x.1, f x.2) := by
  refine ⟨{ a with entries := a.entries.set i (x.1, f x.2) }, ?_, ?_, rfl⟩
  · unfold IndexedArray.assign
    rw [hi]
  · intro q j
    rw [ha q j]
    show _ ↔ ((a.entries.set i (x.1, f x.2))[j]?).map Prod.fst = some q
    by_cases hij : i = j
    · subst hij
      have hlt : i < a.entries.length := (List.getElem?_eq_some_iff.mp hi).1
      rw [hi, List.getElem?_set_self hlt]
      rfl
    · rw [List.getElem?_set_ne hij]

/-! ## Entries that are removed -/

variable {index : ℕ}

/-- What is left at each place: the last entry where the removed one was. -/
lemma getElem?_swapRemove {l : List (ℕ × ε)} {x last : ℕ × ε} (hj : j < l.length - 1) :
    (swapRemove l index x last)[j]? = if j = index then some last else l[j]? := by
  have hlength : j < ((l.set index last).set (l.length - 1) x).length - 1 := by
    rw [List.length_set, List.length_set]
    exact hj
  unfold swapRemove
  rw [List.getElem?_dropLast, if_pos hlength, List.getElem?_set_ne (by omega)]
  by_cases hindex : j = index
  · subst hindex
    rw [if_pos rfl, List.getElem?_set_self (by omega)]
  · rw [if_neg hindex, List.getElem?_set_ne (Ne.symm hindex)]

lemma length_swapRemove {l : List (ℕ × ε)} {x last : ℕ × ε} :
    (swapRemove l index x last).length = l.length - 1 := by
  unfold swapRemove
  rw [List.length_dropLast, List.length_set, List.length_set]

lemma getElem?_swapRemove_eq_none {l : List (ℕ × ε)} {x last : ℕ × ε} (hj : ¬ j < l.length - 1) :
    (swapRemove l index x last)[j]? = none :=
  List.getElem?_eq_none (by rw [length_swapRemove]; omega)

lemma length_le_of_remove (h : a.remove k = some b) : b.entries.length ≤ a.entries.length := by
  unfold remove at h
  split at h
  · rw [← Option.some.inj h]
  · rw [← Option.some.inj h]
  · split at h
    · split_ifs at h
      rw [← Option.some.inj h, length_swapRemove]
      omega
    · cases h

/-- What the removal of a key leaves: its entry is gone, the other ones are there, and nothing has
moved in front of the place where it stood. -/
structure Removed (a : IndexedArray ε) (k : ℕ) (b : IndexedArray ε) : Prop where
  inverse : b.Inverse
  mem : ∀ x : ℕ × ε, x ∈ b.entries ↔ x ∈ a.entries ∧ x.1 ≠ k
  front : ∀ (i : ℕ) (v : ε), a.entries[i]? = some (k, v) → ∀ j < i, b.entries[j]? = a.entries[j]?

/-- Nothing happens to a key without an entry. -/
lemma Inverse.removed_self (ha : a.Inverse) (hk : ∀ i, a.map[k]? ≠ some (some i)) :
    Removed a k a where
  inverse := ha
  mem := by
    intro x
    refine ⟨fun hx => ⟨hx, ?_⟩, fun hx => hx.1⟩
    rintro rfl
    rcases List.mem_iff_getElem?.mp hx with ⟨i, hi⟩
    exact hk i (ha.map_eq hi)
  front := fun i v hi => absurd (ha.map_eq hi) (hk i)

section Swap

variable {index : ℕ} {last : ℕ × ε}

/-- The last entry has another key than the removed one, unless it is the same entry. -/
lemma Inverse.key_last_ne (ha : a.Inverse) (hx : a.entries[index]? = some x)
    (hlast : a.entries[a.entries.length - 1]? = some last) (hne : index ≠ a.entries.length - 1) :
    last.1 ≠ x.1 :=
  fun h => hne (ha.index_inj hx hlast h.symm)

lemma index_ne_of_key_ne (hx : a.entries[index]? = some x)
    (hlast : a.entries[a.entries.length - 1]? = some last) (hkey : last.1 ≠ x.1) :
    index ≠ a.entries.length - 1 := by
  rintro heq
  rw [← heq, hx, Option.some.injEq] at hlast
  exact hkey (by rw [hlast])

/-- The cells are corrected where the array has changed. -/
lemma Inverse.swap (ha : a.Inverse) (hx : a.entries[index]? = some x)
    (hlast : a.entries[a.entries.length - 1]? = some last) :
    (⟨(a.map.set last.1 (some index)).set x.1 none, swapRemove a.entries index x last⟩ :
      IndexedArray ε).Inverse := by
  have hindex : index < a.entries.length := (List.getElem?_eq_some_iff.mp hx).1
  have hcell := ha.map_eq hx
  have hcellLast := ha.map_eq hlast
  have hboundX : x.1 < a.map.length := (List.getElem?_eq_some_iff.mp hcell).1
  have hboundLast : last.1 < a.map.length := (List.getElem?_eq_some_iff.mp hcellLast).1
  intro q j
  show ((a.map.set last.1 (some index)).set x.1 none)[q]? = some (some j) ↔
    ((swapRemove a.entries index x last)[j]?).map Prod.fst = some q
  by_cases hqx : q = x.1
  · -- the removed key has an empty cell, and no place has it
    subst hqx
    rw [List.getElem?_set_self (by rw [List.length_set]; exact hboundX)]
    refine ⟨(fun h => by cases h), fun h => ?_⟩
    exfalso
    by_cases hj : j < a.entries.length - 1
    · rw [getElem?_swapRemove hj] at h
      by_cases hji : j = index
      · rw [if_pos hji, Option.map_some, Option.some.injEq] at h
        exact ha.key_last_ne hx hlast (by omega) h
      · rw [if_neg hji, ← ha x.1 j, hcell, Option.some.injEq, Option.some.injEq] at h
        exact hji h.symm
    · rw [getElem?_swapRemove_eq_none hj] at h
      cases h
  · rw [List.getElem?_set_ne (Ne.symm hqx)]
    by_cases hql : q = last.1
    · -- the cell of the last entry leads to its new place
      subst hql
      have hne := index_ne_of_key_ne hx hlast hqx
      rw [List.getElem?_set_self hboundLast, Option.some.injEq, Option.some.injEq]
      constructor
      · rintro rfl
        rw [getElem?_swapRemove (by omega), if_pos rfl, Option.map_some]
      · intro h
        by_cases hj : j < a.entries.length - 1
        · rw [getElem?_swapRemove hj] at h
          by_contra hji
          rw [if_neg (Ne.symm hji), ← ha last.1 j, hcellLast, Option.some.injEq,
            Option.some.injEq] at h
          omega
        · rw [getElem?_swapRemove_eq_none hj] at h
          cases h
    · -- every other key has its cell and its place as before
      rw [List.getElem?_set_ne (Ne.symm hql), ha q j]
      by_cases hj : j < a.entries.length - 1
      · rw [getElem?_swapRemove hj]
        by_cases hji : j = index
        · subst hji
          rw [if_pos rfl, hx]
          exact ⟨fun h => absurd (Option.some.inj h).symm hqx, fun h =>
            absurd (Option.some.inj h).symm hql⟩
        · rw [if_neg hji]
      · rw [getElem?_swapRemove_eq_none hj]
        refine ⟨fun h => ?_, fun h => by cases h⟩
        rcases Option.map_eq_some_iff.mp h with ⟨e, he, hkey⟩
        have hlt := (List.getElem?_eq_some_iff.mp he).1
        have hjlast : j = a.entries.length - 1 := by omega
        rw [hjlast, hlast, Option.some.injEq] at he
        exact absurd (by rw [he, hkey]) hql

/-- The entries of the other keys stay, the last one at another place. -/
lemma Inverse.mem_swapRemove (ha : a.Inverse) (hx : a.entries[index]? = some x)
    (hlast : a.entries[a.entries.length - 1]? = some last) (e : ℕ × ε) :
    e ∈ swapRemove a.entries index x last ↔ e ∈ a.entries ∧ e.1 ≠ x.1 := by
  constructor
  · intro he
    rcases List.mem_iff_getElem?.mp he with ⟨j, hj⟩
    by_cases hlt : j < a.entries.length - 1
    · rw [getElem?_swapRemove hlt] at hj
      by_cases hji : j = index
      · rw [if_pos hji, Option.some.injEq] at hj
        subst hj
        exact ⟨List.mem_of_getElem? hlast, ha.key_last_ne hx hlast (by omega)⟩
      · rw [if_neg hji] at hj
        exact ⟨List.mem_of_getElem? hj, fun h => hji (ha.index_inj hj hx h)⟩
    · rw [getElem?_swapRemove_eq_none hlt] at hj
      cases hj
  · rintro ⟨he, hkey⟩
    rcases List.mem_iff_getElem?.mp he with ⟨j, hj⟩
    have hlt := (List.getElem?_eq_some_iff.mp hj).1
    have hindex := (List.getElem?_eq_some_iff.mp hx).1
    by_cases hjl : j = a.entries.length - 1
    · -- the last entry is found where the removed one was
      rw [hjl, hlast, Option.some.injEq] at hj
      subst hj
      have hne := index_ne_of_key_ne hx hlast hkey
      refine List.mem_of_getElem? (i := index) ?_
      rw [getElem?_swapRemove (by omega), if_pos rfl]
    · have hji : j ≠ index := by
        rintro rfl
        rw [hx, Option.some.injEq] at hj
        exact hkey (by rw [hj])
      refine List.mem_of_getElem? (i := j) ?_
      rw [getElem?_swapRemove (by omega), if_neg hji, hj]

/-- The last entry is moved into the place of the removed one, which may be the last one itself. -/
lemma Inverse.removed_swap (ha : a.Inverse) (hx : a.entries[index]? = some x)
    (hlast : a.entries[a.entries.length - 1]? = some last) :
    Removed a x.1
      ⟨(a.map.set last.1 (some index)).set x.1 none, swapRemove a.entries index x last⟩ where
  inverse := ha.swap hx hlast
  mem := ha.mem_swapRemove hx hlast
  front := by
    intro i v hi j hj
    have hii := ha.index_inj hx hi rfl
    subst hii
    have hindex := (List.getElem?_eq_some_iff.mp hx).1
    show (swapRemove a.entries index x last)[j]? = _
    rw [getElem?_swapRemove (by omega), if_neg (by omega)]

end Swap

/-- A key is removed, without an access outside of the map or of the array. -/
lemma Inverse.remove (ha : a.Inverse) (k : ℕ) : ∃ b, a.remove k = some b ∧ Removed a k b := by
  rcases hcell : a.map[k]? with _ | _ | index
  · refine ⟨a, ?_, ha.removed_self fun i h => by rw [hcell] at h; cases h⟩
    unfold IndexedArray.remove
    rw [hcell]
  · refine ⟨a, ?_, ha.removed_self fun i h => by rw [hcell] at h; cases h⟩
    unfold IndexedArray.remove
    rw [hcell]
  · rcases ha.exists_entry hcell with ⟨v, hx⟩
    have hindex := (List.getElem?_eq_some_iff.mp hx).1
    rcases hlast : a.entries[a.entries.length - 1]? with _ | last
    · have := List.getElem?_eq_none_iff.mp hlast
      omega
    · have hbound := (List.getElem?_eq_some_iff.mp (ha.map_eq hlast)).1
      have hremoved := ha.removed_swap hx hlast
      refine ⟨_, ?_, hremoved⟩
      unfold IndexedArray.remove
      rw [hcell]
      dsimp only
      rw [hx, List.getLast?_eq_getElem?, hlast]
      dsimp only
      rw [if_pos hbound]

end IndexedArray

end Cppcms
