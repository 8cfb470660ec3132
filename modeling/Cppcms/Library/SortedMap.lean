import Mathlib.Tactic

/-!
# Sorted maps

A map that is iterated in the order of its keys: the list of its pairs, with ascending keys.  Two
such maps are equal if they have the same value for every key.
-/

namespace Cppcms

/-- The value of a key in a list in which the keys differ. -/
lemma find?_key_eq_some {α β : Type*} [DecidableEq α] {l : List (α × β)}
    (hl : (l.map Prod.fst).Nodup) {a : α} {b : β} :
    (l.find? fun x => x.1 = a).map Prod.snd = some b ↔ (a, b) ∈ l := by
  constructor
  · intro h
    rcases Option.map_eq_some_iff.1 h with ⟨⟨a', b'⟩, hfind, rfl⟩
    obtain rfl : a' = a := by simpa using List.find?_some hfind
    exact List.mem_of_find?_eq_some hfind
  · intro h
    rcases hfind : l.find? fun x => x.1 = a with _ | x
    · have hne := List.find?_eq_none.1 hfind _ h
      simp at hne
    · have hkey : x.1 = a := by simpa using List.find?_some hfind
      -- two pairs with one key are the same
      have heq := List.inj_on_of_nodup_map hl (List.mem_of_find?_eq_some hfind) h hkey
      rw [hfind, heq, Option.map_some]

/-- The pairs of an ordered map, as it is iterated. -/
structure SortedMap (α β : Type*) [LinearOrder α] where
  toList : List (α × β)
  sorted : toList.Pairwise fun x y => x.1 < y.1

namespace SortedMap

variable {α β : Type*} [LinearOrder α] {m : SortedMap α β} {a a' : α} {b b' : β}

instance [DecidableEq β] : DecidableEq (SortedMap α β) := fun m m' =>
  decidable_of_iff (m.toList = m'.toList)
    ⟨fun h => by cases m; cases m'; cases h; rfl, fun h => h ▸ rfl⟩

instance : EmptyCollection (SortedMap α β) := ⟨⟨[], .nil⟩⟩

/-- The value for a key. -/
def find (m : SortedMap α β) (a : α) : Option β := (m.toList.find? fun x => x.1 = a).map Prod.snd

lemma find_eq_some : m.find a = some b ↔ (a, b) ∈ m.toList := by
  apply find?_key_eq_some
  rw [List.nodup_iff_pairwise_ne, List.pairwise_map]
  exact m.sorted.imp fun h => h.ne

@[simp] lemma find_empty : (∅ : SortedMap α β).find a = none := rfl

@[ext] lemma ext {m m' : SortedMap α β} (h : ∀ a, m.find a = m'.find a) : m = m' := by
  have hmem : ∀ x, x ∈ m.toList ↔ x ∈ m'.toList := by
    rintro ⟨a, b⟩
    rw [← find_eq_some, ← find_eq_some, h]
  obtain ⟨l, hl⟩ := m
  obtain ⟨l', hl'⟩ := m'
  have hperm : l.Perm l' := by
    rw [List.perm_ext_iff_of_nodup]
    · exact hmem
    · exact hl.imp fun h heq => h.ne (congrArg Prod.fst heq)
    · exact hl'.imp fun h heq => h.ne (congrArg Prod.fst heq)
  obtain rfl := hperm.eq_of_pairwise (fun x y _ _ hxy hyx => absurd hxy hyx.asymm) hl hl'
  rfl

/-! ## Inserting -/

/-- The list with a pair in the place of its key. -/
def insertList (a : α) (b : β) : List (α × β) → List (α × β)
  | [] => [(a, b)]
  | x :: l => if a < x.1 then (a, b) :: x :: l else if a = x.1 then (a, b) :: l
    else x :: insertList a b l

lemma mem_insertList {l : List (α × β)} (hl : l.Pairwise fun x y => x.1 < y.1) {x : α × β} :
    x ∈ insertList a b l ↔ x = (a, b) ∨ (x ∈ l ∧ x.1 ≠ a) := by
  induction l with
  | nil => simp [insertList]
  | cons y l ih =>
    obtain ⟨hy, hl⟩ := List.pairwise_cons.1 hl
    unfold insertList
    split_ifs with hlt heq
    · have hne : ∀ z ∈ y :: l, z.1 ≠ a := by
        intro z hz
        obtain rfl | hz := List.mem_cons.1 hz
        · exact hlt.ne'
        · exact (hlt.trans (hy z hz)).ne'
      rw [List.mem_cons]
      constructor
      · rintro (rfl | hx)
        · exact .inl rfl
        · exact .inr ⟨hx, hne x hx⟩
      · rintro (rfl | ⟨hx, -⟩)
        · exact .inl rfl
        · exact .inr hx
    · rw [List.mem_cons, List.mem_cons]
      constructor
      · rintro (rfl | hx)
        · exact .inl rfl
        · exact .inr ⟨.inr hx, heq ▸ (hy x hx).ne'⟩
      · rintro (rfl | ⟨rfl | hx, hne⟩)
        · exact .inl rfl
        · exact absurd heq.symm hne
        · exact .inr hx
    · rw [List.mem_cons, ih hl, List.mem_cons]
      constructor
      · rintro (rfl | rfl | ⟨hx, hne⟩)
        · exact .inr ⟨.inl rfl, Ne.symm heq⟩
        · exact .inl rfl
        · exact .inr ⟨.inr hx, hne⟩
      · rintro (rfl | ⟨rfl | hx, hne⟩)
        · exact .inr (.inl rfl)
        · exact .inl rfl
        · exact .inr (.inr ⟨hx, hne⟩)

lemma sorted_insertList {l : List (α × β)} (hl : l.Pairwise fun x y => x.1 < y.1) :
    (insertList a b l).Pairwise fun x y => x.1 < y.1 := by
  induction l with
  | nil => simp [insertList]
  | cons y l ih =>
    obtain ⟨hy, hl'⟩ := List.pairwise_cons.1 hl
    unfold insertList
    split_ifs with hlt heq
    · refine List.pairwise_cons.2 ⟨?_, hl⟩
      intro z hz
      obtain rfl | hz := List.mem_cons.1 hz
      · exact hlt
      · exact hlt.trans (hy z hz)
    · exact List.pairwise_cons.2 ⟨fun z hz => heq ▸ hy z hz, hl'⟩
    · refine List.pairwise_cons.2 ⟨?_, ih hl'⟩
      intro z hz
      obtain rfl | ⟨hz, -⟩ := (mem_insertList hl').1 hz
      · exact lt_of_le_of_ne (not_lt.1 hlt) (Ne.symm heq)
      · exact hy z hz

/-- The map with a value for a key. -/
def insert (m : SortedMap α β) (a : α) (b : β) : SortedMap α β :=
  ⟨insertList a b m.toList, sorted_insertList m.sorted⟩

/-- `std::map::insert`: a value that is there stays. -/
def insertNew (m : SortedMap α β) (a : α) (b : β) : SortedMap α β :=
  if (m.find a).isSome then m else m.insert a b

/-- The map without a key. -/
def erase (m : SortedMap α β) (a : α) : SortedMap α β :=
  ⟨m.toList.filter fun x => x.1 ≠ a, m.sorted.filter _⟩

lemma find_insert : (m.insert a b).find a' = if a' = a then some b else m.find a' := by
  apply Option.ext
  intro b'
  split_ifs with heq
  · rw [find_eq_some]
    subst heq
    constructor
    · intro hmem
      obtain heq | ⟨-, hne⟩ := (mem_insertList m.sorted).1 hmem
      · rw [(Prod.mk.inj heq).2]
      · exact absurd rfl hne
    · intro hb
      rw [← Option.some.inj hb]
      exact (mem_insertList m.sorted).2 (.inl rfl)
  · rw [find_eq_some, find_eq_some]
    constructor
    · intro hmem
      obtain heq' | ⟨hmem, -⟩ := (mem_insertList m.sorted).1 hmem
      · exact absurd (Prod.mk.inj heq').1 heq
      · exact hmem
    · exact fun hmem => (mem_insertList m.sorted).2 (.inr ⟨hmem, heq⟩)

lemma find_insertNew :
    (m.insertNew a b).find a' = if a' = a then some ((m.find a).getD b) else m.find a' := by
  unfold insertNew
  rcases hfind : m.find a with _ | b'
  · rw [Option.isSome_none, if_neg Bool.false_ne_true, find_insert, Option.getD_none]
  · rw [Option.isSome_some, if_pos rfl, Option.getD_some]
    split_ifs with heq
    · rw [heq, hfind]
    · rfl

/-- The pairs after a key that was not there has got a value. -/
lemma perm_insert (hfind : m.find a = none) : (m.insert a b).toList.Perm ((a, b) :: m.toList) := by
  have hlist : ∀ l : List (α × β), (∀ b', (a, b') ∉ l) → (insertList a b l).Perm ((a, b) :: l) := by
    intro l hl
    induction l with
    | nil => exact .refl _
    | cons x l ih =>
      rw [insertList]
      split_ifs with hlt heq
      · exact .refl _
      · exact absurd (heq ▸ List.mem_cons_self) (hl x.2)
      · exact ((ih fun b' hb' => hl b' (List.mem_cons_of_mem _ hb')).cons x).trans (.swap _ _ _)
  apply hlist
  intro b' hb'
  rw [find_eq_some.2 hb'] at hfind
  cases hfind

lemma find_erase : (m.erase a).find a' = if a' = a then none else m.find a' := by
  apply Option.ext
  intro b'
  split_ifs with heq
  · rw [find_eq_some]
    subst heq
    constructor
    · intro hmem
      have hne := (List.mem_filter.1 hmem).2
      simp at hne
    · intro h
      cases h
  · rw [find_eq_some, find_eq_some, erase, List.mem_filter]
    exact ⟨fun hmem => hmem.1, fun hmem => ⟨hmem, by simpa using heq⟩⟩

/-- The map that is filled with pairs whose keys differ. -/
lemma find_foldl_insert {l : List (α × β)} (hl : (l.map Prod.fst).Nodup) (m : SortedMap α β) :
    (l.foldl (fun m x => m.insert x.1 x.2) m).find a = some b ↔
      (a, b) ∈ l ∨ (m.find a = some b ∧ ∀ x ∈ l, x.1 ≠ a) := by
  induction l generalizing m with
  | nil => simp
  | cons x l ih =>
    rw [List.map_cons, List.nodup_cons] at hl
    have hx : ∀ y ∈ l, y.1 ≠ x.1 := fun y hy heq => hl.1 (heq ▸ List.mem_map_of_mem hy)
    rw [List.foldl_cons, ih hl.2, find_insert]
    by_cases ha : a = x.1
    · rw [if_pos ha]
      constructor
      · rintro (h | ⟨h, -⟩)
        · exact absurd ha (hx (a, b) h)
        · refine .inl (List.mem_cons.2 (.inl ?_))
          rw [ha, ← Option.some.inj h]
      · rintro (h | ⟨-, h⟩)
        · rcases List.mem_cons.1 h with heq | h
          · rw [← heq]
            refine .inr ⟨rfl, fun y hy heq' => hx y hy (heq'.trans ha)⟩
          · exact absurd ha (hx (a, b) h)
        · exact absurd ha.symm (h x List.mem_cons_self)
    · rw [if_neg ha]
      constructor
      · rintro (h | ⟨h, hne⟩)
        · exact .inl (List.mem_cons_of_mem _ h)
        · refine .inr ⟨h, fun y hy => ?_⟩
          rcases List.mem_cons.1 hy with rfl | hy
          · exact Ne.symm ha
          · exact hne y hy
      · rintro (h | ⟨h, hne⟩)
        · rcases List.mem_cons.1 h with heq | h
          · exact absurd (congrArg Prod.fst heq) ha
          · exact .inl h
        · exact .inr ⟨h, fun y hy => hne y (List.mem_cons_of_mem _ hy)⟩

/-- A key above all others goes to the end. -/
lemma insertList_append {l : List (α × β)} (hl : ∀ x ∈ l, x.1 < a) :
    insertList a b l = l ++ [(a, b)] := by
  induction l with
  | nil => rfl
  | cons x l ih =>
    have hx := hl x List.mem_cons_self
    rw [insertList, if_neg hx.asymm, if_neg hx.ne', ih fun y hy => hl y (List.mem_cons_of_mem _ hy),
      List.cons_append]

/-- Inserting the pairs of a map one after the other gives it back. -/
lemma foldl_insert_toList (m : SortedMap α β) :
    m.toList.foldl (fun m x => m.insert x.1 x.2) (∅ : SortedMap α β) = m := by
  obtain ⟨l, hl⟩ := m
  have hfold : ∀ k : SortedMap α β, k.toList = l →
      l.foldl (fun m x => m.insert x.1 x.2) (∅ : SortedMap α β) = k := by
    induction l using List.reverseRecOn with
    | nil =>
      rintro ⟨k, hk⟩ rfl
      rfl
    | append_singleton l x ih =>
      rintro ⟨k, hk⟩ rfl
      obtain ⟨hl, -, hlt⟩ := List.pairwise_append.1 hk
      rw [List.foldl_append, ih hl ⟨l, hl⟩ rfl]
      have hlist : insertList x.1 x.2 l = l ++ [x] :=
        insertList_append fun y hy => hlt y hy x (List.mem_singleton.2 rfl)
      simp only [List.foldl_cons, List.foldl_nil, insert, hlist]
  exact hfold ⟨l, hl⟩ rfl

end SortedMap

end Cppcms
