import Mathlib.Tactic
import Mathlib.Data.List.TakeWhile

/-!
# Sorted multimaps

A map with several values for a key, which is iterated in the order of the keys.  A new value comes
behind the values that its key has already.
-/

namespace Cppcms

/-- The pairs of an ordered multimap, as it is iterated. -/
structure Multimap (α β : Type*) [LinearOrder α] where
  toList : List (α × β)
  sorted : toList.Pairwise fun x y => x.1 ≤ y.1

namespace Multimap

variable {α β : Type*} [LinearOrder α] {m : Multimap α β} {a a' : α} {b : β}

instance : EmptyCollection (Multimap α β) := ⟨⟨[], .nil⟩⟩

/-- The pairs of a sorted list behind those up to a key have greater keys. -/
lemma lt_of_mem_dropWhile {l : List (α × β)} (hl : l.Pairwise fun x y => x.1 ≤ y.1) {x : α × β}
    (hx : x ∈ l.dropWhile fun y => y.1 ≤ a) : a < x.1 := by
  induction l with
  | nil => cases hx
  | cons y l ih =>
    rw [List.pairwise_cons] at hl
    by_cases hy : y.1 ≤ a
    · rw [List.dropWhile_cons_of_pos (by simpa using hy)] at hx
      exact ih hl.2 hx
    · rw [List.dropWhile_cons_of_neg (by simpa using hy)] at hx
      have hlt := not_le.1 hy
      rcases List.mem_cons.1 hx with rfl | hx
      · exact hlt
      · exact hlt.trans_le (hl.1 x hx)

lemma le_of_mem_takeWhile {l : List (α × β)} {x : α × β} (hx : x ∈ l.takeWhile fun y => y.1 ≤ a) :
    x.1 ≤ a := by
  simpa using List.mem_takeWhile_imp hx

/-- A pair is put behind those with the same key. -/
def insert (a : α) (b : β) (m : Multimap α β) : Multimap α β where
  toList := (m.toList.takeWhile fun x => x.1 ≤ a) ++ (a, b) :: m.toList.dropWhile fun x => x.1 ≤ a
  sorted := by
    have hdrop : ∀ x ∈ m.toList.dropWhile fun x => x.1 ≤ a, a ≤ x.1 := fun x hx =>
      (lt_of_mem_dropWhile m.sorted hx).le
    refine List.pairwise_append.2 ⟨m.sorted.sublist (List.takeWhile_sublist _), ?_, ?_⟩
    · exact List.pairwise_cons.2 ⟨hdrop, m.sorted.sublist (List.dropWhile_sublist _)⟩
    · intro x hx y hy
      have hle := le_of_mem_takeWhile hx
      rcases List.mem_cons.1 hy with rfl | hy
      · exact hle
      · exact hle.trans (hdrop y hy)

/-- The values of a key, in the order in which they came. -/
def values (m : Multimap α β) (a : α) : List β := (m.toList.filter fun x => x.1 = a).map Prod.snd

@[simp] lemma values_empty : (∅ : Multimap α β).values a = [] := rfl

lemma values_insert : (m.insert a b).values a' = m.values a' ++ if a = a' then [b] else [] := by
  have hlist : m.values a' =
    ((m.toList.takeWhile fun x => x.1 ≤ a).filter fun x => x.1 = a').map Prod.snd ++
      ((m.toList.dropWhile fun x => x.1 ≤ a).filter fun x => x.1 = a').map Prod.snd := by
    rw [← List.map_append, ← List.filter_append, List.takeWhile_append_dropWhile]
    rfl
  rw [hlist]
  unfold values insert
  dsimp only
  rw [List.filter_append, List.map_append]
  by_cases h : a = a'
  · subst h
    -- no greater key is the key itself
    have hnil : (m.toList.dropWhile fun x => x.1 ≤ a).filter (fun x => x.1 = a) = [] := by
      refine List.filter_eq_nil_iff.2 fun x hx => ?_
      have hlt := lt_of_mem_dropWhile m.sorted hx
      simpa using hlt.ne'
    rw [List.filter_cons_of_pos (by simp), hnil, if_pos rfl]
    simp
  · rw [List.filter_cons_of_neg (by simpa using h), if_neg h, List.append_nil]

/-- The values of a key after a list of pairs was put in. -/
lemma values_foldl_insert (l : List (α × β)) (m : Multimap α β) (a : α) :
    (l.foldl (fun m x => m.insert x.1 x.2) m).values a =
      m.values a ++ (l.filter fun x => x.1 = a).map Prod.snd := by
  induction l generalizing m with
  | nil => simp
  | cons x l ih =>
    rw [List.foldl_cons, ih, values_insert, List.append_assoc]
    by_cases h : x.1 = a
    · rw [if_pos h, List.filter_cons_of_pos (by simpa using h)]
      rfl
    · rw [if_neg h, List.filter_cons_of_neg (by simpa using h)]
      rfl

/-- No pair gets lost. -/
lemma toList_insert_perm (m : Multimap α β) (a : α) (b : β) :
    (m.insert a b).toList.Perm (m.toList ++ [(a, b)]) := by
  have hsplit : (m.toList.takeWhile fun x => x.1 ≤ a) ++ m.toList.dropWhile
      (fun x => x.1 ≤ a) = m.toList :=
    List.takeWhile_append_dropWhile
  unfold insert
  dsimp only
  refine List.perm_middle.trans ?_
  rw [hsplit]
  exact (List.perm_append_singleton (a, b) m.toList).symm

lemma toList_foldl_insert_perm (l : List (α × β)) (m : Multimap α β) :
    (l.foldl (fun m x => m.insert x.1 x.2) m).toList.Perm (m.toList ++ l) := by
  induction l generalizing m with
  | nil => rw [List.foldl_nil, List.append_nil]
  | cons x l ih =>
    have hfirst := (toList_insert_perm m x.1 x.2).append_right l
    rw [List.append_assoc] at hfirst
    exact (ih (m.insert x.1 x.2)).trans hfirst

end Multimap

end Cppcms
