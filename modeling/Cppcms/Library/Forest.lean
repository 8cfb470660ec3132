import Mathlib.Tactic

/-!
# Ordered forests

Nodes with ordered lists of children, which are nodes or leaves and know their parents.  A forest
grows by attaching a child that has no parent yet below a node that is not below the child; then
every node has a finite tree of descendants, and the leaves of the tree are in one order.
-/

namespace Cppcms

/-- A child of a node. -/
inductive Child (ν μ : Type*) where
  | leaf (l : μ)
  | node (n : ν)
  deriving DecidableEq

structure Forest (ν μ : Type*) where
  children : ν → List (Child ν μ)
  parent : Child ν μ → Option ν

namespace Forest

variable {ν μ : Type*}

/-- Nothing has a parent. -/
def empty : Forest ν μ := ⟨fun _ => [], fun _ => none⟩

/-- A child is put behind the children that a node has. -/
def attach [DecidableEq ν] [DecidableEq μ] (f : Forest ν μ) (n : ν) (c : Child ν μ) :
    Forest ν μ where
  children := Function.update f.children n (f.children n ++ [c])
  parent := Function.update f.parent c (some n)

/-- A node is the parent of another one. -/
def Step (f : Forest ν μ) (m n : ν) : Prop := f.parent (.node m) = some n

/-- The first node is the second one or one of its descendants. -/
def Within (f : Forest ν μ) : ν → ν → Prop := Relation.ReflTransGen f.Step

/-- The leaf has the node among its ancestors. -/
def LeafBelow (f : Forest ν μ) (l : μ) (n : ν) : Prop :=
  ∃ m, f.parent (.leaf l) = some m ∧ f.Within m n

/-- The node has no parent. -/
def IsRoot (f : Forest ν μ) (n : ν) : Prop := f.parent (.node n) = none

/-- The parents are those that have the children, and every way down or up ends. -/
structure Sound (f : Forest ν μ) : Prop where
  mem_children_iff : ∀ n c, c ∈ f.children n ↔ f.parent c = some n
  nodup : ∀ n, (f.children n).Nodup
  ranked : ∃ rank : ν → ℕ, ∀ m n, f.Step m n → rank m < rank n
  rooted : ∀ n, ∃ t, f.Within n t ∧ f.IsRoot t

section

/-- The leaves below a child, if those below a node are given. -/
def childLeaves (g : ν → Option (List μ)) : Child ν μ → Option (List μ)
  | .leaf l => some [l]
  | .node n => g n

/-- The leaves below the children of a list, in order. -/
def listLeaves (g : ν → Option (List μ)) : List (Child ν μ) → Option (List μ)
  | [] => some []
  | c :: cs => do
    let ls ← childLeaves g c
    let ls' ← listLeaves g cs
    return ls ++ ls'

/-- The leaves below a node: a recursion over its children. -/
def leaves (f : Forest ν μ) : ℕ → ν → Option (List μ)
  | 0, _ => none
  | fuel + 1, n => listLeaves (leaves f fuel) (f.children n)

end

/-! ## Growing -/

variable {f : Forest ν μ}

lemma sound_empty : (empty : Forest ν μ).Sound where
  mem_children_iff n c := by
    constructor
    · intro h
      cases h
    · intro h
      cases h
  nodup _ := List.nodup_nil
  ranked := ⟨fun _ => 0, fun m n h => by cases h⟩
  rooted n := ⟨n, Relation.ReflTransGen.refl, rfl⟩

lemma Sound.mem_children_iff_step (hf : f.Sound) {m n : ν} : .node m ∈ f.children n ↔ f.Step m n :=
  hf.mem_children_iff n (.node m)

section

variable [DecidableEq ν] [DecidableEq μ] {n : ν} {c : Child ν μ}

lemma parent_attach (d : Child ν μ) :
    (f.attach n c).parent d = if d = c then some n else f.parent d :=
  Function.update_apply _ _ _ _

lemma children_attach (m : ν) :
    (f.attach n c).children m = if m = n then f.children n ++ [c] else f.children m :=
  Function.update_apply _ _ _ _

lemma step_attach {m k : ν} :
    (f.attach n c).Step m k ↔ (.node m = c ∧ n = k) ∨ (.node m ≠ c ∧ f.Step m k) := by
  unfold Step
  rw [parent_attach]
  by_cases hm : Child.node m = c
  · rw [if_pos hm]
    constructor
    · intro h
      exact .inl ⟨hm, Option.some.inj h⟩
    · rintro (h | h)
      · rw [h.2]
      · exact absurd hm h.1
  · rw [if_neg hm]
    constructor
    · intro h
      exact .inr ⟨hm, h⟩
    · rintro (h | h)
      · exact absurd h.1 hm
      · exact h.2

/-- The ways up that were there are there. -/
lemma within_attach (hparent : f.parent c = none) {m k : ν} (h : f.Within m k) :
    (f.attach n c).Within m k := by
  have hstep : ∀ a b, f.Step a b → (f.attach n c).Step a b := by
    intro a b hab
    refine step_attach.2 (.inr ⟨?_, hab⟩)
    rintro rfl
    rw [Step, hparent] at hab
    cases hab
  exact Relation.ReflTransGen.mono hstep _ _ h

/-- A child without a parent may be attached below a node that is not below the child. -/
lemma Sound.attach (hf : f.Sound) (hparent : f.parent c = none)
    (hbelow : ∀ m, c = .node m → ¬ f.Within n m) :
    (f.attach n c).Sound where
  mem_children_iff m d := by
    rw [children_attach, parent_attach]
    by_cases hd : d = c
    · subst hd
      have hno : ∀ k, d ∉ f.children k := by
        intro k hmem
        rw [(hf.mem_children_iff k d).1 hmem] at hparent
        cases hparent
      rw [if_pos rfl]
      split_ifs with hm
      · subst hm
        exact iff_of_true (List.mem_append_right _ List.mem_cons_self) rfl
      · exact iff_of_false (hno m) fun h => hm (Option.some.inj h).symm
    · rw [if_neg hd]
      split_ifs with hm
      · subst hm
        rw [List.mem_append, List.mem_singleton, or_iff_left hd]
        exact hf.mem_children_iff m d
      · exact hf.mem_children_iff m d
  nodup m := by
    rw [children_attach]
    split_ifs
    · apply List.nodup_append.2
      refine ⟨hf.nodup n, List.nodup_singleton c, ?_⟩
      intro d hd e he heq
      rw [heq, List.mem_singleton.1 he, hf.mem_children_iff, hparent] at hd
      cases hd
    · exact hf.nodup m
  ranked := by
    classical
    rcases hf.ranked with ⟨rank, hrank⟩
    -- the ancestors of the node go up above the child
    let height := match c with | .leaf _ => 0 | .node m => rank m + 1
    refine ⟨fun k => if f.Within n k then rank k + height else rank k, ?_⟩
    intro m k hstep
    dsimp only
    rcases step_attach.1 hstep with ⟨rfl, rfl⟩ | ⟨-, hstep⟩
    · have hself : f.Within n n := Relation.ReflTransGen.refl
      rw [if_pos hself, if_neg (hbelow m rfl)]
      show rank m < rank n + (rank m + 1)
      omega
    · have hlt := hrank m k hstep
      by_cases hm : f.Within n m
      · have hk : f.Within n k := hm.tail hstep
        rw [if_pos hm, if_pos hk]
        omega
      · rw [if_neg hm]
        split_ifs
        · omega
        · exact hlt
  rooted m := by
    rcases hf.rooted m with ⟨t, hmt, ht⟩
    rcases hf.rooted n with ⟨u, hnu, hu⟩
    have hroot : ∀ {k : ν}, f.IsRoot k → .node k ≠ c → (f.attach n c).IsRoot k := by
      intro k hk hne
      unfold IsRoot
      rw [parent_attach, if_neg hne]
      exact hk
    by_cases htc : Child.node t = c
    · -- the root became a child of the node, and the root above the node is above it
      have hstep : (f.attach n c).Step t n := step_attach.2 (.inl ⟨htc, rfl⟩)
      refine ⟨u, ((within_attach hparent hmt).tail hstep).trans (within_attach hparent hnu),
        hroot hu ?_⟩
      intro huc
      exact hbelow u huc.symm hnu
    · exact ⟨t, within_attach hparent hmt, hroot ht htc⟩

end

/-! ## The leaves of a tree -/

lemma listLeaves_cons_eq_some {g : ν → Option (List μ)} {c : Child ν μ} {cs : List (Child ν μ)}
    {ls : List μ} :
    listLeaves g (c :: cs) = some ls ↔
      ∃ l₁ l₂, childLeaves g c = some l₁ ∧ listLeaves g cs = some l₂ ∧ ls = l₁ ++ l₂ := by
  rw [listLeaves]
  rcases childLeaves g c with _ | l₁
  · exact iff_of_false (fun h => by cases h) (fun ⟨_, _, h, _⟩ => by cases h)
  · rcases listLeaves g cs with _ | l₂
    · exact iff_of_false (fun h => by cases h) (fun ⟨_, _, _, h, _⟩ => by cases h)
    · constructor
      · intro h
        exact ⟨l₁, l₂, rfl, rfl, (Option.some.inj h).symm⟩
      · rintro ⟨_, _, h₁, h₂, rfl⟩
        cases h₁
        cases h₂
        rfl

lemma listLeaves_mono {g g' : ν → Option (List μ)} {cs : List (Child ν μ)}
    (h : ∀ n ls, .node n ∈ cs → g n = some ls → g' n = some ls) {ls : List μ}
    (hls : listLeaves g cs = some ls) :
    listLeaves g' cs = some ls := by
  induction cs generalizing ls with
  | nil => exact hls
  | cons c cs ih =>
    rcases listLeaves_cons_eq_some.1 hls with ⟨l₁, l₂, hc, hcs, rfl⟩
    have hc' : childLeaves g' c = some l₁ := by
      cases c with
      | leaf _ => exact hc
      | node n => exact h n l₁ List.mem_cons_self hc
    exact listLeaves_cons_eq_some.2
      ⟨l₁, l₂, hc', ih (fun n ls hn => h n ls (List.mem_cons_of_mem _ hn)) hcs, rfl⟩

lemma leaves_mono {k k' : ℕ} (hk : k ≤ k') {n : ν} {ls : List μ} (h : f.leaves k n = some ls) :
    f.leaves k' n = some ls := by
  induction k generalizing k' n ls with
  | zero => cases h
  | succ k ih =>
    rcases k' with _ | k'
    · exact absurd hk (Nat.not_succ_le_zero _)
    · exact listLeaves_mono (fun m ls _ hm => ih (Nat.le_of_succ_le_succ hk) hm) h

/-- Every node has its leaves after so many rounds as its rank says. -/
lemma Sound.exists_leaves (hf : f.Sound) (n : ν) : ∃ k ls, f.leaves k n = some ls := by
  rcases hf.ranked with ⟨rank, hrank⟩
  have hlist : ∀ (k : ℕ) (cs : List (Child ν μ)),
    (∀ m, .node m ∈ cs → ∃ ls, f.leaves k m = some ls) →
      ∃ ls, listLeaves (f.leaves k) cs = some ls := by
    intro k cs hcs
    induction cs with
    | nil => exact ⟨[], rfl⟩
    | cons c cs ih =>
      rcases ih fun m hm => hcs m (List.mem_cons_of_mem _ hm) with ⟨ls', hls'⟩
      have hc : ∃ ls, childLeaves (f.leaves k) c = some ls := by
        cases c with
        | leaf l => exact ⟨[l], rfl⟩
        | node m => exact hcs m List.mem_cons_self
      rcases hc with ⟨ls, hls⟩
      refine ⟨ls ++ ls', ?_⟩
      rw [listLeaves, hls, hls']
      rfl
  have hall : ∀ k n, rank n < k → ∃ ls, f.leaves k n = some ls := by
    intro k
    induction k with
    | zero => exact fun n h => absurd h (Nat.not_lt_zero _)
    | succ k ih =>
      intro n hn
      apply hlist
      intro m hm
      have hlt := hrank m n (hf.mem_children_iff_step.1 hm)
      exact ih m (by omega)
  rcases hall (rank n + 1) n (Nat.lt_succ_self _) with ⟨ls, hls⟩
  exact ⟨rank n + 1, ls, hls⟩

lemma mem_listLeaves {g : ν → Option (List μ)} {cs : List (Child ν μ)} {ls : List μ}
    (h : listLeaves g cs = some ls) {l : μ} :
    l ∈ ls ↔ ∃ c ∈ cs, ∃ ls', childLeaves g c = some ls' ∧ l ∈ ls' := by
  induction cs generalizing ls with
  | nil =>
    cases h
    exact iff_of_false List.not_mem_nil fun ⟨c, hc, _⟩ => List.not_mem_nil hc
  | cons c cs ih =>
    rcases listLeaves_cons_eq_some.1 h with ⟨l₁, l₂, hc, hcs, rfl⟩
    rw [List.mem_append, ih hcs, List.exists_mem_cons_iff, hc]
    simp only [Option.some.injEq, exists_eq_left']

/-- If the leaves of a list were found, those of its members were. -/
lemma exists_childLeaves {g : ν → Option (List μ)} {cs : List (Child ν μ)} {ls : List μ}
    (h : listLeaves g cs = some ls) {c : Child ν μ} (hc : c ∈ cs) :
    ∃ ls', childLeaves g c = some ls' := by
  induction cs generalizing ls with
  | nil => exact absurd hc List.not_mem_nil
  | cons d cs ih =>
    rcases listLeaves_cons_eq_some.1 h with ⟨l₁, l₂, hd, hcs, rfl⟩
    rcases List.mem_cons.1 hc with rfl | hc
    · exact ⟨l₁, hd⟩
    · exact ih hcs hc

variable {k : ℕ}

/-- The leaves are those that have the node among their ancestors. -/
lemma Sound.mem_leaves (hf : f.Sound) {n : ν} {ls : List μ} (h : f.leaves k n = some ls) {l : μ} :
    l ∈ ls ↔ f.LeafBelow l n := by
  induction k generalizing n ls with
  | zero => cases h
  | succ k ih =>
    rw [mem_listLeaves h]
    constructor
    · rintro ⟨c, hc, ls', hls', hl⟩
      cases c with
      | leaf l' =>
        cases hls'
        rw [List.mem_singleton.1 hl]
        exact ⟨n, (hf.mem_children_iff n _).1 hc, Relation.ReflTransGen.refl⟩
      | node m =>
        rcases (ih hls').1 hl with ⟨j, hj, hwithin⟩
        exact ⟨j, hj, hwithin.tail (hf.mem_children_iff_step.1 hc)⟩
    · rintro ⟨m, hm, hwithin⟩
      rcases Relation.ReflTransGen.cases_tail hwithin with rfl | ⟨j, hmj, hjn⟩
      · exact ⟨.leaf l, (hf.mem_children_iff _ _).2 hm, [l], rfl, List.mem_singleton_self l⟩
      · have hj := hf.mem_children_iff_step.2 hjn
        rcases exists_childLeaves h hj with ⟨ls', hls'⟩
        exact ⟨.node j, hj, ls', hls', (ih hls').2 ⟨m, hm, hmj⟩⟩

/-- No node is below one of its children. -/
lemma Sound.not_within_child (hf : f.Sound) {m n : ν} (hstep : f.Step m n) : ¬ f.Within n m := by
  rcases hf.ranked with ⟨rank, hrank⟩
  have hle : ∀ {a b : ν}, f.Within a b → rank a ≤ rank b := by
    intro a b h
    induction h with
    | refl => exact Nat.le_refl _
    | tail _ hstep ih => exact ih.trans (hrank _ _ hstep).le
  intro h
  exact absurd (hle h) (not_le.2 (hrank m n hstep))

lemma step_rightUnique : Relator.RightUnique f.Step :=
  fun _ _ _ h h' => Option.some.inj (h.symm.trans h')

/-- The ancestors of a node are in one line. -/
lemma within_or_within {l m n : ν} (hm : f.Within l m) (hn : f.Within l n) :
    f.Within m n ∨ f.Within n m :=
  Relation.ReflTransGen.total_of_right_unique step_rightUnique hm hn

/-- No node is below one of its siblings. -/
lemma Sound.not_within_sibling (hf : f.Sound) {a b n : ν} (ha : f.Step a n) (hb : f.Step b n)
    (hab : a ≠ b) :
    ¬ f.Within a b := by
  intro hwithin
  rcases Relation.ReflTransGen.cases_head hwithin with heq | ⟨j, haj, hjb⟩
  · exact hab heq
  · rw [step_rightUnique haj ha] at hjb
    exact hf.not_within_child hb hjb

/-- A leaf is not below the siblings of it. -/
lemma Sound.not_leafBelow_sibling (hf : f.Sound) {l : μ} {b n : ν}
    (hl : f.parent (.leaf l) = some n) (hb : f.Step b n) : ¬ f.LeafBelow l b := by
  rintro ⟨j, hj, hjb⟩
  rw [hl] at hj
  cases hj
  exact hf.not_within_child hb hjb

/-- A leaf that is below two children has one of them below the other. -/
lemma Sound.eq_of_childLeaves (hf : f.Sound) {n : ν} {c d : Child ν μ} (hc : f.parent c = some n)
    (hd : f.parent d = some n) {lc ld : List μ} (hlc : childLeaves (f.leaves k) c = some lc)
    (hld : childLeaves (f.leaves k) d = some ld) {l : μ} (hmem : l ∈ lc) (hmem' : l ∈ ld) :
    c = d := by
  by_contra hne
  cases c with
  | leaf a =>
    cases hlc
    rw [List.mem_singleton.1 hmem] at hmem'
    cases d with
    | leaf b =>
      cases hld
      exact hne (congrArg _ (List.mem_singleton.1 hmem'))
    | node b => exact hf.not_leafBelow_sibling hc hd ((hf.mem_leaves hld).1 hmem')
  | node a =>
    have hbelow := (hf.mem_leaves hlc).1 hmem
    cases d with
    | leaf b =>
      cases hld
      rw [List.mem_singleton.1 hmem'] at hbelow
      exact hf.not_leafBelow_sibling hd hc hbelow
    | node b =>
      rcases hbelow with ⟨j, hj, hja⟩
      rcases (hf.mem_leaves hld).1 hmem' with ⟨j', hj', hjb⟩
      rw [hj] at hj'
      cases hj'
      have hab : a ≠ b := fun heq => hne (congrArg _ heq)
      rcases within_or_within hja hjb with hwithin | hwithin
      · exact hf.not_within_sibling hc hd hab hwithin
      · exact hf.not_within_sibling hd hc hab.symm hwithin

/-- Every leaf is there once. -/
lemma Sound.nodup_leaves (hf : f.Sound) {n : ν} {ls : List μ} (h : f.leaves k n = some ls) :
    ls.Nodup := by
  induction k generalizing n ls with
  | zero => cases h
  | succ k ih =>
    have hlist : ∀ (cs : List (Child ν μ)) (ls : List μ), cs.Nodup →
      (∀ c ∈ cs, f.parent c = some n) →
        listLeaves (f.leaves k) cs = some ls → ls.Nodup := by
      intro cs
      induction cs with
      | nil =>
        intro ls _ _ hls
        cases hls
        exact List.nodup_nil
      | cons c cs ihcs =>
        intro ls hnodup hcs hls
        rw [List.nodup_cons] at hnodup
        rcases listLeaves_cons_eq_some.1 hls with ⟨l₁, l₂, hc, hrest, rfl⟩
        have hfirst : l₁.Nodup := by
          cases c with
          | leaf l =>
            cases hc
            exact List.nodup_singleton l
          | node m => exact ih hc
        apply List.nodup_append.2
        refine ⟨hfirst, ihcs l₂ hnodup.2 (fun d hd => hcs d (List.mem_cons_of_mem _ hd)) hrest, ?_⟩
        rintro l hl _ hl' rfl
        rcases (mem_listLeaves hrest).1 hl' with ⟨d, hd, ld, hld, hlmem⟩
        have heq := hf.eq_of_childLeaves (hcs c List.mem_cons_self)
          (hcs d (List.mem_cons_of_mem _ hd)) hc hld hl hlmem
        exact hnodup.1 (heq ▸ hd)
    exact hlist _ ls (hf.nodup n) (fun c hc => (hf.mem_children_iff n c).1 hc) h

end Forest

end Cppcms
