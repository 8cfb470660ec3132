import Cppcms.Library.DoublyLinked

/-!
# Buckets in one linked list

The buckets of a hash table may share one list.  The nodes of a bucket stand next to each other in
it, and of the bucket only its first and its last node are kept.  A new node of the bucket is put
behind the last one; when a node is taken out the ends of its bucket may move to its neighbours.
-/

namespace Cppcms

namespace DoublyLinked

variable {α : Type*} {next prev next' prev' : α → α} {null before first p q x : α}
    {l a b s : List α}

/-! ## Neighbours -/

/-- The first node of a list. -/
lemma Linked.first_eq (h : Linked next prev null before l first) : first = l.head?.getD null := by
  rcases l with _ | ⟨r, l⟩
  · exact h
  · exact h.1

/-- The neighbours of a node. -/
lemma Linked.split (h : Linked next prev null before (a ++ x :: b) first) :
    prev x = a.getLast?.getD before ∧ Linked next prev null x b (next x) := by
  induction a generalizing before first with
  | nil => exact ⟨h.2.2.1, h.2.2.2⟩
  | cons r a ih =>
    rcases ih h.2.2.2 with ⟨hprev, hrest⟩
    refine ⟨?_, hrest⟩
    rw [hprev, List.getLast?_cons, Option.getD_some]

lemma Linked.next_eq (h : Linked next prev null before (a ++ x :: b) first) :
    next x = b.head?.getD null :=
  h.split.2.first_eq

lemma Linked.null_notMem (h : Linked next prev null before l first) : null ∉ l :=
  fun hmem => h.ne_null hmem rfl

lemma Linked.next_last (h : Linked next prev null before (l ++ [x]) first) : next x = null :=
  h.next_eq

variable [DecidableEq α]

/-! ## A node behind another one -/

/-- The list with a node behind another one. -/
def insertAfter (x p : α) : List α → List α
  | [] => []
  | y :: l => if y = x then y :: p :: l else y :: insertAfter x p l

lemma insertAfter_append_of_mem (hx : x ∈ a) :
    insertAfter x p (a ++ b) = insertAfter x p a ++ b := by
  induction a with
  | nil => exact absurd hx List.not_mem_nil
  | cons y a ih =>
    rw [List.cons_append, insertAfter, insertAfter]
    by_cases hy : y = x
    · rw [if_pos hy, if_pos hy]
      rfl
    · have hin : x ∈ a := (List.mem_cons.mp hx).resolve_left (Ne.symm hy)
      rw [if_neg hy, if_neg hy, ih hin]
      rfl

lemma insertAfter_append_of_notMem (hx : x ∉ a) :
    insertAfter x p (a ++ b) = a ++ insertAfter x p b := by
  induction a with
  | nil => rfl
  | cons y a ih =>
    rw [List.mem_cons, not_or] at hx
    rw [List.cons_append, insertAfter, if_neg (Ne.symm hx.1), ih hx.2]
    rfl

/-- Behind the last node is at the end. -/
lemma insertAfter_last (hx : x ∉ a) : insertAfter x p (a ++ [x]) = a ++ [x] ++ [p] := by
  rw [insertAfter_append_of_notMem hx, insertAfter, if_pos rfl, List.append_assoc]
  rfl

lemma mem_insertAfter (hx : x ∈ l) : q ∈ insertAfter x p l ↔ q ∈ l ∨ q = p := by
  induction l with
  | nil => exact absurd hx List.not_mem_nil
  | cons y l ih =>
    rw [insertAfter]
    by_cases hy : y = x
    · rw [if_pos hy, List.mem_cons, List.mem_cons, List.mem_cons]
      tauto
    · have hin : x ∈ l := (List.mem_cons.mp hx).resolve_left (Ne.symm hy)
      rw [if_neg hy, List.mem_cons, List.mem_cons, ih hin]
      tauto

lemma length_insertAfter (hx : x ∈ l) : (insertAfter x p l).length = l.length + 1 := by
  induction l with
  | nil => exact absurd hx List.not_mem_nil
  | cons y l ih =>
    rw [insertAfter]
    by_cases hy : y = x
    · rw [if_pos hy]
      rfl
    · have hin : x ∈ l := (List.mem_cons.mp hx).resolve_left (Ne.symm hy)
      rw [if_neg hy, List.length_cons, ih hin, List.length_cons]

/-- The links of a node that is put behind another one. -/
lemma Linked.insertAfter (h : Linked next prev null before l first) (hp : p ≠ null) (hx : x ∈ l)
    (hnextp : next' p = next x) (hprevp : prev' p = x)
    (hnext : ∀ q ∈ l, next' q = if q = x then p else next q)
    (hprev : ∀ q ∈ l, prev' q = if q = next x then p else prev q) :
    Linked next' prev' null before (insertAfter x p l) first := by
  induction l generalizing before first with
  | nil => exact absurd hx List.not_mem_nil
  | cons r l ih =>
    have hnotin := (List.nodup_cons.mp h.nodup).1
    obtain ⟨rfl, hne, hprevr, hrest⟩ := h
    -- the first node is not the one behind another node
    have hnextx : first ≠ next x := by
      rintro heq
      rcases List.mem_cons.mp hx with rfl | hin
      · have hnext_eq := hrest.first_eq
        rw [← heq] at hnext_eq
        rcases l with _ | ⟨y, l⟩
        · exact hne hnext_eq
        · exact hnotin (hnext_eq ▸ List.mem_cons_self)
      · rcases hrest.next_mem hin with hnull | hmem
        · exact hne (heq.trans hnull)
        · exact hnotin (heq ▸ hmem)
    have hprevFirst : prev' first = before := by
      rw [hprev first List.mem_cons_self, if_neg hnextx, hprevr]
    rw [DoublyLinked.insertAfter]
    by_cases hfirst : first = x
    · subst hfirst
      rw [if_pos rfl]
      refine ⟨rfl, hne, hprevFirst, ?_⟩
      rw [hnext first List.mem_cons_self, if_pos rfl]
      refine ⟨rfl, hp, hprevp, ?_⟩
      rw [hnextp]
      refine hrest.rebase (fun q hq => ?_) fun q hq => hprev q (List.mem_cons_of_mem first hq)
      rw [hnext q (List.mem_cons_of_mem first hq), if_neg]
      rintro rfl
      exact hnotin hq
    · have hin : x ∈ l := (List.mem_cons.mp hx).resolve_left (Ne.symm hfirst)
      rw [if_neg hfirst]
      refine ⟨rfl, hne, hprevFirst, ?_⟩
      rw [hnext first List.mem_cons_self, if_neg hfirst]
      exact ih hrest hin (fun q hq => hnext q (List.mem_cons_of_mem first hq))
        fun q hq => hprev q (List.mem_cons_of_mem first hq)

/-! ## Buckets -/

variable {ι : Type*} {home home' : α → ι} {i : ι} {r : α × α}

/-- The nodes of a bucket stand next to each other, and these are the first and the last of them. -/
def Chain (home : α → ι) (null : α) (i : ι) (l : List α) (r : α × α) : Prop :=
  ∃ a s b, l = a ++ (s ++ b) ∧ (∀ p ∈ s, home p = i) ∧ (∀ p ∈ a, home p ≠ i) ∧
    (∀ p ∈ b, home p ≠ i) ∧
    r = (s.head?.getD null, s.getLast?.getD null)

omit [DecidableEq α] in
lemma Chain.congr (h : Chain home null i l r) (hhome : ∀ p ∈ l, home' p = home p) :
    Chain home' null i l r := by
  rcases h with ⟨a, s, b, rfl, hs, ha, hb, hr⟩
  refine ⟨a, s, b, rfl, fun p hp => ?_, fun p hp => ?_, fun p hp => ?_, hr⟩
  · rw [hhome p (by simp [hp])]
    exact hs p hp
  · rw [hhome p (by simp [hp])]
    exact ha p hp
  · rw [hhome p (by simp [hp])]
    exact hb p hp

omit [DecidableEq α] in
/-- A bucket without nodes has no ends. -/
lemma chain_vacant (h : ∀ p ∈ l, home p ≠ i) : Chain home null i l (null, null) :=
  ⟨l, [], [], by simp, fun p hp => absurd hp List.not_mem_nil, h, fun p hp =>
    absurd hp List.not_mem_nil, rfl⟩

omit [DecidableEq α] in
/-- The ends are null, or nodes of the bucket. -/
lemma Chain.cases (h : Chain home null i l r) (hnull : null ∉ l) :
    (r = (null, null) ∧ ∀ p ∈ l, home p ≠ i) ∨
      (r.1 ≠ null ∧ r.2 ≠ null ∧ r.1 ∈ l ∧ r.2 ∈ l ∧ home r.1 = i ∧ home r.2 = i) := by
  rcases h with ⟨a, s, b, rfl, hs, ha, hb, rfl⟩
  rcases s with _ | ⟨y, s⟩
  · left
    refine ⟨rfl, fun p hp => ?_⟩
    rcases List.mem_append.mp hp with hp | hp
    · exact ha p hp
    · exact hb p hp
  · right
    have hlast : ((y :: s).getLast?.getD null) ∈ y :: s := by
      rw [List.getLast?_eq_some_getLast (List.cons_ne_nil y s), Option.getD_some]
      exact List.getLast_mem _
    have hin : ∀ p ∈ y :: s, p ∈ a ++ (y :: s ++ b) := fun p hp => by
      simp only [List.mem_append]; tauto
    have hfirst : y ∈ y :: s := List.mem_cons_self
    refine ⟨?_, ?_, hin y hfirst, hin _ hlast, hs y hfirst, hs _ hlast⟩
    · rintro heq
      exact hnull (heq ▸ hin y hfirst)
    · rintro heq
      exact hnull (heq ▸ hin _ hlast)

omit [DecidableEq α] in
lemma Chain.append_other (h : Chain home null i l r) (hp : home p ≠ i) :
    Chain home null i (l ++ [p]) r := by
  rcases h with ⟨a, s, b, rfl, hs, ha, hb, hr⟩
  refine ⟨a, s, b ++ [p], by simp only [List.append_assoc], hs, ha, fun q hq => ?_, hr⟩
  rcases List.mem_append.mp hq with hq | hq
  · exact hb q hq
  · rw [List.mem_singleton.mp hq]
    exact hp

omit [DecidableEq α] in
/-- The first node of a bucket. -/
lemma chain_append_self (h : ∀ q ∈ l, home q ≠ i) (hp : home p = i) :
    Chain home null i (l ++ [p]) (p, p) :=
  ⟨l, [p], [], rfl, fun q hq => by rw [List.mem_singleton.mp hq, hp], h, fun q hq =>
    absurd hq List.not_mem_nil, rfl⟩

omit [DecidableEq α] in
/-- A bucket whose ends are the same node has only this one. -/
lemma Chain.eq_of_ends (h : Chain home null i l r) (hl : l.Nodup) (hends : r.1 = r.2)
    (hp : home p = i) (hpl : p ∈ l) :
    p = r.1 := by
  rcases h with ⟨a, s, b, rfl, hs, ha, hb, rfl⟩
  have hps : p ∈ s := by
    rcases List.mem_append.mp hpl with h | h
    · exact absurd hp (ha p h)
    · exact (List.mem_append.mp h).resolve_right fun h => hb p h hp
  rcases s with _ | ⟨y, _ | ⟨z, s⟩⟩
  · exact absurd hps List.not_mem_nil
  · exact List.mem_singleton.mp hps
  · have hnodup := (List.nodup_append'.mp (List.nodup_append'.mp hl).2.1).1
    have hlast : y = (z :: s).getLast (List.cons_ne_nil z s) := by
      have heq : y = (y :: z :: s).getLast?.getD null := hends
      rwa [List.getLast?_cons_cons, List.getLast?_eq_some_getLast (List.cons_ne_nil z s),
        Option.getD_some] at heq
    exact absurd (hlast ▸ List.getLast_mem _) (List.nodup_cons.mp hnodup).1

lemma Chain.insertAfter_other (h : Chain home null i l r) (hx : home x ≠ i) (hxl : x ∈ l)
    (hp : home p ≠ i) :
    Chain home null i (insertAfter x p l) r := by
  rcases h with ⟨a, s, b, rfl, hs, ha, hb, hr⟩
  have hxs : x ∉ s := fun h => hx (hs x h)
  by_cases hxa : x ∈ a
  · refine ⟨insertAfter x p a, s, b, insertAfter_append_of_mem hxa, hs, fun q hq => ?_, hb, hr⟩
    rcases (mem_insertAfter hxa).mp hq with hq | rfl
    · exact ha q hq
    · exact hp
  · have hxb : x ∈ b := by
      rcases List.mem_append.mp hxl with h | h
      · exact absurd h hxa
      · exact (List.mem_append.mp h).resolve_left hxs
    refine ⟨a, s, insertAfter x p b, ?_, hs, ha, fun q hq => ?_, hr⟩
    · rw [insertAfter_append_of_notMem hxa, insertAfter_append_of_notMem hxs]
    · rcases (mem_insertAfter hxb).mp hq with hq | rfl
      · exact hb q hq
      · exact hp

/-- A further node of a bucket becomes the last one. -/
lemma Chain.insertAfter_self (h : Chain home null i l r) (hl : l.Nodup) (hr : r.2 ≠ null)
    (hp : home p = i) :
    Chain home null i (insertAfter r.2 p l) (r.1, p) := by
  rcases h with ⟨a, s, b, rfl, hs, ha, hb, rfl⟩
  rcases List.eq_nil_or_concat s with rfl | ⟨s, x, rfl⟩
  · exact absurd rfl hr
  · rw [List.concat_eq_append] at hl hs ⊢
    have hlast : (s ++ [x]).getLast?.getD null = x := by rw [List.getLast?_concat, Option.getD_some]
    have hxs : x ∉ s := fun hmem =>
      (List.nodup_append'.mp (List.nodup_append'.mp (List.nodup_append'.mp hl).2.1).1).2.2 hmem
        (List.mem_singleton_self x)
    have hxa : x ∉ a := fun hmem => ha x hmem (hs x (by simp))
    refine ⟨a, s ++ [x] ++ [p], b, ?_, fun q hq => ?_, ha, hb, ?_⟩
    · dsimp only
      rw [hlast, insertAfter_append_of_notMem hxa, insertAfter_append_of_mem (by simp),
        insertAfter_last hxs]
    · rcases List.mem_append.mp hq with hq | hq
      · exact hs q hq
      · rw [List.mem_singleton.mp hq]
        exact hp
    · have hhead : (s ++ [x] ++ [p]).head? = (s ++ [x]).head? :=
        List.head?_append_of_ne_nil _ (by simp)
      have hlast' : (s ++ [x] ++ [p]).getLast?.getD null = p := by
        rw [List.getLast?_concat, Option.getD_some]
      rw [hhead, hlast']

lemma Chain.erase_other (h : Chain home null i l r) (hp : home p ≠ i) :
    Chain home null i (l.erase p) r := by
  rcases h with ⟨a, s, b, rfl, hs, ha, hb, hr⟩
  have hps : p ∉ s := fun h => hp (hs p h)
  by_cases hpa : p ∈ a
  · exact ⟨a.erase p, s, b, List.erase_append_left _ hpa, hs, fun q hq =>
      ha q (List.mem_of_mem_erase hq), hb, hr⟩
  · refine ⟨a, s, b.erase p, ?_, hs, ha, fun q hq => hb q (List.mem_of_mem_erase hq), hr⟩
    rw [List.erase_append_right _ hpa, List.erase_append_right _ hps]

/-- The ends of a bucket behind the removal of one of its nodes. -/
def endsWithout (next prev : α → α) (null p : α) (r : α × α) : α × α :=
  if r.1 = r.2 then (null, null) else if r.1 = p then (next p, r.2)
  else if r.2 = p then (r.1, prev p) else r

/-- The nodes of a bucket without one of them. -/
lemma Chain.erase_self (h : Chain home null i l r) (hl : Linked next prev null before l first)
    (hp : home p = i) (hpl : p ∈ l) :
    Chain home null i (l.erase p) (endsWithout next prev null p r) := by
  rcases h with ⟨a, s, b, rfl, hs, ha, hb, rfl⟩
  have hpa : p ∉ a := fun h => ha p h hp
  have hps : p ∈ s := by
    rcases List.mem_append.mp hpl with h | h
    · exact absurd h hpa
    · exact (List.mem_append.mp h).resolve_right fun h => hb p h hp
  rcases List.eq_append_cons_of_mem hps with ⟨s₁, s₂, rfl, hps₁⟩
  have hnodup : (s₁ ++ p :: s₂).Nodup :=
    (List.nodup_append'.mp (List.nodup_append'.mp hl.nodup).2.1).1
  have hps₂ : p ∉ s₂ := (List.nodup_cons.mp (List.nodup_append'.mp hnodup).2.1).1
  have hwhole : a ++ ((s₁ ++ p :: s₂) ++ b) = (a ++ s₁) ++ p :: (s₂ ++ b) := by
    simp only [List.append_assoc, List.cons_append]
  have herase : (a ++ ((s₁ ++ p :: s₂) ++ b)).erase p = a ++ ((s₁ ++ s₂) ++ b) := by
    rw [List.erase_append_right _ hpa, List.erase_append_left _ hps, List.erase_append_right _ hps₁,
      List.erase_cons_head]
  rw [hwhole] at hl
  have hprev := hl.split.1
  have hnext := hl.next_eq
  refine ⟨a, s₁ ++ s₂, b, herase, fun q hq => hs q ?_, ha, hb, ?_⟩
  · rcases List.mem_append.mp hq with hq | hq
    · exact List.mem_append.mpr (Or.inl hq)
    · exact List.mem_append.mpr (Or.inr (List.mem_cons_of_mem p hq))
  · unfold endsWithout
    dsimp only
    rcases s₁ with _ | ⟨y, s₁⟩
    · rcases s₂ with _ | ⟨z, s₂⟩
      · -- the only node
        exact if_pos rfl
      · -- the first one
        have hlast : (([] : List α) ++ p :: z :: s₂).getLast?.getD null =
            (z :: s₂).getLast?.getD null := by
          rw [List.nil_append, List.getLast?_cons_cons]
        have hmem : (z :: s₂).getLast?.getD null ∈ z :: s₂ := by
          rw [List.getLast?_eq_some_getLast (List.cons_ne_nil z s₂), Option.getD_some]
          exact List.getLast_mem _
        have hne : p ≠ (z :: s₂).getLast?.getD null := fun heq => hps₂ (heq ▸ hmem)
        have hnextp : next p = z := hnext
        rw [hlast, List.nil_append, List.head?_cons, Option.getD_some, if_neg hne,
          if_pos rfl, hnextp]
        rfl
    · have hyp : y ≠ p := fun heq => hps₁ (heq ▸ List.mem_cons_self)
      rcases List.eq_nil_or_concat s₂ with rfl | ⟨s₂, z, rfl⟩
      · -- the last one
        have hlast : (y :: s₁ ++ [p]).getLast?.getD null = p := by
          rw [List.getLast?_concat, Option.getD_some]
        have hprevp : prev p = (y :: s₁).getLast?.getD null := by
          rw [hprev, List.getLast?_append_of_ne_nil _ (List.cons_ne_nil y s₁),
            List.getLast?_eq_some_getLast (List.cons_ne_nil y s₁), Option.getD_some,
            Option.getD_some]
        rw [hlast, List.cons_append, List.head?_cons, Option.getD_some, if_neg hyp, if_neg hyp,
          if_pos rfl, hprevp, List.append_nil]
        rfl
      · -- one between the others
        rw [List.concat_eq_append] at hps₂ hnodup ⊢
        have hlast : (y :: s₁ ++ p :: (s₂ ++ [z])).getLast?.getD null = z := by
          rw [← List.cons_append, ← List.append_assoc, List.getLast?_concat, Option.getD_some]
        have hlast' : (y :: s₁ ++ (s₂ ++ [z])).getLast?.getD null = z := by
          rw [← List.append_assoc, List.getLast?_concat, Option.getD_some]
        have hyz : y ≠ z := by
          rintro rfl
          exact (List.nodup_append'.mp hnodup).2.2 List.mem_cons_self (by simp)
        have hzp : z ≠ p := fun heq => hps₂ (heq ▸ by simp)
        rw [hlast, hlast', List.cons_append, List.head?_cons, Option.getD_some, if_neg hyz,
          if_neg hyp, if_neg hzp]
        rfl

end DoublyLinked

end Cppcms
