import Mathlib.Tactic

/-!
# Lists with links in both directions

The nodes of a list are linked by two fields of theirs, of which only the values at the nodes
matter: `next` leads to the end of the list and `prev` back to its first node.  The fields at both
ends are null.

What is done to such a list changes a few fields.  The lemmas say which of the fields have to be as
they were.
-/

namespace Cppcms

namespace DoublyLinked

variable {α : Type*} {next prev next' prev' : α → α} {null before first p q : α} {l : List α}

/-- The nodes that are linked behind a node, of which the first one is given. -/
def Linked (next prev : α → α) (null : α) : α → List α → α → Prop
  | _, [], first => first = null
  | before, p :: l, first => first = p ∧ p ≠ null ∧ prev p = before ∧
      Linked next prev null p l (next p)

lemma Linked.ne_null (h : Linked next prev null before l first) (hp : p ∈ l) : p ≠ null := by
  induction l generalizing before first with
  | nil => exact absurd hp List.not_mem_nil
  | cons r l ih =>
    obtain ⟨-, hne, -, hrest⟩ := h
    rcases List.mem_cons.mp hp with rfl | hin
    · exact hne
    · exact ih hrest hin

lemma Linked.eq_nil (h : Linked next prev null before l null) : l = [] := by
  rcases l with _ | ⟨p, l⟩
  · rfl
  · exact absurd h.1.symm h.2.1

/-- The first node tells what the others are. -/
lemma Linked.unique {before' : α} {l' : List α} (h : Linked next prev null before l first)
    (h' : Linked next prev null before' l' first) : l = l' := by
  induction l generalizing before before' first l' with
  | nil =>
    rcases l' with _ | ⟨p, l'⟩
    · rfl
    · exact absurd (h'.1.symm.trans h) h'.2.1
  | cons p l ih =>
    obtain ⟨rfl, hne, -, hrest⟩ := h
    rcases l' with _ | ⟨q, l'⟩
    · exact absurd h' hne
    · obtain ⟨rfl, -, -, hrest'⟩ := h'
      rw [ih hrest hrest']

/-- From every node on the others are linked. -/
lemma Linked.of_mem (h : Linked next prev null before l first) (hp : p ∈ l) :
    ∃ l₁ l₂, l = l₁ ++ p :: l₂ ∧ Linked next prev null p l₂ (next p) := by
  induction l generalizing before first with
  | nil => exact absurd hp List.not_mem_nil
  | cons r l ih =>
    obtain ⟨-, -, -, hrest⟩ := h
    rcases List.mem_cons.mp hp with rfl | hin
    · exact ⟨[], l, rfl, hrest⟩
    · obtain ⟨l₁, l₂, rfl, htail⟩ := ih hrest hin
      exact ⟨r :: l₁, l₂, rfl, htail⟩

/-- No node is met twice. -/
lemma Linked.nodup (h : Linked next prev null before l first) : l.Nodup := by
  induction l generalizing before first with
  | nil => exact List.nodup_nil
  | cons p l ih =>
    obtain ⟨-, -, -, hrest⟩ := h
    refine List.nodup_cons.mpr ⟨fun hin => ?_, ih hrest⟩
    obtain ⟨l₁, l₂, rfl, htail⟩ := hrest.of_mem hin
    have hlen := congrArg List.length (hrest.unique htail)
    rw [List.length_append, List.length_cons] at hlen
    omega

/-- The node before a node is one of the list, if it is not the first one. -/
lemma Linked.prev_mem (h : Linked next prev null before l first) (hp : p ∈ l) :
    prev p = before ∨ prev p ∈ l := by
  induction l generalizing before first with
  | nil => exact absurd hp List.not_mem_nil
  | cons r l ih =>
    obtain ⟨-, -, hprev, hrest⟩ := h
    rcases List.mem_cons.mp hp with rfl | hin
    · exact .inl hprev
    · right
      rcases ih hrest hin with heq | hmem
      · exact heq ▸ List.mem_cons_self
      · exact List.mem_cons_of_mem r hmem

/-- The node behind a node is one of the list, if it is not the last one. -/
lemma Linked.next_mem (h : Linked next prev null before l first) (hp : p ∈ l) :
    next p = null ∨ next p ∈ l := by
  obtain ⟨l₁, l₂, rfl, htail⟩ := h.of_mem hp
  rcases l₂ with _ | ⟨r, l₂⟩
  · exact .inl htail
  · right
    rw [htail.1]
    simp

/-- Only the fields of the nodes matter. -/
lemma Linked.congr (h : Linked next prev null before l first) (hnext : ∀ q ∈ l, next' q = next q)
    (hprev : ∀ q ∈ l, prev' q = prev q) : Linked next' prev' null before l first := by
  induction l generalizing before first with
  | nil => exact h
  | cons p l ih =>
    obtain ⟨hfirst, hne, hbefore, hrest⟩ := h
    refine ⟨hfirst, hne, (hprev p List.mem_cons_self).trans hbefore, ?_⟩
    rw [hnext p List.mem_cons_self]
    exact ih hrest (fun q hq => hnext q (List.mem_cons_of_mem p hq))
      (fun q hq => hprev q (List.mem_cons_of_mem p hq))

variable [DecidableEq α]

/-- The first of the nodes gets another node before it. -/
lemma Linked.rebase {before' : α} (h : Linked next prev null before l first)
    (hnext : ∀ q ∈ l, next' q = next q)
    (hprev : ∀ q ∈ l, prev' q = if q = first then before' else prev q) :
    Linked next' prev' null before' l first := by
  rcases l with _ | ⟨p, l⟩
  · exact h
  · have hnodup := h.nodup
    obtain ⟨rfl, hne, -, hrest⟩ := h
    have hfirst := hprev first List.mem_cons_self
    rw [if_pos rfl] at hfirst
    refine ⟨rfl, hne, hfirst, ?_⟩
    rw [hnext first List.mem_cons_self]
    refine hrest.congr (fun q hq => hnext q (List.mem_cons_of_mem first hq)) fun q hq => ?_
    rw [hprev q (List.mem_cons_of_mem first hq), if_neg]
    rintro rfl
    exact (List.nodup_cons.mp hnodup).1 hq

/-- A node is put before the others. -/
lemma Linked.push (h : Linked next prev null null l first) (hne : p ≠ null)
    (hnextp : next' p = first) (hprevp : prev' p = null) (hnext : ∀ q ∈ l, next' q = next q)
    (hprev : ∀ q ∈ l, prev' q = if q = first then p else prev q) :
    Linked next' prev' null null (p :: l) p := by
  refine ⟨rfl, hne, hprevp, ?_⟩
  rw [hnextp]
  exact h.rebase hnext hprev

/-- The first node is taken away. -/
lemma Linked.pop (h : Linked next prev null before (p :: l) first)
    (hnext : ∀ q ∈ l, next' q = next q)
    (hprev : ∀ q ∈ l, prev' q = if q = next p then before else prev q) :
    Linked next' prev' null before l (next p) :=
  h.2.2.2.rebase hnext hprev

/-- A node is taken out. -/
lemma Linked.remove (h : Linked next prev null before l first) (hbefore : before ∉ l) (hp : p ∈ l)
    (hnext : ∀ q ∈ l, q ≠ p → next' q = if q = prev p then next p else next q)
    (hprev : ∀ q ∈ l, q ≠ p → prev' q = if q = next p then prev p else prev q) :
    Linked next' prev' null before (l.erase p) (if prev p = before then next p else first) := by
  induction l generalizing before first with
  | nil => exact absurd hp List.not_mem_nil
  | cons r l ih =>
    have hnodup := h.nodup
    obtain ⟨hnotin, -⟩ := List.nodup_cons.mp hnodup
    obtain ⟨rfl, hne, hprevr, hrest⟩ := h
    have hbefore' : before ≠ first ∧ before ∉ l := by simpa using hbefore
    by_cases hfirst : p = first
    · subst hfirst
      rw [List.erase_cons_head, if_pos hprevr]
      refine hrest.rebase (fun q hq => ?_) fun q hq => ?_
      · have hqp : q ≠ p := fun heq => hnotin (heq ▸ hq)
        rw [hnext q (List.mem_cons_of_mem p hq) hqp, hprevr, if_neg]
        rintro rfl
        exact hbefore'.2 hq
      · have hqp : q ≠ p := fun heq => hnotin (heq ▸ hq)
        rw [hprev q (List.mem_cons_of_mem p hq) hqp, hprevr]
    · have hin : p ∈ l := (List.mem_cons.mp hp).resolve_left hfirst
      have hprevp : prev p ≠ before := by
        rintro heq
        rcases hrest.prev_mem hin with heq' | hmem
        · exact hbefore'.1 (heq.symm.trans heq')
        · exact hbefore'.2 (heq ▸ hmem)
      have hnextp : next p ≠ first := by
        rintro heq
        rcases hrest.next_mem hin with heq' | hmem
        · exact hne (heq.symm.trans heq')
        · exact hnotin (heq ▸ hmem)
      rw [List.erase_cons_tail (by simpa using Ne.symm hfirst), if_neg hprevp]
      refine ⟨rfl, hne, ?_, ?_⟩
      · rw [hprev first List.mem_cons_self (Ne.symm hfirst), if_neg (Ne.symm hnextp), hprevr]
      · have htail :=
          ih hrest hnotin hin (fun q hq hqp => hnext q (List.mem_cons_of_mem first hq) hqp)
          fun q hq hqp => hprev q (List.mem_cons_of_mem first hq) hqp
        rw [hnext first List.mem_cons_self (Ne.symm hfirst)]
        simp only [@eq_comm _ first]
        exact htail

end DoublyLinked

end Cppcms
