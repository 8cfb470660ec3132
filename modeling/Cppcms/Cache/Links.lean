import Cppcms.Cache.Storage

/-!
# The links between the containers of the cache

The containers of a `mem_cache` agree with each other (`Linked`), and an operation keeps the links.
Under this invariant no iterator that is used has been erased: `delete_node` has a closed form.
-/

namespace Cppcms

namespace Cache

namespace MemCache

variable {c : MemCache}

/-- The containers agree. -/
structure Linked (c : MemCache) : Prop where
  primary_distinct : c.primary.Distinct
  lru_distinct : c.lru.Distinct
  timeout_distinct : c.timeout.Distinct
  triggers_distinct : c.triggers.Distinct
  cells_distinct : ∀ t name cells, (t, name, cells) ∈ c.triggers → Cells.Distinct cells
  /-- an entry has one cell for each of its triggers -/
  own_distinct : ∀ p key cont, (p, key, cont) ∈ c.primary → Cells.Distinct cont.triggers
  keys_nodup : (c.primary.map fun x => x.2.1).Nodup
  names_nodup : (c.triggers.map fun x => x.2.1).Nodup
  sorted : c.timeout.Pairwise fun x y => x.2.1 ≤ y.2.1
  cells_ne_nil : ∀ t name cells, (t, name, cells) ∈ c.triggers → cells ≠ []
  lru_iff : ∀ cell p, (cell, p) ∈ c.lru ↔ ∃ key cont, (p, key, cont) ∈ c.primary ∧ cont.lru = cell
  timeout_iff : ∀ cell p, (∃ deadline, (cell, deadline, p) ∈ c.timeout) ↔
    ∃ key cont, (p, key, cont) ∈ c.primary ∧ cont.timeout = cell
  triggers_iff : ∀ t cell p, (∃ name cells, (t, name, cells) ∈ c.triggers ∧ (cell, p) ∈ cells) ↔
    ∃ key cont, (p, key, cont) ∈ c.primary ∧ (t, cell) ∈ cont.triggers
  size_eq : c.size = c.primary.length
  count_eq : c.triggersCount = (c.primary.map fun x => x.2.2.triggers.length).sum
  primary_below : c.primary.Below c.next
  lru_below : c.lru.Below c.next
  timeout_below : c.timeout.Below c.next
  triggers_below : c.triggers.Below c.next
  cells_below : ∀ t name cells, (t, name, cells) ∈ c.triggers → Cells.Below cells c.next

lemma linked_init (pages : ℕ) : Linked (init pages) := by
  constructor <;> simp [init, Cells.Distinct, Cells.Below]

/-! ## Unhooking an entry from its triggers -/

/-- The triggers without some cells; lists that get empty go away. -/
def strip (hooks : List (ℕ × ℕ)) (ts : Cells (Bytes × Cells ℕ)) : Cells (Bytes × Cells ℕ) :=
  (ts.map fun x => (x.1, x.2.1, x.2.2.filter fun y => (x.1, y.1) ∉ hooks)).filter fun x =>
    x.2.2 ≠ []

variable {cells : Cells ℕ} {hooks : List (ℕ × ℕ)} {name : Bytes} {t : ℕ}
  {ts : Cells (Bytes × Cells ℕ)} {cont : Container} {key : Bytes} {p q : ℕ} {l : Cells (ℤ × ℕ)}

lemma mem_strip : (t, name, cells) ∈ strip hooks ts ↔
      cells ≠ [] ∧ ∃ all, (t, name, all) ∈ ts ∧ cells = all.filter fun y => (t, y.1) ∉ hooks := by
  unfold strip
  rw [List.mem_filter, List.mem_map]
  constructor
  · rintro ⟨⟨⟨t', name', all⟩, hmem, heq⟩, hne⟩
    simp only [Prod.mk.injEq] at heq
    obtain ⟨rfl, rfl, rfl⟩ := heq
    exact ⟨by simpa using hne, all, hmem, rfl⟩
  · rintro ⟨hne, all, hmem, rfl⟩
    exact ⟨⟨(t, name, all), hmem, rfl⟩, by simpa using hne⟩

lemma strip_nil (hts : ∀ x ∈ ts, x.2.2 ≠ []) : strip [] ts = ts := by
  unfold strip
  have hmap :
    ts.map (fun x => (x.1, x.2.1, x.2.2.filter fun y => (x.1, y.1) ∉ ([] : List (ℕ × ℕ)))) =
      ts := by
    simp
  rw [hmap, List.filter_eq_self]
  exact fun x hx => by simpa using hts x hx

/-- Unhooking in two turns. -/
lemma strip_strip (hooks hooks' : List (ℕ × ℕ)) (ts : Cells (Bytes × Cells ℕ)) :
    strip hooks (strip hooks' ts) = strip (hooks' ++ hooks) ts := by
  unfold strip
  induction ts with
  | nil => rfl
  | cons x ts ih =>
    have hfilter : (x.2.2.filter fun y => (x.1, y.1) ∉ hooks').filter
      (fun y => (x.1, y.1) ∉ hooks) =
        x.2.2.filter fun y => (x.1, y.1) ∉ hooks' ++ hooks := by
      rw [List.filter_filter]
      congr 1
      funext y
      simp [and_comm]
    by_cases hx : (x.2.2.filter fun y => (x.1, y.1) ∉ hooks') = []
    · rw [List.map_cons, List.filter_cons_of_neg (by simpa using hx), ih, List.map_cons,
        List.filter_cons_of_neg]
      rw [← hfilter, hx]
      simp
    · rw [List.map_cons, List.filter_cons_of_pos (by simpa using hx), List.map_cons, List.map_cons,
        List.filter_cons, List.filter_cons, ih]
      dsimp only
      rw [hfilter]

/-- One round of the loop. -/
lemma unhook_round (cell : ℕ) (hts : ts.Distinct) (hne : ∀ x ∈ ts, x.2.2 ≠ [])
    (hmem : (t, name, cells) ∈ ts) :
    (if (cells.without cell).isEmpty then
        (ts.modify t fun node => (node.1, cells.without cell)).without t
      else ts.modify t fun node => (node.1, cells.without cell)) = strip [(t, cell)] ts := by
  have hmap : ts.modify t (fun node => (node.1, cells.without cell)) =
      ts.map fun x => (x.1, x.2.1, x.2.2.filter fun y => (x.1, y.1) ∉ [(t, cell)]) := by
    apply List.map_congr_left
    rintro ⟨t', name', cells'⟩ hx
    by_cases ht : t' = t
    · subst ht
      obtain ⟨rfl, rfl⟩ := Prod.mk.inj (hts.eq_of_mem hmem hx)
      simp [Cells.without]
    · simp [ht]
  unfold strip
  rw [hmap]
  split_ifs with hempty
  · unfold Cells.without
    apply List.filter_congr
    intro x hx
    obtain ⟨⟨t', name', cells'⟩, hx', rfl⟩ := List.mem_map.1 hx
    by_cases ht : t' = t
    · subst ht
      obtain ⟨rfl, rfl⟩ := Prod.mk.inj (hts.eq_of_mem hmem hx')
      simpa [Cells.without] using hempty
    · simpa [ht] using hne _ hx'
  · symm
    rw [List.filter_eq_self]
    intro x hx
    obtain ⟨⟨t', name', cells'⟩, hx', rfl⟩ := List.mem_map.1 hx
    by_cases ht : t' = t
    · subst ht
      obtain ⟨rfl, rfl⟩ := Prod.mk.inj (hts.eq_of_mem hmem hx')
      simpa [Cells.without] using hempty
    · simpa [ht] using hne _ hx'

lemma strip_distinct (hts : ts.Distinct) :
    (strip hooks ts).Distinct := by
  refine List.Nodup.sublist (List.filter_sublist.map _) ?_
  rw [List.map_map]
  exact hts

lemma strip_ne_nil :
    ∀ x ∈ strip hooks ts, x.2.2 ≠ [] := fun x hx =>
    (mem_strip.1 (show (x.1, x.2.1, x.2.2) ∈ _ from hx)).1

/-- The loop takes all cells of the entry out, if they are there. -/
lemma unhook_eq (count : ℕ) (hts : ts.Distinct)
    (hne : ∀ x ∈ ts, x.2.2 ≠ []) (hcells : ∀ t name cells, (t, name, cells) ∈ ts →
      Cells.Distinct cells)
    (hhooks : Cells.Distinct hooks)
    (hmem : ∀ t cell, (t, cell) ∈ hooks → ∃ name cells p, (t, name, cells) ∈ ts ∧
      (cell, p) ∈ cells) :
    unhook hooks ts count = some (strip hooks ts, count - hooks.length) := by
  induction hooks generalizing ts count with
  | nil => rw [strip_nil hne]; rfl
  | cons hook hooks ih =>
    obtain ⟨t, cell⟩ := hook
    obtain ⟨name, cells, p, ht, hcell⟩ := hmem t cell (List.mem_cons_self ..)
    obtain ⟨hfirst, hrest⟩ := List.nodup_cons.1 hhooks
    have hround := unhook_round cell hts hne ht
    have hkeep : ∀ t' cell', (t', cell') ∈ hooks →
        ∃ name cells p, (t', name, cells) ∈ strip [(t, cell)] ts ∧ (cell', p) ∈ cells := by
      intro t' cell' hhook
      obtain ⟨name', cells', p', ht', hcell'⟩ := hmem t' cell' (List.mem_cons_of_mem _ hhook)
      have htt : t' ≠ t := fun heq => hfirst (heq ▸ List.mem_map.2 ⟨_, hhook, rfl⟩)
      have hsame : cells' = cells'.filter fun y => (t', y.1) ∉ [(t, cell)] := by simp [htt]
      exact ⟨name', cells', p', mem_strip.2 ⟨hne _ ht', cells', ht', hsame⟩, hcell'⟩
    rw [unhook, hts.lookup ht, Option.bind_some, (hcells _ _ _ ht).without?_eq hcell,
      Option.bind_some]
    dsimp only
    rw [hround, ih (count - 1) (strip_distinct hts) strip_ne_nil ?_ hrest hkeep, strip_strip]
    · rw [List.length_cons, Nat.sub_sub, Nat.add_comm]
      rfl
    · intro t' name' cells' hmem'
      obtain ⟨-, all, hall, rfl⟩ := mem_strip.1 hmem'
      exact List.Nodup.sublist (List.filter_sublist.map _) (hcells _ _ _ hall)

lemma mem_strip_cell {t cell p : ℕ} :
    (∃ name cells, (t, name, cells) ∈ strip hooks ts ∧ (cell, p) ∈ cells) ↔
      (∃ name cells, (t, name, cells) ∈ ts ∧ (cell, p) ∈ cells) ∧ (t, cell) ∉ hooks := by
  constructor
  · rintro ⟨name, cells, hmem, hcell⟩
    obtain ⟨-, all, hall, rfl⟩ := mem_strip.1 hmem
    obtain ⟨hcell, hhook⟩ := List.mem_filter.1 hcell
    exact ⟨⟨name, all, hall, hcell⟩, by simpa using hhook⟩
  · rintro ⟨⟨name, all, hall, hcell⟩, hhook⟩
    have hmem : (cell, p) ∈ all.filter fun y => (t, y.1) ∉ hooks :=
      List.mem_filter.2 ⟨hcell, by simpa using hhook⟩
    exact ⟨name, _, mem_strip.2 ⟨List.ne_nil_of_mem hmem, all, hall, rfl⟩, hmem⟩

/-! ## Removing an entry -/

/-- The cache without an entry. -/
def purge (c : MemCache) (p : ℕ) (cont : Container) : MemCache :=
  { c with
    lru := c.lru.without cont.lru
    timeout := c.timeout.without cont.timeout
    triggers := strip cont.triggers c.triggers
    triggersCount := c.triggersCount - cont.triggers.length
    primary := c.primary.without p
    size := c.size - 1 }

namespace Linked

variable {p q : ℕ} {key : Bytes} {cont : Container}

/-- An entry is found by its handle only. -/
lemma entry_unique (h : c.Linked) (hp : (p, key, cont) ∈ c.primary) {key' : Bytes}
    {cont' : Container} (hp' : (p, key', cont') ∈ c.primary) : key' = key ∧ cont' = cont := by
  obtain ⟨rfl, rfl⟩ := Prod.mk.inj (h.primary_distinct.eq_of_mem hp hp')
  exact ⟨rfl, rfl⟩

lemma mem_lru (h : c.Linked) (hp : (p, key, cont) ∈ c.primary) : (cont.lru, p) ∈ c.lru :=
  (h.lru_iff _ _).2 ⟨key, cont, hp, rfl⟩

lemma mem_timeout (h : c.Linked) (hp : (p, key, cont) ∈ c.primary) :
    ∃ deadline, (cont.timeout, deadline, p) ∈ c.timeout :=
  (h.timeout_iff _ _).2 ⟨key, cont, hp, rfl⟩

variable {t cell : ℕ}

lemma mem_triggers (h : c.Linked) (hp : (p, key, cont) ∈ c.primary)
    (ht : (t, cell) ∈ cont.triggers) :
    ∃ name cells, (t, name, cells) ∈ c.triggers ∧ (cell, p) ∈ cells :=
  (h.triggers_iff _ _ _).2 ⟨key, cont, hp, ht⟩

/-- A cell in a list of a trigger has one entry. -/
lemma cell_unique (h : c.Linked) {name name' : Bytes} {cells cells' : Cells ℕ}
    (ht : (t, name, cells) ∈ c.triggers) (hcell : (cell, p) ∈ cells)
    (ht' : (t, name', cells') ∈ c.triggers) (hcell' : (cell, q) ∈ cells') : p = q := by
  obtain ⟨rfl, rfl⟩ := Prod.mk.inj (h.triggers_distinct.eq_of_mem ht ht')
  exact (h.cells_distinct _ _ _ ht).eq_of_mem hcell hcell'

/-- No iterator of an entry has been erased. -/
lemma deleteNode_eq (h : c.Linked) (hp : (p, key, cont) ∈ c.primary) :
    c.deleteNode p = some (c.purge p cont) := by
  obtain ⟨deadline, htimeout⟩ := h.mem_timeout hp
  have hunhook := unhook_eq c.triggersCount h.triggers_distinct
    (fun x hx => h.cells_ne_nil x.1 x.2.1 x.2.2 hx) h.cells_distinct (h.own_distinct _ _ _ hp) (by
      intro t cell ht
      obtain ⟨name, cells, hname, hcell⟩ := h.mem_triggers hp ht
      exact ⟨name, cells, p, hname, hcell⟩)
  rw [deleteNode, h.primary_distinct.lookup hp, Option.bind_some,
    h.lru_distinct.without?_eq (h.mem_lru hp), Option.bind_some,
    h.timeout_distinct.without?_eq htimeout, Option.bind_some, hunhook]
  rfl

/-- The links of the other entries stay. -/
lemma purge (h : c.Linked) (hp : (p, key, cont) ∈ c.primary) : (c.purge p cont).Linked where
  primary_distinct := h.primary_distinct.without p
  lru_distinct := h.lru_distinct.without _
  timeout_distinct := h.timeout_distinct.without _
  triggers_distinct := strip_distinct h.triggers_distinct
  cells_distinct := by
    intro t name cells hmem
    obtain ⟨-, all, hall, rfl⟩ := mem_strip.1 hmem
    exact List.Nodup.sublist (List.filter_sublist.map _) (h.cells_distinct _ _ _ hall)
  own_distinct := fun q key cont hq => h.own_distinct q key cont (Cells.mem_without.1 hq).1
  keys_nodup := List.Nodup.sublist (List.filter_sublist.map _) h.keys_nodup
  names_nodup := by
    refine List.Nodup.sublist (List.filter_sublist.map _) ?_
    rw [List.map_map]
    exact h.names_nodup
  sorted := h.sorted.sublist List.filter_sublist
  cells_ne_nil := fun t name cells hmem => (mem_strip.1 hmem).1
  lru_iff := by
    intro cell q
    constructor
    · intro hmem
      obtain ⟨hmem, hne⟩ := Cells.mem_without.1 hmem
      obtain ⟨key', cont', hq, rfl⟩ := (h.lru_iff _ _).1 hmem
      refine ⟨key', cont', Cells.mem_without.2 ⟨hq, ?_⟩, rfl⟩
      rintro rfl
      exact hne (by rw [(h.entry_unique hp hq).2])
    · rintro ⟨key', cont', hq, rfl⟩
      obtain ⟨hq, hne⟩ := Cells.mem_without.1 hq
      refine Cells.mem_without.2 ⟨h.mem_lru hq, ?_⟩
      intro heq
      have hsame := h.mem_lru hq
      rw [show cont'.lru = cont.lru from heq] at hsame
      exact hne (h.lru_distinct.eq_of_mem hsame (h.mem_lru hp))
  timeout_iff := by
    intro cell q
    constructor
    · rintro ⟨deadline, hmem⟩
      obtain ⟨hmem, hne⟩ := Cells.mem_without.1 hmem
      obtain ⟨key', cont', hq, rfl⟩ := (h.timeout_iff _ _).1 ⟨deadline, hmem⟩
      refine ⟨key', cont', Cells.mem_without.2 ⟨hq, ?_⟩, rfl⟩
      rintro rfl
      exact hne (by rw [(h.entry_unique hp hq).2])
    · rintro ⟨key', cont', hq, rfl⟩
      obtain ⟨hq, hne⟩ := Cells.mem_without.1 hq
      obtain ⟨deadline, hmem⟩ := h.mem_timeout hq
      refine ⟨deadline, Cells.mem_without.2 ⟨hmem, ?_⟩⟩
      intro heq
      obtain ⟨deadline', hsame⟩ := h.mem_timeout hp
      rw [show cont'.timeout = cont.timeout from heq] at hmem
      exact hne (Prod.mk.inj (h.timeout_distinct.eq_of_mem hmem hsame)).2
  triggers_iff := by
    intro t cell q
    rw [show (c.purge p cont).triggers = strip cont.triggers c.triggers from rfl, mem_strip_cell,
      h.triggers_iff]
    constructor
    · rintro ⟨⟨key', cont', hq, ht⟩, hhook⟩
      refine ⟨key', cont', Cells.mem_without.2 ⟨hq, ?_⟩, ht⟩
      rintro rfl
      exact hhook ((h.entry_unique hp hq).2 ▸ ht)
    · rintro ⟨key', cont', hq, ht⟩
      obtain ⟨hq, hne⟩ := Cells.mem_without.1 hq
      refine ⟨⟨key', cont', hq, ht⟩, ?_⟩
      intro hhook
      obtain ⟨name, cells, hname, hcell⟩ := h.mem_triggers hq ht
      obtain ⟨name', cells', hname', hcell'⟩ := h.mem_triggers hp hhook
      exact hne (h.cell_unique hname hcell hname' hcell')
  size_eq := by
    have hlen := h.primary_distinct.length_without hp
    have hsize := h.size_eq
    simp only [MemCache.purge]
    omega
  count_eq := by
    have hsum := h.primary_distinct.sum_without hp fun x => x.2.2.triggers.length
    have hcount := h.count_eq
    dsimp only [MemCache.purge] at hsum ⊢
    omega
  primary_below := fun x hx => h.primary_below x (Cells.mem_without.1 hx).1
  lru_below := fun x hx => h.lru_below x (Cells.mem_without.1 hx).1
  timeout_below := fun x hx => h.timeout_below x (Cells.mem_without.1 hx).1
  triggers_below := by
    intro x hx
    obtain ⟨-, all, hall, -⟩ := mem_strip.1 (show (x.1, x.2.1, x.2.2) ∈ strip _ _ from hx)
    exact h.triggers_below (x.1, x.2.1, all) hall
  cells_below := by
    intro t name cells hmem
    obtain ⟨-, all, hall, rfl⟩ := mem_strip.1 hmem
    exact fun x hx => h.cells_below _ _ _ hall x (List.mem_filter.1 hx).1

end Linked

/-! ## Using an entry -/

/-- The entry is the one that has been used last. -/
def touch (c : MemCache) (p : ℕ) (cont : Container) : MemCache :=
  { c with
    lru := (c.next, p) :: c.lru.without cont.lru
    primary := c.primary.modify p fun x => (x.1, { x.2 with lru := c.next })
    next := c.next + 1 }

/-- The entries after one of them has been changed. -/
lemma mem_modify_container (f : Container → Container) {l : Cells (Bytes × Container)} :
    (q, key, cont) ∈ l.modify p (fun x => (x.1, f x.2)) ↔
      ∃ old, (q, key, old) ∈ l ∧ cont = if q = p then f old else old := by
  rw [Cells.mem_modify]
  constructor
  · rintro ⟨⟨key', old⟩, hold, heq⟩
    split_ifs at heq with hqp
    · obtain ⟨rfl, rfl⟩ := Prod.mk.inj heq
      exact ⟨old, hold, by rw [if_pos hqp]⟩
    · obtain ⟨rfl, rfl⟩ := Prod.mk.inj heq
      exact ⟨cont, hold, by rw [if_neg hqp]⟩
  · rintro ⟨old, hold, rfl⟩
    refine ⟨(key, old), hold, ?_⟩
    split_ifs <;> rfl

lemma keys_modify_container (f : Container → Container) (l : Cells (Bytes × Container)) (p : ℕ) :
    (l.modify p fun x => (x.1, f x.2)).map (fun x => x.2.1) = l.map fun x => x.2.1 := by
  unfold Cells.modify
  rw [List.map_map]
  apply List.map_congr_left
  intro x _
  dsimp only [Function.comp]
  split_ifs <;> rfl

lemma mem_touch {cont cont' : Container} :
    (q, key, cont') ∈ (c.touch p cont).primary ↔
      ∃ old, (q, key, old) ∈ c.primary ∧
      cont' = if q = p then { old with lru := c.next } else old :=
  mem_modify_container fun old => { old with lru := c.next }

lemma Linked.touch (h : c.Linked) {p : ℕ} (hp : (p, key, cont) ∈ c.primary) :
    (c.touch p cont).Linked := by
  -- an entry keeps its deadline and its triggers
  have hkeep {q : ℕ} {P : Container → Prop}
    (hP : ∀ old : Container, P { old with lru := c.next } ↔ P old) :
      (∃ key' cont', (q, key', cont') ∈ (c.touch p cont).primary ∧ P cont') ↔
        ∃ key' cont', (q, key', cont') ∈ c.primary ∧ P cont' := by
    constructor
    · rintro ⟨key', cont', hq, hcont⟩
      obtain ⟨old, hold, rfl⟩ := mem_touch.1 hq
      refine ⟨key', old, hold, ?_⟩
      split_ifs at hcont
      · exact (hP old).1 hcont
      · exact hcont
    · rintro ⟨key', old, hold, hcont⟩
      refine ⟨key', _, mem_touch.2 ⟨old, hold, rfl⟩, ?_⟩
      split_ifs
      · exact (hP old).2 hcont
      · exact hcont
  constructor
  case primary_distinct =>
    exact h.primary_distinct.modify p fun x => (x.1, { x.2 with lru := c.next })
  case lru_distinct =>
    refine (h.lru_distinct.without cont.lru).cons ?_ p
    exact fun x hx => h.lru_below x (Cells.mem_without.1 hx).1
  case timeout_distinct => exact h.timeout_distinct
  case triggers_distinct => exact h.triggers_distinct
  case cells_distinct => exact h.cells_distinct
  case own_distinct =>
    intro q key' cont' hq
    obtain ⟨old, hold, rfl⟩ := mem_touch.1 hq
    have hown := h.own_distinct _ _ _ hold
    split_ifs <;> exact hown
  case keys_nodup =>
    unfold MemCache.touch
    rw [keys_modify_container fun old => { old with lru := c.next }]
    exact h.keys_nodup
  case names_nodup => exact h.names_nodup
  case sorted => exact h.sorted
  case cells_ne_nil => exact h.cells_ne_nil
  case lru_iff =>
    intro cell q
    constructor
    · intro hmem
      obtain heq | hmem := List.mem_cons.1 hmem
      · obtain ⟨rfl, rfl⟩ := Prod.mk.inj heq
        exact ⟨key, _, mem_touch.2 ⟨cont, hp, rfl⟩, by rw [if_pos rfl]⟩
      · obtain ⟨hmem, hne⟩ := Cells.mem_without.1 hmem
        obtain ⟨key', cont', hq, rfl⟩ := (h.lru_iff _ _).1 hmem
        have hqp : q ≠ p := by
          rintro rfl
          exact hne (by rw [(h.entry_unique hp hq).2])
        exact ⟨key', _, mem_touch.2 ⟨cont', hq, rfl⟩, by rw [if_neg hqp]⟩
    · rintro ⟨key', cont', hq, rfl⟩
      obtain ⟨old, hold, rfl⟩ := mem_touch.1 hq
      split_ifs with hqp
      · subst hqp
        exact List.mem_cons_self ..
      · refine List.mem_cons_of_mem _ (Cells.mem_without.2 ⟨h.mem_lru hold, ?_⟩)
        intro heq
        have hsame := h.mem_lru hold
        rw [show old.lru = cont.lru from heq] at hsame
        exact hqp (h.lru_distinct.eq_of_mem hsame (h.mem_lru hp))
  case timeout_iff =>
    intro cell q
    rw [hkeep fun _ => Iff.rfl]
    exact h.timeout_iff cell q
  case triggers_iff =>
    intro t cell q
    rw [hkeep fun _ => Iff.rfl]
    exact h.triggers_iff t cell q
  case size_eq =>
    unfold MemCache.touch
    rw [Cells.length_modify]
    exact h.size_eq
  case count_eq =>
    have hsum := h.primary_distinct.sum_modify hp (fun x => (x.1, { x.2 with lru := c.next }))
      fun x => x.2.2.triggers.length
    exact h.count_eq.trans (Nat.add_right_cancel hsum).symm
  case primary_below =>
    intro x hx
    obtain ⟨old, hold, -⟩ := mem_touch.1 (show (x.1, x.2.1, x.2.2) ∈ _ from hx)
    exact (h.primary_below (x.1, x.2.1, old) hold).trans (Nat.lt_succ_self _)
  case lru_below =>
    have hbelow : (c.lru.without cont.lru).Below c.next := fun x hx =>
      h.lru_below x (Cells.mem_without.1 hx).1
    exact hbelow.cons p
  case timeout_below => exact h.timeout_below.mono (Nat.le_succ _)
  case triggers_below => exact h.triggers_below.mono (Nat.le_succ _)
  case cells_below => exact fun t name cells hmem =>
    (h.cells_below t name cells hmem).mono (Nat.le_succ _)

/-! ## Inserting an entry -/

lemma mem_insertTimeout {x y : ℕ × ℤ × ℕ} :
    y ∈ insertTimeout l x ↔ y = x ∨ y ∈ l := List.mem_orderedInsert _

/-- The deadlines stay sorted. -/
lemma sorted_insertTimeout (hl : l.Pairwise fun x y => x.2.1 ≤ y.2.1) (x : ℕ × ℤ × ℕ) :
    (insertTimeout l x).Pairwise fun x y => x.2.1 ≤ y.2.1 := by
  unfold insertTimeout
  exact pairwise_orderedInsert_lt (fun x : ℕ × ℤ × ℕ => x.2.1) hl x

lemma mem_insertEntry {key key' data : Bytes} {timeout : ℤ} {gen : Option ℕ} {q : ℕ} :
    (q, key', cont) ∈ (c.insertEntry key data timeout gen).primary ↔
      (q = c.next ∧ key' = key ∧ cont = ⟨data, c.next, [], c.next, gen.getD c.generation⟩) ∨
        (q, key', cont) ∈ c.primary := by
  unfold insertEntry
  simp

/-- A new entry is linked, without any triggers. -/
lemma Linked.insertEntry (h : c.Linked) (hkey : ∀ p cont, (p, key, cont) ∉ c.primary) (data : Bytes)
    (timeout : ℤ) (gen : Option ℕ) : (c.insertEntry key data timeout gen).Linked := by
  constructor
  case primary_distinct => exact h.primary_distinct.cons h.primary_below _
  case lru_distinct => exact h.lru_distinct.cons h.lru_below _
  case timeout_distinct => exact h.timeout_distinct.orderedInsert h.timeout_below _ _
  case triggers_distinct => exact h.triggers_distinct
  case cells_distinct => exact h.cells_distinct
  case own_distinct =>
    intro q key' cont hq
    obtain ⟨-, -, rfl⟩ | hq := mem_insertEntry.1 hq
    · exact List.nodup_nil
    · exact h.own_distinct _ _ _ hq
  case keys_nodup =>
    refine List.nodup_cons.2 ⟨?_, h.keys_nodup⟩
    intro hmem
    obtain ⟨⟨p, key', cont⟩, hp, rfl⟩ := List.mem_map.1 hmem
    exact hkey p cont hp
  case names_nodup => exact h.names_nodup
  case sorted => exact sorted_insertTimeout h.sorted _
  case cells_ne_nil => exact h.cells_ne_nil
  case lru_iff =>
    intro cell q
    constructor
    · intro hmem
      obtain heq | hmem := List.mem_cons.1 hmem
      · obtain ⟨rfl, rfl⟩ := Prod.mk.inj heq
        exact ⟨key, _, mem_insertEntry.2 (.inl ⟨rfl, rfl, rfl⟩), rfl⟩
      · obtain ⟨key', cont, hq, hcell⟩ := (h.lru_iff _ _).1 hmem
        exact ⟨key', cont, mem_insertEntry.2 (.inr hq), hcell⟩
    · rintro ⟨key', cont, hq, rfl⟩
      obtain ⟨rfl, -, rfl⟩ | hq := mem_insertEntry.1 hq
      · exact List.mem_cons_self ..
      · exact List.mem_cons_of_mem _ (h.mem_lru hq)
  case timeout_iff =>
    intro cell q
    constructor
    · rintro ⟨deadline, hmem⟩
      obtain heq | hmem := mem_insertTimeout.1 hmem
      · simp only [Prod.mk.injEq] at heq
        obtain ⟨rfl, -, rfl⟩ := heq
        exact ⟨key, _, mem_insertEntry.2 (.inl ⟨rfl, rfl, rfl⟩), rfl⟩
      · obtain ⟨key', cont, hq, hcell⟩ := (h.timeout_iff _ _).1 ⟨deadline, hmem⟩
        exact ⟨key', cont, mem_insertEntry.2 (.inr hq), hcell⟩
    · rintro ⟨key', cont, hq, rfl⟩
      obtain ⟨rfl, -, rfl⟩ | hq := mem_insertEntry.1 hq
      · exact ⟨timeout, mem_insertTimeout.2 (.inl rfl)⟩
      · obtain ⟨deadline, hmem⟩ := h.mem_timeout hq
        exact ⟨deadline, mem_insertTimeout.2 (.inr hmem)⟩
  case triggers_iff =>
    intro t cell q
    refine (h.triggers_iff t cell q).trans ⟨?_, ?_⟩
    · rintro ⟨key', cont, hq, ht⟩
      exact ⟨key', cont, mem_insertEntry.2 (.inr hq), ht⟩
    · rintro ⟨key', cont, hq, ht⟩
      obtain ⟨-, -, rfl⟩ | hq := mem_insertEntry.1 hq
      · cases ht
      · exact ⟨key', cont, hq, ht⟩
  case size_eq => exact congrArg (· + 1) h.size_eq
  case count_eq => exact h.count_eq.trans (Nat.zero_add _).symm
  case primary_below => exact h.primary_below.cons _
  case lru_below => exact h.lru_below.cons _
  case timeout_below =>
    intro x hx
    obtain rfl | hx := mem_insertTimeout.1 hx
    · exact Nat.lt_succ_self _
    · exact (h.timeout_below x hx).trans (Nat.lt_succ_self _)
  case triggers_below => exact h.triggers_below.mono (Nat.le_succ _)
  case cells_below => exact fun t name cells hmem =>
    (h.cells_below t name cells hmem).mono (Nat.le_succ _)

/-! ## Adding a trigger -/

lemma find_cells {c : MemCache} {name' : Bytes} (h : c.findTrigger name = some (t, name', cells)) :
    name' = name ∧ (t, name', cells) ∈ c.triggers :=
  ⟨by simpa using List.find?_some h, List.mem_of_find?_eq_some h⟩

/-- The list of a trigger is there; only if it is new, it may be empty. -/
structure HasTrigger (c : MemCache) (name : Bytes) (t : ℕ) (ts : Cells (Bytes × Cells ℕ))
    (next : ℕ) :
    Prop where
  distinct : ts.Distinct
  cells_distinct : ∀ t' name' cells, (t', name', cells) ∈ ts → Cells.Distinct cells
  names_nodup : (ts.map fun x => x.2.1).Nodup
  cells_ne_nil : ∀ t' name' cells, (t', name', cells) ∈ ts → t' ≠ t → cells ≠ []
  mem : ∃ cells, (t, name, cells) ∈ ts
  cell_iff : ∀ t' cell p, (∃ name' cells, (t', name', cells) ∈ ts ∧ (cell, p) ∈ cells) ↔
    ∃ name' cells, (t', name', cells) ∈ c.triggers ∧ (cell, p) ∈ cells
  subset : ∀ x ∈ c.triggers, x ∈ ts
  next_le : c.next ≤ next
  below : ts.Below next
  cells_below : ∀ t' name' cells, (t', name', cells) ∈ ts → Cells.Below cells next

/-- `triggers.insert` finds the list of a name or makes a new one. -/
lemma Linked.insertTrigger (h : c.Linked) (name : Bytes) :
    ∃ t ts next, c.insertTrigger name = (t, { c with triggers := ts, next := next }) ∧
      HasTrigger c name t ts next := by
  unfold MemCache.insertTrigger
  cases hfind : c.findTrigger name with
  | some x =>
    obtain ⟨t, name', cells⟩ := x
    obtain ⟨rfl, hmem⟩ := find_cells hfind
    refine ⟨t, c.triggers, c.next, rfl, h.triggers_distinct, h.cells_distinct, h.names_nodup,
      fun t' name cells hmem _ => h.cells_ne_nil t' name cells hmem, ⟨cells, hmem⟩, fun _ _ _ =>
      Iff.rfl, fun _ hx => hx, le_refl _, h.triggers_below, h.cells_below⟩
  | none =>
    have hnone : ∀ x ∈ c.triggers, x.2.1 ≠ name := by simpa using List.find?_eq_none.1 hfind
    have hmem {t' : ℕ} {name' : Bytes} {cells : Cells ℕ} :
        (t', name', cells) ∈ ((c.next, name, []) :: c.triggers : Cells (Bytes × Cells ℕ)) ↔
          (t' = c.next ∧ name' = name ∧ cells = []) ∨ (t', name', cells) ∈ c.triggers := by
      simp
    refine ⟨c.next, (c.next, name, []) :: c.triggers, c.next + 1, rfl, ?_⟩
    constructor
    case distinct => exact h.triggers_distinct.cons h.triggers_below _
    case cells_distinct =>
      intro t' name' cells ht'
      obtain ⟨-, -, rfl⟩ | ht' := hmem.1 ht'
      · exact List.nodup_nil
      · exact h.cells_distinct _ _ _ ht'
    case names_nodup =>
      refine List.nodup_cons.2 ⟨?_, h.names_nodup⟩
      intro hname
      obtain ⟨x, hx, heq⟩ := List.mem_map.1 hname
      exact hnone x hx heq
    case cells_ne_nil =>
      intro t' name' cells ht' hne
      obtain ⟨heq, -, -⟩ | ht' := hmem.1 ht'
      · exact absurd heq hne
      · exact h.cells_ne_nil _ _ _ ht'
    case mem => exact ⟨[], List.mem_cons_self ..⟩
    case cell_iff =>
      intro t' cell p
      constructor
      · rintro ⟨name', cells, ht', hcell⟩
        obtain ⟨-, -, rfl⟩ | ht' := hmem.1 ht'
        · cases hcell
        · exact ⟨name', cells, ht', hcell⟩
      · rintro ⟨name', cells, ht', hcell⟩
        exact ⟨name', cells, hmem.2 (.inr ht'), hcell⟩
    case subset => exact fun x hx => List.mem_cons_of_mem _ hx
    case next_le => exact Nat.le_succ _
    case below => exact h.triggers_below.cons _
    case cells_below =>
      intro t' name' cells ht'
      obtain ⟨-, -, rfl⟩ | ht' := hmem.1 ht'
      · exact fun x hx => by cases hx
      · exact (h.cells_below _ _ _ ht').mono (Nat.le_succ _)

/-- The cache after an entry has been put into the list of a trigger. -/
def hook (c : MemCache) (p t : ℕ) (ts : Cells (Bytes × Cells ℕ)) (next : ℕ) : MemCache :=
  { c with
    triggers := ts.modify t fun node => (node.1, (next, p) :: node.2)
    primary := c.primary.modify p fun x =>
      (x.1, { x.2 with triggers := x.2.triggers ++ [(t, next)] })
    triggersCount := c.triggersCount + 1
    next := next + 1 }

lemma addTrigger_eq {p t next : ℕ}
    (h : c.insertTrigger name = (t, { c with triggers := ts, next := next })) :
    addTrigger p c name = c.hook p t ts next := by
  unfold addTrigger
  rw [h]
  rfl

lemma mem_hook {p q t next : ℕ} :
    (q, key, cont) ∈ (c.hook p t ts next).primary ↔
      ∃ old, (q, key, old) ∈ c.primary ∧
        cont = if q = p then { old with triggers := old.triggers ++ [(t, next)] } else old :=
  mem_modify_container fun old => { old with triggers := old.triggers ++ [(t, next)] }

lemma mem_hook_triggers {p t t' next : ℕ} : (t', name, cells) ∈ (c.hook p t ts next).triggers ↔
      ∃ old, (t', name, old) ∈ ts ∧ cells = if t' = t then (next, p) :: old else old := by
  unfold hook
  rw [Cells.mem_modify]
  constructor
  · rintro ⟨⟨name', old⟩, hold, heq⟩
    split_ifs at heq with htt
    · obtain ⟨rfl, rfl⟩ := Prod.mk.inj heq
      exact ⟨old, hold, by rw [if_pos htt]⟩
    · obtain ⟨rfl, rfl⟩ := Prod.mk.inj heq
      exact ⟨cells, hold, by rw [if_neg htt]⟩
  · rintro ⟨old, hold, rfl⟩
    refine ⟨(name, old), hold, ?_⟩
    split_ifs <;> rfl

/-- Hooking an entry to a trigger that it does not have yet keeps the links. -/
lemma Linked.hook (h : c.Linked) {p t next : ℕ} {name key : Bytes}
    (hts : HasTrigger c name t ts next) (hp : (p, key, cont) ∈ c.primary)
    (hnew : ∀ cell, (t, cell) ∉ cont.triggers) : (c.hook p t ts next).Linked := by
  -- an entry keeps its cells in `lru` and in `timeout`
  have hkeep {q : ℕ} {P : Container → Prop}
      (hP : ∀ old : Container, P { old with triggers := old.triggers ++ [(t, next)] } ↔ P old) :
      (∃ key' cont', (q, key', cont') ∈ (c.hook p t ts next).primary ∧ P cont') ↔
        ∃ key' cont', (q, key', cont') ∈ c.primary ∧ P cont' := by
    constructor
    · rintro ⟨key', cont', hq, hcont⟩
      obtain ⟨old, hold, rfl⟩ := mem_hook.1 hq
      refine ⟨key', old, hold, ?_⟩
      split_ifs at hcont
      · exact (hP old).1 hcont
      · exact hcont
    · rintro ⟨key', old, hold, hcont⟩
      refine ⟨key', _, mem_hook.2 ⟨old, hold, rfl⟩, ?_⟩
      split_ifs
      · exact (hP old).2 hcont
      · exact hcont
  constructor
  case primary_distinct =>
    exact h.primary_distinct.modify p fun x =>
      (x.1, { x.2 with triggers := x.2.triggers ++ [(t, next)] })
  case lru_distinct => exact h.lru_distinct
  case timeout_distinct => exact h.timeout_distinct
  case triggers_distinct => exact hts.distinct.modify t fun node => (node.1, (next, p) :: node.2)
  case cells_distinct =>
    intro t' name' cells ht'
    obtain ⟨old, hold, rfl⟩ := mem_hook_triggers.1 ht'
    split_ifs
    · exact (hts.cells_distinct _ _ _ hold).cons (hts.cells_below _ _ _ hold) p
    · exact hts.cells_distinct _ _ _ hold
  case own_distinct =>
    intro q key' cont' hq
    obtain ⟨old, hold, rfl⟩ := mem_hook.1 hq
    have hown := h.own_distinct _ _ _ hold
    split_ifs with hqp
    · subst hqp
      obtain rfl := (h.entry_unique hp hold).2
      unfold Cells.Distinct
      rw [List.map_append, List.map_cons, List.map_nil]
      refine List.nodup_append.2 ⟨hown, List.nodup_singleton _, ?_⟩
      intro a ha b hb heq
      obtain rfl := List.mem_singleton.1 hb
      obtain ⟨⟨t', cell⟩, hcell, rfl⟩ := List.mem_map.1 ha
      exact hnew cell (heq ▸ hcell)
    · exact hown
  case keys_nodup =>
    unfold MemCache.hook
    rw [keys_modify_container fun old => { old with triggers := old.triggers ++ [(t, next)] }]
    exact h.keys_nodup
  case names_nodup =>
    have hmap : (c.hook p t ts next).triggers.map (fun x => x.2.1) = ts.map fun x => x.2.1 := by
      unfold MemCache.hook Cells.modify
      rw [List.map_map]
      apply List.map_congr_left
      intro x _
      dsimp only [Function.comp]
      split_ifs <;> rfl
    rw [hmap]
    exact hts.names_nodup
  case sorted => exact h.sorted
  case cells_ne_nil =>
    intro t' name' cells ht'
    obtain ⟨old, hold, rfl⟩ := mem_hook_triggers.1 ht'
    split_ifs with htt
    · simp
    · exact hts.cells_ne_nil _ _ _ hold htt
  case lru_iff =>
    intro cell q
    rw [hkeep fun _ => Iff.rfl]
    exact h.lru_iff cell q
  case timeout_iff =>
    intro cell q
    rw [hkeep fun _ => Iff.rfl]
    exact h.timeout_iff cell q
  case triggers_iff =>
    intro t' cell q
    constructor
    · rintro ⟨name', cells, ht', hcell⟩
      obtain ⟨old, hold, rfl⟩ := mem_hook_triggers.1 ht'
      by_cases hnew' : t' = t ∧ (cell, q) = (next, p)
      · obtain ⟨rfl, heq⟩ := hnew'
        obtain ⟨rfl, rfl⟩ := Prod.mk.inj heq
        exact ⟨key, _, mem_hook.2 ⟨cont, hp, rfl⟩, by simp⟩
      · have hcell' : (cell, q) ∈ old := by
          split_ifs at hcell with htt
          · exact (List.mem_cons.1 hcell).resolve_left fun heq => hnew' ⟨htt, heq⟩
          · exact hcell
        obtain ⟨key', cont', hq, ht⟩ := (h.triggers_iff _ _ _).1
          ((hts.cell_iff _ _ _).1 ⟨name', old, hold, hcell'⟩)
        refine ⟨key', _, mem_hook.2 ⟨cont', hq, rfl⟩, ?_⟩
        split_ifs
        · exact List.mem_append_left _ ht
        · exact ht
    · rintro ⟨key', cont', hq, ht⟩
      obtain ⟨old, hold, rfl⟩ := mem_hook.1 hq
      by_cases hnew' : q = p ∧ (t', cell) = (t, next)
      · obtain ⟨rfl, heq⟩ := hnew'
        obtain ⟨rfl, rfl⟩ := Prod.mk.inj heq
        obtain ⟨cells, hcells⟩ := hts.mem
        exact ⟨name, _, mem_hook_triggers.2 ⟨cells, hcells, rfl⟩, by simp⟩
      · have ht' : (t', cell) ∈ old.triggers := by
          split_ifs at ht with hqp
          · exact (List.mem_append.1 ht).resolve_right fun heq =>
              hnew' ⟨hqp, by simpa using heq⟩
          · exact ht
        obtain ⟨name', cells, hcells, hcell⟩ := (hts.cell_iff _ _ _).2 (h.mem_triggers hold ht')
        refine ⟨name', _, mem_hook_triggers.2 ⟨cells, hcells, rfl⟩, ?_⟩
        split_ifs
        · exact List.mem_cons_of_mem _ hcell
        · exact hcell
  case size_eq =>
    unfold MemCache.hook
    rw [Cells.length_modify]
    exact h.size_eq
  case count_eq =>
    have hsum := h.primary_distinct.sum_modify hp
      (fun x => (x.1, { x.2 with triggers := x.2.triggers ++ [(t, next)] }))
      fun x => x.2.2.triggers.length
    have hcount := h.count_eq
    dsimp only [MemCache.hook] at hsum ⊢
    rw [List.length_append, List.length_singleton] at hsum
    omega
  case primary_below =>
    intro x hx
    obtain ⟨old, hold, -⟩ := mem_hook.1 (show (x.1, x.2.1, x.2.2) ∈ _ from hx)
    exact (h.primary_below (x.1, x.2.1, old) hold).trans_le (hts.next_le.trans (Nat.le_succ _))
  case lru_below => exact h.lru_below.mono (hts.next_le.trans (Nat.le_succ _))
  case timeout_below => exact h.timeout_below.mono (hts.next_le.trans (Nat.le_succ _))
  case triggers_below =>
    intro x hx
    obtain ⟨old, hold, -⟩ := mem_hook_triggers.1 (show (x.1, x.2.1, x.2.2) ∈ _ from hx)
    exact (hts.below (x.1, x.2.1, old) hold).trans (Nat.lt_succ_self _)
  case cells_below =>
    intro t' name' cells ht'
    obtain ⟨old, hold, rfl⟩ := mem_hook_triggers.1 ht'
    split_ifs
    · exact (hts.cells_below _ _ _ hold).cons p
    · exact (hts.cells_below _ _ _ hold).mono (Nat.le_succ _)

end MemCache

end Cache

end Cppcms
