import Cppcms.Cache.Links

/-!
# What the containers of the cache stand for

A cache stands for the list of its entries, the one that was used last first (`Rep`).  Every
operation on the containers is an operation on this list, and under `Rep` it never fails.
-/

namespace Cppcms

namespace Cache

namespace MemCache

variable {c : MemCache}

/-! ## Single entries -/

/-- The containers hold an entry. -/
def HasEntry (c : MemCache) (p : ℕ) (key : Bytes) (e : Entry) : Prop :=
  ∃ cont, (p, key, cont) ∈ c.primary ∧ cont.data = e.data ∧ cont.generation = e.generation ∧
    (cont.timeout, e.timeout, p) ∈ c.timeout ∧
    ∀ name, name ∈ e.triggers ↔
      ∃ t cell cells, (t, cell) ∈ cont.triggers ∧ (t, name, cells) ∈ c.triggers

namespace HasEntry

variable {p q : ℕ} {key key' : Bytes} {e : Entry} {cont : Container}

/-- The other entries stay. -/
lemma purge (he : c.HasEntry q key' e) (h : c.Linked) (hp : (p, key, cont) ∈ c.primary)
    (hqp : q ≠ p) :
    (c.purge p cont).HasEntry q key' e := by
  obtain ⟨cont', hq, hdata, hgen, htimeout, htriggers⟩ := he
  refine ⟨cont', Cells.mem_without.2 ⟨hq, hqp⟩, hdata, hgen, Cells.mem_without.2 ⟨htimeout, ?_⟩, ?_⟩
  · intro heq
    obtain ⟨deadline, hsame⟩ := h.mem_timeout hp
    rw [show cont'.timeout = cont.timeout from heq] at htimeout
    exact hqp (Prod.mk.inj (h.timeout_distinct.eq_of_mem htimeout hsame)).2
  · intro name
    rw [htriggers]
    constructor
    · rintro ⟨t, cell, cells, ht, hcells⟩
      have hcell :
          (∃ name cells, (t, name, cells) ∈ (c.purge p cont).triggers ∧ (cell, q) ∈ cells) :=
        ((h.purge hp).triggers_iff t cell q).2 ⟨key', cont', Cells.mem_without.2 ⟨hq, hqp⟩, ht⟩
      obtain ⟨name', cells', hcells', -⟩ := hcell
      obtain ⟨-, all, hall, -⟩ := mem_strip.1 hcells'
      obtain ⟨rfl, -⟩ := Prod.mk.inj (h.triggers_distinct.eq_of_mem hcells hall)
      exact ⟨t, cell, cells', ht, hcells'⟩
    · rintro ⟨t, cell, cells, ht, hcells⟩
      obtain ⟨-, all, hall, -⟩ := mem_strip.1 hcells
      exact ⟨t, cell, all, ht, hall⟩

/-- Using an entry does not change what it holds. -/
lemma touch (he : c.HasEntry q key' e) (p : ℕ) (cont : Container) :
    (c.touch p cont).HasEntry q key' e := by
  obtain ⟨cont', hq, hdata, hgen, htimeout, htriggers⟩ := he
  refine ⟨_, mem_touch.2 ⟨cont', hq, rfl⟩, ?_⟩
  split_ifs
  · exact ⟨hdata, hgen, htimeout, htriggers⟩
  · exact ⟨hdata, hgen, htimeout, htriggers⟩

lemma insertEntry (he : c.HasEntry q key' e) (key data : Bytes) (timeout : ℤ) (gen : Option ℕ) :
    (c.insertEntry key data timeout gen).HasEntry q key' e := by
  obtain ⟨cont', hq, hdata, hgen, htimeout, htriggers⟩ := he
  exact ⟨cont', mem_insertEntry.2 (.inr hq), hdata, hgen,
    mem_insertTimeout.2 (.inr htimeout), htriggers⟩

/-- The new entry. -/
lemma insertEntry_self (c : MemCache) (key data : Bytes) (timeout : ℤ) (gen : Option ℕ) :
    (c.insertEntry key data timeout gen).HasEntry c.next key
      ⟨data, ∅, timeout, gen.getD c.generation⟩ := by
  refine ⟨_, mem_insertEntry.2 (.inl ⟨rfl, rfl, rfl⟩), rfl, rfl, mem_insertTimeout.2 (.inl rfl), ?_⟩
  intro name
  constructor
  · exact fun hname => absurd hname SortedSet.not_mem_empty
  · rintro ⟨t, cell, cells, ht, -⟩
    cases ht

section Hook

variable {t next : ℕ} {name : Bytes} {ts : Cells (Bytes × Cells ℕ)}

/-- The names of the triggers of an entry are the same after another trigger has been added. -/
lemma hook_names (h : c.Linked) (hts : HasTrigger c name t ts next)
    (hq : (q, key', cont) ∈ c.primary) (p : ℕ) (name' : Bytes) :
    (∃ t' cell cells, (t', cell) ∈ cont.triggers ∧
      (t', name', cells) ∈ (c.hook p t ts next).triggers) ↔
      ∃ t' cell cells, (t', cell) ∈ cont.triggers ∧ (t', name', cells) ∈ c.triggers := by
  constructor
  · rintro ⟨t', cell, cells, ht', hcells⟩
    obtain ⟨old, hold, -⟩ := mem_hook_triggers.1 hcells
    obtain ⟨name'', cells'', hcells'', -⟩ := h.mem_triggers hq ht'
    obtain ⟨rfl, -⟩ := Prod.mk.inj (hts.distinct.eq_of_mem hold (hts.subset _ hcells''))
    exact ⟨t', cell, cells'', ht', hcells''⟩
  · rintro ⟨t', cell, cells, ht', hcells⟩
    exact ⟨t', cell, _, ht', mem_hook_triggers.2 ⟨cells, hts.subset _ hcells, rfl⟩⟩

lemma hook (he : c.HasEntry q key' e) (h : c.Linked) (hts : HasTrigger c name t ts next)
    (hqp : q ≠ p) :
    (c.hook p t ts next).HasEntry q key' e := by
  obtain ⟨cont', hq, hdata, hgen, htimeout, htriggers⟩ := he
  refine ⟨cont', mem_hook.2 ⟨cont', hq, by rw [if_neg hqp]⟩, hdata, hgen, htimeout, ?_⟩
  intro name'
  rw [htriggers, hook_names h hts hq]

/-- The entry has the new trigger. -/
lemma hook_self (he : c.HasEntry p key e) (h : c.Linked) (hts : HasTrigger c name t ts next) :
    (c.hook p t ts next).HasEntry p key { e with triggers := e.triggers.insert name } := by
  obtain ⟨cont', hp, hdata, hgen, htimeout, htriggers⟩ := he
  refine ⟨_, mem_hook.2 ⟨cont', hp, rfl⟩, ?_⟩
  rw [if_pos rfl]
  refine ⟨hdata, hgen, htimeout, ?_⟩
  intro name'
  rw [SortedSet.mem_insert, htriggers, ← hook_names h hts hp p]
  constructor
  · rintro (rfl | ⟨t', cell, cells, ht', hcells⟩)
    · obtain ⟨cells, hcells⟩ := hts.mem
      exact ⟨t, next, _, List.mem_append_right _ (List.mem_singleton.2 rfl),
        mem_hook_triggers.2 ⟨cells, hcells, rfl⟩⟩
    · exact ⟨t', cell, cells, List.mem_append_left _ ht', hcells⟩
  · rintro ⟨t', cell, cells, ht', hcells⟩
    obtain ht' | ht' := List.mem_append.1 ht'
    · exact .inr ⟨t', cell, cells, ht', hcells⟩
    · obtain ⟨rfl, -⟩ := Prod.mk.inj (List.mem_singleton.1 ht')
      obtain ⟨old, hold, -⟩ := mem_hook_triggers.1 hcells
      obtain ⟨cells', hcells'⟩ := hts.mem
      obtain ⟨rfl, -⟩ := Prod.mk.inj (hts.distinct.eq_of_mem hold hcells')
      exact .inl rfl

end Hook

end HasEntry

/-! ## The list of all entries -/

/-- Each entry has one cell in `lru`. -/
lemma Linked.lru_nodup (h : c.Linked) : (c.lru.map Prod.snd).Nodup := by
  refine List.Nodup.map_on ?_ h.lru_distinct.of_map
  rintro ⟨cell, p⟩ hx ⟨cell', q⟩ hy (rfl : p = q)
  obtain ⟨key, cont, hp, rfl⟩ := (h.lru_iff _ _).1 hx
  obtain ⟨key', cont', hp', rfl⟩ := (h.lru_iff _ _).1 hy
  rw [(h.entry_unique hp hp').2]

/-- Each entry has one cell in a list of a trigger. -/
lemma Linked.cells_nodup (h : c.Linked) {t : ℕ} {name : Bytes} {cells : Cells ℕ}
    (ht : (t, name, cells) ∈ c.triggers) : (cells.map Prod.snd).Nodup := by
  refine List.Nodup.map_on ?_ (h.cells_distinct _ _ _ ht).of_map
  rintro ⟨cell, p⟩ hx ⟨cell', q⟩ hy (rfl : p = q)
  obtain ⟨key, cont, hp, hcell⟩ := (h.triggers_iff _ _ _).1 ⟨name, cells, ht, hx⟩
  obtain ⟨key', cont', hp', hcell'⟩ := (h.triggers_iff _ _ _).1 ⟨name, cells, ht, hy⟩
  rw [(h.entry_unique hp hp').2] at hcell'
  rw [(h.own_distinct _ _ _ hp).eq_of_mem hcell hcell']

/-- The cache stands for a list of entries, the one that was used last first. -/
structure Rep (c : MemCache) (a : Cells (Bytes × Entry)) : Prop where
  linked : c.Linked
  lru : c.lru.map Prod.snd = a.map Prod.fst
  entries : ∀ p key e, (p, key, e) ∈ a → c.HasEntry p key e
  own : ∀ p key e, (p, key, e) ∈ a → key ∈ e.triggers

/-- The limit and the counter of the generations stay. -/
structure SameCounters (c c' : MemCache) : Prop where
  limit : c'.limit = c.limit
  generation : c'.generation = c.generation

lemma SameCounters.refl (c : MemCache) : SameCounters c c := ⟨rfl, rfl⟩

lemma SameCounters.trans {c' c'' : MemCache} (h : SameCounters c c') (h' : SameCounters c' c'') :
    SameCounters c c'' := ⟨h'.limit.trans h.limit, h'.generation.trans h.generation⟩

lemma rep_init (pages : ℕ) : (init pages).Rep [] :=
  ⟨linked_init pages, rfl, by simp, by simp⟩

lemma rep_clear (c : MemCache) : c.clear.Rep [] := by
  refine ⟨?_, rfl, by simp, by simp⟩
  constructor <;> simp [clear, Cells.Distinct, Cells.Below]

namespace Rep

variable {a : Cells (Bytes × Entry)} {p : ℕ} {key : Bytes} {e : Entry}

lemma distinct (h : c.Rep a) : a.Distinct := by
  unfold Cells.Distinct
  rw [← h.lru]
  exact h.linked.lru_nodup

variable {cont : Container} {now : ℤ}

lemma mem_of_primary (h : c.Rep a) (hp : (p, key, cont) ∈ c.primary) :
    ∃ e, (p, key, e) ∈ a := by
  have hmem : p ∈ a.map Prod.fst := by
    rw [← h.lru]
    exact List.mem_map.2 ⟨_, h.linked.mem_lru hp, rfl⟩
  obtain ⟨⟨q, key', e⟩, ha, rfl⟩ := List.mem_map.1 hmem
  obtain ⟨cont', hp', -⟩ := h.entries _ _ _ ha
  obtain ⟨rfl, -⟩ := h.linked.entry_unique hp hp'
  exact ⟨e, ha⟩

/-- No two entries have the same key. -/
lemma eq_of_key (h : c.Rep a) {q : ℕ} {e' : Entry} (hp : (p, key, e) ∈ a) (hq : (q, key, e') ∈ a) :
    q = p ∧ e' = e := by
  obtain ⟨cont, hcont, -⟩ := h.entries _ _ _ hp
  obtain ⟨cont', hcont', -⟩ := h.entries _ _ _ hq
  have heq := List.inj_on_of_nodup_map h.linked.keys_nodup hcont hcont' rfl
  obtain ⟨rfl, -⟩ := Prod.mk.inj heq
  obtain ⟨-, rfl⟩ := Prod.mk.inj (h.distinct.eq_of_mem hp hq)
  exact ⟨rfl, rfl⟩

lemma keys_nodup (h : c.Rep a) : (a.map fun x => x.2.1).Nodup := by
  refine List.Nodup.map_on ?_ h.distinct.of_map
  rintro ⟨p, key, e⟩ hx ⟨q, key', e'⟩ hy (rfl : key = key')
  obtain ⟨rfl, rfl⟩ := h.eq_of_key hx hy
  rfl

lemma size_eq (h : c.Rep a) : c.size = a.length := by
  have hperm : (c.primary.map Prod.fst).Perm (a.map Prod.fst) := by
    rw [List.perm_ext_iff_of_nodup h.linked.primary_distinct h.distinct]
    intro p
    constructor
    · intro hp
      obtain ⟨⟨q, key, cont⟩, hq, rfl⟩ := List.mem_map.1 hp
      obtain ⟨e, he⟩ := h.mem_of_primary hq
      exact List.mem_map.2 ⟨_, he, rfl⟩
    · intro hp
      obtain ⟨⟨q, key, e⟩, hq, rfl⟩ := List.mem_map.1 hp
      obtain ⟨cont, hcont, -⟩ := h.entries _ _ _ hq
      exact List.mem_map.2 ⟨_, hcont, rfl⟩
  have hlen := hperm.length_eq
  rw [List.length_map, List.length_map] at hlen
  rw [h.linked.size_eq, hlen]

/-! ## Finding and removing -/

lemma find_eq_some (h : c.Rep a) (hp : (p, key, e) ∈ a) :
    ∃ cont, c.find key = some (p, key, cont) ∧ (p, key, cont) ∈ c.primary := by
  obtain ⟨cont, hcont, -⟩ := h.entries _ _ _ hp
  refine ⟨cont, ?_, hcont⟩
  cases hfind : c.find key with
  | none =>
    have hne := List.find?_eq_none.1 hfind _ hcont
    simp at hne
  | some x =>
    obtain ⟨q, key', cont'⟩ := x
    obtain rfl : key' = key := by simpa using List.find?_some hfind
    have hq := List.mem_of_find?_eq_some hfind
    rw [List.inj_on_of_nodup_map h.linked.keys_nodup hcont hq rfl]

lemma find_eq_none (h : c.Rep a) (hkey : ∀ p e, (p, key, e) ∉ a) : c.find key = none := by
  unfold MemCache.find
  rw [List.find?_eq_none]
  rintro ⟨p, key', cont⟩ hp hkey'
  obtain rfl : key' = key := by simpa using hkey'
  obtain ⟨e, he⟩ := h.mem_of_primary hp
  exact hkey p e he

/-- Removing an entry takes it out of the list. -/
lemma deleteNode (h : c.Rep a) (hp : (p, key, e) ∈ a) :
    ∃ c', c.deleteNode p = some c' ∧ c'.Rep (a.without p) ∧ SameCounters c c' := by
  obtain ⟨cont, hcont, -⟩ := h.entries _ _ _ hp
  refine ⟨c.purge p cont, h.linked.deleteNode_eq hcont,
    ⟨h.linked.purge hcont, ?_, ?_, ?_⟩, rfl, rfl⟩
  · have hfilter : c.lru.without cont.lru = c.lru.filter fun x => x.2 ≠ p := by
      apply List.filter_congr
      rintro ⟨cell, q⟩ hx
      have hiff : cell = cont.lru ↔ q = p := by
        constructor
        · rintro rfl
          exact h.linked.lru_distinct.eq_of_mem hx (h.linked.mem_lru hcont)
        · rintro rfl
          obtain ⟨key', cont', hq, rfl⟩ := (h.linked.lru_iff _ _).1 hx
          rw [(h.linked.entry_unique hcont hq).2]
      simp [hiff]
    have hmap : (c.lru.filter fun x => x.2 ≠ p).map Prod.snd =
        (a.filter fun x => x.1 ≠ p).map Prod.fst := by
      have hl := List.filter_map (f := Prod.snd) (p := fun q => decide (q ≠ p)) (l := c.lru)
      have hr := List.filter_map (f := Prod.fst) (p := fun q => decide (q ≠ p)) (l := a)
      rw [h.lru] at hl
      exact hl.symm.trans hr
    exact (congrArg (List.map Prod.snd) hfilter).trans hmap
  · intro q key' e' hq
    obtain ⟨hq, hne⟩ := Cells.mem_without.1 hq
    exact (h.entries _ _ _ hq).purge h.linked hcont hne
  · intro q key' e' hq
    exact h.own q key' e' (Cells.mem_without.1 hq).1

/-! ## Fetching -/

/-- The names of the triggers are found. -/
lemma triggerNames_eq (h : c.Rep a) (hp : (p, key, e) ∈ a) (hcont : (p, key, cont) ∈ c.primary) :
    ∃ names, c.triggerNames cont.triggers = some names ∧
    (∅ : StringSet).insertAll names = e.triggers := by
  obtain ⟨cont', hcont', -, -, -, htriggers⟩ := h.entries _ _ _ hp
  obtain ⟨-, rfl⟩ := h.linked.entry_unique hcont hcont'
  have hnames : ∀ hooks : List (ℕ × ℕ), (∀ x ∈ hooks, x ∈ cont'.triggers) →
      ∃ names, c.triggerNames hooks = some names ∧
        ∀ name, name ∈ names ↔ ∃ t cell cells, (t, cell) ∈ hooks ∧
        (t, name, cells) ∈ c.triggers := by
    intro hooks
    induction hooks with
    | nil => exact fun _ => ⟨[], rfl, by simp⟩
    | cons x hooks ih =>
      intro hmem
      obtain ⟨names, hnames, hiff⟩ := ih fun y hy => hmem y (List.mem_cons_of_mem _ hy)
      obtain ⟨t, cell⟩ := x
      obtain ⟨name, cells, hname, -⟩ := h.linked.mem_triggers hcont (hmem _ (List.mem_cons_self ..))
      refine ⟨name :: names, ?_, ?_⟩
      · unfold triggerNames at hnames ⊢
        rw [List.mapM_cons, hnames, h.linked.triggers_distinct.lookup hname]
        rfl
      · intro name'
        rw [List.mem_cons, hiff]
        constructor
        · rintro (rfl | ⟨t', cell', cells', ht', hcells'⟩)
          · exact ⟨t, cell, cells, List.mem_cons_self .., hname⟩
          · exact ⟨t', cell', cells', List.mem_cons_of_mem _ ht', hcells'⟩
        · rintro ⟨t', cell', cells', ht', hcells'⟩
          obtain heq | ht' := List.mem_cons.1 ht'
          · obtain ⟨rfl, rfl⟩ := Prod.mk.inj heq
            obtain ⟨rfl, -⟩ := Prod.mk.inj (h.linked.triggers_distinct.eq_of_mem hname hcells')
            exact .inl rfl
          · exact .inr ⟨t', cell', cells', ht', hcells'⟩
  obtain ⟨names, heq, hiff⟩ := hnames cont'.triggers fun _ hx => hx
  refine ⟨names, heq, ?_⟩
  ext name
  rw [SortedSet.mem_insertAll, hiff, htriggers]
  simp

lemma fetch_none (h : c.Rep a) (hkey : ∀ p e, (p, key, e) ∉ a) (now : ℤ) :
    c.fetch now key = some (c, none) := by
  unfold MemCache.fetch
  rw [h.find_eq_none hkey]

lemma fetch_expired (h : c.Rep a) (hp : (p, key, e) ∈ a) (hnow : e.timeout < now) :
    c.fetch now key = some (c, none) := by
  obtain ⟨cont, hfind, hcont⟩ := h.find_eq_some hp
  obtain ⟨cont', hcont', -, -, htimeout, -⟩ := h.entries _ _ _ hp
  obtain ⟨-, rfl⟩ := h.linked.entry_unique hcont hcont'
  unfold MemCache.fetch
  rw [hfind]
  dsimp only
  rw [h.linked.timeout_distinct.lookup htimeout, Option.bind_some, if_pos hnow]

/-- A successful fetch gives the entry, and it is then the one that was used last. -/
lemma fetch_some (h : c.Rep a) (hp : (p, key, e) ∈ a) (hnow : now ≤ e.timeout) :
    ∃ c', c.fetch now key = some (c', some e) ∧ c'.Rep ((p, key, e) :: a.without p) ∧
      SameCounters c c' := by
  obtain ⟨cont, hfind, hcont⟩ := h.find_eq_some hp
  obtain ⟨cont', hcont', hdata, hgen, htimeout, -⟩ := h.entries _ _ _ hp
  obtain ⟨-, rfl⟩ := h.linked.entry_unique hcont hcont'
  obtain ⟨names, hnames, hset⟩ := h.triggerNames_eq hp hcont
  refine ⟨c.touch p cont', ?_, ⟨h.linked.touch hcont, ?_, ?_, ?_⟩, rfl, rfl⟩
  · unfold MemCache.fetch
    rw [hfind]
    dsimp only
    rw [h.linked.timeout_distinct.lookup htimeout, Option.bind_some, if_neg (not_lt.2 hnow),
      h.linked.lru_distinct.without?_eq (h.linked.mem_lru hcont), Option.bind_some, hnames,
      Option.map_some, hset, hdata, hgen]
    rfl
  · obtain ⟨c', hdelete, hrep, -⟩ := h.deleteNode hp
    rw [h.linked.deleteNode_eq hcont] at hdelete
    obtain rfl := Option.some.inj hdelete
    exact congrArg (p :: ·) hrep.lru
  · intro q key' e' hq
    obtain heq | hq := List.mem_cons.1 hq
    · simp only [Prod.mk.injEq] at heq
      obtain ⟨rfl, rfl, rfl⟩ := heq
      exact (h.entries _ _ _ hp).touch _ _
    · exact (h.entries _ _ _ (Cells.mem_without.1 hq).1).touch _ _
  · intro q key' e' hq
    obtain heq | hq := List.mem_cons.1 hq
    · simp only [Prod.mk.injEq] at heq
      obtain ⟨rfl, rfl, rfl⟩ := heq
      exact h.own _ _ _ hp
    · exact h.own _ _ _ (Cells.mem_without.1 hq).1

/-! ## Raising a trigger -/

/-- The entries of a list are removed one after the other. -/
lemma deleteNodes (h : c.Rep a) {ps : List ℕ} (hps : ps.Nodup)
    (hmem : ∀ p ∈ ps, ∃ key e, (p, key, e) ∈ a) :
    ∃ c', ps.foldlM MemCache.deleteNode c = some c' ∧ c'.Rep (a.filter fun x => x.1 ∉ ps) ∧
      SameCounters c c' := by
  induction ps generalizing c a with
  | nil => exact ⟨c, rfl, by simpa using h, .refl c⟩
  | cons p ps ih =>
    obtain ⟨key, e, hp⟩ := hmem p (List.mem_cons_self ..)
    obtain ⟨hnot, hps⟩ := List.nodup_cons.1 hps
    obtain ⟨c₁, hdelete, hrep, hsame⟩ := h.deleteNode hp
    obtain ⟨c₂, hrest, hrep₂, hsame₂⟩ := ih hrep hps fun q hq => by
      obtain ⟨key', e', hq'⟩ := hmem q (List.mem_cons_of_mem _ hq)
      exact ⟨key', e', Cells.mem_without.2 ⟨hq', fun heq => hnot (heq ▸ hq)⟩⟩
    refine ⟨c₂, ?_, ?_, hsame.trans hsame₂⟩
    · rw [List.foldlM_cons, hdelete]
      exact hrest
    · have hfilter : (a.without p).filter (fun x => decide (x.1 ∉ ps)) =
          a.filter fun x => decide (x.1 ∉ p :: ps) := by
        unfold Cells.without
        rw [List.filter_filter]
        congr 1
        funext x
        simp [Bool.and_comm]
      rwa [hfilter] at hrep₂

/-- Raising a trigger removes the entries that have it. -/
lemma rise (h : c.Rep a) (trigger : Bytes) :
    ∃ c', c.rise trigger = some c' ∧ c'.Rep (a.filter fun x => trigger ∉ x.2.2.triggers) ∧
      SameCounters c c' := by
  unfold MemCache.rise
  cases hfind : c.findTrigger trigger with
  | none =>
    refine ⟨c, rfl, ?_, .refl c⟩
    have hself : a.filter (fun x => decide (trigger ∉ x.2.2.triggers)) = a := by
      rw [List.filter_eq_self]
      rintro ⟨p, key, e⟩ hp
      obtain ⟨cont, -, -, -, -, htriggers⟩ := h.entries _ _ _ hp
      simp only [decide_eq_true_eq]
      intro htrigger
      obtain ⟨t, cell, cells, -, hcells⟩ := (htriggers trigger).1 htrigger
      have hne := List.find?_eq_none.1 hfind _ hcells
      simp at hne
    rwa [hself]
  | some x =>
    obtain ⟨t, name, cells⟩ := x
    obtain ⟨rfl, ht⟩ := find_cells hfind
    -- the entries in the list are those that have the trigger
    have hiff {p : ℕ} {key : Bytes} {e : Entry} (hp : (p, key, e) ∈ a) :
        p ∈ cells.map Prod.snd ↔ name ∈ e.triggers := by
      obtain ⟨cont, hcont, -, -, -, htriggers⟩ := h.entries _ _ _ hp
      rw [htriggers]
      constructor
      · intro hmem
        obtain ⟨⟨cell, q⟩, hcell, rfl⟩ := List.mem_map.1 hmem
        obtain ⟨key', cont', hcont', hhook⟩ :=
          (h.linked.triggers_iff _ _ _).1 ⟨name, cells, ht, hcell⟩
        obtain ⟨-, rfl⟩ := h.linked.entry_unique hcont hcont'
        exact ⟨t, cell, cells, hhook, ht⟩
      · rintro ⟨t', cell, cells', hhook, hcells'⟩
        have heq := List.inj_on_of_nodup_map h.linked.names_nodup hcells' ht rfl
        simp only [Prod.mk.injEq] at heq
        obtain ⟨rfl, -, rfl⟩ := heq
        obtain ⟨name'', cells'', hcells'', hcell⟩ := h.linked.mem_triggers hcont hhook
        obtain ⟨rfl, rfl⟩ := Prod.mk.inj (h.linked.triggers_distinct.eq_of_mem ht hcells'')
        exact List.mem_map.2 ⟨_, hcell, rfl⟩
    obtain ⟨c', hdelete, hrep, hsame⟩ := h.deleteNodes (h.linked.cells_nodup ht) fun p hp => by
      obtain ⟨⟨cell, q⟩, hcell, rfl⟩ := List.mem_map.1 hp
      obtain ⟨key, cont, hcont, -⟩ := (h.linked.triggers_iff _ _ _).1 ⟨name, cells, ht, hcell⟩
      obtain ⟨e, he⟩ := h.mem_of_primary hcont
      exact ⟨key, e, he⟩
    refine ⟨c', hdelete, ?_, hsame⟩
    have hfilter : a.filter (fun x => decide (x.1 ∉ cells.map Prod.snd)) =
        a.filter fun x => decide (name ∉ x.2.2.triggers) := by
      apply List.filter_congr
      rintro ⟨p, key, e⟩ hp
      simp only [hiff hp]
    rwa [hfilter] at hrep

/-- An entry may be taken away by its handle or by its key. -/
lemma without_eq (h : c.Rep a) (hp : (p, key, e) ∈ a) :
    a.without p = a.filter fun x => x.2.1 ≠ key := by
  apply List.filter_congr
  rintro ⟨q, key', e'⟩ hq
  have hiff : q = p ↔ key' = key := by
    constructor
    · rintro rfl
      exact congrArg Prod.fst (h.distinct.eq_of_mem hq hp)
    · rintro rfl
      exact (h.eq_of_key hp hq).1
  simp [hiff]

lemma remove (h : c.Rep a) (key : Bytes) :
    ∃ c', c.remove key = some c' ∧ c'.Rep (a.filter fun x => x.2.1 ≠ key) ∧ SameCounters c c' := by
  unfold MemCache.remove
  by_cases hkey : ∃ p e, (p, key, e) ∈ a
  · obtain ⟨p, e, hp⟩ := hkey
    obtain ⟨cont, hfind, hcont⟩ := h.find_eq_some hp
    obtain ⟨c', hdelete, hrep, hsame⟩ := h.deleteNode hp
    rw [hfind]
    refine ⟨c', hdelete, ?_, hsame⟩
    rwa [h.without_eq hp] at hrep
  · push Not at hkey
    rw [h.find_eq_none hkey]
    refine ⟨c, rfl, ?_, .refl c⟩
    have hself : a.filter (fun x => decide (x.2.1 ≠ key)) = a := by
      rw [List.filter_eq_self]
      rintro ⟨p, key', e⟩ hp
      simp only [ne_eq, decide_not, Bool.not_eq_eq_eq_not, Bool.not_true, decide_eq_false_iff_not]
      rintro rfl
      exact hkey p e hp
    rwa [hself]

end Rep

/-! ## Making room -/

/-- The entry that has to go: one with the smallest deadline, if that has passed, and otherwise the
one that has not been used for the longest time. -/
def Victim (now : ℤ) (l : List (Bytes × Entry)) (x : Bytes × Entry) : Prop :=
  x ∈ l ∧ ((x.2.timeout < now ∧ ∀ y ∈ l, x.2.timeout ≤ y.2.timeout) ∨
    ((∀ y ∈ l, now ≤ y.2.timeout) ∧ l.getLast? = some x))

/-- There is no room beside so many entries: the limit is reached, or the answer of this round is
that the memory is short. -/
def Full (limit : ℕ) (memory : Memory) (n : ℕ) : Prop :=
  0 < n ∧ (memory (n - 1) = true ∨ (limit ≤ n ∧ 0 < limit))

/-- Entries are taken away one by one, as long as there is no room. -/
inductive Evicts (now : ℤ) (limit : ℕ) (memory : Memory) :
    List (Bytes × Entry) → List (Bytes × Entry) → Prop
  | refl (l : List (Bytes × Entry)) (hroom : ¬ Full limit memory l.length) :
      Evicts now limit memory l l
  | step {l l' : List (Bytes × Entry)} {x : Bytes × Entry} (hfull : Full limit memory l.length)
      (hx : Victim now l x)
      (h : Evicts now limit memory (l.filter fun y => y.1 ≠ x.1) l') : Evicts now limit memory l l'

namespace Rep

variable {a : Cells (Bytes × Entry)} {p : ℕ} {key : Bytes} {e : Entry}

/-- `check_limits` finds an entry that has to go. -/
lemma victim (h : c.Rep a) (ha : a ≠ []) (now : ℤ) :
    ∃ p key e, c.victim now = some p ∧ (p, key, e) ∈ a ∧ Victim now (a.map Prod.snd) (key, e) := by
  obtain ⟨⟨p₀, key₀, e₀⟩, h₀⟩ := List.exists_mem_of_ne_nil a ha
  have htimeout {q : ℕ} {key' : Bytes} {e' : Entry} (hq : (q, key', e') ∈ a) :
      ∃ cell, (cell, e'.timeout, q) ∈ c.timeout := by
    obtain ⟨cont, -, -, -, hcell, -⟩ := h.entries _ _ _ hq
    exact ⟨cont.timeout, hcell⟩
  cases hlist : c.timeout with
  | nil =>
    obtain ⟨cell, hcell⟩ := htimeout h₀
    rw [hlist] at hcell
    cases hcell
  | cons x rest =>
    obtain ⟨cell, deadline, p⟩ := x
    have hfirst : ∀ q key' e', (q, key', e') ∈ a → deadline ≤ e'.timeout := by
      intro q key' e' hq
      obtain ⟨cell', hcell'⟩ := htimeout hq
      have hsorted := h.linked.sorted
      rw [hlist] at hcell' hsorted
      obtain heq | hcell' := List.mem_cons.1 hcell'
      · simp only [Prod.mk.injEq] at heq
        exact heq.2.1.ge
      · exact (List.pairwise_cons.1 hsorted).1 _ hcell'
    have hall (d : ℤ) (hd : ∀ q key' e', (q, key', e') ∈ a → d ≤ e'.timeout) :
        ∀ y ∈ a.map Prod.snd, d ≤ y.2.timeout := by
      intro y hy
      obtain ⟨⟨q, key', e'⟩, hq, rfl⟩ := List.mem_map.1 hy
      exact hd _ _ _ hq
    unfold MemCache.victim
    rw [hlist]
    dsimp only
    split_ifs with hnow
    · have hhead : (cell, deadline, p) ∈ c.timeout := hlist ▸ List.mem_cons_self ..
      obtain ⟨key, cont, hp, rfl⟩ := (h.linked.timeout_iff _ _).1 ⟨deadline, hhead⟩
      obtain ⟨e, he⟩ := h.mem_of_primary hp
      obtain ⟨cont', hcont', -, -, hcell, -⟩ := h.entries _ _ _ he
      obtain ⟨-, rfl⟩ := h.linked.entry_unique hp hcont'
      obtain ⟨heq, -⟩ := Prod.mk.inj (h.linked.timeout_distinct.eq_of_mem hcell hhead)
      refine ⟨p, key, e, rfl, he, List.mem_map.2 ⟨_, he, rfl⟩, .inl ⟨heq ▸ hnow, ?_⟩⟩
      exact hall _ fun q key' e' hq => heq ▸ hfirst q key' e' hq
    · have hlast : c.lru.getLast?.map Prod.snd = a.getLast?.map Prod.fst := by
        rw [← List.getLast?_map, ← List.getLast?_map, h.lru]
      obtain ⟨⟨q, key, e⟩, hq⟩ : ∃ x, a.getLast? = some x := by
        rw [← Option.isSome_iff_exists, List.getLast?_isSome]
        exact ha
      rw [hlast, hq]
      refine ⟨q, key, e, rfl, List.mem_of_getLast? hq, ?_, .inr ⟨?_, ?_⟩⟩
      · exact List.mem_map.2 ⟨_, List.mem_of_getLast? hq, rfl⟩
      · exact hall _ fun q key' e' hq => (not_lt.1 hnow).trans (hfirst q key' e' hq)
      · rw [List.getLast?_map, hq]
        rfl

lemma map_without (h : c.Rep a) (hp : (p, key, e) ∈ a) :
    (a.without p).map Prod.snd = (a.map Prod.snd).filter fun x => x.1 ≠ key := by
  rw [h.without_eq hp, List.filter_map]
  rfl

/-- The loop of `check_limits` makes room. -/
lemma checkLimitsLoop (now : ℤ) (memory : Memory) {n : ℕ} (h : c.Rep a) (hn : a.length = n) :
    ∃ c' a', checkLimitsLoop now memory n c = some c' ∧ c'.Rep a' ∧ SameCounters c c' ∧
      Evicts now c.limit memory (a.map Prod.snd) (a'.map Prod.snd) ∧
      (0 < c.limit → a'.length < c.limit) ∧ ∀ x ∈ a', x ∈ a := by
  induction n generalizing c a with
  | zero =>
    obtain rfl := List.length_eq_zero_iff.1 hn
    exact ⟨c, [], rfl, h, .refl c, .refl _ fun hfull =>
      absurd hfull.1 (by simp), id, fun _ hx => hx⟩
  | succ n ih =>
    unfold MemCache.checkLimitsLoop
    split_ifs with hcond
    · obtain ⟨hsize, hfull⟩ := hcond
      rw [h.size_eq] at hsize hfull
      obtain ⟨p, key, e, hvictim, hp, hv⟩ := h.victim (List.ne_nil_of_length_pos hsize) now
      obtain ⟨c₁, hdelete, hrep, hsame⟩ := h.deleteNode hp
      have hlen := h.distinct.length_without hp
      obtain ⟨c₂, a₂, hloop, hrep₂, hsame₂, hevicts, hroom, hsub⟩ := ih hrep (by omega)
      rw [hsame.limit] at hevicts hroom
      refine ⟨c₂, a₂, ?_, hrep₂, hsame.trans hsame₂, ?_, hroom, ?_⟩
      · rw [hvictim]
        dsimp only
        rw [hdelete]
        exact hloop
      · refine .step ?_ hv ?_
        · rw [List.length_map]
          refine ⟨hsize, ?_⟩
          rw [hn] at hfull ⊢
          exact hfull
        · rwa [h.map_without hp] at hevicts
      · exact fun x hx => (Cells.mem_without.1 (hsub x hx)).1
    · rw [h.size_eq] at hcond
      refine ⟨c, a, rfl, h, .refl c, .refl _ ?_, ?_, fun _ hx => hx⟩
      · rw [List.length_map]
        rintro ⟨hsize, hfull⟩
        rw [hn] at hsize hfull hcond
        exact hcond ⟨hsize, hfull⟩
      intro hlimit
      by_contra hge
      exact hcond ⟨hlimit.trans_le (not_lt.1 hge), .inr ⟨not_lt.1 hge, hlimit⟩⟩

end Rep

/-! ## Storing -/

variable {e : Entry} {key : Bytes}

/-- Triggers are added to an entry one after the other. -/
lemma addTriggers {p : ℕ} {names : List Bytes} (h : c.Linked) (he : c.HasEntry p key e)
    (hnames : names.Nodup) (hnew : ∀ name ∈ names, name ∉ e.triggers) :
    ∃ c', names.foldl (addTrigger p) c = c' ∧ c'.Linked ∧
      c'.HasEntry p key { e with triggers := e.triggers.insertAll names } ∧
      (∀ q key' e', q ≠ p → c.HasEntry q key' e' → c'.HasEntry q key' e') ∧ c'.lru = c.lru ∧
      SameCounters c c' := by
  induction names generalizing c e with
  | nil => exact ⟨c, rfl, h, he, fun _ _ _ _ h => h, rfl, .refl c⟩
  | cons name names ih =>
    obtain ⟨hname, hnames⟩ := List.nodup_cons.1 hnames
    obtain ⟨t, ts, next, hinsert, hts⟩ := h.insertTrigger name
    obtain ⟨cont, hcont, hdata, hgen, htimeout, htriggers⟩ := id he
    have hfresh : ∀ cell, (t, cell) ∉ cont.triggers := by
      intro cell hcell
      obtain ⟨name', cells, hcells, -⟩ := h.mem_triggers hcont hcell
      obtain ⟨cells', hcells'⟩ := hts.mem
      obtain ⟨rfl, -⟩ := Prod.mk.inj (hts.distinct.eq_of_mem hcells' (hts.subset _ hcells))
      exact hnew name (List.mem_cons_self ..) ((htriggers name).2 ⟨t, cell, cells, hcell, hcells⟩)
    obtain ⟨c', hfold, hlinked, hself, hothers, hlru, hsame⟩ := ih (h.hook hts hcont hfresh)
      (he.hook_self h hts) hnames (by
        intro name' hmem hold
        obtain rfl | hold := SortedSet.mem_insert.1 hold
        · exact hname hmem
        · exact hnew name' (List.mem_cons_of_mem _ hmem) hold)
    refine ⟨c', ?_, hlinked, hself, ?_, hlru, ⟨hsame.limit, hsame.generation⟩⟩
    · rw [List.foldl_cons, addTrigger_eq hinsert, hfold]
    · exact fun q key' e' hqp hq => hothers q key' e' hqp (hq.hook h hts hqp)

lemma allTriggers_nodup (key : Bytes) (triggers : StringSet) :
    (allTriggers key triggers).Nodup := by
  unfold allTriggers
  split_ifs with h
  · exact triggers.nodup
  · exact List.nodup_cons.2 ⟨h, triggers.nodup⟩

lemma insertAll_allTriggers (key : Bytes) (triggers : StringSet) :
    (∅ : StringSet).insertAll (allTriggers key triggers) = triggers.insert key := by
  ext name
  rw [SortedSet.mem_insertAll, SortedSet.mem_insert]
  unfold allTriggers
  split_ifs with h
  · constructor
    · rintro (hname | hname)
      · exact .inr hname
      · exact absurd hname SortedSet.not_mem_empty
    · rintro (rfl | hname)
      · exact .inl h
      · exact .inl hname
  · simp

/-- The entry that `store` makes. -/
def newEntry (c : MemCache) (key data : Bytes) (triggers : StringSet) (timeout : ℤ)
    (gen : Option ℕ) :
    Entry :=
  ⟨data, triggers.insert key, timeout, gen.getD c.generation⟩

/-- The counter of the generations after a store. -/
def nextGeneration (c : MemCache) (gen : Option ℕ) : ℕ :=
  if gen.isSome then c.generation else (c.generation + 1) % 2 ^ 64

namespace Rep

variable {a : Cells (Bytes × Entry)}

/-- A new entry goes to the front. -/
lemma insert (h : c.Rep a) (hkey : ∀ p e, (p, key, e) ∉ a) (data : Bytes) (triggers : StringSet)
    (timeout : ℤ) (gen : Option ℕ) :
    ∃ c', (allTriggers key triggers).foldl (addTrigger c.next)
      (c.insertEntry key data timeout gen) = c' ∧
      c'.Rep ((c.next, key, c.newEntry key data triggers timeout gen) :: a) ∧
      c'.limit = c.limit ∧ c'.generation = c.nextGeneration gen := by
  have hlinked := h.linked.insertEntry (fun p cont hp => by
    obtain ⟨e, he⟩ := h.mem_of_primary hp
    exact hkey p e he) data timeout gen
  obtain ⟨c', hfold, hlinked', hself, hothers, hlru, hsame⟩ := addTriggers hlinked
    (HasEntry.insertEntry_self c key data timeout gen) (allTriggers_nodup key triggers)
    (fun _ _ => SortedSet.not_mem_empty)
  dsimp only at hself
  rw [insertAll_allTriggers] at hself
  refine ⟨c', hfold, ⟨hlinked', ?_, ?_, ?_⟩, hsame.limit, hsame.generation⟩
  · rw [hlru]
    exact congrArg (c.next :: ·) h.lru
  · intro q key' e' hq
    obtain heq | hq := List.mem_cons.1 hq
    · simp only [Prod.mk.injEq] at heq
      obtain ⟨rfl, rfl, rfl⟩ := heq
      exact hself
    · have hentry := h.entries _ _ _ hq
      refine hothers q key' e' ?_ (hentry.insertEntry _ _ _ _)
      rintro rfl
      obtain ⟨cont, hcont, -⟩ := hentry
      exact h.linked.primary_below.not_mem hcont
  · intro q key' e' hq
    obtain heq | hq := List.mem_cons.1 hq
    · simp only [Prod.mk.injEq] at heq
      obtain ⟨rfl, rfl, rfl⟩ := heq
      exact SortedSet.mem_insert.2 (.inl rfl)
    · exact h.own _ _ _ hq

/-- A store takes the old entry away, makes room and puts the new entry to the front; or it gives up
because there are more entries than the settings allow. -/
lemma store (h : c.Rep a) (settings : Settings) (now : ℤ) (memory : Memory) (key data : Bytes)
    (triggers : StringSet) (timeout : ℤ) (gen : Option ℕ) :
    ∃ c' a', c.store settings now memory key data triggers timeout gen = some c' ∧ c'.Rep a' ∧
      c'.limit = c.limit ∧
      ((settings.sizeLimit.any (· < (a.filter fun x => x.2.1 ≠ key).length) = true ∧
          a' = (a.filter fun x => x.2.1 ≠ key) ∧ c'.generation = c.generation) ∨
        (settings.sizeLimit.any (· < (a.filter fun x => x.2.1 ≠ key).length) = false ∧
          c'.generation = c.nextGeneration gen ∧
          ∃ p rest, a' = (p, key, c.newEntry key data triggers timeout gen) :: rest ∧
            Evicts now c.limit memory ((a.filter fun x => x.2.1 ≠ key).map Prod.snd)
              (rest.map Prod.snd) ∧
            (0 < c.limit → rest.length < c.limit))) := by
  obtain ⟨c₁, hremove, hrep₁, hsame₁⟩ := h.remove key
  unfold MemCache.store
  rw [hremove, Option.bind_some, hrep₁.size_eq]
  cases hlimit : settings.sizeLimit.any (· < (a.filter fun x => decide (x.2.1 ≠ key)).length) with
  | true =>
    rw [if_pos rfl]
    exact ⟨c₁, _, rfl, hrep₁, hsame₁.limit, .inl ⟨rfl, rfl, hsame₁.generation⟩⟩
  | false =>
    rw [if_neg (by simp)]
    obtain ⟨c₂, a₂, hloop, hrep₂, hsame₂, hevicts, hroom, hsub⟩ :=
      hrep₁.checkLimitsLoop now memory hrep₁.size_eq.symm
    have hkey : ∀ p e, (p, key, e) ∉ a₂ := by
      intro p e hp
      have hmem := List.mem_filter.1 (hsub _ hp)
      simp at hmem
    obtain ⟨c₃, hinsert, hrep₃, hlimit₃, hgen₃⟩ := hrep₂.insert hkey data triggers timeout gen
    have hsame := hsame₁.trans hsame₂
    have hentry : c₂.newEntry key data triggers timeout gen =
        c.newEntry key data triggers timeout gen := by
      unfold newEntry
      rw [hsame.generation]
    have hnext : c₂.nextGeneration gen = c.nextGeneration gen := by
      unfold nextGeneration
      rw [hsame.generation]
    rw [hentry] at hrep₃
    rw [hsame₁.limit] at hevicts hroom
    refine ⟨c₃, _, ?_, hrep₃, hlimit₃.trans hsame.limit,
      .inr ⟨rfl, hgen₃.trans hnext, c₂.next, a₂, rfl, hevicts, hroom⟩⟩
    unfold MemCache.checkLimits
    rw [hloop, Option.map_some, hinsert]

end Rep

/-! ## The cache as a list of entries -/

/-- Looking up a key; an entry whose deadline has not passed comes to the front. -/
def fetchEntry (now : ℤ) (key : Bytes) (l : List (Bytes × Entry)) :
    List (Bytes × Entry) × Option Entry :=
  match l.lookup key with
  | none => (l, none)
  | some e =>
      if e.timeout < now then (l, none) else ((key, e) :: l.filter (fun x => x.1 ≠ key), some e)

variable {l l' : List (Bytes × Entry)}

/-- Evictions take entries away only. -/
lemma Evicts.sublist {now : ℤ} {limit : ℕ} {memory : Memory} (h : Evicts now limit memory l l') :
    l'.Sublist l := by
  induction h with
  | refl l _ => exact List.Sublist.refl l
  | step _ _ _ ih => exact ih.trans List.filter_sublist

lemma fetchEntry_mem {now : ℤ} : ∀ x ∈ (fetchEntry now key l).1, x ∈ l := by
  unfold fetchEntry
  cases hlookup : l.lookup key with
  | none => exact fun x hx => hx
  | some e =>
    dsimp only
    split_ifs
    · exact fun x hx => hx
    · intro x hx
      obtain rfl | hx := List.mem_cons.1 hx
      · obtain ⟨l₁, l₂, rfl, -⟩ := List.lookup_eq_some_iff.1 hlookup
        simp
      · exact (List.mem_filter.1 hx).1

/-- The result of a store in the list of entries. -/
inductive StoresEntry (settings : Settings) (c : MemCache) (now : ℤ) (memory : Memory)
    (key data : Bytes)
    (triggers : StringSet) (timeout : ℤ) (gen : Option ℕ) (l : List (Bytes × Entry)) :
    List (Bytes × Entry) → ℕ → Prop
  /-- there are more entries than the settings allow -/
  | tooMany (h : settings.sizeLimit.any (· < (l.filter fun x => x.1 ≠ key).length) = true) :
      StoresEntry settings c now memory key data triggers timeout gen l
        (l.filter fun x => x.1 ≠ key) c.generation
  | stored {rest : List (Bytes × Entry)}
      (h : settings.sizeLimit.any (· < (l.filter fun x => x.1 ≠ key).length) = false)
      (hevicts : Evicts now c.limit memory (l.filter fun x => x.1 ≠ key) rest)
      (hroom : 0 < c.limit → rest.length < c.limit) :
      StoresEntry settings c now memory key data triggers timeout gen l
        ((key, c.newEntry key data triggers timeout gen) :: rest) (c.nextGeneration gen)

/-- The cache holds the given entries, the one that was used last first. -/
def Holds (c : MemCache) (l : List (Bytes × Entry)) : Prop := ∃ a, c.Rep a ∧ a.map Prod.snd = l

lemma holds_init (pages : ℕ) : (init pages).Holds [] := ⟨[], rep_init pages, rfl⟩

lemma holds_clear (c : MemCache) : c.clear.Holds [] := ⟨[], rep_clear c, rfl⟩

namespace Holds

variable {l : List (Bytes × Entry)} {key : Bytes} {e : Entry}

lemma keys_nodup (h : c.Holds l) : (l.map Prod.fst).Nodup := by
  obtain ⟨a, hrep, rfl⟩ := h
  rw [List.map_map]
  exact hrep.keys_nodup

lemma own (h : c.Holds l) (hmem : (key, e) ∈ l) : key ∈ e.triggers := by
  obtain ⟨a, hrep, rfl⟩ := h
  obtain ⟨⟨p, key', e'⟩, hp, heq⟩ := List.mem_map.1 hmem
  obtain ⟨rfl, rfl⟩ := Prod.mk.inj heq
  exact hrep.own _ _ _ hp

lemma lookup_iff (h : c.Holds l) : l.lookup key = some e ↔ (key, e) ∈ l := by
  constructor
  · intro hlookup
    obtain ⟨l₁, l₂, rfl, -⟩ := List.lookup_eq_some_iff.1 hlookup
    simp
  · intro hmem
    cases hlookup : l.lookup key with
    | none =>
      have hne := List.lookup_eq_none_iff.1 hlookup _ hmem
      simp at hne
    | some e' =>
      obtain ⟨l₁, l₂, heq, -⟩ := List.lookup_eq_some_iff.1 hlookup
      have hmem' : (key, e') ∈ l := by simp [heq]
      have hsame := List.inj_on_of_nodup_map h.keys_nodup hmem hmem' rfl
      rw [(Prod.mk.inj hsame).2]

lemma map_filter {a : Cells (Bytes × Entry)} (P : Bytes × Entry → Bool) :
    (a.filter fun x => P x.2).map Prod.snd = (a.map Prod.snd).filter P := by
  rw [List.filter_map]
  rfl

/-- `fetch` looks up the key in the list. -/
lemma fetch (h : c.Holds l) (now : ℤ) (key : Bytes) :
    ∃ c', c.fetch now key = some (c', (fetchEntry now key l).2) ∧
    c'.Holds (fetchEntry now key l).1 ∧
      SameCounters c c' := by
  obtain ⟨a, hrep, hl⟩ := id h
  unfold fetchEntry
  cases hlookup : l.lookup key with
  | none =>
    refine ⟨c, hrep.fetch_none ?_ now, h, .refl c⟩
    intro p e hp
    have hmem : (key, e) ∈ l := hl ▸ List.mem_map.2 ⟨_, hp, rfl⟩
    have hne := List.lookup_eq_none_iff.1 hlookup _ hmem
    simp at hne
  | some e =>
    have hmem := h.lookup_iff.1 hlookup
    rw [← hl] at hmem
    obtain ⟨⟨p, key', e'⟩, hp, heq⟩ := List.mem_map.1 hmem
    obtain ⟨rfl, rfl⟩ := Prod.mk.inj heq
    dsimp only
    split_ifs with hnow
    · exact ⟨c, hrep.fetch_expired hp hnow, h, .refl c⟩
    · obtain ⟨c', hfetch, hrep', hsame⟩ := hrep.fetch_some hp (not_lt.1 hnow)
      refine ⟨c', hfetch, ⟨_, hrep', ?_⟩, hsame⟩
      rw [List.map_cons, hrep.map_without hp, hl]

variable {now : ℤ}

/-- A fetch keeps all entries. -/
lemma mem_fetchEntry (h : c.Holds l) {x : Bytes × Entry} :
    x ∈ (fetchEntry now key l).1 ↔ x ∈ l := by
  refine ⟨fetchEntry_mem x, fun hx => ?_⟩
  unfold fetchEntry
  cases hlookup : l.lookup key with
  | none => exact hx
  | some e =>
    dsimp only
    split_ifs
    · exact hx
    · exact (perm_filter_key h.keys_nodup (h.lookup_iff.1 hlookup)).subset hx

/-- A fetch finds the entry with the key if its deadline has not passed. -/
lemma fetchEntry_eq_some (h : c.Holds l) :
    (fetchEntry now key l).2 = some e ↔ (key, e) ∈ l ∧ now ≤ e.timeout := by
  rw [← h.lookup_iff, fetchEntry]
  cases l.lookup key with
  | none => simp
  | some e' =>
    dsimp only
    split_ifs with hnow
    · simp only [Option.some.injEq, false_iff, not_and]
      rintro rfl
      exact not_le.2 hnow
    · simp only [Option.some.injEq]
      constructor
      · rintro rfl
        exact ⟨rfl, not_lt.1 hnow⟩
      · exact fun heq => heq.1

lemma rise (h : c.Holds l) (trigger : Bytes) :
    ∃ c', c.rise trigger = some c' ∧ c'.Holds (l.filter fun x => trigger ∉ x.2.triggers) ∧
      SameCounters c c' := by
  obtain ⟨a, hrep, rfl⟩ := h
  obtain ⟨c', hrise, hrep', hsame⟩ := hrep.rise trigger
  exact ⟨c', hrise, ⟨_, hrep', map_filter fun x => decide (trigger ∉ x.2.triggers)⟩, hsame⟩

lemma remove (h : c.Holds l) (key : Bytes) :
    ∃ c', c.remove key = some c' ∧ c'.Holds (l.filter fun x => x.1 ≠ key) ∧ SameCounters c c' := by
  obtain ⟨a, hrep, rfl⟩ := h
  obtain ⟨c', hremove, hrep', hsame⟩ := hrep.remove key
  exact ⟨c', hremove, ⟨_, hrep', map_filter fun x => decide (x.1 ≠ key)⟩, hsame⟩

lemma store (h : c.Holds l) (settings : Settings) (now : ℤ) (memory : Memory) (key data : Bytes)
    (triggers : StringSet) (timeout : ℤ) (gen : Option ℕ) :
    ∃ c' l', c.store settings now memory key data triggers timeout gen = some c' ∧ c'.Holds l' ∧
      c'.limit = c.limit ∧
      StoresEntry settings c now memory key data triggers timeout gen l l' c'.generation := by
  obtain ⟨a, hrep, rfl⟩ := h
  have hfilter := map_filter (a := a) fun x => decide (x.1 ≠ key)
  have hlength : (a.filter fun x => decide (x.2.1 ≠ key)).length =
      ((a.map Prod.snd).filter fun x => decide (x.1 ≠ key)).length := by
    rw [← hfilter, List.length_map]
  obtain ⟨c', a', hstore, hrep', hlimit, hcase⟩ := hrep.store settings now memory key data triggers
    timeout gen
  refine ⟨c', _, hstore, ⟨a', hrep', rfl⟩, hlimit, ?_⟩
  rw [hlength] at hcase
  obtain ⟨hmany, rfl, hgen⟩ | ⟨hmany, hgen, p, rest, rfl, hevicts, hroom⟩ := hcase
  · rw [hfilter, hgen]
    exact .tooMany hmany
  · rw [hgen]
    rw [hfilter] at hevicts
    exact .stored hmany hevicts (by rwa [List.length_map])

end Holds

end MemCache

end Cache

end Cppcms
