import Cppcms.Cache.Represent

/-!
# Runs of the cache

Operations on a new cache, one after the other.  No operation fails, and after each of them the
containers agree with each other and with what has been stored (`Consistent`).
-/

namespace Cppcms

namespace Cache

/-- A call of an operation, with the time and the state of the memory at which it is made. -/
inductive Op where
  | store (now : ℤ) (memory : Memory) (key data : Bytes) (triggers : StringSet) (timeout : ℤ)
      (gen : Option ℕ)
  | fetch (now : ℤ) (key : Bytes)
  | rise (trigger : Bytes)
  | remove (key : Bytes)
  | clear

/-- The arguments of a store. -/
structure Stored where
  data : Bytes
  triggers : StringSet
  timeout : ℤ
  gen : Option ℕ

namespace MemCache

/-- The cache after an operation, and what the operation has returned. -/
def apply (settings : Settings) (c : MemCache) : Op → Option (MemCache × Option Entry)
  | .store now memory key data triggers timeout gen =>
    (c.store settings now memory key data triggers timeout gen).map fun c => (c, none)
  | .fetch now key => c.fetch now key
  | .rise trigger => (c.rise trigger).map fun c => (c, none)
  | .remove key => (c.remove key).map fun c => (c, none)
  | .clear => some (c.clear, none)

/-- The cache after a list of operations. -/
def run (settings : Settings) (c : MemCache) (ops : List Op) : Option MemCache :=
  ops.foldlM (fun c op => (c.apply settings op).map Prod.fst) c

lemma run_concat (settings : Settings) (c : MemCache) (ops : List Op) (op : Op) :
    c.run settings (ops ++ [op]) =
      (c.run settings ops).bind fun c => (c.apply settings op).map Prod.fst := by
  unfold run
  rw [List.foldlM_append]
  simp

end MemCache

/-- What an operation stores under a key. -/
def Op.storedAt (key : Bytes) : Op → Option Stored
  | .store _ _ key' data triggers timeout gen =>
      if key' = key then some ⟨data, triggers, timeout, gen⟩ else none
  | _ => none

/-- The arguments of the last store of a key. -/
def lastStore (ops : List Op) (key : Bytes) : Option Stored :=
  ops.reverse.findSome? (Op.storedAt key)

lemma lastStore_concat (ops : List Op) (op : Op) (key : Bytes) :
    lastStore (ops ++ [op]) key = (op.storedAt key).or (lastStore ops key) := by
  unfold lastStore
  rw [List.reverse_append, List.reverse_singleton, List.singleton_append, List.findSome?_cons]
  cases op.storedAt key <;> rfl

namespace MemCache

variable {settings : Settings} {c c' : MemCache} {l l' : List (Bytes × Entry)}

/-- The entries are what has been stored last under their keys. -/
def FromStores (ops : List Op) (l : List (Bytes × Entry)) : Prop :=
  ∀ key e, (key, e) ∈ l → ∃ s, lastStore ops key = some s ∧ e.data = s.data ∧
    e.triggers = s.triggers.insert key ∧ e.timeout = s.timeout

variable {ops : List Op} {key : Bytes} {now : ℤ}

/-- Entries under whose keys nothing is stored stay what they are. -/
lemma FromStores.concat {op : Op} (h : FromStores ops l)
    (hsub : ∀ x ∈ l', x ∈ l ∧ op.storedAt x.1 = none) : FromStores (ops ++ [op]) l' := by
  intro key e hmem
  obtain ⟨hmem, hnone⟩ := hsub _ hmem
  obtain ⟨s, hs, hrest⟩ := h key e hmem
  refine ⟨s, ?_, hrest⟩
  rw [lastStore_concat, hnone]
  exact hs

/-- What holds after a list of operations on a new cache. -/
structure After (ops : List Op) (pages : ℕ) (c : MemCache) (l : List (Bytes × Entry)) : Prop where
  holds : c.Holds l
  fromStores : FromStores ops l
  limit : c.limit = pages
  room : 0 < pages → l.length ≤ pages

lemma fetchEntry_length (hl : (l.map Prod.fst).Nodup) :
    (fetchEntry now key l).1.length = l.length := by
  unfold fetchEntry
  cases hlookup : l.lookup key with
  | none => rfl
  | some e =>
    dsimp only
    split_ifs
    · rfl
    · have hmem : (key, e) ∈ l := by
        obtain ⟨l₁, l₂, rfl, -⟩ := List.lookup_eq_some_iff.1 hlookup
        simp
      exact (perm_filter_key hl hmem).length_eq.symm

lemma after_init (pages : ℕ) : After [] pages (init pages) [] :=
  ⟨holds_init pages, by simp [FromStores], rfl, fun _ => Nat.zero_le _⟩

/-- An operation on the list of entries. -/
inductive EntryStep (settings : Settings) (c : MemCache) (l : List (Bytes × Entry)) :
    Op → List (Bytes × Entry) → Option Entry → Prop
  | store {now : ℤ} {memory : Memory} {key data : Bytes} {triggers : StringSet} {timeout : ℤ}
      {gen : Option ℕ} {l' : List (Bytes × Entry)} {g : ℕ}
      (h : StoresEntry settings c now memory key data triggers timeout gen l l' g) :
      EntryStep settings c l (.store now memory key data triggers timeout gen) l' none
  | fetch (now : ℤ) (key : Bytes) :
      EntryStep settings c l (.fetch now key) (fetchEntry now key l).1 (fetchEntry now key l).2
  | rise (trigger : Bytes) :
      EntryStep settings c l (.rise trigger) (l.filter fun x => trigger ∉ x.2.triggers) none
  | remove (key : Bytes) : EntryStep settings c l (.remove key) (l.filter fun x => x.1 ≠ key) none
  | clear : EntryStep settings c l .clear [] none

/-- Every operation on the cache is one on the list of its entries, and it does not fail. -/
lemma Holds.apply (h : c.Holds l) (settings : Settings) (op : Op) :
    ∃ c' r l', c.apply settings op = some (c', r) ∧ c'.Holds l' ∧ c'.limit = c.limit ∧
      EntryStep settings c l op l' r := by
  cases op with
  | store now memory key data triggers timeout gen =>
    obtain ⟨c', l', hstore, hholds, hlimit, hcase⟩ := h.store settings now memory key data triggers
      timeout gen
    refine ⟨c', none, l', ?_, hholds, hlimit, .store hcase⟩
    rw [MemCache.apply, hstore]
    rfl
  | fetch now key =>
    obtain ⟨c', hfetch, hholds, hsame⟩ := h.fetch now key
    exact ⟨c', _, _, hfetch, hholds, hsame.limit, .fetch now key⟩
  | rise trigger =>
    obtain ⟨c', hrise, hholds, hsame⟩ := h.rise trigger
    refine ⟨c', none, _, ?_, hholds, hsame.limit, .rise trigger⟩
    rw [MemCache.apply, hrise]
    rfl
  | remove key =>
    obtain ⟨c', hremove, hholds, hsame⟩ := h.remove key
    refine ⟨c', none, _, ?_, hholds, hsame.limit, .remove key⟩
    rw [MemCache.apply, hremove]
    rfl
  | clear => exact ⟨c.clear, none, [], rfl, holds_clear c, rfl, .clear⟩

/-- The entries with other keys are not stored. -/
lemma storedAt_of_mem_filter {memory : Memory} {key data : Bytes} {triggers : StringSet}
    {timeout : ℤ} {gen : Option ℕ} {x : Bytes × Entry} (hx : x ∈ l.filter fun x => x.1 ≠ key) :
    x ∈ l ∧ Op.storedAt x.1 (.store now memory key data triggers timeout gen) = none := by
  obtain ⟨hx, hne⟩ := List.mem_filter.1 hx
  have hne' : key ≠ x.1 := fun heq => by simp [heq] at hne
  exact ⟨hx, by rw [Op.storedAt, if_neg hne']⟩

/-- One operation: the entries are again what has been stored last. -/
lemma After.step {ops : List Op} {pages : ℕ} {op : Op} {r : Option Entry} (h : After ops pages c l)
    (hholds : c'.Holds l') (hlimit : c'.limit = c.limit) (hstep : EntryStep settings c l op l' r) :
    After (ops ++ [op]) pages c' l' := by
  refine ⟨hholds, ?_, hlimit.trans h.limit, fun hpages => ?_⟩
  · cases hstep with
    | @store now memory key data triggers timeout gen l' g hcase =>
      cases hcase with
      | tooMany => exact h.fromStores.concat fun x hx => storedAt_of_mem_filter hx
      | @stored rest _ hevicts _ =>
        have hold : FromStores (ops ++ [.store now memory key data triggers timeout gen]) rest :=
          h.fromStores.concat fun x hx => storedAt_of_mem_filter (hevicts.sublist.subset hx)
        intro key' e hmem
        obtain heq | hmem := List.mem_cons.1 hmem
        · obtain ⟨rfl, rfl⟩ := Prod.mk.inj heq
          refine ⟨⟨data, triggers, timeout, gen⟩, ?_, rfl, rfl, rfl⟩
          rw [lastStore_concat, Op.storedAt, if_pos rfl]
          rfl
        · exact hold key' e hmem
    | fetch now key => exact h.fromStores.concat fun x hx => ⟨fetchEntry_mem x hx, rfl⟩
    | rise trigger => exact h.fromStores.concat fun x hx => ⟨(List.mem_filter.1 hx).1, rfl⟩
    | remove key => exact h.fromStores.concat fun x hx => ⟨(List.mem_filter.1 hx).1, rfl⟩
    | clear => exact h.fromStores.concat fun x hx => by cases hx
  · cases hstep with
    | store hcase =>
      cases hcase with
      | tooMany => exact (List.length_filter_le _ _).trans (h.room hpages)
      | stored _ _ hroom =>
        rw [h.limit] at hroom
        exact hroom hpages
    | fetch now key => exact (fetchEntry_length h.holds.keys_nodup).le.trans (h.room hpages)
    | rise trigger => exact (List.length_filter_le _ _).trans (h.room hpages)
    | remove key => exact (List.length_filter_le _ _).trans (h.room hpages)
    | clear => exact Nat.zero_le _

/-- A list of operations on a new cache. -/
lemma after_run (settings : Settings) (pages : ℕ) (ops : List Op) :
    ∃ c l, (init pages).run settings ops = some c ∧ After ops pages c l := by
  induction ops using List.reverseRecOn with
  | nil => exact ⟨init pages, [], rfl, after_init pages⟩
  | append_singleton ops op ih =>
    obtain ⟨c, l, hrun, hafter⟩ := ih
    obtain ⟨c', r, l', happly, hholds, hlimit, hstep⟩ := hafter.holds.apply settings op
    refine ⟨c', l', ?_, hafter.step hholds hlimit hstep⟩
    rw [run_concat, hrun, Option.bind_some, happly]
    rfl

/-! ## Consistency -/

/-- The triggers of a key: those of its last store, and the key itself. -/
def triggersOf (ops : List Op) (key : Bytes) : StringSet :=
  (lastStore ops key).elim ∅ fun s => s.triggers.insert key

/-- The containers agree with each other and with what has been stored. -/
structure Consistent (ops : List Op) (c : MemCache) : Prop where
  keys : (c.primary.map fun x => x.2.1).Nodup
  /-- an entry is once in `lru` and once, under its deadline, in `timeout`, and it refers to these
  places -/
  entry : ∀ p key cont, (p, key, cont) ∈ c.primary → ∃ s, lastStore ops key = some s ∧
    cont.data = s.data ∧ (c.lru.filter fun x => x.2 = p) = [(cont.lru, p)] ∧
    (c.timeout.filter fun x => x.2.2 = p) = [(cont.timeout, s.timeout, p)]
  lru : ∀ cell p, (cell, p) ∈ c.lru → ∃ key cont, (p, key, cont) ∈ c.primary
  timeout : ∀ cell deadline p, (cell, deadline, p) ∈ c.timeout →
    ∃ key cont, (p, key, cont) ∈ c.primary
  sorted : c.timeout.Pairwise fun x y => x.2.1 ≤ y.2.1
  names : (c.triggers.map fun x => x.2.1).Nodup
  /-- the list of a trigger has each entry with this trigger once, and nothing else -/
  triggers : ∀ t name cells, (t, name, cells) ∈ c.triggers →
    cells ≠ [] ∧ (cells.map Prod.snd).Nodup ∧
    ∀ p, p ∈ cells.map Prod.snd ↔ ∃ key cont, (p, key, cont) ∈ c.primary ∧ name ∈ triggersOf ops key
  /-- an entry refers to its places in the lists of its triggers -/
  hooks : ∀ p key cont, (p, key, cont) ∈ c.primary → ∀ name, name ∈ triggersOf ops key ↔
    ∃ t cell cells, (t, cell) ∈ cont.triggers ∧ (t, name, cells) ∈ c.triggers ∧ (cell, p) ∈ cells
  size : c.size = c.primary.length
  count : c.triggersCount = (c.primary.map fun x => (triggersOf ops x.2.1).toList.length).sum
  limit : 0 < c.limit → c.size ≤ c.limit

/-- A list with one element that passes a test. -/
lemma filter_eq_singleton {α : Type*} {l : List α} {x : α} {P : α → Bool} (hl : l.Nodup)
    (hx : x ∈ l) (hP : ∀ y ∈ l, P y = true ↔ y = x) : l.filter P = [x] := by
  rw [← List.perm_singleton, List.perm_ext_iff_of_nodup (hl.filter P) (List.nodup_singleton x)]
  intro y
  rw [List.mem_filter, List.mem_singleton]
  constructor
  · exact fun hy => (hP y hy.1).1 hy.2
  · rintro rfl
    exact ⟨hx, (hP y hx).2 rfl⟩

/-- An entry has as many hooks as triggers. -/
lemma Rep.length_triggers {a : Cells (Bytes × Entry)} (h : c.Rep a) {p : ℕ} {e : Entry}
    (hp : (p, key, e) ∈ a) {cont : Container} (hcont : (p, key, cont) ∈ c.primary) :
    cont.triggers.length = e.triggers.toList.length := by
  obtain ⟨cont', hcont', -, -, -, htriggers⟩ := h.entries _ _ _ hp
  obtain ⟨-, rfl⟩ := h.linked.entry_unique hcont hcont'
  -- the trigger of each hook has a name of its own
  have hname : ∀ x ∈ cont'.triggers, ∃ name cells, (x.1, name, cells) ∈ c.triggers := by
    intro x hx
    obtain ⟨name, cells, hcells, -⟩ := h.linked.mem_triggers hcont hx
    exact ⟨name, cells, hcells⟩
  have hperm : (cont'.triggers.map fun x => ((c.triggers.lookup x.1).map Prod.fst).getD []).Perm
      e.triggers.toList := by
    rw [List.perm_ext_iff_of_nodup ?_ e.triggers.nodup]
    · intro name
      rw [SortedSet.mem_toList, htriggers, List.mem_map]
      constructor
      · rintro ⟨⟨t, cell⟩, hx, rfl⟩
        obtain ⟨name, cells, hcells⟩ := hname _ hx
        refine ⟨t, cell, cells, hx, ?_⟩
        dsimp only
        rw [h.linked.triggers_distinct.lookup hcells]
        exact hcells
      · rintro ⟨t, cell, cells, hx, hcells⟩
        refine ⟨(t, cell), hx, ?_⟩
        dsimp only
        rw [h.linked.triggers_distinct.lookup hcells]
        rfl
    · refine List.Nodup.map_on ?_ (h.linked.own_distinct _ _ _ hcont).of_map
      rintro ⟨t, cell⟩ hx ⟨t', cell'⟩ hy heq
      obtain ⟨name, cells, hcells⟩ := hname _ hx
      obtain ⟨name', cells', hcells'⟩ := hname _ hy
      dsimp only at heq
      rw [h.linked.triggers_distinct.lookup hcells,
        h.linked.triggers_distinct.lookup hcells'] at heq
      obtain rfl : name = name' := heq
      obtain ⟨rfl, -⟩ :=
        Prod.mk.inj (List.inj_on_of_nodup_map h.linked.names_nodup hcells hcells' rfl)
      rw [(h.linked.own_distinct _ _ _ hcont).eq_of_mem hx hy]
  have hlen := hperm.length_eq
  rwa [List.length_map] at hlen

lemma After.consistent {pages : ℕ} (h : After ops pages c l) : Consistent ops c := by
  obtain ⟨⟨a, hrep, rfl⟩, hstores, hlimit, hroom⟩ := h
  have hlinked := hrep.linked
  -- each entry with its last store
  have hstore {p : ℕ} {key : Bytes} {cont : Container} (hp : (p, key, cont) ∈ c.primary) :
      ∃ e s, (p, key, e) ∈ a ∧ lastStore ops key = some s ∧ e.data = s.data ∧
        e.triggers = triggersOf ops key ∧ e.timeout = s.timeout := by
    obtain ⟨e, he⟩ := hrep.mem_of_primary hp
    obtain ⟨s, hs, hdata, htriggers, htimeout⟩ := hstores key e (List.mem_map.2 ⟨_, he, rfl⟩)
    refine ⟨e, s, he, hs, hdata, ?_, htimeout⟩
    rw [htriggers, triggersOf, hs]
    rfl
  constructor
  case keys => exact hlinked.keys_nodup
  case entry =>
    intro p key cont hp
    obtain ⟨e, s, he, hs, hdata, -, htimeout⟩ := hstore hp
    obtain ⟨cont', hcont', hdata', -, hcell, -⟩ := hrep.entries _ _ _ he
    obtain ⟨-, rfl⟩ := hlinked.entry_unique hp hcont'
    refine ⟨s, hs, hdata'.trans hdata, ?_, ?_⟩
    · apply filter_eq_singleton hlinked.lru_distinct.of_map (hlinked.mem_lru hp)
      rintro ⟨cell, q⟩ hq
      rw [decide_eq_true_eq, Prod.mk.injEq]
      constructor
      · rintro rfl
        obtain ⟨key', cont'', hq', rfl⟩ := (hlinked.lru_iff _ _).1 hq
        exact ⟨by rw [(hlinked.entry_unique hp hq').2], rfl⟩
      · exact fun heq => heq.2
    · rw [← htimeout]
      apply filter_eq_singleton hlinked.timeout_distinct.of_map hcell
      rintro ⟨cell, deadline, q⟩ hq
      rw [decide_eq_true_eq]
      constructor
      · rintro rfl
        obtain ⟨key', cont'', hq', rfl⟩ := (hlinked.timeout_iff _ _).1 ⟨deadline, hq⟩
        obtain ⟨-, rfl⟩ := hlinked.entry_unique hp hq'
        rw [hlinked.timeout_distinct.eq_of_mem hq hcell]
      · intro heq
        rw [heq]
  case lru =>
    intro cell p hmem
    obtain ⟨key, cont, hp, -⟩ := (hlinked.lru_iff _ _).1 hmem
    exact ⟨key, cont, hp⟩
  case timeout =>
    intro cell deadline p hmem
    obtain ⟨key, cont, hp, -⟩ := (hlinked.timeout_iff _ _).1 ⟨deadline, hmem⟩
    exact ⟨key, cont, hp⟩
  case sorted => exact hlinked.sorted
  case names => exact hlinked.names_nodup
  case hooks =>
    intro p key cont hp name
    obtain ⟨e, s, he, -, -, htriggers, -⟩ := hstore hp
    obtain ⟨cont', hcont', -, -, -, hnames⟩ := hrep.entries _ _ _ he
    obtain ⟨-, rfl⟩ := hlinked.entry_unique hp hcont'
    rw [← htriggers, hnames]
    constructor
    · rintro ⟨t, cell, cells, hhook, hcells⟩
      obtain ⟨name', cells', hcells', hcell⟩ := hlinked.mem_triggers hp hhook
      obtain ⟨rfl, rfl⟩ := Prod.mk.inj (hlinked.triggers_distinct.eq_of_mem hcells hcells')
      exact ⟨t, cell, cells, hhook, hcells, hcell⟩
    · rintro ⟨t, cell, cells, hhook, hcells, -⟩
      exact ⟨t, cell, cells, hhook, hcells⟩
  case triggers =>
    intro t name cells ht
    refine ⟨hlinked.cells_ne_nil _ _ _ ht, hlinked.cells_nodup ht, ?_⟩
    intro p
    constructor
    · intro hmem
      obtain ⟨⟨cell, q⟩, hcell, rfl⟩ := List.mem_map.1 hmem
      obtain ⟨key, cont, hp, hhook⟩ := (hlinked.triggers_iff _ _ _).1 ⟨name, cells, ht, hcell⟩
      obtain ⟨e, s, he, -, -, htriggers, -⟩ := hstore hp
      obtain ⟨cont', hcont', -, -, -, hnames⟩ := hrep.entries _ _ _ he
      obtain ⟨-, rfl⟩ := hlinked.entry_unique hp hcont'
      exact ⟨key, cont', hp, htriggers ▸ (hnames name).2 ⟨t, cell, cells, hhook, ht⟩⟩
    · rintro ⟨key, cont, hp, hname⟩
      obtain ⟨e, s, he, -, -, htriggers, -⟩ := hstore hp
      obtain ⟨cont', hcont', -, -, -, hnames⟩ := hrep.entries _ _ _ he
      obtain ⟨-, rfl⟩ := hlinked.entry_unique hp hcont'
      obtain ⟨t', cell, cells', hhook, hcells'⟩ := (hnames name).1 (htriggers ▸ hname)
      have heq := List.inj_on_of_nodup_map hlinked.names_nodup hcells' ht rfl
      simp only [Prod.mk.injEq] at heq
      obtain ⟨rfl, -, rfl⟩ := heq
      obtain ⟨name'', cells'', hcells'', hcell⟩ := hlinked.mem_triggers hp hhook
      obtain ⟨-, rfl⟩ := Prod.mk.inj (hlinked.triggers_distinct.eq_of_mem ht hcells'')
      exact List.mem_map.2 ⟨_, hcell, rfl⟩
  case size => exact hlinked.size_eq
  case count =>
    rw [hlinked.count_eq]
    congr 1
    apply List.map_congr_left
    rintro ⟨p, key, cont⟩ hp
    obtain ⟨e, s, he, -, -, htriggers, -⟩ := hstore hp
    rw [hrep.length_triggers he hp, htriggers]
  case limit =>
    rw [hrep.size_eq, hlimit, ← List.length_map]
    exact hroom

/-- After every list of operations on a new cache its containers agree. -/
theorem run_consistent (settings : Settings) (pages : ℕ) (ops : List Op) :
    ∃ c, (init pages).run settings ops = some c ∧ Consistent ops c := by
  obtain ⟨c, l, hrun, hafter⟩ := after_run settings pages ops
  exact ⟨c, hrun, hafter.consistent⟩

end MemCache

end Cache

end Cppcms
