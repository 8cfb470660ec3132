import Cppcms.Cache.Runs

/-!
# What a run of the cache has left

The entries of a cache in terms of its history: an entry is there if it has been stored and nothing
has taken it away since (`Live`), and the entries are ordered by the time of their last use.
-/

namespace Cppcms

namespace Cache

namespace MemCache

/-- One operation of a run. -/
structure Step where
  before : MemCache
  op : Op
  after : MemCache
  result : Option Entry

/-- The operations of a run, with the states between them. -/
def trace (settings : Settings) : MemCache → List Op → List Step
  | _, [] => []
  | c, op :: ops =>
    match c.apply settings op with
    | none => []
    | some (c', r) => ⟨c, op, c', r⟩ :: trace settings c' ops

/-- The number of entries with other keys. -/
def others (c : MemCache) (key : Bytes) : ℕ := (c.primary.filter fun x => x.2.1 ≠ key).length

/-- The operation has stored an entry. -/
def Step.Stores (settings : Settings) (s : Step) (key : Bytes) (e : Entry) : Prop :=
  ∃ now memory data triggers timeout gen, s.op = .store now memory key data triggers timeout gen ∧
    settings.sizeLimit.any (· < s.before.others key) = false ∧
    e = s.before.newEntry key data triggers timeout gen

/-- The operation takes an entry with the given triggers away: it stores the key again, evicts it,
removes it, clears the cache or raises one of the triggers. -/
def Step.Kills (s : Step) (key : Bytes) (triggers : StringSet) : Prop :=
  match s.op with
  | .store _ _ key' _ _ _ _ => key' = key ∨ ((s.before.find key).isSome ∧ s.after.find key = none)
  | .fetch _ _ => False
  | .rise trigger => trigger ∈ triggers
  | .remove key' => key' = key
  | .clear => True

/-- The entry has been stored, and since then nothing has taken it away. -/
def Live (settings : Settings) (tr : List Step) (key : Bytes) (e : Entry) : Prop :=
  ∃ tr₁ s tr₂, tr = tr₁ ++ s :: tr₂ ∧ s.Stores settings key e ∧
    ∀ s' ∈ tr₂, ¬ s'.Kills key e.triggers

/-- The operation stores the key or fetches it with success. -/
def Step.uses (s : Step) (key : Bytes) : Bool :=
  match s.op with
  | .store _ _ key' _ _ _ _ => key' = key
  | .fetch _ key' => key' = key && s.result.isSome
  | _ => false

variable {c c' : MemCache} {gen : Option ℕ} {key' : Bytes} {memory : Memory} {now : ℤ}
  {r : Option Entry} {timeout : ℤ} {triggers : StringSet} {key : Bytes} {e : Entry} {s : Step}
  {tr : List Step}

lemma Step.uses_store {key data : Bytes} (hne : key' ≠ key) :
    Step.uses ⟨c, .store now memory key data triggers timeout gen, c', r⟩ key' = false :=
  decide_eq_false fun heq => hne heq.symm

lemma Step.uses_fetch (hne : key' ≠ key) : Step.uses ⟨c, .fetch now key, c', r⟩ key' = false := by
  have hkey : decide (key = key') = false := decide_eq_false fun heq => hne heq.symm
  unfold Step.uses
  dsimp only
  rw [hkey, Bool.false_and]

/-- The number of operations since the last use of a key. -/
def since (tr : List Step) (key : Bytes) : ℕ := tr.reverse.findIdx fun s => s.uses key

variable {settings : Settings} {c c' : MemCache} {l l' : List (Bytes × Entry)}

lemma live_concat :
    Live settings (tr ++ [s]) key e ↔
      s.Stores settings key e ∨ (Live settings tr key e ∧ ¬ s.Kills key e.triggers) := by
  constructor
  · rintro ⟨tr₁, s₁, tr₂, heq, hstores, hkills⟩
    obtain rfl | ⟨tr₂, s₂, rfl⟩ := List.eq_nil_or_concat tr₂
    · obtain ⟨-, hs⟩ := List.append_inj' heq rfl
      obtain ⟨rfl, -⟩ := List.cons.inj hs
      exact .inl hstores
    · rw [List.concat_eq_append] at heq hkills
      rw [← List.cons_append, ← List.append_assoc] at heq
      obtain ⟨rfl, hs⟩ := List.append_inj' heq rfl
      obtain ⟨rfl, -⟩ := List.cons.inj hs
      exact .inr
        ⟨⟨tr₁, s₁, tr₂, rfl, hstores, fun s' hs' => hkills s' (List.mem_append_left _ hs')⟩,
          hkills s (List.mem_append_right _ (List.mem_singleton.2 rfl))⟩
  · rintro (hstores | ⟨⟨tr₁, s₁, tr₂, rfl, hstores, hkills⟩, hs⟩)
    · exact ⟨tr, s, [], rfl, hstores, fun s' hs' => by cases hs'⟩
    · refine ⟨tr₁, s₁, tr₂ ++ [s], by simp, hstores, ?_⟩
      intro s' hs'
      obtain hs' | hs' := List.mem_append.1 hs'
      · exact hkills s' hs'
      · obtain rfl := List.mem_singleton.1 hs'
        exact hs

lemma since_concat (tr : List Step) (s : Step) (key : Bytes) :
    since (tr ++ [s]) key = if s.uses key then 0 else since tr key + 1 := by
  unfold since
  rw [List.reverse_append, List.reverse_singleton, List.singleton_append, List.findIdx_cons]
  cases s.uses key <;> rfl

lemma trace_concat {ops : List Op} {op : Op} (hrun : c.run settings ops = some c') {c'' : MemCache}
    (happly : c'.apply settings op = some (c'', r)) :
    trace settings c (ops ++ [op]) = trace settings c ops ++ [⟨c', op, c'', r⟩] := by
  induction ops generalizing c with
  | nil =>
    obtain rfl := Option.some.inj hrun
    simp only [List.nil_append, trace, happly]
  | cons op₁ ops ih =>
    unfold run at hrun
    rw [List.foldlM_cons] at hrun
    cases h₁ : c.apply settings op₁ with
    | none =>
      rw [h₁] at hrun
      cases hrun
    | some q =>
      obtain ⟨c₁, r₁⟩ := q
      rw [h₁] at hrun
      rw [List.cons_append, trace, trace, h₁]
      dsimp only
      rw [ih hrun, List.cons_append]

namespace Holds

variable {key : Bytes}

lemma find_isSome (h : c.Holds l) : (c.find key).isSome ↔ ∃ e, (key, e) ∈ l := by
  obtain ⟨a, hrep, rfl⟩ := h
  constructor
  · intro hsome
    obtain ⟨⟨p, key', cont⟩, hfind⟩ := Option.isSome_iff_exists.1 hsome
    obtain rfl : key' = key := by simpa using List.find?_some hfind
    obtain ⟨e, he⟩ := hrep.mem_of_primary (List.mem_of_find?_eq_some hfind)
    exact ⟨e, List.mem_map.2 ⟨_, he, rfl⟩⟩
  · rintro ⟨e, hmem⟩
    obtain ⟨⟨p, key', e'⟩, hp, heq⟩ := List.mem_map.1 hmem
    obtain ⟨rfl, rfl⟩ := Prod.mk.inj heq
    obtain ⟨cont, hfind, -⟩ := hrep.find_eq_some hp
    rw [hfind]
    rfl

/-- The entries with other keys, in both views. -/
lemma others_eq (h : c.Holds l) (key : Bytes) :
    c.others key = (l.filter fun x => x.1 ≠ key).length := by
  obtain ⟨a, hrep, rfl⟩ := id h
  have hperm : (c.primary.map fun x => x.2.1).Perm ((a.map Prod.snd).map Prod.fst) := by
    rw [List.perm_ext_iff_of_nodup hrep.linked.keys_nodup h.keys_nodup]
    intro key'
    constructor
    · intro hmem
      obtain ⟨⟨p, key'', cont⟩, hp, rfl⟩ := List.mem_map.1 hmem
      obtain ⟨e, he⟩ := hrep.mem_of_primary hp
      exact List.mem_map.2 ⟨_, List.mem_map.2 ⟨_, he, rfl⟩, rfl⟩
    · intro hmem
      obtain ⟨x, hx, rfl⟩ := List.mem_map.1 hmem
      obtain ⟨⟨p, key'', e⟩, hp, rfl⟩ := List.mem_map.1 hx
      obtain ⟨cont, hcont, -⟩ := hrep.entries _ _ _ hp
      exact List.mem_map.2 ⟨_, hcont, rfl⟩
  have hlen := (hperm.filter fun key' => decide (key' ≠ key)).length_eq
  rw [List.filter_map, List.filter_map, List.length_map, List.length_map] at hlen
  exact hlen

end Holds

/-- The entries are those that are live, and they are ordered by their last use. -/
structure Reflects (settings : Settings) (tr : List Step) (l : List (Bytes × Entry)) : Prop where
  live : ∀ key e, (key, e) ∈ l ↔ Live settings tr key e
  recent : l.Pairwise fun x y => since tr x.1 < since tr y.1

/-- An operation that uses none of the remaining entries keeps their order. -/
lemma Reflects.recent_concat (h : Reflects settings tr l) (hsub : l'.Sublist l)
    (huses : ∀ x ∈ l', s.uses x.1 = false) :
    l'.Pairwise fun x y => since (tr ++ [s]) x.1 < since (tr ++ [s]) y.1 := by
  refine List.Pairwise.imp_of_mem ?_ (h.recent.sublist hsub)
  intro x y hx hy hxy
  rw [since_concat, since_concat, huses x hx, huses y hy]
  exact Nat.succ_lt_succ hxy

/-- An operation that uses an entry brings it to the front. -/
lemma Reflects.recent_cons (h : Reflects settings tr l) (hsub : l'.Sublist l)
    (huses : ∀ x ∈ l', s.uses x.1 = false) (hkey : s.uses key = true) :
    ((key, e) :: l').Pairwise fun x y => since (tr ++ [s]) x.1 < since (tr ++ [s]) y.1 := by
  refine List.pairwise_cons.2 ⟨?_, h.recent_concat hsub huses⟩
  intro y hy
  dsimp only
  rw [since_concat, since_concat, hkey, huses y hy]
  exact Nat.succ_pos _

/-- An operation that stores nothing leaves the entries that it does not kill. -/
lemma Reflects.live_concat (h : Reflects settings tr l)
    (hstores : ∀ key e, ¬ s.Stores settings key e)
    (hkills : ∀ key e, (key, e) ∈ l' ↔ (key, e) ∈ l ∧ ¬ s.Kills key e.triggers) (key : Bytes)
    (e : Entry) :
    (key, e) ∈ l' ↔ Live settings (tr ++ [s]) key e := by
  rw [MemCache.live_concat, hkills, h.live]
  constructor
  · exact .inr
  · exact fun hlive => hlive.resolve_left (hstores key e)

/-- What a store leaves of the entries with other keys. -/
lemma Reflects.store_kills {key data : Bytes} (h : Reflects settings tr l) (hbefore : c.Holds l)
    (hafter : c'.Holds l') (hrest : ∀ x ∈ l', x.1 ≠ key → x ∈ l) (hkey : key' ≠ key) :
    (key', e) ∈ l' ↔ Live settings tr key' e ∧
      ¬ Step.Kills ⟨c, .store now memory key data triggers timeout gen, c', r⟩ key' e.triggers := by
  constructor
  · intro hmem
    refine ⟨(h.live _ _).1 (hrest _ hmem hkey), ?_⟩
    rintro (heq | ⟨-, hnone⟩)
    · exact hkey heq.symm
    · have hsome := hafter.find_isSome.2 ⟨e, hmem⟩
      dsimp only at hnone
      rw [hnone] at hsome
      cases hsome
  · rintro ⟨hlive, hkills⟩
    have hmem := (h.live _ _).2 hlive
    -- the entry is still found, and there is no other one with this key
    have hsome : (c'.find key').isSome := by
      rw [← Option.ne_none_iff_isSome]
      exact fun hnone => hkills (.inr ⟨hbefore.find_isSome.2 ⟨e, hmem⟩, hnone⟩)
    obtain ⟨e', hmem'⟩ := hafter.find_isSome.1 hsome
    have heq := List.inj_on_of_nodup_map hbefore.keys_nodup (hrest _ hmem' hkey) hmem rfl
    rwa [heq] at hmem'

/-- One operation. -/
lemma Reflects.step {tr : List Step} {op : Op} {r : Option Entry} (h : Reflects settings tr l)
    (hbefore : c.Holds l) (hafter : c'.Holds l') (hstep : EntryStep settings c l op l' r) :
    Reflects settings (tr ++ [⟨c, op, c', r⟩]) l' := by
  cases hstep with
  | @store now memory key data triggers timeout gen l' g hcase =>
    generalize g = g at hcase
    cases hcase with
    | tooMany hmany =>
      constructor
      · apply h.live_concat
        · rintro key' e ⟨_, _, _, _, _, _, hop, hfew, -⟩
          cases hop
          rw [hbefore.others_eq, hmany] at hfew
          cases hfew
        · intro key' e
          rw [h.live]
          by_cases hkey : key' = key
          · subst hkey
            simp [Step.Kills]
          · exact h.store_kills hbefore hafter (fun x hx _ => (List.mem_filter.1 hx).1) hkey
      · refine h.recent_concat List.filter_sublist ?_
        intro x hx
        have hne : x.1 ≠ key := by simpa using (List.mem_filter.1 hx).2
        exact Step.uses_store hne
    | @stored rest hfew hevicts hroom =>
      have hne : ∀ x ∈ rest, x.1 ≠ key := fun x hx => by
        simpa using (List.mem_filter.1 (hevicts.sublist.subset hx)).2
      constructor
      · intro key' e
        rw [MemCache.live_concat]
        by_cases hkey : key' = key
        · subst hkey
          constructor
          · intro hmem
            obtain heq | hmem := List.mem_cons.1 hmem
            · refine .inl ⟨_, _, _, _, _, _, rfl, ?_, (Prod.mk.inj heq).2⟩
              rw [hbefore.others_eq]
              exact hfew
            · exact absurd rfl (hne _ hmem)
          · rintro (⟨_, _, _, _, _, _, hop, -, rfl⟩ | ⟨-, hkills⟩)
            · cases hop
              exact List.mem_cons_self
            · exact absurd (.inl rfl) hkills
        · rw [h.store_kills hbefore hafter ?_ hkey]
          · constructor
            · exact .inr
            · rintro (⟨_, _, _, _, _, _, hop, -, -⟩ | hlive)
              · cases hop
                exact absurd rfl hkey
              · exact hlive
          · intro x hx hxkey
            obtain rfl | hx := List.mem_cons.1 hx
            · exact absurd rfl hxkey
            · exact (List.mem_filter.1 (hevicts.sublist.subset hx)).1
      · apply h.recent_cons (hevicts.sublist.trans List.filter_sublist)
        · exact fun x hx => Step.uses_store (hne x hx)
        · simp [Step.uses]
  | fetch now key =>
    constructor
    · apply h.live_concat
      · rintro key' e ⟨_, _, _, _, _, _, hop, -⟩
        cases hop
      · intro key' e
        rw [hbefore.mem_fetchEntry]
        simp [Step.Kills]
    · unfold fetchEntry
      cases hlookup : l.lookup key with
      | none => exact h.recent_concat (List.Sublist.refl l) fun x _ => by simp [Step.uses]
      | some e =>
        dsimp only
        split_ifs with hnow
        · exact h.recent_concat (List.Sublist.refl l) fun x _ => by simp [Step.uses]
        · refine h.recent_cons List.filter_sublist ?_ (by simp [Step.uses])
          intro x hx
          have hne : x.1 ≠ key := by simpa using (List.mem_filter.1 hx).2
          exact Step.uses_fetch hne
  | rise trigger =>
    constructor
    · apply h.live_concat
      · rintro key' e ⟨_, _, _, _, _, _, hop, -⟩
        cases hop
      · intro key' e
        simp [Step.Kills]
    · exact h.recent_concat List.filter_sublist fun x _ => rfl
  | remove key =>
    constructor
    · apply h.live_concat
      · rintro key' e ⟨_, _, _, _, _, _, hop, -⟩
        cases hop
      · intro key' e
        simp only [List.mem_filter, Step.Kills, decide_eq_true_eq, ne_eq, @eq_comm _ key]
    · exact h.recent_concat List.filter_sublist fun x _ => rfl
  | clear =>
    constructor
    · apply h.live_concat
      · rintro key' e ⟨_, _, _, _, _, _, hop, -⟩
        cases hop
      · intro key' e
        simp [Step.Kills]
    · exact List.Pairwise.nil

/-- A list of operations on a new cache. -/
lemma reflects_run (settings : Settings) (pages : ℕ) (ops : List Op) :
    ∃ c l, (init pages).run settings ops = some c ∧ c.Holds l ∧ c.limit = pages ∧
      Reflects settings (trace settings (init pages) ops) l := by
  induction ops using List.reverseRecOn with
  | nil =>
    refine ⟨init pages, [], rfl, holds_init pages, rfl, ?_, List.Pairwise.nil⟩
    intro key e
    constructor
    · intro hmem
      cases hmem
    · rintro ⟨tr₁, s, tr₂, heq, -⟩
      simp [trace] at heq
  | append_singleton ops op ih =>
    obtain ⟨c, l, hrun, hholds, hlimit, hreflects⟩ := ih
    obtain ⟨c', r, l', happly, hholds', hlimit', hstep⟩ := hholds.apply settings op
    refine ⟨c', l', ?_, hholds', hlimit'.trans hlimit, ?_⟩
    · rw [run_concat, hrun, Option.bind_some, happly]
      rfl
    · rw [trace_concat hrun happly]
      exact hreflects.step hholds hholds' hstep

/-- The cache after a list of operations is a map with deadlines: a fetch finds what has been stored
and not been taken away since, if its deadline has not passed, and a store takes entries away only
when the limit is reached or the memory is short, first the expired ones and then those that have
not been used for the longest time. -/
theorem run_reflects (settings : Settings) (pages : ℕ) (ops : List Op) :
    ∃ c l, (init pages).run settings ops = some c ∧ c.limit = pages ∧
      Reflects settings (trace settings (init pages) ops) l ∧
      (∀ now key, ∃ c' r, c.fetch now key = some (c', r) ∧
        ∀ e, r = some e ↔ Live settings (trace settings (init pages) ops) key e ∧ now ≤ e.timeout) ∧
      ∀ now memory key data triggers timeout gen, ∃ c' l',
        c.store settings now memory key data triggers timeout gen = some c' ∧
        Reflects settings (trace settings (init pages)
          (ops ++ [.store now memory key data triggers timeout gen])) l' ∧
        StoresEntry settings c now memory key data triggers timeout gen l l' c'.generation := by
  obtain ⟨c, l, hrun, hholds, hlimit, hreflects⟩ := reflects_run settings pages ops
  refine ⟨c, l, hrun, hlimit, hreflects, ?_, ?_⟩
  · intro now key
    obtain ⟨c', hfetch, -, -⟩ := hholds.fetch now key
    refine ⟨c', _, hfetch, ?_⟩
    intro e
    rw [← hreflects.live, hholds.fetchEntry_eq_some]
  · intro now memory key data triggers timeout gen
    obtain ⟨c', l', hstore, hholds', -, hcase⟩ := hholds.store settings now memory key data triggers
      timeout gen
    refine ⟨c', l', hstore, ?_, hcase⟩
    have happly : c.apply settings (.store now memory key data triggers timeout gen) =
        some (c', none) := by
      rw [MemCache.apply, hstore]
      rfl
    rw [trace_concat hrun happly]
    exact hreflects.step hholds hholds' (.store hcase)

/-- With short memory an entry goes though the limit is far away. -/
theorem store_evicts_early :
    ∃ c c', (init 10).run (Settings.process (2 ^ 20)) [.store 0 Memory.enough [1] [] ∅ 9 none] =
      some c ∧
      c.limit = 10 ∧ c.others [2] = 1 ∧ (c.find [1]).isSome ∧
      c.store (Settings.process (2 ^ 20)) 0 (fun _ => true) [2] [] ∅ 9 none = some c' ∧
      c'.find [1] = none := by
  refine ⟨_, _, rfl, rfl, ?_, ?_, rfl, ?_⟩
  · decide
  · decide
  · decide

end MemCache

end Cache

end Cppcms
