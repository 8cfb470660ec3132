import Cppcms.Tcp.Coherence

/-!
# Runs of clients with local caches

Whatever the order of the steps of the threads, a fetch returns what the server has when it answers.
-/

namespace Cppcms

namespace Tcp

open Cache

variable {R : Entry → Entry → Prop} {Q : Bytes → StringSet → Prop} {log : Log}
    {n : ℕ} {cfg : Config}
  {s s' : System}

/-- The result of a fetch is, in the sense of `R`, a copy of what the server had. -/
def Fetched.Right (R : Entry → Entry → Prop) (r : Fetched) : Prop :=
  (r.result = none ↔ r.served = none) ∧ ∀ e, r.result = some e → ∃ e', r.served = some e' ∧ R e e'

/-- One step. -/
lemma SystemOk.step (hR : CopyRelation R) (h : SystemOk R Q log n s) {i : ℕ} {now : ℤ}
    {action : Action} (hstart : StartOk R Q action) (hanswer : AnswerOk R Q s i now action)
    {r : Option Fetched} (hstep : s.step cfg i now action = some (s', r))
    (hstores : s'.stores ≤ 2 ^ 64) :
    (∃ log' n', SystemOk R Q log' n' s') ∧ ∀ f, r = some f → f.Right R := by
  cases action with
  | start call =>
    unfold System.step at hstep
    dsimp only at hstep
    split at hstep
    · obtain ⟨s₁, hs, heq⟩ := Option.map_eq_some_iff.1 hstep
      obtain ⟨rfl, rfl⟩ := Prod.mk.inj heq
      exact ⟨⟨log, n, h.start hstart hs⟩, fun f hf => by cases hf⟩
    · cases hstep
  | serve memory =>
    obtain ⟨s₁, hs, heq⟩ := Option.map_eq_some_iff.1 hstep
    obtain ⟨rfl, rfl⟩ := Prod.mk.inj heq
    obtain ⟨log', n', hok, -⟩ := h.serve hanswer hs hstores
    exact ⟨⟨log', n', hok⟩, fun f hf => by cases hf⟩
  | finish memory =>
    obtain ⟨⟨s₁, r₁⟩, hs, heq⟩ := Option.map_eq_some_iff.1 hstep
    obtain ⟨rfl, rfl⟩ := Prod.mk.inj heq
    obtain ⟨hok, hnone, hsome⟩ := h.finish hR hs
    refine ⟨⟨log, n, hok⟩, ?_⟩
    rintro _ ⟨⟩
    refine ⟨hnone, fun e he => ?_⟩
    obtain ⟨e', hserved, -, -, hee⟩ := hsome e he
    exact ⟨e', hserved, hee⟩

variable {action : Action} {i : ℕ} {now : ℤ} {actions : List (ℕ × ℤ × Action)}
  {fetched : List Fetched} {hit : Option Entry} {key : Bytes} {copies : List (Bytes × Entry)}
  {g : ℕ} {s : System}

/-- The server does not forget how often it has been asked to store. -/
lemma stores_le_of_step {r : Option Fetched} (hstep : s.step cfg i now action = some (s', r)) :
    s.stores ≤ s'.stores := by
  have honL1 : ∀ {s s' : System} {f : MemCache → Option MemCache}, s.onL1 cfg i f = some s' →
      s'.stores = s.stores := by
    intro s s' f hon
    unfold System.onL1 at hon
    split at hon
    · obtain rfl := Option.some.inj hon
      rfl
    · obtain ⟨c, -, rfl⟩ := Option.map_eq_some_iff.1 hon
      rfl
  cases action with
  | start call =>
    unfold System.step at hstep
    dsimp only at hstep
    split at hstep
    · obtain ⟨s₁, hs, heq⟩ := Option.map_eq_some_iff.1 hstep
      obtain ⟨rfl, -⟩ := Prod.mk.inj heq
      unfold System.start at hs
      split at hs
      · split at hs
        · obtain rfl := Option.some.inj hs
          exact le_rfl
        · obtain ⟨q, -, rfl⟩ := Option.map_eq_some_iff.1 hs
          exact le_rfl
      all_goals
        obtain ⟨s₂, hon, rfl⟩ := Option.map_eq_some_iff.1 hs
        exact (honL1 hon).ge
    · cases hstep
  | serve memory =>
    obtain ⟨s₁, hs, heq⟩ := Option.map_eq_some_iff.1 hstep
    obtain ⟨rfl, -⟩ := Prod.mk.inj heq
    unfold System.serve at hs
    split at hs
    · obtain ⟨m, -, hs⟩ := Option.bind_eq_some_iff.1 hs
      obtain ⟨q, -, hs⟩ := Option.bind_eq_some_iff.1 hs
      obtain ⟨answer, -, rfl⟩ := Option.map_eq_some_iff.1 hs
      exact le_rfl
    · obtain ⟨m, -, hs⟩ := Option.bind_eq_some_iff.1 hs
      obtain ⟨q, -, rfl⟩ := Option.map_eq_some_iff.1 hs
      exact Nat.le_succ _
    · obtain ⟨m, -, hs⟩ := Option.bind_eq_some_iff.1 hs
      obtain ⟨q, -, rfl⟩ := Option.map_eq_some_iff.1 hs
      exact le_rfl
    · obtain ⟨m, -, hs⟩ := Option.bind_eq_some_iff.1 hs
      obtain ⟨q, -, rfl⟩ := Option.map_eq_some_iff.1 hs
      exact le_rfl
    · cases hs
  | finish memory =>
    obtain ⟨⟨s₁, r₁⟩, hs, heq⟩ := Option.map_eq_some_iff.1 hstep
    obtain ⟨rfl, -⟩ := Prod.mk.inj heq
    unfold System.finish at hs
    split at hs
    · dsimp only at hs
      split at hs
      · obtain ⟨rfl, -⟩ := Prod.mk.inj (Option.some.inj hs)
        exact le_rfl
      · obtain ⟨s₂, hon, heq⟩ := Option.map_eq_some_iff.1 hs
        obtain ⟨rfl, -⟩ := Prod.mk.inj heq
        exact (honL1 hon).ge
      · obtain ⟨s₂, hon, heq⟩ := Option.map_eq_some_iff.1 hs
        obtain ⟨rfl, -⟩ := Prod.mk.inj heq
        exact (honL1 hon).ge
      · obtain ⟨rfl, -⟩ := Prod.mk.inj (Option.some.inj hs)
        exact le_rfl
    · cases hs

/-- The conditions of all steps of a run. -/
def StepsOk (C : System → ℕ → ℤ → Action → Prop) (cfg : Config) (s : System) :
    List (ℕ × ℤ × Action) → Prop
  | [] => True
  | (i, now, action) :: rest =>
    C s i now action ∧ ∀ s' r, s.step cfg i now action = some (s', r) → StepsOk C cfg s' rest

lemma stores_le_of_run (hrun : s.run cfg actions = some (s', fetched)) : s.stores ≤ s'.stores := by
  induction actions generalizing s fetched with
  | nil =>
    obtain ⟨rfl, -⟩ := Prod.mk.inj (Option.some.inj hrun)
    exact le_rfl
  | cons x rest ih =>
    obtain ⟨i, now, action⟩ := x
    obtain ⟨⟨s₁, r⟩, hstep, hmap⟩ := Option.bind_eq_some_iff.1 hrun
    obtain ⟨⟨s₂, fetched'⟩, hrest, heq⟩ := Option.map_eq_some_iff.1 hmap
    obtain ⟨rfl, -⟩ := Prod.mk.inj heq
    exact (stores_le_of_step hstep).trans (ih hrest)

/-- A run. -/
lemma SystemOk.run (hR : CopyRelation R) (h : SystemOk R Q log n s)
    (hsteps :
      StepsOk (fun s i now action => StartOk R Q action ∧ AnswerOk R Q s i now action)
      cfg s actions)
    (hrun : s.run cfg actions = some (s', fetched)) (hstores : s'.stores ≤ 2 ^ 64) :
    (∃ log' n', SystemOk R Q log' n' s') ∧ ∀ f ∈ fetched, f.Right R := by
  induction actions generalizing s fetched log n with
  | nil =>
    obtain ⟨rfl, rfl⟩ := Prod.mk.inj (Option.some.inj hrun)
    exact ⟨⟨log, n, h⟩, fun f hf => by cases hf⟩
  | cons x rest ih =>
    obtain ⟨i, now, action⟩ := x
    obtain ⟨⟨hstart, hanswer⟩, hsteps⟩ := hsteps
    obtain ⟨⟨s₁, r⟩, hstep, hmap⟩ := Option.bind_eq_some_iff.1 hrun
    obtain ⟨⟨s₂, fetched'⟩, hrest, heq⟩ := Option.map_eq_some_iff.1 hmap
    obtain ⟨rfl, rfl⟩ := Prod.mk.inj heq
    have hstores₁ := (stores_le_of_run hrest).trans hstores
    obtain ⟨⟨log₁, n₁, hok⟩, hright⟩ := h.step hR hstart hanswer hstep hstores₁
    obtain ⟨hok', hright'⟩ := ih hok (hsteps s₁ r hstep) hrest
    refine ⟨hok', fun f hf => ?_⟩
    obtain hf | hf := List.mem_append.1 hf
    · exact hright f (Option.mem_toList.1 hf)
    · exact hright' f hf

lemma systemOk_init (pages : ℕ) (l1 : ℕ → ℕ) :
    SystemOk R Q (fun _ => ([], ⟨[], ∅, 0, 0⟩)) 0 (System.init pages fun i => some (l1 i)) where
  server := ⟨[], MemCache.holds_init pages, rfl, fun _ _ h => absurd h List.not_mem_nil,
    fun _ _ h => absurd h List.not_mem_nil, fun _ _ h => absurd h List.not_mem_nil⟩
  l1 i := ⟨MemCache.init (l1 i), rfl, [], MemCache.holds_init (l1 i),
    fun _ _ h => absurd h List.not_mem_nil⟩
  threads _ := trivial
  stores := le_rfl

/-! ## Progress -/

/-- A local cache with copies does what it is asked for. -/
lemma SystemOk.onL1_isSome (h : SystemOk R Q log n s) {f : MemCache → Option MemCache}
    (hf : ∀ c l, c.Holds l → ∃ c', f c = some c') : (s.onL1 cfg i f).isSome := by
  obtain ⟨c, hc, l, hholds, -⟩ := h.l1 (cfg.client i)
  obtain ⟨c', hfc⟩ := hf c l hholds
  unfold System.onL1
  rw [hc]
  dsimp only
  rw [hfc]
  rfl

lemma holds_remove_some (key : Bytes) (c : MemCache) (l : List (Bytes × Entry)) (h : c.Holds l) :
    ∃ c', c.remove key = some c' := by
  obtain ⟨c', hremove, -⟩ := h.remove key
  exact ⟨c', hremove⟩

/-- A call can be started. -/
lemma SystemOk.start_isSome (h : SystemOk R Q log n s) (i : ℕ) (now : ℤ) (call : ClientCall) :
    (s.start cfg i now call).isSome := by
  cases call with
  | fetch key tags =>
    obtain ⟨c, hc, l, hholds, -⟩ := h.l1 (cfg.client i)
    obtain ⟨c', hfetch, -⟩ := hholds.fetch now key
    unfold System.start
    dsimp only
    rw [hc]
    dsimp only
    rw [hfetch]
    rfl
  | store key data triggers timeout =>
    rw [System.start, Option.isSome_map]
    exact h.onL1_isSome (holds_remove_some key)
  | rise trigger =>
    rw [System.start, Option.isSome_map]
    refine h.onL1_isSome fun c l hholds => ?_
    obtain ⟨c', hrise, -⟩ := hholds.rise trigger
    exact ⟨c', hrise⟩
  | clear =>
    rw [System.start, Option.isSome_map]
    exact h.onL1_isSome fun c l hholds => ⟨c.clear, rfl⟩

/-- A fetch that has been answered can end. -/
lemma SystemOk.finish_isSome (h : SystemOk R Q log n s) (now : ℤ) (memory : Cache.Memory)
    {answer : FetchResult} {served : Option Entry}
    (hpc : s.threads i = .fetched key hit answer served) : (s.finish cfg i now memory).isSome := by
  have hidle : SystemOk R Q log n (s.goto i .idle) := h.goto trivial
  have hkeep : ∀ e, ((s.goto i .idle).keep cfg i now memory key e).isSome := by
    intro e
    refine hidle.onL1_isSome fun c l hholds => ?_
    obtain ⟨c', l', hstore, -⟩ := hholds.store cfg.l1 now memory key e.data e.triggers e.timeout
      (some e.generation)
    exact ⟨c', hstore⟩
  unfold System.finish
  rw [hpc]
  dsimp only
  split
  · rfl
  · rw [Option.isSome_map]
    exact hidle.onL1_isSome (holds_remove_some key)
  · rw [Option.isSome_map]
    exact hkeep _
  · rfl

/-- A fetch can be answered if the entry of the server fits into a message. -/
lemma SystemOk.serve_isSome (h : SystemOk R Q log n s) (memory : Cache.Memory)
    {tags : Option StringSet} (hpc : s.threads i = .fetching key tags hit)
    (hfits : ∀ e, (s.server.fetch now key).bind Prod.snd = some e →
      e.data.length + (terminate 0 e.triggers.toList).length < 2 ^ 32) :
    (s.serve cfg i now memory).isSome := by
  obtain ⟨l, hserver⟩ := h.server
  obtain ⟨hkey, ⟨tags, rfl, -⟩, -⟩ : PcOk R Q log n (.fetching key tags hit) := hpc ▸ h.threads i
  obtain ⟨c, hfetch, -, -⟩ := hserver.holds.fetch now key
  rw [hfetch, Option.bind_some] at hfits
  unfold System.serve
  rw [hpc]
  dsimp only
  rw [fetchRequest, send_length hkey, Option.bind_some, ask_fetch rfl]
  unfold serveFetch
  rw [hfetch, Option.bind_some]
  dsimp only at hfits ⊢
  cases hentry : (MemCache.fetchEntry now key l).2 with
  | none => rfl
  | some e =>
    have hlen := hfits e hentry
    dsimp only
    split_ifs with hnewer htags
    · rfl
    · have hdata : uint32 e.data.length = e.data.length := Nat.mod_eq_of_lt (by omega)
      rw [send_length (by rw [List.length_append]; omega)]
      dsimp only [Option.map_some, Option.bind_some]
      rw [Option.isSome_map, fetchAnswer]
      dsimp only
      rw [Option.isSome_map, slice, if_pos (by rw [hdata, List.length_append]; omega)]
      rfl
    · exact absurd rfl htags

/-! ## The value of a fetch -/

/-- Entries with the same data, deadline and number. -/
def SameValue (e e' : Entry) : Prop :=
  e.data = e'.data ∧ e.timeout = e'.timeout ∧ e.generation = e'.generation

lemma copyRelation_sameValue : CopyRelation SameValue where
  generation _ _ h := h.2.2
  insert _ _ _ h _ := h

/-- The entry that the server has for a key. -/
def System.live (s : System) (now : ℤ) (key : Bytes) : Option Entry :=
  (s.server.fetch now key).bind Prod.snd

/-- As long as the numbers of the server are not used up, a fetch finds an entry exactly if the
server has one when it answers, and returns its data, deadline and number.  A call can be started in
every state, a fetch can be answered if the entry fits into a message, and it can end after that. -/
theorem run_fetched (cfg : Config) (pages : ℕ) (l1 : ℕ → ℕ) {actions : List (ℕ × ℤ × Action)}
    {s : System} {fetched : List Fetched}
    (hkeys : ∀ i now key tags, (i, now, .start (.fetch key tags)) ∈ actions → key.length < 2 ^ 32)
    (hrun : (System.init pages fun i => some (l1 i)).run cfg actions = some (s, fetched))
    (hstores : s.stores ≤ 2 ^ 64) :
    (∀ f ∈ fetched, (f.result = none ↔ f.served = none) ∧
      ∀ e, f.result = some e → ∃ e', f.served = some e' ∧ SameValue e e') ∧
    ∀ i now memory, (∀ call, (s.start cfg i now call).isSome) ∧
      (∀ key tags hit, s.threads i = .fetching key tags hit →
        (∀ e, s.live now key = some e →
          e.data.length + (terminate 0 e.triggers.toList).length < 2 ^ 32) →
        (s.serve cfg i now memory).isSome) ∧
      ∀ key hit answer served, s.threads i = .fetched key hit answer served →
        (s.finish cfg i now memory).isSome := by
  have hsteps : ∀ (s : System) (actions : List (ℕ × ℤ × Action)),
      (∀ i now key tags, (i, now, .start (.fetch key tags)) ∈ actions → key.length < 2 ^ 32) →
      StepsOk (fun s i now action => StartOk SameValue (fun _ _ => True) action ∧
        AnswerOk SameValue (fun _ _ => True) s i now action) cfg s actions := by
    intro s actions hkeys
    induction actions generalizing s with
    | nil => trivial
    | cons x rest ih =>
      obtain ⟨i, now, action⟩ := x
      refine ⟨⟨?_, ?_⟩, fun s' r _ => ih s' fun i now key tags hmem =>
        hkeys i now key tags (List.mem_cons_of_mem _ hmem)⟩
      · cases action with
        | start call =>
          cases call with
          | fetch key tags =>
              exact ⟨hkeys i now key tags List.mem_cons_self, trivial, fun e s h => h⟩
          | store _ _ _ _ => trivial
          | rise _ => trivial
          | clear => trivial
        | serve _ => trivial
        | finish _ => trivial
      · cases action with
        | serve _ => exact fun _ _ _ _ _ _ _ _ _ _ _ => ⟨rfl, rfl, rfl⟩
        | start _ => trivial
        | finish _ => trivial
  obtain ⟨⟨log, n, hok⟩, hright⟩ := (systemOk_init pages l1).run copyRelation_sameValue
    (hsteps _ actions hkeys) hrun hstores
  refine ⟨hright, fun i now memory => ⟨fun call => hok.start_isSome i now call, ?_, ?_⟩⟩
  · exact fun key tags hit hpc hfits => hok.serve_isSome memory hpc hfits
  · exact fun key hit answer served hpc => hok.finish_isSome now memory hpc

/-- One client stores, and the other one fetches. -/
theorem run_fetched_stored :
    ((System.init 0 fun _ => some 0).run ⟨.thread, .thread, id⟩
        [(0, 0, .start (.store [1] [5] ∅ 9)), (0, 0, .serve Cache.Memory.enough),
          (1, 0, .start (.fetch [1] none)), (1, 0, .serve Cache.Memory.enough),
          (1, 0, .finish Cache.Memory.enough)]).map Prod.snd =
      some [⟨[1], some ⟨[5], ⟨[[1]], by simp⟩, 9, 0⟩, some ⟨[5], ⟨[[1]], by simp⟩, 9, 0⟩⟩] ∧
    (∀ f ∈
      [(⟨[1], some ⟨[5], ⟨[[1]], by simp⟩, 9, 0⟩, some ⟨[5], ⟨[[1]], by simp⟩, 9, 0⟩⟩ : Fetched)],
      (f.result = none ↔ f.served = none) ∧
        ∀ e, f.result = some e → ∃ e', f.served = some e' ∧ SameValue e e') := by
  have hrun : (System.init 0 fun _ => some 0).run ⟨.thread, .thread, id⟩
      [(0, 0, .start (.store [1] [5] ∅ 9)), (0, 0, .serve Cache.Memory.enough),
        (1, 0, .start (.fetch [1] none)), (1, 0, .serve Cache.Memory.enough),
        (1, 0, .finish Cache.Memory.enough)] =
        some (_, [⟨[1], some ⟨[5], ⟨[[1]], by simp⟩, 9, 0⟩, some ⟨[5], ⟨[[1]], by simp⟩, 9, 0⟩⟩]) :=
          rfl
  refine ⟨by rw [hrun, Option.map_some],
    (run_fetched ⟨.thread, .thread, id⟩ 0 (fun _ => 0) ?_ hrun (by decide +kernel)).1⟩
  intro i now key tags hmem
  obtain ⟨-, -, rfl, -⟩ : i = 1 ∧ now = 0 ∧ key = [1] ∧ tags = none := by simpa using hmem
  decide

/-! ## The triggers of a fetch -/

lemma copyRelation_eq : CopyRelation Eq where
  generation _ _ h := h ▸ rfl
  insert := by
    rintro e _ key rfl hkey
    have hsame : e.triggers.insert key = e.triggers := by
      unfold SortedSet.insert
      rw [dif_pos hkey]
    rw [hsame]

/-- The condition of a step: keys that are fetched have no null character and the set of the caller
is empty; and when the server answers with another entry than the local cache has, it has the
triggers of the old one, and they are not too long for the client. -/
def TagsOk (s : System) (i : ℕ) (now : ℤ) : Action → Prop
  | .start (.fetch key tags) => key.length < 2 ^ 32 ∧ 0 ∉ key ∧ tags.getD ∅ = ∅
  | .serve _ => ∀ key tags hit e, s.threads i = .fetching key tags hit → s.live now key = some e →
    (terminate 0 e.triggers.toList).length < 2 ^ 31 ∧
      ∀ h, hit = some h → h.generation ≠ e.generation → ∀ t ∈ h.triggers, t ∈ e.triggers
  | _ => True

/-- The condition makes copies of all entries that are read. -/
lemma TagsOk.stepOk (h : TagsOk s i now action) :
    StartOk Eq (fun key tags => 0 ∉ key ∧ tags = ∅) action ∧
      AnswerOk Eq (fun key tags => 0 ∉ key ∧ tags = ∅) s i now action := by
  cases action with
  | start call =>
    cases call with
    | fetch key tags =>
      obtain ⟨hlen, hzero, htags⟩ := h
      refine ⟨⟨hlen, ⟨hzero, htags⟩, ?_⟩, trivial⟩
      rintro e _ rfl
      rw [htags, SortedSet.insertAll_toList]
    | store _ _ _ _ => exact ⟨trivial, trivial⟩
    | rise _ => exact ⟨trivial, trivial⟩
    | clear => exact ⟨trivial, trivial⟩
  | finish _ => exact ⟨trivial, trivial⟩
  | serve memory =>
    refine ⟨trivial, ?_⟩
    rintro key tags hit e ts hpc ⟨hzero, rfl⟩ hlive htriggers hother hts
    obtain ⟨hlen, hold⟩ := h key (some ∅) hit e hpc hlive
    have hplain : ∀ t ∈ e.triggers.toList, 0 ∉ t := by
      intro t ht
      obtain rfl | ht := htriggers t ht
      · exact hzero
      · exact ht
    rw [hts hlen, pieces_terminate hplain]
    -- the triggers of the local entry are among those that are read
    have hall : (((hit.map Entry.triggers).getD ∅).insertAll e.triggers.toList) = e.triggers := by
      ext t
      rw [SortedSet.mem_insertAll, SortedSet.mem_toList]
      constructor
      · rintro (ht | ht)
        · exact ht
        · cases hit with
          | none => exact absurd ht SortedSet.not_mem_empty
          | some e' => exact hold e' rfl (hother e' rfl) t ht
      · exact .inl
    rw [hall]

lemma StepsOk.imp {C C' : System → ℕ → ℤ → Action → Prop}
    (himp : ∀ s i now action, C s i now action → C' s i now action) (h : StepsOk C cfg s actions) :
    StepsOk C' cfg s actions := by
  induction actions generalizing s with
  | nil => trivial
  | cons x rest ih => exact ⟨himp _ _ _ _ h.1, fun s' r hstep => ih (h.2 s' r hstep)⟩

/-- In a run whose steps meet the condition, a fetch that ends with success gives the triggers of
the entry that the server had when it answered, and an entry of this number in the local cache has
the same triggers. -/
theorem run_tags (cfg : Config) (pages : ℕ) (l1 : ℕ → ℕ) {actions : List (ℕ × ℤ × Action)}
    {s s' : System} {fetched : List Fetched}
    (hsteps : StepsOk TagsOk cfg (System.init pages fun i => some (l1 i)) actions)
    (hrun : (System.init pages fun i => some (l1 i)).run cfg actions = some (s, fetched))
    (hstores : s.stores ≤ 2 ^ 64) {i : ℕ} {now : ℤ} {memory : Cache.Memory} {f : Fetched}
    {e : Entry} (hfinish : s.finish cfg i now memory = some (s', f)) (hresult : f.result = some e) :
    ∃ e', f.served = some e' ∧ e.triggers = e'.triggers ∧
      ∀ c now' e'', s'.l1 (cfg.client i) = some c → (c.fetch now' f.key).bind Prod.snd = some e'' →
        e''.generation = e'.generation → e''.triggers = e'.triggers := by
  obtain ⟨⟨log, n, hok⟩, -⟩ := (systemOk_init pages l1).run copyRelation_eq
    (hsteps.imp fun s i now action h => h.stepOk) hrun hstores
  obtain ⟨hok', -, hsome⟩ := hok.finish copyRelation_eq hfinish
  obtain ⟨e', hserved, -, hlogged, rfl⟩ := hsome e hresult
  refine ⟨e, hserved, rfl, ?_⟩
  intro c now' e'' hc hfetch hgen
  obtain ⟨c₁, hc₁, hlocal⟩ := hok'.l1 (cfg.client i)
  obtain rfl : c₁ = c := by
    rw [hc₁] at hc
    exact Option.some.inj hc
  obtain ⟨⟨c₂, r⟩, hfetch, hr⟩ := Option.bind_eq_some_iff.1 hfetch
  obtain ⟨-, -, hcopy⟩ := (hlocal.fetch hfetch).2 e'' hr
  rw [hgen, hlogged] at hcopy
  rw [hcopy]

/-- A store and a fetch, up to the answer of the server. -/
def tagsRun : List (ℕ × ℤ × Action) :=
  [(0, 0, .start (.store [1] [5] ((∅ : StringSet).insert [2]) 9)),
    (0, 0, .serve Cache.Memory.enough), (1, 0, .start (.fetch [1] (some ∅))),
    (1, 0, .serve Cache.Memory.enough)]

/-- The entry of this run. -/
def tagsEntry : Entry := ⟨[5], ((∅ : StringSet).insert [1]).insert [2], 9, 0⟩

/-- A fetch without a copy in the local cache. -/
theorem run_tags_first :
    ∃ s s' f, (System.init 0 fun _ => some 0).run ⟨.thread, .thread, id⟩ tagsRun = some (s, []) ∧
      s.finish ⟨.thread, .thread, id⟩ 1 0 Cache.Memory.enough = some (s', f) ∧
      f.result = some tagsEntry ∧
      ∃ e', f.served = some e' ∧ tagsEntry.triggers = e'.triggers := by
  have hsteps : StepsOk TagsOk ⟨.thread, .thread, id⟩ (System.init 0 fun _ => some 0) tagsRun := by
    refine ⟨trivial, fun s₁ r₁ h₁ => ?_⟩
    obtain ⟨rfl, rfl⟩ := Prod.mk.inj (Option.some.inj h₁)
    refine ⟨fun key tags hit e hpc => (by cases hpc), fun s₂ r₂ h₂ => ?_⟩
    obtain ⟨rfl, rfl⟩ := Prod.mk.inj (Option.some.inj h₂)
    refine ⟨⟨by decide, by decide, rfl⟩, fun s₃ r₃ h₃ => ?_⟩
    obtain ⟨rfl, rfl⟩ := Prod.mk.inj (Option.some.inj h₃)
    refine ⟨fun key tags hit e hpc hlive => ?_, fun _ _ _ => trivial⟩
    obtain ⟨rfl, rfl, rfl⟩ : [1] = key ∧ some ∅ = tags ∧ none = hit := Pc.fetching.inj hpc
    obtain rfl : tagsEntry = e := Option.some.inj hlive
    exact ⟨by decide, fun _ h => by cases h⟩
  obtain ⟨s, hrun⟩ : ∃ s, (System.init 0 fun _ => some 0).run ⟨.thread, .thread, id⟩ tagsRun =
      some (s, []) :=
    ⟨_, rfl⟩
  have hstores : s.stores ≤ 2 ^ 64 := by
    obtain ⟨rfl, -⟩ := Prod.mk.inj (Option.some.inj hrun)
    decide +kernel
  obtain ⟨s', f, hfinish, hresult⟩ :
    ∃ s' f, s.finish ⟨.thread, .thread, id⟩ 1 0 Cache.Memory.enough = some (s', f) ∧
      f.result = some tagsEntry := by
    obtain ⟨rfl, -⟩ := Prod.mk.inj (Option.some.inj hrun)
    exact ⟨_, _, rfl, rfl⟩
  obtain ⟨e', hserved, htags, -⟩ :=
    run_tags ⟨.thread, .thread, id⟩ 0 (fun _ => 0) hsteps hrun hstores hfinish
    hresult
  exact ⟨s, s', f, hrun, hfinish, hresult, e', hserved, htags⟩

/-- An entry is fetched, stored again with another trigger and fetched again: the fetch gives the
old trigger too. -/
theorem run_tags_union :
    ((System.init 0 fun _ => some 0).run ⟨.thread, .thread, id⟩
        (tagsRun ++ [(1, 0, .finish Cache.Memory.enough),
          (0, 0, .start (.store [1] [6] ((∅ : StringSet).insert [3]) 9)),
          (0, 0, .serve Cache.Memory.enough), (1, 0, .start (.fetch [1] (some ∅))),
          (1, 0, .serve Cache.Memory.enough), (1, 0, .finish Cache.Memory.enough)])).map Prod.snd =
      some [⟨[1], some tagsEntry, some tagsEntry⟩,
        ⟨[1], some ⟨[6], (((∅ : StringSet).insert [1]).insert [2]).insert [3], 9, 1⟩,
          some ⟨[6], ((∅ : StringSet).insert [1]).insert [3], 9, 1⟩⟩] ∧
      (((∅ : StringSet).insert [1]).insert [2]).insert [3] ≠
        ((∅ : StringSet).insert [1]).insert [3] := by
  constructor
  · rfl
  · decide

/-! ## Numbers that are used twice -/

lemma run_append (cfg : Config) (s : System) (a b : List (ℕ × ℤ × Action)) :
    s.run cfg (a ++ b) =
      (s.run cfg a).bind fun q => (q.1.run cfg b).map fun q' => (q'.1, q.2 ++ q'.2) := by
  induction a generalizing s with
  | nil =>
    rw [List.nil_append, System.run, Option.bind_some]
    cases s.run cfg b <;> rfl
  | cons x a ih =>
    obtain ⟨i, now, action⟩ := x
    rw [List.cons_append, System.run, System.run]
    cases s.step cfg i now action with
    | none => rfl
    | some q =>
      rw [Option.bind_some, Option.bind_some, ih]
      cases q.1.run cfg a with
      | none => rfl
      | some q' =>
        simp only [Option.bind_some, Option.map_some, Option.map_map, Function.comp_def,
          List.append_assoc]

/-- An entry for the key of these runs. -/
def wrapEntry (data : Bytes) (g : ℕ) : Entry := ⟨data, (∅ : StringSet).insert [1], 9, g⟩

/-- Every thread and every cache in its own process, without limits. -/
def wrapConfig : Config := ⟨.thread, .thread, id⟩

/-- The second client has the given copies, and the server has given `g` numbers. -/
structure Wrap (g : ℕ) (copies : List (Bytes × Entry)) (s : System) : Prop where
  server : ∃ l, s.server.Holds l ∧ ∀ x ∈ l, x.1 = [1]
  generation : s.server.generation = g % 2 ^ 64
  limit : s.server.limit = 0
  l1 : ∃ c l, s.l1 0 = some c ∧ c.Holds l
  copy : ∃ c, s.l1 1 = some c ∧ c.Holds copies
  idle : s.threads 0 = .idle ∧ s.threads 1 = .idle

/-- The first client stores a value. -/
def wrapStore (b : UInt8) : List (ℕ × ℤ × Action) :=
  [(0, 0, .start (.store [1] [b] ∅ 9)), (0, 0, .serve Cache.Memory.enough)]

/-- A cache without limits that has no other keys stores an entry. -/
lemma holds_store_only {c : MemCache} {l : List (Bytes × Entry)} (h : c.Holds l)
    (hl : ∀ x ∈ l, x.1 = [1]) (data : Bytes) (triggers : StringSet) (gen : Option ℕ) :
    ∃ c', c.store .thread 0 Cache.Memory.enough [1] data triggers 9 gen = some c' ∧
      c'.Holds [([1], c.newEntry [1] data triggers 9 gen)] ∧ c'.generation = c.nextGeneration gen ∧
      c'.limit = c.limit := by
  obtain ⟨c', l', hstore, hholds, hlimit, hcase⟩ :=
    h.store .thread 0 Cache.Memory.enough [1] data triggers 9 gen
  have hothers : (l.filter fun x => x.1 ≠ [1]) = [] := by
    rw [List.filter_eq_nil_iff]
    exact fun x hx => by simpa using hl x hx
  refine ⟨c', hstore, ?_, ?_, hlimit⟩
  all_goals
    generalize hgen : c'.generation = g at hcase
    cases hcase with
    | tooMany hmany => cases hmany
    | @stored rest hfew hevicts hroom => ?_
  · have hrest := hevicts.sublist
    rw [hothers, List.sublist_nil] at hrest
    rw [hrest] at hholds
    exact hholds
  · rfl

lemma Wrap.store {g : ℕ} {copies : List (Bytes × Entry)} {s : System} (h : Wrap g copies s)
    (b : UInt8) :
    ∃ s', s.run wrapConfig (wrapStore b) = some (s', []) ∧ Wrap (g + 1) copies s' ∧
      s'.server.Holds [([1], wrapEntry [b] (g % 2 ^ 64))] := by
  obtain ⟨l₀, hserver, hkeys⟩ := h.server
  obtain ⟨c, l, hl1, hholds⟩ := h.l1
  obtain ⟨c', hremove, hholds', -⟩ := hholds.remove [1]
  obtain ⟨server, hstore, hserver', hgeneration, hlimit⟩ :=
    holds_store_only hserver hkeys [b] ∅ none
  have hask : System.ask wrapConfig s.server 0 Cache.Memory.enough ⟨.store 9 1 1 0, [1, b]⟩ =
      some (server, ⟨.done, []⟩) := by
    rw [ask_store rfl]
    change (s.server.store .thread 0 Cache.Memory.enough [1] [b] ∅ 9 none).map _ = _
    rw [hstore]
    rfl
  have hstart : s.step wrapConfig 0 0 (.start (.store [1] [b] ∅ 9)) =
      some
        ({ s with l1 := Function.update s.l1 0 (some c') }.goto 0 (.storing [1] [b] ∅ 9),
        none) := by
    rw [System.step, h.idle.1]
    dsimp only
    have hclient : s.l1 (wrapConfig.client 0) = some c := hl1
    rw [System.start, System.onL1, hclient]
    dsimp only
    rw [hremove]
    rfl
  set s₁ := { s with l1 := Function.update s.l1 0 (some c') }.goto 0 (.storing [1] [b] ∅ 9) with hs₁
  have hpc : s₁.threads 0 = .storing [1] [b] ∅ 9 := rfl
  have hserve : s₁.step wrapConfig 0 0 (.serve Cache.Memory.enough) =
      some ({ s₁ with server := server, stores := s₁.stores + 1 }.goto 0 .idle, none) := by
    rw [System.step, System.serve, hpc]
    change ((System.ask wrapConfig s.server 0 Cache.Memory.enough ⟨.store 9 1 1 0, [1, b]⟩).map
      _).map _ = _
    rw [hask]
    rfl
  refine ⟨{ s₁ with server := server, stores := s₁.stores + 1 }.goto 0 .idle, ?_, ?_, ?_⟩
  · rw [wrapStore, System.run, hstart, Option.bind_some, System.run, hserve]
    rfl
  · constructor
    case server => exact ⟨_, hserver', by simp⟩
    case generation =>
      change server.generation = _
      rw [hgeneration, MemCache.nextGeneration, if_neg (by simp), h.generation, Nat.mod_add_mod]
    case limit => exact hlimit.trans h.limit
    case l1 => exact ⟨c', _, rfl, hholds'⟩
    case copy =>
      obtain ⟨c₁, hc₁, hcopy⟩ := h.copy
      exact ⟨c₁, hc₁, hcopy⟩
    case idle => exact ⟨rfl, h.idle.2⟩
  · rw [← h.generation]
    exact hserver'

/-- The first client stores again and again. -/
lemma Wrap.stores (h : Wrap g copies s) (b : UInt8) (k : ℕ) :
    ∃ s', s.run wrapConfig (List.replicate (k + 1) (wrapStore b)).flatten = some (s', []) ∧
      Wrap (g + k + 1) copies s' ∧ s'.server.Holds [([1], wrapEntry [b] ((g + k) % 2 ^ 64))] := by
  induction k generalizing g s with
  | zero =>
    obtain ⟨s', hrun, hwrap, hserver⟩ := h.store b
    refine ⟨s', ?_, hwrap, hserver⟩
    rwa [List.replicate_one, List.flatten_singleton]
  | succ k ih =>
    obtain ⟨s₁, hrun₁, hwrap₁, -⟩ := h.store b
    obtain ⟨s', hrun, hwrap, hserver⟩ := ih hwrap₁
    refine ⟨s', ?_, ?_, ?_⟩
    · rw [List.replicate_succ, List.flatten_cons, run_append, hrun₁, Option.bind_some, hrun]
      rfl
    · rwa [show g + 1 + k + 1 = g + (k + 1) + 1 by omega] at hwrap
    · rwa [show g + 1 + k = g + (k + 1) by omega] at hserver

/-- The second client fetches. -/
def wrapFetch : List (ℕ × ℤ × Action) :=
  [(1, 0, .start (.fetch [1] none)), (1, 0, .serve Cache.Memory.enough),
    (1, 0, .finish Cache.Memory.enough)]

/-- The first step of a fetch of the second client. -/
lemma Wrap.start_fetch (h : Wrap g copies s)
    (hit : Option Entry) (hhit : (MemCache.fetchEntry 0 [1] copies).2 = hit)
    (htags : hit.map (fun e => { e with triggers := (∅ : StringSet).insertAll e.triggers.toList }) =
      hit) :
    ∃ c, c.Holds (MemCache.fetchEntry 0 [1] copies).1 ∧
    s.step wrapConfig 1 0 (.start (.fetch [1] none)) =
      some ({ s with l1 := Function.update s.l1 1 (some c) }.goto 1 (.fetching [1] (some ∅) hit),
        none) := by
  obtain ⟨c, hc, hcopy⟩ := h.copy
  obtain ⟨c', hfetch, hholds, -⟩ := hcopy.fetch 0 [1]
  refine ⟨c', hholds, ?_⟩
  rw [System.step, h.idle.2]
  dsimp only
  have hclient : s.l1 (wrapConfig.client 1) = some c := hc
  rw [System.start, hclient]
  dsimp only
  rw [hfetch, hhit, Option.map_some]
  dsimp only [Option.getD_none, Option.map_some]
  rw [htags]
  rfl

/-- If the server has used the number of the copy again, the copy is taken for its entry. -/
lemma Wrap.fetch (h : Wrap g [([1], wrapEntry [5] 0)] s)
    (hserver : s.server.Holds [([1], wrapEntry [6] 0)]) :
    ∃ s', s.run wrapConfig wrapFetch =
      some (s', [⟨[1], some (wrapEntry [5] 0), some (wrapEntry [6] 0)⟩]) := by
  obtain ⟨c, -, hstart⟩ := h.start_fetch (some (wrapEntry [5] 0)) rfl rfl
  obtain ⟨server, hfetch, -, -⟩ := hserver.fetch 0 [1]
  have hhit : (MemCache.fetchEntry 0 [1] [([1], wrapEntry [6] 0)]).2 = some (wrapEntry [6] 0) := rfl
  rw [hhit] at hfetch
  set s₁ := { s with l1 := Function.update s.l1 1 (some c) }.goto 1
    (.fetching [1] (some ∅) (some (wrapEntry [5] 0))) with hs₁
  have hpc : s₁.threads 1 = .fetching [1] (some ∅) (some (wrapEntry [5] 0)) := rfl
  have hask : System.ask wrapConfig s.server 0 Cache.Memory.enough ⟨.fetch 0 1 true true, [1]⟩ =
      some (server, ⟨.uptodate, []⟩) := by
    rw [ask_fetch rfl, serveFetch, hfetch]
    rfl
  have hserve : s₁.step wrapConfig 1 0 (.serve Cache.Memory.enough) =
      some ({ s₁ with server := server }.goto 1
        (.fetched [1] (some (wrapEntry [5] 0)) .upToDate (some (wrapEntry [6] 0))), none) := by
    rw [System.step, System.serve, hpc]
    change ((System.ask wrapConfig s.server 0 Cache.Memory.enough ⟨.fetch 0 1 true true, [1]⟩).bind
      _).map _ = _
    rw [hask]
    change some
      (System.goto _ 1 (.fetched [1] _ _ ((s.server.fetch 0 [1]).bind Prod.snd)), none) = _
    rw [hfetch]
    rfl
  set s₂ := { s₁ with server := server }.goto 1
    (.fetched [1] (some (wrapEntry [5] 0)) .upToDate (some (wrapEntry [6] 0))) with hs₂
  have hfinish : s₂.step wrapConfig 1 0 (.finish Cache.Memory.enough) =
      some (s₂.goto 1 .idle, some ⟨[1], some (wrapEntry [5] 0), some (wrapEntry [6] 0)⟩) := rfl
  refine ⟨s₂.goto 1 .idle, ?_⟩
  rw [wrapFetch, System.run, hstart, Option.bind_some, System.run, hserve,
    Option.bind_some, System.run, hfinish]
  rfl

/-- Without a copy the second client gets one. -/
lemma Wrap.fetch_first (h : Wrap g [] s) (hserver : s.server.Holds [([1], wrapEntry [5] 0)]) :
    ∃ s' f, s.run wrapConfig wrapFetch = some (s', f) ∧ Wrap g [([1], wrapEntry [5] 0)] s' := by
  obtain ⟨c, hholds, hstart⟩ := h.start_fetch none rfl rfl
  obtain ⟨server, hfetch, hserver', hsame⟩ := hserver.fetch 0 [1]
  have hhit : (MemCache.fetchEntry 0 [1] [([1], wrapEntry [5] 0)]).2 = some (wrapEntry [5] 0) := rfl
  rw [hhit] at hfetch
  obtain ⟨c', hstore, hholds', -, -⟩ := holds_store_only hholds (by simp [MemCache.fetchEntry]) [5]
    ((∅ : StringSet).insert [1]) (some 0)
  set s₁ := { s with l1 := Function.update s.l1 1 (some c) }.goto 1
    (.fetching [1] (some ∅) none) with hs₁
  have hpc : s₁.threads 1 = .fetching [1] (some ∅) none := rfl
  have hask : System.ask wrapConfig s.server 0 Cache.Memory.enough ⟨.fetch 0 1 true false, [1]⟩ =
      some (server, ⟨.data 0 9 1 2, [5, 1, 0]⟩) := by
    rw [ask_fetch rfl, serveFetch, hfetch]
    rfl
  have hserve : s₁.step wrapConfig 1 0 (.serve Cache.Memory.enough) =
      some ({ s₁ with server := server }.goto 1
        (.fetched [1] none (.found (wrapEntry [5] 0)) (some (wrapEntry [5] 0))), none) := by
    rw [System.step, System.serve, hpc]
    change ((System.ask wrapConfig s.server 0 Cache.Memory.enough ⟨.fetch 0 1 true false, [1]⟩).bind
      _).map _ = _
    rw [hask]
    change some
      (System.goto _ 1 (.fetched [1] _ _ ((s.server.fetch 0 [1]).bind Prod.snd)), none) = _
    rw [hfetch]
    rfl
  set s₂ := { s₁ with server := server }.goto 1
    (.fetched [1] none (.found (wrapEntry [5] 0)) (some (wrapEntry [5] 0))) with hs₂
  have hfinish : s₂.step wrapConfig 1 0 (.finish Cache.Memory.enough) =
      some ({ s₂.goto 1 .idle with l1 := Function.update s₂.l1 1 (some c') },
        some ⟨[1], some (wrapEntry [5] 0), some (wrapEntry [5] 0)⟩) := by
    change (((c.store .thread 0 Cache.Memory.enough [1] [5]
      ((∅ : StringSet).insert [1]) 9 (some 0)).map
      fun c => { s₂.goto 1 .idle with l1 := Function.update s₂.l1 1 (some c) }).map _).map _ = _
    rw [hstore]
    rfl
  refine ⟨{ s₂.goto 1 .idle with l1 := Function.update s₂.l1 1 (some c') },
    [⟨[1], some (wrapEntry [5] 0), some (wrapEntry [5] 0)⟩], ?_, ?_⟩
  · rw [wrapFetch, System.run, hstart, Option.bind_some, System.run, hserve,
      Option.bind_some, System.run, hfinish]
    rfl
  · constructor
    case server => exact ⟨_, hserver', by simp [MemCache.fetchEntry, wrapEntry]⟩
    case generation => exact hsame.generation.trans h.generation
    case limit => exact hsame.limit.trans h.limit
    case l1 => exact h.l1
    case copy => exact ⟨c', rfl, hholds'⟩
    case idle => exact ⟨h.idle.1, rfl⟩

lemma wrap_init : Wrap 0 [] (System.init 0 fun _ => some 0) where
  server := ⟨[], MemCache.holds_init 0, by simp⟩
  generation := rfl
  limit := rfl
  l1 := ⟨_, _, rfl, MemCache.holds_init 0⟩
  copy := ⟨_, rfl, MemCache.holds_init 0⟩
  idle := ⟨rfl, rfl⟩

/-- After `2 ^ 64` further stores the server has used the number of a copy again. -/
theorem run_fetched_stale :
    ∃ actions s f e e', (System.init 0 fun _ => some 0).run wrapConfig actions = some (s, f) ∧
      ⟨[1], some e, some e'⟩ ∈ f ∧ e.data = [5] ∧ e'.data = [6] := by
  obtain ⟨s₁, hrun₁, hwrap₁, hserver₁⟩ := wrap_init.store 5
  obtain ⟨s₂, f₂, hrun₂, hwrap₂⟩ := hwrap₁.fetch_first hserver₁
  obtain ⟨s₃, hrun₃, hwrap₃, hserver₃⟩ := hwrap₂.stores 6 (2 ^ 64 - 1)
  obtain ⟨s₄, hrun₄⟩ := hwrap₃.fetch hserver₃
  refine ⟨wrapStore 5 ++
    (wrapFetch ++ ((List.replicate (2 ^ 64 - 1 + 1) (wrapStore 6)).flatten ++ wrapFetch)), s₄,
    [] ++ (f₂ ++ ([] ++ [⟨[1], some (wrapEntry [5] 0), some (wrapEntry [6] 0)⟩])), wrapEntry [5] 0,
    wrapEntry [6] 0, ?_, ?_, rfl, rfl⟩
  · rw [run_append, hrun₁, Option.bind_some, run_append, hrun₂, Option.bind_some, run_append, hrun₃,
      Option.bind_some, hrun₄]
    rfl
  · simp

end Tcp

end Cppcms
