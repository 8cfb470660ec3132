import Cppcms.Cache.Interface

/-!
# What a page depends on

Where the content of an entry has come from is a tree (`Source`): triggers that were added while it
was made and frames that were fetched or stored, each with its own tree.  Frames that are stored
with a recorder are made of what has been recorded, and a page of everything since the beginning of
its request.  The entries of the cache carry all triggers of their trees.
-/

namespace Cppcms

namespace Cache

/-- Where a part of a page comes from. -/
inductive Source where
  | added (t : Bytes)
  | frame (key : Bytes) (given : List Bytes) (parts : List Source)

mutual

/-- The triggers of a part: those that were added, and the keys and triggers of all frames in it. -/
def Source.deps : Source → List Bytes
  | .added t => [t]
  | .frame key given parts => key :: (given ++ depsAll parts)

/-- The triggers of several parts. -/
def depsAll : List Source → List Bytes
  | [] => []
  | s :: l => s.deps ++ depsAll l

end

lemma depsAll_append (l l' : List Source) : depsAll (l ++ l') = depsAll l ++ depsAll l' := by
  induction l with
  | nil => rfl
  | cons s l ih => rw [List.cons_append, depsAll, depsAll, ih, List.append_assoc]

/-- The parts of the current page, what the live recorders have seen, and what has been stored last
under the keys of the cache. -/
structure Provenance where
  parts : List Source
  recorders : List (ℕ × List Source)
  stored : Bytes → Option Source

namespace Provenance

def init : Provenance := ⟨[], [], fun _ => none⟩

/-- A part is added to the page and seen by all recorders. -/
def add (p : Provenance) (s : Source) : Provenance :=
  { p with
    parts := p.parts ++ [s]
    recorders := p.recorders.map fun r => (r.1, r.2 ++ [s]) }

/-- The parts that a recorder has seen, and the recorders without it. -/
def detach (p : Provenance) : Option ℕ → Option (Provenance × List Source)
  | none => some (p, [])
  | some id => (p.recorders.lookup id).map fun parts =>
    ({ p with recorders := p.recorders.filter fun r => r.1 ≠ id }, parts)

/-- An operation; `found` is what it has found and `gzip` the variant of the page that is made. -/
def step (p : Provenance) (found : Option Bytes) (gzip : Bool) : PageOp → Provenance
  | .request => { p with parts := [], recorders := [] }
  | .addTrigger t => p.add (.added t)
  | .reset => { p with parts := [] }
  | .record id => { p with recorders := (id, []) :: p.recorders.filter fun r => r.1 ≠ id }
  | .drop id => { p with recorders := p.recorders.filter fun r => r.1 ≠ id }
  | .fetchFrame _ key notriggers =>
    match p.stored key with
    | some s => if found.isSome && !notriggers then p.add s else p
    | none => p
  | .storeFrame _ _ key _ triggers recorder _ notriggers =>
    match p.detach recorder with
    | none => p
    | some (p, parts) =>
      let s := .frame key triggers.toList parts
      let p := { p with stored := Function.update p.stored key (some s) }
      if notriggers then p else p.add s
  | .storePage _ _ key _ _ =>
    let p := p.add (.added key)
    let key := pageKey gzip key
    { p with stored := Function.update p.stored key (some (.frame key [] p.parts)) }
  | _ => p

end Provenance

/-- A run, with the sources. -/
def runPages (settings : Settings) : Site → Provenance → List PageOp → Option (Site × Provenance)
  | s, p, [] => some (s, p)
  | s, p, op :: ops =>
    (s.step settings op).bind fun q =>
      runPages settings q.1 (p.step q.2 s.interface.pageCompressionUsed op) ops

/-! ## The triggers of the interface -/

namespace Interface

variable {i : Interface}

lemma addTriggers_triggers (ts : List Bytes) :
    (i.addTriggers ts).triggers = i.triggers.insertAll ts := by
  unfold addTriggers SortedSet.insertAll
  induction ts generalizing i with
  | nil => rfl
  | cons t ts ih => rw [List.foldl_cons, ih, List.foldl_cons, addTrigger]

lemma addTriggers_recorders (ts : List Bytes) :
    (i.addTriggers ts).recorders = i.recorders.map fun r => (r.1, r.2.insertAll ts) := by
  unfold addTriggers SortedSet.insertAll
  induction ts generalizing i with
  | nil => exact (List.map_id _).symm
  | cons t ts ih =>
    rw [List.foldl_cons, ih, addTrigger, List.map_map]
    rfl

end Interface

/-- A set that has all triggers of some parts. -/
def Carries (s : StringSet) (parts : List Source) : Prop := ∀ t ∈ depsAll parts, t ∈ s

/-- The interface has collected the triggers of the parts. -/
structure Collects (i : Interface) (p : Provenance) : Prop where
  triggers : Carries i.triggers p.parts
  recorders : List.Forall₂ (fun r q => r.1 = q.1 ∧ Carries r.2 q.2) i.recorders p.recorders

/-- The entries of a cache have the triggers of what has been stored last under their keys. -/
def Dependent (stored : Bytes → Option Source) (c : MemCache) : Prop :=
  ∃ l, c.Holds l ∧ ∀ key e, (key, e) ∈ l → ∃ src, stored key = some src ∧
    ∀ t ∈ src.deps, t ∈ e.triggers

/-- The triggers of all sources are where they belong. -/
structure Tracks (s : Site) (p : Provenance) : Prop where
  cache : ∃ c, s.cache = some c ∧ Dependent p.stored c
  collects : Collects s.interface p

variable {src : Source} {key : Bytes} {settings : Settings} {gzip : Bool}

lemma Carries.append {s s' : StringSet} {parts : List Source} (h : Carries s parts)
    (hs : ∀ t ∈ s, t ∈ s') (hsrc : ∀ t ∈ src.deps, t ∈ s') : Carries s' (parts ++ [src]) := by
  intro t ht
  rw [depsAll_append, depsAll, depsAll, List.append_nil] at ht
  obtain ht | ht := List.mem_append.1 ht
  · exact hs t (h t ht)
  · exact hsrc t ht

namespace Collects

variable {i : Interface} {p : Provenance}

/-- A part is added with all its triggers. -/
lemma add (h : Collects i p) {ts : List Bytes} (hsrc : ∀ t ∈ src.deps, t ∈ ts) :
    Collects (i.addTriggers ts) (p.add src) := by
  constructor
  · rw [Interface.addTriggers_triggers]
    refine h.triggers.append ?_ ?_
    · exact fun t ht => SortedSet.mem_insertAll.2 (.inr ht)
    · exact fun t ht => SortedSet.mem_insertAll.2 (.inl (hsrc t ht))
  · rw [Interface.addTriggers_recorders]
    unfold Provenance.add
    dsimp only
    rw [List.forall₂_map_left_iff, List.forall₂_map_right_iff]
    refine h.recorders.imp fun r q hrq => ⟨hrq.1, hrq.2.append ?_ ?_⟩
    · exact fun t ht => SortedSet.mem_insertAll.2 (.inr ht)
    · exact fun t ht => SortedSet.mem_insertAll.2 (.inl (hsrc t ht))

/-- A recorder is taken out. -/
lemma remove (h : Collects i p) (id : ℕ) :
    Collects (i.removeRecorder id)
      { p with recorders := p.recorders.filter fun r => r.1 ≠ id } := by
  refine ⟨h.triggers, ?_⟩
  have hrec := h.recorders
  unfold Interface.removeRecorder
  dsimp only
  generalize i.recorders = rs at hrec ⊢
  generalize p.recorders = qs at hrec ⊢
  induction hrec with
  | nil => exact List.Forall₂.nil
  | @cons r q rs qs hrq _ ih =>
    by_cases hid : q.1 = id
    · rw [List.filter_cons_of_neg (by simp [hrq.1, hid]), List.filter_cons_of_neg (by simp [hid])]
      exact ih
    · rw [List.filter_cons_of_pos (by simp [hrq.1, hid]), List.filter_cons_of_pos (by simp [hid])]
      exact List.Forall₂.cons hrq ih

/-- A recorder has recorded the triggers of what it has seen. -/
lemma lookup (h : Collects i p) (id : ℕ) :
    (i.recorders.lookup id = none ∧ p.recorders.lookup id = none) ∨
      ∃ set parts, i.recorders.lookup id = some set ∧ p.recorders.lookup id = some parts ∧
        Carries set parts := by
  have hrec := h.recorders
  generalize i.recorders = rs at hrec ⊢
  generalize p.recorders = qs at hrec ⊢
  induction hrec with
  | nil => exact .inl ⟨rfl, rfl⟩
  | @cons r q rs qs hrq _ ih =>
    obtain ⟨rid, set⟩ := r
    obtain ⟨qid, parts⟩ := q
    obtain rfl : rid = qid := hrq.1
    rw [List.lookup_cons, List.lookup_cons]
    by_cases hid : id = rid
    · subst hid
      rw [beq_self_eq_true]
      exact .inr ⟨set, parts, rfl, rfl, hrq.2⟩
    · rw [beq_false_of_ne hid]
      exact ih

end Collects

namespace Dependent

variable {stored : Bytes → Option Source} {c : MemCache}

lemma fetch (h : Dependent stored c) (now : ℤ) (key : Bytes) :
    ∃ c' r, c.fetch now key = some (c', r) ∧ Dependent stored c' ∧
      ∀ e, r = some e → ∃ src, stored key = some src ∧ ∀ t ∈ src.deps, t ∈ e.triggers := by
  obtain ⟨l, hholds, hl⟩ := h
  obtain ⟨c', hfetch, hholds', -⟩ := hholds.fetch now key
  refine ⟨c', _, hfetch, ⟨_, hholds', fun key' e he => hl key' e (hholds.mem_fetchEntry.1 he)⟩, ?_⟩
  exact fun e he => hl key e (hholds.fetchEntry_eq_some.1 he).1

lemma rise (h : Dependent stored c) (t : Bytes) :
    ∃ c', c.rise t = some c' ∧ Dependent stored c' := by
  obtain ⟨l, hholds, hl⟩ := h
  obtain ⟨c', hrise, hholds', -⟩ := hholds.rise t
  exact ⟨c', hrise, _, hholds', fun key e he => hl key e (List.mem_filter.1 he).1⟩

lemma clear (stored : Bytes → Option Source) (c : MemCache) : Dependent stored c.clear :=
  ⟨[], MemCache.holds_clear c, fun _ _ he => absurd he List.not_mem_nil⟩

/-- An entry is stored with the triggers of its source. -/
lemma store (h : Dependent stored c) (settings : Settings) (now : ℤ) (memory : Memory)
    (key data : Bytes) (triggers : StringSet) (timeout : ℤ) (src : Source)
    (hsrc : ∀ t ∈ src.deps, t ∈ triggers.insert key) :
    ∃ c', c.store settings now memory key data triggers timeout none = some c' ∧
      Dependent (Function.update stored key (some src)) c' := by
  obtain ⟨l, hholds, hl⟩ := h
  obtain ⟨c', l', hstore, hholds', -, hcase⟩ :=
    hholds.store settings now memory key data triggers timeout none
  refine ⟨c', hstore, l', hholds', ?_⟩
  -- the entries with other keys
  have hother : ∀ x ∈ l.filter (fun x => x.1 ≠ key), ∃ src',
    Function.update stored key (some src) x.1 = some src' ∧
      ∀ t ∈ src'.deps, t ∈ x.2.triggers := by
    intro x hx
    obtain ⟨hx, hne⟩ := List.mem_filter.1 hx
    rw [Function.update_of_ne (by simpa using hne)]
    exact hl x.1 x.2 hx
  generalize c'.generation = g at hcase
  intro key' e he
  cases hcase with
  | tooMany => exact hother _ he
  | stored _ hevicts _ =>
    obtain heq | he := List.mem_cons.1 he
    · obtain ⟨rfl, rfl⟩ := Prod.mk.inj heq
      exact ⟨src, Function.update_self .., hsrc⟩
    · exact hother _ (hevicts.sublist.subset he)

end Dependent

/-! ## Steps -/

variable {s s' : Site} {p : Provenance}

namespace Tracks

/-- A frame is fetched. -/
lemma fetchFrame (h : Tracks s p) (settings : Settings) (now : ℤ) (key : Bytes)
    (notriggers : Bool) :
    ∃ s' r, s.step settings (.fetchFrame now key notriggers) = some (s', r) ∧
      Tracks s' (p.step r s.interface.pageCompressionUsed (.fetchFrame now key notriggers)) := by
  obtain ⟨c, hc, hdep⟩ := h.cache
  obtain ⟨c', r, hfetch, hdep', hfound⟩ := hdep.fetch now key
  rw [Site.step, Site.onCache, hc]
  dsimp only
  rw [Site.fetch, hfetch]
  cases r with
  | none =>
    refine ⟨_, _, rfl, ?_⟩
    unfold Provenance.step
    dsimp only
    split <;> exact ⟨⟨c', rfl, hdep'⟩, h.collects⟩
  | some e =>
    obtain ⟨src, hstored, hsrc⟩ := hfound e rfl
    refine ⟨_, _, rfl, ?_⟩
    unfold Provenance.step
    dsimp only
    rw [hstored]
    cases notriggers with
    | true => exact ⟨⟨c', rfl, hdep'⟩, h.collects⟩
    | false => exact ⟨⟨c', rfl, hdep'⟩, h.collects.add hsrc⟩

/-- A frame is stored. -/
lemma storeFrame (h : Tracks s p) (settings : Settings) (now : ℤ) (memory : Memory)
    (key data : Bytes) (triggers : StringSet) (recorder : Option ℕ) (timeout : ℤ)
    (notriggers : Bool) :
    ∃ s' r, s.step settings (.storeFrame now memory key data triggers recorder timeout notriggers) =
      some (s', r) ∧ Tracks s' (p.step r s.interface.pageCompressionUsed
        (.storeFrame now memory key data triggers recorder timeout notriggers)) := by
  obtain ⟨c, hc, hdep⟩ := h.cache
  -- the set of the frame has the triggers of what the recorder has seen
  obtain ⟨hnone, hnone'⟩ | ⟨i, set, q, parts, hi, hq, hcollects, hstored, hset, hparts⟩ :
      (Site.detach s.interface triggers recorder = none ∧ p.detach recorder = none) ∨
        ∃ i set q parts, Site.detach s.interface triggers recorder = some (i, set) ∧
          p.detach recorder = some (q, parts) ∧ Collects i q ∧ q.stored = p.stored ∧
          (∀ t ∈ triggers, t ∈ set) ∧ Carries set parts := by
    cases recorder with
    | none =>
        exact .inr ⟨_, _, _, _, rfl, rfl, h.collects, rfl, fun t ht => ht, fun t ht => by cases ht⟩
    | some id =>
      obtain ⟨hi, hq⟩ | ⟨set, parts, hi, hq, hcarries⟩ := h.collects.lookup id
      · refine .inl ⟨?_, ?_⟩
        · rw [Site.detach, hi]
          rfl
        · rw [Provenance.detach, hq]
          rfl
      · refine .inr ⟨_, _, _, _, by rw [Site.detach, hi]; rfl, by rw [Provenance.detach, hq]; rfl,
          h.collects.remove id, rfl, ?_, ?_⟩
        · exact fun t ht => SortedSet.mem_insertAll.2 (.inr ht)
        · exact fun t ht => SortedSet.mem_insertAll.2 (.inl (hcarries t ht))
  · refine ⟨s, none, ?_, ?_⟩
    · rw [Site.step, hnone]
    · rw [Provenance.step, hnone']
      exact h
  · have hsrc : ∀ t ∈ (Source.frame key triggers.toList parts).deps, t ∈ set.toList ++ [key] := by
      intro t ht
      rw [Source.deps, List.mem_cons, List.mem_append] at ht
      rw [List.mem_append, List.mem_singleton, SortedSet.mem_toList]
      obtain rfl | ht | ht := ht
      · exact .inr rfl
      · exact .inl (hset t ht)
      · exact .inl (hparts t ht)
    obtain ⟨c', hstore, hdep'⟩ := hdep.store settings now memory key data set (deadtime now timeout)
      (.frame key triggers.toList parts) (fun t ht => by
        have hmem := hsrc t ht
        rw [List.mem_append, List.mem_singleton] at hmem
        exact SortedSet.mem_insert.2 hmem.symm)
    rw [Site.step, hi]
    dsimp only
    rw [Site.onCache, hc]
    dsimp only
    rw [Site.store, hstore]
    refine ⟨_, _, rfl, ?_⟩
    rw [Provenance.step, hq]
    dsimp only
    rw [hstored]
    cases notriggers with
    | true => exact ⟨⟨c', rfl, hdep'⟩, ⟨hcollects.triggers, hcollects.recorders⟩⟩
    | false =>
      refine ⟨⟨c', rfl, hdep'⟩, ?_⟩
      have hadd := hcollects.add hsrc
      have hi' : i.addTriggers (set.toList ++ [key]) = (i.addTriggers set.toList).addTrigger key :=
        List.foldl_append
      rw [hi'] at hadd
      exact ⟨hadd.triggers, hadd.recorders⟩

/-- A page is stored. -/
lemma storePage (h : Tracks s p) (settings : Settings) (now : ℤ) (memory : Memory)
    (key data : Bytes) (timeout : ℤ) :
    ∃ s' r, s.step settings (.storePage now memory key data timeout) = some (s', r) ∧
      Tracks s'
        (p.step r s.interface.pageCompressionUsed (.storePage now memory key data timeout)) := by
  obtain ⟨c, hc, hdep⟩ := h.cache
  have hadd : Collects (s.interface.addTriggers [key]) (p.add (.added key)) :=
    h.collects.add fun t ht => ht
  set page := pageKey s.interface.pageCompressionUsed key with hpage
  obtain ⟨c', hstore, hdep'⟩ := hdep.store settings now memory page data
    (s.interface.addTriggers [key]).triggers (deadtime now timeout)
    (.frame page [] (p.add (.added key)).parts) (fun t ht => by
      rw [Source.deps, List.mem_cons, List.nil_append] at ht
      refine SortedSet.mem_insert.2 ?_
      obtain rfl | ht := ht
      · exact .inl rfl
      · exact .inr (hadd.triggers t ht))
  rw [Site.step, Site.onCache, hc]
  dsimp only
  rw [Site.storePage]
  change ∃ s' r,
    ((c.store settings now memory page data
      (s.interface.addTriggers [key]).triggers _ none).map _).map _ = some (s', r) ∧ _
  rw [hstore]
  refine ⟨_, _, rfl, ⟨c', rfl, hdep'⟩, ?_⟩
  exact ⟨hadd.triggers, hadd.recorders⟩

/-- One operation. -/
lemma step (h : Tracks s p) (settings : Settings) (op : PageOp) :
    ∃ s' r, s.step settings op = some (s', r) ∧
    Tracks s' (p.step r s.interface.pageCompressionUsed op) := by
  obtain ⟨c, hc, hdep⟩ := h.cache
  cases op with
  | request =>
    exact ⟨_, _, rfl, ⟨c, hc, hdep⟩, fun t ht => absurd ht List.not_mem_nil, List.Forall₂.nil⟩
  | addTrigger t =>
    have hadd : Collects (s.interface.addTriggers [t]) (p.add (.added t)) :=
      h.collects.add fun t ht => ht
    rw [Site.step, Site.onCache, hc]
    exact ⟨_, _, rfl, ⟨c, rfl, hdep⟩, hadd⟩
  | reset =>
    exact ⟨_, _, rfl, ⟨c, hc, hdep⟩, fun t ht => absurd ht List.not_mem_nil, h.collects.recorders⟩
  | record id =>
    refine ⟨_, _, rfl, ⟨c, hc, hdep⟩, h.collects.triggers, List.Forall₂.cons ⟨rfl, ?_⟩ ?_⟩
    · exact fun t ht => absurd ht List.not_mem_nil
    · exact (h.collects.remove id).recorders
  | drop id => exact ⟨_, _, rfl, ⟨c, hc, hdep⟩, h.collects.remove id⟩
  | fetchFrame now key notriggers => exact h.fetchFrame settings now key notriggers
  | storeFrame now memory key data triggers recorder timeout notriggers =>
    exact h.storeFrame settings now memory key data triggers recorder timeout notriggers
  | fetchPage now key gzip =>
    obtain ⟨c', r, hfetch, hdep', -⟩ := hdep.fetch now (pageKey gzip key)
    rw [Site.step, Site.onCache, hc]
    dsimp only
    rw [Site.fetchPage, hfetch]
    exact ⟨_, _, rfl, ⟨c', rfl, hdep'⟩, h.collects.triggers, h.collects.recorders⟩
  | storePage now memory key data timeout => exact h.storePage settings now memory key data timeout
  | rise t =>
    obtain ⟨c', hrise, hdep'⟩ := hdep.rise t
    rw [Site.step, Site.onCache, hc]
    dsimp only
    rw [hrise]
    exact ⟨_, _, rfl, ⟨c', rfl, hdep'⟩, h.collects⟩
  | clear =>
    rw [Site.step, Site.onCache, hc]
    exact ⟨_, _, rfl, ⟨_, rfl, Dependent.clear _ c⟩, h.collects⟩

/-- A run. -/
lemma run (h : Tracks s p) (settings : Settings) (ops : List PageOp) :
    ∃ s' p', runPages settings s p ops = some (s', p') ∧ Tracks s' p' := by
  induction ops generalizing s p with
  | nil => exact ⟨s, p, rfl, h⟩
  | cons op ops ih =>
    obtain ⟨s₁, r, hstep, htracks⟩ := h.step settings op
    obtain ⟨s', p', hrun, htracks'⟩ := ih htracks
    refine ⟨s', p', ?_, htracks'⟩
    rw [runPages, hstep]
    exact hrun

end Tracks

/-! ## Invalidation -/

lemma pageKey_injective {gzip gzip' : Bool} {key key' : Bytes}
    (h : pageKey gzip key = pageKey gzip' key') :
    key = key' := by
  unfold pageKey at h
  exact (List.append_inj h (by cases gzip <;> cases gzip' <;> rfl)).2

/-- The operation stores the page, or a frame under one of its keys. -/
def PageOp.StoresPage (key : Bytes) : PageOp → Prop
  | .storePage _ _ key' _ _ => key' = key
  | .storeFrame _ _ key' _ _ _ _ _ => key' = pageKey true key ∨ key' = pageKey false key
  | _ => False

/-- There is no entry with a key. -/
def Site.Lacks (s : Site) (key : Bytes) : Prop :=
  ∃ c l, s.cache = some c ∧ c.Holds l ∧ ∀ e, (key, e) ∉ l

/-- Another key is stored. -/
lemma holds_store_lacks {c : MemCache} {l : List (Bytes × Entry)} (h : c.Holds l)
    (hlacks : ∀ e, (key, e) ∉ l) {now : ℤ} {memory : Memory} {key' data : Bytes}
    {triggers : StringSet} {timeout : ℤ} (hne : key ≠ key') {c' : MemCache}
    (hstore : c.store settings now memory key' data triggers timeout none = some c') :
    ∃ l', c'.Holds l' ∧ ∀ e, (key, e) ∉ l' := by
  obtain ⟨c₁, l', hstore₁, hholds, -, hcase⟩ :=
    h.store settings now memory key' data triggers timeout none
  rw [hstore] at hstore₁
  obtain rfl := Option.some.inj hstore₁
  refine ⟨l', hholds, fun e he => ?_⟩
  generalize c'.generation = g at hcase
  cases hcase with
  | tooMany => exact hlacks e (List.mem_filter.1 he).1
  | stored _ hevicts _ =>
    obtain heq | he := List.mem_cons.1 he
    · exact hne (Prod.mk.inj heq).1
    · exact hlacks e (List.mem_filter.1 (hevicts.sublist.subset he)).1

/-- An entry does not come back without being stored. -/
lemma Site.Lacks.step {gzip : Bool} {key : Bytes} (h : s.Lacks (pageKey gzip key))
    {settings : Settings} {op : PageOp} (hop : ¬ op.StoresPage key) {r : Option Bytes}
    (hstep : s.step settings op = some (s', r)) :
    s'.Lacks (pageKey gzip key) := by
  obtain ⟨c, l, hc, hholds, hlacks⟩ := h
  cases op with
  | request =>
    obtain ⟨rfl, -⟩ := Prod.mk.inj (Option.some.inj hstep)
    exact ⟨c, l, hc, hholds, hlacks⟩
  | addTrigger t =>
    rw [Site.step, Site.onCache, hc] at hstep
    obtain ⟨rfl, -⟩ := Prod.mk.inj (Option.some.inj hstep)
    exact ⟨c, l, rfl, hholds, hlacks⟩
  | reset =>
    obtain ⟨rfl, -⟩ := Prod.mk.inj (Option.some.inj hstep)
    exact ⟨c, l, hc, hholds, hlacks⟩
  | record id =>
    obtain ⟨rfl, -⟩ := Prod.mk.inj (Option.some.inj hstep)
    exact ⟨c, l, hc, hholds, hlacks⟩
  | drop id =>
    obtain ⟨rfl, -⟩ := Prod.mk.inj (Option.some.inj hstep)
    exact ⟨c, l, hc, hholds, hlacks⟩
  | fetchFrame now key' notriggers =>
    obtain ⟨c', hfetch, hholds', -⟩ := hholds.fetch now key'
    have hlacks' : ∀ e, (pageKey gzip key, e) ∉ (MemCache.fetchEntry now key' l).1 :=
      fun e he => hlacks e (hholds.mem_fetchEntry.1 he)
    rw [Site.step, Site.onCache, hc] at hstep
    dsimp only at hstep
    rw [Site.fetch, hfetch, Option.map_some] at hstep
    cases hr : (MemCache.fetchEntry now key' l).2 with
    | none =>
      rw [hr] at hstep
      obtain ⟨rfl, -⟩ := Prod.mk.inj (Option.some.inj hstep)
      exact ⟨c', _, rfl, hholds', hlacks'⟩
    | some e =>
      rw [hr] at hstep
      obtain ⟨rfl, -⟩ := Prod.mk.inj (Option.some.inj hstep)
      exact ⟨c', _, rfl, hholds', hlacks'⟩
  | storeFrame now memory key' data triggers recorder timeout notriggers =>
    have hne : pageKey gzip key ≠ key' := by
      rintro rfl
      apply hop
      cases gzip
      · exact .inr rfl
      · exact .inl rfl
    rw [Site.step] at hstep
    cases hdetach : Site.detach s.interface triggers recorder with
    | none =>
      rw [hdetach] at hstep
      obtain ⟨rfl, -⟩ := Prod.mk.inj (Option.some.inj hstep)
      exact ⟨c, l, hc, hholds, hlacks⟩
    | some q =>
      rw [hdetach] at hstep
      dsimp only at hstep
      rw [Site.onCache, hc] at hstep
      obtain ⟨s₁, hs₁, heq⟩ := Option.map_eq_some_iff.1 hstep
      obtain ⟨rfl, -⟩ := Prod.mk.inj heq
      obtain ⟨c', hstore, rfl⟩ := Option.map_eq_some_iff.1 hs₁
      obtain ⟨l', hholds', hlacks'⟩ := holds_store_lacks hholds hlacks hne hstore
      exact ⟨c', l', rfl, hholds', hlacks'⟩
  | fetchPage now key' gzip' =>
    obtain ⟨c', hfetch, hholds', -⟩ := hholds.fetch now (pageKey gzip' key')
    rw [Site.step, Site.onCache, hc] at hstep
    dsimp only at hstep
    rw [Site.fetchPage, hfetch] at hstep
    obtain ⟨rfl, -⟩ := Prod.mk.inj (Option.some.inj hstep)
    exact ⟨c', _, rfl, hholds', fun e he => hlacks e (hholds.mem_fetchEntry.1 he)⟩
  | storePage now memory key' data timeout =>
    have hne : pageKey gzip key ≠ pageKey s.interface.pageCompressionUsed key' :=
      fun heq => hop (pageKey_injective heq).symm
    rw [Site.step, Site.onCache, hc] at hstep
    obtain ⟨s₁, hs₁, heq⟩ := Option.map_eq_some_iff.1 hstep
    obtain ⟨rfl, -⟩ := Prod.mk.inj heq
    obtain ⟨c', hstore, rfl⟩ := Option.map_eq_some_iff.1 hs₁
    obtain ⟨l', hholds', hlacks'⟩ := holds_store_lacks hholds hlacks hne hstore
    exact ⟨c', l', rfl, hholds', hlacks'⟩
  | rise t =>
    obtain ⟨c', hrise, hholds', -⟩ := hholds.rise t
    rw [Site.step, Site.onCache, hc] at hstep
    dsimp only at hstep
    rw [hrise] at hstep
    obtain ⟨rfl, -⟩ := Prod.mk.inj (Option.some.inj hstep)
    exact ⟨c', _, rfl, hholds', fun e he => hlacks e (List.mem_filter.1 he).1⟩
  | clear =>
    rw [Site.step, Site.onCache, hc] at hstep
    obtain ⟨rfl, -⟩ := Prod.mk.inj (Option.some.inj hstep)
    exact ⟨_, _, rfl, MemCache.holds_clear c, fun e he => absurd he List.not_mem_nil⟩

lemma Site.Lacks.run (h : s.Lacks (pageKey gzip key)) {ops : List PageOp}
    (hops : ∀ op ∈ ops, ¬ op.StoresPage key) {p' : Provenance}
    (hrun : runPages settings s p ops = some (s', p')) : s'.Lacks (pageKey gzip key) := by
  induction ops generalizing s p with
  | nil =>
    obtain ⟨rfl, -⟩ := Prod.mk.inj (Option.some.inj hrun)
    exact h
  | cons op ops ih =>
    obtain ⟨⟨s₁, r⟩, hstep, hrun⟩ := Option.bind_eq_some_iff.1 hrun
    exact ih (h.step (hops op List.mem_cons_self) hstep)
      (fun op hop => hops op (List.mem_cons_of_mem _ hop)) hrun

/-- A page that is not there is not found. -/
lemma Site.Lacks.fetchPage (h : s.Lacks (pageKey gzip key)) (settings : Settings) (now : ℤ) :
    ∃ s', s.step settings (.fetchPage now key gzip) = some (s', none) := by
  obtain ⟨c, l, hc, hholds, hlacks⟩ := h
  obtain ⟨c', hfetch, -, -⟩ := hholds.fetch now (pageKey gzip key)
  have hnone : (MemCache.fetchEntry now (pageKey gzip key) l).2 = none := by
    rw [Option.eq_none_iff_forall_ne_some]
    exact fun e he => hlacks e (hholds.fetchEntry_eq_some.1 he).1
  rw [hnone] at hfetch
  rw [Site.step, Site.onCache, hc]
  dsimp only
  rw [Site.fetchPage, hfetch]
  exact ⟨_, rfl⟩

/-- Raising a trigger takes away the entries whose sources have it. -/
lemma Tracks.lacks_rise (h : Tracks s p) {key t : Bytes} (hsrc : p.stored key = some src)
    (ht : t ∈ src.deps) {r : Option Bytes} (hstep : s.step settings (.rise t) = some (s', r)) :
    s'.Lacks key := by
  obtain ⟨c, hc, l, hholds, hl⟩ := h.cache
  obtain ⟨c', hrise, hholds', -⟩ := hholds.rise t
  rw [Site.step, Site.onCache, hc] at hstep
  dsimp only at hstep
  rw [hrise] at hstep
  obtain ⟨rfl, -⟩ := Prod.mk.inj (Option.some.inj hstep)
  refine ⟨c', _, rfl, hholds', fun e he => ?_⟩
  obtain ⟨he, hnot⟩ := List.mem_filter.1 he
  obtain ⟨src', hsrc', hdeps⟩ := hl key e he
  rw [hsrc] at hsrc'
  obtain rfl := Option.some.inj hsrc'
  rw [decide_eq_true_eq] at hnot
  exact hnot (hdeps t ht)

lemma tracks_init (pages : ℕ) : Tracks ⟨some (MemCache.init pages), .init⟩ .init where
  cache := ⟨_, rfl, [], MemCache.holds_init pages, fun _ _ he => absurd he List.not_mem_nil⟩
  collects := ⟨fun _ ht => absurd ht List.not_mem_nil, List.Forall₂.nil⟩

/-- After every run the entries carry the triggers of their sources; a page that is stored next has
all parts of its request as its source; and when a trigger of the source of a page is raised, the
page is not found until it is stored again. -/
theorem runPages_tracks (settings : Settings) (pages : ℕ) (ops : List PageOp) :
    ∃ s p c, runPages settings ⟨some (MemCache.init pages), .init⟩ .init ops = some (s, p) ∧
      s.cache = some c ∧
      (∀ now key, ∃ c' r, c.fetch now key = some (c', r) ∧
        ∀ e, r = some e → ∃ src, p.stored key = some src ∧ ∀ t ∈ src.deps, t ∈ e.triggers) ∧
      (∀ now memory key data timeout, ∃ s' p',
        runPages settings s p [.storePage now memory key data timeout] = some (s', p') ∧
        p'.stored (pageKey s.interface.pageCompressionUsed key) =
          some
            (.frame (pageKey s.interface.pageCompressionUsed key) [] (p.parts ++ [.added key]))) ∧
      ∀ gzip key src t, p.stored (pageKey gzip key) = some src → t ∈ src.deps →
        ∀ ops' : List PageOp, (∀ op ∈ ops', ¬ op.StoresPage key) → ∃ s' p',
          runPages settings s p (.rise t :: ops') = some (s', p') ∧
          ∀ now, ∃ s'', s'.step settings (.fetchPage now key gzip) = some (s'', none) := by
  obtain ⟨s, p, hrun, htracks⟩ := (tracks_init pages).run settings ops
  obtain ⟨c, hc, hdep⟩ := htracks.cache
  refine ⟨s, p, c, hrun, hc, ?_, ?_, ?_⟩
  · intro now key
    obtain ⟨c', r, hfetch, -, hfound⟩ := hdep.fetch now key
    exact ⟨c', r, hfetch, hfound⟩
  · intro now memory key data timeout
    obtain ⟨s', r, hstep, -⟩ := htracks.storePage settings now memory key data timeout
    refine ⟨s', p.step r s.interface.pageCompressionUsed
      (.storePage now memory key data timeout), ?_, Function.update_self ..⟩
    rw [runPages, hstep]
    rfl
  · intro gzip key src t hsrc ht ops' hops
    obtain ⟨s₁, r, hstep, htracks₁⟩ := htracks.step settings (.rise t)
    obtain ⟨s', p', hrun', -⟩ := htracks₁.run settings ops'
    have hlacks := (htracks.lacks_rise hsrc ht hstep).run hops hrun'
    refine ⟨s', p', ?_, fun now => hlacks.fetchPage settings now⟩
    rw [runPages, hstep]
    exact hrun'

/-- The plain variant of a page stays when a trigger that only the compressed one has is raised. -/
theorem runPages_other_variant :
    ((runPages Settings.thread ⟨some (MemCache.init 0), .init⟩ .init
        [.request, .fetchPage 0 [1] false, .storePage 0 Memory.enough [1] [7] 9,
          .request, .fetchPage 0 [1] true, .addTrigger [2], .storePage 0 Memory.enough [1] [8] 9,
          .rise [2]]).bind fun q =>
      (q.1.step Settings.thread (.fetchPage 0 [1] false)).map Prod.snd) = some (some [7]) := by
  have hcache : (runPages Settings.thread ⟨some (MemCache.init 0), .init⟩ .init
      [.request, .fetchPage 0 [1] false, .storePage 0 Memory.enough [1] [7] 9, .request,
        .fetchPage 0 [1] true, .addTrigger [2], .storePage 0 Memory.enough [1] [8] 9,
        .rise [2]]).map (fun q => q.1.cache) =
      some (some ⟨[(0, [95, 85, 58, 1], ⟨[7], 0, [(1, 2), (3, 4)], 0, 0⟩)],
        [(3, [1], [(4, 0)]), (1, [95, 85, 58, 1], [(2, 0)])], [(0, 9, 0)], [(0, 0)], 0, 1,
        2, 2, 11⟩) := by
    decide +kernel
  obtain ⟨⟨⟨cache, i⟩, p⟩, hrun, rfl⟩ := Option.map_eq_some_iff.1 hcache
  rw [hrun]
  rfl

end Cache

end Cppcms
