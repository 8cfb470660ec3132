import Cppcms.Cache.Represent
import Cppcms.Tcp.Server

/-!
# The client of the cache server

`tcp_cache` of `tcp_cache_client.cpp`: the requests that it sends and how it reads the answers.
There is one server, and the connection to it works.
-/

namespace Cppcms

namespace Tcp

open Cache

/-- What `tcp_cache::fetch` returns. -/
inductive FetchResult where
  | upToDate
  | notFound
  | found (e : Entry)

/-- The request of `tcp_cache::fetch`; with a generation an entry that has it is not transferred. -/
def fetchRequest (key : Bytes) (tags : Bool) (gen : Option ℕ) : Option Message :=
  send (.fetch (gen.getD 0) (uint32 key.length) tags gen.isSome) key.length key

/-- How `tcp_cache::fetch` reads the answer; the tags go to those that are there already. -/
def fetchAnswer (tags : StringSet) (gen : Option ℕ) (answer : Message) : Option FetchResult :=
  match answer.operation with
  | .uptodate => some (if gen.isSome then .upToDate else .notFound)
  | .data generation timeout dataLen triggersLen =>
    (slice answer.data 0 dataLen).map fun a =>
      .found ⟨a, tags.insertAll (readStrings (answer.data.drop dataLen) triggersLen),
        timeout, generation⟩
  | _ => some .notFound

/-- The request of `tcp_cache::rise`. -/
def riseRequest (trigger : Bytes) : Option Message :=
  send (.rise (uint32 trigger.length)) trigger.length trigger

/-- The request of `tcp_cache::clear`. -/
def clearRequest : Option Message := send .clear 0 []

/-- The request of `tcp_cache::store`. -/
def storeRequest (key a : Bytes) (triggers : StringSet) (timeout : ℤ) : Option Message :=
  let ts := terminate 0 triggers.toList
  let data := key ++ a ++ ts
  send (.store timeout (uint32 key.length) (uint32 a.length) (uint32 ts.length)) data.length data

variable {σ : Type}

/-- `tcp_cache::store`: the server after it, and its answer. -/
def store (settings : Settings) (storage : Session.Storage σ) (server : Server σ) (now : ℤ)
    (memory : Cache.Memory) (key a : Bytes) (triggers : StringSet) (timeout : ℤ) :
    Option (Server σ × Message) :=
  (storeRequest key a triggers timeout).bind fun m => onDataIn settings storage server now memory m

/-! ## The triggers on the wire -/

/-- The loop fails at an empty string, and else it collects all strings. -/
lemma foldlM_insert (l : List Bytes) (triggers : StringSet) :
    l.foldlM (fun triggers tag => if tag.isEmpty then none else some (triggers.insert tag))
      triggers =
      if [] ∈ l then none else some (triggers.insertAll l) := by
  induction l generalizing triggers with
  | nil => rfl
  | cons tag l ih =>
    rw [List.foldlM_cons]
    cases tag with
    | nil => rw [if_pos List.mem_cons_self]; rfl
    | cons b tag =>
      change List.foldlM _ (triggers.insert (b :: tag)) l = _
      rw [ih]
      simp [SortedSet.insertAll]

variable {len : ℕ} {triggers : StringSet}

lemma loadTriggers_eq {text : Bytes} (hlen : len < 2 ^ 31) :
    loadTriggers text len = if [] ∈ pieces 0 text then none
      else some ((∅ : StringSet).insertAll (pieces 0 text)) := by
  unfold loadTriggers readStrings
  rw [if_neg (not_le.2 hlen), foldlM_insert]

/-- Triggers that are neither empty nor have a null character inside are found again. -/
lemma loadTriggers_terminate (h : ∀ t ∈ triggers, t ≠ [] ∧ 0 ∉ t) (hlen : len < 2 ^ 31) :
    loadTriggers (terminate 0 triggers.toList) len = some triggers := by
  rw [loadTriggers_eq hlen, pieces_terminate fun t ht => (h t ht).2, SortedSet.insertAll_toList,
    if_neg]
  exact fun hmem => (h _ hmem).1 rfl

/-! ## Storing -/

section Store

variable {key a : Bytes} {triggers : StringSet} {timeout : ℤ}

/-- The message of a store whose parts are not too long. -/
lemma storeRequest_eq
    (htotal : key.length + a.length + (terminate 0 triggers.toList).length < 2 ^ 31) :
    storeRequest key a triggers timeout =
      some ⟨.store timeout key.length a.length (terminate 0 triggers.toList).length,
        key ++ a ++ terminate 0 triggers.toList⟩ := by
  unfold storeRequest uint32
  dsimp only
  rw [send_length, Nat.mod_eq_of_lt, Nat.mod_eq_of_lt, Nat.mod_eq_of_lt]
  · omega
  · omega
  · omega
  · rw [List.length_append, List.length_append]
    omega

/-- The server cuts the message into its parts. -/
lemma serveStore_eq (hkey : key ≠ []) {ts : Bytes}
    (htotal : key.length + a.length + ts.length < 2 ^ 31) (settings : Settings) (c : MemCache)
    (now : ℤ) (memory : Cache.Memory) :
    serveStore settings c now memory timeout key.length a.length ts.length (key ++ a ++ ts) =
      match loadTriggers ts ts.length with
      | none => some (c, ⟨.error, []⟩)
      | some triggers =>
        (c.store settings now memory key a triggers timeout none).map fun c =>
          (c, ⟨.done, []⟩) := by
  have hlength : (key ++ a ++ ts).length = key.length + a.length + ts.length := by
    rw [List.length_append, List.length_append]
  have hts : slice (key ++ a ++ ts) (key.length + a.length) ts.length = some ts := by
    simpa only [List.append_nil] using slice_append (c := []) List.length_append rfl
  have hk : slice (key ++ a ++ ts) 0 key.length = some key := by
    rw [List.append_assoc]
    exact slice_append (a := []) rfl rfl
  have hvalue : slice (key ++ a ++ ts) key.length a.length = some a := by
    rw [List.append_assoc]
    exact slice_append rfl rfl
  unfold serveStore uint32
  rw [Nat.mod_eq_of_lt (by omega), if_neg, hts, Option.bind_some, hk, hvalue]
  · rfl
  · rintro (hne | hzero)
    · exact hne hlength.symm
    · exact hkey (List.length_eq_zero_iff.1 hzero)

/-- A store through the client. -/
lemma store_eq (hkey : key ≠ [])
    (htotal : key.length + a.length + (terminate 0 triggers.toList).length < 2 ^ 31)
    (settings : Settings) (storage : Session.Storage σ) (c : MemCache) (sessions : Option σ)
    (now : ℤ) (memory : Cache.Memory) :
    store settings storage ⟨some c, sessions⟩ now memory key a triggers timeout =
      match loadTriggers (terminate 0 triggers.toList) (terminate 0 triggers.toList).length with
      | none => some (⟨some c, sessions⟩, ⟨.error, []⟩)
      | some triggers =>
        (c.store settings now memory key a triggers timeout none).map
          fun c => (⟨some c, sessions⟩, ⟨.done, []⟩) := by
  unfold store
  rw [storeRequest_eq htotal, Option.bind_some, onDataIn]
  dsimp only
  rw [onCache]
  dsimp only
  rw [serveStore_eq hkey htotal]
  cases loadTriggers (terminate 0 triggers.toList) (terminate 0 triggers.toList).length with
  | none => rfl
  | some triggers =>
    dsimp only
    rw [Option.map_map]
    rfl

end Store

/-! ## What a store leaves behind -/

/-- New triggers are put in front of the old ones. -/
lemma foldl_addTrigger_names {p : ℕ} {names : List Bytes} (hnames : names.Nodup) (c : MemCache)
    (hnew : ∀ name ∈ names, name ∉ c.triggers.map fun x => x.2.1) :
    ((names.foldl (MemCache.addTrigger p) c).triggers.map fun x => x.2.1) =
      names.reverse ++ c.triggers.map fun x => x.2.1 := by
  induction names generalizing c with
  | nil => rfl
  | cons name names ih =>
    obtain ⟨hname, hnames⟩ := List.nodup_cons.1 hnames
    have hfind : c.findTrigger name = none := by
      refine List.find?_eq_none.2 fun x hx => ?_
      rw [decide_eq_true_eq]
      rintro rfl
      exact hnew _ List.mem_cons_self (List.mem_map.2 ⟨x, hx, rfl⟩)
    have hadd : ((MemCache.addTrigger p c name).triggers.map fun x => x.2.1) =
        name :: c.triggers.map fun x => x.2.1 := by
      unfold MemCache.addTrigger MemCache.insertTrigger
      rw [hfind]
      dsimp only [Cells.modify]
      rw [List.map_map, List.map_cons]
      congr 1
      · exact congrArg _ (if_pos rfl)
      · apply List.map_congr_left
        intro x _
        dsimp only [Function.comp]
        split_ifs <;> rfl
    rw [List.foldl_cons, ih hnames, hadd, List.reverse_cons, List.append_assoc,
      List.singleton_append]
    intro name' hname'
    rw [hadd, List.mem_cons, not_or]
    refine ⟨?_, hnew name' (List.mem_cons_of_mem _ hname')⟩
    rintro rfl
    exact hname hname'

/-- In a new cache the triggers of a store show the order in which they have been added. -/
lemma init_store_triggers (now : ℤ) (memory : Cache.Memory) (key a : Bytes) (triggers : StringSet)
    (timeout : ℤ) :
    ∃ c, (MemCache.init 0).store Settings.thread now memory key a triggers timeout none = some c ∧
      (c.triggers.map fun x => x.2.1) = (MemCache.allTriggers key triggers).reverse := by
  refine ⟨_, rfl, ?_⟩
  rw [foldl_addTrigger_names (MemCache.allTriggers_nodup key triggers)]
  · exact List.append_nil _
  · intro name _ hmem
    cases hmem

/-- The triggers that are read from the wire are added like the given ones only if these are the
same. -/
lemma good_of_allTriggers_eq {key : Bytes} (hkey : key ≠ [])
    (hpieces : [] ∉ pieces 0 (terminate 0 triggers.toList))
    (heq :
      MemCache.allTriggers key
      ((∅ : StringSet).insertAll (pieces 0 (terminate 0 triggers.toList))) =
      MemCache.allTriggers key triggers) : ∀ t ∈ triggers, t ≠ [] ∧ 0 ∉ t := by
  set read := (∅ : StringSet).insertAll (pieces 0 (terminate 0 triggers.toList)) with hread
  have hgood : ∀ t ∈ read, t ≠ [] ∧ 0 ∉ t := by
    intro t ht
    have hmem : t ∈ pieces 0 (terminate 0 triggers.toList) := by simpa [hread] using ht
    exact ⟨fun hnil => hpieces (hnil ▸ hmem), not_mem_of_mem_pieces hmem⟩
  intro t ht
  by_cases hmem : t ∈ read
  · exact hgood t hmem
  · -- the key is the only trigger that need not be read
    have hall : t ∈ MemCache.allTriggers key triggers := by
      unfold MemCache.allTriggers
      split_ifs
      · exact ht
      · exact List.mem_cons_of_mem _ ht
    rw [← heq] at hall
    have htkey : t = key := by
      unfold MemCache.allTriggers at hall
      split_ifs at hall
      · exact absurd hall hmem
      · exact (List.mem_cons.1 hall).resolve_right hmem
    subst htkey
    refine ⟨hkey, fun hzero => ?_⟩
    -- then the key is the first trigger, and its part before the null character comes after it
    unfold MemCache.allTriggers at heq
    rw [if_neg hmem, if_pos ht] at heq
    have hfirst : t.takeWhile (· ≠ 0) ∈ read.toList := by
      rw [SortedSet.mem_toList, hread, SortedSet.mem_insertAll, ← heq, terminate_cons,
        pieces_cons (by simp)]
      refine .inl (List.mem_cons.2 (.inl ?_))
      rw [List.takeWhile_append, if_neg]
      intro hlen
      have hall := List.takeWhile_eq_self_iff.1 (List.takeWhile_prefix _ |>.eq_of_length hlen)
      simpa using hall 0 hzero
    have hsorted := triggers.sorted
    rw [← heq] at hsorted
    have hlt := (List.pairwise_cons.1 hsorted).1 _ hfirst
    exact List.IsPrefix.le (List.takeWhile_prefix _) hlt

/-- A store through the client is one on the cache of the server if no trigger is empty or has a
null character. -/
theorem store_eq_store_iff {key a : Bytes} {triggers : StringSet} {timeout : ℤ} (hkey : key ≠ [])
    (htotal : key.length + a.length + (terminate 0 triggers.toList).length < 2 ^ 31)
    (storage : Session.Storage σ) (sessions : Option σ) :
    (∀ settings c now memory,
      store settings storage ⟨some c, sessions⟩ now memory key a triggers timeout =
      (c.store settings now memory key a triggers timeout none).map
        fun c => (⟨some c, sessions⟩, ⟨.done, []⟩)) ↔
      ∀ t ∈ triggers, t ≠ [] ∧ 0 ∉ t := by
  have hlen : (terminate 0 triggers.toList).length < 2 ^ 31 := by omega
  constructor
  · intro h
    have hstore := h Settings.thread (MemCache.init 0) 0 Cache.Memory.enough
    obtain ⟨c, hc, hnames⟩ := init_store_triggers 0 Cache.Memory.enough key a triggers timeout
    rw [store_eq hkey htotal, loadTriggers_eq hlen, hc] at hstore
    split_ifs at hstore with hpieces
    · simp at hstore
    · refine good_of_allTriggers_eq hkey hpieces ?_
      obtain ⟨c', hc', hnames'⟩ := init_store_triggers 0 Cache.Memory.enough key a
        ((∅ : StringSet).insertAll (pieces 0 (terminate 0 triggers.toList))) timeout
      dsimp only at hstore
      rw [hc'] at hstore
      have heq : c' = c := by simpa using hstore
      rw [heq, hnames] at hnames'
      exact (List.reverse_injective hnames').symm
  · intro hgood settings c now memory
    rw [store_eq hkey htotal, loadTriggers_terminate hgood hlen]

/-- One trigger without a null character. -/
theorem store_eq_store_plain :
    (∀ settings c now memory, store settings Session.table ⟨some c, none⟩ now memory [1] [2]
      ⟨[[3]], by simp⟩ 5 =
      (c.store settings now memory [1] [2] ⟨[[3]], by simp⟩ 5 none).map
        fun c => (⟨some c, none⟩, ⟨.done, []⟩)) ↔
      ∀ t ∈ (⟨[[3]], by simp⟩ : StringSet), t ≠ [] ∧ 0 ∉ t :=
  store_eq_store_iff (by simp) (by simp) Session.table none

/-- A store with an empty trigger is refused. -/
theorem store_empty_trigger :
    store Settings.thread Session.table ⟨some (MemCache.init 0), none⟩ 0 Cache.Memory.enough [1] [2]
        ⟨[[]], by simp⟩ 5 = some (⟨some (MemCache.init 0), none⟩, ⟨.error, []⟩) ∧
      (MemCache.init 0).store Settings.thread 0 Cache.Memory.enough [1] [2] ⟨[[]], by simp⟩ 5 none ≠
        some (MemCache.init 0) := by
  constructor
  · rfl
  · decide

end Tcp

end Cppcms
