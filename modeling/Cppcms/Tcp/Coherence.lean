import Cppcms.Tcp.OverIp

/-!
# What a fetch through a local cache returns

The server numbers its entries.  As long as no number is given twice, an entry of a local cache is a
copy of the entry that the server has stored with this number (`Copy`), whatever has happened since;
so an answer `uptodate` says that the copy is what the server holds.
-/

namespace Cppcms

namespace Tcp

open Cache

/-! ## Messages -/

variable {len : ℕ} {data : Bytes} {m : Message} {keyLen dataLen triggersLen : ℕ}
  {memory : Cache.Memory} {now : ℤ} {timeout : ℤ} {e : Entry}

/-- The triggers of a store that the server accepts. -/
lemma zero_not_mem_of_loadTriggers {text : Bytes} {triggers : StringSet}
    (h : loadTriggers text len = some triggers) : ∀ t ∈ triggers, 0 ∉ t := by
  unfold loadTriggers at h
  rw [foldlM_insert] at h
  split_ifs at h
  obtain rfl := Option.some.inj h
  intro t ht
  have hmem : t ∈ readStrings text len := by simpa using ht
  unfold readStrings at hmem
  split_ifs at hmem
  · cases hmem
  · exact not_mem_of_mem_pieces hmem

lemma length_of_send {operation : Operation} {size : ℕ} (h : send operation size data = some m) :
    m.operation = operation ∧ m.data.length < 2 ^ 32 := by
  unfold send uint32 at h
  split_ifs at h
  obtain rfl := Option.some.inj h
  refine ⟨rfl, ?_⟩
  rw [List.length_take]
  exact (Nat.min_le_left _ _).trans_lt (Nat.mod_lt _ (Nat.two_pow_pos 32))

/-- A store on the server changes nothing, or it stores a value that was in the message under
triggers without null characters. -/
lemma serveStore_cases {settings : Settings} {c c' : MemCache}
    (h : serveStore settings c now memory timeout keyLen dataLen triggersLen data = some (c', m)) :
    c' = c ∨ ∃ key value triggers, value.length ≤ data.length ∧ (∀ t ∈ triggers, 0 ∉ t) ∧
      c.store settings now memory key value triggers timeout none = some c' := by
  unfold serveStore at h
  split_ifs at h
  · obtain ⟨rfl, -⟩ := Prod.mk.inj (Option.some.inj h)
    exact .inl rfl
  · obtain ⟨ts, -, h⟩ := Option.bind_eq_some_iff.1 h
    cases hload : loadTriggers ts triggersLen with
    | none =>
      rw [hload] at h
      obtain ⟨rfl, -⟩ := Prod.mk.inj (Option.some.inj h)
      exact .inl rfl
    | some triggers =>
      rw [hload] at h
      obtain ⟨key, -, h⟩ := Option.bind_eq_some_iff.1 h
      obtain ⟨value, hvalue, h⟩ := Option.bind_eq_some_iff.1 h
      obtain ⟨c₁, hstore, heq⟩ := Option.map_eq_some_iff.1 h
      obtain ⟨rfl, -⟩ := Prod.mk.inj heq
      exact .inr ⟨key, value, triggers, length_le_of_slice hvalue,
        zero_not_mem_of_loadTriggers hload, hstore⟩

/-- The answer of the server with an entry, as the client reads it. -/
lemma fetchAnswer_data (hdata : e.data.length < 2 ^ 32) {transfer : Bool}
    {dataOut : Bytes}
    (hout : dataOut = if transfer then e.data ++ terminate 0 e.triggers.toList else e.data)
    (hsend : send (.data e.generation e.timeout (uint32 e.data.length)
      (uint32 (dataOut.length - uint32 e.data.length))) dataOut.length dataOut = some m)
    {tags : StringSet} {gen : Option ℕ} {r : FetchResult}
      (hanswer : fetchAnswer tags gen m = some r) :
    ∃ ts, r = .found ⟨e.data, ts, e.timeout, e.generation⟩ ∧
      (transfer = true → (terminate 0 e.triggers.toList).length < 2 ^ 31 →
        ts = tags.insertAll (pieces 0 (terminate 0 e.triggers.toList))) := by
  have hlen : uint32 e.data.length = e.data.length := Nat.mod_eq_of_lt hdata
  have hpre : e.data <+: dataOut := by
    rw [hout]
    split_ifs
    · exact List.prefix_append _ _
    · exact List.prefix_rfl
  rw [hlen] at hsend
  unfold send at hsend
  split_ifs at hsend with hsize
  obtain rfl := Option.some.inj hsend
  unfold fetchAnswer at hanswer
  dsimp only at hanswer
  obtain ⟨a, hslice, rfl⟩ := Option.map_eq_some_iff.1 hanswer
  -- what comes before the triggers is the data, even if the message has been cut
  unfold slice at hslice
  split_ifs at hslice with hle
  rw [Nat.zero_add, List.length_take, le_min_iff] at hle
  have ha : e.data = a := by
    rw [← Option.some.inj hslice, List.drop_zero, List.take_take, min_eq_left hle.1]
    obtain ⟨rest, hrest⟩ := hpre
    rw [← hrest, List.take_left]
  subst ha
  refine ⟨_, rfl, fun htransfer hts => ?_⟩
  rw [if_pos htransfer] at hout
  have hlength : dataOut.length = e.data.length + (terminate 0 e.triggers.toList).length := by
    rw [hout, List.length_append]
  have hsmall : dataOut.length < 2 ^ 32 := by
    by_contra hge
    have hcut : uint32 dataOut.length < e.data.length := by
      unfold uint32
      omega
    omega
  have hfull : uint32 dataOut.length = dataOut.length := Nat.mod_eq_of_lt hsmall
  have hrest : uint32 (dataOut.length - e.data.length) =
      (terminate 0 e.triggers.toList).length := by
    unfold uint32
    omega
  unfold readStrings
  rw [hrest, if_neg (not_le.2 hts), hfull, List.take_length, hout, List.drop_left]

/-! ## Copies -/

/-- The entries that the server has stored, by their numbers. -/
abbrev Log := ℕ → Bytes × Entry

/-- An entry for a key that has, in the sense of `R`, been copied from the server. -/
def Copy (R : Entry → Entry → Prop) (log : Log) (n : ℕ) (key : Bytes) (e : Entry) : Prop :=
  e.generation < n ∧ (log e.generation).1 = key ∧ R e (log e.generation).2

/-- The server holds entries of the log, under the numbers that it has given them. -/
structure ServerOk (log : Log) (n : ℕ) (c : MemCache) (l : List (Bytes × Entry)) : Prop where
  holds : c.Holds l
  generation : c.generation = n % 2 ^ 64
  logged : ∀ key e, (key, e) ∈ l → e.generation < n ∧ log e.generation = (key, e)
  data : ∀ key e, (key, e) ∈ l → e.data.length < 2 ^ 32
  triggers : ∀ key e, (key, e) ∈ l → ∀ t ∈ e.triggers, t = key ∨ 0 ∉ t

/-- A local cache holds copies. -/
def LocalOk (R : Entry → Entry → Prop) (log : Log) (n : ℕ) (c : MemCache) : Prop :=
  ∃ l, c.Holds l ∧ ∀ key e, (key, e) ∈ l → Copy R log n key e

/-- A thread has copies in its hands, and the answer that it has got is right. -/
def PcOk (R : Entry → Entry → Prop) (Q : Bytes → StringSet → Prop) (log : Log) (n : ℕ) : Pc → Prop
  | .fetching key tags hit =>
    key.length < 2 ^ 32 ∧ (∃ ts, tags = some ts ∧ Q key ts) ∧ ∀ e, hit = some e → Copy R log n key e
  | .fetched key hit .upToDate served =>
    ∃ e s, hit = some e ∧ served = some s ∧ s.generation < n ∧ log s.generation = (key, s) ∧ R e s
  | .fetched _ _ .notFound served => served = none
  | .fetched key _ (.found e) served =>
    ∃ s, served = some s ∧ s.generation < n ∧ log s.generation = (key, s) ∧ R e s ∧ key ∈ s.triggers
  | _ => True

/-- What holds in every state of a run. -/
structure SystemOk (R : Entry → Entry → Prop) (Q : Bytes → StringSet → Prop) (log : Log) (n : ℕ)
    (s : System) : Prop where
  server : ∃ l, ServerOk log n s.server l
  l1 : ∀ i, ∃ c, s.l1 i = some c ∧ LocalOk R log n c
  threads : ∀ i, PcOk R Q log n (s.threads i)
  stores : n ≤ s.stores

/-- Relations between an entry and its copy that a local cache keeps. -/
structure CopyRelation (R : Entry → Entry → Prop) : Prop where
  generation : ∀ e s, R e s → e.generation = s.generation
  insert : ∀ e s key, R e s → key ∈ s.triggers →
    R ⟨e.data, e.triggers.insert key, e.timeout, e.generation⟩ s

variable {R : Entry → Entry → Prop} {Q : Bytes → StringSet → Prop} {log log' : Log}
    {n n' : ℕ} {cfg : Config}

section Mono

variable (hn : n ≤ n') (hlog : ∀ g < n, log' g = log g)

include hn hlog

lemma Copy.mono {key : Bytes} (h : Copy R log n key e) : Copy R log' n' key e := by
  obtain ⟨hlt, hkey, hR⟩ := h
  refine ⟨hlt.trans_le hn, ?_, ?_⟩
  · rwa [hlog _ hlt]
  · rwa [hlog _ hlt]

lemma LocalOk.mono {c : MemCache} (h : LocalOk R log n c) : LocalOk R log' n' c := by
  obtain ⟨l, hholds, hcopy⟩ := h
  exact ⟨l, hholds, fun key e he => (hcopy key e he).mono hn hlog⟩

lemma PcOk.mono {pc : Pc} (h : PcOk R Q log n pc) : PcOk R Q log' n' pc := by
  cases pc with
  | fetching key tags hit =>
    obtain ⟨hkey, htags, hhit⟩ := h
    exact ⟨hkey, htags, fun e he => (hhit e he).mono hn hlog⟩
  | fetched key hit answer served =>
    cases answer with
    | upToDate =>
      obtain ⟨e, s, hhit, hserved, hlt, hlogged, hR⟩ := h
      exact ⟨e, s, hhit, hserved, hlt.trans_le hn, (hlog _ hlt).trans hlogged, hR⟩
    | notFound => exact h
    | found e =>
      obtain ⟨s, hserved, hlt, hlogged, hR, hkey⟩ := h
      exact ⟨s, hserved, hlt.trans_le hn, (hlog _ hlt).trans hlogged, hR, hkey⟩
  | idle => trivial
  | storing _ _ _ _ => trivial
  | raising _ => trivial
  | clearing => trivial

end Mono

namespace ServerOk

variable {c c' : MemCache} {l l' : List (Bytes × Entry)}

/-- Fewer entries, or the same ones in another order. -/
lemma subset (h : ServerOk log n c l) (hholds : c'.Holds l') (hgen : c'.generation = c.generation)
    (hsub : ∀ x ∈ l', x ∈ l) : ServerOk log n c' l' where
  holds := hholds
  generation := hgen.trans h.generation
  logged key e he := h.logged key e (hsub _ he)
  data key e he := h.data key e (hsub _ he)
  triggers key e he := h.triggers key e (hsub _ he)

/-- A store gives the next number. -/
lemma store (h : ServerOk log n c l) {settings : Settings} {now : ℤ} {memory : Cache.Memory}
    {key data : Bytes} {triggers : StringSet} {timeout : ℤ} (hdata : data.length < 2 ^ 32)
    (htriggers : ∀ t ∈ triggers, 0 ∉ t) (hn : n < 2 ^ 64)
    (hstore : c.store settings now memory key data triggers timeout none = some c') :
    ∃ log' n' l', ServerOk log' n' c' l' ∧ n ≤ n' ∧ n' ≤ n + 1 ∧ ∀ g < n, log' g = log g := by
  obtain ⟨c₁, l₁, hstore₁, hholds, -, hcase⟩ := h.holds.store settings now memory key data triggers
    timeout none
  obtain rfl : c₁ = c' := by
    rw [hstore₁] at hstore
    exact Option.some.inj hstore
  generalize hgen : c₁.generation = g at hcase
  cases hcase with
  | tooMany =>
    exact ⟨log, n, _, h.subset hholds hgen fun x hx =>
      (List.mem_filter.1 hx).1, le_rfl, Nat.le_succ n, fun _ _ => rfl⟩
  | @stored rest hfew hevicts hroom =>
    have hnumber : c.generation = n := by rw [h.generation, Nat.mod_eq_of_lt hn]
    have hold : ∀ g < n, Function.update log n (key, c.newEntry key data triggers timeout none) g =
        log g :=
      fun g hg => Function.update_of_ne hg.ne _ _
    have hsub : ∀ x ∈ rest, x ∈ l := fun x hx => (List.mem_filter.1 (hevicts.sublist.subset hx)).1
    refine ⟨Function.update log n (key, c.newEntry key data triggers timeout none), n + 1, _,
      ⟨hholds, ?_, ?_, ?_, ?_⟩, Nat.le_succ n, le_rfl, hold⟩
    · rw [hgen, MemCache.nextGeneration, if_neg (by simp), hnumber]
    · intro key' e he
      obtain heq | he := List.mem_cons.1 he
      · obtain ⟨rfl, rfl⟩ := Prod.mk.inj heq
        have hself : (c.newEntry key' data triggers timeout none).generation = n := hnumber
        rw [hself, Function.update_self]
        exact ⟨Nat.lt_succ_self n, rfl⟩
      · obtain ⟨hlt, hlogged⟩ := h.logged key' e (hsub _ he)
        exact ⟨Nat.lt_succ_of_lt hlt, (hold _ hlt).trans hlogged⟩
    · intro key' e he
      obtain heq | he := List.mem_cons.1 he
      · obtain ⟨rfl, rfl⟩ := Prod.mk.inj heq
        exact hdata
      · exact h.data key' e (hsub _ he)
    · intro key' e he t ht
      obtain heq | he := List.mem_cons.1 he
      · obtain ⟨rfl, rfl⟩ := Prod.mk.inj heq
        obtain rfl | ht := SortedSet.mem_insert.1 ht
        · exact .inl rfl
        · exact .inr (htriggers t ht)
      · exact h.triggers key' e (hsub _ he) t ht

end ServerOk

namespace LocalOk

variable {c c' : MemCache} {key : Bytes}

lemma remove (h : LocalOk R log n c) (hremove : c.remove key = some c') : LocalOk R log n c' := by
  obtain ⟨l, hholds, hcopy⟩ := h
  obtain ⟨c₁, hremove₁, hholds', -⟩ := hholds.remove key
  rw [hremove] at hremove₁
  obtain rfl := Option.some.inj hremove₁
  exact ⟨_, hholds', fun key' e he => hcopy key' e (List.mem_filter.1 he).1⟩

lemma rise {trigger : Bytes} (h : LocalOk R log n c) (hrise : c.rise trigger = some c') :
    LocalOk R log n c' := by
  obtain ⟨l, hholds, hcopy⟩ := h
  obtain ⟨c₁, hrise₁, hholds', -⟩ := hholds.rise trigger
  rw [hrise] at hrise₁
  obtain rfl := Option.some.inj hrise₁
  exact ⟨_, hholds', fun key' e he => hcopy key' e (List.mem_filter.1 he).1⟩

lemma clear (c : MemCache) : LocalOk R log n c.clear :=
  ⟨[], MemCache.holds_clear c, fun _ _ he => by cases he⟩

/-- A copy that is stored stays a copy. -/
lemma store (h : LocalOk R log n c) {settings : Settings} {now : ℤ}
    {memory : Cache.Memory} {e : Entry}
    (he : Copy R log n key ⟨e.data, e.triggers.insert key, e.timeout, e.generation⟩)
    (hstore : c.store settings now memory key e.data e.triggers e.timeout
      (some e.generation) = some c') :
    LocalOk R log n c' := by
  obtain ⟨l, hholds, hcopy⟩ := h
  obtain ⟨c₁, l', hstore₁, hholds', -, hcase⟩ :=
    hholds.store settings now memory key e.data e.triggers e.timeout (some e.generation)
  rw [hstore] at hstore₁
  obtain rfl := Option.some.inj hstore₁
  refine ⟨l', hholds', ?_⟩
  generalize c'.generation = g at hcase
  intro key' e' he'
  cases hcase with
  | tooMany => exact hcopy key' e' (List.mem_filter.1 he').1
  | stored _ hevicts _ =>
    obtain heq | he' := List.mem_cons.1 he'
    · obtain ⟨rfl, rfl⟩ := Prod.mk.inj heq
      exact he
    · exact hcopy key' e' (List.mem_filter.1 (hevicts.sublist.subset he')).1

/-- What is fetched is a copy. -/
lemma fetch {r : Option Entry} (h : LocalOk R log n c) (hfetch : c.fetch now key = some (c', r)) :
    LocalOk R log n c' ∧ ∀ e, r = some e → Copy R log n key e := by
  obtain ⟨l, hholds, hcopy⟩ := h
  obtain ⟨c₁, hfetch₁, hholds', -⟩ := hholds.fetch now key
  rw [hfetch] at hfetch₁
  obtain ⟨rfl, rfl⟩ := Prod.mk.inj (Option.some.inj hfetch₁)
  refine ⟨⟨_, hholds', fun key' e he => hcopy key' e (hholds.mem_fetchEntry.1 he)⟩, fun e he => ?_⟩
  exact hcopy key e (hholds.fetchEntry_eq_some.1 he).1

end LocalOk

/-! ## The answers of the server -/

section Ask

variable {c : MemCache} {now : ℤ} {memory : Cache.Memory} {m : Message}

/-- A request to the cache is answered by the cache. -/
lemma ask_onCache {f : MemCache → Option (MemCache × Message)}
    (h : onDataIn cfg.server Session.table ⟨some c, none⟩ now memory m = onCache ⟨some c, none⟩ f) :
    System.ask cfg c now memory m = f c := by
  unfold System.ask
  rw [h, onCache]
  dsimp only
  cases f c <;> rfl

variable {tags newer : Bool}

lemma ask_fetch {g len : ℕ} (hm : m.operation = .fetch g len tags newer) :
    System.ask cfg c now memory m = serveFetch c now g tags newer m.data := by
  refine ask_onCache ?_ (f := fun c => serveFetch c now g tags newer m.data)
  rw [onDataIn, hm]

lemma ask_store (hm : m.operation = .store timeout keyLen dataLen triggersLen) :
    System.ask cfg c now memory m =
      serveStore cfg.server c now memory timeout keyLen dataLen triggersLen m.data := by
  refine ask_onCache ?_
    (f := fun c => serveStore cfg.server c now memory timeout keyLen dataLen triggersLen m.data)
  rw [onDataIn, hm]

lemma ask_rise (hm : m.operation = .rise len) :
    System.ask cfg c now memory m = serveRise c m.data := by
  refine ask_onCache ?_ (f := fun c => serveRise c m.data)
  rw [onDataIn, hm]

lemma ask_clear (hm : m.operation = .clear) : System.ask cfg c now memory m = serveClear c := by
  refine ask_onCache ?_ (f := serveClear)
  rw [onDataIn, hm]

/-- The server answers a fetch with what its cache has. -/
lemma ServerOk.serveFetch {l : List (Bytes × Entry)} (h : ServerOk log n c l) {g : ℕ} {key : Bytes}
    {c' : MemCache} (hserve : Tcp.serveFetch c now g tags newer key = some (c', m)) :
    ∃ l' served, ServerOk log n c' l' ∧ (c.fetch now key).bind Prod.snd = served ∧
      ((served = none ∧ m = ⟨.noData, []⟩) ∨ ∃ e, served = some e ∧ (key, e) ∈ l ∧
        ((newer = true ∧ e.generation = g ∧ m = ⟨.uptodate, []⟩) ∨
          (¬ (newer = true ∧ e.generation = g) ∧ ∃ dataOut,
            dataOut = (if tags then e.data ++ terminate 0 e.triggers.toList else e.data) ∧
            send (.data e.generation e.timeout (uint32 e.data.length)
              (uint32 (dataOut.length - uint32 e.data.length))) dataOut.length dataOut =
                some m))) := by
  obtain ⟨c₁, hfetch, hholds, hsame⟩ := h.holds.fetch now key
  have hok := h.subset hholds hsame.generation fun x hx => h.holds.mem_fetchEntry.1 hx
  unfold Tcp.serveFetch at hserve
  rw [hfetch, Option.bind_some] at hserve
  rw [hfetch, Option.bind_some]
  dsimp only at hserve ⊢
  cases hentry : (MemCache.fetchEntry now key l).2 with
  | none =>
    rw [hentry] at hserve
    obtain ⟨rfl, rfl⟩ := Prod.mk.inj (Option.some.inj hserve)
    exact ⟨_, _, hok, rfl, .inl ⟨rfl, rfl⟩⟩
  | some e =>
    rw [hentry] at hserve
    have hmem := (h.holds.fetchEntry_eq_some.1 hentry).1
    dsimp only at hserve
    split_ifs at hserve with hnewer htags
    · obtain ⟨rfl, rfl⟩ := Prod.mk.inj (Option.some.inj hserve)
      rw [Bool.and_eq_true, decide_eq_true_eq] at hnewer
      exact ⟨_, _, hok, rfl, .inr ⟨e, rfl, hmem, .inl ⟨hnewer.1, hnewer.2, rfl⟩⟩⟩
    · rw [Bool.and_eq_true, decide_eq_true_eq] at hnewer
      obtain ⟨m', hsend, heq⟩ := Option.map_eq_some_iff.1 hserve
      obtain ⟨rfl, rfl⟩ := Prod.mk.inj heq
      exact ⟨_, _, hok, rfl, .inr ⟨e, rfl, hmem, .inr ⟨hnewer, _, (if_pos htags).symm, hsend⟩⟩⟩
    · rw [Bool.and_eq_true, decide_eq_true_eq] at hnewer
      obtain ⟨m', hsend, heq⟩ := Option.map_eq_some_iff.1 hserve
      obtain ⟨rfl, rfl⟩ := Prod.mk.inj heq
      exact ⟨_, _, hok, rfl, .inr ⟨e, rfl, hmem, .inr ⟨hnewer, _, (if_neg htags).symm, hsend⟩⟩⟩

end Ask

/-! ## Steps -/

/-- What a fetch may be started with: copies stay copies when the tags are added. -/
def StartOk (R : Entry → Entry → Prop) (Q : Bytes → StringSet → Prop) : Action → Prop
  | .start (.fetch key tags) => key.length < 2 ^ 32 ∧ Q key (tags.getD ∅) ∧
    ∀ e s, R e s → R { e with triggers := (tags.getD ∅).insertAll e.triggers.toList } s
  | _ => True

/-- What a fetch may be answered with: an entry that the client reads is a copy of the one that the
server has sent. -/
def AnswerOk (R : Entry → Entry → Prop) (Q : Bytes → StringSet → Prop) (s : System) (i : ℕ)
    (now : ℤ) :
    Action → Prop
  | .serve _ => ∀ key tags hit e ts, s.threads i = .fetching key (some tags) hit → Q key tags →
    (s.server.fetch now key).bind Prod.snd = some e → (∀ t ∈ e.triggers, t = key ∨ 0 ∉ t) →
    (∀ h, hit = some h → h.generation ≠ e.generation) →
    ((terminate 0 e.triggers.toList).length < 2 ^ 31 →
      ts = ((hit.map Entry.triggers).getD tags).insertAll
        (pieces 0 (terminate 0 e.triggers.toList))) →
    R ⟨e.data, ts, e.timeout, e.generation⟩ e
  | _ => True

namespace SystemOk

variable {s s' : System} {i : ℕ} {now : ℤ}

lemma goto (h : SystemOk R Q log n s) {pc : Pc} (hpc : PcOk R Q log n pc) :
    SystemOk R Q log n (s.goto i pc) where
  server := h.server
  l1 := h.l1
  threads j := by
    unfold System.goto
    dsimp only
    by_cases hj : j = i
    · subst hj
      rwa [Function.update_self]
    · rw [Function.update_of_ne hj]
      exact h.threads j
  stores := h.stores

variable {c : MemCache}

/-- A local cache with copies takes the place of another one. -/
lemma update_l1 (h : SystemOk R Q log n s) (hc : LocalOk R log n c) :
    SystemOk R Q log n { s with l1 := Function.update s.l1 (cfg.client i) (some c) } where
  server := h.server
  l1 j := by
    dsimp only
    by_cases hj : j = cfg.client i
    · subst hj
      rw [Function.update_self]
      exact ⟨c, rfl, hc⟩
    · rw [Function.update_of_ne hj]
      exact h.l1 j
  threads := h.threads
  stores := h.stores

lemma onL1 (h : SystemOk R Q log n s) {f : MemCache → Option MemCache}
    (hf : ∀ c c', LocalOk R log n c → f c = some c' → LocalOk R log n c')
    (hon : s.onL1 cfg i f = some s') : SystemOk R Q log n s' := by
  obtain ⟨c, hc, hlocal⟩ := h.l1 (cfg.client i)
  unfold System.onL1 at hon
  rw [hc] at hon
  obtain ⟨c', hfc, rfl⟩ := Option.map_eq_some_iff.1 hon
  exact h.update_l1 (hf c c' hlocal hfc)

lemma start (h : SystemOk R Q log n s) {call : ClientCall} (hcall : StartOk R Q (.start call))
    (hstart : s.start cfg i now call = some s') : SystemOk R Q log n s' := by
  cases call with
  | fetch key tags =>
    obtain ⟨hkey, hQ, htags⟩ := hcall
    obtain ⟨c, hc, hlocal⟩ := h.l1 (cfg.client i)
    unfold System.start at hstart
    dsimp only at hstart
    rw [hc] at hstart
    obtain ⟨⟨c', r⟩, hfetch, rfl⟩ := Option.map_eq_some_iff.1 hstart
    obtain ⟨hlocal', hcopy⟩ := hlocal.fetch hfetch
    apply (h.update_l1 hlocal').goto
    refine ⟨hkey, ⟨_, rfl, hQ⟩, fun e he => ?_⟩
    obtain ⟨e, hr, rfl⟩ := Option.map_eq_some_iff.1 he
    obtain ⟨hlt, hlogged, hR⟩ := hcopy e hr
    exact ⟨hlt, hlogged, htags _ _ hR⟩
  | store key data triggers timeout =>
    obtain ⟨s₁, hon, rfl⟩ := Option.map_eq_some_iff.1 hstart
    exact (h.onL1 (fun c c' hc hremove => hc.remove hremove) hon).goto trivial
  | rise trigger =>
    obtain ⟨s₁, hon, rfl⟩ := Option.map_eq_some_iff.1 hstart
    exact (h.onL1 (fun c c' hc hrise => hc.rise hrise) hon).goto trivial
  | clear =>
    obtain ⟨s₁, hon, rfl⟩ := Option.map_eq_some_iff.1 hstart
    refine (h.onL1 (fun c c' _ hclear => ?_) hon).goto trivial
    obtain rfl := Option.some.inj hclear
    exact LocalOk.clear c

/-- The server changes without new entries. -/
lemma update_server (h : SystemOk R Q log n s) {l : List (Bytes × Entry)}
    (hc : ServerOk log n c l) : SystemOk R Q log n { s with server := c } :=
  ⟨⟨l, hc⟩, h.l1, h.threads, h.stores⟩

/-- A fetch is answered. -/
lemma serve_fetch (h : SystemOk R Q log n s) (hanswer : AnswerOk R Q s i now (.serve memory))
    {key : Bytes} {tags : Option StringSet} {hit : Option Entry}
    (hpc : s.threads i = .fetching key tags hit) (hserve : s.serve cfg i now memory = some s') :
    SystemOk R Q log n s' := by
  obtain ⟨l, hserver⟩ := h.server
  obtain ⟨hkey, ⟨tags, rfl, hQ⟩, hhit⟩ : PcOk R Q log n (.fetching key tags hit) :=
    hpc ▸ h.threads i
  unfold System.serve at hserve
  rw [hpc] at hserve
  dsimp only at hserve
  rw [fetchRequest, send_length hkey, Option.bind_some, ask_fetch rfl] at hserve
  obtain ⟨⟨c', m⟩, hask, hserve⟩ := Option.bind_eq_some_iff.1 hserve
  obtain ⟨answer, hread, rfl⟩ := Option.map_eq_some_iff.1 hserve
  obtain ⟨l', served, hok, hserved, hcase⟩ := hserver.serveFetch hask
  dsimp only at hread
  rw [hserved]
  apply (h.update_server hok).goto
  obtain ⟨rfl, rfl⟩ | ⟨e, rfl, hmem, ⟨hnewer, hgen, rfl⟩ | ⟨hother, dataOut, hout, hsend⟩⟩ := hcase
  · obtain rfl := Option.some.inj hread
    rfl
  · -- the copy has the number of the entry
    obtain ⟨e', rfl⟩ : ∃ e', hit = some e' := by simpa [Option.isSome_iff_exists] using hnewer
    obtain rfl := Option.some.inj hread
    obtain ⟨-, -, hR⟩ := hhit e' rfl
    have hnumber : e.generation = e'.generation := hgen
    obtain ⟨hlt, hlogged⟩ := hserver.logged key e hmem
    rw [← hnumber, hlogged] at hR
    exact ⟨e', e, rfl, rfl, hlt, hlogged, hR⟩
  · obtain ⟨ts, rfl, hts⟩ := fetchAnswer_data (hserver.data key e hmem) hout hsend hread
    obtain ⟨hlt, hlogged⟩ := hserver.logged key e hmem
    refine ⟨e, rfl, hlt, hlogged, ?_, hserver.holds.own hmem⟩
    refine hanswer key tags hit e ts hpc hQ hserved (hserver.triggers key e hmem) ?_ (hts rfl)
    rintro e' rfl hgen
    exact hother ⟨rfl, hgen.symm⟩

/-- A request is answered. -/
lemma serve (h : SystemOk R Q log n s) (hanswer : AnswerOk R Q s i now (.serve memory))
    (hserve : s.serve cfg i now memory = some s') (hstores : s'.stores ≤ 2 ^ 64) :
    ∃ log' n', SystemOk R Q log' n' s' ∧ n ≤ n' ∧ ∀ g < n, log' g = log g := by
  obtain ⟨l, hserver⟩ := id h.server
  cases hpc : s.threads i with
  | fetching key tags hit =>
      exact ⟨log, n, h.serve_fetch hanswer hpc hserve, le_rfl, fun _ _ => rfl⟩
  | storing key data triggers timeout =>
    unfold System.serve at hserve
    rw [hpc] at hserve
    obtain ⟨m, hm, hserve⟩ := Option.bind_eq_some_iff.1 hserve
    obtain ⟨⟨c', answer⟩, hask, rfl⟩ := Option.map_eq_some_iff.1 hserve
    obtain ⟨hop, hlen⟩ := length_of_send hm
    rw [ask_store hop] at hask
    have hn : n < 2 ^ 64 := h.stores.trans_lt hstores
    obtain ⟨log', n', l', hok, hle, hle', hlog⟩ : ∃ log' n' l', ServerOk log' n' c' l' ∧
      n ≤ n' ∧ n' ≤ n + 1 ∧
        ∀ g < n, log' g = log g := by
      obtain rfl | ⟨key', value, ts, hvalue, hts, hstore⟩ := serveStore_cases hask
      · exact ⟨log, n, l, hserver, le_rfl, Nat.le_succ n, fun _ _ => rfl⟩
      · exact hserver.store (hvalue.trans_lt hlen) hts hn hstore
    refine ⟨log', n', ?_, hle, hlog⟩
    have hsystem : SystemOk R Q log' n' { s with server := c', stores := s.stores + 1 } := by
      refine ⟨⟨l', hok⟩, fun j => ?_, fun j => (h.threads j).mono hle hlog, ?_⟩
      · obtain ⟨c, hc, hlocal⟩ := h.l1 j
        exact ⟨c, hc, hlocal.mono hle hlog⟩
      · exact hle'.trans (Nat.succ_le_succ h.stores)
    exact hsystem.goto trivial
  | raising trigger =>
    unfold System.serve at hserve
    rw [hpc] at hserve
    obtain ⟨m, hm, hserve⟩ := Option.bind_eq_some_iff.1 hserve
    obtain ⟨⟨c', answer⟩, hask, rfl⟩ := Option.map_eq_some_iff.1 hserve
    rw [ask_rise (length_of_send hm).1] at hask
    obtain ⟨c₁, hrise₁, hholds, hsame⟩ := hserver.holds.rise m.data
    obtain ⟨c₂, hrise, heq⟩ := Option.map_eq_some_iff.1 hask
    obtain ⟨rfl, -⟩ := Prod.mk.inj heq
    rw [hrise] at hrise₁
    obtain rfl := Option.some.inj hrise₁
    have hok := hserver.subset hholds hsame.generation fun x hx => (List.mem_filter.1 hx).1
    exact ⟨log, n, (h.update_server hok).goto trivial, le_rfl, fun _ _ => rfl⟩
  | clearing =>
    unfold System.serve at hserve
    rw [hpc] at hserve
    obtain ⟨m, hm, hserve⟩ := Option.bind_eq_some_iff.1 hserve
    obtain ⟨⟨c', answer⟩, hask, rfl⟩ := Option.map_eq_some_iff.1 hserve
    rw [ask_clear (length_of_send hm).1] at hask
    obtain ⟨rfl, -⟩ := Prod.mk.inj (Option.some.inj hask)
    have hok := hserver.subset (MemCache.holds_clear s.server) rfl fun x hx => by cases hx
    exact ⟨log, n, (h.update_server hok).goto trivial, le_rfl, fun _ _ => rfl⟩
  | idle =>
    unfold System.serve at hserve
    rw [hpc] at hserve
    cases hserve
  | fetched key hit answer served =>
    unfold System.serve at hserve
    rw [hpc] at hserve
    cases hserve

/-- A fetch ends. -/
lemma finish (hR : CopyRelation R) (h : SystemOk R Q log n s) {r : Fetched}
    (hfinish : s.finish cfg i now memory = some (s', r)) :
    SystemOk R Q log n s' ∧ (r.result = none ↔ r.served = none) ∧
      ∀ e, r.result = some e →
        ∃ e', r.served = some e' ∧ e'.generation < n ∧
        log e'.generation = (r.key, e') ∧ R e e' := by
  unfold System.finish at hfinish
  cases hpc : s.threads i with
  | fetched key hit answer served =>
    have hok : PcOk R Q log n (.fetched key hit answer served) := hpc ▸ h.threads i
    have hidle : SystemOk R Q log n (s.goto i .idle) := h.goto trivial
    rw [hpc] at hfinish
    dsimp only at hfinish
    cases answer with
    | upToDate =>
      obtain ⟨e, e', rfl, rfl, hlt, hlogged, hee⟩ := hok
      obtain ⟨rfl, rfl⟩ := Prod.mk.inj (Option.some.inj hfinish)
      refine ⟨hidle, by simp, ?_⟩
      rintro _ ⟨⟩
      exact ⟨e', rfl, hlt, hlogged, hee⟩
    | notFound =>
      obtain rfl : served = none := hok
      cases hit with
      | none =>
        obtain ⟨rfl, rfl⟩ := Prod.mk.inj (Option.some.inj hfinish)
        exact ⟨hidle, by simp, fun e he => by cases he⟩
      | some e₀ =>
        obtain ⟨s₁, hon, heq⟩ := Option.map_eq_some_iff.1 hfinish
        obtain ⟨rfl, rfl⟩ := Prod.mk.inj heq
        exact ⟨hidle.onL1 (fun c c' hc hremove => hc.remove hremove) hon, by simp,
          fun e he => by cases he⟩
    | found e =>
      obtain ⟨e', rfl, hlt, hlogged, hee, hkey⟩ := hok
      obtain ⟨s₁, hkeep, heq⟩ : ∃ s₁, (s.goto i .idle).keep cfg i now memory key e = some s₁ ∧
          (s₁, ⟨key, some e, some e'⟩) = (s', r) := by
        cases hit <;> exact Option.map_eq_some_iff.1 hfinish
      obtain ⟨rfl, rfl⟩ := Prod.mk.inj heq
      refine ⟨?_, by simp, ?_⟩
      · refine hidle.onL1 (fun c c' hc hstore => hc.store ?_ hstore) hkeep
        rw [← hR.generation e e' hee] at hlt hlogged
        refine ⟨hlt, ?_, ?_⟩
        · dsimp only
          rw [hlogged]
        · dsimp only
          rw [hlogged]
          exact hR.insert e e' key hee hkey
      · rintro _ ⟨⟩
        exact ⟨e', rfl, hlt, hlogged, hee⟩
  | idle => rw [hpc] at hfinish; cases hfinish
  | fetching _ _ _ => rw [hpc] at hfinish; cases hfinish
  | storing _ _ _ _ => rw [hpc] at hfinish; cases hfinish
  | raising _ => rw [hpc] at hfinish; cases hfinish
  | clearing => rw [hpc] at hfinish; cases hfinish

end SystemOk

end Tcp

end Cppcms
