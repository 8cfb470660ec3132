import Cppcms.Base.Probing
import Cppcms.Fastcgi.Start

/-!
# The parameters of a request

Runs of `params_record_expected` over the records of the parameters, which arrive in any groups.  At
the end the body is given to `parse_pairs`, and what that returns is not looked at.
-/

namespace Cppcms

namespace Fastcgi

/-! ## Octets that are pairs -/

section Pairs

variable {σ : Type} (add : σ → Bytes × Bytes → σ)

/-- Pairs are read to their end, unless there are four gigabytes of them. -/
lemma parseLoop_of_encodes {body : Bytes} {pairs : List (Bytes × Bytes)} (h : Encodes body pairs)
    (hlt : body.length < 2 ^ 32) {n : ℕ} (hn : body.length ≤ n) (s : σ) :
    parseLoop add n body s = some (true, pairs.foldl add s) := by
  induction h generalizing n s with
  | nil =>
    rcases n with _ | n
    · rfl
    · rfl
  | @cons ln lv name value rest pairs hln hlv h ih =>
    have hpair := @parsePair_pair ln lv name value rest hln hlv
    have hpos := List.length_pos_iff.2 hln.ne_nil
    simp only [List.length_append] at hlt hn
    have hname : (name.length + (value.length + rest.length)) % 2 ^ 32 =
        name.length + (value.length + rest.length) :=
      Nat.mod_eq_of_lt (by omega)
    have hvalue : (value.length + rest.length) % 2 ^ 32 = value.length + rest.length :=
      Nat.mod_eq_of_lt (by omega)
    rw [hname, hvalue, if_pos ⟨Nat.le_add_right _ _, Nat.le_add_right _ _⟩] at hpair
    obtain ⟨m, rfl⟩ : ∃ m, n = m + 1 := ⟨n - 1, by omega⟩
    rw [parseLoop_of_pair add hln.append_ne_nil hpair]
    exact ih (by omega) (by omega) (add s (name, value))

end Pairs

/-! ## Strings without zeros -/

/-- A pair as the environment keeps it. -/
def cStrings (x : Bytes × Bytes) : Bytes × Bytes := (poolAdd x.1, poolAdd x.2)

/-- Neither the name nor the value has a zero. -/
def ZeroFree (x : Bytes × Bytes) : Prop := 0 ∉ x.1 ∧ 0 ∉ x.2

lemma poolAdd_eq_self {s : Bytes} (h : 0 ∉ s) : poolAdd s = s := by
  unfold poolAdd
  rw [List.takeWhile_eq_self_iff]
  intro c hc
  exact decide_eq_true fun hzero => h (hzero ▸ hc)

lemma zero_notMem_poolAdd (s : Bytes) : 0 ∉ poolAdd s := by
  intro hmem
  exact absurd (List.mem_takeWhile_imp hmem) (by decide)

/-- Pairs are the same as what is kept of them exactly if they have no zeros. -/
lemma perm_map_cStrings_iff (pairs : List (Bytes × Bytes)) :
    (pairs.map cStrings).Perm pairs ↔ ∀ x ∈ pairs, ZeroFree x := by
  constructor
  · intro hperm x hx
    obtain ⟨y, -, rfl⟩ := List.mem_map.mp (hperm.mem_iff.mpr hx)
    exact ⟨zero_notMem_poolAdd y.1, zero_notMem_poolAdd y.2⟩
  · intro hfree
    have hsame : pairs.map cStrings = pairs := by
      rw [List.map_congr_left (g := id), List.map_id]
      intro x hx
      exact Prod.ext (poolAdd_eq_self (hfree x hx).1) (poolAdd_eq_self (hfree x hx).2)
    rw [hsame]

/-! ## The environment -/

/-- The environment has these pairs and no others. -/
def HoldsExactly (env : StringMap) (pairs : List (Bytes × Bytes)) : Prop :=
  ∃ order, env.Holds order ∧ order.Perm pairs

/-- A map holds one sequence of pairs. -/
lemma holds_unique {m : StringMap} {order order' : List (Bytes × Bytes)} (h : m.Holds order)
    (h' : m.Holds order') :
    order = order' := by
  obtain ⟨cells, htable, hcells⟩ := h.table
  obtain ⟨cells', htable', hcells'⟩ := h'.table
  have hlen := StringMap.length_of_table hcells
  have hlen' := StringMap.length_of_table hcells'
  have htotal := h.total
  have htotal' := h'.total
  have hfuel : cells.length ≤ m.total := by omega
  have hfuel' : cells'.length ≤ m.total := by omega
  have hiterate := htable.linked.iterate hfuel
  have hiterate' := htable'.linked.iterate hfuel'
  rw [← hcells, ← hcells', Option.some.inj (hiterate.symm.trans hiterate')]

/-- All pairs of an empty environment are added. -/
lemma holdsExactly_addAll (pairs : List (Bytes × Bytes)) :
    ∃ env, pairs.foldlM (fun (m : StringMap) (x : Bytes × Bytes) => m.add x.1 x.2)
      .init = some env ∧
      HoldsExactly env pairs := by
  obtain ⟨env, hall, hholds⟩ := StringMap.holds_init.addAll pairs
  exact ⟨env, hall, _, hholds, StringMap.foldl_addOrder_perm [] pairs⟩

namespace Start

/-! ## Runs -/

/-- A record of the parameters of a request. -/
def IsParams (id : UInt16) (r : Header × Bytes) : Prop :=
  r.1.type = Kind.params ∧ r.1.requestId = id ∧ r.2.length = r.1.contentLength.toNat

/-- The octets of the parameters in records with contents, then a record without, in the groups in
which they arrive. -/
structure ParamsSplit (id : UInt16) (params : Bytes) where
  groups : List (List (Header × Bytes))
  records : List (Header × Bytes)
  last : Header × Bytes
  flatten_groups : groups.flatten = records ++ [last]
  nil_notMem_groups : [] ∉ groups
  isParams_records : ∀ r ∈ records, IsParams id r ∧ r.1.contentLength ≠ 0
  isParams_last : IsParams id last ∧ last.1.contentLength = 0
  flatMap_records : records.flatMap Prod.snd = params

variable {params : Bytes}

lemma ParamsSplit.snd_last {id : UInt16} (split : ParamsSplit id params) : split.last.2 = [] := by
  have hlength := split.isParams_last.1.2.2
  rw [split.isParams_last.2] at hlength
  exact List.length_eq_zero_iff.mp hlength

/-- Each group arrives, and the function is called for each of its records. -/
def eventsOf (groups : List (List (Header × Bytes))) : List Event :=
  groups.flatMap fun g => .received g :: List.replicate g.length .continues

/-- The request has been accepted and the first record of its parameters is read. -/
structure Awaiting (id : UInt16) (done : Bytes) (s : Start) : Prop where
  control : s.control = none
  reading : s.reading = [.paramsRecordExpected]
  cached : s.cached = []
  requestId : s.requestId = id
  body : s.body = done
  env : s.env = .init
  log : .invokes none ∉ s.log

/-- The function is going to look at a record. -/
structure Looking (id : UInt16) (done : Bytes) (r : Header × Bytes) (rest : List (Header × Bytes))
    (s : Start) :
    Prop where
  control : s.control = some .paramsRecordExpected
  reading : s.reading = []
  cached : s.cached = rest
  requestId : s.requestId = id
  header : s.header = r.1
  body : s.body = done ++ r.2
  env : s.env = .init
  log : .invokes none ∉ s.log

/-- The function has looked at a record, and goes on to the next one. -/
structure Clear (id : UInt16) (done : Bytes) (rest : List (Header × Bytes)) (s : Start) : Prop where
  control : s.control = none
  reading : s.reading = []
  cached : s.cached = rest
  requestId : s.requestId = id
  body : s.body = done
  env : s.env = .init
  log : .invokes none ∉ s.log

/-- The request has been given up. -/
structure Rejected (s : Start) : Prop where
  control : s.control = none
  reading : s.reading = []
  log : .invokes none ∉ s.log

/-- The parameters have been accepted: the handler is called with success, or the record after them
is read for that. -/
def Succeeds (s : Start) : Prop := .invokes none ∈ s.log ∨ .stdinEofExpected ∈ s.reading

/-- If the parameters have been accepted, they are pairs, and the environment has exactly these. -/
def AllOrNothing (params : Bytes) (s : Start) : Prop :=
  Succeeds s → ∃ pairs, Encodes params pairs ∧ HoldsExactly s.env pairs

/-! ### One record -/

section Records

variable {id : UInt16} {done : Bytes} {r : Header × Bytes}
    {rest : List (Header × Bytes)} {s : Start}

variable {k : Label} {events : List Event}

lemma readNext_of_nil (h : s.cached = []) : s.readNext k = s.asyncReadRecord k := by
  unfold readNext
  rw [h]

lemma readNext_of_cons (h : s.cached = r :: rest) : s.readNext k =
    { s with
      header := r.1, body := s.body ++ r.2, cached := rest, control := some k
      log := s.log ++ [.reads] } := by
  unfold readNext
  rw [h]

/-- A group arrives. -/
lemma Awaiting.received (h : Awaiting id done s) (hint : ℤ) (r : Header × Bytes)
    (rest : List (Header × Bytes)) :
    Looking id done r rest (s.step hint (.received (r :: rest))) := by
  have hstep : s.step hint (.received (r :: rest)) =
      { s with
        header := r.1, body := s.body ++ r.2, cached := rest, control := some .paramsRecordExpected,
               reading := [] } := by
    unfold Start.step
    rw [h.control, h.reading, h.cached]
    rfl
  rw [hstep]
  exact ⟨rfl, rfl, rfl, h.requestId, rfl, by rw [h.body], h.env, h.log⟩

lemma notMem_concat {log : List Action} (h : .invokes none ∉ log) {a : Action}
    (ha : a ≠ .invokes none) :
    .invokes none ∉ log ++ [a] := by
  intro hmem
  rcases List.mem_append.mp hmem with hold | hnew
  · exact h hold
  · exact ha (List.mem_singleton.mp hnew).symm

/-- What the function does with a record of the parameters. -/
lemma Looking.step (h : Looking id done r rest s) (hint : ℤ) (hr : IsParams id r) :
    s.step hint .continues =
      if r.1.contentLength ≠ 0 then
        if (done ++ r.2).length < 16384 then readNext .paramsRecordExpected
          { s with control := none }
        else invoke (some .protocolViolation) { s with control := none }
      else paramsComplete { s with control := none } := by
  have hexpected : ¬ (s.header.type ≠ Kind.params ∨ s.header.requestId ≠ s.requestId) := by
    rw [h.header, h.requestId, hr.1, hr.2.1]
    simp
  unfold Start.step
  rw [h.control]
  show paramsRecordExpected { s with control := none } = _
  unfold paramsRecordExpected
  show (if (if s.header.type ≠ Kind.params ∨ s.header.requestId ≠ s.requestId then _
    else _ : Start).header.contentLength
    ≠ 0 then _ else _ : Start) = _
  rw [if_neg hexpected]
  show (if s.header.contentLength ≠ 0 then (if s.body.length < 16384 then _ else _)
    else _ : Start) = _
  rw [h.header, h.body]

lemma Looking.clear (h : Looking id done r rest s) : Clear id (done ++ r.2) rest { s with control :=
  none } :=
  ⟨rfl, h.reading, h.cached, h.requestId, h.body, h.env, h.log⟩

/-- The next record is read if none is in the cache. -/
lemma Clear.readNext_nil (h : Clear id done [] s) :
    Awaiting id done (readNext .paramsRecordExpected s) := by
  rw [readNext_of_nil h.cached]
  refine ⟨h.control, ?_, h.cached, h.requestId, h.body, h.env, notMem_concat h.log (by simp)⟩
  show s.reading ++ [.paramsRecordExpected] = _
  rw [h.reading]
  rfl

lemma Looking.invoke (h : Looking id done r rest s) :
    Rejected (invoke (some .protocolViolation) { s with control := none }) :=
  ⟨rfl, h.reading, notMem_concat h.log (by simp)⟩

/-- Where nothing is read and nothing has control, records only go to the cache. -/
lemma run_of_idle (hcontrol : s.control = none) (hreading : s.reading = []) (hint : ℤ)
    (hevents : ∀ event ∈ events, event = .continues ∨ ∃ g, event = .received g) :
    ∃ cached, s.run hint events = { s with cached := cached } := by
  induction events generalizing s with
  | nil => exact ⟨s.cached, rfl⟩
  | cons event events ih =>
    obtain ⟨cached, hstep⟩ : ∃ cached, s.step hint event = { s with cached := cached } := by
      rcases hevents event List.mem_cons_self with rfl | ⟨g, rfl⟩
      · have hsame : s.step hint .continues = s := by
          unfold Start.step
          rw [hcontrol]
        exact ⟨s.cached, hsame⟩
      · refine ⟨s.cached ++ g, ?_⟩
        unfold Start.step
        rw [hcontrol, hreading]
    show ∃ cached, (s.step hint event).run hint events = _
    rw [hstep]
    exact ih hcontrol hreading fun e he => hevents e (List.mem_cons_of_mem _ he)

lemma Rejected.run (h : Rejected s) (hint : ℤ)
    (hevents : ∀ event ∈ events, event = .continues ∨ ∃ g, event = .received g) :
    Rejected (s.run hint events) := by
  obtain ⟨cached, hrun⟩ := run_of_idle h.control h.reading hint hevents
  rw [hrun]
  exact ⟨h.control, h.reading, h.log⟩

lemma mem_eventsOf {groups : List (List (Header × Bytes))} :
    ∀ event ∈ eventsOf groups, event = .continues ∨ ∃ g, event = .received g := by
  intro event hevent
  obtain ⟨g, -, hmem⟩ := List.mem_flatMap.mp hevent
  rcases List.mem_cons.mp hmem with rfl | hrep
  · exact .inr ⟨g, rfl⟩
  · exact .inl (List.eq_of_mem_replicate hrep)

lemma Rejected.not_succeeds (h : Rejected s) : ¬ Succeeds s := by
  rintro (hlog | hreading)
  · exact h.log hlog
  · rw [h.reading] at hreading
    exact absurd hreading List.not_mem_nil

end Records

/-! ### All records -/

section Runs

variable {id : UInt16} {done params : Bytes} {r last : Header × Bytes}
    {rest records after : List (Header × Bytes)}
  {s : Start} {groups : List (List (Header × Bytes))}

/-- The events that are left if some records are in the cache and others come in groups. -/
def eventsFrom (rest : List (Header × Bytes)) (groups : List (List (Header × Bytes))) :
    List Event :=
  List.replicate rest.length .continues ++ eventsOf groups

lemma mem_eventsFrom :
    ∀ event ∈ eventsFrom rest groups, event = .continues ∨ ∃ g, event = .received g := by
  intro event hevent
  rcases List.mem_append.mp hevent with hrep | hmem
  · exact .inl (List.eq_of_mem_replicate hrep)
  · exact mem_eventsOf event hmem

/-- The next record is looked at, whether it is in the cache or comes with another group. -/
lemma run_readNext (k : Label) (hint : ℤ) (hcontrol : s.control = none) (hreading : s.reading = [])
    (hcached : s.cached = rest) (hgroups : [] ∉ groups) (hne : rest ++ groups.flatten ≠ []) :
    ∃ r rest' groups', r :: rest' ++ groups'.flatten = rest ++ groups.flatten ∧ [] ∉ groups' ∧
      (s.readNext k).run hint (eventsFrom rest groups) =
        ({ s with header := r.1, body := s.body ++ r.2, cached := rest', control := some k,
                  log := s.log ++ [.reads] } : Start).run hint
                    (eventsFrom (r :: rest') groups') := by
  rcases rest with _ | ⟨r, rest⟩
  · rcases groups with _ | ⟨_ | ⟨r, rest⟩, groups⟩
    · exact absurd rfl hne
    · exact absurd List.mem_cons_self hgroups
    · refine ⟨r, rest, groups, rfl, fun hmem => hgroups (List.mem_cons_of_mem _ hmem), ?_⟩
      have hstep : (s.readNext k).step hint (.received (r :: rest)) =
          { s with header := r.1, body := s.body ++ r.2, cached := rest, control := some k, log :=
            s.log ++ [.reads] } := by
        rw [readNext_of_nil hcached]
        unfold Start.step asyncReadRecord
        dsimp only
        rw [hcontrol, hreading, hcached]
        rfl
      rw [← hstep]
      rfl
  · exact ⟨r, rest, groups, rfl, hgroups, by rw [readNext_of_cons hcached]⟩

lemma Clear.next (h : Clear id done rest s) (hint : ℤ) (hgroups : [] ∉ groups)
    (hne : rest ++ groups.flatten ≠ []) :
    ∃ r rest' groups' s', Looking id done r rest' s' ∧
    r :: rest' ++ groups'.flatten = rest ++ groups.flatten ∧
      [] ∉ groups' ∧ (readNext .paramsRecordExpected s).run hint (eventsFrom rest groups) =
        s'.run hint (eventsFrom (r :: rest') groups') := by
  obtain ⟨r, rest', groups', heq, hgroups', hrun⟩ :=
    run_readNext .paramsRecordExpected hint h.control h.reading h.cached hgroups hne
  refine ⟨r, rest', groups', _, ?_, heq, hgroups', hrun⟩
  exact ⟨rfl, h.reading, rfl, h.requestId, rfl, by rw [h.body], h.env,
    notMem_concat h.log (by simp)⟩

/-- How the run over the records ends: where the function has looked at the last one and the records
behind it are in the cache or on their way, or where there are too many octets. -/
def Ends (hint : ℤ) (id : UInt16) (params : Bytes) (last : Header × Bytes)
    (after : List (Header × Bytes)) (s : Start) : Prop :=
  (params.length < 16384 ∧ ∃ s₀ rest groups, Looking id params last rest s₀ ∧
    rest ++ groups.flatten = after ∧
      [] ∉ groups ∧ s = (paramsComplete { s₀ with control := none }).run hint
        (eventsFrom rest groups)) ∨
    (16384 ≤ params.length ∧ Rejected s)

/-- From a record on, over the rest of its group and all groups after it. -/
lemma Looking.run (hint : ℤ) (h : Looking id done r rest s)
    (hsplit : r :: rest ++ groups.flatten = records ++ last :: after) (hgroups : [] ∉ groups)
    (hrecords : ∀ x ∈ records, IsParams id x ∧ x.1.contentLength ≠ 0)
    (hlast : IsParams id last ∧ last.1.contentLength = 0) (hdone : done.length < 16384) :
    Ends hint id (done ++ records.flatMap Prod.snd) last after
      (s.run hint (eventsFrom (r :: rest) groups)) := by
  induction records generalizing done r rest s groups with
  | nil =>
    obtain ⟨rfl, hrest⟩ := List.cons.inj hsplit
    rw [List.flatMap_nil, List.append_nil]
    refine .inl ⟨hdone, s, rest, groups, h, hrest, hgroups, ?_⟩
    show (s.step hint .continues).run hint (eventsFrom rest groups) = _
    rw [h.step hint hlast.1, if_neg (not_not.mpr hlast.2)]
  | cons x records ih =>
    obtain ⟨rfl, hrest⟩ := List.cons.inj hsplit
    obtain ⟨hparams, hcontent⟩ := hrecords r List.mem_cons_self
    have hlater := fun y hy => hrecords y (List.mem_cons_of_mem r hy)
    have hbody : done ++ (r :: records).flatMap Prod.snd =
        (done ++ r.2) ++ records.flatMap Prod.snd := by
      rw [List.flatMap_cons, List.append_assoc]
    rw [hbody]
    show Ends hint id _ last after ((s.step hint .continues).run hint (eventsFrom rest groups))
    rw [h.step hint hparams, if_pos hcontent]
    by_cases hroom : (done ++ r.2).length < 16384
    · rw [if_pos hroom]
      obtain ⟨r', rest', groups', s', hlooking, heq, hgroups', hrun⟩ :=
        h.clear.next hint hgroups (fun hnil => absurd (hrest.symm.trans hnil) (by simp))
      rw [hrun]
      exact ih hlooking (heq.trans hrest) hgroups' hlater hroom
    · rw [if_neg hroom]
      refine .inr ⟨?_, h.invoke.run hint mem_eventsFrom⟩
      rw [List.length_append]
      omega

/-- The same where nothing comes behind the parameters. -/
lemma Awaiting.run (hint : ℤ) (h : Awaiting id [] s) (split : ParamsSplit id params) :
    (params.length < 16384 ∧ ∃ s₀, Looking id params split.last [] s₀ ∧
        s.run hint (eventsOf split.groups) = paramsComplete { s₀ with control := none }) ∨
      (16384 ≤ params.length ∧ Rejected (s.run hint (eventsOf split.groups))) := by
  obtain ⟨groups, records, last, hflat, hnil, hrecords, hlast, hparams⟩ := split
  rcases groups with _ | ⟨_ | ⟨r, rest⟩, groups⟩
  · exact absurd (congrArg List.length hflat) (by simp)
  · exact absurd List.mem_cons_self hnil
  · have hlater : [] ∉ groups := fun hmem => hnil (List.mem_cons_of_mem _ hmem)
    have hends := (h.received hint r rest).run hint hflat hlater hrecords hlast (by simp)
    rw [List.nil_append, hparams] at hends
    rcases hends with ⟨hlt, s₀, rest', groups', hlooking, hnone, hgroups', heq⟩ | hrejected
    · obtain ⟨rfl, hflat'⟩ := List.append_eq_nil_iff.mp hnone
      rcases groups' with _ | ⟨_ | ⟨x, xs⟩, gs⟩
      · exact .inl ⟨hlt, s₀, hlooking, heq⟩
      · exact absurd List.mem_cons_self hgroups'
      · exact absurd hflat' (by simp)
    · exact .inr hrejected

/-! ### The end of the parameters -/

/-- The environment that is made of the body. -/
def envOf (s : Start) : StringMap :=
  (match parsePairs s.body [] with
    | some (_, calls) =>
        calls.foldlM (fun (m : StringMap) (x : Bytes × Bytes) => m.add x.1 x.2) s.env
    | none => none).getD s.env

/-- Whatever the parameters are, the handler is called with success or the next record is read. -/
lemma paramsComplete_eq (s : Start) : ∃ contentLength, s.paramsComplete =
    if contentLength = 0 then
      readNext .stdinEofExpected
        { s with env := s.envOf, body := [], contentLength := contentLength }
    else invoke none { s with env := s.envOf, body := [], contentLength := contentLength } :=
  ⟨_, rfl⟩

lemma succeeds_paramsComplete (hcached : s.cached = []) :
    s.paramsComplete.env = s.envOf ∧ Succeeds s.paramsComplete := by
  obtain ⟨contentLength, heq⟩ := s.paramsComplete_eq
  rw [heq]
  split_ifs
  · have hnext : readNext .stdinEofExpected { s with env := s.envOf, body := [], contentLength :=
      contentLength } =
        asyncReadRecord .stdinEofExpected { s with env := s.envOf, body := [], contentLength :=
          contentLength } := by
      exact readNext_of_nil hcached
    rw [hnext]
    exact ⟨rfl, .inr (List.mem_append_right _ List.mem_cons_self)⟩
  · exact ⟨rfl, .inl (List.mem_append_right _ List.mem_cons_self)⟩

/-- The calls of `env_.add` make an environment. -/
lemma holdsExactly_envOf {ok : Bool} {calls : List (Bytes × Bytes)} (henv : s.env = .init)
    (hparse : parsePairs s.body [] = some (ok, calls)) : HoldsExactly s.envOf calls := by
  obtain ⟨env, hfold, hholds⟩ := holdsExactly_addAll calls
  have heq : s.envOf = env := by
    unfold envOf
    rw [hparse, henv]
    simp only [hfold]
    rfl
  rw [heq]
  exact hholds

variable {pairs : List (Bytes × Bytes)} {r : Header × Bytes} {eof : Header × Bytes}

/-- The environment of octets that are pairs, and not too many. -/
lemma holdsExactly_envOf_params (h : Looking id params last rest s) (hlast : last.2 = [])
    (hpairs : Encodes params pairs) (hlt : params.length < 16384) :
    HoldsExactly (envOf { s with control := none }) (pairs.map cStrings) := by
  have hbody : ({ s with control := none } : Start).body = params := by
    rw [← List.append_nil params, ← hlast]
    exact h.body
  have hparse : parsePairs ({ s with control := none } : Start).body [] =
      some (true, pairs.map cStrings) := by
    rw [hbody]
    unfold parsePairs
    rw [parseLoop_of_encodes _ hpairs (by omega) le_rfl, foldl_concat]
    rfl
  exact holdsExactly_envOf h.env hparse

lemma holdsExactly_paramsComplete (h : Looking id params last [] s) (hlast : last.2 = [])
    (hpairs : Encodes params pairs) (hlt : params.length < 16384) :
    HoldsExactly (Start.paramsComplete { s with control := none }).env (pairs.map cStrings) := by
  have hcached : ({ s with control := none } : Start).cached = [] := h.cached
  rw [(succeeds_paramsComplete hcached).1]
  exact holdsExactly_envOf_params h hlast hpairs hlt

/-- The handler gets success only for octets that are too many or pairs. -/
lemma encodes_of_allOrNothing (hint : ℤ) (h : Awaiting id [] s) (split : ParamsSplit id params)
    (hall : AllOrNothing params (s.run hint (eventsOf split.groups))) :
    16384 ≤ params.length ∨ ∃ pairs, Encodes params pairs ∧ ∀ x ∈ pairs, ZeroFree x := by
  rcases h.run hint split with ⟨hlt, s₀, hlooking, heq⟩ | ⟨hle, -⟩
  · have hcached : ({ s₀ with control := none } : Start).cached = [] := hlooking.cached
    rw [heq] at hall
    obtain ⟨pairs, hpairs, order, hholds, hperm⟩ := hall (succeeds_paramsComplete hcached).2
    obtain ⟨order', hholds', hperm'⟩ :=
      holdsExactly_paramsComplete hlooking split.snd_last hpairs hlt
    obtain rfl := holds_unique hholds hholds'
    exact .inr ⟨pairs, hpairs, (perm_map_cStrings_iff pairs).mp (hperm'.symm.trans hperm)⟩
  · exact .inl hle

/-- The run ends with an environment of all pairs and with success, or without success, exactly if
there are too many octets or the octets are pairs that the environment can keep. -/
theorem allOrNothing_iff (hint : ℤ) {params : Bytes} (h : Awaiting id [] s)
    (split : ParamsSplit id params) :
    AllOrNothing params (s.run hint (eventsOf split.groups)) ↔
      16384 ≤ params.length ∨ ∃ pairs, Encodes params pairs ∧ ∀ x ∈ pairs, ZeroFree x := by
  refine ⟨encodes_of_allOrNothing hint h split, fun hfine hsucceeds => ?_⟩
  rcases h.run hint split with ⟨hlt, s₀, hlooking, heq⟩ | ⟨-, hrejected⟩
  · rcases hfine with hle | ⟨pairs, hpairs, hfree⟩
    · omega
    · obtain ⟨order, hholds, hperm⟩ :=
        holdsExactly_paramsComplete hlooking split.snd_last hpairs hlt
      rw [heq]
      exact ⟨pairs, hpairs, order, hholds, hperm.trans ((perm_map_cStrings_iff pairs).mpr hfree)⟩
  · exact absurd hsucceeds hrejected.not_succeeds

/-- A record that begins a request of a responder is accepted, and the records of its parameters are
next. -/
lemma clear_of_begin (hint : ℤ) (hversion : r.1.version = version1)
    (htype : r.1.type = Kind.beginRequest) (hlength : r.2.length = 8)
    (hrole : fromBigEndian (r.2.take 2) = 1) (rest : List (Header × Bytes)) :
    ∃ s, Clear r.1.requestId [] rest s ∧
      (init []).run hint [.received (r :: rest), .continues] =
        readNext .paramsRecordExpected s := by
  have hnot : ¬ r.1.version ≠ version1 := not_not.mpr hversion
  have hvalues : ¬ r.1.type = Kind.getValues := by
    rw [htype]
    decide
  have hbegin : ¬ r.1.type ≠ Kind.beginRequest := not_not.mpr htype
  have hsize : ¬ ([] ++ r.2).length ≠ 8 := not_not.mpr hlength
  have hresponder : ¬ fromBigEndian (([] ++ r.2).take 2) ≠ 1 := not_not.mpr hrole
  obtain ⟨s, hs⟩ : ∃ s : Start,
      s = { init [] with header := r.1, body := [] ++ r.2, cached := rest, reading := [] } :=
    ⟨_, rfl⟩
  have hstart : s.onStartRequest hint = readNext .paramsRecordExpected
      { s with keepAlive := s.body.getD 2 0 &&& 1 ≠ 0, requestId :=
        s.header.requestId, body := [] } := by
    subst hs
    unfold onStartRequest
    dsimp only
    rw [if_neg hnot, if_neg hvalues, if_neg hbegin]
    unfold beginRequest
    dsimp only
    rw [if_neg hsize, if_neg hresponder]
  have hrun : (init []).run hint [.received (r :: rest), .continues] = s.onStartRequest hint := by
    subst hs
    rfl
  rw [hrun, hstart, hs]
  refine ⟨_, ⟨rfl, rfl, rfl, rfl, rfl, rfl, ?_⟩, rfl⟩
  simp [init, asyncReadHeaders, asyncReadRecord, resetAll]

lemma awaiting_of_begin (hint : ℤ) (hversion : r.1.version = version1)
    (htype : r.1.type = Kind.beginRequest) (hlength : r.2.length = 8)
    (hrole : fromBigEndian (r.2.take 2) = 1) :
    Awaiting r.1.requestId [] ((init []).run hint [.received [r], .continues]) := by
  obtain ⟨s, hclear, hrun⟩ := clear_of_begin hint hversion htype hlength hrole []
  rw [hrun]
  exact hclear.readNext_nil

/-! ### The record behind the parameters -/

/-- The handler is called with success for the empty record of the standard input. -/
lemma step_of_eof (htype : eof.1.type = Kind.stdin) (hempty : eof.1.contentLength = 0) (hint : ℤ)
    (hcontrol : s.control = some .stdinEofExpected) (hheader : s.header = eof.1) :
    .invokes none ∈ (s.run hint [.continues]).log ∧ (s.run hint [.continues]).env = s.env := by
  have hstep : s.run hint [.continues] = invoke none { s with control := none } := by
    show s.step hint .continues = _
    unfold Start.step
    rw [hcontrol]
    show stdinEofExpected { s with control := none } = _
    unfold stdinEofExpected
    rw [if_neg]
    show ¬ (s.header.type ≠ Kind.stdin ∨ s.header.contentLength ≠ 0)
    rw [hheader, htype, hempty]
    simp
  rw [hstep]
  exact ⟨List.mem_append_right _ List.mem_cons_self, rfl⟩

/-- Behind the parameters the handler is called with success, at once or when that record is there.
-/
lemma Looking.succeeds (htype : eof.1.type = Kind.stdin) (hempty : eof.1.contentLength = 0)
    (hint : ℤ) (h : Looking id params last rest s) (heof : rest ++ groups.flatten = [eof])
    (hgroups : [] ∉ groups) :
    .invokes none ∈
      ((paramsComplete { s with control := none }).run hint (eventsFrom rest groups)).log ∧
      ((paramsComplete { s with control := none }).run hint (eventsFrom rest groups)).env =
        envOf { s with control := none } := by
  obtain ⟨contentLength, heq⟩ := paramsComplete_eq { s with control := none }
  rw [heq]
  split_ifs
  · obtain ⟨r, rest', groups', hrecords, hgroups', hrun⟩ := run_readNext (s := { s with
      control := none, env := envOf { s with control := none }, body := [], contentLength :=
        contentLength })
      .stdinEofExpected hint rfl h.reading h.cached hgroups (by rw [heof]; simp)
    obtain ⟨rfl, hnone⟩ := List.cons.inj (hrecords.trans heof)
    obtain ⟨rfl, hflat⟩ := List.append_eq_nil_iff.mp hnone
    rcases groups' with _ | ⟨_ | ⟨x, xs⟩, gs⟩
    · rw [hrun]
      show .invokes none ∈ (Start.run hint _ [.continues]).log ∧
        (Start.run hint _ [.continues]).env = _
      exact step_of_eof htype hempty hint rfl rfl
    · exact absurd List.mem_cons_self hgroups'
    · exact absurd hflat (by simp)
  · obtain ⟨cached, hrun⟩ := run_of_idle (s := Start.invoke none { s with
      control := none, env := envOf { s with control := none }, body := [], contentLength :=
        contentLength }) rfl
      h.reading hint mem_eventsFrom
    rw [hrun]
    exact ⟨List.mem_append_right _ List.mem_cons_self, rfl⟩

end Runs

/-- A record that begins a request. -/
def beginRecord : Header × Bytes := (⟨1, 1, 7, 8, 0, 0⟩, [0, 1, 0, 0, 0, 0, 0, 0])

/-- One record with some octets, and the one that ends the parameters. -/
def oneRecord (params : Bytes) (h : params.length = params.length.toUInt16.toNat)
    (hne : params.length.toUInt16 ≠ 0) :
    ParamsSplit 7 params where
  groups := [[(⟨1, 4, 7, params.length.toUInt16, 0, 0⟩, params)], [(⟨1, 4, 7, 0, 0, 0⟩, [])]]
  records := [(⟨1, 4, 7, params.length.toUInt16, 0, 0⟩, params)]
  last := (⟨1, 4, 7, 0, 0, 0⟩, [])
  flatten_groups := rfl
  nil_notMem_groups := by simp
  isParams_records := by
    intro r hr
    obtain rfl := List.mem_singleton.mp hr
    exact ⟨⟨rfl, rfl, h⟩, hne⟩
  isParams_last := ⟨⟨rfl, rfl, rfl⟩, rfl⟩
  flatMap_records := List.append_nil params

/-- One parameter. -/
theorem allOrNothing_onePair : AllOrNothing [1, 1, 65, 66]
    (((init []).run 1 [.received [beginRecord], .continues]).run 1
      (eventsOf (oneRecord [1, 1, 65, 66] rfl (by decide)).groups)) := by
  have hbegin : Awaiting 7 [] _ := awaiting_of_begin 1 (r := beginRecord) rfl rfl rfl rfl
  have hone : IsLength [1] 1 := .short (b := 1) (by decide)
  have hpairs : Encodes ([1] ++ ([1] ++ ([65] ++ ([66] ++ [])))) [([65], [66])] :=
    .cons hone hone .nil
  exact (allOrNothing_iff 1 hbegin (oneRecord [1, 1, 65, 66] rfl (by decide))).mpr
    (.inr ⟨_, hpairs, by simp [ZeroFree]⟩)

lemma encodes_addPairs {pairs : List (Bytes × Bytes)} (hpairs : ∀ x ∈ pairs, Short x) :
    Encodes (addPairs pairs) pairs := by
  induction pairs with
  | nil => exact .nil
  | cons x pairs ih =>
    obtain ⟨ln, lv, hln, hlv, heq⟩ := addPairs_cons hpairs
    rw [heq]
    exact .cons hln hlv (ih fun y hy => hpairs y (List.mem_cons_of_mem x hy))

/-- The environment of a web server arrives, and the record that ends the standard input.  Into
whatever records it is written and however all these come in, the handler is called with success,
and every variable that is given once is found under its name. -/
theorem started_environment (hint : ℤ) {r eof : Header × Bytes} (hversion : r.1.version = version1)
    (htype : r.1.type = Kind.beginRequest) (hlength : r.2.length = 8)
    (hrole : fromBigEndian (r.2.take 2) = 1)
    (heof : eof.1.type = Kind.stdin ∧ eof.1.contentLength = 0) {pairs : List (Bytes × Bytes)}
    (hpairs : ∀ x ∈ pairs, Short x ∧ ZeroFree x) (hlt : (addPairs pairs).length < 16384)
    (split : ParamsSplit r.1.requestId (addPairs pairs)) {groups : List (List (Header × Bytes))}
    (hgroups : [] ∉ groups) (hflatten : groups.flatten = r :: split.groups.flatten ++ [eof]) :
    .invokes none ∈ ((init []).run hint (eventsOf groups)).log ∧
      ∀ key value, (pairs.filter fun x => x.1 = key) = [(key, value)] →
        ((init []).run hint (eventsOf groups)).env.get key = some (some value) := by
  have hencodes := encodes_addPairs fun x hx => (hpairs x hx).1
  have hfree := (perm_map_cStrings_iff pairs).mpr fun x hx => (hpairs x hx).2
  rw [split.flatten_groups, List.cons_append, List.append_assoc] at hflatten
  rcases groups with _ | ⟨_ | ⟨b, rest⟩, groups⟩
  · exact absurd hflatten (by simp)
  · exact absurd List.mem_cons_self hgroups
  have hlater : [] ∉ groups := fun hmem => hgroups (List.mem_cons_of_mem _ hmem)
  obtain ⟨rfl, hrest⟩ := List.cons.inj hflatten
  -- the record that begins the request, then those of its parameters
  obtain ⟨s, hclear, hbegun⟩ := clear_of_begin hint hversion htype hlength hrole rest
  obtain ⟨r', rest', groups', s', hlooking, heq, hgroups', hnext⟩ :=
    hclear.next hint hlater (fun hnil => absurd (hrest.symm.trans hnil) (by simp))
  have hrun : (init []).run hint (eventsOf ((b :: rest) :: groups)) =
      s'.run hint (eventsFrom (r' :: rest') groups') := by
    rw [← hnext, ← hbegun]
    rfl
  have hends := hlooking.run hint (heq.trans hrest)
    hgroups' split.isParams_records split.isParams_last (by simp)
  rw [List.nil_append, split.flatMap_records, ← hrun] at hends
  rcases hends with ⟨-, s₀, after, left, hlast, hafter, hleft, hend⟩ | ⟨hle, -⟩
  · obtain ⟨hinvokes, henv⟩ := hlast.succeeds heof.1 heof.2 hint hafter hleft
    obtain ⟨order, hholds, hperm⟩ := holdsExactly_envOf_params hlast split.snd_last hencodes hlt
    rw [← hend] at hinvokes henv
    refine ⟨hinvokes, fun key value hfilter => ?_⟩
    rw [henv, hholds.get, StringMap.firstValue_of_filter (hperm.trans hfree) hfilter]
  · omega

/-- The record that begins the request comes together with the first of its parameters. -/
theorem started_environment_onePair :
    .invokes none ∈ ((init []).run 1 (eventsOf [[beginRecord, (⟨1, 4, 7, 4, 0, 0⟩, [1, 1, 65, 66])],
        [(⟨1, 4, 7, 0, 0, 0⟩, []), (⟨1, 5, 7, 0, 0, 0⟩, [])]])).log ∧
      ∀ key value, ([([65], [66])].filter fun x : Bytes × Bytes => x.1 = key) = [(key, value)] →
        ((init []).run 1 (eventsOf [[beginRecord, (⟨1, 4, 7, 4, 0, 0⟩, [1, 1, 65, 66])],
          [(⟨1, 4, 7, 0, 0, 0⟩, []), (⟨1, 5, 7, 0, 0, 0⟩, [])]])).env.get key = some (some value) :=
  @started_environment 1 beginRecord (⟨1, 5, 7, 0, 0, 0⟩, []) rfl rfl rfl rfl
    ⟨rfl, rfl⟩ [([65], [66])]
    (by simp [Short, ZeroFree]) (by decide)
      (oneRecord [1, 1, 65, 66] rfl (by decide)) _ (by simp) rfl

/-- A length and nothing behind it: the request starts without parameters. -/
theorem partial_params_accepted :
    ¬ ∀ (hint : ℤ) (params : Bytes) (s : Start) (split : ParamsSplit 7 params),
    Awaiting 7 [] s → AllOrNothing params (s.run hint (eventsOf split.groups)) := by
  intro h
  have hbegin : Awaiting 7 [] _ := awaiting_of_begin 1 (r := beginRecord) rfl rfl rfl rfl
  have hall := h 1 [5] _ (oneRecord [5] rfl (by decide)) hbegin
  rcases encodes_of_allOrNothing 1 hbegin (oneRecord [5] rfl (by decide)) hall with hle |
    ⟨pairs, hpairs, -⟩
  · exact absurd hle (by decide)
  · have hloop := parseLoop_of_encodes (fun c x => c ++ [x]) hpairs (by decide) le_rfl []
    have hfalse : parseLoop (fun c x => c ++ [x]) 1 [5] ([] : List (Bytes × Bytes)) =
      some (false, []) := by decide
    exact absurd (hloop.symm.trans hfalse) (by simp)

end Start

end Fastcgi

end Cppcms
