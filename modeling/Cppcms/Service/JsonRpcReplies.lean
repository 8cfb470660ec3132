import Cppcms.Service.JsonRpc

/-!
# The replies to a call

A call with an id gets one well-formed reply at most, and a notification gets nothing, exactly when
the method neither replies to a notification nor throws behind its reply, and replies with a value
that has a JSON text (`Fits`).
-/

namespace Cppcms

namespace Rpc

open Json

variable {ν : Type} {scan : Bytes → Option (ν × ℕ)} {print : ν → Bytes} {legible : ν → Prop}
    {written : ν → ν}

/-! ## What is claimed -/

/-- The text of an object that carries an id. -/
def IsReply (scan : Bytes → Option (ν × ℕ)) (id : Value ν) (text : Bytes) : Prop :=
  ∃ o, IsText scan text (.object o) ∧ Value.member o (bytes "id") = some id

/-- What `main` has to do for a call. -/
def Answers (scan : Bytes → Option (ν × ℕ)) (call : Call ν) (r : Option (State × Option Thrown)) :
    Prop :=
  ∃ s x, r = some (s, x) ∧ (call.notification = true → s.texts.flatten = []) ∧
    (call.notification = false → s.texts.length ≤ 1 ∧ ∀ text ∈ s.texts, IsReply scan call.id text)

/-- For every call that the request makes. -/
def MainAnswers (scan : Bytes → Option (ν × ℕ)) (print : ν → Bytes) (server : Server ν)
    (r : Request) : Prop :=
  ∀ call, Call.make scan r = .ok call → Answers scan call (main print scan server r)

/-! ## The condition -/

/-- The value of a reply. -/
def Act.value : Act ν → Value ν
  | .returnResult v => v.1
  | .returnError v => v.1
  | _ => .undefined

/-- The reply of a method while it holds the call. -/
def replyOf : List (Act ν) → Option (Act ν)
  | [] => none
  | a :: _ => if a.isReply then some a else none

/-- The error that `main` replies with, when the method throws while it holds the call. -/
def reportOf (acts : List (Act ν)) : Option Bytes :=
  match (acts.dropWhile Act.isReply).head? with
  | some (.throws x) => x.report
  | _ => none

/-- The value has a JSON text. -/
def Sendable (legible : ν → Prop) (v : Value ν) : Prop := Proper legible v ∧ SmallArrays v

/-- The id has a text, from which it is read as it is. -/
def Kept (legible : ν → Prop) (written : ν → ν) (id : Value ν) : Prop :=
  id.map written = id ∧ Sendable legible id

/-- The condition on the acts of a method for a call with an id. -/
def ActsFit (legible : ν → Prop) (written : ν → ν) (id : Value ν) (acts : List (Act ν)) : Prop :=
  match replyOf acts, reportOf acts with
  | some a, report => Kept legible written id ∧ Sendable legible a.value ∧ report = none
  | none, some text => Kept legible written id ∧ Utf8.validate false text = true
  | none, none => True

/-- The condition on a call and on the method that is bound to its name. -/
def Fits (legible : ν → Prop) (written : ν → ν) (server : Server ν) (call : Call ν) : Prop :=
  match server.methods.find call.method with
  | none => call.notification = true ∨ Kept legible written call.id
  | some data =>
    if call.notification then data.role = .methodRole ∨
      replyOf (data.method.acts call.params) = none
    else if data.role = .notificationRole then Kept legible written call.id
    else ActsFit legible written call.id (data.method.acts call.params)

/-! ## The text of a reply -/

lemma andThen_assoc (x y z : Emitted) : (x.andThen y).andThen z = x.andThen (y.andThen z) := by
  cases x with
  | done t =>
    cases y with
    | done t' => cases z <;> simp [Emitted.andThen]
    | thrown t' => rfl
    | endless => rfl
  | thrown t => rfl
  | endless => rfl

/-- Two texts are written one after another. -/
lemma done_andThen_done (t t' : Bytes) (x : Emitted) :
    (Emitted.done t).andThen ((Emitted.done t').andThen x) =
      (Emitted.done (t ++ t')).andThen x := by
  rw [← andThen_assoc]
  rfl

/-- The members of a reply, in the order in which they are written. -/
def replyMembers (id error result : Value ν) : List (Bytes × Value ν) :=
  [(bytes "id", id), (bytes "error", error), (bytes "result", result)]

/-- What is written for an object with these members. -/
lemma emit_reply (id error result : Value ν) :
    emit print (.object (replyMembers id error result)) (-1) =
    (Emitted.done (openBrace :: bytes "\"id\":")).andThen ((insertValue print id).andThen
      ((Emitted.done (bytes ",\"error\":")).andThen ((insertValue print error).andThen
        ((Emitted.done (bytes ",\"result\":")).andThen
          ((insertValue print result).andThen (.done [closeBrace])))))) := by
  have hid : [openBrace] ++ (toJson (bytes "id") ++ [Ch.colon]) = openBrace :: bytes "\"id\":" := by
    decide
  have herror : [comma] ++ (toJson (bytes "error") ++ [Ch.colon]) = bytes ",\"error\":" := by decide
  have hresult : [comma] ++ (toJson (bytes "result") ++ [Ch.colon]) = bytes ",\"result\":" := by
    decide
  have hend : ∀ t : Bytes, (Emitted.done t).andThen (.done [closeBrace]) =
    .done (t ++ [closeBrace]) := fun t => rfl
  unfold insertValue replyMembers
  rw [emit]
  simp only [emitMembers, indent_compact, andThen_assoc, done_andThen_done,
    if_neg (List.cons_ne_nil _ _), if_pos, hid, herror, hresult, hend, List.nil_append]

lemma writeResult_eq (id result : Value ν) :
    writeResult print id result = emit print (.object (replyMembers id .null result)) (-1) := by
  have htext : bytes ",\"error\":" ++ (bytes "null" ++ bytes ",\"result\":") =
      bytes ",\"error\":null,\"result\":" := by
    decide
  have hnull : insertValue print (.null : Value ν) = .done (bytes "null") := by
    rw [insertValue, emit]
  rw [emit_reply, hnull, done_andThen_done, done_andThen_done, List.append_assoc, htext]
  rfl

lemma writeError_eq (id error : Value ν) :
    writeError print id error = emit print (.object (replyMembers id error .null)) (-1) := by
  have hnull : insertValue print (.null : Value ν) = .done (bytes "null") := by
    rw [insertValue, emit]
  have htext : (Emitted.done (bytes ",\"result\":")).andThen
    ((Emitted.done (bytes "null")).andThen (.done [closeBrace])) =
      .done (bytes ",\"result\":null" ++ [closeBrace]) := by decide
  rw [emit_reply, hnull, htext]
  rfl

/-! ## Replies that are well formed -/

lemma sendable_null : Sendable legible (.null : Value ν) := ⟨.null, .null⟩

lemma sendable_str {text : Bytes} :
    Sendable legible (.str text : Value ν) ↔ Utf8.validate false text = true := by
  constructor
  · rintro ⟨hproper, -⟩
    cases hproper with
    | str htext => exact htext
  · exact fun htext => ⟨.str htext, .str⟩

section Text

variable (hformat : DoubleFormat scan print legible written) {id : Value ν} (hmaps : Ordered id)
include hformat hmaps

/-- When the text of a reply is an object that carries the id. -/
lemma exists_isReply_iff {error result : Value ν} (herror : Ordered error)
    (hresult : Ordered result) :
    (∃ text, emit print (.object (replyMembers id error result)) (-1) = .done text ∧
      IsReply scan id text) ↔
      Kept legible written id ∧ Sendable legible error ∧ Sendable legible result := by
  have hnodup : ((replyMembers id error result).map Prod.fst).Nodup := by
    show [bytes "id", bytes "error", bytes "result"].Nodup
    decide
  have hordered : ∀ m ∈ replyMembers id error result, Ordered m.2 := by
    simp only [replyMembers, List.forall_mem_cons]
    exact ⟨hmaps, herror, hresult, fun m hm => absurd hm List.not_mem_nil⟩
  have hkeys :
    (∀ m ∈ replyMembers id error result, Utf8.validate false m.1 = true ∧ Proper legible m.2 ∧
      SmallArrays m.2) ↔ Sendable legible id ∧ Sendable legible error ∧
      Sendable legible result := by
    have h₁ : Utf8.validate false (bytes "id") = true := by decide
    have h₂ : Utf8.validate false (bytes "error") = true := by decide
    have h₃ : Utf8.validate false (bytes "result") = true := by decide
    simp only [replyMembers, List.forall_mem_cons]
    constructor
    · rintro ⟨hi, he, hr, -⟩
      exact ⟨hi.2, he.2, hr.2⟩
    · rintro ⟨hi, he, hr⟩
      exact ⟨⟨h₁, hi⟩, ⟨h₂, he⟩, ⟨h₃, hr⟩, fun m hm => absurd hm List.not_mem_nil⟩
  have hmember : Value.member
    (addMembers [] ((replyMembers id error result).map fun m => (m.1, Value.map written m.2)))
      (bytes "id") = some (id.map written) := by
    simp only [replyMembers, List.map_cons, List.map_nil, addMembers,
      List.foldl_cons, List.foldl_nil, Value.member_insertList]
    rw [if_neg (by decide), if_neg (by decide), if_pos trivial]
  have htext : ∀ text, emit print (.object (replyMembers id error result)) (-1) = .done text ↔
      ∃ out, writeMembers print (replyMembers id error result) (-1) = some out ∧
        text = openBrace :: (out ++ [closeBrace]) := by
    intro text
    rw [← Emitted.text_eq_some, text_emit, writeValue]
    simp only [indent_compact, Option.map_eq_some_iff]
    constructor
    · rintro ⟨out, hout, rfl⟩
      exact ⟨out, hout, rfl⟩
    · rintro ⟨out, hout, rfl⟩
      exact ⟨out, hout, rfl⟩
  constructor
  · rintro ⟨text, hdone, o, hobject, ho⟩
    obtain ⟨out, hout, rfl⟩ := (htext text).1 hdone
    have hall := proper_of_members hformat hout hobject
    rcases exists_isText_members hformat hnodup hordered hall with ⟨out', hout', hread⟩
    rw [hout] at hout'
    cases hout'
    cases hobject.unique hread
    rw [hmember] at ho
    obtain ⟨hid, hsend⟩ := hkeys.1 hall
    exact ⟨⟨Option.some.inj ho, hid⟩, hsend⟩
  · rintro ⟨⟨hsame, hid⟩, hsend⟩
    rcases exists_isText_members hformat hnodup hordered (hkeys.2 ⟨hid, hsend⟩) with
      ⟨out, hout, hread⟩
    refine ⟨_, (htext _).2 ⟨out, hout, rfl⟩, _, hread, ?_⟩
    rw [hmember, hsame]

/-- The same for a reply of a method. -/
lemma exists_emitted_iff {a : Act ν} (ha : a.isReply = true) :
    (∃ text, a.emitted print id = .done text ∧ IsReply scan id text) ↔
    Kept legible written id ∧ Sendable legible a.value := by
  cases a with
  | returnResult v =>
    rw [Act.emitted, writeResult_eq, exists_isReply_iff hformat hmaps .null v.2]
    exact and_congr_right fun _ => and_iff_right sendable_null
  | returnError v =>
    rw [Act.emitted, writeError_eq, exists_isReply_iff hformat hmaps v.2 .null]
    exact and_congr_right fun _ => and_iff_left sendable_null
  | _ => cases ha

/-- The same for a reply of `main`. -/
lemma exists_writeError_iff (text : Bytes) :
    (∃ t, writeError print id (.str text) = .done t ∧ IsReply scan id t) ↔
      Kept legible written id ∧ Utf8.validate false text = true := by
  rw [writeError_eq, exists_isReply_iff hformat hmaps .str .null, sendable_str]
  exact and_congr_right fun _ => and_iff_left sendable_null

omit hformat hmaps in
/-- An error of `main` is written without an exception. -/
lemma quiet_writeError (hid : Proper legible id) (text : Bytes) :
    (writeError print id (.str text)).Quiet := by
  have hstr : insertValue print (.str text : Value ν) = .done (toJson text) := by
    rw [insertValue, emit]
  rw [writeError, hstr]
  exact (Emitted.quiet_done _).andThen
    ((hid.quiet_emit (-1)).andThen ((Emitted.quiet_done _).andThen
    ((Emitted.quiet_done _).andThen (Emitted.quiet_done _))))

end Text

/-! ## What a method does -/

/-- The error that `main` replies with after a method. -/
def State.reported (s : State) (x : Option Thrown) : Option Bytes :=
  if s.held then x.bind Thrown.report else none

/-- Nothing more is written for a call that was released. -/
lemma run_released (id : Value ν) (acts : List (Act ν)) {s : State} (hs : s.held = false) :
    ∃ x, s.run print id acts = some (s, x) := by
  have hreply : ∀ e, s.reply e = some (s, some .stdException) := by
    intro e
    unfold State.reply
    rw [hs, if_neg Bool.false_ne_true]
  cases acts with
  | nil => exact ⟨none, rfl⟩
  | cons a acts =>
    rw [State.run]
    cases a with
    | releaseCall =>
      rw [State.act, hs, if_neg Bool.false_ne_true]
      exact ⟨_, rfl⟩
    | throws x => exact ⟨some x, rfl⟩
    | returnResult v =>
      rw [State.act, hreply]
      · exact ⟨_, rfl⟩
      · exact fun h => by cases h
      · exact fun x h => by cases h
    | returnError v =>
      rw [State.act, hreply]
      · exact ⟨_, rfl⟩
      · exact fun h => by cases h
      · exact fun x h => by cases h

/-- The acts of a method that does not reply while it holds the call. -/
lemma run_of_replyOf_none (id : Value ν) {acts : List (Act ν)} (hacts : replyOf acts = none)
    {s : State} (hs : s.held = true) :
    ∃ s' x, s.run print id acts = some (s', x) ∧ s'.texts = s.texts ∧
      s'.reported x = reportOf acts := by
  cases acts with
  | nil => exact ⟨s, none, rfl, rfl, by simp [State.reported, reportOf]⟩
  | cons a acts =>
    rw [State.run]
    cases a with
    | releaseCall =>
      rcases @run_released _ print id acts { s with held := false } rfl with ⟨x, hrun⟩
      rw [State.act, if_pos hs]
      exact ⟨_, x, hrun, rfl, rfl⟩
    | throws x =>
      refine ⟨s, some x, rfl, rfl, ?_⟩
      rw [State.reported, if_pos hs]
      rfl
    | returnResult v => cases hacts
    | returnError v => cases hacts

/-- A method replies once, so that it does nothing more than release the call or throw behind its
reply. -/
lemma replyOf_tail {a : Act ν} {acts : List (Act ν)} (ha : a.isReply = true)
    (honce : (a :: acts).countP Act.isReply ≤ 1) :
    replyOf acts = none ∧ reportOf (a :: acts) = reportOf acts := by
  rw [List.countP_cons_of_pos ha] at honce
  constructor
  · cases acts with
    | nil => rfl
    | cons b acts =>
      have hzero : (b :: acts).countP Act.isReply = 0 := by omega
      have hb : b.isReply ≠ true := List.countP_eq_zero.1 hzero b List.mem_cons_self
      rw [replyOf, if_neg hb]
  · rw [reportOf, reportOf, List.dropWhile_cons_of_pos ha]

/-- What is done behind `act` for a reply. -/
lemma run_reply (id : Value ν) {a : Act ν} (ha : a.isReply = true) (acts : List (Act ν))
    (s : State) :
    s.run print id (a :: acts) =
      match s.reply (a.emitted print id) with
      | none => none
      | some (s, some x) => some (s, some x)
      | some (s, none) => s.run print id acts := by
  cases a with
  | returnResult v => rfl
  | returnError v => rfl
  | _ => cases ha

/-! ## Answers -/

section Id

variable (hformat : DoubleFormat scan print legible written) {call : Call ν}
    (hcall : call.notification = false)
  (hloaded : Loaded call.id)

include hcall

variable {s : State} {x : Option Thrown}

/-- The claim for a call with an id. -/
lemma answers_some : Answers scan call (some (s, x)) ↔
    s.texts.length ≤ 1 ∧ ∀ text ∈ s.texts, IsReply scan call.id text := by
  constructor
  · rintro ⟨s', x', heq, -, hreplies⟩
    cases heq
    exact hreplies hcall
  · intro hreplies
    refine ⟨s, x, rfl, fun h => ?_, fun _ => hreplies⟩
    rw [hcall] at h
    cases h

omit hcall in
lemma not_answers_none : ¬Answers scan call none := by
  rintro ⟨s, x, h, -⟩
  cases h

/-- A second reply is one too many. -/
lemma not_answers_second (hs : s.held = true) (htexts : s.texts ≠ []) (e : Emitted) :
    ¬Answers scan call (s.reply e) := by
  have hlong : ∀ t : Bytes, ¬(s.texts ++ [t]).length ≤ 1 := by
    intro t
    have hpos := List.length_pos_iff.2 htexts
    rw [List.length_append, List.length_singleton]
    omega
  intro h
  unfold State.reply at h
  rw [if_pos hs] at h
  cases e with
  | done t => exact hlong t ((answers_some hcall).1 h).1
  | thrown t => exact hlong t ((answers_some hcall).1 h).1
  | endless => exact not_answers_none h

/-- The only reply. -/
lemma answers_reply_done (hs : s.held = true) (htexts : s.texts = []) {e : Emitted} (he : e.Quiet) :
    Answers scan call (s.reply e) ↔ ∃ text, e = .done text ∧ IsReply scan call.id text := by
  unfold State.reply
  rw [if_pos hs]
  cases e with
  | done t =>
    refine (answers_some hcall).trans ?_
    rw [htexts, List.nil_append, List.forall_mem_singleton]
    constructor
    · exact fun h => ⟨t, rfl, h.2⟩
    · rintro ⟨t', heq, h⟩
      cases heq
      exact ⟨le_rfl, h⟩
  | thrown t => exact absurd rfl (he t)
  | endless =>
    refine iff_of_false not_answers_none ?_
    rintro ⟨t, h, -⟩
    cases h

include hformat hloaded

/-- A reply of `main`, where nothing was written before. -/
lemma answers_replyError (hs : s.held = true) (htexts : s.texts = []) (text : Bytes) :
    Answers scan call (s.replyError print call text) ↔
    Kept legible written call.id ∧ Utf8.validate false text = true := by
  rw [State.replyError, answers_reply_done hcall hs htexts (quiet_writeError hloaded.1 text),
    exists_writeError_iff hformat hloaded.2]

omit hformat hloaded in
/-- The `catch` clauses behind a method. -/
lemma callMethod_cases {m : Method ν}
    (hrun : State.init.run print call.id (m.acts call.params) = some (s, x)) :
    (s.reported x = none ∧ ∃ x', callMethod print call m = some (s, x')) ∨
    ∃ text, s.held = true ∧ s.reported x = some text ∧
    callMethod print call m = s.replyError print call text := by
  unfold callMethod State.reported
  rw [hrun]
  rcases x with - | x
  · exact .inl ⟨by simp, none, rfl⟩
  · dsimp only
    rcases hreport : x.report with - | text
    · refine .inl ⟨?_, some x, rfl⟩
      rw [Option.bind_some, hreport]
      exact ite_self none
    · by_cases hs : s.held = true
      · refine .inr ⟨text, hs, ?_, ?_⟩
        · rw [if_pos hs, Option.bind_some, hreport]
        · exact if_pos ⟨hs, hcall⟩
      · refine .inl ⟨if_neg hs, none, ?_⟩
        exact if_neg fun h => hs h.1

/-- A method that is called for a call with an id. -/
lemma answers_callMethod_iff (m : Method ν) : Answers scan call (callMethod print call m) ↔
    ActsFit legible written call.id (m.acts call.params) := by
  have honce := m.once call.params
  unfold ActsFit
  rcases hacts : m.acts call.params with - | ⟨a, acts⟩
  · rcases callMethod_cases hcall (m := m) (s := State.init) (x := none) (by rw [hacts]; rfl) with
      ⟨-, x', hmethod⟩ | ⟨text, -, hreported, -⟩
    · rw [hmethod]
      exact iff_of_true
        ((answers_some hcall).2 ⟨Nat.zero_le 1, fun t ht => absurd ht List.not_mem_nil⟩) trivial
    · cases hreported
  · rw [hacts] at honce
    by_cases ha : a.isReply = true
    · have hreply : replyOf (a :: acts) = some a := if_pos ha
      have hemitted := exists_emitted_iff hformat hloaded.2 ha
      obtain ⟨hnone, hreport⟩ := replyOf_tail ha honce
      have hstep := @run_reply ν print call.id a ha acts State.init
      have hheld : State.init.held = true := rfl
      unfold State.reply at hstep
      rw [if_pos hheld] at hstep
      rw [hreply, hreport]
      dsimp only
      rw [← and_assoc, ← hemitted]
      rcases he : a.emitted print call.id with t | t | -
      · rw [he] at hstep
        rcases @run_of_replyOf_none ν print call.id acts hnone
          ⟨true, some (bytes "application/json"), [t]⟩ rfl with
          ⟨s', x, hrun, htexts, hreported⟩
        have hdone : (∃ text, Emitted.done t = .done text ∧ IsReply scan call.id text) ↔
            IsReply scan call.id t := by
          constructor
          · rintro ⟨t', heq, h⟩
            cases heq
            exact h
          · exact fun h => ⟨t, rfl, h⟩
        rw [hdone, ← hreported]
        rcases callMethod_cases hcall (m := m) (by rw [hacts]; exact hstep.trans hrun) with
          ⟨hquiet, x', hmethod⟩ | ⟨text, hheld, hreported', hmethod⟩
        · rw [hmethod, hquiet, answers_some hcall, htexts, List.forall_mem_singleton]
          exact ⟨fun h => ⟨h.2, rfl⟩, fun h => ⟨le_rfl, h.1⟩⟩
        · rw [hmethod, hreported']
          refine iff_of_false (not_answers_second hcall hheld ?_ _) fun h => by cases h.2
          rw [htexts]
          exact List.cons_ne_nil _ _
      · rw [he] at hstep
        refine iff_of_false ?_ ?_
        · rcases callMethod_cases hcall (m := m) (by rw [hacts]; exact hstep) with
            ⟨hquiet, -⟩ | ⟨text, hheld, -, hmethod⟩
          · cases hquiet
          · rw [hmethod]
            exact not_answers_second hcall hheld (List.cons_ne_nil _ _) _
        · rintro ⟨⟨t', heq, -⟩, -⟩
          cases heq
      · rw [he] at hstep
        have hmethod : callMethod print call m = none := by
          unfold callMethod
          rw [hacts, hstep]
        rw [hmethod]
        refine iff_of_false not_answers_none ?_
        rintro ⟨⟨t', heq, -⟩, -⟩
        cases heq
    · have hreply : replyOf (a :: acts) = none := if_neg ha
      rcases @run_of_replyOf_none ν print call.id (a :: acts) hreply State.init rfl with
        ⟨s', x, hrun, htexts, hreported⟩
      have htexts' : s'.texts = [] := htexts
      rw [hreply, ← hreported]
      rcases callMethod_cases hcall (m := m) (by rw [hacts]; exact hrun) with
        ⟨hquiet, x', hmethod⟩ | ⟨text, hheld, hreported', hmethod⟩
      · rw [hmethod, hquiet, answers_some hcall, htexts']
        exact iff_of_true ⟨Nat.zero_le 1, fun t ht => absurd ht List.not_mem_nil⟩ trivial
      · rw [hmethod, hreported']
        exact answers_replyError hformat hcall hloaded hheld htexts' text

end Id

/-! ## Notifications -/

section Notification

variable {call : Call ν} (hcall : call.notification = true) (hid : call.id = .undefined)

include hcall

variable {s : State} {x : Option Thrown}

lemma answers_notification :
    Answers scan call (some (s, x)) ↔ s.texts.flatten = [] := by
  constructor
  · rintro ⟨s', x', heq, hquiet, -⟩
    cases heq
    exact hquiet hcall
  · intro hquiet
    refine ⟨s, x, rfl, fun _ => hquiet, fun h => ?_⟩
    rw [hcall] at h
    cases h

/-- No `catch` clause replies. -/
lemma callMethod_notification {m : Method ν}
    (hrun : State.init.run print call.id (m.acts call.params) = some (s, x)) :
    ∃ x', callMethod print call m = some (s, x') := by
  unfold callMethod
  rw [hrun]
  rcases x with - | x
  · exact ⟨none, rfl⟩
  · dsimp only
    rcases x.report with - | text
    · exact ⟨some x, rfl⟩
    · refine ⟨none, if_neg ?_⟩
      rw [hcall]
      exact fun h => by cases h.2

include hid

/-- A method that is called for a notification.  The id that is missing throws, behind the text
before it. -/
lemma answers_callMethod_notification_iff (m : Method ν) :
    Answers scan call (callMethod print call m) ↔
    replyOf (m.acts call.params) = none := by
  rcases hreply : replyOf (m.acts call.params) with - | a
  · rcases @run_of_replyOf_none ν print call.id _ hreply State.init rfl with ⟨s, x, hrun, htexts, -⟩
    rcases callMethod_notification hcall hrun with ⟨x', hmethod⟩
    rw [hmethod, answers_notification hcall, htexts]
    exact iff_of_true rfl rfl
  · rcases hacts : m.acts call.params with - | ⟨b, acts⟩
    · rw [hacts] at hreply
      cases hreply
    · rw [hacts, replyOf] at hreply
      split_ifs at hreply with hb
      have hundefined : insertValue print (.undefined : Value ν) = .thrown [] := by
        rw [insertValue, emit]
      have hthrown : b.emitted print call.id = .thrown (openBrace :: bytes "\"id\":") := by
        rw [hid]
        cases b with
        | returnResult v => rw [Act.emitted, writeResult, hundefined]; rfl
        | returnError v => rw [Act.emitted, writeError, hundefined]; rfl
        | _ => cases hb
      have hstep := @run_reply ν print call.id b hb acts State.init
      have hheld : State.init.held = true := rfl
      unfold State.reply at hstep
      rw [if_pos hheld, hthrown] at hstep
      rcases callMethod_notification hcall (m := m) (by rw [hacts]; exact hstep) with ⟨x', hmethod⟩
      rw [hmethod, answers_notification hcall]
      refine iff_of_false ?_ ?_
      · exact List.cons_ne_nil _ _
      · rintro ⟨⟩

end Notification

/-! ## Requests -/

/-- What is known of the id of a call. -/
lemma id_of_make {r : Request} {call : Call ν} (h : Call.make scan r = .ok call) :
    r.requestMethod = bytes "POST" ∧ (call.notification = true → call.id = .undefined) ∧
      (call.notification = false → Loaded call.id) := by
  unfold Call.make at h
  split_ifs at h with htype hpost
  have hpost' : r.requestMethod = bytes "POST" := not_not.1 hpost
  have hload : load scan true r.body .undefined = _ :=
    parseStream_true (tokenize scan r.body) .undefined
  rw [hload] at h
  rcases hread : readAll maxDepth (tokenize scan r.body) with - | v
  · rw [hread] at h
    cases h
  · rw [hread] at h
    dsimp only at h
    obtain ⟨ts, hlexes, hparses⟩ := isJson_iff.2 hread
    obtain ⟨hproper, hordered⟩ := loaded_of_isText ⟨maxDepth, ts, hlexes, hparses⟩
    have hfind : ∀ id, v.find (bytes "id") = some id → id = .undefined ∨ Loaded id := by
      intro id hid
      have hcomponents : components (bytes "id") = [bytes "id"] := by decide
      rw [Value.find_eq, hcomponents, Value.lookup, if_neg (by decide)] at hid
      rcases hmember : Value.member v.members (bytes "id") with - | x
      · rw [hmember] at hid
        exact .inl (Option.some.inj hid).symm
      · rw [hmember] at hid
        obtain rfl : x = id := Option.some.inj hid
        unfold Value.member at hmember
        rcases Option.map_eq_some_iff.1 hmember with ⟨m, hm, rfl⟩
        have hmem := List.mem_of_find?_eq_some hm
        cases v with
        | object o =>
          cases hproper with
          | object _ ho =>
            cases hordered with
            | object _ ho' => exact .inr ⟨ho m hmem, ho' m hmem⟩
        | _ => cases hmem
    unfold Call.ofValue at h
    split at h
    · next method params id _ _ hid =>
      split at h
      · cases h
      · cases h
        exact ⟨hpost', fun _ => rfl, fun h => by cases h⟩
      · next hundefined _ =>
        cases h
        exact ⟨hpost', (fun h => by cases h), fun _ => (hfind id hid).resolve_left hundefined⟩
    · cases h

/-- A call is answered as it should be exactly when it and its method fit. -/
theorem mainAnswers_iff (hformat : DoubleFormat scan print legible written) (server : Server ν)
    (r : Request) :
    MainAnswers scan print server r ↔ ∀ call, Call.make scan r = .ok call →
    Fits legible written server call := by
  refine forall_congr' fun call => forall_congr' fun hmake => ?_
  obtain ⟨hpost, hundefined, hloaded⟩ := id_of_make hmake
  have hmain : main print scan server r = dispatch print server call := by
    unfold main
    rw [if_neg, hmake]
    rintro ⟨-, hget⟩
    rw [hpost] at hget
    exact absurd hget (by decide)
  have hvalid : ∀ text ∈ [bytes "Method not found", bytes "The request should be notification"],
      Utf8.validate false text = true := by decide
  rw [hmain]
  unfold dispatch Fits
  rcases hnotification : call.notification with - | -
  · have hid := hloaded hnotification
    rcases server.methods.find call.method with - | data
    · dsimp only
      rw [if_neg Bool.false_ne_true, answers_replyError hformat hnotification hid rfl rfl,
        and_iff_left (hvalid _ (by decide)), or_iff_right Bool.false_ne_true]
    · dsimp only
      rw [if_neg Bool.false_ne_true]
      by_cases hrole : data.role = .notificationRole
      · rw [if_pos ⟨hrole, rfl⟩, if_pos hrole, answers_replyError hformat hnotification hid rfl rfl,
          and_iff_left (hvalid _ (by decide))]
      · rw [if_neg fun h => hrole h.1, if_neg fun h => Bool.false_ne_true h.2, if_neg hrole]
        exact answers_callMethod_iff hformat hnotification hid data.method
  · rcases server.methods.find call.method with - | data
    · dsimp only
      rw [if_pos rfl]
      exact iff_of_true ((answers_notification hnotification).2 rfl) (.inl rfl)
    · dsimp only
      rw [if_neg fun h => Bool.false_ne_true h.2.symm, if_pos rfl]
      by_cases hrole : data.role = .methodRole
      · rw [if_pos ⟨hrole, rfl⟩]
        exact iff_of_true ((answers_notification hnotification).2 rfl) (.inl hrole)
      · rw [if_neg fun h => hrole h.1, or_iff_right hrole]
        exact answers_callMethod_notification_iff hnotification
          (hundefined hnotification) data.method

/-! ## A server with one method -/

/-- A server whose method `m` does what is given. -/
def oneMethod (acts : List (Act ℕ)) (honce : acts.countP Act.isReply ≤ 1) : Server ℕ where
  smd := []
  methods := (∅ : SortedMap Bytes (MethodData ℕ)).insert (bytes "m")
    ⟨⟨fun _ => acts, fun _ => honce⟩, .anyRole⟩

/-- A request that calls the method. -/
def callRequest : Request where
  requestMethod := bytes "POST"
  type := bytes "application"
  subtype := bytes "json"
  body := bytes "\x7b\"id\":1,\"method\":\"m\",\"params\":[]\x7d"

/-- A method that returns a result. -/
theorem mainAnswers_iff_result : DoubleFormat scanNat showNat (fun _ => True) id ∧
    MainAnswers scanNat showNat (oneMethod [.returnResult ⟨.null, .null⟩] (by decide))
      callRequest := by
  refine ⟨doubleFormat_nat, (mainAnswers_iff doubleFormat_nat _ _).2 fun call hmake => ?_⟩
  have hcall : Call.make scanNat callRequest = .ok ⟨.number 1, [], bytes "m", false⟩ := rfl
  rw [hcall] at hmake
  cases hmake
  exact ⟨⟨rfl, .number trivial, .number⟩, sendable_null, rfl⟩

/-- A method that throws behind its result gets two replies. -/
theorem not_mainAnswers_throws :
    ¬MainAnswers scanNat showNat
      (oneMethod [.returnResult ⟨.null, .null⟩, .throws .stdException] (by decide))
      callRequest := by
  intro h
  have hcall : Call.make scanNat callRequest = .ok ⟨.number 1, [], bytes "m", false⟩ := rfl
  obtain ⟨s, x, hmain, -, hreplies⟩ := h _ hcall
  have htwo : main showNat scanNat
    (oneMethod [.returnResult ⟨.null, .null⟩, .throws .stdException] (by decide))
      callRequest = some (⟨true, some (bytes "application/json"),
        [openBrace :: bytes "\"id\":1,\"error\":null,\"result\":null" ++ [closeBrace],
          openBrace :: bytes "\"id\":1,\"error\":\"Internal Service Error\",\"result\":null" ++
            [closeBrace]]⟩, none) := by
    unfold main
    rw [if_neg (by decide), hcall]
    rfl
  rw [htwo] at hmain
  cases hmain
  exact absurd (hreplies rfl).1 (by decide)

end Rpc

end Cppcms
