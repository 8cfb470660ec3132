import Cppcms.Base.Numbers
import Cppcms.Base.StringMap
import Cppcms.Fastcgi.Pairs
import Cppcms.Fastcgi.Record

/-!
# The start of a request

`async_read_headers` reads records until a request with its parameters is there, and then calls the
handler that it was given.  The functions that it calls run one after the other on the event loop:
each looks at the record that was read last and ends by starting to read or to write, or by calling
the handler.  A record that is complete in the cache is read without going back to the event loop,
which is a step of its own here.
-/

namespace Cppcms

namespace Fastcgi

/-- What the handler can be called with, besides success. -/
inductive StartError where
  | io
  | protocolViolation
  deriving DecidableEq, Repr

/-- What is done on behalf of a call of `async_read_headers`. -/
inductive Action where
  | reads
  | answers (header : Header) (body : Bytes)
  | invokes (e : Option StartError)
  deriving DecidableEq, Repr

/-- The functions that look at a record. -/
inductive Label where
  | onStartRequest
  | paramsRecordExpected
  | stdinEofExpected
  deriving DecidableEq, Repr

/-- The object.  `cached` are the records that are complete in the cache, `control` is the function
that is going to look at the last record, and `reading` and `writing` are the operations that have
been started. -/
structure Start where
  header : Header
  body : Bytes
  requestId : UInt16
  contentLength : ℤ
  keepAlive : Bool
  env : StringMap
  cached : List (Header × Bytes)
  control : Option Label
  reading : List Label
  writing : ℕ
  log : List Action

namespace Start

/-- The handler is called. -/
def invoke (e : Option StartError) (s : Start) : Start := { s with log := s.log ++ [.invokes e] }

/-- `async_read_record`. -/
def asyncReadRecord (k : Label) (s : Start) : Start :=
  { s with reading := s.reading ++ [k], log := s.log ++ [.reads] }

/-- `non_blocking_read_record`, and else `async_read_record`. -/
def readNext (k : Label) (s : Start) : Start :=
  match s.cached with
  | [] => s.asyncReadRecord k
  | r :: rest =>
    { s with header := r.1, body := s.body ++ r.2, cached := rest, control := some k, log :=
      s.log ++ [.reads] }

/-- `reset_all`, as far as it is about the start of a request. -/
def resetAll (s : Start) : Start :=
  { s with header := .zero, body := [], requestId := 0, contentLength := 0, keepAlive :=
    false, env := .init }

def asyncReadHeaders (s : Start) : Start := s.resetAll.asyncReadRecord .onStartRequest

/-- The octets of a number change places, as `to_net` does it with those in the header. -/
def swap (x : UInt16) : UInt16 := (x <<< 8) ||| (x >>> 8)

/-- `async_send_respnse`. -/
def asyncSendRespnse (s : Start) : Start :=
  let header := { s.header with contentLength := UInt16.ofNat s.body.length }
  let padding := 8 - s.body.length % 8
  let (header, body) :=
    if s.body.length % 8 ≠ 0 then
      ({ header with paddingLength := UInt8.ofNat padding }, s.body ++ List.replicate padding 0)
    else (header, s.body)
  { s with
    header :=
      { header with requestId := swap header.requestId, contentLength := swap header.contentLength }
    body := body
    writing := s.writing + 1
    log := s.log ++ [.answers header body] }

def onParamsResponseSent (e : Option StartError) (s : Start) : Start :=
  match e with
  | some e => s.invoke (some e)
  | none => s.asyncReadHeaders

/-- The answers to the questions of the server; `hint` is `cuncurrency_hint_`. -/
def answersTo (hint : ℤ) (pairs : List (Bytes × Bytes)) : Bytes :=
  pairs.foldl (fun body x =>
    if x.1 = bytes "FCGI_MAX_CONNS" ∨
      x.1 = bytes "FCGI_MAX_REQS" then addPair body x.1 (showInt hint)
    else if x.1 = bytes "FCGI_MPXS_CONNS" then addPair body x.1 (bytes "0")
    else body) []

/-- The second part of `on_start_request`, where the record is taken for a `begin_request`. -/
def beginRequest (s : Start) : Start :=
  if s.body.length ≠ 8 then s.invoke (some .protocolViolation)
  else
    let role := fromBigEndian (s.body.take 2)
    let s := { s with keepAlive := s.body.getD 2 0 &&& 1 ≠ 0 }
    if role ≠ 1 then
      -- the body is empty after `assign(0,8)`, and the status goes to the memory behind its end
      asyncSendRespnse { s with header := { s.header with type := Kind.endRequest }, body := [] }
    else readNext .paramsRecordExpected { s with requestId := s.header.requestId, body := [] }

def onStartRequest (hint : ℤ) (s : Start) : Start :=
  if s.header.version ≠ version1 then s.invoke (some .protocolViolation)
  else if s.header.type = Kind.getValues then
    let s := { s with header := { s.header with type := Kind.getValuesResult } }
    match parsePairsInto s.body [] with
    | some (true, pairs) =>
      -- there is no `return` after the answer
      (asyncSendRespnse { s with body := answersTo hint pairs }).beginRequest
    | _ => s.invoke (some .protocolViolation)
  else if s.header.type ≠ Kind.beginRequest then s.asyncReadHeaders
  else s.beginRequest

/-- The end of `params_record_expected`, after the last record of the parameters. -/
def paramsComplete (s : Start) : Start :=
  let env := (match parsePairs s.body [] with
    | some (_, calls) =>
        calls.foldlM (fun (m : StringMap) (x : Bytes × Bytes) => m.add x.1 x.2) s.env
    | none => none).getD s.env
  let contentLength :=
    match (env.get (bytes "CONTENT_LENGTH")).join with
    | none => 0
    | some text => if text = [] ∨ atoll text ≤ 0 then 0 else atoll text
  let s := { s with env, body := [], contentLength }
  if contentLength = 0 then s.readNext .stdinEofExpected else s.invoke none

/-- One round of the loop of `params_record_expected`. -/
def paramsRecordExpected (s : Start) : Start :=
  -- there is no `return` after the call of the handler
  let s := if s.header.type ≠ Kind.params ∨ s.header.requestId ≠ s.requestId then
    s.invoke (some .protocolViolation) else s
  if s.header.contentLength ≠ 0 then
    if s.body.length < 16384 then s.readNext .paramsRecordExpected
    else s.invoke (some .protocolViolation)
  else s.paramsComplete

def stdinEofExpected (s : Start) : Start :=
  if s.header.type ≠ Kind.stdin ∨ s.header.contentLength ≠ 0 then s.invoke (some .protocolViolation)
  else s.invoke none

/-! ## Runs -/

/-- What happens next: the function that has control goes on, records arrive, the reading fails, or
the answer has been sent or not. -/
inductive Event where
  | continues
  | received (records : List (Header × Bytes))
  | readFailed
  | written
  | writeFailed
  deriving DecidableEq

/-- The function with the given name looks at the record. -/
def look (hint : ℤ) : Label → Start → Start
  | .onStartRequest => onStartRequest hint
  | .paramsRecordExpected => paramsRecordExpected
  | .stdinEofExpected => stdinEofExpected

/-- The event loop is free only if no function has control. -/
def step (hint : ℤ) (s : Start) (event : Event) : Start :=
  match s.control with
  | some k =>
    match event with
    | .continues => look hint k { s with control := none }
    | _ => s
  | none =>
    match event with
    | .continues => s
    | .received records =>
      match s.reading, s.cached ++ records with
      | k :: ks, r :: rest =>
        { s with
          header := r.1, body := s.body ++ r.2, cached := rest, control := some k, reading := ks }
      | _, cached => { s with cached }
    | .readFailed =>
      match s.reading with
      | [] => s
      | _ :: ks => invoke (some .io) { s with reading := ks }
    | .written => if s.writing = 0 then s
      else onParamsResponseSent none { s with writing := s.writing - 1 }
    | .writeFailed =>
      if s.writing = 0 then s
      else onParamsResponseSent (some .io) { s with writing := s.writing - 1 }

def run (hint : ℤ) (s : Start) (events : List Event) : Start := events.foldl (step hint) s

/-- An object with some records in the cache, at the call of `async_read_headers`. -/
def init (cached : List (Header × Bytes)) : Start :=
  asyncReadHeaders ⟨.zero, [], 0, 0, false, .init, cached, none, [], 0, []⟩

/-- The call of the handler is the last that is done. -/
def Once (log : List Action) : Prop :=
  ∀ before e after, log = before ++ .invokes e :: after → after = []

/-- The record that a function looks at is not one of those that its code is wrong for: questions of
the server, where a request is awaited, and a record that does not belong to the parameters, where
these are awaited. -/
def Expected (s : Start) : Label → Prop
  | .onStartRequest => ¬ (s.header.version = version1 ∧ s.header.type = Kind.getValues ∧
      (parsePairsInto s.body []).any (·.1) = true)
  | .paramsRecordExpected => s.header.type = Kind.params ∧ s.header.requestId = s.requestId
  | .stdinEofExpected => True

instance (s : Start) : (k : Label) → Decidable (s.Expected k)
  | .onStartRequest => inferInstanceAs (Decidable (¬ (_ ∧ _ ∧ _)))
  | .paramsRecordExpected => inferInstanceAs (Decidable (_ ∧ _))
  | .stdinEofExpected => inferInstanceAs (Decidable True)

/-- If a function goes on, the record that it looks at is expected. -/
def StepExpected (s : Start) (event : Event) : Prop :=
  event = .continues → ∀ k ∈ s.control, s.Expected k

/-- All records that are looked at in a run are expected. -/
def RunExpected (hint : ℤ) (s : Start) : List Event → Prop
  | [] => True
  | event :: events => s.StepExpected event ∧ RunExpected hint (s.step hint event) events

instance (s : Start) (event : Event) : Decidable (s.StepExpected event) :=
  inferInstanceAs (Decidable (_ → ∀ k ∈ s.control, s.Expected k))

instance (hint : ℤ) : (events : List Event) → (s : Start) → Decidable (RunExpected hint s events)
  | [], _ => inferInstanceAs (Decidable True)
  | event :: events, s =>
    have := instDecidableRunExpected hint events (s.step hint event)
    inferInstanceAs (Decidable (s.StepExpected event ∧ RunExpected hint (s.step hint event) events))

/-! ## One activity at a time -/

/-- The handler has not been called. -/
def Quiet (log : List Action) : Prop := ∀ e, .invokes e ∉ log

/-- Nothing is going on, and the handler has not been called. -/
structure Idle (s : Start) : Prop where
  control : s.control = none
  reading : s.reading = []
  writing : s.writing = 0
  quiet : Quiet s.log

/-- Exactly one function has control, or one operation has been started. -/
structure Live (s : Start) : Prop where
  activity : s.control.toList.length + s.reading.length + s.writing = 1
  quiet : Quiet s.log

/-- The handler has been called, and nothing is going on. -/
structure Ended (s : Start) : Prop where
  control : s.control = none
  reading : s.reading = []
  writing : s.writing = 0
  log : ∃ before e, s.log = before ++ [.invokes e] ∧ Quiet before

/-- What a function leaves. -/
def Done (s : Start) : Prop := Live s ∨ Ended s

lemma Quiet.concat {log : List Action} (h : Quiet log) {a : Action} (ha : ∀ e, a ≠ .invokes e) :
    Quiet (log ++ [a]) := by
  intro e hmem
  rcases List.mem_append.1 hmem with hmem | hmem
  · exact h e hmem
  · exact ha e (List.mem_singleton.1 hmem).symm

section Functions

variable {s : Start}

lemma Idle.invoke (h : Idle s) (e : Option StartError) : Done (s.invoke e) :=
  .inr ⟨h.control, h.reading, h.writing, s.log, e, rfl, h.quiet⟩

lemma Idle.asyncReadRecord (h : Idle s) (k : Label) : Done (s.asyncReadRecord k) := by
  refine .inl ⟨?_, h.quiet.concat (fun e => by simp)⟩
  show s.control.toList.length + (s.reading ++ [k]).length + s.writing = 1
  rw [h.control, h.reading, h.writing]
  rfl

lemma Idle.readNext (h : Idle s) (k : Label) : Done (s.readNext k) := by
  unfold Start.readNext
  cases s.cached with
  | nil => exact h.asyncReadRecord k
  | cons r rest =>
    refine .inl ⟨?_, h.quiet.concat (fun e => by simp)⟩
    show (some k).toList.length + s.reading.length + s.writing = 1
    rw [h.reading, h.writing]
    rfl

lemma Idle.asyncReadHeaders (h : Idle s) : Done s.asyncReadHeaders := by
  have hreset : Idle s.resetAll := ⟨h.control, h.reading, h.writing, h.quiet⟩
  exact hreset.asyncReadRecord .onStartRequest

lemma Idle.asyncSendRespnse (h : Idle s) : Done s.asyncSendRespnse := by
  refine .inl ⟨?_, h.quiet.concat (fun e => by simp)⟩
  show s.control.toList.length + s.reading.length + (s.writing + 1) = 1
  rw [h.control, h.reading, h.writing]
  rfl

lemma Idle.onParamsResponseSent (h : Idle s) (e : Option StartError) :
    Done (s.onParamsResponseSent e) := by
  cases e with
  | none => exact h.asyncReadHeaders
  | some e => exact h.invoke (some e)

lemma Idle.beginRequest (h : Idle s) : Done s.beginRequest := by
  unfold Start.beginRequest
  dsimp only
  split_ifs
  · exact h.invoke _
  · apply Idle.asyncSendRespnse
    exact ⟨h.control, h.reading, h.writing, h.quiet⟩
  · apply Idle.readNext
    exact ⟨h.control, h.reading, h.writing, h.quiet⟩

/-- Without questions of the server, the first function does one thing. -/
lemma Idle.onStartRequest (h : Idle s) (hint : ℤ) (hexpected : s.Expected .onStartRequest) :
    Done (s.onStartRequest hint) := by
  unfold Start.onStartRequest
  split_ifs with hversion htype hbegin
  · exact h.invoke _
  · have hidle : Idle { s with header := { s.header with type := Kind.getValuesResult } } :=
      ⟨h.control, h.reading, h.writing, h.quiet⟩
    dsimp only
    cases hparse : parsePairsInto s.body [] with
    | none => exact hidle.invoke _
    | some result =>
      rcases result with ⟨accepted, pairs⟩
      cases accepted with
      | false => exact hidle.invoke _
      | true =>
        refine absurd ⟨not_not.1 hversion, htype, ?_⟩ hexpected
        rw [hparse]
        rfl
  · exact h.asyncReadHeaders
  · exact h.beginRequest

lemma Idle.paramsComplete (h : Idle s) : Done s.paramsComplete := by
  unfold Start.paramsComplete
  dsimp only
  split_ifs
  · apply Idle.readNext
    exact ⟨h.control, h.reading, h.writing, h.quiet⟩
  · apply Idle.invoke
    exact ⟨h.control, h.reading, h.writing, h.quiet⟩

/-- With a record of the parameters, the second function does one thing. -/
lemma Idle.paramsRecordExpected (h : Idle s) (hexpected : s.Expected .paramsRecordExpected) :
    Done s.paramsRecordExpected := by
  have hnot : ¬ (s.header.type ≠ Kind.params ∨ s.header.requestId ≠ s.requestId) := by
    rintro (htype | hid)
    · exact htype hexpected.1
    · exact hid hexpected.2
  unfold Start.paramsRecordExpected
  rw [if_neg hnot]
  dsimp only
  split_ifs
  · exact h.readNext _
  · exact h.invoke _
  · exact h.paramsComplete

lemma Idle.look (h : Idle s) (hint : ℤ) {k : Label} (hexpected : s.Expected k) :
    Done (look hint k s) := by
  cases k with
  | onStartRequest => exact h.onStartRequest hint hexpected
  | paramsRecordExpected => exact h.paramsRecordExpected hexpected
  | stdinEofExpected =>
    show Done s.stdinEofExpected
    unfold Start.stdinEofExpected
    split_ifs
    · exact h.invoke _
    · exact h.invoke _

end Functions

/-! ## Steps -/

section Steps

variable {s : Start} {hint : ℤ}

/-- After the call of the handler nothing is done any more. -/
lemma Ended.step (h : Ended s) (event : Event) : Ended (s.step hint event) := by
  unfold Start.step
  rw [h.control]
  cases event with
  | continues => exact h
  | received records =>
    dsimp only
    rw [h.reading]
    exact ⟨rfl, rfl, h.writing, h.log⟩
  | readFailed =>
    dsimp only
    rw [h.reading]
    exact h
  | written =>
    dsimp only
    rw [if_pos h.writing]
    exact h
  | writeFailed =>
    dsimp only
    rw [if_pos h.writing]
    exact h

/-- A step at which the record is expected. -/
lemma Live.step (h : Live s) (event : Event) (hexpected : s.StepExpected event) :
    Done (s.step hint event) := by
  have hactivity := h.activity
  unfold Start.step
  cases hcontrol : s.control with
  | some k =>
    rw [hcontrol] at hactivity
    simp only [Option.toList_some, List.length_singleton] at hactivity
    have hreading : s.reading = [] := List.length_eq_zero_iff.1 (by omega)
    have hidle : Idle { s with control := none } := ⟨rfl, hreading, by dsimp only; omega, h.quiet⟩
    cases event with
    | continues => exact hidle.look hint (hexpected rfl k hcontrol)
    | received records => exact .inl h
    | readFailed => exact .inl h
    | written => exact .inl h
    | writeFailed => exact .inl h
  | none =>
    rw [hcontrol] at hactivity
    simp only [Option.toList_none, List.length_nil] at hactivity
    have hwrite : s.writing ≠ 0 → Idle { s with control := none, writing := s.writing - 1 } := by
      intro hne
      have hreading : s.reading = [] := List.length_eq_zero_iff.1 (by omega)
      have hone : s.writing - 1 = 0 := by omega
      exact ⟨rfl, hreading, hone, h.quiet⟩
    cases event with
    | continues => exact .inl h
    | received records =>
      dsimp only
      cases hreading : s.reading with
      | nil =>
        rw [hreading] at hactivity
        exact .inl ⟨hactivity, h.quiet⟩
      | cons k ks =>
        rw [hreading] at hactivity
        cases hcached : s.cached ++ records with
        | nil => exact .inl ⟨hactivity, h.quiet⟩
        | cons r rest =>
          refine .inl ⟨?_, h.quiet⟩
          simp only [List.length_cons] at hactivity
          simp only [Option.toList_some, List.length_singleton]
          omega
    | readFailed =>
      dsimp only
      cases hreading : s.reading with
      | nil => exact .inl h
      | cons k ks =>
        rw [hreading] at hactivity
        simp only [List.length_cons] at hactivity
        have hks : ks = [] := List.length_eq_zero_iff.1 (by omega)
        have hwriting : s.writing = 0 := by omega
        have hidle : Idle { s with control := none, reading := ks } := ⟨rfl, hks, hwriting, h.quiet⟩
        exact hidle.invoke _
    | written =>
      dsimp only
      split_ifs with hzero
      · exact .inl h
      · exact (hwrite hzero).onParamsResponseSent none
    | writeFailed =>
      dsimp only
      split_ifs with hzero
      · exact .inl h
      · exact (hwrite hzero).onParamsResponseSent _

lemma Done.run (h : Done s) {events : List Event} (hexpected : RunExpected hint s events) :
    Done (s.run hint events) := by
  induction events generalizing s with
  | nil => exact h
  | cons event events ih =>
    rcases hexpected with ⟨hstep, hrest⟩
    rcases h with hlive | hended
    · exact ih (hlive.step event hstep) hrest
    · exact ih (.inr (hended.step event)) hrest

lemma Done.once (h : Done s) : Once s.log := by
  intro before e after heq
  rcases h with hlive | hended
  · refine absurd ?_ (hlive.quiet e)
    rw [heq]
    exact List.mem_append_right before List.mem_cons_self
  · rcases hended.log with ⟨before', e', hlog, hquiet⟩
    rw [hlog] at heq
    rcases List.eq_nil_or_concat after with rfl | ⟨after', a, rfl⟩
    · rfl
    · rw [List.concat_eq_append, ← List.cons_append, ← List.append_assoc] at heq
      rcases List.append_inj' heq rfl with ⟨hbefore, -⟩
      refine absurd ?_ (hquiet e)
      rw [hbefore]
      exact List.mem_append_right before List.mem_cons_self

end Steps

/-- If the records that are looked at are expected, the handler is called at most once, and nothing
is read or answered after it. -/
theorem run_once (hint : ℤ) (cached : List (Header × Bytes)) (events : List Event)
    (hexpected : RunExpected hint (init cached) events) :
    Once ((init cached).run hint events).log := by
  have hidle : Idle ⟨.zero, [], 0, 0, false, .init, cached, none, [], 0, []⟩ :=
    ⟨rfl, rfl, rfl, fun e => List.not_mem_nil⟩
  exact (hidle.asyncReadHeaders.run hexpected).once

/-- A request without parameters and without content. -/
def shortRequest : List Event :=
  [.received [(⟨1, 1, 7, 8, 0, 0⟩, [0, 1, 0, 0, 0, 0, 0, 0]), (⟨1, 4, 7, 0, 0, 0⟩, [])],
    .continues, .continues,
    .received [(⟨1, 5, 7, 0, 0, 0⟩, [])], .continues]

theorem run_once_shortRequest : RunExpected 1 (init []) shortRequest ∧
    Once ((init []).run 1 shortRequest).log ∧
    ((init []).run 1 shortRequest).log = [.reads, .reads, .reads, .invokes none] := by
  have hexpected : RunExpected 1 (init []) shortRequest := by decide +kernel
  exact ⟨hexpected, run_once 1 [] shortRequest hexpected, by decide +kernel⟩

/-- The server asks nothing, and then another record follows. -/
def questions : List Event :=
  [.received [(⟨1, 9, 0, 0, 0, 0⟩, [])], .continues, .written,
    .received [(⟨2, 1, 1, 0, 0, 0⟩, [])], .continues]

theorem run_once_questions : ((init []).run 1 questions).log =
      [.reads, .answers ⟨1, 10, 0, 0, 0, 0⟩ [], .invokes (some .protocolViolation), .reads,
        .invokes (some .protocolViolation)] ∧
    ¬ Once ((init []).run 1 questions).log := by
  have hlog : ((init []).run 1 questions).log =
      [.reads, .answers ⟨1, 10, 0, 0, 0, 0⟩ [], .invokes (some .protocolViolation), .reads,
        .invokes (some .protocolViolation)] := by decide
  refine ⟨hlog, fun honce => ?_⟩
  rw [hlog] at honce
  have hnil := honce [.reads, .answers ⟨1, 10, 0, 0, 0, 0⟩ []] (some .protocolViolation)
    [.reads, .invokes (some .protocolViolation)] rfl
  exact absurd hnil (List.cons_ne_nil _ _)

end Start

end Fastcgi

end Cppcms
