import Cppcms.Tcp.Server

/-!
# Sessions on the server

`tcp_storage` of `session_tcp_storage.cpp`: a session storage whose calls are made by the server on
its own storage.
-/

namespace Cppcms

namespace Tcp

open Cache Session

/-- The requests of `tcp_storage`. -/
def sessionRequest : Call → Option Message
  | .save _ sid timeout value => send (.sessionSave timeout) (value.length + 32) (sid ++ value)
  | .load _ sid => send .sessionLoad sid.length sid
  | .remove _ sid => send .sessionRemove sid.length sid

/-- How `tcp_storage::load` reads the answer. -/
def loadAnswer (answer : Message) : Option (ℤ × Bytes) :=
  match answer.operation with
  | .sessionLoadData timeout => some (timeout, answer.data)
  | _ => none

/-- The time of a call. -/
def callTime : Call → ℤ
  | .save now _ _ _ => now
  | .load now _ => now
  | .remove now _ => now

variable {σ : Type}

/-- A call of `tcp_storage`: the server after it, and what it has loaded. -/
def sessionCall (settings : Cache.Settings) (storage : Storage σ) (server : Server σ)
    (memory : Cache.Memory) (call : Call) : Option (Server σ × Option (ℤ × Bytes)) :=
  (sessionRequest call).bind fun m =>
    (onDataIn settings storage server (callTime call) memory m).map fun q =>
      (q.1, match call with
        | .load _ _ => loadAnswer q.2
        | _ => none)

/-- The server after a list of calls. -/
def sessionCalls (settings : Cache.Settings) (storage : Storage σ) (server : Server σ)
    (memory : Cache.Memory) (calls : List Call) : Option (Server σ) :=
  calls.foldlM (fun server call => (sessionCall settings storage server memory call).map Prod.fst)
    server

/-- A call that the protocol can carry: the length of an id is fixed, and values are not too long.
-/
def Fits (call : Call) : Prop := call.sid.length = 32 ∧ call.value.length < 2 ^ 31

/-- What a client can tell of a loaded session: the deadline has gone through an `int`. -/
def throughInt : Option (ℤ × Bytes) → Option (ℤ × Bytes)
  | none => none
  | some (timeout, value) => if toInt timeout < 0 then none else some (toInt timeout, value)

/-- The deadline survives if it is an `int` that is not negative. -/
lemma throughInt_eq_iff (q : Option (ℤ × Bytes)) :
    throughInt q = q ↔ ∀ timeout value, q = some (timeout, value) →
    0 ≤ timeout ∧ timeout < 2 ^ 31 := by
  cases q with
  | none =>
    constructor
    · intro _ timeout value h
      cases h
    · exact fun _ => rfl
  | some x =>
    obtain ⟨timeout, value⟩ := x
    have hle : -(2 ^ 31) ≤ toInt timeout := Int.le_bmod (m := 2 ^ 32) (by norm_num)
    have hlt : toInt timeout < 2 ^ 31 := Int.bmod_lt (m := 2 ^ 32) (by norm_num)
    change (if toInt timeout < 0 then none else some (toInt timeout, value)) = _ ↔ _
    constructor
    · intro h timeout' value' heq
      obtain ⟨rfl, rfl⟩ := Prod.mk.inj (Option.some.inj heq)
      split_ifs at h with hneg
      obtain ⟨htimeout, -⟩ := Prod.mk.inj (Option.some.inj h)
      rw [htimeout] at hneg hlt
      exact ⟨not_lt.1 hneg, hlt⟩
    · intro h
      obtain ⟨hpos, hsmall⟩ := h timeout value rfl
      have hself : toInt timeout = timeout := by
        unfold toInt
        rw [Int.bmod_eq_of_le] <;> omega
      rw [hself, if_neg (not_lt.2 hpos)]

variable {call : Call} {calls : List Call}

/-- A call on the server is one on its storage. -/
lemma sessionCall_eq (settings : Cache.Settings) (storage : Storage σ)
    (cache : Option MemCache) (s : σ)
    (memory : Cache.Memory) (hcall : Fits call)
    (hvalue : ∀ timeout value, (storage.apply s call).2 = some (timeout, value) →
      value.length < 2 ^ 31) :
    sessionCall settings storage ⟨cache, some s⟩ memory call =
      some (⟨cache, some (storage.apply s call).1⟩, throughInt (storage.apply s call).2) := by
  obtain ⟨hsid, hlen⟩ := hcall
  cases call with
  | save now sid timeout value =>
    have hsid : sid.length = 32 := hsid
    have hlen : value.length < 2 ^ 31 := hlen
    have hdata : (sid ++ value).length = value.length + 32 := by
      rw [List.length_append]
      omega
    have hrequest : sessionRequest (.save now sid timeout value) =
        some ⟨.sessionSave timeout, sid ++ value⟩ := by
      unfold sessionRequest
      dsimp only
      rw [← hdata, send_length (by omega)]
    unfold sessionCall
    rw [hrequest, Option.bind_some]
    simp only [onDataIn, onSessions, serveSave]
    rw [if_neg (by omega), List.take_left' hsid, List.drop_left' hsid]
    rfl
  | load now sid =>
    have hsid : sid.length = 32 := hsid
    have hrequest : sessionRequest (.load now sid) = some ⟨.sessionLoad, sid⟩ :=
      send_length (by omega)
    unfold sessionCall
    rw [hrequest, Option.bind_some]
    simp only [onDataIn, onSessions, serveLoad, callTime]
    rw [if_neg (not_not.2 hsid)]
    change ∀ timeout value, (storage.load now s sid).2 = some (timeout, value) → _ at hvalue
    change _ = some (Server.mk cache (some (storage.load now s sid).1),
      throughInt (storage.load now s sid).2)
    cases hload : (storage.load now s sid).2 with
    | none => rfl
    | some x =>
      obtain ⟨timeout, value⟩ := x
      have hlength := hvalue timeout value hload
      dsimp only [throughInt]
      split_ifs with hneg
      · rfl
      · rw [send_length (by omega)]
        rfl
  | remove now sid =>
    have hsid : sid.length = 32 := hsid
    have hrequest : sessionRequest (.remove now sid) = some ⟨.sessionRemove, sid⟩ :=
      send_length (by omega)
    unfold sessionCall
    rw [hrequest, Option.bind_some]
    simp only [onDataIn, onSessions, serveRemove]
    rw [if_neg (not_not.2 hsid)]
    rfl

/-- A loaded value is not longer than the saved ones. -/
lemma length_lt_of_loadsSaved {storage : Storage σ} {s : σ} (hstorage : storage.LoadsSaved s)
    (hcalls : ∀ call ∈ calls, Fits call) {timeout : ℤ} {value : Bytes}
    (hload : (storage.apply (storage.run s calls) call).2 = some (timeout, value)) :
    value.length < 2 ^ 31 := by
  cases call with
  | load now sid =>
    obtain ⟨now', hmem⟩ := hstorage calls now sid timeout value hload
    exact (hcalls _ hmem).2
  | save now sid timeout' value' => cases hload
  | remove now sid => cases hload

/-- A list of calls on the server is one on its storage. -/
lemma sessionCalls_eq (settings : Cache.Settings) (storage : Storage σ) (cache : Option MemCache)
    {s : σ} (hstorage : storage.LoadsSaved s) (memory : Cache.Memory)
    (hcalls : ∀ call ∈ calls, Fits call) :
    sessionCalls settings storage ⟨cache, some s⟩ memory calls =
      some ⟨cache, some (storage.run s calls)⟩ := by
  induction calls using List.reverseRecOn with
  | nil => rfl
  | append_singleton calls call ih =>
    have hbefore : ∀ call ∈ calls, Fits call := fun call hcall =>
      hcalls call (List.mem_append_left _ hcall)
    unfold sessionCalls
    rw [List.foldlM_append]
    change (sessionCalls settings storage ⟨cache, some s⟩ memory calls).bind _ = _
    rw [ih hbefore, Option.bind_some, List.foldlM_cons]
    rw [sessionCall_eq settings storage cache _ memory (hcalls call (by simp))]
    · unfold Storage.run
      rw [List.foldl_append]
      rfl
    · exact fun timeout value hload => length_lt_of_loadsSaved hstorage hbefore hload

/-- `tcp_storage::load` tells what a call of the storage of the server would tell if the deadline is
not negative and fits into an `int`. -/
theorem sessionLoad_eq_iff (settings : Cache.Settings) (storage : Storage σ)
    (cache : Option MemCache) {s : σ} (hstorage : storage.LoadsSaved s) (memory : Cache.Memory)
    {calls : List Call} (hcalls : ∀ call ∈ calls, Fits call) (now : ℤ) {sid : Bytes}
    (hsid : sid.length = 32) :
    ∃ server server' r, sessionCalls settings storage ⟨cache, some s⟩ memory calls = some server ∧
      server.sessions = some (storage.run s calls) ∧
      sessionCall settings storage server memory (.load now sid) = some (server', r) ∧
      (r = (storage.load now (storage.run s calls) sid).2 ↔
        ∀ timeout value, (storage.load now (storage.run s calls) sid).2 = some (timeout, value) →
          0 ≤ timeout ∧ timeout < 2 ^ 31) := by
  have hfits : Fits (.load now sid) := ⟨hsid, Nat.two_pow_pos 31⟩
  have hload := sessionCall_eq settings storage cache (storage.run s calls) memory hfits
    fun timeout value hload => length_lt_of_loadsSaved hstorage hcalls hload
  exact ⟨_, _, _, sessionCalls_eq settings storage cache hstorage memory hcalls, rfl, hload,
    throughInt_eq_iff _⟩

/-- A session that is saved and loaded again. -/
theorem sessionLoad_eq_iff_saved :
    ∃ server server' r, sessionCalls Settings.thread table ⟨none, some []⟩ Cache.Memory.enough
        [.save 0 (List.replicate 32 97) 10 [1]] = some server ∧
      server.sessions = some (table.run [] [.save 0 (List.replicate 32 97) 10 [1]]) ∧
      sessionCall Settings.thread table server Cache.Memory.enough
        (.load 5 (List.replicate 32 97)) =
        some (server', r) ∧
      (r = (table.load 5 (table.run [] [.save 0 (List.replicate 32 97) 10 [1]])
        (List.replicate 32 97)).2 ↔
        ∀ timeout value, (table.load 5 (table.run [] [.save 0 (List.replicate 32 97) 10 [1]])
          (List.replicate 32 97)).2 = some (timeout, value) → 0 ≤ timeout ∧ timeout < 2 ^ 31) :=
  sessionLoad_eq_iff Settings.thread table none table_loadsSaved Cache.Memory.enough
    (by simp [Fits, Call.sid, Call.value]) 5 (by simp)

/-- A session whose deadline is too large for an `int` is not found. -/
theorem sessionLoad_late :
    ((sessionCalls Settings.thread table ⟨none, some []⟩ Cache.Memory.enough
        [.save 0 (List.replicate 32 97) (2 ^ 31) [1]]).bind fun server =>
      (sessionCall Settings.thread table server Cache.Memory.enough
        (.load 5 (List.replicate 32 97))).map Prod.snd) =
        some none ∧
      (table.load 5 (table.run [] [.save 0 (List.replicate 32 97) (2 ^ 31) [1]])
        (List.replicate 32 97)).2 =
        some (2 ^ 31, [1]) := by
  decide

end Tcp

end Cppcms
