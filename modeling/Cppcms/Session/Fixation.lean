import Cppcms.Session.Backends

/-!
# Identifiers of sessions

A client may send any cookie, so that an identifier in a cookie is not to be trusted: the data of a
session are saved under a new identifier, or under one with which the same request has loaded a
session.  The requests of all clients are served in any order of their operations over one storage.
-/

namespace Cppcms

namespace Session

variable {σ : Type} {settings : Settings} {storage : Storage σ} {now : ℤ} {f f' f'' : Frame σ}
  {es es' : List Event}

/-! ## What a request adds to the history -/

/-- The call of an event. -/
def Event.call? : Event → Option Call
  | .call c => some c
  | _ => none

/-- The calls of the storage in a history. -/
def callsOf (history : List (ℕ × Event)) : List Call := history.filterMap fun e => e.2.call?

lemma callsOf_append (h h' : List (ℕ × Event)) : callsOf (h ++ h') = callsOf h ++ callsOf h' :=
  List.filterMap_append

lemma callsOf_map (i : ℕ) (es : List Event) :
    callsOf (es.map fun e => (i, e)) = es.filterMap Event.call? := by
  unfold callsOf
  rw [List.filterMap_map]
  rfl

/-- A part of a request that has added the given events. -/
structure Adds (storage : Storage σ) (f f' : Frame σ) (es : List Event) : Prop where
  request : f'.request = f.request
  cookies : f'.session.cookies = f.session.cookies
  reset : f'.session.reset = f.session.reset
  history : f'.history = f.history ++ es.map fun e => (f.request, e)
  storage : f'.storage = storage.run f.storage (es.filterMap Event.call?)

namespace Adds

lemma trans (h : Adds storage f f' es) (h' : Adds storage f' f'' es') :
    Adds storage f f'' (es ++ es') where
  request := h'.request.trans h.request
  cookies := h'.cookies.trans h.cookies
  reset := h'.reset.trans h.reset
  history := by rw [h'.history, h.history, h.request, List.map_append, List.append_assoc]
  storage := by
    unfold Storage.run
    rw [h'.storage, h.storage, List.filterMap_append, List.foldl_append]
    rfl

variable {g : Interface → Interface}

lemma map (hcookies : (g f.session).cookies = f.session.cookies)
    (hreset : (g f.session).reset = f.session.reset) : Adds storage f (f.map g) [] :=
  ⟨rfl, hcookies, hreset, (List.append_nil _).symm, rfl⟩

/-- Another step of the session alone. -/
lemma andMap (h : Adds storage f f' es) (hcookies : (g f'.session).cookies = f'.session.cookies)
    (hreset : (g f'.session).reset = f'.session.reset) : Adds storage f (f'.map g) es := by
  have hmap := h.trans (map hcookies hreset)
  rwa [List.append_nil] at hmap

lemma refl : Adds storage f f [] := map (g := id) rfl rfl

lemma log {e : Event} (he : e.call? = none) : Adds storage f (f.log e) [e] :=
  ⟨rfl, rfl, rfl, rfl, by simp only [List.filterMap_cons, he, List.filterMap_nil]; rfl⟩

lemma call (c : Call) : Adds storage f (f.call storage c).1 [.call c] := ⟨rfl, rfl, rfl, rfl, rfl⟩

lemma sessionCookie_eq (h : Adds storage f f' es) :
    f'.session.sessionCookie settings = f.session.sessionCookie settings := by
  unfold Interface.sessionCookie
  rw [h.cookies]

end Adds

/-- A call that saves nothing. -/
def Event.isQuiet : Event → Bool
  | .call (.load _ _) => true
  | .call (.remove _ _) => true
  | _ => false

/-! ## The back-end -/

/-- Loading finds a session under the identifier of the cookie, or it finds none. -/
lemma sessionSid_load_adds (iv : Bytes) (f : Frame σ) :
    ∃ es, Adds storage f ((sessionSid settings storage).load now iv f).1 es ∧
      ((sessionSid settings storage).load now iv f).1.session = f.session ∧
      ((((sessionSid settings storage).load now iv f).2.2 = .returns none ∧ ∀ e ∈ es, e.isQuiet) ∨
        ∃ id x, validSid (f.session.sessionCookie settings) = some id ∧
          es = [.call (.load now id), .loaded id] ∧
          (storage.load now f.storage id).2 = some x) := by
  unfold sessionSid
  dsimp only
  cases hvalid : validSid (f.session.sessionCookie settings) with
  | none => exact ⟨[], Adds.refl, rfl, .inl ⟨rfl, by simp⟩⟩
  | some id =>
    have hcall : Adds storage f (f.call storage (.load now id)).1 [.call (.load now id)] :=
      Adds.call _
    cases hload : (storage.load now f.storage id).2 with
    | none =>
      have heq : f.call storage (.load now id) = ((f.call storage (.load now id)).1, none) :=
        Prod.ext rfl hload
      dsimp only
      rw [heq]
      exact ⟨_, hcall, rfl, .inl ⟨rfl, by simp [Event.isQuiet]⟩⟩
    | some x =>
      obtain ⟨timeout, data⟩ := x
      have heq : f.call storage (.load now id) =
          ((f.call storage (.load now id)).1, some (timeout, data)) :=
        Prod.ext rfl hload
      dsimp only
      rw [heq]
      dsimp only
      split_ifs
      · exact ⟨_, hcall.trans (Adds.call (.remove now id)), rfl,
          .inl ⟨rfl, by simp [Event.isQuiet]⟩⟩
      · exact ⟨_, hcall.trans (Adds.log rfl), rfl, .inr ⟨id, _, rfl, rfl, hload⟩⟩

/-- The identifier of the cookie is removed. -/
def presented (cookie : Bytes) (now : ℤ) : List Event :=
  (validSid cookie).toList.map fun id => .call (.remove now id)

/-- Saving goes to a new identifier, or to that of the cookie if the data are not new. -/
lemma sessionSid_save_adds (entropy : Entropy) (f : Frame σ) (data : Bytes) (timeout : ℤ)
    (newData onServer : Bool) :
    ∃ id es, Adds storage f
        ((sessionSid settings storage).save now entropy f data timeout newData onServer).1
        (es ++ [.call (.save now id timeout data)]) ∧
      ((sessionSid settings storage).save now entropy f data timeout newData
        onServer).1.session.dataCopy =
        f.session.dataCopy ∧
      (es = presented (f.session.sessionCookie settings) now ++ [.generated id] ∨
        (newData = false ∧ es = [] ∧ validSid (f.session.sessionCookie settings) = some id)) := by
  unfold sessionSid presented
  dsimp only
  cases hvalid : validSid (f.session.sessionCookie settings) with
  | none =>
    have hnew : Adds storage f (getNewSid entropy f).1 [.generated (getNewSid entropy f).2] :=
      Adds.log rfl
    refine ⟨(getNewSid entropy f).2, [.generated (getNewSid entropy f).2], ?_, rfl, .inl rfl⟩
    exact (hnew.trans (Adds.call _)).andMap rfl rfl
  | some id =>
    cases newData with
    | false =>
      refine ⟨id, [], ?_, rfl, .inr ⟨rfl, rfl, rfl⟩⟩
      exact (Adds.call (.save now id timeout data)).andMap rfl rfl
    | true =>
      have hremove : Adds storage f (f.call storage (.remove now id)).1 [.call (.remove now id)] :=
        Adds.call _
      have hlog : Adds storage (f.call storage (.remove now id)).1
          (getNewSid entropy (f.call storage (.remove now id)).1).1
          [.generated (getNewSid entropy (f.call storage (.remove now id)).1).2] := Adds.log rfl
      have hnew := hremove.trans hlog
      refine ⟨(getNewSid entropy (f.call storage (.remove now id)).1).2,
        [.call (.remove now id), .generated
          (getNewSid entropy (f.call storage (.remove now id)).1).2],
        ?_, rfl, .inl rfl⟩
      exact (hnew.trans (Adds.call _)).andMap rfl rfl

/-! ## The session -/

lemma readValues_fields (s : Interface) : (Frame.readValues s).1.cookies = s.cookies ∧
    (Frame.readValues s).1.reset = s.reset ∧ (Frame.readValues s).1.dataCopy = s.dataCopy := by
  unfold Frame.readValues
  dsimp only
  split
  · exact ⟨rfl, rfl, rfl⟩
  · split
    · exact ⟨rfl, rfl, rfl⟩
    · split
      · exact ⟨rfl, rfl, rfl⟩
      · exact ⟨rfl, rfl, rfl⟩

lemma receive_adds {timeout : Option ℤ} {result : Outcome (Option Bytes)}
    (h : Adds storage f f' es) :
    Adds storage f (f'.receive timeout result).1 es := by
  have htimeout :
      Adds storage f (f'.map fun s => { s with timeoutIn := timeout.getD s.timeoutIn }) es :=
    h.andMap rfl rfl
  unfold Frame.receive
  dsimp only
  generalize (f'.map fun s => { s with timeoutIn := timeout.getD s.timeoutIn }) = g at *
  cases result with
  | undefined => exact htimeout
  | throws what => exact htimeout
  | returns data =>
    cases data with
    | none => exact htimeout
    | some ar =>
      dsimp only
      cases loadData ar with
      | none => exact htimeout
      | some loaded =>
        cases loaded with
        | error e => exact htimeout.andMap (g := fun s => { s with data := e.data }) rfl rfl
        | ok x =>
          obtain ⟨hcookies, hreset, -⟩ :=
            readValues_fields { g.session with data := x.1, dataCopy := x.1 }
          exact htimeout.andMap (g := fun s =>
            (Frame.readValues { s with data := x.1, dataCopy := x.1 }).1)
            hcookies hreset

lemma load_adds (iv : Bytes) (f : Frame σ) :
    ∃ es, Adds storage f (f.load settings (sessionSid settings storage) now iv).1 es ∧
      (((∀ e ∈ es, e.isQuiet) ∧
          ((f.load settings (sessionSid settings storage) now iv).1.session.dataCopy =
            f.session.dataCopy ∨
            (f.load settings (sessionSid settings storage) now iv).1.session.dataCopy = ∅)) ∨
        ∃ id x, validSid (f.session.sessionCookie settings) = some id ∧
          es = [.call (.load now id), .loaded id] ∧
          (storage.load now f.storage id).2 = some x) := by
  unfold Frame.load
  split_ifs with hloaded
  · exact ⟨[], Adds.refl, .inl ⟨by simp, .inl rfl⟩⟩
  have hstart : Adds storage f (f.map (Frame.start settings)) [] := Adds.map rfl rfl
  obtain ⟨es, hadds, hsession, hresult⟩ := @sessionSid_load_adds σ settings storage now iv
    (f.map (Frame.start settings))
  refine ⟨es, receive_adds (hstart.trans hadds), ?_⟩
  obtain ⟨hnone, hquiet⟩ | hfound := hresult
  · refine .inl ⟨hquiet, .inr ?_⟩
    dsimp only
    rw [hnone]
    exact congrArg Interface.dataCopy hsession
  · exact .inr hfound

lemma prepare_fields (random : Bytes) (s : Interface) :
    (Frame.prepare settings random s).cookies = s.cookies ∧
      (Frame.prepare settings random s).reset = s.reset ∧
      (Frame.prepare settings random s).dataCopy = s.dataCopy ∧
      (Frame.prepare settings random s).newSession =
        ((s.dataCopy.toList.isEmpty && !s.data.toList.isEmpty) || s.reset) := by
  unfold Frame.prepare
  dsimp only
  split_ifs <;> exact ⟨rfl, rfl, rfl, rfl⟩

variable {random : Bytes} {s : Interface} {force : Bool}

/-- A session that is not new is the one that was loaded. -/
lemma prepare_not_new (hdata : s.data.toList.isEmpty = false)
    (hnew : (Frame.prepare settings random s).newSession = false) :
    s.dataCopy.toList.isEmpty = false ∧ s.reset = false := by
  rw [(prepare_fields random s).2.2.2, hdata] at hnew
  simpa using hnew

lemma data_prepare_isEmpty (hdata : s.data.toList.isEmpty = true) :
    (Frame.prepare settings random s).data = s.data := by
  unfold Frame.prepare
  dsimp only
  rw [hdata]
  simp

lemma clearSessionCookie_fields (s : Interface) :
    (s.clearSessionCookie settings now).cookies = s.cookies ∧
    (s.clearSessionCookie settings now).reset = s.reset ∧
    (s.clearSessionCookie settings now).dataCopy = s.dataCopy := by
  unfold Interface.clearSessionCookie
  split_ifs <;> exact ⟨rfl, rfl, rfl⟩

lemma sessionSid_clear_adds (f : Frame σ) :
    ∃ es, Adds storage f ((sessionSid settings storage).clear now f) es ∧ (∀ e ∈ es, e.isQuiet) ∧
      ((sessionSid settings storage).clear now f).session.dataCopy = f.session.dataCopy := by
  have hclear : ∀ {g : Frame σ} {es : List Event}, Adds storage f g es →
      Adds storage f (g.clearSessionCookie settings now) es := by
    intro g es hadds
    obtain ⟨hcookies, hreset, -⟩ := @clearSessionCookie_fields settings now g.session
    exact hadds.andMap hcookies hreset
  have hcopy : ∀ g : Frame σ, (g.clearSessionCookie settings now).session.dataCopy =
      g.session.dataCopy :=
    fun g => (clearSessionCookie_fields g.session).2.2
  unfold sessionSid
  dsimp only
  cases validSid (f.session.sessionCookie settings) with
  | none => exact ⟨[], hclear Adds.refl, by simp, hcopy f⟩
  | some id =>
    exact ⟨_, hclear (Adds.call (.remove now id)), by simp [Event.isQuiet],
      hcopy (f.call storage (.remove now id)).1⟩

lemma finish_adds {outcome : Outcome Unit} (h : Adds storage f f' es) :
    Adds storage f (f'.finish settings now force outcome).1 es := by
  cases outcome with
  | undefined => exact h
  | throws what => exact h
  | returns u => exact ⟨h.request, h.cookies, h.reset, h.history, h.storage⟩

lemma finish_dataCopy (f : Frame σ) (outcome : Outcome Unit) :
    (f.finish settings now force outcome).1.session.dataCopy = f.session.dataCopy := by
  cases outcome <;> rfl

/-- What `save` does to the storage. -/
lemma save_adds (entropy : Entropy) (f : Frame σ) :
    ∃ es, Adds storage f (f.save settings (sessionSid settings storage) now entropy).1 es ∧
      (f.save settings (sessionSid settings storage) now entropy).1.session.dataCopy =
        f.session.dataCopy ∧
      ((∀ e ∈ es, e.isQuiet) ∨
        ∃ id timeout data es₀, es = es₀ ++ [.call (.save now id timeout data)] ∧
          (es₀ = presented (f.session.sessionCookie settings) now ++ [.generated id] ∨
            (es₀ = [] ∧ validSid (f.session.sessionCookie settings) = some id ∧
              f.session.dataCopy.toList.isEmpty = false ∧ f.session.reset = false))) := by
  unfold Frame.save
  split_ifs with hdone
  · exact ⟨[], Adds.refl, rfl, .inl (by simp)⟩
  dsimp only
  obtain ⟨hcookies, hreset, hcopy, -⟩ := @prepare_fields settings entropy.csrf.toList f.session
  generalize hg : f.map (Frame.prepare settings entropy.csrf.toList) = g
  have hsession : g.session = Frame.prepare settings entropy.csrf.toList f.session := hg ▸ rfl
  have hfg : Adds storage f g [] := hg ▸ Adds.map hcookies hreset
  have hgcopy : g.session.dataCopy = f.session.dataCopy := hsession ▸ hcopy
  split_ifs with hempty hcookie hrecent
  · obtain ⟨es, hadds, hquiet, hclear⟩ :=
      @sessionSid_clear_adds σ settings storage now g
    exact ⟨es, (hfg.trans hadds).andMap rfl rfl, hclear.trans hgcopy, .inl hquiet⟩
  · exact ⟨[], hfg.andMap rfl rfl, hgcopy, .inl (by simp)⟩
  · exact ⟨[], hfg, hgcopy, .inl (by simp)⟩
  cases saveData g.session.data with
  | error what => exact ⟨[], hfg, hgcopy, .inl (by simp)⟩
  | ok ar =>
    have htemp : Adds storage f (g.map fun s => { s with tempCookie := [] }) [] :=
      hfg.andMap rfl rfl
    obtain ⟨id, es, hadds, hsaved, horigin⟩ := @sessionSid_save_adds σ settings storage now entropy
      (g.map fun s => { s with tempCookie := [] }) ar (g.session.sessionAge now)
      g.session.newSession g.session.onServer
    rw [htemp.sessionCookie_eq] at horigin
    refine ⟨_, finish_adds (htemp.trans hadds), (finish_dataCopy _ _).trans (hsaved.trans hgcopy),
      .inr ⟨id, _, ar, es, rfl, ?_⟩⟩
    obtain hfresh | ⟨hnew, hnil, hvalid⟩ := horigin
    · exact .inl hfresh
    · right
      rw [hsession] at hnew hempty
      have hdata : f.session.data.toList.isEmpty = false := by
        by_contra htrue
        rw [Bool.not_eq_false] at htrue
        rw [data_prepare_isEmpty htrue] at hempty
        exact hempty htrue
      exact ⟨hnil, hvalid, prepare_not_new hdata hnew⟩

/-! ## Runs -/

/-- The sessions of all requests over one storage. -/
structure System (σ : Type) where
  sessions : ℕ → Interface
  storage : σ
  history : List (ℕ × Event) := []

namespace System

/-- The requests with the cookies that their clients have sent. -/
def init (cookies : ℕ → SortedMap Bytes Bytes) (s : σ) : System σ where
  sessions i := { cookies := cookies i }
  storage := s

/-- A request at work. -/
def frame (y : System σ) (i : ℕ) : Frame σ := ⟨i, y.sessions i, y.storage, y.history⟩

/-- The requests after one of them has worked. -/
def put (y : System σ) (i : ℕ) (f : Frame σ) : System σ :=
  ⟨Function.update y.sessions i f.session, f.storage, f.history⟩

@[simp] lemma put_self (y : System σ) (i : ℕ) (f : Frame σ) : (y.put i f).sessions i = f.session :=
  Function.update_self ..

lemma put_of_ne {i j : ℕ} (hj : j ≠ i) (y : System σ) (f : Frame σ) :
    (y.put i f).sessions j = y.sessions j :=
  Function.update_of_ne hj ..

/-- An operation of a request. -/
def step (settings : Settings) (storage : Storage σ) (y : System σ) (x : ℕ × Op) : System σ :=
  y.put x.1 ((y.frame x.1).apply settings (sessionSid settings storage) x.2)

/-- The operations of all requests, one after the other. -/
def run (settings : Settings) (storage : Storage σ) (y : System σ) (steps : List (ℕ × Op)) :
    System σ :=
  steps.foldl (step settings storage) y

end System

/-- The session cookie of a request. -/
def clientCookie (settings : Settings) (cookies : ℕ → SortedMap Bytes Bytes) (i : ℕ) : Bytes :=
  ((cookies i).find settings.cookieName).getD []

/-- The data of a request go to an identifier that was made for them, and the identifier that the
client has sent is removed before. -/
def SavedFresh (cookie : Bytes) (i : ℕ) (now : ℤ) (id : Bytes) (before : List (ℕ × Event)) : Prop :=
  ∃ h, before = h ++ (presented cookie now ++ [Event.generated id]).map fun e => (i, e)

/-- The data of a request go to the identifier in the cookie, from which the request has loaded its
session, and the session was not reset. -/
def SavedLoaded (cookie : Bytes) (i : ℕ) (id : Bytes) (before : List (ℕ × Event)) : Prop :=
  validSid cookie = some id ∧ (i, Event.loaded id) ∈ before ∧ (i, Event.reset) ∉ before

/-- A history in which the identifier of every call that saves has an origin. -/
inductive Accounted (cookie : ℕ → Bytes) : List (ℕ × Event) → Prop where
  | nil : Accounted cookie []
  | other {h : List (ℕ × Event)} {i : ℕ} {e : Event} (hh : Accounted cookie h)
      (he : ∀ now id timeout value, e ≠ .call (.save now id timeout value)) :
      Accounted cookie (h ++ [(i, e)])
  | save {h : List (ℕ × Event)} {i : ℕ} {now timeout : ℤ} {id value : Bytes}
      (hh : Accounted cookie h)
      (hgenerated : ∃ j, (j, Event.generated id) ∈ h)
      (horigin : SavedFresh (cookie i) i now id h ∨ SavedLoaded (cookie i) i id h) :
      Accounted cookie (h ++ [(i, .call (.save now id timeout value))])

namespace Accounted

variable {cookie : ℕ → Bytes} {history : List (ℕ × Event)}

variable {i : ℕ}

lemma quiet (h : Accounted cookie history) {es : List Event} (hes : ∀ e ∈ es, e.isQuiet) :
    Accounted cookie (history ++ es.map fun e => (i, e)) := by
  induction es using List.reverseRecOn with
  | nil => rwa [List.map_nil, List.append_nil]
  | append_singleton es e ih =>
    rw [List.map_append, ← List.append_assoc]
    refine other (ih fun e he => hes e (List.mem_append_left _ he)) ?_
    rintro now id timeout value rfl
    have hquiet := hes _ (List.mem_append_right es (List.mem_singleton.2 rfl))
    cases hquiet

/-- Every call that saves has an origin. -/
lemma origin (h : Accounted cookie history) {before after : List (ℕ × Event)} {now timeout : ℤ}
    {id value : Bytes}
    (heq : history = before ++ (i, .call (.save now id timeout value)) :: after) :
    (∃ j, (j, Event.generated id) ∈ before) ∧
      (SavedFresh (cookie i) i now id before ∨ SavedLoaded (cookie i) i id before) := by
  induction h generalizing after with
  | nil => simp at heq
  | other hh he ih =>
    induction after using List.reverseRecOn with
    | nil =>
      obtain ⟨-, hlast⟩ := List.append_inj' heq rfl
      obtain ⟨rfl, rfl⟩ := Prod.mk.inj (List.singleton_inj.1 hlast)
      exact absurd rfl (he now id timeout value)
    | append_singleton after x _ =>
      rw [← List.cons_append, ← List.append_assoc] at heq
      exact ih (List.append_inj' heq rfl).1
  | save hh hgenerated horigin ih =>
    induction after using List.reverseRecOn with
    | nil =>
      obtain ⟨rfl, hlast⟩ := List.append_inj' heq rfl
      obtain ⟨rfl, hcall⟩ := Prod.mk.inj (List.singleton_inj.1 hlast)
      cases hcall
      exact ⟨hgenerated, horigin⟩
    | append_singleton after x _ =>
      rw [← List.cons_append, ← List.append_assoc] at heq
      exact ih (List.append_inj' heq rfl).1

end Accounted

/-- What holds between the operations of the requests. -/
structure Guarded (settings : Settings) (storage : Storage σ) (s : σ)
    (cookies : ℕ → SortedMap Bytes Bytes) (y : System σ) : Prop where
  storage_eq : y.storage = storage.run s (callsOf y.history)
  cookies_eq : ∀ i, (y.sessions i).cookies = cookies i
  loaded : ∀ i, (y.sessions i).dataCopy.toList.isEmpty = false →
    ∃ id, validSid ((y.sessions i).sessionCookie settings) = some id ∧
    (i, Event.loaded id) ∈ y.history
  reset : ∀ i, (i, Event.reset) ∈ y.history → (y.sessions i).reset = true
  generated : ∀ i id, (i, Event.loaded id) ∈ y.history → ∃ j, (j, Event.generated id) ∈ y.history
  accounted : Accounted (clientCookie settings cookies) y.history

section Steps

variable {s : σ} {cookies : ℕ → SortedMap Bytes Bytes} {y : System σ} {i : ℕ}

lemma Guarded.sessionCookie_eq (hy : Guarded settings storage s cookies y) (i : ℕ) :
    (y.sessions i).sessionCookie settings = clientCookie settings cookies i := by
  unfold Interface.sessionCookie clientCookie
  rw [hy.cookies_eq]

/-- A request adds events to the history. -/
lemma Guarded.put (hy : Guarded settings storage s cookies y)
    (hadds : Adds storage (y.frame i) f es)
    (hreset : Event.reset ∉ es)
    (hloaded : f.session.dataCopy.toList.isEmpty = false →
      ∃ id, validSid ((y.sessions i).sessionCookie settings) = some id ∧
      (i, Event.loaded id) ∈ f.history)
    (hgenerated : ∀ id, Event.loaded id ∈ es → ∃ j, (j, Event.generated id) ∈ f.history)
    (haccounted : Accounted (clientCookie settings cookies) f.history) :
    Guarded settings storage s cookies (y.put i f) := by
  have hhistory : f.history = y.history ++ es.map fun e => (i, e) := hadds.history
  have hsub : ∀ {x}, x ∈ y.history → x ∈ f.history := by
    intro x hx
    rw [hhistory]
    exact List.mem_append_left _ hx
  have hnew : ∀ {j e}, (j, e) ∈ f.history → (j, e) ∈ y.history ∨ (j = i ∧ e ∈ es) := by
    intro j e hmem
    rw [hhistory] at hmem
    obtain hmem | hmem := List.mem_append.1 hmem
    · exact .inl hmem
    · obtain ⟨e', he', heq⟩ := List.mem_map.1 hmem
      cases heq
      exact .inr ⟨rfl, he'⟩
  refine ⟨?_, ?_, ?_, ?_, ?_, haccounted⟩
  · show f.storage = storage.run s (callsOf f.history)
    rw [hadds.storage, hhistory, callsOf_append, callsOf_map, System.frame, hy.storage_eq]
    unfold Storage.run
    rw [List.foldl_append]
  · intro j
    obtain rfl | hj := eq_or_ne j i
    · rw [System.put_self, hadds.cookies]
      exact hy.cookies_eq j
    · rw [System.put_of_ne hj]
      exact hy.cookies_eq j
  · intro j hcopy
    obtain rfl | hj := eq_or_ne j i
    · rw [System.put_self] at hcopy ⊢
      rw [hadds.sessionCookie_eq]
      exact hloaded hcopy
    · rw [System.put_of_ne hj] at hcopy ⊢
      obtain ⟨id, hvalid, hmem⟩ := hy.loaded j hcopy
      exact ⟨id, hvalid, hsub hmem⟩
  · intro j hmem
    obtain rfl | hj := eq_or_ne j i
    · rw [System.put_self, hadds.reset]
      obtain hmem | ⟨-, hmem⟩ := hnew hmem
      · exact hy.reset j hmem
      · exact absurd hmem hreset
    · rw [System.put_of_ne hj]
      obtain hmem | ⟨rfl, -⟩ := hnew hmem
      · exact hy.reset j hmem
      · exact absurd rfl hj
  · intro j id hmem
    obtain hmem | ⟨-, hmem⟩ := hnew hmem
    · obtain ⟨k, hk⟩ := hy.generated j id hmem
      exact ⟨k, hsub hk⟩
    · exact hgenerated id hmem

lemma Guarded.init : Guarded settings storage s cookies (System.init cookies s) := by
  refine ⟨rfl, fun _ => rfl, ?_, ?_, ?_, .nil⟩
  · intro i hcopy
    cases hcopy
  · intro i hmem
    cases hmem
  · intro i id hmem
    cases hmem

/-- An operation that changes the session alone. -/
lemma Guarded.map (hy : Guarded settings storage s cookies y) {g : Interface → Interface}
    (hcookies : (g (y.sessions i)).cookies = (y.sessions i).cookies)
    (hreset : (g (y.sessions i)).reset = (y.sessions i).reset)
    (hcopy : (g (y.sessions i)).dataCopy = (y.sessions i).dataCopy) :
    Guarded settings storage s cookies (y.put i ((y.frame i).map g)) := by
  apply hy.put (Adds.map hcookies hreset) List.not_mem_nil
  · intro hloaded
    exact hy.loaded i (hcopy ▸ hloaded)
  · intro id hmem
    cases hmem
  · exact hy.accounted

/-- Nobody has saved a session that is loaded under an identifier that was not generated. -/
lemma Guarded.generated_of_load (hstorage : storage.LoadsLast s)
    (hy : Guarded settings storage s cookies y) {id : Bytes} {x : ℤ × Bytes}
    (hload : (storage.load now y.storage id).2 = some x) :
    ∃ j, (j, Event.generated id) ∈ y.history := by
  rw [hy.storage_eq] at hload
  obtain ⟨now', hsave⟩ := Storage.exists_save_of_lastWrite (hstorage _ now id x hload)
  obtain ⟨e, hmem, hcall⟩ := List.mem_filterMap.1 hsave
  obtain ⟨i, e⟩ := e
  obtain ⟨before, after, heq⟩ := List.append_of_mem hmem
  cases e with
  | call c =>
    obtain rfl := Option.some.inj hcall
    obtain ⟨⟨j, hj⟩, -⟩ := hy.accounted.origin heq
    refine ⟨j, ?_⟩
    rw [heq]
    exact List.mem_append_left _ hj
  | generated id => cases hcall
  | loaded id => cases hcall
  | reset => cases hcall

lemma Guarded.load (hstorage : storage.LoadsLast s) (hy : Guarded settings storage s cookies y)
    (iv : Bytes) :
    Guarded settings storage s cookies
      (y.put i ((y.frame i).load settings (sessionSid settings storage) now iv).1) := by
  obtain ⟨es, hadds, hcase⟩ :=
    @load_adds σ settings storage now iv (y.frame i)
  have hhistory := hadds.history
  obtain ⟨hquiet, hcopy⟩ | ⟨id, x, hvalid, rfl, hload⟩ := hcase
  · apply hy.put hadds
    · intro hmem
      cases hquiet _ hmem
    · intro hloaded
      obtain hcopy | hcopy := hcopy
      · rw [hcopy] at hloaded
        obtain ⟨id, hvalid, hmem⟩ := hy.loaded i hloaded
        refine ⟨id, hvalid, ?_⟩
        rw [hhistory]
        exact List.mem_append_left _ hmem
      · rw [hcopy] at hloaded
        cases hloaded
    · intro id hmem
      cases hquiet _ hmem
    · rw [hhistory]
      exact hy.accounted.quiet hquiet
  · obtain ⟨j, hj⟩ := hy.generated_of_load hstorage hload
    apply hy.put hadds (by simp)
    · intro _
      refine ⟨id, hvalid, ?_⟩
      rw [hhistory]
      exact List.mem_append_right _ (by simp [System.frame])
    · intro id' hmem
      obtain rfl : id' = id := by simpa using hmem
      refine ⟨j, ?_⟩
      rw [hhistory]
      exact List.mem_append_left _ hj
    · have hcall := Accounted.other (i := i) (e := .call (.load now id)) hy.accounted (by simp)
      have hloaded := Accounted.other (i := i) (e := .loaded id) hcall (by simp)
      rw [List.append_assoc] at hloaded
      rw [hhistory]
      exact hloaded

/-- A request saves under an identifier that it has made, or under the one that it has loaded from.
-/
lemma Guarded.save (hy : Guarded settings storage s cookies y) (entropy : Entropy) :
    Guarded settings storage s cookies
      (y.put i ((y.frame i).save settings (sessionSid settings storage) now entropy).1) := by
  obtain ⟨es, hadds, hcopy, hcase⟩ :=
    @save_adds σ settings storage now entropy (y.frame i)
  have hhistory := hadds.history
  have hloaded : ((y.frame i).save settings (sessionSid settings storage) now
      entropy).1.session.dataCopy.toList.isEmpty = false →
      ∃ id, validSid ((y.sessions i).sessionCookie settings) = some id ∧
        (i, Event.loaded id) ∈
          ((y.frame i).save settings (sessionSid settings storage) now entropy).1.history := by
    intro hne
    rw [hcopy] at hne
    obtain ⟨id, hvalid, hmem⟩ := hy.loaded i hne
    refine ⟨id, hvalid, ?_⟩
    rw [hhistory]
    exact List.mem_append_left _ hmem
  obtain hquiet | ⟨id, timeout, data, es₀, rfl, horigin⟩ := hcase
  · apply hy.put hadds _ hloaded
    · intro id hmem
      cases hquiet _ hmem
    · rw [hhistory]
      exact hy.accounted.quiet hquiet
    · intro hmem
      cases hquiet _ hmem
  have hcookie : (y.frame i).session.sessionCookie settings = clientCookie settings cookies i :=
    hy.sessionCookie_eq i
  rw [hcookie] at horigin
  have hquiet : ∀ e ∈ presented (clientCookie settings cookies i) now, e.isQuiet := by
    intro e he
    obtain ⟨id, -, rfl⟩ := List.mem_map.1 he
    rfl
  obtain rfl | ⟨rfl, hvalid, hne, hreset⟩ := horigin
  · have hfresh :=
      Accounted.other (i := i) (e := .generated id) (hy.accounted.quiet (i := i) hquiet) (by simp)
    have hsave := @Accounted.save _ _ i now timeout id data hfresh
      ⟨i, List.mem_append_right _ (List.mem_singleton.2 rfl)⟩
      (.inl ⟨y.history, by rw [List.map_append, List.append_assoc]; rfl⟩)
    have hnone : ∀ e ∈ presented (clientCookie settings cookies i) now ++ [.generated id] ++
        [.call (.save now id timeout data)], e ≠ .reset ∧ ∀ id', e ≠ .loaded id' := by
      intro e he
      simp only [List.mem_append, List.mem_singleton] at he
      obtain (he | rfl) | rfl := he
      · have hq := hquiet e he
        constructor
        · rintro rfl
          cases hq
        · rintro id' rfl
          cases hq
      · simp
      · simp
    apply hy.put hadds _ hloaded
    · intro id' hmem
      exact absurd rfl ((hnone _ hmem).2 id')
    · rw [List.append_assoc, List.append_assoc] at hsave
      rw [hhistory, List.map_append, List.map_append, List.append_assoc]
      exact hsave
    · intro hmem
      exact (hnone _ hmem).1 rfl
  · obtain ⟨id', hvalid', hmem⟩ := hy.loaded i hne
    rw [hy.sessionCookie_eq i, hvalid] at hvalid'
    obtain rfl := Option.some.inj hvalid'
    have hnoreset : (i, Event.reset) ∉ y.history := by
      intro hres
      have htrue : (y.frame i).session.reset = true := hy.reset i hres
      rw [htrue] at hreset
      cases hreset
    have hsave := @Accounted.save _ _ i now timeout id data
      hy.accounted (hy.generated i id hmem) (.inr ⟨hvalid, hmem, hnoreset⟩)
    apply hy.put hadds _ hloaded
    · intro id' hmem
      simp at hmem
    · rw [hhistory]
      exact hsave
    · simp

lemma Guarded.resetSession (hy : Guarded settings storage s cookies y) :
    Guarded settings storage s cookies
      (y.put i (((y.frame i).map fun s => { s with reset := true }).log .reset)) := by
  have hother := Accounted.other (i := i) (e := .reset) hy.accounted (by simp)
  have hsub : ∀ {x}, x ∈ y.history → x ∈ y.history ++ [(i, Event.reset)] := List.mem_append_left _
  refine ⟨?_, ?_, ?_, ?_, ?_, hother⟩
  · show y.storage = storage.run s (callsOf (y.history ++ [(i, .reset)]))
    rw [callsOf_append, hy.storage_eq]
    exact congrArg _ (List.append_nil _).symm
  · intro j
    obtain rfl | hj := eq_or_ne j i
    · rw [System.put_self]
      exact hy.cookies_eq j
    · rw [System.put_of_ne hj]
      exact hy.cookies_eq j
  · intro j hcopy
    have hold : ∃ id, validSid ((y.sessions j).sessionCookie settings) = some id ∧
        (j, Event.loaded id) ∈ y.history := by
      apply hy.loaded j
      obtain rfl | hj := eq_or_ne j i
      · rw [System.put_self] at hcopy
        exact hcopy
      · rw [System.put_of_ne hj] at hcopy
        exact hcopy
    obtain ⟨id, hvalid, hmem⟩ := hold
    refine ⟨id, ?_, hsub hmem⟩
    obtain rfl | hj := eq_or_ne j i
    · rw [System.put_self]
      exact hvalid
    · rw [System.put_of_ne hj]
      exact hvalid
  · intro j hmem
    obtain rfl | hj := eq_or_ne j i
    · rw [System.put_self]
      rfl
    · rw [System.put_of_ne hj]
      obtain hmem | hmem := List.mem_append.1 hmem
      · exact hy.reset j hmem
      · obtain ⟨rfl, -⟩ := Prod.mk.inj (List.mem_singleton.1 hmem)
        exact absurd rfl hj
  · intro j id hmem
    obtain hmem | hmem := List.mem_append.1 hmem
    · obtain ⟨k, hk⟩ := hy.generated j id hmem
      exact ⟨k, hsub hk⟩
    · have heq := (Prod.mk.inj (List.mem_singleton.1 hmem)).2
      cases heq

/-- Every operation of a request keeps what holds between the operations. -/
lemma Guarded.step (hstorage : storage.LoadsLast s) (hy : Guarded settings storage s cookies y)
    (x : ℕ × Op) :
    Guarded settings storage s cookies (y.step settings storage x) := by
  obtain ⟨i, op⟩ := x
  cases op with
  | load now iv => exact hy.load hstorage iv
  | set key value => exact hy.map rfl rfl rfl
  | erase key => exact hy.map rfl rfl rfl
  | clear => exact hy.map rfl rfl rfl
  | expose key exp => exact hy.map rfl rfl rfl
  | age t => exact hy.map rfl rfl rfl
  | defaultAge => exact hy.map rfl rfl rfl
  | expiration h => exact hy.map rfl rfl rfl
  | defaultExpiration => exact hy.map rfl rfl rfl
  | onServer srv => exact hy.map rfl rfl rfl
  | resetSession => exact hy.resetSession
  | save now entropy => exact hy.save entropy

lemma Guarded.run (hstorage : storage.LoadsLast s) (hy : Guarded settings storage s cookies y)
    (steps : List (ℕ × Op)) :
    Guarded settings storage s cookies (y.run settings storage steps) := by
  induction steps generalizing y with
  | nil => exact hy
  | cons x steps ih => exact ih (hy.step hstorage x)

end Steps

/-- An identifier that was removed before other data were saved is not found any more. -/
lemma SavedFresh.load_eq_none {s : σ} (hstorage : storage.LoadsLast s) {cookie id old value : Bytes}
    {i : ℕ} {timeout : ℤ} {before : List (ℕ × Event)} (h : SavedFresh cookie i now id before)
    (hold : validSid cookie = some old) (hne : id ≠ old) (now' : ℤ) :
    (storage.load now' (storage.run s
      (callsOf (before ++ [(i, .call (.save now id timeout value))]))) old).2 = none := by
  obtain ⟨h₀, rfl⟩ := h
  have hcalls :
    callsOf (h₀ ++ (presented cookie now ++ [Event.generated id]).map (fun e => (i, e)) ++
      [(i, .call (.save now id timeout value))]) =
        callsOf h₀ ++ [.remove now old] ++ [.save now id timeout value] := by
    rw [callsOf_append, callsOf_append, callsOf_map, presented, hold]
    rfl
  rw [hcalls, Option.eq_none_iff_forall_not_mem]
  intro x hx
  have hlast := hstorage _ now' old x hx
  rw [Storage.lastWrite_append, Storage.lastWrite_append, Storage.written, if_neg hne,
    Storage.written, if_pos rfl] at hlast
  cases hlast

/-- In every run every identifier under which data are saved was generated.  It was generated for
these data, and the identifier that the client has sent was removed from the storage; or it is the
identifier of the client, and the request has loaded its session from it and did not reset it. -/
theorem run_no_fixation (settings : Settings) (storage : Storage σ) (s : σ)
    (hstorage : storage.LoadsLast s)
    (cookies : ℕ → SortedMap Bytes Bytes) (steps : List (ℕ × Op))
      (before after : List (ℕ × Event)) (i : ℕ)
    (now timeout : ℤ) (id value : Bytes)
    (hsave : ((System.init cookies s).run settings storage steps).history =
      before ++ (i, .call (.save now id timeout value)) :: after) :
    (∃ j, (j, Event.generated id) ∈ before) ∧
      (SavedFresh (clientCookie settings cookies i) i now id before ∧
          (∀ old, validSid (clientCookie settings cookies i) = some old → id ≠ old → ∀ now',
            (storage.load now' (storage.run s
              (callsOf (before ++ [(i, .call (.save now id timeout value))]))) old).2 = none) ∨
        SavedLoaded (clientCookie settings cookies i) i id before) := by
  have hguarded : Guarded settings storage s cookies
      ((System.init cookies s).run settings storage steps) :=
    Guarded.init.run hstorage steps
  obtain ⟨hgenerated, hfresh | hloaded⟩ := hguarded.accounted.origin hsave
  · refine ⟨hgenerated, .inl ⟨hfresh, ?_⟩⟩
    intro old hold hne now'
    exact hfresh.load_eq_none hstorage hold hne now'
  · exact ⟨hgenerated, .inr hloaded⟩

/-- A request that saves a first value. -/
def firstSave : List (ℕ × Op) :=
  [(0, .load 100 []), (0, .set (bytes "user") (bytes "bob")),
    (0, .save 100 ⟨⟨List.replicate 16 0x11, rfl⟩, ⟨List.replicate 6 0x11, rfl⟩, []⟩)]

/-- The cookies of a client with an identifier that the server has not made. -/
def foreignCookies : SortedMap Bytes Bytes :=
  (∅ : SortedMap Bytes Bytes).insert (bytes "cppcms_session") (tagServer :: List.replicate 32 0x61)

/-- The session gets another identifier, and nothing is found under the one of the client. -/
theorem run_no_fixation_first : table.LoadsLast [] ∧ ∀ now',
    (table.load now' (table.run [] (callsOf ((System.init (fun _ => foreignCookies) []).run {} table
      firstSave).history)) (List.replicate 32 0x61)).2 = none := by
  refine ⟨table_loadsLast, fun now' => ?_⟩
  obtain ⟨-, hfresh | hloaded⟩ :=
    run_no_fixation {} table [] table_loadsLast (fun _ => foreignCookies) firstSave
    [(0, .call (.load 100 (List.replicate 32 0x61))),
      (0, .call (.remove 100 (List.replicate 32 0x61))), (0, .generated (List.replicate 32 0x31))]
        [] 0 100 86500 (List.replicate 32 0x31)
    (bytes "\x04\x18\x00\x00userbob") rfl
  · exact hfresh.2 (List.replicate 32 0x61) (by decide) (by decide) now'
  · exact absurd hloaded.1 (by decide)

end Session

end Cppcms
