import Cppcms.Library.Machine
import Cppcms.Session.Fixation
import Cppcms.Session.RoundTrip

/-!
# How long a session lives

A session is saved with a deadline.  A session of fixed age keeps the one with which it was created,
and any other is given a new one as soon as a tenth of its age is over.

The requests of a session are served in any order of their operations.  What one of them loads was
saved by one of them before.  The back-end keeps a list of what was saved, so that it can be spoken
about.
-/

namespace Cppcms

namespace Session

variable {σ : Type}

/-! ## What is saved -/

/-- A request over a storage without the list next to it. -/
def Frame.plain (f : Frame (σ × List (ℤ × Bytes))) : Frame σ :=
  ⟨f.request, f.session, f.storage.1, f.history⟩

/-- A request over a storage with a list next to it. -/
def Frame.withSaves (saves : List (ℤ × Bytes)) (f : Frame σ) : Frame (σ × List (ℤ × Bytes)) :=
  ⟨f.request, f.session, (f.storage, saves), f.history⟩

/-- A back-end that keeps the deadlines and the data that it has saved. -/
def recording (api : Api σ) : Api (σ × List (ℤ × Bytes)) where
  load now iv f := ((api.load now iv f.plain).1.withSaves f.storage.2, (api.load now iv f.plain).2)
  save now entropy f data timeout isNew onServer :=
    match api.save now entropy f.plain data timeout isNew onServer with
    | (g, .returns ()) => (g.withSaves (f.storage.2 ++ [(timeout, data)]), .returns ())
    | (g, outcome) => (g.withSaves f.storage.2, outcome)
  clear now f := (api.clear now f.plain).withSaves f.storage.2

/-! ## Runs -/

/-- The requests of a session, and the time. -/
structure Life (σ : Type) where
  system : System (σ × List (ℤ × Bytes))
  clock : ℤ

/-- The time of an operation. -/
def Op.time : Op → Option ℤ
  | .load now _ => some now
  | .save now _ => some now
  | _ => none

/-- `save` does not return at once. -/
def Interface.Runs (s : Interface) : Prop := s.loaded = true ∧ s.saved = false

/-- `save` gives a session to the back-end that is new. -/
def Interface.Creates (s : Interface) : Prop :=
  s.dataCopy.toList.isEmpty = true ∧ s.data.toList.isEmpty = false

namespace Life

/-- No request has done anything. -/
def init (cookies : ℕ → SortedMap Bytes Bytes) (s : σ) (clock : ℤ) : Life σ :=
  ⟨.init cookies (s, []), clock⟩

/-- What was saved up to now. -/
def saves (l : Life σ) : List (ℤ × Bytes) := l.system.storage.2

variable (settings : Settings) (api : Api σ)

/-- An operation of a request. -/
def step (l : Life σ) (x : ℕ × Op) : Life σ :=
  ⟨l.system.put x.1 ((l.system.frame x.1).apply settings (recording api) x.2),
    x.2.time.getD l.clock⟩

/-- What is asked of the operations for them to be those of one session that is not reset, with the
given mode and age. -/
structure OfSession (mode : Expire) (age : ℤ) (l : Life σ) (x : ℕ × Op) : Prop where
  clock : ∀ now ∈ x.2.time, l.clock ≤ now
  range : ∀ now ∈ x.2.time, -2 ^ 63 ≤ age + now ∧ age + now < 2 ^ 63
  reset : x.2 ≠ .resetSession
  load : ∀ now iv ar, x.2 = .load now iv → (l.system.sessions x.1).loaded = false →
    ((recording api).load now iv ((l.system.frame x.1).map (Frame.start settings))).2.2 =
      .returns (some ar) →
    ∃ timeout, ((recording api).load now iv ((l.system.frame x.1).map (Frame.start settings))).2.1 =
      some timeout ∧
      (timeout, ar) ∈ l.saves
  save : ∀ now entropy, x.2 = .save now entropy → (l.system.sessions x.1).Runs →
    (l.system.sessions x.1).how = mode.code ∧ (l.system.sessions x.1).timeoutVal = age ∧
      ((l.system.sessions x.1).Creates → l.saves = [])

/-- A session of fixed age has one deadline.  Behind a `save` any other has one that is nine tenths
of its age away at least, and not more than its age. -/
structure Lasts (mode : Expire) (age : ℤ) (l : Life σ) (x : ℕ × Op) : Prop where
  fixed : mode = .fixed → ∀ y ∈ (l.step settings api x).saves,
    some y.1 = (l.step settings api x).saves.head?.map Prod.fst
  renewed : mode ≠ .fixed → ∀ now entropy, x.2 = .save now entropy → (l.system.sessions x.1).Runs →
    (l.system.sessions x.1).data.toList.isEmpty = false →
    ((l.system.frame x.1).save settings (recording api) now entropy).2 = .returns () →
    ∃ y, (l.step settings api x).saves.getLast? = some y ∧
      (10 * now + 9 * age < 10 * y.1 ∨ y.1 = now + age) ∧ y.1 ≤ now + age

end Life

/-! ## What the operations keep -/

/-- What no operation changes but `load` and `reset_session`. -/
structure Same (s s' : Interface) : Prop where
  reset : s'.reset = s.reset
  dataCopy : s'.dataCopy = s.dataCopy
  timeoutIn : s'.timeoutIn = s.timeoutIn

lemma Same.refl (s : Interface) : Same s s := ⟨rfl, rfl, rfl⟩

lemma Same.trans {s s' s'' : Interface} (h : Same s s') (h' : Same s' s'') : Same s s'' :=
  ⟨h'.reset.trans h.reset, h'.dataCopy.trans h.dataCopy, h'.timeoutIn.trans h.timeoutIn⟩

/-- A back-end that leaves these fields alone. -/
structure Api.Tame (api : Api σ) : Prop where
  load : ∀ now iv f, Same f.session (api.load now iv f).1.session
  save : ∀ now entropy f data timeout isNew onServer,
    Same f.session (api.save now entropy f data timeout isNew onServer).1.session
  clear : ∀ now f, Same f.session (api.clear now f).session

lemma same_clearSessionCookie (settings : Settings) (now : ℤ) (f : Frame σ) :
    Same f.session (f.clearSessionCookie settings now).session := by
  unfold Frame.clearSessionCookie Frame.map Interface.clearSessionCookie
  dsimp only
  split_ifs
  · exact ⟨rfl, rfl, rfl⟩
  · exact ⟨rfl, rfl, rfl⟩

lemma tame_sessionSid (settings : Settings) (storage : Storage σ) :
    (sessionSid settings storage).Tame where
  load now iv f := by
    unfold sessionSid
    dsimp only
    rcases validSid (f.session.sessionCookie settings) with _ | id
    · exact Same.refl _
    · dsimp only
      generalize hcall : f.call storage (.load now id) = r
      have hsession : r.1.session = f.session := hcall ▸ rfl
      rcases r with ⟨g, _ | ⟨timeout, data⟩⟩
      · exact hsession ▸ Same.refl _
      · dsimp only
        split_ifs
        · exact hsession ▸ Same.refl _
        · exact hsession ▸ Same.refl _
  save now entropy f data timeout isNew onServer := by
    unfold sessionSid
    dsimp only
    rcases validSid (f.session.sessionCookie settings) with _ | id
    · exact ⟨rfl, rfl, rfl⟩
    · dsimp only
      split_ifs
      · exact ⟨rfl, rfl, rfl⟩
      · exact ⟨rfl, rfl, rfl⟩
  clear now f := by
    unfold sessionSid
    dsimp only
    rcases validSid (f.session.sessionCookie settings) with _ | id
    · exact same_clearSessionCookie settings now f
    · exact same_clearSessionCookie settings now (f.call storage (.remove now id)).1

lemma tame_sessionCookies (settings : Settings) (encryptor : Encryptor) :
    (sessionCookies (σ := σ) settings encryptor).Tame where
  load now iv f := by
    have hrefused := same_clearSessionCookie settings now f
    unfold sessionCookies
    dsimp only
    rcases f.session.sessionCookie settings with _ | ⟨c, text⟩
    · exact Same.refl _
    · dsimp only
      split_ifs
      · exact hrefused
      · rcases B64url.decode text [] with ⟨_ | _, cipher⟩ | what | _
        · exact hrefused
        · dsimp only
          rcases encryptor.decrypt iv cipher with _ | tmp
          · exact hrefused
          · dsimp only
            split_ifs
            · exact hrefused
            · exact hrefused
            · exact Same.refl _
        · exact Same.refl _
        · exact Same.refl _
  save now entropy f data timeout isNew onServer := by
    unfold sessionCookies
    dsimp only
    split_ifs
    · exact Same.refl _
    · rcases B64url.encode (encryptor.encrypt entropy.iv (littleEndianInt 8 timeout ++ data)) with
        text | what | _
      · exact ⟨rfl, rfl, rfl⟩
      · exact Same.refl _
      · exact Same.refl _
  clear now f := same_clearSessionCookie settings now f

lemma tame_sessionDual (settings : Settings) (storage : Storage σ) (encryptor : Encryptor)
    (limit : ℕ) :
    (sessionDual settings storage encryptor limit).Tame where
  load now iv f := by
    unfold sessionDual
    dsimp only
    split_ifs
    · exact (tame_sessionCookies settings encryptor).load now iv f
    · exact (tame_sessionSid settings storage).load now iv f
  save now entropy f data timeout isNew onServer := by
    unfold sessionDual
    dsimp only
    split_ifs
    · exact (tame_sessionSid settings storage).save now entropy f data timeout isNew true
    · have hclear := (tame_sessionSid settings storage).clear now f
      exact hclear.trans
        ((tame_sessionCookies settings encryptor).save now entropy _ data timeout isNew false)
    · exact (tame_sessionCookies settings encryptor).save now entropy f data timeout isNew false
  clear now f := by
    unfold sessionDual
    dsimp only
    split_ifs
    · exact (tame_sessionCookies settings encryptor).clear now f
    · exact (tame_sessionSid settings storage).clear now f

lemma tame_api (settings : Settings) (storage : Storage σ) (encryptor : Encryptor)
    (backend : Backend) :
    (backend.api settings storage encryptor).Tame := by
  cases backend with
  | sid => exact tame_sessionSid settings storage
  | cookies => exact tame_sessionCookies settings encryptor
  | dual limit => exact tame_sessionDual settings storage encryptor limit

section Operations

variable {settings : Settings} {api : Api σ} {now : ℤ} {f : Frame (σ × List (ℤ × Bytes))}

lemma same_prepare (random : Bytes) (s : Interface) : Same s (Frame.prepare settings random s) ∧
    (Frame.prepare settings random s).how = s.how ∧
    (Frame.prepare settings random s).timeoutVal = s.timeoutVal := by
  unfold Frame.prepare
  dsimp only
  split_ifs <;> exact ⟨⟨rfl, rfl, rfl⟩, rfl, rfl⟩

lemma isEmpty_insert (m : Data) (key : Bytes) (e : Entry) :
    (m.insert key e).toList.isEmpty = false := by
  by_contra h
  have hnil := List.isEmpty_iff.1 (Bool.eq_true_of_not_eq_false h)
  have hfind : (m.insert key e).find key = some e := by rw [SortedMap.find_insert, if_pos rfl]
  unfold SortedMap.find at hfind
  rw [hnil] at hfind
  cases hfind

/-- The token of a new session does not matter for whether there are data. -/
lemma isEmpty_prepare (random : Bytes) (s : Interface) :
    (Frame.prepare settings random s).data.toList.isEmpty = s.data.toList.isEmpty := by
  rcases hempty : s.data.toList.isEmpty with _ | _
  · unfold Frame.prepare
    dsimp only
    split_ifs
    · exact isEmpty_insert _ _ _
    · exact isEmpty_insert _ _ _
    · exact hempty
  · rw [data_prepare_isEmpty hempty, hempty]

lemma same_finish (force : Bool) (g : Frame σ) (outcome : Outcome Unit) :
    Same g.session (g.finish settings now force outcome).1.session := by
  cases outcome <;> exact ⟨rfl, rfl, rfl⟩

lemma storage_finish (force : Bool) (g : Frame σ) (outcome : Outcome Unit) :
    (g.finish settings now force outcome).1.storage = g.storage := by
  cases outcome <;> rfl

/-- What `save` does with a prepared session: it gives a deadline to the back-end, or it leaves what
was saved. -/
structure SaveSpec (now : ℤ) (f g : Frame (σ × List (ℤ × Bytes))) (prepared : Interface)
    (outcome : Outcome Unit) :
    Prop where
  same : Same f.session g.session
  saves : g.storage.2 = f.storage.2 ∧ (f.session.Runs → f.session.data.toList.isEmpty = false →
      outcome = .returns () → Frame.unchanged prepared = true ∧
      Frame.isRecent now prepared = true) ∨
    f.session.Runs ∧ f.session.data.toList.isEmpty = false ∧
      ∃ ar, g.storage.2 = f.storage.2 ++ [(prepared.sessionAge now, ar)]

lemma recording_save (api : Api σ) (htame : api.Tame) (entropy : Entropy)
    (f : Frame (σ × List (ℤ × Bytes))) (data : Bytes) (timeout : ℤ) (isNew onServer : Bool) :
    Same f.session ((recording api).save now entropy f data timeout isNew onServer).1.session ∧
      (((recording api).save now entropy f data timeout isNew onServer).1.storage.2 = f.storage.2 ∧
          ((recording api).save now entropy f data timeout isNew onServer).2 ≠ .returns () ∨
        ((recording api).save now entropy f data timeout isNew onServer).1.storage.2 =
          f.storage.2 ++ [(timeout, data)]) := by
  have hsame := htame.save now entropy f.plain data timeout isNew onServer
  unfold recording
  dsimp only
  generalize api.save now entropy f.plain data timeout isNew onServer = r at hsame
  rcases r with ⟨g, u | what | _⟩
  · exact ⟨hsame, .inr rfl⟩
  · exact ⟨hsame, .inl ⟨rfl, fun h => by cases h⟩⟩
  · exact ⟨hsame, .inl ⟨rfl, fun h => by cases h⟩⟩

lemma save_spec (htame : api.Tame) (entropy : Entropy) (f : Frame (σ × List (ℤ × Bytes))) :
    SaveSpec now f (f.save settings (recording api) now entropy).1
      (Frame.prepare settings entropy.csrf.toList f.session)
        (f.save settings (recording api) now entropy).2 := by
  have hprepare := @same_prepare settings entropy.csrf.toList f.session
  have hdata := @isEmpty_prepare settings entropy.csrf.toList f.session
  unfold Frame.save
  split_ifs with hdone
  · refine ⟨Same.refl _, .inl ⟨rfl, fun hruns => ?_⟩⟩
    rw [hruns.1, hruns.2] at hdone
    cases hdone
  have hruns : f.session.Runs := by
    rw [Bool.or_eq_true, not_or, Bool.not_eq_true', Bool.not_eq_false, Bool.not_eq_true] at hdone
    exact hdone
  dsimp only
  generalize hg : f.map (Frame.prepare settings entropy.csrf.toList) = g
  have hsession : g.session = Frame.prepare settings entropy.csrf.toList f.session := hg ▸ rfl
  have hstorage : g.storage = f.storage := hg ▸ rfl
  have hsame : Same f.session g.session := hsession ▸ hprepare.1
  rw [← hsession] at hdata ⊢
  split_ifs with hempty hcookie hrecent
  · have hclear := htame.clear now g.plain
    have hkept : Same g.session ((api.clear now g.plain).session.updateExposed settings now true) :=
      ⟨hclear.reset, hclear.dataCopy, hclear.timeoutIn⟩
    have hsaves : g.storage.2 = f.storage.2 := congrArg Prod.snd hstorage
    refine ⟨hsame.trans hkept, .inl ⟨hsaves, fun _ hnonempty => ?_⟩⟩
    rw [hdata, hnonempty] at hempty
    cases hempty
  · have hkept : Same g.session (g.session.updateExposed settings now true) := ⟨rfl, rfl, rfl⟩
    have hsaves : g.storage.2 = f.storage.2 := congrArg Prod.snd hstorage
    refine ⟨hsame.trans hkept, .inl ⟨hsaves, fun _ hnonempty => ?_⟩⟩
    rw [hdata, hnonempty] at hempty
    cases hempty
  · rw [Bool.and_eq_true] at hrecent
    exact ⟨hsame, .inl ⟨congrArg Prod.snd hstorage, fun _ _ _ => hrecent⟩⟩
  · rcases hsave : saveData g.session.data with what | ar
    · exact ⟨hsame, .inl ⟨congrArg Prod.snd hstorage, fun _ _ h => by cases h⟩⟩
    · have hnonempty : f.session.data.toList.isEmpty = false := by
        rw [← hdata]
        exact Bool.eq_false_of_not_eq_true hempty
      obtain ⟨hrecording, hsaves⟩ :=
        recording_save api htame entropy (g.map fun s => { s with tempCookie := [] }) ar
        (g.session.sessionAge now) g.session.newSession g.session.onServer
      dsimp only
      generalize (recording api).save now entropy (g.map fun s => { s with tempCookie := [] }) ar
        (g.session.sessionAge now) g.session.newSession g.session.onServer = r at hrecording hsaves
      have hkept : Same f.session r.1.session :=
        hsame.trans ⟨hrecording.reset, hrecording.dataCopy, hrecording.timeoutIn⟩
      refine ⟨hkept.trans (same_finish _ _ _), ?_⟩
      rw [storage_finish]
      rcases hsaves with ⟨hsaves, houtcome⟩ | hsaves
      · refine .inl ⟨hsaves.trans (congrArg Prod.snd hstorage), fun _ _ hreturns => ?_⟩
        rcases r with ⟨g', _ | what | _⟩
        · exact absurd rfl houtcome
        · cases hreturns
        · cases hreturns
      · refine .inr ⟨hruns, hnonempty, ar, hsaves.trans ?_⟩
        rw [show (g.map fun s => { s with tempCookie := [] }).storage.2 =
          g.storage.2 from rfl, hstorage]

lemma same_readValues (s : Interface) : Same s (Frame.readValues s).1 := by
  unfold Frame.readValues
  dsimp only
  split
  · exact Same.refl s
  · split
    · exact ⟨rfl, rfl, rfl⟩
    · split <;> exact ⟨rfl, rfl, rfl⟩

/-- What `load` does.  It has no copy of the data, unless the back-end gives data and a deadline. -/
structure LoadSpec (settings : Settings) (api : Api σ) (now : ℤ) (iv : Bytes)
    (f g : Frame (σ × List (ℤ × Bytes))) :
    Prop where
  saves : g.storage.2 = f.storage.2
  reset : g.session.reset = f.session.reset
  session : Same f.session g.session ∨
    f.session.loaded = false ∧ (g.session.dataCopy.toList.isEmpty = false →
    ∃ ar, ((recording api).load now iv (f.map (Frame.start settings))).2.2 = .returns (some ar) ∧
      ∀ timeout, ((recording api).load now iv (f.map (Frame.start settings))).2.1 = some timeout →
        g.session.timeoutIn = timeout)

lemma load_spec (htame : api.Tame) (iv : Bytes) (f : Frame (σ × List (ℤ × Bytes))) :
    LoadSpec settings api now iv f (f.load settings (recording api) now iv).1 := by
  unfold Frame.load
  split_ifs with hloaded
  · exact ⟨rfl, rfl, .inl (Same.refl _)⟩
  · have hsame := htame.load now iv (f.map (Frame.start settings)).plain
    have hreset : ((recording api).load now iv (f.map (Frame.start settings))).1.session.reset =
        f.session.reset :=
      hsame.reset
    have hcopy : ((recording api).load now iv
        (f.map (Frame.start settings))).1.session.dataCopy.toList.isEmpty = true := by
      rw [show ((recording api).load now iv (f.map (Frame.start settings))).1.session.dataCopy =
        ∅ from hsame.dataCopy]
      rfl
    have hsaves : ((recording api).load now iv (f.map (Frame.start settings))).1.storage.2 =
      f.storage.2 := rfl
    have hfalse : f.session.loaded = false := Bool.eq_false_of_not_eq_true hloaded
    suffices h : ∀ r : Frame (σ × List (ℤ × Bytes)) × Option ℤ × Outcome (Option Bytes),
        (recording api).load now iv (f.map (Frame.start settings)) = r →
        r.1.session.reset = f.session.reset →
          r.1.session.dataCopy.toList.isEmpty = true → r.1.storage.2 = f.storage.2 →
            LoadSpec settings api now iv f
              (r.1.receive r.2.1 r.2.2).1 from h _ rfl hreset hcopy hsaves
    rintro ⟨g, timeout, result⟩ hr hreset hcopy hsaves
    -- what is loaded by no back-end has no copy
    have hnone : ∀ {P : Prop} (g' : Frame (σ × List (ℤ × Bytes))),
        g'.session.dataCopy = g.session.dataCopy →
        g'.session.dataCopy.toList.isEmpty = false → P := by
      intro P g' heq hnonempty
      have hcopy' : g.session.dataCopy.toList.isEmpty = true := hcopy
      rw [heq, hcopy'] at hnonempty
      cases hnonempty
    rcases result with (_ | ar) | what | _
    · exact ⟨hsaves, hreset, .inr ⟨hfalse, fun h => hnone _ rfl h⟩⟩
    · unfold Frame.receive
      dsimp only
      rcases loadData ar with _ | (e | ⟨data, n⟩)
      · exact ⟨hsaves, hreset, .inr ⟨hfalse, fun h => hnone _ rfl h⟩⟩
      · exact ⟨hsaves, hreset, .inr ⟨hfalse, fun h => hnone _ rfl h⟩⟩
      · have hvalues := same_readValues
          { g.session with
            timeoutIn := timeout.getD g.session.timeoutIn, data := data, dataCopy := data }
        refine ⟨hsaves, hvalues.reset.trans hreset, .inr ⟨hfalse, fun _ => ⟨ar, ?_, ?_⟩⟩⟩
        · rw [hr]
        · intro T hT
          rw [hr] at hT
          refine hvalues.timeoutIn.trans ?_
          show timeout.getD g.session.timeoutIn = T
          rw [show timeout = some T from hT, Option.getD_some]
    · exact ⟨hsaves, hreset, .inr ⟨hfalse, fun h => hnone _ rfl h⟩⟩
    · exact ⟨hsaves, hreset, .inr ⟨hfalse, fun h => hnone _ rfl h⟩⟩

/-- Any other operation changes neither what was loaded nor what was saved. -/
lemma same_apply {op : Op} (hload : ∀ now iv, op ≠ .load now iv)
    (hsave : ∀ now entropy, op ≠ .save now entropy) (hreset : op ≠ .resetSession)
    (f : Frame (σ × List (ℤ × Bytes))) :
    Same f.session (f.apply settings (recording api) op).session ∧
      (f.apply settings (recording api) op).storage.2 = f.storage.2 := by
  cases op with
  | load now iv => exact absurd rfl (hload now iv)
  | save now entropy => exact absurd rfl (hsave now entropy)
  | resetSession => exact absurd rfl hreset
  | set key value => exact ⟨⟨rfl, rfl, rfl⟩, rfl⟩
  | erase key => exact ⟨⟨rfl, rfl, rfl⟩, rfl⟩
  | clear => exact ⟨⟨rfl, rfl, rfl⟩, rfl⟩
  | expose key exp => exact ⟨⟨rfl, rfl, rfl⟩, rfl⟩
  | age t => exact ⟨⟨rfl, rfl, rfl⟩, rfl⟩
  | defaultAge => exact ⟨⟨rfl, rfl, rfl⟩, rfl⟩
  | expiration h => exact ⟨⟨rfl, rfl, rfl⟩, rfl⟩
  | defaultExpiration => exact ⟨⟨rfl, rfl, rfl⟩, rfl⟩
  | onServer srv => exact ⟨⟨rfl, rfl, rfl⟩, rfl⟩

end Operations

/-! ## Deadlines -/

/-- The deadlines of a session up to now. -/
structure Deadlines (mode : Expire) (age clock : ℤ) (saves : List (ℤ × Bytes)) : Prop where
  bounded : ∀ y ∈ saves, timeT y.1 = y.1
  fixed : mode = .fixed → ∀ y ∈ saves, some y.1 = saves.head?.map Prod.fst
  sorted : mode ≠ .fixed → saves.Pairwise fun y z => y.1 ≤ z.1
  upper : mode ≠ .fixed → ∀ y ∈ saves, y.1 ≤ clock + age

section Deadlines

variable {mode : Expire} {age clock now : ℤ} {saves : List (ℤ × Bytes)}

lemma timeT_timeT (n : ℤ) : timeT (timeT n) = timeT n := Int.bmod_bmod

lemma timeT_of_range {n : ℤ} (h : -2 ^ 63 ≤ n) (h' : n < 2 ^ 63) : timeT n = n := by
  unfold timeT
  rw [Int.bmod_eq_of_le]
  · omega
  · omega

lemma Deadlines.mono (h : Deadlines mode age clock saves) (hclock : clock ≤ now) :
    Deadlines mode age now saves :=
  ⟨h.bounded, h.fixed, h.sorted, fun hmode y hy =>
    (h.upper hmode y hy).trans (Int.add_le_add_right hclock age)⟩

lemma Deadlines.append (h : Deadlines mode age clock saves) (hclock : clock ≤ now) {timeout : ℤ}
    (hbounded : timeT timeout = timeout)
    (hfixed : mode = .fixed → saves = [] ∨ ∃ y ∈ saves, y.1 = timeout)
    (hrenewed : mode ≠ .fixed → timeout = age + now) (ar : Bytes) :
    Deadlines mode age now (saves ++ [(timeout, ar)]) := by
  refine ⟨?_, fun hmode => ?_, fun hmode => ?_, fun hmode => ?_⟩
  · intro y hy
    rcases List.mem_append.1 hy with hy | hy
    · exact h.bounded y hy
    · rw [List.mem_singleton.1 hy]
      exact hbounded
  · rcases hfixed hmode with rfl | ⟨z, hz, hzeq⟩
    · intro y hy
      rw [List.nil_append, List.mem_singleton] at hy
      rw [hy]
      rfl
    · have hhead : (saves ++ [(timeout, ar)]).head? = saves.head? := by
        rcases saves with _ | ⟨x, saves⟩
        · cases hz
        · rfl
      intro y hy
      rw [hhead]
      rcases List.mem_append.1 hy with hy | hy
      · exact h.fixed hmode y hy
      · rw [List.mem_singleton.1 hy, ← hzeq]
        exact h.fixed hmode z hz
  · refine List.pairwise_append.2 ⟨h.sorted hmode, List.pairwise_singleton _ _, ?_⟩
    intro y hy z hz
    have hupper := h.upper hmode y hy
    rw [List.mem_singleton.1 hz, hrenewed hmode]
    dsimp only
    omega
  · intro y hy
    rcases List.mem_append.1 hy with hy | hy
    · have hupper := h.upper hmode y hy
      omega
    · rw [List.mem_singleton.1 hy, hrenewed hmode]
      dsimp only
      omega

end Deadlines

/-! ## The run of a session -/

namespace Life

variable {settings : Settings} {api : Api σ} {mode : Expire} {age : ℤ} {l : Life σ} {x : ℕ × Op}

/-- What holds between the operations: a request that has loaded the session knows a deadline of it.
-/
structure Sound (mode : Expire) (age : ℤ) (l : Life σ) : Prop where
  reset : ∀ i, (l.system.sessions i).reset = false
  known : ∀ i, (l.system.sessions i).dataCopy.toList.isEmpty = false →
    ∃ y ∈ l.saves, y.1 = (l.system.sessions i).timeoutIn
  deadlines : Deadlines mode age l.clock l.saves

lemma sound_init (mode : Expire) (age : ℤ) (cookies : ℕ → SortedMap Bytes Bytes) (s : σ)
    (clock : ℤ) :
    Sound mode age (init cookies s clock) where
  reset _ := rfl
  known _ h := by cases h
  deadlines :=
    { bounded := fun _ h => by cases h
      fixed := fun _ _ h => by cases h
      sorted := fun _ => List.Pairwise.nil
      upper := fun _ _ h => by cases h }

variable {clock : ℤ} {i : ℕ} {entropy : Entropy} {now : ℤ}

/-- An operation of a request leaves the others alone. -/
lemma Sound.put (h : Sound mode age l) {g : Frame (σ × List (ℤ × Bytes))}
    (hreset : g.session.reset = false) (hsaves : l.saves ⊆ g.storage.2)
    (hknown : g.session.dataCopy.toList.isEmpty = false →
      ∃ y ∈ g.storage.2, y.1 = g.session.timeoutIn)
    (hdeadlines : Deadlines mode age clock g.storage.2) :
    Sound mode age ⟨l.system.put i g, clock⟩ where
  reset j := by
    by_cases hj : j = i
    · rw [hj, System.put_self]
      exact hreset
    · rw [System.put_of_ne hj]
      exact h.reset j
  known j hj := by
    by_cases heq : j = i
    · rw [heq, System.put_self] at hj ⊢
      exact hknown hj
    · rw [System.put_of_ne heq] at hj ⊢
      obtain ⟨y, hy, hyeq⟩ := h.known j hj
      exact ⟨y, hsaves hy, hyeq⟩
  deadlines := hdeadlines

/-- An operation that keeps what the request has loaded. -/
lemma Sound.put_same (h : Sound mode age l) {g : Frame (σ × List (ℤ × Bytes))}
    (hsame : Same (l.system.sessions i) g.session) (hsaves : l.saves ⊆ g.storage.2)
    (hdeadlines : Deadlines mode age clock g.storage.2) :
    Sound mode age ⟨l.system.put i g, clock⟩ := by
  refine h.put (hsame.reset.trans (h.reset i)) hsaves (fun hcopy => ?_) hdeadlines
  rw [hsame.dataCopy] at hcopy
  obtain ⟨y, hy, hyeq⟩ := h.known i hcopy
  exact ⟨y, hsaves hy, hyeq.trans hsame.timeoutIn.symm⟩

/-- What a `save` of the session gives to the back-end. -/
lemma sessionAge_of_ofSession (hx : OfSession settings api mode age l x)
    (hop : x.2 = .save now entropy) (hruns : (l.system.sessions x.1).Runs) :
    (mode ≠ .fixed → (Frame.prepare settings entropy.csrf.toList (l.system.sessions x.1)).sessionAge
      now = age + now) ∧
      (mode = .fixed →
        (Frame.prepare settings entropy.csrf.toList (l.system.sessions x.1)).newSession = false →
        (Frame.prepare settings entropy.csrf.toList (l.system.sessions x.1)).sessionAge now =
          timeT (l.system.sessions x.1).timeoutIn) := by
  obtain ⟨hhow, hage, -⟩ := hx.save now entropy hop hruns
  obtain ⟨hlow, hhigh⟩ := hx.range now (by rw [hop]; rfl)
  obtain ⟨hsame, hhow', hage'⟩ := @same_prepare settings entropy.csrf.toList (l.system.sessions x.1)
  unfold Interface.sessionAge
  constructor
  · intro hmode
    have hcode : mode.code = Expire.browser.code ∨ mode.code = Expire.renew.code := by
      cases mode with
      | fixed => exact absurd rfl hmode
      | renew => exact .inr rfl
      | browser => exact .inl rfl
    rw [hhow', hhow, hage', hage,
      if_pos (by rcases hcode with hcode | hcode; exacts [.inl hcode, .inr (.inl hcode)])]
    exact timeT_of_range hlow hhigh
  · rintro rfl hnew
    have hnot : ¬ (Expire.fixed.code = Expire.browser.code ∨ Expire.fixed.code = Expire.renew.code ∨
        Expire.fixed.code = Expire.fixed.code ∧
          (Frame.prepare settings entropy.csrf.toList (l.system.sessions x.1)).newSession =
            true) := by
      rw [hnew]
      decide
    rw [hhow', hhow, if_neg hnot, hsame.timeoutIn]

/-- A session that is not new was loaded. -/
lemma Sound.known_of_not_new (h : Sound mode age l) {random : Bytes}
    (hdata : (l.system.sessions i).data.toList.isEmpty = false)
    (hnew : (Frame.prepare settings random (l.system.sessions i)).newSession = false) :
    ∃ y ∈ l.saves, y.1 = (l.system.sessions i).timeoutIn :=
  h.known i (prepare_not_new hdata hnew).1

/-- The deadline of a `save` is one that the session may have. -/
lemma Sound.deadlines_save (h : Sound mode age l) (hx : OfSession settings api mode age l x)
    (hop : x.2 = .save now entropy) (hruns : (l.system.sessions x.1).Runs)
    (hdata : (l.system.sessions x.1).data.toList.isEmpty = false) (ar : Bytes) :
    Deadlines mode age now (l.saves ++
      [((Frame.prepare settings entropy.csrf.toList (l.system.sessions x.1)).sessionAge now,
        ar)]) := by
  obtain ⟨hrenewed, hfixed⟩ := sessionAge_of_ofSession hx hop hruns
  have hclock := hx.clock now (by rw [hop]; rfl)
  have hbounded :
    timeT ((Frame.prepare settings entropy.csrf.toList (l.system.sessions x.1)).sessionAge now) =
      (Frame.prepare settings entropy.csrf.toList (l.system.sessions x.1)).sessionAge now :=
        timeT_timeT _
  refine h.deadlines.append hclock hbounded (fun hmode => ?_) hrenewed ar
  have hnew' := (@prepare_fields settings entropy.csrf.toList (l.system.sessions x.1)).2.2.2
  by_cases hnew : (Frame.prepare settings entropy.csrf.toList (l.system.sessions x.1)).newSession =
    true
  · -- the session is created
    rw [hnew, h.reset, hdata, Bool.or_false, Bool.not_false, Bool.and_true] at hnew'
    exact .inl ((hx.save now entropy hop hruns).2.2 ⟨hnew'.symm, hdata⟩)
  · have hold := Bool.eq_false_of_not_eq_true hnew
    obtain ⟨y, hy, hyeq⟩ := h.known_of_not_new hdata hold
    refine .inr ⟨y, hy, ?_⟩
    rw [hfixed hmode hold, ← hyeq, h.deadlines.bounded y hy]

lemma Sound.step (h : Sound mode age l) (htame : api.Tame)
    (hx : OfSession settings api mode age l x) :
    Sound mode age (l.step settings api x) := by
  obtain ⟨i, op⟩ := x
  have hclock : l.clock ≤ op.time.getD l.clock := by
    rcases htime : op.time with _ | now
    · exact le_refl _
    · exact hx.clock now htime
  have hother : (∀ now iv, op ≠ .load now iv) → (∀ now entropy, op ≠ .save now entropy) →
      Sound mode age (l.step settings api (i, op)) := by
    intro hload hsave
    obtain ⟨hsame, hsaves⟩ := @same_apply σ settings api op hload hsave hx.reset (l.system.frame i)
    refine h.put_same hsame ?_ ?_
    · rw [hsaves]
      exact List.Subset.refl _
    · rw [hsaves]
      exact h.deadlines.mono hclock
  cases op with
  | load now iv =>
    have hspec : LoadSpec settings api now iv (l.system.frame i)
        ((l.system.frame i).load settings (recording api) now iv).1 := load_spec htame iv _
    have hdeadlines : Deadlines mode age now
        ((l.system.frame i).load settings (recording api) now iv).1.storage.2 := by
      rw [hspec.saves]
      exact h.deadlines.mono hclock
    have hsubset :
        l.saves ⊆ ((l.system.frame i).load settings (recording api) now iv).1.storage.2 := by
      rw [hspec.saves]
      exact List.Subset.refl _
    rcases hspec.session with hsame | ⟨hloaded, hcopy⟩
    · exact h.put_same hsame hsubset hdeadlines
    · refine h.put (hspec.reset.trans (h.reset i)) hsubset (fun hnonempty => ?_) hdeadlines
      obtain ⟨ar, hresult, htimeout⟩ := hcopy hnonempty
      obtain ⟨timeout, hanswer, hmem⟩ := hx.load now iv ar rfl hloaded hresult
      exact ⟨(timeout, ar), hsubset hmem, (htimeout timeout hanswer).symm⟩
  | save now entropy =>
    have hspec : SaveSpec now (l.system.frame i)
      ((l.system.frame i).save settings (recording api) now entropy).1
        (Frame.prepare settings entropy.csrf.toList (l.system.frame i).session)
        ((l.system.frame i).save settings (recording api) now entropy).2 :=
          save_spec htame entropy _
    have hkept :
      l.saves ⊆ ((l.system.frame i).save settings (recording api) now entropy).1.storage.2 ∧
        Deadlines mode age now
          ((l.system.frame i).save settings (recording api) now entropy).1.storage.2 := by
      rcases hspec.saves with ⟨hsaves, -⟩ | ⟨hruns, hdata, ar, hsaves⟩
      · rw [hsaves]
        exact ⟨List.Subset.refl _, h.deadlines.mono hclock⟩
      · rw [hsaves]
        exact ⟨List.subset_append_left _ _, h.deadlines_save hx rfl hruns hdata ar⟩
    exact h.put_same hspec.same hkept.1 hkept.2
  | resetSession => exact absurd rfl hx.reset
  | set key value => exact hother (fun _ _ h => by cases h) (fun _ _ h => by cases h)
  | erase key => exact hother (fun _ _ h => by cases h) (fun _ _ h => by cases h)
  | clear => exact hother (fun _ _ h => by cases h) (fun _ _ h => by cases h)
  | expose key exp => exact hother (fun _ _ h => by cases h) (fun _ _ h => by cases h)
  | age t => exact hother (fun _ _ h => by cases h) (fun _ _ h => by cases h)
  | defaultAge => exact hother (fun _ _ h => by cases h) (fun _ _ h => by cases h)
  | expiration how => exact hother (fun _ _ h => by cases h) (fun _ _ h => by cases h)
  | defaultExpiration => exact hother (fun _ _ h => by cases h) (fun _ _ h => by cases h)
  | onServer srv => exact hother (fun _ _ h => by cases h) (fun _ _ h => by cases h)

/-- A session that is not saved again has more than nine tenths of its age left. -/
lemma lt_of_isRecent (hx : OfSession settings api mode age l x)
    (hop : x.2 = .save now entropy) (hruns : (l.system.sessions x.1).Runs) (hmode : mode ≠ .fixed)
    (hrecent : Frame.isRecent now
      (Frame.prepare settings entropy.csrf.toList (l.system.sessions x.1)) = true) :
    10 * now + 9 * age < 10 * (l.system.sessions x.1).timeoutIn := by
  obtain ⟨hhow, hage, -⟩ := hx.save now entropy hop hruns
  obtain ⟨hsame, hhow', hage'⟩ := @same_prepare settings entropy.csrf.toList (l.system.sessions x.1)
  have hcode : decide (mode.code = Expire.fixed.code) = false := by
    cases mode with
    | fixed => exact absurd rfl hmode
    | renew => rfl
    | browser => rfl
  unfold Frame.isRecent at hrecent
  rw [hhow', hhow, hage', hage, hsame.timeoutIn, hcode, Bool.false_or, Bool.and_eq_true,
    decide_eq_true_iff] at hrecent
  have hlt := hrecent.2
  omega

/-- The last deadline is the latest one. -/
lemma getLast_of_mem {saves : List (ℤ × Bytes)} (hsorted : saves.Pairwise fun y z => y.1 ≤ z.1)
    {y : ℤ × Bytes} (hy : y ∈ saves) : ∃ z, saves.getLast? = some z ∧ z ∈ saves ∧ y.1 ≤ z.1 := by
  induction saves using List.reverseRecOn with
  | nil => cases hy
  | append_singleton saves z _ =>
    refine ⟨z, List.getLast?_concat, List.mem_append_right _ (List.mem_singleton_self z), ?_⟩
    rcases List.mem_append.1 hy with hy | hy
    · exact (List.pairwise_append.1 hsorted).2.2 y hy z (List.mem_singleton_self z)
    · rw [List.mem_singleton.1 hy]

lemma Sound.lasts (h : Sound mode age l) (htame : api.Tame)
    (hx : OfSession settings api mode age l x) :
    Lasts settings api mode age l x := by
  have hstep := h.step htame hx
  refine ⟨hstep.deadlines.fixed, ?_⟩
  intro hmode now entropy hop hruns hdata hreturns
  obtain ⟨i, op⟩ := x
  subst hop
  have hspec : SaveSpec now (l.system.frame i)
    ((l.system.frame i).save settings (recording api) now entropy).1
      (Frame.prepare settings entropy.csrf.toList (l.system.frame i).session)
      ((l.system.frame i).save settings (recording api) now entropy).2 := save_spec htame entropy _
  have hage := (sessionAge_of_ofSession hx rfl hruns).1 hmode
  rcases hspec.saves with ⟨hsaves, hrecent⟩ | ⟨-, -, ar, hsaves⟩
  · -- the session is not saved again
    obtain ⟨hunchanged, hrecent⟩ := hrecent hruns hdata hreturns
    have hnew : (Frame.prepare settings entropy.csrf.toList (l.system.sessions i)).newSession =
        false := by
      unfold Frame.unchanged at hunchanged
      rw [Bool.and_eq_true, Bool.not_eq_true'] at hunchanged
      exact hunchanged.2
    have hlong := lt_of_isRecent hx rfl hruns hmode hrecent
    obtain ⟨y, hy, hyeq⟩ := h.known_of_not_new hdata hnew
    obtain ⟨z, hlast, hz, hle⟩ := getLast_of_mem (h.deadlines.sorted hmode) hy
    have hupper := h.deadlines.upper hmode z hz
    have hclock : l.clock ≤ now := hx.clock now rfl
    refine ⟨z, by
      rw [show (l.step settings api (i, .save now entropy)).saves = l.saves from hsaves, hlast],
      .inl ?_, ?_⟩
    · have hknown : y.1 = (l.system.sessions i).timeoutIn := hyeq
      omega
    · omega
  · refine ⟨_, by
      rw [show (l.step settings api (i, .save now entropy)).saves = _ from hsaves,
        List.getLast?_concat], ?_⟩
    have heq : (Frame.prepare settings entropy.csrf.toList (l.system.sessions i)).sessionAge now =
        now + age := by
      rw [hage, Int.add_comm]
    exact ⟨.inr heq, le_of_eq heq⟩

end Life

/-- In a run of a session that is not reset, a session of fixed age keeps the deadline that it was
created with, and any other has, behind a `save`, a deadline between nine tenths of its age and its
age. -/
theorem run_lasts (settings : Settings) (storage : Storage σ) (encryptor : Encryptor)
    (backend : Backend)
    (mode : Expire) (age : ℤ) (cookies : ℕ → SortedMap Bytes Bytes) (s : σ) (clock : ℤ)
      (steps : List (ℕ × Op))
    (hsteps : Machine.Obeys (Life.step settings (backend.api settings storage encryptor))
      (Life.OfSession settings (backend.api settings storage encryptor) mode age)
        (Life.init cookies s clock) steps) :
    Machine.Obeys (Life.step settings (backend.api settings storage encryptor))
      (Life.Lasts settings (backend.api settings storage encryptor) mode age)
        (Life.init cookies s clock) steps :=
  have htame := tame_api settings storage encryptor backend
  hsteps.of_invariant (fun _ _ h hx => Life.Sound.step h htame hx)
    (Life.sound_init mode age cookies s clock)
    fun _ _ h hx => Life.Sound.lasts h htame hx

/-- A session that is created by one request and loaded by another one. -/
def visits : List (ℕ × Op) :=
  [(0, .load 100 []), (0, .set (bytes "user") (bytes "bob")),
    (0, .save 100 ⟨⟨List.replicate 16 0, rfl⟩, ⟨List.replicate 6 0, rfl⟩, []⟩), (1, .load 200 []),
    (1, .save 200 ⟨⟨List.replicate 16 0, rfl⟩, ⟨List.replicate 6 0, rfl⟩, []⟩)]

/-- The cookies of the two requests. -/
def visitCookies (i : ℕ) : SortedMap Bytes Bytes :=
  if i = 1 then (∅ : SortedMap Bytes Bytes).insert (bytes "cppcms_session")
    (tagServer :: List.replicate 32 0x30) else ∅

theorem run_lasts_visits :
    Machine.Obeys
      (Life.step {} (Backend.api {} table (Encryptor.hmac (checksum 3) (by decide)) .sid))
    (Life.Lasts {} (Backend.api {} table (Encryptor.hmac (checksum 3) (by decide)) .sid)
      .browser 86400)
    (Life.init visitCookies [] 100) visits := by
  refine run_lasts {} table (Encryptor.hmac (checksum 3) (by decide))
    .sid .browser 86400 visitCookies [] 100 visits
    ⟨?_, ?_, ?_, ?_, ?_, trivial⟩
  · refine ⟨?_, ?_, (fun h => by cases h), ?_, (fun now entropy h => by cases h)⟩
    · rintro now ⟨⟩
      decide
    · rintro now ⟨⟩
      decide
    · rintro now iv ar ⟨⟩ - hanswer
      have hvalue := hanswer.symm.trans (show _ = Outcome.returns none by decide)
      cases hvalue
  · refine ⟨?_, ?_, (fun h => by cases h), (fun now iv ar h => by cases h),
      (fun now entropy h => by cases h)⟩
    · rintro now ⟨⟩
    · rintro now ⟨⟩
  · refine ⟨?_, ?_, (fun h => by cases h), (fun now iv ar h => by cases h), ?_⟩
    · rintro now ⟨⟩
      decide
    · rintro now ⟨⟩
      decide
    · rintro now entropy ⟨⟩ -
      exact ⟨by decide, by decide, fun _ => by decide⟩
  · refine ⟨?_, ?_, (fun h => by cases h), ?_, (fun now entropy h => by cases h)⟩
    · rintro now ⟨⟩
      decide
    · rintro now ⟨⟩
      decide
    · rintro now iv ar ⟨⟩ - hanswer
      have hvalue := hanswer.symm.trans
        (show _ = Outcome.returns (some (bytes "\x04\x18\x00\x00userbob")) by decide)
      cases hvalue
      exact ⟨86500, by decide, by decide⟩
  · refine ⟨?_, ?_, (fun h => by cases h), (fun now iv ar h => by cases h), ?_⟩
    · rintro now ⟨⟩
      decide
    · rintro now ⟨⟩
      decide
    · rintro now entropy ⟨⟩ -
      exact ⟨by decide, by decide, fun h => absurd h.1 (by decide)⟩

end Session

end Cppcms
