import Cppcms.Session.Backends

/-!
# From one request to the next

A session that was saved is loaded by a request that sends its cookie back.  The back-end is one of
three; it gives a cookie to the response and finds the data again with this cookie.
-/

namespace Cppcms

namespace Session

variable {σ : Type} {settings : Settings} {storage : Storage σ} {encryptor : Encryptor} {now : ℤ}
  {f g : Frame σ}

/-- The classes of the back-ends. -/
inductive Backend where
  | sid
  | cookies
  | dual (limit : ℕ)
  deriving DecidableEq

/-- The object of a class. -/
def Backend.api (settings : Settings) (storage : Storage σ) (encryptor : Encryptor) :
    Backend → Api σ
  | .sid => sessionSid settings storage
  | .cookies => sessionCookies settings encryptor
  | .dual limit => sessionDual settings storage encryptor limit

/-! ## Identifiers -/

/-- The text of an identifier. -/
def IsSid (id : Bytes) : Prop := id.length = 32 ∧ id.all isLowHexDigit

variable {id : Bytes} {timeout : ℤ} {cookie : Bytes} {ar : Bytes} {entropy : Entropy} {limit : ℕ}
  {n len : ℕ} {x : Bytes × Entry}

lemma validSid_tag (h : IsSid id) : validSid (tagServer :: id) = some id :=
  if_pos ⟨h.1, rfl, h.2⟩

lemma isSid_of_validSid {cookie id : Bytes} (h : validSid cookie = some id) : IsSid id := by
  cases cookie with
  | nil => cases h
  | cons c text =>
    unfold validSid at h
    dsimp only at h
    split_ifs at h with hvalid
    obtain rfl := Option.some.inj h
    exact ⟨hvalid.1, hvalid.2.2⟩

lemma isSid_getNewSid (entropy : Entropy) (f : Frame σ) : IsSid (getNewSid entropy f).2 := by
  constructor
  · show (tohex entropy.sid.toList).length = 32
    rw [length_tohex, entropy.sid.toList_length]
  · exact List.all_eq_true.2 fun c hc => isLowHexDigit_of_mem_tohex hc

/-! ## Saving and loading with a back-end -/

/-- The back-end finds the data with the cookie, up to the deadline. -/
def Restores (settings : Settings) (api : Api σ) (now : ℤ) (s : σ) (cookie : Bytes) (timeout : ℤ)
    (ar : Bytes) : Prop :=
  ∀ (g : Frame σ) (now' : ℤ) (iv : Bytes), g.storage = s →
    g.session.sessionCookie settings = cookie →
    now ≤ now' → now' < timeout →
      ∃ g', api.load now' iv g = (g', some timeout, .returns (some ar)) ∧ g'.session = g.session

/-- What a back-end does when it saves: it gives a cookie to the session. -/
structure Saves (f g : Frame σ) (cookie : Bytes) : Prop where
  session : ∃ cleared, (∀ c ∈ cleared, c.value = []) ∧
    g.session = { f.session with response := f.session.response ++ cleared, tempCookie := cookie }
  text : ∀ c ∈ cookie, isUnreserved c

lemma sessionSid_restores (hstorage : storage.Faithful) {s : σ} {id ar : Bytes} (hid : IsSid id) :
    Restores settings (sessionSid settings storage) now (storage.save now s id timeout ar)
      (tagServer :: id)
      timeout ar := by
  intro g now' iv hs hcookie hnow hlt
  have hload := hstorage.load_save s now now' id timeout ar hnow hlt
  rw [← hs] at hload
  have hcall : g.call storage (.load now' id) =
      ((g.call storage (.load now' id)).1, some (timeout, ar)) :=
    Prod.ext rfl hload
  refine ⟨(g.call storage (.load now' id)).1.log (.loaded id), ?_, rfl⟩
  unfold sessionSid
  dsimp only
  rw [hcookie, validSid_tag hid]
  dsimp only
  rw [hcall]
  exact if_neg hlt.asymm

lemma sessionSid_saves (entropy : Entropy) (f : Frame σ) (ar : Bytes) (timeout : ℤ)
    (newData onServer : Bool) :
    ∃ g s id, (sessionSid settings storage).save now entropy f ar timeout newData onServer =
      (g, .returns ()) ∧
      IsSid id ∧ g.storage = storage.save now s id timeout ar ∧ Saves f g (tagServer :: id) := by
  have htext : ∀ {id}, IsSid id → ∀ c ∈ tagServer :: id, isUnreserved c := by
    intro id hid c hc
    obtain rfl | hc := List.mem_cons.1 hc
    · rfl
    · exact isUnreserved_of_isLowHexDigit (List.all_eq_true.1 hid.2 c hc)
  have hsession : ∀ (g : Frame σ) (id : Bytes), g.session = f.session →
      ∃ cleared : List Cookie, (∀ c ∈ cleared, c.value = []) ∧
        (g.setTempCookie (tagServer :: id)).session =
          { f.session with response := f.session.response ++ cleared, tempCookie :=
            tagServer :: id } := by
    intro g id hg
    refine ⟨[], by simp, ?_⟩
    rw [List.append_nil, Frame.setTempCookie, Frame.map, hg]
  unfold sessionSid
  dsimp only
  cases hvalid : validSid (f.session.sessionCookie settings) with
  | none =>
    have hid := isSid_getNewSid entropy f
    exact ⟨_, f.storage, _, rfl, hid, rfl, hsession _ _ rfl, htext hid⟩
  | some id =>
    cases newData with
    | false =>
      have hid := isSid_of_validSid hvalid
      exact ⟨_, f.storage, id, rfl, hid, rfl, hsession _ _ rfl, htext hid⟩
    | true =>
      have hid := isSid_getNewSid entropy (f.call storage (.remove now id)).1
      exact ⟨_, storage.remove now f.storage id, _, rfl, hid, rfl, hsession _ _ rfl, htext hid⟩

lemma timeT_bounds (n : ℤ) : -(256 ^ 8 / 2) ≤ timeT n ∧ timeT n < 256 ^ 8 / 2 := by
  have hlow := Int.le_bmod (x := n) (m := 2 ^ 64) (by decide)
  have hhigh := Int.bmod_lt (x := n) (m := 2 ^ 64) (by decide)
  unfold timeT
  omega

/-- The text that `session_cookies` encodes. -/
def cipherText (encryptor : Encryptor) (entropy : Entropy) (timeout : ℤ) (ar : Bytes) : Bytes :=
  encryptor.encrypt entropy.iv (littleEndianInt 8 timeout ++ ar)

section Cookies

variable {entropy : Entropy} {timeout : ℤ} {ar : Bytes}
  (hlength : B64url.encodedLength (cipherText encryptor entropy timeout ar).length < 2 ^ 31)
include hlength

lemma sessionCookies_restores (htimeout : -(256 ^ 8 / 2) ≤ timeout ∧ timeout < 256 ^ 8 / 2)
    (s : σ) :
    Restores settings (sessionCookies settings encryptor) now s
      (tagClient :: B64url.encodeRange (cipherText encryptor entropy timeout ar)) timeout ar := by
  intro g now' iv _ hcookie _ hlt
  refine ⟨g, ?_, rfl⟩
  have hdecrypt : encryptor.decrypt iv (cipherText encryptor entropy timeout ar) =
      some (littleEndianInt 8 timeout ++ ar) := encryptor.decrypt_encrypt _ _ _
  have htake : (littleEndianInt 8 timeout ++ ar).take 8 = littleEndianInt 8 timeout :=
    List.take_left' (length_littleEndianInt 8 timeout)
  have hdrop : (littleEndianInt 8 timeout ++ ar).drop 8 = ar :=
    List.drop_left' (length_littleEndianInt 8 timeout)
  have hsize : ¬(littleEndianInt 8 timeout ++ ar).length < 8 := by
    rw [List.length_append, length_littleEndianInt]
    omega
  unfold sessionCookies
  dsimp only
  rw [hcookie]
  dsimp only
  rw [if_neg (not_not.2 rfl), B64url.decode_encodeRange hlength]
  dsimp only
  rw [hdecrypt]
  dsimp only
  rw [if_neg hsize, htake, hdrop, fromLittleEndianInt_littleEndianInt htimeout.1 htimeout.2,
    if_neg hlt.asymm]

lemma sessionCookies_saves (f : Frame σ) (newData : Bool) :
    ∃ g, (sessionCookies settings encryptor).save now entropy f ar timeout newData false =
      (g, .returns ()) ∧
      g.storage = f.storage ∧
      Saves f g (tagClient :: B64url.encodeRange (cipherText encryptor entropy timeout ar)) := by
  refine ⟨f.setTempCookie
    (tagClient :: B64url.encodeRange (cipherText encryptor entropy timeout ar)), ?_, rfl,
    ⟨[], by simp, ?_⟩, ?_⟩
  · unfold sessionCookies
    dsimp only
    rw [if_neg Bool.false_ne_true]
    have hencode := B64url.encode_of_lt hlength
    unfold cipherText at hencode ⊢
    rw [hencode]
  · rw [List.append_nil]
    rfl
  · intro c hc
    obtain rfl | hc := List.mem_cons.1 hc
    · rfl
    · exact B64url.isUnreserved_of_mem_encodeRange hc

end Cookies

lemma session_clearSessionCookie (g : Frame σ) : ∃ cleared : List Cookie,
    (∀ c ∈ cleared, c.value = []) ∧ (g.clearSessionCookie settings now).session =
      { g.session with response := g.session.response ++ cleared } := by
  unfold Frame.clearSessionCookie Frame.map Interface.clearSessionCookie
  dsimp only
  split_ifs
  · refine ⟨[settings.cookie now (-1) [] []], ?_, rfl⟩
    intro c hc
    rw [List.mem_singleton.1 hc]
    rfl
  · exact ⟨[], by simp, by rw [List.append_nil]⟩

lemma session_clear (f : Frame σ) : ∃ cleared : List Cookie,
    (∀ c ∈ cleared, c.value = []) ∧ ((sessionSid settings storage).clear now f).session =
      { f.session with response := f.session.response ++ cleared } := by
  unfold sessionSid
  dsimp only
  cases validSid (f.session.sessionCookie settings) with
  | none => exact session_clearSessionCookie f
  | some id => exact session_clearSessionCookie (f.call storage (.remove now id)).1

/-- The server forgets a session that moves to the client. -/
lemma load_clear (hstorage : storage.Faithful) (f : Frame σ) (now' : ℤ)
    (hid : validSid (f.session.sessionCookie settings) = some id) :
    (storage.load now' ((sessionSid settings storage).clear now f).storage id).2 = none := by
  unfold sessionSid
  dsimp only
  rw [hid]
  exact hstorage.load_remove f.storage now now' id

/-- What is done before the client saves adds nothing but the removal of a cookie. -/
lemma Saves.of_cleared {f' : Frame σ} {cleared : List Cookie}
    (hcleared : ∀ c ∈ cleared, c.value = [])
    (hsession : f'.session = { f.session with response := f.session.response ++ cleared })
    (h : Saves f' g cookie) : Saves f g cookie := by
  obtain ⟨cleared', hcleared', hsession'⟩ := h.session
  refine ⟨⟨cleared ++ cleared', ?_, ?_⟩, h.text⟩
  · intro c hc
    obtain hc | hc := List.mem_append.1 hc
    · exact hcleared c hc
    · exact hcleared' c hc
  · rw [hsession', hsession, List.append_assoc]

/-! ## Saving a session -/

/-- `save` gives these data to the back-end. -/
structure Writes (settings : Settings) (now : ℤ) (entropy : Entropy) (s : Interface) (ar : Bytes) :
    Prop where
  loaded : s.loaded = true
  saved : s.saved = false
  nonempty : (Frame.prepare settings entropy.csrf.toList s).data.toList.isEmpty = false
  changed : (Frame.unchanged (Frame.prepare settings entropy.csrf.toList s) &&
    Frame.isRecent now (Frame.prepare settings entropy.csrf.toList s)) = false
  data : saveData (Frame.prepare settings entropy.csrf.toList s).data = .ok ar

/-- The request as the back-end is given it. -/
def Frame.ready (settings : Settings) (entropy : Entropy) (f : Frame σ) : Frame σ :=
  (f.map (Frame.prepare settings entropy.csrf.toList)).map fun s => { s with tempCookie := [] }

lemma save_of_writes (h : Writes settings now entropy f.session ar) (api : Api σ) :
    f.save settings api now entropy =
      (api.save now entropy (f.ready settings entropy) ar
          ((Frame.prepare settings entropy.csrf.toList f.session).sessionAge now)
          (Frame.prepare settings entropy.csrf.toList f.session).newSession
          (Frame.prepare settings entropy.csrf.toList f.session).onServer).1.finish settings now
        (Frame.unchanged (Frame.prepare settings entropy.csrf.toList f.session))
        (api.save now entropy (f.ready settings entropy) ar
          ((Frame.prepare settings entropy.csrf.toList f.session).sessionAge now)
          (Frame.prepare settings entropy.csrf.toList f.session).newSession
          (Frame.prepare settings entropy.csrf.toList f.session).onServer).2 := by
  unfold Frame.save Frame.ready
  rw [h.loaded, h.saved]
  simp only [Bool.not_true, Bool.or_false, Bool.false_eq_true, if_false]
  unfold Frame.map
  simp only [h.nonempty, h.changed, Bool.false_eq_true, if_false, h.data]

/-- Without data to write nothing is saved. -/
lemma save_of_not_writes (h : ∀ ar, ¬Writes settings now entropy f.session ar) (api : Api σ)
    (hclear : ∀ g : Frame σ, (api.clear now g).session.saved = g.session.saved)
    (hsaved : f.session.saved = false) :
    (f.save settings api now entropy).2 ≠ .undefined ∧
      (f.save settings api now entropy).1.session.saved = false := by
  have hprepare : (Frame.prepare settings entropy.csrf.toList f.session).saved = false := by
    unfold Frame.prepare
    dsimp only
    split_ifs <;> exact hsaved
  unfold Frame.save
  split_ifs with hdone
  · exact ⟨by simp, hsaved⟩
  rw [hsaved, Bool.or_false, Bool.not_eq_true', Bool.not_eq_false] at hdone
  dsimp only
  split_ifs with hempty hcookie hrecent
  · exact ⟨by simp, (hclear _).trans hprepare⟩
  · exact ⟨by simp, hprepare⟩
  · exact ⟨by simp, hprepare⟩
  cases hdata : saveData (f.map (Frame.prepare settings entropy.csrf.toList)).session.data with
  | error what => exact ⟨by simp, hprepare⟩
  | ok ar =>
    refine absurd ⟨hdone, hsaved, ?_, ?_, hdata⟩ (h ar)
    · exact Bool.not_eq_true _ ▸ hempty
    · exact Bool.not_eq_true _ ▸ hrecent

/-! ## The cookie that is sent back -/

/-- The values that a call has written for the session cookie; an empty one removes it. -/
def cookieValues (settings : Settings) (s s' : Interface) : List Bytes :=
  ((s'.response.drop s.response.length).filter fun c =>
    c.name = settings.cookieName).map Cookie.value

/-- The session cookie is given one value, and nothing is written for it behind. -/
def Issues (settings : Settings) (s s' : Interface) (cookie : Bytes) : Prop :=
  (cookieValues settings s s').filter (· ≠ []) = [cookie] ∧
    (cookieValues settings s s').getLast? = some cookie

/-- `update_exposed` has nothing to write for the empty key, which stands for the session cookie. -/
def Interface.LeavesCookie (settings : Settings) (force : Bool) (s : Interface) : Prop :=
  (∀ e, s.data.find [] = some e → Interface.isResent force s.dataCopy ([], e) = false) ∧
    [] ∉ s.removed settings force

/-- The values of the session that `load` reads are numbers of an `int`. -/
def Numeric (data : Data) : Prop :=
  ∀ key ∈ [bytes "_t", bytes "_h", bytes "_s"], ∀ e, data.find key = some e →
    (Interface.readInt e.value).isSome = true

lemma readValues_eq (s : Interface) : (Frame.readValues s).1.data = s.data ∧
    (Frame.readValues s).1.timeoutIn = s.timeoutIn ∧
    ((Frame.readValues s).2 = .returns true ↔ Numeric s.data) := by
  have hfield : ∀ key : String,
    (s.data.find (bytes key)).map (fun x => Interface.readInt x.value) = some none ↔
      ¬∀ e, s.data.find (bytes key) = some e → (Interface.readInt e.value).isSome = true := by
    intro key
    rcases s.data.find (bytes key) with _ | e
    · simp
    · simp
  have hnumeric : Numeric s.data ↔
    ((s.data.find (bytes "_t")).map fun x => Interface.readInt x.value) ≠ some none ∧
      ((s.data.find (bytes "_h")).map fun x => Interface.readInt x.value) ≠ some none ∧
      ((s.data.find (bytes "_s")).map fun x => Interface.readInt x.value) ≠ some none := by
    unfold Numeric
    rw [Ne, Ne, Ne, hfield, hfield, hfield, not_not, not_not, not_not]
    simp only [List.forall_mem_cons, List.not_mem_nil, false_imp_iff, implies_true, and_true]
  rw [hnumeric]
  unfold Frame.readValues
  dsimp only
  split
  · next h => exact ⟨rfl, rfl, iff_of_false (fun h => by cases h) fun hne => hne.1 h⟩
  · split
    · next h => exact ⟨rfl, rfl, iff_of_false (fun h => by cases h) fun hne => hne.2.1 h⟩
    · split
      · next h => exact ⟨rfl, rfl, iff_of_false (fun h => by cases h) fun hne => hne.2.2 h⟩
      · next ht _ hh _ hs => exact ⟨rfl, rfl, iff_of_true rfl ⟨ht, hh, hs⟩⟩

lemma sessionAge_bounds (s : Interface) :
    -(256 ^ 8 / 2) ≤ s.sessionAge now ∧ s.sessionAge now < 256 ^ 8 / 2 :=
  timeT_bounds _

lemma saved_ready (entropy : Entropy) (f : Frame σ) :
    (f.ready settings entropy).session.saved = f.session.saved := by
  unfold Frame.ready Frame.map Frame.prepare
  dsimp only
  split_ifs <;> rfl

lemma response_ready (entropy : Entropy) (f : Frame σ) :
    (f.ready settings entropy).session.response = f.session.response := by
  unfold Frame.ready Frame.map Frame.prepare
  dsimp only
  split_ifs <;> rfl

lemma sessionCookie_ready (entropy : Entropy) (f : Frame σ) :
    (f.ready settings entropy).session.sessionCookie settings =
      f.session.sessionCookie settings := by
  unfold Frame.ready Frame.map Frame.prepare
  dsimp only
  split_ifs <;> rfl

lemma response_finish (g : Frame σ) (force : Bool) :
    (g.finish settings now force (.returns ())).1.session.response = g.session.response ++
      settings.cookie now (g.session.cookieAge now) g.session.tempCookie [] ::
        g.session.exposedCookies settings now force :=
  List.append_assoc ..

lemma leavesCookie_iff {s : Interface} {force : Bool} : s.LeavesCookie settings force ↔
    ∀ c ∈ s.exposedCookies settings now force, c.name ≠ settings.cookieName := by
  constructor
  · rintro ⟨hresent, hremoved⟩ c hc hname
    rcases (Interface.mem_exposedCookies settings now).1 hc with ⟨key, e, hfind, hsent, rfl⟩ |
      ⟨key, hkey, rfl⟩
    · obtain rfl : key = [] := nameOf_injective hname
      rw [hresent e hfind] at hsent
      cases hsent
    · obtain rfl : key = [] := nameOf_injective hname
      exact hremoved hkey
  · intro h
    refine ⟨fun e hfind => ?_, fun hremoved => ?_⟩
    · by_contra hsent
      rw [Bool.not_eq_false] at hsent
      exact h _ ((Interface.mem_exposedCookies settings now).2 (.inl ⟨[], e, hfind, hsent, rfl⟩))
        rfl
    · exact h _ ((Interface.mem_exposedCookies settings now).2 (.inr ⟨[], hremoved, rfl⟩)) rfl

/-- What is written for the session cookie: it may be removed first, and the values behind its own
one are those of the empty key. -/
lemma cookieValues_finish {entropy : Entropy} {cookie : Bytes}
    (h : Saves (f.ready settings entropy) g cookie) (force : Bool) :
    ∃ cleared : List Bytes, (∀ v ∈ cleared, v = []) ∧
      cookieValues settings f.session (g.finish settings now force (.returns ())).1.session =
        cleared ++ cookie ::
        ((g.session.exposedCookies settings now force).filter fun c =>
          c.name = settings.cookieName).map
          Cookie.value := by
  obtain ⟨cleared, hcleared, hsession⟩ := h.session
  have hvalue : urlencode cookie = cookie := urlencode_of_isUnreserved h.text
  have htemp : g.session.tempCookie = cookie := by rw [hsession]
  have hstart : g.session.response = f.session.response ++ cleared := by
    rw [hsession, response_ready]
  refine ⟨(cleared.filter fun c => c.name = settings.cookieName).map Cookie.value, ?_, ?_⟩
  · intro v hv
    obtain ⟨c, hc, rfl⟩ := List.mem_map.1 hv
    exact hcleared c (List.mem_filter.1 hc).1
  · have hown :
        ((settings.cookie now (g.session.cookieAge now) cookie []).name = settings.cookieName :
        Bool) = true :=
      decide_eq_true rfl
    have htext : (settings.cookie now (g.session.cookieAge now) cookie []).value = cookie := hvalue
    unfold cookieValues
    rw [response_finish, hstart, htemp, List.append_assoc, List.drop_left, List.filter_append,
      List.map_append, List.filter_cons, if_pos hown, List.map_cons, htext]

lemma head_cookieValues (h : Saves (f.ready settings entropy) g cookie) (hne : cookie ≠ [])
    (force : Bool) :
    ((cookieValues settings f.session (g.finish settings now force (.returns ())).1.session).filter
      (· ≠ [])).head? = some cookie := by
  obtain ⟨cleared, hcleared, hvalues⟩ := @cookieValues_finish _ settings now _ _ _ _ h force
  have hskip : cleared.filter (· ≠ []) = [] := by
    rw [List.filter_eq_nil_iff]
    intro v hv
    simp [hcleared v hv]
  rw [hvalues, List.filter_append, hskip, List.nil_append, List.filter_cons,
    if_pos (decide_eq_true hne), List.head?_cons]

/-- The session cookie keeps the value that the back-end gave to it, if nothing is written for the
empty key. -/
lemma issues_finish_iff {cookie cookie' : Bytes} (h : Saves (f.ready settings entropy) g cookie)
    (hne : cookie ≠ []) (force : Bool) :
    Issues settings f.session (g.finish settings now force (.returns ())).1.session cookie' ↔
      cookie' = cookie ∧ g.session.LeavesCookie settings force := by
  obtain ⟨cleared, hcleared, hvalues⟩ := @cookieValues_finish _ settings now _ _ _ _ h force
  have hskip : cleared.filter (· ≠ []) = [] := by
    rw [List.filter_eq_nil_iff]
    intro v hv
    simp [hcleared v hv]
  unfold Issues
  rw [@leavesCookie_iff _ now, hvalues, List.filter_append, hskip, List.nil_append,
    List.filter_cons, if_pos (decide_eq_true hne), List.getLast?_append_cons]
  constructor
  · rintro ⟨hone, hlast⟩
    obtain ⟨rfl, hnone⟩ := List.cons.inj hone
    refine ⟨rfl, fun c hc hname => ?_⟩
    have hmem : c.value ∈ ((g.session.exposedCookies settings now force).filter fun c =>
        c.name = settings.cookieName).map Cookie.value :=
      List.mem_map_of_mem (List.mem_filter.2 ⟨hc, decide_eq_true hname⟩)
    -- the last value is one of them, and it is not empty
    rw [List.getLast?_cons_of_ne_nil (List.ne_nil_of_mem hmem)] at hlast
    exact List.filter_eq_nil_iff.1 hnone _ (List.mem_of_getLast? hlast) (decide_eq_true hne)
  · rintro ⟨rfl, hleaves⟩
    have hnone : ((g.session.exposedCookies settings now force).filter fun c =>
        c.name = settings.cookieName) = [] :=
      List.filter_eq_nil_iff.2 fun c hc => by simpa using hleaves c hc
    rw [hnone]
    exact ⟨rfl, rfl⟩

/-- A session that is saved is found again: no buffer is left; up to the deadline, the request after
it loads the same map and the same deadline with the cookie of the response; and a session that was
moved to the client is not kept on the server. -/
structure Survives (settings : Settings) (storage : Storage σ) (encryptor : Encryptor)
    (backend : Backend) (now : ℤ) (entropy : Entropy) (f : Frame σ) : Prop where
  defined : (f.save settings (backend.api settings storage encryptor) now entropy).2 ≠ .undefined
  loads : f.session.saved = false →
    (f.save settings (backend.api settings storage encryptor) now entropy).1.session.saved = true →
    now < (f.save settings (backend.api settings storage encryptor)
      now entropy).1.session.sessionAge now →
    ∃ cookie, Issues settings f.session
        (f.save settings (backend.api settings storage encryptor) now entropy).1.session cookie ∧
      ∀ (g : Frame σ) (now' : ℤ) (iv : Bytes), g.session.loaded = false →
        g.storage =
          (f.save settings (backend.api settings storage encryptor) now entropy).1.storage →
        g.session.sessionCookie settings = cookie → now ≤ now' →
        now' < (f.save settings (backend.api settings storage encryptor)
          now entropy).1.session.sessionAge now →
          (g.load settings (backend.api settings storage encryptor) now' iv).2 = .returns true ∧
            (g.load settings (backend.api settings storage encryptor) now' iv).1.session.data =
              (f.save settings (backend.api settings storage encryptor)
                now entropy).1.session.data ∧
            (g.load settings (backend.api settings storage encryptor) now' iv).1.session.timeoutIn =
              (f.save settings (backend.api settings storage encryptor)
                now entropy).1.session.sessionAge now
  moved : ∀ limit cookie id now', backend = .dual limit → f.session.saved = false →
    (f.save settings (backend.api settings storage encryptor) now entropy).1.session.saved = true →
    ((cookieValues settings f.session
      (f.save settings (backend.api settings storage encryptor) now entropy).1.session).filter
        (· ≠ [])).head? =
        some cookie →
    cookie.head? = some tagClient → validSid (f.session.sessionCookie settings) = some id →
      (storage.load now'
        (f.save settings (backend.api settings storage encryptor) now entropy).1.storage id).2 =
        none

/-- The data go to the client. -/
def Backend.onClient (onServer : Bool) (ar : Bytes) : Backend → Prop
  | .sid => False
  | .cookies => onServer = false
  | .dual limit => onServer = false ∧ ar.length ≤ limit

/-- The size of the text of a cookie is an `int`, or it becomes a negative one; or nothing is left
of it, and the session is over already. -/
def CookieFits (now timeout : ℤ) (n : ℕ) : Prop :=
  B64url.Wraps n → B64url.encodedLength n % 2 ^ 32 = 0 ∧ timeout ≤ now

/-- The size becomes a negative one. -/
def Negative (n : ℕ) : Prop := 2 ^ 31 ≤ B64url.encodedLength n ∧ ¬B64url.Wraps n

/-- The data are refused: they have to stay on the server, or their text has a negative size. -/
def Backend.Refuses (onServer : Bool) (ar : Bytes) (n : ℕ) (backend : Backend) : Prop :=
  (backend = .cookies ∧ onServer = true) ∨ (backend.onClient onServer ar ∧ Negative n)

/-- There is room for the cookie of a session that goes to the client; and of a session that is
saved before its deadline the values that `load` reads are numbers, and nothing is written for the
empty key. -/
def Fits (settings : Settings) (encryptor : Encryptor) (backend : Backend) (now : ℤ)
    (entropy : Entropy) (s : Interface) : Prop :=
  ∀ ar, Writes settings now entropy s ar →
    (backend.onClient (Frame.prepare settings entropy.csrf.toList s).onServer ar →
      CookieFits now ((Frame.prepare settings entropy.csrf.toList s).sessionAge now)
        (cipherText encryptor entropy
        ((Frame.prepare settings entropy.csrf.toList s).sessionAge now) ar).length) ∧
    (¬backend.Refuses (Frame.prepare settings entropy.csrf.toList s).onServer ar
      (cipherText encryptor entropy
        ((Frame.prepare settings entropy.csrf.toList s).sessionAge now) ar).length →
      now < (Frame.prepare settings entropy.csrf.toList s).sessionAge now →
        Numeric (Frame.prepare settings entropy.csrf.toList s).data ∧
          (Frame.prepare settings entropy.csrf.toList s).LeavesCookie settings
            (Frame.unchanged (Frame.prepare settings entropy.csrf.toList s)))

lemma clear_saved (backend : Backend) (g : Frame σ) :
    ((backend.api settings storage encryptor).clear now g).session.saved = g.session.saved := by
  have hclear : ∀ g : Frame σ, (g.clearSessionCookie settings now).session.saved =
      g.session.saved := by
    intro g
    unfold Frame.clearSessionCookie Frame.map Interface.clearSessionCookie
    dsimp only
    split_ifs <;> rfl
  have hsid : ((sessionSid settings storage).clear now g).session.saved = g.session.saved := by
    unfold sessionSid
    dsimp only
    rw [hclear]
    cases validSid (g.session.sessionCookie settings) <;> rfl
  cases backend with
  | sid => exact hsid
  | cookies => exact hclear g
  | dual limit =>
    unfold Backend.api sessionDual
    dsimp only
    split_ifs
    · exact hclear g
    · exact hsid

lemma sessionCookies_save_eq {ar text : Bytes}
    (htext : B64url.encode (cipherText encryptor entropy timeout ar) = .returns text) (f : Frame σ)
    (newData : Bool) :
    (sessionCookies settings encryptor).save now entropy f ar timeout newData false =
      (f.setTempCookie (tagClient :: text), .returns ()) := by
  unfold sessionCookies
  dsimp only
  unfold cipherText at htext
  rw [if_neg Bool.false_ne_true, htext]

/-- The text for the client is written, or there is no memory for it. -/
lemma sessionCookies_save_cases {entropy : Entropy} {timeout : ℤ} {ar : Bytes}
    (hfits : CookieFits now timeout (cipherText encryptor entropy timeout ar).length)
    (htimeout : -(256 ^ 8 / 2) ≤ timeout ∧ timeout < 256 ^ 8 / 2) (f : Frame σ) (newData : Bool) :
    (Negative (cipherText encryptor entropy timeout ar).length ∧
        ∃ what, (sessionCookies settings encryptor).save now entropy f ar timeout newData false =
          (f, .throws what)) ∨
      ¬Negative (cipherText encryptor entropy timeout ar).length ∧
        ∃ g text, (sessionCookies settings encryptor).save now entropy f ar timeout newData false =
            (g, .returns ()) ∧ g.storage = f.storage ∧ Saves f g (tagClient :: text) ∧
          Restores settings (sessionCookies settings encryptor) now g.storage (tagClient :: text)
            timeout ar := by
  by_cases hlength : B64url.encodedLength (cipherText encryptor entropy timeout ar).length < 2 ^ 31
  · obtain ⟨g, hsave, hg, hsaves⟩ :=
      @sessionCookies_saves _ settings _ now _ _ _ hlength f newData
    exact .inr ⟨fun h => hlength.not_ge h.1, g, _, hsave, hg, hsaves,
      sessionCookies_restores hlength htimeout g.storage⟩
  by_cases hwraps : B64url.Wraps (cipherText encryptor entropy timeout ar).length
  · -- the empty text is not found again, but the session is over
    obtain ⟨hzero, hover⟩ := hfits hwraps
    refine .inr ⟨fun h => h.2 hwraps, f.setTempCookie [tagClient], [], ?_, rfl,
      ⟨⟨[], by simp, ?_⟩, by decide +kernel⟩, ?_⟩
    · exact sessionCookies_save_eq (B64url.encode_of_wraps_zero hwraps hzero) f newData
    · rw [List.append_nil]
      rfl
    · intro g now' iv _ _ hnow hlt
      omega
  · obtain ⟨what, hwhat⟩ := B64url.encode_throws (not_lt.1 hlength) hwraps
    refine .inl ⟨⟨not_lt.1 hlength, hwraps⟩, what, ?_⟩
    unfold sessionCookies
    dsimp only
    unfold cipherText at hwhat
    rw [if_neg Bool.false_ne_true, hwhat]

lemma dual_restores_client {s : σ} {text ar : Bytes}
    (h : Restores settings (sessionCookies settings encryptor) now s
      (tagClient :: text) timeout ar) :
    Restores settings (sessionDual settings storage encryptor limit) now s (tagClient :: text)
      timeout ar := by
  intro g now' iv hs hcookie hnow hlt
  unfold sessionDual
  dsimp only
  rw [hcookie, List.head?_cons, if_pos rfl]
  exact h g now' iv hs hcookie hnow hlt

lemma dual_restores_server {s : σ} {text ar : Bytes}
    (h : Restores settings (sessionSid settings storage) now s (tagServer :: text) timeout ar) :
    Restores settings (sessionDual settings storage encryptor limit) now s (tagServer :: text)
      timeout ar := by
  intro g now' iv hs hcookie hnow hlt
  unfold sessionDual
  dsimp only
  rw [hcookie, List.head?_cons, if_neg (by decide)]
  exact h g now' iv hs hcookie hnow hlt

/-- What a back-end does with data that fit: it refuses them with an exception, or it gives out a
cookie with which they are found. -/
lemma api_save (hstorage : storage.Faithful) (backend : Backend) (entropy : Entropy)
    (f : Frame σ) (ar : Bytes)
    {timeout : ℤ} (htime : -(256 ^ 8 / 2) ≤ timeout ∧ timeout < 256 ^ 8 / 2)
      (newData onServer : Bool)
    (hfits : backend.onClient onServer ar →
      CookieFits now timeout (cipherText encryptor entropy timeout ar).length) :
    (backend.Refuses onServer ar (cipherText encryptor entropy timeout ar).length ∧
        ∃ g what, (backend.api settings storage encryptor).save now entropy f ar timeout
          newData onServer =
          (g, .throws what) ∧ g.session.saved = f.session.saved) ∨
      ¬backend.Refuses onServer ar (cipherText encryptor entropy timeout ar).length ∧
        ∃ g tag text, (backend.api settings storage encryptor).save now entropy f ar timeout
          newData onServer =
            (g, .returns ()) ∧ Saves f g (tag :: text) ∧
          Restores settings (backend.api settings storage encryptor) now g.storage
            (tag :: text) timeout ar ∧
          ∀ id now', tag = tagClient → backend ≠ .cookies →
          validSid (f.session.sessionCookie settings) = some id →
            (storage.load now' g.storage id).2 = none := by
  have hserver : tagServer ≠ tagClient := by decide
  cases backend with
  | sid =>
    obtain ⟨g, s, id, hsave, hid, hg, hsaves⟩ := @sessionSid_saves _ settings storage now
      entropy f ar timeout newData onServer
    refine .inr ⟨?_, g, tagServer, id, hsave, hsaves, ?_, fun _ _ htag => absurd htag hserver⟩
    · rintro (⟨h, -⟩ | ⟨h, -⟩)
      · cases h
      · exact h
    · rw [hg]
      exact sessionSid_restores hstorage hid
  | cookies =>
    cases onServer with
    | true => exact .inl ⟨.inl ⟨rfl, rfl⟩, f, _, rfl, rfl⟩
    | false =>
      obtain ⟨hnegative, what, hthrows⟩ | ⟨hnegative, g, text, hsave, -, hsaves, hrestores⟩ :=
        @sessionCookies_save_cases _ settings _ now _ _ _ (hfits rfl) htime f newData
      · exact .inl ⟨.inr ⟨rfl, hnegative⟩, f, what, hthrows, rfl⟩
      · refine .inr ⟨?_, g, tagClient, text, hsave, hsaves, hrestores, fun _ _ _ hne =>
          absurd rfl hne⟩
        rintro (⟨-, h⟩ | ⟨-, h⟩)
        · cases h
        · exact hnegative h
  | dual limit =>
    have hrefuses : (Backend.dual limit).Refuses onServer ar
      (cipherText encryptor entropy timeout ar).length ↔
        ¬(onServer = true ∨ limit < ar.length) ∧
        Negative (cipherText encryptor entropy timeout ar).length := by
      unfold Backend.Refuses Backend.onClient
      rw [or_iff_right (fun h => by cases h.1)]
      dsimp only
      rw [not_or, Bool.not_eq_true, Nat.not_lt]
    rw [hrefuses]
    unfold Backend.api sessionDual
    dsimp only
    split_ifs with honServer hcookie
    · obtain ⟨g, s, id, hsave, hid, hg, hsaves⟩ := @sessionSid_saves _ settings storage now
        entropy f ar timeout newData true
      refine .inr ⟨fun h => h.1 honServer, g, tagServer, id, hsave, hsaves, ?_, fun _ _ htag =>
        absurd htag hserver⟩
      rw [hg]
      exact dual_restores_server (sessionSid_restores hstorage hid)
    · -- the server forgets the session before the client gets it
      obtain ⟨cleared, hcleared, hsession⟩ :=
        @session_clear _ settings storage now f
      obtain ⟨hnegative, what, hthrows⟩ | ⟨hnegative, g, text, hsave, hg, hsaves, hrestores⟩ :=
        @sessionCookies_save_cases _ settings _ now _ _ _
          (hfits (by simpa [Backend.onClient] using honServer)) htime
          ((sessionSid settings storage).clear now f) newData
      · exact .inl ⟨⟨honServer, hnegative⟩, _, what, hthrows, by rw [hsession]⟩
      · refine .inr ⟨fun h => hnegative h.2, g, tagClient, text, hsave,
          hsaves.of_cleared hcleared hsession, dual_restores_client hrestores, ?_⟩
        intro id now' _ _ hvalid
        rw [hg]
        exact load_clear hstorage f now' hvalid
    · obtain ⟨hnegative, what, hthrows⟩ | ⟨hnegative, g, text, hsave, hg, hsaves, hrestores⟩ :=
        @sessionCookies_save_cases _ settings _ now _ _ _
          (hfits (by simpa [Backend.onClient] using honServer)) htime f newData
      · exact .inl ⟨⟨honServer, hnegative⟩, f, what, hthrows, rfl⟩
      · refine .inr ⟨fun h => hnegative h.2, g, tagClient, text, hsave, hsaves,
          dual_restores_client hrestores, ?_⟩
        intro id now' _ _ hvalid
        -- a cookie with an identifier begins with the letter of the server
        cases hcase : f.session.sessionCookie settings with
        | nil =>
          rw [hcase] at hvalid
          cases hvalid
        | cons c rest =>
          rw [hcase] at hvalid hcookie
          unfold validSid at hvalid
          dsimp only at hvalid
          split_ifs at hvalid with hif
          exact absurd (congrArg some hif.2.1) hcookie

/-- The map and the deadline of a session that the back-end has found. -/
lemma load_of_restores {api : Api σ} {s : σ} {cookie ar : Bytes} {m : Data} {n : ℕ}
    (h : Restores settings api now s cookie timeout ar) (hload : loadData ar = some (.ok (m, n)))
    {now' : ℤ} (iv : Bytes) (hloaded : g.session.loaded = false) (hs : g.storage = s)
    (hcookie : g.session.sessionCookie settings = cookie) (hnow : now ≤ now')
    (hlt : now' < timeout) :
    (g.load settings api now' iv).1.session.data = m ∧
      (g.load settings api now' iv).1.session.timeoutIn = timeout ∧
      ((g.load settings api now' iv).2 = .returns true ↔ Numeric m) := by
  obtain ⟨g', hfound, -⟩ := h (g.map (Frame.start settings)) now' iv hs hcookie hnow hlt
  unfold Frame.load
  rw [hloaded, if_neg Bool.false_ne_true]
  dsimp only
  rw [hfound]
  unfold Frame.receive
  dsimp only
  rw [hload]
  exact readValues_eq _

/-- The entries of a session that is saved are short enough, with the token that `save` adds. -/
lemma short_prepare {s : Interface} (hs : ∀ x ∈ s.data.toList, ¬Entry.TooLong x) :
    ∀ x ∈ (Frame.prepare settings entropy.csrf.toList s).data.toList, Entry.Short x := by
  have hinsert : ∀ {m : Data} {key : Bytes} {e : Entry}, (∀ x ∈ m.toList, Entry.Short x) →
      Entry.Short (key, e) → ∀ x ∈ (m.insert key e).toList, Entry.Short x := by
    intro m key e hm he x hx
    obtain rfl | ⟨hx, -⟩ := (SortedMap.mem_insertList m.sorted).1 hx
    · exact he
    · exact hm x hx
  have hshort : ∀ x ∈ s.data.toList, Entry.Short x := by
    intro x hx
    have hlong := hs x hx
    unfold Entry.TooLong at hlong
    unfold Entry.Short
    omega
  have hkey : (bytes "_csrf").length < 2 ^ 32 := by decide
  have htoken : (Interface.generateCsrfToken entropy.csrf.toList).length < 2 ^ 32 := by
    unfold Interface.generateCsrfToken
    rw [B64url.length_encodeRange, entropy.csrf.toList_length]
    decide
  unfold Frame.prepare
  dsimp only
  split_ifs
  · refine hinsert (hinsert hshort ⟨hkey, htoken⟩) ⟨hkey, ?_⟩
    unfold Interface.set
    rw [SortedMap.find_insert, if_pos rfl]
    exact htoken
  · exact hinsert hshort ⟨hkey, htoken⟩
  · exact hshort

section Survives

variable {backend : Backend} {entropy : Entropy}

/-- A back-end writes nothing that `update_exposed` looks at. -/
lemma leavesCookie_of_saves (h : Saves (f.ready settings entropy) g cookie) {force : Bool} :
    g.session.LeavesCookie settings force ↔
      (Frame.prepare settings entropy.csrf.toList f.session).LeavesCookie settings force := by
  obtain ⟨cleared, -, hsession⟩ := h.session
  rw [hsession]
  exact Iff.rfl

lemma survives_of_fits (hstorage : storage.Faithful)
    (hdata : ∀ x ∈ f.session.data.toList, ¬Entry.TooLong x)
    (hfits : Fits settings encryptor backend now entropy f.session) :
    Survives settings storage encryptor backend now entropy f := by
  by_cases hwrites : ∃ ar, Writes settings now entropy f.session ar
  · obtain ⟨ar, hwrites⟩ := hwrites
    have hsave := save_of_writes hwrites (backend.api settings storage encryptor)
    have hload := loadData_of_saveData (short_prepare hdata) hwrites.data
    obtain ⟨-, g, what, hthrows, hsaved⟩ |
        ⟨haccepted, g, tag, text, hreturns, hsaves, hrestores, hmoved⟩ :=
      @api_save _ settings _ _ now hstorage backend entropy (f.ready settings entropy) ar _
        (sessionAge_bounds (Frame.prepare settings entropy.csrf.toList f.session))
        (Frame.prepare settings entropy.csrf.toList f.session).newSession
        (Frame.prepare settings entropy.csrf.toList f.session).onServer (hfits ar hwrites).1
    · rw [hthrows] at hsave
      have hnot :
          (f.save settings (backend.api settings storage encryptor) now entropy).1.session.saved =
          false := by
        rw [hsave]
        exact hsaved.trans ((saved_ready entropy f).trans hwrites.saved)
      refine ⟨?_, ?_, ?_⟩
      · rw [hsave]
        exact fun h => by cases h
      · intro _ htrue
        rw [hnot] at htrue
        cases htrue
      · intro limit cookie id now' _ _ htrue
        rw [hnot] at htrue
        cases htrue
    · rw [hreturns] at hsave
      have hsession : g.session.data = (Frame.prepare settings entropy.csrf.toList f.session).data ∧
          g.session.sessionAge now =
            (Frame.prepare settings entropy.csrf.toList f.session).sessionAge now := by
        obtain ⟨cleared, -, hsession⟩ := hsaves.session
        rw [hsession]
        exact ⟨rfl, rfl⟩
      refine ⟨?_, ?_, ?_⟩
      · rw [hsave]
        exact fun h => by cases h
      · rw [hsave]
        intro _ _ hdeadline
        obtain ⟨hnumeric, hleaves⟩ := (hfits ar hwrites).2 haccepted (hsession.2 ▸ hdeadline)
        refine ⟨tag :: text, (issues_finish_iff hsaves (List.cons_ne_nil tag text) _).2
          ⟨rfl, (leavesCookie_of_saves hsaves).2 hleaves⟩, ?_⟩
        intro g' now' iv hloaded hs hcookie hnow hlt
        have hfound := load_of_restores hrestores hload iv hloaded hs hcookie hnow
          (hsession.2 ▸ hlt)
        exact ⟨hfound.2.2.2 hnumeric, hfound.1.trans hsession.1.symm,
          hfound.2.1.trans hsession.2.symm⟩
      · intro limit cookie id now' hdual _ _ hcookie htag hvalid
        rw [hsave] at hcookie ⊢
        rw [head_cookieValues hsaves (List.cons_ne_nil tag text)] at hcookie
        obtain rfl := Option.some.inj hcookie
        refine hmoved id now' (Option.some.inj htag) ?_ ?_
        · rw [hdual]
          exact fun h => by cases h
        · rw [← hvalid]
          exact congrArg validSid (sessionCookie_ready entropy f)
  · have hnone := fun ar har => hwrites ⟨ar, har⟩
    by_cases hsaved : f.session.saved = false
    · obtain ⟨hdefined, hnot⟩ := save_of_not_writes hnone (backend.api settings storage encryptor)
        (clear_saved backend) hsaved
      refine ⟨hdefined, ?_, ?_⟩
      · intro _ htrue
        rw [hnot] at htrue
        cases htrue
      · intro limit cookie id now' _ _ htrue
        rw [hnot] at htrue
        cases htrue
    · refine ⟨?_, fun h => absurd h hsaved, fun _ _ _ _ _ h => absurd h hsaved⟩
      rw [Bool.not_eq_false] at hsaved
      unfold Frame.save
      rw [hsaved, Bool.or_true, if_pos rfl]
      exact fun h => by cases h

/-- A cookie for which there is no room leaves the buffer, or it is empty. -/
lemma client_save_of_wraps {ar : Bytes} {timeout : ℤ} {onServer : Bool}
    (hclient : backend.onClient onServer ar)
    (hwraps : B64url.Wraps (cipherText encryptor entropy timeout ar).length) (f : Frame σ)
    (newData : Bool) :
    (∃ g, (backend.api settings storage encryptor).save now entropy f ar timeout newData onServer =
        (g, .undefined)) ∨
      (B64url.encodedLength (cipherText encryptor entropy timeout ar).length % 2 ^ 32 = 0 ∧
        ∃ g, (backend.api settings storage encryptor).save now entropy f ar timeout
          newData onServer =
          (g, .returns ()) ∧ Saves f g [tagClient]) := by
  have hcookies : ∀ f : Frame σ,
      (∃ g, (sessionCookies settings encryptor).save now entropy f ar timeout newData false =
        (g, .undefined)) ∨
        (B64url.encodedLength (cipherText encryptor entropy timeout ar).length % 2 ^ 32 = 0 ∧
          ∃ g, (sessionCookies settings encryptor).save now entropy f ar timeout newData false =
            (g, .returns ()) ∧ Saves f g [tagClient]) := by
    intro f
    by_cases hzero :
      B64url.encodedLength (cipherText encryptor entropy timeout ar).length % 2 ^ 32 = 0
    · refine .inr
        ⟨hzero, _, sessionCookies_save_eq (B64url.encode_of_wraps_zero hwraps hzero) f newData, ?_⟩
      exact ⟨⟨[], by simp, by rw [List.append_nil]; rfl⟩, by decide +kernel⟩
    · refine .inl ⟨f, ?_⟩
      have hundefined := B64url.encode_of_wraps hwraps hzero
      unfold sessionCookies
      dsimp only
      unfold cipherText at hundefined
      rw [if_neg Bool.false_ne_true, hundefined]
  cases backend with
  | sid => exact hclient.elim
  | cookies =>
    obtain rfl : onServer = false := hclient
    exact hcookies f
  | dual limit =>
    obtain ⟨rfl, hlimit⟩ : onServer = false ∧ ar.length ≤ limit := hclient
    unfold Backend.api sessionDual
    dsimp only
    rw [if_neg (by simpa using hlimit)]
    split_ifs
    · obtain ⟨cleared, hcleared, hsession⟩ :=
        @session_clear _ settings storage now f
      obtain hundefined | ⟨hzero, g, hsave, hsaves⟩ :=
        hcookies ((sessionSid settings storage).clear now f)
      · exact .inl hundefined
      · exact .inr ⟨hzero, g, hsave, hsaves.of_cleared hcleared hsession⟩
    · exact hcookies f

/-- The empty text of a cookie is no session. -/
lemma load_empty_text {onServer : Bool} (hclient : backend.onClient onServer ar) (g : Frame σ)
    (hloaded : g.session.loaded = false) (hcookie : g.session.sessionCookie settings = [tagClient])
    (iv : Bytes) :
    (g.load settings (backend.api settings storage encryptor) now iv).1.session.data = ∅ := by
  have hstart : (g.map (Frame.start settings)).session.sessionCookie settings = [tagClient] :=
    hcookie
  have hrefused : (sessionCookies settings encryptor).load now iv (g.map (Frame.start settings)) =
      ((g.map (Frame.start settings)).clearSessionCookie settings now, none, .returns none) := by
    have hdecode : B64url.decode [] [] = .returns (true, []) := rfl
    unfold sessionCookies
    dsimp only
    rw [hstart]
    dsimp only
    rw [if_neg (not_not.2 rfl), hdecode]
    dsimp only
    rw [encryptor.decrypt_nil]
  have hapi : (backend.api settings storage encryptor).load now iv (g.map (Frame.start settings)) =
      ((g.map (Frame.start settings)).clearSessionCookie settings now, none, .returns none) := by
    cases backend with
    | sid => exact hclient.elim
    | cookies => exact hrefused
    | dual limit =>
      unfold Backend.api sessionDual
      dsimp only
      rw [hstart, List.head?_cons, if_pos rfl]
      exact hrefused
  obtain ⟨cleared, -, hsession⟩ :=
    @session_clearSessionCookie _ settings now (g.map (Frame.start settings))
  unfold Frame.load
  rw [hloaded, if_neg Bool.false_ne_true]
  dsimp only
  rw [hapi]
  exact congrArg Interface.data hsession

/-- A session that survives has room for its cookie. -/
lemma cookieFits_of_survives (h : Survives settings storage encryptor backend now entropy f)
    (hwrites : Writes settings now entropy f.session ar)
    (hclient :
      backend.onClient (Frame.prepare settings entropy.csrf.toList f.session).onServer ar) :
    CookieFits now ((Frame.prepare settings entropy.csrf.toList f.session).sessionAge now)
      (cipherText encryptor entropy
      ((Frame.prepare settings entropy.csrf.toList f.session).sessionAge now) ar).length := by
  intro hwraps
  have hsave := save_of_writes hwrites (backend.api settings storage encryptor)
  obtain ⟨g, hundefined⟩ | ⟨hzero, g, hreturns, hsaves⟩ := @client_save_of_wraps _ settings
    storage _ now _ _ _ _ _ hclient hwraps (f.ready settings entropy)
    (Frame.prepare settings entropy.csrf.toList f.session).newSession
  · rw [hundefined] at hsave
    refine absurd ?_ h.defined
    rw [hsave]
    rfl
  refine ⟨hzero, not_lt.1 ?_⟩
  intro hlt
  rw [hreturns] at hsave
  obtain ⟨cleared, -, hsession⟩ := hsaves.session
  have hage : g.session.sessionAge now =
      (Frame.prepare settings entropy.csrf.toList f.session).sessionAge now := by
    rw [hsession]
    rfl
  obtain ⟨cookie, hcookie, hloads⟩ :=
    h.loads hwrites.saved (by rw [hsave]; rfl) (by rw [hsave]; exact hage.symm ▸ hlt)
  rw [hsave] at hcookie hloads
  obtain rfl := ((issues_finish_iff hsaves (List.cons_ne_nil tagClient []) _).1 hcookie).1
  -- a request with the cookie finds no session
  let g' : Frame σ :=
    ⟨0, { cookies := (∅ : SortedMap Bytes Bytes).insert settings.cookieName [tagClient] },
      (g.finish settings now
        (Frame.unchanged (Frame.prepare settings entropy.csrf.toList f.session))
        (.returns ())).1.storage, []⟩
  have hfind : g'.session.sessionCookie settings = [tagClient] := by
    show (((∅ : SortedMap Bytes Bytes).insert settings.cookieName [tagClient]).find
      settings.cookieName).getD [] = [tagClient]
    rw [SortedMap.find_insert, if_pos rfl]
    rfl
  obtain ⟨-, hdata, -⟩ := hloads g' now [] rfl rfl hfind le_rfl (hage.symm ▸ hlt)
  rw [load_empty_text hclient g' rfl hfind] at hdata
  have hempty : (Frame.prepare settings entropy.csrf.toList f.session).data = ∅ := by
    rw [hdata]
    show _ = g.session.data
    rw [hsession]
    rfl
  have hne := hwrites.nonempty
  rw [hempty] at hne
  cases hne

/-- A session that survives is read without an exception, and its cookie is not written twice. -/
lemma fits_of_survives (hstorage : storage.Faithful)
    (hdata : ∀ x ∈ f.session.data.toList, ¬Entry.TooLong x)
    (h : Survives settings storage encryptor backend now entropy f) :
    Fits settings encryptor backend now entropy f.session := by
  intro ar hwrites
  refine ⟨cookieFits_of_survives h hwrites, fun haccepted hdeadline => ?_⟩
  have hsave := save_of_writes hwrites (backend.api settings storage encryptor)
  have hload := loadData_of_saveData (short_prepare hdata) hwrites.data
  obtain ⟨hrefused, -⟩ | ⟨-, g, tag, text, hreturns, hsaves, hrestores, -⟩ :=
    @api_save _ settings _ _ now hstorage backend entropy (f.ready settings entropy) ar _
      (sessionAge_bounds (Frame.prepare settings entropy.csrf.toList f.session))
      (Frame.prepare settings entropy.csrf.toList f.session).newSession
      (Frame.prepare settings entropy.csrf.toList f.session).onServer
        (cookieFits_of_survives h hwrites)
  · exact absurd hrefused haccepted
  · rw [hreturns] at hsave
    obtain ⟨cleared, -, hsession⟩ := hsaves.session
    have hage : g.session.sessionAge now =
        (Frame.prepare settings entropy.csrf.toList f.session).sessionAge now := by
      rw [hsession]
      rfl
    obtain ⟨cookie, hcookie, hloads⟩ :=
      h.loads hwrites.saved (by rw [hsave]; rfl) (by rw [hsave]; exact hage.symm ▸ hdeadline)
    rw [hsave] at hcookie hloads
    obtain ⟨rfl, hleaves⟩ := (issues_finish_iff hsaves (List.cons_ne_nil tag text) _).1 hcookie
    -- a request with the cookie, at once
    let g' : Frame σ :=
      ⟨0, { cookies := (∅ : SortedMap Bytes Bytes).insert settings.cookieName (tag :: text) },
        (g.finish settings now
          (Frame.unchanged (Frame.prepare settings entropy.csrf.toList f.session))
          (.returns ())).1.storage, []⟩
    have hfind : g'.session.sessionCookie settings = tag :: text := by
      show (((∅ : SortedMap Bytes Bytes).insert settings.cookieName (tag :: text)).find
        settings.cookieName).getD [] = tag :: text
      rw [SortedMap.find_insert, if_pos rfl]
      rfl
    have hfound := load_of_restores hrestores hload [] (g := g') rfl rfl hfind le_rfl hdeadline
    have houtcome := (hloads g' now [] rfl rfl hfind le_rfl (hage.symm ▸ hdeadline)).1
    exact ⟨hfound.2.2.1 houtcome, (leavesCookie_of_saves hsaves).1 hleaves⟩

/-- A session whose entries are short enough survives to the next request if and only if the size of
its cookie does not overflow, the numbers in it can be read, and nothing else is written for its
cookie. -/
theorem survives_iff (settings : Settings) (storage : Storage σ) (hstorage : storage.Faithful)
    (encryptor : Encryptor) (backend : Backend) (now : ℤ) (entropy : Entropy) (f : Frame σ)
    (hdata : ∀ x ∈ f.session.data.toList, ¬Entry.TooLong x) :
    Survives settings storage encryptor backend now entropy f ↔
      Fits settings encryptor backend now entropy f.session :=
  ⟨fits_of_survives hstorage hdata, survives_of_fits hstorage hdata⟩

end Survives

theorem survives_iff_sid :
    table.Faithful ∧ Survives {} table (Encryptor.hmac (checksum 3) (by decide)) .sid 100
    ⟨⟨List.replicate 16 0, rfl⟩, ⟨List.replicate 6 0, rfl⟩, []⟩
    ⟨0, { cookies := ∅, loaded := true, data :=
      (∅ : Data).insert (bytes "user") ⟨bytes "bob", true⟩ }, [], []⟩ := by
  refine ⟨table_faithful, (survives_iff {} table table_faithful _ .sid 100 _ _ ?_).2 ?_⟩
  · intro x hx
    obtain rfl := List.mem_singleton.1 hx
    unfold Entry.TooLong
    decide
  · intro ar _
    refine ⟨fun hclient => hclient.elim, fun _ _ => ⟨?_, ?_, ?_⟩⟩
    · intro key hkey e he
      rw [SortedMap.find_eq_some] at he
      obtain rfl := (Prod.mk.inj (List.mem_singleton.1 he)).1
      exact absurd hkey (by decide)
    · intro e he
      rw [SortedMap.find_eq_some] at he
      exact absurd (Prod.mk.inj (List.mem_singleton.1 he)).1 (by decide)
    · decide

/-! ## A session that is too large for a cookie -/

lemma bulk_sorted (n len : ℕ) (hn : n ≤ 65536) : (((List.range n).map fun i =>
    (([UInt8.ofNat (i / 256), UInt8.ofNat (i % 256)] : Bytes),
      Entry.mk (List.replicate len 0) false))).Pairwise fun x y => x.1 < y.1 := by
  rw [List.pairwise_map]
  refine (List.pairwise_lt_range (n := n)).imp_of_mem ?_
  intro i j hi hj hij
  have hi' := List.mem_range.1 hi
  have hj' := List.mem_range.1 hj
  have hlt : ∀ {a b : ℕ}, a < b → b < 256 → UInt8.ofNat a < UInt8.ofNat b := by
    intro a b hab hb
    rw [UInt8.lt_iff_toNat_lt, UInt8.toNat_ofNat', UInt8.toNat_ofNat', Nat.mod_eq_of_lt (by omega),
      Nat.mod_eq_of_lt (by omega)]
    exact hab
  show [UInt8.ofNat (i / 256), UInt8.ofNat (i % 256)] <
    [UInt8.ofNat (j / 256), UInt8.ofNat (j % 256)]
  rw [List.cons_lt_cons_iff]
  obtain hdiv | hdiv := (Nat.div_le_div_right hij.le (c := 256)).lt_or_eq
  · exact .inl (hlt hdiv (by omega))
  · refine .inr ⟨congrArg UInt8.ofNat hdiv, ?_⟩
    rw [List.cons_lt_cons_iff]
    exact .inl (hlt (by omega) (by omega))

/-- A map with some entries of the same length. -/
def bulk (n len : ℕ) (hn : n ≤ 65536) : Data := ⟨_, bulk_sorted n len hn⟩

lemma length_saveSteps {l : List (Bytes × Entry)} (hl : ∀ x ∈ l, Entry.Short x) {s s' : Bytes}
    (h : l.foldlM saveStep s = .ok s') :
    s'.length = s.length + (l.map fun x => 4 + x.1.length + x.2.value.length).sum := by
  induction l generalizing s with
  | nil =>
    cases h
    rfl
  | cons x l ih =>
    rw [List.foldlM_cons] at h
    cases hstep : saveStep s x with
    | error e =>
      rw [hstep] at h
      cases h
    | ok s₁ =>
      rw [hstep] at h
      obtain ⟨p, -, -, -, rfl⟩ := saveStep_ok (hl x List.mem_cons_self) hstep
      rw [ih (fun y hy => hl y (List.mem_cons_of_mem _ hy)) h, List.map_cons, List.sum_cons,
        List.length_append, Packed.entry, List.length_append, List.length_append,
        Packed.length_toBytes]
      omega

lemma not_tooLong_of_mem_bulk {hn : n ≤ 65536} (hlen : len < 2097152)
    (hx : x ∈ (bulk n len hn).toList) : ¬Entry.TooLong x := by
  obtain ⟨i, -, rfl⟩ := List.mem_map.1 hx
  unfold Entry.TooLong
  rw [List.length_replicate, List.length_cons, List.length_singleton]
  omega

lemma short_of_mem_bulk {hn : n ≤ 65536} (hlen : len < 2097152) (hx : x ∈ (bulk n len hn).toList) :
    Entry.Short x := by
  have hlong := not_tooLong_of_mem_bulk hlen hx
  unfold Entry.TooLong at hlong
  unfold Entry.Short
  omega

lemma saveData_bulk (n len : ℕ) (hn : n ≤ 65536) (hlen : len < 2097152) :
    ∃ ar, saveData (bulk n len hn) = .ok ar ∧ ar.length = n * (6 + len) := by
  cases hsave : saveData (bulk n len hn) with
  | error e =>
    obtain ⟨x, hx, hlong⟩ :=
      (saveSteps_error_iff (fun x hx => short_of_mem_bulk hlen hx) []).1 ⟨e, hsave⟩
    exact absurd hlong (not_tooLong_of_mem_bulk hlen hx)
  | ok ar =>
    refine ⟨ar, rfl, ?_⟩
    rw [length_saveSteps (fun x hx => short_of_mem_bulk hlen hx) hsave]
    unfold bulk
    rw [List.map_map]
    have hconst : ((fun x : Bytes × Entry => 4 + x.1.length + x.2.value.length) ∘ fun i : ℕ =>
        (([UInt8.ofNat (i / 256), UInt8.ofNat (i % 256)] : Bytes),
          Entry.mk (List.replicate len 0) false)) =
        fun _ => 6 + len := by
      funext i
      rw [Function.comp_apply, List.length_replicate, List.length_cons, List.length_singleton]
    rw [hconst, List.map_const', List.sum_replicate, List.length_range, List.length_nil,
      Nat.zero_add, smul_eq_mul]

/-- A session that is written to a cookie of more than 4 GiB. -/
lemma not_survives_bulk (hn : n ≤ 65536) (hlen : len < 2097152) (entropy : Entropy)
    (hwraps : B64url.Wraps (8 + n * (6 + len) + 1))
    (hmod : B64url.encodedLength (8 + n * (6 + len) + 1) % 2 ^ 32 ≠ 0) :
    ¬Survives {} table (Encryptor.hmac (checksum 3) (by decide)) .cookies 100 entropy
      ⟨0, { cookies := ∅, loaded := true, data := bulk n len hn }, [], []⟩ := by
  intro h
  obtain ⟨ar, hsave, hlength⟩ := saveData_bulk n len hn hlen
  have hpos : 0 < n := by
    rw [Nat.pos_iff_ne_zero]
    rintro rfl
    have hle := hwraps.1
    rw [Nat.zero_mul] at hle
    revert hle
    decide
  have hne : (bulk n len hn).toList.isEmpty = false := by
    rw [List.isEmpty_eq_false_iff]
    intro hnil
    have hzero := congrArg List.length hnil
    unfold bulk at hzero
    rw [List.length_map, List.length_range] at hzero
    exact hpos.ne' hzero
  have hprepare : ∀ random, Frame.prepare {} random
      { cookies := ∅, loaded := true, data := bulk n len hn } =
        { cookies := ∅, loaded := true, data := bulk n len hn, newSession := true } := by
    intro random
    unfold Frame.prepare
    dsimp only
    rw [hne]
    rfl
  have hwrites :
      Writes {} 100 entropy { cookies := ∅, loaded := true, data := bulk n len hn } ar := by
    refine ⟨rfl, rfl, ?_, ?_, ?_⟩
    · rw [hprepare]
      exact hne
    · rw [hprepare]
      unfold Frame.unchanged
      rw [Bool.not_true, Bool.and_false, Bool.false_and]
    · rw [hprepare]
      exact hsave
  have hcipher : ∀ timeout,
    (cipherText (Encryptor.hmac (checksum 3) (by decide)) entropy timeout ar).length =
      8 + n * (6 + len) + 1 := by
    intro timeout
    show (littleEndianInt 8 timeout ++ ar ++ [_]).length = _
    rw [List.length_append, List.length_append, length_littleEndianInt, hlength,
      List.length_singleton]
  have hclient : Backend.onClient (Frame.prepare {} entropy.csrf.toList
      { cookies := ∅, loaded := true, data := bulk n len hn }).onServer ar .cookies := by
    rw [hprepare]
    rfl
  obtain ⟨hzero, -⟩ := cookieFits_of_survives h hwrites hclient (by rw [hcipher]; exact hwraps)
  rw [hcipher] at hzero
  exact hmod hzero

theorem survives_iff_bulk : (∀ x ∈ (bulk 1600 2097151 (by decide)).toList, ¬Entry.TooLong x) ∧
    ¬Survives {} table (Encryptor.hmac (checksum 3) (by decide)) .cookies 100
      ⟨⟨List.replicate 16 0, rfl⟩, ⟨List.replicate 6 0, rfl⟩, []⟩
      ⟨0, { cookies := ∅, loaded := true, data := bulk 1600 2097151 (by decide) }, [], []⟩ :=
  ⟨fun _ hx => not_tooLong_of_mem_bulk (by decide) hx,
    not_survives_bulk (by decide) (by decide) _ (by decide) (by decide)⟩

end Session

end Cppcms
