import Cppcms.Base.Numbers
import Cppcms.Encoding.Base64
import Cppcms.Session.Codec
import Cppcms.Session.Storage

/-!
# The session of a request

`session_interface` of `session_interface.cpp`.  An object of this class belongs to a request: it
has the cookies that the client has sent and writes cookies to the response.  The back-end is one of
the classes of `session_api.h`; what it does to the storage is written down in a history, so that it
can be spoken about later.  The time is the same during a call.
-/

namespace Cppcms

namespace Session

/-! ## Settings -/

/-- `session.expire`. -/
inductive Expire where
  | fixed
  | renew
  | browser
  deriving DecidableEq, Repr

/-- The values of the enumeration of the class.  A session may hold other numbers. -/
def Expire.code : Expire → ℤ
  | .fixed => 0
  | .renew => 1
  | .browser => 2

/-- `session.cookies.expiration_method`. -/
inductive ExpirationMethod where
  | both
  | maxAge
  | expires
  deriving DecidableEq, Repr

/-- What every cookie of a session is given. -/
structure CookieAttributes where
  domain : Bytes := []
  path : Bytes := bytes "/"
  secure : Bool := false
  httponly : Bool := false
  samesiteNone : Bool := false
  samesiteLax : Bool := false
  samesiteStrict : Bool := false
  deriving DecidableEq, Repr

/-- The cached settings of the sessions; the name of the cookie is `session.cookies.prefix`. -/
structure Settings where
  timeout : ℤ := 24 * 3600
  expire : Expire := .browser
  cookieName : Bytes := bytes "cppcms_session"
  attributes : CookieAttributes := {}
  timeShift : ℤ := 0
  expirationMethod : ExpirationMethod := .both
  removeUnknownCookies : Bool := true
  csrfEnable : Bool := false
  csrfExposed : Bool := false
  deriving DecidableEq, Repr

/-- A number of type `int`. -/
def int32 (n : ℤ) : ℤ := n.bmod (2 ^ 32)

/-- A number of type `time_t`. -/
def timeT (n : ℤ) : ℤ := n.bmod (2 ^ 64)

/-! ## The object -/

/-- `http::cookie`. -/
structure Cookie where
  name : Bytes
  value : Bytes
  attributes : CookieAttributes
  maxAge : Option ℤ
  expires : Option ℤ
  deriving DecidableEq, Repr

/-- The fields of `session_interface`, with the cookies of the request and those of the response. -/
structure Interface where
  cookies : SortedMap Bytes Bytes
  response : List Cookie := []
  data : Data := ∅
  dataCopy : Data := ∅
  timeoutVal : ℤ := 0
  how : ℤ := 0
  timeoutIn : ℤ := 0
  newSession : Bool := false
  saved : Bool := false
  onServer : Bool := false
  loaded : Bool := false
  reset : Bool := false
  tempCookie : Bytes := []

/-- The name of the cookie of a key; the session itself has the empty key. -/
def Settings.nameOf (settings : Settings) (key : Bytes) : Bytes :=
  if key.isEmpty then settings.cookieName else settings.cookieName ++ bytes "_" ++ key

lemma nameOf_nil (settings : Settings) : settings.nameOf [] = settings.cookieName := rfl

variable {key : Bytes} {settings : Settings}

lemma nameOf_of_ne (hkey : key ≠ []) :
    settings.nameOf key = settings.cookieName ++ bytes "_" ++ key := by
  unfold Settings.nameOf
  rw [if_neg]
  rwa [List.isEmpty_iff]

/-- No other key has the name of the session cookie. -/
lemma nameOf_ne_cookieName (hkey : key ≠ []) : settings.nameOf key ≠ settings.cookieName := by
  rw [nameOf_of_ne hkey, List.append_assoc]
  intro h
  have hnil := List.append_right_eq_self.1 h
  exact hkey (List.append_eq_nil_iff.1 hnil).2

/-- Different keys have different cookies. -/
lemma nameOf_injective {key key' : Bytes} (h : settings.nameOf key = settings.nameOf key') :
    key = key' := by
  by_cases hkey : key = []
  · by_contra hne
    have hkey' : key' ≠ [] := fun h' => hne (hkey.trans h'.symm)
    rw [hkey, nameOf_nil] at h
    exact nameOf_ne_cookieName hkey' h.symm
  · by_cases hkey' : key' = []
    · rw [hkey', nameOf_nil] at h
      exact absurd h (nameOf_ne_cookieName hkey)
    · rw [nameOf_of_ne hkey, nameOf_of_ne hkey'] at h
      exact List.append_cancel_left h

/-- The cookie that `set_session_cookie` writes.  A cookie without a value is removed. -/
def Settings.cookie (settings : Settings) (now age : ℤ) (data key : Bytes) : Cookie :=
  let age := if data.isEmpty then -1 else age
  { name := settings.nameOf key
    value := urlencode data
    attributes := settings.attributes
    maxAge :=
      if settings.expirationMethod = .expires ∨ age = 0 then none
      else if age < 0 then some 0 else some age
    expires :=
      if settings.expirationMethod = .maxAge ∨ age = 0 then none
      else if age < 0 then some 1 else some (age + now + settings.timeShift) }

namespace Interface

variable (settings : Settings) (now : ℤ)

/-- `get_session_cookie`. -/
def sessionCookie (s : Interface) : Bytes := (s.cookies.find settings.cookieName).getD []

/-- `set_session_cookie` with an age. -/
def setSessionCookie (age : ℤ) (data key : Bytes) (s : Interface) : Interface :=
  { s with response := s.response ++ [settings.cookie now age data key] }

/-- `clear_session_cookie`. -/
def clearSessionCookie (s : Interface) : Interface :=
  if s.sessionCookie settings ≠ [] then s.setSessionCookie settings now (-1) [] [] else s

/-! ## Values -/

/-- The number with the given digits. -/
def readDigits (s : Bytes) : Option ℕ :=
  if !s.isEmpty && s.all fun c => 0x30 ≤ c && c ≤ 0x39 then
    some (s.foldl (fun n c => 10 * n + (c.toNat - 0x30)) 0)
  else none

/-- An `int` that is read from a stream up to its end. -/
def readInt (s : Bytes) : Option ℤ :=
  (match s.dropWhile isSpace with
    | c :: s =>
      if c = Ch.minus then (readDigits s).map fun n => -(n : ℤ)
      else if c = Ch.plus then (readDigits s).map fun n => (n : ℤ)
      else (readDigits (c :: s)).map fun n => (n : ℤ)
    | [] => none).filter fun n => -2 ^ 31 ≤ n ∧ n < 2 ^ 31

/-- `set`. -/
def set (key value : Bytes) (s : Interface) : Interface :=
  { s with data := s.data.insert key ⟨value, ((s.data.find key).map Entry.exposed).getD false⟩ }

/-- `erase`. -/
def erase (key : Bytes) (s : Interface) : Interface := { s with data := s.data.erase key }

/-- `clear`. -/
def clear (s : Interface) : Interface := { s with data := ∅ }

/-- `expose`; `hide` is the same with `false`. -/
def expose (key : Bytes) (exp : Bool) (s : Interface) : Interface :=
  { s with data := s.data.insert key ⟨((s.data.find key).map Entry.value).getD [], exp⟩ }

/-- `age` with an argument. -/
def age (t : ℤ) (s : Interface) : Interface :=
  { s with timeoutVal := t }.set (bytes "_t") (showInt t)

/-- `default_age`. -/
def defaultAge (s : Interface) : Interface :=
  { s.erase (bytes "_t") with timeoutVal := settings.timeout }

/-- `expiration` with an argument. -/
def expiration (h : ℤ) (s : Interface) : Interface :=
  { s with how := h }.set (bytes "_h") (showInt h)

/-- `default_expiration`. -/
def defaultExpiration (s : Interface) : Interface :=
  { s.erase (bytes "_h") with how := settings.expire.code }

/-- `on_server` with an argument. -/
def setOnServer (srv : Bool) (s : Interface) : Interface :=
  { s with onServer := srv }.set (bytes "_s") (showInt srv.toNat)

/-! ## Saving -/

/-- `cookie_age`. -/
def cookieAge (s : Interface) : ℤ :=
  if s.how = Expire.browser.code then 0
  else if s.how = Expire.renew.code ∨ (s.how = Expire.fixed.code ∧ s.newSession) then s.timeoutVal
  else int32 (s.timeoutIn - now)

/-- `session_age`. -/
def sessionAge (s : Interface) : ℤ :=
  timeT <|
    if s.how = Expire.browser.code ∨ s.how = Expire.renew.code ∨
    (s.how = Expire.fixed.code ∧ s.newSession) then
      s.timeoutVal + now
    else s.timeoutIn

/-- The entries whose cookies `update_exposed` writes. -/
def isResent (force : Bool) (dataCopy : Data) (x : Bytes × Entry) : Bool :=
  x.2.exposed && (force ||
    match dataCopy.find x.1 with
    | none => true
    | some old => !old.exposed || x.2.value ≠ old.value)

/-- The entries whose cookies it removes because they are hidden. -/
def isHidden (force : Bool) (dataCopy : Data) (x : Bytes × Entry) : Bool :=
  !x.2.exposed && (((dataCopy.find x.1).map Entry.exposed).getD false || force)

/-- The key of a cookie of the request that is not exposed by the session. -/
def unknownKey (s : Interface) (name : Bytes) : Option Bytes :=
  let start := settings.cookieName ++ bytes "_"
  if start <+: name then
    let key := name.drop start.length
    match s.data.find key with
    | some x => if x.exposed then none else some key
    | none => some key
  else none

/-- The keys whose cookies are removed. -/
def removed (force : Bool) (s : Interface) : StringSet :=
  let hidden := (s.data.toList.filter (isHidden force s.dataCopy)).map Prod.fst
  let erased :=
    (s.dataCopy.toList.filter fun x => x.2.exposed && (s.data.find x.1).isNone).map Prod.fst
  let unknown :=
    if settings.removeUnknownCookies then s.cookies.toList.filterMap fun x =>
      s.unknownKey settings x.1 else []
  (((∅ : StringSet).insertAll hidden).insertAll erased).insertAll unknown

/-- The cookies that `update_exposed` writes. -/
def exposedCookies (force : Bool) (s : Interface) : List Cookie :=
  (s.data.toList.filter (isResent force s.dataCopy)).map
      (fun x => settings.cookie now (s.cookieAge now) x.2.value x.1) ++
    (s.removed settings force).toList.map fun key => settings.cookie now (-1) [] key

lemma mem_exposedCookies {s : Interface} {force : Bool} {c : Cookie} :
    c ∈ s.exposedCookies settings now force ↔
    (∃ key e, s.data.find key = some e ∧ isResent force s.dataCopy (key, e) = true ∧
        c = settings.cookie now (s.cookieAge now) e.value key) ∨
      ∃ key, key ∈ s.removed settings force ∧ c = settings.cookie now (-1) [] key := by
  unfold exposedCookies
  rw [List.mem_append, List.mem_map, List.mem_map]
  constructor
  · rintro (⟨⟨key, e⟩, hmem, rfl⟩ | ⟨key, hmem, rfl⟩)
    · obtain ⟨hmem, hresent⟩ := List.mem_filter.1 hmem
      exact .inl ⟨key, e, SortedMap.find_eq_some.2 hmem, hresent, rfl⟩
    · exact .inr ⟨key, hmem, rfl⟩
  · rintro (⟨key, e, hfind, hresent, rfl⟩ | ⟨key, hmem, rfl⟩)
    · exact .inl ⟨(key, e), List.mem_filter.2 ⟨SortedMap.find_eq_some.1 hfind, hresent⟩, rfl⟩
    · exact .inr ⟨key, hmem, rfl⟩

/-- `update_exposed`. -/
def updateExposed (force : Bool) (s : Interface) : Interface :=
  { s with response := s.response ++ s.exposedCookies settings now force }

/-- `generate_csrf_token`. -/
def generateCsrfToken (random : Bytes) : Bytes := B64url.encodeRange random

end Interface

/-! ## Back-ends -/

/-- What a call takes from the random device. -/
structure Entropy where
  sid : List.Vector UInt8 16
  csrf : List.Vector UInt8 6
  iv : Bytes := []

/-- What happens to the sessions. -/
inductive Event where
  | generated (sid : Bytes)
  | call (c : Call)
  | loaded (sid : Bytes)
  | reset

/-- A request at work: its session, the storage, and what the requests have done so far. -/
structure Frame (σ : Type) where
  request : ℕ
  session : Interface
  storage : σ
  history : List (ℕ × Event) := []

/-- `session_api`.  Loading gives the deadline, if it is written, and the data. -/
structure Api (σ : Type) where
  load : ℤ → Bytes → Frame σ → Frame σ × Option ℤ × Outcome (Option Bytes)
  save : ℤ → Entropy → Frame σ → Bytes → ℤ → Bool → Bool → Frame σ × Outcome Unit
  clear : ℤ → Frame σ → Frame σ

namespace Frame

variable {σ : Type} (settings : Settings) (api : Api σ) (now : ℤ)

/-- A step of the session alone. -/
def map (g : Interface → Interface) (f : Frame σ) : Frame σ := { f with session := g f.session }

/-- The history with an event of this request. -/
def log (e : Event) (f : Frame σ) : Frame σ := { f with history := f.history ++ [(f.request, e)] }

/-- A call of the storage. -/
def call (storage : Storage σ) (c : Call) (f : Frame σ) : Frame σ × Option (ℤ × Bytes) :=
  ({ f with storage := (storage.apply f.storage c).1 }.log (.call c), (storage.apply f.storage c).2)

/-- The last part of `load`: the values that the session itself holds. -/
def readValues (s : Interface) : Interface × Outcome Bool :=
  let field := fun key => (s.data.find (bytes key)).map fun x => Interface.readInt x.value
  match field "_t" with
  | some none => (s, .throws "std::bad_cast")
  | t =>
    let s := { s with timeoutVal := (t.join).getD s.timeoutVal }
    match field "_h" with
    | some none => (s, .throws "std::bad_cast")
    | h =>
      let s := { s with how := (h.join).getD s.how }
      match field "_s" with
      | some none => (s, .throws "std::bad_cast")
      | srv =>
          ({ s with onServer := ((srv.join).map fun n => decide (n % 2 = 1)).getD s.onServer },
          .returns true)

/-- The fields that `load` sets before it asks the back-end. -/
def start (s : Interface) : Interface :=
  { s with
    loaded := true
    data := ∅
    dataCopy := ∅
    timeoutVal := settings.timeout
    how := settings.expire.code
    saved := false
    onServer := false }

/-- The rest of `load`, with the answer of the back-end. -/
def receive (f : Frame σ) (timeout : Option ℤ) (result : Outcome (Option Bytes)) :
    Frame σ × Outcome Bool :=
  let f := f.map fun s => { s with timeoutIn := timeout.getD s.timeoutIn }
  match result with
  | .undefined => (f, .undefined)
  | .throws what => (f, .throws what)
  | .returns none => (f, .returns false)
  | .returns (some ar) =>
    match loadData ar with
    | none => (f, .undefined)
    | some (.error e) => (f.map fun s => { s with data := e.data }, .throws e.what)
    | some (.ok (data, _)) =>
      let f := f.map fun s => { s with data := data, dataCopy := data }
      ({ f with session := (readValues f.session).1 }, (readValues f.session).2)

/-- `load`. -/
def load (iv : Bytes) (f : Frame σ) : Frame σ × Outcome Bool :=
  if f.session.loaded then (f, .returns false)
  else
    let r := api.load now iv (f.map (start settings))
    r.1.receive r.2.1 r.2.2

/-- The session as `save` gives it to the back-end: the flag for a new session is set, and a new
session has a token. -/
def prepare (random : Bytes) (s : Interface) : Interface :=
  let s := { s with newSession := (s.dataCopy.toList.isEmpty && !s.data.toList.isEmpty) || s.reset }
  if s.newSession && settings.csrfEnable && !s.data.toList.isEmpty then
    let s := s.set (bytes "_csrf") (Interface.generateCsrfToken random)
    if settings.csrfExposed then s.expose (bytes "_csrf") true else s
  else s

/-- The map is the one that was loaded. -/
def unchanged (s : Interface) : Bool := s.data = s.dataCopy && !s.newSession

/-- An unchanged session is not saved again as long as less than a tenth of its time is over. -/
def isRecent (s : Interface) : Bool :=
  s.how = Expire.fixed.code || ((s.how = Expire.renew.code || s.how = Expire.browser.code) &&
    decide (10 * (now + s.timeoutVal - s.timeoutIn) < s.timeoutVal))

/-- The rest of `save`, after the back-end has saved the data. -/
def finish (force : Bool) (f : Frame σ) (outcome : Outcome Unit) : Frame σ × Outcome Unit :=
  match outcome with
  | .returns () =>
    let f := f.map fun s => s.setSessionCookie settings now (s.cookieAge now) s.tempCookie []
    let f := f.map fun s => { s with tempCookie := [] }
    let f := f.map (Interface.updateExposed settings now force)
    (f.map fun s => { s with saved := true }, .returns ())
  | outcome => (f, outcome)

/-- `save`. -/
def save (entropy : Entropy) (f : Frame σ) : Frame σ × Outcome Unit :=
  if !f.session.loaded || f.session.saved then (f, .returns ())
  else
    let f := f.map (prepare settings entropy.csrf.toList)
    let s := f.session
    if s.data.toList.isEmpty then
      let f := if s.sessionCookie settings ≠ [] then api.clear now f else f
      (f.map (Interface.updateExposed settings now true), .returns ())
    else if unchanged s && isRecent now s then (f, .returns ())
    else
      match saveData s.data with
      | .error what => (f, .throws what)
      | .ok ar =>
        let f := f.map fun s => { s with tempCookie := [] }
        let r := api.save now entropy f ar (s.sessionAge now) s.newSession s.onServer
        r.1.finish settings now (unchanged s) r.2

end Frame

/-! ## Operations -/

/-- The operations of a session. -/
inductive Op where
  | load (now : ℤ) (iv : Bytes)
  | set (key value : Bytes)
  | erase (key : Bytes)
  | clear
  | expose (key : Bytes) (exp : Bool)
  | age (t : ℤ)
  | defaultAge
  | expiration (h : ℤ)
  | defaultExpiration
  | onServer (srv : Bool)
  | resetSession
  | save (now : ℤ) (entropy : Entropy)

variable {σ : Type}

/-- An operation of a request.  An exception ends the operation, and the request may go on. -/
def Frame.apply (settings : Settings) (api : Api σ) (f : Frame σ) : Op → Frame σ
  | .load now iv => (f.load settings api now iv).1
  | .set key value => f.map (Interface.set key value)
  | .erase key => f.map (Interface.erase key)
  | .clear => f.map Interface.clear
  | .expose key exp => f.map (Interface.expose key exp)
  | .age t => f.map (Interface.age t)
  | .defaultAge => f.map (Interface.defaultAge settings)
  | .expiration h => f.map (Interface.expiration h)
  | .defaultExpiration => f.map (Interface.defaultExpiration settings)
  | .onServer srv => f.map (Interface.setOnServer srv)
  | .resetSession => (f.map fun s => { s with reset := true }).log .reset
  | .save now entropy => (f.save settings api now entropy).1

end Session

end Cppcms
