import Cppcms.Session.Encryptors
import Cppcms.Session.Interface

/-!
# Where a session is kept

The back-ends of the sessions: `session_sid` keeps the data on the server and gives an identifier to
the client, `session_cookies` gives the encrypted data to the client, and `session_dual` chooses
between the two. The first letter of the cookie tells them apart.
-/

namespace Cppcms

namespace Session

variable {σ : Type} (settings : Settings) (now : ℤ)

/-- The letter of a session on the server. -/
abbrev tagServer : UInt8 := 0x49

/-- The letter of a session on the client. -/
abbrev tagClient : UInt8 := 0x43

/-- `session_interface::set_session_cookie` as the back-ends call it. -/
def Frame.setTempCookie (cookie : Bytes) (f : Frame σ) : Frame σ :=
  f.map fun s => { s with tempCookie := cookie }

/-- `session_interface::clear_session_cookie`. -/
def Frame.clearSessionCookie (f : Frame σ) : Frame σ :=
  f.map (Interface.clearSessionCookie settings now)

/-! ## On the server -/

/-- `session_sid::get_new_sid`. -/
def getNewSid (entropy : Entropy) (f : Frame σ) : Frame σ × Bytes :=
  (f.log (.generated (tohex entropy.sid.toList)), tohex entropy.sid.toList)

/-- `session_sid::valid_sid`. -/
def validSid (cookie : Bytes) : Option Bytes :=
  match cookie with
  | c :: id => if id.length = 32 ∧ c = tagServer ∧ id.all isLowHexDigit then some id else none
  | [] => none

/-- `session_sid`. -/
def sessionSid (storage : Storage σ) : Api σ where
  load now _ f :=
    match validSid (f.session.sessionCookie settings) with
    | none => (f, none, .returns none)
    | some id =>
      match f.call storage (.load now id) with
      | (f, none) => (f, none, .returns none)
      | (f, some (timeout, data)) =>
        if timeout < now then ((f.call storage (.remove now id)).1, some timeout, .returns none)
        else (f.log (.loaded id), some timeout, .returns (some data))
  save now entropy f data timeout newData _ :=
    let (f, id) :=
      match validSid (f.session.sessionCookie settings) with
      | some id =>
          if newData then getNewSid entropy (f.call storage (.remove now id)).1 else (f, id)
      | none => getNewSid entropy f
    let f := (f.call storage (.save now id timeout data)).1
    (f.setTempCookie (tagServer :: id), .returns ())
  clear now f :=
    let f :=
      match validSid (f.session.sessionCookie settings) with
      | some id => (f.call storage (.remove now id)).1
      | none => f
    f.clearSessionCookie settings now

/-! ## On the client -/

/-- `encryptor`: what is encrypted is decrypted again, and nothing is not accepted. -/
structure Encryptor where
  encrypt : Bytes → Bytes → Bytes
  decrypt : Bytes → Bytes → Option Bytes
  decrypt_encrypt : ∀ iv iv' x, decrypt iv' (encrypt iv x) = some x
  decrypt_nil : ∀ iv, decrypt iv [] = none

/-- The HMAC cipher as an encryptor. -/
def Encryptor.hmac (md : Mac) (hmd : 0 < md.digestSize) : Encryptor where
  encrypt _ plain := hmacEncrypt md plain
  decrypt _ cipher := (hmacDecrypt md cipher).join
  decrypt_encrypt _ _ x := by
    rw [hmacDecrypt_hmacEncrypt]
    rfl
  decrypt_nil _ := by
    unfold hmacDecrypt
    rw [if_pos (show ([] : Bytes).length < md.digestSize from hmd)]
    rfl

/-- `session_cookies`. -/
def sessionCookies (encryptor : Encryptor) : Api σ where
  load now iv f :=
    let refused := (f.clearSessionCookie settings now, none, .returns none)
    match f.session.sessionCookie settings with
    | [] => (f, none, .returns none)
    | c :: text =>
      if c ≠ tagClient then refused
      else
        match B64url.decode text [] with
        | .undefined => (f, none, .undefined)
        | .throws what => (f, none, .throws what)
        | .returns (false, _) => refused
        | .returns (true, cipher) =>
          match encryptor.decrypt iv cipher with
          | none => refused
          | some tmp =>
            if tmp.length < 8 then refused
            else
              let timeout := fromLittleEndianInt (tmp.take 8)
              if timeout < now then refused else (f, some timeout, .returns (some (tmp.drop 8)))
  save _ entropy f data timeout _ onServer :=
    if onServer then (f, .throws "Can't use cookies backend when data should be stored on server")
    else
      match B64url.encode (encryptor.encrypt entropy.iv (littleEndianInt 8 timeout ++ data)) with
      | .undefined => (f, .undefined)
      | .throws what => (f, .throws what)
      | .returns text => (f.setTempCookie (tagClient :: text), .returns ())
  clear now f := f.clearSessionCookie settings now

/-! ## On one of them -/

/-- `session_dual`. -/
def sessionDual (storage : Storage σ) (encryptor : Encryptor) (limit : ℕ) : Api σ where
  load now iv f :=
    if (f.session.sessionCookie settings).head? = some tagClient then
      (sessionCookies settings encryptor).load now iv f
    else (sessionSid settings storage).load now iv f
  save now entropy f data timeout isNew onServer :=
    if onServer ∨ limit < data.length then (sessionSid settings storage).save now entropy f data
      timeout isNew true
    else
      let f :=
        if (f.session.sessionCookie settings).head? =
          some tagServer then (sessionSid settings storage).clear now f
        else f
      (sessionCookies settings encryptor).save now entropy f data timeout isNew false
  clear now f :=
    if (f.session.sessionCookie settings).head? =
      some tagClient then (sessionCookies settings encryptor).clear now f
    else (sessionSid settings storage).clear now f

end Session

end Cppcms
