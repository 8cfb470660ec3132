import Cppcms.Library.Recognizer
import Cppcms.Xss.Entry

/-!
# URIs in attributes

`uri_parser` and `uri_validator_functor` of `src/xss.cpp`: a recursive-descent recognizer of URI
references and the validators made from it by `rules::uri_validator` and
`rules::relative_uri_validator`.

The parser keeps three things besides its position: the range of the last scheme that was read and
the flag that the whole reference is relative.  Save points restore the position only.  A text with
a scheme is nevertheless never taken for a relative reference: after the colon every alternative of
the grammar succeeds, so that the rule for absolute URIs does (`uri_of_scheme`), and whether the
rest of the text is read completely is asked once, at the very end.
-/

namespace Cppcms

namespace Xss

namespace Uri

open Recognizer

/-! ## Characters -/

/-- `follows(char)`. -/
def follows (c : UInt8) : Recognizer UInt8
  | [] => (false, [])
  | d :: s => if d = c then (true, s) else (false, d :: s)

/-- `follows(char const *)`. -/
def followsString (v : Bytes) : Recognizer UInt8 := fun s =>
  if v.length ≤ s.length ∧ s.take v.length = v then (true, s.drop v.length) else (false, s)

/-- One character of a class. -/
def followsClass (p : UInt8 → Bool) : Recognizer UInt8
  | [] => (false, [])
  | d :: s => if p d then (true, s) else (false, d :: s)

/-- `is_digit`. -/
def isDigit (c : UInt8) : Bool := 0x30 ≤ c && c ≤ 0x39

/-- `is_alapha`. -/
def isAlapha (c : UInt8) : Bool := (0x61 ≤ c && c ≤ 0x7A) || (0x41 ≤ c && c ≤ 0x5A)

/-- `is_hex`. -/
def isHex (c : UInt8) : Bool := isDigit c || (0x61 ≤ c && c ≤ 0x66) || (0x41 ≤ c && c ≤ 0x46)

/-- `sub_delims`. -/
def subDelims : Recognizer UInt8 :=
  (followsString (bytes "&amp;")).orElse <| (followsString (bytes "&apos;")).orElse <|
    followsClass fun c => (bytes "!$()*+,;='").contains c

/-- `unreserved`. -/
def unreserved : Recognizer UInt8 :=
  followsClass fun c => isAlapha c || isDigit c || (bytes "-._~").contains c

/-- `pct_encoded`. -/
def pctEncoded : Recognizer UInt8
  | p :: a :: b :: s =>
    if p = Ch.percent ∧ isHex a ∧ isHex b then (true, s) else (false, p :: a :: b :: s)
  | s => (false, s)

/-- `pchar`. -/
def pchar : Recognizer UInt8 :=
  unreserved.orElse <| pctEncoded.orElse <| subDelims.orElse <|
    (follows Ch.colon).orElse (follows Ch.at')

/-! ## Paths -/

/-- `query`, and `fragment`. -/
def query : Recognizer UInt8 :=
  many (pchar.orElse <| (follows Ch.slash).orElse (follows Ch.question))

/-- `segment`. -/
def segment : Recognizer UInt8 := many pchar

/-- `segment_nz`. -/
def segmentNz : Recognizer UInt8 := pchar.andThen (many pchar)

/-- One character of `segment_nz_nc`. -/
def segmentNzNcChar : Recognizer UInt8 :=
  unreserved.orElse <| pctEncoded.orElse <| subDelims.orElse (follows Ch.at')

/-- `segment_nz_nc`. -/
def segmentNzNc : Recognizer UInt8 := segmentNzNcChar.andThen (many segmentNzNcChar)

/-- The loop `while(follows('/') && segment()) sp.commit()` with its save point. -/
def pathAbempty : Recognizer UInt8 := many (saved ((follows Ch.slash).andThen segment))

/-- `path_rootless`. -/
def pathRootless : Recognizer UInt8 := segmentNz.andThen pathAbempty

/-- `path_noscheme`. -/
def pathNoscheme : Recognizer UInt8 := segmentNzNc.andThen pathAbempty

/-- `path_absolute`. -/
def pathAbsolute : Recognizer UInt8 :=
  (follows Ch.slash).andThen fun s =>
    let q := segmentNz s
    if q.1 then pathAbempty q.2 else (true, s)

/-! ## Authorities -/

/-- `reg_name`. -/
def regName : Recognizer UInt8 := many (unreserved.orElse <| pctEncoded.orElse subDelims)

/-- The loop of `dec_octet`: it reads the same character again and again, since it does not move. -/
def decOctetLoop (s : Bytes) : ℕ → ℕ × ℕ → ℕ × ℕ
  | 0, q => q
  | n + 1, (count, value) =>
    match s with
    | [] => (count, value)
    | c :: _ =>
      if isDigit c ∧ count < 3 then decOctetLoop s n (count + 1, value * 10 + (c.toNat - 0x30))
      else (count, value)

/-- `dec_octet`. -/
def decOctet : Recognizer UInt8 := fun s =>
  let (count, value) := decOctetLoop s 4 (0, 0)
  if count = 0 then (false, s)
  else if value ≤ 9 ∧ count ≠ 1 then (false, s)
  else if value ≤ 99 ∧ count ≠ 2 then (false, s)
  else if 255 < value then (false, s)
  else (true, s)

/-- `ipv4addr`. -/
def ipv4addr : Recognizer UInt8 :=
  saved (decOctet.andThen <| (follows Ch.dot).andThen <| decOctet.andThen <|
    (follows Ch.dot).andThen <| decOctet.andThen <| (follows Ch.dot).andThen decOctet)

/-- `port`. -/
def port : Recognizer UInt8 := many (followsClass isDigit)

/-- `host`. -/
def host : Recognizer UInt8 := ipv4addr.orElse regName

/-- `userinfo`. -/
def userinfo : Recognizer UInt8 :=
  many (unreserved.orElse <| pctEncoded.orElse <| subDelims.orElse (follows Ch.colon))

/-- `authority`: the second alternative starts where the first one gave up. -/
def authority : Recognizer UInt8 :=
  (saved ((userinfo.andThen <| (follows Ch.at').andThen host).orElse host)).andThen fun s =>
    (true, (saved ((follows Ch.colon).andThen port) s).2)

/-! ## References -/

/-- `relative_part`. -/
def relativePart : Recognizer UInt8 :=
  (saved (authority.andThen pathAbempty)).orElse <| pathAbsolute.orElse <|
    pathNoscheme.orElse fun s => (true, s)

/-- The optional parts after `?` and `#`. -/
def queryAndFragment (s : Bytes) : Bytes :=
  (saved ((follows Ch.hash).andThen query) (saved ((follows Ch.question).andThen query) s).2).2

/-- `relative_ref`. -/
def relativeRef : Recognizer UInt8 := relativePart.andThen fun s => (true, queryAndFragment s)

/-- `hier_part`. -/
def hierPart : Recognizer UInt8 := fun s =>
  if (followsString (bytes "//") s).1 then
    saved ((followsString (bytes "//")).andThen <| authority.andThen pathAbempty) s
  else (pathAbsolute.orElse <| pathRootless.orElse fun s => (true, s)) s

/-- `uri_parser`: the rest of the text, the range of the scheme (`none` while it is null) and the
flag `is_relative_`. -/
structure Parser where
  begin : Bytes
  scheme : Option Bytes := none
  isRelative : Bool := false
  deriving DecidableEq, Repr

/-- The characters of a scheme after the first one. -/
def isSchemeChar (c : UInt8) : Bool :=
  isAlapha c || isDigit c || c == Ch.plus || c == Ch.minus || c == Ch.dot

namespace Parser

/-- `scheme`. -/
def readScheme (p : Parser) : Bool × Parser :=
  match p.begin with
  | [] => (false, p)
  | c :: s =>
    if !isAlapha c then (false, p)
    else (true, { p with begin := s.dropWhile isSchemeChar,
                         scheme := some (c :: s.takeWhile isSchemeChar) })

/-- `uri`: the save point restores the position, but not the scheme. -/
def uri (p : Parser) : Bool × Parser :=
  let (ok, q) := p.readScheme
  let hier := ((follows Ch.colon).andThen hierPart) q.begin
  if ok && hier.1 then (true, { q with begin := queryAndFragment hier.2 })
  else (false, { q with begin := p.begin })

/-- `uri_reference`. -/
def uriReference (p : Parser) : Bool × Parser :=
  let (ok, q) := p.uri
  if ok then (true, q)
  else
    let r := relativeRef q.begin
    (r.1, { q with begin := r.2, isRelative := r.1 })

/-- `parse`, and `parse_full`. -/
def parse (p : Parser) : Bool × Parser :=
  let (ok, q) := uriReference { p with isRelative := false }
  (ok && q.begin.isEmpty, q)

/-- `has_scheme`. -/
def hasScheme (p : Parser) : Bool := !p.isRelative

end Parser

/-- `uri_validator_functor::uri_type`. -/
inductive UriType where
  | both
  | relative
  | full
  deriving DecidableEq, Repr

/-- `uri_validator_functor`; `regexMatch` is `regex_match` with the scheme expression, on the range
of the scheme. -/
def uriValidatorFunctor (type : UriType) (regexMatch : Option Bytes → Bool) : Validator :=
  fun value =>
  let (ok, parser) := Parser.parse ⟨value, none, false⟩
  match type with
  | .both => if !ok then false else if parser.hasScheme then regexMatch parser.scheme else true
  | .relative => if !ok then false else !parser.hasScheme
  | .full => if !ok then false else regexMatch parser.scheme

/-- `rules::uri_validator(scheme, absolute_only)`. -/
def uriValidator (regexMatch : Option Bytes → Bool) (absoluteOnly : Bool) : Validator :=
  uriValidatorFunctor (if absoluteOnly then .full else .both) regexMatch

/-- `rules::relative_uri_validator()`; the expression is empty and never asked. -/
def relativeUriValidator : Validator := uriValidatorFunctor .relative fun _ => false

/-! ## The loops of the grammar -/

lemma progresses_followsClass (p : UInt8 → Bool) : Progresses (followsClass p) := by
  intro s
  cases s with
  | nil => simp [followsClass]
  | cons d s =>
    rw [followsClass]
    split_ifs <;> simp

lemma progresses_follows (c : UInt8) : Progresses (follows c) := by
  intro s
  cases s with
  | nil => simp [follows]
  | cons d s =>
    rw [follows]
    split_ifs <;> simp

lemma progresses_followsString {v : Bytes} (hv : v ≠ []) : Progresses (followsString v) := by
  intro s
  have := List.length_pos_iff.mpr hv
  rw [followsString]
  split_ifs with h
  · simp
    omega
  · simp

lemma progresses_pctEncoded : Progresses pctEncoded := by
  intro s
  unfold pctEncoded
  split
  · split_ifs
    · simp
      omega
    · simp
  · simp

lemma progresses_subDelims : Progresses subDelims :=
  (progresses_followsString (by decide)).orElse <|
    (progresses_followsString (by decide)).orElse (progresses_followsClass _)

lemma progresses_pchar : Progresses pchar :=
  (progresses_followsClass _).orElse <| progresses_pctEncoded.orElse <|
    progresses_subDelims.orElse <|
    (progresses_follows _).orElse (progresses_follows _)

/-! ## Schemes -/

/-- The name of a scheme. -/
def IsScheme (scheme : Bytes) : Prop :=
  ∃ c tl, scheme = c :: tl ∧ isAlapha c = true ∧ ∀ d ∈ tl, isSchemeChar d = true

lemma authority_fst (s : Bytes) : (authority s).1 = true := by
  simp [authority, host, regName]

/-- What follows the colon is always accepted. -/
lemma hierPart_fst (s : Bytes) : (hierPart s).1 = true := by
  rw [hierPart]
  split_ifs with h
  · simp [h, authority_fst, pathAbempty]
  · simp

variable {scheme : Bytes}

/-- A scheme is read up to its colon. -/
lemma readScheme_of_scheme (h : IsScheme scheme) (rest : Bytes) :
    Parser.readScheme ⟨scheme ++ Ch.colon :: rest, none, false⟩ =
      (true, ⟨Ch.colon :: rest, some scheme, false⟩) := by
  obtain ⟨c, tl, rfl, hc, htl⟩ := h
  have hcolon : isSchemeChar Ch.colon = false := by decide
  have htake : (tl ++ Ch.colon :: rest).takeWhile isSchemeChar = tl := by
    rw [List.takeWhile_append_of_pos (by simpa using htl)]
    simp [hcolon]
  have hdrop : (tl ++ Ch.colon :: rest).dropWhile isSchemeChar = Ch.colon :: rest := by
    rw [List.dropWhile_append_of_pos (by simpa using htl)]
    simp [hcolon]
  simp [Parser.readScheme, hc, htake, hdrop]

/-- A text with a scheme is parsed as an absolute URI with that scheme. -/
lemma parse_of_scheme (h : IsScheme scheme) (rest : Bytes) :
    (Parser.parse ⟨scheme ++ Ch.colon :: rest, none, false⟩).2.scheme = some scheme ∧
      (Parser.parse ⟨scheme ++ Ch.colon :: rest, none, false⟩).2.isRelative = false := by
  have huri : Parser.uri ⟨scheme ++ Ch.colon :: rest, none, false⟩ =
      (true, ⟨queryAndFragment (hierPart rest).2, some scheme, false⟩) := by
    simp [Parser.uri, readScheme_of_scheme h rest, andThen, follows, hierPart_fst]
  simp [Parser.parse, Parser.uriReference, huri]

/-- The validators and a value with a scheme: the scheme of an accepted value matches the
expression, and a value with a scheme is not relative. -/
theorem uriValidator_scheme (regexMatch : Option Bytes → Bool) (value scheme rest : Bytes)
    (hscheme : IsScheme scheme) (hvalue : value = scheme ++ Ch.colon :: rest) :
    (uriValidator regexMatch false value = true → regexMatch (some scheme) = true) ∧
      relativeUriValidator value = false := by
  obtain ⟨hs, hr⟩ := parse_of_scheme hscheme rest
  rw [hvalue]
  constructor
  · intro h
    simp only [uriValidator, uriValidatorFunctor, Parser.hasScheme, hr, hs] at h
    simp only [Bool.false_eq_true, if_false, Bool.not_false, if_true] at h
    split_ifs at h
    exact h
  · simp [relativeUriValidator, uriValidatorFunctor, Parser.hasScheme, hr]

theorem uriValidator_scheme_http :
    uriValidator (fun range => range == some (bytes "http")) false (bytes "http://a/?b") = true ∧
      (some (bytes "http") == some (bytes "http")) = true ∧
      relativeUriValidator (bytes "http://a/?b") = false := by
  have hscheme : IsScheme (bytes "http") := by
    refine ⟨0x68, bytes "ttp", ?_, ?_, ?_⟩
    · decide
    · decide
    · set_option maxRecDepth 2048 in decide
  have h := uriValidator_scheme (fun range => range == some (bytes "http")) (bytes "http://a/?b")
    (bytes "http") (bytes "//a/?b") hscheme (by decide)
  have haccepted : uriValidator (fun range => range == some (bytes "http")) false
      (bytes "http://a/?b") = true := by decide
  exact ⟨haccepted, h.1 haccepted, h.2⟩

end Uri

end Xss

end Cppcms
