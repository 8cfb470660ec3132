import Cppcms.Library.Languages
import Cppcms.Xss.Uri

/-!
# The expression of URIs

`rules::uri_matcher` of `src/xss.cpp`, the older of the two recognizers of URI references: a regular
expression that is put together from texts.  The expression of the scheme is put in as a text too,
without brackets of its own, so that what follows it belongs to the last of its alternatives only
(`Matcher.joined`).

The rules of the hand-written parser are compared with the parts of the expression one by one
(`Recognizes`).  They agree up to `authority`, where the parser reads `userinfo` and does not go
back (`ParsedAuthority`).
-/

namespace Cppcms

namespace Xss

namespace Matcher

open Regex

/-! ## The parts of the expression -/

/-- A character. -/
def lit (c : UInt8) : Regex UInt8 := char (· == c)

/-- `['!,;=\$\(\)\*\+]|&amp;|&apos;`. -/
def subDelims : Regex UInt8 :=
  any (char fun c => (bytes "'!,;=$()*+").contains c) [word (bytes "&amp;"), word (bytes "&apos;")]

/-- `[a-zA-Z_0-9\-\.~]`. -/
def unreserved : Regex UInt8 :=
  char fun c => (0x61 ≤ c && c ≤ 0x7A) || (0x41 ≤ c && c ≤ 0x5A) || c == 0x5F ||
    (0x30 ≤ c && c ≤ 0x39) ||
    (bytes "-.~").contains c

/-- `[0-9]`. -/
def digit : Regex UInt8 := char fun c => 0x30 ≤ c && c ≤ 0x39

/-- `[0-9a-fA-F]`. -/
def hexDigit : Regex UInt8 :=
  char fun c => (0x30 ≤ c && c ≤ 0x39) || (0x61 ≤ c && c ≤ 0x66) || (0x41 ≤ c && c ≤ 0x46)

/-- `%[0-9a-fA-F][0-9a-fA-F]`. -/
def pctEncoded : Regex UInt8 := cat [lit Ch.percent, hexDigit, hexDigit]

def pchar : Regex UInt8 := any unreserved [pctEncoded, subDelims, lit Ch.colon, lit Ch.at']

/-- `query`, and `fragment`. -/
def query : Regex UInt8 := star (any pchar [lit Ch.slash, lit Ch.question])

def segment : Regex UInt8 := star pchar

def segmentNz : Regex UInt8 := plus pchar

def segmentNzNc : Regex UInt8 := plus (any unreserved [pctEncoded, subDelims, lit Ch.at'])

def pathAbempty : Regex UInt8 := star (seq (lit Ch.slash) segment)

def pathRootless : Regex UInt8 := seq segmentNz pathAbempty

def pathNoscheme : Regex UInt8 := seq segmentNzNc pathAbempty

def pathAbsolute : Regex UInt8 := seq (lit Ch.slash) (opt (seq segmentNz pathAbempty))

def regName : Regex UInt8 := star (any unreserved [pctEncoded, subDelims])

/-- A character of a range. -/
def range (a b : UInt8) : Regex UInt8 := char fun c => a ≤ c && c ≤ b

/-- `[0-9]|[1-9][0-9]|1[0-9][0-9]|2[0-4][0-9]|25[0-5]`. -/
def decOctet : Regex UInt8 :=
  any digit [cat [range 0x31 0x39, digit], cat [lit 0x31, digit, digit],
    cat [lit 0x32, range 0x30 0x34, digit], cat [lit 0x32, lit 0x35, range 0x30 0x35]]

def ipv4addr : Regex UInt8 :=
  cat [decOctet, lit Ch.dot, decOctet, lit Ch.dot, decOctet, lit Ch.dot, decOctet]

def port : Regex UInt8 := star digit

def host : Regex UInt8 := alt ipv4addr regName

def userinfo : Regex UInt8 := star (any unreserved [pctEncoded, subDelims, lit Ch.colon])

def authority : Regex UInt8 :=
  cat [opt (seq userinfo (lit Ch.at')), host, opt (seq (lit Ch.colon) port)]

/-- `(\?query)?(#fragment)?`, at the end of `uri` and of `relative_ref`. -/
def queryAndFragment : Regex UInt8 :=
  seq (opt (seq (lit Ch.question) query)) (opt (seq (lit Ch.hash) query))

def relativePart : Regex UInt8 :=
  opt (any (cat [word (bytes "//"), authority, pathAbempty]) [pathAbsolute, pathNoscheme])

def relativeRef : Regex UInt8 := seq relativePart queryAndFragment

def hierPart : Regex UInt8 :=
  opt (any (cat [word (bytes "//"), authority, pathAbempty]) [pathAbsolute, pathRootless])

/-- The text of an expression with the alternatives `r|rs` in front of another one, which is read as
a part of the last alternative. -/
def joined (x : Regex UInt8) : Regex UInt8 → List (Regex UInt8) → Regex UInt8
  | r, [] => seq r x
  | r, r' :: rs => alt r (joined x r' rs)

/-- `uri`, for the alternatives of the expression of the scheme. -/
def uri (r : Regex UInt8) (rs : List (Regex UInt8)) : Regex UInt8 :=
  joined (cat [lit Ch.colon, hierPart, queryAndFragment]) r rs

/-- `uri_reference`. -/
def uriReference (r : Regex UInt8) (rs : List (Regex UInt8)) : Regex UInt8 :=
  alt (uri r rs) relativeRef

/-- `rules::uri_matcher(scheme)`, asked for a whole value as the filter does. -/
def uriMatcher (r : Regex UInt8) (rs : List (Regex UInt8)) : Validator :=
  (uriReference r rs).fullMatch

/-- `regex_match` with the expression of the scheme, for `uri_validator`. -/
def schemeMatch (r : Regex UInt8) (rs : List (Regex UInt8)) (range : Option Bytes) : Bool :=
  (any r rs).fullMatch (range.getD [])

end Matcher

namespace Uri

open Recognizer
open scoped Computability

/-! ## Characters -/

/-- The characters of names: `unreserved`, `pct_encoded` and `sub_delims`. -/
def NameChar : Language UInt8 :=
  Matcher.unreserved.language + (Matcher.pctEncoded.language + Matcher.subDelims.language)

lemma recognizes_followsClass (p : UInt8 → Bool) :
    Recognizes (followsClass p) (Regex.char p).language fun _ => True := by
  constructor
  · intro s hs
    rcases s with _ | ⟨c, s⟩
    · cases hs
    · rw [Uri.followsClass] at hs ⊢
      split_ifs at hs ⊢ with hc
      exact ⟨[c], ⟨c, hc, rfl⟩, rfl⟩
  · rintro w t ⟨c, hc, rfl⟩ -
    show (if p c = true then (true, t) else _) = _
    rw [if_pos hc]

lemma follows_eq_followsClass (c : UInt8) : follows c = followsClass (· == c) := by
  funext s
  rcases s with _ | ⟨d, s⟩
  · rfl
  · simp only [follows, followsClass, beq_iff_eq]

lemma recognizes_follows (c : UInt8) :
    Recognizes (follows c) (Matcher.lit c).language fun _ => True := by
  rw [follows_eq_followsClass]
  exact recognizes_followsClass _

lemma recognizes_followsString (v : Bytes) :
    Recognizes (followsString v) (Regex.word v).language fun _ => True := by
  constructor
  · intro s hs
    unfold Uri.followsString at hs ⊢
    split_ifs at hs ⊢ with h
    refine ⟨v, Regex.mem_language_word.2 rfl, ?_⟩
    conv_lhs => rw [← List.take_append_drop v.length s, h.2]
  · intro w t hw _
    rw [Regex.mem_language_word.1 hw]
    unfold Uri.followsString
    rw [if_pos ⟨by simp, List.take_left⟩, List.drop_left]

/-! ## Words of the tokens -/

/-- A character of a class, with the class of the parser written in another order than that of the
expression. -/
lemma language_unreserved :
    Matcher.unreserved.language =
      (Regex.char fun c => isAlapha c || isDigit c || (bytes "-._~").contains c).language := by
  have h : ∀ c : UInt8,
    ((0x61 ≤ c && c ≤ 0x7A) || (0x41 ≤ c && c ≤ 0x5A) || c == 0x5F || (0x30 ≤ c && c ≤ 0x39) ||
      (bytes "-.~").contains c) = (isAlapha c || isDigit c || (bytes "-._~").contains c) := by
    intro c
    have hdot : (c ∈ bytes "-._~") ↔ (c ∈ bytes "-.~") ∨ c = 0x5F := by
      simp [bytes]
      tauto
    rw [Bool.eq_iff_iff]
    simp only [Bool.or_eq_true, List.contains_iff_mem, beq_iff_eq, isAlapha, isDigit, hdot]
    tauto
  rw [Matcher.unreserved, funext h]

lemma recognizes_unreserved : Recognizes unreserved Matcher.unreserved.language fun _ => True := by
  rw [language_unreserved]
  exact recognizes_followsClass _

variable {w : Bytes} {c : UInt8}

/-- An escaped octet is a percent sign and two hexadecimal digits. -/
lemma mem_language_pctEncoded :
    w ∈ Matcher.pctEncoded.language ↔
    ∃ a b, isHex a = true ∧ isHex b = true ∧ w = [Ch.percent, a, b] := by
  constructor
  · rintro ⟨u, ⟨c, hc, rfl⟩, v, ⟨x, ⟨a, ha, rfl⟩, y, ⟨b, hb, rfl⟩, rfl⟩, rfl⟩
    rw [beq_iff_eq] at hc
    subst hc
    exact ⟨a, b, ha, hb, rfl⟩
  · rintro ⟨a, b, ha, hb, rfl⟩
    exact ⟨[Ch.percent], ⟨_, beq_self_eq_true _, rfl⟩, [a, b],
      ⟨[a], ⟨a, ha, rfl⟩, [b], ⟨b, hb, rfl⟩, rfl⟩, rfl⟩

lemma recognizes_pctEncoded : Recognizes pctEncoded Matcher.pctEncoded.language fun _ => True := by
  constructor
  · intro s hs
    unfold pctEncoded at hs ⊢
    split at hs
    · rename_i p a b s
      split_ifs at hs ⊢ with h
      rcases h with ⟨rfl, ha, hb⟩
      exact ⟨[Ch.percent, a, b], mem_language_pctEncoded.2 ⟨a, b, ha, hb, rfl⟩, rfl⟩
    · cases hs
  · intro w t hw _
    rcases mem_language_pctEncoded.1 hw with ⟨a, b, ha, hb, rfl⟩
    show (if Ch.percent = Ch.percent ∧ isHex a = true ∧ isHex b = true then (true, t) else _) = _
    rw [if_pos ⟨rfl, ha, hb⟩]

/-- The delimiters are characters, or entities of two of them. -/
lemma mem_language_subDelims :
    w ∈ Matcher.subDelims.language ↔
      w = bytes "&amp;" ∨ w = bytes "&apos;" ∨ ∃ c ∈ bytes "!$()*+,;='", w = [c] := by
  have hclass : ∀ c : UInt8, (bytes "'!,;=$()*+").contains c = true ↔ c ∈ bytes "!$()*+,;='" := by
    intro c
    rw [List.contains_iff_mem]
    exact (by decide : List.Perm (bytes "'!,;=$()*+") (bytes "!$()*+,;='")).mem_iff
  constructor
  · rintro (⟨c, hc, rfl⟩ | hw | hw)
    · exact .inr (.inr ⟨c, (hclass c).1 hc, rfl⟩)
    · exact .inl (Regex.mem_language_word.1 hw)
    · exact .inr (.inl (Regex.mem_language_word.1 hw))
  · rintro (rfl | rfl | ⟨c, hc, rfl⟩)
    · exact .inr (.inl (Regex.mem_language_word.2 rfl))
    · exact .inr (.inr (Regex.mem_language_word.2 rfl))
    · exact .inl ⟨c, (hclass c).2 hc, rfl⟩

/-- The words of `sub_delims`, in the order in which the parser tries them. -/
lemma language_subDelims :
    Matcher.subDelims.language = (Regex.word (bytes "&amp;")).language +
      ((Regex.word (bytes "&apos;")).language +
      (Regex.char fun c => (bytes "!$()*+,;='").contains c).language) := by
  ext w
  rw [mem_language_subDelims, Language.mem_add, Language.mem_add, Regex.mem_language_word,
    Regex.mem_language_word, Regex.mem_language_char]
  simp only [List.contains_iff_mem]

lemma recognizes_subDelims : Recognizes subDelims Matcher.subDelims.language fun _ => True := by
  have hback : ∀ {v : Bytes}, ∀ s, (followsString v s).1 = false → (followsString v s).2 = s := by
    intro v s hs
    unfold followsString at hs ⊢
    split_ifs at hs ⊢
    rfl
  have hfail : ∀ {v u : Bytes}, (∀ t, ¬ ∃ x, v ++ x = u ++ t) →
      ∀ t, (followsString v (u ++ t)).1 = false := by
    intro v u h t
    refine Bool.eq_false_iff.2 fun hs => ?_
    rcases (recognizes_followsString v).sound hs with ⟨w, hw, heq⟩
    rw [Regex.mem_language_word.1 hw] at heq
    exact h t ⟨_, heq.symm⟩
  have hclass : ∀ {c : UInt8} {u : Bytes}, (bytes "!$()*+,;='").contains c = true →
      ∀ t, ¬ ∃ x, 0x26 :: u ++ x = [c] ++ t := by
    rintro c u hc t ⟨x, hx⟩
    rw [← (List.cons.inj hx).1] at hc
    cases hc
  rw [language_subDelims]
  refine (recognizes_followsString _).orElse
    ((recognizes_followsString _).orElse (recognizes_followsClass _) hback
    (fun _ h => h) (fun _ h => h) ?_) hback (fun _ h => h) (fun _ h => h) ?_
  · rintro v ⟨c, hc, rfl⟩ t -
    exact hfail (hclass hc) t
  · rintro v (hv | ⟨c, hc, rfl⟩) t -
    · rw [Regex.mem_language_word.1 hv]
      refine hfail ?_ t
      rintro t ⟨x, hx⟩
      -- the third characters differ
      have h := congrArg (fun l : Bytes => l[2]?) hx
      cases h
    · exact hfail (hclass hc) t

/-- One character of a name, as `reg_name` reads it. -/
def nameChar : Recognizer UInt8 := unreserved.orElse <| pctEncoded.orElse subDelims

lemma progresses_nameChar : Progresses nameChar :=
  (progresses_followsClass _).orElse (progresses_pctEncoded.orElse progresses_subDelims)

/-- A character of a name, by its three kinds. -/
lemma recognizes_nameChar : Recognizes nameChar NameChar fun _ => True := by
  have hsub : ∀ c ∈ bytes "!$()*+,;='",
    (isAlapha c || isDigit c || (bytes "-._~").contains c) = false ∧
      c ≠ Ch.percent := by
    set_option maxRecDepth 2048 in decide
  refine recognizes_unreserved.orElse (recognizes_pctEncoded.orElse recognizes_subDelims
    (fun s => (progresses_pctEncoded s).2) (fun _ h => h) (fun _ h => h) ?_)
    (fun s => (progresses_followsClass _ s).2) (fun _ h => h) (fun _ h => h) ?_
  · intro v hv t _
    rcases mem_language_subDelims.1 hv with rfl | rfl | ⟨c, hc, rfl⟩
    · rfl
    · rfl
    · unfold pctEncoded
      split
      · rename_i heq
        cases heq
        rw [if_neg fun h => (hsub c hc).2 h.1]
      · rfl
  · rintro v (hv | hv) t -
    · rcases mem_language_pctEncoded.1 hv with ⟨a, b, -, -, rfl⟩
      rfl
    · rcases mem_language_subDelims.1 hv with rfl | rfl | ⟨c, hc, rfl⟩
      · rfl
      · rfl
      · show (if _ then _ else _ : Bool × Bytes).1 = false
        rw [if_neg (Bool.not_eq_true _ ▸ (hsub c hc).1)]

/-- Names have no delimiters. -/
lemma notMem_of_mem_nameChar (hw : w ∈ NameChar) : ∀ c ∈ w, c ∉ bytes ":@/?#" := by
  have hclass : ∀ c ∈ bytes ":@/?#",
    (isAlapha c || isDigit c || (bytes "-._~").contains c) = false ∧
      isHex c = false ∧ c ∉ bytes "!$()*+,;='" := by
    set_option maxRecDepth 2048 in decide
  rcases hw with hw | hw | hw
  · rw [language_unreserved] at hw
    rcases hw with ⟨d, hd, rfl⟩
    intro c hc hdelim
    rw [List.mem_singleton.1 hc] at hdelim
    exact Bool.false_ne_true ((hclass d hdelim).1.symm.trans hd)
  · rcases mem_language_pctEncoded.1 hw with ⟨a, b, ha, hb, rfl⟩
    intro c hc hdelim
    rcases List.mem_cons.1 hc with rfl | hc
    · revert hdelim
      decide
    · have hhex : isHex c = true := by
        rcases List.mem_cons.1 hc with rfl | hc
        · exact ha
        · rwa [List.mem_singleton.1 hc]
      exact Bool.false_ne_true ((hclass c hdelim).2.1.symm.trans hhex)
  · rcases mem_language_subDelims.1 hw with rfl | rfl | ⟨d, hd, rfl⟩
    · set_option maxRecDepth 2048 in decide
    · set_option maxRecDepth 2048 in decide
    · intro c hc hdelim
      rw [List.mem_singleton.1 hc] at hdelim
      exact (hclass d hdelim).2.2 hd

/-! ## Loops over characters -/

lemma avoids_lit {cs : Bytes} (hc : c ∉ cs) : Avoids (Matcher.lit c).language cs := by
  rintro w ⟨d, hd, rfl⟩ e he
  rw [List.mem_singleton.1 he, eq_of_beq hd]
  exact hc

/-- Names and some of the delimiters. -/
lemma recognizes_nameChar_orElse {q : Recognizer UInt8} {L : Language UInt8}
    (hq : Recognizes q L fun _ => True)
    (hL : ∀ v ∈ L, ∃ c ∈ bytes ":@/?#", v = [c]) :
    Recognizes (nameChar.orElse q) (NameChar + L) fun _ => True := by
  refine recognizes_nameChar.orElse hq (fun s => (progresses_nameChar s).2) (fun _ h => h)
    (fun _ h => h) ?_
  intro v hv t _
  rcases hL v hv with ⟨c, hc, rfl⟩
  exact recognizes_nameChar.fst_eq_false progresses_nameChar (fun w hw => notMem_of_mem_nameChar hw)
    (startsIn_cons hc t)

lemma nameChar_orElse (q : Recognizer UInt8) :
    nameChar.orElse q = unreserved.orElse (pctEncoded.orElse (subDelims.orElse q)) := by
  rw [nameChar, orElse_assoc, orElse_assoc]

lemma language_nameChar_alt (x : Regex UInt8) :
    (Regex.alt Matcher.unreserved (.alt Matcher.pctEncoded (.alt Matcher.subDelims x))).language =
      NameChar + x.language := by
  show Matcher.unreserved.language +
    (Matcher.pctEncoded.language + (Matcher.subDelims.language + x.language)) = _
  rw [NameChar, add_assoc, add_assoc]

/-- No character of a name is a separator. -/
lemma avoids_nameChar : Avoids NameChar (bytes ":@/?#") := fun _ hw => notMem_of_mem_nameChar hw

lemma eq_of_mem_lit {v : Bytes} (hv : v ∈ (Matcher.lit c).language) : v = [c] := by
  rcases hv with ⟨d, hd, rfl⟩
  rw [eq_of_beq hd]

lemma mem_lit (c : UInt8) : [c] ∈ (Matcher.lit c).language := ⟨c, beq_self_eq_true c, rfl⟩

/-- A name ends at the first separator. -/
lemma recognizes_regName : Recognizes regName Matcher.regName.language (StartsIn (bytes ":@/?#")) :=
  recognizes_nameChar.many_tokens progresses_nameChar avoids_nameChar

/-- A name may go on with one more delimiter. -/
lemma recognizes_nameChar_lit (hc : c ∈ bytes ":@/?#") :
    Recognizes (nameChar.orElse (follows c)) (NameChar + (Matcher.lit c).language) fun _ => True :=
  recognizes_nameChar_orElse (recognizes_follows c) fun _ hv => ⟨c, hc, eq_of_mem_lit hv⟩

lemma avoids_userinfoChar : Avoids (NameChar + (Matcher.lit Ch.colon).language) (bytes "@/?#") :=
  (avoids_nameChar.mono (by decide)).add (avoids_lit (by decide))

/-- The user may have colons in it. -/
lemma recognizes_userinfo :
    Recognizes userinfo Matcher.userinfo.language (StartsIn (bytes "@/?#")) := by
  have h := (recognizes_nameChar_lit (c := Ch.colon) (by decide)).many_tokens
    (progresses_nameChar.orElse (progresses_follows _)) avoids_userinfoChar
  rwa [nameChar_orElse, ← language_nameChar_alt] at h

lemma progresses_segmentNzNcChar : Progresses segmentNzNcChar := by
  have h := progresses_nameChar.orElse (progresses_follows Ch.at')
  rwa [nameChar_orElse] at h

lemma recognizes_segmentNzNcChar :
    Recognizes segmentNzNcChar (NameChar + (Matcher.lit Ch.at').language) fun _ => True := by
  have h := recognizes_nameChar_lit (c := Ch.at') (by decide)
  rwa [nameChar_orElse] at h

lemma avoids_segmentNzNcChar : Avoids (NameChar + (Matcher.lit Ch.at').language) (bytes ":/?#") :=
  (avoids_nameChar.mono (by decide)).add (avoids_lit (by decide))

lemma language_pchar :
    Matcher.pchar.language = NameChar +
      ((Matcher.lit Ch.colon).language + (Matcher.lit Ch.at').language) :=
  language_nameChar_alt (.alt (Matcher.lit Ch.colon) (Matcher.lit Ch.at'))

lemma avoids_pchar : Avoids Matcher.pchar.language (bytes "/?#") := by
  rw [language_pchar]
  exact (avoids_nameChar.mono (by decide)).add
    ((avoids_lit (by decide)).add (avoids_lit (by decide)))

/-- Two delimiters. -/
lemma recognizes_follows_orElse {c d : UInt8} (hcd : d ≠ c) :
    Recognizes ((follows c).orElse (follows d))
      ((Matcher.lit c).language + (Matcher.lit d).language) fun _ => True := by
  refine (recognizes_follows c).orElse (recognizes_follows d) (fun s => (progresses_follows c s).2)
    (fun _ h => h) (fun _ h => h) ?_
  intro v hv t _
  rw [eq_of_mem_lit hv]
  show (if d = c then _ else _ : Bool × Bytes).1 = false
  rw [if_neg hcd]

lemma recognizes_pchar : Recognizes pchar Matcher.pchar.language fun _ => True := by
  have h := recognizes_nameChar_orElse
      (recognizes_follows_orElse (c := Ch.colon) (d := Ch.at') (by decide)) (by
    rintro v (hv | hv)
    · exact ⟨Ch.colon, by decide, eq_of_mem_lit hv⟩
    · exact ⟨Ch.at', by decide, eq_of_mem_lit hv⟩)
  rwa [nameChar_orElse, ← language_pchar] at h

/-- A segment ends at the next slash, or at the query or the fragment. -/
lemma recognizes_segment : Recognizes segment Matcher.segment.language (StartsIn (bytes "/?#")) :=
  recognizes_pchar.many_tokens progresses_pchar avoids_pchar

lemma recognizes_query : Recognizes query Matcher.query.language (StartsIn (bytes "#")) := by
  have hchar : Recognizes (pchar.orElse <| (follows Ch.slash).orElse (follows Ch.question))
      (Matcher.pchar.language +
        ((Matcher.lit Ch.slash).language + (Matcher.lit Ch.question).language)) fun _ => True := by
    refine recognizes_pchar.orElse (recognizes_follows_orElse (by decide))
      (fun s => (progresses_pchar s).2)
      (fun _ h => h) (fun _ h => h) ?_
    rintro v (hv | hv) t -
    · rw [eq_of_mem_lit hv]
      exact recognizes_pchar.fst_eq_false progresses_pchar avoids_pchar
        (startsIn_cons (by decide) t)
    · rw [eq_of_mem_lit hv]
      exact recognizes_pchar.fst_eq_false progresses_pchar avoids_pchar
        (startsIn_cons (by decide) t)
  exact hchar.many_tokens
    (progresses_pchar.orElse ((progresses_follows _).orElse (progresses_follows _)))
    ((avoids_pchar.mono (by decide)).add ((avoids_lit (by decide)).add (avoids_lit (by decide))))

lemma recognizes_port : Recognizes port Matcher.port.language (StartsIn (bytes "/?#")) := by
  refine (recognizes_followsClass isDigit).many_tokens (progresses_followsClass _) ?_
  have hclass : ∀ c ∈ bytes "/?#", isDigit c = false := by set_option maxRecDepth 2048 in decide
  rintro w ⟨d, hd, rfl⟩ c hc hdelim
  rw [List.mem_singleton.1 hc] at hdelim
  exact Bool.false_ne_true ((hclass d hdelim).symm.trans hd)

/-! ## Paths -/

/-- A character is not found where another one begins the rest. -/
lemma follows_fst_eq_false {cs t : Bytes} (ht : StartsIn cs t) (hc : c ∉ cs) :
    (follows c t).1 = false :=
  (recognizes_follows c).fst_eq_false (progresses_follows c) (avoids_lit hc) ht

/-- A path is empty or starts with a slash. -/
lemma startsIn_append_path {w t : Bytes} (hw : w ∈ Matcher.pathAbempty.language)
    (ht : StartsIn (bytes "?#") t) :
    StartsIn (bytes "/?#") (w ++ t) := by
  refine kstar_induction (P := fun w => StartsIn (bytes "/?#") (w ++ t)) (ht.mono (by decide)) ?_ hw
  intro u hu v _ _
  rcases Language.mem_mul.1 hu with ⟨x, hx, y, -, rfl⟩
  rw [eq_of_mem_lit hx]
  exact startsIn_cons (by decide) _

/-- A path of segments with a slash before each. -/
lemma recognizes_pathAbempty :
    Recognizes pathAbempty Matcher.pathAbempty.language (StartsIn (bytes "?#")) := by
  have hround : Recognizes (saved ((follows Ch.slash).andThen segment))
      ((Matcher.lit Ch.slash).language * Matcher.segment.language) (StartsIn (bytes "/?#")) :=
    ((recognizes_follows Ch.slash).andThen recognizes_segment fun _ _ _ _ => trivial).saved
  refine hround.many ((progresses_follows Ch.slash).saved_andThen_many progresses_pchar)
    (fun w hw t ht => startsIn_append_path hw ht) ?_
  intro t ht
  rw [saved_fst, andThen_fst, follows_fst_eq_false ht (by decide)]
  rfl

lemma recognizes_segmentNz :
    Recognizes segmentNz Matcher.segmentNz.language (StartsIn (bytes "/?#")) :=
  recognizes_pchar.andThen recognizes_segment fun _ _ _ _ => trivial

lemma recognizes_pathRootless :
    Recognizes pathRootless Matcher.pathRootless.language (StartsIn (bytes "?#")) :=
  recognizes_segmentNz.andThen recognizes_pathAbempty fun _ hv _ ht => startsIn_append_path hv ht

/-- A segment that is not empty does not begin with a separator. -/
lemma segmentNz_fst_eq_false {t : Bytes} (ht : StartsIn (bytes "/?#") t) :
    (segmentNz t).1 = false := by
  rw [segmentNz, andThen_fst, recognizes_pchar.fst_eq_false progresses_pchar avoids_pchar ht]
  rfl

/-- A path that begins with one slash. -/
lemma recognizes_pathAbsolute :
    Recognizes pathAbsolute Matcher.pathAbsolute.language (StartsIn (bytes "?#")) := by
  refine (recognizes_follows Ch.slash).andThen ?_ fun _ _ _ _ => trivial
  constructor
  · intro s _
    by_cases hs : (segmentNz s).1 = true
    · have hroot : (pathRootless s).1 = true := by
        rw [pathRootless, andThen_fst, hs]
        rfl
      rcases recognizes_pathRootless.sound hroot with ⟨w, hw, heq⟩
      refine ⟨w, .inl hw, ?_⟩
      rw [pathRootless, andThen, if_pos hs] at heq
      simp only [if_pos hs]
      exact heq
    · refine ⟨[], .inr rfl, ?_⟩
      simp only [if_neg hs]
      rfl
  · rintro w t (hw | hw) ht
    · rcases Language.mem_mul.1 hw with ⟨u, hu, v, hv, rfl⟩
      have hread := recognizes_segmentNz.complete hu (startsIn_append_path hv ht)
      rw [List.append_assoc]
      simp only [hread, if_true]
      exact recognizes_pathAbempty.complete hv ht
    · cases hw
      simp only [List.nil_append, segmentNz_fst_eq_false (ht.mono (by decide)),
        Bool.false_eq_true, if_false]

/-! ## The end of a reference -/

lemma recognizes_queryAndFragment :
    Recognizes (fun s => (true, queryAndFragment s))
      Matcher.queryAndFragment.language (· = []) := by
  have hquery :=
    ((recognizes_follows Ch.question).andThen recognizes_query fun _ _ _ _ => trivial).optional
    (fun t ht => ht) fun t ht => by
      rw [andThen_fst, follows_fst_eq_false ht (by decide)]
      rfl
  have hfragment :=
    ((recognizes_follows Ch.hash).andThen recognizes_query fun _ _ _ _ => trivial).optional
    (G := (· = [])) (fun t ht => ht ▸ startsIn_nil _) fun t ht => by
      rw [ht]
      rfl
  refine hquery.andThen hfragment ?_
  rintro v (hv | hv) t rfl
  · rcases Language.mem_mul.1 hv with ⟨x, hx, y, -, rfl⟩
    rw [eq_of_mem_lit hx]
    exact startsIn_cons (by decide) _
  · cases hv
    exact startsIn_nil _

/-- The end of a reference is empty or starts with one of its signs. -/
lemma startsIn_queryAndFragment (hw : w ∈ Matcher.queryAndFragment.language) :
    StartsIn (bytes "?#") w := by
  rcases Language.mem_mul.1 hw with ⟨u, hu | hu, v, hv | hv, rfl⟩
  · rcases Language.mem_mul.1 hu with ⟨x, hx, y, -, rfl⟩
    rw [eq_of_mem_lit hx]
    exact startsIn_cons (by decide) _
  · rcases Language.mem_mul.1 hu with ⟨x, hx, y, -, rfl⟩
    rw [eq_of_mem_lit hx]
    exact startsIn_cons (by decide) _
  · rcases Language.mem_mul.1 hv with ⟨x, hx, y, -, rfl⟩
    cases hu
    rw [eq_of_mem_lit hx]
    exact startsIn_cons (by decide) _
  · cases hu
    cases hv
    exact startsIn_nil _

/-! ## Authorities -/

/-- `dec_octet` does not move. -/
lemma decOctet_snd (s : Bytes) : (decOctet s).2 = s := by
  unfold decOctet
  split
  split_ifs <;> rfl

/-- `dec_octet` succeeds in front of a digit only. -/
lemma decOctet_fst_of_follows_dot {s : Bytes} (h : (follows Ch.dot s).1 = true) :
    (decOctet s).1 = false := by
  rcases s with _ | ⟨c, s⟩
  · rfl
  · have hc : c = Ch.dot := by
      by_contra hne
      rw [follows, if_neg hne] at h
      cases h
    rw [hc]
    rfl

/-- The address of four numbers is never read, so that every host is a name. -/
lemma host_eq_regName : host = regName := by
  funext s
  have hfail : (ipv4addr s).1 = false := by
    rw [ipv4addr, saved_fst, andThen_fst, andThen_fst, decOctet_snd]
    by_cases hdot : (follows Ch.dot s).1 = true
    · rw [decOctet_fst_of_follows_dot hdot]
      rfl
    · rw [Bool.not_eq_true] at hdot
      rw [hdot, Bool.false_and, Bool.and_false]
  have hstay : (ipv4addr s).2 = s := by
    rw [ipv4addr, saved_fst] at hfail
    rw [ipv4addr, saved, if_neg (by rw [hfail]; exact Bool.false_ne_true)]
  rw [host, orElse, hfail, hstay]
  rfl

/-- What `authority` reads: the user information is not given back. -/
def ParsedAuthority : Language UInt8 :=
  Matcher.userinfo.language + Matcher.userinfo.language * ((Matcher.lit Ch.at').language *
    (Matcher.regName.language * (Regex.opt (.seq (Matcher.lit Ch.colon) Matcher.port)).language))

lemma language_userinfo :
    Matcher.userinfo.language = (NameChar + (Matcher.lit Ch.colon).language)∗ := by
  rw [← language_nameChar_alt]
  rfl

lemma singleton_mem_nameChar (hc : (isAlapha c || isDigit c || (bytes "-._~").contains c) = true) :
    [c] ∈ NameChar := by
  refine .inl ?_
  rw [language_unreserved]
  exact ⟨c, hc, rfl⟩

lemma mem_nameChar_of_digit (hw : w ∈ Matcher.digit.language) : w ∈ NameChar := by
  rcases hw with ⟨c, hc, rfl⟩
  have hdigit : isDigit c = true := hc
  refine singleton_mem_nameChar ?_
  rw [hdigit, Bool.or_true]
  rfl

/-- A name is a user as well, which is why the parser goes back. -/
lemma mem_userinfo_of_regName (hw : w ∈ Matcher.regName.language) :
    w ∈ Matcher.userinfo.language := by
  rw [language_userinfo]
  exact kstar_mono' (fun _ hu => .inl hu) hw

/-- A port is read as a part of the user information too. -/
lemma mem_userinfo_of_port
    (hw : w ∈ (Regex.opt (.seq (Matcher.lit Ch.colon) Matcher.port)).language) :
    w ∈ Matcher.userinfo.language := by
  rw [language_userinfo]
  rcases hw with hw | hw
  · rcases Language.mem_mul.1 hw with ⟨x, hx, y, hy, rfl⟩
    exact append_mem_kstar (.inr hx) (kstar_mono' (fun _ hu => .inl (mem_nameChar_of_digit hu)) hy)
  · cases hw
    exact Language.nil_mem_kstar _

lemma append_mem_userinfo {u v : Bytes} (hu : u ∈ Matcher.userinfo.language)
    (hv : v ∈ Matcher.userinfo.language) :
    u ++ v ∈ Matcher.userinfo.language :=
  kstar_append_kstar hu hv

/-- `(:port)?`. -/
lemma recognizes_optionalPort :
    Recognizes (fun s => (true, (saved ((follows Ch.colon).andThen port) s).2))
      (Regex.opt (.seq (Matcher.lit Ch.colon) Matcher.port)).language (StartsIn (bytes "/?#")) :=
  ((recognizes_follows Ch.colon).andThen recognizes_port fun _ _ _ _ => trivial).optional
    (fun _ ht => ht) fun t ht => by
    rw [andThen_fst, follows_fst_eq_false ht (by decide)]
    rfl

/-- A port in front of the rest does not go on with a name. -/
lemma startsIn_append_port {v t : Bytes}
    (hv : v ∈ (Regex.opt (.seq (Matcher.lit Ch.colon) Matcher.port)).language)
    (ht : StartsIn (bytes "/?#") t) : StartsIn (bytes ":@/?#") (v ++ t) := by
  rcases hv with hv | hv
  · rcases Language.mem_mul.1 hv with ⟨x, hx, y, -, rfl⟩
    rw [eq_of_mem_lit hx]
    exact startsIn_cons (by decide) _
  · cases hv
    exact ht.mono (by decide)

/-- The first part of `authority`: where the sign after the user information is missing, the host is
read behind it. -/
lemma authority_eq (s : Bytes) :
    authority s = (true, (saved ((follows Ch.colon).andThen port)
      (if (follows Ch.at' (userinfo s).2).1 =
        true then (regName (follows Ch.at' (userinfo s).2).2).2
        else (regName (userinfo s).2).2)).2) := by
  have huser : (userinfo s).1 = true := rfl
  have hname : ∀ t, (regName t).1 = true := fun t => rfl
  have hback : (follows Ch.at' (userinfo s).2).1 = false →
      (follows Ch.at' (userinfo s).2).2 = (userinfo s).2 :=
    (progresses_follows Ch.at' _).2
  rw [authority, host_eq_regName]
  by_cases hat : (follows Ch.at' (userinfo s).2).1 = true
  · simp only [andThen, saved, orElse, huser, hat, hname, if_true]
  · rw [Bool.not_eq_true] at hat
    simp only [andThen, saved, orElse, huser, hat, hname, if_true, hback hat,
      Bool.false_eq_true, if_false]

/-- An authority, as far as the parser takes it. -/
lemma recognizes_authority : Recognizes authority ParsedAuthority (StartsIn (bytes "/?#")) := by
  constructor
  · intro s _
    rcases recognizes_userinfo.sound (s := s) rfl with ⟨w, hw, hs⟩
    rw [authority_eq]
    by_cases hat : (follows Ch.at' (userinfo s).2).1 = true
    · rw [if_pos hat]
      rcases (recognizes_follows Ch.at').sound hat with ⟨x, hx, hsx⟩
      rcases recognizes_regName.sound (s := (follows Ch.at' (userinfo s).2).2) rfl with ⟨y, hy, hsy⟩
      rcases recognizes_optionalPort.sound (s := (regName (follows Ch.at' (userinfo s).2).2).2)
        rfl with ⟨z, hz, hsz⟩
      refine ⟨w ++ (x ++ (y ++ z)),
        .inr (append_mem_mul hw (append_mem_mul hx (append_mem_mul hy hz))), ?_⟩
      rw [List.append_assoc, List.append_assoc, List.append_assoc, ← hsz, ← hsy, ← hsx, ← hs]
    · rw [if_neg hat]
      rcases recognizes_regName.sound (s := (userinfo s).2) rfl with ⟨y, hy, hsy⟩
      rcases recognizes_optionalPort.sound (s := (regName (userinfo s).2).2) rfl with ⟨z, hz, hsz⟩
      refine ⟨w ++ (y ++ z), .inl ?_, ?_⟩
      · exact append_mem_userinfo hw
          (append_mem_userinfo (mem_userinfo_of_regName hy) (mem_userinfo_of_port hz))
      · rw [List.append_assoc, List.append_assoc, ← hsz, ← hsy, ← hs]
  · intro w t hw ht
    rw [authority_eq]
    have hport := recognizes_optionalPort.complete (.inr rfl) ht
    rcases hw with hw | hw
    · rw [recognizes_userinfo.complete hw (ht.mono (by decide))]
      have hdelim : StartsIn (bytes ":@/?#") t := ht.mono (by decide)
      have hname := recognizes_regName.complete (Language.nil_mem_kstar _) hdelim
      rw [List.nil_append] at hname hport
      simp only [follows_fst_eq_false (c := Ch.at') ht (by decide), Bool.false_eq_true,
        if_false, hname]
      exact hport
    · rcases Language.mem_mul.1 hw with ⟨u, hu, x, hx, rfl⟩
      rcases Language.mem_mul.1 hx with ⟨a, ha, y, hy, rfl⟩
      rcases Language.mem_mul.1 hy with ⟨n, hn, v, hv, rfl⟩
      have huser : userinfo (u ++ ([Ch.at'] ++ (n ++ v ++ t))) =
          (true, [Ch.at'] ++ (n ++ v ++ t)) :=
        recognizes_userinfo.complete hu (startsIn_cons (by decide) _)
      rw [eq_of_mem_lit ha, List.append_assoc, List.append_assoc, huser,
        (recognizes_follows Ch.at').complete (mem_lit _) trivial, List.append_assoc, if_pos rfl,
        recognizes_regName.complete hn (startsIn_append_port hv ht)]
      exact recognizes_optionalPort.complete hv ht

/-! ## The parser on a whole text -/

lemma recognizes_authorityPath :
    Recognizes (authority.andThen pathAbempty) (ParsedAuthority * Matcher.pathAbempty.language)
      (StartsIn (bytes "?#")) :=
  recognizes_authority.andThen recognizes_pathAbempty fun _ hv _ ht => startsIn_append_path hv ht

/-- `relative_part` takes its first alternative, which does not ask for the two slashes. -/
lemma relativePart_eq : relativePart = authority.andThen pathAbempty := by
  funext s
  have h : (authority.andThen pathAbempty s).1 = true := by
    rw [andThen_fst, authority_fst]
    rfl
  rw [relativePart, orElse, saved_fst, if_pos h, saved, if_pos h]

/-- A relative reference is read as an authority with a path. -/
lemma recognizes_relativeRef :
    Recognizes relativeRef
      (ParsedAuthority * Matcher.pathAbempty.language * Matcher.queryAndFragment.language)
      (· = []) := by
  rw [relativeRef, relativePart_eq]
  refine recognizes_authorityPath.andThen recognizes_queryAndFragment ?_
  rintro v hv t rfl
  rw [List.append_nil]
  exact startsIn_queryAndFragment hv

/-- What `hier_part` reads. -/
def ParsedHierPart : Language UInt8 :=
  (Regex.word (bytes "//")).language * (ParsedAuthority * Matcher.pathAbempty.language) +
    (Matcher.pathAbsolute.language + (Matcher.pathRootless.language + 1))

/-- A segment that is not empty starts with a character of a segment. -/
lemma exists_cons_of_mem_segmentNz (hw : w ∈ Matcher.segmentNz.language) :
    ∃ c v, w = c :: v ∧ c ∉ bytes "/?#" := by
  rcases Language.mem_mul.1 hw with ⟨x, hx, y, -, rfl⟩
  rcases x with _ | ⟨c, x⟩
  · exact absurd hx (recognizes_pchar.nil_notMem progresses_pchar trivial)
  · exact ⟨c, x ++ y, rfl, avoids_pchar _ hx c List.mem_cons_self⟩

/-- The other alternatives of `hier_part` do not start with two slashes. -/
lemma followsString_fst_eq_false {w t : Bytes}
    (hw : w ∈ Matcher.pathAbsolute.language + (Matcher.pathRootless.language + 1))
      (ht : StartsIn (bytes "?#") t) :
    (followsString (bytes "//") (w ++ t)).1 = false := by
  refine Bool.eq_false_iff.2 fun h => ?_
  rcases (recognizes_followsString _).sound h with ⟨v, hv, heq⟩
  rw [Regex.mem_language_word.1 hv] at heq
  have hslash : ∀ {x : Bytes}, t = Ch.slash :: x → False := by
    rintro x rfl
    exact absurd (ht Ch.slash rfl) (by decide)
  rcases hw with hw | hw | hw
  · rcases Language.mem_mul.1 hw with ⟨x, hx, y, hy | hy, rfl⟩
    · rcases Language.mem_mul.1 hy with ⟨u, hu, _, -, rfl⟩
      rcases exists_cons_of_mem_segmentNz hu with ⟨c, z, rfl, hc⟩
      rw [eq_of_mem_lit hx] at heq
      rw [(List.cons.inj (List.cons.inj heq).2).1] at hc
      exact hc (by decide)
    · rw [eq_of_mem_lit hx, (Language.mem_one _).1 hy] at heq
      exact hslash (List.cons.inj heq).2
  · rcases Language.mem_mul.1 hw with ⟨u, hu, _, -, rfl⟩
    rcases exists_cons_of_mem_segmentNz hu with ⟨c, z, rfl, hc⟩
    rw [(List.cons.inj heq).1] at hc
    exact hc (by decide)
  · rw [(Language.mem_one _).1 hw] at heq
    exact hslash heq

/-- What stands behind the scheme. -/
lemma recognizes_hierPart : Recognizes hierPart ParsedHierPart (StartsIn (bytes "?#")) := by
  have hfirst :
    Recognizes (saved ((followsString (bytes "//")).andThen <| authority.andThen pathAbempty))
      ((Regex.word (bytes "//")).language * (ParsedAuthority * Matcher.pathAbempty.language))
        (StartsIn (bytes "?#")) :=
    ((recognizes_followsString _).andThen recognizes_authorityPath fun _ _ _ _ => trivial).saved
  have hrest : Recognizes (pathAbsolute.orElse <| pathRootless.orElse fun s => (true, s))
      (Matcher.pathAbsolute.language + (Matcher.pathRootless.language + 1))
        (StartsIn (bytes "?#")) := by
    have hempty : Recognizes (fun s : Bytes => (true, s)) 1 fun _ => True :=
      ⟨fun _ => ⟨[], rfl, rfl⟩, fun hw _ => by cases hw; rfl⟩
    have hroot : ∀ t, StartsIn (bytes "?#") t → (pathRootless t).1 = false := by
      intro t ht
      rw [pathRootless, andThen_fst, segmentNz_fst_eq_false (ht.mono (by decide))]
      rfl
    refine recognizes_pathAbsolute.orElse
      (recognizes_pathRootless.orElse hempty ?_ (fun _ h => h) (fun _ _ => trivial) ?_)
      ?_ (fun _ h => h) (fun _ h => h) ?_
    · intro s hs
      have hpchar : (pchar s).1 = false := by
        simpa [pathRootless, segmentNz, pathAbempty] using hs
      simp only [pathRootless, segmentNz, andThen, hpchar, Bool.false_eq_true, if_false,
        (progresses_pchar s).2 hpchar]
    · intro v hv t ht
      cases hv
      exact hroot t ht
    · intro s hs
      have hslash : (follows Ch.slash s).1 = false := by
        by_contra h
        rw [Bool.not_eq_false] at h
        rw [pathAbsolute, andThen_fst, h, Bool.true_and] at hs
        simp only at hs
        split_ifs at hs
        cases hs
      rw [pathAbsolute, andThen, hslash]
      exact (progresses_follows _ s).2 hslash
    · intro v hv t ht
      have hslash : (follows Ch.slash (v ++ t)).1 = false := by
        rcases hv with hv | hv
        · rcases Language.mem_mul.1 hv with ⟨u, hu, _, -, rfl⟩
          rcases exists_cons_of_mem_segmentNz hu with ⟨c, z, rfl, hc⟩
          show (if c = Ch.slash then _ else _ : Bool × Bytes).1 = false
          rw [if_neg fun h => hc (by rw [h]; decide)]
        · cases hv
          exact follows_fst_eq_false ht (by decide)
      rw [pathAbsolute, andThen_fst, hslash]
      rfl
  constructor
  · intro s hs
    rw [hierPart] at hs ⊢
    by_cases h : (followsString (bytes "//") s).1 = true
    · rw [if_pos h] at hs ⊢
      rcases hfirst.sound hs with ⟨w, hw, heq⟩
      exact ⟨w, .inl hw, heq⟩
    · rw [if_neg h] at hs ⊢
      rcases hrest.sound hs with ⟨w, hw, heq⟩
      exact ⟨w, .inr hw, heq⟩
  · rintro w t (hw | hw) ht
    · have hread := hfirst.complete hw ht
      rcases Language.mem_mul.1 hw with ⟨x, hx, y, -, rfl⟩
      have hslashes : (followsString (bytes "//") (x ++ y ++ t)).1 = true := by
        rw [List.append_assoc, (recognizes_followsString _).complete hx trivial]
      rw [hierPart, if_pos hslashes]
      exact hread
    · rw [hierPart, followsString_fst_eq_false hw ht]
      exact hrest.complete hw ht

end Uri

end Xss

end Cppcms
