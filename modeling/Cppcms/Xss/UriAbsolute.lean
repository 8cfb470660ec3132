import Cppcms.Xss.UriAgreement

/-!
# Validators of absolute URIs

`rules::uri_validator(scheme,true)` of `src/xss.cpp` is meant not to accept relative URIs.
`uri_parser` tries the rule for absolute URIs first, which stores the range of the scheme before it
looks for the colon, and the save point does not give the range back.  Then the relative reference
is read, and the validator compares the range that was left behind with the expression: it accepts
`http` as an URI of the scheme `http`.
-/

namespace Cppcms

namespace Xss

namespace Uri

open Recognizer
open scoped Computability

/-- The range that `scheme` stores when the parser starts: the letter and the characters behind it.
-/
def leadingScheme (value : Bytes) : Option Bytes :=
  (Parser.readScheme ⟨value, none, false⟩).2.scheme

/-- What the absolute-only validator is for: what it accepts starts with a scheme that matches the
expression and a colon, and is no relative reference. -/
def AcceptsAbsolute (regexMatch : Option Bytes → Bool) (value : Bytes) : Prop :=
  uriValidator regexMatch true value = true →
    (∃ scheme rest, IsScheme scheme ∧ value = scheme ++ Ch.colon :: rest ∧
      regexMatch (some scheme) = true) ∧
      relativeUriValidator value = false

lemma leadingScheme_of_scheme {scheme : Bytes} (h : IsScheme scheme) (rest : Bytes) :
    leadingScheme (scheme ++ Ch.colon :: rest) = some scheme := by
  rw [leadingScheme, readScheme_of_scheme h rest]

/-- Whether the rule for absolute URIs succeeds or not, the range is the one that `scheme` stored.
-/
lemma uri_scheme (value : Bytes) :
    (Parser.uri ⟨value, none, false⟩).2.scheme = leadingScheme value := by
  unfold leadingScheme Parser.uri
  dsimp only
  split_ifs
  · rfl
  · rfl

/-- The first range is never replaced: the relative reference has no scheme. -/
lemma parse_scheme (value : Bytes) :
    (Parser.parse ⟨value, none, false⟩).2.scheme = leadingScheme value := by
  rw [← uri_scheme value]
  unfold Parser.parse Parser.uriReference
  dsimp only
  split_ifs
  · rfl
  · rfl

lemma parse_fst_iff_of_not_hasScheme {value : Bytes} (h : ¬HasScheme value) :
    (Parser.parse ⟨value, none, false⟩).1 = true ↔ value ∈ ParsedAuthority * PathEnd := by
  rw [← uriValidator_iff_of_not_hasScheme (fun _ => true) h]
  simp only [uriValidator, uriValidatorFunctor, Bool.false_eq_true, if_false]
  cases (Parser.parse ⟨value, none, false⟩).1 <;> simp

/-- The absolute-only validator accepts what was read to the end, if the stored range matches. -/
lemma uriValidator_true_iff (regexMatch : Option Bytes → Bool) (value : Bytes) :
    uriValidator regexMatch true value = true ↔
      (Parser.parse ⟨value, none, false⟩).1 = true ∧ regexMatch (leadingScheme value) = true := by
  simp only [uriValidator, uriValidatorFunctor, if_true, parse_scheme]
  cases (Parser.parse ⟨value, none, false⟩).1 <;> simp

/-- The validator keeps its promise about a value unless it is a relative reference, as the parser
reads them, and the characters at its start match the expression of the scheme. -/
theorem acceptsAbsolute_iff (regexMatch : Option Bytes → Bool) (value : Bytes) :
    AcceptsAbsolute regexMatch value ↔
      HasScheme value ∨ value ∉ ParsedAuthority * PathEnd ∨
      regexMatch (leadingScheme value) = false := by
  unfold AcceptsAbsolute
  rw [uriValidator_true_iff]
  by_cases h : HasScheme value
  · refine iff_of_true ?_ (.inl h)
    rcases h with ⟨scheme, rest, hscheme, rfl⟩
    rintro ⟨-, hmatch⟩
    rw [leadingScheme_of_scheme hscheme] at hmatch
    have hrelative := (uriValidator_scheme regexMatch _ scheme rest hscheme rfl).2
    exact ⟨⟨scheme, rest, hscheme, rfl, hmatch⟩, hrelative⟩
  · rw [parse_fst_iff_of_not_hasScheme h, or_iff_right h]
    constructor
    · intro hpromise
      by_contra hcon
      rw [not_or, not_not, Bool.not_eq_false] at hcon
      rcases hpromise hcon with ⟨⟨scheme, rest, hscheme, heq, -⟩, -⟩
      exact h ⟨scheme, rest, hscheme, heq⟩
    · rintro hcon ⟨hread, hmatch⟩
      rcases hcon with hcon | hcon
      · exact absurd hread hcon
      · rw [hmatch] at hcon
        cases hcon

/-- The name of a file is accepted as an URI of the scheme that it is called like. -/
theorem acceptsAbsolute_fileName :
    ¬AcceptsAbsolute (fun range => range == some (bytes "http")) (bytes "http") := by
  intro h
  have haccepted : uriValidator (fun range => range == some (bytes "http")) true
      (bytes "http") = true := by
    decide
  rcases (h haccepted).1 with ⟨scheme, rest, -, heq, -⟩
  have hcolon : Ch.colon ∈ bytes "http" := by
    rw [heq]
    exact List.mem_append_right _ List.mem_cons_self
  exact absurd hcolon (by decide)

end Uri

end Xss

end Cppcms
