import Cppcms.Xss.UriMatcher

/-!
# The two recognizers of URIs

`rules::uri_validator` and `rules::uri_matcher` of `src/xss.cpp` are meant to accept the same URI
references.  They do not: the parser asks for the two slashes of a relative reference with an
authority nowhere, reads `userinfo` without going back where no `@` follows, and gives up at a
second `@`; and the expression takes what follows the scheme as a part of the last alternative of
the scheme only.  `Disputed` lists the values on which this matters, and the recognizers agree on
all the others (`uriValidator_eq_uriMatcher_iff`).
-/

namespace Cppcms

namespace Xss

namespace Uri

open Recognizer
open scoped Computability

/-! ## What the parser accepts -/

/-- The rest of a reference after its first part: a path, a query and a fragment. -/
def PathEnd : Language UInt8 := Matcher.pathAbempty.language * Matcher.queryAndFragment.language

/-- The text starts with a scheme and its colon. -/
def HasScheme (s : Bytes) : Prop := ∃ scheme rest, IsScheme scheme ∧ s = scheme ++ Ch.colon :: rest

lemma recognizes_hierRef :
    Recognizes (hierPart.andThen fun s => (true, queryAndFragment s))
      (ParsedHierPart * Matcher.queryAndFragment.language) (· = []) := by
  refine recognizes_hierPart.andThen recognizes_queryAndFragment ?_
  rintro v hv t rfl
  rw [List.append_nil]
  exact startsIn_queryAndFragment hv

variable {scheme : Bytes} {s : Bytes} {w : Bytes} {t : Bytes}

/-- A value with a scheme is accepted if the scheme matches and the rest is a hierarchical part. -/
lemma uriValidator_iff_of_scheme (regexMatch : Option Bytes → Bool) (h : IsScheme scheme)
    (rest : Bytes) :
    uriValidator regexMatch false (scheme ++ Ch.colon :: rest) = true ↔
      regexMatch (some scheme) = true ∧
      rest ∈ ParsedHierPart * Matcher.queryAndFragment.language := by
  have hparse : Parser.parse ⟨scheme ++ Ch.colon :: rest, none, false⟩ =
      ((queryAndFragment (hierPart rest).2).isEmpty,
        ⟨queryAndFragment (hierPart rest).2, some scheme, false⟩) := by
    simp [Parser.parse, Parser.uriReference, Parser.uri, readScheme_of_scheme h rest, andThen,
      follows, hierPart_fst]
  have hread : (hierPart.andThen fun s => (true, queryAndFragment s)) rest =
      (true, queryAndFragment (hierPart rest).2) := by
    rw [andThen, if_pos (hierPart_fst rest)]
  have hempty : (queryAndFragment (hierPart rest).2).isEmpty = true ↔
      rest ∈ ParsedHierPart * Matcher.queryAndFragment.language := by
    rw [← recognizes_hierRef.eq_nil_iff rfl, hread, List.isEmpty_iff, Prod.mk.injEq]
    exact (and_iff_right rfl).symm
  rw [← hempty]
  simp only [uriValidator, uriValidatorFunctor, hparse, Parser.hasScheme,
    Bool.false_eq_true, if_false]
  cases (queryAndFragment (hierPart rest).2).isEmpty <;> simp

/-- The rule for absolute URIs fails on a text without a scheme, and goes back. -/
lemma uri_of_not_hasScheme (h : ¬ HasScheme s) :
    ∃ scheme, Parser.uri ⟨s, none, false⟩ = (false, ⟨s, scheme, false⟩) := by
  rcases s with _ | ⟨c, s⟩
  · exact ⟨none, rfl⟩
  · by_cases hc : isAlapha c = true
    · have hcolon : (follows Ch.colon (s.dropWhile isSchemeChar)).1 = false := by
        refine Bool.eq_false_iff.2 fun hfollows => h ?_
        rcases (recognizes_follows Ch.colon).sound hfollows with ⟨w, hw, heq⟩
        refine ⟨c :: s.takeWhile isSchemeChar, (follows Ch.colon (s.dropWhile isSchemeChar)).2,
          ⟨c, _, rfl, hc, fun d hd => List.mem_takeWhile_imp hd⟩, ?_⟩
        rw [eq_of_mem_lit hw] at heq
        calc c :: s = c :: (s.takeWhile isSchemeChar ++ s.dropWhile isSchemeChar) := by
              rw [List.takeWhile_append_dropWhile]
          _ = _ := by
              rw [heq]
              rfl
      refine ⟨some (c :: s.takeWhile isSchemeChar), ?_⟩
      simp [Parser.uri, Parser.readScheme, hc, hcolon]
    · refine ⟨none, ?_⟩
      simp [Parser.uri, Parser.readScheme, hc]

/-- A value without a scheme is accepted if it starts with what the parser takes for an authority.
-/
lemma uriValidator_iff_of_not_hasScheme (regexMatch : Option Bytes → Bool) (h : ¬ HasScheme s) :
    uriValidator regexMatch false s = true ↔ s ∈ ParsedAuthority * PathEnd := by
  rcases uri_of_not_hasScheme h with ⟨scheme, huri⟩
  have hfst : (relativeRef s).1 = true := by
    rw [relativeRef, relativePart_eq, andThen_fst, andThen_fst, authority_fst]
    rfl
  have hparse : Parser.parse ⟨s, none, false⟩ =
      ((relativeRef s).2.isEmpty, ⟨(relativeRef s).2, scheme, true⟩) := by
    simp [Parser.parse, Parser.uriReference, huri, hfst]
  have hempty : (relativeRef s).2.isEmpty = true ↔ s ∈ ParsedAuthority * PathEnd := by
    rw [PathEnd, ← mul_assoc, ← recognizes_relativeRef.eq_nil_iff rfl,
      List.isEmpty_iff, Prod.ext_iff]
    exact (and_iff_right hfst).symm
  rw [← hempty]
  simp only [uriValidator, uriValidatorFunctor, hparse, Parser.hasScheme,
    Bool.false_eq_true, if_false]
  cases (relativeRef s).2.isEmpty <;> simp

/-! ## What the expression accepts -/

section Schemes

open Regex

variable {x r : Regex UInt8} {rs : List (Regex UInt8)}

variable {d : Captures UInt8} {u v : Bytes}

/-- The text of a scheme in front of an expression: the last alternative and the expression, or
another alternative. -/
lemma reads_joined (h : Reads (Matcher.joined x r rs) s d []) :
    (∃ e, Reads (any r rs) s e []) ∨
      ∃ u v, s = u ++ v ∧ (∃ e, Reads (rs.getLastD r) u e v) ∧ ∃ e, Reads x v e [] := by
  induction rs generalizing r d with
  | nil =>
    rcases reads_seq_iff.1 h with ⟨u, v, d₁, d₂, rfl, -, hu, hv⟩
    rw [List.append_nil] at hu
    exact .inr ⟨u, v, rfl, ⟨d₁, hu⟩, ⟨d₂, hv⟩⟩
  | cons r' rs ih =>
    rcases reads_alt_iff.1 h with hr | hrs
    · exact .inl ⟨d, .altLeft hr⟩
    · rcases ih hrs with ⟨e, he⟩ | hlast
      · exact .inl ⟨e, .altRight he⟩
      · rw [List.getLastD_cons]
        exact .inr hlast

lemma reads_joined_of_getLastD {d e : Captures UInt8} (hu : Reads (rs.getLastD r) u d v)
    (hv : Reads x v e []) : ∃ d', Reads (Matcher.joined x r rs) (u ++ v) d' [] := by
  induction rs generalizing r with
  | nil =>
    rw [← List.append_nil v] at hu
    exact ⟨_, .seq hu hv⟩
  | cons r' rs ih =>
    rw [List.getLastD_cons] at hu
    rcases ih hu with ⟨d', hd'⟩
    exact ⟨d', .altRight hd'⟩

/-- The last alternative is one of the alternatives. -/
lemma reads_any_of_getLastD (h : Reads (rs.getLastD r) u d v) :
    Reads (any r rs) u d v := by
  induction rs generalizing r with
  | nil => exact h
  | cons r' rs ih =>
    rw [List.getLastD_cons] at h
    exact .altRight (ih h)

end Schemes

/-- The expression reads schemes only. -/
def SchemesOnly (r : Regex UInt8) (rs : List (Regex UInt8)) : Prop :=
  ∀ w d t, Regex.Reads (Regex.any r rs) w d t → IsScheme w

/-- The last alternative of the expression of the scheme reads a scheme in front of a text. -/
def ReadsLast (r : Regex UInt8) (rs : List (Regex UInt8)) (scheme t : Bytes) : Prop :=
  ∃ d, Regex.Reads (rs.getLastD r) scheme d t

lemma exists_reads_hierRef_iff {v : Bytes} :
    (∃ e, Regex.Reads (.cat [Matcher.lit Ch.colon, Matcher.hierPart, Matcher.queryAndFragment]) v e
      []) ↔
      ∃ rest ∈ Matcher.hierPart.language * Matcher.queryAndFragment.language,
      v = Ch.colon :: rest := by
  rw [Regex.exists_reads_iff (by decide)]
  constructor
  · intro hv
    rcases Language.mem_mul.1 hv with ⟨y, hy, rest, hrest, rfl⟩
    rw [eq_of_mem_lit hy]
    exact ⟨rest, hrest, rfl⟩
  · rintro ⟨rest, hrest, rfl⟩
    exact append_mem_mul (mem_lit _) hrest

lemma mem_regName_of_forall (h : ∀ c ∈ w, [c] ∈ NameChar) : w ∈ Matcher.regName.language := by
  induction w with
  | nil => exact Language.nil_mem_kstar _
  | cons c w ih =>
    exact append_mem_kstar (h c List.mem_cons_self) (ih fun d hd => h d (List.mem_cons_of_mem _ hd))

/-- A scheme is a name. -/
lemma IsScheme.mem_regName (h : IsScheme scheme) : scheme ∈ Matcher.regName.language := by
  rcases h with ⟨c, tl, rfl, hc, htl⟩
  refine mem_regName_of_forall ?_
  intro d hd
  rcases List.mem_cons.1 hd with rfl | hd
  · refine singleton_mem_nameChar ?_
    rw [hc]
    rfl
  · have hchar := htl d hd
    by_cases hplus : d = Ch.plus
    · refine .inr (.inr (mem_language_subDelims.2 (.inr (.inr ⟨d, ?_, rfl⟩))))
      rw [hplus]
      decide
    · refine singleton_mem_nameChar ?_
      simp only [isSchemeChar, Bool.or_eq_true, beq_iff_eq, hplus, or_false] at hchar
      simp only [Bool.or_eq_true, List.contains_iff_mem]
      rcases hchar with ((hchar | hchar) | rfl) | rfl
      · exact .inl (.inl hchar)
      · exact .inl (.inr hchar)
      · exact .inr (by decide)
      · exact .inr (by decide)

lemma language_segmentNzNc : Matcher.segmentNzNc.language =
    (NameChar + (Matcher.lit Ch.at').language) * (NameChar + (Matcher.lit Ch.at').language)∗ := by
  rw [← language_nameChar_alt]
  rfl

lemma mem_segmentNzNc_of_regName (hw : w ∈ Matcher.regName.language) (hne : w ≠ []) :
    w ∈ Matcher.segmentNzNc.language := by
  rw [language_segmentNzNc]
  exact mem_mul_kstar_of_ne_nil (kstar_mono' (fun _ hu => .inl hu) hw) hne

lemma nil_mem_queryAndFragment : ([] : Bytes) ∈ Matcher.queryAndFragment.language :=
  ⟨[], .inr rfl, [], .inr rfl, rfl⟩

lemma nil_mem_pathEnd : ([] : Bytes) ∈ PathEnd :=
  ⟨[], Language.nil_mem_kstar _, [], nil_mem_queryAndFragment, rfl⟩

/-- The references of the expression without a scheme. -/
lemma mem_relativeRef_iff :
    s ∈ Matcher.relativeRef.language ↔
      (∃ a ∈ Matcher.authority.language, ∃ t ∈ PathEnd, s = bytes "//" ++ (a ++ t)) ∨
      (∃ w ∈ Matcher.segmentNzNc.language, ∃ t ∈ PathEnd, s = w ++ t) ∨
      s ∈ (Matcher.pathAbsolute.language + 1) * Matcher.queryAndFragment.language := by
  constructor
  · intro hs
    rcases Language.mem_mul.1 hs with ⟨y, hy, z, hz, rfl⟩
    rcases hy with (hy | hy | hy) | hy
    · rcases Language.mem_mul.1 hy with ⟨u, hu, v, hv, rfl⟩
      rcases Language.mem_mul.1 hv with ⟨a, ha, p, hp, rfl⟩
      refine .inl ⟨a, ha, p ++ z, append_mem_mul hp hz, ?_⟩
      rw [Regex.mem_language_word.1 hu, List.append_assoc, List.append_assoc]
    · exact .inr (.inr (append_mem_mul (.inl hy) hz))
    · rcases Language.mem_mul.1 hy with ⟨w, hw, p, hp, rfl⟩
      exact .inr (.inl ⟨w, hw, p ++ z, append_mem_mul hp hz, List.append_assoc _ _ _⟩)
    · exact .inr (.inr (append_mem_mul (.inr hy) hz))
  · rintro (⟨a, ha, t, ht, rfl⟩ | ⟨w, hw, t, ht, rfl⟩ | hs)
    · rcases Language.mem_mul.1 ht with ⟨p, hp, z, hz, rfl⟩
      rw [← List.append_assoc a, ← List.append_assoc (bytes "//")]
      exact append_mem_mul
        (.inl (.inl (append_mem_mul (Regex.mem_language_word.2 rfl) (append_mem_mul ha hp)))) hz
    · rcases Language.mem_mul.1 ht with ⟨p, hp, z, hz, rfl⟩
      rw [← List.append_assoc]
      exact append_mem_mul (.inl (.inr (.inr (append_mem_mul hw hp)))) hz
    · rcases Language.mem_mul.1 hs with ⟨y, hy | hy, z, hz, rfl⟩
      · exact append_mem_mul (.inl (.inr (.inl hy))) hz
      · exact append_mem_mul (.inr hy) hz

lemma IsScheme.ne_nil (h : IsScheme scheme) : scheme ≠ [] := by
  rcases h with ⟨c, tl, rfl, -⟩
  exact List.cons_ne_nil _ _

/-- The expression accepts what has a scheme of its last alternative, and what is relative. -/
lemma uriMatcher_iff {r : Regex UInt8} {rs : List (Regex UInt8)} (hscheme : SchemesOnly r rs)
    (s : Bytes) :
    Matcher.uriMatcher r rs s = true ↔
      (∃ scheme rest, s = scheme ++ Ch.colon :: rest ∧ ReadsLast r rs scheme (Ch.colon :: rest) ∧
        rest ∈ Matcher.hierPart.language * Matcher.queryAndFragment.language) ∨
      s ∈ Matcher.relativeRef.language := by
  have hrelative : (∃ d, Regex.Reads Matcher.relativeRef s d []) ↔
      s ∈ Matcher.relativeRef.language :=
    Regex.exists_reads_iff (by decide)
  rw [Matcher.uriMatcher, Regex.fullMatch_iff]
  constructor
  · rintro ⟨d, h⟩
    rcases Regex.reads_alt_iff.1 h with h | h
    · rcases reads_joined h with ⟨e, he⟩ | ⟨u, v, rfl, hu, hv⟩
      · -- another alternative has read the whole text, which is a name then
        have hs := hscheme s e [] he
        refine .inr (mem_relativeRef_iff.2
          (.inr (.inl ⟨s, ?_, [], nil_mem_pathEnd, (List.append_nil s).symm⟩)))
        exact mem_segmentNzNc_of_regName hs.mem_regName hs.ne_nil
      · rcases exists_reads_hierRef_iff.1 hv with ⟨rest, hrest, rfl⟩
        exact .inl ⟨u, rest, rfl, hu, hrest⟩
    · exact .inr (hrelative.1 ⟨d, h⟩)
  · rintro (⟨scheme, rest, rfl, ⟨d, hlast⟩, hrest⟩ | hs)
    · rcases exists_reads_hierRef_iff.2 ⟨rest, hrest, rfl⟩ with ⟨e, he⟩
      rcases reads_joined_of_getLastD hlast he with ⟨d', hd'⟩
      exact ⟨d', .altLeft hd'⟩
    · rcases hrelative.2 hs with ⟨d, hd⟩
      exact ⟨d, .altRight hd⟩

/-! ## The parts compared -/

/-- An address of four numbers is a name. -/
lemma mem_regName_of_host (hw : w ∈ Matcher.host.language) : w ∈ Matcher.regName.language := by
  rcases hw with hw | hw
  · refine mem_regName_of_forall ?_
    refine Regex.CharsIn.forall_mem (P := fun c => [c] ∈ NameChar) ?_ hw
    have hdot : Matcher.lit Ch.dot |>.CharsIn fun c => [c] ∈ NameChar := by
      intro c hc
      rw [eq_of_beq hc]
      exact singleton_mem_nameChar (by decide)
    have hoctet : Matcher.decOctet.CharsIn fun c => [c] ∈ NameChar := by
      have hdigit : ∀ {c : UInt8}, isDigit c = true → [c] ∈ NameChar := by
        intro c hc
        exact singleton_mem_nameChar (by rw [hc, Bool.or_true, Bool.true_or])
      have hlit : ∀ {d : UInt8}, isDigit d = true → (Matcher.lit d).CharsIn fun c =>
          [c] ∈ NameChar := by
        intro d hd c hc
        rw [eq_of_beq hc]
        exact hdigit hd
      have hrange : ∀ {a b : UInt8}, 0x30 ≤ a → b ≤ 0x39 → (Matcher.range a b).CharsIn fun c =>
          [c] ∈ NameChar := by
        intro a b ha hb c hc
        rw [Bool.and_eq_true, decide_eq_true_eq, decide_eq_true_eq] at hc
        refine hdigit ?_
        rw [isDigit, Bool.and_eq_true, decide_eq_true_eq, decide_eq_true_eq]
        exact ⟨UInt8.le_trans ha hc.1, UInt8.le_trans hc.2 hb⟩
      have hany : Matcher.digit.CharsIn fun c => [c] ∈ NameChar := fun c hc => hdigit hc
      exact ⟨hany, ⟨hrange (by decide) (by decide), hany⟩, ⟨hlit (by decide), hany, hany⟩,
        ⟨hlit (by decide), hrange (by decide) (by decide), hany⟩,
        ⟨hlit (by decide), hlit (by decide), hrange (by decide) (by decide)⟩⟩
    exact ⟨hoctet, hdot, hoctet, hdot, hoctet, hdot, hoctet⟩
  · exact hw

/-- An authority of the expression is an authority of the parser. -/
lemma mem_parsedAuthority_of_mem_authority (hw : w ∈ Matcher.authority.language) :
    w ∈ ParsedAuthority := by
  rcases Language.mem_mul.1 hw with ⟨u, hu, v, hv, rfl⟩
  rcases Language.mem_mul.1 hv with ⟨n, hn, p, hp, rfl⟩
  have hname := mem_regName_of_host hn
  rcases hu with hu | hu
  · rcases Language.mem_mul.1 hu with ⟨y, hy, z, hz, rfl⟩
    rw [List.append_assoc]
    exact .inr (append_mem_mul hy (append_mem_mul hz (append_mem_mul hname hp)))
  · rw [(Language.mem_one u).1 hu, List.nil_append]
    exact .inl (append_mem_userinfo (mem_userinfo_of_regName hname) (mem_userinfo_of_port hp))

/-- With an `@` the two authorities agree. -/
lemma mem_userinfo_or_mem_authority (hw : w ∈ ParsedAuthority) :
    w ∈ Matcher.userinfo.language ∨ w ∈ Matcher.authority.language := by
  rcases hw with hw | hw
  · exact .inl hw
  · rcases Language.mem_mul.1 hw with ⟨u, hu, x, hx, rfl⟩
    rcases Language.mem_mul.1 hx with ⟨y, hy, v, hv, rfl⟩
    rcases Language.mem_mul.1 hv with ⟨n, hn, p, hp, rfl⟩
    refine .inr ?_
    rw [← List.append_assoc u]
    exact append_mem_mul (.inl (append_mem_mul hu hy)) (append_mem_mul (.inr hn) hp)

lemma userinfo_le_segment (hw : w ∈ Matcher.userinfo.language) : w ∈ Matcher.segment.language := by
  rw [language_userinfo] at hw
  show w ∈ Matcher.pchar.language∗
  rw [language_pchar]
  refine kstar_mono' ?_ hw
  rintro u (hu | hu)
  · exact .inl hu
  · exact .inr (.inl hu)

/-- An authority is read as a segment of a path too. -/
lemma parsedAuthority_le_segment (hw : w ∈ ParsedAuthority) : w ∈ Matcher.segment.language := by
  rcases hw with hw | hw
  · exact userinfo_le_segment hw
  · rcases Language.mem_mul.1 hw with ⟨u, hu, x, hx, rfl⟩
    rcases Language.mem_mul.1 hx with ⟨y, hy, v, hv, rfl⟩
    rcases Language.mem_mul.1 hv with ⟨n, hn, p, hp, rfl⟩
    have hat : y ∈ Matcher.segment.language := by
      refine mem_kstar_of_mem ?_
      rw [language_pchar]
      exact .inr (.inr hy)
    have htail := append_mem_userinfo (mem_userinfo_of_regName hn) (mem_userinfo_of_port hp)
    exact kstar_append_kstar (userinfo_le_segment hu)
      (kstar_append_kstar hat (userinfo_le_segment htail))

lemma segmentNzNc_le_segment (hw : w ∈ Matcher.segmentNzNc.language) :
    w ∈ Matcher.segment.language := by
  rw [language_segmentNzNc] at hw
  rcases Language.mem_mul.1 hw with ⟨u, hu, v, hv, rfl⟩
  show u ++ v ∈ Matcher.pchar.language∗
  rw [language_pchar]
  refine kstar_mono' ?_ (append_mem_kstar hu hv)
  rintro u (hu | hu)
  · exact .inl hu
  · exact .inr (.inr hu)

/-- A segment without a colon. -/
lemma mem_segmentNzNc_of_notMem (hw : w ∈ Matcher.segment.language) (hne : w ≠ [])
    (hcolon : Ch.colon ∉ w) :
    w ∈ Matcher.segmentNzNc.language := by
  rw [language_segmentNzNc]
  refine mem_mul_kstar_of_ne_nil ?_ hne
  change w ∈ Matcher.pchar.language∗ at hw
  rw [language_pchar] at hw
  revert hcolon
  refine kstar_induction (P := fun w => Ch.colon ∉ w →
    w ∈ (NameChar + (Matcher.lit Ch.at').language)∗)
    (fun _ => Language.nil_mem_kstar _) ?_ hw
  intro u hu v _ ih hcolon
  rw [List.mem_append, not_or] at hcolon
  refine append_mem_kstar ?_ (ih hcolon.2)
  rcases hu with hu | hu | hu
  · exact .inl hu
  · rw [eq_of_mem_lit hu] at hcolon
    exact absurd List.mem_cons_self hcolon.1
  · exact .inr hu

lemma notMem_colon_of_mem_segmentNzNc (hw : w ∈ Matcher.segmentNzNc.language) : Ch.colon ∉ w := by
  rw [language_segmentNzNc] at hw
  rcases Language.mem_mul.1 hw with ⟨u, hu, v, hv, rfl⟩
  exact fun hc => avoids_segmentNzNcChar.kstar _ (append_mem_kstar hu hv) _ hc (by decide)

lemma ne_nil_of_mem_segmentNzNc (hw : w ∈ Matcher.segmentNzNc.language) : w ≠ [] := by
  rw [language_segmentNzNc] at hw
  rcases Language.mem_mul.1 hw with ⟨u, hu, v, -, rfl⟩
  intro hnil
  rw [(List.append_eq_nil_iff.1 hnil).1] at hu
  exact recognizes_segmentNzNcChar.nil_notMem progresses_segmentNzNcChar trivial hu

/-! ### Counting the signs of a user -/

lemma count_at_of_mem_userinfo (hw : w ∈ Matcher.userinfo.language) : w.count Ch.at' = 0 := by
  rw [language_userinfo] at hw
  exact List.count_eq_zero.2 fun hc => avoids_userinfoChar.kstar _ hw _ hc (by decide)

/-- The parser reads one `@`. -/
lemma count_at_of_mem_parsedAuthority (hw : w ∈ ParsedAuthority) : w.count Ch.at' ≤ 1 := by
  rcases hw with hw | hw
  · rw [count_at_of_mem_userinfo hw]
    exact Nat.zero_le 1
  · rcases Language.mem_mul.1 hw with ⟨u, hu, x, hx, rfl⟩
    rcases Language.mem_mul.1 hx with ⟨y, hy, v, hv, rfl⟩
    rcases Language.mem_mul.1 hv with ⟨n, hn, p, hp, rfl⟩
    rw [eq_of_mem_lit hy]
    simp only [List.count_append, count_at_of_mem_userinfo hu,
      count_at_of_mem_userinfo (mem_userinfo_of_regName hn),
      count_at_of_mem_userinfo (mem_userinfo_of_port hp), List.count_singleton_self]
    exact le_rfl

/-- The parser reads every segment without a colon in which there is one `@` at most. -/
lemma mem_parsedAuthority_of_count_at (hw : w ∈ Matcher.segmentNzNc.language)
    (hat : w.count Ch.at' ≤ 1) :
    w ∈ ParsedAuthority := by
  have hnames : ∀ {w : Bytes}, w ∈ (NameChar + (Matcher.lit Ch.at').language)∗ →
      (w.count Ch.at' = 0 → w ∈ Matcher.regName.language) ∧
      (w.count Ch.at' = 1 → ∃ u ∈ Matcher.regName.language, ∃ v ∈ Matcher.regName.language,
        w = u ++ Ch.at' :: v) := by
    intro w hw
    refine kstar_induction (P := fun w => (w.count Ch.at' = 0 → w ∈ Matcher.regName.language) ∧
      (w.count Ch.at' = 1 → ∃ u ∈ Matcher.regName.language, ∃ v ∈ Matcher.regName.language,
        w = u ++ Ch.at' :: v))
      ⟨fun _ => Language.nil_mem_kstar _, fun h => absurd h (by decide)⟩ ?_ hw
    rintro x (hx | hx) y - ⟨ihzero, ihone⟩
    · have hzero : x.count Ch.at' = 0 :=
        List.count_eq_zero.2 fun hc => avoids_nameChar x hx _ hc (by decide)
      rw [List.count_append, hzero, Nat.zero_add]
      constructor
      · exact fun h => append_mem_kstar hx (ihzero h)
      · intro h
        rcases ihone h with ⟨u, hu, v, hv, rfl⟩
        exact ⟨x ++ u, append_mem_kstar hx hu, v, hv, (List.append_assoc _ _ _).symm⟩
    · rw [eq_of_mem_lit hx, List.count_append, List.count_singleton_self]
      constructor
      · intro h
        omega
      · exact fun h => ⟨[], Language.nil_mem_kstar _, y, ihzero (by omega), rfl⟩
  rw [language_segmentNzNc] at hw
  rcases Language.mem_mul.1 hw with ⟨x, hx, y, hy, rfl⟩
  rcases hnames (append_mem_kstar hx hy) with ⟨hzero, hone⟩
  rcases Nat.le_one_iff_eq_zero_or_eq_one.1 hat with hat | hat
  · exact .inl (mem_userinfo_of_regName (hzero hat))
  · rcases hone hat with ⟨u, hu, v, hv, heq⟩
    rw [heq, ← List.append_nil v]
    exact .inr (append_mem_mul (mem_userinfo_of_regName hu)
      (append_mem_mul (mem_lit _) (append_mem_mul hv (.inr rfl))))

/-! ## Where the recognizers differ -/

lemma startsIn_pathEnd (ht : t ∈ PathEnd) : StartsIn (bytes "/?#") t := by
  rcases Language.mem_mul.1 ht with ⟨p, hp, z, hz, rfl⟩
  exact startsIn_append_path hp (startsIn_queryAndFragment hz)

/-- The end of a reference that starts with two slashes goes on with a segment. -/
lemma mem_pathEnd_iff :
    s ∈ PathEnd ↔ s ∈ (Matcher.pathAbsolute.language + 1) * Matcher.queryAndFragment.language ∨
      ∃ w ∈ Matcher.segment.language, ∃ t ∈ PathEnd, s = bytes "//" ++ (w ++ t) := by
  have hround : ∀ {w : Bytes}, w ∈ Matcher.segment.language →
      Ch.slash :: w ∈ (Regex.seq (Matcher.lit Ch.slash) Matcher.segment).language :=
    fun hw => append_mem_mul (mem_lit _) hw
  constructor
  · intro hs
    rcases Language.mem_mul.1 hs with ⟨p, hp, z, hz, rfl⟩
    by_cases hnil : p = []
    · exact .inl (append_mem_mul (.inr hnil) hz)
    rcases Language.mem_mul.1 (mem_mul_kstar_of_ne_nil hp hnil) with ⟨x, hx, p₁, hp₁, rfl⟩
    rcases Language.mem_mul.1 hx with ⟨l, hl, w, hw, rfl⟩
    rw [eq_of_mem_lit hl] at *
    by_cases hw' : w = []
    · subst hw'
      by_cases hnil₁ : p₁ = []
      · rw [hnil₁]
        exact .inl (append_mem_mul (.inl (append_mem_mul (mem_lit _) (.inr rfl))) hz)
      · -- an empty segment, with another one behind it
        rcases Language.mem_mul.1 (mem_mul_kstar_of_ne_nil hp₁ hnil₁) with ⟨y, hy, p₂, hp₂, rfl⟩
        rcases Language.mem_mul.1 hy with ⟨l₂, hl₂, w₂, hw₂, rfl⟩
        refine .inr ⟨w₂, hw₂, p₂ ++ z, append_mem_mul hp₂ hz, ?_⟩
        rw [eq_of_mem_lit hl₂]
        simp only [List.append_assoc]
        rfl
    · refine .inl (append_mem_mul (.inl ?_) hz)
      rw [List.append_assoc]
      exact append_mem_mul (mem_lit _) (.inl (append_mem_mul (mem_mul_kstar_of_ne_nil hw hw') hp₁))
  · rintro (hs | ⟨w, hw, t, ht, rfl⟩)
    · rcases Language.mem_mul.1 hs with ⟨x, hx | hx, z, hz, rfl⟩
      · refine append_mem_mul ?_ hz
        rcases Language.mem_mul.1 hx with ⟨l, hl, y, hy | hy, rfl⟩
        · rcases Language.mem_mul.1 hy with ⟨w, hw, p, hp, rfl⟩
          rcases Language.mem_mul.1 hw with ⟨c, hc, w', hw', rfl⟩
          rw [← List.append_assoc]
          exact append_mem_kstar (append_mem_mul hl (append_mem_kstar hc hw')) hp
        · rw [(Language.mem_one y).1 hy]
          exact mem_kstar_of_mem (append_mem_mul hl (Language.nil_mem_kstar _))
      · rw [(Language.mem_one x).1 hx]
        exact append_mem_mul (Language.nil_mem_kstar _) hz
    · rcases Language.mem_mul.1 ht with ⟨p, hp, z, hz, rfl⟩
      have hpath : [Ch.slash] ++ (Ch.slash :: w ++ p) ∈ Matcher.pathAbempty.language :=
        append_mem_kstar (hround (Language.nil_mem_kstar _)) (append_mem_kstar (hround hw) hp)
      have h := append_mem_mul hpath hz
      simp only [List.append_assoc] at h
      exact h

/-- Two slashes start no other part of a reference. -/
lemma append_ne_slashes {x z t : Bytes}
    (hx : x ∈ Matcher.pathAbsolute.language + (Matcher.pathRootless.language + 1))
    (hz : z ∈ Matcher.queryAndFragment.language) : x ++ z ≠ bytes "//" ++ t := by
  intro heq
  have hfalse := followsString_fst_eq_false hx (startsIn_queryAndFragment hz)
  rw [heq, (recognizes_followsString _).complete (Regex.mem_language_word.2 rfl) trivial] at hfalse
  cases hfalse

/-- The parser takes nothing for an authority in front of a path. -/
lemma mem_parsedAuthority_mul_of_mem_pathEnd (ht : t ∈ PathEnd) : t ∈ ParsedAuthority * PathEnd :=
  ⟨[], .inl (Language.nil_mem_kstar _), t, ht, rfl⟩

/-- A scheme and its colon are a part of the first segment. -/
lemma exists_segment_of_scheme (h : IsScheme scheme) (rest : Bytes) :
    ∃ v t, rest = v ++ t ∧ scheme ++ Ch.colon :: v ∈ Matcher.segment.language ∧
    (pchar t).1 = false := by
  rcases recognizes_segment.sound (s := rest) rfl with ⟨v, hv, heq⟩
  refine ⟨v, (segment rest).2, heq, ?_, many_stop progresses_pchar rest⟩
  have hcolon : [Ch.colon] ∈ Matcher.pchar.language := by
    rw [language_pchar]
    exact .inr (.inl (mem_lit _))
  exact kstar_append_kstar (userinfo_le_segment (mem_userinfo_of_regName h.mem_regName))
    (append_mem_kstar hcolon hv)

/-- A segment is divided from the rest in one way. -/
lemma segment_append_inj {v w s t : Bytes} (hv : v ∈ Matcher.segment.language)
    (hw : w ∈ Matcher.segment.language) (hs : (pchar s).1 = false) (ht : (pchar t).1 = false)
    (h : v ++ s = w ++ t) : v = w ∧ s = t := by
  have hsegment : Recognizes segment Matcher.segment.language fun t => (pchar t).1 = false :=
    recognizes_pchar.many progresses_pchar (fun _ _ _ _ => trivial) fun _ ht => ht
  exact hsegment.append_inj hv hw hs ht h

lemma pchar_of_startsIn (ht : StartsIn (bytes "/?#") t) : (pchar t).1 = false :=
  recognizes_pchar.fst_eq_false progresses_pchar avoids_pchar ht

lemma pchar_of_mem_pathEnd (ht : t ∈ PathEnd) : (pchar t).1 = false :=
  pchar_of_startsIn (startsIn_pathEnd ht)

/-- A scheme is divided from the rest in one way. -/
lemma scheme_append_inj {scheme scheme' rest rest' : Bytes} (h : IsScheme scheme)
    (h' : IsScheme scheme') (heq : scheme ++ Ch.colon :: rest = scheme' ++ Ch.colon :: rest') :
    scheme = scheme' ∧ rest = rest' := by
  rcases recognizes_regName.append_inj h.mem_regName h'.mem_regName (startsIn_cons (by decide) _)
    (startsIn_cons (by decide) _) heq with ⟨hs, hr⟩
  exact ⟨hs, (List.cons.inj hr).2⟩

/-- A first segment with a colon starts no relative reference of the expression. -/
lemma notMem_relativeRef_of_colon {w t : Bytes} (hw : w ∈ Matcher.segment.language)
    (hcolon : Ch.colon ∈ w) (ht : (pchar t).1 = false) : w ++ t ∉ Matcher.relativeRef.language := by
  have hempty : ∀ {s : Bytes}, StartsIn (bytes "/?#") s → w ++ t ≠ s := by
    intro s hs heq
    have h := segment_append_inj hw (Language.nil_mem_kstar _) ht (pchar_of_startsIn hs) heq
    rw [h.1] at hcolon
    cases hcolon
  intro hs
  rcases mem_relativeRef_iff.1 hs with ⟨a, -, t', -, heq⟩ | ⟨w', hw', t', ht', heq⟩ | hs
  · exact hempty (startsIn_cons (by decide) _) heq
  · have h := segment_append_inj hw (segmentNzNc_le_segment hw') ht (pchar_of_mem_pathEnd ht') heq
    rw [h.1] at hcolon
    exact notMem_colon_of_mem_segmentNzNc hw' hcolon
  · exact hempty (startsIn_pathEnd (mem_pathEnd_iff.2 (.inl hs))) rfl

/-- The colon of a scheme is in the first segment. -/
lemma colon_mem_of_hasScheme {w t : Bytes} (hw : w ∈ Matcher.segment.language)
    (ht : (pchar t).1 = false) (h : HasScheme (w ++ t)) : Ch.colon ∈ w := by
  rcases h with ⟨scheme, rest, hscheme, heq⟩
  rcases exists_segment_of_scheme hscheme rest with ⟨v, t', rfl, hv, ht'⟩
  rw [← List.cons_append, ← List.append_assoc] at heq
  rw [(segment_append_inj hw hv ht ht' heq).1]
  exact List.mem_append_right _ List.mem_cons_self

/-- A text that starts with no character of a segment has no scheme. -/
lemma not_hasScheme_of_startsIn (hs : StartsIn (bytes "/?#") s) : ¬ HasScheme s := by
  intro h
  cases colon_mem_of_hasScheme (w := []) (Language.nil_mem_kstar _) (pchar_of_startsIn hs) h

/-- The values on which the two recognizers differ. -/
inductive Disputed (r : Regex UInt8) (rs : List (Regex UInt8)) : Bytes → Prop
  /-- The scheme matches, but the last alternative does not match it in front of its colon. -/
  | otherAlternative {scheme rest : Bytes} (hscheme : IsScheme scheme)
      (hmatch : (Regex.any r rs).fullMatch scheme = true)
      (hlast : ¬ ReadsLast r rs scheme (Ch.colon :: rest))
      (hrest : rest ∈ ParsedHierPart * Matcher.queryAndFragment.language) :
      Disputed r rs (scheme ++ Ch.colon :: rest)
  /-- The last alternative looks ahead: it matches the scheme in front of its colon, and not alone.
  -/
  | colonAhead {scheme rest : Bytes} (hscheme : IsScheme scheme)
      (hmatch : (Regex.any r rs).fullMatch scheme = false)
      (hlast : ReadsLast r rs scheme (Ch.colon :: rest))
      (hrest : rest ∈ Matcher.hierPart.language * Matcher.queryAndFragment.language) :
      Disputed r rs (scheme ++ Ch.colon :: rest)
  /-- User information without an `@` that is no host and port. -/
  | userinfo {scheme w t : Bytes} (hscheme : IsScheme scheme)
      (hmatch : (Regex.any r rs).fullMatch scheme = true)
      (hlast : ReadsLast r rs scheme (Ch.colon :: (bytes "//" ++ (w ++ t))))
        (hw : w ∈ Matcher.userinfo.language)
      (hauthority : w ∉ Matcher.authority.language) (ht : t ∈ PathEnd) :
      Disputed r rs (scheme ++ Ch.colon :: (bytes "//" ++ (w ++ t)))
  /-- Two slashes and a segment that is no authority. -/
  | slashes {w t : Bytes} (hw : w ∈ Matcher.segment.language)
      (hauthority : w ∉ Matcher.authority.language)
      (ht : t ∈ PathEnd) : Disputed r rs (bytes "//" ++ (w ++ t))
  /-- A first segment with two `@`. -/
  | signs {w t : Bytes} (hw : w ∈ Matcher.segmentNzNc.language) (hat : 2 ≤ w.count Ch.at')
      (ht : t ∈ PathEnd) :
      Disputed r rs (w ++ t)
  /-- A first segment with a colon that the parser takes for an authority. -/
  | colon {w t : Bytes} (hw : w ∈ ParsedAuthority) (hcolon : Ch.colon ∈ w) (ht : t ∈ PathEnd)
      (hscheme : ¬ HasScheme (w ++ t)) : Disputed r rs (w ++ t)

section Agreement

variable {r : Regex UInt8} {rs : List (Regex UInt8)}

/-- With a scheme, the expression asks for a hierarchical part after the last alternative. -/
lemma uriMatcher_iff_of_scheme (hschemes : SchemesOnly r rs) (h : IsScheme scheme) (rest : Bytes) :
    Matcher.uriMatcher r rs (scheme ++ Ch.colon :: rest) = true ↔
      ReadsLast r rs scheme (Ch.colon :: rest) ∧
        rest ∈ Matcher.hierPart.language * Matcher.queryAndFragment.language := by
  rw [uriMatcher_iff hschemes]
  constructor
  · rintro (⟨scheme', rest', heq, hlast, hrest⟩ | hs)
    · rcases hlast with ⟨d, hd⟩
      rcases scheme_append_inj h (hschemes _ _ _ (reads_any_of_getLastD hd)) heq with ⟨rfl, rfl⟩
      exact ⟨⟨d, hd⟩, hrest⟩
    · rcases exists_segment_of_scheme h rest with ⟨v, t, rfl, hv, ht⟩
      rw [← List.cons_append, ← List.append_assoc] at hs
      exact absurd hs
        (notMem_relativeRef_of_colon hv (List.mem_append_right _ List.mem_cons_self) ht)
  · rintro ⟨hlast, hrest⟩
    exact .inl ⟨scheme, rest, rfl, hlast, hrest⟩

/-- Without a scheme, the expression asks for a relative reference. -/
lemma uriMatcher_iff_of_not_hasScheme (hschemes : SchemesOnly r rs) (h : ¬ HasScheme s) :
    Matcher.uriMatcher r rs s = true ↔ s ∈ Matcher.relativeRef.language := by
  rw [uriMatcher_iff hschemes]
  constructor
  · rintro (⟨scheme, rest, heq, ⟨d, hd⟩, -⟩ | hs)
    · exact absurd ⟨scheme, rest, hschemes _ _ _ (reads_any_of_getLastD hd), heq⟩ h
    · exact hs
  · exact .inr

variable {rest : Bytes}

/-- The hierarchical parts of the expression are those of the parser, up to the authority. -/
lemma mem_hierPart_cases (h : rest ∈ ParsedHierPart * Matcher.queryAndFragment.language) :
    rest ∈ Matcher.hierPart.language * Matcher.queryAndFragment.language ∨
      ∃ w ∈ Matcher.userinfo.language, w ∉ Matcher.authority.language ∧
      ∃ t ∈ PathEnd, rest = bytes "//" ++ (w ++ t) := by
  rcases Language.mem_mul.1 h with ⟨x, hx, z, hz, rfl⟩
  rcases hx with hx | hx | hx | hx
  · rcases Language.mem_mul.1 hx with ⟨y, hy, v, hv, rfl⟩
    rcases Language.mem_mul.1 hv with ⟨w, hw, p, hp, rfl⟩
    by_cases hauthority : w ∈ Matcher.authority.language
    · exact .inl
        (append_mem_mul (.inl (.inl (append_mem_mul hy (append_mem_mul hauthority hp)))) hz)
    · refine .inr ⟨w, ?_, hauthority, p ++ z, append_mem_mul hp hz, ?_⟩
      · exact (mem_userinfo_or_mem_authority hw).resolve_right hauthority
      · rw [Regex.mem_language_word.1 hy, List.append_assoc, List.append_assoc]
  · exact .inl (append_mem_mul (.inl (.inr (.inl hx))) hz)
  · exact .inl (append_mem_mul (.inl (.inr (.inr hx))) hz)
  · exact .inl (append_mem_mul (.inr hx) hz)

lemma mem_parsedHierPart_of_mem_hierPart
    (h : rest ∈ Matcher.hierPart.language * Matcher.queryAndFragment.language) :
    rest ∈ ParsedHierPart * Matcher.queryAndFragment.language := by
  rcases Language.mem_mul.1 h with ⟨x, hx, z, hz, rfl⟩
  refine append_mem_mul ?_ hz
  rcases hx with (hx | hx | hx) | hx
  · rcases Language.mem_mul.1 hx with ⟨y, hy, v, hv, rfl⟩
    rcases Language.mem_mul.1 hv with ⟨w, hw, p, hp, rfl⟩
    exact .inl (append_mem_mul hy (append_mem_mul (mem_parsedAuthority_of_mem_authority hw) hp))
  · exact .inr (.inl hx)
  · exact .inr (.inr (.inl hx))
  · exact .inr (.inr (.inr hx))

/-- Two slashes with something that is no authority are no hierarchical part of the expression. -/
lemma notMem_hierPart_of_notMem_authority {w t : Bytes} (hw : w ∈ Matcher.segment.language)
    (hauthority : w ∉ Matcher.authority.language) (ht : t ∈ PathEnd) :
    bytes "//" ++ (w ++ t) ∉ Matcher.hierPart.language * Matcher.queryAndFragment.language := by
  intro h
  rcases Language.mem_mul.1 h with ⟨x, hx, z, hz, heq⟩
  rcases hx with (hx | hx | hx) | hx
  · rcases Language.mem_mul.1 hx with ⟨y, hy, v, hv, rfl⟩
    rcases Language.mem_mul.1 hv with ⟨a, ha, p, hp, rfl⟩
    rw [Regex.mem_language_word.1 hy, List.append_assoc, List.append_assoc] at heq
    have hsegment := parsedAuthority_le_segment (mem_parsedAuthority_of_mem_authority ha)
    have h := segment_append_inj hsegment hw (pchar_of_mem_pathEnd (append_mem_mul hp hz))
      (pchar_of_mem_pathEnd ht)
      (List.append_cancel_left heq)
    exact hauthority (h.1 ▸ ha)
  · exact append_ne_slashes (.inl hx) hz heq
  · exact append_ne_slashes (.inr (.inl hx)) hz heq
  · exact append_ne_slashes (.inr (.inr hx)) hz heq

/-- On a disputed value one of the recognizers accepts, and the other does not. -/
lemma Disputed.ne (hschemes : SchemesOnly r rs) (h : Disputed r rs s) :
    ¬ (uriValidator (Matcher.schemeMatch r rs) false s = true ↔
      Matcher.uriMatcher r rs s = true) := by
  intro hiff
  cases h with
  | otherAlternative hscheme hmatch hlast hrest =>
    rw [uriValidator_iff_of_scheme _ hscheme, uriMatcher_iff_of_scheme hschemes hscheme] at hiff
    exact hlast (hiff.1 ⟨hmatch, hrest⟩).1
  | colonAhead hscheme hmatch hlast hrest =>
    rw [uriValidator_iff_of_scheme _ hscheme, uriMatcher_iff_of_scheme hschemes hscheme] at hiff
    exact Bool.false_ne_true (hmatch.symm.trans (hiff.2 ⟨hlast, hrest⟩).1)
  | @userinfo scheme w t hscheme hmatch hlast hw hauthority ht =>
    rw [uriValidator_iff_of_scheme _ hscheme, uriMatcher_iff_of_scheme hschemes hscheme] at hiff
    have hparsed : bytes "//" ++ (w ++ t) ∈ ParsedHierPart * Matcher.queryAndFragment.language := by
      rcases Language.mem_mul.1 ht with ⟨p, hp, z, hz, rfl⟩
      rw [← List.append_assoc w, ← List.append_assoc (bytes "//")]
      exact append_mem_mul
        (.inl (append_mem_mul (Regex.mem_language_word.2 rfl) (append_mem_mul (.inl hw) hp))) hz
    exact notMem_hierPart_of_notMem_authority (userinfo_le_segment hw) hauthority ht
      (hiff.1 ⟨hmatch, hparsed⟩).2
  | @slashes w t hw hauthority ht =>
    have hstart : StartsIn (bytes "/?#") (bytes "//" ++ (w ++ t)) := startsIn_cons (by decide) _
    have hnone := not_hasScheme_of_startsIn hstart
    rw [uriValidator_iff_of_not_hasScheme _ hnone,
      uriMatcher_iff_of_not_hasScheme hschemes hnone] at hiff
    have hs :=
      hiff.1 (mem_parsedAuthority_mul_of_mem_pathEnd (mem_pathEnd_iff.2 (.inr ⟨w, hw, t, ht, rfl⟩)))
    rcases mem_relativeRef_iff.1 hs with ⟨a, ha, t', ht', heq⟩ | ⟨w', hw', t', ht', heq⟩ | hs
    · have hsegment := parsedAuthority_le_segment (mem_parsedAuthority_of_mem_authority ha)
      have h := segment_append_inj hw hsegment (pchar_of_mem_pathEnd ht) (pchar_of_mem_pathEnd ht')
        (List.append_cancel_left heq)
      exact hauthority (h.1 ▸ ha)
    · have h := segment_append_inj (Language.nil_mem_kstar _) (segmentNzNc_le_segment hw')
        (pchar_of_startsIn hstart)
        (pchar_of_mem_pathEnd ht') heq
      exact ne_nil_of_mem_segmentNzNc hw' h.1.symm
    · rcases Language.mem_mul.1 hs with ⟨x, hx | hx, z, hz, heq⟩
      · exact append_ne_slashes (.inl hx) hz heq
      · exact append_ne_slashes (.inr (.inr hx)) hz heq
  | @signs w t hw hat ht =>
    have hsegment := segmentNzNc_le_segment hw
    have hnone : ¬ HasScheme (w ++ t) := fun h =>
      notMem_colon_of_mem_segmentNzNc hw
        (colon_mem_of_hasScheme hsegment (pchar_of_mem_pathEnd ht) h)
    rw [uriValidator_iff_of_not_hasScheme _ hnone,
      uriMatcher_iff_of_not_hasScheme hschemes hnone] at hiff
    rcases Language.mem_mul.1
      (hiff.2 (mem_relativeRef_iff.2 (.inr (.inl ⟨w, hw, t, ht, rfl⟩)))) with ⟨w',
      hw', t', ht', heq⟩
    have h := segment_append_inj (parsedAuthority_le_segment hw') hsegment
      (pchar_of_mem_pathEnd ht')
      (pchar_of_mem_pathEnd ht) heq
    have hle := count_at_of_mem_parsedAuthority hw'
    rw [h.1] at hle
    omega
  | colon hw hcolon ht hnone =>
    rw [uriValidator_iff_of_not_hasScheme _ hnone,
      uriMatcher_iff_of_not_hasScheme hschemes hnone] at hiff
    exact notMem_relativeRef_of_colon (parsedAuthority_le_segment hw) hcolon
      (pchar_of_mem_pathEnd ht)
      (hiff.1 (append_mem_mul hw ht))

/-- With a scheme, a value that is not disputed is accepted by both or by none. -/
lemma iff_of_scheme (hschemes : SchemesOnly r rs) {scheme rest : Bytes} (h : IsScheme scheme)
    (hnot : ¬ Disputed r rs (scheme ++ Ch.colon :: rest)) :
    uriValidator (Matcher.schemeMatch r rs) false (scheme ++ Ch.colon :: rest) = true ↔
      Matcher.uriMatcher r rs (scheme ++ Ch.colon :: rest) = true := by
  rw [uriValidator_iff_of_scheme _ h, uriMatcher_iff_of_scheme hschemes h]
  constructor
  · rintro ⟨hmatch, hrest⟩
    by_cases hlast : ReadsLast r rs scheme (Ch.colon :: rest)
    · refine ⟨hlast, ?_⟩
      rcases mem_hierPart_cases hrest with hhier | ⟨w, hw, hauthority, t, ht, rfl⟩
      · exact hhier
      · exact absurd (.userinfo h hmatch hlast hw hauthority ht) hnot
    · exact absurd (.otherAlternative h hmatch hlast hrest) hnot
  · rintro ⟨hlast, hrest⟩
    refine ⟨?_, mem_parsedHierPart_of_mem_hierPart hrest⟩
    by_contra hmatch
    exact hnot (.colonAhead h (Bool.not_eq_true _ ▸ hmatch) hlast hrest)

/-- Without a scheme, a value that is not disputed is accepted by both or by none. -/
lemma iff_of_not_hasScheme (hschemes : SchemesOnly r rs) (h : ¬ HasScheme s)
    (hnot : ¬ Disputed r rs s) :
    uriValidator (Matcher.schemeMatch r rs) false s = true ↔ Matcher.uriMatcher r rs s = true := by
  rw [uriValidator_iff_of_not_hasScheme _ h, uriMatcher_iff_of_not_hasScheme hschemes h]
  constructor
  · intro hs
    rcases Language.mem_mul.1 hs with ⟨w, hw, t, ht, rfl⟩
    by_cases hnil : w = []
    · rw [hnil, List.nil_append] at hnot ⊢
      rcases mem_pathEnd_iff.1 ht with hpath | ⟨v, hv, t', ht', rfl⟩
      · exact mem_relativeRef_iff.2 (.inr (.inr hpath))
      · by_cases hauthority : v ∈ Matcher.authority.language
        · exact mem_relativeRef_iff.2 (.inl ⟨v, hauthority, t', ht', rfl⟩)
        · exact absurd (.slashes hv hauthority ht') hnot
    · by_cases hcolon : Ch.colon ∈ w
      · exact absurd (.colon hw hcolon ht h) hnot
      · have hsegment := mem_segmentNzNc_of_notMem (parsedAuthority_le_segment hw) hnil hcolon
        exact mem_relativeRef_iff.2 (.inr (.inl ⟨w, hsegment, t, ht, rfl⟩))
  · intro hs
    rcases mem_relativeRef_iff.1 hs with ⟨a, ha, t, ht, rfl⟩ | ⟨w, hw, t, ht, rfl⟩ | hs
    · have hsegment := parsedAuthority_le_segment (mem_parsedAuthority_of_mem_authority ha)
      exact mem_parsedAuthority_mul_of_mem_pathEnd
        (mem_pathEnd_iff.2 (.inr ⟨a, hsegment, t, ht, rfl⟩))
    · by_cases hat : w.count Ch.at' ≤ 1
      · exact append_mem_mul (mem_parsedAuthority_of_count_at hw hat) ht
      · exact absurd (.signs hw (by omega) ht) hnot
    · exact mem_parsedAuthority_mul_of_mem_pathEnd (mem_pathEnd_iff.2 (.inl hs))

end Agreement

/-- The two recognizers of URIs agree on a value exactly if it is not disputed. -/
theorem uriValidator_eq_uriMatcher_iff (r : Regex UInt8) (rs : List (Regex UInt8))
    (hschemes : SchemesOnly r rs) (s : Bytes) :
    uriValidator (Matcher.schemeMatch r rs) false s = Matcher.uriMatcher r rs s ↔
    ¬ Disputed r rs s := by
  rw [Bool.eq_iff_iff]
  constructor
  · exact fun hiff h => h.ne hschemes hiff
  · intro hnot
    by_cases h : HasScheme s
    · rcases h with ⟨scheme, rest, hscheme, rfl⟩
      exact iff_of_scheme hschemes hscheme hnot
    · exact iff_of_not_hasScheme hschemes h hnot

lemma schemesOnly_http : SchemesOnly (Regex.word (bytes "http")) [] := by
  intro w d t h
  rw [Regex.mem_language_word.1 (h.mem_language (by decide))]
  refine ⟨0x68, bytes "ttp", ?_, ?_, ?_⟩
  · decide
  · decide
  · set_option maxRecDepth 2048 in decide

theorem uriValidator_eq_uriMatcher_http :
    SchemesOnly (Regex.word (bytes "http")) [] ∧
      (uriValidator (Matcher.schemeMatch (Regex.word (bytes "http")) []) false
        (bytes "http://a/?b") =
        Matcher.uriMatcher (Regex.word (bytes "http")) [] (bytes "http://a/?b") ↔
        ¬ Disputed (Regex.word (bytes "http")) [] (bytes "http://a/?b")) :=
  ⟨schemesOnly_http, uriValidator_eq_uriMatcher_iff _ _ schemesOnly_http _⟩

/-- A host with a port behind a user is a relative reference for the parser. -/
theorem uriValidator_ne_uriMatcher_host :
    SchemesOnly (Regex.word (bytes "http")) [] ∧
      uriValidator (Matcher.schemeMatch (Regex.word (bytes "http")) []) false
        (bytes "a@b:80") = true ∧
      Matcher.uriMatcher (Regex.word (bytes "http")) [] (bytes "a@b:80") = false :=
  ⟨schemesOnly_http, by decide, by decide⟩

end Uri

end Xss

end Cppcms
