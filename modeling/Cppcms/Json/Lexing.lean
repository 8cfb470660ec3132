import Cppcms.Encoding.Hex
import Cppcms.Json.Automaton
import Cppcms.Json.Tokenizer

/-!
# The tokenizer follows the lexical grammar

`tokenize` finds the tokens of a text if and only if the text consists of them, and so
`parse_stream` accepts the texts of the grammar.
-/

namespace Cppcms

namespace Json

open Utf16

/-! ## Strings -/

lemma unescape_letterU : unescape letterU = none := by decide

section Steps

variable {c e : UInt8} {text : Bytes} {first : Option ℕ}

lemma stringStep_quote : stringStep none (Ch.quote :: text) = .close text := by
  rw [stringStep, if_neg (fun h => Bool.false_ne_true h.1), if_neg (by decide), if_pos rfl]

lemma stringStep_plain (hcontrol : ¬ c ≤ 0x1F) (hquote : c ≠ Ch.quote)
    (hbackslash : c ≠ backslash) :
    stringStep none (c :: text) = .more none [c] text := by
  rw [stringStep, if_neg (fun h => Bool.false_ne_true h.1), if_neg hcontrol, if_neg hquote,
    if_neg hbackslash]

lemma stringStep_backslash : stringStep first (backslash :: text) = escapeStep first text := by
  rw [stringStep, if_neg (fun h => h.2 rfl), if_neg (by decide), if_neg (by decide), if_pos rfl]

lemma escapeStep_escape (he : unescape e = some c) :
    escapeStep none (e :: text) = .more none [c] text := by
  have hu : e ≠ letterU := by
    rintro rfl
    rw [unescape_letterU] at he
    cases he
  rw [escapeStep, if_neg (fun h => Bool.false_ne_true h.1), if_neg hu, he]

lemma escapeStep_letterU : escapeStep first (letterU :: text) = unitStep first text := by
  rw [escapeStep, if_neg (fun h => h.2 rfl), if_pos rfl]

end Steps

/-- A string is read up to its quotation mark. -/
lemma stringLoop_literal {t v : Bytes} (h : Literal t v) (n : ℕ) (str rest : Bytes)
    (hn : t.length < n) :
    stringLoop n none str (t ++ Ch.quote :: rest) = some (str ++ v, rest) := by
  induction h generalizing n str with
  | nil =>
    obtain ⟨n, rfl⟩ : ∃ m, n = m + 1 := ⟨n - 1, by omega⟩
    rw [List.nil_append, stringLoop, stringStep_quote, List.append_nil]
  | @plain c t s hcontrol hquote hbackslash _ ih =>
    rw [List.length_cons] at hn
    obtain ⟨n, rfl⟩ : ∃ m, n = m + 1 := ⟨n - 1, by omega⟩
    rw [List.cons_append, stringLoop, stringStep_plain hcontrol hquote hbackslash]
    dsimp only
    rw [ih n _ (by omega), List.append_assoc, List.singleton_append]
  | @escape e c t s he _ ih =>
    rw [List.length_cons, List.length_cons] at hn
    obtain ⟨n, rfl⟩ : ∃ m, n = m + 1 := ⟨n - 1, by omega⟩
    rw [List.cons_append, List.cons_append, stringLoop, stringStep_backslash, escapeStep_escape he]
    dsimp only
    rw [ih n _ (by omega), List.append_assoc, List.singleton_append]
  | @unit a b c d x t s hx hfirst _ ih =>
    simp only [List.length_cons] at hn
    obtain ⟨n, rfl⟩ : ∃ m, n = m + 1 := ⟨n - 1, by omega⟩
    simp only [List.cons_append]
    rw [stringLoop, stringStep_backslash, escapeStep_letterU, unitStep, hx]
    dsimp only
    rw [if_neg hfirst]
    dsimp only
    rw [ih n _ (by omega), List.append_assoc]
  | @pair a b c d a' b' c' d' w x t s hw hfirst hx hsecond _ ih =>
    simp only [List.length_cons] at hn
    obtain ⟨n, rfl⟩ : ∃ m, n = m + 2 := ⟨n - 2, by omega⟩
    simp only [List.cons_append]
    rw [stringLoop, stringStep_backslash, escapeStep_letterU, unitStep, hw]
    dsimp only
    rw [if_pos hfirst]
    dsimp only
    rw [List.append_nil, stringLoop, stringStep_backslash, escapeStep_letterU, unitStep, hx]
    dsimp only
    rw [if_pos hsecond]
    dsimp only
    rw [ih n _ (by omega), List.append_assoc]

/-- What was read between the quotation marks. -/
def LiteralAt (str text s rest : Bytes) : Prop :=
  ∃ t v, Literal t v ∧ text = t ++ Ch.quote :: rest ∧ s = str ++ v

/-- What was read behind a first surrogate. -/
def PairAt (w : ℕ) (str text s rest : Bytes) : Prop :=
  ∃ a b c d x text', read4Digits a b c d = some x ∧ isSecondSurrogate x ∧
    text = backslash :: letterU :: a :: b :: c :: d :: text' ∧
    LiteralAt (str ++ Utf8.encode (combineSurrogate w x)) text' s rest

/-- What the loop reads in the state `first`. -/
def ReadsString (first : Option ℕ) (str text s rest : Bytes) : Prop :=
  match first with
  | none => LiteralAt str text s rest
  | some w => PairAt w str text s rest

variable {first : Option ℕ} {c : UInt8} {str text s rest : Bytes} {n : ℕ} {body : Bytes}

lemma eq_none_of_not_isSome {p : Prop} (h : ¬ (first.isSome = true ∧ p)) (hp : p) :
    first = none := by
  cases first with
  | none => rfl
  | some w => exact absurd ⟨rfl, hp⟩ h

lemma literalAt_plain (hcontrol : ¬ c ≤ 0x1F) (hquote : c ≠ Ch.quote) (hbackslash : c ≠ backslash)
    (h : LiteralAt (str ++ [c]) text s rest) : LiteralAt str (c :: text) s rest := by
  rcases h with ⟨t, v, hliteral, rfl, rfl⟩
  refine ⟨c :: t, c :: v, .plain hcontrol hquote hbackslash hliteral, rfl, ?_⟩
  rw [List.append_assoc, List.singleton_append]

lemma literalAt_escape {e c : UInt8} (he : unescape e = some c)
    (h : LiteralAt (str ++ [c]) text s rest) : LiteralAt str (backslash :: e :: text) s rest := by
  rcases h with ⟨t, v, hliteral, rfl, rfl⟩
  refine ⟨backslash :: e :: t, c :: v, .escape he hliteral, rfl, ?_⟩
  rw [List.append_assoc, List.singleton_append]

lemma literalAt_unit {a b c d : UInt8} {x : ℕ} (hx : read4Digits a b c d = some x)
    (hfirst : ¬ isFirstSurrogate x) (h : LiteralAt (str ++ Utf8.encode x) text s rest) :
    LiteralAt str (backslash :: letterU :: a :: b :: c :: d :: text) s rest := by
  rcases h with ⟨t, v, hliteral, rfl, rfl⟩
  refine ⟨backslash :: letterU :: a :: b :: c :: d :: t, Utf8.encode x ++ v,
    .unit hx hfirst hliteral, rfl, ?_⟩
  rw [List.append_assoc]

lemma literalAt_pair {a b c d : UInt8} {w : ℕ} (hw : read4Digits a b c d = some w)
    (hfirst : isFirstSurrogate w) (h : PairAt w str text s rest) :
    LiteralAt str (backslash :: letterU :: a :: b :: c :: d :: text) s rest := by
  rcases h with ⟨a', b', c', d', x, text', hx, hsecond, rfl, t, v, hliteral, rfl, rfl⟩
  refine ⟨backslash :: letterU :: a :: b :: c :: d :: backslash :: letterU :: a' ::
    b' :: c' :: d' :: t, Utf8.encode (combineSurrogate w x) ++ v,
    .pair hw hfirst hx hsecond hliteral, rfl, ?_⟩
  rw [List.append_assoc]

/-- The escape of a code unit. -/
lemma readsString_unit {first first' : Option ℕ} {str text octets rest' s rest : Bytes}
    (hstep : unitStep first text = .more first' octets rest')
    (h : ReadsString first' (str ++ octets) rest' s rest) :
    ReadsString first str (backslash :: letterU :: text) s rest := by
  unfold unitStep at hstep
  split at hstep
  · next a b c d text =>
    split at hstep
    · cases hstep
    · next x hx =>
      cases first with
      | some w =>
        dsimp only at hstep
        split_ifs at hstep with hsecond
        cases hstep
        exact ⟨a, b, c, d, x, _, hx, hsecond, rfl, h⟩
      | none =>
        dsimp only at hstep
        split_ifs at hstep with hfirst
        · cases hstep
          rw [List.append_nil] at h
          exact literalAt_pair hx hfirst h
        · cases hstep
          exact literalAt_unit hx hfirst h
  · cases hstep

/-- A pass that goes on. -/
lemma readsString_more {first first' : Option ℕ} {str text octets rest' s rest : Bytes}
    (hstep : stringStep first text = .more first' octets rest')
    (h : ReadsString first' (str ++ octets) rest' s rest) :
    ReadsString first str text s rest := by
  cases text with
  | nil => cases hstep
  | cons c text =>
    rw [stringStep] at hstep
    split_ifs at hstep with hpair hcontrol hquote hbackslash
    · subst hbackslash
      cases text with
      | nil => cases hstep
      | cons e text =>
        rw [escapeStep] at hstep
        split_ifs at hstep with hpair' hu
        · subst hu
          exact readsString_unit hstep h
        · rw [eq_none_of_not_isSome hpair' hu]
          split at hstep
          · next c he =>
            cases hstep
            exact literalAt_escape he h
          · cases hstep
    · rw [eq_none_of_not_isSome hpair hbackslash]
      cases hstep
      exact literalAt_plain hcontrol hquote hbackslash h

/-- The pass that ends the string. -/
lemma readsString_close {str text rest : Bytes} (hstep : stringStep first text = .close rest) :
    ReadsString first str text str rest := by
  cases text with
  | nil => cases hstep
  | cons c text =>
    rw [stringStep] at hstep
    split_ifs at hstep with hpair hcontrol hquote hbackslash
    · cases hstep
      subst hquote
      rw [eq_none_of_not_isSome hpair (by decide)]
      exact ⟨[], [], .nil, rfl, (List.append_nil str).symm⟩
    · -- no escape ends the string
      exfalso
      unfold escapeStep at hstep
      split at hstep
      · cases hstep
      · split_ifs at hstep
        · unfold unitStep at hstep
          split at hstep
          · split at hstep
            · cases hstep
            · split at hstep
              · split_ifs at hstep
              · split_ifs at hstep
          · cases hstep
        · split at hstep
          · cases hstep
          · cases hstep

lemma stringLoop_sound (h : stringLoop n first str text = some (s, rest)) :
    ReadsString first str text s rest := by
  induction n generalizing first str text with
  | zero => cases h
  | succ n ih =>
    rw [stringLoop] at h
    split at h
    · cases h
    · next hstep =>
      cases h
      exact readsString_close hstep
    · next hstep => exact readsString_more hstep (ih h)

/-- `parse_string` reads the strings of the grammar. -/
lemma parseString_eq_some {text s rest : Bytes} :
    parseString text = some (s, rest) ↔
      ∃ l, Literal l s ∧ text = l ++ Ch.quote :: rest ∧ Utf8.validate false s = true := by
  unfold parseString
  constructor
  · intro h
    split at h
    · next s' rest' hloop =>
      split_ifs at h with hvalid
      cases h
      rcases stringLoop_sound hloop with ⟨l, v, hliteral, htext, rfl⟩
      exact ⟨l, hliteral, htext, hvalid⟩
    · cases h
  · rintro ⟨l, hliteral, rfl, hvalid⟩
    rw [stringLoop_literal hliteral _ [] rest (by rw [List.length_append]; omega)]
    dsimp only
    rw [List.nil_append, if_pos hvalid]

/-! ## White space -/

/-- A comment ends with its line. -/
lemma skip_comment (hbody : Ch.newline ∉ body) (text : Bytes) :
    skip .comment (body ++ Ch.newline :: text) = skip .space text := by
  induction body with
  | nil => rw [List.nil_append, skip, if_pos rfl]
  | cons c body ih =>
    rw [List.mem_cons, not_or] at hbody
    rw [List.cons_append, skip, if_neg (Ne.symm hbody.1), ih hbody.2]

lemma skip_lastComment (hbody : Ch.newline ∉ body) : skip .comment body = [] := by
  induction body with
  | nil => rfl
  | cons c body ih =>
    rw [List.mem_cons, not_or] at hbody
    rw [skip, if_neg (Ne.symm hbody.1), ih hbody.2]

/-- An octet that begins a token is not skipped. -/
lemma skip_cons (hspace : ¬ isSpace c) (hslash : c ≠ Ch.slash) (text : Bytes) :
    skip .space (c :: text) = c :: text := by
  rw [skip, if_neg hspace, if_neg hslash]

lemma skip_slashes (text : Bytes) :
    skip .space (Ch.slash :: Ch.slash :: text) = skip .comment text := by
  rw [skip, if_neg (by decide), if_pos rfl, skip, if_pos rfl]

/-- What is skipped in a comment. -/
lemma comment_cases (text : Bytes) :
    (Ch.newline ∉ text) ∨ ∃ body rest, Ch.newline ∉ body ∧ text = body ++ Ch.newline :: rest := by
  induction text with
  | nil => exact .inl List.not_mem_nil
  | cons c text ih =>
    by_cases hc : c = Ch.newline
    · subst hc
      exact .inr ⟨[], text, List.not_mem_nil, rfl⟩
    · rcases ih with hnot | ⟨body, rest, hbody, rfl⟩
      · refine .inl fun h => ?_
        rcases List.mem_cons.1 h with h | h
        · exact hc h.symm
        · exact hnot h
      · refine .inr ⟨c :: body, rest, fun h => ?_, rfl⟩
        rcases List.mem_cons.1 h with h | h
        · exact hc h.symm
        · exact hbody h

section

variable {ν : Type} {scan : Bytes → Option (ν × ℕ)}

lemma Lexes.eq_nil {ts : List (Token ν)} (h : Lexes scan [] ts) : ts = [] := by
  cases h
  rfl

variable {text : Bytes} {w : Bytes}

/-- White space and comments may stand before the tokens. -/
lemma lexes_of_skip {ts : List (Token ν)} (hn : text.length ≤ n)
    (h : Lexes scan (skip .space text) ts) : Lexes scan text ts := by
  induction n generalizing text with
  | zero =>
    rw [List.length_eq_zero_iff.1 (Nat.le_zero.1 hn)] at h ⊢
    exact h
  | succ n ih =>
    cases text with
    | nil => exact h
    | cons c text =>
      rw [List.length_cons] at hn
      rw [skip] at h
      split_ifs at h with hspace hslash
      · exact .space hspace (ih (by omega) h)
      · subst hslash
        cases text with
        | nil => exact h
        | cons d text =>
          rw [skip] at h
          split_ifs at h with hd
          · subst hd
            rcases comment_cases text with hbody | ⟨body, rest, hbody, rfl⟩
            · rw [skip_lastComment hbody] at h
              rw [h.eq_nil]
              exact .lastComment hbody
            · rw [skip_comment hbody] at h
              rw [List.length_cons, List.length_append, List.length_cons] at hn
              exact .comment hbody (ih (by omega) h)
          · exact h
      · exact h

/-! ## Tokens -/

def marks : Bytes := [0x5B, 0x5D, 0x7B, 0x7D, Ch.colon, 0x2C]

def letters : Bytes := [0x74, 0x6E, 0x66]

lemma punctuation_eq_some {t : Token ν} (h : punctuation c = some t) : c ∈ marks := by
  unfold punctuation at h
  split_ifs at h with h₁ h₂ h₃ h₄ h₅ h₆
  all_goals simp_all [marks]

lemma punctuation_eq_none (h : c ∉ marks) : (punctuation c : Option (Token ν)) = none := by
  cases hc : (punctuation c : Option (Token ν)) with
  | none => rfl
  | some t => exact absurd (punctuation_eq_some hc) h

lemma punctuation_ne_err {t : Token ν} (h : punctuation c = some t) : t ≠ .err := by
  rintro rfl
  unfold punctuation at h
  split_ifs at h <;> cases h

lemma word_ne_err {t : Token ν} (h : word c = some (w, t)) : t ≠ .err := by
  rintro rfl
  unfold word at h
  split_ifs at h <;> cases h

lemma word_eq_some {w : Bytes × Token ν} (h : word c = some w) : c ∈ letters := by
  unfold word at h
  split_ifs at h with h₁ h₂ h₃
  all_goals simp_all [letters]

lemma word_eq_none (h : c ∉ letters) : (word c : Option (Bytes × Token ν)) = none := by
  cases hc : (word c : Option (Bytes × Token ν)) with
  | none => rfl
  | some w => exact absurd (word_eq_some hc) h

/-- The octets that begin the different kinds of tokens. -/
lemma skip_mark (hc : c ∈ marks ++ letters ++ [Ch.quote]) (text : Bytes) :
    skip .space (c :: text) = c :: text := by
  have hall : ∀ c ∈ marks ++ letters ++ [Ch.quote], ¬ isSpace c = true ∧ c ≠ Ch.slash := by
    decide +kernel
  exact skip_cons (hall c hc).1 (hall c hc).2 text

lemma letters_not_marks (hc : c ∈ letters) : c ∉ marks := by
  revert c
  decide +kernel

lemma quote_not_mark : Ch.quote ∉ marks := by decide

lemma quote_not_letter : Ch.quote ∉ letters := by decide

lemma beginsNumber_spec (hc : beginsNumber c) :
    c ∉ marks ∧ c ∉ letters ∧ c ≠ Ch.quote ∧ ¬ isSpace c = true ∧ c ≠ Ch.slash := by
  revert c
  apply forall_uint8
  decide +kernel

lemma token_punctuation {t : Token ν} (hc : punctuation c = some t) (text : Bytes) :
    token scan c text = (t, text) := by
  unfold token
  rw [hc]

lemma token_word {t : Token ν} (hc : word c = some (w, t)) (text : Bytes) :
    token scan c (w ++ text) = (t, text) := by
  unfold token
  rw [punctuation_eq_none (letters_not_marks (word_eq_some hc)), hc]
  dsimp only
  rw [if_pos (List.prefix_append w text), List.drop_left]

lemma token_quote (text : Bytes) :
    token scan Ch.quote text =
      match parseString text with
      | some (s, rest) => (.str s, rest)
      | none => (.err, text) := by
  unfold token
  rw [punctuation_eq_none quote_not_mark, word_eq_none quote_not_letter]
  exact if_pos rfl

lemma token_number (hc : beginsNumber c) (text : Bytes) :
    token scan c text =
      match scan (c :: text) with
      | some (x, n) => (.number x, text.drop n)
      | none => (.err, text) := by
  have hspec := beginsNumber_spec hc
  unfold token
  rw [punctuation_eq_none hspec.1, word_eq_none hspec.2.1]
  exact (if_neg hspec.2.2.1).trans (if_pos hc)

/-- A token that is no error belongs to the text. -/
lemma token_sound {text rest : Bytes} {t : Token ν} (h : token scan c text = (t, rest))
    (ht : t ≠ .err) :
    rest.length ≤ text.length ∧ ∀ ts, Lexes scan rest ts → Lexes scan (c :: text) (t :: ts) := by
  unfold token at h
  split at h
  · next t' w hc =>
    cases h
    exact ⟨le_rfl, fun ts hts => .punctuation hc hts⟩
  · next w t' hp hc =>
    split_ifs at h with hword
    · cases h
      rcases hword with ⟨rest, rfl⟩
      rw [List.drop_left]
      refine ⟨?_, fun ts hts => .word hc hts⟩
      rw [List.length_append]
      omega
    · cases h
      exact absurd rfl ht
  · split_ifs at h with hquote hnumber
    · subst hquote
      split at h
      · next s rest' hstring =>
        cases h
        rcases parseString_eq_some.1 hstring with ⟨l, hliteral, rfl, hvalid⟩
        refine ⟨?_, fun ts hts => .string hliteral hvalid hts⟩
        rw [List.length_append, List.length_cons]
        omega
      · cases h
        exact absurd rfl ht
    · split at h
      · next x n hscan =>
        cases h
        refine ⟨?_, fun ts hts => .number hnumber hscan hts⟩
        rw [List.length_drop]
        omega
      · cases h
        exact absurd rfl ht
    · cases h
      exact absurd rfl ht

lemma length_skip (m : Mode) (text : Bytes) : (skip m text).length ≤ text.length + 1 ∧
    (m ≠ .slash → (skip m text).length ≤ text.length) := by
  induction text generalizing m with
  | nil => cases m <;> decide
  | cons c text ih =>
    cases m with
    | space =>
      rw [skip]
      have hspace := (ih .space).2 (by decide)
      have hslash := (ih .slash).1
      split_ifs <;> simp only [List.length_cons] <;> omega
    | slash =>
      rw [skip]
      have hcomment := (ih .comment).1
      split_ifs <;>
        simp only [List.length_cons, ne_eq, not_true_eq_false, false_implies, and_true] <;> omega
    | comment =>
      rw [skip]
      have hspace := (ih .space).2 (by decide)
      have hcomment := (ih .comment).2 (by decide)
      split_ifs <;> simp only [List.length_cons] <;> omega

lemma tokens_succ (h : skip .space text = []) : tokens scan (n + 1) text = [] := by
  rw [tokens, next, h]

lemma tokens_cons {text text' rest : Bytes} {t : Token ν} (h : skip .space text = c :: text')
    (htoken : token scan c text' = (t, rest)) (ht : t ≠ .err) :
    tokens scan (n + 1) text = t :: tokens scan n rest := by
  rw [tokens, next, h]
  dsimp only
  rw [htoken]
  cases t with
  | err => exact absurd rfl ht
  | _ => rfl

/-- The tokenizer finds the tokens that a text consists of. -/
lemma tokens_eq {ts : List (Token ν)} (h : Lexes scan text ts) (hn : text.length < n) :
    tokens scan n text = ts := by
  induction h generalizing n with
  | nil =>
    obtain ⟨n, rfl⟩ : ∃ m, n = m + 1 := ⟨n - 1, by omega⟩
    exact tokens_succ rfl
  | @space c text ts hc _ ih =>
    rw [List.length_cons] at hn
    obtain ⟨n, rfl⟩ : ∃ m, n = m + 1 := ⟨n - 1, by omega⟩
    have hskip : skip .space (c :: text) = skip .space text := by rw [skip, if_pos hc]
    have htext := @ih (n + 1) (by omega)
    rw [tokens, next] at htext ⊢
    rw [hskip]
    exact htext
  | @comment body text ts hbody _ ih =>
    simp only [List.length_cons, List.length_append] at hn
    obtain ⟨n, rfl⟩ : ∃ m, n = m + 1 := ⟨n - 1, by omega⟩
    have htext := @ih (n + 1) (by omega)
    rw [tokens, next] at htext ⊢
    rw [skip_slashes, skip_comment hbody]
    exact htext
  | @lastComment body hbody =>
    obtain ⟨n, rfl⟩ : ∃ m, n = m + 1 := ⟨n - 1, by omega⟩
    apply tokens_succ
    rw [skip_slashes, skip_lastComment hbody]
  | @punctuation c t text ts hc _ ih =>
    rw [List.length_cons] at hn
    obtain ⟨n, rfl⟩ : ∃ m, n = m + 1 := ⟨n - 1, by omega⟩
    have hmark : c ∈ marks ++ letters ++ [Ch.quote] :=
      List.mem_append_left _ (List.mem_append_left _ (punctuation_eq_some hc))
    rw [tokens_cons (skip_mark hmark text) (token_punctuation hc text) (punctuation_ne_err hc),
      ih (by omega)]
  | @word c w t text ts hc _ ih =>
    rw [List.length_cons, List.length_append] at hn
    obtain ⟨n, rfl⟩ : ∃ m, n = m + 1 := ⟨n - 1, by omega⟩
    have hmark : c ∈ marks ++ letters ++ [Ch.quote] :=
      List.mem_append_left _ (List.mem_append_right _ (word_eq_some hc))
    rw [tokens_cons (skip_mark hmark _) (token_word hc text) (word_ne_err hc), ih (by omega)]
  | @string l s text ts hl hs _ ih =>
    rw [List.length_cons, List.length_append, List.length_cons] at hn
    obtain ⟨n, rfl⟩ : ∃ m, n = m + 1 := ⟨n - 1, by omega⟩
    have hmark : Ch.quote ∈ marks ++ letters ++ [Ch.quote] := by decide
    have htoken : token scan Ch.quote (l ++ Ch.quote :: text) = (.str s, text) := by
      rw [token_quote, parseString_eq_some.2 ⟨l, hl, rfl, hs⟩]
    rw [tokens_cons (skip_mark hmark _) htoken (fun h => by cases h), ih (by omega)]
  | @number c x k text ts hc hx _ ih =>
    rw [List.length_cons] at hn
    obtain ⟨n, rfl⟩ : ∃ m, n = m + 1 := ⟨n - 1, by omega⟩
    have hspec := beginsNumber_spec hc
    have htoken : token scan c text = (.number x, text.drop k) := by rw [token_number hc, hx]
    have hdrop : (text.drop k).length < n := by
      rw [List.length_drop]
      omega
    rw [tokens_cons (skip_cons hspec.2.2.2.1 hspec.2.2.2.2 text) htoken (fun h => by cases h),
      ih hdrop]

/-- The text consists of the tokens that were found, if there was no error. -/
lemma lexes_tokens (hn : text.length < n) (herr : Token.err ∉ tokens scan n text) :
    Lexes scan text (tokens scan n text) := by
  induction n generalizing text with
  | zero => omega
  | succ n ih =>
    have hlength := (length_skip .space text).2 (by decide)
    cases hskip : skip .space text with
    | nil =>
      rw [tokens_succ hskip]
      apply lexes_of_skip le_rfl
      rw [hskip]
      exact .nil
    | cons c text' =>
      rw [hskip, List.length_cons] at hlength
      rcases htoken : token scan c text' with ⟨t, rest⟩
      by_cases ht : t = .err
      · exfalso
        subst ht
        apply herr
        rw [tokens, next, hskip]
        dsimp only
        rw [htoken]
        exact List.mem_singleton_self _
      · rw [tokens_cons hskip htoken ht] at herr ⊢
        rcases token_sound htoken ht with ⟨hrest, hlexes⟩
        apply lexes_of_skip le_rfl
        rw [hskip]
        exact hlexes _ (ih (by omega) fun h => herr (List.mem_cons_of_mem _ h))

/-! ## Texts -/

/-- No derivation goes over an error. -/
lemma Parses.err_not_mem {d : ℕ} {i : Item ν} {ts ts' : List (Token ν)} (h : Parses d i ts ts') :
    ∃ us, ts = us ++ ts' ∧ Token.err ∉ us := by
  have hscalar : ∀ {t : Token ν} {v}, t.scalar = some v → Token.err ≠ t := by
    rintro t v h rfl
    cases h
  induction h with
  | @scalar d t v ts h => exact ⟨[t], rfl, fun hmem => hscalar h (List.mem_singleton.1 hmem)⟩
  | array _ ih =>
    rcases ih with ⟨us, rfl, herr⟩
    exact ⟨.openArray :: us, rfl, by simpa using herr⟩
  | object _ _ ih =>
    rcases ih with ⟨us, rfl, herr⟩
    exact ⟨.openObject :: us, rfl, by simpa using herr⟩
  | closeArray => exact ⟨[.closeArray], rfl, by simp⟩
  | lastElement _ ih =>
    rcases ih with ⟨us, rfl, herr⟩
    exact ⟨us ++ [.closeArray], by simp, by simpa using herr⟩
  | nextElement _ _ ih iha =>
    rcases ih with ⟨us, rfl, herr⟩
    rcases iha with ⟨us', rfl, herr'⟩
    exact ⟨us ++ .comma :: us', by simp, by simp [herr, herr']⟩
  | closeObject => exact ⟨[.closeObject], rfl, by simp⟩
  | @lastMember d key v ts ts' _ ih =>
    rcases ih with ⟨us, rfl, herr⟩
    exact ⟨.str key :: .colon :: us ++ [.closeObject], by simp, by simpa using herr⟩
  | @nextMember d key v o ts ts' ts'' _ _ ih iho =>
    rcases ih with ⟨us, rfl, herr⟩
    rcases iho with ⟨us', rfl, herr'⟩
    exact ⟨.str key :: .colon :: us ++ .comma :: us', by simp, by simp [herr, herr']⟩

/-- The texts of the grammar. -/
def IsJson (scan : Bytes → Option (ν × ℕ)) (text : Bytes) (v : Value ν) : Prop :=
  ∃ ts, Lexes scan text ts ∧ Parses maxDepth (.value v) ts []

lemma isJson_iff {v : Value ν} :
    IsJson scan text v ↔ readAll maxDepth (tokenize scan text) = some v := by
  rw [readAll_eq_some]
  constructor
  · rintro ⟨ts, hlexes, hparses⟩
    unfold tokenize
    rw [tokens_eq hlexes (Nat.lt_succ_self _)]
    exact hparses
  · intro hparses
    rcases hparses.err_not_mem with ⟨us, hus, herr⟩
    rw [List.append_nil] at hus
    rw [← hus] at herr
    exact ⟨_, lexes_tokens (Nat.lt_succ_self _) herr, hparses⟩

lemma parseStream_true (ts : List (Token ν)) (out : Value ν) :
    parseStream true ts out = .returns
      (match readAll maxDepth ts with
      | some v => (true, v)
      | none => (false, out)) := by
  rw [parseStream_eq]
  unfold readAll
  cases readFirst maxDepth ts with
  | none => rfl
  | some r =>
    rcases r with ⟨v, rest⟩
    cases rest with
    | nil => rfl
    | cons t rest => rfl

/-- `parse_stream` with `force_eof` accepts the language of the grammar, of tokens as well as of
texts.  Then it stores the value that the parser by recursive descent finds, and otherwise the
target stays as it is. -/
theorem parseStream_accepts (scan : Bytes → Option (ν × ℕ)) (ts : List (Token ν)) (text : Bytes)
    (out : Value ν) :
    ((∀ v, parseStream true ts out = .returns (true, v) ↔ Parses maxDepth (.value v) ts []) ∧
      (∀ v, parseStream true ts out = .returns (true, v) ↔ readAll maxDepth ts = some v) ∧
      ((∀ v, ¬ Parses maxDepth (.value v) ts []) →
        parseStream true ts out = .returns (false, out))) ∧
    (∀ v, load scan true text out = .returns (true, v) ↔ IsJson scan text v) ∧
      (∀ v, load scan true text out = .returns (true, v) ↔
        readAll maxDepth (tokenize scan text) = some v) ∧
      ((∀ v, ¬ IsJson scan text v) → load scan true text out = .returns (false, out)) := by
  have htrue : ∀ (ts : List (Token ν)) (v : Value ν),
      parseStream true ts out = .returns (true, v) ↔ readAll maxDepth ts = some v := by
    intro ts v
    rw [parseStream_true]
    cases readAll maxDepth ts with
    | none =>
      constructor
      · intro h
        cases h
      · intro h
        cases h
    | some w =>
      constructor
      · intro h
        cases h
        rfl
      · intro h
        cases h
        rfl
  have hfalse : ∀ ts : List (Token ν), (∀ v, readAll maxDepth ts ≠ some v) →
      parseStream true ts out = .returns (false, out) := by
    intro ts hnone
    rw [parseStream_true]
    cases hread : readAll maxDepth ts with
    | none => rfl
    | some w => exact absurd hread (hnone w)
  refine ⟨⟨fun v => ?_, htrue ts, fun hnot => ?_⟩, fun v => ?_, htrue _, fun hnot => ?_⟩
  · rw [htrue, readAll_eq_some]
  · exact hfalse ts fun v hread => hnot v (readAll_eq_some.1 hread)
  · rw [load, htrue, isJson_iff]
  · exact hfalse _ fun v hread => hnot v (isJson_iff.2 hread)

-- a trailing comma and a comment
example : load (fun _ => (none : Option (Unit × ℕ))) true (bytes "[true,null,] // end") .undefined =
    .returns (true, .array [.boolean true, .null]) := rfl

end

end Json

end Cppcms
