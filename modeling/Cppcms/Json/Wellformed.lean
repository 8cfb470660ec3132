import Cppcms.Json.Emission
import Cppcms.Json.RoundTrip

/-!
# Which values have a JSON text

A text that was written without an exception is JSON exactly when the strings in the value are valid
and the texts of its numbers can be read.  Which texts of numbers can be read is left to the
standard library (`DoubleFormat`).
-/

namespace Cppcms

namespace Json

variable {ν : Type} {scan : Bytes → Option (ν × ℕ)} {print : ν → Bytes} {legible : ν → Prop}
    {written : ν → ν}

/-- The inserter and the extractor of `double`: the text of a legible number `x` is read as `written
x`.  The others are the infinite ones, those that are not a number, and those whose digits are
rounded to more than the largest number, as those of the largest one are; their texts are not read.
-/
structure DoubleFormat (scan : Bytes → Option (ν × ℕ)) (print : ν → Bytes) (legible : ν → Prop)
    (written : ν → ν) :
    Prop where
  reads : ∀ {x}, legible x → ReadsAs scan print x (written x)
  refuses : ∀ {x}, ¬legible x → print x = bytes "inf" ∨ print x = bytes "nan" ∨
    ∃ c t, print x = c :: t ∧ beginsNumber c = true ∧ ∀ rest, Delimits rest →
    scan (c :: (t ++ rest)) = none

/-- The numbers without a fraction have such a format. -/
lemma doubleFormat_nat : DoubleFormat scanNat showNat (fun _ => True) id where
  reads _ := readsBack_nat _
  refuses hx := absurd trivial hx

/-- The objects in a value are maps: their members are in the order of the keys. -/
inductive Ordered : Value ν → Prop
  | undefined : Ordered .undefined
  | null : Ordered .null
  | boolean {b : Bool} : Ordered (.boolean b)
  | number {x : ν} : Ordered (.number x)
  | str {s : Bytes} : Ordered (.str s)
  | object {o : List (Bytes × Value ν)} (hsorted : o.Pairwise fun m m' => m.1 < m'.1)
      (ho : ∀ m ∈ o, Ordered m.2) :
    Ordered (.object o)
  | array {a : List (Value ν)} (ha : ∀ x ∈ a, Ordered x) : Ordered (.array a)

/-- The values without an undefined one in them, whose strings are valid and whose numbers are
legible. -/
inductive Proper (legible : ν → Prop) : Value ν → Prop
  | null : Proper legible .null
  | boolean {b : Bool} : Proper legible (.boolean b)
  | number {x : ν} (hx : legible x) : Proper legible (.number x)
  | str {s : Bytes} (hs : Utf8.validate false s = true) : Proper legible (.str s)
  | object {o : List (Bytes × Value ν)} (hkeys : ∀ m ∈ o, Utf8.validate false m.1 = true)
    (ho : ∀ m ∈ o, Proper legible m.2) : Proper legible (.object o)
  | array {a : List (Value ν)} (ha : ∀ x ∈ a, Proper legible x) : Proper legible (.array a)

/-- The texts of a value, which is nested to any depth. -/
def IsText (scan : Bytes → Option (ν × ℕ)) (text : Bytes) (v : Value ν) : Prop :=
  ∃ d ts, Lexes scan text ts ∧ Parses d (.value v) ts []

/-! ## Depths -/

variable {d d' : ℕ} {text : Bytes} {c : UInt8} {rest : Bytes} {out : Bytes}

lemma Parses.mono {i : Item ν} {ts ts' : List (Token ν)} (h : Parses d i ts ts') (hd : d ≤ d') :
    Parses d' i ts ts' := by
  induction h generalizing d' with
  | scalar h => exact .scalar h
  | array _ ih =>
    obtain ⟨d', rfl⟩ : ∃ n, d' = n + 1 := ⟨d' - 1, by omega⟩
    exact .array (ih (by omega))
  | object _ hkeys ih =>
    obtain ⟨d', rfl⟩ : ∃ n, d' = n + 1 := ⟨d' - 1, by omega⟩
    exact .object (ih (by omega)) hkeys
  | closeArray => exact .closeArray
  | lastElement _ ih => exact .lastElement (ih hd)
  | nextElement _ _ ih iha => exact .nextElement (ih hd) (iha hd)
  | closeObject => exact .closeObject
  | lastMember _ ih => exact .lastMember (ih hd)
  | nextMember _ _ ih iho => exact .nextMember (ih hd) (iho hd)

/-- A text has one value at most. -/
lemma IsText.unique {v w : Value ν} (hv : IsText scan text v) (hw : IsText scan text w) :
    v = w := by
  rcases hv with ⟨d, ts, hlexes, hparses⟩
  rcases hw with ⟨d', ts', hlexes', hparses'⟩
  have hsame : ts = ts' :=
    (tokens_eq hlexes (Nat.lt_succ_self _)).symm.trans (tokens_eq hlexes' (Nat.lt_succ_self _))
  rw [← hsame] at hparses'
  have hread := readAll_eq_some.2 (hparses.mono (le_max_left d d'))
  have hread' := readAll_eq_some.2 (hparses'.mono (le_max_right d d'))
  rw [hread] at hread'
  exact Option.some.inj hread'

lemma Readable.mono {v : Value ν} (h : Readable scan print written d v) (hd : d ≤ d') :
    Readable scan print written d' v := by
  induction h generalizing d' with
  | null => exact .null
  | boolean => exact .boolean
  | number hx => exact .number hx
  | str hs => exact .str hs
  | object hsorted hkeys _ ih =>
    obtain ⟨d', rfl⟩ : ∃ n, d' = n + 1 := ⟨d' - 1, by omega⟩
    exact .object hsorted hkeys fun m hm => ih m hm (by omega)
  | array _ ih =>
    obtain ⟨d', rfl⟩ : ∃ n, d' = n + 1 := ⟨d' - 1, by omega⟩
    exact .array fun x hx => ih x hx (by omega)

/-- Finitely many depths have a bound. -/
lemma exists_depth {α : Type} {P : ℕ → α → Prop} (hmono : ∀ {d d' x}, P d x → d ≤ d' → P d' x)
    {l : List α} (hl : ∀ x ∈ l, ∃ d, P d x) : ∃ d, ∀ x ∈ l, P d x := by
  induction l with
  | nil => exact ⟨0, fun x hx => absurd hx List.not_mem_nil⟩
  | cons x l ih =>
    rcases hl x List.mem_cons_self with ⟨d, hd⟩
    rcases ih fun y hy => hl y (List.mem_cons_of_mem _ hy) with ⟨d', hd'⟩
    refine ⟨max d d', List.forall_mem_cons.2 ⟨hmono hd (le_max_left _ _), fun y hy => ?_⟩⟩
    exact hmono (hd' y hy) (le_max_right _ _)

/-- A proper value can be read. -/
lemma Proper.readable (hformat : DoubleFormat scan print legible written) {v : Value ν}
    (hv : Proper legible v) (hordered : Ordered v) : ∃ d, Readable scan print written d v := by
  induction hv with
  | null => exact ⟨0, .null⟩
  | boolean => exact ⟨0, .boolean⟩
  | number hx => exact ⟨0, .number (hformat.reads hx)⟩
  | str hs => exact ⟨0, .str hs⟩
  | @object o hkeys _ ih =>
    cases hordered with
    | object hsorted ho =>
      rcases exists_depth (P := fun d (m : Bytes × Value ν) => Readable scan print written d m.2)
        (fun h hd => h.mono hd) fun m hm => ih m hm (ho m hm) with ⟨d, hd⟩
      exact ⟨d + 1, .object hsorted hkeys hd⟩
  | @array a _ ih =>
    cases hordered with
    | array ha =>
      rcases exists_depth (P := Readable scan print written) (fun h hd => h.mono hd) fun x hx =>
        ih x hx (ha x hx) with ⟨d, hd⟩
      exact ⟨d + 1, .array hd⟩

/-! ## The tokens of a text -/

lemma err_notMem_of_lexes {ts : List (Token ν)} (h : Lexes scan text ts) : Token.err ∉ ts := by
  induction h with
  | nil => exact List.not_mem_nil
  | space _ _ ih => exact ih
  | comment _ _ ih => exact ih
  | lastComment => exact List.not_mem_nil
  | punctuation hc _ ih =>
    rw [List.mem_cons, not_or]
    exact ⟨(punctuation_ne_err hc).symm, ih⟩
  | word hc _ ih =>
    rw [List.mem_cons, not_or]
    exact ⟨(word_ne_err hc).symm, ih⟩
  | string _ _ _ ih =>
    rw [List.mem_cons, not_or]
    exact ⟨(fun h => by cases h), ih⟩
  | number _ _ _ ih =>
    rw [List.mem_cons, not_or]
    exact ⟨(fun h => by cases h), ih⟩

/-- The first token of a text. -/
lemma lexes_token_inv {text rest : Bytes} {t : Token ν} {ts : List (Token ν)}
    (hskip : skip .space (c :: text) = c :: text) (htoken : token scan c text = (t, rest))
    (h : Lexes scan (c :: text) ts) : t ≠ .err ∧ ∃ ts', ts = t :: ts' ∧ Lexes scan rest ts' := by
  have hall := tokens_eq h (Nat.lt_succ_self _)
  have herr := err_notMem_of_lexes h
  have ht : t ≠ .err := by
    rintro rfl
    rw [tokens, next, hskip] at hall
    dsimp only at hall
    rw [htoken] at hall
    rw [← hall] at herr
    exact herr (List.mem_singleton_self _)
  rw [tokens_cons hskip htoken ht] at hall
  refine ⟨ht, _, hall.symm, lexes_tokens ?_ ?_⟩
  · have hrest := (token_sound htoken ht).1
    rw [List.length_cons]
    omega
  · rw [← hall] at herr
    exact fun hmem => herr (List.mem_cons_of_mem _ hmem)

lemma lexes_punctuation_inv {t : Token ν} {ts : List (Token ν)} (hc : punctuation c = some t)
    (h : Lexes scan (c :: text) ts) : ∃ ts', Lexes scan text ts' := by
  have hmark : c ∈ marks ++ letters ++ [Ch.quote] :=
    List.mem_append_left _ (List.mem_append_left _ (punctuation_eq_some hc))
  rcases (lexes_token_inv (skip_mark hmark text) (token_punctuation hc text) h).2 with ⟨ts', -,
    hts'⟩
  exact ⟨ts', hts'⟩

lemma lexes_word_inv {w text : Bytes} {t : Token ν} {ts : List (Token ν)}
    (hc : word c = some (w, t)) (h : Lexes scan (c :: (w ++ text)) ts) :
    ∃ ts', Lexes scan text ts' := by
  have hmark : c ∈ marks ++ letters ++ [Ch.quote] :=
    List.mem_append_left _ (List.mem_append_right _ (word_eq_some hc))
  rcases (lexes_token_inv (skip_mark hmark _) (token_word hc text) h).2 with ⟨ts', -, hts'⟩
  exact ⟨ts', hts'⟩

/-- The text of a string is read only if the string is valid. -/
lemma lexes_toJson_inv {s rest : Bytes} {ts : List (Token ν)}
    (h : Lexes scan (toJson s ++ rest) ts) :
    Utf8.validate false s = true ∧ ∃ ts', Lexes scan rest ts' := by
  have hmark : Ch.quote ∈ marks ++ letters ++ [Ch.quote] := by decide
  have htext : toJson s ++ rest = Ch.quote :: (appendLoop [] s ++ Ch.quote :: rest) := by
    rw [toJson, List.cons_append, List.append_assoc, List.singleton_append]
  rw [htext] at h
  rcases htoken : token scan Ch.quote (appendLoop [] s ++ Ch.quote :: rest) with ⟨t, rest'⟩
  rcases lexes_token_inv (skip_mark hmark _) htoken h with ⟨ht, ts', -, hts'⟩
  have hloop := stringLoop_literal (literal_appendLoop s)
      ((appendLoop [] s ++ Ch.quote :: rest).length + 1) [] rest (by
    rw [List.length_append]
    omega)
  rw [token_quote, parseString, hloop] at htoken
  dsimp only at htoken
  rw [List.nil_append] at htoken
  split_ifs at htoken with hvalid
  · cases htoken
    exact ⟨hvalid, ts', hts'⟩
  · cases htoken
    exact absurd rfl ht

/-- The text of a number is read only if the number is legible. -/
lemma lexes_print_inv (hformat : DoubleFormat scan print legible written) {x : ν}
    {ts : List (Token ν)} (hrest : Delimits rest) (h : Lexes scan (print x ++ rest) ts) :
    legible x ∧ ∃ ts', Lexes scan rest ts' := by
  by_cases hx : legible x
  · rcases hformat.reads hx with ⟨c, t, hprint, hc, hscan⟩
    have hspec := beginsNumber_spec hc
    have htoken : token scan c (t ++ rest) = (.number (written x), rest) := by
      rw [token_number hc, hscan rest hrest]
      dsimp only
      rw [List.drop_left]
    rw [hprint] at h
    rcases (lexes_token_inv (skip_cons hspec.2.2.2.1 hspec.2.2.2.2 _) htoken h).2 with ⟨ts', -,
      hts'⟩
    exact ⟨hx, ts', hts'⟩
  · exfalso
    have hrefused : ∀ {c : UInt8} {text : Bytes} {ts : List (Token ν)},
      skip .space (c :: text) = c :: text →
        token scan c text = (.err, text) → ¬Lexes scan (c :: text) ts := fun hskip htoken h =>
      (lexes_token_inv hskip htoken h).1 rfl
    rcases hformat.refuses hx with hprint | hprint | ⟨c, t, hprint, hc, hscan⟩
    · rw [hprint] at h
      exact hrefused rfl rfl h
    · rw [hprint] at h
      exact hrefused rfl rfl h
    · have hspec := beginsNumber_spec hc
      rw [hprint] at h
      have htoken : token scan c (t ++ rest) = (.err, t ++ rest) := by
        rw [token_number hc, hscan rest hrest]
      exact hrefused (skip_cons hspec.2.2.2.1 hspec.2.2.2.2 _) htoken h

/-! ## Proper values -/

lemma indent_compact (c : UInt8) : indent c (-1) = ([c], -1) := rfl

lemma delimits_cons (hc : c ∈ [closeBracket, closeBrace, comma]) (rest : Bytes) :
    Delimits (c :: rest) := by
  have h := delimits_indent hc (-1) rest
  rwa [indent_compact, List.singleton_append] at h

/-- What the text of a value tells of it, in front of a text that may stand there. -/
def TellsProper (scan : Bytes → Option (ν × ℕ)) (print : ν → Bytes) (legible : ν → Prop)
    (v : Value ν) : Prop :=
  ∀ {text rest ts}, writeValue print v (-1) = some text → Delimits rest →
    Lexes scan (text ++ rest) ts →
    Proper legible v ∧ ∃ ts', Lexes scan rest ts'

lemma members_of_lexes {o : List (Bytes × Value ν)}
    (ho : ∀ m ∈ o, TellsProper scan print legible m.2) {out rest : Bytes} {ts : List (Token ν)}
    (hout : writeMembers print o (-1) = some out) (hrest : Delimits rest)
    (h : Lexes scan (out ++ rest) ts) :
    (∀ m ∈ o, Utf8.validate false m.1 = true) ∧ (∀ m ∈ o, Proper legible m.2) ∧
      ∃ ts', Lexes scan rest ts' := by
  induction o generalizing out ts with
  | nil =>
    rw [writeMembers] at hout
    cases hout
    exact ⟨fun m hm => absurd hm List.not_mem_nil, fun m hm => absurd hm List.not_mem_nil, ts, h⟩
  | cons m o ih =>
    rcases m with ⟨key, v⟩
    rw [writeMembers] at hout
    rcases hv : writeValue print v (-1) with - | text
    · rw [hv] at hout
      cases hout
    rcases hmore : writeMembers print o (-1) with - | out'
    · rw [hv, hmore] at hout
      cases hout
    rw [hv, hmore] at hout
    cases hout
    simp only [indent_compact, List.append_assoc, List.cons_append, List.nil_append] at h
    rcases lexes_toJson_inv h with ⟨hkey, ts₁, h₁⟩
    rcases lexes_punctuation_inv rfl h₁ with ⟨ts₂, h₂⟩
    have hdelimits : Delimits ((if o = [] then [] else [comma]) ++ (out' ++ rest)) := by
      by_cases hnil : o = []
      · rw [hnil, writeMembers] at hmore
        cases hmore
        rw [if_pos hnil]
        exact hrest
      · rw [if_neg hnil]
        exact delimits_cons (by decide) _
    rcases ho _ List.mem_cons_self hv hdelimits h₂ with ⟨hproper, ts₃, h₃⟩
    have hnext : ∃ ts₄, Lexes scan (out' ++ rest) ts₄ := by
      by_cases hnil : o = []
      · rw [if_pos hnil] at h₃
        exact ⟨ts₃, h₃⟩
      · rw [if_neg hnil] at h₃
        exact lexes_punctuation_inv rfl h₃
    rcases hnext with ⟨ts₄, h₄⟩
    rcases ih (fun m hm => ho m (List.mem_cons_of_mem _ hm)) hmore h₄ with ⟨hkeys, hall, hlast⟩
    exact ⟨List.forall_mem_cons.2 ⟨hkey, hkeys⟩, List.forall_mem_cons.2 ⟨hproper, hall⟩, hlast⟩

lemma elements_of_lexes {a : List (Value ν)} (ha : ∀ x ∈ a, TellsProper scan print legible x)
    {texts : List Bytes}
    (htexts : List.Forall₂ (fun v text => writeValue print v (-1) = some text) a texts)
    {ts : List (Token ν)} (hrest : Delimits rest)
    (h : Lexes scan (joined [comma] texts ++ rest) ts) :
    (∀ x ∈ a, Proper legible x) ∧ ∃ ts', Lexes scan rest ts' := by
  induction htexts generalizing ts with
  | nil => exact ⟨fun x hx => absurd hx List.not_mem_nil, ts, h⟩
  | @cons v text a texts hv _ ih =>
    rw [joined, List.append_assoc, List.append_assoc] at h
    have hdelimits :
        Delimits ((if texts = [] then [] else [comma]) ++ (joined [comma] texts ++ rest)) := by
      by_cases hnil : texts = []
      · rw [if_pos hnil, hnil]
        exact hrest
      · rw [if_neg hnil]
        exact delimits_cons (by decide) _
    rcases ha _ List.mem_cons_self hv hdelimits h with ⟨hproper, ts₁, h₁⟩
    have hnext : ∃ ts₂, Lexes scan (joined [comma] texts ++ rest) ts₂ := by
      by_cases hnil : texts = []
      · rw [if_pos hnil] at h₁
        exact ⟨ts₁, h₁⟩
      · rw [if_neg hnil] at h₁
        exact lexes_punctuation_inv rfl h₁
    rcases hnext with ⟨ts₂, h₂⟩
    rcases ih (fun x hx => ha x (List.mem_cons_of_mem _ hx)) h₂ with ⟨hall, hlast⟩
    exact ⟨List.forall_mem_cons.2 ⟨hproper, hall⟩, hlast⟩

/-- The texts of the elements of an array that is written. -/
lemma forall₂_of_arrayLoop {a : List (Value ν)} (hlength : a.length < 2 ^ 32)
    (h : arrayLoop (writeElements print a (-1)) [comma] (a.length + 1) 0 = some out) :
    ∃ texts, List.Forall₂ (fun v text => writeValue print v (-1) = some text) a texts ∧
    out = joined [comma] texts := by
  have hmap : (writeElements print a (-1)).length = a.length := by
    rw [writeElements_eq, List.length_map]
  have hall := exists_of_arrayLoop (by rwa [hmap]) h
  rw [List.drop_zero, writeElements_eq] at hall
  rcases @exists_texts _ _ (fun v text => writeValue print v (-1) = some text) a
    (-1) (fun v hv => by
    rcases hall _ (List.mem_map_of_mem hv) with ⟨text, htext⟩
    exact ⟨text, htext, htext⟩) with ⟨texts, htexts, hforall⟩
  have hsame : texts.length = a.length := hforall.length_eq.symm
  rw [htexts, arrayLoop_eq (by omega) _ (Nat.zero_le _) (by omega), List.drop_zero] at h
  exact ⟨texts, hforall, (Option.some.inj h).symm⟩

/-- Only proper values have a text that can be read. -/
lemma tellsProper (hformat : DoubleFormat scan print legible written) (v : Value ν) :
    TellsProper scan print legible v := by
  induction v using Value.induction with
  | hundefined =>
    intro text rest ts hwrite
    rw [writeValue] at hwrite
    cases hwrite
  | hnull =>
    intro text rest ts hwrite _ h
    rw [writeValue] at hwrite
    cases hwrite
    exact ⟨.null, lexes_word_inv (c := 0x6E) (w := bytes "ull") rfl h⟩
  | hboolean b =>
    intro text rest ts hwrite _ h
    rw [writeValue] at hwrite
    cases hwrite
    cases b with
    | false => exact ⟨.boolean, lexes_word_inv (c := 0x66) (w := bytes "alse") rfl h⟩
    | true => exact ⟨.boolean, lexes_word_inv (c := 0x74) (w := bytes "rue") rfl h⟩
  | hnumber x =>
    intro text rest ts hwrite hrest h
    rw [writeValue] at hwrite
    cases hwrite
    rcases lexes_print_inv hformat hrest h with ⟨hx, hts⟩
    exact ⟨.number hx, hts⟩
  | hstr s =>
    intro text rest ts hwrite _ h
    rw [writeValue] at hwrite
    cases hwrite
    rcases lexes_toJson_inv h with ⟨hs, hts⟩
    exact ⟨.str hs, hts⟩
  | hobject o ih =>
    intro text rest ts hwrite hrest h
    rw [writeValue] at hwrite
    simp only [indent_compact] at hwrite
    rcases hout : writeMembers print o (-1) with - | out
    · rw [hout] at hwrite
      cases hwrite
    rw [hout] at hwrite
    cases hwrite
    simp only [List.append_assoc, List.cons_append, List.nil_append] at h
    rcases lexes_punctuation_inv rfl h with ⟨ts₁, h₁⟩
    rcases members_of_lexes ih hout (delimits_cons (by decide) rest) h₁ with ⟨hkeys, hall, ts₂, h₂⟩
    exact ⟨.object hkeys hall, lexes_punctuation_inv rfl h₂⟩
  | harray a ih =>
    intro text rest ts hwrite hrest h
    cases smallArrays_of_write _ hwrite with
    | array hlength _ =>
      rw [writeValue] at hwrite
      simp only [indent_compact] at hwrite
      rcases hout : arrayLoop (writeElements print a (-1)) [comma] (a.length + 1) 0 with - | out
      · rw [hout] at hwrite
        cases hwrite
      rw [hout] at hwrite
      cases hwrite
      rcases forall₂_of_arrayLoop hlength hout with ⟨texts, htexts, rfl⟩
      simp only [List.append_assoc, List.cons_append, List.nil_append] at h
      rcases lexes_punctuation_inv rfl h with ⟨ts₁, h₁⟩
      rcases elements_of_lexes ih htexts (delimits_cons (by decide) rest) h₁ with ⟨hall, ts₂, h₂⟩
      exact ⟨.array hall, lexes_punctuation_inv rfl h₂⟩

/-! ## Exceptions -/

/-- Nothing is thrown. -/
def Emitted.Quiet (x : Emitted) : Prop := ∀ text, x ≠ .thrown text

lemma Emitted.Quiet.andThen {x y : Emitted} (hx : x.Quiet) (hy : y.Quiet) :
    (x.andThen y).Quiet := by
  intro text h
  cases x with
  | done t =>
    cases y with
    | thrown t' => exact hy t' rfl
    | _ => cases h
  | thrown t => exact hx t rfl
  | endless => cases h

lemma Emitted.quiet_done (t : Bytes) : (Emitted.done t).Quiet := fun _ h => by cases h

lemma quiet_emitLoop {elements : List Emitted} (h : ∀ x ∈ elements, x.Quiet) (separator : Bytes)
    (passes i : ℕ) :
    (emitLoop elements separator passes i).Quiet := by
  induction passes generalizing i with
  | zero => exact fun text h => by cases h
  | succ passes ih =>
    rw [emitLoop]
    rcases hx : elements[i]? with - | x
    · exact Emitted.quiet_done []
    · exact (h x (List.mem_of_getElem? hx)).andThen ((Emitted.quiet_done _).andThen (ih _))

lemma quiet_emitMembers {o : List (Bytes × Value ν)}
    (h : ∀ m ∈ o, ∀ tabs, (emit print m.2 tabs).Quiet) (tabs : ℤ) :
    (emitMembers print o tabs).Quiet := by
  induction o with
  | nil =>
    rw [emitMembers]
    exact Emitted.quiet_done _
  | cons m o ih =>
    rcases m with ⟨key, v⟩
    have hrest := ih fun m hm => h m (List.mem_cons_of_mem _ hm)
    rw [emitMembers]
    exact (Emitted.quiet_done _).andThen
      ((h _ List.mem_cons_self tabs).andThen ((Emitted.quiet_done _).andThen hrest))

lemma quiet_emitElements {a : List (Value ν)} (h : ∀ v ∈ a, ∀ tabs, (emit print v tabs).Quiet)
    (tabs : ℤ) :
    ∀ x ∈ emitElements print a tabs, x.Quiet := by
  induction a with
  | nil =>
    rw [emitElements]
    exact fun x hx => absurd hx List.not_mem_nil
  | cons v a ih =>
    rw [emitElements]
    exact List.forall_mem_cons.2
      ⟨h v List.mem_cons_self tabs, ih fun w hw => h w (List.mem_cons_of_mem _ hw)⟩

/-- A proper value is written without an exception. -/
lemma Proper.quiet_emit {v : Value ν} (hv : Proper legible v) (tabs : ℤ) :
    (emit print v tabs).Quiet := by
  induction hv generalizing tabs with
  | null =>
    rw [emit]
    exact Emitted.quiet_done _
  | boolean =>
    rw [emit]
    exact Emitted.quiet_done _
  | number =>
    rw [emit]
    exact Emitted.quiet_done _
  | str =>
    rw [emit]
    exact Emitted.quiet_done _
  | object _ _ ih =>
    rw [emit]
    exact (Emitted.quiet_done _).andThen ((quiet_emitMembers ih _).andThen (Emitted.quiet_done _))
  | array _ ih =>
    rw [emit]
    exact (Emitted.quiet_done _).andThen
      ((quiet_emitLoop (quiet_emitElements ih _) _ _ _).andThen (Emitted.quiet_done _))

/-! ## Values that were read -/

/-- The string of a token is valid. -/
def Token.Valid : Token ν → Prop
  | .str s => Utf8.validate false s = true
  | _ => True

lemma tokenValid_of_lexes {ts : List (Token ν)} (h : Lexes scan text ts) : ∀ t ∈ ts, t.Valid := by
  induction h with
  | nil => exact fun t ht => absurd ht List.not_mem_nil
  | space _ _ ih => exact ih
  | comment _ _ ih => exact ih
  | lastComment => exact fun t ht => absurd ht List.not_mem_nil
  | @punctuation c t text ts hc _ ih =>
    refine List.forall_mem_cons.2 ⟨?_, ih⟩
    unfold punctuation at hc
    split_ifs at hc <;> cases hc <;> trivial
  | @word c w t text ts hc _ ih =>
    refine List.forall_mem_cons.2 ⟨?_, ih⟩
    unfold word at hc
    split_ifs at hc <;> cases hc <;> trivial
  | string _ hs _ ih => exact List.forall_mem_cons.2 ⟨hs, ih⟩
  | number _ _ _ ih => exact List.forall_mem_cons.2 ⟨trivial, ih⟩

/-- A value that has a text up to its numbers, and whose objects are maps. -/
def Loaded (v : Value ν) : Prop := Proper (fun _ => True) v ∧ Ordered v

/-- What is known of a value, of elements or of members that were read. -/
def Item.Loaded : Item ν → Prop
  | .value v => Json.Loaded v
  | .elements a => ∀ x ∈ a, Json.Loaded x
  | .members o => ∀ m ∈ o, Utf8.validate false m.1 = true ∧ Json.Loaded m.2

lemma mem_of_mem_insertList {key : Bytes} {v : Value ν} {o : List (Bytes × Value ν)}
    {m : Bytes × Value ν} (h : m ∈ SortedMap.insertList key v o) : m = (key, v) ∨ m ∈ o := by
  induction o with
  | nil => exact .inl (List.mem_singleton.1 h)
  | cons m' o ih =>
    rw [SortedMap.insertList] at h
    split_ifs at h with hlt heq
    · exact List.mem_cons.1 h
    · exact (List.mem_cons.1 h).imp_right (List.mem_cons_of_mem _)
    · rcases List.mem_cons.1 h with rfl | h
      · exact .inr List.mem_cons_self
      · exact (ih h).imp_right (List.mem_cons_of_mem _)

lemma addMembers_spec (ms o : List (Bytes × Value ν)) (ho : o.Pairwise fun m m' => m.1 < m'.1) :
    (∀ m ∈ addMembers o ms, m ∈ o ∨ m ∈ ms) ∧ (addMembers o ms).Pairwise fun m m' =>
    m.1 < m'.1 := by
  induction ms generalizing o with
  | nil => exact ⟨fun m hm => .inl hm, ho⟩
  | cons m ms ih =>
    rcases ih (SortedMap.insertList m.1 m.2 o) (SortedMap.sorted_insertList ho) with ⟨hmem, hsorted⟩
    refine ⟨fun m' hm' => ?_, hsorted⟩
    rcases hmem m' hm' with h | h
    · rcases mem_of_mem_insertList h with rfl | h
      · exact .inr List.mem_cons_self
      · exact .inl h
    · exact .inr (List.mem_cons_of_mem _ h)

lemma itemLoaded_of_parses {d : ℕ} {i : Item ν} {ts ts' : List (Token ν)} (h : Parses d i ts ts')
    (hts : ∀ t ∈ ts, t.Valid) : i.Loaded ∧ ∀ t ∈ ts', t.Valid := by
  induction h with
  | @scalar d t v ts hscalar =>
    rcases List.forall_mem_cons.1 hts with ⟨ht, hrest⟩
    refine ⟨?_, hrest⟩
    cases t with
    | str s =>
      cases hscalar
      exact ⟨.str ht, .str⟩
    | number x =>
      cases hscalar
      exact ⟨.number trivial, .number⟩
    | true_ =>
      cases hscalar
      exact ⟨.boolean, .boolean⟩
    | false_ =>
      cases hscalar
      exact ⟨.boolean, .boolean⟩
    | null =>
      cases hscalar
      exact ⟨.null, .null⟩
    | _ => cases hscalar
  | array _ ih =>
    rcases ih (List.forall_mem_cons.1 hts).2 with ⟨ha, hrest⟩
    exact ⟨⟨.array fun x hx => (ha x hx).1, .array fun x hx => (ha x hx).2⟩, hrest⟩
  | @object d o ts ts' _ _ ih =>
    rcases ih (List.forall_mem_cons.1 hts).2 with ⟨ho, hrest⟩
    rcases addMembers_spec o [] .nil with ⟨hmem, hsorted⟩
    have hall : ∀ m ∈ addMembers [] o, Utf8.validate false m.1 = true ∧ Json.Loaded m.2 := by
      intro m hm
      rcases hmem m hm with h | h
      · cases h
      · exact ho m h
    exact ⟨⟨.object (fun m hm => (hall m hm).1) fun m hm => (hall m hm).2.1,
      .object hsorted fun m hm => (hall m hm).2.2⟩, hrest⟩
  | closeArray => exact ⟨fun x hx => absurd hx List.not_mem_nil, (List.forall_mem_cons.1 hts).2⟩
  | lastElement _ ih =>
    rcases ih hts with ⟨hv, hrest⟩
    exact ⟨List.forall_mem_singleton.2 hv, (List.forall_mem_cons.1 hrest).2⟩
  | nextElement _ _ ih iha =>
    rcases ih hts with ⟨hv, hrest⟩
    rcases iha (List.forall_mem_cons.1 hrest).2 with ⟨ha, hrest'⟩
    exact ⟨List.forall_mem_cons.2 ⟨hv, ha⟩, hrest'⟩
  | closeObject => exact ⟨fun x hx => absurd hx List.not_mem_nil, (List.forall_mem_cons.1 hts).2⟩
  | lastMember _ ih =>
    rcases List.forall_mem_cons.1 hts with ⟨hkey, hts⟩
    rcases ih (List.forall_mem_cons.1 hts).2 with ⟨hv, hrest⟩
    exact ⟨List.forall_mem_singleton.2 ⟨hkey, hv⟩, (List.forall_mem_cons.1 hrest).2⟩
  | nextMember _ _ ih iho =>
    rcases List.forall_mem_cons.1 hts with ⟨hkey, hts⟩
    rcases ih (List.forall_mem_cons.1 hts).2 with ⟨hv, hrest⟩
    rcases iho (List.forall_mem_cons.1 hrest).2 with ⟨ho, hrest'⟩
    exact ⟨List.forall_mem_cons.2 ⟨⟨hkey, hv⟩, ho⟩, hrest'⟩

/-- A value that was read has valid strings and no undefined one in it. -/
lemma loaded_of_isText {v : Value ν} (h : IsText scan text v) : Loaded v := by
  rcases h with ⟨d, ts, hlexes, hparses⟩
  exact (itemLoaded_of_parses hparses (tokenValid_of_lexes hlexes)).1

/-! ## Objects that are written member by member -/

/-- Members between braces are an object only if all values are proper, and no array is large. -/
lemma proper_of_members (hformat : DoubleFormat scan print legible written)
    {o : List (Bytes × Value ν)} (hout : writeMembers print o (-1) = some out) {v : Value ν}
    (h : IsText scan (openBrace :: (out ++ [closeBrace])) v) :
    ∀ m ∈ o, Utf8.validate false m.1 = true ∧ Proper legible m.2 ∧ SmallArrays m.2 := by
  rcases h with ⟨d, ts, hlexes, -⟩
  rcases lexes_punctuation_inv rfl hlexes with ⟨ts', hts'⟩
  have hall := members_of_lexes (fun m _ => tellsProper hformat m.2) hout
    (delimits_cons (by decide) []) hts'
  intro m hm
  rcases exists_of_writeMembers hout m hm with ⟨text, htext⟩
  exact ⟨hall.1 m hm, hall.2.1 m hm, smallArrays_of_write m.2 htext⟩

/-- The object is read with the numbers as they were written. -/
lemma exists_isText_members (hformat : DoubleFormat scan print legible written)
    {o : List (Bytes × Value ν)} (hnodup : (o.map Prod.fst).Nodup) (hordered : ∀ m ∈ o, Ordered m.2)
    (ho : ∀ m ∈ o, Utf8.validate false m.1 = true ∧ Proper legible m.2 ∧ SmallArrays m.2) :
    ∃ out, writeMembers print o (-1) = some out ∧ IsText scan (openBrace :: (out ++ [closeBrace]))
      (.object (addMembers [] (o.map fun m => (m.1, Value.map written m.2)))) := by
  rcases exists_depth (P := fun d (m : Bytes × Value ν) => Readable scan print written d m.2)
    (fun h hd => h.mono hd) fun m hm => (ho m hm).2.1.readable hformat (hordered m hm) with ⟨d, hd⟩
  rcases @reads_members _ _ _ d (-1) _ _ fun m hm =>
    ⟨(ho m hm).1, reads_map (hd m hm) (ho m hm).2.2 (-1)⟩ with
    ⟨out, hout, us, hlexes, hparses⟩
  have htext := hlexes [] [] delimits_nil .nil
  rw [indent_compact, List.append_nil, List.append_nil] at htext
  have hmembers := hparses []
  rw [List.append_nil] at hmembers
  have hnodup' : ((o.map fun m => (m.1, Value.map written m.2)).map Prod.fst).Nodup := by
    rw [List.map_map]
    exact hnodup
  exact ⟨out, hout, d + 1, .openObject :: us, .punctuation rfl htext, .object hmembers hnodup'⟩

end Json

end Cppcms
