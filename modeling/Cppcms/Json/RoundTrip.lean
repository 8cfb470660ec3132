import Cppcms.Base.Numbers
import Cppcms.Json.Lexing
import Cppcms.Json.Writer

/-!
# Reading what was written

A value that was saved is loaded again, in both formats.  The only values that cannot be saved are
those with an array of `2 ^ 32` elements or more, whose number does not fit into the index of
`write_value`.
-/

namespace Cppcms

namespace Json

open Utf16

/-! ## Strings -/

lemma appendLoop_eq (pending s : Bytes) :
    appendLoop pending s = pending ++ s.flatMap fun c => (addon c).getD [c] := by
  induction s generalizing pending with
  | nil => exact (List.append_nil pending).symm
  | cons c s ih =>
    rw [appendLoop, List.flatMap_cons]
    cases addon c with
    | none =>
      dsimp only
      rw [ih, Option.getD_none, List.append_assoc]
    | some a =>
      dsimp only
      rw [ih, Option.getD_some, List.nil_append]

/-- The control characters are written by their code. -/
lemma read4Digits_control (c : UInt8) (hc : c ≤ 0x1F) :
    read4Digits 0x30 0x30 (hexDigit (c >>> 4)) (hexDigit (c &&& 0xF)) = some c.toNat ∧
      isFirstSurrogate c.toNat = false ∧ Utf8.encode c.toNat = [c] := by
  revert c
  apply forall_uint8
  decide +kernel

/-- What is written for an octet is read as this octet. -/
lemma literal_addon (c : UInt8) {t s : Bytes} (h : Literal t s) :
    Literal ((addon c).getD [c] ++ t) (c :: s) := by
  unfold addon
  split_ifs with h₁ h₂ h₃ h₄ h₅ h₆ h₇ h₈
  · exact .escape (by rw [h₁]; decide) h
  · exact .escape (by rw [h₂]; decide) h
  · exact .escape (by rw [h₃]; decide) h
  · exact .escape (by rw [h₄]; decide) h
  · exact .escape (by rw [h₅]; decide) h
  · exact .escape (by rw [h₆]; decide) h
  · exact .escape (by rw [h₇]; decide) h
  · have hcontrol := read4Digits_control c h₈
    have hunit := Literal.unit hcontrol.1 (by rw [hcontrol.2.1]; exact Bool.false_ne_true) h
    rw [hcontrol.2.2] at hunit
    exact hunit
  · exact .plain h₈ h₁ h₂ h

lemma literal_appendLoop (s : Bytes) : Literal (appendLoop [] s) s := by
  rw [appendLoop_eq, List.nil_append]
  induction s with
  | nil => exact .nil
  | cons c s ih =>
    rw [List.flatMap_cons]
    exact literal_addon c ih

section

variable {ν : Type} {scan : Bytes → Option (ν × ℕ)}

lemma lexes_toJson {s rest : Bytes} {ts : List (Token ν)} (hs : Utf8.validate false s = true)
    (h : Lexes scan rest ts) :
    Lexes scan (toJson s ++ rest) (.str s :: ts) := by
  unfold toJson
  rw [List.cons_append, List.append_assoc, List.singleton_append]
  exact .string (literal_appendLoop s) hs h

/-! ## Indentation -/

lemma lexes_spaces {w rest : Bytes} {ts : List (Token ν)} (hw : ∀ c ∈ w, isSpace c = true)
    (h : Lexes scan rest ts) :
    Lexes scan (w ++ rest) ts := by
  induction w with
  | nil => exact h
  | cons c w ih =>
    exact .space (hw c List.mem_cons_self) (ih fun d hd => hw d (List.mem_cons_of_mem _ hd))

variable {c : UInt8} {passes i : ℕ} {texts : List (Option Bytes)} {d : ℕ}

lemma isSpace_pad {tb : ℤ} (hc : c ∈ pad tb) : isSpace c = true := by
  unfold pad at hc
  rw [List.eq_of_mem_replicate hc]
  decide

/-- The marks that are written by `indent`. -/
def indented : Bytes := [openBracket, closeBracket, openBrace, closeBrace, Ch.colon, comma]

/-- There is only white space around the mark. -/
lemma indent_eq (hc : c ∈ indented) (tabs : ℤ) :
    ∃ w w', (indent c tabs).1 = w ++ c :: w' ∧ (∀ d ∈ w, isSpace d = true) ∧
    ∀ d ∈ w', isSpace d = true := by
  have hline : ∀ tb, ∀ d ∈ Ch.newline :: pad tb, isSpace d = true := by
    intro tb d hd
    rcases List.mem_cons.1 hd with rfl | hd
    · decide
    · exact isSpace_pad hd
  have hnil : ∀ d ∈ ([] : Bytes), isSpace d = true := fun d hd => by cases hd
  unfold indent
  split_ifs with hneg hopen hcomma hcolon hclose
  · exact ⟨[], [], rfl, hnil, hnil⟩
  · exact ⟨[], _, rfl, hnil, hline _⟩
  · exact ⟨[], _, rfl, hnil, hline _⟩
  · subst hcolon
    refine ⟨[Ch.space], [Ch.tab], rfl, ?_, ?_⟩
    · set_option maxRecDepth 2048 in decide
    · set_option maxRecDepth 2048 in decide
  · exact ⟨Ch.newline :: pad (tabs - 1), Ch.newline :: pad (tabs - 1), rfl, hline _, hline _⟩
  · exfalso
    unfold indented at hc
    simp only [List.mem_cons, List.not_mem_nil, or_false] at hc
    rcases hc with hc | hc | hc | hc | hc | hc
    · exact hopen (Or.inr hc)
    · exact hclose (Or.inr hc)
    · exact hopen (Or.inl hc)
    · exact hclose (Or.inl hc)
    · exact hcolon hc
    · exact hcomma hc

lemma lexes_indent (hc : c ∈ indented) {t : Token ν} (ht : punctuation c = some t) (tabs : ℤ)
    {rest : Bytes} {ts : List (Token ν)} (h : Lexes scan rest ts) :
    Lexes scan ((indent c tabs).1 ++ rest) (t :: ts) := by
  rcases indent_eq hc tabs with ⟨w, w', hindent, hw, hw'⟩
  rw [hindent, List.append_assoc, List.cons_append]
  exact lexes_spaces hw (.punctuation ht (lexes_spaces hw' h))

/-- What may stand behind a value: a number ends there. -/
def Delimits (rest : Bytes) : Prop :=
  ∀ c ∈ rest.head?, c = comma ∨ c = closeBracket ∨ c = closeBrace ∨ c = Ch.newline

lemma delimits_nil : Delimits [] := fun c hc => by cases hc

/-- A value is followed by a comma or by the end of the array or of the object. -/
lemma delimits_indent (hc : c ∈ [closeBracket, closeBrace, comma]) (tabs : ℤ) (rest : Bytes) :
    Delimits ((indent c tabs).1 ++ rest) := by
  simp only [List.mem_cons, List.not_mem_nil, or_false] at hc
  have hcons : ∀ d t, d = comma ∨ d = closeBracket ∨ d = closeBrace ∨ d = Ch.newline →
      Delimits (d :: t ++ rest) := by
    intro d t hd e he
    cases he
    exact hd
  unfold indent
  split_ifs with hneg hopen hcomma hcolon hclose
  · exact hcons c [] (by tauto)
  · rcases hc with rfl | rfl | rfl
    · exact absurd hopen (by decide)
    · exact absurd hopen (by decide)
    · exact absurd hopen (by decide)
  · exact hcons c _ (by tauto)
  · rcases hc with rfl | rfl | rfl
    · exact absurd hcolon (by decide)
    · exact absurd hcolon (by decide)
    · exact absurd hcolon (by decide)
  · rw [List.cons_append]
    exact hcons Ch.newline _ (by tauto)
  · tauto

/-! ## The loops -/

/-- The texts with the separator between them. -/
def joined (separator : Bytes) : List Bytes → Bytes
  | [] => []
  | t :: ts => t ++ ((if ts = [] then [] else separator) ++ joined separator ts)

/-- The loop ends if the number of the elements fits into the index. -/
lemma arrayLoop_eq {texts : List Bytes} (hlength : texts.length < 2 ^ 32) (separator : Bytes)
    (hi : i ≤ texts.length) (hpasses : texts.length - i < passes) :
    arrayLoop (texts.map some) separator passes i = some (joined separator (texts.drop i)) := by
  induction passes generalizing i with
  | zero => omega
  | succ passes ih =>
    rw [arrayLoop]
    by_cases hlast : i = texts.length
    · rw [List.getElem?_eq_none (by rw [List.length_map]; omega), List.drop_eq_nil_of_le (by omega)]
      rfl
    · have hlt : i < texts.length := by omega
      have hmod : (i + 1) % 2 ^ 32 = i + 1 := Nat.mod_eq_of_lt (by omega)
      rw [List.getElem?_map, List.getElem?_eq_getElem hlt, Option.map_some]
      dsimp only
      rw [hmod, ih (by omega) (by omega), Option.map_some, List.drop_eq_getElem_cons hlt, joined,
        List.length_map]
      congr 3
      by_cases hmore : i + 1 < texts.length
      · rw [if_pos hmore, if_neg]
        intro hnil
        have hle := List.drop_eq_nil_iff.1 hnil
        omega
      · rw [if_neg hmore, if_pos (List.drop_eq_nil_of_le (by omega))]

/-- The index never reaches the number of the elements. -/
lemma arrayLoop_eq_none (hlength : 2 ^ 32 ≤ texts.length) (separator : Bytes) (passes : ℕ) {i : ℕ}
    (hi : i < 2 ^ 32) : arrayLoop texts separator passes i = none := by
  induction passes generalizing i with
  | zero => rfl
  | succ passes ih =>
    rw [arrayLoop, List.getElem?_eq_getElem (by omega)]
    split
    · next hnone => cases hnone
    · rfl
    · dsimp only
      rw [ih (Nat.mod_lt _ (by decide))]
      rfl

/-- All the elements from the index on were written. -/
lemma exists_of_arrayLoop (hlength : texts.length < 2 ^ 32) {separator out : Bytes}
    (h : arrayLoop texts separator passes i = some out) :
    ∀ t ∈ texts.drop i, ∃ text, t = some text := by
  induction passes generalizing i out with
  | zero => cases h
  | succ passes ih =>
    by_cases hlt : i < texts.length
    · have hmod : (i + 1) % 2 ^ 32 = i + 1 := Nat.mod_eq_of_lt (by omega)
      rw [arrayLoop, List.getElem?_eq_getElem hlt] at h
      rw [List.drop_eq_getElem_cons hlt]
      intro t ht
      rcases List.mem_cons.1 ht with rfl | ht
      · split at h
        · next hnone => cases hnone
        · cases h
        · next text htext =>
          exact ⟨text, Option.some.inj htext⟩
      · split at h
        · next hnone => cases hnone
        · cases h
        · dsimp only at h
          rw [hmod, Option.map_eq_some_iff] at h
          rcases h with ⟨out', hloop, -⟩
          exact ih hloop t ht
    · rw [List.drop_eq_nil_of_le (by omega)]
      intro t ht
      cases ht

/-! ## Values -/

variable {print : ν → Bytes}

/-- The text of a number is read as this number, up to what may stand behind it. -/
def ReadsBack (scan : Bytes → Option (ν × ℕ)) (print : ν → Bytes) (x : ν) : Prop :=
  ∃ c t, print x = c :: t ∧ beginsNumber c = true ∧ ∀ rest, Delimits rest →
    scan (c :: (t ++ rest)) = some (x, t.length)

/-- The text of a number is read as another number. -/
def ReadsAs (scan : Bytes → Option (ν × ℕ)) (print : ν → Bytes) (x y : ν) : Prop :=
  ∃ c t, print x = c :: t ∧ beginsNumber c = true ∧ ∀ rest, Delimits rest →
    scan (c :: (t ++ rest)) = some (y, t.length)

/-- The values without an undefined one in them, whose strings are valid, whose numbers can be read,
and whose arrays and objects are nested at most `d` deep. -/
inductive Storable (scan : Bytes → Option (ν × ℕ)) (print : ν → Bytes) : ℕ → Value ν → Prop
  | null {d : ℕ} : Storable scan print d .null
  | boolean {d : ℕ} {b : Bool} : Storable scan print d (.boolean b)
  | number {d : ℕ} {x : ν} (hx : ReadsBack scan print x) : Storable scan print d (.number x)
  | str {d : ℕ} {s : Bytes} (hs : Utf8.validate false s = true) : Storable scan print d (.str s)
  | object {d : ℕ} {o : List (Bytes × Value ν)} (hsorted : o.Pairwise fun m m' => m.1 < m'.1)
    (hkeys : ∀ m ∈ o, Utf8.validate false m.1 = true) (ho : ∀ m ∈ o, Storable scan print d m.2) :
    Storable scan print (d + 1) (.object o)
  | array {d : ℕ} {a : List (Value ν)} (ha : ∀ x ∈ a, Storable scan print d x) :
      Storable scan print (d + 1) (.array a)

/-- The values whose numbers are read as `f` tells. -/
inductive Readable (scan : Bytes → Option (ν × ℕ)) (print : ν → Bytes) (f : ν → ν) : ℕ → Value ν →
    Prop
  | null {d : ℕ} : Readable scan print f d .null
  | boolean {d : ℕ} {b : Bool} : Readable scan print f d (.boolean b)
  | number {d : ℕ} {x : ν} (hx : ReadsAs scan print x (f x)) : Readable scan print f d (.number x)
  | str {d : ℕ} {s : Bytes} (hs : Utf8.validate false s = true) : Readable scan print f d (.str s)
  | object {d : ℕ} {o : List (Bytes × Value ν)} (hsorted : o.Pairwise fun m m' => m.1 < m'.1)
    (hkeys : ∀ m ∈ o, Utf8.validate false m.1 = true) (ho : ∀ m ∈ o, Readable scan print f d m.2) :
    Readable scan print f (d + 1) (.object o)
  | array {d : ℕ} {a : List (Value ν)} (ha : ∀ x ∈ a, Readable scan print f d x) :
    Readable scan print f (d + 1) (.array a)

lemma Storable.readable {v : Value ν} (hv : Storable scan print d v) :
    Readable scan print id d v := by
  induction hv with
  | null => exact .null
  | boolean => exact .boolean
  | number hx => exact .number hx
  | str hs => exact .str hs
  | object hsorted hkeys _ ih => exact .object hsorted hkeys ih
  | array _ ih => exact .array ih

/-- No array has `2 ^ 32` elements or more. -/
inductive SmallArrays : Value ν → Prop
  | undefined : SmallArrays .undefined
  | null : SmallArrays .null
  | boolean {b : Bool} : SmallArrays (.boolean b)
  | number {x : ν} : SmallArrays (.number x)
  | str {s : Bytes} : SmallArrays (.str s)
  | object {o : List (Bytes × Value ν)} (ho : ∀ m ∈ o, SmallArrays m.2) : SmallArrays (.object o)
  | array {a : List (Value ν)} (hlength : a.length < 2 ^ 32) (ha : ∀ x ∈ a, SmallArrays x) :
      SmallArrays (.array a)

/-- A text is read as an item. -/
def Reads (scan : Bytes → Option (ν × ℕ)) (d : ℕ) (i : Item ν) (text : Bytes) : Prop :=
  ∃ us : List (Token ν), (∀ rest ts, Delimits rest → Lexes scan rest ts →
    Lexes scan (text ++ rest) (us ++ ts)) ∧
    ∀ ts, Parses d i (us ++ ts) ts

/-- The text of a value that is one token. -/
lemma reads_scalar {t : Token ν} {v : Value ν} {text : Bytes} (ht : t.scalar = some v)
    (h : ∀ rest ts, Delimits rest → Lexes scan rest ts → Lexes scan (text ++ rest) (t :: ts)) :
    Reads scan d (.value v) text :=
  ⟨[t], h, fun _ => .scalar ht⟩

lemma reads_word {w : Bytes} {t : Token ν} {v : Value ν} (hc : word c = some (w, t))
    (ht : t.scalar = some v) : Reads scan d (.value v) (c :: w) :=
  reads_scalar ht fun _ _ _ hts => .word hc hts

lemma reads_number {x y : ν} (hx : ReadsAs scan print x y) :
    Reads scan d (.value (.number y)) (print x) := by
  rcases hx with ⟨c, t, hprint, hc, hscan⟩
  rw [hprint]
  refine reads_scalar (t := .number y) rfl fun rest ts hrest hts => ?_
  refine .number hc (hscan rest hrest) ?_
  change Lexes scan ((t ++ rest).drop t.length) ts
  rw [List.drop_left]
  exact hts

lemma reads_elements {d : ℕ} {tabs : ℤ} {a : List (Value ν)} {texts : List Bytes}
    (h : List.Forall₂ (fun v => Reads scan d (.value v)) a texts) :
    Reads scan d (.elements a)
      (joined (indent comma tabs).1 texts ++ (indent closeBracket tabs).1) := by
  have hclose : (closeBracket : UInt8) ∈ indented := by decide
  have hcomma : (comma : UInt8) ∈ indented := by decide
  induction h with
  | nil =>
    refine ⟨[.closeArray], fun rest ts _ hts => ?_, fun ts => .closeArray⟩
    exact lexes_indent hclose rfl tabs hts
  | @cons v text a texts hv hrest ih =>
    rcases hv with ⟨us, hlexes, hparses⟩
    cases hrest with
    | nil =>
      refine ⟨us ++ [.closeArray], fun rest ts _ hts => ?_, fun ts => ?_⟩
      · rw [joined, if_pos rfl, joined, List.append_nil, List.append_nil, List.append_assoc,
          List.append_assoc]
        exact hlexes _ _ (delimits_indent (by decide) tabs rest) (lexes_indent hclose rfl tabs hts)
      · rw [List.append_assoc]
        exact .lastElement (hparses _)
    | cons hv' hrest' =>
      rcases ih with ⟨us', hlexes', hparses'⟩
      refine ⟨us ++ .comma :: us', fun rest ts hdelimits hts => ?_, fun ts => ?_⟩
      · rw [joined, if_neg (List.cons_ne_nil _ _), List.append_assoc, List.append_assoc,
          List.append_assoc, List.append_assoc]
        refine hlexes _ _ (delimits_indent (by decide) tabs _) ?_
        exact lexes_indent hcomma rfl tabs (by
          rw [← List.append_assoc]
          exact hlexes' rest ts hdelimits hts)
      · rw [List.append_assoc, List.cons_append]
        exact .nextElement (hparses _) (hparses' ts)

/-- The text of members, where a value `v` is read as `f v`. -/
lemma reads_members {d : ℕ} {tabs : ℤ} {f : Value ν → Value ν} {o : List (Bytes × Value ν)}
    (h : ∀ m ∈ o, Utf8.validate false m.1 = true ∧
      ∃ text, writeValue print m.2 tabs = some text ∧ Reads scan d (.value (f m.2)) text) :
    ∃ out, writeMembers print o tabs = some out ∧
      Reads scan d (.members (o.map fun m => (m.1, f m.2)))
        (out ++ (indent closeBrace tabs).1) := by
  have hclose : (closeBrace : UInt8) ∈ indented := by decide
  have hcomma : (comma : UInt8) ∈ indented := by decide
  have hcolon : (Ch.colon : UInt8) ∈ indented := by decide
  induction o with
  | nil =>
    refine ⟨[], by rw [writeMembers], [.closeObject], fun rest ts _ hts => ?_, fun ts =>
      .closeObject⟩
    exact lexes_indent hclose rfl tabs hts
  | cons m o ih =>
    rcases m with ⟨key, v⟩
    rcases h _ List.mem_cons_self with ⟨hkey, text, hwrite, us, hlexes, hparses⟩
    rcases ih fun m hm => h m (List.mem_cons_of_mem _ hm) with ⟨out, hout, us', hlexes', hparses'⟩
    rw [writeMembers, hwrite, hout]
    refine ⟨_, rfl, ?_⟩
    cases o with
    | nil =>
      refine ⟨.str key :: .colon :: us ++ [.closeObject], fun rest ts _ hts => ?_, fun ts => ?_⟩
      · rw [writeMembers] at hout
        cases hout
        rw [if_pos rfl, List.append_nil, List.append_nil]
        simp only [List.append_assoc, List.cons_append, List.nil_append]
        apply lexes_toJson hkey
        apply lexes_indent hcolon rfl tabs
        exact hlexes _ _ (delimits_indent (by decide) tabs rest) (lexes_indent hclose rfl tabs hts)
      · simp only [List.append_assoc, List.cons_append, List.nil_append]
        exact .lastMember (hparses _)
    | cons m o =>
      refine ⟨.str key :: .colon :: us ++ .comma :: us',
        fun rest ts hdelimits hts => ?_, fun ts => ?_⟩
      · have hmembers := hlexes' rest ts hdelimits hts
        rw [if_neg (List.cons_ne_nil _ _)]
        simp only [List.append_assoc, List.cons_append] at hmembers ⊢
        apply lexes_toJson hkey
        apply lexes_indent hcolon rfl tabs
        exact hlexes _ _ (delimits_indent (by decide) tabs _)
          (lexes_indent hcomma rfl tabs hmembers)
      · simp only [List.append_assoc, List.cons_append]
        exact .nextMember (hparses _) (hparses' ts)

lemma insertList_append {key : Bytes} {v : Value ν} {o : List (Bytes × Value ν)}
    (h : ∀ m ∈ o, m.1 < key) :
    SortedMap.insertList key v o = o ++ [(key, v)] := by
  induction o with
  | nil => rfl
  | cons m o ih =>
    have hlt := h m List.mem_cons_self
    rw [SortedMap.insertList, if_neg hlt.asymm, if_neg hlt.ne', ih fun m hm =>
      h m (List.mem_cons_of_mem _ hm), List.cons_append]

/-- Members that come in the order of their keys stay in this order. -/
lemma addMembers_of_sorted {o ms : List (Bytes × Value ν)}
    (h : (o ++ ms).Pairwise fun m m' => m.1 < m'.1) :
    addMembers o ms = o ++ ms := by
  induction ms generalizing o with
  | nil => exact (List.append_nil o).symm
  | cons m ms ih =>
    have hlt : ∀ m' ∈ o, m'.1 < m.1 := fun m' hm' =>
      (List.pairwise_append.1 h).2.2 m' hm' m List.mem_cons_self
    have happend : o ++ m :: ms = (o ++ [m]) ++ ms := by
      rw [List.append_assoc, List.singleton_append]
    rw [happend] at h ⊢
    rw [← ih h]
    unfold addMembers
    rw [List.foldl_cons, insertList_append hlt]

lemma writeElements_eq (a : List (Value ν)) (tabs : ℤ) :
    writeElements print a tabs = a.map fun v => writeValue print v tabs := by
  induction a with
  | nil => rw [writeElements, List.map_nil]
  | cons v a ih => rw [writeElements, ih, List.map_cons]

/-- The texts of the elements. -/
lemma exists_texts {P : Value ν → Bytes → Prop} {a : List (Value ν)} {tabs : ℤ}
    (h : ∀ v ∈ a, ∃ text, writeValue print v tabs = some text ∧ P v text) :
    ∃ texts : List Bytes, writeElements print a tabs = texts.map some ∧ List.Forall₂ P a texts := by
  rw [writeElements_eq]
  induction a with
  | nil => exact ⟨[], rfl, .nil⟩
  | cons v a ih =>
    rcases h v List.mem_cons_self with ⟨text, hwrite, hp⟩
    rcases ih fun w hw => h w (List.mem_cons_of_mem _ hw) with ⟨texts, htexts, hall⟩
    refine ⟨text :: texts, ?_, .cons hp hall⟩
    rw [List.map_cons, List.map_cons, hwrite, htexts]

/-- A value without large arrays is written, and its text is read as the value with the numbers that
are read. -/
lemma reads_map {f : ν → ν} {v : Value ν} (hv : Readable scan print f d v) (hsmall : SmallArrays v)
    (tabs : ℤ) :
    ∃ text, writeValue print v tabs = some text ∧ Reads scan d (.value (v.map f)) text := by
  induction hv generalizing tabs with
  | null =>
    refine ⟨_, by rw [writeValue], ?_⟩
    rw [Value.map]
    exact reads_word (c := 0x6E) (t := .null) rfl rfl
  | @boolean d b =>
    refine ⟨_, by rw [writeValue], ?_⟩
    rw [Value.map]
    cases b with
    | false => exact reads_word rfl rfl
    | true => exact reads_word rfl rfl
  | number hx =>
    rw [Value.map]
    exact ⟨_, by rw [writeValue], reads_number hx⟩
  | @str d s hs =>
    refine ⟨_, by rw [writeValue], ?_⟩
    rw [Value.map]
    exact reads_scalar (t := .str s) rfl fun rest ts _ hts => lexes_toJson hs hts
  | @object d o hsorted hkeys ho ih =>
    have hopen : (openBrace : UInt8) ∈ indented := by decide
    cases hsmall with
    | object hsmall =>
      rw [writeValue, Value.map, Value.mapMembers_eq]
      rcases reads_members fun m hm =>
        ⟨hkeys m hm, ih m hm (hsmall m hm) (indent openBrace tabs).2⟩ with
        ⟨out, hwrite, us, hlexes, hparses⟩
      rw [hwrite]
      refine ⟨_, rfl, .openObject :: us, fun rest ts hrest hts => ?_, fun ts => ?_⟩
      · rw [List.append_assoc]
        exact lexes_indent hopen rfl tabs (hlexes rest ts hrest hts)
      · have hsorted' : (o.map fun m => (m.1, Value.map f m.2)).Pairwise fun m m' =>
            m.1 < m'.1 := by
          rw [List.pairwise_map]
          exact hsorted
        have hnodup : ((o.map fun m => (m.1, Value.map f m.2)).map Prod.fst).Nodup := by
          rw [List.nodup_iff_pairwise_ne, List.pairwise_map]
          exact hsorted'.imp fun h => h.ne
        have hobject := Parses.object (hparses ts) hnodup
        rw [addMembers_of_sorted (by rwa [List.nil_append]), List.nil_append] at hobject
        exact hobject
  | @array d a ha ih =>
    have hopen : (openBracket : UInt8) ∈ indented := by decide
    cases hsmall with
    | array hlength hsmall =>
      rw [writeValue, Value.map, Value.mapElements_eq]
      rcases exists_texts fun v hv => ih v hv (hsmall v hv) (indent openBracket tabs).2 with
        ⟨texts, htexts, hall⟩
      have hsame : texts.length = a.length := hall.length_eq.symm
      rw [htexts, arrayLoop_eq (by omega) _ (Nat.zero_le _) (by omega), List.drop_zero]
      have hall' : List.Forall₂ (fun v => Reads scan d (.value v)) (a.map (Value.map f)) texts :=
        List.forall₂_map_left_iff.2 hall
      rcases @reads_elements _ _ _ (indent openBracket tabs).2 _ _ hall' with ⟨us, hlexes, hparses⟩
      refine ⟨_, rfl, .openArray :: us, fun rest ts hrest hts => ?_, fun ts => .array (hparses ts)⟩
      rw [List.append_assoc]
      exact lexes_indent hopen rfl tabs (hlexes rest ts hrest hts)

/-- A value without large arrays is written, and its text is read as this value. -/
lemma reads_value {v : Value ν} (hv : Storable scan print d v) (hsmall : SmallArrays v) (tabs : ℤ) :
    ∃ text, writeValue print v tabs = some text ∧ Reads scan d (.value v) text := by
  have hread := reads_map hv.readable hsmall tabs
  rwa [Value.map_id] at hread

lemma exists_of_writeMembers {o : List (Bytes × Value ν)} {tabs : ℤ} {out : Bytes}
    (h : writeMembers print o tabs = some out) :
    ∀ m ∈ o, ∃ text, writeValue print m.2 tabs = some text := by
  induction o generalizing out with
  | nil =>
    intro m hm
    cases hm
  | cons m o ih =>
    rcases m with ⟨key, v⟩
    rw [writeMembers] at h
    split at h
    · next text out' hwrite hout =>
      intro m hm
      rcases List.mem_cons.1 hm with rfl | hm
      · exact ⟨text, hwrite⟩
      · exact ih hout m hm
    · cases h

/-- A value that is written has no large array. -/
lemma smallArrays_of_write (v : Value ν) :
    ∀ {tabs : ℤ} {text : Bytes}, writeValue print v tabs = some text → SmallArrays v := by
  induction v using Value.induction with
  | hundefined => exact fun _ => .undefined
  | hnull => exact fun _ => .null
  | hboolean b => exact fun _ => .boolean
  | hnumber x => exact fun _ => .number
  | hstr s => exact fun _ => .str
  | hobject o ih =>
    intro tabs text h
    rw [writeValue, Option.map_eq_some_iff] at h
    rcases h with ⟨out, hout, -⟩
    refine .object fun m hm => ?_
    rcases exists_of_writeMembers hout m hm with ⟨t, ht⟩
    exact ih m hm ht
  | harray a ih =>
    intro tabs text h
    rw [writeValue, Option.map_eq_some_iff, writeElements_eq] at h
    rcases h with ⟨out, hout, -⟩
    have hlength : a.length < 2 ^ 32 := by
      by_contra hlarge
      have hmap :
          2 ^ 32 ≤ (a.map fun v => writeValue print v (indent openBracket tabs).2).length := by
        rw [List.length_map]
        omega
      rw [arrayLoop_eq_none hmap _ _ (by omega)] at hout
      cases hout
    refine .array hlength fun v hv => ?_
    have hall := exists_of_arrayLoop (by rwa [List.length_map]) hout
    rw [List.drop_zero] at hall
    rcases hall _ (List.mem_map_of_mem hv) with ⟨t, ht⟩
    exact ih v hv ht

/-- A value is saved and loaded again, whatever was there before. -/
def RoundTrips (scan : Bytes → Option (ν × ℕ)) (print : ν → Bytes) (v : Value ν) : Prop :=
  ∀ how, ∃ text, save print how v = some text ∧
    ∀ full out, load scan full text out = .returns (true, v)

/-- Saving and loading gives the same value if and only if it has no array of `2 ^ 32` elements or
more. -/
theorem roundTrips_iff {v : Value ν} (hv : Storable scan print maxDepth v) :
    RoundTrips scan print v ↔ SmallArrays v := by
  constructor
  · intro h
    rcases h .compact with ⟨text, hsave, -⟩
    exact smallArrays_of_write v hsave
  · intro hsmall how
    rcases reads_value hv hsmall (if how = .readable then 0 else -1) with
      ⟨text, hwrite, us, hlexes, hparses⟩
    refine ⟨text, hwrite, fun full out => ?_⟩
    have htext := hlexes [] [] delimits_nil .nil
    rw [List.append_nil, List.append_nil] at htext
    have hvalue := hparses []
    rw [List.append_nil] at hvalue
    unfold load tokenize
    rw [tokens_eq htext (Nat.lt_succ_self _), parseStream_eq, readFirst_eq_some.2 hvalue]
    dsimp only
    rw [if_neg fun h => h.2 rfl]

end

/-- The numbers without a fraction, as the standard library reads them. -/
def scanNat (text : Bytes) : Option (ℕ × ℕ) :=
  if (text.takeWhile fun c => 0x30 ≤ c && c ≤ 0x39) = [] then none
  else some (leadingNumber text, (text.takeWhile fun c => 0x30 ≤ c && c ≤ 0x39).length - 1)

lemma takeWhile_of_delimits {rest : Bytes} (h : Delimits rest) :
    (rest.takeWhile fun c => 0x30 ≤ c && c ≤ 0x39) = [] := by
  cases rest with
  | nil => rfl
  | cons c rest =>
    have hc : (0x30 ≤ c && c ≤ 0x39) = false := by
      rcases h c rfl with rfl | rfl | rfl | rfl <;> decide
    rw [List.takeWhile_cons, hc]
    rfl

/-- Every number without a fraction is read back. -/
lemma readsBack_nat (n : ℕ) : ReadsBack scanNat showNat n := by
  rcases hn : showNat n with - | ⟨c, t⟩
  · exact absurd hn (showNat_ne_nil n)
  · have hc : (0x30 ≤ c && c ≤ 0x39) = true := isDigit_of_mem_showNat (hn ▸ List.mem_cons_self)
    refine ⟨c, t, hn, ?_, fun rest hrest => ?_⟩
    · unfold beginsNumber
      simp only [Bool.and_eq_true, decide_eq_true_eq] at hc
      exact decide_eq_true (.inr hc)
    · have hrest' : ∀ d ∈ rest.head?, (0x30 ≤ d && d ≤ 0x39) = false := by
        intro d hd
        rcases hrest d hd with rfl | rfl | rfl | rfl <;> decide
      have htake : ((c :: (t ++ rest)).takeWhile fun d => 0x30 ≤ d && d ≤ 0x39) = c :: t := by
        rw [← List.cons_append, ← hn, List.takeWhile_append_of_pos fun d hd =>
          isDigit_of_mem_showNat hd, takeWhile_of_delimits hrest, List.append_nil]
      have hnumber : leadingNumber (c :: (t ++ rest)) = n := by
        rw [← List.cons_append, ← hn]
        exact leadingNumber_showNat_append n hrest'
      unfold scanNat
      rw [htake, if_neg (List.cons_ne_nil _ _), hnumber, List.length_cons, Nat.add_sub_cancel]

/-- An object with an array in it. -/
def sample : Value ℕ :=
  .object [(bytes "a", .array [.number 7, .str [Ch.quote, 0x00, 0x7F]]), (bytes "b", .null)]

lemma storable_sample : Storable scanNat showNat maxDepth sample := by
  refine .object (by decide) ?_ ?_
  · intro m hm
    simp only [List.mem_cons, List.not_mem_nil, or_false] at hm
    rcases hm with rfl | rfl
    · decide +kernel
    · decide +kernel
  · intro m hm
    simp only [List.mem_cons, List.not_mem_nil, or_false] at hm
    rcases hm with rfl | rfl
    · refine .array fun x hx => ?_
      simp only [List.mem_cons, List.not_mem_nil, or_false] at hx
      rcases hx with rfl | rfl
      · exact .number (readsBack_nat 7)
      · exact .str (by decide)
    · exact .null

theorem roundTrips_iff_sample :
    Storable scanNat showNat maxDepth sample ∧
    (RoundTrips scanNat showNat sample ↔ SmallArrays sample) :=
  ⟨storable_sample, roundTrips_iff storable_sample⟩

lemma not_roundTrips {ν : Type} {scan : Bytes → Option (ν × ℕ)} {print : ν → Bytes}
    {a : List (Value ν)} (ha : 2 ^ 32 ≤ a.length) : ¬ RoundTrips scan print (.array a) := by
  intro h
  rcases h .compact with ⟨text, hsave, -⟩
  cases smallArrays_of_write _ hsave with
  | array hlength _ => omega

/-- An array of `2 ^ 32` elements is never written. -/
theorem roundTrips_many_nulls :
    Storable scanNat showNat maxDepth (.array (List.replicate (2 ^ 32) .null)) ∧
      ¬ RoundTrips scanNat showNat (.array (List.replicate (2 ^ 32) .null)) := by
  constructor
  · refine .array fun x hx => ?_
    rw [List.eq_of_mem_replicate hx]
    exact .null
  · apply not_roundTrips
    rw [List.length_replicate]

end Json

end Cppcms
