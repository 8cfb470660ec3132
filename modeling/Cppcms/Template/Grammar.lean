import Cppcms.Template.Show

/-!
# Variables and filters as texts

The grammar of what stands after `<%=` and in a `using` list: a variable with a chain of filters,
each with its parameters (`ReadsShow`, `ReadsList`), and the expression that such a text stands for
(`emit`). The functions of `base_show` read their texts piece by piece with patterns; without an
error they have found a reading of the whole text and return its expression (`prepare_sound`,
`makeFormatParams_sound`).
-/

namespace Cppcms

namespace Template

open Regex

variable (u : Unicode)

/-! ## The grammar -/

/-- White space. -/
def IsBlank (w : Text) : Prop := ∀ c ∈ w, u.isSpace c = true

/-- A variable. -/
def IsVariable (w : Text) : Prop := Lang (variableMatch u 1) w

/-- A string in quotes. -/
def IsString (w : Text) : Prop := Lang (strMatch 1) w

/-- A number. -/
def IsNumber (w : Text) : Prop :=
  Lang (cat [opt (lit "-"), u.digits, opt (seq (lit ".") (star (char u.isDigit)))]) w

/-- What may stand at the end of a text: a newline is ignored. -/
def IsTail (w : Text) : Prop := w = [] ∨ w = ['\n']

/-- A parameter of a filter. -/
inductive Param where
  | var (v : Text)
  | const (s : Text)
  deriving DecidableEq, Repr

/-- A filter with its parameters. -/
structure FilterUse where
  ext : Bool
  name : Text
  params : List Param
  deriving DecidableEq, Repr

/-- One parameter. -/
inductive ReadsParam : Text → Param → Prop
  | var {v : Text} (h : IsVariable u v) : ReadsParam v (.var v)
  | string {s : Text} (h : IsString s) : ReadsParam s (.const s)
  | number {s : Text} (h : IsNumber u s) : ReadsParam s (.const s)

/-- Parameters, separated by commas.  A comma after the last one is allowed. -/
inductive ReadsParams : Text → List Param → Prop
  | last {a x b tail : Text} {p : Param} (ha : IsBlank u a) (hx : ReadsParam u x p)
      (hb : IsBlank u b)
      (htail : IsTail tail) : ReadsParams (a ++ x ++ b ++ tail) [p]
  | comma {a x b tail : Text} {p : Param} (ha : IsBlank u a) (hx : ReadsParam u x p)
      (hb : IsBlank u b)
      (htail : IsTail tail) : ReadsParams (a ++ x ++ b ++ ',' :: tail) [p]
  | cons {a x b rest tail : Text} {p : Param} {ps : List Param} (ha : IsBlank u a)
      (hx : ReadsParam u x p) (hb : IsBlank u b) (hrest : ReadsParams rest ps)
        (htail : IsTail tail) :
      ReadsParams (a ++ x ++ b ++ ',' :: rest ++ tail) (p :: ps)

/-- The parameters of a filter, in parentheses, or nothing. -/
inductive ReadsCall : Text → List Param → Prop
  | none : ReadsCall [] []
  | some {x : Text} {ps : List Param} (h : ReadsParams u x ps) : ReadsCall ('(' :: x ++ [')']) ps

/-- The word `ext` in front of a filter of the content, or nothing. -/
inductive ReadsExt : Text → Bool → Prop
  | none : ReadsExt [] false
  | some {e : Text} (he : IsBlank u e) (hne : e ≠ []) : ReadsExt (str "ext" ++ e) true

/-- One filter, with white space around its parts. -/
inductive ReadsFilter : Text → FilterUse → Prop
  | mk {a e name b call c : Text} {ext : Bool} {ps : List Param} (ha : IsBlank u a)
      (he : ReadsExt u e ext) (hname : Lang u.words name) (hb : IsBlank u b)
      (hcall : ReadsCall u call ps) (hc : IsBlank u c) :
      ReadsFilter (a ++ e ++ name ++ b ++ call ++ c) ⟨ext, name, ps⟩

/-- A chain of filters.  A bar after the last one is allowed. -/
inductive ReadsChain : Text → List FilterUse → Prop
  | last {x tail : Text} {f : FilterUse} (hx : ReadsFilter u x f) (htail : IsTail tail) :
      ReadsChain (x ++ tail) [f]
  | bar {x tail : Text} {f : FilterUse} (hx : ReadsFilter u x f) (htail : IsTail tail) :
      ReadsChain (x ++ '|' :: tail) [f]
  | cons {x rest tail : Text} {f : FilterUse} {fs : List FilterUse} (hx : ReadsFilter u x f)
      (hrest : ReadsChain rest fs) (htail : IsTail tail) :
      ReadsChain (x ++ '|' :: rest ++ tail) (f :: fs)

/-- A variable with its filters.  A bar without a filter is allowed. -/
inductive ReadsShow : Text → Text → List FilterUse → Prop
  | variable {a v b tail : Text} (ha : IsBlank u a) (hv : IsVariable u v) (hb : IsBlank u b)
      (htail : IsTail tail) : ReadsShow (a ++ v ++ b ++ tail) v []
  | bar {a v b tail : Text} (ha : IsBlank u a) (hv : IsVariable u v) (hb : IsBlank u b)
      (htail : IsTail tail) : ReadsShow (a ++ v ++ b ++ '|' :: tail) v []
  | chain {a v b rest tail : Text} {fs : List FilterUse} (ha : IsBlank u a) (hv : IsVariable u v)
      (hb : IsBlank u b) (hrest : ReadsChain u rest fs) (htail : IsTail tail) :
      ReadsShow (a ++ v ++ b ++ '|' :: rest ++ tail) v fs

/-- An item of a `using` list: outside of strings and parentheses there is no comma. -/
def IsItem (w : Text) : Prop :=
  Lang (plus (any (char fun c => c != ',' && c != '(' && c != '"') [strMatch 1, cat [lit "(",
    star (alt (char fun c => c != '"' && c != ')') (strMatch 1)), lit ")"]])) w

/-- A `using` list: items separated by commas, each one a variable with its filters. -/
inductive ReadsList : Text → List (Text × List FilterUse) → Prop
  | last {x tail v : Text} {fs : List FilterUse} (hitem : IsItem x) (hx : ReadsShow u x v fs)
      (htail : IsTail tail) : ReadsList (x ++ tail) [(v, fs)]
  | cons {x rest tail v : Text} {fs : List FilterUse} {vs : List (Text × List FilterUse)}
      (hitem : IsItem x) (hx : ReadsShow u x v fs) (hrest : ReadsList rest vs)
        (htail : IsTail tail) :
      ReadsList (x ++ ',' :: rest ++ tail) ((v, fs) :: vs)

/-! ## The expressions -/

variable (names : List Text)

def Param.expr : Param → Option Expr
  | .var v => makeIdent u names v
  | .const s => some [.code s]

/-- A filter applied to an expression. -/
def FilterUse.apply (e : Expr) (f : FilterUse) : Option Expr :=
  (f.params.mapM (Param.expr u names)).map fun es =>
    call
      (if f.ext then [.content, .code ('.' :: f.name)]
      else [.code (str "cppcms::filters::" ++ f.name)])
      (e :: es)

/-- The expression for a variable: its filters applied to it one after the other, or the default
filter if there is none. -/
def emit (default : Expr) (v : Text) (chain : List FilterUse) : Option Expr :=
  (makeIdent u names v).bind fun e =>
    if chain = [] then some (call default [e]) else chain.foldlM (FilterUse.apply u names) e

/-! ## Reading the patterns -/

variable {u} {names}

variable {m : Captures Char} {s : Text} {d : Captures Char} {w t : Text} {n : ℕ} {filters : Text}
  {r : Prepared} {dflt : Option Expr} {scope : Scope}

/-- A match is a front of the text that the pattern reads. -/
lemma pyMatch_reads {r : Regex Char} (h : pyMatch r s = some m) :
    ∃ w t, s = w ++ t ∧ Reads r w m t := by
  obtain ⟨⟨t, d⟩, hm, rfl⟩ := Option.map_eq_some_iff.1 h
  obtain ⟨w, hs, hr⟩ := matchPrefix_sound hm
  exact ⟨w, t, hs, hr⟩

/-- At the end of a text nothing is left, or a newline. -/
lemma isTail_of_reads_atEnd (h : Reads atEnd w d t) :
    w = [] ∧ d = [] ∧ IsTail t := by
  obtain ⟨ht, rfl, rfl⟩ := reads_ahead_iff.1 h
  refine ⟨rfl, rfl, ?_⟩
  simpa [IsTail] using ht

/-- The last part of a pattern: a rest after a mark, or nothing. -/
lemma reads_rest {i j : ℕ} {mark : String}
    (h : Reads (cat [opt (group i (seq (lit mark) (group j (star dot)))), atEnd]) w d t) :
    IsTail t ∧ ((w = [] ∧ d = []) ∨
      ∃ rest, w = str mark ++ rest ∧ d = [(i, w), (j, rest)]) := by
  obtain ⟨x, y, d1, d2, rfl, rfl, hopt, hend⟩ := reads_seq_iff.1 h
  obtain ⟨rfl, rfl, ht⟩ := isTail_of_reads_atEnd hend
  refine ⟨ht, ?_⟩
  obtain hgroup | ⟨rfl, rfl⟩ := reads_opt_iff.1 hopt
  · obtain ⟨e, rfl, hseq⟩ := reads_group_iff.1 hgroup
    obtain ⟨y, rest, d1, d2, rfl, rfl, hmark, hrest⟩ := reads_seq_iff.1 hseq
    obtain ⟨rfl, rfl⟩ := reads_word_iff.1 hmark
    obtain ⟨e, rfl, hdots⟩ := reads_group_iff.1 hrest
    obtain ⟨rfl, -⟩ := reads_starChar_iff.1 hdots
    exact .inr ⟨rest, by simp, by simp⟩
  · exact .inl ⟨rfl, rfl⟩

/-- Blanks have no groups. -/
lemma isBlank_of_reads (h : Reads u.spaces w d t) :
    IsBlank u w ∧ d = [] := by
  obtain ⟨rfl, hw⟩ := reads_starChar_iff.1 h
  exact ⟨hw, rfl⟩

/-- The groups of the pattern for a variable. -/
lemma variableMatch_groups (u : Unicode) (i : ℕ) :
    (variableMatch u i).groups = [i, i + 1, i + 2, i + 3, i + 4] := rfl

lemma strMatch_groups (i : ℕ) : (strMatch i).groups = [i] := rfl

/-- The alternatives for a parameter. -/
lemma reads_param {x t : Text} {e : Captures Char} (names : List Text)
    (h :
      Reads
        (any (group 2 (variableMatch u 3))
        [group 8 (strMatch 9), group 10
        (cat [opt (lit "-"), u.digits, opt (group 11 (seq (lit ".") (star (char u.isDigit))))])])
        x e t) :
    ∃ p, ReadsParam u x p ∧ paramOfGroups u names (e.get 2) (e.get 8) (e.get 10) =
      (p.expr u names).map (fun e => [e]) := by
  obtain h1 | h1 := reads_alt_iff.1 h
  · obtain ⟨e, rfl, hv⟩ := reads_group_iff.1 h1
    refine ⟨.var x, .var (hv.lang rfl), ?_⟩
    simp [paramOfGroups, truthy_some (hv.ne_nil rfl), Param.expr]
  · obtain h2 | h2 := reads_alt_iff.1 h1
    · obtain ⟨e, rfl, hs⟩ := reads_group_iff.1 h2
      refine ⟨.const x, .string (hs.lang rfl), ?_⟩
      have h2 : Captures.get e 2 = none := hs.get_eq_none (by rw [strMatch_groups]; decide)
      simp [paramOfGroups, Captures.get_cons_of_ne, h2, truthy_some (hs.ne_nil rfl), Param.expr]
    · obtain ⟨e, rfl, hn⟩ := reads_group_iff.1 h2
      have hgroups : groups (cat [opt (lit "-"), u.digits,
        opt (group 11 (seq (lit ".") (star (char u.isDigit))))]) = [11] := rfl
      refine ⟨.const x, .number (hn.lang rfl), ?_⟩
      have h2 : Captures.get e 2 = none := hn.get_eq_none (by rw [hgroups]; decide)
      have h8 : Captures.get e 8 = none := hn.get_eq_none (by rw [hgroups]; decide)
      simp [paramOfGroups, Captures.get_cons_of_ne, h2, h8, truthy_some (hn.ne_nil rfl), Param.expr]

/-- One round of `get_params` reads a parameter. -/
lemma getParamsPattern_reads (names : List Text) (h : pyMatch (getParamsPattern u) s = some m) :
    ∃ a x b p tail, IsBlank u a ∧ ReadsParam u x p ∧ IsBlank u b ∧ IsTail tail ∧
      paramOfGroups u names (m.get 2) (m.get 8) (m.get 10) = (p.expr u names).map (fun e => [e]) ∧
      ((m.get 13 = none ∧ s = a ++ x ++ b ++ tail) ∨
        ∃ rest, m.get 13 = some rest ∧ s = a ++ x ++ b ++ ',' :: rest ++ tail) := by
  obtain ⟨w, tail, rfl, h1⟩ := pyMatch_reads h
  obtain ⟨a, w1, d1, d2, rfl, rfl, h2, h3⟩ := reads_seq_iff.1 h1
  obtain ⟨x, w2, d3, d4, rfl, rfl, h4, h5⟩ := reads_seq_iff.1 h3
  obtain ⟨b, w3, d5, d6, rfl, rfl, h6, h7⟩ := reads_seq_iff.1 h5
  obtain ⟨ha, rfl⟩ := isBlank_of_reads h2
  obtain ⟨hb, rfl⟩ := isBlank_of_reads h6
  obtain ⟨e, rfl, h8⟩ := reads_group_iff.1 h4
  obtain ⟨htail, hrest⟩ := reads_rest h7
  obtain ⟨p, hp, hexpr⟩ := reads_param names h8
  have h13 : Captures.get e 13 = none := h8.get_eq_none (by
    change 13 ∉ [2, 3, 4, 5, 6, 7, 8, 9, 10, 11]
    decide)
  refine ⟨a, x, b, p, tail, ha, hp, hb, htail, ?_⟩
  obtain ⟨rfl, rfl⟩ | ⟨rest, rfl, rfl⟩ := hrest
  · refine ⟨?_, .inl ⟨?_, ?_⟩⟩
    · simpa [Captures.get_cons_of_ne] using hexpr
    · simp [Captures.get_cons_of_ne, h13]
    · simp
  · refine ⟨?_, .inr ⟨rest, ?_, ?_⟩⟩
    · simpa [Captures.get_cons_of_ne] using hexpr
    · simp [Captures.get_cons_of_ne]
    · simp [str]

/-- Without an error, `get_params` has read a list of parameters. -/
lemma getParamsLoop_sound {res es : List Expr} (h : getParamsLoop u names n s res = some ([], es)) :
    ∃ ps es', ReadsParams u s ps ∧ ps.mapM (Param.expr u names) = some es' ∧ es = res ++ es' := by
  induction n generalizing s res with
  | zero => cases h
  | succ n ih =>
    unfold getParamsLoop at h
    split at h
    · cases h
    · rename_i m hm
      obtain ⟨a, x, b, p, tail, ha, hx, hb, htail, hparam, hrest⟩ := getParamsPattern_reads names hm
      rw [hparam] at h
      cases hp : p.expr u names with
      | none =>
        rw [hp] at h
        cases h
      | some e =>
        rw [hp] at h
        simp only [Option.map_some] at h
        split_ifs at h with hmore
        · obtain ⟨hnone, -⟩ | ⟨rest, hsome, rfl⟩ := hrest
          · rw [hnone] at hmore
            cases hmore
          · rw [hsome, Option.getD_some] at h
            obtain ⟨ps, es', hps, hes', rfl⟩ := ih h
            exact ⟨p :: ps, e :: es', .cons ha hx hb hps htail, by simp [hp, hes'], by simp⟩
        · obtain ⟨-, rfl⟩ := Prod.mk.inj (Option.some.inj h)
          refine ⟨[p], [e], ?_, by simp [hp], rfl⟩
          obtain ⟨-, rfl⟩ | ⟨rest, hsome, rfl⟩ := hrest
          · exact .last ha hx hb htail
          · have hnil : rest = [] := by simpa [hsome, truthy] using hmore
            subst hnil
            simpa using ReadsParams.comma ha hx hb htail

/-- One or more characters of a class. -/
lemma reads_plusChar {p : Char → Bool} (h : Reads (plus (char p)) w d t) :
    d = [] ∧ w ≠ [] ∧ ∀ c ∈ w, p c = true := by
  obtain ⟨x, y, d1, d2, rfl, rfl, h1, h2⟩ := reads_seq_iff.1 h
  obtain ⟨c, hc, rfl, rfl⟩ := reads_char_iff.1 h1
  obtain ⟨rfl, hy⟩ := reads_starChar_iff.1 h2
  exact ⟨rfl, by simp, by simpa [hc] using hy⟩

/-- The optional word `ext`. -/
lemma reads_ext (h : Reads (opt (group 1 (seq (lit "ext") u.spaces1))) w d t) :
    ReadsExt u w (truthy (d.get 1)) ∧ ∀ i, i ≠ 1 → d.get i = none := by
  obtain h1 | ⟨rfl, rfl⟩ := reads_opt_iff.1 h
  · obtain ⟨e, rfl, h2⟩ := reads_group_iff.1 h1
    obtain ⟨x, sp, d1, d2, rfl, rfl, h3, h4⟩ := reads_seq_iff.1 h2
    obtain ⟨rfl, rfl⟩ := reads_word_iff.1 h3
    obtain ⟨rfl, hne, hsp⟩ := reads_plusChar h4
    refine ⟨?_, fun i hi => ?_⟩
    · rw [Captures.get_cons_self, truthy_some (by simp [hne])]
      exact .some hsp hne
    · rw [Captures.get_cons_of_ne hi.symm]
      rfl
  · exact ⟨.none, fun i _ => rfl⟩

/-- The optional parameters of a filter. -/
lemma reads_call {w t : Text} {d : Captures Char}
    (h : Reads (opt (group 3 (cat [lit "(",
      group 4 (star (group 5 (alt (char fun c => c != '"' && c != ')') (strMatch 6)))), lit ")"])))
        w d t) :
    ((w = [] ∧ d = []) ∨ ∃ x, w = '(' :: x ++ [')'] ∧ d.get 3 = some w ∧ d.get 4 = some x) ∧
      ∀ i, i ∉ [3, 4, 5, 6] → d.get i = none := by
  refine ⟨?_, fun i hi => h.get_eq_none hi⟩
  obtain h1 | ⟨rfl, rfl⟩ := reads_opt_iff.1 h
  · obtain ⟨e, rfl, h2⟩ := reads_group_iff.1 h1
    obtain ⟨y, w1, d1, d2, rfl, rfl, h3, h4⟩ := reads_seq_iff.1 h2
    obtain ⟨x, z, d3, d4, rfl, rfl, h5, h6⟩ := reads_seq_iff.1 h4
    obtain ⟨rfl, rfl⟩ := reads_word_iff.1 h3
    obtain ⟨rfl, rfl⟩ := reads_word_iff.1 h6
    obtain ⟨e, rfl, -⟩ := reads_group_iff.1 h5
    refine .inr ⟨x, by simp [str], by simp, ?_⟩
    simp [Captures.get_cons_of_ne]
  · exact .inl ⟨rfl, rfl⟩

/-- One round over the filters reads a filter. -/
lemma filterExpr_reads (h : pyMatch (filterExpr u) s = some m) :
    ∃ a e name b call c tail, IsBlank u a ∧ ReadsExt u e (truthy (m.get 1)) ∧ Lang u.words name ∧
      m.get 2 = some name ∧ IsBlank u b ∧ IsBlank u c ∧ IsTail tail ∧
      ((call = [] ∧ m.get 3 = none) ∨ ∃ x, call = '(' :: x ++ [')'] ∧ m.get 3 = some call ∧
        m.get 4 = some x) ∧
      ((m.get 8 = none ∧ s = a ++ e ++ name ++ b ++ call ++ c ++ tail) ∨
        ∃ rest, m.get 8 = some rest ∧
        s = a ++ e ++ name ++ b ++ call ++ c ++ '|' :: rest ++ tail) := by
  obtain ⟨w, tail, rfl, h1⟩ := pyMatch_reads h
  obtain ⟨a, w1, d1, d2, rfl, rfl, h2, h3⟩ := reads_seq_iff.1 h1
  obtain ⟨e, w2, dext, d4, rfl, rfl, h4, h5⟩ := reads_seq_iff.1 h3
  obtain ⟨name, w3, d5, d6, rfl, rfl, h6, h7⟩ := reads_seq_iff.1 h5
  obtain ⟨b, w4, d7, d8, rfl, rfl, h8, h9⟩ := reads_seq_iff.1 h7
  obtain ⟨call, w5, dcall, d10, rfl, rfl, h10, h11⟩ := reads_seq_iff.1 h9
  obtain ⟨c, w6, d11, drest, rfl, rfl, h12, h13⟩ := reads_seq_iff.1 h11
  obtain ⟨ha, rfl⟩ := isBlank_of_reads h2
  obtain ⟨hb, rfl⟩ := isBlank_of_reads h8
  obtain ⟨hc, rfl⟩ := isBlank_of_reads h12
  obtain ⟨htail, hrest⟩ := reads_rest h13
  obtain ⟨hext, hext_get⟩ := reads_ext h4
  obtain ⟨hcall, hcall_get⟩ := reads_call h10
  obtain ⟨d12, rfl, h14⟩ := reads_group_iff.1 h6
  obtain ⟨rfl, -⟩ := reads_plusChar h14
  have hrest_get : ∀ i, i ≠ 7 → i ≠ 8 → Captures.get drest i = none := by
    intro i h7 h8
    exact h13.get_eq_none (by change i ∉ [7, 8]; simp [h7, h8])
  simp only [List.append_nil, List.cons_append, List.nil_append, List.append_assoc,
    Captures.get_append]
  refine ⟨a, e, name, b, call, c, tail, ha, ?_, h14.lang rfl, ?_, hb, hc, htail, ?_, ?_⟩
  · simpa [hrest_get, hcall_get, Captures.get_cons_of_ne] using hext
  · simp [hrest_get, hcall_get]
  · obtain ⟨rfl, rfl⟩ | ⟨x, hx, h3, h4⟩ := hcall
    · exact .inl ⟨rfl, by simp [hrest_get, hext_get, Captures.get_cons_of_ne]⟩
    · exact .inr ⟨x, hx, by simp [hrest_get, h3], by simp [hrest_get, h4]⟩
  · obtain ⟨rfl, rfl⟩ | ⟨rest, rfl, rfl⟩ := hrest
    · exact .inl ⟨by simp [hcall_get, hext_get, Captures.get_cons_of_ne], by simp⟩
    · exact .inr ⟨rest, by simp [Captures.get_cons_of_ne], by simp [str]⟩

/-- Without an error there is an expression. -/
lemma prepareLoop_expr {var : Expr} (h : prepareLoop u names n filters var = some ([], r)) :
    ∃ e, r = .expr e := by
  induction n generalizing filters var with
  | zero => cases h
  | succ n ih =>
    unfold prepareLoop at h
    split at h
    · cases h
    · dsimp only at h
      split at h
      · cases h
      · split_ifs at h
        · obtain ⟨⟨xs, r'⟩, hloop, heq⟩ := Option.map_eq_some_iff.1 h
          obtain ⟨hxs, rfl⟩ := Prod.mk.inj heq
          obtain rfl : xs = [] := (List.append_eq_nil_iff.1 hxs).2
          exact ih hloop
        · obtain ⟨-, rfl⟩ := Prod.mk.inj (Option.some.inj h)
          exact ⟨_, rfl⟩

/-- An accepted variable has an expression. -/
lemma prepare_expr (h : prepare u scope dflt s = some ([], r)) : ∃ e, r = .expr e := by
  unfold prepare at h
  split at h
  · cases h
  · split at h
    · cases h
    · split_ifs at h
      · exact prepareLoop_expr h
      · obtain ⟨-, rfl⟩ := Prod.mk.inj (Option.some.inj h)
        exact ⟨_, rfl⟩

/-- Without an error, the filters have been read and applied one after the other. -/
lemma prepareLoop_sound {var e : Expr}
    (h : prepareLoop u names n filters var = some ([], .expr e)) :
    ∃ f fs, ReadsChain u filters (f :: fs) ∧
      (f :: fs).foldlM (FilterUse.apply u names) var = some e := by
  induction n generalizing filters var with
  | zero => cases h
  | succ n ih =>
    unfold prepareLoop at h
    split at h
    · cases h
    · rename_i m hm
      obtain ⟨a, e', name, b, call, c, tail, ha, hext, hname, hget, hb, hc, htail, hcall, hrest⟩ :=
        filterExpr_reads hm
      dsimp only at h
      split at h
      · cases h
      · rename_i errs es hparams
        -- without an error there are none in the parameters
        have herrs : errs = [] := by
          split_ifs at h
          · obtain ⟨q, -, heq⟩ := Option.map_eq_some_iff.1 h
            exact (List.append_eq_nil_iff.1 (Prod.mk.inj heq).1).1
          · exact (Prod.mk.inj (Option.some.inj h)).1
        subst herrs
        have hps : ∃ ps, ReadsCall u call ps ∧ ps.mapM (Param.expr u names) = some es := by
          obtain ⟨rfl, hnone⟩ | ⟨x, rfl, hsome, hx⟩ := hcall
          · rw [hnone, truthy_none, if_neg (by simp)] at hparams
            obtain ⟨-, rfl⟩ := Prod.mk.inj (Option.some.inj hparams)
            exact ⟨[], .none, rfl⟩
          · rw [hsome, truthy_some (by simp), if_pos rfl, hx] at hparams
            obtain ⟨ps, es', hps, hes, rfl⟩ := getParamsLoop_sound hparams
            exact ⟨ps, .some hps, hes⟩
        obtain ⟨ps, hps, hes⟩ := hps
        have hfilter : ReadsFilter u (a ++ e' ++ name ++ b ++ call ++ c)
            ⟨truthy (m.get 1), name, ps⟩ := .mk ha hext hname hb hps hc
        have happly : FilterUse.apply u names var ⟨truthy (m.get 1), name, ps⟩ =
            some (Template.call (filterFunction (m.get 1) ((m.get 2).getD [])) (var :: es)) := by
          simp [FilterUse.apply, hes, hget, filterFunction]
        split_ifs at h with hmore
        · obtain ⟨⟨xs, r⟩, hloop, heq⟩ := Option.map_eq_some_iff.1 h
          obtain ⟨rfl, rfl⟩ := Prod.mk.inj heq
          obtain ⟨hnone, -⟩ | ⟨rest, hsome, rfl⟩ := hrest
          · rw [hnone] at hmore
            cases hmore
          · rw [hsome] at hloop
            obtain ⟨f, fs, hchain, hfold⟩ := ih hloop
            refine ⟨_, f :: fs, .cons hfilter hchain htail, ?_⟩
            rw [List.foldlM_cons, happly]
            exact hfold
        · obtain ⟨-, hvar⟩ := Prod.mk.inj (Option.some.inj h)
          obtain rfl := Prepared.expr.inj hvar
          refine ⟨_, [], ?_, by rw [List.foldlM_cons, happly]; rfl⟩
          obtain ⟨-, rfl⟩ | ⟨rest, hsome, rfl⟩ := hrest
          · exact .last hfilter htail
          · have hnil : rest = [] := by simpa [hsome, truthy] using hmore
            subst hnil
            simpa using ReadsChain.bar hfilter htail

/-- The variable and the rest in `base_show.base_pattern`. -/
lemma basePattern_reads (h : pyMatch (basePattern u) s = some m) :
    ∃ a v b tail, IsBlank u a ∧ IsVariable u v ∧ IsBlank u b ∧ IsTail tail ∧ m.get 1 = some v ∧
      ((m.get 8 = none ∧ s = a ++ v ++ b ++ tail) ∨
        ∃ rest, m.get 8 = some rest ∧ s = a ++ v ++ b ++ '|' :: rest ++ tail) := by
  obtain ⟨w, tail, rfl, h1⟩ := pyMatch_reads h
  obtain ⟨a, w1, d1, d2, rfl, rfl, h2, h3⟩ := reads_seq_iff.1 h1
  obtain ⟨v, w2, d3, d4, rfl, rfl, h4, h5⟩ := reads_seq_iff.1 h3
  obtain ⟨b, w3, d5, d6, rfl, rfl, h6, h7⟩ := reads_seq_iff.1 h5
  obtain ⟨ha, rfl⟩ := isBlank_of_reads h2
  obtain ⟨hb, rfl⟩ := isBlank_of_reads h6
  obtain ⟨e, rfl, h8⟩ := reads_group_iff.1 h4
  obtain ⟨htail, hrest⟩ := reads_rest h7
  have hget : Captures.get e 8 = none := h8.get_eq_none (by rw [variableMatch_groups]; decide)
  refine ⟨a, v, b, tail, ha, h8.lang rfl, hb, htail, ?_⟩
  obtain ⟨rfl, rfl⟩ | ⟨rest, rfl, rfl⟩ := hrest
  · exact ⟨by simp, .inl ⟨by simp [Captures.get_cons_of_ne, hget], by simp⟩⟩
  · exact ⟨by simp [Captures.get_cons_of_ne], .inr ⟨rest, by simp [Captures.get_cons_of_ne],
      by simp [str]⟩⟩

/-- Without an error, `prepare` has read a variable with its filters and returns its expression. -/
lemma prepare_sound {e : Expr} (h : prepare u scope dflt s = some ([], .expr e)) :
    ∃ v fs, ReadsShow u s v fs ∧
      emit u scope.tmplSeq (dflt.getD scope.scopeFilter) v fs = some e := by
  unfold prepare at h
  split at h
  · cases h
  · rename_i m hm
    obtain ⟨a, v, b, tail, ha, hv, hb, htail, hget, hrest⟩ := basePattern_reads hm
    rw [hget, Option.getD_some] at h
    split at h
    · cases h
    · rename_i var hvar
      split_ifs at h with hmore
      · obtain ⟨hnone, -⟩ | ⟨rest, hsome, rfl⟩ := hrest
        · rw [hnone] at hmore
          cases hmore
        · rw [hsome] at h
          obtain ⟨f, fs, hchain, hfold⟩ := prepareLoop_sound h
          refine ⟨v, f :: fs, .chain ha hv hb hchain htail, ?_⟩
          rw [emit, hvar, Option.bind_some, if_neg (by simp)]
          exact hfold
      · obtain ⟨-, hexpr⟩ := Prod.mk.inj (Option.some.inj h)
        obtain rfl := Prepared.expr.inj hexpr
        refine ⟨v, [], ?_, by rw [emit, hvar]; rfl⟩
        obtain ⟨-, rfl⟩ | ⟨rest, hsome, rfl⟩ := hrest
        · exact .variable ha hv hb htail
        · have hnil : rest = [] := by simpa [hsome, truthy] using hmore
          subst hnil
          simpa using ReadsShow.bar ha hv hb htail

/-- The first item and the rest of a `using` list. -/
lemma formatParamsPattern_reads (h : pyMatch formatParamsPattern s = some m) :
    ∃ x tail, IsItem x ∧ IsTail tail ∧ m.get 1 = some x ∧
      ((m.get 6 = none ∧ s = x ++ tail) ∨
        ∃ rest, truthy (m.get 6) = true ∧ m.get 7 = some rest ∧ s = x ++ ',' :: rest ++ tail) := by
  obtain ⟨w, tail, rfl, h1⟩ := pyMatch_reads h
  obtain ⟨x, w1, d1, d2, rfl, rfl, h2, h3⟩ := reads_seq_iff.1 h1
  obtain ⟨e, rfl, h4⟩ := reads_group_iff.1 h2
  obtain ⟨htail, hrest⟩ := reads_rest h3
  have hget : Captures.get e 6 = none :=
    h4.get_eq_none (by change 6 ∉ [2, 3, 4, 5, 2, 3, 4, 5]; decide)
  refine ⟨x, tail, h4.lang rfl, htail, ?_⟩
  obtain ⟨rfl, rfl⟩ | ⟨rest, rfl, rfl⟩ := hrest
  · exact ⟨by simp, .inl ⟨by simp [Captures.get_cons_of_ne, hget], by simp⟩⟩
  · refine ⟨by simp [Captures.get_cons_of_ne], .inr ⟨rest, ?_, by simp [Captures.get_cons_of_ne],
      by simp [str]⟩⟩
    rw [List.cons_append, Captures.get_cons_self, truthy_some (by simp [str])]

/-- The parameters are read one after the other. -/
lemma formatParamsLoop_sound {params es : List Expr}
    (h : formatParamsLoop u scope dflt n s params = some ([], es)) :
    ∃ vs es', ReadsList u s vs ∧
      vs.mapM (fun p => emit u scope.tmplSeq (dflt.getD scope.scopeFilter) p.1 p.2) = some es' ∧
      es = params ++ es' := by
  induction n generalizing s params with
  | zero => cases h
  | succ n ih =>
    unfold formatParamsLoop at h
    split at h
    · cases h
    · rename_i m hm
      obtain ⟨x, tail, hitem, htail, hget, hrest⟩ := formatParamsPattern_reads hm
      rw [hget, Option.getD_some] at h
      split at h
      · cases h
      · rename_i errs r hprepare
        have herrs : errs = [] := by
          split_ifs at h
          · obtain ⟨q, -, heq⟩ := Option.map_eq_some_iff.1 h
            exact (List.append_eq_nil_iff.1 (Prod.mk.inj heq).1).1
          · exact (Prod.mk.inj (Option.some.inj h)).1
        subst herrs
        obtain ⟨e, rfl⟩ := prepare_expr hprepare
        obtain ⟨v, fs, hshow, hemit⟩ := prepare_sound hprepare
        split_ifs at h with hmore
        · obtain ⟨⟨xs, r⟩, hloop, heq⟩ := Option.map_eq_some_iff.1 h
          obtain ⟨rfl, rfl⟩ := Prod.mk.inj heq
          obtain ⟨hnone, -⟩ | ⟨rest, -, hsome, rfl⟩ := hrest
          · rw [hnone] at hmore
            cases hmore
          · rw [hsome] at hloop
            obtain ⟨vs, es', hvs, hes', hes⟩ := ih hloop
            refine ⟨(v, fs) :: vs, e :: es', .cons hitem hshow hvs htail, by simp [hemit, hes'], ?_⟩
            rw [hes, List.append_assoc]
            rfl
        · obtain ⟨-, rfl⟩ := Prod.mk.inj (Option.some.inj h)
          obtain ⟨-, rfl⟩ | ⟨rest, htrue, -, rfl⟩ := hrest
          · exact ⟨[(v, fs)], [e], .last hitem hshow htail, by simp [hemit], rfl⟩
          · exact absurd htrue hmore

/-- Without an error, `make_format_params` has read a list of variables with their filters. -/
lemma makeFormatParams_sound {es : List Expr}
    (h : makeFormatParams u scope s dflt = some ([], es)) :
    ∃ vs, ReadsList u s vs ∧
      vs.mapM (fun p => emit u scope.tmplSeq (dflt.getD scope.scopeFilter) p.1 p.2) = some es := by
  obtain ⟨vs, es', hvs, hes', rfl⟩ := formatParamsLoop_sound h
  exact ⟨vs, hvs, hes'⟩

/-! ## The budgets are enough

Every round of the loops goes on with a shorter text, so a budget beyond the length of the text is
never used up. -/

/-- The length of the text is enough, whatever the number of rounds. -/
lemma getParamsLoop_budget {n k : ℕ} (res : List Expr) (hn : s.length < n) (hk : s.length < k) :
    getParamsLoop u names n s res = getParamsLoop u names k s res := by
  induction n generalizing k s res with
  | zero => omega
  | succ n ih =>
    obtain ⟨k, rfl⟩ : ∃ j, k = j + 1 := ⟨k - 1, by omega⟩
    unfold getParamsLoop
    cases hm : pyMatch (getParamsPattern u) s with
    | none => rfl
    | some m =>
      dsimp only
      cases paramOfGroups u names (m.get 2) (m.get 8) (m.get 10) with
      | none => rfl
      | some es =>
        dsimp only
        split_ifs with hmore
        · obtain ⟨a, x, b, p, tail, -, -, -, -, -, ⟨hnone, -⟩ | ⟨rest, hsome, rfl⟩⟩ :=
            getParamsPattern_reads names hm
          · rw [hnone] at hmore
            cases hmore
          · rw [hsome, Option.getD_some]
            simp only [List.length_append, List.length_cons] at hn hk
            exact ih _ (by omega) (by omega)
        · rfl

lemma prepareLoop_budget {n k : ℕ} (var : Expr) (hn : filters.length < n)
    (hk : filters.length < k) :
    prepareLoop u names n filters var = prepareLoop u names k filters var := by
  induction n generalizing k filters var with
  | zero => omega
  | succ n ih =>
    obtain ⟨k, rfl⟩ : ∃ j, k = j + 1 := ⟨k - 1, by omega⟩
    unfold prepareLoop
    cases hm : pyMatch (filterExpr u) filters with
    | none => rfl
    | some m =>
      dsimp only
      split
      · rfl
      · split_ifs with hmore
        · obtain ⟨a, e, name, b, call, c, tail, -, -, -, -, -, -, -, -, ⟨hnone, -⟩ |
              ⟨rest, hsome, rfl⟩⟩ :=
            filterExpr_reads hm
          · rw [hnone] at hmore
            cases hmore
          · rw [hsome, Option.getD_some]
            simp only [List.length_append, List.length_cons] at hn hk
            rw [ih (k := k) _ (by omega) (by omega)]
        · rfl

lemma formatParamsLoop_budget {n k : ℕ} (params : List Expr) (hn : s.length < n)
    (hk : s.length < k) :
    formatParamsLoop u scope dflt n s params = formatParamsLoop u scope dflt k s params := by
  induction n generalizing k s params with
  | zero => omega
  | succ n ih =>
    obtain ⟨k, rfl⟩ : ∃ j, k = j + 1 := ⟨k - 1, by omega⟩
    unfold formatParamsLoop
    cases hm : pyMatch formatParamsPattern s with
    | none => rfl
    | some m =>
      dsimp only
      split
      · rfl
      · split_ifs with hmore
        · obtain ⟨x, tail, -, -, -, ⟨hnone, -⟩ | ⟨rest, -, hsome, rfl⟩⟩ :=
            formatParamsPattern_reads hm
          · rw [hnone] at hmore
            cases hmore
          · rw [hsome, Option.getD_some]
            simp only [List.length_append, List.length_cons] at hn hk
            rw [ih (k := k) _ (by omega) (by omega)]
        · rfl

end Template

end Cppcms
