import Cppcms.Http.CookieRoundTrip

/-!
# What the header of a cookie says

A client splits the header at the semicolons that stand outside of quoted strings.  The cookie
decides what it reads only if no value can end its quoted string or the line, and `quote` escapes
neither quotes nor backslashes, while the end of a line stays an end of a line behind its backslash.
-/

namespace Cppcms

namespace Http

open Protocol

attribute [local instance(1100)] List.decidableBAll

/-! ## Splitting -/

/-- A text in front of the first piece. -/
def prepend (u : Bytes) : List Bytes → List Bytes
  | [] => [u]
  | f :: fs => (u ++ f) :: fs

/-- The pieces between the semicolons outside of quoted strings, in which `unquote` takes a
character behind a backslash as it is.  The flag tells if the text starts inside of a quoted string.
-/
def pieces : Bool → Bytes → List Bytes
  | _, [] => [[]]
  | false, c :: p =>
    if c = Ch.semicolon then [] :: pieces false p
    else prepend [c] (pieces (c = Ch.quote) p)
  | true, [c] => [[c]]
  | true, c :: d :: p =>
    if c = 0x5C then prepend [c, d] (pieces true p)
    else prepend [c] (pieces (c ≠ Ch.quote) (d :: p))

/-- The text behind the name of an attribute: none, or an equals sign and a text.  A quoted string
has to be the whole text. -/
def readText : Bytes → Option (Option Bytes)
  | [] => some none
  | _ :: text =>
    if text.head? = some Ch.quote then
      match unquote text with
      | some (v, []) => some (some v)
      | _ => none
    else some (some text)

/-- The attribute of a piece without the spaces before it. -/
def readTrimmed (piece : Bytes) : Option (Bytes × Option Bytes) :=
  (readText (piece.dropWhile (· ≠ Ch.eq))).map (Prod.mk (piece.takeWhile (· ≠ Ch.eq)))

/-- The attribute of a piece. -/
def readAttribute (piece : Bytes) : Option (Bytes × Option Bytes) :=
  readTrimmed (piece.dropWhile (· = Ch.space))

namespace Cookie

/-- An attribute that a cookie has if its text is not empty. -/
def textOf (name text : Bytes) : List (Bytes × Option Bytes) :=
  if text = [] then [] else [(name, some text)]

/-- The attributes behind the comment, in the order of `write`. -/
def otherAttributes (date : ℤ → Bytes) (c : Cookie) : List (Bytes × Option Bytes) :=
  textOf (bytes "Domain") c.domain
    ++ (match c.maxAge with | none => [] | some age => [(bytes "Max-Age", some (showNat age))])
    ++ (match c.expires with | none => [] | some time => [(bytes "Expires", some (date time))])
    ++ textOf (bytes "Path") c.path
    ++ (if c.secure then [(bytes "Secure", none)] else [])
    ++ (if c.httponly then [(bytes "HttpOnly", none)] else [])
    ++ (if c.samesiteNone then [(bytes "SameSite", some (bytes "None"))] else [])
    ++ (if c.samesiteLax then [(bytes "SameSite", some (bytes "Lax"))] else [])
    ++ (if c.samesiteStrict then [(bytes "SameSite", some (bytes "Strict"))] else [])
    ++ [(bytes "Version", some (bytes "1"))]

/-- The pair and the attributes that a cookie has. -/
def attributes (date : ℤ → Bytes) (c : Cookie) : List (Bytes × Option Bytes) :=
  (c.name, some c.value) :: (textOf (bytes "Comment") c.comment ++ otherAttributes date c)

/-- The header is one line, and it says what the cookie has and nothing else. -/
def SaysItself (date : ℤ → Bytes) (c : Cookie) : Prop :=
  ∃ body, c.write date = some (bytes "Set-Cookie:" ++ body) ∧
    (∀ a ∈ bytes "Set-Cookie:" ++ body, a ≠ Ch.return' ∧ a ≠ Ch.newline) ∧
    (pieces false body).map readAttribute = (c.attributes date).map some

end Cookie

/-- A text that ends neither a line nor a piece, and starts no quoted string. -/
def Plain (s : Bytes) : Prop :=
  ∀ c ∈ s, c ≠ Ch.semicolon ∧ c ≠ Ch.quote ∧ c ≠ Ch.return' ∧ c ≠ Ch.newline

instance (s : Bytes) : Decidable (Plain s) :=
  inferInstanceAs
    (Decidable (∀ c ∈ s, c ≠ Ch.semicolon ∧ c ≠ Ch.quote ∧ c ≠ Ch.return' ∧ c ≠ Ch.newline))

/-- The values that cannot end their quoted string or the line. -/
structure StaysInside (v : Bytes) : Prop where
  line : ∀ c ∈ v, c ≠ Ch.return' ∧ c ≠ Ch.newline
  quote : Ch.quote ∉ v
  backslash : BeforeControls v

/-! ### Pieces of a text that is put together -/

lemma prepend_append (u v : Bytes) (fs : List Bytes) :
    prepend (u ++ v) fs = prepend u (prepend v fs) := by
  rcases fs with _ | ⟨f, fs⟩
  · rfl
  · rw [prepend, prepend, prepend, List.append_assoc]

lemma pieces_ne_nil (inside : Bool) (p : Bytes) : pieces inside p ≠ [] := by
  have hprepend : ∀ u fs, prepend u fs ≠ [] := by
    intro u fs
    rcases fs with _ | ⟨f, fs⟩
    · exact List.cons_ne_nil _ _
    · exact List.cons_ne_nil _ _
  fun_cases pieces inside p with
  | case1 => exact List.cons_ne_nil _ _
  | case2 => exact List.cons_ne_nil _ _
  | case3 => exact hprepend _ _
  | case4 => exact List.cons_ne_nil _ _
  | case5 => exact hprepend _ _
  | case6 => exact hprepend _ _

variable {fs : List Bytes} {c : UInt8} {s t : Bytes} {v : Bytes} {key : Bytes} {text : Bytes}
  {f : Bytes}

lemma prepend_nil (h : fs ≠ []) : prepend [] fs = fs := by
  rcases fs with _ | ⟨f, fs⟩
  · exact absurd rfl h
  · rfl

lemma pieces_cons (hsemicolon : c ≠ Ch.semicolon) (hquote : c ≠ Ch.quote) (p : Bytes) :
    pieces false (c :: p) = prepend [c] (pieces false p) := by
  rw [pieces, if_neg hsemicolon, decide_eq_false hquote]

/-- A text that a splitter reads through and is outside of quoted strings behind it. -/
def Closed (u : Bytes) : Prop := ∀ p, pieces false (u ++ p) = prepend u (pieces false p)

lemma Closed.append {u v : Bytes} (hu : Closed u) (hv : Closed v) : Closed (u ++ v) := by
  intro p
  rw [List.append_assoc, hu, hv, prepend_append]

lemma Plain.closed {u : Bytes} (hu : Plain u) : Closed u := by
  induction u with
  | nil => exact fun p => (prepend_nil (pieces_ne_nil _ _)).symm
  | cons c u ih =>
    intro p
    have hc := hu c List.mem_cons_self
    have hrest := ih (fun d hd => hu d (List.mem_cons_of_mem _ hd)) p
    rw [List.cons_append, pieces_cons hc.1 hc.2.1, hrest, ← prepend_append, List.singleton_append]

/-- The pieces go on behind the quote that `unquote` stops at. -/
lemma pieces_unquoteBody {p v q : Bytes} (h : unquoteBody p = some (v, q)) :
    ∃ u, p = u ++ q ∧ pieces true p = prepend u (pieces false q) := by
  fun_induction unquoteBody p generalizing v q with
  | case1 => cases h
  | case2 =>
    cases h
    exact ⟨[Ch.quote], rfl, rfl⟩
  | case3 => cases h
  | case4 d p =>
    cases h
    exact ⟨[Ch.quote], rfl, if_neg (by decide)⟩
  | case5 d p hquote ih =>
    rcases Option.map_eq_some_iff.1 h with ⟨⟨w, r⟩, hr, heq⟩
    cases heq
    rcases ih hr with ⟨u, rfl, hu⟩
    refine ⟨0x5C :: d :: u, rfl, ?_⟩
    rw [pieces, if_pos rfl, hu, ← prepend_append]
    rfl
  | case6 c d p hquote hback ih =>
    rcases Option.map_eq_some_iff.1 h with ⟨⟨w, r⟩, hr, heq⟩
    cases heq
    rcases ih hr with ⟨u, hp, hu⟩
    refine ⟨c :: u, by rw [hp, List.cons_append], ?_⟩
    rw [pieces, if_neg hback, decide_eq_true hquote, hu, ← prepend_append]
    rfl

/-- A value is read from the text before the rest alone, and a backslash before a backslash is all
that is left out of the text: the other characters are those of the value and the quote that ends
it. -/
lemma unquoteBody_consumed {p v q : Bytes} (h : unquoteBody p = some (v, q)) :
    ∃ u, p = u ++ q ∧ unquoteBody u = some (v, []) ∧
      u.filter (· ≠ 0x5C) = v.filter (· ≠ 0x5C) ++ [Ch.quote] ∧ u.getLast? = some Ch.quote := by
  fun_induction unquoteBody p generalizing v q with
  | case1 => cases h
  | case2 =>
    cases h
    exact ⟨[Ch.quote], rfl, rfl, rfl, rfl⟩
  | case3 => cases h
  | case4 d p =>
    cases h
    exact ⟨[Ch.quote], rfl, rfl, rfl, rfl⟩
  | case5 d p hquote ih =>
    rcases Option.map_eq_some_iff.1 h with ⟨⟨w, r⟩, hr, heq⟩
    cases heq
    rcases ih hr with ⟨u, rfl, hu, hfilter, hlast⟩
    refine ⟨0x5C :: d :: u, rfl, unquoteBody_backslash d hu, ?_, ?_⟩
    · have hskip : (0x5C :: d :: u).filter (· ≠ 0x5C) = (d :: u).filter (· ≠ 0x5C) :=
        List.filter_cons_of_neg (by decide)
      rw [hskip, ← List.singleton_append, List.filter_append,
        hfilter, ← List.append_assoc, ← List.filter_append]
      rfl
    · rw [List.getLast?_cons, List.getLast?_cons, hlast]
      rfl
  | case6 c d p hquote hback ih =>
    rcases Option.map_eq_some_iff.1 h with ⟨⟨w, r⟩, hr, heq⟩
    cases heq
    rcases ih hr with ⟨u, hp, hu, hfilter, hlast⟩
    refine ⟨c :: u, by rw [hp, List.cons_append], unquoteBody_cons hquote hback hu, ?_, ?_⟩
    · rw [← List.singleton_append, List.filter_append,
        hfilter, ← List.append_assoc, ← List.filter_append]
      rfl
    · rw [List.getLast?_cons, hlast]
      rfl

lemma filter_quoteBody (v : Bytes) : (quoteBody v).filter (· ≠ 0x5C) = v.filter (· ≠ 0x5C) := by
  induction v with
  | nil => rfl
  | cons c v ih =>
    rw [quoteBody_cons, List.filter_append, ih]
    have hhead : (if c < 0x20 then [0x5C, c] else [c]).filter (· ≠ 0x5C) =
        [c].filter (· ≠ 0x5C) := by
      split_ifs
      · exact List.filter_cons_of_neg (by decide)
      · rfl
    rw [hhead, ← List.filter_append, List.singleton_append]

/-- Two beginnings of a text that end at the same one of the characters that a filter keeps. -/
lemma eq_of_filter_eq {α : Type*} {f : α → Bool} {u v s t : List α} {a b : α} (h : u ++ s = v ++ t)
    (hfilter : u.filter f = v.filter f) (hu : u.getLast? = some a) (ha : f a)
    (hv : v.getLast? = some b) (hb : f b) :
    u = v := by
  have hle : ∀ {u v s t : List α} {b : α}, u ++ s = v ++ t → u.filter f = v.filter f →
    v.getLast? = some b → f b →
      v.length ≤ u.length := by
    intro u v s t b h hfilter hv hb
    by_contra hlt
    have hprefix : u <+: v :=
      List.prefix_of_prefix_length_le (List.prefix_append u s) (h ▸ List.prefix_append v t)
      (Nat.le_of_not_le hlt)
    rcases hprefix with ⟨w, rfl⟩
    rw [List.filter_append, List.self_eq_append_right] at hfilter
    rcases List.eq_nil_or_concat w with rfl | ⟨w, c, rfl⟩
    · exact hlt (by rw [List.append_nil])
    · rw [List.concat_eq_append, ← List.append_assoc,
        List.getLast?_append_of_ne_nil _ (List.cons_ne_nil _ _)] at hv
      rw [List.concat_eq_append] at hfilter
      cases hv
      exact List.filter_eq_nil_iff.1 hfilter c (List.mem_append_right _ List.mem_cons_self) hb
  have hlength : u.length = v.length :=
    le_antisymm (hle h.symm hfilter.symm hu ha) (hle h hfilter hv hb)
  exact (List.append_inj h hlength).1

/-- A value that is read out of its quoted string stays inside of it, whatever stands behind. -/
lemma of_unquoteBody_quoteBody {v p q : Bytes}
    (h : unquoteBody (quoteBody v ++ Ch.quote :: p) = some (v, q)) :
    Ch.quote ∉ v ∧ BeforeControls v := by
  rcases unquoteBody_consumed h with ⟨u, hp, hu, hfilter, hlast⟩
  have heq : u = quoteBody v ++ [Ch.quote] := by
    apply eq_of_filter_eq (f := (· ≠ 0x5C)) (a := Ch.quote) (b := Ch.quote) (s := q) (t := p)
    · rw [← hp, List.append_assoc, List.singleton_append]
    · rw [hfilter, List.filter_append, filter_quoteBody]
      rfl
    · exact hlast
    · rfl
    · rw [List.getLast?_append_of_ne_nil _ (List.cons_ne_nil _ _)]
      rfl
    · rfl
  -- the text between the quotes has the backslashes that `quote` writes, and no value needs less
  have hescaped := escaped_quoteBody v
  have hneed := (unquoteBody_need (f := false) (hescaped.1.cons (c := Ch.quote) hescaped.2)
    (fun h => absurd h (by decide)) (heq ▸ hu)).2.1
  have hgiven := given_le_need false v
  have hcount : (quoteBody v ++ [Ch.quote]).count 0x5C = given v := by
    rw [List.count_append]
    rfl
  rw [hcount, List.count_nil, Nat.add_zero] at hneed
  rw [excess_false, Nat.add_zero] at hgiven
  exact hgiven.2 (le_antisymm hgiven.1 hneed)
/-! ### Attributes that are printed -/

lemma IsTocken.plain {t : Bytes} (ht : ∀ c ∈ t, isTocken c) : Plain t := by
  intro c hc
  have htocken := ht c hc
  refine ⟨?_, ?_, ?_, ?_⟩
  all_goals
    rintro rfl
    exact absurd htocken (by decide)

lemma plain_showNat (n : ℕ) : Plain (showNat n) := by
  intro c hc
  have hdigit := isDigit_of_mem_showNat hc
  refine ⟨?_, ?_, ?_, ?_⟩
  all_goals
    rintro rfl
    exact absurd hdigit (by decide)

lemma Plain.append (hs : Plain s) (ht : Plain t) : Plain (s ++ t) :=
  fun c hc => (List.mem_append.1 hc).elim (hs c) (ht c)

/-- The values of tokens need no quotes. -/
lemma staysInside_of_isTocken (hv : ∀ c ∈ v, isTocken c) : StaysInside v where
  line c hc := (IsTocken.plain hv c hc).2.2
  quote h := (IsTocken.plain hv Ch.quote h).2.1 rfl
  backslash := by
    have hgiven := given_le_need false v
    rw [need_of_isTocken hv, excess_false] at hgiven
    exact (hgiven.2 (Nat.le_zero.1 hgiven.1)).2

lemma readAttribute_space (f : Bytes) : readAttribute (Ch.space :: f) = readAttribute f := rfl

/-- A name is no space. -/
lemma dropWhile_space (hkey : ∀ c ∈ key, isTocken c) (text : Bytes)
    (htext : text.head? ≠ some Ch.space) :
    (key ++ text).dropWhile (· = Ch.space) = key ++ text := by
  rcases key with _ | ⟨c, key⟩
  · rcases text with _ | ⟨d, text⟩
    · rfl
    · exact List.dropWhile_cons_of_neg (by simpa using htext)
  · have hc : c ≠ Ch.space := by
      rintro rfl
      exact absurd (hkey Ch.space List.mem_cons_self) (by decide)
    exact List.dropWhile_cons_of_neg (by simpa using hc)

lemma all_ne_eq (hkey : ∀ c ∈ key, isTocken c) : ∀ c ∈ key, decide (c ≠ Ch.eq) = true := by
  intro c hc
  apply decide_eq_true
  rintro rfl
  exact absurd (hkey Ch.eq hc) (by decide)

lemma readAttribute_key (hkey : ∀ c ∈ key, isTocken c) : readAttribute key = some (key, none) := by
  have hspace := dropWhile_space hkey [] (by simp)
  rw [List.append_nil] at hspace
  unfold readAttribute readTrimmed
  rw [hspace, List.dropWhile_eq_nil_iff.2 (all_ne_eq hkey),
    List.takeWhile_eq_self_iff.2 (all_ne_eq hkey)]
  rfl

lemma readAttribute_assignment (hkey : ∀ c ∈ key, isTocken c) (text : Bytes) :
    readAttribute (key ++ Ch.eq :: text) = (readText (Ch.eq :: text)).map (Prod.mk key) := by
  unfold readAttribute readTrimmed
  rw [dropWhile_space hkey _ (by simp), List.dropWhile_append_of_pos (all_ne_eq hkey),
    List.takeWhile_append_of_pos (all_ne_eq hkey), List.dropWhile_cons_of_neg (by decide),
    List.takeWhile_cons_of_neg (by decide), List.append_nil]

lemma readText_plain (h : Plain text) : readText (Ch.eq :: text) = some (some text) := by
  apply if_neg
  intro hhead
  exact (h Ch.quote (List.mem_of_mem_head? hhead)).2.1 rfl

lemma closed_quote (hquote : Ch.quote ∉ v) (hback : BeforeControls v) :
    Closed (Cookie.quote v) := by
  intro p
  have hread := (unquoteBody_quoteBody hquote hback p).1
  rcases pieces_unquoteBody hread with ⟨u, hp, hpieces⟩
  have hsame : quoteBody v ++ [Ch.quote] ++ p = u ++ p := by
    rw [← hp, List.append_assoc, List.singleton_append]
  have heq := List.append_cancel_right hsame
  have hopen : pieces false (Ch.quote :: (quoteBody v ++ Ch.quote :: p)) =
      prepend [Ch.quote] (pieces true (quoteBody v ++ Ch.quote :: p)) := if_neg (by decide)
  have htext : Cookie.quote v ++ p = Ch.quote :: (quoteBody v ++ Ch.quote :: p) := by
    rw [quote_eq, List.append_assoc]
    rfl
  rw [htext, hopen, hpieces, ← prepend_append, ← heq]
  rfl

lemma readText_quote (hquote : Ch.quote ∉ v) (hback : BeforeControls v) :
    readText (Ch.eq :: Cookie.quote v) = some (some v) := by
  have hread : unquote (Cookie.quote v) = some (v, []) := (unquoteBody_quoteBody hquote hback []).1
  have hhead : (Cookie.quote v).head? = some Ch.quote := rfl
  unfold readText
  dsimp only
  rw [if_pos hhead, hread]

/-- A text of attributes, each behind its semicolon. -/
structure Prints (text : Bytes) (as : List (Bytes × Option Bytes)) : Prop where
  line : ∀ c ∈ text, c ≠ Ch.return' ∧ c ≠ Ch.newline
  read : ∀ p fs, pieces false p = [] :: fs → ∃ gs, pieces false (text ++ p) = [] :: gs ∧
    gs.map readAttribute = as.map some ++ fs.map readAttribute

lemma Prints.nil : Prints [] [] where
  line := List.forall_mem_nil _
  read _ fs h := ⟨fs, h, rfl⟩

lemma Prints.append {as bs : List (Bytes × Option Bytes)} (hs : Prints s as) (ht : Prints t bs) :
    Prints (s ++ t) (as ++ bs) where
  line c hc := (List.mem_append.1 hc).elim (hs.line c) (ht.line c)
  read p fs h := by
    rcases ht.read p fs h with ⟨gs, hgs, hmap⟩
    rcases hs.read (t ++ p) gs hgs with ⟨ks, hks, hmap'⟩
    refine ⟨ks, by rw [List.append_assoc, hks], ?_⟩
    rw [hmap', hmap, List.map_append, List.append_assoc]

lemma Prints.piece {a : Bytes × Option Bytes} (hclosed : Closed f)
    (hline : ∀ c ∈ f, c ≠ Ch.return' ∧ c ≠ Ch.newline) (hread : readAttribute f = some a) :
    Prints (Ch.semicolon :: Ch.space :: f) [a] where
  line := List.forall_mem_cons.2 ⟨by decide, List.forall_mem_cons.2 ⟨by decide, hline⟩⟩
  read p fs h := by
    refine ⟨(Ch.space :: f) :: fs, ?_, ?_⟩
    · rw [List.cons_append, List.cons_append, pieces, if_pos rfl,
        pieces_cons (by decide) (by decide), hclosed, h, ← prepend_append, prepend, List.append_nil]
      rfl
    · rw [List.map_cons, readAttribute_space, hread]
      rfl
lemma Prints.ite {b : Bool} {as : List (Bytes × Option Bytes)} (h : Prints text as) :
    Prints (if b then text else []) (if b then as else []) := by
  rcases b with _ | _
  · exact .nil
  · exact h

set_option maxRecDepth 2048 in
/-- An attribute with a text. -/
lemma Prints.assignment {key text : Bytes} (hkey : ∀ c ∈ key, isTocken c) {shown : Bytes}
    (hclosed : Closed shown) (hline : ∀ c ∈ shown, c ≠ Ch.return' ∧ c ≠ Ch.newline)
    (hread : readText (Ch.eq :: shown) = some (some text)) :
    Prints (Ch.semicolon :: Ch.space :: (key ++ Ch.eq :: shown)) [(key, some text)] := by
  have heq : Plain [Ch.eq] := by decide
  apply Prints.piece
  · rw [← List.singleton_append]
    exact (IsTocken.plain hkey).closed.append (heq.closed.append hclosed)
  · intro c hc
    rcases List.mem_append.1 hc with hc | hc
    · exact (IsTocken.plain hkey c hc).2.2
    · rcases List.mem_cons.1 hc with rfl | hc
      · decide
      · exact hline c hc
  · rw [readAttribute_assignment hkey, hread]
    rfl

lemma Prints.plain (key : Bytes) {text : Bytes} (hkey : ∀ c ∈ key, isTocken c)
    (htext : Plain text) :
    Prints (Ch.semicolon :: Ch.space :: (key ++ Ch.eq :: text)) [(key, some text)] :=
  .assignment hkey htext.closed (fun c hc => (htext c hc).2.2) (readText_plain htext)

lemma Prints.flag (key : Bytes) (hkey : ∀ c ∈ key, isTocken c) :
    Prints (Ch.semicolon :: Ch.space :: key) [(key, none)] :=
  .piece (IsTocken.plain hkey).closed (fun c hc => (IsTocken.plain hkey c hc).2.2)
    (readAttribute_key hkey)

/-- The lines of a quoted string are those of its value. -/
lemma line_quote (hline : ∀ c ∈ v, c ≠ Ch.return' ∧ c ≠ Ch.newline) :
    ∀ c ∈ Cookie.quote v, c ≠ Ch.return' ∧ c ≠ Ch.newline := by
  intro c hc
  rw [quote_eq] at hc
  rcases List.mem_append.1 hc with hc | hc
  · rcases List.mem_cons.1 hc with rfl | hc
    · decide
    · rcases mem_of_mem_quoteBody hc with hc | rfl
      · exact hline c hc
      · decide
  · rw [List.mem_singleton.1 hc]
    decide

lemma mem_quote (hc : c ∈ v) : c ∈ Cookie.quote v := by
  apply List.mem_append_left
  apply List.mem_cons_of_mem
  apply List.mem_flatMap.2
  refine ⟨c, hc, ?_⟩
  split_ifs
  · exact List.mem_cons_of_mem _ List.mem_cons_self
  · exact List.mem_cons_self

namespace Cookie

/-- What `write` prints behind the comment. -/
def printedOthers (date : ℤ → Bytes) (c : Cookie) : Bytes :=
  textAttribute (bytes "; Domain=") c.domain c.domain
    ++ (match c.maxAge with | none => [] | some age => bytes "; Max-Age=" ++ showNat age)
    ++ (match c.expires with | none => [] | some time => bytes "; Expires=" ++ date time)
    ++ textAttribute (bytes "; Path=") c.path c.path
    ++ (if c.secure then bytes "; Secure" else [])
    ++ (if c.httponly then bytes "; HttpOnly" else [])
    ++ (if c.samesiteNone then bytes "; SameSite=None" else [])
    ++ (if c.samesiteLax then bytes "; SameSite=Lax" else [])
    ++ (if c.samesiteStrict then bytes "; SameSite=Strict" else [])
    ++ bytes "; Version=1"

/-- What `write` prints behind the value. -/
def printed (date : ℤ → Bytes) (c : Cookie) : Bytes :=
  textAttribute (bytes "; Comment=") c.comment (quote c.comment) ++ c.printedOthers date

variable {c : Cookie} {date : ℤ → Bytes} {title : Bytes}

lemma write_eq (hname : c.name ≠ []) :
    c.write date = some (bytes "Set-Cookie:" ++ (c.nameValue ++ c.printed date)) := by
  unfold write printed printedOthers
  rw [if_neg hname]
  cases c.maxAge <;> cases c.expires <;> simp only [List.append_assoc]

lemma prints_text (key : Bytes) {text shown : Bytes}
    (htitle : title = Ch.semicolon :: Ch.space :: (key ++ [Ch.eq]))
    (h : text ≠ [] →
      Prints (Ch.semicolon :: Ch.space :: (key ++ Ch.eq :: shown)) [(key, some text)]) :
    Prints (textAttribute title text shown) (textOf key text) := by
  unfold textAttribute textOf
  by_cases htext : text = []
  · rw [if_pos htext, if_pos htext]
    exact .nil
  · have heq : title ++ shown = Ch.semicolon :: Ch.space :: (key ++ Ch.eq :: shown) := by
      rw [htitle, List.cons_append, List.cons_append, List.append_assoc, List.singleton_append]
    rw [if_neg htext, if_neg htext, heq]
    exact h htext

lemma prints_plain (key : Bytes) (htitle : title = Ch.semicolon :: Ch.space :: (key ++ [Ch.eq]))
    (hkey : ∀ c ∈ key, isTocken c) (htext : Plain text) :
    Prints (textAttribute title text text) (textOf key text) :=
  prints_text key htitle fun _ => .plain key hkey htext

set_option maxRecDepth 2048 in
lemma prints_others (hdate : ∀ time, Plain (date time)) (hdomain : Plain c.domain)
    (hpath : Plain c.path) : Prints (c.printedOthers date) (c.otherAttributes date) := by
  have hage :
    Prints (match c.maxAge with | none => [] | some age => bytes "; Max-Age=" ++ showNat age)
      (match c.maxAge with | none => [] | some age => [(bytes "Max-Age", some (showNat age))]) := by
    rcases c.maxAge with _ | age
    · exact .nil
    · exact Prints.plain (bytes "Max-Age") (by decide) (plain_showNat age)
  have hexpires :
    Prints (match c.expires with | none => [] | some time => bytes "; Expires=" ++ date time)
      (match c.expires with | none => [] | some time => [(bytes "Expires", some (date time))]) := by
    rcases c.expires with _ | time
    · exact .nil
    · exact Prints.plain (bytes "Expires") (by decide) (hdate time)
  have hsame : ∀ {text : Bytes}, Plain text →
    Prints (Ch.semicolon :: Ch.space :: (bytes "SameSite" ++ Ch.eq :: text))
      [(bytes "SameSite", some text)] := fun htext => .plain _ (by decide) htext
  unfold printedOthers otherAttributes
  refine (((((((((?_ : Prints _ _).append hage).append
    hexpires).append ?_).append ?_).append ?_).append ?_).append
    ?_).append ?_).append ?_
  · exact prints_plain _ rfl (by decide) hdomain
  · exact prints_plain _ rfl (by decide) hpath
  · exact .ite (.flag (bytes "Secure") (by decide))
  · exact .ite (.flag (bytes "HttpOnly") (by decide))
  · exact .ite (hsame (by decide))
  · exact .ite (hsame (by decide))
  · exact .ite (hsame (by decide))
  · exact @Prints.plain (bytes "Version") (bytes "1") (by decide) (by decide)

set_option maxRecDepth 2048 in
lemma prints_printed (hdate : ∀ time, Plain (date time)) (hdomain : Plain c.domain)
    (hpath : Plain c.path) (hcomment : StaysInside c.comment) :
    Prints (c.printed date) (textOf (bytes "Comment") c.comment ++ c.otherAttributes date) := by
  apply Prints.append
  · apply prints_text (bytes "Comment") rfl
    intro _
    exact .assignment (by decide) (closed_quote hcomment.quote hcomment.backslash)
      (line_quote hcomment.line)
      (readText_quote hcomment.quote hcomment.backslash)
  · exact prints_others hdate hdomain hpath

set_option maxRecDepth 2048 in
/-- A value that stays inside is read as it is, between quotes or not. -/
lemma nameValue_of_staysInside (hname : ∀ a ∈ c.name, isTocken a) (hvalue : StaysInside c.value) :
    Closed c.nameValue ∧ (∀ a ∈ c.nameValue, a ≠ Ch.return' ∧ a ≠ Ch.newline) ∧
      readAttribute c.nameValue = some (c.name, some c.value) := by
  have heq : Plain [Ch.eq] := by decide
  have hplain := (IsTocken.plain hname).append heq
  have hshown : Closed (if (tocken c.value).2 = [] then c.value else quote c.value) ∧
      (∀ a ∈ (if (tocken c.value).2 = [] then c.value else quote c.value), a ≠ Ch.return' ∧
        a ≠ Ch.newline) ∧
      readText (Ch.eq :: (if (tocken c.value).2 = [] then c.value else quote c.value)) =
        some (some c.value) := by
    by_cases htocken : (tocken c.value).2 = []
    · have htext := IsTocken.plain (isTocken_iff.1 htocken)
      rw [if_pos htocken]
      exact ⟨htext.closed, hvalue.line, readText_plain htext⟩
    · rw [if_neg htocken]
      exact ⟨closed_quote hvalue.quote hvalue.backslash, line_quote hvalue.line,
        readText_quote hvalue.quote hvalue.backslash⟩
  unfold nameValue
  refine ⟨hplain.closed.append hshown.1, ?_, ?_⟩
  · intro a ha
    rcases List.mem_append.1 ha with ha | ha
    · exact (hplain a ha).2.2
    · exact hshown.2.1 a ha
  · rw [List.append_assoc, List.singleton_append, readAttribute_assignment hname, hshown.2.2]
    rfl

set_option maxRecDepth 2048 in
/-- A header that is printed from values that stay inside says what it should. -/
lemma saysItself (hdate : ∀ time, Plain (date time)) (hne : c.name ≠ [])
    (hname : ∀ a ∈ c.name, isTocken a) (hdomain : Plain c.domain) (hpath : Plain c.path)
    (hvalue : StaysInside c.value) (hcomment : StaysInside c.comment) : c.SaysItself date := by
  have hfirst := nameValue_of_staysInside hname hvalue
  have hrest := prints_printed hdate hdomain hpath hcomment
  refine ⟨_, write_eq hne, ?_, ?_⟩
  · intro a ha
    rcases List.mem_append.1 ha with ha | ha
    · have hplain : Plain (bytes "Set-Cookie:") := by decide
      exact (hplain a ha).2.2
    · exact (List.mem_append.1 ha).elim (hfirst.2.1 a) (hrest.line a)
  · rcases hrest.read [] [] rfl with ⟨gs, hgs, hmap⟩
    rw [List.append_nil] at hgs
    rw [hfirst.1, hgs, prepend, List.append_nil, List.map_cons, hfirst.2.2, hmap, List.map_nil,
      List.append_nil]
    rfl

/-! ### Headers that say what they should -/

lemma prefix_of_prepend {u p f : Bytes} {l fs : List Bytes} (hl : ∀ g gs, l = g :: gs → g <+: p)
    (h : prepend u l = f :: fs) : f <+: u ++ p := by
  rcases l with _ | ⟨g, gs⟩
  · cases h
    exact List.prefix_append _ _
  · cases h
    exact (List.prefix_append_right_inj u).2 (hl g _ rfl)

lemma prefix_of_pieces {inside : Bool} {p f : Bytes} (h : pieces inside p = f :: fs) : f <+: p := by
  fun_induction pieces inside p generalizing f fs with
  | case1 =>
    cases h
    exact List.prefix_rfl
  | case2 =>
    cases h
    exact List.nil_prefix
  | case3 c p hsemicolon ih => exact prefix_of_prepend (p := p) (fun g gs hg => ih hg) h
  | case4 =>
    cases h
    exact List.prefix_rfl
  | case5 d p ih => exact prefix_of_prepend (p := p) (fun g gs hg => ih hg) h
  | case6 c d p hback ih => exact prefix_of_prepend (p := d :: p) (fun g gs hg => ih hg) h

/-- A value that is read out of the first piece of the text behind an equals sign stays inside of
its quoted string. -/
lemma of_readText {v rest f : Bytes} (hne : v ≠ [])
    (hpieces : pieces false (quote v ++ rest) = f :: fs)
    (hread : readText (Ch.eq :: f) = some (some v)) : Ch.quote ∉ v ∧ BeforeControls v := by
  have hprefix := prefix_of_pieces hpieces
  rw [quote_eq, List.append_assoc, List.cons_append] at hprefix
  rcases f with _ | ⟨a, f⟩
  · -- an empty piece has an empty text
    cases hread
    exact absurd rfl hne
  · rcases List.cons_prefix_cons.1 hprefix with ⟨rfl, s, hs⟩
    unfold readText at hread
    dsimp only at hread
    rw [if_pos (show (Ch.quote :: f).head? = some Ch.quote from rfl)] at hread
    rcases hunquote : unquote (Ch.quote :: f) with _ | ⟨w, _ | ⟨b, q⟩⟩
    · rw [hunquote] at hread
      cases hread
    · rw [hunquote] at hread
      cases hread
      have hbody := unquoteBody_append (show unquoteBody f = some (v, []) from hunquote) s
      rw [hs, List.nil_append] at hbody
      exact of_unquoteBody_quoteBody hbody
    · rw [hunquote] at hread
      cases hread

set_option maxRecDepth 2048 in
/-- The first piece of a text that starts with a name and an equals sign. -/
lemma readText_of_readAttribute {key text v : Bytes} (hkey : ∀ c ∈ key, isTocken c)
    (hpieces : pieces false (key ++ Ch.eq :: text) = f :: fs)
    (hread : readAttribute f = some (key, some v)) :
    ∃ g gs, pieces false text = g :: gs ∧ readText (Ch.eq :: g) = some (some v) := by
  have hplain : Plain (key ++ [Ch.eq]) := (IsTocken.plain hkey).append (by decide)
  have heq : key ++ Ch.eq :: text = (key ++ [Ch.eq]) ++ text := by
    rw [List.append_assoc, List.singleton_append]
  rcases hg : pieces false text with _ | ⟨g, gs⟩
  · exact absurd hg (pieces_ne_nil _ _)
  · rw [heq, hplain.closed, hg, prepend] at hpieces
    cases hpieces
    rw [List.append_assoc, List.singleton_append, readAttribute_assignment hkey] at hread
    rcases Option.map_eq_some_iff.1 hread with ⟨w, hw, hpair⟩
    cases hpair
    exact ⟨g, _, rfl, hw⟩

/-- A quoted value that is read out of the first piece of a text, behind its name, stays inside of
its quotes. -/
lemma staysInside_of_readAttribute {key v rest : Bytes} (hkey : ∀ c ∈ key, isTocken c)
    (hne : v ≠ []) (hpieces : pieces false (key ++ Ch.eq :: (quote v ++ rest)) = f :: fs)
    (hread : readAttribute f = some (key, some v))
    (hline : ∀ c ∈ quote v, c ≠ Ch.return' ∧ c ≠ Ch.newline) :
    StaysInside v := by
  rcases readText_of_readAttribute hkey hpieces hread with ⟨g, gs, hg, htext⟩
  have hinside := of_readText hne hg htext
  exact ⟨fun c hc => hline c (mem_quote hc), hinside.1, hinside.2⟩

lemma staysInside_value (hne : c.name ≠ []) (hname : ∀ a ∈ c.name, isTocken a)
    (h : c.SaysItself date) : StaysInside c.value := by
  by_cases htocken : (tocken c.value).2 = []
  · exact staysInside_of_isTocken (isTocken_iff.1 htocken)
  · rcases h with ⟨body, hwrite, hline, hread⟩
    rw [write_eq hne] at hwrite
    have hbody := List.append_cancel_left (Option.some.inj hwrite)
    have hshown : body = c.name ++ Ch.eq :: (quote c.value ++ c.printed date) := by
      rw [← hbody, nameValue, if_neg htocken, List.append_assoc, List.append_assoc,
        List.singleton_append]
    rcases hpieces : pieces false body with _ | ⟨f, fs⟩
    · exact absurd hpieces (pieces_ne_nil _ _)
    · rw [hpieces] at hread
      apply staysInside_of_readAttribute hname _ (hshown ▸ hpieces) (List.cons.inj hread).1
      · intro a ha
        apply hline a
        rw [hshown]
        exact List.mem_append_right _
          (List.mem_append_right _ (List.mem_cons_of_mem _ (List.mem_append_left _ ha)))
      · intro hnil
        rw [hnil] at htocken
        exact htocken rfl

set_option maxRecDepth 2048 in
/-- The comment is the second piece, behind a value that stays inside. -/
lemma staysInside_comment (hne : c.name ≠ []) (hname : ∀ a ∈ c.name, isTocken a)
    (hvalue : StaysInside c.value) (h : c.SaysItself date) : StaysInside c.comment := by
  by_cases hcomment : c.comment = []
  · rw [hcomment]
    exact staysInside_of_isTocken (List.forall_mem_nil _)
  · rcases h with ⟨body, hwrite, hline, hread⟩
    have hfirst := nameValue_of_staysInside hname hvalue
    rw [write_eq hne] at hwrite
    have hbody := List.append_cancel_left (Option.some.inj hwrite)
    have hshown : c.printed date = Ch.semicolon :: Ch.space ::
        (bytes "Comment" ++ Ch.eq :: (quote c.comment ++ c.printedOthers date)) := by
      rw [printed, textAttribute, if_neg hcomment]
      rfl
    rcases hpieces :
        pieces false (bytes "Comment" ++ Ch.eq :: (quote c.comment ++ c.printedOthers date))
      with _ | ⟨f, fs⟩
    · exact absurd hpieces (pieces_ne_nil _ _)
    · have hall : pieces false body = c.nameValue :: (Ch.space :: f) :: fs := by
        rw [← hbody, hfirst.1, hshown, pieces, if_pos rfl, pieces_cons (by decide) (by decide),
          hpieces, prepend, prepend, List.append_nil]
        rfl
      have hsecond : readAttribute f = some (bytes "Comment", some c.comment) := by
        rw [hall, List.map_cons, List.map_cons, readAttribute_space, attributes, textOf,
          if_neg hcomment] at hread
        exact (List.cons.inj (List.cons.inj hread).2).1
      apply staysInside_of_readAttribute (by decide) hcomment hpieces hsecond
      intro a ha
      apply hline a
      rw [← hbody, hshown]
      apply List.mem_append_right
      apply List.mem_append_right
      exact List.mem_cons_of_mem _ (List.mem_cons_of_mem _ (List.mem_append_right _
        (List.mem_cons_of_mem _ (List.mem_append_left _ ha))))

/-- A header is one line that says what the cookie has, and nothing else, if and only if its value
and its comment cannot end their quoted strings or the line. -/
theorem saysItself_iff {date : ℤ → Bytes} (hdate : ∀ time, Plain (date time)) {c : Cookie}
    (hne : c.name ≠ []) (hname : ∀ a ∈ c.name, isTocken a) (hdomain : Plain c.domain)
    (hpath : Plain c.path) :
    c.SaysItself date ↔ StaysInside c.value ∧ StaysInside c.comment := by
  constructor
  · intro h
    have hvalue := staysInside_value hne hname h
    exact ⟨hvalue, staysInside_comment hne hname hvalue h⟩
  · rintro ⟨hvalue, hcomment⟩
    exact saysItself hdate hne hname hdomain hpath hvalue hcomment

/-- A cookie with all attributes that expires at the epoch. -/
def sample : Cookie :=
  ⟨bytes "user", bytes "x; y", bytes "/a", bytes "example.com", bytes "for you", some 60, some 0,
    true, true, false, true, false⟩

set_option maxRecDepth 2048 in
theorem saysItself_iff_sample :
    sample.SaysItself (fun _ => bytes "Thu, 01 Jan 1970 00:00:00 GMT") ↔
      StaysInside sample.value ∧ StaysInside sample.comment :=
  saysItself_iff (fun _ => by decide) (by decide) (by decide) (by decide) (by decide)

set_option maxRecDepth 2048 in
/-- The quote in the value ends its quoted string, and a domain follows that the cookie does not
have. -/
theorem not_saysItself_domain :
    ¬ ∀ (date : ℤ → Bytes) (c : Cookie), (∀ time, Plain (date time)) → c.name ≠ [] →
    (∀ a ∈ c.name, isTocken a) →
      Plain c.domain → Plain c.path → c.SaysItself date := by
  intro h
  rcases h (fun _ => []) (.ofValue (bytes "n") (bytes "\"; Domain=.com; x=\""))
    (fun _ => by decide) (by decide)
    (by decide) (by decide) (by decide) with ⟨body, hwrite, -, hread⟩
  cases hwrite
  revert hread
  decide

end Cookie

end Http

end Cppcms
