import Cppcms.Http.CookieHeader

/-!
# Cookies that come back

A client sends the names and the values of its cookies back as `cookie::write` has printed them.
`quote` escapes neither quotes nor backslashes, so that not every value is read as it was.
-/

namespace Cppcms

namespace Http

open Protocol

/-- The header of a client that has got the cookies. -/
def cookieHeader (cs : List Cookie) : Bytes := (bytes "; ").intercalate (cs.map Cookie.nameValue)

/-- What stands behind a cookie that is followed by others. -/
def cookieTail : List Cookie → Bytes
  | [] => []
  | c :: cs => bytes "; " ++ cookieHeader (c :: cs)

lemma cookieHeader_cons (c : Cookie) (cs : List Cookie) :
    cookieHeader (c :: cs) = c.nameValue ++ cookieTail cs := by
  unfold cookieHeader
  rcases cs with _ | ⟨d, cs⟩
  · rw [List.map_singleton, List.intercalate_singleton, cookieTail, List.append_nil]
  · rw [List.map_cons, List.map_cons, List.intercalate_cons_cons, List.append_assoc]
    rfl

/-- Every backslash stands before a control character. -/
def BeforeControls : Bytes → Prop
  | [] => True
  | c :: v => (c = 0x5C → ∃ d ∈ v.head?, d < 0x20) ∧ BeforeControls v

/-- The values that are read as they were. -/
structure ComesBack (v : Bytes) : Prop where
  nul : 0 ∉ v
  quote : Ch.quote ∉ v
  backslash : BeforeControls v

/-! ## Reading what was written -/

/-- The inside of a quoted string of `quote`. -/
def quoteBody (v : Bytes) : Bytes := v.flatMap fun c => if c < 0x20 then [0x5C, c] else [c]

lemma quoteBody_cons (c : UInt8) (v : Bytes) :
    quoteBody (c :: v) = (if c < 0x20 then [0x5C, c] else [c]) ++ quoteBody v := List.flatMap_cons

lemma quote_eq (v : Bytes) : Cookie.quote v = Ch.quote :: quoteBody v ++ [Ch.quote] := rfl

variable {c : UInt8} {v : Bytes} {cs : List Cookie} {res : Option (Bytes × Bytes) × Bytes}
  {p : Bytes}

lemma ne_quote_of_control (hc : c < 0x20) : c ≠ Ch.quote ∧ c ≠ 0x5C := by
  constructor
  all_goals
    rintro rfl
    revert hc
    decide

/-- The second part is for a control character whose backslash was taken with the one before it. -/
lemma unquoteBody_quoteBody (hquote : Ch.quote ∉ v) (hback : BeforeControls v) (p : Bytes) :
    unquoteBody (quoteBody v ++ Ch.quote :: p) = some (v, p) ∧
      ∀ c v', v = c :: v' → c < 0x20 →
      unquoteBody (c :: (quoteBody v' ++ Ch.quote :: p)) = some (v, p) := by
  induction v with
  | nil =>
    constructor
    · rcases p with _ | ⟨d, p⟩
      · rfl
      · show unquoteBody (Ch.quote :: d :: p) = _
        rw [unquoteBody, if_pos rfl]
    · intro c v' h
      cases h
  | cons c v ih =>
    obtain ⟨hread, hcontrol⟩ := ih (fun h => hquote (List.mem_cons_of_mem _ h)) hback.2
    have hcquote : c ≠ Ch.quote := fun h => hquote (h ▸ List.mem_cons_self)
    constructor
    · rw [quoteBody_cons, List.append_assoc]
      by_cases hc : c < 0x20
      · rw [if_pos hc]
        exact unquoteBody_backslash c hread
      · rw [if_neg hc, List.singleton_append]
        by_cases hcback : c = 0x5C
        · -- the backslash takes the one that was meant for the control character behind it
          rcases hback.1 hcback with ⟨d, hd, hdcontrol⟩
          rcases v with _ | ⟨e, v⟩
          · cases hd
          · cases hd
            rw [quoteBody_cons, if_pos hdcontrol, hcback]
            exact unquoteBody_backslash _ (hcontrol _ v rfl hdcontrol)
        · exact unquoteBody_cons hcquote hcback hread
    · intro c' v' heq hc
      cases heq
      exact unquoteBody_cons (ne_quote_of_control hc).1 (ne_quote_of_control hc).2 hread

lemma unquote_quote (hv : ComesBack v) (p : Bytes) :
    unquote (Cookie.quote v ++ p) = some (v, p) := by
  rw [quote_eq, List.append_assoc]
  show unquote (Ch.quote :: (quoteBody v ++ Ch.quote :: p)) = _
  rw [unquote, if_pos rfl]
  exact (unquoteBody_quoteBody hv.quote hv.backslash p).1

/-- A tail starts with a character that ends a token. -/
lemma cookieTail_cases (cs : List Cookie) :
    cookieTail cs = [] ∨ cookieTail cs = Ch.semicolon :: Ch.space :: cookieHeader cs := by
  rcases cs with _ | ⟨c, cs⟩
  · exact .inl rfl
  · exact .inr rfl

lemma isTocken_iff : (tocken v).2 = [] ↔ ∀ c ∈ v, isTocken c := List.dropWhile_eq_nil_iff

lemma mem_of_mem_quoteBody (hc : c ∈ quoteBody v) : c ∈ v ∨ c = 0x5C := by
  rcases List.mem_flatMap.1 hc with ⟨d, hd, hc⟩
  split_ifs at hc
  · rcases List.mem_cons.1 hc with rfl | hc
    · exact .inr rfl
    · exact .inl (List.mem_singleton.1 hc ▸ hd)
  · exact .inl (List.mem_singleton.1 hc ▸ hd)

lemma zero_notMem_quote (hv : 0 ∉ v) : 0 ∉ Cookie.quote v := by
  rw [quote_eq]
  intro h
  rcases List.mem_append.1 h with h | h
  · rcases List.mem_cons.1 h with h | h
    · exact absurd h (by decide)
    · rcases mem_of_mem_quoteBody h with h | h
      · exact hv h
      · exact absurd h (by decide)
  · exact absurd h (by decide)

/-- A value that comes back, as it is printed. -/
def Shown.ofComesBack {v : Bytes} (hv : ComesBack v) : Shown where
  value := v
  text := if (tocken v).2 = [] then v else Cookie.quote v
  reads := by
    split_ifs with htocken
    · exact .inl ⟨isTocken_iff.1 htocken, rfl⟩
    · have hunquote := unquote_quote hv []
      rw [List.append_nil] at hunquote
      exact .inr ⟨hunquote, zero_notMem_quote hv.nul⟩

set_option maxRecDepth 2048 in
/-- The cookies that a client got are pairs without attributes. -/
lemma exists_sent (hnames : ∀ c ∈ cs, IsCookieName c.name) (hvalues : ∀ c ∈ cs, ComesBack c.value) :
    ∃ sent : List Sent, cookieHeader cs = sentText sent ∧
      sent.map (fun s => (s.name, s.value)) = cs.map fun c => (c.name, c.value) := by
  induction cs with
  | nil => exact ⟨[], rfl, rfl⟩
  | cons c cs ih =>
    rcases ih (fun d hd => hnames d (List.mem_cons_of_mem _ hd)) fun d hd =>
      hvalues d (List.mem_cons_of_mem _ hd) with
      ⟨sent, htext, hpairs⟩
    have hname := hnames c List.mem_cons_self
    have hvalue := hvalues c List.mem_cons_self
    refine ⟨⟨c.name, hname,
      ⟨.ofComesBack hvalue, ⟨[], Ch.semicolon, [Ch.space], by decide, by decide, by decide⟩⟩, [],
      List.nodup_nil⟩ :: sent, ?_, by rw [List.map_cons, List.map_cons, hpairs]; rfl⟩
    rw [cookieHeader_cons, Cookie.nameValue, List.append_assoc, List.append_assoc]
    rcases cs with _ | ⟨d, cs⟩
    · rw [List.map_nil, List.map_eq_nil_iff] at hpairs
      rw [hpairs]
      rfl
    · rcases sent with _ | ⟨s, sent⟩
      · cases hpairs
      · rw [cookieTail, htext]
        rfl

/-- What is read if all cookies come back. -/
lemma find_parseCookies_cookieHeader (hnames : ∀ c ∈ cs, IsCookieName c.name)
    (hvalues : ∀ c ∈ cs, ComesBack c.value) (name : Bytes) :
    ((parseCookies (cookieHeader cs)).find name).map Cookie.value =
      ((cs.map fun c => (c.name, c.value)).find? fun x => x.1 = name).map Prod.snd := by
  rcases exists_sent hnames hvalues with ⟨sent, htext, hpairs⟩
  rw [htext, find_parseCookies_sentText, ← hpairs, List.find?_map, Option.map_map, Option.map_map]
  rfl

/-! ## Backslashes

A quote or a backslash costs a backslash more to be read than `quote` writes for it, and what is
read out of the text of one cookie cannot be read out of another.  So a text has too few backslashes
to give all values back as soon as one of them does not come back. -/

/-- The number of backslashes that `quote` writes. -/
def given (v : Bytes) : ℕ := (quoteBody v).count 0x5C

/-- The number of backslashes it takes at least to read a value; `f` tells if a backslash was read
before it. -/
def need (f : Bool) : Bytes → ℕ
  | [] => 0
  | c :: v =>
    (if c = Ch.quote then 1 else if c = 0x5C then 2 else if c < 0x20 ∧ f = false then 1 else 0) +
      need (c = 0x5C) v

/-- A control character needs no backslash behind one that was read. -/
def excess (f : Bool) (v : Bytes) : ℕ := if f = true ∧ ∃ d ∈ v.head?, d < 0x20 then 1 else 0

lemma excess_false (v : Bytes) : excess false v = 0 := if_neg fun h => Bool.false_ne_true h.1

lemma given_cons (c : UInt8) (v : Bytes) :
    given (c :: v) = (if c < 0x20 ∨ c = 0x5C then 1 else 0) + given v := by
  unfold given
  rw [quoteBody_cons, List.count_append]
  by_cases hc : c < 0x20
  · have hne := (ne_quote_of_control hc).2
    rw [if_pos hc, if_pos (.inl hc), List.count_cons_self, List.count_singleton,
      if_neg (by simpa using hne)]
  · rw [if_neg hc, List.count_singleton]
    by_cases hback : c = 0x5C
    · rw [if_pos (by simpa using hback), if_pos (.inr hback)]
    · rw [if_neg (by simpa using hback), if_neg (not_or.2 ⟨hc, hback⟩)]

/-- What is given is enough only for values without a quote and without an open backslash. -/
lemma given_le_need (f : Bool) (v : Bytes) :
    given v ≤ need f v + excess f v ∧
    (given v = need f v + excess f v → Ch.quote ∉ v ∧ BeforeControls v) := by
  induction v generalizing f with
  | nil => exact ⟨Nat.zero_le _, fun _ => ⟨List.not_mem_nil, trivial⟩⟩
  | cons c v ih =>
    rw [given_cons, need]
    by_cases hquote : c = Ch.quote
    · -- one backslash more is needed
      have hle := (ih false).1
      have hfalse : decide (c = 0x5C) = false := by rw [hquote]; rfl
      rw [excess_false] at hle
      rw [if_neg (by rw [hquote]; decide), if_pos hquote, hfalse]
      constructor
      · omega
      · intro h
        omega
    · by_cases hback : c = 0x5C
      · have hle := ih true
        have htrue : decide (c = 0x5C) = true := decide_eq_true hback
        rw [if_pos (.inr hback), if_neg hquote, if_pos hback, htrue]
        have hexcess : excess true v ≤ 1 := by
          unfold excess
          split_ifs <;> omega
        have hzero : excess f (c :: v) = 0 := by
          apply if_neg
          rintro ⟨-, d, hd, hlt⟩
          cases hd
          rw [hback] at hlt
          exact absurd hlt (by decide)
        rw [hzero]
        constructor
        · omega
        · intro h
          have hone : excess true v = 1 := by omega
          have hv := hle.2 (by omega)
          have hhead : ∃ d ∈ v.head?, d < 0x20 := by
            by_contra hno
            rw [excess, if_neg fun h => hno h.2] at hone
            cases hone
          refine ⟨fun hmem => ?_, fun _ => hhead, hv.2⟩
          rcases List.mem_cons.1 hmem with heq | hmem
          · exact hquote heq.symm
          · exact hv.1 hmem
      · have hfalse : decide (c = 0x5C) = false := decide_eq_false hback
        have hle := ih false
        have hcost : (if c < 0x20 ∨ c = 0x5C then 1 else 0) =
            (if c < 0x20 ∧ f = false then 1 else 0) + excess f (c :: v) := by
          unfold excess
          by_cases hc : c < 0x20
          · rcases f with _ | _
            · simp [hc]
            · simp [hc]
          · simp [hc, hback]
        rw [excess_false] at hle
        rw [hcost, if_neg hquote, if_neg hback, hfalse]
        constructor
        · omega
        · intro h
          have hv := hle.2 (by omega)
          refine ⟨fun hmem => ?_, fun h => absurd h hback, hv.2⟩
          rcases List.mem_cons.1 hmem with heq | hmem
          · exact hquote heq.symm
          · exact hv.1 hmem

lemma need_of_isTocken (hv : ∀ c ∈ v, isTocken c) : need false v = 0 := by
  induction v with
  | nil => rfl
  | cons c v ih =>
    have hc := hv c List.mem_cons_self
    have hquote : c ≠ Ch.quote := by
      rintro rfl
      exact absurd hc (by decide)
    have hback : c ≠ 0x5C := by
      rintro rfl
      exact absurd hc (by decide)
    have hcontrol : ¬ c < 0x20 := by
      intro h
      unfold isTocken at hc
      rw [decide_eq_false (not_le.2 h)] at hc
      exact absurd hc (by simp)
    have hfalse : decide (c = 0x5C) = false := decide_eq_false hback
    rw [need, if_neg hquote, if_neg hback, if_neg fun h => hcontrol h.1, hfalse,
      ih fun d hd => hv d (List.mem_cons_of_mem _ hd)]

/-- Every control character of the text has a backslash before it. -/
def Escaped (text : Bytes) : Prop := text.IsChain fun a b => b < 0x20 → a = 0x5C

/-- The first character is no control character. -/
def StartsPlain (text : Bytes) : Prop := ∀ c ∈ text.head?, ¬ c < 0x20

lemma Escaped.append {s t : Bytes} (hs : Escaped s) (ht : Escaped t) (hplain : StartsPlain t) :
    Escaped (s ++ t) :=
  List.isChain_append.2 ⟨hs, ht, fun _ _ y hy hlt => absurd hlt (hplain y hy)⟩

lemma Escaped.cons {c : UInt8} {t : Bytes} (ht : Escaped t) (hplain : StartsPlain t) :
    Escaped (c :: t) :=
  List.IsChain.cons ht fun y hy hlt => absurd hlt (hplain y hy)

lemma StartsPlain.cons {c : UInt8} (hc : ¬ c < 0x20) (t : Bytes) : StartsPlain (c :: t) := by
  intro d hd
  cases hd
  exact hc

lemma escaped_of_isTocken {t : Bytes} (ht : ∀ c ∈ t, isTocken c) : Escaped t ∧ StartsPlain t := by
  have hplain : ∀ c ∈ t, ¬ c < 0x20 := by
    intro c hc hlt
    have htocken := ht c hc
    unfold isTocken at htocken
    rw [decide_eq_false (not_le.2 hlt)] at htocken
    exact absurd htocken (by simp)
  clear ht
  induction t with
  | nil => exact ⟨.nil, fun c hc => by cases hc⟩
  | cons c t ih =>
    have ht := ih fun d hd => hplain d (List.mem_cons_of_mem _ hd)
    exact ⟨ht.1.cons ht.2, .cons (hplain c List.mem_cons_self) t⟩

lemma escaped_quoteBody (v : Bytes) :
    Escaped (quoteBody v ++ [Ch.quote]) ∧ StartsPlain (quoteBody v ++ [Ch.quote]) := by
  induction v with
  | nil => exact ⟨.singleton _, .cons (by decide) _⟩
  | cons c v ih =>
    rw [quoteBody_cons, List.append_assoc]
    by_cases hc : c < 0x20
    · rw [if_pos hc]
      refine ⟨?_, .cons (by decide) _⟩
      exact List.isChain_cons_cons.2 ⟨fun _ => rfl, ih.1.cons ih.2⟩
    · rw [if_neg hc]
      exact ⟨ih.1.cons ih.2, .cons hc _⟩

lemma escaped_cookieHeader (hnames : ∀ c ∈ cs, IsCookieName c.name) :
    Escaped (cookieHeader cs) ∧ StartsPlain (cookieHeader cs) := by
  induction cs with
  | nil => exact ⟨.nil, fun c hc => by cases hc⟩
  | cons c cs ih =>
    have hcs := ih fun d hd => hnames d (List.mem_cons_of_mem _ hd)
    have hname := hnames c List.mem_cons_self
    have htail : Escaped (cookieTail cs) ∧ StartsPlain (cookieTail cs) := by
      rcases cookieTail_cases cs with heq | heq
      · rw [heq]
        exact ⟨.nil, fun c hc => by cases hc⟩
      · rw [heq]
        exact ⟨(hcs.1.cons hcs.2).cons (.cons (by decide) _), .cons (by decide) _⟩
    have htext : Escaped (if (tocken c.value).2 = [] then c.value else Cookie.quote c.value) ∧
        StartsPlain (if (tocken c.value).2 = [] then c.value else Cookie.quote c.value) := by
      split_ifs with htocken
      · exact escaped_of_isTocken (isTocken_iff.1 htocken)
      · exact ⟨(escaped_quoteBody c.value).1.cons (escaped_quoteBody c.value).2,
          .cons (by decide) _⟩
    have hvalue := (htext.1.cons (c := Ch.eq) htext.2).append htail.1 htail.2
    have heq : cookieHeader (c :: cs) =
        c.name ++ (Ch.eq :: (if (tocken c.value).2 = [] then c.value else Cookie.quote c.value) ++
          cookieTail cs) := by
      rw [cookieHeader_cons, Cookie.nameValue, List.append_assoc, List.append_assoc]
      rfl
    rw [heq]
    constructor
    · exact (escaped_of_isTocken hname.tocken).1.append hvalue (.cons (by decide) _)
    · rcases hn : c.name with _ | ⟨a, name⟩
      · exact absurd hn hname.ne_nil
      · apply StartsPlain.cons
        have hplain := (escaped_of_isTocken hname.tocken).2
        rw [hn] at hplain
        exact hplain a rfl

lemma count_cookieHeader (hnames : ∀ c ∈ cs, IsCookieName c.name) :
    (cookieHeader cs).count 0x5C ≤ (cs.map fun c => given c.value).sum := by
  have htocken : ∀ t : Bytes, (∀ c ∈ t, isTocken c) → t.count 0x5C = 0 := by
    intro t ht
    exact List.count_eq_zero.2 fun h => absurd (ht _ h) (by decide)
  induction cs with
  | nil => exact Nat.le_refl _
  | cons c cs ih =>
    have hcs := ih fun d hd => hnames d (List.mem_cons_of_mem _ hd)
    have htail : (cookieTail cs).count 0x5C ≤ (cookieHeader cs).count 0x5C := by
      rcases cookieTail_cases cs with heq | heq
      · rw [heq]
        exact Nat.zero_le _
      · rw [heq, List.count_cons_of_ne (by decide), List.count_cons_of_ne (by decide)]
    have htext : (if (tocken c.value).2 = [] then c.value else Cookie.quote c.value).count 0x5C ≤
        given c.value := by
      split_ifs with h
      · rw [htocken _ (isTocken_iff.1 h)]
        exact Nat.zero_le _
      · rw [quote_eq, List.cons_append, List.count_cons_of_ne (by decide), List.count_append]
        exact Nat.le_refl _
    rw [cookieHeader_cons, Cookie.nameValue, List.count_append, List.count_append,
      List.count_append, htocken _ (hnames c List.mem_cons_self).tocken,
      List.map_cons, List.sum_cons]
    have heq : List.count 0x5C [Ch.eq] = 0 := rfl
    omega

/-! ## What reading costs -/

lemma skipWs_suffix (p : Bytes) : skipWs p <:+ p := by
  fun_induction skipWs p with
  | case1 => exact List.suffix_refl _
  | case2 c h => exact List.nil_suffix
  | case3 c h => exact List.suffix_refl _
  | case4 c d h ih => exact ih.trans (List.suffix_cons _ _)
  | case5 c d h => exact List.suffix_refl _
  | case6 d e p h ih =>
    exact ih.trans
      ((List.suffix_cons _ _).trans ((List.suffix_cons _ _).trans (List.suffix_cons _ _)))
  | case7 d e p h => exact List.suffix_refl _
  | case8 c d e p hc h ih => exact ih.trans (List.suffix_cons _ _)
  | case9 c d e p hc h => exact List.suffix_refl _

lemma skipAfterPeriod_suffix (p : Bytes) : skipAfterPeriod p <:+ p := by
  induction p with
  | nil => exact List.suffix_refl _
  | cons c p ih =>
    rw [skipAfterPeriod]
    split_ifs
    · exact List.suffix_cons _ _
    · exact ih.trans (List.suffix_cons _ _)

lemma skipPeriod_suffix (p : Bytes) : skipPeriod p <:+ p := by
  have hskip := skipWs_suffix p
  unfold skipPeriod
  rcases hp : skipWs p with _ | ⟨c, q⟩
  · exact List.nil_suffix
  · rw [hp] at hskip
    dsimp only
    split_ifs
    · exact (skipWs_suffix q).trans ((List.suffix_cons _ _).trans hskip)
    · exact hskip

lemma tocken_suffix (p : Bytes) : (tocken p).2 <:+ p := List.dropWhile_suffix _

/-- What a reading of a text does: what is left is a part of the text, and the value was paid for.
-/
structure Reads (p : Bytes) (res : Option (Bytes × Bytes) × Bytes) : Prop where
  suffix : res.2 <:+ p
  need : ∀ key value, res.1 = some (key, value) → need false value + res.2.count 0x5C ≤ p.count 0x5C
  mem : ∀ key value, res.1 = some (key, value) → ∀ c ∈ value, c ∈ p

lemma Reads.of_suffix {p q : Bytes} (h : Reads q res) (hq : q <:+ p) :
    Reads p res where
  suffix := h.suffix.trans hq
  need key value heq := (h.need key value heq).trans (hq.sublist.count_le _)
  mem key value heq c hc := hq.subset (h.mem key value heq c hc)

lemma Reads.fail {p q : Bytes} (hq : q <:+ p) : Reads p (none, q) where
  suffix := hq
  need _ _ h := by cases h
  mem _ _ h := by cases h

lemma Reads.empty {p q : Bytes} (key : Bytes) (hq : q <:+ p) : Reads p (some (key, []), q) where
  suffix := hq
  need _ _ h := by
    cases h
    rw [Http.need, Nat.zero_add]
    exact hq.sublist.count_le _
  mem _ _ h c hc := by
    cases h
    cases hc

/-- The characters of a token need no backslash. -/
lemma Reads.tocken (key p : Bytes) :
    Reads p (some (key, (Protocol.tocken p).1), skipPeriod (Protocol.tocken p).2) where
  suffix := (skipPeriod_suffix _).trans (tocken_suffix p)
  need _ _ h := by
    cases h
    have ht : ∀ c ∈ (Protocol.tocken p).1, isTocken c := fun c hc => List.mem_takeWhile_imp hc
    rw [need_of_isTocken ht, Nat.zero_add]
    exact ((skipPeriod_suffix _).trans (tocken_suffix p)).sublist.count_le _
  mem _ _ h c hc := by
    cases h
    exact (List.takeWhile_prefix _).subset hc

/-- `a` is the character before the text. -/
lemma unquoteBody_need {a : UInt8} {p v q : Bytes} {f : Bool} (hescaped : Escaped (a :: p))
    (hf : a = 0x5C → f = true) (h : unquoteBody p = some (v, q)) :
    q <:+ p ∧ need f v + q.count 0x5C ≤ p.count 0x5C ∧ ∀ c ∈ v, c ∈ p := by
  fun_induction unquoteBody p generalizing a f v q with
  | case1 => cases h
  | case2 =>
    cases h
    exact ⟨List.nil_suffix, Nat.zero_le _, List.forall_mem_nil _⟩
  | case3 => cases h
  | case4 d p =>
    cases h
    refine ⟨List.suffix_cons _ _, ?_, List.forall_mem_nil _⟩
    rw [need, Nat.zero_add]
    exact (List.suffix_cons _ _).sublist.count_le _
  | case5 d p hquote ih =>
    rcases Option.map_eq_some_iff.1 h with ⟨⟨v', q'⟩, hr, heq⟩
    cases heq
    have htail : Escaped (d :: p) :=
      hescaped.suffix ((List.suffix_cons _ _).trans (List.suffix_cons _ _))
    have hrest := ih htail (fun hd => decide_eq_true hd) hr
    refine ⟨hrest.1.trans ((List.suffix_cons _ _).trans (List.suffix_cons _ _)), ?_, ?_⟩
    · -- the backslash pays for the character behind it, which pays itself if it is a backslash too
      have hle := hrest.2.1
      show need f (d :: v') + q'.count 0x5C ≤ _
      rw [need, List.count_cons_self]
      by_cases hd : d = 0x5C
      · rw [if_neg (by rw [hd]; decide), if_pos hd, hd, List.count_cons_self]
        rw [hd] at hle
        omega
      · rw [if_neg hd, List.count_cons_of_ne hd]
        split_ifs <;> omega
    · intro c hc
      rcases List.mem_cons.1 hc with rfl | hc
      · exact List.mem_cons_of_mem _ List.mem_cons_self
      · exact List.mem_cons_of_mem _ (List.mem_cons_of_mem _ (hrest.2.2 c hc))
  | case6 c d p hquote hback ih =>
    rcases Option.map_eq_some_iff.1 h with ⟨⟨v', q'⟩, hr, heq⟩
    cases heq
    have htail : Escaped (c :: d :: p) := hescaped.suffix (List.suffix_cons _ _)
    have hfalse : decide (c = 0x5C) = false := decide_eq_false hback
    have hrest := ih htail (f := false) (fun hc => absurd hc hback) hr
    refine ⟨hrest.1.trans (List.suffix_cons _ _), ?_, ?_⟩
    · -- a control character that is read as it is stands behind a backslash that was read
      have hcontrol : ¬ (c < 0x20 ∧ f = false) := by
        rintro ⟨hlt, hffalse⟩
        have ha := (List.isChain_cons_cons.1 hescaped).1 hlt
        rw [hf ha] at hffalse
        cases hffalse
      rw [need, if_neg hquote, if_neg hback, if_neg hcontrol, hfalse, Nat.zero_add,
        List.count_cons_of_ne hback]
      exact hrest.2.1
    · intro b hb
      rcases List.mem_cons.1 hb with rfl | hb
      · exact List.mem_cons_self
      · exact List.mem_cons_of_mem _ (hrest.2.2 b hb)

lemma reads_readValue (hp : Escaped p) (key : Bytes) : Reads p (readValue key p) := by
  rcases p with _ | ⟨c, p⟩
  · exact .empty key (List.suffix_refl _)
  · rw [readValue]
    by_cases hquote : c = Ch.quote
    · rw [if_pos hquote, unquote, if_pos hquote]
      rcases hbody : unquoteBody p with _ | ⟨v, q⟩
      · exact .fail List.nil_suffix
      · have hread :=
          unquoteBody_need (f := false) hp (fun h => absurd (hquote.symm.trans h) (by decide)) hbody
        have hsuffix := skipPeriod_suffix q
        constructor
        · exact hsuffix.trans (hread.1.trans (List.suffix_cons _ _))
        · intro key' value h
          cases h
          rw [List.count_cons_of_ne (by rw [hquote]; decide)]
          exact (Nat.add_le_add_left (hsuffix.sublist.count_le _) _).trans hread.2.1
        · intro key' value h b hb
          cases h
          exact List.mem_cons_of_mem _ (hread.2.2 b hb)
    · rw [if_neg hquote]
      split_ifs
      · exact .fail (skipAfterPeriod_suffix _)
      · exact .tocken key _

lemma reads_readAssignment (hp : Escaped p) (key : Bytes) : Reads p (readAssignment key p) := by
  have hskip := skipWs_suffix p
  unfold readAssignment
  rcases heq : skipWs p with _ | ⟨c, q⟩
  · exact .empty key List.nil_suffix
  · rw [heq] at hskip
    have hq := (List.suffix_cons _ _).trans hskip
    dsimp only
    split_ifs
    · exact .empty key hq
    · have hsuffix := (skipWs_suffix q).trans hq
      exact (reads_readValue (hp.suffix hsuffix) key).of_suffix hsuffix

lemma reads_readKeyValue (hp : Escaped p) : Reads p (readKeyValue p) := by
  unfold readKeyValue
  split_ifs
  · exact .fail ((skipAfterPeriod_suffix _).trans (skipWs_suffix p))
  · have hsuffix := (tocken_suffix (skipWs p)).trans (skipWs_suffix p)
    exact (reads_readAssignment (hp.suffix hsuffix) _).of_suffix hsuffix

namespace CookieReader

/-- What the values of a map have cost. -/
def mapNeed (m : SortedMap Bytes Cookie) : ℕ := (m.toList.map fun x => need false x.2.value).sum

/-- What the values that were read have cost. -/
def weight (r : CookieReader) : ℕ := mapNeed r.cookies + need false r.cookie.value

lemma mapNeed_insertNew (m : SortedMap Bytes Cookie) (name : Bytes) (c : Cookie) :
    mapNeed (m.insertNew name c) ≤ mapNeed m + need false c.value := by
  unfold SortedMap.insertNew
  split_ifs with hfind
  · exact Nat.le_add_right _ _
  · have hperm := SortedMap.perm_insert (b := c) (Option.not_isSome_iff_eq_none.1 hfind)
    have hsum := (hperm.map fun x => need false x.2.value).sum_eq
    rw [List.map_cons, List.sum_cons, Nat.add_comm] at hsum
    exact hsum.le

lemma mapNeed_complete (r : CookieReader) : mapNeed r.complete ≤ r.weight := by
  unfold complete
  split_ifs
  · exact Nat.le_add_right _ _
  · exact mapNeed_insertNew _ _ _

/-- A round pays for the value that it reads. -/
lemma weight_step (h : Reads p res) (r : CookieReader) :
    (r.step res.1).weight + res.2.count 0x5C ≤ r.weight + p.count 0x5C := by
  have hcount := h.suffix.sublist.count_le 0x5C
  rcases res with ⟨_ | ⟨key, value⟩, q⟩
  · have hle : weight ⟨.empty, r.cookies⟩ ≤ r.weight := Nat.add_le_add_left (Nat.zero_le _) _
    exact Nat.add_le_add hle hcount
  · have hneed := h.need key value rfl
    have hcomplete := mapNeed_complete r
    show (r.assign key value).weight + q.count 0x5C ≤ _
    unfold assign
    split_ifs
    · exact Nat.add_le_add_left hcount _
    · exact Nat.add_le_add_left hcount _
    · exact Nat.add_le_add_left hcount _
    · exact Nat.add_le_add_left hcount _
    · show mapNeed r.complete + need false value + q.count 0x5C ≤ _
      dsimp only at hneed
      omega

lemma weight_loop (hp : Escaped p) (fuel : ℕ) (r : CookieReader) :
    (loop fuel p r).weight ≤ r.weight + p.count 0x5C := by
  induction fuel generalizing p r with
  | zero => exact Nat.le_add_right _ _
  | succ fuel ih =>
    rcases p with _ | ⟨c, p⟩
    · exact Nat.le_add_right _ _
    · have hreads := reads_readKeyValue hp
      exact (ih (hp.suffix hreads.suffix) _).trans (weight_step hreads r)

/-- The values that were read have no NUL. -/
structure NoNul (r : CookieReader) : Prop where
  cookie : 0 ∉ r.cookie.value
  cookies : ∀ name c, r.cookies.find name = some c → 0 ∉ c.value

variable {r : CookieReader}

lemma NoNul.complete (h : r.NoNul) {name : Bytes} {c : Cookie}
    (hfind : r.complete.find name = some c) :
    0 ∉ c.value := by
  unfold CookieReader.complete at hfind
  split_ifs at hfind
  · exact h.cookies name c hfind
  · rw [SortedMap.find_insertNew] at hfind
    split_ifs at hfind with heq
    · rcases hold : r.cookies.find r.cookie.name with _ | d
      · rw [hold] at hfind
        cases hfind
        exact h.cookie
      · rw [hold] at hfind
        cases hfind
        exact h.cookies _ _ hold
    · exact h.cookies name c hfind

lemma NoNul.step {r : CookieReader} (h : r.NoNul) {p : Bytes} (hp : 0 ∉ p)
    {res : Option (Bytes × Bytes) × Bytes} (hreads : Reads p res) : (r.step res.1).NoNul := by
  rcases res with ⟨_ | ⟨key, value⟩, q⟩
  · exact ⟨List.not_mem_nil, h.cookies⟩
  · have hvalue : 0 ∉ value := fun h0 => hp (hreads.mem key value rfl 0 h0)
    show (r.assign key value).NoNul
    unfold assign
    split_ifs
    · exact h
    · exact ⟨h.cookie, h.cookies⟩
    · exact ⟨h.cookie, h.cookies⟩
    · exact h
    · exact ⟨hvalue, fun name c hfind => h.complete hfind⟩

lemma NoNul.loop (h : r.NoNul) (hp : 0 ∉ p) (hescaped : Escaped p) (fuel : ℕ) :
    (CookieReader.loop fuel p r).NoNul := by
  induction fuel generalizing p r with
  | zero => exact h
  | succ fuel ih =>
    rcases p with _ | ⟨c, p⟩
    · exact h
    · have hreads := reads_readKeyValue hescaped
      exact ih (h.step hp hreads) (fun h0 => hp (hreads.suffix.subset h0))
        (hescaped.suffix hreads.suffix)

end CookieReader

/-- All values that are read out of a text are paid for by its backslashes, and have no NUL. -/
lemma parseCookies_need {text : Bytes} (htext : Escaped text) :
    CookieReader.mapNeed (parseCookies text) ≤ text.count 0x5C ∧
      ∀ name c, (parseCookies text).find name = some c → 0 ∉ c.value := by
  have hprefix : cString text <+: text := List.takeWhile_prefix _
  have hcut : Escaped (cString text) := by
    rcases hprefix with ⟨t, ht⟩
    rw [← ht] at htext
    exact (List.isChain_append.1 htext).1
  have hescaped : Escaped (skipWs (cString text)) :=
    hcut.suffix (skipWs_suffix _)
  have hnul : 0 ∉ skipWs (cString text) := by
    intro h
    have hne := List.mem_takeWhile_imp ((skipWs_suffix _).subset h)
    simp at hne
  constructor
  · have hweight := CookieReader.weight_loop hescaped (cString text).length ⟨.empty, ∅⟩
    have hcomplete := CookieReader.mapNeed_complete
      (CookieReader.loop (cString text).length (skipWs (cString text)) ⟨.empty, ∅⟩)
    have hcount := ((skipWs_suffix (cString text)).sublist.trans hprefix.sublist).count_le 0x5C
    have hstart : CookieReader.weight ⟨.empty, ∅⟩ = 0 := rfl
    unfold parseCookies
    omega
  · have hstart : CookieReader.NoNul ⟨.empty, ∅⟩ := ⟨List.not_mem_nil, fun name c h => by cases h⟩
    exact fun name c hfind => (hstart.loop hnul hescaped _).complete hfind

/-- Values that are all read as they were leave no backslash over. -/
lemma sum_need_le (hdistinct : (cs.map Cookie.name).Nodup) {m : SortedMap Bytes Cookie}
    (hm : ∀ c ∈ cs, (m.find c.name).map Cookie.value = some c.value) :
    (cs.map fun c => need false c.value).sum ≤ CookieReader.mapNeed m := by
  have hnodup : (cs.map fun c => (c.name, c.value)).Nodup := by
    apply List.Nodup.of_map Prod.fst
    rw [List.map_map]
    exact hdistinct
  have hsubset : (cs.map fun c => (c.name, c.value)) ⊆ m.toList.map fun x => (x.1, x.2.value) := by
    intro x hx
    rcases List.mem_map.1 hx with ⟨c, hc, rfl⟩
    rcases Option.map_eq_some_iff.1 (hm c hc) with ⟨d, hd, hvalue⟩
    exact List.mem_map.2 ⟨(c.name, d), SortedMap.find_eq_some.1 hd, by rw [← hvalue]⟩
  rcases List.subperm_of_subset hnodup hsubset with ⟨l, hperm, hsub⟩
  have hsum := (hsub.map fun x => need false x.2).sum_le_sum fun _ _ => Nat.zero_le _
  rw [(hperm.map fun x => need false x.2).sum_eq, List.map_map, List.map_map] at hsum
  exact hsum

lemma eq_of_sum_le {α : Type*} {l : List α} {f g : α → ℕ} (hle : ∀ x ∈ l, f x ≤ g x)
    (hsum : (l.map g).sum ≤ (l.map f).sum) : ∀ x ∈ l, f x = g x := by
  induction l with
  | nil => exact List.forall_mem_nil _
  | cons y l ih =>
    have hy := hle y List.mem_cons_self
    have hl := List.sum_le_sum fun x hx => hle x (List.mem_cons_of_mem y hx)
    rw [List.map_cons, List.map_cons, List.sum_cons, List.sum_cons] at hsum
    intro x hx
    rcases List.mem_cons.1 hx with rfl | hx
    · omega
    · exact ih (fun x hx => hle x (List.mem_cons_of_mem _ hx)) (by omega) x hx

/-- Cookies with distinct names come back, all of them and nothing else, if and only if each value
does. -/
theorem parseCookies_cookieHeader_iff {cs : List Cookie} (hnames : ∀ c ∈ cs, IsCookieName c.name)
    (hdistinct : (cs.map Cookie.name).Nodup) :
    (∀ name value, ((parseCookies (cookieHeader cs)).find name).map Cookie.value = some value ↔
        ∃ c ∈ cs, c.name = name ∧ c.value = value) ↔
      ∀ c ∈ cs, ComesBack c.value := by
  constructor
  · intro h
    have hm : ∀ c ∈ cs, ((parseCookies (cookieHeader cs)).find c.name).map Cookie.value =
        some c.value :=
      fun c hc => (h c.name c.value).2 ⟨c, hc, rfl, rfl⟩
    have hread := parseCookies_need (escaped_cookieHeader hnames).1
    have hgiven := count_cookieHeader hnames
    have hneed := sum_need_le hdistinct hm
    have hle : ∀ c ∈ cs, given c.value ≤ need false c.value := by
      intro c _
      have hle := (given_le_need false c.value).1
      rwa [excess_false] at hle
    -- the sums agree, so that no value needs more than it gives
    have heq := eq_of_sum_le hle (hneed.trans (hread.1.trans hgiven))
    intro c hc
    have hfit := (given_le_need false c.value).2 (by rw [excess_false, heq c hc, Nat.add_zero])
    rcases Option.map_eq_some_iff.1 (hm c hc) with ⟨d, hd, hvalue⟩
    exact ⟨hvalue ▸ hread.2 c.name d hd, hfit.1, hfit.2⟩
  · intro hvalues name value
    have hkeys : ((cs.map fun c => (c.name, c.value)).map Prod.fst).Nodup := by
      rw [List.map_map]
      exact hdistinct
    rw [find_parseCookies_cookieHeader hnames hvalues, find?_key_eq_some hkeys]
    simp only [List.mem_map, Prod.mk.injEq]

/-- The cookies `a` with the value `x y` and `b` without a value. -/
theorem parseCookies_cookieHeader_iff_two :
    (∀ name value,
      ((parseCookies
      (cookieHeader [.ofValue (bytes "a") (bytes "x y"), .ofValue (bytes "b") []])).find
        name).map Cookie.value = some value ↔
        ∃ c ∈ [Cookie.ofValue (bytes "a") (bytes "x y"), .ofValue (bytes "b") []], c.name = name ∧
        c.value = value) ↔
      ∀ c ∈ [Cookie.ofValue (bytes "a") (bytes "x y"), .ofValue (bytes "b") []],
        ComesBack c.value :=
  parseCookies_cookieHeader_iff (by decide +kernel) (by decide)

/-- The quote in the value ends it. -/
theorem parseCookies_quote :
    ¬ ∀ cs : List Cookie, (∀ c ∈ cs, IsCookieName c.name) → (cs.map Cookie.name).Nodup →
    ∀ name value, ((parseCookies (cookieHeader cs)).find name).map Cookie.value = some value ↔
      ∃ c ∈ cs, c.name = name ∧ c.value = value := by
  intro h
  have hread :=
    (h [.ofValue (bytes "n") (bytes "a\"b")] (by decide +kernel) (by decide)
    (bytes "n") (bytes "a")).1
    (by decide)
  rcases hread with ⟨c, hc, -, hvalue⟩
  cases List.mem_singleton.1 hc
  exact absurd hvalue (by decide)

end Http

end Cppcms
