import Cppcms.Base.Bytes

/-!
# The lexical rules of HTTP headers

The functions of `http_protocol.h`.  An iterator into a text is what is left of the text from it on.
-/

namespace Cppcms

namespace Http

namespace Protocol

def separator (c : UInt8) : Bool := c ∈ bytes "()<>@,;:\\\"/[]?=\x7b\x7d \t"

def asciiToLower (c : UInt8) : UInt8 := if c < 0x41 ∨ 0x5A < c then c else c - 0x41 + 0x61

/-- White space, and the end of a line that is followed by white space. -/
def skipWs : Bytes → Bytes
  | [] => []
  | [c] => if c = Ch.space ∨ c = Ch.tab then [] else [c]
  | [c, d] => if c = Ch.space ∨ c = Ch.tab then skipWs [d] else [c, d]
  | c :: d :: e :: p =>
    if c = Ch.return' then
      if d = Ch.newline ∧ (e = Ch.space ∨ e = Ch.tab) then skipWs p else c :: d :: e :: p
    else if c = Ch.space ∨ c = Ch.tab then skipWs (d :: e :: p)
    else c :: d :: e :: p

/-- The characters of a token. -/
def isTocken (c : UInt8) : Bool := 0x20 ≤ c && c ≤ 0x7E && !separator c

/-- `tocken`: the token at the beginning, which may be empty, and what is behind it. -/
def tocken (p : Bytes) : Bytes × Bytes := (p.takeWhile isTocken, p.dropWhile isTocken)

/-- The part of `unquote` behind the opening quote. -/
def unquoteBody : Bytes → Option (Bytes × Bytes)
  | [] => none
  | [c] => if c = Ch.quote then some ([], []) else none
  | c :: d :: p =>
    if c = Ch.quote then some ([], d :: p)
    else if c = 0x5C then (unquoteBody p).map fun r => (d :: r.1, r.2)
    else (unquoteBody (d :: p)).map fun r => (c :: r.1, r.2)

/-- `unquote`; it is `none` if the iterator is not moved. -/
def unquote : Bytes → Option (Bytes × Bytes)
  | [] => none
  | c :: p => if c = Ch.quote then unquoteBody p else none

/-- `compare`; a `char` is signed. -/
def compare : Bytes → Bytes → ℤ
  | [], [] => 0
  | [], _ :: _ => -1
  | _ :: _, [] => 1
  | l :: left, r :: right =>
    if (asciiToLower l).toInt8 < (asciiToLower r).toInt8 then -1
    else if (asciiToLower r).toInt8 < (asciiToLower l).toInt8 then 1
    else compare left right

/-! ## Steps that the parsers of headers share -/

/-- The next character has to be `c`. -/
def expect (c : UInt8) : Bytes → Option Bytes
  | [] => none
  | d :: p => if d = c then some p else none

/-- A token that must not be empty. -/
def nonemptyTocken (p : Bytes) : Option (Bytes × Bytes) :=
  if (tocken p).1 = [] then none else some (tocken p)

/-- A value: a quoted string or a token. -/
def value : Bytes → Option (Bytes × Bytes)
  | [] => none
  | c :: p => if c = Ch.quote then unquote (c :: p) else nonemptyTocken (c :: p)

/-! ## Texts that are read as they were written -/

variable {c : UInt8} {t : Bytes} {p v q : Bytes}

/-- White space ends at every other character. -/
lemma skipWs_cons (hreturn : c ≠ Ch.return') (hspace : c ≠ Ch.space) (htab : c ≠ Ch.tab)
    (p : Bytes) :
    skipWs (c :: p) = c :: p := by
  have hws : ¬ (c = Ch.space ∨ c = Ch.tab) := not_or.2 ⟨hspace, htab⟩
  rcases p with _ | ⟨d, _ | ⟨e, p⟩⟩
  · rw [skipWs, if_neg hws]
  · rw [skipWs, if_neg hws]
  · rw [skipWs, if_neg hreturn, if_neg hws]

lemma skipWs_blank (hc : c = Ch.space ∨ c = Ch.tab) (p : Bytes) : skipWs (c :: p) = skipWs p := by
  have hreturn : c ≠ Ch.return' := by
    rintro rfl
    revert hc
    decide
  rcases p with _ | ⟨d, _ | ⟨e, p⟩⟩
  · exact if_pos hc
  · exact if_pos hc
  · rw [skipWs, if_neg hreturn, if_pos hc]

lemma skipWs_space (p : Bytes) : skipWs (Ch.space :: p) = skipWs p := skipWs_blank (.inl rfl) p

lemma skipWs_blanks {b : Bytes} (hb : ∀ c ∈ b, c = Ch.space ∨ c = Ch.tab) (p : Bytes) :
    skipWs (b ++ p) = skipWs p := by
  induction b with
  | nil => rfl
  | cons c b ih =>
    rw [List.cons_append, skipWs_blank (hb c List.mem_cons_self)]
    exact ih fun d hd => hb d (List.mem_cons_of_mem _ hd)

/-- A token starts with no white space. -/
lemma skipWs_of_isTocken (hc : isTocken c) (p : Bytes) : skipWs (c :: p) = c :: p := by
  apply skipWs_cons
  all_goals
    rintro rfl
    revert hc
    decide

/-- A token ends at the first other character. -/
lemma tocken_append (ht : ∀ c ∈ t, isTocken c) (hc : isTocken c = false) (p : Bytes) :
    tocken (t ++ c :: p) = (t, c :: p) := by
  unfold tocken
  rw [List.takeWhile_append_of_pos ht, List.dropWhile_append_of_pos ht,
    List.takeWhile_cons_of_neg (by rw [hc]; decide),
    List.dropWhile_cons_of_neg (by rw [hc]; decide), List.append_nil]

lemma tocken_self (ht : ∀ c ∈ t, isTocken c) : tocken t = (t, []) := by
  unfold tocken
  rw [List.takeWhile_eq_self_iff.2 ht, List.dropWhile_eq_nil_iff.2 ht]

lemma nonemptyTocken_append (hne : t ≠ []) (ht : ∀ c ∈ t, isTocken c) (hc : isTocken c = false)
    (p : Bytes) : nonemptyTocken (t ++ c :: p) = some (t, c :: p) := by
  unfold nonemptyTocken
  rw [tocken_append ht hc, if_neg hne]

lemma expect_cons (c : UInt8) (p : Bytes) : expect c (c :: p) = some p := if_pos rfl

/-- The escapes of a quoted string. -/
def escape (s : Bytes) : Bytes :=
  s.flatMap fun c => if c = Ch.quote ∨ c = 0x5C then [0x5C, c] else [c]

lemma escape_cons (c : UInt8) (s : Bytes) :
    escape (c :: s) = (if c = Ch.quote ∨ c = 0x5C then [0x5C, c] else [c]) ++ escape s :=
      List.flatMap_cons

/-- A quoted string in which the quotes and the backslashes are escaped. -/
def quoted (s : Bytes) : Bytes := Ch.quote :: escape s ++ [Ch.quote]

/-- A character that is neither a quote nor a backslash is read as it is. -/
lemma unquoteBody_cons (hquote : c ≠ Ch.quote) (hback : c ≠ 0x5C)
    (h : unquoteBody p = some (v, q)) : unquoteBody (c :: p) = some (c :: v, q) := by
  rcases p with _ | ⟨d, p⟩
  · cases h
  · rw [unquoteBody, if_neg hquote, if_neg hback, h]
    rfl

/-- The character behind a backslash is read as it is. -/
lemma unquoteBody_backslash (d : UInt8) (h : unquoteBody p = some (v, q)) :
    unquoteBody (0x5C :: d :: p) = some (d :: v, q) := by
  rw [unquoteBody, if_neg (by decide), if_pos rfl, h]
  rfl

/-- What stands behind a quoted string is left. -/
lemma unquoteBody_append (h : unquoteBody p = some (v, q)) (s : Bytes) :
    unquoteBody (p ++ s) = some (v, q ++ s) := by
  fun_induction unquoteBody p generalizing v q with
  | case1 => cases h
  | case2 =>
    cases h
    rcases s with _ | ⟨d, s⟩
    · rfl
    · exact if_pos rfl
  | case3 => cases h
  | case4 d p =>
    cases h
    exact if_pos rfl
  | case5 d p hquote ih =>
    rcases Option.map_eq_some_iff.1 h with ⟨⟨w, r⟩, hr, heq⟩
    cases heq
    exact unquoteBody_backslash d (ih hr)
  | case6 c d p hquote hback ih =>
    rcases Option.map_eq_some_iff.1 h with ⟨⟨w, r⟩, hr, heq⟩
    cases heq
    exact unquoteBody_cons hquote hback (ih hr)

lemma unquoteBody_escape (s p : Bytes) : unquoteBody (escape s ++ Ch.quote :: p) = some (s, p) := by
  induction s with
  | nil =>
    rcases p with _ | ⟨d, p⟩
    · rfl
    · show unquoteBody (Ch.quote :: d :: p) = _
      rw [unquoteBody, if_pos rfl]
  | cons c s ih =>
    rw [escape_cons, List.append_assoc]
    by_cases hc : c = Ch.quote ∨ c = 0x5C
    · rw [if_pos hc]
      exact unquoteBody_backslash c ih
    · rw [if_neg hc]
      exact unquoteBody_cons (not_or.1 hc).1 (not_or.1 hc).2 ih

lemma unquote_quoted (s p : Bytes) : unquote (quoted s ++ p) = some (s, p) := by
  unfold quoted
  rw [List.append_assoc]
  show unquote (Ch.quote :: (escape s ++ Ch.quote :: p)) = _
  rw [unquote, if_pos rfl]
  exact unquoteBody_escape s p

lemma value_quoted (s p : Bytes) : value (quoted s ++ p) = some (s, p) := by
  have hquoted := unquote_quoted s p
  unfold quoted at hquoted ⊢
  rw [List.cons_append, List.cons_append] at hquoted ⊢
  rw [value, if_pos rfl]
  exact hquoted

lemma mem_of_mem_escape {s : Bytes} (hc : c ∈ escape s) : c ∈ s ∨ c = 0x5C := by
  rcases List.mem_flatMap.1 hc with ⟨d, hd, hc⟩
  split_ifs at hc
  · rcases List.mem_cons.1 hc with rfl | hc
    · exact .inr rfl
    · exact .inl (List.mem_singleton.1 hc ▸ hd)
  · exact .inl (List.mem_singleton.1 hc ▸ hd)

/-! ## What is left gets shorter -/

lemma length_skipWs (p : Bytes) : (skipWs p).length ≤ p.length := by
  fun_induction skipWs p with
  | case1 => exact Nat.le_refl _
  | case2 c h => exact Nat.zero_le _
  | case3 c h => exact Nat.le_refl _
  | case4 c d h ih => exact ih.trans (Nat.le_succ _)
  | case5 c d h => exact Nat.le_refl _
  | case6 d e p h ih => exact ih.trans (Nat.le_add_right _ 3)
  | case7 d e p h => exact Nat.le_refl _
  | case8 c d e p hc h ih => exact ih.trans (Nat.le_succ _)
  | case9 c d e p hc h => exact Nat.le_refl _

lemma length_expect {p q : Bytes} (h : expect c p = some q) : q.length < p.length := by
  rcases p with _ | ⟨d, p⟩
  · cases h
  · rw [expect] at h
    split_ifs at h
    cases h
    exact Nat.lt_succ_self _

lemma length_nonemptyTocken {p t q : Bytes} (h : nonemptyTocken p = some (t, q)) :
    q.length ≤ p.length := by
  unfold nonemptyTocken at h
  split_ifs at h
  cases h
  exact (List.dropWhile_suffix _).length_le

lemma length_unquoteBody {p s q : Bytes} (h : unquoteBody p = some (s, q)) :
    q.length ≤ p.length := by
  fun_induction unquoteBody p generalizing s q with
  | case1 => cases h
  | case2 =>
    cases h
    exact Nat.zero_le _
  | case3 => cases h
  | case4 d p =>
    cases h
    exact Nat.le_succ _
  | case5 d p hc ih =>
    rcases Option.map_eq_some_iff.1 h with ⟨r, hr, heq⟩
    cases heq
    have hle := ih hr
    exact hle.trans (Nat.le_add_right _ 2)
  | case6 c d p hc hb ih =>
    rcases Option.map_eq_some_iff.1 h with ⟨r, hr, heq⟩
    cases heq
    exact (ih hr).trans (Nat.le_succ _)

lemma length_value {p s q : Bytes} (h : value p = some (s, q)) : q.length ≤ p.length := by
  rcases p with _ | ⟨c, p⟩
  · cases h
  · rw [value] at h
    split_ifs at h with hc
    · rw [unquote, if_pos hc] at h
      exact (length_unquoteBody h).trans (Nat.le_succ _)
    · exact length_nonemptyTocken h

/-! ## Names of headers -/

/-- The names are compared by their letters in lower case. -/
lemma compare_eq_zero_iff (a b : Bytes) :
    compare a b = 0 ↔ a.map asciiToLower = b.map asciiToLower := by
  induction a generalizing b with
  | nil =>
    rcases b with _ | ⟨d, b⟩
    · exact ⟨fun _ => rfl, fun _ => rfl⟩
    · constructor
      · intro h
        rw [compare] at h
        omega
      · intro h
        cases h
  | cons c a ih =>
    rcases b with _ | ⟨d, b⟩
    · constructor
      · intro h
        rw [compare] at h
        omega
      · intro h
        cases h
    · rw [compare, List.map_cons, List.map_cons, List.cons.injEq]
      have heq : asciiToLower c = asciiToLower d ↔
          (asciiToLower c).toInt8 = (asciiToLower d).toInt8 :=
        ⟨fun h => congrArg _ h, fun h => congrArg Int8.toUInt8 h⟩
      rw [heq, ← ih b]
      split_ifs with hlt hgt
      · exact ⟨fun h => absurd h (by decide), fun h => absurd h.1 (Int8.ne_of_lt hlt)⟩
      · exact ⟨fun h => absurd h (by decide), fun h => absurd h.1.symm (Int8.ne_of_lt hgt)⟩
      · have htotal := Int8.le_antisymm (Int8.not_lt.1 hgt) (Int8.not_lt.1 hlt)
        exact ⟨fun h => ⟨htotal, h⟩, fun h => h.2⟩

end Protocol

end Http

end Cppcms
