import Cppcms.Base.Numbers

/-!
# The compiler of plural forms

`mo_lambda.cpp`: a tokenizer with a look-ahead of one token, a parser with a function for each level
of precedence, and the objects that it makes, which are called with a number.  A null pointer is
`none`.
-/

namespace Cppcms

namespace Locale

namespace Plural

/-! ## Compiled objects -/

inductive UnaryOp where
  | lNot
  | minus
  | binNot
  deriving DecidableEq

inductive BinaryOp where
  | mul
  | div
  | mod
  | add
  | sub
  | shl
  | shr
  | gt
  | lt
  | gte
  | lte
  | eq
  | neq
  | binAnd
  | binXor
  | binOr
  | lAnd
  | lOr
  deriving DecidableEq

/-- `plural`, with the classes that `UNOP` and `BINOP` make as one each. -/
inductive Object where
  | identity
  | number (val : Int32)
  | unary (op : UnaryOp) (op1 : Object)
  | binary (op : BinaryOp) (op1 op2 : Object)
  | conditional (op1 op2 op3 : Object)
  deriving DecidableEq

/-- The value of a comparison. -/
def ofBool (b : Bool) : Int32 := if b then 1 else 0

def UnaryOp.call : UnaryOp → Int32 → Int32
  | lNot, a => ofBool (a = 0)
  | minus, a => -a
  | binNot, a => ~~~a

def BinaryOp.call : BinaryOp → Int32 → Int32 → Int32
  | mul, a, b => a * b
  | div, a, b => if b = 0 then 0 else a / b
  | mod, a, b => if b = 0 then 0 else a % b
  | add, a, b => a + b
  | sub, a, b => a - b
  | shl, a, b => a <<< b
  | shr, a, b => a >>> b
  | gt, a, b => ofBool (b < a)
  | lt, a, b => ofBool (a < b)
  | gte, a, b => ofBool (b ≤ a)
  | lte, a, b => ofBool (a ≤ b)
  | eq, a, b => ofBool (a = b)
  | neq, a, b => ofBool (a ≠ b)
  | binAnd, a, b => a &&& b
  | binXor, a, b => a ^^^ b
  | binOr, a, b => a ||| b
  | lAnd, a, b => ofBool (a ≠ 0 && b ≠ 0)
  | lOr, a, b => ofBool (a ≠ 0 || b ≠ 0)

/-- `operator()`. -/
def Object.call (n : Int32) : Object → Int32
  | identity => n
  | number val => val
  | unary op op1 => op.call (op1.call n)
  | binary op op1 op2 => op.call (op1.call n) (op2.call n)
  | conditional op1 op2 op3 => if op1.call n ≠ 0 then op2.call n else op3.call n

/-! ## Tokens -/

/-- The tokens; a number has the value of `int_value`. -/
inductive Tocken where
  | end'
  | shl
  | shr
  | gte
  | lte
  | eq
  | neq
  | and
  | or
  | num (val : Int32)
  | var
  | char (c : UInt8)
  deriving DecidableEq

/-- The text from `pos` on and the token before it. -/
structure Tokenizer where
  text : Bytes
  nextTocken : Tocken
  deriving DecidableEq

def isBlank (c : UInt8) : Bool := c = Ch.space || c = Ch.return' || c = Ch.newline || c = Ch.tab

def isDigit (c : UInt8) : Bool := 0x30 ≤ c && c ≤ 0x39

/-- The value of a digit in the bases up to 16. -/
def digitValue (c : UInt8) : ℕ :=
  if isDigit c then c.toNat - 0x30
  else if 0x61 ≤ c ∧ c ≤ 0x66 then c.toNat - 0x61 + 10
  else if 0x41 ≤ c ∧ c ≤ 0x46 then c.toNat - 0x41 + 10
  else 16

/-- The number at the begin of a text in a base, as a `long`, and what is behind it. -/
def strtolBase (base : ℕ) (s : Bytes) : ℕ × Bytes :=
  (min (ofDigitList base digitValue (s.takeWhile fun c => digitValue c < base)) (2 ^ 63 - 1),
    s.dropWhile fun c => digitValue c < base)

/-- `strtol` in base 0 of a text that starts with a digit. -/
def strtol (s : Bytes) : ℕ × Bytes :=
  if s.head? = some 0x30 then
    if (s[1]? = some 0x78 ∨ s[1]? = some 0x58) ∧
      (s[2]?.any fun c => digitValue c < 16) then strtolBase 16 (s.drop 2)
    else strtolBase 8 s
  else strtolBase 10 s

/-- The tokens of two characters, in the order in which `step` looks for them. -/
def longTockens : List (Bytes × Tocken) :=
  [(bytes "<<", .shl), (bytes ">>", .shr), (bytes "&&", .and), (bytes "||", .or),
    (bytes "<=", .lte), (bytes ">=", .gte), (bytes "==", .eq), (bytes "!=", .neq)]

/-- `step` behind the blanks. -/
def stepAt (ptr : Bytes) : Tokenizer :=
  match longTockens.find? fun x => x.1.isPrefixOf ptr with
  | some x => ⟨ptr.drop 2, x.2⟩
  | none =>
    match ptr with
    | [] => ⟨[], .end'⟩
    | c :: s =>
      if c = 0x6E then ⟨s, .var⟩
      else if isDigit c then ⟨(strtol (c :: s)).2, .num (Int32.ofNat (strtol (c :: s)).1)⟩
      else ⟨s, .char c⟩

/-- `step`: the tokenizer at a place of the text. -/
def step (text : Bytes) : Tokenizer := stepAt (text.dropWhile isBlank)

/-- The tokenizer after `get`, which returns the token that was the next one. -/
def Tokenizer.get (t : Tokenizer) : Tokenizer := step t.text

/-! ## The parser -/

/-- What a function of the parser returns, or `none` where its rounds are used up. -/
abbrev Parse := Option (Option Object × Tokenizer)

/-- A null pointer is returned at once. -/
def andThen (p : Parse) (f : Object → Tokenizer → Parse) : Parse :=
  p.bind fun r =>
    match r.1 with
    | none => some (none, r.2)
    | some op => f op r.2

def levelUnary : List Tocken := [.char 0x2D, .char 0x21, .char 0x7E]

def level10 : List Tocken := [.char 0x2A, .char 0x2F, .char 0x25]

def level9 : List Tocken := [.char 0x2B, .char 0x2D]

def level8 : List Tocken := [.shl, .shr]

def level7 : List Tocken := [.char 0x3C, .char 0x3E, .gte, .lte]

def level6 : List Tocken := [.eq, .neq]

def level5 : List Tocken := [.char 0x26]

def level4 : List Tocken := [.char 0x5E]

def level3 : List Tocken := [.char 0x7C]

def level2 : List Tocken := [.and]

def level1 : List Tocken := [.or]

/-- The cases of `bin_factory`. -/
def binFactory : Tocken → Option BinaryOp
  | .char c =>
    if c = 0x2F then some .div
    else if c = 0x2A then some .mul
    else if c = 0x25 then some .mod
    else if c = 0x2B then some .add
    else if c = 0x2D then some .sub
    else if c = 0x3E then some .gt
    else if c = 0x3C then some .lt
    else if c = 0x26 then some .binAnd
    else if c = 0x5E then some .binXor
    else if c = 0x7C then some .binOr
    else none
  | .shl => some .shl
  | .shr => some .shr
  | .gte => some .gte
  | .lte => some .lte
  | .eq => some .eq
  | .neq => some .neq
  | .and => some .lAnd
  | .or => some .lOr
  | _ => none

/-- The cases of `un_expr`. -/
def unaryFactory : Tocken → Option UnaryOp
  | .char c =>
    if c = 0x2D then some .minus
    else if c = 0x21 then some .lNot
    else if c = 0x7E then some .binNot
    else none
  | _ => none

/-- `value_expr`, with the parser of an expression in parentheses. -/
def valueExpr (condExpr : Tokenizer → Parse) (t : Tokenizer) : Parse :=
  match t.nextTocken with
  | .char c =>
    if c = 0x28 then
      andThen (condExpr t.get) fun op t =>
        if t.nextTocken ≠ .char 0x29 then some (none, t.get) else some (some op, t.get)
    else some (none, t)
  | .num val => some (some (.number val), t.get)
  | .var => some (some .identity, t.get)
  | _ => some (none, t)

/-- `un_expr`. -/
def unExpr (condExpr : Tokenizer → Parse) : ℕ → Tokenizer → Parse
  | 0, _ => none
  | fuel + 1, t =>
    if t.nextTocken ∈ levelUnary then
      andThen (unExpr condExpr fuel t.get) fun op1 t' =>
        some ((unaryFactory t.nextTocken).map fun op => .unary op op1, t')
    else valueExpr condExpr t

/-- The loop of `BINARY_EXPR`; `bin_factory` has a case for each token of a level. -/
def binaryLoop (hexpr : Tokenizer → Parse) (list : List Tocken) : ℕ → Object → Tokenizer → Parse
  | 0, _, _ => none
  | fuel + 1, op1, t =>
    if t.nextTocken ∈ list then
      andThen (hexpr t.get) fun op2 t' =>
        match binFactory t.nextTocken with
        | none => some (none, t')
        | some o => binaryLoop hexpr list fuel (.binary o op1 op2) t'
    else some (some op1, t)

/-- `BINARY_EXPR`. -/
def binaryExpr (hexpr : Tokenizer → Parse) (list : List Tocken) (fuel : ℕ) (t : Tokenizer) :
    Parse :=
  andThen (hexpr t) (binaryLoop hexpr list fuel)

section Levels

variable (condExpr : Tokenizer → Parse) (fuel : ℕ)

def l10 : Tokenizer → Parse := binaryExpr (unExpr condExpr fuel) level10 fuel

def l9 : Tokenizer → Parse := binaryExpr (l10 condExpr fuel) level9 fuel

def l8 : Tokenizer → Parse := binaryExpr (l9 condExpr fuel) level8 fuel

def l7 : Tokenizer → Parse := binaryExpr (l8 condExpr fuel) level7 fuel

def l6 : Tokenizer → Parse := binaryExpr (l7 condExpr fuel) level6 fuel

def l5 : Tokenizer → Parse := binaryExpr (l6 condExpr fuel) level5 fuel

def l4 : Tokenizer → Parse := binaryExpr (l5 condExpr fuel) level4 fuel

def l3 : Tokenizer → Parse := binaryExpr (l4 condExpr fuel) level3 fuel

def l2 : Tokenizer → Parse := binaryExpr (l3 condExpr fuel) level2 fuel

def l1 : Tokenizer → Parse := binaryExpr (l2 condExpr fuel) level1 fuel

end Levels

/-- `cond_expr`. -/
def condExpr : ℕ → Tokenizer → Parse
  | 0, _ => none
  | fuel + 1, t =>
    andThen (l1 (condExpr fuel) (fuel + 1) t) fun cond t =>
      if t.nextTocken = .char 0x3F then
        andThen (condExpr fuel t.get) fun case1 t =>
          if t.nextTocken ≠ .char 0x3A then some (none, t.get)
          else
            andThen (condExpr fuel t.get) fun case2 t =>
              some (some (.conditional cond case1 case2), t)
      else some (some cond, t)

/-- `compile`; no function of the parser goes more rounds than the text has characters. -/
def compile (str : Bytes) : Option (Option Object) :=
  (condExpr (str.length + 1) (step (str.takeWhile (· ≠ 0)))).map fun r =>
    if r.1.isSome ∧ r.2.nextTocken ≠ .end' then none else r.1

/-! ## The parser ends -/

/-- The characters that are left, with one for the token. -/
def Tokenizer.size (t : Tokenizer) : ℕ := t.text.length + if t.nextTocken = .end' then 0 else 1

lemma length_strtolBase {base : ℕ} {c : UInt8} (hc : digitValue c < base) (s : Bytes) :
    (strtolBase base (c :: s)).2.length ≤ s.length := by
  have hdrop : (c :: s).dropWhile (fun c => decide (digitValue c < base)) = s.dropWhile fun c =>
      digitValue c < base :=
    List.dropWhile_cons_of_pos (decide_eq_true hc)
  unfold strtolBase
  rw [hdrop]
  exact (List.dropWhile_suffix _).length_le

lemma length_strtol {c : UInt8} (hc : isDigit c) (s : Bytes) :
    (strtol (c :: s)).2.length ≤ s.length := by
  have hdigit : digitValue c < 10 := by
    unfold digitValue
    rw [if_pos hc]
    unfold isDigit at hc
    simp only [Bool.and_eq_true, decide_eq_true_eq, UInt8.le_iff_toNat_le] at hc
    have hle := hc.2
    have hmax : (0x39 : UInt8).toNat = 57 := rfl
    omega
  unfold strtol
  by_cases hzero : (c :: s).head? = some 0x30
  · rw [if_pos hzero]
    split_ifs with hhex
    · -- the digits of a hexadecimal number stand behind its two first characters
      have hdrop :=
        (List.dropWhile_suffix (l := (c :: s).drop 2) fun c => digitValue c < 16).length_le
      have hlength : ((c :: s).drop 2).length ≤ s.length := by
        rw [List.length_drop, List.length_cons]
        omega
      exact hdrop.trans hlength
    · rw [Option.some.inj hzero]
      exact length_strtolBase (by decide) s
  · rw [if_neg hzero]
    exact length_strtolBase hdigit s

lemma size_stepAt (ptr : Bytes) : (stepAt ptr).size ≤ ptr.length := by
  unfold stepAt
  rcases hfind : longTockens.find? fun x => x.1.isPrefixOf ptr with _ | x
  · rcases ptr with _ | ⟨c, s⟩
    · exact Nat.le_refl _
    · have hone : ∀ t : Tocken, (if t = .end' then 0 else 1) ≤ 1 := by
        intro t
        split_ifs
        · exact Nat.zero_le _
        · exact Nat.le_refl _
      rw [hfind]
      dsimp only
      split_ifs with hn hdigit
      · exact Nat.add_le_add_left (hone _) _
      · exact Nat.add_le_add (length_strtol hdigit s) (hone _)
      · exact Nat.add_le_add_left (hone _) _
  · have hmem : x ∈ longTockens := List.mem_of_find?_eq_some hfind
    have hlength : ∀ x ∈ longTockens, x.1.length = 2 := by decide
    have hpre : x.1 <+: ptr := List.isPrefixOf_iff_prefix.1 (by simpa using List.find?_some hfind)
    have hle := hpre.length_le
    rw [hlength x hmem] at hle
    rw [hfind]
    show (ptr.drop 2).length + (if x.2 = .end' then 0 else 1) ≤ ptr.length
    rw [List.length_drop]
    split_ifs
    · omega
    · omega

lemma size_step (s : Bytes) : (step s).size ≤ s.length :=
  (size_stepAt _).trans (List.dropWhile_suffix _).length_le

lemma Tokenizer.size_get (t : Tokenizer) : t.get.size ≤ t.size :=
  (size_step _).trans (Nat.le_add_right _ _)

variable {t : Tokenizer} {p : Parse} {c : Tokenizer → Parse} {n fuel : ℕ}

/-- The end of the text is the only token that is not taken from it. -/
lemma Tokenizer.size_get_lt (ht : t.nextTocken ≠ .end') : t.get.size < t.size := by
  have hle : t.get.size ≤ t.text.length := size_step _
  unfold size at hle ⊢
  rw [if_neg ht]
  exact Nat.lt_succ_of_le hle

/-- A function of the parser comes back, and the text does not get longer. -/
def Returns (p : Parse) (k : ℕ) : Prop := ∃ r, p = some r ∧ r.2.size ≤ k

/-- It comes back on every text that is short enough. -/
def Ends (p : Tokenizer → Parse) (n : ℕ) : Prop := ∀ t, t.size < n → Returns (p t) t.size

lemma Returns.mono {k k' : ℕ} (h : Returns p k) (hk : k ≤ k') : Returns p k' := by
  rcases h with ⟨r, hr, hsize⟩
  exact ⟨r, hr, hsize.trans hk⟩

lemma Returns.andThen {f : Object → Tokenizer → Parse} {k : ℕ} (hp : Returns p k)
    (hf : ∀ op t, t.size ≤ k → Returns (f op t) k) : Returns (andThen p f) k := by
  rcases hp with ⟨⟨_ | op, t⟩, rfl, hsize⟩
  · exact ⟨_, rfl, hsize⟩
  · exact hf op t hsize

lemma Ends.valueExpr {n : ℕ} (hc : Ends c n) : Ends (valueExpr c) (n + 1) := by
  intro t ht
  unfold Plural.valueExpr
  have hget := t.size_get
  have hsame : Returns (some (none, t)) t.size := ⟨_, rfl, le_rfl⟩
  rcases hnext : t.nextTocken with _ | _ | _ | _ | _ | _ | _ | _ | _ | val | _ | a
  case num => exact ⟨_, rfl, hget⟩
  case var => exact ⟨_, rfl, hget⟩
  case char =>
    dsimp only
    by_cases ha : a = 0x28
    · have hlt : t.get.size < t.size :=
        Tokenizer.size_get_lt (by rw [hnext]; exact Tocken.noConfusion)
      rw [if_pos ha]
      refine ((hc t.get (by omega)).mono hlt.le).andThen ?_
      intro op t' ht'
      have hget' := t'.size_get
      split_ifs
      · exact ⟨_, rfl, hget'.trans ht'⟩
      · exact ⟨_, rfl, hget'.trans ht'⟩
    · rw [if_neg ha]
      exact hsame
  all_goals exact hsame

lemma ne_end_of_mem {l : List Tocken} (hl : Tocken.end' ∉ l) (ht : t.nextTocken ∈ l) :
    t.nextTocken ≠ .end' := fun h => hl (h ▸ ht)

lemma Ends.unExpr (hc : Ends c n) (hfuel : n + 1 ≤ fuel) :
    Ends (unExpr c fuel) (n + 1) := by
  have hrounds : ∀ fuel t, t.size < n + 1 → t.size < fuel →
      Returns (Plural.unExpr c fuel t) t.size := by
    intro fuel
    induction fuel with
    | zero => exact fun t _ h => absurd h (Nat.not_lt_zero _)
    | succ fuel ih =>
      intro t ht hfuel
      unfold Plural.unExpr
      by_cases hmem : t.nextTocken ∈ levelUnary
      · have hlt := Tokenizer.size_get_lt (ne_end_of_mem (by decide) hmem)
        rw [if_pos hmem]
        refine ((ih t.get (by omega) (by omega)).mono hlt.le).andThen ?_
        exact fun op1 t' ht' => ⟨_, rfl, ht'⟩
      · rw [if_neg hmem]
        exact hc.valueExpr t ht
  exact fun t ht => hrounds fuel t ht (by omega)

lemma Ends.binaryExpr {hexpr : Tokenizer → Parse} {list : List Tocken} (h : Ends hexpr n)
    (hlist : Tocken.end' ∉ list) (hfuel : n ≤ fuel) : Ends (binaryExpr hexpr list fuel) n := by
  have hloop : ∀ fuel op1 t, t.size < n → t.size < fuel →
      Returns (binaryLoop hexpr list fuel op1 t) t.size := by
    intro fuel
    induction fuel with
    | zero => exact fun _ t _ h => absurd h (Nat.not_lt_zero _)
    | succ fuel ih =>
      intro op1 t ht hfuel
      unfold binaryLoop
      by_cases hmem : t.nextTocken ∈ list
      · have hlt := Tokenizer.size_get_lt (ne_end_of_mem hlist hmem)
        rw [if_pos hmem]
        refine Returns.mono ((h t.get (by omega)).andThen ?_) hlt.le
        intro op2 t' ht'
        rcases binFactory t.nextTocken with _ | o
        · exact ⟨_, rfl, ht'⟩
        · exact (ih _ t' (by omega) (by omega)).mono ht'
      · rw [if_neg hmem]
        exact ⟨_, rfl, le_rfl⟩
  intro t ht
  refine (h t ht).andThen ?_
  exact fun op1 t' ht' => (hloop fuel op1 t' (by omega) (by omega)).mono ht'

lemma Ends.l1 (hc : Ends c n) (hfuel : n + 1 ≤ fuel) :
    Ends (l1 c fuel) (n + 1) := by
  have h10 : Ends (l10 c fuel) (n + 1) := (hc.unExpr hfuel).binaryExpr (by decide) hfuel
  have h9 : Ends (l9 c fuel) (n + 1) := h10.binaryExpr (by decide) hfuel
  have h8 : Ends (l8 c fuel) (n + 1) := h9.binaryExpr (by decide) hfuel
  have h7 : Ends (l7 c fuel) (n + 1) := h8.binaryExpr (by decide) hfuel
  have h6 : Ends (l6 c fuel) (n + 1) := h7.binaryExpr (by decide) hfuel
  have h5 : Ends (l5 c fuel) (n + 1) := h6.binaryExpr (by decide) hfuel
  have h4 : Ends (l4 c fuel) (n + 1) := h5.binaryExpr (by decide) hfuel
  have h3 : Ends (l3 c fuel) (n + 1) := h4.binaryExpr (by decide) hfuel
  have h2 : Ends (l2 c fuel) (n + 1) := h3.binaryExpr (by decide) hfuel
  exact h2.binaryExpr (by decide) hfuel

lemma ends_condExpr (fuel : ℕ) : Ends (condExpr fuel) fuel := by
  induction fuel with
  | zero => exact fun t h => absurd h (Nat.not_lt_zero _)
  | succ fuel ih =>
    intro t ht
    unfold condExpr
    refine (ih.l1 le_rfl t ht).andThen ?_
    intro cond t1 ht1
    by_cases hnext : t1.nextTocken = .char 0x3F
    · have hlt : t1.get.size < t1.size :=
        Tokenizer.size_get_lt (by rw [hnext]; exact Tocken.noConfusion)
      rw [if_pos hnext]
      refine ((ih t1.get (by omega)).mono (by omega)).andThen ?_
      intro case1 t2 ht2
      have hget := t2.size_get
      by_cases hcolon : t2.nextTocken = .char 0x3A
      · have hlt2 : t2.get.size < t2.size :=
          Tokenizer.size_get_lt (by rw [hcolon]; exact Tocken.noConfusion)
        rw [if_neg (not_not.2 hcolon)]
        refine ((ih t2.get (by omega)).mono (by omega)).andThen ?_
        exact fun case2 t3 ht3 => ⟨_, rfl, ht3⟩
      · rw [if_pos hcolon]
        exact ⟨_, rfl, hget.trans ht2⟩
    · rw [if_neg hnext]
      exact ⟨_, rfl, ht1⟩

/-- The compiler ends on every text. -/
lemma isSome_compile (str : Bytes) : (compile str).isSome := by
  have hsize : (step (str.takeWhile (· ≠ 0))).size < str.length + 1 :=
    Nat.lt_succ_of_le ((size_step _).trans (List.takeWhile_prefix _).length_le)
  rcases ends_condExpr _ _ hsize with ⟨r, hr, -⟩
  unfold compile
  rw [hr]
  rfl

end Plural

end Locale

end Cppcms
