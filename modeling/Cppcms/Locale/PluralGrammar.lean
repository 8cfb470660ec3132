import Cppcms.Locale.Plural

/-!
# Plural forms as expressions of C

The expressions of C that a plural form is made of, and how they are written.  An expression that is
written with the parentheses that precedence and associativity ask for is parsed into the object of
its shape.
-/

namespace Cppcms

namespace Locale

namespace Plural

/-! ## Expressions -/

inductive Expr where
  | var
  | number (v : ℕ)
  | unary (op : UnaryOp) (e : Expr)
  | binary (op : BinaryOp) (e1 e2 : Expr)
  | conditional (e1 e2 e3 : Expr)
  deriving DecidableEq

/-- The object with the shape of an expression. -/
def Expr.object : Expr → Object
  | var => .identity
  | number v => .number (Int32.ofNat v)
  | unary op e => .unary op e.object
  | binary op e1 e2 => .binary op e1.object e2.object
  | conditional e1 e2 e3 => .conditional e1.object e2.object e3.object

/-! ## Their texts -/

def UnaryOp.text : UnaryOp → Bytes
  | lNot => bytes "!"
  | minus => bytes "-"
  | binNot => bytes "~"

def BinaryOp.text : BinaryOp → Bytes
  | mul => bytes "*"
  | div => bytes "/"
  | mod => bytes "%"
  | add => bytes "+"
  | sub => bytes "-"
  | shl => bytes "<<"
  | shr => bytes ">>"
  | gt => bytes ">"
  | lt => bytes "<"
  | gte => bytes ">="
  | lte => bytes "<="
  | eq => bytes "=="
  | neq => bytes "!="
  | binAnd => bytes "&"
  | binXor => bytes "^"
  | binOr => bytes "|"
  | lAnd => bytes "&&"
  | lOr => bytes "||"

/-- The precedence of an operator, from the loosest one on. -/
def BinaryOp.level : BinaryOp → ℕ
  | lOr => 1
  | lAnd => 2
  | binOr => 3
  | binXor => 4
  | binAnd => 5
  | eq => 6
  | neq => 6
  | gt => 7
  | lt => 7
  | gte => 7
  | lte => 7
  | shl => 8
  | shr => 8
  | add => 9
  | sub => 9
  | mul => 10
  | div => 10
  | mod => 10

/-- The texts of an expression at a level of the grammar: 0 is for `?:`, and 11 is for operators
with one operand and for what stands between operators.  The operators of a level associate to the
left. -/
inductive Written : ℕ → Expr → Bytes → Prop
  | var : Written 11 .var (bytes "n")
  | number {v : ℕ} (hv : v < 2 ^ 31) : Written 11 (.number v) (showNat v)
  | paren {e : Expr} {t : Bytes} (h : Written 0 e t) : Written 11 e (bytes "(" ++ (t ++ bytes ")"))
  | unary (op : UnaryOp) {e : Expr} {t : Bytes} (h : Written 11 e t) :
      Written 11 (.unary op e) (op.text ++ t)
  | binary (op : BinaryOp) {e1 e2 : Expr} {t1 t2 : Bytes} (h1 : Written op.level e1 t1)
      (h2 : Written (op.level + 1) e2 t2) :
      Written op.level (.binary op e1 e2) (t1 ++ (op.text ++ t2))
  | conditional {e1 e2 e3 : Expr} {t1 t2 t3 : Bytes} (h1 : Written 1 e1 t1) (h2 : Written 0 e2 t2)
      (h3 : Written 0 e3 t3) :
      Written 0 (.conditional e1 e2 e3) (t1 ++ (bytes "?" ++ (t2 ++ (bytes ":" ++ t3))))
  | looser {l : ℕ} {e : Expr} {t : Bytes} (h : Written (l + 1) e t) : Written l e t
  | blanks {l : ℕ} {e : Expr} {t b b' : Bytes} (h : Written l e t) (hb : ∀ c ∈ b, isBlank c)
      (hb' : ∀ c ∈ b', isBlank c) : Written l e (b ++ (t ++ b'))

variable {e : Expr} {t : Bytes} {l : ℕ} {c c' : Tokenizer → Parse} {fuel fuel' : ℕ}
  {h h' : Tokenizer → Parse} {s : Bytes} {v : ℕ} {k : ℕ}

/-- What is written at a tighter level is written at a looser one. -/
lemma Written.of_le {l l' : ℕ} (h : Written l' e t) (hl : l ≤ l') : Written l e t := by
  rcases Nat.exists_eq_add_of_le hl with ⟨d, rfl⟩
  clear hl
  induction d with
  | zero => exact h
  | succ d ih => exact ih h.looser

/-- The constants of an expression are values of an `int`. -/
def Expr.InRange : Expr → Prop
  | var => True
  | number v => v < 2 ^ 31
  | unary _ e => e.InRange
  | binary _ e1 e2 => e1.InRange ∧ e2.InRange
  | conditional e1 e2 e3 => e1.InRange ∧ e2.InRange ∧ e3.InRange

/-- The level that an expression has without parentheses. -/
def Expr.level : Expr → ℕ
  | binary op _ _ => op.level
  | conditional _ _ _ => 0
  | _ => 11

/-- A text with parentheses, if its level is too loose. -/
def parens (l l' : ℕ) (t : Bytes) : Bytes := if l ≤ l' then t else bytes "(" ++ (t ++ bytes ")")

/-- The text with no more parentheses than are needed, and with blanks around the operators. -/
def Expr.text : Expr → Bytes
  | var => bytes "n"
  | number v => showNat v
  | unary op e => op.text ++ parens 11 e.level e.text
  | binary op e1 e2 =>
    (parens op.level e1.level e1.text ++ bytes " ") ++
      (op.text ++ (bytes " " ++ parens (op.level + 1) e2.level e2.text))
  | conditional e1 e2 e3 =>
    (parens 1 e1.level e1.text ++ bytes " ") ++
      (bytes "?" ++ ((bytes " " ++ (e2.text ++ bytes " ")) ++
      (bytes ":" ++ (bytes " " ++ e3.text))))

/-- The parentheses of an operand are those that its level needs. -/
lemma Written.parens {l' : ℕ} (h : Written l' e t) (hl : l ≤ 11) :
    Written l e (parens l l' t) := by
  unfold Plural.parens
  split_ifs with hle
  · exact h.of_le hle
  · exact (h.of_le (Nat.zero_le _)).paren.of_le hl

set_option maxRecDepth 2048 in
lemma Written.blankBefore (h : Written l e t) : Written l e (bytes " " ++ t) := by
  have hblanks := @Written.blanks l e t (bytes " ") [] h (by decide) (List.forall_mem_nil _)
  rwa [List.append_nil] at hblanks

set_option maxRecDepth 2048 in
lemma Written.blankBehind (h : Written l e t) : Written l e (t ++ bytes " ") :=
  h.blanks (b := []) (List.forall_mem_nil _) (by decide)

/-- Every binary operator is at one of the ten levels. -/
lemma BinaryOp.isBinary (op : BinaryOp) : 1 ≤ op.level ∧ op.level ≤ 10 := by
  cases op
  all_goals exact ⟨by decide, by decide⟩

/-- Every expression can be written. -/
lemma Expr.written (he : e.InRange) : Written e.level e e.text := by
  induction e with
  | var => exact .var
  | number v => exact .number he
  | unary op e ih => exact .unary op ((ih he).parens le_rfl)
  | binary op e1 e2 ih1 ih2 =>
    have hlevel := op.isBinary.2
    exact .binary op ((ih1 he.1).parens (by omega)).blankBehind
      ((ih2 he.2).parens (by omega)).blankBefore
  | conditional e1 e2 e3 ih1 ih2 ih3 =>
    have h2 := (ih2 he.2.1).of_le (Nat.zero_le _)
    have h3 := (ih3 he.2.2).of_le (Nat.zero_le _)
    exact .conditional ((ih1 he.1).parens (by decide)).blankBehind
      h2.blankBehind.blankBefore h3.blankBefore

/-! ## More rounds -/

/-- What comes back does not change with more rounds. -/
def Extends (p q : Parse) : Prop := ∀ r, p = some r → q = some r

lemma Extends.refl (p : Parse) : Extends p p := fun _ h => h

/-- Two steps get their results from two steps that get theirs. -/
lemma Extends.andThen {p q : Parse} {f g : Object → Tokenizer → Parse} (h : Extends p q)
    (hf : ∀ op t, Extends (f op t) (g op t)) : Extends (andThen p f) (andThen q g) := by
  intro r hr
  rcases p with _ | ⟨op, t⟩
  · cases hr
  · rw [h _ rfl]
    rcases op with _ | op
    · exact hr
    · exact hf op t r hr

lemma extends_valueExpr (hc : ∀ t, Extends (c t) (c' t)) (t : Tokenizer) :
    Extends (valueExpr c t) (valueExpr c' t) := by
  unfold valueExpr
  rcases t.nextTocken with _ | _ | _ | _ | _ | _ | _ | _ | _ | val | _ | a
  case char =>
    dsimp only
    split_ifs
    · exact (hc _).andThen fun _ _ => .refl _
    · exact .refl _
  all_goals exact .refl _

lemma extends_unExpr (hc : ∀ t, Extends (c t) (c' t)) (hle : fuel ≤ fuel') (t : Tokenizer) :
    Extends (unExpr c fuel t) (unExpr c' fuel' t) := by
  induction fuel generalizing fuel' t with
  | zero => exact fun _ h => by cases h
  | succ fuel ih =>
    rcases fuel' with _ | fuel'
    · exact absurd hle (Nat.not_succ_le_zero _)
    · unfold unExpr
      split_ifs
      · exact (ih (Nat.le_of_succ_le_succ hle) _).andThen fun _ _ => .refl _
      · exact extends_valueExpr hc t

lemma extends_binaryLoop (hh : ∀ t, Extends (h t) (h' t)) (list : List Tocken) (hle : fuel ≤ fuel')
    (op1 : Object) (t : Tokenizer) :
    Extends (binaryLoop h list fuel op1 t) (binaryLoop h' list fuel' op1 t) := by
  induction fuel generalizing fuel' op1 t with
  | zero => exact fun _ h => by cases h
  | succ fuel ih =>
    rcases fuel' with _ | fuel'
    · exact absurd hle (Nat.not_succ_le_zero _)
    · unfold binaryLoop
      split_ifs
      · refine (hh _).andThen fun op2 t' => ?_
        rcases binFactory t.nextTocken with _ | o
        · exact .refl _
        · exact ih (Nat.le_of_succ_le_succ hle) _ t'
      · exact .refl _

/-- More rounds do not change an expression of one level. -/
lemma extends_binaryExpr (hh : ∀ t, Extends (h t) (h' t)) (list : List Tocken) (hle : fuel ≤ fuel')
    (t : Tokenizer) :
    Extends (binaryExpr h list fuel t) (binaryExpr h' list fuel' t) :=
  (hh t).andThen fun op1 t' => extends_binaryLoop hh list hle op1 t'

/-! ## The levels of the parser -/

/-- The operators of a level. -/
def levelList : ℕ → List Tocken
  | 1 => level1
  | 2 => level2
  | 3 => level3
  | 4 => level4
  | 5 => level5
  | 6 => level6
  | 7 => level7
  | 8 => level8
  | 9 => level9
  | 10 => level10
  | _ => []

/-- The function of a level. -/
def levelExpr (c : Tokenizer → Parse) (fuel : ℕ) : ℕ → Tokenizer → Parse
  | 1 => l1 c fuel
  | 2 => l2 c fuel
  | 3 => l3 c fuel
  | 4 => l4 c fuel
  | 5 => l5 c fuel
  | 6 => l6 c fuel
  | 7 => l7 c fuel
  | 8 => l8 c fuel
  | 9 => l9 c fuel
  | 10 => l10 c fuel
  | _ => unExpr c fuel

/-- A level of operators with two operands. -/
def IsBinary (l : ℕ) : Prop := 1 ≤ l ∧ l ≤ 10

/-- A level is a chain of operands of the next one. -/
lemma levelExpr_eq (c : Tokenizer → Parse) (fuel : ℕ) (hl : IsBinary l) :
    levelExpr c fuel l = binaryExpr (levelExpr c fuel (l + 1)) (levelList l) fuel := by
  rcases hl with ⟨h1, h10⟩
  interval_cases l
  all_goals rfl

/-- More rounds do not change an expression of any level. -/
lemma extends_levelExpr (hc : ∀ t, Extends (c t) (c' t)) (hle : fuel ≤ fuel') (hl : 1 ≤ l ∧ l ≤ 11)
    (t : Tokenizer) :
    Extends (levelExpr c fuel l t) (levelExpr c' fuel' l t) := by
  -- the levels call each other up to the last one
  have hup : ∀ d l, 1 ≤ l → l + d = 11 →
      ∀ t, Extends (levelExpr c fuel l t) (levelExpr c' fuel' l t) := by
    intro d
    induction d with
    | zero =>
      rintro l - rfl t
      exact extends_unExpr hc hle t
    | succ d ih =>
      intro l h1 hd t
      have hbinary : IsBinary l := ⟨h1, by omega⟩
      rw [levelExpr_eq c fuel hbinary, levelExpr_eq c' fuel' hbinary]
      exact extends_binaryExpr (ih (l + 1) (by omega) (by omega)) _ hle t
  exact hup (11 - l) l hl.1 (by omega) t

lemma extends_condExpr (hle : fuel ≤ fuel') (t : Tokenizer) :
    Extends (condExpr fuel t) (condExpr fuel' t) := by
  induction fuel generalizing fuel' t with
  | zero => exact fun _ h => by cases h
  | succ fuel ih =>
    rcases fuel' with _ | fuel'
    · exact absurd hle (Nat.not_succ_le_zero _)
    · have hc : ∀ t, Extends (condExpr fuel t) (condExpr fuel' t) := ih (Nat.le_of_succ_le_succ hle)
      have hl1 : Extends (l1 (condExpr fuel) (fuel + 1) t) (l1 (condExpr fuel') (fuel' + 1) t) :=
        extends_levelExpr hc hle (l := 1) ⟨le_rfl, by omega⟩ t
      unfold condExpr
      refine hl1.andThen fun cond t1 => ?_
      split_ifs
      · refine (hc _).andThen fun case1 t2 => ?_
        split_ifs
        · exact .refl _
        · exact (hc _).andThen fun _ _ => .refl _
      · exact .refl _

/-- The function for a level of the grammar. -/
def run (l fuel : ℕ) : Tokenizer → Parse :=
  if l = 0 then condExpr fuel else levelExpr (condExpr fuel) (fuel + 1) l

/-- What the function for a level does behind an operand. -/
def cont (l fuel : ℕ) (op1 : Object) (t : Tokenizer) : Parse :=
  if 1 ≤ l ∧ l ≤ 10 then binaryLoop (run (l + 1) fuel) (levelList l)
    (fuel + 1) op1 t else some (some op1, t)

/-- More rounds change no result. -/
lemma extends_run (hl : l ≤ 11) (hle : fuel ≤ fuel') (t : Tokenizer) :
    Extends (run l fuel t) (run l fuel' t) := by
  unfold run
  split_ifs with h0
  · exact extends_condExpr hle t
  · exact extends_levelExpr (extends_condExpr hle) (Nat.succ_le_succ hle)
      ⟨Nat.one_le_iff_ne_zero.2 h0, hl⟩ t

/-- A binary level begins with an operand of the next level. -/
lemma run_eq (fuel : ℕ) (hl : IsBinary l) (t : Tokenizer) :
    run l fuel t = andThen (run (l + 1) fuel t)
      (binaryLoop (run (l + 1) fuel) (levelList l) (fuel + 1)) := by
  have h0 : l ≠ 0 := Nat.one_le_iff_ne_zero.1 hl.1
  unfold run
  rw [if_neg h0, if_neg (Nat.succ_ne_zero l), levelExpr_eq _ _ hl]
  rfl

/-! ## The tokens of a text -/

def BinaryOp.tocken : BinaryOp → Tocken
  | mul => .char 0x2A
  | div => .char 0x2F
  | mod => .char 0x25
  | add => .char 0x2B
  | sub => .char 0x2D
  | shl => .shl
  | shr => .shr
  | gt => .char 0x3E
  | lt => .char 0x3C
  | gte => .gte
  | lte => .lte
  | eq => .eq
  | neq => .neq
  | binAnd => .char 0x26
  | binXor => .char 0x5E
  | binOr => .char 0x7C
  | lAnd => .and
  | lOr => .or

def UnaryOp.tocken : UnaryOp → Tocken
  | lNot => .char 0x21
  | minus => .char 0x2D
  | binNot => .char 0x7E

/-- A character that makes no token of two characters with the one before it. -/
def Apart (c : UInt8) : Prop := c ≠ 0x3C ∧ c ≠ 0x3E ∧ c ≠ 0x26 ∧ c ≠ 0x7C ∧ c ≠ 0x3D

/-- A character that does not continue a number. -/
def NoDigit (c : UInt8) : Prop := digitValue c = 16 ∧ c ≠ 0x78 ∧ c ≠ 0x58

instance (c : UInt8) : Decidable (Apart c) := by
  unfold Apart
  infer_instance

instance (c : UInt8) : Decidable (NoDigit c) := by
  unfold NoDigit
  infer_instance

/-- Blanks before a token are skipped. -/
lemma step_blanks {b : Bytes} (hb : ∀ c ∈ b, isBlank c) (s : Bytes) : step (b ++ s) = step s := by
  unfold step
  rw [List.dropWhile_append_of_pos hb]

set_option maxRecDepth 2048 in
/-- A character in front of one that stands apart is a token of its own. -/
lemma find?_longTockens (hs : ∀ d ∈ s.head?, Apart d) (c : UInt8) :
    (longTockens.find? fun x => x.1.isPrefixOf (c :: s)) = none := by
  rw [List.find?_eq_none]
  intro x hx
  rcases s with _ | ⟨d, s⟩
  · have hlength : ∀ x ∈ longTockens, x.1.length = 2 := by decide
    intro hpre
    have hle := (List.isPrefixOf_iff_prefix.1 hpre).length_le
    rw [hlength x hx] at hle
    exact absurd hle (by simp)
  · have hsecond : ∀ x ∈ longTockens, ∀ b ∈ x.1[1]?, ¬ Apart b := by decide
    intro hpre
    have hget : x.1[1]? = some d := by
      have hlength : ∀ x ∈ longTockens, x.1.length = 2 := by decide
      rcases List.isPrefixOf_iff_prefix.1 hpre with ⟨r, hr⟩
      have hat : (x.1 ++ r)[1]? = (c :: d :: s)[1]? := by rw [hr]
      rw [List.getElem?_append_left (by rw [hlength x hx]; decide)] at hat
      exact hat
    exact hsecond x hx d hget (hs d rfl)

/-- A character that begins no other token is one of its own. -/
lemma step_char {c : UInt8} (hblank : isBlank c = false) (hn : c ≠ 0x6E)
    (hdigit : isDigit c = false) (hs : ∀ d ∈ s.head?, Apart d) : step (c :: s) = ⟨s, .char c⟩ := by
  unfold step stepAt
  rw [List.dropWhile_cons_of_neg (by rw [hblank]; exact Bool.false_ne_true), find?_longTockens hs]
  dsimp only
  rw [if_neg hn, if_neg (by rw [hdigit]; exact Bool.false_ne_true)]

/-- The token of a binary operator. -/
lemma step_binary (op : BinaryOp) (hs : ∀ d ∈ s.head?, Apart d) :
    step (op.text ++ s) = ⟨s, op.tocken⟩ := by
  cases op
  case shl => rfl
  case shr => rfl
  case gte => rfl
  case lte => rfl
  case eq => rfl
  case neq => rfl
  case lAnd => rfl
  case lOr => rfl
  all_goals exact step_char (by decide) (by decide) (by decide) hs

/-- The token of a unary operator. -/
lemma step_unary (op : UnaryOp) (hs : ∀ d ∈ s.head?, Apart d) :
    step (op.text ++ s) = ⟨s, op.tocken⟩ := by
  cases op
  all_goals exact step_char (by decide) (by decide) (by decide) hs

/-- The digits are read up to the first octet that is none. -/
lemma strtolBase_append {base : ℕ} (hbase : base ≤ 16) {t s : Bytes}
    (ht : ∀ c ∈ t, digitValue c < base) (hs : ∀ c ∈ s.head?, NoDigit c) :
    strtolBase base (t ++ s) = (min (ofDigitList base digitValue t) (2 ^ 63 - 1), s) := by
  have hpos : ∀ c ∈ t, decide (digitValue c < base) = true := fun c hc => decide_eq_true (ht c hc)
  have htake : s.takeWhile (fun c => decide (digitValue c < base)) = [] := by
    rcases s with _ | ⟨c, s⟩
    · rfl
    · have hc := (hs c rfl).1
      exact List.takeWhile_cons_of_neg (by rw [decide_eq_true_eq]; omega)
  have hdrop : s.dropWhile (fun c => decide (digitValue c < base)) = s := by
    rcases s with _ | ⟨c, s⟩
    · rfl
    · have hc := (hs c rfl).1
      exact List.dropWhile_cons_of_neg (by rw [decide_eq_true_eq]; omega)
  unfold strtolBase
  rw [List.takeWhile_append_of_pos hpos, List.dropWhile_append_of_pos hpos, htake, hdrop,
    List.append_nil]

/-- A number is written with decimal digits. -/
lemma digitValue_of_mem_showNat {c : UInt8} (hc : c ∈ showNat v) : digitValue c < 10 := by
  rcases List.mem_map.1 hc with ⟨a, ha, rfl⟩
  rcases exists_digit_of_mem_toDigits (by decide) ha with ⟨d, hd, rfl⟩
  have hdigit : ∀ d < 10, digitValue (Nat.digitChar d).toUInt8 < 10 := by decide
  exact hdigit d hd

set_option maxRecDepth 2048 in
/-- A number in decimal notation is no octal and no hexadecimal one. -/
lemma strtol_showNat (hv : v < 2 ^ 31) (hs : ∀ c ∈ s.head?, NoDigit c) :
    strtol (showNat v ++ s) = (v, s) := by
  unfold strtol
  by_cases h0 : v = 0
  · have hzero : showNat 0 ++ s = 0x30 :: s := rfl
    have hhead : (0x30 :: s : Bytes).head? = some 0x30 := rfl
    have hhex : ¬ (((0x30 :: s : Bytes)[1]? = some 0x78 ∨ (0x30 :: s : Bytes)[1]? = some 0x58) ∧
        ((0x30 :: s : Bytes)[2]?.any fun c => digitValue c < 16) = true) := by
      rintro ⟨hx, -⟩
      rcases s with _ | ⟨c, s⟩
      · rcases hx with hx | hx
        · cases hx
        · cases hx
      · rcases hx with hx | hx
        · exact (hs c rfl).2.1 (Option.some.inj hx)
        · exact (hs c rfl).2.2 (Option.some.inj hx)
    rw [h0, hzero, if_pos hhead, if_neg hhex]
    exact strtolBase_append (by decide) (show ∀ c ∈ [0x30], digitValue c < 8 by decide) hs
  · have hhead : (showNat v ++ s).head? ≠ some 0x30 := by
      rcases head_toDigits (b := 10) (by decide) h0 with ⟨d, hpos, hd, hhead⟩
      unfold showNat
      rw [List.head?_append, List.head?_map, hhead]
      have hdigit : ∀ d < 10, 0 < d → some (Nat.digitChar d).toUInt8 ≠ some 0x30 := by decide
      exact hdigit d hd hpos
    have hvalue : ofDigitList 10 digitValue (showNat v) = v :=
      ofDigitList_toDigits (by decide) (by decide) v
    rw [if_neg hhead, strtolBase_append (by decide) (fun c hc => digitValue_of_mem_showNat hc) hs,
      hvalue, Nat.min_eq_left (by omega)]

/-- A number is one token. -/
lemma step_showNat (hv : v < 2 ^ 31) (hs : ∀ c ∈ s.head?, NoDigit c) :
    step (showNat v ++ s) = ⟨s, .num (Int32.ofNat v)⟩ := by
  have hread := strtol_showNat hv hs
  rcases hshow : showNat v with _ | ⟨c, t⟩
  · exact absurd hshow (showNat_ne_nil v)
  have hdigit : isDigit c = true := isDigit_of_mem_showNat (n := v) (hshow ▸ List.mem_cons_self)
  have hblank : isBlank c = false := by
    by_contra h
    unfold isBlank at h
    simp only [Bool.not_eq_false, Bool.or_eq_true, decide_eq_true_eq] at h
    rcases h with ((rfl | rfl) | rfl) | rfl
    all_goals exact absurd hdigit (by decide)
  have hlong : (longTockens.find? fun x => x.1.isPrefixOf (c :: (t ++ s))) = none := by
    rw [List.find?_eq_none]
    intro x hx hpre
    have hfirst : ∀ x ∈ longTockens, ∃ a b, x.1 = [a, b] ∧ isDigit a = false := by
      intro x hx
      fin_cases hx
      all_goals exact ⟨_, _, rfl, by decide⟩
    rcases hfirst x hx with ⟨a, b, hx', ha⟩
    rw [hx'] at hpre
    rcases List.isPrefixOf_iff_prefix.1 hpre with ⟨r, hr⟩
    have hac : a = c := (List.cons.inj hr).1
    rw [hac, hdigit] at ha
    cases ha
  rw [hshow] at hread
  rw [List.cons_append] at hread ⊢
  unfold step stepAt
  rw [List.dropWhile_cons_of_neg (by rw [hblank]; exact Bool.false_ne_true), hlong]
  dsimp only
  rw [if_neg, if_pos hdigit, hread]
  rintro rfl
  exact absurd hdigit (by decide)

/-! ## The texts are parsed -/

/-- A text of an expression starts with a character that stands apart. -/
lemma Written.head (h : Written l e t) : ∃ c r, t = c :: r ∧ Apart c := by
  induction h with
  | var => exact ⟨0x6E, [], rfl, by decide⟩
  | @number v hv =>
    rcases hshow : showNat v with _ | ⟨c, t⟩
    · exact absurd hshow (showNat_ne_nil v)
    · have hdigit : isDigit c = true := isDigit_of_mem_showNat (n := v) (hshow ▸ List.mem_cons_self)
      refine ⟨c, t, rfl, ?_⟩
      refine ⟨?_, ?_, ?_, ?_, ?_⟩
      all_goals
        rintro rfl
        exact absurd hdigit (by decide)
  | paren h ih => exact ⟨0x28, _, rfl, by decide⟩
  | unary op h ih =>
    cases op with
    | lNot => exact ⟨0x21, _, rfl, by decide⟩
    | minus => exact ⟨0x2D, _, rfl, by decide⟩
    | binNot => exact ⟨0x7E, _, rfl, by decide⟩
  | binary op h1 h2 ih1 ih2 =>
    rcases ih1 with ⟨c, r, rfl, hc⟩
    exact ⟨c, _, rfl, hc⟩
  | conditional h1 h2 h3 ih1 ih2 ih3 =>
    rcases ih1 with ⟨c, r, rfl, hc⟩
    exact ⟨c, _, rfl, hc⟩
  | looser h ih => exact ih
  | @blanks l e t b b' h hb hb' ih =>
    rcases b with _ | ⟨a, b⟩
    · rcases ih with ⟨c, r, rfl, hc⟩
      exact ⟨c, _, rfl, hc⟩
    · refine ⟨a, _, rfl, ?_⟩
      have ha := hb a List.mem_cons_self
      refine ⟨?_, ?_, ?_, ?_, ?_⟩
      all_goals
        rintro rfl
        exact absurd ha (by decide)

/-- The first octet of an expression is no part of a longer operator. -/
lemma Written.head_append (h : Written l e t) (s : Bytes) :
    ∀ d ∈ (t ++ s).head?, Apart d := by
  rcases h.head with ⟨c, r, rfl, hc⟩
  intro d hd
  cases hd
  exact hc

/-- What may stand behind an expression of a level: no character of a number, no operator that binds
closer, and behind one of the loosest level no question mark. -/
structure Follow (l : ℕ) (s : Bytes) : Prop where
  noDigit : ∀ c ∈ s.head?, NoDigit c
  notMem : ∀ k, l < k → (step s).nextTocken ∉ levelList k
  question : l = 0 → (step s).nextTocken ≠ .char 0x3F

/-- Above the binary levels there are no operators. -/
lemma levelList_of_le (hk : 11 ≤ k) : levelList k = [] := by
  rcases Nat.exists_eq_add_of_le' hk with ⟨d, rfl⟩
  rfl

/-- An operator belongs to its own level only. -/
lemma mem_levelList {op : BinaryOp} : op.tocken ∈ levelList k ↔ k = op.level := by
  constructor
  · intro h
    by_cases hk : k < 11
    · have hsmall : ∀ k < 11, op.tocken ∈ levelList k → k = op.level := by
        cases op
        all_goals decide
      exact hsmall k hk h
    · rw [levelList_of_le (not_lt.1 hk)] at h
      cases h
  · rintro rfl
    cases op
    all_goals decide

/-- The factory knows every binary operator by its token. -/
lemma binFactory_tocken (op : BinaryOp) : binFactory op.tocken = some op := by
  cases op
  all_goals rfl

/-- The factory knows every unary operator by its token. -/
lemma unaryFactory_tocken (op : UnaryOp) : unaryFactory op.tocken = some op := by
  cases op
  all_goals rfl

lemma UnaryOp.mem_levelUnary (op : UnaryOp) : op.tocken ∈ levelUnary := by
  cases op
  all_goals decide

/-- No level has the other tokens. -/
lemma notMem_levelList {t : Tocken} (ht : binFactory t = none) (k : ℕ) : t ∉ levelList k := by
  intro h
  have hsome : ∀ t ∈ levelList k, (binFactory t).isSome := by
    unfold levelList
    split
    all_goals decide
  have hisSome := hsome t h
  rw [ht] at hisSome
  cases hisSome

lemma Follow.blanks {l : ℕ} {s : Bytes} (h : Follow l s) {b : Bytes} (hb : ∀ c ∈ b, isBlank c) :
    Follow l (b ++ s) := by
  refine ⟨?_, ?_, ?_⟩
  · rcases b with _ | ⟨a, b⟩
    · exact h.noDigit
    · intro c hc
      cases hc
      have ha := hb a List.mem_cons_self
      unfold isBlank at ha
      simp only [Bool.or_eq_true, decide_eq_true_eq] at ha
      rcases ha with ((rfl | rfl) | rfl) | rfl
      all_goals decide
  · rw [step_blanks hb]
    exact h.notMem
  · rw [step_blanks hb]
    exact h.question

/-- Behind an operand stands an operator of its level. -/
lemma follow_binary (op : BinaryOp) (hs : ∀ d ∈ s.head?, Apart d) :
    Follow op.level (op.text ++ s) := by
  have hlevel := op.isBinary.1
  refine ⟨?_, ?_, ?_⟩
  · intro c hc
    cases op
    all_goals
      cases hc
      decide
  · intro k hk hmem
    rw [step_binary op hs] at hmem
    exact hk.ne' (mem_levelList.1 hmem)
  · intro h0
    omega

/-- A closing parenthesis or a colon ends an expression, and a question mark ends one that is not of
the loosest level. -/
lemma follow_char {c : UInt8} (hstep : step (c :: s) = ⟨s, .char c⟩) (hdigit : NoDigit c)
    (hc : binFactory (.char c) = none) (hquestion : l = 0 → c ≠ 0x3F) : Follow l (c :: s) := by
  refine ⟨?_, ?_, ?_⟩
  · intro d hd
    cases hd
    exact hdigit
  · intro k _
    rw [hstep]
    exact notMem_levelList hc k
  · intro hl
    rw [hstep]
    exact fun h => hquestion hl (Tocken.char.inj h)

/-- The end of the text follows every expression. -/
lemma follow_nil : Follow 0 [] := by
  have hstep : (step []).nextTocken = .end' := rfl
  refine ⟨(fun c hc => by cases hc), fun k _ => ?_, fun _ => ?_⟩
  · rw [hstep]
    exact notMem_levelList rfl k
  · rw [hstep]
    exact Tocken.noConfusion

/-- The second step goes on where the first one has stopped. -/
lemma andThen_some (op : Object) (t : Tokenizer) (f : Object → Tokenizer → Parse) :
    andThen (some (some op, t)) f = f op t := rfl

/-- A binary level goes on with its operators. -/
lemma cont_binary (hl : IsBinary l) (fuel : ℕ) (op1 : Object) (t : Tokenizer) :
    cont l fuel op1 t = binaryLoop (run (l + 1) fuel) (levelList l) (fuel + 1) op1 t := if_pos hl

/-- A level stops at a token that is none of its operators. -/
lemma cont_of_notMem {t : Tokenizer} (ht : t.nextTocken ∉ levelList l) (fuel : ℕ) (op1 : Object) :
    cont l fuel op1 t = some (some op1, t) := by
  unfold cont
  split_ifs
  · exact if_neg ht
  · rfl

/-- What the function for a level makes of a text: it goes on behind the expression with its object.
-/
def Parses (l : ℕ) (e : Expr) (t : Bytes) : Prop :=
  ∀ s, Follow l s → ∀ fuel r, cont l fuel e.object (step s) = some r →
    ∃ fuel', run l fuel' (step (t ++ s)) = some r

/-- An expression is taken whole where nothing follows that its level takes. -/
lemma Parses.whole (h : Parses l e t) (hs : Follow l s)
    (hnext : (step s).nextTocken ∉ levelList l) :
    ∃ fuel, run l fuel (step (t ++ s)) = some (some e.object, step s) :=
  h s hs 0 _ (cont_of_notMem hnext 0 e.object)

lemma run_unary (fuel : ℕ) : run 11 fuel = unExpr (condExpr fuel) (fuel + 1) := rfl

lemma run_zero (fuel : ℕ) : run 0 fuel = condExpr fuel := rfl

lemma cont_unary (fuel : ℕ) (op1 : Object) (t : Tokenizer) :
    cont 11 fuel op1 t = some (some op1, t) := rfl

lemma parses_var : Parses 11 .var (bytes "n") := by
  intro s hs fuel r hr
  have hstep : step (bytes "n" ++ s) = ⟨s, .var⟩ := rfl
  refine ⟨0, ?_⟩
  rw [hstep, ← hr, cont_unary]
  rfl

lemma parses_number (hv : v < 2 ^ 31) : Parses 11 (.number v) (showNat v) := by
  intro s hs fuel r hr
  refine ⟨0, ?_⟩
  rw [step_showNat hv hs.noDigit, ← hr, cont_unary, run_unary, unExpr]
  exact if_neg (by simp [levelUnary])

/-- A parenthesis is an operand. -/
lemma Parses.paren (h : Parses 0 e t) : Parses 11 e (bytes "(" ++ (t ++ bytes ")")) := by
  intro s hs fuel r hr
  have hclose : step (0x29 :: s) = ⟨s, .char 0x29⟩ := rfl
  have hnext : (step (0x29 :: s)).nextTocken ∉ levelList 0 := List.not_mem_nil
  have hfollow : Follow 0 (0x29 :: s) := follow_char hclose (by decide) rfl fun _ => by decide
  rcases h.whole hfollow hnext with ⟨fuel', hrun⟩
  have htext : bytes "(" ++ (t ++ bytes ")") ++ s = 0x28 :: (t ++ 0x29 :: s) := by
    rw [List.append_assoc, List.append_assoc]
    rfl
  have hopen : step (0x28 :: (t ++ 0x29 :: s)) = ⟨t ++ 0x29 :: s, .char 0x28⟩ := rfl
  refine ⟨fuel', ?_⟩
  have hunary : Tocken.char 0x28 ∉ levelUnary := by decide
  rw [htext, hopen, ← hr, cont_unary, run_unary, unExpr, if_neg hunary, valueExpr]
  dsimp only
  rw [if_pos rfl]
  show andThen (run 0 fuel' (step (t ++ 0x29 :: s))) _ = _
  rw [hrun, hclose, andThen_some, if_neg (not_not.2 rfl)]
  rfl

/-- A unary operator and its operand. -/
lemma Parses.unary (op : UnaryOp) (h : Parses 11 e t) (hhead : ∀ s, ∀ d ∈ (t ++ s).head?, Apart d) :
    Parses 11 (.unary op e) (op.text ++ t) := by
  intro s hs fuel r hr
  rcases h.whole hs List.not_mem_nil with ⟨fuel', hrun⟩
  have hmore := extends_unExpr (extends_condExpr (Nat.le_succ fuel')) (le_refl (fuel' + 1)) _ _ hrun
  refine ⟨fuel' + 1, ?_⟩
  rw [List.append_assoc, step_unary op (hhead s), ← hr, cont_unary, run_unary, unExpr,
    if_pos op.mem_levelUnary]
  show andThen (unExpr (condExpr (fuel' + 1)) (fuel' + 1) (step (t ++ s))) _ = _
  rw [hmore]
  show some ((unaryFactory op.tocken).map _, _) = _
  rw [unaryFactory_tocken]
  rfl

/-- The left operand is of the same level, the right one of the next. -/
lemma Parses.binary (op : BinaryOp) {e1 e2 : Expr} {t1 t2 : Bytes} (h1 : Parses op.level e1 t1)
    (h2 : Parses (op.level + 1) e2 t2) (hhead : ∀ s, ∀ d ∈ (t2 ++ s).head?, Apart d) :
    Parses op.level (.binary op e1 e2) (t1 ++ (op.text ++ t2)) := by
  intro s hs fuel r hr
  have hlevel := op.isBinary
  have hfollow2 : Follow (op.level + 1) s :=
    ⟨hs.noDigit, fun k hk => hs.notMem k (Nat.lt_of_succ_lt hk), fun h0 =>
      absurd h0 (Nat.succ_ne_zero _)⟩
  rcases h2.whole hfollow2 (hs.notMem _ (Nat.lt_succ_self _)) with ⟨fuel2, hrun2⟩
  have htext : t1 ++ (op.text ++ t2) ++ s = t1 ++ (op.text ++ (t2 ++ s)) := by
    rw [List.append_assoc, List.append_assoc]
  have hstep := step_binary op (hhead s)
  -- the loop takes the operator and the operand behind it
  have hcont : cont op.level (max fuel fuel2 + 1) e1.object (step (op.text ++ (t2 ++ s))) =
      some r := by
    have hle : max fuel fuel2 ≤ max fuel fuel2 + 1 := Nat.le_succ _
    have hoperand := extends_run (show op.level + 1 ≤ 11 from Nat.succ_le_succ hlevel.2)
      ((Nat.le_max_right fuel fuel2).trans hle) _ _ hrun2
    have hloop : binaryLoop (run (op.level + 1) (max fuel fuel2 + 1)) (levelList op.level)
      (max fuel fuel2 + 1)
        (.binary op e1.object e2.object) (step s) = some r := by
      rw [cont_binary hlevel] at hr
      refine extends_binaryLoop
        (fun t => extends_run (Nat.succ_le_succ hlevel.2) ?_ t) _ ?_ _ _ _ hr
      · exact (Nat.le_max_left fuel fuel2).trans hle
      · exact Nat.succ_le_succ (Nat.le_max_left fuel fuel2)
    rw [cont_binary hlevel, hstep, binaryLoop, if_pos (mem_levelList.2 rfl)]
    show andThen (run (op.level + 1) (max fuel fuel2 + 1) (step (t2 ++ s))) _ = _
    rw [hoperand]
    rw [andThen_some]
    dsimp only
    rw [binFactory_tocken]
    exact hloop
  rw [htext]
  exact h1 _ (follow_binary op (hhead s)) _ _ hcont

/-- The condition is of the first binary level, the alternatives of any. -/
lemma Parses.conditional {e1 e2 e3 : Expr} {t1 t2 t3 : Bytes} (h1 : Parses 1 e1 t1)
    (h2 : Parses 0 e2 t2) (h3 : Parses 0 e3 t3) :
    Parses 0 (.conditional e1 e2 e3) (t1 ++ (bytes "?" ++ (t2 ++ (bytes ":" ++ t3)))) := by
  intro s hs fuel r hr
  have hquestion : step (0x3F :: (t2 ++ 0x3A :: (t3 ++ s))) =
    ⟨t2 ++ 0x3A :: (t3 ++ s), .char 0x3F⟩ := rfl
  have hcolon : step (0x3A :: (t3 ++ s)) = ⟨t3 ++ s, .char 0x3A⟩ := rfl
  have hfollow1 : Follow 1 (0x3F :: (t2 ++ 0x3A :: (t3 ++ s))) :=
    follow_char hquestion (by decide) rfl fun h => absurd h one_ne_zero
  have hfollow2 : Follow 0 (0x3A :: (t3 ++ s)) := follow_char hcolon (by decide) rfl fun _ => by
    decide
  have hnext1 : (step (0x3F :: (t2 ++ 0x3A :: (t3 ++ s)))).nextTocken ∉ levelList 1 := by
    rw [hquestion]
    exact notMem_levelList rfl 1
  rcases h1.whole hfollow1 hnext1 with ⟨fuel1, hrun1⟩
  rcases h2.whole hfollow2 List.not_mem_nil with ⟨fuel2, hrun2⟩
  rcases h3.whole hs List.not_mem_nil with ⟨fuel3, hrun3⟩
  have htext : t1 ++ (bytes "?" ++ (t2 ++ (bytes ":" ++ t3))) ++ s = t1 ++ 0x3F ::
      (t2 ++ 0x3A :: (t3 ++ s)) := by
    simp only [List.append_assoc]
    rfl
  have hmore1 := extends_run (by omega) (show fuel1 ≤ fuel1 + fuel2 + fuel3 by omega) _ _ hrun1
  have hmore2 := extends_run (by omega) (show fuel2 ≤ fuel1 + fuel2 + fuel3 by omega) _ _ hrun2
  have hmore3 := extends_run (by omega) (show fuel3 ≤ fuel1 + fuel2 + fuel3 by omega) _ _ hrun3
  refine ⟨fuel1 + fuel2 + fuel3 + 1, ?_⟩
  rw [htext, run_zero, condExpr]
  show andThen (run 1 (fuel1 + fuel2 + fuel3) _) _ = _
  rw [hmore1, hquestion, andThen_some, if_pos rfl]
  show andThen (run 0 (fuel1 + fuel2 + fuel3) (step (t2 ++ 0x3A :: (t3 ++ s)))) _ = _
  rw [hmore2, hcolon, andThen_some, if_neg (not_not.2 rfl)]
  show andThen (run 0 (fuel1 + fuel2 + fuel3) (step (t3 ++ s))) _ = _
  rw [hmore3]
  exact hr

/-- An expression of a level is one of the level before. -/
lemma Parses.looser (hl : l + 1 ≤ 11) (h : Parses (l + 1) e t) : Parses l e t := by
  intro s hs fuel r hr
  have hfollow : Follow (l + 1) s :=
    ⟨hs.noDigit, fun k hk => hs.notMem k (Nat.lt_of_succ_lt hk), fun h0 =>
      absurd h0 (Nat.succ_ne_zero _)⟩
  rcases h.whole hfollow (hs.notMem _ (Nat.lt_succ_self _)) with ⟨fuel1, hrun1⟩
  by_cases h0 : l = 0
  · subst h0
    refine ⟨fuel1 + 1, ?_⟩
    rw [run_zero, condExpr]
    show andThen (run 1 fuel1 (step (t ++ s))) _ = _
    rw [hrun1]
    exact (if_neg (hs.question rfl)).trans hr
  · have hbinary : IsBinary l := ⟨Nat.one_le_iff_ne_zero.2 h0, Nat.le_of_succ_le_succ hl⟩
    have hoperand := extends_run hl (Nat.le_max_right fuel fuel1) _ _ hrun1
    refine ⟨max fuel fuel1, ?_⟩
    rw [run_eq _ hbinary, hoperand]
    rw [cont_binary hbinary] at hr
    exact extends_binaryLoop (fun t => extends_run hl (Nat.le_max_left fuel fuel1) t) _
      (Nat.succ_le_succ (Nat.le_max_left fuel fuel1)) _ _ _ hr

/-- Blanks around an expression do not matter. -/
lemma Parses.blanks {l : ℕ} {e : Expr} {t b b' : Bytes} (h : Parses l e t) (hb : ∀ c ∈ b, isBlank c)
    (hb' : ∀ c ∈ b', isBlank c) : Parses l e (b ++ (t ++ b')) := by
  intro s hs fuel r hr
  rw [← step_blanks hb'] at hr
  rw [List.append_assoc, List.append_assoc, step_blanks hb]
  exact h _ (hs.blanks hb') fuel r hr

/-- There is no level beyond the operands. -/
lemma Written.level_le (h : Written l e t) : l ≤ 11 := by
  induction h with
  | var => exact le_rfl
  | number => exact le_rfl
  | paren => exact le_rfl
  | unary => exact le_rfl
  | binary op => exact op.isBinary.2.trans (Nat.le_succ _)
  | conditional => exact Nat.zero_le _
  | looser h ih => exact Nat.le_of_succ_le ih
  | blanks h hb hb' ih => exact ih

/-- Every written expression is parsed as itself. -/
lemma Written.parses (h : Written l e t) : Parses l e t := by
  induction h with
  | var => exact parses_var
  | number hv => exact parses_number hv
  | paren h ih => exact ih.paren
  | unary op h ih => exact ih.unary op h.head_append
  | binary op h1 h2 ih1 ih2 => exact ih1.binary op ih2 h2.head_append
  | conditional h1 h2 h3 ih1 ih2 ih3 => exact ih1.conditional ih2 ih3
  | looser h ih => exact ih.looser h.level_le
  | blanks h hb hb' ih => exact ih.blanks hb hb'

/-- An expression has no null character, so that the C string is all of it. -/
lemma Written.zero_notMem (h : Written l e t) : 0 ∉ t := by
  have hblanks : ∀ {b : Bytes}, (∀ c ∈ b, isBlank c) → 0 ∉ b := by
    intro b hb h
    exact absurd (hb 0 h) (by decide)
  induction h with
  | var => decide
  | number hv =>
    intro h
    exact absurd (isDigit_of_mem_showNat h) (by decide)
  | paren h ih =>
    intro h0
    rcases List.mem_append.1 h0 with h0 | h0
    · exact absurd h0 (by decide)
    · rcases List.mem_append.1 h0 with h0 | h0
      · exact ih h0
      · exact absurd h0 (by decide)
  | unary op h ih =>
    have hop : 0 ∉ op.text := by
      cases op
      all_goals decide
    rw [List.mem_append]
    exact not_or.2 ⟨hop, ih⟩
  | binary op h1 h2 ih1 ih2 =>
    have hop : 0 ∉ op.text := by
      cases op
      all_goals decide
    rw [List.mem_append, List.mem_append]
    exact not_or.2 ⟨ih1, not_or.2 ⟨hop, ih2⟩⟩
  | conditional h1 h2 h3 ih1 ih2 ih3 =>
    have hquestion : 0 ∉ bytes "?" := by decide
    have hcolon : 0 ∉ bytes ":" := by decide
    simp only [List.mem_append, not_or]
    exact ⟨ih1, hquestion, ih2, hcolon, ih3⟩
  | looser h ih => exact ih
  | blanks h hb hb' ih =>
    rw [List.mem_append, List.mem_append]
    exact not_or.2 ⟨hblanks hb, not_or.2 ⟨ih, hblanks hb'⟩⟩

/-- A text of an expression is compiled into the object of its shape. -/
lemma Written.compile (h : Written 0 e t) : compile t = some (some e.object) := by
  have hstring : t.takeWhile (· ≠ 0) = t := by
    apply List.takeWhile_eq_self_iff.2
    intro c hc
    exact decide_eq_true fun h0 => h.zero_notMem (h0 ▸ hc)
  rcases h.parses.whole follow_nil List.not_mem_nil with ⟨fuel, hrun⟩
  rw [List.append_nil, run_zero] at hrun
  -- the rounds of `compile` are enough, and more of them give the same
  rcases ends_condExpr _ _ (Nat.lt_succ_of_le (size_step t)) with ⟨r, hr, -⟩
  have h1 := extends_condExpr (Nat.le_max_left fuel (t.length + 1)) _ _ hrun
  have h2 := extends_condExpr (Nat.le_max_right fuel (t.length + 1)) _ _ hr
  have hsame := h2.symm.trans h1
  unfold Plural.compile
  rw [hstring, hr, hsame]
  rfl

end Plural

end Locale

end Cppcms
