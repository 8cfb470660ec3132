import Cppcms.Locale.PluralGrammar

/-!
# The values of plural forms

What an expression of C has for a value, with results that an `int` can hold, and that a compiled
expression returns it.
-/

namespace Cppcms

namespace Locale

namespace Plural

/-! ## Values -/

/-- A result, if an `int` can hold it. -/
def inInt (v : ℤ) : Option ℤ := if -2 ^ 31 ≤ v ∧ v < 2 ^ 31 then some v else none

def ofProp (p : Prop) [Decidable p] : ℤ := if p then 1 else 0

/-- The operation of the two's complements. -/
def bitwise (f : BitVec 32 → BitVec 32 → BitVec 32) (a b : ℤ) : ℤ :=
  (f (BitVec.ofInt 32 a) (BitVec.ofInt 32 b)).toInt

def UnaryOp.value : UnaryOp → ℤ → Option ℤ
  | lNot, a => some (ofProp (a = 0))
  | minus, a => inInt (-a)
  | binNot, a => some (-a - 1)

/-- The value of an operation; it has none if it leaves the range, or if the count of a shift is out
of range.  A quotient by zero is zero, and a remainder has a value if the quotient has one. -/
def BinaryOp.value : BinaryOp → ℤ → ℤ → Option ℤ
  | mul, a, b => inInt (a * b)
  | div, a, b => if b = 0 then some 0 else inInt (a.tdiv b)
  | mod, a, b => if b = 0 then some 0 else (inInt (a.tdiv b)).map fun _ => a.tmod b
  | add, a, b => inInt (a + b)
  | sub, a, b => inInt (a - b)
  | shl, a, b => if 0 ≤ b ∧ b < 32 then inInt (a * 2 ^ b.toNat) else none
  | shr, a, b => if 0 ≤ b ∧ b < 32 then some (a / 2 ^ b.toNat) else none
  | gt, a, b => some (ofProp (b < a))
  | lt, a, b => some (ofProp (a < b))
  | gte, a, b => some (ofProp (b ≤ a))
  | lte, a, b => some (ofProp (a ≤ b))
  | eq, a, b => some (ofProp (a = b))
  | neq, a, b => some (ofProp (a ≠ b))
  | binAnd, a, b => some (bitwise (· &&& ·) a b)
  | binXor, a, b => some (bitwise (· ^^^ ·) a b)
  | binOr, a, b => some (bitwise (· ||| ·) a b)
  | lAnd, a, b => some (ofProp (a ≠ 0 ∧ b ≠ 0))
  | lOr, a, b => some (ofProp (a ≠ 0 ∨ b ≠ 0))

/-- The value of an expression for `n`.  The operands of `&&`, `||` and `?:` that are not reached
need no value. -/
def Expr.value (n : ℤ) : Expr → Option ℤ
  | var => some n
  | number v => inInt v
  | unary op e => (e.value n).bind op.value
  | binary op e1 e2 =>
    (e1.value n).bind fun a =>
      if op = .lAnd ∧ a = 0 then some 0
      else if op = .lOr ∧ a ≠ 0 then some 1
      else (e2.value n).bind (op.value a)
  | conditional e1 e2 e3 => (e1.value n).bind fun a => if a ≠ 0 then e2.value n else e3.value n

/-! ## The values of objects -/

/-- The values of an `int`. -/
lemma inInt_eq_some {v w : ℤ} : inInt v = some w ↔ v = w ∧ -2 ^ 31 ≤ v ∧ v < 2 ^ 31 := by
  unfold inInt
  split_ifs with h
  · rw [Option.some_inj]
    exact ⟨fun heq => ⟨heq, h⟩, fun heq => heq.1⟩
  · exact ⟨(fun heq => by cases heq), fun heq => absurd heq.2 h⟩

/-- A result that an `int` can hold is not changed by the arithmetic of 32 bits. -/
lemma bmod_of_inInt {v w : ℤ} (h : inInt v = some w) : v.bmod (2 ^ 32) = w := by
  rcases inInt_eq_some.1 h with ⟨rfl, hle, hlt⟩
  exact Int.bmod_eq_of_le_mul_two (by norm_num at hle ⊢; omega) (by norm_num at hlt ⊢; omega)

/-- A comparison is one or zero. -/
lemma toInt_ofBool {b : Bool} {p : Prop} [Decidable p] (h : b = true ↔ p) :
    (ofBool b).toInt = ofProp p := by
  unfold ofBool ofProp
  by_cases hp : p
  · rw [if_pos (h.2 hp), if_pos hp]
    rfl
  · rw [if_neg fun hb => hp (h.1 hb), if_neg hp]
    rfl

variable {a : Int32} {v : ℤ} {b : Int32}

/-- Only zero is false. -/
lemma toInt_eq_zero : a.toInt = 0 ↔ a = 0 := Int32.toInt_inj (y := 0)

/-- A defined unary operation has the value of its number. -/
lemma UnaryOp.toInt_call (op : UnaryOp) (h : op.value a.toInt = some v) :
    (op.call a).toInt = v := by
  cases op with
  | lNot =>
    cases h
    exact toInt_ofBool (decide_eq_true_iff.trans toInt_eq_zero.symm)
  | minus =>
    show (-a).toInt = v
    rw [Int32.toInt_neg]
    exact bmod_of_inInt h
  | binNot =>
    cases h
    have hle := a.le_toInt
    have hlt := a.toInt_lt
    show (~~~a).toInt = -a.toInt - 1
    rw [Int32.toInt_not]
    exact bmod_of_inInt (inInt_eq_some.2 ⟨rfl, by omega, by omega⟩)

/-- The count of a shift that is in range is used as it is. -/
lemma toNat_smod (h : 0 ≤ b.toInt ∧ b.toInt < 32) : (b.toBitVec.smod 32).toNat = b.toInt.toNat := by
  have hsmod : (b.toBitVec.smod 32).toInt = b.toInt := by
    rw [BitVec.toInt_smod]
    show b.toInt.fmod 32 = b.toInt
    rw [Int.fmod_eq_emod_of_nonneg _ (by decide), Int.emod_eq_of_lt h.1 h.2]
  have hnat := BitVec.toInt_eq_toNat_cond (b.toBitVec.smod 32)
  have hlt := (b.toBitVec.smod 32).isLt
  split_ifs at hnat
  · omega
  · omega

/-- A shift to the left is a product modulo 2^32. -/
lemma toInt_shiftLeft (a : Int32) (h : 0 ≤ b.toInt ∧ b.toInt < 32) :
    (a <<< b).toInt = (a.toInt * 2 ^ b.toInt.toNat).bmod (2 ^ 32) := by
  have ha : a.toInt = (a.toBitVec.toNat : ℤ).bmod (2 ^ 32) := BitVec.toInt_eq_toNat_bmod _
  show (a.toBitVec <<< (b.toBitVec.smod 32)).toInt = _
  rw [BitVec.shiftLeft_eq', toNat_smod h, BitVec.toInt_shiftLeft, ha, Int.bmod_mul_bmod,
    Nat.shiftLeft_eq]
  push_cast
  rfl

/-- A shift to the right is a quotient that is rounded down. -/
lemma toInt_shiftRight (a : Int32) (h : 0 ≤ b.toInt ∧ b.toInt < 32) :
    (a >>> b).toInt = a.toInt / 2 ^ b.toInt.toNat := by
  show (a.toBitVec.sshiftRight' (b.toBitVec.smod 32)).toInt = _
  rw [BitVec.sshiftRight_eq', toNat_smod h, BitVec.toInt_sshiftRight, Int.shiftRight_eq_div_pow]
  rfl

/-- The operations of the two's complements are those of the registers. -/
lemma bitwise_toInt (f : BitVec 32 → BitVec 32 → BitVec 32) (a b : Int32) :
    bitwise f a.toInt b.toInt = (f a.toBitVec b.toBitVec).toInt := by
  have hofInt : ∀ a : Int32, BitVec.ofInt 32 a.toInt = a.toBitVec := fun a => BitVec.ofInt_toInt
  unfold bitwise
  rw [hofInt, hofInt]

/-- A defined binary operation has the value of its number. -/
lemma BinaryOp.toInt_call (op : BinaryOp) {a b : Int32} (h : op.value a.toInt b.toInt = some v) :
    (op.call a b).toInt = v := by
  cases op with
  | mul =>
    show (a * b).toInt = v
    rw [Int32.toInt_mul]
    exact bmod_of_inInt h
  | div =>
    rw [value] at h
    show (if b = 0 then 0 else a / b).toInt = v
    by_cases hb : b = 0
    · rw [if_pos (toInt_eq_zero.2 hb)] at h
      cases h
      rw [if_pos hb]
      rfl
    · rw [if_neg fun h0 => hb (toInt_eq_zero.1 h0)] at h
      rw [if_neg hb, Int32.toInt_div]
      exact bmod_of_inInt h
  | mod =>
    rw [value] at h
    show (if b = 0 then 0 else a % b).toInt = v
    by_cases hb : b = 0
    · rw [if_pos (toInt_eq_zero.2 hb)] at h
      cases h
      rw [if_pos hb]
      rfl
    · rw [if_neg fun h0 => hb (toInt_eq_zero.1 h0)] at h
      rcases Option.map_eq_some_iff.1 h with ⟨q, -, rfl⟩
      rw [if_neg hb, Int32.toInt_mod]
  | add =>
    show (a + b).toInt = v
    rw [Int32.toInt_add]
    exact bmod_of_inInt h
  | sub =>
    show (a - b).toInt = v
    rw [Int32.toInt_sub]
    exact bmod_of_inInt h
  | shl =>
    rw [value] at h
    split_ifs at h with hcount
    show (a <<< b).toInt = v
    rw [toInt_shiftLeft a hcount]
    exact bmod_of_inInt h
  | shr =>
    rw [value] at h
    split_ifs at h with hcount
    cases h
    exact toInt_shiftRight a hcount
  | gt =>
    cases h
    exact toInt_ofBool (decide_eq_true_iff.trans Int32.lt_iff_toInt_lt)
  | lt =>
    cases h
    exact toInt_ofBool (decide_eq_true_iff.trans Int32.lt_iff_toInt_lt)
  | gte =>
    cases h
    exact toInt_ofBool (decide_eq_true_iff.trans Int32.le_iff_toInt_le)
  | lte =>
    cases h
    exact toInt_ofBool (decide_eq_true_iff.trans Int32.le_iff_toInt_le)
  | eq =>
    cases h
    exact toInt_ofBool (decide_eq_true_iff.trans Int32.toInt_inj.symm)
  | neq =>
    cases h
    exact toInt_ofBool (decide_eq_true_iff.trans (not_congr Int32.toInt_inj.symm))
  | binAnd =>
    cases h
    exact (bitwise_toInt (· &&& ·) a b).symm
  | binXor =>
    cases h
    exact (bitwise_toInt (· ^^^ ·) a b).symm
  | binOr =>
    cases h
    exact (bitwise_toInt (· ||| ·) a b).symm
  | lAnd =>
    cases h
    apply toInt_ofBool
    rw [Bool.and_eq_true, decide_eq_true_iff, decide_eq_true_iff]
    exact and_congr (not_congr toInt_eq_zero.symm) (not_congr toInt_eq_zero.symm)
  | lOr =>
    cases h
    apply toInt_ofBool
    rw [Bool.or_eq_true, decide_eq_true_iff, decide_eq_true_iff]
    exact or_congr (not_congr toInt_eq_zero.symm) (not_congr toInt_eq_zero.symm)

/-- The object of an expression returns the value that the expression has. -/
lemma Expr.toInt_call (n : Int32) (e : Expr) (h : e.value n.toInt = some v) :
    (e.object.call n).toInt = v := by
  induction e generalizing v with
  | var =>
    cases h
    rfl
  | number k =>
    rcases inInt_eq_some.1 h with ⟨rfl, -, hlt⟩
    exact Int32.toInt_ofNat_of_lt (by exact_mod_cast hlt)
  | unary op e ih =>
    rcases Option.bind_eq_some_iff.1 h with ⟨a, ha, hv⟩
    rw [← ih ha] at hv
    exact op.toInt_call hv
  | binary op e1 e2 ih1 ih2 =>
    rcases Option.bind_eq_some_iff.1 h with ⟨a, ha, hv⟩
    have h1 := ih1 ha
    by_cases hand : op = .lAnd ∧ a = 0
    · -- the second operand is not reached
      rw [if_pos hand] at hv
      cases hv
      rw [hand.2] at h1
      rw [hand.1]
      show (ofBool (e1.object.call n ≠ 0 && e2.object.call n ≠ 0)).toInt = 0
      rw [toInt_eq_zero.1 h1]
      rfl
    · rw [if_neg hand] at hv
      by_cases hor : op = .lOr ∧ a ≠ 0
      · rw [if_pos hor] at hv
        cases hv
        have hne : e1.object.call n ≠ 0 := by
          intro h0
          rw [toInt_eq_zero.2 h0] at h1
          exact hor.2 h1.symm
        rw [hor.1]
        show (ofBool (e1.object.call n ≠ 0 || e2.object.call n ≠ 0)).toInt = 1
        rw [decide_eq_true hne]
        rfl
      · rw [if_neg hor] at hv
        rcases Option.bind_eq_some_iff.1 hv with ⟨b, hb, hv⟩
        rw [← h1, ← ih2 hb] at hv
        exact op.toInt_call hv
  | conditional e1 e2 e3 ih1 ih2 ih3 =>
    rcases Option.bind_eq_some_iff.1 h with ⟨a, ha, hv⟩
    have h1 := ih1 ha
    show (if e1.object.call n ≠ 0 then e2.object.call n else e3.object.call n).toInt = v
    by_cases h0 : a = 0
    · rw [if_neg (not_not.2 h0)] at hv
      rw [h0] at h1
      rw [if_neg (not_not.2 (toInt_eq_zero.1 h1))]
      exact ih3 hv
    · rw [if_pos h0] at hv
      rw [if_pos fun hz => h0 (h1.symm.trans (toInt_eq_zero.2 hz))]
      exact ih2 hv

/-- A text of an expression is compiled, and what comes out returns the value of the expression
wherever it has one.  The compiler ends on every text. -/
theorem compile_value :
    (∀ e t, Written 0 e t → ∃ o, compile t = some (some o) ∧
      ∀ (n : Int32) v, e.value n.toInt = some v → (o.call n).toInt = v) ∧
      ∀ str, (compile str).isSome := by
  constructor
  · exact fun e t h => ⟨e.object, h.compile, fun n v hv => e.toInt_call n hv⟩
  · exact isSome_compile

/-- The plural form `n % 10 == 1 && n % 100 != 11 ? 0 : 1`. -/
def sample : Expr :=
  .conditional (.binary .lAnd (.binary .eq (.binary .mod .var (.number 10)) (.number 1))
    (.binary .neq (.binary .mod .var (.number 100)) (.number 11))) (.number 0) (.number 1)

theorem compile_value_sample :
    ∃ o, compile (bytes "n % 10 == 1 && n % 100 != 11 ? 0 : 1") = some (some o) ∧
    (o.call 21).toInt = 0 ∧ (o.call 11).toInt = 1 := by
  have hrange : sample.InRange := by
    simp only [sample, Expr.InRange]
    norm_num
  rcases compile_value.1 sample sample.text (Expr.written hrange) with ⟨o, ho, hv⟩
  exact ⟨o, ho, hv 21 0 (by decide), hv 11 1 (by decide)⟩

end Plural

end Locale

end Cppcms
