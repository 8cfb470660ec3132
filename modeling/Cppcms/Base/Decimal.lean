import Cppcms.Base.Numbers
import Cppcms.Base.Outcome

/-!
# Decimal texts of integers

`todec` of `private/todec.h` and `format_number` of `private/format_number.h` write an integer of
any type into a buffer of characters.  The digits are taken from the remainders, so they come in
reverse order, and the remainders of a negative number are negative: the number is never negated,
and the least one of a signed type needs no care.

A buffer is the list of its octets, and an access outside of it is not defined.  A number with its
sign has at most `digits10 + 2` characters, where `digits10` is the constant of the type.
-/

namespace Cppcms

namespace Decimal

/-! ## Quotients and remainders -/

/-- Division rounds towards zero. -/
lemma tdiv_sign {s : ℤ} (hs : s = 1 ∨ s = -1) (n : ℕ) :
    (s * n).tdiv 10 = s * ((n / 10 : ℕ) : ℤ) := by
  rcases hs with rfl | rfl
  · rw [one_mul, one_mul]
    rfl
  · rw [neg_one_mul, neg_one_mul, Int.neg_tdiv]
    rfl

/-- A remainder has the sign of the number. -/
lemma tmod_sign {s : ℤ} (hs : s = 1 ∨ s = -1) (n : ℕ) :
    (s * n).tmod 10 = s * ((n % 10 : ℕ) : ℤ) := by
  rcases hs with rfl | rfl
  · rw [one_mul, one_mul]
    rfl
  · rw [neg_one_mul, neg_one_mul, Int.neg_tmod]
    rfl

lemma exists_sign (z : ℤ) : ∃ s : ℤ, (s = 1 ∨ s = -1) ∧ z = s * (z.natAbs : ℤ) := by
  rcases Int.natAbs_eq z with hz | hz
  · exact ⟨1, Or.inl rfl, by rw [one_mul]; exact hz⟩
  · exact ⟨-1, Or.inr rfl, by rw [neg_one_mul]; exact hz⟩

/-! ## Integer types -/

/-- An integer type of any width. -/
structure IntegerType where
  isSigned : Bool
  width : ℕ
  width_pos : 0 < width

namespace IntegerType

variable (I : IntegerType)

/-- `std::numeric_limits::digits`: the bits without the sign. -/
def digits : ℕ := if I.isSigned then I.width - 1 else I.width

/-- `std::numeric_limits::digits10`: every number with so many digits is a value. -/
def digits10 : ℕ := Nat.log 10 (2 ^ I.digits)

/-- `std::numeric_limits::min`. -/
def min : ℤ := if I.isSigned then -2 ^ I.digits else 0

/-- `std::numeric_limits::max`. -/
def max : ℤ := 2 ^ I.digits - 1

/-- The values of a type. -/
structure Value where
  toInt : ℤ
  min_le : I.min ≤ toInt
  le_max : toInt ≤ I.max

lemma min_nonpos : I.min ≤ 0 := by
  unfold min
  split_ifs
  · exact neg_nonpos.mpr (by positivity)
  · exact le_refl 0

lemma max_nonneg : 0 ≤ I.max := by
  have hpos : (0 : ℤ) < 2 ^ I.digits := by positivity
  unfold max
  omega

end IntegerType

variable {I : IntegerType}

namespace IntegerType.Value

/-- `v / 10`: a quotient is not farther from zero, so it has the type of the value. -/
def quotient (v : I.Value) : I.Value where
  toInt := v.toInt.tdiv 10
  min_le := by
    have hmin := v.min_le
    have hnonpos := I.min_nonpos
    rcases exists_sign v.toInt with ⟨s, hs, hv⟩
    rw [hv, tdiv_sign hs]
    rcases hs with rfl | rfl <;> omega
  le_max := by
    have hmax := v.le_max
    have hnonneg := I.max_nonneg
    rcases exists_sign v.toInt with ⟨s, hs, hv⟩
    rw [hv, tdiv_sign hs]
    rcases hs with rfl | rfl <;> omega

lemma natAbs_quotient (v : I.Value) : v.quotient.toInt.natAbs = v.toInt.natAbs / 10 := by
  show (v.toInt.tdiv 10).natAbs = _
  rw [Int.natAbs_tdiv]
  rfl

/-- No value is farther from zero than the least one of a signed type. -/
lemma natAbs_le (v : I.Value) : v.toInt.natAbs ≤ 2 ^ I.digits := by
  have hmin := v.min_le
  have hmax := v.le_max
  unfold IntegerType.max at hmax
  have hcast : (2 : ℤ) ^ I.digits = ((2 ^ I.digits : ℕ) : ℤ) := by push_cast; rfl
  unfold IntegerType.min at hmin
  split_ifs at hmin <;> omega

end IntegerType.Value

/-! ## Buffers -/

/-- `*p`. -/
def load (buf : Bytes) (p : ℕ) : Outcome UInt8 :=
  match buf[p]? with
  | some c => .returns c
  | none => .undefined

/-- `*p = c`. -/
def store (buf : Bytes) (p : ℕ) (c : UInt8) : Outcome Bytes :=
  if p < buf.length then .returns (buf.set p c) else .undefined

lemma load_append {a b : Bytes} {c : UInt8} : load (a ++ c :: b) a.length = .returns c := by
  unfold load
  rw [List.getElem?_append_right (le_refl _), Nat.sub_self, List.getElem?_cons_zero]

lemma store_append {a b : Bytes} {c d : UInt8} :
    store (a ++ c :: b) a.length d = .returns (a ++ d :: b) := by
  have hlt : a.length < (a ++ c :: b).length := by rw [List.length_append, List.length_cons]; omega
  unfold store
  rw [if_pos hlt, List.set_append_right _ _ (le_refl _), Nat.sub_self, List.set_cons_zero]

/-- The loop that swaps the outermost characters and goes inwards. -/
def reverseLoop (buf : Bytes) (begin' last : ℕ) : Outcome Bytes :=
  if begin' < last then do
    let tmp ← load buf begin'
    let c ← load buf last
    let buf ← store buf begin' c
    let buf ← store buf last tmp
    reverseLoop buf (begin' + 1) (last - 1)
  else .returns buf
termination_by last - begin'

/-- The characters between two others are reversed; `last` is the position of the last one of them.
-/
lemma reverseLoop_append (a m b : Bytes) :
    reverseLoop (a ++ (m ++ b)) a.length (a.length + m.length - 1) =
      .returns (a ++ (m.reverse ++ b)) := by
  induction m using List.bidirectionalRec generalizing a b with
  | nil =>
    rw [reverseLoop, if_neg (by rw [List.length_nil]; omega)]
    rfl
  | singleton c =>
    rw [reverseLoop, if_neg (by rw [List.length_singleton]; omega)]
    rfl
  | cons_append c m d ih =>
    have hlast : a.length + (c :: (m ++ [d])).length - 1 = a.length + (m.length + 1) := by
      rw [List.length_cons, List.length_append, List.length_singleton]
      omega
    have hlt : a.length < a.length + (m.length + 1) := by omega
    have hinner : (a ++ (c :: m)).length = a.length + (m.length + 1) := by
      rw [List.length_append, List.length_cons]
    have hfirst : a ++ (c :: (m ++ [d]) ++ b) = a ++ c :: (m ++ d :: b) := by
      rw [List.cons_append, List.append_assoc, List.singleton_append]
    have hload : load (a ++ c :: (m ++ d :: b)) (a.length + (m.length + 1)) = .returns d := by
      rw [← hinner]
      have h := load_append (a := a ++ (c :: m)) (b := b) (c := d)
      rwa [List.append_assoc, List.cons_append] at h
    have hstore : store (a ++ d :: (m ++ d :: b)) (a.length + (m.length + 1)) c =
        .returns (a ++ d :: (m ++ c :: b)) := by
      have hinner' : (a ++ (d :: m)).length = a.length + (m.length + 1) := by
        rw [List.length_append, List.length_cons]
      rw [← hinner']
      have h := store_append (a := a ++ (d :: m)) (b := b) (c := d) (d := c)
      rwa [List.append_assoc, List.cons_append, List.append_assoc, List.cons_append] at h
    have hrest := ih (a ++ [d]) (c :: b)
    rw [List.length_append, List.length_singleton, List.append_assoc,
      List.singleton_append] at hrest
    have hnext : a.length + (m.length + 1) - 1 = a.length + 1 + m.length - 1 := by omega
    rw [hlast, hfirst, reverseLoop, if_pos hlt, load_append, Outcome.returns_bind, hload,
      Outcome.returns_bind, store_append, Outcome.returns_bind, hstore,
      Outcome.returns_bind, hnext, hrest]
    simp only [List.reverse_cons, List.reverse_append, List.reverse_nil, List.nil_append,
      List.cons_append, List.append_assoc]

/-! ## Digits -/

/-- The loops over the digits: each one is written for the remainder of the number, and the number
is divided. -/
def digitLoop (digit : ℤ → UInt8) (v : I.Value) (buf : Bytes) (p : ℕ) : Outcome (Bytes × ℕ) :=
  if v.toInt = 0 then .returns (buf, p)
  else do
    let buf ← store buf p (digit (v.toInt.tmod 10))
    digitLoop digit v.quotient buf (p + 1)
termination_by v.toInt.natAbs
decreasing_by
  rw [IntegerType.Value.natAbs_quotient]
  omega

/-- The character of a digit. -/
def octet (d : ℕ) : UInt8 := (Nat.digitChar d).toUInt8

/-- The characters that the loops write, the last digit first. -/
def digitTexts (n : ℕ) : Bytes := (Nat.digits 10 n).map octet

lemma digitTexts_eq_cons {n : ℕ} (hn : n ≠ 0) :
    digitTexts n = octet (n % 10) :: digitTexts (n / 10) := by
  unfold digitTexts
  rw [Nat.digits_def' (by decide) (Nat.pos_of_ne_zero hn), List.map_cons]

/-- Reversed, they are the text of the number. -/
lemma reverse_digitTexts {n : ℕ} (hn : n ≠ 0) : (digitTexts n).reverse = showNat n := by
  induction n using Nat.strong_induction_on with
  | h n ih =>
    unfold showNat
    rw [digitTexts_eq_cons hn, List.reverse_cons, Nat.toDigits_eq_if (by decide)]
    split_ifs with hlt
    · rw [Nat.div_eq_of_lt hlt, Nat.mod_eq_of_lt hlt]
      rfl
    · have hquot : n / 10 ≠ 0 := (Nat.div_pos (not_lt.mp hlt) (by decide)).ne'
      rw [ih (n / 10) (Nat.div_lt_self (by omega) (by decide)) hquot, List.map_append]
      rfl

lemma length_digitTexts {n : ℕ} (hn : n ≠ 0) : (digitTexts n).length = Nat.log 10 n + 1 := by
  unfold digitTexts
  rw [List.length_map, Nat.length_digits 10 n (by decide) hn]

/-- A loop whose digits are right for the sign of the number. -/
lemma digitLoop_eq {digit : ℤ → UInt8} {s : ℤ} (hs : s = 1 ∨ s = -1)
    (hdigit : ∀ d < 10, digit (s * (d : ℕ)) = octet d) {v : I.Value} {n : ℕ} (hv : v.toInt = s * n)
    (a : Bytes) {room : Bytes} (hroom : (digitTexts n).length ≤ room.length) :
    digitLoop digit v (a ++ room) a.length =
      .returns (a ++ (digitTexts n ++ room.drop (digitTexts n).length),
        a.length + (digitTexts n).length) := by
  induction n using Nat.strong_induction_on generalizing v a room with
  | h n ih =>
    by_cases hn : n = 0
    · subst hn
      rw [digitLoop, if_pos (by rw [hv]; simp)]
      rfl
    · have hne : v.toInt ≠ 0 := by rcases hs with rfl | rfl <;> omega
      have hrem : v.toInt.tmod 10 = s * ((n % 10 : ℕ) : ℤ) := by rw [hv, tmod_sign hs]
      have hquot : v.quotient.toInt = s * ((n / 10 : ℕ) : ℤ) := by
        show v.toInt.tdiv 10 = _
        rw [hv, tdiv_sign hs]
      have htexts := digitTexts_eq_cons hn
      rw [htexts, List.length_cons] at hroom
      rcases room with _ | ⟨c, room⟩
      · rw [List.length_nil] at hroom; omega
      · rw [List.length_cons] at hroom
        have hrest : (digitTexts (n / 10)).length ≤ room.length := by omega
        have hrest := ih (n / 10) (Nat.div_lt_self (Nat.pos_of_ne_zero hn) (by decide)) hquot
          (a ++ [octet (n % 10)]) hrest
        rw [List.length_append, List.length_singleton, List.append_assoc, List.append_assoc,
          List.singleton_append, List.singleton_append] at hrest
        rw [digitLoop, if_neg hne, hrem, hdigit _ (Nat.mod_lt n (by decide)), store_append,
          Outcome.returns_bind, hrest, htexts, List.length_cons, List.drop_succ_cons,
          List.cons_append]
        congr 2
        omega

/-- What a loop, the terminator behind it and the reversal leave. -/
lemma reverse_digitLoop {digit : ℤ → UInt8} {s : ℤ} (hs : s = 1 ∨ s = -1)
    (hdigit : ∀ d < 10, digit (s * (d : ℕ)) = octet d) {v : I.Value} {n : ℕ} (hv : v.toInt = s * n)
    (hn : n ≠ 0) (a : Bytes) {room : Bytes} (hroom : (showNat n).length + 1 ≤ room.length) :
    (digitLoop digit v (a ++ room) a.length >>= fun r =>
        store r.1 r.2 0 >>= fun buf => reverseLoop buf a.length (r.2 - 1)) =
      .returns (a ++ (showNat n ++ 0 :: room.drop ((showNat n).length + 1))) := by
  have hlength : (digitTexts n).length = (showNat n).length := by
    rw [← reverse_digitTexts hn, List.length_reverse]
  have hle : (digitTexts n).length ≤ room.length := by omega
  have hloop := digitLoop_eq hs hdigit hv a hle
  rw [hlength] at hloop
  rcases hrest : room.drop (showNat n).length with _ | ⟨c, rest⟩
  · have := List.drop_eq_nil_iff.mp hrest
    omega
  · have hbehind : room.drop ((showNat n).length + 1) = rest := by
      rw [← List.drop_drop, hrest, List.drop_succ_cons, List.drop_zero]
    have hstore : store (a ++ (digitTexts n ++ c :: rest)) (a.length + (showNat n).length) 0 =
        .returns (a ++ (digitTexts n ++ 0 :: rest)) := by
      have h := store_append (a := a ++ digitTexts n) (b := rest) (c := c) (d := 0)
      rwa [List.append_assoc, List.append_assoc, List.length_append, hlength] at h
    have hreverse := reverseLoop_append a (digitTexts n) (0 :: rest)
    rw [hlength, reverse_digitTexts hn] at hreverse
    rw [hloop, Outcome.returns_bind, hrest, hstore, Outcome.returns_bind, hreverse, hbehind]

/-! ## todec -/

/-- `'0' + v % 10`. -/
def plusDigit (r : ℤ) : UInt8 := .ofInt (0x30 + r)

/-- `'0' - (v % 10)`. -/
def minusDigit (r : ℤ) : UInt8 := .ofInt (0x30 - r)

lemma plusDigit_eq : ∀ d < 10, plusDigit (1 * (d : ℕ)) = octet d := by decide

lemma minusDigit_eq : ∀ d < 10, minusDigit (-1 * (d : ℕ)) = octet d := by decide

/-- `decimal_traits<false>::conv`: the buffer, and the positions `begin` and `buf`. -/
def convUnsigned (v : I.Value) (buf : Bytes) (p : ℕ) : Outcome (Bytes × ℕ × ℕ) := do
  let r ← digitLoop plusDigit v buf p
  return (r.1, p, r.2)

/-- `decimal_traits<true>::conv`. -/
def convSigned (v : I.Value) (buf : Bytes) (p : ℕ) : Outcome (Bytes × ℕ × ℕ) :=
  if v.toInt < 0 then do
    let buf ← store buf p Ch.minus
    let r ← digitLoop minusDigit v buf (p + 1)
    return (r.1, p + 1, r.2)
  else convUnsigned v buf p

/-- `decimal_traits::conv`. -/
def conv (v : I.Value) (buf : Bytes) (p : ℕ) : Outcome (Bytes × ℕ × ℕ) :=
  if I.isSigned then convSigned v buf p else convUnsigned v buf p

/-- `todec`. -/
def todec (v : I.Value) (buf : Bytes) : Outcome Bytes :=
  if v.toInt = 0 then do
    let buf ← store buf 0 0x30
    store buf 1 0
  else do
    let r ← conv v buf 0
    let buf ← store r.1 r.2.2 0
    reverseLoop buf r.2.1 (r.2.2 - 1)

/-- The text up to the terminator. -/
def terminated (buf : Bytes) : Outcome Bytes :=
  if 0 ∈ buf then .returns (buf.takeWhile (· ≠ 0)) else .undefined

/-- `todec_string`, with what is found in the buffer on the stack. -/
def todecString (v : I.Value) (buf : Bytes) : Outcome Bytes := do
  let buf ← todec v buf
  terminated buf

/-! ## format_number -/

/-- The digit that `format` writes for a remainder. -/
def formatDigit (digit : ℤ) : UInt8 :=
  if digit < 0 then .ofInt (0x30 - digit) else .ofInt (0x30 + digit)

lemma formatDigit_plus : ∀ d < 10, formatDigit (1 * (d : ℕ)) = octet d := by decide

lemma formatDigit_minus : ∀ d < 10, formatDigit (-1 * (d : ℕ)) = octet d := by decide

/-- `strncpy`: up to `count` characters of the text, and zeros up to `count`. -/
def strncpy (output src : Bytes) (count : ℕ) : Outcome Bytes :=
  if output.length < count ∨ (0 ∉ src ∧ src.length < count) then .undefined
  else
    .returns ((src.takeWhile (· ≠ 0)).take count ++
      (List.replicate (count - (src.takeWhile (· ≠ 0)).length) 0 ++ output.drop count))

/-- The text in the buffer of `format_traits<Value, true>::format`. -/
def formatText (v : I.Value) (buf : Bytes) : Outcome Bytes := do
  let r ← if v.toInt < 0 then (store buf 0 Ch.minus >>= fun buf => .returns (buf, 1))
    else .returns (buf, 0)
  if v.toInt = 0 then do
    let buf ← store r.1 r.2 0x30
    store buf (r.2 + 1) 0
  else do
    let q ← digitLoop formatDigit v r.1 r.2
    let buf ← store q.1 q.2 0
    reverseLoop buf r.2 (q.2 - 1)

/-- `format_number` of an integer, with what is found in the buffer on the stack. -/
def formatNumber (v : I.Value) (buf output : Bytes) : ℕ → Outcome Bytes
  -- `n - 1` is the greatest `size_t`, and no buffer is that long
  | 0 => .undefined
  | n + 1 => do
    let buf ← formatText v buf
    let output ← strncpy output buf n
    store output n 0

/-! ## The texts -/

/-- The digits of a value, its sign, and nothing else. -/
lemma length_showInt_le (v : I.Value) : (showInt v.toInt).length ≤ I.digits10 + 2 := by
  have hlength : (showNat v.toInt.natAbs).length ≤ I.digits10 + 1 := by
    by_cases hn : v.toInt.natAbs = 0
    · rw [hn]
      show 1 ≤ _
      omega
    · have hlog : Nat.log 10 v.toInt.natAbs ≤ I.digits10 := Nat.log_mono_right v.natAbs_le
      rw [← reverse_digitTexts hn, List.length_reverse, length_digitTexts hn]
      omega
  unfold showInt
  split_ifs
  · rw [List.length_cons]
    omega
  · omega

lemma zero_notMem_showInt (z : ℤ) : (0 : UInt8) ∉ showInt z := by
  have hnat : ∀ n, (0 : UInt8) ∉ showNat n := fun n h => by
    have := isDigit_of_mem_showNat h
    revert this
    decide
  unfold showInt
  split_ifs
  · rw [List.mem_cons, not_or]
    exact ⟨by decide, hnat _⟩
  · exact hnat _

lemma takeWhile_terminated {s t : Bytes} (hs : (0 : UInt8) ∉ s) :
    (s ++ 0 :: t).takeWhile (· ≠ 0) = s := by
  rw [List.takeWhile_append_of_pos]
  · rw [List.takeWhile_cons_of_neg (by simp), List.append_nil]
  · intro c hc
    rw [decide_eq_true_eq]
    rintro rfl
    exact hs hc

lemma terminated_append {s t : Bytes} (hs : (0 : UInt8) ∉ s) :
    terminated (s ++ 0 :: t) = .returns s := by
  have hmem : (0 : UInt8) ∈ s ++ 0 :: t := List.mem_append.mpr (Or.inr List.mem_cons_self)
  unfold terminated
  rw [if_pos hmem, takeWhile_terminated hs]

/-- The character in front and the zero behind it, for the value zero. -/
lemma store_zero {buf : Bytes} (hroom : 2 ≤ buf.length) :
    (store buf 0 0x30 >>= fun buf => store buf 1 0) = .returns (showInt 0 ++ 0 :: buf.drop 2) := by
  rcases buf with _ | ⟨c, _ | ⟨d, buf⟩⟩
  · rw [List.length_nil] at hroom; omega
  · rw [List.length_singleton] at hroom; omega
  · have hfirst := store_append (a := []) (b := d :: buf) (c := c) (d := 0x30)
    have hsecond := store_append (a := [0x30]) (b := buf) (c := d) (d := 0)
    rw [List.nil_append, List.length_nil, List.nil_append] at hfirst
    rw [List.singleton_append, List.singleton_append, List.length_singleton] at hsecond
    rw [hfirst, Outcome.returns_bind, hsecond]
    rfl

/-- The value is not negative, or it is negative and of a signed type. -/
lemma sign_cases (v : I.Value) :
    (¬ v.toInt < 0 ∧ v.toInt = 1 * (v.toInt.natAbs : ℤ) ∧
      showInt v.toInt = showNat v.toInt.natAbs) ∨
      (I.isSigned = true ∧ v.toInt < 0 ∧ v.toInt = -1 * (v.toInt.natAbs : ℤ) ∧
        showInt v.toInt = Ch.minus :: showNat v.toInt.natAbs) := by
  by_cases hneg : v.toInt < 0
  · have hsigned : I.isSigned = true := by
      by_contra hnot
      have hmin := v.min_le
      unfold IntegerType.min at hmin
      rw [if_neg hnot] at hmin
      omega
    exact Or.inr ⟨hsigned, hneg, by omega, if_pos hneg⟩
  · exact Or.inl ⟨hneg, by omega, if_neg hneg⟩

lemma convUnsigned_bind (v : I.Value) (buf : Bytes) (f : Bytes × ℕ × ℕ → Outcome Bytes) :
    (convUnsigned v buf 0 >>= f) = (digitLoop plusDigit v buf 0 >>= fun r => f (r.1, 0, r.2)) := by
  unfold convUnsigned
  rcases digitLoop plusDigit v buf 0 <;> rfl

/-- `todec` writes the text and its terminator, and nothing else. -/
theorem todec_eq (v : I.Value) {buf : Bytes} (hroom : (showInt v.toInt).length + 1 ≤ buf.length) :
    todec v buf = .returns (showInt v.toInt ++ 0 :: buf.drop ((showInt v.toInt).length + 1)) := by
  unfold todec
  by_cases hzero : v.toInt = 0
  · rw [if_pos hzero]
    rw [hzero] at hroom ⊢
    exact store_zero hroom
  · have hn : v.toInt.natAbs ≠ 0 := Int.natAbs_ne_zero.mpr hzero
    rw [if_neg hzero]
    rcases sign_cases v with ⟨hpos, hv, htext⟩ | ⟨hsigned, hneg, hv, htext⟩
    · rw [htext] at hroom ⊢
      have hconv : conv v buf 0 = convUnsigned v buf 0 := by
        unfold conv convSigned
        rw [if_neg hpos]
        split_ifs <;> rfl
      rw [hconv, convUnsigned_bind]
      exact reverse_digitLoop (Or.inl rfl) plusDigit_eq hv hn [] hroom
    · rw [htext] at hroom ⊢
      rcases buf with _ | ⟨c, buf⟩
      · rw [List.length_nil] at hroom; omega
      · rw [List.length_cons, List.length_cons] at hroom
        have hstore := store_append (a := []) (b := buf) (c := c) (d := Ch.minus)
        rw [List.nil_append, List.length_nil, List.nil_append] at hstore
        have hle : (showNat v.toInt.natAbs).length + 1 ≤ buf.length := by omega
        have hrest := reverse_digitLoop (Or.inr rfl) minusDigit_eq hv hn [Ch.minus] hle
        rw [List.singleton_append, List.length_singleton] at hrest
        unfold conv convSigned
        rw [if_pos hsigned, if_pos hneg, hstore, Outcome.returns_bind]
        rw [List.cons_append, List.length_cons, List.drop_succ_cons]
        rw [List.singleton_append] at hrest
        rw [← hrest]
        rcases digitLoop minusDigit v (Ch.minus :: buf) 1 <;> rfl

/-- `format` writes the same text into its own buffer. -/
theorem formatText_eq (v : I.Value) {buf : Bytes}
    (hroom : (showInt v.toInt).length + 1 ≤ buf.length) :
    formatText v buf = .returns
      (showInt v.toInt ++ 0 :: buf.drop ((showInt v.toInt).length + 1)) := by
  unfold formatText
  by_cases hzero : v.toInt = 0
  · rw [hzero] at hroom ⊢
    exact store_zero hroom
  · have hn : v.toInt.natAbs ≠ 0 := Int.natAbs_ne_zero.mpr hzero
    rcases sign_cases v with ⟨hpos, hv, htext⟩ | ⟨-, hneg, hv, htext⟩
    · rw [htext] at hroom ⊢
      rw [if_neg hpos, Outcome.returns_bind]
      dsimp only
      rw [if_neg hzero]
      exact reverse_digitLoop (Or.inl rfl) formatDigit_plus hv hn [] hroom
    · rw [htext] at hroom ⊢
      rcases buf with _ | ⟨c, buf⟩
      · rw [List.length_nil] at hroom; omega
      · rw [List.length_cons, List.length_cons] at hroom
        have hstore := store_append (a := []) (b := buf) (c := c) (d := Ch.minus)
        rw [List.nil_append, List.length_nil, List.nil_append] at hstore
        rw [if_pos hneg, hstore, Outcome.returns_bind, Outcome.returns_bind]
        dsimp only
        rw [if_neg hzero]
        have hle : (showNat v.toInt.natAbs).length + 1 ≤ buf.length := by omega
        exact reverse_digitLoop (Or.inr rfl) formatDigit_minus hv hn [Ch.minus] hle

/-- A text that is copied into a buffer of `n` characters is cut behind the first `n - 1`, and the
rest of the buffer is filled with zeros. -/
lemma strncpy_eq {s t output : Bytes} (hs : (0 : UInt8) ∉ s) {count : ℕ}
    (hcount : count ≤ output.length) :
    strncpy output (s ++ 0 :: t) count =
      .returns (s.take count ++ (List.replicate (count - s.length) 0 ++ output.drop count)) := by
  have hmem : (0 : UInt8) ∈ s ++ 0 :: t := List.mem_append.mpr (Or.inr List.mem_cons_self)
  unfold strncpy
  rw [if_neg, takeWhile_terminated hs]
  rintro (hlt | ⟨hnot, -⟩)
  · omega
  · exact hnot hmem

/-- `format_number` writes the text, cut where the buffer ends. -/
theorem formatNumber_eq (v : I.Value) {buf output : Bytes} {n : ℕ}
    (hbuf : (showInt v.toInt).length + 1 ≤ buf.length) (hn : n + 1 ≤ output.length) :
    formatNumber v buf output (n + 1) =
      .returns ((showInt v.toInt).take n ++
        (List.replicate (n - (showInt v.toInt).length) 0 ++ 0 :: output.drop (n + 1))) := by
  have hzero := zero_notMem_showInt v.toInt
  rw [formatNumber, formatText_eq v hbuf, Outcome.returns_bind, strncpy_eq hzero (by omega),
    Outcome.returns_bind]
  rcases hrest : output.drop n with _ | ⟨c, rest⟩
  · have := List.drop_eq_nil_iff.mp hrest
    omega
  · have hbehind : output.drop (n + 1) = rest := by
      rw [← List.drop_drop, hrest, List.drop_succ_cons, List.drop_zero]
    have hlength :
        ((showInt v.toInt).take n ++ List.replicate (n - (showInt v.toInt).length)
        (0 : UInt8)).length = n := by
      rw [List.length_append, List.length_take, List.length_replicate]
      omega
    have hstore := store_append (b := rest) (c := c) (d := 0)
      (a := (showInt v.toInt).take n ++ List.replicate (n - (showInt v.toInt).length) (0 : UInt8))
    rw [hlength, List.append_assoc, List.append_assoc] at hstore
    rw [hstore, hbehind]

/-- The terminator of the copy is the first zero. -/
lemma terminated_copy {s t : Bytes} (hs : (0 : UInt8) ∉ s) (n : ℕ) :
    terminated (s.take n ++ (List.replicate (n - s.length) 0 ++ 0 :: t)) = .returns (s.take n) := by
  have htake : (0 : UInt8) ∉ s.take n := fun h => hs (List.mem_of_mem_take h)
  rcases hfill : n - s.length with _ | k
  · rw [List.replicate_zero, List.nil_append]
    exact terminated_append htake
  · rw [List.replicate_succ, List.cons_append]
    exact terminated_append htake

/-- For every value of every integer type `todec` writes the exact text and its terminator inside of
`digits10 + 4` octets, whatever the buffer holds, and `format_number` writes the same text into
every buffer that has room for it. -/
theorem decimal_formatting (v : I.Value) :
    (showInt v.toInt).length + 1 ≤ I.digits10 + 4 ∧
    (∀ buf : Bytes, I.digits10 + 4 ≤ buf.length →
      todec v buf = .returns (showInt v.toInt ++ 0 :: buf.drop ((showInt v.toInt).length + 1)) ∧
        todecString v buf = .returns (showInt v.toInt)) ∧
    ∀ (buf output : Bytes) (n : ℕ), I.digits10 + 10 ≤ buf.length → n + 1 ≤ output.length →
      formatNumber v buf output (n + 1) =
          .returns ((showInt v.toInt).take n ++
            (List.replicate (n - (showInt v.toInt).length) 0 ++ 0 :: output.drop (n + 1))) ∧
        ((showInt v.toInt).length ≤ n →
          (formatNumber v buf output (n + 1) >>= terminated) = .returns (showInt v.toInt)) := by
  have hlength := length_showInt_le v
  have hzero := zero_notMem_showInt v.toInt
  refine ⟨by omega, ?_, ?_⟩
  · intro buf hbuf
    have hroom : (showInt v.toInt).length + 1 ≤ buf.length := by omega
    have htodec := todec_eq v hroom
    refine ⟨htodec, ?_⟩
    unfold todecString
    rw [htodec, Outcome.returns_bind, terminated_append hzero]
  · intro buf output n hbuf hn
    have hroom : (showInt v.toInt).length + 1 ≤ buf.length := by omega
    have hformat := formatNumber_eq v hroom hn
    refine ⟨hformat, fun hfits => ?_⟩
    rw [hformat, Outcome.returns_bind, terminated_copy hzero, List.take_of_length_le hfits]

/-- The least value of a signed type with eight bits, in a buffer of just the size that is needed.
-/
theorem decimal_formatting_least :
    ∃ v : (IntegerType.mk true 8 (by decide)).Value, v.toInt = -128 ∧
      todec v [1, 1, 1, 1, 1, 1] = .returns [0x2D, 0x31, 0x32, 0x38, 0, 1] ∧
        (formatNumber v (List.replicate 12 1) [1, 1, 1, 1, 1] 5 >>= terminated) =
          .returns [0x2D, 0x31, 0x32, 0x38] := by
  let v : (IntegerType.mk true 8 (by decide)).Value := ⟨-128, by decide, by decide⟩
  have htext : showInt v.toInt = [0x2D, 0x31, 0x32, 0x38] := by decide
  have hdigits : (IntegerType.mk true 8 (by decide)).digits10 = 2 := by
    show Nat.log 10 128 = 2
    norm_num
  rcases decimal_formatting v with ⟨-, htodec, hformat⟩
  refine ⟨v, rfl, ?_, ?_⟩
  · have h := (htodec [1, 1, 1, 1, 1, 1] (by rw [hdigits]; decide)).1
    rw [htext] at h
    exact h
  · have h :=
      (hformat (List.replicate 12 1) [1, 1, 1, 1, 1] 4 (by rw [hdigits]; decide) (by decide)).2
    rw [htext] at h
    exact h (by decide)

end Decimal

end Cppcms
