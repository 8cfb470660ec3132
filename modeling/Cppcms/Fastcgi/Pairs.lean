import Cppcms.Base.Bytes
import Cppcms.Library.BigEndian
import Cppcms.Library.Slice

/-!
# Pairs of names and values

The parameters of a request and the answers to questions about the server are sequences of pairs.
The two lengths stand first, each in one octet below 128 and else in four with the highest bit set;
then come the name and the value.  The reader works on the octets from `p` to `e`, which are a list
here, and an access outside of them has no result.
-/

namespace Cppcms

namespace Fastcgi

/-! ## Writing -/

/-- `add_value`: a length, in the form that fits. -/
def addValue (body value : Bytes) : Bytes :=
  if value.length < 128 then body ++ [UInt8.ofNat value.length]
  else body ++ bigEndian 4 (value.length % 2 ^ 32 ||| 0x80000000)

def addPair (body name value : Bytes) : Bytes :=
  addValue (addValue body name) value ++ name ++ value

/-- The pairs are added one after the other. -/
def addPairs (pairs : List (Bytes × Bytes)) : Bytes :=
  pairs.foldl (fun body x => addPair body x.1 x.2) []

/-! ## Reading -/

/-- `*p++`. -/
def next : Bytes → Option (UInt8 × Bytes)
  | [] => none
  | b :: rest => some (b, rest)

/-- What `read_len` returns where there is no length. -/
def noLength : ℕ := 0xFFFFFFFF

/-- The length in four octets. -/
def readLong (rest : Bytes) : Option (ℕ × Bytes) :=
  if 4 ≤ rest.length then do
    let (b3, rest) ← next rest
    let (b2, rest) ← next rest
    let (b1, rest) ← next rest
    let (b0, rest) ← next rest
    return ((((b3 &&& 0x7F).toNat <<< 24) + (b2.toNat <<< 16) + (b1.toNat <<< 8) + b0.toNat) % 2 ^
      32, rest)
  else some (noLength, rest)

def readLen (rest : Bytes) : Option (ℕ × Bytes) :=
  match rest with
  | [] => readLong []
  | b :: tail => if b < 0x80 then some (b.toNat, tail) else readLong (b :: tail)

/-- One round of the loop of `parse_pairs`.  The inner `none` is `return false`.  What is left of
the range is counted in 32 bits. -/
def parsePair (rest : Bytes) : Option (Option ((Bytes × Bytes) × Bytes)) := do
  let (nlen, rest) ← readLen rest
  let (vlen, rest) ← readLen rest
  if nlen = noLength ∨ vlen = noLength then return none
  if nlen ≤ rest.length % 2 ^ 32 then
    let name ← slice rest 0 nlen
    let rest := rest.drop nlen
    if vlen ≤ rest.length % 2 ^ 32 then
      let value ← slice rest 0 vlen
      return some ((name, value), rest.drop vlen)
    else return none
  else return none

/-- The loop of `parse_pairs`, which gives every pair to `add`. -/
def parseLoop {σ : Type} (add : σ → Bytes × Bytes → σ) : ℕ → Bytes → σ → Option (Bool × σ)
  | _, [], s => some (true, s)
  | 0, _ :: _, _ => none
  | n + 1, b :: rest, s =>
    match parsePair (b :: rest) with
    | none => none
    | some none => some (false, s)
    | some (some (x, rest)) => parseLoop add n rest (add s x)

/-- `parse_pairs` into a container. -/
def parsePairsInto (body : Bytes) (container : List (Bytes × Bytes)) :
    Option (Bool × List (Bytes × Bytes)) :=
  parseLoop (fun c x => c ++ [x]) body.length body container

/-- `string_pool::add`: the text to the first zero. -/
def poolAdd (s : Bytes) : Bytes := s.takeWhile (· ≠ 0)

/-- `parse_pairs` into the environment, given as the sequence of its calls of `env_.add`. -/
def parsePairs (body : Bytes) (env : List (Bytes × Bytes)) : Option (Bool × List (Bytes × Bytes)) :=
  parseLoop (fun c x => c ++ [(poolAdd x.1, poolAdd x.2)]) body.length body env

/-! ## The format -/

/-- The octets of a length. -/
inductive IsLength : Bytes → ℕ → Prop
  | short {b : UInt8} (h : b < 0x80) : IsLength [b] b.toNat
  | long {b3 b2 b1 b0 : UInt8} (h : 0x80 ≤ b3) :
    IsLength [b3, b2, b1, b0]
      ((b3.toNat - 128) * 2 ^ 24 + b2.toNat * 2 ^ 16 + b1.toNat * 2 ^ 8 + b0.toNat)

/-- The octets end before a length does. -/
def LacksLength (rest : Bytes) : Prop := rest.length < 4 ∧ ∀ b ∈ rest.head?, 0x80 ≤ b

variable {l : Bytes} {n : ℕ} {rest : Bytes} {x : Bytes × Bytes} {pairs : List (Bytes × Bytes)}

lemma IsLength.lt (h : IsLength l n) : n < 2 ^ 31 := by
  cases h with
  | @short b h =>
    have hb : b.toNat < 256 := b.toNat_lt
    omega
  | @long b3 b2 b1 b0 h =>
    have hb3 : b3.toNat < 256 := b3.toNat_lt
    have hb2 : b2.toNat < 256 := b2.toNat_lt
    have hb1 : b1.toNat < 256 := b1.toNat_lt
    have hb0 : b0.toNat < 256 := b0.toNat_lt
    omega

lemma IsLength.ne_nil (h : IsLength l n) : l ≠ [] := by
  cases h with
  | short h => exact List.cons_ne_nil _ _
  | long h => exact List.cons_ne_nil _ _

/-- The lowest seven bits of an octet with the highest bit. -/
lemma toNat_and_of_le {b : UInt8} (h : 0x80 ≤ b) : (b &&& 0x7F).toNat = b.toNat - 128 := by
  have hb : b.toNat < 256 := b.toNat_lt
  have hle : 128 ≤ b.toNat := h
  have hmask : (0x7F : UInt8).toNat = 2 ^ 7 - 1 := rfl
  rw [UInt8.toNat_and, hmask, Nat.and_two_pow_sub_one_eq_mod]
  omega

lemma readLong_cons {b3 : UInt8} (b2 b1 b0 : UInt8) (rest : Bytes) (h : 0x80 ≤ b3) :
    readLong (b3 :: b2 :: b1 :: b0 :: rest) =
      some ((b3.toNat - 128) * 2 ^ 24 + b2.toNat * 2 ^ 16 + b1.toNat * 2 ^ 8 + b0.toNat, rest) := by
  have hlt := (@IsLength.long b3 b2 b1 b0 h).lt
  have hlength : 4 ≤ (b3 :: b2 :: b1 :: b0 :: rest).length := by simp
  unfold readLong
  rw [if_pos hlength]
  simp only [next, Option.bind_eq_bind, Option.bind_some, Option.pure_def, toNat_and_of_le h,
    Nat.shiftLeft_eq]
  rw [Nat.mod_eq_of_lt (hlt.trans (by norm_num))]

lemma readLen_append (h : IsLength l n) (rest : Bytes) :
    readLen (l ++ rest) = some (n, rest) := by
  cases h with
  | @short b h =>
    rw [List.singleton_append, readLen, if_pos h]
  | @long b3 b2 b1 b0 h =>
    have hnot : ¬ b3 < 0x80 := UInt8.not_lt.2 h
    rw [List.cons_append, readLen, if_neg hnot]
    exact readLong_cons b2 b1 b0 rest h

lemma readLen_of_lacks (h : LacksLength rest) : readLen rest = some (noLength, rest) := by
  have hlong : readLong rest = some (noLength, rest) := by
    unfold readLong
    rw [if_neg (not_le.2 h.1)]
  cases rest with
  | nil => exact hlong
  | cons b tail =>
    have hnot : ¬ b < 0x80 := UInt8.not_lt.2 (h.2 b rfl)
    rw [readLen, if_neg hnot, hlong]

/-- There is a length, or the octets end in it. -/
lemma length_or_lacks (rest : Bytes) :
    (∃ l n t, IsLength l n ∧ rest = l ++ t) ∨ LacksLength rest := by
  match rest with
  | [] => exact .inr ⟨by simp, by simp⟩
  | b :: tail =>
    by_cases hb : b < 0x80
    · exact .inl ⟨[b], b.toNat, tail, .short hb, rfl⟩
    have hle : 0x80 ≤ b := UInt8.not_lt.1 hb
    match tail with
    | [] => exact .inr ⟨by simp, by simpa using hle⟩
    | [_] => exact .inr ⟨by simp, by simpa using hle⟩
    | [_, _] => exact .inr ⟨by simp, by simpa using hle⟩
    | b2 :: b1 :: b0 :: t => exact .inl ⟨[b, b2, b1, b0], _, t, .long hle, rfl⟩

/-! ## One pair -/

/-- The rest of the round after the two lengths. -/
lemma parsePair_lengths {ln lv : Bytes} {n v : ℕ} (hn : IsLength ln n) (hv : IsLength lv v)
    (rest : Bytes) :
    parsePair (ln ++ (lv ++ rest)) =
      if n ≤ rest.length % 2 ^ 32 ∧ v ≤ (rest.length - n) % 2 ^ 32 then
        some (some ((rest.take n, (rest.drop n).take v), (rest.drop n).drop v))
      else some none := by
  have hne : ¬ (n = noLength ∨ v = noLength) := by
    have hnlt := hn.lt
    have hvlt := hv.lt
    unfold noLength
    omega
  unfold parsePair
  rw [readLen_append hn, Option.bind_eq_bind, Option.bind_some]
  dsimp only
  rw [readLen_append hv, Option.bind_eq_bind, Option.bind_some]
  dsimp only
  rw [if_neg hne]
  by_cases hname : n ≤ rest.length % 2 ^ 32
  · have hnle : 0 + n ≤ rest.length := by
      have hmod := Nat.mod_le rest.length (2 ^ 32)
      omega
    rw [if_pos hname, slice_of_le hnle, Option.bind_some, List.drop_zero, List.length_drop]
    by_cases hvalue : v ≤ (rest.length - n) % 2 ^ 32
    · have hvle : 0 + v ≤ (rest.drop n).length := by
        have hmod := Nat.mod_le (rest.length - n) (2 ^ 32)
        rw [List.length_drop]
        omega
      rw [if_pos hvalue, if_pos ⟨hname, hvalue⟩, slice_of_le hvle, Option.bind_some, List.drop_zero]
      rfl
    · have hboth : ¬ (n ≤ rest.length % 2 ^ 32 ∧ v ≤ (rest.length - n) % 2 ^ 32) :=
        fun h => hvalue h.2
      rw [if_neg hvalue, if_neg hboth]
      rfl
  · have hboth : ¬ (n ≤ rest.length % 2 ^ 32 ∧ v ≤ (rest.length - n) % 2 ^ 32) := fun h => hname h.1
    rw [if_neg hname, if_neg hboth]
    rfl

lemma parsePair_lacks_name (h : LacksLength rest) : parsePair rest = some none := by
  unfold parsePair
  rw [readLen_of_lacks h, Option.bind_eq_bind, Option.bind_some]
  dsimp only
  rw [readLen_of_lacks h, Option.bind_eq_bind, Option.bind_some]
  dsimp only
  rw [if_pos (.inl rfl)]
  rfl

lemma parsePair_lacks_value {ln rest : Bytes} (hn : IsLength ln n) (h : LacksLength rest) :
    parsePair (ln ++ rest) = some none := by
  unfold parsePair
  rw [readLen_append hn, Option.bind_eq_bind, Option.bind_some]
  dsimp only
  rw [readLen_of_lacks h, Option.bind_eq_bind, Option.bind_some]
  dsimp only
  rw [if_pos (.inr rfl)]
  rfl

/-- Every round reads a pair or gives up. -/
lemma parsePair_cases (rest : Bytes) :
    parsePair rest = some none ∨
      ∃ ln lv name value t, IsLength ln name.length ∧ IsLength lv value.length ∧
        rest = ln ++ (lv ++ (name ++ (value ++ t))) ∧
        parsePair rest = some (some ((name, value), t)) := by
  rcases length_or_lacks rest with ⟨ln, n, t, hn, rfl⟩ | hlacks
  · rcases length_or_lacks t with ⟨lv, v, t', hv, rfl⟩ | hlacks
    · have hpair := parsePair_lengths hn hv t'
      split_ifs at hpair with hfits
      · right
        have hname : (t'.take n).length = n := by
          have hmod := Nat.mod_le t'.length (2 ^ 32)
          rw [List.length_take]
          omega
        have hvalue : ((t'.drop n).take v).length = v := by
          have hmod := Nat.mod_le (t'.length - n) (2 ^ 32)
          rw [List.length_take, List.length_drop]
          omega
        refine ⟨ln, lv, t'.take n, (t'.drop n).take v, (t'.drop n).drop v, ?_, ?_, ?_, hpair⟩
        · rwa [hname]
        · rwa [hvalue]
        · rw [List.take_append_drop, List.take_append_drop]
      · exact .inl hpair
    · exact .inl (parsePair_lacks_value hn hlacks)
  · exact .inl (parsePair_lacks_name hlacks)

/-! ## All pairs -/

section Loop

variable {σ : Type} (add : σ → Bytes × Bytes → σ)

/-- A round that reads a pair. -/
lemma parseLoop_of_pair {rest t : Bytes} {x : Bytes × Bytes} {n : ℕ} (hne : rest ≠ [])
    (h : parsePair rest = some (some (x, t))) (s : σ) :
    parseLoop add (n + 1) rest s = parseLoop add n t (add s x) := by
  rcases List.exists_cons_of_ne_nil hne with ⟨b, tail, rfl⟩
  rw [parseLoop, h]

/-- A round that gives up. -/
lemma parseLoop_of_none (hne : rest ≠ []) (hn : rest.length ≤ n) (h : parsePair rest = some none)
    (s : σ) : parseLoop add n rest s = some (false, s) := by
  rcases List.exists_cons_of_ne_nil hne with ⟨b, tail, rfl⟩
  obtain ⟨m, rfl⟩ : ∃ m, n = m + 1 := by
    rw [List.length_cons] at hn
    exact ⟨n - 1, by omega⟩
  rw [parseLoop, h]

/-- Octets that are a sequence of pairs. -/
inductive Encodes : Bytes → List (Bytes × Bytes) → Prop
  | nil : Encodes [] []
  | cons {ln lv name value rest : Bytes} {pairs : List (Bytes × Bytes)}
      (hn : IsLength ln name.length)
    (hv : IsLength lv value.length) (h : Encodes rest pairs) :
    Encodes (ln ++ (lv ++ (name ++ (value ++ rest)))) ((name, value) :: pairs)

/-- The loop ends and does not leave the octets; where it says that they are pairs, they are. -/
lemma parseLoop_ends (hn : rest.length ≤ n) (s : σ) :
    (∃ s', parseLoop add n rest s = some (false, s')) ∨
      ∃ pairs, Encodes rest pairs ∧ parseLoop add n rest s = some (true, pairs.foldl add s) := by
  induction n generalizing rest s with
  | zero =>
    have hnil : rest = [] := List.length_eq_zero_iff.1 (Nat.le_zero.1 hn)
    subst hnil
    exact .inr ⟨[], .nil, rfl⟩
  | succ n ih =>
    by_cases hne : rest = []
    · subst hne
      exact .inr ⟨[], .nil, rfl⟩
    rcases parsePair_cases rest with hnone | ⟨ln, lv, name, value, t, hln, hlv, hrest, hpair⟩
    · exact .inl ⟨s, parseLoop_of_none add hne hn hnone s⟩
    have hloop := @parseLoop_of_pair σ add rest t (name, value) n hne hpair s
    have hpos := List.length_pos_iff.2 hln.ne_nil
    have ht : t.length ≤ n := by
      rw [hrest] at hn
      simp only [List.length_append] at hn
      omega
    rcases ih ht (add s (name, value)) with ⟨s', hfalse⟩ | ⟨pairs, hpairs, htrue⟩
    · exact .inl ⟨s', hloop.trans hfalse⟩
    · right
      refine ⟨(name, value) :: pairs, ?_, hloop.trans htrue⟩
      rw [hrest]
      exact .cons hln hlv hpairs

/-- Some length is cut by the end of the octets, or leads behind it. -/
inductive RunsPast : Bytes → Prop
  | nameLength {rest : Bytes} (hne : rest ≠ []) (h : LacksLength rest) : RunsPast rest
  | valueLength {ln rest : Bytes} {n : ℕ} (hn : IsLength ln n) (h : LacksLength rest) :
      RunsPast (ln ++ rest)
  | contents {ln lv rest : Bytes} {n v : ℕ} (hn : IsLength ln n) (hv : IsLength lv v)
      (h : rest.length < n + v) :
    RunsPast (ln ++ (lv ++ rest))
  | later {ln lv name value rest : Bytes} (hn : IsLength ln name.length)
      (hv : IsLength lv value.length)
    (h : RunsPast rest) : RunsPast (ln ++ (lv ++ (name ++ (value ++ rest))))

lemma IsLength.append_ne_nil {l rest : Bytes} (h : IsLength l n) : l ++ rest ≠ [] :=
  List.append_ne_nil_of_left_ne_nil h.ne_nil rest

/-- The round at a whole pair. -/
lemma parsePair_pair {ln lv name value rest : Bytes} (hn : IsLength ln name.length)
    (hv : IsLength lv value.length) :
    parsePair (ln ++ (lv ++ (name ++ (value ++ rest)))) =
      if name.length ≤ (name.length + (value.length + rest.length)) % 2 ^ 32 ∧
          value.length ≤ (value.length + rest.length) % 2 ^ 32 then
        some (some ((name, value), rest))
      else some none := by
  rw [parsePair_lengths hn hv, List.take_left, List.drop_left, List.take_left, List.drop_left,
    List.length_append, List.length_append, Nat.add_sub_cancel_left]

lemma parseLoop_of_runsPast {body : Bytes} (h : RunsPast body) (hlength : body.length ≤ n) (s : σ) :
    ∃ s', parseLoop add n body s = some (false, s') := by
  induction h generalizing n s with
  | nameLength hne h => exact ⟨s, parseLoop_of_none add hne hlength (parsePair_lacks_name h) s⟩
  | valueLength hn h =>
    exact ⟨s, parseLoop_of_none add hn.append_ne_nil hlength (parsePair_lacks_value hn h) s⟩
  | @contents ln lv rest n' v hn hv h =>
    have hnot : ¬ (n' ≤ rest.length % 2 ^ 32 ∧ v ≤ (rest.length - n') % 2 ^ 32) := by
      have hmod := Nat.mod_le rest.length (2 ^ 32)
      have hmod' := Nat.mod_le (rest.length - n') (2 ^ 32)
      omega
    have hpair := parsePair_lengths hn hv rest
    rw [if_neg hnot] at hpair
    exact ⟨s, parseLoop_of_none add hn.append_ne_nil hlength hpair s⟩
  | @later ln lv name value rest hn hv h ih =>
    have hpair := @parsePair_pair ln lv name value rest hn hv
    have hpos := List.length_pos_iff.2 hn.ne_nil
    split_ifs at hpair with hfits
    · obtain ⟨m, rfl⟩ : ∃ m, n = m + 1 := by
        simp only [List.length_append] at hlength
        exact ⟨n - 1, by omega⟩
      have hrest : rest.length ≤ m := by
        simp only [List.length_append] at hlength
        omega
      rw [parseLoop_of_pair add hn.append_ne_nil hpair]
      exact ih hrest (add s (name, value))
    · exact ⟨s, parseLoop_of_none add hn.append_ne_nil hlength hpair s⟩

end Loop

/-! ## What was written -/

lemma isLength_long {v : ℕ} (hlow : 128 ≤ v) (hhigh : v < 2 ^ 31) :
    IsLength (bigEndian 4 (v % 2 ^ 32 ||| 0x80000000)) v := by
  have hor : v % 2 ^ 32 ||| 0x80000000 = 2 ^ 31 + v := by
    rw [Nat.mod_eq_of_lt (hhigh.trans (by norm_num)), Nat.or_comm]
    exact (Nat.two_pow_add_eq_or_of_lt hhigh 1).symm
  have h3 : (UInt8.ofNat ((2 ^ 31 + v) / 256 / 256 / 256)).toNat =
      (2 ^ 31 + v) / 256 / 256 / 256 := by
    rw [UInt8.toNat_ofNat']
    omega
  have hle : 0x80 ≤ UInt8.ofNat ((2 ^ 31 + v) / 256 / 256 / 256) := by
    rw [UInt8.le_iff_toNat_le, h3]
    show 128 ≤ (2 ^ 31 + v) / 256 / 256 / 256
    omega
  have hlong := @IsLength.long _ (UInt8.ofNat ((2 ^ 31 + v) / 256 / 256))
    (UInt8.ofNat ((2 ^ 31 + v) / 256))
    (UInt8.ofNat (2 ^ 31 + v)) hle
  have hvalue : ((UInt8.ofNat ((2 ^ 31 + v) / 256 / 256 / 256)).toNat - 128) * 2 ^ 24 +
      (UInt8.ofNat ((2 ^ 31 + v) / 256 / 256)).toNat * 2 ^ 16 +
        (UInt8.ofNat ((2 ^ 31 + v) / 256)).toNat * 2 ^ 8 +
      (UInt8.ofNat (2 ^ 31 + v)).toNat = v := by
    rw [h3, UInt8.toNat_ofNat', UInt8.toNat_ofNat', UInt8.toNat_ofNat']
    omega
  rw [hvalue] at hlong
  rw [hor]
  exact hlong

/-- A length is written as the reader expects it. -/
lemma addValue_eq {value : Bytes} (h : value.length < 2 ^ 31) :
    ∃ l, IsLength l value.length ∧ ∀ body, addValue body value = body ++ l := by
  by_cases hshort : value.length < 128
  · have hbyte : (UInt8.ofNat value.length).toNat = value.length := by
      rw [UInt8.toNat_ofNat']
      omega
    have hlt : UInt8.ofNat value.length < 0x80 := by
      rw [UInt8.lt_iff_toNat_lt, hbyte]
      exact hshort
    have hlength := IsLength.short hlt
    rw [hbyte] at hlength
    refine ⟨_, hlength, fun body => ?_⟩
    unfold addValue
    rw [if_pos hshort]
  · refine ⟨_, isLength_long (not_lt.1 hshort) h, fun body => ?_⟩
    unfold addValue
    rw [if_neg hshort]

lemma addPair_eq {name value : Bytes} (hname : name.length < 2 ^ 31)
    (hvalue : value.length < 2 ^ 31) :
    ∃ ln lv, IsLength ln name.length ∧ IsLength lv value.length ∧
      ∀ body, addPair body name value = body ++ (ln ++ (lv ++ (name ++ value))) := by
  rcases addValue_eq hname with ⟨ln, hln, hnameEq⟩
  rcases addValue_eq hvalue with ⟨lv, hlv, hvalueEq⟩
  refine ⟨ln, lv, hln, hlv, fun body => ?_⟩
  unfold addPair
  rw [hnameEq, hvalueEq]
  simp only [List.append_assoc]

/-- The lengths that have a form. -/
def Short (x : Bytes × Bytes) : Prop := x.1.length < 2 ^ 31 ∧ x.2.length < 2 ^ 31

lemma addPair_append (hx : Short x) (body : Bytes) :
    addPair body x.1 x.2 = body ++ addPair [] x.1 x.2 := by
  rcases addPair_eq hx.1 hx.2 with ⟨ln, lv, -, -, heq⟩
  rw [heq, heq, List.nil_append]

lemma foldl_addPair (hpairs : ∀ x ∈ pairs, Short x) (body : Bytes) :
    pairs.foldl (fun body x => addPair body x.1 x.2) body = body ++ addPairs pairs := by
  induction pairs generalizing body with
  | nil => exact (List.append_nil body).symm
  | cons x pairs ih =>
    have hx := hpairs x List.mem_cons_self
    have hrest := fun y hy => hpairs y (List.mem_cons_of_mem x hy)
    unfold addPairs
    rw [List.foldl_cons, List.foldl_cons, ih hrest, ih hrest, addPair_append hx body,
      List.append_assoc]

lemma addPairs_cons (hpairs : ∀ y ∈ x :: pairs, Short y) :
    ∃ ln lv, IsLength ln x.1.length ∧ IsLength lv x.2.length ∧
      addPairs (x :: pairs) = ln ++ (lv ++ (x.1 ++ (x.2 ++ addPairs pairs))) := by
  have hx := hpairs x List.mem_cons_self
  have hrest := fun y hy => hpairs y (List.mem_cons_of_mem x hy)
  rcases addPair_eq hx.1 hx.2 with ⟨ln, lv, hln, hlv, heq⟩
  refine ⟨ln, lv, hln, hlv, ?_⟩
  have hfold : addPairs (x :: pairs) = addPair [] x.1 x.2 ++ addPairs pairs :=
    foldl_addPair hrest (addPair [] x.1 x.2)
  rw [hfold, heq]
  simp only [List.append_assoc, List.nil_append]

/-- At no pair does the number of the octets from the name on, or of those from the value on, lose
so much in 32 bits that it is smaller than the name or the value. -/
def Fits : List (Bytes × Bytes) → Prop
  | [] => True
  | x :: pairs =>
    x.1.length ≤ (x.1.length + (x.2.length + (addPairs pairs).length)) % 2 ^ 32 ∧
      x.2.length ≤ (x.2.length + (addPairs pairs).length) % 2 ^ 32 ∧ Fits pairs

lemma fits_of_lt (hpairs : ∀ x ∈ pairs, Short x) (h : (addPairs pairs).length < 2 ^ 32) :
    Fits pairs := by
  induction pairs with
  | nil => trivial
  | cons x pairs ih =>
    rcases addPairs_cons hpairs with ⟨ln, lv, -, -, heq⟩
    rw [heq] at h
    simp only [List.length_append] at h
    have hrest := fun y hy => hpairs y (List.mem_cons_of_mem x hy)
    refine ⟨?_, ?_, ih hrest (by omega)⟩
    · rw [Nat.mod_eq_of_lt (by omega)]
      omega
    · rw [Nat.mod_eq_of_lt (by omega)]
      omega

section Written

variable {σ : Type} (add : σ → Bytes × Bytes → σ)

/-- The reader finds all pairs that were written, or says that they are none. -/
lemma parseLoop_addPairs (hpairs : ∀ x ∈ pairs, Short x) (hlength : (addPairs pairs).length ≤ n)
    (s : σ) :
    (Fits pairs ∧ parseLoop add n (addPairs pairs) s = some (true, pairs.foldl add s)) ∨
      (¬ Fits pairs ∧ ∃ s', parseLoop add n (addPairs pairs) s = some (false, s')) := by
  induction pairs generalizing n s with
  | nil =>
    have hnil : parseLoop add n [] s = some (true, s) := by
      cases n with
      | zero => rfl
      | succ n => rfl
    exact .inl ⟨trivial, hnil⟩
  | cons x pairs ih =>
    rcases addPairs_cons hpairs with ⟨ln, lv, hln, hlv, heq⟩
    have hrest := fun y hy => hpairs y (List.mem_cons_of_mem x hy)
    have hpos := List.length_pos_iff.2 hln.ne_nil
    have hpair := @parsePair_pair ln lv x.1 x.2 (addPairs pairs) hln hlv
    rw [heq] at hlength ⊢
    split_ifs at hpair with hfits
    · obtain ⟨m, rfl⟩ : ∃ m, n = m + 1 := by
        simp only [List.length_append] at hlength
        exact ⟨n - 1, by omega⟩
      have hm : (addPairs pairs).length ≤ m := by
        simp only [List.length_append] at hlength
        omega
      rw [parseLoop_of_pair add hln.append_ne_nil hpair]
      rcases ih hrest hm (add s x) with ⟨hall, htrue⟩ | ⟨hnot, hfalse⟩
      · exact .inl ⟨⟨hfits.1, hfits.2, hall⟩, htrue⟩
      · exact .inr ⟨fun h => hnot h.2.2, hfalse⟩
    · exact .inr
        ⟨fun h => hfits ⟨h.1, h.2.1⟩, s, parseLoop_of_none add hln.append_ne_nil hlength hpair s⟩

lemma parseLoop_addPairs_iff (hpairs : ∀ x ∈ pairs, Short x) (s : σ) :
    parseLoop add (addPairs pairs).length (addPairs pairs) s = some (true, pairs.foldl add s) ↔
    Fits pairs := by
  rcases parseLoop_addPairs add hpairs le_rfl s with ⟨hfits, htrue⟩ | ⟨hnot, s', hfalse⟩
  · exact iff_of_true htrue hfits
  · refine iff_of_false ?_ hnot
    rw [hfalse]
    simp

end Written

lemma foldl_concat {α β : Type} (g : α → β) (l : List α) (c : List β) :
    l.foldl (fun c x => c ++ [g x]) c = c ++ l.map g := by
  induction l generalizing c with
  | nil => exact (List.append_nil c).symm
  | cons x l ih => rw [List.foldl_cons, ih, List.map_cons, List.append_assoc, List.singleton_append]

/-- The pairs written by `add_pair` are read again exactly where the counts fit, and in both forms
of `parse_pairs`; any octets are read without leaving them, and refused if a length runs past the
end. -/
theorem parsePairs_addPairs :
    (∀ pairs : List (Bytes × Bytes), (∀ x ∈ pairs, x.1.length < 2 ^ 31 ∧ x.2.length < 2 ^ 31) →
      (parsePairsInto (addPairs pairs) [] = some (true, pairs) ↔ Fits pairs) ∧
      (∀ env, parsePairs (addPairs pairs) env =
          some (true, env ++ pairs.map fun x => (poolAdd x.1, poolAdd x.2)) ↔ Fits pairs) ∧
      ((addPairs pairs).length < 2 ^ 32 → Fits pairs)) ∧
    ∀ (body : Bytes) (c : List (Bytes × Bytes)),
      (∃ accepted c', parsePairsInto body c = some (accepted, c')) ∧
      (∃ accepted c', parsePairs body c = some (accepted, c')) ∧
      (RunsPast body → (∃ c', parsePairsInto body c = some (false, c')) ∧
        ∃ c', parsePairs body c = some (false, c')) := by
  constructor
  · intro pairs hpairs
    refine ⟨?_, fun env => ?_, fits_of_lt hpairs⟩
    · have hiff := parseLoop_addPairs_iff (fun c x => c ++ [x]) hpairs []
      have hfold := foldl_concat (fun x => x) pairs []
      rw [List.map_id', List.nil_append] at hfold
      rw [hfold] at hiff
      exact hiff
    · have hiff := parseLoop_addPairs_iff (fun c x => c ++ [(poolAdd x.1, poolAdd x.2)]) hpairs env
      rw [foldl_concat] at hiff
      exact hiff
  · intro body c
    have hends : ∀ add : List (Bytes × Bytes) → Bytes × Bytes → List (Bytes × Bytes),
        ∃ accepted c', parseLoop add body.length body c = some (accepted, c') := by
      intro add
      rcases parseLoop_ends add le_rfl c with ⟨c', hfalse⟩ | ⟨pairs, -, htrue⟩
      · exact ⟨false, c', hfalse⟩
      · exact ⟨true, _, htrue⟩
    refine ⟨hends _, hends _, fun hpast => ?_⟩
    exact ⟨parseLoop_of_runsPast _ hpast le_rfl c, parseLoop_of_runsPast _ hpast le_rfl c⟩

theorem parsePairs_addPairs_one :
    (∀ x ∈ [(bytes "FCGI_MAX_CONNS", bytes "")], x.1.length < 2 ^ 31 ∧ x.2.length < 2 ^ 31) ∧
      parsePairsInto (addPairs [(bytes "FCGI_MAX_CONNS", bytes "")]) [] =
        some (true, [(bytes "FCGI_MAX_CONNS", bytes "")]) :=
  ⟨by decide, ((parsePairs_addPairs.1 _ (by decide)).1).2
    ((parsePairs_addPairs.1 _ (by decide)).2.2 (by decide))⟩

/-- A name with a zero in it. -/
def zeroInName : List (Bytes × Bytes) := [([65, 0, 66], [67])]

/-- The environment form keeps the name up to its zero. -/
theorem parsePairs_cuts_name : (∀ x ∈ zeroInName, x.1.length < 2 ^ 31 ∧ x.2.length < 2 ^ 31) ∧
    parsePairs (addPairs zeroInName) [] ≠ some (true, zeroInName) := by
  decide

end Fastcgi

end Cppcms
