import Cppcms.Tcp.Server

/-!
# The lengths of a store request

`session::store` of `tcp_cache_server.cpp` with the fields of the header as they come, sums of 32
bits and the walk of `load_triggers` from string to string.  The sum of the three lengths is
compared with the size after it has lost what does not fit in 32 bits.
-/

namespace Cppcms

namespace Tcp

open Cache

/-- A header with the opcode `store` and the data that were read after it. -/
structure StoreMessage where
  size : UInt32
  timeout : ℤ
  keyLen : UInt32
  dataLen : UInt32
  triggersLen : UInt32
  dataIn : Bytes
  /-- `data_in_` is resized to `hin_.size` and filled -/
  length_dataIn : dataIn.length = size.toNat

/-! ## The triggers -/

/-- `strlen`, from a position of the text; `c_str` has a null character at its end. -/
def strlen (text : Bytes) (start : ℕ) : Option ℕ :=
  if start ≤ text.length then some ((text.drop start).takeWhile (· ≠ 0)).length else none

/-- The loop of `load_triggers`; the inner `none` is for the result `false`, the outer one for a
`strlen` behind the text. -/
def loadTriggersFrom (text : Bytes) (start : ℕ) (slen : ℤ) (triggers : StringSet) :
    Option (Option StringSet) :=
  if slen > 0 then
    match strlen text start with
    | none => none
    | some size =>
      if size = 0 then some none
      else loadTriggersFrom text (start + (size + 1)) (slen - (size + 1))
        (triggers.insert ((text.drop start).take size))
  else some (some triggers)
termination_by slen.toNat
decreasing_by omega

/-! ## The request -/

/-- `session::store`. -/
def sessionStore (settings : Settings) (c : MemCache) (now : ℤ) (memory : Cache.Memory)
    (m : StoreMessage) :
    Option (MemCache × Message) :=
  if m.keyLen + m.dataLen + m.triggersLen ≠ m.size ∨ m.keyLen = 0 then some (c, ⟨.error, []⟩)
  else
    (slice m.dataIn (m.keyLen.toNat + m.dataLen.toNat) m.triggersLen.toNat).bind fun ts =>
      (loadTriggersFrom ts 0 (toInt m.triggersLen.toNat) ∅).bind fun loaded =>
        match loaded with
        | none => some (c, ⟨.error, []⟩)
        | some triggers =>
          (slice m.dataIn 0 m.keyLen.toNat).bind fun key =>
            (slice m.dataIn m.keyLen.toNat m.dataLen.toNat).bind fun data =>
              (c.store settings now memory key data triggers m.timeout none).map fun c =>
                (c, ⟨.done, []⟩)

/-- The ranges of the data that are taken for the key, the data and the triggers. -/
def StoreMessage.ranges (m : StoreMessage) : List (ℕ × ℕ) :=
  [(0, m.keyLen.toNat), (m.keyLen.toNat, m.dataLen.toNat),
    (m.keyLen.toNat + m.dataLen.toNat, m.triggersLen.toNat)]

/-- The ranges follow one another from a position to the end. -/
def Covers : List (ℕ × ℕ) → ℕ → ℕ → Prop
  | [], pos, stop => pos = stop
  | range :: ranges, pos, stop => range.1 = pos ∧ range.1 + range.2 ≤ stop ∧
      Covers ranges (range.1 + range.2) stop

/-- The request is answered with an error and changes nothing, or else the ranges it takes cover the
data. -/
def Validated (settings : Settings) (c : MemCache) (now : ℤ) (memory : Cache.Memory)
    (m : StoreMessage) : Prop :=
  sessionStore settings c now memory m = some (c, ⟨.error, []⟩) ∨ Covers m.ranges 0 m.dataIn.length

/-! ## The walk -/

section Walk

variable {text : Bytes}

/-- The walk stays in the text, and what it collects are the strings between null characters. -/
lemma loadTriggersFrom_eq (n start : ℕ) (slen : ℤ) (triggers : StringSet) (hn : slen.toNat = n)
    (hslen : start + slen = text.length) :
    loadTriggersFrom text start slen triggers = some ((pieces 0 (text.drop start)).foldlM
      (fun triggers tag => if tag.isEmpty then none else some (triggers.insert tag)) triggers) := by
  induction n using Nat.strong_induction_on generalizing start slen triggers with
  | _ n ih =>
    rw [loadTriggersFrom]
    by_cases hpos : slen > 0
    · have hin : start ≤ text.length := by omega
      have hne : text.drop start ≠ [] := by
        intro hnil
        have hlen := congrArg List.length hnil
        rw [List.length_drop, List.length_nil] at hlen
        omega
      obtain ⟨size, hsize⟩ : ∃ size, ((text.drop start).takeWhile (· ≠ 0)).length = size := ⟨_, rfl⟩
      have hstrlen : strlen text start = some size := by
        unfold strlen
        rw [if_pos hin, hsize]
      have hle : size ≤ text.length - start := by
        have hprefix := (List.takeWhile_prefix (l := text.drop start) (· ≠ 0)).length_le
        rw [hsize, List.length_drop] at hprefix
        exact hprefix
      rw [if_pos hpos, hstrlen, pieces_cons hne, List.foldlM_cons]
      by_cases hzero : size = 0
      · have hempty : (text.drop start).takeWhile (· ≠ 0) = [] :=
          List.length_eq_zero_iff.mp (hsize.trans hzero)
        rw [hempty]
        simp [hzero]
      · have hfirst : (text.drop start).takeWhile (· ≠ 0) = (text.drop start).take size := by
          rw [takeWhile_eq_take, hsize]
        have hrest : ((text.drop start).dropWhile (· ≠ 0)).drop 1 =
            text.drop (start + (size + 1)) := by
          rw [dropWhile_eq_drop, hsize, List.drop_drop, List.drop_drop]
        have hfilled : ((text.drop start).take size).isEmpty = false := by
          rw [← hfirst, List.isEmpty_eq_false_iff, ← List.length_pos_iff, hsize]
          omega
        rw [hrest, hfirst, hfilled]
        simp only [if_neg hzero]
        rw [ih (slen - (size + 1)).toNat (by omega) _ _ _ rfl (by push_cast; omega)]
        rfl
    · have hend : text.drop start = [] := List.drop_eq_nil_of_le (by omega)
      rw [if_neg hpos, hend]
      rfl

/-- The walk and the strings of the other model. -/
lemma loadTriggersFrom_zero (h : text.length < 2 ^ 32) :
    loadTriggersFrom text 0 (toInt text.length) ∅ = some (loadTriggers text text.length) := by
  unfold loadTriggers readStrings toInt
  by_cases hbig : 2 ^ 31 ≤ text.length
  · -- the counter is negative
    have hneg : ¬ (text.length : ℤ).bmod (2 ^ 32) > 0 := by
      rw [Int.bmod_def]
      omega
    rw [loadTriggersFrom, if_neg hneg, if_pos hbig]
    rfl
  · have hsame : (text.length : ℤ).bmod (2 ^ 32) = text.length := by
      rw [Int.bmod_eq_of_le] <;> omega
    rw [hsame, if_neg hbig, loadTriggersFrom_eq _ 0 _ _ rfl (by omega)]
    rfl

end Walk

/-! ## The check -/

section Check

variable (settings : Settings) (c : MemCache) (now : ℤ) (memory : Cache.Memory) (m : StoreMessage)

/-- The sum of the lengths in 32 bits. -/
lemma add_eq_size_iff : m.keyLen + m.dataLen + m.triggersLen = m.size ↔
    uint32 (m.keyLen.toNat + m.dataLen.toNat + m.triggersLen.toNat) = m.dataIn.length := by
  unfold uint32
  rw [m.length_dataIn, ← UInt32.toNat_inj, UInt32.toNat_add, UInt32.toNat_add, Nat.mod_add_mod]

/-- The request as the model of the server answers it. -/
theorem sessionStore_eq : sessionStore settings c now memory m =
    serveStore settings c now memory m.timeout m.keyLen.toNat m.dataLen.toNat
      m.triggersLen.toNat m.dataIn := by
  have hkey : m.keyLen = 0 ↔ m.keyLen.toNat = 0 := by
    rw [← UInt32.toNat_inj, UInt32.toNat_zero]
  have hcheck : (m.keyLen + m.dataLen + m.triggersLen ≠ m.size ∨ m.keyLen = 0) ↔
      (uint32 (m.keyLen.toNat + m.dataLen.toNat + m.triggersLen.toNat) ≠ m.dataIn.length ∨
        m.keyLen.toNat = 0) :=
    or_congr (not_congr (add_eq_size_iff m)) hkey
  unfold sessionStore serveStore
  by_cases hreject : m.keyLen + m.dataLen + m.triggersLen ≠ m.size ∨ m.keyLen = 0
  · rw [if_pos hreject, if_pos (hcheck.mp hreject)]
  · rw [if_neg hreject, if_neg (mt hcheck.mpr hreject)]
    cases hslice : slice m.dataIn (m.keyLen.toNat + m.dataLen.toNat) m.triggersLen.toNat with
    | none => rw [Option.bind_none, Option.bind_none]
    | some ts =>
      have hlen : ts.length = m.triggersLen.toNat := length_of_slice hslice
      have hlt : ts.length < 2 ^ 32 := by
        have htoNat := m.triggersLen.toNat_lt
        omega
      have hload : loadTriggersFrom ts 0 (toInt ts.length) ∅ = some (loadTriggers ts ts.length) :=
        loadTriggersFrom_zero hlt
      rw [Option.bind_some, Option.bind_some, ← hlen, hload]
      rcases loadTriggers ts ts.length with _ | triggers
      · rfl
      · rfl

/-- The ranges cover the data exactly if the lengths add up to the size. -/
lemma covers_ranges_iff : Covers m.ranges 0 m.dataIn.length ↔
    m.keyLen.toNat + m.dataLen.toNat + m.triggersLen.toNat = m.dataIn.length := by
  unfold StoreMessage.ranges Covers Covers Covers Covers
  constructor
  · rintro ⟨-, -, -, -, -, -, hend⟩
    exact hend
  · intro hsum
    refine ⟨rfl, ?_, (Nat.zero_add _).symm, ?_, rfl, hsum.le, hsum⟩
    · show 0 + m.keyLen.toNat ≤ m.dataIn.length
      omega
    · show m.keyLen.toNat + m.dataLen.toNat ≤ m.dataIn.length
      omega

/-- Lengths that add up to more than what fits in 32 bits and pass the check have the data read
behind its end. -/
lemma sessionStore_eq_none (hkey : m.keyLen ≠ 0)
    (hsum : m.keyLen + m.dataLen + m.triggersLen = m.size)
    (hbig : 2 ^ 32 ≤ m.keyLen.toNat + m.dataLen.toNat + m.triggersLen.toNat) :
    sessionStore settings c now memory m = none := by
  have hpass : ¬ (m.keyLen + m.dataLen + m.triggersLen ≠ m.size ∨ m.keyLen = 0) := by
    rintro (hne | hzero)
    · exact hne hsum
    · exact hkey hzero
  have hlen := m.length_dataIn
  have hsize := m.size.toNat_lt
  have hout : ¬ m.keyLen.toNat + m.dataLen.toNat + m.triggersLen.toNat ≤ m.dataIn.length := by omega
  have hslice : slice m.dataIn (m.keyLen.toNat + m.dataLen.toNat) m.triggersLen.toNat = none :=
    if_neg hout
  unfold sessionStore
  rw [if_neg hpass, hslice]
  rfl

/-- A store request is answered with an error or takes ranges that cover its data, exactly if the
lengths are rejected or add up without loss. -/
theorem validated_iff : Validated settings c now memory m ↔
    m.keyLen = 0 ∨ m.keyLen + m.dataLen + m.triggersLen ≠ m.size ∨
      m.keyLen.toNat + m.dataLen.toNat + m.triggersLen.toNat < 2 ^ 32 := by
  by_cases hreject : m.keyLen + m.dataLen + m.triggersLen ≠ m.size ∨ m.keyLen = 0
  · refine iff_of_true (.inl (if_pos hreject)) ?_
    rcases hreject with hne | hzero
    · exact .inr (.inl hne)
    · exact .inl hzero
  · rw [not_or, not_not] at hreject
    obtain ⟨hsum, hkey⟩ := hreject
    have hmod := (add_eq_size_iff m).mp hsum
    constructor
    · rintro (herror | hcovers)
      · by_contra hnot
        push Not at hnot
        rw [sessionStore_eq_none settings c now memory m hkey hsum hnot.2.2] at herror
        exact absurd herror (by simp)
      · rw [covers_ranges_iff, m.length_dataIn] at hcovers
        have hsize := m.size.toNat_lt
        exact .inr (.inr (hcovers.trans_lt hsize))
    · rintro (hzero | hne | hlt)
      · exact absurd hzero hkey
      · exact absurd hsum hne
      · rw [uint32, Nat.mod_eq_of_lt hlt] at hmod
        exact .inr ((covers_ranges_iff m).mpr hmod)

end Check

/-- A key of all but one of the lengths that there are and two octets of data pass for a request of
one octet. -/
theorem store_outside :
    ¬ ∀ (settings : Settings) (c : MemCache) (now : ℤ) (memory : Cache.Memory) (m : StoreMessage),
      Validated settings c now memory m := by
  intro h
  have hvalid :=
    h .thread (MemCache.init 1) 0 Cache.Memory.enough ⟨1, 0, 0xFFFFFFFF, 2, 0, [0], rfl⟩
  rcases hvalid with herror | hcovers
  · rw [sessionStore_eq_none _ _ _ _ _ (by decide) (by decide) (by decide)] at herror
    exact absurd herror (by simp)
  · exact absurd ((covers_ranges_iff _).mp hcovers) (by decide)

end Tcp

end Cppcms
