import Cppcms.Base.Bytes

/-!
# Hexadecimal digits

`tohex` of `tohex.h` and `urlencode` of `util.cpp`.
-/

namespace Cppcms

/-- The digit for four bits. -/
def hexDigit (v : UInt8) : UInt8 := (bytes "0123456789abcdef").getD v.toNat 0

/-- The two digits of an octet. -/
def hexOctet (v : UInt8) : Bytes := [hexDigit ((v >>> 4) &&& 0xF), hexDigit (v &&& 0xF)]

/-- `tohex`. -/
def tohex (x : Bytes) : Bytes := x.flatMap hexOctet

/-- The digits that `tohex` writes. -/
def isLowHexDigit (c : UInt8) : Bool := (0x30 ≤ c && c ≤ 0x39) || (0x61 ≤ c && c ≤ 0x66)

/-- The characters that have no special meaning in a URL. -/
def isUnreserved (c : UInt8) : Bool :=
  (0x61 ≤ c && c ≤ 0x7A) || (0x41 ≤ c && c ≤ 0x5A) || (0x30 ≤ c && c ≤ 0x39) ||
    c = Ch.minus || c = Ch.underscore || c = Ch.dot || c = Ch.tilde

/-- `urlencode`. -/
def urlencode (x : Bytes) : Bytes :=
  x.flatMap fun c => if isUnreserved c then [c] else Ch.percent :: hexOctet c

lemma forall_uint8 {P : UInt8 → Prop} (h : ∀ n < 256, P (UInt8.ofNat n)) (v : UInt8) : P v := by
  have hv := h v.toNat v.toNat_lt
  rwa [UInt8.ofNat_toNat] at hv

/-- The digit for four bits of an octet. -/
lemma isLowHexDigit_hexDigit_and (v : UInt8) : isLowHexDigit (hexDigit (v &&& 0xF)) := by
  have hdigits : ∀ n < 16, isLowHexDigit ((bytes "0123456789abcdef").getD n 0) = true := by decide
  have hlt : (v &&& 0xF).toNat < 16 := by
    rw [UInt8.toNat_and]
    exact Nat.lt_succ_of_le Nat.and_le_right
  exact hdigits _ hlt

lemma isLowHexDigit_of_mem_hexOctet (v : UInt8) : ∀ c ∈ hexOctet v, isLowHexDigit c := by
  intro c hc
  unfold hexOctet at hc
  rcases List.mem_cons.1 hc with rfl | hc
  · exact isLowHexDigit_hexDigit_and _
  · rw [List.mem_singleton.1 hc]
    exact isLowHexDigit_hexDigit_and v

variable {c : UInt8} {x : Bytes}

lemma isLowHexDigit_of_mem_tohex (hc : c ∈ tohex x) : isLowHexDigit c := by
  obtain ⟨v, -, hc⟩ := List.mem_flatMap.1 hc
  exact isLowHexDigit_of_mem_hexOctet v c hc

lemma length_tohex (x : Bytes) : (tohex x).length = 2 * x.length := by
  unfold tohex
  induction x with
  | nil => rfl
  | cons v x ih =>
    rw [List.flatMap_cons, List.length_append, ih, List.length_cons, hexOctet, List.length_cons,
      List.length_singleton]
    omega

lemma isUnreserved_of_isLowHexDigit (h : isLowHexDigit c) : isUnreserved c := by
  unfold isLowHexDigit at h
  unfold isUnreserved
  simp only [Bool.or_eq_true, Bool.and_eq_true, decide_eq_true_eq, UInt8.le_iff_toNat_le] at h ⊢
  rcases h with ⟨hlow, hhigh⟩ | ⟨hlow, hhigh⟩
  · exact .inl (.inl (.inl (.inl (.inr ⟨hlow, hhigh⟩))))
  · exact .inl (.inl (.inl (.inl (.inl (.inl ⟨hlow, hhigh.trans (by decide)⟩)))))

/-- A text without special characters stays as it is. -/
lemma urlencode_of_isUnreserved (hx : ∀ c ∈ x, isUnreserved c) : urlencode x = x := by
  unfold urlencode
  induction x with
  | nil => rfl
  | cons c x ih =>
    rw [List.flatMap_cons, if_pos (hx c List.mem_cons_self), ih fun d hd =>
      hx d (List.mem_cons_of_mem c hd)]
    rfl

end Cppcms
