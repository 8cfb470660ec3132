import Cppcms.Library.LittleEndian

/-!
# Octets at addresses

Numbers are kept at addresses, as octets with the lowest one first.  What is loaded is what was
stored there, and what was stored elsewhere does not matter; that numbers may overlap is seen.
-/

namespace Cppcms

/-- An octet for every address. -/
abbrev Memory := ℕ → UInt8

namespace Memory

/-- Some octets. -/
def read (m : Memory) (a n : ℕ) : List UInt8 := (List.range n).map fun i => m (a + i)

/-- Some octets are replaced. -/
def write (m : Memory) (a : ℕ) (s : List UInt8) : Memory := fun x =>
  if a ≤ x ∧ x < a + s.length then s.getD (x - a) 0 else m x

/-- The number of so many octets at an address. -/
def load (w : ℕ) (m : Memory) (a : ℕ) : ℕ := fromLittleEndian (m.read a w)

/-- A number is put at an address. -/
def store (w : ℕ) (m : Memory) (a v : ℕ) : Memory := m.write a (littleEndian w v)

variable {m m' : Memory} {a b n v w w' x : ℕ} {s : List UInt8}

@[simp] lemma length_read : (m.read a n).length = n := by
  unfold read
  rw [List.length_map, List.length_range]

lemma read_congr (h : ∀ x, a ≤ x → x < a + n → m x = m' x) : m.read a n = m'.read a n := by
  refine List.map_congr_left fun i hi => ?_
  have hlt := List.mem_range.mp hi
  exact h (a + i) (by omega) (by omega)

lemma write_of_outside (h : x < a ∨ a + s.length ≤ x) : m.write a s x = m x := by
  refine if_neg ?_
  omega

lemma read_write : (m.write a s).read a s.length = s := by
  refine List.ext_getElem? fun i => ?_
  unfold read
  rw [List.getElem?_map]
  by_cases hi : i < s.length
  · have hin : a ≤ a + i ∧ a + i < a + s.length := by omega
    have hsub : a + i - a = i := by omega
    have hvalue : m.write a s (a + i) = s.getD i 0 := by
      unfold write
      rw [if_pos hin, hsub]
    rw [List.getElem?_range hi, Option.map_some, hvalue, List.getD_eq_getElem?_getD,
      List.getElem?_eq_getElem hi]
    rfl
  · rw [List.getElem?_eq_none (by rw [List.length_range]; omega), List.getElem?_eq_none (by omega)]
    rfl

/-- Other octets stay as they are. -/
lemma store_of_outside (h : x < a ∨ a + w ≤ x) : m.store w a v x = m x := by
  refine write_of_outside ?_
  rw [length_littleEndian]
  exact h

/-- A number that was stored is loaded. -/
lemma load_store (h : v < 256 ^ w) : (m.store w a v).load w a = v := by
  have hread := @read_write m a (littleEndian w v)
  rw [length_littleEndian] at hread
  unfold load store
  rw [hread, fromLittleEndian_of_lt h]

/-- A number is loaded as if another one had not been stored elsewhere. -/
lemma load_store_of_disjoint (h : a + w ≤ b ∨ b + w' ≤ a) :
    (m.store w' b v).load w a = m.load w a := by
  unfold load
  refine congrArg fromLittleEndian (read_congr fun x hlow hhigh => store_of_outside ?_)
  omega

end Memory

end Cppcms
