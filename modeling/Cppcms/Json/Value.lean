import Cppcms.Base.Strings
import Cppcms.Library.SortedMap

/-!
# JSON values

`json::value`.  The numbers are `double`s, whose arithmetic is not used: they are the elements of
any type.  An object is a `std::map`, the list of its members in the order of their keys.
-/

namespace Cppcms

namespace Json

inductive Value (ν : Type) where
  | undefined
  | null
  | boolean (b : Bool)
  | number (x : ν)
  | str (s : Bytes)
  | object (o : List (Bytes × Value ν))
  | array (a : List (Value ν))

namespace Value

variable {ν : Type}

/-- Induction over the members and the elements. -/
theorem induction {P : Value ν → Prop} (hundefined : P .undefined) (hnull : P .null)
    (hboolean : ∀ b, P (.boolean b)) (hnumber : ∀ x, P (.number x)) (hstr : ∀ s, P (.str s))
    (hobject : ∀ o : List (Bytes × Value ν), (∀ m ∈ o, P m.2) → P (.object o))
    (harray : ∀ a : List (Value ν), (∀ x ∈ a, P x) → P (.array a)) (v : Value ν) : P v := by
  refine @Value.rec ν P (fun o => ∀ m ∈ o, P m.2) (fun a => ∀ x ∈ a, P x) (fun m => P m.2)
    hundefined hnull hboolean
    hnumber hstr hobject harray ?_ ?_ ?_ ?_ ?_ v
  · intro m hm
    cases hm
  · intro m o hm ho m' hm'
    rcases List.mem_cons.1 hm' with rfl | hm'
    · exact hm
    · exact ho m' hm'
  · intro x hx
    cases hx
  · intro x a hx ha x' hx'
    rcases List.mem_cons.1 hx' with rfl | hx'
    · exact hx
    · exact ha x' hx'
  · intro k v hv
    exact hv

/-! ## Values with other numbers -/

mutual

/-- The value with its numbers replaced. -/
def map (f : ν → ν) : Value ν → Value ν
  | undefined => undefined
  | null => null
  | boolean b => boolean b
  | number x => number (f x)
  | str s => str s
  | object o => object (mapMembers f o)
  | array a => array (mapElements f a)

def mapMembers (f : ν → ν) : List (Bytes × Value ν) → List (Bytes × Value ν)
  | [] => []
  | (key, v) :: o => (key, map f v) :: mapMembers f o

def mapElements (f : ν → ν) : List (Value ν) → List (Value ν)
  | [] => []
  | v :: a => map f v :: mapElements f a

end

lemma mapMembers_eq (f : ν → ν) (o : List (Bytes × Value ν)) :
    mapMembers f o = o.map fun m => (m.1, map f m.2) := by
  induction o with
  | nil => rw [mapMembers, List.map_nil]
  | cons m o ih => rw [mapMembers, ih, List.map_cons]

lemma mapElements_eq (f : ν → ν) (a : List (Value ν)) : mapElements f a = a.map (map f) := by
  induction a with
  | nil => rw [mapElements, List.map_nil]
  | cons v a ih => rw [mapElements, ih, List.map_cons]

lemma map_id (v : Value ν) : map id v = v := by
  induction v using Value.induction with
  | hundefined => rw [map]
  | hnull => rw [map]
  | hboolean b => rw [map]
  | hnumber x => rw [map, id]
  | hstr s => rw [map]
  | hobject o ih =>
    have hsame : (o.map fun m => (m.1, map id m.2)) = o.map id :=
      List.map_congr_left fun m hm => Prod.ext rfl (ih m hm)
    rw [map, mapMembers_eq, hsame, List.map_id]
  | harray a ih =>
    have hsame : a.map (map id) = a.map id := List.map_congr_left ih
    rw [map, mapElements_eq, hsame, List.map_id]

end Value

end Json

end Cppcms
