import Cppcms.Base.Strings
import Cppcms.Http.Protocol
import Cppcms.Library.SortedMap

/-!
# Content types

`content_type` of `http_content_type.cpp`.
-/

namespace Cppcms

namespace Http

open Protocol

structure ContentType where
  type : Bytes
  subtype : Bytes
  mediaType : Bytes
  parameters : SortedMap Bytes Bytes

namespace ContentType

/-- What an object without a type has. -/
def none : ContentType := ⟨[], [], [], ∅⟩

/-- A round of the loop over the parameters, as far as it gets to a value. -/
def parameter (p : Bytes) : Option ((Bytes × Bytes) × Bytes) := do
  let p ← expect Ch.semicolon (skipWs p)
  let (param, p) ← nonemptyTocken (skipWs p)
  let p ← expect Ch.eq (skipWs p)
  let (v, p) ← value (skipWs p)
  return ((param.map asciiToLower, v), p)

/-- The loop over the parameters, which ends at the first one that is not well formed. -/
def parseParameters : ℕ → Bytes → SortedMap Bytes Bytes → SortedMap Bytes Bytes
  | 0, _, m => m
  | fuel + 1, p, m =>
    match parameter p with
    | .none => m
    | some (x, p) => parseParameters fuel p (m.insertNew x.1 x.2)

/-- The type and the subtype, and what is behind them. -/
def parseTypes (p : Bytes) : Option (Bytes × Bytes × Bytes) := do
  let (type, p) ← nonemptyTocken (skipWs p)
  let p ← expect Ch.slash p
  let (subtype, p) ← nonemptyTocken p
  return (type.map asciiToLower, subtype.map asciiToLower, p)

/-- `parse`.  Every parameter has a character at least. -/
def parse (s : Bytes) : ContentType :=
  match parseTypes s with
  | .none => none
  | some (type, subtype, p) =>
      ⟨type, subtype, type ++ bytes "/" ++ subtype, parseParameters p.length p ∅⟩

def parameterByKey (ct : ContentType) (key : Bytes) : Bytes := (ct.parameters.find key).getD []

def isFormUrlencoded (ct : ContentType) : Bool :=
  ct.mediaType = bytes "application/x-www-form-urlencoded"

def isMultipartFormData (ct : ContentType) : Bool := ct.mediaType = bytes "multipart/form-data"

/-- A type and a subtype in lower case. -/
structure IsMediaType (type subtype : Bytes) : Prop where
  type_ne : type ≠ []
  subtype_ne : subtype ≠ []
  type_tocken : ∀ c ∈ type, isTocken c
  subtype_tocken : ∀ c ∈ subtype, isTocken c
  type_lower : ∀ c ∈ type, asciiToLower c = c
  subtype_lower : ∀ c ∈ subtype, asciiToLower c = c

lemma map_asciiToLower {s : Bytes} (hs : ∀ c ∈ s, asciiToLower c = c) : s.map asciiToLower = s := by
  conv_rhs => rw [← List.map_id s]
  exact List.map_congr_left hs

/-- A media type without parameters is read as it is. -/
lemma parse_mediaType {type subtype : Bytes} (h : IsMediaType type subtype) :
    (parse (type ++ bytes "/" ++ subtype)).mediaType = type ++ bytes "/" ++ subtype := by
  have hskip : skipWs (type ++ bytes "/" ++ subtype) = type ++ Ch.slash :: subtype := by
    rcases List.exists_cons_of_ne_nil h.type_ne with ⟨c, t, rfl⟩
    rw [List.append_assoc]
    exact skipWs_of_isTocken (h.type_tocken c List.mem_cons_self) _
  have htypes : parseTypes (type ++ bytes "/" ++ subtype) = some (type, subtype, []) := by
    have hsub : nonemptyTocken subtype = some (subtype, []) := by
      unfold nonemptyTocken
      rw [tocken_self h.subtype_tocken, if_neg h.subtype_ne]
    unfold parseTypes
    rw [hskip, nonemptyTocken_append h.type_ne h.type_tocken (by decide)]
    simp only [Option.bind_eq_bind, Option.bind_some, expect_cons, hsub, Option.pure_def]
    rw [map_asciiToLower h.type_lower, map_asciiToLower h.subtype_lower]
  unfold parse
  rw [htypes]

end ContentType

end Http

end Cppcms
