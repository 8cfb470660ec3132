import Cppcms.Json.Parser

/-!
# The grammar of JSON

What the parser is for.  `Parses` are the derivations of the grammar, in which a comma may stand
behind the last element of an array or the last member of an object, the keys of an object are
distinct, and arrays and objects are nested to a given depth at most.  `readValue` is a parser by
recursive descent, and it finds exactly the derivations.
-/

namespace Cppcms

namespace Json

variable {ν : Type}

/-- What is derived: a value, the elements of an array up to its end, or the members of an object up
to its end. -/
inductive Item (ν : Type) where
  | value (v : Value ν)
  | elements (a : List (Value ν))
  | members (o : List (Bytes × Value ν))

/-- The object with the given members in the order of their keys. -/
def addMembers (o ms : List (Bytes × Value ν)) : List (Bytes × Value ν) :=
  ms.foldl (fun o m => SortedMap.insertList m.1 m.2 o) o

/-- The derivations of an item at the front of a list of tokens, with the tokens behind it. -/
inductive Parses : ℕ → Item ν → List (Token ν) → List (Token ν) → Prop
  | scalar {d : ℕ} {t : Token ν} {v : Value ν} {ts : List (Token ν)} (h : t.scalar = some v) :
    Parses d (.value v) (t :: ts) ts
  | array {d : ℕ} {a : List (Value ν)} {ts ts' : List (Token ν)}
      (h : Parses d (.elements a) ts ts') :
    Parses (d + 1) (.value (.array a)) (.openArray :: ts) ts'
  | object {d : ℕ} {o : List (Bytes × Value ν)} {ts ts' : List (Token ν)}
      (h : Parses d (.members o) ts ts')
    (hkeys : (o.map Prod.fst).Nodup) :
    Parses (d + 1) (.value (.object (addMembers [] o))) (.openObject :: ts) ts'
  | closeArray {d : ℕ} {ts : List (Token ν)} : Parses d (.elements []) (.closeArray :: ts) ts
  | lastElement {d : ℕ} {v : Value ν} {ts ts' : List (Token ν)}
      (h : Parses d (.value v) ts (.closeArray :: ts')) :
    Parses d (.elements [v]) ts ts'
  | nextElement {d : ℕ} {v : Value ν} {a : List (Value ν)} {ts ts' ts'' : List (Token ν)}
    (h : Parses d (.value v) ts (.comma :: ts')) (ha : Parses d (.elements a) ts' ts'') :
    Parses d (.elements (v :: a)) ts ts''
  | closeObject {d : ℕ} {ts : List (Token ν)} : Parses d (.members []) (.closeObject :: ts) ts
  | lastMember {d : ℕ} {key : Bytes} {v : Value ν} {ts ts' : List (Token ν)}
    (h : Parses d (.value v) ts (.closeObject :: ts')) :
    Parses d (.members [(key, v)]) (.str key :: .colon :: ts) ts'
  | nextMember {d : ℕ} {key : Bytes} {v : Value ν} {o : List (Bytes × Value ν)}
      {ts ts' ts'' : List (Token ν)}
    (h : Parses d (.value v) ts (.comma :: ts')) (ho : Parses d (.members o) ts' ts'') :
    Parses d (.members ((key, v) :: o)) (.str key :: .colon :: ts) ts''

/-! ## Recursive descent -/

mutual

/-- The value that begins with a token.  The first number bounds the calls, the second one the
depth. -/
def readValue : ℕ → ℕ → Token ν → List (Token ν) → Option (Value ν × List (Token ν))
  | 0, _, _, _ => none
  | n + 1, d, t, ts =>
    match t with
    | .openArray =>
      match d with
      | 0 => none
      | d + 1 => (readElements n d [] ts).map fun r => (.array r.1, r.2)
    | .openObject =>
      match d with
      | 0 => none
      | d + 1 => (readMembers n d [] ts).map fun r => (.object r.1, r.2)
    | t => t.scalar.map fun v => (v, ts)

/-- The elements up to the end of an array, behind the given ones. -/
def readElements :
    ℕ → ℕ → List (Value ν) → List (Token ν) → Option (List (Value ν) × List (Token ν))
  | 0, _, _, _ => none
  | _ + 1, _, _, [] => none
  | _ + 1, _, a, .closeArray :: ts => some (a, ts)
  | n + 1, d, a, t :: ts =>
    match readValue n d t ts with
    | some (v, .closeArray :: ts) => some (a ++ [v], ts)
    | some (v, .comma :: ts) => readElements n d (a ++ [v]) ts
    | _ => none

/-- The members up to the end of an object, besides the given ones. -/
def readMembers : ℕ → ℕ → List (Bytes × Value ν) → List (Token ν) →
    Option (List (Bytes × Value ν) × List (Token ν))
  | 0, _, _, _ => none
  | _ + 1, _, o, .closeObject :: ts => some (o, ts)
  | n + 1, d, o, .str key :: .colon :: t :: ts =>
    if o.any fun m => m.1 = key then none
    else
      match readValue n d t ts with
      | some (v, .closeObject :: ts) => some (SortedMap.insertList key v o, ts)
      | some (v, .comma :: ts) => readMembers n d (SortedMap.insertList key v o) ts
      | _ => none
  | _ + 1, _, _, _ => none

end

/-- The value at the front of the tokens. -/
def readFirst (d : ℕ) : List (Token ν) → Option (Value ν × List (Token ν))
  | [] => none
  | t :: ts => readValue (2 * ts.length + 2) d t ts

/-- All the tokens are one value. -/
def readAll (d : ℕ) (ts : List (Token ν)) : Option (Value ν) :=
  match readFirst d ts with
  | some (v, []) => some v
  | _ => none

/-! ## Members -/

lemma mem_keys_insertList {k key : Bytes} {v : Value ν} {o : List (Bytes × Value ν)} :
    k ∈ (SortedMap.insertList key v o).map Prod.fst ↔ k = key ∨ k ∈ o.map Prod.fst := by
  induction o with
  | nil => exact List.mem_cons
  | cons m o ih =>
    rw [SortedMap.insertList]
    split_ifs with hlt heq
    · exact List.mem_cons
    · rw [List.map_cons, List.map_cons, List.mem_cons, List.mem_cons, heq, or_self_left]
    · rw [List.map_cons, List.map_cons, List.mem_cons, List.mem_cons, ih, or_left_comm]

variable {key : Bytes} {d : ℕ} {n : ℕ}

lemma any_key_iff {o : List (Bytes × Value ν)} :
    (o.any fun m => m.1 = key) = true ↔ key ∈ o.map Prod.fst := by
  rw [List.any_eq_true, List.mem_map]
  constructor
  · rintro ⟨m, hm, hkey⟩
    exact ⟨m, hm, of_decide_eq_true hkey⟩
  · rintro ⟨m, hm, hkey⟩
    exact ⟨m, hm, decide_eq_true hkey⟩

/-- The members have distinct keys, and none of the object has one of them. -/
def Fresh (o ms : List (Bytes × Value ν)) : Prop :=
  (ms.map Prod.fst).Nodup ∧ ∀ k ∈ ms.map Prod.fst, k ∉ o.map Prod.fst

lemma fresh_nil_left {ms : List (Bytes × Value ν)} : Fresh [] ms ↔ (ms.map Prod.fst).Nodup :=
  ⟨fun h => h.1, fun h => ⟨h, fun _ _ hk => by cases hk⟩⟩

lemma fresh_cons {o ms : List (Bytes × Value ν)} {v : Value ν} :
    Fresh o ((key, v) :: ms) ↔ key ∉ o.map Prod.fst ∧ Fresh (SortedMap.insertList key v o) ms := by
  unfold Fresh
  rw [List.map_cons, List.nodup_cons]
  constructor
  · rintro ⟨⟨hkey, hnodup⟩, hms⟩
    refine ⟨hms key List.mem_cons_self, hnodup, fun k hk => ?_⟩
    rw [mem_keys_insertList]
    rintro (rfl | hmem)
    · exact hkey hk
    · exact hms k (List.mem_cons_of_mem _ hk) hmem
  · rintro ⟨hkey, hnodup, hms⟩
    refine ⟨⟨fun hk => ?_, hnodup⟩, fun k hk => ?_⟩
    · exact hms key hk (mem_keys_insertList.2 (.inl rfl))
    · rcases List.mem_cons.1 hk with rfl | hk
      · exact hkey
      · intro hmem
        exact hms k hk (mem_keys_insertList.2 (.inr hmem))

/-! ## Recursive descent finds the derivations -/

/-- A derivation takes tokens. -/
lemma Parses.length_lt {i : Item ν} {ts ts' : List (Token ν)} (h : Parses d i ts ts') :
    ts'.length < ts.length := by
  induction h <;> simp only [List.length_cons] at * <;> omega

/-- The result of a call is derived. -/
structure Sound (ν : Type) (n : ℕ) : Prop where
  value : ∀ {d : ℕ} {t : Token ν} {ts : List (Token ν)} {r}, readValue n d t ts = some r →
    Parses d (.value r.1) (t :: ts) r.2
  elements : ∀ {d : ℕ} {a : List (Value ν)} {ts : List (Token ν)} {r},
    readElements n d a ts = some r →
    ∃ b, r.1 = a ++ b ∧ Parses d (.elements b) ts r.2
  members : ∀ {d : ℕ} {o : List (Bytes × Value ν)} {ts : List (Token ν)} {r},
    readMembers n d o ts = some r →
    ∃ ms, r.1 = addMembers o ms ∧ Fresh o ms ∧ Parses d (.members ms) ts r.2

/-- A token that begins neither an array nor an object. -/
lemma readValue_scalar {n d : ℕ} {t : Token ν} {ts : List (Token ν)} (harray : t ≠ .openArray)
    (hobject : t ≠ .openObject) : readValue (n + 1) d t ts = t.scalar.map fun v => (v, ts) := by
  cases t with
  | openArray => exact absurd rfl harray
  | openObject => exact absurd rfl hobject
  | _ => rfl

lemma sound_value (ih : Sound ν n) {t : Token ν} {ts : List (Token ν)} {r}
    (h : readValue (n + 1) d t ts = some r) : Parses d (.value r.1) (t :: ts) r.2 := by
  by_cases harray : t = .openArray
  · subst harray
    cases d with
    | zero => cases h
    | succ d =>
      rw [readValue, Option.map_eq_some_iff] at h
      rcases h with ⟨r', hr, rfl⟩
      rcases ih.elements hr with ⟨b, hb, hparses⟩
      rw [List.nil_append] at hb
      rw [hb]
      exact .array hparses
  by_cases hobject : t = .openObject
  · subst hobject
    cases d with
    | zero => cases h
    | succ d =>
      rw [readValue, Option.map_eq_some_iff] at h
      rcases h with ⟨r', hr, rfl⟩
      rcases ih.members hr with ⟨ms, hms, hfresh, hparses⟩
      rw [hms]
      exact .object hparses (fresh_nil_left.1 hfresh)
  · rw [readValue_scalar harray hobject, Option.map_eq_some_iff] at h
    rcases h with ⟨v, hv, rfl⟩
    exact .scalar hv

/-- What comes behind an element. -/
def restElements (n d : ℕ) (a : List (Value ν)) :
    Option (Value ν × List (Token ν)) → Option (List (Value ν) × List (Token ν))
  | some (v, .closeArray :: ts) => some (a ++ [v], ts)
  | some (v, .comma :: ts) => readElements n d (a ++ [v]) ts
  | _ => none

lemma readElements_cons {n d : ℕ} {a : List (Value ν)} {t : Token ν} {ts : List (Token ν)}
    (ht : t ≠ .closeArray) :
    readElements (n + 1) d a (t :: ts) = restElements n d a (readValue n d t ts) := by
  cases t with
  | closeArray => exact absurd rfl ht
  | _ => rfl

lemma restElements_eq_some {n d : ℕ} {a : List (Value ν)} {o : Option (Value ν × List (Token ν))}
    {r} (h : restElements n d a o = some r) :
    ∃ v ts, o = some (v, .closeArray :: ts) ∧ r = (a ++ [v], ts) ∨
      o = some (v, .comma :: ts) ∧ readElements n d (a ++ [v]) ts = some r := by
  unfold restElements at h
  split at h
  · next v ts => exact ⟨v, ts, .inl ⟨rfl, (Option.some.inj h).symm⟩⟩
  · next v ts => exact ⟨v, ts, .inr ⟨rfl, h⟩⟩
  · cases h

/-- What comes behind a member. -/
def restMembers (n d : ℕ) (o : List (Bytes × Value ν)) (key : Bytes) :
    Option (Value ν × List (Token ν)) → Option (List (Bytes × Value ν) × List (Token ν))
  | some (v, .closeObject :: ts) => some (SortedMap.insertList key v o, ts)
  | some (v, .comma :: ts) => readMembers n d (SortedMap.insertList key v o) ts
  | _ => none

lemma readMembers_str {n d : ℕ} {o : List (Bytes × Value ν)} {t : Token ν} {ts : List (Token ν)} :
    readMembers (n + 1) d o (.str key :: .colon :: t :: ts) =
      if o.any fun m => m.1 = key then none else restMembers n d o key (readValue n d t ts) := rfl

lemma restMembers_eq_some {n d : ℕ} {o : List (Bytes × Value ν)}
    {q : Option (Value ν × List (Token ν))} {r} (h : restMembers n d o key q = some r) :
    ∃ v ts, q = some (v, .closeObject :: ts) ∧ r = (SortedMap.insertList key v o, ts) ∨
      q = some (v, .comma :: ts) ∧ readMembers n d (SortedMap.insertList key v o) ts = some r := by
  unfold restMembers at h
  split at h
  · next v ts => exact ⟨v, ts, .inl ⟨rfl, (Option.some.inj h).symm⟩⟩
  · next v ts => exact ⟨v, ts, .inr ⟨rfl, h⟩⟩
  · cases h

/-- The members begin with the end of the object or with a key. -/
lemma readMembers_cases {n d : ℕ} {o : List (Bytes × Value ν)} {ts : List (Token ν)} {r}
    (h : readMembers (n + 1) d o ts = some r) :
    (∃ ts', ts = .closeObject :: ts' ∧ r = (o, ts')) ∨
      ∃ key t ts', ts = .str key :: .colon :: t :: ts' ∧ key ∉ o.map Prod.fst ∧
        restMembers n d o key (readValue n d t ts') = some r := by
  unfold readMembers at h
  split at h
  · next => cases ‹_›
  · next ts' heq => exact .inl ⟨ts', rfl, (Option.some.inj h).symm⟩
  · next m key t ts' hm =>
    cases hm
    split_ifs at h with hany
    exact .inr ⟨key, t, ts', rfl, fun hmem => hany (any_key_iff.2 hmem), h⟩
  · cases h

lemma sound_elements (ih : Sound ν n) {a : List (Value ν)} {ts : List (Token ν)} {r}
    (h : readElements (n + 1) d a ts = some r) :
    ∃ b, r.1 = a ++ b ∧ Parses d (.elements b) ts r.2 := by
  cases ts with
  | nil => cases h
  | cons t ts =>
    by_cases ht : t = .closeArray
    · subst ht
      cases h
      exact ⟨[], (List.append_nil a).symm, .closeArray⟩
    · rw [readElements_cons ht] at h
      rcases restElements_eq_some h with ⟨v, ts', ⟨hvalue, rfl⟩ | ⟨hvalue, helements⟩⟩
      · exact ⟨[v], rfl, .lastElement (ih.value hvalue)⟩
      · rcases ih.elements helements with ⟨b, hb, hparses⟩
        refine ⟨v :: b, ?_, .nextElement (ih.value hvalue) hparses⟩
        rw [hb, List.append_assoc, List.singleton_append]

lemma sound_members (ih : Sound ν n) {o : List (Bytes × Value ν)} {ts : List (Token ν)} {r}
    (h : readMembers (n + 1) d o ts = some r) :
    ∃ ms, r.1 = addMembers o ms ∧ Fresh o ms ∧ Parses d (.members ms) ts r.2 := by
  rcases readMembers_cases h with ⟨ts', rfl, rfl⟩ | ⟨key, t, ts', rfl, hkey, hrest⟩
  · exact ⟨[], rfl, ⟨List.nodup_nil, fun k hk => by cases hk⟩, .closeObject⟩
  · rcases restMembers_eq_some hrest with ⟨v, ts'', ⟨hvalue, rfl⟩ | ⟨hvalue, hmembers⟩⟩
    · refine ⟨[(key, v)], rfl, fresh_cons.2 ⟨hkey, List.nodup_nil, fun k hk => by cases hk⟩, ?_⟩
      exact .lastMember (ih.value hvalue)
    · rcases ih.members hmembers with ⟨ms, hms, hfresh, hparses⟩
      exact ⟨(key, v) :: ms, hms, fresh_cons.2 ⟨hkey, hfresh⟩,
        .nextMember (ih.value hvalue) hparses⟩

lemma sound (n : ℕ) : Sound ν n := by
  induction n with
  | zero =>
    constructor
    · intro d t ts r h
      cases h
    · intro d a ts r h
      cases h
    · intro d o ts r h
      cases h
  | succ n ih => exact ⟨sound_value ih, sound_elements ih, sound_members ih⟩

/-- The calls that find a derivation, if enough of them are allowed. -/
def Complete (d : ℕ) (i : Item ν) (ts ts' : List (Token ν)) : Prop :=
  match i with
  | .value v => ∃ t us, ts = t :: us ∧ ∀ n, 2 * us.length + 1 < n →
      readValue n d t us = some (v, ts')
  | .elements b => ∀ n a, 2 * ts.length < n → readElements n d a ts = some (a ++ b, ts')
  | .members ms => ∀ n o, Fresh o ms → 2 * ts.length < n →
      readMembers n d o ts = some (addMembers o ms, ts')

/-- An element does not begin with the end of the array. -/
lemma Parses.ne_closeArray {v : Value ν} {t : Token ν} {ts ts' : List (Token ν)}
    (h : Parses d (.value v) (t :: ts) ts') : t ≠ .closeArray := by
  rintro rfl
  cases h with
  | scalar h => cases h

lemma complete {i : Item ν} {ts ts' : List (Token ν)} (h : Parses d i ts ts') :
    Complete d i ts ts' := by
  induction h with
  | @scalar d t v ts h =>
    refine ⟨t, ts, rfl, fun n hn => ?_⟩
    obtain ⟨n, rfl⟩ : ∃ m, n = m + 1 := ⟨n - 1, by omega⟩
    rw [readValue_scalar _ _, h]
    · rfl
    · rintro rfl
      cases h
    · rintro rfl
      cases h
  | @array d a ts ts' h ih =>
    refine ⟨_, ts, rfl, fun n hn => ?_⟩
    obtain ⟨n, rfl⟩ : ∃ m, n = m + 1 := ⟨n - 1, by omega⟩
    rw [readValue, ih n [] (by omega)]
    rfl
  | @object d o ts ts' h hkeys ih =>
    refine ⟨_, ts, rfl, fun n hn => ?_⟩
    obtain ⟨n, rfl⟩ : ∃ m, n = m + 1 := ⟨n - 1, by omega⟩
    rw [readValue, ih n [] (fresh_nil_left.2 hkeys) (by omega)]
    rfl
  | closeArray =>
    intro n a hn
    obtain ⟨n, rfl⟩ : ∃ m, n = m + 1 := ⟨n - 1, by omega⟩
    rw [readElements, List.append_nil]
  | @lastElement d v ts ts' h ih =>
    rcases ih with ⟨t, us, rfl, hread⟩
    intro n a hn
    rw [List.length_cons] at hn
    obtain ⟨n, rfl⟩ : ∃ m, n = m + 1 := ⟨n - 1, by omega⟩
    rw [readElements_cons h.ne_closeArray, hread n (by omega)]
    rfl
  | @nextElement d v b ts ts' ts'' h ha ih iha =>
    rcases ih with ⟨t, us, rfl, hread⟩
    intro n a hn
    have hlength := h.length_lt
    rw [List.length_cons, List.length_cons] at hlength
    rw [List.length_cons] at hn
    obtain ⟨n, rfl⟩ : ∃ m, n = m + 1 := ⟨n - 1, by omega⟩
    rw [readElements_cons h.ne_closeArray, hread n (by omega), restElements,
      iha n (a ++ [v]) (by omega), List.append_assoc, List.singleton_append]
  | closeObject =>
    intro n o _ hn
    obtain ⟨n, rfl⟩ : ∃ m, n = m + 1 := ⟨n - 1, by omega⟩
    rw [readMembers]
    rfl
  | @lastMember d key v ts ts' h ih =>
    rcases ih with ⟨t, us, rfl, hread⟩
    intro n o hfresh hn
    rw [fresh_cons] at hfresh
    rw [List.length_cons, List.length_cons, List.length_cons] at hn
    obtain ⟨n, rfl⟩ : ∃ m, n = m + 1 := ⟨n - 1, by omega⟩
    rw [readMembers_str, if_neg (fun h => hfresh.1 (any_key_iff.1 h)), hread n (by omega)]
    rfl
  | @nextMember d key v ms ts ts' ts'' h ho ih iho =>
    rcases ih with ⟨t, us, rfl, hread⟩
    intro n o hfresh hn
    have hlength := h.length_lt
    rw [List.length_cons, List.length_cons] at hlength
    rw [fresh_cons] at hfresh
    rw [List.length_cons, List.length_cons, List.length_cons] at hn
    obtain ⟨n, rfl⟩ : ∃ m, n = m + 1 := ⟨n - 1, by omega⟩
    rw [readMembers_str, if_neg (fun h => hfresh.1 (any_key_iff.1 h)),
      hread n (by omega), restMembers, iho n _ hfresh.2 (by omega)]
    rfl

lemma readFirst_eq_some {ts ts' : List (Token ν)} {v : Value ν} :
    readFirst d ts = some (v, ts') ↔ Parses d (.value v) ts ts' := by
  constructor
  · intro h
    cases ts with
    | nil => cases h
    | cons t ts => exact (sound _).value h
  · intro h
    rcases complete h with ⟨t, us, rfl, hread⟩
    exact hread _ (by omega)

/-- The parser by recursive descent accepts the language of the grammar. -/
theorem readAll_eq_some {ts : List (Token ν)} {v : Value ν} :
    readAll d ts = some v ↔ Parses d (.value v) ts [] := by
  rw [← readFirst_eq_some]
  unfold readAll
  constructor
  · intro h
    split at h
    · next hfirst =>
      cases h
      exact hfirst
    · cases h
  · intro h
    rw [h]

end Json

end Cppcms
