import Cppcms.Locale.MoFile

/-!
# The two ways to look up a message

In a well-formed catalogue the hash table finds the key that is made of the context and the message,
and the map has the key that comes last of those which it takes for the context and the message.
These are different keys where a context is empty, where a context has the separator in it, and
where a message without a context has it.
-/

namespace Cppcms

namespace Locale

namespace MoFile

/-! ## Well-formed files -/

/-- A number in the file. -/
def number (f : MoFile) (offset : ℕ) : ℕ := (f.get offset).getD 0

def keyOffset (f : MoFile) (i : ℕ) : ℕ := f.number (f.keysOffset + i * 8 + 4)

/-- The keys of the file. -/
def keyText (f : MoFile) (i : ℕ) : Bytes := cString (f.data.drop (f.keyOffset i))

def valueOffset (f : MoFile) (i : ℕ) : ℕ := f.number (f.translationsOffset + i * 8 + 4)

def valueLength (f : MoFile) (i : ℕ) : ℕ := f.number (f.translationsOffset + i * 8)

/-- The translations of the file. -/
def valueText (f : MoFile) (i : ℕ) : Bytes := (f.data.drop (f.valueOffset i)).take (f.valueLength i)

/-- A slot of the hash table: zero, or the number of a key and one more. -/
def slot (f : MoFile) (h : ℕ) : ℕ := f.number (f.hashOffset + 4 * h)

/-- The slots that are looked at for a key. -/
def probeAt (f : MoFile) (key : Bytes) (k : ℕ) : ℕ :=
  ((updateStates 0 key).toNat % f.hashSize + k *
    (1 + (updateStates 0 key).toNat % (f.hashSize - 2))) % f.hashSize

/-- The tables are in the file, in the part that offsets of 32 bits reach, and so are the
translations, the keys end with a zero in the file and are distinct, and every key is found along
its slots. -/
structure WellFormed (f : MoFile) : Prop where
  hash_ge : 3 ≤ f.hashSize
  keys_inside : f.keysOffset + 8 * f.size ≤ min f.data.length (2 ^ 32)
  translations_inside : f.translationsOffset + 8 * f.size ≤ min f.data.length (2 ^ 32)
  hash_inside : f.hashOffset + 4 * f.hashSize ≤ min f.data.length (2 ^ 32)
  key_terminated : ∀ i < f.size, 0 ∈ f.data.drop (f.keyOffset i)
  values_inside : ∀ i < f.size, f.valueOffset i + f.valueLength i < f.data.length
  distinct : ∀ i < f.size, ∀ j < f.size, f.keyText i = f.keyText j → i = j
  slots : ∀ h < f.hashSize, f.slot h ≤ f.size
  found : ∀ i < f.size, ∃ k < f.hashSize, f.slot (f.probeAt (f.keyText i) k) = i + 1 ∧
    ∀ j < k, f.slot (f.probeAt (f.keyText i) j) ≠ 0 ∧
      f.probeAt (f.keyText i) (j + 1) ≠ f.probeAt (f.keyText i) 0

section WellFormed

variable {f : MoFile}

lemma get_eq_number {offset : ℕ} (h : offset + 4 ≤ f.data.length) :
    f.get offset = some (f.number offset) := by
  unfold number get getNumber
  rw [if_neg (by omega)]
  rfl

variable {i : ℕ}

lemma WellFormed.key_eq (h : f.WellFormed) (hi : i < f.size) : f.key i = some (f.keyText i) := by
  have hinside := h.keys_inside
  have hsmall : f.keysOffset + i * 8 + 4 < 2 ^ 32 := by omega
  unfold key u32
  rw [Nat.mod_eq_of_lt hsmall, get_eq_number (by omega)]
  rfl

/-- The translation at its place in the file. -/
def range (f : MoFile) (i : ℕ) : Range := ⟨f.data.drop (f.valueOffset i), f.valueLength i⟩

lemma WellFormed.value_eq (h : f.WellFormed) (hi : i < f.size) : f.value i = some (f.range i) := by
  have hinside := h.translations_inside
  have hend := h.values_inside i hi
  have hsmall : f.translationsOffset + i * 8 < 2 ^ 32 := by omega
  have hsmall' : f.translationsOffset + i * 8 + 4 < 2 ^ 32 := by omega
  have hwrap : u32 (f.valueOffset i + f.valueLength i) ≤ f.valueOffset i + f.valueLength i :=
    Nat.mod_le _ _
  unfold value
  rw [show u32 (f.translationsOffset + i * 8) = _ from Nat.mod_eq_of_lt hsmall,
    show u32 (f.translationsOffset + i * 8 + 4) = _ from Nat.mod_eq_of_lt hsmall',
      get_eq_number (by omega),
    get_eq_number (by omega)]
  show (if f.valueOffset i ≥ f.data.length ∨
    u32 (f.valueOffset i + f.valueLength i) ≥ f.data.length then none
    else some (f.range i)) = _
  rw [if_neg (by omega)]

/-- A slot of the hash table is a number of the file. -/
lemma WellFormed.slot_eq (h : f.WellFormed) {k : ℕ} (hk : k < f.hashSize) :
    f.get (u32 (f.hashOffset + 4 * k)) = some (f.slot k) := by
  have hinside := h.hash_inside
  have hsmall : f.hashOffset + 4 * k < 2 ^ 32 := by omega
  rw [show u32 (f.hashOffset + 4 * k) = _ from Nat.mod_eq_of_lt hsmall]
  exact get_eq_number (by omega)

end WellFormed

/-! ## The hash table -/

/-- The key that is looked for in the file. -/
def joined (context : Option CString) (id : CString) : Bytes :=
  match context with
  | none => id.1
  | some c => c.1 ++ eot :: id.1

/-- The hash of a context and a message is that of the joined key. -/
lemma hash_eq (context : Option CString) (id : CString) :
    hash context id = updateStates 0 (joined context id) := by
  rcases context with _ | c
  · rfl
  · show updateStates (updateState (updateStates 0 c.1) eot) id.1 =
      updateStates 0 (c.1 ++ eot :: id.1)
    unfold updateStates
    rw [List.foldl_append, List.foldl_cons]

/-- The comparison is with the joined key. -/
lemma keyEquals_iff (realKey : Bytes) (context : Option CString) (id : CString) :
    keyEquals realKey context id = true ↔ realKey = joined context id := by
  rcases context with _ | ⟨c, hc⟩
  · exact decide_eq_true_iff
  · unfold keyEquals joined
    dsimp only
    constructor
    · intro h
      split_ifs at h with hlength
      rw [not_not] at hlength
      simp only [Bool.and_eq_true, decide_eq_true_eq] at h
      rcases h with ⟨⟨htake, hget⟩, hdrop⟩
      rcases List.getElem?_eq_some_iff.1 hget with ⟨hlt, hget⟩
      have hrest : realKey.drop (c.length + 1) = id.1 := by
        rw [List.take_of_length_le (by rw [List.length_drop]; omega)] at hdrop
        exact hdrop
      have hsplit : realKey = realKey.take c.length ++ realKey.drop c.length :=
        (List.take_append_drop _ _).symm
      rw [hsplit, htake, ← List.getElem_cons_drop hlt, hget, hrest]
    · rintro rfl
      have hlength : c.length + 1 + id.1.length = (c ++ eot :: id.1).length := by
        rw [List.length_append, List.length_cons]
        omega
      rw [if_neg (not_not.2 hlength)]
      have hdrop : (c ++ eot :: id.1).drop (c.length + 1) = id.1 := by
        rw [← List.drop_drop, List.drop_left]
        rfl
      rw [hdrop]
      simp

section Probing

variable {f : MoFile}

/-- Every probe is a slot of the table. -/
lemma probeAt_lt (h : f.WellFormed) (key : Bytes) (k : ℕ) : f.probeAt key k < f.hashSize := by
  have hge := h.hash_ge
  exact Nat.mod_lt _ (by omega)

/-- The next slot. -/
lemma probeAt_succ (h : f.WellFormed) (key : Bytes) (k : ℕ) :
    u32 (f.probeAt key k + (1 + (updateStates 0 key).toNat % (f.hashSize - 2))) % f.hashSize =
      f.probeAt key (k + 1) := by
  have hge := h.hash_ge
  have hinside := h.hash_inside
  have hlt := probeAt_lt h key k
  have hincr : (updateStates 0 key).toNat % (f.hashSize - 2) < f.hashSize - 2 :=
    Nat.mod_lt _ (by omega)
  have hsmall : f.probeAt key k + (1 + (updateStates 0 key).toNat % (f.hashSize - 2)) < 2 ^ 32 := by
    omega
  rw [show u32 (f.probeAt key k + _) = _ from Nat.mod_eq_of_lt hsmall]
  unfold probeAt
  rw [Nat.mod_add_mod, Nat.succ_mul, Nat.add_assoc]

/-- The slots come back to the first one. -/
lemma probeAt_hashSize (key : Bytes) : f.probeAt key f.hashSize = f.probeAt key 0 := by
  unfold probeAt
  rw [Nat.zero_mul, Nat.add_zero, Nat.add_mul_mod_self_left]

/-- One round of the loop. -/
lemma probe_succ (h : f.WellFormed) (context : Option CString) (id : CString) (rounds k : ℕ) :
    f.probe context id (1 + (updateStates 0 (joined context id)).toNat % (f.hashSize - 2))
      (f.probeAt (joined context id) 0)
      (rounds + 1) (f.probeAt (joined context id) k) =
    if f.slot (f.probeAt (joined context id) k) = 0 then some none
    else if f.keyText (f.slot (f.probeAt (joined context id) k) - 1) = joined context id then
      some (some (f.range (f.slot (f.probeAt (joined context id) k) - 1)))
    else if f.probeAt (joined context id) (k + 1) = f.probeAt (joined context id) 0 then some none
    else
      f.probe context id (1 + (updateStates 0 (joined context id)).toNat % (f.hashSize - 2))
        (f.probeAt (joined context id) 0) rounds (f.probeAt (joined context id) (k + 1)) := by
  have hlt := probeAt_lt h (joined context id) k
  have hslot := h.slots _ hlt
  rw [probe, h.slot_eq hlt, probeAt_succ h]
  show (if f.slot (f.probeAt (joined context id) k) = 0 then some none else _) = _
  by_cases hzero : f.slot (f.probeAt (joined context id) k) = 0
  · rw [if_pos hzero, if_pos hzero]
  · rw [if_neg hzero, if_neg hzero, h.key_eq (by omega)]
    show (if keyEquals (f.keyText (f.slot (f.probeAt (joined context id) k) - 1))
      context id then _ else _) = _
    by_cases hequal : f.keyText (f.slot (f.probeAt (joined context id) k) - 1) = joined context id
    · rw [if_pos ((keyEquals_iff _ _ _).2 hequal), if_pos hequal, h.value_eq (by omega)]
      rfl
    · rw [if_neg (fun heq => hequal ((keyEquals_iff _ _ _).1 heq)), if_neg hequal]

variable {context : Option CString} {i : ℕ} {id : CString}

/-- A key is found. -/
lemma probe_of_key (h : f.WellFormed) (hi : i < f.size)
    (hkey : f.keyText i = joined context id) {k : ℕ}
      (hk : f.slot (f.probeAt (joined context id) k) = i + 1)
    (hbefore : ∀ j < k, f.slot (f.probeAt (joined context id) j) ≠ 0 ∧
      f.probeAt (joined context id) (j + 1) ≠ f.probeAt (joined context id) 0) :
    ∀ rounds j, j ≤ k → k < j + rounds →
      f.probe context id (1 + (updateStates 0 (joined context id)).toNat % (f.hashSize - 2))
        (f.probeAt (joined context id) 0) rounds (f.probeAt (joined context id) j) =
          some (some (f.range i)) := by
  intro rounds
  induction rounds with
  | zero =>
    intro j hj hlt
    omega
  | succ rounds ih =>
    intro j hj hlt
    rw [probe_succ h]
    rcases hj.lt_or_eq with hj | rfl
    · rw [if_neg (hbefore j hj).1]
      split_ifs with hequal hround
      · -- the key is in the file once only
        have hslot := h.slots _ (probeAt_lt h (joined context id) j)
        have hpos := (hbefore j hj).1
        have hsame := h.distinct _ (by omega) i hi (hequal.trans hkey.symm)
        rw [hsame]
      · exact absurd hround (hbefore j hj).2
      · exact ih (j + 1) hj (by omega)
    · rw [hk, if_neg (Nat.succ_ne_zero i), Nat.add_sub_cancel, if_pos hkey]

/-- What is no key is not found. -/
lemma probe_of_not_key (h : f.WellFormed) (hnone : ∀ i < f.size, f.keyText i ≠ joined context id) :
    ∀ rounds j, j + (rounds + 1) = f.hashSize →
      f.probe context id (1 + (updateStates 0 (joined context id)).toNat % (f.hashSize - 2))
        (f.probeAt (joined context id) 0) (rounds + 1) (f.probeAt (joined context id) j) =
          some none := by
  intro rounds
  induction rounds with
  | zero =>
    intro j hj
    rw [probe_succ h]
    split_ifs with hzero hequal hround
    · rfl
    · have hslot := h.slots _ (probeAt_lt h (joined context id) j)
      exact absurd hequal (hnone _ (by omega))
    · rfl
    · rw [show j + 1 = f.hashSize by omega] at hround
      exact absurd (probeAt_hashSize _) hround
  | succ rounds ih =>
    intro j hj
    rw [probe_succ h]
    split_ifs with hzero hequal hround
    · rfl
    · have hslot := h.slots _ (probeAt_lt h (joined context id) j)
      exact absurd hequal (hnone _ (by omega))
    · rfl
    · exact ih (j + 1) (by omega)

/-- The search begins at the slot of the hash. -/
lemma find_eq_probe (h : f.WellFormed) (context : Option CString) (id : CString) :
    f.find context id = f.probe context id
      (1 + (updateStates 0 (joined context id)).toNat % (f.hashSize - 2))
      (f.probeAt (joined context id) 0) f.hashSize (f.probeAt (joined context id) 0) := by
  have hge := h.hash_ge
  have hinside := h.hash_inside
  have hsub : u32 (f.hashSize + (2 ^ 32 - 2)) = f.hashSize - 2 := by
    unfold u32
    omega
  have hfirst : f.probeAt (joined context id) 0 =
      (updateStates 0 (joined context id)).toNat % f.hashSize := by
    unfold probeAt
    rw [Nat.zero_mul, Nat.add_zero, Nat.mod_mod]
  unfold find
  rw [if_neg (by omega), hash_eq, hsub, hfirst]

lemma find_of_key (h : f.WellFormed) (hi : i < f.size) (hkey : f.keyText i = joined context id) :
    f.find context id = some (some (f.range i)) := by
  rcases h.found i hi with ⟨k, hlt, hslot, hbefore⟩
  rw [hkey] at hslot hbefore
  rw [find_eq_probe h]
  exact probe_of_key h hi hkey hslot hbefore f.hashSize 0 (Nat.zero_le k) (by omega)

lemma find_of_not_key (h : f.WellFormed) (hnone : ∀ i < f.size, f.keyText i ≠ joined context id) :
    f.find context id = some none := by
  have hge := h.hash_ge
  rw [find_eq_probe h]
  have hrounds : f.hashSize = f.hashSize - 1 + 1 := by omega
  have hprobe := probe_of_not_key h hnone (f.hashSize - 1) 0 (by omega)
  rwa [← hrounds] at hprobe

end Probing

end MoFile

/-! ## The map -/

section Map

variable {f : MoFile}

lemma cString_of_not_mem {s : Bytes} (h : 0 ∉ s) : cString s = s := by
  refine List.takeWhile_eq_self_iff.2 fun c hc => ?_
  simpa using fun heq : c = 0 => h (heq ▸ hc)

lemma zero_not_mem_cString (s : Bytes) : 0 ∉ cString s := by
  intro hmem
  have hnot := List.mem_takeWhile_imp hmem
  simp at hnot

/-- The context of a key ends at the first separator. -/
lemma takeWhile_eot {u v : Bytes} (hu : eot ∉ u) : (u ++ eot :: v).takeWhile (· ≠ eot) = u := by
  have hall : ∀ x ∈ u, decide (x ≠ eot) = true := fun x hx => by
    simpa using fun heq : x = eot => hu (heq ▸ hx)
  rw [List.takeWhile_append_of_pos hall, List.takeWhile_cons_of_neg (by simp), List.append_nil]

/-- A key without a separator has no context; another one is cut at its first separator. -/
lemma messageKey_eq_iff {k c id : Bytes} :
    messageKey k = (c, id) ↔ (eot ∉ c ∧ k = c ++ eot :: id) ∨ (c = [] ∧ k = id ∧ eot ∉ id) := by
  unfold messageKey
  split_ifs with heot
  · rcases List.eq_append_cons_of_mem heot with ⟨u, v, rfl, hu⟩
    have htake : (u ++ eot :: v).takeWhile (· ≠ eot) = u := takeWhile_eot hu
    have hdrop : (u ++ eot :: v).dropWhile (· ≠ eot) = eot :: v := by
      have hparts := List.takeWhile_append_dropWhile (p := (· ≠ eot)) (l := u ++ eot :: v)
      rw [htake] at hparts
      exact List.append_cancel_left hparts
    rw [htake, hdrop, List.tail_cons]
    constructor
    · rintro heq
      rcases Prod.mk.inj heq with ⟨rfl, rfl⟩
      exact Or.inl ⟨hu, rfl⟩
    · rintro (⟨hc, heq⟩ | ⟨-, heq, hid⟩)
      · have htake' : (c ++ eot :: id).takeWhile (· ≠ eot) = c := takeWhile_eot hc
        rw [← heq, htake] at htake'
        rw [htake'] at heq ⊢
        rw [List.cons.inj (List.append_cancel_left heq) |>.2]
      · exact absurd (heq ▸ List.mem_append_right u List.mem_cons_self) hid
  · constructor
    · intro heq
      rcases Prod.mk.inj heq with ⟨rfl, rfl⟩
      exact Or.inr ⟨rfl, rfl, heot⟩
    · rintro (⟨-, rfl⟩ | ⟨rfl, rfl, -⟩)
      · exact absurd (List.mem_append_right c List.mem_cons_self) heot
      · rfl

lemma MoFile.add_keyText (f : MoFile) (m : CatalogMap) (i : ℕ) (value : Bytes) :
    m.add (f.keyText i) value = m.insert (toLex (messageKey (f.keyText i))) value := by
  have hzero : 0 ∉ f.keyText i := zero_not_mem_cString _
  have hparts : 0 ∉ (messageKey (f.keyText i)).1 ∧ 0 ∉ (messageKey (f.keyText i)).2 := by
    rcases hparts : messageKey (f.keyText i) with ⟨c, id⟩
    rcases messageKey_eq_iff.1 hparts with ⟨-, hk⟩ | ⟨hc, hk, -⟩
    · rw [hk] at hzero
      refine ⟨fun hmem => hzero (List.mem_append_left _ hmem), fun hmem => hzero ?_⟩
      exact List.mem_append_right _ (List.mem_cons_of_mem _ hmem)
    · rw [hc]
      exact ⟨List.not_mem_nil, hk ▸ hzero⟩
  unfold CatalogMap.add
  rw [cString_of_not_mem hparts.1, cString_of_not_mem hparts.2]

/-- The catalogue that is loaded when the conversions change nothing. -/
def MoFile.catalog (f : MoFile) (n : ℕ) : CatalogMap :=
  (List.range n).foldl (fun m i => m.insert (toLex (messageKey (f.keyText i))) (f.valueText i)) ∅

lemma foldlM_eq_some {α β : Type*} {step : β → α → Option β} {g : β → α → β} {l : List α}
    (h : ∀ b, ∀ a ∈ l, step b a = some (g b a)) (b : β) : l.foldlM step b = some (l.foldl g b) := by
  induction l generalizing b with
  | nil => rfl
  | cons a l ih =>
    rw [List.foldlM_cons, h b a List.mem_cons_self]
    exact ih (fun b a ha => h b a (List.mem_cons_of_mem _ ha)) (g b a)

/-- The conversions between equal encodings change nothing. -/
structure MoFile.Converts (f : MoFile) (cvtKey cvtValue : Bytes → Option Bytes) : Prop where
  key : ∀ i < f.size, cvtKey (f.keyText i) = some (f.keyText i)
  value : ∀ i < f.size, cvtValue (f.valueText i) = some (f.valueText i)

/-- Loading takes all the keys in their order. -/
lemma MoFile.WellFormed.loadCatalog_eq (h : f.WellFormed) {cvtKey cvtValue : Bytes → Option Bytes}
    (hcvt : f.Converts cvtKey cvtValue) :
    f.loadCatalog cvtKey cvtValue = some (f.catalog f.size) := by
  refine foldlM_eq_some (fun m i hi => ?_) ∅
  have hlt := List.mem_range.1 hi
  rw [h.key_eq hlt]
  show (cvtKey (f.keyText i)).bind _ = _
  rw [hcvt.key i hlt, Option.bind_some, h.value_eq hlt]
  show (cvtValue (f.valueText i)).bind _ = _
  rw [hcvt.value i hlt, Option.bind_some, f.add_keyText]

/-- The entry that comes last of those with a key. -/
lemma MoFile.find_catalog (f : MoFile) (n : ℕ) (a : Bytes × Bytes) (v : Bytes) :
    (f.catalog n).find (toLex a) = some v ↔
      ∃ i < n, messageKey (f.keyText i) = a ∧ f.valueText i = v ∧ ∀ j < n, i < j →
      messageKey (f.keyText j) ≠ a := by
  induction n with
  | zero =>
    constructor
    · intro hfind
      cases hfind
    · rintro ⟨i, hi, -⟩
      omega
  | succ n ih =>
    have hcatalog : f.catalog (n + 1) = (f.catalog n).insert (toLex (messageKey (f.keyText n)))
        (f.valueText n) := by
      unfold catalog
      rw [List.range_succ, List.foldl_append]
      rfl
    rw [hcatalog, SortedMap.find_insert]
    by_cases hlast : a = messageKey (f.keyText n)
    · rw [if_pos (congrArg toLex hlast)]
      constructor
      · intro hv
        exact ⟨n, Nat.lt_succ_self n, hlast.symm, Option.some.inj hv, fun j hj hlt => by omega⟩
      · rintro ⟨i, hi, -, hv, hafter⟩
        have heq : i = n := by
          by_contra hne
          exact hafter n (Nat.lt_succ_self n) (by omega) hlast.symm
        rw [← hv, heq]
    · rw [if_neg (fun heq => hlast (toLex.injective heq)), ih]
      constructor
      · rintro ⟨i, hi, hkey, hv, hafter⟩
        refine ⟨i, by omega, hkey, hv, fun j hj hlt => ?_⟩
        by_cases hjn : j = n
        · rw [hjn]
          exact Ne.symm hlast
        · exact hafter j (by omega) hlt
      · rintro ⟨i, hi, hkey, hv, hafter⟩
        have hne : i ≠ n := fun heq => hlast (heq ▸ hkey.symm)
        exact ⟨i, by omega, hkey, hv, fun j hj hlt => hafter j (by omega) hlt⟩

/-! ## The texts of a translation -/

/-- The translation in the map: the string and the zero after it. -/
def MoFile.copy (f : MoFile) (i : ℕ) : Range := ⟨f.valueText i ++ [0], (f.valueText i).length⟩

/-- Two translations read the same, in the singular and in every form that is asked for. -/
def Range.Same (plural : Option (ℤ → ℤ)) (r s : Range) : Prop :=
  cString r.memory = cString s.memory ∧ ∀ n, r.form (formOf plural n) = s.form (formOf plural n)

/-- The text at a position ends in the translation, or with a zero right behind it. -/
def Range.Ends (r : Range) (p : ℕ) : Prop := 0 ∈ (r.memory.drop p).take (r.length + 1 - p)

/-- The translation of a key in the file is followed by a zero where this matters: behind the text
of the singular and behind the text of every form that is asked for. -/
def MoFile.Ended (f : MoFile) (plural : Option (ℤ → ℤ)) (i : ℕ) : Prop :=
  (f.range i).Ends 0 ∧
    ∀ n p, formPosition (f.range i) (formOf plural n).toNat 0 = some p → p < f.valueLength i →
    (f.range i).Ends p

variable {i : ℕ} {key : Bytes}

/-- A translation that is followed by a zero, as the format has it. -/
lemma MoFile.ended_of_zero {plural : Option (ℤ → ℤ)}
    (hzero : f.data[f.valueOffset i + f.valueLength i]? = some 0) : f.Ended plural i := by
  have hends : ∀ p ≤ f.valueLength i, (f.range i).Ends p := by
    intro p hp
    have hget : ((f.data.drop (f.valueOffset i)).drop p)[f.valueLength i - p]? = some 0 := by
      rw [List.drop_drop, List.getElem?_drop]
      rwa [show f.valueOffset i + p + (f.valueLength i - p) =
        f.valueOffset i + f.valueLength i by omega]
    refine List.mem_of_getElem? (i := f.valueLength i - p) ?_
    show ((f.range i).memory.drop p |>.take (f.valueLength i + 1 - p))[f.valueLength i - p]? =
      some 0
    rw [List.getElem?_take_of_lt (by omega)]
    exact hget
  exact ⟨hends 0 (Nat.zero_le _), fun n p _ hp => hends p hp.le⟩

/-- A string that is cut and ended with a zero is the same iff it ends there. -/
lemma cString_take_iff (x : Bytes) (n : ℕ) (h : n < x.length) :
    cString x = cString (x.take n ++ [0]) ↔ 0 ∈ x.take (n + 1) := by
  induction n generalizing x with
  | zero =>
    rcases x with _ | ⟨c, x⟩
    · exact absurd h (Nat.not_lt_zero _)
    · by_cases hc : c = 0
      · simp [cString, hc]
      · have hne : (0 : UInt8) ≠ c := fun heq => hc heq.symm
        simp [cString, hc, hne]
  | succ n ih =>
    rcases x with _ | ⟨c, x⟩
    · exact absurd h (Nat.not_lt_zero _)
    · have hrest := ih x (Nat.lt_of_succ_lt_succ h)
      rw [List.take_succ_cons, List.take_succ_cons, List.mem_cons, ← hrest]
      by_cases hc : c = 0
      · simp [cString, hc]
      · have hne : (0 : UInt8) ≠ c := fun heq => hc heq.symm
        simp [cString, hc, hne]

lemma formPosition_congr {r s : Range} (hlength : r.length = s.length)
    (htext : r.memory.take r.length = s.memory.take s.length) (form p : ℕ) :
    formPosition r form p = formPosition s form p := by
  induction form generalizing p with
  | zero => rfl
  | succ form ih =>
    unfold formPosition
    dsimp only
    rw [htext, hlength]
    split_ifs with hp hnext
    · rfl
    · exact ih _
    · rfl

section Copy

variable (h : f.WellFormed) {i : ℕ} (hi : i < f.size)
include h hi

lemma MoFile.WellFormed.length_valueText : (f.valueText i).length = f.valueLength i := by
  have hinside := h.values_inside i hi
  unfold valueText
  rw [List.length_take, List.length_drop]
  omega

/-- A form stands at the same place in the copy. -/
lemma MoFile.WellFormed.formPosition_copy (form p : ℕ) :
    formPosition (f.range i) form p = formPosition (f.copy i) form p := by
  refine formPosition_congr (h.length_valueText hi).symm ?_ form p
  show (f.data.drop (f.valueOffset i)).take (f.valueLength i) = (f.valueText i ++ [0]).take
    (f.valueText i).length
  rw [List.take_left]
  rfl

/-- The text at a position of the translation is the same in the map iff it ends there. -/
lemma MoFile.WellFormed.cString_copy {p : ℕ} (hp : p ≤ f.valueLength i) :
    cString ((f.range i).memory.drop p) = cString ((f.copy i).memory.drop p) ↔
    (f.range i).Ends p := by
  have hinside := h.values_inside i hi
  have hlength := h.length_valueText hi
  have hcopy : (f.copy i).memory.drop p = ((f.range i).memory.drop p).take
      (f.valueLength i - p) ++ [0] := by
    show (f.valueText i ++ [0]).drop p = _
    rw [List.drop_append_of_le_length (by omega), List.take_drop, Nat.add_sub_cancel' hp]
    rfl
  have hlt : f.valueLength i - p < ((f.range i).memory.drop p).length := by
    show _ < ((f.data.drop (f.valueOffset i)).drop p).length
    rw [List.length_drop, List.length_drop]
    omega
  have hcut := cString_take_iff _ _ hlt
  rw [hcopy]
  unfold Range.Ends
  rwa [show (f.range i).length + 1 - p = f.valueLength i - p + 1 from Nat.sub_add_comm hp]

lemma MoFile.WellFormed.form_copy (form : ℤ) :
    (f.range i).form form = (f.copy i).form form ↔
      ∀ p, formPosition (f.range i) form.toNat 0 = some p → p < f.valueLength i →
      (f.range i).Ends p := by
  have hlength : (f.copy i).length = f.valueLength i := h.length_valueText hi
  unfold Range.form
  rw [← h.formPosition_copy hi]
  rcases formPosition (f.range i) form.toNat 0 with _ | q
  · simp
  · rw [Option.bind_some, Option.bind_some, hlength]
    show (if q ≥ f.valueLength i then none else _) = _ ↔ _
    by_cases hq : q ≥ f.valueLength i
    · rw [if_pos hq, if_pos hq]
      refine iff_of_true rfl fun p hp hlt => ?_
      cases hp
      omega
    · rw [if_neg hq, if_neg hq, Option.some_inj, h.cString_copy hi (by omega)]
      constructor
      · intro hends p hp _
        cases hp
        exact hends
      · intro hends
        exact hends q rfl (by omega)

/-- The translation reads the same in the file and in the map iff its texts end where it does. -/
lemma MoFile.WellFormed.same_copy (plural : Option (ℤ → ℤ)) :
    (f.range i).Same plural (f.copy i) ↔ f.Ended plural i := by
  have hsingular := h.cString_copy hi (Nat.zero_le (f.valueLength i))
  rw [List.drop_zero, List.drop_zero] at hsingular
  unfold Range.Same Ended
  rw [hsingular]
  refine and_congr_right fun _ => forall_congr' fun n => ?_
  exact h.form_copy hi _

end Copy

/-! ## The two answers -/

/-- The key with number `i`. -/
def MoFile.KeyAt (f : MoFile) (i : ℕ) (key : Bytes) : Prop := i < f.size ∧ f.keyText i = key

def MoFile.Stored (f : MoFile) (key : Bytes) : Prop := ∃ i, f.KeyAt i key

/-- A key stands at one place only. -/
lemma MoFile.WellFormed.keyAt_unique (h : f.WellFormed) {i j : ℕ} (hi : f.KeyAt i key)
    (hj : f.KeyAt j key) : i = j :=
  h.distinct i hi.1 j hj.1 (hi.2.trans hj.2.symm)

/-- The entry of the map for a context and a message comes from the key with number `i`. -/
def MoFile.LoadedFrom (f : MoFile) (a : Bytes × Bytes) (i : ℕ) : Prop :=
  i < f.size ∧ messageKey (f.keyText i) = a ∧ ∀ j < f.size, i < j → messageKey (f.keyText j) ≠ a

/-- The context and the message as they are looked for in the map. -/
def asked (context : Option CString) (id : CString) : Bytes × Bytes :=
  ((context.map Subtype.val).getD [], id.1)

/-- The loaded map gives the translation that was loaded for the pair. -/
lemma MoFile.LoadedFrom.getString_eq {a : Bytes × Bytes} {context : Option CString} {id : CString}
    (hfrom : f.LoadedFrom a i) (ha : asked context id = a) :
    (Catalog.loaded (f.catalog f.size)).getString context id = some (some (f.copy i)) := by
  have hfind : (f.catalog f.size).find (toLex a) = some (f.valueText i) :=
    (f.find_catalog f.size a _).2 ⟨i, hfrom.1, hfrom.2.1, rfl, hfrom.2.2⟩
  unfold Catalog.getString
  dsimp only
  rw [show ((context.map Subtype.val).getD [], id.1) = a from ha, hfind]
  rfl

lemma MoFile.getString_of_not_loaded (context : Option CString) (id : CString)
    (hnone : ∀ i < f.size, messageKey (f.keyText i) ≠ asked context id) :
    (Catalog.loaded (f.catalog f.size)).getString context id = some none := by
  have hfind : (f.catalog f.size).find (toLex (asked context id)) = none := by
    by_contra hne
    rcases Option.ne_none_iff_exists'.1 hne with ⟨v, hv⟩
    rcases (f.find_catalog f.size _ v).1 hv with ⟨i, hi, hkey, -⟩
    exact hnone i hi hkey
  unfold Catalog.getString
  dsimp only
  rw [show ((context.map Subtype.val).getD [], id.1) = asked context id from rfl, hfind]
  rfl

/-- A message is looked up in the file and in the map with the same result. -/
def Catalog.Agree (c d : Catalog) (plural : Option (ℤ → ℤ)) (context : Option CString)
    (id : CString) : Prop :=
  c.get context id = d.get context id ∧
    ∀ n, c.getPlural plural context id n = d.getPlural plural context id n

section Agree

variable {c d : Catalog} {plural : Option (ℤ → ℤ)} {context : Option CString}
    {id : CString} {r s : Range}

lemma Catalog.agree_of_none (hc : c.getString context id = some none)
    (hd : d.getString context id = some none) :
    c.Agree d plural context id := by
  unfold Agree get getPlural
  rw [hc, hd]
  exact ⟨rfl, fun n => rfl⟩

/-- Two translations agree if they read the same in every form. -/
lemma Catalog.agree_iff_same (hc : c.getString context id = some (some r))
    (hd : d.getString context id = some (some s)) :
    c.Agree d plural context id ↔ r.Same plural s := by
  unfold Agree get getPlural Range.Same
  rw [hc, hd]
  refine and_congr ?_ (forall_congr' fun n => ?_)
  · show some (some _) = some (some _) ↔ _
    rw [Option.some_inj, Option.some_inj]
  · show some _ = some _ ↔ _
    rw [Option.some_inj]
    rfl

lemma Catalog.not_agree_of_some_none (hc : c.getString context id = some (some r))
    (hd : d.getString context id = some none) : ¬ c.Agree d plural context id := by
  rintro ⟨hget, -⟩
  unfold get at hget
  rw [hc, hd] at hget
  cases hget

lemma Catalog.not_agree_of_none_some (hc : c.getString context id = some none)
    (hd : d.getString context id = some (some s)) : ¬ c.Agree d plural context id := by
  rintro ⟨hget, -⟩
  unfold get at hget
  rw [hc, hd] at hget
  cases hget

end Agree

section Entries

variable {id : Bytes} {a b : ℕ}

/-- The keys that are loaded for a message with the empty context. -/
lemma messageKey_eq_nil_iff {k : Bytes} :
    messageKey k = ([], id) ↔ k = eot :: id ∨ (k = id ∧ eot ∉ id) := by
  rw [messageKey_eq_iff]
  constructor
  · rintro (⟨-, hk⟩ | ⟨-, hk⟩)
    · exact Or.inl hk
    · exact Or.inr hk
  · rintro (hk | hk)
    · exact Or.inl ⟨List.not_mem_nil, hk⟩
    · exact Or.inr ⟨rfl, hk⟩

/-- The message without a separator is loaded, and no later key with an empty context. -/
lemma MoFile.WellFormed.loadedFrom_plain (h : f.WellFormed) (ha : f.KeyAt a id) (heot : eot ∉ id)
    (hlast : ∀ b, f.KeyAt b (eot :: id) → b < a) : f.LoadedFrom ([], id) a := by
  refine ⟨ha.1, messageKey_eq_nil_iff.2 (Or.inr ⟨ha.2, heot⟩), fun j hj hlt hkey => ?_⟩
  rcases messageKey_eq_nil_iff.1 hkey with hk | ⟨hk, -⟩
  · exact absurd (hlast j ⟨hj, hk⟩) (by omega)
  · have hsame := h.keyAt_unique ha ⟨hj, hk⟩
    omega

/-- The key with an empty context is loaded, and no later message without a separator. -/
lemma MoFile.WellFormed.loadedFrom_empty (h : f.WellFormed) (hb : f.KeyAt b (eot :: id))
    (hlast : eot ∈ id ∨ ∀ a, f.KeyAt a id → a < b) : f.LoadedFrom ([], id) b := by
  refine ⟨hb.1, messageKey_eq_nil_iff.2 (Or.inl hb.2), fun j hj hlt hkey => ?_⟩
  rcases messageKey_eq_nil_iff.1 hkey with hk | ⟨hk, heot⟩
  · have hsame := h.keyAt_unique hb ⟨hj, hk⟩
    omega
  · rcases hlast with hmem | hlast
    · exact heot hmem
    · exact absurd (hlast j ⟨hj, hk⟩) (by omega)

lemma MoFile.not_loaded (hempty : ¬ f.Stored (eot :: id)) (hplain : ¬ f.Stored id ∨ eot ∈ id) :
    ∀ i < f.size, messageKey (f.keyText i) ≠ ([], id) := by
  intro i hi hkey
  rcases messageKey_eq_nil_iff.1 hkey with hk | ⟨hk, heot⟩
  · exact hempty ⟨i, hi, hk⟩
  · rcases hplain with hplain | hmem
    · exact hplain ⟨i, hi, hk⟩
    · exact heot hmem

end Entries

/-- Where the two ways to look up a message agree.

Without a context, the message has to be a key that has no separator and is not followed by the same
message with an empty context, or it must not be there in either form; with an empty context, it is
the other way round; and a context that is not empty must not have the separator in it.  Otherwise
two translations have to read the same. -/
def MoFile.Agrees (f : MoFile) (plural : Option (ℤ → ℤ)) (id : Bytes) : Option Bytes → Prop
  | none =>
    (¬ f.Stored id ∧ ¬ f.Stored (eot :: id)) ∨
    (∃ a, f.KeyAt a id ∧ eot ∉ id ∧ (∀ b, f.KeyAt b (eot :: id) → b < a) ∧ f.Ended plural a) ∨
    ∃ a b, f.KeyAt a id ∧ f.KeyAt b (eot :: id) ∧ (eot ∈ id ∨ a < b) ∧
    (f.range a).Same plural (f.copy b)
  | some [] =>
    (¬ f.Stored (eot :: id) ∧ (¬ f.Stored id ∨ eot ∈ id)) ∨
    (∃ b, f.KeyAt b (eot :: id) ∧ (eot ∈ id ∨ ∀ a, f.KeyAt a id → a < b) ∧ f.Ended plural b) ∨
    ∃ a b, f.KeyAt a id ∧ f.KeyAt b (eot :: id) ∧ eot ∉ id ∧ b < a ∧
    (f.range b).Same plural (f.copy a)
  | some (x :: c) =>
    ¬ f.Stored (x :: c ++ eot :: id) ∨
      (eot ∉ x :: c ∧ ∃ a, f.KeyAt a (x :: c ++ eot :: id) ∧ f.Ended plural a)

section Answers

variable {plural : Option (ℤ → ℤ)} {context : Option CString} {id : CString} {a b : ℕ}

lemma MoFile.WellFormed.direct_of_keyAt (h : f.WellFormed)
    (ha : f.KeyAt a (MoFile.joined context id)) :
    (Catalog.direct f).getString context id = some (some (f.range a)) :=
  MoFile.find_of_key h ha.1 ha.2

lemma MoFile.WellFormed.direct_of_not_stored (h : f.WellFormed)
    (hnone : ¬ f.Stored (MoFile.joined context id)) :
    (Catalog.direct f).getString context id = some none :=
  MoFile.find_of_not_key h fun i hi hkey => hnone ⟨i, hi, hkey⟩

/-- Both ways come to the same key. -/
lemma MoFile.WellFormed.agree_of_one (h : f.WellFormed) (context : Option CString)
    (ha : f.KeyAt a (MoFile.joined context id)) (hfrom : f.LoadedFrom (asked context id) a) :
    (Catalog.direct f).Agree (Catalog.loaded (f.catalog f.size)) plural context id ↔
    f.Ended plural a := by
  rw [Catalog.agree_iff_same (h.direct_of_keyAt ha) (hfrom.getString_eq rfl)]
  exact h.same_copy ha.1 plural

/-- The two ways come to two keys. -/
lemma MoFile.WellFormed.agree_of_two (h : f.WellFormed) (context : Option CString)
    (ha : f.KeyAt a (MoFile.joined context id)) (hfrom : f.LoadedFrom (asked context id) b) :
    (Catalog.direct f).Agree (Catalog.loaded (f.catalog f.size)) plural context id ↔
      (f.range a).Same plural (f.copy b) :=
  Catalog.agree_iff_same (h.direct_of_keyAt ha) (hfrom.getString_eq rfl)

lemma MoFile.KeyAt.ne (ha : f.KeyAt a key) (hb : f.KeyAt b (eot :: key)) : a ≠ b := by
  rintro rfl
  exact List.cons_ne_self eot key (hb.2.symm.trans ha.2)

/-- Without a context. -/
lemma MoFile.WellFormed.agree_none (h : f.WellFormed) :
    (Catalog.direct f).Agree (Catalog.loaded (f.catalog f.size)) plural none id ↔
    f.Agrees plural id.1 none := by
  unfold Agrees
  by_cases hempty : f.Stored (eot :: id.1)
  · rcases hempty with ⟨b, hb⟩
    by_cases hplain : f.Stored id.1
    · rcases hplain with ⟨a, ha⟩
      have hne := ha.ne hb
      by_cases hlast : eot ∈ id.1 ∨ a < b
      · have hfrom : f.LoadedFrom ([], id.1) b :=
          h.loadedFrom_empty hb (hlast.imp_right fun hlt a' ha' => h.keyAt_unique ha' ha ▸ hlt)
        rw [h.agree_of_two none ha hfrom]
        constructor
        · intro hsame
          exact Or.inr (Or.inr ⟨a, b, ha, hb, hlast, hsame⟩)
        · rintro (⟨hnone, -⟩ | ⟨a', ha', heot, hafter, -⟩ | ⟨a', b', ha', hb', -, hsame⟩)
          · exact absurd ⟨a, ha⟩ hnone
          · have hafter := hafter b hb
            rw [h.keyAt_unique ha' ha] at hafter
            rcases hlast with hmem | hlt
            · exact absurd hmem heot
            · omega
          · rwa [h.keyAt_unique ha' ha, h.keyAt_unique hb' hb] at hsame
      · rw [not_or] at hlast
        have hlt : b < a := by omega
        have hafter : ∀ b', f.KeyAt b' (eot :: id.1) → b' < a := fun b' hb' =>
          h.keyAt_unique hb' hb ▸ hlt
        rw [h.agree_of_one none ha (h.loadedFrom_plain ha hlast.1 hafter)]
        constructor
        · intro hended
          exact Or.inr (Or.inl ⟨a, ha, hlast.1, hafter, hended⟩)
        · rintro (⟨hnone, -⟩ | ⟨a', ha', -, -, hended⟩ | ⟨a', b', ha', hb', hcase, -⟩)
          · exact absurd ⟨a, ha⟩ hnone
          · rwa [h.keyAt_unique ha' ha] at hended
          · rw [h.keyAt_unique ha' ha, h.keyAt_unique hb' hb] at hcase
            exact absurd hcase (not_or.2 hlast)
    · have hfrom : f.LoadedFrom ([], id.1) b :=
        h.loadedFrom_empty hb (Or.inr fun a ha => absurd ⟨a, ha⟩ hplain)
      refine iff_of_false
        (Catalog.not_agree_of_none_some (h.direct_of_not_stored hplain) (hfrom.getString_eq rfl)) ?_
      rintro (⟨-, hnone⟩ | ⟨a', ha', -⟩ | ⟨a', b', ha', -⟩)
      · exact hnone ⟨b, hb⟩
      · exact hplain ⟨a', ha'⟩
      · exact hplain ⟨a', ha'⟩
  · have hafter : ∀ a b', f.KeyAt b' (eot :: id.1) → b' < a := fun a b' hb' =>
      absurd ⟨b', hb'⟩ hempty
    by_cases hplain : f.Stored id.1
    · rcases hplain with ⟨a, ha⟩
      by_cases heot : eot ∈ id.1
      · have hnone :=
          MoFile.getString_of_not_loaded none id (MoFile.not_loaded hempty (Or.inr heot))
        refine iff_of_false (Catalog.not_agree_of_some_none (h.direct_of_keyAt ha) hnone) ?_
        rintro (⟨hnone, -⟩ | ⟨-, -, hnot, -⟩ | ⟨-, b', -, hb', -⟩)
        · exact hnone ⟨a, ha⟩
        · exact hnot heot
        · exact hempty ⟨b', hb'⟩
      · rw [h.agree_of_one none ha (h.loadedFrom_plain ha heot (hafter a))]
        constructor
        · intro hended
          exact Or.inr (Or.inl ⟨a, ha, heot, hafter a, hended⟩)
        · rintro (⟨hnone, -⟩ | ⟨a', ha', -, -, hended⟩ | ⟨-, b', -, hb', -⟩)
          · exact absurd ⟨a, ha⟩ hnone
          · rwa [h.keyAt_unique ha' ha] at hended
          · exact absurd ⟨b', hb'⟩ hempty
    · have hnone :=
        MoFile.getString_of_not_loaded none id (MoFile.not_loaded hempty (Or.inl hplain))
      exact iff_of_true (Catalog.agree_of_none (h.direct_of_not_stored hplain) hnone)
        (Or.inl ⟨hplain, hempty⟩)

/-- With an empty context. -/
lemma MoFile.WellFormed.agree_empty (h : f.WellFormed) (hzero : 0 ∉ ([] : Bytes)) :
    (Catalog.direct f).Agree (Catalog.loaded (f.catalog f.size)) plural (some ⟨[], hzero⟩) id ↔
      f.Agrees plural id.1 (some []) := by
  unfold Agrees
  by_cases hempty : f.Stored (eot :: id.1)
  · rcases hempty with ⟨b, hb⟩
    by_cases hlast : eot ∈ id.1 ∨ ∀ a, f.KeyAt a id.1 → a < b
    · rw [h.agree_of_one (some ⟨[], hzero⟩) hb (h.loadedFrom_empty hb hlast)]
      constructor
      · intro hended
        exact Or.inr (Or.inl ⟨b, hb, hlast, hended⟩)
      · rintro (⟨hnone, -⟩ | ⟨b', hb', -, hended⟩ | ⟨a', b', ha', hb', heot, hlt, -⟩)
        · exact absurd ⟨b, hb⟩ hnone
        · rwa [h.keyAt_unique hb' hb] at hended
        · rcases hlast with hmem | hlast
          · exact absurd hmem heot
          · have hafter := hlast a' ha'
            rw [h.keyAt_unique hb' hb] at hlt
            omega
    · push Not at hlast
      rcases hlast with ⟨heot, a, ha, hle⟩
      have hne := ha.ne hb
      have hlt : b < a := by omega
      have hfrom := h.loadedFrom_plain ha heot fun b' hb' => h.keyAt_unique hb' hb ▸ hlt
      rw [h.agree_of_two (some ⟨[], hzero⟩) hb hfrom]
      constructor
      · intro hsame
        exact Or.inr (Or.inr ⟨a, b, ha, hb, heot, hlt, hsame⟩)
      · rintro (⟨hnone, -⟩ | ⟨b', hb', hcase, -⟩ | ⟨a', b', ha', hb', -, -, hsame⟩)
        · exact absurd ⟨b, hb⟩ hnone
        · rcases hcase with hmem | hcase
          · exact absurd hmem heot
          · have hafter := hcase a ha
            rw [h.keyAt_unique hb' hb] at hafter
            omega
        · rwa [h.keyAt_unique ha' ha, h.keyAt_unique hb' hb] at hsame
  · have hdirect : (Catalog.direct f).getString (some ⟨[], hzero⟩) id = some none :=
      h.direct_of_not_stored hempty
    by_cases hplain : ¬ f.Stored id.1 ∨ eot ∈ id.1
    · have hnone := MoFile.getString_of_not_loaded (some ⟨[], hzero⟩) id
        (MoFile.not_loaded hempty hplain)
      exact iff_of_true (Catalog.agree_of_none hdirect hnone) (Or.inl ⟨hempty, hplain⟩)
    · push Not at hplain
      rcases hplain with ⟨⟨a, ha⟩, heot⟩
      have hfrom := h.loadedFrom_plain ha heot fun b' hb' => absurd ⟨b', hb'⟩ hempty
      refine iff_of_false (Catalog.not_agree_of_none_some hdirect (hfrom.getString_eq rfl)) ?_
      rintro (⟨-, hcase⟩ | ⟨b', hb', -⟩ | ⟨-, b', -, hb', -⟩)
      · rcases hcase with hcase | hmem
        · exact hcase ⟨a, ha⟩
        · exact heot hmem
      · exact hempty ⟨b', hb'⟩
      · exact hempty ⟨b', hb'⟩

/-- With another context. -/
lemma MoFile.WellFormed.agree_context (h : f.WellFormed) {x : UInt8} {c : Bytes}
    (hzero : 0 ∉ x :: c) :
    (Catalog.direct f).Agree (Catalog.loaded (f.catalog f.size)) plural (some ⟨x :: c, hzero⟩) id ↔
      f.Agrees plural id.1 (some (x :: c)) := by
  unfold Agrees
  have hkey : ∀ k, messageKey k = (x :: c, id.1) ↔ eot ∉ x :: c ∧ k = x :: c ++ eot :: id.1 := by
    intro k
    rw [messageKey_eq_iff]
    refine or_iff_left ?_
    rintro ⟨hnil, -⟩
    exact List.cons_ne_nil x c hnil
  by_cases hstored : f.Stored (x :: c ++ eot :: id.1)
  · rcases hstored with ⟨a, ha⟩
    by_cases heot : eot ∈ x :: c
    · have hnone := MoFile.getString_of_not_loaded (f := f) (some ⟨x :: c, hzero⟩) id
        fun i hi heq => ((hkey _).1 heq).1 heot
      refine iff_of_false (Catalog.not_agree_of_some_none (h.direct_of_keyAt ha) hnone) ?_
      rintro (hnot | ⟨hnot, -⟩)
      · exact hnot ⟨a, ha⟩
      · exact hnot heot
    · have hfrom : f.LoadedFrom (x :: c, id.1) a := by
        refine ⟨ha.1, (hkey _).2 ⟨heot, ha.2⟩, fun j hj hlt heq => ?_⟩
        have hsame := h.keyAt_unique ha ⟨hj, ((hkey _).1 heq).2⟩
        omega
      rw [h.agree_of_one (some ⟨x :: c, hzero⟩) ha hfrom]
      constructor
      · intro hended
        exact Or.inr ⟨heot, a, ha, hended⟩
      · rintro (hnot | ⟨-, a', ha', hended⟩)
        · exact absurd ⟨a, ha⟩ hnot
        · rwa [h.keyAt_unique ha' ha] at hended
  · have hnone := MoFile.getString_of_not_loaded (f := f) (some ⟨x :: c, hzero⟩) id
      fun i hi heq => hstored ⟨i, hi, ((hkey _).1 heq).2⟩
    exact iff_of_true (Catalog.agree_of_none (h.direct_of_not_stored hstored) hnone)
      (Or.inl hstored)

end Answers

/-- The file itself and the map that it is loaded into give the same answers, in the singular and in
every plural form, iff the keys of the file are so that no other key is taken for the context and
the message. -/
theorem MoFile.agree_iff_agrees {f : MoFile} {m : CatalogMap}
    {cvtKey cvtValue : Bytes → Option Bytes} (plural : Option (ℤ → ℤ)) (context : Option CString)
    (id : CString) (h : f.WellFormed) (hcvt : f.Converts cvtKey cvtValue)
    (hload : f.loadCatalog cvtKey cvtValue = some m) :
    (Catalog.direct f).Agree (Catalog.loaded m) plural context id ↔
    f.Agrees plural id.1 (context.map Subtype.val) := by
  rw [h.loadCatalog_eq hcvt] at hload
  rw [← Option.some.inj hload]
  rcases context with _ | ⟨c, hc⟩
  · exact h.agree_none
  · rcases c with _ | ⟨x, c⟩
    · exact h.agree_empty hc
    · exact h.agree_context hc

end Map

/-! ## A catalogue -/

/-- A catalogue with the message `hello`, after the header of the catalogue. -/
def hello : Bytes :=
  [222, 18, 4, 149, 0, 0, 0, 0, 2, 0, 0, 0, 28, 0, 0, 0, 44, 0, 0, 0, 3, 0, 0, 0, 60, 0, 0, 0,
   -- the keys, the translations, and the hash table
   0, 0, 0, 0, 72, 0, 0, 0, 5, 0, 0, 0, 73, 0, 0, 0,
   14, 0, 0, 0, 79, 0, 0, 0, 7, 0, 0, 0, 94, 0, 0, 0,
   1, 0, 0, 0, 2, 0, 0, 0, 0, 0, 0, 0,
   -- the strings
   0, 104, 101, 108, 108, 111, 0,
   99, 104, 97, 114, 115, 101, 116, 61, 85, 84, 70, 45, 56, 10, 0, 98, 111, 110, 106,
   111, 117, 114, 0]

def helloFile : MoFile := ⟨hello, true, 2, 28, 44, 3, 60⟩

lemma load_hello : MoFile.load hello = some helloFile := by decide

lemma wellFormed_helloFile : helloFile.WellFormed where
  hash_ge := by decide
  keys_inside := by decide
  translations_inside := by decide
  hash_inside := by decide
  key_terminated := by decide
  values_inside := by decide
  distinct := by decide
  slots := by decide
  found := by decide

lemma converts_helloFile : helloFile.Converts some some := ⟨fun _ _ => rfl, fun _ _ => rfl⟩

/-- The message is found without a context in both ways. -/
theorem agree_hello :
    MoFile.load hello = some helloFile ∧
      (Catalog.direct helloFile).Agree (Catalog.loaded (helloFile.catalog 2)) none none
        ⟨[104, 101, 108, 108, 111], by decide⟩ := by
  refine ⟨load_hello, (MoFile.agree_iff_agrees none none _ wellFormed_helloFile
    converts_helloFile (wellFormed_helloFile.loadCatalog_eq converts_helloFile)).2 ?_⟩
  refine Or.inr
    (Or.inl ⟨1, ⟨by decide, by decide⟩, by decide, ?_, MoFile.ended_of_zero (by decide)⟩)
  intro b hb
  have hlt : b < 2 := hb.1
  have hne : b ≠ 1 := by
    rintro rfl
    exact absurd hb.2 (by decide)
  omega

/-- With an empty context the message is found in the map only. -/
theorem not_forall_agree :
    MoFile.load hello = some helloFile ∧
    ¬ ∀ (f : MoFile) (m : CatalogMap) (cvtKey cvtValue : Bytes → Option Bytes)
      (plural : Option (ℤ → ℤ))
      (context : Option CString) (id : CString),
      f.WellFormed → f.Converts cvtKey cvtValue → f.loadCatalog cvtKey cvtValue = some m →
        (Catalog.direct f).Agree (Catalog.loaded m) plural context id := by
  refine ⟨load_hello, fun hall => ?_⟩
  have hagree := hall helloFile (helloFile.catalog 2) some some none (some ⟨[], by decide⟩)
    ⟨[104, 101, 108, 108, 111], by decide⟩ wellFormed_helloFile converts_helloFile
    (wellFormed_helloFile.loadCatalog_eq converts_helloFile)
  have hget := hagree.1
  revert hget
  decide

end Locale

end Cppcms
