import Cppcms.Base.StringMap
import Mathlib.Data.List.GetD

/-!
# Probing and growing of the map of the environment

The slots of a `string_map` are looked at through the list of its entries with their slots, the
newest first, which is the order of their `next_index`.  Every entry is found by probing over older
entries only, so that of several entries with one key the oldest is found.

When the table grows the entries are moved in the order of the links, and then the oldest entry is
the newest.
-/

namespace Cppcms

namespace StringMap

/-! ## Loops over the slots -/

variable {d : Slots} {cells : List (ℕ × Entry)} {first : Option ℕ} {fuel : ℕ} {n : ℕ}
  {order : List (Bytes × Bytes)}

/-- Probing stops at the first slot that it may stop at. -/
lemma probe_eq {stops : Option Entry → Bool} {start k fuel : ℕ} (hk : k < fuel)
    (hbefore : ∀ j < k, stops (d.getD ((start + j) % d.length) none) = false)
    (hstop : stops (d.getD ((start + k) % d.length) none) = true) :
    probe stops d fuel (start % d.length) = some ((start + k) % d.length) := by
  induction k generalizing start fuel with
  | zero =>
    rcases fuel with _ | fuel
    · omega
    · rw [Nat.add_zero] at hstop
      rw [probe, if_pos hstop, Nat.add_zero]
  | succ k ih =>
    rcases fuel with _ | fuel
    · omega
    · have hfirst := hbefore 0 (Nat.succ_pos k)
      rw [Nat.add_zero] at hfirst
      have hmove : ∀ j, start + 1 + j = start + (j + 1) := fun j => by omega
      rw [probe, if_neg (by rw [hfirst]; exact Bool.false_ne_true), Nat.mod_add_mod]
      rw [← hmove k] at hstop ⊢
      apply ih (by omega) _ hstop
      intro j hj
      rw [hmove]
      exact hbefore (j + 1) (by omega)

/-- The iterator from the slot `first` on: the slots and the entries that it goes through. -/
def iterate (d : Slots) : ℕ → Option ℕ → Option (List (ℕ × Entry))
  | _, none => some []
  | 0, some _ => none
  | fuel + 1, some pos => do
    let e ← d.getD pos none
    let rest ← iterate d fuel e.nextIndex
    return (pos, e) :: rest

/-! ## Tables -/

/-- The links go through the cells. -/
inductive Linked (d : Slots) : Option ℕ → List (ℕ × Entry) → Prop
  | nil : Linked d none []
  | cons {p : ℕ} {e : Entry} {cells : List (ℕ × Entry)} (hp : p < d.length)
      (hget : d.getD p none = some e)
      (hcells : Linked d e.nextIndex cells) : Linked d (some p) ((p, e) :: cells)

/-- The slots before the one of an entry are taken by older entries. -/
def OnPath (n : ℕ) (x : ℕ × Entry) (older : List (ℕ × Entry)) : Prop :=
  ∃ k < n, x.1 = (x.2.hash.toNat + k) % n ∧ ∀ j < k, ∃ y ∈ older, y.1 = (x.2.hash.toNat + j) % n

/-- Cells that were filled by probing, the newest first. -/
inductive Probed (n : ℕ) : List (ℕ × Entry) → Prop
  | nil : Probed n []
  | cons {x : ℕ × Entry} {older : List (ℕ × Entry)} (hpath : OnPath n x older)
      (hnew : ∀ y ∈ older, y.1 ≠ x.1)
      (hhash : x.2.hash = calcHash x.2.key) (holder : Probed n older) : Probed n (x :: older)

/-- The slots hold the cells and nothing else. -/
structure Table (d : Slots) (first : Option ℕ) (cells : List (ℕ × Entry)) : Prop where
  linked : Linked d first cells
  probed : Probed d.length cells
  occupied : ∀ p e, d.getD p none = some e → (p, e) ∈ cells
  count : d.countP Option.isSome = cells.length

/-- What the caller has put into a cell. -/
def pair (x : ℕ × Entry) : Bytes × Bytes := (x.2.key, x.2.value)

lemma Linked.get (h : Linked d first cells) :
    ∀ x ∈ cells, x.1 < d.length ∧ d.getD x.1 none = some x.2 := by
  induction h with
  | nil =>
    intro x hx
    cases hx
  | cons hp hget _ ih =>
    intro x hx
    rcases List.mem_cons.1 hx with rfl | hx
    · exact ⟨hp, hget⟩
    · exact ih x hx

/-- Links through other slots are not touched. -/
lemma Linked.set (h : Linked d first cells) {p : ℕ} (hp : ∀ x ∈ cells, x.1 ≠ p) (o : Option Entry) :
    Linked (d.set p o) first cells := by
  induction h with
  | nil => exact .nil
  | @cons q e cells hq hget _ ih =>
    have hne : q ≠ p := hp (q, e) List.mem_cons_self
    refine .cons (by rwa [List.length_set]) ?_ (ih fun x hx => hp x (List.mem_cons_of_mem _ hx))
    rw [List.getD_eq_getElem?_getD, List.getElem?_set_ne hne.symm, ← List.getD_eq_getElem?_getD]
    exact hget

lemma Linked.iterate (h : Linked d first cells) (hfuel : cells.length ≤ fuel) :
    iterate d fuel first = some cells := by
  induction h generalizing fuel with
  | nil => rw [StringMap.iterate]
  | cons hp hget _ ih =>
    rcases fuel with _ | fuel
    · exact absurd hfuel (Nat.not_succ_le_zero _)
    · rw [StringMap.iterate, hget, Option.bind_eq_bind, Option.bind_some,
        ih (Nat.le_of_succ_le_succ hfuel)]
      rfl

lemma Probed.hash (h : Probed n cells) :
    ∀ x ∈ cells, x.2.hash = calcHash x.2.key := by
  induction h with
  | nil =>
    intro x hx
    cases hx
  | cons _ _ hhash _ ih =>
    intro x hx
    rcases List.mem_cons.1 hx with rfl | hx
    · exact hhash
    · exact ih x hx

lemma Probed.onPath {newer older : List (ℕ × Entry)} {x : ℕ × Entry}
    (h : Probed n (newer ++ x :: older)) :
    OnPath n x older := by
  induction newer with
  | nil =>
    cases h with
    | cons hpath => exact hpath
  | cons y newer ih =>
    cases h with
    | cons _ _ _ holder => exact ih holder

lemma Probed.nodup (h : Probed n cells) : (cells.map Prod.fst).Nodup := by
  induction h with
  | nil => exact .nil
  | cons _ hnew _ _ ih =>
    rw [List.map_cons, List.nodup_cons]
    refine ⟨fun hmem => ?_, ih⟩
    rcases List.mem_map.1 hmem with ⟨y, hy, heq⟩
    exact hnew y hy heq

section Table

variable {d : Slots} {first : Option ℕ} {cells : List (ℕ × Entry)}

lemma Table.empty (n : ℕ) : Table (List.replicate n none) none [] := by
  refine ⟨.nil, .nil, fun p e h => ?_, ?_⟩
  · rw [List.getD_eq_getElem?_getD, List.getElem?_replicate] at h
    split_ifs at h <;> cases h
  · rw [List.countP_replicate]
    rfl

/-- Every slot is reached from every other one. -/
lemma exists_add_mod {n p : ℕ} (hp : p < n) (start : ℕ) : ∃ k < n, (start + k) % n = p := by
  have hlt : start % n < n := Nat.mod_lt _ (by omega)
  refine ⟨(p + (n - start % n)) % n, Nat.mod_lt _ (by omega), ?_⟩
  rw [Nat.add_mod, Nat.mod_mod, ← Nat.add_mod, ← Nat.mod_add_mod,
    show start % n + (p + (n - start % n)) = p + n by omega, Nat.add_mod_right, Nat.mod_eq_of_lt hp]

/-- There is a first free slot, wherever probing starts. -/
lemma Table.exists_free (h : Table d first cells) (hroom : cells.length < d.length) (start : ℕ) :
    ∃ k < d.length, d.getD ((start + k) % d.length) none = none ∧
      ∀ j < k, d.getD ((start + j) % d.length) none ≠ none := by
  have hsome : ∃ k, k < d.length ∧ d.getD ((start + k) % d.length) none = none := by
    by_contra hall
    have hcount : d.countP Option.isSome = d.length := by
      rw [List.countP_eq_length]
      intro o ho
      rcases List.mem_iff_getElem.1 ho with ⟨p, hp, rfl⟩
      rcases exists_add_mod hp start with ⟨k, hk, heq⟩
      have hne : d.getD ((start + k) % d.length) none ≠ none := fun hnone => hall ⟨k, hk, hnone⟩
      rw [heq, List.getD_eq_getElem _ _ hp] at hne
      exact Option.isSome_iff_ne_none.2 hne
    rw [h.count] at hcount
    omega
  classical
  refine ⟨Nat.find hsome, (Nat.find_spec hsome).1, (Nat.find_spec hsome).2, fun j hj hnone => ?_⟩
  exact Nat.find_min hsome hj ⟨hj.trans (Nat.find_spec hsome).1, hnone⟩

/-- An entry gets a free slot and becomes the newest one. -/
lemma Table.insert (h : Table d first cells) (hroom : cells.length < d.length) {e : Entry}
    (he : e.hash = calcHash e.key) :
    ∃ p d', insert d e first = some (d', some p) ∧ d'.length = d.length ∧
      Table d' (some p) ((p, { e with nextIndex := first }) :: cells) := by
  rcases h.exists_free hroom e.hash.toNat with ⟨k, hk, hfree, hbefore⟩
  have hp : (e.hash.toNat + k) % d.length < d.length := Nat.mod_lt _ (by omega)
  have hprobe : probe Option.isNone d d.length (e.hash.toNat % d.length) =
      some ((e.hash.toNat + k) % d.length) := by
    apply probe_eq hk
    · intro j hj
      exact Option.isNone_eq_false_iff.2 (Option.isSome_iff_ne_none.2 (hbefore j hj))
    · rw [hfree]
      rfl
  generalize hpos : (e.hash.toNat + k) % d.length = p at hfree hp hprobe
  have hnew : ∀ y ∈ cells, y.1 ≠ p := by
    rintro y hy rfl
    rw [(h.linked.get y hy).2] at hfree
    cases hfree
  refine ⟨p, d.set p (some { e with nextIndex := first }), ?_, List.length_set, ?_⟩
  · unfold StringMap.insert
    rw [hprobe, Option.map_some]
  have hget : (d.set p (some { e with nextIndex := first })).getD p none =
      some { e with nextIndex := first } := by
    rw [List.getD_eq_getElem _ _ (by rwa [List.length_set]), List.getElem_set_self]
  refine ⟨.cons (by rwa [List.length_set]) hget (h.linked.set hnew _), ?_, fun q f hq => ?_, ?_⟩
  · rw [List.length_set]
    refine .cons ⟨k, hk, hpos.symm, fun j hj => ?_⟩ hnew he h.probed
    rcases Option.ne_none_iff_exists'.1 (hbefore j hj) with ⟨f, hf⟩
    exact ⟨_, h.occupied _ _ hf, rfl⟩
  · by_cases heq : q = p
    · subst heq
      rw [hget] at hq
      cases hq
      exact List.mem_cons_self
    · rw [List.getD_eq_getElem?_getD,
        List.getElem?_set_ne (Ne.symm heq), ← List.getD_eq_getElem?_getD] at hq
      exact List.mem_cons_of_mem _ (h.occupied q f hq)
  · rw [List.getD_eq_getElem _ _ hp] at hfree
    rw [List.countP_set hp, hfree, h.count]
    rfl

/-- The value of the first pair with a key. -/
def firstValue (pairs : List (Bytes × Bytes)) (key : Bytes) : Option Bytes :=
  (pairs.find? fun x => x.1 = key).map Prod.snd

lemma firstValue_map_pair (l : List (ℕ × Entry)) (key : Bytes) :
    firstValue (l.map pair) key = (l.find? fun x => x.2.key = key).map fun x => x.2.value := by
  unfold firstValue
  rw [List.find?_map, Option.map_map]
  rfl

/-- Of the entries with a key the oldest one is found. -/
lemma Table.get {m : StringMap} (h : Table m.data m.first cells)
    (hroom : cells.length < m.data.length) (key : Bytes) :
    m.get key = some (firstValue (cells.map pair).reverse key) := by
  let stops : Option Entry → Bool := fun slot => slot.all fun e =>
    e.hash = calcHash key ∧ e.key = key
  -- entries with other keys are passed over
  have hpass : ∀ x ∈ cells, x.2.key ≠ key → stops (m.data.getD x.1 none) = false := by
    intro x hx hne
    rw [(h.linked.get x hx).2]
    simp [stops, hne]
  have hget : ∀ {p : ℕ}, probe stops m.data m.data.length ((calcHash key).toNat % m.data.length) =
    some p →
      m.get key = some ((m.data.getD p none).map Entry.value) := by
    intro p hp
    unfold StringMap.get
    rw [hp]
    rfl
  rw [← List.map_reverse, firstValue_map_pair]
  rcases hfind : cells.reverse.find? fun x => x.2.key = key with _ | x
  · have hkeys : ∀ x ∈ cells, x.2.key ≠ key := by
      intro x hx
      simpa using List.find?_eq_none.1 hfind x (List.mem_reverse.2 hx)
    rcases h.exists_free hroom (calcHash key).toNat with ⟨k, hk, hfree, hbefore⟩
    have hstop : stops (m.data.getD (((calcHash key).toNat + k) % m.data.length) none) = true := by
      rw [hfree]
      rfl
    have hprobe := probe_eq hk (fun j hj => ?_) hstop
    · rw [hget hprobe, hfree, hfind]
      rfl
    · rcases Option.ne_none_iff_exists'.1 (hbefore j hj) with ⟨e, he⟩
      have hmem := h.occupied _ _ he
      exact hpass _ hmem (hkeys _ hmem)
  · rcases List.find?_eq_some_iff_append.1 hfind with ⟨hkey, older, newer, hsplit, hother⟩
    have hcells : cells = newer.reverse ++ x :: older.reverse := by
      rw [← List.reverse_reverse cells, hsplit]
      simp
    have hx : x ∈ cells := by
      rw [hcells]
      exact List.mem_append_right _ List.mem_cons_self
    have hkey : x.2.key = key := by simpa using hkey
    have hhash : x.2.hash = calcHash key := by rw [h.probed.hash x hx, hkey]
    rcases (hcells ▸ h.probed).onPath with ⟨k, hk, hpos, hpath⟩
    rw [hhash] at hpos hpath
    have hstop : stops (m.data.getD (((calcHash key).toNat + k) % m.data.length) none) = true := by
      rw [← hpos, (h.linked.get x hx).2]
      simp [stops, hhash, hkey]
    have hprobe := probe_eq hk (fun j hj => ?_) hstop
    · rw [hget hprobe, ← hpos, (h.linked.get x hx).2, hfind]
      rfl
    · rcases hpath j hj with ⟨y, hy, heq⟩
      rw [← heq]
      have hy' : y ∈ older := List.mem_reverse.1 hy
      apply hpass y
      · rw [hcells]
        exact List.mem_append_right _ (List.mem_cons_of_mem _ hy)
      · simpa using hother y hy'

/-- All entries are moved to a new table, the newest first. -/
lemma Linked.moveAll (h : Linked d first cells) {new : Slots} {newFirst : Option ℕ}
    {moved : List (ℕ × Entry)} (hnew : Table new newFirst moved)
    (hhash : ∀ x ∈ cells, x.2.hash = calcHash x.2.key)
    (hroom : moved.length + cells.length < new.length) (hfuel : cells.length ≤ fuel) :
    ∃ new' first' cells', moveAll d fuel first new newFirst = some (new', first') ∧
    new'.length = new.length ∧
      Table new' first' cells' ∧ cells'.map pair = (cells.map pair).reverse ++ moved.map pair := by
  induction h generalizing new newFirst moved fuel with
  | nil => exact ⟨new, newFirst, moved, by rw [StringMap.moveAll], rfl, hnew, rfl⟩
  | @cons p e cells hp hget _ ih =>
    rw [List.length_cons] at hroom hfuel
    rcases fuel with _ | fuel
    · omega
    · rcases hnew.insert (by omega) (hhash (p, e) List.mem_cons_self) with
        ⟨q, new₁, hinsert, hlength, htable⟩
      have hrest := ih htable (fun x hx => hhash x (List.mem_cons_of_mem _ hx))
        (by rw [hlength, List.length_cons]; omega) (Nat.le_of_succ_le_succ hfuel)
      rcases hrest with ⟨new', first', cells', hmove, hlength', htable', hpairs⟩
      refine ⟨new', first', cells', ?_, hlength'.trans hlength, htable', ?_⟩
      · rw [StringMap.moveAll, hget, Option.bind_eq_bind, Option.bind_some, hinsert,
          Option.bind_eq_bind, Option.bind_some]
        exact hmove
      · rw [hpairs, List.map_cons, List.map_cons, List.reverse_cons, List.append_assoc]
        rfl

end Table

/-! ## Maps -/

/-- The numbers of entries at which the table grows. -/
def Grows (n : ℕ) : Prop := ∃ g < n, n = 32 * 2 ^ g

instance : DecidablePred Grows := fun n => inferInstanceAs (Decidable (∃ g < n, n = 32 * 2 ^ g))

/-- The entries in the order in which they were put into the current table, after one more call of
`add`. -/
def addOrder (order : List (Bytes × Bytes)) (x : Bytes × Bytes) : List (Bytes × Bytes) :=
  (if Grows order.length then order.reverse else order) ++ [x]

/-- The order of the entries after the calls of `add`: it is reversed whenever the table grows. -/
def settle (adds : List (Bytes × Bytes)) : List (Bytes × Bytes) := adds.foldl addOrder []

/-- The map holds the pairs of `order`, at most half of its slots are taken, and it is no larger
than necessary. -/
structure Holds (m : StringMap) (order : List (Bytes × Bytes)) : Prop where
  table : ∃ cells, Table m.data m.first cells ∧ (cells.map pair).reverse = order
  total : m.total = order.length
  size : ∃ g, m.data.length = 64 * 2 ^ g ∧ m.total ≤ 32 * 2 ^ g ∧ (g = 0 ∨ 16 * 2 ^ g < m.total)

lemma holds_init : Holds init [] := ⟨⟨[], .empty 64, rfl⟩, rfl, 0, rfl, Nat.zero_le _, .inl rfl⟩

/-- The table grows exactly when it is half full. -/
lemma Holds.grows_iff {m : StringMap} (h : Holds m order) :
    m.total * 2 ≥ m.data.length ↔ Grows order.length := by
  rcases h.size with ⟨g, hlength, hle, hlow⟩
  rw [h.total] at hle hlow ⊢
  constructor
  · intro hge
    have hlt : g < 2 ^ g := Nat.lt_two_pow_self
    exact ⟨g, by omega, by omega⟩
  · rintro ⟨g', -, heq⟩
    have hgg : g ≤ g' := by
      rcases hlow with rfl | hlow
      · exact Nat.zero_le _
      · by_contra hlt
        have hpow : 2 ^ (g' + 1) ≤ 2 ^ g := Nat.pow_le_pow_right (by decide) (by omega)
        rw [pow_succ] at hpow
        omega
    have hpow : 2 ^ g ≤ 2 ^ g' := Nat.pow_le_pow_right (by decide) hgg
    omega

lemma length_of_table (hcells : (cells.map pair).reverse = order) :
    cells.length = order.length := by
  rw [← hcells, List.length_reverse, List.length_map]

/-- A pair is added. -/
lemma Holds.add {m : StringMap} (h : Holds m order) (key value : Bytes) :
    ∃ m', m.add key value = some m' ∧ Holds m' (addOrder order (key, value)) := by
  rcases h.table with ⟨cells, htable, hcells⟩
  rcases h.size with ⟨g, hlength, hle, hlow⟩
  have hcount := length_of_table hcells
  have htotal := h.total
  have hpos : 0 < 2 ^ g := Nat.two_pow_pos g
  unfold StringMap.add addOrder
  by_cases hgrows : Grows order.length
  · have hfull := h.grows_iff.2 hgrows
    rw [if_pos hgrows, if_pos hfull]
    have hroom : ([] : List (ℕ × Entry)).length + cells.length <
        (List.replicate (m.data.length * 2) (none : Option Entry)).length := by
      rw [List.length_replicate, List.length_nil]
      omega
    have hfuel : cells.length ≤ m.data.length := by omega
    rcases htable.linked.moveAll (.empty _) htable.probed.hash hroom hfuel with
      ⟨new, first, cells', hmove, hnew, htable', hpairs⟩
    rw [List.length_replicate] at hnew
    rw [List.map_nil, List.append_nil, hcells] at hpairs
    have hcount' : cells'.length = order.length := by rw [← hpairs, List.length_map]
    have hentry : (Entry.of key value).hash = calcHash (Entry.of key value).key := rfl
    rcases htable'.insert (by omega) hentry with ⟨p, d, hinsert, hd, htable''⟩
    simp only [hmove, Option.bind_eq_bind, Option.bind_some, hinsert, Option.pure_def]
    refine ⟨_, rfl, ⟨_, htable'', ?_⟩, ?_, g + 1, ?_, ?_, .inr ?_⟩
    · rw [List.map_cons, List.reverse_cons, hpairs]
      rfl
    · show m.total + 1 = _
      rw [List.length_append, List.length_reverse, htotal, List.length_singleton]
    · show d.length = _
      rw [hd, hnew, hlength, pow_succ]
      omega
    · show m.total + 1 ≤ _
      rw [pow_succ]
      omega
    · show _ < m.total + 1
      rw [pow_succ]
      omega
  · have hroom : ¬ m.total * 2 ≥ m.data.length := fun hfull => hgrows (h.grows_iff.1 hfull)
    rw [if_neg hgrows, if_neg hroom]
    have hentry : (Entry.of key value).hash = calcHash (Entry.of key value).key := rfl
    rcases htable.insert (by omega) hentry with ⟨p, d, hinsert, hd, htable'⟩
    simp only [Option.bind_eq_bind, Option.bind_some, hinsert, Option.pure_def]
    refine ⟨_, rfl, ⟨_, htable', ?_⟩, ?_, g, hd.trans hlength, ?_, hlow.imp_right fun hlow => ?_⟩
    · rw [List.map_cons, List.reverse_cons, hcells]
      rfl
    · show m.total + 1 = _
      rw [List.length_append, htotal, List.length_singleton]
    · show m.total + 1 ≤ _
      omega
    · show _ < m.total + 1
      omega

/-- At most half of the slots are taken. -/
lemma Holds.half {m : StringMap} (h : Holds m order) :
    2 * m.total ≤ m.data.length ∧ 0 < m.data.length := by
  rcases h.size with ⟨g, hlength, hle, -⟩
  have hpos : 0 < 2 ^ g := Nat.two_pow_pos g
  omega

lemma Holds.get {m : StringMap} (h : Holds m order) (key : Bytes) :
    m.get key = some (firstValue order key) := by
  rcases h.table with ⟨cells, htable, hcells⟩
  have hhalf := h.half
  have htotal := h.total
  rw [htable.get (by rw [length_of_table hcells]; omega), hcells]

/-- Several calls of `add`. -/
def addAll (m : StringMap) (adds : List (Bytes × Bytes)) : Option StringMap :=
  adds.foldlM (fun m x => m.add x.1 x.2) m

lemma Holds.addAll {m : StringMap} (h : Holds m order) (adds : List (Bytes × Bytes)) :
    ∃ m', m.addAll adds = some m' ∧ Holds m' (adds.foldl addOrder order) := by
  induction adds generalizing m order with
  | nil => exact ⟨m, rfl, h⟩
  | cons x adds ih =>
    rcases h.add x.1 x.2 with ⟨m₁, hadd, h₁⟩
    rcases ih h₁ with ⟨m', hall, h'⟩
    refine ⟨m', ?_, h'⟩
    unfold StringMap.addAll at hall ⊢
    rw [List.foldlM_cons, hadd]
    exact hall

/-- The value of the first call of `add` with a key is found exactly if reversing the calls at every
growth leaves that value the first one of the key. -/
theorem get_addAll_iff (adds : List (Bytes × Bytes)) (key : Bytes) :
    (∃ m, init.addAll adds = some m ∧ m.get key = some (firstValue adds key)) ↔
      firstValue (settle adds) key = firstValue adds key := by
  rcases holds_init.addAll adds with ⟨m, hall, h⟩
  have hget : m.get key = some (firstValue (settle adds) key) := h.get key
  constructor
  · rintro ⟨m', hall', hfirst⟩
    rw [hall] at hall'
    cases hall'
    rw [hget] at hfirst
    exact Option.some.inj hfirst
  · intro hsettle
    exact ⟨m, hall, by rw [hget, hsettle]⟩

/-- There are two values of one name, and then so many other names that the table grows. -/
def repeatedName : List (Bytes × Bytes) :=
  (bytes "A", bytes "1") :: (bytes "A", bytes "2") :: List.replicate 31 (bytes "B", [])

theorem get_addAll_repeatedName :
    ¬ ∃ m, init.addAll repeatedName = some m ∧
    m.get (bytes "A") = some (firstValue repeatedName (bytes "A")) := by
  rcases holds_init.addAll repeatedName with ⟨m, hall, h⟩
  rintro ⟨m', hall', hfirst⟩
  rw [hall] at hall'
  cases hall'
  rw [h.get] at hfirst
  revert hfirst
  decide

/-! ## Calls in any order -/

inductive Call where
  | add (key value : Bytes)
  | clear
  deriving DecidableEq, Repr

def call (m : StringMap) : Call → Option StringMap
  | .add key value => m.add key value
  | .clear => some init

def run (m : StringMap) (calls : List Call) : Option StringMap := calls.foldlM call m

/-- The pairs that were added after the last `clear`. -/
def added (pairs : List (Bytes × Bytes)) : List Call → List (Bytes × Bytes)
  | [] => pairs
  | .add key value :: calls => added (pairs ++ [(key, value)]) calls
  | .clear :: calls => added [] calls

lemma addOrder_perm (order : List (Bytes × Bytes)) (x : Bytes × Bytes) :
    (addOrder order x).Perm (order ++ [x]) := by
  unfold addOrder
  split_ifs
  · exact order.reverse_perm.append_right _
  · exact .refl _

lemma foldl_addOrder_perm (order adds : List (Bytes × Bytes)) :
    (adds.foldl addOrder order).Perm (order ++ adds) := by
  induction adds generalizing order with
  | nil => rw [List.foldl_nil, List.append_nil]
  | cons x adds ih =>
    have hone := (addOrder_perm order x).append_right adds
    rw [List.append_assoc, List.singleton_append] at hone
    exact (ih _).trans hone

lemma Holds.run {m : StringMap} {order pairs : List (Bytes × Bytes)} (h : Holds m order)
    (hperm : order.Perm pairs) (calls : List Call) :
    ∃ m' order', m.run calls = some m' ∧ Holds m' order' ∧ order'.Perm (added pairs calls) := by
  induction calls generalizing m order pairs with
  | nil => exact ⟨m, order, rfl, h, hperm⟩
  | cons c calls ih =>
    rcases c with ⟨key, value⟩ | _
    · rcases h.add key value with ⟨m₁, hadd, h₁⟩
      rcases ih h₁ ((addOrder_perm _ _).trans (hperm.append_right _)) with
        ⟨m', order', hrun, h', hperm'⟩
      refine ⟨m', order', ?_, h', hperm'⟩
      unfold StringMap.run at hrun ⊢
      rw [List.foldlM_cons, StringMap.call, hadd]
      exact hrun
    · rcases ih holds_init (.refl _) with ⟨m', order', hrun, h', hperm'⟩
      exact ⟨m', order', hrun, h', hperm'⟩

/-- What the loops over the slots rely on, and what they find. -/
structure WellFormed (m : StringMap) (pairs : List (Bytes × Bytes)) : Prop where
  count : m.data.countP Option.isSome = m.total
  half : 2 * m.total ≤ m.data.length
  path : ∀ p e, m.data.getD p none = some e →
    ∃ k < m.data.length, p = ((calcHash e.key).toNat + k) % m.data.length ∧
    ∀ j ≤ k, (m.data.getD (((calcHash e.key).toNat + j) % m.data.length) none).isSome
  iterates : ∃ cells, iterate m.data m.total m.first = some cells ∧ (cells.map Prod.fst).Nodup ∧
    (∀ x ∈ cells, m.data.getD x.1 none = some x.2) ∧ (cells.map pair).Perm pairs
  ends : ∀ key, (m.get key).isSome
  once : ∀ key value, (pairs.filter fun x => x.1 = key) = [(key, value)] →
    m.get key = some (some value)

/-- A key that was added once has one value in every order. -/
lemma firstValue_of_filter {order pairs : List (Bytes × Bytes)} (hperm : order.Perm pairs)
    {key value : Bytes} (hfilter : (pairs.filter fun x => x.1 = key) = [(key, value)]) :
    firstValue order key = some value := by
  have horder : (order.filter fun x => x.1 = key) = [(key, value)] := by
    have hone := hperm.filter fun x => x.1 = key
    rw [hfilter] at hone
    exact List.perm_singleton.1 hone
  unfold firstValue
  rw [← List.head?_filter, horder]
  rfl

lemma Holds.wellFormed {m : StringMap} {order pairs : List (Bytes × Bytes)} (h : Holds m order)
    (hperm : order.Perm pairs) : WellFormed m pairs := by
  rcases h.table with ⟨cells, htable, hcells⟩
  have hcount : cells.length = m.total := (length_of_table hcells).trans h.total.symm
  refine ⟨htable.count.trans hcount, h.half.1, fun p e hpe => ?_,
    ⟨cells, ?_, htable.probed.nodup, ?_, ?_⟩, fun key => ?_, fun key value hfilter => ?_⟩
  · rcases List.append_of_mem (htable.occupied p e hpe) with ⟨newer, older, hsplit⟩
    rcases (hsplit ▸ htable.probed).onPath with ⟨k, hk, hp, hpath⟩
    have hhash : e.hash = calcHash e.key := htable.probed.hash (p, e) (htable.occupied p e hpe)
    dsimp only at hp hpath
    rw [hhash] at hp hpath
    refine ⟨k, hk, hp, fun j hj => ?_⟩
    rcases Nat.lt_or_eq_of_le hj with hlt | rfl
    · rcases hpath j hlt with ⟨y, hy, heq⟩
      have hmem : y ∈ cells := by
        rw [hsplit]
        exact List.mem_append_right _ (List.mem_cons_of_mem _ hy)
      rw [← heq, (htable.linked.get y hmem).2]
      rfl
    · rw [← hp, hpe]
      rfl
  · exact htable.linked.iterate hcount.le
  · exact fun x hx => (htable.linked.get x hx).2
  · rw [← hcells] at hperm
    exact ((cells.map pair).reverse_perm.symm).trans hperm
  · rw [h.get]
    rfl
  · rw [h.get, firstValue_of_filter hperm hfilter]

/-- The slots of a map stay in order and its loops end, whatever is added and cleared. -/
theorem run_wellFormed (calls : List Call) :
    ∃ m, init.run calls = some m ∧ WellFormed m (added [] calls) := by
  rcases holds_init.run (.refl _) calls with ⟨m, order, hrun, h, hperm⟩
  exact ⟨m, hrun, h.wellFormed hperm⟩

end StringMap

end Cppcms
