import Cppcms.Base.Strings
import Cppcms.Library.LittleEndian
import Cppcms.Library.Slice
import Cppcms.Library.SortedMap

/-!
# The session map as a byte string

`save_data` and `load_data` of `session_interface.cpp`.  Every entry is a header of 32 bits, the key
and the value; the header packs the two lengths and the exposed flag into bit fields.  An exception
is an error with its text; there is no result (`none`) if a byte outside of the string is read.
-/

namespace Cppcms

namespace Session

/-- `session_interface::entry`. -/
structure Entry where
  value : Bytes
  exposed : Bool
  deriving DecidableEq, Repr

/-- `session_interface::data_type`. -/
abbrev Data := SortedMap Bytes Entry

/-- The bit fields of `packed`. -/
structure Packed where
  keySize : Fin 1024
  exposed : Bool
  dataSize : Fin 2097152
  deriving DecidableEq

/-- `packed(unsigned, bool, unsigned)`. -/
def packed (ks : ℕ) (exp : Bool) (ds : ℕ) : Except String Packed :=
  if hks : ks < 1024 then
    if hds : ds < 2097152 then .ok ⟨⟨ks, hks⟩, exp, ⟨ds, hds⟩⟩
    else .error "session::save value too long"
  else .error "session::save key too long"

/-- The header in memory: the first field has the lowest bits. -/
def Packed.toBytes (p : Packed) : Bytes :=
  littleEndian 4 (p.keySize + 1024 * (p.exposed.toNat + 2 * p.dataSize))

/-- The header with the given octets. -/
def Packed.ofBytes (header : Bytes) : Packed where
  keySize := Fin.ofNat 1024 (fromLittleEndian header)
  exposed := fromLittleEndian header / 1024 % 2 = 1
  dataSize := Fin.ofNat 2097152 (fromLittleEndian header / 1024 / 2)

/-- The octets that are appended for one entry. -/
def Packed.entry (p : Packed) (key value : Bytes) : Bytes := p.toBytes ++ (key ++ value)

/-- The loop body of `save_data`.  The constructor of the header takes lengths of 32 bits. -/
def saveStep (s : Bytes) (x : Bytes × Entry) : Except String Bytes := do
  let header ← packed (x.1.length % 2 ^ 32) x.2.exposed (x.2.value.length % 2 ^ 32)
  return s ++ header.entry x.1 x.2.value

/-- `session_interface::save_data`. -/
def saveData (data : Data) : Except String Bytes := data.toList.foldlM saveStep []

/-- An exception of `load_data`, with the entries that were loaded before. -/
structure LoadError where
  what : String
  data : Data
  deriving DecidableEq

/-- The loop of `load_data` from the position `begin`, with a bound for the number of its rounds. -/
def loadLoop (s : Bytes) : ℕ → ℕ → Data → Option (Except LoadError (Data × ℕ))
  | 0, _, _ => none
  | n + 1, begin, data =>
    if begin < s.length then
      if begin + 4 ≤ s.length then
        (slice s begin 4).bind fun header =>
          let p := Packed.ofBytes header
          let begin := begin + 4
          if p.keySize.val + p.dataSize.val ≤ s.length - begin then
            (slice s begin p.keySize).bind fun key =>
              let begin := begin + p.keySize
              (slice s begin p.dataSize).bind fun val =>
                let begin := begin + p.dataSize
                loadLoop s n begin (data.insert key ⟨val, p.exposed⟩)
          else some (.error ⟨"sessions::format violation data", data⟩)
      else some (.error ⟨"session::format violation -> pack", data⟩)
    else some (.ok (data, begin))

/-- `session_interface::load_data`: the map and the place where the loop has ended. -/
def loadData (s : Bytes) : Option (Except LoadError (Data × ℕ)) := loadLoop s (s.length + 1) 0 ∅

/-! ## The header -/

lemma Packed.ofBytes_toBytes (p : Packed) : Packed.ofBytes p.toBytes = p := by
  obtain ⟨⟨ks, hks⟩, exp, ⟨ds, hds⟩⟩ := p
  have hexp : exp.toNat < 2 := Bool.toNat_lt exp
  have hlt : ks + 1024 * (exp.toNat + 2 * ds) < 256 ^ 4 := by omega
  have hhigh : (ks + 1024 * (exp.toNat + 2 * ds)) / 1024 = exp.toNat + 2 * ds := by omega
  unfold Packed.ofBytes Packed.toBytes
  simp only [fromLittleEndian_of_lt hlt, hhigh]
  congr 1
  · apply Fin.ext
    rw [Fin.val_ofNat]
    dsimp only
    omega
  · cases exp <;> simp
  · apply Fin.ext
    rw [Fin.val_ofNat]
    dsimp only
    omega

@[simp] lemma Packed.length_toBytes (p : Packed) : p.toBytes.length = 4 := length_littleEndian 4 _

variable {p : Packed} {s : Bytes} {x : Bytes × Entry} {l : List (Bytes × Entry)}

lemma packed_eq_ok {ks ds : ℕ} {exp : Bool} :
    packed ks exp ds = .ok p ↔ p.keySize.val = ks ∧ p.exposed = exp ∧ p.dataSize.val = ds := by
  obtain ⟨⟨ks', hks⟩, exp', ⟨ds', hds⟩⟩ := p
  unfold packed
  constructor
  · intro h
    split_ifs at h
    injection h with h
    injection h with hkey hexp hdata
    exact ⟨congrArg Fin.val hkey.symm, hexp.symm, congrArg Fin.val hdata.symm⟩
  · rintro ⟨rfl, rfl, rfl⟩
    rw [dif_pos hks, dif_pos hds]

/-- The constructor throws if a length does not fit. -/
lemma packed_error_iff {ks ds : ℕ} {exp : Bool} :
    (∃ e, packed ks exp ds = .error e) ↔ 1024 ≤ ks ∨ 2097152 ≤ ds := by
  unfold packed
  split_ifs with hks hds
  · constructor
    · rintro ⟨e, he⟩
      cases he
    · omega
  · exact iff_of_true ⟨_, rfl⟩ (by omega)
  · exact iff_of_true ⟨_, rfl⟩ (by omega)

/-! ## Saving and loading -/

/-- The lengths are those of strings shorter than 4 GiB. -/
def Entry.Short (x : Bytes × Entry) : Prop := x.1.length < 2 ^ 32 ∧ x.2.value.length < 2 ^ 32

/-- An entry that has no place in the header. -/
def Entry.TooLong (x : Bytes × Entry) : Prop := 1024 ≤ x.1.length ∨ 2097152 ≤ x.2.value.length

lemma saveStep_error_iff (hx : Entry.Short x) :
    (∃ e, saveStep s x = .error e) ↔ Entry.TooLong x := by
  unfold saveStep Entry.TooLong
  rw [Nat.mod_eq_of_lt hx.1, Nat.mod_eq_of_lt hx.2, ← @packed_error_iff _ _ x.2.exposed]
  cases packed x.1.length x.2.exposed x.2.value.length with
  | error e => exact iff_of_true ⟨e, rfl⟩ ⟨e, rfl⟩
  | ok p =>
    constructor
    · rintro ⟨e, he⟩
      cases he
    · rintro ⟨e, he⟩
      cases he

lemma saveStep_ok {s s' : Bytes} (hx : Entry.Short x) (h : saveStep s x = .ok s') :
    ∃ p : Packed, p.keySize.val = x.1.length ∧ p.exposed = x.2.exposed ∧
      p.dataSize.val = x.2.value.length ∧ s' = s ++ p.entry x.1 x.2.value := by
  unfold saveStep at h
  rw [Nat.mod_eq_of_lt hx.1, Nat.mod_eq_of_lt hx.2] at h
  cases hpacked : packed x.1.length x.2.exposed x.2.value.length with
  | error e =>
    rw [hpacked] at h
    cases h
  | ok p =>
    rw [hpacked] at h
    cases h
    obtain ⟨hkey, hexp, hdata⟩ := packed_eq_ok.1 hpacked
    exact ⟨p, hkey, hexp, hdata, rfl⟩

/-- The loop throws at the first entry that is too long. -/
lemma saveSteps_error_iff (hl : ∀ x ∈ l, Entry.Short x) (s : Bytes) :
    (∃ e, l.foldlM saveStep s = .error e) ↔ ∃ x ∈ l, Entry.TooLong x := by
  induction l generalizing s with
  | nil =>
    constructor
    · rintro ⟨e, he⟩
      cases he
    · rintro ⟨x, hx, -⟩
      cases hx
  | cons x l ih =>
    have hstep := saveStep_error_iff (s := s) (hl x List.mem_cons_self)
    have hrest := fun s => ih (fun y hy => hl y (List.mem_cons_of_mem _ hy)) s
    rw [List.foldlM_cons, List.exists_mem_cons_iff, ← hstep]
    cases hsave : saveStep s x with
    | error e => exact iff_of_true ⟨e, rfl⟩ (.inl ⟨e, rfl⟩)
    | ok s' =>
      rw [← hrest s']
      constructor
      · exact .inr
      · rintro (⟨e, he⟩ | he)
        · cases he
        · exact he

/-- One round of the loop reads one entry. -/
lemma loadLoop_entry {pre key value rest : Bytes} (hkey : p.keySize.val = key.length)
    (hdata : p.dataSize.val = value.length) (n : ℕ) (data : Data) :
    loadLoop (pre ++ (p.entry key value ++ rest)) (n + 1) pre.length data =
      loadLoop (pre ++ (p.entry key value ++ rest)) n (pre ++ p.entry key value).length
        (data.insert key ⟨value, p.exposed⟩) := by
  generalize hs : pre ++ (p.entry key value ++ rest) = s
  have hlen : s.length = pre.length + (4 + (key.length + value.length)) + rest.length := by
    rw [← hs, Packed.entry]
    simp only [List.length_append, Packed.length_toBytes]
    omega
  -- the three parts of the entry
  have hheader : slice s pre.length 4 = some p.toBytes := by
    rw [← hs, Packed.entry, List.append_assoc]
    exact slice_append rfl p.length_toBytes
  have hk : slice s (pre.length + 4) p.keySize = some key := by
    rw [← hs, Packed.entry, List.append_assoc, List.append_assoc, ← List.append_assoc pre]
    exact slice_append (by rw [List.length_append, Packed.length_toBytes]) hkey.symm
  have hv : slice s (pre.length + 4 + p.keySize) p.dataSize = some value := by
    rw [← hs, Packed.entry, List.append_assoc, List.append_assoc, ← List.append_assoc pre,
      ← List.append_assoc (pre ++ p.toBytes)]
    refine slice_append ?_ hdata.symm
    rw [List.length_append, List.length_append, Packed.length_toBytes, hkey]
  have hnext : (pre ++ p.entry key value).length = pre.length + 4 + p.keySize + p.dataSize := by
    rw [Packed.entry, hkey, hdata]
    simp only [List.length_append, Packed.length_toBytes]
    omega
  rw [loadLoop, if_pos (by omega), if_pos (by omega), hheader, Option.bind_some]
  simp only [Packed.ofBytes_toBytes]
  rw [if_pos (by omega), hk, Option.bind_some, hv, Option.bind_some, hnext]

/-- The loop reads what was appended, whatever stands in front of it. -/
lemma loadLoop_saveSteps (hl : ∀ x ∈ l, Entry.Short x) {s s' : Bytes}
    (h : l.foldlM saveStep s = .ok s') :
    ∃ t, s' = s ++ t ∧ ∀ (pre : Bytes) (data : Data) (n : ℕ), t.length < n →
      loadLoop (pre ++ t) n pre.length data =
        some (.ok (l.foldl (fun data x => data.insert x.1 x.2) data, (pre ++ t).length)) := by
  induction l generalizing s with
  | nil =>
    cases h
    refine ⟨[], (List.append_nil _).symm, ?_⟩
    intro pre data n hn
    obtain ⟨n, rfl⟩ : ∃ k, n = k + 1 := ⟨n - 1, by omega⟩
    rw [List.append_nil, loadLoop, if_neg (lt_irrefl _), List.foldl_nil]
  | cons x l ih =>
    rw [List.foldlM_cons] at h
    cases hstep : saveStep s x with
    | error e =>
      rw [hstep] at h
      cases h
    | ok s₁ =>
      rw [hstep] at h
      obtain ⟨p, hkey, hexp, hdata, rfl⟩ := saveStep_ok (hl x List.mem_cons_self) hstep
      obtain ⟨t, rfl, hload⟩ := ih (fun y hy => hl y (List.mem_cons_of_mem _ hy)) h
      refine ⟨p.entry x.1 x.2.value ++ t, List.append_assoc .., ?_⟩
      intro pre data n hn
      obtain ⟨n, rfl⟩ : ∃ k, n = k + 1 := ⟨n - 1, by omega⟩
      have hlen : t.length < n := by
        rw [List.length_append, Packed.entry, List.length_append, Packed.length_toBytes] at hn
        omega
      rw [loadLoop_entry hkey hdata, ← List.append_assoc, hload _ _ n hlen, List.foldl_cons, hexp]

/-- The loop ends at the end of the string or with an exception, and reads nothing outside. -/
lemma loadLoop_ends (s : Bytes) {n begin : ℕ} (hbegin : begin ≤ s.length)
    (hn : s.length < begin + n) (data : Data) : (∃ e, loadLoop s n begin data = some (.error e)) ∨
      ∃ data', loadLoop s n begin data = some (.ok (data', s.length)) := by
  induction n generalizing begin data with
  | zero => omega
  | succ n ih =>
    unfold loadLoop
    split_ifs with hlt hfour
    · rw [slice_of_le hfour, Option.bind_some]
      generalize Packed.ofBytes _ = p
      dsimp only
      split_ifs with hsize
      · rw [slice_of_le (by omega), Option.bind_some, slice_of_le (by omega), Option.bind_some]
        exact ih (by omega) (by omega) _
      · exact .inl ⟨_, rfl⟩
    · exact .inl ⟨_, rfl⟩
    · refine .inr ⟨data, ?_⟩
      rw [le_antisymm hbegin (not_lt.1 hlt)]

lemma loadData_of_saveData {m : Data} (hm : ∀ x ∈ m.toList, Entry.Short x)
    (hs : saveData m = .ok s) : loadData s = some (.ok (m, s.length)) := by
  obtain ⟨t, ht, hload⟩ := loadLoop_saveSteps hm hs
  rw [List.nil_append] at ht
  subst ht
  have hfold := hload [] ∅ (s.length + 1) (Nat.lt_succ_self _)
  rwa [m.foldl_insert_toList] at hfold

/-- `save_data` throws if and only if an entry is too long, `load_data` gives back what was saved,
and on every string it throws or ends at the end of the string. -/
theorem loadData_saveData (m : Data) (hm : ∀ x ∈ m.toList, Entry.Short x) :
    ((∃ e, saveData m = .error e) ↔ ∃ x ∈ m.toList, Entry.TooLong x) ∧
      (∀ s, saveData m = .ok s → loadData s = some (.ok (m, s.length))) ∧
      ∀ s : Bytes, (∃ e, loadData s = some (.error e)) ∨
        ∃ data, loadData s = some (.ok (data, s.length)) := by
  refine ⟨saveSteps_error_iff hm [], ?_, ?_⟩
  · intro s hs
    exact loadData_of_saveData hm hs
  · intro s
    exact loadLoop_ends s (Nat.zero_le _) (by omega) ∅

/-- A map of two entries is found again, and a value of 2 MiB is refused. -/
theorem loadData_saveData_one :
    (∃ s, saveData (((∅ : Data).insert (bytes "user") ⟨bytes "bob", true⟩).insert (bytes "_t")
      ⟨[], false⟩) = .ok s ∧
      loadData s = some
        (.ok
        (((∅ : Data).insert (bytes "user") ⟨bytes "bob", true⟩).insert (bytes "_t") ⟨[], false⟩,
          s.length))) ∧
    ∃ e, saveData ((∅ : Data).insert (bytes "k") ⟨List.replicate 2097152 0, false⟩) = .error e := by
  refine ⟨⟨_, rfl, (loadData_saveData _ ?_).2.1 _ rfl⟩,
    (loadData_saveData _ ?_).1.2 ⟨_, List.mem_singleton_self _, ?_⟩⟩
  · intro x hx
    rcases List.mem_cons.1 hx with rfl | hx
    · exact ⟨by decide, by decide⟩
    · obtain rfl := List.mem_singleton.1 hx
      exact ⟨by decide, by decide⟩
  · intro x hx
    obtain rfl := List.mem_singleton.1 hx
    exact ⟨by decide, by rw [List.length_replicate]; decide⟩
  · unfold Entry.TooLong
    rw [List.length_replicate]
    decide

end Session

end Cppcms
