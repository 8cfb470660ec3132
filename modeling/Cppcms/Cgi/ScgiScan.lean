import Cppcms.Cgi.Scgi

/-!
# The scan of the SCGI header

The loop of `scgi::on_headers_chunk_read` with pointers as positions of `buffer_`.  Its last octet
is a comma, and the loop looks for zeros with `strlen` as long as it has not come to that comma, so
it relies on a zero in front of it.
-/

namespace Cppcms

namespace Cgi

/-! ## The loop -/

/-- `strlen` at a position; it leaves the buffer if there is no zero from there on. -/
def strlenIn (buffer : Bytes) (p : ℕ) : Option ℕ :=
  if 0 ∈ buffer.drop p then some ((buffer.drop p).takeWhile (· ≠ 0)).length else none

/-- A range of the buffer: where a string starts and how long it is. -/
abbrev Range := ℕ × ℕ

/-- The keys and values that are added, or nothing if `strlen` leaves the buffer. -/
def scanFrom (buffer : Bytes) (p : ℕ) : Option (List (Range × Range)) :=
  if p < buffer.length - 1 then
    match strlenIn buffer p with
    | none => none
    | some n =>
      if p + n + 1 ≥ buffer.length - 1 then some []
      else
        match strlenIn buffer (p + n + 1) with
        | none => none
        | some m => (scanFrom buffer (p + n + 1 + m + 1)).map (((p, n), (p + n + 1, m)) :: ·)
  else some []
termination_by buffer.length - p
decreasing_by omega

def Range.text (r : Range) (buffer : Bytes) : Bytes := (buffer.drop r.1).take r.2

/-- `env_.add` for the pairs. -/
def addRanges (buffer : Bytes) : List (Range × Range) → StringMap → Outcome StringMap
  | [], env => .returns env
  | pair :: pairs, env => do
    let env ← envAdd env (pair.1.text buffer) (pair.2.text buffer)
    addRanges buffer pairs env

/-- `sep_` and `buffer_` where the scan begins, if it comes to that. -/
def scanned (stream : Bytes) : Option (ℕ × Bytes) :=
  match asyncRead 16 stream with
  | .error _ => none
  | .ok (first, stream) =>
    match onFirstRead first with
    | .error _ => none
    | .ok (sep, size) =>
      match asyncRead (size - 16) stream with
      | .error _ => none
      | .ok (more, _) =>
        if (first.set sep 0 ++ more).getLast? ≠ some 0x2C then none
        else some (sep, first.set sep 0 ++ more)

/-- The header block: what is between the colon and the comma. -/
def block (sep : ℕ) (buffer : Bytes) : Bytes :=
  (buffer.drop (sep + 1)).take (buffer.length - 1 - (sep + 1))

/-- The scan stays in the buffer, and what it adds are parts of the block. -/
def ScansInside (stream : Bytes) : Prop :=
  ∀ sep buffer, scanned stream = some (sep, buffer) →
    ∃ pairs, scanFrom buffer (sep + 1) = some pairs ∧
      ∀ pair ∈ pairs, pair.1.text buffer <:+: block sep buffer ∧
      pair.2.text buffer <:+: block sep buffer

/-- The block is empty or ends with a zero. -/
def BlockTerminated (stream : Bytes) : Prop :=
  ∀ sep buffer, scanned stream = some (sep, buffer) →
    block sep buffer = [] ∨ (block sep buffer).getLast? = some 0

/-! ## Lemmas -/

section Lemmas

variable {buffer : Bytes} {p n : ℕ}

/-- `strlen` ends at a zero. -/
lemma getElem?_of_strlenIn (h : strlenIn buffer p = some n) : buffer[p + n]? = some 0 := by
  unfold strlenIn at h
  split_ifs at h with hmem
  have hsplit := List.takeWhile_append_dropWhile (p := fun c : UInt8 => decide (c ≠ 0))
    (l := buffer.drop p)
  rcases hrest : (buffer.drop p).dropWhile (· ≠ 0) with _ | ⟨c, rest⟩
  · rw [List.dropWhile_eq_nil_iff] at hrest
    exact absurd (hrest 0 hmem) (by decide)
  · have hzero : c = 0 := by
      have hhead := List.head?_dropWhile_not (fun c : UInt8 => decide (c ≠ 0)) (buffer.drop p)
      rw [hrest] at hhead
      simpa using hhead
    have hget : (buffer.drop p)[n]? = some 0 := by
      rw [hrest, hzero] at hsplit
      rw [← hsplit, List.getElem?_append_right (Option.some.inj h).le,
        Option.some.inj h, Nat.sub_self]
      rfl
    rwa [List.getElem?_drop] at hget

lemma lt_length_of_strlenIn (h : strlenIn buffer p = some n) : p + n < buffer.length :=
  (List.getElem?_eq_some_iff.mp (getElem?_of_strlenIn h)).1

/-- The zero is in front of the comma. -/
lemma lt_pred_of_strlenIn (hlast : buffer.getLast? = some 0x2C) (h : strlenIn buffer p = some n) :
    p + n < buffer.length - 1 := by
  have hlt := lt_length_of_strlenIn h
  by_contra hnot
  have hend : p + n = buffer.length - 1 := by omega
  have hzero := getElem?_of_strlenIn h
  rw [List.getLast?_eq_getElem?, ← hend, hzero] at hlast
  exact absurd hlast (by decide)

/-- A zero at a place is found from any place before it. -/
lemma strlenIn_isSome {q : ℕ} (hle : p ≤ q) (hq : buffer[q]? = some 0) :
    (strlenIn buffer p).isSome := by
  have hmem : 0 ∈ buffer.drop p := by
    rw [List.mem_iff_getElem?]
    refine ⟨q - p, ?_⟩
    rw [List.getElem?_drop, Nat.add_sub_of_le hle]
    exact hq
  unfold strlenIn
  rw [if_pos hmem]
  rfl

/-- A scan that does not end at once stays in the buffer exactly if there is a zero in front of the
comma. -/
lemma scanFrom_isSome_iff (hlast : buffer.getLast? = some 0x2C) (d : ℕ) (hd : buffer.length - p = d)
    (hp : p < buffer.length - 1) :
    (scanFrom buffer p).isSome ↔ buffer[buffer.length - 2]? = some 0 := by
  induction d using Nat.strong_induction_on generalizing p with
  | _ d ih =>
    rw [scanFrom, if_pos hp]
    rcases hkey : strlenIn buffer p with _ | n
    · refine iff_of_false (by simp) fun hzero => ?_
      have hsome := strlenIn_isSome (by omega : p ≤ buffer.length - 2) hzero
      rw [hkey] at hsome
      exact absurd hsome (by simp)
    · have hn := lt_pred_of_strlenIn hlast hkey
      have hkeyzero := getElem?_of_strlenIn hkey
      by_cases hend : p + n + 1 ≥ buffer.length - 1
      · have hat : p + n = buffer.length - 2 := by omega
        simp only [if_pos hend]
        exact iff_of_true rfl (hat ▸ hkeyzero)
      · simp only [if_neg hend]
        rcases hvalue : strlenIn buffer (p + n + 1) with _ | m
        · refine iff_of_false (by simp) fun hzero => ?_
          have hsome := strlenIn_isSome (by omega : p + n + 1 ≤ buffer.length - 2) hzero
          rw [hvalue] at hsome
          exact absurd hsome (by simp)
        · have hm := lt_pred_of_strlenIn hlast hvalue
          have hvaluezero := getElem?_of_strlenIn hvalue
          rw [Option.isSome_map]
          by_cases hstop : p + n + 1 + m + 1 < buffer.length - 1
          · exact ih _ (by omega) rfl hstop
          · have hat : p + n + 1 + m = buffer.length - 2 := by omega
            rw [scanFrom, if_neg hstop]
            exact iff_of_true rfl (hat ▸ hvaluezero)

/-- What is added lies between the start of the scan and the comma. -/
lemma scanFrom_inside (hlast : buffer.getLast? = some 0x2C) (d : ℕ) (hd : buffer.length - p = d)
    {pairs : List (Range × Range)} (h : scanFrom buffer p = some pairs) :
    ∀ pair ∈ pairs, (p ≤ pair.1.1 ∧ pair.1.1 + pair.1.2 ≤ buffer.length - 1) ∧
      p ≤ pair.2.1 ∧ pair.2.1 + pair.2.2 ≤ buffer.length - 1 := by
  induction d using Nat.strong_induction_on generalizing p pairs with
  | _ d ih =>
    rw [scanFrom] at h
    by_cases hp : p < buffer.length - 1
    · rw [if_pos hp] at h
      rcases hkey : strlenIn buffer p with _ | n
      · rw [hkey] at h
        exact absurd h (by simp)
      · rw [hkey] at h
        have hn := lt_pred_of_strlenIn hlast hkey
        by_cases hend : p + n + 1 ≥ buffer.length - 1
        · simp only [if_pos hend] at h
          obtain rfl := Option.some.inj h
          simp
        · simp only [if_neg hend] at h
          rcases hvalue : strlenIn buffer (p + n + 1) with _ | m
          · rw [hvalue] at h
            exact absurd h (by simp)
          · rw [hvalue] at h
            have hm := lt_pred_of_strlenIn hlast hvalue
            obtain ⟨rest, hrest, rfl⟩ := Option.map_eq_some_iff.mp h
            intro pair hpair
            rcases List.mem_cons.mp hpair with rfl | hmem
            · have hvalue : p ≤ p + n + 1 := by omega
              exact ⟨⟨le_rfl, hn.le⟩, hvalue, hm.le⟩
            · have hinside := ih _ (by omega) rfl hrest pair hmem
              omega
    · rw [if_neg hp] at h
      obtain rfl := Option.some.inj h
      simp

variable {sep : ℕ}

/-- A range behind the colon and in front of the comma is a part of the block. -/
lemma text_infix_block {r : Range} (hstart : sep + 1 ≤ r.1) (hend : r.1 + r.2 ≤ buffer.length - 1) :
    r.text buffer <:+: block sep buffer := by
  have hdrop : (block sep buffer).drop (r.1 - (sep + 1)) =
      (buffer.drop r.1).take (buffer.length - 1 - (sep + 1) - (r.1 - (sep + 1))) := by
    unfold block
    rw [List.drop_take, List.drop_drop, Nat.add_sub_of_le hstart]
  have htext : ((block sep buffer).drop (r.1 - (sep + 1))).take r.2 = r.text buffer := by
    rw [hdrop, List.take_take, min_eq_left (by omega)]
    rfl
  rw [← htext]
  exact (List.take_prefix _ _).isInfix.trans (List.drop_suffix _ _).isInfix

/-- The last octet of the block is the one in front of the comma. -/
lemma getLast?_block (h : sep + 1 < buffer.length - 1) :
    (block sep buffer).getLast? = buffer[buffer.length - 2]? := by
  have hlen : (block sep buffer).length = buffer.length - 1 - (sep + 1) := by
    unfold block
    rw [List.length_take, List.length_drop]
    omega
  have hplace : sep + 1 + (buffer.length - 1 - (sep + 1) - 1) = buffer.length - 2 := by omega
  rw [List.getLast?_eq_getElem?, hlen]
  unfold block
  rw [List.getElem?_take_of_lt (by omega), List.getElem?_drop, hplace]

/-! ### The reader -/

lemma readCString_drop : readCString (buffer.drop p) =
    match strlenIn buffer p with
    | none => .undefined
    | some n => .returns (Range.text (p, n) buffer, buffer.drop (p + n + 1)) := by
  unfold readCString strlenIn
  by_cases hmem : 0 ∈ buffer.drop p
  · rw [if_pos hmem, if_pos hmem, dropWhile_eq_drop, ← List.drop_one,
      List.drop_drop, List.drop_drop]
    have htake : (buffer.drop p).takeWhile (· ≠ 0) =
        Range.text (p, ((buffer.drop p).takeWhile (· ≠ 0)).length) buffer := takeWhile_eq_take _ _
    exact congrArg Outcome.returns (Prod.ext htake rfl)
  · rw [if_neg hmem, if_neg hmem]

/-- The reader adds what the scan finds. -/
theorem readPairs_drop (d : ℕ) (hd : buffer.length - p = d) {fuel : ℕ} (hfuel : d ≤ fuel)
    (env : StringMap) :
    readPairs fuel (buffer.drop p) env =
      match scanFrom buffer p with
      | none => .undefined
      | some pairs => addRanges buffer pairs env := by
  induction d using Nat.strong_induction_on generalizing p fuel env with
  | _ d ih =>
    rw [scanFrom]
    by_cases hp : p < buffer.length - 1
    · obtain ⟨fuel, rfl⟩ : ∃ k, fuel = k + 1 := ⟨fuel - 1, by omega⟩
      have hlong : ¬ (buffer.drop p).length ≤ 1 := by
        rw [List.length_drop]
        omega
      rw [if_pos hp, readPairs, if_neg hlong, readCString_drop]
      rcases hkey : strlenIn buffer p with _ | n
      · rfl
      · have hn := lt_length_of_strlenIn hkey
        rw [Outcome.returns_bind]
        by_cases hend : p + n + 1 ≥ buffer.length - 1
        · have hshort : (buffer.drop (p + n + 1)).length ≤ 1 := by
            rw [List.length_drop]
            omega
          simp only [if_pos hend, if_pos hshort]
          rfl
        · have hmore : ¬ (buffer.drop (p + n + 1)).length ≤ 1 := by
            rw [List.length_drop]
            omega
          simp only [if_neg hend, if_neg hmore]
          rw [readCString_drop]
          rcases hvalue : strlenIn buffer (p + n + 1) with _ | m
          · rfl
          · have hm := lt_length_of_strlenIn hvalue
            rw [Outcome.returns_bind]
            have hfuel' : buffer.length - (p + n + 1 + m + 1) ≤ fuel := by omega
            have hrest := fun env =>
              ih (buffer.length - (p + n + 1 + m + 1)) (by omega) rfl hfuel' env
            show (do
              let env ← envAdd env (Range.text (p, n) buffer) (Range.text (p + n + 1, m) buffer)
              readPairs fuel (buffer.drop (p + n + 1 + m + 1)) env) = _
            simp only [hrest]
            rcases hadd : env.add (Range.text (p, n) buffer) (Range.text (p + n + 1, m) buffer) with
              _ | env'
            · have hundefined : envAdd env (Range.text (p, n) buffer)
                (Range.text (p + n + 1, m) buffer) =
                  .undefined := by
                unfold envAdd
                rw [hadd]
              rw [hundefined]
              rcases scanFrom buffer (p + n + 1 + m + 1) with _ | pairs
              · rfl
              · show _ = addRanges buffer (((p, n), (p + n + 1, m)) :: pairs) env
                rw [addRanges, hundefined]
            · have hreturns : envAdd env (Range.text (p, n) buffer)
                (Range.text (p + n + 1, m) buffer) =
                  .returns env' := by
                unfold envAdd
                rw [hadd]
              rw [hreturns, Outcome.returns_bind]
              rcases scanFrom buffer (p + n + 1 + m + 1) with _ | pairs
              · rfl
              · show _ = addRanges buffer (((p, n), (p + n + 1, m)) :: pairs) env
                rw [addRanges, hreturns]
                rfl
    · rw [if_neg hp]
      rcases fuel with _ | fuel
      · rfl
      · have hshort : (buffer.drop p).length ≤ 1 := by
          rw [List.length_drop]
          omega
        rw [readPairs, if_pos hshort]
        rfl

end Lemmas

variable {buffer : Bytes} {stream : Bytes}

lemma getLast?_of_scanned {sep : ℕ} (h : scanned stream = some (sep, buffer)) :
    buffer.getLast? = some 0x2C := by
  unfold scanned at h
  split at h
  · exact absurd h (by simp)
  · split at h
    · exact absurd h (by simp)
    · split at h
      · exact absurd h (by simp)
      · split_ifs at h with hcomma
        obtain ⟨rfl, rfl⟩ := Prod.mk.inj (Option.some.inj h)
        exact not_not.mp hcomma

/-- The reader of the whole header scans the buffer and adds what it finds. -/
theorem readHeaders_of_scanned {sep : ℕ} (h : scanned stream = some (sep, buffer)) :
    ∃ rest, readHeaders stream =
      match scanFrom buffer (sep + 1) with
      | none => .undefined
      | some pairs => do
        let env ← addRanges buffer pairs .init
        return .ok (env, rest) := by
  have hlast := getLast?_of_scanned h
  unfold scanned at h
  unfold readHeaders
  rcases hfirst : asyncRead 16 stream with e | ⟨first, later⟩
  · rw [hfirst] at h
    exact absurd h (by simp)
  rw [hfirst] at h
  rcases hsize : onFirstRead first with e | ⟨sep', size⟩
  · simp only [hsize] at h
    exact absurd h (by simp)
  simp only [hsize] at h ⊢
  rcases hmore : asyncRead (size - 16) later with e | ⟨more, rest⟩
  · simp only [hmore] at h
    exact absurd h (by simp)
  simp only [hmore] at h ⊢
  split_ifs at h
  obtain ⟨rfl, rfl⟩ := Prod.mk.inj (Option.some.inj h)
  have hcomma : ¬ (first.set sep' 0 ++ more).getLast? ≠ some 0x2C := not_not.mpr hlast
  refine ⟨rest, ?_⟩
  unfold onHeadersChunkRead
  rw [if_neg hcomma, readPairs_drop _ rfl (Nat.sub_le _ _)]
  rcases scanFrom (first.set sep' 0 ++ more) (sep' + 1) with _ | pairs
  · rfl
  · show ((addRanges _ pairs .init >>= _) >>= _) = (addRanges _ pairs .init >>= _)
    rcases addRanges (first.set sep' 0 ++ more) pairs .init with env | what | _
    · rfl
    · rfl
    · rfl

/-- The scan of the header stays inside the buffer and adds parts of the block exactly if the block
is empty or ends with a zero. -/
theorem scansInside_iff (stream : Bytes) : ScansInside stream ↔ BlockTerminated stream := by
  refine forall₃_congr fun sep buffer hscanned => ?_
  have hlast := getLast?_of_scanned hscanned
  by_cases hp : sep + 1 < buffer.length - 1
  · have hne : block sep buffer ≠ [] := by
      intro hnil
      have hlen := congrArg List.length hnil
      unfold block at hlen
      rw [List.length_take, List.length_drop, List.length_nil] at hlen
      omega
    rw [getLast?_block hp, ← scanFrom_isSome_iff hlast _ rfl hp]
    constructor
    · rintro ⟨pairs, hpairs, -⟩
      rw [hpairs]
      exact .inr rfl
    · rintro (hnil | hsome)
      · exact absurd hnil hne
      · obtain ⟨pairs, hpairs⟩ := Option.isSome_iff_exists.mp hsome
        refine ⟨pairs, hpairs, fun pair hmem => ?_⟩
        have hinside := scanFrom_inside hlast _ rfl hpairs pair hmem
        exact ⟨text_infix_block hinside.1.1 hinside.1.2, text_infix_block hinside.2.1 hinside.2.2⟩
  · have hnil : block sep buffer = [] := by
      unfold block
      rw [Nat.sub_eq_zero_of_le (not_lt.mp hp), List.take_zero]
    refine iff_of_true ⟨[], ?_, by simp⟩ (.inl hnil)
    rw [scanFrom, if_neg hp]

/-- A block of twenty letters has no zero. -/
theorem scan_leaves_buffer : ¬ ∀ stream, ScansInside stream := by
  intro h
  have hscanned : scanned (bytes "20:AAAAAAAAAAAAAAAAAAAA,") =
      some (2, (bytes "20:AAAAAAAAAAAAAAAAAAAA,").set 2 0) := by decide
  obtain ⟨pairs, hpairs, -⟩ := h _ _ _ hscanned
  have hsome : (scanFrom ((bytes "20:AAAAAAAAAAAAAAAAAAAA,").set 2 0) 3).isSome := by
    rw [hpairs]; rfl
  rw [scanFrom_isSome_iff (by decide) _ rfl (by decide)] at hsome
  exact absurd hsome (by decide)

end Cgi

end Cppcms
