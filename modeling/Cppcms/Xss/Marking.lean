import Cppcms.Xss.Validate

/-!
# Marking failed entries

The second loop of `validate_and_filter_if_invalid` marks every entry that fails the rules as
invalid, together with its pair, which may stand before or behind it.  On the forest this is a
recursive function (`Forest.kill`): a pair is marked if one of its ends fails, a leaf if it fails
itself.
-/

namespace Cppcms

namespace Xss

namespace Forest

/-- The forest after the check against the rules: failed entries and their partners are invalid. -/
def kill (r : Rules) : Forest → Forest
  | nil => nil
  | leaf e t f =>
      leaf e (if validateEntryByRules (e.setType t) r then t else .invalidData) (f.kill r)
  | node o b c f =>
    if validateEntryByRules o r && validateEntryByRules c r then node o (b.kill r) c (f.kill r)
    else node (o.setType .invalidData) (b.kill r) (c.setType .invalidData) (f.kill r)

/-- Every entry passes the rules. -/
def allowed (r : Rules) : Forest → Bool
  | nil => true
  | leaf e t f => validateEntryByRules (e.setType t) r && f.allowed r
  | node o b c f => validateEntryByRules o r && b.allowed r &&
      validateEntryByRules c r && f.allowed r

lemma allowed_iff (r : Rules) (f : Forest) :
    f.allowed r = true ↔ f.All fun e => validateEntryByRules e r = true := by
  induction f with
  | nil => simp [allowed, All]
  | leaf e t f ih => simp [allowed, All, ih]
  | node o b c f ihb ih =>
    simp only [allowed, All, Bool.and_eq_true, ihb, ih]
    tauto

@[simp] lemma size_kill (r : Rules) (f : Forest) : (f.kill r).size = f.size := by
  induction f with
  | nil => rfl
  | leaf e t f ih => simp [kill, size, ih]
  | node o b c f ihb ih =>
    rw [kill]
    split_ifs <;> simp [size, ihb, ih]

/-- No entry has a pair yet. -/
def Unpaired : Forest → Prop
  | nil => True
  | leaf e _ f => e.tag.pair = none ∧ f.Unpaired
  | node _ b _ f => b.Unpaired ∧ f.Unpaired

end Forest

variable {e : Entry} {r : Rules} {v : Bool} {i j : ℕ} {l m rest : List Entry} {o c : Entry}
  {s : Bytes}

/-- An entry without a pair: a failure marks it. -/
lemma killStep_leaf {l rest : List Entry} {i : ℕ} (hi : i = l.length) (hp : e.tag.pair = none) :
    killStep r (l ++ e :: rest, v) i =
      (l ++ e.setType (if validateEntryByRules e r then e.type else .invalidData) :: rest,
        v && validateEntryByRules e r) := by
  rw [killStep, getElem?_append_cons hi]
  simp only [hp]
  cases h : validateEntryByRules e r
  · simp [modify_append_cons hi]
  · simp [Entry.setType]

/-- The left end of a pair: a failure marks both ends. -/
lemma killStep_left (hi : i = l.length) (hj : j = l.length + 1 + m.length) :
    killStep r (l ++ o.setPair j :: (m ++ c :: rest), v) i =
      if validateEntryByRules o r then (l ++ o.setPair j :: (m ++ c :: rest), v)
      else (l ++ (o.setType .invalidData).setPair j :: (m ++ c.setType .invalidData :: rest),
        false) := by
  have h1 : ∀ o c : Entry, l ++ o :: (m ++ c :: rest) = (l ++ o :: m) ++ c :: rest := by simp
  have h2 : ∀ o : Entry, j = (l ++ o :: m).length := by
    intro o
    simp
    omega
  have hget : (l ++ o.setPair j :: (m ++ c :: rest))[i]? = some (o.setPair j) :=
    getElem?_append_cons hi
  cases h : validateEntryByRules o r
  · have hp : validateEntryByRules (o.setPair j) r = false := h
    simp only [killStep, hget, hp, Entry.setPair_pair, Bool.false_eq_true, if_false]
    rw [h1, modify_append_cons (h2 _), ← h1, modify_append_cons hi]
    rfl
  · have hp : validateEntryByRules (o.setPair j) r = true := h
    simp only [killStep, hget, hp, if_true]

/-- The right end of a pair: a failure marks both ends. -/
lemma killStep_right (hi : i = l.length) (hj : j = l.length + 1 + m.length) :
    killStep r (l ++ o :: (m ++ c.setPair i :: rest), v) j =
      if validateEntryByRules c r then (l ++ o :: (m ++ c.setPair i :: rest), v)
      else (l ++ o.setType .invalidData :: (m ++ (c.setType .invalidData).setPair i :: rest),
        false) := by
  have h1 : ∀ o c : Entry, l ++ o :: (m ++ c :: rest) = (l ++ o :: m) ++ c :: rest := by simp
  have h2 : ∀ o : Entry, j = (l ++ o :: m).length := by
    intro o
    simp
    omega
  have hget : (l ++ o :: (m ++ c.setPair i :: rest))[j]? = some (c.setPair i) := by
    rw [h1, getElem?_append_cons (h2 o)]
  cases h : validateEntryByRules c r
  · have hp : validateEntryByRules (c.setPair i) r = false := h
    simp only [killStep, hget, hp, Entry.setPair_pair, Bool.false_eq_true, if_false]
    rw [modify_append_cons hi, h1, modify_append_cons (h2 _), ← h1]
    rfl
  · have hp : validateEntryByRules (c.setPair i) r = true := h
    simp only [killStep, hget, hp, if_true]

/-- The two ends of a pair, with the entries between them checked in between. -/
lemma killStep_pair {l m m' rest : List Entry} {v w : Bool}
    {is : List ℕ} (hi : i = l.length) (hj : j = l.length + 1 + m.length)
    (hm : m'.length = m.length)
    (hbody : ∀ (o c : Entry) (v : Bool), is.foldl (killStep r) (l ++ o :: (m ++ c :: rest), v) =
      (l ++ o :: (m' ++ c :: rest), v && w)) :
    killStep r (is.foldl (killStep r)
        (killStep r (l ++ o.setPair j :: (m ++ c.setPair i :: rest), v) i)) j =
      if validateEntryByRules o r && validateEntryByRules c r then
        (l ++ o.setPair j :: (m' ++ c.setPair i :: rest), v && w)
      else (l ++ (o.setType .invalidData).setPair j ::
        (m' ++ (c.setType .invalidData).setPair i :: rest), false) := by
  have hj' : j = l.length + 1 + m'.length := by rw [hm, hj]
  rw [killStep_left hi hj]
  cases ho : validateEntryByRules o r
  · -- the right end was marked together with the left one, so it fails when its turn comes
    have hc : validateEntryByRules (c.setType .invalidData) r = false := rfl
    have hset : (c.setPair i).setType .invalidData = (c.setType .invalidData).setPair i := rfl
    simp only [Bool.false_eq_true, if_false, hset, hbody, Bool.false_and]
    rw [killStep_right hi hj', hc]
    rfl
  · simp only [if_true, hbody, Bool.true_and]
    rw [killStep_right hi hj']
    cases hc : validateEntryByRules c r <;> rfl

/-- The loop that checks the rules, on a stretch of the array. -/
lemma foldl_killStep (r : Rules) (f : Forest) (hf : f.Unpaired) (l rest : List Entry) (v : Bool) :
    (List.range' l.length f.size).foldl (killStep r) (l ++ (f.flatten l.length ++ rest), v) =
      (l ++ ((f.kill r).flatten l.length ++ rest), v && f.allowed r) := by
  induction f generalizing l rest v with
  | nil => simp [Forest.size, Forest.flatten, Forest.kill, Forest.allowed]
  | leaf e t f ih =>
    obtain ⟨hp, hf⟩ := hf
    rw [Forest.size, List.range'_succ, List.foldl_cons, Forest.flatten, List.cons_append,
      killStep_leaf rfl (by simpa using hp)]
    have := ih hf (l ++ [(e.setType t).setType
      (if validateEntryByRules (e.setType t) r then t else .invalidData)]) rest
      (v && validateEntryByRules (e.setType t) r)
    simp only [List.length_append, List.length_singleton, List.append_assoc,
      List.cons_append, List.nil_append] at this
    simp only [Entry.setType_type]
    rw [this]
    simp [Forest.kill, Forest.flatten, Forest.allowed, Bool.and_assoc, Entry.setType]
  | node o b c f ihb ih =>
    obtain ⟨hb, hf⟩ := hf
    have hrange : List.range' l.length (Forest.node o b c f).size =
        l.length :: (List.range' (l.length + 1) b.size ++
          (l.length + 1 + b.size) :: List.range' (l.length + b.size + 2) f.size) := by
      have h1 : (Forest.node o b c f).size = b.size + (f.size + 1) + 1 := by
        simp [Forest.size]
        omega
      have h2 : l.length + 1 + b.size + 1 = l.length + b.size + 2 := by omega
      rw [h1, List.range'_succ, ← List.range'_append_1, List.range'_succ, h2]
    have hflat : l ++ ((Forest.node o b c f).flatten l.length ++ rest) =
        l ++ o.setPair (l.length + 1 + b.size) :: (b.flatten (l.length + 1) ++
          c.setPair l.length :: (f.flatten (l.length + b.size + 2) ++ rest)) := by
      simp [Forest.flatten]
    have hbody : ∀ (o c : Entry) (v : Bool),
        (List.range' (l.length + 1) b.size).foldl (killStep r)
          (l ++ o :: (b.flatten (l.length + 1) ++ c ::
            (f.flatten (l.length + b.size + 2) ++ rest)), v) =
        (l ++ o :: ((b.kill r).flatten (l.length + 1) ++ c ::
            (f.flatten (l.length + b.size + 2) ++ rest)), v && b.allowed r) := by
      intro o c v
      have := ihb hb (l ++ [o]) (c :: (f.flatten (l.length + b.size + 2) ++ rest)) v
      simpa using this
    rw [hrange, hflat, List.foldl_cons, List.foldl_append, List.foldl_cons,
      killStep_pair rfl (by simp) (by simp) hbody]
    have htail : ∀ (o c : Entry) (v : Bool),
        (List.range' (l.length + b.size + 2) f.size).foldl (killStep r)
          (l ++ o :: ((b.kill r).flatten (l.length + 1) ++ c ::
            (f.flatten (l.length + b.size + 2) ++ rest)), v) =
        (l ++ o :: ((b.kill r).flatten (l.length + 1) ++ c ::
            ((f.kill r).flatten (l.length + b.size + 2) ++ rest)), v && f.allowed r) := by
      intro o c v
      have := ih hf (l ++ o :: ((b.kill r).flatten (l.length + 1) ++ [c])) rest v
      have hlen : (l ++ o :: ((b.kill r).flatten (l.length + 1) ++ [c])).length =
          l.length + b.size + 2 := by
        simp
        omega
      rw [hlen] at this
      simpa using this
    cases ho : validateEntryByRules o r <;> cases hc : validateEntryByRules c r <;>
      simp [htail, Forest.kill, Forest.flatten, Forest.allowed, ho, hc, Bool.and_assoc]

/-- Parsing does not set pairs. -/
lemma parsePart_pair (h : e.tag.pair = none) : (parsePart e).tag.pair = none := by
  unfold parsePart
  split
  · simp only [parseHtmlEntity]
    split <;> simpa using h
  · unfold parseHtmlTag
    split
    · simpa using h
    · simpa using h
    · split_ifs
      · split <;> simpa using h
      · split <;> simpa using h
  · exact h

/-- A forest of entries without pairs. -/
lemma Forest.unpaired_of_toList {f : Forest} (h : ∀ e ∈ f.toList, e.tag.pair = none) :
    f.Unpaired := by
  induction f with
  | nil => trivial
  | leaf e t f ih => exact ⟨h e (by simp [toList]), ih fun e' he => h e' (by simp [toList, he])⟩
  | node o b c f ihb ih =>
    exact ⟨ihb fun e' he => h e' (by simp [toList, he]), ih fun e' he =>
      h e' (by simp [toList, he])⟩

/-- Splitting does not set pairs. -/
lemma splitPart_tag {q : Bytes} (h : splitPart s = some (e, q)) :
    e.tag = {} := by
  cases s with
  | nil => simp [splitPart] at h
  | cons c p =>
    have huntil : ∀ o c t q, (splitUntil o c t q).1.tag = {} := by
      intro o c t q
      rw [splitUntil]
      split <;> rfl
    have hcomment : ∀ b, (splitComment b).1.tag = {} := by
      intro b
      rw [splitComment]
      split
      · split <;> rfl
      · rfl
    rw [splitPart] at h
    split_ifs at h <;> obtain ⟨rfl, -⟩ := Prod.ext_iff.mp (Option.some.inj h)
    · exact huntil _ _ _ _
    · exact hcomment _
    · exact huntil _ _ _ _
    · rfl
    · rfl

/-- The entries of a text come from rounds of the splitting loop. -/
lemma exists_splitPart_of_mem (h : e ∈ splitToParts s) :
    ∃ r, splitPart (e.text ++ r) = some (e, r) := by
  induction s using split_induction with
  | nil => simp at h
  | next e' r hr _ ih =>
    rw [splitToParts_of_splitPart hr] at h
    rcases List.mem_cons.mp h with rfl | h
    · exact ⟨r, hr⟩
    · exact ih h

/-- The flag and the text computed by the filter, on the forest of the text. -/
theorem filterText_eq (s : Bytes) (r : Rules) (method : FilteringMethod) :
    filterText s r method = (validateText s r,
      (((nestForest r.isXhtml ((splitToParts s).map parsePart)).kill r).flatten 0).flatMap
        (writeEntry method)) := by
  set es := (splitToParts s).map parsePart with hes
  have hun : (nestForest r.isXhtml es).Unpaired := by
    refine Forest.unpaired_of_toList fun e he => ?_
    rw [nestForest_toList, hes, List.mem_map] at he
    obtain ⟨p, hp, rfl⟩ := he
    obtain ⟨q, hq⟩ := exists_splitPart_of_mem hp
    exact parsePart_pair (by rw [splitPart_tag hq])
  have hloop := foldl_killStep r (nestForest r.isXhtml es) hun [] []
    (partsParse (splitToParts s) &&
      (validateNesting es r.isXhtml).all fun e => e.type != .invalidData)
  simp only [List.length_nil, List.nil_append, List.append_nil] at hloop
  rw [filterText]
  simp only [← hes]
  have hlen : (validateNesting es r.isXhtml).length = (nestForest r.isXhtml es).size := by
    rw [validateNesting_eq, Forest.length_flatten]
  rw [hlen, List.range_eq_range', validateNesting_eq] at *
  rw [hloop]
  have hflag : validateText s r = (partsParse (splitToParts s) &&
      ((nestForest r.isXhtml es).flatten 0).all (fun e => e.type != .invalidData) &&
        (nestForest r.isXhtml es).allowed r) := by
    rw [validateText]
    simp only [← hes, validateNesting_eq]
    congr 1
    rw [Bool.eq_iff_iff, Forest.allowed_iff, List.all_eq_true]
    exact Forest.forall_mem_flatten (fun e i => by rw [validateEntryByRules_setPair]) _ 0
  rw [hflag]

end Xss

end Cppcms
