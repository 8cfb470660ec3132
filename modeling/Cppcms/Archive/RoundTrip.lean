import Cppcms.Archive.Traits

/-!
# What was saved is loaded

Every value that is saved is found again by loading, and the position for reading is behind its
octets then, so that the next value can be loaded.  The proof follows the types: each form of saving
is paired with the form of loading that reads exactly its chunks.
-/

namespace Cppcms

namespace Serialization

/-! ## Equal values -/

/-- The elements of a container are related, in order or, if the order is one of addresses, in some
order. -/
def Elements {α β : Type} (R : α → β → Prop) (anyOrder : Bool) (x : List α) (y : List β) : Prop :=
  ∃ l, List.Forall₂ R x l ∧ if anyOrder then List.Perm y l else y = l

/-- The same value.  Pointers are the same if they point to the same values or to none. -/
def Same : (t : Ty) → t.Val → t.Val → Prop
  | .pod _, x, y => x = y
  | .string, x, y => x = y
  | .pair f s, x, y => Same f x.1 y.1 ∧ Same s x.2 y.2
  | .array _ t, x, y => List.Forall₂ (Same t) x.1 y.1
  | .vector t, x, y => List.Forall₂ (Same t) x y
  | .list t, x, y => List.Forall₂ (Same t) x y
  | .set t, x, y => Elements (Same t) t.hasPointer x y
  | .multiset t, x, y => Elements (Same t) t.hasPointer x y
  | .map k v, x, y => Elements (fun p q => Same k p.1 q.1 ∧ Same v p.2 q.2) k.hasPointer x y
  | .multimap k v, x, y => Elements (fun p q => Same k p.1 q.1 ∧ Same v p.2 q.2) k.hasPointer x y
  | .pointer t, x, y => Option.Rel (Same t) x y

/-- No container in the type is ordered by addresses. -/
def Ty.byValue : Ty → Bool
  | pod _ => true
  | string => true
  | pair f s => f.byValue && s.byValue
  | array _ t => t.byValue
  | vector t => t.byValue
  | list t => t.byValue
  | set t => !t.hasPointer
  | multiset t => !t.hasPointer
  | map k v => !k.hasPointer && v.byValue
  | multimap k v => !k.hasPointer && v.byValue
  | pointer t => t.byValue

variable {t : Ty} {α : Type}

lemma Ty.byValue_of_hasPointer (h : t.hasPointer = false) : t.byValue = true := by
  induction t with
  | pod size => rfl
  | string => rfl
  | pair f s ihf ihs =>
    simp only [Ty.hasPointer, Bool.or_eq_false_iff] at h
    simp only [Ty.byValue, ihf h.1, ihs h.2, Bool.and_self]
  | array n t ih => exact ih h
  | vector t ih => exact ih h
  | list t ih => exact ih h
  | set t ih =>
    simp only [Ty.hasPointer] at h
    simp only [Ty.byValue, h, Bool.not_false]
  | multiset t ih =>
    simp only [Ty.hasPointer] at h
    simp only [Ty.byValue, h, Bool.not_false]
  | map k v ihk ihv =>
    simp only [Ty.hasPointer, Bool.or_eq_false_iff] at h
    simp only [Ty.byValue, h.1, ihv h.2, Bool.not_false, Bool.and_self]
  | multimap k v ihk ihv =>
    simp only [Ty.hasPointer, Bool.or_eq_false_iff] at h
    simp only [Ty.byValue, h.1, ihv h.2, Bool.not_false, Bool.and_self]
  | pointer t ih => cases h

lemma eq_of_forall₂ {R : α → α → Prop} (hR : ∀ x y, R x y → x = y) {l l' : List α}
    (h : List.Forall₂ R l l') : l = l' := by
  induction h with
  | nil => rfl
  | cons hxy _ ih => rw [hR _ _ hxy, ih]

lemma Elements.eq {R : α → α → Prop} (hR : ∀ x y, R x y → x = y) {l l' : List α}
    (h : Elements R false l l') : l = l' := by
  rcases h with ⟨m, hm, rfl⟩
  exact eq_of_forall₂ hR hm

/-- Without an order by addresses, the same value is an equal one. -/
lemma Same.eq (ht : t.byValue = true) {x y : t.Val} (h : Same t x y) : x = y := by
  induction t with
  | pod size => exact h
  | string => exact h
  | pair f s ihf ihs =>
    simp only [Ty.byValue, Bool.and_eq_true] at ht
    exact Prod.ext (ihf ht.1 h.1) (ihs ht.2 h.2)
  | array n t ih => exact Subtype.ext (eq_of_forall₂ (fun _ _ => ih ht) h)
  | vector t ih => exact eq_of_forall₂ (fun _ _ => ih ht) h
  | list t ih => exact eq_of_forall₂ (fun _ _ => ih ht) h
  | set t ih =>
    simp only [Ty.byValue, Bool.not_eq_true'] at ht
    unfold Same at h
    rw [ht] at h
    exact h.eq fun _ _ => ih (Ty.byValue_of_hasPointer ht)
  | multiset t ih =>
    simp only [Ty.byValue, Bool.not_eq_true'] at ht
    unfold Same at h
    rw [ht] at h
    exact h.eq fun _ _ => ih (Ty.byValue_of_hasPointer ht)
  | map k v ihk ihv =>
    simp only [Ty.byValue, Bool.and_eq_true, Bool.not_eq_true'] at ht
    unfold Same at h
    rw [ht.1] at h
    exact h.eq fun _ _ hxy => Prod.ext (ihk (Ty.byValue_of_hasPointer ht.1) hxy.1) (ihv ht.2 hxy.2)
  | multimap k v ihk ihv =>
    simp only [Ty.byValue, Bool.and_eq_true, Bool.not_eq_true'] at ht
    unfold Same at h
    rw [ht.1] at h
    exact h.eq fun _ _ hxy => Prod.ext (ihk (Ty.byValue_of_hasPointer ht.1) hxy.1) (ihv ht.2 hxy.2)
  | pointer t ih =>
    cases h with
    | some hxy => exact congrArg some (ih ht hxy)
    | none => rfl

/-- All elements have a property. -/
def AllOf {α : Type} (P : α → Prop) (l : List α) : Prop := ∀ y ∈ l, P y

/-- The values that can be saved: the chunks are shorter than 4 GiB, the containers have a size of
type `size_t`, and those that are ordered by values are in order. -/
def Valid (o : Order) : (t : Ty) → t.Val → Prop
  | .pod size, _ => (size : ℕ) < 2 ^ 32
  | .string, x => List.length x < 2 ^ 32
  | .pair f s, x => Valid o f x.1 ∧ Valid o s x.2
  | .array n t, x =>
    match podView t with
    | some p => p.size * n < 2 ^ 32
    | none => AllOf (Valid o t) x.1
  | .vector t, x =>
    match podView t with
    | some p => List.length x * p.size < 2 ^ 32
    | none => List.length x < 2 ^ 64 ∧ AllOf (Valid o t) x
  | .list t, x => List.length x < 2 ^ 64 ∧ AllOf (Valid o t) x
  | .set t, x => List.length x < 2 ^ 64 ∧ AllOf (Valid o t) x ∧
    (t.hasPointer = false → List.Pairwise (fun y z => o.less t y z = true) x)
  | .multiset t, x => List.length x < 2 ^ 64 ∧ AllOf (Valid o t) x ∧
    (t.hasPointer = false → List.Pairwise (fun y z => o.less t z y = false) x)
  | .map k v, x => List.length x < 2 ^ 64 ∧ AllOf (fun y => Valid o k y.1 ∧ Valid o v y.2) x ∧
    (k.hasPointer = false → List.Pairwise (fun y z => o.less k y.1 z.1 = true) x)
  | .multimap k v, x => List.length x < 2 ^ 64 ∧ AllOf (fun y => Valid o k y.1 ∧ Valid o v y.2) x ∧
    (k.hasPointer = false → List.Pairwise (fun y z => o.less k z.1 y.1 = false) x)
  | .pointer t, x => AllOf (Valid o t) (Option.toList x)

/-! ## Chunks -/

/-- The octets of a chunk. -/
def chunk (p : Bytes) : Bytes := littleEndian 4 p.length ++ p

lemma writeChunk_eq (p a : Bytes) : writeChunk p a = a ++ chunk p := by
  unfold writeChunk chunk
  rw [List.append_assoc]

lemma length_chunk (p : Bytes) : (chunk p).length = 4 + p.length := by
  unfold chunk
  rw [List.length_append, length_littleEndian]

section Chunks

variable {p : Bytes}

lemma nextChunkSize_chunk (hp : p.length < 2 ^ 32) (pre post : Bytes) :
    nextChunkSize ⟨pre ++ (chunk p ++ post), pre.length⟩ = .returns p.length := by
  have hlength : (pre ++ (chunk p ++ post)).length = pre.length + (4 + p.length + post.length) := by
    rw [List.length_append, List.length_append, length_chunk]
  have hcopy : copy ⟨pre ++ (chunk p ++ post), pre.length⟩ pre.length 4 =
      .returns (littleEndian 4 p.length) := by
    have hslice : slice (pre ++ (chunk p ++ post)) pre.length 4 =
        some (littleEndian 4 p.length) := by
      unfold chunk
      rw [List.append_assoc]
      exact slice_append rfl (length_littleEndian 4 p.length)
    unfold copy
    rw [hslice]
  have heof : eof ⟨pre ++ (chunk p ++ post), pre.length⟩ = false := by
    unfold eof
    dsimp only
    rw [hlength]
    simp
  have hsize : fromLittleEndian (littleEndian 4 p.length) = p.length :=
    fromLittleEndian_of_lt (by omega)
  unfold nextChunkSize
  rw [heof, if_neg Bool.false_ne_true, if_neg (by dsimp only; rw [hlength]; omega), hcopy,
    Outcome.returns_bind, hsize, if_neg (by dsimp only; rw [hlength]; omega), Outcome.pure_eq]

lemma copy_chunk (pre post : Bytes) :
    copy ⟨pre ++ (chunk p ++ post), pre.length⟩ (pre.length + 4) p.length = .returns p := by
  have hsplit : pre ++ (chunk p ++ post) = (pre ++ littleEndian 4 p.length) ++ (p ++ post) := by
    unfold chunk
    simp only [List.append_assoc]
  have hslice : slice (pre ++ (chunk p ++ post)) (pre.length + 4) p.length = some p := by
    rw [hsplit]
    exact slice_append (by rw [List.length_append, length_littleEndian]) rfl
  unfold copy
  rw [hslice]

lemma readChunk_chunk (hp : p.length < 2 ^ 32) (pre post : Bytes) :
    readChunk p.length ⟨pre ++ (chunk p ++ post), pre.length⟩ =
    .returns (p, ⟨pre ++ (chunk p ++ post), pre.length + (chunk p).length⟩) := by
  unfold readChunk
  rw [nextChunkSize_chunk hp, Outcome.returns_bind, if_neg (by simp), copy_chunk,
    Outcome.returns_bind, Outcome.pure_eq, length_chunk, Nat.add_assoc]

lemma readChunkAsString_chunk (hp : p.length < 2 ^ 32) (pre post : Bytes) :
    readChunkAsString ⟨pre ++ (chunk p ++ post), pre.length⟩ =
    .returns (p, ⟨pre ++ (chunk p ++ post), pre.length + (chunk p).length⟩) := by
  unfold readChunkAsString
  rw [nextChunkSize_chunk hp, Outcome.returns_bind, copy_chunk, Outcome.returns_bind,
    Outcome.pure_eq, length_chunk]

end Chunks

/-! ## Framing -/

/-- Saving appends some octets, and loading at their begin reads exactly them and gives the value.
-/
def Framed {α β : Type} (save : α → Bytes → Bytes) (load : Archive → Outcome (β × Archive)) (x : α)
    (y : β) : Prop :=
  ∃ enc, (∀ a, save x a = a ++ enc) ∧ ∀ pre post, load ⟨pre ++ (enc ++ post), pre.length⟩ =
    .returns (y, ⟨pre ++ (enc ++ post), pre.length + enc.length⟩)

section Framing

variable {α β γ δ : Type} {save : α → Bytes → Bytes}
    {load : Archive → Outcome (β × Archive)} {x : α} {y : β}

/-- The same for another type of values that is saved like this one. -/
lemma Framed.congr {γ : Type} {save' : γ → Bytes → Bytes} {load' : Archive → Outcome (β × Archive)}
    {x' : γ} (h : Framed save load x y) (hsave : ∀ a, save' x' a = save x a)
    (hload : ∀ a, load' a = load a) :
    Framed save' load' x' y := by
  rcases h with ⟨enc, hsaves, hloads⟩
  exact ⟨enc, fun a => (hsave a).trans (hsaves a), fun pre post =>
    (hload _).trans (hloads pre post)⟩

/-- The container without its iterator. -/
lemma Framed.contents {load : Archive → Outcome ((List β × ℕ) × Archive)} {c : List β × ℕ}
    (h : Framed save load x c) :
    Framed save (fun a => contents (load a)) x c.1 := by
  rcases h with ⟨enc, hsave, hload⟩
  refine ⟨enc, hsave, fun pre post => ?_⟩
  unfold Serialization.contents
  dsimp only
  rw [hload, Outcome.returns_bind]
  rfl

/-- A value that is one chunk. -/
lemma Framed.of_chunk {p : Bytes} (hp : p.length < 2 ^ 32) (hsave : ∀ a, save x a = writeChunk p a)
    (hload : ∀ a a', nextChunkSize a = .returns p.length → readChunk p.length a = .returns (p, a') →
      readChunkAsString a = .returns (p, a') → load a = .returns (y, a')) :
      Framed save load x y := by
  refine ⟨chunk p, fun a => (hsave a).trans (writeChunk_eq p a), fun pre post => ?_⟩
  exact hload _ _ (nextChunkSize_chunk hp pre post) (readChunk_chunk hp pre post)
    (readChunkAsString_chunk hp pre post)

/-- Two values, one after the other. -/
lemma Framed.pair {save' : γ → Bytes → Bytes} {load' : Archive → Outcome (δ × Archive)} {x' : γ}
    {y' : δ} (h : Framed save load x y) (h' : Framed save' load' x' y') :
    Framed (fun z a => save' z.2 (save z.1 a)) (loadPair load load') (x, x') (y, y') := by
  rcases h with ⟨enc, hsave, hload⟩
  rcases h' with ⟨enc', hsave', hload'⟩
  refine ⟨enc ++ enc', fun a => ?_, fun pre post => ?_⟩
  · dsimp only
    rw [hsave, hsave', List.append_assoc]
  · have hfirst := hload pre (enc' ++ post)
    have hsecond := hload' (pre ++ enc) post
    rw [List.append_assoc, List.length_append] at hsecond
    unfold loadPair
    rw [List.append_assoc, hfirst, Outcome.returns_bind]
    dsimp only
    rw [hsecond, Outcome.returns_bind, Outcome.pure_eq, List.length_append, Nat.add_assoc]

/-- All elements of a container. -/
lemma Framed.all {l : List α} {m : List β} (h : List.Forall₂ (Framed save load) l m)
    (insert : γ → β → γ) (c : γ) :
    Framed (saveAll save) (loadAll load insert l.length c) l (m.foldl insert c) := by
  induction h generalizing c with
  | nil =>
    refine ⟨[], fun a => (List.append_nil a).symm, fun pre post => ?_⟩
    rfl
  | @cons x y l m hxy hlm ih =>
    rcases hxy with ⟨enc, hsave, hload⟩
    rcases ih (insert c y) with ⟨enc', hsave', hload'⟩
    refine ⟨enc ++ enc', fun a => ?_, fun pre post => ?_⟩
    · have hall : saveAll save (x :: l) a = saveAll save l (save x a) := rfl
      rw [hall, hsave, hsave', List.append_assoc]
    · have hfirst := hload pre (enc' ++ post)
      have hsecond := hload' (pre ++ enc) post
      rw [List.append_assoc, List.length_append] at hsecond
      rw [List.length_cons, loadAll, List.append_assoc, hfirst, Outcome.returns_bind]
      dsimp only
      rw [hsecond, List.length_append, Nat.add_assoc, List.foldl_cons]

/-- The size of a container, and then its elements. -/
lemma Framed.container {l : List α} {m : List β} (hlength : l.length < 2 ^ 64)
    (h : List.Forall₂ (Framed save load) l m) (insert : γ → β → γ) (c : γ) :
    Framed (archiveSaveContainer save) (archiveLoadContainer load insert c) l
      (m.foldl insert c) := by
  rcases Framed.all h insert c with ⟨enc, hsave, hload⟩
  have hoctets : (littleEndian 8 l.length).length = 8 := length_littleEndian 8 l.length
  have hshort : (littleEndian 8 l.length).length < 2 ^ 32 := by rw [hoctets]; norm_num
  refine ⟨chunk (littleEndian 8 l.length) ++ enc, fun a => ?_, fun pre post => ?_⟩
  · unfold archiveSaveContainer saveSize
    rw [hsave, writeChunk_eq, List.append_assoc]
  · have hsize := readChunk_chunk hshort pre (enc ++ post)
    have hnext := hload (pre ++ chunk (littleEndian 8 l.length)) post
    rw [hoctets] at hsize
    rw [List.append_assoc, List.length_append] at hnext
    unfold archiveLoadContainer loadSize
    rw [List.append_assoc, hsize, Outcome.returns_bind]
    dsimp only
    rw [Outcome.pure_eq, Outcome.returns_bind]
    dsimp only
    rw [fromLittleEndian_of_lt (by norm_num; exact hlength), hnext,
      List.length_append, Nat.add_assoc]

/-- The elements of an array. -/
lemma Framed.array {n : ℕ} {l : List α} {m : List β} (hl : l.length = n) (hm : m.length = n)
    (h : List.Forall₂ (Framed save load) l m) :
    Framed (saveAll save) (loadArray load n) l ⟨m, hm⟩ := by
  induction h generalizing n with
  | nil =>
    subst hl
    exact ⟨[], fun a => (List.append_nil a).symm, fun pre post => rfl⟩
  | @cons x y l m hxy hlm ih =>
    subst hl
    have hlm' : m.length = l.length := hlm.length_eq.symm
    rcases hxy with ⟨enc, hsave, hload⟩
    rcases ih rfl hlm' with ⟨enc', hsave', hload'⟩
    refine ⟨enc ++ enc', fun a => ?_, fun pre post => ?_⟩
    · have hall : saveAll save (x :: l) a = saveAll save l (save x a) := rfl
      rw [hall, hsave, hsave', List.append_assoc]
    · have hfirst := hload pre (enc' ++ post)
      have hsecond := hload' (pre ++ enc) post
      rw [List.append_assoc, List.length_append] at hsecond
      show loadArray load (l.length + 1) _ = _
      rw [loadArray, List.append_assoc, hfirst, Outcome.returns_bind]
      dsimp only
      rw [hsecond, Outcome.returns_bind, Outcome.pure_eq, List.length_append, Nat.add_assoc]

end Framing

/-! ## Insertion in order -/

section Insertion

variable {α κ : Type}

/-- Elements that all come to the end of the container are found in the order in which they came. -/
lemma foldl_assign_append {spot : ℕ → List α → α → Spot} {l m : List α}
    (h : ∀ before x after, l = before ++ x :: after →
      spot (m.length + before.length) (m ++ before) x = ⟨m.length + before.length, true⟩) :
    l.foldl (assign spot) (m, m.length) = (m ++ l, (m ++ l).length) := by
  induction l generalizing m with
  | nil => rw [List.foldl_nil, List.append_nil]
  | cons x l ih =>
    have hfirst := h [] x l rfl
    rw [List.length_nil, Nat.add_zero, List.append_nil] at hfirst
    have hassign : assign spot (m, m.length) x = (m ++ [x], (m ++ [x]).length) := by
      unfold assign
      dsimp only
      rw [hfirst]
      refine Prod.ext ?_ ?_
      · exact List.insertIdx_length_self
      · rw [List.length_append, List.length_singleton]
    rw [List.foldl_cons, hassign, ih]
    · rw [List.append_assoc, List.singleton_append]
    · intro before y after heq
      have hnext := h (x :: before) y after (by rw [heq, List.cons_append])
      rw [List.length_append, List.length_singleton, List.append_assoc, List.singleton_append]
      rw [List.length_cons] at hnext
      rw [Nat.add_assoc, Nat.add_comm 1]
      exact hnext

lemma foldl_sequence (l : List α) : l.foldl (assign sequenceSpot) ([], 0) = (l, l.length) :=
  foldl_assign_append fun _ _ _ _ => rfl

/-- All elements of an ordered sequence are less than the next one. -/
lemma before_of_pairwise {R : α → α → Prop} {l before after : List α} {x : α} (h : l.Pairwise R)
    (heq : l = before ++ x :: after) : ∀ y ∈ before, R y x := by
  intro y hy
  rw [heq, List.pairwise_append] at h
  exact h.2.2 y hy x List.mem_cons_self

lemma uniqueSpot_end {less : κ → κ → Bool} {keys : List κ} {k : κ}
    (h : ∀ y ∈ keys, less y k = true) :
    uniqueSpot less keys k = ⟨keys.length, true⟩ := by
  have hbound : lowerBound less keys k = keys.length := by
    unfold lowerBound
    rw [List.takeWhile_eq_self_iff.2 h]
  unfold uniqueSpot
  rw [hbound, List.getElem?_eq_none le_rfl]
  rfl

lemma multiSpot_end {less : κ → κ → Bool} {keys : List κ} {k : κ}
    (h : ∀ y ∈ keys, less k y = false) :
    multiSpot less keys.length keys k = ⟨keys.length, true⟩ := by
  have hbound : upperBound less keys k = keys.length := by
    unfold upperBound
    rw [List.takeWhile_eq_self_iff.2]
    intro y hy
    rw [h y hy]
    rfl
  have hlower : lowerBound less keys k ≤ keys.length := (List.takeWhile_sublist _).length_le
  unfold multiSpot
  rw [hbound, Nat.min_self, Nat.max_eq_right hlower]

/-- Elements that are placed anywhere are all in the container. -/
lemma foldl_assign_perm {spot : ℕ → List α → α → Spot}
    (h : ∀ hint l x, (spot hint l x).insert = true ∧ (spot hint l x).index ≤ l.length) (l : List α)
    (c : List α × ℕ) :
    (l.foldl (assign spot) c).1.Perm (c.1 ++ l) := by
  induction l generalizing c with
  | nil => rw [List.foldl_nil, List.append_nil]
  | cons x l ih =>
    have hput : (assign spot c x).1.Perm (x :: c.1) := by
      unfold assign Spot.put
      dsimp only
      rw [if_pos (h c.2 c.1 x).1]
      exact List.perm_insertIdx x c.1 (h c.2 c.1 x).2
    have hmove : (x :: c.1 ++ l).Perm (c.1 ++ x :: l) := List.perm_middle.symm
    exact (ih (assign spot c x)).trans ((hput.append_right l).trans hmove)

/-- Without the iterator, the same elements are inserted. -/
lemma foldl_put (spot : List α → α → Spot) (l : List α) (c : List α × ℕ) :
    l.foldl (fun m x => (spot m x).put m x) c.1 = (l.foldl (assign fun _ => spot) c).1 := by
  induction l generalizing c with
  | nil => rfl
  | cons x l ih => exact ih (assign (fun _ => spot) c x)

end Insertion

/-! ## All types -/

section Types

variable {o : Order}

/-- The elements have framed counterparts that are the same. -/
lemma exists_forall₂ {α β : Type} {save : α → Bytes → Bytes}
    {load : Archive → Outcome (β × Archive)} {R : α → β → Prop} {l : List α}
    (h : ∀ x ∈ l, ∃ y, Framed save load x y ∧ R x y) :
    ∃ m, List.Forall₂ (Framed save load) l m ∧ List.Forall₂ R l m := by
  induction l with
  | nil => exact ⟨[], .nil, .nil⟩
  | cons x l ih =>
    rcases h x List.mem_cons_self with ⟨y, hframed, hy⟩
    rcases ih fun z hz => h z (List.mem_cons_of_mem x hz) with ⟨m, hall, hm⟩
    exact ⟨y :: m, .cons hframed hall, .cons hy hm⟩

/-- The memory of plain values is cut into them again. -/
lemma cut_flatten (p : PodView α) (l : List α) : cut p l.length (l.map p.toBytes).flatten = l := by
  induction l with
  | nil => rfl
  | cons x l ih =>
    rw [List.length_cons, cut, List.map_cons, List.flatten_cons,
      List.take_append_of_le_length (p.length_toBytes x).ge, List.take_of_length_le
        (p.length_toBytes x).le, p.ofBytes_toBytes, ← p.length_toBytes x, List.drop_left, ih]

lemma length_flatten_toBytes (p : PodView α) (l : List α) :
    (l.map p.toBytes).flatten.length = l.length * p.size := by
  induction l with
  | nil => exact (Nat.zero_mul p.size).symm
  | cons x l ih =>
    rw [List.map_cons, List.flatten_cons, List.length_append, ih, p.length_toBytes,
      List.length_cons]
    ring

lemma Same.refl (x : t.Val) : Same t x x := by
  induction t with
  | pod size => exact rfl
  | string => exact rfl
  | pair f s ihf ihs => exact ⟨ihf x.1, ihs x.2⟩
  | array n t ih => exact List.forall₂_same.2 fun y _ => ih y
  | vector t ih => exact List.forall₂_same.2 fun y _ => ih y
  | list t ih => exact List.forall₂_same.2 fun y _ => ih y
  | set t ih => exact ⟨x, List.forall₂_same.2 fun y _ => ih y, by split_ifs <;> rfl⟩
  | multiset t ih => exact ⟨x, List.forall₂_same.2 fun y _ => ih y, by split_ifs <;> rfl⟩
  | map k v ihk ihv =>
      exact ⟨x, List.forall₂_same.2 fun y _ => ⟨ihk y.1, ihv y.2⟩, by split_ifs <;> rfl⟩
  | multimap k v ihk ihv =>
      exact ⟨x, List.forall₂_same.2 fun y _ => ⟨ihk y.1, ihv y.2⟩, by split_ifs <;> rfl⟩
  | pointer t ih =>
    cases x with
    | none => exact .none
    | some y => exact .some (ih y)

/-- The elements come into an ordered container. -/
lemma elements_foldl {R : α → α → Prop} {b : Bool} {l m : List α} {spot : ℕ → List α → α → Spot}
    (h : List.Forall₂ R l m)
    (hany : b = true → ∀ hint l x, (spot hint l x).insert = true ∧ (spot hint l x).index ≤ l.length)
    (horder : b = false → ∀ before x after, m = before ++ x :: after →
      spot before.length before x = ⟨before.length, true⟩) :
    Elements R b l (m.foldl (assign spot) ([], 0)).1 := by
  refine ⟨m, h, ?_⟩
  cases b with
  | true =>
    rw [if_pos rfl]
    exact foldl_assign_perm (hany rfl) m ([], 0)
  | false =>
    have happend := @foldl_assign_append _ spot m [] fun before x after heq => by
      rw [List.length_nil, Nat.zero_add, List.nil_append]
      exact horder rfl before x after heq
    rw [if_neg Bool.false_ne_true]
    exact congrArg Prod.fst happend

lemma placeSpot_anywhere (keys : List t.Val) (k : t.Val) :
    (placeSpot o t keys k).insert = true ∧ (placeSpot o t keys k).index ≤ keys.length :=
  ⟨rfl, Nat.min_le_right _ _⟩

lemma Order.unique_anywhere {t : Ty} (ht : t.hasPointer = true) (keys : List t.Val) (k : t.Val) :
    (o.unique t keys k).insert = true ∧ (o.unique t keys k).index ≤ keys.length := by
  unfold Order.unique
  rw [if_pos ht]
  exact placeSpot_anywhere keys k

lemma Order.multi_anywhere {t : Ty} (ht : t.hasPointer = true) (hint : ℕ) (keys : List t.Val)
    (k : t.Val) :
    (o.multi t hint keys k).insert = true ∧ (o.multi t hint keys k).index ≤ keys.length := by
  unfold Order.multi
  rw [if_pos ht]
  exact placeSpot_anywhere keys k

lemma Order.unique_end {t : Ty} (ht : t.hasPointer = false) {keys : List t.Val} {k : t.Val}
    (h : ∀ y ∈ keys, o.less t y k = true) : o.unique t keys k = ⟨keys.length, true⟩ := by
  unfold Order.unique
  rw [ht, if_neg Bool.false_ne_true]
  exact uniqueSpot_end h

lemma Order.multi_end {t : Ty} (ht : t.hasPointer = false) {keys : List t.Val} {k : t.Val}
    (h : ∀ y ∈ keys, o.less t k y = false) :
    o.multi t keys.length keys k = ⟨keys.length, true⟩ := by
  unfold Order.multi
  rw [ht, if_neg Bool.false_ne_true]
  exact multiSpot_end h

variable {k v : Ty}

/-- The keys of a map come back as they were, if they are compared by values. -/
lemma keys_eq (hk : k.hasPointer = false) {l m : List (k.Val × v.Val)}
    (h : List.Forall₂ (fun p q => Same k p.1 q.1 ∧ Same v p.2 q.2) l m) :
    m.map Prod.fst = l.map Prod.fst := by
  induction h with
  | nil => rfl
  | cons hxy _ ih =>
    rw [List.map_cons, List.map_cons, ih, Same.eq (Ty.byValue_of_hasPointer hk) hxy.1]

/-- The keys before a pair of a map. -/
lemma keys_before {k v : Ty} {R : k.Val → k.Val → Prop} {l m before after : List (k.Val × v.Val)}
    {x : k.Val × v.Val} (h : l.Pairwise fun y z => R y.1 z.1)
    (heq : m.map Prod.fst = l.map Prod.fst) (hm : m = before ++ x :: after) :
    ∀ y ∈ before.map Prod.fst, R y x.1 := by
  have hkeys : (m.map Prod.fst).Pairwise R := by
    rw [heq]
    exact List.pairwise_map.2 h
  rw [hm, List.map_append, List.map_cons] at hkeys
  exact before_of_pairwise hkeys rfl

/-- The pairs of a map. -/
lemma framed_pair {x : k.Val × v.Val} (hk : ∃ y, Framed (save k) (load o k) x.1 y ∧ Same k x.1 y)
    (hv : ∃ y, Framed (save v) (load o v) x.2 y ∧ Same v x.2 y) :
    ∃ y : k.Val × v.Val, Framed (fun z a => save v z.2 (save k z.1 a))
      (loadPair (load o k) (load o v)) x y ∧
      Same k x.1 y.1 ∧ Same v x.2 y.2 := by
  rcases hk with ⟨y, hy, hsame⟩
  rcases hv with ⟨y', hy', hsame'⟩
  exact ⟨(y, y'), hy.pair hy', hsame, hsame'⟩

/-- Every valid value is framed. -/
lemma framed_of_valid (t : Ty) (x : t.Val) (hx : Valid o t x) :
    ∃ y, Framed (save t) (load o t) x y ∧ Same t x y := by
  induction t with
  | pod size =>
    refine ⟨x, ?_, rfl⟩
    have hlength : x.1.length = size := x.2
    have hshort : x.1.length < 2 ^ 32 := by
      rw [hlength]
      exact hx
    have hpod : podOfBytes size x.1 = x := by
      apply Subtype.ext
      show (x.1 ++ List.replicate size 0).take size = x.1
      rw [List.take_append_of_le_length hlength.ge, List.take_of_length_le hlength.le]
    apply Framed.of_chunk hshort (fun a => rfl)
    intro a a' _ hread _
    rw [hlength] at hread
    rw [load, hread, Outcome.returns_bind]
    dsimp only
    rw [hpod, Outcome.pure_eq]
  | string =>
    refine ⟨x, ?_, rfl⟩
    exact Framed.of_chunk hx (fun a => rfl) fun a a' _ _ hread => hread
  | pair f s ihf ihs =>
    rcases ihf x.1 hx.1 with ⟨y, hy, hsame⟩
    rcases ihs x.2 hx.2 with ⟨y', hy', hsame'⟩
    exact ⟨(y, y'), (hy.pair hy').congr (fun a => rfl) (fun a => rfl), hsame, hsame'⟩
  | array n t ih =>
    unfold Valid at hx
    cases hpod : podView t with
    | some p =>
      rw [hpod] at hx
      have hlength : (x.1.map p.toBytes).flatten.length = p.size * n := by
        rw [length_flatten_toBytes, x.2, Nat.mul_comm]
      have hcut : cut p n (x.1.map p.toBytes).flatten = x.1 := by
        have hall := cut_flatten p x.1
        rw [x.2] at hall
        exact hall
      refine ⟨x, ?_, Same.refl x⟩
      apply Framed.of_chunk (hlength ▸ hx : (x.1.map p.toBytes).flatten.length < 2 ^ 32)
      · intro a
        rw [save, hpod]
      · intro a a' _ hread _
        rw [hlength] at hread
        rw [load, hpod]
        dsimp only
        rw [hread, Outcome.returns_bind, Outcome.pure_eq]
        refine congrArg (fun z => Outcome.returns (z, a')) (Subtype.ext hcut)
    | none =>
      rw [hpod] at hx
      rcases exists_forall₂ fun y hy => ih y (hx y hy) with ⟨m, hall, hsame⟩
      have hm : m.length = n := hall.length_eq.symm.trans x.2
      refine ⟨⟨m, hm⟩, (Framed.array x.2 hm hall).congr (fun a => ?_) (fun a => ?_), hsame⟩
      · rw [save, hpod]
      · rw [load, hpod]
  | vector t ih =>
    unfold Valid at hx
    cases hpod : podView t with
    | some p =>
      rw [hpod] at hx
      have hlength := length_flatten_toBytes p x
      refine ⟨x, ?_, Same.refl x⟩
      apply Framed.of_chunk (hlength ▸ hx : (List.map p.toBytes x).flatten.length < 2 ^ 32)
      · intro a
        rw [save, hpod]
      · intro a a' hnext hread _
        rw [hlength] at hnext hread
        rw [load, hpod]
        dsimp only
        rw [hnext, Outcome.returns_bind, Nat.mul_div_cancel _ p.pos, hread, Outcome.returns_bind]
        exact congrArg (fun z => Outcome.returns (z, a')) (cut_flatten p x)
    | none =>
      rw [hpod] at hx
      rcases exists_forall₂ fun y hy => ih y (hx.2 y hy) with ⟨m, hall, hsame⟩
      have hframed := (Framed.container hx.1 hall (assign sequenceSpot) ([], 0)).contents
      rw [foldl_sequence] at hframed
      refine ⟨m, hframed.congr (fun a => ?_) (fun a => ?_), hsame⟩
      · rw [save, hpod]
      · rw [load, hpod]
  | list t ih =>
    rcases exists_forall₂ fun y hy => ih y (hx.2 y hy) with ⟨m, hall, hsame⟩
    have hframed := (Framed.container hx.1 hall (assign sequenceSpot) ([], 0)).contents
    rw [foldl_sequence] at hframed
    exact ⟨m, hframed.congr (fun a => rfl) (fun a => rfl), hsame⟩
  | set t ih =>
    rcases exists_forall₂ fun y hy => ih y (hx.2.1 y hy) with ⟨m, hall, hsame⟩
    have hframed := (Framed.container hx.1 hall (assign fun _ => o.unique t) ([], 0)).contents
    refine ⟨_, hframed.congr (fun a => rfl) (fun a => rfl), elements_foldl hsame ?_ ?_⟩
    · intro ht _ keys k
      exact Order.unique_anywhere ht keys k
    · intro ht before y after heq
      have hm := eq_of_forall₂ (fun _ _ => Same.eq (Ty.byValue_of_hasPointer ht)) hsame
      exact Order.unique_end ht (before_of_pairwise (hx.2.2 ht) (hm.trans heq))
  | multiset t ih =>
    rcases exists_forall₂ fun y hy => ih y (hx.2.1 y hy) with ⟨m, hall, hsame⟩
    have hframed := (Framed.container hx.1 hall (assign (o.multi t)) ([], 0)).contents
    refine ⟨_, hframed.congr (fun a => rfl) (fun a => rfl), elements_foldl hsame ?_ ?_⟩
    · intro ht hint keys k
      exact Order.multi_anywhere ht hint keys k
    · intro ht before y after heq
      have hm := eq_of_forall₂ (fun _ _ => Same.eq (Ty.byValue_of_hasPointer ht)) hsame
      exact Order.multi_end ht (before_of_pairwise (hx.2.2 ht) (hm.trans heq))
  | map k v ihk ihv =>
    rcases exists_forall₂ fun y hy =>
      framed_pair (ihk y.1 (hx.2.1 y hy).1) (ihv y.2 (hx.2.1 y hy).2) with
      ⟨m, hall, hsame⟩
    have hframed :=
      Framed.container hx.1 hall (fun l y => (o.unique k (l.map Prod.fst) y.1).put l y) []
    rw [foldl_put (fun l y => o.unique k (l.map Prod.fst) y.1) m ([], 0)] at hframed
    refine ⟨_, hframed.congr (fun a => rfl) (fun a => rfl), elements_foldl hsame ?_ ?_⟩
    · intro hk _ l y
      have hany := @Order.unique_anywhere o k hk (l.map Prod.fst) y.1
      rw [List.length_map] at hany
      exact hany
    · intro hk before y after heq
      have hend := @Order.unique_end o k hk _ _
        (@keys_before k v (fun a b => o.less k a b = true) _ _ _ _ _ (hx.2.2 hk)
          (keys_eq hk hsame) heq)
      rw [List.length_map] at hend
      exact hend
  | multimap k v ihk ihv =>
    rcases exists_forall₂ fun y hy =>
      framed_pair (ihk y.1 (hx.2.1 y hy).1) (ihv y.2 (hx.2.1 y hy).2) with
      ⟨m, hall, hsame⟩
    have hframed :=
      Framed.container hx.1 hall (fun l y => (o.multi k l.length (l.map Prod.fst) y.1).put l y) []
    rw [foldl_put (fun l y => o.multi k l.length (l.map Prod.fst) y.1) m ([], 0)] at hframed
    refine ⟨_, hframed.congr (fun a => rfl) (fun a => rfl), elements_foldl hsame ?_ ?_⟩
    · intro hk _ l y
      have hany := @Order.multi_anywhere o k hk l.length (l.map Prod.fst) y.1
      rw [List.length_map] at hany
      exact hany
    · intro hk before y after heq
      have hend := @Order.multi_end o k hk _ _
        (@keys_before k v (fun a b => o.less k b a = false) _ _ _ _ _ (hx.2.2 hk)
          (keys_eq hk hsame) heq)
      rw [List.length_map] at hend
      exact hend
  | pointer t ih =>
    have hshort : ∀ b, (marker b).length < 2 ^ 32 := by
      intro b
      show 1 < 2 ^ 32
      norm_num
    cases x with
    | none =>
      refine ⟨none, ?_, .none⟩
      apply Framed.of_chunk (hshort true) (fun a => rfl)
      intro a a' _ hread _
      rw [load]
      show (readChunk (marker true).length a >>= _) = _
      rw [hread]
      rfl
    | some z =>
      rcases ih z (hx z (List.mem_singleton.2 rfl)) with ⟨y, ⟨enc, hsave, hload⟩, hsame⟩
      refine ⟨some y, ⟨chunk (marker false) ++ enc, fun a => ?_, fun pre post => ?_⟩, .some hsame⟩
      · show save t z (writeChunk (marker false) a) = _
        rw [hsave, writeChunk_eq, List.append_assoc]
      · have hread := readChunk_chunk (hshort false) pre (enc ++ post)
        have hnext := hload (pre ++ chunk (marker false)) post
        rw [List.append_assoc, List.length_append] at hnext
        rw [load]
        show (readChunk (marker false).length _ >>= _) = _
        rw [List.append_assoc, hread, Outcome.returns_bind]
        dsimp only
        rw [if_neg (by simp [marker]), hnext, Outcome.returns_bind, Outcome.pure_eq,
          List.length_append, Nat.add_assoc]

end Types

/-! ## Several values -/

/-- A value with its type. -/
abbrev Value := (t : Ty) × t.Val

/-- Values are saved one after the other. -/
def saveValues (vs : List Value) (a : Bytes) : Bytes := vs.foldl (fun a v => save v.1 v.2 a) a

/-- Values of the given types are loaded one after the other. -/
def loadValues (o : Order) : List Ty → Archive → Outcome (List Value × Archive)
  | [], a => .returns ([], a)
  | t :: ts, a => do
    let (x, a) ← load o t a
    let (xs, a) ← loadValues o ts a
    return (⟨t, x⟩ :: xs, a)

/-- The same value of the same type, and an equal one if no container in it is ordered by addresses.
-/
inductive SameValue : Value → Value → Prop
  | intro {t : Ty} {x y : t.Val} (same : Same t x y) (eq : t.byValue = true → y = x) :
      SameValue ⟨t, x⟩ ⟨t, y⟩

/-- Values of any types that are saved one after the other are loaded in the same order, and the
position for reading is behind them then. -/
theorem loadValues_saveValues (o : Order) (vs : List Value) (hvs : ∀ v ∈ vs, Valid o v.1 v.2) :
    ∃ enc ws, List.Forall₂ SameValue vs ws ∧ (∀ a, saveValues vs a = a ++ enc) ∧
      ∀ pre post, loadValues o (vs.map Sigma.fst) ⟨pre ++ (enc ++ post), pre.length⟩ =
        .returns (ws, ⟨pre ++ (enc ++ post), pre.length + enc.length⟩) := by
  induction vs with
  | nil => exact ⟨[], [], .nil, fun a => (List.append_nil a).symm, fun pre post => rfl⟩
  | cons v vs ih =>
    rcases v with ⟨t, x⟩
    rcases framed_of_valid t x (hvs _ List.mem_cons_self) with ⟨y, ⟨enc, hsave, hload⟩, hsame⟩
    rcases ih fun w hw => hvs w (List.mem_cons_of_mem _ hw) with ⟨enc', ws, hall, hsave', hload'⟩
    have hvalue : SameValue ⟨t, x⟩ ⟨t, y⟩ := .intro hsame fun ht => (hsame.eq ht).symm
    refine ⟨enc ++ enc', ⟨t, y⟩ :: ws, .cons hvalue hall, fun a => ?_, fun pre post => ?_⟩
    · have hcons : saveValues (⟨t, x⟩ :: vs) a = saveValues vs (save t x a) := rfl
      rw [hcons, hsave, hsave', List.append_assoc]
    · have hfirst := hload pre (enc' ++ post)
      have hsecond := hload' (pre ++ enc) post
      rw [List.append_assoc, List.length_append] at hsecond
      rw [List.map_cons, loadValues, List.append_assoc, hfirst, Outcome.returns_bind]
      dsimp only
      rw [hsecond, Outcome.returns_bind, Outcome.pure_eq, List.length_append, Nat.add_assoc]

/-- Strings are compared as `std::string` does it. -/
def stringOrder : Order where
  less := fun t =>
    match t with
    | .string => fun x y => List.lex (x : Bytes) (y : Bytes) fun a b => a < b
    | _ => fun _ _ => false
  place := fun _ _ _ => 0

/-- A map from strings to pointers, and an array of numbers. -/
def mapAndArray : List Value :=
  [⟨.map .string (.pointer (.pod 2)), [(bytes "a", none), (bytes "b", some ⟨[1, 2], rfl⟩)]⟩,
    ⟨.array 2 (.pod 1), ⟨[⟨[7], rfl⟩, ⟨[8], rfl⟩], rfl⟩⟩]

theorem loadValues_saveValues_map : (∀ v ∈ mapAndArray, Valid stringOrder v.1 v.2) ∧
    ∃ enc ws, List.Forall₂ SameValue mapAndArray ws ∧ (∀ a, saveValues mapAndArray a = a ++ enc) ∧
      ∀ pre post, loadValues stringOrder (mapAndArray.map Sigma.fst)
        ⟨pre ++ (enc ++ post), pre.length⟩ =
        .returns (ws, ⟨pre ++ (enc ++ post), pre.length + enc.length⟩) := by
  have hvalid : ∀ v ∈ mapAndArray, Valid stringOrder v.1 v.2 := by
    intro v hv
    simp only [mapAndArray, List.mem_cons, List.not_mem_nil, or_false] at hv
    rcases hv with rfl | rfl
    · refine ⟨by decide, ?_, fun _ => ?_⟩
      · intro y hy
        simp only [List.mem_cons, List.not_mem_nil, or_false] at hy
        rcases hy with rfl | rfl
        · exact ⟨show (bytes "a").length < 2 ^ 32 by decide, fun z hz => absurd hz List.not_mem_nil⟩
        · refine ⟨show (bytes "b").length < 2 ^ 32 by decide, fun z _ => ?_⟩
          show ((2 : ℕ+) : ℕ) < 2 ^ 32
          norm_num
      · exact List.pairwise_pair.2 rfl
    · show 1 * 2 < 2 ^ 32
      norm_num
  exact ⟨hvalid, loadValues_saveValues stringOrder mapAndArray hvalid⟩

end Serialization

end Cppcms
