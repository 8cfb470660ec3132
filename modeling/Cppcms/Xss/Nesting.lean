import Cppcms.Xss.Entry

/-!
# Pairing of tags

`validate_nesting` of `src/xss.cpp` walks over the entries with a stack of the indices of open tags.
In XHTML mode a closing tag must match the top of the stack; in HTML mode it closes the open tags
above its partner as if they were stand-alone ones.  Types and pair indices are changed in place,
also those of entries far behind.

The in-place algorithm is refined to one that builds a forest: a matched pair becomes a node around
what stands between, everything else is a leaf with its final type.  The open tags form the spine of
a zipper.  `validateNesting_eq` says that the array left by the source is the forest, read from left
to right; everything about nesting is then proved by induction on the forest.
-/

namespace Cppcms

namespace Xss

/-! ## The algorithm of the source -/

/-- The name of the tag of the entry at an index. -/
def nameAt (parsed : List Entry) (i : ℕ) : Bytes := ((parsed[i]?).map fun e => e.tag.name).getD []

/-- Record that two entries are each other's pair. -/
def pairUp (parsed : List Entry) (top i : ℕ) : List Entry :=
  (parsed.modify i fun e => e.setPair top).modify top fun e => e.setPair i

/-- A closing tag at index `i` in XHTML mode. -/
def closeXhtml (parsed : List Entry) (i : ℕ) : List ℕ → List Entry × List ℕ
  | [] => (parsed.modify i fun e => e.setType .invalidData, [])
  | top :: st =>
    if asciiStreq (nameAt parsed top) (nameAt parsed i) true then (pairUp parsed top i, st)
    else ((parsed.modify i fun e => e.setType .invalidData).modify top fun e =>
      e.setType .invalidData, st)

/-- A closing tag at index `i` in HTML mode. -/
def closeHtml (parsed : List Entry) (i : ℕ) : List ℕ → List Entry × List ℕ
  | [] => (parsed.modify i fun e => e.setType .invalidData, [])
  | top :: st =>
    if asciiStreq (nameAt parsed top) (nameAt parsed i) false then (pairUp parsed top i, st)
    else closeHtml (parsed.modify top fun e => e.setType .openAndCloseTagWithoutSlash) i st

/-- One round of the loop over the entries. -/
def nestingStep (xhtml : Bool) (q : List Entry × List ℕ) (i : ℕ) : List Entry × List ℕ :=
  match (q.1[i]?).map Entry.type with
  | some .closeTag => if xhtml then closeXhtml q.1 i q.2 else closeHtml q.1 i q.2
  | some .openTag => (q.1, i :: q.2)
  | _ => q

/-- The type given to the tags that are still open at the end. -/
def unclosedType (xhtml : Bool) : HtmlDataType :=
  if xhtml then .invalidData else .openAndCloseTagWithoutSlash

/-- `validate_nesting`. -/
def validateNesting (parsed : List Entry) (xhtml : Bool) : List Entry :=
  let q := (List.range parsed.length).foldl (nestingStep xhtml) (parsed, [])
  q.2.foldl (fun p top => p.modify top fun e => e.setType (unclosedType xhtml)) q.1

/-! ## Forests -/

/-- Entries arranged by matched pairs; a leaf records the type that its entry gets. -/
inductive Forest where
  | nil
  | leaf (e : Entry) (t : HtmlDataType) (rest : Forest)
  | node (o : Entry) (body : Forest) (c : Entry) (rest : Forest)

namespace Forest

def append : Forest → Forest → Forest
  | nil, g => g
  | leaf e t f, g => leaf e t (f.append g)
  | node o b c f, g => node o b c (f.append g)

/-- The number of entries. -/
def size : Forest → ℕ
  | nil => 0
  | leaf _ _ f => f.size + 1
  | node _ b _ f => b.size + f.size + 2

/-- The entries from left to right, with their final types and the indices of their pairs, when the
first one stands at index `off`. -/
def flatten : Forest → ℕ → List Entry
  | nil, _ => []
  | leaf e t f, off => e.setType t :: f.flatten (off + 1)
  | node o b c f, off =>
    o.setPair (off + 1 + b.size) :: (b.flatten (off + 1) ++
      c.setPair off :: f.flatten (off + b.size + 2))

/-- The entries from left to right, as they were. -/
def toList : Forest → List Entry
  | nil => []
  | leaf e _ f => e :: f.toList
  | node o b c f => o :: (b.toList ++ c :: f.toList)

@[simp] lemma size_append (f g : Forest) : (f.append g).size = f.size + g.size := by
  induction f with
  | nil => simp [append, size]
  | leaf e t f ih =>
    simp [append, size, ih]
    omega
  | node o b c f _ ih =>
    simp [append, size, ih]
    omega

@[simp] lemma length_flatten (f : Forest) (off : ℕ) : (f.flatten off).length = f.size := by
  induction f generalizing off with
  | nil => rfl
  | leaf e t f ih => simp [flatten, size, ih]
  | node o b c f ihb ih =>
    simp [flatten, size, ihb, ih]
    omega

@[simp] lemma flatten_append (f g : Forest) (off : ℕ) :
    (f.append g).flatten off = f.flatten off ++ g.flatten (off + f.size) := by
  induction f generalizing off with
  | nil => simp [append, flatten, size]
  | leaf e t f ih =>
    simp only [append, flatten, size, ih, List.cons_append]
    congr 3
    omega
  | node o b c f _ ih =>
    have hoff : off + b.size + 2 + f.size = off + (b.size + f.size + 2) := by omega
    simp only [append, flatten, size, ih, List.cons_append, List.append_assoc, hoff]

@[simp] lemma toList_append (f g : Forest) : (f.append g).toList = f.toList ++ g.toList := by
  induction f with
  | nil => rfl
  | leaf e t f ih => simp [append, toList, ih]
  | node o b c f _ ih => simp [append, toList, ih]

end Forest

/-! ## The zipper -/

/-- An open tag and what has been read since. -/
abbrev Frame := Entry × Forest

/-- The forest in front of the first open tag, and the open tags with what follows them, the last
one first. -/
structure Zipper where
  base : Forest
  frames : List Frame

namespace Zipper

/-- Append to what has been read since the last open tag. -/
def add (base : Forest) : List Frame → Forest → Zipper
  | [], g => ⟨base.append g, []⟩
  | (o, seg) :: frames, g => ⟨base, (o, seg.append g) :: frames⟩

/-- A closing tag in XHTML mode. -/
def closeXhtml (base : Forest) (c : Entry) : List Frame → Zipper
  | [] => add base [] (.leaf c .invalidData .nil)
  | (o, seg) :: frames =>
    if asciiStreq o.tag.name c.tag.name true then add base frames (.node o seg c .nil)
    else add base frames (.leaf o .invalidData (seg.append (.leaf c .invalidData .nil)))

/-- A closing tag in HTML mode; `acc` collects what is left of the frames given up on the way. -/
def closeHtml (base : Forest) (c : Entry) : List Frame → Forest → Zipper
  | [], acc => add base [] (acc.append (.leaf c .invalidData .nil))
  | (o, seg) :: frames, acc =>
    if asciiStreq o.tag.name c.tag.name false then add base frames (.node o (seg.append acc) c .nil)
    else closeHtml base c frames (.leaf o .openAndCloseTagWithoutSlash (seg.append acc))

/-- One entry. -/
def step (xhtml : Bool) (z : Zipper) (e : Entry) : Zipper :=
  match e.type with
  | .closeTag => if xhtml then closeXhtml z.base e z.frames else closeHtml z.base e z.frames .nil
  | .openTag => ⟨z.base, (e, .nil) :: z.frames⟩
  | t => add z.base z.frames (.leaf e t .nil)

/-- A list of entries. -/
def run (xhtml : Bool) (z : Zipper) (es : List Entry) : Zipper := es.foldl (step xhtml) z

/-- Give up the frames that are still open. -/
def finish (t : HtmlDataType) (base : Forest) : List Frame → Forest → Forest
  | [], acc => base.append acc
  | (o, seg) :: frames, acc => finish t base frames (.leaf o t (seg.append acc))

/-! ### The array behind a zipper -/

/-- The number of entries read. -/
def size (base : Forest) : List Frame → ℕ
  | [] => base.size
  | (_, seg) :: frames => size base frames + 1 + seg.size

/-- The entries read, as the source keeps them. -/
def flat (base : Forest) : List Frame → List Entry
  | [] => base.flatten 0
  | (o, seg) :: frames => flat base frames ++ o :: seg.flatten (size base frames + 1)

/-- The stack of indices kept by the source. -/
def stack (base : Forest) : List Frame → List ℕ
  | [] => []
  | (_, _) :: frames => size base frames :: stack base frames

@[simp] lemma length_flat (base : Forest) (frames : List Frame) :
    (flat base frames).length = size base frames := by
  induction frames with
  | nil => simp [flat, size]
  | cons fr frames ih =>
    simp [flat, size, ih]
    omega

lemma flat_add (base : Forest) (frames : List Frame) (g : Forest) :
    flat (add base frames g).base (add base frames g).frames =
      flat base frames ++ g.flatten (size base frames) := by
  cases frames with
  | nil => simp [add, flat, size]
  | cons fr frames => simp [add, flat, size]

lemma stack_add (base : Forest) (frames : List Frame) (g : Forest) :
    stack (add base frames g).base (add base frames g).frames = stack base frames := by
  cases frames with
  | nil => simp [add, stack]
  | cons fr frames => simp [add, stack]

end Zipper

/-- The forest of a list of entries. -/
def nestForest (xhtml : Bool) (es : List Entry) : Forest :=
  let z := Zipper.run xhtml ⟨.nil, []⟩ es
  Zipper.finish (unclosedType xhtml) z.base z.frames .nil

/-! ## The refinement -/

section Refinement

open Zipper

variable {e : Entry} {i : ℕ} {l r : List Entry}

/-- Changing the entry behind a known prefix. -/
lemma modify_append_cons (hi : i = l.length) (f : Entry → Entry) :
    (l ++ e :: r).modify i f = l ++ f e :: r := by
  subst hi
  induction l with
  | nil => rfl
  | cons a l ih => simpa using ih

/-- Reading the entry behind a known prefix. -/
lemma getElem?_append_cons (hi : i = l.length) :
    (l ++ e :: r)[i]? = some e := by
  subst hi
  simp

lemma nameAt_append_cons (hi : i = l.length) :
    nameAt (l ++ e :: r) i = e.tag.name := by
  simp [nameAt, getElem?_append_cons hi]

/-- Pairing the two ends of a stretch of the array. -/
lemma pairUp_append {l m r : List Entry} {o c : Entry} {top i : ℕ} (ht : top = l.length)
    (hi : i = l.length + 1 + m.length) :
    pairUp (l ++ o :: (m ++ c :: r)) top i = l ++ o.setPair i :: (m ++ c.setPair top :: r) := by
  have h1 : l ++ o :: (m ++ c :: r) = (l ++ o :: m) ++ c :: r := by simp
  have h2 : i = (l ++ o :: m).length := by
    simp
    omega
  rw [pairUp, h1, modify_append_cons h2]
  have h3 : (l ++ o :: m) ++ c.setPair top :: r = l ++ o :: (m ++ c.setPair top :: r) := by simp
  rw [h3, modify_append_cons ht]

/-- A closing tag in XHTML mode, on the array of a zipper. -/
lemma closeXhtml_flat (base : Forest) (frames : List Frame) (c : Entry) (r : List Entry) :
    closeXhtml (flat base frames ++ c :: r) (size base frames) (stack base frames) =
      (flat (Zipper.closeXhtml base c frames).base (Zipper.closeXhtml base c frames).frames ++ r,
        stack (Zipper.closeXhtml base c frames).base (Zipper.closeXhtml base c frames).frames) := by
  cases frames with
  | nil =>
    simp only [stack, closeXhtml, Zipper.closeXhtml, flat_add, stack_add]
    rw [modify_append_cons (by simp)]
    simp [Forest.flatten]
  | cons fr frames =>
    obtain ⟨o, seg⟩ := fr
    have harr : flat base ((o, seg) :: frames) ++ c :: r =
        flat base frames ++ o :: (seg.flatten (size base frames + 1) ++ c :: r) := by simp [flat]
    have hidx : size base ((o, seg) :: frames) =
        (flat base frames).length + 1 + (seg.flatten (size base frames + 1)).length := by
      simp [size]
    have ho : nameAt (flat base ((o, seg) :: frames) ++ c :: r) (size base frames) =
        o.tag.name := by
      rw [harr, nameAt_append_cons (by simp)]
    have hc : nameAt (flat base ((o, seg) :: frames) ++ c :: r) (size base ((o, seg) :: frames)) =
        c.tag.name := nameAt_append_cons (by simp)
    simp only [stack, closeXhtml, Zipper.closeXhtml, ho, hc]
    split_ifs with h
    · rw [harr, pairUp_append (by simp) hidx]
      simp [flat_add, stack_add, Forest.flatten, Zipper.size]
    · rw [modify_append_cons (by simp)]
      have harr' : flat base ((o, seg) :: frames) ++ c.setType .invalidData :: r =
          flat base frames ++ o :: (seg.flatten (size base frames + 1) ++
            c.setType .invalidData :: r) := by simp [flat]
      rw [harr', modify_append_cons (by simp)]
      simp [flat_add, stack_add, Forest.flatten]

/-- A closing tag in HTML mode, on the array of a zipper.  The induction is on the frames; what was
given up so far stands between the remaining frames and the closing tag. -/
lemma closeHtml_flat (base : Forest) (frames : List Frame) (acc : Forest) (c : Entry)
    (r : List Entry) :
    closeHtml (flat base frames ++ (acc.flatten (size base frames) ++ c :: r))
        (size base frames + acc.size) (stack base frames) =
      (flat (Zipper.closeHtml base c frames acc).base
        (Zipper.closeHtml base c frames acc).frames ++ r,
        stack (Zipper.closeHtml base c frames acc).base
          (Zipper.closeHtml base c frames acc).frames) := by
  induction frames generalizing acc with
  | nil =>
    simp only [stack, closeHtml, Zipper.closeHtml, flat_add, stack_add]
    rw [← List.append_assoc, modify_append_cons (by simp)]
    simp [Forest.flatten, size]
  | cons fr frames ih =>
    obtain ⟨o, seg⟩ := fr
    have harr : flat base ((o, seg) :: frames) ++
          (acc.flatten (size base ((o, seg) :: frames)) ++ c :: r) =
        flat base frames ++ o :: ((seg.append acc).flatten (size base frames + 1) ++ c :: r) := by
      simp [flat, size]
    have hidx : size base ((o, seg) :: frames) + acc.size = (flat base frames).length + 1 +
        ((seg.append acc).flatten (size base frames + 1)).length := by
      simp [size]
      omega
    have ho : nameAt (flat base ((o, seg) :: frames) ++
        (acc.flatten (size base ((o, seg) :: frames)) ++ c :: r)) (size base frames) =
          o.tag.name := by rw [harr, nameAt_append_cons (by simp)]
    have hc : nameAt (flat base ((o, seg) :: frames) ++
        (acc.flatten (size base ((o, seg) :: frames)) ++ c :: r))
          (size base ((o, seg) :: frames) + acc.size) = c.tag.name := by
      rw [← List.append_assoc, nameAt_append_cons (by simp)]
    simp only [stack, closeHtml, Zipper.closeHtml, ho, hc]
    split_ifs with h
    · rw [harr, pairUp_append (by simp) hidx, hidx]
      simp [flat_add, stack_add, Forest.flatten]
    · rw [harr, modify_append_cons (by simp)]
      have := ih (.leaf o .openAndCloseTagWithoutSlash (seg.append acc))
      rw [← this]
      congr 1
      simp [size, Forest.size]
      omega

/-- One round of the source, on the array of a zipper. -/
lemma nestingStep_flat (xhtml : Bool) (z : Zipper) (e : Entry) (r : List Entry) :
    nestingStep xhtml (flat z.base z.frames ++ e :: r, stack z.base z.frames)
        (size z.base z.frames) =
      (flat (z.step xhtml e).base (z.step xhtml e).frames ++ r,
        stack (z.step xhtml e).base (z.step xhtml e).frames) := by
  have hget : ((flat z.base z.frames ++ e :: r)[size z.base z.frames]?).map Entry.type =
      some e.type := by rw [getElem?_append_cons (by simp), Option.map_some]
  rw [nestingStep, hget, step]
  have hother : ∀ t, e.type = t → flat z.base z.frames ++ e :: r =
      flat (add z.base z.frames (.leaf e t .nil)).base (add z.base z.frames (.leaf e t .nil)).frames
        ++ r ∧ stack z.base z.frames = stack (add z.base z.frames (.leaf e t .nil)).base
          (add z.base z.frames (.leaf e t .nil)).frames := by
    rintro t rfl
    simp [flat_add, stack_add, Forest.flatten, Entry.setType]
  cases he : e.type with
  | closeTag =>
    cases xhtml with
    | true => exact closeXhtml_flat z.base z.frames e r
    | false =>
      have := closeHtml_flat z.base z.frames .nil e r
      simpa [Forest.flatten, Forest.size] using this
  | openTag => simp [flat, stack, Forest.flatten]
  | _ => exact Prod.ext (hother _ he).1 (hother _ he).2

/-- The number of entries read grows by one. -/
lemma size_step (xhtml : Bool) (z : Zipper) (e : Entry) :
    size (z.step xhtml e).base (z.step xhtml e).frames = size z.base z.frames + 1 := by
  have h := congrArg (fun q => q.1.length) (nestingStep_flat xhtml z e [])
  simp only [List.append_nil, length_flat] at h
  rw [← h]
  have hlen : ∀ (p : List Entry) (i : ℕ) (st : List ℕ), (closeHtml p i st).1.length = p.length := by
    intro p i st
    induction st generalizing p with
    | nil => simp [closeHtml]
    | cons top st ih =>
      rw [closeHtml]
      split_ifs
      · simp [pairUp]
      · simp [ih]
  have hlen' : ∀ (p : List Entry) (i : ℕ) (st : List ℕ),
      (closeXhtml p i st).1.length = p.length := by
    intro p i st
    cases st with
    | nil => simp [closeXhtml]
    | cons top st =>
      rw [closeXhtml]
      split_ifs <;> simp [pairUp]
  rw [nestingStep]
  split
  · split_ifs <;> simp [hlen, hlen']
  · simp
  · simp

/-- The loop of the source, on the array of a zipper. -/
lemma foldl_nestingStep (xhtml : Bool) (es : List Entry) (z : Zipper) :
    (List.range' (size z.base z.frames) es.length).foldl (nestingStep xhtml)
        (flat z.base z.frames ++ es, stack z.base z.frames) =
      (flat (z.run xhtml es).base (z.run xhtml es).frames,
        stack (z.run xhtml es).base (z.run xhtml es).frames) := by
  induction es generalizing z with
  | nil => simp [run]
  | cons e es ih =>
    rw [List.length_cons, List.range'_succ, List.foldl_cons,
      nestingStep_flat, ← size_step xhtml z e, ih]
    rfl

/-- Retyping the entries still open, on the array of a zipper. -/
lemma foldl_unclosed (t : HtmlDataType) (base : Forest) (frames : List Frame) (acc : Forest) :
    (stack base frames).foldl (fun p top => p.modify top fun e => e.setType t)
        (flat base frames ++ acc.flatten (size base frames)) =
      (finish t base frames acc).flatten 0 := by
  induction frames generalizing acc with
  | nil => simp [stack, finish, flat, size]
  | cons fr frames ih =>
    obtain ⟨o, seg⟩ := fr
    rw [finish, ← ih, stack, List.foldl_cons]
    congr 1
    have harr : flat base ((o, seg) :: frames) ++ acc.flatten (size base ((o, seg) :: frames)) =
        flat base frames ++ o :: (seg.append acc).flatten (size base frames + 1) := by
      simp [flat, size]
    rw [harr, modify_append_cons (by simp)]
    simp [Forest.flatten]

/-- The array left by `validate_nesting` is the forest of the entries, from left to right. -/
theorem validateNesting_eq (es : List Entry) (xhtml : Bool) :
    validateNesting es xhtml = (nestForest xhtml es).flatten 0 := by
  have h := foldl_nestingStep xhtml es ⟨.nil, []⟩
  simp only [Zipper.size, Forest.size, flat, Forest.flatten, stack, List.nil_append] at h
  rw [validateNesting, List.range_eq_range', h]
  have := foldl_unclosed (unclosedType xhtml) (run xhtml ⟨.nil, []⟩ es).base
    (run xhtml ⟨.nil, []⟩ es).frames .nil
  simpa [Forest.flatten, nestForest] using this

end Refinement

/-! ## What the forest looks like -/

/-- The type of an entry that is not part of a pair. -/
def leafType (xhtml : Bool) : HtmlDataType → HtmlDataType
  | .openTag => unclosedType xhtml
  | .closeTag => .invalidData
  | t => t

/-- Leaves have the type of unpaired entries, and nodes are opening and closing tags of one name. -/
def Forest.WellPaired (xhtml : Bool) : Forest → Prop
  | .nil => True
  | .leaf e t f => t = leafType xhtml e.type ∧ f.WellPaired xhtml
  | .node o b c f => o.type = .openTag ∧ c.type = .closeTag ∧
      asciiStreq o.tag.name c.tag.name xhtml = true ∧ b.WellPaired xhtml ∧ f.WellPaired xhtml

variable {xhtml : Bool}

@[simp] lemma Forest.wellPaired_append (f g : Forest) :
    (f.append g).WellPaired xhtml ↔ f.WellPaired xhtml ∧ g.WellPaired xhtml := by
  induction f with
  | nil => simp [append, WellPaired]
  | leaf e t f ih => simp [append, WellPaired, ih, and_assoc]
  | node o b c f _ ih => simp [append, WellPaired, ih, and_assoc]

namespace Zipper

/-- The frames hold opening tags, and what has been read is well paired. -/
def WellPaired (xhtml : Bool) (z : Zipper) : Prop :=
  z.base.WellPaired xhtml ∧ ∀ fr ∈ z.frames, fr.1.type = .openTag ∧ fr.2.WellPaired xhtml

/-- The entries read, as they were. -/
def toList (base : Forest) : List Frame → List Entry
  | [] => base.toList
  | (o, seg) :: frames => toList base frames ++ o :: seg.toList

variable {base : Forest} {frames : List Frame} {c : Entry} {z : Zipper}

lemma wellPaired_add {g : Forest} (h : WellPaired xhtml ⟨base, frames⟩) (hg : g.WellPaired xhtml) :
    WellPaired xhtml (add base frames g) := by
  obtain ⟨hb, hf⟩ := h
  cases frames with
  | nil => exact ⟨(Forest.wellPaired_append _ _).mpr ⟨hb, hg⟩, by simp [add]⟩
  | cons fr frames =>
    obtain ⟨o, seg⟩ := fr
    refine ⟨hb, fun fr hfr => ?_⟩
    rcases List.mem_cons.mp hfr with rfl | hfr
    · have := hf (o, seg) (by simp)
      exact ⟨this.1, (Forest.wellPaired_append _ _).mpr ⟨this.2, hg⟩⟩
    · exact hf fr (by simp [hfr])

lemma toList_add (base : Forest) (frames : List Frame) (g : Forest) :
    toList (add base frames g).base (add base frames g).frames =
      toList base frames ++ g.toList := by
  cases frames with
  | nil => simp [add, toList]
  | cons fr frames => simp [add, toList]

lemma WellPaired.of_cons {fr : Frame} (h : WellPaired xhtml ⟨base, fr :: frames⟩) :
    WellPaired xhtml ⟨base, frames⟩ ∧ fr.1.type = .openTag ∧ fr.2.WellPaired xhtml :=
  ⟨⟨h.1, fun fr' hfr => h.2 fr' (by simp [hfr])⟩, h.2 fr (by simp)⟩

lemma wellPaired_closeXhtml (hc : c.type = .closeTag) (h : WellPaired true ⟨base, frames⟩) :
    WellPaired true (closeXhtml base c frames) ∧
      toList (closeXhtml base c frames).base (closeXhtml base c frames).frames =
        toList base frames ++ [c] := by
  cases frames with
  | nil =>
    refine ⟨wellPaired_add h ?_, by simp [closeXhtml, toList_add, Forest.toList]⟩
    simp [Forest.WellPaired, hc, leafType]
  | cons fr frames =>
    obtain ⟨o, seg⟩ := fr
    obtain ⟨h', ho, hseg⟩ := h.of_cons
    rw [closeXhtml]
    split_ifs with hs
    · refine ⟨wellPaired_add h' ?_, by simp [toList_add, toList, Forest.toList]⟩
      exact ⟨ho, hc, hs, hseg, trivial⟩
    · refine ⟨wellPaired_add h' ?_, by simp [toList_add, toList, Forest.toList]⟩
      simp only at ho hseg
      simp [Forest.WellPaired, hc, ho, leafType, unclosedType, hseg]

lemma wellPaired_closeHtml (hc : c.type = .closeTag) (h : WellPaired false ⟨base, frames⟩)
    (acc : Forest) (hacc : acc.WellPaired false) :
    WellPaired false (closeHtml base c frames acc) ∧
      toList (closeHtml base c frames acc).base (closeHtml base c frames acc).frames =
        toList base frames ++ (acc.toList ++ [c]) := by
  induction frames generalizing acc with
  | nil =>
    refine ⟨wellPaired_add h ?_, by simp [closeHtml, toList_add, Forest.toList]⟩
    simp [Forest.WellPaired, hc, leafType, hacc]
  | cons fr frames ih =>
    obtain ⟨o, seg⟩ := fr
    obtain ⟨h', ho, hseg⟩ := h.of_cons
    simp only at ho hseg
    rw [closeHtml]
    split_ifs with hs
    · refine ⟨wellPaired_add h' ?_, by simp [toList_add, toList, Forest.toList]⟩
      exact ⟨ho, hc, hs, (Forest.wellPaired_append _ _).mpr ⟨hseg, hacc⟩, trivial⟩
    · have := ih h' (.leaf o .openAndCloseTagWithoutSlash (seg.append acc))
        ⟨by simp [ho, leafType, unclosedType], (Forest.wellPaired_append _ _).mpr ⟨hseg, hacc⟩⟩
      refine ⟨this.1, ?_⟩
      rw [this.2]
      simp [toList, Forest.toList]

lemma wellPaired_step (h : WellPaired xhtml z) (e : Entry) :
    WellPaired xhtml (z.step xhtml e) ∧
      toList (z.step xhtml e).base (z.step xhtml e).frames = toList z.base z.frames ++ [e] := by
  have hother : ∀ t, e.type = t → t ≠ .openTag → t ≠ .closeTag →
      WellPaired xhtml (add z.base z.frames (.leaf e t .nil)) ∧
      toList (add z.base z.frames (.leaf e t .nil)).base
        (add z.base z.frames (.leaf e t .nil)).frames = toList z.base z.frames ++ [e] := by
    rintro t rfl h1 h2
    refine ⟨wellPaired_add h ⟨?_, trivial⟩, by simp [toList_add, Forest.toList]⟩
    cases ht : e.type <;> simp_all [leafType]
  rw [step]
  cases he : e.type with
  | closeTag =>
    cases xhtml with
    | true => exact wellPaired_closeXhtml he h
    | false =>
      have := wellPaired_closeHtml he h .nil trivial
      simpa [Forest.toList] using this
  | openTag =>
    refine ⟨⟨h.1, fun fr hfr => ?_⟩, by simp [toList, Forest.toList]⟩
    rcases List.mem_cons.mp hfr with rfl | hfr
    · exact ⟨he, trivial⟩
    · exact h.2 fr hfr
  | _ => exact hother _ he (by decide) (by decide)

lemma wellPaired_run (h : WellPaired xhtml z) (es : List Entry) :
    WellPaired xhtml (z.run xhtml es) ∧
      toList (z.run xhtml es).base (z.run xhtml es).frames = toList z.base z.frames ++ es := by
  induction es generalizing z with
  | nil => simpa [run] using h
  | cons e es ih =>
    obtain ⟨h', htl⟩ := wellPaired_step h e
    have := ih h'
    rw [htl, List.append_assoc] at this
    exact this

lemma wellPaired_finish (base : Forest) (frames : List Frame) (h : WellPaired xhtml ⟨base, frames⟩)
    (acc : Forest) (hacc : acc.WellPaired xhtml) :
    (finish (unclosedType xhtml) base frames acc).WellPaired xhtml ∧
      (finish (unclosedType xhtml) base frames acc).toList =
        toList base frames ++ acc.toList := by
  induction frames generalizing acc with
  | nil => exact ⟨(Forest.wellPaired_append _ _).mpr ⟨h.1, hacc⟩, by simp [finish, toList]⟩
  | cons fr frames ih =>
    obtain ⟨o, seg⟩ := fr
    obtain ⟨h', ho, hseg⟩ := h.of_cons
    simp only at ho hseg
    have := ih h' (.leaf o (unclosedType xhtml) (seg.append acc))
      ⟨by simp [ho, leafType], (Forest.wellPaired_append _ _).mpr ⟨hseg, hacc⟩⟩
    refine ⟨this.1, ?_⟩
    rw [finish, this.2]
    simp [toList, Forest.toList]

end Zipper

/-- The empty zipper. -/
lemma Zipper.wellPaired_nil (xhtml : Bool) : Zipper.WellPaired xhtml ⟨.nil, []⟩ :=
  ⟨trivial, by simp⟩

/-- The forest of a list of entries is well paired. -/
theorem nestForest_wellPaired (xhtml : Bool) (es : List Entry) :
    (nestForest xhtml es).WellPaired xhtml := by
  have h := Zipper.wellPaired_run (Zipper.wellPaired_nil xhtml) es
  exact (Zipper.wellPaired_finish _ _ h.1 .nil trivial).1

/-- The forest of a list of entries has these entries, in their order. -/
theorem nestForest_toList (xhtml : Bool) (es : List Entry) : (nestForest xhtml es).toList = es := by
  have h := Zipper.wellPaired_run (Zipper.wellPaired_nil xhtml) es
  have := (Zipper.wellPaired_finish (Zipper.run xhtml ⟨.nil, []⟩ es).base
    (Zipper.run xhtml ⟨.nil, []⟩ es).frames h.1 .nil trivial).2
  rw [h.2] at this
  simpa [nestForest, Zipper.toList, Forest.toList] using this

end Xss

end Cppcms
