import Cppcms.Library.Forest
import Cppcms.Library.Machine

/-!
# Forms and widgets

A `form` has a list of elements, which are widgets and other forms, and every element knows the form
that it was added to.  `render` and `load` reach the widgets by recursion; the iterator of a form
reaches them with a stack of the positions to go on from, and goes up through the parents.
-/

namespace Cppcms

namespace Form

/-- The forms and the widgets; a widget is a leaf. -/
abbrev Forms := Forest ℕ ℕ

/-- What is added to a form.  `attach` adds the element in the same way, and only says that the form
owns it. -/
inductive Change where
  | add (form : ℕ) (element : Child ℕ ℕ)
  | attach (form : ℕ) (element : Child ℕ ℕ)

namespace Change

def form : Change → ℕ
  | add f _ => f
  | attach f _ => f

def element : Change → Child ℕ ℕ
  | add _ e => e
  | attach _ e => e

def step (h : Forms) (c : Change) : Forms := h.attach c.form c.element

/-- An element is added once, and no form below itself. -/
def Allowed (h : Forms) (c : Change) : Prop :=
  h.parent c.element = none ∧ ∀ g, c.element = .node g → ¬ h.Within c.form g

end Change

/-- The widgets that `render`, `load` and the others reach by recursion, in order. -/
def reach (h : Forms) (fuel f : ℕ) : Option (List ℕ) := h.leaves fuel f

/-! ## The iterator -/

/-- `form::iterator`; the first return position is the one on top. -/
structure Iterator where
  returnPositions : List ℕ
  current : Option ℕ
  offset : ℕ
  deriving DecidableEq

namespace Iterator

/-- `form::end`. -/
def atEnd : Iterator := ⟨[], none, 0⟩

/-- The constructor from a form, before it calls `next`. -/
def start (f : ℕ) : Iterator := ⟨[], some f, 0⟩

/-- The loop of `next`. -/
def next (h : Forms) : ℕ → Iterator → Option Iterator
  | 0, _ => none
  | fuel + 1, it =>
    match it.current with
    | none => some it
    | some f =>
      match (h.children f)[it.offset]? with
      | none =>
        match it.returnPositions with
        | [] => some { it with current := none, offset := 0 }
        | p :: ps => next h fuel ⟨ps, h.parent (.node f), p⟩
      | some (.leaf _) => some { it with offset := it.offset + 1 }
      | some (.node g) => next h fuel ⟨(it.offset + 1) :: it.returnPositions, some g, 0⟩

/-- `get`: the element before the offset. -/
def get (h : Forms) (it : Iterator) : Option ℕ :=
  it.current.bind fun f =>
    match (h.children f)[it.offset - 1]? with
    | some (.leaf w) => some w
    | _ => none

/-- The loop of a caller from where the iterator is to `end`. -/
def visit (h : Forms) : ℕ → Iterator → Option (List ℕ)
  | 0, _ => none
  | fuel + 1, it =>
    if it = atEnd then some []
    else do
      let w ← it.get h
      let it ← it.next h fuel
      let ws ← visit h fuel it
      return w :: ws

end Iterator

/-- The widgets between `begin` and `end` of a form. -/
def traverse (h : Forms) (fuel f : ℕ) : Option (List ℕ) := do
  let it ← (Iterator.start f).next h fuel
  it.visit h fuel

/-! ## Walks -/

namespace Iterator

variable {h : Forms} {it it' : Iterator} {f g k p w : ℕ} {ps ws ws' : List ℕ}

variable {n n' : ℕ}

lemma next_mono (hn : n ≤ n') (hnext : it.next h n = some it') : it.next h n' = some it' := by
  induction n generalizing n' it with
  | zero => cases hnext
  | succ n ih =>
    rcases n' with _ | n'
    · exact absurd hn (Nat.not_succ_le_zero _)
    · have hle := Nat.le_of_succ_le_succ hn
      unfold next at hnext ⊢
      split at hnext
      · exact hnext
      · split at hnext
        · split at hnext
          · exact hnext
          · exact ih hle hnext
        · exact hnext
        · exact ih hle hnext

lemma visit_mono (hn : n ≤ n') (hvisit : it.visit h n = some ws) : it.visit h n' = some ws := by
  induction n generalizing n' it ws with
  | zero => cases hvisit
  | succ n ih =>
    rcases n' with _ | n'
    · exact absurd hn (Nat.not_succ_le_zero _)
    · have hle := Nat.le_of_succ_le_succ hn
      unfold visit at hvisit ⊢
      split_ifs at hvisit ⊢
      · exact hvisit
      · rcases Option.bind_eq_some_iff.1 hvisit with ⟨w, hget, hvisit⟩
        rcases Option.bind_eq_some_iff.1 hvisit with ⟨it', hnext, hvisit⟩
        rcases Option.bind_eq_some_iff.1 hvisit with ⟨ws', hws', heq⟩
        rw [hget, Option.bind_eq_bind, Option.bind_some, next_mono hle hnext, Option.bind_eq_bind,
          Option.bind_some, ih hle hws']
        exact heq

/-- The widgets that are visited once the iterator has been moved. -/
def Walks (h : Forms) (it : Iterator) (ws : List ℕ) : Prop :=
  ∃ n it', it.next h n = some it' ∧ it'.visit h n = some ws

/-- A widget is visited, and the iterator is behind it. -/
lemma Walks.leaf (hw : (h.children f)[k]? = some (.leaf w))
    (hrest : Walks h ⟨ps, some f, k + 1⟩ ws) :
    Walks h ⟨ps, some f, k⟩ (w :: ws) := by
  rcases hrest with ⟨n, it', hnext, hvisit⟩
  have hne : (⟨ps, some f, k + 1⟩ : Iterator) ≠ atEnd := fun heq => by cases heq
  refine ⟨n + 1, ⟨ps, some f, k + 1⟩, ?_, ?_⟩
  · unfold next
    dsimp only
    rw [hw]
  · have hget : get h ⟨ps, some f, k + 1⟩ = some w := by
      unfold get
      rw [Option.bind_some, Nat.add_sub_cancel, hw]
    rw [visit, if_neg hne, hget, Option.bind_eq_bind, Option.bind_some, hnext, Option.bind_eq_bind,
      Option.bind_some, hvisit]
    rfl

/-- The iterator goes into a form. -/
lemma Walks.node (hg : (h.children f)[k]? = some (.node g))
    (hrest : Walks h ⟨(k + 1) :: ps, some g, 0⟩ ws) :
    Walks h ⟨ps, some f, k⟩ ws := by
  rcases hrest with ⟨n, it', hnext, hvisit⟩
  refine ⟨n + 1, it', ?_, visit_mono (Nat.le_succ n) hvisit⟩
  rw [next]
  dsimp only
  rw [hg]
  exact hnext

/-- The iterator goes up behind the last element of a form. -/
lemma Walks.up (hk : (h.children f)[k]? = none) (hparent : h.parent (.node f) = some g)
    (hrest : Walks h ⟨ps, some g, p⟩ ws) : Walks h ⟨p :: ps, some f, k⟩ ws := by
  rcases hrest with ⟨n, it', hnext, hvisit⟩
  refine ⟨n + 1, it', ?_, visit_mono (Nat.le_succ n) hvisit⟩
  rw [next]
  dsimp only
  rw [hk]
  dsimp only
  rw [hparent]
  exact hnext

/-- Behind the last element of the form that it started in the iterator ends. -/
lemma Walks.done (hk : (h.children f)[k]? = none) : Walks h ⟨[], some f, k⟩ [] := by
  refine ⟨1, atEnd, ?_, rfl⟩
  rw [next]
  dsimp only
  rw [hk]
  rfl

/-- The iterator visits the widgets that the recursion reaches, and goes on as it does behind the
form. -/
lemma walks_of_reach (hh : h.Sound) {n : ℕ} (hreach : reach h n f = some ws)
    (hrest : Walks h ⟨ps, some f, (h.children f).length⟩ ws') :
    Walks h ⟨ps, some f, 0⟩ (ws ++ ws') := by
  induction n generalizing f ps ws ws' with
  | zero => cases hreach
  | succ n ih =>
    have hlist : ∀ (cs ds : List (Child ℕ ℕ)) (ws : List ℕ), h.children f = ds ++ cs →
        Forest.listLeaves (h.leaves n) cs = some ws →
        Walks h ⟨ps, some f, ds.length⟩ (ws ++ ws') := by
      intro cs
      induction cs with
      | nil =>
        intro ds ws heq hws
        cases hws
        rw [heq, List.append_nil] at hrest
        exact hrest
      | cons c cs ihcs =>
        intro ds ws heq hws
        rcases Forest.listLeaves_cons_eq_some.1 hws with ⟨l₁, l₂, hc, hcs, rfl⟩
        have hget : (h.children f)[ds.length]? = some c := by
          rw [heq, List.getElem?_append_right (Nat.le_refl _), Nat.sub_self]
          rfl
        have hnext := ihcs (ds ++ [c]) l₂ (by rw [heq, List.append_assoc]; rfl) hcs
        rw [List.length_append, List.length_singleton] at hnext
        cases c with
        | leaf w =>
          cases hc
          exact .leaf hget hnext
        | node g =>
          have hparent := (hh.mem_children_iff f (.node g)).1 (List.mem_of_getElem? hget)
          rw [List.append_assoc]
          exact .node hget (ih hc (.up (List.getElem?_eq_none (Nat.le_refl _)) hparent hnext))
    exact hlist (h.children f) [] ws rfl hreach

end Iterator

/-! ## Traversals -/

lemma sound_foldl {changes : List Change}
    (hchanges : Machine.Obeys Change.step Change.Allowed Forest.empty changes) :
    (changes.foldl Change.step Forest.empty).Sound :=
  Machine.invariant_foldl (fun _ _ hh hc => hh.attach hc.1 hc.2) Forest.sound_empty hchanges

/-- In every sound forest the iterator visits what the recursion reaches. -/
lemma traverse_eq_reach {h : Forms} (hh : h.Sound) (f : ℕ) :
    ∃ n ws, ∀ m, n ≤ m → reach h m f = some ws ∧ traverse h m f = some ws := by
  rcases hh.exists_leaves f with ⟨n, ws, hreach⟩
  have hwalks : Iterator.Walks h ⟨[], some f, 0⟩ (ws ++ []) :=
    Iterator.walks_of_reach hh hreach (.done (List.getElem?_eq_none (Nat.le_refl _)))
  rw [List.append_nil] at hwalks
  rcases hwalks with ⟨n', it, hnext, hvisit⟩
  refine ⟨max n n', ws, fun m hm =>
    ⟨Forest.leaves_mono ((Nat.le_max_left _ _).trans hm) hreach, ?_⟩⟩
  have hle := (Nat.le_max_right n n').trans hm
  unfold traverse
  rw [show (Iterator.start f).next h m = some it from Iterator.next_mono hle hnext]
  exact Iterator.visit_mono hle hvisit

/-- From `begin` to `end` of a form come the widgets below it, each of them once, in the order in
which they are rendered and loaded. -/
theorem traverse_eq {changes : List Change}
    (hchanges : Machine.Obeys Change.step Change.Allowed Forest.empty changes) (f : ℕ) :
    ∃ n ws, (∀ m, n ≤ m → reach (changes.foldl Change.step Forest.empty) m f = some ws ∧
        traverse (changes.foldl Change.step Forest.empty) m f = some ws) ∧
      ws.Nodup ∧ ∀ w, w ∈ ws ↔ (changes.foldl Change.step Forest.empty).LeafBelow w f := by
  have hsound := sound_foldl hchanges
  rcases traverse_eq_reach hsound f with ⟨n, ws, hws⟩
  have hleaves := (hws n (Nat.le_refl n)).1
  exact ⟨n, ws, hws, hsound.nodup_leaves hleaves, fun w => hsound.mem_leaves hleaves⟩

/-- A form in another one, with a widget in each of them. -/
def sampleChanges : List Change := [.add 1 (.leaf 0), .attach 0 (.node 1), .add 0 (.leaf 1)]

theorem traverse_eq_sample : Machine.Obeys Change.step Change.Allowed Forest.empty sampleChanges ∧
    ∃ n, ∀ m, n ≤ m → traverse (sampleChanges.foldl Change.step Forest.empty) m 0 =
      some [0, 1] := by
  have hchanges : Machine.Obeys Change.step Change.Allowed Forest.empty sampleChanges := by
    refine ⟨⟨rfl, fun g heq => by cases heq⟩, ⟨rfl, ?_⟩, ⟨rfl, fun g heq => by cases heq⟩, trivial⟩
    intro g heq hwithin
    cases heq
    rcases Relation.ReflTransGen.cases_head hwithin with heq | ⟨j, hj, -⟩
    · cases heq
    · cases hj
  obtain ⟨n, ws, hws, -⟩ := traverse_eq hchanges 0
  have hreach : reach (sampleChanges.foldl Change.step Forest.empty) (max n 5) 0 = some [0, 1] :=
    Forest.leaves_mono (Nat.le_max_right n 5) (by decide)
  obtain rfl : ws = [0, 1] := Option.some.inj ((hws _ (Nat.le_max_left n 5)).1.symm.trans hreach)
  exact ⟨hchanges, n, fun m hm => (hws m hm).2⟩

end Form

end Cppcms
