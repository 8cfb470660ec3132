import Cppcms.Base.Numbers
import Cppcms.Form.Traversal

/-!
# Generated names

A widget that the user gave no name gets one when it is rendered or loaded first.  `auto_generate`
then goes over the whole tree of the widget and makes the names out of the positions, of those
widgets that have none; a name is kept from then on, while the tree may grow and move the widgets.
-/

namespace Cppcms

namespace Form

/-- The forms and widgets with `name_` and `is_generation_done_` of the widgets. -/
structure World where
  forms : Forms
  name : ℕ → Bytes
  generated : ℕ → Bool

namespace World

/-- Nothing was added, and the user named no widget. -/
def init : World := ⟨Forest.empty, fun _ => [], fun _ => false⟩

/-- The name for a position. -/
def generatedName (position : ℕ) : Bytes := bytes "_" ++ showNat position

/-- `base_widget::generate`. -/
def generate (s : World) (position w : ℕ) : World :=
  if s.generated w then s
  else { s with
    name := Function.update s.name w (if s.name w = [] then generatedName position else s.name w)
    generated := Function.update s.generated w true }

/-- The loop of `auto_generate` that goes up to the top of the tree. -/
def top (h : Forms) : ℕ → ℕ → Option ℕ
  | 0, _ => none
  | fuel + 1, f =>
    match h.parent (.node f) with
    | none => some f
    | some g => top h fuel g

/-- The loop of `auto_generate` over the widgets. -/
def generateFrom : ℕ → Iterator → ℕ → World → Option World
  | 0, _, _, _ => none
  | fuel + 1, it, i, s =>
    if it = .atEnd then some s
    else do
      let w ← it.get s.forms
      let it ← it.next s.forms fuel
      generateFrom fuel it (i + 1) (s.generate i w)

/-- `auto_generate`. -/
def autoGenerate (fuel : ℕ) (s : World) (w : ℕ) : Option World :=
  if s.generated w then some s
  else
    match s.forms.parent (.leaf w) with
    | none => some (s.generate 1 w)
    | some f => do
      let t ← top s.forms fuel f
      let it ← (Iterator.start t).next s.forms fuel
      generateFrom fuel it 1 s

end World

/-- What is done to the forms and widgets. -/
inductive Op where
  | change (c : Change)
  | renderWidget (w : ℕ)
  | loadWidget (w : ℕ)
  | renderForm (f : ℕ)
  | loadForm (f : ℕ)

/-- Rendering and loading do the same to the names: of a form, one widget after the other. -/
def World.step (fuel : ℕ) (s : World) : Op → Option World
  | .change c => some { s with forms := c.step s.forms }
  | .renderWidget w => s.autoGenerate fuel w
  | .loadWidget w => s.autoGenerate fuel w
  | .renderForm f => (reach s.forms fuel f).bind fun ws => ws.foldlM (World.autoGenerate fuel) s
  | .loadForm f => (reach s.forms fuel f).bind fun ws => ws.foldlM (World.autoGenerate fuel) s

/-- An operation ends and leaves a state behind. -/
def Steps (s : World) (op : Op) (s' : World) : Prop := ∃ fuel, s.step fuel op = some s'

/-- A state of a run in which the operations are as a condition says. -/
inductive Reaches (P : World → Op → Prop) : World → Prop
  | init : Reaches P .init
  | step {s s' : World} (op : Op) : Reaches P s → P s op → Steps s op s' → Reaches P s'

/-- An element is added once, and no form below itself. -/
def Op.Allowed (s : World) : Op → Prop
  | change c => c.Allowed s.forms
  | _ => True

/-- The position of a widget in its whole tree. -/
def At (h : Forms) (w i : ℕ) : Prop :=
  (h.parent (.leaf w) = none ∧ i = 1) ∨
    ∃ t n ws k, h.IsRoot t ∧ reach h n t = some ws ∧ ws[k]? = some w ∧ i = k + 1

/-- An operation that moves no widget with a generated name to another position. -/
def Op.Settled (s : World) (op : Op) : Prop :=
  op.Allowed s ∧ ∀ c, op = .change c → ∀ w i, s.generated w = true → At s.forms w i →
    At (c.step s.forms) w i

/-- Two widgets of one tree. -/
def SameTree (h : Forms) (v w : ℕ) : Prop := ∃ f, h.LeafBelow v f ∧ h.LeafBelow w f

/-- The generated names of a tree are distinct. -/
def World.Distinct (s : World) : Prop :=
  ∀ v w, s.generated v = true → s.generated w = true → SameTree s.forms v w →
    s.name v = s.name w → v = w

/-- No generated name is changed. -/
def World.Kept (s s' : World) : Prop :=
  ∀ w, s.generated w = true → s'.generated w = true ∧ s'.name w = s.name w

/-! ## Fuel -/

namespace World

variable {s s' : World} {h : Forms} {n n' : ℕ}

lemma top_mono (hn : n ≤ n') {f t : ℕ} (htop : top h n f = some t) : top h n' f = some t := by
  induction n generalizing n' f with
  | zero => cases htop
  | succ n ih =>
    rcases n' with _ | n'
    · exact absurd hn (Nat.not_succ_le_zero _)
    · unfold top at htop ⊢
      split at htop
      · exact htop
      · exact ih (Nat.le_of_succ_le_succ hn) htop

variable {it : Iterator} {ws : List ℕ}

lemma generateFrom_mono (hn : n ≤ n') {i : ℕ} (hgen : generateFrom n it i s = some s') :
    generateFrom n' it i s = some s' := by
  induction n generalizing n' it i s with
  | zero => cases hgen
  | succ n ih =>
    rcases n' with _ | n'
    · exact absurd hn (Nat.not_succ_le_zero _)
    · have hle := Nat.le_of_succ_le_succ hn
      unfold generateFrom at hgen ⊢
      split_ifs at hgen ⊢
      · exact hgen
      · rcases Option.bind_eq_some_iff.1 hgen with ⟨w, hget, hgen⟩
        rcases Option.bind_eq_some_iff.1 hgen with ⟨it', hnext, hgen⟩
        rw [hget, Option.bind_eq_bind, Option.bind_some, Iterator.next_mono hle hnext]
        exact ih hle hgen

lemma autoGenerate_mono (hn : n ≤ n') {w : ℕ} (hgen : s.autoGenerate n w = some s') :
    s.autoGenerate n' w = some s' := by
  unfold autoGenerate at hgen ⊢
  split_ifs at hgen ⊢
  · exact hgen
  · split at hgen
    · exact hgen
    · rcases Option.bind_eq_some_iff.1 hgen with ⟨t, htop, hgen⟩
      rcases Option.bind_eq_some_iff.1 hgen with ⟨it, hnext, hgen⟩
      rw [top_mono hn htop, Option.bind_eq_bind, Option.bind_some, Iterator.next_mono hn hnext]
      exact generateFrom_mono hn hgen

lemma foldlM_mono (hn : n ≤ n') (hgen : ws.foldlM (autoGenerate n) s = some s') :
    ws.foldlM (autoGenerate n') s = some s' := by
  induction ws generalizing s with
  | nil => exact hgen
  | cons w ws ih =>
    rw [List.foldlM_cons] at hgen ⊢
    rcases Option.bind_eq_some_iff.1 hgen with ⟨r, hr, hgen⟩
    rw [autoGenerate_mono hn hr]
    exact ih hgen

lemma step_mono (hn : n ≤ n') {op : Op} (hstep : s.step n op = some s') :
    s.step n' op = some s' := by
  have hform : ∀ f, ((reach s.forms n f).bind fun ws => ws.foldlM (autoGenerate n) s) = some s' →
      ((reach s.forms n' f).bind fun ws => ws.foldlM (autoGenerate n') s) = some s' := by
    intro f hf
    rcases Option.bind_eq_some_iff.1 hf with ⟨ws, hws, hgen⟩
    have hws' : reach s.forms n' f = some ws := Forest.leaves_mono hn hws
    rw [hws']
    exact foldlM_mono hn hgen
  cases op with
  | change c => exact hstep
  | renderWidget w => exact autoGenerate_mono hn hstep
  | loadWidget w => exact autoGenerate_mono hn hstep
  | renderForm f => exact hform f hstep
  | loadForm f => exact hform f hstep

/-! ## What is generated -/

/-- The widgets of a list get their names, from a position on. -/
def generateAll (s : World) : ℕ → List ℕ → World
  | _, [] => s
  | i, w :: ws => (s.generate i w).generateAll (i + 1) ws

lemma forms_generate (s : World) (i w : ℕ) : (s.generate i w).forms = s.forms := by
  unfold generate
  by_cases hw : s.generated w = true
  · rw [if_pos hw]
  · rw [if_neg hw]

/-- The loop generates the names of the widgets that the iterator visits. -/
lemma generateFrom_of_visit (hvisit : it.visit s.forms n = some ws) (i : ℕ) :
    generateFrom n it i s = some (s.generateAll i ws) := by
  induction n generalizing it ws i s with
  | zero => cases hvisit
  | succ n ih =>
    unfold Iterator.visit at hvisit
    unfold generateFrom
    split_ifs at hvisit ⊢
    · cases hvisit
      rfl
    · rcases Option.bind_eq_some_iff.1 hvisit with ⟨w, hget, hvisit⟩
      rcases Option.bind_eq_some_iff.1 hvisit with ⟨it', hnext, hvisit⟩
      rcases Option.bind_eq_some_iff.1 hvisit with ⟨ws', hws', heq⟩
      cases heq
      rw [hget, Option.bind_eq_bind, Option.bind_some, hnext, Option.bind_eq_bind, Option.bind_some]
      exact ih ((s.forms_generate i w).symm ▸ hws') (i + 1)

lemma generated_generate (s : World) (i v w : ℕ) :
    (s.generate i w).generated v = true ↔ s.generated v = true ∨ v = w := by
  unfold generate
  by_cases hw : s.generated w = true
  · rw [if_pos hw]
    constructor
    · exact .inl
    · rintro (h | rfl)
      · exact h
      · exact hw
  · rw [if_neg hw]
    show Function.update s.generated w true v = true ↔ _
    rw [Function.update_apply]
    split_ifs with hv
    · exact iff_of_true rfl (.inr hv)
    · rw [or_iff_left hv]

/-- The names of the others stay. -/
lemma name_generate {i v w : ℕ} (h : s.generated v = true ∨ v ≠ w) :
    (s.generate i w).name v = s.name v := by
  unfold generate
  by_cases hw : s.generated w = true
  · rw [if_pos hw]
  · rw [if_neg hw]
    show Function.update s.name w _ v = _
    apply Function.update_of_ne
    rintro rfl
    rcases h with h | h
    · exact hw h
    · exact h rfl

lemma name_generate_self {i w : ℕ} (hw : ¬ s.generated w = true) (hname : s.name w = []) :
    (s.generate i w).name w = generatedName i := by
  unfold generate
  rw [if_neg hw, if_pos hname]
  exact Function.update_self _ _ _

lemma forms_generateAll (s : World) (i : ℕ) (ws : List ℕ) :
    (s.generateAll i ws).forms = s.forms := by
  induction ws generalizing s i with
  | nil => rfl
  | cons w ws ih => exact (ih _ _).trans (forms_generate s i w)

lemma generated_generateAll (s : World) (i v : ℕ) (ws : List ℕ) :
    (s.generateAll i ws).generated v = true ↔ s.generated v = true ∨ v ∈ ws := by
  induction ws generalizing s i with
  | nil => exact (or_iff_left List.not_mem_nil).symm
  | cons w ws ih =>
    show ((s.generate i w).generateAll (i + 1) ws).generated v = true ↔ _
    rw [ih, generated_generate, List.mem_cons, or_assoc]

lemma name_generateAll {v : ℕ} (h : s.generated v = true ∨ v ∉ ws) (i : ℕ) :
    (s.generateAll i ws).name v = s.name v := by
  induction ws generalizing s i with
  | nil => rfl
  | cons w ws ih =>
    have hhead : s.generated v = true ∨ v ≠ w := h.imp_right fun hv heq =>
      hv (heq ▸ List.mem_cons_self)
    have htail : (s.generate i w).generated v = true ∨ v ∉ ws := by
      rw [generated_generate]
      rcases h with h | h
      · exact .inl (.inl h)
      · exact .inr fun hv => h (List.mem_cons_of_mem _ hv)
    exact (ih htail (i + 1)).trans (name_generate hhead)

/-- The new names are those of the positions. -/
lemma name_generateAll_new {v k : ℕ} (hws : ws.Nodup) (hk : ws[k]? = some v)
    (hv : ¬ s.generated v = true) (hname : s.name v = []) (i : ℕ) :
    (s.generateAll i ws).name v = generatedName (i + k) := by
  induction ws generalizing s i k with
  | nil => cases hk
  | cons w ws ih =>
    rw [List.nodup_cons] at hws
    show ((s.generate i w).generateAll (i + 1) ws).name v = _
    rcases k with _ | k
    · cases hk
      rw [name_generateAll (.inl ((generated_generate s i v v).2 (.inr rfl))),
        name_generate_self hv hname]
      rfl
    · have hmem : v ∈ ws := List.mem_of_getElem? (show ws[k]? = some v from hk)
      have hne : v ≠ w := fun heq => hws.1 (heq ▸ hmem)
      have hv' : ¬ (s.generate i w).generated v = true := by
        rw [generated_generate]
        exact fun h => h.elim hv hne
      rw [ih hws.2 hk hv' ((name_generate (.inr hne)).trans hname), Nat.add_assoc, Nat.add_comm 1 k]

end World

/-! ## Names and positions -/

namespace World

variable {s s' : World}

/-- Every generated name is that of the position. -/
structure Placed (s : World) : Prop where
  sound : s.forms.Sound
  placed : ∀ w, s.generated w = true → ∃ i, At s.forms w i ∧ s.name w = generatedName i
  unnamed : ∀ w, ¬ s.generated w = true → s.name w = []

lemma placed_init : init.Placed where
  sound := Forest.sound_empty
  placed _ h := by cases h
  unnamed _ _ := rfl

/-- The names of the widgets of a whole tree are generated. -/
lemma Placed.generateAll (hs : s.Placed) {t n : ℕ} {ws : List ℕ} (ht : s.forms.IsRoot t)
    (hws : reach s.forms n t = some ws) :
    (s.generateAll 1 ws).Placed ∧ s.Kept (s.generateAll 1 ws) := by
  have hnodup := hs.sound.nodup_leaves hws
  have hforms := s.forms_generateAll 1 ws
  constructor
  · constructor
    · rw [hforms]
      exact hs.sound
    · intro w hw
      rw [hforms]
      by_cases hold : s.generated w = true
      · rw [name_generateAll (.inl hold)]
        exact hs.placed w hold
      · rcases List.mem_iff_getElem?.1
          (((s.generated_generateAll 1 w ws).1 hw).resolve_left hold) with ⟨k, hk⟩
        refine ⟨k + 1, .inr ⟨t, n, ws, k, ht, hws, hk, rfl⟩, ?_⟩
        rw [name_generateAll_new hnodup hk hold (hs.unnamed w hold), Nat.add_comm]
    · intro w hw
      rw [generated_generateAll, not_or] at hw
      rw [name_generateAll (.inr hw.2)]
      exact hs.unnamed w hw.1
  · intro w hw
    exact ⟨(s.generated_generateAll 1 w ws).2 (.inl hw), name_generateAll (.inl hw) 1⟩

/-- A widget that is not in a form gets the name of the first position. -/
lemma Placed.generate (hs : s.Placed) {w : ℕ} (hw : s.forms.parent (.leaf w) = none) :
    (s.generate 1 w).Placed ∧ s.Kept (s.generate 1 w) := by
  have hforms := s.forms_generate 1 w
  constructor
  · constructor
    · rw [hforms]
      exact hs.sound
    · intro v hv
      rw [hforms]
      by_cases hold : s.generated v = true
      · rw [name_generate (.inl hold)]
        exact hs.placed v hold
      · obtain rfl := ((s.generated_generate 1 v w).1 hv).resolve_left hold
        exact ⟨1, .inl ⟨hw, rfl⟩, name_generate_self hold (hs.unnamed v hold)⟩
    · intro v hv
      rw [generated_generate, not_or] at hv
      rw [name_generate (.inr hv.2)]
      exact hs.unnamed v hv.1
  · intro v hv
    exact ⟨(s.generated_generate 1 v w).2 (.inl hv), name_generate (.inl hv)⟩

lemma Kept.trans {s'' : World} (h : s.Kept s') (h' : s'.Kept s'') : s.Kept s'' := by
  intro w hw
  have hmid := h w hw
  have hlast := h' w hmid.1
  exact ⟨hlast.1, hlast.2.trans hmid.2⟩

/-- The top of a tree is found. -/
lemma exists_top {h : Forms} {f t : ℕ} (hwithin : h.Within f t) (ht : h.IsRoot t) :
    ∃ n, top h n f = some t := by
  induction hwithin using Relation.ReflTransGen.head_induction_on with
  | refl =>
    refine ⟨1, ?_⟩
    unfold top
    rw [show h.parent (.node t) = none from ht]
  | head hstep _ ih =>
    rcases ih with ⟨n, hn⟩
    refine ⟨n + 1, ?_⟩
    unfold top
    rw [show h.parent (.node _) = some _ from hstep]
    exact hn

/-- `auto_generate` ends, keeps the names that there are and takes the new ones from the positions.
-/
lemma Placed.autoGenerate (hs : s.Placed) (w : ℕ) :
    ∃ n s', s.autoGenerate n w = some s' ∧ s'.forms = s.forms ∧ s'.Placed ∧ s.Kept s' := by
  unfold World.autoGenerate
  by_cases hw : s.generated w = true
  · exact ⟨0, s, if_pos hw, rfl, hs, fun _ h => ⟨h, rfl⟩⟩
  · simp only [if_neg hw]
    rcases hparent : s.forms.parent (.leaf w) with _ | f
    · exact ⟨0, _, rfl, s.forms_generate 1 w, hs.generate hparent⟩
    · rcases hs.sound.rooted f with ⟨t, hft, ht⟩
      rcases exists_top hft ht with ⟨n₁, hn₁⟩
      rcases traverse_eq_reach hs.sound t with ⟨n₂, ws, hws⟩
      have hle₁ := Nat.le_max_left n₁ n₂
      rcases hws _ (Nat.le_max_right n₁ n₂) with ⟨hreach, htraverse⟩
      rcases Option.bind_eq_some_iff.1 htraverse with ⟨it, hnext, hvisit⟩
      refine ⟨max n₁ n₂, s.generateAll 1 ws, ?_, s.forms_generateAll 1 ws, hs.generateAll ht hreach⟩
      dsimp only
      rw [top_mono hle₁ hn₁, Option.bind_eq_bind, Option.bind_some, hnext]
      exact generateFrom_of_visit hvisit 1

lemma Placed.foldlM (hs : s.Placed) (ws : List ℕ) :
    ∃ n s', ws.foldlM (World.autoGenerate n) s = some s' ∧ s'.forms = s.forms ∧
    s'.Placed ∧ s.Kept s' := by
  induction ws generalizing s with
  | nil => exact ⟨0, s, rfl, rfl, hs, fun _ h => ⟨h, rfl⟩⟩
  | cons w ws ih =>
    rcases hs.autoGenerate w with ⟨n₁, r, hr, hforms, hplaced, hkept⟩
    rcases ih hplaced with ⟨n₂, s', hs', hforms', hplaced', hkept'⟩
    refine ⟨max n₁ n₂, s', ?_, hforms'.trans hforms, hplaced', hkept.trans hkept'⟩
    rw [List.foldlM_cons, autoGenerate_mono (Nat.le_max_left _ _) hr]
    exact foldlM_mono (Nat.le_max_right _ _) hs'

/-- What an operation does that moves no widget with a generated name. -/
lemma Placed.step (hs : s.Placed) {op : Op} (hop : op.Settled s) :
    ∃ n s', s.step n op = some s' ∧ s'.Placed ∧ s.Kept s' := by
  have hwidget : ∀ w, ∃ n s', s.autoGenerate n w = some s' ∧ s'.Placed ∧ s.Kept s' := by
    intro w
    rcases hs.autoGenerate w with ⟨n, s', hs', -, h⟩
    exact ⟨n, s', hs', h⟩
  have hform : ∀ f, ∃ n s',
    ((reach s.forms n f).bind fun ws => ws.foldlM (World.autoGenerate n) s) = some s' ∧
      s'.Placed ∧ s.Kept s' := by
    intro f
    rcases hs.sound.exists_leaves f with ⟨n₁, ws, hws⟩
    rcases hs.foldlM ws with ⟨n₂, s', hs', -, h⟩
    refine ⟨max n₁ n₂, s', ?_, h⟩
    have hws' : reach s.forms (max n₁ n₂) f = some ws :=
      Forest.leaves_mono (Nat.le_max_left _ _) hws
    rw [hws']
    exact foldlM_mono (Nat.le_max_right _ _) hs'
  cases op with
  | change c =>
    refine ⟨0, { s with forms := c.step s.forms }, rfl, ?_, fun _ h => ⟨h, rfl⟩⟩
    refine ⟨hs.sound.attach hop.1.1 hop.1.2, ?_, hs.unnamed⟩
    intro w hw
    rcases hs.placed w hw with ⟨i, hi, hname⟩
    exact ⟨i, hop.2 c rfl w i hw hi, hname⟩
  | renderWidget w => exact hwidget w
  | loadWidget w => exact hwidget w
  | renderForm f => exact hform f
  | loadForm f => exact hform f

lemma Placed.of_steps (hs : s.Placed) {op : Op} (hop : op.Settled s) (hstep : Steps s op s') :
    s'.Placed ∧ s.Kept s' := by
  rcases hstep with ⟨n, hn⟩
  rcases hs.step hop with ⟨n', s'', hn', h⟩
  have heq :=
    (step_mono (Nat.le_max_left n n') hn).symm.trans (step_mono (Nat.le_max_right n n') hn')
  rw [Option.some.inj heq]
  exact h

lemma generatedName_injective {i j : ℕ} (h : generatedName i = generatedName j) : i = j := by
  have hnumber := congrArg leadingNumber (List.append_cancel_left h)
  rwa [leadingNumber_showNat, leadingNumber_showNat] at hnumber

/-- The positions of two widgets of one tree are counted in one list. -/
lemma Placed.distinct (hs : s.Placed) : s.Distinct := by
  rintro v w hv hw ⟨f, ⟨fv, hfv, hvf⟩, ⟨fw, hfw, hwf⟩⟩ hname
  rcases hs.placed v hv with ⟨i, hi, hvname⟩
  rcases hs.placed w hw with ⟨j, hj, hwname⟩
  obtain rfl := generatedName_injective (hvname.symm.trans (hname.trans hwname))
  rcases hi with ⟨hnone, -⟩ | ⟨t, n, ws, k, ht, hws, hk, rfl⟩
  · rw [hfv] at hnone
    cases hnone
  · rcases hj with ⟨hnone, -⟩ | ⟨t', n', ws', k', ht', hws', hk', heq⟩
    · rw [hfw] at hnone
      cases hnone
    · -- both tops are above the form that the widgets are in
      have hroot : ∀ {u r g m : ℕ}, s.forms.parent (.leaf u) = some g → s.forms.Within g m →
        s.forms.LeafBelow u r →
          s.forms.IsRoot r → s.forms.Within m r := by
        rintro u r g m hu hgm ⟨g', hg', hgr⟩ hr
        rw [hu] at hg'
        cases hg'
        rcases Forest.within_or_within hgm hgr with hwithin | hwithin
        · exact hwithin
        · rcases Relation.ReflTransGen.cases_head hwithin with rfl | ⟨x, hx, -⟩
          · exact Relation.ReflTransGen.refl
          · rw [Forest.Step, show s.forms.parent (.node r) = none from hr] at hx
            cases hx
      have hvt := hroot hfv hvf ((hs.sound.mem_leaves hws).1 (List.mem_of_getElem? hk)) ht
      have hwt := hroot hfw hwf ((hs.sound.mem_leaves hws').1 (List.mem_of_getElem? hk')) ht'
      have hroots : ∀ {a b : ℕ}, s.forms.Within a b → s.forms.IsRoot a → a = b := by
        intro a b hab ha
        rcases Relation.ReflTransGen.cases_head hab with heq | ⟨x, hx, -⟩
        · exact heq
        · rw [Forest.Step, show s.forms.parent (.node a) = none from ha] at hx
          cases hx
      have htt : t = t' := by
        rcases Forest.within_or_within hvt hwt with h | h
        · exact hroots h ht
        · exact (hroots h ht').symm
      subst htt
      have hsame : ws = ws' := Option.some.inj
        ((Forest.leaves_mono (Nat.le_max_left n n') hws).symm.trans
          (Forest.leaves_mono (Nat.le_max_right n n') hws'))
      have hkk : k = k' := Nat.succ.inj heq
      rw [hsame, hkk, hk'] at hk
      exact (Option.some.inj hk).symm

end World

lemma placed_of_reaches {s : World} (hs : Reaches Op.Settled s) : s.Placed := by
  induction hs with
  | init => exact World.placed_init
  | step _ _ hop hstep ih => exact (ih.of_steps hop hstep).1

/-- As long as no widget with a generated name is moved, the generated names of every tree are
distinct and stay, and every operation ends. -/
theorem generated_names {s : World} (hs : Reaches Op.Settled s) :
    s.Distinct ∧ ∀ op, op.Settled s → (∃ s', Steps s op s') ∧ ∀ s', Steps s op s' → s.Kept s' := by
  have hplaced := placed_of_reaches hs
  refine ⟨hplaced.distinct, ?_⟩
  intro op hop
  constructor
  · rcases hplaced.step hop with ⟨n, s', hn, -⟩
    exact ⟨s', n, hn⟩
  · intro s' hstep
    exact (hplaced.of_steps hop hstep).2

/-! ## Two runs -/

/-- The state behind additions. -/
def added (s : World) (changes : List Change) : World :=
  { s with forms := changes.foldl Change.step s.forms }

/-- A form with a widget that was rendered. -/
def rendered : World := (added .init [.add 0 (.leaf 0)]).generate 1 0

theorem generated_names_rendered : Reaches Op.Settled rendered ∧ (rendered.Distinct ∧
    ∀ op, op.Settled rendered → (∃ s', Steps rendered op s') ∧ ∀ s', Steps rendered op s' →
    rendered.Kept s') := by
  have hadd : Reaches Op.Settled (added .init [.add 0 (.leaf 0)]) := by
    refine Reaches.init.step (.change (.add 0 (.leaf 0)))
      ⟨⟨rfl, fun g heq => by cases heq⟩, ?_⟩ ⟨0, rfl⟩
    intro c _ w i hw
    cases hw
  have hrender : Reaches Op.Settled rendered :=
    hadd.step (.renderForm 0) ⟨trivial, fun c heq => by cases heq⟩ ⟨4, rfl⟩
  exact ⟨hrender, generated_names hrender⟩

/-- A widget that comes before one that has a name, in a form that was empty when the name was
generated. -/
theorem not_distinct_before : ¬ ∀ s, Reaches Op.Allowed s → s.Distinct := by
  intro h
  have hno : ∀ {s : World} {a b : ℕ}, s.forms.parent (.node a) = none → a ≠ b →
      ¬ s.forms.Within a b := by
    intro s a b ha hne hwithin
    rcases Relation.ReflTransGen.cases_head hwithin with heq | ⟨x, hx, -⟩
    · exact hne heq
    · rw [Forest.Step, ha] at hx
      cases hx
  have h₁ : Reaches Op.Allowed (added .init [.add 0 (.node 1)]) := by
    refine Reaches.init.step (.change (.add 0 (.node 1))) ⟨rfl, ?_⟩ ⟨0, rfl⟩
    intro g heq
    cases heq
    exact hno rfl (by decide)
  have h₂ : Reaches Op.Allowed (added .init [.add 0 (.node 1), .add 0 (.leaf 0)]) :=
    h₁.step (.change (.add 0 (.leaf 0))) ⟨rfl, fun g heq => by cases heq⟩ ⟨0, rfl⟩
  have h₃ : Reaches Op.Allowed ((added .init [.add 0 (.node 1), .add 0 (.leaf 0)]).generate 1 0) :=
    h₂.step (.renderWidget 0) trivial ⟨5, rfl⟩
  have h₄ :
    Reaches Op.Allowed (added ((added .init [.add 0 (.node 1), .add 0 (.leaf 0)]).generate 1 0)
      [.add 1 (.leaf 1)]) :=
    h₃.step (.change (.add 1 (.leaf 1))) ⟨rfl, fun g heq => by cases heq⟩ ⟨0, rfl⟩
  have h₅ :
    Reaches Op.Allowed (((added ((added .init [.add 0 (.node 1), .add 0 (.leaf 0)]).generate 1 0)
      [.add 1 (.leaf 1)]).generate 1 1).generate 2 0) :=
    h₄.step (.renderWidget 1) trivial ⟨6, rfl⟩
  have hup : SameTree (((added ((added .init [.add 0 (.node 1), .add 0 (.leaf 0)]).generate 1 0)
      [.add 1 (.leaf 1)]).generate 1 1).generate 2 0).forms 0 1 :=
    ⟨0, ⟨0, rfl, Relation.ReflTransGen.refl⟩, ⟨1, rfl, Relation.ReflTransGen.single rfl⟩⟩
  exact absurd (h _ h₅ 0 1 rfl rfl hup rfl) (by decide)

end Form

end Cppcms
