import Cppcms.Url.Template

/-!
# Mounts that fail

`mount` hangs the child before `real_assign` looks at the template.  When the template is refused,
the mapper above is as before, and the child keeps its new place.
-/

namespace Cppcms

namespace Url

/-- A template that an application can be mounted with: its numbers are not read as zero, and the
largest is one. -/
def Mountable (url : Bytes) : Prop :=
  ∃ t : Template, t.Valid ∧ (∀ x ∈ t.rest, x.1.Indexed) ∧ t.source = url ∧ largest t.rest = 1

lemma largest_nonneg (rest : List (Hole × Bytes)) : 0 ≤ largest rest := by
  induction rest with
  | nil => exact le_rfl
  | cons x rest ih => exact le_max_of_le_right ih

/-- What `real_assign` reads from a template with the largest number one. -/
lemma mountable_iff (url : Bytes) :
    Mountable url ↔ ∃ e, scan false ⟨[], [], [], none⟩ 0 [] url = .ok (e, 1) := by
  constructor
  · rintro ⟨t, hvalid, hindexed, rfl, hone⟩
    have hscan := t.scan_source_of_indexed hvalid hindexed
    rw [max_eq_right (largest_nonneg _), hone] at hscan
    exact ⟨_, hscan⟩
  · rintro ⟨e, hscan⟩
    rcases exists_template_of_scan.1 ⟨List.not_mem_nil, List.not_mem_nil⟩ hscan with
      ⟨t, hvalid, hindexed, hurl⟩
    rw [List.nil_append] at hurl
    refine ⟨t, hvalid, hindexed, hurl.symm, ?_⟩
    rw [hurl, t.scan_source_of_indexed hvalid hindexed, max_eq_right (largest_nonneg _)] at hscan
    exact (Prod.mk.inj (Except.ok.inj hscan)).2

/-- `real_assign` accepts an application exactly with such a template and a key that is not in use.
-/
lemma Mapper.realAssign_isOk_iff (d : Mapper) (key url : Bytes) (app : App) :
    (∃ d', d.realAssign key url (some app) = .ok d') ↔ Mountable url ∧ d.byKey.find key = none := by
  rw [mountable_iff]
  unfold realAssign
  rcases hscan : scan false ⟨[], [], [], none⟩ 0 [] url with x | ⟨e, maxIndex⟩
  · simp
  · dsimp only
    by_cases hone : maxIndex = 1
    · rw [if_neg fun h => h.2 hone]
      rcases hfind : d.byKey.find key with - | s
      · simp [hone]
      · simp
    · rw [if_pos ⟨rfl, hone⟩]
      simp [hone]

/-- A mount that throws leaves both mappers as they were. -/
def World.Restores (w : World) (a root : App) (name url : Bytes) (app : App) : Prop :=
  (w.mount a root name url app).2 ≠ none →
    (w.mount a root name url app).1 a = w a ∧ (w.mount a root name url app).1 app = w app

namespace World

variable (w : World) (a root : App) (name url : Bytes) (app : App)

lemma hang_byKey (b : App) : (w.hang a name app b).byKey = (w b).byKey := by
  unfold hang set
  by_cases hb : b = app
  · rw [hb, Function.update_self]
  · rw [Function.update_of_ne hb]

lemma hang_eq_iff : w.hang a name app = w ↔ (w app).parent = some a ∧ (w app).thisName = name := by
  unfold hang set
  rw [Function.update_eq_self_iff]
  rcases w app with ⟨throws, thisName, parent, byKey, helpers, root⟩
  simp [eq_comm, and_comm]

/-- After a failure only the place of the child is new. -/
lemma mount_cases :
    ((Mountable url ∧ (w a).byKey.find name = none) ∧ (w.mount a root name url app).2 = none) ∨
    (¬(Mountable url ∧ (w a).byKey.find name = none) ∧ (w.mount a root name url app).2 ≠ none ∧
      (w.mount a root name url app).1 = w.hang a name app) := by
  have hiff := (w.hang a name app a).realAssign_isOk_iff name url app
  rw [hang_byKey] at hiff
  unfold mount
  rcases hreal : (w.hang a name app a).realAssign name url (some app) with x | d
  · rw [hreal] at hiff
    refine .inr ⟨fun h => ?_, by simp, rfl⟩
    rcases hiff.2 h with ⟨d, hd⟩
    cases hd
  · exact .inl ⟨hiff.1 ⟨d, hreal⟩, rfl⟩

/-- A mount that is refused is harmless only for a child that has this place already. -/
theorem restores_iff : w.Restores a root name url app ↔
    (Mountable url ∧ (w a).byKey.find name = none) ∨
    ((w app).parent = some a ∧ (w app).thisName = name) := by
  rcases w.mount_cases a root name url app with ⟨hok, hnone⟩ | ⟨hbad, hsome, hhang⟩
  · exact iff_of_true (fun herror => absurd hnone herror) (.inl hok)
  · unfold Restores
    rw [hhang, or_iff_right hbad, ← hang_eq_iff]
    constructor
    · intro hkeeps
      have happ := (hkeeps hsome).2
      unfold hang set at happ ⊢
      rw [Function.update_self] at happ
      rw [happ, Function.update_eq_self]
    · intro hsame _
      rw [hsame]
      exact ⟨rfl, rfl⟩

end World

/-- A template without a parameter is refused, and the child is below the application all the same.
-/
theorem World.not_restores_noParameter :
    ¬(World.init fun _ => true).Restores 0 0 (bytes "news") (bytes "/news") 1 := by
  intro hkeeps
  have hfails : ((World.init fun _ => true).mount 0 0 (bytes "news") (bytes "/news") 1).2 ≠
    none := by decide
  have hparent := congrArg Mapper.parent (hkeeps hfails).2
  exact absurd hparent (by decide)

end Url

end Cppcms
