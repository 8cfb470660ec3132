import Mathlib.Tactic

/-!
# Runs of a machine

A machine takes a step for every action of a list.  What is asked of the callers is a predicate of
the state before a step and of the action (`Obeys`); what is promised is one of the same kind, or a
predicate of all states of the run (`states`).  An invariant that every step keeps carries over to
the run.
-/

namespace Cppcms

namespace Machine

variable {σ α : Type*} {step : σ → α → σ} {Inv : σ → Prop} {P Q : σ → α → Prop}
    {s : σ} {as : List α}

/-- The states of a run, from the first one to the last. -/
def states (step : σ → α → σ) (s : σ) : List α → List σ
  | [] => [s]
  | a :: as => s :: states step (step s a) as

/-- Every action is one that the state before it allows. -/
def Obeys (step : σ → α → σ) (P : σ → α → Prop) (s : σ) : List α → Prop
  | [] => True
  | a :: as => P s a ∧ Obeys step P (step s a) as

lemma mem_states_self (s : σ) (as : List α) : s ∈ states step s as := by
  rcases as with _ | ⟨a, as⟩
  · exact List.mem_singleton_self s
  · exact List.mem_cons_self

lemma foldl_mem_states (s : σ) (as : List α) : as.foldl step s ∈ states step s as := by
  induction as generalizing s with
  | nil => exact List.mem_singleton_self s
  | cons a as ih => exact List.mem_cons_of_mem s (ih (step s a))

/-- The invariant holds in all states of a run. -/
lemma forall_mem_states (hstep : ∀ s a, Inv s → P s a → Inv (step s a)) (hs : Inv s)
    (has : Obeys step P s as) :
    ∀ t ∈ states step s as, Inv t := by
  induction as generalizing s with
  | nil => exact fun t ht => List.mem_singleton.1 ht ▸ hs
  | cons a as ih =>
    intro t ht
    rcases List.mem_cons.1 ht with rfl | ht
    · exact hs
    · exact ih (hstep s a hs has.1) has.2 t ht

/-- The invariant holds behind a run. -/
lemma invariant_foldl (hstep : ∀ s a, Inv s → P s a → Inv (step s a)) (hs : Inv s)
    (has : Obeys step P s as) :
    Inv (as.foldl step s) :=
  forall_mem_states hstep hs has _ (foldl_mem_states s as)

/-- What the invariant and the callers give at every step. -/
lemma Obeys.of_invariant (has : Obeys step P s as) (hstep : ∀ s a, Inv s → P s a → Inv (step s a))
    (hs : Inv s) (hQ : ∀ s a, Inv s → P s a → Q s a) : Obeys step Q s as := by
  induction as generalizing s with
  | nil => trivial
  | cons a as ih => exact ⟨hQ s a hs has.1, ih has.2 (hstep s a hs has.1)⟩

lemma Obeys.imp (has : Obeys step P s as) (h : ∀ s a, P s a → Q s a) : Obeys step Q s as := by
  induction as generalizing s with
  | nil => trivial
  | cons a as ih => exact ⟨h s a has.1, ih has.2⟩

/-- Nothing is asked of the callers. -/
lemma obeys_of_forall (h : ∀ s a, P s a) (s : σ) (as : List α) : Obeys step P s as := by
  induction as generalizing s with
  | nil => trivial
  | cons a as ih => exact ⟨h s a, ih (step s a)⟩

lemma Obeys.and (hP : Obeys step P s as) (hQ : Obeys step Q s as) :
    Obeys step (fun s a => P s a ∧ Q s a) s as := by
  induction as generalizing s with
  | nil => trivial
  | cons a as ih => exact ⟨⟨hP.1, hQ.1⟩, ih hP.2 hQ.2⟩

/-- The second part of a run starts where the first one ends. -/
lemma obeys_append {bs : List α} :
    Obeys step P s (as ++ bs) ↔ Obeys step P s as ∧ Obeys step P (as.foldl step s) bs := by
  induction as generalizing s with
  | nil => exact (iff_of_eq (true_and _)).symm
  | cons a as ih =>
    show P s a ∧ Obeys step P (step s a) (as ++ bs) ↔ (P s a ∧ Obeys step P (step s a) as) ∧ _
    rw [ih, and_assoc]
    exact Iff.rfl

/-- Where a step that breaks a rule breaks the invariant, a run that keeps the invariant keeps the
rule. -/
lemma Obeys.of_states (has : Obeys step P s as) (hinv : ∀ t ∈ states step s as, Inv t)
    (hQ : ∀ s a, Inv s → P s a → Inv (step s a) → Q s a) : Obeys step Q s as := by
  induction as generalizing s with
  | nil => trivial
  | cons a as ih =>
    have hnext : ∀ t ∈ states step (step s a) as, Inv t := fun t ht =>
      hinv t (List.mem_cons_of_mem s ht)
    exact ⟨hQ s a (hinv s List.mem_cons_self) has.1 (hnext _ (mem_states_self _ as)),
      ih has.2 hnext⟩

/-- A machine that stands still at some actions is simulated by one that does not get them. -/
lemma simulation_filter {τ : Type*} {step' : τ → α → τ} {R : σ → τ → Prop} {p : α → Bool}
    (hstep : ∀ s t a, p a = true → R s t → R (step s a) (step' t a))
    (hskip : ∀ s t a, p a = false → R s t → R (step s a) t) {t : τ} (h : R s t) :
    R (as.foldl step s) ((as.filter p).foldl step' t) := by
  induction as generalizing s t with
  | nil => exact h
  | cons a as ih =>
    rcases ha : p a with _ | _
    · rw [List.filter_cons_of_neg (by rw [ha]; decide)]
      exact ih (hskip s t a ha h)
    · rw [List.filter_cons_of_pos ha]
      exact ih (hstep s t a ha h)

end Machine

end Cppcms
