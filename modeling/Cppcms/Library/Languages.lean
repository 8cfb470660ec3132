import Cppcms.Library.Recognizer
import Cppcms.Library.Regex
import Mathlib.Computability.Language

/-!
# Languages of expressions and of recognizers

A backtracking matcher of a whole text finds every word of the language of its expression.  A
recursive-descent recognizer does not go back, so that it finds the words of its language only where
it is followed by a text at which no loop could go on (`Recognizes`).
-/

namespace Cppcms

open scoped Computability

variable {α : Type*}

/-! ## Words of repetitions -/

lemma append_mem_mul {K L : Language α} {u v : List α} (hu : u ∈ K) (hv : v ∈ L) : u ++ v ∈ K * L :=
  Language.mem_mul.2 ⟨u, hu, v, hv, rfl⟩

lemma append_mem_kstar {K : Language α} {u v : List α} (hu : u ∈ K) (hv : v ∈ K∗) :
    u ++ v ∈ K∗ := by
  rcases Language.mem_kstar.1 hv with ⟨l, rfl, hl⟩
  rw [← List.flatten_cons]
  refine Language.join_mem_kstar fun y hy => ?_
  rcases List.mem_cons.1 hy with rfl | hy
  · exact hu
  · exact hl y hy

/-- A repetition is built up from its end. -/
lemma kstar_induction {K : Language α} {P : List α → Prop} (hnil : P [])
    (happend : ∀ u ∈ K, ∀ v ∈ K∗, P v → P (u ++ v)) {w : List α} (hw : w ∈ K∗) : P w := by
  rcases Language.mem_kstar.1 hw with ⟨l, rfl, hl⟩
  induction l with
  | nil => exact hnil
  | cons u l ih =>
    have hl' : ∀ y ∈ l, y ∈ K := fun y hy => hl y (List.mem_cons_of_mem _ hy)
    have hflatten : l.flatten ∈ K∗ := Language.join_mem_kstar hl'
    exact happend u (hl u List.mem_cons_self) _ hflatten (ih hl' hflatten)

lemma kstar_append_kstar {K : Language α} {u v : List α} (hu : u ∈ K∗) (hv : v ∈ K∗) :
    u ++ v ∈ K∗ := by
  refine kstar_induction (P := fun u => u ++ v ∈ K∗) hv ?_ hu
  intro x hx y _ ih
  rw [List.append_assoc]
  exact append_mem_kstar hx ih

lemma mem_kstar_of_mem {K : Language α} {w : List α} (hw : w ∈ K) : w ∈ K∗ := by
  have h := append_mem_kstar hw (Language.nil_mem_kstar K)
  rwa [List.append_nil] at h

/-- The words of a repetition but the empty one. -/
lemma mem_mul_kstar_of_ne_nil {K : Language α} {w : List α} (hw : w ∈ K∗) (hne : w ≠ []) :
    w ∈ K * K∗ := by
  rw [← Language.one_add_self_mul_kstar_eq_kstar] at hw
  rcases hw with hw | hw
  · exact absurd hw hne
  · exact hw

lemma kstar_mono' {K L : Language α} (h : ∀ w ∈ K, w ∈ L) {w : List α} (hw : w ∈ K∗) : w ∈ L∗ := by
  refine kstar_induction (P := fun w => w ∈ L∗) (Language.nil_mem_kstar L) ?_ hw
  intro u hu v _ ih
  exact append_mem_kstar (h u hu) ih

/-- What holds of the characters of the words holds of the characters of a repetition. -/
lemma forall_mem_of_mem_kstar {K : Language α} {P : α → Prop} (h : ∀ w ∈ K, ∀ c ∈ w, P c)
    {w : List α} (hw : w ∈ K∗) :
    ∀ c ∈ w, P c := by
  refine kstar_induction (P := fun w => ∀ c ∈ w, P c) (List.forall_mem_nil _) ?_ hw
  intro u hu v _ ih c hc
  rcases List.mem_append.1 hc with hc | hc
  · exact h u hu c hc
  · exact ih c hc

/-! ## Expressions -/

namespace Regex

/-- The words of an expression that does not look ahead. -/
def language : Regex α → Language α
  | empty => 1
  | char p => {w | ∃ c, p c = true ∧ w = [c]}
  | ahead _ => 1
  | seq a b => a.language * b.language
  | alt a b => a.language + b.language
  | star a => a.language∗
  | group _ a => a.language

/-- The expression matches the whole text. -/
def fullMatch (r : Regex α) (s : List α) : Bool :=
  (r.matchWith s [] fun t _ => if t.isEmpty then some () else none).isSome

lemma Reads.mem_language {r : Regex α} {w t : List α} {d : Captures α} (h : Reads r w d t)
    (hr : r.aheadFree = true) :
    w ∈ r.language := by
  induction h with
  | empty => exact rfl
  | char hc => exact ⟨_, hc, rfl⟩
  | ahead => cases hr
  | seq _ _ iha ihb =>
    have hr := Bool.and_eq_true_iff.1 hr
    exact append_mem_mul (iha hr.1) (ihb hr.2)
  | altLeft _ ih => exact .inl (ih (Bool.and_eq_true_iff.1 hr).1)
  | altRight _ ih => exact .inr (ih (Bool.and_eq_true_iff.1 hr).2)
  | starNil => exact Language.nil_mem_kstar _
  | starCons _ _ iha ihs => exact append_mem_kstar (iha hr) (ihs hr)
  | group _ ih => exact ih hr

/-- Every word of the language can be read. -/
lemma exists_reads {r : Regex α} (hr : r.aheadFree = true) {w : List α} (hw : w ∈ r.language)
    (t : List α) :
    ∃ d, Reads r w d t := by
  induction r generalizing w t with
  | empty =>
    cases hw
    exact ⟨[], .empty⟩
  | char p =>
    rcases hw with ⟨c, hc, rfl⟩
    exact ⟨[], .char hc⟩
  | ahead p => cases hr
  | seq a b iha ihb =>
    have hr := Bool.and_eq_true_iff.1 hr
    rcases Language.mem_mul.1 hw with ⟨u, hu, v, hv, rfl⟩
    rcases iha hr.1 hu (v ++ t) with ⟨d, hd⟩
    rcases ihb hr.2 hv t with ⟨e, he⟩
    exact ⟨_, .seq hd he⟩
  | alt a b iha ihb =>
    have hr := Bool.and_eq_true_iff.1 hr
    rcases hw with hw | hw
    · exact (iha hr.1 hw t).imp fun d hd => .altLeft hd
    · exact (ihb hr.2 hw t).imp fun d hd => .altRight hd
  | star a ih =>
    have hstar : ∀ w ∈ a.language∗, ∃ d, Reads (star a) w d t := by
      intro w hw
      refine kstar_induction (P := fun w => ∃ d, Reads (star a) w d t) ⟨[], .starNil⟩ ?_ hw
      intro u hu v _ ihv
      rcases ihv with ⟨e, he⟩
      rcases ih hr hu (v ++ t) with ⟨d, hd⟩
      exact ⟨_, .starCons hd he⟩
    exact hstar w hw
  | group n a ih =>
    rcases ih hr hw t with ⟨d, hd⟩
    exact ⟨_, .group hd⟩

section

variable {β : Type*}

/-- A repetition may always end. -/
lemma repeatWith_isSome {m : List α → Captures α → (List α → Captures α → Option β) → Option β}
    {n : ℕ} {s : List α} {g : Captures α} {k : List α → Captures α → Option β}
    (hk : (k s g).isSome) : (repeatWith m n s g k).isSome := by
  rcases n with _ | n
  · exact hk
  · rw [repeatWith]
    split
    · rfl
    · exact hk

/-- The matcher tries everything that can be read. -/
lemma matchWith_complete {r : Regex α} {w t : List α} {d : Captures α} (h : Reads r w d t)
    (g : Captures α) {k : List α → Captures α → Option β} (hk : ∀ g', (k t g').isSome) :
    (r.matchWith (w ++ t) g k).isSome := by
  induction r generalizing w t d g k with
  | empty =>
    rcases reads_empty_iff.1 h with ⟨rfl, -⟩
    exact hk g
  | char p =>
    rcases reads_char_iff.1 h with ⟨c, hc, rfl, -⟩
    show (if p c = true then k t g else none).isSome
    rw [if_pos hc]
    exact hk g
  | ahead p =>
    rcases reads_ahead_iff.1 h with ⟨hp, rfl, -⟩
    show (if p t = true then k t g else none).isSome
    rw [if_pos hp]
    exact hk g
  | seq a b iha ihb =>
    rcases reads_seq_iff.1 h with ⟨u, v, d₁, d₂, rfl, -, ha, hb⟩
    rw [List.append_assoc]
    exact iha ha g fun g' => ihb hb g' hk
  | alt a b iha ihb =>
    rw [matchWith]
    split
    · rfl
    · rename_i hnone
      rcases reads_alt_iff.1 h with ha | hb
      · have hsome := iha ha g hk
        rw [hnone] at hsome
        cases hsome
      · exact ihb hb g hk
  | star a ih =>
    have hrounds : ∀ {w t : List α} {d : Captures α}, Reads (star a) w d t →
      ∀ (n : ℕ) (g : Captures α),
        (w ++ t).length ≤ n → ∀ {k : List α → Captures α → Option β}, (∀ g', (k t g').isSome) →
        (repeatWith a.matchWith n (w ++ t) g k).isSome := by
      intro w t d h
      generalize hr : star a = r at h
      induction h with
      | starNil => exact fun n g _ k hk => repeatWith_isSome (hk g)
      | @starCons a' u v t d e ha _ _ ihs =>
        cases hr
        intro n g hn k hk
        by_cases hu : u = []
        · -- a round that reads nothing is left out
          rw [hu]
          exact ihs rfl n g (by rw [hu] at hn; exact hn) hk
        · have hpos := List.length_pos_iff.2 hu
          rw [List.append_assoc, List.length_append] at hn
          rcases n with _ | n
          · omega
          · rw [List.append_assoc, repeatWith]
            have hround := ih ha g (k := fun s' g' => if s'.length < (u ++ (v ++ t)).length then
              repeatWith a.matchWith n s' g' k else none) fun g' => by
                rw [if_pos (by simp only [List.length_append]; omega)]
                exact ihs rfl n g' (by omega) hk
            split
            · rfl
            · rename_i hnone
              rw [hnone] at hround
              cases hround
      | _ => cases hr
    exact hrounds h _ g le_rfl hk
  | group i a ih =>
    rcases reads_group_iff.1 h with ⟨e, -, ha⟩
    exact ih ha g fun g' => hk _

end

/-- The matcher of a whole text finds out whether it can be read. -/
lemma fullMatch_iff {r : Regex α} {s : List α} : r.fullMatch s = true ↔ ∃ d, Reads r s d [] := by
  constructor
  · intro h
    rcases Option.isSome_iff_exists.1 h with ⟨x, hx⟩
    rcases matchWith_sound r hx with ⟨w, d, t, rfl, hreads, ht⟩
    split_ifs at ht with hempty
    rw [List.isEmpty_iff.1 hempty] at hreads ⊢
    rw [List.append_nil]
    exact ⟨d, hreads⟩
  · rintro ⟨d, hreads⟩
    have h := matchWith_complete hreads []
      (k := fun t _ => if t.isEmpty then some () else none) fun _ => rfl
    rwa [List.append_nil] at h

/-- An expression that does not look ahead reads its language in front of every text. -/
lemma exists_reads_iff {r : Regex α} (hr : r.aheadFree = true) {w t : List α} :
    (∃ d, Reads r w d t) ↔ w ∈ r.language :=
  ⟨fun ⟨_, h⟩ => h.mem_language hr, fun h => exists_reads hr h t⟩

lemma mem_language_seq {r r' : Regex α} {w : List α} :
    w ∈ (seq r r').language ↔ ∃ u ∈ r.language, ∃ v ∈ r'.language, u ++ v = w :=
  Language.mem_mul

lemma mem_language_char {p : α → Bool} {w : List α} :
    w ∈ (char p).language ↔ ∃ c, p c = true ∧ w = [c] :=
  Iff.rfl

/-- A fixed word is the only word of its expression. -/
lemma mem_language_word [DecidableEq α] {v w : List α} : w ∈ (word v).language ↔ w = v := by
  have hchar : ∀ c : α, ∀ u, u ∈ (char fun d => d == c).language ↔ u = [c] := by
    intro c u
    rw [mem_language_char]
    constructor
    · rintro ⟨d, hd, rfl⟩
      rw [eq_of_beq hd]
    · rintro rfl
      exact ⟨c, beq_self_eq_true c, rfl⟩
  unfold word
  induction v generalizing w with
  | nil => exact Iff.rfl
  | cons c v ih =>
    rcases v with _ | ⟨d, v⟩
    · exact hchar c w
    · show w ∈ (seq _ _).language ↔ _
      rw [mem_language_seq]
      constructor
      · rintro ⟨u, hu, u', hu', rfl⟩
        rw [(hchar c u).1 hu, ih.1 hu']
        rfl
      · rintro rfl
        exact ⟨[c], (hchar c _).2 rfl, d :: v, ih.2 rfl, rfl⟩

/-- All characters that the expression can read have a property. -/
def CharsIn (P : α → Prop) : Regex α → Prop
  | empty => True
  | char p => ∀ c, p c = true → P c
  | ahead _ => True
  | seq a b => a.CharsIn P ∧ b.CharsIn P
  | alt a b => a.CharsIn P ∧ b.CharsIn P
  | star a => a.CharsIn P
  | group _ a => a.CharsIn P

lemma CharsIn.forall_mem {P : α → Prop} {r : Regex α} (hr : r.CharsIn P) {w : List α}
    (hw : w ∈ r.language) :
    ∀ c ∈ w, P c := by
  induction r generalizing w with
  | empty =>
    cases hw
    exact List.forall_mem_nil _
  | char p =>
    rcases hw with ⟨c, hc, rfl⟩
    exact List.forall_mem_singleton.2 (hr c hc)
  | ahead p =>
    cases hw
    exact List.forall_mem_nil _
  | seq a b iha ihb =>
    rcases Language.mem_mul.1 hw with ⟨u, hu, v, hv, rfl⟩
    exact List.forall_mem_append.2 ⟨iha hr.1 hu, ihb hr.2 hv⟩
  | alt a b iha ihb =>
    rcases hw with hw | hw
    · exact iha hr.1 hw
    · exact ihb hr.2 hw
  | star a ih => exact forall_mem_of_mem_kstar (fun u hu => ih hr hu) hw
  | group n a ih => exact ih hr hw

end Regex

/-! ## Recognizers -/

namespace Recognizer

/-- A recognizer that succeeds has read a word of a language, and it reads every word of it in front
of a text behind which it would not go on. -/
structure Recognizes (p : Recognizer α) (K : Language α) (F : List α → Prop) : Prop where
  sound : ∀ {s : List α}, (p s).1 = true → ∃ w ∈ K, s = w ++ (p s).2
  complete : ∀ {w t : List α}, w ∈ K → F t → p (w ++ t) = (true, t)

variable {p q : Recognizer α} {K L : Language α} {F G H : List α → Prop}

lemma Recognizes.saved (hp : Recognizes p K F) : Recognizes (saved p) K F := by
  constructor
  · intro s hs
    rw [saved_fst] at hs
    rw [Recognizer.saved, if_pos hs]
    exact hp.sound hs
  · intro w t hw ht
    have h := hp.complete hw ht
    rw [Recognizer.saved, h]
    rfl

lemma Recognizes.andThen (hp : Recognizes p K F) (hq : Recognizes q L G)
    (h : ∀ v ∈ L, ∀ t, G t → F (v ++ t)) :
    Recognizes (p.andThen q) (K * L) G := by
  constructor
  · intro s hs
    rw [andThen_fst, Bool.and_eq_true_iff] at hs
    rcases hp.sound hs.1 with ⟨u, hu, hsu⟩
    rcases hq.sound hs.2 with ⟨v, hv, hsv⟩
    refine ⟨u ++ v, append_mem_mul hu hv, ?_⟩
    rw [Recognizer.andThen, if_pos hs.1, List.append_assoc, ← hsv, ← hsu]
  · intro w t hw ht
    rcases Language.mem_mul.1 hw with ⟨u, hu, v, hv, rfl⟩
    have hread := hp.complete hu (h v hv t ht)
    rw [List.append_assoc, Recognizer.andThen, hread]
    exact hq.complete hv ht

/-- The second alternative starts where the first one did, if a failure does not move. -/
lemma Recognizes.orElse (hp : Recognizes p K F) (hq : Recognizes q L G)
    (hback : ∀ s, (p s).1 = false → (p s).2 = s) (hF : ∀ t, H t → F t) (hG : ∀ t, H t → G t)
    (h : ∀ v ∈ L, ∀ t, H t → (p (v ++ t)).1 = false) :
    Recognizes (p.orElse q) (K + L) H := by
  constructor
  · intro s hs
    by_cases hps : (p s).1 = true
    · rw [Recognizer.orElse, if_pos hps]
      rcases hp.sound hps with ⟨u, hu, hsu⟩
      exact ⟨u, .inl hu, hsu⟩
    · have hstay := hback s (Bool.not_eq_true _ ▸ hps)
      rw [orElse_fst, hstay, Bool.or_eq_true, or_iff_right hps] at hs
      rw [Recognizer.orElse, if_neg hps, hstay]
      rcases hq.sound hs with ⟨v, hv, hsv⟩
      exact ⟨v, .inr hv, hsv⟩
  · intro w t hw ht
    rw [Recognizer.orElse]
    rcases hw with hw | hw
    · rw [hp.complete hw (hF t ht)]
      rfl
    · have hfail := h w hw t ht
      rw [hfail, hback _ hfail]
      exact hq.complete hw (hG t ht)

/-- An optional part is left out where it does not start. -/
lemma Recognizes.optional (hp : Recognizes p K F) (hF : ∀ t, G t → F t)
    (hfail : ∀ t, G t → (p t).1 = false) :
    Recognizes (fun s => (true, (Recognizer.saved p s).2)) (K + 1) G := by
  constructor
  · intro s _
    by_cases hs : (p s).1 = true
    · rcases hp.sound hs with ⟨w, hw, heq⟩
      refine ⟨w, .inl hw, ?_⟩
      rw [Recognizer.saved, if_pos hs]
      exact heq
    · refine ⟨[], .inr rfl, ?_⟩
      rw [Recognizer.saved, if_neg hs]
      rfl
  · rintro w t (hw | hw) ht
    · rw [hp.saved.complete hw (hF t ht)]
    · cases hw
      rw [List.nil_append, Recognizer.saved, hfail t ht]
      rfl

/-- A loop reads a repetition, up to a text at which no round starts. -/
lemma Recognizes.many (hp : Recognizes p K F) (hprogress : Progresses p)
    (hF : ∀ w ∈ K∗, ∀ t, G t → F (w ++ t)) (hstop : ∀ t, G t → (p t).1 = false) :
    Recognizes (many p) K∗ G := by
  constructor
  · intro s _
    have hrounds : ∀ n s, ∃ w ∈ K∗, s = w ++ manyRounds p n s := by
      intro n
      induction n with
      | zero => exact fun s => ⟨[], Language.nil_mem_kstar K, rfl⟩
      | succ n ih =>
        intro s
        rw [manyRounds]
        split_ifs with hs
        · rcases hp.sound hs with ⟨u, hu, hsu⟩
          rcases ih (p s).2 with ⟨v, hv, hsv⟩
          refine ⟨u ++ v, append_mem_kstar hu hv, ?_⟩
          rw [List.append_assoc, ← hsv, ← hsu]
        · refine ⟨[], Language.nil_mem_kstar K, ?_⟩
          exact ((hprogress s).2 (Bool.not_eq_true _ ▸ hs)).symm
    exact hrounds _ s
  · intro w t hw ht
    have hrounds : ∀ n, (w ++ t).length < n → manyRounds p n (w ++ t) = t := by
      refine kstar_induction (P := fun w => ∀ n, (w ++ t).length < n →
        manyRounds p n (w ++ t) = t) ?_ ?_ hw
      · intro n hn
        rcases n with _ | n
        · omega
        · have hfail := hstop t ht
          rw [List.nil_append, manyRounds, hfail]
          exact (hprogress t).2 hfail
      · intro u hu v hv ih n hn
        have hread := hp.complete hu (hF v hv t ht)
        have hless : (v ++ t).length < (u ++ (v ++ t)).length := by
          have h := (hprogress (u ++ (v ++ t))).1 (by rw [hread])
          rwa [hread] at h
        rw [List.append_assoc] at hn ⊢
        rcases n with _ | n
        · omega
        · rw [manyRounds, hread]
          exact ih n (by omega)
    exact Prod.ext rfl (hrounds _ (Nat.lt_succ_self _))

/-- Of a whole text, the words of the language are accepted. -/
lemma Recognizes.eq_nil_iff (hp : Recognizes p K F) (hF : F []) {s : List α} :
    p s = (true, []) ↔ s ∈ K := by
  constructor
  · intro hs
    rcases hp.sound (s := s) (by rw [hs]) with ⟨w, hw, heq⟩
    rw [hs, List.append_nil] at heq
    rwa [heq]
  · intro hs
    have h := hp.complete hs hF
    rwa [List.append_nil] at h

/-- A recognizer that reads something has no empty word. -/
lemma Recognizes.nil_notMem (hp : Recognizes p K F) (hprogress : Progresses p) (hF : F []) :
    [] ∉ K := by
  intro hnil
  have hread : p [] = (true, []) := hp.complete hnil hF
  have hless := (hprogress []).1 (by rw [hread])
  exact Nat.not_lt_zero _ hless

/-- A text is divided in one way. -/
lemma Recognizes.append_inj (hp : Recognizes p K F) {u v s t : List α} (hu : u ∈ K) (hv : v ∈ K)
    (hs : F s) (ht : F t) (h : u ++ s = v ++ t) : u = v ∧ s = t := by
  have hus := hp.complete hu hs
  rw [h, hp.complete hv ht] at hus
  have hst : s = t := (Prod.mk.inj hus).2.symm
  rw [hst] at h
  exact ⟨List.append_cancel_right h, hst⟩

/-- The text is empty or starts with one of some characters. -/
def StartsIn (cs t : List α) : Prop := ∀ c ∈ t.head?, c ∈ cs

lemma startsIn_nil (cs : List α) : StartsIn cs [] := by
  intro c hc
  cases hc

lemma startsIn_cons {cs : List α} {c : α} (hc : c ∈ cs) (t : List α) : StartsIn cs (c :: t) := by
  intro d hd
  cases hd
  exact hc

lemma StartsIn.mono {cs ds t : List α} (h : StartsIn cs t) (hsub : cs ⊆ ds) : StartsIn ds t :=
  fun c hc => hsub (h c hc)

/-- No word of the language has one of some characters. -/
def Avoids (K : Language α) (cs : List α) : Prop := ∀ w ∈ K, ∀ c ∈ w, c ∉ cs

lemma Avoids.add {cs : List α} (hK : Avoids K cs) (hL : Avoids L cs) : Avoids (K + L) cs := by
  rintro w (hw | hw)
  · exact hK w hw
  · exact hL w hw

lemma Avoids.mono {cs ds : List α} (h : Avoids K ds) (hsub : cs ⊆ ds) : Avoids K cs :=
  fun w hw c hc hmem => h w hw c hc (hsub hmem)

lemma Avoids.kstar {cs : List α} (h : Avoids K cs) : Avoids K∗ cs :=
  fun _ hw => forall_mem_of_mem_kstar h hw

/-- A character that no word has does not start one. -/
lemma Recognizes.fst_eq_false {cs t : List α} (hp : Recognizes p K F) (hprogress : Progresses p)
    (hK : Avoids K cs) (ht : StartsIn cs t) : (p t).1 = false := by
  refine Bool.eq_false_iff.2 fun hs => ?_
  rcases hp.sound hs with ⟨w, hw, heq⟩
  have hless := (hprogress t).1 hs
  rcases w with _ | ⟨c, w⟩
  · rw [List.nil_append] at heq
    rw [← heq] at hless
    exact lt_irrefl _ hless
  · refine hK _ hw c List.mem_cons_self (ht c ?_)
    rw [heq]
    rfl

/-- A loop over tokens reads up to a character that no token has. -/
lemma Recognizes.many_tokens {cs : List α} (hp : Recognizes p K fun _ => True)
    (hprogress : Progresses p) (hK : Avoids K cs) :
    Recognizes (Recognizer.many p) K∗ (StartsIn cs) :=
  hp.many hprogress (fun _ _ _ _ => trivial) fun _ ht => hp.fst_eq_false hprogress hK ht

/-- Alternatives may be grouped in any way. -/
lemma orElse_assoc (p q r : Recognizer α) : (p.orElse q).orElse r = p.orElse (q.orElse r) := by
  funext s
  unfold Recognizer.orElse
  by_cases hp : (p s).1 = true
  · simp only [hp, if_true]
  · simp only [if_neg hp]

end Recognizer

end Cppcms
