import Mathlib.Tactic

/-!
# Regular expressions with captures

Expressions with capturing groups, matched at the start of a text by ordered backtracking: an
alternative is tried from left to right, a repetition takes as many rounds as it can and gives them
back one by one (`matchWith`).  The matcher is written with a continuation, which is asked whether
the rest of the text is fine.

`Reads` is the relation behind the matcher, without any order of preference: an expression reads a
word in front of a text, with its captures.  Whatever the matcher finds is read (`matchWith_sound`),
and the `reads_*_iff` lemmas compute the relation of a concrete expression.
-/

namespace Cppcms

/-- Regular expressions over an alphabet. -/
inductive Regex (α : Type*) where
  | empty
  | char (p : α → Bool)
  | ahead (p : List α → Bool)
  | seq (a b : Regex α)
  | alt (a b : Regex α)
  | star (a : Regex α)
  | group (i : ℕ) (a : Regex α)

namespace Regex

variable {α β : Type*}

/-- What the groups have captured, the latest capture first. -/
abbrev Captures (α : Type*) := List (ℕ × List α)

/-- The text captured by a group; `none` if the group took no part in the match. -/
def Captures.get (g : Captures α) (i : ℕ) : Option (List α) :=
  (g.find? fun p => p.1 == i).map Prod.snd

/-- The rounds of a greedy repetition, with a budget; a round has to read something. -/
def repeatWith (m : List α → Captures α → (List α → Captures α → Option β) → Option β) :
    ℕ → List α → Captures α → (List α → Captures α → Option β) → Option β
  | 0, s, g, k => k s g
  | n + 1, s, g, k =>
    match m s g fun s' g' => if s'.length < s.length then repeatWith m n s' g' k else none with
    | some b => some b
    | none => k s g

/-- The first match, in the order of preference, that the continuation accepts. -/
def matchWith : Regex α → List α → Captures α → (List α → Captures α → Option β) → Option β
  | empty, s, g, k => k s g
  | char p, s, g, k =>
    match s with
    | [] => none
    | c :: s => if p c then k s g else none
  | ahead p, s, g, k => if p s then k s g else none
  | seq a b, s, g, k => a.matchWith s g fun s' g' => b.matchWith s' g' k
  | alt a b, s, g, k =>
    match a.matchWith s g k with
    | some x => some x
    | none => b.matchWith s g k
  | star a, s, g, k => repeatWith a.matchWith s.length s g k
  | group i a, s, g, k =>
    a.matchWith s g fun s' g' => k s' ((i, s.take (s.length - s'.length)) :: g')

/-- A match at the start of a text: the rest of the text and the captures. -/
def matchPrefix (r : Regex α) (s : List α) : Option (List α × Captures α) :=
  r.matchWith s [] fun s' g' => some (s', g')

/-! ## Shorthands -/

/-- A sequence of expressions. -/
def cat : List (Regex α) → Regex α
  | [] => empty
  | [r] => r
  | r :: rs => seq r (cat rs)

/-- `a|b|...`. -/
def any : Regex α → List (Regex α) → Regex α
  | r, [] => r
  | r, r' :: rs => alt r (any r' rs)

/-- A fixed word. -/
def word [DecidableEq α] (w : List α) : Regex α := cat (w.map fun c => char fun d => d == c)

/-- `r?`. -/
def opt (r : Regex α) : Regex α := alt r empty

/-- `r+`. -/
def plus (r : Regex α) : Regex α := seq r (star r)

/-! ## The relation of an expression -/

/-- An expression can read a word in front of a text, with the given captures. -/
inductive Reads : Regex α → List α → Captures α → List α → Prop
  | empty {t : List α} : Reads empty [] [] t
  | char {p : α → Bool} {c : α} {t : List α} (h : p c = true) : Reads (char p) [c] [] t
  | ahead {p : List α → Bool} {t : List α} (h : p t = true) : Reads (ahead p) [] [] t
  | seq {a b : Regex α} {u v t : List α} {d e : Captures α} (ha : Reads a u d (v ++ t))
      (hb : Reads b v e t) : Reads (seq a b) (u ++ v) (e ++ d) t
  | altLeft {a b : Regex α} {w t : List α} {d : Captures α} (ha : Reads a w d t) :
      Reads (alt a b) w d t
  | altRight {a b : Regex α} {w t : List α} {d : Captures α} (hb : Reads b w d t) :
      Reads (alt a b) w d t
  | starNil {a : Regex α} {t : List α} : Reads (star a) [] [] t
  | starCons {a : Regex α} {u v t : List α} {d e : Captures α} (ha : Reads a u d (v ++ t))
      (hs : Reads (star a) v e t) : Reads (star a) (u ++ v) (e ++ d) t
  | group {n : ℕ} {a : Regex α} {w t : List α} {d : Captures α} (ha : Reads a w d t) :
      Reads (group n a) w ((n, w) :: d) t

variable {n : ℕ}

/-- The rounds of a repetition are found by its body. -/
lemma repeatWith_sound {a : Regex α}
    (ha : ∀ {s g} {k : List α → Captures α → Option β} {x}, a.matchWith s g k = some x →
      ∃ w d t, s = w ++ t ∧ Reads a w d t ∧ k t (d ++ g) = some x)
    {s : List α} {g : Captures α} {k : List α → Captures α → Option β} {x : β}
    (hx : repeatWith a.matchWith n s g k = some x) :
    ∃ w d t, s = w ++ t ∧ Reads (star a) w d t ∧ k t (d ++ g) = some x := by
  induction n generalizing s g with
  | zero => exact ⟨[], [], s, rfl, .starNil, hx⟩
  | succ n ih =>
    rw [repeatWith] at hx
    split at hx
    · rename_i b hb
      obtain ⟨u, d, s', rfl, hu, hk⟩ := ha hb
      split_ifs at hk with hlen
      obtain ⟨v, e, t, rfl, hv, hk⟩ := ih (hk.trans hx)
      refine ⟨u ++ v, e ++ d, t, by simp, .starCons hu hv, ?_⟩
      rwa [List.append_assoc]
    · exact ⟨[], [], s, rfl, .starNil, hx⟩

/-- What the matcher finds is read by the expression and accepted by the continuation. -/
theorem matchWith_sound (r : Regex α) {s : List α} {g : Captures α}
    {k : List α → Captures α → Option β} {x : β} (hx : r.matchWith s g k = some x) :
    ∃ w d t, s = w ++ t ∧ Reads r w d t ∧ k t (d ++ g) = some x := by
  induction r generalizing s g k x with
  | empty => exact ⟨[], [], s, rfl, .empty, hx⟩
  | char p =>
    cases s with
    | nil => simp [matchWith] at hx
    | cons c s =>
      simp only [matchWith] at hx
      split_ifs at hx with hc
      exact ⟨[c], [], s, rfl, .char hc, hx⟩
  | ahead p =>
    rw [matchWith] at hx
    split_ifs at hx with hp
    exact ⟨[], [], s, rfl, .ahead hp, hx⟩
  | seq a b iha ihb =>
    obtain ⟨u, d, s', rfl, ha, hx⟩ := iha hx
    obtain ⟨v, e, t, rfl, hb, hx⟩ := ihb hx
    refine ⟨u ++ v, e ++ d, t, by simp, .seq ha hb, ?_⟩
    rwa [List.append_assoc]
  | alt a b iha ihb =>
    rw [matchWith] at hx
    split at hx
    · rename_i y hy
      obtain ⟨w, d, t, hs, ha, hk⟩ := iha hy
      exact ⟨w, d, t, hs, .altLeft ha, hk.trans hx⟩
    · obtain ⟨w, d, t, hs, hb, hk⟩ := ihb hx
      exact ⟨w, d, t, hs, .altRight hb, hk⟩
  | star a ih => exact repeatWith_sound ih hx
  | group i a ih =>
    obtain ⟨w, d, t, rfl, ha, hk⟩ := ih hx
    refine ⟨w, (i, w) :: d, t, rfl, .group ha, ?_⟩
    rw [← hk, List.length_append, Nat.add_sub_cancel, List.take_left]
    rfl

theorem matchPrefix_sound {r : Regex α} {s t : List α} {d : Captures α}
    (h : r.matchPrefix s = some (t, d)) : ∃ w, s = w ++ t ∧ Reads r w d t := by
  obtain ⟨w, e, u, hs, hr, hk⟩ := matchWith_sound r h
  obtain ⟨rfl, rfl⟩ : u = t ∧ e = d := by simpa using hk
  exact ⟨w, hs, hr⟩

/-! ## Computing the relation -/

section Compute

variable {a b : Regex α} {w t : List α} {d : Captures α}

lemma reads_empty_iff : Reads empty w d t ↔ w = [] ∧ d = [] := by
  constructor
  · rintro ⟨⟩
    exact ⟨rfl, rfl⟩
  · rintro ⟨rfl, rfl⟩
    exact .empty

lemma reads_char_iff {p : α → Bool} :
    Reads (char p) w d t ↔ ∃ c, p c = true ∧ w = [c] ∧ d = [] := by
  constructor
  · rintro ⟨⟩
    rename_i c hc
    exact ⟨c, hc, rfl, rfl⟩
  · rintro ⟨c, hc, rfl, rfl⟩
    exact .char hc

lemma reads_ahead_iff {p : List α → Bool} :
    Reads (ahead p) w d t ↔ p t = true ∧ w = [] ∧ d = [] := by
  constructor
  · rintro ⟨⟩
    rename_i hp
    exact ⟨hp, rfl, rfl⟩
  · rintro ⟨hp, rfl, rfl⟩
    exact .ahead hp

lemma reads_seq_iff : Reads (seq a b) w d t ↔
    ∃ u v d₁ d₂, w = u ++ v ∧ d = d₂ ++ d₁ ∧ Reads a u d₁ (v ++ t) ∧ Reads b v d₂ t := by
  constructor
  · rintro ⟨⟩
    rename_i u v d₁ d₂ ha hb
    exact ⟨u, v, d₁, d₂, rfl, rfl, ha, hb⟩
  · rintro ⟨u, v, d₁, d₂, rfl, rfl, ha, hb⟩
    exact .seq ha hb

lemma reads_alt_iff : Reads (alt a b) w d t ↔ Reads a w d t ∨ Reads b w d t := by
  constructor
  · rintro ⟨⟩
    · exact .inl ‹_›
    · exact .inr ‹_›
  · rintro (h | h)
    · exact .altLeft h
    · exact .altRight h

lemma reads_opt_iff : Reads (opt a) w d t ↔ Reads a w d t ∨ w = [] ∧ d = [] := by
  rw [opt, reads_alt_iff, reads_empty_iff]

lemma reads_group_iff : Reads (group n a) w d t ↔ ∃ e, d = (n, w) :: e ∧ Reads a w e t := by
  constructor
  · rintro ⟨⟩
    exact ⟨_, rfl, ‹_›⟩
  · rintro ⟨e, rfl, ha⟩
    exact .group ha

/-- A repeated character class. -/
lemma reads_starChar_iff {p : α → Bool} :
    Reads (star (char p)) w d t ↔ d = [] ∧ ∀ c ∈ w, p c = true := by
  constructor
  · intro h
    generalize hr : star (char p) = r at h
    induction h with
    | starNil => exact ⟨rfl, by simp⟩
    | starCons ha _ _ ih =>
      cases hr
      obtain ⟨c, hc, rfl, rfl⟩ := reads_char_iff.1 ha
      obtain ⟨rfl, hv⟩ := ih rfl
      exact ⟨rfl, by simpa [hc] using hv⟩
    | _ => cases hr
  · rintro ⟨rfl, hw⟩
    induction w with
    | nil => exact .starNil
    | cons c w ih =>
      rw [List.forall_mem_cons] at hw
      exact .starCons (d := []) (.char hw.1) (ih hw.2)

/-- A fixed word reads itself. -/
lemma reads_word_iff [DecidableEq α] {u : List α} : Reads (word u) w d t ↔ w = u ∧ d = [] := by
  induction u generalizing w d t with
  | nil => exact reads_empty_iff
  | cons c u ih =>
    cases u with
    | nil =>
      have hword : word [c] = char fun x => x == c := rfl
      rw [hword, reads_char_iff]
      constructor
      · rintro ⟨x, hx, rfl, rfl⟩
        exact ⟨by rw [beq_iff_eq.1 hx], rfl⟩
      · rintro ⟨rfl, rfl⟩
        exact ⟨c, by simp, rfl, rfl⟩
    | cons c' u =>
      have hword : word (c :: c' :: u) = seq (char fun x => x == c) (word (c' :: u)) := rfl
      rw [hword, reads_seq_iff]
      constructor
      · rintro ⟨_, v, d₁, d₂, rfl, rfl, hfirst, hv⟩
        obtain ⟨x, hx, rfl, rfl⟩ := reads_char_iff.1 hfirst
        obtain ⟨rfl, rfl⟩ := ih.1 hv
        obtain rfl := beq_iff_eq.1 hx
        exact ⟨rfl, rfl⟩
      · rintro ⟨rfl, rfl⟩
        exact ⟨[c], c' :: u, [], [], rfl, rfl, .char (by simp), ih.2 ⟨rfl, rfl⟩⟩

end Compute

/-! ## Captures -/

/-- The numbers of the groups of an expression. -/
def groups : Regex α → List ℕ
  | empty => []
  | char _ => []
  | ahead _ => []
  | seq a b => a.groups ++ b.groups
  | alt a b => a.groups ++ b.groups
  | star a => a.groups
  | group n a => n :: a.groups

/-- Only the groups of an expression capture something. -/
lemma Reads.mem_groups {r : Regex α} {w t : List α} {d : Captures α} (h : Reads r w d t) :
    ∀ p ∈ d, p.1 ∈ r.groups := by
  induction h with
  | empty => simp
  | char => simp
  | ahead => simp
  | seq _ _ iha ihb =>
    intro p hp
    obtain hp | hp := List.mem_append.1 hp
    · exact List.mem_append_right _ (ihb p hp)
    · exact List.mem_append_left _ (iha p hp)
  | altLeft _ ih => exact fun p hp => List.mem_append_left _ (ih p hp)
  | altRight _ ih => exact fun p hp => List.mem_append_right _ (ih p hp)
  | starNil => simp
  | starCons _ _ iha ihs =>
    intro p hp
    obtain hp | hp := List.mem_append.1 hp
    · exact ihs p hp
    · exact iha p hp
  | group _ ih =>
    intro p hp
    obtain rfl | hp := List.mem_cons.1 hp
    · exact List.mem_cons_self
    · exact List.mem_cons_of_mem _ (ih p hp)

namespace Captures

@[simp] lemma get_nil (i : ℕ) : get ([] : Captures α) i = none := rfl

@[simp] lemma get_cons_self (i : ℕ) (w : List α) (d : Captures α) :
    get ((i, w) :: d) i = some w := by
  simp [get]

lemma get_cons_of_ne {i j : ℕ} (h : j ≠ i) (w : List α) (d : Captures α) :
    get ((j, w) :: d) i = get d i := by
  simp [get, h]

lemma get_append (d e : Captures α) (i : ℕ) : get (d ++ e) i = (get d i).or (get e i) := by
  simp [get, List.find?_append, Option.map_or]

end Captures

/-- A group of another expression captures nothing. -/
lemma Reads.get_eq_none {r : Regex α} {w t : List α} {d : Captures α} (h : Reads r w d t) {i : ℕ}
    (hi : i ∉ r.groups) : Captures.get d i = none := by
  simp only [Captures.get, Option.map_eq_none_iff, List.find?_eq_none, beq_iff_eq]
  rintro p hp rfl
  exact hi (h.mem_groups p hp)

/-! ## Languages -/

/-- The expression does not look ahead. -/
def aheadFree : Regex α → Bool
  | empty => true
  | char _ => true
  | ahead _ => false
  | seq a b => a.aheadFree && b.aheadFree
  | alt a b => a.aheadFree && b.aheadFree
  | star a => a.aheadFree
  | group _ a => a.aheadFree

/-- Without a look ahead the text behind a word does not matter. -/
lemma Reads.congr_right {r : Regex α} {w t : List α} {d : Captures α} (h : Reads r w d t)
    (hr : r.aheadFree = true) (t' : List α) : Reads r w d t' := by
  induction h generalizing t' with
  | empty => exact .empty
  | char hc => exact .char hc
  | ahead => cases hr
  | seq _ _ iha ihb =>
    obtain ⟨ha, hb⟩ := Bool.and_eq_true_iff.1 hr
    exact .seq (iha ha _) (ihb hb _)
  | altLeft _ ih => exact .altLeft (ih (Bool.and_eq_true_iff.1 hr).1 _)
  | altRight _ ih => exact .altRight (ih (Bool.and_eq_true_iff.1 hr).2 _)
  | starNil => exact .starNil
  | starCons _ _ iha ihs => exact .starCons (iha hr _) (ihs hr _)
  | group _ ih => exact .group (ih hr _)

/-- An expression without its groups. -/
def ungroup : Regex α → Regex α
  | empty => empty
  | char p => char p
  | ahead p => ahead p
  | seq a b => seq a.ungroup b.ungroup
  | alt a b => alt a.ungroup b.ungroup
  | star a => star a.ungroup
  | group _ a => a.ungroup

lemma Reads.ungroup {r : Regex α} {w t : List α} {d : Captures α} (h : Reads r w d t) :
    Reads r.ungroup w [] t := by
  induction h with
  | empty => exact .empty
  | char hc => exact .char hc
  | ahead hp => exact .ahead hp
  | seq _ _ iha ihb => exact .seq iha ihb
  | altLeft _ ih => exact .altLeft ih
  | altRight _ ih => exact .altRight ih
  | starNil => exact .starNil
  | starCons _ _ iha ihs => exact .starCons iha ihs
  | group _ ih => exact ih

/-- The words of an expression. -/
def Lang (r : Regex α) (w : List α) : Prop := Reads r.ungroup w [] []

lemma aheadFree_ungroup (r : Regex α) : r.ungroup.aheadFree = r.aheadFree := by
  induction r <;> simp_all [Regex.ungroup, aheadFree]

/-- What an expression reads is one of its words. -/
lemma Reads.lang {r : Regex α} {w t : List α} {d : Captures α} (h : Reads r w d t)
    (hr : r.aheadFree = true) : Lang r w :=
  h.ungroup.congr_right (by rwa [aheadFree_ungroup]) []

/-- The expression can read nothing. -/
def nullable : Regex α → Bool
  | empty => true
  | char _ => false
  | ahead _ => true
  | seq a b => a.nullable && b.nullable
  | alt a b => a.nullable || b.nullable
  | star _ => true
  | group _ a => a.nullable

lemma Reads.ne_nil {r : Regex α} {w t : List α} {d : Captures α} (h : Reads r w d t)
    (hr : r.nullable = false) : w ≠ [] := by
  induction h with
  | char => simp
  | @seq a b u v t d e _ _ iha ihb =>
    rw [nullable, Bool.and_eq_false_iff] at hr
    obtain hr | hr := hr
    · simp [iha hr]
    · simp [ihb hr]
  | altLeft _ ih => exact ih (Bool.or_eq_false_iff.1 hr).1
  | altRight _ ih => exact ih (Bool.or_eq_false_iff.1 hr).2
  | group _ ih => exact ih hr
  | _ => cases hr

end Regex

end Cppcms
