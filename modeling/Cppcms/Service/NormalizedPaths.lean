import Cppcms.Service.FileServer

/-!
# What the normalization of a path yields

`normalize_path` keeps the components that are left in front of its cursor, each with a separator
behind it.  For `..` it goes back to the separator in front of the last component, but not over it:
the component that is written next replaces the separator, and so it becomes a part of the one
before (`/a/b/../c` yields `/ac`).  The `Cursor` of this module is what the loop keeps; it is
compared with the stack that the components of a path describe.
-/

namespace Cppcms

namespace Service

/-! ## The stack rule -/

/-- A component that is ignored. -/
def IsIgnored (c : Bytes) : Prop := c = [] ∨ c = [Ch.dot]

instance (c : Bytes) : Decidable (IsIgnored c) := inferInstanceAs (Decidable (_ ∨ _))

/-- The rule of one component. -/
def pushComponent (stack : List Bytes) (c : Bytes) : List Bytes :=
  if IsIgnored c then stack else if c = dotDot then stack.dropLast else stack ++ [c]

/-- The components that the rule leaves of a path. -/
def stackOf (path : Bytes) : List Bytes := (path.splitOn Ch.slash).foldl pushComponent []

/-- A separator and the components with separators between them. -/
def joinedPath (stack : List Bytes) : Bytes := Ch.slash :: [Ch.slash].intercalate stack

/-- The components that the rule does not ignore. -/
def relevantComponents (path : Bytes) : List Bytes :=
  (path.splitOn Ch.slash).filter fun c => ¬IsIgnored c

/-- Behind some point at which the stack is empty, nothing but another `..` follows on a `..`. -/
def Separated (cs : List Bytes) : Prop :=
  ∃ front back, cs = front ++ back ∧ front.foldl pushComponent [] = [] ∧
    back.IsChain fun c d => c = dotDot → d = dotDot

/-! ## The cursor -/

/-- The components in front of the cursor; `opened` if it is behind the last one and not behind a
separator. -/
structure Cursor where
  stack : List Bytes
  opened : Bool

namespace Cursor

/-- The next component is written. -/
def write (s : Cursor) (c : Bytes) : List Bytes :=
  if s.opened then s.stack.dropLast ++ [s.stack.getLastD [] ++ c] else s.stack ++ [c]

/-- A round of the loop for a component with a separator behind it. -/
def step (s : Cursor) (c : Bytes) : Cursor :=
  if IsIgnored c then s
  else if c = dotDot then ⟨s.stack.dropLast, !s.stack.dropLast.isEmpty⟩
  else ⟨s.write c, false⟩

/-- The cursor behind some components. -/
def run (cs : List Bytes) : Cursor := cs.foldl step ⟨[], false⟩

lemma run_append_singleton (cs : List Bytes) (c : Bytes) : run (cs ++ [c]) = (run cs).step c := by
  unfold run
  rw [List.foldl_append, List.foldl_cons, List.foldl_nil]

lemma length_write (s : Cursor) (c : Bytes) : (s.write c).length ≤ s.stack.length + 1 := by
  unfold write
  split_ifs
  · rw [List.length_append, List.length_dropLast, List.length_singleton]
    omega
  · rw [List.length_append, List.length_singleton]

end Cursor

/-! ## Where the two differ -/

section Compare

variable {cs : List Bytes} {c : Bytes}

lemma foldl_pushComponent_append_singleton (cs : List Bytes) (c : Bytes) :
    (cs ++ [c]).foldl pushComponent [] = pushComponent (cs.foldl pushComponent []) c := by
  rw [List.foldl_append, List.foldl_cons, List.foldl_nil]

/-- A component behind a separated sequence. -/
lemma separated_append_singleton_iff :
    Separated (cs ++ [c]) ↔ (cs ++ [c]).foldl pushComponent [] = [] ∨
    cs.foldl pushComponent [] = [] ∨
      Separated cs ∧ (cs.getLast? = some dotDot → c = dotDot) := by
  constructor
  · rintro ⟨front, back, hsplit, hempty, hchain⟩
    rcases List.eq_nil_or_concat back with rfl | ⟨back, d, rfl⟩
    · rw [List.append_nil] at hsplit
      rw [← hsplit] at hempty
      exact .inl hempty
    · rw [List.concat_eq_append, ← List.append_assoc] at hsplit
      rcases List.append_inj' hsplit rfl with ⟨rfl, hc⟩
      cases hc
      rw [List.concat_eq_append, List.isChain_append] at hchain
      rcases List.eq_nil_or_concat back with rfl | ⟨back, e, rfl⟩
      · rw [List.append_nil]
        exact .inr (.inl hempty)
      · refine .inr (.inr ⟨⟨front, _, rfl, hempty, hchain.1⟩, fun hlast => ?_⟩)
        rw [List.concat_eq_append, ← List.append_assoc, List.getLast?_concat] at hlast
        have he : e ∈ (back.concat e).getLast? := by
          rw [List.concat_eq_append, List.getLast?_concat]
          rfl
        exact hchain.2.2 e he c rfl (Option.some.inj hlast)
  · rintro (hempty | hempty | ⟨⟨front, back, rfl, hempty, hchain⟩, hlast⟩)
    · exact ⟨cs ++ [c], [], (List.append_nil _).symm, hempty, List.isChain_nil⟩
    · exact ⟨cs, [c], rfl, hempty, List.isChain_singleton c⟩
    · refine ⟨front, back ++ [c], (List.append_assoc _ _ _), hempty, ?_⟩
      rw [List.isChain_append]
      refine ⟨hchain, List.isChain_singleton c, fun d hd e he hdots => ?_⟩
      cases Option.some.inj he
      refine hlast ?_
      rw [List.getLast?_append_of_ne_nil _ (by rintro rfl; cases hd), hd, hdots]

/-- Either the cursor keeps the stack, and is behind a component only after a `..`, or it has lost a
component. -/
lemma cursor_cases (hcs : ∀ c ∈ cs, ¬IsIgnored c) :
    (Separated cs ∧ (Cursor.run cs).stack = cs.foldl pushComponent [] ∧
        ((Cursor.run cs).opened = true ↔
          cs.getLast? = some dotDot ∧ cs.foldl pushComponent [] ≠ [])) ∨
      (¬Separated cs ∧ (Cursor.run cs).stack.length < (cs.foldl pushComponent []).length) := by
  induction cs using List.reverseRecOn with
  | nil =>
    refine .inl ⟨⟨[], [], rfl, rfl, List.isChain_nil⟩, rfl, iff_of_false Bool.false_ne_true ?_⟩
    exact fun h => h.2 rfl
  | append_singleton cs c ih =>
    have hc : ¬IsIgnored c := hcs c (List.mem_append_right _ (List.mem_singleton_self c))
    have ih := ih fun d hd => hcs d (List.mem_append_left _ hd)
    rw [separated_append_singleton_iff, Cursor.run_append_singleton,
      foldl_pushComponent_append_singleton, List.getLast?_concat]
    generalize Cursor.run cs = s at ih
    generalize cs.foldl pushComponent [] = stack at ih
    unfold Cursor.step pushComponent
    rw [if_neg hc, if_neg hc]
    by_cases hdots : c = dotDot
    · rw [if_pos hdots, if_pos hdots]
      rcases ih with ⟨hseparated, hstack, -⟩ | ⟨hseparated, hlength⟩
      · rw [hstack]
        refine .inl ⟨.inr (.inr ⟨hseparated, fun _ => hdots⟩), rfl, ?_⟩
        rw [hdots]
        cases stack.dropLast <;> simp
      · by_cases hempty : stack.dropLast = []
        · -- both are empty again
          have hnil : s.stack.dropLast = [] := by
            have hzero : (stack.dropLast).length = 0 := by rw [hempty]; rfl
            rw [List.length_dropLast] at hzero
            rw [← List.length_eq_zero_iff, List.length_dropLast]
            omega
          rw [hempty, hnil]
          exact .inl ⟨.inl rfl, rfl, iff_of_false Bool.false_ne_true fun h => h.2 rfl⟩
        · have hpos : 0 < stack.dropLast.length := List.length_pos_iff.2 hempty
          refine .inr ⟨?_, ?_⟩
          · rintro (h | h | h)
            · exact hempty h
            · rw [h] at hempty
              exact hempty rfl
            · exact hseparated h.1
          · rw [List.length_dropLast] at hpos
            rw [List.length_dropLast, List.length_dropLast]
            omega
    · rw [if_neg hdots, if_neg hdots]
      have hne : stack ++ [c] ≠ [] := List.append_ne_nil_of_right_ne_nil _ (List.cons_ne_nil c [])
      have hlast : ¬(some c = some dotDot ∧ stack ++ [c] ≠ []) := fun h =>
        hdots (Option.some.inj h.1)
      rcases ih with ⟨hseparated, hstack, hopened⟩ | ⟨hseparated, hlength⟩
      · by_cases hopen : s.opened = true
        · -- the separator is overwritten
          have hglue := hopened.1 hopen
          refine .inr ⟨?_, ?_⟩
          · rintro (h | h | h)
            · exact hne h
            · exact hglue.2 h
            · exact hdots (h.2 hglue.1)
          · have hpos := List.length_pos_iff.2 hglue.2
            unfold Cursor.write
            rw [if_pos hopen, List.length_append, List.length_append, List.length_dropLast,
              List.length_singleton, List.length_singleton, hstack]
            omega
        · refine .inl ⟨?_, ?_, iff_of_false Bool.false_ne_true hlast⟩
          · by_cases hempty : stack = []
            · exact .inr (.inl hempty)
            · refine .inr (.inr ⟨hseparated, fun h => ?_⟩)
              exact absurd (hopened.2 ⟨h, hempty⟩) hopen
          · unfold Cursor.write
            rw [if_neg hopen, hstack]
      · refine .inr ⟨?_, ?_⟩
        · rintro (h | h | h)
          · exact hne h
          · rw [h] at hlength
            exact Nat.not_lt_zero _ hlength
          · exact hseparated h.1
        · refine lt_of_le_of_lt (s.length_write c) ?_
          rw [List.length_append, List.length_singleton]
          omega

/-- The cursor keeps the stack if and only if no separator was overwritten since the stack was
empty. -/
lemma stack_eq_iff (hcs : ∀ c ∈ cs, ¬IsIgnored c) :
    (Cursor.run cs).stack = cs.foldl pushComponent [] ↔ Separated cs := by
  rcases cursor_cases hcs with ⟨hseparated, hstack, -⟩ | ⟨hseparated, hlength⟩
  · exact iff_of_true hstack hseparated
  · refine iff_of_false (fun hstack => ?_) hseparated
    rw [hstack] at hlength
    exact lt_irrefl _ hlength

end Compare

/-! ## The octets in front of the cursor -/

/-- The components, with a separator in front and one behind each of them. -/
def terminated (stack : List Bytes) : Bytes := Ch.slash :: stack.flatMap fun c => c ++ [Ch.slash]

lemma terminated_append_singleton (stack : List Bytes) (c : Bytes) :
    terminated (stack ++ [c]) = terminated stack ++ (c ++ [Ch.slash]) := by
  unfold terminated
  rw [List.flatMap_append, List.flatMap_singleton, List.cons_append]

/-- The last octet is a separator. -/
lemma exists_terminated_eq (stack : List Bytes) :
    ∃ u, terminated stack = u ++ [Ch.slash] ∧ (stack = [] → u = []) ∧ (stack ≠ [] → u ≠ []) := by
  rcases List.eq_nil_or_concat stack with rfl | ⟨stack, c, rfl⟩
  · exact ⟨[], rfl, fun _ => rfl, fun h => absurd rfl h⟩
  · rw [List.concat_eq_append, terminated_append_singleton]
    refine ⟨terminated stack ++ c, (List.append_assoc _ _ _).symm, fun h => ?_, fun _ => ?_⟩
    · exact absurd h (List.append_ne_nil_of_right_ne_nil _ (List.cons_ne_nil c []))
    · exact List.append_ne_nil_of_left_ne_nil (List.cons_ne_nil _ _) _

lemma intercalate_append_singleton (stack : List Bytes) (c : Bytes) :
    [Ch.slash].intercalate (stack ++ [c]) = stack.flatMap (fun c => c ++ [Ch.slash]) ++ c := by
  induction stack with
  | nil => rw [List.nil_append, List.intercalate_singleton, List.flatMap_nil, List.nil_append]
  | cons d stack ih =>
    rw [List.cons_append, List.intercalate_cons_of_ne_nil
      (List.append_ne_nil_of_right_ne_nil _ (List.cons_ne_nil c [])), ih, List.flatMap_cons,
      List.append_assoc, List.append_assoc, List.append_assoc]

lemma joinedPath_append_singleton (stack : List Bytes) (c : Bytes) :
    joinedPath (stack ++ [c]) = terminated stack ++ c := by
  unfold joinedPath terminated
  rw [intercalate_append_singleton, List.cons_append]

namespace Cursor

/-- What is in front of the cursor. -/
def text (s : Cursor) : Bytes := if s.opened then joinedPath s.stack else terminated s.stack

/-- The components are no empty ones, and there is one if the cursor is behind it. -/
structure Sound (s : Cursor) : Prop where
  component : ∀ c ∈ s.stack, c ≠ [] ∧ Ch.slash ∉ c
  opened : s.opened = true → s.stack ≠ []

variable {s : Cursor} {c : Bytes}

lemma Sound.write (h : s.Sound) (hc : c ≠ [] ∧ Ch.slash ∉ c) :
    (∀ d ∈ s.write c, d ≠ [] ∧ Ch.slash ∉ d) ∧ s.write c ≠ [] := by
  unfold Cursor.write
  split_ifs with hopened
  · refine ⟨fun d hd => ?_, List.append_ne_nil_of_right_ne_nil _ (List.cons_ne_nil _ [])⟩
    rcases List.eq_nil_or_concat s.stack with hnil | ⟨stack, e, hstack⟩
    · exact absurd hnil (h.opened hopened)
    · rw [List.concat_eq_append] at hstack
      have he := h.component e (hstack ▸ List.mem_append_right _ (List.mem_singleton_self e))
      rw [hstack, List.dropLast_concat] at hd
      rcases List.mem_append.1 hd with hd | hd
      · exact h.component d (hstack ▸ List.mem_append_left _ hd)
      · have heq : d = e ++ c := by
          rw [List.mem_singleton.1 hd]
          simp
        rw [heq]
        refine ⟨List.append_ne_nil_of_left_ne_nil he.1 c, fun hmem => ?_⟩
        rcases List.mem_append.1 hmem with hmem | hmem
        · exact he.2 hmem
        · exact hc.2 hmem
  · refine ⟨fun d hd => ?_, List.append_ne_nil_of_right_ne_nil _ (List.cons_ne_nil _ [])⟩
    rcases List.mem_append.1 hd with hd | hd
    · exact h.component d hd
    · rw [List.mem_singleton.1 hd]
      exact hc

lemma Sound.step (h : s.Sound) (hc : Ch.slash ∉ c) : (s.step c).Sound := by
  unfold Cursor.step
  split_ifs with hignored hdots
  · exact h
  · refine ⟨fun d hd => h.component d (List.mem_of_mem_dropLast hd), fun hopened hnil => ?_⟩
    dsimp only at hopened hnil
    rw [hnil] at hopened
    cases hopened
  · exact ⟨(h.write ⟨fun hnil => hignored (.inl hnil), hc⟩).1, fun hopened => by cases hopened⟩

/-- The component that is written stands behind the cursor. -/
lemma Sound.joinedPath_write (h : s.Sound) (c : Bytes) : joinedPath (s.write c) = s.text ++ c := by
  unfold Cursor.write text
  split_ifs with hopened
  · rcases List.eq_nil_or_concat s.stack with hnil | ⟨stack, e, hstack⟩
    · exact absurd hnil (h.opened hopened)
    · have hlast : s.stack.getLastD [] = e := by
        rw [hstack, List.concat_eq_append]
        simp
      rw [hlast, hstack, List.concat_eq_append, List.dropLast_concat, joinedPath_append_singleton,
        joinedPath_append_singleton, List.append_assoc]
  · rw [joinedPath_append_singleton]

lemma terminated_eq_joinedPath {stack : List Bytes} (h : stack ≠ []) :
    terminated stack = joinedPath stack ++ [Ch.slash] := by
  rcases List.eq_nil_or_concat stack with hnil | ⟨stack, e, rfl⟩
  · exact absurd hnil h
  · rw [List.concat_eq_append, terminated_append_singleton, joinedPath_append_singleton,
      List.append_assoc]

end Cursor

/-! ## The loop moves the cursor -/

/-- The loop that goes back stops at the separator, but not in front of the second octet. -/
lemma back_eq {path : Bytes} {k n : ℕ} (hslash : path[k]? = some Ch.slash)
    (hnone : ∀ i, k < i → i < n → path[i]? ≠ some Ch.slash) (hlt : k < n) :
    back path n = max k 1 := by
  induction n with
  | zero => omega
  | succ n ih =>
    rw [back]
    split_ifs with hpos hat
    · have hk : k = n := by
        by_contra hne
        exact hnone n (by omega) (Nat.lt_succ_self n) hat
      omega
    · have hk : k ≠ n := by
        rintro rfl
        exact hat hslash
      exact ih (fun i hki hin => hnone i hki (hin.trans (Nat.lt_succ_self n))) (by omega)
    · omega

/-- From the octets in front of it the cursor goes back over the last component. -/
lemma back_component {path u c : Bytes} {n m : ℕ} (htake : path.take m = u ++ Ch.slash :: c)
    (hc : Ch.slash ∉ c) (hlow : u.length < n) (hhigh : n ≤ u.length + 1 + c.length) :
    back path n = max u.length 1 := by
  have hget : ∀ i < u.length + 1 + c.length, path[i]? = (u ++ Ch.slash :: c)[i]? := by
    intro i hi
    have hlength := congrArg List.length htake
    rw [List.length_take, List.length_append, List.length_cons] at hlength
    rw [← htake, List.getElem?_take_of_lt (by omega)]
  refine back_eq ?_ (fun i hki hin => ?_) hlow
  · rw [hget _ (by omega), List.getElem?_append_right le_rfl, Nat.sub_self, List.getElem?_cons_zero]
  · rw [hget _ (by omega), List.getElem?_append_right hki.le]
    rcases Nat.exists_eq_add_of_lt hki with ⟨j, rfl⟩
    have hsub : u.length + j + 1 - u.length = j + 1 := by omega
    rw [hsub, List.getElem?_cons_succ]
    exact fun hat => hc (List.mem_of_getElem? hat)

variable {path c : Bytes}

lemma drop_overwrite {out n : ℕ} (hout : out ≤ path.length) (hn : out + c.length ≤ n) :
    (overwrite path out c).drop n = path.drop n := by
  unfold overwrite
  have hlength : (path.take out ++ c).length = out + c.length := by
    rw [List.length_append, List.length_take, min_eq_left hout]
  rw [List.drop_append, List.drop_of_length_le (by omega), List.nil_append, hlength, List.drop_drop]
  congr 1
  omega

lemma length_overwrite {out : ℕ} (hout : out + c.length ≤ path.length) :
    (overwrite path out c).length = path.length := by
  unfold overwrite
  rw [List.length_append, List.length_append, List.length_take, List.length_drop]
  omega

/-- The path that is worked on: the octets in front of the cursor are those of `s`, and from `start`
on it is as it was. -/
structure Reached (original path : Bytes) (out start : ℕ) (s : Cursor) : Prop where
  length : path.length = original.length
  rest : path.drop start = original.drop start
  out_le : out ≤ start
  start_le : start ≤ original.length
  text : path.take out = s.text
  sound : s.Sound

section Rounds

variable {original path : Bytes} {out start : ℕ} {s : Cursor}

lemma Reached.out_eq (h : Reached original path out start s) : out = s.text.length := by
  have hlength := h.length
  have hout := h.out_le
  have hstart := h.start_le
  rw [← h.text, List.length_take]
  omega

/-- The cursor behind a `..`. -/
lemma Reached.parent (h : Reached original path out start s) :
    path.take (if out > 1 then back path (out - 1) else out) =
      Cursor.text ⟨s.stack.dropLast, !s.stack.dropLast.isEmpty⟩ := by
  rcases List.eq_nil_or_concat s.stack with hnil | ⟨stack, c, hstack⟩
  · have hopened : s.opened = false := by
      by_contra hopened
      exact h.sound.opened (Bool.eq_true_of_not_eq_false hopened) hnil
    have htext : s.text = [Ch.slash] := by
      unfold Cursor.text
      rw [hopened, hnil]
      rfl
    have hout := h.out_eq
    have htake := h.text
    rw [htext] at hout htake
    rw [if_neg (by rw [hout]; exact lt_irrefl 1), htake, hnil]
    rfl
  · rw [List.concat_eq_append] at hstack
    have hc := h.sound.component c (hstack ▸ List.mem_append_right _ (List.mem_singleton_self c))
    have hcpos := List.length_pos_iff.2 hc.1
    rcases exists_terminated_eq stack with ⟨u, hu, hunil, hune⟩
    have hjoined : joinedPath s.stack = u ++ Ch.slash :: c := by
      rw [hstack, joinedPath_append_singleton, hu, List.append_assoc]
      rfl
    have hterminated : terminated s.stack = u ++ Ch.slash :: c ++ [Ch.slash] := by
      rw [Cursor.terminated_eq_joinedPath (by rw [hstack]; simp), hjoined]
    -- the octets up to the end of the component
    have htake : path.take (u.length + 1 + c.length) = u ++ Ch.slash :: c ∧
        u.length + 1 + c.length ≤ out ∧ out ≤ u.length + 1 + c.length + 1 := by
      have hout := h.out_eq
      have htext := h.text
      unfold Cursor.text at hout htext
      split_ifs at hout htext with hopened
      · rw [hjoined, List.length_append, List.length_cons] at hout
        rw [hjoined] at htext
        have heq : u.length + 1 + c.length = out := by omega
        rw [heq]
        exact ⟨htext, by omega, by omega⟩
      · rw [hterminated, List.length_append, List.length_append, List.length_cons,
          List.length_singleton] at hout
        rw [hterminated] at htext
        have hless : u.length + 1 + c.length ≤ out := by omega
        refine ⟨?_, hless, by omega⟩
        rw [← min_eq_left hless, ← List.take_take, htext, List.take_append_of_le_length,
          List.take_of_length_le]
        · rw [List.length_append, List.length_cons]
          omega
        · rw [List.length_append, List.length_cons]
          omega
    rw [if_pos (by omega), back_component htake.1 hc.2 (by omega) (by omega), hstack,
      List.dropLast_concat]
    have hfront : path.take u.length = u := by
      have hle : u.length ≤ u.length + 1 + c.length := by omega
      rw [← min_eq_left hle, ← List.take_take, htake.1, List.take_append_of_le_length le_rfl,
        List.take_length]
    rcases List.eq_nil_or_concat stack with rfl | ⟨stack', d, hstack'⟩
    · rw [hunil rfl] at htake ⊢
      have hone : path.take 1 = [Ch.slash] := by
        have hle : 1 ≤ ([] : Bytes).length + 1 + c.length := by omega
        rw [← min_eq_left hle, ← List.take_take, htake.1]
        rfl
      exact hone
    · have hne : stack ≠ [] := by
        rw [hstack']
        simp
      have hupos := List.length_pos_iff.2 (hune hne)
      rw [max_eq_left (by omega), hfront]
      unfold Cursor.text
      have hisEmpty : stack.isEmpty = false := by
        rw [hstack']
        simp
      dsimp only
      rw [hisEmpty, Bool.not_false, if_pos rfl]
      have heq := Cursor.terminated_eq_joinedPath hne
      rw [hu] at heq
      exact List.append_cancel_right heq

variable {c : Bytes}

/-- A round for a component with a separator behind it. -/
lemma Reached.round (h : Reached original path out start s) (hc : Ch.slash ∉ c)
    (hcomponent : (path.drop start).take c.length = c)
    (hstop : start + c.length < original.length) :
    Reached original (putComponent original.length path out start (start + c.length)).1
      (putComponent original.length path out start (start + c.length)).2 (start + c.length + 1)
        (s.step c) := by
  have hlength := h.length
  have hout := h.out_le
  have hstart := h.start_le
  have hrest : path.drop (start + c.length + 1) = original.drop (start + c.length + 1) := by
    have hdrop := congrArg (List.drop (c.length + 1)) h.rest
    rw [List.drop_drop, List.drop_drop] at hdrop
    exact hdrop
  unfold putComponent Cursor.step
  rw [Nat.add_sub_cancel_left, hcomponent]
  dsimp only
  by_cases hignored : IsIgnored c
  · rw [if_pos hignored, if_pos (show c = [] ∨ c = [Ch.dot] from hignored)]
    exact ⟨h.length, hrest, by omega, by omega, h.text, h.sound⟩
  · rw [if_neg hignored, if_neg (show ¬(c = [] ∨ c = [Ch.dot]) from hignored)]
    by_cases hdots : c = dotDot
    · rw [if_pos hdots, if_pos hdots]
      have hsound := h.sound.step hc
      unfold Cursor.step at hsound
      rw [if_neg hignored, if_pos hdots] at hsound
      refine ⟨h.length, hrest, ?_, by omega, h.parent, hsound⟩
      dsimp only
      split_ifs with hpos
      · rcases back_cases path (out - 1) (by omega) with hone | hback
        · omega
        · omega
      · omega
    · rw [if_neg hdots, if_neg hdots, if_pos hstop.ne]
      have hsound := h.sound.step hc
      unfold Cursor.step at hsound
      rw [if_neg hignored, if_neg hdots] at hsound
      have hfirst : (overwrite path out c).length = path.length := length_overwrite (by omega)
      have htake := take_overwrite (c := c) (show out ≤ path.length by omega)
      have htext : (overwrite path out c).take (out + c.length) = s.text ++ c := by
        rw [htake, h.text]
      refine ⟨?_, ?_, by dsimp only; omega, by omega, ?_, hsound⟩
      · dsimp only
        rw [length_overwrite (by rw [hfirst, List.length_singleton]; omega), hfirst, h.length]
      · dsimp only
        rw [drop_overwrite (by omega) (by rw [List.length_singleton]; omega),
          drop_overwrite (by omega) (by omega), hrest]
      · have hslash : (overwrite (overwrite path out c) (out + c.length) [Ch.slash]).take
          (out + c.length + 1) =
            (overwrite path out c).take (out + c.length) ++ [Ch.slash] :=
          take_overwrite (c := [Ch.slash]) (by omega)
        dsimp only
        rw [hslash, htext, ← h.sound.joinedPath_write c]
        unfold Cursor.text
        rw [if_neg Bool.false_ne_true, Cursor.terminated_eq_joinedPath]
        exact (h.sound.write ⟨fun hnil => hignored (.inl hnil), hc⟩).2

/-- The round for the last component. -/
lemma Reached.last (h : Reached original path out start s) (hc : Ch.slash ∉ c)
    (hcomponent : (path.drop start).take c.length = c)
    (hstop : start + c.length = original.length) :
    ∃ t : Cursor, t.Sound ∧ t.stack = (s.step c).stack ∧
      (putComponent original.length path out start (start + c.length)).1.take
        (putComponent original.length path out start (start + c.length)).2 = t.text ∧
      (putComponent original.length path out start (start + c.length)).2 = t.text.length := by
  have hlength := h.length
  have hout := h.out_le
  unfold putComponent
  rw [Nat.add_sub_cancel_left, hcomponent]
  dsimp only
  by_cases hignored : IsIgnored c
  · refine ⟨s, h.sound, ?_, ?_⟩
    · unfold Cursor.step
      rw [if_pos hignored]
    · rw [if_pos (show c = [] ∨ c = [Ch.dot] from hignored)]
      exact ⟨h.text, h.out_eq⟩
  · rw [if_neg (show ¬(c = [] ∨ c = [Ch.dot]) from hignored)]
    by_cases hdots : c = dotDot
    · have hsound := h.sound.step hc
      have hparent := h.parent
      rw [if_pos hdots]
      unfold Cursor.step at hsound ⊢
      rw [if_neg hignored, if_pos hdots] at hsound ⊢
      refine ⟨_, hsound, rfl, hparent, ?_⟩
      have hle : (if out > 1 then back path (out - 1) else out) ≤ out := by
        split_ifs with hpos
        · rcases back_cases path (out - 1) (by omega) with hone | hback
          · omega
          · omega
        · exact le_rfl
      rw [← hparent, List.length_take]
      dsimp only
      omega
    · rw [if_neg hdots, if_neg (not_not.2 hstop)]
      have hwrite := h.sound.write ⟨fun hnil => hignored (.inl hnil), hc⟩
      have htake := take_overwrite (c := c) (show out ≤ path.length by omega)
      refine ⟨⟨s.write c, true⟩, ⟨hwrite.1, fun _ => hwrite.2⟩, ?_, ?_⟩
      · unfold Cursor.step
        rw [if_neg hignored, if_neg hdots]
      · unfold Cursor.text
        dsimp only
        rw [if_pos rfl, h.sound.joinedPath_write c, htake, h.text, List.length_append, ← h.out_eq]
        exact ⟨rfl, rfl⟩

/-- The loop goes through all components. -/
lemma Reached.rounds (h : Reached original path out start s) {rounds : ℕ}
    (hrounds : original.length - start ≤ rounds) :
    ∃ t : Cursor, t.Sound ∧
    t.stack = (((original.drop start).splitOn Ch.slash).foldl Cursor.step s).stack ∧
      (normalizeLoop original.length rounds path out start).1.take
        (normalizeLoop original.length rounds path out start).2 =
        t.text ∧
      (normalizeLoop original.length rounds path out start).2 = t.text.length := by
  induction rounds generalizing path out start s with
  | zero =>
    have hstart := h.start_le
    rw [List.drop_of_length_le (by omega)]
    exact ⟨s, h.sound, rfl, h.text, h.out_eq⟩
  | succ rounds ih =>
    rw [normalizeLoop]
    split_ifs with hstart hstop
    · -- the last component
      have hdrop : (path.drop start).takeWhile (· ≠ Ch.slash) = original.drop start := by
        rw [← h.rest]
        refine (List.takeWhile_prefix _).eq_of_length ?_
        rw [List.length_drop, h.length]
        unfold findSlash at hstop
        omega
      have hc : Ch.slash ∉ original.drop start := by
        rw [← hdrop]
        exact notMem_takeWhile _
      have hlength : (original.drop start).length = original.length - start := List.length_drop
      have hsize : findSlash path start = start + (original.drop start).length := by
        rw [hstop]
        omega
      rw [hsize, List.splitOn_eq_singleton hc, List.foldl_cons, List.foldl_nil]
      refine h.last hc ?_ (by omega)
      rw [h.rest, List.take_length]
    · have hc : Ch.slash ∉ (path.drop start).takeWhile (· ≠ Ch.slash) := by
        intro hmem
        have hnot := List.mem_takeWhile_imp hmem
        simp at hnot
      have hcomponent : (path.drop start).take ((path.drop start).takeWhile (· ≠ Ch.slash)).length =
          (path.drop start).takeWhile (· ≠ Ch.slash) :=
        (List.prefix_iff_eq_take.1 (List.takeWhile_prefix _)).symm
      have hle : ((path.drop start).takeWhile (· ≠ Ch.slash)).length ≤ original.length - start := by
        rw [← h.length, ← List.length_drop]
        exact (List.takeWhile_prefix _).length_le
      unfold findSlash at hstop
      have hnext := h.round hc hcomponent (by omega)
      have hsplit : original.drop start = (path.drop start).takeWhile (· ≠ Ch.slash) ++
          Ch.slash :: original.drop
            (start + ((path.drop start).takeWhile (· ≠ Ch.slash)).length + 1) := by
        have hcut := eq_takeWhile_append_cons (a := Ch.slash) (w := path.drop start)
          (by rw [List.length_drop, h.length]; omega)
        rw [h.rest, List.drop_drop] at hcut
        rw [h.rest]
        exact hcut
      rw [hsplit, List.splitOn_append_cons_self, List.splitOn_eq_singleton hc,
        List.singleton_append, List.foldl_cons]
      exact ih hnext (by omega)
    · have hend := h.start_le
      rw [List.drop_of_length_le (by omega)]
      exact ⟨s, h.sound, rfl, h.text, h.out_eq⟩

end Rounds

/-! ## The normalized path -/

/-- The components that the cursor ignores do not matter. -/
lemma foldl_step_filter (cs : List Bytes) (s : Cursor) :
    cs.foldl Cursor.step s = (cs.filter fun c => ¬IsIgnored c).foldl Cursor.step s := by
  induction cs generalizing s with
  | nil => rfl
  | cons c cs ih =>
    by_cases hc : IsIgnored c
    · have hstep : s.step c = s := by
        unfold Cursor.step
        rw [if_pos hc]
      rw [List.foldl_cons, hstep, ih, List.filter_cons_of_neg (by simpa using hc)]
    · rw [List.foldl_cons, ih, List.filter_cons_of_pos (by simpa using hc), List.foldl_cons]

lemma foldl_pushComponent_filter (cs stack : List Bytes) :
    cs.foldl pushComponent stack = (cs.filter fun c => ¬IsIgnored c).foldl pushComponent stack := by
  induction cs generalizing stack with
  | nil => rfl
  | cons c cs ih =>
    by_cases hc : IsIgnored c
    · have hpush : pushComponent stack c = stack := by
        unfold pushComponent
        rw [if_pos hc]
      rw [List.foldl_cons, hpush, ih, List.filter_cons_of_neg (by simpa using hc)]
    · rw [List.foldl_cons, ih, List.filter_cons_of_pos (by simpa using hc), List.foldl_cons]

lemma stackOf_eq (path : Bytes) : stackOf path = (relevantComponents path).foldl pushComponent [] :=
  foldl_pushComponent_filter _ _

/-- What is on the stack was pushed. -/
lemma mem_of_mem_foldl_pushComponent {cs stack : List Bytes} {c : Bytes}
    (h : c ∈ cs.foldl pushComponent stack) :
    c ∈ stack ∨ c ∈ cs ∧ ¬IsIgnored c := by
  induction cs generalizing stack with
  | nil => exact .inl h
  | cons d cs ih =>
    rcases ih h with hc | hc
    · unfold pushComponent at hc
      split_ifs at hc with hignored hdots
      · exact .inl hc
      · exact .inl (List.mem_of_mem_dropLast hc)
      · rcases List.mem_append.1 hc with hc | hc
        · exact .inl hc
        · rw [List.mem_singleton.1 hc]
          exact .inr ⟨List.mem_cons_self, hignored⟩
    · exact .inr ⟨List.mem_cons_of_mem d hc.1, hc.2⟩

/-- The separator in front does not matter. -/
lemma relevantComponents_cons_slash (path : Bytes) :
    relevantComponents (Ch.slash :: path) = relevantComponents path := by
  unfold relevantComponents
  have hsplit := List.splitOn_append_cons_self (a := Ch.slash) ([] : Bytes) path
  rw [List.nil_append] at hsplit
  rw [hsplit, List.filter_append]
  rfl

/-- The result is what the cursor keeps. -/
lemma normalizePath_eq (path : Bytes) :
    ∃ t : Cursor, t.Sound ∧ t.stack = (Cursor.run (relevantComponents path)).stack ∧
    normalizePath path = joinedPath t.stack := by
  have hroot : ∃ p, (if path.head? = some Ch.slash then path else Ch.slash :: path) = Ch.slash ::
    p ∧
      relevantComponents p = relevantComponents path := by
    split_ifs with hhead
    · rcases path with _ | ⟨c, p⟩
      · cases hhead
      · cases Option.some.inj hhead
        exact ⟨p, rfl, (relevantComponents_cons_slash p).symm⟩
    · exact ⟨path, rfl, rfl⟩
  rcases hroot with ⟨p, hp, hrelevant⟩
  unfold normalizePath
  rw [hp]
  have hfirst : Reached (Ch.slash :: p) (Ch.slash :: p) 1 1 ⟨[], false⟩ := by
    refine ⟨rfl, rfl, le_rfl, by rw [List.length_cons]; omega, rfl, fun c hc => ?_,
      fun h => by cases h⟩
    cases hc
  have hrounds : (Ch.slash :: p).length - 1 ≤ (Ch.slash :: p).length := Nat.sub_le _ _
  rcases hfirst.rounds hrounds with ⟨t, hsound, hstack, htext, hout⟩
  refine ⟨t, hsound, ?_, ?_⟩
  · rw [hstack, foldl_step_filter, ← hrelevant]
    rfl
  · dsimp only
    generalize normalizeLoop (Ch.slash :: p).length (Ch.slash :: p).length (Ch.slash :: p)
      1 1 = r at htext hout
    have hlast : 0 < r.2 → r.1[r.2 - 1]? = t.text.getLast? := by
      intro hpos
      rw [List.getLast?_eq_getElem?, ← hout, ← htext, List.getElem?_take_of_lt (by omega)]
    rcases List.eq_nil_or_concat t.stack with hnil | ⟨stack, c, hconcat⟩
    · have hopened : t.opened = false := by
        by_contra hopened
        exact hsound.opened (Bool.eq_true_of_not_eq_false hopened) hnil
      have hslash : t.text = [Ch.slash] := by
        unfold Cursor.text
        rw [hopened, hnil]
        rfl
      rw [hslash] at hout
      rw [if_neg (by rw [hout]; exact fun h => lt_irrefl 1 h.2), htext, hslash, hnil]
      rfl
    · rw [List.concat_eq_append] at hconcat
      have hc := hsound.component c (hconcat ▸ List.mem_append_right _ (List.mem_singleton_self c))
      have hjoined := joinedPath_append_singleton stack c
      rw [← hconcat] at hjoined
      have hlength : 0 < (terminated stack).length := Nat.succ_pos _
      have hcpos := List.length_pos_iff.2 hc.1
      by_cases hopened : t.opened = true
      · have hopen : t.text = joinedPath t.stack := if_pos hopened
        rw [hopen, hjoined] at hout hlast htext
        rw [List.length_append] at hout
        rw [if_neg, htext, hjoined]
        rintro ⟨hslash, -⟩
        rw [hlast (by omega), List.getLast?_append_of_ne_nil _ hc.1] at hslash
        exact hc.2 (List.mem_of_getLast? hslash)
      · have hclosed : t.text = joinedPath t.stack ++ [Ch.slash] := by
          unfold Cursor.text
          rw [if_neg hopened, Cursor.terminated_eq_joinedPath]
          rw [hconcat]
          exact List.append_ne_nil_of_right_ne_nil _ (List.cons_ne_nil c [])
        rw [hclosed] at hout hlast htext
        rw [List.length_append, List.length_singleton] at hout
        have hjpos : 0 < (joinedPath t.stack).length := Nat.succ_pos _
        rw [List.getLast?_concat] at hlast
        rw [if_pos ⟨hlast (by omega), by omega⟩, hout, Nat.add_sub_cancel]
        have hle : (joinedPath t.stack).length ≤ r.2 := by omega
        rw [← min_eq_left hle, ← List.take_take, htext, List.take_append_of_le_length le_rfl,
          List.take_length]

/-- The components of a joined path. -/
lemma segments_joinedPath {stack : List Bytes} (h : ∀ c ∈ stack, c ≠ [] ∧ Ch.slash ∉ c) :
    components (joinedPath stack) = stack := by
  have hterminated : ∀ stack : List Bytes, (∀ c ∈ stack, c ≠ [] ∧ Ch.slash ∉ c) →
      components (terminated stack) = stack := by
    intro stack
    induction stack using List.reverseRecOn with
    | nil => exact fun _ => segments_singleton
    | append_singleton stack c ih =>
      intro h
      have hc := h c (List.mem_append_right _ (List.mem_singleton_self c))
      rcases exists_terminated_eq stack with ⟨u, hu, -⟩
      have hstack := ih fun d hd => h d (List.mem_append_left _ hd)
      rw [hu] at hstack
      rw [terminated_append_singleton, hu, List.append_assoc, List.singleton_append,
        components_append_slash]
      have hfront : components (u ++ [Ch.slash]) = components u := segments_append_singleton u
      have hback : components (c ++ [Ch.slash]) = [c] := by
        refine (segments_append_singleton c).trans (segments_of_not_mem hc.2 hc.1)
      rw [← hfront, hstack, hback]
  rcases List.eq_nil_or_concat stack with rfl | ⟨front, c, hconcat⟩
  · exact segments_singleton
  · have hne : stack ≠ [] := by
      rw [hconcat]
      simp
    have heq := hterminated stack h
    rw [Cursor.terminated_eq_joinedPath hne] at heq
    have hend : components (joinedPath stack ++ [Ch.slash]) = components (joinedPath stack) :=
      segments_append_singleton _
    rw [← hend, heq]

lemma relevantComponents_eq (path : Bytes) :
    relevantComponents path = (components path).filter fun c => c ≠ [Ch.dot] := by
  unfold relevantComponents components segments
  rw [List.filter_filter]
  refine List.filter_congr fun c _ => ?_
  unfold IsIgnored
  by_cases hnil : c = []
  · simp [hnil]
  · simp [hnil]

/-- The result is normalized. -/
lemma normalizePath_normalizePath (path : Bytes) :
    normalizePath (normalizePath path) = normalizePath path := by
  rcases normalizePath_eq path with ⟨t, hsound, -, heq⟩
  have hclean := (normalizePath_clean path).2
  rw [heq] at hclean ⊢
  unfold Clean at hclean
  rw [segments_joinedPath hsound.component] at hclean
  have hrelevant : relevantComponents (joinedPath t.stack) = t.stack := by
    rw [relevantComponents_eq, segments_joinedPath hsound.component]
    exact List.filter_eq_self.2 fun c hc => by simpa using (hclean c hc).1
  rcases normalizePath_eq (joinedPath t.stack) with ⟨t', -, hstack, heq'⟩
  have hkeep : ∀ cs : List Bytes, (∀ c ∈ cs, c ∈ t.stack) → Cursor.run cs = ⟨cs, false⟩ := by
    intro cs
    induction cs using List.reverseRecOn with
    | nil => exact fun _ => rfl
    | append_singleton cs c ih =>
      intro hmem
      have hc := hmem c (List.mem_append_right _ (List.mem_singleton_self c))
      have hignored : ¬IsIgnored c := fun h => h.elim (hsound.component c hc).1 (hclean c hc).1
      rw [Cursor.run_append_singleton, ih fun d hd => hmem d (List.mem_append_left _ hd)]
      unfold Cursor.step Cursor.write
      rw [if_neg hignored, if_neg (hclean c hc).2, if_neg Bool.false_ne_true]
  rw [heq', hstack, hrelevant, hkeep t.stack fun _ hc => hc]

/-- The result is the components that the stack rule leaves, joined behind a separator, and
normalizing it again changes nothing, if and only if no component follows on a `..` behind the last
point at which the stack is empty. -/
theorem normalizePath_joined_iff (path : Bytes) :
    (normalizePath path = joinedPath (stackOf path) ∧
      normalizePath (normalizePath path) = normalizePath path) ↔
      Separated (relevantComponents path) := by
  rcases normalizePath_eq path with ⟨t, hsound, hstack, heq⟩
  have hrelevant : ∀ c ∈ relevantComponents path, ¬IsIgnored c := by
    intro c hc
    simpa using (List.mem_filter.1 hc).2
  have hslash : ∀ c ∈ stackOf path, c ≠ [] ∧ Ch.slash ∉ c := by
    intro c hc
    rcases mem_of_mem_foldl_pushComponent hc with hnil | ⟨hmem, hignored⟩
    · cases hnil
    · exact ⟨fun hnil => hignored (.inl hnil), notMem_of_mem_splitOn hmem⟩
  rw [and_iff_left (normalizePath_normalizePath path),
    heq, ← stack_eq_iff hrelevant, ← hstack, ← stackOf_eq]
  constructor
  · intro h
    have hcomponents := congrArg components h
    rwa [segments_joinedPath hsound.component, segments_joinedPath hslash] at hcomponents
  · intro h
    rw [h]

/-- The separator in front of the last component is lost. -/
theorem normalizePath_parent :
    ¬(normalizePath (bytes "/a/b/../c") = joinedPath (stackOf (bytes "/a/b/../c")) ∧
      normalizePath (normalizePath (bytes "/a/b/../c")) = normalizePath (bytes "/a/b/../c")) := by
  intro h
  have hresult : normalizePath (bytes "/a/b/../c") = bytes "/ac" := by decide
  have hstack : joinedPath (stackOf (bytes "/a/b/../c")) = bytes "/a/c" := by decide
  have heq := h.1
  rw [hresult, hstack] at heq
  exact absurd heq (by decide)

end Service

end Cppcms
