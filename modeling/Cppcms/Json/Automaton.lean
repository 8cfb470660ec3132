import Cppcms.Json.Grammar

/-!
# The automaton follows the grammar

The pointers on the stack of `parse_stream` are the ways to the values that are not complete: each
of them is the last element of the next array on the stack, or the newest member of the next object.
A `Frame` is what is known of such an array or object.  Then a step of the automaton is a step in
the innermost value (`start_spec`), and the automaton reads what the parser by recursive descent
reads (`Simulates`).
-/

namespace Cppcms

namespace Json

variable {ν : Type}

/-! ## Pointers -/

lemma deref_append {v w : Value ν} {p : List Place} (h : deref v p = some w) (q : List Place) :
    deref v (p ++ q) = deref w q := by
  induction p generalizing v with
  | nil =>
    rw [deref] at h
    cases h
    rfl
  | cons place p ih =>
    rw [deref, Option.bind_eq_some_iff] at h
    rcases h with ⟨x, hx, hp⟩
    rw [List.cons_append, deref, hx, Option.bind_some, ih hp]

/-- An assignment behind a pointer is an assignment of the whole value that it points to. -/
lemma assign_append {v w x y : Value ν} {p q : List Place} (h : deref v p = some w)
    (hassign : assign x w q = some y) :
    assign x v (p ++ q) = assign y v p := by
  induction p generalizing v with
  | nil =>
    rw [deref] at h
    cases h
    rw [List.nil_append, hassign, assign]
  | cons place p ih =>
    rw [deref, Option.bind_eq_some_iff] at h
    rcases h with ⟨u, hu, hp⟩
    rw [List.cons_append, assign, assign, hu, Option.bind_some, Option.bind_some, ih hp]

variable {key : Bytes}

lemma find_cons_self {v : Value ν} {o : List (Bytes × Value ν)} :
    ((key, v) :: o).find? (fun m => m.1 = key) = some (key, v) := by
  rw [List.find?_cons_of_pos]
  exact decide_eq_true rfl

lemma find_insertList {v : Value ν} {o : List (Bytes × Value ν)} :
    (SortedMap.insertList key v o).find? (fun m => m.1 = key) = some (key, v) := by
  induction o with
  | nil => exact find_cons_self
  | cons m o ih =>
    rw [SortedMap.insertList]
    split_ifs with hlt heq
    · exact find_cons_self
    · exact find_cons_self
    · rw [List.find?_cons_of_neg, ih]
      exact fun h => heq (of_decide_eq_true h).symm

lemma insertList_insertList {v w : Value ν} {o : List (Bytes × Value ν)} :
    SortedMap.insertList key w (SortedMap.insertList key v o) = SortedMap.insertList key w o := by
  induction o with
  | nil => simp [SortedMap.insertList]
  | cons m o ih =>
    rw [SortedMap.insertList, SortedMap.insertList]
    split_ifs with hlt heq
    · rw [SortedMap.insertList, if_neg (lt_irrefl _), if_pos rfl]
    · rw [SortedMap.insertList, if_neg (lt_irrefl _), if_pos rfl]
    · rw [SortedMap.insertList, if_neg hlt, if_neg heq, ih]

/-! ## Frames -/

/-- An array that waits for its last element, or an object that waits for the member with a key. -/
inductive Frame (ν : Type) where
  | array (a : List (Value ν))
  | object (o : List (Bytes × Value ν)) (key : Bytes)

namespace Frame

/-- The array or object with the value it waits for. -/
def fill (v : Value ν) : Frame ν → Value ν
  | array a => .array (a ++ [v])
  | object o key => .object (SortedMap.insertList key v o)

def place : Frame ν → Place
  | array a => .element a.length (a.length + 1)
  | object _ key => .member key

/-- The state that the automaton returns to. -/
def state : Frame ν → State
  | array _ => .arrayCloseOrCommaExpected
  | object _ _ => .objectCloseOrCommaExpected

lemma child_fill (f : Frame ν) (v : Value ν) : child (f.fill v) f.place = some v := by
  cases f with
  | array a =>
    unfold fill place
    rw [child, List.length_append, List.length_singleton, if_pos rfl, List.getElem?_concat_length]
  | object o key =>
    unfold fill place
    rw [child, find_insertList]
    rfl

lemma setChild_fill (f : Frame ν) (v w : Value ν) : setChild w (f.fill v) f.place = f.fill w := by
  cases f with
  | array a =>
    unfold fill place
    rw [setChild, List.set_append_right _ _ le_rfl, Nat.sub_self]
    rfl
  | object o key =>
    unfold fill place
    rw [setChild, insertList_insertList]

lemma deref_fill (f : Frame ν) (v : Value ν) : deref (f.fill v) [f.place] = some v := by
  rw [deref, child_fill, Option.bind_some, deref]

lemma assign_fill (f : Frame ν) (v w : Value ν) :
    assign w (f.fill v) [f.place] = some (f.fill w) := by
  rw [assign, child_fill, Option.bind_some, assign, Option.map_some, setChild_fill]

end Frame

/-- The whole value around the innermost one. -/
def plug : List (Frame ν) → Value ν → Value ν
  | [], v => v
  | f :: fs, v => plug fs (f.fill v)

/-- The pointer to the innermost value. -/
def pointer : List (Frame ν) → List Place
  | [] => []
  | f :: fs => pointer fs ++ [f.place]

def frameStack : List (Frame ν) → List (State × List Place)
  | [] => [(.done, [])]
  | f :: fs => (f.state, pointer (f :: fs)) :: frameStack fs

lemma deref_plug (fs : List (Frame ν)) (v : Value ν) : deref (plug fs v) (pointer fs) = some v := by
  induction fs generalizing v with
  | nil => rw [pointer, plug, deref]
  | cons f fs ih =>
    rw [pointer, plug, deref_append (ih _), Frame.deref_fill]

lemma assign_plug (fs : List (Frame ν)) (v w : Value ν) :
    assign w (plug fs v) (pointer fs) = some (plug fs w) := by
  induction fs generalizing v w with
  | nil => rw [pointer, assign, plug]
  | cons f fs ih =>
    rw [pointer, plug, assign_append (deref_plug fs _) (f.assign_fill v w), ih]
    rfl

/-! ## Steps -/

namespace Parser

/-- The automaton in a state of the innermost value. -/
def at_ (fs : List (Frame ν)) (v : Value ν) (state : State) (key : Bytes) : Parser ν :=
  ⟨state, key, frameStack fs, plug fs v⟩

/-- The innermost value is complete. -/
def finish (fs : List (Frame ν)) (v : Value ν) (key : Bytes) : Parser ν :=
  match fs with
  | [] => ⟨.done, key, [], v⟩
  | f :: fs => at_ fs (f.fill v) f.state key

variable {fs : List (Frame ν)} {v : Value ν} {state : State} {key : Bytes} {c : Option (Token ν)}

lemma pop_at : (at_ fs v state key).pop = .returns (finish fs v key) := by
  cases fs <;> rfl

lemma store_at (w : Value ν) :
    (at_ fs v state key).store (pointer fs) w = .returns (at_ fs w state key) := by
  unfold store at_
  dsimp only
  rw [assign_plug]

/-- The parser after the first token of a value inside of `fs`. -/
def Starts (fs : List (Frame ν)) (key : Bytes) (c : Option (Token ν)) (o : Outcome (Parser ν)) :
    Prop :=
  match c with
  | some .openArray => o = .returns (at_ fs (.array []) .arrayValueOrCloseExpected key)
  | some .openObject => o = .returns (at_ fs (.object []) .objectKeyOrCloseExpected key)
  | some t =>
    match t.scalar with
    | some v => o = .returns (finish fs v key)
    | none => ∃ p, o = .returns p ∧ p.state = .error
  | none => ∃ p, o = .returns p ∧ p.state = .error

/-- The first token of the value that a frame waits for. -/
lemma fill_starts (f : Frame ν) :
    Starts (f :: fs) key c
      ((⟨state, key, frameStack fs, plug (f :: fs) .undefined⟩ : Parser ν).fill f.state
        (pointer (f :: fs)) c) := by
  have hstore : ∀ w, (⟨state, key, frameStack fs, plug (f :: fs) .undefined⟩ : Parser ν).store
    (pointer (f :: fs)) w =
      .returns ⟨state, key, frameStack fs, plug (f :: fs) w⟩ := by
    intro w
    unfold store
    dsimp only
    rw [assign_plug]
  unfold fill Starts
  cases c with
  | none => exact ⟨_, rfl, rfl⟩
  | some t =>
    cases t with
    | openArray =>
      dsimp only
      rw [hstore, Outcome.returns_bind]
      rfl
    | openObject =>
      dsimp only
      rw [hstore, Outcome.returns_bind]
      rfl
    | str | number | true_ | false_ | null =>
      simp only [Token.scalar]
      rw [hstore, Outcome.returns_bind]
      rfl
    | _ => exact ⟨_, rfl, rfl⟩

lemma frameStack_eq (fs : List (Frame ν)) : ∃ s rest, frameStack fs = (s, pointer fs) :: rest := by
  cases fs with
  | nil => exact ⟨_, _, rfl⟩
  | cons f fs => exact ⟨_, _, rfl⟩

lemma length_frameStack (fs : List (Frame ν)) : (frameStack fs).length = fs.length + 1 := by
  induction fs with
  | nil => rfl
  | cons f fs ih => rw [frameStack, List.length_cons, List.length_cons, ih]

lemma step_at : (at_ fs v state key).step c = (at_ fs v state key).switch (pointer fs) c := by
  cases fs <;> rfl

/-- A token that closes the innermost value. -/
lemma step_close {t : Token ν}
    (h : (at_ fs v state key).switch (pointer fs) (some t) = (at_ fs v state key).pop) :
    (at_ fs v state key).step (some t) = .returns (finish fs v key) := by
  rw [step_at, h, pop_at]

/-- The first token of all. -/
lemma step_init : Starts [] [] c ((init : Parser ν).step c) := by
  unfold step Starts
  rw [init]
  dsimp only
  cases c with
  | none => exact ⟨_, rfl, rfl⟩
  | some t =>
    cases t with
    | openArray | openObject | str | number | true_ | false_ | null => rfl
    | _ => exact ⟨_, rfl, rfl⟩

/-- A token behind the elements `a`. -/
lemma step_element {a : List (Value ν)} (hc : c ≠ some .closeArray) :
    Starts (.array a :: fs) key c ((at_ fs (.array a) .arrayValueOrCloseExpected key).step c) := by
  have hswitch : (at_ fs (.array a) .arrayValueOrCloseExpected key).switch (pointer fs) c =
      (at_ fs (.array a) .arrayValueOrCloseExpected key).addElement (pointer fs) c := by
    cases c with
    | none => rfl
    | some t =>
      cases t with
      | closeArray => exact absurd rfl hc
      | _ => rfl
  have hderef : deref (at_ fs (.array a) .arrayValueOrCloseExpected key).result (pointer fs) =
      some (.array a) :=
    deref_plug fs _
  rw [step_at, hswitch, addElement, hderef]
  dsimp only
  rw [store_at, Outcome.returns_bind]
  exact fill_starts (.array a)

/-- The value of the member with a new key. -/
lemma step_member {o : List (Bytes × Value ν)} (hkey : key ∉ o.map Prod.fst) :
    Starts (.object o key :: fs) key c ((at_ fs (.object o) .objectValueExpected key).step c) := by
  have hderef : deref (at_ fs (.object o) .objectValueExpected key).result (pointer fs) =
      some (.object o) :=
    deref_plug fs _
  have hswitch : (at_ fs (.object o) .objectValueExpected key).switch (pointer fs) c =
      (at_ fs (.object o) .objectValueExpected key).addMember (pointer fs) c := rfl
  have hnew : ¬ (o.any fun m => m.1 = (at_ fs (.object o) .objectValueExpected key).key) = true :=
    fun h => hkey (any_key_iff.1 h)
  rw [step_at, hswitch, addMember, hderef]
  dsimp only
  rw [if_neg hnew, store_at, Outcome.returns_bind]
  exact fill_starts (.object o key)

/-- The key is in the object already. -/
lemma step_member_twice {o : List (Bytes × Value ν)} (hkey : key ∈ o.map Prod.fst) :
    ∃ p, (at_ fs (.object o) .objectValueExpected key).step c = .returns p ∧ p.state = .error := by
  have hderef : deref (at_ fs (.object o) .objectValueExpected key).result (pointer fs) =
      some (.object o) :=
    deref_plug fs _
  have hswitch : (at_ fs (.object o) .objectValueExpected key).switch (pointer fs) c =
      (at_ fs (.object o) .objectValueExpected key).addMember (pointer fs) c := rfl
  have htwice : (o.any fun m => m.1 = (at_ fs (.object o) .objectValueExpected key).key) = true :=
    any_key_iff.2 hkey
  rw [step_at, hswitch, addMember, hderef]
  dsimp only
  rw [if_pos htwice]
  exact ⟨_, rfl, rfl⟩

/-! ## Runs -/

/-- The automaton does not accept the tokens. -/
def Rejects (p : Parser ν) (ts : List (Token ν)) : Prop :=
  ∃ q rest, p.run ts = .returns (q, rest) ∧ q.state ≠ .done

lemma run_of_not_running {p : Parser ν} (h : ¬ p.running = true) (ts : List (Token ν)) :
    p.run ts = .returns (p, ts) := by
  cases ts with
  | nil => rw [run, if_neg h]
  | cons t ts => rw [run, if_neg h]

lemma rejects_of_error {p : Parser ν} (h : p.state = .error) (ts : List (Token ν)) :
    Rejects p ts := by
  have hnot : ¬ p.running = true := fun hrunning => (of_decide_eq_true hrunning).2.1 h
  refine ⟨p, ts, run_of_not_running hnot ts, ?_⟩
  rw [h]
  exact State.noConfusion

/-- The stack is too deep. -/
lemma rejects_of_depth (h : maxDepth ≤ fs.length) (hstate : state ≠ .done) (ts : List (Token ν)) :
    Rejects (at_ fs v state key) ts := by
  have hnot : ¬ (at_ fs v state key).running = true := by
    intro hrunning
    have hdepth := (of_decide_eq_true hrunning).2.2.2
    change (frameStack fs).length ≤ maxDepth at hdepth
    rw [length_frameStack] at hdepth
    omega
  exact ⟨_, ts, run_of_not_running hnot ts, hstate⟩

lemma running_at (h : fs.length < maxDepth) (herror : state ≠ .error) (hdone : state ≠ .done) :
    (at_ fs v state key).running = true := by
  apply decide_eq_true
  rcases frameStack_eq fs with ⟨s, rest, hstack⟩
  refine ⟨?_, herror, hdone, ?_⟩
  · change frameStack fs ≠ []
    rw [hstack]
    exact List.cons_ne_nil _ _
  · change (frameStack fs).length ≤ maxDepth
    rw [length_frameStack]
    exact h

lemma run_of_step {p q : Parser ν} {t : Token ν} (h : p.running = true)
    (hstep : p.step (some t) = .returns q) (ts : List (Token ν)) : p.run (t :: ts) = q.run ts := by
  rw [run, if_pos h, hstep, Outcome.returns_bind]

/-- A token stops the automaton. -/
lemma rejects_of_step {p q : Parser ν} {t : Token ν} (h : p.running = true)
    (hstep : p.step (some t) = .returns q) (herror : q.state = .error) (ts : List (Token ν)) :
    Rejects p (t :: ts) := by
  rcases rejects_of_error herror ts with ⟨r, rest, hrun, hstate⟩
  exact ⟨r, rest, (run_of_step h hstep ts).trans hrun, hstate⟩

/-- The end of the input stops the automaton. -/
lemma rejects_nil {p q : Parser ν} (h : p.running = true) (hstep : p.step none = .returns q)
    (herror : q.state = .error) : Rejects p [] := by
  refine ⟨q, [], ?_, ?_⟩
  · rw [run, if_pos h, hstep, Outcome.returns_bind, Outcome.pure_eq]
  · rw [herror]
    exact State.noConfusion

/-- The automaton goes on behind what was read, or rejects if nothing could be read. -/
def Follows {α : Type} (r : Option (α × List (Token ν))) (next : α → Bytes → Parser ν)
    (p : Parser ν) (ts : List (Token ν)) : Prop :=
  match r with
  | some (x, ts') => ∃ key, p.run ts = (next x key).run ts'
  | none => Rejects p ts

/-- The same of a parser that does the same. -/
lemma Follows.of_run {α : Type} {r : Option (α × List (Token ν))} {next : α → Bytes → Parser ν}
    {p q : Parser ν} {ts us : List (Token ν)} (h : Follows r next q us)
    (hrun : p.run ts = q.run us) : Follows r next p ts := by
  cases r with
  | none =>
    rcases h with ⟨q', rest, hq, hstate⟩
    exact ⟨q', rest, hrun.trans hq, hstate⟩
  | some r =>
    rcases h with ⟨key, hq⟩
    exact ⟨key, hrun.trans hq⟩

/-- The automaton reads what the recursive descent with `n` calls reads. -/
structure Simulates (ν : Type) (n : ℕ) : Prop where
  value (d : ℕ) (fs : List (Frame ν)) (key : Bytes) (t : Token ν) (ts : List (Token ν))
    (p : Parser ν) :
    fs.length + d = maxDepth → 2 * ts.length + 1 < n → Starts fs key (some t) (.returns p) →
    Follows (readValue n d t ts) (finish fs) p ts
  elements (d : ℕ) (fs : List (Frame ν)) (key : Bytes) (a : List (Value ν)) (ts : List (Token ν)) :
    fs.length + 1 + d = maxDepth → 2 * ts.length < n →
    Follows (readElements n d a ts) (fun a => finish fs (.array a))
      (at_ fs (.array a) .arrayValueOrCloseExpected key) ts
  members (d : ℕ) (fs : List (Frame ν)) (key : Bytes) (o : List (Bytes × Value ν))
    (ts : List (Token ν)) :
    fs.length + 1 + d = maxDepth → 2 * ts.length < n →
    Follows (readMembers n d o ts) (fun o => finish fs (.object o))
      (at_ fs (.object o) .objectKeyOrCloseExpected key) ts

variable {n d : ℕ}

lemma simulates_value {t : Token ν} {ts : List (Token ν)} {p : Parser ν} (ih : Simulates ν n)
    (hdepth : fs.length + d = maxDepth) (hn : 2 * ts.length + 1 < n + 1)
    (hstart : Starts fs key (some t) (.returns p)) :
    Follows (readValue (n + 1) d t ts) (finish fs) p ts := by
  by_cases harray : t = .openArray
  · subst harray
    obtain rfl : p = at_ fs (.array []) .arrayValueOrCloseExpected key := Outcome.returns.inj hstart
    cases d with
    | zero => exact rejects_of_depth (by omega) State.noConfusion ts
    | succ d =>
      have helements := ih.elements d fs key [] ts (by omega) (by omega)
      rw [readValue]
      cases hread : readElements n d [] ts with
      | none =>
        rw [hread] at helements
        exact helements
      | some r =>
        rw [hread] at helements
        exact helements
  by_cases hobject : t = .openObject
  · subst hobject
    obtain rfl : p = at_ fs (.object []) .objectKeyOrCloseExpected key := Outcome.returns.inj hstart
    cases d with
    | zero => exact rejects_of_depth (by omega) State.noConfusion ts
    | succ d =>
      have hmembers := ih.members d fs key [] ts (by omega) (by omega)
      rw [readValue]
      cases hread : readMembers n d [] ts with
      | none =>
        rw [hread] at hmembers
        exact hmembers
      | some r =>
        rw [hread] at hmembers
        exact hmembers
  · rw [readValue_scalar harray hobject]
    cases t with
    | openArray => exact absurd rfl harray
    | openObject => exact absurd rfl hobject
    | str | number | true_ | false_ | null =>
      obtain rfl := Outcome.returns.inj hstart
      exact ⟨key, rfl⟩
    | _ =>
      rcases hstart with ⟨q, hq, herror⟩
      cases hq
      exact rejects_of_error herror ts

lemma Starts.returns {o : Outcome (Parser ν)} (h : Starts fs key c o) : ∃ p, o = .returns p := by
  unfold Starts at h
  split at h
  · exact ⟨_, h⟩
  · exact ⟨_, h⟩
  · split at h
    · exact ⟨_, h⟩
    · exact ⟨_, h.choose_spec.1⟩
  · exact ⟨_, h.choose_spec.1⟩

/-- The token behind an element. -/
lemma follows_element {a : List (Value ν)} {ts : List (Token ν)} (ih : Simulates ν n)
    (hdepth : fs.length + 1 + d = maxDepth) (hn : 2 * ts.length < n + 2) :
    Follows (restElements n d a (some (v, ts))) (fun a => finish fs (.array a))
      (at_ fs (.array (a ++ [v])) .arrayCloseOrCommaExpected key) ts := by
  have hrunning : (at_ fs (.array (a ++ [v])) .arrayCloseOrCommaExpected key).running = true :=
    running_at (by omega) State.noConfusion State.noConfusion
  cases ts with
  | nil => exact rejects_nil hrunning (step_at.trans rfl) rfl
  | cons t ts =>
    rw [List.length_cons] at hn
    cases t with
    | closeArray => exact ⟨key, run_of_step hrunning (step_close rfl) ts⟩
    | comma =>
      have helements := ih.elements d fs key (a ++ [v]) ts hdepth (by omega)
      exact helements.of_run (run_of_step hrunning step_at ts)
    | _ => exact rejects_of_step hrunning (step_at.trans rfl) rfl ts

lemma simulates_elements {a : List (Value ν)} {ts : List (Token ν)} (ih : Simulates ν n)
    (hdepth : fs.length + 1 + d = maxDepth) (hn : 2 * ts.length < n + 1) :
    Follows (readElements (n + 1) d a ts) (fun a => finish fs (.array a))
      (at_ fs (.array a) .arrayValueOrCloseExpected key) ts := by
  have hrunning : (at_ fs (.array a) .arrayValueOrCloseExpected key).running = true :=
    running_at (by omega) State.noConfusion State.noConfusion
  cases ts with
  | nil =>
    have hend : Starts (.array a :: fs) key none
        ((at_ fs (.array a) .arrayValueOrCloseExpected key).step none) :=
      step_element (Option.some_ne_none _).symm
    rcases hend with ⟨p, hstep, herror⟩
    exact rejects_nil hrunning hstep herror
  | cons t ts =>
    rw [List.length_cons] at hn
    by_cases ht : t = .closeArray
    · subst ht
      exact ⟨key, run_of_step hrunning (step_close rfl) ts⟩
    · have hstart : Starts (.array a :: fs) key (some t)
          ((at_ fs (.array a) .arrayValueOrCloseExpected key).step (some t)) :=
        step_element fun h => ht (Option.some.inj h)
      rcases hstart.returns with ⟨p, hstep⟩
      rw [hstep] at hstart
      have hvalue := ih.value d (.array a :: fs) key t ts p (by rw [List.length_cons]; exact hdepth)
        (by omega) hstart
      rw [readElements_cons ht]
      refine Follows.of_run ?_ (run_of_step hrunning hstep ts)
      cases hread : readValue n d t ts with
      | none =>
        rw [hread] at hvalue
        exact hvalue
      | some r =>
        have hlength := ((sound n).value hread).length_lt
        rw [List.length_cons] at hlength
        rw [hread] at hvalue
        rcases hvalue with ⟨key', hrun⟩
        exact (follows_element ih hdepth (by omega)).of_run hrun

/-- The token behind a member. -/
lemma follows_member {o : List (Bytes × Value ν)} {name : Bytes} {ts : List (Token ν)}
    (ih : Simulates ν n) (hdepth : fs.length + 1 + d = maxDepth) (hn : 2 * ts.length < n + 2) :
    Follows (restMembers n d o name (some (v, ts))) (fun o => finish fs (.object o))
      (at_ fs (.object (SortedMap.insertList name v o)) .objectCloseOrCommaExpected key) ts := by
  have hrunning :
      (at_ fs (.object (SortedMap.insertList name v o)) .objectCloseOrCommaExpected key).running =
        true :=
    running_at (by omega) State.noConfusion State.noConfusion
  cases ts with
  | nil => exact rejects_nil hrunning (step_at.trans rfl) rfl
  | cons t ts =>
    rw [List.length_cons] at hn
    cases t with
    | closeObject => exact ⟨key, run_of_step hrunning (step_close rfl) ts⟩
    | comma =>
      have hmembers := ih.members d fs key (SortedMap.insertList name v o) ts hdepth (by omega)
      exact hmembers.of_run (run_of_step hrunning step_at ts)
    | _ => exact rejects_of_step hrunning (step_at.trans rfl) rfl ts

/-- The value of a member. -/
lemma follows_key {o : List (Bytes × Value ν)} {t : Token ν} {ts : List (Token ν)}
    (ih : Simulates ν n) (hdepth : fs.length + 1 + d = maxDepth) (hn : 2 * ts.length + 1 < n) :
    Follows (if o.any fun m => m.1 = key then none else restMembers n d o key (readValue n d t ts))
      (fun o => finish fs (.object o)) (at_ fs (.object o) .objectValueExpected key) (t :: ts) := by
  have hrunning : (at_ fs (.object o) .objectValueExpected key).running = true :=
    running_at (by omega) State.noConfusion State.noConfusion
  by_cases hkey : key ∈ o.map Prod.fst
  · rw [if_pos (any_key_iff.2 hkey)]
    rcases step_member_twice hkey with ⟨p, hstep, herror⟩
    exact rejects_of_step hrunning hstep herror ts
  · rw [if_neg fun h => hkey (any_key_iff.1 h)]
    have hstart : Starts (.object o key :: fs) key (some t)
        ((at_ fs (.object o) .objectValueExpected key).step (some t)) := step_member hkey
    rcases hstart.returns with ⟨p, hstep⟩
    rw [hstep] at hstart
    have hvalue := ih.value d (.object o key :: fs) key t ts p
      (by rw [List.length_cons]; exact hdepth) (by omega) hstart
    refine Follows.of_run ?_ (run_of_step hrunning hstep ts)
    cases hread : readValue n d t ts with
    | none =>
      rw [hread] at hvalue
      exact hvalue
    | some r =>
      have hlength := ((sound n).value hread).length_lt
      rw [List.length_cons] at hlength
      rw [hread] at hvalue
      rcases hvalue with ⟨key', hrun⟩
      exact (follows_member ih hdepth (by omega)).of_run hrun

/-- The colon behind a key, and the value. -/
lemma follows_colon {o : List (Bytes × Value ν)} {ts : List (Token ν)} (ih : Simulates ν n)
    (hdepth : fs.length + 1 + d = maxDepth) (hn : 2 * ts.length + 2 < n + 1) :
    Follows (readMembers (n + 1) d o (.str key :: ts)) (fun o => finish fs (.object o))
      (at_ fs (.object o) .objectColonExpected key) ts := by
  have hcolon : (at_ fs (.object o) .objectColonExpected key).running = true :=
    running_at (by omega) State.noConfusion State.noConfusion
  have hvalue : (at_ fs (.object o) .objectValueExpected key).running = true :=
    running_at (by omega) State.noConfusion State.noConfusion
  cases ts with
  | nil => exact rejects_nil hcolon (step_at.trans rfl) rfl
  | cons t ts =>
    cases t with
    | colon =>
      refine Follows.of_run ?_ (run_of_step hcolon step_at ts)
      cases ts with
      | nil =>
        -- the input ends where the value of the member should be
        by_cases hkey : key ∈ o.map Prod.fst
        · rcases step_member_twice (c := none) hkey with ⟨p, hstep, herror⟩
          exact rejects_nil hvalue hstep herror
        · have hend : Starts (.object o key :: fs) key none
              ((at_ fs (.object o) .objectValueExpected key).step none) :=
            step_member hkey
          rcases hend with ⟨p, hstep, herror⟩
          exact rejects_nil hvalue hstep herror
      | cons t ts =>
        rw [readMembers_str]
        rw [List.length_cons, List.length_cons] at hn
        exact follows_key ih hdepth (by omega)
    | _ => exact rejects_of_step hcolon (step_at.trans rfl) rfl ts

lemma simulates_members {o : List (Bytes × Value ν)} {ts : List (Token ν)} (ih : Simulates ν n)
    (hdepth : fs.length + 1 + d = maxDepth) (hn : 2 * ts.length < n + 1) :
    Follows (readMembers (n + 1) d o ts) (fun o => finish fs (.object o))
      (at_ fs (.object o) .objectKeyOrCloseExpected key) ts := by
  have hrunning : (at_ fs (.object o) .objectKeyOrCloseExpected key).running = true :=
    running_at (by omega) State.noConfusion State.noConfusion
  cases ts with
  | nil => exact rejects_nil hrunning (step_at.trans rfl) rfl
  | cons t ts =>
    rw [List.length_cons] at hn
    cases t with
    | closeObject => exact ⟨key, run_of_step hrunning (step_close rfl) ts⟩
    | str name =>
      refine Follows.of_run (follows_colon ih hdepth (by omega)) ?_
      exact run_of_step hrunning step_at ts
    | _ => exact rejects_of_step hrunning (step_at.trans rfl) rfl ts

lemma simulates (n : ℕ) : Simulates ν n := by
  induction n with
  | zero =>
    constructor
    · intro d fs key t ts p _ hn
      omega
    · intro d fs key a ts _ hn
      omega
    · intro d fs key o ts _ hn
      omega
  | succ n ih =>
    constructor
    · intro d fs key t ts p hdepth hn hstart
      exact simulates_value ih hdepth hn hstart
    · intro d fs key a ts hdepth hn
      exact simulates_elements ih hdepth hn
    · intro d fs key o ts hdepth hn
      exact simulates_members ih hdepth hn

/-- The automaton has read the value at the front of the tokens. -/
lemma run_init (ts : List (Token ν)) : Follows (readFirst maxDepth ts) (finish []) init ts := by
  have hrunning : (init : Parser ν).running = true := rfl
  cases ts with
  | nil =>
    have hend : Starts [] [] none ((init : Parser ν).step none) := step_init
    rcases hend with ⟨p, hstep, herror⟩
    exact rejects_nil hrunning hstep herror
  | cons t ts =>
    have hstart : Starts [] [] (some t) ((init : Parser ν).step (some t)) := step_init
    rcases hstart.returns with ⟨p, hstep⟩
    rw [hstep] at hstart
    have hvalue := (simulates (2 * ts.length + 2)).value maxDepth [] [] t ts p (Nat.zero_add _)
      (by omega) hstart
    exact hvalue.of_run (run_of_step hrunning hstep ts)

end Parser

/-- `parse_stream` stores the value at the front of the tokens, and leaves the target alone if there
is none. -/
lemma parseStream_eq (forceEof : Bool) (ts : List (Token ν)) (out : Value ν) :
    parseStream forceEof ts out = .returns
      (match readFirst maxDepth ts with
      | some (v, rest) => if forceEof ∧ rest ≠ [] then (false, out) else (true, v)
      | none => (false, out)) := by
  have hrun := Parser.run_init ts
  unfold parseStream
  cases hread : readFirst maxDepth ts with
  | none =>
    rw [hread] at hrun
    rcases hrun with ⟨q, rest, hrun, hstate⟩
    rw [hrun, Outcome.returns_bind]
    dsimp only
    rw [if_neg hstate]
    rfl
  | some r =>
    rcases r with ⟨v, rest⟩
    rw [hread] at hrun
    rcases hrun with ⟨key, hrun⟩
    have hstate : (Parser.finish [] v key).state = .done := rfl
    have hstopped : ¬ (Parser.finish [] v key).running = true := fun h =>
      (of_decide_eq_true h).1 rfl
    rw [hrun, Parser.run_of_not_running hstopped, Outcome.returns_bind]
    dsimp only
    rw [if_pos hstate]
    split_ifs
    · rfl
    · rfl

end Json

end Cppcms
