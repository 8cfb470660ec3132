import Cppcms.Template.Braces

/-!
# Accepted templates

What holds of every run of the compiler that ends without an error: the braces of both streams are
balanced, and every command was in its place.  The first fails for a `separator` after the item of
its `foreach`, which the compiler takes without a message, as it takes a skin in a block and content
outside of the templates.
-/

namespace Cppcms

namespace Template

open Delimiter State Regex

variable {cfg : Config} {st st' : State}

/-! ## Commands in a run -/

/-- The command that the main loop performs for a chunk. -/
def performed (cfg : Config) (st : State) (x : Text) : Option Command :=
  if x = [] then none
  else if st.stack = [] ∧ (pyMatch (seq cfg.unicode.spaces atEnd) x).isSome then none
  else if st.stack = [] ∧ !(pyMatch (cat [lit "<%", star dot, lit "%>"]) x).isSome then none
  else
    match Command.parse cfg.unicode x with
    | .command c => some c
    | _ => none

variable {x : Text} {c : Command} {e : Event} {es : List Event} {files : List (Text × Text)}

/-- A chunk performs its command, or it is text, or there is nothing to do but to report an error.
-/
lemma processChunk_cases (h : processChunk cfg st x = some st') :
    (∃ c, performed cfg st x = some c ∧ use cfg st c = some st') ∨
      (performed cfg st x = none ∧
        (st' = st ∨ (∃ m, st' = st.errorExit m) ∨ st' = inlineContent cfg st x)) := by
  unfold processChunk at h
  unfold performed
  split_ifs at h ⊢
  · exact .inr ⟨rfl, .inl (Option.some.inj h).symm⟩
  · exact .inr ⟨rfl, .inl (Option.some.inj h).symm⟩
  · exact .inr ⟨rfl, .inr (.inl ⟨_, (Option.some.inj h).symm⟩)⟩
  · cases hparse : Command.parse cfg.unicode x with
    | text =>
      rw [hparse] at h
      exact .inr ⟨rfl, .inr (.inr (Option.some.inj h).symm)⟩
    | command c =>
      rw [hparse] at h
      exact .inl ⟨c, rfl, h⟩
    | syntaxError name =>
      rw [hparse] at h
      exact .inr ⟨rfl, .inr (.inl ⟨_, (Option.some.inj h).symm⟩)⟩

lemma performed_use (hc : performed cfg st x = some c) (h : processChunk cfg st x = some st') :
    use cfg st c = some st' := by
  obtain ⟨c', hc', huse⟩ | ⟨hnone, -⟩ := processChunk_cases h
  · obtain rfl := Option.some.inj (hc.symm.trans hc')
    exact huse
  · rw [hc] at hnone
    cases hnone

/-- The command of an event, with the state in which it is performed. -/
def commandOf (cfg : Config) (st : State) : Event → Option (State × Command)
  | .chunk n x => (performed cfg { st with lineNumber := n } x).map
      (Prod.mk { st with lineNumber := n })
  | _ => none

/-- The commands of a run, each with the state in which it is performed. -/
def trace (cfg : Config) : State → List Event → List (State × Command)
  | _, [] => []
  | st, e :: es => (commandOf cfg st e).toList ++
    match step cfg st e with
    | none => []
    | some st₁ => trace cfg st₁ es

/-- The command of the first event, if it is one, and the others. -/
lemma trace_cons (es : List Event) (h : step cfg st e = some st') :
    trace cfg st (e :: es) = (commandOf cfg st e).toList ++ trace cfg st' es := by
  rw [trace, h]

/-- The command of an event acts on the state. -/
lemma use_of_commandOf {p : State × Command} (hp : commandOf cfg st e = some p)
    (h : step cfg st e = some st') : use cfg p.1 p.2 = some st' := by
  cases e with
  | chunk n x =>
    obtain ⟨c, hc, rfl⟩ := Option.map_eq_some_iff.1 hp
    exact performed_use hc h
  | _ => cases hp

lemma run_cons (st : State) (e : Event) (es : List Event) :
    run cfg st (e :: es) = (step cfg st e).bind fun st₁ => run cfg st₁ es := rfl

lemma run_append (st : State) (es es' : List Event) :
    run cfg st (es ++ es') = (run cfg st es).bind fun st₁ => run cfg st₁ es' := by
  induction es generalizing st with
  | nil => rfl
  | cons e es ih =>
    rw [List.cons_append, run_cons, run_cons, Option.bind_assoc]
    simp only [ih]

/-! ## The link between stack and braces in a run -/

/-- No separator comes after the item of its `foreach`. -/
def NoLateSeparator (cfg : Config) (st : State) (es : List Event) : Prop :=
  ∀ p ∈ trace cfg st es, p.2 = .separator → afterItem p.1.stack = false

/-- What holds of a run holds of its rest. -/
lemma NoLateSeparator.tail (h : NoLateSeparator cfg st (e :: es))
    (hstep : step cfg st e = some st') : NoLateSeparator cfg st' es := by
  intro p hp
  apply h p
  rw [trace_cons es hstep]
  exact List.mem_append_right _ hp

/-- Text outside of templates has no braces. -/
lemma keeps_inlineContent (cfg : Config) (st : State) (x : Text) :
    Keeps cfg st (inlineContent cfg st x) := by
  unfold inlineContent
  split_ifs
  · exact Keeps.refl st
  · exact (wrotePlain_output st rfl).keeps

/-- Every step keeps the braces in order, unless it is a separator that comes too late. -/
lemma keeps_step (hsep : NoLateSeparator cfg st (e :: es)) (h : step cfg st e = some st') :
    Keeps cfg st st' := by
  cases e with
  | fileStart name =>
    obtain rfl := Option.some.inj h
    exact Keeps.of_fields rfl rfl rfl rfl
  | chunk n x =>
    have hline : Keeps cfg st { st with lineNumber := n } := Keeps.of_fields rfl rfl rfl rfl
    refine hline.trans ?_
    obtain ⟨c, hc, huse⟩ | ⟨-, rfl | ⟨m, rfl⟩ | rfl⟩ := processChunk_cases h
    · apply keeps_use huse
      apply hsep ({ st with lineNumber := n }, c)
      simp [trace, commandOf, hc]
    · exact Keeps.refl _
    · exact Keeps.of_error rfl
    · exact keeps_inlineContent cfg _ x
  | fileEnd name =>
    unfold step at h
    split_ifs at h
    · obtain rfl := Option.some.inj h
      exact Keeps.of_error rfl
    · obtain rfl := Option.some.inj h
      exact Keeps.refl _

/-- The link holds in every state of a run without an error. -/
lemma keeps_run (hsep : NoLateSeparator cfg st es) (h : run cfg st es = some st') :
    Keeps cfg st st' := by
  induction es generalizing st with
  | nil =>
    obtain rfl := Option.some.inj h
    exact Keeps.refl st
  | cons e es ih =>
    obtain ⟨st₁, hstep, hrun⟩ := Option.bind_eq_some_iff.1 h
    exact (keeps_step hsep hstep).trans (ih (hsep.tail hstep) hrun)

/-- An accepted file leaves no block open. -/
lemma stack_of_run_files (hstack : st.stack = [])
    (h : run cfg st (files.flatMap fileEvents) = some st') (hflag : st'.exitFlag = false) :
    st'.stack = [] := by
  induction files using List.reverseRecOn with
  | nil =>
    obtain rfl := Option.some.inj h
    exact hstack
  | append_singleton files file =>
    have hevents : (files ++ [file]).flatMap fileEvents =
        (files.flatMap fileEvents ++ (.fileStart file.1 ::
          ((fetchContent (readText file.2)).map fun p => .chunk p.1 p.2))) ++
            [.fileEnd file.1] := by
      simp [fileEvents]
    rw [hevents, run_append] at h
    obtain ⟨st₁, -, hend⟩ := Option.bind_eq_some_iff.1 h
    obtain ⟨st₂, hstep, hnil⟩ := Option.bind_eq_some_iff.1 hend
    obtain rfl := Option.some.inj hnil
    unfold step at hstep
    split_ifs at hstep with hne
    · obtain rfl := Option.some.inj hstep
      cases hflag
    · obtain rfl := Option.some.inj hstep
      exact not_not.1 hne

/-! ## Misplaced commands -/

/-- Some open block is a template. -/
def inTemplate (stack : List Block) : Bool :=
  stack.any fun b => match b with
    | .template _ => true
    | _ => false

/-- A part of the content of a template, complete in itself or with a block of its own. -/
def Command.isContent : Command → Bool
  | .if' _ | .gettext _ _ | .ngettext _ _ _ _ | .url _ _ | .foreach _ | .include' _ _ _ _ _
  | .cache _ _ _ _ _ | .trigger _ | .filter _ _ | .using' _ _ _ _ | .render _ _ | .form _ _
  | .csrf _ | .filtersShow _ _ => true
  | _ => false

/-- The place of each command: a skin stands outside of all blocks, a view directly in a skin, a
template directly in a view, content in a template; an `end` has a block, whose name it may give and
which has its item if it is a `foreach`; `elif` and `else` follow the branch of an `if`; a `foreach`
has a separator at most, then its item, then an empty part at most; a domain that is not in force
comes before the views.  C++ code and the choice between HTML and XHTML stand anywhere, and what is
no command nowhere. -/
def Misplaced (st : State) : Command → Bool
  | .skin _ => st.stack ≠ []
  | .view _ _ _ _ _ => st.stack ≠ [.skin]
  | .template _ _ _ => match st.stack with
    | .view _ :: _ => false
    | _ => true
  | .end' name => match st.stack with
    | [] => true
    | .foreach f :: _ => !f.hasItem || (name.isSome && name ≠ some (str "foreach"))
    | b :: _ => name.isSome && name ≠ some b.type
  | .elif _ | .else' => match st.stack with
    | .if' _ :: _ => false
    | _ => true
  | .item => match st.stack with
    | .foreach f :: _ => f.hasItem
    | _ => true
  | .separator => match st.stack with
    | .foreach f :: _ => f.hasItem || f.hasSeparator
    | _ => true
  | .empty => match st.stack with
    | .foreach f :: _ => !f.hasItem
    | _ => true
  | .domain n => st.viewCreated && st.specGettext ≠ n
  | .cppInclude _ _ | .html _ => false
  | .error _ => true
  | c => c.isContent && !inTemplate st.stack

/-- The places that no `use` asks for: it takes a separator after the item, a skin in another block,
and content in whatever block. -/
def Overlooked (st : State) : Command → Bool
  | .skin _ => st.stack ≠ []
  | .separator => afterItem st.stack
  | c => c.isContent && !inTemplate st.stack

/-- A command that is performed without an error is in its place, up to what is overlooked. -/
lemma not_misplaced (h : use cfg st c = some st') (hflag : st'.exitFlag = false)
    (hplace : Overlooked st c = false) : Misplaced st c = false := by
  cases c with
  | view n us e a i =>
    obtain rfl := Option.some.inj h
    simp [Misplaced, (useView_cases rfl hflag).1]
  | template n p a =>
    obtain ⟨c, bs, -, -, hstack, -⟩ := useTemplate_cases h hflag
    simp [Misplaced, hstack]
  | end' n =>
    obtain ⟨b, bs, hstack, htype, hend⟩ := useEnd_cases h hflag
    have hname : n.isSome = true → n = some b.type := by
      intro hsome
      obtain ⟨n, rfl⟩ := Option.isSome_iff_exists.1 hsome
      rw [htype n rfl]
    cases b with
    | foreach f =>
      have hitem := (endForeach_wrote hend hflag).1
      simpa [Misplaced, hstack, hitem, Block.type] using hname
    | _ => simpa [Misplaced, hstack] using hname
  | elif c =>
    obtain ⟨c, elif, bs, -, hstack, -⟩ := useElif_wrote h hflag
    simp [Misplaced, hstack]
  | else' =>
    obtain ⟨elif, bs, hstack, -⟩ := useElse_wrote h hflag
    simp [Misplaced, hstack]
  | item =>
    obtain rfl := Option.some.inj h
    obtain ⟨f, bs, hstack, hitem, -⟩ := useItem_wrote hflag
    simp [Misplaced, hstack, hitem]
  | separator =>
    obtain rfl := Option.some.inj h
    obtain ⟨f, bs, hstack, hsep, -⟩ := useSeparator_wrote hflag
    have hitem : f.hasItem = false := by simpa [Overlooked, hstack, afterItem] using hplace
    simp [Misplaced, hstack, hsep, hitem]
  | empty =>
    obtain rfl := Option.some.inj h
    obtain ⟨f, bs, hstack, hitem, -⟩ := useEmpty_wrote hflag
    simp [Misplaced, hstack, hitem]
  | domain n =>
    obtain rfl := Option.some.inj h
    by_contra hmis
    have hview : st.viewCreated = true ∧ st.specGettext ≠ n := by simpa [Misplaced] using hmis
    by_cases hgettext : st.specGettext = []
    · simp [useDomain, hview.1, hgettext] at hflag
    · simp [useDomain, hgettext, hview.2] at hflag
  | error x =>
    obtain rfl := Option.some.inj h
    simp at hflag
  | cppInclude src x => rfl
  | html x => rfl
  | _ => exact hplace

/-- A separator after its item is misplaced. -/
lemma misplaced_of_afterItem (h : afterItem st.stack = true) : Misplaced st .separator = true := by
  unfold afterItem at h
  split at h
  · rename_i f bs hstack
    simp [Misplaced, hstack, h]
  · cases h

/-- What is overlooked is misplaced. -/
lemma misplaced_of_overlooked (h : Overlooked st c = true) : Misplaced st c = true := by
  cases c with
  | separator => exact misplaced_of_afterItem h
  | _ => first | exact h | cases h

/-- No command of the run is overlooked. -/
def NoneOverlooked (cfg : Config) (st : State) (es : List Event) : Prop :=
  ∀ p ∈ trace cfg st es, Overlooked p.1 p.2 = false

lemma NoneOverlooked.tail (h : NoneOverlooked cfg st (e :: es)) (hstep : step cfg st e = some st') :
    NoneOverlooked cfg st' es := by
  intro p hp
  apply h p
  rw [trace_cons es hstep]
  exact List.mem_append_right _ hp

lemma NoneOverlooked.noLateSeparator (h : NoneOverlooked cfg st es) :
    NoLateSeparator cfg st es := by
  intro p hp hc
  simpa [Overlooked, hc] using h p hp

/-- In a run without an error and with nothing overlooked, every command is in its place. -/
lemma trace_not_misplaced (hnone : NoneOverlooked cfg st es) (h : run cfg st es = some st')
    (hflag : st'.exitFlag = false) :
    ∀ p ∈ trace cfg st es, Misplaced p.1 p.2 = false := by
  induction es generalizing st with
  | nil => simp [trace]
  | cons e es ih =>
    obtain ⟨st₁, hstep, hrun⟩ := Option.bind_eq_some_iff.1 h
    intro p hp
    have hp' := hp
    rw [trace_cons es hstep, List.mem_append, Option.mem_toList] at hp
    obtain hp | hp := hp
    · have hflag₁ := (keeps_run (hnone.tail hstep).noLateSeparator hrun hflag).1
      exact not_misplaced (use_of_commandOf hp hstep) hflag₁ (hnone p hp')
    · exact ih (hnone.tail hstep) hrun p hp

/-! ## Balanced output -/

/-- The loader closes what it opens. -/
lemma keeps_writeClassLoader (cfg : Config) (st : State) :
    Keeps cfg st (writeClassLoader cfg st) := by
  have hadded : ∃ cs, Balanced (cs.flatMap Code.braces) ∧
      Added cfg st (writeClassLoader cfg st) [] cs := by
    unfold writeClassLoader
    refine ⟨_, ?_, Added.of_lines cfg st ?_ (outputs_definitions st _).1⟩
    · have hviews : ∀ (f : ClassInfo → List Fragment), (∀ c, (f c).filterMap Fragment.brace = []) →
          (st.classList.map fun c => Code.line (f c)).flatMap Code.braces = [] := by
        intro f hf
        simp [List.flatMap_map, hf]
      rw [List.flatMap_append, List.flatMap_append, hviews _ fun c => rfl, balanced_iff]
      rfl
    · rw [(outputs_definitions st _).2, List.append_nil]
  obtain ⟨cs, hcs, hadded⟩ := hadded
  exact hadded.keeps_balanced (by simp [writeClassLoader]) (by simp [writeClassLoader]) .nil hcs

/-- The loader stays out of the blocks. -/
lemma writeClassLoader_stack (st : State) : (writeClassLoader cfg st).stack = st.stack := by
  simp [writeClassLoader]

lemma fits_init (skin domain : Text) : Fits cfg (State.init skin domain) := by
  constructor <;> simp [State.init, templateCode, otherCode, matchStack, openTemplate, openOther]

/-- The braces of the lines in their order. -/
lemma braces_eq (ls : List Line) : braces ls = (ls.map Line.code).flatMap Code.braces := by
  rw [braces, List.flatMap_map]

/-- The braces of both streams are balanced. -/
def BalancedOutput (st : State) : Prop :=
  Balanced (braces st.declarations) ∧ Balanced (braces st.definitions)

/-- Without open blocks, both streams are balanced. -/
lemma Fits.balanced (h : Fits cfg st) (hstack : st.stack = []) :
    BalancedOutput st := by
  unfold BalancedOutput
  rw [braces_eq, braces_eq]
  refine (forall_streams cfg (P := fun cs => Balanced (cs.flatMap Code.braces)) st).2 ?_
  rw [balanced_iff, balanced_iff, h.template, h.other, hstack]
  exact ⟨rfl, rfl⟩

/-- No command is misplaced. -/
def InPlace (cfg : Config) (st : State) (es : List Event) : Prop :=
  ∀ p ∈ trace cfg st es, Misplaced p.1 p.2 = false

/-- Without a separator after the item of its `foreach`, an accepted compilation is balanced. -/
lemma balancedOutput_of_noLateSeparator {skin domain : Text}
    (h : compile cfg (State.init skin domain) files = some st) (hflag : st.exitFlag = false)
    (hsep : NoLateSeparator cfg (State.init skin domain) (files.flatMap fileEvents)) :
    BalancedOutput st := by
  obtain ⟨st₁, hrun, rfl⟩ := Option.map_eq_some_iff.1 h
  have hloader :
    ∀ st, Keeps cfg st (if st.classList ≠ [] ∧ st.exitFlag = false ∧ cfg.writeLoader then
      writeClassLoader cfg st else st) := by
    intro st
    split_ifs
    · exact keeps_writeClassLoader cfg st
    · exact Keeps.refl st
  obtain ⟨hflag₁, hfits⟩ := hloader st₁ hflag
  have hstack₁ : st₁.stack = [] := stack_of_run_files rfl hrun hflag₁
  apply (hfits ((keeps_run hsep hrun hflag₁).2 (fits_init skin domain))).balanced
  split_ifs
  · rw [writeClassLoader_stack, hstack₁]
  · exact hstack₁

/-- An accepted compilation is balanced if no separator comes after the item of its `foreach`, and
has all its commands in their places besides exactly if nothing is overlooked. -/
theorem compile_balanced_iff {skin domain : Text} {files : List (Text × Text)}
    (h : compile cfg (State.init skin domain) files = some st) (hflag : st.exitFlag = false) :
    (NoLateSeparator cfg (State.init skin domain) (files.flatMap fileEvents) → BalancedOutput st) ∧
      (BalancedOutput st ∧ InPlace cfg (State.init skin domain) (files.flatMap fileEvents) ↔
        NoneOverlooked cfg (State.init skin domain) (files.flatMap fileEvents)) := by
  refine ⟨balancedOutput_of_noLateSeparator h hflag, ?_, fun hnone => ?_⟩
  · rintro ⟨-, hmis⟩ p hp
    by_contra hover
    have hplace := hmis p hp
    rw [misplaced_of_overlooked (by simpa using hover)] at hplace
    cases hplace
  · obtain ⟨st₁, hrun, rfl⟩ := Option.map_eq_some_iff.1 h
    have hflag₁ : st₁.exitFlag = false := by
      split_ifs at hflag with hwritten
      · exact hwritten.2.1
      · exact hflag
    exact ⟨balancedOutput_of_noLateSeparator h hflag hnone.noLateSeparator,
      trace_not_misplaced hnone hrun hflag₁⟩

/-- A configuration for templates in ASCII. -/
def Config.ascii : Config where
  unicode := .ascii
  inlineTemplates := false
  dllApi := []
  writeLoader := true
  unsafeBuild := false

/-- A list of elements, with the separator where it belongs. -/
def listTemplate : Text := str ("<% skin s %><% view v uses c %><% template t() %>" ++
  "<% foreach x in y %><% separator %>, <% item %><%= x %><% end %><% empty %>-<% end %>" ++
  "<% end template %><% end view %><% end skin %>")

/-- The same without the empty part, and with the separator after the item. -/
def lateSeparatorTemplate : Text := str ("<% skin s %><% view v uses c %><% template t() %>" ++
  "<% foreach x in y %><% item %><%= x %><% end %><% separator %>, <% end %>" ++
  "<% end template %><% end view %><% end skin %>")

theorem compile_balanced_iff_list : ∃ st,
    compile .ascii (State.init [] []) [(str "list.tmpl", listTemplate)] = some st ∧
      st.exitFlag = false ∧
      (NoLateSeparator .ascii (State.init [] [])
          ([(str "list.tmpl", listTemplate)].flatMap fileEvents) → BalancedOutput st) ∧
      (BalancedOutput st ∧ InPlace .ascii (State.init [] [])
          ([(str "list.tmpl", listTemplate)].flatMap fileEvents) ↔
        NoneOverlooked .ascii (State.init [] [])
          ([(str "list.tmpl", listTemplate)].flatMap fileEvents)) := by
  have h : (compile .ascii (State.init [] []) [(str "list.tmpl", listTemplate)]).map
      State.exitFlag = some false := by decide +kernel
  obtain ⟨st, hst, hflag⟩ := Option.map_eq_some_iff.1 h
  exact ⟨st, hst, hflag, compile_balanced_iff hst hflag⟩

/-- The compiler accepts a separator after its item, and leaves braces open. -/
theorem compile_lateSeparator_unbalanced : ∃ st,
    compile .ascii (State.init [] []) [(str "late.tmpl", lateSeparatorTemplate)] = some st ∧
      st.exitFlag = false ∧ ¬ Balanced (braces st.definitions) := by
  have h : (compile .ascii (State.init [] []) [(str "late.tmpl", lateSeparatorTemplate)]).map
      (fun st => (st.exitFlag, matchStack [] (braces st.definitions))) = some (false, none) := by
    decide +kernel
  obtain ⟨st, hst, hresult⟩ := Option.map_eq_some_iff.1 h
  obtain ⟨hflag, hbraces⟩ := Prod.mk.inj hresult
  refine ⟨st, hst, hflag, fun hbalanced => ?_⟩
  rw [balanced_iff, hbraces] at hbalanced
  cases hbalanced

end Template

end Cppcms
