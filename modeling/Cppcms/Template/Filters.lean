import Cppcms.Template.Accepted

/-!
# The filter in force

The default filter of shown variables is a global that filter blocks save and restore.  Here it is
compared with what the text of a template says: the commands before a place open and close blocks,
and the filter in force is that of the innermost filter block that is still open (`InForce`).
-/

namespace Cppcms

namespace Template

open State

variable {cfg : Config} {st st' : State}

/-! ## Open blocks -/

/-- The blocks that are open after a command, the innermost first: the filter of a filter block, and
`none` for every other one. -/
def nest (g : List (Option Expr)) : Command → Option (List (Option Expr))
  | .filter ext name => some (some (filterFunction ext name) :: g)
  | .skin _ => some (none :: g)
  | .view _ _ _ _ _ => some (none :: g)
  | .template _ _ abstract => some (if abstract then g else none :: g)
  | .foreach _ => some (none :: g)
  | .item => some (none :: g)
  | .if' _ => some (none :: g)
  | .using' _ _ _ _ => some (none :: g)
  | .cache _ _ _ _ _ => some (none :: g)
  | .form type _ => some (if type = str "block" then none :: g else g)
  | .end' _ => g.tail?
  | _ => some g

/-- The blocks that are open after several commands. -/
def nestAll (g : List (Option Expr)) (cs : List Command) : Option (List (Option Expr)) :=
  cs.foldlM nest g

/-- The filter of the innermost filter block, or the one in force outside of them. -/
def innermost (g : List (Option Expr)) : Expr := (g.findSome? id).getD escapeFilter

/-- The block on the stack is a filter block. -/
def Block.isFilter : Block → Bool
  | filter _ => true
  | _ => false

/-- The stack has the given blocks, and each filter block has saved the filter in force around it.
-/
inductive Tracks : List Block → List (Option Expr) → Prop
  | nil : Tracks [] []
  | filter {save f : Expr} {bs : List Block} {g : List (Option Expr)} (hsave : save = innermost g)
      (h : Tracks bs g) : Tracks (.filter save :: bs) (some f :: g)
  | other {b : Block} {bs : List Block} {g : List (Option Expr)} (hb : b.isFilter = false)
      (h : Tracks bs g) : Tracks (b :: bs) (none :: g)

/-- The blocks on the stack are the given ones, and the filter in force is the innermost one. -/
structure InForce (st : State) (g : List (Option Expr)) : Prop where
  tracks : Tracks st.stack g
  scopeFilter : st.scopeFilter = innermost g

variable {b : Block} {bs : List Block} {g : List (Option Expr)} {e : Event} {es : List Event}
  {h h' : List (Option Expr)}

/-- A block that is no filter block. -/
lemma Tracks.cases_other (h : Tracks (b :: bs) g) (hb : b.isFilter = false) :
    ∃ g', g = none :: g' ∧ Tracks bs g' := by
  cases h with
  | filter => cases hb
  | other _ h => exact ⟨_, rfl, h⟩

section Steps

variable {g : List (Option Expr)}

/-- The stack and the filter stay. -/
lemma InForce.same (h : InForce st g) (hstack : st'.stack = st.stack)
    (hscope : st'.scopeFilter = st.scopeFilter) : InForce st' g :=
  ⟨by rw [hstack]; exact h.tracks, hscope.trans h.scopeFilter⟩

/-- A block that is no filter block is opened. -/
lemma InForce.push (h : InForce st g) (hb : b.isFilter = false) (hstack : st'.stack = b :: st.stack)
    (hscope : st'.scopeFilter = st.scopeFilter) :
    InForce st' (none :: g) :=
  ⟨by rw [hstack]; exact .other hb h.tracks, hscope.trans h.scopeFilter⟩

/-- The block on top of the stack is replaced by another one. -/
lemma InForce.swap (h : InForce st g) {b c : Block} (hb : b.isFilter = false)
    (hc : c.isFilter = false) (hst : st.stack = b :: bs) (hstack : st'.stack = c :: bs)
    (hscope : st'.scopeFilter = st.scopeFilter) : InForce st' g := by
  have htracks := h.tracks
  rw [hst] at htracks
  obtain ⟨g', rfl, hrest⟩ := htracks.cases_other hb
  exact ⟨by rw [hstack]; exact .other hc hrest, hscope.trans h.scopeFilter⟩

/-- The end of a block gives back the filter around it. -/
lemma InForce.onEnd (h : InForce st g) (hst : st.stack = b :: bs)
    (hend : onEnd cfg { st with stack := bs } b = some st') (hflag : st'.exitFlag = false) :
    ∃ g', g.tail? = some g' ∧ InForce st' g' := by
  have htracks := h.tracks
  rw [hst] at htracks
  cases htracks with
  | @filter save f _ g' hsave htracks =>
    obtain rfl := Option.some.inj hend
    exact ⟨g', rfl, htracks, hsave⟩
  | @other _ _ g' hb htracks =>
    refine ⟨g', rfl, ?_⟩
    have hscope : st.scopeFilter = innermost g' := h.scopeFilter
    cases b with
    | filter => cases hb
    | foreach f =>
      have hwrote := (endForeach_wrote hend hflag).2
      exact ⟨by rwa [hwrote.stack], hwrote.scopeFilter.trans hscope⟩
    | empty i r =>
      have hwrote := endEmpty_wrote hend
      exact ⟨by rwa [hwrote.stack], hwrote.scopeFilter.trans hscope⟩
    | form e =>
      obtain rfl := Option.some.inj hend
      obtain ⟨cs, -, hwrote⟩ := formatInput_wrote cfg { st with stack := bs } (str "end") e
      exact ⟨by rwa [hwrote.stack], hwrote.scopeFilter.trans hscope⟩
    | skin =>
      obtain rfl := Option.some.inj hend
      exact ⟨htracks, hscope⟩
    | view c =>
      obtain rfl := Option.some.inj hend
      exact ⟨by simpa [endView] using htracks, by simpa [endView] using hscope⟩
    | template n =>
      obtain rfl := Option.some.inj hend
      exact ⟨by simpa [endTemplate] using htracks, by simpa [endTemplate] using hscope⟩
    | _ =>
      obtain rfl := Option.some.inj hend
      exact ⟨by simpa [printUsingBlockEnd, endCache] using htracks,
        by simpa [printUsingBlockEnd, endCache] using hscope⟩

/-- Lines alone do not change the filters in force. -/
lemma WrotePlain.inForce (h : WrotePlain cfg st st') (hg : InForce st g) : InForce st' g := by
  obtain ⟨cs, -, hwrote⟩ := h
  exact hg.same hwrote.stack hwrote.scopeFilter

/-- A skin does not change the filter in force. -/
lemma useSkin_stack {name : Option Text} (h : useSkin st name = some st') :
    st'.stack = .skin :: st.stack ∧ st'.scopeFilter = st.scopeFilter := by
  dsimp only [useSkin] at h
  split_ifs at h <;> obtain rfl := Option.some.inj h <;> exact ⟨rfl, rfl⟩

/-- Every command changes the open blocks and the filter in force as its text says. -/
lemma InForce.use {c : Command} (hg : InForce st g) (h : use cfg st c = some st')
    (hflag : st'.exitFlag = false) : ∃ g', nest g c = some g' ∧ InForce st' g' := by
  cases c with
  | skin n =>
    obtain ⟨hstack, hscope⟩ := useSkin_stack h
    exact ⟨_, rfl, hg.push rfl hstack hscope⟩
  | view n us e a i =>
    obtain rfl := Option.some.inj h
    obtain ⟨-, -, hscope, hstack, -⟩ := useView_cases rfl hflag
    exact ⟨_, rfl, hg.push rfl hstack hscope⟩
  | template n p a =>
    obtain ⟨-, -, -, -, -, -, hscope, hstack, -⟩ := useTemplate_cases h hflag
    refine ⟨_, rfl, ?_⟩
    cases a
    · exact hg.push rfl hstack hscope
    · exact hg.same hstack hscope
  | end' n =>
    obtain ⟨b, bs, hstack, -, hend⟩ := useEnd_cases h hflag
    exact hg.onEnd hstack hend hflag
  | if' c =>
    obtain ⟨c, -, hwrote⟩ := useIf_wrote h
    exact ⟨_, rfl, hg.push rfl hwrote.stack hwrote.scopeFilter⟩
  | elif c =>
    obtain ⟨c, elif, bs, -, hstack, hwrote⟩ := useElif_wrote h hflag
    exact ⟨_, rfl, hg.swap rfl rfl hstack hwrote.stack hwrote.scopeFilter⟩
  | else' =>
    obtain ⟨elif, bs, hstack, hwrote⟩ := useElse_wrote h hflag
    exact ⟨_, rfl, hg.swap rfl rfl hstack hwrote.stack hwrote.scopeFilter⟩
  | cppInclude src s =>
    obtain rfl := Option.some.inj h
    refine ⟨_, rfl, hg.same ?_ ?_⟩
    · unfold useCppInclude
      split_ifs <;> simp
    · unfold useCppInclude
      split_ifs <;> simp [outputDefinition, outputDeclaration]
  | gettext m p =>
    obtain ⟨es, -, hwrote⟩ := useGettext_wrote h hflag
    exact ⟨_, rfl, hg.same hwrote.stack hwrote.scopeFilter⟩
  | ngettext m p i ps =>
    obtain ⟨idt, es, -, -, hwrote⟩ := useNgettext_wrote h hflag
    exact ⟨_, rfl, hg.same hwrote.stack hwrote.scopeFilter⟩
  | url s p =>
    obtain ⟨es, -, hwrote⟩ := useUrl_wrote h hflag
    exact ⟨_, rfl, hg.same hwrote.stack hwrote.scopeFilter⟩
  | foreach hd =>
    obtain ⟨seqName, -, -, -, -, hwrote⟩ := useForeach_wrote h hflag
    exact ⟨_, rfl, hg.push rfl hwrote.stack hwrote.scopeFilter⟩
  | item =>
    obtain rfl := Option.some.inj h
    obtain ⟨f, bs, hstack, -, hwrote⟩ := useItem_wrote hflag
    have htracks := hg.tracks
    rw [hstack] at htracks
    obtain ⟨g', rfl, hrest⟩ := htracks.cases_other rfl
    refine ⟨_, rfl, ?_, hwrote.scopeFilter.trans hg.scopeFilter⟩
    rw [hwrote.stack]
    exact .other rfl (.other rfl hrest)
  | empty =>
    obtain rfl := Option.some.inj h
    obtain ⟨f, bs, hstack, -, hwrote⟩ := useEmpty_wrote hflag
    exact ⟨_, rfl, hg.swap rfl rfl hstack hwrote.stack hwrote.scopeFilter⟩
  | separator =>
    obtain rfl := Option.some.inj h
    obtain ⟨f, bs, hstack, -, hwrote⟩ := useSeparator_wrote hflag
    exact ⟨_, rfl, hg.swap rfl rfl hstack hwrote.stack hwrote.scopeFilter⟩
  | include' c p f cl co => exact ⟨_, rfl, (useInclude_wrote h hflag).inForce hg⟩
  | cache p t c nt nr =>
    obtain ⟨p, cs, -, hwrote⟩ := useCache_wrote h
    exact ⟨_, rfl, hg.push rfl hwrote.stack hwrote.scopeFilter⟩
  | trigger p => exact ⟨_, rfl, (useTrigger_wrote h).inForce hg⟩
  | filter e n =>
    obtain rfl := Option.some.inj h
    exact ⟨_, rfl, .filter hg.scopeFilter hg.tracks, rfl⟩
  | using' c co n f =>
    obtain ⟨cs, -, hwrote⟩ := useUsing_wrote h
    exact ⟨_, rfl, hg.push rfl hwrote.stack hwrote.scopeFilter⟩
  | render n c => exact ⟨_, rfl, (useRender_wrote h).inForce hg⟩
  | html x =>
    obtain rfl := Option.some.inj h
    exact ⟨_, rfl, hg.same rfl rfl⟩
  | form t i =>
    obtain ⟨hplain, hblock⟩ | ⟨e, cs, -, hwrote, hblock⟩ := useForm_wrote h
    · exact ⟨g, by rw [nest, if_neg hblock], hplain.inForce hg⟩
    · exact ⟨none :: g, by rw [nest, if_pos hblock], hg.push rfl hwrote.stack hwrote.scopeFilter⟩
  | csrf t =>
    obtain rfl := Option.some.inj h
    exact ⟨_, rfl, (useCsrf_wrote st t).inForce hg⟩
  | domain n =>
    obtain rfl := Option.some.inj h
    refine ⟨_, rfl, ?_⟩
    unfold useDomain
    split_ifs <;> exact hg.same rfl rfl
  | filtersShow d s =>
    obtain ⟨e, -, hwrote⟩ := useFiltersShow_wrote h hflag
    exact ⟨_, rfl, hg.same hwrote.stack hwrote.scopeFilter⟩
  | error s =>
    obtain rfl := Option.some.inj h
    cases hflag

/-- Nothing changes with an event that performs no command. -/
lemma InForce.step {e : Event} (hg : InForce st g) (h : step cfg st e = some st')
    (hnone : commandOf cfg st e = none) : InForce st' g := by
  cases e with
  | fileStart name =>
    obtain rfl := Option.some.inj h
    exact hg.same rfl rfl
  | chunk n x =>
    obtain ⟨c, hc, -⟩ | ⟨-, rfl | ⟨m, rfl⟩ | rfl⟩ := processChunk_cases h
    · simp [commandOf, hc] at hnone
    · exact hg.same rfl rfl
    · exact hg.same rfl rfl
    · unfold inlineContent
      split_ifs
      · exact hg.same rfl rfl
      · exact hg.same (by simp) (by simp)
  | fileEnd name =>
    unfold Template.step at h
    split_ifs at h
    · obtain rfl := Option.some.inj h
      exact hg.same rfl rfl
    · obtain rfl := Option.some.inj h
      exact hg

end Steps

/-! ## Whole runs -/

lemma exitFlag_of_step (h : step cfg st e = some st') (hflag : st'.exitFlag = false) :
    st.exitFlag = false := by
  cases e with
  | fileStart name =>
    obtain rfl := Option.some.inj h
    exact hflag
  | chunk n x =>
    obtain ⟨c, hc, huse⟩ | ⟨-, rfl | ⟨m, rfl⟩ | rfl⟩ := processChunk_cases h
    · have hbefore := exitFlag_of_use huse hflag
      exact hbefore
    · exact hflag
    · cases hflag
    · have hbefore := (keeps_inlineContent cfg _ x hflag).1
      exact hbefore
  | fileEnd name =>
    unfold step at h
    split_ifs at h
    · obtain rfl := Option.some.inj h
      cases hflag
    · obtain rfl := Option.some.inj h
      exact hflag

/-- An error at any time is an error at the end. -/
lemma exitFlag_of_run (h : run cfg st es = some st') (hflag : st'.exitFlag = false) :
    st.exitFlag = false := by
  induction es generalizing st with
  | nil =>
    obtain rfl := Option.some.inj h
    exact hflag
  | cons e es ih =>
    obtain ⟨st₁, hstep, hrun⟩ := Option.bind_eq_some_iff.1 h
    exact exitFlag_of_step hstep (ih hrun)

/-- The command of an event is performed in the state before the event, at its line. -/
lemma commandOf_state {p : State × Command} (h : commandOf cfg st e = some p) :
    p.1.stack = st.stack ∧ p.1.scopeFilter = st.scopeFilter := by
  cases e with
  | chunk n x =>
    obtain ⟨c, -, rfl⟩ := Option.map_eq_some_iff.1 h
    exact ⟨rfl, rfl⟩
  | _ => cases h

/-- At every command of an accepted run, the filter in force is that of the open blocks. -/
lemma InForce.trace (hg : InForce st g) (h : run cfg st es = some st')
    (hflag : st'.exitFlag = false) {pre post : List (State × Command)} {st₁ : State} {c : Command}
    (htrace : trace cfg st es = pre ++ (st₁, c) :: post) :
    ∃ g₁ st₂, nestAll g (pre.map Prod.snd) = some g₁ ∧ InForce st₁ g₁ ∧
      Template.use cfg st₁ c = some st₂ ∧ st₂.exitFlag = false := by
  induction es generalizing st g pre with
  | nil => simp [Template.trace] at htrace
  | cons e es ih =>
    obtain ⟨st₂, hstep, hrun⟩ := Option.bind_eq_some_iff.1 h
    have hflag₂ := exitFlag_of_run hrun hflag
    rw [trace_cons es hstep] at htrace
    cases hcommand : commandOf cfg st e with
    | none =>
      rw [hcommand] at htrace
      exact ih (hg.step hstep hcommand) hrun htrace
    | some p =>
      obtain ⟨hstack, hscope⟩ := commandOf_state hcommand
      have hg₁ : InForce p.1 g := hg.same hstack hscope
      have huse := use_of_commandOf hcommand hstep
      rw [hcommand, Option.toList_some, List.singleton_append] at htrace
      cases pre with
      | nil =>
        obtain ⟨rfl, -⟩ := List.cons.inj htrace
        exact ⟨g, st₂, rfl, hg₁, huse, hflag₂⟩
      | cons q pre =>
        obtain ⟨rfl, hrest_trace⟩ := List.cons.inj htrace
        obtain ⟨g', hnest, hg'⟩ := hg₁.use huse hflag₂
        obtain ⟨g₁, st₃, hall, hrest⟩ := ih hg' hrun hrest_trace
        refine ⟨g₁, st₃, ?_, hrest⟩
        rw [List.map_cons, nestAll, List.foldlM_cons, hnest]
        exact hall

/-- Blocks further out do not matter. -/
lemma nest_append {c : Command} (hnest : nest h c = some h') (g : List (Option Expr)) :
    nest (h ++ g) c = some (h' ++ g) := by
  cases c with
  | end' n =>
    cases h with
    | nil => cases hnest
    | cons x h =>
      obtain rfl := Option.some.inj hnest
      rfl
  | template n p a =>
    obtain rfl := Option.some.inj hnest
    cases a <;> rfl
  | form t i =>
    obtain rfl := Option.some.inj hnest
    by_cases ht : t = str "block" <;> simp [nest, ht]
  | _ =>
    obtain rfl := Option.some.inj hnest
    rfl

/-- What is below on the stack does not matter. -/
lemma nestAll_append {cs : List Command} (hnest : nestAll h cs = some h') (g : List (Option Expr)) :
    nestAll (h ++ g) cs = some (h' ++ g) := by
  induction cs generalizing h with
  | nil =>
    obtain rfl := Option.some.inj hnest
    rfl
  | cons c cs ih =>
    obtain ⟨h₁, hfirst, hrest⟩ := Option.bind_eq_some_iff.1 hnest
    rw [nestAll, List.foldlM_cons, nest_append hfirst]
    exact ih hrest

/-! ## Automatic escaping -/

/-- What stands after `using` in a command. -/
def ReadsUsing (u : Unicode) (params : Option Text) (vs : List (Text × List FilterUse)) : Prop :=
  match params with
  | none => vs = []
  | some s => ReadsList u s vs

/-- The expressions of a list of variables, each with its filters or with the default one. -/
def emitAll (cfg : Config) (st : State) (default : Expr) (vs : List (Text × List FilterUse)) :
    Option (List Expr) :=
  vs.mapM fun p => emit cfg.unicode st.tmplSeq default p.1 p.2

/-- The variables of a command are written with their own filters, and those without a filter with
the default one. -/
def Escaped (cfg : Config) (st : State) (default : Expr) (st' : State) : Command → Prop
  | .filtersShow _ s => ∃ v fs e, ReadsShow cfg.unicode s v fs ∧
      emit cfg.unicode st.tmplSeq default v fs = some e ∧
      st'.templateCode cfg = st.templateCode cfg ++ [.show' e]
  | .gettext m params => ∃ vs es, ReadsUsing cfg.unicode params vs ∧
      emitAll cfg st default vs = some es ∧
      st'.templateCode cfg = st.templateCode cfg ++ [translateLine [.user m] es]
  | .ngettext m p i params => ∃ idt vs es, st.ident cfg i = some idt ∧
      ReadsUsing cfg.unicode params vs ∧ emitAll cfg st default vs = some es ∧
      st'.templateCode cfg = st.templateCode cfg ++
        [translateLine [.user m, .ofString ",", .user p, .ofString ",", .ofExpr idt] es]
  | .url s params => ∃ vs es, ReadsUsing cfg.unicode params vs ∧
      emitAll cfg st urlencodeFilter vs = some es ∧
      st'.templateCode cfg = st.templateCode cfg ++ [urlLine s es]
  | _ => True

/-- The expressions of parameters are those of the variables that are read. -/
lemma usingParams_sound {params : Option Text} {dflt : Option Expr} {es : List Expr}
    (h : usingParams cfg st params dflt = some ([], es)) :
    ∃ vs, ReadsUsing cfg.unicode params vs ∧
      emitAll cfg st (dflt.getD st.scopeFilter) vs = some es := by
  cases params with
  | none =>
    obtain ⟨-, rfl⟩ := Prod.mk.inj (Option.some.inj h)
    exact ⟨[], rfl, rfl⟩
  | some s => exact makeFormatParams_sound h

/-- What a command writes without an error. -/
lemma escaped_of_use {c : Command} (h : use cfg st c = some st') (hflag : st'.exitFlag = false) :
    Escaped cfg st st.scopeFilter st' c := by
  cases c with
  | filtersShow d s =>
    obtain ⟨e, hprepare, hwrote⟩ := useFiltersShow_wrote h hflag
    obtain ⟨v, fs, hshow, hemit⟩ := prepare_sound hprepare
    exact ⟨v, fs, e, hshow, hemit, hwrote.code⟩
  | gettext m params =>
    obtain ⟨es, hparams, hwrote⟩ := useGettext_wrote h hflag
    obtain ⟨vs, hvs, hes⟩ := usingParams_sound hparams
    exact ⟨vs, es, hvs, hes, hwrote.code⟩
  | ngettext m p i params =>
    obtain ⟨idt, es, hidt, hparams, hwrote⟩ := useNgettext_wrote h hflag
    obtain ⟨vs, hvs, hes⟩ := usingParams_sound hparams
    exact ⟨idt, vs, es, hidt, hvs, hes, hwrote.code⟩
  | url s params =>
    obtain ⟨es, hparams, hwrote⟩ := useUrl_wrote h hflag
    obtain ⟨vs, hvs, hes⟩ := usingParams_sound hparams
    exact ⟨vs, es, hvs, hes, hwrote.code⟩
  | _ => trivial

/-- In an accepted compilation, every variable that is shown or that stands in a `using` list is
written with its own filters or, without any, in the filter of the innermost open filter block (in
the escape filter outside of them, and in `urlencode` in a URL); and the end of a filter block
brings back the filter that was in force before it. -/
theorem compile_escaped {skin domain : Text} {files : List (Text × Text)}
    (h : compile cfg (State.init skin domain) files = some st) (hflag : st.exitFlag = false)
    {pre post : List (State × Command)} {st₁ : State} {c : Command}
    (htrace : trace cfg (State.init skin domain) (files.flatMap fileEvents) =
      pre ++ (st₁, c) :: post) :
    ∃ g st₂, nestAll [] (pre.map Prod.snd) = some g ∧ use cfg st₁ c = some st₂ ∧
      Escaped cfg st₁ (innermost g) st₂ c ∧
      ∀ pre₀ st₀ ext name mid n, pre = pre₀ ++ (st₀, .filter ext name) :: mid →
        nestAll [] (mid.map Prod.snd) = some [] → c = .end' n →
        st₂.scopeFilter = st₀.scopeFilter := by
  obtain ⟨st₃, hrun, rfl⟩ := Option.map_eq_some_iff.1 h
  have hflag₃ : st₃.exitFlag = false := by
    split_ifs at hflag
    · exact (keeps_writeClassLoader cfg st₃ hflag).1
    · exact hflag
  have hinit : InForce (State.init skin domain) [] := ⟨.nil, rfl⟩
  obtain ⟨g, st₂, hall, hg, huse, hflag₂⟩ := hinit.trace hrun hflag₃ htrace
  refine ⟨g, st₂, hall, huse, ?_, ?_⟩
  · rw [← hg.scopeFilter]
    exact escaped_of_use huse hflag₂
  · rintro pre₀ st₀ ext name mid n rfl hmid rfl
    have htrace₀ := htrace
    rw [List.append_assoc, List.cons_append] at htrace₀
    obtain ⟨g₀, -, hall₀, hg₀, -, -⟩ := hinit.trace hrun hflag₃ htrace₀
    -- the blocks that are open at the end are those at the start and the filter block itself
    have hopen : g = some (filterFunction ext name) :: g₀ := by
      have hblock := nestAll_append hmid (some (filterFunction ext name) :: g₀)
      rw [List.map_append, nestAll, List.foldlM_append] at hall
      rw [nestAll] at hall₀
      rw [hall₀] at hall
      exact Option.some.inj (hall.symm.trans hblock)
    obtain ⟨g', hnest, hg'⟩ := hg.use huse hflag₂
    rw [hopen] at hnest
    obtain rfl := Option.some.inj hnest
    rw [hg'.scopeFilter, hg₀.scopeFilter]

/-- A variable in a filter block, and others after it. -/
def filterTemplate : Text := str ("<% skin s %><% view v uses c %><% template t() %>" ++
  "<% filter raw %><%= x %><% end %><% gt \"m\" using y, z|date(\"%Y\") %>" ++
  "<% end template %><% end view %><% end skin %>")

theorem compile_escaped_block : ∃ st pre st₁ post,
    compile .ascii (State.init [] []) [(str "filter.tmpl", filterTemplate)] = some st ∧
      st.exitFlag = false ∧
      trace .ascii (State.init [] []) ([(str "filter.tmpl", filterTemplate)].flatMap fileEvents) =
        pre ++ (st₁, .filtersShow false (str "x ")) :: post ∧
      ∃ g st₂, nestAll [] (pre.map Prod.snd) = some g ∧
        Escaped .ascii st₁ (innermost g) st₂ (.filtersShow false (str "x ")) := by
  have h : (compile .ascii (State.init [] []) [(str "filter.tmpl", filterTemplate)]).map
      State.exitFlag = some false := by decide +kernel
  have htrace : (trace .ascii (State.init [] [])
      ([(str "filter.tmpl", filterTemplate)].flatMap fileEvents)).map Prod.snd =
        [.skin (some (str "s")), .view (str "v") (str "c") none false false,
          .template (str "t") [] false, .filter none (str "raw")] ++
        .filtersShow false (str "x ") :: [.end' none,
          .gettext (str "\"m\"") (some (str " y, z|date(\"%Y\") ")), .end' (some (str "template")),
          .end' (some (str "view")), .end' (some (str "skin"))] := by
    decide +kernel
  obtain ⟨st, hst, hflag⟩ := Option.map_eq_some_iff.1 h
  obtain ⟨pre, rest, hsplit, -, hrest⟩ := List.map_eq_append_iff.1 htrace
  obtain ⟨⟨st₁, c⟩, post, rfl, rfl, -⟩ := List.map_eq_cons_iff.1 hrest
  obtain ⟨g, st₂, hg, -, hescaped, -⟩ := compile_escaped hst hflag hsplit
  exact ⟨st, pre, st₁, post, hst, hflag, hsplit, g, st₂, hg, hescaped⟩

end Template

end Cppcms
