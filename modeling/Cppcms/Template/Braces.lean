import Cppcms.Template.Steps

/-!
# Balanced braces

The link between the block stack and the braces that have been written: as long as no error was
reported, the braces that are open in a stream are exactly those of the blocks on the stack, in
their order (`Fits`).  Every command keeps this link (`Keeps`), with one exception: a `separator`
after the item of its `foreach` opens the loop once more, and no block on the stack knows about it.
-/

namespace Cppcms

namespace Template

open Delimiter State

/-! ## The braces of the blocks -/

namespace Block

/-- The braces that a block inside a template has open, the innermost first. -/
def templateBraces : Block → List Brace
  | template _ => [.template]
  | using' => [.using']
  | foreach f =>
    (if f.hasSeparator && !f.hasItem then [.separator, .loop] else []) ++ [.nonempty, .sequence]
  | item => [.loop]
  | empty _ _ => [.nonempty, .sequence]
  | else' => [.conditional]
  | if' _ => [.conditional]
  | cache _ _ _ _ => [.miss, .cache]
  | _ => []

/-- The braces that a skin or a view has open in the stream of the templates. -/
def outerTemplate (inline : Bool) : Block → List Brace
  | skin => [.skin]
  | view _ => if inline then [.view] else []
  | _ => []

/-- The braces that a skin or a view has open in the other stream. -/
def outerOther (inline : Bool) : Block → List Brace
  | skin => [.skin]
  | view _ => if inline then [] else [.view]
  | _ => []

/-- A block that is neither a skin nor a view. -/
def isInner : Block → Bool
  | skin => false
  | view _ => false
  | _ => true

variable {b : Block}

/-- A block inside a template opens nothing outside of it. -/
lemma outerTemplate_of_isInner (h : b.isInner = true) (inline : Bool) :
    b.outerTemplate inline = [] := by
  cases b <;> simp_all [isInner, outerTemplate]

/-- The other stream does not see the blocks inside a template. -/
lemma outerOther_of_isInner (h : b.isInner = true) (inline : Bool) :
    b.outerOther inline = [] := by
  cases b <;> simp_all [isInner, outerOther]

end Block

variable {cfg : Config}

/-- The braces open in the stream of the templates. -/
def openTemplate (cfg : Config) (stack : List Block) : List Brace :=
  stack.flatMap fun b => b.templateBraces ++ b.outerTemplate cfg.inlineTemplates

/-- The braces open in the other stream. -/
def openOther (cfg : Config) (stack : List Block) : List Brace :=
  stack.flatMap fun b => b.outerOther cfg.inlineTemplates

/-- The open braces of both streams are those of the blocks on the stack. -/
structure Fits (cfg : Config) (st : State) : Prop where
  template : matchStack [] ((st.templateCode cfg).flatMap Code.braces) =
    some (openTemplate cfg st.stack)
  other : matchStack [] ((st.otherCode cfg).flatMap Code.braces) = some (openOther cfg st.stack)

/-- An operation does not take an error back, and it keeps the link if no error was reported. -/
def Keeps (cfg : Config) (st st' : State) : Prop :=
  st'.exitFlag = false → st.exitFlag = false ∧ (Fits cfg st → Fits cfg st')

lemma Keeps.refl (st : State) : Keeps cfg st st := fun h => ⟨h, id⟩

/-- Two steps that keep the braces in order keep them together. -/
lemma Keeps.trans {st st' st'' : State} (h : Keeps cfg st st') (h' : Keeps cfg st' st'') :
    Keeps cfg st st'' := by
  intro hflag
  obtain ⟨hflag', hfits'⟩ := h' hflag
  obtain ⟨hflag, hfits⟩ := h hflag'
  exact ⟨hflag, hfits' ∘ hfits⟩

variable {st st' : State} {cs : List Code} {names : List Text} {c : Code} {bs : List Block}

/-- Nothing is claimed after an error. -/
lemma Keeps.of_error (h : st'.exitFlag = true) : Keeps cfg st st' := by
  intro hflag
  rw [h] at hflag
  exact absurd hflag (by simp)

/-- Lines written to the stream of the templates, together with a change on top of the stack. -/
lemma Fits.of_template (h : Fits cfg st) (popped pushed rest : List Block)
    (cs : List Code) (hstack : st.stack = popped ++ rest) (hstack' : st'.stack = pushed ++ rest)
    (hinner : ∀ b ∈ popped ++ pushed, b.isInner = true)
    (hlines : st'.templateCode cfg = st.templateCode cfg ++ cs)
    (hother : st'.otherCode cfg = st.otherCode cfg)
    (hmatch : ∀ L, matchStack (popped.flatMap Block.templateBraces ++ L) (cs.flatMap Code.braces) =
      some (pushed.flatMap Block.templateBraces ++ L)) : Fits cfg st' := by
  have hopen : ∀ bs, (∀ b ∈ bs, b.isInner = true) →
      openTemplate cfg (bs ++ rest) = bs.flatMap Block.templateBraces ++ openTemplate cfg rest ∧
        openOther cfg (bs ++ rest) = openOther cfg rest := by
    intro bs hbs
    induction bs with
    | nil => simp
    | cons b bs ih =>
      rw [List.forall_mem_cons] at hbs
      obtain ⟨ih1, ih2⟩ := ih hbs.2
      constructor
      · rw [List.cons_append, openTemplate, List.flatMap_cons, ← openTemplate, ih1,
          Block.outerTemplate_of_isInner hbs.1]
        simp
      · rw [List.cons_append, openOther, List.flatMap_cons, ← openOther, ih2,
          Block.outerOther_of_isInner hbs.1]
        rfl
  have hpop := hopen popped fun b hb => hinner b (List.mem_append_left _ hb)
  have hpush := hopen pushed fun b hb => hinner b (List.mem_append_right _ hb)
  constructor
  · rw [hlines, List.flatMap_append, matchStack_append, h.template, hstack, hstack',
      hpop.1, hpush.1]
    exact hmatch _
  · rw [hother, h.other, hstack, hstack', hpop.2, hpush.2]

/-- Blocks on top of the stack are replaced by others, with the lines for that. -/
lemma Wrote.keeps (popped pushed : List Block) {rest : List Block}
    (h : Wrote cfg st st' (pushed ++ rest) names cs)
    (hstack : st.stack = popped ++ rest) (hinner : ∀ b ∈ popped ++ pushed, b.isInner = true)
    (hmatch : ∀ L, matchStack (popped.flatMap Block.templateBraces ++ L) (cs.flatMap Code.braces) =
      some (pushed.flatMap Block.templateBraces ++ L)) : Keeps cfg st st' := by
  intro hflag
  refine ⟨h.exitFlag.symm.trans hflag, fun hfits => ?_⟩
  exact hfits.of_template popped pushed rest cs hstack h.stack hinner h.code h.other hmatch

/-- Lines with balanced braces. -/
lemma Wrote.keeps_balanced (h : Wrote cfg st st' st.stack names cs)
    (hcs : Balanced (cs.flatMap Code.braces)) :
    Keeps cfg st st' := by
  refine Wrote.keeps [] [] h rfl (by simp) fun L => ?_
  exact hcs.matchStack_eq L

/-- A line without braces. -/
lemma Wrote.keeps_line (h : Wrote cfg st st' st.stack names [c]) (hc : c.braces = []) :
    Keeps cfg st st' := by
  apply h.keeps_balanced
  simpa [hc] using Balanced.nil

/-- Lines without braces keep them in order. -/
lemma WrotePlain.keeps (h : WrotePlain cfg st st') : Keeps cfg st st' := by
  obtain ⟨cs, hcs, hwrote⟩ := h
  exact hwrote.keeps_balanced hcs

/-- Lines that close the block on top of the stack. -/
lemma keeps_close {b : Block} (hstack : st.stack = b :: bs) (hb : b.isInner = true)
    (h : Wrote cfg { st with stack := bs } st' bs names cs)
    (hmatch : ∀ L, matchStack (b.templateBraces ++ L) (cs.flatMap Code.braces) = some L) :
    Keeps cfg st st' := by
  have h' : Wrote cfg st st' ([] ++ bs) names cs :=
    ⟨h.exitFlag, h.stack, h.tmplSeq, h.code, h.other, h.scopeFilter, h.ignoreInline⟩
  refine h'.keeps [b] [] hstack (by simpa using hb) fun L => ?_
  simpa using hmatch L

/-- It is enough to consider steps without errors. -/
lemma Keeps.of_exitFlag (h : st'.exitFlag = false → Keeps cfg st st') :
    Keeps cfg st st' := fun hflag => h hflag hflag

/-! ## Blocks inside a template -/

section Inner

variable {st st' : State}

variable {cond : IfCondition} {params : Option Text} {s : Text}

lemma keeps_useIf (h : useIf cfg st cond = some st') : Keeps cfg st st' := by
  obtain ⟨c, -, hwrote⟩ := useIf_wrote h
  exact Wrote.keeps [] [_] hwrote rfl (by simp [Block.isInner]) fun L => rfl

/-- The braces of `elif` close one branch and open the next. -/
lemma keeps_useElif (h : useElif cfg st cond = some st') : Keeps cfg st st' := by
  apply Keeps.of_exitFlag
  intro hflag
  obtain ⟨c, elif, bs, -, hstack, hwrote⟩ := useElif_wrote h hflag
  exact Wrote.keeps [_] [_] hwrote hstack (by simp [Block.isInner]) fun L => rfl

lemma keeps_useElse (h : useElse cfg st = some st') : Keeps cfg st st' := by
  apply Keeps.of_exitFlag
  intro hflag
  obtain ⟨elif, bs, hstack, hwrote⟩ := useElse_wrote h hflag
  exact Wrote.keeps [_] [_] hwrote hstack (by simp [Block.isInner]) fun L => rfl

/-- A loop opens two braces before its body. -/
lemma foreachHead_braces (h : ForeachHead) (seqName : Expr) :
    (foreachHead cfg h seqName).flatMap Code.braces = [opening .sequence, opening .nonempty] := by
  unfold foreachHead
  cases h.rowid <;> rfl

lemma keeps_useForeach {h : ForeachHead} (hst : useForeach cfg st h = some st') :
    Keeps cfg st st' := by
  apply Keeps.of_exitFlag
  intro hflag
  obtain ⟨seqName, -, -, -, -, hwrote⟩ := useForeach_wrote hst hflag
  refine Wrote.keeps [] [_] hwrote rfl (by simp [Block.isInner]) fun L => ?_
  rw [foreachHead_braces]
  rfl

lemma loopHead_braces (f : Foreach) : (loopHead f).flatMap Code.braces = [opening .loop] := by
  simp [loopHead]

/-- The `foreach` on top of the stack has its item. -/
def afterItem : List Block → Bool
  | .foreach f :: _ => f.hasItem
  | _ => false

/-- A separator before the item opens the loop and the test for the first element. -/
lemma keeps_useSeparator (hplace : afterItem st.stack = false) :
    Keeps cfg st (useSeparator cfg st) := by
  apply Keeps.of_exitFlag
  intro hflag
  obtain ⟨f, bs, hstack, hsep, hwrote⟩ := useSeparator_wrote hflag
  have hitem : f.hasItem = false := by simpa [hstack, afterItem] using hplace
  refine Wrote.keeps [_] [_] hwrote hstack (by simp [Block.isInner]) fun L => ?_
  rw [List.flatMap_append, loopHead_braces]
  simp [Block.templateBraces, hsep, hitem, matchStack]

lemma keeps_useItem (st : State) : Keeps cfg st (useItem cfg st) := by
  apply Keeps.of_exitFlag
  intro hflag
  obtain ⟨f, bs, hstack, hitem, hwrote⟩ := useItem_wrote hflag
  refine Wrote.keeps [_] [_, _] hwrote hstack (by simp [Block.isInner]) fun L => ?_
  cases hsep : f.hasSeparator
  · simp [Block.templateBraces, hsep, hitem, matchStack, loopHead_braces]
  · simp [Block.templateBraces, hsep, hitem, matchStack]

lemma keeps_useEmpty (st : State) : Keeps cfg st (useEmpty cfg st) := by
  apply Keeps.of_exitFlag
  intro hflag
  obtain ⟨f, bs, hstack, hitem, hwrote⟩ := useEmpty_wrote hflag
  refine Wrote.keeps [_] [_] hwrote hstack (by simp [Block.isInner]) fun L => ?_
  simp [Block.templateBraces, hitem, matchStack]

/-- `using` opens the brace that its end closes. -/
lemma keeps_useUsing {c n : Text} {content : Option Text} {from' : Option RenderNames}
    (h : useUsing cfg st c content n from' = some st') : Keeps cfg st st' := by
  obtain ⟨cs, hcs, hwrote⟩ := useUsing_wrote h
  refine Wrote.keeps [] [_] hwrote rfl (by simp [Block.isInner]) fun L => ?_
  rw [hcs]
  rfl

/-- `cache` opens two braces, one for the miss. -/
lemma keeps_useCache {param : StrOrVar} {timeout callback : Option Text} {nt nr : Bool}
    (h : useCache cfg st param timeout callback nt nr = some st') : Keeps cfg st st' := by
  obtain ⟨p, cs, hcs, hwrote⟩ := useCache_wrote h
  refine Wrote.keeps [] [_] hwrote rfl (by simp [Block.isInner]) fun L => ?_
  rw [hcs]
  rfl

lemma keeps_useForm {type ident : Text} (h : useForm cfg st type ident = some st') :
    Keeps cfg st st' := by
  obtain ⟨hplain, -⟩ | ⟨e, cs, hcs, hwrote, -⟩ := useForm_wrote h
  · exact hplain.keeps
  · refine Wrote.keeps [] [_] hwrote rfl (by simp [Block.isInner]) fun L => ?_
    exact hcs.matchStack_eq L

lemma keeps_useGettext (h : useGettext cfg st s params = some st') :
    Keeps cfg st st' := by
  apply Keeps.of_exitFlag
  intro hflag
  obtain ⟨es, -, hwrote⟩ := useGettext_wrote h hflag
  exact hwrote.keeps_line (translateLine_braces es rfl)

lemma keeps_useNgettext {s1 s2 ident : Text}
    (h : useNgettext cfg st s1 s2 ident params = some st') : Keeps cfg st st' := by
  apply Keeps.of_exitFlag
  intro hflag
  obtain ⟨idt, es, -, -, hwrote⟩ := useNgettext_wrote h hflag
  exact hwrote.keeps_line (translateLine_braces es rfl)

lemma keeps_useUrl (h : useUrl cfg st s params = some st') :
    Keeps cfg st st' := by
  apply Keeps.of_exitFlag
  intro hflag
  obtain ⟨es, -, hwrote⟩ := useUrl_wrote h hflag
  exact hwrote.keeps_line (urlLine_braces s es)

lemma keeps_useFiltersShow {deprecated : Bool} (h : useFiltersShow cfg st deprecated s = some st') :
    Keeps cfg st st' := by
  apply Keeps.of_exitFlag
  intro hflag
  obtain ⟨e, -, hwrote⟩ := useFiltersShow_wrote h hflag
  exact hwrote.keeps_line rfl

/-- Fields that have no part in the link may change. -/
lemma Keeps.of_fields (hflag : st'.exitFlag = st.exitFlag) (hstack : st'.stack = st.stack)
    (hdecls : st'.declarations = st.declarations) (hdefs : st'.definitions = st.definitions) :
    Keeps cfg st st' := by
  intro h
  refine ⟨hflag.symm.trans h, fun hfits => ?_⟩
  constructor
  · rw [templateCode, hdecls, hdefs, hstack]
    exact hfits.template
  · rw [otherCode, hdecls, hdefs, hstack]
    exact hfits.other

lemma keeps_useFilter (st : State) (ext : Option Text) (name : Text) :
    Keeps cfg st (useFilter st ext name) := by
  have hscope : Keeps cfg st { st with scopeFilter := filterFunction ext name } :=
    Keeps.of_fields rfl rfl rfl rfl
  refine hscope.trans ?_
  refine Wrote.keeps [] [_] ((wrote_outputs _ []).push _) rfl (by simp [Block.isInner]) fun L => ?_
  rfl

lemma keeps_useDomain (st : State) (gt : Text) : Keeps cfg st (useDomain st gt) := by
  unfold useDomain
  split_ifs
  · exact Keeps.of_error rfl
  · exact Keeps.of_fields rfl rfl rfl rfl
  · exact Keeps.of_error rfl
  · exact Keeps.refl st

end Inner

/-! ## Skins, views and templates -/

section Outer

variable {st st' : State}

variable {decls defs : List Code} {name : Option Text}

/-- Lines added to the streams. -/
lemma State.Added.keeps (h : Added cfg st st' decls defs)
    (hflag : st'.exitFlag = st.exitFlag)
    (htemplate : matchStack (openTemplate cfg st.stack)
      ((if cfg.inlineTemplates then decls else defs).flatMap Code.braces) =
        some (openTemplate cfg st'.stack))
    (hother : matchStack (openOther cfg st.stack)
      ((if cfg.inlineTemplates then defs else decls).flatMap Code.braces) =
        some (openOther cfg st'.stack)) : Keeps cfg st st' := by
  intro h'
  refine ⟨hflag.symm.trans h', fun hfits => ?_⟩
  constructor
  · rw [h.template, List.flatMap_append, matchStack_append, hfits.template]
    exact htemplate
  · rw [h.other, List.flatMap_append, matchStack_append, hfits.other]
    exact hother

/-- Lines with balanced braces. -/
lemma State.Added.keeps_balanced (h : Added cfg st st' decls defs)
    (hflag : st'.exitFlag = st.exitFlag) (hstack : st'.stack = st.stack)
    (hdecls : Balanced (decls.flatMap Code.braces)) (hdefs : Balanced (defs.flatMap Code.braces)) :
    Keeps cfg st st' := by
  apply h.keeps hflag
  · rw [hstack]
    split_ifs
    · exact hdecls.matchStack_eq _
    · exact hdefs.matchStack_eq _
  · rw [hstack]
    split_ifs
    · exact hdefs.matchStack_eq _
    · exact hdecls.matchStack_eq _

lemma keeps_useCppInclude (st : State) (src : Bool) (s : Text) :
    Keeps cfg st (useCppInclude cfg st src s) := by
  unfold useCppInclude
  split_ifs
  · have h : Added cfg st (st.outputDefinition (.line [.user s])) [] [.line [.user s]] :=
      Added.of_lines cfg st (by simp [outputDefinition]) (by simp [outputDefinition])
    exact h.keeps_balanced rfl rfl .nil .nil
  · exact (wrotePlain_output st rfl).keeps
  · have h : Added cfg st (st.outputDeclaration (.line [.user s])) [.line [.user s]] [] :=
      Added.of_lines cfg st (by simp [outputDeclaration]) (by simp [outputDeclaration])
    exact h.keeps_balanced rfl rfl .nil .nil

/-- A line in both streams opens or closes the same brace in each. -/
lemma keeps_outputAll_skin (st : State)
    (htemplate : matchStack (openTemplate cfg st.stack) c.braces = some (openTemplate cfg bs))
    (hother : matchStack (openOther cfg st.stack) c.braces = some (openOther cfg bs)) :
    Keeps cfg st { st.outputAll c with stack := bs } := by
  have h : Added cfg st { st.outputAll c with stack := bs } [c] [c] :=
    Added.of_lines cfg st (by simp [outputAll, outputDefinition, outputDeclaration])
      (by simp [outputAll, outputDefinition, outputDeclaration])
  apply h.keeps rfl
  · simpa using htemplate
  · simpa using hother

lemma keeps_useSkin (h : useSkin st name = some st') : Keeps cfg st st' := by
  unfold useSkin at h
  dsimp only at h
  split_ifs at h
  · obtain rfl := Option.some.inj h
    -- the lines are written after the name of the namespace was taken
    refine Keeps.trans ?_ (keeps_outputAll_skin _ ?_ ?_)
    · exact Keeps.of_fields rfl rfl rfl rfl
    · rfl
    · rfl
  · obtain rfl := Option.some.inj h
    apply Keeps.of_error
    rfl
  · obtain rfl := Option.some.inj h
    refine Keeps.trans ?_ (keeps_outputAll_skin _ ?_ ?_)
    · exact Keeps.of_fields rfl rfl rfl rfl
    · rfl
    · rfl

lemma keeps_endSkin (hstack : st.stack = .skin :: bs) :
    Keeps cfg st (endSkin { st with stack := bs }) := by
  have h : Added cfg st (endSkin { st with stack := bs })
      [.line [.closing .skin, .ofString " // end of namespace ", .user (pyStr st.namespaceName)]]
      [.line [.closing .skin, .ofString " // end of namespace ", .user (pyStr st.namespaceName)]] :=
    Added.of_lines cfg st (by simp [endSkin, outputAll, outputDefinition, outputDeclaration])
      (by simp [endSkin, outputAll, outputDefinition, outputDeclaration])
  apply h.keeps rfl
  · rw [hstack, ite_self]
    rfl
  · rw [hstack, ite_self]
    rfl

/-- The declarations of a view open its class, and its constructor is closed at once. -/
lemma viewDeclarations_braces (domain className uses : Text) (extends' : Option Text)
    (inline : Bool) :
    (viewDeclarations cfg domain className uses extends' inline).flatMap Code.braces =
      [opening .view, opening .constructor, closing .constructor] := by
  unfold viewDeclarations
  cases extends' <;> split_ifs <;> rfl

lemma keeps_useView (st : State) (name uses : Text) (extends' : Option Text)
    (abstract inline : Bool) :
    Keeps cfg st (useView cfg st name uses extends' abstract inline) := by
  apply Keeps.of_exitFlag
  intro hflag
  obtain ⟨-, hflag', -, hstack, hadded⟩ := useView_cases rfl hflag
  apply hadded.keeps (hflag.trans hflag'.symm)
  · rw [hstack]
    cases hinline : cfg.inlineTemplates
    · simp [openTemplate, hinline, matchStack, Block.templateBraces, Block.outerTemplate]
    · simp [openTemplate, hinline, matchStack, viewDeclarations_braces, Block.templateBraces,
        Block.outerTemplate]
  · rw [hstack]
    cases hinline : cfg.inlineTemplates
    · simp [openOther, hinline, matchStack, viewDeclarations_braces, Block.outerOther]
    · simp [openOther, hinline, matchStack, Block.outerOther]

lemma keeps_endView {c : Text} (hstack : st.stack = .view c :: bs) :
    Keeps cfg st (endView { st with stack := bs } c) := by
  have h : Added cfg st (endView { st with stack := bs } c)
      [.line [.ofString "private:"], .line [.ofString "\tint _domain_id;"],
        .line [.closing .view, .ofString "; // end of class ", .user c]] [] := by
    apply Added.of_lines
    · exact (outputs_declarations _ _).1
    · rw [endView, (outputs_declarations _ _).2, List.append_nil]
  apply h.keeps (by simp [endView])
  · rw [hstack]
    cases hinline : cfg.inlineTemplates <;>
      simp [openTemplate, hinline, matchStack, endView, Block.templateBraces, Block.outerTemplate,
        List.filterMap_cons]
  · rw [hstack]
    cases hinline : cfg.inlineTemplates <;>
      simp [openOther, hinline, matchStack, endView, Block.outerOther, List.filterMap_cons]

lemma keeps_useTemplate {name params : Text} {abstract : Bool}
    (h : useTemplate cfg st name params abstract = some st') : Keeps cfg st st' := by
  apply Keeps.of_exitFlag
  intro hflag
  obtain ⟨-, -, st1, p, -, hflag', -, hstack, hadded⟩ := useTemplate_cases h hflag
  apply hadded.keeps (hflag.trans hflag'.symm)
  · rw [hstack]
    cases abstract <;> cases hinline : cfg.inlineTemplates <;>
      simp [openTemplate, hinline, matchStack, templateDeclarations, templateDefinitions,
        declareTemplate, domainLine, Block.templateBraces, Block.outerTemplate, List.filterMap_cons]
  · rw [hstack]
    cases abstract <;> cases hinline : cfg.inlineTemplates <;>
      simp [openOther, hinline, matchStack, templateDeclarations, templateDefinitions,
        declareTemplate, Block.outerOther, List.filterMap_cons]

lemma keeps_endTemplate {n : Text} (hstack : st.stack = .template n :: bs) :
    Keeps cfg st (endTemplate cfg { st with stack := bs } n) := by
  refine Keeps.trans (keeps_close hstack rfl (wrote_outputTemplate _ _) fun L => ?_)
    (Keeps.of_fields rfl rfl rfl rfl)
  rfl

/-- The end of a block closes its braces. -/
lemma keeps_onEnd {b : Block} (hstack : st.stack = b :: bs)
    (h : onEnd cfg { st with stack := bs } b = some st') : Keeps cfg st st' := by
  apply Keeps.of_exitFlag
  intro hflag
  cases b with
  | skin =>
    obtain rfl := Option.some.inj h
    exact keeps_endSkin hstack
  | view c =>
    obtain rfl := Option.some.inj h
    exact keeps_endView hstack
  | template n =>
    obtain rfl := Option.some.inj h
    exact keeps_endTemplate hstack
  | using' =>
    obtain rfl := Option.some.inj h
    exact keeps_close hstack rfl (wrote_outputTemplate _ _) fun L => rfl
  | foreach f =>
    obtain ⟨hitem, hwrote⟩ := endForeach_wrote h hflag
    refine keeps_close hstack rfl hwrote fun L => ?_
    simp [Block.templateBraces, hitem, matchStack]
  | item =>
    obtain rfl := Option.some.inj h
    exact keeps_close hstack rfl (wrote_outputTemplate _ _) fun L => rfl
  | empty i r => exact keeps_close hstack rfl (endEmpty_wrote h) fun L => rfl
  | else' =>
    obtain rfl := Option.some.inj h
    exact keeps_close hstack rfl (wrote_outputTemplate _ _) fun L => rfl
  | if' elif =>
    obtain rfl := Option.some.inj h
    exact keeps_close hstack rfl (wrote_outputTemplate _ _) fun L => rfl
  | form e =>
    obtain rfl := Option.some.inj h
    obtain ⟨cs, hcs, hwrote⟩ := formatInput_wrote cfg { st with stack := bs } (str "end") e
    exact keeps_close hstack rfl hwrote fun L => hcs.matchStack_eq L
  | filter f =>
    obtain rfl := Option.some.inj h
    exact (keeps_close hstack rfl (wrote_outputs _ []) fun L => rfl).trans
      (Keeps.of_fields rfl rfl rfl rfl)
  | cache p t nt nr =>
    obtain rfl := Option.some.inj h
    exact keeps_close hstack rfl (wrote_outputs _ _) fun L => rfl

/-- Every kind of end closes what its block has opened. -/
lemma keeps_useEnd (h : useEnd cfg st name = some st') : Keeps cfg st st' := by
  apply Keeps.of_exitFlag
  intro hflag
  obtain ⟨b, bs, hstack, -, hend⟩ := useEnd_cases h hflag
  exact keeps_onEnd hstack hend

end Outer

/-! ## Whole runs -/

section Runs

variable {st st' : State}

variable {c : Command}

/-- Every command keeps the link, except for a separator after the item of its `foreach`. -/
lemma keeps_use (h : use cfg st c = some st')
    (hplace : c = .separator → afterItem st.stack = false) : Keeps cfg st st' := by
  cases c with
  | skin n => exact keeps_useSkin h
  | view n us e a i =>
    obtain rfl := Option.some.inj h
    exact keeps_useView st n us e a i
  | template n p a => exact keeps_useTemplate h
  | end' n => exact keeps_useEnd h
  | if' c => exact keeps_useIf h
  | elif c => exact keeps_useElif h
  | else' => exact keeps_useElse h
  | cppInclude src s =>
    obtain rfl := Option.some.inj h
    exact keeps_useCppInclude st src s
  | gettext m p => exact keeps_useGettext h
  | ngettext m p i ps => exact keeps_useNgettext h
  | url s p => exact keeps_useUrl h
  | foreach hd => exact keeps_useForeach h
  | item =>
    obtain rfl := Option.some.inj h
    exact keeps_useItem st
  | empty =>
    obtain rfl := Option.some.inj h
    exact keeps_useEmpty st
  | separator =>
    obtain rfl := Option.some.inj h
    exact keeps_useSeparator (hplace rfl)
  | include' c p f cl co =>
    apply Keeps.of_exitFlag
    intro hflag
    exact (useInclude_wrote h hflag).keeps
  | cache p t c nt nr => exact keeps_useCache h
  | trigger p => exact (useTrigger_wrote h).keeps
  | filter e n =>
    obtain rfl := Option.some.inj h
    exact keeps_useFilter st e n
  | using' c co n f => exact keeps_useUsing h
  | render n c => exact (useRender_wrote h).keeps
  | html x =>
    obtain rfl := Option.some.inj h
    exact Keeps.of_fields rfl rfl rfl rfl
  | form t i => exact keeps_useForm h
  | csrf t =>
    obtain rfl := Option.some.inj h
    exact (useCsrf_wrote st t).keeps
  | domain n =>
    obtain rfl := Option.some.inj h
    exact keeps_useDomain st n
  | filtersShow d s => exact keeps_useFiltersShow h
  | error s =>
    obtain rfl := Option.some.inj h
    exact Keeps.of_error rfl

/-- No command takes an error back. -/
lemma exitFlag_of_use (h : use cfg st c = some st') (hflag : st'.exitFlag = false) :
    st.exitFlag = false := by
  by_cases hc : c = .separator
  · subst hc
    obtain rfl := Option.some.inj h
    obtain ⟨f, bs, -, -, hwrote⟩ := useSeparator_wrote hflag
    exact hwrote.exitFlag.symm.trans hflag
  · exact (keeps_use h (fun hsep => absurd hsep hc) hflag).1

end Runs

end Template

end Cppcms
