import Cppcms.Template.Compiler

/-!
# What the operations of the compiler change

The operations on the globals, field by field.  The two streams are seen as the one that templates
are written to (`templateCode`) and the other one (`otherCode`), so that most proofs need not know
whether templates are inlined.
-/

namespace Cppcms

namespace Template

namespace State

variable (cfg : Config)

/-- The lines of the stream that templates are written to, without their places. -/
def templateCode (st : State) : List Code :=
  (if cfg.inlineTemplates then st.declarations else st.definitions).map Line.code

/-- The lines of the other stream. -/
def otherCode (st : State) : List Code :=
  (if cfg.inlineTemplates then st.definitions else st.declarations).map Line.code

/-- A property of both streams. -/
lemma forall_streams {P : List Code → Prop} (st : State) :
    (P (st.declarations.map Line.code) ∧ P (st.definitions.map Line.code)) ↔
      P (st.templateCode cfg) ∧ P (st.otherCode cfg) := by
  cases h : cfg.inlineTemplates
  · simp [templateCode, otherCode, h, and_comm]
  · simp [templateCode, otherCode, h]

/-! ## Errors -/

@[simp] lemma errorExit_exitFlag (st : State) (x : Text) : (st.errorExit x).exitFlag = true := rfl
@[simp] lemma errorExit_stack (st : State) (x : Text) : (st.errorExit x).stack = st.stack := rfl
@[simp] lemma warning_exitFlag (st : State) (x : Text) : (st.warning x).exitFlag = st.exitFlag :=
  rfl
@[simp] lemma warning_stack (st : State) (x : Text) : (st.warning x).stack = st.stack := rfl
@[simp] lemma warning_tmplSeq (st : State) (x : Text) : (st.warning x).tmplSeq = st.tmplSeq := rfl
@[simp] lemma warning_scopeFilter (st : State) (x : Text) :
    (st.warning x).scopeFilter = st.scopeFilter := rfl
@[simp] lemma warning_templateCode (st : State) (x : Text) :
    (st.warning x).templateCode cfg = st.templateCode cfg := rfl
@[simp] lemma warning_otherCode (st : State) (x : Text) :
    (st.warning x).otherCode cfg = st.otherCode cfg := rfl

/-- Errors do not go away. -/
lemma errors_exitFlag (st : State) (xs : List Text) :
    (st.errors xs).exitFlag = (st.exitFlag || xs ≠ []) := by
  induction xs generalizing st with
  | nil => simp [errors]
  | cons x xs ih =>
    have : st.errors (x :: xs) = (st.errorExit x).errors xs := rfl
    rw [this, ih]
    simp

/-- Without an error the state is unchanged. -/
lemma errors_of_exitFlag {st : State} {xs : List Text} (h : (st.errors xs).exitFlag = false) :
    st.errors xs = st ∧ xs = [] ∧ st.exitFlag = false := by
  rw [errors_exitFlag, Bool.or_eq_false_iff, decide_eq_false_iff_not, not_not] at h
  obtain ⟨hflag, rfl⟩ := h
  exact ⟨rfl, rfl, hflag⟩

/-! ## Output -/

section Output

variable (st : State) (c : Code) (cs : List Code)

/-- A line of a template comes last in its code. -/
@[simp] lemma outputTemplate_templateCode :
    (st.outputTemplate cfg c).templateCode cfg = st.templateCode cfg ++ [c] := by
  cases h : cfg.inlineTemplates <;>
    simp [outputTemplate, templateCode, outputDeclaration, outputDefinition, h]

/-- A line of a template does not come into the other stream. -/
@[simp] lemma outputTemplate_otherCode :
    (st.outputTemplate cfg c).otherCode cfg = st.otherCode cfg := by
  cases h : cfg.inlineTemplates <;>
    simp [outputTemplate, otherCode, outputDeclaration, outputDefinition, h]

@[simp] lemma outputTemplate_stack : (st.outputTemplate cfg c).stack = st.stack := by
  cases h : cfg.inlineTemplates <;> simp [outputTemplate, outputDeclaration, outputDefinition, h]

@[simp] lemma outputTemplate_exitFlag : (st.outputTemplate cfg c).exitFlag = st.exitFlag := by
  cases h : cfg.inlineTemplates <;> simp [outputTemplate, outputDeclaration, outputDefinition, h]

@[simp] lemma outputTemplate_tmplSeq : (st.outputTemplate cfg c).tmplSeq = st.tmplSeq := by
  cases h : cfg.inlineTemplates <;> simp [outputTemplate, outputDeclaration, outputDefinition, h]

@[simp] lemma outputTemplate_scopeFilter :
    (st.outputTemplate cfg c).scopeFilter = st.scopeFilter := by
  cases h : cfg.inlineTemplates <;> simp [outputTemplate, outputDeclaration, outputDefinition, h]

@[simp] lemma outputTemplate_ignoreInline :
    (st.outputTemplate cfg c).ignoreInline = st.ignoreInline := by
  cases h : cfg.inlineTemplates <;> simp [outputTemplate, outputDeclaration, outputDefinition, h]

/-- What output keeps, several lines of output keep. -/
lemma outputs_keep {α : Type*} (f : State → α) {out : State → Code → State}
    (hout : ∀ st c, f (out st c) = f st) : f (st.outputs out cs) = f st := by
  induction cs generalizing st with
  | nil => rfl
  | cons c cs ih =>
    have : st.outputs out (c :: cs) = (out st c).outputs out cs := rfl
    rw [this, ih, hout]

@[simp] lemma outputs_stack : (st.outputs (outputTemplate cfg) cs).stack = st.stack :=
  outputs_keep st cs stack fun st c => outputTemplate_stack cfg st c

@[simp] lemma outputs_exitFlag : (st.outputs (outputTemplate cfg) cs).exitFlag = st.exitFlag :=
  outputs_keep st cs exitFlag fun st c => outputTemplate_exitFlag cfg st c

@[simp] lemma outputs_tmplSeq : (st.outputs (outputTemplate cfg) cs).tmplSeq = st.tmplSeq :=
  outputs_keep st cs tmplSeq fun st c => outputTemplate_tmplSeq cfg st c

@[simp] lemma outputs_scopeFilter :
    (st.outputs (outputTemplate cfg) cs).scopeFilter = st.scopeFilter :=
  outputs_keep st cs scopeFilter fun st c => outputTemplate_scopeFilter cfg st c

@[simp] lemma outputs_ignoreInline :
    (st.outputs (outputTemplate cfg) cs).ignoreInline = st.ignoreInline :=
  outputs_keep st cs ignoreInline fun st c => outputTemplate_ignoreInline cfg st c

@[simp] lemma outputs_otherCode :
    (st.outputs (outputTemplate cfg) cs).otherCode cfg = st.otherCode cfg :=
  outputs_keep st cs (otherCode cfg) fun st c => outputTemplate_otherCode cfg st c

/-- The lines come in their order. -/
@[simp] lemma outputs_templateCode : (st.outputs (outputTemplate cfg) cs).templateCode cfg =
    st.templateCode cfg ++ cs := by
  induction cs generalizing st with
  | nil => simp [outputs]
  | cons c cs ih =>
    have : st.outputs (outputTemplate cfg) (c :: cs) =
        (st.outputTemplate cfg c).outputs (outputTemplate cfg) cs := rfl
    rw [this, ih, outputTemplate_templateCode]
    simp

end Output

/-! ## Output to one of the streams -/

section Streams

variable (st : State) (c : Code) (cs : List Code)

@[simp] lemma outputDeclaration_stack : (st.outputDeclaration c).stack = st.stack := rfl
@[simp] lemma outputDeclaration_exitFlag : (st.outputDeclaration c).exitFlag = st.exitFlag := rfl
@[simp] lemma outputDefinition_stack : (st.outputDefinition c).stack = st.stack := rfl
@[simp] lemma outputDefinition_exitFlag : (st.outputDefinition c).exitFlag = st.exitFlag := rfl

@[simp] lemma outputsDeclaration_stack : (st.outputs outputDeclaration cs).stack = st.stack :=
  outputs_keep st cs stack fun _ _ => rfl

@[simp] lemma outputsDeclaration_exitFlag :
    (st.outputs outputDeclaration cs).exitFlag = st.exitFlag :=
  outputs_keep st cs exitFlag fun _ _ => rfl

@[simp] lemma outputsDefinition_stack : (st.outputs outputDefinition cs).stack = st.stack :=
  outputs_keep st cs stack fun _ _ => rfl

@[simp] lemma outputsDeclaration_scopeFilter :
    (st.outputs outputDeclaration cs).scopeFilter = st.scopeFilter :=
  outputs_keep st cs scopeFilter fun _ _ => rfl

@[simp] lemma outputsDefinition_scopeFilter :
    (st.outputs outputDefinition cs).scopeFilter = st.scopeFilter :=
  outputs_keep st cs scopeFilter fun _ _ => rfl

@[simp] lemma outputsDefinition_exitFlag :
    (st.outputs outputDefinition cs).exitFlag = st.exitFlag :=
  outputs_keep st cs exitFlag fun _ _ => rfl

/-- Lines added to one of the streams, in the two views of the streams. -/
structure Added (cfg : Config) (st st' : State) (decls defs : List Code) : Prop where
  template : st'.templateCode cfg =
    st.templateCode cfg ++ if cfg.inlineTemplates then decls else defs
  other : st'.otherCode cfg = st.otherCode cfg ++ if cfg.inlineTemplates then defs else decls

/-- What is added to the two streams, whichever of them the templates go to. -/
lemma Added.of_lines {st' : State} {decls defs : List Code}
    (hdecls : st'.declarations.map Line.code = st.declarations.map Line.code ++ decls)
    (hdefs : st'.definitions.map Line.code = st.definitions.map Line.code ++ defs) :
    Added cfg st st' decls defs := by
  constructor
  · cases h : cfg.inlineTemplates <;> simp [templateCode, h, hdecls, hdefs]
  · cases h : cfg.inlineTemplates <;> simp [otherCode, h, hdecls, hdefs]

/-- Declarations do not touch the definitions. -/
lemma outputs_declarations : (st.outputs outputDeclaration cs).declarations.map Line.code =
    st.declarations.map Line.code ++ cs ∧
      (st.outputs outputDeclaration cs).definitions = st.definitions := by
  refine ⟨?_, outputs_keep st cs definitions fun _ _ => rfl⟩
  induction cs generalizing st with
  | nil => simp [outputs]
  | cons c cs ih =>
    have : st.outputs outputDeclaration (c :: cs) =
        (st.outputDeclaration c).outputs outputDeclaration cs := rfl
    rw [this, ih]
    simp [outputDeclaration]

/-- Definitions do not touch the declarations. -/
lemma outputs_definitions : (st.outputs outputDefinition cs).definitions.map Line.code =
    st.definitions.map Line.code ++ cs ∧
      (st.outputs outputDefinition cs).declarations = st.declarations := by
  refine ⟨?_, outputs_keep st cs declarations fun _ _ => rfl⟩
  induction cs generalizing st with
  | nil => simp [outputs]
  | cons c cs ih =>
    have : st.outputs outputDefinition (c :: cs) =
        (st.outputDefinition c).outputs outputDefinition cs := rfl
    rw [this, ih]
    simp [outputDefinition]

end Streams

/-! ## The stack and the names -/

section Names

variable (st : State) (b : Block) (key : Text)

@[simp] lemma push_stack : (st.push b).stack = b :: st.stack := rfl
@[simp] lemma push_exitFlag : (st.push b).exitFlag = st.exitFlag := rfl
@[simp] lemma push_tmplSeq : (st.push b).tmplSeq = st.tmplSeq := rfl
@[simp] lemma push_scopeFilter : (st.push b).scopeFilter = st.scopeFilter := rfl
@[simp] lemma push_ignoreInline : (st.push b).ignoreInline = st.ignoreInline := rfl
@[simp] lemma push_templateCode : (st.push b).templateCode cfg = st.templateCode cfg := rfl
@[simp] lemma push_otherCode : (st.push b).otherCode cfg = st.otherCode cfg := rfl

@[simp] lemma addName_stack : (st.addName key).stack = st.stack := rfl
/-- A name that is there already is not added again. -/
@[simp] lemma addName_tmplSeq : (st.addName key).tmplSeq =
    if key ∈ st.tmplSeq then st.tmplSeq else key :: st.tmplSeq := rfl
@[simp] lemma addName_exitFlag : (st.addName key).exitFlag = st.exitFlag := rfl
@[simp] lemma addName_scopeFilter : (st.addName key).scopeFilter = st.scopeFilter := rfl
@[simp] lemma addName_ignoreInline : (st.addName key).ignoreInline = st.ignoreInline := rfl
@[simp] lemma addName_templateCode : (st.addName key).templateCode cfg = st.templateCode cfg := rfl
@[simp] lemma addName_otherCode : (st.addName key).otherCode cfg = st.otherCode cfg := rfl

/-- The stack does not matter for what has been written. -/
@[simp] lemma templateCode_stack (bs : List Block) :
    { st with stack := bs }.templateCode cfg = st.templateCode cfg := rfl

@[simp] lemma otherCode_stack (bs : List Block) :
    { st with stack := bs }.otherCode cfg = st.otherCode cfg := rfl

@[simp] lemma templateCode_tmplSeq (ns : List Text) :
    { st with tmplSeq := ns }.templateCode cfg = st.templateCode cfg := rfl

@[simp] lemma otherCode_tmplSeq (ns : List Text) :
    { st with tmplSeq := ns }.otherCode cfg = st.otherCode cfg := rfl

/-- Only the names change when one is deleted. -/
lemma delName_eq {st st' : State} {key : Text} (h : st.delName key = some st') :
    key ∈ st.tmplSeq ∧ st' = { st with tmplSeq := st.tmplSeq.erase key } := by
  unfold delName at h
  split_ifs at h with hk
  exact ⟨hk, (Option.some.inj h).symm⟩

end Names

end State

end Template

end Cppcms
