import Cppcms.Json.Writer

/-!
# What is written before an exception

`write_value` writes to a stream: when it comes to an undefined value it throws, and the text before
it stays written. `emit` tells what is written in all cases, where `writeValue` tells only the texts
that are complete.
-/

namespace Cppcms

namespace Json

/-- What is written to a stream: all of it, or what is written before an exception; or the writing
does not end. -/
inductive Emitted where
  | done (text : Bytes)
  | thrown (text : Bytes)
  | endless
  deriving DecidableEq

namespace Emitted

/-- One thing is written after another. -/
def andThen (x y : Emitted) : Emitted :=
  match x with
  | done text =>
    match y with
    | done text' => done (text ++ text')
    | thrown text' => thrown (text ++ text')
    | endless => endless
  | thrown text => thrown text
  | endless => endless

/-- The text that is complete. -/
def text : Emitted → Option Bytes
  | done text => some text
  | _ => none

@[simp] lemma text_done (t : Bytes) : (done t).text = some t := rfl

lemma text_eq_some {x : Emitted} {t : Bytes} : x.text = some t ↔ x = done t := by
  cases x <;> simp [text]

lemma text_andThen (x y : Emitted) :
    (x.andThen y).text = x.text.bind fun t => y.text.map (t ++ ·) := by
  cases x with
  | done t => cases y <;> rfl
  | thrown t => rfl
  | endless => rfl

end Emitted

/-- The loop over the elements of an array, whose outputs are given. -/
def emitLoop (elements : List Emitted) (separator : Bytes) : ℕ → ℕ → Emitted
  | 0, _ => .endless
  | passes + 1, i =>
    match elements[i]? with
    | none => .done []
    | some x =>
      x.andThen
        ((Emitted.done (if (i + 1) % 2 ^ 32 < elements.length then separator else [])).andThen
        (emitLoop elements separator passes ((i + 1) % 2 ^ 32)))

section

variable {ν : Type} (print : ν → Bytes)

mutual

/-- `write_value`. -/
def emit : Value ν → ℤ → Emitted
  | .undefined, _ => .thrown []
  | .null, _ => .done (bytes "null")
  | .number x, _ => .done (print x)
  | .str s, _ => .done (toJson s)
  | .boolean b, _ => .done (if b then bytes "true" else bytes "false")
  | .array a, tabs =>
    (Emitted.done (indent openBracket tabs).1).andThen
      ((emitLoop (emitElements a (indent openBracket tabs).2)
        (indent comma (indent openBracket tabs).2).1
        (a.length + 1) 0).andThen (.done (indent closeBracket (indent openBracket tabs).2).1))
  | .object o, tabs =>
    (Emitted.done (indent openBrace tabs).1).andThen
      ((emitMembers o (indent openBrace tabs).2).andThen
        (.done (indent closeBrace (indent openBrace tabs).2).1))

def emitElements : List (Value ν) → ℤ → List Emitted
  | [], _ => []
  | v :: a, tabs => emit v tabs :: emitElements a tabs

def emitMembers : List (Bytes × Value ν) → ℤ → Emitted
  | [], _ => .done []
  | (key, v) :: o, tabs =>
    (Emitted.done (toJson key ++ (indent Ch.colon tabs).1)).andThen
      ((emit v tabs).andThen
        ((Emitted.done (if o = [] then [] else (indent comma tabs).1)).andThen
        (emitMembers o tabs)))

end

/-- The insertion of a value into a stream. -/
def insertValue (v : Value ν) : Emitted := emit print v (-1)

end

lemma text_emitLoop (elements : List Emitted) (separator : Bytes) (passes i : ℕ) :
    (emitLoop elements separator passes i).text = arrayLoop (elements.map Emitted.text)
      separator passes i := by
  induction passes generalizing i with
  | zero => rfl
  | succ passes ih =>
    rw [emitLoop, arrayLoop, List.getElem?_map]
    rcases elements[i]? with - | x
    · rfl
    · dsimp only [Option.map_some]
      rw [Emitted.text_andThen, Emitted.text_andThen, ih, List.length_map]
      cases x.text with
      | none => rfl
      | some t =>
        rw [Option.bind_some, Emitted.text_done, Option.bind_some, Option.map_map]
        rfl

variable {ν : Type} {print : ν → Bytes}

/-- What is written without an exception is the text of the value. -/
lemma text_emit (v : Value ν) (tabs : ℤ) : (emit print v tabs).text = writeValue print v tabs := by
  induction v using Value.induction generalizing tabs with
  | hundefined => rw [emit, writeValue]; rfl
  | hnull => rw [emit, writeValue]; rfl
  | hboolean b => rw [emit, writeValue]; rfl
  | hnumber x => rw [emit, writeValue]; rfl
  | hstr s => rw [emit, writeValue]; rfl
  | hobject o ih =>
    have hmembers : ∀ tabs, (emitMembers print o tabs).text = writeMembers print o tabs := by
      intro tabs
      induction o with
      | nil => rw [emitMembers, writeMembers]; rfl
      | cons m o iho =>
        rcases m with ⟨key, v⟩
        have hv := ih _ List.mem_cons_self tabs
        have ho := iho fun m hm => ih m (List.mem_cons_of_mem _ hm)
        rw [emitMembers, writeMembers, Emitted.text_andThen, Emitted.text_andThen,
          Emitted.text_andThen, ho, hv]
        cases writeValue print v tabs with
        | none => rfl
        | some t =>
          cases writeMembers print o tabs with
          | none => rfl
          | some out =>
            simp only [Emitted.text_done, Option.bind_some, Option.map_some, List.append_assoc]
    rw [emit, writeValue, Emitted.text_andThen, Emitted.text_andThen, hmembers]
    cases writeMembers print o (indent openBrace tabs).2 <;> rfl
  | harray a ih =>
    have helements : ∀ tabs, (emitElements print a tabs).map Emitted.text =
        writeElements print a tabs := by
      intro tabs
      induction a with
      | nil => rw [emitElements, writeElements]; rfl
      | cons v a iha =>
        rw [emitElements, writeElements, List.map_cons, ih v List.mem_cons_self,
          iha fun x hx => ih x (List.mem_cons_of_mem _ hx)]
    rw [emit, writeValue, Emitted.text_andThen, Emitted.text_andThen, text_emitLoop, helements]
    cases arrayLoop (writeElements print a (indent openBracket tabs).2)
      (indent comma (indent openBracket tabs).2).1
      (a.length + 1) 0 <;> rfl

end Json

end Cppcms
