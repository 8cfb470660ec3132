import Cppcms.Template.Compiler

/-!
# The string literals of the emitted code

`inline_content` writes the text of a template as a C++ string literal made by `to_string`.  The
reader here is that of C++: simple, octal and hexadecimal escape sequences, and adjacent literals
with white space between them.  A control character without a simple escape sequence is written as
three digits, but the backslash in front of them is missing.
-/

namespace Cppcms

namespace Template

/-! ## Reading literals -/

/-- Where a reader is: inside a literal, behind a backslash, in an octal escape sequence that may
have some more digits, in a hexadecimal one, or between two adjacent literals. -/
inductive LiteralMode where
  | inside
  | escape
  | octal (left value : ℕ)
  | hex (value : Option ℕ)
  | between

/-- A reader, and the text that it has read. -/
structure LiteralReader where
  mode : LiteralMode
  text : Text

/-- The simple escape sequences of C++. -/
def simpleEscape : Char → Option Char
  | '\'' => some '\''
  | '"' => some '"'
  | '?' => some '?'
  | '\\' => some '\\'
  | 'a' => some (Char.ofNat 7)
  | 'b' => some (Char.ofNat 8)
  | 'f' => some (Char.ofNat 12)
  | 'n' => some '\n'
  | 'r' => some '\r'
  | 't' => some '\t'
  | 'v' => some (Char.ofNat 11)
  | _ => none

/-- The value of an octal digit. -/
def octalValue (c : Char) : Option ℕ := if '0' ≤ c ∧ c ≤ '7' then some (c.toNat - 48) else none

/-- The value of a hexadecimal digit. -/
def hexValue (c : Char) : Option ℕ :=
  if '0' ≤ c ∧ c ≤ '9' then some (c.toNat - 48)
  else if 'a' ≤ c ∧ c ≤ 'f' then some (c.toNat - 87)
  else if 'A' ≤ c ∧ c ≤ 'F' then some (c.toNat - 55)
  else none

/-- White space of C++. -/
def isLiteralSpace (c : Char) : Bool := c = ' ' || (9 ≤ c.toNat && c.toNat ≤ 12)

namespace LiteralReader

/-- A character inside a literal. -/
def inside (text : Text) (c : Char) : Option LiteralReader :=
  if c = '"' then some ⟨.between, text⟩
  else if c = '\\' then some ⟨.escape, text⟩
  else if c = '\n' then none
  else some ⟨.inside, text ++ [c]⟩

/-- The end of a numeric escape sequence; only those of ASCII characters are characters of a text.
-/
def number (text : Text) (value : ℕ) : Option Text :=
  if value < 128 then some (text ++ [Char.ofNat value]) else none

def step (r : LiteralReader) (c : Char) : Option LiteralReader :=
  match r.mode with
  | .inside => inside r.text c
  | .escape =>
    match simpleEscape c with
    | some d => some ⟨.inside, r.text ++ [d]⟩
    | none =>
      if c = 'x' then some ⟨.hex none, r.text⟩ else (octalValue c).map fun d => ⟨.octal 2 d, r.text⟩
  | .octal left value =>
    match left, octalValue c with
    | left + 1, some d => some ⟨.octal left (8 * value + d), r.text⟩
    | _, _ => (number r.text value).bind fun text => inside text c
  | .hex value =>
    match hexValue c with
    | some d => some ⟨.hex (some (16 * value.getD 0 + d)), r.text⟩
    | none => value.bind fun value => (number r.text value).bind fun text => inside text c
  | .between =>
    if c = '"' then some ⟨.inside, r.text⟩ else if isLiteralSpace c then some r else none

/-- The text at the end of the last literal. -/
def finish (r : LiteralReader) : Option Text :=
  match r.mode with
  | .inside => some r.text
  | .octal _ value => number r.text value
  | .hex value => value.bind (number r.text)
  | .escape => none
  | .between => none

end LiteralReader

/-- The text that a literal denotes; `s` is what stands between its first and its last quote. -/
def denoted (s : Text) : Option Text :=
  (s.foldlM LiteralReader.step ⟨.inside, []⟩).bind LiteralReader.finish

/-! ## What `to_string` writes -/

/-- A control character without a simple escape sequence. -/
def isBare (c : Char) : Bool := (0 < c.toNat && c.toNat < 7) || (13 < c.toNat && c.toNat < 32)

/-- What a character becomes. -/
def written (c : Char) : Text := if isBare c then octal c else [c]

namespace LiteralReader

variable {c : Char}

/-- An ordinary character of a literal. -/
lemma step_inside (hquote : c ≠ '"') (hbackslash : c ≠ '\\') (hnewline : c ≠ '\n') (text : Text) :
    step ⟨.inside, text⟩ c = some ⟨.inside, text ++ [c]⟩ := by
  show inside text c = _
  unfold inside
  rw [if_neg hquote, if_neg hbackslash, if_neg hnewline]

/-- Tabs between two literals. -/
lemma foldlM_between (n : ℕ) (text : Text) :
    (List.replicate n '\t').foldlM step ⟨.between, text⟩ = some ⟨.between, text⟩ := by
  induction n with
  | zero => rfl
  | succ n ih => exact ih

/-- A digit stands for itself. -/
lemma step_digit {d : ℕ} (hd : d < 8) (text : Text) :
    step ⟨.inside, text⟩ (Char.ofNat (d + 48)) = some ⟨.inside, text ++ [Char.ofNat (d + 48)]⟩ := by
  have hplain : ∀ d < 8, Char.ofNat (d + 48) ≠ '"' ∧ Char.ofNat (d + 48) ≠ '\\' ∧
      Char.ofNat (d + 48) ≠ '\n' := by
    decide
  obtain ⟨hquote, hbackslash, hnewline⟩ := hplain d hd
  exact step_inside hquote hbackslash hnewline text

lemma foldlM_octal (c : Char) (text : Text) :
    (octal c).foldlM step ⟨.inside, text⟩ = some ⟨.inside, text ++ octal c⟩ := by
  unfold octal
  simp only [List.map_cons, List.map_nil, List.foldlM_cons, List.foldlM_nil]
  rw [step_digit (Nat.mod_lt _ (by decide))]
  show (step _ _).bind _ = _
  rw [step_digit (Nat.mod_lt _ (by decide))]
  show (step _ _).bind _ = _
  rw [step_digit (Nat.mod_lt _ (by decide))]
  show some _ = some _
  simp only [List.append_assoc, List.cons_append, List.nil_append]

lemma eq_ofNat {n : ℕ} (h : c.toNat = n) : c = Char.ofNat n := by
  rw [← h, Char.ofNat_toNat]

/-- The reader behind a character that `to_string` has written. -/
lemma foldlM_charToString (n : ℕ) (c : Char) (text : Text) :
    (charToString n c).foldlM step ⟨.inside, text⟩ = some ⟨.inside, text ++ written c⟩ := by
  unfold charToString
  split_ifs with hnewline htab hv hb hr hf ha hbackslash hquote hcontrol
  · -- the literal is split over two lines
    subst hnewline
    rw [List.foldlM_append, List.foldlM_append]
    have hfirst : (str "\\n\"\n").foldlM step ⟨.inside, text⟩ = some ⟨.between, text ++ ['\n']⟩ :=
      rfl
    rw [hfirst]
    show ((List.replicate n '\t').foldlM step ⟨.between, text ++ ['\n']⟩).bind _ = _
    rw [foldlM_between]
    rfl
  · subst htab
    rfl
  · obtain rfl := eq_ofNat hv
    rfl
  · obtain rfl := eq_ofNat hb
    rfl
  · subst hr
    rfl
  · obtain rfl := eq_ofNat hf
    rfl
  · obtain rfl := eq_ofNat ha
    rfl
  · subst hbackslash
    rfl
  · subst hquote
    rfl
  · have hbare : isBare c = true := by
      have htab' : c.toNat ≠ 9 := fun h => htab (eq_ofNat h)
      have hnewline' : c.toNat ≠ 10 := fun h => hnewline (eq_ofNat h)
      have hr' : c.toNat ≠ 13 := fun h => hr (eq_ofNat h)
      unfold isBare
      simp only [Bool.or_eq_true, Bool.and_eq_true, decide_eq_true_eq]
      omega
    unfold written
    rw [if_pos hbare]
    exact foldlM_octal c text
  · have hbare : isBare c = false := by
      unfold isBare
      simp only [Bool.or_eq_false_iff, Bool.and_eq_false_iff, decide_eq_false_iff_not]
      omega
    unfold written
    rw [hbare, if_neg Bool.false_ne_true]
    show (step ⟨.inside, text⟩ c).bind _ = _
    rw [step_inside hquote hbackslash hnewline]
    rfl

/-- The reader behind a text that `to_string` has written. -/
lemma foldlM_toString (n : ℕ) (s text : Text) :
    (toString' n s).foldlM step ⟨.inside, text⟩ = some ⟨.inside, text ++ s.flatMap written⟩ := by
  induction s generalizing text with
  | nil =>
    show some _ = some _
    rw [List.flatMap_nil, List.append_nil]
  | cons c s ih =>
    show (charToString n c ++ toString' n s).foldlM step ⟨.inside, text⟩ = _
    rw [List.foldlM_append, foldlM_charToString]
    show (toString' n s).foldlM step ⟨.inside, text ++ written c⟩ = _
    rw [ih, List.flatMap_cons, List.append_assoc]

end LiteralReader

/-- The text that a literal made by `to_string` denotes. -/
lemma denoted_toString (n : ℕ) (s : Text) : denoted (toString' n s) = some (s.flatMap written) := by
  unfold denoted
  rw [LiteralReader.foldlM_toString]
  rfl

/-- A control character becomes three characters. -/
lemma length_written (c : Char) : (written c).length = if isBare c then 3 else 1 := by
  unfold written
  split_ifs
  · rfl
  · rfl

lemma length_flatMap_written (s : Text) :
    (s.flatMap written).length = s.length + 2 * s.countP isBare := by
  induction s with
  | nil => rfl
  | cons c s ih =>
    rw [List.flatMap_cons, List.length_append, ih, length_written, List.length_cons,
      List.countP_cons]
    split_ifs
    · omega
    · omega

/-- The literal denotes the text if and only if the text has no control character without a simple
escape sequence. -/
theorem denoted_toString_iff (n : ℕ) (s : Text) :
    denoted (toString' n s) = some s ↔ ∀ c ∈ s, isBare c = false := by
  rw [denoted_toString, Option.some.injEq]
  constructor
  · intro h c hc
    have hlen := congrArg List.length h
    rw [length_flatMap_written] at hlen
    have hnone : s.countP isBare = 0 := by omega
    exact Bool.eq_false_of_not_eq_true (List.countP_eq_zero.1 hnone c hc)
  · intro h
    induction s with
    | nil => rfl
    | cons c s ih =>
      have hc : written c = [c] := by
        unfold written
        rw [h c List.mem_cons_self, if_neg Bool.false_ne_true]
      rw [List.flatMap_cons, hc, ih fun d hd => h d (List.mem_cons_of_mem c hd)]
      rfl

set_option maxRecDepth 2048 in
/-- An escape character is read as three digits. -/
theorem denoted_toString_escape : ¬ ∀ s : Text, (∀ c ∈ s, c.toNat ≠ 0) →
    ∀ n, denoted (toString' n s) = some s := by
  intro h
  have hescape : (Char.ofNat 27).toNat ≠ 0 := by decide
  have hread := h [Char.ofNat 27] (fun c hc => List.mem_singleton.1 hc ▸ hescape) 0
  have hdigits : denoted (toString' 0 [Char.ofNat 27]) = some (str "033") := rfl
  rw [hdigits] at hread
  revert hread
  decide

end Template

end Cppcms
