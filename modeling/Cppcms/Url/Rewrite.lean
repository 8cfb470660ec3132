import Cppcms.Base.Bytes
import Cppcms.Library.Segments

/-!
# Rewriting of URLs

The rules of `url_rewriter`.  The constructor cuts the pattern of a rule at every `$`, into literal
texts and the numbers of the sub-matches that stand between them, and `rewrite_once` copies both
into a text that it has allocated before.

The regular expression of a rule is not part of the model: a match is the list of its sub-matches.
-/

namespace Cppcms

namespace Url

def dollar : UInt8 := 0x24

/-- `booster::cmatch`: the texts of the subexpressions, `none` for one that took no part. -/
abbrev Match := List (Option Bytes)

/-- The text of `m[n]`, empty for an index that is out of range. -/
def Match.sub (m : Match) (n : ℤ) : Bytes :=
  if n < 0 ∨ (m.length : ℤ) ≤ n then [] else (m.getD n.toNat none).getD []

/-- `cppcms_error`, with the pattern of the rule. -/
inductive RewriteError where
  | invalidPattern (pat : Bytes)
  deriving DecidableEq

def RewriteError.what : RewriteError → Bytes
  | invalidPattern pat => bytes "Invalid rewrite pattern :" ++ pat

/-! ## Rules -/

/-- `url_rewriter::rule`, without the expression and the flag `final`. -/
structure Rule where
  pattern : List Bytes
  index : List ℤ
  patternSize : ℕ
  deriving DecidableEq

/-- `pattern.back().append(s)`. -/
def appendBack (pattern : List Bytes) (s : Bytes) : List Bytes :=
  pattern.dropLast ++ [pattern.getLastD [] ++ s]

/-- What the loop does with `subpat`. -/
def addPiece (append : Bool) (pattern : List Bytes) (subpat : Bytes) : List Bytes :=
  if append then appendBack pattern subpat else pattern ++ [subpat]

/-- The loop of the constructor.  `rest` is the text from `pos` on. -/
def parsePattern (pat : Bytes) :
    ℕ → Bytes → Bool → List Bytes → List ℤ → Option (Except RewriteError (List Bytes × List ℤ))
  | 0, _, _, _, _ => none
  | fuel + 1, rest, append, pattern, index =>
    match rest.dropWhile (· ≠ dollar) with
    | [] => some (.ok (addPiece append pattern (rest.takeWhile (· ≠ dollar)), index))
    | [_] => some (.error (.invalidPattern pat))
    | _ :: c :: rest' =>
      -- no character is both before '0' and behind '9'
      if c ≠ dollar ∧ c.toInt8 < 0x30 ∧ 0x39 < c.toInt8 then some (.error (.invalidPattern pat))
      else if c = dollar then
        parsePattern pat fuel rest' true
          (appendBack (addPiece append pattern (rest.takeWhile (· ≠ dollar))) [dollar]) index
      else
        parsePattern pat fuel rest' false (addPiece append pattern (rest.takeWhile (· ≠ dollar)))
          (index ++ [c.toInt8.toInt - 0x30])

/-- The constructor of `url_rewriter::rule`.  Each round consumes a `$`. -/
def Rule.make (pat : Bytes) : Option (Except RewriteError Rule) :=
  (parsePattern pat (pat.length + 1) pat false [] []).map
    (·.map fun r => ⟨r.1, r.2, (r.1.map List.length).sum⟩)

/-- The loop of `rewrite_once` that copies `pattern[i]` and `m[index[i]]`. -/
def copyPieces (m : Match) : List Bytes → List ℤ → Option Bytes
  | _, [] => some []
  | [], _ :: _ => none
  | p :: pattern, n :: index => (copyPieces m pattern index).map (p ++ m.sub n ++ ·)

/-- A text that was written into an allocated space, with the zero at its end. -/
structure Written where
  space : ℕ
  text : Bytes
  deriving DecidableEq

/-- `rule::rewrite_once`, `none` where it reads a literal text that does not exist. -/
def Rule.rewriteOnce (r : Rule) (m : Match) : Option Written := do
  let copied ← copyPieces m r.pattern r.index
  let back ← r.pattern.getLast?
  return ⟨r.patternSize + (r.index.map fun n => (m.sub n).length).sum + 1, copied ++ back ++ [0]⟩

/-! ## The meaning of a pattern -/

/-- What stands behind each `$` of a pattern, read from the left; a character that stands there is
not read again. -/
def escapes : Bytes → List (Option UInt8)
  | [] => []
  | c :: s =>
    if c = dollar then
      match s with
      | [] => [none]
      | d :: s' => some d :: escapes s'
    else escapes s

/-- The pattern with `$$` replaced by `$`, and `$d` by the sub-match `d`. -/
def expand (m : Match) : Bytes → Bytes
  | [] => []
  | c :: s =>
    if c = dollar then
      match s with
      | [] => [dollar]
      | d :: s' => (if d = dollar then [dollar] else m.sub (d.toNat - 0x30 : ℕ)) ++ expand m s'
    else c :: expand m s

def isIndex (c : UInt8) : Prop := 0x30 ≤ c ∧ c ≤ 0x39

instance : DecidablePred isIndex := fun c => inferInstanceAs (Decidable (0x30 ≤ c ∧ c ≤ 0x39))

/-- A `$` is at the end. -/
def Dangling (pat : Bytes) : Prop := none ∈ escapes pat

/-- A `$` is followed by a character that is neither `$` nor a digit. -/
def Misread (pat : Bytes) : Prop := ∃ c, some c ∈ escapes pat ∧ c ≠ dollar ∧ ¬isIndex c

variable {c : UInt8} {u : Bytes} {index : List ℤ} {pattern : List Bytes}

lemma escapes_cons (hc : c ≠ dollar) (s : Bytes) : escapes (c :: s) = escapes s := by
  cases s <;> simp [escapes, hc]

lemma escapes_dollar (d : UInt8) (s : Bytes) :
    escapes (dollar :: d :: s) = some d :: escapes s := by
  simp [escapes]

lemma expand_cons (m : Match) (hc : c ≠ dollar) (s : Bytes) :
    expand m (c :: s) = c :: expand m s := by
  cases s <;> simp [expand, hc]

lemma expand_dollar (m : Match) (d : UInt8) (s : Bytes) : expand m (dollar :: d :: s) =
    (if d = dollar then [dollar] else m.sub (d.toNat - 0x30 : ℕ)) ++ expand m s := by
  simp [expand]

lemma escapes_append (hu : dollar ∉ u) (s : Bytes) : escapes (u ++ s) = escapes s := by
  induction u with
  | nil => rfl
  | cons c u ih =>
    rw [List.mem_cons, not_or] at hu
    rw [List.cons_append, escapes_cons (Ne.symm hu.1), ih hu.2]

lemma expand_append (m : Match) (hu : dollar ∉ u) (s : Bytes) :
    expand m (u ++ s) = u ++ expand m s := by
  induction u with
  | nil => rfl
  | cons c u ih =>
    rw [List.mem_cons, not_or] at hu
    rw [List.cons_append, expand_cons m (Ne.symm hu.1), ih hu.2, List.cons_append]

lemma eq_dollar_of_dropWhile {s t : Bytes} (hdrop : s.dropWhile (· ≠ dollar) = c :: t) :
    c = dollar := by
  have hhead := List.head?_dropWhile_not (· ≠ dollar) s
  rw [hdrop] at hhead
  simpa using hhead

/-- The text up to the next `$` has no escapes. -/
lemma escapes_dropWhile (s : Bytes) : escapes s = escapes (s.dropWhile (· ≠ dollar)) := by
  conv_lhs => rw [← List.takeWhile_append_dropWhile (p := (· ≠ dollar)) (l := s)]
  exact escapes_append (notMem_takeWhile s) _

lemma expand_dropWhile (m : Match) (s : Bytes) :
    expand m s = s.takeWhile (· ≠ dollar) ++ expand m (s.dropWhile (· ≠ dollar)) := by
  conv_lhs => rw [← List.takeWhile_append_dropWhile (p := (· ≠ dollar)) (l := s)]
  exact expand_append m (notMem_takeWhile s) _

/-! ## The pieces of a rule -/

/-- The literal texts with the sub-matches between them. -/
def weave (m : Match) : List Bytes → List ℤ → Bytes
  | [], _ => []
  | p :: pattern, [] => p ++ weave m pattern []
  | p :: pattern, n :: index => p ++ m.sub n ++ weave m pattern index

/-- A literal text behind the last sub-match. -/
lemma weave_push_pattern (m : Match) (hlen : pattern.length = index.length) (p : Bytes) :
    weave m (pattern ++ [p]) index = weave m pattern index ++ p := by
  induction pattern generalizing index with
  | nil =>
    obtain rfl : index = [] := List.eq_nil_of_length_eq_zero hlen.symm
    simp [weave]
  | cons q pattern ih =>
    cases index with
    | nil => cases hlen
    | cons n index =>
      have hlen' : pattern.length = index.length := by simpa using hlen
      rw [List.cons_append, weave, weave, ih hlen']
      simp only [List.append_assoc]

/-- A sub-match behind the last literal text. -/
lemma weave_push_index (m : Match) (hlen : pattern.length = index.length) (p : Bytes) (n : ℤ) :
    weave m (pattern ++ [p]) (index ++ [n]) = weave m pattern index ++ p ++ m.sub n := by
  induction pattern generalizing index with
  | nil =>
    obtain rfl : index = [] := List.eq_nil_of_length_eq_zero hlen.symm
    simp [weave]
  | cons q pattern ih =>
    cases index with
    | nil => cases hlen
    | cons k index =>
      have hlen' : pattern.length = index.length := by simpa using hlen
      rw [List.cons_append, List.cons_append, weave, weave, ih hlen']
      simp only [List.append_assoc]

lemma appendBack_concat (pattern : List Bytes) (p s : Bytes) :
    appendBack (pattern ++ [p]) s = pattern ++ [p ++ s] := by
  simp [appendBack]

/-- What is known at the head of the loop: an escaped `$` waits for the text behind it. -/
def Fits (append : Bool) (pattern : List Bytes) (index : List ℤ) : Prop :=
  pattern.length = index.length + if append then 1 else 0

/-- The next literal text. -/
lemma addPiece_spec {append : Bool} (hfits : Fits append pattern index) (s : Bytes) :
    ∃ init p, addPiece append pattern s = init ++ [p] ∧ init.length = index.length ∧
      ∀ m, weave m init index ++ p = weave m pattern index ++ s := by
  unfold Fits at hfits
  cases append with
  | false => exact ⟨pattern, s, rfl, by simpa using hfits, fun m => rfl⟩
  | true =>
    rcases List.eq_nil_or_concat pattern with rfl | ⟨init, p, rfl⟩
    · simp at hfits
    · have hlen : init.length = index.length := by simpa using hfits
      refine ⟨init, p ++ s, ?_, hlen, fun m => ?_⟩
      · rw [addPiece, if_pos rfl, List.concat_eq_append, appendBack_concat]
      · rw [List.concat_eq_append, weave_push_pattern m hlen, List.append_assoc]

/-! ## The constructor -/

lemma toInt8_eq_of_isIndex (hc : isIndex c) : c.toInt8.toInt - 0x30 = (c.toNat - 0x30 : ℕ) := by
  obtain ⟨hlow, hhigh⟩ := hc
  have hle : c.toNat ≤ 0x39 := UInt8.le_iff_toNat_le.1 hhigh
  have hge : 0x30 ≤ c.toNat := UInt8.le_iff_toNat_le.1 hlow
  have hint : c.toInt8.toInt = c.toNat := by
    change c.toBitVec.toInt = c.toBitVec.toNat
    exact BitVec.toInt_eq_toNat_of_lt (by have : c.toBitVec.toNat = c.toNat := rfl; omega)
  rw [hint]
  omega

/-- The test of the constructor rejects no character. -/
lemma not_rejected (c : UInt8) : ¬(c ≠ dollar ∧ c.toInt8 < 0x30 ∧ 0x39 < c.toInt8) := by
  rintro ⟨-, hlow, hhigh⟩
  have hlow' := Int8.lt_iff_toInt_lt.1 hlow
  have hhigh' := Int8.lt_iff_toInt_lt.1 hhigh
  have h30 : (0x30 : Int8).toInt = 0x30 := rfl
  have h39 : (0x39 : Int8).toInt = 0x39 := rfl
  omega

lemma misread_cons {d : UInt8} {s rest : Bytes} (hrest : escapes rest = some d :: escapes s) :
    ¬Misread rest ↔ (d = dollar ∨ isIndex d) ∧ ¬Misread s := by
  unfold Misread
  rw [hrest]
  constructor
  · intro hnot
    refine ⟨?_, fun ⟨c, hmem, hc⟩ => hnot ⟨c, List.mem_cons_of_mem _ hmem, hc⟩⟩
    by_contra hd
    rw [not_or] at hd
    exact hnot ⟨d, List.mem_cons_self, hd⟩
  · rintro ⟨hd, hnot⟩ ⟨c, hmem, hc⟩
    rcases List.mem_cons.1 hmem with heq | hmem
    · cases heq
      exact hd.elim hc.1 hc.2
    · exact hnot ⟨c, hmem, hc⟩

/-- The loop ends with an exception for a `$` at the end, and otherwise with the pieces of the
pattern. -/
lemma parsePattern_spec (pat : Bytes) (fuel : ℕ) (rest : Bytes) (append : Bool)
    (pattern : List Bytes) (index : List ℤ) (hfuel : rest.length < fuel)
    (hfits : Fits append pattern index) :
    (Dangling rest ∧ parsePattern pat fuel rest append pattern index =
      some (.error (.invalidPattern pat))) ∨
    (¬Dangling rest ∧ ∃ pattern' p index',
      parsePattern pat fuel rest append pattern index = some (.ok (pattern' ++ [p], index')) ∧
      pattern'.length = index'.length ∧
      (¬Misread rest →
        ∀ m, weave m pattern' index' ++ p = weave m pattern index ++ expand m rest)) := by
  induction fuel generalizing rest append pattern index with
  | zero => omega
  | succ fuel ih =>
    obtain ⟨init, p, hpiece, hlen, hweave⟩ := addPiece_spec hfits (rest.takeWhile (· ≠ dollar))
    have hescapes := escapes_dropWhile rest
    have hexpand := fun m => expand_dropWhile m rest
    have hdrop := List.length_dropWhile_le (· ≠ dollar) rest
    rcases heq : rest.dropWhile (· ≠ dollar) with - | ⟨c, - | ⟨d, s⟩⟩
    · rw [heq] at hescapes hexpand
      refine .inr ⟨?_, init, p, index, ?_, hlen, fun _ m => ?_⟩
      · rw [Dangling, hescapes]
        exact List.not_mem_nil
      · rw [parsePattern, heq, ← hpiece]
      · rw [hweave, hexpand, expand, List.append_nil]
    · rw [heq] at hescapes
      refine .inl ⟨?_, by rw [parsePattern, heq]⟩
      rw [Dangling, hescapes, eq_dollar_of_dropWhile heq]
      exact List.mem_singleton_self _
    · obtain rfl := eq_dollar_of_dropWhile heq
      rw [heq, escapes_dollar] at hescapes
      have hfuel' : s.length < fuel := by
        rw [heq, List.length_cons, List.length_cons] at hdrop
        omega
      have hdangling : Dangling rest ↔ Dangling s := by
        rw [Dangling, hescapes, List.mem_cons]
        simp [Dangling]
      -- the state behind the escape, with what the loop has read so far
      obtain ⟨append', pattern', index', hstep, hfits', hweave'⟩ : ∃ append' pattern' index',
          parsePattern pat (fuel + 1) rest append pattern index =
            parsePattern pat fuel s append' pattern' index' ∧
          Fits append' pattern' index' ∧ (¬Misread rest → ∀ m,
            weave m pattern' index' ++ expand m s = weave m pattern index ++ expand m rest) := by
        rw [parsePattern, heq]
        dsimp only
        rw [if_neg (not_rejected d), hpiece]
        by_cases hd : d = dollar
        · refine ⟨true, init ++ [p ++ [dollar]], index, ?_, ?_, fun _ m => ?_⟩
          · rw [if_pos hd, appendBack_concat]
          · simp [Fits, hlen]
          · rw [weave_push_pattern m hlen, ← List.append_assoc, hweave, hexpand, heq,
              expand_dollar, if_pos hd]
            simp only [List.append_assoc]
        · refine ⟨false, init ++ [p], index ++ [d.toInt8.toInt - 0x30], ?_, ?_, fun hgood m => ?_⟩
          · rw [if_neg hd]
          · simp [Fits, hlen]
          · have hindex : isIndex d := ((misread_cons hescapes).1 hgood).1.resolve_left hd
            rw [weave_push_index m hlen, hweave, hexpand, heq, expand_dollar, if_neg hd,
              toInt8_eq_of_isIndex hindex]
            simp only [List.append_assoc]
      rw [hstep]
      rcases ih s append' pattern' index' hfuel' hfits' with ⟨hbad, herror⟩ |
        ⟨hgood, init', q, index'', hok, hfit, hpieces⟩
      · exact .inl ⟨hdangling.2 hbad, herror⟩
      · refine .inr ⟨fun h => hgood (hdangling.1 h), init', q, index'', hok, hfit,
          fun hread m => ?_⟩
        rw [hpieces ((misread_cons hescapes).1 hread).2 m, hweave' hread m]

/-! ## Rewriting -/

lemma copyPieces_eq (m : Match) (hlen : pattern.length = index.length) (p : Bytes) :
    copyPieces m (pattern ++ [p]) index = some (weave m pattern index) := by
  induction pattern generalizing index with
  | nil =>
    obtain rfl : index = [] := List.eq_nil_of_length_eq_zero hlen.symm
    rfl
  | cons q pattern ih =>
    cases index with
    | nil => cases hlen
    | cons n index =>
      have hlen' : pattern.length = index.length := by simpa using hlen
      rw [List.cons_append, copyPieces, ih hlen', Option.map_some, weave]

/-- The sizes that the constructor and `rewrite_once` add up are the length of the copied text. -/
lemma length_weave (m : Match) (hlen : pattern.length = index.length) :
    (weave m pattern index).length =
      (pattern.map List.length).sum + (index.map fun n => (m.sub n).length).sum := by
  induction pattern generalizing index with
  | nil =>
    obtain rfl : index = [] := List.eq_nil_of_length_eq_zero hlen.symm
    rfl
  | cons q pattern ih =>
    cases index with
    | nil => cases hlen
    | cons n index =>
      have hlen' : pattern.length = index.length := by simpa using hlen
      simp only [weave, List.length_append, ih hlen', List.map_cons, List.sum_cons]
      omega

/-- The copying loop fills the space, with a zero in its last place. -/
lemma rewriteOnce_eq (m : Match) (hlen : pattern.length = index.length) (p : Bytes) :
    Rule.rewriteOnce ⟨pattern ++ [p], index, ((pattern ++ [p]).map List.length).sum⟩ m =
      some ⟨(weave m pattern index ++ p).length + 1, weave m pattern index ++ p ++ [0]⟩ := by
  have hsize : ((pattern ++ [p]).map List.length).sum + (index.map fun n => (m.sub n).length).sum =
      (weave m pattern index ++ p).length := by
    rw [List.length_append, length_weave m hlen]
    simp only [List.map_append, List.map_cons, List.map_nil, List.sum_append,
      List.sum_cons, List.sum_nil]
    omega
  simp only [Rule.rewriteOnce, copyPieces_eq m hlen, List.getLast?_concat, hsize]
  rfl

/-- The constructor rejects a pattern exactly when a `$` is at its end. -/
lemma make_spec (pat : Bytes) :
    (Dangling pat ∧ Rule.make pat = some (.error (.invalidPattern pat))) ∨
    (¬Dangling pat ∧ ∃ r, Rule.make pat = some (.ok r) ∧
      (¬Misread pat →
        ∀ m, r.rewriteOnce m = some ⟨(expand m pat).length + 1, expand m pat ++ [0]⟩)) := by
  rcases parsePattern_spec pat (pat.length + 1) pat false [] [] (Nat.lt_succ_self _) rfl with
    ⟨hbad, herror⟩ | ⟨hgood, pattern, p, index, hok, hlen, hpieces⟩
  · refine .inl ⟨hbad, ?_⟩
    rw [Rule.make, herror]
    rfl
  · refine .inr ⟨hgood, ⟨pattern ++ [p], index, ((pattern ++ [p]).map List.length).sum⟩, ?_,
      fun hread m => ?_⟩
    · rw [Rule.make, hok]
      rfl
    · have hweave : weave m pattern index ++ p = expand m pat := hpieces hread m
      rw [rewriteOnce_eq m hlen, hweave]

/-- The purpose of a rule: an exception for the patterns with a `$` that means nothing, and for all
others the expanded pattern, in exactly the space that was allocated. -/
def Rewrites (pat : Bytes) : Prop :=
  (Rule.make pat = some (.error (.invalidPattern pat)) ↔ Dangling pat ∨ Misread pat) ∧
  (¬(Dangling pat ∨ Misread pat) → ∃ r, Rule.make pat = some (.ok r) ∧
    ∀ m, r.rewriteOnce m = some ⟨(expand m pat).length + 1, expand m pat ++ [0]⟩)

/-- A `$` before a wrong character is noticed only when the pattern also ends with a `$`. -/
theorem rewrites_iff (pat : Bytes) : Rewrites pat ↔ (Misread pat → Dangling pat) := by
  rcases make_spec pat with ⟨hbad, herror⟩ | ⟨hgood, r, hok, hwrites⟩
  · exact iff_of_true ⟨iff_of_true herror (.inl hbad), fun hnot => absurd (.inl hbad) hnot⟩ fun _ =>
      hbad
  · constructor
    · intro hrewrites hread
      have herror := hrewrites.1.2 (.inr hread)
      rw [hok] at herror
      cases herror
    · intro hcond
      have hread : ¬Misread pat := fun hread => hgood (hcond hread)
      have hnone : ¬(Dangling pat ∨ Misread pat) := not_or.2 ⟨hgood, hread⟩
      refine ⟨iff_of_false ?_ hnone, fun _ => ⟨r, hok, hwrites hread⟩⟩
      rw [hok]
      rintro ⟨⟩

/-- The letter in `/a$x` is taken for a number. -/
theorem not_rewrites_letter : ¬Rewrites (bytes "/a$x") := by
  intro hrewrites
  have hread : Misread (bytes "/a$x") := ⟨0x78, by decide, by decide, by decide⟩
  have hok : Rule.make (bytes "/a$x") = some (.ok ⟨[bytes "/a", []], [0x48], 2⟩) := by decide
  have herror := hrewrites.1.2 (.inr hread)
  rw [hok] at herror
  cases herror

example : (Rule.make (bytes "$$$0-$1")).map (·.map (·.rewriteOnce [some (bytes "a"), none])) =
    some (.ok (some ⟨4, bytes "$a-" ++ [0]⟩)) := by decide

end Url

end Cppcms
