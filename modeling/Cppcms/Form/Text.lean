import Cppcms.Encoding.Utf8
import Cppcms.Library.Machine

/-!
# Text widgets

`widgets::base_text` of `form.cpp`: the value, the number of its characters, and the flags that say
if there is a value and if it is valid.  Only `load` counts the characters, and a text that was
refused stays refused until the next `load`.
-/

namespace Cppcms

namespace Form

/-- The encoding of a locale, as `encoding::valid` tests it: if a text is valid, and how many
characters it counts. -/
structure Charset where
  valid : Bytes → Bool
  count : Bytes → ℕ
  valid_nil : valid [] = true
  count_nil : count [] = 0

/-- UTF-8. -/
def Charset.utf8 : Charset where
  valid := Utf8.validate true
  count s := ((Consume.consume (Utf8.next true) s).getD []).length
  valid_nil := rfl
  count_nil := rfl

/-- An `int` as a `size_t`. -/
def sizeT (n : ℤ) : ℕ := if 0 ≤ n then n.toNat else (2 ^ 64 + n).toNat

structure BaseText where
  value : Bytes
  low : ℤ
  high : ℤ
  validateCharset : Bool
  codePoints : ℕ
  set : Bool
  valid : Bool
  deriving DecidableEq

namespace BaseText

/-- The constructor, which leaves the number of characters as it is in the memory. -/
def init (codePoints : ℕ) : BaseText := ⟨[], 0, -1, true, codePoints, false, true⟩

def setValue (t : BaseText) (v : Bytes) : BaseText := { t with set := true, value := v }

def limits (t : BaseText) (min max : ℤ) : BaseText := { t with low := min, high := max }

/-- `load`; there is no text if the widget has no name, or the form no field of the name. -/
def load (c : Charset) (t : BaseText) (found : Option Bytes) : BaseText :=
  match found with
  | none => { t with value := [], codePoints := 0, set := true, valid := true }
  | some v =>
    if t.validateCharset then
      { t with value := v, codePoints := c.count v, set := true, valid := c.valid v }
    else { t with value := v, codePoints := v.length, set := true, valid := true }

def validate (t : BaseText) : Bool × BaseText :=
  if t.valid = false then (false, t)
  else if t.set = false ∧ t.low = 0 ∧ t.high = -1 then (true, { t with valid := true })
  else if t.codePoints < sizeT t.low ∨
    (0 ≤ t.high ∧ sizeT t.high < t.codePoints) then (false, { t with valid := false })
  else (true, t)

end BaseText

/-- What is done with a text widget. -/
inductive TextOp where
  | value (v : Bytes)
  | load (found : Option Bytes)
  | limits (min max : ℤ)
  | validateCharset (v : Bool)
  | validate

def BaseText.step (c : Charset) (t : BaseText) : TextOp → BaseText
  | .value v => t.setValue v
  | .load found => t.load c found
  | .limits min max => t.limits min max
  | .validateCharset v => { t with validateCharset := v }
  | .validate => t.validate.2

/-! ## What is asked of a text -/

/-- Where the value in force comes from; a text was loaded with its characters counted, or as
octets. -/
inductive Origin where
  | nothing
  | loaded (charset : Bool)
  | assigned
  deriving DecidableEq

/-- The value and the limits in force; `refused` says if the text was outside of its limits when it
was asked about since it was loaded. -/
structure Demand where
  value : Bytes
  origin : Origin
  low : ℤ
  high : ℤ
  validateCharset : Bool
  refused : Bool

namespace Demand

def init : Demand := ⟨[], .nothing, 0, -1, true, false⟩

/-- The number of characters; the length of raw data is that of its octets. -/
def characters (c : Charset) (d : Demand) : ℕ :=
  if d.origin = .loaded false then d.value.length else c.count d.value

/-- The number of characters is between the limits. -/
def Fits (c : Charset) (d : Demand) : Prop :=
  d.low ≤ d.characters c ∧ (d.high < 0 ∨ d.characters c ≤ d.high)

instance (c : Charset) (d : Demand) : Decidable (d.Fits c) :=
  inferInstanceAs (Decidable (d.low ≤ d.characters c ∧ (d.high < 0 ∨ d.characters c ≤ d.high)))

/-- The text is as it should be. -/
def Accepts (c : Charset) (d : Demand) : Prop :=
  d.Fits c ∧ (d.origin = .loaded true → c.valid d.value = true)

def step (c : Charset) (d : Demand) : TextOp → Demand
  | .value v => { d with value := v, origin := .assigned }
  | .load found =>
      { d with value := found.getD [], origin := .loaded d.validateCharset, refused := false }
  | .limits min max => { d with low := min, high := max }
  | .validateCharset v => { d with validateCharset := v }
  | .validate => { d with refused := d.refused || !decide (d.Fits c) }

/-- A text is asked about that was loaded, and that is outside of its limits if it was before; or
nothing was asked of a widget that has no text. -/
def Askable (c : Charset) (d : Demand) : Prop :=
  match d.origin with
  | .nothing => d.low = 0 ∧ d.high = -1
  | .loaded _ => d.refused = true → ¬ d.Fits c
  | .assigned => False

end Demand

/-- A widget, and what is asked of it. -/
def textStep (c : Charset) (s : BaseText × Demand) (op : TextOp) : BaseText × Demand :=
  (s.1.step c op, s.2.step c op)

/-- The lower limit is not negative. -/
def LimitsGiven (_ : BaseText × Demand) : TextOp → Prop
  | .limits min _ => 0 ≤ min
  | _ => True

/-- Besides, `validate` is only asked about what it knows. -/
def Asks (c : Charset) (s : BaseText × Demand) : TextOp → Prop
  | .validate => s.2.Askable c
  | op => LimitsGiven s op

/-- `validate` says if the text is as it should be. -/
def Answers (c : Charset) (s : BaseText × Demand) : TextOp → Prop
  | .validate => s.1.validate.1 = true ↔ s.2.Accepts c
  | _ => True

/-! ## Runs -/

section

variable {c : Charset} {t : BaseText} {d : Demand}

/-- What the fields of a widget say about the text in force. -/
structure Knows (c : Charset) (t : BaseText) (d : Demand) : Prop where
  low : t.low = d.low
  high : t.high = d.high
  validateCharset : t.validateCharset = d.validateCharset
  low_nonneg : 0 ≤ d.low
  nothing : d.origin = .nothing → t.set = false ∧ t.valid = true ∧ d.value = [] ∧ d.refused = false
  loaded : ∀ b, d.origin = .loaded b → t.set = true ∧ t.codePoints = d.characters c ∧
    (t.valid = true ↔ d.refused = false ∧ (b = true → c.valid d.value = true))

lemma knows_init (codePoints : ℕ) : Knows c (.init codePoints) .init where
  low := rfl
  high := rfl
  validateCharset := rfl
  low_nonneg := le_refl 0
  nothing _ := ⟨rfl, rfl, rfl, rfl⟩
  loaded _ h := by cases h

lemma sizeT_of_nonneg {n : ℤ} (hn : 0 ≤ n) : (sizeT n : ℤ) = n := by
  unfold sizeT
  rw [if_pos hn]
  exact Int.toNat_of_nonneg hn

/-- The comparison of `validate` is that with the limits. -/
lemma Knows.fits_iff (h : Knows c t d) (hcount : t.codePoints = d.characters c) :
    d.Fits c ↔ ¬ (t.codePoints < sizeT t.low ∨ (0 ≤ t.high ∧ sizeT t.high < t.codePoints)) := by
  have hlow := sizeT_of_nonneg (h.low.symm ▸ h.low_nonneg : 0 ≤ t.low)
  unfold Demand.Fits
  rw [← hcount, ← h.low, ← h.high]
  by_cases hhigh : 0 ≤ t.high
  · have hsize := sizeT_of_nonneg hhigh
    omega
  · omega

/-- What `validate` does to a text that it was loaded for. -/
lemma Knows.validate_loaded (h : Knows c t d) {b : Bool} (hb : d.origin = .loaded b) :
    (t.validate.1 = true ↔ t.valid = true ∧ d.Fits c) ∧
      (t.validate.2.valid = true ↔ t.valid = true ∧ d.Fits c) ∧
      t.validate.2 = { t with valid := t.validate.2.valid } := by
  rcases h.loaded b hb with ⟨hset, hcount, -⟩
  have hfits := h.fits_iff hcount
  unfold BaseText.validate
  by_cases hvalid : t.valid = false
  · have hno : ¬ t.valid = true := by
      rw [hvalid]
      exact Bool.false_ne_true
    rw [if_pos hvalid]
    exact ⟨iff_of_false Bool.false_ne_true fun h => hno h.1, iff_of_false hno fun h => hno h.1, rfl⟩
  · have htrue : t.valid = true := by simpa using hvalid
    have hunset : ¬ (t.set = false ∧ t.low = 0 ∧ t.high = -1) := by
      rintro ⟨hfalse, -⟩
      rw [hset] at hfalse
      cases hfalse
    rw [if_neg hvalid, if_neg hunset]
    by_cases hout : t.codePoints < sizeT t.low ∨ (0 ≤ t.high ∧ sizeT t.high < t.codePoints)
    · rw [if_pos hout]
      have hno : ¬ d.Fits c := fun hyes => hfits.1 hyes hout
      exact ⟨iff_of_false Bool.false_ne_true fun h =>
        hno h.2, iff_of_false Bool.false_ne_true fun h => hno h.2, rfl⟩
    · rw [if_neg hout]
      have hyes := hfits.2 hout
      exact ⟨iff_of_true rfl ⟨htrue, hyes⟩, iff_of_true htrue ⟨htrue, hyes⟩, rfl⟩

lemma Knows.validate_nothing (h : Knows c t d) (hnothing : d.origin = .nothing) (hlow : d.low = 0)
    (hhigh : d.high = -1) : t.validate = (true, t) := by
  rcases h.nothing hnothing with ⟨hset, hvalid, -⟩
  have hsame : { t with valid := true } = t := by
    rw [← hvalid]
  unfold BaseText.validate
  rw [if_neg (by rw [hvalid]; decide), if_pos ⟨hset, h.low.trans hlow, h.high.trans hhigh⟩, hsame]

/-- A widget without a text fits its limits, which are those of the constructor. -/
lemma Knows.fits_nothing (h : Knows c t d) (hnothing : d.origin = .nothing) (hlow : d.low = 0)
    (hhigh : d.high = -1) : d.Fits c := by
  have hzero : d.characters c = 0 := by
    unfold Demand.characters
    rw [hnothing, if_neg (by decide), (h.nothing hnothing).2.2.1, c.count_nil]
  unfold Demand.Fits
  rw [hzero, hlow, hhigh]
  decide

lemma Knows.answers (h : Knows c t d) {op : TextOp} (hop : Asks c (t, d) op) :
    Answers c (t, d) op := by
  cases op with
  | validate =>
    show t.validate.1 = true ↔ d.Fits c ∧ _
    unfold Asks Demand.Askable at hop
    dsimp only at hop
    rcases horigin : d.origin with _ | b | _
    · rw [horigin] at hop
      rw [h.validate_nothing horigin hop.1 hop.2]
      refine iff_of_true rfl ⟨h.fits_nothing horigin hop.1 hop.2, ?_⟩
      intro heq
      cases heq
    · rw [horigin] at hop
      rw [(h.validate_loaded horigin).1, (h.loaded b horigin).2.2]
      constructor
      · rintro ⟨⟨-, hvalid⟩, hfits⟩
        refine ⟨hfits, ?_⟩
        intro heq
        cases heq
        exact hvalid rfl
      · rintro ⟨hfits, hvalid⟩
        refine ⟨⟨?_, ?_⟩, hfits⟩
        · rcases hrefused : d.refused with _ | _
          · rfl
          · exact absurd hfits (hop hrefused)
        · rintro rfl
          exact hvalid rfl
    · rw [horigin] at hop
      exact hop.elim
  | _ => trivial

/-- Every operation keeps what the fields say. -/
lemma Knows.step (h : Knows c t d) {op : TextOp} (hop : Asks c (t, d) op) :
    Knows c (t.step c op) (d.step c op) := by
  cases op with
  | value v =>
    refine ⟨h.low, h.high, h.validateCharset, h.low_nonneg, ?_, ?_⟩
    · intro heq
      cases heq
    · intro b heq
      cases heq
  | load found =>
    have hloaded : ∀ {n : ℕ} {valid : Bool}, n = (d.step c (.load found)).characters c →
        (valid = true ↔ (d.validateCharset = true → c.valid (found.getD []) = true)) →
        Knows c { t with value := found.getD [], codePoints := n, set := true, valid := valid }
          (d.step c (.load found)) := by
      intro n valid hn hvalid
      refine ⟨h.low, h.high, h.validateCharset, h.low_nonneg, ?_, ?_⟩
      · intro heq
        cases heq
      · intro b heq
        cases heq
        refine ⟨rfl, hn, ?_⟩
        show valid = true ↔ false = false ∧ _
        rw [hvalid, eq_self_iff_true, true_and]
        rfl
    show Knows c (t.load c found) _
    unfold BaseText.load
    have hcharacters : (d.step c (.load found)).characters c =
        if d.validateCharset = true then c.count (found.getD []) else (found.getD []).length := by
      show (if Origin.loaded d.validateCharset = .loaded false then (found.getD []).length
        else _) = _
      rcases d.validateCharset with _ | _
      · rfl
      · rfl
    rcases found with _ | v
    · apply hloaded
      · rw [hcharacters]
        split_ifs
        · exact c.count_nil.symm
        · rfl
      · exact iff_of_true rfl fun _ => c.valid_nil
    · dsimp only
      by_cases hcharset : d.validateCharset = true
      · rw [if_pos (h.validateCharset.trans hcharset)]
        apply hloaded
        · rw [hcharacters, if_pos hcharset]
          rfl
        · exact ⟨fun hv _ => hv, fun hv => hv hcharset⟩
      · rw [if_neg fun heq => hcharset (h.validateCharset.symm.trans heq)]
        apply hloaded
        · rw [hcharacters, if_neg hcharset]
          rfl
        · exact iff_of_true rfl fun hv => absurd hv hcharset
  | limits min max =>
    refine ⟨rfl, rfl, h.validateCharset, hop, h.nothing, h.loaded⟩
  | validateCharset v => exact ⟨h.low, h.high, rfl, h.low_nonneg, h.nothing, h.loaded⟩
  | validate =>
    unfold Asks Demand.Askable at hop
    dsimp only at hop
    show Knows c t.validate.2 { d with refused := d.refused || !decide (d.Fits c) }
    rcases horigin : d.origin with _ | b | _
    · rw [horigin] at hop
      have hfits := h.fits_nothing horigin hop.1 hop.2
      rw [h.validate_nothing horigin hop.1 hop.2, decide_eq_true hfits, Bool.not_true,
        Bool.or_false, ← horigin]
      exact h
    · rcases h.loaded b horigin with ⟨hset, hcount, hvalid⟩
      rcases h.validate_loaded horigin with ⟨-, hafter, hrest⟩
      rw [hrest]
      refine ⟨h.low, h.high, h.validateCharset, h.low_nonneg, ?_, ?_⟩
      · intro heq
        cases heq
      · intro b' heq
        cases heq
        refine ⟨hset, hcount.trans (by rw [← horigin]; rfl), ?_⟩
        show t.validate.2.valid = true ↔
          (d.refused || !decide (d.Fits c)) = false ∧ (b = true → c.valid d.value = true)
        rw [hafter, hvalid, Bool.or_eq_false_iff, Bool.not_eq_false', decide_eq_true_iff]
        tauto
    · rw [horigin] at hop
      exact hop.elim

end

/-- In every run that only asks about loaded texts, and not about one that was refused and would fit
other limits, each `validate` says if the text in force is as it should be. -/
theorem answers_of_asks (c : Charset) (codePoints : ℕ) {ops : List TextOp}
    (hops : Machine.Obeys (textStep c) (Asks c) (.init codePoints, .init) ops) :
    Machine.Obeys (textStep c) (Answers c) (.init codePoints, .init) ops :=
  @Machine.Obeys.of_invariant _ _ _ (fun s => Knows c s.1 s.2) _ _ _ _ hops
    (fun _ _ h hop => h.step hop)
    (knows_init codePoints) fun _ _ h hop => h.answers hop

theorem answers_of_asks_text :
    Machine.Obeys (textStep .utf8) (Asks .utf8) (.init 7, .init)
        [.validate, .limits 1 5, .load (some (bytes "abc")), .validate,
          .load (some [0xFF]), .validate] ∧
      Machine.Obeys (textStep .utf8) (Answers .utf8) (.init 7, .init)
        [.validate, .limits 1 5, .load (some (bytes "abc")), .validate, .load (some [0xFF]),
          .validate] := by
  have hops : Machine.Obeys (textStep .utf8) (Asks .utf8) (.init 7, .init)
      [.validate, .limits 1 5, .load (some (bytes "abc")), .validate, .load (some [0xFF]),
        .validate] := by
    refine ⟨⟨rfl, rfl⟩, Int.one_nonneg, trivial, ?_, trivial, ?_, trivial⟩
    · intro h
      exact absurd h (by decide)
    · intro h
      exact absurd h (by decide)
  exact ⟨hops, answers_of_asks .utf8 7 hops⟩

/-- A text that is assigned is measured by the one that was loaded before. -/
theorem not_answers_value : ¬ ∀ (c : Charset) (codePoints : ℕ) (ops : List TextOp),
    Machine.Obeys (textStep c) LimitsGiven (.init codePoints, .init) ops →
      Machine.Obeys (textStep c) (Answers c) (.init codePoints, .init) ops := by
  intro h
  have hops : Machine.Obeys (textStep .utf8) LimitsGiven (.init 0, .init)
      [.limits 1 5, .load none, .value (bytes "abc"), .validate] :=
    ⟨Int.one_nonneg, trivial, trivial, trivial, trivial⟩
  have hanswer := (h .utf8 0 _ hops).2.2.2.1
  have hfits : Demand.Fits .utf8 ⟨bytes "abc", .assigned, 1, 5, true, false⟩ := by decide
  have haccepts : Demand.Accepts .utf8 ⟨bytes "abc", .assigned, 1, 5, true, false⟩ :=
    ⟨hfits, fun heq => by cases heq⟩
  exact absurd (hanswer.2 haccepts) (by decide)

end Form

end Cppcms
