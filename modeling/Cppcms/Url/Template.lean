import Cppcms.Url.Mapper

/-!
# Templates

A template is text with placeholders, which are numbers of parameters or names.  `real_assign`
accepts the sources of templates only, and stores what `write` needs to replace the placeholders.
This fails for numbers that are too large for an `int`.
-/

namespace Cppcms

namespace Url

/-- A placeholder, with what stands between the braces. -/
inductive Hole where
  | parameter (digits : Bytes)
  | named (key : Bytes)

namespace Hole

def text : Hole → Bytes
  | parameter digits => digits
  | named key => key

/-- The number of the parameter. -/
def number : Hole → ℕ
  | parameter digits => leadingNumber digits
  | named _ => 0

/-- Numbers start from one, and what is not all digits is a name. -/
def Valid : Hole → Prop
  | parameter digits => digits ≠ [] ∧ digits.all isDigit = true ∧ leadingNumber digits ≠ 0
  | named key => key ≠ [] ∧ key.all isDigit = false ∧ closeBrace ∉ key

/-- The number as `real_assign` reads it. -/
def index : Hole → ℤ
  | parameter digits => atoi digits
  | named _ => 0

/-- The number is not read as zero. -/
def Indexed : Hole → Prop
  | parameter digits => atoi digits ≠ 0
  | named _ => True

/-- The name, or nothing for a number. -/
def key : Hole → Bytes
  | parameter _ => []
  | named key => key

/-- What a placeholder is replaced by: the parameter with its number, or the value of its name. -/
def value (params : List Bytes) (values : Bytes → Option Bytes) : Hole → Bytes
  | parameter digits => params[leadingNumber digits - 1]?.getD []
  | named key => (values key).getD []

end Hole

/-- Text, and placeholders with the text behind them. -/
structure Template where
  first : Bytes
  rest : List (Hole × Bytes)

/-- Text without braces. -/
def Plain (s : Bytes) : Prop := openBrace ∉ s ∧ closeBrace ∉ s

/-- The source of placeholders and of the text behind them. -/
def source (rest : List (Hole × Bytes)) : Bytes :=
  rest.flatMap fun x => openBrace :: x.1.text ++ closeBrace :: x.2

/-- The number of parameters of placeholders. -/
def count (rest : List (Hole × Bytes)) : ℕ := rest.foldr (fun x n => max x.1.number n) 0

/-- The largest number of placeholders as `real_assign` reads it. -/
def largest (rest : List (Hole × Bytes)) : ℤ := rest.foldr (fun x n => max x.1.index n) 0

namespace Template

/-- The template as it is written. -/
def source (t : Template) : Bytes := t.first ++ Url.source t.rest

/-- The number of its parameters: the largest number of a placeholder. -/
def count (t : Template) : ℕ := Url.count t.rest

def Valid (t : Template) : Prop := Plain t.first ∧ ∀ x ∈ t.rest, x.1.Valid ∧ Plain x.2

/-- The numbers are numbers that an `int` holds. -/
def Fits (t : Template) : Prop := ∀ x ∈ t.rest, x.1.number < 2 ^ 31

/-- The template as it is stored, perhaps for an application that is mounted. -/
def entry (t : Template) (child : Option App) : Entry :=
  ⟨t.first :: t.rest.map Prod.snd, t.rest.map fun x =>
    x.1.number, t.rest.map fun x => x.1.key, child⟩

/-- The URL: the template with its placeholders replaced. -/
def expand (t : Template) (params : List Bytes) (values : Bytes → Option Bytes) : Bytes :=
  t.first ++ t.rest.flatMap fun x => x.1.value params values ++ x.2

end Template

/-! ## Reading templates -/

section Digits

variable {digits : Bytes} (hne : digits ≠ []) (hdigits : digits.all isDigit = true)
include hne hdigits

lemma atoll_eq_leadingNumber : atoll digits = min (2 ^ 63 - 1) (leadingNumber digits : ℤ) := by
  rcases digits with _ | ⟨c, s⟩
  · exact absurd rfl hne
  · have hc : (0x30 ≤ c && c ≤ 0x39) = true := List.all_eq_true.1 hdigits c List.mem_cons_self
    exact atoll_cons hc s

lemma atoi_eq_leadingNumber (hfits : leadingNumber digits < 2 ^ 31) :
    atoi digits = leadingNumber digits := by
  unfold atoi
  rw [atoll_eq_leadingNumber hne hdigits, min_eq_right (by omega)]
  exact Int.bmod_eq_of_le (by omega) (by omega)

/-- A number that is read as something else than zero is not zero. -/
lemma leadingNumber_ne_zero (hzero : atoi digits ≠ 0) : leadingNumber digits ≠ 0 := by
  intro hnumber
  apply hzero
  unfold atoi
  rw [atoll_eq_leadingNumber hne hdigits, hnumber]
  rfl

end Digits

variable {h : Hole} {n : ℤ} {rest : List (Hole × Bytes)} {t : Template} {r : Entry × ℤ}

lemma Hole.Valid.closeBrace_not_mem (hvalid : h.Valid) : closeBrace ∉ h.text := by
  rcases h with digits | key
  · intro hmem
    exact absurd (List.all_eq_true.1 hvalid.2.1 _ hmem) (by decide)
  · exact hvalid.2.2

lemma addKey_of_indexed (hvalid : h.Valid) (hindexed : h.Indexed) (e : Entry) (hn : 0 ≤ n) :
    addKey e n h.text =
      .ok ({ e with indexes := e.indexes ++ [h.index], keys := e.keys ++ [h.key] },
        max h.index n) := by
  rcases h with digits | key
  · rcases hvalid with ⟨hne, hdigits, -⟩
    unfold addKey Hole.text
    dsimp only
    rw [if_neg hne, if_pos hdigits, if_neg hindexed]
    rfl
  · rcases hvalid with ⟨hne, hdigits, -⟩
    unfold addKey Hole.text
    dsimp only
    rw [if_neg hne, hdigits, if_neg Bool.false_ne_true]
    have hmax : max (Hole.named key).index n = n := max_eq_right hn
    rw [hmax]
    rfl

lemma scan_plain {s : Bytes} (hs : Plain s) (e : Entry) (n : ℤ) (text url : Bytes) :
    scan false e n text (s ++ url) = scan false e n (text ++ s) url := by
  induction s generalizing text with
  | nil => rw [List.append_nil, List.nil_append]
  | cons c s ih =>
    have hopen : c ≠ openBrace := fun heq => hs.1 (heq ▸ List.mem_cons_self)
    have hclose : c ≠ closeBrace := fun heq => hs.2 (heq ▸ List.mem_cons_self)
    have hplain : Plain s := ⟨fun hmem => hs.1 (List.mem_cons_of_mem c hmem), fun hmem =>
      hs.2 (List.mem_cons_of_mem c hmem)⟩
    rw [List.cons_append, scan, if_neg Bool.false_ne_true, if_neg hopen, if_neg hclose, ih hplain,
      List.append_assoc]
    rfl

lemma scan_key {k : Bytes} (hk : closeBrace ∉ k) (e : Entry) (n : ℤ) (text url : Bytes) :
    scan true e n text (k ++ url) = scan true e n (text ++ k) url := by
  induction k generalizing text with
  | nil => rw [List.append_nil, List.nil_append]
  | cons c k ih =>
    have hclose : c ≠ closeBrace := fun heq => hk (heq ▸ List.mem_cons_self)
    have hrest : closeBrace ∉ k := fun hmem => hk (List.mem_cons_of_mem c hmem)
    rw [List.cons_append, scan, if_pos rfl, if_neg hclose, ih hrest, List.append_assoc]
    rfl

lemma scan_rest (hvalid : ∀ x ∈ rest, x.1.Valid ∧ Plain x.2) (hindexed : ∀ x ∈ rest, x.1.Indexed)
    (e : Entry) (hn : 0 ≤ n) (text : Bytes) :
    scan false e n text (source rest) =
      .ok (⟨e.parts ++ text :: rest.map Prod.snd, e.indexes ++ rest.map fun x => x.1.index,
        e.keys ++ rest.map fun x => x.1.key, e.child⟩, max n (largest rest)) := by
  induction rest generalizing e n text with
  | nil =>
    have hmax : max n (largest []) = n := max_eq_left hn
    rw [hmax]
    simp [source, scan]
  | cons x rest ih =>
    have hx := hvalid x List.mem_cons_self
    have hstep : source (x :: rest) = openBrace ::
        (x.1.text ++ closeBrace :: (x.2 ++ source rest)) := by
      simp [source]
    rw [hstep, scan, if_neg Bool.false_ne_true, if_pos rfl, scan_key hx.1.closeBrace_not_mem,
      List.nil_append, scan, if_pos rfl, if_pos rfl,
      addKey_of_indexed hx.1 (hindexed x List.mem_cons_self) _ hn]
    dsimp only
    rw [scan_plain hx.2, List.nil_append, ih (fun y hy => hvalid y (List.mem_cons_of_mem x hy))
      (fun y hy => hindexed y (List.mem_cons_of_mem x hy)) _ (le_max_of_le_right hn)]
    have hmax : max (max x.1.index n) (largest rest) = max n (largest (x :: rest)) := by
      show _ = max n (max x.1.index (largest rest))
      rw [max_comm x.1.index n, max_assoc]
    rw [hmax]
    simp

/-- What is read from the source of a template. -/
lemma Template.scan_source_of_indexed (hvalid : t.Valid) (hindexed : ∀ x ∈ t.rest, x.1.Indexed) :
    scan false ⟨[], [], [], none⟩ 0 [] t.source =
      .ok (⟨t.first :: t.rest.map Prod.snd, t.rest.map fun x =>
        x.1.index, t.rest.map fun x => x.1.key, none⟩, max 0 (largest t.rest)) := by
  unfold source
  rw [scan_plain hvalid.1, List.nil_append]
  exact scan_rest hvalid.2 hindexed ⟨[], [], [], none⟩ le_rfl t.first

lemma Hole.Valid.index_eq (hvalid : h.Valid) (hfits : h.number < 2 ^ 31) : h.index = h.number := by
  rcases h with digits | key
  · exact atoi_eq_leadingNumber hvalid.1 hvalid.2.1 hfits
  · rfl

lemma Hole.Valid.indexed (hvalid : h.Valid) (hfits : h.number < 2 ^ 31) : h.Indexed := by
  rcases h with digits | key
  · intro hzero
    rw [atoi_eq_leadingNumber hvalid.1 hvalid.2.1 hfits] at hzero
    exact hvalid.2.2 (Int.natCast_eq_zero.1 hzero)
  · trivial

lemma largest_eq_count (hindex : ∀ x ∈ rest, x.1.index = x.1.number) :
    largest rest = count rest := by
  induction rest with
  | nil => rfl
  | cons x rest ih =>
    show max x.1.index (largest rest) = ((max x.1.number (count rest) : ℕ) : ℤ)
    rw [hindex x List.mem_cons_self, ih fun y hy =>
      hindex y (List.mem_cons_of_mem x hy), Nat.cast_max]

/-- A template is read from its source. -/
lemma Template.scan_source (hvalid : t.Valid) (hfits : t.Fits) :
    scan false ⟨[], [], [], none⟩ 0 [] t.source = .ok (t.entry none, (t.count : ℤ)) := by
  have hindex : ∀ x ∈ t.rest, x.1.index = x.1.number := fun x hx =>
    (hvalid.2 x hx).1.index_eq (hfits x hx)
  have hindexes : (t.rest.map fun x => x.1.index) = t.rest.map fun x => (x.1.number : ℤ) :=
    List.map_congr_left hindex
  rw [scan_source_of_indexed hvalid fun x hx => (hvalid.2 x hx).1.indexed (hfits x hx), hindexes,
    largest_eq_count hindex, max_eq_right (Int.natCast_nonneg _)]
  rfl

/-- The text between braces is a placeholder when it is accepted. -/
lemma exists_hole_of_addKey {e : Entry} {text : Bytes} (hclose : closeBrace ∉ text)
    (h : addKey e n text = .ok r) :
    ∃ hole : Hole, hole.Valid ∧ hole.Indexed ∧ hole.text = text := by
  unfold addKey at h
  split_ifs at h with hne hdigits hzero
  · exact ⟨.parameter text, ⟨hne, hdigits, leadingNumber_ne_zero hne hdigits hzero⟩, hzero, rfl⟩
  · exact ⟨.named text, ⟨hne, Bool.eq_false_iff.2 hdigits, hclose⟩, trivial, rfl⟩

/-- Only sources of templates are accepted, in the outer loop and in the inner one. -/
lemma exists_template_of_scan {url : Bytes} :
    (∀ {e n text}, Plain text → scan false e n text url = .ok r →
      ∃ t : Template, t.Valid ∧ (∀ x ∈ t.rest, x.1.Indexed) ∧ text ++ url = t.source) ∧
    ∀ {e n text}, closeBrace ∉ text → scan true e n text url = .ok r →
      ∃ (hole : Hole) (t : Template), hole.Valid ∧
      t.Valid ∧ hole.Indexed ∧ (∀ x ∈ t.rest, x.1.Indexed) ∧
      text ++ url = hole.text ++ closeBrace :: t.source := by
  induction url with
  | nil =>
    constructor
    · intro e n text htext h
      refine ⟨⟨text, []⟩, ⟨htext, fun x hx => absurd hx List.not_mem_nil⟩, fun x hx =>
        absurd hx List.not_mem_nil, ?_⟩
      unfold Template.source Url.source
      rw [List.flatMap_nil]
    · intro e n text htext h
      rw [scan, if_pos rfl] at h
      cases h
  | cons c url ih =>
    constructor
    · intro e n text htext h
      rw [scan, if_neg Bool.false_ne_true] at h
      split_ifs at h with hopen hclose
      · rcases ih.2 List.not_mem_nil h with ⟨hole, t, hvalid, ht, hindexed, htindexed, hurl⟩
        rw [List.nil_append] at hurl
        refine ⟨⟨text, (hole, t.first) :: t.rest⟩, ⟨htext, ?_⟩, ?_, ?_⟩
        · intro x hx
          rcases List.mem_cons.1 hx with rfl | hx
          · exact ⟨hvalid, ht.1⟩
          · exact ht.2 x hx
        · exact List.forall_mem_cons.2 ⟨hindexed, htindexed⟩
        · rw [hurl, hopen]
          simp [Template.source, Url.source]
      · have htext' : Plain (text ++ [c]) := by
          constructor
          · rw [List.mem_append, List.mem_singleton, not_or]
            exact ⟨htext.1, fun heq => hopen heq.symm⟩
          · rw [List.mem_append, List.mem_singleton, not_or]
            exact ⟨htext.2, fun heq => hclose heq.symm⟩
        rcases ih.1 htext' h with ⟨t, ht, htindexed, hurl⟩
        rw [List.append_assoc] at hurl
        exact ⟨t, ht, htindexed, hurl⟩
    · intro e n text htext h
      rw [scan, if_pos rfl] at h
      split_ifs at h with hclose
      · rcases hadd : addKey e n text with x | ⟨e', n'⟩
        · rw [hadd] at h
          cases h
        · rw [hadd] at h
          rcases exists_hole_of_addKey htext hadd with ⟨hole, hvalid, hindexed, rfl⟩
          rcases ih.1 ⟨List.not_mem_nil, List.not_mem_nil⟩ h with ⟨t, ht, htindexed, hurl⟩
          rw [List.nil_append] at hurl
          exact ⟨hole, t, hvalid, ht, hindexed, htindexed, by rw [hclose, hurl]⟩
      · have htext' : closeBrace ∉ text ++ [c] := by
          rw [List.mem_append, List.mem_singleton, not_or]
          exact ⟨htext, fun heq => hclose heq.symm⟩
        rcases ih.2 htext' h with ⟨hole, t, hvalid, ht, hindexed, htindexed, hurl⟩
        rw [List.append_assoc] at hurl
        exact ⟨hole, t, hvalid, ht, hindexed, htindexed, hurl⟩

/-! ## Writing templates -/

/-- The value of a placeholder by name: that of a keyword, or of a helper. -/
def valueOf (dflt override : Helpers) (key : Bytes) : Option Bytes :=
  (override.find key).orElse fun _ => dflt.find key

lemma number_le_count {x : Hole × Bytes} (hx : x ∈ rest) : x.1.number ≤ count rest := by
  induction rest with
  | nil => exact absurd hx List.not_mem_nil
  | cons y rest ih =>
    rcases List.mem_cons.1 hx with rfl | hx
    · exact Nat.le_max_left _ _
    · exact (ih hx).trans (Nat.le_max_right _ _)

lemma Template.Fits.count_lt (hfits : t.Fits) : t.count < 2 ^ 31 := by
  rcases t with ⟨first, rest⟩
  have hrest : ∀ x ∈ rest, x.1.number < 2 ^ 31 := hfits
  show Url.count rest < 2 ^ 31
  induction rest with
  | nil => exact Nat.two_pow_pos 31
  | cons x rest ih =>
    have hx := hrest x List.mem_cons_self
    have htail := ih (fun y hy => hfits y (List.mem_cons_of_mem x hy)) fun y hy =>
      hrest y (List.mem_cons_of_mem x hy)
    exact max_lt hx htail

/-- A placeholder whose parameter is there is replaced. -/
lemma writeHole_of_valid (hvalid : h.Valid) (params : List Bytes) (hsmall : params.length < 2 ^ 64)
    (hcount : h.number ≤ params.length) (dflt override : Helpers) :
    writeHole (params.map (·, none)) dflt override h.number h.key =
      (h.value params (valueOf dflt override), none) := by
  rcases h with digits | key
  · have hpos : leadingNumber digits ≠ 0 := hvalid.2.2
    have hcount : leadingNumber digits ≤ params.length := hcount
    have hindex : (((leadingNumber digits : ℤ) - 1) % 2 ^ 64).toNat = leadingNumber digits - 1 := by
      omega
    have hlt : leadingNumber digits - 1 < params.length := by omega
    unfold writeHole Hole.number Hole.value
    dsimp only
    rw [if_neg (Int.natCast_ne_zero.2 hpos), hindex, List.getElem?_map,
      List.getElem?_eq_getElem hlt]
    rfl
  · rfl

lemma writeParts_of_valid (hvalid : ∀ x ∈ rest, x.1.Valid) (params : List Bytes)
    (hsmall : params.length < 2 ^ 64) (hcount : count rest ≤ params.length)
    (dflt override : Helpers) (text : Bytes) :
    writeParts (params.map (·, none)) dflt override (text :: rest.map Prod.snd)
      (rest.map fun x => (x.1.number : ℤ))
      (rest.map fun x => x.1.key) =
    (text ++ rest.flatMap fun x => x.1.value params (valueOf dflt override) ++ x.2, none) := by
  induction rest generalizing text with
  | nil => simp [writeParts, Writing.andThen]
  | cons x rest ih =>
    have hrest := ih (fun y hy => hvalid y (List.mem_cons_of_mem x hy))
      ((Nat.le_max_right _ _).trans hcount) x.2
    have hhole := writeHole_of_valid (hvalid x List.mem_cons_self) params hsmall
      ((number_le_count List.mem_cons_self).trans hcount) dflt override
    rw [List.map_cons, List.map_cons, List.map_cons, writeParts, List.headD_cons,
      List.tail_cons, hhole, hrest]
    simp [Writing.andThen]

/-- What is stored for a template is written as the template with its placeholders replaced. -/
lemma Template.write_entry (hvalid : t.Valid) (params : List Bytes)
    (hsmall : params.length < 2 ^ 64) (hcount : t.count ≤ params.length) (child : Option App)
    (dflt override : Helpers) :
    (t.entry child).write (params.map (·, none)) dflt override =
      (t.expand params (valueOf dflt override), none) :=
  writeParts_of_valid (fun x hx => (hvalid.2 x hx).1) params hsmall hcount dflt override t.first

/-! ## Templates without zeros, and short ones -/

lemma zero_not_mem_flatMap {l : List (Hole × Bytes)} {g : Hole × Bytes → Bytes}
    (h : ∀ x ∈ l, 0 ∉ g x) :
    0 ∉ l.flatMap g := by
  intro hmem
  rcases List.mem_flatMap.1 hmem with ⟨x, hx, hg⟩
  exact h x hx hg

lemma Template.zero_not_mem_expand (h : 0 ∉ t.source) {params : List Bytes}
    (hparams : ∀ p ∈ params, 0 ∉ p) {values : Bytes → Option Bytes}
    (hvalues : ∀ key value, values key = some value → 0 ∉ value) :
    0 ∉ t.expand params values := by
  unfold source at h
  rw [List.mem_append, not_or] at h
  unfold expand
  rw [List.mem_append, not_or]
  refine ⟨h.1, zero_not_mem_flatMap fun x hx => ?_⟩
  rw [List.mem_append, not_or]
  constructor
  · rcases x.1 with digits | key
    · unfold Hole.value
      dsimp only
      rcases hget : params[leadingNumber digits - 1]? with _ | p
      · exact List.not_mem_nil
      · exact hparams p (List.mem_of_getElem? hget)
    · unfold Hole.value
      dsimp only
      rcases hkey : values key with _ | value
      · exact List.not_mem_nil
      · exact hvalues key value hkey
  · intro hmem
    refine h.2 (List.mem_flatMap.2 ⟨x, hx, ?_⟩)
    exact List.mem_append_right _ (List.mem_cons_of_mem _ hmem)

lemma foldl_digits_lt (s : Bytes) (hs : s.all isDigit = true) (n : ℕ) :
    s.foldl (fun n c => 10 * n + (c.toNat - 0x30)) n < (n + 1) * 10 ^ s.length := by
  induction s generalizing n with
  | nil => simp
  | cons c s ih =>
    rw [List.all_cons, Bool.and_eq_true] at hs
    have hc : c ≤ 0x39 := by
      have hdigit := hs.1
      unfold isDigit at hdigit
      simp only [Bool.and_eq_true, decide_eq_true_eq] at hdigit
      exact hdigit.2
    have hc' : c.toNat ≤ 0x39 := hc
    have hnext := ih hs.2 (10 * n + (c.toNat - 0x30))
    have hle : 10 * n + (c.toNat - 0x30) + 1 ≤ (n + 1) * 10 := by omega
    calc (c :: s).foldl (fun n c => 10 * n + (c.toNat - 0x30)) n
        < (10 * n + (c.toNat - 0x30) + 1) * 10 ^ s.length := hnext
      _ ≤ (n + 1) * 10 * 10 ^ s.length := Nat.mul_le_mul_right _ hle
      _ = (n + 1) * 10 ^ (c :: s).length := by rw [List.length_cons, Nat.pow_succ', Nat.mul_assoc]

lemma leadingNumber_lt {digits : Bytes} (hdigits : digits.all isDigit = true) :
    leadingNumber digits < 10 ^ digits.length := by
  have htake : digits.takeWhile (fun c => 0x30 ≤ c && c ≤ 0x39) = digits :=
    List.takeWhile_eq_self_iff.2 (List.all_eq_true.1 hdigits)
  have hlt := foldl_digits_lt digits hdigits 0
  unfold leadingNumber
  rw [htake]
  rwa [Nat.zero_add, Nat.one_mul] at hlt

/-- A template of at most eleven characters has no room for a number that is too large. -/
lemma Template.fits_of_length (hvalid : t.Valid) (hlength : t.source.length ≤ 11) : t.Fits := by
  intro x hx
  have hmem : openBrace :: x.1.text ++ closeBrace :: x.2 ∈
      t.rest.map fun x => openBrace :: x.1.text ++ closeBrace :: x.2 := List.mem_map.2 ⟨x, hx, rfl⟩
  have hsub : (openBrace :: x.1.text ++ closeBrace :: x.2).length ≤ (Url.source t.rest).length :=
    (List.sublist_flatten_of_mem hmem).length_le
  have hsum : t.source.length = t.first.length + (Url.source t.rest).length := List.length_append
  rcases hhole : x.1 with digits | key
  · have hx' := (hvalid.2 x hx).1
    rw [hhole] at hx' hsub
    have hlt := leadingNumber_lt hx'.2.1
    have hdigits : digits.length ≤ 9 := by
      rw [List.length_append, List.length_cons, List.length_cons] at hsub
      have htext : (Hole.parameter digits).text.length = digits.length := rfl
      omega
    calc leadingNumber digits < 10 ^ digits.length := hlt
      _ ≤ 10 ^ 9 := Nat.pow_le_pow_right (by decide) hdigits
      _ < 2 ^ 31 := by decide
  · exact Nat.two_pow_pos 31

end Url

end Cppcms
