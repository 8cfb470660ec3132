import Mathlib.Tactic
import Mathlib.Data.Nat.Bitwise

/-!
# Buddies

A region is divided into pages, each of which has a power of two as its size and begins at a
multiple of its size.  Such a page and its buddy make a page of the next order; the buddy begins
where a bit of the beginning is flipped.

A layout says which pages there are and which of them are in use.  It changes in four ways: a free
page is taken, a page in use is split, it is merged with its buddy, or it is given back.  All of
them keep a tiling of the region.
-/

namespace Cppcms

namespace BuddySystem

/-! ## Buddies -/

/-- Where the buddy of a page begins. -/
def buddy (o x : ℕ) : ℕ := x ^^^ 2 ^ o

variable {o o' x y z : ℕ}

lemma buddy_buddy (o x : ℕ) : buddy o (buddy o x) = x := by
  unfold buddy
  rw [Nat.xor_assoc, Nat.xor_self, Nat.xor_zero]

lemma buddy_of_dvd (h : 2 ^ (o + 1) ∣ z) : buddy o z = z + 2 ^ o := by
  obtain ⟨k, rfl⟩ := h
  have hlt : 2 ^ o < 2 ^ (o + 1) := Nat.pow_lt_pow_right (by decide) (Nat.lt_succ_self o)
  refine Nat.eq_of_testBit_eq fun j => ?_
  unfold buddy
  rw [Nat.testBit_xor, Nat.testBit_two_pow_mul_add k hlt, Nat.testBit_two_pow_mul,
    Nat.testBit_two_pow]
  by_cases hj : j < o + 1
  · have hnot : ¬ o + 1 ≤ j := by omega
    simp [hj, hnot]
  · have hle : o + 1 ≤ j := by omega
    have hne : o ≠ j := by omega
    simp [hj, hle, hne]

lemma buddy_add (h : 2 ^ (o + 1) ∣ z) : buddy o (z + 2 ^ o) = z := by
  rw [← buddy_of_dvd h, buddy_buddy]

/-- A page and its buddy are the halves of a page of the next order. -/
lemma halves (h : 2 ^ o ∣ x) :
    ∃ z, 2 ^ (o + 1) ∣ z ∧ (x = z ∧ buddy o x = z + 2 ^ o ∨ x = z + 2 ^ o ∧ buddy o x = z) := by
  obtain ⟨k, rfl⟩ := h
  rcases Nat.even_or_odd' k with ⟨j, rfl | rfl⟩
  · have hdvd : 2 ^ (o + 1) ∣ 2 ^ o * (2 * j) := ⟨j, by rw [pow_succ, Nat.mul_assoc]⟩
    exact ⟨_, hdvd, .inl ⟨rfl, buddy_of_dvd hdvd⟩⟩
  · have hdvd : 2 ^ (o + 1) ∣ 2 ^ o * (2 * j) := ⟨j, by rw [pow_succ, Nat.mul_assoc]⟩
    have hsum : 2 ^ o * (2 * j + 1) = 2 ^ o * (2 * j) + 2 ^ o := by rw [Nat.mul_add, Nat.mul_one]
    refine ⟨_, hdvd, .inr ⟨hsum, ?_⟩⟩
    rw [hsum]
    exact buddy_add hdvd

/-- Where a page of at least the same size begins is not inside a page. -/
lemma le_or_add_le (hx : 2 ^ o ∣ x) (hy : 2 ^ o ∣ y) : y ≤ x ∨ x + 2 ^ o ≤ y := by
  obtain ⟨j, rfl⟩ := hx
  obtain ⟨k, rfl⟩ := hy
  rcases Nat.lt_or_ge j k with hlt | hle
  · right
    rw [← Nat.mul_succ]
    exact Nat.mul_le_mul_left _ hlt
  · exact .inl (Nat.mul_le_mul_left _ hle)

/-! ## Layouts -/

/-- What is known of a page besides where it begins. -/
structure Page where
  order : ℕ
  used : Bool
  deriving DecidableEq

/-- The pages by where they begin. -/
def Layout := ℕ → Option Page

namespace Layout

/-- A page is put in the layout, or taken from it. -/
def set (L : Layout) (x : ℕ) (p : Option Page) : Layout := fun y => if y = x then p else L y

variable {L L' : Layout} {p q : Page} {m total : ℕ}

@[simp] lemma set_self (L : Layout) (x : ℕ) (p : Option Page) : L.set x p x = p := if_pos rfl

lemma set_of_ne (h : y ≠ x) (p : Option Page) : L.set x p y = L y := if_neg h

lemma set_eq_some {p : Option Page} :
    L.set x p y = some q ↔ y = x ∧ p = some q ∨ y ≠ x ∧ L y = some q := by
  unfold set
  by_cases h : y = x
  · simp [h]
  · simp [h]

/-- The pages are aligned, of no order below `m`, and tile the region up to `total`. -/
structure Tiles (L : Layout) (m total : ℕ) : Prop where
  order_ge : ∀ {x p}, L x = some p → m ≤ p.order
  dvd : ∀ {x p}, L x = some p → 2 ^ p.order ∣ x
  inside : ∀ {x p}, L x = some p → x + 2 ^ p.order ≤ total
  disjoint : ∀ {x y p q}, L x = some p → L y = some q → x < y → x + 2 ^ p.order ≤ y
  cover : ∀ {y}, y < total → ∃ x p, L x = some p ∧ x ≤ y ∧ y < x + 2 ^ p.order

/-- No free page has a free buddy of its order. -/
def Merged (L : Layout) : Prop := ∀ x o, L x = some ⟨o, false⟩ → L (buddy o x) ≠ some ⟨o, false⟩

/-- Where a page begins no other page is. -/
lemma Tiles.eq_of_mem (h : L.Tiles m total) (hx : L x = some p) (hy : L y = some q) (hle : x ≤ y)
    (hlt : y < x + 2 ^ p.order) : x = y := by
  rcases hle.eq_or_lt with heq | hbefore
  · exact heq
  · have hbehind := h.disjoint hx hy hbefore
    omega

variable {u u' : Bool}

/-- Whether a page is in use does not matter for the tiling. -/
lemma Tiles.mark (h : L.Tiles m total) (hx : L x = some ⟨o, u⟩) :
    (L.set x (some ⟨o, u'⟩)).Tiles m total := by
  have hold : ∀ {y q}, L.set x (some ⟨o, u'⟩) y = some q →
      ∃ q', L y = some q' ∧ q'.order = q.order := by
    intro y q hy
    rcases set_eq_some.mp hy with ⟨rfl, hq⟩ | ⟨-, hq⟩
    · exact ⟨_, hx, by rw [← Option.some.inj hq]⟩
    · exact ⟨q, hq, rfl⟩
  constructor
  · intro y q hy
    obtain ⟨q', hq', horder⟩ := hold hy
    exact horder ▸ h.order_ge hq'
  · intro y q hy
    obtain ⟨q', hq', horder⟩ := hold hy
    exact horder ▸ h.dvd hq'
  · intro y q hy
    obtain ⟨q', hq', horder⟩ := hold hy
    exact horder ▸ h.inside hq'
  · intro y z q r hy hz hlt
    obtain ⟨q', hq', horder⟩ := hold hy
    obtain ⟨r', hr', -⟩ := hold hz
    exact horder ▸ h.disjoint hq' hr' hlt
  · intro y hy
    obtain ⟨z, q, hz, hle, hlt⟩ := h.cover hy
    by_cases hzx : z = x
    · subst hzx
      have hq : q = ⟨o, u⟩ := Option.some.inj (hz.symm.trans hx)
      refine ⟨z, _, set_self _ _ _, hle, ?_⟩
      rw [hq] at hlt
      exact hlt
    · exact ⟨z, q, (set_of_ne hzx _).trans hz, hle, hlt⟩

lemma tiles_empty (m : ℕ) : Tiles (fun _ => none) m 0 :=
  ⟨fun h => absurd h (by simp), fun h => absurd h (by simp), fun h => absurd h (by simp), fun h =>
    absurd h (by simp), fun h => absurd h (Nat.not_lt_zero _)⟩

/-- The region grows by a page. -/
lemma Tiles.append (h : L.Tiles m total) (u : Bool) (hm : m ≤ o) (hdvd : 2 ^ o ∣ total) :
    (L.set total (some ⟨o, u⟩)).Tiles m (total + 2 ^ o) := by
  have hpos : 0 < 2 ^ o := Nat.two_pow_pos o
  have hbefore : ∀ {x p}, L x = some p → x + 2 ^ p.order ≤ total ∧ 0 < 2 ^ p.order :=
    fun hx => ⟨h.inside hx, Nat.two_pow_pos _⟩
  constructor
  · intro x p hx
    rcases set_eq_some.mp hx with ⟨-, hp⟩ | ⟨-, hp⟩
    · exact Option.some.inj hp ▸ hm
    · exact h.order_ge hp
  · intro x p hx
    rcases set_eq_some.mp hx with ⟨rfl, hp⟩ | ⟨-, hp⟩
    · exact Option.some.inj hp ▸ hdvd
    · exact h.dvd hp
  · intro x p hx
    rcases set_eq_some.mp hx with ⟨rfl, hp⟩ | ⟨-, hp⟩
    · exact Option.some.inj hp ▸ le_rfl
    · have hin := hbefore hp
      omega
  · intro x y p q hx hy hlt
    rcases set_eq_some.mp hx with ⟨rfl, hp⟩ | ⟨-, hp⟩
    · rcases set_eq_some.mp hy with ⟨rfl, hq⟩ | ⟨-, hq⟩
      · omega
      · have hin := hbefore hq
        omega
    · rcases set_eq_some.mp hy with ⟨rfl, hq⟩ | ⟨-, hq⟩
      · exact h.inside hp
      · exact h.disjoint hp hq hlt
  · intro y hy
    by_cases hlt : y < total
    · obtain ⟨x, p, hx, hle, hlt'⟩ := h.cover hlt
      have hin := hbefore hx
      exact ⟨x, p, set_eq_some.mpr (.inr ⟨by omega, hx⟩), hle, hlt'⟩
    · exact ⟨total, _, set_self _ _ _, by omega, hy⟩

/-- The halves of a page in place of it. -/
def split (L : Layout) (z o : ℕ) : Layout :=
  (L.set z (some ⟨o, true⟩)).set (z + 2 ^ o) (some ⟨o, false⟩)

lemma split_eq_some : L.split z o y = some q ↔
    y = z + 2 ^ o ∧ q = ⟨o, false⟩ ∨ y = z ∧ q = ⟨o, true⟩ ∨ y ≠ z + 2 ^ o ∧ y ≠ z ∧
    L y = some q := by
  have hpos : 0 < 2 ^ o := Nat.two_pow_pos o
  have hne : z ≠ z + 2 ^ o := by omega
  unfold split
  rw [set_eq_some, set_eq_some]
  constructor
  · rintro (⟨rfl, hq⟩ | ⟨hy, ⟨rfl, hq⟩ | ⟨hz, hq⟩⟩)
    · exact .inl ⟨rfl, (Option.some.inj hq).symm⟩
    · exact .inr (.inl ⟨rfl, (Option.some.inj hq).symm⟩)
    · exact .inr (.inr ⟨hy, hz, hq⟩)
  · rintro (⟨rfl, rfl⟩ | ⟨rfl, rfl⟩ | ⟨hy, hz, hq⟩)
    · exact .inl ⟨rfl, rfl⟩
    · exact .inr ⟨hne, .inl ⟨rfl, rfl⟩⟩
    · exact .inr ⟨hy, .inr ⟨hz, hq⟩⟩

lemma Tiles.split (h : L.Tiles m total) {u : Bool} (hz : L z = some ⟨o + 1, u⟩) (hm : m ≤ o) :
    (L.split z o).Tiles m total := by
  have hpow : 2 ^ (o + 1) = 2 ^ o + 2 ^ o := by rw [pow_succ, Nat.mul_two]
  have hpos : 0 < 2 ^ o := Nat.two_pow_pos o
  have hdvd : 2 ^ (o + 1) ∣ z := h.dvd hz
  have hdvd' : 2 ^ o ∣ z := (Nat.pow_dvd_pow 2 (Nat.le_succ o)).trans hdvd
  have hinside : z + 2 ^ (o + 1) ≤ total := h.inside hz
  -- what is not a half is outside of the page
  have hother : ∀ {y q}, L y = some q → y ≠ z → y + 2 ^ q.order ≤ z ∨ z + 2 ^ (o + 1) ≤ y := by
    intro y q hy hne
    rcases Nat.lt_or_gt_of_ne hne with hlt | hlt
    · exact .inl (h.disjoint hy hz hlt)
    · exact .inr (h.disjoint hz hy hlt)
  constructor
  · intro y q hy
    rcases split_eq_some.mp hy with ⟨-, rfl⟩ | ⟨-, rfl⟩ | ⟨-, -, hq⟩
    · exact hm
    · exact hm
    · exact h.order_ge hq
  · intro y q hy
    rcases split_eq_some.mp hy with ⟨rfl, rfl⟩ | ⟨rfl, rfl⟩ | ⟨-, -, hq⟩
    · exact Nat.dvd_add hdvd' dvd_rfl
    · exact hdvd'
    · exact h.dvd hq
  · intro y q hy
    rcases split_eq_some.mp hy with ⟨rfl, rfl⟩ | ⟨rfl, rfl⟩ | ⟨-, -, hq⟩
    · show z + 2 ^ o + 2 ^ o ≤ total
      omega
    · show y + 2 ^ o ≤ total
      omega
    · exact h.inside hq
  · intro y w q r hy hw hlt
    rcases split_eq_some.mp hy with ⟨rfl, rfl⟩ | ⟨rfl, rfl⟩ | ⟨-, hyz, hq⟩
    · rcases split_eq_some.mp hw with ⟨rfl, rfl⟩ | ⟨rfl, rfl⟩ | ⟨-, hwz, hr⟩
      · omega
      · omega
      · rcases hother hr hwz with hbefore | hbehind
        · have hr' : 0 < 2 ^ r.order := Nat.two_pow_pos _
          omega
        · show z + 2 ^ o + 2 ^ o ≤ w
          omega
    · rcases split_eq_some.mp hw with ⟨rfl, rfl⟩ | ⟨rfl, rfl⟩ | ⟨-, hwz, hr⟩
      · exact le_rfl
      · omega
      · rcases hother hr hwz with hbefore | hbehind
        · have hr' : 0 < 2 ^ r.order := Nat.two_pow_pos _
          omega
        · show y + 2 ^ o ≤ w
          omega
    · rcases split_eq_some.mp hw with ⟨rfl, rfl⟩ | ⟨rfl, rfl⟩ | ⟨-, -, hr⟩
      · rcases hother hq hyz with hbefore | hbehind
        · omega
        · omega
      · exact h.disjoint hq hz hlt
      · exact h.disjoint hq hr hlt
  · intro y hy
    obtain ⟨w, q, hw, hle, hlt⟩ := h.cover hy
    by_cases hwz : w = z
    · subst hwz
      obtain rfl : q = ⟨o + 1, u⟩ := Option.some.inj (hw.symm.trans hz)
      by_cases hhalf : y < w + 2 ^ o
      · exact ⟨w, ⟨o, true⟩, split_eq_some.mpr (.inr (.inl ⟨rfl, rfl⟩)), hle, hhalf⟩
      · refine ⟨w + 2 ^ o, ⟨o, false⟩, split_eq_some.mpr (.inl ⟨rfl, rfl⟩), by omega, ?_⟩
        show y < w + 2 ^ o + 2 ^ o
        dsimp only at hlt
        omega
    · have hne : w ≠ z + 2 ^ o := by
        rcases hother hw hwz with hbefore | hbehind
        · omega
        · omega
      exact ⟨w, q, split_eq_some.mpr (.inr (.inr ⟨hne, hwz, hw⟩)), hle, hlt⟩

/-- A page in place of its halves. -/
def merge (L : Layout) (z o : ℕ) : Layout := (L.set (z + 2 ^ o) none).set z (some ⟨o + 1, true⟩)

lemma merge_eq_some : L.merge z o y = some q ↔
    y = z ∧ q = ⟨o + 1, true⟩ ∨ y ≠ z ∧ y ≠ z + 2 ^ o ∧ L y = some q := by
  unfold merge
  rw [set_eq_some, set_eq_some]
  constructor
  · rintro (⟨rfl, hq⟩ | ⟨hy, ⟨-, hq⟩ | ⟨hz, hq⟩⟩)
    · exact .inl ⟨rfl, (Option.some.inj hq).symm⟩
    · exact absurd hq (by simp)
    · exact .inr ⟨hy, hz, hq⟩
  · rintro (⟨rfl, rfl⟩ | ⟨hy, hz, hq⟩)
    · exact .inl ⟨rfl, rfl⟩
    · exact .inr ⟨hy, .inr ⟨hz, hq⟩⟩

lemma Tiles.merge (h : L.Tiles m total) (hz : L z = some ⟨o, u⟩)
    (hz' : L (z + 2 ^ o) = some ⟨o, u'⟩) (hdvd : 2 ^ (o + 1) ∣ z) :
    (L.merge z o).Tiles m total := by
  have hpow : 2 ^ (o + 1) = 2 ^ o + 2 ^ o := by rw [pow_succ, Nat.mul_two]
  have hpos : 0 < 2 ^ o := Nat.two_pow_pos o
  have hinside : z + 2 ^ o + 2 ^ o ≤ total := h.inside hz'
  constructor
  · intro y q hy
    rcases merge_eq_some.mp hy with ⟨-, rfl⟩ | ⟨-, -, hq⟩
    · exact (h.order_ge hz).trans (Nat.le_succ o)
    · exact h.order_ge hq
  · intro y q hy
    rcases merge_eq_some.mp hy with ⟨rfl, rfl⟩ | ⟨-, -, hq⟩
    · exact hdvd
    · exact h.dvd hq
  · intro y q hy
    rcases merge_eq_some.mp hy with ⟨rfl, rfl⟩ | ⟨-, -, hq⟩
    · show y + 2 ^ (o + 1) ≤ total
      omega
    · exact h.inside hq
  · intro y w q r hy hw hlt
    rcases merge_eq_some.mp hy with ⟨rfl, rfl⟩ | ⟨hyz, hyz', hq⟩
    · rcases merge_eq_some.mp hw with ⟨rfl, rfl⟩ | ⟨hwz, hwz', hr⟩
      · omega
      · have hfirst : y + 2 ^ o ≤ w := h.disjoint hz hr hlt
        have hsecond : y + 2 ^ o + 2 ^ o ≤ w := h.disjoint hz' hr (by omega)
        show y + 2 ^ (o + 1) ≤ w
        omega
    · rcases merge_eq_some.mp hw with ⟨rfl, rfl⟩ | ⟨hwz, hwz', hr⟩
      · exact h.disjoint hq hz hlt
      · exact h.disjoint hq hr hlt
  · intro y hy
    obtain ⟨w, q, hw, hle, hlt⟩ := h.cover hy
    by_cases hwz : w = z
    · subst hwz
      obtain rfl : q = ⟨o, u⟩ := Option.some.inj (hw.symm.trans hz)
      refine ⟨w, ⟨o + 1, true⟩, merge_eq_some.mpr (.inl ⟨rfl, rfl⟩), hle, ?_⟩
      show y < w + 2 ^ (o + 1)
      dsimp only at hlt
      omega
    · by_cases hwz' : w = z + 2 ^ o
      · subst hwz'
        obtain rfl : q = ⟨o, u'⟩ := Option.some.inj (hw.symm.trans hz')
        refine ⟨z, ⟨o + 1, true⟩, merge_eq_some.mpr (.inl ⟨rfl, rfl⟩), by omega, ?_⟩
        show y < z + 2 ^ (o + 1)
        dsimp only at hlt
        omega
      · exact ⟨w, q, merge_eq_some.mpr (.inr ⟨hwz, hwz', hw⟩), hle, hlt⟩

/-- Where a page has a buddy in the region, there is a page, and not a greater one. -/
lemma Tiles.exists_buddy (h : L.Tiles m total) (hx : L x = some p)
    (hin : buddy p.order x + 2 ^ p.order ≤ total) :
    ∃ q, L (buddy p.order x) = some q ∧ q.order ≤ p.order := by
  have hpos : 0 < 2 ^ p.order := Nat.two_pow_pos _
  obtain ⟨z, hz, hhalves⟩ := halves (h.dvd hx)
  have hdvd : 2 ^ p.order ∣ z := (Nat.pow_dvd_pow 2 (Nat.le_succ _)).trans hz
  have hbuddy : 2 ^ p.order ∣ buddy p.order x := by
    rcases hhalves with ⟨-, heq⟩ | ⟨-, heq⟩
    · rw [heq]
      exact Nat.dvd_add hdvd dvd_rfl
    · rw [heq]
      exact hdvd
  have hne : buddy p.order x ≠ x := by
    rcases hhalves with ⟨heq, heq'⟩ | ⟨heq, heq'⟩ <;> omega
  obtain ⟨y, q, hy, hle, hlt⟩ := h.cover (by omega : buddy p.order x < total)
  by_cases horder : q.order ≤ p.order
  · -- the page begins there, since it is aligned
    have hdvd' : 2 ^ q.order ∣ buddy p.order x := (Nat.pow_dvd_pow 2 horder).trans hbuddy
    have hsame : y = buddy p.order x := by
      rcases le_or_add_le (h.dvd hy) hdvd' with hge | hbehind
      · omega
      · omega
    exact ⟨q, hsame ▸ hy, horder⟩
  · -- a greater page has both halves in it
    exfalso
    have hbig : 2 ^ (p.order + 1) ∣ 2 ^ q.order := Nat.pow_dvd_pow 2 (by omega)
    have hpow : 2 ^ (p.order + 1) = 2 ^ p.order + 2 ^ p.order := by rw [pow_succ, Nat.mul_two]
    have hyz : y ≤ z := by
      rcases le_or_add_le hz (hbig.trans (h.dvd hy)) with hge | hbehind
      · exact hge
      · rcases hhalves with ⟨-, heq⟩ | ⟨-, heq⟩ <;> omega
    have hend : z + 2 ^ (p.order + 1) ≤ y + 2 ^ q.order := by
      rcases le_or_add_le hz (Nat.dvd_add (hbig.trans (h.dvd hy)) hbig) with hge | hbehind
      · rcases hhalves with ⟨-, heq⟩ | ⟨-, heq⟩ <;> omega
      · exact hbehind
    have hsame : y = x := h.eq_of_mem hy hx (by rcases hhalves with ⟨heq, -⟩ | ⟨heq, -⟩ <;> omega)
      (by rcases hhalves with ⟨heq, -⟩ | ⟨heq, -⟩ <;> omega)
    subst hsame
    obtain rfl : p = q := Option.some.inj (hx.symm.trans hy)
    omega

/-! ## Merged layouts -/

lemma Merged.of_free (h : L.Merged)
    (hfree : ∀ {x o}, L' x = some ⟨o, false⟩ → L x = some ⟨o, false⟩) : L'.Merged :=
  fun x o hx hbuddy => h x o (hfree hx) (hfree hbuddy)

lemma Merged.take (h : L.Merged) (x o : ℕ) : (L.set x (some ⟨o, true⟩)).Merged := by
  refine h.of_free fun hy => ?_
  rcases set_eq_some.mp hy with ⟨-, hq⟩ | ⟨-, hq⟩
  · exact absurd hq (by simp)
  · exact hq

lemma Merged.merge (h : L.Merged) (z o : ℕ) : (L.merge z o).Merged := by
  refine h.of_free fun hy => ?_
  rcases merge_eq_some.mp hy with ⟨-, hq⟩ | ⟨-, -, hq⟩
  · exact absurd hq (by simp)
  · exact hq

lemma Merged.split (h : L.Merged) (hdvd : 2 ^ (o + 1) ∣ z) : (L.split z o).Merged := by
  have hpos : 0 < 2 ^ o := Nat.two_pow_pos o
  intro y o' hy hbuddy
  rcases split_eq_some.mp hy with ⟨rfl, hq⟩ | ⟨-, hq⟩ | ⟨-, hyz, hq⟩
  · obtain rfl : o' = o := congrArg Page.order hq
    rw [buddy_add hdvd] at hbuddy
    rcases split_eq_some.mp hbuddy with ⟨heq, -⟩ | ⟨-, hcontra⟩ | ⟨-, hne, -⟩
    · omega
    · exact absurd hcontra (by simp)
    · exact hne rfl
  · exact absurd hq (by simp)
  · rcases split_eq_some.mp hbuddy with ⟨heq, hq'⟩ | ⟨-, hcontra⟩ | ⟨-, -, hq'⟩
    · obtain rfl : o' = o := congrArg Page.order hq'
      refine hyz ?_
      rw [← buddy_buddy o' y, heq, buddy_add hdvd]
    · exact absurd hcontra (by simp)
    · exact h y o' hq hq'

lemma Merged.give (h : L.Merged) (hbuddy : L (buddy o x) ≠ some ⟨o, false⟩) (hne : buddy o x ≠ x) :
    (L.set x (some ⟨o, false⟩)).Merged := by
  intro y o' hy hy'
  rcases set_eq_some.mp hy with ⟨rfl, hq⟩ | ⟨hyx, hq⟩
  · obtain rfl : o = o' := congrArg Page.order (Option.some.inj hq)
    rw [set_of_ne hne] at hy'
    exact hbuddy hy'
  · rcases set_eq_some.mp hy' with ⟨heq, hq'⟩ | ⟨-, hq'⟩
    · obtain rfl : o = o' := congrArg Page.order (Option.some.inj hq')
      rw [← heq, buddy_buddy] at hbuddy
      exact hbuddy hq
    · exact h y o' hq hq'

/-- In a merged layout of free pages none is smaller than an aligned part of the region that it
begins in. -/
lemma Tiles.order_ge_of_free (h : L.Tiles m total) (hfree : ∀ x p, L x = some p → p.used = false)
    (hmerged : L.Merged) (hdvd : 2 ^ o ∣ z) (hin : z + 2 ^ o ≤ total) :
    ∀ (n : ℕ) {x : ℕ} {p : Page}, p.order = n → L x = some p → z ≤ x → x < z + 2 ^ o → o ≤ n := by
  intro n
  induction n using Nat.strong_induction_on with
  | _ n ih =>
    intro x p hn hx hle hlt
    subst hn
    by_contra hcontra
    obtain ⟨w, hw, hhalves⟩ := halves (h.dvd hx)
    have hpow : 2 ^ (p.order + 1) = 2 ^ p.order + 2 ^ p.order := by rw [pow_succ, Nat.mul_two]
    have hsmall : 2 ^ (p.order + 1) ∣ 2 ^ o := Nat.pow_dvd_pow 2 (by omega)
    have hpos : 0 < 2 ^ p.order := Nat.two_pow_pos _
    -- both halves are in the part
    have hzw : z ≤ w := by
      rcases le_or_add_le hw (hsmall.trans hdvd) with hge | hbehind
      · exact hge
      · rcases hhalves with ⟨heq, -⟩ | ⟨heq, -⟩ <;> omega
    have hend : w + 2 ^ (p.order + 1) ≤ z + 2 ^ o := by
      rcases le_or_add_le hw (Nat.dvd_add (hsmall.trans hdvd) hsmall) with hge | hbehind
      · rcases hhalves with ⟨heq, -⟩ | ⟨heq, -⟩ <;> omega
      · exact hbehind
    have hbuddy : z ≤ buddy p.order x ∧ buddy p.order x + 2 ^ p.order ≤ z + 2 ^ o := by
      rcases hhalves with ⟨-, heq⟩ | ⟨-, heq⟩ <;> omega
    obtain ⟨q, hq, horder⟩ := h.exists_buddy hx (hbuddy.2.trans hin)
    rcases horder.eq_or_lt with heq | hless
    · have hp : p = ⟨p.order, false⟩ := by rw [← hfree x p hx]
      have hq' : q = ⟨p.order, false⟩ := by rw [← heq, ← hfree _ q hq]
      rw [hp] at hx
      rw [hq'] at hq
      exact hmerged x p.order hx hq
    · have hge := ih q.order hless rfl hq hbuddy.1 (by omega)
      omega

/-- A region has one merged layout of free pages. -/
theorem Tiles.unique (h : L.Tiles m total) (h' : L'.Tiles m total)
    (hfree : ∀ x p, L x = some p → p.used = false) (hfree' : ∀ x p, L' x = some p → p.used = false)
    (hmerged : L.Merged) (hmerged' : L'.Merged) :
    ∀ x p, L x = some p → L' x = some p := by
  intro x p hx
  have hpos : 0 < 2 ^ p.order := Nat.two_pow_pos _
  have hin := h.inside hx
  obtain ⟨y, q, hy, hle, hlt⟩ := h'.cover (by omega : x < total)
  have hge := h.order_ge_of_free hfree hmerged (h'.dvd hy) (h'.inside hy) _ rfl hx hle hlt
  have hdvd : 2 ^ q.order ∣ x := (Nat.pow_dvd_pow 2 hge).trans (h.dvd hx)
  obtain rfl : y = x := by
    rcases le_or_add_le (h'.dvd hy) hdvd with hge' | hbehind <;> omega
  have hle' := h'.order_ge_of_free hfree' hmerged' (h.dvd hx) hin _ rfl hy le_rfl (by omega)
  have horder : p.order = q.order := by omega
  have hpq : p = q := by
    rcases p with ⟨o, u⟩
    rcases q with ⟨o', u'⟩
    obtain rfl : u = false := hfree _ _ hx
    obtain rfl : u' = false := hfree' _ _ hy
    obtain rfl : o = o' := horder
    rfl
  rw [hpq]
  exact hy

/-- So many pages of an order fit into the region. -/
lemma length_mul_le {l : List ℕ} (hnodup : l.Nodup) (hl : ∀ x ∈ l, 2 ^ o ∣ x ∧ x + 2 ^ o ≤ total) :
    l.length * 2 ^ o ≤ total := by
  have hpos : 0 < 2 ^ o := Nat.two_pow_pos o
  have hindex : (l.map (· / 2 ^ o)).Nodup := by
    refine hnodup.map_on fun x hx y hy heq => ?_
    rw [← Nat.div_mul_cancel (hl x hx).1, ← Nat.div_mul_cancel (hl y hy).1, heq]
  have hsubset : l.map (· / 2 ^ o) ⊆ List.range (total / 2 ^ o) := by
    intro i hi
    obtain ⟨x, hx, rfl⟩ := List.mem_map.mp hi
    have hle := Nat.div_le_div_right (c := 2 ^ o) (hl x hx).2
    rw [Nat.add_div_right x hpos] at hle
    exact List.mem_range.mpr hle
  have hlen := (List.subperm_of_subset hindex hsubset).length_le
  rw [List.length_map, List.length_range] at hlen
  exact (Nat.mul_le_mul_right _ hlen).trans (Nat.div_mul_le_self total (2 ^ o))

end Layout

end BuddySystem

end Cppcms
