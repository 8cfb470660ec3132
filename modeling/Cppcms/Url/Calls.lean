import Cppcms.Library.Machine
import Cppcms.Url.Hierarchy

/-!
# The calls that build a hierarchy

Every call does to the mappers what it does to the tree.  So in every hierarchy that was built
without an exception `realMap` writes the URL of the tree, or it reports that there is none and
writes nothing else, as long as the numbers in templates are numbers of an `int`, values go to the
mapper of the topmost application, the key has no zero in it, and nothing that can become a part of
a URL has one when exceptions are off.
-/

namespace Cppcms

namespace Url

variable {url : Bytes} {calls : List Call} {s : Site}

lemma Site.template_eq_some {t : Template} (h : Site.template url = some t) :
    t.Valid ∧ t.source = url := by
  unfold template at h
  split_ifs at h with hexists
  rw [← Option.some.inj h]
  exact hexists.choose_spec

lemma Site.exists_template (h : ∃ t : Template, t.Valid ∧ t.source = url) :
    ∃ t, Site.template url = some t := by
  unfold template
  rw [dif_pos h]
  exact ⟨_, rfl⟩

/-- The numbers in a template are numbers of an `int`. -/
def FitsUrl (url : Bytes) : Prop := ∀ t : Template, t.Valid → t.source = url → t.Fits

/-- What `real_assign` does to a mapper. -/
lemma Mapper.realAssign_ok {d d' : Mapper} {key url : Bytes} {child : Option App}
    (hfits : FitsUrl url) (h : d.realAssign key url child = .ok d') :
    ∃ t, Site.template url = some t ∧
      d' = { d with byKey :=
        d.byKey.insert key (((d.byKey.find key).getD ∅).insert t.count (t.entry child)) } ∧
      (child.isSome → t.count = 1 ∧ d.byKey.find key = none) ∧
      (child = none → ((d.byKey.find key).bind fun m => m.find 1).bind Entry.child = none) := by
  unfold realAssign at h
  rcases hscan : scan false ⟨[], [], [], none⟩ 0 [] url with x | ⟨e, maxIndex⟩
  · rw [hscan] at h
    cases h
  · rcases exists_template_of_scan.1 ⟨List.not_mem_nil, List.not_mem_nil⟩ hscan with
      ⟨t', ht', -, hurl⟩
    rw [List.nil_append] at hurl
    rcases Site.exists_template ⟨t', ht', hurl.symm⟩ with ⟨t, ht⟩
    rcases Site.template_eq_some ht with ⟨hvalid, hsource⟩
    -- the template that was chosen is read from the same text
    have hread := Template.scan_source hvalid (hfits t hvalid hsource)
    rw [hsource, hscan] at hread
    rcases Prod.mk.inj (Except.ok.inj hread) with ⟨rfl, rfl⟩
    rw [hscan] at h
    dsimp only at h
    split_ifs at h with hone hmounted hordinary
    refine ⟨t, ht, (Except.ok.inj h).symm, ?_, ?_⟩
    · intro hchild
      constructor
      · by_contra hne
        exact hone ⟨hchild, fun heq => hne (Int.natCast_inj.1 heq)⟩
      · by_contra hne
        exact hmounted ⟨hchild, Option.isSome_iff_ne_none.2 hne⟩
    · rintro rfl
      by_contra hne
      exact hordinary ⟨rfl, Option.isSome_iff_ne_none.2 hne⟩

namespace Site

variable {s s' : Site} {a b app top : App} {key name : Bytes} {t : Template}

lemma Topmost.congr (hup : ∀ b, (s' b).up = (s b).up) (h : s.Topmost a top) : s'.Topmost a top := by
  induction h with
  | top hnone => exact .top ((hup _).trans hnone)
  | up hsome _ ih => exact .up ((hup _).trans hsome) ih

section Mount

variable (hfree : (s app).up = none)
    (hup : ∀ b, (s' b).up = if b = app then some (a, name) else (s b).up)
include hfree hup

/-- The ways that do not end at the application are the same after it is mounted. -/
lemma Topmost.of_ne (h : s.Topmost b top) (hne : top ≠ app) : s'.Topmost b top := by
  induction h with
  | @top b hnone =>
    refine .top ?_
    rw [hup, if_neg hne, hnone]
  | @up b p top n hsome _ ih =>
    have hb : b ≠ app := by
      rintro rfl
      rw [hfree] at hsome
      cases hsome
    have hsome' : (s' b).up = some (p, n) := by rw [hup, if_neg hb, hsome]
    exact .up hsome' (ih hne)

/-- The ways that end at the application go on. -/
lemma Topmost.of_app (h : s.Topmost b app) (htop : s'.Topmost a top) : s'.Topmost b top := by
  generalize happ : app = app' at h
  induction h with
  | @top b hnone =>
    have hsome' : (s' b).up = some (a, name) := by rw [hup, if_pos happ.symm]
    exact .up hsome' htop
  | @up b p app' n hsome _ ih =>
    have hb : b ≠ app := by
      rintro rfl
      rw [hfree] at hsome
      cases hsome
    have hsome' : (s' b).up = some (p, n) := by rw [hup, if_neg hb, hsome]
    exact .up hsome' (ih happ)

end Mount

end Site

namespace World

/-- Nothing but values and roots changes. -/
def SameTree (w w' : World) : Prop := ∀ b, ∃ helpers root, w' b = { w b with helpers, root }

lemma sameTree_set (w : World) (a : App) (helpers : Helpers) (root : Bytes) :
    w.SameTree (w.set a { w a with helpers, root }) := by
  intro b
  by_cases hb : b = a
  · rw [hb]
    exact ⟨helpers, root, Function.update_self _ _ _⟩
  · exact ⟨(w b).helpers, (w b).root, Function.update_of_ne hb _ _⟩

/-- The values that are set one after the other are all set in the mapper at the root. -/
lemma foldl_setValue (a root : App) (l : List (Bytes × Bytes)) (w : World) :
    l.foldl (fun w x => w.setValue a root x.1 x.2) w =
      w.set (w.rootMapper a root) { w (w.rootMapper a root) with
        helpers := l.foldl (fun m x => m.insert x.1 x.2) (w (w.rootMapper a root)).helpers } := by
  induction l generalizing w with
  | nil => exact (Function.update_eq_self _ _).symm
  | cons x l ih =>
    have hroot : (w.setValue a root x.1 x.2).rootMapper a root = w.rootMapper a root := by
      have hparent : (w.setValue a root x.1 x.2 a).parent = (w a).parent := by
        have hsame : w.SameTree (w.setValue a root x.1 x.2) := sameTree_set w _ _ _
        rcases hsame a with ⟨helpers, r, ha⟩
        rw [ha]
      unfold rootMapper
      rw [hparent]
    rw [List.foldl_cons, List.foldl_cons, ih, hroot]
    unfold setValue set
    rw [Function.update_self, Function.update_idem]

end World

/-- Values that are put into a map come in place of the ones with the same keys. -/
lemma find_foldl_toList (m m' : Helpers) (key : Bytes) :
    (m.toList.foldl (fun m x => m.insert x.1 x.2) m').find key = (m.find key).orElse fun _ =>
    m'.find key := by
  have hnodup : (m.toList.map Prod.fst).Nodup := by
    rw [List.nodup_iff_pairwise_ne, List.pairwise_map]
    exact m.sorted.imp fun hlt => hlt.ne
  ext value
  rw [SortedMap.find_foldl_insert hnodup, ← SortedMap.find_eq_some]
  rcases hm : m.find key with _ | v
  · have hne : ∀ x ∈ m.toList, x.1 ≠ key := by
      rintro ⟨k, v⟩ hx rfl
      rw [SortedMap.find_eq_some.2 hx] at hm
      cases hm
    simpa using fun _ => hne
  · have hsome : ¬ ∀ x ∈ m.toList, x.1 ≠ key := fun hne =>
      hne (key, v) (SortedMap.find_eq_some.1 hm) rfl
    rw [or_iff_left fun h => hsome h.2]
    rfl

namespace Represents

variable {w w' : World} {s s' : Site} {a app : App} {key name : Bytes} {t : Template}

/-- What is said of the tree does not depend on values and roots. -/
lemma of_sameTree (h : Represents w s) (hw : w.SameTree w')
    (hs : ∀ b, s' b = { s b with root := (w' b).root, values := (w' b).helpers.find }) :
    Represents w' s' where
  entry b k n := by
    rcases hw b with ⟨helpers, root, hb⟩
    rw [hb, hs]
    exact h.entry b k n
  valid := by
    intro b k n t ht
    rw [hs] at ht
    exact h.valid ht
  mounted_one := by
    intro b k c hc
    rw [hs] at hc ⊢
    exact h.mounted_one hc
  up_eq b := by
    rcases hw b with ⟨helpers, root, hb⟩
    rw [hb, hs]
    exact h.up_eq b
  root_eq b := by rw [hs]
  values_eq b := by rw [hs]
  up_one := by
    intro b p k hk
    rw [hs] at hk ⊢
    exact h.up_one hk
  ends b := by
    rcases h.ends b with ⟨top, htop⟩
    have hup : ∀ b, (s' b).up = (s b).up := fun b => by rw [hs]
    exact ⟨top, htop.congr hup⟩

variable {m : Helpers} {top : App}

/-- The values in a mapper are the values of the tree below it. -/
lemma setHelpers (h : Represents w s)
    (hs : ∀ b, s' b = { s b with values := if b = top then m.find else (s b).values }) :
    Represents (w.set top { w top with helpers := m }) s' := by
  refine h.of_sameTree (w.sameTree_set top m (w top).root) fun b => ?_
  rw [hs]
  unfold World.set
  have hroot := h.root_eq b
  have hvalues := h.values_eq b
  by_cases hb : b = top
  · subst hb
    rw [Function.update_self, if_pos rfl]
    dsimp only
    rw [← hroot]
  · rw [Function.update_of_ne hb, if_neg hb, ← hroot, ← hvalues]

/-- `set_value` and `clear_value`, in the mapper of the topmost application. -/
lemma setValue (h : Represents w s) (htop : s.Topmost a top) {value : Option Bytes}
    (hm : ∀ k, m.find k = if k = key then value else (w top).helpers.find k) :
    Represents (w.set top { w top with helpers := m }) (s.setValue a key value) := by
  refine h.setHelpers fun b => ?_
  have hnode : s.setValue a key value b =
    { s b with values := (s.setValue a key value b).values } := rfl
  have hvalues : (s.setValue a key value b).values = if b = top then m.find else (s b).values := by
    funext k
    unfold Site.setValue
    dsimp only
    by_cases hb : b = top
    · subst hb
      rw [if_pos rfl, hm, h.values_eq]
      by_cases hk : k = key
      · rw [if_pos ⟨htop, hk⟩, if_pos hk]
      · rw [if_neg fun heq => hk heq.2, if_neg hk]
    · rw [if_neg hb, if_neg fun heq => hb (heq.1.unique htop)]
  rw [hnode, hvalues]

/-- `root`. -/
lemma setRoot (h : Represents w s) (a : App) (r : Bytes) :
    Represents (w.setRoot a r) (s.setRoot a r) := by
  refine h.of_sameTree (w.sameTree_set a (w a).helpers r) fun b => ?_
  have hroot := h.root_eq b
  have hvalues := h.values_eq b
  unfold Site.setRoot World.setRoot World.set
  by_cases hb : b = a
  · subst hb
    rw [Function.update_self, if_pos rfl]
    dsimp only
    rw [← hvalues]
  · rw [Function.update_of_ne hb, if_neg hb, ← hroot, ← hvalues]

/-- The last lines of `mount`. -/
lemma moveValues (h : Represents w s) {root : App} (hroot : (w app).helpers = ∅ ∨
    (s.Topmost a (w.rootMapper a root) ∧ w.rootMapper a root ≠ app)) :
    Represents (w.moveValues a root app) (s.moveValues a app) := by
  have hnode : ∀ b, s.moveValues a app b = { s b with values := (s.moveValues a app b).values } :=
    fun _ => rfl
  unfold World.moveValues
  dsimp only
  rw [World.foldl_setValue]
  rcases hroot with hempty | ⟨htop, hne⟩
  · have hsame : w.set (w.rootMapper a root) { w (w.rootMapper a root) with
        helpers := (w app).helpers.toList.foldl (fun m x => m.insert x.1 x.2)
          (w (w.rootMapper a root)).helpers } = w := by
      rw [hempty]
      exact Function.update_eq_self _ _
    rw [hsame]
    refine h.setHelpers fun b => ?_
    have hnone : (s app).values = fun _ => none := by
      rw [h.values_eq, hempty]
      rfl
    have hvalues : (s.moveValues a app b).values = if b =
        app then (∅ : Helpers).find else (s b).values := by
      funext k
      unfold Site.moveValues
      dsimp only
      rw [hnone, Option.orElse_none, ite_self]
      split_ifs
      · rfl
      · rfl
    rw [hnode, hvalues]
  · have hmoved : Represents (w.set (w.rootMapper a root) { w (w.rootMapper a root) with
        helpers := (w app).helpers.toList.foldl (fun m x => m.insert x.1 x.2)
          (w (w.rootMapper a root)).helpers })
        fun b => { s b with values := if b = w.rootMapper a root then
          ((w app).helpers.toList.foldl (fun m x => m.insert x.1 x.2)
            (w (w.rootMapper a root)).helpers).find
          else (s b).values } := h.setHelpers fun b => rfl
    refine hmoved.setHelpers fun b => ?_
    have hvalues : (s.moveValues a app b).values = if b = app then (∅ : Helpers).find
        else if b = w.rootMapper a root then
          ((w app).helpers.toList.foldl (fun m x => m.insert x.1 x.2)
            (w (w.rootMapper a root)).helpers).find
        else (s b).values := by
      funext k
      unfold Site.moveValues
      dsimp only
      by_cases hb : b = app
      · rw [if_pos hb, if_pos hb]
        rfl
      · rw [if_neg hb, if_neg hb]
        by_cases hbtop : b = w.rootMapper a root
        · rw [if_pos hbtop, if_pos (hbtop ▸ htop), find_foldl_toList, h.values_eq,
            h.values_eq, hbtop]
        · rw [if_neg hbtop, if_neg fun hb' => hbtop (hb'.unique htop)]
    rw [hnode, hvalues]

/-- What is found for a key and a number of parameters after a template was stored. -/
lemma find_insert_template (m : SortedMap Bytes (SortedMap ℕ Entry)) (key k : Bytes) (n count : ℕ)
    (e : Entry) :
    (((m.insert key (((m.find key).getD ∅).insert count e)).find k).bind fun x => x.find n) =
      if k = key ∧ n = count then some e else (m.find k).bind fun x => x.find n := by
  rw [SortedMap.find_insert]
  by_cases hk : k = key
  · rw [if_pos hk, Option.bind_some, SortedMap.find_insert]
    by_cases hn : n = count
    · rw [if_pos hn, if_pos ⟨hk, hn⟩]
    · rw [if_neg hn, if_neg (fun h => hn h.2), hk]
      rcases m.find key with _ | x
      · rfl
      · rfl
  · rw [if_neg hk, if_neg (fun h => hk h.1)]

/-- `assign`. -/
lemma assign (h : Represents w s) (hvalid : t.Valid) (hfits : t.Fits)
    (hmounted : (s a).mounted key = none) :
    Represents (w.set a { w a with
      byKey :=
        (w a).byKey.insert key ((((w a).byKey.find key).getD ∅).insert t.count (t.entry none)) })
      (s.addTemplate a key t) where
  entry b k n := by
    unfold World.set Site.addTemplate
    dsimp only
    by_cases hb : b = a
    · rw [hb, Function.update_self]
      dsimp only
      rw [find_insert_template]
      by_cases hk : k = key ∧ n = t.count
      · rw [if_pos hk, if_pos ⟨rfl, hk⟩, hk.1, hmounted]
        rfl
      · rw [if_neg hk, if_neg (fun heq => hk heq.2)]
        exact h.entry a k n
    · rw [Function.update_of_ne hb, if_neg (fun heq => hb heq.1)]
      exact h.entry b k n
  valid := by
    intro b k n t' ht'
    unfold Site.addTemplate at ht'
    dsimp only at ht'
    split_ifs at ht' with heq
    · rw [← Option.some.inj ht']
      exact ⟨hvalid, hfits, heq.2.2.symm⟩
    · exact h.valid ht'
  mounted_one := by
    intro b k c hc n
    have hne : ¬ (b = a ∧ k = key ∧ n = t.count) := by
      rintro ⟨rfl, rfl, -⟩
      have hc : (s b).mounted k = some c := hc
      rw [hmounted] at hc
      cases hc
    unfold Site.addTemplate
    dsimp only
    rw [if_neg hne]
    exact h.mounted_one hc n
  up_eq b := by
    unfold World.set
    by_cases hb : b = a
    · rw [hb, Function.update_self]
      exact h.up_eq a
    · rw [Function.update_of_ne hb]
      exact h.up_eq b
  root_eq b := by
    unfold World.set
    by_cases hb : b = a
    · rw [hb, Function.update_self]
      exact h.root_eq a
    · rw [Function.update_of_ne hb]
      exact h.root_eq b
  values_eq b := by
    unfold World.set
    by_cases hb : b = a
    · rw [hb, Function.update_self]
      exact h.values_eq a
    · rw [Function.update_of_ne hb]
      exact h.values_eq b
  up_one := by
    intro b p k hup
    unfold Site.addTemplate
    dsimp only
    split_ifs with heq
    · exact ⟨t, rfl⟩
    · exact h.up_one hup
  ends b := by
    rcases h.ends b with ⟨top, htop⟩
    have hup : ∀ b, (s.addTemplate a key t b).up = (s b).up := fun _ => rfl
    exact ⟨top, htop.congr hup⟩

/-- `mount`, without the values. -/
lemma mount (h : Represents w s) (hvalid : t.Valid) (hfits : t.Fits) (hcount : t.count = 1)
    (hnew : (w a).byKey.find name = none) (hfree : (w app).parent = none)
    (htop : ∀ fuel, w.topmost fuel a ≠ some app) :
    Represents ((w.hang a name app).set a { w.hang a name app a with
      byKey := (w.hang a name app a).byKey.insert name
        ((((w.hang a name app a).byKey.find name).getD ∅).insert t.count (t.entry (some app))) })
      ((s.addTemplate a name t).addMount a name app) := by
  have hup : (s app).up = none := by rw [h.up_eq, hfree]; rfl
  have hnot : ¬ s.Topmost a app := by
    intro hend
    rcases h.topmost_eq hend with ⟨bound, hbound⟩
    exact htop bound (hbound bound le_rfl)
  have hne : a ≠ app := by
    rintro rfl
    exact hnot (.top hup)
  have hhang : w.hang a name app a = w a := Function.update_of_ne hne _ _
  have hnone : ∀ n, (s a).templates name n = none := by
    intro n
    have hentry := h.entry a name n
    rw [hnew] at hentry
    exact Option.map_eq_none_iff.1 hentry.symm
  rw [hhang]
  -- neither the root nor the values of a mapper are touched
  have hrest : ∀ b, (((w.hang a name app).set a { w a with
      byKey := (w a).byKey.insert name
        ((((w a).byKey.find name).getD ∅).insert t.count (t.entry (some app))) }) b).root =
        (w b).root ∧
      (((w.hang a name app).set a { w a with
        byKey := (w a).byKey.insert name
          ((((w a).byKey.find name).getD ∅).insert t.count (t.entry (some app))) }) b).helpers =
        (w b).helpers := by
    intro b
    unfold World.set World.hang World.set
    by_cases hb : b = a
    · rw [hb, Function.update_self]
      exact ⟨rfl, rfl⟩
    · rw [Function.update_of_ne hb]
      by_cases happ : b = app
      · rw [happ, Function.update_self]
        exact ⟨rfl, rfl⟩
      · rw [Function.update_of_ne happ]
        exact ⟨rfl, rfl⟩
  refine ⟨fun b k n => ?_, ?_, ?_, fun b => ?_, fun b => (h.root_eq b).trans (hrest b).1.symm,
    fun b => (h.values_eq b).trans (congrArg _ (hrest b).2.symm), ?_, fun b => ?_⟩
  · unfold World.set Site.addMount Site.addTemplate
    dsimp only
    by_cases hb : b = a
    · rw [hb, Function.update_self]
      dsimp only
      rw [find_insert_template]
      by_cases hk : k = name
      · by_cases hn : n = t.count
        · have htemplate : a = a ∧ k = name ∧ n = t.count := ⟨rfl, hk, hn⟩
          have happ : a = a ∧ k = name := ⟨rfl, hk⟩
          rw [if_pos ⟨hk, hn⟩, if_pos htemplate, if_pos happ]
          rfl
        · have htemplate : ¬ (a = a ∧ k = name ∧ n = t.count) := fun heq => hn heq.2.2
          rw [if_neg (fun heq => hn heq.2), if_neg htemplate, hk, hnone, hnew]
          rfl
      · have htemplate : ¬ (a = a ∧ k = name ∧ n = t.count) := fun heq => hk heq.2.1
        have happ : ¬ (a = a ∧ k = name) := fun heq => hk heq.2
        rw [if_neg (fun heq => hk heq.1), if_neg htemplate, if_neg happ]
        exact h.entry a k n
    · have htemplate : ¬ (b = a ∧ k = name ∧ n = t.count) := fun heq => hb heq.1
      have happ : ¬ (b = a ∧ k = name) := fun heq => hb heq.1
      rw [Function.update_of_ne hb, if_neg htemplate, if_neg happ]
      have hkeys : (w.hang a name app b).byKey = (w b).byKey := by
        unfold World.hang World.set
        by_cases happ : b = app
        · rw [happ, Function.update_self]
        · rw [Function.update_of_ne happ]
      rw [hkeys]
      exact h.entry b k n
  · intro b k n t' ht'
    unfold Site.addMount Site.addTemplate at ht'
    dsimp only at ht'
    split_ifs at ht' with heq
    · rw [← Option.some.inj ht']
      exact ⟨hvalid, hfits, heq.2.2.symm⟩
    · exact h.valid ht'
  · intro b k c hc n
    unfold Site.addMount Site.addTemplate at hc ⊢
    dsimp only at hc ⊢
    by_cases hk : b = a ∧ k = name
    · rw [hk.1, hk.2]
      by_cases hn : n = t.count
      · rw [if_pos ⟨rfl, rfl, hn⟩, hn]
        exact iff_of_true rfl hcount
      · rw [if_neg (fun heq => hn heq.2.2), hnone]
        exact iff_of_false Bool.false_ne_true (fun heq => hn (heq.trans hcount.symm))
    · rw [if_neg hk] at hc
      rw [if_neg (fun heq => hk ⟨heq.1, heq.2.1⟩)]
      exact h.mounted_one hc n
  · unfold World.set Site.addMount Site.addTemplate
    dsimp only
    by_cases hb : b = a
    · rw [hb, Function.update_self, if_neg hne]
      exact h.up_eq a
    · rw [Function.update_of_ne hb]
      unfold World.hang World.set
      by_cases happ : b = app
      · rw [if_pos happ, happ, Function.update_self]
        rfl
      · rw [if_neg happ, Function.update_of_ne happ]
        exact h.up_eq b
  · intro b p k hk
    unfold Site.addMount Site.addTemplate at hk ⊢
    dsimp only at hk ⊢
    split_ifs with heq
    · exact ⟨t, rfl⟩
    · split_ifs at hk with happ
      · rcases Prod.mk.inj (Option.some.inj hk) with ⟨rfl, rfl⟩
        exact absurd ⟨rfl, rfl, hcount.symm⟩ heq
      · exact h.up_one hk
  · have hups : ∀ b, ((s.addTemplate a name t).addMount a name app b).up = if b =
        app then some (a, name) else (s b).up :=
      fun _ => rfl
    rcases h.ends a with ⟨top, hend⟩
    have hend' := hend.of_ne hup hups (fun heq => hnot (heq ▸ hend))
    rcases h.ends b with ⟨top', hb⟩
    by_cases htop' : top' = app
    · exact ⟨top, Site.Topmost.of_app hup hups (htop' ▸ hb) hend'⟩
    · exact ⟨top', hb.of_ne hup hups htop'⟩

end Represents

/-- The text of a call that can become a part of URLs. -/
def Call.text : Call → Bytes
  | .assign _ _ url => url
  | .assignDefault _ url => url
  | .mount _ _ _ url _ => url
  | .setValue _ _ _ value => value
  | .clearValue _ _ _ => []
  | .setRoot _ r => r

/-- The numbers in the template of a call are numbers of an `int`. -/
def Call.Fits : Call → Prop
  | .assign _ _ url => FitsUrl url
  | .assignDefault _ url => FitsUrl url
  | .mount _ _ _ url _ => FitsUrl url
  | _ => True

/-- The calls keep a tree: an application that is mounted is not mounted yet, and it is not above
the other one. -/
def World.Grows (w : World) : Call → Prop
  | .mount a _ _ _ app => (w app).parent = none ∧ ∀ fuel, w.topmost fuel a ≠ some app
  | _ => True

/-- The application that `application::root` gives is the topmost one, when a value is written to
its mapper. -/
def World.Rooted (w : World) : Call → Prop
  | .setValue a root _ _ => ∃ fuel, w.topmost fuel a = some (w.rootMapper a root)
  | .clearValue a root _ => ∃ fuel, w.topmost fuel a = some (w.rootMapper a root)
  | .mount a root _ _ app => (w app).helpers = ∅ ∨
      ∃ fuel, w.topmost fuel a = some (w.rootMapper a root)
  | _ => True

/-- A call without an exception. -/
def World.Builds (w : World) (c : Call) : Prop := (w.call c).2 = none ∧ w.Grows c

namespace Represents

variable {w : World} {s : Site} {a : App} {key url : Bytes} {d : Mapper}

lemma realAssign (h : Represents w s) (hfits : FitsUrl url)
    (hd : (w a).realAssign key url none = .ok d) :
    Represents (w.set a d) (((Site.template url).map (s.addTemplate a key)).getD s) := by
  rcases Mapper.realAssign_ok hfits hd with ⟨t, ht, rfl, -, hordinary⟩
  rcases Site.template_eq_some ht with ⟨hvalid, hsource⟩
  have hmounted : (s a).mounted key = none := by
    by_contra hne
    rcases Option.ne_none_iff_exists'.1 hne with ⟨b, hb⟩
    rcases Option.isSome_iff_exists.1 ((h.mounted_one hb 1).2 rfl) with ⟨t', ht'⟩
    have hnone := hordinary rfl
    rw [h.entry, ht', hb] at hnone
    cases hnone
  rw [ht]
  exact h.assign hvalid (hfits t hvalid hsource) hmounted

/-- A call does to the mappers what it does to the tree. -/
lemma call (h : Represents w s) {c : Call} (hbuilds : w.Builds c) (hfits : c.Fits)
    (hrooted : w.Rooted c) :
    Represents (w.call c).1 (s.call c) := by
  rcases hbuilds with ⟨hok, hgrows⟩
  cases c with
  | assign a key url =>
    unfold World.call World.assign at hok ⊢
    dsimp only at hok ⊢
    split_ifs at hok ⊢ with hkey
    rcases hd : (w a).realAssign key url none with x | d
    · rw [hd] at hok
      cases hok
    · exact h.realAssign hfits hd
  | assignDefault a url =>
    unfold World.call World.assignDefault at hok ⊢
    dsimp only at hok ⊢
    rcases hd : (w a).realAssign [] url none with x | d
    · rw [hd] at hok
      cases hok
    · exact h.realAssign hfits hd
  | mount a root name url app =>
    unfold World.call World.mount at hok ⊢
    dsimp only at hok ⊢
    rcases hd : (w.hang a name app a).realAssign name url (some app) with x | d
    · rw [hd] at hok
      cases hok
    · rcases Mapper.realAssign_ok hfits hd with ⟨t, ht, rfl, hone, -⟩
      rcases Site.template_eq_some ht with ⟨hvalid, hsource⟩
      rcases hone rfl with ⟨hcount, hnew⟩
      have hkeys : (w.hang a name app a).byKey = (w a).byKey := by
        unfold World.hang World.set
        by_cases happ : a = app
        · rw [happ, Function.update_self]
        · rw [Function.update_of_ne happ]
      rw [hkeys] at hnew
      unfold Site.call
      dsimp only
      rw [ht]
      refine (h.mount hvalid (hfits t hvalid hsource) hcount hnew hgrows.1 hgrows.2).moveValues ?_
      have hup : (s app).up = none := by
        rw [h.up_eq, hgrows.1]
        rfl
      have hups : ∀ b, ((s.addTemplate a name t).addMount a name app b).up =
          if b = app then some (a, name) else (s b).up := fun _ => rfl
      have hne : a ≠ app := by
        rintro rfl
        have hone := hgrows.2 1
        rw [World.topmost, hgrows.1] at hone
        exact hone rfl
      unfold World.set World.rootMapper
      rw [Function.update_of_ne hne.symm, Function.update_self]
      unfold World.hang World.set
      rw [Function.update_self, Function.update_of_ne hne]
      refine hrooted.imp_right ?_
      rintro ⟨fuel, hfuel⟩
      have htop := h.topmost_of_eq hfuel
      have hroot : w.rootMapper a root ≠ app := fun heq => hgrows.2 fuel (heq ▸ hfuel)
      exact ⟨htop.of_ne hup hups hroot, hroot⟩
  | setValue a root key value =>
    rcases hrooted with ⟨fuel, hfuel⟩
    refine h.setValue (h.topmost_of_eq hfuel) fun k => ?_
    rw [SortedMap.find_insert]
    split_ifs <;> rfl
  | clearValue a root key =>
    rcases hrooted with ⟨fuel, hfuel⟩
    refine h.setValue (h.topmost_of_eq hfuel) fun k => ?_
    rw [SortedMap.find_erase]
    split_ifs <;> rfl
  | setRoot a r => exact h.setRoot a r

lemma init (throws : App → Bool) : Represents (World.init throws) Site.init where
  entry _ _ _ := rfl
  valid := by
    intro _ _ _ _ ht
    cases ht
  mounted_one := by
    intro _ _ _ hb
    cases hb
  up_eq _ := rfl
  root_eq _ := rfl
  values_eq _ := rfl
  up_one := by
    intro _ _ _ hup
    cases hup
  ends a := ⟨a, .top rfl⟩

end Represents

/-! ## Zeros -/

/-- The texts that can become a part of URLs have no zeros in them. -/
structure Clean (s : Site) : Prop where
  root : ∀ a, 0 ∉ (s a).root
  value : ∀ {a key value}, (s a).values key = some value → 0 ∉ value
  template : ∀ {a key n t}, (s a).templates key n = some t → 0 ∉ t.source

namespace Clean

variable {s : Site} {a app : App} {key url : Bytes}

lemma addTemplate (h : Clean s) (hurl : 0 ∉ url) (a : App) (key : Bytes) :
    Clean (((Site.template url).map (s.addTemplate a key)).getD s) := by
  rcases ht : Site.template url with _ | t
  · exact h
  · refine ⟨h.root, h.value, ?_⟩
    intro b k n t' ht'
    have ht' : (if b = a ∧ k = key ∧ n = t.count then some t else (s b).templates k n) = some t' :=
      ht'
    split_ifs at ht'
    · rw [← Option.some.inj ht', (Site.template_eq_some ht).2]
      exact hurl
    · exact h.template ht'

lemma setValue (h : Clean s) (a : App) (key : Bytes) {value : Option Bytes}
    (hvalue : ∀ v, value = some v → 0 ∉ v) :
    Clean (s.setValue a key value) where
  root := h.root
  value := by
    intro b k v hv
    unfold Site.setValue at hv
    dsimp only at hv
    split_ifs at hv
    · exact hvalue v hv
    · exact h.value hv
  template := h.template

lemma moveValues (h : Clean s) (a app : App) : Clean (s.moveValues a app) where
  root := h.root
  value := by
    intro b k v hv
    unfold Site.moveValues at hv
    dsimp only at hv
    split_ifs at hv
    · rcases happ : (s app).values k with _ | v'
      · rw [happ] at hv
        exact h.value hv
      · rw [happ] at hv
        exact h.value (happ.trans hv)
    · exact h.value hv
  template := h.template

/-- A call without zeros. -/
lemma call (h : Clean s) {c : Call} (htext : 0 ∉ c.text) : Clean (s.call c) := by
  cases c with
  | assign a key url => exact h.addTemplate htext a key
  | assignDefault a url => exact h.addTemplate htext a []
  | mount a root name url app =>
    have hadd := h.addTemplate htext a name
    have hmounted :
        Clean ((((Site.template url).map (s.addTemplate a name)).getD s).addMount a name app) :=
      ⟨hadd.root, hadd.value, hadd.template⟩
    exact hmounted.moveValues a app
  | setValue a root key value =>
    refine h.setValue a key fun v hv => ?_
    rw [← Option.some.inj hv]
    exact htext
  | clearValue a root key => exact h.setValue a key fun v hv => by cases hv
  | setRoot a r =>
    refine ⟨fun b => ?_, h.value, h.template⟩
    unfold Site.call Site.setRoot
    dsimp only
    split_ifs
    · exact htext
    · exact h.root b

lemma init : Clean Site.init where
  root _ := List.not_mem_nil
  value := by
    intro _ _ _ hvalue
    cases hvalue
  template := by
    intro _ _ _ _ ht
    cases ht

lemma zero_not_mem_lifted (h : Clean s) {values : Bytes → Option Bytes}
    (hvalues : ∀ key value, values key = some value → 0 ∉ value) {text : Bytes}
    (hlifted : s.Lifted values a text url) (htext : 0 ∉ text) : 0 ∉ url := by
  induction hlifted with
  | @top a text hup =>
    rw [List.mem_append, not_or]
    exact ⟨h.root a, htext⟩
  | @up a p name t text url hup ht hlifted ih =>
    refine ih (Template.zero_not_mem_expand (h.template ht) ?_ hvalues)
    intro p hp
    rwa [List.mem_singleton.1 hp]

/-- There are no zeros in a URL when there are none in what it is made of. -/
lemma zero_not_mem_url (h : Clean s) {params : List Bytes} (hparams : ∀ p ∈ params, 0 ∉ p)
    (hurl : s.HasUrl a key params url) : 0 ∉ url := by
  rcases hurl with ⟨top, dest, keywords, t, -, -, -, ht, hlifted⟩
  have hvalues : ∀ name value, Site.named keywords params (s top).values name = some value →
      0 ∉ value := by
    intro name value hvalue
    unfold Site.named at hvalue
    rcases hfind : (keywords.zip params).reverse.find? fun x => x.1 = name with _ | x
    · rw [hfind] at hvalue
      exact h.value hvalue
    · rw [hfind] at hvalue
      have hmem : x ∈ keywords.zip params := List.mem_reverse.1 (List.mem_of_find?_eq_some hfind)
      have hx : x.2 = value := Option.some.inj hvalue
      rw [← hx]
      exact hparams x.2 (List.of_mem_zip hmem).2
  refine h.zero_not_mem_lifted hvalues hlifted
    (Template.zero_not_mem_expand (h.template ht) ?_ hvalues)
  exact fun p hp => hparams p (List.mem_of_mem_drop hp)

end Clean

/-! ## Hierarchies -/

/-- The mappers behind calls. -/
def World.built (throws : App → Bool) (calls : List Call) : World :=
  calls.foldl (fun w c => (w.call c).1) (World.init throws)

/-- The tree behind calls. -/
noncomputable def Site.built (calls : List Call) : Site := calls.foldl Site.call Site.init

/-- The calls build a tree without an exception. -/
def BuildsTree (throws : App → Bool) (calls : List Call) : Prop :=
  Machine.Obeys (fun w c => (w.call c).1) World.Builds (World.init throws) calls

/-- Every value is written to the mapper of the topmost application. -/
def Rooted (throws : App → Bool) (calls : List Call) : Prop :=
  Machine.Obeys (fun w c => (w.call c).1) World.Rooted (World.init throws) calls

/-- `map` writes the URL for a key and parameters; or there is none, and it throws an exception and
writes nothing, or it writes the invalid URL only. -/
def MapsRight (w : World) (s : Site) (a : App) (key : Bytes) (params : List Bytes) : Prop :=
  ∃ bound,
    (∃ url, (∀ url', s.HasUrl a key params url' ↔ url' = url) ∧
      ∀ fuel ≥ bound, w.realMap fuel a key params = some (url, none)) ∨
    ((∀ url, ¬ s.HasUrl a key params url) ∧
      ∃ x, ∀ fuel ≥ bound,
        w.realMap fuel a key params =
          some (if (w a).throws then ([], some x) else (invalidUrl, none)))

lemma Represents.foldl {w : World} (h : Represents w s)
    (hbuilds : Machine.Obeys (fun w c => (w.call c).1) World.Builds w calls)
    (hfits : ∀ c ∈ calls, c.Fits)
    (hrooted : Machine.Obeys (fun w c => (w.call c).1) World.Rooted w calls) :
    Represents (calls.foldl (fun w c => (w.call c).1) w) (calls.foldl Site.call s) := by
  induction calls generalizing w s with
  | nil => exact h
  | cons c calls ih =>
    refine ih (h.call hbuilds.1 (hfits c List.mem_cons_self) hrooted.1) hbuilds.2 ?_ hrooted.2
    exact fun c' hc' => hfits c' (List.mem_cons_of_mem c hc')

lemma Clean.foldl (h : Clean s) (hcalls : ∀ c ∈ calls, 0 ∉ c.text) :
    Clean (calls.foldl Site.call s) := by
  induction calls generalizing s with
  | nil => exact h
  | cons c calls ih =>
    refine ih (h.call (hcalls c List.mem_cons_self)) ?_
    exact fun c' hc' => hcalls c' (List.mem_cons_of_mem c hc')

lemma takeWhile_of_zero_not_mem {text : Bytes} (h : 0 ∉ text) : text.takeWhile (· ≠ 0) = text := by
  refine List.takeWhile_eq_self_iff.2 fun c hc => ?_
  simpa using fun heq : c = 0 => h (heq ▸ hc)

/-- In every tree that is built without an exception, `map` writes the URL of the key and the
parameters, or it reports that there is none and writes nothing else; if the numbers in the
templates are numbers of an `int`, if the applications have the same root as their mappers, and if
the key has no zero in it, and neither has anything that can become a part of a URL, or exceptions
are on. -/
theorem mapsRight_of_buildsTree {throws : App → Bool} {calls : List Call}
    (hbuilds : BuildsTree throws calls) (hfits : ∀ c ∈ calls, c.Fits)
    (hrooted : Rooted throws calls) (a : App)
    (hzero : (World.built throws calls a).throws = true ∨ ∀ c ∈ calls, 0 ∉ c.text) (key : Bytes)
    (hkey : 0 ∉ key) (params : List Bytes) (hparams : ∀ p ∈ params, 0 ∉ p) :
    MapsRight (World.built throws calls) (Site.built calls) a key params := by
  have hrepresents : Represents (World.built throws calls) (Site.built calls) :=
    (Represents.init throws).foldl hbuilds hfits hrooted
  unfold MapsRight World.realMap finish
  rw [takeWhile_of_zero_not_mem hkey]
  rcases hrepresents.mapKey_eq a key params with ⟨bound, ⟨url, hurl, hmap⟩ | ⟨hnone, x, hmap⟩⟩
  · refine ⟨bound, Or.inl ⟨url, hurl, fun fuel hfuel => ?_⟩⟩
    rw [hmap fuel hfuel, Option.map_some]
    rcases hzero with hthrows | hclean
    · rw [if_pos hthrows]
    · have hfree : 0 ∉ url := (Clean.init.foldl hclean).zero_not_mem_url hparams ((hurl url).2 rfl)
      split_ifs
      · rfl
      · dsimp only
        rw [takeWhile_of_zero_not_mem hfree]
  · refine ⟨bound, Or.inr ⟨hnone, x, fun fuel hfuel => ?_⟩⟩
    rw [hmap fuel hfuel, Option.map_some]

lemma fitsUrl_of_length (h : url.length ≤ 11) : FitsUrl url := by
  rintro t hvalid rfl
  exact Template.fits_of_length hvalid h

/-- A wiki with a language is mounted on a site with a root. -/
def wiki : List Call :=
  [.setRoot 0 (bytes "/app"), .assign 1 (bytes "page") (bytes "/page/\x7b1\x7d"),
   .setValue 1 1 (bytes "lang") (bytes "/en"),
   .mount 0 0 (bytes "wiki") (bytes "/w\x7blang\x7d\x7b1\x7d") 1]

lemma buildsTree_wiki (throws : App → Bool) : BuildsTree throws wiki := by
  refine ⟨⟨rfl, trivial⟩, ⟨?_, trivial⟩, ⟨rfl, trivial⟩, ⟨?_, ?_, ?_⟩, trivial⟩
  · rfl
  · rfl
  · rfl
  · intro fuel
    rcases fuel with _ | fuel
    · intro h
      cases h
    · intro h
      cases h

lemma fits_wiki : ∀ c ∈ wiki, c.Fits := by
  intro c hc
  fin_cases hc
  · trivial
  · exact fitsUrl_of_length (by decide)
  · trivial
  · exact fitsUrl_of_length (by decide)

lemma rooted_wiki (throws : App → Bool) : Rooted throws wiki :=
  ⟨trivial, trivial, ⟨1, rfl⟩, .inr ⟨1, rfl⟩, trivial⟩

/-- A page of the wiki, from its own mapper. -/
theorem mapsRight_wiki :
    MapsRight (World.built (fun _ => false) wiki) (Site.built wiki) 1 (bytes "page") [bytes "7"] ∧
      (World.built (fun _ => false) wiki).realMap 2 1 (bytes "page") [bytes "7"] =
        some (bytes "/app/w/en/page/7", none) := by
  refine ⟨mapsRight_of_buildsTree (buildsTree_wiki _) fits_wiki (rooted_wiki _) 1
    (Or.inr ?_) _ ?_ _ ?_, by decide⟩
  · decide
  · decide
  · decide

/-- A template with a zero in it. -/
def cutShort : List Call := [.assign 0 (bytes "k") [Ch.slash, 0x61, 0, 0x62]]

/-- Without exceptions, a URL is written up to its first zero only. -/
theorem not_forall_mapsRight :
    ¬ ∀ (throws : App → Bool) (calls : List Call) (a : App) (key : Bytes) (params : List Bytes),
      BuildsTree throws calls → (∀ p ∈ params, 0 ∉ p) →
        MapsRight (World.built throws calls) (Site.built calls) a key params := by
  intro hall
  have hbuilds : BuildsTree (fun _ => false) cutShort := ⟨⟨rfl, trivial⟩, trivial⟩
  have hfits : ∀ c ∈ cutShort, c.Fits := by
    intro c hc
    rw [List.mem_singleton.1 hc]
    exact fitsUrl_of_length (by decide)
  have hmaps := hall (fun _ => false) cutShort 0 (bytes "k") [] hbuilds fun p hp =>
    absurd hp List.not_mem_nil
  have hrepresents : Represents (World.built (fun _ => false) cutShort) (Site.built cutShort) :=
    (Represents.init _).foldl hbuilds hfits ⟨trivial, trivial⟩
  rcases hmaps with ⟨bound, hcases⟩
  -- what is written in the buffer is the URL, and what is written from there is not
  rcases hrepresents.mapKey_eq 0 (bytes "k") [] with ⟨bound', ⟨url, hurl, hmap⟩ | ⟨hnone, x, hmap⟩⟩
  · have hbuffer := hmap (bound' + 1) (by omega)
    have hbuffer' : (World.built (fun _ => false) cutShort).mapKey (bound' + 1) 0 (bytes "k") [] =
        some ([Ch.slash, 0x61, 0, 0x62], none) := rfl
    rcases hcases with ⟨url', hurl', hreal⟩ | ⟨hnone, -⟩
    · have hsame : url = url' := (hurl' url).1 ((hurl url).2 rfl)
      have hwritten := hreal (bound + 1) (by omega)
      have hwritten' : (World.built (fun _ => false) cutShort).realMap (bound + 1) 0
        (bytes "k") [] =
          some ([Ch.slash, 0x61], none) := rfl
      rw [hwritten'] at hwritten
      rw [hbuffer', hsame, ← hwritten] at hbuffer
      exact absurd hbuffer (by decide)
    · exact hnone url ((hurl url).2 rfl)
  · have hbuffer := hmap (bound' + 1) (by omega)
    have hbuffer' : (World.built (fun _ => false) cutShort).mapKey (bound' + 1) 0 (bytes "k") [] =
        some ([Ch.slash, 0x61, 0, 0x62], none) := rfl
    rw [hbuffer'] at hbuffer
    cases hbuffer

end Url

end Cppcms
