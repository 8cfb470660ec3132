import Cppcms.Url.Template

/-!
# URLs in a hierarchy of applications

What is assigned and mounted makes a tree (`Site`), in which a key is a path, and a URL is the
template at its end, which is put in place of the parameter of every template on the way up to the
root.  When the mappers have what is in the tree, `real_map` writes the URL, or it fails when there
is none.
-/

namespace Cppcms

namespace Url

/-! ## Trees of applications -/

/-- What is known of an application: its templates for a key and a number of parameters, the
applications that are mounted on it, the application that it is mounted on itself, with its name
there, and its root.  The values of a topmost application are those of all applications below it. -/
structure Node where
  templates : Bytes → ℕ → Option Template
  mounted : Bytes → Option App
  up : Option (App × Bytes)
  root : Bytes
  values : Bytes → Option Bytes

abbrev Site := App → Node

namespace Site

def init : Site := fun _ => ⟨fun _ _ => none, fun _ => none, none, [], fun _ => none⟩

/-- A template comes in place of one with the same key and the same number of parameters. -/
def addTemplate (s : Site) (a : App) (key : Bytes) (t : Template) : Site := fun b =>
  { s b with templates := fun k n => if b = a ∧ k = key ∧
    n = t.count then some t else (s b).templates k n }

/-- An application is mounted. -/
def addMount (s : Site) (a : App) (name : Bytes) (app : App) : Site := fun b =>
  { s b with
    mounted := fun k => if b = a ∧ k = name then some app else (s b).mounted k
    up := if b = app then some (a, name) else (s b).up }

/-- The application at the top. -/
inductive Topmost (s : Site) : App → App → Prop
  | top {a} : (s a).up = none → Topmost s a a
  | up {a p top name} : (s a).up = some (p, name) → Topmost s p top → Topmost s a top

section Values

open Classical

/-- A value is set for all applications of a tree, or it is cleared. -/
noncomputable def setValue (s : Site) (a : App) (key : Bytes) (value : Option Bytes) : Site :=
  fun b =>
  { s b with values := fun k => if s.Topmost a b ∧ k = key then value else (s b).values k }

/-- The values of a tree become values of the tree that it is mounted on, in place of values with
the same names. -/
noncomputable def moveValues (s : Site) (a app : App) : Site := fun b =>
  { s b with values := fun k =>
      if b = app then none
      else if s.Topmost a b then ((s app).values k).orElse fun _ => (s b).values k
      else (s b).values k }

/-- The template with a source. -/
noncomputable def template (url : Bytes) : Option Template :=
  if h : ∃ t : Template, t.Valid ∧ t.source = url then some h.choose else none

end Values

def setRoot (s : Site) (a : App) (r : Bytes) : Site := fun b =>
  { s b with root := if b = a then r else (s b).root }

/-- What a call does to the tree. -/
noncomputable def call (s : Site) : Call → Site
  | .assign a key url => ((template url).map (s.addTemplate a key)).getD s
  | .assignDefault a url => ((template url).map (s.addTemplate a [])).getD s
  | .mount a _ name url app =>
    ((((template url).map (s.addTemplate a name)).getD s).addMount a name app).moveValues a app
  | .setValue a _ key value => s.setValue a key (some value)
  | .clearValue a _ key => s.setValue a key none
  | .setRoot a r => s.setRoot a r

/-- A URL of an application is a part of URLs of the applications above: it is put in place of the
parameter of the templates that the applications are mounted with, and the root of the topmost one
is put in front. -/
inductive Lifted (s : Site) (values : Bytes → Option Bytes) : App → Bytes → Bytes → Prop
  | top {a text} : (s a).up = none → Lifted s values a text ((s a).root ++ text)
  | up {a p name t text url} : (s a).up = some (p, name) → (s p).templates name 1 = some t →
      Lifted s values p (t.expand [text] values) url → Lifted s values a text url

/-- A step of a path. -/
def goTo (s : Site) (a : App) (name : Bytes) : Option App :=
  if name = [Ch.dot] then some a
  else if name = [Ch.dot, Ch.dot] then (s a).up.map Prod.fst
  else (s a).mounted name

/-- The end of a path: an application and a key of it.  The name of an application stands for its
default URL. -/
def goToKey (s : Site) (a : App) (key : Bytes) : Option (App × Bytes) :=
  if key = [Ch.dot] then some (((s a).mounted []).getD a, [])
  else if key = [Ch.dot, Ch.dot] then (s a).up.map fun p => (((s p.1).mounted []).getD p.1, [])
  else some (((s a).mounted key).elim (a, key) (·, []))

/-- A path from an application, with the keywords at its end. -/
def Path (s : Site) (a : App) (path : List Bytes) (dest : App × Bytes) (keywords : List Bytes) :
    Prop :=
  ∃ (names : List Bytes) (last : Bytes) (b : App), path = names ++ [last] ∧
    names.foldlM s.goTo a = some b ∧
    s.goToKey b (World.splitKeywords last).1 = some dest ∧ (World.splitKeywords last).2 = keywords

/-- The application and the key that a path stands for: from the application itself, or from the
topmost one. -/
def Resolves (s : Site) (a : App) (key : Bytes) (dest : App × Bytes) (keywords : List Bytes) :
    Prop :=
  match key with
  | [] => dest = (a, []) ∧ keywords = []
  | c :: rest =>
    if c = Ch.slash then ∃ top, s.Topmost a top ∧ s.Path top (rest.splitOn Ch.slash) dest keywords
    else s.Path a (key.splitOn Ch.slash) dest keywords

/-- The value of a name: the parameter of the last keyword that is this name, or the value that was
set. -/
def named (keywords params : List Bytes) (values : Bytes → Option Bytes) (name : Bytes) :
    Option Bytes :=
  (((keywords.zip params).reverse.find? fun x => x.1 = name).map Prod.snd).orElse fun _ =>
    values name

/-- The URL for a path and parameters, of which the first ones are those of the keywords. -/
def HasUrl (s : Site) (a : App) (key : Bytes) (params : List Bytes) (url : Bytes) : Prop :=
  ∃ (top : App) (dest : App × Bytes) (keywords : List Bytes) (t : Template), s.Topmost a top ∧
    s.Resolves a key dest keywords ∧ keywords.length ≤ params.length ∧
    (s dest.1).templates dest.2 (params.length - keywords.length) = some t ∧
    s.Lifted (named keywords params (s top).values) dest.1
      (t.expand (params.drop keywords.length) (named keywords params (s top).values)) url

end Site

/-! ## The mappers and the tree -/

/-- The mappers have what is in the tree, and the templates of the tree are as they should be. -/
structure Represents (w : World) (s : Site) : Prop where
  entry : ∀ a key n, (((w a).byKey.find key).bind fun m => m.find n) =
    ((s a).templates key n).map fun t => t.entry ((s a).mounted key)
  valid : ∀ {a key n t}, (s a).templates key n = some t → t.Valid ∧ t.Fits ∧ t.count = n
  mounted_one : ∀ {a name b}, (s a).mounted name = some b → ∀ n, ((s a).templates name n).isSome ↔
    n = 1
  up_eq : ∀ a, (s a).up = (w a).parent.map (·, (w a).thisName)
  root_eq : ∀ a, (s a).root = (w a).root
  values_eq : ∀ a, (s a).values = (w a).helpers.find
  up_one : ∀ {a p name}, (s a).up = some (p, name) → ∃ t, (s p).templates name 1 = some t
  ends : ∀ a, ∃ top, s.Topmost a top

namespace Represents

variable {w : World} {s : Site} {a : App} {key name : Bytes} {n : ℕ}

lemma parent_of_up_none (h : Represents w s) (hup : (s a).up = none) : (w a).parent = none := by
  rw [h.up_eq] at hup
  exact Option.map_eq_none_iff.1 hup

lemma parent_of_up_some (h : Represents w s) {p : App} (hup : (s a).up = some (p, name)) :
    (w a).parent = some p ∧ (w a).thisName = name := by
  rw [h.up_eq] at hup
  rcases Option.map_eq_some_iff.1 hup with ⟨q, hq, heq⟩
  rcases Prod.mk.inj heq with ⟨rfl, hname⟩
  exact ⟨hq, hname⟩

variable {top : App}

/-- The end of the way that is followed is the top. -/
lemma topmost_of_eq (h : Represents w s) {fuel : ℕ} (htop : w.topmost fuel a = some top) :
    s.Topmost a top := by
  induction fuel generalizing a with
  | zero => cases htop
  | succ fuel ih =>
    rw [World.topmost] at htop
    rcases hparent : (w a).parent with _ | p
    · rw [hparent] at htop
      rw [← Option.some.inj htop]
      exact .top (by rw [h.up_eq, hparent, Option.map_none])
    · rw [hparent] at htop
      exact .up (by rw [h.up_eq, hparent, Option.map_some]) (ih htop)

/-- The way to the top is followed in so many steps. -/
lemma topmost_eq (h : Represents w s) (htop : s.Topmost a top) :
    ∃ bound, ∀ fuel ≥ bound, w.topmost fuel a = some top := by
  induction htop with
  | @top a hup =>
    refine ⟨1, fun fuel hfuel => ?_⟩
    rcases fuel with _ | fuel
    · omega
    · rw [World.topmost, h.parent_of_up_none hup]
  | @up a p top name hup _ ih =>
    rcases ih with ⟨bound, hbound⟩
    refine ⟨bound + 1, fun fuel hfuel => ?_⟩
    rcases fuel with _ | fuel
    · omega
    · rw [World.topmost, (h.parent_of_up_some hup).1]
      exact hbound fuel (by omega)

lemma getEntry_of_template (h : Represents w s) {t : Template} (ht : (s a).templates key n = some t)
    (url : Bytes) :
    (w a).getEntry key n url = .ok (t.entry ((s a).mounted key)) := by
  have hentry := h.entry a key n
  rw [ht] at hentry
  rcases Option.bind_eq_some_iff.1 hentry with ⟨m, hm, he⟩
  unfold Mapper.getEntry
  rw [hm]
  dsimp only
  rw [he]

lemma getEntry_of_none (h : Represents w s) (ht : (s a).templates key n = none) (url : Bytes) :
    ∃ x, (w a).getEntry key n url = .error x := by
  have hentry := h.entry a key n
  rw [ht] at hentry
  unfold Mapper.getEntry
  rcases hm : (w a).byKey.find key with _ | m
  · exact ⟨_, rfl⟩
  · rw [hm] at hentry
    have hnone : m.find n = none := hentry
    dsimp only
    rw [hnone]
    exact ⟨_, rfl⟩

lemma child_of_mounted (h : Represents w s) {b : App} (hb : (s a).mounted name = some b)
    (url : Bytes) :
    (w a).child name url = .ok b := by
  rcases Option.isSome_iff_exists.1 ((h.mounted_one hb 1).2 rfl) with ⟨t, ht⟩
  unfold Mapper.child
  rw [h.getEntry_of_template ht, hb]
  rfl

lemma child_of_not_mounted (h : Represents w s) (hnone : (s a).mounted name = none) (url : Bytes) :
    ∃ x, (w a).child name url = .error x := by
  unfold Mapper.child
  rcases ht : (s a).templates name 1 with _ | t
  · rcases h.getEntry_of_none ht url with ⟨x, hx⟩
    rw [hx]
    exact ⟨x, rfl⟩
  · rw [h.getEntry_of_template ht, hnone]
    exact ⟨_, rfl⟩

/-- The first template of a key shows whether an application is mounted there. -/
lemma isApp_eq (h : Represents w s) (a : App) (key : Bytes) :
    (w a).isApp key = (s a).mounted key := by
  unfold Mapper.isApp
  rcases hm : (w a).byKey.find key with _ | m
  · rcases hmounted : (s a).mounted key with _ | b
    · rfl
    · have hentry := h.entry a key 1
      rcases Option.isSome_iff_exists.1 ((h.mounted_one hmounted 1).2 rfl) with ⟨t, ht⟩
      rw [hm, ht] at hentry
      cases hentry
  · rcases hlist : m.toList with _ | ⟨⟨k, e⟩, l⟩
    · rcases hmounted : (s a).mounted key with _ | b
      · rw [Option.bind_some, hlist]
        rfl
      · have hentry := h.entry a key 1
        rcases Option.isSome_iff_exists.1 ((h.mounted_one hmounted 1).2 rfl) with ⟨t, ht⟩
        rw [hm, ht] at hentry
        have hmem := SortedMap.find_eq_some.1 hentry
        rw [hlist] at hmem
        exact absurd hmem List.not_mem_nil
    · have hfind : m.find k = some e := SortedMap.find_eq_some.2 (hlist ▸ List.mem_cons_self)
      have hentry := h.entry a key k
      rw [hm, Option.bind_some, hfind] at hentry
      rcases Option.map_eq_some_iff.1 hentry.symm with ⟨t, -, he⟩
      rw [Option.bind_some, hlist, List.head?_cons, Option.bind_some, ← he]
      rfl

end Represents

/-! ## Paths -/

namespace Site

variable {s : Site}

lemma Topmost.unique {a top top' : App} (h : s.Topmost a top) (h' : s.Topmost a top') :
    top = top' := by
  induction h with
  | @top a hup =>
    cases h' with
    | top _ => rfl
    | up hup' _ =>
      rw [hup] at hup'
      cases hup'
  | @up a p top name hup _ ih =>
    cases h' with
    | top hup' =>
      rw [hup] at hup'
      cases hup'
    | up hup' htop =>
      rw [hup] at hup'
      cases hup'
      exact ih htop

/-- The end of a path, when there is one. -/
def walk (s : Site) (a : App) (names : List Bytes) (last : Bytes) : Option (App × Bytes) :=
  (names.foldlM s.goTo a).bind fun b => s.goToKey b (World.splitKeywords last).1

lemma path_iff {a : App} {names : List Bytes} {last : Bytes} {dest : App × Bytes}
    {keywords : List Bytes} :
    s.Path a (names ++ [last]) dest keywords ↔
      s.walk a names last = some dest ∧ (World.splitKeywords last).2 = keywords := by
  unfold Path walk
  constructor
  · rintro ⟨names', last', b, hpath, hb, hdest, hkeywords⟩
    rcases List.append_inj' hpath rfl with ⟨rfl, hlast⟩
    rw [List.cons.inj hlast |>.1, hb]
    exact ⟨hdest, hkeywords⟩
  · rintro ⟨hwalk, hkeywords⟩
    rcases Option.bind_eq_some_iff.1 hwalk with ⟨b, hb, hdest⟩
    exact ⟨names, last, b, rfl, hb, hdest, hkeywords⟩

end Site

namespace Represents

variable {w : World} {s : Site}

lemma lastMapper_eq (h : Represents w s) (a : App) (key : Bytes) :
    (∃ dest, s.goToKey a key = some dest ∧ w.lastMapper a key = .ok dest) ∨
      (s.goToKey a key = none ∧ ∃ x, w.lastMapper a key = .error x) := by
  unfold Site.goToKey World.lastMapper
  split_ifs with hdot hdots
  · left
    rw [h.isApp_eq]
    exact ⟨_, rfl, rfl⟩
  · rw [h.up_eq]
    rcases (w a).parent with _ | p
    · exact Or.inr ⟨rfl, _, rfl⟩
    · left
      dsimp only
      rw [h.isApp_eq]
      exact ⟨_, rfl, rfl⟩
  · left
    rw [h.isApp_eq]
    rcases (s a).mounted key with _ | b
    · exact ⟨_, rfl, rfl⟩
    · exact ⟨_, rfl, rfl⟩

/-- A step of the loop. -/
lemma mapperForPath_cons (h : Represents w s) (url : Bytes) (a : App) (name : Bytes)
    {path : List Bytes} (hpath : path ≠ []) :
    (∃ b, s.goTo a name = some b ∧
      w.mapperForPath url a (name :: path) = w.mapperForPath url b path) ∨
      (s.goTo a name = none ∧ ∃ x, w.mapperForPath url a (name :: path) = .error x) := by
  rcases path with _ | ⟨y, path⟩
  · exact absurd rfl hpath
  · rw [World.mapperForPath]
    · unfold Site.goTo
      split_ifs with hdot hdots
      · exact Or.inl ⟨a, rfl, rfl⟩
      · rw [h.up_eq]
        rcases (w a).parent with _ | p
        · exact Or.inr ⟨rfl, _, rfl⟩
        · exact Or.inl ⟨p, rfl, rfl⟩
      · rcases hmounted : (s a).mounted name with _ | b
        · right
          rcases h.child_of_not_mounted hmounted url with ⟨x, hx⟩
          rw [hx]
          exact ⟨rfl, x, rfl⟩
        · left
          rw [h.child_of_mounted hmounted]
          exact ⟨b, rfl, rfl⟩
    · intro hnil
      cases hnil

/-- The loop comes to the end of the path, or it fails when there is none. -/
lemma mapperForPath_eq (h : Represents w s) (url : Bytes) (last : Bytes) (names : List Bytes)
    (a : App) :
    (∃ dest, s.walk a names last = some dest ∧
        w.mapperForPath url a (names ++ [last]) = .ok (dest, (World.splitKeywords last).2)) ∨
      (s.walk a names last = none ∧ ∃ x, w.mapperForPath url a (names ++ [last]) = .error x) := by
  induction names generalizing a with
  | nil =>
    rw [List.nil_append, World.mapperForPath]
    rcases h.lastMapper_eq a (World.splitKeywords last).1 with ⟨dest, hdest, hlast⟩ |
      ⟨hnone, x, hlast⟩
    · rw [hlast]
      exact Or.inl ⟨dest, hdest, rfl⟩
    · rw [hlast]
      exact Or.inr ⟨hnone, x, rfl⟩
  | cons name names ih =>
    have hne : names ++ [last] ≠ [] := List.append_ne_nil_of_right_ne_nil _ (List.cons_ne_nil _ _)
    rw [List.cons_append]
    unfold Site.walk
    rw [List.foldlM_cons]
    rcases h.mapperForPath_cons url a name hne with ⟨b, hb, hstep⟩ | ⟨hnone, x, hx⟩
    · rw [hb, hstep]
      exact ih b
    · rw [hnone, hx]
      exact Or.inr ⟨rfl, x, rfl⟩

/-- The same for what the slashes of a key separate. -/
lemma mapperForPath_splitOn (h : Represents w s) (url key : Bytes) (a : App) :
    (∃ dest keywords, (∀ dest' keywords', s.Path a (key.splitOn Ch.slash) dest' keywords' ↔
          dest' = dest ∧ keywords' = keywords) ∧
        w.mapperForPath url a (key.splitOn Ch.slash) = .ok (dest, keywords)) ∨
      ((∀ dest keywords, ¬ s.Path a (key.splitOn Ch.slash) dest keywords) ∧
        ∃ x, w.mapperForPath url a (key.splitOn Ch.slash) = .error x) := by
  have hne : key.splitOn Ch.slash ≠ [] := List.splitOn_ne_nil _ _
  rw [← List.dropLast_append_getLast hne]
  rcases h.mapperForPath_eq url (List.getLast _ hne) (key.splitOn Ch.slash).dropLast a with
    ⟨dest, hwalk, hok⟩ | ⟨hwalk, hx⟩
  · refine Or.inl ⟨dest, _, fun dest' keywords' => ?_, hok⟩
    rw [Site.path_iff, hwalk]
    constructor
    · rintro ⟨hdest, hkeywords⟩
      exact ⟨(Option.some.inj hdest).symm, hkeywords.symm⟩
    · rintro ⟨rfl, rfl⟩
      exact ⟨rfl, rfl⟩
  · refine Or.inr ⟨fun dest keywords hpath => ?_, hx⟩
    rw [Site.path_iff, hwalk] at hpath
    cases hpath.1

/-- `get_mapper_for_key` finds what the key stands for, or it fails when it stands for nothing. -/
lemma getMapperForKey_eq (h : Represents w s) (a : App) (key : Bytes) :
    ∃ bound, (∃ dest keywords, (∀ dest' keywords', s.Resolves a key dest' keywords' ↔
          dest' = dest ∧ keywords' = keywords) ∧
        ∀ fuel ≥ bound, w.getMapperForKey fuel a key = some (.ok (dest, keywords))) ∨
      ((∀ dest keywords, ¬ s.Resolves a key dest keywords) ∧
        ∃ x, ∀ fuel ≥ bound, w.getMapperForKey fuel a key = some (.error x)) := by
  unfold Site.Resolves World.getMapperForKey
  rcases key with _ | ⟨c, rest⟩
  · exact ⟨0, Or.inl ⟨(a, []), [], fun _ _ => Iff.rfl, fun _ _ => rfl⟩⟩
  · dsimp only
    by_cases hslash : c = Ch.slash
    · simp only [if_pos hslash]
      rcases h.ends a with ⟨top, htop⟩
      rcases h.topmost_eq htop with ⟨bound, hbound⟩
      have hpath : ∀ dest keywords,
        (∃ top', s.Topmost a top' ∧ s.Path top' (rest.splitOn Ch.slash) dest keywords) ↔
          s.Path top (rest.splitOn Ch.slash) dest keywords := by
        intro dest keywords
        constructor
        · rintro ⟨top', htop', hp⟩
          rwa [htop.unique htop']
        · exact fun hp => ⟨top, htop, hp⟩
      simp only [hpath]
      refine ⟨bound, ?_⟩
      rcases h.mapperForPath_splitOn (c :: rest) rest top with ⟨dest, keywords, hiff, hok⟩ |
        ⟨hnone, x, hx⟩
      · refine Or.inl ⟨dest, keywords, hiff, fun fuel hfuel => ?_⟩
        rw [hbound fuel hfuel, Option.map_some, hok]
      · refine Or.inr ⟨hnone, x, fun fuel hfuel => ?_⟩
        rw [hbound fuel hfuel, Option.map_some, hx]
    · simp only [if_neg hslash]
      refine ⟨0, ?_⟩
      rcases h.mapperForPath_splitOn (c :: rest) (c :: rest) a with ⟨dest, keywords, hiff, hok⟩ |
        ⟨hnone, x, hx⟩
      · exact Or.inl ⟨dest, keywords, hiff, fun _ _ => congrArg some hok⟩
      · exact Or.inr ⟨hnone, x, fun _ _ => congrArg some hx⟩

end Represents

/-! ## URLs -/

lemma Site.Lifted.unique {s : Site} {values : Bytes → Option Bytes} {a : App}
    {text url url' : Bytes} (h : s.Lifted values a text url) (h' : s.Lifted values a text url') :
    url = url' := by
  induction h with
  | top hup =>
    cases h' with
    | top _ => rfl
    | up hup' _ _ =>
      rw [hup] at hup'
      cases hup'
  | up hup ht _ ih =>
    cases h' with
    | top hup' =>
      rw [hup] at hup'
      cases hup'
    | up hup' ht' hlifted =>
      rw [hup] at hup'
      cases hup'
      rw [ht] at ht'
      cases ht'
      exact ih hlifted

/-- The map of keywords has the last value of each. -/
lemma find_keywords (l : List (Bytes × Bytes)) (key : Bytes) :
    (l.foldl (fun (m : Helpers) x => m.insert x.1 x.2) ∅).find key =
      (l.reverse.find? fun x => x.1 = key).map Prod.snd := by
  induction l using List.reverseRecOn with
  | nil => rfl
  | append_singleton l x ih =>
    rw [List.foldl_append, List.foldl_cons, List.foldl_nil, SortedMap.find_insert,
      List.reverse_append, List.reverse_singleton, List.singleton_append, List.find?_cons]
    by_cases hx : key = x.1
    · rw [if_pos hx, decide_eq_true hx.symm]
      rfl
    · rw [if_neg hx, decide_eq_false (fun heq => hx heq.symm)]
      exact ih

lemma valueOf_eq_named (dflt : Helpers) (keywords params : List Bytes) :
    valueOf dflt ((keywords.zip params).foldl (fun (m : Helpers) x => m.insert x.1 x.2) ∅) =
      Site.named keywords params dflt.find := by
  funext key
  unfold valueOf Site.named
  rw [find_keywords]

namespace Represents

variable {w : World} {s : Site} {a : App}

/-- The URL of an application is lifted to the top. -/
lemma map_eq (h : Represents w s) (full : Bytes) (dflt override : Helpers) {top : App}
    (htop : s.Topmost a top) {key : Bytes} {params : List Writing} {e : Entry} {text : Bytes}
    (hentry : (w a).getEntry key params.length full = .ok e)
    (htext : e.write params dflt override = (text, none)) :
    ∃ url bound, s.Lifted (valueOf dflt override) a text url ∧
      ∀ fuel ≥ bound, w.map full dflt override fuel a key params = some (url, none) := by
  induction htop generalizing key params e text with
  | @top a hup =>
    refine ⟨(s a).root ++ text, 1, .top hup, fun fuel hfuel => ?_⟩
    rcases fuel with _ | fuel
    · omega
    · rw [World.map, hentry]
      dsimp only
      rw [h.parent_of_up_none hup]
      dsimp only
      rw [htext, h.root_eq]
      rfl
  | @up a p top name hup _ ih =>
    rcases h.parent_of_up_some hup with ⟨hparent, hname⟩
    rcases h.up_one hup with ⟨t, ht⟩
    rcases h.valid ht with ⟨hvalid, -, hcount⟩
    have hwrite : (t.entry ((s p).mounted name)).write [(text, none)] dflt override =
        (t.expand [text] (valueOf dflt override), none) :=
      Template.write_entry hvalid [text] (show 1 < 2 ^ 64 by decide) hcount.le _ dflt override
    have hentry' : (w p).getEntry name [((text, none) : Writing)].length full =
        .ok (t.entry ((s p).mounted name)) :=
      h.getEntry_of_template ht full
    rcases ih hentry' hwrite with ⟨url, bound, hlifted, hbound⟩
    refine ⟨url, bound + 1, .up hup ht hlifted, fun fuel hfuel => ?_⟩
    rcases fuel with _ | fuel
    · omega
    · rw [World.map, hentry]
      dsimp only
      rw [hparent]
      dsimp only
      rw [hname, htext]
      exact hbound fuel (by omega)

/-- `real_map` inside of its `try`: there is one URL and it is written, or there is none and nothing
is written. -/
lemma mapKey_eq (h : Represents w s) (a : App) (key : Bytes) (params : List Bytes) :
    ∃ bound,
      (∃ url, (∀ url', s.HasUrl a key params url' ↔ url' = url) ∧
        ∀ fuel ≥ bound, w.mapKey fuel a key params = some (url, none)) ∨
      ((∀ url, ¬ s.HasUrl a key params url) ∧
        ∃ x, ∀ fuel ≥ bound, w.mapKey fuel a key params = some ([], some x)) := by
  rcases h.ends a with ⟨top, htop⟩
  rcases h.getMapperForKey_eq a key with
    ⟨bound, ⟨⟨mp, realKey⟩, keywords, hiff, hget⟩ | ⟨hnone, x, hget⟩⟩
  · by_cases hlength : params.length < keywords.length
    · refine ⟨bound, Or.inr ⟨?_, .tooManyKeywords, fun fuel hfuel => ?_⟩⟩
      · rintro url ⟨top', dest, keywords', t, -, hresolves, hle, -⟩
        rw [((hiff _ _).1 hresolves).2] at hle
        omega
      · unfold World.mapKey
        rw [hget fuel hfuel]
        dsimp only
        rw [if_pos hlength]
    · rcases h.topmost_eq htop with ⟨bound', hbound'⟩
      have hcode : ∀ fuel ≥ max bound bound', w.mapKey fuel a key params =
          w.map key (w top).helpers
            ((keywords.zip params).foldl (fun m x => m.insert x.1 x.2) ∅) fuel mp realKey
            ((params.drop keywords.length).map (·, none)) := by
        intro fuel hfuel
        unfold World.mapKey
        rw [hget fuel (le_of_max_le_left hfuel)]
        dsimp only
        rw [if_neg hlength, hbound' fuel (le_of_max_le_right hfuel)]
        rfl
      have hparams : ((params.drop keywords.length).map fun p => ((p, none) : Writing)).length =
          params.length - keywords.length := by
        rw [List.length_map, List.length_drop]
      rcases ht : (s mp).templates realKey (params.length - keywords.length) with _ | t
      · rcases h.getEntry_of_none ht key with ⟨x, hx⟩
        refine ⟨max bound bound' + 1, Or.inr ⟨?_, x, fun fuel hfuel => ?_⟩⟩
        · rintro url ⟨top', dest, keywords', t, -, hresolves, -, ht', -⟩
          rcases (hiff _ _).1 hresolves with ⟨rfl, rfl⟩
          rw [ht] at ht'
          cases ht'
        · rw [hcode fuel (by omega)]
          rcases fuel with _ | fuel
          · omega
          · rw [World.map, hparams, hx]
      · rcases h.valid ht with ⟨hvalid, hfits, hcount⟩
        rcases h.ends mp with ⟨top', htop'⟩
        have hsmall := hfits.count_lt
        have hdrop : (params.drop keywords.length).length = params.length - keywords.length :=
          List.length_drop
        have hwrite := Template.write_entry hvalid (params.drop keywords.length)
          (by omega) (by omega)
          ((s mp).mounted realKey) (w top).helpers
            ((keywords.zip params).foldl (fun m x => m.insert x.1 x.2) ∅)
        have hentry := h.getEntry_of_template ht key
        rw [← hparams] at hentry
        rcases h.map_eq key _ _ htop' hentry hwrite with ⟨url, bound'', hlifted, hmap⟩
        rw [valueOf_eq_named, ← h.values_eq] at hlifted
        refine ⟨max bound (max bound' bound''), Or.inl ⟨url, fun url' => ?_, fun fuel hfuel => ?_⟩⟩
        · constructor
          · rintro ⟨top'', dest, keywords', t', htop'', hresolves, -, ht', hlifted'⟩
            rcases (hiff _ _).1 hresolves with ⟨rfl, rfl⟩
            rw [ht] at ht'
            cases ht'
            rw [htop''.unique htop] at hlifted'
            exact hlifted'.unique hlifted
          · rintro rfl
            exact ⟨top, (mp, realKey), keywords, t, htop,
              (hiff _ _).2 ⟨rfl, rfl⟩, by omega, ht, hlifted⟩
        · rw [hcode fuel (by omega)]
          exact hmap fuel (by omega)
  · refine ⟨bound, Or.inr ⟨?_, x, fun fuel hfuel => ?_⟩⟩
    · rintro url ⟨top', dest, keywords, t, -, hresolves, -⟩
      exact hnone dest keywords hresolves
    · unfold World.mapKey
      rw [hget fuel hfuel]

end Represents

end Url

end Cppcms
