import Cppcms.Http.Cookie

/-!
# The header of a client

A `Cookie` header is made of pairs of a key and a value, and the pairs whose keys start with a
dollar sign are attributes of the cookie before them.  `read_key_value` reads the pairs one after
the other, while `parse_cookies` asks for a cookie without a name before it takes an attribute, so
that no attribute gets to its cookie.
-/

namespace Cppcms

namespace Http

open Protocol

/-! ## Items of a header -/

/-- A value as it stands in a header: a token, or a quoted string.  A text of the environment has no
NUL. -/
structure Shown where
  value : Bytes
  text : Bytes
  reads : ((∀ c ∈ text, isTocken c) ∧ value = text) ∨ (unquote text = some (value, []) ∧ 0 ∉ text)

/-- A semicolon or a comma with blanks around it. -/
structure Separator where
  before : Bytes
  period : UInt8
  behind : Bytes
  blankBefore : ∀ c ∈ before, c = Ch.space ∨ c = Ch.tab
  isPeriod : isPeriod period
  blankBehind : ∀ c ∈ behind, c = Ch.space ∨ c = Ch.tab

def Separator.text (s : Separator) : Bytes := s.before ++ s.period :: s.behind

/-- A value, and the separator behind it if something follows. -/
structure Item where
  shown : Shown
  separator : Separator

/-- The text of items with their keys. -/
def itemsText : List (Bytes × Item) → Bytes
  | [] => []
  | (key, i) :: is =>
    key ++ Ch.eq :: (i.shown.text ++ if is.isEmpty then [] else i.separator.text ++ itemsText is)

/-- What stands behind a value. -/
def tailText (i : Item) (is : List (Bytes × Item)) : Bytes :=
  if is.isEmpty then [] else i.separator.text ++ itemsText is

lemma itemsText_cons (key : Bytes) (i : Item) (is : List (Bytes × Item)) :
    itemsText ((key, i) :: is) = key ++ Ch.eq :: (i.shown.text ++ tailText i is) := rfl

/-- A key that starts an item. -/
def IsKey (key : Bytes) : Prop := key ≠ [] ∧ ∀ c ∈ key, isTocken c

/-! ### Reading an item -/

variable {c : UInt8} {is : List (Bytes × Item)}

lemma isPeriod_iff : isPeriod c ↔ c = Ch.semicolon ∨ c = 0x2C := by
  unfold isPeriod
  rw [Bool.or_eq_true, decide_eq_true_iff, decide_eq_true_iff]

lemma skipWs_period (hc : isPeriod c) (p : Bytes) : skipWs (c :: p) = c :: p := by
  rcases isPeriod_iff.1 hc with rfl | rfl
  · exact skipWs_cons (by decide) (by decide) (by decide) p
  · exact skipWs_cons (by decide) (by decide) (by decide) p

lemma isTocken_period (hc : isPeriod c) : isTocken c = false := by
  rcases isPeriod_iff.1 hc with rfl | rfl
  · decide
  · decide

lemma skipWs_itemsText (his : ∀ x ∈ is, IsKey x.1) :
    skipWs (itemsText is) = itemsText is := by
  rcases is with _ | ⟨⟨key, i⟩, is⟩
  · rfl
  · have hkey := his _ List.mem_cons_self
    rw [itemsText_cons]
    rcases hk : key with _ | ⟨a, key'⟩
    · exact absurd hk hkey.1
    · exact skipWs_of_isTocken (hkey.2 a (hk ▸ List.mem_cons_self)) _

/-- Behind a value stands nothing, or blanks and a period. -/
lemma skipWs_tailText (i : Item) (is : List (Bytes × Item)) :
    (tailText i is = [] ∧ is = []) ∨
      ∃ c p, isPeriod c ∧ skipWs (tailText i is) = c :: (p ++ itemsText is) ∧
      ∀ d ∈ p, d = Ch.space ∨ d = Ch.tab := by
  rcases is with _ | ⟨x, is⟩
  · exact .inl ⟨rfl, rfl⟩
  · refine .inr ⟨i.separator.period, i.separator.behind, i.separator.isPeriod, ?_,
      i.separator.blankBehind⟩
    have htail : tailText i (x :: is) =
        i.separator.before ++ i.separator.period :: (i.separator.behind ++ itemsText (x :: is)) :=
      List.append_assoc _ _ _
    rw [htail, skipWs_blanks i.separator.blankBefore, skipWs_period i.separator.isPeriod]

lemma skipPeriod_tailText (i : Item) (his : ∀ x ∈ is, IsKey x.1) :
    skipPeriod (tailText i is) = itemsText is := by
  unfold skipPeriod
  rcases skipWs_tailText i is with ⟨hnil, rfl⟩ | ⟨c, p, hc, hskip, hblanks⟩
  · rw [hnil]
    rfl
  · rw [hskip]
    dsimp only
    rw [if_pos hc, skipWs_blanks hblanks, skipWs_itemsText his]

/-- A token ends at the tail. -/
lemma tocken_tailText {t : Bytes} (ht : ∀ c ∈ t, isTocken c) (i : Item) (is : List (Bytes × Item)) :
    tocken (t ++ tailText i is) = (t, tailText i is) := by
  rcases is with _ | ⟨x, is⟩
  · show tocken (t ++ []) = (t, [])
    rw [List.append_nil, tocken_self ht]
  · have htail : tailText i (x :: is) = i.separator.before ++ (i.separator.period ::
        (i.separator.behind ++ itemsText (x :: is))) := List.append_assoc _ _ _
    rw [htail]
    rcases hbefore : i.separator.before with _ | ⟨c, before⟩
    · exact tocken_append ht (isTocken_period i.separator.isPeriod) _
    · have hc : isTocken c = false := by
        rcases i.separator.blankBefore c (hbefore ▸ List.mem_cons_self) with rfl | rfl
        · decide
        · decide
      exact tocken_append ht hc _

/-- A value is read as it stands in the header. -/
lemma readValue_tailText (key : Bytes) (i : Item) (his : ∀ x ∈ is, IsKey x.1) :
    readValue key (skipWs (i.shown.text ++ tailText i is)) =
      (some (key, i.shown.value), itemsText is) := by
  have hperiod := skipPeriod_tailText i his
  rcases i.shown.reads with ⟨ht, hvalue⟩ | ⟨hunquote, -⟩
  · rw [hvalue]
    rcases htext : i.shown.text with _ | ⟨a, text⟩
    · -- the empty token: what is behind the blanks is a period
      rcases skipWs_tailText i is with ⟨hnil, rfl⟩ | ⟨c, p, hc, hskip, hblanks⟩
      · rw [hnil]
        rfl
      · have htocken : tocken (c :: (p ++ itemsText is)) = ([], c :: (p ++ itemsText is)) :=
          tocken_append (List.forall_mem_nil _) (isTocken_period hc) _
        have hquote : c ≠ Ch.quote := by
          rintro rfl
          exact absurd hc (by decide)
        have hskipPeriod : skipPeriod (c :: (p ++ itemsText is)) = itemsText is := by
          unfold skipPeriod
          rw [skipWs_period hc]
          dsimp only
          rw [if_pos hc, skipWs_blanks hblanks, skipWs_itemsText his]
        rw [List.nil_append, hskip, readValue, if_neg hquote, htocken, hc, if_neg fun h =>
          Bool.noConfusion h.2, hskipPeriod]
    · rw [htext] at ht
      have hread := tocken_tailText ht i is
      have ha := ht a List.mem_cons_self
      have hquote : a ≠ Ch.quote := by
        rintro rfl
        exact absurd ha (by decide)
      rw [List.cons_append] at hread ⊢
      rw [skipWs_of_isTocken ha, readValue, if_neg hquote, hread, if_neg fun h =>
        List.cons_ne_nil _ _ h.1, hperiod]
  · rcases htext : i.shown.text with _ | ⟨a, text⟩
    · rw [htext] at hunquote
      cases hunquote
    · rw [htext, unquote] at hunquote
      split_ifs at hunquote with ha
      have hbody := unquoteBody_append hunquote (tailText i is)
      rw [List.cons_append, ha, skipWs_cons (by decide) (by decide) (by decide), readValue,
        if_pos rfl, unquote, if_pos rfl, hbody]
      show (some (key, i.shown.value), skipPeriod (tailText i is)) = _
      rw [hperiod]

lemma readKeyValue_itemsText {key : Bytes} (hkey : IsKey key) (i : Item)
    (his : ∀ x ∈ is, IsKey x.1) :
    readKeyValue (itemsText ((key, i) :: is)) = (some (key, i.shown.value), itemsText is) := by
  have hskip :=
    skipWs_itemsText (List.forall_mem_cons.2 ⟨hkey, his⟩ : ∀ x ∈ (key, i) :: is, IsKey x.1)
  have hvalue := readValue_tailText key i his
  rw [itemsText_cons] at hskip ⊢
  have htocken : tocken (key ++ Ch.eq :: (i.shown.text ++ tailText i is)) =
      (key, Ch.eq :: (i.shown.text ++ tailText i is)) := tocken_append hkey.2 (by decide) _
  unfold readKeyValue
  rw [hskip, htocken, if_neg fun h => hkey.1 h.1]
  show readAssignment key (Ch.eq :: (i.shown.text ++ tailText i is)) = _
  unfold readAssignment
  rw [skipWs_cons (by decide) (by decide) (by decide)]
  show (if Http.isPeriod Ch.eq then _
    else readValue key (skipWs (i.shown.text ++ tailText i is))) = _
  rw [if_neg (by decide), hvalue]

lemma length_le_itemsText {is : List (Bytes × Item)} : is.length ≤ (itemsText is).length := by
  induction is with
  | nil => exact Nat.zero_le _
  | cons x is ih =>
    have htail : is.length ≤ (tailText x.2 is).length := by
      rcases is with _ | ⟨y, is⟩
      · exact Nat.zero_le _
      · show (y :: is).length ≤ (x.2.separator.text ++ itemsText (y :: is)).length
        rw [List.length_append]
        exact ih.trans (Nat.le_add_left _ _)
    rw [itemsText_cons]
    simp only [List.length_append, List.length_cons]
    omega

/-- The loop takes the items one after the other. -/
lemma CookieReader.loop_itemsText (his : ∀ x ∈ is, IsKey x.1) {fuel : ℕ} (hfuel : is.length ≤ fuel)
    (r : CookieReader) :
    loop fuel (itemsText is) r = is.foldl (fun r x => r.assign x.1 x.2.shown.value) r := by
  induction is generalizing fuel r with
  | nil =>
    rcases fuel with _ | fuel
    · rfl
    · rfl
  | cons x is ih =>
    rcases fuel with _ | fuel
    · exact absurd hfuel (Nat.not_succ_le_zero _)
    · rcases x with ⟨key, i⟩
      have hkey := his _ List.mem_cons_self
      have hrest : ∀ x ∈ is, IsKey x.1 := fun x hx => his x (List.mem_cons_of_mem _ hx)
      have hread := readKeyValue_itemsText hkey i hrest
      rcases htext : itemsText ((key, i) :: is) with _ | ⟨a, text⟩
      · have hlength := @length_le_itemsText ((key, i) :: is)
        rw [htext] at hlength
        exact absurd hlength (Nat.not_succ_le_zero _)
      · rw [htext] at hread
        rw [loop, hread, List.foldl_cons]
        exact ih hrest (Nat.le_of_succ_le_succ hfuel) _

/-! ## Attributes -/

/-- A name that the reader does not take for an attribute of another cookie. -/
structure IsCookieName (name : Bytes) : Prop where
  ne_nil : name ≠ []
  tocken : ∀ c ∈ name, isTocken c
  head : name.head? ≠ some 0x24

attribute [local instance(1100)] List.decidableBAll

instance (name : Bytes) : Decidable (IsCookieName name) :=
  decidable_of_iff (name ≠ [] ∧ (∀ c ∈ name, isTocken c) ∧ name.head? ≠ some 0x24)
    ⟨fun h => ⟨h.1, h.2.1, h.2.2⟩, fun h => ⟨h.1, h.2, h.3⟩⟩

inductive AttributeName where
  | path
  | domain
  deriving DecidableEq

def AttributeName.text : AttributeName → Bytes
  | path => bytes "$Path"
  | domain => bytes "$Domain"

/-- A pair with the attributes behind it. -/
structure Sent where
  name : Bytes
  isName : IsCookieName name
  item : Item
  attributes : List (AttributeName × Item)
  nodup : (attributes.map Prod.fst).Nodup

namespace Sent

def value (s : Sent) : Bytes := s.item.shown.value

def items (s : Sent) : List (Bytes × Item) :=
  (s.name, s.item) :: s.attributes.map fun a => (a.1.text, a.2)

/-- The value of an attribute, which is empty if the cookie does not have it. -/
def attributeValue (s : Sent) (n : AttributeName) : Bytes :=
  ((s.attributes.find? fun a => a.1 = n).map fun a => a.2.shown.value).getD []

/-- The cookie that a pair and its attributes stand for. -/
def cookie (s : Sent) : Cookie :=
  { Cookie.ofValue s.name s.value with
    path := s.attributeValue .path
    domain := s.attributeValue .domain }

end Sent

/-- The text of a header. -/
def sentText (sent : List Sent) : Bytes := itemsText (sent.flatMap Sent.items)

/-- The reader has the cookies that the header stands for and no others. -/
def Attributed (sent : List Sent) : Prop :=
  ∀ name c, (parseCookies (sentText sent)).find name = some c ↔
    ∃ s ∈ sent, s.name = name ∧ s.cookie = c

set_option maxRecDepth 2048 in
lemma AttributeName.isKey (n : AttributeName) : IsKey n.text := by
  cases n with
  | path => exact ⟨by decide, by decide⟩
  | domain => exact ⟨by decide, by decide⟩

lemma Sent.isKey (s : Sent) : ∀ x ∈ s.items, IsKey x.1 := by
  intro x hx
  rcases List.mem_cons.1 hx with rfl | hx
  · exact ⟨s.isName.ne_nil, s.isName.tocken⟩
  · rcases List.mem_map.1 hx with ⟨a, -, rfl⟩
    exact a.1.isKey

/-- A reader that has a cookie leaves the attributes out. -/
lemma CookieReader.assign_attribute {r : CookieReader} (hr : r.cookie.name ≠ []) (n : AttributeName)
    (value : Bytes) :
    r.assign n.text value = r := by
  have hdollar : n.text.head? = some 0x24 := by
    cases n with
    | path => rfl
    | domain => rfl
  unfold assign
  rw [if_pos hdollar, if_pos hr]

/-- A pair completes the cookie before it. -/
lemma CookieReader.assign_name {name : Bytes} (hname : IsCookieName name) (r : CookieReader)
    (value : Bytes) :
    r.assign name value = ⟨.ofValue name value, r.complete⟩ := if_neg hname.head

/-- A reader goes over a pair and its attributes. -/
lemma CookieReader.foldl_items (s : Sent) (r : CookieReader) :
    s.items.foldl (fun r x => r.assign x.1 x.2.shown.value) r =
      ⟨.ofValue s.name s.value, r.complete⟩ := by
  have hattributes : ∀ (as : List (AttributeName × Item)) (r : CookieReader), r.cookie.name ≠ [] →
      (as.map fun a => (a.1.text, a.2)).foldl (fun r x => r.assign x.1 x.2.shown.value) r = r := by
    intro as
    induction as with
    | nil => exact fun _ _ => rfl
    | cons a as ih =>
      intro r hr
      rw [List.map_cons, List.foldl_cons, assign_attribute hr]
      exact ih r hr
  unfold Sent.items
  rw [List.foldl_cons, assign_name s.isName]
  exact hattributes _ _ s.isName.ne_nil

/-- The first cookie of a name is kept. -/
lemma CookieReader.find_foldl_items (sent : List Sent) (r : CookieReader) (name : Bytes) :
    ((sent.flatMap Sent.items).foldl (fun r x => r.assign x.1 x.2.shown.value) r).complete.find
      name =
      (r.complete.find name).or ((sent.find? fun s => s.name = name).map fun s =>
        .ofValue s.name s.value) := by
  induction sent generalizing r with
  | nil => exact (Option.or_none).symm
  | cons s sent ih =>
    have hcomplete : (⟨.ofValue s.name s.value, r.complete⟩ : CookieReader).complete =
        r.complete.insertNew s.name (.ofValue s.name s.value) := if_neg s.isName.ne_nil
    rw [List.flatMap_cons, List.foldl_append, foldl_items, ih, hcomplete, SortedMap.find_insertNew,
      List.find?_cons]
    by_cases hname : name = s.name
    · rw [if_pos hname, decide_eq_true hname.symm, hname]
      rcases r.complete.find s.name with _ | c
      · rfl
      · rfl
    · rw [if_neg hname, decide_eq_false fun h => hname h.symm]

lemma zero_notMem_itemsText (his : ∀ x ∈ is, IsKey x.1) : 0 ∉ itemsText is := by
  have hblanks : ∀ {b : Bytes}, (∀ c ∈ b, c = Ch.space ∨ c = Ch.tab) → 0 ∉ b := by
    intro b hb h
    exact absurd (hb 0 h) (by decide)
  have htokens : ∀ {t : Bytes}, (∀ c ∈ t, isTocken c) → 0 ∉ t := by
    intro t ht h
    exact absurd (ht 0 h) (by decide)
  induction is with
  | nil => exact List.not_mem_nil
  | cons x is ih =>
    have hrest := ih fun y hy => his y (List.mem_cons_of_mem _ hy)
    rcases x with ⟨key, i⟩
    have hshown : 0 ∉ i.shown.text := by
      rcases i.shown.reads with ⟨ht, -⟩ | ⟨-, h0⟩
      · exact htokens ht
      · exact h0
    have hseparator : 0 ∉ i.separator.text := by
      intro h
      rcases List.mem_append.1 h with h | h
      · exact hblanks i.separator.blankBefore h
      · rcases List.mem_cons.1 h with h | h
        · have hperiod := i.separator.isPeriod
          rw [← h] at hperiod
          exact absurd hperiod (by decide)
        · exact hblanks i.separator.blankBehind h
    rw [itemsText_cons]
    intro h
    rcases List.mem_append.1 h with h | h
    · exact htokens (his _ List.mem_cons_self).2 h
    · rcases List.mem_cons.1 h with h | h
      · exact absurd h (by decide)
      · rcases List.mem_append.1 h with h | h
        · exact hshown h
        · rcases is with _ | ⟨y, is⟩
          · exact absurd h List.not_mem_nil
          · rcases List.mem_append.1 h with h | h
            · exact hseparator h
            · exact hrest h

/-- What is read out of a header: the first pair of each name, without attributes. -/
lemma find_parseCookies_sentText (sent : List Sent) (name : Bytes) :
    (parseCookies (sentText sent)).find name =
      (sent.find? fun s => s.name = name).map fun s => .ofValue s.name s.value := by
  have hkeys : ∀ x ∈ sent.flatMap Sent.items, IsKey x.1 := by
    intro x hx
    rcases List.mem_flatMap.1 hx with ⟨s, -, hx⟩
    exact s.isKey x hx
  have hstring : cString (sentText sent) = sentText sent := by
    apply List.takeWhile_eq_self_iff.2
    intro c hc
    have hne : c ≠ 0 := fun h => zero_notMem_itemsText hkeys (h ▸ hc)
    exact decide_eq_true hne
  unfold parseCookies
  rw [hstring]
  unfold sentText
  rw [skipWs_itemsText hkeys, CookieReader.loop_itemsText hkeys length_le_itemsText,
    CookieReader.find_foldl_items]
  rfl

lemma Sent.attributeValue_of_mem {s : Sent} {a : AttributeName × Item} (ha : a ∈ s.attributes) :
    s.attributeValue a.1 = a.2.shown.value := by
  have hsecond := (find?_key_eq_some s.nodup).2 (show (a.1, a.2) ∈ s.attributes from ha)
  rcases Option.map_eq_some_iff.1 hsecond with ⟨b, hfind, hb⟩
  unfold attributeValue
  rw [hfind, Option.map_some, hb]
  rfl

/-- The reader has the cookies that a header stands for if and only if no attribute has a text, and
no two pairs of a name have different values. -/
theorem attributed_iff (sent : List Sent) : Attributed sent ↔
    (∀ s ∈ sent, ∀ a ∈ s.attributes, a.2.shown.value = []) ∧
      ∀ s ∈ sent, ∀ t ∈ sent, s.name = t.name → s.value = t.value := by
  constructor
  · intro h
    -- a cookie that is read has no path and no domain
    have hread : ∀ s ∈ sent, ∃ t ∈ sent, (sent.find? fun u => u.name = s.name) = some t ∧
        s.cookie = .ofValue t.name t.value := by
      intro s hs
      have hfind := (h s.name s.cookie).2 ⟨s, hs, rfl, rfl⟩
      rw [find_parseCookies_sentText] at hfind
      rcases Option.map_eq_some_iff.1 hfind with ⟨t, ht, hcookie⟩
      exact ⟨t, List.mem_of_find?_eq_some ht, ht, hcookie.symm⟩
    constructor
    · intro s hs a ha
      rcases hread s hs with ⟨t, -, -, hcookie⟩
      rw [← Sent.attributeValue_of_mem ha]
      cases a.1 with
      | path => exact congrArg Cookie.path hcookie
      | domain => exact congrArg Cookie.domain hcookie
    · intro s hs t ht hname
      rcases hread s hs with ⟨u, -, hu, hcookie⟩
      rcases hread t ht with ⟨u', -, hu', hcookie'⟩
      rw [hname, hu'] at hu
      cases hu
      have hsame : s.cookie = t.cookie := hcookie.trans hcookie'.symm
      exact congrArg Cookie.value hsame
  · rintro ⟨hempty, hsame⟩ name c
    have hcookie : ∀ s ∈ sent, s.cookie = .ofValue s.name s.value := by
      intro s hs
      have hattribute : ∀ n, s.attributeValue n = [] := by
        intro n
        unfold Sent.attributeValue
        rcases hfind : s.attributes.find? fun a => a.1 = n with _ | a
        · rw [hfind]
          rfl
        · rw [hfind]
          exact hempty s hs a (List.mem_of_find?_eq_some hfind)
      unfold Sent.cookie
      rw [hattribute, hattribute]
      rfl
    rw [find_parseCookies_sentText]
    constructor
    · intro h
      rcases Option.map_eq_some_iff.1 h with ⟨s, hfind, rfl⟩
      have hs := List.mem_of_find?_eq_some hfind
      have hname : s.name = name := by simpa using List.find?_some hfind
      exact ⟨s, hs, hname, hcookie s hs⟩
    · rintro ⟨s, hs, rfl, rfl⟩
      rcases hfind : sent.find? fun u => u.name = s.name with _ | t
      · have hnone := List.find?_eq_none.1 hfind s hs
        exact absurd (decide_eq_true rfl) hnone
      · have hname : t.name = s.name := by simpa using List.find?_some hfind
        have hvalue := hsame t (List.mem_of_find?_eq_some hfind) s hs hname
        rw [hfind, Option.map_some, hcookie s hs, hname, hvalue]

set_option maxRecDepth 2048 in
/-- A cookie with a path. -/
def pathSent : Sent where
  name := bytes "a"
  isName := by decide
  item := ⟨⟨bytes "b", bytes "b", .inl ⟨by decide, rfl⟩⟩,
    ⟨[], Ch.semicolon, [Ch.space], by decide, by decide, by decide⟩⟩
  attributes := [(.path, ⟨⟨bytes "/x", bytes "\"/x\"", .inr ⟨by decide, by decide⟩⟩,
    ⟨[], Ch.semicolon, [Ch.space], by decide, by decide, by decide⟩⟩)]
  nodup := by decide

/-- The path of a cookie with a name is left out. -/
theorem not_attributed_path : ¬ ∀ sent, Attributed sent := by
  intro h
  have hread :=
    (h [pathSent] (bytes "a") pathSent.cookie).2 ⟨pathSent, List.mem_cons_self, rfl, rfl⟩
  rw [find_parseCookies_sentText] at hread
  revert hread
  decide

end Http

end Cppcms
