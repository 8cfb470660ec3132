import Cppcms.Json.Value
import Cppcms.Library.Segments

/-!
# Paths into values

`value::find` and `value::at` for a path, with the functions of `string_key` that they cut the path
with.  Both loops follow the components of the path, what the dots separate, where a dot at the end
is ignored.

A pointer into a value is not part of the model: the loop of `at` gives the value with what it has
changed below.
-/

namespace Cppcms

/-! ## Keys -/

/-- `string_key::find`, `none` for `npos`. -/
def StringKey.find (s : Bytes) (c : UInt8) (pos : ℕ) : Option ℕ :=
  if s.length ≤ pos then none
  else if s.length ≤ pos + ((s.drop pos).takeWhile (· ≠ c)).length then none
  else some (pos + ((s.drop pos).takeWhile (· ≠ c)).length)

/-- `string_key::unowned_substr`, where `n` is `none` for a number that is larger than every length.
-/
def StringKey.unownedSubstr (s : Bytes) (pos : ℕ) (n : Option ℕ) : Bytes :=
  if s.length ≤ pos then []
  else
    match n with
    | none => s.drop pos
    | some n => (s.drop pos).take n

namespace Json

/-- `bad_value_cast` of the paths. -/
inductive BadValueCast where
  | invalidPath
  deriving DecidableEq

def BadValueCast.what : BadValueCast → Bytes
  | invalidPath => bytes "cppcms::json::bad_cast: Invalid path provided"

/-- The part of a path at a position. -/
def pathPart (path : Bytes) (pos : ℕ) : Bytes :=
  StringKey.unownedSubstr path pos ((StringKey.find path Ch.dot pos).map (· - pos))

/-- The position of the next part, `none` when the loop ends. -/
def nextPos (path : Bytes) (pos : ℕ) : Option ℕ :=
  match StringKey.find path Ch.dot pos with
  | none => none
  | some newPos => if newPos + 1 < path.length then some (newPos + 1) else none

namespace Value

variable {ν : Type}

/-- The members of an object; other values have none. -/
def members : Value ν → List (Bytes × Value ν)
  | object o => o
  | _ => []

@[simp] lemma members_object (o : List (Bytes × Value ν)) : (object o).members = o := rfl

/-- `object::find`. -/
def member (o : List (Bytes × Value ν)) (key : Bytes) : Option (Value ν) :=
  (o.find? fun m => m.1 = key).map Prod.snd

/-- The value of a member that is there. -/
def replaceMember (key : Bytes) (x : Value ν) : List (Bytes × Value ν) → List (Bytes × Value ν)
  | [] => []
  | m :: o => if m.1 = key then (key, x) :: o else m :: replaceMember key x o

/-- An assignment to a member, which is inserted when it is not there. -/
def setMember (key : Bytes) (x : Value ν) (o : List (Bytes × Value ν)) : List (Bytes × Value ν) :=
  if (member o key).isSome then replaceMember key x o else SortedMap.insertList key x o

/-- The loop of `find`.  A value that is not there is the undefined one. -/
def findLoop (path : Bytes) : ℕ → ℕ → Value ν → Option (Value ν)
  | 0, _, _ => none
  | fuel + 1, pos, ptr =>
    if pathPart path pos = [] then some undefined
    else
      match ptr with
      | object o =>
        match member o (pathPart path pos) with
        | none => some undefined
        | some x =>
          match nextPos path pos with
          | none => some x
          | some pos' => findLoop path fuel pos' x
      | _ => some undefined

/-- `find`.  Each round goes on behind a dot. -/
def find (v : Value ν) (cpath : Bytes) : Option (Value ν) :=
  findLoop (cpath.takeWhile (· ≠ 0)) (cpath.length + 1) 0 v

/-- The loop of `at`: what `ptr` points to when it ends, and the exception if there is one. -/
def atLoop (path : Bytes) (x : Value ν) : ℕ → ℕ → Value ν → Option (Value ν × Option BadValueCast)
  | 0, _, _ => none
  | fuel + 1, pos, ptr =>
    if pathPart path pos = [] then some (ptr, some .invalidPath)
    else
      -- a value that is not an object is replaced by an empty one
      match nextPos path pos with
      | none => some (object (setMember (pathPart path pos) x ptr.members), none)
      | some pos' =>
        (atLoop path x fuel pos' ((member ptr.members (pathPart path pos)).getD undefined)).map
          fun r =>
          (object (setMember (pathPart path pos) r.1 ptr.members), r.2)

/-- `at` for a path and a value. -/
def atPath (v : Value ν) (cpath : Bytes) (x : Value ν) : Option (Value ν × Option BadValueCast) :=
  atLoop (cpath.takeWhile (· ≠ 0)) x (cpath.length + 1) 0 v

/-! ## Assignments of members -/

lemma member_cons (m : Bytes × Value ν) (o : List (Bytes × Value ν)) (key : Bytes) :
    member (m :: o) key = if m.1 = key then some m.2 else member o key := by
  unfold member
  by_cases hm : m.1 = key
  · rw [List.find?_cons_of_pos (by simpa using hm), if_pos hm, Option.map_some]
  · rw [List.find?_cons_of_neg (by simpa using hm), if_neg hm]

variable {key : Bytes} {keys : List Bytes}

lemma member_replaceMember {o : List (Bytes × Value ν)} (hkey : (member o key).isSome) (x : Value ν)
    (k : Bytes) : member (replaceMember key x o) k = if k = key then some x else member o k := by
  induction o with
  | nil => cases hkey
  | cons m o ih =>
    rw [member_cons] at hkey
    unfold replaceMember
    by_cases hm : m.1 = key
    · rw [if_pos hm, member_cons, member_cons, hm]
      by_cases hk : key = k
      · rw [if_pos hk, if_pos hk.symm]
      · rw [if_neg hk, if_neg (Ne.symm hk), if_neg hk]
    · rw [if_neg hm] at hkey
      rw [if_neg hm, member_cons, member_cons, ih hkey]
      by_cases hk : k = key
      · rw [if_pos hk, if_pos hk, if_neg (hk ▸ hm)]
      · rw [if_neg hk, if_neg hk]

lemma member_insertList (key : Bytes) (x : Value ν) (o : List (Bytes × Value ν)) (k : Bytes) :
    member (SortedMap.insertList key x o) k = if k = key then some x else member o k := by
  induction o with
  | nil =>
    rw [SortedMap.insertList, member_cons]
    by_cases hk : k = key
    · rw [if_pos hk, if_pos hk.symm]
    · rw [if_neg hk, if_neg (Ne.symm hk)]
  | cons m o ih =>
    have hhead : ∀ o' : List (Bytes × Value ν), (k ≠ key → member o' k = member (m :: o) k) →
        member ((key, x) :: o') k = if k = key then some x else member (m :: o) k := by
      intro o' ho'
      rw [member_cons]
      by_cases hk : k = key
      · rw [if_pos hk, if_pos hk.symm]
      · rw [if_neg hk, if_neg (Ne.symm hk), ho' hk]
    rw [SortedMap.insertList]
    by_cases hlt : key < m.1
    · rw [if_pos hlt]
      exact hhead _ fun _ => rfl
    · rw [if_neg hlt]
      by_cases heq : key = m.1
      · rw [if_pos heq]
        refine hhead _ fun hk => ?_
        rw [member_cons, if_neg fun h => hk (h.symm.trans heq.symm)]
      · rw [if_neg heq, member_cons, member_cons, ih]
        by_cases hk : k = key
        · rw [if_pos hk, if_pos hk, if_neg fun h => heq (h.trans hk).symm]
        · rw [if_neg hk, if_neg hk]

lemma member_setMember (key : Bytes) (x : Value ν) (o : List (Bytes × Value ν)) (k : Bytes) :
    member (setMember key x o) k = if k = key then some x else member o k := by
  unfold setMember
  by_cases hkey : (member o key).isSome
  · rw [if_pos hkey]
    exact member_replaceMember hkey x k
  · rw [if_neg hkey]
    exact member_insertList key x o k

/-- An assignment of the value that is there changes nothing. -/
lemma setMember_self {o : List (Bytes × Value ν)} {x : Value ν} (hkey : member o key = some x) :
    setMember key x o = o := by
  unfold setMember
  rw [if_pos (Option.isSome_iff_exists.2 ⟨x, hkey⟩)]
  induction o with
  | nil => rfl
  | cons m o ih =>
    rw [member_cons] at hkey
    unfold replaceMember
    split_ifs at hkey ⊢ with hm
    · rw [← hm, ← Option.some.inj hkey]
    · rw [ih hkey]

/-! ## Places -/

/-- The value that the components of a path lead to. -/
def lookup : List Bytes → Value ν → Value ν
  | [], v => v
  | key :: keys, v =>
    if key = [] then undefined
    else
      match member v.members key with
      | none => undefined
      | some x => lookup keys x

/-- The value with `x` at the place that the components lead to, as far as they are not empty. -/
def assign (x : Value ν) : List Bytes → Value ν → Value ν
  | [], _ => x
  | key :: keys, v =>
    if key = [] then v
    else object (setMember key (assign x keys ((member v.members key).getD undefined)) v.members)

/-- The components lead to a value that is there. -/
def Reaches : List Bytes → Value ν → Prop
  | [], _ => True
  | key :: keys, v => ∃ x, member v.members key = some x ∧ Reaches keys x

lemma lookup_undefined (hne : keys ≠ []) : lookup keys (undefined : Value ν) = undefined := by
  rcases keys with - | ⟨key, keys⟩
  · exact absurd rfl hne
  · unfold lookup
    split_ifs <;> rfl

lemma lookup_assign (x : Value ν) (hkeys : [] ∉ keys) (v : Value ν) :
    lookup keys (assign x keys v) = x := by
  induction keys generalizing v with
  | nil => rfl
  | cons key keys ih =>
    rw [List.mem_cons, not_or] at hkeys
    rw [assign, if_neg (Ne.symm hkeys.1), lookup, if_neg (Ne.symm hkeys.1)]
    rw [members_object, member_setMember, if_pos rfl]
    exact ih hkeys.2 _

/-- Other places keep their values, also when values on the way are replaced by objects. -/
lemma lookup_assign_of_not_prefix (x : Value ν) {keys other : List Bytes} (hkeys : [] ∉ keys)
    (hno : ¬keys <+: other) (hno' : ¬other <+: keys) (v : Value ν) :
    lookup other (assign x keys v) = lookup other v := by
  induction keys generalizing other v with
  | nil => exact absurd List.nil_prefix hno
  | cons key keys ih =>
    rw [List.mem_cons, not_or] at hkeys
    rcases other with - | ⟨k, other⟩
    · exact absurd List.nil_prefix hno'
    · rw [assign, if_neg (Ne.symm hkeys.1), lookup, lookup]
      by_cases hk : k = key
      · subst hk
        have hno : ¬keys <+: other := fun h => hno (List.cons_prefix_cons.2 ⟨rfl, h⟩)
        have hno' : ¬other <+: keys := fun h => hno' (List.cons_prefix_cons.2 ⟨rfl, h⟩)
        rw [if_neg (Ne.symm hkeys.1), if_neg (Ne.symm hkeys.1), members_object,
          member_setMember, if_pos rfl]
        dsimp only
        rw [ih hkeys.2 hno hno']
        rcases hmember : member v.members k with - | y
        · have hne : other ≠ [] := fun hnil => hno' (hnil ▸ List.nil_prefix)
          exact lookup_undefined hne
        · rfl
      · have hsame :
          member (object (setMember key (assign x keys ((member v.members key).getD undefined))
            v.members)).members k = member v.members k := by
          rw [members_object, member_setMember, if_neg hk]
        rw [hsame]

/-- What is assigned behind an empty component is lost, and the values before it are the same
exactly when they were there. -/
lemma assign_eq_self_iff (x : Value ν) (hkeys : [] ∈ keys) (v : Value ν) :
    assign x keys v = v ↔ Reaches (keys.takeWhile (· ≠ [])) v := by
  induction keys generalizing v with
  | nil => cases hkeys
  | cons key keys ih =>
    by_cases hkey : key = []
    · rw [assign, if_pos hkey, List.takeWhile_cons_of_neg (by simpa using hkey)]
      exact iff_of_true rfl trivial
    · have hmem : [] ∈ keys := (List.mem_cons.1 hkeys).resolve_left (Ne.symm hkey)
      rw [assign, if_neg hkey, List.takeWhile_cons_of_pos (by simpa using hkey), Reaches]
      constructor
      · intro heq
        have hmembers := congrArg members heq
        rw [members_object] at hmembers
        have hfound :=
          member_setMember key (assign x keys ((member v.members key).getD undefined)) v.members key
        rw [if_pos rfl, hmembers] at hfound
        generalize hy : assign x keys ((member v.members key).getD undefined) = y at hfound
        rw [hfound, Option.getD_some] at hy
        exact ⟨y, hfound, (ih hmem y).1 hy⟩
      · rintro ⟨y, hy, hreaches⟩
        rw [hy, Option.getD_some, (ih hmem y).2 hreaches, setMember_self hy]
        cases v <;> first | rfl | cases hy

end Value

/-! ## The components of a path -/

/-- What the dots of a text separate, without what is behind a dot at its end. -/
def splitPath (path : Bytes) : List Bytes :=
  if path ≠ [] ∧ (path.splitOn Ch.dot).getLast? =
    some [] then (path.splitOn Ch.dot).dropLast else path.splitOn Ch.dot

/-- The components of a path, which ends at its first zero. -/
def components (cpath : Bytes) : List Bytes := splitPath (cpath.takeWhile (· ≠ 0))

variable {u : Bytes}

lemma splitPath_of_notMem (hu : Ch.dot ∉ u) : splitPath u = [u] := by
  unfold splitPath
  rw [List.splitOn_eq_singleton hu, if_neg]
  rintro ⟨hne, hlast⟩
  exact hne (Option.some.inj hlast)

lemma splitPath_append_dot (hu : Ch.dot ∉ u) (t : Bytes) :
    splitPath (u ++ Ch.dot :: t) = if t = [] then [u] else u :: splitPath t := by
  have hne : u ++ Ch.dot :: t ≠ [] := List.append_ne_nil_of_right_ne_nil u (List.cons_ne_nil _ _)
  have hsplit : (u ++ Ch.dot :: t).splitOn Ch.dot = u :: t.splitOn Ch.dot := by
    rw [List.splitOn_append_cons_self, List.splitOn_eq_singleton hu, List.singleton_append]
  have ht : t.splitOn Ch.dot ≠ [] := List.splitOn_ne_nil _ _
  unfold splitPath
  rw [hsplit, List.dropLast_cons_of_ne_nil ht, List.getLast?_cons_of_ne_nil ht]
  by_cases hnil : t = []
  · subst hnil
    rw [if_pos rfl, if_pos ⟨hne, rfl⟩]
    rfl
  · rw [if_neg hnil]
    by_cases hlast : (t.splitOn Ch.dot).getLast? = some []
    · rw [if_pos ⟨hne, hlast⟩, if_pos ⟨hnil, hlast⟩]
    · rw [if_neg fun h => hlast h.2, if_neg fun h => hlast h.2]

lemma pathPart_eq (path : Bytes) (pos : ℕ) :
    pathPart path pos = (path.drop pos).takeWhile (· ≠ Ch.dot) := by
  unfold pathPart StringKey.unownedSubstr StringKey.find
  by_cases hpos : path.length ≤ pos
  · rw [if_pos hpos, List.drop_eq_nil_of_le hpos, List.takeWhile_nil]
  · rw [if_neg hpos, if_neg hpos]
    have hpiece := List.takeWhile_prefix (· ≠ Ch.dot) (l := path.drop pos)
    by_cases hend : path.length ≤ pos + ((path.drop pos).takeWhile (· ≠ Ch.dot)).length
    · rw [if_pos hend]
      refine (hpiece.eq_of_length ?_).symm
      have hle := hpiece.length_le
      rw [List.length_drop] at hle ⊢
      omega
    · rw [if_neg hend]
      simp only [Option.map_some, Nat.add_sub_cancel_left]
      exact (List.prefix_iff_eq_take.1 hpiece).symm

/-- What one round of the loops sees of the components. -/
lemma nextPos_cases (path : Bytes) (pos : ℕ) :
    (nextPos path pos = none ∧ splitPath (path.drop pos) = [pathPart path pos]) ∨
    (∃ pos', nextPos path pos = some pos' ∧ pos < pos' ∧ pos' < path.length ∧
      splitPath (path.drop pos) = pathPart path pos :: splitPath (path.drop pos')) := by
  rw [pathPart_eq]
  unfold nextPos StringKey.find
  by_cases hpos : path.length ≤ pos
  · rw [if_pos hpos, List.drop_eq_nil_of_le hpos]
    exact .inl ⟨rfl, rfl⟩
  · have hnodot := notMem_takeWhile (a := Ch.dot) (path.drop pos)
    have hpiece := List.takeWhile_prefix (· ≠ Ch.dot) (l := path.drop pos)
    rw [if_neg hpos]
    by_cases hend : path.length ≤ pos + ((path.drop pos).takeWhile (· ≠ Ch.dot)).length
    · have hall : (path.drop pos).takeWhile (· ≠ Ch.dot) = path.drop pos := by
        refine hpiece.eq_of_length ?_
        have hle := hpiece.length_le
        rw [List.length_drop] at hle ⊢
        omega
      rw [if_pos hend, hall]
      rw [hall] at hnodot
      exact .inl ⟨rfl, splitPath_of_notMem hnodot⟩
    · rw [if_neg hend]
      have hcut := eq_takeWhile_append_cons (a := Ch.dot) (w := path.drop pos)
        (by rw [List.length_drop]; omega)
      rw [List.drop_drop] at hcut
      generalize hu : (path.drop pos).takeWhile (· ≠ Ch.dot) = u at hcut hnodot hend ⊢
      have hsplit : splitPath (path.drop pos) =
          if path.drop (pos + (u.length + 1)) = [] then [u] else u ::
          splitPath (path.drop (pos + (u.length + 1))) := by
        conv_lhs => rw [hcut]
        exact splitPath_append_dot hnodot _
      dsimp only
      rw [hsplit]
      by_cases hlast : pos + u.length + 1 < path.length
      · have hmore : path.drop (pos + (u.length + 1)) ≠ [] := by
          rw [Ne, List.drop_eq_nil_iff]
          omega
        rw [if_pos hlast, if_neg hmore]
        exact .inr ⟨_, rfl, by omega, hlast, rfl⟩
      · have hnil : path.drop (pos + (u.length + 1)) = [] := List.drop_eq_nil_of_le (by omega)
        rw [if_neg hlast, if_pos hnil]
        exact .inl ⟨rfl, rfl⟩

namespace Value

variable {ν : Type}

lemma findLoop_eq (path : Bytes) {fuel pos : ℕ} (hfuel : path.length < fuel + pos)
    (hpos : pos ≤ path.length) (v : Value ν) :
    findLoop path fuel pos v = some (lookup (splitPath (path.drop pos)) v) := by
  induction fuel generalizing pos v with
  | zero => omega
  | succ fuel ih =>
    unfold findLoop
    by_cases hpart : pathPart path pos = []
    · rw [if_pos hpart]
      rcases nextPos_cases path pos with ⟨-, hsplit⟩ | ⟨pos', -, -, -, hsplit⟩
      · rw [hsplit, hpart, lookup, if_pos rfl]
      · rw [hsplit, hpart, lookup, if_pos rfl]
    · rw [if_neg hpart]
      have hmissing : ∀ keys, lookup (pathPart path pos :: keys) v =
          match member v.members (pathPart path pos) with
          | none => undefined
          | some x => lookup keys x := fun keys => by rw [lookup, if_neg hpart]
      rcases nextPos_cases path pos with ⟨hnext, hsplit⟩ | ⟨pos', hnext, hlt, hle, hsplit⟩
      · rw [hsplit, hmissing]
        cases v with
        | object o =>
          rw [members_object]
          dsimp only
          rcases member o (pathPart path pos) with - | x
          · rfl
          · rw [hnext]
            rfl
        | _ => rfl
      · rw [hsplit, hmissing]
        cases v with
        | object o =>
          rw [members_object]
          dsimp only
          rcases member o (pathPart path pos) with - | x
          · rfl
          · rw [hnext]
            exact ih (by omega) hle.le x
        | _ => rfl

/-- The exception of an assignment. -/
def assignError (keys : List Bytes) : Option BadValueCast :=
  if [] ∈ keys then some .invalidPath else none

lemma assignError_cons {key : Bytes} (hkey : key ≠ []) (keys : List Bytes) :
    assignError (key :: keys) = assignError keys := by
  have hiff : [] ∈ key :: keys ↔ [] ∈ keys := by rw [List.mem_cons, or_iff_right (Ne.symm hkey)]
  unfold assignError
  simp only [hiff]

lemma atLoop_eq (path : Bytes) (x : Value ν) {fuel pos : ℕ} (hfuel : path.length < fuel + pos)
    (hpos : pos ≤ path.length) (v : Value ν) : atLoop path x fuel pos v =
      some (assign x (splitPath (path.drop pos)) v, assignError (splitPath (path.drop pos))) := by
  induction fuel generalizing pos v with
  | zero => omega
  | succ fuel ih =>
    unfold atLoop
    by_cases hpart : pathPart path pos = []
    · have herror : ∀ keys, assignError (pathPart path pos :: keys) = some .invalidPath := by
        intro keys
        rw [assignError, hpart, if_pos List.mem_cons_self]
      rw [if_pos hpart]
      rcases nextPos_cases path pos with ⟨-, hsplit⟩ | ⟨pos', -, -, -, hsplit⟩
      · rw [hsplit, herror, assign, if_pos hpart]
      · rw [hsplit, herror, assign, if_pos hpart]
    · rw [if_neg hpart]
      rcases nextPos_cases path pos with ⟨hnext, hsplit⟩ | ⟨pos', hnext, hlt, hle, hsplit⟩
      · rw [hsplit, hnext, assignError_cons hpart, assign, if_neg hpart]
        rfl
      · rw [hsplit, hnext, assignError_cons hpart, assign, if_neg hpart]
        dsimp only
        rw [ih (by omega) hle.le, Option.map_some]

/-- `find` goes along the components. -/
lemma find_eq (v : Value ν) (cpath : Bytes) :
    v.find cpath = some (lookup (components cpath) v) := by
  have hlen := (List.takeWhile_prefix (· ≠ 0) (l := cpath)).length_le
  have hloop := @findLoop_eq ν (cpath.takeWhile (· ≠ 0)) (cpath.length + 1) 0 (by omega)
    (Nat.zero_le _) v
  rw [List.drop_zero] at hloop
  exact hloop

/-- `at` assigns along the components, and throws when one of them is empty. -/
lemma atPath_eq (v : Value ν) (cpath : Bytes) (x : Value ν) :
    v.atPath cpath x = some (assign x (components cpath) v, assignError (components cpath)) := by
  have hlen := (List.takeWhile_prefix (· ≠ 0) (l := cpath)).length_le
  have hloop := @atLoop_eq ν (cpath.takeWhile (· ≠ 0)) x (cpath.length + 1) 0 (by omega)
    (Nat.zero_le _) v
  rw [List.drop_zero] at hloop
  exact hloop

/-! ## What an assignment does -/

/-- After an assignment the value is found at its path, and nothing else is found anywhere else. -/
theorem find_atPath {v x v' : Value ν} {cpath : Bytes} (hok : v.atPath cpath x = some (v', none)) :
    v'.find cpath = some x ∧ ∀ q, ¬components cpath <+: components q →
    ¬components q <+: components cpath →
      v'.find q = v.find q := by
  rw [atPath_eq] at hok
  obtain ⟨rfl, hnone⟩ := Prod.mk.inj (Option.some.inj hok)
  have hkeys : [] ∉ components cpath := by
    intro hmem
    rw [assignError, if_pos hmem] at hnone
    cases hnone
  constructor
  · rw [find_eq, lookup_assign x hkeys]
  · intro q hno hno'
    rw [find_eq, find_eq, lookup_assign_of_not_prefix x hkeys hno hno']

/-- The text on the way is replaced by an object. -/
theorem find_atPath_replaced :
    (object [(bytes "a", str []), (bytes "c", null)] : Value ℕ).atPath (bytes "a.b.") (number 3) =
      some (object [(bytes "a", object [(bytes "b", number 3)]), (bytes "c", null)], none) ∧
    (object [(bytes "a", object [(bytes "b", number 3)]), (bytes "c", null)] : Value ℕ).find
      (bytes "a.b.") =
      some (number 3) ∧
    (object [(bytes "a", object [(bytes "b", number 3)]), (bytes "c", null)] : Value ℕ).find
      (bytes "c") =
      (object [(bytes "a", str []), (bytes "c", null)] : Value ℕ).find (bytes "c") := by
  have hok : (object [(bytes "a", str []), (bytes "c", null)] : Value ℕ).atPath
    (bytes "a.b.") (number 3) =
      some (object [(bytes "a", object [(bytes "b", number 3)]), (bytes "c", null)], none) := rfl
  obtain ⟨hfind, hframe⟩ := find_atPath hok
  exact ⟨hok, hfind, hframe (bytes "c") (by decide) (by decide)⟩

/-- An assignment that throws leaves the value as it was. -/
def AllOrNothing (v : Value ν) (cpath : Bytes) (x : Value ν) : Prop :=
  ∀ v' e, v.atPath cpath x = some (v', some e) → v' = v

/-- The members before an empty component are made, if they are not there. -/
theorem atPath_allOrNothing_iff (v : Value ν) (cpath : Bytes) (x : Value ν) :
    v.AllOrNothing cpath x ↔
    ([] ∈ components cpath → Reaches ((components cpath).takeWhile (· ≠ [])) v) := by
  unfold AllOrNothing
  rw [atPath_eq]
  by_cases hmem : [] ∈ components cpath
  · rw [assignError, if_pos hmem, ← assign_eq_self_iff x hmem]
    constructor
    · intro hall _
      exact hall _ _ rfl
    · intro hsame v' e hthrows
      obtain ⟨rfl, -⟩ := Prod.mk.inj (Option.some.inj hthrows)
      exact hsame hmem
  · rw [assignError, if_neg hmem]
    refine iff_of_true ?_ fun h => absurd h hmem
    intro v' e hthrows
    cases (Prod.mk.inj (Option.some.inj hthrows)).2

/-- The path `a..b` makes a member `a` before its empty component is seen. -/
theorem not_allOrNothing_doubleDot : ¬(object [] : Value ℕ).AllOrNothing (bytes "a..b") null := by
  intro hall
  have hthrows : (object [] : Value ℕ).atPath (bytes "a..b") null =
      some (object [(bytes "a", undefined)], some .invalidPath) := rfl
  cases hall _ _ hthrows

end Value

end Json

end Cppcms
