import Cppcms.Base.Bytes
import Cppcms.Library.Segments

/-!
# The file server

`check_in_document_root` of `internal_file_server.cpp`, which turns the path of a request into the
name of a file.  The path is normalized in place: `out` is where the next component goes to, and the
octets behind it are old ones.

`canonical` is a call of the operating system and a parameter here.
-/

namespace Cppcms

namespace Service

/-- The components of a path. -/
def components (path : Bytes) : List Bytes := segments Ch.slash path

/-- The component that leads to the parent directory. -/
def dotDot : Bytes := [Ch.dot, Ch.dot]

/-! ## The normalization of the path -/

/-- `std::copy` of `c` to the position `out`. -/
def overwrite (path : Bytes) (out : ℕ) (c : Bytes) : Bytes :=
  path.take out ++ c ++ path.drop (out + c.length)

/-- The loop that looks for the separator in front of the last component. -/
def back (path : Bytes) : ℕ → ℕ
  | 0 => 0
  | out + 1 =>
      if 0 < out then (if path[out]? = some Ch.slash then out else back path out) else out + 1

/-- `std::find(start,path.end(),'/')`. -/
def findSlash (path : Bytes) (start : ℕ) : ℕ :=
  start + ((path.drop start).takeWhile (· ≠ Ch.slash)).length

/-- What is done with the component from `start` to `stop`: the new path and the new `out`. -/
def putComponent (size : ℕ) (path : Bytes) (out start stop : ℕ) : Bytes × ℕ :=
  let c := (path.drop start).take (stop - start)
  if c = [] ∨ c = [Ch.dot] then (path, out)
  else if c = dotDot then (path, if out > 1 then back path (out - 1) else out)
  else if stop ≠
    size then (overwrite (overwrite path out c) (out + c.length) [Ch.slash], out + c.length + 1)
  else (overwrite path out c, out + c.length)

/-- The loop over the components.  The path has `size` octets, and every round goes on behind one of
them, so that as many rounds are enough. -/
def normalizeLoop (size : ℕ) : ℕ → Bytes → ℕ → ℕ → Bytes × ℕ
  | 0, path, out, _ => (path, out)
  | rounds + 1, path, out, start =>
    if start < size then
      if findSlash path start = size then putComponent size path out start (findSlash path start)
      else
        normalizeLoop size rounds (putComponent size path out start (findSlash path start)).1
          (putComponent size path out start (findSlash path start)).2 (findSlash path start + 1)
    else (path, out)

/-- `normalize_path`. -/
def normalizePath (path : Bytes) : Bytes :=
  let path := if path.head? = some Ch.slash then path else Ch.slash :: path
  let r := normalizeLoop path.length path.length path 1 1
  r.1.take (if r.1[r.2 - 1]? = some Ch.slash ∧ r.2 > 1 then r.2 - 1 else r.2)

/-! ## The choice of the root -/

/-- `is_file_prefix`. -/
def isFilePrefix (pre full : Bytes) : Bool :=
  if pre.length > full.length then false
  else if full.take pre.length ≠ pre then false
  else if pre.length = 0 ∨ pre.getLast? = some Ch.slash then true
  else if full.length > pre.length ∧ full[pre.length]? ≠ some Ch.slash then false
  else true

/-- The configuration: the roots are canonical. -/
structure FileServer where
  documentRoot : Bytes
  aliases : List (Bytes × Bytes)
  checkSymlinks : Bool

namespace FileServer

/-- The loop over the aliases: the root, and the path below it. -/
def choose (root normal : Bytes) : List (Bytes × Bytes) → Bytes × Bytes
  | [] => (root, normal)
  | (ref, path) :: aliases =>
    if isFilePrefix ref normal then
      (path, if normal.drop ref.length = [] then [Ch.slash] else normal.drop ref.length)
    else choose root normal aliases

/-- The root for a path of a request, and the path below it. -/
def chosen (s : FileServer) (normal : Bytes) : Bytes × Bytes :=
  choose s.documentRoot (normalizePath normal) s.aliases

/-- `is_in_root`, with the real path. -/
def isInRoot (canonical : Bytes → Option Bytes) (inputPath root : Bytes) : Option Bytes :=
  match canonical (root ++ [Ch.slash] ++ inputPath) with
  | none => none
  | some real => if isFilePrefix root real then some real else none

/-- The last separator is removed from a file name. -/
def removeTrailing (real : Bytes) : Bytes :=
  if real.getLast? = some Ch.slash then real.dropLast else real

/-- `check_in_document_root`, with the real path where it returns true. -/
def checkInDocumentRoot (canonical : Bytes → Option Bytes) (s : FileServer) (normal : Bytes) :
    Option Bytes :=
  let root := (s.chosen normal).1
  let normal := (s.chosen normal).2
  if normal = [] then none
  else if normal.head? ≠ some Ch.slash then none
  else if s.checkSymlinks then isInRoot canonical normal root
  else some (removeTrailing (root ++ normal))

end FileServer

/-! ## Components -/

lemma components_append_slash (u v : Bytes) :
    components (u ++ Ch.slash :: v) = components u ++ components v :=
  segments_append_cons u v

/-- No component leads to the parent directory, or to the directory itself. -/
def Clean (path : Bytes) : Prop := ∀ c ∈ components path, c ≠ [Ch.dot] ∧ c ≠ dotDot

lemma clean_slash : Clean [Ch.slash] := by
  intro c hc
  have hnil : components [Ch.slash] = [] := segments_singleton
  rw [hnil] at hc
  cases hc

/-- What is in front of a separator is as clean as the whole. -/
lemma Clean.of_append {u v : Bytes} (h : Clean (u ++ Ch.slash :: v)) : Clean u := by
  intro c hc
  refine h c ?_
  rw [components_append_slash]
  exact List.mem_append_left _ hc

lemma Clean.append_slash {u : Bytes} (h : Clean u) : Clean (u ++ [Ch.slash]) := by
  intro c hc
  refine h c ?_
  have heq : components (u ++ [Ch.slash]) = components u := segments_append_singleton u
  rwa [heq] at hc

/-- A component behind another one, perhaps without a separator between them. -/
lemma Clean.append {w c : Bytes} (h : Clean w) (hc : Ch.slash ∉ c) (hne : c ≠ [])
    (hdot : c ≠ [Ch.dot]) (hdots : c ≠ dotDot) : Clean (w ++ c) := by
  intro x hx
  rcases mem_segments_append hc hne hx with hx | ⟨y, hy, rfl⟩
  · exact h x hx
  · rcases hy with rfl | hy
    · exact ⟨hdot, hdots⟩
    · have hynil : y ≠ [] := by
        have hfilter := List.mem_filter.1 hy
        simpa using hfilter.2
      rcases h y hy with ⟨hydot, -⟩
      -- a dot at most comes from each of them
      refine ⟨fun heq => ?_, fun heq => ?_⟩
      · rcases List.append_eq_singleton_iff.1 heq with ⟨hnil, -⟩ | ⟨-, hnil⟩
        · exact hynil hnil
        · exact hne hnil
      · rcases y with _ | ⟨y₀, y⟩
        · exact hynil rfl
        · rcases List.cons.inj heq with ⟨rfl, htail⟩
          rcases List.append_eq_singleton_iff.1 htail with ⟨rfl, -⟩ | ⟨-, hnil⟩
          · exact hydot rfl
          · exact hne hnil

/-! ## The cursor -/

/-- What was written so far is clean, and there is a separator in front. -/
structure Written (path : Bytes) (out : ℕ) : Prop where
  first : path.take 1 = [Ch.slash]
  pos : 1 ≤ out
  le : out ≤ path.length
  clean : Clean (path.take out)

variable {out : ℕ} {path c : Bytes}

lemma take_overwrite (hout : out ≤ path.length) :
    (overwrite path out c).take (out + c.length) = path.take out ++ c := by
  unfold overwrite
  have hlength : (path.take out ++ c).length = out + c.length := by
    rw [List.length_append, List.length_take, min_eq_left hout]
  rw [List.take_append_of_le_length hlength.ge, ← hlength, List.take_length]

lemma take_one_overwrite (hpos : 1 ≤ out) (hout : out ≤ path.length) :
    (overwrite path out c).take 1 = path.take 1 := by
  unfold overwrite
  rw [List.append_assoc, List.take_append_of_le_length, List.take_take, min_eq_left hpos]
  rw [List.length_take, min_eq_left hout]
  exact hpos

lemma le_length_overwrite (hout : out ≤ path.length) :
    out + c.length ≤ (overwrite path out c).length := by
  unfold overwrite
  rw [List.length_append, List.length_append, List.length_take, min_eq_left hout]
  omega

/-- A separator is found, or the begin is reached. -/
lemma back_cases (path : Bytes) (out : ℕ) (hpos : 1 ≤ out) :
    back path out = 1 ∨ 1 ≤ back path out ∧ back path out < out ∧
    path[back path out]? = some Ch.slash := by
  induction out with
  | zero => omega
  | succ out ih =>
    rw [back]
    split_ifs with hout hslash
    · exact Or.inr ⟨hout, Nat.lt_succ_self out, hslash⟩
    · rcases ih hout with hone | ⟨hpos', hlt, hslash'⟩
      · exact Or.inl hone
      · exact Or.inr ⟨hpos', hlt.trans (Nat.lt_succ_self out), hslash'⟩
    · exact Or.inl (by omega)

lemma Written.back {path : Bytes} (h : Written path out) (hout : out > 1) :
    Written path (back path (out - 1)) := by
  rcases back_cases path (out - 1) (by omega) with hone | ⟨hpos, hlt, hslash⟩
  · rw [hone]
    refine ⟨h.first, le_rfl, hout.le.trans h.le, ?_⟩
    rw [h.first]
    exact clean_slash
  · have hle := h.le
    refine ⟨h.first, hpos, by omega, ?_⟩
    have hsplit : path.take out = path.take (Service.back path (out - 1)) ++
        Ch.slash :: (path.take out).drop (Service.back path (out - 1) + 1) := by
      generalize Service.back path (out - 1) = pos at hlt hslash
      have hget : (path.take out)[pos]? = some Ch.slash := by
        rw [List.getElem?_take_of_lt (by omega)]
        exact hslash
      rcases List.getElem?_eq_some_iff.1 hget with ⟨hpos', hget'⟩
      have htake : (path.take out).take pos = path.take pos := by
        rw [List.take_take, min_eq_left (by omega)]
      rw [← htake, ← hget', List.getElem_cons_drop, List.take_append_drop]
    have hclean := h.clean
    rw [hsplit] at hclean
    exact hclean.of_append

lemma Written.copy (h : Written path out) (hc : Ch.slash ∉ c) (hne : c ≠ []) (hdot : c ≠ [Ch.dot])
    (hdots : c ≠ dotDot) : Written (overwrite path out c) (out + c.length) := by
  refine ⟨?_, h.pos.trans (Nat.le_add_right _ _), le_length_overwrite h.le, ?_⟩
  · rw [take_one_overwrite h.pos h.le]
    exact h.first
  · rw [take_overwrite h.le]
    exact h.clean.append hc hne hdot hdots

lemma Written.slash {path : Bytes} (h : Written path out) :
    Written (overwrite path out [Ch.slash]) (out + 1) := by
  refine ⟨?_, h.pos.trans (Nat.le_add_right _ _), le_length_overwrite (c := [Ch.slash]) h.le, ?_⟩
  · rw [take_one_overwrite h.pos h.le]
    exact h.first
  · have htake := take_overwrite (c := [Ch.slash]) h.le
    rw [List.length_singleton] at htake
    rw [htake]
    exact h.clean.append_slash

/-- A round of the loop. -/
lemma Written.putComponent {path : Bytes} {out start : ℕ} (h : Written path out) (size : ℕ) :
    Written (putComponent size path out start (findSlash path start)).1
      (putComponent size path out start (findSlash path start)).2 := by
  have hcomponent : (path.drop start).take ((path.drop start).takeWhile (· ≠ Ch.slash)).length =
      (path.drop start).takeWhile (· ≠ Ch.slash) :=
    List.prefix_iff_eq_take.1 (List.takeWhile_prefix _) |>.symm
  have hslash : Ch.slash ∉ (path.drop start).takeWhile (· ≠ Ch.slash) := notMem_takeWhile _
  unfold Service.putComponent findSlash
  rw [Nat.add_sub_cancel_left, hcomponent]
  dsimp only
  split_ifs with hskip hparent hout hend
  · exact h
  · exact h.back hout
  · exact h
  · rw [not_or] at hskip
    exact (h.copy hslash hskip.1 hskip.2 hparent).slash
  · rw [not_or] at hskip
    exact h.copy hslash hskip.1 hskip.2 hparent

lemma Written.normalizeLoop {path : Bytes} (h : Written path out) (size rounds start : ℕ) :
    Written (normalizeLoop size rounds path out start).1
      (normalizeLoop size rounds path out start).2 := by
  induction rounds generalizing path out start with
  | zero => exact h
  | succ rounds ih =>
    rw [Service.normalizeLoop]
    split_ifs with hstart hstop
    · exact h.putComponent size
    · exact ih (h.putComponent size) _
    · exact h

/-- A normalized path begins with a separator and is clean. -/
lemma normalizePath_clean (path : Bytes) :
    (normalizePath path).head? = some Ch.slash ∧ Clean (normalizePath path) := by
  have hstart : ∀ p : Bytes, p.head? = some Ch.slash → Written p 1 := by
    intro p hp
    rcases p with _ | ⟨c, p⟩
    · cases hp
    · have hc : c = Ch.slash := Option.some.inj hp
      rw [hc]
      exact ⟨rfl, le_rfl, Nat.succ_le_succ (Nat.zero_le _), clean_slash⟩
  have hfirst : (if path.head? = some Ch.slash then path else Ch.slash :: path).head? =
      some Ch.slash := by
    split_ifs with h
    · exact h
    · rfl
  unfold normalizePath
  dsimp only
  generalize (if path.head? = some Ch.slash then path else Ch.slash :: path) = p at hfirst
  have h := (hstart p hfirst).normalizeLoop p.length p.length 1
  generalize normalizeLoop p.length p.length p 1 1 = r at h
  have hhead : ∀ n, 1 ≤ n → (r.1.take n).head? = some Ch.slash := by
    intro n hn
    have hone : (r.1.take n).take 1 = [Ch.slash] := by
      rw [List.take_take, min_eq_left hn]
      exact h.first
    rcases hr : r.1.take n with _ | ⟨c, rest⟩
    · rw [hr] at hone
      cases hone
    · rw [hr] at hone
      exact congrArg some (List.cons.inj hone).1
  have hpos := h.pos
  have hle := h.le
  split_ifs with htrailing
  · refine ⟨hhead _ (by omega), ?_⟩
    have hsplit : r.1.take r.2 = r.1.take (r.2 - 1) ++ Ch.slash :: [] := by
      have hsucc : r.2 = r.2 - 1 + 1 := by omega
      rw [hsucc, List.take_add_one, Nat.add_sub_cancel, htrailing.1]
      rfl
    have hclean := h.clean
    rw [hsplit] at hclean
    exact hclean.of_append
  · exact ⟨hhead _ hpos, h.clean⟩

/-! ## Containment -/

/-- A prefix in the sense of the file system is one of components. -/
lemma components_of_isFilePrefix {pre full : Bytes} (h : isFilePrefix pre full = true) :
    full = pre ++ full.drop pre.length ∧
    components full = components pre ++ components (full.drop pre.length) := by
  unfold isFilePrefix at h
  split_ifs at h with hlength htake hend hnext
  · have hfull : full = pre ++ full.drop pre.length := by
      rw [not_not] at htake
      nth_rewrite 1 [← htake]
      exact (List.take_append_drop _ _).symm
    refine ⟨hfull, ?_⟩
    rcases hend with hzero | hslash
    · rw [List.length_eq_zero_iff.1 hzero]
      rfl
    · rcases List.getLast?_eq_some_iff.1 hslash with ⟨u, hu⟩
      nth_rewrite 1 [hfull]
      rw [hu, List.append_assoc, List.singleton_append, components_append_slash]
      have hlast : components (u ++ [Ch.slash]) = components u := segments_append_singleton u
      rw [hlast]
  · have hfull : full = pre ++ full.drop pre.length := by
      rw [not_not] at htake
      nth_rewrite 1 [← htake]
      exact (List.take_append_drop _ _).symm
    refine ⟨hfull, ?_⟩
    rcases hrest : full.drop pre.length with _ | ⟨c, rest⟩
    · rw [hrest, List.append_nil] at hfull
      rw [hfull]
      exact (List.append_nil _).symm
    · have hlonger : full.length > pre.length := by
        have hlen := congrArg List.length hrest
        rw [List.length_drop, List.length_cons] at hlen
        omega
      have hc : c = Ch.slash := by
        by_contra hne
        refine hnext ⟨hlonger, fun hget => hne ?_⟩
        have hhead : (full.drop pre.length)[0]? = some Ch.slash := by
          rw [List.getElem?_drop, Nat.add_zero]
          exact hget
        rw [hrest] at hhead
        exact Option.some.inj hhead
      rw [hrest, hc] at hfull
      rw [hfull, hc, components_append_slash]
      exact congrArg _ (components_append_slash [] rest).symm

namespace FileServer

/-- The root is one of the configured ones, and what is looked for below it has no component that
leads out. -/
lemma choose_clean {root normal : Bytes} (hnormal : Clean normal) (aliases : List (Bytes × Bytes)) :
    (choose root normal aliases).1 ∈ root :: aliases.map Prod.snd ∧
    Clean (choose root normal aliases).2 := by
  induction aliases with
  | nil => exact ⟨List.mem_cons_self, hnormal⟩
  | cons x aliases ih =>
    rcases x with ⟨ref, path⟩
    rw [choose]
    split_ifs with hprefix hempty
    · exact ⟨List.mem_cons_of_mem _ List.mem_cons_self, clean_slash⟩
    · refine ⟨List.mem_cons_of_mem _ List.mem_cons_self, fun c hc => hnormal c ?_⟩
      rw [(components_of_isFilePrefix hprefix).2]
      exact List.mem_append_right _ hc
    · refine ⟨?_, ih.2⟩
      rcases List.mem_cons.1 ih.1 with hroot | halias
      · rw [hroot]
        exact List.mem_cons_self
      · exact List.mem_cons_of_mem _ (List.mem_cons_of_mem _ halias)

lemma components_removeTrailing (real : Bytes) :
    components (removeTrailing real) = components real := by
  unfold removeTrailing
  split_ifs with hlast
  · rcases List.getLast?_eq_some_iff.1 hlast with ⟨u, hu⟩
    rw [hu, List.dropLast_concat]
    exact (segments_append_singleton u).symm
  · rfl

/-- Whatever the path of the request, the real path that `check_in_document_root` gives is the root
that was chosen or below it: it has the components of the root, and none of the others leads to a
parent directory. -/
theorem checkInDocumentRoot_below {canonical : Bytes → Option Bytes}
    (hcanonical : ∀ path real, canonical path = some real →
      real.head? = some Ch.slash ∧ [Ch.dot] ∉ components real ∧ dotDot ∉ components real)
    (s : FileServer) {normal real : Bytes}
      (h : s.checkInDocumentRoot canonical normal = some real) :
    (s.chosen normal).1 ∈ s.documentRoot :: s.aliases.map Prod.snd ∧
      ∃ below, components real = components (s.chosen normal).1 ++ below ∧ dotDot ∉ below := by
  have hclean : (s.chosen normal).1 ∈ s.documentRoot :: s.aliases.map Prod.snd ∧
      Clean (s.chosen normal).2 :=
    choose_clean (normalizePath_clean normal).2 s.aliases
  refine ⟨hclean.1, ?_⟩
  unfold checkInDocumentRoot at h
  dsimp only at h
  split_ifs at h with hempty hslash hsymlinks
  · unfold isInRoot at h
    rcases hreal : canonical ((s.chosen normal).1 ++ [Ch.slash] ++ (s.chosen normal).2) with _ |
      real'
    · rw [hreal] at h
      cases h
    · rw [hreal] at h
      dsimp only at h
      split_ifs at h with hprefix
      rw [Option.some.inj h] at hprefix hreal
      have hcomponents := (components_of_isFilePrefix hprefix).2
      refine ⟨_, hcomponents, fun hmem => (hcanonical _ _ hreal).2.2 ?_⟩
      rw [hcomponents]
      exact List.mem_append_right _ hmem
  · rw [not_not] at hslash
    rcases hnormal : (s.chosen normal).2 with _ | ⟨c, rest⟩
    · exact absurd hnormal hempty
    · rw [hnormal] at hslash h
      have hc : c = Ch.slash := Option.some.inj hslash
      rw [← Option.some.inj h, components_removeTrailing, hc, components_append_slash]
      refine ⟨_, rfl, fun hmem => ?_⟩
      refine (hclean.2 dotDot ?_).2 rfl
      have hpath : (s.chosen normal).2 = [] ++ Ch.slash :: rest :=
        hnormal.trans (by rw [hc]; rfl)
      rw [hpath, components_append_slash]
      exact List.mem_append_right _ hmem

/-- A document root with an alias. -/
def pictures : FileServer := ⟨bytes "/www", [(bytes "/img", bytes "/srv/pictures")], true⟩

/-- `canonicalize_file_name` where there is one file. -/
def onePicture (path : Bytes) : Option Bytes :=
  if path = bytes "/srv/pictures//a.png" then some (bytes "/srv/pictures/a.png") else none

lemma onePicture_canonical (path real : Bytes) (h : onePicture path = some real) :
    real.head? = some Ch.slash ∧ [Ch.dot] ∉ components real ∧ dotDot ∉ components real := by
  unfold onePicture at h
  split_ifs at h
  rw [← Option.some.inj h]
  decide

theorem checkInDocumentRoot_below_pictures :
    pictures.checkInDocumentRoot onePicture (bytes "/x/../img/a.png") =
      some (bytes "/srv/pictures/a.png") ∧
      (pictures.chosen (bytes "/x/../img/a.png")).1 ∈ [bytes "/www", bytes "/srv/pictures"] ∧
      ∃ below, components (bytes "/srv/pictures/a.png") =
        components (pictures.chosen (bytes "/x/../img/a.png")).1 ++ below ∧ dotDot ∉ below :=
  ⟨by decide, checkInDocumentRoot_below onePicture_canonical pictures (by decide)⟩

end FileServer

end Service

end Cppcms
