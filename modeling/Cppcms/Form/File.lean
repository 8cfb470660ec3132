import Cppcms.Form.Text
import Cppcms.Http.Multipart

/-!
# File widgets

`widgets::file` of `form.cpp`.  The check for magic strings reads the beginning of the upload
through the same stream that the application reads it from later.
-/

namespace Cppcms

namespace Form

open Http

/-! ## The stream of an upload -/

/-- An uploaded file with the state of the stream that `data` gives. -/
structure Upload where
  file : HttpFile
  eof : Bool
  fail : Bool

namespace Upload

/-- `std::istream::seekg`: it clears `eofbit`, and does nothing when `failbit` is set. -/
def seekg (pos : ℤ) (u : Upload) : Upload :=
  if u.fail then { u with eof := false }
  else
    let (data, offset) := u.file.data.step (.seek pos .beg)
    { u with file := { u.file with data := data }, eof := false, fail := offset = .offset (-1) }

/-- `sgetn` of the buffer: the octets that there are, at most so many as are asked for. -/
def sgetn : ℕ → Spool → Bytes × Spool
  | 0, s => ([], s)
  | n + 1, s =>
    match s.step .read with
    | (s, .octet (some c)) => (c :: (sgetn n s).1, (sgetn n s).2)
    | (s, _) => ([], s)

/-- `std::istream::read` with `gcount`: a short read sets `eofbit` and `failbit`. -/
def read (n : ℕ) (u : Upload) : Bytes × Upload :=
  if u.eof ∨ u.fail then ([], { u with fail := true })
  else
    let (s, data) := sgetn n u.file.data
    (s, { u with file := { u.file with data := data }, eof := s.length < n, fail := s.length < n })

/-- The stream of an upload that was parsed: it is in a good state, and the first octet is read
next. -/
structure Fresh (u : Upload) : Prop where
  eof : u.eof = false
  fail : u.fail = false
  cursor : u.file.data.cursor = 0

def content (u : Upload) : Bytes := u.file.data.written

end Upload

/-! ## The widget -/

/-- `widgets::file`; the upload is there if it is set.  A regular expression says which texts match.
-/
structure FileWidget where
  upload : Option Upload
  valid : Bool
  sizeMin : ℤ
  sizeMax : ℤ
  checkCharset : Bool
  checkNonEmpty : Bool
  mimeString : Bytes
  mimeRegex : Option (Bytes → Bool)
  filenameRegex : Option (Bytes → Bool)
  magics : List Bytes

namespace FileWidget

/-- The constructor. -/
def init : FileWidget := ⟨none, true, -1, -1, true, false, [], none, none, []⟩

/-- `load`: the first file with the name of the widget. -/
def load (c : Charset) (w : FileWidget) (name : Bytes) (files : List Upload) : FileWidget :=
  if name = [] then { w with upload := none, valid := true }
  else
    match files.find? fun u => u.file.name = name with
    | none => { w with upload := none, valid := true }
    | some u => { w with upload := some u, valid := !w.checkCharset || c.valid u.file.filename }

/-- The size of the longest magic string. -/
def magicSize (w : FileWidget) : ℕ := w.magics.foldl (fun size m => max m.length size) 0

/-- The part of `validate` that looks for a magic string. -/
def validateMagic (w : FileWidget) (u : Upload) : Bool × FileWidget :=
  let (magic, u) := (u.seekg 0).read w.magicSize
  let valid := w.magics.any fun m => magic.take m.length = m
  (valid, { w with upload := some (u.seekg 0), valid := valid })

/-- The limits of the size are kept. -/
def sizeFits (w : FileWidget) (size : ℕ) : Bool :=
  !(w.sizeMax ≠ -1 && sizeT w.sizeMax < size) && !(w.sizeMin ≠ -1 && size < sizeT w.sizeMin)

def validate (w : FileWidget) : Bool × FileWidget :=
  match w.upload with
  | none => (!w.checkNonEmpty, { w with valid := !w.checkNonEmpty })
  | some u =>
    if w.valid = false then (false, w)
    else if w.sizeFits u.file.size = false then (false, { w with valid := false })
    else if w.mimeString ≠ [] ∧ u.file.mime ≠ w.mimeString then (false, { w with valid := false })
    else if w.mimeRegex.any fun r => !r u.file.mime then (false, { w with valid := false })
    else if w.filenameRegex.any fun r => !r u.file.filename then (false, { w with valid := false })
    else if w.magics = [] then (true, w)
    else w.validateMagic u

/-! ## What is asked of it -/

/-- Everything but the magic strings is as it should be. -/
def OthersFit (w : FileWidget) (u : Upload) : Prop :=
  w.valid = true ∧ w.sizeFits u.file.size = true ∧
    (w.mimeString = [] ∨ u.file.mime = w.mimeString) ∧
    (∀ r ∈ w.mimeRegex, r u.file.mime = true) ∧ ∀ r ∈ w.filenameRegex, r u.file.filename = true

/-- There are no magic strings, or the upload starts with one. -/
def MagicFits (w : FileWidget) (u : Upload) : Prop :=
  w.magics = [] ∨ ∃ m ∈ w.magics, m <+: u.content

/-- `validate` refuses what it should, and leaves the upload as it was. -/
def LeavesReadable (w : FileWidget) (u : Upload) : Prop :=
  (w.validate.1 = true ↔ w.OthersFit u ∧ w.MagicFits u) ∧
    ∃ u', w.validate.2.upload = some u' ∧ u'.Fresh ∧ u'.content = u.content

end FileWidget

/-! ## Reading -/

lemma Upload.sgetn_eq (n : ℕ) (s : Spool) : (sgetn n s).1 = (s.written.drop s.cursor).take n ∧
    (sgetn n s).2.written = s.written := by
  induction n generalizing s with
  | zero => exact ⟨rfl, rfl⟩
  | succ n ih =>
    unfold sgetn
    by_cases hlt : s.cursor < s.written.length
    · have hread : s.step .read =
          (⟨s.written, s.cursor + 1, hlt⟩, .octet (some s.written[s.cursor])) := by
        show (s.read, _) = _
        rw [Spool.read, dif_pos hlt, List.getElem?_eq_getElem hlt]
      rw [hread]
      dsimp only
      have hrest := ih ⟨s.written, s.cursor + 1, hlt⟩
      refine ⟨?_, hrest.2⟩
      rw [hrest.1, List.drop_eq_getElem_cons hlt, List.take_succ_cons]
    · have hread : s.step .read = (s, .octet none) := by
        show (s.read, _) = _
        rw [Spool.read, dif_neg hlt, List.getElem?_eq_none (not_lt.1 hlt)]
      rw [hread]
      dsimp only
      rw [List.drop_eq_nil_of_le (not_lt.1 hlt), List.take_nil]
      exact ⟨rfl, rfl⟩

lemma Upload.step_seek_zero (s : Spool) :
    s.step (.seek 0 .beg) = (⟨s.written, 0, Nat.zero_le _⟩, .offset 0) := by
  have htarget : s.target 0 .beg = 0 := rfl
  have hfits : 0 ≤ s.target 0 .beg ∧ s.target 0 .beg ≤ s.written.length := by
    rw [htarget]
    exact ⟨le_refl 0, Int.natCast_nonneg _⟩
  show (s.seek 0 .beg, Result.offset
    (if 0 ≤ s.target 0 .beg ∧ s.target 0 .beg ≤ s.written.length then _ else -1)) = _
  rw [Spool.seek, dif_pos hfits, if_pos hfits]
  rfl

section

variable {w : FileWidget} {u : Upload}

/-- A seek to the beginning keeps the failure of a stream, and makes every other one fresh. -/
lemma Upload.seekg_zero (u : Upload) :
    (u.seekg 0).content = u.content ∧ ((u.seekg 0).Fresh ↔ u.fail = false) := by
  unfold seekg
  by_cases hfail : u.fail = true
  · rw [if_pos hfail]
    refine ⟨rfl, ?_⟩
    constructor
    · intro h
      exact h.fail
    · intro h
      rw [h] at hfail
      cases hfail
  · rw [if_neg hfail, step_seek_zero]
    have hfalse : u.fail = false := by simpa using hfail
    exact ⟨rfl, iff_of_true ⟨rfl, rfl, rfl⟩ hfalse⟩

/-- A fresh stream gives the beginning of the upload, and fails if that is all of it and less than
was asked for. -/
lemma Upload.Fresh.read (hu : u.Fresh) (n : ℕ) : (u.read n).1 = u.content.take n ∧
    (u.read n).2.content = u.content ∧ ((u.read n).2.fail = false ↔ n ≤ u.content.length) := by
  have hgood : ¬ (u.eof = true ∨ u.fail = true) := by
    rw [hu.eof, hu.fail]
    decide
  have hsgetn := sgetn_eq n u.file.data
  rw [hu.cursor, List.drop_zero] at hsgetn
  unfold Upload.read
  rw [if_neg hgood]
  refine ⟨hsgetn.1, hsgetn.2, ?_⟩
  show decide ((sgetn n u.file.data).1.length < n) = false ↔ _
  rw [hsgetn.1, decide_eq_false_iff_not, List.length_take, not_lt, le_min_iff,
    and_iff_right (le_refl n)]
  rfl

lemma Upload.Fresh.seekg_zero (hu : u.Fresh) : (u.seekg 0).Fresh := u.seekg_zero.2.2 hu.fail

lemma FileWidget.length_le_magicSize {m : Bytes} (hm : m ∈ w.magics) : m.length ≤ w.magicSize := by
  have hfold : ∀ (ms : List Bytes) (size : ℕ),
    size ≤ ms.foldl (fun size m => max m.length size) size ∧
      ∀ m ∈ ms, m.length ≤ ms.foldl (fun size m => max m.length size) size := by
    intro ms
    induction ms with
    | nil => exact fun size => ⟨le_refl size, List.forall_mem_nil _⟩
    | cons m ms ih =>
      intro size
      rcases ih (max m.length size) with ⟨hsize, hms⟩
      refine ⟨(le_max_right _ _).trans hsize, ?_⟩
      intro m' hm'
      rcases List.mem_cons.1 hm' with rfl | hm'
      · exact (le_max_left _ _).trans hsize
      · exact hms m' hm'
  exact (hfold w.magics 0).2 m hm

/-- What is found in the octets that were read is found in the upload. -/
lemma FileWidget.validateMagic_spec (hu : u.Fresh) :
    ((w.validateMagic u).1 = true ↔ ∃ m ∈ w.magics, m <+: u.content) ∧
      ∃ u', (w.validateMagic u).2.upload = some u' ∧ u'.content = u.content ∧
        (u'.Fresh ↔ w.magicSize ≤ u.content.length) := by
  have hsame : (u.seekg 0).content = u.content := u.seekg_zero.1
  rcases hu.seekg_zero.read w.magicSize with ⟨hread, hcontent, hfail⟩
  rw [hsame] at hread hcontent hfail
  have hseek := ((u.seekg 0).read w.magicSize).2.seekg_zero
  constructor
  · show (w.magics.any fun m => ((u.seekg 0).read w.magicSize).1.take m.length = m) = true ↔ _
    rw [hread, List.any_eq_true]
    refine exists_congr fun m => and_congr_right fun hm => ?_
    rw [decide_eq_true_iff, List.take_take, Nat.min_eq_left (w.length_le_magicSize hm)]
    constructor
    · intro htake
      rw [← htake]
      exact List.take_prefix _ _
    · intro hprefix
      exact (List.prefix_iff_eq_take.1 hprefix).symm
  · exact ⟨_, rfl, hseek.1.trans hcontent, hseek.2.trans hfail⟩

/-- The checks before the one for magic strings refuse an upload exactly when they should. -/
lemma FileWidget.validate_cases (hw : w.upload = some u) :
    (¬ w.OthersFit u ∧ w.validate.1 = false ∧ w.validate.2.upload = some u) ∨
      (w.OthersFit u ∧ w.validate = if w.magics = [] then (true, w) else w.validateMagic u) := by
  unfold validate OthersFit
  rw [hw]
  dsimp only
  by_cases hvalid : w.valid = false
  · rw [if_pos hvalid]
    refine .inl ⟨?_, rfl, hw⟩
    rintro ⟨htrue, -⟩
    rw [hvalid] at htrue
    cases htrue
  rw [if_neg hvalid]
  by_cases hsize : w.sizeFits u.file.size = false
  · rw [if_pos hsize]
    refine .inl ⟨?_, rfl, rfl⟩
    rintro ⟨-, htrue, -⟩
    rw [hsize] at htrue
    cases htrue
  rw [if_neg hsize]
  by_cases hmime : w.mimeString ≠ [] ∧ u.file.mime ≠ w.mimeString
  · rw [if_pos hmime]
    refine .inl ⟨?_, rfl, rfl⟩
    rintro ⟨-, -, hfits, -⟩
    exact hfits.elim hmime.1 hmime.2
  rw [if_neg hmime]
  by_cases hregex : (w.mimeRegex.any fun r => !r u.file.mime) = true
  · rw [if_pos hregex]
    refine .inl ⟨?_, rfl, rfl⟩
    rintro ⟨-, -, -, hfits, -⟩
    rcases (Option.any_eq_true _ _).1 hregex with ⟨r, hr, hno⟩
    rw [hfits r hr] at hno
    cases hno
  rw [if_neg hregex]
  by_cases hfilename : (w.filenameRegex.any fun r => !r u.file.filename) = true
  · rw [if_pos hfilename]
    refine .inl ⟨?_, rfl, rfl⟩
    rintro ⟨-, -, -, -, hfits⟩
    rcases (Option.any_eq_true _ _).1 hfilename with ⟨r, hr, hno⟩
    rw [hfits r hr] at hno
    cases hno
  rw [if_neg hfilename]
  refine .inr ⟨⟨by simpa using hvalid, by simpa using hsize, ?_, ?_, ?_⟩, rfl⟩
  · by_cases hempty : w.mimeString = []
    · exact .inl hempty
    · exact .inr (by_contra fun hne => hmime ⟨hempty, hne⟩)
  · intro r hr
    by_contra hno
    exact hregex ((Option.any_eq_true _ _).2 ⟨r, hr, by simpa using hno⟩)
  · intro r hr
    by_contra hno
    exact hfilename ((Option.any_eq_true _ _).2 ⟨r, hr, by simpa using hno⟩)

/-- An upload is refused exactly when it should be and stays readable if and only if it is at least
as long as the longest magic string, or not looked into at all. -/
theorem FileWidget.leavesReadable_iff (hw : w.upload = some u) (hu : u.Fresh) :
    w.LeavesReadable u ↔ (w.OthersFit u → w.magicSize ≤ u.content.length) := by
  unfold LeavesReadable
  rcases w.validate_cases hw with ⟨hothers, hresult, hupload⟩ | ⟨hothers, hvalidate⟩
  · refine iff_of_true ⟨?_, u, hupload, hu, rfl⟩ fun h => absurd h hothers
    rw [hresult]
    exact iff_of_false Bool.false_ne_true fun h => hothers h.1
  · rw [hvalidate, forall_prop_of_true hothers, and_iff_right hothers]
    unfold MagicFits
    by_cases hmagics : w.magics = []
    · rw [if_pos hmagics]
      have hsize : w.magicSize = 0 := by
        unfold magicSize
        rw [hmagics]
        rfl
      rw [hsize]
      exact iff_of_true ⟨iff_of_true rfl (.inl hmagics), u, hw, hu, rfl⟩ (Nat.zero_le _)
    · rw [if_neg hmagics, or_iff_right hmagics]
      rcases w.validateMagic_spec hu with ⟨hfound, u', hupload, hcontent, hfresh⟩
      rw [and_iff_right hfound, hupload, ← hfresh]
      constructor
      · rintro ⟨u'', heq, hfresh', -⟩
        cases heq
        exact hfresh'
      · intro h
        exact ⟨u', rfl, h, hcontent⟩

/-- A parsed upload. -/
def Upload.ofContent (content : Bytes) : Upload :=
  ⟨⟨[], [], [], ⟨content, 0, Nat.zero_le _⟩⟩, false, false⟩

lemma Upload.fresh_ofContent (content : Bytes) : (Upload.ofContent content).Fresh := ⟨rfl, rfl, rfl⟩

/-- A widget for two kinds of pictures. -/
def FileWidget.pictures (content : Bytes) : FileWidget :=
  { FileWidget.init with upload := some (.ofContent content), magics :=
    [bytes "GIF8", bytes "PNG"] }

theorem FileWidget.leavesReadable_iff_pictures :
    (pictures (bytes "GIF89a")).upload = some (.ofContent (bytes "GIF89a")) ∧
      (Upload.ofContent (bytes "GIF89a")).Fresh ∧
      ((pictures (bytes "GIF89a")).LeavesReadable (.ofContent (bytes "GIF89a")) ↔
        ((pictures (bytes "GIF89a")).OthersFit (.ofContent (bytes "GIF89a")) →
          (pictures (bytes "GIF89a")).magicSize ≤
            (Upload.ofContent (bytes "GIF89a")).content.length)) :=
  ⟨rfl, Upload.fresh_ofContent _, leavesReadable_iff rfl (Upload.fresh_ofContent _)⟩

/-- A short upload that is accepted cannot be read any more. -/
theorem FileWidget.not_leavesReadable_short :
    ¬ ∀ (w : FileWidget) (u : Upload), w.upload = some u → u.Fresh →
    w.LeavesReadable u := by
  intro h
  rcases h (pictures (bytes "PNG")) (.ofContent (bytes "PNG")) rfl (Upload.fresh_ofContent _) with
    ⟨-, u', hupload, hfresh, -⟩
  cases hupload
  exact absurd hfresh.fail (by decide)

end

end Form

end Cppcms
