import Cppcms.Base.Numbers
import Cppcms.Http.Request

/-!
# The accounting of a content

`connection::load_content` of `cgi_api.cpp` with `request::get_buffer` of `http_request.cpp`: the
content is read into buffers that the request gives, until they are empty.  The length comes from
the text of a header, so it may be negative, and only zero is looked for.
-/

namespace Cppcms

namespace Http

/-! ## Loading -/

/-- `env_content_length`: the number in the text, or 0 if there is no text. -/
def envContentLength (text : Bytes) : ℤ := if text = [] then 0 else atoll text

/-- What is read at once, and how the filter answers to it.  The code of an `abort_upload` is a
status, so it is not 0. -/
structure Piece where
  data : Bytes
  call : FilterCall → Option ℕ
  call_ne_zero : ∀ c, call c ≠ some 0

namespace Request

/-- The sizes that `on_content_start` gives to vectors. -/
def startResizes (r : Request) : List ℤ :=
  if r.contentLength = 0 then []
  else if r.contentType.isMultipartFormData ∧
    r.contentLength > r.limits.multipartFormDataLimit then []
  else if ¬ r.contentType.isMultipartFormData ∧
  r.contentLength > r.limits.contentLengthLimit then []
  else if r.filterIsRaw then []
  else if ¬ r.contentType.isMultipartFormData then [r.contentLength]
  else []

/-- The size of the buffer that `get_buffer` gives.  `buffer_size` is at least 1 by `setbuf`. -/
def bufferSize (buffer : ℕ+) (r : Request) : ℤ :=
  if r.readFull then r.postData.length - r.readSize
  else if r.contentLength - r.readSize < buffer then r.contentLength - r.readSize
  else buffer

/-- The sizes that `get_buffer` gives to vectors. -/
def bufferResizes (buffer : ℕ+) (r : Request) : List ℤ :=
  if r.readFull then [] else [r.bufferSize buffer]

/-- The request with the filter as it is when a piece is read. -/
def withCall (r : Request) (call : FilterCall → Option ℕ) : Request :=
  { r with filter := r.filter.map fun f => { f with call := call } }

/-- The limit for contents of this type. -/
def limit (r : Request) : ℤ :=
  if r.contentType.isMultipartFormData then r.limits.multipartFormDataLimit
    else r.limits.contentLengthLimit

/-- The content is refused before it is read: it is too long, or it has parts and no boundary. -/
def Refused (r : Request) : Prop :=
  r.contentLength ≠ 0 ∧ (r.contentLength > r.limit ∨
    r.contentType.isMultipartFormData ∧ ¬ r.filterIsRaw ∧
    MultipartParser.init.setContentType r.contentType = none)

end Request

/-- The request while its content is read.  `status` is the status that it was rejected with, or 0,
`buffer` the size of the buffer that is read into, and `resizes` are the sizes that vectors were
given. -/
structure Loading where
  request : Request
  status : ℕ
  buffer : Option ℤ
  resizes : List ℤ

namespace Loading

/-- The request gives the next buffer. -/
def next (buffer : ℕ+) (r : Request) (resizes : List ℤ) : Loading :=
  ⟨r, 0, some (r.bufferSize buffer), resizes ++ r.bufferResizes buffer⟩

/-- `load_content`. -/
def start (buffer : ℕ+) (r : Request) : Loading :=
  if r.onContentStart.2 ≠ 0 then ⟨r.onContentStart.1, r.onContentStart.2, none, r.startResizes⟩
  else if r.onContentStart.1.contentLength > 0 then next buffer r.onContentStart.1 r.startResizes
  else ⟨r.onContentStart.1, 0, none, r.startResizes⟩

/-- `on_some_content_read`, for a piece that has a place in the buffer. -/
def read (buffer : ℕ+) (l : Loading) (p : Piece) : Loading :=
  match l.buffer with
  | none => l
  | some size =>
    if size < p.data.length then l
    else if ((l.request.withCall p.call).onContentProgress p.data).2 ≠ 0 then
      ⟨((l.request.withCall p.call).onContentProgress p.data).1,
        ((l.request.withCall p.call).onContentProgress p.data).2, none, l.resizes⟩
    else if ((l.request.withCall p.call).onContentProgress p.data).1.bufferSize buffer = 0 then
      { next buffer ((l.request.withCall p.call).onContentProgress p.data).1
        l.resizes with buffer := none }
    else next buffer ((l.request.withCall p.call).onContentProgress p.data).1 l.resizes

def reads (buffer : ℕ+) (l : Loading) (pieces : List Piece) : Loading :=
  pieces.foldl (read buffer) l

/-- The numbers of a request that was not rejected. -/
structure Balanced (limit : ℤ) (l : Loading) : Prop where
  buffer_le : ∀ size ∈ l.buffer, size ≤ l.request.contentLength - l.request.readSize
  read_nonneg : 0 ≤ l.request.readSize
  read_le : l.request.readSize ≤ l.request.contentLength
  resizes : ∀ n ∈ l.resizes, 0 ≤ n ∧ n ≤ limit
  ready_iff : l.request.ready ↔ l.request.readSize = l.request.contentLength

/-- The request has been rejected, or its numbers are in order. -/
def Accounted (limit : ℤ) (l : Loading) : Prop := l.status ≠ 0 ∨ l.Balanced limit

end Loading

/-! ## One piece -/

namespace Request

section Lemmas

variable {r : Request} {length : ℤ}

/-- The numbers of a request. -/
structure Sound (length : ℤ) (r : Request) : Prop where
  contentLength : r.contentLength = length
  read_nonneg : 0 ≤ r.readSize
  read_le : r.readSize ≤ length
  full : r.readFull → (r.postData.length : ℤ) = length
  ready_iff : r.ready ↔ r.readSize = length

/-- No answer of the filter is the status 0. -/
def CallsNeZero (r : Request) : Prop := ∀ f ∈ r.filter, ∀ c, f.call c ≠ some 0

lemma CallsNeZero.notify (h : r.CallsNeZero) (kind : FilterKind) (c : FilterCall) :
    r.notify kind c ≠ some 0 := by
  unfold Request.notify
  rcases hf : r.filter with _ | f
  · exact fun hnone => absurd hnone (by simp)
  · rw [Option.bind_some]
    split_ifs
    · exact h f hf c
    · exact fun hnone => absurd hnone (by simp)

lemma CallsNeZero.check (h : r.CallsNeZero) (p : MultipartParser) (rest : Bytes)
    (result : Multipart.ParsingResult) :
    (r.check p rest result).2 ≠ some 0 := by
  unfold Request.check
  cases result with
  | metaReady => exact h.notify _ _
  | contentPartial =>
    dsimp only
    split_ifs
    · exact h.notify _ _
    · simp
    · simp
  | contentReady =>
    dsimp only
    split
    · simp
    · split_ifs
      · exact h.notify _ _
      · simp
  | continueInput => simp
  | noRoomLeft => simp
  | eof =>
    dsimp only
    split_ifs
    · simp
    · simp
  | parsingError => simp

lemma CallsNeZero.consumeAll (h : r.CallsNeZero) (fuel : ℕ) (p : MultipartParser) (buffer : Bytes)
    (result : Multipart.ParsingResult) : (r.consumeAll fuel p buffer result).2 ≠ .error 0 := by
  induction fuel generalizing p buffer result with
  | zero => exact fun herror => absurd herror (by simp [Request.consumeAll])
  | succ fuel ih =>
    unfold Request.consumeAll
    split_ifs
    · exact fun herror => absurd herror (by simp)
    · rcases hconsume : p.consume buffer with ⟨p', result', rest⟩
      have hcheck := h.check p' rest result'
      dsimp only
      rcases hc : r.check p' rest result' with ⟨p'', _ | status⟩
      · exact ih p'' rest result'
      · rw [hc] at hcheck
        intro herror
        exact hcheck (by rw [Except.error.inj herror])

/-- The parser is all that changes, and the status is not 0. -/
lemma CallsNeZero.feed (h : r.CallsNeZero) (p : MultipartParser) (data : Bytes) :
    (∃ p', (r.feed p data).1 = { r with parser := some p' }) ∧ (r.feed p data).2 ≠ some 0 := by
  unfold Request.feed
  have hne := h.consumeAll data.length p data .continueInput
  rcases hall : r.consumeAll data.length p data .continueInput with ⟨p', status | result⟩
  · refine ⟨⟨p', rfl⟩, fun hzero => hne ?_⟩
    rw [hall, Option.some.inj hzero]
  · refine ⟨⟨p', rfl⟩, ?_⟩
    dsimp only
    split_ifs
    · simp
    · simp

lemma foldl_addFile (files : List HttpFile) (r : Request) :
    (files.foldl addFile r).contentLength = r.contentLength ∧
    (files.foldl addFile r).readSize = r.readSize ∧
      (files.foldl addFile r).readFull = r.readFull ∧
      (files.foldl addFile r).postData = r.postData := by
  induction files generalizing r with
  | nil => exact ⟨rfl, rfl, rfl, rfl⟩
  | cons f files ih =>
    obtain ⟨hlength, hread, hfull, hdata⟩ := ih (r.addFile f)
    rw [List.foldl_cons, hlength, hread, hfull, hdata]
    unfold addFile
    split_ifs
    · exact ⟨rfl, rfl, rfl, rfl⟩
    · exact ⟨rfl, rfl, rfl, rfl⟩

/-- A request whose content was read is ready, or it gets a status. -/
lemma sound_finish (h : r.CallsNeZero) (hlength : r.contentLength = length) (hnonneg : 0 ≤ length)
    (hread : r.readSize = length) (hfull : r.readFull → (r.postData.length : ℤ) = length) :
    r.finish.2 ≠ 0 ∨ Sound length r.finish.1 := by
  obtain ⟨r₁, hr₁⟩ : ∃ r₁ : Request, r₁ = (if r.readFull then
      if r.contentType.isFormUrlencoded then { r with post :=
        (Form.parseFormUrlencoded r.postData r.post).2 } else r
    else { r with postData := [] }) := ⟨_, rfl⟩
  have hsame : r₁.filter = r.filter ∧ r₁.contentLength = length ∧ r₁.readSize = length ∧
      (r₁.readFull → (r₁.postData.length : ℤ) = length) := by
    rw [hr₁]
    split_ifs with hreadFull
    · exact ⟨rfl, hlength, hread, hfull⟩
    · exact ⟨rfl, hlength, hread, hfull⟩
    · exact ⟨rfl, hlength, hread, fun hcontra => absurd hcontra hreadFull⟩
  obtain ⟨hfilter, hlength₁, hread₁, hfull₁⟩ := hsame
  unfold finish
  dsimp only
  rw [← hr₁]
  rcases hcall : r₁.filter.bind fun f => f.call .onEndOfContent with _ | status
  · right
    rcases r₁.parser with _ | p
    · exact ⟨hlength₁, hread₁.ge.trans' hnonneg, hread₁.le, hfull₁, iff_of_true rfl hread₁⟩
    · obtain ⟨hl, hs, hf, hd⟩ := foldl_addFile p.files { r₁ with parser := none }
      refine ⟨hl.trans hlength₁, ?_, (hs.trans hread₁).le, fun hreadFull => ?_,
        iff_of_true rfl (hs.trans hread₁)⟩
      · exact (hs.trans hread₁).ge.trans' hnonneg
      · show ((p.files.foldl addFile { r₁ with parser := none }).postData.length : ℤ) = length
        rw [hd]
        exact hfull₁ (hf.symm.trans hreadFull)
  · left
    show status ≠ 0
    rintro rfl
    rw [hfilter] at hcall
    rcases hf : r.filter with _ | f
    · rw [hf] at hcall
      exact absurd hcall (by simp)
    · rw [hf] at hcall
      exact h f hf _ hcall

/-- A piece that has a place is counted. -/
lemma Sound.store (h : Sound length r) {data : Bytes} (hne : data ≠ [])
    (hle : (data.length : ℤ) ≤ length - r.readSize) :
    (r.store data).contentLength = length ∧ 0 ≤ (r.store data).readSize ∧
    (r.store data).readSize ≤ length ∧
      ((r.store data).readFull → ((r.store data).postData.length : ℤ) = length) ∧
      r.ready = false := by
  have hpos : 0 < data.length := List.length_pos_iff.mpr hne
  have hnonneg := h.read_nonneg
  have hsum : (r.store data).readSize = r.readSize + data.length := rfl
  refine ⟨h.contentLength, ?_, ?_, fun hfull => ?_, ?_⟩
  · omega
  · omega
  · have hlength : (r.postData.length : ℤ) = length := h.full hfull
    have hdata : (r.store data).postData =
        r.postData.take r.readSize.toNat ++ data ++ r.postData.drop
          (r.readSize.toNat + data.length) := if_pos hfull
    rw [hdata]
    simp only [List.length_append, List.length_take, List.length_drop]
    omega
  · rw [Bool.eq_false_iff]
    intro hready
    have hread := h.ready_iff.mp hready
    omega

/-- `on_content_progress` keeps the numbers, or it gives a status. -/
lemma Sound.onContentProgress (h : Sound length r) (hcalls : r.CallsNeZero) {data : Bytes}
    (hle : (data.length : ℤ) ≤ length - r.readSize) :
    (r.onContentProgress data).2 ≠ 0 ∨ Sound length (r.onContentProgress data).1 := by
  by_cases hne : data = []
  · have hsame : r.onContentProgress data = (r, 0) := if_pos hne
    rw [hsame]
    exact .inr h
  obtain ⟨hlength, hnonneg, hread, hfull, hready⟩ := h.store hne hle
  have hcalls' : (r.store data).CallsNeZero := hcalls
  have hready' : (r.store data).ready = false := hready
  obtain ⟨r₁, hr₁⟩ : ∃ r₁, r₁ = r.store data := ⟨_, rfl⟩
  rw [← hr₁] at hlength hnonneg hread hfull hcalls' hready'
  -- the end of the function, with any parser
  have hend : ∀ r₂ : Request, (∃ x, r₂ = { r₁ with parser := x }) →
      (if r₂.readSize = r₂.contentLength then r₂.finish else (r₂, 0)).2 ≠ 0 ∨
        Sound length (if r₂.readSize = r₂.contentLength then r₂.finish else (r₂, 0)).1 := by
    rintro r₂ ⟨x, rfl⟩
    by_cases heq : r₁.readSize = r₁.contentLength
    · rw [if_pos heq]
      exact sound_finish hcalls' hlength (hnonneg.trans hread) (heq.trans hlength) hfull
    · rw [if_neg heq]
      refine .inr ⟨hlength, hnonneg, hread, hfull, iff_of_false ?_ fun hcontra =>
        heq (hcontra.trans hlength.symm)⟩
      show ¬ r₁.ready = true
      rw [hready']
      simp
  unfold Request.onContentProgress
  rw [if_neg hne]
  dsimp only
  rw [← hr₁]
  have hnotify := hcalls'.notify .rawContent (.onDataChunk data)
  rcases hraw : r₁.notify .rawContent (.onDataChunk data) with _ | status
  · rcases hparser : r₁.parser with _ | p
    · exact hend r₁ ⟨r₁.parser, rfl⟩
    · obtain ⟨⟨p', hsame⟩, hzero⟩ := hcalls'.feed p data
      rcases hfeed : r₁.feed p data with ⟨r₂, _ | status⟩
      · rw [hfeed] at hsame
        simp only [hfeed]
        exact hend r₂ ⟨some p', hsame⟩
      · rw [hfeed] at hzero
        simp only [hfeed]
        exact .inl fun hstatus => hzero (congrArg some hstatus)
  · exact .inl fun hstatus => hnotify (hraw.trans (congrArg some hstatus))

end Lemmas

end Request

/-! ## All pieces -/

namespace Loading

open Request

variable {buffer : ℕ+} {length limit : ℤ}

/-- What holds of a request while its content is read. -/
def Inv (buffer : ℕ+) (length limit : ℤ) (l : Loading) : Prop :=
  l.status ≠ 0 ∨ Sound length l.request ∧ (∀ size ∈ l.buffer, size = l.request.bufferSize buffer) ∧
    ∀ n ∈ l.resizes, 0 ≤ n ∧ n ≤ limit

variable {r : Request} {l : Loading}

/-- A buffer is not longer than what is left. -/
lemma bufferSize_mem (h : Sound length r) :
    0 ≤ r.bufferSize buffer ∧ r.bufferSize buffer ≤ length - r.readSize := by
  have hle := h.read_le
  have hlength := h.contentLength
  have hpos : (0 : ℤ) < (buffer : ℕ) := by exact_mod_cast buffer.pos
  unfold Request.bufferSize
  split_ifs with hfull hless
  · have hdata := h.full hfull
    omega
  · omega
  · omega

lemma Inv.accounted (h : Inv buffer length limit l) : l.Accounted limit := by
  rcases h with hstatus | ⟨hsound, hbuffer, hresizes⟩
  · exact .inl hstatus
  · right
    have hlength := hsound.contentLength
    refine ⟨fun size hsize => ?_, hsound.read_nonneg, ?_, hresizes, ?_⟩
    · rw [hbuffer size hsize, hlength]
      exact (bufferSize_mem hsound).2
    · rw [hlength]
      exact hsound.read_le
    · rw [hlength]
      exact hsound.ready_iff

/-- The next buffer. -/
lemma Inv.next {resizes : List ℤ} (h : Sound length r) (hlimit : length ≤ limit)
    (hresizes : ∀ n ∈ resizes, 0 ≤ n ∧ n ≤ limit) :
    Inv buffer length limit (Loading.next buffer r resizes) := by
  have hread := h.read_nonneg
  have hmem : 0 ≤ r.bufferSize buffer ∧ r.bufferSize buffer ≤ length - r.readSize :=
    bufferSize_mem h
  obtain ⟨hnonneg, hle⟩ := hmem
  refine .inr ⟨h, fun size hsize => (Option.some.inj hsize).symm, fun n hn => ?_⟩
  rcases List.mem_append.mp hn with hold | hnew
  · exact hresizes n hold
  · unfold Request.bufferResizes at hnew
    split_ifs at hnew
    · exact absurd hnew List.not_mem_nil
    · rw [List.mem_singleton.mp hnew]
      omega

/-- One piece. -/
lemma Inv.read (h : Inv buffer length limit l) (hlimit : length ≤ limit) (p : Piece)
    (hidle : l.status ≠ 0 → l.buffer = none) :
    Inv buffer length limit (l.read buffer p) ∧
      ((l.read buffer p).status ≠ 0 → (l.read buffer p).buffer = none) := by
  unfold Loading.read
  rcases hbuffer : l.buffer with _ | size
  · exact ⟨h, fun _ => hbuffer⟩
  · dsimp only
    rcases h with hstatus | ⟨hsound, hsize, hresizes⟩
    · rw [hidle hstatus] at hbuffer
      exact absurd hbuffer (by simp)
    · have heq := hsize size hbuffer
      by_cases hfits : size < p.data.length
      · rw [if_pos hfits]
        exact ⟨.inr ⟨hsound, hsize, hresizes⟩, hidle⟩
      · rw [if_neg hfits]
        have hcalls : (l.request.withCall p.call).CallsNeZero := by
          intro f hf c
          obtain ⟨g, -, rfl⟩ := Option.map_eq_some_iff.mp hf
          exact p.call_ne_zero c
        have hsound' : Sound length (l.request.withCall p.call) :=
          ⟨hsound.contentLength, hsound.read_nonneg, hsound.read_le, hsound.full, hsound.ready_iff⟩
        have hle : (p.data.length : ℤ) ≤ length - (l.request.withCall p.call).readSize := by
          have hmem : l.request.bufferSize buffer ≤ length - l.request.readSize :=
            (bufferSize_mem hsound).2
          show (p.data.length : ℤ) ≤ length - l.request.readSize
          omega
        have hprogress := hsound'.onContentProgress hcalls hle
        generalize (l.request.withCall p.call).onContentProgress p.data = result at hprogress ⊢
        by_cases hstatus : result.2 ≠ 0
        · rw [if_pos hstatus]
          exact ⟨.inl hstatus, fun _ => rfl⟩
        · rw [if_neg hstatus]
          have hnext : Inv buffer length limit (Loading.next buffer result.1 l.resizes) :=
            Inv.next (hprogress.resolve_left hstatus) hlimit hresizes
          by_cases hzero : result.1.bufferSize buffer = 0
          · rw [if_pos hzero]
            rcases hnext with hcontra | ⟨hsound₁, -, hresizes₁⟩
            · exact absurd rfl hcontra
            · exact ⟨.inr ⟨hsound₁, fun size hsize => absurd hsize (by simp), hresizes₁⟩, fun _ =>
                rfl⟩
          · rw [if_neg hzero]
            exact ⟨hnext, fun hcontra => absurd rfl hcontra⟩

lemma Inv.reads (h : Inv buffer length limit l) (hlimit : length ≤ limit)
    (hidle : l.status ≠ 0 → l.buffer = none) (pieces : List Piece) :
    Inv buffer length limit (l.reads buffer pieces) := by
  induction pieces generalizing l with
  | nil => exact h
  | cons p pieces ih =>
    obtain ⟨hinv, hidle'⟩ := h.read hlimit p hidle
    exact ih hinv hidle'

/-! ## The start -/

section Start

variable {r : Request}

/-- The two comparisons with the limits. -/
lemma limit_checks (r : Request) :
    (r.contentType.isMultipartFormData ∧ r.contentLength > r.limits.multipartFormDataLimit ∨
      ¬ r.contentType.isMultipartFormData ∧ r.contentLength > r.limits.contentLengthLimit) ↔
      r.contentLength > r.limit := by
  unfold Request.limit
  by_cases hmultipart : r.contentType.isMultipartFormData = true
  · rw [if_pos hmultipart]
    simp [hmultipart]
  · rw [if_neg hmultipart]
    simp [hmultipart]

lemma onContentStart_of_long (hne : r.contentLength ≠ 0) (hlong : r.contentLength > r.limit) :
    r.onContentStart = (r, 413) := by
  unfold Request.onContentStart
  rw [if_neg hne]
  rcases (limit_checks r).mpr hlong with hmultipart | hother
  · rw [if_pos hmultipart]
  · have hnot : ¬ (r.contentType.isMultipartFormData = true ∧
        r.contentLength > r.limits.multipartFormDataLimit) :=
      fun hcontra => hother.1 hcontra.1
    rw [if_neg hnot, if_pos hother]

/-- A content that is not too long. -/
lemma onContentStart_of_le (hne : r.contentLength ≠ 0) (hle : r.contentLength ≤ r.limit) :
    r.onContentStart =
      (if r.filterIsRaw then (r, 0)
      else if ¬ r.contentType.isMultipartFormData then
        ({ r with postData := List.replicate r.contentLength.toNat 0, readFull := true }, 0)
      else
        match MultipartParser.init.setContentType r.contentType with
        | none => ({ r with parser := some .init }, 400)
        | some p => ({ r with parser := some p }, 0)) ∧
    r.startResizes =
      if r.filterIsRaw then [] else if ¬ r.contentType.isMultipartFormData then [r.contentLength]
        else [] := by
  have hchecks := mt (limit_checks r).mp (not_lt.mpr hle)
  rw [not_or] at hchecks
  unfold Request.onContentStart Request.startResizes
  rw [if_neg hne, if_neg hchecks.1, if_neg hchecks.2, if_neg hne, if_neg hchecks.1,
    if_neg hchecks.2]
  exact ⟨rfl, rfl⟩

/-- A request that is refused has a status. -/
lemma status_of_refused (h : Refused r) : r.onContentStart.2 ≠ 0 := by
  obtain ⟨hne, hwhy⟩ := h
  by_cases hlong : r.contentLength > r.limit
  · rw [onContentStart_of_long hne hlong]
    simp
  · obtain ⟨hmultipart, hraw, hnone⟩ := hwhy.resolve_left hlong
    rw [(onContentStart_of_le hne (not_lt.mp hlong)).1, if_neg hraw,
      if_neg (not_not.mpr hmultipart), hnone]
    simp

/-- What is left of the other requests. -/
structure Started (r r' : Request) : Prop where
  contentLength : r'.contentLength = r.contentLength
  readSize : r'.readSize = r.readSize
  ready : r'.ready = r.ready
  full : r'.readFull → r.readFull ∨ r'.postData.length = r.contentLength.toNat

lemma onContentStart_of_not_refused (hne : r.contentLength ≠ 0) (h : ¬ Refused r) :
    r.onContentStart.2 = 0 ∧ Started r r.onContentStart.1 ∧ r.contentLength ≤ r.limit ∧
      ∀ n ∈ r.startResizes, n = r.contentLength := by
  unfold Refused at h
  push Not at h
  obtain ⟨hle, hparser⟩ := h hne
  obtain ⟨hstart, hresizes⟩ := onContentStart_of_le hne hle
  rw [hstart, hresizes]
  by_cases hraw : r.filterIsRaw = true
  · rw [if_pos hraw, if_pos hraw]
    exact ⟨rfl, ⟨rfl, rfl, rfl, .inl⟩, hle, by simp⟩
  · rw [if_neg hraw, if_neg hraw]
    by_cases hmultipart : ¬ r.contentType.isMultipartFormData = true
    · rw [if_pos hmultipart, if_pos hmultipart]
      exact ⟨rfl, ⟨rfl, rfl, rfl, fun _ => .inr List.length_replicate⟩, hle, by simp⟩
    · rw [if_neg hmultipart, if_neg hmultipart]
      rcases hset : MultipartParser.init.setContentType r.contentType with _ | p
      · exact absurd hset (hparser (not_not.mp hmultipart) hraw)
      · exact ⟨rfl, ⟨rfl, rfl, rfl, .inl⟩, hle, by simp⟩

lemma reads_of_none (h : l.buffer = none) (pieces : List Piece) : l.reads buffer pieces = l := by
  induction pieces with
  | nil => rfl
  | cons p pieces ih =>
    have hread : l.read buffer p = l := by
      unfold Loading.read
      rw [h]
    show (l.read buffer p).reads buffer pieces = l
    rw [hread]
    exact ih

/-- A refused request stays rejected. -/
lemma accounted_of_refused (h : Refused r) (pieces : List Piece) :
    ((start buffer r).reads buffer pieces).Accounted limit := by
  have hstart : start buffer r = ⟨r.onContentStart.1, r.onContentStart.2, none, r.startResizes⟩ :=
    if_pos (status_of_refused h)
  have hnone : (start buffer r).buffer = none := by rw [hstart]
  rw [reads_of_none hnone, hstart]
  exact .inl (status_of_refused h)

/-- A request without content is ready from the beginning. -/
lemma accounted_of_zero (hzero : r.contentLength = 0) (hread : r.readSize = 0)
    (hready : r.ready = true) (pieces : List Piece) :
    ((start buffer r).reads buffer pieces).Accounted limit := by
  have hcontent : r.onContentStart = (r, 0) := if_pos hzero
  have hresizes : r.startResizes = [] := if_pos hzero
  have hstart : start buffer r = ⟨r, 0, none, []⟩ := by
    have hnot : ¬ r.contentLength > 0 := by omega
    unfold start
    rw [hcontent, hresizes]
    exact (if_neg (not_not.mpr rfl)).trans (if_neg hnot)
  have hnone : (start buffer r).buffer = none := by rw [hstart]
  rw [reads_of_none hnone, hstart]
  refine .inr ⟨by simp, hread.ge, (hread.trans hzero.symm).le, by simp, ?_⟩
  exact iff_of_true hready (hread.trans hzero.symm)

/-- A content that is read. -/
lemma accounted_of_pos (hpos : 0 < r.contentLength) (hnot : ¬ Refused r) (hread : r.readSize = 0)
    (hready : r.ready = false) (hfull : r.readFull = false) (pieces : List Piece) :
    ((start buffer r).reads buffer pieces).Accounted r.limit := by
  obtain ⟨hstatus, hstarted, hle, hresizes⟩ := onContentStart_of_not_refused hpos.ne' hnot
  have hlength := hstarted.contentLength
  have hsound : Sound r.contentLength r.onContentStart.1 := by
    refine ⟨hlength, ?_, ?_, fun hreadFull => ?_, iff_of_false ?_ ?_⟩
    · rw [hstarted.readSize, hread]
    · rw [hstarted.readSize, hread]
      exact hpos.le
    · rcases hstarted.full hreadFull with hcontra | hdata
      · rw [hfull] at hcontra
        exact absurd hcontra (by simp)
      · omega
    · rw [hstarted.ready, hready]
      simp
    · rw [hstarted.readSize, hread]
      exact hpos.ne
  have hstart : start buffer r = next buffer r.onContentStart.1 r.startResizes := by
    unfold start
    rw [if_neg (not_not.mpr hstatus), if_pos (hlength.symm ▸ hpos)]
  have hfine : ∀ n ∈ r.startResizes, 0 ≤ n ∧ n ≤ r.limit := by
    intro n hn
    rw [hresizes n hn]
    exact ⟨hpos.le, hle⟩
  have hinv : Inv buffer r.contentLength r.limit (next buffer r.onContentStart.1 r.startResizes) :=
    Inv.next hsound hle hfine
  rw [hstart]
  exact (hinv.reads hle (fun hcontra => absurd rfl hcontra) pieces).accounted

/-- A negative length that is not refused is never right. -/
lemma not_accounted_of_neg (hneg : r.contentLength < 0) (hnot : ¬ Refused r)
    (hread : r.readSize = 0) :
    ¬ (start buffer r).Accounted limit := by
  obtain ⟨hstatus, hstarted, -, -⟩ := onContentStart_of_not_refused hneg.ne hnot
  have hlength := hstarted.contentLength
  have hstart : start buffer r = ⟨r.onContentStart.1, 0, none, r.startResizes⟩ := by
    unfold start
    rw [if_neg (not_not.mpr hstatus), if_neg (by omega)]
  rw [hstart]
  rintro (hcontra | hbalanced)
  · exact hcontra rfl
  · have hle := hbalanced.read_le
    rw [hstarted.readSize, hlength, hread] at hle
    omega

end Start

/-- Whatever is read, the request is rejected or its numbers are in order, exactly if the number in
the header is not negative or the request is refused before its content. -/
theorem accounted_iff (buffer : ℕ+) (limits : ContentLimits) (filter : Option ContentFilter)
    (contentType : ContentType) (text : Bytes) :
    (∀ pieces,
      ((start buffer (Request.init limits filter contentType (envContentLength text))).reads buffer
        pieces).Accounted (Request.init limits filter contentType (envContentLength text)).limit) ↔
      0 ≤ envContentLength text ∨
        Refused (Request.init limits filter contentType (envContentLength text)) := by
  generalize envContentLength text = length
  constructor
  · intro hall
    by_contra hnot
    push Not at hnot
    exact not_accounted_of_neg hnot.1 hnot.2 rfl (hall [])
  · rintro (hnonneg | hrefused) pieces
    · by_cases hrefused : Refused (Request.init limits filter contentType length)
      · exact accounted_of_refused hrefused pieces
      · rcases hnonneg.eq_or_lt with rfl | hpos
        · exact accounted_of_zero rfl rfl rfl pieces
        · have hready : (Request.init limits filter contentType length).ready = false :=
            decide_eq_false hpos.ne'
          exact accounted_of_pos hpos hrefused rfl hready rfl pieces
    · exact accounted_of_refused hrefused pieces

/-- A length of -1. -/
theorem negative_length_unaccounted :
    ¬ ∀ (buffer : ℕ+) (limits : ContentLimits) (filter : Option ContentFilter)
      (contentType : ContentType)
      (text : Bytes) (pieces : List Piece),
      ((start buffer (Request.init limits filter contentType (envContentLength text))).reads buffer
        pieces).Accounted
        (Request.init limits filter contentType (envContentLength text)).limit := by
  intro hall
  have hlength : envContentLength (bytes "-1") = -1 := by decide
  have hstart := hall 1 ⟨1024, 1024⟩ none .none (bytes "-1") []
  rw [hlength] at hstart
  have hnot : ¬ Refused (Request.init ⟨1024, 1024⟩ none .none (-1)) := by
    rintro ⟨-, hlong | ⟨hmultipart, -⟩⟩
    · exact absurd hlong (by decide)
    · exact absurd hmultipart (by decide)
  have hneg : (Request.init ⟨1024, 1024⟩ none .none (-1)).contentLength < 0 := by decide
  have hfails : ¬ (start 1 (Request.init ⟨1024, 1024⟩ none .none (-1))).Accounted 1024 :=
    not_accounted_of_neg hneg hnot rfl
  exact hfails hstart

end Loading

end Http

end Cppcms
