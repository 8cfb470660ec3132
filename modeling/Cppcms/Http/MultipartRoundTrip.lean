import Cppcms.Http.MultipartParts
import Cppcms.Http.Request

/-!
# Forms are read as they were written

`consume` returns in the middle of a buffer when the header or the content of a part is complete.  A
buffer of which the octets can all be read is read with a number of calls, whatever it ends with,
and the last call for the last buffer is the one that finds the end of the form.  So a request gets
the parts of a form, whatever the pieces of the content are.
-/

namespace Cppcms

namespace Http

open Protocol Multipart

namespace MultipartParser

section Calls

variable {p q : MultipartParser} {c : UInt8} {last : Bool} {s t buffer : Bytes} {limit : ℤ}

/-! ## What an octet leaves as it is -/

/-- Only octets are written to the file. -/
structure Grows (p q : MultipartParser) : Prop where
  state : q.state = p.state
  fileIsReady : q.fileIsReady = p.fileIsReady
  files : q.files = p.files
  mime : q.file.mime = p.file.mime
  size : p.file.size ≤ q.file.size

lemma size_append (f : HttpFile) (s : Bytes) : (f.append s).size = f.size + s.length :=
  List.length_append

lemma grows_matchBoundary (p : MultipartParser) (c : UInt8) : Grows p (p.matchBoundary c).1 := by
  unfold matchBoundary
  by_cases hc : c = p.boundary.getD p.position 0
  · rw [if_pos hc]
    exact ⟨rfl, rfl, rfl, rfl, Nat.le_refl _⟩
  · rw [if_neg hc]
    by_cases hpos : 0 < p.position
    · rw [if_pos hpos, HttpFile.sputn_eq]
      refine ⟨rfl, rfl, rfl, rfl, ?_⟩
      show p.file.size ≤ (p.file.append _).size
      rw [size_append]
      exact Nat.le_add_right _ _
    · rw [if_neg hpos]
      exact ⟨rfl, rfl, rfl, rfl, Nat.le_refl _⟩

/-- An octet of a content. -/
lemma contentStep_grows :
    (∀ q, p.contentStep c = .next q → Grows p q) ∧
      ∀ q r, p.contentStep c = .past q r → ∃ p₁, Grows p p₁ ∧ q = p₁.contentReady ∧
      r = .contentReady := by
  have hgrows := grows_matchBoundary p c
  unfold contentStep
  generalize p.matchBoundary c = result at hgrows ⊢
  rcases result with ⟨p₁, _ | _⟩
  · exact ⟨(fun q h => by cases h), fun q r h => by cases h⟩
  · dsimp only at hgrows ⊢
    split_ifs
    · rw [HttpFile.sputc_eq]
      dsimp only
      refine ⟨fun q h => ?_, fun q r h => by cases h⟩
      cases h
      refine ⟨hgrows.state, hgrows.fileIsReady, hgrows.files, hgrows.mime, ?_⟩
      show p.file.size ≤ (p₁.file.append [c]).size
      rw [size_append]
      exact hgrows.size.trans (Nat.le_add_right _ _)
    · refine ⟨(fun q h => by cases h), fun q r h => ?_⟩
      cases h
      exact ⟨p₁, hgrows, rfl, rfl⟩
    · refine ⟨fun q h => ?_, fun q r h => by cases h⟩
      cases h
      exact hgrows

/-- Nothing is known of a file yet. -/
structure Outside (p q : MultipartParser) : Prop where
  state : q.state ≠ .expectingSeparatorBoundary
  fileIsReady : q.fileIsReady = false
  files : q.files = p.files

lemma Outside.expectOctet {d : UInt8} {state : State} (hnext : state ≠ .expectingSeparatorBoundary)
    (hready : p.fileIsReady = false) :
    (∀ q, p.expectOctet c d state = .next q → Outside p q) ∧
    ∀ q r, p.expectOctet c d state ≠ .past q r := by
  unfold MultipartParser.expectOctet
  split_ifs
  · exact ⟨(fun q h => by cases h), fun q r h => by cases h⟩
  · refine ⟨fun q h => ?_, fun q r h => by cases h⟩
    cases h
    exact ⟨hnext, hready, rfl⟩

/-- An octet that is not of a content. -/
lemma step_outside (hstate : p.state ≠ .expectingSeparatorBoundary)
    (hready : p.fileIsReady = false) :
    (∀ q, p.step c last = .next q → Outside p q) ∧
      ∀ q r, p.step c last = .past q r → r = .eof ∨
        r = .metaReady ∧ q.state = .expectingSeparatorBoundary ∧ q.fileIsReady = true ∧
        q.files = p.files := by
  unfold step
  rcases hp : p.state
  all_goals dsimp only
  case expectingFirstBoundary =>
    split_ifs
    · exact ⟨(fun q h => by cases h), fun q r h => by cases h⟩
    · refine ⟨fun q h => ?_, fun q r h => by cases h⟩
      cases h
      exact ⟨nofun, hready, rfl⟩
    · refine ⟨fun q h => ?_, fun q r h => by cases h⟩
      cases h
      exact ⟨nofun, hready, rfl⟩
  case expectingOneCrlfOrEof =>
    split_ifs
    · refine ⟨fun q h => ?_, fun q r h => by cases h⟩
      cases h
      exact ⟨nofun, hready, rfl⟩
    · refine ⟨fun q h => ?_, fun q r h => by cases h⟩
      cases h
      exact ⟨nofun, hready, rfl⟩
    · exact ⟨(fun q h => by cases h), fun q r h => by cases h⟩
  case expectingEofLf =>
    split_ifs
    · exact ⟨(fun q h => by cases h), fun q r h => by cases h⟩
    · refine ⟨(fun q h => by cases h), fun q r h => ?_⟩
      cases h
      exact .inl rfl
    · exact ⟨(fun q h => by cases h), fun q r h => by cases h⟩
  case expectingCrlfcrlf =>
    by_cases hfit : fit p.position c = 4
    · have hfull : (if c = crlfcrlf.getD p.position 0 then p.position + 1 else 0) =
        crlfcrlf.length := hfit
      unfold headerStep
      simp only [if_pos hfull]
      rcases processHeader (p.header ++ [c]) p.file with _ | file
      · exact ⟨(fun q h => by cases h), fun q r h => by cases h⟩
      · refine ⟨(fun q h => by cases h), fun q r h => ?_⟩
        cases h
        exact .inr ⟨rfl, rfl, rfl, rfl⟩
    · rw [headerStep_of_not_fit hfit]
      refine ⟨fun q h => ?_, fun q r h => by cases h⟩
      cases h
      exact ⟨hstate, hready, rfl⟩
  case expectingSeparatorBoundary => exact absurd hp hstate
  all_goals
    refine ⟨(Outside.expectOctet ?_ hready).1, fun q r h =>
      absurd h ((Outside.expectOctet ?_ hready).2 q r)⟩
    · decide
    · decide

lemma FileState.not_ready (hp : FileState p) (hstate : p.state ≠ .expectingSeparatorBoundary) :
    p.fileIsReady = false := Bool.eq_false_of_not_eq_true fun hready => hstate (hp.mp hready)

lemma step_content (hstate : p.state = .expectingSeparatorBoundary) (c : UInt8) (last : Bool) :
    p.step c last = p.contentStep c := by
  unfold step
  rw [hstate]

/-- What `consume` tells when it returns in the middle of a buffer. -/
def Told (p : MultipartParser) (r : ParsingResult) : Prop :=
  r = .metaReady ∨ r = .contentReady ∧ ∃ f, p.files.getLast? = some f ∧ f.rewind = f

lemma rewind_rewind (f : HttpFile) : f.rewind.rewind = f.rewind := by
  rcases f with ⟨name, mime, filename, ⟨written, cursor, hle⟩⟩
  rfl

/-- The files and the parser behind an octet that can be read. -/
lemma step_spec (hp : FileState p) :
    (∀ q, p.step c last = .next q →
      FileState q ∧ q.files = p.files ∧ (p.fileIsReady = true → Grows p q)) ∧
      ∀ q r, p.step c last = .past q r → r.isOk = true →
        FileState q ∧ Told q r ∧ (p.fileIsReady = false ∧ q.files = p.files ∨
          ∃ p₁, Grows p p₁ ∧ q = p₁.contentReady) := by
  by_cases hstate : p.state = .expectingSeparatorBoundary
  · rw [step_content hstate]
    obtain ⟨hnext, hpast⟩ := contentStep_grows (p := p) (c := c)
    constructor
    · intro q h
      have hgrows := hnext q h
      refine ⟨?_, hgrows.files, fun _ => hgrows⟩
      unfold FileState
      rw [hgrows.fileIsReady, hgrows.state]
      exact hp
    · intro q r h _
      obtain ⟨p₁, hgrows, rfl, rfl⟩ := hpast q r h
      refine ⟨⟨(fun h => by cases h), fun h => by cases h⟩,
        .inr ⟨rfl, p₁.file.rewind, ?_, rewind_rewind _⟩, .inr ⟨p₁, hgrows, rfl⟩⟩
      unfold contentReady
      exact List.getLast?_concat
  · have hready := hp.not_ready hstate
    obtain ⟨hnext, hpast⟩ := @step_outside p c last hstate hready
    constructor
    · intro q h
      have hout := hnext q h
      refine ⟨⟨fun hq => ?_, fun hq => absurd hq hout.state⟩, hout.files, fun hp' => ?_⟩
      · rw [hout.fileIsReady] at hq
        cases hq
      · rw [hready] at hp'
        cases hp'
    · intro q r h hok
      rcases hpast q r h with rfl | ⟨rfl, hq, hfile, hfiles⟩
      · cases hok
      · exact ⟨⟨fun _ => hq, fun _ => hfile⟩, .inl rfl, .inl ⟨hready, hfiles⟩⟩

/-! ## Calls -/

/-- The last octet of a buffer is read like the others, but for the last one of a form. -/
lemma step_last (hstate : p.state ≠ .expectingEofLf) (c : UInt8) (last : Bool) :
    p.step c last = p.step c false := by
  unfold step
  rcases hp : p.state
  case expectingEofLf => exact absurd hp hstate
  all_goals rfl

lemma advanceOctet_cases (h : p.advanceOctet c = some q) (last : Bool) :
    p.step c last = .next q ∨ ∃ r, p.step c last = .past q r ∧ r.isOk = true := by
  unfold advanceOctet at h
  have hstate : p.state ≠ .expectingEofLf := by
    intro hp
    unfold step at h
    rw [hp] at h
    dsimp only at h
    split_ifs at h
    all_goals cases h
  rw [step_last hstate]
  rcases hstep : p.step c false with q' | ⟨q', r⟩ | ⟨q', r⟩
  · rw [hstep] at h
    cases h
    exact .inl rfl
  · rw [hstep] at h
    cases h
  · rw [hstep] at h
    dsimp only at h
    split_ifs at h with hok
    cases h
    exact .inr ⟨r, rfl, hok⟩

lemma FileState.advanceOctet (hp : FileState p) (h : p.advanceOctet c = some q) : FileState q := by
  rcases advanceOctet_cases h false with hstep | ⟨r, hstep, hok⟩
  · exact ((step_spec hp).1 q hstep).1
  · exact ((step_spec hp).2 q r hstep hok).1

lemma FileState.advance (hp : FileState p) (h : p.advance s = some q) : FileState q := by
  induction s generalizing p with
  | nil =>
    cases h
    exact hp
  | cons c s ih =>
    obtain ⟨p₁, hoctet, hrest⟩ := Option.bind_eq_some_iff.mp h
    exact ih (hp.advanceOctet hoctet) hrest

lemma consumeContent_eq (hstate : p.state = .expectingSeparatorBoundary)
    (hready : p.fileIsReady = true) (buffer : Bytes) :
    p.consumeContent buffer = p.consume buffer := by
  rcases buffer with _ | ⟨c, buffer⟩
  · rw [consumeContent, consume, if_pos hready]
  · rw [consume, if_pos hstate]

/-- Both loops of `consume` as one. -/
lemma consume_cons (hp : FileState p) (c : UInt8) (buffer : Bytes) :
    p.consume (c :: buffer) =
      match p.step c buffer.isEmpty with
      | .next q => q.consume buffer
      | .stop q r => (q, r, c :: buffer)
      | .past q r => (q, r, buffer) := by
  by_cases hstate : p.state = .expectingSeparatorBoundary
  · rw [consume, if_pos hstate, consumeContent, step_content hstate]
    rcases hstep : p.contentStep c with q | ⟨q, r⟩ | ⟨q, r⟩
    · have hgrows := contentStep_grows.1 q hstep
      have hq : q.state = .expectingSeparatorBoundary := hgrows.state.trans hstate
      have hready : q.fileIsReady = true := hgrows.fileIsReady.trans (hp.mpr hstate)
      exact consumeContent_eq hq hready buffer
    · rfl
    · rfl
  · rw [consume]
    rcases p.step c buffer.isEmpty with q | ⟨q, r⟩ | ⟨q, r⟩
    · exact if_neg hstate
    · exact if_neg hstate
    · exact if_neg hstate

/-- A call reads the octets, or it returns at one of them. -/
lemma consume_of_advance (hp : FileState p) (h : p.advance s = some q) (t : Bytes) :
    p.consume (s ++ t) = q.consume t ∨
      ∃ s₁ s₂ p' r, s = s₁ ++ s₂ ∧ s₁ ≠ [] ∧ FileState p' ∧ p'.advance s₂ = some q ∧
        p.consume (s ++ t) = (p', r, s₂ ++ t) ∧ Told p' r := by
  induction s generalizing p with
  | nil =>
    cases h
    exact .inl rfl
  | cons c s ih =>
    obtain ⟨p₁, hoctet, hrest⟩ := Option.bind_eq_some_iff.mp h
    have hp₁ := hp.advanceOctet hoctet
    rw [List.cons_append, consume_cons hp]
    rcases advanceOctet_cases hoctet (s ++ t).isEmpty with hstep | ⟨r, hstep, hok⟩
    · rw [hstep]
      dsimp only
      rcases ih hp₁ hrest with hall | ⟨s₁, s₂, p', r, rfl, -, hp', hadvance, hconsume, htold⟩
      · exact .inl hall
      · exact .inr ⟨c :: s₁, s₂, p', r, rfl, List.cons_ne_nil _ _, hp', hadvance, hconsume, htold⟩
    · rw [hstep]
      exact .inr ⟨[c], s, p₁, r, rfl, List.cons_ne_nil _ _, hp₁, hrest, rfl,
        ((step_spec hp).2 p₁ r hstep hok).2.1⟩

/-! ## Sizes -/

/-- No field is longer than the limit. -/
def Within (limit : ℤ) (p : MultipartParser) : Prop :=
  (p.fileIsReady = true → Request.sizeOk p.file limit = true) ∧
    ∀ f ∈ p.files, Request.sizeOk f limit = true

lemma sizeOk_mono {f g : HttpFile} (hmime : g.mime = f.mime) (hsize : f.size ≤ g.size)
    (h : Request.sizeOk g limit = true) : Request.sizeOk f limit = true := by
  have hhas : g.hasMime = f.hasMime := by
    unfold HttpFile.hasMime
    rw [hmime]
  unfold Request.sizeOk at h ⊢
  rw [decide_eq_true_eq, hhas] at h
  rw [decide_eq_true_eq]
  exact fun hlong => h ⟨hlong.1, by omega⟩

/-- What is within the limit behind an octet is within it before the octet. -/
lemma Within.of_advanceOctet (hq : Within limit q) (hp : FileState p)
    (h : p.advanceOctet c = some q) :
    Within limit p := by
  rcases advanceOctet_cases h false with hstep | ⟨r, hstep, hok⟩
  · obtain ⟨-, hfiles, hgrows⟩ := (step_spec hp).1 q hstep
    refine ⟨fun hready => ?_, fun f hf => hq.2 f (hfiles ▸ hf)⟩
    have hg := hgrows hready
    exact sizeOk_mono hg.mime hg.size (hq.1 (hg.fileIsReady.trans hready))
  · rcases ((step_spec hp).2 q r hstep hok).2.2 with ⟨hready, hfiles⟩ | ⟨p₁, hgrows, rfl⟩
    · refine ⟨fun hp' => ?_, fun f hf => hq.2 f (hfiles ▸ hf)⟩
      rw [hready] at hp'
      cases hp'
    · have hlast := hq.2 p₁.file.rewind (List.mem_append_right _ (List.mem_singleton_self _))
      refine ⟨fun _ => sizeOk_mono hgrows.mime ?_ hlast, fun f hf =>
        hq.2 f (List.mem_append_left _ ?_)⟩
      · have hwritten : p₁.file.rewind.size = p₁.file.size :=
          congrArg List.length (Spool.written_step (by rintro c h; cases h) p₁.file.data)
        exact hgrows.size.trans hwritten.ge
      · rw [hgrows.files]
        exact hf

lemma Within.of_advance (hq : Within limit q) (hp : FileState p) (h : p.advance s = some q) :
    Within limit p := by
  induction s generalizing p with
  | nil =>
    cases h
    exact hq
  | cons c s ih =>
    obtain ⟨p₁, hoctet, hrest⟩ := Option.bind_eq_some_iff.mp h
    exact (ih (hp.advanceOctet hoctet) hrest).of_advanceOctet hp hoctet

end Calls

end MultipartParser

/-! ## The request -/

namespace Request

open MultipartParser

section Reading

variable {r : Request} {p q : MultipartParser} {s t : Bytes} {result : ParsingResult}

/-- No call of the filter throws, and it does not ask for the octets of the content. -/
def Quiet (filter : Option ContentFilter) : Prop :=
  ∀ f ∈ filter, f.kind ≠ .rawContent ∧ ∀ c, f.call c = none

lemma Quiet.notify (h : Quiet r.filter) (kind : FilterKind) (c : FilterCall) :
    r.notify kind c = none := by
  unfold Request.notify
  rcases hf : r.filter with _ | f
  · rfl
  · rw [Option.bind_some]
    split_ifs
    · exact (h f hf).2 c
    · rfl

lemma check_told (hquiet : Quiet r.filter) (hp : Within r.limits.contentLengthLimit p)
    (h : Told p result) (rest : Bytes) : r.check p rest result = (p, none) := by
  rcases h with rfl | ⟨rfl, f, hlast, hrewind⟩
  · unfold check
    dsimp only
    rw [hquiet.notify]
  · have hmem := List.mem_of_getLast? hlast
    have hfiles : p.files.dropLast ++ [f] = p.files := List.dropLast_append_getLast? f hlast
    unfold check
    dsimp only
    rw [hlast]
    dsimp only
    rw [hrewind, hfiles, if_neg (not_not_intro (hp.2 f hmem)), hquiet.notify]

/-- A buffer has been read. -/
lemma check_end (hquiet : Quiet r.filter) (hp : Within r.limits.contentLengthLimit p) :
    r.check p [] (p.consume []).2.1 = (p, none) := by
  rw [consume]
  dsimp only
  by_cases hready : p.fileIsReady = true
  · rw [if_pos hready]
    unfold check
    dsimp only
    rw [if_neg (not_not_intro hready), if_neg (not_not_intro (hp.1 hready)), hquiet.notify]
  · rw [if_neg hready]
    rfl

lemma consumeAll_nil (r : Request) (fuel : ℕ) (p : MultipartParser) (result : ParsingResult) :
    r.consumeAll fuel p [] result = (p, .ok result) := by
  rcases fuel with _ | fuel
  · rfl
  · rw [consumeAll, if_pos rfl]

variable {fuel : ℕ} {n : ℕ}

/-- The calls for a buffer of which the octets `s` can be read, and then the rest of it. -/
lemma consumeAll_append (hquiet : Quiet r.filter) (hp : FileState p) (h : p.advance s = some q)
    (hwithin : Within r.limits.contentLengthLimit q) (hend : q.consume t = (q, result, []))
    (hcheck : r.check q [] result = (q, none)) (hfuel : (s ++ t).length ≤ fuel) (hne : s ++ t ≠ [])
    (before : ParsingResult) :
    ∃ result', r.consumeAll fuel p (s ++ t) before = (q, .ok result') ∧
    (t ≠ [] → result' = result) := by
  induction fuel generalizing p s before with
  | zero => exact absurd (List.length_eq_zero_iff.mp (Nat.le_zero.mp hfuel)) hne
  | succ fuel ih =>
    rw [consumeAll, if_neg hne]
    rcases consume_of_advance hp h t with hall |
      ⟨s₁, s₂, p', r', rfl, hs₁, hp', hadvance, hconsume, htold⟩
    · rw [hall, hend]
      dsimp only
      rw [hcheck]
      dsimp only
      exact ⟨result, consumeAll_nil r fuel q result, fun _ => rfl⟩
    · rw [hconsume]
      dsimp only
      rw [check_told hquiet (hwithin.of_advance hp' hadvance) htold]
      dsimp only
      by_cases hnil : s₂ ++ t = []
      · obtain ⟨rfl, rfl⟩ := List.append_eq_nil_iff.mp hnil
        cases hadvance
        exact ⟨r', consumeAll_nil r fuel q r', fun hne' => absurd rfl hne'⟩
      · have hshort : (s₂ ++ t).length ≤ fuel := by
          have hpos := List.length_pos_iff.mpr hs₁
          rw [List.append_assoc, List.length_append] at hfuel
          omega
        exact ih hp' hadvance hshort hnil r'

/-- The request while its content is read. -/
def reading (r : Request) (p : MultipartParser) (n : ℕ) (data : Bytes) : Request :=
  { r with parser := some p, readSize := n, postData := data }

lemma store_reading (hfull : r.readFull = false) (p : MultipartParser) (n : ℕ)
    (data data' : Bytes) :
    (r.reading p n data).store data' = r.reading p (n + data'.length) data' := by
  have hnot : ¬ (r.reading p n data).readFull = true := by
    show ¬ r.readFull = true
    rw [hfull]
    decide
  unfold store
  rw [if_neg hnot]
  unfold reading
  simp only [Nat.cast_add]

/-- A piece that is not the last one. -/
lemma onContentProgress_reading (hquiet : Quiet r.filter) (hfull : r.readFull = false)
    (hp : FileState p) (h : p.advance s = some q) (hwithin : Within r.limits.contentLengthLimit q)
    (hne : s ≠ []) (hlength : ((n + s.length : ℕ) : ℤ) ≠ r.contentLength) (data : Bytes) :
    (r.reading p n data).onContentProgress s = (r.reading q (n + s.length) s, 0) := by
  have hend : q.consume [] = (q, (q.consume []).2.1, []) := by
    rw [consume]
  have hquiet' : Quiet (r.reading p (n + s.length) s).filter := hquiet
  have hne' : s ++ [] ≠ [] := by rwa [List.append_nil]
  have hfuel : (s ++ []).length ≤ s.length := by rw [List.append_nil]
  obtain ⟨result, hall, -⟩ :=
    consumeAll_append (r := r.reading p (n + s.length) s) hquiet' hp h hwithin hend
    (check_end hquiet' hwithin) hfuel hne' .continueInput
  rw [List.append_nil] at hall
  have hnot :
    ¬ ((r.reading p (n + s.length) s).readSize = (r.reading p (n + s.length) s).contentLength ∧
      result ≠ .eof) := fun hboth => hlength hboth.1
  unfold onContentProgress
  rw [if_neg hne]
  dsimp only
  rw [store_reading hfull, hquiet'.notify]
  have hparser : (r.reading p (n + s.length) s).parser = some p := rfl
  rw [hparser]
  dsimp only
  unfold feed
  rw [hall]
  dsimp only
  rw [if_neg hnot]
  dsimp only
  exact if_neg hlength

/-- Pieces that are not the last one. -/
lemma receive_reading (hquiet : Quiet r.filter) (hfull : r.readFull = false) {pieces : List Bytes}
    (hp : FileState p) (h : p.advance pieces.flatten = some q)
    (hwithin : Within r.limits.contentLengthLimit q) (hne : ∀ piece ∈ pieces, piece ≠ [])
    (hlength : ((n + pieces.flatten.length : ℕ) : ℤ) < r.contentLength) (data : Bytes) :
    ∃ data', (r.reading p n data).receive pieces =
      (r.reading q (n + pieces.flatten.length) data', 0) := by
  induction pieces generalizing p n data with
  | nil =>
    cases h
    exact ⟨data, rfl⟩
  | cons piece pieces ih =>
    rw [List.flatten_cons] at h hlength ⊢
    rw [List.length_append] at hlength ⊢
    rw [advance_append] at h
    obtain ⟨p₁, hpiece, hrest⟩ := Option.bind_eq_some_iff.mp h
    have hp₁ := hp.advance hpiece
    have hprogress :=
      onContentProgress_reading hquiet hfull hp hpiece (hwithin.of_advance hp₁ hrest)
      (hne piece List.mem_cons_self) (n := n) (by omega) data
    obtain ⟨data', hreceive⟩ := ih hp₁ hrest (fun s hs => hne s (List.mem_cons_of_mem piece hs))
      (n := n + piece.length) (by omega) piece
    rw [receive, hprogress, ← Nat.add_assoc]
    exact ⟨data', hreceive⟩

/-- The pieces behind some others. -/
lemma receive_append {r₁ : Request} {front : List Bytes} (h : r.receive front = (r₁, 0))
    (pieces : List Bytes) :
    r.receive (front ++ pieces) = r₁.receive pieces := by
  induction front generalizing r with
  | nil =>
    cases h
    rfl
  | cons piece front ih =>
    rw [List.cons_append, receive]
    rw [receive] at h
    rcases hprogress : r.onContentProgress piece with ⟨r', _ | status⟩
    · rw [hprogress] at h
      exact ih h
    · rw [hprogress] at h
      cases h

/-- The octets of a file are read from the first one on. -/
lemma sbumpcAll_eq {d : Spool} (hfuel : d.written.length < fuel + d.cursor) :
    sbumpcAll fuel d = d.written.drop d.cursor := by
  induction fuel generalizing d with
  | zero =>
    have hle := d.cursor_le
    omega
  | succ fuel ih =>
    by_cases hlt : d.cursor < d.written.length
    · have hread : d.read = ⟨d.written, d.cursor + 1, hlt⟩ := dif_pos hlt
      have hstep : d.step .read =
          (⟨d.written, d.cursor + 1, hlt⟩, .octet (some d.written[d.cursor])) := by
        show (d.read, _) = _
        rw [hread, List.getElem?_eq_getElem hlt]
      rw [sbumpcAll, hstep]
      dsimp only
      rw [ih (d := ⟨d.written, d.cursor + 1, hlt⟩) (by dsimp only; omega),
        List.drop_eq_getElem_cons hlt]
    · have hstep : d.step .read = (d.read, .octet none) := by
        show (d.read, _) = _
        rw [List.getElem?_eq_none (not_lt.mp hlt)]
      rw [sbumpcAll, hstep, List.drop_eq_nil_of_le (not_lt.mp hlt)]

lemma readFile_file (part : FormPart) : readFile part.file = part.content :=
  sbumpcAll_eq (d := ⟨part.content, 0, Nat.zero_le _⟩) (Nat.lt_succ_self _)

lemma hasMime_file (part : FormPart) : part.file.hasMime = part.mime.isSome := by
  rcases hmime : part.mime with _ | m
  · unfold HttpFile.hasMime FormPart.file
    rw [hmime]
    rfl
  · have hne : FormPart.mediaType m ≠ [] := by
      unfold FormPart.mediaType
      simp [bytes]
    unfold HttpFile.hasMime FormPart.file
    rw [hmime]
    exact decide_eq_true hne

/-- The fields of a form. -/
def fields (parts : List FormPart) (post : Form) : Form :=
  (parts.filter fun part => part.mime.isNone).foldl
    (fun post part => post.insert part.name part.content) post

/-- The files of a form. -/
def uploads (parts : List FormPart) : List HttpFile :=
  (parts.filter fun part => part.mime.isSome).map FormPart.file

lemma foldl_addFile_parts (parts : List FormPart) (r : Request) :
    (parts.map FormPart.file).foldl addFile r =
      { r with post := fields parts r.post, files := r.files ++ uploads parts } := by
  induction parts generalizing r with
  | nil =>
    unfold fields uploads
    simp only [List.map_nil, List.foldl_nil, List.filter_nil, List.append_nil]
  | cons part parts ih =>
    rw [List.map_cons, List.foldl_cons, ih]
    unfold addFile
    rw [hasMime_file]
    rcases hmime : part.mime with _ | m
    · rw [if_pos (by rw [Option.isSome_none]; decide), readFile_file]
      unfold fields uploads
      simp only [List.filter_cons, hmime, Option.isNone_none, Option.isSome_none, if_true,
        List.foldl_cons]
      rfl
    · rw [if_neg (by rw [Option.isSome_some]; decide)]
      unfold fields uploads
      simp only [List.filter_cons, hmime, Option.isNone_some, Option.isSome_some,
        if_true, List.map_cons, List.append_assoc, List.singleton_append]
      rfl

/-- The last call for the last piece. -/
lemma consumeAll_last (hquiet : Quiet r.filter) (hp : FileState p) (h : p.advance s = some q)
    (hstate : q.state = .expectingEofLf) (hwithin : Within r.limits.contentLengthLimit q)
    (hlength : r.readSize = r.contentLength) :
    r.consumeAll (s ++ [Ch.newline]).length p (s ++ [Ch.newline]) .continueInput =
      (q, .ok .eof) := by
  have hne : q.state ≠ .expectingSeparatorBoundary := by
    rw [hstate]
    decide
  have hend : q.consume [Ch.newline] = (q, .eof, []) := by
    rw [consume, if_neg hne]
    unfold step
    rw [hstate]
    rfl
  have hcheck : r.check q [] .eof = (q, none) := by
    unfold check
    dsimp only
    rw [if_neg (not_or.mpr ⟨not_not_intro rfl, not_not_intro hlength⟩)]
  obtain ⟨result, hall, hresult⟩ :=
    consumeAll_append hquiet hp h hwithin hend hcheck (Nat.le_refl _)
    (List.append_ne_nil_of_right_ne_nil _ (List.cons_ne_nil _ _)) .continueInput
  rw [hall, hresult (List.cons_ne_nil _ _)]

/-- The last piece. -/
lemma onContentProgress_last (hquiet : Quiet r.filter) (hfull : r.readFull = false)
    (hp : FileState p) (h : p.advance s = some q) (hstate : q.state = .expectingEofLf)
    {parts : List FormPart} (hfiles : q.files = parts.map FormPart.file)
    (hwithin : Within r.limits.contentLengthLimit q)
    (hlength : ((n + (s ++ [Ch.newline]).length : ℕ) : ℤ) = r.contentLength) (data : Bytes) :
    ∃ r', (r.reading p n data).onContentProgress (s ++ [Ch.newline]) = (r', 0) ∧ r'.ready = true ∧
      r'.post = fields parts r.post ∧ r'.files = r.files ++ uploads parts := by
  have hquiet' : Quiet (r.reading p (n + (s ++ [Ch.newline]).length) (s ++ [Ch.newline])).filter :=
    hquiet
  have hall := consumeAll_last
    (r := r.reading p (n + (s ++ [Ch.newline]).length) (s ++ [Ch.newline])) hquiet' hp h
    hstate hwithin hlength
  have hne : s ++ [Ch.newline] ≠ [] := List.append_ne_nil_of_right_ne_nil _ (List.cons_ne_nil _ _)
  generalize s ++ [Ch.newline] = piece at hquiet' hall hne hlength ⊢
  have hnot :
    ¬ ((r.reading p (n + piece.length) piece).readSize =
    (r.reading p (n + piece.length) piece).contentLength ∧
      ParsingResult.eof ≠ .eof) := fun hboth => hboth.2 rfl
  have hprogress : (r.reading p n data).onContentProgress piece =
      (r.reading q (n + piece.length) piece).finish := by
    unfold onContentProgress
    rw [if_neg hne]
    dsimp only
    rw [store_reading hfull, hquiet'.notify]
    have hparser : (r.reading p (n + piece.length) piece).parser = some p := rfl
    rw [hparser]
    dsimp only
    unfold feed
    rw [hall]
    dsimp only
    rw [if_neg hnot]
    dsimp only
    exact if_pos hlength
  have hfull' : ¬ (r.reading q (n + piece.length) piece).readFull = true := by
    show ¬ r.readFull = true
    rw [hfull]
    decide
  have hcall : ((r.reading q (n + piece.length) piece).filter.bind fun f =>
      f.call .onEndOfContent) = none := by
    show (r.filter.bind fun f => f.call .onEndOfContent) = none
    rcases hf : r.filter with _ | f
    · rfl
    · exact (hquiet f hf).2 _
  rw [hprogress]
  unfold finish
  rw [if_neg hfull']
  dsimp only
  rw [hcall]
  refine ⟨_, rfl, rfl, ?_, ?_⟩
  · dsimp only
    rw [hfiles, foldl_addFile_parts]
    rfl
  · dsimp only
    rw [hfiles, foldl_addFile_parts]
    rfl

end Reading

/-! ## The round trip -/

/-- The request is within its limits, and its filter lets it pass. -/
structure Accepts (limits : ContentLimits) (filter : Option ContentFilter) (length : ℤ)
    (parts : List FormPart) : Prop where
  length_le : length ≤ limits.multipartFormDataLimit
  field_le : ∀ part ∈ parts, part.mime = none →
    (part.content.length : ℤ) ≤ limits.contentLengthLimit
  quiet : Quiet filter

section RoundTrip

variable {limits : ContentLimits} {filter : Option ContentFilter} {ct : ContentType} {key : Bytes}
  {parts : List FormPart} {length : ℤ}

lemma setContentType_atStart (hkey : ct.parameterByKey (bytes "boundary") = key) (hne : key ≠ []) :
    MultipartParser.init.setContentType ct = some (atStart key) := by
  unfold setContentType
  dsimp only
  rw [hkey, if_neg hne]
  rfl

lemma onContentStart_atStart (haccepts : Accepts limits filter length parts)
    (hct : ct.isMultipartFormData = true)
    (hkey : ct.parameterByKey (bytes "boundary") = key) (hne : key ≠ []) (hpos : length ≠ 0) :
    (init limits filter ct length).onContentStart =
      ((init limits filter ct length).reading (atStart key) 0 [], 0) := by
  have hlong : ¬ (ct.isMultipartFormData = true ∧ length > limits.multipartFormDataLimit) :=
    fun hboth =>
    not_lt.mpr haccepts.length_le hboth.2
  have hother : ¬ (¬ ct.isMultipartFormData = true ∧ length > limits.contentLengthLimit) :=
    fun hboth => hboth.1 hct
  have hraw : ¬ (init limits filter ct length).filterIsRaw = true := by
    unfold filterIsRaw
    show ¬ (filter.any fun f => f.kind = .rawContent) = true
    rcases hf : filter with _ | f
    · decide
    · have hkind := (haccepts.quiet f hf).1
      simp [hkind]
  have hlength : (init limits filter ct length).contentLength = length := rfl
  have hcontent : (init limits filter ct length).contentType = ct := rfl
  have hlimits : (init limits filter ct length).limits = limits := rfl
  unfold onContentStart
  rw [hlength, hcontent, hlimits, if_neg hpos, if_neg hlong, if_neg hother, if_neg hraw,
    if_neg (not_not_intro hct), setContentType_atStart hkey hne]
  rfl

/-- A form is read as it was written, whatever the pieces are.  The last call of `consume` for the
last piece is the one that tells the end. -/
theorem multipart_roundTrip (hct : ct.isMultipartFormData = true)
    (hkey : ct.parameterByKey (bytes "boundary") = key) (hne : key ≠ [])
      (hreturn : Ch.return' ∉ key)
    (hparts : ∀ part ∈ parts, part.Fits key) {pieces : List Bytes}
    (hpieces : pieces.flatten = FormPart.encodeAll key parts)
      (hpiece : ∀ piece ∈ pieces, piece ≠ [])
    (haccepts : Accepts limits filter (FormPart.encodeAll key parts).length parts) :
    ∃ r front last r₁ p q r₂,
      (init limits filter ct (FormPart.encodeAll key parts).length).onContentStart = (r, 0) ∧
      pieces = front ++ [last] ∧ r.receive front = (r₁, 0) ∧ r₁.parser = some p ∧
      (r₁.store last).consumeAll last.length p last .continueInput = (q, .ok .eof) ∧
      q.files = parts.map FormPart.file ∧
      r.receive pieces = (r₂, 0) ∧ r₂.ready = true ∧ r₂.post = fields parts ∅ ∧
      r₂.files = uploads parts := by
  have hnil : pieces ≠ [] := by
    rintro rfl
    have hempty : FormPart.encodeAll key parts = [] := hpieces.symm
    exact List.append_ne_nil_of_right_ne_nil _ (List.cons_ne_nil _ _) hempty
  obtain ⟨front, last, rfl⟩ : ∃ front last, pieces = front ++ [last] :=
    ⟨pieces.dropLast, pieces.getLast hnil, (List.dropLast_append_getLast hnil).symm⟩
  -- the last octet is in the last piece
  have hlast : last ≠ [] := hpiece last (List.mem_append_right _ (List.mem_singleton_self last))
  obtain ⟨s, c, rfl⟩ : ∃ s c, last = s ++ [c] :=
    ⟨last.dropLast, last.getLast hlast, (List.dropLast_append_getLast hlast).symm⟩
  have hflatten : front.flatten ++ s = FormPart.encodeFront key parts ∧ c = Ch.newline := by
    unfold FormPart.encodeAll at hpieces
    rw [List.flatten_append, List.flatten_singleton, ← List.append_assoc] at hpieces
    have hsplit := List.append_inj' hpieces rfl
    exact ⟨hsplit.1, List.singleton_inj.mp hsplit.2⟩
  obtain ⟨hfront, rfl⟩ := hflatten
  have hlength : (FormPart.encodeAll key parts).length =
      front.flatten.length + (s ++ [Ch.newline]).length := by
    rw [← hpieces, List.flatten_append, List.flatten_singleton, List.length_append]
  have hstart := onContentStart_atStart haccepts hct hkey hne (by
    rw [hlength, List.length_append, List.length_singleton]
    omega)
  have hadvance := advance_encodeFront hreturn hparts
  rw [← hfront, advance_append] at hadvance
  obtain ⟨p, hp, hq⟩ := Option.bind_eq_some_iff.mp hadvance
  have hfile : FileState (atStart key) := ⟨(fun h => by cases h), fun h => by cases h⟩
  have hfileP := hfile.advance hp
  have hwithin : Within limits.contentLengthLimit
      { between key (parts.map FormPart.file) with state := .expectingEofLf } := by
    refine ⟨(fun h => by cases h), fun f hf => ?_⟩
    obtain ⟨part, hpart, rfl⟩ := List.mem_map.mp hf
    unfold sizeOk
    rw [decide_eq_true_eq, hasMime_file]
    rintro ⟨hmime, hsize⟩
    have hnone : part.mime = none := by
      rcases hm : part.mime with _ | m
      · rfl
      · rw [hm] at hmime
        exact absurd rfl hmime
    exact not_lt.mpr (haccepts.field_le part hpart hnone) hsize
  obtain ⟨data, hreceive⟩ :=
    receive_reading (r := init limits filter ct (FormPart.encodeAll key parts).length)
    haccepts.quiet rfl hfile hp (hwithin.of_advance hfileP hq)
    (fun piece hmem => hpiece piece (List.mem_append_left _ hmem)) (n := 0) (by
      show ((0 + front.flatten.length : ℕ) : ℤ) < ((FormPart.encodeAll key parts).length : ℤ)
      rw [hlength, List.length_append, List.length_singleton]
      omega) []
  have htotal : ((0 + front.flatten.length + (s ++ [Ch.newline]).length : ℕ) : ℤ) =
      (init limits filter ct (FormPart.encodeAll key parts).length).contentLength := by
    show _ = ((FormPart.encodeAll key parts).length : ℤ)
    rw [hlength, Nat.zero_add]
  obtain ⟨r₂, hprogress, hready, hpost, hfiles⟩ :=
    onContentProgress_last haccepts.quiet rfl hfileP hq rfl rfl hwithin
    htotal data
  have hall := consumeAll_last
    (r := (init limits filter ct (FormPart.encodeAll key parts).length).reading p
      (0 + front.flatten.length + (s ++ [Ch.newline]).length) (s ++ [Ch.newline]))
    haccepts.quiet hfileP hq rfl hwithin htotal
  refine ⟨_, front, s ++ [Ch.newline], _, p,
    { between key (parts.map FormPart.file) with state := .expectingEofLf }, r₂, hstart, rfl,
    hreceive, rfl, ?_, rfl, ?_, hready, hpost, hfiles⟩
  · rw [store_reading rfl]
    exact hall
  · rw [receive_append hreceive, receive, hprogress]
    rfl

/-- A field with a quote in its name, whose content is almost a boundary, and a file. -/
def sampleParts : List FormPart :=
  [⟨bytes "a\"b", none, none, bytes "\r\n--x"⟩,
    ⟨bytes "f", some (bytes "f.txt"), some (bytes "text", bytes "plain"), bytes "\r\r\n"⟩]

def sampleType : ContentType := .parse (bytes "multipart/form-data; boundary=k")

set_option maxRecDepth 2048 in
lemma fits_sampleParts : ∀ part ∈ sampleParts, part.Fits (bytes "k") := by
  intro part hpart
  rcases List.mem_cons.mp hpart with rfl | hpart
  · exact ⟨by decide, (fun s hs => by cases hs), (fun m hm => by cases hm), by decide⟩
  · obtain rfl := List.mem_singleton.mp hpart
    refine ⟨by decide, fun s hs => ?_, fun m hm => ?_, by decide⟩
    · cases hs
      decide
    · cases hm
      exact ⟨by decide, by decide, by decide, by decide, by decide, by decide⟩

def sampleForm : Bytes := FormPart.encodeAll (bytes "k") sampleParts

set_option maxRecDepth 2048 in
theorem multipart_roundTrip_sample :
    ∃ r r₂ pieces, (init ⟨5, sampleForm.length⟩ none sampleType sampleForm.length).onContentStart =
      (r, 0) ∧
      pieces.flatten = sampleForm ∧ r.receive pieces = (r₂, 0) ∧ r₂.ready = true ∧
      r₂.post = fields sampleParts ∅ ∧
      r₂.files = uploads sampleParts := by
  have hpieces : [sampleForm.take 70, sampleForm.drop 70].flatten = sampleForm := by
    rw [List.flatten_cons, List.flatten_singleton, List.take_append_drop]
  have hpiece : ∀ piece ∈ [sampleForm.take 70, sampleForm.drop 70], piece ≠ [] := by
    intro piece hmem
    rcases List.mem_cons.mp hmem with rfl | hmem
    · decide
    · obtain rfl := List.mem_singleton.mp hmem
      decide
  have haccepts : Accepts ⟨5, sampleForm.length⟩ none sampleForm.length sampleParts :=
    ⟨Int.le_refl _, by decide, fun f hf => by cases hf⟩
  have htype : sampleType.isMultipartFormData = true := rfl
  rcases multipart_roundTrip htype rfl (by decide)
    (by decide) fits_sampleParts hpieces hpiece haccepts with
    ⟨r, -, -, -, -, -, r₂, hstart, -, -, -, -, -, hreceive, hready, hpost, hfiles⟩
  exact ⟨r, r₂, _, hstart, hpieces, hreceive, hready, hpost, hfiles⟩

end RoundTrip

end Request

end Http

end Cppcms
