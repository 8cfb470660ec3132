import Cppcms.Http.PartHeader
import Mathlib.Data.List.GetD

/-!
# Forms as multipart/form-data

A form is written as its parts with a boundary before each of them and behind the last one.  A part
has a header of one or two lines, in which its name and its file name are quoted strings, an empty
line, and its content.

The lemmas run the parser over what is written, octet by octet.  The octets of a content are kept
back as long as they could be the beginning of a boundary.  A boundary has only one CR, its first
octet; so where it does not go on, what was kept back is content, and the only octet that can be the
beginning of the next one is the last one read.
-/

namespace Cppcms

namespace Http

open Protocol Multipart

/-- A part of a form; the type and the subtype are those of a file. -/
structure FormPart where
  name : Bytes
  filename : Option Bytes
  mime : Option (Bytes × Bytes)
  content : Bytes

namespace FormPart

/-! ## What is written -/

def crlf : Bytes := [Ch.return', Ch.newline]

/-- What stands between the parts. -/
def delimiter (key : Bytes) : Bytes := bytes "\r\n--" ++ key

/-- What is written for a parameter. -/
def parameter (name v : Bytes) : Bytes := bytes "; " ++ name ++ Ch.eq :: quoted v

/-- The value of the field `Content-Disposition`. -/
def disposition (p : FormPart) : Bytes :=
  bytes "form-data" ++
    (parameter (bytes "name") p.name ++ p.filename.elim [] (parameter (bytes "filename")))

def mediaType (m : Bytes × Bytes) : Bytes := m.1 ++ bytes "/" ++ m.2

/-- A line of the header. -/
def field (name v : Bytes) : Bytes := name ++ Ch.colon :: Ch.space :: v

def lines (p : FormPart) : List Bytes :=
  field (bytes "Content-Disposition") p.disposition ::
    (p.mime.map fun m => field (bytes "Content-Type") (mediaType m)).toList

/-- The lines of a header with the empty line. -/
def header (lines : List Bytes) : Bytes := lines.flatMap (· ++ crlf) ++ crlf

/-- A part, with the end of the line of the boundary before it, and with the boundary behind it. -/
def encode (key : Bytes) (p : FormPart) : Bytes :=
  crlf ++ (header p.lines ++ (p.content ++ delimiter key))

/-- The parts of a form, but for the last octet. -/
def encodeFront (key : Bytes) (parts : List FormPart) : Bytes :=
  bytes "--" ++ key ++ (parts.flatMap (encode key) ++ bytes "--\r")

/-- A form. -/
def encodeAll (key : Bytes) (parts : List FormPart) : Bytes := encodeFront key parts ++ [Ch.newline]

/-- The file that the parser makes of a part. -/
def file (p : FormPart) : HttpFile :=
  ⟨p.name, p.mime.elim [] mediaType, p.filename.getD [], ⟨p.content, 0, Nat.zero_le _⟩⟩

/-- Octets that fit into a line. -/
def InLine (s : Bytes) : Prop := ∀ c ∈ s, c ≠ Ch.return' ∧ c ≠ Ch.newline

instance (s : Bytes) : Decidable (InLine s) := inferInstanceAs (Decidable (∀ c ∈ s, _))

/-- A part that can be written with the boundary `key`. -/
structure Fits (key : Bytes) (p : FormPart) : Prop where
  name_inLine : InLine p.name
  filename_inLine : ∀ s ∈ p.filename, InLine s
  mime_mediaType : ∀ m ∈ p.mime, ContentType.IsMediaType m.1 m.2
  content_free : ¬ delimiter key <:+: p.content

/-! ## The header -/

section Header

variable {f : HttpFile} {p : FormPart} {key line name rest v : Bytes}

lemma findCrlf_line (hline : Ch.return' ∉ line) (rest : Bytes) :
    findCrlf (line ++ (crlf ++ rest)) = some (line, rest) := by
  induction line with
  | nil =>
    show findCrlf (Ch.return' :: Ch.newline :: rest) = _
    rw [findCrlf, if_pos ⟨rfl, rfl⟩]
  | cons c line ih =>
    rw [List.mem_cons, not_or] at hline
    have hrest := ih hline.2
    have htwo : ∃ d s, line ++ (crlf ++ rest) = d :: s := by
      rcases line with _ | ⟨d, line⟩
      · exact ⟨Ch.return', Ch.newline :: rest, rfl⟩
      · exact ⟨d, line ++ (crlf ++ rest), rfl⟩
    rcases htwo with ⟨d, s, hs⟩
    have hc : ¬ (c = Ch.return' ∧ d = Ch.newline) := fun hboth => hline.1 hboth.1.symm
    rw [hs] at hrest
    rw [List.cons_append, hs, findCrlf, if_neg hc, hrest, Option.map_some]

/-- The lines are taken one after the other. -/
lemma processLines_header {lines : List Bytes}
    (hlines : ∀ line ∈ lines, Ch.return' ∉ line ∧ line ≠ []) {fuel : ℕ}
    (hfuel : lines.length < fuel) (f : HttpFile) :
    processLines fuel (header lines) f = lines.foldlM (fun f line => oneHeader line f) f := by
  induction lines generalizing fuel f with
  | nil =>
    rcases fuel with _ | fuel
    · exact absurd hfuel (Nat.lt_irrefl 0)
    · have hend : findCrlf (header []) = some ([], []) := findCrlf_line List.not_mem_nil []
      rw [processLines, hend]
      exact if_pos rfl
  | cons line lines ih =>
    rcases fuel with _ | fuel
    · exact absurd hfuel (Nat.not_lt_zero _)
    · have hline := hlines line List.mem_cons_self
      have hsplit : header (line :: lines) = line ++ (crlf ++ header lines) := by
        unfold header
        rw [List.flatMap_cons, List.append_assoc, List.append_assoc]
      rw [hsplit, processLines, findCrlf_line hline.1]
      dsimp only
      rw [if_neg hline.2, List.foldlM_cons]
      have hrest : processLines fuel (header lines) = fun f =>
          lines.foldlM (fun f line => oneHeader line f) f := by
        funext g
        exact ih (fun l hl => hlines l (List.mem_cons_of_mem line hl))
          (Nat.lt_of_succ_lt_succ hfuel) g
      rw [hrest]
      rfl

/-- A line is the name of a field and its value. -/
lemma oneHeader_field (hne : name ≠ []) (hname : ∀ c ∈ name, isTocken c) (hv : skipWs v = v) :
    oneHeader (field name v) f =
      if Protocol.compare name (bytes "Content-Disposition") = 0 then
        if Protocol.compare (tocken v).1 (bytes "form-data") ≠
          0 then none else parseContentDisposition (tocken v).2 f
      else if Protocol.compare name (bytes "Content-Type") = 0 then
        some { f with mime := (ContentType.parse v).mediaType }
      else some f := by
  have hskip : skipWs (field name v) = name ++ Ch.colon :: Ch.space :: v := by
    rcases List.exists_cons_of_ne_nil hne with ⟨c, t, rfl⟩
    exact skipWs_of_isTocken (hname c List.mem_cons_self) _
  have htocken : tocken (skipWs (field name v)) = (name, Ch.colon :: Ch.space :: v) := by
    rw [hskip]
    exact tocken_append hname (by decide) _
  have hcolon : skipWs (Ch.colon :: Ch.space :: v) = Ch.colon :: Ch.space :: v :=
    skipWs_cons (by decide) (by decide) (by decide) _
  unfold oneHeader
  rw [htocken]
  dsimp only
  rw [hcolon, expect_cons]
  show (if Protocol.compare name (bytes "Content-Disposition") = 0 then _ else _) = _
  rw [skipWs_space, hv]

lemma length_pairStep {s r : Bytes} {x : Bytes × Bytes} (h : pairStep s = some (x, r)) :
    r.length < s.length := by
  unfold pairStep at h
  rcases Option.map_eq_some_iff.mp h with ⟨⟨y, q⟩, hq, heq⟩
  cases heq
  unfold parsePair at hq
  rcases Option.bind_eq_some_iff.mp hq with ⟨p₁, h₁, hq⟩
  rcases Option.bind_eq_some_iff.mp hq with ⟨⟨n, p₂⟩, h₂, hq⟩
  rcases Option.bind_eq_some_iff.mp hq with ⟨p₃, h₃, hq⟩
  rcases Option.bind_eq_some_iff.mp hq with ⟨⟨w, p₄⟩, h₄, hq⟩
  cases hq
  have hsemicolon := length_expect h₁
  have hname := (length_nonemptyTocken h₂).trans (length_skipWs p₁)
  have heq := length_expect h₃
  have hvalue := (length_value h₄).trans (length_skipWs p₃)
  have hskip := length_skipWs q
  show (skipWs q).length < s.length
  omega

lemma shortens_pairStep : Consume.Shortens pairStep := fun _ _ _ h => length_pairStep h

lemma pairStep_parameter (hne : name ≠ []) (hname : ∀ c ∈ name, isTocken c) (v rest : Bytes) :
    pairStep (parameter name v ++ rest) = some ((name, v), skipWs rest) := by
  have hskip : skipWs (Ch.space :: (name ++ Ch.eq :: (quoted v ++ rest))) = name ++ Ch.eq ::
      (quoted v ++ rest) := by
    rw [skipWs_space]
    rcases List.exists_cons_of_ne_nil hne with ⟨c, t, rfl⟩
    exact skipWs_of_isTocken (hname c List.mem_cons_self) _
  have hquoted : skipWs (quoted v ++ rest) = quoted v ++ rest :=
    skipWs_cons (by decide) (by decide) (by decide) _
  have hsplit : parameter name v ++ rest = Ch.semicolon :: Ch.space ::
      (name ++ Ch.eq :: (quoted v ++ rest)) := by
    unfold parameter
    rw [List.append_assoc, List.append_assoc]
    rfl
  unfold pairStep parsePair
  rw [hsplit, expect_cons]
  simp only [Option.bind_eq_bind, Option.bind_some, hskip,
    nonemptyTocken_append hne hname (by decide : isTocken Ch.eq = false), expect_cons, hquoted,
    value_quoted, Option.pure_def, Option.map_some]

lemma setField_name (f : HttpFile) (v : Bytes) :
    setField f (bytes "name", v) = { f with name := v } := by
  unfold setField
  dsimp only
  rw [if_neg (by decide), if_pos (by decide)]

lemma setField_filename (f : HttpFile) (v : Bytes) :
    setField f (bytes "filename", v) = { f with filename := v } := by
  unfold setField
  dsimp only
  rw [if_pos (by decide)]

set_option maxRecDepth 2048 in
/-- The parameters of `Content-Disposition`. -/
lemma parseContentDisposition_parameters (name : Bytes) (filename : Option Bytes) (f : HttpFile) :
    parseContentDisposition
      (parameter (bytes "name") name ++ filename.elim [] (parameter (bytes "filename"))) f =
      some { f with name := name, filename := filename.getD f.filename } := by
  have hskip : ∀ n v s, skipWs (parameter n v ++ s) = parameter n v ++ s := fun n v s =>
    skipWs_cons (by decide) (by decide) (by decide) _
  have hcons : ∀ n v s, parameter n v ++ s ≠ [] := fun n v s => List.cons_ne_nil _ _
  have hname : ∀ rest, pairStep (parameter (bytes "name") name ++ rest) =
      some ((bytes "name", name), skipWs rest) :=
    pairStep_parameter (by decide) (by decide) name
  have hfilename : ∀ v rest, pairStep (parameter (bytes "filename") v ++ rest) =
      some ((bytes "filename", v), skipWs rest) := pairStep_parameter (by decide) (by decide)
  unfold parseContentDisposition
  rw [hskip, Consume.consume_of_step shortens_pairStep (hcons _ _ _) (hname _)]
  rcases filename with _ | s
  · rw [Option.elim_none, skipWs, Consume.consume_nil]
    simp only [Option.map_some, List.foldl_cons, List.foldl_nil, setField_name, Option.getD_none]
  · have hlast := hfilename s []
    have hself := hskip (bytes "filename") s []
    rw [List.append_nil] at hlast hself
    have hne : parameter (bytes "filename") s ≠ [] := List.cons_ne_nil _ _
    rw [Option.elim_some, hself, Consume.consume_of_step shortens_pairStep hne hlast, skipWs,
      Consume.consume_nil]
    simp only [Option.map_some, List.foldl_cons, List.foldl_nil, setField_name, setField_filename,
      Option.getD_some]

set_option maxRecDepth 2048 in
lemma oneHeader_disposition (p : FormPart) (f : HttpFile) :
    oneHeader (field (bytes "Content-Disposition") p.disposition) f =
      some { f with name := p.name, filename := p.filename.getD f.filename } := by
  have hskip : skipWs p.disposition = p.disposition :=
    skipWs_cons (by decide) (by decide) (by decide) _
  have htocken : tocken p.disposition =
      (bytes "form-data", parameter (bytes "name") p.name ++ p.filename.elim []
        (parameter (bytes "filename"))) :=
    tocken_append (by decide) (by decide) _
  have hdisposition : ¬ Protocol.compare (bytes "form-data") (bytes "form-data") ≠ 0 := by decide
  rw [oneHeader_field (by decide) (by decide) hskip, if_pos (by decide), htocken,
    if_neg hdisposition]
  exact parseContentDisposition_parameters _ _ _

variable {m : Bytes × Bytes}

set_option maxRecDepth 2048 in
lemma oneHeader_contentType (hm : ContentType.IsMediaType m.1 m.2) (f : HttpFile) :
    oneHeader (field (bytes "Content-Type") (mediaType m)) f =
      some { f with mime := mediaType m } := by
  have hskip : skipWs (mediaType m) = mediaType m := by
    unfold mediaType
    rcases List.exists_cons_of_ne_nil hm.type_ne with ⟨c, t, ht⟩
    rw [ht, List.append_assoc, List.cons_append]
    exact skipWs_of_isTocken (hm.type_tocken c (ht ▸ List.mem_cons_self)) _
  rw [oneHeader_field (by decide) (by decide) hskip, if_neg (by decide), if_pos (by decide)]
  unfold mediaType
  rw [ContentType.parse_mediaType hm]

lemma return_notMem_quoted {s : Bytes} (hs : InLine s) : Ch.return' ∉ quoted s := by
  intro hmem
  unfold quoted at hmem
  rcases List.mem_append.mp hmem with hmem | hmem
  · rcases List.mem_cons.mp hmem with hquote | hmem
    · exact absurd hquote (by decide)
    · rcases mem_of_mem_escape hmem with hmem | hback
      · exact (hs _ hmem).1 rfl
      · exact absurd hback (by decide)
  · exact absurd (List.mem_singleton.mp hmem) (by decide)

lemma return_notMem_parameter (hname : Ch.return' ∉ name) (hv : InLine v) :
    Ch.return' ∉ parameter name v := by
  unfold parameter
  rw [List.mem_append, List.mem_append, List.mem_cons]
  rintro ((hmem | hmem) | heq | hmem)
  · exact absurd hmem (by decide)
  · exact hname hmem
  · exact absurd heq (by decide)
  · exact return_notMem_quoted hv hmem

lemma return_notMem_field (hname : Ch.return' ∉ name) (hv : Ch.return' ∉ v) :
    Ch.return' ∉ field name v := by
  unfold field
  rw [List.mem_append, List.mem_cons, List.mem_cons]
  rintro (hmem | hcolon | hspace | hmem)
  · exact hname hmem
  · exact absurd hcolon (by decide)
  · exact absurd hspace (by decide)
  · exact hv hmem

lemma return_notMem_mediaType (hm : ContentType.IsMediaType m.1 m.2) :
    Ch.return' ∉ mediaType m := by
  unfold mediaType
  rw [List.mem_append, List.mem_append]
  rintro ((hmem | hmem) | hmem)
  · exact absurd (hm.type_tocken _ hmem) (by decide)
  · exact absurd hmem (by decide)
  · exact absurd (hm.subtype_tocken _ hmem) (by decide)

lemma Fits.lines (hp : p.Fits key) : ∀ line ∈ p.lines, Ch.return' ∉ line ∧ line ≠ [] := by
  intro line hline
  rcases List.mem_cons.mp hline with rfl | hline
  · refine ⟨return_notMem_field (by decide) ?_, List.cons_ne_nil _ _⟩
    unfold disposition
    rw [List.mem_append, List.mem_append]
    rintro (hmem | hmem | hmem)
    · exact absurd hmem (by decide)
    · exact return_notMem_parameter (by decide) hp.name_inLine hmem
    · rcases hfilename : p.filename with _ | s
      · rw [hfilename] at hmem
        exact List.not_mem_nil hmem
      · rw [hfilename] at hmem
        exact return_notMem_parameter (by decide) (hp.filename_inLine s hfilename) hmem
  · rcases Option.map_eq_some_iff.mp (Option.mem_toList.mp hline) with ⟨m, hm, rfl⟩
    exact ⟨return_notMem_field (by decide) (return_notMem_mediaType (hp.mime_mediaType m hm)),
      List.cons_ne_nil _ _⟩

/-- The header of a part gives the file, still without its content. -/
lemma processHeader_lines (hp : p.Fits key) :
    processHeader (header p.lines) .init = some { p.file with data := .empty } := by
  have hlength : p.lines.length < (header p.lines).length + 1 := by
    have hle : p.lines.length ≤ (p.lines.flatMap (· ++ crlf)).length := by
      rw [List.length_flatMap]
      refine (Nat.le_of_eq (List.length_map (fun line => (line ++ crlf).length)).symm).trans
        (List.length_le_sum_of_one_le _ ?_)
      rintro n hn
      rcases List.mem_map.mp hn with ⟨line, -, rfl⟩
      rw [List.length_append]
      exact Nat.le_add_left 1 _
    unfold header
    rw [List.length_append]
    omega
  unfold processHeader
  rw [processLines_header hp.lines hlength]
  unfold lines
  rw [List.foldlM_cons, oneHeader_disposition]
  rcases hmime : p.mime with _ | m
  · rcases p with ⟨name, filename, mime, content⟩
    cases hmime
    rfl
  · have htype := oneHeader_contentType (hp.mime_mediaType m hmime)
      { HttpFile.init with name := p.name, filename := p.filename.getD HttpFile.init.filename }
    simp only [Option.bind_eq_bind, Option.bind_some, Option.map_some, Option.toList_some,
      List.foldlM_cons, List.foldlM_nil, htype]
    unfold file
    rw [hmime]
    rfl

end Header

end FormPart

namespace MultipartParser

open FormPart

section Octets

variable {p q : MultipartParser} {c : UInt8} {s u : Bytes}

lemma advance_cons_of_eq (h : p.advanceOctet c = some q) (s : Bytes) :
    p.advance (c :: s) = q.advance s := by
  rw [advance, h, Option.bind_some]

lemma advanceOctet_of_next (h : p.step c false = .next q) : p.advanceOctet c = some q := by
  unfold advanceOctet
  rw [h]

lemma advance_singleton (p : MultipartParser) (c : UInt8) : p.advance [c] = p.advanceOctet c := by
  rw [advance]
  rcases p.advanceOctet c with _ | q
  · rfl
  · rfl

/-! ## The end of a header -/

variable {position : ℕ} {lines : List Bytes}

lemma search_line (hposition : position = 0 ∨ position = 2) {line : Bytes}
    (hline : Ch.return' ∉ line) (hne : line ≠ []) :
    search position line = none ∧ line.foldl fit position = 0 := by
  induction line generalizing position with
  | nil => exact absurd rfl hne
  | cons c line ih =>
    rw [List.mem_cons, not_or] at hline
    have hfit : fit position c = 0 := by
      rcases hposition with rfl | rfl
      · exact if_neg fun hc => hline.1 hc.symm
      · exact if_neg fun hc => hline.1 hc.symm
    have hnot : fit position c ≠ 4 := by
      rw [hfit]
      decide
    rw [search, if_neg hnot, List.foldl_cons, hfit]
    rcases line with _ | ⟨d, line⟩
    · exact ⟨rfl, rfl⟩
    · have hrest := ih (.inl rfl) hline.2 (List.cons_ne_nil d line)
      rw [hrest.1]
      exact ⟨rfl, hrest.2⟩

/-- Behind a line the end of the line fits. -/
lemma search_lines (hposition : position = 0 ∨ position = 2)
    (hlines : ∀ line ∈ lines, Ch.return' ∉ line ∧ line ≠ []) :
    search position (lines.flatMap (· ++ crlf)) = none ∧
      (lines ≠ [] → (lines.flatMap (· ++ crlf)).foldl fit position = 2) := by
  induction lines generalizing position with
  | nil => exact ⟨rfl, fun hne => absurd rfl hne⟩
  | cons line lines ih =>
    have hline := hlines line List.mem_cons_self
    obtain ⟨hsearch, hzero⟩ := search_line hposition hline.1 hline.2
    have hend : search 0 crlf = none ∧ crlf.foldl fit 0 = 2 := by decide
    obtain ⟨hrest, htwo⟩ := ih (.inr rfl) fun l hl => hlines l (List.mem_cons_of_mem line hl)
    rw [List.flatMap_cons, List.append_assoc]
    constructor
    · rw [search_append hsearch, hzero, search_append hend.1, hend.2, hrest]
      rfl
    · intro _
      rw [List.foldl_append, hzero, List.foldl_append, hend.2]
      rcases lines with _ | ⟨line', lines⟩
      · rfl
      · exact htwo (List.cons_ne_nil line' lines)

/-- Octets of a header that are not its end. -/
lemma advance_search (hstate : p.state = .expectingCrlfcrlf) (h : search p.position u = none) :
    p.advance u = some { p with header := p.header ++ u, position := u.foldl fit p.position } := by
  induction u generalizing p with
  | nil =>
    rw [advance, List.append_nil]
    rfl
  | cons c u ih =>
    unfold search at h
    split_ifs at h with hfit
    have hoctet : p.advanceOctet c =
        some { p with header := p.header ++ [c], position := fit p.position c } := by
      have hstep : p.step c false = p.headerStep c := by
        unfold step
        rw [hstate]
      exact advanceOctet_of_next (hstep.trans (headerStep_of_not_fit hfit))
    rw [advance_cons_of_eq hoctet,
      @ih { p with header := p.header ++ [c], position := fit p.position c } hstate
      (Option.map_eq_none_iff.mp h)]
    simp only [List.append_assoc, List.singleton_append, List.foldl_cons]

/-- A header is read, and its part is next. -/
lemma advance_header (hlines : ∀ line ∈ lines, Ch.return' ∉ line ∧ line ≠ []) (hne : lines ≠ [])
    (hstate : p.state = .expectingCrlfcrlf) (hposition : p.position = 0) (hheader : p.header = [])
    {file : HttpFile} (hfile : processHeader (FormPart.header lines) p.file = some file) :
    p.advance (FormPart.header lines) =
      some { p with file, position := 0, header := [], state :=
        .expectingSeparatorBoundary, fileIsReady := true } := by
  obtain ⟨hsearch, htwo⟩ := search_lines (.inl rfl) hlines
  have hsplit : FormPart.header lines = lines.flatMap (· ++ crlf) ++ [Ch.return'] ++
      [Ch.newline] := by
    unfold FormPart.header
    rw [List.append_assoc]
    rfl
  have hmost : search p.position (lines.flatMap (· ++ crlf) ++ [Ch.return']) = none := by
    have hone : search 2 [Ch.return'] = none := by decide
    rw [hposition, search_append hsearch, htwo hne, hone]
    rfl
  have hthree : (lines.flatMap (· ++ crlf) ++ [Ch.return']).foldl fit p.position = 3 := by
    rw [hposition, List.foldl_append, htwo hne]
    decide
  have hfull : (if Ch.newline = crlfcrlf.getD 3 0 then 3 + 1 else 0) = crlfcrlf.length := by decide
  rw [hsplit, advance_append_of_eq (advance_search hstate hmost), advance_singleton, hthree,
    hheader, List.nil_append]
  unfold advanceOctet step
  simp only [hstate]
  unfold headerStep
  simp only [hfull, if_true]
  rw [← hsplit, hfile]
  rfl

/-! ## The content of a part -/

/-- An octet of a content. -/
lemma contentStep_eq (hlong : 1 < p.boundary.length) (hposition : p.position < p.boundary.length)
    (c : UInt8) :
    p.contentStep c =
      if c = p.boundary.getD p.position 0 then
        if p.position + 1 = p.boundary.length then .past
          { p with position := p.position + 1 }.contentReady .contentReady
        else .next { p with position := p.position + 1 }
      else if 0 < p.position ∧ c = p.boundary.getD 0 0 then
        .next { p with file := p.file.append (p.boundary.take p.position), position := 1 }
      else .next { p with file := p.file.append (p.boundary.take p.position ++ [c]), position :=
        0 } := by
  have hlength : (p.boundary.take p.position).length = p.position :=
    List.length_take_of_le hposition.le
  unfold contentStep matchBoundary
  by_cases hc : c = p.boundary.getD p.position 0
  · rw [if_pos hc, if_pos hc]
    dsimp only
    rw [if_neg (Nat.succ_ne_zero _)]
  · rw [if_neg hc, if_neg hc]
    by_cases hpos : 0 < p.position
    · rw [if_pos hpos, HttpFile.sputn_eq]
      dsimp only
      rw [hlength, decide_eq_true rfl]
      dsimp only
      by_cases hfirst : c = p.boundary.getD 0 0
      · have hone : 1 ≠ p.boundary.length := hlong.ne
        rw [if_pos hfirst, if_neg one_ne_zero, if_neg hone, if_pos ⟨hpos, hfirst⟩]
      · have hboth : ¬ (0 < p.position ∧ c = p.boundary.getD 0 0) := fun h => hfirst h.2
        rw [if_neg hfirst, if_pos rfl, HttpFile.sputc_eq, if_neg hboth, HttpFile.append_append]
    · have hzero : p.position = 0 := Nat.eq_zero_of_not_pos hpos
      have hboth : ¬ (0 < p.position ∧ c = p.boundary.getD 0 0) := fun h => hpos h.1
      rw [if_neg hpos, if_neg hboth]
      dsimp only
      rw [if_pos hzero, HttpFile.sputc_eq, hzero, List.take_zero, List.nil_append]

lemma advanceOctet_content (hstate : p.state = .expectingSeparatorBoundary)
    (hlong : 1 < p.boundary.length) (hposition : p.position < p.boundary.length) (c : UInt8) :
    p.advanceOctet c = some
      (if c = p.boundary.getD p.position 0 then
        if p.position + 1 = p.boundary.length then { p with position :=
          p.position + 1 }.contentReady
        else { p with position := p.position + 1 }
      else if 0 < p.position ∧ c = p.boundary.getD 0 0 then
        { p with file := p.file.append (p.boundary.take p.position), position := 1 }
      else { p with file := p.file.append (p.boundary.take p.position ++ [c]), position :=
        0 }) := by
  have hstep : p.step c false = p.contentStep c := by
    unfold step
    rw [hstate]
  unfold advanceOctet
  rw [hstep, contentStep_eq hlong hposition]
  split_ifs
  · rfl
  · rfl
  · rfl
  · rfl

variable {b : Bytes}

/-- Octets in which there is no boundary: they are written but for the last ones, which are the
beginning of a boundary. -/
lemma advance_content (hstate : p.state = .expectingSeparatorBoundary) (hposition : p.position = 0)
    (hboundary : p.boundary = Ch.return' :: b) (hne : b ≠ []) (hfree : ¬ p.boundary <:+: u) :
    ∃ w k, k < p.boundary.length ∧ u = w ++ p.boundary.take k ∧
      p.advance u = some { p with file := p.file.append w, position := k } := by
  have hlong : 1 < p.boundary.length := by
    rw [hboundary, List.length_cons]
    exact Nat.succ_lt_succ (List.length_pos_iff.mpr hne)
  induction u using List.reverseRecOn with
  | nil =>
    refine ⟨[], 0, by omega, rfl, ?_⟩
    rw [advance, HttpFile.append_nil, ← hposition]
  | append_singleton u c ih =>
    have hfree' : ¬ p.boundary <:+: u := fun hin =>
      hfree (hin.trans (List.prefix_append u [c]).isInfix)
    obtain ⟨w, k, hk, hu, hadvance⟩ := ih hfree'
    have hoctet := advanceOctet_content (p := { p with file := p.file.append w, position := k })
      hstate hlong hk c
    rw [advance_append_of_eq hadvance, advance_singleton, hoctet]
    dsimp only
    by_cases hc : c = p.boundary.getD k 0
    · have htake : p.boundary.take (k + 1) = p.boundary.take k ++ [c] := by
        rw [List.take_succ_eq_append_getElem hk, hc, List.getD_eq_getElem _ _ hk]
      have hend : k + 1 ≠ p.boundary.length := by
        intro heq
        rw [heq, List.take_length] at htake
        apply hfree
        rw [hu, List.append_assoc, ← htake]
        exact (List.suffix_append w p.boundary).isInfix
      rw [if_pos hc, if_neg hend]
      refine ⟨w, k + 1, by omega, ?_, rfl⟩
      rw [hu, htake, List.append_assoc]
    · rw [if_neg hc]
      by_cases hfirst : 0 < k ∧ c = p.boundary.getD 0 0
      · rw [if_pos hfirst]
        refine ⟨w ++ p.boundary.take k, 1, hlong, ?_, ?_⟩
        · rw [hu, hfirst.2, hboundary]
          rfl
        · rw [HttpFile.append_append]
      · rw [if_neg hfirst]
        refine ⟨w ++ p.boundary.take k ++ [c], 0, by omega, ?_, ?_⟩
        · rw [hu, List.take_zero, List.append_nil]
        · rw [HttpFile.append_append, List.append_assoc]

/-- The octets of a boundary behind some of its octets. -/
lemma advance_boundary_rest (hstate : p.state = .expectingSeparatorBoundary) {a r : Bytes}
    (hr : r ≠ []) (hboundary : p.boundary = a ++ r) (ha : a ≠ [])
    (hposition : p.position = a.length) :
    p.advance r = some { p with position := p.boundary.length }.contentReady := by
  induction r generalizing p a with
  | nil => exact absurd rfl hr
  | cons c r ih =>
    have hlength : p.boundary.length = a.length + (r.length + 1) := by
      rw [hboundary, List.length_append, List.length_cons]
    have hpos := List.length_pos_iff.mpr ha
    have hoctet := advanceOctet_content hstate (by omega) (by omega) c
    have hc : c = p.boundary.getD p.position 0 := by
      rw [hposition, hboundary, List.getD_append_right _ _ _ _ (Nat.le_refl _), Nat.sub_self]
      rfl
    rw [if_pos hc] at hoctet
    rcases r with _ | ⟨d, r⟩
    · have hend : p.position + 1 = p.boundary.length := by
        rw [hposition, hlength]
        rfl
      rw [if_pos hend] at hoctet
      rw [advance_singleton, hoctet, hend]
    · have hend : p.position + 1 ≠ p.boundary.length := by
        rw [hposition, hlength, List.length_cons]
        omega
      rw [if_neg hend] at hoctet
      rw [advance_cons_of_eq hoctet]
      refine ih (p := { p with position := p.position + 1 }) (a := a ++ [c]) hstate
        (List.cons_ne_nil d r) ?_ (by simp) ?_
      · rw [List.append_assoc]
        exact hboundary
      · rw [List.length_append, List.length_singleton, ← hposition]

/-- A content is read with the boundary behind it. -/
lemma advance_content_boundary (hstate : p.state = .expectingSeparatorBoundary)
    (hposition : p.position = 0) (hboundary : p.boundary = Ch.return' :: b) (hne : b ≠ [])
    (hreturn : Ch.return' ∉ b) (hfree : ¬ p.boundary <:+: u) :
    p.advance (u ++ p.boundary) =
      some { p with file := p.file.append u, position := p.boundary.length }.contentReady := by
  obtain ⟨w, k, hk, hu, hadvance⟩ := advance_content hstate hposition hboundary hne hfree
  have hlong : 1 < p.boundary.length := by
    rw [hboundary, List.length_cons]
    exact Nat.succ_lt_succ (List.length_pos_iff.mpr hne)
  have hfirst : p.boundary.getD 0 0 = Ch.return' := by
    rw [hboundary]
    rfl
  -- with the CR all of the content is written
  have hcr :
    ({ p with file := p.file.append w, position := k } : MultipartParser).advanceOctet Ch.return' =
      some { p with file := p.file.append u, position := 1 } := by
    rw [advanceOctet_content (p := { p with file := p.file.append w, position := k })
      hstate hlong hk]
    dsimp only
    rcases k with _ | k
    · rw [List.take_zero, List.append_nil] at hu
      have hend : 0 + 1 ≠ p.boundary.length := hlong.ne
      rw [if_pos hfirst.symm, if_neg hend, hu]
    · have hnot : Ch.return' ≠ p.boundary.getD (k + 1) 0 := by
        intro heq
        apply hreturn
        rw [hboundary, List.length_cons] at hk
        rw [hboundary, List.getD_cons_succ,
          List.getD_eq_getElem _ _ (Nat.lt_of_succ_lt_succ hk)] at heq
        rw [heq]
        exact List.getElem_mem _
      rw [if_neg hnot, if_pos ⟨Nat.succ_pos k, hfirst.symm⟩, HttpFile.append_append, ← hu]
  have hrest :=
    advance_boundary_rest (p := { p with file := p.file.append u, position := 1 }) hstate hne
    (a := [Ch.return']) hboundary (List.cons_ne_nil _ _) rfl
  have htail := (advance_cons_of_eq hcr b).trans hrest
  rw [← hboundary] at htail
  rw [advance_append_of_eq hadvance]
  exact htail

end Octets

/-! ## A form -/

section Form

variable {key : Bytes} {part : FormPart} {parts : List FormPart} {files : List HttpFile}

/-- The parser between two parts. -/
def between (key : Bytes) (files : List HttpFile) : MultipartParser where
  state := .expectingOneCrlfOrEof
  file := .init
  files := files
  position := 0
  header := []
  boundary := delimiter key
  fileIsReady := false

/-- The parser at the beginning of a content. -/
def atStart (key : Bytes) : MultipartParser :=
  { between key [] with state := .expectingFirstBoundary, position := 2 }

/-- The octets of the first boundary. -/
lemma advance_first {p : MultipartParser} (hstate : p.state = .expectingFirstBoundary) {a r : Bytes}
    (hr : r ≠ []) (hboundary : p.boundary = a ++ r) (hposition : p.position = a.length) :
    p.advance r = some { p with state := .expectingOneCrlfOrEof, position := 0 } := by
  induction r generalizing p a with
  | nil => exact absurd rfl hr
  | cons c r ih =>
    have hlength : p.boundary.length = a.length + (r.length + 1) := by
      rw [hboundary, List.length_append, List.length_cons]
    have hc : ¬ c ≠ p.boundary.getD p.position 0 := by
      rw [hposition, hboundary, List.getD_append_right _ _ _ _ (Nat.le_refl _), Nat.sub_self]
      exact not_not_intro rfl
    rcases r with _ | ⟨d, r⟩
    · have hend : p.position + 1 = p.boundary.length := by
        rw [hposition, hlength]
        rfl
      rw [advance_singleton]
      unfold advanceOctet step
      rw [hstate]
      dsimp only
      rw [if_neg hc, if_pos hend]
    · have hend : p.position + 1 ≠ p.boundary.length := by
        rw [hposition, hlength, List.length_cons]
        omega
      have hoctet : p.advanceOctet c = some { p with position := p.position + 1 } := by
        unfold advanceOctet step
        rw [hstate]
        dsimp only
        rw [if_neg hc, if_neg hend]
      rw [advance_cons_of_eq hoctet]
      refine ih (p := { p with position := p.position + 1 }) (a := a ++ [c]) hstate
        (List.cons_ne_nil d r) ?_ ?_
      · rw [List.append_assoc]
        exact hboundary
      · rw [List.length_append, List.length_singleton, ← hposition]

lemma advance_atStart (key : Bytes) :
    (atStart key).advance (bytes "--" ++ key) = some (between key []) :=
  advance_first (p := atStart key) rfl (a := crlf) (List.cons_ne_nil _ _) rfl rfl

lemma advance_part (hreturn : Ch.return' ∉ key) (hpart : part.Fits key) (files : List HttpFile) :
    (between key files).advance (encode key part) = some (between key (files ++ [part.file])) := by
  have hcrlf : (between key files).advance crlf =
    some { between key files with state := .expectingCrlfcrlf } := rfl
  have hheader :=
    advance_header (p := { between key files with state := .expectingCrlfcrlf }) hpart.lines
    (List.cons_ne_nil _ _) rfl rfl rfl (processHeader_lines hpart)
  have hrest : Ch.return' ∉ bytes "\n--" ++ key := by
    rw [List.mem_append]
    rintro (hmem | hmem)
    · exact absurd hmem (by decide)
    · exact hreturn hmem
  have hcontent := advance_content_boundary (u := part.content) (b := bytes "\n--" ++ key)
    (p := { between key files with
      file := { part.file with data := .empty }, position := 0, header := [], state :=
        .expectingSeparatorBoundary,
      fileIsReady := true }) rfl rfl rfl (List.cons_ne_nil _ _) hrest hpart.content_free
  unfold encode
  rw [advance_append_of_eq hcrlf, advance_append_of_eq hheader]
  refine hcontent.trans ?_
  have hfile : ({ part.file with data := .empty } : HttpFile).append part.content = part.file := rfl
  have hrewind : (({ part.file with data := .empty } : HttpFile).append part.content).rewind =
      part.file := by
    rw [HttpFile.rewind_append _ _ rfl, hfile]
  unfold contentReady
  dsimp only
  rw [hrewind]
  rfl

lemma advance_parts (hreturn : Ch.return' ∉ key) (hparts : ∀ part ∈ parts, part.Fits key)
    (files : List HttpFile) :
    (between key files).advance (parts.flatMap (encode key)) =
      some (between key (files ++ parts.map FormPart.file)) := by
  induction parts generalizing files with
  | nil => rw [List.flatMap_nil, advance, List.map_nil, List.append_nil]
  | cons part parts ih =>
    have hrest := ih (fun q hq => hparts q (List.mem_cons_of_mem part hq)) (files ++ [part.file])
    rw [List.flatMap_cons, advance_append_of_eq
      (advance_part hreturn (hparts part List.mem_cons_self) files), hrest, List.map_cons,
      List.append_assoc, List.singleton_append]

/-- The parser before the last octet. -/
lemma advance_encodeFront (hreturn : Ch.return' ∉ key) (hparts : ∀ part ∈ parts, part.Fits key) :
    (atStart key).advance (encodeFront key parts) =
      some { between key (parts.map FormPart.file) with state := .expectingEofLf } := by
  unfold encodeFront
  rw [advance_append_of_eq (advance_atStart key),
    advance_append_of_eq (advance_parts hreturn hparts []), List.nil_append]
  rfl

end Form

end MultipartParser

end Http

end Cppcms
