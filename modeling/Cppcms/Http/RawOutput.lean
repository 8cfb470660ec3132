import Cppcms.Aio.Buffer
import Cppcms.Http.Output

/-!
# Raw responses

In the raw mode an application writes the headers of a response itself, in front of the body.
`basic_device::write` takes them out of the segments of what it is given, as far as they go, and
what is behind the empty line goes to the connection.

A line of `Status` or `Content-Length` sets that header, and one whose value is empty takes it away
again.  The other lines are kept in their order.
-/

namespace Cppcms

namespace Http

/-! ## Names of headers -/

namespace Protocol

lemma compare_symm (a b : Bytes) : compare a b = -compare b a := by
  induction a generalizing b with
  | nil => rcases b with _ | ⟨d, b⟩ <;> rfl
  | cons c a ih =>
    rcases b with _ | ⟨d, b⟩
    · rfl
    · rw [compare, compare]
      split_ifs with hlt hgt hgt
      · exact absurd hgt (Int8.lt_asymm hlt)
      · rfl
      · rfl
      · exact ih b

end Protocol

namespace ResponseHeaders

open Protocol (compare_eq_zero_iff compare_symm)

/-- Two names of one header. -/
def SameName (a b : Bytes) : Prop := Protocol.compare a b = 0

instance (a b : Bytes) : Decidable (SameName a b) := inferInstanceAs (Decidable (_ = _))

variable {a b : Bytes} {x : Bytes × Bytes} {name name' : Bytes}

lemma SameName.symm (h : SameName a b) : SameName b a :=
  (compare_eq_zero_iff b a).2 ((compare_eq_zero_iff a b).1 h).symm

lemma SameName.trans {a b c : Bytes} (h : SameName a b) (h' : SameName b c) : SameName a c :=
  (compare_eq_zero_iff a c).2
    (((compare_eq_zero_iff a b).1 h).trans ((compare_eq_zero_iff b c).1 h'))

/-- What the map has for a name. -/
def lookup (name : Bytes) (l : List (Bytes × Bytes)) : Option Bytes :=
  (l.find? fun x => Protocol.compare x.1 name = 0).map Prod.snd

lemma lookup_cons_of_same {name : Bytes} (h : SameName x.1 name) (l : List (Bytes × Bytes)) :
    lookup name (x :: l) = some x.2 := by
  have htrue : decide (Protocol.compare x.1 name = 0) = true := decide_eq_true h
  unfold lookup
  rw [List.find?_cons, htrue, Option.map_some]

lemma lookup_cons_of_not_same {name : Bytes} (h : ¬ SameName x.1 name) (l : List (Bytes × Bytes)) :
    lookup name (x :: l) = lookup name l := by
  have hfalse : ¬ decide (Protocol.compare x.1 name = 0) = true := fun htrue =>
    h (of_decide_eq_true htrue)
  unfold lookup
  rw [List.find?_cons, Bool.eq_false_of_not_eq_true hfalse]

/-- The three cases of a comparison in the map. -/
lemma same_of_not_lt (h : ¬ Protocol.compare a b < 0) (h' : ¬ Protocol.compare b a < 0) :
    SameName a b := by
  have hsymm := compare_symm a b
  unfold SameName
  omega

lemma lookup_assign_same (hname : SameName name name') (value : Bytes) (l : List (Bytes × Bytes)) :
    lookup name' (assign name value l) = some value := by
  induction l with
  | nil => exact lookup_cons_of_same (x := (name, value)) hname []
  | cons x l ih =>
    rw [assign]
    split_ifs with hlt hgt
    · have hne : ¬ SameName x.1 name' := by
        intro hsame
        have hzero : Protocol.compare x.1 name = 0 := hsame.trans hname.symm
        omega
      rw [lookup_cons_of_not_same hne, ih]
    · exact lookup_cons_of_same (x := (name, value)) hname (x :: l)
    · have hsame : SameName x.1 name' := (same_of_not_lt hlt hgt).trans hname
      exact lookup_cons_of_same (x := (x.1, value)) hsame l

lemma lookup_assign_other (hname : ¬ SameName name name') (value : Bytes)
    (l : List (Bytes × Bytes)) : lookup name' (assign name value l) = lookup name' l := by
  induction l with
  | nil => exact lookup_cons_of_not_same (x := (name, value)) hname []
  | cons x l ih =>
    rw [assign]
    split_ifs with hlt hgt
    · by_cases hsame : SameName x.1 name'
      · rw [lookup_cons_of_same hsame, lookup_cons_of_same hsame]
      · rw [lookup_cons_of_not_same hsame, lookup_cons_of_not_same hsame, ih]
    · exact lookup_cons_of_not_same (x := (name, value)) hname (x :: l)
    · have hsame : ¬ SameName x.1 name' := fun h => hname ((same_of_not_lt hlt hgt).symm.trans h)
      rw [lookup_cons_of_not_same (x := (x.1, value)) hsame, lookup_cons_of_not_same hsame]

lemma lookup_filter_same (hname : SameName name name') (l : List (Bytes × Bytes)) :
    lookup name' (l.filter fun x => Protocol.compare x.1 name ≠ 0) = none := by
  unfold lookup
  rw [Option.map_eq_none_iff, List.find?_eq_none]
  intro x hx
  have hne := of_decide_eq_true (List.mem_filter.1 hx).2
  rw [decide_eq_true_iff]
  intro hsame
  exact hne (SameName.trans (b := name') hsame hname.symm)

lemma lookup_filter_other (hname : ¬ SameName name name') (l : List (Bytes × Bytes)) :
    lookup name' (l.filter fun x => Protocol.compare x.1 name ≠ 0) = lookup name' l := by
  induction l with
  | nil => rfl
  | cons x l ih =>
    by_cases hx : SameName x.1 name
    · have hsame : ¬ SameName x.1 name' := fun h => hname (hx.symm.trans h)
      rw [List.filter_cons_of_neg (by rw [decide_eq_true_iff]; exact not_not.2 hx),
        lookup_cons_of_not_same hsame, ih]
    · have hkept : decide (Protocol.compare x.1 name ≠ 0) = true := decide_eq_true hx
      rw [List.filter_cons, if_pos hkept]
      by_cases hsame : SameName x.1 name'
      · rw [lookup_cons_of_same hsame, lookup_cons_of_same hsame]
      · rw [lookup_cons_of_not_same hsame, lookup_cons_of_not_same hsame, ih]

/-- A value that is empty takes the header away. -/
lemma lookup_setHeader_same (hname : SameName name name') (value : Bytes) (h : ResponseHeaders) :
    lookup name' (h.setHeader name value).headers = (some value).filter (· ≠ []) := by
  unfold setHeader
  split_ifs with hvalue
  · rw [hvalue]
    exact lookup_filter_same hname h.headers
  · rw [Option.filter, if_pos (decide_eq_true hvalue)]
    exact lookup_assign_same hname value h.headers

lemma lookup_setHeader_other (hname : ¬ SameName name name') (value : Bytes) (h : ResponseHeaders) :
    lookup name' (h.setHeader name value).headers = lookup name' h.headers := by
  unfold setHeader
  split_ifs
  · exact lookup_filter_other hname h.headers
  · exact lookup_assign_other hname value h.headers

lemma mem_assign {name value : Bytes} {l : List (Bytes × Bytes)} (hx : x ∈ assign name value l) :
    SameName x.1 name ∨ x ∈ l := by
  have hrefl : SameName name name := (compare_eq_zero_iff name name).2 rfl
  induction l with
  | nil =>
    rw [List.mem_singleton.1 hx]
    exact .inl hrefl
  | cons y l ih =>
    rw [assign] at hx
    split_ifs at hx with hlt hgt
    · rcases List.mem_cons.1 hx with rfl | hx
      · exact .inr List.mem_cons_self
      · exact (ih hx).imp_right (List.mem_cons_of_mem y)
    · rcases List.mem_cons.1 hx with rfl | hx
      · exact .inl hrefl
      · exact .inr hx
    · rcases List.mem_cons.1 hx with rfl | hx
      · exact .inl (same_of_not_lt hlt hgt)
      · exact .inr (List.mem_cons_of_mem _ hx)

end ResponseHeaders

/-! ## The lines of the headers -/

namespace CgiHeadersParser

open Protocol
open ResponseHeaders (SameName lookup)

/-- The name and the value of a line that has them. -/
def field (line : Bytes) : Option (Bytes × Bytes) :=
  match skipWs (tocken (skipWs line)).2 with
  | [] => none
  | c :: p => if (tocken (skipWs line)).1 ≠ [] ∧
      c = Ch.colon then some ((tocken (skipWs line)).1, skipWs p) else none

lemma withLine_eq (line : Bytes) (h : ResponseHeaders) :
    withLine line h = (field line).elim (h.addLine line) fun x => h.addHeader x.1 x.2 := by
  unfold withLine field
  dsimp only
  generalize skipWs (tocken (skipWs line)).2 = rest
  rcases rest with _ | ⟨c, p⟩
  · rfl
  · dsimp only
    split_ifs
    · rfl
    · rfl

/-- The headers that `add_header` sets instead of keeping the line. -/
def Special (name : Bytes) : Prop :=
  SameName name (bytes "status") ∨ SameName name (bytes "content-length")

instance (name : Bytes) : Decidable (Special name) := inferInstanceAs (Decidable (_ ∨ _))

lemma addHeader_eq (name value : Bytes) (h : ResponseHeaders) :
    h.addHeader name value = if Special name then h.setHeader name value
      else h.addLine (name ++ bytes ": " ++ value) :=
  rfl

/-- What is kept of a line, where it does not set a header. -/
def kept (line : Bytes) : Option Bytes :=
  (field line).elim (some line) fun x =>
    if Special x.1 then none else some (x.1 ++ bytes ": " ++ x.2)

/-- The values that the lines have for a name, in their order. -/
def values (name : Bytes) (lines : List Bytes) : List Bytes :=
  ((lines.filterMap field).filter fun x => SameName x.1 name).map Prod.snd

/-- The headers that are set by some lines. -/
def withLines (lines : List Bytes) : ResponseHeaders :=
  lines.foldl (fun h line => withLine line h) .empty

lemma withLines_append (lines : List Bytes) (line : Bytes) :
    withLines (lines ++ [line]) = withLine line (withLines lines) := by
  unfold withLines
  rw [List.foldl_append]
  rfl

lemma added_setHeader (name value : Bytes) (h : ResponseHeaders) :
    (h.setHeader name value).added = h.added := by
  unfold ResponseHeaders.setHeader
  split_ifs
  · rfl
  · rfl

lemma added_withLine (line : Bytes) (h : ResponseHeaders) :
    (withLine line h).added = h.added ++ (kept line).toList := by
  rw [withLine_eq]
  unfold kept
  rcases field line with _ | ⟨name, value⟩
  · rfl
  · show (h.addHeader name value).added =
      h.added ++ (if Special name then none
        else some (name ++ bytes ": " ++ value) : Option Bytes).toList
    rw [addHeader_eq]
    by_cases hspecial : Special name
    · rw [if_pos hspecial, if_pos hspecial, added_setHeader]
      exact (List.append_nil _).symm
    · rw [if_neg hspecial, if_neg hspecial]
      rfl

/-- The lines that do not set a header are kept in their order. -/
lemma added_withLines (lines : List Bytes) : (withLines lines).added = lines.filterMap kept := by
  induction lines using List.reverseRecOn with
  | nil => rfl
  | append_singleton lines line ih =>
    rw [withLines_append, added_withLine, ih, List.filterMap_append, List.filterMap_cons,
      List.filterMap_nil]
    rcases kept line with _ | k
    · rfl
    · rfl

lemma values_append (name : Bytes) (lines lines' : List Bytes) :
    values name (lines ++ lines') = values name lines ++ values name lines' := by
  unfold values
  rw [List.filterMap_append, List.filter_append, List.map_append]

lemma values_of_none {line : Bytes} (h : field line = none) (name : Bytes) :
    values name [line] = [] := by
  unfold values
  rw [List.filterMap_cons_none h]
  rfl

lemma values_of_some {line key value : Bytes} (h : field line = some (key, value)) (name : Bytes) :
    values name [line] = if SameName key name then [value] else [] := by
  unfold values
  rw [List.filterMap_cons_some h, List.filterMap_nil, List.filter_cons]
  by_cases hsame : SameName key name
  · rw [if_pos (decide_eq_true hsame), if_pos hsame]
    rfl
  · rw [if_neg (by rw [decide_eq_true_iff]; exact hsame), if_neg hsame]
    rfl

/-- A special header has the value of the last line with its name, and is absent if that is empty.
-/
lemma lookup_withLines {name : Bytes} (hname : Special name) (lines : List Bytes) :
    lookup name (withLines lines).headers = (values name lines).getLast?.filter (· ≠ []) := by
  induction lines using List.reverseRecOn with
  | nil => rfl
  | append_singleton lines line ih =>
    rw [withLines_append, withLine_eq, values_append]
    rcases hfield : field line with _ | ⟨key, value⟩
    · rw [values_of_none hfield, List.append_nil]
      exact ih
    · rw [values_of_some hfield]
      show lookup name (ResponseHeaders.addHeader key value (withLines lines)).headers = _
      rw [addHeader_eq]
      by_cases hsame : SameName key name
      · have hspecial : Special key := hname.imp hsame.trans hsame.trans
        rw [if_pos hspecial, if_pos hsame, List.getLast?_concat]
        exact ResponseHeaders.lookup_setHeader_same hsame value _
      · rw [if_neg hsame, List.append_nil, ← ih]
        split_ifs
        · exact ResponseHeaders.lookup_setHeader_other hsame value _
        · rfl

variable {lines : List Bytes}

lemma special_of_mem_withLines {x : Bytes × Bytes} (hx : x ∈ (withLines lines).headers) :
    Special x.1 := by
  induction lines using List.reverseRecOn with
  | nil => cases hx
  | append_singleton lines line ih =>
    rw [withLines_append, withLine_eq] at hx
    rcases hfield : field line with _ | ⟨key, value⟩
    · rw [hfield] at hx
      exact ih hx
    · rw [hfield, Option.elim_some, addHeader_eq] at hx
      by_cases hspecial : Special key
      · rw [if_pos hspecial] at hx
        unfold ResponseHeaders.setHeader at hx
        split_ifs at hx
        · exact ih (List.mem_filter.1 hx).1
        · rcases ResponseHeaders.mem_assign hx with hsame | hx
          · exact hspecial.imp hsame.trans hsame.trans
          · exact ih hx
      · rw [if_neg hspecial] at hx
        exact ih hx

/-! ## The parser gets the stream in pieces -/

lemma consume_of_completed {p : CgiHeadersParser} (h : p.completed = true) (data : Bytes) :
    p.consume data = (p, data) := by
  rcases data with _ | ⟨c, data⟩
  · rfl
  · rw [consume, if_pos h]

/-- Nothing is left while the empty line is not there. -/
lemma consume_rest (p : CgiHeadersParser) (data : Bytes)
    (h : (p.consume data).1.completed = false) :
    (p.consume data).2 = [] := by
  fun_induction consume p data with
  | case1 => rfl
  | case2 p c data hcompleted => rw [hcompleted] at h; cases h
  | case3 p c data hcompleted header line hend hline => cases h
  | case4 p c data hcompleted header line hend hline ih => exact ih h
  | case5 p c data hcompleted header hend ih => exact ih h

lemma consume_append (p : CgiHeadersParser) (u v : Bytes) :
    p.consume (u ++ v) = if (p.consume u).1.completed then ((p.consume u).1, (p.consume u).2 ++ v)
      else (p.consume u).1.consume v := by
  induction u generalizing p with
  | nil =>
    show p.consume v = if p.completed then (p, v) else p.consume v
    split_ifs with hcompleted
    · exact consume_of_completed hcompleted v
    · rfl
  | cons c u ih =>
    rw [List.cons_append, consume, consume]
    by_cases hcompleted : p.completed = true
    · rw [if_pos hcompleted, if_pos hcompleted, if_pos hcompleted]
      rfl
    · rw [if_neg hcompleted, if_neg hcompleted]
      dsimp only
      by_cases hend : 2 ≤ (p.header ++ [c]).length ∧
          (p.header ++ [c]).drop ((p.header ++ [c]).length - 2) = bytes "\r\n"
      · rw [if_pos hend, if_pos hend]
        by_cases hempty : (p.header ++ [c]).take ((p.header ++ [c]).length - 2) = []
        · rw [if_pos hempty, if_pos hempty]
          rfl
        · rw [if_neg hempty, if_neg hempty]
          exact ih _
      · rw [if_neg hend, if_neg hend]
        exact ih _

/-- The end of a line. -/
def crlf : Bytes := [Ch.return', Ch.newline]

/-- The characters of a line are collected. -/
lemma consume_inside {p : CgiHeadersParser} (hp : p.completed = false) {pre line : Bytes}
    (hline : ¬ crlf <:+: pre ++ line) (data : Bytes) :
    consume { p with header := pre } (line ++ data) =
      consume { p with header := pre ++ line } data := by
  induction line generalizing pre with
  | nil => rw [List.append_nil, List.nil_append]
  | cons c line ih =>
    have hsplit : pre ++ c :: line = pre ++ [c] ++ line := by rw [List.append_assoc]; rfl
    have hend : ¬ (2 ≤ (pre ++ [c]).length ∧
        (pre ++ [c]).drop ((pre ++ [c]).length - 2) = bytes "\r\n") := by
      rintro ⟨-, hdrop⟩
      apply hline
      rw [hsplit]
      have hsuffix : bytes "\r\n" <:+ pre ++ [c] := hdrop ▸ List.drop_suffix _ _
      exact hsuffix.isInfix.trans (List.prefix_append _ _).isInfix
    have hnot : ¬ p.completed = true := by rw [hp]; decide
    rw [List.cons_append, consume, if_neg hnot]
    dsimp only
    rw [if_neg hend, ih (by rw [← hsplit]; exact hline), ← hsplit]

lemma consume_line {p : CgiHeadersParser} (hp : p.completed = false) (hheader : p.header = [])
    {line : Bytes} (hline : ¬ crlf <:+: line) (data : Bytes) :
    p.consume (line ++ crlf ++ data) = if line =
      [] then ({ p with header := crlf, completed := true }, data)
      else consume { p with header := [], h := withLine line p.h } data := by
  have hnot : ¬ p.completed = true := by rw [hp]; decide
  have hreturn : ¬ (2 ≤ (line ++ [Ch.return']).length ∧
      (line ++ [Ch.return']).drop ((line ++ [Ch.return']).length - 2) = bytes "\r\n") := by
    rintro ⟨-, hdrop⟩
    have hsuffix : bytes "\r\n" <:+ line ++ [Ch.return'] := hdrop ▸ List.drop_suffix _ _
    have hlast := hsuffix.getLast (by decide)
    rw [List.getLast_concat] at hlast
    exact absurd hlast (by decide)
  have hlength : (line ++ [Ch.return'] ++ [Ch.newline]).length - 2 = line.length := by
    rw [List.length_append, List.length_append]
    exact Nat.add_sub_cancel _ 2
  have htwo : 2 ≤ (line ++ [Ch.return'] ++ [Ch.newline]).length := by
    rw [List.length_append, List.length_append]
    exact Nat.le_add_left 2 _
  have hjoin : line ++ [Ch.return'] ++ [Ch.newline] = line ++ crlf := by rw [List.append_assoc]; rfl
  have hdrop : (line ++ crlf).drop line.length = bytes "\r\n" := List.drop_left
  have htake : (line ++ crlf).take line.length = line := List.take_left
  have hstart := @consume_inside p hp [] line hline (crlf ++ data)
  rw [List.nil_append, ← List.append_assoc, ← hheader] at hstart
  rw [hstart]
  show consume { p with header := line } (Ch.return' :: Ch.newline :: data) = _
  rw [consume, if_neg hnot]
  dsimp only
  rw [if_neg hreturn, consume, if_neg hnot]
  dsimp only
  rw [hlength, if_pos ⟨htwo, by rw [hjoin, hdrop]⟩, hjoin, htake]
  split_ifs with hempty
  · rw [hempty]
    rfl
  · rfl

/-- The octets of a response: its lines, the empty line and the body. -/
def stream (lines : List Bytes) (body : Bytes) : Bytes :=
  (lines.flatMap fun line => line ++ crlf) ++ crlf ++ body

/-- The headers of a response are its lines, and its body is left. -/
lemma consume_stream (hne : ∀ line ∈ lines, line ≠ []) (hlines : ∀ line ∈ lines, ¬ crlf <:+: line)
    (body : Bytes) : init.consume (stream lines body) = (⟨crlf, withLines lines, true⟩, body) := by
  have hgeneral : ∀ h, consume ⟨[], h, false⟩ (stream lines body) =
      (⟨crlf, lines.foldl (fun h line => withLine line h) h, true⟩, body) := by
    induction lines with
    | nil =>
      intro h
      have hempty := @consume_line ⟨[], h, false⟩ rfl rfl [] (by decide) body
      rw [if_pos rfl] at hempty
      exact hempty
    | cons line lines ih =>
      intro h
      have hfirst := consume_line (p := ⟨[], h, false⟩) rfl rfl (hlines line List.mem_cons_self)
        (stream lines body)
      rw [if_neg (hne line List.mem_cons_self)] at hfirst
      have hsplit : stream (line :: lines) body = line ++ crlf ++ stream lines body := by
        unfold stream
        rw [List.flatMap_cons]
        simp only [List.append_assoc]
      rw [hsplit, hfirst]
      exact ih (fun l hl => hne l (List.mem_cons_of_mem _ hl))
        (fun l hl => hlines l (List.mem_cons_of_mem _ hl)) _
  exact hgeneral .empty

end CgiHeadersParser

/-! ## The device -/

namespace Device

open CgiHeadersParser (crlf stream kept values withLines Special)
open ResponseHeaders (lookup)

/-- The loop of `write` over the segments: the parser and `real_out`. -/
def consumeSegments (p : CgiHeadersParser) (realOut : Aio.Buffer) :
    List Bytes → CgiHeadersParser × Aio.Buffer
  | [] => (p, realOut)
  | data :: rest =>
    consumeSegments (p.consume data).1
      (if 0 < (p.consume data).2.length then realOut.append (.of (p.consume data).2) else realOut)
        rest

/-- `write` with a buffer of any number of segments. -/
def writeBuffer (out : Aio.Buffer) (a : Answer) (d : Device) : Device × Bool :=
  let sendEof := d.final && !d.eofSend
  if !d.connected then (d, false)
  else if a = .gone then ({ d with connected := false }, false)
  else
    let d := { d with eofSend := sendEof }
    if d.rawMode ∧ !d.rawHeaders.completed then
      let (rawHeaders, realOut) := consumeSegments d.rawHeaders .nil out.get
      let d := { d with rawHeaders }
      if rawHeaders.completed then
        doWrite realOut.bytes sendEof a
          { d with calls := d.calls ++ [.setResponseHeaders rawHeaders.h] }
      else if sendEof then doWrite realOut.bytes sendEof a d
      else (d, true)
    else doWrite out.bytes sendEof a d

/-- A write for which `final_` may be set before. -/
structure RawWrite where
  closing : Bool
  out : Aio.Buffer

/-- Writes that the connection takes. -/
def writeAll (d : Device) (ws : List RawWrite) : Device :=
  ws.foldl (fun d w => (writeBuffer w.out .done { d with final := d.final || w.closing }).1) d

/-- The headers that a call passes. -/
def passedHeaders : ConnectionCall → Option ResponseHeaders
  | .setResponseHeaders h => some h
  | .write _ _ => none

/-- The headers that the connection gets. -/
def headersSet (d : Device) : List ResponseHeaders := d.calls.filterMap passedHeaders

/-! ## Segments do not matter -/

lemma consumeSegments_of_completed {p : CgiHeadersParser} (h : p.completed = true)
    (realOut : Aio.Buffer) (segments : List Bytes) : (consumeSegments p realOut segments).1 = p ∧
      (consumeSegments p realOut segments).2.bytes = realOut.bytes ++ segments.flatten := by
  induction segments generalizing realOut with
  | nil => exact ⟨rfl, (List.append_nil _).symm⟩
  | cons data rest ih =>
    rw [consumeSegments, CgiHeadersParser.consume_of_completed h, List.flatten_cons]
    refine ⟨(ih _).1, ?_⟩
    rw [(ih _).2, ← List.append_assoc]
    split_ifs with hdata
    · rw [Aio.Buffer.bytes_append, Aio.Buffer.bytes_of]
    · have hempty : data = [] := List.length_eq_zero_iff.1 (Nat.eq_zero_of_not_pos hdata)
      rw [hempty, List.append_nil]

/-- The segments are read as if they were one. -/
lemma consumeSegments_eq (p : CgiHeadersParser) (hp : p.completed = false) (segments : List Bytes) :
    (consumeSegments p .nil segments).1 = (p.consume segments.flatten).1 ∧
      (consumeSegments p .nil segments).2.bytes = (p.consume segments.flatten).2 := by
  induction segments generalizing p with
  | nil => exact ⟨rfl, rfl⟩
  | cons data rest ih =>
    rw [consumeSegments, List.flatten_cons, CgiHeadersParser.consume_append]
    by_cases hdone : (p.consume data).1.completed = true
    · rw [if_pos hdone]
      have hrest := consumeSegments_of_completed hdone
        (if 0 < (p.consume data).2.length then Aio.Buffer.nil.append
          (.of (p.consume data).2) else .nil) rest
      refine ⟨hrest.1, ?_⟩
      rw [hrest.2]
      congr 1
      split_ifs with hdata
      · rw [Aio.Buffer.bytes_append, Aio.Buffer.bytes_of, Aio.Buffer.bytes_nil, List.nil_append]
      · exact (List.length_eq_zero_iff.1 (Nat.eq_zero_of_not_pos hdata)).symm
    · have hfalse := Bool.eq_false_of_not_eq_true hdone
      have hempty := CgiHeadersParser.consume_rest p data hfalse
      rw [if_neg hdone, hempty, List.length_nil, if_neg (Nat.lt_irrefl 0)]
      exact ih _ hfalse

/-- Only the octets of a buffer matter for a write. -/
lemma writeBuffer_eq (out : Aio.Buffer) (a : Answer) (d : Device) :
    d.writeBuffer out a = d.write out.bytes a := by
  unfold writeBuffer write
  dsimp only
  by_cases hconnected : (!d.connected) = true
  · rw [if_pos hconnected, if_pos hconnected]
  · rw [if_neg hconnected, if_neg hconnected]
    by_cases hgone : a = .gone
    · rw [if_pos hgone, if_pos hgone]
    · rw [if_neg hgone, if_neg hgone]
      by_cases hraw : d.rawMode = true ∧ (!d.rawHeaders.completed) = true
      · have hnot : d.rawHeaders.completed = false := Bool.not_eq_eq_eq_not.1 hraw.2
        have hsegments := consumeSegments_eq d.rawHeaders hnot out.get
        rw [if_pos hraw, if_pos hraw, hsegments.1, hsegments.2]
        rfl
      · rw [if_neg hraw, if_neg hraw]

/-! ## All writes -/

/-- What the connection has got after the octets `s`. -/
structure RawSent (s : Bytes) (d : Device) : Prop where
  rawMode : d.rawMode = true
  connected : d.connected = true
  parser : d.rawHeaders = (CgiHeadersParser.init.consume s).1
  headers : d.headersSet = if d.rawHeaders.completed then [d.rawHeaders.h] else []
  body : d.sent = (CgiHeadersParser.init.consume s).2

lemma rawSent_opened (full : Bool) (n : ℕ) : RawSent [] (opened full true n) :=
  ⟨rfl, rfl, rfl, rfl, rfl⟩

lemma headersSet_append (d : Device) (call : ConnectionCall) :
    (d.calls ++ [call]).filterMap passedHeaders = d.headersSet ++ (passedHeaders call).toList := by
  rw [List.filterMap_append]
  cases call <;> rfl

variable {d : Device} {s : Bytes}

/-- A write behind the empty line. -/
lemma RawSent.write_body (h : RawSent s d) (hcompleted : d.rawHeaders.completed = true)
    (out : Bytes) : RawSent (s ++ out) (d.write out .done).1 := by
  have hconsume := CgiHeadersParser.consume_append CgiHeadersParser.init s out
  rw [← h.parser, if_pos hcompleted, ← h.body] at hconsume
  have hraw : ¬ (d.rawMode = true ∧ (!d.rawHeaders.completed) = true) := by
    rw [hcompleted]
    exact fun hraw => absurd hraw.2 (by decide)
  unfold Device.write
  rw [if_neg (by rw [h.connected]; decide), if_neg (by decide)]
  dsimp only
  rw [if_neg hraw]
  unfold doWrite
  rw [if_pos rfl]
  refine ⟨h.rawMode, h.connected, ?_, ?_, ?_⟩
  · rw [hconsume]
  · rw [← h.headers]
    exact (headersSet_append d _).trans (List.append_nil _)
  · rw [hconsume]
    exact sent_append d out _

/-- A write that starts among the headers. -/
lemma RawSent.write_headers (h : RawSent s d) (hcompleted : d.rawHeaders.completed = false)
    (out : Bytes) : RawSent (s ++ out) (d.write out .done).1 := by
  have hnot : ¬ d.rawHeaders.completed = true := by rw [hcompleted]; decide
  have hconsume := CgiHeadersParser.consume_append CgiHeadersParser.init s out
  rw [← h.parser, if_neg hnot] at hconsume
  have hheaders := h.headers
  rw [if_neg hnot] at hheaders
  have hsent : d.sent = [] := by
    rw [h.body]
    exact CgiHeadersParser.consume_rest _ s (h.parser ▸ hcompleted)
  have hraw : d.rawMode = true ∧ (!d.rawHeaders.completed) = true :=
    ⟨h.rawMode, by rw [hcompleted]; rfl⟩
  have hrest := CgiHeadersParser.consume_rest d.rawHeaders out
  unfold Device.write
  rw [if_neg (by rw [h.connected]; decide), if_neg (by decide)]
  dsimp only
  rw [if_pos hraw]
  unfold doWrite
  rw [if_pos rfl, if_pos rfl]
  by_cases hdone : (d.rawHeaders.consume out).1.completed = true
  · -- the empty line is in this write
    rw [if_pos hdone]
    refine ⟨h.rawMode, h.connected, ?_, ?_, ?_⟩
    · rw [hconsume]
    · rw [if_pos hdone]
      refine (headersSet_append { d with calls := _ } _).trans ?_
      refine (List.append_nil _).trans ((headersSet_append d _).trans ?_)
      rw [hheaders]
      rfl
    · rw [hconsume]
      refine (sent_append { d with calls := _ } _ _).trans ?_
      show (d.calls ++ [ConnectionCall.setResponseHeaders _]).flatMap ConnectionCall.data ++ _ = _
      rw [List.flatMap_append]
      change d.sent ++ [] ++ _ = _
      rw [hsent]
      rfl
  · have hnotdone := Bool.eq_false_of_not_eq_true hdone
    rw [if_neg hdone]
    split_ifs
    · -- the end of the response is told without octets
      refine ⟨h.rawMode, h.connected, ?_, ?_, ?_⟩
      · rw [hconsume]
      · rw [if_neg hdone, ← hheaders]
        exact (headersSet_append d _).trans (List.append_nil _)
      · rw [hconsume]
        refine (sent_append d _ _).trans ?_
        rw [hsent]
        rfl
    · refine ⟨h.rawMode, h.connected, ?_, ?_, ?_⟩
      · rw [hconsume]
      · rw [if_neg hdone]
        exact hheaders
      · rw [hconsume, hrest hnotdone]
        exact hsent

lemma RawSent.write (h : RawSent s d) (out : Bytes) :
    RawSent (s ++ out) (d.write out .done).1 := by
  rcases hcompleted : d.rawHeaders.completed with _ | _
  · exact h.write_headers hcompleted out
  · exact h.write_body hcompleted out

lemma RawSent.writeAll (h : RawSent s d) (ws : List RawWrite) :
    RawSent (s ++ ws.flatMap fun w => w.out.bytes) (d.writeAll ws) := by
  induction ws generalizing s d with
  | nil =>
    rw [List.flatMap_nil, List.append_nil]
    exact h
  | cons w ws ih =>
    have hfinal : RawSent s { d with final := d.final || w.closing } :=
      ⟨h.rawMode, h.connected, h.parser, h.headers, h.body⟩
    have hstep := hfinal.write w.out.bytes
    rw [← writeBuffer_eq] at hstep
    rw [List.flatMap_cons, ← List.append_assoc]
    exact ih hstep

/-- The connection of a raw response gets headers once, from all of its lines, and it gets the body.
-/
theorem writeAll_headers_and_body (full : Bool) (n : ℕ) (lines : List Bytes) (body : Bytes)
    (ws : List RawWrite) (hne : ∀ line ∈ lines, line ≠ [])
    (hlines : ∀ line ∈ lines, ¬ crlf <:+: line)
    (hws : (ws.flatMap fun w => w.out.bytes) = stream lines body) :
    (∃ h : ResponseHeaders, ((opened full true n).writeAll ws).headersSet = [h] ∧
      h.added = lines.filterMap kept ∧
      (∀ name, Special name →
        (h.find name).map Prod.snd = (values name lines).getLast?.filter (· ≠ [])) ∧
      ∀ x ∈ h.headers, Special x.1) ∧
    ((opened full true n).writeAll ws).sent = body := by
  have h := (rawSent_opened full n).writeAll ws
  have hparser := h.parser
  have hbody := h.body
  have hheaders := h.headers
  rw [List.nil_append, hws, CgiHeadersParser.consume_stream hne hlines] at hparser hbody
  rw [hparser, if_pos rfl] at hheaders
  refine ⟨⟨withLines lines, hheaders, ?_, ?_, ?_⟩, hbody⟩
  · exact CgiHeadersParser.added_withLines lines
  · exact fun name hname => CgiHeadersParser.lookup_withLines hname lines
  · exact fun x hx => CgiHeadersParser.special_of_mem_withLines hx

/-- A response with two lines of `Status`. -/
def twoStatuses : List Bytes := [bytes "Status: 404", bytes "X-Age: 1", bytes "status: 403"]

/-- The writes of this response, which cut a line and the end of the headers. -/
def twoStatusWrites : List RawWrite :=
  [⟨false, .of (bytes "Status: 404\r")⟩,
    ⟨false, (Aio.Buffer.of (bytes "\nX-Age: 1\r\nstatus: 403\r\n")).add (bytes "\r\nA")⟩,
    ⟨true, .of (bytes "\r\n")⟩]

theorem writeAll_headers_and_body_twoStatuses :
    (∃ h : ResponseHeaders, ((opened false true 0).writeAll twoStatusWrites).headersSet = [h] ∧
      h.added = [bytes "X-Age: 1"] ∧ (h.find (bytes "Status")).map Prod.snd = some (bytes "403")) ∧
    ((opened false true 0).writeAll twoStatusWrites).sent = bytes "A\r\n" := by
  obtain ⟨⟨h, hset, hadded, hvalues, -⟩, hsent⟩ :=
    writeAll_headers_and_body false 0 twoStatuses (bytes "A\r\n")
    twoStatusWrites (by decide) (by decide) (by decide)
  refine ⟨⟨h, hset, hadded.trans (by decide), ?_⟩, hsent⟩
  exact (hvalues (bytes "Status") (by decide)).trans (by decide)

/-- An empty value takes the value away that a line before it has set. -/
theorem writeAll_loses_status :
    ∃ lines : List Bytes, (∀ line ∈ lines, line ≠ [] ∧ ¬ crlf <:+: line) ∧
    ((values (bytes "Status") lines).filter (· ≠ [])).getLast? = some (bytes "404") ∧
    ∃ h : ResponseHeaders,
    ((opened false true 0).writeAll [⟨true, .of (stream lines (bytes "A"))⟩]).headersSet = [h] ∧
      h.find (bytes "Status") = none :=
  ⟨[bytes "Status: 404", bytes "Status: "], by decide, by decide, .empty, by decide, rfl⟩

end Device

end Http

end Cppcms
