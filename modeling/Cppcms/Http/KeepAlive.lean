import Cppcms.Http.Api
import Mathlib.Data.List.DropRight

/-!
# Responses on a connection that stays open

A client can tell where a response ends by its chunks or by its `Content-Length`.  The server checks
that no more is sent than was announced, but not that as much is sent.
-/

namespace Cppcms

namespace Http

/-! ## The client -/

attribute [local instance(1100)] List.decidableBAll

def isBlank (c : UInt8) : Bool := c = Ch.space || c = Ch.tab

/-- A value without the white space around it. -/
def trim (v : Bytes) : Bytes := (v.dropWhile isBlank).rdropWhile isBlank

/-- A text that does not end its line. -/
def inLine (s : Bytes) : Bool := s.all fun c => c ≠ Ch.return' && c ≠ Ch.newline

/-- A line of the headers: the name of a field, which is a token, a colon, and the value. -/
def readField (line : Bytes) : Option (Bytes × Bytes) :=
  let name := line.takeWhile (· ≠ Ch.colon)
  if name ≠ [] ∧ name.all Protocol.isTocken ∧ Ch.colon ∈ line ∧ inLine line then
    some (name, trim (line.dropWhile (· ≠ Ch.colon)).tail)
  else none

/-- The values of all fields with a name, in whatever letters. -/
def fieldValues (name : Bytes) (fields : List (Bytes × Bytes)) : List Bytes :=
  (fields.filter fun x => Protocol.compare x.1 name = 0).map Prod.snd

/-- The length that a `Content-Length` announces. -/
def readLength (s : Bytes) : Option ℕ :=
  if s ≠ [] ∧ ∀ c ∈ s, (0x30 ≤ c && c ≤ 0x39) = true then some (leadingNumber s) else none

/-- A line has to end here. -/
def lineEnd : Bytes → Option Bytes
  | c :: d :: s => if c = Ch.return' ∧ d = Ch.newline then some s else none
  | _ => none

def isHexDigit (c : UInt8) : Bool := (0x30 ≤ c && c ≤ 0x39) || (0x61 ≤ c && c ≤ 0x66)

def hexDigitValue (c : UInt8) : ℕ := if c ≤ 0x39 then c.toNat - 0x30 else c.toNat - 0x57

/-- The size of the next chunk, and what is behind its line. -/
def chunkSize (s : Bytes) : Option (ℕ × Bytes) :=
  if s.takeWhile isHexDigit = [] then none
  else (lineEnd (s.dropWhile isHexDigit)).map fun rest =>
    (ofDigitList 16 hexDigitValue (s.takeWhile isHexDigit), rest)

/-- A body in chunks, and what is behind it. -/
def dechunk : ℕ → Bytes → Option (Bytes × Bytes)
  | 0, _ => none
  | fuel + 1, s =>
    match chunkSize s with
    | none => none
    | some (n, s) =>
      if n = 0 then (lineEnd s).map fun rest => ([], rest)
      else if s.length < n then none
      else (lineEnd (s.drop n)).bind fun rest => (dechunk fuel rest).map fun r =>
      (s.take n ++ r.1, r.2)

/-- What stands behind the headers ends where they say: it is the body in chunks, or it has the
length that every `Content-Length` announces. -/
def EndsAsAnnounced (fields : List (Bytes × Bytes)) (payload body : Bytes) : Prop :=
  if fieldValues (bytes "Transfer-Encoding") fields = [] then
    fieldValues (bytes "Content-Length") fields ≠ [] ∧
      ∀ cl ∈ fieldValues (bytes "Content-Length") fields, readLength cl = some payload.length
  else
    (∃ te, fieldValues (bytes "Transfer-Encoding") fields = [te] ∧
      Protocol.compare te (bytes "chunked") = 0) ∧
      dechunk payload.length payload = some (body, [])

namespace ResponseHeaders

/-- The lines that `format_http_headers` writes below the one of the status. -/
def lines (hdr : ResponseHeaders) : List Bytes :=
  ((hdr.headers.filter fun x => some x ≠ hdr.find (bytes "Status")).map fun x =>
    x.1 ++ bytes ": " ++ x.2) ++ hdr.added

/-- Every header is a field in a line of its own. -/
def WellFormed (hdr : ResponseHeaders) : Prop :=
  inLine ((hdr.find (bytes "Status")).elim (bytes "200 Ok") Prod.snd) = true ∧
    ∀ line ∈ hdr.lines, (readField line).isSome = true

instance (hdr : ResponseHeaders) : Decidable hdr.WellFormed := inferInstanceAs (Decidable (_ ∧ _))

/-- The fields that the client reads. -/
def fields (hdr : ResponseHeaders) : List (Bytes × Bytes) := hdr.lines.filterMap readField

/-- Every `Content-Length` of the application announces `n` octets. -/
def Announces (hdr : ResponseHeaders) (n : ℕ) : Prop :=
  ∀ cl ∈ fieldValues (bytes "Content-Length") hdr.fields, readLength cl = some n

/-- There is no `Content-Length` for the server, or one that it takes for none. -/
def Unannounced (hdr : ResponseHeaders) : Prop :=
  hdr.getHeader (bytes "Content-Length") = [] ∨ atoll (hdr.getHeader (bytes "Content-Length")) = -1

/-- The application leaves the coding to the server. -/
def Uncoded (hdr : ResponseHeaders) : Prop :=
  fieldValues (bytes "Transfer-Encoding") hdr.fields = []

/-- The announced length is that of the first parts of the body. -/
def LengthOfParts (hdr : ResponseHeaders) (parts : List Bytes) : Prop :=
  ∃ j, 0 < j ∧ hdr.Announces ((parts.take j).flatten).length ∧
    ((parts.take j).flatten).length < 2 ^ 63

end ResponseHeaders

namespace Api

/-- The lines that the server adds to the headers. -/
def responseLines (hdr : ResponseHeaders) (parts : List Bytes) (last : Bytes) (a : Api) :
    List (Bytes × Bytes) :=
  (a.setResponseHeaders hdr).addedLines ((parts ++ [last]).headD []) (decide (parts = []))

/-- All that comes before the body. -/
def responseHead (hdr : ResponseHeaders) (parts : List Bytes) (last : Bytes) (a : Api) : Bytes :=
  (a.setResponseHeaders hdr).responseHeaders ++ headerLines
    (a.responseLines hdr parts last) ++ bytes "\r\n"

/-- The octets that were sent are one complete message. -/
def IsMessage (hdr : ResponseHeaders) (parts : List Bytes) (last : Bytes) (a : Api) (out : Bytes) :
    Prop :=
  hdr.WellFormed ∧ ∃ payload, out = a.responseHead hdr parts last ++ payload ∧
    EndsAsAnnounced (hdr.fields ++ a.responseLines hdr parts last) payload (parts.flatten ++ last)

/-- The head of a response are the lines of the application and of the server, with an empty line
behind them. -/
lemma responseHead_eq (hdr : ResponseHeaders) (parts : List Bytes) (last : Bytes) (a : Api) :
    a.responseHead hdr parts last =
      bytes "HTTP/" ++ (if a.isHttp11 then bytes "1.1" else bytes "1.0") ++ bytes " " ++
      (hdr.find (bytes "Status")).elim (bytes "200 Ok") Prod.snd ++ bytes "\r\n" ++
      ((hdr.lines ++ (a.responseLines hdr parts last).map fun x =>
        x.1 ++ bytes ": " ++ x.2).flatMap fun line =>
        line ++ bytes "\r\n") ++ bytes "\r\n" := by
  have hset : (a.setResponseHeaders hdr).responseHeaders =
      hdr.formatHttpHeaders (if a.isHttp11 then bytes "1.1" else bytes "1.0") false := rfl
  unfold responseHead ResponseHeaders.lines headerLines
  rw [hset]
  unfold ResponseHeaders.formatHttpHeaders
  simp only [Bool.false_eq_true, if_false, List.append_nil, List.flatMap_append, List.flatMap_map,
    List.append_assoc]

/-! ## Chunks -/

lemma hexDigit_of_lt : ∀ d < 16, isHexDigit (Nat.digitChar d).toUInt8 = true ∧
    hexDigitValue (Nat.digitChar d).toUInt8 = d := by decide

lemma lineEnd_append (s : Bytes) : lineEnd (bytes "\r\n" ++ s) = some s := rfl

lemma chunkSize_showHex (n : ℕ) (s : Bytes) :
    chunkSize (showHex n ++ (bytes "\r\n" ++ s)) = some (n, s) := by
  have hhex : ∀ c ∈ showHex n, isHexDigit c := by
    intro c hc
    rcases List.mem_map.1 hc with ⟨a, ha, rfl⟩
    rcases exists_digit_of_mem_toDigits (by decide) ha with ⟨d, hd, rfl⟩
    exact (hexDigit_of_lt d hd).1
  have htake : (showHex n ++ (bytes "\r\n" ++ s)).takeWhile isHexDigit = showHex n := by
    rw [List.takeWhile_append_of_pos hhex]
    exact List.append_nil _
  have hdrop : (showHex n ++ (bytes "\r\n" ++ s)).dropWhile isHexDigit = bytes "\r\n" ++ s := by
    rw [List.dropWhile_append_of_pos hhex]
    rfl
  have hne : showHex n ≠ [] := by
    unfold showHex
    rw [Ne, List.map_eq_nil_iff]
    exact Nat.toDigits_ne_nil
  unfold chunkSize
  rw [htake, hdrop, if_neg hne, lineEnd_append, Option.map_some]
  congr 2
  exact ofDigitList_toDigits (by decide) (fun d hd => (hexDigit_of_lt d hd).2) n

variable {input : Bytes} {fuel : ℕ} {s : Bytes} {a : Api} {hdr : ResponseHeaders} {n : ℕ}
  {parts : List Bytes}

/-- A chunk is read as it was written. -/
lemma dechunk_makeChunkedWrapper (hne : input ≠ []) (fuel : ℕ) (s : Bytes) :
    dechunk (fuel + 1) (makeChunkedWrapper input false ++ s) =
      (dechunk fuel s).map fun r => (input ++ r.1, r.2) := by
  have hlength : input.length ≠ 0 := fun h => hne (List.length_eq_zero_iff.1 h)
  unfold makeChunkedWrapper
  rw [if_neg hlength, if_neg Bool.false_ne_true, List.append_assoc, List.append_assoc,
    List.append_assoc, dechunk, chunkSize_showHex]
  dsimp only
  have hle : ¬ (input ++ (bytes "\r\n" ++ s)).length < input.length := by
    rw [List.length_append]
    omega
  rw [if_neg hlength, if_neg hle, List.drop_left, List.take_left, lineEnd_append, Option.bind_some]

/-- The last chunk is put behind the last part of the body. -/
lemma makeChunkedWrapper_completed (input : Bytes) :
    makeChunkedWrapper input true = makeChunkedWrapper input false ++ bytes "0\r\n\r\n" := by
  unfold makeChunkedWrapper
  by_cases hlength : input.length = 0
  · rw [if_pos hlength, if_pos hlength, List.length_eq_zero_iff.1 hlength]
    rfl
  · have hsplit : bytes "\r\n0\r\n\r\n" = bytes "\r\n" ++ bytes "0\r\n\r\n" := rfl
    rw [if_neg hlength, if_neg hlength, if_pos rfl, if_neg Bool.false_ne_true,
      hsplit, ← List.append_assoc]

/-- The writes of a body as chunks. -/
lemma flatMap_makeChunkedWrapper (parts : List Bytes) (last : Bytes) :
    ((bodyWrites parts last).flatMap fun x => makeChunkedWrapper x.1 x.2) =
      ((parts ++ [last]).flatMap fun input => makeChunkedWrapper input false) ++
        bytes "0\r\n\r\n" := by
  unfold bodyWrites
  rw [List.flatMap_append, List.flatMap_append, List.flatMap_map, List.flatMap_singleton,
    List.flatMap_singleton, makeChunkedWrapper_completed, List.append_assoc]

lemma dechunk_flatMap (parts : List Bytes)
    (hfuel : (parts.flatMap fun input => makeChunkedWrapper input false).length < fuel) :
    dechunk fuel
      ((parts.flatMap fun input => makeChunkedWrapper input false) ++ bytes "0\r\n\r\n") =
      some (parts.flatten, []) := by
  induction parts generalizing fuel with
  | nil =>
    rcases fuel with _ | fuel
    · exact absurd hfuel (Nat.lt_irrefl 0)
    · rfl
  | cons input parts ih =>
    rw [List.flatMap_cons, List.length_append] at hfuel
    rw [List.flatMap_cons, List.append_assoc, List.flatten_cons]
    by_cases hinput : input = []
    · -- an empty part gives no chunk
      rw [hinput]
      exact ih (by omega)
    · have hlength := List.length_pos_iff.2 hinput
      have hpos : input.length ≤ (makeChunkedWrapper input false).length := by
        rw [makeChunkedWrapper, if_neg hlength.ne', List.length_append, List.length_append]
        omega
      rcases fuel with _ | fuel
      · exact absurd hfuel (Nat.not_lt_zero _)
      · rw [dechunk_makeChunkedWrapper hinput, ih (by omega)]
        rfl

/-- The chunks of a body are read as the body. -/
lemma dechunk_bodyWrites (parts : List Bytes) (last : Bytes) :
    dechunk ((bodyWrites parts last).flatMap fun x => makeChunkedWrapper x.1 x.2).length
      ((bodyWrites parts last).flatMap fun x => makeChunkedWrapper x.1 x.2) =
        some (parts.flatten ++ last, []) := by
  rw [flatMap_makeChunkedWrapper, dechunk_flatMap, List.flatten_append, List.flatten_singleton]
  rw [List.length_append]
  exact Nat.lt_add_of_pos_right (by decide)

lemma length_of_lineEnd {s rest : Bytes} (h : lineEnd s = some rest) :
    rest.length + 2 = s.length := by
  rcases s with _ | ⟨c, _ | ⟨d, s⟩⟩
  · cases h
  · cases h
  · rw [lineEnd] at h
    split_ifs at h
    rw [← Option.some.inj h]
    rfl

/-- A body is shorter than its chunks. -/
lemma length_of_dechunk {r : Bytes × Bytes} (h : dechunk fuel s = some r) :
    r.1.length < s.length := by
  induction fuel generalizing s r with
  | zero => cases h
  | succ fuel ih =>
    rw [dechunk] at h
    rcases hsize : chunkSize s with _ | ⟨n, t⟩
    · rw [hsize] at h
      cases h
    · have ht : t.length + 2 ≤ s.length := by
        unfold chunkSize at hsize
        split_ifs at hsize
        rcases Option.map_eq_some_iff.1 hsize with ⟨t', ht', heq⟩
        have hlength := length_of_lineEnd ht'
        have hdrop := (List.dropWhile_sublist isHexDigit (l := s)).length_le
        rw [(Prod.mk.inj heq).2] at hlength
        omega
      rw [hsize] at h
      dsimp only at h
      split_ifs at h with hzero hlong
      · rcases Option.map_eq_some_iff.1 h with ⟨rest, -, rfl⟩
        exact (Nat.zero_lt_succ _).trans_le ht
      · rcases Option.bind_eq_some_iff.1 h with ⟨rest, hrest, hmore⟩
        rcases Option.map_eq_some_iff.1 hmore with ⟨r', hr', rfl⟩
        have hlength := length_of_lineEnd hrest
        have hshort := ih hr'
        rw [List.length_drop] at hlength
        rw [List.length_append, List.length_take]
        omega

/-! ## Parts that are sent as they are -/

/-- The parts that are sent while there is room for them. -/
def sentWithin (room : ℤ) : List Bytes → Bytes
  | [] => []
  | input :: parts => if room < input.length then []
    else input ++ sentWithin (room - input.length) parts

lemma length_sentWithin_le {room : ℤ} (hroom : 0 ≤ room) (parts : List Bytes) :
    ((sentWithin room parts).length : ℤ) ≤ room := by
  induction parts generalizing room with
  | nil => exact hroom
  | cons input parts ih =>
    rw [sentWithin]
    split_ifs with hlt
    · exact hroom
    · have hpos : 0 ≤ room - input.length := by omega
      have hle := ih hpos
      rw [List.length_append]
      push_cast
      omega

lemma length_sentWithin_le_flatten (room : ℤ) (parts : List Bytes) :
    (sentWithin room parts).length ≤ parts.flatten.length := by
  induction parts generalizing room with
  | nil => exact le_rfl
  | cons input parts ih =>
    rw [sentWithin]
    split_ifs
    · exact Nat.zero_le _
    · rw [List.flatten_cons, List.length_append, List.length_append]
      exact Nat.add_le_add_left (ih _) _

/-- All the room is used if it ends where a part ends. -/
lemma length_sentWithin_eq_iff (n : ℕ) (parts : List Bytes) :
    (sentWithin n parts).length = n ↔ ∃ j, ((parts.take j).flatten).length = n := by
  induction parts generalizing n with
  | nil =>
    constructor
    · intro h
      exact ⟨0, h⟩
    · rintro ⟨j, h⟩
      rw [List.take_nil] at h
      exact h
  | cons input parts ih =>
    rw [sentWithin]
    by_cases hlt : (n : ℤ) < input.length
    · rw [if_pos hlt]
      constructor
      · intro h
        exact ⟨0, h⟩
      · rintro ⟨_ | j, h⟩
        · exact h
        · rw [List.take_succ_cons, List.flatten_cons, List.length_append] at h
          omega
    · have hroom : (n : ℤ) - input.length = (n - input.length : ℕ) := by omega
      have ih := ih (n - input.length)
      rw [if_neg hlt, hroom, List.length_append]
      constructor
      · intro h
        rcases ih.1 (by omega) with ⟨j, hj⟩
        refine ⟨j + 1, ?_⟩
        rw [List.take_succ_cons, List.flatten_cons, List.length_append]
        omega
      · rintro ⟨_ | j, h⟩
        · -- nothing is announced, and the part is empty
          have hzero :=
            ih.2 ⟨0, by rw [List.take_zero, List.flatten_nil, List.length_nil] at h ⊢; omega⟩
          omega
        · rw [List.take_succ_cons, List.flatten_cons, List.length_append] at h
          have hrest := ih.2 ⟨j, by omega⟩
          omega

/-! ## The writes of a response -/

/-- Behind the headers nothing changes whether the connection stays open. -/
lemma writeAll_keepAlive (hdone : a.headersDone = true) (writes : List (Bytes × Bool)) :
    (a.writeAll writes).1.keepAlive = a.keepAlive := by
  induction writes generalizing a with
  | nil => rfl
  | cons x writes ih =>
    rcases x with ⟨input, completed⟩
    rw [writeAll, formatOutput, if_pos hdone, formatBody]
    by_cases hchunked : a.chunkedTe = true
    · rw [if_pos hchunked]
      exact ih hdone
    · rw [if_neg hchunked, formatPlain]
      dsimp only
      split_ifs
      · rfl
      · exact ih hdone

lemma writeAll_chunked (hdone : a.headersDone = true) (hchunked : a.chunkedTe = true)
    (writes : List (Bytes × Bool)) :
    (a.writeAll writes).2 = writes.flatMap fun x => makeChunkedWrapper x.1 x.2 := by
  induction writes with
  | nil => rfl
  | cons x writes ih =>
    rcases x with ⟨input, completed⟩
    rw [writeAll, formatOutput, if_pos hdone, formatBody, if_pos hchunked, List.flatMap_cons, ← ih]
    rfl

lemma writeAll_plain (hdone : a.headersDone = true) (hchunked : a.chunkedTe = false)
    (hlength : a.outputContentLength ≠ -1) (writes : List (Bytes × Bool)) :
    (a.writeAll writes).2 = sentWithin (a.outputContentLength - a.outputWritten)
      (writes.map Prod.fst) := by
  induction writes generalizing a with
  | nil => rfl
  | cons x writes ih =>
    rcases x with ⟨input, completed⟩
    have hnot : ¬ a.chunkedTe = true := by
      rw [hchunked]
      exact Bool.false_ne_true
    have herror :
      (decide (a.outputContentLength ≠ -1) &&
      decide (a.outputContentLength < a.outputWritten + input.length)) =
        decide (a.outputContentLength - a.outputWritten < input.length) := by
      rw [decide_eq_true hlength, Bool.true_and, decide_eq_decide]
      omega
    rw [writeAll, formatOutput, if_pos hdone, formatBody, if_neg hnot, formatPlain,
      List.map_cons, sentWithin]
    dsimp only
    rw [herror]
    by_cases hlt : a.outputContentLength - a.outputWritten < input.length
    · rw [if_pos (decide_eq_true hlt), if_pos hlt]
    · rw [if_neg (by simpa using hlt), if_neg hlt, ih]
      · dsimp only
        rw [sub_sub]
      · exact hdone
      · exact hchunked
      · exact hlength

/-- The state behind the first write of a response, before its part of the body. -/
def started (hdr : ResponseHeaders) (parts : List Bytes) (last : Bytes) (a : Api) : Api :=
  (a.setResponseHeaders hdr).finishHeaders ((parts ++ [last]).headD []) (decide (parts = []))

lemma map_fst_bodyWrites (parts : List Bytes) (last : Bytes) :
    (bodyWrites parts last).map Prod.fst = parts ++ [last] := by
  unfold bodyWrites
  rw [List.map_append, List.map_map, List.map_singleton]
  congr 1
  exact List.map_id parts

/-- The first write sends the headers and goes on as if they had been sent before. -/
lemma respond_eq (hdone : a.headersDone = false) (hdr : ResponseHeaders) (parts : List Bytes)
    (last : Bytes) :
    (a.respond hdr parts last).1.keepAlive = (a.started hdr parts last).keepAlive ∧
      (a.respond hdr parts last).2 =
        if ((a.started hdr parts last).formatBody ((parts ++ [last]).headD [])
          (decide (parts = []))).2.2 then []
        else a.responseHead hdr parts last ++
          ((a.started hdr parts last).writeAll (bodyWrites parts last)).2 := by
  have hcons : bodyWrites parts last =
      ((parts ++ [last]).headD [], decide (parts = [])) :: (bodyWrites parts last).tail := by
    rcases parts with _ | ⟨input, parts⟩
    · rfl
    · rfl
  have hset : (a.setResponseHeaders hdr).headersDone ≠ true := by
    show a.headersDone ≠ true
    rw [hdone]
    exact Bool.false_ne_true
  have htext : (a.setResponseHeaders hdr).responseHeaders ≠ [] := List.cons_ne_nil _ _
  have hstarted : (a.started hdr parts last).headersDone = true := rfl
  have hkeep := writeAll_keepAlive hstarted (bodyWrites parts last)
  have hheaders : ∀ (b : Api) (input : Bytes) (completed : Bool),
      (b.formatBody input completed).1.responseHeaders = b.responseHeaders := by
    intro b input completed
    unfold formatBody
    split_ifs
    · rfl
    · rfl
  unfold respond
  rw [hcons] at hkeep ⊢
  rw [writeAll, formatOutput, if_neg hset, if_neg htext]
  rw [writeAll, formatOutput, if_pos hstarted] at hkeep ⊢
  unfold started at hkeep ⊢
  dsimp only at hkeep ⊢
  rw [hheaders]
  split_ifs with herror
  · rw [if_pos herror] at hkeep
    exact ⟨hkeep, rfl⟩
  · rw [if_neg herror] at hkeep
    refine ⟨hkeep, ?_⟩
    rw [List.append_assoc]
    rfl

/-- The octets of a response on a connection that stays open. -/
lemma respond_out (hdone : a.headersDone = false) (hdr : ResponseHeaders) (parts : List Bytes)
    (last : Bytes) (hkeep : (a.started hdr parts last).keepAlive = true) :
    (a.respond hdr parts last).2 =
      if (a.started hdr parts last).outputContentLength = -1 then
        a.responseHead hdr parts last ++ (bodyWrites parts last).flatMap fun x =>
          makeChunkedWrapper x.1 x.2
      else if (a.started hdr parts last).outputContentLength <
        ((parts ++ [last]).headD []).length then []
      else a.responseHead hdr parts last ++
        sentWithin (a.started hdr parts last).outputContentLength (parts ++ [last]) := by
  have hchunked : (a.started hdr parts last).chunkedTe =
      ((a.started hdr parts last).keepAlive &&
        decide ((a.started hdr parts last).outputContentLength = -1)) := rfl
  have hstarted : (a.started hdr parts last).headersDone = true := rfl
  have hwritten : (a.started hdr parts last).outputWritten = 0 := rfl
  rw [hkeep, Bool.true_and] at hchunked
  rw [(respond_eq hdone hdr parts last).2, formatBody]
  by_cases hlength : (a.started hdr parts last).outputContentLength = -1
  · rw [decide_eq_true hlength] at hchunked
    rw [if_pos hlength, if_pos hchunked, writeAll_chunked hstarted hchunked]
    rfl
  · rw [decide_eq_false hlength] at hchunked
    have hnot : ¬ (a.started hdr parts last).chunkedTe = true := by
      rw [hchunked]
      exact Bool.false_ne_true
    rw [if_neg hlength, if_neg hnot, writeAll_plain hstarted hchunked hlength,
      hwritten, sub_zero, map_fst_bodyWrites, formatPlain]
    dsimp only
    rw [decide_eq_true hlength, Bool.true_and, hwritten, zero_add]
    by_cases hlt : (a.started hdr parts last).outputContentLength <
      ((parts ++ [last]).headD []).length
    · rw [if_pos (decide_eq_true hlt), if_pos hlt]
    · rw [if_neg (by simpa using hlt), if_neg hlt]

/-! ## The fields of a response -/

lemma fieldValues_append (name : Bytes) (l l' : List (Bytes × Bytes)) :
    fieldValues name (l ++ l') = fieldValues name l ++ fieldValues name l' := by
  unfold fieldValues
  rw [List.filter_append, List.map_append]

lemma encodings_addedLines (input : Bytes) (completed : Bool) (a : Api) :
    fieldValues (bytes "Transfer-Encoding") (a.addedLines input completed) =
      if a.keepsAlive input completed = true ∧
      a.calculatedLength input completed = -1 then [bytes "chunked"] else [] := by
  have hserver : Protocol.compare (bytes "Server") (bytes "Transfer-Encoding") ≠ 0 := by decide
  have hlength : Protocol.compare (bytes "Content-Length") (bytes "Transfer-Encoding") ≠ 0 := by
    decide
  have hconnection : Protocol.compare (bytes "Connection") (bytes "Transfer-Encoding") ≠ 0 := by
    decide
  have hencoding : Protocol.compare (bytes "Transfer-Encoding") (bytes "Transfer-Encoding") =
    0 := by decide
  unfold addedLines fieldValues
  split_ifs with h1 h2 h3 h2 h3 <;> simp_all

lemma lengths_addedLines (input : Bytes) (completed : Bool) (a : Api) :
    fieldValues (bytes "Content-Length") (a.addedLines input completed) =
      if a.outputContentLength = -1 ∧ completed then [showNat input.length] else [] := by
  have hserver : Protocol.compare (bytes "Server") (bytes "Content-Length") ≠ 0 := by decide
  have hlength : Protocol.compare (bytes "Content-Length") (bytes "Content-Length") = 0 := by decide
  have hconnection : Protocol.compare (bytes "Connection") (bytes "Content-Length") ≠ 0 := by decide
  have hencoding : Protocol.compare (bytes "Transfer-Encoding") (bytes "Content-Length") ≠ 0 := by
    decide
  unfold addedLines fieldValues
  split_ifs with h1 h2 h3 h2 h3 <;> simp [hserver, hlength, hconnection, hencoding]

/-- The line of a header is read as its field. -/
lemma readField_line {name v : Bytes} {f : Bytes × Bytes} (hname : Ch.colon ∉ name)
    (h : readField (name ++ bytes ": " ++ v) = some f) : f = (name, trim v) := by
  have hline : name ++ bytes ": " ++ v = name ++ Ch.colon :: Ch.space :: v :=
    List.append_assoc _ _ _
  have hall : ∀ c ∈ name, (c ≠ Ch.colon : Bool) = true := by
    intro c hc
    rw [decide_eq_true_eq]
    rintro rfl
    exact hname hc
  have htake : (name ++ Ch.colon :: Ch.space :: v).takeWhile (· ≠ Ch.colon) = name := by
    rw [List.takeWhile_append_of_pos hall]
    exact List.append_nil _
  have hdrop : (name ++ Ch.colon :: Ch.space :: v).dropWhile (· ≠ Ch.colon) = Ch.colon ::
      Ch.space :: v := by
    rw [List.dropWhile_append_of_pos hall]
    rfl
  rw [hline] at h
  unfold readField at h
  dsimp only at h
  rw [htake, hdrop] at h
  split_ifs at h
  exact (Option.some.inj h).symm

/-- The `Content-Length` that the server reads is one of those that the client reads. -/
lemma mem_lengths (hwell : hdr.WellFormed) (hcl : hdr.getHeader (bytes "Content-Length") ≠ []) :
    trim (hdr.getHeader (bytes "Content-Length")) ∈
      fieldValues (bytes "Content-Length") hdr.fields := by
  unfold ResponseHeaders.getHeader at hcl ⊢
  rcases hfind : hdr.find (bytes "Content-Length") with _ | x
  · rw [hfind] at hcl
    exact absurd rfl hcl
  · have hx : Protocol.compare x.1 (bytes "Content-Length") = 0 := by
      simpa using List.find?_some hfind
    have hletters := (Protocol.compare_eq_zero_iff _ _).1 hx
    have hcolon : Ch.colon ∉ x.1 := by
      intro hmem
      have hlower := List.mem_map_of_mem (f := Protocol.asciiToLower) hmem
      rw [hletters] at hlower
      exact absurd hlower (by decide)
    have hstatus : some x ≠ hdr.find (bytes "Status") := by
      intro heq
      have hsame : Protocol.compare x.1 (bytes "Status") = 0 := by
        simpa using List.find?_some heq.symm
      rw [Protocol.compare_eq_zero_iff, hletters] at hsame
      exact absurd hsame (by decide)
    have hline : x.1 ++ bytes ": " ++ x.2 ∈ hdr.lines :=
      List.mem_append_left _ (List.mem_map.2 ⟨x, List.mem_filter.2
        ⟨List.mem_of_find?_eq_some hfind, decide_eq_true hstatus⟩, rfl⟩)
    rcases Option.isSome_iff_exists.1 (hwell.2 _ hline) with ⟨f, hf⟩
    rw [readField_line hcolon hf] at hf
    exact List.mem_map.2
      ⟨_, List.mem_filter.2 ⟨List.mem_filterMap.2 ⟨_, hline, hf⟩, decide_eq_true hx⟩, rfl⟩

lemma readLength_showNat (n : ℕ) : readLength (showNat n) = some n := by
  rw [readLength, if_pos ⟨showNat_ne_nil n, fun c hc => isDigit_of_mem_showNat hc⟩,
    leadingNumber_showNat]

lemma isSpace_of_isBlank {c : UInt8} (hc : isBlank c = true) : isSpace c = true := by
  unfold isBlank at hc
  rw [Bool.or_eq_true, decide_eq_true_eq, decide_eq_true_eq] at hc
  rcases hc with rfl | rfl
  · rfl
  · rfl

/-- What the server makes of a length that a client can read. -/
lemma atoll_of_readLength (h : readLength (trim s) = some n) :
    atoll s = min (2 ^ 63 - 1) (n : ℤ) := by
  unfold readLength at h
  split_ifs at h with hs
  have hblanks : ∀ c ∈ s.takeWhile isBlank, isSpace c = true :=
    fun c hc => isSpace_of_isBlank (List.mem_takeWhile_imp hc)
  have hsplit :
      s = s.takeWhile isBlank ++ (trim s ++ (s.dropWhile isBlank).rtakeWhile isBlank) := by
    unfold trim
    rw [List.rdropWhile_append_rtakeWhile, List.takeWhile_append_dropWhile]
  have hend : ((s.dropWhile isBlank).rtakeWhile isBlank).takeWhile (fun c => 0x30 ≤ c && c ≤ 0x39) =
      [] := by
    rcases hrest : (s.dropWhile isBlank).rtakeWhile isBlank with _ | ⟨c, t⟩
    · rfl
    · have hc : isBlank c = true := List.mem_rtakeWhile_imp (hrest ▸ List.mem_cons_self)
      refine List.takeWhile_cons_of_neg ?_
      unfold isBlank at hc
      rw [Bool.or_eq_true, decide_eq_true_eq, decide_eq_true_eq] at hc
      rcases hc with rfl | rfl
      · decide
      · decide
  have hnumber : leadingNumber (trim s ++ (s.dropWhile isBlank).rtakeWhile isBlank) =
      leadingNumber (trim s) := by
    unfold leadingNumber
    rw [List.takeWhile_append_of_pos hs.2, hend, List.append_nil, List.takeWhile_eq_self_iff.2 hs.2]
  rw [Option.some.injEq] at h
  rcases List.exists_cons_of_ne_nil hs.1 with ⟨c, t, hct⟩
  have hdigit := hs.2 c (hct ▸ List.mem_cons_self)
  have hatoll : atoll s = atoll (trim s ++ (s.dropWhile isBlank).rtakeWhile isBlank) := by
    have hspaces : s.dropWhile isSpace =
        (trim s ++ (s.dropWhile isBlank).rtakeWhile isBlank).dropWhile isSpace := by
      conv_lhs => rw [hsplit]
      exact List.dropWhile_append_of_pos hblanks
    unfold atoll
    rw [hspaces]
  rw [hatoll, hct, List.cons_append, atoll_cons hdigit, ← List.cons_append, ← hct, hnumber, h]

/-- A part that ends where the announced length ends, and that is not before the first one. -/
lemma sentWithin_eq_iff (hle : input.length ≤ n) :
    (sentWithin n (input :: parts)).length = n ↔
    ∃ j, 0 < j ∧ (((input :: parts).take j).flatten).length = n := by
  rw [length_sentWithin_eq_iff]
  constructor
  · rintro ⟨_ | j, h⟩
    · refine ⟨1, Nat.one_pos, ?_⟩
      rw [List.take_zero, List.flatten_nil, List.length_nil] at h
      rw [List.take_succ_cons, List.take_zero, List.flatten_singleton]
      omega
    · exact ⟨j + 1, Nat.succ_pos j, h⟩
  · rintro ⟨j, -, h⟩
    exact ⟨j, h⟩

lemma outputContentLength_eq_minus_one_iff (hdr : ResponseHeaders) (a : Api) :
    (a.setResponseHeaders hdr).outputContentLength = -1 ↔ hdr.Unannounced := by
  show (if hdr.getHeader (bytes "Content-Length") ≠
    [] then atoll (hdr.getHeader (bytes "Content-Length")) else -1) = -1 ↔ _
  unfold ResponseHeaders.Unannounced
  by_cases hcl : hdr.getHeader (bytes "Content-Length") = []
  · rw [if_neg (not_not.2 hcl)]
    exact iff_of_true rfl (.inl hcl)
  · rw [if_pos hcl]
    exact (or_iff_right hcl).symm

/-- The case of a `Content-Length` that is not taken for none. -/
lemma isMessage_announced (hdone : a.headersDone = false) (parts : List Bytes) (last : Bytes)
    (hkeep : (a.started hdr parts last).keepAlive = true) (hlength : ¬ hdr.Unannounced) :
    IsMessage hdr parts last a (a.respond hdr parts last).2 ↔
      hdr.WellFormed ∧ hdr.Uncoded ∧ hdr.LengthOfParts (parts ++ [last]) := by
  obtain ⟨hcl, hminus⟩ := not_or.1 hlength
  have hset : (a.setResponseHeaders hdr).outputContentLength =
      atoll (hdr.getHeader (bytes "Content-Length")) :=
    if_pos hcl
  have hstart : (a.started hdr parts last).outputContentLength =
      atoll (hdr.getHeader (bytes "Content-Length")) := by
    show calculatedLength _ _ _ = _
    rw [calculatedLength, if_neg fun h => hminus (hset ▸ h.1), hset]
  have hencodings : fieldValues (bytes "Transfer-Encoding")
    (hdr.fields ++ a.responseLines hdr parts last) =
      fieldValues (bytes "Transfer-Encoding") hdr.fields := by
    unfold responseLines
    rw [fieldValues_append, encodings_addedLines, if_neg, List.append_nil]
    rintro ⟨-, h⟩
    exact hminus (hstart ▸ h)
  have hlengths : fieldValues (bytes "Content-Length")
    (hdr.fields ++ a.responseLines hdr parts last) =
      fieldValues (bytes "Content-Length") hdr.fields := by
    unfold responseLines
    rw [fieldValues_append, lengths_addedLines, if_neg fun h =>
      hminus (hset ▸ h.1), List.append_nil]
  have hhead : a.responseHead hdr parts last ≠ [] := List.cons_ne_nil _ _
  unfold IsMessage ResponseHeaders.Uncoded
  refine and_congr_right fun hwell => ?_
  unfold EndsAsAnnounced
  rw [respond_out hdone hdr parts last hkeep, hstart, if_neg hminus]
  simp only [hencodings, hlengths]
  have hbody : (parts ++ [last]).flatten = parts.flatten ++ last := by
    rw [List.flatten_append, List.flatten_singleton]
  have hsome := List.ne_nil_of_mem (mem_lengths hwell hcl)
  have hatoll : ∀ n : ℕ, hdr.Announces n →
      atoll (hdr.getHeader (bytes "Content-Length")) = min (2 ^ 63 - 1) (n : ℤ) :=
    fun n hn => atoll_of_readLength (hn _ (mem_lengths hwell hcl))
  generalize atoll (hdr.getHeader (bytes "Content-Length")) = cl at hatoll
  rcases List.exists_cons_of_ne_nil
    (List.append_ne_nil_of_right_ne_nil parts (List.cons_ne_nil last [])) with
    ⟨input, rest, hparts⟩
  rw [← hbody, hparts, List.headD_cons]
  constructor
  · rintro ⟨payload, hout, hends⟩
    split_ifs at hout with hlt
    · exact absurd (List.append_eq_nil_iff.1 hout.symm).1 hhead
    · have hpayload := List.append_cancel_left hout
      split_ifs at hends with hcoded
      · refine ⟨hcoded, ?_⟩
        have hread : hdr.Announces payload.length := hends.2
        have hcl := hatoll _ hread
        have hpos : 0 ≤ cl := by omega
        -- no more than the announced length is sent, so that it fits
        have hle := length_sentWithin_le hpos (input :: rest)
        rw [hpayload] at hle
        have hbound : payload.length < 2 ^ 63 := by omega
        have hroom : cl = (payload.length : ℤ) := by omega
        rw [hroom] at hpayload hlt
        have hinput : input.length ≤ payload.length := by omega
        rcases (sentWithin_eq_iff hinput).1 (by rw [hpayload]) with ⟨j, hj, heq⟩
        exact ⟨j, hj, by rwa [heq], by omega⟩
      · -- the body is sent as it is, and is no body in chunks
        have hshort : (input :: rest).flatten.length < payload.length := length_of_dechunk hends.2
        have hlong := length_sentWithin_le_flatten cl (input :: rest)
        rw [hpayload] at hlong
        omega
  · rintro ⟨hcoded, j, hj, hread, hbound⟩
    have hcl := hatoll _ hread
    have hinput : input.length ≤ (((input :: rest).take j).flatten).length := by
      rcases j with _ | j
      · exact absurd hj (Nat.lt_irrefl 0)
      · rw [List.take_succ_cons, List.flatten_cons, List.length_append]
        exact Nat.le_add_right _ _
    have hroom : cl = ((((input :: rest).take j).flatten).length : ℤ) := by omega
    have hfit := (sentWithin_eq_iff hinput).2 ⟨j, hj, rfl⟩
    refine ⟨sentWithin cl (input :: rest), if_neg (by omega), ?_⟩
    rw [if_pos hcoded]
    refine ⟨hsome, ?_⟩
    rw [hroom, hfit]
    exact hread

/-- The case of chunks. -/
lemma isMessage_chunked (hdone : a.headersDone = false) (last : Bytes)
    (hkeep : (a.started hdr parts last).keepAlive = true) (hnone : hdr.Unannounced)
    (hparts : parts ≠ []) :
    IsMessage hdr parts last a (a.respond hdr parts last).2 ↔ hdr.WellFormed ∧ hdr.Uncoded := by
  have hset := (outputContentLength_eq_minus_one_iff hdr a).2 hnone
  have hstart : (a.started hdr parts last).outputContentLength = -1 := by
    show calculatedLength _ _ _ = _
    rw [calculatedLength, decide_eq_false hparts, if_neg fun h => Bool.false_ne_true h.2, hset]
  have hencodings : fieldValues (bytes "Transfer-Encoding")
    (hdr.fields ++ a.responseLines hdr parts last) =
      fieldValues (bytes "Transfer-Encoding") hdr.fields ++ [bytes "chunked"] := by
    unfold responseLines
    rw [fieldValues_append, encodings_addedLines, if_pos ⟨hkeep, hstart⟩]
  have hsome : fieldValues (bytes "Transfer-Encoding") hdr.fields ++ [bytes "chunked"] ≠ [] :=
    List.append_ne_nil_of_right_ne_nil _ (List.cons_ne_nil _ _)
  unfold IsMessage ResponseHeaders.Uncoded
  refine and_congr_right fun _ => ?_
  unfold EndsAsAnnounced
  rw [respond_out hdone hdr parts last hkeep, if_pos hstart]
  simp only [hencodings, if_neg hsome]
  constructor
  · rintro ⟨payload, -, ⟨te, hte, -⟩, -⟩
    exact (List.append_eq_singleton_iff.1 hte).elim (fun h => h.1) fun h => by cases h.2
  · intro hcoded
    refine ⟨(bodyWrites parts last).flatMap fun x =>
      makeChunkedWrapper x.1 x.2, rfl, ⟨bytes "chunked", ?_, by decide⟩,
      dechunk_bodyWrites parts last⟩
    rw [hcoded, List.nil_append]

/-- The case of a length that is calculated. -/
lemma isMessage_calculated (hdone : a.headersDone = false) (last : Bytes)
    (hkeep : (a.started hdr [] last).keepAlive = true) (hnone : hdr.Unannounced) :
    IsMessage hdr [] last a (a.respond hdr [] last).2 ↔
    hdr.WellFormed ∧ hdr.Uncoded ∧ hdr.Announces last.length := by
  have hset := (outputContentLength_eq_minus_one_iff hdr a).2 hnone
  have hstart : (a.started hdr [] last).outputContentLength = last.length := by
    show calculatedLength _ _ _ = _
    rw [calculatedLength, if_pos ⟨hset, rfl⟩]
    rfl
  have hencodings : fieldValues (bytes "Transfer-Encoding")
    (hdr.fields ++ a.responseLines hdr [] last) =
      fieldValues (bytes "Transfer-Encoding") hdr.fields := by
    unfold responseLines
    rw [fieldValues_append, encodings_addedLines, if_neg, List.append_nil]
    rintro ⟨-, h⟩
    have heq := hstart.symm.trans h
    omega
  have hlengths : fieldValues (bytes "Content-Length") (hdr.fields ++ a.responseLines hdr [] last) =
      fieldValues (bytes "Content-Length") hdr.fields ++ [showNat last.length] := by
    have hcompleted : (a.setResponseHeaders hdr).outputContentLength = -1 ∧
        decide (([] : List Bytes) = []) = true :=
      ⟨hset, rfl⟩
    unfold responseLines
    rw [fieldValues_append, lengths_addedLines, if_pos hcompleted]
    rfl
  have hsent : sentWithin (last.length : ℤ) [last] = last := by
    rw [sentWithin, if_neg (lt_irrefl _), sentWithin, List.append_nil]
  have hout : (a.respond hdr [] last).2 = a.responseHead hdr [] last ++ last := by
    rw [respond_out hdone hdr [] last hkeep, hstart, if_neg (by omega), List.nil_append,
      List.headD_cons, if_neg (lt_irrefl _), hsent]
  have hsome : fieldValues (bytes "Content-Length") hdr.fields ++ [showNat last.length] ≠ [] :=
    List.append_ne_nil_of_right_ne_nil _ (List.cons_ne_nil _ _)
  unfold IsMessage ResponseHeaders.Uncoded
  refine and_congr_right fun _ => ?_
  unfold EndsAsAnnounced
  simp only [hencodings, hlengths, hout]
  constructor
  · rintro ⟨payload, heq, hends⟩
    obtain rfl := List.append_cancel_left heq
    split_ifs at hends with hcoded
    · exact ⟨hcoded, fun cl hcl => hends.2 cl (List.mem_append_left _ hcl)⟩
    · have hshort := length_of_dechunk hends.2
      rw [List.flatten_nil, List.nil_append] at hshort
      exact absurd hshort (Nat.lt_irrefl _)
  · rintro ⟨hcoded, hread⟩
    refine ⟨last, rfl, ?_⟩
    rw [if_pos hcoded]
    refine ⟨hsome, fun cl hcl => ?_⟩
    rcases List.mem_append.1 hcl with hcl | hcl
    · exact hread cl hcl
    · rw [List.mem_singleton.1 hcl, readLength_showNat]

/-- The responses whose end is known: the connection is not asked to stay open, or it is closed in
HTTP/1.0; or the headers are fields, none of them tells of a coding, and there is no length for the
server and either more than one part or no other length, or the length is that of the first parts of
the body. -/
def IsDelimited (httpConnection : Bytes) (errorState isHttp11 : Bool) (hdr : ResponseHeaders)
    (parts : List Bytes) (last : Bytes) : Prop :=
  Protocol.compare httpConnection (bytes "keep-alive") ≠ 0 ∨ errorState = true ∨
    (hdr.Unannounced ∧ parts ≠ [] ∧ isHttp11 = false) ∨
    (hdr.WellFormed ∧ hdr.Uncoded ∧
      ((hdr.Unannounced ∧ (parts ≠ [] ∨ hdr.Announces last.length)) ∨
        hdr.LengthOfParts (parts ++ [last])))

/-- A connection that stays open has got one complete message, for exactly these responses. -/
theorem respond_isMessage_iff (packageVersion httpConnection : Bytes) (errorState isHttp11 : Bool)
    (responseHeaders : Bytes) (hdr : ResponseHeaders) (parts : List Bytes) (last : Bytes) :
    (((reset packageVersion httpConnection errorState isHttp11 responseHeaders).respond hdr parts
      last).1.keepAlive =
        true →
      IsMessage hdr parts last
        (reset packageVersion httpConnection errorState isHttp11 responseHeaders)
        ((reset packageVersion httpConnection errorState isHttp11 responseHeaders).respond hdr
          parts last).2) ↔
      IsDelimited httpConnection errorState isHttp11 hdr parts last := by
  have hdone :
    (reset packageVersion httpConnection errorState isHttp11 responseHeaders).headersDone = false :=
    rfl
  have hkeep :
      ((reset packageVersion httpConnection errorState isHttp11 responseHeaders).started hdr parts
        last).keepAlive =
      (decide (Protocol.compare httpConnection (bytes "keep-alive") = 0) && !errorState &&
        (decide (((reset packageVersion httpConnection errorState isHttp11
          responseHeaders).started hdr parts last).outputContentLength ≠ -1) || isHttp11)) := rfl
  have hstart :
      ((reset packageVersion httpConnection errorState isHttp11 responseHeaders).started hdr parts
        last).outputContentLength =
      ((reset packageVersion httpConnection errorState isHttp11
        responseHeaders).setResponseHeaders hdr).calculatedLength ((parts ++ [last]).headD [])
          (decide (parts = [])) :=
    rfl
  rw [(respond_eq hdone hdr parts last).1]
  unfold IsDelimited
  generalize reset packageVersion httpConnection errorState isHttp11 responseHeaders = a at *
  by_cases hconnection : Protocol.compare httpConnection (bytes "keep-alive") = 0
  swap
  · rw [decide_eq_false hconnection, Bool.false_and, Bool.false_and] at hkeep
    rw [hkeep]
    exact ⟨fun _ => .inl hconnection, fun _ h => absurd h Bool.false_ne_true⟩
  rcases errorState with _ | _
  swap
  · rw [Bool.not_true, Bool.and_false, Bool.false_and] at hkeep
    rw [hkeep]
    exact ⟨fun _ => .inr (.inl rfl), fun _ h => absurd h Bool.false_ne_true⟩
  rw [decide_eq_true hconnection, Bool.not_false, Bool.true_and, Bool.true_and] at hkeep
  rw [or_iff_right (not_not.2 hconnection), or_iff_right Bool.false_ne_true]
  by_cases hnone : hdr.Unannounced
  · have hminus := (outputContentLength_eq_minus_one_iff hdr a).2 hnone
    by_cases hparts : parts = []
    · subst hparts
      have hopen : (a.started hdr [] last).keepAlive = true := by
        rw [hkeep, hstart, calculatedLength, if_pos ⟨hminus, rfl⟩, Bool.or_eq_true,
          decide_eq_true_eq]
        exact .inl (by omega)
      have hfirst : hdr.LengthOfParts ([] ++ [last]) → hdr.Announces last.length := by
        rintro ⟨_ | j, hj, hread, -⟩
        · exact absurd hj (Nat.lt_irrefl 0)
        · rwa [List.nil_append, List.take_succ_cons, List.take_nil, List.flatten_singleton] at hread
      rw [forall_prop_of_true hopen, isMessage_calculated hdone last hopen hnone]
      constructor
      · exact fun h => .inr ⟨h.1, h.2.1, .inl ⟨hnone, .inr h.2.2⟩⟩
      · rintro (h | ⟨hwell, hcoded, ⟨-, h⟩ | h⟩)
        · exact absurd rfl h.2.1
        · exact ⟨hwell, hcoded, h.resolve_left (not_not.2 rfl)⟩
        · exact ⟨hwell, hcoded, hfirst h⟩
    · rcases isHttp11 with _ | _
      · have hclosed : (a.started hdr parts last).keepAlive = false := by
          rw [hkeep, hstart, calculatedLength, decide_eq_false hparts, if_neg fun h =>
            Bool.false_ne_true h.2, hminus]
          rfl
        rw [hclosed]
        exact ⟨fun _ => .inl ⟨hnone, hparts, rfl⟩, fun _ h => absurd h Bool.false_ne_true⟩
      · have hopen : (a.started hdr parts last).keepAlive = true := by
          rw [hkeep, Bool.or_true]
        rw [forall_prop_of_true hopen, isMessage_chunked hdone last hopen hnone hparts]
        constructor
        · exact fun h => .inr ⟨h.1, h.2, .inl ⟨hnone, .inl hparts⟩⟩
        · rintro (h | h)
          · exact absurd h.2.2.symm Bool.false_ne_true
          · exact ⟨h.1, h.2.1⟩
  · have hminus := mt (outputContentLength_eq_minus_one_iff hdr a).1 hnone
    have hopen : (a.started hdr parts last).keepAlive = true := by
      rw [hkeep, hstart, calculatedLength, if_neg fun h =>
        hminus h.1, decide_eq_true hminus, Bool.true_or]
    rw [forall_prop_of_true hopen, isMessage_announced hdone parts last hopen hnone,
      or_iff_right fun h => hnone h.1, or_iff_right fun h => hnone h.1]

/-- Five octets are announced and three are sent, and the connection stays open. -/
theorem respond_isMessage_short :
    ¬ (((reset (bytes "1.2.1") (bytes "keep-alive") false true []).respond
      ⟨[(bytes "Content-Length", bytes "5")], []⟩ []
        (bytes "abc")).1.keepAlive = true →
      IsMessage ⟨[(bytes "Content-Length", bytes "5")], []⟩ [] (bytes "abc")
        (reset (bytes "1.2.1") (bytes "keep-alive") false true [])
        ((reset (bytes "1.2.1") (bytes "keep-alive") false true []).respond
          ⟨[(bytes "Content-Length", bytes "5")], []⟩ []
          (bytes "abc")).2) := by
  intro h
  rcases h (by decide) with ⟨-, payload, hout, hends⟩
  have hpayload : payload = bytes "abc" := by
    have hsplit : ((reset (bytes "1.2.1") (bytes "keep-alive") false true []).respond
        ⟨[(bytes "Content-Length", bytes "5")], []⟩ [] (bytes "abc")).2 =
        responseHead ⟨[(bytes "Content-Length", bytes "5")], []⟩ [] (bytes "abc")
          (reset (bytes "1.2.1") (bytes "keep-alive") false true []) ++ bytes "abc" := by decide
    exact (List.append_cancel_left (hout.symm.trans hsplit))
  unfold EndsAsAnnounced at hends
  rw [if_pos (by decide)] at hends
  have hread := hends.2 (bytes "5") (by decide)
  rw [hpayload] at hread
  exact absurd hread (by decide +kernel)

end Api

end Http

end Cppcms
