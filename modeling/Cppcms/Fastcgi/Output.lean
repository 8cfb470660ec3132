import Cppcms.Aio.Buffer
import Cppcms.Fastcgi.Record

/-!
# The output of a request

`format_output` puts records around what the application writes.  The chunks of the input are cut
where a record is full, whatever their own limits are, and headers and padding stand between the
pieces.  The packet only refers to the headers, so that their octets are those that the object holds
when the packet is sent.
-/

namespace Cppcms

namespace Fastcgi

open Aio

/-- What a chunk of a packet refers to. -/
inductive Piece where
  | fullHeader
  | header
  | eof
  | octets (p : Bytes)
  deriving DecidableEq, Repr

/-- The part of the object that `format_output` works on.  The headers are in network order. -/
structure Output where
  requestId : UInt16
  responseHeaders : Bytes
  responseHeadersWritten : Bool
  header : Bytes
  fullHeader : Bytes
  eof : Bytes
  deriving DecidableEq, Repr

def setResponseHeaders (headers : Bytes) (o : Output) : Output :=
  { o with responseHeaders := headers, responseHeadersWritten := false }

def maxPacketLen : ℕ := 65535

/-- The position in the input: the chunks from `chunks` on, and `chunk_consumed`. -/
structure Cursor where
  chunks : List Bytes
  consumed : ℕ

/-- The inner loop, which moves the next octets of the input to the packet.  It has no result if it
leaves the chunks. -/
def moveChunk : ℕ → ℕ → Cursor → List Piece → Option (Cursor × List Piece)
  | _, 0, c, packet => some (c, packet)
  | 0, _ + 1, _, _ => none
  | fuel + 1, chunk + 1, c, packet =>
    match c.chunks with
    | [] => none
    | e :: rest =>
      let nextSize := min (e.length - c.consumed) (chunk + 1)
      let packet := packet ++ [.octets ((e.drop c.consumed).take nextSize)]
      let consumed := c.consumed + nextSize
      if consumed = e.length then moveChunk fuel (chunk + 1 - nextSize) ⟨rest, 0⟩ packet
      else moveChunk fuel (chunk + 1 - nextSize) ⟨e :: rest, consumed⟩ packet

/-- The header of a record of the output. -/
def stdoutHeader (requestId : UInt16) (content : ℕ) (padding : ℕ) : Header :=
  ⟨version1, Kind.stdout, requestId, UInt16.ofNat content, UInt8.ofNat padding, 0⟩

/-- The first part of a round: the length of the record and of its padding, and the header. -/
def openRecord (o : Output) (inSize reminder : ℕ) : Output × ℕ × ℕ × Piece :=
  if reminder > maxPacketLen then
    if inSize > maxPacketLen ∧ reminder = inSize then
      ({ o with fullHeader := (stdoutHeader o.requestId maxPacketLen 1).toNet },
        maxPacketLen, 1, .fullHeader)
    else (o, maxPacketLen, 1, .fullHeader)
  else
    ({ o with header := (stdoutHeader o.requestId reminder ((8 - reminder % 8) % 8)).toNet },
      reminder, (8 - reminder % 8) % 8, .header)

/-- The loop over the records. -/
def formatLoop (inSize : ℕ) : ℕ → ℕ → Output → Cursor → List Piece → Option (Output × List Piece)
  | _, 0, o, _, packet => some (o, packet)
  | 0, _ + 1, _, _, _ => none
  | fuel + 1, reminder + 1, o, c, packet =>
    let (o, chunk, padLen, first) := openRecord o inSize (reminder + 1)
    match moveChunk chunk chunk c (packet ++ [first]) with
    | none => none
    | some (c, packet) =>
      formatLoop inSize fuel (reminder + 1 - chunk) o c
        (packet ++ [.octets (List.replicate padLen 0)])

/-- `prepare_eof`: an empty record of output and the end of the request. -/
def prepareEof (o : Output) : Output :=
  { o with eof := (Header.mk version1 Kind.stdout o.requestId 0 0 0).toNet ++
      (Header.mk version1 Kind.endRequest o.requestId 8 0 0).toNet ++ List.replicate 8 0 }

/-- The octets a piece refers to. -/
def Piece.octetsIn (o : Output) : Piece → Bytes
  | .fullHeader => o.fullHeader
  | .header => o.header
  | .eof => o.eof
  | .octets p => p

/-- The buffer as it is sent. -/
def packetIn (o : Output) (packet : List Piece) : Buffer :=
  (packet.map (Piece.octetsIn o)).foldl Buffer.add Buffer.nil

/-- The input with the headers of the response before it, if they are not written yet. -/
def withHeaders (o : Output) (input : Buffer) : Output × Buffer :=
  if o.responseHeadersWritten then (o, input)
  else ({ o with responseHeadersWritten := true }, (Buffer.of o.responseHeaders).append input)

def formatOutput (o : Output) (input : Buffer) (completed : Bool) : Option (Output × Buffer) := do
  let (o, input) := withHeaders o input
  let reminder := input.bytesCount
  let (o, packet) ← formatLoop reminder reminder reminder o ⟨input.get, 0⟩ []
  if completed then
    let o := prepareEof o
    return (o, packetIn o (packet ++ [.eof]))
  else return (o, packetIn o packet)

/-! ## The records -/

/-- A record of output. -/
def stdoutRecord (requestId : UInt16) (content : Bytes) : Bytes :=
  (stdoutHeader requestId content.length ((8 - content.length % 8) % 8)).toNet ++ content ++
    List.replicate ((8 - content.length % 8) % 8) 0

/-- The record that ends a request that is complete. -/
def endRequestRecord (requestId : UInt16) : Bytes :=
  (Header.mk version1 Kind.endRequest requestId 8 0 0).toNet ++ List.replicate 8 0

lemma length_stdoutRecord (requestId : UInt16) (content : Bytes) :
    8 ∣ (stdoutRecord requestId content).length := by
  unfold stdoutRecord
  simp only [List.length_append, Header.length_toNet, List.length_replicate]
  omega

/-- The input that is left. -/
def Cursor.rest (c : Cursor) : Bytes := c.chunks.flatten.drop c.consumed

/-- The position is inside of a chunk, or at the end. -/
def Cursor.Inside (c : Cursor) : Prop :=
  (∀ e ∈ c.chunks, e ≠ []) ∧
    ((c.chunks = [] ∧ c.consumed = 0) ∨ ∃ e ∈ c.chunks.head?, c.consumed < e.length)

lemma Cursor.inside_start {l : List Bytes} (h : ∀ e ∈ l, e ≠ []) : (Cursor.mk l 0).Inside := by
  refine ⟨h, ?_⟩
  cases l with
  | nil => exact .inl ⟨rfl, rfl⟩
  | cons e l =>
    right
    exact ⟨e, rfl, List.length_pos_iff.2 (h e List.mem_cons_self)⟩

/-- The octets of a packet under a meaning of the headers. -/
def flat (o : Output) (packet : List Piece) : Bytes := (packet.map (Piece.octetsIn o)).flatten

lemma flat_append (o : Output) (p q : List Piece) : flat o (p ++ q) = flat o p ++ flat o q := by
  unfold flat
  rw [List.map_append, List.flatten_append]

lemma flat_octets (o : Output) (p : Bytes) : flat o [.octets p] = p := by
  unfold flat
  rw [List.map_singleton, List.flatten_singleton]
  rfl

/-- The inner loop moves exactly the next octets. -/
lemma moveChunk_eq {fuel chunk : ℕ} {c : Cursor} (hfuel : chunk ≤ fuel) (hc : c.Inside)
    (hchunk : chunk ≤ c.rest.length) (packet : List Piece) :
    ∃ c' pieces, moveChunk fuel chunk c packet = some (c', packet ++ pieces) ∧ c'.Inside ∧
      c'.rest = c.rest.drop chunk ∧ ∀ o, flat o pieces = c.rest.take chunk := by
  induction fuel generalizing chunk c packet with
  | zero =>
    have hzero : chunk = 0 := Nat.le_zero.1 hfuel
    subst hzero
    refine ⟨c, [], ?_, hc, rfl, fun o => rfl⟩
    rw [moveChunk, List.append_nil]
  | succ fuel ih =>
    cases chunk with
    | zero =>
      refine ⟨c, [], ?_, hc, rfl, fun o => rfl⟩
      rw [moveChunk, List.append_nil]
    | succ chunk =>
      rcases c with ⟨chunks, consumed⟩
      rcases hc with ⟨hne, ⟨hnil, hzero⟩ | ⟨e, he, hlt⟩⟩
      · dsimp only at hnil hzero
        subst hnil
        simp [Cursor.rest] at hchunk
      cases chunks with
      | nil => cases he
      | cons e' rest =>
        obtain rfl : e' = e := by simpa using he
        dsimp only at hlt
        have hrest : (Cursor.mk (e' :: rest) consumed).rest = e'.drop consumed ++ rest.flatten := by
          unfold Cursor.rest
          dsimp only
          rw [List.flatten_cons, List.drop_append, Nat.sub_eq_zero_of_le hlt.le, List.drop_zero]
        rw [hrest] at hchunk ⊢
        rw [moveChunk]
        dsimp only
        by_cases hfull : consumed + min (e'.length - consumed) (chunk + 1) = e'.length
        · -- the chunk is used up
          have hmin : min (e'.length - consumed) (chunk + 1) = e'.length - consumed := by omega
          have hlength : (e'.drop consumed).length = e'.length - consumed := List.length_drop
          have hdrop : (e'.drop consumed).drop (chunk + 1) = [] := by
            apply List.drop_of_length_le
            rw [hlength]
            omega
          have htake : (e'.drop consumed).take (chunk + 1) = e'.drop consumed := by
            apply List.take_of_length_le
            rw [hlength]
            omega
          rw [if_pos hfull, hmin]
          have hinside : (Cursor.mk rest 0).Inside :=
            Cursor.inside_start fun x hx => hne x (List.mem_cons_of_mem e' hx)
          have hnext : (Cursor.mk rest 0).rest = rest.flatten := rfl
          rw [List.length_append, hlength] at hchunk
          rcases @ih (chunk + 1 - (e'.length - consumed)) ⟨rest, 0⟩ (by omega) hinside
            (by rw [hnext]; omega)
            (packet ++ [.octets ((e'.drop consumed).take (e'.length - consumed))]) with
            ⟨c', pieces, hmove, hinside', hrest', hpieces⟩
          refine ⟨c', .octets ((e'.drop consumed).take (e'.length - consumed)) :: pieces, ?_,
            hinside', ?_, ?_⟩
          · rw [hmove, List.append_assoc, List.singleton_append]
          · rw [hrest', hnext, List.drop_append, hdrop, List.nil_append, hlength]
          · intro o
            have hcons :=
              flat_append o [.octets ((e'.drop consumed).take (e'.length - consumed))] pieces
            rw [List.singleton_append] at hcons
            rw [hcons, flat_octets, hpieces, hnext, List.take_append, htake, hlength,
              List.take_of_length_le hlength.le]
        · -- the record is full
          have hmin : min (e'.length - consumed) (chunk + 1) = chunk + 1 := by omega
          rw [if_neg hfull, hmin, Nat.sub_self]
          refine ⟨⟨e' :: rest, consumed + (chunk + 1)⟩,
            [.octets ((e'.drop consumed).take (chunk + 1))], ?_, ?_, ?_, ?_⟩
          · cases fuel <;> rw [moveChunk]
          · exact ⟨hne, .inr ⟨e', rfl, by dsimp only; omega⟩⟩
          · unfold Cursor.rest
            dsimp only
            rw [List.flatten_cons, List.drop_append,
              Nat.sub_eq_zero_of_le (by omega), List.drop_zero, List.drop_append, List.drop_drop,
              List.length_drop, Nat.sub_eq_zero_of_le (by omega), List.drop_zero]
          · intro o
            rw [flat_octets, List.take_append_of_le_length (by rw [List.length_drop]; omega)]

lemma formatLoop_zero (inSize fuel : ℕ) (o : Output) (c : Cursor) (packet : List Piece) :
    formatLoop inSize fuel 0 o c packet = some (o, packet) := by
  cases fuel <;> rw [formatLoop]

/-- Only the headers of records may differ. -/
def SameRequest (o o' : Output) : Prop :=
  o'.requestId = o.requestId ∧ o'.responseHeaders = o.responseHeaders ∧
    o'.responseHeadersWritten = o.responseHeadersWritten

/-- The contents of records. -/
def Contents (contents : List Bytes) : Prop := ∀ x ∈ contents, x ≠ [] ∧ x.length ≤ maxPacketLen

/-- The header of a record that is full. -/
def fullHeaderOf (requestId : UInt16) : Bytes := (stdoutHeader requestId maxPacketLen 1).toNet

/-- The header is the one of the record, also when it is looked at later. -/
lemma openRecord_full {o : Output} {inSize reminder : ℕ} (hmax : maxPacketLen < reminder)
    (hsize : reminder ≤ inSize)
    (hfull : reminder = inSize ∨ o.fullHeader = fullHeaderOf o.requestId) :
    ∃ o', openRecord o inSize reminder = (o', maxPacketLen, 1, .fullHeader) ∧ SameRequest o o' ∧
      o'.fullHeader = fullHeaderOf o.requestId := by
  unfold openRecord
  rw [if_pos hmax]
  by_cases hfirst : inSize > maxPacketLen ∧ reminder = inSize
  · rw [if_pos hfirst]
    exact ⟨_, rfl, ⟨rfl, rfl, rfl⟩, rfl⟩
  · rw [if_neg hfirst]
    rcases hfull with heq | hheader
    · exact absurd ⟨hmax.trans_le hsize, heq⟩ hfirst
    · exact ⟨o, rfl, ⟨rfl, rfl, rfl⟩, hheader⟩

lemma openRecord_last {o : Output} {reminder : ℕ} (inSize : ℕ) (hmax : ¬ maxPacketLen < reminder) :
    ∃ o', openRecord o inSize reminder = (o', reminder, (8 - reminder % 8) % 8, .header) ∧
    SameRequest o o' ∧
      o'.fullHeader = o.fullHeader ∧
      o'.header = (stdoutHeader o.requestId reminder ((8 - reminder % 8) % 8)).toNet := by
  unfold openRecord
  rw [if_neg hmax]
  exact ⟨_, rfl, ⟨rfl, rfl, rfl⟩, rfl, rfl⟩

lemma stdoutRecord_eq {requestId : UInt16} {content : Bytes} {padding : ℕ}
    (hpadding : (8 - content.length % 8) % 8 = padding) :
    stdoutRecord requestId content =
      (stdoutHeader requestId content.length padding).toNet ++
        (content ++ List.replicate padding 0) := by
  unfold stdoutRecord
  rw [hpadding, List.append_assoc]

/-- The loop writes records with the octets of the input. -/
lemma formatLoop_eq {inSize fuel reminder : ℕ} {o : Output} {c : Cursor} (hfuel : reminder ≤ fuel)
    (hc : c.Inside) (hrest : c.rest.length = reminder) (hsize : reminder ≤ inSize)
    (hfull : reminder = inSize ∨ o.fullHeader = fullHeaderOf o.requestId) (packet : List Piece) :
    ∃ o' pieces contents, formatLoop inSize fuel reminder o c packet = some (o', packet ++ pieces) ∧
      SameRequest o o' ∧ (reminder < inSize → o'.fullHeader = o.fullHeader) ∧
      (∀ q : Output, q.fullHeader = o'.fullHeader → q.header = o'.header →
        flat q pieces = (contents.map (stdoutRecord o.requestId)).flatten) ∧
      contents.flatten = c.rest ∧ Contents contents := by
  induction fuel generalizing reminder o c packet with
  | zero =>
    have hzero : reminder = 0 := Nat.le_zero.1 hfuel
    subst hzero
    have hnil : c.rest = [] := List.length_eq_zero_iff.1 hrest
    refine ⟨o, [], [], ?_, ⟨rfl, rfl, rfl⟩, fun _ => rfl, fun _ _ _ => rfl, hnil.symm,
      fun x hx => absurd hx List.not_mem_nil⟩
    rw [formatLoop, List.append_nil]
  | succ fuel ih =>
    cases reminder with
    | zero =>
      have hnil : c.rest = [] := List.length_eq_zero_iff.1 hrest
      refine ⟨o, [], [], ?_, ⟨rfl, rfl, rfl⟩, fun _ => rfl, fun _ _ _ => rfl, hnil.symm,
      fun x hx => absurd hx List.not_mem_nil⟩
      rw [formatLoop, List.append_nil]
    | succ reminder =>
      rw [formatLoop]
      by_cases hmax : maxPacketLen < reminder + 1
      · -- a full record, and more to come
        rcases openRecord_full hmax hsize hfull with ⟨o₁, hopen, hsame, hheader⟩
        rw [hopen]
        dsimp only
        rcases moveChunk_eq le_rfl hc (hrest ▸ hmax.le) (packet ++ [.fullHeader]) with
          ⟨c', data, hmove, hinside, hrest', hdata⟩
        rw [hmove]
        dsimp only
        have hmaxpos : 0 < maxPacketLen := by decide
        have hlength : c'.rest.length = reminder + 1 - maxPacketLen := by
          rw [hrest', List.length_drop, hrest]
        have hfull' : o₁.fullHeader = fullHeaderOf o₁.requestId := by
          rw [hheader, hsame.1]
        rcases ih (by omega) hinside hlength (by omega) (.inr hfull')
          (packet ++ [.fullHeader] ++ data ++ [.octets (List.replicate 1 0)]) with
          ⟨o', pieces, contents, hloop, hsame', hkeep, hpieces, hcontents, hsizes⟩
        have hkept : o'.fullHeader = fullHeaderOf o.requestId := (hkeep (by omega)).trans hheader
        have htake : (c.rest.take maxPacketLen).length = maxPacketLen := by
          rw [List.length_take, hrest]
          omega
        refine ⟨o', .fullHeader :: (data ++ (.octets (List.replicate 1 0) :: pieces)),
          c.rest.take maxPacketLen :: contents, ?_, ?_, ?_, ?_, ?_, ?_⟩
        · rw [hloop]
          simp only [List.append_assoc, List.cons_append, List.nil_append]
        · exact ⟨hsame'.1.trans hsame.1, hsame'.2.1.trans hsame.2.1, hsame'.2.2.trans hsame.2.2⟩
        · intro hlt
          rcases hfull with heq | hbefore
          · omega
          · rw [hkept, hbefore]
        · have hrecord := @stdoutRecord_eq o.requestId (c.rest.take maxPacketLen) 1
            (by rw [htake]; rfl)
          intro q hqfull hqheader
          have hheads : flat q [.fullHeader] = fullHeaderOf o.requestId := by
            rw [← hkept, ← hqfull]
            exact List.flatten_singleton
          have hsplit : Piece.fullHeader :: (data ++ (.octets (List.replicate 1 0) :: pieces)) =
              [.fullHeader] ++ (data ++ ([.octets (List.replicate 1 0)] ++ pieces)) := rfl
          rw [hsplit, flat_append, flat_append, flat_append, hheads, hdata, flat_octets,
            hpieces q hqfull hqheader, List.map_cons, List.flatten_cons, hrecord, htake, hsame.1]
          simp only [List.append_assoc, fullHeaderOf]
        · rw [List.flatten_cons, hcontents, hrest', List.take_append_drop]
        · intro x hx
          rcases List.mem_cons.1 hx with rfl | hx
          · refine ⟨?_, htake.le⟩
            rw [← List.length_pos_iff, htake]
            exact hmaxpos
          · exact hsizes x hx
      · -- the last record
        rcases @openRecord_last o (reminder + 1) inSize hmax with ⟨o₁, hopen, hsame, hkeep, hheader⟩
        rw [hopen]
        dsimp only
        rcases moveChunk_eq le_rfl hc hrest.ge (packet ++ [.header]) with
          ⟨c', data, hmove, -, -, hdata⟩
        rw [hmove]
        dsimp only
        rw [Nat.sub_self, formatLoop_zero]
        refine ⟨o₁, .header ::
          (data ++ [.octets (List.replicate ((8 - (reminder + 1) % 8) % 8) 0)]), [c.rest], ?_,
          hsame, fun _ => hkeep, ?_, ?_, ?_⟩
        · simp only [List.append_assoc, List.cons_append, List.nil_append]
        · have hrecord :=
            @stdoutRecord_eq o.requestId c.rest ((8 - (reminder + 1) % 8) % 8) (by rw [hrest])
          intro q _ hqheader
          have hheads : flat q [.header] = o₁.header := by
            rw [← hqheader]
            exact List.flatten_singleton
          have hsplit : Piece.header ::
            (data ++ [.octets (List.replicate ((8 - (reminder + 1) % 8) % 8) 0)]) =
              [.header] ++ (data ++ [.octets (List.replicate ((8 - (reminder + 1) % 8) % 8) 0)]) :=
                rfl
          rw [hsplit, flat_append, flat_append, hheads, hheader, hdata, flat_octets,
            List.map_singleton, List.flatten_singleton, hrecord, hrest,
            List.take_of_length_le hrest.le]
        · rw [List.flatten_singleton]
        · intro x hx
          rw [List.mem_singleton.1 hx]
          refine ⟨?_, ?_⟩
          · rw [← List.length_pos_iff, hrest]
            exact Nat.succ_pos reminder
          · rw [hrest]
            exact not_lt.1 hmax

lemma bytes_packetIn (o : Output) (packet : List Piece) :
    (packetIn o packet).bytes = flat o packet := by
  unfold packetIn
  rw [Buffer.bytes_foldl_add, Buffer.bytes_nil, List.nil_append]
  rfl

/-- What an object adds to the input of a call. -/
def headersDue (o : Output) : Bytes := if o.responseHeadersWritten then [] else o.responseHeaders

/-- The records of one call. -/
def Framed (requestId : UInt16) (input octets : Bytes) : Prop :=
  ∃ contents, Contents contents ∧ contents.flatten = input ∧
    octets = (contents.map (stdoutRecord requestId)).flatten

lemma Framed.append {requestId : UInt16} {input input' octets octets' : Bytes}
    (h : Framed requestId input octets) (h' : Framed requestId input' octets') :
    Framed requestId (input ++ input') (octets ++ octets') := by
  rcases h with ⟨contents, hsizes, hflatten, hoctets⟩
  rcases h' with ⟨contents', hsizes', hflatten', hoctets'⟩
  refine ⟨contents ++ contents', ?_, ?_, ?_⟩
  · intro x hx
    rcases List.mem_append.1 hx with hx | hx
    · exact hsizes x hx
    · exact hsizes' x hx
  · rw [List.flatten_append, hflatten, hflatten']
  · rw [List.map_append, List.flatten_append, hoctets, hoctets']

lemma withHeaders_eq (o : Output) (input : Buffer) :
    ∃ o' b, withHeaders o input = (o', b) ∧ o'.requestId = o.requestId ∧
    o'.responseHeadersWritten = true ∧
      b.bytes = headersDue o ++ input.bytes := by
  unfold withHeaders headersDue
  cases hwritten : o.responseHeadersWritten with
  | true =>
    rw [if_pos rfl, if_pos rfl]
    exact ⟨o, input, rfl, rfl, hwritten, rfl⟩
  | false =>
    rw [if_neg Bool.false_ne_true, if_neg Bool.false_ne_true]
    exact ⟨_, _, rfl, rfl, rfl, by rw [Buffer.bytes_append, Buffer.bytes_of]⟩

/-- A call of `format_output` returns the records of its input, and of the headers if they are due.
-/
lemma formatOutput_eq (o : Output) (input : Buffer) (completed : Bool) :
    ∃ o' b octets, formatOutput o input completed = some (o', b) ∧ o'.requestId = o.requestId ∧
      headersDue o' = [] ∧ Framed o.requestId (headersDue o ++ input.bytes) octets ∧
      b.bytes = octets ++
        if completed then stdoutRecord o.requestId [] ++ endRequestRecord o.requestId else [] := by
  rcases withHeaders_eq o input with ⟨o₁, chunks, hwith, hrequest, hdue, hbytes⟩
  have hinside : (Cursor.mk chunks.get 0).Inside := Cursor.inside_start fun e he =>
    Buffer.ne_nil_of_mem_get he
  have hrest : (Cursor.mk chunks.get 0).rest.length = chunks.bytesCount := by
    rw [Buffer.bytesCount_eq]
    rfl
  rcases @formatLoop_eq chunks.bytesCount _ _ o₁ _ le_rfl hinside hrest le_rfl (.inl rfl) [] with
    ⟨o₂, pieces, contents, hloop, hsame, -, hpieces, hcontents, hsizes⟩
  have hframed : Framed o.requestId (headersDue o ++ input.bytes)
      (contents.map (stdoutRecord o.requestId)).flatten := by
    refine ⟨contents, hsizes, ?_, rfl⟩
    rw [hcontents, ← hbytes]
    rfl
  have hdue₂ : headersDue o₂ = [] := by
    unfold headersDue
    rw [hsame.2.2, hdue, if_pos rfl]
  rw [hrequest] at hpieces
  unfold formatOutput
  rw [hwith]
  dsimp only
  rw [hloop, List.nil_append, Option.bind_eq_bind, Option.bind_some]
  dsimp only
  cases completed with
  | false =>
    refine ⟨o₂, packetIn o₂ pieces, _, rfl, hsame.1.trans hrequest, hdue₂, hframed, ?_⟩
    rw [bytes_packetIn, hpieces o₂ rfl rfl, if_neg Bool.false_ne_true, List.append_nil]
  | true =>
    refine ⟨prepareEof o₂, packetIn (prepareEof o₂) (pieces ++ [.eof]), _, rfl,
      hsame.1.trans hrequest, hdue₂, hframed, ?_⟩
    have heof : flat (prepareEof o₂) [.eof] = stdoutRecord o.requestId
        [] ++ endRequestRecord o.requestId := by
      have hid : o₂.requestId = o.requestId := hsame.1.trans hrequest
      unfold flat
      rw [List.map_singleton, List.flatten_singleton, ← hid]
      exact List.append_assoc _ _ _
    rw [bytes_packetIn, flat_append, hpieces (prepareEof o₂) rfl rfl, heof, if_pos rfl]

/-! ## The output of a request -/

/-- What is done between the start of a request and the end of its output. -/
inductive Call where
  | setResponseHeaders (headers : Bytes)
  | formatOutput (input : Buffer)

/-- The octets of the buffers that the calls return, in order.  None of these calls completes the
output. -/
def emit (o : Output) : List Call → Option (Output × Bytes)
  | [] => some (o, [])
  | .setResponseHeaders headers :: calls => emit (setResponseHeaders headers o) calls
  | .formatOutput input :: calls => do
    let (o, b) ← formatOutput o input false
    let (o, octets) ← emit o calls
    return (o, b.bytes ++ octets)

/-- What the calls are given to write: the headers, when the first output after them is written, and
the bodies. -/
def given (due : Bytes) : List Call → Bytes × Bytes
  | [] => (due, [])
  | .setResponseHeaders headers :: calls => given headers calls
  | .formatOutput input :: calls => ((given [] calls).1, due ++ input.bytes ++ (given [] calls).2)

lemma emit_eq (o : Output) (calls : List Call) :
    ∃ o' octets, emit o calls = some (o', octets) ∧ o'.requestId = o.requestId ∧
      headersDue o' = (given (headersDue o) calls).1 ∧
      Framed o.requestId (given (headersDue o) calls).2 octets := by
  induction calls generalizing o with
  | nil => exact ⟨o, [], rfl, rfl, rfl, [], fun x hx => absurd hx List.not_mem_nil, rfl, rfl⟩
  | cons call calls ih =>
    cases call with
    | setResponseHeaders headers => exact ih (setResponseHeaders headers o)
    | formatOutput input =>
      rcases formatOutput_eq o input false with
        ⟨o₁, b, octets, hcall, hrequest, hdue, hframed, hbytes⟩
      rcases ih o₁ with ⟨o', octets', hemit, hrequest', hdue', hframed'⟩
      rw [if_neg Bool.false_ne_true, List.append_nil] at hbytes
      rw [hrequest, hdue] at hframed'
      rw [hdue] at hdue'
      refine ⟨o', b.bytes ++ octets', ?_, hrequest'.trans hrequest, hdue', ?_⟩
      · rw [emit, hcall, Option.bind_eq_bind, Option.bind_some]
        dsimp only
        rw [hemit, Option.bind_eq_bind, Option.bind_some]
        rfl
      · rw [given, hbytes]
        exact hframed.append hframed'

/-- All output of a request, the last call of which completes it. -/
def emitAll (o : Output) (calls : List Call) (last : Buffer) : Option (Output × Bytes) := do
  let (o, octets) ← emit o calls
  let (o, b) ← formatOutput o last true
  return (o, octets ++ b.bytes)

/-- The output is framed in records of the request, and ends with an empty one and with the end of
the request. -/
theorem emitAll_framed (o : Output) (calls : List Call) (last : Buffer) :
    ∃ (o' : Output) (contents : List Bytes), emitAll o calls last =
        some (o', (contents.map (stdoutRecord o.requestId)).flatten ++
          stdoutRecord o.requestId [] ++ endRequestRecord o.requestId) ∧
      contents.flatten = (given (headersDue o) calls).2 ++
        (given (headersDue o) calls).1 ++ last.bytes ∧
      ∀ x ∈ contents, x ≠ [] ∧ x.length ≤ 65535 ∧ 8 ∣ (stdoutRecord o.requestId x).length := by
  rcases emit_eq o calls with ⟨o₁, octets, hemit, hrequest, hdue, hframed⟩
  rcases formatOutput_eq o₁ last true with ⟨o', b, octets', hcall, -, -, hframed', hbytes⟩
  rw [hrequest, hdue] at hframed'
  rw [if_pos rfl, hrequest] at hbytes
  rcases hframed.append hframed' with ⟨contents, hsizes, hflatten, hoctets⟩
  refine ⟨o', contents, ?_, ?_, ?_⟩
  · unfold emitAll
    rw [hemit, Option.bind_eq_bind, Option.bind_some]
    dsimp only
    rw [hcall, Option.bind_eq_bind, Option.bind_some, hbytes, ← hoctets]
    simp only [List.append_assoc]
    rfl
  · rw [hflatten, List.append_assoc]
  · intro x hx
    exact ⟨(hsizes x hx).1, (hsizes x hx).2, length_stdoutRecord o.requestId x⟩

end Fastcgi

end Cppcms
