import Cppcms.Base.Bytes
import Cppcms.Base.Outcome
import Cppcms.Library.LittleEndian
import Cppcms.Library.Slice

/-!
# The messenger

`messenger::transmit` of `tcp_messenger.cpp` on the octets of a connection: the header and the data
go out, and the answer comes into the same two objects.  If the connection fails there is one more
attempt over a new one, with the header as the failure left it.
-/

namespace Cppcms

namespace Tcp

/-! ## Headers and packets -/

/-- `sizeof(tcp_operation_header)`: the opcode, the size, the filler and the union. -/
def headerLength : ℕ := 40

/-- The field `size` of a header. -/
def sizeField (h : Bytes) : ℕ := fromLittleEndian ((h.drop 4).take 4)

/-- What an attempt writes.  `data.c_str()` has an octet more than the data. -/
def packet (h data : Bytes) : Option Bytes :=
  if sizeField h > 0 then (slice (data ++ [0]) 0 (sizeField h)).map (h ++ ·) else some h

/-- A header and data as the callers give them. -/
structure Request where
  header : Bytes
  data : Bytes
  length_header : header.length = headerLength
  size_le : sizeField header ≤ data.length

/-- The octets of the request. -/
def Request.octets (r : Request) : Bytes := r.header ++ r.data.take (sizeField r.header)

/-! ## Connections and attempts -/

/-- What a connection does: how many octets it takes before it fails, which octets arrive until it
ends if it took all, and the text of its error. -/
structure Connection where
  accepts : ℕ
  answer : Bytes → Bytes
  error : String

/-- How the body of `try` ends.  A failed attempt leaves its header, and the data as they were. -/
inductive Attempt where
  | replied (h data : Bytes)
  | failed (h : Bytes)
  deriving DecidableEq

/-- The two reads, of what arrives. -/
def receive (h incoming : Bytes) : Attempt :=
  if incoming.length < headerLength then .failed (incoming ++ h.drop incoming.length)
  else if sizeField (incoming.take headerLength) > 0 then
    match slice incoming headerLength (sizeField (incoming.take headerLength)) with
    | some d => .replied (incoming.take headerLength) d
    | none => .failed (incoming.take headerLength)
  else .replied (incoming.take headerLength) []

def attempt (c : Connection) (h p : Bytes) : Attempt :=
  if c.accepts < p.length then .failed h else receive h (c.answer p)

/-! ## The loop -/

/-- The packets with the connections they were written to, and how `transmit` ends. -/
structure Transmission where
  attempts : List (Connection × Bytes)
  outcome : Outcome (Bytes × Bytes)

/-- The loop after `times` failures.  `again` is what the reconnection gives. -/
def transmitLoop (again : Except String Connection) (times : ℕ) (c : Connection) (h data : Bytes) :
    Transmission :=
  match packet h data with
  | none => ⟨[], .undefined⟩
  | some p =>
    match attempt c h p with
    | .replied h' data' => ⟨[(c, p)], .returns (h', data')⟩
    | .failed h' =>
      if times ≠ 0 then ⟨[(c, p)], .throws ("tcp_cache:" ++ c.error)⟩
      else match again with
        | .error e => ⟨[(c, p)], .throws ("reconnect:" ++ e)⟩
        | .ok c' => ⟨(c, p) :: (transmitLoop again (times + 1) c' h' data).attempts,
          (transmitLoop again (times + 1) c' h' data).outcome⟩
termination_by 2 - times

/-- `transmit`, over the connection that there is. -/
def transmit (first : Connection) (again : Except String Connection) (h data : Bytes) :
    Transmission :=
  transmitLoop again 0 first h data

/-! ## What the callers rely on -/

/-- The header and the data are read off the octets. -/
def IsReply (incoming h data : Bytes) : Prop :=
  ∃ rest, incoming = h ++ (data ++ rest) ∧ h.length = headerLength ∧ data.length = sizeField h

/-- Every attempt sends the request, and what is returned is the reply to it over the last
connection. -/
def SendsRequest (r : Request) (t : Transmission) : Prop :=
  (∀ a ∈ t.attempts, a.2 = r.octets) ∧
    match t.outcome with
    | .returns (h, data) => ∃ a, t.attempts.getLast? = some a ∧ IsReply (a.1.answer r.octets) h data
    | .throws _ => True
    | .undefined => False

/-- There is a whole reply. -/
def Complete (incoming : Bytes) : Prop :=
  headerLength ≤ incoming.length ∧
    headerLength + sizeField (incoming.take headerLength) ≤ incoming.length

/-- If the first connection takes the request but fails within the reply and there is a second one,
then what arrived of the header of the reply is the same as in the header of the request. -/
def HeaderKept (r : Request) (first : Connection) (again : Except String Connection) : Prop :=
  r.octets.length ≤ first.accepts → ¬ Complete (first.answer r.octets) → again.toOption.isSome →
    (first.answer r.octets).take headerLength <+: r.header

/-! ## One attempt -/

section Lemmas

variable {r : Request} {h incoming : Bytes}

lemma packet_eq (r : Request) : packet r.header r.data = some r.octets := by
  have hle := r.size_le
  unfold packet Request.octets
  by_cases hpos : sizeField r.header > 0
  · have hin : 0 + sizeField r.header ≤ (r.data ++ [0]).length := by
      rw [List.length_append]
      omega
    rw [if_pos hpos, slice_of_le hin, List.drop_zero, List.take_append_of_le_length hle]
    rfl
  · have hzero : sizeField r.header = 0 := by omega
    rw [if_neg hpos, hzero, List.take_zero, List.append_nil]

variable {data p : Bytes}

/-- A packet starts with its header. -/
lemma header_prefix_packet (hp : packet h data = some p) : h <+: p := by
  unfold packet at hp
  split_ifs at hp
  · obtain ⟨d, -, rfl⟩ := Option.map_eq_some_iff.mp hp
    exact List.prefix_append h d
  · rw [Option.some.inj hp]

/-- A packet of another header is not the request. -/
lemma packet_ne (hlen : h.length = headerLength) (hne : h ≠ r.header)
    (hp : packet h data = some p) : p ≠ r.octets := by
  intro heq
  obtain ⟨rest, hrest⟩ := header_prefix_packet hp
  have hsame : h ++ rest = r.header ++ r.data.take (sizeField r.header) := hrest.trans heq
  exact hne (List.append_inj hsame (hlen.trans r.length_header.symm)).1

lemma receive_of_complete (hc : Complete incoming) :
    ∃ h' d, receive h incoming = .replied h' d ∧ IsReply incoming h' d := by
  obtain ⟨hhead, hbody⟩ := hc
  have hlen : (incoming.take headerLength).length = headerLength := by
    rw [List.length_take]
    exact min_eq_left hhead
  unfold receive
  rw [if_neg (not_lt.mpr hhead)]
  by_cases hpos : sizeField (incoming.take headerLength) > 0
  · rw [if_pos hpos, slice_of_le hbody]
    refine ⟨_, _, rfl, (incoming.drop headerLength).drop
      (sizeField (incoming.take headerLength)), ?_, hlen, ?_⟩
    · rw [List.take_append_drop, List.take_append_drop]
    · rw [List.length_take, List.length_drop]
      omega
  · rw [if_neg hpos]
    refine ⟨_, _, rfl, incoming.drop headerLength, ?_, hlen, ?_⟩
    · rw [List.nil_append, List.take_append_drop]
    · rw [List.length_nil]
      omega

/-- What arrived of the header of the reply is written over the header. -/
lemma receive_of_not_complete (hlen : h.length = headerLength) (hc : ¬ Complete incoming) :
    ∃ h', receive h incoming = .failed h' ∧ h'.length = headerLength ∧
      (h' = h ↔ incoming.take headerLength <+: h) := by
  unfold receive
  by_cases hshort : incoming.length < headerLength
  · rw [if_pos hshort]
    refine ⟨_, rfl, ?_, ?_⟩
    · rw [List.length_append, List.length_drop]
      omega
    · rw [List.take_of_length_le hshort.le]
      constructor
      · intro heq
        rw [← heq]
        exact List.prefix_append _ _
      · rintro ⟨rest, rfl⟩
        rw [List.drop_left]
  · have hhead : headerLength ≤ incoming.length := not_lt.mp hshort
    have htake : (incoming.take headerLength).length = headerLength := by
      rw [List.length_take]
      exact min_eq_left hhead
    have hbody : ¬ headerLength + sizeField (incoming.take headerLength) ≤ incoming.length :=
      fun hle => hc ⟨hhead, hle⟩
    have hpos : sizeField (incoming.take headerLength) > 0 := by omega
    have hnone : slice incoming headerLength (sizeField (incoming.take headerLength)) = none :=
      if_neg hbody
    rw [if_neg hshort, if_pos hpos, hnone]
    refine ⟨_, rfl, htake, fun heq => ?_, fun hpre => ?_⟩
    · rw [heq]
    · exact hpre.eq_of_length (htake.trans hlen.symm)

/-! ## The second attempt -/

variable {again : Except String Connection} {c c' : Connection} {data : Bytes}

/-- The second attempt is the last one. -/
lemma transmitLoop_one :
    transmitLoop again 1 c h data =
      match packet h data with
      | none => ⟨[], .undefined⟩
      | some p =>
        match attempt c h p with
        | .replied h' data' => ⟨[(c, p)], .returns (h', data')⟩
        | .failed _ => ⟨[(c, p)], .throws ("tcp_cache:" ++ c.error)⟩ := by
  rw [transmitLoop]
  rfl

/-- An attempt over which the request goes out ends with its reply, or else it fails. -/
lemma attempt_spec (hlen : h.length = headerLength) (p : Bytes) :
    (∃ h' d, attempt c h p = .replied h' d ∧ IsReply (c.answer p) h' d) ∨
    ∃ h', attempt c h p = .failed h' := by
  unfold attempt
  by_cases hcut : c.accepts < p.length
  · rw [if_pos hcut]
    exact .inr ⟨h, rfl⟩
  · rw [if_neg hcut]
    by_cases hc : Complete (c.answer p)
    · exact .inl (receive_of_complete hc)
    · obtain ⟨h', hfailed, -⟩ := receive_of_not_complete hlen hc
      exact .inr ⟨h', hfailed⟩

/-- The second attempt sends the request if it starts from the header of the request. -/
lemma sendsRequest_retry_iff (hlen : h.length = headerLength) :
    SendsRequest r ⟨(c, r.octets) :: (transmitLoop again 1 c' h r.data).attempts,
      (transmitLoop again 1 c' h r.data).outcome⟩ ↔ h = r.header := by
  rw [transmitLoop_one]
  constructor
  · rintro ⟨hall, hout⟩
    by_contra hne
    rcases hp : packet h r.data with _ | p
    · rw [hp] at hout
      exact hout
    · have hmem : (c', p) ∈ (c, r.octets) :: (match attempt c' h p with
          | .replied h' data' => (⟨[(c', p)], .returns (h', data')⟩ : Transmission)
          | .failed _ => ⟨[(c', p)], .throws ("tcp_cache:" ++ c'.error)⟩).attempts := by
        rcases attempt c' h p with ⟨h', d⟩ | h'
        · exact List.mem_cons_of_mem _ (List.mem_cons_self ..)
        · exact List.mem_cons_of_mem _ (List.mem_cons_self ..)
      rw [hp] at hall
      exact packet_ne hlen hne hp (hall _ hmem)
  · rintro rfl
    rw [packet_eq]
    have hboth : ∀ a ∈ [(c, r.octets), (c', r.octets)], a.2 = r.octets := by simp
    rcases attempt_spec (c := c') hlen r.octets with ⟨h', d, hreplied, hreply⟩ | ⟨h', hfailed⟩
    · simp only [hreplied]
      exact ⟨hboth, _, rfl, hreply⟩
    · simp only [hfailed]
      exact ⟨hboth, trivial⟩

end Lemmas

/-! ## The whole call -/

/-- After a failed attempt. -/
lemma transmit_of_failed {r : Request} {first : Connection} {h : Bytes}
    (again : Except String Connection) (hfailed : attempt first r.header r.octets = .failed h) :
    transmit first again r.header r.data =
      match again with
      | .error e => ⟨[(first, r.octets)], .throws ("reconnect:" ++ e)⟩
      | .ok c' => ⟨(first, r.octets) :: (transmitLoop again 1 c' h r.data).attempts,
          (transmitLoop again 1 c' h r.data).outcome⟩ := by
  unfold transmit
  rw [transmitLoop, packet_eq]
  simp only [hfailed]
  rcases again with e | c'
  · rfl
  · rfl

/-- Every attempt sends the request and the reply to it is returned, wherever the connections fail,
exactly if the header of the request is not changed by a part of a reply before the second attempt.
-/
theorem transmit_sendsRequest_iff (r : Request) (first : Connection)
    (again : Except String Connection) :
    SendsRequest r (transmit first again r.header r.data) ↔ HeaderKept r first again := by
  have hone : ∀ a ∈ [(first, r.octets)], a.2 = r.octets := by simp
  have hretry : ∀ {h : Bytes}, h.length = headerLength →
    attempt first r.header r.octets = .failed h →
      (SendsRequest r (transmit first again r.header r.data) ↔
        (again.toOption.isSome → h = r.header)) := by
    intro h hlen hfailed
    rw [transmit_of_failed again hfailed]
    rcases again with e | c'
    · exact iff_of_true ⟨hone, trivial⟩ fun hok => absurd hok (by simp [Except.toOption])
    · rw [sendsRequest_retry_iff hlen]
      exact ⟨fun heq _ => heq, fun himp => himp rfl⟩
  by_cases hcut : first.accepts < r.octets.length
  · have hfailed : attempt first r.header r.octets = .failed r.header := if_pos hcut
    rw [hretry r.length_header hfailed]
    exact iff_of_true (fun _ => rfl) fun hle => absurd hle (not_le.mpr hcut)
  · have hattempt : attempt first r.header r.octets = receive r.header (first.answer r.octets) :=
      if_neg hcut
    by_cases hc : Complete (first.answer r.octets)
    · obtain ⟨h, d, hreplied, hreply⟩ := receive_of_complete (h := r.header) hc
      refine iff_of_true ?_ fun _ hnot => absurd hc hnot
      unfold transmit
      rw [transmitLoop, packet_eq]
      simp only [hattempt, hreplied]
      exact ⟨hone, _, rfl, hreply⟩
    · obtain ⟨h, hfailed, hlen, hkept⟩ := receive_of_not_complete r.length_header hc
      rw [hretry hlen (hattempt.trans hfailed), hkept]
      exact ⟨fun himp _ _ => himp, fun himp => himp (not_lt.mp hcut) hc⟩

/-- The first connection takes a request with an empty header and ends after the opcode of its
answer, and the second attempt sends that opcode. -/
theorem transmit_sends_another :
    ¬ ∀ (r : Request) (first : Connection) (again : Except String Connection),
      SendsRequest r (transmit first again r.header r.data) := by
  intro hall
  have hsends := hall ⟨List.replicate 40 0, [], by decide, by decide⟩
    ⟨40, fun _ => [6, 0, 0, 0], "reset"⟩
    (.ok ⟨40, fun _ => [], "reset"⟩)
  have hfailed : attempt ⟨40, fun _ => [6, 0, 0, 0], "reset"⟩ (List.replicate 40 0)
    (List.replicate 40 0) =
      .failed ([6, 0, 0, 0] ++ List.replicate 36 0) := by decide
  rw [transmit_of_failed _ hfailed] at hsends
  exact absurd ((sendsRequest_retry_iff (by decide)).mp hsends) (by decide)

end Tcp

end Cppcms
