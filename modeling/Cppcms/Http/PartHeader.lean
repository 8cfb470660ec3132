import Cppcms.Http.MultipartRuns

/-!
# The end of the header of a part

Behind the line of a boundary the parser looks for an empty line.  It counts how many octets of CR
LF CR LF it has seen last, and begins again behind an octet that does not fit, even if that octet is
a CR and could be the first one; the search for a boundary, in the next state, counts it.  So a CR
that is read behind CR or behind CR LF CR is lost, and the empty line with it: it is found exactly
if there is an even number of CRs directly before it.
-/

namespace Cppcms

namespace Http

open Multipart

namespace MultipartParser

/-! ## Where the header should end -/

/-- There is an empty line that ends behind the first `n` octets. -/
def EndsAt (s : Bytes) (n : ℕ) : Prop := ∃ u v, s = u ++ crlfcrlf ++ v ∧ n = u.length + 4

/-- The first empty line ends behind the first `n` octets. -/
def IsFirstEnd (s : Bytes) (n : ℕ) : Prop := EndsAt s n ∧ ∀ m, EndsAt s m → n ≤ m

/-- How many CRs are at the end. -/
def trailingReturns (u : Bytes) : ℕ := (u.reverse.takeWhile (· = Ch.return')).length

/-- There is an even number of CRs before the first empty line, if there is one. -/
def EvenBefore (s : Bytes) : Prop :=
  ∀ u v, s = u ++ crlfcrlf ++ v → (∀ m, EndsAt s m → u.length + 4 ≤ m) → Even (trailingReturns u)

/-! ## Where it ends -/

/-- How many octets of a buffer are read until the header is complete, be it well formed or not. -/
def endIn (p : MultipartParser) (buffer : Bytes) : Option ℕ :=
  match p.consume buffer with
  | (_, .metaReady, rest) => some (buffer.length - rest.length)
  -- the iterator stays at the last octet of the header
  | (_, .parsingError, rest) => some (buffer.length - rest.length + 1)
  | _ => none

/-- How many octets of some buffers are read until the header is complete. -/
def headerEnd (p : MultipartParser) : List Bytes → Option ℕ
  | [] => none
  | buffer :: later =>
    match p.endIn buffer with
    | some n => some n
    | none => ((p.consume buffer).1.headerEnd later).map (buffer.length + ·)

/-- The line of a boundary has just been read. -/
def BehindBoundary (p : MultipartParser) : Prop :=
  ∃ ct start q s, init.setContentType ct = some start ∧ start.advance s = some q ∧
    q.state = .expectingLf ∧
    q.advanceOctet Ch.newline = some p

/-- The header is complete behind the first empty line, and only there. -/
def EndsAtBlankLine (p : MultipartParser) (buffers : List Bytes) : Prop :=
  ∀ n, p.headerEnd buffers = some n ↔ IsFirstEnd buffers.flatten n

/-! ## The search -/

/-- What an octet does to the number of octets that fit. -/
def fit (position : ℕ) (c : UInt8) : ℕ := if c = crlfcrlf.getD position 0 then position + 1 else 0

/-- How many octets are read until all four fit. -/
def search (position : ℕ) : Bytes → Option ℕ
  | [] => none
  | c :: s => if fit position c = 4 then some 1 else (search (fit position c) s).map (· + 1)

section Search

variable {position n : ℕ} {c : UInt8} {s u v : Bytes}

lemma search_append (h : search position u = none) :
    search position (u ++ v) = (search (u.foldl fit position) v).map (· + u.length) := by
  induction u generalizing position with
  | nil => simp
  | cons c u ih =>
    unfold search at h
    split_ifs at h with hfit
    rw [List.cons_append, search, if_neg hfit, ih (Option.map_eq_none_iff.mp h), Option.map_map,
      List.foldl_cons, List.length_cons]
    rfl

lemma search_append_of_some (h : search position u = some n) :
    search position (u ++ v) = some n := by
  induction u generalizing position n with
  | nil => exact absurd h (by simp [search])
  | cons c u ih =>
    unfold search at h
    rw [List.cons_append, search]
    split_ifs at h ⊢ with hfit
    · exact h
    · obtain ⟨m, hm, rfl⟩ := Option.map_eq_some_iff.mp h
      rw [ih hm]
      rfl

lemma search_snoc (h : search position (u ++ [c]) = none) :
    search position u = none ∧ fit (u.foldl fit position) c ≠ 4 := by
  have hu : search position u = none := by
    induction u generalizing position with
    | nil => rfl
    | cons d u ih =>
      rw [List.cons_append, search] at h
      split_ifs at h with hfit
      rw [search, if_neg hfit, ih (Option.map_eq_none_iff.mp h)]
      rfl
  refine ⟨hu, fun hfit => ?_⟩
  rw [search_append hu, search, if_pos hfit] at h
  exact absurd h (by simp)

/-- A search ends with an octet that is the fourth one. -/
lemma search_eq_some (h : search position s = some n) :
    ∃ u c v, s = u ++ c :: v ∧ n = u.length + 1 ∧ search position u = none ∧
    fit (u.foldl fit position) c = 4 := by
  induction s generalizing position n with
  | nil => exact absurd h (by simp [search])
  | cons d s ih =>
    unfold search at h
    split_ifs at h with hfit
    · exact ⟨[], d, s, rfl, (Option.some.inj h).symm, rfl, hfit⟩
    · obtain ⟨m, hm, rfl⟩ := Option.map_eq_some_iff.mp h
      obtain ⟨u, c, v, rfl, rfl, hu, hc⟩ := ih hm
      refine ⟨d :: u, c, v, rfl, rfl, ?_, hc⟩
      rw [search, if_neg hfit, hu]
      rfl

/-- The position tells what was read last. -/
lemma eq_append_of_search (h : search 0 u = none) :
    u.foldl fit 0 < 4 ∧ ∃ u', u = u' ++ crlfcrlf.take (u.foldl fit 0) := by
  induction u using List.reverseRecOn with
  | nil => exact ⟨by decide, [], rfl⟩
  | append_singleton u c ih =>
    obtain ⟨hu, hfit⟩ := search_snoc h
    obtain ⟨hlt, u', hu'⟩ := ih hu
    rw [List.foldl_concat]
    generalize u.foldl fit 0 = q at hlt hu' hfit
    by_cases hc : c = crlfcrlf.getD q 0
    · have hnext : fit q c = q + 1 := if_pos hc
      rw [hnext] at hfit ⊢
      have htake : crlfcrlf.take (q + 1) = crlfcrlf.take q ++ [c] := by
        rw [hc]
        interval_cases q <;> rfl
      refine ⟨by omega, u', ?_⟩
      rw [htake, ← List.append_assoc, ← hu']
    · have hnext : fit q c = 0 := if_neg hc
      rw [hnext]
      exact ⟨by decide, u ++ [c], by simp⟩

/-- What is found is an empty line. -/
lemma endsAt_of_search (h : search 0 s = some n) : EndsAt s n := by
  obtain ⟨u, c, v, rfl, rfl, hu, hfit⟩ := search_eq_some h
  obtain ⟨hlt, u', hu'⟩ := eq_append_of_search hu
  generalize u.foldl fit 0 = q at hlt hu' hfit
  have hc : c = crlfcrlf.getD q 0 := by
    by_contra hne
    have hzero : fit q c = 0 := if_neg hne
    omega
  have hq : q = 3 := by
    have hnext : fit q c = q + 1 := if_pos hc
    omega
  subst hq hc
  refine ⟨u', v, ?_, ?_⟩
  · rw [hu', List.append_assoc, List.append_assoc]
    rfl
  · rw [hu', List.length_append]
    rfl

@[simp] lemma trailingReturns_nil : trailingReturns [] = 0 := rfl

lemma trailingReturns_snoc :
    trailingReturns (u ++ [c]) = if c = Ch.return' then trailingReturns u + 1 else 0 := by
  unfold trailingReturns
  rw [List.reverse_append, List.reverse_singleton, List.singleton_append, List.takeWhile_cons]
  split_ifs <;> simp_all

/-- The position behind CRs, of which every second one is lost. -/
lemma position_of_search (h : search 0 u = none) :
    (Even (trailingReturns u) → u.foldl fit 0 = 0 ∨ u.foldl fit 0 = 2 ∧ trailingReturns u = 0) ∧
      (¬ Even (trailingReturns u) → u.foldl fit 0 = 1 ∨ u.foldl fit 0 = 3) := by
  induction u using List.reverseRecOn with
  | nil => simp
  | append_singleton u c ih =>
    obtain ⟨hu, hfit⟩ := search_snoc h
    obtain ⟨heven, hodd⟩ := ih hu
    obtain ⟨hlt, -⟩ := eq_append_of_search hu
    rw [List.foldl_concat, trailingReturns_snoc]
    generalize u.foldl fit 0 = q at hlt hfit heven hodd
    by_cases hc : c = Ch.return'
    · rw [if_pos hc, Nat.even_add_one, hc]
      constructor
      · intro hnot
        -- the octet is lost
        rcases hodd hnot with rfl | rfl
        · exact .inl rfl
        · exact .inl rfl
      · intro hnot
        rcases heven (not_not.mp hnot) with rfl | ⟨rfl, -⟩
        · exact .inl rfl
        · exact .inr rfl
    · rw [if_neg hc]
      refine ⟨fun _ => ?_, fun hnot => absurd Even.zero hnot⟩
      unfold fit at hfit ⊢
      interval_cases q
      · exact .inl (if_neg hc)
      · by_cases hnewline : c = Ch.newline
        · exact .inr ⟨if_pos hnewline, rfl⟩
        · exact .inl (if_neg hnewline)
      · exact .inl (if_neg hc)
      · by_cases hnewline : c = Ch.newline
        · exact absurd (if_pos hnewline) hfit
        · exact .inl (if_neg hnewline)

lemma EndsAt.append (h : EndsAt u n) (v : Bytes) : EndsAt (u ++ v) n := by
  obtain ⟨w, t, rfl, rfl⟩ := h
  exact ⟨w, t ++ v, by simp only [List.append_assoc], rfl⟩

lemma EndsAt.le_length (h : EndsAt s n) : n ≤ s.length := by
  obtain ⟨u, v, rfl, rfl⟩ := h
  have hfour : crlfcrlf.length = 4 := rfl
  simp only [List.length_append, hfour]
  omega

/-- The search at the first empty line. -/
lemma search_first (hs : s = u ++ crlfcrlf ++ v) (hfirst : ∀ m, EndsAt s m → u.length + 4 ≤ m) :
    search 0 s = some (u.length + 4) ↔ Even (trailingReturns u) := by
  have hu : search 0 u = none := by
    rcases hsearch : search 0 u with _ | m
    · rfl
    · have hends := endsAt_of_search hsearch
      have hle := hends.le_length
      have hlong := hfirst m (by
        rw [hs, List.append_assoc]
        exact hends.append _)
      omega
  have hnot : u.foldl fit 0 ≠ 2 := by
    intro htwo
    obtain ⟨-, u', hu'⟩ := eq_append_of_search hu
    rw [htwo] at hu'
    have hlong := hfirst (u'.length + 4) ⟨u', Ch.return' :: Ch.newline :: v, by
      rw [hs, hu']
      simp only [List.append_assoc]
      rfl, rfl⟩
    have hlen := congrArg List.length hu'
    have htake : (crlfcrlf.take 2).length = 2 := rfl
    rw [List.length_append, htake] at hlen
    omega
  obtain ⟨heven, hodd⟩ := position_of_search hu
  rw [hs, List.append_assoc, search_append hu]
  constructor
  · intro h
    by_contra hcontra
    obtain ⟨m, hm, hmu⟩ := Option.map_eq_some_iff.mp h
    -- the four octets are read, and only the last two of them fit
    have hlost : search (u.foldl fit 0) crlfcrlf = none ∧
        crlfcrlf.foldl fit (u.foldl fit 0) = 2 := by
      rcases hodd hcontra with hq | hq
      · rw [hq]
        exact ⟨by decide, by decide⟩
      · rw [hq]
        exact ⟨by decide, by decide⟩
    rw [search_append hlost.1, hlost.2] at hm
    obtain ⟨k, hk, rfl⟩ := Option.map_eq_some_iff.mp hm
    have hfour : crlfcrlf.length = 4 := rfl
    obtain ⟨w, d, t, -, rfl, -⟩ := search_eq_some hk
    omega
  · intro h
    rcases heven h with hq | ⟨hq, -⟩
    · have hfour : search 0 (crlfcrlf ++ v) = some 4 := rfl
      rw [hq, hfour, Nat.add_comm]
      rfl
    · exact absurd hq hnot

/-- The search finds the first empty line, and only that, exactly if there is an even number of CRs
before it. -/
lemma search_iff : (∀ n, search 0 s = some n ↔ IsFirstEnd s n) ↔ EvenBefore s := by
  constructor
  · intro h u v hs hfirst
    exact (search_first hs hfirst).mp ((h _).mpr ⟨⟨u, v, hs, rfl⟩, hfirst⟩)
  · intro heven n
    have hfinds : ∀ m, IsFirstEnd s m → search 0 s = some m := by
      rintro m ⟨⟨u, v, hs, rfl⟩, hfirst⟩
      exact (search_first hs hfirst).mpr (heven u v hs hfirst)
    refine ⟨fun h => ?_, hfinds n⟩
    classical
    have hexists : ∃ m, EndsAt s m := ⟨n, endsAt_of_search h⟩
    have hfirst : IsFirstEnd s (Nat.find hexists) :=
      ⟨Nat.find_spec hexists, fun m hm => Nat.find_min' hexists hm⟩
    have hsame : n = Nat.find hexists := Option.some.inj (h.symm.trans (hfinds _ hfirst))
    rw [hsame]
    exact hfirst

end Search

/-! ## The parser -/

section Parser

variable {p : MultipartParser} {buffer : Bytes} {c : UInt8} {n : ℕ}

/-- The header is complete. -/
lemma headerStep_of_fit (h : fit p.position c = 4) :
    (∃ p', p.headerStep c = .past p' .metaReady ∧ p'.position = 0) ∨
      ∃ p', p.headerStep c = .stop p' .parsingError := by
  have hposition : (if c = crlfcrlf.getD p.position 0 then p.position + 1 else 0) =
    crlfcrlf.length := h
  unfold headerStep
  simp only [if_pos hposition]
  rcases processHeader (p.header ++ [c]) p.file with _ | file
  · exact .inr ⟨_, rfl⟩
  · exact .inl ⟨_, rfl, rfl⟩

/-- The header goes on. -/
lemma headerStep_of_not_fit (h : fit p.position c ≠ 4) :
    p.headerStep c = .next { p with header := p.header ++ [c], position := fit p.position c } := by
  have hposition : (if c = crlfcrlf.getD p.position 0 then p.position + 1 else 0) ≠
    crlfcrlf.length := h
  unfold headerStep
  simp only [if_neg hposition]
  rfl

/-- A buffer that is read in the header. -/
lemma consume_header (hstate : p.state = .expectingCrlfcrlf) (buffer : Bytes) :
    match search p.position buffer with
    | some n =>
        ∃ p' rest, (p.consume buffer = (p', .metaReady, rest) ∧ buffer.length = n + rest.length) ∨
        (p.consume buffer = (p', .parsingError, rest) ∧ buffer.length + 1 = n + rest.length)
    | none => ∃ p', p.consume buffer =
        (p', if p.fileIsReady then .contentPartial else .continueInput, []) ∧
        p'.state = .expectingCrlfcrlf ∧ p'.position = buffer.foldl fit p.position := by
  induction buffer generalizing p with
  | nil => exact ⟨p, rfl, hstate, rfl⟩
  | cons c buffer ih =>
    have hcontent : p.state ≠ .expectingSeparatorBoundary := by
      rw [hstate]
      decide
    have hstep : p.step c buffer.isEmpty = p.headerStep c := by
      unfold step
      rw [hstate]
    rw [consume, if_neg hcontent, hstep, search]
    by_cases hfit : fit p.position c = 4
    · rw [if_pos hfit]
      rcases headerStep_of_fit hfit with ⟨p', hp', -⟩ | ⟨p', hp'⟩
      · rw [hp']
        exact ⟨p', buffer, .inl ⟨rfl, Nat.add_comm _ _⟩⟩
      · rw [hp']
        exact ⟨p', c :: buffer, .inr ⟨rfl, Nat.add_comm _ _⟩⟩
    · rw [if_neg hfit, headerStep_of_not_fit hfit]
      have hrest := @ih { p with header := p.header ++ [c], position := fit p.position c } hstate
      dsimp only at hrest ⊢
      rcases hsearch : search (fit p.position c) buffer with _ | n
      · rw [hsearch] at hrest
        exact hrest
      · rw [hsearch] at hrest
        obtain ⟨p', rest, ⟨hconsume, hlen⟩ | ⟨hconsume, hlen⟩⟩ := hrest
        · refine ⟨p', rest, .inl ⟨hconsume, ?_⟩⟩
          show buffer.length + 1 = n + 1 + rest.length
          omega
        · refine ⟨p', rest, .inr ⟨hconsume, ?_⟩⟩
          show buffer.length + 1 + 1 = n + 1 + rest.length
          omega

lemma endIn_eq (hstate : p.state = .expectingCrlfcrlf) (buffer : Bytes) :
    p.endIn buffer = search p.position buffer := by
  have hconsume := consume_header hstate buffer
  unfold endIn
  rcases hsearch : search p.position buffer with _ | n
  · rw [hsearch] at hconsume
    obtain ⟨p', heq, -, -⟩ := hconsume
    rw [heq]
    rcases p.fileIsReady with _ | _ <;> rfl
  · rw [hsearch] at hconsume
    obtain ⟨p', rest, ⟨heq, hlen⟩ | ⟨heq, hlen⟩⟩ := hconsume
    · have hcount : buffer.length - rest.length = n := by omega
      rw [heq]
      exact congrArg some hcount
    · have hpos : 0 < n := by
        obtain ⟨u, d, v, -, rfl, -⟩ := search_eq_some hsearch
        exact Nat.succ_pos _
      have hcount : buffer.length - rest.length + 1 = n := by omega
      rw [heq]
      exact congrArg some hcount

/-- The parser finds what the search finds, whatever the buffers are. -/
lemma headerEnd_eq (hstate : p.state = .expectingCrlfcrlf) (buffers : List Bytes) :
    p.headerEnd buffers = search p.position buffers.flatten := by
  induction buffers generalizing p with
  | nil => rfl
  | cons buffer later ih =>
    rw [headerEnd, List.flatten_cons, endIn_eq hstate]
    rcases hsearch : search p.position buffer with _ | n
    · have hconsume := consume_header hstate buffer
      rw [hsearch] at hconsume
      obtain ⟨p', heq, hstate', hposition⟩ := hconsume
      rw [search_append hsearch, heq, ← hposition]
      dsimp only
      rw [ih hstate']
      congr 1
      funext m
      exact Nat.add_comm _ _
    · rw [search_append_of_some hsearch]

/-- Nothing fits yet where the parser is at a line of a boundary. -/
structure LineState (p : MultipartParser) : Prop where
  position : p.state ≠ .expectingFirstBoundary → p.state ≠ .expectingCrlfcrlf →
    p.state ≠ .expectingSeparatorBoundary → p.position = 0

lemma LineState.of_position (h : p.position = 0) : LineState p := ⟨fun _ _ _ => h⟩

lemma state_matchBoundary : (p.matchBoundary c).1.state = p.state := by
  unfold matchBoundary
  split_ifs <;> rfl

lemma contentStep_spec {p' : MultipartParser} : (p.contentStep c = .next p' → p'.state = p.state) ∧
    ∀ r, p.contentStep c = .past p' r → p'.position = 0 := by
  have hstate : (p.matchBoundary c).1.state = p.state := state_matchBoundary
  unfold contentStep
  generalize p.matchBoundary c = result at hstate ⊢
  rcases result with ⟨q, _ | _⟩
  · exact ⟨fun h => absurd h (by simp), fun r h => absurd h (by simp)⟩
  · dsimp only at hstate ⊢
    split_ifs
    · rcases q.file.sputc c with ⟨file, _ | _⟩
      · exact ⟨fun h => absurd h (by simp), fun r h => absurd h (by simp)⟩
      · refine ⟨fun h => ?_, fun r h => absurd h (by simp)⟩
        rw [← Step.next.inj h]
        exact hstate
    · refine ⟨fun h => absurd h (by simp), fun r h => ?_⟩
      rw [← (Step.past.inj h).1]
      rfl
    · refine ⟨fun h => ?_, fun r h => absurd h (by simp)⟩
      rw [← Step.next.inj h]
      exact hstate

variable {p' : MultipartParser}

lemma LineState.expectOctet {d : UInt8} {state : State} (hposition : p.position = 0) :
    (p.expectOctet c d state = .next p' → LineState p') ∧
    ∀ r, p.expectOctet c d state = .past p' r → LineState p' := by
  unfold MultipartParser.expectOctet
  split_ifs
  · exact ⟨fun h => absurd h (by simp), fun r h => absurd h (by simp)⟩
  · refine ⟨fun h => ?_, fun r h => absurd h (by simp)⟩
    rw [← Step.next.inj h]
    exact .of_position hposition

lemma LineState.step {p' : MultipartParser} {last : Bool} (h : LineState p) :
    (p.step c last = .next p' → LineState p') ∧ ∀ r, p.step c last = .past p' r → LineState p' := by
  have hposition := h.position
  unfold MultipartParser.step
  cases hstate : p.state
  all_goals
    rw [hstate] at hposition
    dsimp only
  case expectingFirstBoundary =>
    split_ifs
    · exact ⟨fun h => absurd h (by simp), fun r h => absurd h (by simp)⟩
    · refine ⟨fun h => ?_, fun r h => absurd h (by simp)⟩
      rw [← Step.next.inj h]
      exact .of_position rfl
    · refine ⟨fun h => ?_, fun r h => absurd h (by simp)⟩
      rw [← Step.next.inj h]
      exact ⟨fun hne => absurd rfl hne⟩
  case expectingOneCrlfOrEof =>
    have hzero := hposition (by decide) (by decide) (by decide)
    split_ifs
    · refine ⟨fun h => ?_, fun r h => absurd h (by simp)⟩
      rw [← Step.next.inj h]
      exact .of_position hzero
    · refine ⟨fun h => ?_, fun r h => absurd h (by simp)⟩
      rw [← Step.next.inj h]
      exact .of_position hzero
    · exact ⟨fun h => absurd h (by simp), fun r h => absurd h (by simp)⟩
  case expectingMinus => exact LineState.expectOctet (hposition (by decide) (by decide) (by decide))
  case expectingEofCr => exact LineState.expectOctet (hposition (by decide) (by decide) (by decide))
  case expectingEofLf =>
    split_ifs
    · exact ⟨fun h => absurd h (by simp), fun r h => absurd h (by simp)⟩
    · refine ⟨fun h => absurd h (by simp), fun r h => ?_⟩
      rw [← (Step.past.inj h).1]
      exact .of_position (hposition (by decide) (by decide) (by decide))
    · exact ⟨fun h => absurd h (by simp), fun r h => absurd h (by simp)⟩
  case expectingLf => exact LineState.expectOctet (hposition (by decide) (by decide) (by decide))
  case expectingCrlfcrlf =>
    by_cases hfit : fit p.position c = 4
    · rcases headerStep_of_fit hfit with ⟨q, hq, hzero⟩ | ⟨q, hq⟩
      · rw [hq]
        refine ⟨fun h => absurd h (by simp), fun r h => ?_⟩
        rw [← (Step.past.inj h).1]
        exact .of_position hzero
      · rw [hq]
        exact ⟨fun h => absurd h (by simp), fun r h => absurd h (by simp)⟩
    · rw [headerStep_of_not_fit hfit]
      refine ⟨fun h => ?_, fun r h => absurd h (by simp)⟩
      rw [← Step.next.inj h]
      exact ⟨fun _ hne => absurd hstate hne⟩
  case expectingSeparatorBoundary =>
    obtain ⟨hnext, hpast⟩ := @contentStep_spec p c p'
    exact ⟨fun h => ⟨fun _ _ hne => absurd ((hnext h).trans hstate) hne⟩, fun r h =>
      .of_position (hpast r h)⟩

lemma LineState.advanceOctet (h : LineState p) (hp' : p.advanceOctet c = some p') :
    LineState p' := by
  unfold MultipartParser.advanceOctet at hp'
  split at hp'
  · rename_i q hq
    exact Option.some.inj hp' ▸ h.step.1 hq
  · rename_i q r hq
    split_ifs at hp'
    exact Option.some.inj hp' ▸ h.step.2 r hq
  · exact absurd hp' (by simp)

lemma LineState.advance {s : Bytes} (h : LineState p) (hp' : p.advance s = some p') :
    LineState p' := by
  induction s generalizing p with
  | nil => exact Option.some.inj hp' ▸ h
  | cons c s ih =>
    obtain ⟨q, hq, hrest⟩ := Option.bind_eq_some_iff.mp hp'
    exact ih (h.advanceOctet hq) hrest

/-- Nothing fits yet behind the line of a boundary. -/
lemma BehindBoundary.state (h : BehindBoundary p) :
    p.state = .expectingCrlfcrlf ∧ p.position = 0 := by
  obtain ⟨ct, start, q, s, hstart, hq, hstate, hp⟩ := h
  have hline : LineState start := by
    unfold setContentType at hstart
    dsimp only at hstart
    split_ifs at hstart
    rw [← Option.some.inj hstart]
    exact ⟨fun hne => absurd rfl hne⟩
  have hposition := (hline.advance hq).position (by rw [hstate]; decide) (by rw [hstate]; decide)
    (by rw [hstate]; decide)
  have hnext : q.advanceOctet Ch.newline = some { q with state := .expectingCrlfcrlf } := by
    unfold MultipartParser.advanceOctet MultipartParser.step
    rw [hstate]
    rfl
  rw [hnext] at hp
  rw [← Option.some.inj hp]
  exact ⟨rfl, hposition⟩

end Parser

/-- The header of a part ends at the first empty line exactly if there is an even number of CRs
before it. -/
theorem endsAtBlankLine_iff {p : MultipartParser} (h : BehindBoundary p) (buffers : List Bytes) :
    p.EndsAtBlankLine buffers ↔ EvenBefore buffers.flatten := by
  obtain ⟨hstate, hposition⟩ := h.state
  unfold EndsAtBlankLine
  rw [headerEnd_eq hstate, hposition]
  exact search_iff

/-- The parser behind the line of the boundary `k`. -/
def behindK : MultipartParser :=
  { init with state := .expectingCrlfcrlf, boundary := bytes "\r\n--k" }

lemma behindBoundary_behindK : BehindBoundary behindK :=
  ⟨⟨[], [], [], (∅ : SortedMap Bytes Bytes).insert (bytes "boundary") (bytes "k")⟩, _, _,
    bytes "--k\r", rfl, rfl, rfl, rfl⟩

/-- A header that is one empty line. -/
theorem endsAtBlankLine_atOnce : behindK.EndsAtBlankLine [bytes "\r\n", bytes "\r\n"] := by
  refine (endsAtBlankLine_iff behindBoundary_behindK _).mpr fun u v hs _ => ?_
  have hlen := congrArg List.length hs
  have hfour : crlfcrlf.length = 4 := rfl
  have hall : ([bytes "\r\n", bytes "\r\n"] : List Bytes).flatten.length = 4 := rfl
  rw [hall, List.length_append, List.length_append, hfour] at hlen
  obtain rfl : u = [] := List.length_eq_zero_iff.mp (by omega)
  exact Even.zero

/-- A CR before the empty line. -/
theorem returnBefore_missed :
    ¬ ∀ (p : MultipartParser) (buffers : List Bytes), BehindBoundary p →
    p.EndsAtBlankLine buffers := by
  intro hall
  have hends := hall behindK [bytes "\r\r\n\r\n"] behindBoundary_behindK 5
  have hfirst : IsFirstEnd (bytes "\r\r\n\r\n") 5 := by
    refine ⟨⟨bytes "\r", [], rfl, rfl⟩, ?_⟩
    rintro m ⟨u, v, hs, rfl⟩
    rcases u with _ | ⟨c, u⟩
    · have hsecond : (bytes "\r\r\n\r\n")[1]? = some Ch.newline := congrArg (·[1]?) hs
      exact absurd hsecond (by decide)
    · show 5 ≤ u.length + 1 + 4
      omega
  have hmissed : behindK.headerEnd [bytes "\r\r\n\r\n"] = none := rfl
  exact absurd (hmissed.symm.trans (hends.mpr hfirst)) (by simp)

end MultipartParser

end Http

end Cppcms
