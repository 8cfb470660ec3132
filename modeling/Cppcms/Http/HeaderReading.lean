import Cppcms.Http.HeaderParser

/-!
# Headers in pieces

However the octets of a request come in, the parser finds the same headers in them.  The reading of
a whole text, character by character, says which ones: every read goes on where the one before has
stopped.
-/

namespace Cppcms

namespace Http

open HeaderReader (Status Reading Checks)

namespace HeaderParser

/-! ## Rounds -/

/-- The round with the first character of a line. -/
def firstTurn (c : UInt8) (p : HeaderParser) : HeaderParser :=
  ({ p with header := [] }.observe .lastLfExptected c).append c

lemma turn_idle {p : HeaderParser} (hp : p.state = .idle) (c : UInt8) :
    p.turn c = .goes (p.firstTurn c) := by
  unfold turn
  rw [hp]
  rfl

variable {c : UInt8} {p q : HeaderParser} {x : StepResult} {t : Bytes} {lines : List Bytes}
  {l : Bytes}

/-- A character is given back only behind a line. -/
lemma turn_ungets (h : p.turn c = .ungets q x) :
    p.state = .spaceOrOtherExptected ∧ ¬ (c = Ch.space ∨ c = Ch.tab) ∧
    q = { p.withoutCrlf with state := .idle } ∧
      x = .gotHeader p.withoutCrlf.header := by
  unfold turn at h
  split at h
  case h_4 hp =>
    split_ifs at h with hc
    cases h
    exact ⟨hp, hc, rfl, rfl⟩
  all_goals
    first
    | cases h
    | split_ifs at h

/-- The other results end the reading. -/
lemma turn_returns (h : p.turn c = .returns q x) :
    (x = .endOfHeaders ∧ p.state = .lastLfExptected ∧ c = Ch.newline) ∨ x = .errorObserverd := by
  unfold turn at h
  split at h
  case h_2 hp =>
    split_ifs at h with hc
    · cases h
      exact .inr rfl
    · cases h
      exact .inl ⟨rfl, hp, not_not.1 hc⟩
  all_goals
    first
    | cases h
    | split_ifs at h <;> cases h <;> exact .inr rfl

/-! ## Reading a whole text -/

/-- What a result that is not a header makes of the reading. -/
def statusOf (x : StepResult) : Status := if x = .endOfHeaders then .completed else .refused

/-- The reading of a text from some state of the parser on, and the state behind it if more is
wanted. -/
def scan : HeaderParser → Bytes → HeaderParser × Reading
  | p, [] => (p, ⟨[], .waiting, []⟩)
  | p, c :: s =>
    match p.turn c with
    | .goes p => scan p s
    | .returns p x => (p, ⟨[x], statusOf x, s⟩)
    | .ungets p x =>
      let (p, reading) := scan (p.firstTurn c) s
      (p, { reading with results := x :: reading.results })

lemma scan_goes (h : p.turn c = .goes q) (s : Bytes) : scan p (c :: s) = scan q s := by
  rw [scan, h]

lemma scan_returns (h : p.turn c = .returns q x) (s : Bytes) :
    scan p (c :: s) = (q, ⟨[x], statusOf x, s⟩) := by
  rw [scan, h]

lemma scan_ungets (h : p.turn c = .ungets q x) (s : Bytes) :
    scan p (c :: s) = ((scan q (c :: s)).1,
      { (scan q (c :: s)).2 with results := x :: (scan q (c :: s)).2.results }) := by
  rcases turn_ungets h with ⟨-, -, hq, -⟩
  have hidle : q.state = .idle := by rw [hq]
  rw [scan, h, scan_goes (turn_idle hidle c)]

lemma statusOf_ne (x : StepResult) : statusOf x ≠ .waiting := by
  unfold statusOf
  split_ifs
  · exact Status.noConfusion
  · exact Status.noConfusion

/-- A text is read in two parts: the second part is read only if the first one leaves more to be
wanted. -/
lemma scan_append (p : HeaderParser) (s t : Bytes) :
    ((scan p s).2.status = .waiting →
      scan p (s ++ t) = ((scan (scan p s).1 t).1,
        { (scan (scan p s).1 t).2 with results :=
          (scan p s).2.results ++ (scan (scan p s).1 t).2.results })) ∧
    ((scan p s).2.status ≠ .waiting →
      (scan p (s ++ t)).2 =
        ⟨(scan p s).2.results, (scan p s).2.status, (scan p s).2.unread ++ t⟩) := by
  induction s generalizing p with
  | nil => exact ⟨fun _ => rfl, fun h => absurd rfl h⟩
  | cons c s ih =>
    rw [List.cons_append]
    rcases hturn : p.turn c with q | ⟨q, x⟩ | ⟨q, x⟩
    · rw [scan_goes hturn, scan_goes hturn]
      exact ih q
    · rw [scan_returns hturn, scan_returns hturn]
      exact ⟨fun h => absurd h (statusOf_ne x), fun _ => rfl⟩
    · have hidle : q.state = .idle := by rw [(turn_ungets hturn).2.2.1]
      rw [scan_ungets hturn, scan_ungets hturn, scan_goes (turn_idle hidle c),
        scan_goes (turn_idle hidle c)]
      have ih := ih (q.firstTurn c)
      constructor
      · intro h
        rw [ih.1 h]
        rfl
      · intro h
        rw [ih.2 h]

/-! ## The blank line -/

/-- A line starts behind the text. -/
def AtLineStart (t : Bytes) : Prop := t = [] ∨ bytes "\r\n" <:+ t

/-- What the state of the parser says about the end of the text that was read. -/
def Behind (p : HeaderParser) (t : Bytes) : Prop :=
  match p.state with
  | .idle => AtLineStart t
  | .lastLfExptected => ∃ u, t = u ++ [Ch.return'] ∧ AtLineStart u
  | .lfExptected => ∃ u, t = u ++ [Ch.return']
  | .spaceOrOtherExptected => bytes "\r\n" <:+ t
  | _ => True

lemma behind_firstTurn (ht : AtLineStart t) (c : UInt8) (p : HeaderParser) :
    Behind (p.firstTurn c) (t ++ [c]) := by
  unfold firstTurn observe
  split_ifs with hreturn
  · exact ⟨t, by rw [hreturn], ht⟩
  all_goals trivial

/-- A round keeps track of the text. -/
lemma behind_goes (hp : Behind p t) (h : p.turn c = .goes q) :
    Behind q (t ++ [c]) := by
  unfold turn at h
  unfold Behind at hp
  split at h
  case h_1 hstate =>
    rw [hstate] at hp
    cases h
    exact behind_firstTurn hp c p
  case h_2 => split_ifs at h
  case h_3 hstate =>
    rw [hstate] at hp
    split_ifs at h with hc
    cases h
    rcases hp with ⟨u, rfl⟩
    rw [not_not.1 hc, List.append_assoc]
    exact List.suffix_append u _
  case h_4 =>
    split_ifs at h
    cases h
    trivial
  case h_5 =>
    cases h
    unfold observe
    split_ifs with hreturn
    · exact ⟨t, by rw [hreturn]⟩
    all_goals trivial
  case h_6 hstate =>
    cases h
    unfold insideQuote Behind append
    split_ifs
    · trivial
    · trivial
    · rw [hstate]
      trivial
  case h_7 =>
    split_ifs at h
    cases h
    trivial
  case h_8 hstate =>
    cases h
    unfold insideBracket Behind append
    rw [hstate]
    split_ifs
    · trivial
    · trivial
    · trivial
    · dsimp only
      rw [hstate]
      trivial
  case h_9 =>
    split_ifs at h
    cases h
    trivial

/-- The headers end with an empty line, and what is behind it is not read. -/
lemma scan_completed {p : HeaderParser} {t s : Bytes} (hp : Behind p t)
    (h : (scan p s).2.status = .completed) :
    ∃ u, t ++ s = u ++ bytes "\r\n" ++ (scan p s).2.unread ∧ AtLineStart u := by
  induction s generalizing p t with
  | nil => cases h
  | cons c s ih =>
    have hsplit : t ++ c :: s = t ++ [c] ++ s := by rw [List.append_assoc, List.singleton_append]
    rcases hturn : p.turn c with q | ⟨q, x⟩ | ⟨q, x⟩
    · rw [scan_goes hturn] at h ⊢
      rw [hsplit]
      exact ih (behind_goes hp hturn) h
    · rw [scan_returns hturn] at h ⊢
      rcases turn_returns hturn with ⟨rfl, hstate, rfl⟩ | rfl
      · unfold Behind at hp
        rw [hstate] at hp
        rcases hp with ⟨u, rfl, hu⟩
        refine ⟨u, ?_, hu⟩
        rw [hsplit, List.append_assoc u]
        rfl
      · cases h
    · rcases turn_ungets hturn with ⟨hstate, -, hq, -⟩
      have hidle : q.state = .idle := by rw [hq]
      have hstart : AtLineStart t := by
        unfold Behind at hp
        rw [hstate] at hp
        exact .inr hp
      rw [scan_ungets hturn, scan_goes (turn_idle hidle c)] at h ⊢
      rw [hsplit]
      exact ih (behind_firstTurn hstart c q) h

/-! ## Lines -/

/-- A header line without folding, quoted strings and comments. -/
structure IsHeaderLine (l : Bytes) : Prop where
  ne_nil : l ≠ []
  plain : ∀ c ∈ l, c ≠ Ch.return' ∧ c ≠ Ch.newline ∧ c ≠ Ch.quote ∧ c ≠ 0x28 ∧ c ≠ 0x29
  head : ∀ c ∈ l.head?, ¬ (c = Ch.space ∨ c = Ch.tab)

/-- The text of header lines and of the empty line behind them. -/
def headerText (lines : List Bytes) : Bytes :=
  (lines.flatMap fun l => l ++ bytes "\r\n") ++ bytes "\r\n"

lemma headerText_cons (l : Bytes) (lines : List Bytes) :
    headerText (l :: lines) = l ++ Ch.return' :: Ch.newline :: headerText lines := by
  unfold headerText
  rw [List.flatMap_cons, List.append_assoc, List.append_assoc]
  rfl

/-- No line starts with white space. -/
lemma exists_cons_headerText (hlines : ∀ l ∈ lines, IsHeaderLine l) (body : Bytes) :
    ∃ c s, headerText lines ++ body = c :: s ∧ ¬ (c = Ch.space ∨ c = Ch.tab) := by
  rcases lines with _ | ⟨l, lines⟩
  · exact ⟨Ch.return', Ch.newline :: body, rfl, by decide⟩
  · have hl := hlines l List.mem_cons_self
    rcases List.exists_cons_of_ne_nil hl.ne_nil with ⟨c, t, rfl⟩
    refine ⟨c, t ++ Ch.return' :: Ch.newline :: headerText lines ++ body, ?_, hl.head c rfl⟩
    rw [headerText_cons]
    rfl

lemma observe_plain (hc : c ≠ Ch.return' ∧ c ≠ Ch.newline ∧ c ≠ Ch.quote ∧ c ≠ 0x28 ∧ c ≠ 0x29)
    (onReturn : ParserState) (p : HeaderParser) :
    p.observe onReturn c = { p with state := .inputObserved } := by
  unfold observe
  rw [if_neg hc.1, if_neg hc.2.2.1, if_neg hc.2.2.2.1]

/-- Plain characters are put behind the header. -/
lemma scan_plain
    (hl : ∀ c ∈ l, c ≠ Ch.return' ∧ c ≠ Ch.newline ∧ c ≠ Ch.quote ∧ c ≠ 0x28 ∧ c ≠ 0x29)
    (n : UInt32) (header s : Bytes) :
    scan ⟨.inputObserved, n, header⟩ (l ++ s) = scan ⟨.inputObserved, n, header ++ l⟩ s := by
  induction l generalizing header with
  | nil => rw [List.nil_append, List.append_nil]
  | cons c l ih =>
    have hturn : (⟨.inputObserved, n, header⟩ : HeaderParser).turn c =
        .goes ⟨.inputObserved, n, header ++ [c]⟩ := by
      show Turn.goes ((observe .lfExptected c ⟨.inputObserved, n, header⟩).append c) = _
      rw [observe_plain (hl c List.mem_cons_self)]
      rfl
    rw [List.cons_append, scan_goes hturn, ih fun d hd =>
      hl d (List.mem_cons_of_mem _ hd), List.append_assoc, List.singleton_append]

/-- A line is a header as soon as the next one is seen to be another one. -/
lemma scan_line (hl : IsHeaderLine l) {p : HeaderParser} (hp : p.state = .idle) {s : Bytes}
    (hc : ¬ (c = Ch.space ∨ c = Ch.tab)) :
    ∃ q : HeaderParser, q.state = .idle ∧ (scan p (l ++ Ch.return' :: Ch.newline :: c :: s)).2 =
      { (scan q (c :: s)).2 with results := .gotHeader l :: (scan q (c :: s)).2.results } := by
  rcases List.exists_cons_of_ne_nil hl.ne_nil with ⟨a, t, rfl⟩
  have hfirst : p.firstTurn a = ⟨.inputObserved, p.bracketCounter, [a]⟩ := by
    unfold firstTurn
    rw [observe_plain (hl.plain a List.mem_cons_self)]
    rfl
  have hheader : (a :: t ++ [Ch.return', Ch.newline]).take
      ((a :: t ++ [Ch.return', Ch.newline]).length - 2) = a :: t := by
    apply List.take_left'
    rw [List.length_append, List.length_cons]
    rfl
  have hreturn : (⟨.inputObserved, p.bracketCounter, a :: t⟩ : HeaderParser).turn Ch.return' =
      .goes ⟨.lfExptected, p.bracketCounter, a :: t ++ [Ch.return']⟩ := rfl
  have hnewline :
    (⟨.lfExptected, p.bracketCounter, a :: t ++ [Ch.return']⟩ : HeaderParser).turn Ch.newline =
      .goes ⟨.spaceOrOtherExptected, p.bracketCounter, a :: t ++ [Ch.return', Ch.newline]⟩ := by
    show Turn.goes
      ⟨.spaceOrOtherExptected, p.bracketCounter, a :: t ++ [Ch.return'] ++ [Ch.newline]⟩ = _
    rw [List.append_assoc]
    rfl
  have hunget : (⟨.spaceOrOtherExptected, p.bracketCounter, a :: t ++ [Ch.return', Ch.newline]⟩ :
    HeaderParser).turn c =
      .ungets ⟨.idle, p.bracketCounter, a :: t⟩ (.gotHeader (a :: t)) := by
    show (if c = Ch.space ∨ c = Ch.tab then _ else Turn.ungets
      ⟨.idle, p.bracketCounter, (a :: t ++ [Ch.return', Ch.newline]).take _⟩ (.gotHeader _)) = _
    rw [if_neg hc, hheader]
    exact congrArg _ (congrArg _ hheader)
  refine ⟨⟨.idle, p.bracketCounter, a :: t⟩, rfl, ?_⟩
  rw [List.cons_append, scan_goes (turn_idle hp a), hfirst,
    scan_plain (fun d hd => hl.plain d (List.mem_cons_of_mem _ hd)), List.singleton_append,
    scan_goes hreturn, scan_goes hnewline, scan_ungets hunget]

/-- Header lines are read as they are. -/
lemma scan_headerText (hlines : ∀ l ∈ lines, IsHeaderLine l) {p : HeaderParser}
    (hp : p.state = .idle) (body : Bytes) :
    (scan p (headerText lines ++ body)).2 =
      ⟨lines.map .gotHeader ++ [.endOfHeaders], .completed, body⟩ := by
  induction lines generalizing p with
  | nil =>
    have hlast : (p.firstTurn Ch.return').turn Ch.newline =
        .returns ⟨.lastLfExptected, p.bracketCounter, []⟩ .endOfHeaders := rfl
    show (scan p (Ch.return' :: Ch.newline :: body)).2 = _
    rw [scan_goes (turn_idle hp _), scan_returns hlast]
    rfl
  | cons l lines ih =>
    have hrest : ∀ l ∈ lines, IsHeaderLine l := fun l hl => hlines l (List.mem_cons_of_mem _ hl)
    rcases exists_cons_headerText hrest body with ⟨c, s, heq, hc⟩
    rcases scan_line (hlines l List.mem_cons_self) hp (s := s) hc with ⟨q, hq, hscan⟩
    have ih := ih hrest hq
    rw [heq] at ih
    rw [headerText_cons, List.append_assoc, List.cons_append, List.cons_append, heq, hscan, ih]
    rfl

end HeaderParser

namespace HeaderReader

open HeaderParser
  (scan statusOf turn_idle turn_ungets turn_returns scan_goes scan_returns scan_ungets scan_append)

/-! ## `step` -/

/-- What is left in the buffer. -/
def rest (r : HeaderReader) : Bytes := r.inputBody.drop r.inputBodyPtr

/-- `step` on a text: the state behind it, the result, and what is left. -/
def scanStep : HeaderParser → Bytes → HeaderParser × StepResult × Bytes
  | p, [] => (p, .moreData, [])
  | p, c :: s =>
    match p.turn c with
    | .goes p => scanStep p s
    | .returns p x => (p, x, s)
    | .ungets p x => (p, x, c :: s)

/-- The reader after a result: what no round changes is as it was. -/
structure After (r r' : HeaderReader) (p : HeaderParser) (s : Bytes) : Prop where
  parser : r'.parser = p
  ungot : r'.ungot = []
  rest : r'.rest = s
  totalRead : r'.totalRead = r.totalRead
  first : r'.firstHeaderObserverd = r.firstHeaderObserverd

variable {r : HeaderReader} {fuel : ℕ} {p q : HeaderParser} {s t : Bytes}

lemma getc_of_rest (hungot : r.ungot = []) :
    (r.rest = [] ∧ r.getc = (none, { r with inputBody := [], inputBodyPtr := 0 })) ∨
      ∃ c s, r.rest = c :: s ∧ r.getc = (some c, { r with inputBodyPtr := r.inputBodyPtr + 1 }) ∧
        r.inputBody.drop (r.inputBodyPtr + 1) = s := by
  unfold getc rest
  rw [hungot]
  rcases hget : r.inputBody[r.inputBodyPtr]? with _ | c
  · exact .inl ⟨List.drop_eq_nil_iff.2 (List.getElem?_eq_none_iff.1 hget), rfl⟩
  · rcases List.getElem?_eq_some_iff.1 hget with ⟨hlt, hc⟩
    refine .inr ⟨c, _, ?_, rfl, rfl⟩
    rw [List.drop_eq_getElem_cons hlt, hc]

/-- The loop of `step` does what it does on the text that is left in the buffer. -/
lemma stepLoop_spec (hungot : r.ungot = []) (hfuel : r.rest.length < fuel) :
    (stepLoop fuel r).2 = (scanStep r.parser r.rest).2.1 ∧
      After r (stepLoop fuel r).1 (scanStep r.parser r.rest).1 (scanStep r.parser r.rest).2.2 := by
  induction fuel generalizing r with
  | zero => exact absurd hfuel (Nat.not_lt_zero _)
  | succ fuel ih =>
    rw [stepLoop]
    rcases getc_of_rest hungot with ⟨hrest, hget⟩ | ⟨c, s, hrest, hget, hdrop⟩
    · rw [hget, hrest]
      exact ⟨rfl, rfl, hungot, rfl, rfl, rfl⟩
    · rw [hget, hrest, scanStep]
      dsimp only
      rcases hturn : r.parser.turn c with q | ⟨q, x⟩ | ⟨q, x⟩
      · dsimp only
        have hs : HeaderReader.rest { r with parser := q, inputBodyPtr := r.inputBodyPtr + 1 } =
          s := hdrop
        have hlength :
            (HeaderReader.rest { r with parser := q, inputBodyPtr := r.inputBodyPtr + 1 }).length <
            fuel := by
          rw [hrest, List.length_cons] at hfuel
          rw [hs]
          omega
        have hnext :=
          ih (r := { r with parser := q, inputBodyPtr := r.inputBodyPtr + 1 }) hungot hlength
        rw [hs] at hnext
        exact ⟨hnext.1, hnext.2.parser, hnext.2.ungot, hnext.2.rest,
          hnext.2.totalRead, hnext.2.first⟩
      · exact ⟨rfl, rfl, hungot, hdrop, rfl, rfl⟩
      · -- the character came out of the buffer, so that it goes back to it
        dsimp only
        rw [ungetc, if_pos (Nat.succ_pos _)]
        exact ⟨rfl, rfl, hungot, hrest, rfl, rfl⟩

lemma step_spec (hungot : r.ungot = []) :
    r.step.2 = (scanStep r.parser r.rest).2.1 ∧
      After r r.step.1 (scanStep r.parser r.rest).1 (scanStep r.parser r.rest).2.2 := by
  apply stepLoop_spec hungot
  unfold rest
  rw [List.length_drop]
  omega

/-- A header takes a character, or it had been complete but for the look at the next line. -/
lemma scanStep_gotHeader {header : Bytes} (h : scanStep p s = (q, .gotHeader header, t)) :
    q.state = .idle ∧
    (t.length < s.length ∨ (t.length = s.length ∧ p.state = .spaceOrOtherExptected)) := by
  induction s generalizing p with
  | nil => cases h
  | cons c s ih =>
    rw [scanStep] at h
    rcases hturn : p.turn c with p' | ⟨p', x⟩ | ⟨p', x⟩
    · rw [hturn] at h
      rcases ih h with ⟨hidle, hlt | ⟨heq, -⟩⟩
      · exact ⟨hidle, .inl (Nat.lt_succ_of_lt hlt)⟩
      · exact ⟨hidle, .inl (Nat.lt_succ_of_le heq.le)⟩
    · rw [hturn] at h
      cases h
      rcases turn_returns hturn with ⟨hx, -⟩ | hx
      · cases hx
      · cases hx
    · rw [hturn] at h
      cases h
      rcases turn_ungets hturn with ⟨hp, -, hq, -⟩
      exact ⟨by rw [hq], .inr ⟨rfl, hp⟩⟩

lemma scanStep_moreData (h : scanStep p s = (q, .moreData, t)) : t = [] := by
  induction s generalizing p with
  | nil =>
    cases h
    rfl
  | cons c s ih =>
    rw [scanStep] at h
    rcases hturn : p.turn c with p' | ⟨p', x⟩ | ⟨p', x⟩
    · rw [hturn] at h
      exact ih h
    · rw [hturn] at h
      cases h
      rcases turn_returns hturn with ⟨hx, -⟩ | hx
      · cases hx
      · cases hx
    · rw [hturn] at h
      cases h
      cases (turn_ungets hturn).2.2.2

/-- The reading of a text, by the calls of `step`. -/
lemma scan_eq_scanStep (p : HeaderParser) (s : Bytes) :
    scan p s =
      match scanStep p s with
      | (q, .moreData, _) => (q, ⟨[], .waiting, []⟩)
      | (q, .gotHeader header, t) =>
        ((scan q t).1, { (scan q t).2 with results := .gotHeader header :: (scan q t).2.results })
      | (q, .endOfHeaders, t) => (q, ⟨[.endOfHeaders], .completed, t⟩)
      | (q, .errorObserverd, t) => (q, ⟨[.errorObserverd], .refused, t⟩) := by
  induction s generalizing p with
  | nil => rfl
  | cons c s ih =>
    rw [scanStep]
    rcases hturn : p.turn c with q | ⟨q, x⟩ | ⟨q, x⟩
    · rw [scan_goes hturn]
      exact ih q
    · rw [scan_returns hturn]
      rcases turn_returns hturn with ⟨rfl, -⟩ | rfl
      · rfl
      · rfl
    · rw [scan_ungets hturn]
      rcases turn_ungets hturn with ⟨-, -, -, rfl⟩
      rfl

/-! ## The driver without checks -/

/-- How many calls of `step` there can still be. -/
def callsLeft (r : HeaderReader) : ℕ :=
  2 * r.rest.length + if r.parser.state = .spaceOrOtherExptected then 1 else 0

/-- The loop of the driver reads the text that is left in the buffer. -/
lemma drain_spec (hungot : r.ungot = []) (hfuel : r.callsLeft < fuel) :
    (drain .none fuel r).2 = ((scan r.parser r.rest).2.results, (scan r.parser r.rest).2.status) ∧
      (drain .none fuel r).1.parser = (scan r.parser r.rest).1 ∧ (drain .none fuel r).1.ungot = [] ∧
      (drain .none fuel r).1.rest = (scan r.parser r.rest).2.unread := by
  induction fuel generalizing r with
  | zero => exact absurd hfuel (Nat.not_lt_zero _)
  | succ fuel ih =>
    have hstep := step_spec hungot
    rw [drain, scan_eq_scanStep]
    rcases heq : scanStep r.parser r.rest with ⟨q, x, t⟩
    rw [heq] at hstep
    rcases hr : r.step with ⟨r', x'⟩
    rw [hr] at hstep
    rcases hstep with ⟨rfl, hafter⟩
    cases x' with
    | moreData =>
        exact ⟨rfl, hafter.parser, hafter.ungot, by rw [hafter.rest, scanStep_moreData heq]⟩
    | gotHeader header =>
      have hleft := scanStep_gotHeader heq
      have hfuel' : callsLeft { r' with firstHeaderObserverd := true } < fuel := by
        have hstate : ({ r' with firstHeaderObserverd := true } : HeaderReader).parser.state ≠
            .spaceOrOtherExptected := by
          show r'.parser.state ≠ _
          rw [hafter.parser, hleft.1]
          exact ParserState.noConfusion
        have hrest : ({ r' with firstHeaderObserverd := true } : HeaderReader).rest = t :=
          hafter.rest
        unfold callsLeft at hfuel ⊢
        rw [if_neg hstate, hrest]
        rcases hleft.2 with hlt | ⟨hlength, hp⟩
        · split_ifs at hfuel <;> omega
        · rw [if_pos hp] at hfuel
          omega
      have hnext := ih (r := { r' with firstHeaderObserverd := true }) hafter.ungot hfuel'
      have hrest : ({ r' with firstHeaderObserverd := true } : HeaderReader).rest = t := hafter.rest
      have hparser : ({ r' with firstHeaderObserverd := true } : HeaderReader).parser = q :=
        hafter.parser
      have haccepts : Checks.none.accepts (!r'.firstHeaderObserverd) header = true := rfl
      dsimp only
      rw [if_pos haccepts]
      rcases hdrain :
        drain .none fuel { r' with firstHeaderObserverd := true } with ⟨r'', results, status⟩
      rw [hdrain, hrest, hparser] at hnext
      rcases hnext with ⟨hresults, hnext⟩
      cases hresults
      exact ⟨rfl, hnext⟩
    | endOfHeaders => exact ⟨rfl, hafter.parser, hafter.ungot, hafter.rest⟩
    | errorObserverd => exact ⟨rfl, hafter.parser, hafter.ungot, hafter.rest⟩

lemma drainAll_spec (hungot : r.ungot = []) :
    (r.drainAll .none).2 = ((scan r.parser r.rest).2.results, (scan r.parser r.rest).2.status) ∧
      (r.drainAll .none).1.parser = (scan r.parser r.rest).1 ∧ (r.drainAll .none).1.ungot = [] ∧
      (r.drainAll .none).1.rest = (scan r.parser r.rest).2.unread := by
  apply drain_spec hungot
  have hlength : r.rest.length ≤ r.inputBody.length := by
    unfold rest
    rw [List.length_drop]
    omega
  unfold callsLeft
  split_ifs <;> omega

/-- The loop of the driver, and what goes on from there if it waits for more. -/
def continued (k : Checks) (r : HeaderReader) (t : Bytes) (next : HeaderReader → Reading) :
    Reading :=
  match r.drainAll k with
  | (r', results, .waiting) => { next r' with results := results ++ (next r').results }
  | (r', results, status) => ⟨results, status, r'.inputBody.drop r'.inputBodyPtr ++ t⟩

lemma drive_cons (k : Checks) (chunk : Bytes) (reads : List Bytes) (r : HeaderReader) :
    drive k (chunk :: reads) r = continued k (r.fill chunk) reads.flatten (drive k reads) := rfl

/-- Reads go on with the text where the ones before have stopped. -/
lemma scan_of_drainAll (hungot : r.ungot = []) (t : Bytes) (next : HeaderReader → Reading)
    (hnext : ∀ r', r'.ungot = [] → next r' = (scan r'.parser t).2) :
    continued .none r t next = (scan r.parser (r.rest ++ t)).2 := by
  unfold continued
  have hspec := drainAll_spec hungot
  have happend := scan_append r.parser r.rest t
  rcases hdrain : r.drainAll .none with ⟨r', results, status⟩
  rw [hdrain] at hspec
  rcases hspec with ⟨hpair, hstate, hungot', hrest⟩
  have hstatus : status = (scan r.parser r.rest).2.status := congrArg Prod.snd hpair
  have hresults : results = (scan r.parser r.rest).2.results := congrArg Prod.fst hpair
  have hdrop : r'.inputBody.drop r'.inputBodyPtr = (scan r.parser r.rest).2.unread := hrest
  have hparser : r'.parser = (scan r.parser r.rest).1 := hstate
  rw [← hstatus] at happend
  cases status with
  | waiting =>
    dsimp only
    rw [happend.1 rfl, hnext r' hungot', hparser, hresults]
  | completed =>
    dsimp only
    rw [happend.2 Status.noConfusion, hresults, hdrop]
  | refused =>
    dsimp only
    rw [happend.2 Status.noConfusion, hresults, hdrop]

lemma drive_spec (reads : List Bytes) (hungot : r.ungot = []) :
    drive .none reads r = (scan r.parser reads.flatten).2 := by
  induction reads generalizing r with
  | nil => rfl
  | cons chunk reads ih =>
    rw [drive_cons, List.flatten_cons]
    exact scan_of_drainAll (r := r.fill chunk) hungot reads.flatten (drive .none reads)
      fun r' hr' => ih hr'

/-- The reading of the headers depends only on the octets. -/
lemma read_spec (reads : List Bytes) (hungot : r.ungot = []) :
    r.read .none reads = (scan r.parser (r.rest ++ reads.flatten)).2 := by
  unfold read
  split_ifs with hempty
  · have hrest : r.rest = [] := by
      unfold rest
      unfold inputBufferEmpty at hempty
      rcases Bool.or_eq_true_iff.1 hempty with h | h
      · rw [of_decide_eq_true h, List.drop_nil]
      · rw [of_decide_eq_true h, List.drop_length]
    rw [drive_spec reads hungot, hrest, List.nil_append]
  · exact scan_of_drainAll (r :=
      { r with totalRead := r.totalRead + (r.inputBody.length - r.inputBodyPtr) }) hungot
      reads.flatten (drive .none reads) fun r' hr' => drive_spec reads hr'

/-! ## The headers that are accepted -/

/-- The results up to the first header that is refused, and whether there is none.  The flag tells
if the next header is the first one. -/
def kept (k : Checks) : Bool → List StepResult → List StepResult × Bool
  | first, .gotHeader header :: results =>
    if k.accepts first header then (.gotHeader header :: (kept k false results).1,
      (kept k false results).2)
    else ([.gotHeader header], false)
  | _, results => (results, true)

/-- What the checks of the headers make of a reading. -/
def IsKept (k : Checks) (first : Bool) (x y : Reading) : Prop :=
  ((kept k first y.results).2 = true → x = y) ∧
    ((kept k first y.results).2 = false → x.results = (kept k first y.results).1 ∧
      x.status = .refused)

section Headers

variable {k : Checks} {r : HeaderReader}

/-- The loop with the checks, against the loop without. -/
lemma drain_kept (hk : k.limit = none) (hungot : r.ungot = []) (fuel : ℕ) :
    ((kept k (!r.firstHeaderObserverd) (drain .none fuel r).2.1).2 = true →
      drain k fuel r = drain .none fuel r) ∧
      ((kept k (!r.firstHeaderObserverd) (drain .none fuel r).2.1).2 = false →
        (drain k fuel r).2 =
          ((kept k (!r.firstHeaderObserverd) (drain .none fuel r).2.1).1, .refused)) := by
  induction fuel generalizing r with
  | zero => exact ⟨fun _ => rfl, fun h => absurd h (by simp [drain, kept])⟩
  | succ fuel ih =>
    have hafter := (step_spec hungot).2
    rw [drain, drain]
    rcases hr : r.step with ⟨r', x⟩
    rw [hr] at hafter
    have hfirst : r'.firstHeaderObserverd = r.firstHeaderObserverd := hafter.first
    cases x with
    | moreData =>
      dsimp only
      rw [hk]
      exact ⟨fun _ => rfl, fun h => absurd h (by simp [kept])⟩
    | gotHeader header =>
      have hnone : Checks.none.accepts (!r'.firstHeaderObserverd) header = true := rfl
      have hnext := @ih { r' with firstHeaderObserverd := true } hafter.ungot
      dsimp only at hnext ⊢
      rw [if_pos hnone, ← hfirst, kept]
      by_cases haccepts : k.accepts (!r'.firstHeaderObserverd) header = true
      · rw [if_pos haccepts, if_pos haccepts]
        refine ⟨fun h => ?_, fun h => ?_⟩
        · rw [hnext.1 h]
        · exact congrArg (fun x : List StepResult × Status => (.gotHeader header :: x.1, x.2))
            (hnext.2 h)
      · rw [if_neg haccepts, if_neg haccepts]
        exact ⟨fun h => absurd h (by simp), fun _ => rfl⟩
    | endOfHeaders => exact ⟨fun _ => rfl, fun h => absurd h (by simp [kept])⟩
    | errorObserverd => exact ⟨fun _ => rfl, fun h => absurd h (by simp [kept])⟩

/-- Results that come later are checked as if they came at once. -/
lemma kept_drain_append (hungot : r.ungot = []) (fuel : ℕ)
    (hwaiting : (drain .none fuel r).2.2 = .waiting) (results : List StepResult) :
    ((kept k (!r.firstHeaderObserverd) (drain .none fuel r).2.1).2 = true →
      kept k (!r.firstHeaderObserverd) ((drain .none fuel r).2.1 ++ results) =
        ((drain .none fuel r).2.1 ++
          (kept k (!(drain .none fuel r).1.firstHeaderObserverd) results).1,
          (kept k (!(drain .none fuel r).1.firstHeaderObserverd) results).2)) ∧
      ((kept k (!r.firstHeaderObserverd) (drain .none fuel r).2.1).2 = false →
        kept k (!r.firstHeaderObserverd) ((drain .none fuel r).2.1 ++ results) =
          kept k (!r.firstHeaderObserverd) (drain .none fuel r).2.1) := by
  induction fuel generalizing r with
  | zero => exact ⟨fun _ => rfl, fun h => absurd h (by simp [drain, kept])⟩
  | succ fuel ih =>
    have hafter := (step_spec hungot).2
    rw [drain] at hwaiting ⊢
    rcases hr : r.step with ⟨r', x⟩
    rw [hr] at hafter hwaiting
    have hfirst : r'.firstHeaderObserverd = r.firstHeaderObserverd := hafter.first
    cases x with
    | moreData =>
      dsimp only
      rw [hfirst]
      exact ⟨fun _ => rfl, fun h => absurd h (by simp [kept])⟩
    | gotHeader header =>
      have hnone : Checks.none.accepts (!r'.firstHeaderObserverd) header = true := rfl
      dsimp only at hwaiting ⊢
      rw [if_pos hnone] at hwaiting ⊢
      have hnext := @ih { r' with firstHeaderObserverd := true } hafter.ungot hwaiting
      dsimp only at hnext ⊢
      rw [← hfirst, List.cons_append, kept, kept]
      by_cases haccepts : k.accepts (!r'.firstHeaderObserverd) header = true
      · rw [if_pos haccepts, if_pos haccepts]
        refine ⟨fun h => ?_, fun h => ?_⟩
        · exact congrArg (fun x : List StepResult × Bool => (.gotHeader header :: x.1, x.2))
            (hnext.1 h)
        · exact congrArg (fun x : List StepResult × Bool => (.gotHeader header :: x.1, x.2))
            (hnext.2 h)
      · rw [if_neg haccepts, if_neg haccepts]
        exact ⟨fun h => absurd h (by simp), fun _ => rfl⟩
    | endOfHeaders => cases hwaiting
    | errorObserverd => cases hwaiting

lemma continued_kept (hk : k.limit = none) (hungot : r.ungot = []) (t : Bytes)
    {next next' : HeaderReader → Reading}
    (hnext : ∀ r', r'.ungot = [] → IsKept k (!r'.firstHeaderObserverd) (next r') (next' r')) :
    IsKept k (!r.firstHeaderObserverd) (continued k r t next) (continued .none r t next') := by
  have hkept := drain_kept hk hungot (2 * (r.ungot.length + r.inputBody.length) + 2)
  have happend := @kept_drain_append k r hungot (2 * (r.ungot.length + r.inputBody.length) + 2)
  have hungot' := (drainAll_spec hungot).2.2.1
  unfold continued drainAll at *
  rcases hnone : drain .none (2 * (r.ungot.length + r.inputBody.length) + 2) r with
    ⟨r', results, status⟩
  rw [hnone] at hkept happend hungot'
  dsimp only at hkept happend hungot'
  cases hok : (kept k (!r.firstHeaderObserverd) results).2 with
  | true =>
    rw [hkept.1 hok]
    cases status with
    | waiting =>
      have hlater := hnext r' hungot'
      unfold IsKept at hlater ⊢
      dsimp only
      rw [(happend rfl _).1 hok]
      refine ⟨fun h => ?_, fun h => ?_⟩
      · rw [hlater.1 h]
      · exact ⟨congrArg (results ++ ·) (hlater.2 h).1, (hlater.2 h).2⟩
    | completed => exact ⟨fun _ => rfl, fun h => absurd (hok.symm.trans h) (by simp)⟩
    | refused => exact ⟨fun _ => rfl, fun h => absurd (hok.symm.trans h) (by simp)⟩
  | false =>
    have hrefused := hkept.2 hok
    rcases hdrain : drain k (2 * (r.ungot.length + r.inputBody.length) + 2) r with
      ⟨r'', results', status'⟩
    rw [hdrain] at hrefused
    obtain ⟨rfl, rfl⟩ := Prod.mk.inj hrefused
    have hall : kept k (!r.firstHeaderObserverd) (continued .none r t next').results =
        kept k (!r.firstHeaderObserverd) results := by
      unfold continued drainAll
      rw [hnone]
      cases status with
      | waiting =>
        dsimp only
        exact (happend rfl _).2 hok
      | completed => rfl
      | refused => rfl
    unfold IsKept
    unfold continued drainAll at hall
    rw [hnone] at hall
    rw [hall]
    exact ⟨fun h => absurd (hok.symm.trans h) (by simp), fun _ => ⟨rfl, rfl⟩⟩

lemma drive_kept (hk : k.limit = none) (hungot : r.ungot = []) (reads : List Bytes) :
    IsKept k (!r.firstHeaderObserverd) (drive k reads r) (drive .none reads r) := by
  induction reads generalizing r with
  | nil => exact ⟨fun _ => rfl, fun h => absurd h (by simp [drive, kept])⟩
  | cons chunk reads ih =>
    rw [drive_cons, drive_cons]
    exact @continued_kept k (r.fill chunk) hk hungot reads.flatten (drive k reads)
      (drive .none reads) fun r' hr' => ih hr'

/-- What is read without a limit depends on the octets only. -/
lemma read_kept (hk : k.limit = none) (hungot : r.ungot = []) (reads : List Bytes) :
    IsKept k (!r.firstHeaderObserverd) (r.read k reads) (r.read .none reads) := by
  unfold read
  split_ifs
  · exact drive_kept hk hungot reads
  · exact @continued_kept k
      { r with totalRead := r.totalRead + (r.inputBody.length - r.inputBodyPtr) } hk hungot
      reads.flatten (drive k reads) (drive .none reads) fun r' hr' => drive_kept hk hr' reads

end Headers

/-! ## The limit -/

/-- Where the buffer has been used up too many octets are not asked for more. -/
lemma drain_limit (fuel : ℕ) (r : HeaderReader)
    (hlimit : (drain .unlimited fuel r).2.2 = .waiting →
      (drain .unlimited fuel r).1.totalRead ≤ 16384) :
    drain .http fuel r = drain .unlimited fuel r := by
  induction fuel generalizing r with
  | zero => rfl
  | succ fuel ih =>
    rw [drain] at hlimit
    rw [drain, drain]
    rcases hr : r.step with ⟨r', x⟩
    rw [hr] at hlimit
    cases x with
    | moreData =>
      have hle : r'.totalRead ≤ 16384 := hlimit rfl
      have hlimited : Checks.http.limit.any (· < r'.totalRead) = false :=
        decide_eq_false (not_lt.2 hle)
      dsimp only
      rw [hlimited]
      rfl
    | gotHeader header =>
      have hsame : Checks.http.accepts = Checks.unlimited.accepts := rfl
      dsimp only at hlimit ⊢
      rw [hsame]
      by_cases haccepts : Checks.unlimited.accepts (!r'.firstHeaderObserverd) header = true
      · rw [if_pos haccepts] at hlimit ⊢
        rw [if_pos haccepts, ih _ hlimit]
      · rw [if_neg haccepts, if_neg haccepts]
    | endOfHeaders => rfl
    | errorObserverd => rfl

/-- The loop counts nothing, and leaves nothing on the stack. -/
lemma drain_after (k : Checks) (fuel : ℕ) (hungot : r.ungot = []) :
    (drain k fuel r).1.ungot = [] ∧ (drain k fuel r).1.totalRead = r.totalRead := by
  induction fuel generalizing r with
  | zero => exact ⟨hungot, rfl⟩
  | succ fuel ih =>
    have hafter := (step_spec hungot).2
    rw [drain]
    rcases hr : r.step with ⟨r', x⟩
    rw [hr] at hafter
    cases x with
    | moreData => exact ⟨hafter.ungot, hafter.totalRead⟩
    | gotHeader header =>
      dsimp only
      split_ifs
      · have hnext := @ih { r' with firstHeaderObserverd := true } hafter.ungot
        exact ⟨hnext.1, hnext.2.trans hafter.totalRead⟩
      · exact ⟨hafter.ungot, hafter.totalRead⟩
    | endOfHeaders => exact ⟨hafter.ungot, hafter.totalRead⟩
    | errorObserverd => exact ⟨hafter.ungot, hafter.totalRead⟩

/-- A reading goes on in the same way if the limit is not passed where the loop waits. -/
lemma continued_limit {r : HeaderReader} (hungot : r.ungot = []) (t : Bytes)
    {next next' : HeaderReader → Reading}
    (hlimit : (r.drainAll .unlimited).2.2 = .waiting → r.totalRead ≤ 16384)
    (hnext : (r.drainAll .unlimited).2.2 = .waiting → ∀ r', r'.ungot = [] →
      r'.totalRead = r.totalRead →
      r' = (r.drainAll .unlimited).1 → next r' = next' r') :
    continued .http r t next = continued .unlimited r t next' := by
  have hafter := drain_after .unlimited (2 * (r.ungot.length + r.inputBody.length) + 2) hungot
  have hsame : r.drainAll .http = r.drainAll .unlimited :=
    drain_limit _ r fun hwaiting => hafter.2.le.trans (hlimit hwaiting)
  unfold continued
  rw [hsame]
  rcases hdrain : r.drainAll .unlimited with ⟨r', results, status⟩
  have hleft : r' = (drain .unlimited (2 * (r.ungot.length + r.inputBody.length) + 2) r).1 :=
    (congrArg Prod.fst hdrain).symm
  rw [hdrain] at hnext
  cases status with
  | waiting =>
    dsimp only
    rw [hnext rfl r' (hleft ▸ hafter.1) (hleft ▸ hafter.2) rfl]
  | completed => rfl
  | refused => rfl

lemma continued_waiting {k : Checks} {t : Bytes} {next : HeaderReader → Reading}
    (h : (r.drainAll k).2.2 = .waiting) :
    (continued k r t next).status = (next (r.drainAll k).1).status := by
  unfold continued
  rcases hdrain : r.drainAll k with ⟨r', results, status⟩
  rw [hdrain] at h
  cases h
  rfl

lemma drive_limit (reads : List Bytes) (hungot : r.ungot = [])
    (hwithin : ∀ pre, pre <+: reads → pre ≠ [] → (drive .unlimited pre r).status = .waiting →
      r.totalRead + pre.flatten.length ≤ 16384) :
      drive .http reads r = drive .unlimited reads r := by
  induction reads generalizing r with
  | nil => rfl
  | cons chunk reads ih =>
    rw [drive_cons, drive_cons]
    apply @continued_limit (r.fill chunk) hungot
    · intro hwaiting
      have hone :=
        hwithin [chunk] ⟨reads, rfl⟩ (by simp) (by rw [drive_cons, continued_waiting hwaiting]; rfl)
      rw [List.flatten_cons, List.flatten_nil, List.append_nil] at hone
      exact hone
    · rintro hwaiting r' hr' htotal rfl
      refine ih hr' fun pre hpre hne hstatus => ?_
      have hmore := hwithin (chunk :: pre) ((List.prefix_cons_inj chunk).2 hpre) (by simp)
        (by rw [drive_cons, continued_waiting hwaiting]; exact hstatus)
      have htotal' : (r.fill chunk).totalRead = r.totalRead + chunk.length := rfl
      rw [List.flatten_cons, List.length_append] at hmore
      omega

lemma read_of_empty (h : r.inputBufferEmpty = true) (k : Checks) (reads : List Bytes) :
    r.read k reads = drive k reads r := if_pos h

lemma read_of_left (h : ¬ r.inputBufferEmpty = true) (k : Checks) (reads : List Bytes) :
    r.read k reads = continued k
      { r with totalRead := r.totalRead + (r.inputBody.length - r.inputBodyPtr) }
      reads.flatten (drive k reads) := if_neg h

/-- No call that leaves the headers incomplete finds more than 16384 octets read. -/
def Within (body : Bytes) (n : ℕ) (reads : List Bytes) : Prop :=
  ∀ pre, pre <+: reads → ((start body n).read .unlimited pre).status = .waiting →
    (body.drop n ++ pre.flatten).length ≤ 16384

lemma read_limit {body : Bytes} {n : ℕ} {reads : List Bytes} (hwithin : Within body n reads) :
    (start body n).read .http reads = (start body n).read .unlimited reads := by
  by_cases hempty : (start body n).inputBufferEmpty = true
  · rw [read_of_empty hempty, read_of_empty hempty]
    refine drive_limit reads rfl fun pre hpre _ hstatus => ?_
    have hle :=
      hwithin pre hpre ((congrArg Reading.status (read_of_empty hempty _ pre)).trans hstatus)
    rw [List.length_append] at hle
    exact (Nat.zero_add _).le.trans (by omega)
  · rw [read_of_left hempty, read_of_left hempty]
    have hwaits : ∀ pre, pre <+: reads → (continued .unlimited { start body n with
        totalRead := (start body n).totalRead +
          ((start body n).inputBody.length - (start body n).inputBodyPtr) }
        pre.flatten (drive .unlimited pre)).status = .waiting →
        body.length - n + pre.flatten.length ≤ 16384 := by
      intro pre hpre hstatus
      have hle :=
        hwithin pre hpre ((congrArg Reading.status (read_of_left hempty _ pre)).trans hstatus)
      rwa [List.length_append, List.length_drop] at hle
    obtain ⟨r, hr⟩ : ∃ r : HeaderReader, r = { start body n with
      totalRead := (start body n).totalRead +
        ((start body n).inputBody.length - (start body n).inputBodyPtr) } := ⟨_, rfl⟩
    have htotal : r.totalRead = body.length - n := by
      rw [hr]
      exact Nat.zero_add _
    have hungot : r.ungot = [] := congrArg HeaderReader.ungot hr
    rw [← hr] at hwaits ⊢
    apply continued_limit hungot
    · intro hwaiting
      have hle := hwaits [] List.nil_prefix ((continued_waiting hwaiting).trans rfl)
      omega
    · rintro hwaiting r' hr' hsame rfl
      refine drive_limit reads hr' fun pre hpre _ hstatus => ?_
      have hle := hwaits pre hpre ((continued_waiting hwaiting).trans hstatus)
      omega

/-- The results of `step` depend only on the octets that come in and not on the reads: the headers
are followed by an empty line, and all that is behind it is unread.  Plain lines are read as they
are.  So do those that the server gets to see, unless there are too many octets before the end of
the headers. -/
theorem read_eq_of_flatten_eq :
    (∀ (reads reads' : List Bytes) (body body' : Bytes) (n n' : ℕ),
      body.drop n ++ reads.flatten = body'.drop n' ++ reads'.flatten →
      (start body n).read .none reads = (start body' n').read .none reads' ∧
        (Within body n reads → Within body' n' reads' →
          ((start body n).read .http reads).results = ((start body' n').read .http reads').results ∧
          ((start body n).read .http reads).status = ((start body' n').read .http reads').status ∧
          (((start body n).read .http reads).status = .completed →
            (start body n).read .http reads = (start body n).read .none reads))) ∧
    (∀ (reads : List Bytes) (body : Bytes) (n : ℕ),
      ((start body n).read .none reads).status = .completed →
      ∃ u, body.drop n ++ reads.flatten =
        u ++ bytes "\r\n" ++ ((start body n).read .none reads).unread ∧
        HeaderParser.AtLineStart u) ∧
    (∀ (lines reads : List Bytes) (body content : Bytes) (n : ℕ),
      (∀ l ∈ lines, HeaderParser.IsHeaderLine l) →
      body.drop n ++ reads.flatten = HeaderParser.headerText lines ++ content →
      (start body n).read .none reads =
        ⟨lines.map .gotHeader ++ [.endOfHeaders], .completed, content⟩) := by
  have hspec : ∀ (reads : List Bytes) (body : Bytes) (n : ℕ),
      (start body n).read .none reads = (scan .reset (body.drop n ++ reads.flatten)).2 :=
    fun reads body n => read_spec (r := start body n) reads rfl
  refine ⟨?_, ?_, ?_⟩
  · intro reads reads' body body' n n' h
    have hsame : (start body n).read .none reads = (start body' n').read .none reads' := by
      rw [hspec, hspec, h]
    refine ⟨hsame, fun hwithin hwithin' => ?_⟩
    have hkept : IsKept .unlimited true _ _ := read_kept (r := start body n) rfl rfl reads
    have hkept' : IsKept .unlimited true _ _ := read_kept (r := start body' n') rfl rfl reads'
    rw [read_limit hwithin, read_limit hwithin']
    unfold IsKept at hkept hkept'
    rw [← hsame] at hkept'
    cases hok : (kept .unlimited true ((start body n).read .none reads).results).2 with
    | true =>
      rw [hkept.1 hok, hkept'.1 hok]
      exact ⟨rfl, rfl, fun _ => rfl⟩
    | false =>
      have hx := hkept.2 hok
      have hy := hkept'.2 hok
      refine ⟨hx.1.trans hy.1.symm, hx.2.trans hy.2.symm, fun hcompleted => ?_⟩
      rw [hx.2] at hcompleted
      cases hcompleted
  · intro reads body n h
    rw [hspec] at h ⊢
    exact HeaderParser.scan_completed (t := []) (.inl rfl) h
  · intro lines reads body content n hlines h
    rw [hspec, h]
    exact HeaderParser.scan_headerText hlines rfl content

/-- Inside of a line there is nothing to be returned. -/
lemma step_of_plain (hungot : r.ungot = []) {q : HeaderParser}
    (h : scan r.parser r.rest = (q, ⟨[], .waiting, []⟩)) :
    r.step.2 = .moreData ∧ r.step.1.parser = q ∧ r.step.1.ungot = [] ∧
    r.step.1.totalRead = r.totalRead := by
  have hspec := step_spec hungot
  rw [scan_eq_scanStep] at h
  rcases hstep : scanStep r.parser r.rest with ⟨q', x, t⟩
  rw [hstep] at h hspec
  cases x with
  | moreData =>
      exact ⟨hspec.1, hspec.2.parser.trans (congrArg Prod.fst h), hspec.2.ungot, hspec.2.totalRead⟩
  | gotHeader header => exact absurd (congrArg (fun y => y.2.results) h) (by simp)
  | endOfHeaders => exact absurd (congrArg (fun y => y.2.results) h) (by simp)
  | errorObserverd => exact absurd (congrArg (fun y => y.2.results) h) (by simp)

lemma continued_of_moreData (h : r.step.2 = .moreData) (t : Bytes) (next : HeaderReader → Reading) :
    (continued .http r t next).results = if 16384 <
      r.step.1.totalRead then [] else (next r.step.1).results := by
  unfold continued drainAll
  rw [drain]
  rcases hr : r.step with ⟨r', x⟩
  rw [hr] at h
  dsimp only at h
  subst h
  by_cases hlt : 16384 < r'.totalRead
  · have hover : Checks.http.limit.any (· < r'.totalRead) = true := decide_eq_true hlt
    dsimp only
    rw [hover, if_pos hlt]
    rfl
  · have hunder : Checks.http.limit.any (· < r'.totalRead) = false := decide_eq_false hlt
    dsimp only
    rw [hunder, if_neg hlt]
    rfl

attribute [local instance(1100)] List.decidableBAll

section Cuts

variable {l : Bytes}

/-- Of a line that comes in three reads the server wants no more than two. -/
lemma results_of_three_reads (hl : HeaderParser.IsHeaderLine l) (hlength : l.length = 16384)
    (rest : Bytes) :
    ((start [] 0).read .http [l, [0x61], rest]).results = [] := by
  have hempty : (start [] 0).inputBufferEmpty = true := rfl
  rcases List.exists_cons_of_ne_nil hl.ne_nil with ⟨c, t, rfl⟩
  have hbegin : scan (start [] 0).parser (c :: t) =
      (⟨.inputObserved, 0, c :: t⟩, ⟨[], .waiting, []⟩) := by
    have hscan :=
      HeaderParser.scan_plain (fun d hd => hl.plain d (List.mem_cons_of_mem _ hd)) 0 [c] []
    rw [List.append_nil] at hscan
    rw [scan_goes (turn_idle rfl c)]
    unfold HeaderParser.firstTurn
    rw [HeaderParser.observe_plain (hl.plain c List.mem_cons_self)]
    exact hscan
  have hfirst := step_of_plain (r := (start [] 0).fill (c :: t)) rfl hbegin
  rw [read_of_empty hempty, drive_cons]
  obtain ⟨r, hr⟩ : ∃ r, r = ((start [] 0).fill (c :: t)).step.1 := ⟨_, rfl⟩
  have htotal : r.totalRead = 16384 := by
    rw [hr, hfirst.2.2.2, ← hlength]
    exact Nat.zero_add _
  rw [continued_of_moreData hfirst.1, ← hr, if_neg (by omega), drive_cons]
  have hnext : scan r.parser [0x61] =
      (⟨.inputObserved, 0, c :: t ++ [0x61]⟩, ⟨[], .waiting, []⟩) := by
    rw [hr, hfirst.2.1]
    rfl
  have hsecond := step_of_plain (r := r.fill [0x61]) (hr ▸ hfirst.2.2.1) hnext
  have hpassed : (r.fill [0x61]).step.1.totalRead = r.totalRead + 1 := hsecond.2.2.2
  rw [continued_of_moreData hsecond.1, hpassed, if_pos (by omega)]

/-- Two reads are enough for it. -/
lemma results_of_two_reads (hl : HeaderParser.IsHeaderLine l) (hlength : l.length = 16384) :
    ((start [] 0).read .http [l, bytes "a HTTP/1.1\r\n\r\n"]).results ≠ [] := by
  have hline : HeaderParser.IsHeaderLine (l ++ bytes "a HTTP/1.1") := by
    refine ⟨List.append_ne_nil_of_left_ne_nil hl.ne_nil _, fun c hc => ?_, fun c hc => hl.head c ?_⟩
    · rcases List.mem_append.1 hc with hc | hc
      · exact hl.plain c hc
      · exact (by decide : ∀ c ∈ bytes "a HTTP/1.1",
          c ≠ Ch.return' ∧ c ≠ Ch.newline ∧ c ≠ Ch.quote ∧ c ≠ 0x28 ∧ c ≠ 0x29) c hc
    · rwa [List.head?_append_of_ne_nil _ hl.ne_nil] at hc
  have htext : l ++ bytes "a HTTP/1.1\r\n\r\n" =
      HeaderParser.headerText [l ++ bytes "a HTTP/1.1"] ++ [] := by
    rw [HeaderParser.headerText_cons, List.append_assoc, List.append_assoc]
    rfl
  have hnone : (start [] 0).read .none [l, bytes "a HTTP/1.1\r\n\r\n"] =
      ⟨[.gotHeader (l ++ bytes "a HTTP/1.1"), .endOfHeaders], .completed, []⟩ := by
    rw [read_spec (r := start [] 0) _ rfl, List.flatten_cons, List.flatten_cons, List.flatten_nil,
      List.append_nil, htext]
    exact HeaderParser.scan_headerText (fun x hx => List.mem_singleton.1 hx ▸ hline) rfl []
  have hkept : IsKept .unlimited true _ _ :=
    read_kept (r := start [] 0) rfl rfl [l, bytes "a HTTP/1.1\r\n\r\n"]
  unfold IsKept at hkept
  rw [hnone] at hkept
  have hwithin : Within [] 0 [l, bytes "a HTTP/1.1\r\n\r\n"] := by
    rintro pre hpre hwaiting
    obtain ⟨post, hpost⟩ := hpre
    rcases pre with _ | ⟨x, _ | ⟨y, pre⟩⟩
    · exact Nat.zero_le _
    · obtain rfl : x = l := (List.cons.inj hpost).1
      rw [List.flatten_cons, List.flatten_nil, List.append_nil, List.drop_nil, List.nil_append]
      exact hlength.le
    · have hall : x :: y :: pre = [l, bytes "a HTTP/1.1\r\n\r\n"] := by
        obtain ⟨rfl, hrest⟩ := List.cons.inj hpost
        obtain ⟨rfl, hnil⟩ := List.cons.inj hrest
        rw [(List.append_eq_nil_iff.1 hnil).1]
      rw [hall] at hwaiting
      cases hok :
        (kept .unlimited true [.gotHeader (l ++ bytes "a HTTP/1.1"), .endOfHeaders]).2 with
      | true =>
        rw [hkept.1 hok] at hwaiting
        cases hwaiting
      | false =>
        rw [(hkept.2 hok).2] at hwaiting
        cases hwaiting
  rw [read_limit hwithin]
  cases hok : (kept .unlimited true [.gotHeader (l ++ bytes "a HTTP/1.1"), .endOfHeaders]).2 with
  | true =>
    rw [hkept.1 hok]
    exact List.cons_ne_nil _ _
  | false =>
    rw [(hkept.2 hok).1, kept]
    split_ifs
    · exact List.cons_ne_nil _ _
    · exact List.cons_ne_nil _ _

end Cuts

/-- A line begins with 16384 octets.  The next one makes the server refuse it if it comes alone, and
not if it comes with the rest. -/
theorem read_http_of_cuts : ¬ ∀ reads reads' : List Bytes, reads.flatten = reads'.flatten →
    ((start [] 0).read .http reads).results = ((start [] 0).read .http reads').results := by
  intro h
  obtain ⟨l, hl, hlength⟩ : ∃ l, HeaderParser.IsHeaderLine l ∧ l.length = 16384 := by
    have hne : bytes "GET /" ≠ [] := by decide
    have hplain : ∀ c ∈ bytes "GET /", c ≠ Ch.return' ∧ c ≠ Ch.newline ∧ c ≠ Ch.quote ∧
        c ≠ 0x28 ∧ c ≠ 0x29 := by
      decide
    refine ⟨bytes "GET /" ++ List.replicate 16379 0x61,
      ⟨List.append_ne_nil_of_left_ne_nil hne _, fun c hc => ?_, fun c hc => ?_⟩, ?_⟩
    · rcases List.mem_append.1 hc with hc | hc
      · exact hplain c hc
      · rw [List.eq_of_mem_replicate hc]
        decide
    · rw [List.head?_append_of_ne_nil _ hne] at hc
      obtain rfl : 0x47 = c := Option.mem_some.1 hc
      decide
    · rw [List.length_append, List.length_replicate]
      rfl
  refine results_of_two_reads hl hlength ((h _ [l, [0x61], bytes " HTTP/1.1\r\n\r\n"] ?_).trans
    (results_of_three_reads hl hlength _))
  rw [List.flatten_cons, List.flatten_cons]
  rfl

end HeaderReader

end Http

end Cppcms
