import Cppcms.Http.ContentType

/-!
# The cursor of the content type parser

`parse` of `http_content_type.cpp` with the functions of `http_protocol.h` it calls, over the
positions of a text.  A look outside the text is `none`, and so is a loop that does not end.  The
parser over positions and the parser over lists agree, and a header that is printed with its
parameters is read back.
-/

namespace Cppcms

namespace Http

open Protocol

namespace ContentTypeCursor

/-! ## Positions of a text -/

/-- `*p`. -/
def deref (s : Bytes) (p : ℕ) : Option UInt8 := s[p]?

/-- The string of the characters between two positions. -/
def slice (s : Bytes) (p q : ℕ) : Option Bytes :=
  if p ≤ q ∧ q ≤ s.length then some ((s.drop p).take (q - p)) else none

/-- `skip_ws`, with the rounds of its loop counted. -/
def skipWsLoop (s : Bytes) : ℕ → ℕ → Option ℕ
  | 0, _ => none
  | fuel + 1, p =>
    if p < s.length then
      (deref s p).bind fun c =>
        if c = Ch.return' then
          if p + 2 < s.length then
            (deref s (p + 1)).bind fun d =>
              if d = Ch.newline then
                (deref s (p + 2)).bind fun e =>
                  if e = Ch.space ∨ e = Ch.tab then skipWsLoop s fuel (p + 3) else some p
              else some p
          else some p
        else if c = Ch.space ∨ c = Ch.tab then skipWsLoop s fuel (p + 1)
        else some p
    else some p

/-- Each round of a loop moves the iterator. -/
def skipWs (s : Bytes) (p : ℕ) : Option ℕ := skipWsLoop s (s.length + 1) p

def tockenLoop (s : Bytes) : ℕ → ℕ → Option ℕ
  | 0, _ => none
  | fuel + 1, p =>
    if p < s.length then
      (deref s p).bind fun c => if isTocken c then tockenLoop s fuel (p + 1) else some p
    else some p

def tocken (s : Bytes) (p : ℕ) : Option ℕ := tockenLoop s (s.length + 1) p

/-- The loop of `unquote`: the result and the new place of `begin`. -/
def unquoteLoop (s : Bytes) (begin : ℕ) : ℕ → ℕ → Bytes → Option (Bytes × ℕ)
  | 0, _, _ => none
  | fuel + 1, p, result =>
    if p < s.length then
      (deref s p).bind fun c =>
        if c = Ch.quote then some (result, p + 1)
        else if c = 0x5C ∧ p + 1 < s.length then
          (deref s (p + 1)).bind fun d => unquoteLoop s begin fuel (p + 2) (result ++ [d])
        else unquoteLoop s begin fuel (p + 1) (result ++ [c])
    else some ([], begin)

def unquote (s : Bytes) (begin : ℕ) : Option (Bytes × ℕ) :=
  if s.length ≤ begin then some ([], begin)
  else
    (deref s begin).bind fun c =>
      if c ≠ Ch.quote then some ([], begin) else unquoteLoop s begin (s.length + 1) (begin + 1) []

/-! ## The parser -/

/-- What follows a step; the parser ends with `some none`. -/
def andThen {α β : Type*} (a : Option (Option α)) (f : α → Option (Option β)) : Option (Option β) :=
  a.bind fun x =>
    match x with
    | none => some none
    | some x => f x

/-- `begin == end || *begin++ != c` ends the parser. -/
def expect (s : Bytes) (c : UInt8) (begin : ℕ) : Option (Option ℕ) :=
  if begin = s.length then some none
  else (deref s begin).map fun d => if d ≠ c then none else some (begin + 1)

/-- An empty token ends the parser. -/
def nonemptyTocken (s : Bytes) (begin : ℕ) : Option (Option (Bytes × ℕ)) :=
  (tocken s begin).bind fun tmp =>
    if tmp = begin then some none else (slice s begin tmp).map fun t => some (t, tmp)

def value (s : Bytes) (begin : ℕ) : Option (Option (Bytes × ℕ)) :=
  if begin = s.length then some none
  else
    (deref s begin).bind fun c =>
      if c = Ch.quote then (unquote s begin).map fun r => if r.2 = begin then none else some r
      else nonemptyTocken s begin

/-- A round of the loop over the parameters. -/
def parameter (s : Bytes) (begin : ℕ) : Option (Option ((Bytes × Bytes) × ℕ)) :=
  (skipWs s begin).bind fun begin =>
    andThen (expect s Ch.semicolon begin) fun begin =>
      (skipWs s begin).bind fun begin =>
        if begin = s.length then some none
        else
          andThen (nonemptyTocken s begin) fun param =>
            (skipWs s param.2).bind fun begin =>
              andThen (expect s Ch.eq begin) fun begin =>
                (skipWs s begin).bind fun begin =>
                  andThen (value s begin) fun v =>
                    some (some ((param.1.map asciiToLower, v.1), v.2))

def parseParameters (s : Bytes) : ℕ → ℕ → SortedMap Bytes Bytes → Option (SortedMap Bytes Bytes)
  | 0, _, _ => none
  | fuel + 1, begin, m =>
    if begin = s.length then some m
    else
      (parameter s begin).bind fun r =>
        match r with
        | none => some m
        | some (x, begin) => parseParameters s fuel begin (m.insertNew x.1 x.2)

def parseTypes (s : Bytes) : Option (Option ((Bytes × Bytes) × ℕ)) :=
  (skipWs s 0).bind fun begin =>
    if begin = s.length then some none
    else
      andThen (nonemptyTocken s begin) fun type =>
        andThen (expect s Ch.slash type.2) fun begin =>
          andThen (nonemptyTocken s begin) fun subtype =>
            some (some ((type.1.map asciiToLower, subtype.1.map asciiToLower), subtype.2))

/-- `parse`. -/
def parse (s : Bytes) : Option ContentType :=
  (parseTypes s).bind fun r =>
    match r with
    | none => some ContentType.none
    | some (x, begin) =>
      (parseParameters s (s.length + 1) begin ∅).map fun m => ⟨x.1, x.2, x.1 ++ bytes "/" ++ x.2, m⟩

/-! ## Positions and lists -/

variable {p : ℕ} {s : Bytes}

lemma exists_deref (hp : p < s.length) : ∃ c, deref s p = some c ∧ s.drop p = c :: s.drop (p + 1) :=
  ⟨s[p], List.getElem?_eq_getElem hp, List.drop_eq_getElem_cons hp⟩

lemma exists_skipWs (hp : p ≤ s.length) :
    ∃ q, p ≤ q ∧ q ≤ s.length ∧ skipWs s p = some q ∧ Protocol.skipWs (s.drop p) = s.drop q := by
  have hloop : ∀ fuel p, p ≤ s.length → s.length - p < fuel →
      ∃ q, p ≤ q ∧ q ≤ s.length ∧ skipWsLoop s fuel p = some q ∧
      Protocol.skipWs (s.drop p) = s.drop q := by
    intro fuel
    induction fuel with
    | zero => exact fun p _ h => absurd h (Nat.not_lt_zero _)
    | succ fuel ih =>
      intro p hp hfuel
      unfold skipWsLoop
      by_cases hlt : p < s.length
      · rcases exists_deref hlt with ⟨c, hc, hdrop⟩
        rw [if_pos hlt, hc, Option.bind_some]
        by_cases hreturn : c = Ch.return'
        · rw [if_pos hreturn]
          by_cases hlt2 : p + 2 < s.length
          · rcases exists_deref (Nat.lt_of_succ_lt hlt2) with ⟨d, hd, hdrop1⟩
            rcases exists_deref hlt2 with ⟨e, he, hdrop2⟩
            have hcons : s.drop p = Ch.return' :: d :: e :: s.drop (p + 3) := by
              rw [hdrop, hdrop1, hdrop2, hreturn]
            have hlist : Protocol.skipWs (s.drop p) = if d = Ch.newline ∧
              (e = Ch.space ∨ e = Ch.tab) then
                Protocol.skipWs (s.drop (p + 3)) else s.drop p := by
              rw [hcons, Protocol.skipWs, if_pos rfl]
            rw [if_pos hlt2, hd, Option.bind_some, hlist]
            by_cases hnewline : d = Ch.newline
            · rw [if_pos hnewline, he, Option.bind_some]
              by_cases hws : e = Ch.space ∨ e = Ch.tab
              · rcases ih (p + 3) (by omega) (by omega) with ⟨q, hpq, hq, hrun, hskip⟩
                rw [if_pos hws, if_pos ⟨hnewline, hws⟩]
                exact ⟨q, by omega, hq, hrun, hskip⟩
              · rw [if_neg hws, if_neg fun h => hws h.2]
                exact ⟨p, le_rfl, hp, rfl, rfl⟩
            · rw [if_neg hnewline, if_neg fun h => hnewline h.1]
              exact ⟨p, le_rfl, hp, rfl, rfl⟩
          · -- there is no place for a blank behind the end of the line
            have hlist : Protocol.skipWs (s.drop p) = s.drop p := by
              have hlength : (s.drop (p + 1)).length ≤ 1 := by
                rw [List.length_drop]
                omega
              rw [hdrop, hreturn]
              rcases hrest : s.drop (p + 1) with _ | ⟨d, _ | ⟨e, r⟩⟩
              · exact if_neg (by decide)
              · exact if_neg (by decide)
              · rw [hrest] at hlength
                exact absurd hlength (by simp)
            rw [if_neg hlt2]
            exact ⟨p, le_rfl, hp, rfl, hlist⟩
        · rw [if_neg hreturn]
          by_cases hws : c = Ch.space ∨ c = Ch.tab
          · rcases ih (p + 1) (by omega) (by omega) with ⟨q, hpq, hq, hrun, hskip⟩
            rw [if_pos hws, hdrop, skipWs_blank hws]
            exact ⟨q, by omega, hq, hrun, hskip⟩
          · rw [if_neg hws, hdrop, skipWs_cons hreturn (not_or.1 hws).1 (not_or.1 hws).2]
            exact ⟨p, le_rfl, hp, rfl, hdrop.symm⟩
      · rw [if_neg hlt, List.drop_eq_nil_of_le (not_lt.1 hlt)]
        exact ⟨p, le_rfl, hp, rfl, (List.drop_eq_nil_of_le (not_lt.1 hlt)).symm⟩
  exact hloop _ p hp (by omega)

lemma exists_tocken (hp : p ≤ s.length) :
    ∃ q, p ≤ q ∧ q ≤ s.length ∧ tocken s p = some q ∧
      Protocol.tocken (s.drop p) = ((s.drop p).take (q - p), s.drop q) := by
  have hloop : ∀ fuel p, p ≤ s.length → s.length - p < fuel → ∃ q, p ≤ q ∧ q ≤ s.length ∧
      tockenLoop s fuel p = some q ∧
      Protocol.tocken (s.drop p) = ((s.drop p).take (q - p), s.drop q) := by
    intro fuel
    induction fuel with
    | zero => exact fun p _ h => absurd h (Nat.not_lt_zero _)
    | succ fuel ih =>
      intro p hp hfuel
      unfold tockenLoop
      by_cases hlt : p < s.length
      · rcases exists_deref hlt with ⟨c, hc, hdrop⟩
        rw [if_pos hlt, hc, Option.bind_some]
        by_cases htocken : isTocken c
        · rcases ih (p + 1) (by omega) (by omega) with ⟨q, hpq, hq, hrun, hlist⟩
          rw [if_pos htocken, hrun, hdrop]
          refine ⟨q, by omega, hq, rfl, ?_⟩
          have hpos : q - p = q - (p + 1) + 1 := by omega
          unfold Protocol.tocken at hlist ⊢
          rw [List.takeWhile_cons_of_pos htocken, List.dropWhile_cons_of_pos htocken,
            (Prod.mk.inj hlist).1, (Prod.mk.inj hlist).2, hpos, List.take_succ_cons]
        · rw [if_neg htocken]
          refine ⟨p, le_rfl, hp, rfl, ?_⟩
          unfold Protocol.tocken
          rw [hdrop, List.takeWhile_cons_of_neg htocken,
            List.dropWhile_cons_of_neg htocken, Nat.sub_self, List.take_zero]
      · rw [if_neg hlt]
        refine ⟨p, le_rfl, hp, rfl, ?_⟩
        rw [List.drop_eq_nil_of_le (not_lt.1 hlt), List.take_nil]
        rfl
  exact hloop _ p hp (by omega)

/-- The loop leaves its iterator behind the closing quote, or where the string started. -/
lemma unquoteLoop_cases (begin : ℕ) {fuel p : ℕ} (hp : p ≤ s.length) (hfuel : s.length - p < fuel)
    (result : Bytes) :
    (unquoteLoop s begin fuel p result = some ([], begin) ∧ unquoteBody (s.drop p) = none) ∨
      ∃ v q, p < q ∧ q ≤ s.length ∧ unquoteLoop s begin fuel p result = some (result ++ v, q) ∧
        unquoteBody (s.drop p) = some (v, s.drop q) := by
  induction fuel generalizing p result with
  | zero => exact absurd hfuel (Nat.not_lt_zero _)
  | succ fuel ih =>
    unfold unquoteLoop
    by_cases hlt : p < s.length
    · rcases exists_deref hlt with ⟨c, hc, hdrop⟩
      rw [if_pos hlt, hc, Option.bind_some, hdrop]
      by_cases hquote : c = Ch.quote
      · rw [if_pos hquote]
        have hbody : unquoteBody (c :: s.drop (p + 1)) = some ([], s.drop (p + 1)) := by
          rcases s.drop (p + 1) with _ | ⟨d, r⟩
          · exact if_pos hquote
          · exact if_pos hquote
        exact .inr ⟨[], p + 1, Nat.lt_succ_self p, hlt, by rw [List.append_nil], hbody⟩
      · rw [if_neg hquote]
        by_cases hlt1 : p + 1 < s.length
        · rcases exists_deref hlt1 with ⟨d, hd, hdrop1⟩
          by_cases hback : c = 0x5C
          · have hbody : unquoteBody (c :: s.drop (p + 1)) =
                (unquoteBody (s.drop (p + 2))).map fun r => (d :: r.1, r.2) := by
              rw [hdrop1, unquoteBody, if_neg hquote, if_pos hback]
            rw [if_pos ⟨hback, hlt1⟩, hd, Option.bind_some, hbody]
            rcases ih (show p + 2 ≤ s.length by omega) (by omega) (result ++ [d]) with
              ⟨hrun, hnone⟩ | ⟨v, q, hpq, hq, hrun, hsome⟩
            · rw [hrun, hnone]
              exact .inl ⟨rfl, rfl⟩
            · rw [hrun, hsome]
              exact .inr ⟨d :: v, q, by omega, hq, by rw [List.append_assoc]; rfl, rfl⟩
          · have hbody : unquoteBody (c :: s.drop (p + 1)) =
                (unquoteBody (s.drop (p + 1))).map fun r => (c :: r.1, r.2) := by
              rw [hdrop1, unquoteBody, if_neg hquote, if_neg hback]
            rw [if_neg fun h => hback h.1, hbody]
            rcases ih (show p + 1 ≤ s.length by omega) (by omega) (result ++ [c]) with
              ⟨hrun, hnone⟩ | ⟨v, q, hpq, hq, hrun, hsome⟩
            · rw [hrun, hnone]
              exact .inl ⟨rfl, rfl⟩
            · rw [hrun, hsome]
              exact .inr ⟨c :: v, q, by omega, hq, by rw [List.append_assoc]; rfl, rfl⟩
        · -- the last character does not close the string
          have hnil : s.drop (p + 1) = [] := List.drop_eq_nil_of_le (not_lt.1 hlt1)
          rw [if_neg fun h => hlt1 h.2]
          rcases ih (show p + 1 ≤ s.length by omega) (by omega) (result ++ [c]) with ⟨hrun, -⟩ |
            ⟨v, q, -, -, -, hsome⟩
          · rw [hrun, hnil]
            exact .inl ⟨rfl, if_neg hquote⟩
          · rw [hnil] at hsome
            cases hsome
    · rw [if_neg hlt, List.drop_eq_nil_of_le (not_lt.1 hlt)]
      exact .inl ⟨rfl, rfl⟩

/-- A step over the positions takes what the step over the lists takes. -/
def Agrees {α : Type*} (s : Bytes) (a : Option (Option (α × ℕ))) (b : Option (α × Bytes)) : Prop :=
  (a = some none ∧ b = none) ∨ ∃ x q, q ≤ s.length ∧ a = some (some (x, q)) ∧ b = some (x, s.drop q)

lemma agrees_nonemptyTocken (hp : p ≤ s.length) :
    Agrees s (nonemptyTocken s p) (Protocol.nonemptyTocken (s.drop p)) := by
  rcases exists_tocken hp with ⟨q, hpq, hq, hrun, hlist⟩
  unfold nonemptyTocken Protocol.nonemptyTocken
  rw [hrun, hlist, Option.bind_some]
  by_cases hqp : q = p
  · rw [if_pos hqp, hqp, Nat.sub_self, List.take_zero, if_pos rfl]
    exact .inl ⟨rfl, rfl⟩
  · have hne : (s.drop p).take (q - p) ≠ [] := by
      have hlength : ((s.drop p).take (q - p)).length ≠ 0 := by
        rw [List.length_take, List.length_drop]
        omega
      exact List.ne_nil_of_length_pos (Nat.pos_of_ne_zero hlength)
    rw [if_neg hqp, if_neg hne]
    unfold slice
    rw [if_pos ⟨hpq, hq⟩]
    exact .inr ⟨_, q, hq, rfl, rfl⟩

lemma agrees_value (hp : p ≤ s.length) : Agrees s (value s p) (Protocol.value (s.drop p)) := by
  unfold value
  by_cases hend : p = s.length
  · rw [if_pos hend, List.drop_eq_nil_of_le hend.ge]
    exact .inl ⟨rfl, rfl⟩
  · have hlt : p < s.length := lt_of_le_of_ne hp hend
    rcases exists_deref hlt with ⟨c, hc, hdrop⟩
    have htocken := agrees_nonemptyTocken hp
    rw [if_neg hend, hc, Option.bind_some]
    rw [hdrop] at htocken ⊢
    rw [Protocol.value]
    by_cases hquote : c = Ch.quote
    · have hrun : unquote s p = unquoteLoop s p (s.length + 1) (p + 1) [] := by
        unfold unquote
        rw [if_neg (not_le.2 hlt), hc, Option.bind_some, if_neg (not_not.2 hquote)]
      rw [if_pos hquote, if_pos hquote, Protocol.unquote, if_pos hquote, hrun]
      have hfuel : s.length - (p + 1) < s.length + 1 := by omega
      rcases unquoteLoop_cases p (show p + 1 ≤ s.length from hlt) hfuel [] with
        ⟨hloop, hbody⟩ | ⟨v, q, hpq, hq, hloop, hbody⟩
      · rw [hloop, hbody, Option.map_some, if_pos rfl]
        exact .inl ⟨rfl, rfl⟩
      · rw [hloop, hbody, Option.map_some, if_neg (show q ≠ p by omega)]
        exact .inr ⟨v, q, hq, rfl, rfl⟩
    · rw [if_neg hquote, if_neg hquote]
      exact htocken

lemma expect_cases (hp : p ≤ s.length) (c : UInt8) :
    (expect s c p = some none ∧ Protocol.expect c (s.drop p) = none) ∨
      (p + 1 ≤ s.length ∧ expect s c p = some (some (p + 1)) ∧
        Protocol.expect c (s.drop p) = some (s.drop (p + 1))) := by
  unfold expect
  by_cases hend : p = s.length
  · rw [if_pos hend, List.drop_eq_nil_of_le hend.ge]
    exact .inl ⟨rfl, rfl⟩
  · have hlt : p < s.length := lt_of_le_of_ne hp hend
    rcases exists_deref hlt with ⟨d, hd, hdrop⟩
    rw [if_neg hend, hd, Option.map_some, hdrop, Protocol.expect]
    by_cases hdc : d = c
    · rw [if_neg (not_not.2 hdc), if_pos hdc]
      exact .inr ⟨hlt, rfl, rfl⟩
    · rw [if_pos hdc, if_neg hdc]
      exact .inl ⟨rfl, rfl⟩

lemma agrees_parameter (hp : p ≤ s.length) :
    Agrees s (parameter s p) (ContentType.parameter (s.drop p)) := by
  rcases exists_skipWs hp with ⟨p1, -, hp1, hrun1, hlist1⟩
  unfold parameter ContentType.parameter
  rw [hrun1, hlist1, Option.bind_some, Option.bind_eq_bind]
  rcases expect_cases hp1 Ch.semicolon with ⟨hstop, hnone⟩ | ⟨hp2, hgo, hsome⟩
  · rw [hstop, hnone]
    exact .inl ⟨rfl, rfl⟩
  rw [hgo, hsome, Option.bind_some]
  show Agrees s ((skipWs s (p1 + 1)).bind _) _
  rcases exists_skipWs hp2 with ⟨p3, -, hp3, hrun3, hlist3⟩
  rw [hrun3, hlist3, Option.bind_some, Option.bind_eq_bind]
  by_cases hend : p3 = s.length
  · rw [if_pos hend, List.drop_eq_nil_of_le hend.ge]
    exact .inl ⟨rfl, rfl⟩
  rw [if_neg hend]
  rcases agrees_nonemptyTocken hp3 with ⟨hstop, hnone⟩ | ⟨param, p4, hp4, hgo, hsome⟩
  · rw [hstop, hnone]
    exact .inl ⟨rfl, rfl⟩
  rw [hgo, hsome, Option.bind_some]
  show Agrees s ((skipWs s p4).bind _) _
  rcases exists_skipWs hp4 with ⟨p5, -, hp5, hrun5, hlist5⟩
  dsimp only
  rw [hrun5, hlist5, Option.bind_some]
  rcases expect_cases hp5 Ch.eq with ⟨hstop, hnone⟩ | ⟨hp6, hgo, hsome⟩
  · rw [hstop, hnone]
    exact .inl ⟨rfl, rfl⟩
  rw [hgo, hsome, Option.bind_some]
  show Agrees s ((skipWs s (p5 + 1)).bind _) _
  rcases exists_skipWs hp6 with ⟨p7, -, hp7, hrun7, hlist7⟩
  rw [hrun7, hlist7, Option.bind_some]
  rcases agrees_value hp7 with ⟨hstop, hnone⟩ | ⟨v, p8, hp8, hgo, hsome⟩
  · rw [hstop, hnone]
    exact .inl ⟨rfl, rfl⟩
  · rw [hgo, hsome, Option.bind_some]
    exact .inr ⟨_, p8, hp8, rfl, rfl⟩

/-- A parameter takes a character at least. -/
lemma length_parameter {p q : Bytes} {x : Bytes × Bytes}
    (h : ContentType.parameter p = some (x, q)) :
    q.length < p.length := by
  unfold ContentType.parameter at h
  simp only [Option.bind_eq_bind, Option.bind_eq_some_iff, Prod.exists] at h
  rcases h with ⟨p1, hsemicolon, param, p2, hparam, p3, heq, v, p4, hvalue, hresult⟩
  cases hresult
  have h1 := length_skipWs p
  have h2 := length_expect hsemicolon
  have h3 := length_skipWs p1
  have h4 := length_nonemptyTocken hparam
  have h5 := length_skipWs p2
  have h6 := length_expect heq
  have h7 := length_skipWs p3
  have h8 := length_value hvalue
  omega

lemma parseParameters_eq {fuel p : ℕ} (hp : p ≤ s.length) (hfuel : s.length - p < fuel)
    (m : SortedMap Bytes Bytes) :
    parseParameters s fuel p m =
      some (ContentType.parseParameters (s.drop p).length (s.drop p) m) := by
  have hlists : ∀ n fuel p m, p ≤ s.length → s.length - p < fuel → s.length - p ≤ n →
      parseParameters s fuel p m = some (ContentType.parseParameters n (s.drop p) m) := by
    intro n
    induction n with
    | zero =>
      intro fuel p m hp hfuel hn
      have hend : p = s.length := by omega
      rcases fuel with _ | fuel
      · exact absurd hfuel (Nat.not_lt_zero _)
      · exact if_pos hend
    | succ n ih =>
      intro fuel p m hp hfuel hn
      rcases fuel with _ | fuel
      · exact absurd hfuel (Nat.not_lt_zero _)
      have hagrees := agrees_parameter hp
      unfold parseParameters ContentType.parseParameters
      by_cases hend : p = s.length
      · rw [if_pos hend, List.drop_eq_nil_of_le hend.ge]
        rfl
      · rw [if_neg hend]
        rcases hagrees with ⟨hstop, hnone⟩ | ⟨x, q, hq, hgo, hsome⟩
        · rw [hstop, hnone]
          rfl
        · have hshort := length_parameter hsome
          rw [List.length_drop, List.length_drop] at hshort
          rw [hgo, hsome, Option.bind_some]
          exact ih fuel q _ hq (by omega) (by omega)
  refine hlists _ fuel p m hp hfuel ?_
  rw [List.length_drop]

lemma agrees_parseTypes (s : Bytes) :
    Agrees s (parseTypes s) ((ContentType.parseTypes s).map fun r => ((r.1, r.2.1), r.2.2)) := by
  rcases exists_skipWs (Nat.zero_le s.length) with ⟨p1, -, hp1, hrun1, hlist1⟩
  rw [List.drop_zero] at hlist1
  unfold parseTypes ContentType.parseTypes
  rw [hrun1, hlist1, Option.bind_some, Option.bind_eq_bind]
  by_cases hend : p1 = s.length
  · rw [if_pos hend, List.drop_eq_nil_of_le hend.ge]
    exact .inl ⟨rfl, rfl⟩
  rw [if_neg hend]
  rcases agrees_nonemptyTocken hp1 with ⟨hstop, hnone⟩ | ⟨type, p2, hp2, hgo, hsome⟩
  · rw [hstop, hnone]
    exact .inl ⟨rfl, rfl⟩
  rw [hgo, hsome, Option.bind_some]
  show Agrees s (andThen (expect s Ch.slash p2) _) _
  dsimp only
  rw [Option.bind_eq_bind]
  rcases expect_cases hp2 Ch.slash with ⟨hstop, hnone⟩ | ⟨hp3, hgo, hsome⟩
  · rw [hstop, hnone]
    exact .inl ⟨rfl, rfl⟩
  rw [hgo, hsome, Option.bind_some]
  show Agrees s (andThen (nonemptyTocken s (p2 + 1)) _) _
  rcases agrees_nonemptyTocken hp3 with ⟨hstop, hnone⟩ | ⟨subtype, p4, hp4, hgo, hsome⟩
  · rw [hstop, hnone]
    exact .inl ⟨rfl, rfl⟩
  · rw [hgo, hsome, Option.bind_some]
    exact .inr ⟨_, p4, hp4, rfl, rfl⟩

/-- The parser ends, does not look outside the text, and reads what the parser over lists reads. -/
lemma parse_eq (s : Bytes) : parse s = some (ContentType.parse s) := by
  unfold parse ContentType.parse
  rcases agrees_parseTypes s with ⟨hstop, hnone⟩ | ⟨⟨type, subtype⟩, p, hp, hgo, hsome⟩
  · rw [hstop, Option.map_eq_none_iff.1 hnone]
    rfl
  · rcases Option.map_eq_some_iff.1 hsome with ⟨⟨type', subtype', r⟩, htypes, heq⟩
    cases heq
    rw [hgo, htypes, Option.bind_some]
    dsimp only
    rw [parseParameters_eq hp (by omega), Option.map_some]

end ContentTypeCursor

/-! ## Headers that are printed -/

structure Token where
  text : Bytes
  ne_nil : text ≠ []
  tocken : ∀ c ∈ text, isTocken c

structure Blanks where
  text : Bytes
  blank : ∀ c ∈ text, c = Ch.space ∨ c = Ch.tab

/-- A parameter as it is printed: its name, its value and the blanks around the semicolon and the
equal sign. -/
structure PrintedParameter where
  beforeSemicolon : Blanks
  behindSemicolon : Blanks
  name : Token
  beforeEq : Blanks
  behindEq : Blanks
  value : Bytes

attribute [local instance(1100)] List.decidableBAll

/-- A value stands bare if it is a token, else it is quoted. -/
def shownValue (v : Bytes) : Bytes := if v ≠ [] ∧ ∀ c ∈ v, isTocken c then v else quoted v

namespace PrintedParameter

def text (p : PrintedParameter) : Bytes :=
  p.beforeSemicolon.text ++ Ch.semicolon ::
    (p.behindSemicolon.text ++ (p.name.text ++ (p.beforeEq.text ++ Ch.eq ::
    (p.behindEq.text ++ shownValue p.value))))

def key (p : PrintedParameter) : Bytes := p.name.text.map asciiToLower

end PrintedParameter

def parametersText (ps : List PrintedParameter) : Bytes := ps.flatMap PrintedParameter.text

def contentTypeText (type subtype : Token) (ps : List PrintedParameter) : Bytes :=
  type.text ++ Ch.slash :: (subtype.text ++ parametersText ps)

lemma Token.skipWs_append (t : Token) (p : Bytes) : skipWs (t.text ++ p) = t.text ++ p := by
  rcases htext : t.text with _ | ⟨a, text⟩
  · exact absurd htext t.ne_nil
  · exact skipWs_of_isTocken (t.tocken a (htext ▸ List.mem_cons_self)) _

variable {p : Bytes}

/-- A token ends where nothing follows, or where a character follows that is not of a token. -/
lemma Token.nonemptyTocken_append (t : Token) (hp : ∀ c ∈ p.head?, isTocken c = false) :
    nonemptyTocken (t.text ++ p) = some (t.text, p) := by
  rcases p with _ | ⟨c, p⟩
  · unfold nonemptyTocken
    rw [List.append_nil, tocken_self t.tocken, if_neg t.ne_nil]
  · exact Protocol.nonemptyTocken_append t.ne_nil t.tocken (hp c rfl) p

lemma Blanks.head_append (b : Blanks) (hp : ∀ c ∈ p.head?, isTocken c = false) :
    ∀ c ∈ (b.text ++ p).head?, isTocken c = false := by
  rcases htext : b.text with _ | ⟨a, text⟩
  · exact hp
  · intro c hc
    cases hc
    rcases b.blank a (htext ▸ List.mem_cons_self) with rfl | rfl
    · decide
    · decide

lemma head_parametersText (ps : List PrintedParameter) :
    ∀ c ∈ (parametersText ps).head?, isTocken c = false := by
  rcases ps with _ | ⟨p, ps⟩
  · exact fun c hc => absurd hc (by simp [parametersText])
  · unfold parametersText PrintedParameter.text
    rw [List.flatMap_cons, List.append_assoc]
    apply p.beforeSemicolon.head_append
    intro c hc
    cases hc
    decide

lemma value_shownValue (v : Bytes) (hp : ∀ c ∈ p.head?, isTocken c = false) :
    value (skipWs (shownValue v ++ p)) = some (v, p) := by
  unfold shownValue
  by_cases hv : v ≠ [] ∧ ∀ c ∈ v, isTocken c
  · have hread := Token.nonemptyTocken_append ⟨v, hv.1, hv.2⟩ hp
    rw [if_pos hv, Token.skipWs_append ⟨v, hv.1, hv.2⟩]
    rcases v with _ | ⟨a, v⟩
    · exact absurd rfl hv.1
    · have hquote : a ≠ Ch.quote := by
        rintro rfl
        exact absurd (hv.2 _ List.mem_cons_self) (by decide)
      rw [List.cons_append, value, if_neg hquote]
      exact hread
  · have hskip : skipWs (quoted v ++ p) = quoted v ++ p :=
      skipWs_cons (by decide) (by decide) (by decide) _
    rw [if_neg hv, hskip, value_quoted]

/-- A parameter is read in front of what follows it. -/
lemma parameter_text (p : PrintedParameter) {q : Bytes} (hq : ∀ c ∈ q.head?, isTocken c = false) :
    ContentType.parameter (p.text ++ q) = some ((p.key, p.value), q) := by
  have htext : p.text ++ q =
    p.beforeSemicolon.text ++ (Ch.semicolon :: (p.behindSemicolon.text ++ (p.name.text ++
      (p.beforeEq.text ++ (Ch.eq :: (p.behindEq.text ++ (shownValue p.value ++ q))))))) := by
    unfold PrintedParameter.text
    simp only [List.append_assoc, List.cons_append]
  have hsemicolon : skipWs (p.text ++ q) = Ch.semicolon ::
    (p.behindSemicolon.text ++ (p.name.text ++
      (p.beforeEq.text ++ (Ch.eq :: (p.behindEq.text ++ (shownValue p.value ++ q)))))) := by
    rw [htext, skipWs_blanks p.beforeSemicolon.blank,
      skipWs_cons (by decide) (by decide) (by decide)]
  have hname : nonemptyTocken (skipWs (p.behindSemicolon.text ++ (p.name.text ++ (p.beforeEq.text ++
      (Ch.eq :: (p.behindEq.text ++ (shownValue p.value ++ q))))))) =
        some (p.name.text, p.beforeEq.text ++
          (Ch.eq :: (p.behindEq.text ++ (shownValue p.value ++ q)))) := by
    rw [skipWs_blanks p.behindSemicolon.blank, p.name.skipWs_append]
    apply p.name.nonemptyTocken_append
    apply p.beforeEq.head_append
    intro c hc
    cases hc
    decide
  have heq : skipWs (p.beforeEq.text ++ (Ch.eq :: (p.behindEq.text ++ (shownValue p.value ++ q)))) =
      Ch.eq :: (p.behindEq.text ++ (shownValue p.value ++ q)) := by
    rw [skipWs_blanks p.beforeEq.blank, skipWs_cons (by decide) (by decide) (by decide)]
  have hvalue : value (skipWs (p.behindEq.text ++ (shownValue p.value ++ q))) =
      some (p.value, q) := by
    rw [skipWs_blanks p.behindEq.blank]
    exact value_shownValue p.value hq
  unfold ContentType.parameter
  rw [hsemicolon, expect_cons]
  simp only [Option.bind_eq_bind, Option.bind_some, hname, heq, expect_cons, hvalue]
  rfl

/-- The loop keeps the first value of a name. -/
lemma find_parseParameters (ps : List PrintedParameter) {fuel : ℕ} (hfuel : ps.length ≤ fuel)
    (m : SortedMap Bytes Bytes) (name : Bytes) :
    (ContentType.parseParameters fuel (parametersText ps) m).find name =
      (m.find name).or ((ps.find? fun p => p.key = name).map PrintedParameter.value) := by
  induction ps generalizing fuel m with
  | nil =>
    rcases fuel with _ | fuel
    · exact (Option.or_none).symm
    · exact (Option.or_none).symm
  | cons p ps ih =>
    rcases fuel with _ | fuel
    · exact absurd hfuel (Nat.not_succ_le_zero _)
    · have hread := parameter_text p (head_parametersText ps)
      have hcons : parametersText (p :: ps) = p.text ++ parametersText ps := List.flatMap_cons
      unfold ContentType.parseParameters
      rw [hcons, hread]
      dsimp only
      rw [ih (Nat.le_of_succ_le_succ hfuel), SortedMap.find_insertNew, List.find?_cons]
      by_cases hname : name = p.key
      · rw [if_pos hname, decide_eq_true hname.symm, hname]
        rcases m.find p.key with _ | v
        · rfl
        · rfl
      · rw [if_neg hname, decide_eq_false fun h => hname h.symm]

lemma length_le_parametersText (ps : List PrintedParameter) :
    ps.length ≤ (parametersText ps).length := by
  induction ps with
  | nil => exact Nat.zero_le _
  | cons p ps ih =>
    have hcons : parametersText (p :: ps) = p.text ++ parametersText ps := List.flatMap_cons
    have htext : 1 ≤ p.text.length := by
      unfold PrintedParameter.text
      simp only [List.length_append, List.length_cons]
      omega
    rw [hcons, List.length_append, List.length_cons]
    omega

lemma parseTypes_contentTypeText (type subtype : Token) (ps : List PrintedParameter) :
    ContentType.parseTypes (contentTypeText type subtype ps) =
      some (type.text.map asciiToLower, subtype.text.map asciiToLower, parametersText ps) := by
  have hslash : ∀ c ∈ (Ch.slash :: (subtype.text ++ parametersText ps)).head?,
      isTocken c = false := by
    intro c hc
    cases hc
    decide
  unfold ContentType.parseTypes contentTypeText
  rw [type.skipWs_append, type.nonemptyTocken_append hslash]
  simp only [Option.bind_eq_bind, Option.bind_some, expect_cons,
    subtype.nonemptyTocken_append (head_parametersText ps)]
  rfl

/-- A header is read as it was printed, and the parser ends on every text without a look outside of
it. -/
theorem parse_contentTypeText :
    (∀ (type subtype : Token) (ps : List PrintedParameter), ∃ ct,
      ContentTypeCursor.parse (contentTypeText type subtype ps) = some ct ∧
        ct.type = type.text.map asciiToLower ∧ ct.subtype = subtype.text.map asciiToLower ∧
        ct.mediaType = type.text.map asciiToLower ++ bytes "/" ++ subtype.text.map asciiToLower ∧
        ∀ name, ct.parameters.find name =
          (ps.find? fun p => p.key = name).map PrintedParameter.value) ∧
      ∀ s, (ContentTypeCursor.parse s).isSome := by
  constructor
  · intro type subtype ps
    refine ⟨_, ContentTypeCursor.parse_eq _, ?_⟩
    unfold ContentType.parse
    rw [parseTypes_contentTypeText]
    refine ⟨rfl, rfl, rfl, fun name => ?_⟩
    dsimp only
    rw [find_parseParameters ps (length_le_parametersText ps), SortedMap.find_empty, Option.none_or]
  · intro s
    rw [ContentTypeCursor.parse_eq]
    rfl

end Http

end Cppcms
