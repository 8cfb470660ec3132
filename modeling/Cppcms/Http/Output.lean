import Cppcms.Http.Device
import Cppcms.Http.Spool

/-!
# What the connection gets from a device

The end of a response is told to the connection by a write whose `eof` is set.  A device that has
told it keeps that in `eof_send_`, which the next write clears, and then a further write tells it
again.

The octets that are written to a device get to the connection in their order.  A device that buffers
everything loses octets when its buffer is made smaller than what is in it, and no `pbump` goes over
more than `2 ^ 31 - 1` octets.
-/

namespace Cppcms

namespace Http

namespace Device

/-- What a call that returns has done. -/
lemma returns_of_bind {α β : Type} {x : Outcome α} {f : α → Outcome β} {b : β}
    (h : (x >>= f) = .returns b) :
    ∃ a, x = .returns a ∧ f a = .returns b := by
  rcases x with a | what | _
  · exact ⟨a, rfl, h⟩
  · cases h
  · cases h

/-! ## The end of the response -/

def ConnectionCall.isEof : ConnectionCall → Bool
  | .write _ eof => eof
  | .setResponseHeaders _ => false

/-- The number of writes that tell the end. -/
def eofs (d : Device) : ℕ := d.calls.countP ConnectionCall.isEof

/-- What is not changed by an operation that does not write to the connection. -/
structure Kept (d d' : Device) : Prop where
  final : d'.final = d.final
  eofSend : d'.eofSend = d.eofSend
  connected : d'.connected = d.connected
  calls : d'.calls = d.calls

/-- What a write to the connection does. -/
structure Wrote (a : Answer) (d d' : Device) : Prop where
  final : d'.final = d.final
  lost : ¬ (d.connected = true ∧ a ≠ .gone) → d'.connected = false ∧ d'.eofSend = d.eofSend ∧
    d'.eofs = d.eofs
  sent : d.connected = true ∧ a ≠ .gone → d'.eofSend = (d.final && !d.eofSend) ∧
    d'.eofs = d.eofs + if d.final && !d.eofSend then 1 else 0

lemma Kept.refl (d : Device) : Kept d d := ⟨rfl, rfl, rfl, rfl⟩

lemma Kept.trans {d d' d'' : Device} (h : Kept d d') (h' : Kept d' d'') : Kept d d'' :=
  ⟨h'.final.trans h.final, h'.eofSend.trans h.eofSend, h'.connected.trans h.connected,
    h'.calls.trans h.calls⟩

variable {a : Answer} {d d' : Device} {n : ℕ} {s : Bytes} {size : ℕ} {op : Op}
  {ops : List (Op × Answer)}

/-- A write, and then changes of the buffer only. -/
lemma Wrote.kept {d d' d'' : Device} (h : Wrote a d d') (h' : Kept d' d'') : Wrote a d d'' := by
  have heofs : d''.eofs = d'.eofs := by
    unfold eofs
    rw [h'.calls]
  refine ⟨h'.final.trans h.final, fun hlost => ?_, fun hsent => ?_⟩
  · rw [h'.connected, h'.eofSend, heofs]
    exact h.lost hlost
  · rw [h'.eofSend, heofs]
    exact h.sent hsent

/-- A write to the connection counts the ends that it sends. -/
lemma doWrite_flags (out : Bytes) (eof : Bool) (a : Answer) (d : Device) :
    (d.doWrite out eof a).1.final = d.final ∧ (d.doWrite out eof a).1.eofSend = d.eofSend ∧
      (d.doWrite out eof a).1.eofs = d.eofs + if eof then 1 else 0 := by
  have hcount : (d.calls ++ [ConnectionCall.write out eof]).countP ConnectionCall.isEof =
      d.eofs + if eof then 1 else 0 := by
    rw [List.countP_append, List.countP_singleton]
    rfl
  unfold doWrite
  by_cases hdone : a = .done
  · rw [if_pos hdone]
    exact ⟨rfl, rfl, hcount⟩
  · rw [if_neg hdone]
    exact ⟨rfl, rfl, hcount⟩

lemma wrote_write (out : Bytes) (a : Answer) (d : Device) : Wrote a d (d.write out a).1 := by
  unfold write
  dsimp only
  by_cases hconnected : d.connected = true
  · rw [if_neg (by rw [hconnected]; decide)]
    by_cases hgone : a = .gone
    · rw [if_pos hgone]
      refine ⟨rfl, fun _ => ⟨rfl, rfl, rfl⟩, fun hsent => absurd hgone hsent.2⟩
    · rw [if_neg hgone]
      have hlost : ¬ ¬ (d.connected = true ∧ a ≠ .gone) := not_not.2 ⟨hconnected, hgone⟩
      generalize hsend : (d.final && !d.eofSend) = sendEof
      -- the state of the parser of raw headers does not matter
      have hdone : ∀ d₁ : Device, d₁.final = d.final → d₁.eofSend = sendEof →
        d₁.eofs = d.eofs → ∀ out',
          Wrote a d (d₁.doWrite out' sendEof a).1 := by
        intro d₁ hfinal heof heofs out'
        have hflags := doWrite_flags out' sendEof a d₁
        refine ⟨hflags.1.trans hfinal, fun h => absurd h hlost, fun _ => ?_⟩
        rw [hflags.2.1, hflags.2.2, heof, heofs, hsend]
        exact ⟨rfl, rfl⟩
      split_ifs with hraw hcompleted heof
      · apply hdone
        · rfl
        · rfl
        · unfold eofs
          dsimp only
          rw [List.countP_append]
          rfl
      · apply hdone
        all_goals rfl
      · refine ⟨rfl, fun h => absurd h hlost, fun _ => ?_⟩
        have hfalse : sendEof = false := Bool.eq_false_of_not_eq_true heof
        rw [hsend, hfalse]
        exact ⟨rfl, rfl⟩
      · apply hdone
        all_goals rfl
  · have hfalse : d.connected = false := Bool.eq_false_of_not_eq_true hconnected
    rw [if_pos (by rw [hfalse]; rfl)]
    exact ⟨rfl, fun _ => ⟨hfalse, rfl, rfl⟩, fun hsent => absurd hsent.1 hconnected⟩

lemma kept_pbump (h : d.pbump n = .returns d') : Kept d d' := by
  unfold pbump at h
  dsimp only at h
  split_ifs at h
  cases h
  exact ⟨rfl, rfl, rfl, rfl⟩

lemma kept_store (h : d.store s = .returns d') : Kept d d' := by
  unfold store at h
  split_ifs at h
  cases h
  exact ⟨rfl, rfl, rfl, rfl⟩

lemma kept_append (h : d.append s = .returns d') : Kept d d' := by
  rcases returns_of_bind h with ⟨d₁, hstore, hbump⟩
  exact (kept_store hstore).trans (kept_pbump hbump)

/-- A write that does not fit sends what is pending with it. -/
lemma wrote_writeWith (h : d.writeWith s a = .returns d') : Wrote a d d' := by
  rcases returns_of_bind h with ⟨out, -, h⟩
  have hwrote := wrote_write (out ++ s) a d
  generalize d.write (out ++ s) a = r at h hwrote
  rcases r with ⟨d₁, _ | _⟩
  · cases h
    exact hwrote
  · cases h
    exact hwrote.kept ⟨rfl, rfl, rfl, rfl⟩

/-- A flush sends what is pending. -/
lemma wrote_flush {d : Device} {r : Device × Bool} (h : d.flush a = .returns r) :
    Wrote a d r.1 := by
  rcases returns_of_bind h with ⟨out, -, h⟩
  have hwrote := wrote_write out a d
  generalize d.write out a = r at h hwrote
  cases h
  exact hwrote.kept ⟨rfl, rfl, rfl, rfl⟩

/-- The operations that write to the connection. -/
def writes (d : Device) : Op → Bool
  | .xsputn s => !d.full && decide (d.epptr < d.pptr + s.length)
  | .sputc _ => !d.full && decide (d.epptr ≤ d.pptr)
  | .sync => !d.full
  | .flush => true
  | .setbuf size => !d.full && decide (size < d.pptr)
  | .fullBuffering buffering => d.full && !buffering && decide (d.bufferSize < d.pptr)
  | .close => !d.eofSend

/-- The state from which an operation writes. -/
def beforeWrite (d : Device) : Op → Device
  | .close => { d with final := true }
  | _ => d

lemma kept_resizeTo (h : d.resizeTo n = .returns d') : Kept d d' := by
  have hkept := kept_pbump h
  exact ⟨hkept.final, hkept.eofSend, hkept.connected, hkept.calls⟩

lemma kept_growFull (h : d.growFull = .returns d') : Kept d d' := by
  unfold growFull at h
  split_ifs at h
  · exact kept_resizeTo h
  · cases h
    exact .refl d

lemma kept_growFor (h : d.growFor n = .returns d') : Kept d d' := by
  unfold growFor at h
  dsimp only at h
  split_ifs at h
  · exact kept_resizeTo h
  · cases h
    exact .refl d

lemma kept_fullOverflow {c : Option UInt8} (h : d.fullOverflow c = .returns d') : Kept d d' := by
  rcases returns_of_bind h with ⟨d₁, hgrow, h⟩
  cases c with
  | none =>
    cases h
    exact kept_growFull hgrow
  | some c => exact (kept_growFull hgrow).trans (kept_append h)

lemma kept_fullXsputn (h : d.fullXsputn s = .returns d') : Kept d d' := by
  rcases returns_of_bind h with ⟨d₁, hgrow, h⟩
  exact (kept_growFor hgrow).trans (kept_append h)

lemma kept_fullSetbuf (h : d.fullSetbuf size = .returns d') : Kept d d' := by
  unfold fullSetbuf at h
  dsimp only at h
  have hkept := kept_pbump h
  split_ifs at hkept
  · exact ⟨hkept.final, hkept.eofSend, hkept.connected, hkept.calls⟩
  · exact ⟨hkept.final, hkept.eofSend, hkept.connected, hkept.calls⟩

/-- A buffer that does not become too small sends nothing. -/
lemma kept_basicSetbuf (h : d.basicSetbuf size a = .returns d') (hsize : ¬ size < d.pptr) :
    Kept d d' := by
  unfold basicSetbuf at h
  dsimp only at h
  rw [if_neg hsize] at h
  have hkept := kept_pbump h
  exact ⟨hkept.final, hkept.eofSend, hkept.connected, hkept.calls⟩

/-- A buffer that becomes too small is sent first. -/
lemma wrote_basicSetbuf (h : d.basicSetbuf size a = .returns d') (hsize : size < d.pptr) :
    Wrote a d d' := by
  unfold basicSetbuf at h
  dsimp only at h
  rw [if_pos hsize] at h
  rcases returns_of_bind h with ⟨r, hflush, h⟩
  have hwrote := wrote_flush hflush
  have hwrote' : Wrote a d r.1 := ⟨hwrote.final, hwrote.lost, hwrote.sent⟩
  rcases r with ⟨d₁, _ | _⟩
  · cases h
    exact hwrote'
  · cases h
    exact hwrote'.kept ⟨rfl, rfl, rfl, rfl⟩

/-- An operation writes to the connection once or not at all. -/
lemma step_flags (h : d.step op a = .returns d') :
    if d.writes op then Wrote a (d.beforeWrite op) d' else Kept d d' := by
  cases op with
  | xsputn s =>
    rw [step, xsputn] at h
    rw [writes]
    show if _ then Wrote a d d' else Kept d d'
    rcases hfull : d.full with _ | _
    · rw [hfull, if_neg Bool.false_ne_true, basicXsputn] at h
      by_cases hfits : d.pptr + s.length ≤ d.epptr
      · rw [if_pos hfits] at h
        rw [if_neg (by simpa using hfits)]
        exact kept_append h
      · rw [if_neg hfits] at h
        rw [if_pos (by simpa using hfits)]
        exact wrote_writeWith h
    · rw [hfull, if_pos rfl] at h
      exact kept_fullXsputn h
  | sputc c =>
    rw [step, sputc] at h
    rw [writes]
    show if _ then Wrote a d d' else Kept d d'
    by_cases hfits : d.pptr < d.epptr
    · rw [if_pos hfits] at h
      rw [if_neg (by simpa using fun _ => hfits)]
      exact kept_append h
    · rw [if_neg hfits, overflow] at h
      rcases hfull : d.full with _ | _
      · rw [hfull, if_neg Bool.false_ne_true] at h
        rw [if_pos (by simpa using hfits)]
        exact wrote_writeWith h
      · rw [hfull, if_pos rfl] at h
        exact kept_fullOverflow h
  | sync =>
    rw [step, sync, overflow] at h
    rw [writes]
    show if _ then Wrote a d d' else Kept d d'
    rcases hfull : d.full with _ | _
    · rw [hfull, if_neg Bool.false_ne_true] at h
      exact wrote_writeWith h
    · rw [hfull, if_pos rfl] at h
      exact kept_fullOverflow h
  | flush =>
    rcases returns_of_bind h with ⟨r, hflush, h⟩
    cases h
    exact wrote_flush hflush
  | setbuf size =>
    rw [step, setbuf] at h
    rw [writes]
    show if _ then Wrote a d d' else Kept d d'
    rcases hfull : d.full with _ | _
    · rw [hfull, if_neg Bool.false_ne_true] at h
      by_cases hsize : size < d.pptr
      · rw [if_pos (by simpa using hsize)]
        exact wrote_basicSetbuf h hsize
      · rw [if_neg (by simpa using hsize)]
        exact kept_basicSetbuf h hsize
    · rw [hfull, if_pos rfl] at h
      exact kept_fullSetbuf h
  | fullBuffering buffering =>
    rw [step, fullBuffering] at h
    rw [writes]
    show if _ then Wrote a d d' else Kept d d'
    rcases hfull : d.full with _ | _ <;> rcases buffering with _ | _
    · rw [hfull, if_pos rfl] at h
      cases h
      exact .refl d
    · rw [hfull, if_neg Bool.false_ne_true, if_pos rfl] at h
      cases h
      exact ⟨rfl, rfl, rfl, rfl⟩
    · rw [hfull, if_neg (by decide), if_neg Bool.false_ne_true, setbuf,
        if_neg Bool.false_ne_true] at h
      by_cases hsize : d.bufferSize < d.pptr
      · rw [if_pos (by simpa using hsize)]
        have hwrote := wrote_basicSetbuf h hsize
        exact ⟨hwrote.final, hwrote.lost, hwrote.sent⟩
      · rw [if_neg (by simpa using hsize)]
        have hkept := kept_basicSetbuf h hsize
        exact ⟨hkept.final, hkept.eofSend, hkept.connected, hkept.calls⟩
    · rw [hfull, if_pos rfl] at h
      cases h
      exact .refl d
  | close =>
    rw [step, close] at h
    show if (!d.eofSend) = true then Wrote a { d with final := true } d' else Kept d d'
    rcases heof : d.eofSend with _ | _
    · rw [heof, if_neg Bool.false_ne_true] at h
      rcases returns_of_bind h with ⟨r, hflush, h⟩
      cases h
      exact wrote_flush hflush
    · rw [heof, if_pos rfl] at h
      cases h
      exact .refl d

/-- The operation does not write to the connection after the end was told and forgotten. -/
def StepQuiet (d : Device) (op : Op) (a : Answer) : Prop :=
  d.final = true ∧ d.eofSend = false ∧ d.connected = true ∧ a ≠ .gone → d.writes op = false

/-- Every operation of a run is quiet in the state that it starts from. -/
def RunQuiet (d : Device) : List (Op × Answer) → Prop
  | [] => True
  | x :: ops => d.StepQuiet x.1 x.2 ∧ ∀ d', d.step x.1 x.2 = .returns d' → d'.RunQuiet ops

/-- Before `close` the end is not told.  Afterwards it was told, unless the connection was lost
before. -/
structure Told (d : Device) : Prop where
  before : d.final = false → d.eofSend = false ∧ d.eofs = 0
  after : d.final = true → d.eofSend = true ∨ d.connected = true → 1 ≤ d.eofs

/-- A new device has sent no end. -/
lemma told_opened (full rawMode : Bool) (n : ℕ) : (opened full rawMode n).Told :=
  ⟨fun _ => ⟨rfl, rfl⟩, fun h => absurd h Bool.false_ne_true⟩

lemma Kept.eofs_eq (h : Kept d d') : d'.eofs = d.eofs := by
  unfold eofs
  rw [h.calls]

lemma Told.kept (h : d.Told) (hkept : Kept d d') : d'.Told := by
  refine ⟨fun hfinal => ?_, fun hfinal => ?_⟩
  · rw [hkept.eofSend, hkept.eofs_eq]
    exact h.before (hkept.final.symm.trans hfinal)
  · rw [hkept.eofSend, hkept.connected, hkept.eofs_eq]
    exact h.after (hkept.final.symm.trans hfinal)

/-- The end was not told before `close`. -/
lemma Told.final_of_eofSend {d : Device} (h : d.Told) (heof : d.eofSend = true) :
    d.final = true := by
  by_contra hfinal
  rw [(h.before (Bool.eq_false_of_not_eq_true hfinal)).1] at heof
  cases heof

/-- The state before a write; `d₀` differs from `d` in `final_` at most. -/
lemma Told.wrote {d d₀ d' : Device} (h : d.Told) (hfinal : d₀.final = false → d.final = false)
    (heof : d₀.eofSend = d.eofSend) (heofs : d₀.eofs = d.eofs) (hwrote : Wrote a d₀ d') :
    d'.Told := by
  refine ⟨fun hfinal' => ?_, fun hfinal' htold => ?_⟩
  · have hbefore := h.before (hfinal (hwrote.final.symm.trans hfinal'))
    by_cases hsent : d₀.connected = true ∧ a ≠ .gone
    · have hnot : (d₀.final && !d₀.eofSend) = false := by
        rw [← hwrote.final, hfinal', Bool.false_and]
      rcases hwrote.sent hsent with ⟨hsend, hcount⟩
      rw [hsend, hcount, hnot, heofs]
      exact ⟨rfl, hbefore.2⟩
    · rcases hwrote.lost hsent with ⟨-, hsend, hcount⟩
      rw [hsend, hcount, heof, heofs]
      exact hbefore
  · have hcase : d.eofSend = true → 1 ≤ d.eofs := fun heof =>
      h.after (h.final_of_eofSend heof) (.inl heof)
    by_cases hsent : d₀.connected = true ∧ a ≠ .gone
    · rw [(hwrote.sent hsent).2, ← hwrote.final, hfinal', heof, heofs]
      rcases hd : d.eofSend with _ | _
      · exact Nat.le_add_left 1 _
      · exact hcase hd
    · rcases hwrote.lost hsent with ⟨hconnected, hsend, hcount⟩
      rw [hconnected, hsend, heof] at htold
      rw [hcount, heofs]
      exact hcase (htold.resolve_right Bool.false_ne_true)

/-- The state before a write is told apart by `final_` only. -/
lemma beforeWrite_flags (d : Device) (op : Op) :
    ((d.beforeWrite op).final = false → d.final = false) ∧ (d.beforeWrite op).eofSend = d.eofSend ∧
      (d.beforeWrite op).eofs = d.eofs ∧ (d.beforeWrite op).connected = d.connected ∧
      (d.final = true → (d.beforeWrite op).final = true) := by
  cases op with
  | close => exact ⟨fun h => absurd h Bool.true_eq_false_eq_False, rfl, rfl, rfl, fun _ => rfl⟩
  | _ => exact ⟨id, rfl, rfl, rfl, id⟩

section Step

variable {d d' : Device} {op : Op} {a : Answer}

/-- Every step keeps the count of the ends that were sent. -/
lemma Told.step (h : d.Told) (hstep : d.step op a = .returns d') : d'.Told := by
  have hflags := step_flags hstep
  rcases beforeWrite_flags d op with ⟨hfinal, heof, heofs, -⟩
  split_ifs at hflags
  · exact h.wrote hfinal heof heofs hflags
  · exact h.kept hflags

lemma eofs_le_step (hstep : d.step op a = .returns d') : d.eofs ≤ d'.eofs := by
  have hflags := step_flags hstep
  rcases beforeWrite_flags d op with ⟨-, -, heofs, -⟩
  split_ifs at hflags
  · by_cases hsent : (d.beforeWrite op).connected = true ∧ a ≠ .gone
    · rw [(hflags.sent hsent).2, heofs]
      exact Nat.le_add_right _ _
    · rw [(hflags.lost hsent).2.2, heofs]
  · exact hflags.eofs_eq.ge

/-- A quiet operation does not tell the end again. -/
lemma Told.step_quiet (h : d.Told) (hstep : d.step op a = .returns d') (hquiet : d.StepQuiet op a)
    (hone : d.eofs ≤ 1) : d'.eofs ≤ 1 := by
  have hflags := step_flags hstep
  rcases beforeWrite_flags d op with ⟨hfinal, heof, heofs, hconnected, -⟩
  split_ifs at hflags with hwrites
  · by_cases hsent : (d.beforeWrite op).connected = true ∧ a ≠ .gone
    · rw [(hflags.sent hsent).2, heofs, heof]
      rw [hconnected] at hsent
      split_ifs with hsend
      · rw [Bool.and_eq_true, Bool.not_eq_true'] at hsend
        -- the first `close`
        have hnot : d.final = false := by
          by_contra hclosed
          have hfalse := hquiet ⟨Bool.eq_true_of_not_eq_false hclosed, hsend.2, hsent⟩
          rw [hwrites] at hfalse
          cases hfalse
        rw [(h.before hnot).2]
      · exact hone
    · rw [(hflags.lost hsent).2.2, heofs]
      exact hone
  · rw [hflags.eofs_eq]
    exact hone

/-- Any other operation does. -/
lemma Told.step_loud (h : d.Told) (hstep : d.step op a = .returns d') (hloud : ¬ d.StepQuiet op a) :
    2 ≤ d'.eofs := by
  unfold StepQuiet at hloud
  rcases Classical.not_imp.1 hloud with ⟨⟨hfinal, heof, hconnected, hgone⟩, hwrites⟩
  have hflags := step_flags hstep
  rcases beforeWrite_flags d op with ⟨-, heof', heofs', hconnected', hfinal'⟩
  rw [if_pos (Bool.eq_true_of_not_eq_false hwrites)] at hflags
  have hcount := (hflags.sent ⟨hconnected'.trans hconnected, hgone⟩).2
  rw [hfinal' hfinal, heof', heof, heofs'] at hcount
  have hone := h.after hfinal (.inr hconnected)
  rw [hcount]
  exact Nat.succ_le_succ hone

end Step

/-- In no run the number of ends becomes smaller. -/
lemma eofs_le_run (hrun : d.run ops = .returns d') : d.eofs ≤ d'.eofs := by
  induction ops generalizing d with
  | nil =>
    cases hrun
    exact Nat.le_refl _
  | cons x ops ih =>
    rcases returns_of_bind hrun with ⟨d₁, hstep, hrun⟩
    exact (eofs_le_step hstep).trans (ih hrun)

/-- At most one end is sent if and only if no step sends a second one. -/
lemma Told.run (h : d.Told) (hone : d.eofs ≤ 1) (hrun : d.run ops = .returns d') :
    d'.eofs ≤ 1 ↔ d.RunQuiet ops := by
  induction ops generalizing d with
  | nil =>
    cases hrun
    exact ⟨fun _ => trivial, fun _ => hone⟩
  | cons x ops ih =>
    rcases returns_of_bind hrun with ⟨d₁, hstep, hrun⟩
    rw [RunQuiet]
    by_cases hquiet : d.StepQuiet x.1 x.2
    · rw [ih (h.step hstep) (h.step_quiet hstep hquiet hone) hrun]
      constructor
      · intro hrest
        refine ⟨hquiet, fun d₂ hstep₂ => ?_⟩
        rw [hstep] at hstep₂
        cases hstep₂
        exact hrest
      · exact fun hall => hall.2 d₁ hstep
    · have htwo := (h.step_loud hstep hquiet).trans (eofs_le_run hrun)
      constructor
      · intro hle
        omega
      · exact fun hall => absurd hall.1 hquiet

/-- The end of a response is told once at most exactly if no operation writes after it was told and
forgotten. -/
theorem run_eofs_le_one_iff (full rawMode : Bool) (n : ℕ) (ops : List (Op × Answer)) (d : Device)
    (hrun : (opened full rawMode n).run ops = .returns d) :
    d.eofs ≤ 1 ↔ (opened full rawMode n).RunQuiet ops :=
  (told_opened full rawMode n).run (Nat.zero_le 1) hrun

/-- A response is written, closed and flushed. -/
def flushedOnce : List (Op × Answer) :=
  [(.xsputn (bytes "Hello"), .done), (.close, .done), (.sync, .done)]

theorem run_eofs_le_one_iff_flushedOnce : ∃ d, (opened false false 4).run flushedOnce = .returns d ∧
    (d.eofs ≤ 1 ↔ (opened false false 4).RunQuiet flushedOnce) :=
  ⟨_, rfl, run_eofs_le_one_iff false false 4 flushedOnce _ rfl⟩

/-- The second flush after `close` tells the end again. -/
theorem run_flushed_twice :
    ¬ ∀ d, (opened false false 4).run [(.close, .done), (.sync, .done), (.sync, .done)] =
      .returns d → d.eofs ≤ 1 := by
  intro hall
  have hle := hall _ rfl
  revert hle
  decide

/-! ## The octets of the response -/

def ConnectionCall.data : ConnectionCall → Bytes
  | .write out _ => out
  | .setResponseHeaders _ => []

/-- The octets that the connection got. -/
def sent (d : Device) : Bytes := d.calls.flatMap ConnectionCall.data

/-- The octets that an operation writes to the device. -/
def Op.data : Op → Bytes
  | .xsputn s => s
  | .sputc c => [c]
  | _ => []

/-- The connection got what was written, but for the octets in the buffer. -/
structure Buffered (written : Bytes) (d : Device) : Prop where
  connected : d.connected = true
  rawMode : d.rawMode = false
  epptr : d.epptr = d.output.length
  pptr : d.pptr ≤ d.epptr
  content : d.sent ++ d.output.take d.pptr = written

lemma buffered_opened (full : Bool) (n : ℕ) : Buffered [] (opened full false n) :=
  ⟨rfl, rfl, (length_resize n []).symm, Nat.zero_le _, rfl⟩

/-- The front of the buffer stays when its size changes. -/
lemma take_resize {n k : ℕ} {v : Bytes} (hk : k ≤ n) (hv : k ≤ v.length) :
    (resize n v).take k = v.take k := by
  unfold resize
  rw [List.take_append_of_le_length (by rw [List.length_take]; omega), List.take_take,
    Nat.min_eq_left hk]

/-- `pbump` goes over less than `2 ^ 31` octets. -/
lemma pbump_of_lt (hn : n < 2 ^ 31) (d : Device) :
    d.pbump n = .returns { d with pptr := d.pptr + n } := by
  have hint : FileBuffer.toInt n = n := by
    unfold FileBuffer.toInt
    rw [if_pos (by omega), Nat.mod_eq_of_lt (by omega)]
  unfold pbump
  rw [hint]
  dsimp only
  rw [if_neg (by omega), show (d.pptr : ℤ) + n =
    ((d.pptr + n : ℕ) : ℤ) from (Int.natCast_add _ _).symm, Int.toNat_natCast]

section Buffered

variable {written : Bytes} {d : Device}

/-- What is pending is the front of the buffer. -/
lemma Buffered.pending (h : Buffered written d) : d.pending = .returns (d.output.take d.pptr) :=
  if_pos (h.epptr ▸ h.pptr)

/-- A connection that takes everything gets all that is written. -/
lemma Buffered.write (h : Buffered written d) (out : Bytes) :
    d.write out .done = ({ d with
      eofSend := d.final && !d.eofSend
      calls := d.calls ++ [.write out (d.final && !d.eofSend)] }, true) := by
  have hconnected := h.connected
  have hraw := h.rawMode
  unfold Device.write
  dsimp only
  rw [if_neg (by rw [hconnected]; decide), if_neg (by decide),
    if_neg (by rw [hraw]; exact fun h => absurd h.1 (by decide))]
  rfl

lemma sent_append (d : Device) (out : Bytes) (eof : Bool) :
    (d.calls ++ [ConnectionCall.write out eof]).flatMap ConnectionCall.data = d.sent ++ out := by
  rw [List.flatMap_append, List.flatMap_singleton]
  rfl

/-- The put area starts again after everything was written. -/
lemma Buffered.writeWith (h : Buffered written d) (s : Bytes) :
    ∃ d', d.writeWith s .done = .returns d' ∧ Buffered (written ++ s) d' := by
  unfold Device.writeWith
  rw [h.pending, Outcome.returns_bind, h.write]
  refine ⟨_, rfl, h.connected, h.rawMode, ?_, Nat.zero_le _, ?_⟩
  · exact (length_resize _ _).symm
  · show (d.calls ++ [ConnectionCall.write _ _]).flatMap ConnectionCall.data ++ List.take 0 _ = _
    rw [sent_append, List.take_zero, List.append_nil, ← List.append_assoc, h.content]

/-- A flush sends all that was written, and the buffer is empty behind it. -/
lemma Buffered.flush (h : Buffered written d) :
    ∃ d', d.flush .done = .returns (d', true) ∧ Buffered written d' ∧
    d'.sent = written ∧ d'.pptr = 0 ∧
      d'.bufferSize = d.bufferSize := by
  have hsent :
    (d.calls ++ [ConnectionCall.write (d.output.take d.pptr) (d.final && !d.eofSend)]).flatMap
      ConnectionCall.data = written := by
    rw [sent_append, h.content]
  unfold Device.flush
  rw [h.pending, Outcome.returns_bind, h.write]
  refine ⟨_, rfl, ⟨h.connected, h.rawMode, h.epptr, Nat.zero_le _, ?_⟩, hsent, rfl, rfl⟩
  show _ ++ List.take 0 _ = _
  rw [List.take_zero, List.append_nil]
  exact hsent

/-- Octets for which there is room. -/
lemma Buffered.append (h : Buffered written d) (hroom : d.pptr + s.length ≤ d.epptr)
    (hlt : s.length < 2 ^ 31) : ∃ d', d.append s = .returns d' ∧ Buffered (written ++ s) d' := by
  have hlength : d.pptr + s.length ≤ d.output.length := h.epptr ▸ hroom
  have htake : (d.output.take d.pptr).length = d.pptr := by
    rw [List.length_take]
    omega
  unfold Device.append Device.store
  rw [if_pos hlength, Outcome.returns_bind, pbump_of_lt hlt]
  refine ⟨_, rfl, h.connected, h.rawMode, ?_, hroom, ?_⟩
  · show d.epptr = _
    rw [h.epptr, List.length_append, List.length_append, htake, List.length_drop]
    omega
  · show d.sent ++ (d.output.take d.pptr ++ s ++ _).take (d.pptr + s.length) = _
    rw [List.take_append_of_le_length (by rw [List.length_append, htake]),
      List.take_of_length_le (by rw [List.length_append, htake]), ← List.append_assoc, h.content]

/-- The buffer keeps its content if its new size is not less. -/
lemma Buffered.resizeTo (h : Buffered written d) (hn : d.pptr ≤ n) (hlt : d.pptr < 2 ^ 31) :
    ∃ d', d.resizeTo n = .returns d' ∧ Buffered written d' ∧ d'.pptr = d.pptr ∧ d'.epptr = n := by
  unfold Device.resizeTo
  rw [pbump_of_lt hlt]
  refine ⟨_, rfl, ⟨h.connected, h.rawMode, (length_resize _ _).symm, ?_, ?_⟩, Nat.zero_add _, rfl⟩
  · show 0 + d.pptr ≤ n
    omega
  · show d.sent ++ (resize n d.output).take (0 + d.pptr) = written
    rw [Nat.zero_add, take_resize hn (h.epptr ▸ h.pptr), h.content]

end Buffered

/-- The next size is greater. -/
lemma lt_nextSize (n : ℕ) : n < nextSize n := by
  unfold nextSize
  split_ifs with hn
  · omega
  · omega

/-- Enough doublings get to every size. -/
lemma le_doubleUntil {minimal fuel n : ℕ} (hn : 0 < n) (hfuel : minimal ≤ n + fuel) :
    minimal ≤ doubleUntil minimal fuel n := by
  induction fuel generalizing n with
  | zero => exact hfuel
  | succ fuel ih =>
    rw [doubleUntil]
    split_ifs with hlt
    · exact ih (by omega) (by omega)
    · exact Nat.le_of_not_lt hlt

/-- `pbump` is not asked for too much, and no buffer is made smaller than what is in it while
everything is buffered. -/
def StepSafe (d : Device) : Op → Prop
  | .xsputn s =>
    if d.full then s.length < 2 ^ 31 ∧ (d.epptr < d.pptr + s.length → d.pptr < 2 ^ 31)
    else d.pptr + s.length ≤ d.epptr → s.length < 2 ^ 31
  | .sputc _ => d.full = true → d.pptr = d.epptr → d.pptr < 2 ^ 31
  | .sync => d.full = true → d.pptr = d.epptr → d.pptr < 2 ^ 31
  | .flush => True
  | .setbuf size =>
    if d.full then d.pptr ≤ size ∧ d.pptr < 2 ^ 31
    else d.pptr ≤ size → d.pptr < 2 ^ 31
  | .fullBuffering buffering => d.full = true → buffering = false →
      d.pptr ≤ d.bufferSize → d.pptr < 2 ^ 31
  | .close => True

/-- Every operation of a run is safe in the state that it starts from. -/
def RunSafe (d : Device) : List Op → Prop
  | [] => True
  | op :: ops => d.StepSafe op ∧ ∀ d', d.step op .done = .returns d' → d'.RunSafe ops

instance (d : Device) (op : Op) : Decidable (d.StepSafe op) :=
  match op with
  | .xsputn s =>
    inferInstanceAs (Decidable
      (if d.full then s.length < 2 ^ 31 ∧ (d.epptr < d.pptr + s.length → d.pptr < 2 ^ 31)
      else d.pptr + s.length ≤ d.epptr → s.length < 2 ^ 31))
  | .sputc _ => inferInstanceAs (Decidable (d.full = true → d.pptr = d.epptr → d.pptr < 2 ^ 31))
  | .sync => inferInstanceAs (Decidable (d.full = true → d.pptr = d.epptr → d.pptr < 2 ^ 31))
  | .flush => inferInstanceAs (Decidable True)
  | .setbuf size =>
    inferInstanceAs (Decidable
      (if d.full then d.pptr ≤ size ∧ d.pptr < 2 ^ 31 else d.pptr ≤ size → d.pptr < 2 ^ 31))
  | .fullBuffering buffering =>
    inferInstanceAs (Decidable
      (d.full = true → buffering = false → d.pptr ≤ d.bufferSize → d.pptr < 2 ^ 31))
  | .close => inferInstanceAs (Decidable True)

lemma runSafe_cons (ops : List Op) (hstep : d.step op .done = .returns d') :
    d.RunSafe (op :: ops) ↔ d.StepSafe op ∧ d'.RunSafe ops := by
  rw [RunSafe, hstep]
  refine and_congr_right fun _ => ⟨fun hall => hall d' rfl, fun hrest d'' heq => ?_⟩
  cases heq
  exact hrest

section Operations

variable {written : Bytes} {d : Device}

lemma Buffered.fullOverflow (h : Buffered written d) (c : Option UInt8)
    (hlt : d.pptr = d.epptr → d.pptr < 2 ^ 31) :
    ∃ d', d.fullOverflow c = .returns d' ∧ Buffered (written ++ c.toList) d' := by
  have hgrow : ∃ d', d.growFull = .returns d' ∧ Buffered written d' ∧ d'.pptr < d'.epptr := by
    unfold growFull
    by_cases hfull : d.pptr = d.epptr
    · rw [if_pos hfull]
      have hsize : d.pptr < nextSize d.output.length := by
        rw [hfull, h.epptr]
        exact lt_nextSize _
      rcases h.resizeTo hsize.le (hlt hfull) with ⟨d', hresize, h', hpptr, hepptr⟩
      exact ⟨d', hresize, h', by omega⟩
    · rw [if_neg hfull]
      exact ⟨d, rfl, h, lt_of_le_of_ne h.pptr hfull⟩
  rcases hgrow with ⟨d', hgrow, h', hroom⟩
  unfold Device.fullOverflow
  rw [hgrow, Outcome.returns_bind]
  cases c with
  | none =>
    refine ⟨d', rfl, ?_⟩
    rw [Option.toList_none, List.append_nil]
    exact h'
  | some c => exact h'.append hroom (by rw [List.length_singleton]; decide)

lemma Buffered.fullXsputn (h : Buffered written d) (hs : s.length < 2 ^ 31)
    (hlt : d.epptr < d.pptr + s.length → d.pptr < 2 ^ 31) :
    ∃ d', d.fullXsputn s = .returns d' ∧ Buffered (written ++ s) d' := by
  have hgrow : ∃ d', d.growFor s.length = .returns d' ∧ Buffered written d' ∧
      d'.pptr + s.length ≤ d'.epptr := by
    unfold growFor
    dsimp only
    by_cases hroom : d.epptr < d.pptr + s.length
    · rw [if_pos hroom]
      have hsize : d.pptr + s.length ≤
          doubleUntil (d.pptr + s.length) (d.pptr + s.length) (nextSize d.output.length) :=
        le_doubleUntil (Nat.zero_lt_of_lt (lt_nextSize _)) (Nat.le_add_left _ _)
      rcases h.resizeTo (Nat.le_of_add_right_le hsize) (hlt hroom) with
        ⟨d', hresize, h', hpptr, hepptr⟩
      refine ⟨d', hresize, h', ?_⟩
      rw [hpptr, hepptr]
      exact hsize
    · rw [if_neg hroom]
      exact ⟨d, rfl, h, Nat.le_of_not_lt hroom⟩
  rcases hgrow with ⟨d', hgrow, h', hroom⟩
  unfold Device.fullXsputn
  rw [hgrow, Outcome.returns_bind]
  exact h'.append hroom hs

/-- Another size of the buffer, which is not less than its content. -/
lemma Buffered.doSetp_pbump (h : Buffered written d) (hsize : d.pptr ≤ d.bufferSize)
    (hlt : d.pptr < 2 ^ 31) :
    ∃ d', d.doSetp.pbump d.pptr = .returns d' ∧ Buffered written d' := by
  rcases h.resizeTo hsize hlt with ⟨d', hresize, h', -⟩
  exact ⟨d', hresize, h'⟩

lemma Buffered.basicSetbuf (h : Buffered written d) (hlt : d.pptr ≤ size → d.pptr < 2 ^ 31) :
    ∃ d', d.basicSetbuf size .done = .returns d' ∧ Buffered written d' := by
  have hset : Buffered written { d with bufferSize := size } :=
    ⟨h.connected, h.rawMode, h.epptr, h.pptr, h.content⟩
  unfold Device.basicSetbuf
  dsimp only
  by_cases hsize : size < d.pptr
  · rw [if_pos hsize]
    rcases hset.flush with ⟨d', hflush, h', hsent, -⟩
    rw [hflush, Outcome.returns_bind]
    refine ⟨_, rfl, h'.connected, h'.rawMode, (length_resize _ _).symm, Nat.zero_le _, ?_⟩
    show d'.sent ++ List.take 0 _ = written
    rw [List.take_zero, List.append_nil, hsent]
  · rw [if_neg hsize]
    exact hset.doSetp_pbump (Nat.le_of_not_lt hsize) (hlt (Nat.le_of_not_lt hsize))

/-- The full buffer may only grow. -/
lemma Buffered.fullSetbuf (h : Buffered written d) (hsize : d.pptr ≤ size) (hlt : d.pptr < 2 ^ 31) :
    ∃ d', d.fullSetbuf size = .returns d' ∧ Buffered written d' := by
  have hle : d.pptr ≤ d.output.length := h.epptr ▸ h.pptr
  unfold Device.fullSetbuf
  dsimp only
  split_ifs with hgrow
  · unfold doSetp
    rw [pbump_of_lt hlt]
    refine ⟨_, rfl, h.connected, h.rawMode, (length_resize _ _).symm, ?_, ?_⟩
    · show 0 + d.pptr ≤ size
      omega
    · show d.sent ++ (resize size (resize size d.output)).take (0 + d.pptr) = written
      rw [Nat.zero_add, take_resize hsize (by rw [length_resize]; exact hsize),
        take_resize hsize hle, h.content]
  · have hset : Buffered written { d with bufferSize := size } :=
      ⟨h.connected, h.rawMode, h.epptr, h.pptr, h.content⟩
    exact hset.doSetp_pbump hsize hlt

/-- A safe operation puts its octets behind those that were written. -/
lemma Buffered.step (h : Buffered written d) {op : Op} (hclose : op ≠ .close)
    (hsafe : d.StepSafe op) :
    ∃ d', d.step op .done = .returns d' ∧ Buffered (written ++ op.data) d' := by
  cases op with
  | xsputn s =>
    rw [Device.step, Device.xsputn]
    rw [StepSafe] at hsafe
    split_ifs at hsafe ⊢ with hfull
    · exact h.fullXsputn hsafe.1 hsafe.2
    · unfold basicXsputn
      by_cases hroom : d.pptr + s.length ≤ d.epptr
      · rw [if_pos hroom]
        exact h.append hroom (hsafe hroom)
      · rw [if_neg hroom]
        exact h.writeWith s
  | sputc c =>
    rw [Device.step, Device.sputc]
    rw [StepSafe] at hsafe
    by_cases hroom : d.pptr < d.epptr
    · rw [if_pos hroom]
      exact h.append hroom (by rw [List.length_singleton]; decide)
    · rw [if_neg hroom, Device.overflow]
      split_ifs with hfull
      · exact h.fullOverflow (some c) (hsafe hfull)
      · exact h.writeWith [c]
  | sync =>
    rw [Device.step, Device.sync, Device.overflow]
    rw [StepSafe] at hsafe
    split_ifs with hfull
    · exact h.fullOverflow none (hsafe hfull)
    · exact h.writeWith []
  | flush =>
    rcases h.flush with ⟨d', hflush, h', -⟩
    rw [Device.step, hflush, Outcome.returns_bind]
    refine ⟨d', rfl, ?_⟩
    rw [show written ++ Op.flush.data = written from List.append_nil _]
    exact h'
  | setbuf size =>
    rw [Device.step, Device.setbuf, show written ++ (Op.setbuf size).data =
      written from List.append_nil _]
    rw [StepSafe] at hsafe
    split_ifs at hsafe ⊢ with hfull
    · exact h.fullSetbuf hsafe.1 hsafe.2
    · exact h.basicSetbuf hsafe
  | fullBuffering buffering =>
    have hset : Buffered written { d with full := buffering } :=
      ⟨h.connected, h.rawMode, h.epptr, h.pptr, h.content⟩
    rw [Device.step, Device.fullBuffering,
      show written ++ (Op.fullBuffering buffering).data = written from List.append_nil _]
    rw [StepSafe] at hsafe
    by_cases hsame : d.full = buffering
    · rw [if_pos hsame]
      exact ⟨d, rfl, h⟩
    · rw [if_neg hsame]
      rcases buffering with _ | _
      · rw [if_neg Bool.false_ne_true, Device.setbuf, if_neg Bool.false_ne_true]
        exact hset.basicSetbuf (hsafe (Bool.eq_true_of_not_eq_false hsame) rfl)
      · rw [if_pos rfl]
        exact ⟨_, rfl, hset⟩
  | close => exact absurd rfl hclose

end Operations

/-- Before `close` the end is not told. -/
lemma step_flags_of_ne_close (hclose : op ≠ .close) (hfinal : d.final = false)
    (heof : d.eofSend = false) (h : d.step op a = .returns d') :
    d'.final = false ∧ d'.eofSend = false := by
  have hflags := step_flags h
  have hbefore : d.beforeWrite op = d := by
    cases op with
    | close => exact absurd rfl hclose
    | _ => rfl
  rw [hbefore] at hflags
  split_ifs at hflags
  · refine ⟨hflags.final.trans hfinal, ?_⟩
    by_cases hsent : d.connected = true ∧ a ≠ .gone
    · rw [(hflags.sent hsent).1, hfinal]
      rfl
    · exact (hflags.lost hsent).2.1.trans heof
  · exact ⟨hflags.final.trans hfinal, hflags.eofSend.trans heof⟩

/-- A connection that takes everything. -/
def accepted (ops : List Op) : List (Op × Answer) := ops.map fun op => (op, .done)

/-- A run of safe operations loses nothing. -/
lemma Buffered.run {written : Bytes} {d : Device} (h : Buffered written d)
    (hfinal : d.final = false) (heof : d.eofSend = false) {ops : List Op}
    (hclose : ∀ op ∈ ops, op ≠ .close) (hsafe : d.RunSafe ops) :
    ∃ d', d.run (accepted (ops ++ [.close])) = .returns d' ∧
    d'.sent = written ++ ops.flatMap Op.data := by
  induction ops generalizing written d with
  | nil =>
    have hset : Buffered written { d with final := true } :=
      ⟨h.connected, h.rawMode, h.epptr, h.pptr, h.content⟩
    rcases hset.flush with ⟨d', hflush, -, hsent, -⟩
    refine ⟨d', ?_, hsent.trans (List.append_nil _).symm⟩
    show (d.close .done >>= fun d => .returns d) = _
    rw [Device.close, if_neg (by rw [heof]; decide), hflush]
    rfl
  | cons op ops ih =>
    have hop : op ≠ .close := hclose op List.mem_cons_self
    rcases h.step hop hsafe.1 with ⟨d₁, hstep, h₁⟩
    rcases step_flags_of_ne_close hop hfinal heof hstep with ⟨hfinal₁, heof₁⟩
    rcases ih h₁ hfinal₁ heof₁ (fun op hmem => hclose op (List.mem_cons_of_mem _ hmem))
      (hsafe.2 d₁ hstep) with
      ⟨d', hrun, hsent⟩
    refine ⟨d', ?_, ?_⟩
    · show (d.step op .done >>= fun d => d.run (accepted (ops ++ [.close]))) = _
      rw [hstep, Outcome.returns_bind, hrun]
    · rw [hsent, List.flatMap_cons, List.append_assoc]

/-- All that is written to a device gets to the connection in its order, if every operation is safe.
-/
theorem run_sends_all (full : Bool) (n : ℕ) (ops : List Op) (hclose : ∀ op ∈ ops, op ≠ .close)
    (hsafe : (opened full false n).RunSafe ops) :
    ∃ d, (opened full false n).run (accepted (ops ++ [.close])) = .returns d ∧
    d.sent = ops.flatMap Op.data :=
  (buffered_opened full n).run rfl rfl hclose hsafe

/-- Octets that are written before and after the buffer gets smaller. -/
theorem run_sends_all_switched : ∃ d,
    (opened true false 4).run
      (accepted [.xsputn (bytes "Hello"), .fullBuffering false, .setbuf 1, .xsputn (bytes "!"),
        .close]) = .returns d ∧ d.sent = bytes "Hello!" := by
  apply run_sends_all true 4
    [.xsputn (bytes "Hello"), .fullBuffering false, .setbuf 1, .xsputn (bytes "!")]
  · decide
  · refine (runSafe_cons _ rfl).2 ⟨by decide, (runSafe_cons _ rfl).2 ⟨by decide, ?_⟩⟩
    exact (runSafe_cons _ rfl).2 ⟨by decide, (runSafe_cons _ rfl).2 ⟨by decide, trivial⟩⟩

/-- Two of three octets are lost when the buffer gets smaller while everything is buffered. -/
theorem run_loses_octets : ¬ ∃ d,
    (opened true false 4).run
      (accepted [.xsputn (bytes "abc"), .setbuf 1, .xsputn (bytes "d"), .close]) = .returns d ∧
      d.sent = bytes "abcd" := by
  rintro ⟨d, hrun, hsent⟩
  cases hrun
  revert hsent
  decide

end Device

end Http

end Cppcms
