import Cppcms.Stream.StackBuf

/-!
# The error state of a stream behind a filter

The failbit that `write` of a filter sets does not outlive the filter: `release` puts the old buffer
back with `rdbuf`, which resets the state of the stream, and so does `steal` with a state from
before.
-/

namespace Cppcms

namespace Stream

/-- The bound of a buffer goes with its text. -/
lemma fixed_bound : Fixed sinkbuf fun d => d.room.map (d.text.length + ·) := by
  rintro ⟨text, room, refused⟩ c
  rcases room with _ | _ | n
  · rfl
  · rfl
  · have hlength : (text ++ [c]).length + n = text.length + (n + 1) := by
      rw [List.length_append, List.length_singleton]
      omega
    exact congrArg some hlength

/-- After a filter the state of the stream is good. -/
lemma filtered_failed (k : Filter) (self : ℕ) (o : Object) (st : Ostream Sink) :
    (filtered k self o st).failed = false :=
  rfl

/-- A byte is refused if the buffer has no room for the conversion. -/
lemma filtered_refused_iff (k : Filter) (self : ℕ) (o : Object) {st : Ostream Sink}
    (hst : st.buffer.refused = false) :
    (filtered k self o st).buffer.refused = true ↔
      ∃ n ∈ st.buffer.room, n < (k.text o.text).length := by
  have hruns := filtered_runs k self o st (st.buffer.room.map (st.buffer.text.length + ·))
  have hbound := (Object.run_rdbuf (.filter k self o .done) fixed_bound st).1
  have hbefore : Sink.Ok (st.buffer.room.map (st.buffer.text.length + ·)) st.buffer := ⟨hst, rfl⟩
  constructor
  · intro hrefused
    have hafter : ¬ Sink.Ok (st.buffer.room.map (st.buffer.text.length + ·))
        (filtered k self o st).buffer :=
      fun hok => Bool.noConfusion (hok.1.symm.trans hrefused)
    rcases hruns.refuses hbefore hafter [] with ⟨m, hm, hlong⟩
    rcases Option.map_eq_some_iff.1 hm with ⟨n, hn, rfl⟩
    have hlength : st.buffer.text.length + n < (st.buffer.text ++ (k.text o.text ++ [])).length :=
      hlong
    rw [List.append_nil, List.length_append] at hlength
    exact ⟨n, hn, by omega⟩
  · rintro ⟨n, hn, hlong⟩
    by_contra hrefused
    have hafter : Sink.Ok (st.buffer.room.map (st.buffer.text.length + ·))
        (filtered k self o st).buffer :=
      ⟨Bool.eq_false_of_not_eq_true hrefused, hbound⟩
    -- the buffer has the whole conversion, which is longer than its bound
    have hflow : (filtered k self o st).buffer.text ++ [] =
        st.buffer.text ++ (k.text o.text ++ []) :=
      (hruns.takes hafter).2 []
    rw [List.append_nil, List.append_nil] at hflow
    have hroom : (filtered k self o st).buffer.room.map
      ((filtered k self o st).buffer.text.length + ·) =
        some (st.buffer.text.length + n) := by
      rw [hafter.2, Option.mem_def.1 hn]
      rfl
    rcases Option.map_eq_some_iff.1 hroom with ⟨m, -, hm⟩
    rw [hflow, List.length_append] at hm
    omega

/-- After a filter the stream is in a failed state if it was before or if a byte was refused, and
only then. -/
def KeepsState (k : Filter) (self : ℕ) (o : Object) (st : Ostream Sink) : Prop :=
  (filtered k self o st).failed = true ↔
    st.failed = true ∨ (filtered k self o st).buffer.refused = true

/-- The state is kept where there is nothing to keep: the stream was good, and the buffer has room
for everything. -/
theorem keepsState_iff (k : Filter) (self : ℕ) (o : Object) (text : Bytes) (room : Option ℕ)
    (rdbuf : ℕ) (failed : Bool) :
    KeepsState k self o ⟨⟨text, room, false⟩, rdbuf, failed⟩ ↔
      failed = false ∧ ∀ n ∈ room, (k.text o.text).length ≤ n := by
  have hrefused := @filtered_refused_iff k self o ⟨⟨text, room, false⟩, rdbuf, failed⟩ rfl
  unfold KeepsState
  rw [filtered_failed, hrefused]
  constructor
  · intro h
    have hgood : ¬ (failed = true ∨ ∃ n ∈ room, n < (k.text o.text).length) := fun hbad =>
      Bool.noConfusion (h.2 hbad)
    refine ⟨Bool.eq_false_of_not_eq_true fun hfailed => hgood (.inl hfailed), fun n hn => ?_⟩
    exact not_lt.1 fun hlong => hgood (.inr ⟨n, hn, hlong⟩)
  · rintro ⟨hfailed, hroom⟩
    refine ⟨fun h => Bool.noConfusion h, ?_⟩
    rintro (h | ⟨n, hn, hlong⟩)
    · exact absurd (hfailed.symm.trans h) Bool.false_ne_true
    · exact absurd (hroom n hn) (not_le.2 hlong)

/-- A buffer without room refuses the character, and the stream is good afterwards. -/
theorem not_keepsState_refused :
    ¬ KeepsState .escape 2 (.write (bytes "x") .done) ⟨⟨[], some 0, false⟩, 1, false⟩ := by
  intro h
  have hrefused :=
    (@filtered_refused_iff .escape 2 (.write (bytes "x") .done)
    ⟨⟨[], some 0, false⟩, 1, false⟩ rfl).2
    ⟨0, rfl, by decide⟩
  exact Bool.noConfusion (h.2 (.inr hrefused))

end Stream

end Cppcms
