import Cppcms.Base.Bytes

/-!
# Session storages

The interface `session_storage`, with the state of the storage made explicit.  Every call is given
the time at which it is made.
-/

namespace Cppcms

namespace Session

/-- `session_storage`. -/
structure Storage (σ : Type) where
  save : ℤ → σ → Bytes → ℤ → Bytes → σ
  load : ℤ → σ → Bytes → σ × Option (ℤ × Bytes)
  remove : ℤ → σ → Bytes → σ

/-- A call of a session storage. -/
inductive Call where
  | save (now : ℤ) (sid : Bytes) (timeout : ℤ) (value : Bytes)
  | load (now : ℤ) (sid : Bytes)
  | remove (now : ℤ) (sid : Bytes)

/-- The session of a call. -/
def Call.sid : Call → Bytes
  | .save _ sid _ _ => sid
  | .load _ sid => sid
  | .remove _ sid => sid

/-- The value that a call saves. -/
def Call.value : Call → Bytes
  | .save _ _ _ value => value
  | _ => []

namespace Storage

variable {σ : Type}

/-- A call, and what it has loaded. -/
def apply (storage : Storage σ) (s : σ) : Call → σ × Option (ℤ × Bytes)
  | .save now sid timeout value => (storage.save now s sid timeout value, none)
  | .load now sid => storage.load now s sid
  | .remove now sid => (storage.remove now s sid, none)

/-- The storage after a list of calls. -/
def run (storage : Storage σ) (s : σ) (calls : List Call) : σ :=
  calls.foldl (fun s call => (storage.apply s call).1) s

/-- A storage that loads only what has been saved. -/
def LoadsSaved (storage : Storage σ) (s : σ) : Prop :=
  ∀ calls now sid timeout value,
    (storage.load now (storage.run s calls) sid).2 = some (timeout, value) →
      ∃ now', .save now' sid timeout value ∈ calls

/-- What a call leaves of a session. -/
def written (sid : Bytes) (last : Option (ℤ × Bytes)) : Call → Option (ℤ × Bytes)
  | .save _ sid' timeout value => if sid' = sid then some (timeout, value) else last
  | .load _ _ => last
  | .remove _ sid' => if sid' = sid then none else last

/-- What the calls leave of a session: the deadline and the value of the last one that saves or
removes it. -/
def lastWrite (sid : Bytes) (calls : List Call) : Option (ℤ × Bytes) :=
  calls.foldl (written sid) none

lemma lastWrite_append (sid : Bytes) (calls : List Call) (call : Call) :
    lastWrite sid (calls ++ [call]) = written sid (lastWrite sid calls) call := by
  unfold lastWrite
  rw [List.foldl_append, List.foldl_cons, List.foldl_nil]

lemma run_append (storage : Storage σ) (s : σ) (calls : List Call) (call : Call) :
    storage.run s (calls ++ [call]) = (storage.apply (storage.run s calls) call).1 := by
  unfold run
  rw [List.foldl_append, List.foldl_cons, List.foldl_nil]

/-- A storage that loads only what the last call has left. -/
def LoadsLast (storage : Storage σ) (s : σ) : Prop :=
  ∀ calls now sid x, (storage.load now (storage.run s calls) sid).2 = some x →
    lastWrite sid calls = some x

lemma exists_save_of_lastWrite {sid : Bytes} {calls : List Call} {timeout : ℤ} {value : Bytes}
    (h : lastWrite sid calls = some (timeout, value)) :
    ∃ now, .save now sid timeout value ∈ calls := by
  induction calls using List.reverseRecOn with
  | nil => cases h
  | append_singleton calls call ih =>
    rw [lastWrite_append] at h
    have hkeep : lastWrite sid calls = some (timeout, value) →
        ∃ now, Call.save now sid timeout value ∈ calls ++ [call] := by
      intro hlast
      obtain ⟨now, hmem⟩ := ih hlast
      exact ⟨now, List.mem_append_left _ hmem⟩
    cases call with
    | save now sid' timeout' value' =>
      rw [written] at h
      split_ifs at h with heq
      · obtain ⟨rfl, rfl⟩ := Prod.mk.inj (Option.some.inj h)
        exact ⟨now, by rw [heq]; exact List.mem_append_right _ (List.mem_singleton.2 rfl)⟩
      · exact hkeep h
    | load now sid' => exact hkeep h
    | remove now sid' =>
      rw [written] at h
      split_ifs at h
      exact hkeep h

/-- A storage that keeps a session up to its deadline and forgets what is removed. -/
structure Faithful (storage : Storage σ) : Prop where
  load_save : ∀ s now now' sid timeout value, now ≤ now' → now' < timeout →
    (storage.load now' (storage.save now s sid timeout value) sid).2 = some (timeout, value)
  load_remove : ∀ s now now' sid, (storage.load now' (storage.remove now s sid) sid).2 = none

lemma LoadsLast.loadsSaved {storage : Storage σ} {s : σ} (h : storage.LoadsLast s) :
    storage.LoadsSaved s := by
  intro calls now sid timeout value hload
  exact exists_save_of_lastWrite (h calls now sid _ hload)

end Storage

/-! ## A storage in memory -/

/-- The sessions with their deadlines and values. -/
abbrev Table := List (Bytes × ℤ × Bytes)

/-- A storage that keeps the sessions in a table until they are removed. -/
def table : Storage Table where
  save _ s sid timeout value := (sid, timeout, value) :: s.filter fun x => x.1 ≠ sid
  load now s sid := (s, (s.lookup sid).filter fun x => now ≤ x.1)
  remove _ s sid := s.filter fun x => x.1 ≠ sid

lemma lookup_filter_ne {β : Type} (l : List (Bytes × β)) (sid sid' : Bytes) :
    (l.filter fun x => x.1 ≠ sid').lookup sid = if sid' = sid then none else l.lookup sid := by
  induction l with
  | nil => exact (ite_self none).symm
  | cons x l ih =>
    obtain ⟨a, b⟩ := x
    by_cases ha : a = sid'
    · subst ha
      rw [List.filter_cons_of_neg (by simp), ih]
      split_ifs with heq
      · rfl
      · rw [List.lookup_cons, beq_false_of_ne (Ne.symm heq)]
    · rw [List.filter_cons_of_pos (by simpa using ha), List.lookup_cons, List.lookup_cons, ih]
      split_ifs with heq
      · subst heq
        rw [beq_false_of_ne (Ne.symm ha)]
      · rfl

lemma table_loadsLast : table.LoadsLast [] := by
  intro calls now sid x hload
  have hlast : (table.run [] calls).lookup sid = Storage.lastWrite sid calls := by
    clear hload
    induction calls using List.reverseRecOn with
    | nil => rfl
    | append_singleton calls call ih =>
      have hfilter : ∀ sid', (List.filter (fun x => x.1 ≠ sid') (table.run [] calls)).lookup sid =
          if sid' = sid then none else Storage.lastWrite sid calls := by
        intro sid'
        rw [lookup_filter_ne, ih]
      rw [Storage.run_append, Storage.lastWrite_append]
      cases call with
      | save now' sid' timeout' value' =>
        rw [Storage.written]
        split_ifs with heq
        · subst heq
          exact List.lookup_cons_self
        · have hbeq : (sid == sid') = false := beq_false_of_ne (Ne.symm heq)
          refine (List.lookup_cons.trans ?_).trans ((hfilter sid').trans (if_neg heq))
          rw [hbeq]
      | load now' sid' => exact ih
      | remove now' sid' => exact hfilter sid'
  obtain ⟨hlookup, -⟩ := Option.filter_eq_some_iff.1 hload
  rw [← hlast, hlookup]

lemma table_faithful : table.Faithful := by
  constructor
  · intro s now now' sid timeout value _ hlt
    have hlookup : (table.save now s sid timeout value).lookup sid = some (timeout, value) :=
      List.lookup_cons_self
    show ((table.save now s sid timeout value).lookup sid).filter _ = _
    rw [hlookup, Option.filter_some, if_pos (decide_eq_true hlt.le)]
  · intro s now now' sid
    have hlookup : (table.remove now s sid).lookup sid = none := by
      unfold table
      rw [lookup_filter_ne, if_pos rfl]
    show ((table.remove now s sid).lookup sid).filter _ = _
    rw [hlookup, Option.filter_none]

lemma table_loadsSaved : table.LoadsSaved [] := table_loadsLast.loadsSaved

end Session

end Cppcms
