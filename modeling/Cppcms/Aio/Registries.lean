import Cppcms.Aio.Reactor
import Cppcms.Library.IndexedArray

/-!
# The registries of the poll and select reactors

`poll_reactor` and `select_reactor` of `reactor.cpp` keep the registered descriptors in an array
`pollfds_`, which the first one hands to the kernel as it is, and find them through `map_`.  A
descriptor is removed by `select` without flags, and `poll_reactor::poll` removes the invalid ones
while it walks through the array.

The vectors are not bounded by the memory, and an access outside of them gives `none`.
-/

namespace Cppcms

namespace Aio

open IndexedArray

/-! ## Registration -/

section Select

variable {ε : Type}

/-- `select` of both reactors: what their check says about the descriptor, a new entry, and the
assignment to it. -/
def selectWith (accepted : Bool) (new : ε) (assignment : ε → ε) (a : IndexedArray ε) (fd : ℤ)
    (flags : UInt32) :
    Option (Option Errno × IndexedArray ε) :=
  if accepted = false then some (some 9, a)
  else if flags = 0 then (a.remove fd.toNat).map fun b => (none, b)
  else (a.entry fd.toNat new).bind fun r => (r.1.assign r.2 assignment).map fun b => (none, b)

/-- The flags that were given last for each descriptor. -/
def noteFlags (accepted : Bool) (last : ℕ → Option UInt32) (fd : ℤ) (flags : UInt32) :
    ℕ → Option UInt32 :=
  if accepted = false then last else Function.update last fd.toNat (some flags)

/-- The map and the array are inverse to each other, and an entry shows the flags that were given
last. -/
structure Keeps (shows' : ε → UInt32 → Prop) (last : ℕ → Option UInt32) (a : IndexedArray ε) :
    Prop where
  inverse : a.Inverse
  shown : ∀ x ∈ a.entries, ∃ flags, last x.1 = some flags ∧ flags ≠ 0 ∧ shows' x.2 flags

variable {accepted : Bool} {new : ε} {assignment : ε → ε} {a b : IndexedArray ε} {fd : ℤ}
    {flags : UInt32}
  {shows' : ε → UInt32 → Prop} {last : ℕ → Option UInt32}

/-- What `select` with flags leaves: an entry with the assigned value, and the other entries. -/
lemma exists_assigned (ha : a.Inverse) (k : ℕ) (new : ε) (assignment : ε → ε) :
    ∃ b, ((a.entry k new).bind fun r => r.1.assign r.2 assignment) = some b ∧ b.Inverse ∧
      (∃ v, (k, assignment v) ∈ b.entries) ∧ ∀ x : ℕ × ε, x.1 ≠ k →
      (x ∈ b.entries ↔ x ∈ a.entries) := by
  rcases ha.entry k new with ⟨b, i, hentry, hb, hcases⟩
  have hplace : ∃ v, b.entries[i]? = some (k, v) := by
    rcases hcases with ⟨v, hv, hentries⟩ | ⟨-, hi, hentries⟩
    · exact ⟨v, by rw [hentries]; exact hv⟩
    · exact ⟨new, by rw [hentries, hi, List.getElem?_append_right (le_refl _), Nat.sub_self]; rfl⟩
  rcases hplace with ⟨v, hv⟩
  rcases hb.assign hv assignment with ⟨c, hassign, hc, hentries⟩
  have hlt := (List.getElem?_eq_some_iff.mp hv).1
  refine ⟨c, by rw [hentry, Option.bind_some]; exact hassign, hc, ⟨v, ?_⟩, ?_⟩
  · rw [hentries]
    exact List.mem_set hlt _
  · intro x hx
    have hother : x ∈ c.entries ↔ x ∈ b.entries := by
      rw [hentries]
      constructor
      · intro hmem
        rcases List.mem_or_eq_of_mem_set hmem with hmem | rfl
        · exact hmem
        · exact absurd rfl hx
      · intro hmem
        rcases List.mem_iff_getElem?.mp hmem with ⟨j, hj⟩
        have hij : i ≠ j := by
          rintro rfl
          rw [hv, Option.some.injEq] at hj
          exact hx (by rw [← hj])
        refine List.mem_of_getElem? (i := j) ?_
        rw [List.getElem?_set_ne hij, hj]
    rw [hother]
    rcases hcases with ⟨w, -, hsame⟩ | ⟨-, -, hgrown⟩
    · rw [hsame]
    · rw [hgrown, List.mem_append, List.mem_singleton]
      exact ⟨fun h => h.elim id fun h => absurd (by rw [h]) hx, Or.inl⟩

/-- One call of `select`: it stays inside of the vectors, an accepted call without flags leaves all
other descriptors, one with flags leaves this one too. -/
lemma selectWith_spec (ha : a.Inverse) (accepted : Bool) (new : ε) (assignment : ε → ε) (fd : ℤ)
    (flags : UInt32) :
    ∃ e b, selectWith accepted new assignment a fd flags = some (e, b) ∧ b.Inverse ∧
      (accepted = false → b = a) ∧
      (accepted = true → ∀ x : ℕ × ε, x.1 ≠ fd.toNat → (x ∈ b.entries ↔ x ∈ a.entries)) ∧
      (accepted = true → flags = 0 → ∀ x ∈ b.entries, x.1 ≠ fd.toNat) ∧
      (accepted = true → flags ≠ 0 → ∃ v, (fd.toNat, assignment v) ∈ b.entries) := by
  unfold selectWith
  by_cases hacc : accepted = false
  · rw [if_pos hacc]
    refine ⟨some 9, a, rfl, ha, fun _ => rfl, ?_, ?_, ?_⟩
    all_goals
      intro h
      rw [hacc] at h
      cases h
  · rw [if_neg hacc]
    by_cases hflags : flags = 0
    · rcases ha.remove fd.toNat with ⟨b, hb, hremoved⟩
      rw [if_pos hflags, hb, Option.map_some]
      refine ⟨none, b, rfl, hremoved.inverse, fun h =>
        absurd h hacc, fun _ x hx => ?_, fun _ _ x hx => ?_, fun _ h => absurd hflags h⟩
      · rw [hremoved.mem]
        exact ⟨fun h => h.1, fun h => ⟨h, hx⟩⟩
      · exact ((hremoved.mem x).mp hx).2
    · rcases exists_assigned ha fd.toNat new assignment with ⟨b, hb, hinverse, hnew, hother⟩
      rw [if_neg hflags]
      refine ⟨none, b, ?_, hinverse, fun h => absurd h hacc, fun _ => hother, fun _ h =>
        absurd h hflags, fun _ _ => hnew⟩
      rcases Option.bind_eq_some_iff.mp hb with ⟨r, hentry, hassign⟩
      rw [hentry, Option.bind_some, hassign, Option.map_some]

/-- A call of `select` keeps the registry. -/
lemma Keeps.selectWith (ha : Keeps shows' last a) (hshows : ∀ v, shows' (assignment v) flags) :
    ∃ e b, selectWith accepted new assignment a fd flags = some (e, b) ∧
      Keeps shows' (noteFlags accepted last fd flags) b := by
  rcases selectWith_spec ha.inverse accepted new assignment fd flags with
    ⟨e, b, hb, hinverse, hsame, hother, hgone, hnew⟩
  refine ⟨e, b, hb, hinverse, fun x hx => ?_⟩
  unfold noteFlags
  rcases hacc : accepted with _ | _
  · rw [if_pos rfl]
    rw [hsame hacc] at hx
    exact ha.shown x hx
  · rw [if_neg (by decide)]
    by_cases hkey : x.1 = fd.toNat
    · have hflags : flags ≠ 0 := fun h => hgone hacc h x hx hkey
      rcases hnew hacc hflags with ⟨v, hv⟩
      have hxv := hinverse.eq_of_key hx hv hkey
      subst hxv
      exact ⟨flags, Function.update_self _ _ _, hflags, hshows v⟩
    · rw [Function.update_of_ne hkey]
      exact ha.shown x ((hother hacc x hkey).mp hx)

end Select

/-! ## select_reactor -/

namespace SelectReactor

/-- `FD_SETSIZE`. -/
def fdSetSize : ℕ := 1024

/-- `select_reactor::check`. -/
def check (fd : ℤ) : Bool := 0 ≤ fd && fd < fdSetSize

/-- The constructor. -/
def init : IndexedArray UInt32 := ⟨List.replicate fdSetSize none, []⟩

/-- `select_reactor::select`. -/
def select (a : IndexedArray UInt32) (fd : ℤ) (flags : UInt32) :
    Option (Option Errno × IndexedArray UInt32) :=
  selectWith (check fd) 0 (fun _ => flags) a fd flags

/-- A number of calls. -/
def run (a : IndexedArray UInt32) : List (ℤ × UInt32) → Option (IndexedArray UInt32)
  | [] => some a
  | c :: calls => (select a c.1 c.2).bind fun r => run r.2 calls

/-- The flags given last. -/
def lastFlags (calls : List (ℤ × UInt32)) : ℕ → Option UInt32 :=
  calls.foldl (fun last c => noteFlags (check c.1) last c.1 c.2) fun _ => none

end SelectReactor

/-! ## poll_reactor -/

namespace PollReactor

/-- `pollfd`, without the descriptor. -/
structure PollData where
  events : Interest
  revents : UInt16

/-- An event for the user. -/
structure Event where
  fd : ℕ
  events : Events

/-- `POLLNVAL`. -/
def pollnval : UInt16 := 0x20

/-- `to_poll_events`. -/
def toPollEvents (event : UInt32) : Interest := ⟨event &&& 1 != 0, event &&& 2 != 0⟩

/-- `to_user_events`: `POLLIN`, `POLLOUT`, and `POLLERR`, `POLLHUP` or `POLLPRI`. -/
def toUserEvents (event : UInt16) : Events :=
  ⟨event &&& 0x1 != 0, event &&& 0x4 != 0, event &&& (0x8 ||| 0x10 ||| 0x2) != 0⟩

/-- `check`. -/
def check (fd : ℤ) : Bool := 0 ≤ fd

def init : IndexedArray PollData := ⟨[], []⟩

/-- `poll_reactor::select`. -/
def select (a : IndexedArray PollData) (fd : ℤ) (flags : UInt32) :
    Option (Option Errno × IndexedArray PollData) :=
  selectWith (check fd) ⟨⟨false, false⟩, 0⟩
    (fun d => { d with events := toPollEvents flags }) a fd flags

/-- The loop of `poll`, with `i`, `count`, and the events that were written. -/
def pollLoop (n : ℤ) (a : IndexedArray PollData) (i : ℕ) (count : ℤ) (out : List Event) :
    Option (IndexedArray PollData × List Event) :=
  match hi : a.entries[i]? with
  | none => some (a, out)
  | some x =>
    if out.length < count ∧ out.length < n then
      if x.2.revents = pollnval then
        -- the entry that takes the place of the removed one is not looked at
        match hb : a.remove x.1 with
        | none => none
        | some b => pollLoop n b (i + 1) (count - 1) out
      else if x.2.revents ≠ 0 then pollLoop n a (i + 1) count
        (out ++ [⟨x.1, toUserEvents x.2.revents⟩])
      else pollLoop n a (i + 1) count out
    else some (a, out)
termination_by a.entries.length - i
decreasing_by
  all_goals have hlt := (List.getElem?_eq_some_iff.mp hi).1
  · have hle := length_le_of_remove hb
    omega
  · omega
  · omega

/-- The kernel has written `revents` of every entry. -/
def answered (a : IndexedArray PollData) (revents : ℕ → UInt16) : IndexedArray PollData :=
  { a with entries := a.entries.mapIdx fun i x => (x.1, { x.2 with revents := revents i }) }

/-- `poll_reactor::poll`, with what the kernel returns. -/
def poll (a : IndexedArray PollData) (n : ℤ) (revents : ℕ → UInt16) (count : ℤ) (errno : Errno) :
    Option (Option Errno × IndexedArray PollData × List Event) :=
  (pollLoop n (answered a revents) 0 count []).map fun r =>
    (if count < 0 then some errno else none, r)

/-- A call of the reactor. -/
inductive Call where
  | select (fd : ℤ) (flags : UInt32)
  | poll (n : ℤ) (revents : ℕ → UInt16) (count : ℤ) (errno : Errno)

def step (a : IndexedArray PollData) : Call → Option (IndexedArray PollData)
  | .select fd flags => (select a fd flags).map fun r => r.2
  | .poll n revents count errno => (poll a n revents count errno).map fun r => r.2.1

/-- A number of calls. -/
def run (a : IndexedArray PollData) : List Call → Option (IndexedArray PollData)
  | [] => some a
  | c :: calls => (step a c).bind fun b => run b calls

/-- What a call says about the flags. -/
def note (last : ℕ → Option UInt32) : Call → ℕ → Option UInt32
  | .select fd flags => noteFlags (check fd) last fd flags
  | .poll _ _ _ _ => last

/-- The flags given last. -/
def lastFlags (calls : List Call) : ℕ → Option UInt32 := calls.foldl note fun _ => none

/-! ## Polling -/

variable {a b : IndexedArray PollData} {i : ℕ} {n : ℤ} {out : List Event}

/-- Where the loop stands: the events are those of entries in front of `i`, at most `n` of them, and
what has gone from the array was invalid. -/
structure Walks (a₀ a : IndexedArray PollData) (n : ℤ) (i : ℕ) (out : List Event) : Prop where
  inverse : a.Inverse
  kept : ∀ x ∈ a.entries, x ∈ a₀.entries
  gone : ∀ x ∈ a₀.entries, x ∉ a.entries → x.2.revents = pollnval
  reported : ∀ ev ∈ out, ∃ j < i, ∃ d, a.entries[j]? = some (ev.fd, d) ∧ d.revents ≠ 0 ∧
    ev.events = toUserEvents d.revents
  nodup : (out.map Event.fd).Nodup
  length_le : out.length ≤ n.toNat

variable {a₀ : IndexedArray PollData}

variable {x : ℕ × PollData} {last : ℕ → Option UInt32}

/-- An invalid entry is removed; the events belong to entries in front of it. -/
lemma Walks.removed (h : Walks a₀ a n i out) (hx : a.entries[i]? = some x)
    (hinvalid : x.2.revents = pollnval) (hb : Removed a x.1 b) : Walks a₀ b n (i + 1) out where
  inverse := hb.inverse
  kept := fun e he => h.kept e ((hb.mem e).mp he).1
  gone := by
    intro e he hnot
    by_cases hmem : e ∈ a.entries
    · have hkey : e.1 = x.1 := by
        by_contra hne
        exact hnot ((hb.mem e).mpr ⟨hmem, hne⟩)
      rw [h.inverse.eq_of_key hmem (List.mem_of_getElem? hx) hkey]
      exact hinvalid
    · exact h.gone e he hmem
  reported := by
    intro ev hev
    rcases h.reported ev hev with ⟨j, hj, d, hget, hrevents⟩
    exact ⟨j, by omega, d, by rw [hb.front i x.2 hx j hj]; exact hget, hrevents⟩
  nodup := h.nodup
  length_le := h.length_le

/-- An entry without an event is passed over. -/
lemma Walks.passed (h : Walks a₀ a n i out) : Walks a₀ a n (i + 1) out where
  inverse := h.inverse
  kept := h.kept
  gone := h.gone
  reported := by
    intro ev hev
    rcases h.reported ev hev with ⟨j, hj, hrest⟩
    exact ⟨j, by omega, hrest⟩
  nodup := h.nodup
  length_le := h.length_le

/-- An event is written: no other entry has the descriptor, so it is a new one. -/
lemma Walks.written (h : Walks a₀ a n i out) (hx : a.entries[i]? = some x) (hroom : out.length < n)
    (hrevents : x.2.revents ≠ 0) :
    Walks a₀ a n (i + 1) (out ++ [⟨x.1, toUserEvents x.2.revents⟩]) where
  inverse := h.inverse
  kept := h.kept
  gone := h.gone
  reported := by
    intro ev hev
    rcases List.mem_append.mp hev with hev | hev
    · exact h.passed.reported ev hev
    · rw [List.mem_singleton.mp hev]
      exact ⟨i, Nat.lt_succ_self i, x.2, hx, hrevents, rfl⟩
  nodup := by
    rw [List.map_append, List.map_singleton]
    refine List.nodup_append'.mpr ⟨h.nodup, List.nodup_singleton _, ?_⟩
    intro fd hfd hnew
    rw [List.mem_singleton.mp hnew] at hfd
    rcases List.mem_map.mp hfd with ⟨ev, hev, hkey⟩
    rcases h.reported ev hev with ⟨j, hj, d, hget, -⟩
    have := h.inverse.index_inj hget hx hkey
    omega
  length_le := by
    rw [List.length_append, List.length_singleton]
    omega

/-- The loop stays inside of the vectors up to its end. -/
lemma Walks.pollLoop (h : Walks a₀ a n i out) (count : ℤ) :
    ∃ b j events, pollLoop n a i count out = some (b, events) ∧ Walks a₀ b n j events := by
  induction hm : a.entries.length - i using Nat.strong_induction_on generalizing a i count out with
  | _ m ih =>
    rw [PollReactor.pollLoop]
    split
    · exact ⟨a, i, out, rfl, h⟩
    · rename_i x hx
      have hlt := (List.getElem?_eq_some_iff.mp hx).1
      by_cases hgo : out.length < count ∧ out.length < n
      · rw [if_pos hgo]
        by_cases hinvalid : x.2.revents = pollnval
        · rw [if_pos hinvalid]
          rcases h.inverse.remove x.1 with ⟨b, hb, hremoved⟩
          have hle := length_le_of_remove hb
          split
          · rename_i hnone
            rw [hb] at hnone
            cases hnone
          · rename_i c hc
            rw [hb, Option.some.injEq] at hc
            subst hc
            exact ih (b.entries.length - (i + 1)) (by omega)
              (h.removed hx hinvalid hremoved) (count - 1) rfl
        · rw [if_neg hinvalid]
          by_cases hrevents : x.2.revents ≠ 0
          · rw [if_pos hrevents]
            exact ih (a.entries.length - (i + 1)) (by omega) (h.written hx hgo.2 hrevents) count rfl
          · rw [if_neg hrevents]
            exact ih (a.entries.length - (i + 1)) (by omega) h.passed count rfl
      · rw [if_neg hgo]
        exact ⟨a, i, out, rfl, h⟩

lemma getElem?_answered (a : IndexedArray PollData) (revents : ℕ → UInt16) (i : ℕ) :
    (answered a revents).entries[i]? = (a.entries[i]?).map fun x =>
    (x.1, { x.2 with revents := revents i }) := by
  unfold answered
  rw [List.getElem?_mapIdx]

/-- The kernel changes no descriptor. -/
lemma inverse_answered (ha : a.Inverse) (revents : ℕ → UInt16) : (answered a revents).Inverse := by
  intro k i
  rw [getElem?_answered, Option.map_map]
  exact ha k i

/-- What one call of `poll` does to a registry: it reports at most `n` events, of different
descriptors, each registered and with the events that the kernel has written for it; it unregisters
invalid descriptors only. -/
structure Polled (a b : IndexedArray PollData) (n : ℤ) (revents : ℕ → UInt16)
    (events : List Event) : Prop where
  inverse : b.Inverse
  length_le : events.length ≤ n.toNat
  nodup : (events.map Event.fd).Nodup
  reported : ∀ ev ∈ events, ∃ i d, a.entries[i]? = some (ev.fd, d) ∧ revents i ≠ 0 ∧
    ev.events = toUserEvents (revents i)
  kept : ∀ x ∈ b.entries, ∃ d, (x.1, d) ∈ a.entries ∧ x.2.events = d.events
  gone : ∀ i fd d, a.entries[i]? = some (fd, d) → revents i ≠ pollnval →
    (fd, ({ d with revents := revents i } : PollData)) ∈ b.entries

/-- One call of `poll`. -/
lemma poll_spec (ha : a.Inverse) (n : ℤ) (revents : ℕ → UInt16) (count : ℤ) (errno : Errno) :
    ∃ e b events, poll a n revents count errno = some (e, b, events) ∧
    Polled a b n revents events := by
  have hstart : Walks (answered a revents) (answered a revents) n 0 [] :=
    ⟨inverse_answered ha revents, fun _ hx => hx, fun _ hx hnot => absurd hx hnot, fun _ hev =>
      absurd hev List.not_mem_nil, List.nodup_nil, Nat.zero_le _⟩
  rcases hstart.pollLoop count with ⟨b, j, events, hloop, hwalks⟩
  have hanswered : ∀ x ∈ (answered a revents).entries, ∃ (i : ℕ) (d : PollData),
      a.entries[i]? = some (x.1, d) ∧ x.2 = ({ d with revents := revents i } : PollData) := by
    intro x hx
    rcases List.mem_iff_getElem?.mp hx with ⟨i, hi⟩
    rw [getElem?_answered] at hi
    rcases Option.map_eq_some_iff.mp hi with ⟨⟨fd, d⟩, hget, rfl⟩
    exact ⟨i, d, hget, rfl⟩
  have hpoll : poll a n revents count errno =
      some (if count < 0 then some errno else none, b, events) := by
    unfold poll
    rw [hloop, Option.map_some]
  refine ⟨_, b, events, hpoll, hwalks.inverse, hwalks.length_le, hwalks.nodup, ?_, ?_, ?_⟩
  · intro ev hev
    rcases hwalks.reported ev hev with ⟨k, -, d, hget, hrevents, hevents⟩
    rcases hanswered _ (hwalks.kept _ (List.mem_of_getElem? hget)) with ⟨i, d', hi, hd⟩
    have hsame : d.revents = revents i := congrArg PollData.revents hd
    exact ⟨i, d', hi, hsame ▸ hrevents, hsame ▸ hevents⟩
  · intro x hx
    rcases hanswered x (hwalks.kept x hx) with ⟨i, d, hi, hd⟩
    exact ⟨d, List.mem_of_getElem? hi, by rw [hd]⟩
  · intro i fd d hi hvalid
    have hmem : (fd, ({ d with revents := revents i } : PollData)) ∈
        (answered a revents).entries := by
      refine List.mem_of_getElem? (i := i) ?_
      rw [getElem?_answered, hi, Option.map_some]
    by_contra hnot
    exact hvalid (hwalks.gone _ hmem hnot)

/-! ## Runs -/

/-- An entry waits for what the flags ask for. -/
def Shows (d : PollData) (flags : UInt32) : Prop := d.events = toPollEvents flags

lemma keeps_init : Keeps Shows (fun _ => none) init :=
  ⟨fun k i => ⟨(fun h => by cases h), fun h => by cases h⟩, fun _ hx => absurd hx List.not_mem_nil⟩

/-- One call keeps the registry. -/
lemma keeps_step (ha : Keeps Shows last a) (c : Call) :
    ∃ b, step a c = some b ∧ Keeps Shows (note last c) b := by
  cases c with
  | select fd flags =>
    have hshows : ∀ d : PollData, Shows { d with events := toPollEvents flags } flags := fun _ =>
      rfl
    rcases @Keeps.selectWith _ (check fd) ⟨⟨false, false⟩, 0⟩ _ a fd flags Shows last ha hshows with
      ⟨e, b, hb, hkeeps⟩
    refine ⟨b, ?_, hkeeps⟩
    show (select a fd flags).map _ = some b
    unfold select
    rw [hb, Option.map_some]
  | poll n revents count errno =>
    rcases poll_spec ha.inverse n revents count errno with ⟨e, b, events, hpoll, hpolled⟩
    refine ⟨b, ?_, hpolled.inverse, fun x hx => ?_⟩
    · show (poll a n revents count errno).map _ = some b
      rw [hpoll, Option.map_some]
    · rcases hpolled.kept x hx with ⟨d, hd, hevents⟩
      rcases ha.shown _ hd with ⟨flags, hlast, hflags, hshows⟩
      exact ⟨flags, hlast, hflags, hevents.trans hshows⟩

/-- All calls keep the registry. -/
lemma keeps_run (ha : Keeps Shows last a) (calls : List Call) :
    ∃ b, run a calls = some b ∧ Keeps Shows (calls.foldl note last) b := by
  induction calls generalizing a last with
  | nil => exact ⟨a, rfl, ha⟩
  | cons c calls ih =>
    rcases keeps_step ha c with ⟨b, hb, hkeeps⟩
    rcases ih hkeeps with ⟨d, hd, hrest⟩
    exact ⟨d, by rw [run, hb, Option.bind_some, hd], hrest⟩

end PollReactor

namespace SelectReactor

variable {a : IndexedArray UInt32}

/-- The entries are the flags that were given last. -/
def Exact (last : ℕ → Option UInt32) (a : IndexedArray UInt32) : Prop :=
  a.Inverse ∧ ∀ fd flags, (fd, flags) ∈ a.entries ↔ last fd = some flags ∧ flags ≠ 0

lemma exact_init : Exact (fun _ => none) init :=
  ⟨inverse_empty fdSetSize, fun _ _ => ⟨fun h => absurd h List.not_mem_nil, fun h => by cases h.1⟩⟩

variable {last : ℕ → Option UInt32}

/-- One call keeps the entries exact. -/
lemma exact_select (ha : Exact last a) (fd : ℤ) (flags : UInt32) :
    ∃ e b, select a fd flags = some (e, b) ∧ Exact (noteFlags (check fd) last fd flags) b := by
  rcases selectWith_spec ha.1 (check fd) 0 (fun _ => flags) fd flags with
    ⟨e, b, hb, hinverse, hsame, hother, hgone, hnew⟩
  refine ⟨e, b, hb, hinverse, fun q f => ?_⟩
  unfold noteFlags
  rcases hacc : check fd with _ | _
  · rw [if_pos rfl, hsame hacc]
    exact ha.2 q f
  · rw [if_neg (by decide)]
    by_cases hq : q = fd.toNat
    · subst hq
      rw [Function.update_self, Option.some.injEq]
      constructor
      · intro hmem
        have hflags : flags ≠ 0 := fun h => hgone hacc h _ hmem rfl
        rcases hnew hacc hflags with ⟨v, hv⟩
        have heq : flags = f := congrArg Prod.snd (hinverse.eq_of_key hv hmem rfl)
        exact ⟨heq, heq ▸ hflags⟩
      · rintro ⟨rfl, hflags⟩
        rcases hnew hacc hflags with ⟨v, hv⟩
        exact hv
    · rw [Function.update_of_ne hq, hother hacc (q, f) hq]
      exact ha.2 q f

lemma exact_run (ha : Exact last a) (calls : List (ℤ × UInt32)) :
    ∃ b, run a calls = some b ∧
      Exact (calls.foldl (fun last c => noteFlags (check c.1) last c.1 c.2) last) b := by
  induction calls generalizing a last with
  | nil => exact ⟨a, rfl, ha⟩
  | cons c calls ih =>
    rcases exact_select ha c.1 c.2 with ⟨e, b, hb, hexact⟩
    rcases ih hexact with ⟨d, hd, hrest⟩
    exact ⟨d, by rw [run, hb, Option.bind_some, hd], hrest⟩

end SelectReactor

/-- The registries of both reactors after any calls: no access is outside of the vectors, the map
and the array are inverse to each other, every registered descriptor has the flags that were given
last, and what the next `poll` of `poll_reactor` reports is at most `n` events of different
descriptors, registered and with events of the kernel. -/
theorem registries_inverse (calls : List PollReactor.Call) (selects : List (ℤ × UInt32)) :
    (∃ a, PollReactor.run PollReactor.init calls = some a ∧ a.Inverse ∧
      (∀ x ∈ a.entries, ∃ flags, PollReactor.lastFlags calls x.1 = some flags ∧ flags ≠ 0 ∧
        x.2.events = PollReactor.toPollEvents flags) ∧
      ∀ n revents count errno, ∃ e b events,
        PollReactor.poll a n revents count errno = some (e, b, events) ∧
        PollReactor.Polled a b n revents events) ∧
    ∃ a, SelectReactor.run SelectReactor.init selects = some a ∧ a.Inverse ∧
      ∀ fd flags, (fd, flags) ∈ a.entries ↔
      SelectReactor.lastFlags selects fd = some flags ∧ flags ≠ 0 := by
  constructor
  · rcases PollReactor.keeps_run PollReactor.keeps_init calls with ⟨a, ha, hkeeps⟩
    exact ⟨a, ha, hkeeps.inverse, hkeeps.shown, fun n revents count errno =>
      PollReactor.poll_spec hkeeps.inverse n revents count errno⟩
  · rcases SelectReactor.exact_run SelectReactor.exact_init selects with ⟨a, ha, hexact⟩
    exact ⟨a, ha, hexact.1, hexact.2⟩

end Aio

end Cppcms
