import Cppcms.Library.Machine

/-!
# The thread pool

`impl::thread_pool` of `thread_pool.cpp`.  Jobs wait in a list under the numbers that `post` gave to
them, and the workers take them off its front.  Every critical section is one step, and a worker
that took a job calls it before it takes the mutex again; `finish` is the return of the job.

The condition variable may wake a worker at any time, also when nobody notified it.
-/

namespace Cppcms

namespace Service

/-- An element of `queue_`. -/
structure Job where
  id : ℤ
  /-- An empty function is not called. -/
  callable : Bool
  deriving DecidableEq

/-- Where a worker is: in front of the critical section, in `cond_.wait`, in a job, or behind its
loop. -/
inductive Worker where
  | ready
  | waiting
  | running
  | exited
  deriving DecidableEq

/-- The pool, and what became of the jobs so far. -/
structure ThreadPool where
  shutDown : Bool
  /-- An `int`. -/
  jobId : ℤ
  queue : List Job
  workers : ℕ → Worker
  /-- The jobs in the order of the calls of `post`. -/
  posted : List Job
  /-- The jobs in the order in which the workers took them. -/
  dequeued : List Job
  /-- The numbers for which `cancel` returned true. -/
  cancelled : List ℤ

/-- The steps of the clients and of the workers. -/
inductive ThreadStep where
  | post (callable : Bool)
  | cancel (id : ℤ)
  | stop
  | worker (i : ℕ)
  | wake (i : ℕ)
  | finish (i : ℕ)

/-- The loop of `cancel`: the list without the job, if it is there. -/
def removeJob (id : ℤ) : List Job → Option (List Job)
  | [] => none
  | p :: rest => if p.id = id then some rest else (removeJob id rest).map (p :: ·)

namespace ThreadPool

/-- The constructor. -/
def init (threads : ℕ) : ThreadPool :=
  ⟨false, 0, [], fun i => if i < threads then .ready else .exited, [], [], []⟩

/-- `post`. -/
def post (p : ThreadPool) (callable : Bool) : ThreadPool :=
  { p with
    jobId := (p.jobId + 1).bmod (2 ^ 32)
    queue := p.queue ++ [⟨p.jobId, callable⟩]
    posted := p.posted ++ [⟨p.jobId, callable⟩] }

/-- `cancel`, with what it returns. -/
def cancel (p : ThreadPool) (id : ℤ) : Bool × ThreadPool :=
  match removeJob id p.queue with
  | some queue => (true, { p with queue := queue, cancelled := p.cancelled ++ [id] })
  | none => (false, p)

def setWorker (p : ThreadPool) (i : ℕ) (s : Worker) : ThreadPool :=
  { p with workers := Function.update p.workers i s }

/-- The critical section of `worker`, and the start of the job. -/
def worker (p : ThreadPool) (i : ℕ) : ThreadPool :=
  if p.workers i ≠ .ready then p
  else if p.shutDown then p.setWorker i .exited
  else
    match p.queue with
    | [] => p.setWorker i .waiting
    | job :: queue =>
      { p.setWorker i (if job.callable then .running else .ready) with
        queue := queue
        dequeued := p.dequeued ++ [job] }

def step (p : ThreadPool) : ThreadStep → ThreadPool
  | .post callable => p.post callable
  | .cancel id => (p.cancel id).2
  | .stop => { p with shutDown := true }
  | .worker i => p.worker i
  | .wake i => if p.workers i = .waiting then p.setWorker i .ready else p
  | .finish i => if p.workers i = .running then p.setWorker i .ready else p

/-- The numbers of the jobs that were called, in the order of the calls. -/
def started (p : ThreadPool) : List ℤ := (p.dequeued.filter Job.callable).map Job.id

/-- The numbers of the jobs that wait. -/
def queued (p : ThreadPool) : List ℤ := p.queue.map Job.id

end ThreadPool

def ThreadStep.isPost : ThreadStep → Bool
  | .post _ => true
  | _ => false

/-! ## The loop of `cancel` -/

variable {id : ℤ}

/-- A job is not removed if and only if it is not there. -/
lemma removeJob_eq_none_iff {l : List Job} : removeJob id l = none ↔ id ∉ l.map Job.id := by
  induction l with
  | nil => simp [removeJob]
  | cons p rest ih =>
    rw [removeJob, List.map_cons, List.mem_cons, not_or]
    split_ifs with h
    · simp [h]
    · rw [Option.map_eq_none_iff, ih]
      exact ⟨fun hrest => ⟨Ne.symm h, hrest⟩, fun hrest => hrest.2⟩

/-- Of a list with different numbers exactly the job is removed. -/
lemma filter_eq_of_removeJob {l q : List Job} (h : removeJob id l = some q)
    (hnodup : (l.map Job.id).Nodup) :
    l.filter (fun e => e.id ≠ id) = q := by
  induction l generalizing q with
  | nil => cases h
  | cons p rest ih =>
    rw [List.map_cons, List.nodup_cons] at hnodup
    rw [removeJob] at h
    split_ifs at h with hid
    · have hq : rest = q := Option.some.inj h
      rw [List.filter_cons_of_neg (by simpa using hid), ← hq]
      refine List.filter_eq_self.2 fun e he => ?_
      have hne : e.id ≠ id := fun heq => hnodup.1 (List.mem_map.2 ⟨e, he, heq.trans hid.symm⟩)
      simpa using hne
    · rcases Option.map_eq_some_iff.1 h with ⟨q', hq', rfl⟩
      rw [List.filter_cons_of_pos (by simpa using hid), ih hq' hnodup.2]

namespace ThreadPool

/-- The jobs that were not cancelled are those which the workers took followed by those which wait,
in the order in which they were posted. -/
structure Accounted (p : ThreadPool) : Prop where
  jobId_eq : p.jobId = p.posted.length
  ids : p.posted.map Job.id = (List.range p.posted.length).map Int.ofNat
  cancelled_lt : ∀ id ∈ p.cancelled, id < p.posted.length
  order : p.posted.filter (fun e => e.id ∉ p.cancelled) = p.dequeued ++ p.queue

/-- The jobs are the same, but for those which went from the front of the queue to the workers. -/
structure SameJobs (q p : ThreadPool) : Prop where
  jobId_eq : q.jobId = p.jobId
  posted_eq : q.posted = p.posted
  cancelled_eq : q.cancelled = p.cancelled
  order_eq : q.dequeued ++ q.queue = p.dequeued ++ p.queue

/-- The numbers do not overflow. -/
def Counts (p : ThreadPool) (s : ThreadStep) : Prop :=
  s.isPost = true → p.posted.length + 1 < 2 ^ 31

section Steps

variable {p : ThreadPool}

lemma SameJobs.refl (p : ThreadPool) : p.SameJobs p := ⟨rfl, rfl, rfl, rfl⟩

lemma sameJobs_setWorker (p : ThreadPool) (i : ℕ) (s : Worker) : (p.setWorker i s).SameJobs p :=
  ⟨rfl, rfl, rfl, rfl⟩

lemma sameJobs_stop (p : ThreadPool) : (p.step .stop).SameJobs p := ⟨rfl, rfl, rfl, rfl⟩

/-- A worker takes a job and loses none. -/
lemma sameJobs_worker (p : ThreadPool) (i : ℕ) : (p.step (.worker i)).SameJobs p := by
  show (p.worker i).SameJobs p
  unfold ThreadPool.worker
  split_ifs with hready hdown
  · exact SameJobs.refl p
  · exact sameJobs_setWorker p i _
  · rcases hqueue : p.queue with _ | ⟨job, queue⟩
    · exact sameJobs_setWorker p i _
    · refine ⟨rfl, rfl, rfl, ?_⟩
      show p.dequeued ++ [job] ++ queue = p.dequeued ++ p.queue
      rw [hqueue, List.append_assoc, List.singleton_append]

lemma sameJobs_wake (p : ThreadPool) (i : ℕ) : (p.step (.wake i)).SameJobs p := by
  show (if _ then _ else _ : ThreadPool).SameJobs p
  split_ifs
  · exact sameJobs_setWorker p i _
  · exact SameJobs.refl p

lemma sameJobs_finish (p : ThreadPool) (i : ℕ) : (p.step (.finish i)).SameJobs p := by
  show (if _ then _ else _ : ThreadPool).SameJobs p
  split_ifs
  · exact sameJobs_setWorker p i _
  · exact SameJobs.refl p

lemma Accounted.nodup_posted (h : p.Accounted) : (p.posted.map Job.id).Nodup := by
  rw [h.ids]
  exact List.nodup_range.map fun _ _ => Int.ofNat.inj

/-- The jobs keep the order in which they were posted. -/
lemma Accounted.sublist (h : p.Accounted) : (p.dequeued ++ p.queue).Sublist p.posted := by
  rw [← h.order]
  exact List.filter_sublist

/-- No job is there twice. -/
lemma Accounted.nodup (h : p.Accounted) : ((p.dequeued ++ p.queue).map Job.id).Nodup :=
  h.nodup_posted.sublist (h.sublist.map _)

lemma accounted_init (threads : ℕ) : (init threads).Accounted :=
  ⟨rfl, rfl, fun _ hid => absurd hid List.not_mem_nil, rfl⟩

/-- A job that is posted has a new number, as long as the numbers suffice. -/
lemma Accounted.post (h : p.Accounted) {callable : Bool} (hcount : p.Counts (.post callable)) :
    (p.post callable).Accounted := by
  have hlt : p.posted.length + 1 < 2 ^ 31 := hcount rfl
  have hlength : (p.post callable).posted.length = p.posted.length + 1 := by
    simp [ThreadPool.post]
  refine ⟨?_, ?_, fun id hid => ?_, ?_⟩
  · rw [hlength]
    show (p.jobId + 1).bmod (2 ^ 32) = _
    rw [h.jobId_eq, Int.bmod_eq_of_le (by omega) (by omega)]
    rfl
  · rw [hlength, List.range_succ, List.map_append, ← h.ids, List.map_singleton]
    show (p.posted ++ [_]).map Job.id = _
    rw [List.map_append, List.map_singleton, h.jobId_eq]
    rfl
  · have hold := h.cancelled_lt id hid
    rw [hlength]
    push_cast
    omega
  · have hnew : p.jobId ∉ p.cancelled := by
      intro hmem
      have hbelow := h.cancelled_lt _ hmem
      rw [h.jobId_eq] at hbelow
      exact lt_irrefl _ hbelow
    show (p.posted ++ [_]).filter _ = p.dequeued ++ (p.queue ++ [_])
    rw [List.filter_append, ← List.append_assoc, ← h.order]
    congr 1
    exact List.filter_cons_of_pos (decide_eq_true hnew)

/-- A cancelled job is in the queue no more. -/
lemma Accounted.cancel (h : p.Accounted) (id : ℤ) : (p.cancel id).2.Accounted := by
  unfold ThreadPool.cancel
  rcases hremove : removeJob id p.queue with _ | queue
  · exact h
  · have hmem : id ∈ p.queue.map Job.id := by
      by_contra hnone
      rw [removeJob_eq_none_iff.2 hnone] at hremove
      cases hremove
    have hnodup := h.nodup
    rw [List.map_append, List.nodup_append'] at hnodup
    refine ⟨h.jobId_eq, h.ids, fun id' hid => ?_, ?_⟩
    · rcases List.mem_append.1 hid with hid | hid
      · exact h.cancelled_lt id' hid
      · have hposted : id ∈ p.posted.map Job.id :=
          (h.sublist.map _).subset (by rw [List.map_append]; exact List.mem_append_right _ hmem)
        rw [h.ids] at hposted
        rcases List.mem_map.1 hposted with ⟨n, hn, rfl⟩
        rw [List.mem_singleton.1 hid]
        exact Int.ofNat_lt.2 (List.mem_range.1 hn)
    · -- what is dequeued has other numbers, and of the queue only the job goes
      have hsplit : p.posted.filter (fun e => e.id ∉ p.cancelled ++ [id]) =
          (p.posted.filter (fun e => e.id ∉ p.cancelled)).filter (fun e => e.id ≠ id) := by
        rw [List.filter_filter]
        refine List.filter_congr fun e _ => ?_
        simp only [List.mem_append, List.mem_singleton, not_or, Bool.decide_and]
        exact Bool.and_comm _ _
      have hdequeued : p.dequeued.filter (fun e => e.id ≠ id) = p.dequeued := by
        refine List.filter_eq_self.2 fun e he => ?_
        have hne : e.id ≠ id := fun heq => hnodup.2.2 (List.mem_map.2 ⟨e, he, heq⟩) hmem
        simpa using hne
      show p.posted.filter (fun e => e.id ∉ p.cancelled ++ [id]) = p.dequeued ++ queue
      rw [hsplit, h.order, List.filter_append, hdequeued, filter_eq_of_removeJob hremove hnodup.2.1]

lemma Accounted.of_sameJobs {q : ThreadPool} (h : p.Accounted) (hq : q.SameJobs p) :
    q.Accounted := by
  rcases hq with ⟨hjobId, hposted, hcancelled, horder⟩
  constructor
  · rw [hjobId, hposted]
    exact h.jobId_eq
  · rw [hposted]
    exact h.ids
  · rw [hcancelled, hposted]
    exact h.cancelled_lt
  · rw [hcancelled, hposted, horder]
    exact h.order

/-- Every step accounts for all jobs. -/
lemma Accounted.step (h : p.Accounted) {s : ThreadStep} (hcount : p.Counts s) :
    (p.step s).Accounted := by
  cases s with
  | post callable => exact h.post hcount
  | cancel id => exact h.cancel id
  | stop => exact h.of_sameJobs (sameJobs_stop p)
  | worker i => exact h.of_sameJobs (sameJobs_worker p i)
  | wake i => exact h.of_sameJobs (sameJobs_wake p i)
  | finish i => exact h.of_sameJobs (sameJobs_finish p i)

end Steps

/-! ## Runs -/

section Runs

variable {p : ThreadPool}

lemma length_posted_step (p : ThreadPool) (s : ThreadStep) :
    (p.step s).posted.length = p.posted.length + if s.isPost then 1 else 0 := by
  cases s with
  | post callable => exact List.length_append
  | cancel id =>
    show (p.cancel id).2.posted.length = p.posted.length
    unfold ThreadPool.cancel
    split
    · rfl
    · rfl
  | stop => exact congrArg List.length (sameJobs_stop p).posted_eq
  | worker i => exact congrArg List.length (sameJobs_worker p i).posted_eq
  | wake i => exact congrArg List.length (sameJobs_wake p i).posted_eq
  | finish i => exact congrArg List.length (sameJobs_finish p i).posted_eq

/-- The jobs that were posted in a run are counted. -/
lemma length_posted_foldl (p : ThreadPool) (steps : List ThreadStep) :
    (steps.foldl step p).posted.length = p.posted.length + steps.countP ThreadStep.isPost := by
  induction steps generalizing p with
  | nil => rfl
  | cons s steps ih =>
    rw [List.foldl_cons, ih, length_posted_step, List.countP_cons]
    omega

variable {steps : List ThreadStep} {e : Job}

/-- The numbers do not overflow in a run with fewer than `2 ^ 31` posts. -/
lemma obeys_counts (h : p.posted.length + steps.countP ThreadStep.isPost < 2 ^ 31) :
    Machine.Obeys step Counts p steps := by
  induction steps generalizing p with
  | nil => trivial
  | cons s steps ih =>
    rw [List.countP_cons] at h
    refine ⟨fun hpost => ?_, ih ?_⟩
    · rw [if_pos hpost] at h
      omega
    · rw [length_posted_step]
      omega

lemma Accounted.foldl (h : p.Accounted)
    (hposts : p.posted.length + steps.countP ThreadStep.isPost < 2 ^ 31) :
    (steps.foldl ThreadPool.step p).Accounted :=
  Machine.invariant_foldl (fun _ _ h hcount => h.step hcount) h (obeys_counts hposts)

/-- What is cancelled stays so. -/
lemma mem_cancelled_step (h : id ∈ p.cancelled) (s : ThreadStep) : id ∈ (p.step s).cancelled := by
  cases s with
  | post callable => exact h
  | cancel id' =>
    show id ∈ (p.cancel id').2.cancelled
    unfold ThreadPool.cancel
    split
    · exact List.mem_append_left _ h
    · exact h
  | stop => exact h
  | worker i => rwa [(sameJobs_worker p i).cancelled_eq]
  | wake i => rwa [(sameJobs_wake p i).cancelled_eq]
  | finish i => rwa [(sameJobs_finish p i).cancelled_eq]

lemma mem_cancelled_foldl (h : id ∈ p.cancelled) (steps : List ThreadStep) :
    id ∈ (steps.foldl step p).cancelled := by
  induction steps generalizing p with
  | nil => exact h
  | cons s steps ih => exact ih (mem_cancelled_step h s)

lemma Accounted.not_mem_cancelled (h : p.Accounted) (he : e ∈ p.dequeued ++ p.queue) :
    e.id ∉ p.cancelled := by
  rw [← h.order] at he
  exact of_decide_eq_true (List.mem_filter.1 he).2

/-- A cancelled job is never started. -/
lemma Accounted.not_mem_started (h : p.Accounted) (hid : id ∈ p.cancelled) : id ∉ p.started := by
  intro hstarted
  rcases List.mem_map.1 hstarted with ⟨e, he, rfl⟩
  exact h.not_mem_cancelled (List.mem_append_left _ (List.mem_of_mem_filter he)) hid

/-- No job is started twice. -/
lemma Accounted.nodup_started (h : p.Accounted) : p.started.Nodup := by
  have hnodup := h.nodup
  rw [List.map_append] at hnodup
  exact hnodup.of_append_left.sublist (List.filter_sublist.map _)

/-- A job that was not cancelled or started still waits. -/
lemma Accounted.mem_queue (h : p.Accounted) (he : e ∈ p.posted) (hcallable : e.callable = true)
    (hcancelled : e.id ∉ p.cancelled) (hstarted : e.id ∉ p.started) : e ∈ p.queue := by
  have hmem : e ∈ p.dequeued ++ p.queue := by
    rw [← h.order]
    exact List.mem_filter.2 ⟨he, decide_eq_true hcancelled⟩
  rcases List.mem_append.1 hmem with hmem | hmem
  · exact absurd (List.mem_map.2 ⟨e, List.mem_filter.2 ⟨hmem, hcallable⟩, rfl⟩) hstarted
  · exact hmem

/-- A job can be cancelled if and only if it still waits. -/
lemma cancel_fst_iff (p : ThreadPool) (id : ℤ) : (p.cancel id).1 = true ↔ id ∈ p.queued := by
  unfold ThreadPool.cancel queued
  rcases hremove : removeJob id p.queue with _ | queue
  · simpa using removeJob_eq_none_iff.1 hremove
  · have hmem : id ∈ p.queue.map Job.id := by
      by_contra hnone
      rw [removeJob_eq_none_iff.2 hnone] at hremove
      cases hremove
    exact ⟨fun _ => hmem, fun _ => rfl⟩

lemma mem_cancelled_of_cancel (h : (p.cancel id).1 = true) : id ∈ (p.cancel id).2.cancelled := by
  unfold ThreadPool.cancel at h ⊢
  rcases hremove : removeJob id p.queue with _ | queue
  · rw [hremove] at h
    cases h
  · exact List.mem_append_right _ (List.mem_singleton_self id)

/-- In every state that clients and workers reach by any interleaving: no job was started twice, the
jobs were dequeued in the order of posting, and a job which is neither cancelled nor started waits
in the queue.  There `cancel` returns true exactly if the job waits, and then the job is not started
in any continuation. -/
theorem run_jobs (threads : ℕ) (before later : List ThreadStep)
    (hposts : (before ++ later).countP ThreadStep.isPost < 2 ^ 31) :
    (before.foldl step (init threads)).started.Nodup ∧
      (before.foldl step (init threads)).dequeued.Sublist
        (before.foldl step (init threads)).posted ∧
      (∀ e ∈ (before.foldl step (init threads)).posted, e.callable = true →
        e.id ∉ (before.foldl step (init threads)).cancelled →
        e.id ∉ (before.foldl step (init threads)).started →
        e ∈ (before.foldl step (init threads)).queue) ∧
      ∀ id, (((before.foldl step (init threads)).cancel id).1 = true ↔
          id ∈ (before.foldl step (init threads)).queued) ∧
        (((before.foldl step (init threads)).cancel id).1 = true →
          id ∉ (later.foldl step ((before.foldl step (init threads)).cancel id).2).started) := by
  rw [List.countP_append] at hposts
  have hlength := length_posted_foldl (init threads) before
  have h : (before.foldl step (init threads)).Accounted := by
    refine (accounted_init threads).foldl ?_
    show 0 + _ < _
    omega
  refine ⟨h.nodup_started, (List.sublist_append_left _ _).trans h.sublist,
    fun e he hcallable hcancelled hstarted =>
    h.mem_queue he hcallable hcancelled hstarted, fun id =>
    ⟨cancel_fst_iff _ id, fun htrue => ?_⟩⟩
  have hcancel : (((before.foldl step (init threads)).cancel id).2).posted.length =
      (before.foldl step (init threads)).posted.length := length_posted_step _ (.cancel id)
  have hlater : (later.foldl step ((before.foldl step (init threads)).cancel id).2).Accounted := by
    refine (h.cancel id).foldl ?_
    rw [hcancel, hlength]
    show 0 + _ + _ < _
    omega
  exact hlater.not_mem_started (mem_cancelled_foldl (mem_cancelled_of_cancel htrue) later)

end Runs

/-- Three jobs are posted, and the first of two workers takes one. -/
def threeJobs : List ThreadStep := [.post true, .post true, .post true, .worker 0]

/-- The second job is cancelled, and both workers go on. -/
theorem run_jobs_threeJobs : ((threeJobs.foldl step (init 2)).cancel 1).1 = true ∧
    (1 : ℤ) ∉ ([ThreadStep.worker 1, .finish 0, .worker 0].foldl step
      ((threeJobs.foldl step (init 2)).cancel 1).2).started :=
  ⟨by decide, ((run_jobs 2 threeJobs [.worker 1, .finish 0, .worker 0] (by decide)).2.2.2 1).2
    (by decide)⟩

end ThreadPool

end Service

end Cppcms
