import JoinOperator.Scheduler.Exclusion

/-! # Safety of the job queue

No thread faults, jobs come out in the order they went in, and a job passed to
`writeOnQueue` is always in exactly one place.
-/

namespace JoinOperator.Scheduler

variable {Thread Job : Type}

namespace ThreadState

/-- The job a writer has been given and not finished inserting. -/
def withWriter : ThreadState Job → Option Job
  | .enterWriteLock job | .enterWriteTest job | .enterWriteWait job _
  | .insertLink job | .insertLast job _ | .insertSize job => some job
  | _ => none

/-- The job a worker has popped and not finished running. -/
def withWorker : ThreadState Job → Option Job
  | .exitReadLock job | .exitReadBody job | .exitReadShutdown job
  | .runJob job => some job
  | _ => none

@[simp] theorem withWriter_wake (position : ThreadState Job) :
    position.wake.withWriter = position.withWriter := by
  cases position <;> rfl

@[simp] theorem withWorker_wake (position : ThreadState Job) :
    position.wake.withWorker = position.withWorker := by
  cases position <;> rfl

end ThreadState

open ThreadState

/-- Where a job can be. Positions in the queue and among the finished jobs are
counted from the start of the run. -/
inductive Place (Thread : Type)
  | writer (thread : Thread)
  | queue (position : Nat)
  | worker (thread : Thread)
  | finished (position : Nat)

namespace SchedulerState

def At (state : SchedulerState Thread Job) : Place Thread → Job → Prop
  | .writer thread, job => (state.thread thread).withWriter = some job
  | .queue position, job => state.shared.popped.length ≤ position ∧
      state.shared.inserted[position]? = some job
  | .worker thread, job => (state.thread thread).withWorker = some job
  | .finished position, job => state.shared.finished[position]? = some job

end SchedulerState

/-- Every passed job is in one place, and nothing else is anywhere. -/
structure Placed (state : SchedulerState Thread Job) : Prop where
  known : ∀ place job, state.At place job → job ∈ state.shared.passed
  unique : ∀ place other job, state.At place job → state.At other job → place = other
  somewhere : ∀ job ∈ state.shared.passed, ∃ place, state.At place job

theorem Placed.move {before after : SchedulerState Thread Job}
    (placed : Placed before) (job : Job) (new : Place Thread)
    (moved : ∀ place other, after.At place other ↔
      (before.At place other ∧ other ≠ job) ∨ (place = new ∧ other = job))
    (passed : ∀ other, other ∈ after.shared.passed ↔
      other ∈ before.shared.passed ∨ other = job) : Placed after where
  known := by
    intro place other at_
    rcases (moved place other).mp at_ with ⟨at_, _⟩ | ⟨_, same⟩
    · exact (passed other).mpr (.inl (placed.known place other at_))
    · exact (passed other).mpr (.inr same)
  unique := by
    intro place place' other at_ at_'
    rcases (moved place other).mp at_ with ⟨at_, differs⟩ | ⟨isNew, same⟩ <;>
      rcases (moved place' other).mp at_' with ⟨at_', differs'⟩ | ⟨isNew', same'⟩
    · exact placed.unique place place' other at_ at_'
    · exact absurd same' differs
    · exact absurd same differs'
    · rw [isNew, isNew']
  somewhere := by
    intro other member
    by_cases same : other = job
    · exact ⟨new, (moved new other).mpr (.inr ⟨rfl, same⟩)⟩
    · rcases (passed other).mp member with member | equal
      · rcases placed.somewhere other member with ⟨place, at_⟩
        exact ⟨place, (moved place other).mpr (.inl ⟨at_, same⟩)⟩
      · exact absurd equal same

/-- What one step does to the jobs: nothing, or it takes one job one place
further. A job is lost only after a fault or a shutdown request. -/
inductive Transfer (position : ThreadState Job) (shared : Shared Thread Job)
    (next : ThreadState Job) (after : Shared Thread Job) : Prop
  | stays (writer : next.withWriter = position.withWriter)
      (worker : next.withWorker = position.withWorker)
      (passed : after.passed = shared.passed) (inserted : after.inserted = shared.inserted)
      (popped : after.popped = shared.popped) (finished : after.finished = shared.finished)
  | called (job : Job) (isNew : job ∉ shared.passed)
      (fromNone : position.withWriter = none) (writer : next.withWriter = some job)
      (worker : next.withWorker = position.withWorker)
      (passed : after.passed = shared.passed ++ [job])
      (inserted : after.inserted = shared.inserted) (popped : after.popped = shared.popped)
      (finished : after.finished = shared.finished)
  | inserted (job : Job) (writer : position.withWriter = some job)
      (toNone : next.withWriter = none) (worker : next.withWorker = position.withWorker)
      (passed : after.passed = shared.passed)
      (inserted : after.inserted = shared.inserted ++ [job])
      (popped : after.popped = shared.popped) (finished : after.finished = shared.finished)
  | popped (job : Job)
      (head : ∀ jobs, position.QueueAt shared.jobQueue jobs → jobs.head? = some job)
      (writer : next.withWriter = position.withWriter)
      (fromNone : position.withWorker = none) (worker : next.withWorker = some job)
      (inside : position.Inside) (passed : after.passed = shared.passed)
      (inserted : after.inserted = shared.inserted)
      (popped : after.popped = shared.popped ++ [job])
      (finished : after.finished = shared.finished)
  | finished (job : Job) (writer : next.withWriter = position.withWriter)
      (worker : position.withWorker = some job) (toNone : next.withWorker = none)
      (passed : after.passed = shared.passed) (inserted : after.inserted = shared.inserted)
      (popped : after.popped = shared.popped)
      (finished : after.finished = shared.finished ++ [job])
  | lost (excluded : next = .faulted ∨ shared.shutdown = true)

theorem Acts.transfer {self : Thread} {position next : ThreadState Job}
    {shared after : Shared Thread Job} {signals : Signals}
    (acts : Acts self position shared signals next after) :
    Transfer position shared next after := by
  cases acts with
  | writeOnQueue job isNew =>
      exact .called job isNew rfl rfl rfl rfl rfl rfl rfl
  | insertSize job => exact .inserted job rfl rfl rfl rfl rfl rfl rfl
  | popJob retNode result =>
      refine .popped _ (fun jobs queueAt => ?_) rfl rfl rfl (.inr trivial) rfl rfl rfl rfl
      rcases takeJob_of_queueAt queueAt with ⟨job, rest, popped, jobsAre, taken, _⟩
      rw [result] at taken
      cases taken
      simp [jobsAre]
  | runJob job => exact .finished job rfl rfl rfl rfl rfl rfl rfl
  | insertLinkFault | insertLastFault | popTestFault | popUnlinkFault | popJobFault =>
      exact .lost (.inl rfl)
  | exitReadExit job stopped => exact .lost (.inr stopped)
  | _ => exact .stays rfl rfl rfl rfl rfl rfl

theorem Acts.shutdown {self : Thread} {position next : ThreadState Job}
    {shared after : Shared Thread Job} {signals : Signals}
    (acts : Acts self position shared signals next after) :
    after.shutdown = shared.shutdown := by
  cases acts <;> rfl

section Steps

variable [DecidableEq Thread] {before after : SchedulerState Thread Job} {self : Thread}
  {signals : Signals} {position : ThreadState Job}

/-- Nobody follows a bad pointer or pops an empty queue. -/
def NoFault (state : SchedulerState Thread Job) : Prop :=
  ∀ thread, state.thread thread ≠ .faulted

private theorem wake_ne_faulted {position : ThreadState Job}
    (sound : position ≠ .faulted) : position.wake ≠ .faulted := by
  cases position <;> simp_all [wake]

omit [DecidableEq Thread] in
private theorem position_ne_faulted (exclusive : Exclusive before) {shared : Shared Thread Job}
    (acts : Acts self (before.thread self) before.shared signals position shared) :
    position ≠ .faulted := by
  rintro rfl
  cases acts.passage with
  | outside _ _ sound | exitWrite _ _ sound | exitRead _ _ sound => exact sound rfl
  | enterWrite _ _ inside | enterRead _ _ inside => exact inside.elim
  | inside sides =>
      rcases sides with ⟨_, inside⟩ | ⟨_, inside⟩ <;> exact inside.elim
  | fault inside impossible =>
      exact impossible _ (exclusive.occupied.of_inside inside).2.2

theorem NoFault.step (exclusive : Exclusive before) (noFault : NoFault before)
    (step : Step before after) : NoFault after := by
  intro thread
  rcases step.acts_or_frames with ⟨_, threads⟩ |
    ⟨self, signals, position, shared, acts, delivered, rfl, _⟩
  · rcases threads thread with same | woken
    · rw [same]
      exact noFault thread
    · rw [woken]
      exact wake_ne_faulted (noFault thread)
  · have sound : Function.update before.thread self position thread ≠ .faulted := by
      by_cases same : thread = self
      · subst same
        simpa using position_ne_faulted exclusive acts
      · simpa [Function.update_of_ne same] using noFault thread
    rcases delivered.eq_or_wake thread with same | woken
    · rwa [same]
    · rw [woken]
      exact wake_ne_faulted sound

end Steps

theorem at_functional {state : SchedulerState Thread Job} {place : Place Thread}
    {job other : Job} (at_ : state.At place job) (at_' : state.At place other) :
    other = job := by
  cases place with
  | writer thread => exact Option.some.inj (at_'.symm.trans at_)
  | queue index => exact Option.some.inj (at_'.2.symm.trans at_.2)
  | worker thread => exact Option.some.inj (at_'.symm.trans at_)
  | finished index => exact Option.some.inj (at_'.symm.trans at_)

theorem Placed.moveFrom {before after : SchedulerState Thread Job}
    (placed : Placed before) (old new : Place Thread) {job : Job}
    (source : before.At old job)
    (moved : ∀ place other, after.At place other ↔
      (place ≠ old ∧ before.At place other) ∨ (place = new ∧ other = job))
    (passed : after.shared.passed = before.shared.passed) : Placed after := by
  refine placed.move job new (fun place other => ?_) (fun other => ?_)
  · rw [moved]
    refine or_congr_left ⟨?_, ?_⟩
    · rintro ⟨differs, at_⟩
      refine ⟨at_, fun same => differs ?_⟩
      subst same
      exact placed.unique _ _ _ at_ source
    · rintro ⟨at_, differs⟩
      refine ⟨fun same => differs ?_, at_⟩
      subst same
      exact at_functional source at_
  · rw [passed]
    constructor
    · exact .inl
    · rintro (member | same)
      · exact member
      · exact same ▸ placed.known _ _ source

theorem Placed.same {before after : SchedulerState Thread Job} (placed : Placed before)
    (at_ : ∀ place job, after.At place job ↔ before.At place job)
    (passed : after.shared.passed = before.shared.passed) : Placed after where
  known := fun place job member => passed ▸ placed.known place job ((at_ place job).mp member)
  unique := fun place other job member member' =>
    placed.unique place other job ((at_ place job).mp member) ((at_ other job).mp member')
  somewhere := by
    intro job member
    rcases placed.somewhere job (passed ▸ member) with ⟨place, member⟩
    exact ⟨place, (at_ place job).mpr member⟩

section Transfers

variable [DecidableEq Thread] {before after : SchedulerState Thread Job} {self : Thread}
  {signals : Signals} {position : ThreadState Job}

private theorem at_writer
    (delivered : Delivered (Function.update before.thread self position) signals
      after.thread) (thread : Thread) (job : Job) :
    after.At (.writer thread) job ↔
      if thread = self then position.withWriter = some job
      else before.At (.writer thread) job := by
  rw [SchedulerState.At, delivered.view withWriter withWriter_wake,
    Function.update_apply]
  split <;> rfl

private theorem at_worker
    (delivered : Delivered (Function.update before.thread self position) signals
      after.thread) (thread : Thread) (job : Job) :
    after.At (.worker thread) job ↔
      if thread = self then position.withWorker = some job
      else before.At (.worker thread) job := by
  rw [SchedulerState.At, delivered.view withWorker withWorker_wake,
    Function.update_apply]
  split <;> rfl

private theorem at_writer_same
    (delivered : Delivered (Function.update before.thread self position) signals
      after.thread) (same : position.withWriter = (before.thread self).withWriter)
    (thread : Thread) (job : Job) :
    after.At (.writer thread) job ↔ before.At (.writer thread) job := by
  rw [at_writer delivered]
  split
  · next isSelf => rw [isSelf, same, SchedulerState.At]
  · rfl

private theorem at_worker_same
    (delivered : Delivered (Function.update before.thread self position) signals
      after.thread) (same : position.withWorker = (before.thread self).withWorker)
    (thread : Thread) (job : Job) :
    after.At (.worker thread) job ↔ before.At (.worker thread) job := by
  rw [at_worker delivered]
  split
  · next isSelf => rw [isSelf, same, SchedulerState.At]
  · rfl

private theorem placed_called (placed : Placed before) {job : Job}
    (delivered : Delivered (Function.update before.thread self position) signals
      after.thread)
    (isNew : job ∉ before.shared.passed) (fromNone : (before.thread self).withWriter = none)
    (writer : position.withWriter = some job)
    (worker : position.withWorker = (before.thread self).withWorker)
    (passed : after.shared.passed = before.shared.passed ++ [job])
    (inserted : after.shared.inserted = before.shared.inserted)
    (popped : after.shared.popped = before.shared.popped)
    (finished : after.shared.finished = before.shared.finished) : Placed after := by
  refine placed.move job (.writer self) (fun place other => ?_) (by simp [passed])
  have different : before.At place other → other ≠ job := fun at_ same =>
    isNew (same ▸ placed.known place other at_)
  have stays : before.At place other ↔ before.At place other ∧ other ≠ job :=
    ⟨fun at_ => ⟨at_, different at_⟩, And.left⟩
  rw [← stays]
  cases place with
  | writer thread =>
      rw [at_writer delivered]
      by_cases isSelf : thread = self
      · subst isSelf
        simp [writer, SchedulerState.At, fromNone, eq_comm]
      · simp [isSelf]
  | worker thread => simpa using at_worker_same delivered worker thread other
  | queue index => simp [SchedulerState.At, inserted, popped]
  | finished index => simp [SchedulerState.At, finished]

/-- The last update of `insertInQueue` takes the job from its writer to the
queue. -/
private theorem placed_inserted (placed : Placed before) {job : Job}
    (delivered : Delivered (Function.update before.thread self position) signals
      after.thread)
    (fits : before.shared.popped.length ≤ before.shared.inserted.length)
    (writer : (before.thread self).withWriter = some job)
    (toNone : position.withWriter = none)
    (worker : position.withWorker = (before.thread self).withWorker)
    (passed : after.shared.passed = before.shared.passed)
    (inserted : after.shared.inserted = before.shared.inserted ++ [job])
    (popped : after.shared.popped = before.shared.popped)
    (finished : after.shared.finished = before.shared.finished) : Placed after := by
  refine placed.moveFrom (.writer self) (.queue before.shared.inserted.length)
    writer (fun place other => ?_) passed
  cases place with
  | writer thread =>
      rw [at_writer delivered]
      by_cases isSelf : thread = self <;> simp [isSelf, toNone]
  | worker thread => simpa using at_worker_same delivered worker thread other
  | queue index =>
      simp only [SchedulerState.At, inserted, popped, ne_eq, reduceCtorEq, not_false_eq_true,
        true_and, Place.queue.injEq]
      rcases Nat.lt_trichotomy index before.shared.inserted.length with earlier | last | later
      · simp [List.getElem?_append_left earlier, Nat.ne_of_lt earlier]
      · subst last
        simp [fits, eq_comm]
      · rw [List.getElem?_eq_none (by simp; omega),
          List.getElem?_eq_none (by omega : before.shared.inserted.length ≤ index)]
        simp
        omega
  | finished index => simp [SchedulerState.At, finished]

/-- The last update of `popFromQueue` takes the first queued job to the worker. -/
private theorem placed_popped (placed : Placed before) {job : Job}
    (delivered : Delivered (Function.update before.thread self position) signals
      after.thread)
    (head : before.shared.inserted[before.shared.popped.length]? = some job)
    (writer : position.withWriter = (before.thread self).withWriter)
    (fromNone : (before.thread self).withWorker = none)
    (worker : position.withWorker = some job)
    (passed : after.shared.passed = before.shared.passed)
    (inserted : after.shared.inserted = before.shared.inserted)
    (popped : after.shared.popped = before.shared.popped ++ [job])
    (finished : after.shared.finished = before.shared.finished) : Placed after := by
  refine placed.moveFrom (.queue before.shared.popped.length) (.worker self)
    ⟨Nat.le_refl _, head⟩ (fun place other => ?_) passed
  cases place with
  | writer thread => simpa using at_writer_same delivered writer thread other
  | worker thread =>
      rw [at_worker delivered]
      by_cases isSelf : thread = self
      · subst isSelf
        simp [worker, SchedulerState.At, fromNone, eq_comm]
      · simp [isSelf]
  | queue index =>
      simp only [SchedulerState.At, inserted, popped, List.length_append, List.length_cons,
        List.length_nil, ne_eq, Place.queue.injEq, reduceCtorEq, false_and, or_false,
        ← and_assoc]
      refine and_congr_left fun _ => ?_
      omega
  | finished index => simp [SchedulerState.At, finished]

private theorem placed_finished (placed : Placed before) {job : Job}
    (delivered : Delivered (Function.update before.thread self position) signals
      after.thread)
    (writer : position.withWriter = (before.thread self).withWriter)
    (worker : (before.thread self).withWorker = some job)
    (toNone : position.withWorker = none)
    (passed : after.shared.passed = before.shared.passed)
    (inserted : after.shared.inserted = before.shared.inserted)
    (popped : after.shared.popped = before.shared.popped)
    (finished : after.shared.finished = before.shared.finished ++ [job]) :
    Placed after := by
  refine placed.moveFrom (.worker self) (.finished before.shared.finished.length)
    worker (fun place other => ?_) passed
  cases place with
  | writer thread => simpa using at_writer_same delivered writer thread other
  | worker thread =>
      rw [at_worker delivered]
      by_cases isSelf : thread = self <;> simp [isSelf, toNone]
  | queue index => simp [SchedulerState.At, inserted, popped]
  | finished index =>
      simp only [SchedulerState.At, finished, ne_eq, reduceCtorEq, not_false_eq_true,
        true_and, Place.finished.injEq]
      rcases Nat.lt_trichotomy index before.shared.finished.length with earlier | last | later
      · simp [List.getElem?_append_left earlier, Nat.ne_of_lt earlier]
      · subst last
        simp [eq_comm]
      · rw [List.getElem?_eq_none (by simp; omega),
          List.getElem?_eq_none (by omega : before.shared.finished.length ≤ index)]
        simp
        omega

theorem Placed.transfer (placed : Placed before) (exclusive : Exclusive before)
    (transfer : Transfer (before.thread self) before.shared position after.shared)
    (sound : position ≠ .faulted) (running : before.shared.shutdown = false)
    (delivered : Delivered (Function.update before.thread self position) signals
      after.thread) : Placed after := by
  cases transfer with
  | stays writer worker passed inserted popped finished =>
      refine placed.same (fun place job => ?_) passed
      cases place with
      | writer thread => exact at_writer_same delivered writer thread job
      | worker thread => exact at_worker_same delivered worker thread job
      | queue index => simp [SchedulerState.At, inserted, popped]
      | finished index => simp [SchedulerState.At, finished]
  | called job isNew fromNone writer worker passed inserted popped finished =>
      exact placed_called placed delivered isNew fromNone writer worker passed inserted
        popped finished
  | inserted job writer toNone worker passed inserted popped finished =>
      have fits : before.shared.popped.length ≤ before.shared.inserted.length := by
        rw [← exclusive.fifo]
        simp
      exact placed_inserted placed delivered fits writer toNone worker passed inserted
        popped finished
  | popped job head writer fromNone worker inside passed inserted popped finished =>
      have first := head _ (exclusive.occupied.of_inside inside).2.2
      rw [Shared.queued, List.head?_drop] at first
      exact placed_popped placed delivered first writer fromNone worker passed inserted
        popped finished
  | finished job writer worker toNone passed inserted popped finished =>
      exact placed_finished placed delivered writer worker toNone passed inserted popped
        finished
  | lost excluded =>
      rcases excluded with fault | stopped
      · exact absurd fault sound
      · rw [running] at stopped
        cases stopped

end Transfers

/-! ## The result -/

structure QueueSafe (state : SchedulerState Thread Job) : Prop where
  counters : state.shared.reading + state.shared.writing ≤ 1
  alone : ∀ thread other, (state.thread thread).Inside → (state.thread other).Inside →
    thread = other
  popsSome : ∀ thread, state.thread thread = .popTest → state.shared.jobQueue.size ≠ 0
  noFault : NoFault state
  described : (∀ thread, ¬ (state.thread thread).Updating) →
    state.shared.jobQueue.Represents state.shared.queued
  fifo : state.shared.popped ++ state.shared.queued = state.shared.inserted
  onePlace : ∀ job ∈ state.shared.passed, ∃! place, state.At place job

theorem placed_initial {isWorker : Thread → Prop} {state : SchedulerState Thread Job}
    (initial : Initial isWorker state) : Placed state := by
  have nowhere : ∀ place job, ¬ state.At place job := by
    intro place job at_
    have positions : ∀ thread, (state.thread thread).withWriter = none ∧
        (state.thread thread).withWorker = none := by
      intro thread
      by_cases worker : isWorker thread
      · simp [initial.workers thread worker, withWriter, withWorker]
      · simp [initial.writers thread worker, withWriter, withWorker]
    cases place with
    | writer thread => simp [SchedulerState.At, (positions thread).1] at at_
    | worker thread => simp [SchedulerState.At, (positions thread).2] at at_
    | queue index => simp [SchedulerState.At, initial.inserted] at at_
    | finished index => simp [SchedulerState.At, initial.finished] at at_
  refine ⟨fun place job at_ => absurd at_ (nowhere place job),
    fun place other job at_ => absurd at_ (nowhere place job), ?_⟩
  simp [initial.passed]

section Reachable

variable [DecidableEq Thread] {isWorker : Thread → Prop} {state : SchedulerState Thread Job}

theorem reachable_noFault
    (reachable : Foundation.Reachable (Initial isWorker) Step state) : NoFault state := by
  refine reachable.invariant (fun start initial thread => ?_)
    fun before after reachable noFault step =>
      noFault.step (reachable_exclusive reachable) step
  by_cases worker : isWorker thread
  · simp [initial.workers thread worker]
  · simp [initial.writers thread worker]

private theorem placed_step {before after : SchedulerState Thread Job}
    (reachable : Foundation.Reachable (Initial isWorker) Step before)
    (placed : before.shared.shutdown = false → Placed before) (step : Step before after)
    (running : after.shared.shutdown = false) : Placed after := by
  have exclusive := reachable_exclusive reachable
  cases step with
  | acts self acts delivered =>
      have runningBefore : before.shared.shutdown = false := acts.shutdown ▸ running
      exact (placed runningBefore).transfer exclusive acts.transfer
        (position_ne_faulted exclusive acts) runningBefore delivered
  | spurious waiter =>
      refine (placed running).same (fun place job => ?_) rfl
      have threads : ∀ thread,
          Function.update before.thread waiter (before.thread waiter).wake thread =
            before.thread thread ∨
          Function.update before.thread waiter (before.thread waiter).wake thread =
            (before.thread thread).wake := by
        intro thread
        by_cases same : thread = waiter
        · subst same
          simp
        · simp [Function.update_of_ne same]
      cases place with
      | writer thread =>
          rcases threads thread with same | woken <;> simp [SchedulerState.At, *]
      | worker thread =>
          rcases threads thread with same | woken <;> simp [SchedulerState.At, *]
      | queue index => rfl
      | finished index => rfl
  | setShutdown => cases running
  | broadcast requested threads woken =>
      refine (placed running).same (fun place job => ?_) rfl
      have same : ∀ thread, threads thread = before.thread thread ∨
          threads thread = (before.thread thread).wake := by
        intro thread
        by_cases blocked : (before.thread thread).Blocked .condRead
        · exact .inr ((woken thread).1 blocked)
        · exact .inl ((woken thread).2 blocked)
      cases place with
      | writer thread =>
          rcases same thread with same | woken <;> simp [SchedulerState.At, *]
      | worker thread =>
          rcases same thread with same | woken <;> simp [SchedulerState.At, *]
      | queue index => rfl
      | finished index => rfl

def PlacedWhileRunning (state : SchedulerState Thread Job) : Prop :=
  state.shared.shutdown = false → Placed state

theorem reachable_placed
    (reachable : Foundation.Reachable (Initial isWorker) Step state)
    (running : state.shared.shutdown = false) : Placed state := by
  have placed : PlacedWhileRunning state := by
    refine reachable.invariant ?_ ?_
    · exact fun start initial _ => placed_initial initial
    · exact fun before after reachable placed step => placed_step reachable placed step
  exact placed running

/-- In every reachable state of any number of writers and workers, as long as
shutdown is not requested, the queue is safe. -/
theorem reachable_queueSafe
    (reachable : Foundation.Reachable (Initial isWorker) Step state)
    (running : state.shared.shutdown = false) : QueueSafe state := by
  have exclusive := reachable_exclusive reachable
  have placed := reachable_placed reachable running
  have occupied := exclusive.occupied
  refine ⟨?_, ?_, ?_, reachable_noFault reachable, ?_, exclusive.fifo, ?_⟩
  · cases occupied with
    | free writing reading _ _ => omega
    | held occupant side _ _ => omega
  · intro thread other inside inside'
    exact (occupied.of_inside inside').2.1 thread inside
  · intro thread popping
    have inside : (state.thread thread).Inside := by simp [popping, Inside, InRead]
    have queueAt := (occupied.of_inside inside).2.2
    rw [popping] at queueAt
    rw [queueAt.1.size_eq]
    exact fun noJobs => queueAt.2 (List.length_eq_zero_iff.mp noJobs)
  · intro quiet
    cases occupied with
    | free _ _ _ represents => exact represents
    | held occupant side _ queueAt =>
        have notUpdating := quiet occupant
        cases position : state.thread occupant <;>
          simp_all [Updating, QueueAt, InWrite, InRead]
  · intro job member
    rcases placed.somewhere job member with ⟨place, at_⟩
    exact ⟨place, at_, fun other at_' => placed.unique other place job at_' at_⟩

/-- A run of one writer and one worker in which job `7` reaches the queue and
the worker is inside to pop it. -/
theorem queueSafe_popping : ∃ state : SchedulerState Bool Nat,
    state.thread true = .popTest ∧ state.shared.inserted = [7] ∧ QueueSafe state := by
  have run : Foundation.Reachable (Initial (· = true)) Step
      (⟨⟨none, 0, 0, false, .empty, [], [], [], []⟩,
        fun thread => if thread then .executorTest else .writerIdle, .notRequested⟩ :
          SchedulerState Bool Nat) :=
    .start ⟨rfl, rfl, rfl, rfl, rfl, rfl, rfl, rfl, rfl, by simp, by simp, rfl⟩
  have run := run.next (.acts false (.writeOnQueue 7 (by simp)) .nothing)
  have run := run.next (.acts false (.enterWriteLock 7 rfl) .nothing)
  have run := run.next (.acts false (.enterWriteGo 7 (by simp [Shared.Busy])) .nothing)
  have run := run.next (.acts false (.insertLink 7 rfl) .nothing)
  have run := run.next (.acts false (.insertLast 7 true rfl) .nothing)
  have run := run.next (.acts false (.insertSize 7) .nothing)
  have run := run.next (.acts false (.exitWriteLock rfl) .nothing)
  have run := run.next (.acts false .exitWriteBody
    (.read (.lost (by intro waiter; cases waiter <;> simp [Blocked]))))
  have run := run.next (.acts true (.executorTest rfl) .nothing)
  have run := run.next (.acts true (.enterReadLock rfl) .nothing)
  have run := run.next (.acts true (.enterReadShutdown rfl) .nothing)
  have run := run.next (.acts true (.enterReadGo (by simp [Shared.Busy])
    (by simp [JobQueueHead.incrementSize])) .nothing)
  exact ⟨_, rfl, rfl, reachable_queueSafe run rfl⟩

end Reachable

end JoinOperator.Scheduler
