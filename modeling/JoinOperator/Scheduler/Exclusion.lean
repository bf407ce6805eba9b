import JoinOperator.Scheduler.JobScheduler

/-! # Exclusion

Who holds `queueMutex`, and who is between `enterWrite` or `enterRead` and the
matching exit. The queue is touched without the mutex, so this is what keeps
its three fields consistent.
-/

namespace JoinOperator.Scheduler

variable {Thread Job : Type}

namespace ThreadState

def HoldsMutex : ThreadState Job → Prop
  | .enterWriteTest _ | .exitWriteBody | .enterReadShutdown | .enterReadTest
  | .loopShutdown | .loopSignal | .loopWait | .exitReadBody _ => True
  | _ => False

/-- Between the end of `enterWrite` and the end of `exitWrite`. -/
def InWrite : ThreadState Job → Prop
  | .insertLink _ | .insertLast _ _ | .insertSize _ | .exitWriteLock
  | .exitWriteBody => True
  | _ => False

/-- Between the end of `enterRead` and the end of `exitRead`. -/
def InRead : ThreadState Job → Prop
  | .popTest | .popUnlink _ | .popSize _ | .popJob _ | .exitReadLock _
  | .exitReadBody _ => True
  | _ => False

def Inside (position : ThreadState Job) : Prop :=
  position.InWrite ∨ position.InRead

/-- In the middle of the updates of `insertInQueue` or `popFromQueue`. -/
def Updating : ThreadState Job → Prop
  | .insertLast _ _ | .insertSize _ | .popSize _ | .popJob _ => True
  | _ => False

@[simp] theorem holdsMutex_wake (position : ThreadState Job) :
    position.wake.HoldsMutex ↔ position.HoldsMutex := by
  cases position <;> simp [wake, HoldsMutex]

theorem wake_of_inside {position : ThreadState Job} (inside : position.Inside) :
    position.wake = position := by
  cases position <;> simp_all [Inside, InWrite, InRead, wake]

@[simp] theorem inside_wake (position : ThreadState Job) :
    position.wake.Inside ↔ position.Inside := by
  cases position <;> simp [wake, Inside, InWrite, InRead]

@[simp] theorem wake_wake (position : ThreadState Job) :
    position.wake.wake = position.wake := by
  cases position <;> rfl

/-- The queue as the thread that is inside sees it: the jobs in it, and the
updates of the running insertion or removal made so far. -/
def QueueAt (position : ThreadState Job) (queue : JobQueueHead Job)
    (jobs : List Job) : Prop :=
  match position with
  | .insertLast job wasEmpty => ∃ before : JobQueueHead Job, before.Represents jobs ∧
      before.linkNode job = some queue ∧ wasEmpty = decide (before.size = 0)
  | .insertSize job => ∃ before linked : JobQueueHead Job, before.Represents jobs ∧
      before.linkNode job = some linked ∧
      linked.moveLast (decide (before.size = 0)) = some queue
  | .popTest => queue.Represents jobs ∧ jobs ≠ []
  | .popUnlink retNode => queue.Represents jobs ∧ jobs ≠ [] ∧
      queue.firstNode = some retNode
  | .popSize retNode => ∃ before : JobQueueHead Job, before.Represents jobs ∧ jobs ≠ [] ∧
      before.firstNode = some retNode ∧ before.unlinkFirst retNode = some queue
  | .popJob retNode => ∃ before unlinked : JobQueueHead Job, before.Represents jobs ∧
      jobs ≠ [] ∧ before.firstNode = some retNode ∧
      before.unlinkFirst retNode = some unlinked ∧ queue = unlinked.decrementSize
  | _ => queue.Represents jobs

end ThreadState

open ThreadState

/-! ## What one step does to the critical section -/

/-- The parts of the shared state that only a thread inside may change. -/
structure SameQueue (before after : Shared Thread Job) : Prop where
  jobQueue : after.jobQueue = before.jobQueue
  inserted : after.inserted = before.inserted
  popped : after.popped = before.popped

theorem SameQueue.queued {before after : Shared Thread Job}
    (same : SameQueue before after) : after.queued = before.queued := by
  simp [Shared.queued, same.inserted, same.popped]

theorem SameQueue.fifo {before after : Shared Thread Job}
    (same : SameQueue before after)
    (fifo : before.popped ++ before.queued = before.inserted) :
    after.popped ++ after.queued = after.inserted := by
  rw [same.queued, same.popped, same.inserted, fifo]

structure SameCounters (before after : Shared Thread Job) : Prop where
  writing : after.writing = before.writing
  reading : after.reading = before.reading

inductive Passage (position : ThreadState Job) (shared : Shared Thread Job)
    (next : ThreadState Job) (after : Shared Thread Job) : Prop
  | outside (before : ¬ position.Inside) (outside : ¬ next.Inside)
      (sound : next ≠ .faulted)
      (counters : SameCounters shared after) (queue : SameQueue shared after)
  | enterWrite (before : ¬ position.Inside) (idle : ¬ shared.Busy)
      (inside : next.InWrite) (writing : after.writing = shared.writing + 1)
      (reading : after.reading = shared.reading) (queue : SameQueue shared after)
      (queueAt : ∀ jobs, shared.jobQueue.Represents jobs →
        next.QueueAt shared.jobQueue jobs)
  | enterRead (before : ¬ position.Inside) (idle : ¬ shared.Busy)
      (inside : next.InRead) (writing : after.writing = shared.writing)
      (reading : after.reading = shared.reading + 1) (queue : SameQueue shared after)
      (queueAt : ∀ jobs, shared.jobQueue.Represents jobs →
        next.QueueAt shared.jobQueue jobs)
  | inside (sides : position.InWrite ∧ next.InWrite ∨ position.InRead ∧ next.InRead)
      (counters : SameCounters shared after)
      (queueAt : shared.popped ++ shared.queued = shared.inserted →
        position.QueueAt shared.jobQueue shared.queued →
        next.QueueAt after.jobQueue after.queued ∧
          after.popped ++ after.queued = after.inserted)
  | exitWrite (before : position.InWrite) (outside : ¬ next.Inside)
      (sound : next ≠ .faulted)
      (writing : after.writing = shared.writing - 1)
      (reading : after.reading = shared.reading) (queue : SameQueue shared after)
      (queueAt : ∀ jobs, position.QueueAt shared.jobQueue jobs →
        shared.jobQueue.Represents jobs)
  | exitRead (before : position.InRead) (outside : ¬ next.Inside)
      (sound : next ≠ .faulted)
      (writing : after.writing = shared.writing)
      (reading : after.reading = shared.reading - 1) (queue : SameQueue shared after)
      (queueAt : ∀ jobs, position.QueueAt shared.jobQueue jobs →
        shared.jobQueue.Represents jobs)
  | fault (sides : position.Inside)
      (impossible : ∀ jobs, ¬ position.QueueAt shared.jobQueue jobs)

private theorem queueAt_insertSize {shared : Shared Thread Job} {job : Job}
    (fifo : shared.popped ++ shared.queued = shared.inserted)
    (queueAt : (insertSize job).QueueAt shared.jobQueue shared.queued) :
    exitWriteLock.QueueAt shared.jobQueue.incrementSize
        ((shared.inserted ++ [job]).drop shared.popped.length) ∧
      shared.popped ++ (shared.inserted ++ [job]).drop shared.popped.length =
        shared.inserted ++ [job] := by
  have queuedAfter : (shared.inserted ++ [job]).drop shared.popped.length =
      shared.queued ++ [job] := by
    rw [← fifo]
    simp
  rcases queueAt with ⟨before, linked, represents, linkedIs, movedIs⟩
  rcases represents.insertInQueue job with ⟨linked', moved, linkedIs', movedIs', after⟩
  rw [linkedIs] at linkedIs'
  cases linkedIs'
  rw [movedIs] at movedIs'
  cases movedIs'
  rw [queuedAfter]
  exact ⟨after, by rw [← List.append_assoc, fifo]⟩

theorem takeJob_of_queueAt {queue : JobQueueHead Job} {jobs : List Job}
    {retNode : Nat} (queueAt : (popJob retNode).QueueAt queue jobs) :
    ∃ job rest popped, jobs = job :: rest ∧
      queue.takeJob retNode = some (job, popped) ∧ popped.Represents rest := by
  rcases queueAt with ⟨before, unlinked, represents, someJob, first, unlinkedIs, rfl⟩
  cases jobs with
  | nil => exact absurd rfl someJob
  | cons job rest =>
      rcases represents.popFromQueue with
        ⟨node, unlinked', popped, first', unlinkedIs', taken, after⟩
      rw [first] at first'
      cases first'
      rw [unlinkedIs] at unlinkedIs'
      cases unlinkedIs'
      exact ⟨job, rest, popped, rfl, taken, after⟩

private theorem queueAt_popJob {shared : Shared Thread Job} {retNode : Nat} {job : Job}
    {after : JobQueueHead Job}
    (result : shared.jobQueue.takeJob retNode = some (job, after))
    (fifo : shared.popped ++ shared.queued = shared.inserted)
    (queueAt : (popJob retNode).QueueAt shared.jobQueue shared.queued) :
    (exitReadLock job).QueueAt after
        (shared.inserted.drop (shared.popped ++ [job]).length) ∧
      shared.popped ++ [job] ++ shared.inserted.drop (shared.popped ++ [job]).length =
        shared.inserted := by
  rcases takeJob_of_queueAt queueAt with
    ⟨job', rest, popped, queuedIs, taken, represents⟩
  rw [result] at taken
  cases taken
  have restIs : shared.inserted.drop (shared.popped ++ [job]).length = rest := by
    rw [← fifo, queuedIs]
    simp
  rw [restIs]
  exact ⟨represents, by rw [List.append_assoc, List.singleton_append, ← queuedIs, fifo]⟩

theorem moveLast_of_queueAt {queue : JobQueueHead Job} {jobs : List Job} {job : Job}
    {wasEmpty : Bool} (queueAt : (insertLast job wasEmpty).QueueAt queue jobs) :
    ∃ moved, queue.moveLast wasEmpty = some moved := by
  rcases queueAt with ⟨before, represents, linkedIs, rfl⟩
  rcases represents.insertInQueue job with ⟨linked, moved, linkedIs', movedIs, _⟩
  rw [linkedIs] at linkedIs'
  cases linkedIs'
  exact ⟨moved, movedIs⟩

theorem firstNode_of_queueAt {queue : JobQueueHead Job} {jobs : List Job}
    (queueAt : popTest.QueueAt queue jobs) :
    queue.size ≠ 0 ∧ ∃ retNode, queue.firstNode = some retNode := by
  rcases queueAt with ⟨represents, someJob⟩
  cases jobs with
  | nil => exact absurd rfl someJob
  | cons job jobs =>
      rcases represents.popFromQueue with ⟨node, _, _, first, _⟩
      exact ⟨by simp [represents.size_eq], node, first⟩

theorem unlinkFirst_of_queueAt {queue : JobQueueHead Job} {jobs : List Job}
    {retNode : Nat} (queueAt : (popUnlink retNode).QueueAt queue jobs) :
    ∃ unlinked, queue.unlinkFirst retNode = some unlinked := by
  rcases queueAt with ⟨represents, someJob, first⟩
  cases jobs with
  | nil => exact absurd rfl someJob
  | cons job jobs =>
      rcases represents.popFromQueue with ⟨node, unlinked, _, first', unlinkedIs, _⟩
      rw [first] at first'
      cases first'
      exact ⟨unlinked, unlinkedIs⟩

/-- A thread follows a bad pointer only where the queue is not what it must be
there. -/
theorem Acts.faulted {self : Thread} {position next : ThreadState Job}
    {shared after : Shared Thread Job} {signals : Signals}
    (acts : Acts self position shared signals next after) (fault : next = .faulted) :
    position.Inside ∧ ∀ jobs, ¬ position.QueueAt shared.jobQueue jobs := by
  cases acts with
  | insertLinkFault job noLink =>
      refine ⟨.inl trivial, fun jobs represents => ?_⟩
      rcases JobQueueHead.Represents.insertInQueue represents job with ⟨_, _, linkedIs, _⟩
      rw [noLink] at linkedIs
      cases linkedIs
  | insertLastFault job wasEmpty noMove =>
      refine ⟨.inl trivial, fun jobs queueAt => ?_⟩
      rcases moveLast_of_queueAt queueAt with ⟨moved, movedIs⟩
      rw [noMove] at movedIs
      cases movedIs
  | popTestFault empty =>
      refine ⟨.inr trivial, fun jobs queueAt => ?_⟩
      rcases firstNode_of_queueAt queueAt with ⟨nonempty, retNode, first⟩
      rcases empty with empty | noFirst
      · exact nonempty empty
      · rw [noFirst] at first
        cases first
  | popUnlinkFault retNode noUnlink =>
      refine ⟨.inr trivial, fun jobs queueAt => ?_⟩
      rcases unlinkFirst_of_queueAt queueAt with ⟨unlinked, unlinkedIs⟩
      rw [noUnlink] at unlinkedIs
      cases unlinkedIs
  | popJobFault retNode noJob =>
      refine ⟨.inr trivial, fun jobs queueAt => ?_⟩
      rcases takeJob_of_queueAt queueAt with ⟨_, _, _, _, taken, _⟩
      rw [noJob] at taken
      cases taken
  | _ => cases fault

theorem Acts.passage {self : Thread} {position next : ThreadState Job}
    {shared after : Shared Thread Job} {signals : Signals}
    (acts : Acts self position shared signals next after) :
    Passage position shared next after := by
  have faulted := acts.faulted
  cases acts with
  | writeOnQueue | enterWriteLock | enterWriteWait | enterWriteResume | executorTest
  | executorExit | enterReadLock | enterReadExit | enterReadShutdown | enterReadLoop
  | loopExit | loopShutdown | loopSignal | loopNoSignal | loopWait | enterReadResume
  | exitReadExit | exitReadShutdown | runJob =>
      exact .outside (by simp [Inside, InWrite, InRead])
        (by simp [Inside, InWrite, InRead]) (by simp) ⟨rfl, rfl⟩ ⟨rfl, rfl, rfl⟩
  | insertLinkFault | insertLastFault | popTestFault | popUnlinkFault | popJobFault =>
      exact .fault (faulted rfl).1 (faulted rfl).2
  | enterWriteGo job idle =>
      exact .enterWrite (by simp [Inside, InWrite, InRead]) idle trivial rfl rfl
        ⟨rfl, rfl, rfl⟩ fun jobs represents => represents
  | enterReadGo idle nonempty =>
      refine .enterRead (by simp [Inside, InWrite, InRead]) idle trivial rfl rfl
        ⟨rfl, rfl, rfl⟩ fun jobs represents => ⟨represents, ?_⟩
      intro noJobs
      rw [represents.size_eq, noJobs] at nonempty
      exact nonempty rfl
  | insertLink job result =>
      exact .inside (.inl ⟨trivial, trivial⟩) ⟨rfl, rfl⟩ fun fifo represents =>
        ⟨⟨_, represents, result, rfl⟩, fifo⟩
  | insertLast job wasEmpty result =>
      refine .inside (.inl ⟨trivial, trivial⟩) ⟨rfl, rfl⟩ fun fifo queueAt => ⟨?_, fifo⟩
      rcases queueAt with ⟨before, represents, linkedIs, rfl⟩
      exact ⟨before, _, represents, linkedIs, result⟩
  | insertSize job =>
      exact .inside (.inl ⟨trivial, trivial⟩) ⟨rfl, rfl⟩ queueAt_insertSize
  | exitWriteLock available =>
      exact .inside (.inl ⟨trivial, trivial⟩) ⟨rfl, rfl⟩ fun fifo represents =>
        ⟨represents, fifo⟩
  | exitWriteBody =>
      exact .exitWrite trivial (by simp [Inside, InWrite, InRead]) (by simp) rfl rfl
        ⟨rfl, rfl, rfl⟩ fun jobs represents => represents
  | popTest nonempty first =>
      exact .inside (.inr ⟨trivial, trivial⟩) ⟨rfl, rfl⟩ fun fifo queueAt =>
        ⟨⟨queueAt.1, queueAt.2, first⟩, fifo⟩
  | popUnlink retNode result =>
      exact .inside (.inr ⟨trivial, trivial⟩) ⟨rfl, rfl⟩ fun fifo queueAt =>
        ⟨⟨_, queueAt.1, queueAt.2.1, queueAt.2.2, result⟩, fifo⟩
  | popSize retNode =>
      refine .inside (.inr ⟨trivial, trivial⟩) ⟨rfl, rfl⟩ fun fifo queueAt => ⟨?_, fifo⟩
      rcases queueAt with ⟨before, represents, someJob, first, unlinkedIs⟩
      exact ⟨before, _, represents, someJob, first, unlinkedIs, rfl⟩
  | popJob retNode result =>
      exact .inside (.inr ⟨trivial, trivial⟩) ⟨rfl, rfl⟩ (queueAt_popJob result)
  | exitReadLock job available =>
      exact .inside (.inr ⟨trivial, trivial⟩) ⟨rfl, rfl⟩ fun fifo represents =>
        ⟨represents, fifo⟩
  | exitReadBody job =>
      exact .exitRead trivial (by simp [Inside, InWrite, InRead]) (by simp) rfl rfl
        ⟨rfl, rfl, rfl⟩ fun jobs represents => represents

/-- A step takes the mutex when it is free, releases it when it holds it, or
leaves it alone. -/
theorem Acts.queueMutex {self : Thread} {position next : ThreadState Job}
    {shared after : Shared Thread Job} {signals : Signals}
    (acts : Acts self position shared signals next after) :
    (¬ position.HoldsMutex ∧ next.HoldsMutex ∧ shared.queueMutex = none ∧
        after.queueMutex = some self) ∨
      (position.HoldsMutex ∧ ¬ next.HoldsMutex ∧ after.queueMutex = none) ∨
      ((position.HoldsMutex ↔ next.HoldsMutex) ∧
        after.queueMutex = shared.queueMutex) := by
  cases acts <;> simp_all [HoldsMutex]

/-! ## Signals only wake -/

section Signals

variable [DecidableEq Thread]

theorem SignalOne.eq_or_wake {condition : Condition}
    {threads after : Thread → ThreadState Job}
    (signal : SignalOne condition threads after) (thread : Thread) :
    after thread = threads thread ∨ after thread = (threads thread).wake := by
  cases signal with
  | woken waiter blocked =>
      by_cases same : thread = waiter
      · subst same
        simp
      · simp [Function.update_of_ne same]
  | lost nobody => exact .inl rfl

theorem Delivered.eq_or_wake {signals : Signals}
    {threads after : Thread → ThreadState Job}
    (delivered : Delivered threads signals after) (thread : Thread) :
    after thread = threads thread ∨ after thread = (threads thread).wake := by
  cases delivered with
  | nothing => exact .inl rfl
  | read signal | write signal => exact signal.eq_or_wake thread
  | readThenWrite read write =>
      rcases read.eq_or_wake thread with same | woken <;>
        rcases write.eq_or_wake thread with same' | woken' <;> simp_all

/-- What does not depend on being woken is the same before and after a delivery. -/
theorem Delivered.view {View : Type*} {signals : Signals}
    {threads after : Thread → ThreadState Job}
    (delivered : Delivered threads signals after) (view : ThreadState Job → View)
    (view_wake : ∀ position, view position.wake = view position) (thread : Thread) :
    view (after thread) = view (threads thread) := by
  rcases delivered.eq_or_wake thread with same | woken
  · rw [same]
  · rw [woken, view_wake]

theorem Delivered.holds {signals : Signals} {threads after : Thread → ThreadState Job}
    (delivered : Delivered threads signals after) {View : ThreadState Job → Prop}
    (view_wake : ∀ position, View position.wake ↔ View position) (thread : Thread) :
    View (after thread) ↔ View (threads thread) := by
  rw [← eq_iff_iff]
  exact delivered.view View (fun position => propext (view_wake position)) thread

theorem Delivered.inside_eq {signals : Signals}
    {threads after : Thread → ThreadState Job}
    (delivered : Delivered threads signals after) {thread : Thread}
    (inside : (threads thread).Inside) : after thread = threads thread := by
  rcases delivered.eq_or_wake thread with same | woken
  · exact same
  · rw [woken, wake_of_inside inside]

/-- A step of `shutdownAndFreeScheduler` or a spurious wake-up moves no thread
and no data that exclusion is about. -/
inductive Frames (before after : SchedulerState Thread Job) : Prop
  | intro (shared : ∃ shutdown, after.shared = { before.shared with shutdown := shutdown })
      (threads : ∀ thread, after.thread thread = before.thread thread ∨
        after.thread thread = (before.thread thread).wake)

theorem Step.acts_or_frames {before after : SchedulerState Thread Job}
    (step : Step before after) :
    Frames before after ∨ ∃ self signals position shared,
      Acts self (before.thread self) before.shared signals position shared ∧
      Delivered (Function.update before.thread self position) signals after.thread ∧
      after.shared = shared ∧ after.shutdownCall = before.shutdownCall := by
  cases step with
  | acts self acts delivered => exact .inr ⟨self, _, _, _, acts, delivered, rfl, rfl⟩
  | spurious waiter =>
      refine .inl ⟨⟨_, rfl⟩, fun thread => ?_⟩
      by_cases same : thread = waiter
      · subst same
        simp
      · simp [Function.update_of_ne same]
  | setShutdown => exact .inl ⟨⟨true, rfl⟩, fun thread => .inl rfl⟩
  | broadcast _ threads woken =>
      refine .inl ⟨⟨_, rfl⟩, fun thread => ?_⟩
      by_cases blocked : (before.thread thread).Blocked .condRead
      · exact .inr ((woken thread).1 blocked)
      · exact .inl ((woken thread).2 blocked)

end Signals

/-! ## The invariant -/

/-- The critical section is free, or exactly one thread is in it, on the side
the counters say. The queue is described from where that thread is. -/
inductive Occupied (state : SchedulerState Thread Job) : Prop
  | free (writing : state.shared.writing = 0) (reading : state.shared.reading = 0)
      (outside : ∀ thread, ¬ (state.thread thread).Inside)
      (represents : state.shared.jobQueue.Represents state.shared.queued)
  | held (occupant : Thread)
      (side : (state.thread occupant).InWrite ∧ state.shared.writing = 1 ∧
          state.shared.reading = 0 ∨
        (state.thread occupant).InRead ∧ state.shared.writing = 0 ∧
          state.shared.reading = 1)
      (only : ∀ thread, (state.thread thread).Inside → thread = occupant)
      (queueAt : (state.thread occupant).QueueAt state.shared.jobQueue
        state.shared.queued)

structure Exclusive (state : SchedulerState Thread Job) : Prop where
  mutex : ∀ thread, (state.thread thread).HoldsMutex ↔
    state.shared.queueMutex = some thread
  occupied : Occupied state
  fifo : state.shared.popped ++ state.shared.queued = state.shared.inserted

theorem exclusive_initial {isWorker : Thread → Prop}
    {state : SchedulerState Thread Job} (initial : Initial isWorker state) :
    Exclusive state := by
  have positions := initial.positions
  refine ⟨fun thread => ?_, .free initial.writing initial.reading ?_ ?_, ?_⟩
  · rcases positions thread with at_ | at_ <;>
      simp [at_, HoldsMutex, initial.queueMutex]
  · intro thread
    rcases positions thread with at_ | at_ <;> simp [at_, Inside, InWrite, InRead]
  · simpa [Shared.queued, initial.inserted, initial.jobQueue] using
      JobQueueHead.represents_empty
  · simp [Shared.queued, initial.inserted, initial.popped]

theorem Occupied.frames {before after : SchedulerState Thread Job}
    (occupied : Occupied before) (frames : Frames before after) :
    Occupied after := by
  rcases frames with ⟨⟨shutdown, sharedIs⟩, threads⟩
  have inside : ∀ thread, (after.thread thread).Inside ↔ (before.thread thread).Inside := by
    intro thread
    rcases threads thread with same | woken
    · rw [same]
    · rw [woken, inside_wake]
  cases occupied with
  | free writing reading outside represents =>
      refine .free (by simpa [sharedIs] using writing) (by simpa [sharedIs] using reading)
        (fun thread => by simpa [inside thread] using outside thread) ?_
      simpa [sharedIs, Shared.queued] using represents
  | held occupant side only queueAt =>
      have occupantInside : (before.thread occupant).Inside := by
        rcases side with side | side
        · exact .inl side.1
        · exact .inr side.1
      have same : after.thread occupant = before.thread occupant := by
        rcases threads occupant with same | woken
        · exact same
        · rw [woken, wake_of_inside occupantInside]
      refine .held occupant ?_ (fun thread => by simpa [inside thread] using only thread) ?_
      · simpa [same, sharedIs] using side
      · simpa [same, sharedIs, Shared.queued] using queueAt

theorem Occupied.side_inside {state : SchedulerState Thread Job} {occupant : Thread}
    (side : (state.thread occupant).InWrite ∧ state.shared.writing = 1 ∧
        state.shared.reading = 0 ∨
      (state.thread occupant).InRead ∧ state.shared.writing = 0 ∧
        state.shared.reading = 1) : (state.thread occupant).Inside := by
  rcases side with side | side
  · exact .inl side.1
  · exact .inr side.1

theorem Occupied.of_inside {state : SchedulerState Thread Job}
    (occupied : Occupied state) {self : Thread} (inside : (state.thread self).Inside) :
    ((state.thread self).InWrite ∧ state.shared.writing = 1 ∧
        state.shared.reading = 0 ∨
      (state.thread self).InRead ∧ state.shared.writing = 0 ∧
        state.shared.reading = 1) ∧
    (∀ thread, (state.thread thread).Inside → thread = self) ∧
    (state.thread self).QueueAt state.shared.jobQueue state.shared.queued := by
  cases occupied with
  | free _ _ outside _ => exact absurd inside (outside self)
  | held occupant side only queueAt =>
      have same := only self inside
      subst same
      exact ⟨side, only, queueAt⟩

/-- With both counters zero nobody is inside and the queue is whole. -/
theorem Occupied.of_idle {state : SchedulerState Thread Job}
    (occupied : Occupied state) (idle : ¬ state.shared.Busy) :
    state.shared.writing = 0 ∧ state.shared.reading = 0 ∧
    (∀ thread, ¬ (state.thread thread).Inside) ∧
    state.shared.jobQueue.Represents state.shared.queued := by
  cases occupied with
  | free writing reading outside represents =>
      exact ⟨writing, reading, outside, represents⟩
  | held occupant side only queueAt =>
      refine absurd ?_ idle
      rcases side with ⟨_, writing, _⟩ | ⟨_, _, reading⟩
      · exact .inl (by omega)
      · exact .inr (by omega)

theorem not_inWrite_and_inRead {position : ThreadState Job}
    (write : position.InWrite) (read : position.InRead) : False := by
  cases position <;> simp_all [InWrite, InRead]

section Steps

variable [DecidableEq Thread] {before after : SchedulerState Thread Job} {self : Thread}
  {signals : Signals} {position : ThreadState Job}

private theorem inside_after
    (delivered : Delivered (Function.update before.thread self position) signals
      after.thread) (thread : Thread) :
    (after.thread thread).Inside ↔
      (Function.update before.thread self position thread).Inside :=
  delivered.holds inside_wake thread

private theorem self_after
    (delivered : Delivered (Function.update before.thread self position) signals
      after.thread) (inside : position.Inside) : after.thread self = position := by
  rw [delivered.inside_eq (by simpa using inside)]
  simp

private theorem other_after
    (delivered : Delivered (Function.update before.thread self position) signals
      after.thread) {thread : Thread} (differs : thread ≠ self)
    (inside : (before.thread thread).Inside) :
    after.thread thread = before.thread thread := by
  rw [delivered.inside_eq (by simpa [Function.update_of_ne differs] using inside)]
  exact Function.update_of_ne differs _ _

private theorem outside_after
    (delivered : Delivered (Function.update before.thread self position) signals
      after.thread) (outside : ¬ position.Inside)
    (others : ∀ thread, thread ≠ self → ¬ (before.thread thread).Inside)
    (thread : Thread) : ¬ (after.thread thread).Inside := by
  rw [inside_after delivered]
  by_cases same : thread = self
  · subst same
    simpa using outside
  · simpa [Function.update_of_ne same] using others thread same

private theorem only_after
    (delivered : Delivered (Function.update before.thread self position) signals
      after.thread)
    (others : ∀ thread, thread ≠ self → ¬ (before.thread thread).Inside)
    (thread : Thread) (inside : (after.thread thread).Inside) : thread = self := by
  by_contra differs
  rw [inside_after delivered] at inside
  exact others thread differs (by simpa [Function.update_of_ne differs] using inside)

/-- The occupant is another thread, and keeps its place. -/
private theorem Occupied.stays (occupied : Occupied before)
    (notInside : ¬ (before.thread self).Inside) (outside : ¬ position.Inside)
    (counters : SameCounters before.shared after.shared)
    (queue : SameQueue before.shared after.shared)
    (delivered : Delivered (Function.update before.thread self position) signals
      after.thread) : Occupied after := by
  cases occupied with
  | free writing reading nobody represents =>
      exact .free (counters.writing.trans writing) (counters.reading.trans reading)
        (outside_after delivered outside fun thread _ => nobody thread)
        (by rw [queue.queued, queue.jobQueue]; exact represents)
  | held occupant side only queueAt =>
      have occupantInside := Occupied.side_inside side
      have differs : occupant ≠ self := fun same => notInside (same ▸ occupantInside)
      have same := other_after delivered differs occupantInside
      refine .held occupant ?_ ?_ ?_
      · rw [same, counters.writing, counters.reading]
        exact side
      · intro thread inside
        rw [inside_after delivered] at inside
        by_cases isSelf : thread = self
        · subst isSelf
          exact absurd (by simpa using inside) outside
        · exact only thread (by simpa [Function.update_of_ne isSelf] using inside)
      · rw [same, queue.queued, queue.jobQueue]
        exact queueAt

private theorem Occupied.enters
    (nobody : ∀ thread, ¬ (before.thread thread).Inside)
    (represents : before.shared.jobQueue.Represents before.shared.queued)
    (side : position.InWrite ∧ after.shared.writing = 1 ∧ after.shared.reading = 0 ∨
      position.InRead ∧ after.shared.writing = 0 ∧ after.shared.reading = 1)
    (queue : SameQueue before.shared after.shared)
    (queueAt : ∀ jobs, before.shared.jobQueue.Represents jobs →
      position.QueueAt before.shared.jobQueue jobs)
    (delivered : Delivered (Function.update before.thread self position) signals
      after.thread) : Occupied after := by
  have inside : position.Inside := side.imp And.left And.left
  have selfAfter := self_after delivered inside
  refine .held self (by rwa [selfAfter])
    (only_after delivered fun thread _ => nobody thread) ?_
  rw [selfAfter, queue.queued, queue.jobQueue]
  exact queueAt _ represents

private theorem Occupied.moves (occupied : Occupied before)
    (sides : (before.thread self).InWrite ∧ position.InWrite ∨
      (before.thread self).InRead ∧ position.InRead)
    (counters : SameCounters before.shared after.shared)
    (queueAfter : position.QueueAt after.shared.jobQueue after.shared.queued)
    (delivered : Delivered (Function.update before.thread self position) signals
      after.thread) : Occupied after := by
  have positionInside : position.Inside := sides.imp And.right And.right
  rcases occupied.of_inside (sides.imp And.left And.left) with ⟨side, only, _⟩
  have selfAfter := self_after delivered positionInside
  refine .held self ?_ ?_ (by rwa [selfAfter])
  · rw [selfAfter, counters.writing, counters.reading]
    rcases side with ⟨inWrite, values⟩ | ⟨inRead, values⟩ <;> rcases sides with sides | sides
    · exact .inl ⟨sides.2, values⟩
    · exact (not_inWrite_and_inRead inWrite sides.1).elim
    · exact (not_inWrite_and_inRead sides.1 inRead).elim
    · exact .inr ⟨sides.2, values⟩
  · exact only_after delivered fun thread differs inside => differs (only thread inside)

private theorem Occupied.leaves (occupied : Occupied before)
    (inside : (before.thread self).Inside) (outside : ¬ position.Inside)
    (writing : after.shared.writing = 0) (reading : after.shared.reading = 0)
    (queue : SameQueue before.shared after.shared)
    (queueAt : ∀ jobs, (before.thread self).QueueAt before.shared.jobQueue jobs →
      before.shared.jobQueue.Represents jobs)
    (delivered : Delivered (Function.update before.thread self position) signals
      after.thread) : Occupied after := by
  rcases occupied.of_inside inside with ⟨_, only, queueBefore⟩
  refine .free writing reading (outside_after delivered outside fun thread differs
    inside => differs (only thread inside)) ?_
  rw [queue.queued, queue.jobQueue]
  exact queueAt _ queueBefore

theorem Occupied.passes (occupied : Occupied before)
    (fifo : before.shared.popped ++ before.shared.queued = before.shared.inserted)
    (passage : Passage (before.thread self) before.shared position after.shared)
    (delivered : Delivered (Function.update before.thread self position) signals
      after.thread) :
    Occupied after ∧
      after.shared.popped ++ after.shared.queued = after.shared.inserted := by
  cases passage with
  | outside notInside outside sound counters queue =>
      exact ⟨occupied.stays notInside outside counters queue delivered,
        queue.fifo fifo⟩
  | enterWrite notInside idle inside writing reading queue queueAt =>
      rcases occupied.of_idle idle with ⟨noWriting, noReading, nobody, represents⟩
      exact ⟨.enters nobody represents (.inl ⟨inside, by omega, by omega⟩) queue queueAt
        delivered, queue.fifo fifo⟩
  | enterRead notInside idle inside writing reading queue queueAt =>
      rcases occupied.of_idle idle with ⟨noWriting, noReading, nobody, represents⟩
      exact ⟨.enters nobody represents (.inr ⟨inside, by omega, by omega⟩) queue queueAt
        delivered, queue.fifo fifo⟩
  | inside sides counters queueAt =>
      rcases occupied.of_inside (sides.imp And.left And.left) with ⟨_, _, queueBefore⟩
      rcases queueAt fifo queueBefore with ⟨queueAfter, fifoAfter⟩
      exact ⟨occupied.moves sides counters queueAfter delivered, fifoAfter⟩
  | exitWrite inWrite outside sound writing reading queue queueAt =>
      rcases occupied.of_inside (.inl inWrite) with ⟨side, _, _⟩
      refine ⟨?_, queue.fifo fifo⟩
      rcases side with ⟨_, one, zero⟩ | ⟨inRead, _⟩
      · exact occupied.leaves (.inl inWrite) outside (by omega) (by omega) queue queueAt
          delivered
      · exact (not_inWrite_and_inRead inWrite inRead).elim
  | exitRead inRead outside sound writing reading queue queueAt =>
      rcases occupied.of_inside (.inr inRead) with ⟨side, _, _⟩
      refine ⟨?_, queue.fifo fifo⟩
      rcases side with ⟨inWrite, _⟩ | ⟨_, zero, one⟩
      · exact (not_inWrite_and_inRead inWrite inRead).elim
      · exact occupied.leaves (.inr inRead) outside (by omega) (by omega) queue queueAt
          delivered
  | fault selfInside impossible =>
      rcases occupied.of_inside selfInside with ⟨_, _, queueBefore⟩
      exact absurd queueBefore (impossible _)

private theorem mutex_after
    (mutex : ∀ thread, (before.thread thread).HoldsMutex ↔
      before.shared.queueMutex = some thread)
    (acts : Acts self (before.thread self) before.shared signals position after.shared)
    (delivered : Delivered (Function.update before.thread self position) signals
      after.thread) (thread : Thread) :
    (after.thread thread).HoldsMutex ↔ after.shared.queueMutex = some thread := by
  rw [delivered.holds holdsMutex_wake thread]
  have selfMutex := mutex self
  have threadMutex := mutex thread
  by_cases same : thread = self
  · subst same
    simp only [Function.update_self]
    rcases acts.queueMutex with ⟨_, takes, _, taken⟩ | ⟨_, drops, dropped⟩ | ⟨keeps, kept⟩
    · simp [takes, taken]
    · simp [drops, dropped]
    · rw [← keeps, kept]
      exact selfMutex
  · simp only [Function.update_of_ne same]
    rcases acts.queueMutex with ⟨_, _, free, taken⟩ | ⟨held, _, dropped⟩ | ⟨_, kept⟩
    · rw [threadMutex, free, taken]
      simp [Ne.symm same]
    · rw [threadMutex, selfMutex.mp held, dropped]
      simp [Ne.symm same]
    · rw [kept]
      exact threadMutex

theorem Exclusive.step (exclusive : Exclusive before) (step : Step before after) :
    Exclusive after := by
  rcases step.acts_or_frames with frames |
    ⟨self, signals, position, shared, acts, delivered, rfl, _⟩
  · refine ⟨?_, exclusive.occupied.frames frames, ?_⟩
    · rcases frames with ⟨⟨_, sharedIs⟩, threads⟩
      intro thread
      rw [sharedIs, ← exclusive.mutex thread]
      rcases threads thread with same | woken
      · rw [same]
      · rw [woken, holdsMutex_wake]
    · rcases frames with ⟨⟨_, sharedIs⟩, _⟩
      simpa [sharedIs, Shared.queued] using exclusive.fifo
  · rcases exclusive.occupied.passes exclusive.fifo acts.passage delivered with
      ⟨occupied, fifo⟩
    exact ⟨mutex_after exclusive.mutex acts delivered, occupied, fifo⟩

end Steps

theorem reachable_exclusive [DecidableEq Thread] {isWorker : Thread → Prop}
    {state : SchedulerState Thread Job}
    (reachable : Foundation.Reachable (Initial isWorker) Step state) : Exclusive state :=
  reachable.invariant (fun _ initial => exclusive_initial initial)
    fun _ _ _ exclusive step => exclusive.step step

end JoinOperator.Scheduler
