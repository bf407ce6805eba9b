import JoinOperator.Scheduler.QueueSafety

/-! # No lost wake-up

With one writer, whoever sleeps on a condition has a thread that will still
signal it: `exitWrite` signals `cond_read` only, and `exitRead` signals both.
-/

namespace JoinOperator.Scheduler

variable {Thread Job : Type}

namespace ThreadState

def OfWriter : ThreadState Job → Prop
  | .writerIdle | .enterWriteLock _ | .enterWriteTest _ | .enterWriteWait _ _
  | .insertLink _ | .insertLast _ _ | .insertSize _ | .exitWriteLock | .exitWriteBody
  | .faulted => True
  | _ => False

def OfWorker : ThreadState Job → Prop
  | .executorTest | .enterReadLock | .enterReadShutdown | .enterReadTest
  | .loopShutdown | .loopSignal | .loopWait | .enterReadWait _ | .popTest
  | .popUnlink _ | .popSize _ | .popJob _ | .exitReadLock _ | .exitReadBody _
  | .exitReadShutdown _ | .runJob _ | .exited | .faulted => True
  | _ => False

/-- Past the test of the loop in `enterRead` and not asleep yet. -/
def GoingToSleep : ThreadState Job → Prop
  | .loopShutdown | .loopSignal | .loopWait => True
  | _ => False

@[simp] theorem ofWriter_wake (position : ThreadState Job) :
    position.wake.OfWriter ↔ position.OfWriter := by
  cases position <;> simp [wake, OfWriter]

@[simp] theorem ofWorker_wake (position : ThreadState Job) :
    position.wake.OfWorker ↔ position.OfWorker := by
  cases position <;> simp [wake, OfWorker]

@[simp] theorem goingToSleep_wake (position : ThreadState Job) :
    position.wake.GoingToSleep ↔ position.GoingToSleep := by
  cases position <;> simp [wake, GoingToSleep]

@[simp] theorem not_blocked_wake (position : ThreadState Job) (condition : Condition) :
    ¬ position.wake.Blocked condition := by
  cases position <;> cases condition <;> simp [wake, Blocked]

theorem Blocked.ofWorker {position : ThreadState Job}
    (blocked : position.Blocked .condRead) : position.OfWorker := by
  cases position <;> simp_all [Blocked, OfWorker]

theorem Blocked.ofWriter {position : ThreadState Job}
    (blocked : position.Blocked .condWrite) : position.OfWriter := by
  cases position <;> simp_all [Blocked, OfWriter]

theorem InWrite.ofWriter {position : ThreadState Job} (inWrite : position.InWrite) :
    position.OfWriter := by
  cases position <;> simp_all [InWrite, OfWriter]

theorem GoingToSleep.holdsMutex {position : ThreadState Job}
    (going : position.GoingToSleep) : position.HoldsMutex := by
  cases position <;> simp_all [GoingToSleep, HoldsMutex]

theorem eq_faulted_of_both {position : ThreadState Job} (writer : position.OfWriter)
    (worker : position.OfWorker) : position = .faulted := by
  cases position <;> simp_all [OfWriter, OfWorker]

end ThreadState

open ThreadState

/-! ## What one step does -/

theorem Acts.ofWriter {self : Thread} {position next : ThreadState Job}
    {shared after : Shared Thread Job} {signals : Signals}
    (acts : Acts self position shared signals next after) (writer : position.OfWriter) :
    next.OfWriter := by
  cases acts <;> simp_all [OfWriter]

theorem Acts.ofWorker {self : Thread} {position next : ThreadState Job}
    {shared after : Shared Thread Job} {signals : Signals}
    (acts : Acts self position shared signals next after) (worker : position.OfWorker) :
    next.OfWorker := by
  cases acts <;> simp_all [OfWorker]

theorem Acts.counters {self : Thread} {position next : ThreadState Job}
    {shared after : Shared Thread Job} {signals : Signals}
    (acts : Acts self position shared signals next after) :
    position.HoldsMutex ∨ SameCounters shared after := by
  cases acts <;> first | exact .inl trivial | exact .inr ⟨rfl, rfl⟩

theorem Acts.queue {self : Thread} {position next : ThreadState Job}
    {shared after : Shared Thread Job} {signals : Signals}
    (acts : Acts self position shared signals next after) :
    position.Inside ∨ SameQueue shared after := by
  cases acts <;>
    first
      | exact .inl (.inl trivial)
      | exact .inl (.inr trivial)
      | exact .inr ⟨rfl, rfl, rfl⟩

theorem Acts.goingToSleep {self : Thread} {position next : ThreadState Job}
    {shared after : Shared Thread Job} {signals : Signals}
    (acts : Acts self position shared signals next after) (going : next.GoingToSleep) :
    after = shared ∧
      (position.GoingToSleep ∨ shared.Busy ∨ shared.jobQueue.size = 0) := by
  cases acts <;> simp_all [GoingToSleep]

theorem Acts.blocksRead {self : Thread} {position next : ThreadState Job}
    {shared after : Shared Thread Job} {signals : Signals}
    (acts : Acts self position shared signals next after)
    (blocked : next.Blocked .condRead) :
    position.GoingToSleep ∧ SameCounters shared after ∧ SameQueue shared after := by
  cases acts <;> simp_all [Blocked, GoingToSleep]
  exact ⟨⟨rfl, rfl⟩, ⟨rfl, rfl, rfl⟩⟩

theorem Acts.blocksWrite {self : Thread} {position next : ThreadState Job}
    {shared after : Shared Thread Job} {signals : Signals}
    (acts : Acts self position shared signals next after)
    (blocked : next.Blocked .condWrite) :
    shared.Busy ∧ ¬ position.Inside ∧ SameCounters shared after := by
  cases acts <;> simp_all [Blocked, Inside, InWrite, InRead]
  exact ⟨rfl, rfl⟩

/-- Only `exitRead` lowers `reading`, and it signals both conditions. -/
theorem Acts.reading {self : Thread} {position next : ThreadState Job}
    {shared after : Shared Thread Job} {signals : Signals}
    (acts : Acts self position shared signals next after) :
    shared.reading ≤ after.reading ∨ signals = .readThenWrite := by
  cases acts <;> simp

theorem Acts.runsOn {self : Thread} {position next : ThreadState Job}
    {shared after : Shared Thread Job} {signals : Signals} {condition : Condition}
    (acts : Acts self position shared signals next after)
    (signal : signals = .readThenWrite) : ¬ next.Blocked condition := by
  cases acts <;> simp_all [Blocked]

/-- A writer that changes the counters and is outside afterwards has left
`exitWrite`, which signals `cond_read`. -/
theorem Acts.writerLeaves {self : Thread} {position next : ThreadState Job}
    {shared after : Shared Thread Job} {signals : Signals}
    (acts : Acts self position shared signals next after) (writer : position.OfWriter) :
    next.Inside ∨ next = .faulted ∨ signals = .read ∨
      (SameCounters shared after ∧ SameQueue shared after) := by
  cases acts <;> simp_all [OfWriter, Inside, InWrite, InRead] <;>
    exact ⟨⟨rfl, rfl⟩, ⟨rfl, rfl, rfl⟩⟩

/-! ## The invariant -/

/-- Who still has to act for the threads that sleep. -/
structure Awake (isWorker : Thread → Prop) (state : SchedulerState Thread Job) : Prop where
  workers : ∀ thread, isWorker thread → (state.thread thread).OfWorker
  writers : ∀ thread, ¬ isWorker thread → (state.thread thread).OfWriter
  goingToSleep : ∀ thread, (state.thread thread).GoingToSleep →
    state.shared.Busy ∨ state.shared.jobQueue.size = 0
  writerWaits : ∀ thread, (state.thread thread).Blocked .condWrite →
    0 < state.shared.reading
  someWorker : ¬ state.shared.Busy → state.shared.queued ≠ [] →
    ∃ thread, isWorker thread ∧ ¬ (state.thread thread).Blocked .condRead

theorem awake_initial {isWorker : Thread → Prop} {state : SchedulerState Thread Job}
    (initial : Initial isWorker state) : Awake isWorker state := by
  have positions := initial.positions
  refine ⟨fun thread worker => ?_, fun thread writer => ?_, fun thread going => ?_,
    fun thread blocked => ?_, fun _ queued => ?_⟩
  · simp [initial.workers thread worker, OfWorker]
  · simp [initial.writers thread writer, OfWriter]
  · rcases positions thread with at_ | at_ <;> simp [at_, GoingToSleep] at going
  · rcases positions thread with at_ | at_ <;> simp [at_, Blocked] at blocked
  · simp [Shared.queued, initial.inserted] at queued

section Steps

variable [DecidableEq Thread]

theorem Delivered.blocked {signals : Signals} {threads after : Thread → ThreadState Job}
    (delivered : Delivered threads signals after) {thread : Thread}
    {condition : Condition} (blocked : (after thread).Blocked condition) :
    (threads thread).Blocked condition := by
  rcases delivered.eq_or_wake thread with same | woken
  · rwa [same] at blocked
  · rw [woken] at blocked
    exact absurd blocked (not_blocked_wake _ _)

theorem SignalOne.reaches {condition : Condition}
    {threads after : Thread → ThreadState Job}
    (signal : SignalOne condition threads after) :
    (∃ waiter, (threads waiter).Blocked condition ∧ after waiter = (threads waiter).wake) ∨
      ∀ waiter, ¬ (threads waiter).Blocked condition := by
  cases signal with
  | woken waiter blocked => exact .inl ⟨waiter, blocked, by simp⟩
  | lost nobody => exact .inr nobody

variable {isWorker : Thread → Prop} {before after : SchedulerState Thread Job}

omit [DecidableEq Thread] in
theorem Awake.frames (awake : Awake isWorker before) (frames : Frames before after) :
    Awake isWorker after := by
  rcases frames with ⟨⟨shutdown, sharedIs⟩, threads⟩
  have notBlocked : ∀ {thread condition}, (after.thread thread).Blocked condition →
      (before.thread thread).Blocked condition := by
    intro thread condition blocked
    rcases threads thread with same | woken
    · rwa [same] at blocked
    · rw [woken] at blocked
      exact absurd blocked (not_blocked_wake _ _)
  have view : ∀ {View : ThreadState Job → Prop},
      (∀ position, View position.wake ↔ View position) → ∀ thread,
      (View (after.thread thread) ↔ View (before.thread thread)) := by
    intro View wakes thread
    rcases threads thread with same | woken
    · rw [same]
    · rw [woken, wakes]
  refine ⟨fun thread worker => ?_, fun thread writer => ?_, fun thread going => ?_,
    fun thread blocked => ?_, fun idle queued => ?_⟩
  · exact (view ofWorker_wake thread).mpr (awake.workers thread worker)
  · exact (view ofWriter_wake thread).mpr (awake.writers thread writer)
  · rw [sharedIs]
    exact awake.goingToSleep thread ((view goingToSleep_wake thread).mp going)
  · rw [sharedIs]
    exact awake.writerWaits thread (notBlocked blocked)
  · rw [sharedIs] at idle queued
    rcases awake.someWorker idle queued with ⟨thread, worker, runs⟩
    exact ⟨thread, worker, fun blocked => runs (notBlocked blocked)⟩

variable {self : Thread} {signals : Signals} {position : ThreadState Job}

private theorem goingToSleep_acts (awake : Awake isWorker before)
    (exclusive : Exclusive before)
    (acts : Acts self (before.thread self) before.shared signals position after.shared)
    (delivered : Delivered (Function.update before.thread self position) signals
      after.thread) (thread : Thread) (going : (after.thread thread).GoingToSleep) :
    after.shared.Busy ∨ after.shared.jobQueue.size = 0 := by
  have goingBefore : (Function.update before.thread self position thread).GoingToSleep := by
    rcases delivered.eq_or_wake thread with same | woken
    · rwa [same] at going
    · rwa [woken, goingToSleep_wake] at going
  by_cases isSelf : thread = self
  · subst isSelf
    rw [Function.update_self] at goingBefore
    rcases acts.goingToSleep goingBefore with ⟨same, already | reason⟩
    · rw [same]
      exact awake.goingToSleep thread already
    · rwa [same]
  · rw [Function.update_of_ne isSelf] at goingBefore
    have mutexIs := (exclusive.mutex thread).mp goingBefore.holdsMutex
    have selfHas : ¬ (before.thread self).HoldsMutex := by
      intro holds
      have mutexIs' := (exclusive.mutex self).mp holds
      rw [mutexIs] at mutexIs'
      exact isSelf (Option.some.inj mutexIs')
    have counters := acts.counters.resolve_left selfHas
    have busySame : after.shared.Busy ↔ before.shared.Busy := by
      simp [Shared.Busy, counters.writing, counters.reading]
    by_cases busy : before.shared.Busy
    · exact .inl (busySame.mpr busy)
    · have empty := (awake.goingToSleep thread goingBefore).resolve_left busy
      have nobody := (exclusive.occupied.of_idle busy).2.2.1
      have queue := acts.queue.resolve_left (nobody self)
      exact .inr (by rw [queue.jobQueue]; exact empty)

private theorem writerWaits_acts (awake : Awake isWorker before)
    (exclusive : Exclusive before)
    (oneWriter : ∀ thread other, ¬ isWorker thread → ¬ isWorker other → thread = other)
    (noFault : NoFault before)
    (acts : Acts self (before.thread self) before.shared signals position after.shared)
    (delivered : Delivered (Function.update before.thread self position) signals
      after.thread) (thread : Thread)
    (blocked : (after.thread thread).Blocked .condWrite) : 0 < after.shared.reading := by
  have notWorker : ∀ other, (before.thread other).OfWriter → ¬ isWorker other :=
    fun other writer worker =>
      noFault other (eq_faulted_of_both writer (awake.workers other worker))
  have blockedMid := delivered.blocked blocked
  by_cases isSelf : thread = self
  · -- the writer itself goes to sleep: who is inside cannot be a second writer
    subst isSelf
    rw [Function.update_self] at blockedMid
    rcases acts.blocksWrite blockedMid with ⟨busy, outside, counters⟩
    rw [counters.reading]
    cases exclusive.occupied with
    | free writing reading _ _ =>
        rcases busy with busy | busy <;> omega
    | held occupant side only queueAt =>
        rcases side with ⟨inWrite, _⟩ | ⟨_, _, one⟩
        · have selfWriter : ¬ isWorker thread := by
            intro worker
            have selfOf := awake.workers thread worker
            have nextOf := acts.ofWorker selfOf
            have faulted := eq_faulted_of_both blockedMid.ofWriter nextOf
            rw [faulted] at blockedMid
            exact blockedMid
          have same := oneWriter occupant thread
            (notWorker occupant inWrite.ofWriter) selfWriter
          subst same
          exact absurd (.inl inWrite) outside
        · omega
  · rw [Function.update_of_ne isSelf] at blockedMid
    have waiting := awake.writerWaits thread blockedMid
    rcases acts.reading with kept | leaves
    · omega
    · -- `exitRead` signals the writer, the only thread that waits to write
      subst leaves
      cases delivered with
      | readThenWrite read write =>
          rcases write.reaches with ⟨waiter, waiterBlocked, woken⟩ | nobody
          · have ofWriter : ∀ {other}, (Function.update before.thread self position other).Blocked
                .condWrite → other ≠ self → ¬ isWorker other := by
              intro other otherBlocked differs
              rw [Function.update_of_ne differs] at otherBlocked
              exact notWorker other otherBlocked.ofWriter
            have waiterMid : (Function.update before.thread self position waiter).Blocked
                .condWrite := Delivered.blocked (.read read) waiterBlocked
            have waiterNotSelf : waiter ≠ self := by
              rintro rfl
              rw [Function.update_self] at waiterMid
              exact acts.runsOn rfl waiterMid
            have same := oneWriter waiter thread (ofWriter waiterMid waiterNotSelf)
              (notWorker thread blockedMid.ofWriter)
            subst same
            rw [woken] at blocked
            exact absurd blocked (not_blocked_wake _ _)
          · have blockedBetween := Delivered.blocked (.write write) blocked
            exact absurd blockedBetween (nobody thread)

private theorem someWorker_acts (awake : Awake isWorker before)
    (exclusive : Exclusive before) (noFault : NoFault after)
    (worker : ∃ thread, isWorker thread) (exclusiveAfter : Exclusive after)
    (acts : Acts self (before.thread self) before.shared signals position after.shared)
    (delivered : Delivered (Function.update before.thread self position) signals
      after.thread) (idle : ¬ after.shared.Busy) (queued : after.shared.queued ≠ []) :
    ∃ thread, isWorker thread ∧ ¬ (after.thread thread).Blocked .condRead := by
  have keeps : SameCounters before.shared after.shared →
      SameQueue before.shared after.shared →
      ¬ before.shared.Busy ∧ before.shared.queued ≠ [] := by
    intro counters queue
    refine ⟨?_, by rwa [← queue.queued]⟩
    simpa [Shared.Busy, counters.writing, counters.reading] using idle
  by_cases selfWorker : isWorker self
  · -- the worker that moved is awake, unless it just fell asleep on an empty queue
    refine ⟨self, selfWorker, fun blocked => ?_⟩
    have blockedMid := delivered.blocked blocked
    rw [Function.update_self] at blockedMid
    rcases acts.blocksRead blockedMid with ⟨going, counters, queue⟩
    rcases keeps counters queue with ⟨idleBefore, queuedBefore⟩
    have represents := (exclusive.occupied.of_idle idleBefore).2.2.2
    have empty := (awake.goingToSleep self going).resolve_left idleBefore
    rw [represents.size_eq] at empty
    exact queuedBefore (List.length_eq_zero_iff.mp empty)
  · have others : ∀ thread, isWorker thread →
        Function.update before.thread self position thread = before.thread thread := by
      intro thread isWorkerThread
      refine Function.update_of_ne (fun same => selfWorker ?_) _ _
      rwa [← same]
    rcases acts.writerLeaves (awake.writers self selfWorker) with
      inside | faulted | signal | ⟨counters, queue⟩
    · have selfInside : (after.thread self).Inside := by
        rw [delivered.inside_eq (by simpa using inside)]
        simpa using inside
      exact absurd selfInside ((exclusiveAfter.occupied.of_idle idle).2.2.1 self)
    · have selfFaulted : after.thread self = .faulted := by
        rcases delivered.eq_or_wake self with same | woken
        · simpa [faulted] using same
        · simpa [faulted, wake] using woken
      exact absurd selfFaulted (noFault self)
    · -- `exitWrite` signals `cond_read`
      subst signal
      cases delivered with
      | read signal =>
          rcases signal.reaches with ⟨waiter, waiterBlocked, woken⟩ | nobody
          · refine ⟨waiter, ?_, by rw [woken]; exact not_blocked_wake _ _⟩
            by_contra waiterWriter
            have ofWriter : (Function.update before.thread self position waiter).OfWriter := by
              by_cases isSelf : waiter = self
              · subst isSelf
                simpa using acts.ofWriter (awake.writers waiter waiterWriter)
              · simpa [Function.update_of_ne isSelf] using awake.writers waiter waiterWriter
            have faulted := eq_faulted_of_both ofWriter waiterBlocked.ofWorker
            rw [faulted] at waiterBlocked
            exact waiterBlocked
          · rcases worker with ⟨thread, isWorkerThread⟩
            refine ⟨thread, isWorkerThread, fun blocked => ?_⟩
            exact nobody thread (Delivered.blocked (.read signal) blocked)
    · rcases keeps counters queue with ⟨idleBefore, queuedBefore⟩
      rcases awake.someWorker idleBefore queuedBefore with ⟨thread, isWorkerThread, runs⟩
      refine ⟨thread, isWorkerThread, fun blocked => runs ?_⟩
      have blockedMid := delivered.blocked blocked
      rwa [others thread isWorkerThread] at blockedMid

theorem Awake.step (awake : Awake isWorker before) (exclusive : Exclusive before)
    (noFault : NoFault before)
    (oneWriter : ∀ thread other, ¬ isWorker thread → ¬ isWorker other → thread = other)
    (worker : ∃ thread, isWorker thread) (step : Step before after) :
    Awake isWorker after := by
  have exclusiveAfter := exclusive.step step
  have noFaultAfter := noFault.step exclusive step
  rcases step.acts_or_frames with frames |
    ⟨self, signals, position, shared, acts, delivered, rfl, _⟩
  · exact awake.frames frames
  · refine ⟨fun thread isWorkerThread => ?_, fun thread isWriterThread => ?_,
      goingToSleep_acts awake exclusive acts delivered,
      writerWaits_acts awake exclusive oneWriter noFault acts delivered,
      someWorker_acts awake exclusive noFaultAfter worker exclusiveAfter acts delivered⟩
    · refine (delivered.holds ofWorker_wake thread).mpr ?_
      by_cases isSelf : thread = self
      · subst isSelf
        simpa using acts.ofWorker (awake.workers thread isWorkerThread)
      · simpa [Function.update_of_ne isSelf] using awake.workers thread isWorkerThread
    · refine (delivered.holds ofWriter_wake thread).mpr ?_
      by_cases isSelf : thread = self
      · subst isSelf
        simpa using acts.ofWriter (awake.writers thread isWriterThread)
      · simpa [Function.update_of_ne isSelf] using awake.writers thread isWriterThread

end Steps

/-! ## The result -/

section Reachable

variable [DecidableEq Thread] {isWorker : Thread → Prop} {state : SchedulerState Thread Job}

theorem reachable_awake
    (reachable : Foundation.Reachable (Initial isWorker) Step state)
    (oneWriter : ∀ thread other, ¬ isWorker thread → ¬ isWorker other → thread = other)
    (worker : ∃ thread, isWorker thread) : Awake isWorker state :=
  reachable.invariant (fun _ initial => awake_initial initial)
    fun _ _ reachable awake step => awake.step (reachable_exclusive reachable)
      (reachable_noFault reachable) oneWriter worker step

/-- With one writer and at least one worker, when nobody is inside, a non-empty
queue has a worker that is not asleep, and the writer is not asleep. -/
theorem reachable_noLostWakeup
    (reachable : Foundation.Reachable (Initial isWorker) Step state)
    (oneWriter : ∀ thread other, ¬ isWorker thread → ¬ isWorker other → thread = other)
    (worker : ∃ thread, isWorker thread)
    (reading : state.shared.reading = 0) (writing : state.shared.writing = 0) :
    ¬ (state.shared.queued ≠ [] ∧
        ∀ thread, isWorker thread → (state.thread thread).Blocked .condRead) ∧
      ¬ ∃ thread, ¬ isWorker thread ∧ (state.thread thread).Blocked .condWrite := by
  have awake := reachable_awake reachable oneWriter worker
  have idle : ¬ state.shared.Busy := by
    simp [Shared.Busy, reading, writing]
  constructor
  · rintro ⟨queued, asleep⟩
    rcases awake.someWorker idle queued with ⟨thread, isWorkerThread, runs⟩
    exact runs (asleep thread isWorkerThread)
  · rintro ⟨thread, _, blocked⟩
    have waiting := awake.writerWaits thread blocked
    omega

/-- A run in which the worker falls asleep on the empty queue and `exitWrite`
wakes it for job `7`. -/
theorem noLostWakeup_signalled : ∃ state : SchedulerState Bool Nat,
    state.thread true = .enterReadWait true ∧ state.shared.queued = [7] ∧
      ¬ (state.shared.queued ≠ [] ∧
        ∀ thread, thread = true → (state.thread thread).Blocked .condRead) ∧
      ¬ ∃ thread, ¬ thread = true ∧ (state.thread thread).Blocked .condWrite := by
  have run : Foundation.Reachable (Initial (· = true)) Step
      (⟨⟨none, 0, 0, false, .empty, [], [], [], []⟩,
        fun thread => if thread then .executorTest else .writerIdle, .notRequested⟩ :
          SchedulerState Bool Nat) :=
    .start ⟨rfl, rfl, rfl, rfl, rfl, rfl, rfl, rfl, rfl, by simp, by simp, rfl⟩
  have run := run.next (.acts true (.executorTest rfl) .nothing)
  have run := run.next (.acts true (.enterReadLock rfl) .nothing)
  have run := run.next (.acts true (.enterReadShutdown rfl) .nothing)
  have run := run.next (.acts true (.enterReadLoop (.inr rfl)) .nothing)
  have run := run.next (.acts true (.loopShutdown rfl) .nothing)
  have run := run.next (.acts true (.loopSignal rfl)
    (.write (.lost (by intro waiter; cases waiter <;> simp [Blocked]))))
  have run := run.next (.acts true .loopWait .nothing)
  have run := run.next (.acts false (.writeOnQueue 7 (by simp)) .nothing)
  have run := run.next (.acts false (.enterWriteLock 7 rfl) .nothing)
  have run := run.next (.acts false (.enterWriteGo 7 (by simp [Shared.Busy])) .nothing)
  have run := run.next (.acts false (.insertLink 7 rfl) .nothing)
  have run := run.next (.acts false (.insertLast 7 true rfl) .nothing)
  have run := run.next (.acts false (.insertSize 7) .nothing)
  have run := run.next (.acts false (.exitWriteLock rfl) .nothing)
  have run := run.next (.acts false .exitWriteBody
    (.read (.woken true (by simp [Blocked]))))
  exact ⟨_, rfl, rfl, reachable_noLostWakeup run (by decide) ⟨true, rfl⟩ rfl rfl⟩

end Reachable

end JoinOperator.Scheduler
