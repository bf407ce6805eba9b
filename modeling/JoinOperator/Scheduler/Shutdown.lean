import JoinOperator.Scheduler.Wakeup

/-! # Shutdown

`shutdownAndFreeScheduler` sets the flag and broadcasts without `queueMutex`.
A worker that has tested the flag in the loop of `enterRead` and has not
started to wait when the broadcast is sent misses both. When there is no such
worker, nobody is left asleep and every worker comes to its end.
-/

namespace JoinOperator.Scheduler

variable {Thread Job : Type}

namespace ThreadState

/-- Past the test of `shutdown` in the loop of `enterRead`, and not yet waiting. -/
def CommittedToWait : ThreadState Job → Prop
  | .loopSignal | .loopWait => True
  | _ => False

@[simp] theorem committedToWait_wake (position : ThreadState Job) :
    position.wake.CommittedToWait ↔ position.CommittedToWait := by
  cases position <;> simp [wake, CommittedToWait]

/-- How many steps a worker is away from its exit once the flag is set. -/
def stepsToExit : ThreadState Job → Nat
  | .enterReadWait _ => 9
  | .enterReadTest => 8
  | .popTest => 7
  | .popUnlink _ => 6
  | .popSize _ => 5
  | .popJob _ => 4
  | .exitReadLock _ => 3
  | .enterReadLock | .exitReadBody _ | .runJob _ => 2
  | .executorTest | .enterReadShutdown | .loopShutdown | .exitReadShutdown _ => 1
  | _ => 0

@[simp] theorem stepsToExit_wake (position : ThreadState Job) :
    position.wake.stepsToExit = position.stepsToExit := by
  cases position <;> rfl

theorem wake_writerIdle : (writerIdle : ThreadState Job).wake = .writerIdle :=
  rfl

theorem wake_exited : (exited : ThreadState Job).wake = .exited :=
  rfl

end ThreadState

open ThreadState

/-! ## Nobody is left asleep -/

theorem Acts.committedToWait {self : Thread} {position next : ThreadState Job}
    {shared after : Shared Thread Job} {signals : Signals}
    (acts : Acts self position shared signals next after)
    (committed : next.CommittedToWait) :
    shared.shutdown = false ∨ position.CommittedToWait := by
  cases acts <;> simp_all [CommittedToWait]

theorem Acts.committed_of_blocked {self : Thread} {position next : ThreadState Job}
    {shared after : Shared Thread Job} {signals : Signals}
    (acts : Acts self position shared signals next after)
    (blocked : next.Blocked .condRead) : position.CommittedToWait := by
  cases acts <;> simp_all [Blocked, CommittedToWait]

section Steps

variable [DecidableEq Thread]

/-- A step that broadcasts only while no worker is committed to wait. -/
def PromptStep (before after : SchedulerState Thread Job) : Prop :=
  Step before after ∧
    (before.shutdownCall = .flagSet → after.shutdownCall = .joining →
      ∀ thread, ¬ (before.thread thread).CommittedToWait)

/-- The flag is set, and no thread waits on `cond_read` or is about to. -/
structure Draining (state : SchedulerState Thread Job) : Prop where
  joining : state.shutdownCall = .joining
  shutdown : state.shared.shutdown = true
  notCommitted : ∀ thread, ¬ (state.thread thread).CommittedToWait
  notBlocked : ∀ thread, ¬ (state.thread thread).Blocked .condRead

variable {isWorker : Thread → Prop} {before after state : SchedulerState Thread Job}

theorem Draining.step (draining : Draining before) (step : Step before after) :
    Draining after := by
  cases step with
  | setShutdown notRequested =>
      rw [draining.joining] at notRequested
      cases notRequested
  | broadcast flagSet =>
      rw [draining.joining] at flagSet
      cases flagSet
  | spurious waiter =>
      refine ⟨draining.joining, draining.shutdown, fun thread => ?_, fun thread => ?_⟩
      · by_cases isWaiter : thread = waiter
        · subst isWaiter
          simpa using draining.notCommitted thread
        · simpa [Function.update_of_ne isWaiter] using draining.notCommitted thread
      · by_cases isWaiter : thread = waiter
        · subst isWaiter
          simp
        · simpa [Function.update_of_ne isWaiter] using draining.notBlocked thread
  | acts self acts delivered =>
      refine ⟨draining.joining, acts.shutdown.trans draining.shutdown, fun thread => ?_,
        fun thread blocked => ?_⟩
      · rw [delivered.holds committedToWait_wake thread]
        by_cases isSelf : thread = self
        · subst isSelf
          rw [Function.update_self]
          intro committed
          rcases acts.committedToWait committed with running | already
          · rw [draining.shutdown] at running
            cases running
          · exact draining.notCommitted thread already
        · rw [Function.update_of_ne isSelf]
          exact draining.notCommitted thread
      · have blockedMid := delivered.blocked blocked
        by_cases isSelf : thread = self
        · subst isSelf
          rw [Function.update_self] at blockedMid
          exact draining.notCommitted thread (acts.committed_of_blocked blockedMid)
        · rw [Function.update_of_ne isSelf] at blockedMid
          exact draining.notBlocked thread blockedMid

structure Prompt (state : SchedulerState Thread Job) : Prop where
  flag : state.shutdownCall ≠ .notRequested → state.shared.shutdown = true
  draining : state.shutdownCall = .joining → Draining state

theorem Prompt.step (prompt : Prompt before) (step : PromptStep before after) :
    Prompt after := by
  rcases step with ⟨step, promptly⟩
  by_cases joining : before.shutdownCall = .joining
  · have draining := (prompt.draining joining).step step
    exact ⟨fun _ => draining.shutdown, fun _ => draining⟩
  cases step with
  | acts self acts =>
      exact ⟨fun requested => acts.shutdown.trans (prompt.flag requested),
        fun nowJoining => absurd nowJoining joining⟩
  | spurious waiter => exact ⟨prompt.flag, fun nowJoining => absurd nowJoining joining⟩
  | setShutdown => exact ⟨fun _ => rfl, fun nowJoining => nomatch nowJoining⟩
  | broadcast flagSet threads woken =>
      have shutdown : before.shared.shutdown = true := by
        apply prompt.flag
        simp [flagSet]
      refine ⟨fun _ => shutdown, fun _ => ⟨rfl, shutdown, fun thread => ?_, fun thread => ?_⟩⟩
      · have notCommitted := promptly flagSet rfl thread
        change ¬ (threads thread).CommittedToWait
        by_cases blocked : (before.thread thread).Blocked .condRead
        · rw [(woken thread).1 blocked]
          simpa using notCommitted
        · rwa [(woken thread).2 blocked]
      · change ¬ (threads thread).Blocked .condRead
        by_cases blocked : (before.thread thread).Blocked .condRead
        · rw [(woken thread).1 blocked]
          exact not_blocked_wake _ _
        · rwa [(woken thread).2 blocked]

theorem reachable_prompt
    (reachable : Foundation.Reachable (Initial isWorker) PromptStep state) :
    Prompt state := by
  refine reachable.invariant (fun start initial => ⟨fun requested => ?_, fun joining => ?_⟩)
    fun _ _ _ prompt step => prompt.step step
  · exact absurd initial.shutdownCall requested
  · rw [initial.shutdownCall] at joining
    cases joining

/-! ## Every worker comes to its end -/

theorem SignalOne.exists_after (condition : Condition)
    (threads : Thread → ThreadState Job) : ∃ after, SignalOne condition threads after := by
  by_cases someone : ∃ waiter, (threads waiter).Blocked condition
  · rcases someone with ⟨waiter, blocked⟩
    exact ⟨_, .woken waiter blocked⟩
  · exact ⟨_, .lost (fun waiter blocked => someone ⟨waiter, blocked⟩)⟩

theorem Delivered.exists_after (threads : Thread → ThreadState Job) (signals : Signals) :
    ∃ after, Delivered threads signals after := by
  cases signals with
  | nothing => exact ⟨_, .nothing⟩
  | read =>
      rcases SignalOne.exists_after .condRead threads with ⟨after, signal⟩
      exact ⟨after, .read signal⟩
  | write =>
      rcases SignalOne.exists_after .condWrite threads with ⟨after, signal⟩
      exact ⟨after, .write signal⟩
  | readThenWrite =>
      rcases SignalOne.exists_after .condRead threads with ⟨between, first⟩
      rcases SignalOne.exists_after .condWrite between with ⟨after, second⟩
      exact ⟨after, .readThenWrite first second⟩

omit [DecidableEq Thread] in
/-- Once the flag is set, a worker with the mutex free or in its hands can move
one step closer to its exit. -/
theorem Exclusive.movesOn (exclusive : Exclusive state) (draining : Draining state)
    {self : Thread} (worker : (state.thread self).OfWorker)
    (sound : state.thread self ≠ .faulted) (runs : state.thread self ≠ .exited)
    (available : state.shared.queueMutex = none ∨
      state.shared.queueMutex = some self) :
    ∃ signals position shared,
      Acts self (state.thread self) state.shared signals position shared ∧
      position.stepsToExit < (state.thread self).stepsToExit := by
  have stopped := draining.shutdown
  have free : ¬ (state.thread self).HoldsMutex → state.shared.queueMutex = none := by
    intro notHolding
    rcases available with none | held
    · exact none
    · exact absurd ((exclusive.mutex self).mpr held) notHolding
  have queueAt : (state.thread self).InRead →
      (state.thread self).QueueAt state.shared.jobQueue state.shared.queued :=
    fun inRead => (exclusive.occupied.of_inside (.inr inRead)).2.2
  have notCommitted := draining.notCommitted self
  have notBlocked := draining.notBlocked self
  generalize state.thread self = position at *
  cases position with
  | writerIdle | enterWriteLock | enterWriteTest | enterWriteWait | insertLink
  | insertLast | insertSize | exitWriteLock | exitWriteBody => exact worker.elim
  | faulted => exact absurd rfl sound
  | exited => exact absurd rfl runs
  | loopSignal | loopWait => exact absurd trivial notCommitted
  | executorTest => exact ⟨_, _, _, .executorExit stopped, by simp [stepsToExit]⟩
  | enterReadLock =>
      exact ⟨_, _, _, .enterReadLock (free (by simp [HoldsMutex])), by simp [stepsToExit]⟩
  | enterReadShutdown => exact ⟨_, _, _, .enterReadExit stopped, by simp [stepsToExit]⟩
  | enterReadTest =>
      by_cases loops : state.shared.Busy ∨ state.shared.jobQueue.size = 0
      · exact ⟨_, _, _, .enterReadLoop loops, by simp [stepsToExit]⟩
      · rw [not_or] at loops
        exact ⟨_, _, _, .enterReadGo loops.1 loops.2, by simp [stepsToExit]⟩
  | loopShutdown => exact ⟨_, _, _, .loopExit stopped, by simp [stepsToExit]⟩
  | enterReadWait woken =>
      cases woken with
      | false => exact absurd trivial notBlocked
      | true =>
          exact ⟨_, _, _, .enterReadResume (free (by simp [HoldsMutex])),
            by simp [stepsToExit]⟩
  | popTest =>
      rcases firstNode_of_queueAt (queueAt trivial) with ⟨nonempty, retNode, first⟩
      exact ⟨_, _, _, .popTest nonempty first, by simp [stepsToExit]⟩
  | popUnlink retNode =>
      rcases unlinkFirst_of_queueAt (queueAt trivial) with ⟨unlinked, unlinkedIs⟩
      exact ⟨_, _, _, .popUnlink retNode unlinkedIs, by simp [stepsToExit]⟩
  | popSize retNode => exact ⟨_, _, _, .popSize retNode, by simp [stepsToExit]⟩
  | popJob retNode =>
      rcases takeJob_of_queueAt (queueAt trivial) with ⟨_, _, _, _, taken, _⟩
      exact ⟨_, _, _, .popJob retNode taken, by simp [stepsToExit]⟩
  | exitReadLock job =>
      exact ⟨_, _, _, .exitReadLock job (free (by simp [HoldsMutex])),
        by simp [stepsToExit]⟩
  | exitReadBody job => exact ⟨_, _, _, .exitReadBody job, by simp [stepsToExit]⟩
  | exitReadShutdown job =>
      exact ⟨_, _, _, .exitReadExit job stopped, by simp [stepsToExit]⟩
  | runJob job => exact ⟨_, _, _, .runJob job, by simp [stepsToExit]⟩

def WorkersStay (isWorker : Thread → Prop) (state : SchedulerState Thread Job) : Prop :=
  ∀ thread, isWorker thread → (state.thread thread).OfWorker

/-- The states in which `shutdownAndFreeScheduler` joins the workers: those of
a run, with nobody asleep, the writers back in their caller. -/
structure Joining (isWorker : Thread → Prop) (state : SchedulerState Thread Job) :
    Prop where
  reachable : Foundation.Reachable (Initial isWorker) Step state
  draining : Draining state
  workers : WorkersStay isWorker state
  writers : ∀ thread, ¬ isWorker thread → state.thread thread = .writerIdle

def AvailableTo (state : SchedulerState Thread Job) (self : Thread) : Prop :=
  state.shared.queueMutex = none ∨ state.shared.queueMutex = some self

/-- One step of a worker that can have the mutex brings it closer to its exit,
and brings no thread back that has exited. -/
theorem Joining.movesOn (joining : Joining isWorker before) {self : Thread}
    (worker : isWorker self) (runs : before.thread self ≠ .exited)
    (available : AvailableTo before self) :
    ∃ after, Step before after ∧ Joining isWorker after ∧ AvailableTo after self ∧
      (after.thread self).stepsToExit < (before.thread self).stepsToExit ∧
      ∀ thread, before.thread thread = .exited → after.thread thread = .exited := by
  have exclusive := reachable_exclusive joining.reachable
  have noFault := reachable_noFault joining.reachable
  rcases exclusive.movesOn joining.draining (joining.workers self worker) (noFault self) runs
    available with ⟨signals, position, shared, acts, closer⟩
  rcases Delivered.exists_after (Function.update before.thread self position) signals with
    ⟨threads, delivered⟩
  have step : Step before { before with shared := shared, thread := threads } :=
    .acts self acts delivered
  have others : ∀ {thread}, thread ≠ self → threads thread = before.thread thread ∨
      threads thread = (before.thread thread).wake := by
    intro thread differs
    have kept := delivered.eq_or_wake thread
    rwa [Function.update_of_ne differs] at kept
  have selfAfter : threads self = position ∨ threads self = position.wake := by
    have kept := delivered.eq_or_wake self
    rwa [Function.update_self] at kept
  refine ⟨_, step, ⟨joining.reachable.next step, joining.draining.step step,
    fun thread isWorkerThread => ?_, fun thread isWriter => ?_⟩, ?_, ?_, fun thread exited => ?_⟩
  · by_cases isSelf : thread = self
    · subst isSelf
      have ofWorker := acts.ofWorker (joining.workers thread worker)
      rcases selfAfter with same | woken
      · simpa [same] using ofWorker
      · simpa [woken] using ofWorker
    · have ofWorker := joining.workers thread isWorkerThread
      rcases others isSelf with same | woken
      · simpa [same] using ofWorker
      · simpa [woken] using ofWorker
  · have differs : thread ≠ self := by
      rintro rfl
      exact isWriter worker
    rcases others differs with same | woken
    · exact same.trans (joining.writers thread isWriter)
    · change threads thread = .writerIdle
      rw [woken, joining.writers thread isWriter, wake_writerIdle]
  · rcases acts.queueMutex with ⟨_, _, _, taken⟩ | ⟨_, _, released⟩ | ⟨_, kept⟩
    · exact .inr taken
    · exact .inl released
    · simpa [AvailableTo, kept] using available
  · rcases selfAfter with same | woken
    · simpa [same] using closer
    · change (threads self).stepsToExit < _
      rwa [woken, stepsToExit_wake]
  · have differs : thread ≠ self := by
      rintro rfl
      exact runs exited
    rcases others differs with same | woken
    · exact same.trans exited
    · change threads thread = .exited
      rw [woken, exited, wake_exited]

theorem Joining.runsToExit (joining : Joining isWorker before) {self : Thread}
    (worker : isWorker self) (available : AvailableTo before self) :
    ∃ after, Relation.ReflTransGen Step before after ∧ Joining isWorker after ∧
      after.shared.queueMutex = none ∧ after.thread self = .exited ∧
      ∀ thread, before.thread thread = .exited → after.thread thread = .exited := by
  induction distance : (before.thread self).stepsToExit using Nat.strongRecOn
    generalizing before with
  | ind distance induction =>
      by_cases exited : before.thread self = .exited
      · refine ⟨before, .refl, joining, ?_, exited, fun _ already => already⟩
        rcases available with none | held
        · exact none
        · have holds := ((reachable_exclusive joining.reachable).mutex self).mpr held
          rw [exited] at holds
          exact holds.elim
      · rcases joining.movesOn worker exited available with
          ⟨next, step, nextJoining, nextAvailable, closer, keeps⟩
        rw [← distance] at induction
        rcases induction _ closer nextJoining nextAvailable rfl with
          ⟨after, run, afterJoining, free, selfExited, keepsLater⟩
        exact ⟨after, .head step run, afterJoining, free, selfExited,
          fun thread already => keepsLater thread (keeps thread already)⟩

theorem Joining.listRunsToExit (joining : Joining isWorker before)
    (free : before.shared.queueMutex = none) (workers : List Thread)
    (areWorkers : ∀ thread ∈ workers, isWorker thread) :
    ∃ after, Relation.ReflTransGen Step before after ∧
      (∀ thread ∈ workers, after.thread thread = .exited) ∧
      ∀ thread, before.thread thread = .exited → after.thread thread = .exited := by
  induction workers generalizing before with
  | nil => exact ⟨before, .refl, by simp, fun _ already => already⟩
  | cons self workers induction =>
      rcases joining.runsToExit (areWorkers self (by simp)) (.inl free) with
        ⟨next, run, nextJoining, nextFree, selfExited, keeps⟩
      rcases induction nextJoining nextFree
        (fun thread member => areWorkers thread (List.mem_cons_of_mem _ member)) with
        ⟨after, rest, exited, keepsLater⟩
      refine ⟨after, run.trans rest, fun thread member => ?_,
        fun thread already => keepsLater thread (keeps thread already)⟩
      rcases List.mem_cons.mp member with rfl | member
      · exact keepsLater thread selfExited
      · exact exited thread member

/-- Whoever holds the mutex goes first. -/
theorem Joining.allRunToExit (joining : Joining isWorker before) (workers : List Thread)
    (areWorkers : ∀ thread ∈ workers, isWorker thread) :
    ∃ after, Relation.ReflTransGen Step before after ∧
      ∀ thread ∈ workers, after.thread thread = .exited := by
  cases mutexIs : before.shared.queueMutex with
  | none =>
      rcases joining.listRunsToExit mutexIs workers areWorkers with ⟨after, run, exited, _⟩
      exact ⟨after, run, exited⟩
  | some holder =>
      have holds := ((reachable_exclusive joining.reachable).mutex holder).mpr mutexIs
      have worker : isWorker holder := by
        by_contra isWriter
        rw [joining.writers holder isWriter] at holds
        exact holds
      rcases joining.runsToExit worker (.inr mutexIs) with ⟨next, run, nextJoining, free, _⟩
      rcases nextJoining.listRunsToExit free workers areWorkers with ⟨after, rest, exited, _⟩
      exact ⟨after, run.trans rest, exited⟩

theorem reachable_workersStay
    (reachable : Foundation.Reachable (Initial isWorker) Step state) :
    WorkersStay isWorker state := by
  refine reachable.invariant (fun start initial thread worker => ?_)
    fun before after _ ofWorker step thread worker => ?_
  · simp [initial.workers thread worker, OfWorker]
  · rcases step.acts_or_frames with ⟨_, threads⟩ |
      ⟨self, signals, position, shared, acts, delivered, rfl, _⟩
    · rcases threads thread with same | woken
      · rw [same]
        exact ofWorker thread worker
      · rw [woken, ofWorker_wake]
        exact ofWorker thread worker
    · rw [delivered.holds ofWorker_wake thread]
      by_cases isSelf : thread = self
      · subst isSelf
        simpa using acts.ofWorker (ofWorker thread worker)
      · simpa [Function.update_of_ne isSelf] using ofWorker thread worker

/-- When the broadcast is sent while no worker is committed to wait, then no
thread is asleep on `cond_read` in any later state, and from each of them all
workers can exit, so that the joins return. -/
theorem shutdown_strandsNobody
    (reachable : Foundation.Reachable (Initial isWorker) PromptStep state)
    (joining : state.shutdownCall = .joining) :
    (∀ thread, ¬ (state.thread thread).Blocked .condRead) ∧
      ∀ workers : List Thread, (∀ thread, thread ∈ workers ↔ isWorker thread) →
        (∀ thread, ¬ isWorker thread → state.thread thread = .writerIdle) →
        ∃ after, Relation.ReflTransGen Step state after ∧
          ∀ thread, isWorker thread → after.thread thread = .exited := by
  have draining := (reachable_prompt reachable).draining joining
  have anyRun := reachable.mono fun _ _ (step : PromptStep _ _) => step.1
  refine ⟨draining.notBlocked, fun workers workersAre writers => ?_⟩
  have joiningState : Joining isWorker state :=
    ⟨anyRun, draining, reachable_workersStay anyRun, writers⟩
  rcases joiningState.allRunToExit workers fun thread => (workersAre thread).mp with
    ⟨after, run, exited⟩
  exact ⟨after, run, fun thread worker => exited thread ((workersAre thread).mpr worker)⟩

theorem shutdown_strandsNobody_sleeper : ∃ state : SchedulerState Bool Nat,
    state.shutdownCall = .joining ∧ state.thread true = .enterReadWait true ∧
      (∀ thread, ¬ (state.thread thread).Blocked .condRead) ∧
      ∀ workers : List Bool, (∀ thread, thread ∈ workers ↔ thread = true) →
        (∀ thread, ¬ thread = true → state.thread thread = .writerIdle) →
        ∃ after, Relation.ReflTransGen Step state after ∧
          ∀ thread, thread = true → after.thread thread = .exited := by
  have run : Foundation.Reachable (Initial (· = true)) PromptStep
      (⟨⟨none, 0, 0, false, .empty, [], [], [], []⟩,
        fun thread => if thread then .executorTest else .writerIdle, .notRequested⟩ :
          SchedulerState Bool Nat) :=
    .start ⟨rfl, rfl, rfl, rfl, rfl, rfl, rfl, rfl, rfl, by simp, by simp, rfl⟩
  have run := run.next ⟨.acts true (.executorTest rfl) .nothing,
    fun called => absurd called (by simp)⟩
  have run := run.next ⟨.acts true (.enterReadLock rfl) .nothing,
    fun called => absurd called (by simp)⟩
  have run := run.next ⟨.acts true (.enterReadShutdown rfl) .nothing,
    fun called => absurd called (by simp)⟩
  have run := run.next ⟨.acts true (.enterReadLoop (.inr rfl)) .nothing,
    fun called => absurd called (by simp)⟩
  have run := run.next ⟨.acts true (.loopShutdown rfl) .nothing,
    fun called => absurd called (by simp)⟩
  have run := run.next ⟨.acts true (.loopSignal rfl)
    (.write (.lost (by intro waiter; cases waiter <;> simp [Blocked]))),
    fun called => absurd called (by simp)⟩
  have run := run.next ⟨.acts true .loopWait .nothing, fun called => absurd called (by simp)⟩
  have run := run.next ⟨.setShutdown rfl, fun called => absurd called (by simp)⟩
  have run := run.next ⟨.broadcast rfl
    (fun thread => if thread then .enterReadWait true else .writerIdle)
    (by intro thread; cases thread <;> simp [Blocked, wake]),
    by intro _ _ thread; cases thread <;> simp [CommittedToWait]⟩
  exact ⟨_, rfl, rfl, shutdown_strandsNobody run rfl⟩

/-- The condition is exact: a worker that is committed to wait at the broadcast
can fall asleep after it. -/
theorem committedToWait_strands (flagSet : before.shutdownCall = .flagSet)
    (step : Step before after) (joining : after.shutdownCall = .joining) {self : Thread}
    (committed : (before.thread self).CommittedToWait) :
    ∃ later, Relation.ReflTransGen Step after later ∧ later.shutdownCall = .joining ∧
      (later.thread self).Blocked .condRead := by
  cases step with
  | acts | spurious =>
      rw [flagSet] at joining
      cases joining
  | setShutdown notRequested =>
      rw [flagSet] at notRequested
      cases notRequested
  | broadcast _ threads woken =>
      have same : threads self = before.thread self := by
        apply (woken self).2
        intro blocked
        generalize before.thread self = position at *
        cases position <;> simp_all [CommittedToWait, Blocked]
      have fallsAsleep : ∀ (shared : Shared Thread Job)
          (threads : Thread → ThreadState Job), threads self = .loopWait →
          Step ⟨shared, threads, .joining⟩ ⟨{ shared with queueMutex := none },
            Function.update threads self (.enterReadWait false), .joining⟩ := by
        intro shared threads atWait
        have acts : Acts self (threads self) shared .nothing (.enterReadWait false)
            { shared with queueMutex := none } := by
          rw [atWait]
          exact .loopWait
        exact .acts self acts .nothing
      cases at_ : before.thread self with
      | loopWait =>
          exact ⟨_, .single (fallsAsleep _ threads (same.trans at_)), rfl, by simp [Blocked]⟩
      | loopSignal =>
          -- the signal to the writers, if it is sent, does not move the worker
          have signals : ∃ signals, Acts self (threads self) before.shared signals .loopWait
              before.shared := by
            rw [same, at_]
            by_cases empty : before.shared.jobQueue.size = 0
            · exact ⟨_, .loopSignal empty⟩
            · exact ⟨_, .loopNoSignal empty⟩
          rcases signals with ⟨signals, acts⟩
          rcases Delivered.exists_after (Function.update threads self .loopWait) signals with
            ⟨between, delivered⟩
          have atWait : between self = .loopWait := by
            have kept := delivered.eq_or_wake self
            simpa [wake] using kept
          exact ⟨_, .tail (.single (.acts self acts delivered)) (fallsAsleep _ between atWait),
            rfl, by simp [Blocked]⟩
      | _ => simp [at_, CommittedToWait] at committed

/-- One worker on an empty queue tests the flag, then the flag is set and the
broadcast sent, and then the worker starts to wait. -/
theorem shutdown_strandsWorker :
    ¬ ∀ state : SchedulerState Unit Nat,
      Foundation.Reachable (Initial fun _ => True) Step state →
      state.shutdownCall = .joining → ∀ thread, ¬ (state.thread thread).Blocked .condRead := by
  intro claim
  have run : Foundation.Reachable (Initial fun _ => True) Step
      (⟨⟨none, 0, 0, false, .empty, [], [], [], []⟩, fun _ => .executorTest, .notRequested⟩ :
        SchedulerState Unit Nat) :=
    .start ⟨rfl, rfl, rfl, rfl, rfl, rfl, rfl, rfl, rfl, by simp, by simp, rfl⟩
  have run := run.next (.acts () (.executorTest rfl) .nothing)
  have run := run.next (.acts () (.enterReadLock rfl) .nothing)
  have run := run.next (.acts () (.enterReadShutdown rfl) .nothing)
  have run := run.next (.acts () (.enterReadLoop (.inr rfl)) .nothing)
  have run := run.next (.acts () (.loopShutdown rfl) .nothing)
  have run := run.next (.setShutdown rfl)
  have run := run.next (.broadcast rfl (fun _ => .loopSignal) (by simp [Blocked]))
  have run := run.next (.acts () (.loopSignal rfl) (.write (.lost (by simp [Blocked]))))
  have run := run.next (.acts () .loopWait .nothing)
  exact claim _ run rfl () (by simp [Blocked])

end Steps

end JoinOperator.Scheduler
