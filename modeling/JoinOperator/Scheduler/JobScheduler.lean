import JoinOperator.Foundation.Reachability
import JoinOperator.Scheduler.JobQueue

/-! # The job scheduler

Any number of threads call `writeOnQueue` and any number of workers run
`jobExecutor`. A step is what one thread does between two points where another
thread can interfere: taking `queueMutex`, a test, an update of the shared
counters, one memory update of the queue, or the wait on a condition.
-/

namespace JoinOperator.Scheduler

/-- The two condition variables that are used. -/
inductive Condition
  | condRead
  | condWrite
  deriving DecidableEq

/-- Where a thread is. The first group is `writeOnQueue` with `enterWrite`,
`insertInQueue` and `exitWrite`, the second `jobExecutor` with `enterRead`,
`popFromQueue` and `exitRead`. A waiting thread is `woken` once a signal, a
broadcast or a spurious wake-up has reached it. -/
inductive ThreadState (Job : Type)
  | writerIdle
  | enterWriteLock (job : Job)
  | enterWriteTest (job : Job)
  | enterWriteWait (job : Job) (woken : Bool)
  | insertLink (job : Job)
  | insertLast (job : Job) (wasEmpty : Bool)
  | insertSize (job : Job)
  | exitWriteLock
  | exitWriteBody
  | executorTest
  | enterReadLock
  | enterReadShutdown
  | enterReadTest
  | loopShutdown
  | loopSignal
  | loopWait
  | enterReadWait (woken : Bool)
  | popTest
  | popUnlink (retNode : Nat)
  | popSize (retNode : Nat)
  | popJob (retNode : Nat)
  | exitReadLock (job : Job)
  | exitReadBody (job : Job)
  | exitReadShutdown (job : Job)
  | runJob (job : Job)
  | exited
  | faulted

namespace ThreadState

variable {Job : Type}

/-- The thread is blocked in `pthread_cond_wait` and nothing has woken it. -/
def Blocked : ThreadState Job → Condition → Prop
  | .enterWriteWait _ false, .condWrite => True
  | .enterReadWait false, .condRead => True
  | _, _ => False

/-- A waiting thread becomes runnable; it still has to get the mutex back. -/
def wake : ThreadState Job → ThreadState Job
  | .enterWriteWait job _ => .enterWriteWait job true
  | .enterReadWait _ => .enterReadWait true
  | other => other

end ThreadState

/-- `struct JobScheduler`, with the jobs that were passed to `writeOnQueue`,
inserted, popped and finished so far, oldest first. -/
structure Shared (Thread Job : Type) where
  queueMutex : Option Thread
  writing : Nat
  reading : Nat
  shutdown : Bool
  jobQueue : JobQueueHead Job
  passed : List Job
  inserted : List Job
  popped : List Job
  finished : List Job

namespace Shared

variable {Thread Job : Type}

/-- The test of the `while` loop in `enterWrite`. -/
def Busy (shared : Shared Thread Job) : Prop :=
  0 < shared.writing ∨ 0 < shared.reading

def queued (shared : Shared Thread Job) : List Job :=
  shared.inserted.drop shared.popped.length

end Shared

inductive Signals
  | nothing
  | read
  | write
  | readThenWrite

section Acts

variable {Thread Job : Type}

/-- One step of the thread `self`: its position and the shared state before,
what it signals, and both afterwards. -/
inductive Acts (self : Thread) :
    ThreadState Job → Shared Thread Job → Signals →
    ThreadState Job → Shared Thread Job → Prop
  /-- A new call of `writeOnQueue`. Every job is an allocation of its own. -/
  | writeOnQueue {shared} (job : Job) (isNew : job ∉ shared.passed) :
      Acts self .writerIdle shared .nothing
        (.enterWriteLock job) { shared with passed := shared.passed ++ [job] }
  | enterWriteLock {shared} (job : Job) (available : shared.queueMutex = none) :
      Acts self (.enterWriteLock job) shared .nothing
        (.enterWriteTest job) { shared with queueMutex := some self }
  | enterWriteWait {shared} (job : Job) (busy : shared.Busy) :
      Acts self (.enterWriteTest job) shared .nothing
        (.enterWriteWait job false) { shared with queueMutex := none }
  | enterWriteResume {shared} (job : Job) (available : shared.queueMutex = none) :
      Acts self (.enterWriteWait job true) shared .nothing
        (.enterWriteTest job) { shared with queueMutex := some self }
  | enterWriteGo {shared} (job : Job) (idle : ¬ shared.Busy) :
      Acts self (.enterWriteTest job) shared .nothing (.insertLink job)
        { shared with writing := shared.writing + 1, queueMutex := none }
  | insertLink {shared} (job : Job) {after}
      (result : shared.jobQueue.linkNode job = some after) :
      Acts self (.insertLink job) shared .nothing
        (.insertLast job (decide (shared.jobQueue.size = 0)))
        { shared with jobQueue := after }
  | insertLinkFault {shared} (job : Job)
      (fault : shared.jobQueue.linkNode job = none) :
      Acts self (.insertLink job) shared .nothing .faulted shared
  | insertLast {shared} (job : Job) (wasEmpty : Bool) {after}
      (result : shared.jobQueue.moveLast wasEmpty = some after) :
      Acts self (.insertLast job wasEmpty) shared .nothing
        (.insertSize job) { shared with jobQueue := after }
  | insertLastFault {shared} (job : Job) (wasEmpty : Bool)
      (fault : shared.jobQueue.moveLast wasEmpty = none) :
      Acts self (.insertLast job wasEmpty) shared .nothing .faulted shared
  | insertSize {shared} (job : Job) :
      Acts self (.insertSize job) shared .nothing .exitWriteLock
        { shared with
          jobQueue := shared.jobQueue.incrementSize
          inserted := shared.inserted ++ [job] }
  | exitWriteLock {shared} (available : shared.queueMutex = none) :
      Acts self .exitWriteLock shared .nothing
        .exitWriteBody { shared with queueMutex := some self }
  /-- `exitWrite` only signals `cond_read`. -/
  | exitWriteBody {shared} :
      Acts self .exitWriteBody shared .read .writerIdle
        { shared with writing := shared.writing - 1, queueMutex := none }
  | executorTest {shared} (running : shared.shutdown = false) :
      Acts self .executorTest shared .nothing .enterReadLock shared
  | executorExit {shared} (stopped : shared.shutdown = true) :
      Acts self .executorTest shared .nothing .exited shared
  | enterReadLock {shared} (available : shared.queueMutex = none) :
      Acts self .enterReadLock shared .nothing
        .enterReadShutdown { shared with queueMutex := some self }
  | enterReadExit {shared} (stopped : shared.shutdown = true) :
      Acts self .enterReadShutdown shared .nothing
        .exited { shared with queueMutex := none }
  | enterReadShutdown {shared} (running : shared.shutdown = false) :
      Acts self .enterReadShutdown shared .nothing .enterReadTest shared
  | enterReadGo {shared} (idle : ¬ shared.Busy) (nonempty : shared.jobQueue.size ≠ 0) :
      Acts self .enterReadTest shared .nothing .popTest
        { shared with reading := shared.reading + 1, queueMutex := none }
  | enterReadLoop {shared} (busy : shared.Busy ∨ shared.jobQueue.size = 0) :
      Acts self .enterReadTest shared .nothing .loopShutdown shared
  | loopExit {shared} (stopped : shared.shutdown = true) :
      Acts self .loopShutdown shared .nothing
        .exited { shared with queueMutex := none }
  | loopShutdown {shared} (running : shared.shutdown = false) :
      Acts self .loopShutdown shared .nothing .loopSignal shared
  | loopSignal {shared} (empty : shared.jobQueue.size = 0) :
      Acts self .loopSignal shared .write .loopWait shared
  | loopNoSignal {shared} (nonempty : shared.jobQueue.size ≠ 0) :
      Acts self .loopSignal shared .nothing .loopWait shared
  | loopWait {shared} :
      Acts self .loopWait shared .nothing
        (.enterReadWait false) { shared with queueMutex := none }
  | enterReadResume {shared} (available : shared.queueMutex = none) :
      Acts self (.enterReadWait true) shared .nothing
        .enterReadTest { shared with queueMutex := some self }
  | popTest {shared} {retNode : Nat} (nonempty : shared.jobQueue.size ≠ 0)
      (first : shared.jobQueue.firstNode = some retNode) :
      Acts self .popTest shared .nothing (.popUnlink retNode) shared
  /-- On an empty queue `popFromQueue` returns `NULL`, which `jobExecutor`
  dereferences. -/
  | popTestFault {shared} (empty : shared.jobQueue.size = 0 ∨
      shared.jobQueue.firstNode = none) :
      Acts self .popTest shared .nothing .faulted shared
  | popUnlink {shared} (retNode : Nat) {after}
      (result : shared.jobQueue.unlinkFirst retNode = some after) :
      Acts self (.popUnlink retNode) shared .nothing
        (.popSize retNode) { shared with jobQueue := after }
  | popUnlinkFault {shared} (retNode : Nat)
      (fault : shared.jobQueue.unlinkFirst retNode = none) :
      Acts self (.popUnlink retNode) shared .nothing .faulted shared
  | popSize {shared} (retNode : Nat) :
      Acts self (.popSize retNode) shared .nothing (.popJob retNode)
        { shared with jobQueue := shared.jobQueue.decrementSize }
  | popJob {shared} (retNode : Nat) {job after}
      (result : shared.jobQueue.takeJob retNode = some (job, after)) :
      Acts self (.popJob retNode) shared .nothing (.exitReadLock job)
        { shared with jobQueue := after, popped := shared.popped ++ [job] }
  | popJobFault {shared} (retNode : Nat)
      (fault : shared.jobQueue.takeJob retNode = none) :
      Acts self (.popJob retNode) shared .nothing .faulted shared
  | exitReadLock {shared} (job : Job) (available : shared.queueMutex = none) :
      Acts self (.exitReadLock job) shared .nothing
        (.exitReadBody job) { shared with queueMutex := some self }
  /-- `exitRead` signals `cond_read` and then `cond_write`. -/
  | exitReadBody {shared} (job : Job) :
      Acts self (.exitReadBody job) shared .readThenWrite (.exitReadShutdown job)
        { shared with reading := shared.reading - 1, queueMutex := none }
  | exitReadExit {shared} (job : Job) (stopped : shared.shutdown = true) :
      Acts self (.exitReadShutdown job) shared .nothing .exited shared
  | exitReadShutdown {shared} (job : Job) (running : shared.shutdown = false) :
      Acts self (.exitReadShutdown job) shared .nothing (.runJob job) shared
  | runJob {shared} (job : Job) :
      Acts self (.runJob job) shared .nothing .executorTest
        { shared with finished := shared.finished ++ [job] }

end Acts

inductive ShutdownState
  | notRequested
  | flagSet
  | joining
  deriving DecidableEq

structure SchedulerState (Thread Job : Type) where
  shared : Shared Thread Job
  thread : Thread → ThreadState Job
  shutdownCall : ShutdownState

section Steps

variable {Thread Job : Type} [DecidableEq Thread]

/-- `pthread_cond_signal`: one of the threads blocked on the condition is
woken, whichever; without one the signal is lost. -/
inductive SignalOne (condition : Condition) (threads : Thread → ThreadState Job) :
    (Thread → ThreadState Job) → Prop
  | woken (waiter : Thread) (blocked : (threads waiter).Blocked condition) :
      SignalOne condition threads
        (Function.update threads waiter (threads waiter).wake)
  | lost (nobody : ∀ waiter, ¬ (threads waiter).Blocked condition) :
      SignalOne condition threads threads

inductive Delivered (threads : Thread → ThreadState Job) :
    Signals → (Thread → ThreadState Job) → Prop
  | nothing : Delivered threads .nothing threads
  | read {after} (signal : SignalOne .condRead threads after) :
      Delivered threads .read after
  | write {after} (signal : SignalOne .condWrite threads after) :
      Delivered threads .write after
  | readThenWrite {between after} (read : SignalOne .condRead threads between)
      (write : SignalOne .condWrite between after) :
      Delivered threads .readThenWrite after

inductive Step : SchedulerState Thread Job → SchedulerState Thread Job → Prop
  | acts {state : SchedulerState Thread Job} (self : Thread) {signals position shared threads}
      (acts : Acts self (state.thread self) state.shared signals position shared)
      (delivered : Delivered (Function.update state.thread self position)
        signals threads) :
      Step state { state with shared := shared, thread := threads }
  /-- A spurious wake-up. -/
  | spurious {state : SchedulerState Thread Job} (waiter : Thread) :
      Step state { state with
        thread := Function.update state.thread waiter (state.thread waiter).wake }
  /-- `jobScheduler.shutdown = 1`, without the mutex. -/
  | setShutdown {state : SchedulerState Thread Job}
      (before : state.shutdownCall = .notRequested) :
      Step state { state with
        shared := { state.shared with shutdown := true }
        shutdownCall := .flagSet }
  /-- `pthread_cond_broadcast(&cond_read)`, without the mutex. -/
  | broadcast {state : SchedulerState Thread Job}
      (before : state.shutdownCall = .flagSet) (threads : Thread → ThreadState Job)
      (woken : ∀ thread, ((state.thread thread).Blocked .condRead →
          threads thread = (state.thread thread).wake) ∧
        (¬ (state.thread thread).Blocked .condRead →
          threads thread = state.thread thread)) :
      Step state { state with thread := threads, shutdownCall := .joining }

end Steps

variable {Thread Job : Type}

/-- After `initialiseScheduler`: the counters are zero, the queue is empty, the
writers have not called `writeOnQueue` and the workers start `jobExecutor`. -/
structure Initial (isWorker : Thread → Prop) (state : SchedulerState Thread Job) :
    Prop where
  queueMutex : state.shared.queueMutex = none
  writing : state.shared.writing = 0
  reading : state.shared.reading = 0
  shutdown : state.shared.shutdown = false
  jobQueue : state.shared.jobQueue = .empty
  passed : state.shared.passed = []
  inserted : state.shared.inserted = []
  popped : state.shared.popped = []
  finished : state.shared.finished = []
  workers : ∀ thread, isWorker thread → state.thread thread = .executorTest
  writers : ∀ thread, ¬ isWorker thread → state.thread thread = .writerIdle
  shutdownCall : state.shutdownCall = .notRequested

theorem Initial.positions {isWorker : Thread → Prop} {state : SchedulerState Thread Job}
    (initial : Initial isWorker state) (thread : Thread) :
    state.thread thread = .executorTest ∨ state.thread thread = .writerIdle := by
  by_cases worker : isWorker thread
  · exact .inl (initial.workers thread worker)
  · exact .inr (initial.writers thread worker)

end JoinOperator.Scheduler
