import Mathlib.Logic.Function.Basic
import Mathlib.Data.List.Basic

/-! # The job queue

`jobQueueHead` and its nodes as they lie in memory, with `insertInQueue` and
`popFromQueue` cut into the single memory updates they consist of. An address
is a natural number and `none` is `NULL`; a step that follows a `NULL` or freed
pointer has no result.
-/

namespace JoinOperator.Scheduler

structure JobNode (Job : Type) where
  job : Job
  next : Option Nat

/-- `struct JobQueueHead`, with the heap its nodes are allocated in. `fresh` is
the address the next `malloc` returns. -/
structure JobQueueHead (Job : Type) where
  size : Nat
  firstNode : Option Nat
  lastNode : Option Nat
  heap : Nat → Option (JobNode Job)
  fresh : Nat

namespace JobQueueHead

variable {Job : Type}

/-- The queue `initialiseScheduler` allocates. -/
def empty : JobQueueHead Job where
  size := 0
  firstNode := none
  lastNode := none
  heap := fun _ => none
  fresh := 0

/-! ## `insertInQueue` -/

def createNode (queue : JobQueueHead Job) (job : Job) : Nat × JobQueueHead Job :=
  (queue.fresh,
    { queue with
      heap := Function.update queue.heap queue.fresh (some ⟨job, none⟩)
      fresh := queue.fresh + 1 })

/-- First update: the new node becomes `firstNode` of an empty queue, or is
hung behind `lastNode`. -/
def linkNode (queue : JobQueueHead Job) (job : Job) : Option (JobQueueHead Job) :=
  let (node, allocated) := queue.createNode job
  if queue.size = 0 then
    some { allocated with firstNode := some node }
  else do
    let last ← allocated.lastNode
    let lastNode ← allocated.heap last
    some { allocated with
      heap := Function.update allocated.heap last
        (some { lastNode with next := some node }) }

/-- Second update: `lastNode`, from `firstNode` in the branch for the empty
queue and from `lastNode->next` in the other. -/
def moveLast (queue : JobQueueHead Job) (wasEmpty : Bool) :
    Option (JobQueueHead Job) :=
  if wasEmpty then
    some { queue with lastNode := queue.firstNode }
  else do
    let last ← queue.lastNode
    let lastNode ← queue.heap last
    some { queue with lastNode := lastNode.next }

/-- Third update: `size += 1`. -/
def incrementSize (queue : JobQueueHead Job) : JobQueueHead Job :=
  { queue with size := queue.size + 1 }

/-! ## `popFromQueue` -/

/-- Second part of `popFromQueue`: with a single job both ends become `NULL`,
otherwise `firstNode` moves on. `retNode` was read before. -/
def unlinkFirst (queue : JobQueueHead Job) (retNode : Nat) :
    Option (JobQueueHead Job) :=
  if queue.size = 1 then
    some { queue with firstNode := none, lastNode := none }
  else do
    let node ← queue.heap retNode
    some { queue with firstNode := node.next }

def decrementSize (queue : JobQueueHead Job) : JobQueueHead Job :=
  { queue with size := queue.size - 1 }

def takeJob (queue : JobQueueHead Job) (retNode : Nat) :
    Option (Job × JobQueueHead Job) := do
  let node ← queue.heap retNode
  some (node.job,
    { queue with heap := Function.update queue.heap retNode none })

/-! ## What the queue describes -/

/-- The nodes carry the jobs in order, each pointing at the one after it. -/
def Linked (heap : Nat → Option (JobNode Job)) : List Nat → List Job → Prop
  | [], [] => True
  | node :: nodes, job :: jobs =>
      heap node = some ⟨job, nodes.head?⟩ ∧ Linked heap nodes jobs
  | _, _ => False

/-- `firstNode`, `lastNode` and `size` describe the same list of jobs. -/
structure Represents (queue : JobQueueHead Job) (jobs : List Job) : Prop where
  described : ∃ nodes : List Nat,
    nodes.Nodup ∧ (∀ node ∈ nodes, node < queue.fresh) ∧
    Linked queue.heap nodes jobs ∧
    queue.firstNode = nodes.head? ∧ queue.lastNode = nodes.getLast? ∧
    queue.size = jobs.length

theorem represents_empty : Represents (empty : JobQueueHead Job) [] :=
  ⟨⟨[], by simp, by simp, trivial, rfl, rfl, rfl⟩⟩

namespace Linked

variable {heap : Nat → Option (JobNode Job)} {nodes : List Nat} {jobs : List Job}

theorem length_eq (linked : Linked heap nodes jobs) :
    nodes.length = jobs.length := by
  induction nodes generalizing jobs with
  | nil => cases jobs with
    | nil => rfl
    | cons job jobs => exact linked.elim
  | cons node nodes induction => cases jobs with
    | nil => exact linked.elim
    | cons job jobs => simp [induction linked.2]

theorem cell_of_mem (linked : Linked heap nodes jobs) {node : Nat}
    (member : node ∈ nodes) : ∃ cell, heap node = some cell := by
  induction nodes generalizing jobs with
  | nil => cases member
  | cons head nodes induction => cases jobs with
    | nil => exact linked.elim
    | cons job jobs =>
        rcases List.mem_cons.mp member with rfl | member
        · exact ⟨_, linked.1⟩
        · exact induction linked.2 member

theorem frame (linked : Linked heap nodes jobs)
    {after : Nat → Option (JobNode Job)}
    (same : ∀ node ∈ nodes, after node = heap node) : Linked after nodes jobs := by
  induction nodes generalizing jobs with
  | nil => cases jobs with
    | nil => trivial
    | cons job jobs => exact linked.elim
  | cons node nodes induction => cases jobs with
    | nil => exact linked.elim
    | cons job jobs =>
        refine ⟨(same node (by simp)).trans linked.1, ?_⟩
        exact induction linked.2 fun other member => same other (by simp [member])

theorem append {last fresh : Nat} {lastNode : JobNode Job} {job : Job}
    (linked : Linked heap nodes jobs) (nodup : nodes.Nodup)
    (isLast : nodes.getLast? = some last) (lastCell : heap last = some lastNode)
    (isFresh : fresh ∉ nodes)
    {after : Nat → Option (JobNode Job)}
    (freshCell : after fresh = some ⟨job, none⟩)
    (hung : after last = some { lastNode with next := some fresh })
    (same : ∀ node ∈ nodes, node ≠ last → after node = heap node) :
    Linked after (nodes ++ [fresh]) (jobs ++ [job]) := by
  induction nodes generalizing jobs with
  | nil => simp at isLast
  | cons node nodes induction => cases jobs with
    | nil => exact linked.elim
    | cons first jobs =>
        have parts := List.nodup_cons.mp nodup
        cases nodes with
        | nil =>
            have lastIs : last = node := by simpa using isLast.symm
            subst lastIs
            have cell : lastNode = ⟨first, none⟩ := by
              simpa [lastCell] using linked.1
            have none := linked.2
            cases jobs with
            | nil => exact ⟨by simp [hung, cell], by simpa [Linked] using freshCell⟩
            | cons => exact none.elim
        | cons second rest =>
            have isLastRest : (second :: rest).getLast? = some last := by
              simpa using isLast
            have differs : node ≠ last := by
              intro equal
              exact parts.1 (equal ▸ List.mem_of_getLast? isLastRest)
            refine ⟨?_, induction linked.2 parts.2 isLastRest ?_ ?_⟩
            · rw [same node (by simp) differs]
              exact linked.1
            · exact fun member => isFresh (by simp [member])
            · exact fun other member => same other (by simp [member])

end Linked

namespace Represents

variable {queue : JobQueueHead Job} {jobs : List Job}

theorem size_eq (represents : Represents queue jobs) :
    queue.size = jobs.length := by
  rcases represents.described with ⟨_, _, _, _, _, _, size⟩
  exact size

/-- The three updates of `insertInQueue` append the job; none of them follows
a bad pointer. -/
theorem insertInQueue (represents : Represents queue jobs) (job : Job) :
    ∃ linked moved, queue.linkNode job = some linked ∧
      linked.moveLast (decide (queue.size = 0)) = some moved ∧
      Represents moved.incrementSize (jobs ++ [job]) := by
  rcases represents.described with
    ⟨nodes, nodup, allocated, linked, first, last, size⟩
  have isFresh : queue.fresh ∉ nodes := fun member =>
    Nat.lt_irrefl _ (allocated _ member)
  have freshNodup : (nodes ++ [queue.fresh]).Nodup := by
    rw [List.nodup_append]
    refine ⟨nodup, by simp, ?_⟩
    intro node member other otherMember equal
    simp only [List.mem_singleton] at otherMember
    exact isFresh (otherMember ▸ equal ▸ member)
  have freshAllocated : ∀ node ∈ nodes ++ [queue.fresh], node < queue.fresh + 1 := by
    intro node member
    rcases List.mem_append.mp member with member | member
    · exact Nat.lt_succ_of_lt (allocated node member)
    · simp only [List.mem_singleton] at member
      omega
  by_cases isEmpty : queue.size = 0
  · have noJobs : jobs = [] := by
      rw [size] at isEmpty
      simpa using isEmpty
    have noNodes : nodes = [] := by
      simpa [noJobs] using linked.length_eq
    subst noJobs noNodes
    refine ⟨_, _, by simp [linkNode, createNode, isEmpty]; rfl,
      by simp [moveLast, isEmpty]; rfl,
      ⟨⟨[queue.fresh], by simp, ?_, ?_, rfl, rfl, ?_⟩⟩⟩
    · simp [incrementSize]
    · simp [Linked, incrementSize]
    · simp [incrementSize]
  · have someNode : nodes ≠ [] := by
      intro noNodes
      have noJobs := linked.length_eq
      simp only [noNodes, List.length_nil] at noJobs
      omega
    have lastIs : nodes.getLast? = some (nodes.getLast someNode) :=
      List.getLast?_eq_some_getLast someNode
    have lastMem : nodes.getLast someNode ∈ nodes := List.getLast_mem someNode
    have lastFresh : nodes.getLast someNode ≠ queue.fresh := fun equal =>
      isFresh (equal ▸ lastMem)
    rcases linked.cell_of_mem lastMem with ⟨lastNode, lastCell⟩
    have linkedIs : queue.linkNode job = some
        { queue with
          heap := Function.update
            (Function.update queue.heap queue.fresh (some ⟨job, none⟩))
            (nodes.getLast someNode) (some { lastNode with next := some queue.fresh })
          fresh := queue.fresh + 1 } := by
      simp [linkNode, createNode, isEmpty, last, lastIs, lastCell,
        Function.update_of_ne lastFresh]
    refine ⟨_, _, linkedIs, by simp [moveLast, isEmpty, last, lastIs]; rfl,
      ⟨⟨nodes ++ [queue.fresh], freshNodup, ?_, ?_, ?_, ?_, ?_⟩⟩⟩
    · simpa [incrementSize] using freshAllocated
    · refine linked.append nodup lastIs lastCell isFresh ?_ ?_ ?_
      · simp [incrementSize, Function.update_of_ne lastFresh.symm]
      · simp [incrementSize]
      · intro node member differs
        have differsFresh : node ≠ queue.fresh := fun equal => isFresh (equal ▸ member)
        simp [incrementSize, Function.update_of_ne differs,
          Function.update_of_ne differsFresh]
    · simp only [incrementSize, first]
      cases nodes with
      | nil => exact absurd rfl someNode
      | cons node nodes => rfl
    · simp [incrementSize]
    · simp [incrementSize, size]

/-- On a queue with a job, the updates of `popFromQueue` take its first job;
none of them follows a bad pointer. -/
theorem popFromQueue {job : Job} (represents : Represents queue (job :: jobs)) :
    ∃ node unlinked popped, queue.firstNode = some node ∧
      queue.unlinkFirst node = some unlinked ∧
      unlinked.decrementSize.takeJob node = some (job, popped) ∧
      Represents popped jobs := by
  rcases represents.described with
    ⟨nodes, nodup, allocated, linked, first, last, size⟩
  cases nodes with
  | nil => exact linked.elim
  | cons node nodes =>
      have parts := List.nodup_cons.mp nodup
      have cell : queue.heap node = some ⟨job, nodes.head?⟩ := linked.1
      have rest : Linked (Function.update queue.heap node none) nodes jobs := by
        refine linked.2.frame fun other member => ?_
        exact Function.update_of_ne (fun equal => parts.1 (by rwa [← equal])) _ _
      have restAllocated : ∀ other ∈ nodes, other < queue.fresh := fun other member =>
        allocated other (List.mem_cons_of_mem _ member)
      by_cases single : queue.size = 1
      · have noJobs : jobs = [] := by
          rw [size] at single
          simpa using single
        have noNodes : nodes = [] := by
          simpa [noJobs] using linked.2.length_eq
        subst noJobs noNodes
        refine ⟨node, _, _, first, by simp [unlinkFirst, single]; rfl,
          by simp [takeJob, decrementSize, cell]; rfl,
          ⟨⟨[], by simp, by simp, trivial, rfl, rfl, ?_⟩⟩⟩
        simp
      · have someJob : jobs ≠ [] := by
          intro noJobs
          rw [size, noJobs] at single
          simp at single
        have someNode : nodes ≠ [] := by
          intro noNodes
          have lengths := linked.2.length_eq
          simp only [noNodes, List.length_nil] at lengths
          exact someJob (List.length_eq_zero_iff.mp lengths.symm)
        have unlinkedIs : queue.unlinkFirst node =
            some { queue with firstNode := nodes.head? } := by
          simp [unlinkFirst, single, cell]
        refine ⟨node, _, _, first, unlinkedIs,
          by simp [takeJob, decrementSize, cell]; rfl,
          ⟨⟨nodes, parts.2, ?_, ?_, rfl, ?_, ?_⟩⟩⟩
        · exact restAllocated
        · exact rest
        · simp only [last]
          cases nodes with
          | nil => exact absurd rfl someNode
          | cons second nodes => simp
        · simp [size]

end Represents

end JobQueueHead

end JoinOperator.Scheduler
