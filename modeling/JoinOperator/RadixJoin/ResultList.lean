import JoinOperator.Foundation.Loop
import JoinOperator.RadixJoin.BasicStructs
import Mathlib.Data.List.Flatten

/-! # Lists of results

A result list is a linked list of nodes with a buffer that is not yet a node.
`nodes` is what is linked from `firstNode`, and `tail` is a position in it.
-/

namespace JoinOperator.RadixJoin

open Foundation

/-- `MB / sizeof(tuple)`, the number of results in a full node. -/
def maxTuples : Nat := 128000 / 16

structure HeadResult where
  nodes : List (List RowTuple)
  tail : Option Nat
  numbOfNodes : Nat
  totalSize : Nat
  buffTuple : Option (List RowTuple)
  buffSize : Nat
  deriving DecidableEq, Repr

def initialiseResultHead : HeadResult := ⟨[], none, 0, 0, some [], 0⟩

def initialiseResultHeadNoBuff : HeadResult := ⟨[], none, 0, 0, none, 0⟩

namespace HeadResult

/-- What is linked from `firstNode` after `chain` was put there, or behind the
tail. -/
def link (head : HeadResult) (atFirst : Bool) (chain : List (List RowTuple)) :
    Option (List (List RowTuple)) :=
  if atFirst then some chain
  else head.tail.map fun tail => head.nodes.take (tail + 1) ++ chain

/-- Turns the filled buffer into the last node. -/
def storeBuffer (head : HeadResult) : Option HeadResult := do
  let buffer ← head.buffTuple
  let nodes ← head.link (head.numbOfNodes = 0) [buffer.take head.buffSize]
  some { head with
    nodes
    tail := some (nodes.length - 1)
    numbOfNodes := head.numbOfNodes + 1 }

end HeadResult

def pushResultVer2 (head : HeadResult) (t : RowTuple) : Option HeadResult :=
  if head.buffSize ≠ maxTuples then do
    let buffer ← head.buffTuple
    some { head with
      buffTuple := some (buffer.take head.buffSize ++ [t])
      buffSize := head.buffSize + 1
      totalSize := head.totalSize + 1 }
  else do
    let stored ← head.storeBuffer
    some { stored with
      buffTuple := some [t]
      buffSize := 1
      totalSize := head.totalSize + 1 }

/-- `head->buffTuple = NULL`, unless there are no results at all. -/
def HeadResult.releaseBuffer (head : HeadResult) : HeadResult :=
  { head with
    buffTuple := if head.buffSize ≠ 0 ∨ head.numbOfNodes ≠ 0 then none
      else head.buffTuple }

def cleanListHead (head : HeadResult) : Option HeadResult := do
  let stored ← if head.buffSize ≠ 0 then head.storeBuffer else some head
  some stored.releaseBuffer

def connectResultList (finalResult joinedList : HeadResult) : Option HeadResult :=
  if joinedList.totalSize ≠ 0 then do
    let nodes ← finalResult.link (finalResult.totalSize = 0) joinedList.nodes
    some { finalResult with
      nodes
      tail := joinedList.tail.map (nodes.length - joinedList.nodes.length + ·)
      totalSize := finalResult.totalSize + joinedList.totalSize
      numbOfNodes := finalResult.numbOfNodes + joinedList.numbOfNodes }
  else some finalResult

namespace HeadResult

/-- The results in their order, the buffered ones last. -/
def rows (head : HeadResult) : List RowTuple :=
  head.nodes.flatten ++ head.buffTuple.getD []

/-- The counters say what is linked, `tail` is the last node, and no node is
empty. -/
structure Linked (head : HeadResult) : Prop where
  numbOfNodes : head.numbOfNodes = head.nodes.length
  tail : head.tail = if head.nodes = [] then none else some (head.nodes.length - 1)
  nonempty : ∀ node ∈ head.nodes, node ≠ []

structure Filling (head : HeadResult) : Prop extends head.Linked where
  buffered : ∃ buffer, head.buffTuple = some buffer ∧ buffer.length = head.buffSize
  fits : head.buffSize ≤ maxTuples
  totalSize : head.totalSize = head.rows.length

/-- A list that is complete: nothing is buffered. -/
structure Finished (head : HeadResult) : Prop extends head.Linked where
  noBuffer : head.buffTuple.getD [] = []
  totalSize : head.totalSize = head.nodes.flatten.length

theorem filling_initialise : initialiseResultHead.Filling where
  numbOfNodes := rfl
  tail := rfl
  nonempty := by simp [initialiseResultHead]
  buffered := ⟨[], rfl, rfl⟩
  fits := Nat.zero_le _
  totalSize := rfl

theorem finished_initialise : initialiseResultHeadNoBuff.Finished where
  numbOfNodes := rfl
  tail := rfl
  nonempty := by simp [initialiseResultHeadNoBuff]
  noBuffer := rfl
  totalSize := rfl

theorem Linked.link {head : HeadResult} (linked : head.Linked) {atFirst : Bool}
    (first : atFirst = true ↔ head.nodes = []) (chain : List (List RowTuple)) :
    head.link atFirst chain = some (head.nodes ++ chain) := by
  rw [HeadResult.link]
  by_cases empty : head.nodes = []
  · rw [if_pos (first.mpr empty), empty, List.nil_append]
  · have positive := List.length_pos_iff.mpr empty
    rw [if_neg (mt first.mp empty), linked.tail, if_neg empty, Option.map_some,
      List.take_of_length_le (by omega)]

def appendNode (head : HeadResult) (node : List RowTuple) : HeadResult :=
  { head with
    nodes := head.nodes ++ [node]
    tail := some head.nodes.length
    numbOfNodes := head.numbOfNodes + 1 }

theorem Linked.appendNode {head : HeadResult} (linked : head.Linked)
    {node : List RowTuple} (nonempty : node ≠ []) : (head.appendNode node).Linked where
  numbOfNodes := by
    simp [HeadResult.appendNode, linked.numbOfNodes]
  tail := by
    simp [HeadResult.appendNode]
  nonempty := by
    intro other member
    rcases List.mem_append.mp member with member | member
    · exact linked.nonempty other member
    · rw [List.mem_singleton.mp member]
      exact nonempty

theorem Linked.storeBuffer {head : HeadResult} (linked : head.Linked)
    {buffer : List RowTuple} (isBuffer : head.buffTuple = some buffer)
    (length : buffer.length = head.buffSize) :
    head.storeBuffer = some (head.appendNode buffer) := by
  have whole : buffer.take head.buffSize = buffer := by
    rw [← length, List.take_length]
  have first : decide (head.numbOfNodes = 0) = true ↔ head.nodes = [] := by
    rw [decide_eq_true_iff, linked.numbOfNodes, List.length_eq_zero_iff]
  rw [HeadResult.storeBuffer, isBuffer, Option.bind_eq_bind, Option.bind_some, whole,
    linked.link first, Option.bind_eq_bind, Option.bind_some, List.length_append,
    HeadResult.appendNode, isBuffer]
  rfl

theorem Filling.pushResultVer2 {head : HeadResult} (filling : head.Filling)
    (t : RowTuple) : ∃ after, RadixJoin.pushResultVer2 head t = some after ∧
      after.Filling ∧ after.rows = head.rows ++ [t] := by
  rcases filling.buffered with ⟨buffer, isBuffer, length⟩
  have whole : buffer.take head.buffSize = buffer := by
    rw [← length, List.take_length]
  by_cases full : head.buffSize = maxTuples
  · have nonempty : buffer ≠ [] := by
      rintro rfl
      rw [full] at length
      cases length
    refine ⟨{ head.appendNode buffer with
      buffTuple := some [t], buffSize := 1, totalSize := head.totalSize + 1 }, ?_, ?_⟩
    · rw [RadixJoin.pushResultVer2, if_neg (by simpa using full),
        filling.toLinked.storeBuffer isBuffer length]
      rfl
    · have rows : ({ head.appendNode buffer with
          buffTuple := some [t], buffSize := 1, totalSize := head.totalSize + 1 } :
          HeadResult).rows = head.rows ++ [t] := by
        simp [HeadResult.rows, HeadResult.appendNode, isBuffer]
      have linked := filling.toLinked.appendNode nonempty
      refine ⟨⟨⟨linked.numbOfNodes, linked.tail, linked.nonempty⟩, ⟨[t], rfl, rfl⟩,
        Nat.le_of_ble_eq_true rfl, ?_⟩, rows⟩
      rw [rows, List.length_append, ← filling.totalSize]
      rfl
  · refine ⟨{ head with
      buffTuple := some (buffer ++ [t]), buffSize := head.buffSize + 1,
      totalSize := head.totalSize + 1 }, ?_, ?_⟩
    · rw [RadixJoin.pushResultVer2, if_pos full, isBuffer, Option.bind_eq_bind,
        Option.bind_some, whole]
    · have rows : ({ head with
          buffTuple := some (buffer ++ [t]), buffSize := head.buffSize + 1,
          totalSize := head.totalSize + 1 } : HeadResult).rows = head.rows ++ [t] := by
        simp [HeadResult.rows, isBuffer]
      have fits := filling.fits
      refine ⟨⟨⟨filling.numbOfNodes, filling.tail, filling.nonempty⟩,
        ⟨buffer ++ [t], rfl, by simp [length]⟩, ?_, ?_⟩, rows⟩
      · change head.buffSize + 1 ≤ maxTuples
        omega
      · rw [rows, List.length_append, ← filling.totalSize]
        rfl

theorem Filling.pushAll {head : HeadResult} (filling : head.Filling)
    (results : List RowTuple) :
    ∃ after, results.foldlM RadixJoin.pushResultVer2 head = some after ∧
      after.Filling ∧ after.rows = head.rows ++ results := by
  have pushed := foldlM_appends rows (fun t => [t]) Filling
    (fun t (_ : t ∈ results) _ filling => filling.pushResultVer2 t) filling
  rw [List.flatMap_singleton'] at pushed
  exact pushed

theorem Filling.cleanListHead {head : HeadResult} (filling : head.Filling) :
    ∃ after, RadixJoin.cleanListHead head = some after ∧ after.Finished ∧
      after.nodes.flatten = head.rows := by
  rcases filling.buffered with ⟨buffer, isBuffer, length⟩
  by_cases empty : head.buffSize = 0
  · have noRows : buffer = [] := List.length_eq_zero_iff.mp (length.trans empty)
    have rows : head.nodes.flatten = head.rows := by
      simp [HeadResult.rows, isBuffer, noRows]
    refine ⟨head.releaseBuffer, ?_, ⟨⟨filling.numbOfNodes, filling.tail,
      filling.nonempty⟩, ?_, ?_⟩, rows⟩
    · rw [RadixJoin.cleanListHead, if_neg (by simpa using empty)]
      rfl
    · rw [releaseBuffer, isBuffer, noRows]
      split <;> rfl
    · exact filling.totalSize.trans (congrArg List.length rows.symm)
  · have nonempty : buffer ≠ [] := by
      rintro rfl
      exact empty length.symm
    have linked := filling.toLinked.appendNode nonempty
    have rows : (head.appendNode buffer).nodes.flatten = head.rows := by
      simp [HeadResult.rows, HeadResult.appendNode, isBuffer]
    refine ⟨(head.appendNode buffer).releaseBuffer, ?_, ⟨⟨linked.numbOfNodes,
      linked.tail, linked.nonempty⟩, ?_, ?_⟩, rows⟩
    · rw [RadixJoin.cleanListHead, if_pos empty,
        filling.toLinked.storeBuffer isBuffer length]
      rfl
    · rw [releaseBuffer, if_pos (.inl empty)]
      rfl
    · exact filling.totalSize.trans (congrArg List.length rows.symm)

theorem Finished.nodes_eq_nil {head : HeadResult} (finished : head.Finished) :
    head.totalSize = 0 ↔ head.nodes = [] := by
  rw [finished.totalSize, List.length_eq_zero_iff, List.flatten_eq_nil_iff]
  constructor
  · intro allEmpty
    apply List.eq_nil_iff_forall_not_mem.mpr
    intro node member
    exact finished.nonempty node member (allEmpty node member)
  · intro empty
    simp [empty]

/-- Connecting two complete lists appends their results and keeps every counter
exact. -/
theorem Finished.connectResultList {finalResult joinedList : HeadResult}
    (finished : finalResult.Finished) (joined : joinedList.Finished) :
    ∃ after, RadixJoin.connectResultList finalResult joinedList = some after ∧
      after.Finished ∧
      after.nodes.flatten = finalResult.nodes.flatten ++ joinedList.nodes.flatten := by
  by_cases nothing : joinedList.totalSize = 0
  · refine ⟨finalResult, ?_, finished, ?_⟩
    · rw [RadixJoin.connectResultList, if_neg (by simpa using nothing)]
    · rw [joined.nodes_eq_nil.mp nothing, List.flatten_nil, List.append_nil]
  · have joinedNodes : joinedList.nodes ≠ [] := fun empty =>
      nothing (joined.nodes_eq_nil.mpr empty)
    have joinedPositive := List.length_pos_iff.mpr joinedNodes
    have first : decide (finalResult.totalSize = 0) = true ↔ finalResult.nodes = [] := by
      rw [decide_eq_true_iff, finished.nodes_eq_nil]
    have connected : RadixJoin.connectResultList finalResult joinedList = some
        { finalResult with
          nodes := finalResult.nodes ++ joinedList.nodes
          tail := some (finalResult.nodes.length + joinedList.nodes.length - 1)
          totalSize := finalResult.totalSize + joinedList.totalSize
          numbOfNodes := finalResult.numbOfNodes + joinedList.numbOfNodes } := by
      have tail : finalResult.nodes.length + (joinedList.nodes.length - 1) =
          finalResult.nodes.length + joinedList.nodes.length - 1 := by omega
      rw [RadixJoin.connectResultList, if_pos nothing, finished.toLinked.link first,
        Option.bind_eq_bind, Option.bind_some, joined.tail, if_neg joinedNodes,
        List.length_append, Nat.add_sub_cancel, Option.map_some, tail]
    refine ⟨_, connected, ⟨⟨?_, ?_, ?_⟩, finished.noBuffer, ?_⟩, ?_⟩
    · simp [finished.numbOfNodes, joined.numbOfNodes]
    · simp [joinedNodes]
    · intro node member
      rcases List.mem_append.mp member with member | member
      · exact finished.nonempty node member
      · exact joined.nonempty node member
    · simp [finished.totalSize, joined.totalSize]
    · rw [List.flatten_append]

end HeadResult

end JoinOperator.RadixJoin
