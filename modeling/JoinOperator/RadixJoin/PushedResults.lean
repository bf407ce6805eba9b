import JoinOperator.Foundation.PackedBlocks
import JoinOperator.RadixJoin.ResultList
import Mathlib.Data.List.Basic

/-! # Pushing into nodes and pushing into the buffer

`pushResult` writes every result into the last node. `pushResultVer2` writes it
into the buffer of the head, which becomes a node when the next result comes or
when the list is cleaned. Both leave the results packed into the same nodes.
-/

namespace JoinOperator.RadixJoin

open Foundation

/-- The `MB` bytes of a new node, none of them in use. -/
def initialiseResultNode : List RowTuple := []

namespace HeadResult

/-- Goes to the last node, and to a new one behind it when there is none or it
is full. -/
def reachFinalNode (head : HeadResult) : Option HeadResult :=
  if head.numbOfNodes = 0 then
    some { head with
      nodes := [initialiseResultNode]
      tail := some 0
      numbOfNodes := head.numbOfNodes + 1 }
  else do
    let finalNode ← head.nodes[head.numbOfNodes - 1]?
    if finalNode.length = maxTuples then
      some { head with
        nodes := head.nodes.take head.numbOfNodes ++ [initialiseResultNode]
        tail := some head.numbOfNodes
        numbOfNodes := head.numbOfNodes + 1 }
    else some head

/-- Writes a result behind those of the last node, inside its `MB` bytes. -/
def writeFinalNode (head : HeadResult) (t : RowTuple) : Option HeadResult := do
  let finalNode ← head.nodes[head.numbOfNodes - 1]?
  if finalNode.length < maxTuples then
    some { head with
      nodes := head.nodes.set (head.numbOfNodes - 1) (finalNode ++ [t])
      totalSize := head.totalSize + 1 }
  else none

end HeadResult

def pushResult (head : HeadResult) (t : RowTuple) : Option HeadResult := do
  let reached ← head.reachFinalNode
  reached.writeFinalNode t

namespace HeadResult

structure InNodes (head : HeadResult) : Prop extends head.Linked where
  packed : Packed maxTuples head.nodes
  totalSize : head.totalSize = head.nodes.flatten.length

theorem inNodes_initialise : initialiseResultHead.InNodes where
  toLinked := filling_initialise.toLinked
  packed := Packed.nil
  totalSize := rfl

structure Room (head : HeadResult) (front : List (List RowTuple))
    (finalNode : List RowTuple) : Prop where
  nodes : head.nodes = front ++ [finalNode]
  numbOfNodes : head.numbOfNodes = front.length + 1
  tail : head.tail = some front.length
  full : ∀ node ∈ front, node.length = maxTuples
  room : finalNode.length < maxTuples
  totalSize : head.totalSize = head.nodes.flatten.length

theorem flatten_newNode (head : HeadResult) :
    (head.appendNode initialiseResultNode).nodes.flatten = head.nodes.flatten := by
  change (head.nodes ++ [initialiseResultNode]).flatten = head.nodes.flatten
  rw [List.flatten_append, List.flatten_singleton]
  exact List.append_nil head.nodes.flatten

theorem InNodes.newNode {head : HeadResult} (inNodes : head.InNodes)
    (full : ∀ node ∈ head.nodes, node.length = maxTuples) :
    (head.appendNode initialiseResultNode).Room head.nodes initialiseResultNode where
  nodes := rfl
  numbOfNodes := congrArg (· + 1) inNodes.numbOfNodes
  tail := rfl
  full := full
  room := Nat.lt_of_sub_pos (Nat.le_of_ble_eq_true rfl)
  totalSize := inNodes.totalSize.trans (congrArg List.length (flatten_newNode head).symm)

theorem InNodes.reachFinalNode {head : HeadResult} (inNodes : head.InNodes) :
    ∃ reached front finalNode, head.reachFinalNode = some reached ∧
      reached.Room front finalNode ∧ reached.nodes.flatten = head.nodes.flatten := by
  have count := inNodes.numbOfNodes
  rcases List.eq_nil_or_concat head.nodes with empty | ⟨front, last, nodes⟩
  · have noNodes : head.numbOfNodes = 0 := by
      rw [count, empty]
      rfl
    refine ⟨_, _, _, ?_, inNodes.newNode ?_, flatten_newNode head⟩
    · rw [HeadResult.reachFinalNode, if_pos noNodes, appendNode, empty]
      rfl
    · intro node member
      rw [empty] at member
      cases member
  · rw [List.concat_eq_append] at nodes
    have length : head.numbOfNodes = front.length + 1 := by
      rw [count, nodes, List.length_append, List.length_singleton]
    have someNode : ¬ head.numbOfNodes = 0 := by
      omega
    have final : head.nodes[head.numbOfNodes - 1]? = some last := by
      rw [length, nodes, Nat.add_sub_cancel, List.getElem?_concat_length]
    have frontFull : ∀ node ∈ front, node.length = maxTuples := by
      have full := inNodes.packed.full
      rw [nodes, List.dropLast_concat] at full
      exact full
    have lastMember : last ∈ head.nodes := by
      rw [nodes]
      exact List.mem_append_right front List.mem_cons_self
    by_cases lastFull : last.length = maxTuples
    · refine ⟨_, _, _, ?_, inNodes.newNode ?_, flatten_newNode head⟩
      · rw [HeadResult.reachFinalNode, if_neg someNode, final, Option.bind_eq_bind,
          Option.bind_some, if_pos lastFull, appendNode, count, List.take_length]
      · intro node member
        rw [nodes] at member
        rcases List.mem_append.mp member with member | member
        · exact frontFull node member
        · rw [List.mem_singleton.mp member]
          exact lastFull
    · have fits := inNodes.packed.fits last lastMember
      refine ⟨head, front, last, ?_, ⟨nodes, length, ?_, frontFull,
        Nat.lt_of_le_of_ne fits lastFull, inNodes.totalSize⟩, rfl⟩
      · rw [HeadResult.reachFinalNode, if_neg someNode, final, Option.bind_eq_bind,
          Option.bind_some, if_neg lastFull]
      · rw [inNodes.tail, if_neg (List.ne_nil_of_mem lastMember), nodes,
          List.length_append, List.length_singleton, Nat.add_sub_cancel]

theorem Room.writeFinalNode {head : HeadResult} {front : List (List RowTuple)}
    {finalNode : List RowTuple} (room : head.Room front finalNode) (t : RowTuple) :
    ∃ after, head.writeFinalNode t = some after ∧ after.InNodes ∧
      after.nodes.flatten = head.nodes.flatten ++ [t] := by
  have final : head.nodes[head.numbOfNodes - 1]? = some finalNode := by
    rw [room.numbOfNodes, room.nodes, Nat.add_sub_cancel, List.getElem?_concat_length]
  have written : head.nodes.set (head.numbOfNodes - 1) (finalNode ++ [t]) =
      front ++ [finalNode ++ [t]] := by
    rw [room.numbOfNodes, room.nodes, Nat.add_sub_cancel,
      List.set_append_right front.length _ (Nat.le_refl _), Nat.sub_self, List.set_cons_zero]
  have flatten : (front ++ [finalNode ++ [t]]).flatten = head.nodes.flatten ++ [t] := by
    rw [room.nodes, List.flatten_append, List.flatten_append, List.flatten_singleton,
      List.flatten_singleton, List.append_assoc]
  have packed : Packed maxTuples (front ++ [finalNode ++ [t]]) := by
    apply Packed.concat room.full (Nat.lt_of_le_of_lt (Nat.zero_le _) room.room)
    · exact List.append_ne_nil_of_right_ne_nil finalNode (List.cons_ne_nil t [])
    · rw [List.length_append, List.length_singleton]
      exact room.room
  refine ⟨{ head with
    nodes := front ++ [finalNode ++ [t]], totalSize := head.totalSize + 1 }, ?_,
    ⟨⟨?_, ?_, packed.nonempty⟩, packed, ?_⟩, flatten⟩
  · rw [HeadResult.writeFinalNode, final, Option.bind_eq_bind, Option.bind_some,
      if_pos room.room, written]
  · change head.numbOfNodes = (front ++ [finalNode ++ [t]]).length
    rw [room.numbOfNodes, List.length_append, List.length_singleton]
  · change head.tail = _
    rw [room.tail, if_neg (List.append_ne_nil_of_right_ne_nil front (List.cons_ne_nil _ [])),
      List.length_append, List.length_singleton, Nat.add_sub_cancel]
  · change head.totalSize + 1 = (front ++ [finalNode ++ [t]]).flatten.length
    rw [flatten, List.length_append, room.totalSize, List.length_singleton]

theorem InNodes.pushResult {head : HeadResult} (inNodes : head.InNodes) (t : RowTuple) :
    ∃ after, RadixJoin.pushResult head t = some after ∧ after.InNodes ∧
      after.nodes.flatten = head.nodes.flatten ++ [t] := by
  rcases inNodes.reachFinalNode with ⟨reached, front, finalNode, reaches, room, same⟩
  rcases room.writeFinalNode t with ⟨after, writes, afterInNodes, appended⟩
  refine ⟨after, ?_, afterInNodes, ?_⟩
  · rw [RadixJoin.pushResult, reaches, Option.bind_eq_bind, Option.bind_some]
    exact writes
  · rw [appended, same]

theorem InNodes.pushAll {head : HeadResult} (inNodes : head.InNodes)
    (results : List RowTuple) :
    ∃ after, results.foldlM RadixJoin.pushResult head = some after ∧ after.InNodes ∧
      after.nodes.flatten = head.nodes.flatten ++ results := by
  have pushed := foldlM_appends (fun head => head.nodes.flatten) (fun t => [t]) InNodes
    (fun t (_ : t ∈ results) _ inNodes => inNodes.pushResult t) inNodes
  rw [List.flatMap_singleton'] at pushed
  exact pushed

/-- A list that is filled through its buffer: only full buffers became nodes. -/
structure Buffering (head : HeadResult) : Prop extends head.Filling where
  full : ∀ node ∈ head.nodes, node.length = maxTuples

theorem buffering_initialise : initialiseResultHead.Buffering where
  toFilling := filling_initialise
  full := by
    intro node member
    cases member

theorem Buffering.pushResultVer2 {head : HeadResult} (buffering : head.Buffering)
    (t : RowTuple) : ∃ after, RadixJoin.pushResultVer2 head t = some after ∧
      after.Buffering ∧ after.rows = head.rows ++ [t] := by
  rcases buffering.toFilling.pushResultVer2 t with ⟨after, pushed, filling, rows⟩
  refine ⟨after, pushed, ⟨filling, ?_⟩, rows⟩
  rcases buffering.buffered with ⟨buffer, isBuffer, length⟩
  by_cases bufferFull : head.buffSize = maxTuples
  · rw [RadixJoin.pushResultVer2, if_neg (not_not.mpr bufferFull),
      buffering.toLinked.storeBuffer isBuffer length, Option.bind_eq_bind,
      Option.bind_some] at pushed
    cases pushed
    intro node member
    rcases List.mem_append.mp member with member | member
    · exact buffering.full node member
    · rw [List.mem_singleton.mp member, length]
      exact bufferFull
  · rw [RadixJoin.pushResultVer2, if_pos bufferFull, isBuffer, Option.bind_eq_bind,
      Option.bind_some] at pushed
    cases pushed
    exact buffering.full

theorem Buffering.pushAll {head : HeadResult} (buffering : head.Buffering)
    (results : List RowTuple) :
    ∃ after, results.foldlM RadixJoin.pushResultVer2 head = some after ∧
      after.Buffering ∧ after.rows = head.rows ++ results := by
  have pushed := foldlM_appends rows (fun t => [t]) Buffering
    (fun t (_ : t ∈ results) _ buffering => buffering.pushResultVer2 t) buffering
  rw [List.flatMap_singleton'] at pushed
  exact pushed

/-- The last buffer becomes a node when it holds results, and the list is then
one whose nodes hold everything. -/
theorem Buffering.cleanListHead {head : HeadResult} (buffering : head.Buffering) :
    ∃ after, RadixJoin.cleanListHead head = some after ∧ after.InNodes ∧
      after.nodes.flatten = head.rows := by
  rcases buffering.toFilling.cleanListHead with ⟨after, cleaned, finished, rows⟩
  refine ⟨after, cleaned, ⟨finished.toLinked, ?_, finished.totalSize⟩, rows⟩
  have positive : 0 < maxTuples := Nat.lt_of_sub_pos (Nat.le_of_ble_eq_true rfl)
  rcases buffering.buffered with ⟨buffer, isBuffer, length⟩
  by_cases noneBuffered : head.buffSize = 0
  · rw [RadixJoin.cleanListHead, if_neg (not_not.mpr noneBuffered), Option.bind_eq_bind,
      Option.bind_some] at cleaned
    cases cleaned
    exact Packed.of_full positive buffering.full
  · have nonempty : buffer ≠ [] := by
      intro empty
      rw [empty] at length
      exact noneBuffered length.symm
    have fits : buffer.length ≤ maxTuples := by
      rw [length]
      exact buffering.fits
    rw [RadixJoin.cleanListHead, if_pos noneBuffered,
      buffering.toLinked.storeBuffer isBuffer length, Option.bind_eq_bind,
      Option.bind_some] at cleaned
    cases cleaned
    exact Packed.concat buffering.full positive nonempty fits

theorem InNodes.same {head other : HeadResult} (inNodes : head.InNodes)
    (otherInNodes : other.InNodes) (rows : head.nodes.flatten = other.nodes.flatten) :
    head.nodes = other.nodes ∧ head.tail = other.tail ∧
      head.numbOfNodes = other.numbOfNodes ∧ head.totalSize = other.totalSize := by
  have nodes := inNodes.packed.eq_of_flatten_eq otherInNodes.packed rows
  refine ⟨nodes, ?_, ?_, ?_⟩
  · rw [inNodes.tail, otherInNodes.tail, nodes]
  · rw [inNodes.numbOfNodes, otherInNodes.numbOfNodes, nodes]
  · rw [inNodes.totalSize, otherInNodes.totalSize, nodes]

end HeadResult

/-- Pushing through the buffer and cleaning the head gives the nodes that
pushing into the nodes gives, whatever the results are: the counters and the
tail are the same, all nodes but the last hold `maxTuples` results and the last
holds some, and together they are the pushed results in their order. -/
theorem pushResultVer2_eq_pushResult (results : List RowTuple) :
    ∃ plain buffered cleaned,
      results.foldlM pushResult initialiseResultHead = some plain ∧
      results.foldlM pushResultVer2 initialiseResultHead = some buffered ∧
      cleanListHead buffered = some cleaned ∧
      cleaned.nodes = plain.nodes ∧
      cleaned.numbOfNodes = plain.numbOfNodes ∧
      cleaned.totalSize = plain.totalSize ∧
      cleaned.tail = plain.tail ∧
      cleaned.nodes.flatten = results ∧
      cleaned.numbOfNodes = cleaned.nodes.length ∧
      cleaned.totalSize = results.length ∧
      (∀ node ∈ cleaned.nodes.dropLast, node.length = maxTuples) ∧
      (∀ node ∈ cleaned.nodes, 1 ≤ node.length ∧ node.length ≤ maxTuples) ∧
      cleaned.tail = if results = [] then none else some (cleaned.nodes.length - 1) := by
  rcases HeadResult.inNodes_initialise.pushAll results with
    ⟨plain, pushed, plainInNodes, plainRows⟩
  rcases HeadResult.buffering_initialise.pushAll results with
    ⟨buffered, pushedVer2, buffering, bufferedRows⟩
  rcases buffering.cleanListHead with ⟨cleaned, clean, cleanedInNodes, cleanedRows⟩
  have flatten : cleaned.nodes.flatten = results := by
    rw [cleanedRows, bufferedRows]
    rfl
  have samePlain : cleaned.nodes.flatten = plain.nodes.flatten := by
    rw [flatten, plainRows]
    rfl
  have noNodes : cleaned.nodes = [] ↔ results = [] := by
    constructor
    · intro empty
      rw [← flatten, empty]
      rfl
    · intro empty
      apply List.eq_nil_iff_forall_not_mem.mpr
      intro node member
      rw [empty] at flatten
      exact cleanedInNodes.nonempty node member
        (List.flatten_eq_nil_iff.mp flatten node member)
  rcases cleanedInNodes.same plainInNodes samePlain with ⟨nodes, tail, count, size⟩
  refine ⟨plain, buffered, cleaned, pushed, pushedVer2, clean, nodes, count, size, tail,
    flatten, cleanedInNodes.numbOfNodes, ?_, cleanedInNodes.packed.full, ?_, ?_⟩
  · rw [cleanedInNodes.totalSize, flatten]
  · intro node member
    exact ⟨List.length_pos_iff.mpr (cleanedInNodes.nonempty node member),
      cleanedInNodes.packed.fits node member⟩
  · rw [cleanedInNodes.tail]
    simp only [noNodes]

end JoinOperator.RadixJoin
