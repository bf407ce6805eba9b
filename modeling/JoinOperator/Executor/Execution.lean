import JoinOperator.Executor.Conditions

/-! # What the intermediates are

The invariant of the execution: the intermediates are the parts of a query
whose conditions are the filters and the join predicates executed so far.
-/

namespace JoinOperator.Executor

open Foundation RadixJoin

def Inter.satisfying (data : Inter) (c : Condition Nat) : List Nat :=
  (List.range data.numbOfRows).filter fun i => c.holds (valueAt data.joinedRels (data.row i))

/-- The intermediate of a participant, or all rows of its relation. -/
def sourceOf (head : HeadInter) (r : ColRel) : Inter :=
  ((findNode head r.rel).bind (head.nodes[·]?)).getD (Inter.base r.rel r.rows)

/-- The invariant of the execution. -/
structure Executed (relArr : List Relationsheep) (rels : List Nat) (touched : Set Nat)
    (conditions : List (Condition Nat)) (head : HeadInter) : Prop where
  counted : head.numOfIntermediates = head.nodes.length
  rectangular : ∀ data ∈ head.nodes, data.Rectangular
  evaluates : Evaluates (rowsOf relArr rels) touched conditions (head.nodes.map Inter.part)

theorem executed_initialiseHead (relArr : List Relationsheep) (rels : List Nat) :
    Executed relArr rels ∅ [] initialiseHead where
  counted := rfl
  rectangular := by simp [initialiseHead]
  evaluates := .start

theorem findNode_some {head : HeadInter} {rel node : Nat} (found : findNode head rel = some node) :
    ∃ data, head.nodes[node]? = some data ∧ rel ∈ data.joinedRels := by
  rcases List.findIdx?_eq_some_iff_getElem.mp found with ⟨inside, member, _⟩
  exact ⟨head.nodes[node], List.getElem?_eq_getElem inside, of_decide_eq_true member⟩

theorem sourceOf_some {head : HeadInter} {r : ColRel} {node : Nat} {data : Inter}
    (found : findNode head r.rel = some node) (get : head.nodes[node]? = some data) :
    sourceOf head r = data := by
  rw [sourceOf, found, Option.bind_some, get]
  rfl

theorem sourceOf_none {head : HeadInter} {r : ColRel} (absent : findNode head r.rel = none) :
    sourceOf head r = Inter.base r.rel r.rows := by
  rw [sourceOf, absent]
  rfl

theorem Inter.map_row_satisfying (data : Inter) (c : Condition Nat) :
    (data.satisfying c).map data.row =
      data.tuples.filter fun tuple => c.holds (valueAt data.joinedRels tuple) := by
  rw [satisfying, tuples, List.filter_map]
  rfl

namespace Executed

variable {relArr : List Relationsheep} {rels : List Nat} {touched : Set Nat}
  {conditions : List (Condition Nat)} {head : HeadInter}

theorem findNode_none (executed : Executed relArr rels touched conditions head) {rel : Nat}
    (absent : findNode head rel = none) : rel ∉ touched := by
  intro isTouched
  rcases List.mem_flatMap.mp ((executed.evaluates.covers rel).mpr isTouched) with
    ⟨part, isPart, member⟩
  rcases List.mem_map.mp isPart with ⟨data, isNode, rfl⟩
  have notThere := List.findIdx?_eq_none_iff.mp absent data isNode
  exact of_decide_eq_false notThere member

theorem mem_touched (executed : Executed relArr rels touched conditions head) {data : Inter}
    (isNode : data ∈ head.nodes) {rel : Nat} (member : rel ∈ data.joinedRels) : rel ∈ touched :=
  (executed.evaluates.covers rel).mp
    (List.mem_flatMap.mpr ⟨data.part, List.mem_map_of_mem isNode, member⟩)

theorem rowId_lt (executed : Executed relArr rels touched conditions head) {data : Inter}
    (isNode : data ∈ head.nodes) {rel : Nat} (member : rel ∈ data.joinedRels) {i : Nat}
    (inside : i < data.numbOfRows) :
    valueAt data.joinedRels (data.row i) rel < rowsOf relArr rels rel := by
  have complete := executed.evaluates.complete data.part (List.mem_map_of_mem isNode)
  have isTuple : data.row i ∈ data.part.tuples :=
    List.mem_map_of_mem (List.mem_range.mpr inside)
  exact ((complete.exact _).mp isTuple).bounded rel member

theorem read (executed : Executed relArr rels touched conditions head) {data : Inter}
    (isNode : data ∈ head.nodes) {r : ColRel} (isParticipant : IsParticipant relArr rels r)
    {column : InterColumn} (found : data.columnOf r.rel = some column) {i : Nat}
    (inside : i < data.numbOfRows) : ∃ rowId, column.rowIds[i]? = some rowId ∧
      r.col[rowId]? = some (valueOf r (valueAt data.joinedRels (data.row i))) := by
  rcases Inter.columnOf_spec found with ⟨isColumn, _⟩
  have below : i < column.rowIds.length :=
    executed.rectangular data isNode column isColumn ▸ inside
  have isValue : column.rowIds[i] = valueAt data.joinedRels (data.row i) r.rel := by
    rw [← Inter.columnOf_getD found, List.getD_eq_getElem _ _ below]
  have bound := executed.rowId_lt isNode (Inter.mem_joinedRels_iff.mpr ⟨column, found⟩) inside
  exact ⟨_, List.getElem?_eq_getElem below, isValue ▸ isParticipant.get bound⟩

theorem updateSelected (executed : Executed relArr rels touched conditions head) {node : Nat}
    {data : Inter} (get : head.nodes[node]? = some data) {c : Condition Nat}
    (inside : c.attrs ⊆ data.joinedRels) :
    ∃ after, updateInterSelfJoin head node (data.satisfying c) = some after ∧
      Executed relArr rels touched (conditions ++ [c]) after := by
  have isNode := List.mem_of_getElem? get
  rcases List.getElem?_eq_some_iff.mp get with ⟨bound, isData⟩
  let selected : Inter := ⟨(data.satisfying c).length, data.pick (data.satisfying c)⟩
  have picked : data.atRows (data.satisfying c) = some (data.pick (data.satisfying c)) := by
    apply Inter.atRows_eq (executed.rectangular data isNode)
    intro i member
    exact List.mem_range.mp (List.mem_of_mem_filter member)
  have perm : head.nodes.Perm (data :: head.nodes.eraseIdx node) := by
    have cons := (List.getElem_cons_eraseIdx_perm bound).symm
    rwa [isData] at cons
  have permAfter : (head.nodes.set node selected).Perm (selected :: head.nodes.eraseIdx node) :=
    List.set_perm_cons_eraseIdx bound selected
  refine ⟨updateInter head node selected, ?_, ?_, ?_, ?_⟩
  · simp only [updateInterSelfJoin, get, picked, Option.bind_eq_bind, Option.bind_some]
    rfl
  · rw [updateInter, List.length_set]
    exact executed.counted
  · intro other member
    rcases List.mem_cons.mp (permAfter.mem_iff.mp member) with rfl | member
    · exact data.pick_rectangular _
    · exact executed.rectangular other (List.mem_of_mem_eraseIdx member)
  · have parts := (executed.evaluates.of_perm (perm.map Inter.part)).select (c := c) inside
      (List.Perm.of_eq (data.map_row_satisfying c))
    refine Evaluates.of_perm ?_ (permAfter.map Inter.part).symm
    rw [List.map_cons]
    convert parts using 2
    rw [Inter.part, Inter.tuples_pick]
    exact congrArg (PartialResult.mk · _) (data.pick_rels _)

theorem createSelected (executed : Executed relArr rels touched conditions head) {r : ColRel}
    (isParticipant : IsParticipant relArr rels r) (absent : findNode head r.rel = none)
    {c : Condition Nat} (inside : c.attrs ⊆ [r.rel]) :
    ∃ after,
      createInterSelfJoin head r.rel ((Inter.base r.rel r.rows).satisfying c) = some after ∧
      Executed relArr rels (insert r.rel touched) (conditions ++ [c]) after := by
  let base := Inter.base r.rel r.rows
  let selected : Inter := ⟨(base.satisfying c).length, base.pick (base.satisfying c)⟩
  have columns : base.pick (base.satisfying c) = [⟨r.rel, base.satisfying c⟩] := by
    apply Inter.base_pick
    intro i member
    exact List.mem_range.mp (List.mem_of_mem_filter member)
  refine ⟨⟨head.numOfIntermediates + 1, head.nodes ++ [selected]⟩, ?_, ?_, ?_, ?_⟩
  · rw [createInterSelfJoin, pushInter, if_pos (Nat.le_of_eq executed.counted),
      executed.counted, List.take_length]
    simp only [selected, columns]
    rfl
  · rw [List.length_append, executed.counted]
    rfl
  · intro other member
    rcases List.mem_append.mp member with member | isNew
    · exact executed.rectangular other member
    · cases List.mem_singleton.mp isNew
      exact base.pick_rectangular _
  · have touchedBase := executed.evaluates.touch (executed.findNode_none absent)
    rw [isParticipant.rows, ← Inter.base_part] at touchedBase
    have parts := touchedBase.select (c := c) inside
      (List.Perm.of_eq (base.map_row_satisfying c))
    refine Evaluates.of_perm ?_ ((List.perm_append_singleton _ _).map Inter.part).symm
    rw [List.map_cons]
    convert parts using 2
    rw [Inter.part, Inter.tuples_pick]
    exact congrArg (PartialResult.mk · _) (base.pick_rels _)

end Executed

end JoinOperator.Executor
