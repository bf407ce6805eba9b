import JoinOperator.Planner.PredicateOrder
import JoinOperator.Planner.TotalPlanner

/-! # Queries whose relations form a tree

Whatever the estimates are, the sequence of such a query has all predicates between different
relations. All slots of `priorities` are taken then, and no predicate is left for the loops that
look for a related one.
-/

namespace JoinOperator.Planner

open Foundation RadixJoin

def planQuery (estimator : Estimator) (relArr : List Relationsheep) (newQuery : Query) :
    Option (List Nat) := do
  let joinGraph ← constructGraph (initialiseGraph newQuery.numOfRels) newQuery
  let hashTree ← initialiseHashTree (2 ^ newQuery.numOfRels) newQuery relArr
  let final ← joinEnumeration estimator hashTree newQuery joinGraph
  let node ← (← final[2 ^ newQuery.numOfRels - 1]?)
  let joinSeq ← node.joinSeq
  setPriorities joinSeq newQuery

/-- Two to ten relations are connected by one predicate less, and a predicate on one relation
compares different columns. -/
structure IsTree (q : Query) : Prop where
  many : 2 ≤ q.numOfRels
  few : q.numOfRels ≤ 10
  digits : q.numOfJoins ≤ 10
  connected : ConnectedOn (queryGraph q.joins) (Finset.range q.numOfRels)
  links : (q.joins.countP fun join => join.participant1.rel ≠ join.participant2.rel) + 1 =
    q.numOfRels
  columns : ∀ join ∈ q.joins, join.participant1.rel = join.participant2.rel →
    join.participant1.numCol ≠ join.participant2.numCol

theorem length_filter_any {α : Type} (items : List α) (passes : α → Bool) :
    ((List.range items.length).filter fun i => items[i]?.any passes).length =
      items.countP passes := by
  induction items using List.reverseRecOn with
  | nil => rfl
  | append_singleton items last induction =>
      have front : (List.range items.length).filter (fun i => (items ++ [last])[i]?.any passes) =
          (List.range items.length).filter fun i => items[i]?.any passes := by
        apply List.filter_congr
        intro i member
        rw [List.getElem?_append_left (List.mem_range.mp member)]
      have atLast : (items ++ [last])[items.length]? = some last := by
        rw [List.getElem?_append_right (Nat.le_refl _), Nat.sub_self]
        rfl
      rw [List.length_append, List.length_singleton, List.range_succ, List.filter_append,
        List.length_append, front, induction, List.countP_append]
      congr 1
      simp only [List.filter_cons, List.filter_nil, atLast, Option.any_some, List.countP_cons,
        List.countP_nil]
      split <;> rfl

theorem length_sameRelationIds {q : Query} (tree : IsTree q) :
    (sameRelationIds q.joins q.numOfJoins).length + (q.joins.countP fun join =>
      join.participant1.rel ≠ join.participant2.rel) = q.numOfJoins := by
  have counted : (sameRelationIds q.joins q.numOfJoins).length =
      q.joins.countP fun join => SameRelation join :=
    length_filter_any q.joins fun join => SameRelation join
  have different : (q.joins.countP fun join => join.participant1.rel ≠ join.participant2.rel) =
      q.joins.countP fun join => ¬ SameRelation join := by
    apply List.countP_congr
    intro join member
    rw [decide_eq_true_eq, decide_eq_true_eq, SameRelation]
    constructor
    · intro differs same
      exact differs same.1
    · intro notSame same
      exact notSame ⟨same, tree.columns join member same⟩
  rw [counted, different, Query.numOfJoins,
    @List.length_eq_countP_add_countP _ (fun join => decide (SameRelation join)) q.joins]
  congr 1
  apply List.countP_congr
  intro join _
  simp

theorem planQuery_tree (estimator : Estimator) {relArr : List Relationsheep} {q : Query}
    (wellFormed : q.WellFormed relArr) (words : HasWords q.queryStats)
    (free : q.priorities = List.replicate q.numOfJoins noPriority) (tree : IsTree q) :
    ∃ filtered order ids, executeFilterPredicates estimator q = some filtered ∧
      filtered.joins = q.joins ∧
      planQuery estimator relArr filtered =
        some (sameRelationIds q.joins q.numOfJoins ++ ids) ∧
      LeftDeep q.joins order ids ∧ ids ≠ [] ∧ (∀ r, r ∈ order ↔ r < q.numOfRels) ∧
      (sameRelationIds q.joins q.numOfJoins ++ ids).Perm (List.range q.numOfJoins) := by
  have slots : q.priorities.length = q.numOfJoins := by
    rw [free, List.length_replicate]
  rcases executeFilterPredicates_total estimator wellFormed words slots with
    ⟨filtered, isFiltered⟩
  rcases executeFilterPredicates_spec wellFormed free isFiltered with
    ⟨filteredWellFormed, rels, joins, priorities⟩
  have numOfRels : filtered.numOfRels = q.numOfRels := by
    rw [Query.numOfRels, rels, Query.numOfRels]
  have numOfJoins : filtered.numOfJoins = q.numOfJoins := by
    rw [Query.numOfJoins, joins, Query.numOfJoins]
  rcases exists_fullPlan estimator filteredWellFormed (numOfRels ▸ tree.many)
    (numOfRels ▸ tree.few) (joins.symm ▸ numOfRels.symm ▸ tree.connected) with
    ⟨joinGraph, hashTree, final, node, order, ids, isGraph, isTree, ran, isNode, isSequence,
      leftDeep, isOrder, length⟩
  rw [joins] at leftDeep
  rw [numOfRels] at isOrder length isGraph isTree isNode
  have someId : ids ≠ [] := by
    apply List.ne_nil_of_length_pos
    have many := tree.many
    omega
  have all := length_sameRelationIds tree
  have links := tree.links
  have full : (sameRelationIds q.joins q.numOfJoins ++ ids).length = q.numOfJoins := by
    rw [List.length_append]
    omega
  have nodup : (sameRelationIds q.joins q.numOfJoins ++ ids).Nodup := leftDeep.first_nodup
  have valid : ∀ id ∈ sameRelationIds q.joins q.numOfJoins ++ ids, id < q.numOfJoins :=
    leftDeep.first_lt
  have chars : (combOf ids).map charToInteger = ids := by
    apply map_charToInteger
    intro id member
    exact Nat.lt_of_lt_of_le (valid id (List.mem_append_right _ member)) tree.digits
  refine ⟨filtered, order, ids, isFiltered, joins, ?_, leftDeep, someId, isOrder, ?_⟩
  · have isSet : setPriorities (combOf ids) filtered =
        some (sameRelationIds q.joins q.numOfJoins ++ ids) := by
      have settled := @setPriorities_eq filtered (sameRelationIds q.joins q.numOfJoins)
        (combOf ids) (numOfJoins ▸ Nat.le_trans tree.digits (by decide))
        (by rw [priorities, numOfJoins])
        (fun id member => numOfJoins ▸ valid id (List.mem_append_left _ member))
        (charToInteger_lt fun id member => numOfJoins ▸ valid id (List.mem_append_right _ member))
        (combOf_ne_nil someId) (by rw [chars, full, numOfJoins])
      rw [settled.2, chars, full, numOfJoins, if_neg (Nat.lt_irrefl _)]
    simp only [planQuery, isGraph, isTree, ran, numOfRels, isNode, isSequence, isSet,
      Option.bind_eq_bind, Option.bind_some]
  · have subperm := List.subperm_of_subset nodup fun id member =>
      List.mem_range.mpr (valid id member)
    exact subperm.perm_of_length_le (by rw [List.length_range, full])

end JoinOperator.Planner
