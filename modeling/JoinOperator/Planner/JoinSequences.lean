import JoinOperator.Planner.PredicateOrder
import JoinOperator.Planner.Recurrence
import JoinOperator.Planner.SetStrings

/-! # What is read from a join sequence

`CreateJoinTree` appends the numbers of the predicates without separators, `SetPriorities` and
`existsInComb` read one character at a time.
-/

namespace JoinOperator.Planner

open Foundation RadixJoin

/-- The numbers that have been appended to the sequence of the plan for a set, one for each of the
plans that it was extended from. -/
inductive Appended (estimator : Estimator) (joinGraph : Graph) (numRels : Nat)
    (plans : Finset Nat → Option HTNode) : Finset Nat → HTNode → List Nat → Prop
  | single {r : Nat} {node : HTNode} (isPlan : plans {r} = some node) :
      Appended estimator joinGraph numRels plans {r} node []
  | extend {S : Finset Nat} {r : Nat} {extended : Extension} {ids : List Nat}
      (previous : Appended estimator joinGraph numRels plans S extended.previous ids)
      (inside : r < numRels) (absent : r ∉ S)
      (isExtended : extension estimator joinGraph (combOf (relationsOf numRels S)) r plans =
        some extended) (isPlan : plans (insert r S) = some extended.node) :
      Appended estimator joinGraph numRels plans (insert r S) extended.node
        (ids ++ [extended.joinId])

/-- `SetPriorities` reads the numbers from the sequence and stores them, and `existsInComb` finds
these only. -/
structure Decodes (q : Query) (sequence : List Char) (ids : List Nat) : Prop where
  stored : ∃ i priorities, q.priorities.findIdx? (· = noPriority) = some i ∧
    appendSequence q.priorities i sequence = some (priorities, i + ids.length) ∧
    (priorities.drop i).take ids.length = ids
  listed : ∀ k, existsInComb sequence k = true ↔ k ∈ ids

section Plans

variable {estimator : Estimator} {relArr : List Relationsheep} {q : Query} {joinGraph : Graph}
variable {hashTree final : HashTree} {S : Finset Nat} {node : HTNode} {ids : List Nat}

/-- The numbers that were appended are those of a plan that joins one relation after the other. -/
theorem Appended.exists_isPlan (wellFormed : q.WellFormed relArr) (few : q.numOfRels ≤ 10)
    (constructed : Constructed q.joins q.numOfRels q.numOfJoins joinGraph)
    (tree : TreeOf relArr q final)
    (appended : Appended estimator joinGraph q.numOfRels (planOf final) S node ids) :
    ∃ order, IsPlan relArr q node order ids ∧ order.toFinset = S := by
  have single {r : Nat} {node : HTNode} (isPlan : planOf final {r} = some node) :
      IsPlan relArr q node [r] [] := by
    have get := Option.join_eq_some_iff.mp isPlan
    rcases tree.single ⟨node, get⟩ with ⟨other, getOther, isSingle⟩
    rw [Nat.one_shiftLeft, ← slotOf_singleton, get] at getOther
    cases getOther
    exact isSingle
  induction appended with
  | @single r node isPlan => exact ⟨[r], single isPlan, rfl⟩
  | @extend S r extended ids previous inside absent isExtended isPlan induction =>
      rcases induction with ⟨order, isPrevious, rfl⟩
      have insideSet : ∀ s ∈ order.toFinset, s < q.numOfRels := fun s member =>
        isPrevious.inside s (List.mem_toFinset.mp member)
      have same {s : Nat} : s ∈ relationsOf q.numOfRels order.toFinset ↔ s ∈ order :=
        (mem_relationsOf insideSet).trans List.mem_toFinset
      rcases extension_eq_some isExtended with
        ⟨_, connection, columns, ht2, isFound, _, isSingle, created, isId⟩
      have absentInList : r ∉ order := mt List.mem_toFinset.mpr absent
      rcases areConnected_spec constructed inside (digits_relationsOf few insideSet)
          (fun s member => isPrevious.inside s (same.mp member)) (mt same.mp absentInList) with
        ⟨found, isFound', _, linked⟩
      rw [isFound, Option.some.injEq] at isFound'
      rcases linked connection columns isFound'.symm with ⟨covered, oriented⟩
      have length : (combOf (relationsOf q.numOfRels order.toFinset) ++ decimal r).length =
          order.length + 1 := by
        rw [List.length_append, length_combOf (digits_relationsOf few insideSet),
          decimal_eq (Nat.lt_of_lt_of_le inside few), length_relationsOf insideSet,
          List.toFinset_card_of_nodup isPrevious.leftDeep.nodup]
        rfl
      rcases createJoinTree_spec estimator wellFormed isPrevious inside (single isSingle)
          absentInList (same.mp covered) oriented length with ⟨node, created', isNode⟩
      rw [created, Option.some.injEq] at created'
      rw [created', isId]
      exact ⟨_, isNode, toFinset_append_singleton order r⟩

theorem exists_appended (few : q.numOfRels ≤ 10)
    (initial : ∀ S : Finset Nat, 2 ≤ S.card → planOf hashTree S = none)
    (ran : joinEnumeration estimator hashTree q joinGraph = some final) {S : Finset Nat}
    {node : HTNode} (nonempty : S.Nonempty) (inside : ∀ r ∈ S, r < q.numOfRels)
    (isPlan : planOf final S = some node) :
    ∃ ids, Appended estimator joinGraph q.numOfRels (planOf final) S node ids := by
  induction size : S.card generalizing S node with
  | zero => exact absurd (Finset.card_pos.mpr nonempty) (by omega)
  | succ count induction =>
      by_cases single : count = 0
      · rw [single] at size
        rcases Finset.card_eq_one.mp size with ⟨r, rfl⟩
        exact ⟨[], .single isPlan⟩
      · rcases exists_extension few initial ran (by omega) isPlan with
          ⟨r, member, extended, isExtended, rfl⟩
        have rest : (S.erase r).card = count := by
          rw [Finset.card_erase_of_mem member, size, Nat.add_sub_cancel]
        have insideRest : ∀ s ∈ S.erase r, s < q.numOfRels := fun s inRest =>
          inside s (Finset.mem_of_mem_erase inRest)
        rcases extension_eq_some isExtended with ⟨_, _, _, _, _, isPrevious, _⟩
        rw [relationsIn_combOf (digits_relationsOf few insideRest),
          toFinset_relationsOf insideRest] at isPrevious
        rcases induction (Finset.card_pos.mp (by omega)) insideRest isPrevious rest with
          ⟨ids, appended⟩
        rw [← Finset.insert_erase member] at isPlan ⊢
        exact ⟨_, appended.extend (inside r member) (Finset.notMem_erase r S) isExtended isPlan⟩

/-- Numbers below ten are read as they were appended, and no other number is read. -/
theorem decodes_iff {order : List Nat} (few : q.numOfJoins ≤ noPriority)
    (priorities : q.priorities = sameRelationIds q.joins q.numOfJoins ++
      List.replicate (q.numOfJoins - (sameRelationIds q.joins q.numOfJoins).length) noPriority)
    (leftDeep : LeftDeep q.joins order ids) (nonempty : ids ≠ []) :
    Decodes q (combOf ids) ids ↔ ∀ id ∈ ids, id < 10 := by
  constructor
  · intro decodes id member
    exact lt_of_existsInComb (digits_combOf ids) ((decodes.listed id).mpr member)
  · intro digits
    have fits : (sameRelationIds q.joins q.numOfJoins ++ ids).length ≤ q.numOfJoins :=
      length_le_of_nodup leftDeep.first_nodup leftDeep.first_lt
    have positive := List.length_pos_of_ne_nil nonempty
    rw [List.length_append] at fits
    have below : ∀ id ∈ sameRelationIds q.joins q.numOfJoins, id < noPriority := fun id member =>
      Nat.lt_of_lt_of_le (leftDeep.first_lt id (List.mem_append_left _ member)) few
    have first : q.priorities.findIdx? (· = noPriority) =
        some (sameRelationIds q.joins q.numOfJoins).length := by
      rw [priorities, findIdx_noPriority _ below, if_neg (by omega)]
    have length := length_combOf digits
    have appended := @appendSequence_eq (sameRelationIds q.joins q.numOfJoins)
      (q.numOfJoins - (sameRelationIds q.joins q.numOfJoins).length) (combOf ids) (by omega)
    rw [← priorities, map_charToInteger digits, length] at appended
    refine ⟨⟨_, _, first, appended, ?_⟩, ?_⟩
    · rw [List.append_assoc, List.drop_left, List.take_left]
    · intro k
      rw [existsInComb_combOf digits, decide_eq_true_iff]

end Plans

theorem exists_appendedPlan (estimator : Estimator) {relArr : List Relationsheep} {q : Query}
    (wellFormed : q.WellFormed relArr) (many : 2 ≤ q.numOfRels) (few : q.numOfRels ≤ 10)
    (connected : ConnectedOn (queryGraph q.joins) (Finset.range q.numOfRels)) :
    ∃ joinGraph hashTree final node order ids,
      constructGraph (initialiseGraph q.numOfRels) q = some joinGraph ∧
      initialiseHashTree (2 ^ q.numOfRels) q relArr = some hashTree ∧
      joinEnumeration estimator hashTree q joinGraph = some final ∧
      final[2 ^ q.numOfRels - 1]? = some (some node) ∧ node.joinSeq = some (combOf ids) ∧
      Appended estimator joinGraph q.numOfRels (planOf final) (Finset.range q.numOfRels) node
        ids ∧
      LeftDeep q.joins order ids ∧ ids.length + 1 = q.numOfRels := by
  rcases exists_fullPlan estimator wellFormed many few connected with
    ⟨joinGraph, hashTree, final, node, _, _, isGraph, isTree, ran, isNode, _⟩
  rcases constructGraph_eq fun join member => (wellFormed.joins join member).1.lt with
    ⟨joinGraph', isGraph', constructed⟩
  rw [isGraph, Option.some.injEq] at isGraph'
  rw [← isGraph'] at constructed
  have tree := (enumerated_spec wellFormed many few isGraph isTree ran).1
  have isPlan : planOf final (Finset.range q.numOfRels) = some node := by
    rw [planOf, slotOf_range, isNode, Option.join_some]
  rcases exists_appended few (fun S => planOf_initial wellFormed isTree) ran
    ⟨0, Finset.mem_range.mpr (by omega)⟩ (fun r => Finset.mem_range.mp) isPlan with ⟨ids, appended⟩
  rcases appended.exists_isPlan wellFormed few constructed tree with ⟨order, isAppended, relations⟩
  have length := isAppended.leftDeep.length_ids relations
  rw [Finset.card_range] at length
  have someId : ids ≠ [] := List.ne_nil_of_length_pos (by omega)
  have isSequence : node.joinSeq = some (combOf ids) := by
    rw [isAppended.joinSeq, joinSeqOf, if_neg someId]
    rfl
  exact ⟨joinGraph, hashTree, final, node, order, ids, isGraph, isTree, ran, isNode, isSequence,
    appended, isAppended.leftDeep, length⟩

/-- The plan of all relations has been built by appending numbers, and these are what is read from
its sequence exactly if all of them are below ten. -/
theorem joinSequence_iff {estimator : Estimator} {relArr : List Relationsheep} {q filtered : Query}
    (wellFormed : q.WellFormed relArr) (few : q.numOfJoins ≤ noPriority)
    (free : q.priorities = List.replicate q.numOfJoins noPriority)
    (isFiltered : executeFilterPredicates estimator q = some filtered) {joinGraph : Graph}
    {hashTree final : HashTree} {node : HTNode} {sequence : List Char}
    (isGraph : constructGraph (initialiseGraph filtered.numOfRels) filtered = some joinGraph)
    (isTree : initialiseHashTree (2 ^ filtered.numOfRels) filtered relArr = some hashTree)
    (enumerated : joinEnumeration estimator hashTree filtered joinGraph = some final)
    (isNode : final[2 ^ filtered.numOfRels - 1]? = some (some node))
    (isSequence : node.joinSeq = some sequence) :
    (∃ ids, Appended estimator joinGraph filtered.numOfRels (planOf final)
      (Finset.range filtered.numOfRels) node ids) ∧
    ∀ ids, Appended estimator joinGraph filtered.numOfRels (planOf final)
      (Finset.range filtered.numOfRels) node ids →
      (Decodes filtered sequence ids ↔ ∀ id ∈ ids, id < 10) := by
  rcases executeFilterPredicates_spec wellFormed free isFiltered with
    ⟨filteredWellFormed, rels, joins, priorities⟩
  rw [Query.numOfJoins, ← joins] at priorities few
  have many := many_of_sequence isTree enumerated isNode isSequence
  have fewRels := numOfRels_le_of_plan isTree enumerated isNode
  rcases constructGraph_eq fun join member => (filteredWellFormed.joins join member).1.lt with
    ⟨joinGraph', isGraph', constructed⟩
  rw [isGraph, Option.some.injEq] at isGraph'
  rw [← isGraph'] at constructed
  have tree := (enumerated_spec filteredWellFormed many fewRels isGraph isTree enumerated).1
  have isPlan : planOf final (Finset.range filtered.numOfRels) = some node := by
    rw [planOf, slotOf_range, isNode, Option.join_some]
  have nonempty : (Finset.range filtered.numOfRels).Nonempty := ⟨0, Finset.mem_range.mpr (by omega)⟩
  refine ⟨exists_appended fewRels (fun S => planOf_initial filteredWellFormed isTree) enumerated
    nonempty (fun r => Finset.mem_range.mp) isPlan, ?_⟩
  intro ids appended
  rcases appended.exists_isPlan filteredWellFormed fewRels constructed tree with
    ⟨order, isAppended, _⟩
  have joinSeq := isAppended.joinSeq
  rw [isSequence, joinSeqOf] at joinSeq
  split at joinSeq
  · cases joinSeq
  · rename_i someId
    cases joinSeq
    exact decodes_iff few priorities isAppended.leftDeep someId

theorem joinSequence_iff_triangleQuery : ∃ sequence first last,
    Decodes triangleQuery sequence [first, last] := by
  rcases exists_appendedPlan naturalEstimator triangleQuery_wellFormed (by decide) (by decide)
    triangleQuery_connected with
    ⟨joinGraph, hashTree, final, node, order, ids, isGraph, isTree, ran, isNode, isSequence,
      appended, leftDeep, length⟩
  have read := (joinSequence_iff triangleQuery_wellFormed (by decide) rfl rfl isGraph isTree ran
    isNode isSequence).2 ids appended
  rcases List.length_eq_two.mp (Nat.succ_injective length) with ⟨first, last, rfl⟩
  refine ⟨combOf [first, last], first, last, read.mpr fun id member => ?_⟩
  exact Nat.lt_trans (leftDeep.lt_of_mem member) (by decide)

/-- Ten predicates on the first relation come before the one that joins both. -/
def lateQuery : Query where
  rels := [0, 1]
  queryStats := [[⟨7, 7, 1, 1, [1]⟩], [⟨7, 7, 1, 1, [1]⟩]]
  filters := []
  joins := List.replicate 10 ⟨⟨0, 0, 0, 0, [7], 1⟩, ⟨0, 0, 0, 0, [7], 1⟩⟩ ++
    [⟨⟨0, 0, 0, 0, [7], 1⟩, ⟨1, 0, 1, 0, [7], 1⟩⟩]
  priorities := List.replicate 11 (2 ^ 64 - 1)

theorem lateQuery_wellFormed : lateQuery.WellFormed twoRelations where
  stats := linkQuery_wellFormed.stats
  filters := by
    intro filter member
    cases member
  joins := by decide

theorem joinSequence_lateQuery : ∃ joinGraph hashTree final node sequence,
    executeFilterPredicates naturalEstimator lateQuery = some lateQuery ∧
      constructGraph (initialiseGraph 2) lateQuery = some joinGraph ∧
      initialiseHashTree (2 ^ 2) lateQuery twoRelations = some hashTree ∧
      joinEnumeration naturalEstimator hashTree lateQuery joinGraph = some final ∧
      final[2 ^ 2 - 1]? = some (some node) ∧ node.joinSeq = some sequence ∧
      Appended naturalEstimator joinGraph 2 (planOf final) (Finset.range 2) node [10] ∧
      ¬ Decodes lateQuery sequence [10] := by
  have connected : ConnectedOn (queryGraph lateQuery.joins) (Finset.range 2) := by
    rw [show Finset.range 2 = {1, 0} by decide]
    apply ConnectedOn.insert (ConnectedOn.singleton 0) (Finset.mem_singleton_self 0)
    exact ⟨by decide, 10, _, rfl, .inl ⟨rfl, rfl⟩⟩
  rcases exists_appendedPlan naturalEstimator lateQuery_wellFormed (by decide) (by decide)
    connected with
    ⟨joinGraph, hashTree, final, node, order, ids, isGraph, isTree, ran, isNode, isSequence,
      appended, leftDeep, length⟩
  rcases List.length_eq_one_iff.mp (Nat.succ_injective length) with ⟨id, rfl⟩
  rcases leftDeep.different (List.mem_singleton_self id) with ⟨join, get, different⟩
  have isLast : id = 10 := by
    have only : ∀ other < 11, ∀ join, lateQuery.joins[other]? = some join →
        join.participant1.rel ≠ join.participant2.rel → other = 10 := by
      decide
    exact only id (List.getElem?_eq_some_iff.mp get).1 join get different
  subst isLast
  refine ⟨joinGraph, hashTree, final, node, _, rfl, isGraph, isTree, ran, isNode, isSequence,
    appended, ?_⟩
  intro decodes
  have small := lt_of_existsInComb (digits_combOf [10]) ((decodes.listed 10).mpr (by decide))
  exact absurd small (Nat.lt_irrefl 10)

end JoinOperator.Planner
