import JoinOperator.Planner.FilteredQuery
import JoinOperator.Planner.FullPlan

/-! # The planner from the filters to the free slot

What `SetPriorities` is called with: a plan for all relations, with a sequence,
and an array of priorities that has a free slot.
-/

namespace JoinOperator.Planner

open Foundation RadixJoin

/-! ## The filters do not fail -/

def HasWords (queryStats : List (List Stats)) : Prop :=
  ∀ columns ∈ queryStats, ∀ s ∈ columns, s.distinctArray ≠ []

theorem otherColumn_distinctArray (estimator : Estimator) (old new rows : Nat) (s : Stats) :
    (otherColumn estimator old new rows s).distinctArray = s.distinctArray := by
  rw [otherColumn]
  split
  · rfl
  · rfl

theorem lessStats_distinctArray (estimator : Estimator) (value : Nat) (s : Stats) :
    (lessStats estimator value s).distinctArray = s.distinctArray := by
  simp only [lessStats]
  split_ifs <;> rfl

theorem greaterStats_distinctArray (estimator : Estimator) (value : Nat) (s : Stats) :
    (greaterStats estimator value s).distinctArray = s.distinctArray := by
  simp only [greaterStats]
  split_ifs <;> rfl

/-- The bit that is tested is the first one, since `minI` is set before. -/
theorem equalStats_total (estimator : Estimator) (value : Nat) {s : Stats}
    (word : s.distinctArray ≠ []) :
    ∃ after, equalStats estimator value s = some after ∧
      after.distinctArray = s.distinctArray := by
  rcases List.exists_cons_of_ne_nil word with ⟨first, rest, isArray⟩
  have tested : testBit s.distinctArray (wrapSub value value) = some (first.testBit 0) := by
    rw [wrapSub_of_le (Nat.le_refl value), Nat.sub_self, isArray]
    rfl
  have ran : ∃ after, equalStats estimator value s = some after := by
    simp [equalStats, tested]
  rcases ran with ⟨after, ran⟩
  refine ⟨after, ran, ?_⟩
  rcases Option.bind_eq_some_iff.mp ran with ⟨occurs, _, ran⟩
  cases ran
  split_ifs <;> rfl

theorem filterStats_total (estimator : Estimator) (filter : Filter) {s : Stats}
    (word : s.distinctArray ≠ []) :
    ∃ after, filterStats estimator filter s = some after ∧
      after.distinctArray = s.distinctArray := by
  rw [filterStats]
  cases filter.op with
  | less => exact ⟨_, rfl, lessStats_distinctArray estimator filter.value s⟩
  | greater => exact ⟨_, rfl, greaterStats_distinctArray estimator filter.value s⟩
  | equal => exact equalStats_total estimator filter.value word

def Changes (change : List Stats → Option (List Stats)) (columns : List Stats) : Prop :=
  ∃ after, change columns = some after ∧ after.length = columns.length ∧
    ∀ s ∈ after, s.distinctArray ≠ []

theorem filterColumns_total (estimator : Estimator) {filter : Filter} {columns : List Stats}
    (inside : filter.participant.numCol < columns.length)
    (words : ∀ s ∈ columns, s.distinctArray ≠ []) :
    Changes (filterColumns estimator filter) columns := by
  have get := List.getElem?_eq_getElem inside
  rcases filterStats_total estimator filter (words _ (List.getElem_mem inside)) with
    ⟨after, filtered, sameArray⟩
  have ran : filterColumns estimator filter columns = some (columns.mapIdx fun c other =>
      if c = filter.participant.numCol then after
      else otherColumn estimator columns[filter.participant.numCol].numElements
        after.numElements after.numElements other) := by
    simp [filterColumns, get, filtered]
  refine ⟨_, ran, List.length_mapIdx, ?_⟩
  intro s member
  rcases List.mem_mapIdx.mp member with ⟨c, below, rfl⟩
  split
  · rw [sameArray]
    exact words _ (List.getElem_mem inside)
  · rw [otherColumn_distinctArray]
    exact words _ (List.getElem_mem below)

theorem sameRelationColumns_total (estimator : Estimator) {col1 col2 : Nat}
    {columns : List Stats} (inside1 : col1 < columns.length) (inside2 : col2 < columns.length)
    (words : ∀ s ∈ columns, s.distinctArray ≠ []) :
    Changes (sameRelationColumns estimator col1 col2) columns := by
  have ran : ∃ after, sameRelationColumns estimator col1 col2 columns = some after := by
    simp [sameRelationColumns, List.getElem?_eq_getElem inside1,
      List.getElem?_eq_getElem inside2]
  rcases ran with ⟨after, ran⟩
  refine ⟨after, ran, sameRelationColumns_length columns after ran, ?_⟩
  rcases Option.bind_eq_some_iff.mp ran with ⟨s1, get1, ran⟩
  rcases Option.bind_eq_some_iff.mp ran with ⟨s2, get2, ran⟩
  cases ran
  intro s member
  rcases List.mem_mapIdx.mp member with ⟨c, below, rfl⟩
  split
  · split
    · exact words s1 (List.mem_of_getElem? get1)
    · exact words s1 (List.mem_of_getElem? get1)
  · split
    · exact words s2 (List.mem_of_getElem? get2)
    · rw [otherColumn_distinctArray]
      exact words _ (List.getElem_mem below)

structure SameShape (queryStats after : List (List Stats)) : Prop where
  lengths : after.map List.length = queryStats.map List.length
  words : HasWords after

theorem SameShape.columns {queryStats after : List (List Stats)}
    (same : SameShape queryStats after) {rel : Nat} {columns : List Stats}
    (get : queryStats[rel]? = some columns) :
    ∃ current, after[rel]? = some current ∧ current.length = columns.length := by
  have lengths := congrArg (fun lengths : List Nat => lengths[rel]?) same.lengths
  simp only [List.getElem?_map, get, Option.map_some] at lengths
  exact Option.map_eq_some_iff.mp lengths

theorem updateStats_total {queryStats stats : List (List Stats)}
    (same : SameShape queryStats stats) {rel : Nat} {columns : List Stats}
    {change : List Stats → Option (List Stats)} (get : stats[rel]? = some columns)
    (changes : Changes change columns) :
    ∃ after, updateStats stats rel change = some after ∧ SameShape queryStats after := by
  rcases changes with ⟨changed, ran, length, words⟩
  refine ⟨stats.set rel changed, by simp [updateStats, get, ran], ?_, ?_⟩
  · rw [← same.lengths, List.map_set, length]
    rcases List.getElem?_eq_some_iff.mp get with ⟨inside, rfl⟩
    rw [← List.getElem_map List.length (h := by simpa using inside)]
    exact List.set_getElem_self _
  · intro other member
    rcases List.mem_or_eq_of_mem_set member with member | rfl
    · exact same.words other member
    · exact words

section Total

variable {relArr : List Relationsheep} {q : Query}

theorem column_of_has (wellFormed : q.WellFormed relArr) {stats : List (List Stats)}
    (same : SameShape q.queryStats stats) {participant : ColRel}
    (has : q.Has relArr participant) :
    ∃ columns, stats[participant.rel]? = some columns ∧ columns ∈ stats ∧
      ∀ cols, q.colsOf relArr participant.rel = some cols → cols = columns.length := by
  rcases wellFormed.stats participant.rel has.lt with ⟨columns, get, isCols, _⟩
  rcases same.columns get with ⟨current, getCurrent, length⟩
  refine ⟨current, getCurrent, List.mem_of_getElem? getCurrent, fun cols isCols' => ?_⟩
  rw [isCols] at isCols'
  cases isCols'
  exact length.symm

theorem runFilter_total (estimator : Estimator) (wellFormed : q.WellFormed relArr)
    {stats : List (List Stats)} (same : SameShape q.queryStats stats) {filter : Filter}
    (member : filter ∈ q.filters) :
    ∃ after, runFilter estimator stats filter = some after ∧ SameShape q.queryStats after := by
  have has := wellFormed.filters filter member
  rcases column_of_has wellFormed same has with ⟨columns, get, isColumns, length⟩
  rcases has with ⟨cols, isCols, below⟩
  rw [length cols isCols] at below
  exact updateStats_total same get
    (filterColumns_total estimator below (same.words columns isColumns))

theorem runSameRelations_total (estimator : Estimator) (wellFormed : q.WellFormed relArr)
    {stats : List (List Stats)} (same : SameShape q.queryStats stats)
    (slots : q.priorities.length = q.numOfJoins) :
    ∃ final, (List.range q.numOfJoins).foldlM (runSameRelation estimator q.joins)
      ⟨stats, q.priorities, 0⟩ = some final := by
  have invariant : ∃ final, (List.range q.numOfJoins).foldlM (runSameRelation estimator q.joins)
      ⟨stats, q.priorities, 0⟩ = some final ∧ SameShape q.queryStats final.queryStats ∧
        final.priorities.length = q.numOfJoins ∧ final.p ≤ q.numOfJoins := by
    apply foldlM_range_invariant fun i (state : JoinFilters) =>
      SameShape q.queryStats state.queryStats ∧ state.priorities.length = q.numOfJoins ∧
        state.p ≤ i
    · exact ⟨same, slots, Nat.le_refl 0⟩
    · rintro i below state ⟨sameState, length, atMost⟩
      have get := List.getElem?_eq_getElem (l := q.joins) below
      rw [runSameRelation, get, Option.bind_eq_bind, Option.bind_some]
      by_cases isSame : SameRelation q.joins[i]
      · rw [if_pos isSame]
        rcases wellFormed.joins q.joins[i] (List.getElem_mem below) with ⟨has, has'⟩
        rcases column_of_has wellFormed sameState has with
          ⟨columns, getColumns, isColumns, isLength⟩
        rcases has with ⟨cols, isCols, inside⟩
        rcases has' with ⟨cols', isCols', inside'⟩
        rw [← isSame.1] at isCols'
        rw [isLength cols isCols] at inside
        rw [isLength cols' isCols'] at inside'
        rcases updateStats_total sameState getColumns (sameRelationColumns_total estimator inside
          inside' (sameState.words columns isColumns)) with ⟨after, updated, sameAfter⟩
        have room : state.p < state.priorities.length := by
          omega
        refine ⟨⟨after, state.priorities.set state.p i, state.p + 1⟩, ?_, sameAfter, ?_,
          Nat.succ_le_succ atMost⟩
        · simp only [write_of_lt room, Option.bind_eq_bind, Option.bind_some, updated]
        · rw [List.length_set, length]
      · rw [if_neg isSame]
        exact ⟨state, rfl, sameState, length, Nat.le_succ_of_le atMost⟩
  rcases invariant with ⟨final, ran, _⟩
  exact ⟨final, ran⟩

/-- `executeFilterPredicates` stays within its arrays. -/
theorem executeFilterPredicates_total (estimator : Estimator) (wellFormed : q.WellFormed relArr)
    (words : HasWords q.queryStats) (slots : q.priorities.length = q.numOfJoins) :
    ∃ filtered, executeFilterPredicates estimator q = some filtered := by
  have filters : ∃ stats, q.filters.foldlM (runFilter estimator) q.queryStats = some stats ∧
      SameShape q.queryStats stats :=
    foldlM_invariant (fun filter member _ same =>
      runFilter_total estimator wellFormed same member) ⟨rfl, words⟩
  rcases filters with ⟨stats, ranFilters, same⟩
  rcases runSameRelations_total estimator wellFormed same slots with ⟨final, ranJoins⟩
  exact ⟨_, by rw [executeFilterPredicates, ranFilters, Option.bind_eq_bind, Option.bind_some,
    ranJoins]; rfl⟩

end Total

/-! ## The plan and the free slot -/

/-- From the graph to `SetPriorities`, no `NULL` is dereferenced: there is a plan
for all relations, with a sequence, and a slot of `priorities` is free. -/
def Planned (estimator : Estimator) (relArr : List Relationsheep) (q : Query) : Prop :=
  ∃ joinGraph hashTree final node sequence i,
    constructGraph (initialiseGraph q.numOfRels) q = some joinGraph ∧
    initialiseHashTree (2 ^ q.numOfRels) q relArr = some hashTree ∧
    joinEnumeration estimator hashTree q joinGraph = some final ∧
    final[2 ^ q.numOfRels - 1]? = some (some node) ∧ node.joinSeq = some sequence ∧
    q.priorities.findIdx? (· = noPriority) = some i ∧ i < q.numOfJoins

theorem exists_free {q : Query} {id : Nat} {join : Join} (get : q.joins[id]? = some join)
    (different : join.participant1.rel ≠ join.participant2.rel)
    (priorities : q.priorities = sameRelationIds q.joins q.numOfJoins ++
      List.replicate (q.numOfJoins - (sameRelationIds q.joins q.numOfJoins).length) noPriority) :
    ∃ i, q.priorities.findIdx? (· = noPriority) = some i ∧ i < q.numOfJoins := by
  have inside : id < q.numOfJoins := (List.getElem?_eq_some_iff.mp get).1
  have fewer : (sameRelationIds q.joins q.numOfJoins).length < q.numOfJoins := by
    have filtered : (sameRelationIds q.joins q.numOfJoins).length <
        (List.range q.numOfJoins).length := by
      apply List.length_filter_lt_length_iff_exists.mpr
      refine ⟨id, List.mem_range.mpr inside, ?_⟩
      simp [get, SameRelation, different]
    rwa [List.length_range] at filtered
  have free : noPriority ∈ q.priorities := by
    rw [priorities]
    apply List.mem_append_right
    apply List.mem_replicate.mpr
    exact ⟨by omega, rfl⟩
  cases found : q.priorities.findIdx? (· = noPriority) with
  | none =>
      have taken := List.findIdx?_eq_none_iff.mp found noPriority free
      simp at taken
  | some i =>
      refine ⟨i, rfl, ?_⟩
      have below := (List.findIdx?_eq_some_iff_getElem.mp found).1
      rw [priorities, List.length_append, List.length_replicate] at below
      omega

theorem planned_of_connected (estimator : Estimator) {relArr : List Relationsheep} {q : Query}
    (wellFormed : q.WellFormed relArr)
    (connected : ConnectedOn (queryGraph q.joins) (Finset.range q.numOfRels))
    (priorities : q.priorities = sameRelationIds q.joins q.numOfJoins ++
      List.replicate (q.numOfJoins - (sameRelationIds q.joins q.numOfJoins).length) noPriority)
    (many : 2 ≤ q.numOfRels) (few : q.numOfRels ≤ 10) : Planned estimator relArr q := by
  rcases exists_fullPlan estimator wellFormed many few connected with
    ⟨joinGraph, hashTree, final, node, order, ids, isGraph, isTree, ran, isNode, isSequence,
      leftDeep, _, length⟩
  rcases List.exists_mem_of_length_pos (show 0 < ids.length by omega) with ⟨id, member⟩
  rcases leftDeep.different member with ⟨join, get, different⟩
  rcases exists_free get different priorities with ⟨i, first, below⟩
  exact ⟨joinGraph, hashTree, final, node, combOf ids, i, isGraph, isTree, ran, isNode,
    isSequence, first, below⟩

def NoSequence (hashTree : HashTree) : Prop :=
  ∀ (slot : Nat) (node : HTNode), hashTree[slot]? = some (some node) → node.joinSeq = none

theorem NoSequence.initialiseSlot {q : Query} {relArr : List Relationsheep}
    {before after : HashTree} {i : Nat} (single : NoSequence before)
    (ran : initialiseSlot q relArr before i = some after) : NoSequence after := by
  intro slot node get
  rcases Option.bind_eq_some_iff.mp ran with ⟨rel, _, ran⟩
  rcases Option.bind_eq_some_iff.mp ran with ⟨relation, _, ran⟩
  rcases Option.bind_eq_some_iff.mp ran with ⟨fresh, isFresh, written⟩
  rcases Option.bind_eq_some_iff.mp isFresh with ⟨columns, _, isFresh⟩
  rcases Option.bind_eq_some_iff.mp isFresh with ⟨relStats, _, isFresh⟩
  rcases Option.bind_eq_some_iff.mp isFresh with ⟨first, _, isFresh⟩
  by_cases inside : 1 <<< i < before.length
  · rw [write_of_lt inside, Option.some.injEq] at written
    subst written
    by_cases same : 1 <<< i = slot
    · subst same
      rw [List.getElem?_set_self inside] at get
      cases get
      cases isFresh
      rfl
    · rw [List.getElem?_set_ne same] at get
      exact single slot node get
  · rw [write, if_neg inside] at written
    cases written

theorem noSequence_initialiseHashTree {relArr : List Relationsheep} {q : Query}
    {hashTree : HashTree} {size : Nat}
    (isTree : initialiseHashTree size q relArr = some hashTree) : NoSequence hashTree := by
  apply foldlM_some_invariant NoSequence _ _ isTree
  · intro i _ before after single ran
    exact single.initialiseSlot ran
  · intro slot node get
    cases List.eq_of_mem_replicate (List.mem_of_getElem? get)

theorem many_of_sequence {estimator : Estimator} {relArr : List Relationsheep} {q : Query}
    {joinGraph : Graph} {hashTree final : HashTree} {slot : Nat} {node : HTNode}
    {sequence : List Char} (isTree : initialiseHashTree (2 ^ q.numOfRels) q relArr = some hashTree)
    (ran : joinEnumeration estimator hashTree q joinGraph = some final)
    (isNode : final[slot]? = some (some node)) (isSequence : node.joinSeq = some sequence) :
    2 ≤ q.numOfRels := by
  by_contra single
  -- there is no pass of the enumeration
  have passes : q.numOfRels - 1 = 0 := by
    omega
  rw [joinEnumeration, passes] at ran
  cases ran
  rw [noSequence_initialiseHashTree isTree _ _ isNode] at isSequence
  cases isSequence

theorem bounds_of_planned {estimator : Estimator} {relArr : List Relationsheep} {q : Query}
    (planned : Planned estimator relArr q) : 2 ≤ q.numOfRels ∧ q.numOfRels ≤ 10 := by
  rcases planned with
    ⟨joinGraph, hashTree, final, node, sequence, i, _, isTree, ran, isNode, isSequence, _⟩
  exact ⟨many_of_sequence isTree ran isNode isSequence, numOfRels_le_of_plan isTree ran isNode⟩

/-- For a connected query, `executeFilterPredicates` returns if the bit vectors
have a word, and then the planner gets to a plan and a free slot if and only if
there are two to ten relations. -/
theorem planned_iff (estimator : Estimator) {relArr : List Relationsheep} {q : Query}
    (wellFormed : q.WellFormed relArr)
    (free : q.priorities = List.replicate q.numOfJoins noPriority)
    (connected : ConnectedOn (queryGraph q.joins) (Finset.range q.numOfRels)) :
    (HasWords q.queryStats →
      ∃ filtered, executeFilterPredicates estimator q = some filtered) ∧
    ∀ filtered, executeFilterPredicates estimator q = some filtered →
      (Planned estimator relArr filtered ↔ 2 ≤ q.numOfRels ∧ q.numOfRels ≤ 10) := by
  constructor
  · intro words
    apply executeFilterPredicates_total estimator wellFormed words
    rw [free, List.length_replicate]
  · intro filtered isFiltered
    rcases executeFilterPredicates_spec wellFormed free isFiltered with
      ⟨filteredWellFormed, rels, joins, priorities⟩
    rw [Query.numOfJoins, ← joins] at priorities
    have sameRels : filtered.numOfRels = q.numOfRels := by
      rw [Query.numOfRels, rels, Query.numOfRels]
    rw [← joins, ← sameRels] at connected
    rw [← sameRels]
    constructor
    · exact bounds_of_planned
    · rintro ⟨many, few⟩
      exact planned_of_connected estimator filteredWellFormed connected priorities many few

theorem planned_iff_linkQuery : ∃ filtered,
    executeFilterPredicates naturalEstimator linkQuery = some filtered ∧
      Planned naturalEstimator twoRelations filtered := by
  have connected : ConnectedOn (queryGraph linkQuery.joins) (Finset.range 2) :=
    linkQuery_connected
  have total := planned_iff naturalEstimator linkQuery_wellFormed rfl connected
  rcases total.1 (by rw [HasWords]; decide) with ⟨filtered, isFiltered⟩
  exact ⟨filtered, isFiltered, (total.2 filtered isFiltered).mpr (by decide)⟩

/-- One relation with a filter, whose only set of relations has no sequence. -/
def singleQuery : Query where
  rels := [0]
  queryStats := [[⟨7, 7, 1, 1, [1]⟩]]
  filters := [⟨⟨0, 0, 0, 0, [7], 1⟩, .greater, 5⟩]
  joins := []
  priorities := []

theorem singleQuery_wellFormed : singleQuery.WellFormed twoRelations where
  stats := by
    intro rel below
    cases Nat.lt_one_iff.mp below
    exact ⟨_, rfl, rfl, by decide⟩
  filters := by decide
  joins := by decide

theorem planned_singleQuery : singleQuery.WellFormed twoRelations ∧
    ConnectedOn (queryGraph singleQuery.joins) (Finset.range 1) ∧
    ∀ filtered, executeFilterPredicates naturalEstimator singleQuery = some filtered →
      ¬ Planned naturalEstimator twoRelations filtered := by
  refine ⟨singleQuery_wellFormed, ConnectedOn.singleton 0, ?_⟩
  intro filtered isFiltered planned
  have many := (bounds_of_planned planned).1
  have rels := (executeFilterPredicates_spec singleQuery_wellFormed rfl isFiltered).2.1
  rw [Query.numOfRels, rels] at many
  exact absurd many (by decide)

end JoinOperator.Planner
