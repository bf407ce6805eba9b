import JoinOperator.Executor.Checksum
import JoinOperator.Executor.LeftDeepRuns
import JoinOperator.Executor.ScratchBounds
import JoinOperator.Planner.TreeQueries

/-! # The execution of a tree of relations

The planner's order of such a query adds one relation after the other, and the intermediate that
is left in the end has all solutions of the query, of which the checksums are taken.
-/

namespace JoinOperator.Executor

open Foundation RadixJoin Planner

section Plans

variable {joins : List Join} {order ids : List Nat} {conditions : List (Condition Nat)}

theorem oneByOne_of_leftDeep (leftDeep : LeftDeep joins order ids) :
    ∃ first ∈ order, ∀ rest, OneByOne order rest →
      OneByOne [first] (ids.filterMap (joins[·]?) ++ rest) := by
  induction leftDeep with
  | single r => exact ⟨r, List.mem_singleton_self r, fun rest oneByOne => oneByOne⟩
  | @extend order ids r s joinId covered uncovered member links induction =>
      rcases induction with ⟨first, isFirst, grow⟩
      rcases links with ⟨join, get, ends⟩
      refine ⟨first, List.mem_append_left _ isFirst, fun rest oneByOne => ?_⟩
      rw [List.filterMap_append, List.filterMap_cons_some get, List.filterMap_nil,
        List.append_assoc]
      exact grow _ (.cons member uncovered ends oneByOne)

theorem linked_of_leftDeep (leftDeep : LeftDeep joins order ids)
    (evaluated : ∀ id ∈ ids, ∀ join, joins[id]? = some join → joinCondition join ∈ conditions) :
    ∀ a ∈ order, ∀ b ∈ order, Relation.EqvGen (Linked conditions) a b := by
  induction leftDeep with
  | single r =>
      intro a isA b isB
      rw [List.mem_singleton.mp isA, List.mem_singleton.mp isB]
      exact .refl r
  | @extend order ids r s joinId covered uncovered member links induction =>
      have earlier := induction fun id isId => evaluated id (List.mem_append_left _ isId)
      have toOld : ∀ a ∈ order ++ [r], Relation.EqvGen (Linked conditions) a s := by
        intro a isA
        cases List.mem_append.mp isA with
        | inl isOld => exact earlier a isOld s member
        | inr isNew =>
            rcases links with ⟨join, get, ends⟩
            have isCondition := evaluated joinId (List.mem_append_right _
              (List.mem_singleton_self _)) join get
            rw [List.mem_singleton.mp isNew]
            refine .rel _ _ ⟨joinCondition join, isCondition, ?_, ?_⟩
            · rw [joinCondition_attrs]
              exact ends.elim (fun ends => .inr ends.2.symm) fun ends => .inl ends.1.symm
            · rw [joinCondition_attrs]
              exact ends.elim (fun ends => .inl ends.1.symm) fun ends => .inr ends.2.symm
      intro a isA b isB
      exact (toOld a isA).trans _ _ _ ((toOld b isB).symm _ _)

theorem touched_of_leftDeep (leftDeep : LeftDeep joins order ids) (someId : ids ≠ []) :
    ∀ r ∈ order, ∃ id ∈ ids, ∃ join, joins[id]? = some join ∧ r ∈ (joinCondition join).attrs := by
  induction leftDeep with
  | single r => exact absurd rfl someId
  | @extend order ids r s joinId covered uncovered member links induction =>
      rcases links with ⟨join, get, ends⟩
      have last : ∀ rel, rel = s ∨ rel = r → ∃ id ∈ ids ++ [joinId], ∃ join,
          joins[id]? = some join ∧ rel ∈ (joinCondition join).attrs := by
        intro rel isRel
        refine ⟨joinId, List.mem_append_right _ (List.mem_singleton_self _), join, get, ?_⟩
        rw [joinCondition_attrs]
        rcases ends with ⟨rfl, rfl⟩ | ⟨rfl, rfl⟩
        · exact isRel
        · exact isRel.symm
      intro rel isRel
      cases List.mem_append.mp isRel with
      | inr isNew => exact last rel (.inr (List.mem_singleton.mp isNew))
      | inl isOld =>
          by_cases none : ids = []
          · -- the only relation before is the one that is linked
            have length := covered.length
            rw [none, List.length_nil] at length
            rcases List.length_eq_one_iff.mp length with ⟨only, rfl⟩
            rw [List.mem_singleton] at isOld member
            exact last rel (.inl (isOld.trans member.symm))
          · rcases induction none rel isOld with ⟨id, isId, found⟩
            exact ⟨id, List.mem_append_left _ isId, found⟩

end Plans

section Results

variable {data : Inter}

theorem Inter.rowIds_eq (rectangular : data.Rectangular) {rel : Nat} {column : InterColumn}
    (found : data.columnOf rel = some column) :
    column.rowIds = data.tuples.map fun tuple => valueAt data.joinedRels tuple rel := by
  have isColumn := (Inter.columnOf_spec found).1
  have length := rectangular column isColumn
  apply List.ext_getElem
  · rw [List.length_map, tuples, List.length_map, List.length_range, length]
  · intro i inside inside'
    rw [List.getElem_map]
    simp only [tuples, List.getElem_map, List.getElem_range]
    rw [← Inter.columnOf_getD found, List.getD_eq_getElem _ _ inside]

theorem columnOf_of_mem (nodup : data.joinedRels.Nodup) {column : InterColumn}
    (member : column ∈ data.columns) : data.columnOf column.rel = some column := by
  have isRel : column.rel ∈ data.joinedRels := List.mem_map_of_mem member
  rcases Inter.mem_joinedRels_iff.mp isRel with ⟨found, isFound⟩
  rcases Inter.columnOf_spec isFound with ⟨isColumn, same⟩
  rw [isFound, List.inj_on_of_nodup_map nodup isColumn member same]

theorem Inter.total_eq (rectangular : data.Rectangular) {sum : ColRel}
    (joined : sum.rel ∈ data.joinedRels) {numOfRels : Nat} (below : sum.rel < numOfRels) :
    data.total sum = ((data.part.readAs (List.range numOfRels)).map fun tuple =>
      valueOf sum (tuple.getD · 0)).sum % 2 ^ 64 := by
  rcases Inter.mem_joinedRels_iff.mp joined with ⟨column, found⟩
  rw [total, summands, found]
  simp only [rowIds_eq rectangular found, PartialResult.readAs, List.map_map]
  congr 2
  apply List.map_congr_left
  intro tuple _
  have inside : sum.rel < (List.range numOfRels).length := by
    rwa [List.length_range]
  simp only [Function.comp_apply, valueOf, List.getD_eq_getElem?_getD, List.getElem?_map,
    List.getElem?_eq_getElem inside, List.getElem_range]
  rfl

end Results

/-- The first intermediate has all relations of the query, and all its solutions. -/
structure Solved (relArr : List Relationsheep) (q : Query) (head : HeadInter) (data : Inter) :
    Prop where
  start : head.nodes[0]? = some data
  rectangular : data.Rectangular
  nodup : data.joinedRels.Nodup
  joined : ∀ rel, rel ∈ data.joinedRels ↔ rel < q.numOfRels
  bounded : ∀ tuple ∈ data.tuples, ∀ rel ∈ data.joinedRels,
    valueAt data.joinedRels tuple rel < rowsOf relArr q.rels rel
  perm : (data.part.readAs (List.range q.numOfRels)).Perm
    (solutions (rowsOf relArr q.rels) (conditionsOf q.filters q.joins)
      (List.range q.numOfRels))

section Solutions

variable {relArr : List Relationsheep} {q : Query} {order ids : List Nat} {head : HeadInter}
  {conditions : List (Condition Nat)}

theorem Executed.solved
    (executed : Executed relArr q.rels (touchedBy conditions) conditions head)
    (same : ∀ c, c ∈ conditions ↔ c ∈ conditionsOf q.filters q.joins)
    (participants : ∀ c ∈ conditions, ∀ rel ∈ c.attrs, rel < q.numOfRels)
    (leftDeep : LeftDeep q.joins order ids) (someId : ids ≠ [])
    (isOrder : ∀ r, r ∈ order ↔ r < q.numOfRels) : ∃ data, Solved relArr q head data := by
  have evaluated : ∀ id ∈ ids, ∀ join, q.joins[id]? = some join →
      joinCondition join ∈ conditions := by
    intro id _ join get
    apply (same _).mpr
    exact List.mem_append_right _ (List.mem_map_of_mem (List.mem_of_getElem? get))
  have touched : ∀ rel, rel ∈ touchedBy conditions ↔ rel < q.numOfRels := by
    intro rel
    constructor
    · intro isTouched
      rcases isTouched with ⟨c, isCondition, isRel⟩
      exact participants c isCondition rel isRel
    · intro below
      rcases touched_of_leftDeep leftDeep someId rel ((isOrder rel).mpr below) with
        ⟨id, isId, join, get, isRel⟩
      exact ⟨_, evaluated id isId join get, isRel⟩
  have linked := linked_of_leftDeep leftDeep evaluated
  have covers := fun rel => (executed.evaluates.covers rel).trans (touched rel)
  have positive : 0 < q.numOfRels := by
    have length := leftDeep.length
    rcases List.exists_mem_of_length_pos (show 0 < order.length by omega) with ⟨rel, isRel⟩
    exact Nat.lt_of_le_of_lt (Nat.zero_le _) ((isOrder rel).mp isRel)
  rcases List.mem_flatMap.mp ((covers 0).mpr positive) with ⟨part, isPart, _⟩
  rcases List.mem_map.mp isPart with ⟨other, isOther, _⟩
  rcases List.exists_cons_of_ne_nil (List.ne_nil_of_mem isOther) with ⟨data, others, isNodes⟩
  have isNode : data ∈ head.nodes := isNodes ▸ List.mem_cons_self
  have isData : data.part ∈ head.nodes.map Inter.part := List.mem_map_of_mem isNode
  have joined : ∀ rel, rel ∈ data.joinedRels ↔ rel < q.numOfRels := by
    intro rel
    constructor
    · intro member
      exact (covers rel).mp (List.mem_flatMap.mpr ⟨data.part, isData, member⟩)
    · intro below
      rcases List.exists_mem_of_ne_nil _ (executed.evaluates.nonempty _ isData) with ⟨a, isA⟩
      have belowA := (covers a).mp (List.mem_flatMap.mpr ⟨data.part, isData, isA⟩)
      have isLinked := linked a ((isOrder a).mpr belowA) rel ((isOrder rel).mpr below)
      exact (executed.evaluates.mem_iff_of_linked isData isLinked).mp isA
  have complete := executed.evaluates.complete _ isData
  refine ⟨data, by rw [isNodes]; rfl, executed.rectangular data isNode,
    executed.evaluates.attrs_nodup isData, joined, ?_, ?_⟩
  · intro tuple member rel isRel
    exact ((complete.exact tuple).mp member).bounded rel isRel
  · rw [← solutions_congr fun c _ => same c]
    apply complete.perm_solutions (executed.evaluates.attrs_nodup isData) List.nodup_range
    intro rel
    rw [List.mem_range]
    exact joined rel

theorem Solved.checksums {data : Inter} (solved : Solved relArr q head data) {sums : List ColRel}
    (areSums : ∀ sum ∈ sums, IsParticipant relArr q.rels sum) :
    performChecksums sums head = some (sums.map fun sum =>
      ((solutions (rowsOf relArr q.rels) (conditionsOf q.filters q.joins)
        (List.range q.numOfRels)).map fun tuple => valueOf sum (tuple.getD · 0)).sum % 2 ^ 64) := by
  have joined : ∀ sum ∈ sums, sum.rel ∈ data.joinedRels := fun sum member =>
    (solved.joined sum.rel).mpr (areSums sum member).lt
  have summable : Summable data sums := by
    refine ⟨solved.rectangular, joined, ?_⟩
    intro sum member column isColumn isRel rowId isRowId
    have found : data.columnOf sum.rel = some column := isRel ▸ columnOf_of_mem solved.nodup isColumn
    rw [Inter.rowIds_eq solved.rectangular found] at isRowId
    rcases List.mem_map.mp isRowId with ⟨tuple, isTuple, rfl⟩
    rw [(areSums sum member).length, ← (areSums sum member).rows]
    exact solved.bounded tuple isTuple sum.rel (joined sum member)
  rw [summable.performChecksums_eq solved.start, Option.some.injEq]
  apply List.map_congr_left
  intro sum member
  rw [Inter.total_eq solved.rectangular (joined sum member) (areSums sum member).lt]
  have perm := solved.perm.map fun tuple => valueOf sum (tuple.getD · 0)
  exact congrArg (· % 2 ^ 64) perm.sum_eq

end Solutions

section Trees

variable {relArr : List Relationsheep} {rels : List Nat} {conditions others : List (Condition Nat)}
  {limit : Nat}

theorem Manageable.congr (manageable : Manageable relArr rels conditions limit)
    (same : ∀ c, c ∈ conditions ↔ c ∈ others) : Manageable relArr rels others limit := by
  intro attrs nodup inside
  rw [← solutions_congr fun c _ => same c]
  exact manageable attrs nodup inside

theorem filterMap_getElem?_range {α : Type} (items : List α) :
    (List.range items.length).filterMap (items[·]?) = items := by
  induction items using List.reverseRecOn with
  | nil => rfl
  | append_singleton items last induction =>
      have atLast : (items ++ [last])[items.length]? = some last := by
        rw [List.getElem?_append_right (Nat.le_refl _), Nat.sub_self]
        rfl
      have front : (List.range items.length).filterMap ((items ++ [last])[·]?) =
          (List.range items.length).filterMap (items[·]?) := by
        apply List.filterMap_congr
        intro i member
        exact List.getElem?_append_left (List.mem_range.mp member)
      rw [List.length_append, List.length_singleton, List.range_succ, List.filterMap_append, front,
        induction, List.filterMap_cons_some atLast, List.filterMap_nil]

theorem scheduledJoins_of_lt {joins : List Join} {priorities : List Nat}
    (below : ∀ p ∈ priorities, p < noPriority) :
    scheduledJoins joins priorities = priorities.filterMap (joins[·]?) := by
  rw [scheduledJoins, List.filter_eq_self.mpr]
  intro p member
  exact decide_eq_true (Nat.ne_of_lt (below p member))

/-- A tree is planned, and executed up to its solutions unless a join does not return. All joins
return if they are given few tuples. -/
theorem performQuery_tree (estimator : Estimator) {q : Query} (executable : Executable relArr q)
    (words : HasWords q.queryStats) (tree : IsTree q) {State : Type}
    {joiner : Joiner relArr State} {state : State} (valid : joiner.Valid state) :
    ∃ filtered priorities, executeFilterPredicates estimator q = some filtered ∧
      planQuery estimator relArr filtered = some priorities ∧
      (∀ fault, performQuery joiner filtered.filters filtered.joins priorities state =
        .error fault → fault = .join) ∧
      (∀ head next, performQuery joiner filtered.filters filtered.joins priorities state =
        .ok (head, next) → (∃ data, Solved relArr q head data) ∧ joiner.Valid next) ∧
      (joiner.ReturnsBelow limit →
        Manageable relArr q.rels (conditionsOf q.filters q.joins) limit →
        ∃ head next, performQuery joiner filtered.filters filtered.joins priorities state =
          .ok (head, next)) := by
  rcases planQuery_tree estimator executable.wellFormed words executable.free tree with
    ⟨filtered, order, ids, isFiltered, joins, planned, leftDeep, someId, isOrder, perm⟩
  refine ⟨filtered, _, isFiltered, planned, ?_⟩
  rw [executeFilterPredicates_filters isFiltered, joins]
  have below : ∀ p ∈ sameRelationIds q.joins q.numOfJoins ++ ids, p < q.joins.length := by
    intro p member
    exact List.mem_range.mp (perm.mem_iff.mp member)
  have free : ∀ p ∈ sameRelationIds q.joins q.numOfJoins ++ ids, p < noPriority := by
    intro p member
    exact Nat.lt_of_lt_of_le (below p member) (Nat.le_trans tree.digits (by decide))
  rw [performQuery_eq fun p member => .inr (below p member), scheduledJoins_of_lt free]
  have scheduled : ((sameRelationIds q.joins q.numOfJoins ++ ids).filterMap (q.joins[·]?)).Perm
      q.joins := by
    have all := perm.filterMap (q.joins[·]?)
    rwa [Query.numOfJoins, filterMap_getElem?_range] at all
  rw [List.filterMap_append] at scheduled ⊢
  have same : ∀ c, c ∈ conditionsOf q.filters ((sameRelationIds q.joins
      q.numOfJoins).filterMap (q.joins[·]?) ++ ids.filterMap (q.joins[·]?)) ↔
      c ∈ conditionsOf q.filters q.joins := by
    intro c
    exact ((List.Perm.refl _).append (scheduled.map joinCondition)).mem_iff
  rcases oneByOne_of_leftDeep leftDeep with ⟨first, isFirst, grow⟩
  have oneByOne := grow [] (.nil order)
  rw [List.append_nil] at oneByOne
  have areSelfs : ∀ pred ∈ (sameRelationIds q.joins q.numOfJoins).filterMap (q.joins[·]?),
      IsJoin relArr q.rels pred ∧ pred.participant1.rel = pred.participant2.rel := by
    intro pred member
    rcases List.mem_filterMap.mp member with ⟨id, isId, get⟩
    refine ⟨executable.areJoins pred (List.mem_of_getElem? get), ?_⟩
    rcases onOneRelation_of_mem isId with ⟨join, get', self⟩
    cases get.symm.trans get'
    exact self
  have areLinks : ∀ pred ∈ ids.filterMap (q.joins[·]?), IsJoin relArr q.rels pred := by
    intro pred member
    rcases List.mem_filterMap.mp member with ⟨id, _, get⟩
    exact executable.areJoins pred (List.mem_of_getElem? get)
  have outcome := @runQuery_leftDeep _ _ joiner _ state _ _ _ first limit
    ((isOrder first).mp isFirst) executable.areFilters areSelfs areLinks oneByOne valid
  refine ⟨outcome.1, ?_, ?_⟩
  · intro head next returned
    rcases outcome.2.1 head next returned with ⟨executed, nextValid⟩
    refine ⟨executed.solved same ?_ leftDeep someId isOrder, nextValid⟩
    intro c isCondition rel isRel
    cases List.mem_append.mp ((same c).mp isCondition) with
    | inl isFilter =>
        rcases List.mem_map.mp isFilter with ⟨pred, member, rfl⟩
        rw [(filterCondition_attrs pred rel).mp isRel]
        exact (executable.areFilters pred member).lt
    | inr isJoin =>
        rcases List.mem_map.mp isJoin with ⟨pred, member, rfl⟩
        rcases (joinCondition_attrs pred rel).mp isRel with rfl | rfl
        · exact (executable.areJoins pred member).first.toIsParticipant.lt
        · exact (executable.areJoins pred member).second.toIsParticipant.lt
  · intro returns manageable
    exact outcome.2.2 returns (manageable.congr fun c => (same c).symm)

end Trees

end JoinOperator.Executor
