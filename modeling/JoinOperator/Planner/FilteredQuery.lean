import JoinOperator.Foundation.Loop
import JoinOperator.Planner.SetPriorities

/-! # A query after its filters

The predicates between two columns of one relation have got the first slots of
`priorities`.
-/

namespace JoinOperator.Planner

open Foundation RadixJoin

def sameRelationIds (joins : List Join) (count : Nat) : List Nat :=
  (List.range count).filter fun i => joins[i]?.any fun join => SameRelation join

/-! ## A predicate between two columns of one relation -/

def commonWidth (s1 s2 : Stats) : Nat :=
  (wrapSub (smallerMax s1 s2) (largerMin s1 s2) + 1) % 2 ^ 64

def sameFirst (estimator : Estimator) (s1 s2 : Stats) : Stats :=
  if s1.numElements = 0 ∨ s1.distinctVals = 0 then zeroStats s1
  else { s1 with
    minI := largerMin s1 s2
    maxU := smallerMax s1 s2
    numElements := estimator.ceilQuotient s1.numElements (commonWidth s1 s2)
    distinctVals := estimator.remaining s1.distinctVals s1.numElements
      (estimator.ceilQuotient s1.numElements (commonWidth s1 s2)) s1.numElements }

/-- The second column afterwards, which keeps its number of values. -/
def sameSecond (estimator : Estimator) (s1 s2 : Stats) : Stats :=
  { s2 with
    minI := largerMin s1 s2
    maxU := smallerMax s1 s2
    numElements := estimator.ceilQuotient s1.numElements (commonWidth s1 s2) }

theorem sameRelationColumns_eq {estimator : Estimator} {col1 col2 : Nat} {columns : List Stats}
    {s1 s2 : Stats} (get1 : columns[col1]? = some s1) (get2 : columns[col2]? = some s2) :
    sameRelationColumns estimator col1 col2 columns = some (columns.mapIdx fun c other =>
      if c = col1 then sameFirst estimator s1 s2
      else if c = col2 then sameSecond estimator s1 s2
      else otherColumn estimator s1.numElements (sameFirst estimator s1 s2).numElements
        (sameFirst estimator s1 s2).numElements other) := by
  rw [sameRelationColumns, get1, get2]
  rfl

/-! ## What the loops keep -/

section Shapes

variable {estimator : Estimator} {queryStats after : List (List Stats)}

theorem updateStats_get {rel : Nat} {change : List Stats → Option (List Stats)}
    {columns changed : List Stats}
    (get : queryStats[rel]? = some columns) (isChanged : change columns = some changed) :
    updateStats queryStats rel change = some (queryStats.set rel changed) := by
  rw [updateStats, get, Option.bind_eq_bind, Option.bind_some, isChanged]
  rfl

theorem updateStats_shape {rel : Nat} {change : List Stats → Option (List Stats)}
    (kept : ∀ columns changed, change columns = some changed → changed.length = columns.length)
    (ran : updateStats queryStats rel change = some after) :
    after.map List.length = queryStats.map List.length := by
  rcases Option.bind_eq_some_iff.mp ran with ⟨columns, getColumns, ran⟩
  rcases Option.bind_eq_some_iff.mp ran with ⟨changed, isChanged, ran⟩
  cases ran
  rcases List.getElem?_eq_some_iff.mp getColumns with ⟨inside, rfl⟩
  rw [List.map_set, kept _ _ isChanged]
  apply List.ext_getElem
  · simp
  · intro i first second
    by_cases isRel : rel = i
    · subst isRel
      simp
    · simp [List.getElem_set_ne isRel]

theorem filterColumns_length {filter : Filter} (columns changed : List Stats)
    (ran : filterColumns estimator filter columns = some changed) :
    changed.length = columns.length := by
  rcases Option.bind_eq_some_iff.mp ran with ⟨s, _, ran⟩
  rcases Option.bind_eq_some_iff.mp ran with ⟨filtered, _, ran⟩
  cases ran
  exact List.length_mapIdx

theorem sameRelationColumns_length {col1 col2 : Nat} (columns changed : List Stats)
    (ran : sameRelationColumns estimator col1 col2 columns = some changed) :
    changed.length = columns.length := by
  rcases Option.bind_eq_some_iff.mp ran with ⟨s1, _, ran⟩
  rcases Option.bind_eq_some_iff.mp ran with ⟨s2, _, ran⟩
  cases ran
  exact List.length_mapIdx

theorem runFilters_shape {filters : List Filter}
    (ran : filters.foldlM (runFilter estimator) queryStats = some after) :
    after.map List.length = queryStats.map List.length := by
  apply foldlM_some_invariant (fun stats : List (List Stats) =>
    stats.map List.length = queryStats.map List.length) _ rfl ran
  intro filter _ stats next same ran
  exact (updateStats_shape filterColumns_length ran).trans same

theorem runSameRelations_spec {joins : List Join} {final : JoinFilters}
    (ran : (List.range joins.length).foldlM (runSameRelation estimator joins)
      ⟨queryStats, List.replicate joins.length noPriority, 0⟩ = some final) :
    final.queryStats.map List.length = queryStats.map List.length ∧
      final.priorities = sameRelationIds joins joins.length ++
        List.replicate (joins.length - (sameRelationIds joins joins.length).length)
          noPriority := by
  let Invariant (i : Nat) (state : JoinFilters) : Prop :=
    state.queryStats.map List.length = queryStats.map List.length ∧
      state.p = (sameRelationIds joins i).length ∧
      state.priorities = sameRelationIds joins i ++
        List.replicate (joins.length - (sameRelationIds joins i).length) noPriority
  have invariant : Invariant (0 + joins.length) final := by
    rw [List.range_eq_range'] at ran
    apply foldlM_range'_some_invariant Invariant _ _ ran
    · exact ⟨rfl, rfl, by simp [sameRelationIds]⟩
    · rintro i _ ⟨stats, priorities, p⟩ next ⟨shape, rfl, rfl⟩ ran
      rcases Option.bind_eq_some_iff.mp ran with ⟨join, getJoin, ran⟩
      have next_ids : sameRelationIds joins (i + 1) =
          sameRelationIds joins i ++ if SameRelation join then [i] else [] := by
        rw [sameRelationIds, List.range_succ, List.filter_append, sameRelationIds]
        by_cases same : SameRelation join
        · simp [getJoin, same]
        · simp [getJoin, same]
      by_cases same : SameRelation join
      · rw [if_pos same] at ran next_ids
        rcases Option.bind_eq_some_iff.mp ran with ⟨priorities, written, ran⟩
        rcases Option.bind_eq_some_iff.mp ran with ⟨stats', isStats, ran⟩
        cases ran
        have room : (sameRelationIds joins i).length < joins.length := by
          by_contra full
          rw [Nat.sub_eq_zero_of_le (Nat.not_lt.mp full), List.replicate_zero, List.append_nil,
            write, if_neg (Nat.lt_irrefl _)] at written
          cases written
        refine ⟨(updateStats_shape sameRelationColumns_length isStats).trans shape, ?_, ?_⟩
        · rw [next_ids, List.length_append]
          rfl
        · rw [show joins.length - (sameRelationIds joins i).length =
              joins.length - (sameRelationIds joins i).length - 1 + 1 by omega,
            List.replicate_succ, write_of_lt (by simp), List.set_append_right _ _ (Nat.le_refl _),
            Nat.sub_self, List.set_cons_zero, Option.some.injEq] at written
          rw [next_ids, List.length_append, List.append_assoc, ← written]
          rfl
      · rw [if_neg same] at ran next_ids
        cases ran
        rw [List.append_nil] at next_ids
        exact ⟨shape, by rw [next_ids], by rw [next_ids]⟩
  rw [Nat.zero_add] at invariant
  exact ⟨invariant.1, invariant.2.2⟩

end Shapes

/-- The filters keep what makes a query well-formed, and fill the first slots. -/
theorem executeFilterPredicates_spec {estimator : Estimator} {relArr : List Relationsheep}
    {q filtered : Query} (wellFormed : q.WellFormed relArr)
    (free : q.priorities = List.replicate q.numOfJoins noPriority)
    (ran : executeFilterPredicates estimator q = some filtered) :
    filtered.WellFormed relArr ∧ filtered.rels = q.rels ∧ filtered.joins = q.joins ∧
      filtered.priorities = sameRelationIds q.joins q.numOfJoins ++
        List.replicate (q.numOfJoins - (sameRelationIds q.joins q.numOfJoins).length)
          noPriority := by
  rcases Option.bind_eq_some_iff.mp ran with ⟨queryStats, ranFilters, ran⟩
  rcases Option.bind_eq_some_iff.mp ran with ⟨state, ranJoins, ran⟩
  cases ran
  rw [free] at ranJoins
  rcases runSameRelations_spec ranJoins with ⟨shape, priorities⟩
  rw [runFilters_shape ranFilters] at shape
  refine ⟨⟨?_, wellFormed.filters, wellFormed.joins⟩, rfl, rfl, priorities⟩
  intro rel below
  rcases wellFormed.stats rel below with ⟨columns, getColumns, cols, positive⟩
  have lengths := congrArg (fun lengths : List Nat => lengths[rel]?) shape
  simp only [List.getElem?_map, getColumns, Option.map_some] at lengths
  rcases Option.map_eq_some_iff.mp lengths with ⟨changed, getChanged, length⟩
  exact ⟨changed, getChanged, length ▸ cols, length ▸ positive⟩

end JoinOperator.Planner
