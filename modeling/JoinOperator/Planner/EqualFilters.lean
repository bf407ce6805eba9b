import JoinOperator.Planner.ColumnStats
import JoinOperator.Planner.ConnectedSubsets
import JoinOperator.Planner.FilteredQuery

/-! # Whether a filter for one value asks the bit vector for it

The bit that is read is at the distance of the value from `maxU`, which is the value itself by
then. So it is the bit of the smallest value of the column, which is always set.
-/

namespace JoinOperator.Planner

open Foundation RadixJoin

/-- The statistics of a column say whether a value occurs in it. -/
structure TellsOccurrence (col : List Nat) (value : Nat) (s : Stats) : Prop where
  occurs : value ∈ col → s.distinctVals = 1 ∧ 1 ≤ s.numElements
  absent : value ∉ col → s.distinctVals = 0 ∧ s.numElements = 0

/-- The only filter of the query is for a value of a column, whose statistics are `s`. -/
structure SingleEqual (q : Query) (participant : ColRel) (value : Nat) (s : Stats) : Prop where
  filters : q.filters = [⟨participant, .equal, value⟩]
  joins : ∀ join ∈ q.joins, ¬ SameRelation join
  stats : statsOf q.queryStats participant = some s

section Queries

variable {estimator : Estimator} {q : Query} {participant : ColRel} {value : Nat} {s : Stats}
  {col : List Nat}

def equalled (estimator : Estimator) (value : Nat) (s : Stats) : Stats :=
  { s with
    minI := value
    maxU := value
    numElements := estimator.toNat
      (estimator.ceil (estimator.ofNat (s.numElements / s.distinctVals)))
    distinctVals := 1 }

theorem equalStats_eq (alive : s.distinctVals ≠ 0) (first : testBit s.distinctArray 0 = some true) :
    equalStats estimator value s = some (equalled estimator value s) := by
  rw [equalStats, wrapSub_of_le (Nat.le_refl _), Nat.sub_self]
  simp only [first, Option.bind_eq_bind, Option.bind_some, if_true, if_neg alive, equalled]

theorem runSameRelation_skips {joins : List Join} (different : ∀ join ∈ joins, ¬ SameRelation join)
    (state : JoinFilters) :
    (List.range joins.length).foldlM (runSameRelation estimator joins) state = some state := by
  apply foldlM_fixed
  intro i inside
  have isJoin := List.getElem?_eq_getElem (List.mem_range.mp inside)
  rw [runSameRelation, isJoin, Option.bind_eq_bind, Option.bind_some,
    if_neg (different _ (List.getElem_mem _))]

theorem executeFilterPredicates_equal (isEqual : SingleEqual q participant value s)
    (alive : s.distinctVals ≠ 0) (first : testBit s.distinctArray 0 = some true) :
    ∃ after, executeFilterPredicates estimator q = some after ∧
      statsOf after.queryStats participant = some (equalled estimator value s) := by
  rcases Option.bind_eq_some_iff.mp isEqual.stats with ⟨columns, getColumns, get⟩
  let changed := columns.mapIdx fun c other =>
    if c = participant.numCol then equalled estimator value s
    else otherColumn estimator s.numElements (equalled estimator value s).numElements
      (equalled estimator value s).numElements other
  have isChanged :
      filterColumns estimator ⟨participant, .equal, value⟩ columns = some changed := by
    rw [filterColumns, get, Option.bind_eq_bind, Option.bind_some, filterStats,
      equalStats_eq alive first]
    rfl
  have getChanged : changed[participant.numCol]? = some (equalled estimator value s) := by
    rw [List.getElem?_mapIdx, get, Option.map_some, if_pos rfl]
  have inside := (List.getElem?_eq_some_iff.mp getColumns).1
  refine ⟨{ q with queryStats := q.queryStats.set participant.rel changed }, ?_, ?_⟩
  · rw [executeFilterPredicates, isEqual.filters, List.foldlM_cons, runFilter,
      updateStats_get getColumns isChanged]
    simp only [List.foldlM_nil, Option.bind_eq_bind, Option.bind_some, Option.pure_def,
      Query.numOfJoins, runSameRelation_skips isEqual.joins]
  · rw [statsOf, List.getElem?_set_self inside]
    exact getChanged

theorem fillStatsArray_counts (nonempty : col ≠ [])
    (narrow : ∀ value ∈ col, ∀ other ∈ col, other - value + 1 ≤ N)
    (filled : fillStatsArray col col.length = some s) :
    0 < s.distinctVals ∧ s.distinctVals ≤ s.numElements ∧ s.numElements = col.length ∧
      testBit s.distinctArray 0 = some true := by
  have small : ∀ value ∈ col, ∀ other ∈ col, other - value + 1 < 2 ^ 64 := by
    intro value member other isOther
    have bound := narrow value member other isOther
    exact Nat.lt_of_le_of_lt bound (by decide)
  rcases fillStatsArray_holds nonempty small with
    ⟨found, isFound, isExtreme, isSpan, numElements, _, holds⟩
  rw [filled] at isFound
  cases isFound
  have isNarrow := narrow s.minI isExtreme.minIn s.maxU isExtreme.maxIn
  have isFirst : 0 ∈ (col.map (bitOf s.minI s.maxU)).toFinset := by
    rw [List.mem_toFinset, List.mem_map]
    refine ⟨s.minI, isExtreme.minIn, ?_⟩
    rw [bitOf_narrow isSpan isNarrow (Nat.le_refl _), Nat.sub_self]
  refine ⟨?_, ?_, numElements, ?_⟩
  · rw [holds.card]
    exact Finset.card_pos.mpr ⟨0, isFirst⟩
  · rw [holds.card, numElements, ← List.length_map (bitOf s.minI s.maxU)]
    exact List.toFinset_card_le _
  · exact testBit_iff.mpr ((holds.bits 0).mpr isFirst)

/-- A filter for one value is estimated as if the value occurred, so the statistics are right
exactly for the values that do. An array of rows takes less than `2 ^ 63` bytes, and positive
numbers below `2 ^ 63` remain positive as doubles. -/
theorem tellsOccurrence_iff (nonempty : col ≠ [])
    (narrow : ∀ value ∈ col, ∀ other ∈ col, other - value + 1 ≤ N) (fits : col.length < 2 ^ 60)
    (filled : fillStatsArray col col.length = some s)
    (isEqual : SingleEqual q participant value s)
    (rounds : ∀ k, 1 ≤ k → k < 2 ^ 63 →
      1 ≤ estimator.toNat (estimator.ceil (estimator.ofNat k))) :
    ∃ after filtered, executeFilterPredicates estimator q = some after ∧
      statsOf after.queryStats participant = some filtered ∧
      (TellsOccurrence col value filtered ↔ value ∈ col) := by
  rcases fillStatsArray_counts nonempty narrow filled with ⟨positive, le, rows, first⟩
  rcases @executeFilterPredicates_equal estimator _ _ _ _ isEqual (Nat.ne_of_gt positive) first
    with ⟨after, ran, stats⟩
  refine ⟨after, _, ran, stats, ?_⟩
  constructor
  · intro told
    by_contra absent
    exact Nat.one_ne_zero (told.absent absent).1
  · intro occurs
    refine ⟨fun _ => ⟨rfl, ?_⟩, fun absent => absurd occurs absent⟩
    have least : 1 ≤ s.numElements / s.distinctVals := (Nat.one_le_div_iff positive).mpr le
    have greatest : s.numElements / s.distinctVals ≤ s.numElements := Nat.div_le_self _ _
    exact rounds _ least (by omega)

end Queries

def gapQuery (value : Nat) : Query where
  rels := [0]
  queryStats := [[⟨5, 7, 2, 2, [5]⟩]]
  filters := [⟨⟨0, 0, 0, 0, [5, 7], 2⟩, .equal, value⟩]
  joins := []
  priorities := []

theorem gapQuery_singleEqual (value : Nat) :
    SingleEqual (gapQuery value) ⟨0, 0, 0, 0, [5, 7], 2⟩ value ⟨5, 7, 2, 2, [5]⟩ where
  filters := rfl
  joins := by simp [gapQuery]
  stats := rfl

theorem gapQuery_filled : fillStatsArray [5, 7] 2 = some ⟨5, 7, 2, 2, [5]⟩ := by decide

theorem tellsOccurrence_iff_seven : ∃ after filtered,
    executeFilterPredicates naturalEstimator (gapQuery 7) = some after ∧
      statsOf after.queryStats ⟨0, 0, 0, 0, [5, 7], 2⟩ = some filtered ∧
      (TellsOccurrence [5, 7] 7 filtered ↔ 7 ∈ [5, 7]) :=
  tellsOccurrence_iff (by decide) (by decide) (by decide) gapQuery_filled
    (gapQuery_singleEqual 7) fun _ least _ => least

/-- Between the values is one that does not occur. -/
theorem tellsOccurrence_six : ∃ after filtered,
    fillStatsArray [5, 7] 2 = some ⟨5, 7, 2, 2, [5]⟩ ∧
      executeFilterPredicates naturalEstimator (gapQuery 6) = some after ∧
      statsOf after.queryStats ⟨0, 0, 0, 0, [5, 7], 2⟩ = some filtered ∧
      6 ∉ [5, 7] ∧ filtered.distinctVals = 1 ∧ filtered.numElements = 1 ∧
      ¬ TellsOccurrence [5, 7] 6 filtered := by
  rcases @executeFilterPredicates_equal naturalEstimator _ _ _ _ (gapQuery_singleEqual 6)
    (by decide) (by decide) with ⟨after, ran, stats⟩
  refine ⟨after, _, gapQuery_filled, ran, stats, by decide, rfl, rfl, ?_⟩
  intro told
  exact Nat.one_ne_zero (told.absent (by decide)).1

end JoinOperator.Planner
