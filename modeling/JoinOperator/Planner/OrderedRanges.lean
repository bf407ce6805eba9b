import JoinOperator.Planner.ColumnStats
import JoinOperator.Planner.FilterDivisors
import JoinOperator.Planner.StatsSteps
import JoinOperator.Planner.TotalPlanner

/-! # Whether the filters leave ranges

A filter leaves every column a range. A predicate between two columns of one relation leaves them
their common range, and does not ask whether there is one.
-/

namespace JoinOperator.Planner

open Foundation RadixJoin

def stepDivisors (queryStats : List (List Stats)) : StatsStep → List Nat
  | .filter filter =>
      (queryStats[filter.participant.rel]?.map (filterColumnsDivisors filter)).getD []
  | .join join =>
      if SameRelation join then
        (queryStats[join.participant1.rel]?.map (sameRelationDivisors join.participant1.numCol
          join.participant2.numCol)).getD []
      else []

/-- Every range is one, and every division is by a positive number. -/
structure SafeRun (estimator : Estimator) (q : Query) : Prop where
  ordered : ∀ k stats, StatsAfter estimator q k stats →
    ∀ columns ∈ stats, ∀ s ∈ columns, s.minI ≤ s.maxU
  divisors : ∀ k stats step, StatsAfter estimator q k stats → (statsSteps q)[k]? = some step →
    ∀ divisor ∈ stepDivisors stats step, divisor ≠ 0

def Overlaps (stats : List (List Stats)) : StatsStep → Prop
  | .filter _ => True
  | .join join => SameRelation join → ∀ s1 s2, statsOf stats join.participant1 = some s1 →
      statsOf stats join.participant2 = some s2 → largerMin s1 s2 ≤ smallerMax s1 s2

/-- The statistics are those of columns that have values, and not both the least and the greatest
number. -/
def OfColumns (queryStats : List (List Stats)) : Prop :=
  ∀ columns ∈ queryStats, ∀ s ∈ columns, ∃ col, col ≠ [] ∧
    (∀ value ∈ col, ∀ other ∈ col, other - value + 1 < 2 ^ 64) ∧
    fillStatsArray col col.length = some s

/-! ## What a step keeps -/

structure ProperRange (minI maxU : Nat) : Prop where
  ordered : minI ≤ maxU
  small : maxU - minI + 1 < 2 ^ 64

theorem properRange_closed : RangeClosed ProperRange where
  zero := ⟨Nat.le_refl 0, by omega⟩
  lower := by
    intro minI maxU k1 proper above inside
    have small := proper.small
    exact ⟨inside, by omega⟩
  upper := by
    intro minI maxU k2 proper inside below
    have small := proper.small
    exact ⟨inside, by omega⟩

theorem properRange_point (value : Nat) : ProperRange value value :=
  ⟨Nat.le_refl value, by omega⟩

section Steps

variable {estimator : Estimator} {s1 s2 : Stats} {queryStats after : List (List Stats)}

theorem common_proper (proper : ProperRange s1.minI s1.maxU)
    (overlap : largerMin s1 s2 ≤ smallerMax s1 s2) :
    ProperRange (largerMin s1 s2) (smallerMax s1 s2) := by
  have small := proper.small
  have least := (largerMin_ge s1 s2).1
  have greatest := (smallerMax_le s1 s2).1
  exact ⟨overlap, by omega⟩

theorem stepDivisors_ne {step : StatsStep} {divisor : Nat} (proper : AllRanges ProperRange queryStats)
    (overlaps : Overlaps queryStats step) (member : divisor ∈ stepDivisors queryStats step) :
    divisor ≠ 0 := by
  cases step with
  | filter filter =>
      rw [stepDivisors] at member
      cases get : queryStats[filter.participant.rel]? with
      | none =>
          rw [get] at member
          cases member
      | some columns =>
          rw [get] at member
          exact filterColumnsDivisors_ne member
  | join join =>
      rw [stepDivisors] at member
      by_cases same : SameRelation join
      · rw [if_pos same] at member
        cases get : queryStats[join.participant1.rel]? with
        | none =>
            rw [get] at member
            cases member
        | some columns =>
            rw [get, Option.map_some, Option.getD_some] at member
            cases get1 : columns[join.participant1.numCol]? with
            | none =>
                rw [sameRelationDivisors, get1] at member
                cases member
            | some s1 =>
                cases get2 : columns[join.participant2.numCol]? with
                | none =>
                    rw [sameRelationDivisors, get1, get2] at member
                    cases member
                | some s2 =>
                    apply sameRelationDivisors_ne get1 get2 _ member
                    have overlap := overlaps same s1 s2 (by rw [statsOf, get]; exact get1)
                      (by rw [statsOf, ← same.1, get]; exact get2)
                    have isProper := common_proper (proper columns (List.mem_of_getElem? get) s1
                      (List.mem_of_getElem? get1)) overlap
                    rw [commonWidth, wrapSub_of_le overlap, Nat.mod_eq_of_lt isProper.small]
                    exact Nat.succ_ne_zero _
      · rw [if_neg same] at member
        cases member

theorem runStatsStep_division {step : StatsStep}
    {div : estimator.Double → estimator.Double → estimator.Double}
    (same : ∀ divisor ∈ stepDivisors queryStats step, estimator.Divides div divisor) :
    runStatsStep (estimator.withDivision div) queryStats step =
      runStatsStep estimator queryStats step := by
  cases step with
  | filter filter =>
      rw [runStatsStep, runStatsStep, runFilter, runFilter, updateStats, updateStats]
      cases get : queryStats[filter.participant.rel]? with
      | none => rfl
      | some columns =>
          rw [stepDivisors, get] at same
          rw [Option.bind_eq_bind, Option.bind_some, Option.bind_some,
            filterColumns_division same]
  | join join =>
      rw [runStatsStep, runStatsStep]
      by_cases isSame : SameRelation join
      · rw [stepDivisors, if_pos isSame] at same
        rw [if_pos isSame, if_pos isSame, updateStats, updateStats]
        cases get : queryStats[join.participant1.rel]? with
        | none => rfl
        | some columns =>
            rw [get] at same
            rw [Option.bind_eq_bind, Option.bind_some, Option.bind_some,
              sameRelationColumns_division same]
      · rw [if_neg isSame, if_neg isSame]

/-- The second column of a predicate gets the bounds of the common range even if there is none. -/
theorem overlaps_of_ordered {step : StatsStep}
    (ordered : ∀ after, runStatsStep estimator queryStats step = some after →
      ∀ columns ∈ after, ∀ s ∈ columns, s.minI ≤ s.maxU) : Overlaps queryStats step := by
  cases step with
  | filter filter => exact True.intro
  | join join =>
      intro same s1 s2 get1 get2
      rcases Option.bind_eq_some_iff.mp get1 with ⟨columns, get, get1⟩
      rw [statsOf, ← same.1, get, Option.bind_eq_bind, Option.bind_some] at get2
      have ran := updateStats_get get (@sameRelationColumns_eq estimator _ _ _ _ _ get1 get2)
      have inside := (List.getElem?_eq_some_iff.mp get).1
      have second : sameSecond estimator s1 s2 ∈ columns.mapIdx fun c other =>
          if c = join.participant1.numCol then sameFirst estimator s1 s2
          else if c = join.participant2.numCol then sameSecond estimator s1 s2
          else otherColumn estimator s1.numElements (sameFirst estimator s1 s2).numElements
            (sameFirst estimator s1 s2).numElements other := by
        apply List.mem_of_getElem? (i := join.participant2.numCol)
        rw [List.getElem?_mapIdx, get2, Option.map_some, if_neg (Ne.symm same.2), if_pos rfl]
      apply ordered _ _ _ (List.mem_set inside _) (sameSecond estimator s1 s2) second
      rw [runStatsStep, if_pos same]
      exact ran

end Steps

/-! ## Runs -/

section Whole

variable {estimator : Estimator} {relArr : List Relationsheep} {q : Query}

theorem ofColumns_spec (ofColumns : OfColumns q.queryStats) :
    AllRanges ProperRange q.queryStats ∧ HasWords q.queryStats := by
  constructor
  · intro columns isColumns s member
    rcases ofColumns columns isColumns s member with ⟨col, nonempty, small, filled⟩
    rcases fillStatsArray_holds nonempty small with ⟨found, isFound, isExtreme, _⟩
    rw [filled] at isFound
    cases isFound
    exact ⟨isExtreme.le, small s.minI isExtreme.minIn s.maxU isExtreme.maxIn⟩
  · intro columns isColumns s member
    rcases ofColumns columns isColumns s member with ⟨col, nonempty, small, filled⟩
    rcases fillStatsArray_holds nonempty small with
      ⟨found, isFound, isExtreme, isSpan, _, length, _⟩
    rw [filled] at isFound
    cases isFound
    have word := bitOf_inside isSpan (Nat.le_refl _) isExtreme.le
    rw [← length] at word
    exact List.ne_nil_of_length_pos (Nat.lt_of_le_of_lt (Nat.zero_le _) word)

/-- The run is safe exactly if the columns of every predicate between columns of one relation have
a common value in the state that the predicate finds. -/
theorem safeRun_iff (estimator : Estimator) (wellFormed : q.WellFormed relArr)
    (slots : q.priorities.length = q.numOfJoins) (ofColumns : OfColumns q.queryStats) :
    ∃ filtered, executeFilterPredicates estimator q = some filtered ∧
      StatsAfter estimator q (statsSteps q).length filtered.queryStats ∧
      (SafeRun estimator q ↔ ∀ k stats step, StatsAfter estimator q k stats →
        (statsSteps q)[k]? = some step → Overlaps stats step) := by
  rcases ofColumns_spec ofColumns with ⟨proper, words⟩
  rcases executeFilterPredicates_total estimator wellFormed words slots with ⟨filtered, ran⟩
  refine ⟨filtered, ran, executeFilterPredicates_steps ran, ?_, ?_⟩
  · intro safe k stats step reached get
    apply overlaps_of_ordered
    intro after ranStep
    exact safe.ordered (k + 1) after (statsAfter_succ reached get ranStep)
  · intro overlaps
    have allProper : ∀ k stats, StatsAfter estimator q k stats → AllRanges ProperRange stats := by
      intro k stats reached
      apply statsAfter_invariant (AllRanges ProperRange) proper _ reached
      intro k stats step after reached get isProper ranStep
      apply runStatsStep_range properRange_closed _ _ isProper ranStep
      · intro filter _
        exact properRange_point filter.value
      · intro join s1 s2 isJoin same get1 get2 proper1 _
        have overlap := overlaps k stats step reached get
        subst isJoin
        exact common_proper proper1 (overlap same s1 s2 get1 get2)
    constructor
    · intro k stats reached columns isColumns s member
      exact (allProper k stats reached columns isColumns s member).ordered
    · intro k stats step reached get divisor member
      exact stepDivisors_ne (allProper k stats reached) (overlaps k stats step reached get) member

theorem statsAfter_division {k : Nat} {stats : List (List Stats)}
    {div : estimator.Double → estimator.Double → estimator.Double}
    (same : ∀ divisor, divisor ≠ 0 → estimator.Divides div divisor)
    (safe : SafeRun estimator q) (reached : StatsAfter (estimator.withDivision div) q k stats) :
    StatsAfter estimator q k stats := by
  induction k generalizing stats with
  | zero => exact reached
  | succ k induction =>
      rcases statsAfter_pred reached with ⟨before, reachedBefore, ran⟩
      have reachedSame := induction reachedBefore
      cases get : (statsSteps q)[k]? with
      | none =>
          rw [get] at ran
          cases ran
          rwa [StatsAfter, List.take_add_one, get, Option.toList_none, List.append_nil]
      | some step =>
          rw [get] at ran
          rw [Option.elim_some, runStatsStep_division fun divisor member =>
            same divisor (safe.divisors k before step reachedSame get divisor member)] at ran
          exact statsAfter_succ reachedSame get ran

end Whole

theorem pair_rectangular (first second : Nat) :
    ∀ col ∈ [[first, first + 1], [second, second + 1]], col.length = 2 := by
  intro col member
  rcases List.mem_cons.mp member with rfl | member
  · rfl
  · cases List.mem_singleton.mp member
    rfl

def pairRelation (first second : Nat) : Relationsheep where
  rows := 2
  pointToCols := [[first, first + 1], [second, second + 1]]
  statsArray := [⟨first, first + 1, 2, 2, [3]⟩, ⟨second, second + 1, 2, 2, [3]⟩]
  rectangular := pair_rectangular first second

def pairQuery (first second : Nat) : Query where
  rels := [0]
  queryStats := [[⟨first, first + 1, 2, 2, [3]⟩, ⟨second, second + 1, 2, 2, [3]⟩]]
  filters := []
  joins := [⟨⟨0, 0, 0, 0, [first, first + 1], 2⟩, ⟨0, 1, 0, 1, [second, second + 1], 2⟩⟩]
  priorities := [noPriority]

theorem pairQuery_wellFormed (first second : Nat) :
    (pairQuery first second).WellFormed [pairRelation first second] where
  stats := by
    intro rel below
    cases Nat.lt_one_iff.mp below
    exact ⟨_, rfl, rfl, Nat.two_pos⟩
  filters := by
    intro filter member
    cases member
  joins := by
    intro join member
    cases List.mem_singleton.mp member
    exact ⟨⟨2, rfl, Nat.two_pos⟩, ⟨2, rfl, Nat.one_lt_two⟩⟩

theorem safeRun_iff_overlapping : ∃ filtered,
    executeFilterPredicates naturalEstimator (pairQuery 1 2) = some filtered ∧
      SafeRun naturalEstimator (pairQuery 1 2) := by
  have ofColumns : OfColumns (pairQuery 1 2).queryStats := by
    intro columns isColumns s member
    cases List.mem_singleton.mp isColumns
    rcases List.mem_cons.mp member with rfl | member
    · exact ⟨[1, 2], by decide, by decide, by decide⟩
    · cases List.mem_singleton.mp member
      exact ⟨[2, 3], by decide, by decide, by decide⟩
  rcases safeRun_iff naturalEstimator (pairQuery_wellFormed 1 2) rfl ofColumns with
    ⟨filtered, ran, _, safe⟩
  refine ⟨filtered, ran, safe.mpr ?_⟩
  intro k stats step reached get
  cases k with
  | zero =>
      cases reached
      cases get
      intro _ s1 s2 get1 get2
      cases get1
      cases get2
      decide
  | succ k => cases get

/-- The ranges 1..2 and 3..4 are adjacent: there is a division by zero, and the ranges of both
columns are 3..2 afterwards. -/
theorem safeRun_adjacent :
    (pairQuery 1 3).WellFormed [pairRelation 1 3] ∧
      fillStatsArray [1, 2] 2 = some ⟨1, 2, 2, 2, [3]⟩ ∧
      fillStatsArray [3, 4] 2 = some ⟨3, 4, 2, 2, [3]⟩ ∧
      stepDivisors (pairQuery 1 3).queryStats (.join (pairQuery 1 3).joins[0]) = [0, 2, 2] ∧
      ¬ SafeRun naturalEstimator (pairQuery 1 3) := by
  refine ⟨pairQuery_wellFormed 1 3, by decide, by decide, by decide, ?_⟩
  intro safe
  exact safe.divisors 0 _ (.join (pairQuery 1 3).joins[0]) statsAfter_zero rfl 0 (by decide) rfl

end JoinOperator.Planner
