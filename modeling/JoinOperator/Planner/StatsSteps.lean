import JoinOperator.Planner.FilteredQuery

/-! # Statistics from step to step

An iteration of either loop of `executeFilterPredicates` is a step. What all ranges have before a
step they have after it, if it holds for the ranges that the step makes.
-/

namespace JoinOperator.Planner

open Foundation RadixJoin

/-! ## Steps -/

/-- An iteration of the loop over the filters, or of the loop over the joins. -/
inductive StatsStep where
  | filter (filter : Filter)
  | join (join : Join)
  deriving DecidableEq, Repr

def statsSteps (q : Query) : List StatsStep :=
  q.filters.map StatsStep.filter ++ q.joins.map StatsStep.join

def runStatsStep (estimator : Estimator) (queryStats : List (List Stats)) :
    StatsStep → Option (List (List Stats))
  | .filter filter => runFilter estimator queryStats filter
  | .join join =>
      if SameRelation join then
        updateStats queryStats join.participant1.rel
          (sameRelationColumns estimator join.participant1.numCol join.participant2.numCol)
      else some queryStats

def StatsAfter (estimator : Estimator) (q : Query) (k : Nat) (stats : List (List Stats)) : Prop :=
  ((statsSteps q).take k).foldlM (runStatsStep estimator) q.queryStats = some stats

section Runs

variable {estimator : Estimator} {q : Query} {stats after : List (List Stats)} {step : StatsStep}

theorem statsAfter_zero : StatsAfter estimator q 0 q.queryStats := rfl

theorem statsAfter_succ {k : Nat} (reached : StatsAfter estimator q k stats)
    (get : (statsSteps q)[k]? = some step) (ran : runStatsStep estimator stats step = some after) :
    StatsAfter estimator q (k + 1) after := by
  rw [StatsAfter, List.take_add_one, get, List.foldlM_append, reached]
  simp [ran]

theorem statsAfter_pred {k : Nat} (reached : StatsAfter estimator q (k + 1) stats) :
    ∃ before, StatsAfter estimator q k before ∧
      (statsSteps q)[k]?.elim (some before) (runStatsStep estimator before) = some stats := by
  rw [StatsAfter, List.take_add_one, List.foldlM_append] at reached
  rcases Option.bind_eq_some_iff.mp reached with ⟨before, reachedBefore, ran⟩
  refine ⟨before, reachedBefore, ?_⟩
  rw [← ran]
  cases (statsSteps q)[k]? with
  | none => rfl
  | some step => simp

/-- What the statistics have first and each iteration keeps, they always have. -/
theorem statsAfter_invariant (Invariant : List (List Stats) → Prop)
    (holds : Invariant q.queryStats)
    (kept : ∀ k stats step after, StatsAfter estimator q k stats →
      (statsSteps q)[k]? = some step → Invariant stats →
      runStatsStep estimator stats step = some after → Invariant after)
    {k : Nat} (reached : StatsAfter estimator q k stats) : Invariant stats := by
  induction k generalizing stats with
  | zero =>
      cases reached
      exact holds
  | succ k induction =>
      rcases statsAfter_pred reached with ⟨before, reachedBefore, ran⟩
      cases get : (statsSteps q)[k]? with
      | none =>
          rw [get] at ran
          cases ran
          exact induction reachedBefore
      | some step =>
          rw [get] at ran
          exact kept k before step stats reachedBefore get (induction reachedBefore) ran

theorem runSameRelation_steps {queryStats : List (List Stats)} {priorities : List Nat}
    {final : JoinFilters} (ran : (List.range q.numOfJoins).foldlM
      (runSameRelation estimator q.joins) ⟨queryStats, priorities, 0⟩ = some final) :
    (q.joins.map StatsStep.join).foldlM (runStatsStep estimator) queryStats =
      some final.queryStats := by
  have invariant : ((q.joins.take (0 + q.numOfJoins)).map StatsStep.join).foldlM
      (runStatsStep estimator) queryStats = some final.queryStats := by
    rw [List.range_eq_range'] at ran
    apply foldlM_range'_some_invariant (fun i (state : JoinFilters) =>
      ((q.joins.take i).map StatsStep.join).foldlM (runStatsStep estimator) queryStats =
        some state.queryStats) _ _ ran
    · rfl
    · intro i _ state next holds stepped
      rcases Option.bind_eq_some_iff.mp stepped with ⟨join, getJoin, stepped⟩
      rw [List.take_add_one, getJoin, List.map_append, List.foldlM_append, holds]
      simp only [Option.toList_some, List.map_cons, List.map_nil, List.foldlM_cons,
        List.foldlM_nil, Option.bind_eq_bind, Option.pure_def, Option.bind_some,
        Option.bind_fun_some, runStatsStep]
      by_cases same : SameRelation join
      · rw [if_pos same] at stepped ⊢
        rcases Option.bind_eq_some_iff.mp stepped with ⟨written, _, stepped⟩
        rcases Option.bind_eq_some_iff.mp stepped with ⟨stats, updated, stepped⟩
        cases stepped
        exact updated
      · rw [if_neg same] at stepped ⊢
        cases stepped
        rfl
  rwa [Nat.zero_add, Query.numOfJoins, List.take_length] at invariant

theorem executeFilterPredicates_steps {filtered : Query}
    (ran : executeFilterPredicates estimator q = some filtered) :
    StatsAfter estimator q (statsSteps q).length filtered.queryStats := by
  rcases Option.bind_eq_some_iff.mp ran with ⟨queryStats, ranFilters, ran⟩
  rcases Option.bind_eq_some_iff.mp ran with ⟨state, ranJoins, ran⟩
  cases ran
  have filters : (q.filters.map StatsStep.filter).foldlM (runStatsStep estimator) q.queryStats =
      some queryStats := by
    rw [List.foldlM_map]
    exact ranFilters
  rw [StatsAfter, List.take_length, statsSteps, List.foldlM_append, filters, Option.bind_eq_bind,
    Option.bind_some]
  exact runSameRelation_steps ranJoins

end Runs

/-! ## Ranges -/

/-- A property of ranges, from `minI` to `maxU`, that remains when one end moves inwards. -/
structure RangeClosed (P : Nat → Nat → Prop) : Prop where
  zero : P 0 0
  lower : ∀ {minI maxU k1}, P minI maxU → minI < k1 → k1 ≤ maxU → P k1 maxU
  upper : ∀ {minI maxU k2}, P minI maxU → minI ≤ k2 → k2 < maxU → P minI k2

def AllRanges (P : Nat → Nat → Prop) (queryStats : List (List Stats)) : Prop :=
  ∀ columns ∈ queryStats, ∀ s ∈ columns, P s.minI s.maxU

section Ranges

variable {P : Nat → Nat → Prop} {estimator : Estimator} {s s1 s2 : Stats}
  {columns changed : List Stats} {queryStats after : List (List Stats)}

theorem otherColumn_range (closed : RangeClosed P) (range : P s.minI s.maxU)
    (old new rows : Nat) : P (otherColumn estimator old new rows s).minI
      (otherColumn estimator old new rows s).maxU := by
  rw [otherColumn]
  split
  · exact closed.zero
  · exact range

theorem lessStats_range (closed : RangeClosed P) (range : P s.minI s.maxU) (value : Nat) :
    P (lessStats estimator value s).minI (lessStats estimator value s).maxU := by
  simp only [lessStats]
  split_ifs with below outside lowest empty
  · exact closed.zero
  · exact closed.zero
  · exact closed.upper range (Nat.le_of_eq lowest.symm) below
  · exact closed.upper range (Nat.not_lt.mp outside) below
  · exact range

theorem greaterStats_range (closed : RangeClosed P) (range : P s.minI s.maxU) (value : Nat) :
    P (greaterStats estimator value s).minI (greaterStats estimator value s).maxU := by
  simp only [greaterStats]
  split_ifs with above outside highest empty
  · exact closed.zero
  · exact closed.zero
  · exact closed.lower range above (Nat.le_of_eq highest)
  · exact closed.lower range above (Nat.not_lt.mp outside)
  · exact range

theorem equalStats_range {value : Nat} {filtered : Stats} (point : P value value)
    (ran : equalStats estimator value s = some filtered) : P filtered.minI filtered.maxU := by
  rcases Option.bind_eq_some_iff.mp ran with ⟨occurs, _, ran⟩
  cases ran
  split_ifs
  all_goals exact point

theorem filterStats_range {filter : Filter} {filtered : Stats} (closed : RangeClosed P)
    (point : P filter.value filter.value) (range : P s.minI s.maxU)
    (ran : filterStats estimator filter s = some filtered) : P filtered.minI filtered.maxU := by
  rw [filterStats] at ran
  cases op : filter.op with
  | less =>
      rw [op] at ran
      cases ran
      exact lessStats_range closed range filter.value
  | greater =>
      rw [op] at ran
      cases ran
      exact greaterStats_range closed range filter.value
  | equal =>
      rw [op] at ran
      exact equalStats_range point ran

theorem filterColumns_range {filter : Filter} (closed : RangeClosed P)
    (point : P filter.value filter.value) (ranges : ∀ s ∈ columns, P s.minI s.maxU)
    (ran : filterColumns estimator filter columns = some changed) :
    ∀ s ∈ changed, P s.minI s.maxU := by
  rcases Option.bind_eq_some_iff.mp ran with ⟨s, get, ran⟩
  rcases Option.bind_eq_some_iff.mp ran with ⟨filtered, isFiltered, ran⟩
  cases ran
  intro other member
  rcases List.mem_mapIdx.mp member with ⟨c, inside, rfl⟩
  split
  · exact filterStats_range closed point (ranges s (List.mem_of_getElem? get)) isFiltered
  · exact otherColumn_range closed (ranges _ (List.getElem_mem inside)) _ _ _

theorem sameFirst_range (closed : RangeClosed P)
    (common : P (largerMin s1 s2) (smallerMax s1 s2)) :
    P (sameFirst estimator s1 s2).minI (sameFirst estimator s1 s2).maxU := by
  rw [sameFirst]
  split
  · exact closed.zero
  · exact common

theorem sameRelationColumns_range {col1 col2 : Nat} (closed : RangeClosed P)
    (ranges : ∀ s ∈ columns, P s.minI s.maxU)
    (get1 : columns[col1]? = some s1) (get2 : columns[col2]? = some s2)
    (common : P (largerMin s1 s2) (smallerMax s1 s2))
    (ran : sameRelationColumns estimator col1 col2 columns = some changed) :
    ∀ s ∈ changed, P s.minI s.maxU := by
  rw [sameRelationColumns_eq get1 get2] at ran
  cases ran
  intro other member
  rcases List.mem_mapIdx.mp member with ⟨c, inside, rfl⟩
  split
  · exact sameFirst_range closed common
  · split
    · exact common
    · exact otherColumn_range closed (ranges _ (List.getElem_mem inside)) _ _ _

theorem updateStats_range {rel : Nat} {change : List Stats → Option (List Stats)}
    (ranges : AllRanges P queryStats)
    (kept : ∀ columns changed, queryStats[rel]? = some columns → change columns = some changed →
      ∀ s ∈ changed, P s.minI s.maxU)
    (ran : updateStats queryStats rel change = some after) : AllRanges P after := by
  rcases Option.bind_eq_some_iff.mp ran with ⟨columns, get, ran⟩
  rcases Option.bind_eq_some_iff.mp ran with ⟨changed, isChanged, ran⟩
  cases ran
  intro other member
  cases List.mem_or_eq_of_mem_set member with
  | inl isOld => exact ranges other isOld
  | inr isNew =>
      subst isNew
      exact kept columns other get isChanged

/-- The step lemma: a range that is new is that of a filter for one value, or is common to two
columns. -/
theorem runStatsStep_range {step : StatsStep} (closed : RangeClosed P)
    (point : ∀ filter, step = .filter filter → P filter.value filter.value)
    (common : ∀ join s1 s2, step = .join join → SameRelation join →
      statsOf queryStats join.participant1 = some s1 →
      statsOf queryStats join.participant2 = some s2 → P s1.minI s1.maxU → P s2.minI s2.maxU →
      P (largerMin s1 s2) (smallerMax s1 s2))
    (ranges : AllRanges P queryStats)
    (ran : runStatsStep estimator queryStats step = some after) : AllRanges P after := by
  cases step with
  | filter filter =>
      apply updateStats_range ranges _ ran
      intro columns changed get isChanged
      exact filterColumns_range closed (point filter rfl)
        (ranges columns (List.mem_of_getElem? get)) isChanged
  | join join =>
      rw [runStatsStep] at ran
      by_cases same : SameRelation join
      · rw [if_pos same] at ran
        apply updateStats_range ranges _ ran
        intro columns changed get isChanged
        rcases Option.bind_eq_some_iff.mp isChanged with ⟨s1, get1, rest⟩
        rcases Option.bind_eq_some_iff.mp rest with ⟨s2, get2, _⟩
        have inColumns := ranges columns (List.mem_of_getElem? get)
        apply sameRelationColumns_range closed inColumns get1 get2 _ isChanged
        apply common join s1 s2 rfl same
        · rw [statsOf, get]
          exact get1
        · rw [statsOf, ← same.1, get]
          exact get2
        · exact inColumns s1 (List.mem_of_getElem? get1)
        · exact inColumns s2 (List.mem_of_getElem? get2)
      · rw [if_neg same] at ran
        cases ran
        exact ranges

theorem largerMin_ge (s1 s2 : Stats) : s1.minI ≤ largerMin s1 s2 ∧ s2.minI ≤ largerMin s1 s2 := by
  rw [largerMin]
  split <;> omega

theorem smallerMax_le (s1 s2 : Stats) :
    smallerMax s1 s2 ≤ s1.maxU ∧ smallerMax s1 s2 ≤ s2.maxU := by
  rw [smallerMax]
  split <;> omega

end Ranges

end JoinOperator.Planner
