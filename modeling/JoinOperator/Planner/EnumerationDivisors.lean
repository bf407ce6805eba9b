import JoinOperator.Planner.ConnectedSubsets
import JoinOperator.Planner.PlanDivisors

/-! # Whether the enumeration divides by zero

The calls of `CreateJoinTree` are those that the loops make in the tables that they reach.
-/

namespace JoinOperator.Planner

open Foundation RadixJoin

/-! ## Calls -/

/-- The call in the iteration for the set `comb` and the relation `r`. -/
def joinCall (joinGraph : Graph) (hashTree : HashTree) (comb : List Char) (r : Nat) :
    Option JoinCall :=
  if existsInComb comb r then none
  else do
    let found ← areConnected joinGraph r comb
    let (connection, columns) ← found
    let slot ← hashTree[combToIndex comb]?
    let ht1 ← slot
    let ht2 ← hashTree[1 <<< r]?.join
    some ⟨ht1, ht2, comb ++ decimal r, connection, columns⟩

def numCombs (numRels size : Nat) : Nat :=
  factorial numRels / (factorial size * factorial (numRels - size) % 2 ^ 64)

def enumerateComb (estimator : Estimator) (numRels : Nat) (joinGraph : Graph) (size : Nat)
    (hashTree : HashTree) (s : Nat) : Option HashTree := do
  let comb ← (getCombination numRels size)[s]?
  (List.range numRels).foldlM (extendPlan estimator joinGraph comb) hashTree

def tableAt (estimator : Estimator) (numRels : Nat) (joinGraph : Graph) (start : HashTree)
    (size s r : Nat) : Option HashTree := do
  let before ← (List.range' 1 (size - 1)).foldlM (enumerateSize estimator numRels joinGraph) start
  let between ← (List.range s).foldlM (enumerateComb estimator numRels joinGraph size) before
  let comb ← (getCombination numRels size)[s]?
  (List.range r).foldlM (extendPlan estimator joinGraph comb) between

def callAt (estimator : Estimator) (numRels : Nat) (joinGraph : Graph) (start : HashTree)
    (size s r : Nat) : Option JoinCall := do
  let table ← tableAt estimator numRels joinGraph start size s r
  let comb ← (getCombination numRels size)[s]?
  joinCall joinGraph table comb r

def calls (estimator : Estimator) (numRels : Nat) (joinGraph : Graph) (start : HashTree) :
    List JoinCall :=
  (List.range' 1 (numRels - 1)).flatMap fun size =>
    if (getCombination numRels size).length > numCombs numRels size then []
    else (List.range (numCombs numRels size)).flatMap fun s =>
      (List.range numRels).filterMap fun r =>
        callAt estimator numRels joinGraph start size s r

def callsOf (estimator : Estimator) (q : Query) (relArr : List Relationsheep) :
    Option (List JoinCall) := do
  let filtered ← executeFilterPredicates estimator q
  let joinGraph ← constructGraph (initialiseGraph filtered.numOfRels) filtered
  let hashTree ← initialiseHashTree (2 ^ filtered.numOfRels) filtered relArr
  some (calls estimator filtered.numOfRels joinGraph hashTree)

section Calls

variable {estimator : Estimator} {joinGraph : Graph} {hashTree after : HashTree}
  {comb : List Char} {r : Nat} {call : JoinCall}

theorem enumerateSize_loop (numRels size : Nat) :
    enumerateSize estimator numRels joinGraph hashTree size =
      if (getCombination numRels size).length > numCombs numRels size then none
      else (List.range (numCombs numRels size)).foldlM
        (enumerateComb estimator numRels joinGraph size) hashTree := rfl

theorem extendPlan_of_call (isCall : joinCall joinGraph hashTree comb r = some call) :
    extendPlan estimator joinGraph comb hashTree r =
      (call.run estimator).bind (keepCheaper hashTree (combToIndex call.newComb)) := by
  rw [joinCall] at isCall
  rw [extendPlan]
  split at isCall
  · cases isCall
  · rename_i absent
    rcases Option.bind_eq_some_iff.mp isCall with ⟨found, isFound, isCall⟩
    rcases Option.bind_eq_some_iff.mp isCall with ⟨⟨connection, columns⟩, isSome, isCall⟩
    rcases Option.bind_eq_some_iff.mp isCall with ⟨slot, isSlot, isCall⟩
    rcases Option.bind_eq_some_iff.mp isCall with ⟨ht1, isNode, isCall⟩
    rcases Option.bind_eq_some_iff.mp isCall with ⟨ht2, isSingle, isCall⟩
    cases isCall
    subst isSome isNode
    rw [if_neg absent]
    simp only [isFound, isSlot, isSingle, Option.bind_eq_bind, Option.bind_some, JoinCall.run]

theorem extendPlan_of_none (isCall : joinCall joinGraph hashTree comb r = none) :
    ∃ outcome, (outcome = some hashTree ∨ outcome = none) ∧
      ∀ estimator : Estimator, extendPlan estimator joinGraph comb hashTree r = outcome := by
  rw [joinCall] at isCall
  simp only [extendPlan]
  split
  · exact ⟨some hashTree, .inl rfl, fun _ => rfl⟩
  · rename_i absent
    rw [if_neg absent] at isCall
    cases isFound : areConnected joinGraph r comb with
    | none => exact ⟨none, .inr rfl, fun _ => rfl⟩
    | some found =>
        cases found with
        | none => exact ⟨some hashTree, .inl rfl, fun _ => rfl⟩
        | some pair =>
            rcases pair with ⟨connection, columns⟩
            cases isSlot : hashTree[combToIndex comb]? with
            | none => exact ⟨none, .inr rfl, fun _ => rfl⟩
            | some slot =>
                cases slot with
                | none => exact ⟨some hashTree, .inl rfl, fun _ => rfl⟩
                | some ht1 =>
                    cases isSingle : hashTree[1 <<< r]?.join with
                    | none => exact ⟨none, .inr rfl, fun _ => rfl⟩
                    | some ht2 => simp [isFound, isSlot, isSingle] at isCall

theorem mem_calls {numRels : Nat} {start : HashTree}
    (member : call ∈ calls estimator numRels joinGraph start) :
    ∃ size s r, callAt estimator numRels joinGraph start size s r = some call := by
  rcases List.mem_flatMap.mp member with ⟨size, _, member⟩
  split at member
  · cases member
  · rcases List.mem_flatMap.mp member with ⟨s, _, member⟩
    rcases List.mem_filterMap.mp member with ⟨r, _, isCall⟩
    exact ⟨size, s, r, isCall⟩

theorem calls_mem {numRels size s r : Nat} {start : HashTree} (least : 1 ≤ size)
    (greatest : size < 1 + (numRels - 1))
    (fits : ¬ (getCombination numRels size).length > numCombs numRels size)
    (isComb : s < numCombs numRels size) (isRel : r < numRels)
    (isCall : callAt estimator numRels joinGraph start size s r = some call) :
    call ∈ calls estimator numRels joinGraph start := by
  apply List.mem_flatMap.mpr
  refine ⟨size, List.mem_range'_1.mpr ⟨least, greatest⟩, ?_⟩
  rw [if_neg fits]
  apply List.mem_flatMap.mpr
  refine ⟨s, List.mem_range.mpr isComb, ?_⟩
  exact List.mem_filterMap.mpr ⟨r, List.mem_range.mpr isRel, isCall⟩

end Calls

/-! ## Ranges of the plans -/

def NodeRanges (P : Nat → Nat → Prop) (node : HTNode) : Prop :=
  ∀ statistics ∈ node.htstats, ∀ s ∈ statistics.relStats, P s.minI s.maxU

def TableRanges (P : Nat → Nat → Prop) (hashTree : HashTree) : Prop :=
  ∀ node, some node ∈ hashTree → NodeRanges P node

/-- A property of ranges that remains when two columns keep what they have in common. -/
structure RangeMeets (P : Nat → Nat → Prop) : Prop extends RangeClosed P where
  meets : ∀ {a b : Stats}, P a.minI a.maxU → P b.minI b.maxU → P (largerMin a b) (smallerMax a b)

section Ranges

variable {P : Nat → Nat → Prop} {estimator : Estimator} {q : Query}
  {relArr : List Relationsheep} {joinGraph : Graph} {hashTree after : HashTree}
  {statistics statA statB : HTStats} {s a b : Stats} {k1 k2 col : Nat} {columns : List Stats}
  {call : JoinCall} {node : HTNode}

theorem initialiseHTNode_ranges {rel numCols : Nat} (ranges : AllRanges P q.queryStats)
    (isNode : initialiseHTNode q rel numCols = some node) : NodeRanges P node := by
  rcases Option.bind_eq_some_iff.mp isNode with ⟨columns, get, isNode⟩
  rcases Option.bind_eq_some_iff.mp isNode with ⟨relStats, copied, isNode⟩
  rcases Option.bind_eq_some_iff.mp isNode with ⟨first, _, isNode⟩
  cases isNode
  intro statistics isStatistics s member
  cases List.mem_singleton.mp isStatistics
  rcases mem_of_mapM copied member with ⟨c, _, isColumn⟩
  exact ranges columns (List.mem_of_getElem? get) s (List.mem_of_getElem? isColumn)

theorem write_ranges {index : Nat} (ranges : TableRanges P hashTree) (new : NodeRanges P node)
    (written : write hashTree index (some node) = some after) : TableRanges P after := by
  rw [write] at written
  split at written
  · cases written
    intro other member
    cases List.mem_or_eq_of_mem_set member with
    | inl isOld => exact ranges other isOld
    | inr isNew =>
        cases isNew
        exact new
  · cases written

theorem initialiseHashTree_ranges {size : Nat} (ranges : AllRanges P q.queryStats)
    (isTree : initialiseHashTree size q relArr = some hashTree) : TableRanges P hashTree := by
  apply foldlM_some_invariant (TableRanges P) _ _ isTree
  · intro i _ table next holds stepped
    rcases Option.bind_eq_some_iff.mp stepped with ⟨rel, _, stepped⟩
    rcases Option.bind_eq_some_iff.mp stepped with ⟨relation, _, stepped⟩
    rcases Option.bind_eq_some_iff.mp stepped with ⟨node, isNode, written⟩
    exact write_ranges holds (initialiseHTNode_ranges ranges isNode) written
  · intro node member
    cases List.eq_of_mem_replicate member

theorem filteredColumns_ranges (closed : RangeClosed P) (range : k1 ≤ k2 → P k1 k2)
    (ranges : ∀ s ∈ columns, P s.minI s.maxU) :
    ∀ other ∈ filteredColumns estimator k1 k2 col s columns, P other.minI other.maxU := by
  intro other member
  rw [filteredColumns] at member
  split at member
  · rcases List.mem_map.mp member with ⟨old, _, rfl⟩
    exact closed.zero
  · rename_i ordered
    have isRange := range (Nat.not_lt.mp ordered)
    rcases List.mem_mapIdx.mp member with ⟨c, inside, rfl⟩
    split
    · rw [filteredColumn, if_neg ordered]
      split
      · rename_i single
        rw [← single] at isRange
        exact isRange
      · exact isRange
    · exact otherColumn_range closed (ranges _ (List.getElem_mem inside)) _ _ _

theorem join_ranges {colA colB : Nat} {joined : HTStats × HTStats} (closed : RangeClosed P)
    (rangesA : ∀ s ∈ statA.relStats, P s.minI s.maxU)
    (rangesB : ∀ s ∈ statB.relStats, P s.minI s.maxU)
    (ran : join estimator statA statB colA colB = some joined) :
    (∀ s ∈ joined.1.relStats, P s.minI s.maxU) ∧ ∀ s ∈ joined.2.relStats, P s.minI s.maxU := by
  rcases Option.bind_eq_some_iff.mp ran with ⟨a, getA, rest⟩
  rcases Option.bind_eq_some_iff.mp rest with ⟨b, getB, _⟩
  rw [join_eq getA getB] at ran
  cases ran
  constructor
  · intro s member
    rcases List.mem_mapIdx.mp member with ⟨c, inside, rfl⟩
    split
    · exact rangesA a (List.mem_of_getElem? getA)
    · exact otherColumn_range closed (rangesA _ (List.getElem_mem inside)) _ _ _
  · intro s member
    rcases List.mem_mapIdx.mp member with ⟨c, inside, rfl⟩
    split
    · exact rangesB b (List.mem_of_getElem? getB)
    · exact otherColumn_range closed (rangesB _ (List.getElem_mem inside)) _ _ _

theorem otherRelations_ranges {htstats : List HTStats} {partA old new rows : Nat}
    (closed : RangeClosed P) (rangesA : ∀ s ∈ statA.relStats, P s.minI s.maxU)
    (ranges : ∀ statistics ∈ htstats, ∀ s ∈ statistics.relStats, P s.minI s.maxU) :
    ∀ statistics ∈ otherRelations estimator htstats partA statA old new rows,
      ∀ s ∈ statistics.relStats, P s.minI s.maxU := by
  intro statistics member s isColumn
  rcases List.mem_mapIdx.mp member with ⟨r, inside, rfl⟩
  split at isColumn
  · exact rangesA s isColumn
  · rcases List.mem_map.mp isColumn with ⟨other, isOther, rfl⟩
    exact otherColumn_range closed (ranges _ (List.getElem_mem inside) other isOther) _ _ _

theorem run_ranges (closed : RangeMeets P) (ranges1 : NodeRanges P call.ht1)
    (ranges2 : NodeRanges P call.ht2) (ran : call.run estimator = some node) :
    NodeRanges P node := by
  cases isJoined : call.joined with
  | none =>
      rw [JoinCall.run_of_none isJoined] at ran
      cases ran
  | some pair =>
      rcases pair with ⟨a, b⟩
      rcases JoinCall.joined_spec isJoined with ⟨statA, statB, isA, isB, getA, getB⟩
      have copied : ∀ statistics ∈ call.copied, ∀ s ∈ statistics.relStats, P s.minI s.maxU :=
        fun statistics member => ranges1 statistics (List.mem_of_mem_take member)
      have columnsA := copied statA (List.mem_of_getElem? isA)
      have columnsB := ranges2 statB (List.mem_of_getElem? isB)
      have common : P (largerMin a b) (smallerMax a b) := closed.meets
        (columnsA a (List.mem_of_getElem? getA)) (columnsB b (List.mem_of_getElem? getB))
      have filteredA : ∀ s ∈ (filteredRelation estimator a b a call.columns.col1 statA).relStats,
          P s.minI s.maxU :=
        filteredColumns_ranges closed.toRangeClosed (fun _ => common) columnsA
      have filteredB : ∀ s ∈ (filteredRelation estimator a b b call.columns.col2 statB).relStats,
          P s.minI s.maxU :=
        filteredColumns_ranges closed.toRangeClosed (fun _ => common) columnsB
      rw [JoinCall.run_eq isA isB getA getB] at ran
      split at ran
      · cases ran
      · rcases Option.bind_eq_some_iff.mp ran with ⟨joined, ranJoin, ran⟩
        rcases Option.bind_eq_some_iff.mp ran with ⟨jA, _, ran⟩
        cases ran
        have afterJoin := join_ranges closed.toRangeClosed filteredA filteredB ranJoin
        intro statistics member
        cases List.mem_append.mp member with
        | inl isOld =>
            apply otherRelations_ranges closed.toRangeClosed afterJoin.1 _ statistics isOld
            exact otherRelations_ranges closed.toRangeClosed filteredA copied
        | inr isNew =>
            cases List.mem_singleton.mp isNew
            exact afterJoin.2

theorem joinCall_ranges {comb : List Char} {r : Nat} (ranges : TableRanges P hashTree)
    (isCall : joinCall joinGraph hashTree comb r = some call) :
    NodeRanges P call.ht1 ∧ NodeRanges P call.ht2 := by
  rw [joinCall] at isCall
  split at isCall
  · cases isCall
  · rcases Option.bind_eq_some_iff.mp isCall with ⟨found, _, isCall⟩
    rcases Option.bind_eq_some_iff.mp isCall with ⟨⟨connection, columns⟩, _, isCall⟩
    rcases Option.bind_eq_some_iff.mp isCall with ⟨slot, isSlot, isCall⟩
    rcases Option.bind_eq_some_iff.mp isCall with ⟨ht1, isNode, isCall⟩
    rcases Option.bind_eq_some_iff.mp isCall with ⟨ht2, isSingle, isCall⟩
    cases isCall
    subst isNode
    constructor
    · exact ranges ht1 (List.mem_of_getElem? isSlot)
    · exact ranges ht2 (List.mem_of_getElem? (Option.join_eq_some_iff.mp isSingle))

theorem extendPlan_ranges {comb : List Char} {r : Nat} (closed : RangeMeets P)
    (ranges : TableRanges P hashTree)
    (ran : extendPlan estimator joinGraph comb hashTree r = some after) :
    TableRanges P after := by
  cases isCall : joinCall joinGraph hashTree comb r with
  | none =>
      rcases extendPlan_of_none isCall with ⟨outcome, isOutcome, same⟩
      rw [same estimator] at ran
      cases isOutcome with
      | inl isSame =>
          rw [isSame] at ran
          cases ran
          exact ranges
      | inr isNone =>
          rw [isNone] at ran
          cases ran
  | some call =>
      rw [extendPlan_of_call isCall] at ran
      rcases Option.bind_eq_some_iff.mp ran with ⟨node, ranCall, ran⟩
      rcases joinCall_ranges ranges isCall with ⟨ranges1, ranges2⟩
      have new := run_ranges closed ranges1 ranges2 ranCall
      rcases Option.bind_eq_some_iff.mp ran with ⟨slot, _, kept⟩
      cases slot with
      | none => exact write_ranges ranges new kept
      | some old =>
          simp only at kept
          split at kept
          · exact write_ranges ranges new kept
          · cases kept
            exact ranges

theorem enumerateComb_ranges {numRels size s : Nat} (closed : RangeMeets P)
    (ranges : TableRanges P hashTree)
    (ran : enumerateComb estimator numRels joinGraph size hashTree s = some after) :
    TableRanges P after := by
  rcases Option.bind_eq_some_iff.mp ran with ⟨comb, _, ran⟩
  apply foldlM_some_invariant (TableRanges P) _ ranges ran
  intro r _ table next holds stepped
  exact extendPlan_ranges closed holds stepped

theorem enumerateSize_ranges {numRels size : Nat} (closed : RangeMeets P)
    (ranges : TableRanges P hashTree)
    (ran : enumerateSize estimator numRels joinGraph hashTree size = some after) :
    TableRanges P after := by
  rw [enumerateSize_loop] at ran
  split at ran
  · cases ran
  · apply foldlM_some_invariant (TableRanges P) _ ranges ran
    intro s _ table next holds stepped
    exact enumerateComb_ranges closed holds stepped

theorem tableAt_ranges {numRels size s r : Nat} (closed : RangeMeets P)
    (ranges : TableRanges P hashTree)
    (ran : tableAt estimator numRels joinGraph hashTree size s r = some after) :
    TableRanges P after := by
  rcases Option.bind_eq_some_iff.mp ran with ⟨before, ranSizes, ran⟩
  rcases Option.bind_eq_some_iff.mp ran with ⟨between, ranCombs, ran⟩
  rcases Option.bind_eq_some_iff.mp ran with ⟨comb, _, ran⟩
  have beforeRanges : TableRanges P before := by
    apply foldlM_some_invariant (TableRanges P) _ ranges ranSizes
    intro size _ table next holds stepped
    exact enumerateSize_ranges closed holds stepped
  have betweenRanges : TableRanges P between := by
    apply foldlM_some_invariant (TableRanges P) _ beforeRanges ranCombs
    intro s _ table next holds stepped
    exact enumerateComb_ranges closed holds stepped
  apply foldlM_some_invariant (TableRanges P) _ betweenRanges ran
  intro r _ table next holds stepped
  exact extendPlan_ranges closed holds stepped

theorem executeFilterPredicates_ranges {filtered : Query} (closed : RangeMeets P)
    (point : ∀ filter ∈ q.filters, P filter.value filter.value)
    (ranges : AllRanges P q.queryStats)
    (ran : executeFilterPredicates estimator q = some filtered) :
    AllRanges P filtered.queryStats := by
  apply statsAfter_invariant (AllRanges P) ranges _ (executeFilterPredicates_steps ran)
  intro k stats step after _ get holds ranStep
  apply runStatsStep_range closed.toRangeClosed _ _ holds ranStep
  · intro filter isFilter
    subst isFilter
    have member := List.mem_of_getElem? get
    rw [statsSteps, List.mem_append, List.mem_map, List.mem_map] at member
    rcases member with ⟨other, isMember, same⟩ | ⟨join, _, different⟩
    · cases same
      exact point filter isMember
    · cases different
  · intro join s1 s2 _ _ _ _ range1 range2
    exact closed.meets range1 range2

theorem calls_ranges {numRels : Nat} (closed : RangeMeets P) (ranges : TableRanges P hashTree)
    (isCall : call ∈ calls estimator numRels joinGraph hashTree)
    (isJoined : call.joined = some (a, b)) : P a.minI a.maxU ∧ P b.minI b.maxU := by
  rcases mem_calls isCall with ⟨size, s, r, found⟩
  rcases Option.bind_eq_some_iff.mp found with ⟨table, isTable, found⟩
  rcases Option.bind_eq_some_iff.mp found with ⟨comb, _, found⟩
  rcases joinCall_ranges (tableAt_ranges closed ranges isTable) found with ⟨ranges1, ranges2⟩
  rcases JoinCall.joined_spec isJoined with ⟨statA, statB, isA, isB, getA, getB⟩
  have inA := List.mem_of_mem_take (List.mem_of_getElem? isA)
  exact ⟨ranges1 statA inA a (List.mem_of_getElem? getA),
    ranges2 statB (List.mem_of_getElem? isB) b (List.mem_of_getElem? getB)⟩

/-- The run lemma: what the ranges of the query have, those of all columns that are joined have. -/
theorem callsOf_ranges {made : List JoinCall} (closed : RangeMeets P)
    (point : ∀ filter ∈ q.filters, P filter.value filter.value)
    (ranges : AllRanges P q.queryStats) (isMade : callsOf estimator q relArr = some made)
    (isCall : call ∈ made) (isJoined : call.joined = some (a, b)) :
    P a.minI a.maxU ∧ P b.minI b.maxU := by
  rcases Option.bind_eq_some_iff.mp isMade with ⟨filtered, ranFilters, isMade⟩
  rcases Option.bind_eq_some_iff.mp isMade with ⟨joinGraph, _, isMade⟩
  rcases Option.bind_eq_some_iff.mp isMade with ⟨hashTree, isTree, isMade⟩
  cases isMade
  have tree := initialiseHashTree_ranges
    (executeFilterPredicates_ranges closed point ranges ranFilters) isTree
  exact calls_ranges closed tree isCall isJoined

end Ranges

/-! ## Divisions -/

structure WordRange (minI maxU : Nat) : Prop where
  low : minI < 2 ^ 64
  high : maxU < 2 ^ 64

theorem wordRange_meets : RangeMeets WordRange where
  zero := ⟨by omega, by omega⟩
  lower := fun words _ inside => ⟨Nat.lt_of_le_of_lt inside words.high, words.high⟩
  upper := fun words _ below => ⟨words.low, Nat.lt_trans below words.high⟩
  meets := by
    intro a b wordsA wordsB
    constructor
    · rw [largerMin]
      split
      · exact wordsA.low
      · exact wordsB.low
    · exact Nat.lt_of_le_of_lt (smallerMax_le a b).1 wordsA.high

def SmallRange (minI maxU : Nat) : Prop := maxU - minI + 1 < 2 ^ 64

theorem smallRange_meets : RangeMeets SmallRange where
  zero := by
    rw [SmallRange]
    omega
  lower := by
    intro minI maxU k1 small above inside
    rw [SmallRange] at *
    omega
  upper := by
    intro minI maxU k2 small inside below
    rw [SmallRange] at *
    omega
  meets := by
    intro a b small _
    have least := (largerMin_ge a b).1
    have greatest := (smallerMax_le a b).1
    rw [SmallRange] at *
    omega

section Divisions

variable {estimator : Estimator} {relArr : List Relationsheep} {q : Query}
  {joinGraph : Graph} {hashTree : HashTree} {call : JoinCall} {a b : Stats}

/-- The enumeration divides by positive numbers exactly if in all calls that it makes, a common
value is one that both columns have, and not all numbers are common. -/
theorem callsOf_divideSafely_iff {made : List JoinCall}
    (words : AllRanges WordRange q.queryStats)
    (values : ∀ filter ∈ q.filters, filter.value < 2 ^ 64)
    (isMade : callsOf estimator q relArr = some made) :
    (∀ call ∈ made, call.DividesSafely estimator) ↔ ∀ call ∈ made, call.Estimable := by
  have point : ∀ filter ∈ q.filters, WordRange filter.value filter.value :=
    fun filter member => ⟨values filter member, values filter member⟩
  apply forall₂_congr
  intro call isCall
  apply JoinCall.dividesSafely_iff
  intro a b isJoined
  exact (callsOf_ranges wordRange_meets point words isMade isCall isJoined).1.high

theorem callsOf_small {made : List JoinCall} (small : AllRanges SmallRange q.queryStats)
    (isMade : callsOf estimator q relArr = some made) (isCall : call ∈ made)
    (isJoined : call.joined = some (a, b)) :
    ¬ (largerMin a b = 0 ∧ smallerMax a b = 2 ^ 64 - 1) := by
  have point : ∀ filter ∈ q.filters, SmallRange filter.value filter.value := by
    intro filter _
    rw [SmallRange]
    omega
  have ranges := callsOf_ranges smallRange_meets point small isMade isCall isJoined
  have common := smallRange_meets.meets ranges.1 ranges.2
  rw [SmallRange] at common
  omega

theorem joinEnumeration_division {div : estimator.Double → estimator.Double → estimator.Double}
    (same : ∀ call ∈ calls estimator q.numOfRels joinGraph hashTree, ∀ divisors,
      call.divisors estimator = some divisors → ∀ divisor ∈ divisors,
        estimator.Divides div divisor) :
    joinEnumeration (estimator.withDivision div) hashTree q joinGraph =
      joinEnumeration estimator hashTree q joinGraph := by
  symm
  apply foldlM_range'_congr
  intro i inside before reached
  rw [enumerateSize_loop, enumerateSize_loop]
  by_cases fits : (getCombination q.numOfRels (1 + i)).length > numCombs q.numOfRels (1 + i)
  · rw [if_pos fits, if_pos fits]
  · rw [if_neg fits, if_neg fits]
    apply foldlM_range_congr
    intro s isComb between reachedBetween
    rw [enumerateComb, enumerateComb]
    cases getComb : (getCombination q.numOfRels (1 + i))[s]? with
    | none => simp only [Option.bind_eq_bind, Option.bind_none]
    | some comb =>
        simp only [Option.bind_eq_bind, Option.bind_some]
        apply foldlM_range_congr
        intro r isRel table reachedTable
        cases isCall : joinCall joinGraph table comb r with
        | none =>
            rcases extendPlan_of_none isCall with ⟨outcome, _, sameOutcome⟩
            rw [sameOutcome, sameOutcome]
        | some call =>
            have isTable : tableAt estimator q.numOfRels joinGraph hashTree (1 + i) s r =
                some table := by
              rw [tableAt, Nat.add_sub_cancel_left, reached]
              simp only [Option.bind_eq_bind, Option.bind_some, reachedBetween, getComb,
                reachedTable]
            have isMember : call ∈ calls estimator q.numOfRels joinGraph hashTree := by
              apply calls_mem (Nat.le_add_right 1 i) (Nat.add_lt_add_left inside 1) fits isComb
                isRel
              rw [callAt, isTable, getComb]
              exact isCall
            rw [extendPlan_of_call isCall, extendPlan_of_call isCall,
              JoinCall.run_division (same call isMember)]

end Divisions

theorem lowAndHigh_rectangular {first second : Nat} :
    ∀ col ∈ [[first, second]], col.length = 2 := by
  intro col member
  cases List.mem_singleton.mp member
  rfl

/-- Two relations of one column, with the values 5 and 7, and 0 and 1. -/
def lowAndHigh : List Relationsheep :=
  [⟨2, [[5, 7]], [⟨5, 7, 2, 2, [5]⟩], lowAndHigh_rectangular⟩,
    ⟨2, [[0, 1]], [⟨0, 1, 2, 2, [3]⟩], lowAndHigh_rectangular⟩]

def belowQuery (value : Nat) : Query where
  rels := [0, 1]
  queryStats := [[⟨5, 7, 2, 2, [5]⟩], [⟨0, 1, 2, 2, [3]⟩]]
  filters := [⟨⟨0, 0, 0, 0, [5, 7], 2⟩, .less, value⟩]
  joins := [⟨⟨0, 0, 0, 0, [5, 7], 2⟩, ⟨1, 0, 1, 0, [0, 1], 2⟩⟩]
  priorities := [2 ^ 64 - 1]

theorem belowQuery_words (value : Nat) : AllRanges WordRange (belowQuery value).queryStats := by
  intro columns isColumns s member
  rcases List.mem_cons.mp isColumns with rfl | isColumns
  · cases List.mem_singleton.mp member
    exact ⟨by decide, by decide⟩
  · cases List.mem_singleton.mp isColumns
    cases List.mem_singleton.mp member
    exact ⟨by decide, by decide⟩

/-- The columns have no common value: the ranges are 5..7 and 0..1. -/
theorem callsOf_divideSafely_iff_disjoint : ∃ made,
    callsOf naturalEstimator (belowQuery 8) lowAndHigh = some made ∧
      ∀ call ∈ made, call.DividesSafely naturalEstimator := by
  have joined : (callsOf naturalEstimator (belowQuery 8) lowAndHigh).map
      (List.map JoinCall.joined) = some [some (⟨5, 7, 2, 2, [5]⟩, ⟨0, 1, 2, 2, [3]⟩),
        some (⟨0, 1, 2, 2, [3]⟩, ⟨5, 7, 2, 2, [5]⟩)] := rfl
  rcases Option.map_eq_some_iff.mp joined with ⟨made, isMade, joined⟩
  refine ⟨made, isMade, ?_⟩
  apply (callsOf_divideSafely_iff (belowQuery_words 8) (by decide) isMade).mpr
  intro call isCall a b isJoined
  have member := List.mem_map_of_mem (f := JoinCall.joined) isCall
  rw [isJoined, joined] at member
  rcases List.mem_cons.mp member with same | member
  · cases same
    decide
  · cases List.mem_singleton.mp member
    decide

/-- The column with its values below 3 is empty: its statistics are those of the value 0, which
the other column has, and no distinct values. -/
theorem callsOf_divideSafely_emptied : ∃ made,
    callsOf naturalEstimator (belowQuery 3) lowAndHigh = some made ∧
      (∃ call ∈ made, call.joined = some (⟨0, 0, 0, 0, [5]⟩, ⟨0, 1, 2, 2, [3]⟩)) ∧
      ¬ ∀ call ∈ made, call.DividesSafely naturalEstimator := by
  have joined : (callsOf naturalEstimator (belowQuery 3) lowAndHigh).map (List.map fun call =>
      (call.joined, call.divisors naturalEstimator)) =
        some [(some (⟨0, 0, 0, 0, [5]⟩, ⟨0, 1, 2, 2, [3]⟩), some [0, 2, 1]),
          (some (⟨0, 1, 2, 2, [3]⟩, ⟨0, 0, 0, 0, [5]⟩), some [2, 0, 1])] := rfl
  rcases Option.map_eq_some_iff.mp joined with ⟨made, isMade, joined⟩
  have member : (some (⟨0, 0, 0, 0, [5]⟩, ⟨0, 1, 2, 2, [3]⟩), some [0, 2, 1]) ∈
      made.map fun call => (call.joined, call.divisors naturalEstimator) := by
    rw [joined]
    exact List.mem_cons_self
  rcases List.mem_map.mp member with ⟨call, isCall, same⟩
  have parts := Prod.mk.inj same
  refine ⟨made, isMade, ⟨call, isCall, parts.1⟩, ?_⟩
  intro safe
  exact safe call isCall _ parts.2 0 List.mem_cons_self rfl

end JoinOperator.Planner
