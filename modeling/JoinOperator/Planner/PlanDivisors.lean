import JoinOperator.Planner.FilterDivisors
import JoinOperator.Planner.JoinSymmetry
import JoinOperator.Planner.StatsSteps

/-! # What the estimates of the plans divide by

For each function, the divisors of the branch that it takes. A lemma beside each says that the
estimate depends on no other division.
-/

namespace JoinOperator.Planner

open RadixJoin

/-! ## Divisors -/

def columnsDivisors (old col : Nat) (columns : List Stats) : List Nat :=
  (columns.mapIdx fun c other => if c = col then [] else otherDivisors old other).flatten

def filterDivisors (statistics : HTStats) (k1 k2 filterCol : Nat) : List Nat :=
  match statistics.relStats[filterCol]? with
  | none => []
  | some s =>
      if k2 < k1 then []
      else (if k1 = k2 then s.distinctVals else wrapSub s.maxU s.minI) ::
        columnsDivisors s.numElements filterCol statistics.relStats

def joinDivisors (statA statB : HTStats) (colA colB : Nat) : List Nat :=
  match statA.relStats[colA]?, statB.relStats[colB]? with
  | some a, some b =>
      widthOf a :: (columnsDivisors a.distinctVals colA statA.relStats ++
        columnsDivisors b.distinctVals colB statB.relStats)
  | _, _ => []

def otherRelationsDivisors (htstats : List HTStats) (partA old : Nat) : List Nat :=
  (htstats.mapIdx fun r statistics =>
    if r = partA then [] else statistics.relStats.flatMap (otherDivisors old)).flatten

structure JoinCall where
  ht1 : HTNode
  ht2 : HTNode
  newComb : List Char
  connection : Nat
  columns : Connection

namespace JoinCall

def run (estimator : Estimator) (call : JoinCall) : Option HTNode :=
  createJoinTree estimator call.ht1 call.ht2 call.newComb call.connection call.columns

def copied (call : JoinCall) : List HTStats := call.ht1.htstats.take (call.newComb.length - 1)

def partA (call : JoinCall) : Nat := partAOf call.copied call.connection

def joined (call : JoinCall) : Option (Stats × Stats) := do
  let statA ← call.copied[call.partA]?
  let statB ← call.ht2.htstats[0]?
  let a ← statA.relStats[call.columns.col1]?
  let b ← statB.relStats[call.columns.col2]?
  some (a, b)

def divisors (estimator : Estimator) (call : JoinCall) : Option (List Nat) := do
  let statA ← call.copied[call.partA]?
  let statB ← call.ht2.htstats[0]?
  let a ← statA.relStats[call.columns.col1]?
  let b ← statB.relStats[call.columns.col2]?
  let filteredA ← filter estimator statA (largerMin a b) (smallerMax a b) call.columns.col1
  let fA ← filteredA.relStats[call.columns.col1]?
  let others := otherRelations estimator call.copied call.partA filteredA a.numElements
    fA.numElements fA.numElements
  let filteredB ← filter estimator statB (largerMin a b) (smallerMax a b) call.columns.col2
  some (filterDivisors statA (largerMin a b) (smallerMax a b) call.columns.col1 ++
    otherRelationsDivisors call.copied call.partA a.numElements ++
    filterDivisors statB (largerMin a b) (smallerMax a b) call.columns.col2 ++
    joinDivisors filteredA filteredB call.columns.col1 call.columns.col2 ++
    otherRelationsDivisors others call.partA fA.distinctVals)

/-- A common value is one that both columns have, and they do not have all numbers in common. -/
def Estimable (call : JoinCall) : Prop :=
  ∀ a b, call.joined = some (a, b) →
    (largerMin a b = smallerMax a b → a.distinctVals ≠ 0 ∧ b.distinctVals ≠ 0) ∧
      ¬ (largerMin a b = 0 ∧ smallerMax a b = 2 ^ 64 - 1)

def DividesSafely (estimator : Estimator) (call : JoinCall) : Prop :=
  ∀ divisors, call.divisors estimator = some divisors → ∀ divisor ∈ divisors, divisor ≠ 0

end JoinCall

/-! ## Filtered columns -/

section Filters

variable {estimator : Estimator} {statistics : HTStats} {s : Stats} {k1 k2 col : Nat}

def filteredColumn (estimator : Estimator) (k1 k2 : Nat) (s : Stats) : Stats :=
  if k2 < k1 then zeroStats s
  else if k1 = k2 then { s with
    minI := k1
    maxU := k1
    numElements := estimator.ceilQuotient s.numElements s.distinctVals
    distinctVals := 1 }
  else { s with
    minI := k1
    maxU := k2
    distinctVals := estimator.scale (wrapSub k2 k1) (wrapSub s.maxU s.minI) s.distinctVals
    numElements := estimator.scale (wrapSub k2 k1) (wrapSub s.maxU s.minI) s.numElements }

def filteredColumns (estimator : Estimator) (k1 k2 col : Nat) (s : Stats) (columns : List Stats) :
    List Stats :=
  if k2 < k1 then columns.map zeroStats
  else columns.mapIdx fun c other =>
    if c = col then filteredColumn estimator k1 k2 s
    else otherColumn estimator s.numElements (filteredColumn estimator k1 k2 s).numElements
      (filteredColumn estimator k1 k2 s).numElements other

theorem filter_eq (get : statistics.relStats[col]? = some s) :
    filter estimator statistics k1 k2 col = some { statistics with
      relStats := filteredColumns estimator k1 k2 col s statistics.relStats } := by
  rw [filter, get, Option.bind_eq_bind, Option.bind_some, filteredColumns]
  by_cases empty : k2 < k1
  · rw [if_pos empty, if_pos empty]
  · rw [if_neg empty, if_neg empty, filteredColumn, if_neg empty]

theorem filteredColumns_get {columns : List Stats} (get : columns[col]? = some s) :
    (filteredColumns estimator k1 k2 col s columns)[col]? =
      some (filteredColumn estimator k1 k2 s) := by
  rw [filteredColumns, filteredColumn]
  by_cases empty : k2 < k1
  · rw [if_pos empty, if_pos empty, List.getElem?_map, get, Option.map_some]
  · rw [if_neg empty, if_neg empty, List.getElem?_mapIdx, get, Option.map_some, if_pos rfl]

/-- The column has as many values as there are from `k1` to `k2`, or one if there are none. -/
theorem widthOf_filteredColumn : widthOf (filteredColumn estimator k1 k2 s) =
    if k2 < k1 then 1 else (k2 - k1 + 1) % 2 ^ 64 := by
  rw [filteredColumn]
  split_ifs with empty single
  · rfl
  · subst single
    rw [widthOf, wrapSub_of_le (Nat.le_refl _), Nat.sub_self]
  · rw [widthOf, wrapSub_of_le (Nat.not_lt.mp empty)]

end Filters

/-! ## Divisors that are not zero -/

section Guards

variable {estimator : Estimator} {statistics statA statB : HTStats} {s a b : Stats}
  {k1 k2 col colA colB divisor old partA : Nat} {columns : List Stats} {htstats : List HTStats}

theorem columnsDivisors_ne (member : divisor ∈ columnsDivisors old col columns) :
    divisor ≠ 0 := by
  rcases List.mem_flatten.mp member with ⟨divisors, isColumn, member⟩
  rcases List.mem_mapIdx.mp isColumn with ⟨c, inside, rfl⟩
  split_ifs at member
  · cases member
  · exact otherDivisors_ne member

theorem otherRelationsDivisors_ne (member : divisor ∈ otherRelationsDivisors htstats partA old) :
    divisor ≠ 0 := by
  rcases List.mem_flatten.mp member with ⟨divisors, isRelation, member⟩
  rcases List.mem_mapIdx.mp isRelation with ⟨r, inside, rfl⟩
  split_ifs at member
  · cases member
  · rcases List.mem_flatMap.mp member with ⟨other, _, member⟩
    exact otherDivisors_ne member

/-- In a range that is left with one value the distinct values are divided by, and nothing
guards that. -/
theorem filterDivisors_ne_iff (get : statistics.relStats[col]? = some s) (low : s.minI ≤ k1)
    (high : k2 ≤ s.maxU) : (∀ divisor ∈ filterDivisors statistics k1 k2 col, divisor ≠ 0) ↔
      (k1 = k2 → s.distinctVals ≠ 0) := by
  rw [filterDivisors, get]
  simp only
  by_cases empty : k2 < k1
  · rw [if_pos empty]
    refine iff_of_true (by simp) ?_
    intro single
    omega
  · rw [if_neg empty]
    constructor
    · intro safe single
      rw [if_pos single] at safe
      exact safe s.distinctVals List.mem_cons_self
    · intro alive divisor member
      rcases List.mem_cons.mp member with rfl | member
      · by_cases single : k1 = k2
        · rw [if_pos single]
          exact alive single
        · rw [if_neg single, wrapSub_of_le (by omega)]
          omega
      · exact columnsDivisors_ne member

theorem joinDivisors_ne_iff (getA : statA.relStats[colA]? = some a)
    (getB : statB.relStats[colB]? = some b) :
    (∀ divisor ∈ joinDivisors statA statB colA colB, divisor ≠ 0) ↔ widthOf a ≠ 0 := by
  rw [joinDivisors, getA, getB]
  constructor
  · intro safe
    exact safe (widthOf a) List.mem_cons_self
  · intro width divisor member
    rcases List.mem_cons.mp member with rfl | member
    · exact width
    · cases List.mem_append.mp member with
      | inl isA => exact columnsDivisors_ne isA
      | inr isB => exact columnsDivisors_ne isB

theorem widthOf_filteredColumn_ne_iff (high : k2 < 2 ^ 64) :
    widthOf (filteredColumn estimator k1 k2 s) ≠ 0 ↔ ¬ (k1 = 0 ∧ k2 = 2 ^ 64 - 1) := by
  rw [widthOf_filteredColumn]
  split_ifs with empty
  · refine iff_of_true Nat.one_ne_zero ?_
    omega
  · omega

end Guards

section Calls

variable {estimator : Estimator} {call : JoinCall} {statA statB : HTStats} {a b : Stats}

theorem JoinCall.joined_spec (isJoined : call.joined = some (a, b)) :
    ∃ statA statB, call.copied[call.partA]? = some statA ∧ call.ht2.htstats[0]? = some statB ∧
      statA.relStats[call.columns.col1]? = some a ∧
      statB.relStats[call.columns.col2]? = some b := by
  rcases Option.bind_eq_some_iff.mp isJoined with ⟨statA, isA, isJoined⟩
  rcases Option.bind_eq_some_iff.mp isJoined with ⟨statB, isB, isJoined⟩
  rcases Option.bind_eq_some_iff.mp isJoined with ⟨a, getA, isJoined⟩
  rcases Option.bind_eq_some_iff.mp isJoined with ⟨b, getB, isJoined⟩
  cases isJoined
  exact ⟨statA, statB, isA, isB, getA, getB⟩

theorem JoinCall.joined_of_divisors {divisors : List Nat}
    (are : call.divisors estimator = some divisors) : ∃ a b, call.joined = some (a, b) := by
  rcases Option.bind_eq_some_iff.mp are with ⟨statA, isA, are⟩
  rcases Option.bind_eq_some_iff.mp are with ⟨statB, isB, are⟩
  rcases Option.bind_eq_some_iff.mp are with ⟨a, getA, are⟩
  rcases Option.bind_eq_some_iff.mp are with ⟨b, getB, are⟩
  refine ⟨a, b, ?_⟩
  simp only [joined, isA, isB, getA, getB, Option.bind_eq_bind, Option.bind_some]

def filteredRelation (estimator : Estimator) (a b s : Stats) (col : Nat) (statistics : HTStats) :
    HTStats :=
  { statistics with
    relStats := filteredColumns estimator (largerMin a b) (smallerMax a b) col s
      statistics.relStats }

def JoinCall.joinSeq (call : JoinCall) : Option (List Char) :=
  match call.ht1.joinSeq with
  | none => some (decimal call.columns.joinId)
  | some joinSeq => some (joinSeq ++ decimal call.columns.joinId)

theorem JoinCall.run_eq (isA : call.copied[call.partA]? = some statA)
    (isB : call.ht2.htstats[0]? = some statB) (getA : statA.relStats[call.columns.col1]? = some a)
    (getB : statB.relStats[call.columns.col2]? = some b) :
    call.run estimator =
      if call.ht1.htstats.length < call.newComb.length - 1 then none
      else (join estimator (filteredRelation estimator a b a call.columns.col1 statA)
          (filteredRelation estimator a b b call.columns.col2 statB)
          call.columns.col1 call.columns.col2).bind fun joined =>
        joined.1.relStats[call.columns.col1]?.bind fun jA => some {
          htstats := otherRelations estimator (otherRelations estimator call.copied call.partA
              (filteredRelation estimator a b a call.columns.col1 statA) a.numElements
              (filteredColumn estimator (largerMin a b) (smallerMax a b) a).numElements
              (filteredColumn estimator (largerMin a b) (smallerMax a b) a).numElements)
            call.partA joined.1
            (filteredColumn estimator (largerMin a b) (smallerMax a b) a).distinctVals
            jA.distinctVals jA.numElements ++ [joined.2]
          numRels := call.newComb.length
          comb := call.newComb
          cost := (call.ht1.cost + jA.numElements) % 2 ^ 64
          joinSeq := call.joinSeq } := by
  rw [copied, partA, copied] at isA
  rw [run, createJoinTree]
  split
  · rfl
  · simp only [isA, isB, getA, getB, filter_eq getA, filter_eq getB, filteredColumns_get getA,
      Option.bind_eq_bind, Option.bind_some]
    rfl

theorem JoinCall.run_of_none (isJoined : call.joined = none) : call.run estimator = none := by
  rw [run, createJoinTree]
  split
  · rfl
  · rw [joined, copied, partA, copied] at isJoined
    cases isA : (call.ht1.htstats.take (call.newComb.length - 1))[partAOf
      (call.ht1.htstats.take (call.newComb.length - 1)) call.connection]? with
    | none => simp only [isA, Option.bind_eq_bind, Option.bind_none]
    | some statA =>
        cases isB : call.ht2.htstats[0]? with
        | none => simp only [isA, Option.bind_eq_bind, Option.bind_none, Option.bind_some]
        | some statB =>
            cases getA : statA.relStats[call.columns.col1]? with
            | none =>
                simp only [isA, getA, Option.bind_eq_bind, Option.bind_none, Option.bind_some]
            | some a =>
                cases getB : statB.relStats[call.columns.col2]? with
                | none =>
                    simp only [isA, getA, getB, Option.bind_eq_bind, Option.bind_none,
                      Option.bind_some]
                | some b =>
                    rw [isA, isB] at isJoined
                    simp only [getA, getB, Option.bind_eq_bind, Option.bind_some] at isJoined
                    cases isJoined

theorem JoinCall.divisors_eq (isA : call.copied[call.partA]? = some statA)
    (isB : call.ht2.htstats[0]? = some statB) (getA : statA.relStats[call.columns.col1]? = some a)
    (getB : statB.relStats[call.columns.col2]? = some b) :
    call.divisors estimator = some (
      filterDivisors statA (largerMin a b) (smallerMax a b) call.columns.col1 ++
      otherRelationsDivisors call.copied call.partA a.numElements ++
      filterDivisors statB (largerMin a b) (smallerMax a b) call.columns.col2 ++
      joinDivisors (filteredRelation estimator a b a call.columns.col1 statA)
        (filteredRelation estimator a b b call.columns.col2 statB)
        call.columns.col1 call.columns.col2 ++
      otherRelationsDivisors (otherRelations estimator call.copied call.partA
          (filteredRelation estimator a b a call.columns.col1 statA) a.numElements
          (filteredColumn estimator (largerMin a b) (smallerMax a b) a).numElements
          (filteredColumn estimator (largerMin a b) (smallerMax a b) a).numElements)
        call.partA (filteredColumn estimator (largerMin a b) (smallerMax a b) a).distinctVals) := by
  simp only [divisors, isA, isB, getA, getB, filter_eq getA, filter_eq getB,
    filteredColumns_get getA, Option.bind_eq_bind, Option.bind_some, filteredRelation]

/-- The guarded divisors are never zero. -/
theorem JoinCall.dividesSafely_parts (isA : call.copied[call.partA]? = some statA)
    (isB : call.ht2.htstats[0]? = some statB) (getA : statA.relStats[call.columns.col1]? = some a)
    (getB : statB.relStats[call.columns.col2]? = some b) (words : a.maxU < 2 ^ 64) :
    call.DividesSafely estimator ↔
      (largerMin a b = smallerMax a b → a.distinctVals ≠ 0 ∧ b.distinctVals ≠ 0) ∧
        ¬ (largerMin a b = 0 ∧ smallerMax a b = 2 ^ 64 - 1) := by
  have high : smallerMax a b < 2 ^ 64 := Nat.lt_of_le_of_lt (smallerMax_le a b).1 words
  have safeA := filterDivisors_ne_iff getA (largerMin_ge a b).1 (smallerMax_le a b).1
  have safeB := filterDivisors_ne_iff getB (largerMin_ge a b).2 (smallerMax_le a b).2
  have safeJoin : (∀ divisor ∈ joinDivisors
        (filteredRelation estimator a b a call.columns.col1 statA)
        (filteredRelation estimator a b b call.columns.col2 statB)
        call.columns.col1 call.columns.col2, divisor ≠ 0) ↔
      ¬ (largerMin a b = 0 ∧ smallerMax a b = 2 ^ 64 - 1) :=
    (joinDivisors_ne_iff (filteredColumns_get getA) (filteredColumns_get getB)).trans
      (widthOf_filteredColumn_ne_iff high)
  rw [DividesSafely, divisors_eq isA isB getA getB]
  simp only [Option.some.injEq, forall_eq', List.forall_mem_append]
  constructor
  · intro safe
    rcases safe with ⟨⟨⟨⟨ofA, _⟩, ofB⟩, ofJoin⟩, _⟩
    exact ⟨fun single => ⟨safeA.mp ofA single, safeB.mp ofB single⟩, safeJoin.mp ofJoin⟩
  · intro condition
    rcases condition with ⟨alive, width⟩
    refine ⟨⟨⟨⟨safeA.mpr fun single => (alive single).1, ?_⟩,
      safeB.mpr fun single => (alive single).2⟩, safeJoin.mpr width⟩, ?_⟩
    · intro divisor member
      exact otherRelationsDivisors_ne member
    · intro divisor member
      exact otherRelationsDivisors_ne member

/-- A call divides by positive numbers exactly if a common value is one that both columns have,
and not all numbers are common. -/
theorem JoinCall.dividesSafely_iff
    (words : ∀ a b, call.joined = some (a, b) → a.maxU < 2 ^ 64) :
    call.DividesSafely estimator ↔ call.Estimable := by
  constructor
  · intro safe a b isJoined
    rcases joined_spec isJoined with ⟨statA, statB, isA, isB, getA, getB⟩
    exact (dividesSafely_parts isA isB getA getB (words a b isJoined)).mp safe
  · intro estimable divisors are
    rcases joined_of_divisors are with ⟨a, b, isJoined⟩
    rcases joined_spec isJoined with ⟨statA, statB, isA, isB, getA, getB⟩
    exact (dividesSafely_parts isA isB getA getB (words a b isJoined)).mpr
      (estimable a b isJoined) divisors are

end Calls

/-! ## The estimates depend on the divisors only -/

section Estimates

variable {estimator : Estimator} {div : estimator.Double → estimator.Double → estimator.Double}
  {statistics statA statB : HTStats} {s a b : Stats} {k1 k2 col colA colB old new rows partA : Nat}
  {columns : List Stats} {htstats : List HTStats} {call : JoinCall}

theorem columns_division {changed : Stats}
    (same : ∀ divisor ∈ columnsDivisors old col columns, estimator.Divides div divisor) :
    (columns.mapIdx fun c other => if c = col then changed
        else otherColumn (estimator.withDivision div) old new rows other) =
      columns.mapIdx fun c other => if c = col then changed
        else otherColumn estimator old new rows other := by
  apply List.mapIdx_eq_mapIdx_iff.mpr
  intro c inside
  by_cases isChanged : c = col
  · rw [if_pos isChanged, if_pos isChanged]
  · rw [if_neg isChanged, if_neg isChanged]
    apply otherColumn_division
    intro divisor member
    apply same divisor
    apply List.mem_flatten_of_mem _ member
    rw [List.mem_mapIdx]
    exact ⟨c, inside, if_neg isChanged⟩

theorem filteredColumn_division (get : statistics.relStats[col]? = some s)
    (same : ∀ divisor ∈ filterDivisors statistics k1 k2 col, estimator.Divides div divisor) :
    filteredColumn (estimator.withDivision div) k1 k2 s = filteredColumn estimator k1 k2 s := by
  rw [filterDivisors, get] at same
  rw [filteredColumn, filteredColumn]
  by_cases empty : k2 < k1
  · rw [if_pos empty, if_pos empty]
  · simp only [if_neg empty] at same
    have sameOwn := same _ List.mem_cons_self
    rw [if_neg empty, if_neg empty]
    by_cases single : k1 = k2
    · rw [if_pos single] at sameOwn
      rw [if_pos single, if_pos single, Estimator.ceilQuotient_division sameOwn]
    · rw [if_neg single] at sameOwn
      rw [if_neg single, if_neg single, Estimator.scale_division sameOwn,
        Estimator.scale_division sameOwn]

theorem filteredColumns_division (get : statistics.relStats[col]? = some s)
    (same : ∀ divisor ∈ filterDivisors statistics k1 k2 col, estimator.Divides div divisor) :
    filteredColumns (estimator.withDivision div) k1 k2 col s statistics.relStats =
      filteredColumns estimator k1 k2 col s statistics.relStats := by
  rw [filteredColumns, filteredColumns, filteredColumn_division get same]
  by_cases empty : k2 < k1
  · rw [if_pos empty, if_pos empty]
  · rw [filterDivisors, get] at same
    simp only [if_neg empty] at same
    rw [if_neg empty, if_neg empty,
      columns_division fun divisor member => same divisor (List.mem_cons_of_mem _ member)]

theorem join_division
    (same : ∀ divisor ∈ joinDivisors statA statB colA colB, estimator.Divides div divisor) :
    join (estimator.withDivision div) statA statB colA colB =
      join estimator statA statB colA colB := by
  cases getA : statA.relStats[colA]? with
  | none => rw [join, join, getA]; rfl
  | some a =>
      cases getB : statB.relStats[colB]? with
      | none => rw [join, join, getA, getB]; rfl
      | some b =>
          rw [joinDivisors, getA, getB] at same
          simp only [List.mem_cons, List.mem_append] at same
          have sameWidth := same (widthOf a) (.inl rfl)
          have sameRows : joinedRows (estimator.withDivision div) a b =
              joinedRows estimator a b := Estimator.ceilQuotient_division sameWidth
          have sameValues : joinedValues (estimator.withDivision div) a b =
              joinedValues estimator a b := Estimator.ceilQuotient_division sameWidth
          have sameColumn : joinedColumn (estimator.withDivision div) a b =
              joinedColumn estimator a b := by
            funext s
            rw [joinedColumn, joinedColumn, sameRows, sameValues]
          have sameRead (joinedA : Stats) :
              valuesRead (estimator.withDivision div) statA colA colB joinedA =
                valuesRead estimator statA colA colB joinedA := rfl
          rw [join_eq getA getB, join_eq getA getB, sameRows, sameValues, sameColumn, sameRead,
            joinedBlock, joinedBlock, joinedBlock, joinedBlock,
            columns_division fun divisor member => same divisor (.inr (.inl member)),
            columns_division fun divisor member => same divisor (.inr (.inr member))]

theorem otherRelations_division (same : ∀ divisor ∈ otherRelationsDivisors htstats partA old,
    estimator.Divides div divisor) :
    otherRelations (estimator.withDivision div) htstats partA statA old new rows =
      otherRelations estimator htstats partA statA old new rows := by
  apply List.mapIdx_eq_mapIdx_iff.mpr
  intro r inside
  by_cases isA : r = partA
  · rw [if_pos isA, if_pos isA]
  · rw [if_neg isA, if_neg isA]
    congr 1
    apply List.map_congr_left
    intro other isOther
    apply otherColumn_division
    intro divisor member
    apply same divisor
    apply List.mem_flatten_of_mem (l := htstats[r].relStats.flatMap (otherDivisors old))
    · rw [List.mem_mapIdx]
      exact ⟨r, inside, if_neg isA⟩
    · exact List.mem_flatMap.mpr ⟨other, isOther, member⟩

theorem JoinCall.run_division (same : ∀ divisors, call.divisors estimator = some divisors →
    ∀ divisor ∈ divisors, estimator.Divides div divisor) :
    call.run (estimator.withDivision div) = call.run estimator := by
  cases isJoined : call.joined with
  | none => rw [run_of_none isJoined, run_of_none isJoined]
  | some columns =>
      rcases columns with ⟨a, b⟩
      rcases joined_spec isJoined with ⟨statA, statB, isA, isB, getA, getB⟩
      have sameParts := same _ (divisors_eq isA isB getA getB)
      simp only [List.mem_append] at sameParts
      have divisorsA : ∀ divisor ∈ filterDivisors statA (largerMin a b) (smallerMax a b)
          call.columns.col1, estimator.Divides div divisor := fun divisor member =>
        sameParts divisor (.inl (.inl (.inl (.inl member))))
      have divisorsB : ∀ divisor ∈ filterDivisors statB (largerMin a b) (smallerMax a b)
          call.columns.col2, estimator.Divides div divisor := fun divisor member =>
        sameParts divisor (.inl (.inl (.inr member)))
      have sameA : filteredRelation (estimator.withDivision div) a b a call.columns.col1 statA =
          filteredRelation estimator a b a call.columns.col1 statA := by
        rw [filteredRelation, filteredRelation, filteredColumns_division getA divisorsA]
      have sameB : filteredRelation (estimator.withDivision div) a b b call.columns.col2 statB =
          filteredRelation estimator a b b call.columns.col2 statB := by
        rw [filteredRelation, filteredRelation, filteredColumns_division getB divisorsB]
      rw [run_eq isA isB getA getB, run_eq isA isB getA getB, sameA, sameB,
        filteredColumn_division getA divisorsA,
        join_division fun divisor member => sameParts divisor (.inl (.inr member)),
        otherRelations_division fun divisor member =>
          sameParts divisor (.inl (.inl (.inl (.inr member))))]
      split
      · rfl
      · congr 1
        funext joined
        congr 1
        funext jA
        rw [otherRelations_division fun divisor member => sameParts divisor (.inr member)]

end Estimates

end JoinOperator.Planner
