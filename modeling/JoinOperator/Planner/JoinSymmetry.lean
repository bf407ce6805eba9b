import JoinOperator.Planner.Plans

/-! # Whether the estimate of a join depends on the order of its sides

`Join` scales the other columns of the second block with a value that it reads from the first
block, at the column of the second one.
-/

namespace JoinOperator.Planner

open RadixJoin

structure JoinReads where
  ofA : List Nat
  ofB : List Nat

def joinReads (statA statB : HTStats) (colA colB : Nat) : JoinReads where
  ofA := colA :: colB :: List.range statA.relStats.length
  ofB := colB :: List.range statB.relStats.length

structure JoinReads.Within (reads : JoinReads) (statA statB : HTStats) : Prop where
  ofA : ∀ c ∈ reads.ofA, c < statA.relStats.length
  ofB : ∀ c ∈ reads.ofB, c < statB.relStats.length

/-- Whatever the estimates are, both orders of the sides leave the same statistics, and read
columns of their blocks only. -/
structure JoinSymmetric (statA statB : HTStats) (colA colB : Nat) : Prop where
  within : (joinReads statA statB colA colB).Within statA statB
  swapped : (joinReads statB statA colB colA).Within statB statA
  same : ∀ estimator : Estimator, ∃ joinedA joinedB,
    join estimator statA statB colA colB = some (joinedA, joinedB) ∧
      join estimator statB statA colB colA = some (joinedB, joinedA)

/-- The other columns of a block get empty, whatever they are scaled with. -/
def Settled (statistics : HTStats) (col : Nat) : Prop :=
  ∀ s other c, statistics.relStats[col]? = some s → statistics.relStats[c]? = some other →
    c ≠ col → s.distinctVals = 0 ∨ other.distinctVals = 0

section Blocks

variable {estimator : Estimator} {statistics statA statB : HTStats} {colA colB : Nat}

def widthOf (s : Stats) : Nat := (wrapSub s.maxU s.minI + 1) % 2 ^ 64

def joinedRows (estimator : Estimator) (a b : Stats) : Nat :=
  estimator.ceilQuotient (a.numElements * b.numElements % 2 ^ 64) (widthOf a)

def joinedValues (estimator : Estimator) (a b : Stats) : Nat :=
  estimator.ceilQuotient (a.distinctVals * b.distinctVals % 2 ^ 64) (widthOf a)

def joinedColumn (estimator : Estimator) (a b s : Stats) : Stats :=
  { s with
    numElements := joinedRows estimator a b
    distinctVals := joinedValues estimator a b }

def joinedBlock (estimator : Estimator) (statistics : HTStats) (col : Nat) (joined : Stats)
    (old new rows : Nat) : HTStats :=
  { statistics with
    relStats := statistics.relStats.mapIdx fun c other =>
      if c = col then joined else otherColumn estimator old new rows other }

/-- What is read as the new number of distinct values of the second column. -/
def valuesRead (estimator : Estimator) (statA : HTStats) (colA colB : Nat) (joinedA : Stats) :
    Nat :=
  match (statA.relStats.set colA joinedA)[colB]? with
  | some s => s.distinctVals
  | none => estimator.beyond

theorem join_eq {a b : Stats} (getA : statA.relStats[colA]? = some a)
    (getB : statB.relStats[colB]? = some b) :
    join estimator statA statB colA colB =
      some (joinedBlock estimator statA colA (joinedColumn estimator a b a) a.distinctVals
          (joinedValues estimator a b) (joinedRows estimator a b),
        joinedBlock estimator statB colB (joinedColumn estimator a b b) b.distinctVals
          (valuesRead estimator statA colA colB (joinedColumn estimator a b a))
          (joinedRows estimator a b)) := by
  rw [join, getA, getB]
  rfl

theorem join_beyond (within : (joinReads statA statB colA colB).Within statA statB)
    (beyond : Nat) :
    join { estimator with beyond } statA statB colA colB =
      join estimator statA statB colA colB := by
  have insideA : colA < statA.relStats.length := within.ofA colA (by simp [joinReads])
  have insideB : colB < statB.relStats.length := within.ofB colB (by simp [joinReads])
  have insideRead : colB < statA.relStats.length := within.ofA colB (by simp [joinReads])
  have getA := List.getElem?_eq_getElem insideA
  have getB := List.getElem?_eq_getElem insideB
  rw [join_eq getA getB, join_eq getA getB]
  have read (joinedA : Stats) : valuesRead { estimator with beyond } statA colA colB joinedA =
      valuesRead estimator statA colA colB joinedA := by
    have length : colB < (statA.relStats.set colA joinedA).length := by
      rwa [List.length_set]
    rw [valuesRead, valuesRead, List.getElem?_eq_getElem length]
  rw [read]
  rfl

theorem valuesRead_self {joinedA : Stats} (inside : colA < statA.relStats.length) :
    valuesRead estimator statA colA colA joinedA = joinedA.distinctVals := by
  rw [valuesRead, List.getElem?_set_self inside]

theorem valuesRead_other {joinedA s : Stats} (differs : colA ≠ colB)
    (get : statA.relStats[colB]? = some s) :
    valuesRead estimator statA colA colB joinedA = s.distinctVals := by
  rw [valuesRead, List.getElem?_set_ne differs, get]

theorem widthOf_congr {a b : Stats} (sameMin : a.minI = b.minI) (sameMax : a.maxU = b.maxU) :
    widthOf a = widthOf b := by
  rw [widthOf, widthOf, sameMin, sameMax]

theorem joinedColumn_comm (estimator : Estimator) {a b : Stats} (sameMin : a.minI = b.minI)
    (sameMax : a.maxU = b.maxU) : joinedColumn estimator a b = joinedColumn estimator b a := by
  funext s
  simp only [joinedColumn, joinedRows, joinedValues, widthOf_congr sameMin sameMax,
    Nat.mul_comm a.numElements, Nat.mul_comm a.distinctVals]

theorem Settled.joinedBlock_eq (settled : Settled statistics colA) {s joined : Stats}
    (get : statistics.relStats[colA]? = some s) (new new' rows : Nat) :
    joinedBlock estimator statistics colA joined s.distinctVals new rows =
      joinedBlock estimator statistics colA joined s.distinctVals new' rows := by
  have columns : ∀ c (inside : c < statistics.relStats.length), c ≠ colA →
      otherColumn estimator s.distinctVals new rows statistics.relStats[c] =
        otherColumn estimator s.distinctVals new' rows statistics.relStats[c] := by
    intro c inside differs
    have empty := settled s _ c get (List.getElem?_eq_getElem inside) differs
    rw [otherColumn, if_pos empty, otherColumn, if_pos empty]
  rw [joinedBlock, joinedBlock]
  congr 1
  apply List.ext_getElem
  · rw [List.length_mapIdx, List.length_mapIdx]
  · intro c first second
    rw [List.length_mapIdx] at first
    simp only [List.getElem_mapIdx]
    split
    · rfl
    · rename_i differs
      exact columns c first differs

end Blocks

def offsetEstimator (offset : Nat) : Estimator :=
  ⟨Nat, id, fun _ value => value, fun _ value => value, fun value _ => value,
    fun value _ => value, id, fun value => value + offset, 0⟩

section Symmetry

variable {statA statB : HTStats} {colA colB : Nat} {a b : Stats}

theorem within_joinReads (insideA : colA < statA.relStats.length)
    (insideB : colB < statB.relStats.length) (insideRead : colB < statA.relStats.length) :
    (joinReads statA statB colA colB).Within statA statB where
  ofA := by
    intro c member
    simp only [joinReads, List.mem_cons, List.mem_range] at member
    omega
  ofB := by
    intro c member
    simp only [joinReads, List.mem_cons, List.mem_range] at member
    omega

theorem join_swap_of_eq (estimator : Estimator) (getA : statA.relStats[colA]? = some a)
    (getB : statB.relStats[colA]? = some b) (sameMin : a.minI = b.minI)
    (sameMax : a.maxU = b.maxU) : ∃ joinedA joinedB,
      join estimator statA statB colA colA = some (joinedA, joinedB) ∧
        join estimator statB statA colA colA = some (joinedB, joinedA) := by
  have insideA := (List.getElem?_eq_some_iff.mp getA).1
  have insideB := (List.getElem?_eq_some_iff.mp getB).1
  have columns := joinedColumn_comm estimator sameMin sameMax
  have rows : joinedRows estimator a b = joinedRows estimator b a :=
    congrArg Stats.numElements (congrFun columns a)
  have values : joinedValues estimator a b = joinedValues estimator b a :=
    congrArg Stats.distinctVals (congrFun columns a)
  refine ⟨_, _, join_eq getA getB, ?_⟩
  rw [join_eq getB getA, valuesRead_self insideA, valuesRead_self insideB, columns, rows, values]
  rfl

theorem join_swap_of_settled (estimator : Estimator) (getA : statA.relStats[colA]? = some a)
    (getB : statB.relStats[colB]? = some b) (sameMin : a.minI = b.minI)
    (sameMax : a.maxU = b.maxU) (settledA : Settled statA colA) (settledB : Settled statB colB) :
    ∃ joinedA joinedB, join estimator statA statB colA colB = some (joinedA, joinedB) ∧
      join estimator statB statA colB colA = some (joinedB, joinedA) := by
  have columns := joinedColumn_comm estimator sameMin sameMax
  have rows : joinedRows estimator a b = joinedRows estimator b a :=
    congrArg Stats.numElements (congrFun columns a)
  refine ⟨_, _, join_eq getA getB, ?_⟩
  rw [join_eq getB getA, columns, rows,
    settledA.joinedBlock_eq getA _ (joinedValues estimator a b),
    settledB.joinedBlock_eq getB (joinedValues estimator b a) (valuesRead estimator statA colA
      colB _)]

/-- A value of the second block is read from the first one, and scales a column there that is not
empty: some estimates tell it from the right value. -/
theorem settled_of_swap (different : colA ≠ colB) (getA : statA.relStats[colA]? = some a)
    (getB : statB.relStats[colB]? = some b) (inside : colA < statB.relStats.length)
    (same : ∀ estimator : Estimator, ∃ joinedA joinedB,
      join estimator statA statB colA colB = some (joinedA, joinedB) ∧
        join estimator statB statA colB colA = some (joinedB, joinedA)) :
    Settled statA colA := by
  intro s other c get getOther differs
  rw [getA] at get
  cases get
  by_contra alive
  have getRead := List.getElem?_eq_getElem inside
  rcases same (offsetEstimator (statB.relStats[colA].distinctVals + 1)) with
    ⟨joinedA, joinedB, ran, swapped⟩
  rw [join_eq getA getB, Option.some.injEq, Prod.mk.injEq] at ran
  rw [join_eq getB getA, Option.some.injEq, Prod.mk.injEq, valuesRead_other different.symm
    getRead] at swapped
  have columns := congrArg (fun block : HTStats => block.relStats[c]?.map Stats.distinctVals)
    (ran.1.trans swapped.2.symm)
  simp only [joinedBlock, List.getElem?_mapIdx, getOther, Option.map_some, if_neg differs,
    otherColumn, if_neg alive, Option.some.injEq] at columns
  -- both sides are the scaled values with the offset added
  change a.distinctVals * b.distinctVals % 2 ^ 64 + (statB.relStats[colA].distinctVals + 1) +
      (statB.relStats[colA].distinctVals + 1) =
    statB.relStats[colA].distinctVals + (statB.relStats[colA].distinctVals + 1) at columns
  omega

/-- The order of the sides does not matter exactly if both blocks have a column at either index,
and it is the same index or no other column has values left to scale. -/
theorem joinSymmetric_iff (getA : statA.relStats[colA]? = some a)
    (getB : statB.relStats[colB]? = some b) (sameMin : a.minI = b.minI)
    (sameMax : a.maxU = b.maxU) : JoinSymmetric statA statB colA colB ↔
      colB < statA.relStats.length ∧ colA < statB.relStats.length ∧
        (colA = colB ∨ Settled statA colA ∧ Settled statB colB) := by
  have insideA := (List.getElem?_eq_some_iff.mp getA).1
  have insideB := (List.getElem?_eq_some_iff.mp getB).1
  constructor
  · intro symmetric
    have readA : colB < statA.relStats.length :=
      symmetric.within.ofA colB (by simp [joinReads])
    have readB : colA < statB.relStats.length :=
      symmetric.swapped.ofA colA (by simp [joinReads])
    refine ⟨readA, readB, ?_⟩
    by_cases isSame : colA = colB
    · exact .inl isSame
    · right
      constructor
      · exact settled_of_swap isSame getA getB readB symmetric.same
      · apply settled_of_swap (Ne.symm isSame) getB getA readA
        intro estimator
        rcases symmetric.same estimator with ⟨joinedA, joinedB, ran, swapped⟩
        exact ⟨joinedB, joinedA, swapped, ran⟩
  · intro condition
    rcases condition with ⟨readA, readB, isSame | settled⟩
    · subst isSame
      exact ⟨within_joinReads insideA insideB readA, within_joinReads insideB insideA readB,
        fun estimator => join_swap_of_eq estimator getA getB sameMin sameMax⟩
    · exact ⟨within_joinReads insideA insideB readA, within_joinReads insideB insideA readB,
        fun estimator => join_swap_of_settled estimator getA getB sameMin sameMax settled.1
          settled.2⟩

end Symmetry

def oneColumn : HTStats := ⟨[⟨0, 9, 5, 4, [1]⟩], 0⟩

def twoColumns : HTStats := ⟨[⟨0, 9, 8, 2, [1]⟩, ⟨0, 9, 8, 2, [1]⟩], 1⟩

theorem joinSymmetric_iff_firstColumns : JoinSymmetric oneColumn twoColumns 0 0 := by
  have getA : oneColumn.relStats[0]? = some ⟨0, 9, 5, 4, [1]⟩ := rfl
  have getB : twoColumns.relStats[0]? = some ⟨0, 9, 8, 2, [1]⟩ := rfl
  apply (joinSymmetric_iff getA getB rfl rfl).mpr
  exact ⟨by decide, by decide, .inl rfl⟩

/-- The block of one column is read at the second one. -/
theorem joinSymmetric_secondColumn :
    oneColumn.relStats[0]? = some ⟨0, 9, 5, 4, [1]⟩ ∧
      twoColumns.relStats[1]? = some ⟨0, 9, 8, 2, [1]⟩ ∧
      ¬ JoinSymmetric oneColumn twoColumns 0 1 := by
  refine ⟨rfl, rfl, ?_⟩
  intro symmetric
  have inside := symmetric.within.ofA 1 (by simp [joinReads])
  exact absurd inside (by decide)

end JoinOperator.Planner
