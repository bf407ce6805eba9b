import JoinOperator.Executor.InterList
import JoinOperator.Foundation.Loop
import JoinOperator.PipeIO.WritePipe

/-! # Checksums of the final intermediate -/

namespace JoinOperator.Executor

open Foundation PipeIO

def calcChecksum (rowIds : List Nat) (intRows : Nat) (relValues : List Nat) : Option Nat :=
  (List.range intRows).foldlM (fun sum whichRow => do
    let rowId ← rowIds[whichRow]?
    let value ← relValues[rowId]?
    some ((sum + value) % 2 ^ 64)) 0

/-- The checksums. One for a relation that is not joined is never set. -/
def performChecksums (sums : List ColRel) (headInt : HeadInter) : Option (List Nat) :=
  sums.mapM fun sum => do
    let data ← headInt.nodes[0]?
    let column ← data.columnOf sum.rel
    calcChecksum column.rowIds data.numbOfRows sum.col

/-- The line of `Joiner::join` for a result of `resultSize` rows. -/
def joinerLine (resultSize : Nat) (results : List Nat) : List Char :=
  delimited ' ' '\n' (results.map fun result =>
    if resultSize = 0 then nullText else numeral result)

/-- An intermediate whose columns have all its rows, and sums over columns that
have all its row ids of their relations. -/
structure Summable (data : Inter) (sums : List ColRel) : Prop where
  rectangular : ∀ column ∈ data.columns, column.rowIds.length = data.numbOfRows
  joined : ∀ sum ∈ sums, sum.rel ∈ data.joinedRels
  inRange : ∀ sum ∈ sums, ∀ column ∈ data.columns, column.rel = sum.rel →
    ∀ rowId ∈ column.rowIds, rowId < sum.col.length

def Inter.summands (data : Inter) (sum : ColRel) : List Nat :=
  match data.columnOf sum.rel with
  | some column => column.rowIds.map (sum.col.getD · 0)
  | none => []

/-- The sum of a column, as an unsigned number of 64 bits. -/
def Inter.total (data : Inter) (sum : ColRel) : Nat := (data.summands sum).sum % 2 ^ 64

theorem calcChecksum_eq {rowIds relValues : List Nat}
    (inRange : ∀ rowId ∈ rowIds, rowId < relValues.length) :
    calcChecksum rowIds rowIds.length relValues =
      some ((rowIds.map (relValues.getD · 0)).sum % 2 ^ 64) := by
  let Summed (count sum : Nat) : Prop :=
    sum = ((rowIds.map (relValues.getD · 0)).take count).sum % 2 ^ 64
  have step : ∀ i < rowIds.length, ∀ sum, Summed i sum → ∃ after, (do
      let rowId ← rowIds[i]?
      let value ← relValues[rowId]?
      some ((sum + value) % 2 ^ 64)) = some after ∧ Summed (i + 1) after := by
    intro i below sum isSum
    have get : rowIds[i]? = some rowIds[i] := List.getElem?_eq_getElem below
    have bound := inRange rowIds[i] (List.getElem_mem below)
    refine ⟨(sum + relValues[rowIds[i]]) % 2 ^ 64, ?_, ?_⟩
    · simp only [get, List.getElem?_eq_getElem bound, Option.bind_eq_bind, Option.bind_some]
    · change _ = _
      rw [List.take_add_one, List.sum_append, List.getElem?_map, get, isSum]
      simp [bound]
  have start : Summed 0 0 := rfl
  rcases foldlM_range_invariant Summed start step with ⟨final, ran, isSum⟩
  rw [calcChecksum, ran, isSum, List.take_of_length_le (by rw [List.length_map])]

theorem Summable.performChecksums_eq {headInt : HeadInter} {data : Inter} {sums : List ColRel}
    (summable : Summable data sums) (start : headInt.nodes[0]? = some data) :
    performChecksums sums headInt = some (sums.map data.total) := by
  apply mapM_eq_map
  intro sum member
  rcases Inter.mem_joinedRels_iff.mp (summable.joined sum member) with ⟨column, found⟩
  rcases Inter.columnOf_spec found with ⟨isColumn, isRel⟩
  have bounds := summable.inRange sum member column isColumn isRel
  simp only [start, found, Option.bind_eq_bind, Option.bind_some]
  rw [← summable.rectangular column isColumn, calcChecksum_eq bounds, Inter.total,
    Inter.summands, found]

/-- The emptiness of the result is shown, and the sums of a result with rows. -/
def ShowsEmptiness (headInt : HeadInter) (data : Inter) (sums : List ColRel) : Prop :=
  ∃ checksums, performChecksums sums headInt = some checksums ∧
    writePipe checksums = some (joinerLine data.numbOfRows (sums.map data.total))

theorem total_of_noRows {data : Inter} {sums : List ColRel} (summable : Summable data sums)
    (noRows : data.numbOfRows = 0) {sum : ColRel} : data.total sum = 0 := by
  rw [Inter.total, Inter.summands]
  cases found : data.columnOf sum.rel with
  | none => rfl
  | some column =>
      have length := summable.rectangular column (Inter.columnOf_spec found).1
      rw [noRows, List.length_eq_zero_iff] at length
      simp [length]

/-- The line is the one of the reference if and only if there are no rows, or
no sum is zero or printed with a sign. -/
theorem showsEmptiness_iff {headInt : HeadInter} {data : Inter} {sums : List ColRel}
    (start : headInt.nodes[0]? = some data) (summable : Summable data sums) :
    ShowsEmptiness headInt data sums ↔ data.numbOfRows = 0 ∨
      ∀ sum ∈ sums, data.total sum ≠ 0 ∧ data.total sum < 2 ^ 63 := by
  have performed := summable.performChecksums_eq start
  have shows : ShowsEmptiness headInt data sums ↔ writePipe (sums.map data.total) =
      some (joinerLine data.numbOfRows (sums.map data.total)) := by
    rw [ShowsEmptiness, performed]
    simp
  rw [shows]
  by_cases noRows : data.numbOfRows = 0
  · simp only [noRows, true_or, iff_true]
    have zero : ∀ value ∈ sums.map data.total, value = 0 := by
      intro value member
      rcases List.mem_map.mp member with ⟨sum, _, rfl⟩
      exact total_of_noRows summable noRows
    have small : ∀ value ∈ sums.map data.total, value < 2 ^ 63 := by
      intro value member
      rw [zero value member]
      omega
    have shown : (sums.map data.total).map shownText = (sums.map data.total).map fun result =>
        if 0 = 0 then nullText else numeral result := by
      apply List.map_congr_left
      intro value member
      rw [zero value member]
      rfl
    rw [writePipe_of_lt small, joinerLine, shown]
  · have line : joinerLine data.numbOfRows (sums.map data.total) =
        unsignedLine (sums.map data.total) := by
      rw [joinerLine, unsignedLine]
      simp only [if_neg noRows]
    rw [line, writePipe_unsigned_iff]
    simp [noRows]

theorem showsEmptiness_iff_oneRow :
    ShowsEmptiness ⟨1, [⟨1, [⟨0, [0]⟩]⟩]⟩ ⟨1, [⟨0, [0]⟩]⟩ [⟨0, 0, 0, 0, [7], 1⟩] :=
  (showsEmptiness_iff rfl ⟨by decide, by decide, by decide⟩).mpr (.inr (by decide))

/-- A row whose value is zero is shown as no row. -/
theorem showsEmptiness_zero : Summable ⟨1, [⟨0, [0]⟩]⟩ [⟨0, 0, 0, 0, [0], 1⟩] ∧
    performChecksums [⟨0, 0, 0, 0, [0], 1⟩] ⟨1, [⟨1, [⟨0, [0]⟩]⟩]⟩ = some [0] ∧
    writePipe [0] = some ['N', 'U', 'L', 'L', '\n'] ∧
    ¬ ShowsEmptiness ⟨1, [⟨1, [⟨0, [0]⟩]⟩]⟩ ⟨1, [⟨0, [0]⟩]⟩ [⟨0, 0, 0, 0, [0], 1⟩] := by
  refine ⟨⟨by decide, by decide, by decide⟩, rfl, rfl, ?_⟩
  rintro ⟨checksums, performed, written⟩
  cases performed
  cases written

end JoinOperator.Executor
