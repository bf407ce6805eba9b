import JoinOperator.Executor.JointPerformer
import JoinOperator.Foundation.PartialResults

/-! # The tuples of an intermediate

A row of an intermediate is a tuple of row ids, one for each of its relations.
-/

namespace JoinOperator.Executor

open Foundation

def rowAt (columns : List InterColumn) (i : Nat) : List Nat :=
  columns.map fun column => column.rowIds.getD i 0

namespace Inter

def row (data : Inter) (i : Nat) : List Nat := rowAt data.columns i

def tuples (data : Inter) : List (List Nat) := (List.range data.numbOfRows).map data.row

def part (data : Inter) : PartialResult Nat := ⟨data.joinedRels, data.tuples⟩

def Rectangular (data : Inter) : Prop :=
  ∀ column ∈ data.columns, column.rowIds.length = data.numbOfRows

def pick (data : Inter) (rows : List Nat) : List InterColumn :=
  data.columns.map fun column => ⟨column.rel, rows.map (column.rowIds.getD · 0)⟩

/-- A relation without an intermediate, as one of all its rows. -/
def base (rel rows : Nat) : Inter := ⟨rows, [⟨rel, List.range rows⟩]⟩

theorem pick_rels (data : Inter) (rows : List Nat) :
    (data.pick rows).map InterColumn.rel = data.joinedRels := by
  rw [pick, List.map_map]
  rfl

theorem atRows_eq {data : Inter} (rectangular : data.Rectangular) {rows : List Nat}
    (inside : ∀ i ∈ rows, i < data.numbOfRows) : data.atRows rows = some (data.pick rows) := by
  apply mapM_eq_map
  intro column member
  have read : rows.mapM (column.rowIds[·]?) = some (rows.map (column.rowIds.getD · 0)) := by
    apply mapM_eq_map
    intro i isRow
    have below : i < column.rowIds.length := rectangular column member ▸ inside i isRow
    rw [List.getD_eq_getElem _ _ below, List.getElem?_eq_getElem below]
  rw [read]
  rfl

theorem columnOf_getD {data : Inter} {rel : Nat} {column : InterColumn}
    (found : data.columnOf rel = some column) (i : Nat) :
    column.rowIds.getD i 0 = valueAt data.joinedRels (data.row i) rel := by
  rcases data with ⟨numbOfRows, columns⟩
  simp only [columnOf, joinedRels, row] at found ⊢
  induction columns with
  | nil => cases found
  | cons first columns induction =>
      rw [List.find?_cons] at found
      by_cases isFirst : first.rel = rel
      · simp only [isFirst, decide_true] at found
        cases found
        simp [valueAt, rowAt, isFirst]
      · simp only [isFirst, decide_false] at found
        rw [induction found, valueAt, valueAt, List.map_cons, rowAt, rowAt, List.map_cons,
          List.idxOf_cons_ne _ isFirst, List.getD_cons_succ]

theorem rowAt_append (front back : List InterColumn) (i : Nat) :
    rowAt (front ++ back) i = rowAt front i ++ rowAt back i :=
  List.map_append

theorem rowAt_pick {data : Inter} {rows : List Nat} {i : Nat} (inside : i < rows.length) :
    rowAt (data.pick rows) i = data.row rows[i] := by
  rw [rowAt, pick, List.map_map, row, rowAt]
  apply List.map_congr_left
  intro column _
  simp [inside]

theorem pick_rectangular (data : Inter) (rows : List Nat) :
    ∀ column ∈ data.pick rows, column.rowIds.length = rows.length := by
  intro column member
  rcases List.mem_map.mp member with ⟨original, _, rfl⟩
  exact List.length_map _

theorem tuples_pick (data : Inter) (rows : List Nat) :
    tuples ⟨rows.length, data.pick rows⟩ = rows.map data.row := by
  apply List.ext_getElem
  · simp [tuples]
  · intro i inside inside'
    rw [List.length_map] at inside'
    simp only [tuples, List.getElem_map, List.getElem_range]
    exact rowAt_pick inside'

theorem tuples_pick_pick (data1 data2 : Inter) (rows : List (Nat × Nat)) :
    tuples ⟨rows.length, data1.pick (rows.map Prod.fst) ++ data2.pick (rows.map Prod.snd)⟩ =
      rows.map fun pair => data1.row pair.1 ++ data2.row pair.2 := by
  apply List.ext_getElem
  · simp [tuples]
  · intro i inside inside'
    rw [List.length_map] at inside'
    have first : i < (rows.map Prod.fst).length := (List.length_map _).symm ▸ inside'
    have second : i < (rows.map Prod.snd).length := (List.length_map _).symm ▸ inside'
    simp only [tuples, List.getElem_map, List.getElem_range, row, rowAt_append]
    rw [rowAt_pick first, rowAt_pick second, List.getElem_map, List.getElem_map]
    rfl

theorem base_row {rows i : Nat} (rel : Nat) (inside : i < rows) : (base rel rows).row i = [i] := by
  simp [base, row, rowAt, inside]

theorem base_part (rel rows : Nat) :
    (base rel rows).part = ⟨[rel], (List.range rows).map ([·])⟩ := by
  rw [part, tuples]
  congr 1
  apply List.map_congr_left
  intro i member
  exact base_row rel (List.mem_range.mp member)

theorem base_pick {rel rows : Nat} {picked : List Nat}
    (inside : ∀ i ∈ picked, i < (base rel rows).numbOfRows) :
    (base rel rows).pick picked = [⟨rel, picked⟩] := by
  have same : picked.map ((List.range rows).getD · 0) = picked := by
    refine (List.map_congr_left fun i member => ?_).trans (List.map_id picked)
    have below : i < (List.range rows).length := List.length_range.symm ▸ inside i member
    rw [List.getD_eq_getElem _ _ below, List.getElem_range]
    rfl
  rw [pick, base, List.map_singleton, same]

end Inter

end JoinOperator.Executor
