import JoinOperator.Foundation.Reachability
import JoinOperator.RadixJoin.BuiltIndex
import JoinOperator.RadixJoin.Partitioned
import JoinOperator.RadixJoin.RadixHashJoin

/-! # What the warehouses hold

Only base columns get into the warehouses, with the number of bits that they
were reordered with, and a column has a best reordered array if and only if it
has an index.
-/

namespace JoinOperator.RadixJoin

open Foundation

/-- The tuples of a whole base column, as `forgeRelationsheep` makes them. -/
def columnTuples (column : List Nat) : List Tuple :=
  column.zipIdx.map fun (key, payload) => ⟨key, payload⟩

def wholeColumn (relArr : List Relationsheep) (rel col : Nat) : Option (List Tuple) := do
  let relation ← relArr[rel]?
  let column ← relation.pointToCols[col]?
  some (columnTuples column)

structure IsColumn (relArr : List Relationsheep) (r : Relation) : Prop where
  whole : wholeColumn relArr r.realRel r.realCol = some r.tuples
  nonempty : 0 < r.size

/-- How `performRHJ` calls `radixHashJoin`. -/
inductive Call (relArr : List Relationsheep) : Relation → Relation → Nat → Prop
  | columns {rRel sRel : Relation} (isColumn : IsColumn relArr rRel)
      (isColumn' : IsColumn relArr sRel) : Call relArr rRel sRel 0
  | mixed (rRel : Relation) {sRel : Relation} (isColumn : IsColumn relArr sRel) :
      Call relArr rRel sRel 1
  | intermediates (rRel sRel : Relation) : Call relArr rRel sRel 2

def Joins (relArr : List Relationsheep) (warehouses after : Warehouses) : Prop :=
  ∃ orders rRel sRel switched results switchedAfter, Call relArr rRel sRel switched ∧
    radixHashJoin orders warehouses rRel sRel switched = some (results, switchedAfter, after)

def Ware.column (ware : Ware) : Nat × Nat := (ware.rel, ware.col)

/-- What holds of the warehouses when `best` are the columns that have a best
reordered array. -/
structure Warehouses.Stored (relArr : List Relationsheep) (best : List (Nat × Nat))
    (warehouses : Warehouses) : Prop where
  shape : warehouses.bestHashValues.map List.length = relArr.map Relationsheep.cols
  once : (warehouses.indexWarehouse.map Ware.column).Nodup
  best : ∀ rel col cell, warehouses.best rel col = some cell →
    (cell.isSome ↔ (rel, col) ∈ best)
  bestStored : ∀ rel col array, warehouses.best rel col = some (some array) →
    ∃ ware ∈ warehouses.reWarehouse, ware.rel = rel ∧ ware.col = col ∧ ware.array = array
  indexes : ∀ ware ∈ warehouses.indexWarehouse, ∃ tuples array,
    wholeColumn relArr ware.rel ware.col = some tuples ∧
      array.Partitions ware.hash1 tuples ∧ indexing array ware.hash1 = some ware.indexes
  arrays : ∀ ware ∈ warehouses.reWarehouse, ∃ tuples,
    wholeColumn relArr ware.rel ware.col = some tuples ∧
      ware.array.Partitions ware.hash1 tuples

/-- A column has a best reordered array if and only if it has an index. -/
def Warehouses.Coherent (relArr : List Relationsheep) (warehouses : Warehouses) : Prop :=
  warehouses.Stored relArr (warehouses.indexWarehouse.map Ware.column)

theorem initialiseWarehouses_coherent (relArr : List Relationsheep) :
    (initialiseWarehouses relArr).Coherent relArr := by
  have empty (rel col : Nat) (cell : Option ReorderedR)
      (get : (initialiseWarehouses relArr).best rel col = some cell) : cell = none := by
    rw [Warehouses.best, initialiseWarehouses, List.getElem?_map] at get
    cases relation : relArr[rel]? with
    | none =>
        rw [relation] at get
        cases get
    | some relation' =>
        rw [relation] at get
        exact List.eq_of_mem_replicate (List.mem_of_getElem? get)
  refine ⟨?_, List.nodup_nil, ?_, ?_, by simp [initialiseWarehouses],
    by simp [initialiseWarehouses]⟩
  · simp [initialiseWarehouses, Function.comp_def]
  · intro rel col cell get
    rw [empty rel col cell get]
    simp [initialiseWarehouses]
  · intro rel col array get
    cases empty rel col _ get

namespace Warehouses

variable {relArr : List Relationsheep} {best : List (Nat × Nat)} {warehouses : Warehouses}

theorem Stored.columns (stored : warehouses.Stored relArr best) {rel col : Nat}
    {tuples : List Tuple} (whole : wholeColumn relArr rel col = some tuples) :
    ∃ columns, warehouses.bestHashValues[rel]? = some columns ∧ col < columns.length := by
  rcases Option.bind_eq_some_iff.mp whole with ⟨relation, getRelation, inRelation⟩
  rcases Option.bind_eq_some_iff.mp inRelation with ⟨column, getColumn, _⟩
  have lengths := congrArg (fun shape => shape[rel]?) stored.shape
  simp only [List.getElem?_map, getRelation, Option.map_some] at lengths
  rcases Option.map_eq_some_iff.mp lengths with ⟨columns, getColumns, length⟩
  refine ⟨columns, getColumns, ?_⟩
  rw [length]
  exact (List.getElem?_eq_some_iff.mp getColumn).1

theorem Stored.fetchIndex (stored : warehouses.Stored relArr best) {rel col hash1 : Nat}
    {indArr : IndexArray}
    (fetched : warehouses.fetchFromIndexWarehouse rel col = some (indArr, hash1)) :
    ∃ tuples array, wholeColumn relArr rel col = some tuples ∧
      array.Partitions hash1 tuples ∧ indexing array hash1 = some indArr := by
  rcases Option.map_eq_some_iff.mp fetched with ⟨ware, found, equal⟩
  cases equal
  have same := List.find?_some found
  rw [decide_eq_true_iff] at same
  rcases same with ⟨rfl, rfl⟩
  exact stored.indexes ware (List.mem_of_find?_eq_some found)

theorem fetchIndex_eq_none {rel col : Nat} :
    warehouses.fetchFromIndexWarehouse rel col = none ↔
      (rel, col) ∉ warehouses.indexWarehouse.map Ware.column := by
  rw [fetchFromIndexWarehouse, Option.map_eq_none_iff, List.find?_eq_none]
  simp [Ware.column]

theorem Stored.fetchRe (stored : warehouses.Stored relArr best) (rel col : Nat) {hash1 : Nat}
    (bits : hash1 < 64) : ∃ cell, warehouses.fetchFromReWarehouse rel col hash1 = some cell ∧
      ∀ array, cell = some array → ∃ tuples, wholeColumn relArr rel col = some tuples ∧
        array.Partitions hash1 tuples := by
  have notFirst : hash1 ≠ firstReordered := by
    rw [firstReordered]
    omega
  refine ⟨_, if_neg notFirst, ?_⟩
  intro array fetched
  rcases Option.map_eq_some_iff.mp fetched with ⟨ware, found, rfl⟩
  have same := List.find?_some found
  rw [decide_eq_true_iff] at same
  rcases same with ⟨rfl, rfl, rfl⟩
  exact stored.arrays ware (List.mem_of_find?_eq_some found)

theorem Coherent.fetchBest (coherent : warehouses.Coherent relArr) {rel col : Nat}
    (noIndex : warehouses.fetchFromIndexWarehouse rel col = none)
    {cell : Option ReorderedR}
    (fetched : warehouses.fetchFromReWarehouse rel col firstReordered = some cell) :
    cell = none := by
  rw [fetchFromReWarehouse, if_pos rfl] at fetched
  rw [← Option.not_isSome_iff_eq_none, coherent.best rel col cell fetched]
  exact fetchIndex_eq_none.mp noIndex

theorem Coherent.fetchBest_column (coherent : warehouses.Coherent relArr) {r : Relation}
    (isColumn : IsColumn relArr r)
    (noIndex : warehouses.fetchFromIndexWarehouse r.realRel r.realCol = none) :
    warehouses.fetchFromReWarehouse r.realRel r.realCol firstReordered = some none := by
  rcases coherent.columns isColumn.whole with ⟨columns, getColumns, inside⟩
  have read : warehouses.fetchFromReWarehouse r.realRel r.realCol firstReordered =
      some columns[r.realCol] := by
    rw [fetchFromReWarehouse, if_pos rfl, Warehouses.best, getColumns]
    exact List.getElem?_eq_getElem inside
  rw [read, coherent.fetchBest noIndex read]

theorem Stored.addArray (stored : warehouses.Stored relArr best) {rel col hash1 : Nat}
    {array : ReorderedR} {tuples : List Tuple}
    (whole : wholeColumn relArr rel col = some tuples)
    (partitions : array.Partitions hash1 tuples) :
    ({ warehouses with
        reWarehouse := warehouses.reWarehouse ++ [⟨rel, col, hash1, array⟩] } :
      Warehouses).Stored relArr best where
  shape := stored.shape
  once := stored.once
  best := stored.best
  bestStored := by
    intro rel' col' array' get
    rcases stored.bestStored rel' col' array' get with ⟨ware, member, same⟩
    exact ⟨ware, List.mem_append_left _ member, same⟩
  indexes := stored.indexes
  arrays := by
    intro ware member
    rcases List.mem_append.mp member with member | member
    · exact stored.arrays ware member
    · cases List.mem_singleton.mp member
      exact ⟨tuples, whole, partitions⟩

private theorem best_set (warehouses : Warehouses) {rel col : Nat}
    {columns : List (Option ReorderedR)}
    (getColumns : warehouses.bestHashValues[rel]? = some columns) (inside : col < columns.length)
    (cell : Option ReorderedR) (rel' col' : Nat) :
    ({ warehouses with
        bestHashValues := warehouses.bestHashValues.set rel (columns.set col cell) } :
      Warehouses).best rel' col' =
      if rel = rel' ∧ col = col' then some cell else warehouses.best rel' col' := by
  have bound := (List.getElem?_eq_some_iff.mp getColumns).1
  rw [Warehouses.best, Warehouses.best]
  by_cases sameRel : rel = rel'
  · subst sameRel
    rw [List.getElem?_set_self bound, getColumns]
    by_cases sameCol : col = col'
    · subst sameCol
      rw [if_pos ⟨rfl, rfl⟩]
      exact List.getElem?_set_self inside
    · rw [if_neg fun same => sameCol same.2]
      exact List.getElem?_set_ne sameCol
  · rw [List.getElem?_set_ne sameRel, if_neg fun same => sameRel same.1]

theorem Stored.addBest (stored : warehouses.Stored relArr best) {rel col hash1 : Nat}
    {array : ReorderedR} {tuples : List Tuple}
    (whole : wholeColumn relArr rel col = some tuples)
    (partitions : array.Partitions hash1 tuples) {columns : List (Option ReorderedR)}
    (getColumns : warehouses.bestHashValues[rel]? = some columns)
    (inside : col < columns.length) :
    ({ warehouses with
        bestHashValues := warehouses.bestHashValues.set rel (columns.set col (some array))
        reWarehouse := warehouses.reWarehouse ++ [⟨rel, col, hash1, array⟩] } :
      Warehouses).Stored relArr ((rel, col) :: best) := by
  have added := stored.addArray whole partitions
  have read := best_set { warehouses with
    reWarehouse := warehouses.reWarehouse ++ [⟨rel, col, hash1, array⟩] }
    getColumns inside (some array)
  refine ⟨?_, stored.once, ?_, ?_, stored.indexes, added.arrays⟩
  · rcases List.getElem?_eq_some_iff.mp getColumns with ⟨bound, rfl⟩
    rw [← stored.shape, List.map_set, List.length_set]
    apply List.ext_getElem
    · exact List.length_set ..
    · intro position first second
      rw [List.getElem_set]
      split
      · rename_i same
        subst same
        rw [List.getElem_map]
      · rfl
  · intro rel' col' cell get
    rw [read] at get
    rw [List.mem_cons, Prod.mk.injEq]
    split at get
    · rename_i same
      cases get
      simp [same.1, same.2]
    · rename_i differs
      rw [stored.best rel' col' cell get]
      constructor
      · exact .inr
      · rintro (⟨rfl, rfl⟩ | member)
        · exact absurd ⟨rfl, rfl⟩ differs
        · exact member
  · intro rel' col' array' get
    rw [read] at get
    split at get
    · rename_i same
      rcases same with ⟨rfl, rfl⟩
      cases get
      exact ⟨⟨rel, col, hash1, array⟩, by simp, rfl, rfl, rfl⟩
    · exact added.bestStored rel' col' array' get

/-- `AddToIndexWarehouse` makes up for the best array. -/
theorem Stored.addIndex
    {rel col hash1 : Nat} (stored : warehouses.Stored relArr
      ((rel, col) :: warehouses.indexWarehouse.map Ware.column))
    (noIndex : warehouses.fetchFromIndexWarehouse rel col = none) {array : ReorderedR}
    {tuples : List Tuple} {indexes : IndexArray}
    (whole : wholeColumn relArr rel col = some tuples)
    (partitions : array.Partitions hash1 tuples) (built : indexing array hash1 = some indexes) :
    ({ warehouses with
        indexWarehouse := warehouses.indexWarehouse ++ [⟨rel, col, hash1, indexes⟩] } :
      Warehouses).Coherent relArr where
  shape := stored.shape
  once := by
    rw [List.map_append]
    apply List.nodup_append.mpr
    refine ⟨stored.once, List.nodup_singleton _, ?_⟩
    rintro column member _ isNew rfl
    cases List.mem_singleton.mp isNew
    exact fetchIndex_eq_none.mp noIndex member
  best := by
    intro rel' col' cell get
    rw [stored.best rel' col' cell get, List.map_append, List.mem_append, List.mem_cons,
      List.map_singleton, List.mem_singleton, or_comm]
    rfl
  bestStored := stored.bestStored
  indexes := by
    intro ware member
    rcases List.mem_append.mp member with member | member
    · exact stored.indexes ware member
    · cases List.mem_singleton.mp member
      exact ⟨tuples, array, whole, partitions, built⟩
  arrays := stored.arrays

end Warehouses

end JoinOperator.RadixJoin
