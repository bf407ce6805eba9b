import JoinOperator.QueryStructs

/-! # The list of intermediates

A column of an intermediate is an element of `joinedRels` with its row ids, and
`numOfCols` is the number of columns. A node is its position in the list.
-/

namespace JoinOperator.Executor

structure InterColumn where
  rel : Nat
  rowIds : List Nat
  deriving DecidableEq, Repr

structure Inter where
  numbOfRows : Nat
  columns : List InterColumn
  deriving DecidableEq, Repr

def Inter.joinedRels (data : Inter) : List Nat := data.columns.map InterColumn.rel

/-- The loop that looks for `rel` in `joinedRels`. -/
def Inter.columnOf (data : Inter) (rel : Nat) : Option InterColumn :=
  data.columns.find? (·.rel = rel)

structure HeadInter where
  numOfIntermediates : Nat
  nodes : List Inter
  deriving DecidableEq, Repr

def initialiseHead : HeadInter := ⟨0, []⟩

/-- A node is linked behind the last one that is counted. -/
def pushInter (head : HeadInter) (data : Inter) : Option HeadInter :=
  if head.numOfIntermediates ≤ head.nodes.length then
    some ⟨head.numOfIntermediates + 1, head.nodes.take head.numOfIntermediates ++ [data]⟩
  else none

def updateInter (head : HeadInter) (node : Nat) (data : Inter) : HeadInter :=
  { head with nodes := head.nodes.set node data }

def findNode (head : HeadInter) (rel : Nat) : Option Nat :=
  head.nodes.findIdx? (rel ∈ ·.joinedRels)

def Inter.atRows (data : Inter) (rows : List Nat) : Option (List InterColumn) :=
  data.columns.mapM fun column => do
    let rowIds ← rows.mapM (column.rowIds[·]?)
    some ⟨column.rel, rowIds⟩

def updateInterSelfJoin (head : HeadInter) (node : Nat) (joinRows : List Nat) :
    Option HeadInter := do
  let data ← head.nodes[node]?
  let columns ← data.atRows joinRows
  some (updateInter head node ⟨joinRows.length, columns⟩)

def createInterSelfJoin (head : HeadInter) (rel : Nat) (rows : List Nat) : Option HeadInter :=
  pushInter head ⟨rows.length, [⟨rel, rows⟩]⟩

theorem Inter.mem_joinedRels_iff {data : Inter} {rel : Nat} :
    rel ∈ data.joinedRels ↔ ∃ column, data.columnOf rel = some column := by
  rw [Inter.joinedRels, List.mem_map]
  constructor
  · rintro ⟨column, member, rfl⟩
    cases found : data.columnOf column.rel with
    | some first => exact ⟨first, rfl⟩
    | none =>
        have absent := List.find?_eq_none.mp found column member
        simp at absent
  · rintro ⟨column, found⟩
    have isRel := List.find?_some found
    exact ⟨column, List.mem_of_find?_eq_some found, of_decide_eq_true isRel⟩

theorem Inter.columnOf_spec {data : Inter} {rel : Nat} {column : InterColumn}
    (found : data.columnOf rel = some column) : column ∈ data.columns ∧ column.rel = rel :=
  ⟨List.mem_of_find?_eq_some found, of_decide_eq_true (List.find?_some found :)⟩

end JoinOperator.Executor
