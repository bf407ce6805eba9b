import JoinOperator.RadixJoin.ChainFollower
import JoinOperator.RadixJoin.Warehouses

/-! # The radix hash join

One of the sides gets an index, and is then called R, and the tuples of the
other one, S, are searched in it. The flag `switched` tells the caller whether
`sRel` was the indexed side.
-/

namespace JoinOperator.RadixJoin

open Foundation

structure JoinOrders where
  roR : Orders
  roS : Orders
  search : List Turn
  deriving DecidableEq

structure Sides where
  freedomFlag : Nat
  switched : Nat
  h1 : Nat
  indArr : Option IndexArray
  roR : Option ReorderedR
  roS : ReorderedR
  warehouses : Warehouses
  deriving DecidableEq, Repr

/-- `reorderRelation`, followed by `AddToReWarehouse`. -/
def reorderAndAdd (orders : Orders) (warehouses : Warehouses) (relation : Relation)
    (h1 : Nat) (best : Bool) : Option (ReorderedR × Nat × Warehouses) := do
  let (array, h1) ← reorderRelation orders relation h1
  let warehouses ← warehouses.addToReWarehouse relation.realRel relation.realCol h1 array best
  some (array, h1, warehouses)

/-- `FetchFromReWarehouse`, and the reordering when it returns `NULL`. -/
def fetchOrReorder (orders : Orders) (warehouses : Warehouses) (relation : Relation)
    (h1 : Nat) (best : Bool) : Option (ReorderedR × Nat × Warehouses) := do
  match ← warehouses.fetchFromReWarehouse relation.realRel relation.realCol h1 with
  | some array => some (array, h1, warehouses)
  | none => reorderAndAdd orders warehouses relation h1 best

/-- A column that has an index already, and the column `searched`. -/
def indexedColumns (orders : JoinOrders) (warehouses : Warehouses) (indArr : IndexArray)
    (h1 : Nat) (searched : Relation) (switched : Nat) : Option Sides := do
  let (roS, h1, warehouses) ← fetchOrReorder orders.roS warehouses searched h1 false
  some ⟨0, switched, h1, some indArr, none, roS, warehouses⟩

/-- Two columns neither of which is in the `reWarehouse`. -/
def reorderColumns (orders : JoinOrders) (warehouses : Warehouses)
    (indexed searched : Relation) (switched : Nat) : Option Sides := do
  let (roR, h1, warehouses) ← reorderAndAdd orders.roR warehouses indexed firstReordered true
  let (roS, h1, warehouses) ← reorderAndAdd orders.roS warehouses searched h1 false
  some ⟨0, switched, h1, none, some roR, roS, warehouses⟩

def unindexedColumns (orders : JoinOrders) (warehouses : Warehouses)
    (rRel sRel : Relation) : Option Sides := do
  match ← warehouses.fetchFromReWarehouse rRel.realRel rRel.realCol firstReordered with
  | some roR => do
      let (roS, h1, warehouses) ←
        fetchOrReorder orders.roS warehouses sRel firstReordered false
      some ⟨0, 0, h1, none, some roR, roS, warehouses⟩
  | none => do
      match ← warehouses.fetchFromReWarehouse sRel.realRel sRel.realCol firstReordered with
      | some roR => do
          let (roS, h1, warehouses) ←
            reorderAndAdd orders.roS warehouses rRel firstReordered false
          some ⟨0, 0, h1, none, some roR, roS, warehouses⟩
      | none =>
          if rRel.size < sRel.size then reorderColumns orders warehouses rRel sRel 0
          else reorderColumns orders warehouses sRel rRel 1

/-- Two base columns, the case `*switched == 0`. -/
def columnSides (orders : JoinOrders) (warehouses : Warehouses) (rRel sRel : Relation) :
    Option Sides :=
  match warehouses.fetchFromIndexWarehouse rRel.realRel rRel.realCol with
  | some (indArr, h1) => indexedColumns orders warehouses indArr h1 sRel 0
  | none =>
      match warehouses.fetchFromIndexWarehouse sRel.realRel sRel.realCol with
      | some (indArr, h1) => indexedColumns orders warehouses indArr h1 rRel 1
      | none => unindexedColumns orders warehouses rRel sRel

/-- An intermediate `rRel` and a base column, the case `*switched == 1`. -/
def mixedSides (orders : JoinOrders) (warehouses : Warehouses) (rRel sRel : Relation) :
    Option Sides :=
  match warehouses.fetchFromIndexWarehouse sRel.realRel sRel.realCol with
  | some (indArr, h1) => do
      let (roS, h1) ← reorderRelation orders.roS rRel h1
      some ⟨1, 1, h1, some indArr, none, roS, warehouses⟩
  | none => do
      let (roR, h1, warehouses) ←
        fetchOrReorder orders.roR warehouses sRel firstReordered true
      let (roS, h1) ← reorderRelation orders.roS rRel h1
      some ⟨1, 1, h1, none, some roR, roS, warehouses⟩

/-- Two intermediates, the smaller of which is to be indexed. -/
def reorderIntermediates (orders : JoinOrders) (warehouses : Warehouses)
    (indexed searched : Relation) (switched : Nat) : Option Sides := do
  let (roR, h1) ← reorderRelation orders.roR indexed firstReordered
  let (roS, h1) ← reorderRelation orders.roS searched h1
  some ⟨2, switched, h1, none, some roR, roS, warehouses⟩

def intermediateSides (orders : JoinOrders) (warehouses : Warehouses)
    (rRel sRel : Relation) : Option Sides :=
  if rRel.size ≤ sRel.size then reorderIntermediates orders warehouses rRel sRel 0
  else reorderIntermediates orders warehouses sRel rRel 1

def joinSides (orders : JoinOrders) (warehouses : Warehouses) (rRel sRel : Relation)
    (switched : Nat) : Option Sides :=
  if switched = 0 then columnSides orders warehouses rRel sRel
  else if switched = 1 then mixedSides orders warehouses rRel sRel
  else intermediateSides orders warehouses rRel sRel

/-- The calls of `AddToIndexWarehouse`, for an index that was built. -/
def Sides.store (sides : Sides) (rRel sRel : Relation) (indArr : IndexArray) :
    Option Warehouses :=
  if sides.freedomFlag = 1 then
    sides.warehouses.addToIndexWarehouse sRel.realRel sRel.realCol sides.h1 indArr
  else if sides.freedomFlag = 0 then
    if sides.switched = 0 then
      sides.warehouses.addToIndexWarehouse rRel.realRel rRel.realCol sides.h1 indArr
    else sides.warehouses.addToIndexWarehouse sRel.realRel sRel.realCol sides.h1 indArr
  else some sides.warehouses

def Sides.index (sides : Sides) (rRel sRel : Relation) : Option (IndexArray × Warehouses) :=
  match sides.indArr with
  | some indArr => some (indArr, sides.warehouses)
  | none => do
      let roR ← sides.roR
      let indArr ← indexing roR sides.h1
      let warehouses ← sides.store rRel sRel indArr
      some (indArr, warehouses)

/-- The results, with `*switched` and the warehouses on return. -/
def radixHashJoin (orders : JoinOrders) (warehouses : Warehouses) (rRel sRel : Relation)
    (switched : Nat) : Option (HeadResult × Nat × Warehouses) := do
  let sides ← joinSides orders warehouses rRel sRel switched
  let (indArr, warehouses) ← sides.index rRel sRel
  let results ← searchThreadVer orders.search indArr sides.roS
  some (results, sides.switched, warehouses)

end JoinOperator.RadixJoin
