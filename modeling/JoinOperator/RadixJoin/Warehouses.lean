import JoinOperator.QueryStructs
import JoinOperator.RadixJoin.Indexing
import JoinOperator.RadixJoin.Reorder

/-! # The warehouses of indexes and of reordered columns

They keep what one join has built of a base column for the joins of later
queries. Both have a fixed capacity, which is not checked: adding to a full
warehouse writes outside of its arrays.
-/

namespace JoinOperator.RadixJoin

structure Ware where
  rel : Nat
  col : Nat
  hash1 : Nat
  indexes : IndexArray
  deriving DecidableEq, Repr

structure ReWare where
  rel : Nat
  col : Nat
  hash1 : Nat
  array : ReorderedR
  deriving DecidableEq, Repr

structure Warehouses where
  indexWarehouse : List Ware
  reWarehouse : List ReWare
  bestHashValues : List (List (Option ReorderedR))
  deriving DecidableEq, Repr

def indexCapacity : Nat := 1000

def reCapacity : Nat := 5000

def initialiseWarehouses (relArr : List Relationsheep) : Warehouses where
  indexWarehouse := []
  reWarehouse := []
  bestHashValues := relArr.map fun relation => List.replicate relation.cols none

namespace Warehouses

def best (warehouses : Warehouses) (rel col : Nat) : Option (Option ReorderedR) := do
  let columns ← warehouses.bestHashValues[rel]?
  columns[col]?

def fetchFromIndexWarehouse (warehouses : Warehouses) (rel col : Nat) :
    Option (IndexArray × Nat) :=
  (warehouses.indexWarehouse.find? fun ware => ware.rel = rel ∧ ware.col = col).map
    fun ware => (ware.indexes, ware.hash1)

def fetchFromReWarehouse (warehouses : Warehouses) (rel col hash1 : Nat) :
    Option (Option ReorderedR) :=
  if hash1 = firstReordered then warehouses.best rel col
  else some ((warehouses.reWarehouse.find? fun ware =>
    ware.rel = rel ∧ ware.col = col ∧ ware.hash1 = hash1).map ReWare.array)

def addToIndexWarehouse (warehouses : Warehouses) (rel col hash1 : Nat)
    (indexes : IndexArray) : Option Warehouses :=
  if warehouses.indexWarehouse.length < indexCapacity then
    some { warehouses with
      indexWarehouse := warehouses.indexWarehouse ++ [⟨rel, col, hash1, indexes⟩] }
  else none

def setBest (warehouses : Warehouses) (rel col : Nat) (array : ReorderedR) :
    Option Warehouses := do
  let columns ← warehouses.bestHashValues[rel]?
  let columns ← write columns col (some array)
  some { warehouses with bestHashValues := warehouses.bestHashValues.set rel columns }

def addToReWarehouse (warehouses : Warehouses) (rel col hash1 : Nat) (array : ReorderedR)
    (best : Bool) : Option Warehouses := do
  let warehouses ← if best then warehouses.setBest rel col array else some warehouses
  if warehouses.reWarehouse.length < reCapacity then
    some { warehouses with
      reWarehouse := warehouses.reWarehouse ++ [⟨rel, col, hash1, array⟩] }
  else none

end Warehouses

end JoinOperator.RadixJoin
