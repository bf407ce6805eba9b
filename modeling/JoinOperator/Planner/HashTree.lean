import JoinOperator.Planner.Combinations
import JoinOperator.Planner.QueryStats

/-! # The table of plans

A slot of the table is a set of relations, read as a bit vector.
-/

namespace JoinOperator.Planner

open RadixJoin

/-- Statistics of a relation of a plan. The array has `cols` entries, of which
`distinctArray` is not set. -/
structure HTStats where
  relStats : List Stats
  rel : Nat
  deriving DecidableEq, Repr

/-- `joinSeq` is `none` where it is `NULL`. -/
structure HTNode where
  htstats : List HTStats
  numRels : Nat
  comb : List Char
  cost : Nat
  joinSeq : Option (List Char)
  deriving DecidableEq, Repr

abbrev HashTree := List (Option HTNode)

def charToInteger (c : Char) : Nat := wrapSub c.toNat '0'.toNat

def combToIndex (comb : List Char) : Nat :=
  comb.foldl (fun index c => index ||| (1 <<< charToInteger c)) 0

def initialiseHTNode (q : Query) (rel numCols : Nat) : Option HTNode := do
  let columns ← q.queryStats[rel]?
  let relStats ← (List.range numCols).mapM fun c => columns[c]?
  let first ← columns[0]?
  some {
    htstats := [⟨relStats, rel⟩]
    numRels := 1
    comb := decimal rel ++ [' ']
    cost := first.numElements
    joinSeq := none }

def initialiseSlot (q : Query) (relArr : List Relationsheep) (hashTree : HashTree) (i : Nat) :
    Option HashTree := do
  let rel ← q.rels[i]?
  let relation ← relArr[rel]?
  let node ← initialiseHTNode q i relation.cols
  write hashTree (1 <<< i) (some node)

def initialiseHashTree (size : Nat) (q : Query) (relArr : List Relationsheep) :
    Option HashTree :=
  (List.range q.numOfRels).foldlM (initialiseSlot q relArr) (List.replicate size none)

end JoinOperator.Planner
