import JoinOperator.Reference.Operators
import Mathlib.Data.Finset.Basic

/-! # The reference joiner

The joins are built in the order of the predicates. A predicate that is not connected yet is moved
behind the others, and the operators keep references to the predicates, so this may not make the
vector of the predicates grow beyond its capacity.
-/

namespace JoinOperator.Reference

open Foundation

def filtersOf (query : QueryInfo) (binding : Nat) : List FilterInfo :=
  query.filters.filter fun f => f.filterColumn.binding = binding

def addScan (relations : List Relation) (query : QueryInfo) (usedRelations : Finset Nat)
    (info : SelectInfo) : Except Fault (Finset Nat × Operator) := do
  let relation ← orFault .relation relations[info.relId]?
  .ok (insert info.binding usedRelations,
    match filtersOf query info.binding with
    | [] => .scan relation info.binding .empty
    | f :: rest => .filterScan relation f.filterColumn.binding (f :: rest) .empty)

inductive QueryGraphProvides where
  | left
  | right
  | both
  | none
  deriving DecidableEq, Repr

def analyzeInputOfJoin (usedRelations : Finset Nat) (leftInfo rightInfo : SelectInfo) :
    QueryGraphProvides :=
  if leftInfo.binding ∈ usedRelations then
    if rightInfo.binding ∈ usedRelations then .both else .left
  else if rightInfo.binding ∈ usedRelations then .right
  else .none

/-- The operators that are built, and the relations in them. -/
structure Joined where
  usedRelations : Finset Nat
  root : Operator

section Joining

variable (relations : List Relation) (query : QueryInfo)

def startJoin (firstJoin : PredicateInfo) : Except Fault Joined := do
  let (usedRelations, left) ← addScan relations query ∅ firstJoin.left
  let (usedRelations, right) ← addScan relations query usedRelations firstJoin.right
  .ok ⟨usedRelations, .join left right firstJoin [] []⟩

def addJoin (joined : Joined) (pInfo : PredicateInfo) : Except Fault (Option Joined) :=
  match analyzeInputOfJoin joined.usedRelations pInfo.left pInfo.right with
  | .left => do
      let (usedRelations, right) ← addScan relations query joined.usedRelations pInfo.right
      .ok (some ⟨usedRelations, .join joined.root right pInfo [] []⟩)
  | .right => do
      let (usedRelations, left) ← addScan relations query joined.usedRelations pInfo.left
      .ok (some ⟨usedRelations, .join left joined.root pInfo [] []⟩)
  | .both => .ok (some ⟨joined.usedRelations, .selfJoin joined.root pInfo []⟩)
  | .none => .ok none

/-- The loop over the predicates that are left, of `size` in the vector. -/
def addJoins (capacity size : Nat) (left : List PredicateInfo) (joined : Joined) :
    Except Fault Joined :=
  match left with
  | [] => .ok joined
  | pInfo :: rest =>
      match addJoin relations query joined pInfo with
      | .error fault => .error fault
      | .ok (some next) => addJoins capacity size rest next
      | .ok none =>
          if size < capacity then addJoins capacity (size + 1) (rest ++ [pInfo]) joined
          else .error .dangling
termination_by (capacity - size, left.length)

def buildJoins (capacity : Nat) : Except Fault Joined :=
  match query.predicates with
  | [] => .error .noPredicate
  | firstJoin :: rest => do
      let joined ← startJoin relations query firstJoin
      addJoins relations query capacity query.predicates.length rest joined

end Joining

def nullText : List Char := ['N', 'U', 'L', 'L']

def join (multimap : Multimap) (relations : List Relation) (capacity : Nat) (query : QueryInfo) :
    Except Fault (List Char) := do
  let joined ← buildJoins relations query capacity
  let (results, resultSize) ← joined.root.checkSums multimap query.selections
  .ok (separated ' ' (results.map fun result =>
    if resultSize = 0 then nullText else numeral result) ++ ['\n'])

end JoinOperator.Reference
