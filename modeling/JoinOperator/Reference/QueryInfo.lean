import JoinOperator.Foundation.Tokens
import JoinOperator.QueryStructs

/-! # Queries of the reference

The reference reads a query from its line with streams, and can write it back. Numbers of type
`unsigned` have 32 bits and those of `stoul` 64 bits. A fault is an exception, an assertion that
fails, or a vector that is read behind its end.
-/

namespace JoinOperator.Reference

open Foundation

inductive Fault where
  | invalidArgument
  | outOfRange
  | assertion
  | access
  | relation
  | comparator
  | dangling
  | noPredicate
  deriving DecidableEq, Repr

structure SelectInfo where
  relId : Nat
  binding : Nat
  colId : Nat
  deriving DecidableEq, Repr

structure FilterInfo where
  filterColumn : SelectInfo
  constant : Nat
  comparison : Op
  deriving DecidableEq, Repr

structure PredicateInfo where
  left : SelectInfo
  right : SelectInfo
  deriving DecidableEq, Repr

structure QueryInfo where
  relationIds : List Nat
  predicates : List PredicateInfo
  filters : List FilterInfo
  selections : List SelectInfo
  deriving DecidableEq, Repr

/-! ## Reading -/

def isSpace (c : Char) : Bool := c = ' ' || ('\t' ≤ c && c ≤ '\r')

/-- The digits that are read, after a sign, and whether the sign is a minus. -/
def splitSign : List Char → Bool × List Char
  | '-' :: rest => (true, rest.takeWhile Char.isDigit)
  | '+' :: rest => (false, rest.takeWhile Char.isDigit)
  | rest => (false, rest.takeWhile Char.isDigit)

def stoul (token : List Char) : Except Fault Nat :=
  let (negative, digits) := splitSign (token.dropWhile isSpace)
  if digits = [] then .error .invalidArgument
  else if 2 ^ 64 ≤ numeralValue digits then .error .outOfRange
  else .ok (if negative then (2 ^ 64 - numeralValue digits) % 2 ^ 64 else numeralValue digits)

def orFault {α : Type} (fault : Fault) : Option α → Except Fault α
  | none => .error fault
  | some value => .ok value

def splitNumbers (delimiter : Char) (line : List Char) : Except Fault (List Nat) :=
  (tokens delimiter line).mapM fun token => do
    let number ← stoul token
    .ok (number % 2 ^ 32)

def comparisonOf (c : Char) : Option Op :=
  if c = '<' then some .less
  else if c = '>' then some .greater
  else if c = '=' then some .equal
  else none

def comparisonTypes : List Char := ['<', '>', '=']

def splitPredicates (line : List Char) : List (List Char) :=
  match comparisonTypes.find? (line.contains ·) with
  | none => []
  | some cT => tokens cT line

def parseRelColPair (raw : List Char) : Except Fault SelectInfo := do
  let ids ← splitNumbers '.' raw
  let binding ← orFault .access ids[0]?
  let colId ← orFault .access ids[1]?
  .ok ⟨0, binding, colId⟩

def isConstant (raw : List Char) : Bool := !raw.contains '.'

def parsePredicate (query : QueryInfo) (rawPredicate : List Char) : Except Fault QueryInfo :=
  match splitPredicates rawPredicate with
  | [relCol, other] =>
      if isConstant relCol then .error .assertion
      else do
        let leftSelect ← parseRelColPair relCol
        if isConstant other then do
          let constant ← stoul other
          let compType ← orFault .access rawPredicate[relCol.length]?
          let comparison ← orFault .access (comparisonOf compType)
          .ok { query with filters := query.filters ++ [⟨leftSelect, constant, comparison⟩] }
        else do
          let rightSelect ← parseRelColPair other
          .ok { query with predicates := query.predicates ++ [⟨leftSelect, rightSelect⟩] }
  | _ => .error .assertion

def resolveIds (relationIds : List Nat) (selectInfo : SelectInfo) : Except Fault SelectInfo := do
  let relId ← orFault .access relationIds[selectInfo.binding]?
  .ok { selectInfo with relId }

def resolvePredicate (relationIds : List Nat) (pInfo : PredicateInfo) :
    Except Fault PredicateInfo := do
  let left ← resolveIds relationIds pInfo.left
  let right ← resolveIds relationIds pInfo.right
  .ok ⟨left, right⟩

def resolveFilter (relationIds : List Nat) (fInfo : FilterInfo) : Except Fault FilterInfo := do
  let filterColumn ← resolveIds relationIds fInfo.filterColumn
  .ok { fInfo with filterColumn }

def resolveRelationIds (query : QueryInfo) : Except Fault QueryInfo := do
  let selections ← query.selections.mapM (resolveIds query.relationIds)
  let predicates ← query.predicates.mapM (resolvePredicate query.relationIds)
  let filters ← query.filters.mapM (resolveFilter query.relationIds)
  .ok { query with predicates, filters, selections }

def parseQuery (rawQuery : List Char) : Except Fault QueryInfo :=
  match tokens '|' rawQuery with
  | [rawRelations, rawPredicates, rawSelections] => do
      let relationIds ← splitNumbers ' ' rawRelations
      let query ← (tokens '&' rawPredicates).foldlM parsePredicate ⟨relationIds, [], [], []⟩
      let selections ← (tokens ' ' rawSelections).mapM parseRelColPair
      resolveRelationIds { query with selections }
  | _ => .error .assertion

/-! ## Writing -/

def comparisonChar : Op → Char
  | .less => '<'
  | .greater => '>'
  | .equal => '='

def SelectInfo.dumpText (info : SelectInfo) : List Char :=
  numeral info.binding ++ '.' :: numeral info.colId

def FilterInfo.dumpText (fInfo : FilterInfo) : List Char :=
  fInfo.filterColumn.dumpText ++ comparisonChar fInfo.comparison :: numeral fInfo.constant

def PredicateInfo.dumpText (pInfo : PredicateInfo) : List Char :=
  pInfo.left.dumpText ++ '=' :: pInfo.right.dumpText

def QueryInfo.dumpText (query : QueryInfo) : List Char :=
  separated ' ' (query.relationIds.map numeral) ++ '|' ::
    (separated '&' (query.predicates.map PredicateInfo.dumpText) ++
      ((if query.predicates ≠ [] ∧ query.filters ≠ [] then ['&'] else []) ++
        (separated '&' (query.filters.map FilterInfo.dumpText) ++ '|' ::
          separated ' ' (query.selections.map SelectInfo.dumpText))))

end JoinOperator.Reference
