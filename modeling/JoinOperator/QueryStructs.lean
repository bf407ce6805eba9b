import JoinOperator.RadixJoin.BasicStructs

/-! # Relations and queries -/

namespace JoinOperator

/-- Statistics of a column. `distinctArray` is a bit vector. -/
structure Stats where
  minI : Nat
  maxU : Nat
  numElements : Nat
  distinctVals : Nat
  distinctArray : List Nat
  deriving DecidableEq, Repr

structure Relationsheep where
  rows : Nat
  pointToCols : List (List Nat)
  statsArray : List Stats
  rectangular : ∀ col ∈ pointToCols, col.length = rows
  deriving DecidableEq, Repr

def Relationsheep.cols (relation : Relationsheep) : Nat := relation.pointToCols.length

/-- A column of a relation of the query. `realRel` is the base relation, `rel`
its position in the query. -/
structure ColRel where
  realRel : Nat
  realCol : Nat
  rel : Nat
  numCol : Nat
  col : List Nat
  rows : Nat
  deriving DecidableEq, Repr

inductive Op where
  | less
  | greater
  | equal
  deriving DecidableEq, Repr

structure Filter where
  participant : ColRel
  op : Op
  value : Nat
  deriving DecidableEq, Repr

structure Join where
  participant1 : ColRel
  participant2 : ColRel
  deriving DecidableEq, Repr

structure Query where
  rels : List Nat
  queryStats : List (List Stats)
  filters : List Filter
  joins : List Join
  priorities : List Nat
  deriving DecidableEq, Repr

namespace Query

def numOfRels (q : Query) : Nat := q.rels.length

def numOfJoins (q : Query) : Nat := q.joins.length

def colsOf (relArr : List Relationsheep) (q : Query) (rel : Nat) : Option Nat := do
  let real ← q.rels[rel]?
  let relation ← relArr[real]?
  some relation.cols

def Has (relArr : List Relationsheep) (q : Query) (participant : ColRel) : Prop :=
  ∃ cols, q.colsOf relArr participant.rel = some cols ∧ participant.numCol < cols

instance (relArr : List Relationsheep) (q : Query) (participant : ColRel) :
    Decidable (q.Has relArr participant) :=
  decidable_of_iff ((q.colsOf relArr participant.rel).any (participant.numCol < ·))
    (by simp [Has, Option.any_eq_true])

/-- What `ConstructQuery` makes of a query about columns that exist. -/
structure WellFormed (relArr : List Relationsheep) (q : Query) : Prop where
  stats : ∀ rel < q.numOfRels, ∃ columns : List Stats, q.queryStats[rel]? = some columns ∧
    q.colsOf relArr rel = some columns.length ∧ 0 < columns.length
  filters : ∀ filter ∈ q.filters, q.Has relArr filter.participant
  joins : ∀ join ∈ q.joins, q.Has relArr join.participant1 ∧ q.Has relArr join.participant2

theorem Has.lt {relArr : List Relationsheep} {q : Query} {participant : ColRel}
    (has : q.Has relArr participant) : participant.rel < q.numOfRels := by
  rcases has with ⟨cols, isCols, _⟩
  rcases Option.bind_eq_some_iff.mp isCols with ⟨real, get, _⟩
  exact (List.getElem?_eq_some_iff.mp get).1

end Query

end JoinOperator
