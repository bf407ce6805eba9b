import JoinOperator.Executor.TreeRuns
import JoinOperator.QueryText.RoundTrip

/-! # What a query means

A query selects, from all combinations of rows of its relations, those that satisfy its
predicates, and asks for sums of columns over them. Nothing here depends on how it is executed.
-/

namespace JoinOperator.Receiver

open Foundation QueryText
open PipeIO (shownText)

section Semantics

variable (relArr : List Relationsheep) (rels : List Nat)

def valueIn (name : ColumnName Nat) (rowIds : Nat → Nat) : Nat :=
  (do
    let real ← rels[name.rel]?
    let relation ← relArr[real]?
    let values ← relation.pointToCols[name.col]?
    values[rowIds name.rel]?).getD 0

def selects (predicate : Predicate Nat) (rowIds : Nat → Nat) : Bool :=
  match predicate with
  | .join left right => valueIn relArr rels left rowIds = valueIn relArr rels right rowIds
  | .filter participant .less constant => valueIn relArr rels participant rowIds < constant
  | .filter participant .greater constant => valueIn relArr rels participant rowIds > constant
  | .filter participant .equal constant => valueIn relArr rels participant rowIds = constant

end Semantics

def relationsOf : Predicate Nat → List Nat
  | .join left right => [left.rel, right.rel]
  | .filter participant _ _ => [participant.rel]

/-- The combinations of rows of some of the relations that satisfy the predicates among them. -/
def resultAmong (relArr : List Relationsheep) (query : AbstractQuery Nat) (among : List Nat) :
    List (List Nat) :=
  (tuplesBelow (among.map (Executor.rowsOf relArr query.rels))).filter fun rows =>
    query.predicates.all fun predicate => decide (relationsOf predicate ⊆ among →
      selects relArr query.rels predicate (valueAt among rows) = true)

def result (relArr : List Relationsheep) (query : AbstractQuery Nat) : List (List Nat) :=
  (tuplesBelow ((List.range query.rels.length).map (Executor.rowsOf relArr query.rels))).filter
    fun rows => query.predicates.all fun predicate =>
      selects relArr query.rels predicate (rows.getD · 0)

def sumOf (relArr : List Relationsheep) (query : AbstractQuery Nat) (name : ColumnName Nat) : Nat :=
  ((result relArr query).map fun rows => valueIn relArr query.rels name (rows.getD · 0)).sum

/-- The line with the sums of a query, as numbers of 64 bits. -/
def answerLine (relArr : List Relationsheep) (query : AbstractQuery Nat) : List Char :=
  delimited ' ' '\n' (query.sums.map fun name =>
    shownText (sumOf relArr query name % 2 ^ 64))

/-- The relations, adjacent when a join compares columns of both. -/
def joinedRelations (query : AbstractQuery Nat) : SimpleGraph Nat :=
  SimpleGraph.fromRel fun s r => ∃ join ∈ query.joins, join.1.rel = s ∧ join.2.rel = r

/-- Two to ten relations that are connected by one join less, besides joins of a relation with
itself, which compare different columns. -/
structure IsTreeQuery (query : AbstractQuery Nat) : Prop where
  many : 2 ≤ query.rels.length
  few : query.rels.length ≤ 10
  digits : query.joins.length ≤ 10
  connected : ConnectedOn (joinedRelations query) (Finset.range query.rels.length)
  links : (query.joins.countP fun join => join.1.rel ≠ join.2.rel) + 1 = query.rels.length
  columns : ∀ join ∈ query.joins, join.1.rel = join.2.rel → join.1.col ≠ join.2.col

/-- There is memory for the combinations of rows. -/
def Answerable (relArr : List Relationsheep) (query : AbstractQuery Nat) : Prop :=
  ∀ among : List Nat, among.Nodup → (∀ rel ∈ among, rel < query.rels.length) →
    (resultAmong relArr query among).length < 2 ^ 59

section Congruence

variable {relArr : List Relationsheep} {query : AbstractQuery Nat}

theorem selects_congr {rels : List Nat} {predicate : Predicate Nat} {f g : Nat → Nat}
    (same : ∀ rel ∈ relationsOf predicate, f rel = g rel) :
    selects relArr rels predicate f = selects relArr rels predicate g := by
  cases predicate with
  | join left right =>
      rw [selects, selects, valueIn, valueIn, valueIn, valueIn, same left.rel List.mem_cons_self,
        same right.rel (List.mem_cons_of_mem _ List.mem_cons_self)]
  | filter participant op constant =>
      have sameRow := same participant.rel List.mem_cons_self
      cases op with
      | less => rw [selects, selects, valueIn, valueIn, sameRow]
      | greater => rw [selects, selects, valueIn, valueIn, sameRow]
      | equal => rw [selects, selects, valueIn, valueIn, sameRow]

theorem valueAt_range {numOfRels rel : Nat} (below : rel < numOfRels) (rows : List Nat) :
    valueAt (List.range numOfRels) rows rel = rows.getD rel 0 := by
  have inside : rel < (List.range numOfRels).length := by
    rwa [List.length_range]
  have atRel : (List.range numOfRels).idxOf (List.range numOfRels)[rel] = rel :=
    List.nodup_range.idxOf_getElem rel inside
  rw [List.getElem_range] at atRel
  rw [valueAt, atRel]

theorem relationsOf_lt (valid : query.Valid relArr) {predicate : Predicate Nat}
    (member : predicate ∈ query.predicates) :
    ∀ rel ∈ relationsOf predicate, rel < query.rels.length := by
  have below {name : ColumnName Nat} (isName : name.Valid relArr query.rels) :
      name.rel < query.rels.length := by
    rcases isName.column with ⟨real, relation, isReal, _⟩
    exact (List.getElem?_eq_some_iff.mp isReal).1
  have isValid := valid.predicates predicate member
  cases predicate with
  | join left right =>
      intro rel isRel
      rcases List.mem_pair.mp isRel with rfl | rfl
      · exact below isValid.1
      · exact below isValid.2
  | filter participant op constant =>
      intro rel isRel
      rw [List.mem_singleton.mp isRel]
      exact below isValid.1

theorem result_eq (valid : query.Valid relArr) :
    result relArr query = resultAmong relArr query (List.range query.rels.length) := by
  rw [result, resultAmong]
  apply List.filter_congr
  intro rows _
  rw [Bool.eq_iff_iff, List.all_eq_true, List.all_eq_true]
  have same {predicate : Predicate Nat} (member : predicate ∈ query.predicates) :
      selects relArr query.rels predicate (valueAt (List.range query.rels.length) rows) =
        selects relArr query.rels predicate (rows.getD · 0) :=
    selects_congr fun rel isRel => valueAt_range (relationsOf_lt valid member rel isRel) rows
  constructor
  · intro selected predicate member
    apply decide_eq_true
    intro _
    rw [same member]
    exact selected predicate member
  · intro selected predicate member
    rw [← same member]
    exact of_decide_eq_true (selected predicate member) fun rel isRel =>
      List.mem_range.mpr (relationsOf_lt valid member rel isRel)

end Congruence

end JoinOperator.Receiver
