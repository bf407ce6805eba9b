import JoinOperator.Executor.FilterConstants
import JoinOperator.Planner.SetPriorities

/-! # Queries as they are constructed

What is read from the variables of a constructed query is what the planner and the execution
rely on: its participants are columns of the base tables, and no slot of `priorities` is taken.
-/

namespace JoinOperator.QueryText

structure ColRelCells.Holds (cells : ColRelCells) (participant : ColRel) : Prop where
  realRel : cells.realRel.getLast? = some participant.realRel
  realCol : cells.realCol.getLast? = some participant.realCol
  rel : cells.rel.getLast? = some participant.rel
  numCol : cells.numCol.getLast? = some participant.numCol
  col : cells.col.getLast? = some participant.col
  rows : cells.rows.getLast? = some participant.rows

structure JoinCells.Holds (cells : JoinCells) (pred : Join) : Prop where
  participant1 : cells.participant1.Holds pred.participant1
  participant2 : cells.participant2.Holds pred.participant2

structure ConstructedQuery.Holds (constructed : ConstructedQuery) (q : Query) : Prop where
  rels : List.Forall₂ (fun cell real => cell.getLast? = some real) constructed.rels q.rels
  queryStats : q.queryStats = constructed.queryStats
  filters : List.Forall₂ FilterCells.Holds constructed.filters q.filters
  joins : List.Forall₂ JoinCells.Holds constructed.joins q.joins
  priorities : q.priorities = constructed.priorities

end JoinOperator.QueryText

namespace JoinOperator.Executor

open QueryText Planner

/-- What the planner and the execution rely on. -/
structure Executable (relArr : List Relationsheep) (q : Query) : Prop where
  wellFormed : q.WellFormed relArr
  areFilters : ∀ pred ∈ q.filters, IsParticipant relArr q.rels pred.participant
  areJoins : ∀ pred ∈ q.joins, IsJoin relArr q.rels pred
  free : q.priorities = List.replicate q.numOfJoins noPriority

variable {relArr : List Relationsheep} {rels : List Nat}

theorem exists_of_mem_forall₂ {First Second : Type} {R : First → Second → Prop}
    {items : List First} {others : List Second} (related : List.Forall₂ R items others)
    {other : Second} (member : other ∈ others) : ∃ item ∈ items, R item other := by
  induction related with
  | nil => cases member
  | cons isRelated _ induction =>
      cases List.mem_cons.mp member with
      | inl isFirst => exact ⟨_, List.mem_cons_self, isFirst ▸ isRelated⟩
      | inr inRest =>
          rcases induction inRest with ⟨item, isItem, isRelated⟩
          exact ⟨item, List.mem_cons_of_mem _ isItem, isRelated⟩

theorem isParticipant_of_stored {name : ColumnName Nat} {isJoin : Bool} {cells : ColRelCells}
    (stored : name.Stored relArr rels isJoin cells) {participant : ColRel}
    (rel : cells.rel.getLast? = some participant.rel)
    (numCol : cells.numCol.getLast? = some participant.numCol)
    (col : cells.col.getLast? = some participant.col)
    (rows : cells.rows.getLast? = some participant.rows) :
    IsParticipant relArr rels participant := by
  rcases stored with ⟨real, relation, values, isReal, isRelation, isColumn, rfl⟩
  have isRel : name.rel = participant.rel := Option.some.inj rel
  have isCol : name.col = participant.numCol := Option.some.inj numCol
  have isValues : values = participant.col := Option.some.inj col
  rw [isRel] at isReal
  rw [isCol, isValues] at isColumn
  exact ⟨real, relation, isReal, isRelation, isColumn, (Option.some.inj rows).symm⟩

theorem isJoinParticipant_of_stored {name : ColumnName Nat} {cells : ColRelCells}
    (stored : name.Stored relArr rels true cells) {participant : ColRel}
    (holds : cells.Holds participant) : IsJoinParticipant relArr rels participant := by
  have isParticipant := isParticipant_of_stored stored holds.rel holds.numCol holds.col holds.rows
  rcases stored with ⟨real, relation, values, isReal, _, _, rfl⟩
  have isRel : name.rel = participant.rel := Option.some.inj holds.rel
  have isCol : name.col = participant.numCol := Option.some.inj holds.numCol
  have isRealRel : real = participant.realRel := Option.some.inj holds.realRel
  have isRealCol : name.col = participant.realCol := Option.some.inj holds.realCol
  exact ⟨isParticipant, by rw [← isRel, isReal, isRealRel], isRealCol.symm.trans isCol⟩

theorem IsParticipant.has {q : Query} {participant : ColRel}
    (isParticipant : IsParticipant relArr q.rels participant) : q.Has relArr participant := by
  rcases isParticipant.column with ⟨real, relation, isReal, isRelation, isColumn, _⟩
  refine ⟨relation.cols, ?_, (List.getElem?_eq_some_iff.mp isColumn).1⟩
  rw [Query.colsOf, isReal]
  simp only [Option.bind_eq_bind, Option.bind_some, isRelation]

theorem executable_of_stores {query : AbstractQuery Nat} {constructed : ConstructedQuery}
    {q : Query} (loaded : Loaded relArr) (columns : ∀ relation ∈ relArr, 0 < relation.cols)
    (stores : Stores relArr query constructed) (holds : constructed.Holds q) :
    Executable relArr q := by
  have rels : q.rels = query.rels := by
    have related := holds.rels
    rw [stores.rels, List.forall₂_map_left_iff] at related
    have equal : List.Forall₂ Eq query.rels q.rels :=
      related.imp fun _ _ equal => Option.some.inj equal
    rw [List.forall₂_eq_eq_eq] at equal
    exact equal.symm
  have areFilters : ∀ pred ∈ q.filters, IsParticipant relArr q.rels pred.participant := by
    intro pred member
    rcases exists_of_mem_forall₂ holds.filters member with ⟨cells, isCells, held⟩
    rcases exists_of_mem_forall₂ stores.filters isCells with ⟨filter, _, stored⟩
    rw [rels]
    exact isParticipant_of_stored stored.1 held.rel held.numCol held.col held.rows
  have areJoins : ∀ pred ∈ q.joins, IsJoin relArr q.rels pred := by
    intro pred member
    rcases exists_of_mem_forall₂ holds.joins member with ⟨cells, isCells, held⟩
    rcases exists_of_mem_forall₂ stores.joins isCells with ⟨join, _, stored⟩
    rw [rels]
    exact ⟨isJoinParticipant_of_stored stored.1 held.participant1,
      isJoinParticipant_of_stored stored.2 held.participant2⟩
  refine ⟨⟨?_, ?_, ?_⟩, areFilters, areJoins, ?_⟩
  · intro rel below
    have inside : rel < query.rels.length := by
      rw [← rels]
      exact below
    have lengths := stores.queryStats.length_eq
    have related := List.forall₂_iff_get.mp stores.queryStats
    rcases related.2 rel inside (lengths ▸ inside) with ⟨relation, isRelation, isStats⟩
    have isMember := List.mem_of_getElem? isRelation
    refine ⟨relation.statsArray, ?_, ?_, ?_⟩
    · rw [holds.queryStats, ← isStats]
      exact List.getElem?_eq_getElem _
    · rw [Query.colsOf, rels, List.getElem?_eq_getElem inside, loaded relation isMember]
      rw [List.get_eq_getElem] at isRelation
      simp only [Option.bind_eq_bind, Option.bind_some, isRelation]
    · rw [loaded relation isMember]
      exact columns relation isMember
  · exact fun pred member => (areFilters pred member).has
  · intro pred member
    have isJoin := areJoins pred member
    exact ⟨isJoin.first.toIsParticipant.has, isJoin.second.toIsParticipant.has⟩
  · rw [holds.priorities, stores.priorities, stores.joins.length_eq, holds.joins.length_eq]
    rfl

end JoinOperator.Executor
