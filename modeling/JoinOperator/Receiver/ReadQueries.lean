import JoinOperator.Receiver.MainLoop
import JoinOperator.Receiver.Meaning

/-! # The queries that are read

The variables that are read of a constructed query are those of the query that it was
constructed for. Its conditions select the same combinations of rows.
-/

namespace JoinOperator.Receiver

open Foundation QueryText Planner Executor

structure Named (name : ColumnName Nat) (participant : ColRel) : Prop where
  rel : participant.rel = name.rel
  numCol : participant.numCol = name.col

structure NamedFilter (filter : ColumnName Nat × Op × Nat) (pred : Filter) : Prop where
  participant : Named filter.1 pred.participant
  op : pred.op = filter.2.1
  value : pred.value = filter.2.2

structure NamedJoin (join : ColumnName Nat × ColumnName Nat) (pred : Join) : Prop where
  first : Named join.1 pred.participant1
  second : Named join.2 pred.participant2

/-- The parts of a query that was read are named by the query that was written. -/
structure ReadFor (query : AbstractQuery Nat) (q : Query) : Prop where
  rels : q.rels = query.rels
  filters : List.Forall₂ NamedFilter query.filters q.filters
  joins : List.Forall₂ NamedJoin query.joins q.joins

section Reading

variable {relArr : List Relationsheep} {rels : List Nat}

theorem mapM_of_forall₂ {Name Item Value : Type} {Stored : Name → Item → Prop}
    {IsValue : Name → Value → Prop} {read : Item → Option Value} {names : List Name}
    {items : List Item} (stored : List.Forall₂ Stored names items)
    (reads : ∀ name item, Stored name item → ∃ value, read item = some value ∧
      IsValue name value) :
    ∃ values, items.mapM read = some values ∧
      List.Forall₂ (fun item value => read item = some value) items values ∧
      List.Forall₂ IsValue names values := by
  induction stored with
  | nil => exact ⟨[], rfl, .nil, .nil⟩
  | @cons name item _ _ isStored _ induction =>
      rcases reads name item isStored with ⟨value, isRead, isValue⟩
      rcases induction with ⟨values, areRead, areItems, areValues⟩
      refine ⟨value :: values, ?_, .cons isRead areItems, .cons isValue areValues⟩
      rw [List.mapM_cons, isRead, areRead]
      rfl

theorem readParticipant_holds {cells : ColRelCells} {participant : ColRel}
    (isRead : readParticipant true cells = some participant) : cells.Holds participant := by
  rcases Option.bind_eq_some_iff.mp isRead with ⟨realRel, isRealRel, isRead⟩
  rcases Option.bind_eq_some_iff.mp isRead with ⟨realCol, isRealCol, isRead⟩
  rcases Option.bind_eq_some_iff.mp isRead with ⟨rel, isRel, isRead⟩
  rcases Option.bind_eq_some_iff.mp isRead with ⟨numCol, isNumCol, isRead⟩
  rcases Option.bind_eq_some_iff.mp isRead with ⟨col, isCol, isRead⟩
  rcases Option.bind_eq_some_iff.mp isRead with ⟨rows, isRows, isRead⟩
  cases isRead
  exact ⟨isRealRel, isRealCol, isRel, isNumCol, isCol, isRows⟩

theorem readFilter_holds {cells : FilterCells} {pred : Filter}
    (isRead : readFilter cells = some pred) : cells.Holds pred := by
  rcases Option.bind_eq_some_iff.mp isRead with ⟨participant, isParticipant, isRead⟩
  rcases Option.bind_eq_some_iff.mp isRead with ⟨op, isOp, isRead⟩
  rcases Option.bind_eq_some_iff.mp isRead with ⟨value, isValue, isRead⟩
  cases isRead
  rcases Option.bind_eq_some_iff.mp isParticipant with ⟨rel, isRel, isParticipant⟩
  rcases Option.bind_eq_some_iff.mp isParticipant with ⟨numCol, isNumCol, isParticipant⟩
  rcases Option.bind_eq_some_iff.mp isParticipant with ⟨col, isCol, isParticipant⟩
  rcases Option.bind_eq_some_iff.mp isParticipant with ⟨rows, isRows, isParticipant⟩
  cases isParticipant
  exact ⟨isRel, isNumCol, isCol, isRows, isOp, isValue⟩

theorem readJoin_holds {cells : JoinCells} {pred : Join} (isRead : readJoin cells = some pred) :
    cells.Holds pred := by
  rcases Option.bind_eq_some_iff.mp isRead with ⟨participant1, isFirst, isRead⟩
  rcases Option.bind_eq_some_iff.mp isRead with ⟨participant2, isSecond, isRead⟩
  cases isRead
  exact ⟨readParticipant_holds isFirst, readParticipant_holds isSecond⟩

theorem readParticipant_stored {isJoin : Bool} {name : ColumnName Nat} {cells : ColRelCells}
    (stored : name.Stored relArr rels isJoin cells) :
    ∃ participant, readParticipant isJoin cells = some participant ∧
      Named name participant ∧ IsParticipant relArr rels participant := by
  have isStored := stored
  rcases stored with ⟨real, relation, values, _, _, _, rfl⟩
  have participant (realRel realCol : Nat) : IsParticipant relArr rels
      ⟨realRel, realCol, name.rel, name.col, values, relation.rows⟩ :=
    isParticipant_of_stored isStored rfl rfl rfl rfl
  cases isJoin with
  | true => exact ⟨_, rfl, ⟨rfl, rfl⟩, participant real name.col⟩
  | false => exact ⟨_, rfl, ⟨rfl, rfl⟩, participant 0 0⟩

theorem readQuery_of_stores {query : AbstractQuery Nat} {constructed : ConstructedQuery}
    (stores : Stores relArr query constructed) :
    ∃ q sums, readQuery constructed = some (q, sums) ∧ constructed.Holds q ∧
      ReadFor query q ∧ List.Forall₂ Named query.sums sums ∧
      ∀ sum ∈ sums, IsParticipant relArr q.rels sum := by
  have isRels : List.Forall₂ (fun real cell => cell = [real]) query.rels constructed.rels := by
    rw [stores.rels, List.forall₂_map_right_iff]
    exact List.forall₂_same.mpr fun _ _ => rfl
  rcases @mapM_of_forall₂ _ _ _ _ Eq List.getLast? _ _ isRels (by
    intro real cell isCell
    exact ⟨real, congrArg List.getLast? isCell, rfl⟩) with ⟨rels, relsRead, relsHold, sameRels⟩
  rw [List.forall₂_eq_eq_eq] at sameRels
  rcases @mapM_of_forall₂ _ _ _ _ NamedFilter readFilter _ _ stores.filters (by
    intro filter cells stored
    rcases stored with ⟨stored, isOp, isValue⟩
    rcases readParticipant_stored stored with ⟨participant, isRead, named, _⟩
    refine ⟨⟨participant, filter.2.1, filter.2.2⟩, ?_, named, rfl, rfl⟩
    simp only [readFilter, isRead, isOp, isValue, List.getLast?_singleton, Option.bind_eq_bind,
      Option.bind_some]) with ⟨filters, filtersRead, filtersHold, areFilters⟩
  rcases @mapM_of_forall₂ _ _ _ _ NamedJoin readJoin _ _ stores.joins (by
    intro join cells stored
    rcases readParticipant_stored stored.1 with ⟨participant1, isFirst, named1, _⟩
    rcases readParticipant_stored stored.2 with ⟨participant2, isSecond, named2, _⟩
    refine ⟨⟨participant1, participant2⟩, ?_, named1, named2⟩
    simp only [readJoin, isFirst, isSecond, Option.bind_eq_bind, Option.bind_some]) with
    ⟨joins, joinsRead, joinsHold, areJoins⟩
  rcases @mapM_of_forall₂ _ _ _ _ (fun name participant => Named name participant ∧
      IsParticipant relArr query.rels participant) (readParticipant false) _ _ stores.sums (by
    intro name cells stored
    exact readParticipant_stored stored) with ⟨sums, sumsRead, _, areSums⟩
  refine ⟨⟨rels, constructed.queryStats, filters, joins, constructed.priorities⟩, sums, ?_,
    ⟨relsHold, rfl, filtersHold.imp fun _ _ => readFilter_holds,
      joinsHold.imp fun _ _ => readJoin_holds, rfl⟩,
    ⟨sameRels.symm, areFilters, areJoins⟩, areSums.imp fun _ _ both => both.1, ?_⟩
  · simp only [readQuery, relsRead, filtersRead, joinsRead, sumsRead, Option.bind_eq_bind,
      Option.bind_some]
  · intro sum member
    rcases exists_of_mem_forall₂ areSums member with ⟨name, _, _, isParticipant⟩
    rw [← sameRels]
    exact isParticipant

end Reading

section Conditions

variable {relArr : List Relationsheep} {rels : List Nat}

theorem Named.valueOf_eq {name : ColumnName Nat} {participant : ColRel}
    (named : Named name participant) (isParticipant : IsParticipant relArr rels participant)
    (rowIds : Nat → Nat) : valueOf participant rowIds = valueIn relArr rels name rowIds := by
  rcases isParticipant.column with ⟨real, relation, isReal, isRelation, isColumn, _⟩
  rw [named.rel] at isReal
  rw [named.numCol] at isColumn
  simp only [valueIn, valueOf, isReal, isRelation, isColumn, named.rel, Option.bind_eq_bind,
    Option.bind_some, List.getD_eq_getElem?_getD]

structure Expresses (relArr : List Relationsheep) (rels : List Nat) (predicate : Predicate Nat)
    (c : Condition Nat) : Prop where
  attrs : c.attrs = relationsOf predicate
  holds : ∀ rowIds, c.holds rowIds = selects relArr rels predicate rowIds

theorem NamedFilter.expresses {filter : ColumnName Nat × Op × Nat} {pred : Filter}
    (named : NamedFilter filter pred)
    (isParticipant : IsParticipant relArr rels pred.participant) :
    Expresses relArr rels (.filter filter.1 filter.2.1 filter.2.2) (filterCondition pred) := by
  rcases filter with ⟨name, op, constant⟩
  constructor
  · exact congrArg (fun rel => [rel]) named.participant.rel
  · intro rowIds
    simp only [filterCondition, applyFilter, named.participant.valueOf_eq isParticipant, named.op,
      named.value]
    cases op <;> rfl

theorem NamedJoin.expresses {join : ColumnName Nat × ColumnName Nat} {pred : Join}
    (named : NamedJoin join pred) (isJoin : IsJoin relArr rels pred) :
    Expresses relArr rels (.join join.1 join.2) (joinCondition pred) := by
  constructor
  · exact congrArg₂ (fun first second => [first, second]) named.first.rel named.second.rel
  · intro rowIds
    simp only [joinCondition, named.first.valueOf_eq isJoin.first.toIsParticipant,
      named.second.valueOf_eq isJoin.second.toIsParticipant]
    rfl

variable {query : AbstractQuery Nat} {q : Query}

theorem ReadFor.exists_condition (readFor : ReadFor query q) (executable : Executable relArr q)
    {predicate : Predicate Nat} (member : predicate ∈ query.predicates) :
    ∃ c ∈ conditionsOf q.filters q.joins, Expresses relArr q.rels predicate c := by
  cases predicate with
  | join left right =>
      have isJoin : (left, right) ∈ query.joins := List.mem_filterMap.mpr ⟨_, member, rfl⟩
      rcases exists_of_mem_forall₂ readFor.joins.flip isJoin with ⟨pred, isPred, named⟩
      exact ⟨_, List.mem_append_right _ (List.mem_map_of_mem isPred),
        named.expresses (executable.areJoins pred isPred)⟩
  | filter participant op constant =>
      have isFilter : (participant, op, constant) ∈ query.filters :=
        List.mem_filterMap.mpr ⟨_, member, rfl⟩
      rcases exists_of_mem_forall₂ readFor.filters.flip isFilter with ⟨pred, isPred, named⟩
      exact ⟨_, List.mem_append_left _ (List.mem_map_of_mem isPred),
        named.expresses (executable.areFilters pred isPred)⟩

theorem ReadFor.exists_predicate (readFor : ReadFor query q) (executable : Executable relArr q)
    {c : Condition Nat} (member : c ∈ conditionsOf q.filters q.joins) :
    ∃ predicate ∈ query.predicates, Expresses relArr q.rels predicate c := by
  cases List.mem_append.mp member with
  | inl isFilter =>
      rcases List.mem_map.mp isFilter with ⟨pred, isPred, rfl⟩
      rcases exists_of_mem_forall₂ readFor.filters isPred with ⟨filter, isFilter, named⟩
      rcases List.mem_filterMap.mp isFilter with ⟨predicate, isPredicate, asFilter⟩
      refine ⟨predicate, isPredicate, ?_⟩
      cases predicate with
      | join left right => cases asFilter
      | filter participant op constant =>
          cases asFilter
          exact named.expresses (executable.areFilters pred isPred)
  | inr isJoin =>
      rcases List.mem_map.mp isJoin with ⟨pred, isPred, rfl⟩
      rcases exists_of_mem_forall₂ readFor.joins isPred with ⟨join, isJoin, named⟩
      rcases List.mem_filterMap.mp isJoin with ⟨predicate, isPredicate, asJoin⟩
      refine ⟨predicate, isPredicate, ?_⟩
      cases predicate with
      | filter participant op constant => cases asJoin
      | join left right =>
          cases asJoin
          exact named.expresses (executable.areJoins pred isPred)

/-- The conditions select the rows that the predicates select. -/
theorem ReadFor.solutions_eq (readFor : ReadFor query q) (executable : Executable relArr q)
    (among : List Nat) :
    solutions (rowsOf relArr q.rels) (conditionsOf q.filters q.joins) among =
      resultAmong relArr query among := by
  rw [solutions, resultAmong, readFor.rels]
  apply List.filter_congr
  intro rows _
  rw [Bool.eq_iff_iff, List.all_eq_true, List.all_eq_true]
  constructor
  · intro holds predicate isPredicate
    rcases readFor.exists_condition executable isPredicate with ⟨c, isCondition, expressed⟩
    rw [readFor.rels] at expressed
    rw [← expressed.attrs, ← expressed.holds]
    exact holds c isCondition
  · intro selected c isCondition
    rcases readFor.exists_predicate executable isCondition with ⟨predicate, isPredicate, expressed⟩
    rw [readFor.rels] at expressed
    rw [expressed.attrs, expressed.holds]
    exact selected predicate isPredicate

end Conditions

end JoinOperator.Receiver
