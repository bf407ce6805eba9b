import JoinOperator.Executor.RoomyJoiner
import JoinOperator.QueryText.WrittenNumbers
import JoinOperator.Receiver.ReadQueries

/-! # The answer to a query

A query whose relations form a tree is answered with the line of its sums, unless the memory for
a join is not there.
-/

namespace JoinOperator.Receiver

open Foundation QueryText Planner Executor
open PipeIO (writePipe writePipe_of_lt)

structure AreTables (relArr : List Relationsheep) : Prop where
  loaded : Loaded relArr
  columns : ∀ relation ∈ relArr, 0 < relation.cols
  occupied : ∀ relation ∈ relArr, 0 < relation.rows
  words : ∀ relation ∈ relArr, ∀ s ∈ relation.statsArray, s.distinctArray ≠ []

theorem AreTables.hasWords {relArr : List Relationsheep} (tables : AreTables relArr)
    {query : AbstractQuery Nat} {constructed : ConstructedQuery}
    (stores : Stores relArr query constructed) : HasWords constructed.queryStats := by
  intro columns member
  rcases exists_of_mem_forall₂ stores.queryStats member with ⟨real, _, relation, isRelation, rfl⟩
  exact tables.words relation (List.mem_of_getElem? isRelation)

section Trees

variable {relArr : List Relationsheep} {query : AbstractQuery Nat} {q : Query}

theorem countP_of_forall₂ {First Second : Type} {R : First → Second → Prop} {passes : First → Bool}
    {passes' : Second → Bool} {items : List First} {others : List Second}
    (related : List.Forall₂ R items others)
    (same : ∀ item other, R item other → passes item = passes' other) :
    items.countP passes = others.countP passes' := by
  induction related with
  | nil => rfl
  | cons isRelated _ induction =>
      rw [List.countP_cons, List.countP_cons, induction, same _ _ isRelated]

theorem ReadFor.queryGraph_eq (readFor : ReadFor query q) :
    queryGraph q.joins = joinedRelations query := by
  ext s r
  rw [joinedRelations, SimpleGraph.fromRel_adj]
  constructor
  · intro adjacent
    rcases adjacent with ⟨differs, joinId, join, get, ends⟩
    rcases exists_of_mem_forall₂ readFor.joins (List.mem_of_getElem? get) with
      ⟨names, isJoin, named⟩
    rw [named.first.rel, named.second.rel] at ends
    exact ⟨differs, ends.imp (fun ends => ⟨names, isJoin, ends⟩) fun ends => ⟨names, isJoin, ends⟩⟩
  · intro adjacent
    refine ⟨adjacent.1, ?_⟩
    have linked : ∃ names ∈ query.joins, names.1.rel = s ∧ names.2.rel = r ∨
        names.1.rel = r ∧ names.2.rel = s := by
      rcases adjacent.2 with ⟨names, isJoin, ends⟩ | ⟨names, isJoin, ends⟩
      · exact ⟨names, isJoin, .inl ends⟩
      · exact ⟨names, isJoin, .inr ends⟩
    rcases linked with ⟨names, isJoin, ends⟩
    rcases exists_of_mem_forall₂ readFor.joins.flip isJoin with ⟨join, isPred, named⟩
    rcases List.getElem?_of_mem isPred with ⟨joinId, get⟩
    rw [← named.first.rel, ← named.second.rel] at ends
    exact ⟨joinId, join, get, ends⟩

theorem ReadFor.isTree (readFor : ReadFor query q) (tree : IsTreeQuery query) : IsTree q where
  many := by
    rw [Query.numOfRels, readFor.rels]
    exact tree.many
  few := by
    rw [Query.numOfRels, readFor.rels]
    exact tree.few
  digits := by
    rw [Query.numOfJoins, ← readFor.joins.length_eq]
    exact tree.digits
  connected := by
    rw [readFor.queryGraph_eq, Query.numOfRels, readFor.rels]
    exact tree.connected
  links := by
    rw [Query.numOfRels, readFor.rels, ← tree.links]
    congr 1
    symm
    apply countP_of_forall₂ readFor.joins
    intro names join named
    rw [named.first.rel, named.second.rel]
  columns := by
    intro join member
    rcases exists_of_mem_forall₂ readFor.joins member with ⟨names, isJoin, named⟩
    rw [named.first.rel, named.second.rel, named.first.numCol, named.second.numCol]
    exact tree.columns names isJoin

theorem ReadFor.manageable (readFor : ReadFor query q) (executable : Executable relArr q)
    (answerable : Answerable relArr query) :
    Manageable relArr q.rels (conditionsOf q.filters q.joins) (2 ^ 59) := by
  intro attrs nodup inside
  rw [readFor.solutions_eq executable]
  exact answerable attrs nodup (readFor.rels ▸ inside)

theorem ReadFor.checksums_eq (readFor : ReadFor query q) (executable : Executable relArr q)
    (valid : query.Valid relArr) {sums : List ColRel} (named : List.Forall₂ Named query.sums sums)
    (areSums : ∀ sum ∈ sums, IsParticipant relArr q.rels sum) {head : HeadInter} {data : Inter}
    (solved : Solved relArr q head data) :
    performChecksums sums head =
      some (query.sums.map fun name => sumOf relArr query name % 2 ^ 64) := by
  rw [solved.checksums areSums, readFor.solutions_eq executable, Query.numOfRels, readFor.rels,
    ← result_eq valid, Option.some.injEq]
  clear valid solved
  generalize query.sums = names at named
  induction named with
  | nil => rfl
  | @cons name sum names sums isNamed _ induction =>
      have isParticipant := areSums sum List.mem_cons_self
      rw [List.map_cons, List.map_cons,
        induction fun other member => areSums other (List.mem_cons_of_mem sum member)]
      rw [readFor.rels] at isParticipant
      simp only [sumOf, isNamed.valueOf_eq isParticipant]

end Trees

section Answers

variable {atoi : List Char → Int} {relArr : List Relationsheep} {State : Type}
  {joiner : Joiner relArr State} {state : State} {written : AbstractQuery Numeral}

/-- The answer to a tree is the line of its sums, unless a join does not return. Joins that
return for few tuples return if the query is answerable. -/
theorem answerQuery_written (reads : ReadsNumerals atoi) (estimator : Estimator)
    (tables : AreTables relArr) (isQuery : written.meant.Valid relArr)
    (tree : IsTreeQuery written.meant)
    (small : ∀ name ∈ written.meant.sums, sumOf relArr written.meant name % 2 ^ 64 < 2 ^ 63)
    (valid : joiner.Valid state) :
    (∀ halt, answerQuery atoi estimator joiner written.text written.counts state = .error halt →
      halt = .execution .join) ∧
    (∀ message next,
      answerQuery atoi estimator joiner written.text written.counts state = .ok (message, next) →
        message = answerLine relArr written.meant ∧ joiner.Valid next) ∧
    (joiner.ReturnsBelow (2 ^ 59) → Answerable relArr written.meant → ∃ answer,
      answerQuery atoi estimator joiner written.text written.counts state = .ok answer) := by
  rcases constructQuery_written reads tables.loaded isQuery with ⟨constructed, ran, stores⟩
  rcases readQuery_of_stores stores with ⟨q, sums, isRead, holds, readFor, named, areSums⟩
  have executable := executable_of_stores tables.loaded tables.columns stores holds
  have words : HasWords q.queryStats := holds.queryStats ▸ tables.hasWords stores
  rcases @performQuery_tree _ (2 ^ 59) estimator _ executable words (readFor.isTree tree) _ joiner
    state valid with ⟨filtered, priorities, isFiltered, planned, faults, solved, returns⟩
  have checksums {head : HeadInter} {next : State} (performed : performQuery joiner
      filtered.filters filtered.joins priorities state = .ok (head, next)) :
      performChecksums sums head =
        some (written.meant.sums.map fun name => sumOf relArr written.meant name % 2 ^ 64) := by
    rcases (solved head next performed).1 with ⟨data, isSolved⟩
    exact readFor.checksums_eq executable isQuery named areSums isSolved
  have line : writePipe (written.meant.sums.map fun name =>
      sumOf relArr written.meant name % 2 ^ 64) = some (answerLine relArr written.meant) := by
    rw [writePipe_of_lt, answerLine, List.map_map]
    · rfl
    · intro value member
      rcases List.mem_map.mp member with ⟨name, isName, rfl⟩
      exact small name isName
  have answer : answerQuery atoi estimator joiner written.text written.counts state =
      match performQuery joiner filtered.filters filtered.joins priorities state with
      | .ok (_, next) => .ok (answerLine relArr written.meant, next)
      | .error fault => .error (.execution fault) := by
    simp only [answerQuery, ran, isRead, isFiltered, planned, orHalt, Except.mapError, ok_bind]
    cases performed : performQuery joiner filtered.filters filtered.joins priorities state with
    | error fault => rfl
    | ok result =>
        rcases result with ⟨head, next⟩
        simp only [checksums performed, line, ok_bind]
  rw [answer]
  cases performed : performQuery joiner filtered.filters filtered.joins priorities state with
  | error fault =>
      refine ⟨?_, nofun, ?_⟩
      · intro halt stopped
        cases stopped
        rw [faults fault performed]
      · intro returnsBelow answerable
        rcases returns returnsBelow (readFor.manageable executable answerable) with
          ⟨head, next, returned⟩
        rw [performed] at returned
        cases returned
  | ok result =>
      rcases result with ⟨head, next⟩
      refine ⟨nofun, ?_, fun _ _ => ⟨_, rfl⟩⟩
      intro message after answered
      cases answered
      exact ⟨rfl, (solved head next performed).2⟩

end Answers

end JoinOperator.Receiver
