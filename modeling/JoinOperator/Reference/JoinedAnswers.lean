import JoinOperator.Reference.DeferredPredicates

/-! # Answers of the reference

The operators that are built for the predicates have the solutions of all predicates and filters,
and the line has the sums over them.
-/

namespace JoinOperator.Reference

open Foundation QueryText Receiver Executor

/-- The predicates are linked, begin with one of two relations, and are about all relations. -/
structure QueryInfo.Joins (query : QueryInfo) : Prop where
  linked : query.Linked
  starts : ∃ firstJoin rest, query.predicates = firstJoin :: rest ∧
    firstJoin.left.binding ≠ firstJoin.right.binding
  all : ∀ binding < query.relationIds.length, OfPredicates query.predicates binding

/-- There are more predicates than it takes to connect the relations. -/
def QueryInfo.HasSelfJoins (query : QueryInfo) : Prop :=
  query.relationIds.length ≤ query.predicates.length

/-- The capacity with which the vector of the predicates is not moved in any case. -/
def QueryInfo.enoughCapacity (query : QueryInfo) : Nat :=
  query.predicates.length + (query.predicates.length - 1).choose 2

section Building

variable {relArr : List Relationsheep} {query : QueryInfo}

theorem SelectInfo.Names.binding_lt {rels : List Nat} {info : SelectInfo}
    (names : info.Names relArr rels) : info.binding < rels.length := by
  rcases names.column with ⟨_, _, isReal, _⟩
  exact (List.getElem?_eq_some_iff.mp isReal).1

theorem buildJoins_spec (valid : query.Valid relArr) (joins : query.Joins) (capacity : Nat) :
    match buildJoins (relArr.map .ofTable) query capacity with
    | .ok joined => ∃ all, all.Perm query.predicates ∧ IsJoined relArr query all joined
    | .error fault => fault = .dangling ∧ capacity < query.enoughCapacity := by
  rcases joins.starts with ⟨firstJoin, rest, predicates, different⟩
  have isFirst : firstJoin ∈ query.predicates := predicates ▸ List.mem_cons_self
  rcases startJoin_spec valid isFirst different with ⟨joined, started, isJoined⟩
  have perm : query.predicates.Perm (rest ++ [firstJoin]) :=
    predicates ▸ (List.perm_append_singleton firstJoin rest).symm
  have spec := addJoins_spec valid capacity query.predicates.length rest joined isJoined
    fun pInfo member => predicates ▸ List.mem_cons_of_mem _ member
  have built : buildJoins (relArr.map .ofTable) query capacity =
      addJoins (relArr.map .ofTable) query capacity query.predicates.length rest joined := by
    rw [buildJoins]
    split
    · next none => cases none.symm.trans predicates
    · next other others same =>
        cases same.symm.trans predicates
        rw [started, ok_bind]
  rw [built]
  cases added : addJoins (relArr.map .ofTable) query capacity query.predicates.length rest
      joined with
  | ok after =>
      rw [added] at spec
      rcases spec with ⟨all, permAll, allJoined⟩
      exact ⟨all, permAll.trans perm.symm, allJoined⟩
  | error fault =>
      rw [added] at spec
      refine ⟨spec, Nat.lt_of_not_le fun enough => ?_⟩
      have waiting : Waiting query [firstJoin] rest [] :=
        ⟨(List.append_nil rest).symm ▸ perm, List.forall_mem_nil _⟩
      rcases addJoins_ok valid joins.linked capacity query.predicates.length rest joined isJoined
        (List.cons_ne_nil _ _) (List.append_nil rest).symm waiting (by
          rw [roomFor_self]
          rwa [QueryInfo.enoughCapacity, predicates, List.length_cons, Nat.add_sub_cancel,
            ← List.length_cons, ← predicates] at enough) with ⟨after, ran⟩
      cases added.symm.trans ran

theorem mem_conditions_iff (valid : query.Valid relArr) {attrs : List Nat}
    (whole : ∀ binding, binding ∈ attrs ↔ binding < query.relationIds.length)
    {all : List PredicateInfo} (perm : all.Perm query.predicates) (c : Condition Nat) :
    (∃ binding ∈ attrs, c ∈ filterConditions relArr query binding) ∨
      (∃ pInfo ∈ all, c = predicateCondition relArr query.relationIds pInfo.asPredicate) ↔
    c ∈ query.written.map (predicateCondition relArr query.relationIds) := by
  rw [QueryInfo.written, List.map_append, List.mem_append, List.map_map, List.map_map, or_comm,
    List.mem_map, List.mem_map]
  apply or_congr
  · constructor
    · intro isMember
      rcases isMember with ⟨pInfo, member, rfl⟩
      exact ⟨pInfo, perm.mem_iff.mp member, rfl⟩
    · intro isMember
      rcases isMember with ⟨pInfo, member, rfl⟩
      exact ⟨pInfo, perm.mem_iff.mpr member, rfl⟩
  · constructor
    · intro isMember
      rcases isMember with ⟨binding, _, member⟩
      rcases List.mem_map.mp member with ⟨f, isFilter, rfl⟩
      exact ⟨f, (List.mem_filter.mp isFilter).1, rfl⟩
    · intro isMember
      rcases isMember with ⟨f, isFilter, rfl⟩
      refine ⟨f.filterColumn.binding, (whole _).mpr (valid.filters f isFilter).binding_lt, ?_⟩
      exact List.mem_map.mpr ⟨f, List.mem_filter.mpr ⟨isFilter, decide_eq_true rfl⟩, rfl⟩

theorem IsJoined.whole (valid : query.Valid relArr) (joins : query.Joins)
    {all : List PredicateInfo} (perm : all.Perm query.predicates) {joined : Joined}
    (isJoined : IsJoined relArr query all joined) :
    ∃ attrs conditions,
      Builds relArr query.relationIds query.HasSelfJoins joined.root attrs conditions [] ∧
      attrs.Perm (List.range query.relationIds.length) ∧
      ∀ c, c ∈ conditions ↔
        c ∈ query.written.map (predicateCondition relArr query.relationIds) := by
  have isUsed (binding : Nat) :
      binding ∈ joined.usedRelations ↔ binding < query.relationIds.length := by
    rw [isJoined.used]
    constructor
    · intro isMember
      rcases isMember with ⟨pInfo, member, rfl | rfl⟩
      · exact (valid.predicates pInfo (perm.mem_iff.mp member)).1.binding_lt
      · exact (valid.predicates pInfo (perm.mem_iff.mp member)).2.binding_lt
    · intro below
      rcases joins.all binding below with ⟨pInfo, member, ends⟩
      exact ⟨pInfo, perm.mem_iff.mpr member, ends⟩
  have used : joined.usedRelations = Finset.range query.relationIds.length := by
    ext binding
    rw [isUsed, Finset.mem_range]
  have card : joined.usedRelations.card = query.relationIds.length := by
    rw [used, Finset.card_range]
  rcases isJoined.builds with ⟨attrs, conditions, built, nodup, sameAttrs, sameConditions⟩
  have inRange (binding : Nat) : binding ∈ attrs ↔ binding < query.relationIds.length :=
    (sameAttrs binding).trans (isUsed binding)
  refine ⟨attrs, conditions, ?_, ?_, ?_⟩
  · by_cases selfJoins : query.HasSelfJoins
    · rwa [eq_true selfJoins]
    · rw [eq_false selfJoins]
      apply built.of_onlyJoins
      apply isJoined.only
      apply Nat.le_antisymm isJoined.card
      rw [card, perm.length_eq]
      exact Nat.lt_of_not_le selfJoins
  · apply (List.perm_ext_iff_of_nodup nodup List.nodup_range).mpr
    intro binding
    rw [inRange, List.mem_range]
  · intro c
    rw [sameConditions, mem_conditions_iff valid inRange perm]

end Building

section Sums

variable {relArr : List Relationsheep} {rels : List Nat}

theorem requireAll_spec {selfJoins : Prop} {attrs : List Nat} {conditions : List (Condition Nat)}
    {colInfo : List SelectInfo}
    (names : ∀ info ∈ colInfo, info.binding ∈ attrs ∧ info.Names relArr rels) {op : Operator}
    {requests : List SelectInfo}
    (builds : Builds relArr rels selfJoins op attrs conditions requests) :
    Outcome selfJoins (fun after => ∃ required, requests ⊆ required ∧ colInfo ⊆ required ∧
        Builds relArr rels selfJoins after attrs conditions required)
      (colInfo.foldlM (fun input sInfo => do
        let (_, input) ← input.require sInfo
        Except.ok input) op) := by
  induction colInfo generalizing op requests with
  | nil => exact ⟨requests, List.Subset.refl _, List.nil_subset _, builds⟩
  | cons sInfo colInfo induction =>
      have isName := names sInfo List.mem_cons_self
      have asked : Outcome selfJoins (fun after => ∃ required, requests ⊆ required ∧
          sInfo ∈ required ∧ Builds relArr rels selfJoins after attrs conditions required)
          (do
            let (_, input) ← op.require sInfo
            Except.ok input) := by
        apply (require_spec builds isName.2).bind
        intro reached _ isBuilt
        rcases reached with ⟨found, after⟩
        rcases isBuilt with ⟨_, required, more, isRequired, built⟩
        exact ⟨required, more, isRequired isName.1, built⟩
      rw [List.foldlM_cons]
      apply asked.bind
      intro after _ isBuilt
      rcases isBuilt with ⟨required, more, isRequired, built⟩
      apply (induction (fun info member => names info (List.mem_cons_of_mem _ member)) built).mono
      intro last isBuilt
      rcases isBuilt with ⟨all, moreAgain, areRequired, lastBuilt⟩
      exact ⟨all, List.Subset.trans more moreAgain,
        List.cons_subset.mpr ⟨moreAgain isRequired, areRequired⟩, lastBuilt⟩

theorem checkSums_spec (multimap : Multimap) {selfJoins : Prop} {attrs : List Nat}
    {conditions : List (Condition Nat)} {colInfo : List SelectInfo}
    (names : ∀ info ∈ colInfo, info.binding ∈ attrs ∧ info.Names relArr rels) {op : Operator}
    (builds : Builds relArr rels selfJoins op attrs conditions []) :
    Outcome selfJoins (fun sums => ∃ part : PartialResult Nat, part.attrs.Perm attrs ∧
        part.Complete (rowsOf relArr rels) conditions ∧
        sums = (colInfo.map fun info => (shown (cell relArr rels) part info).sum % 2 ^ 64,
          if colInfo.isEmpty then 0 else part.tuples.length))
      (op.checkSums multimap colInfo) := by
  rw [Operator.checkSums]
  apply (requireAll_spec names builds).bind
  intro input _ isBuilt
  rcases isBuilt with ⟨required, _, areRequired, built⟩
  apply (run_spec multimap built).bind
  intro results _ isResult
  rcases isResult with ⟨part, perm, complete, materializes⟩
  have sums : (colInfo.mapM fun sInfo => do
      let column ← readKeys results sInfo
      Except.ok (column.sum % 2 ^ 64)) =
        .ok (colInfo.map fun info => (shown (cell relArr rels) part info).sum % 2 ^ 64) := by
    apply mapM_ok_map
    intro info member
    rw [readKeys_eq materializes (areRequired member), ok_bind]
  rw [sums, ok_bind]
  exact ⟨part, perm, complete, by rw [materializes.resultSize]⟩

end Sums

section Lines

variable {relArr : List Relationsheep} {query : QueryInfo}

def lineOf (relArr : List Relationsheep) (query : QueryInfo) (part : PartialResult Nat) :
    List Char :=
  separated ' ' (query.selections.map fun info =>
    if part.tuples.length = 0 then nullText
    else numeral ((shown (cell relArr query.relationIds) part info).sum % 2 ^ 64)) ++ ['\n']

/-- The line is that of all solutions, unless the vector is moved or a set is not ordered. -/
theorem join_spec (valid : query.Valid relArr) (joins : query.Joins) (multimap : Multimap)
    (capacity : Nat) :
    match join multimap (relArr.map .ofTable) capacity query with
    | .ok line => ∃ part : PartialResult Nat,
        part.attrs.Perm (List.range query.relationIds.length) ∧
        part.Complete (rowsOf relArr query.relationIds)
          (query.written.map (predicateCondition relArr query.relationIds)) ∧
        line = lineOf relArr query part
    | .error fault => fault = .comparator ∧ query.HasSelfJoins ∨
        fault = .dangling ∧ capacity < query.enoughCapacity := by
  have built := buildJoins_spec valid joins capacity
  rw [join]
  cases isBuilt : buildJoins (relArr.map .ofTable) query capacity with
  | error fault =>
      rw [isBuilt] at built
      exact .inr built
  | ok joined =>
      rw [isBuilt] at built
      rcases built with ⟨all, perm, isJoined⟩
      rcases isJoined.whole valid joins perm with ⟨attrs, conditions, builds, permAttrs, same⟩
      have names : ∀ info ∈ query.selections,
          info.binding ∈ attrs ∧ info.Names relArr query.relationIds := by
        intro info member
        have isName := valid.selections info member
        exact ⟨permAttrs.mem_iff.mpr (List.mem_range.mpr isName.binding_lt), isName⟩
      have summed := checkSums_spec multimap names builds
      rw [ok_bind]
      cases ran : joined.root.checkSums multimap query.selections with
      | error fault =>
          rw [ran] at summed
          exact .inl summed
      | ok sums =>
          rw [ran] at summed
          rcases summed with ⟨part, permPart, complete, rfl⟩
          refine ⟨part, permPart.trans permAttrs, complete.congr fun c _ => same c, ?_⟩
          rw [lineOf, List.map_map]
          cases selections : query.selections with
          | nil => rfl
          | cons info rest => rfl

end Lines

end JoinOperator.Reference
