import JoinOperator.Reference.JoinedAnswers

/-! # Queries of the reference and what they mean

A query of the receiver is resolved to one of the reference. The reference writes `NULL` for all
sums when nothing is selected, and otherwise the sums, also those that are zero.
-/

namespace JoinOperator.Reference

open Foundation QueryText Receiver Executor

def resolvedName (rels : List Nat) (name : ColumnName Nat) : SelectInfo :=
  ⟨rels.getD name.rel 0, name.rel, name.col⟩

def resolvedInfo (query : AbstractQuery Nat) : QueryInfo where
  relationIds := query.rels
  predicates := query.joins.map fun join =>
    ⟨resolvedName query.rels join.1, resolvedName query.rels join.2⟩
  filters := query.filters.map fun filter =>
    ⟨resolvedName query.rels filter.1, filter.2.2, filter.2.1⟩
  selections := query.sums.map (resolvedName query.rels)

/-- The joins connect all relations, and the first of them is one of two relations. -/
structure StartsJoined (query : AbstractQuery Nat) : Prop where
  first : ∃ join rest, query.joins = join :: rest ∧ join.1.rel ≠ join.2.rel
  connected : ConnectedOn (joinedRelations query) (Finset.range query.rels.length)

def referenceLine (relArr : List Relationsheep) (query : AbstractQuery Nat) : List Char :=
  separated ' ' (query.sums.map fun name =>
    if result relArr query = [] then nullText
    else numeral (sumOf relArr query name % 2 ^ 64)) ++ ['\n']

section Resolving

variable {relArr : List Relationsheep} {query : AbstractQuery Nat}

theorem resolvedName_names {rels : List Nat} {name : ColumnName Nat}
    (valid : name.Valid relArr rels) : (resolvedName rels name).Names relArr rels := by
  rcases valid.column with ⟨real, relation, isReal, isRelation, below⟩
  have isColumn := List.getElem?_eq_getElem below
  exact ⟨relation, _, by rw [resolvedName, List.getD_eq_getElem?_getD, isReal]; rfl,
    by rw [resolvedName, List.getD_eq_getElem?_getD, isReal]; exact isRelation, isColumn⟩

theorem written_perm : (resolvedInfo query).written.Perm query.predicates := by
  have split (predicates : List (Predicate Nat)) :
      ((predicates.filterMap Predicate.asJoin).map (fun join => Predicate.join join.1 join.2) ++
        (predicates.filterMap Predicate.asFilter).map fun filter =>
          Predicate.filter filter.1 filter.2.1 filter.2.2).Perm predicates := by
    induction predicates with
    | nil => exact .refl _
    | cons predicate predicates induction =>
        cases predicate with
        | join left right => exact induction.cons _
        | filter participant op constant => exact List.perm_middle.trans (induction.cons _)
  have same : (resolvedInfo query).written =
      query.joins.map (fun join => Predicate.join join.1 join.2) ++
        query.filters.map fun filter => Predicate.filter filter.1 filter.2.1 filter.2.2 := by
    rw [QueryInfo.written, resolvedInfo, List.map_map, List.map_map]
    rfl
  rw [same]
  exact split query.predicates

theorem mem_joins {join : ColumnName Nat × ColumnName Nat} (member : join ∈ query.joins) :
    .join join.1 join.2 ∈ query.predicates := by
  rcases List.mem_filterMap.mp member with ⟨predicate, isPredicate, asJoin⟩
  cases predicate with
  | join left right =>
      cases asJoin
      exact isPredicate
  | filter participant op constant => cases asJoin

theorem mem_filters {filter : ColumnName Nat × Op × Nat} (member : filter ∈ query.filters) :
    .filter filter.1 filter.2.1 filter.2.2 ∈ query.predicates := by
  rcases List.mem_filterMap.mp member with ⟨predicate, isPredicate, asFilter⟩
  cases predicate with
  | join left right => cases asFilter
  | filter participant op constant =>
      cases asFilter
      exact isPredicate

theorem resolvedInfo_valid (valid : query.Valid relArr) : (resolvedInfo query).Valid relArr where
  predicates := by
    intro pInfo member
    rcases List.mem_map.mp member with ⟨join, isJoin, rfl⟩
    have both := valid.predicates _ (mem_joins isJoin)
    exact ⟨resolvedName_names both.1, resolvedName_names both.2⟩
  filters := by
    intro f member
    rcases List.mem_map.mp member with ⟨filter, isFilter, rfl⟩
    exact resolvedName_names (valid.predicates _ (mem_filters isFilter)).1
  selections := by
    intro info member
    rcases List.mem_map.mp member with ⟨name, isSum, rfl⟩
    exact resolvedName_names (valid.sums name isSum)

theorem StartsJoined.joins (valid : query.Valid relArr) (starts : StartsJoined query) :
    (resolvedInfo query).Joins := by
  have isValid := resolvedInfo_valid valid
  rcases starts.first with ⟨first, rest, joins, different⟩
  have inRange {binding : Nat} (used : OfPredicates (resolvedInfo query).predicates binding) :
      binding ∈ Finset.range query.rels.length := by
    rcases used with ⟨pInfo, member, rfl | rfl⟩
    · exact Finset.mem_range.mpr (isValid.predicates pInfo member).1.binding_lt
    · exact Finset.mem_range.mpr (isValid.predicates pInfo member).2.binding_lt
  have leaves (part : Set Nat) {v w : Nat}
      (usedV : OfPredicates (resolvedInfo query).predicates v)
      (usedW : w ∈ Finset.range query.rels.length) (inside : v ∈ part) (outside : w ∉ part) :
      ∃ pInfo ∈ (resolvedInfo query).predicates, ∃ u ∈ part, ∃ x, x ∉ part ∧
        (pInfo.left.binding = u ∧ pInfo.right.binding = x ∨
          pInfo.left.binding = x ∧ pInfo.right.binding = u) := by
    rcases starts.connected.exists_adj_leaving (inRange usedV) usedW inside outside with
      ⟨u, isIn, x, _, isOut, adjacent⟩
    rcases (SimpleGraph.fromRel_adj _ _ _).mp adjacent with ⟨_, ⟨join, member, ends⟩ | ⟨join, member, ends⟩⟩
    · exact ⟨_, List.mem_map_of_mem member, u, isIn, x, isOut, .inl ends⟩
    · exact ⟨_, List.mem_map_of_mem member, u, isIn, x, isOut, .inr ends⟩
  have predicates : (resolvedInfo query).predicates =
      ⟨resolvedName query.rels first.1, resolvedName query.rels first.2⟩ ::
        rest.map fun join => ⟨resolvedName query.rels join.1, resolvedName query.rels join.2⟩ := by
    rw [resolvedInfo, joins, List.map_cons]
  refine ⟨?_, ⟨_, _, predicates, different⟩, ?_⟩
  · intro left done perm someLeft someDone
    by_contra apart
    push Not at apart
    rcases List.exists_mem_of_ne_nil _ someLeft with ⟨other, isLeft⟩
    rcases List.exists_mem_of_ne_nil _ someDone with ⟨pInfo, isDone⟩
    have doneUsed {binding : Nat} (used : OfPredicates done binding) :
        OfPredicates (resolvedInfo query).predicates binding := by
      rcases used with ⟨pInfo, member, ends⟩
      exact ⟨pInfo, perm.mem_iff.mpr (List.mem_append_right _ member), ends⟩
    have leftIn : OfPredicates done pInfo.left.binding := ⟨pInfo, isDone, .inl rfl⟩
    have otherIn : other ∈ (resolvedInfo query).predicates :=
      perm.mem_iff.mpr (List.mem_append_left _ isLeft)
    rcases leaves {binding | OfPredicates done binding} (doneUsed leftIn)
        (inRange ⟨other, otherIn, .inl rfl⟩) leftIn (apart other isLeft).1 with
      ⟨link, isLink, u, isIn, x, isOut, ends⟩
    rcases List.mem_append.mp (perm.mem_iff.mp isLink) with linkLeft | linkDone
    · rcases ends with ⟨rfl, _⟩ | ⟨_, rfl⟩
      · exact (apart link linkLeft).1 isIn
      · exact (apart link linkLeft).2 isIn
    · rcases ends with ⟨_, rfl⟩ | ⟨rfl, _⟩
      · exact isOut ⟨link, linkDone, .inr rfl⟩
      · exact isOut ⟨link, linkDone, .inl rfl⟩
  · intro binding below
    by_contra unused
    have isFirst : OfPredicates (resolvedInfo query).predicates first.1.rel :=
      ⟨_, predicates ▸ List.mem_cons_self, .inl rfl⟩
    rcases leaves {other | other ≠ binding} isFirst (Finset.mem_range.mpr below)
        (fun same => unused (same ▸ isFirst)) (fun differs => differs rfl) with
      ⟨link, isLink, _, _, x, isOut, ends⟩
    cases not_not.mp isOut
    rcases ends with ⟨_, rfl⟩ | ⟨rfl, _⟩
    · exact unused ⟨link, isLink, .inr rfl⟩
    · exact unused ⟨link, isLink, .inl rfl⟩

end Resolving

section Meaning

variable {relArr : List Relationsheep} {query : AbstractQuery Nat} {part : PartialResult Nat}

theorem result_solutions (valid : query.Valid relArr) : result relArr query =
    solutions (rowsOf relArr query.rels)
      ((resolvedInfo query).written.map (predicateCondition relArr query.rels))
      (List.range query.rels.length) := by
  have same : resultAmong relArr query (List.range query.rels.length) =
      solutions (rowsOf relArr query.rels)
        (query.predicates.map (predicateCondition relArr query.rels))
        (List.range query.rels.length) := by
    rw [resultAmong, solutions]
    simp only [List.all_map]
    rfl
  rw [result_eq valid, same]
  exact solutions_congr fun c _ => (written_perm.map _).symm.mem_iff

theorem readAs_result (valid : query.Valid relArr)
    (perm : part.attrs.Perm (List.range query.rels.length))
    (complete : part.Complete (rowsOf relArr query.rels)
      ((resolvedInfo query).written.map (predicateCondition relArr query.rels))) :
    (part.readAs (List.range query.rels.length)).Perm (result relArr query) := by
  rw [result_solutions valid]
  exact complete.perm_solutions (perm.nodup_iff.mpr List.nodup_range) List.nodup_range
    fun _ => perm.mem_iff

theorem shown_sum (valid : query.Valid relArr)
    (perm : part.attrs.Perm (List.range query.rels.length))
    (complete : part.Complete (rowsOf relArr query.rels)
      ((resolvedInfo query).written.map (predicateCondition relArr query.rels)))
    {info : SelectInfo} (below : info.binding < query.rels.length) :
    (shown (cell relArr query.rels) part info).sum = sumOf relArr query info.name := by
  rw [sumOf, ← ((readAs_result valid perm complete).map _).sum_eq, PartialResult.readAs,
    List.map_map, shown]
  congr 1
  apply List.map_congr_left
  intro tuple _
  have inside : info.binding < (List.range query.rels.length).length := by
    rwa [List.length_range]
  apply cell_isLocal
  simp only [List.getD_eq_getElem?_getD, List.getElem?_map, List.getElem?_eq_getElem inside,
    List.getElem_range]
  rfl

theorem lineOf_resolvedInfo (valid : query.Valid relArr)
    (perm : part.attrs.Perm (List.range query.rels.length))
    (complete : part.Complete (rowsOf relArr query.rels)
      ((resolvedInfo query).written.map (predicateCondition relArr query.rels))) :
    lineOf relArr (resolvedInfo query) part = referenceLine relArr query := by
  have length := (readAs_result valid perm complete).length_eq
  rw [PartialResult.readAs, List.length_map] at length
  rw [lineOf, referenceLine, resolvedInfo, List.map_map]
  congr 2
  apply List.map_congr_left
  intro name member
  have below := (resolvedName_names (valid.sums name member)).binding_lt
  rw [Function.comp_apply, length, shown_sum valid perm complete below]
  exact if_congr List.length_eq_zero_iff rfl rfl

end Meaning

section Answers

variable {relArr : List Relationsheep} {query : AbstractQuery Nat}

/-- What comes of a query: its line, unless a set is not ordered or the vector is moved. -/
def AnsweredBy (relArr : List Relationsheep) (query : AbstractQuery Nat) (capacity : Nat) :
    Except Fault (List Char) → Prop
  | .ok line => line = referenceLine relArr query
  | .error fault => fault = .comparator ∧ query.rels.length ≤ query.joins.length ∨
      fault = .dangling ∧ capacity < query.joins.length + (query.joins.length - 1).choose 2

theorem join_answeredBy (valid : query.Valid relArr) (starts : StartsJoined query)
    (multimap : Multimap) (capacity : Nat) :
    AnsweredBy relArr query capacity
      (join multimap (relArr.map .ofTable) capacity (resolvedInfo query)) := by
  have isValid := resolvedInfo_valid valid
  have spec := join_spec isValid (starts.joins valid) multimap capacity
  have length : (resolvedInfo query).predicates.length = query.joins.length := List.length_map _
  cases joined : join multimap (relArr.map .ofTable) capacity (resolvedInfo query) with
  | ok line =>
      rw [joined] at spec
      rcases spec with ⟨part, perm, complete, rfl⟩
      exact lineOf_resolvedInfo valid perm complete
  | error fault =>
      rw [joined] at spec
      simp only [QueryInfo.HasSelfJoins, QueryInfo.enoughCapacity, length] at spec
      exact spec

end Answers

end JoinOperator.Reference
