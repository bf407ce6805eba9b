import JoinOperator.Reference.ParsedQueries

/-! # Queries that are written back

What is parsed has numbers in their ranges and columns of relations that the query has. It is
parsed again from what is written for it, unless it has no selections.
-/

namespace JoinOperator.Reference

open Foundation QueryText

def SelectInfo.name (info : SelectInfo) : ColumnName Nat := ⟨info.binding, info.colId⟩

def PredicateInfo.asPredicate (pInfo : PredicateInfo) : Predicate Nat :=
  .join pInfo.left.name pInfo.right.name

def FilterInfo.asPredicate (fInfo : FilterInfo) : Predicate Nat :=
  .filter fInfo.filterColumn.name fInfo.comparison fInfo.constant

/-- The predicates in the order in which they are written. -/
def QueryInfo.written (query : QueryInfo) : List (Predicate Nat) :=
  query.predicates.map PredicateInfo.asPredicate ++ query.filters.map FilterInfo.asPredicate

structure SelectInfo.Resolved (relationIds : List Nat) (info : SelectInfo) : Prop where
  relation : relationIds[info.binding]? = some info.relId
  short : ShortName info.name

/-- The numbers of a query are in their ranges, and its columns are of relations that it has. -/
structure QueryInfo.Resolved (query : QueryInfo) : Prop where
  relationIds : ∀ relationId ∈ query.relationIds, relationId < 2 ^ 32
  predicates : ∀ pInfo ∈ query.predicates,
    pInfo.left.Resolved query.relationIds ∧ pInfo.right.Resolved query.relationIds
  filters : ∀ fInfo ∈ query.filters,
    fInfo.filterColumn.Resolved query.relationIds ∧ fInfo.constant < 2 ^ 64
  selections : ∀ info ∈ query.selections, info.Resolved query.relationIds

section Resolving

variable {relationIds : List Nat} {info resolved : SelectInfo}

theorem resolveIds_eq_ok :
    resolveIds relationIds info = .ok resolved ↔
      relationIds[info.binding]? = some resolved.relId ∧ resolved.name = info.name := by
  rcases info with ⟨relId, binding, colId⟩
  rcases resolved with ⟨relId', binding', colId'⟩
  rw [resolveIds, bind_eq_ok]
  simp only [SelectInfo.name, ColumnName.mk.injEq]
  constructor
  · intro ran
    rcases ran with ⟨found, isFound, same⟩
    cases same
    refine ⟨?_, rfl, rfl⟩
    cases get : relationIds[binding]? with
    | none =>
        rw [get] at isFound
        cases isFound
    | some value =>
        rw [get] at isFound
        cases isFound
        rfl
  · intro ran
    rcases ran with ⟨get, rfl, rfl⟩
    exact ⟨relId', by rw [get]; rfl, rfl⟩

theorem resolveIds_selectOf (isResolved : info.Resolved relationIds) :
    resolveIds relationIds (selectOf info.name) = .ok info :=
  resolveIds_eq_ok.mpr ⟨isResolved.relation, rfl⟩

theorem resolveRelationIds_eq {query : QueryInfo} (isResolved : query.Resolved) :
    resolveRelationIds ⟨query.relationIds,
        query.predicates.map fun pInfo => predicateOf (pInfo.left.name, pInfo.right.name),
        query.filters.map fun fInfo =>
          filterOf (fInfo.filterColumn.name, fInfo.comparison, fInfo.constant),
        query.selections.map fun info => selectOf info.name⟩ = .ok query := by
  have selections : (query.selections.map fun info => selectOf info.name).mapM
      (resolveIds query.relationIds) = .ok query.selections := by
    rw [List.mapM_map]
    refine (mapM_ok_map id fun info member => ?_).trans (by rw [List.map_id])
    exact resolveIds_selectOf (isResolved.selections info member)
  have predicates : (query.predicates.map fun pInfo =>
      predicateOf (pInfo.left.name, pInfo.right.name)).mapM
        (resolvePredicate query.relationIds) = .ok query.predicates := by
    rw [List.mapM_map]
    refine (mapM_ok_map id fun pInfo member => ?_).trans (by rw [List.map_id])
    have both := isResolved.predicates pInfo member
    simp only [Function.comp_apply, resolvePredicate, predicateOf, resolveIds_selectOf both.1,
      resolveIds_selectOf both.2, ok_bind, id]
  have filters : (query.filters.map fun fInfo =>
      filterOf (fInfo.filterColumn.name, fInfo.comparison, fInfo.constant)).mapM
        (resolveFilter query.relationIds) = .ok query.filters := by
    rw [List.mapM_map]
    refine (mapM_ok_map id fun fInfo member => ?_).trans (by rw [List.map_id])
    simp only [Function.comp_apply, resolveFilter, filterOf,
      resolveIds_selectOf (isResolved.filters fInfo member).1, ok_bind, id]
  simp only [resolveRelationIds, selections, predicates, filters, ok_bind]

end Resolving

section Dumping

variable {query : QueryInfo}

theorem dumpText_eq (query : QueryInfo) : query.dumpText =
    separated ' ' ((query.relationIds.map Numeral.ofNat).map Numeral.digits) ++ '|' ::
      (separated '&' ((query.written.map (Predicate.map Numeral.ofNat)).map Predicate.text) ++ '|' ::
        separated ' ' ((query.selections.map fun info => info.name.map Numeral.ofNat).map
          ColumnName.text)) := by
  have relations : (query.relationIds.map Numeral.ofNat).map Numeral.digits =
      query.relationIds.map numeral := List.map_map
  have selections : (query.selections.map fun info => info.name.map Numeral.ofNat).map
      ColumnName.text = query.selections.map SelectInfo.dumpText := List.map_map
  have predicates : (query.predicates.map PredicateInfo.asPredicate).map
      (Predicate.text ∘ Predicate.map Numeral.ofNat) =
        query.predicates.map PredicateInfo.dumpText := List.map_map
  have filters : (query.filters.map FilterInfo.asPredicate).map
      (Predicate.text ∘ Predicate.map Numeral.ofNat) =
        query.filters.map FilterInfo.dumpText := by
    rw [List.map_map]
    apply List.map_congr_left
    intro fInfo _
    change _ ++ opChar fInfo.comparison :: _ = _
    rw [comparisonChar_eq]
    rfl
  rw [QueryInfo.dumpText, QueryInfo.written, relations, selections, List.map_map, List.map_append,
    predicates, filters, separated_append, List.append_assoc, List.append_assoc]
  simp only [ne_eq, List.map_eq_nil_iff]

theorem value_ofNat (value : Nat) : (Numeral.ofNat value).value = value :=
  numeralValue_numeral value

theorem map_ofNat_value (predicate : Predicate Nat) :
    (predicate.map Numeral.ofNat).map Numeral.value = predicate := by
  cases predicate with
  | join left right => simp only [Predicate.map, ColumnName.map, value_ofNat]
  | filter participant op constant => simp only [Predicate.map, ColumnName.map, value_ofNat]

theorem filterMap_written (query : QueryInfo) :
    (query.written.filterMap Predicate.asJoin).map predicateOf =
        query.predicates.map (fun pInfo => predicateOf (pInfo.left.name, pInfo.right.name)) ∧
      (query.written.filterMap Predicate.asFilter).map filterOf = query.filters.map fun fInfo =>
        filterOf (fInfo.filterColumn.name, fInfo.comparison, fInfo.constant) := by
  have joins : (Predicate.asJoin ∘ PredicateInfo.asPredicate) =
      fun pInfo => some (pInfo.left.name, pInfo.right.name) := rfl
  have noJoins : (Predicate.asJoin ∘ FilterInfo.asPredicate) = fun _ => none := rfl
  have filters : (Predicate.asFilter ∘ FilterInfo.asPredicate) =
      fun fInfo => some (fInfo.filterColumn.name, fInfo.comparison, fInfo.constant) := rfl
  have noFilters : (Predicate.asFilter ∘ PredicateInfo.asPredicate) = fun _ => none := rfl
  rw [QueryInfo.written]
  constructor
  · rw [List.filterMap_append, List.filterMap_map, List.filterMap_map, joins, noJoins]
    simp
  · rw [List.filterMap_append, List.filterMap_map, List.filterMap_map, filters, noFilters]
    simp

theorem parseQuery_dumpText (isResolved : query.Resolved) (some : query.selections ≠ []) :
    parseQuery query.dumpText = .ok query := by
  have values : (query.relationIds.map Numeral.ofNat).map Numeral.value = query.relationIds := by
    rw [List.map_map]
    exact (List.map_congr_left fun value _ => value_ofNat value).trans (List.map_id _)
  have predicates : (query.written.map (Predicate.map Numeral.ofNat)).map
      (Predicate.map Numeral.value) = query.written := by
    rw [List.map_map]
    exact (List.map_congr_left fun predicate _ => map_ofNat_value predicate).trans (List.map_id _)
  have names : ((query.selections.map fun info => info.name.map Numeral.ofNat).map
      (ColumnName.map Numeral.value)).map selectOf =
        query.selections.map fun info => selectOf info.name := by
    rw [List.map_map, List.map_map]
    apply List.map_congr_left
    intro info _
    simp only [Function.comp_apply, ColumnName.map, value_ofNat]
  have shortPredicates : ∀ predicate ∈ query.written, ShortPredicate predicate := by
    intro predicate member
    rcases List.mem_append.mp member with isJoin | isFilter
    · rcases List.mem_map.mp isJoin with ⟨pInfo, isPredicate, rfl⟩
      have both := isResolved.predicates pInfo isPredicate
      exact ⟨both.1.short, both.2.short⟩
    · rcases List.mem_map.mp isFilter with ⟨fInfo, isInfo, rfl⟩
      have both := isResolved.filters fInfo isInfo
      exact ⟨both.1.short, both.2⟩
  rw [dumpText_eq, parseQuery_parts, values, predicates, names, (filterMap_written query).1,
    (filterMap_written query).2, resolveRelationIds_eq isResolved]
  · exact mt List.map_eq_nil_iff.mp some
  · intro written member
    rcases List.mem_map.mp member with ⟨value, isValue, rfl⟩
    rw [value_ofNat]
    exact isResolved.relationIds value isValue
  · intro written member
    rcases List.mem_map.mp member with ⟨predicate, isPredicate, rfl⟩
    rw [map_ofNat_value]
    exact shortPredicates predicate isPredicate
  · intro written member
    rcases List.mem_map.mp member with ⟨info, isInfo, rfl⟩
    simp only [ColumnName.map, value_ofNat]
    exact (isResolved.selections info isInfo).short

/-- Without selections, the last part is missing. -/
theorem parseQuery_dumpText_nil (none : query.selections = []) :
    parseQuery query.dumpText = .error .assertion := by
  have inRelations : '|' ∉ separated ' ' ((query.relationIds.map Numeral.ofNat).map
      Numeral.digits) := not_mem_separated (by decide) (not_mem_digits rfl)
  have inPredicates : '|' ∉ separated '&' ((query.written.map (Predicate.map Numeral.ofNat)).map
      Predicate.text) :=
    not_mem_separated (by decide) (not_mem_predicateText rfl (by decide) (by decide))
  rw [dumpText_eq, none, parseQuery, tokens_append_cons inRelations,
    tokens_append_cons inPredicates]
  rfl

end Dumping

section Parsing

theorem stoul_lt {token : List Char} {value : Nat} (ran : stoul token = .ok value) :
    value < 2 ^ 64 := by
  simp only [stoul] at ran
  split at ran
  · cases ran
  · split at ran
    · cases ran
    · next fits =>
        cases ran
        split
        · exact Nat.mod_lt _ (by decide)
        · exact Nat.lt_of_not_le fits

theorem splitNumbers_lt {delimiter : Char} {line : List Char} {numbers : List Nat}
    (ran : splitNumbers delimiter line = .ok numbers) : ∀ number ∈ numbers, number < 2 ^ 32 := by
  intro number member
  rcases mem_of_mapM_ok ran member with ⟨token, _, isNumber⟩
  rcases bind_eq_ok.mp isNumber with ⟨value, _, same⟩
  cases same
  exact Nat.mod_lt _ (by decide)

theorem parseRelColPair_short {raw : List Char} {info : SelectInfo}
    (ran : parseRelColPair raw = .ok info) : ShortName info.name := by
  rcases bind_eq_ok.mp ran with ⟨ids, areIds, ran⟩
  rcases bind_eq_ok.mp ran with ⟨binding, isBinding, ran⟩
  rcases bind_eq_ok.mp ran with ⟨colId, isColId, same⟩
  cases same
  have small {i id : Nat} (isId : orFault .access ids[i]? = .ok id) : id < 2 ^ 32 := by
    cases get : ids[i]? with
    | none =>
        rw [get] at isId
        cases isId
    | some value =>
        rw [get] at isId
        cases isId
        exact splitNumbers_lt areIds _ (List.mem_of_getElem? get)
  exact ⟨small isBinding, small isColId⟩

/-- The numbers of a query that is not resolved yet are in their ranges. -/
structure QueryInfo.Short (query : QueryInfo) : Prop where
  relationIds : ∀ relationId ∈ query.relationIds, relationId < 2 ^ 32
  predicates : ∀ pInfo ∈ query.predicates, ShortName pInfo.left.name ∧ ShortName pInfo.right.name
  filters : ∀ fInfo ∈ query.filters, ShortName fInfo.filterColumn.name ∧ fInfo.constant < 2 ^ 64
  selections : ∀ info ∈ query.selections, ShortName info.name

theorem parsePredicate_short {query after : QueryInfo} {rawPredicate : List Char}
    (short : query.Short) (ran : parsePredicate query rawPredicate = .ok after) : after.Short := by
  rw [parsePredicate] at ran
  split at ran
  · split at ran
    · cases ran
    · rcases bind_eq_ok.mp ran with ⟨left, isLeft, ran⟩
      split at ran
      · rcases bind_eq_ok.mp ran with ⟨constant, isConstant, ran⟩
        rcases bind_eq_ok.mp ran with ⟨compType, _, ran⟩
        rcases bind_eq_ok.mp ran with ⟨comparison, _, same⟩
        cases same
        refine { short with filters := List.forall_mem_append.mpr ⟨short.filters, ?_⟩ }
        exact List.forall_mem_singleton.mpr ⟨parseRelColPair_short isLeft, stoul_lt isConstant⟩
      · rcases bind_eq_ok.mp ran with ⟨right, isRight, same⟩
        cases same
        refine { short with predicates := List.forall_mem_append.mpr ⟨short.predicates, ?_⟩ }
        exact List.forall_mem_singleton.mpr
          ⟨parseRelColPair_short isLeft, parseRelColPair_short isRight⟩
  · cases ran

theorem parsePredicates_short {rawPredicates : List (List Char)} {query after : QueryInfo}
    (short : query.Short) (ran : rawPredicates.foldlM parsePredicate query = .ok after) :
    after.Short :=
  foldlM_ok_induction (fun _ before after => before.Short → after.Short) (fun _ short => short)
    (fun _ _ _ _ _ ran next short => next (parsePredicate_short short ran)) ran short

theorem resolveRelationIds_resolved {query after : QueryInfo} (short : query.Short)
    (ran : resolveRelationIds query = .ok after) : after.Resolved := by
  rcases bind_eq_ok.mp ran with ⟨selections, areSelections, ran⟩
  rcases bind_eq_ok.mp ran with ⟨predicates, arePredicates, ran⟩
  rcases bind_eq_ok.mp ran with ⟨filters, areFilters, same⟩
  cases same
  have isResolved {info resolved : SelectInfo} (ran : resolveIds query.relationIds info = .ok resolved)
      (isShort : ShortName info.name) : resolved.Resolved query.relationIds := by
    rcases resolveIds_eq_ok.mp ran with ⟨relation, name⟩
    refine ⟨?_, name ▸ isShort⟩
    rw [← relation]
    exact congrArg (query.relationIds[·]?) (congrArg ColumnName.rel name)
  refine ⟨short.relationIds, ?_, ?_, ?_⟩
  · intro pInfo member
    rcases mem_of_mapM_ok arePredicates member with ⟨before, isBefore, ran⟩
    rcases bind_eq_ok.mp ran with ⟨left, isLeft, ran⟩
    rcases bind_eq_ok.mp ran with ⟨right, isRight, same⟩
    cases same
    have both := short.predicates before isBefore
    exact ⟨isResolved isLeft both.1, isResolved isRight both.2⟩
  · intro fInfo member
    rcases mem_of_mapM_ok areFilters member with ⟨before, isBefore, ran⟩
    rcases bind_eq_ok.mp ran with ⟨filterColumn, isColumn, same⟩
    cases same
    have both := short.filters before isBefore
    exact ⟨isResolved isColumn both.1, both.2⟩
  · intro info member
    rcases mem_of_mapM_ok areSelections member with ⟨before, isBefore, ran⟩
    exact isResolved ran (short.selections before isBefore)

theorem parseQuery_resolved {rawQuery : List Char} {query : QueryInfo}
    (parsed : parseQuery rawQuery = .ok query) : query.Resolved := by
  rw [parseQuery] at parsed
  split at parsed
  · rcases bind_eq_ok.mp parsed with ⟨relationIds, areIds, parsed⟩
    rcases bind_eq_ok.mp parsed with ⟨before, arePredicates, parsed⟩
    rcases bind_eq_ok.mp parsed with ⟨selections, areSelections, parsed⟩
    have short : before.Short := parsePredicates_short
      ⟨splitNumbers_lt areIds, List.forall_mem_nil _, List.forall_mem_nil _, List.forall_mem_nil _⟩
      arePredicates
    apply resolveRelationIds_resolved _ parsed
    refine { short with selections := fun info member => ?_ }
    rcases mem_of_mapM_ok areSelections member with ⟨raw, _, ran⟩
    exact parseRelColPair_short ran
  · cases parsed

/-- A query that was parsed is parsed again from what is written for it exactly when it asks for
something. -/
theorem parseQuery_dumped_iff {rawQuery : List Char} {query : QueryInfo}
    (parsed : parseQuery rawQuery = .ok query) :
    parseQuery query.dumpText = .ok query ↔ query.selections ≠ [] := by
  constructor
  · intro again none
    rw [parseQuery_dumpText_nil none] at again
    cases again
  · exact parseQuery_dumpText (parseQuery_resolved parsed)

/-- `0 0|00.0=1.0|1.0`, which is written without the leading zero. -/
theorem parseQuery_dumped_leadingZero :
    parseQuery (QueryInfo.dumpText ⟨[0, 0], [⟨⟨0, 0, 0⟩, ⟨0, 1, 0⟩⟩], [], [⟨0, 1, 0⟩]⟩) =
      .ok ⟨[0, 0], [⟨⟨0, 0, 0⟩, ⟨0, 1, 0⟩⟩], [], [⟨0, 1, 0⟩]⟩ := by
  have parsed : parseQuery ['0', ' ', '0', '|', '0', '0', '.', '0', '=', '1', '.', '0', '|',
      '1', '.', '0'] = .ok ⟨[0, 0], [⟨⟨0, 0, 0⟩, ⟨0, 1, 0⟩⟩], [], [⟨0, 1, 0⟩]⟩ := rfl
  exact (parseQuery_dumped_iff parsed).mpr (List.cons_ne_nil _ _)

end Parsing

end JoinOperator.Reference
