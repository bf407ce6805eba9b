import JoinOperator.Foundation.JoinedParts
import JoinOperator.Reference.BuiltOperators

/-! # What operators evaluate to

An operator that is run has all solutions of its conditions once, and the columns that were
required of it.
-/

namespace JoinOperator.Reference

open Foundation QueryText Receiver Executor

section Values

variable {relArr : List Relationsheep} {rels : List Nat} {info : SelectInfo} {real : Nat}
  {relation : Relationsheep} {values : List Nat}

theorem rowsOf_eq {binding : Nat} (isReal : rels[binding]? = some real)
    (isRelation : relArr[real]? = some relation) : rowsOf relArr rels binding = relation.rows := by
  rw [rowsOf, isReal, Option.bind_some, isRelation]
  rfl

theorem cell_eq (isReal : rels[info.binding]? = some real)
    (isRelation : relArr[real]? = some relation)
    (get : relation.pointToCols[info.colId]? = some values) (rowIds : Nat → Nat) :
    cell relArr rels info rowIds = values.getD (rowIds info.binding) 0 := by
  simp only [cell, valueIn, SelectInfo.name, isReal, isRelation, get, Option.bind_eq_bind,
    Option.bind_some, List.getD_eq_getElem?_getD]

theorem shown_single (isReal : rels[info.binding]? = some real)
    (isRelation : relArr[real]? = some relation)
    (get : relation.pointToCols[info.colId]? = some values) (rows : List Nat) :
    shown (cell relArr rels) ⟨[info.binding], rows.map ([·])⟩ info =
      rows.map (values.getD · 0) := by
  rw [shown, List.map_map]
  apply List.map_congr_left
  intro row _
  rw [Function.comp_apply, cell_eq isReal isRelation get]
  simp [valueAt]

theorem applyFilter_eq {f : FilterInfo} (isReal : rels[f.filterColumn.binding]? = some real)
    (isRelation : relArr[real]? = some relation) (names : f.filterColumn.Names relArr rels) {i : Nat}
    (below : i < relation.rows) : applyFilter (.ofTable relation) i f =
      .ok ((predicateCondition relArr rels f.asPredicate).holds fun _ => i) := by
  rcases names.get isReal isRelation with ⟨values, get⟩
  have inside : i < values.length := length_of_getElem? get ▸ below
  have isValue : valueIn relArr rels f.filterColumn.name (fun _ => i) = values[i] := by
    have value := cell_eq isReal isRelation get fun _ => i
    rwa [List.getD_eq_getElem _ _ inside] at value
  have isColumn : orFault Fault.access (Relation.ofTable relation).columns[f.filterColumn.colId]? =
      .ok values := congrArg (orFault _) get
  rw [applyFilter, isColumn, ok_bind, List.getElem?_eq_getElem inside]
  simp only [orFault, ok_bind, predicateCondition, FilterInfo.asPredicate]
  cases f.comparison with
  | less => rw [selects, isValue]
  | greater => rw [selects, isValue]
  | equal => rw [selects, isValue]

theorem passFilters_eq {binding : Nat} {filters : List FilterInfo}
    (isReal : rels[binding]? = some real) (isRelation : relArr[real]? = some relation)
    (areFilters : ∀ f ∈ filters, f.filterColumn.binding = binding ∧
      f.filterColumn.Names relArr rels) {i : Nat} (below : i < relation.rows) :
    passFilters (.ofTable relation) filters i =
      .ok ((filters.map fun f => predicateCondition relArr rels f.asPredicate).all fun c =>
        c.holds fun _ => i) := by
  have from_ (pass : Bool) : filters.foldlM (fun pass f => do
      let applies ← applyFilter (.ofTable relation) i f
      Except.ok (pass && applies)) pass =
        .ok (pass && (filters.map fun f => predicateCondition relArr rels f.asPredicate).all
          fun c => c.holds fun _ => i) := by
    induction filters generalizing pass with
    | nil => rw [List.map_nil, List.all_nil, Bool.and_true]; rfl
    | cons f filters induction =>
        have first := areFilters f List.mem_cons_self
        rw [List.foldlM_cons, applyFilter_eq (first.1 ▸ isReal) isRelation first.2 below, ok_bind,
          ok_bind, induction fun other member => areFilters other (List.mem_cons_of_mem _ member),
          List.map_cons, List.all_cons, Bool.and_assoc]
  exact from_ true

end Values

def Evaluated (relArr : List Relationsheep) (rels : List Nat) (attrs : List Nat)
    (conditions : List (Condition Nat)) (requests : List SelectInfo) (results : Results) : Prop :=
  ∃ part : PartialResult Nat, part.attrs.Perm attrs ∧
    part.Complete (rowsOf relArr rels) conditions ∧
    Materializes (cell relArr rels) part requests results

section Scans

variable {relArr : List Relationsheep} {rels : List Nat} {requests : List SelectInfo}
  {real binding : Nat} {relation : Relationsheep}

theorem evaluated_scan {selected : Selected} (isReal : rels[binding]? = some real)
    (isRelation : relArr[real]? = some relation)
    (columns : selected.Holds (fun info column =>
      relation.pointToCols[info.colId]? = some column) requests)
    (names : ∀ info ∈ requests, info.binding = binding ∧ info.Names relArr rels) :
    Evaluated relArr rels [binding] [] requests ⟨selected, relation.rows⟩ := by
  have rows := rowsOf_eq isReal isRelation
  refine ⟨⟨[binding], (List.range (rowsOf relArr rels binding)).map ([·])⟩, .refl _,
    .base binding (List.forall_mem_nil _), ?_, ?_, ?_, ?_⟩
  · rw [List.length_map, List.length_range, rows]
  · intro info member
    rcases columns info member with ⟨column, found, get⟩
    rcases names info member with ⟨rfl, _⟩
    refine ⟨column, found, Eq.symm ((shown_single isReal isRelation get _).trans ?_)⟩
    rw [rows, ← length_of_getElem? get, map_getD_range]
  · exact fun info member => List.mem_singleton.mpr (names info member).1
  · exact List.forall_mem_map.mpr fun row _ => rfl

theorem evaluated_filterScan {filters : List FilterInfo} {inputData : Selected}
    (isReal : rels[binding]? = some real) (isRelation : relArr[real]? = some relation)
    (areFilters : ∀ f ∈ filters, f.filterColumn.binding = binding ∧
      f.filterColumn.Names relArr rels)
    (columns : inputData.Holds (fun info column =>
      relation.pointToCols[info.colId]? = some column) requests)
    (names : ∀ info ∈ requests, info.binding = binding ∧ info.Names relArr rels)
    (whole : ∀ column ∈ inputData.columns, column.length = relation.rows) :
    ∃ results, runFilterScan (.ofTable relation) filters inputData = .ok results ∧
      Evaluated relArr rels [binding]
        (filters.map fun f => predicateCondition relArr rels f.asPredicate) requests results := by
  let conditions := filters.map fun f => predicateCondition relArr rels f.asPredicate
  let rows := (List.range relation.rows).filter fun i => conditions.all fun c => c.holds fun _ => i
  have passed : (List.range (Relation.ofTable relation).size).filterM
      (passFilters (.ofTable relation) filters) = .ok rows := by
    apply filterM_ok
    intro i member
    exact passFilters_eq isReal isRelation areFilters (List.mem_range.mp member)
  have inside : ∀ row ∈ rows, row < relation.rows := fun row member =>
    List.mem_range.mp (List.mem_filter.mp member).1
  have copied : inputData.columns.mapM (copyColumn rows) =
      .ok (inputData.columns.map fun column => rows.map (column.getD · 0)) := by
    apply mapM_ok_map
    intro column member
    have copies := @copyColumn_map _ rows column id 0 fun row isRow => by
      rw [whole column member]
      exact inside row isRow
    rwa [List.map_id, List.map_id] at copies
  refine ⟨⟨⟨inputData.select2ResultColId,
    inputData.columns.map fun column => rows.map (column.getD · 0)⟩, rows.length⟩, ?_,
    ⟨[binding], rows.map ([·])⟩, .refl _, ?_, (List.length_map _).symm, ?_, ?_, ?_⟩
  · simp only [runFilterScan, passed, copied, ok_bind]
  · have bound := rowsOf_eq isReal isRelation
    have complete := @complete_single _ _ (rowsOf relArr rels) conditions binding
      (fun i => conditions.all fun c => c.holds fun _ => i) (by
        intro c member attr isAttr
        rcases List.mem_map.mp member with ⟨f, isFilter, rfl⟩
        cases List.mem_singleton.mp isAttr
        exact List.mem_singleton.mpr (areFilters f isFilter).1) fun _ _ => rfl
    rwa [bound] at complete
  · intro info member
    rcases columns info member with ⟨column, found, get⟩
    rcases names info member with ⟨rfl, _⟩
    rcases column_eq_ok.mp found with ⟨colId, isId, isColumn⟩
    refine ⟨rows.map (column.getD · 0), column_eq_ok.mpr ⟨colId, isId, ?_⟩,
      (shown_single isReal isRelation get rows).symm⟩
    rw [List.getElem?_map, isColumn]
    rfl
  · exact fun info member => List.mem_singleton.mpr (names info member).1
  · exact List.forall_mem_map.mpr fun row _ => rfl

end Scans

section Joins

variable {relArr : List Relationsheep} {rels : List Nat} {pInfo : PredicateInfo}
  {leftAttrs rightAttrs : List Nat} {leftConditions rightConditions : List (Condition Nat)}
  {leftRequests rightRequests requestedLeft requestedRight requested : List SelectInfo}
  {left right results : Results}

theorem Evaluated.of_perm {attrs otherAttrs : List Nat} {conditions others : List (Condition Nat)}
    {requests otherRequests : List SelectInfo}
    (evaluated : Evaluated relArr rels attrs conditions requests results)
    (permAttrs : attrs.Perm otherAttrs) (permConditions : conditions.Perm others)
    (fewer : otherRequests ⊆ requests) :
    Evaluated relArr rels otherAttrs others otherRequests results := by
  rcases evaluated with ⟨part, perm, complete, rows⟩
  refine ⟨part, perm.trans permAttrs, complete.congr fun c _ => permConditions.mem_iff, ?_⟩
  exact ⟨rows.resultSize, rows.columns.mono fewer, fun info member =>
    rows.bindings info (fewer member), rows.lengths⟩

theorem evaluated_join (multimap : Multimap)
    (isLeft : Evaluated relArr rels leftAttrs leftConditions leftRequests left)
    (isRight : Evaluated relArr rels rightAttrs rightConditions rightRequests right)
    (insideLeft : ∀ c ∈ leftConditions, c.attrs ⊆ leftAttrs)
    (insideRight : ∀ c ∈ rightConditions, c.attrs ⊆ rightAttrs)
    (disjoint : leftAttrs.Disjoint rightAttrs) (fewerLeft : requestedLeft ⊆ leftRequests)
    (fewerRight : requestedRight ⊆ rightRequests) {leftInfo rightInfo : SelectInfo}
    (leftMember : leftInfo ∈ leftRequests) (rightMember : rightInfo ∈ rightRequests)
    {c : Condition Nat} (attrs : c.attrs ⊆ leftAttrs ++ rightAttrs)
    (holds : ∀ rowIds, c.holds rowIds =
      decide (cell relArr rels leftInfo rowIds = cell relArr rels rightInfo rowIds)) :
    ∃ joined, joinResults multimap left right leftInfo rightInfo requestedLeft requestedRight =
        .ok joined ∧
      Evaluated relArr rels (leftAttrs ++ rightAttrs) (leftConditions ++ rightConditions ++ [c])
        (requestedLeft ++ requestedRight) joined := by
  rcases isLeft with ⟨leftPart, leftPerm, leftComplete, leftRows⟩
  rcases isRight with ⟨rightPart, rightPerm, rightComplete, rightRows⟩
  have partsDisjoint : leftPart.attrs.Disjoint rightPart.attrs := fun attr inLeft inRight =>
    disjoint (leftPerm.mem_iff.mp inLeft) (rightPerm.mem_iff.mp inRight)
  have perm := leftPerm.append rightPerm
  rcases joinResults_spec multimap cell_isLocal leftRows rightRows partsDisjoint leftMember
    rightMember fewerLeft fewerRight with ⟨joined, tuples, ran, rows, selected⟩
  refine ⟨joined, ran, _, perm, ?_, rows⟩
  apply leftComplete.join rightComplete
    (fun c member => List.Subset.trans (insideLeft c member) leftPerm.symm.subset)
    (fun c member => List.Subset.trans (insideRight c member) rightPerm.symm.subset)
    partsDisjoint (List.Subset.trans attrs perm.symm.subset)
  simp only [holds]
  exact selected

/-- Either input may be the smaller one. -/
theorem evaluated_joinSmaller (multimap : Multimap)
    (isLeft : Evaluated relArr rels leftAttrs leftConditions leftRequests left)
    (isRight : Evaluated relArr rels rightAttrs rightConditions rightRequests right)
    (insideLeft : ∀ c ∈ leftConditions, c.attrs ⊆ leftAttrs)
    (insideRight : ∀ c ∈ rightConditions, c.attrs ⊆ rightAttrs)
    (disjoint : leftAttrs.Disjoint rightAttrs) (fewerLeft : requestedLeft ⊆ leftRequests)
    (fewerRight : requestedRight ⊆ rightRequests) {leftInfo rightInfo : SelectInfo}
    (leftMember : leftInfo ∈ leftRequests) (rightMember : rightInfo ∈ rightRequests)
    {c : Condition Nat} (attrs : c.attrs ⊆ leftAttrs ++ rightAttrs)
    (holds : ∀ rowIds, c.holds rowIds =
      decide (cell relArr rels leftInfo rowIds = cell relArr rels rightInfo rowIds)) :
    ∃ joined, (if left.resultSize > right.resultSize then
        joinResults multimap right left rightInfo leftInfo requestedRight requestedLeft
      else
        joinResults multimap left right leftInfo rightInfo requestedLeft requestedRight) =
          .ok joined ∧
      Evaluated relArr rels (leftAttrs ++ rightAttrs) (leftConditions ++ rightConditions ++ [c])
        (requestedLeft ++ requestedRight) joined := by
  by_cases larger : left.resultSize > right.resultSize
  · rw [if_pos larger]
    rcases evaluated_join multimap isRight isLeft insideRight insideLeft
      (List.disjoint_symm disjoint) fewerRight fewerLeft rightMember leftMember
      (List.Subset.trans attrs List.perm_append_comm.subset)
      (fun rowIds => (holds rowIds).trans (decide_eq_decide.mpr eq_comm)) with
      ⟨joined, ran, evaluated⟩
    refine ⟨joined, ran, ?_⟩
    exact Evaluated.of_perm evaluated List.perm_append_comm
      (List.perm_append_comm.append_right _) List.perm_append_comm.subset
  · rw [if_neg larger]
    exact evaluated_join multimap isLeft isRight insideLeft insideRight disjoint fewerLeft
      fewerRight leftMember rightMember attrs holds

theorem evaluated_selfJoin
    (evaluated : Evaluated relArr rels leftAttrs leftConditions leftRequests results)
    (fewer : requested ⊆ leftRequests) (leftMember : pInfo.left ∈ leftRequests)
    (rightMember : pInfo.right ∈ leftRequests) (inLeft : pInfo.left.binding ∈ leftAttrs)
    (inRight : pInfo.right.binding ∈ leftAttrs) :
    ∃ joined, selfJoinResults results pInfo requested = .ok joined ∧
      Evaluated relArr rels leftAttrs
        (leftConditions ++ [predicateCondition relArr rels pInfo.asPredicate]) requested
        joined := by
  rcases evaluated with ⟨part, perm, complete, rows⟩
  rcases selfJoinResults_spec rows leftMember rightMember fewer with ⟨joined, ran, joinedRows⟩
  have inside : (predicateCondition relArr rels pInfo.asPredicate).attrs ⊆ part.attrs := by
    intro attr isAttr
    rcases List.mem_pair.mp isAttr with rfl | rfl
    · exact perm.mem_iff.mpr inLeft
    · exact perm.mem_iff.mpr inRight
  exact ⟨joined, ran, ⟨part.attrs, part.tuples.filter fun tuple =>
    cell relArr rels pInfo.left (valueAt part.attrs tuple) =
      cell relArr rels pInfo.right (valueAt part.attrs tuple)⟩, perm,
    complete.select inside (.refl _), joinedRows⟩

/-- An operator that is run has the solutions of its conditions. -/
theorem run_spec (multimap : Multimap) {selfJoins : Prop} {op : Operator} {attrs : List Nat}
    {conditions : List (Condition Nat)} {requests : List SelectInfo}
    (builds : Builds relArr rels selfJoins op attrs conditions requests) :
    Outcome selfJoins (Evaluated relArr rels attrs conditions requests) (op.run multimap) := by
  generalize isSize : op.size = size
  induction size using Nat.strongRecOn generalizing op attrs conditions requests with
  | ind size induction =>
      cases builds with
      | scan isReal isRelation columns names =>
          rw [Operator.run]
          exact evaluated_scan isReal isRelation columns names
      | filterScan isReal isRelation areFilters columns names found whole =>
          rw [Operator.run]
          rcases evaluated_filterScan isReal isRelation areFilters columns names whole with
            ⟨results, ran, evaluated⟩
          exact .of_ok ran evaluated
      | @join left right pInfo leftAttrs rightAttrs leftConditions rightConditions _ _
          requestedLeft requestedRight isLeft isRight disjoint fewerLeft fewerRight inLeft inRight
          leftNames rightNames =>
          rw [Operator.run_join]
          apply (require_spec isLeft leftNames).bind
          intro reached askedLeft isBuilt
          rcases reached with ⟨foundLeft, left'⟩
          rcases isBuilt with ⟨_, requiredLeft, moreLeft, isRequiredLeft, left'Built⟩
          apply (require_spec isRight rightNames).bind
          intro reached askedRight isBuilt
          rcases reached with ⟨foundRight, right'⟩
          rcases isBuilt with ⟨_, requiredRight, moreRight, isRequiredRight, right'Built⟩
          have leftSmaller : left'.size < size := isSize ▸ Operator.size_left_lt askedLeft
          have rightSmaller : right'.size < size := isSize ▸ Operator.size_right_lt askedRight
          apply (induction left'.size leftSmaller left'Built rfl).bind
          intro leftResults _ leftEvaluated
          apply (induction right'.size rightSmaller right'Built rfl).bind
          intro rightResults _ rightEvaluated
          have attrs : (predicateCondition relArr rels pInfo.asPredicate).attrs ⊆
              leftAttrs ++ rightAttrs := by
            intro attr isAttr
            rcases List.mem_pair.mp isAttr with rfl | rfl
            · exact List.mem_append_left _ inLeft
            · exact List.mem_append_right _ inRight
          rcases evaluated_joinSmaller multimap leftEvaluated rightEvaluated
            isLeft.conditions_inside isRight.conditions_inside disjoint
            (List.Subset.trans fewerLeft moreLeft) (List.Subset.trans fewerRight moreRight)
            (isRequiredLeft inLeft) (isRequiredRight inRight) attrs (fun _ => rfl) with
            ⟨joined, ran, evaluated⟩
          exact .of_ok ran evaluated
      | @selfJoin input pInfo _ _ _ requiredIUs isInput fewer inLeft inRight leftNames rightNames
          allowed =>
          rw [Operator.run_selfJoin]
          apply (require_spec isInput leftNames).bind
          intro reached askedLeft isBuilt
          rcases reached with ⟨foundLeft, first⟩
          rcases isBuilt with ⟨_, required, more, isRequired, firstBuilt⟩
          apply (require_spec firstBuilt rightNames).bind
          intro reached askedRight isBuilt
          rcases reached with ⟨foundRight, second⟩
          rcases isBuilt with ⟨_, all, moreAgain, isRequired', secondBuilt⟩
          have smaller : second.size < size := isSize ▸ Operator.size_input_lt askedLeft askedRight
          apply (induction second.size smaller secondBuilt rfl).bind
          intro results _ evaluated
          rcases evaluated_selfJoin evaluated
            (List.Subset.trans fewer (List.Subset.trans more moreAgain))
            (moreAgain (isRequired inLeft)) (isRequired' inRight) inLeft inRight with
            ⟨joined, ran, evaluated⟩
          exact .of_ok ran evaluated

end Joins

end JoinOperator.Reference
