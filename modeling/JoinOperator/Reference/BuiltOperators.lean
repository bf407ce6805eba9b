import JoinOperator.Receiver.Meaning
import JoinOperator.Reference.DumpedQueries
import JoinOperator.Reference.Materialized

/-! # Operators that are built

What an operator is built for: relations of the query, conditions on them, and the columns that
have been required of it so far.
-/

namespace JoinOperator.Reference

open Foundation QueryText Receiver

/-- An outcome that holds, or the fault of a set that is not ordered. -/
def Outcome {α : Type} (selfJoins : Prop) (Holds : α → Prop) : Except Fault α → Prop
  | .ok value => Holds value
  | .error fault => fault = .comparator ∧ selfJoins

section Outcomes

variable {α β : Type} {selfJoins : Prop}

theorem Outcome.bind {Holds : α → Prop} {Next : β → Prop} {first : Except Fault α}
    {next : α → Except Fault β} (outcome : Outcome selfJoins Holds first)
    (continues : ∀ value, first = .ok value → Holds value → Outcome selfJoins Next (next value)) :
    Outcome selfJoins Next (first >>= next) := by
  cases first with
  | error fault => exact outcome
  | ok value => exact continues value rfl outcome

theorem Outcome.mono {Holds Next : α → Prop} {first : Except Fault α}
    (outcome : Outcome selfJoins Holds first) (implies : ∀ value, Holds value → Next value) :
    Outcome selfJoins Next first := by
  cases first with
  | error fault => exact outcome
  | ok value => exact implies value outcome

theorem Outcome.of_ok {Holds : α → Prop} {first : Except Fault α} {value : α}
    (ran : first = .ok value) (holds : Holds value) : Outcome selfJoins Holds first := by
  rw [ran]
  exact holds

end Outcomes

def Relation.ofTable (relation : Relationsheep) : Relation :=
  ⟨relation.rows, relation.pointToCols, relation.rectangular⟩

theorem relationsOf_ne_nil (predicate : Predicate Nat) : relationsOf predicate ≠ [] := by
  cases predicate with
  | join left right => exact List.cons_ne_nil _ _
  | filter participant op constant => exact List.cons_ne_nil _ _

section Tables

variable (relArr : List Relationsheep) (rels : List Nat)

def predicateCondition (predicate : Predicate Nat) : Condition Nat where
  attrs := relationsOf predicate
  holds := selects relArr rels predicate
  nonempty := relationsOf_ne_nil predicate
  onAttrs := fun _ _ same => selects_congr same

structure SelectInfo.Names (info : SelectInfo) : Prop where
  column : ∃ relation values, rels[info.binding]? = some info.relId ∧
    relArr[info.relId]? = some relation ∧ relation.pointToCols[info.colId]? = some values

def cell (info : SelectInfo) (rowIds : Nat → Nat) : Nat := valueIn relArr rels info.name rowIds

/-- What operators are built for: the relations, the conditions, and the required columns. -/
inductive Builds (selfJoins : Prop) :
    Operator → List Nat → List (Condition Nat) → List SelectInfo → Prop
  | scan {real binding : Nat} {relation : Relationsheep} {selected : Selected}
      {requests : List SelectInfo} (isReal : rels[binding]? = some real)
      (isRelation : relArr[real]? = some relation)
      (columns : selected.Holds (fun info column =>
        relation.pointToCols[info.colId]? = some column) requests)
      (names : ∀ info ∈ requests, info.binding = binding ∧ info.Names relArr rels) :
      Builds selfJoins (.scan (.ofTable relation) binding selected) [binding] [] requests
  | filterScan {real binding : Nat} {relation : Relationsheep} {filters : List FilterInfo}
      {inputData : Selected} {requests : List SelectInfo} (isReal : rels[binding]? = some real)
      (isRelation : relArr[real]? = some relation)
      (areFilters : ∀ f ∈ filters, f.filterColumn.binding = binding ∧
        f.filterColumn.Names relArr rels)
      (columns : inputData.Holds (fun info column =>
        relation.pointToCols[info.colId]? = some column) requests)
      (names : ∀ info ∈ requests, info.binding = binding ∧ info.Names relArr rels)
      (found : ∀ info, (inputData.select2ResultColId info).isSome → info ∈ requests)
      (whole : ∀ column ∈ inputData.columns, column.length = relation.rows) :
      Builds selfJoins (.filterScan (.ofTable relation) binding filters inputData) [binding]
        (filters.map fun f => predicateCondition relArr rels f.asPredicate) requests
  | join {left right : Operator} {pInfo : PredicateInfo} {leftAttrs rightAttrs : List Nat}
      {leftConditions rightConditions : List (Condition Nat)}
      {leftRequests rightRequests requestedLeft requestedRight : List SelectInfo}
      (isLeft : Builds selfJoins left leftAttrs leftConditions leftRequests)
      (isRight : Builds selfJoins right rightAttrs rightConditions rightRequests)
      (disjoint : leftAttrs.Disjoint rightAttrs) (fewerLeft : requestedLeft ⊆ leftRequests)
      (fewerRight : requestedRight ⊆ rightRequests) (inLeft : pInfo.left.binding ∈ leftAttrs)
      (inRight : pInfo.right.binding ∈ rightAttrs) (leftNames : pInfo.left.Names relArr rels)
      (rightNames : pInfo.right.Names relArr rels) :
      Builds selfJoins (.join left right pInfo requestedLeft requestedRight)
        (leftAttrs ++ rightAttrs) (leftConditions ++ rightConditions ++
          [predicateCondition relArr rels pInfo.asPredicate]) (requestedLeft ++ requestedRight)
  | selfJoin {input : Operator} {pInfo : PredicateInfo} {attrs : List Nat}
      {conditions : List (Condition Nat)} {requests requiredIUs : List SelectInfo}
      (isInput : Builds selfJoins input attrs conditions requests)
      (fewer : requiredIUs ⊆ requests) (inLeft : pInfo.left.binding ∈ attrs)
      (inRight : pInfo.right.binding ∈ attrs) (leftNames : pInfo.left.Names relArr rels)
      (rightNames : pInfo.right.Names relArr rels) (allowed : selfJoins) :
      Builds selfJoins (.selfJoin input pInfo requiredIUs) attrs
        (conditions ++ [predicateCondition relArr rels pInfo.asPredicate]) requiredIUs

end Tables

section Built

variable {relArr : List Relationsheep} {rels : List Nat} {selfJoins : Prop} {op : Operator}
  {attrs : List Nat} {conditions : List (Condition Nat)} {requests : List SelectInfo}
  {info : SelectInfo}

theorem cell_isLocal : IsLocal (cell relArr rels) := by
  intro info f g same
  rw [cell, cell, valueIn, valueIn]
  simp only [SelectInfo.name, same]

theorem Builds.requests_inside (builds : Builds relArr rels selfJoins op attrs conditions requests) :
    ∀ info ∈ requests, info.binding ∈ attrs ∧ info.Names relArr rels := by
  induction builds with
  | scan _ _ _ names =>
      intro info member
      exact ⟨List.mem_singleton.mpr (names info member).1, (names info member).2⟩
  | filterScan _ _ _ _ names =>
      intro info member
      exact ⟨List.mem_singleton.mpr (names info member).1, (names info member).2⟩
  | join _ _ _ fewerLeft fewerRight _ _ _ _ inductionLeft inductionRight =>
      intro info member
      rcases List.mem_append.mp member with inLeft | inRight
      · have inside := inductionLeft info (fewerLeft inLeft)
        exact ⟨List.mem_append_left _ inside.1, inside.2⟩
      · have inside := inductionRight info (fewerRight inRight)
        exact ⟨List.mem_append_right _ inside.1, inside.2⟩
  | selfJoin _ fewer _ _ _ _ _ induction => exact fun info member => induction info (fewer member)

theorem Builds.conditions_inside
    (builds : Builds relArr rels selfJoins op attrs conditions requests) :
    ∀ c ∈ conditions, c.attrs ⊆ attrs := by
  induction builds with
  | scan => exact List.forall_mem_nil _
  | filterScan _ _ areFilters =>
      intro c member attr isAttr
      rcases List.mem_map.mp member with ⟨f, isFilter, rfl⟩
      cases List.mem_singleton.mp isAttr
      exact List.mem_singleton.mpr (areFilters f isFilter).1
  | join _ _ _ _ _ inLeft inRight _ _ inductionLeft inductionRight =>
      intro c member attr isAttr
      rcases List.mem_append.mp member with member | isNew
      · rcases List.mem_append.mp member with isLeft | isRight
        · exact List.mem_append_left _ (inductionLeft c isLeft isAttr)
        · exact List.mem_append_right _ (inductionRight c isRight isAttr)
      · cases List.mem_singleton.mp isNew
        rcases List.mem_pair.mp isAttr with rfl | rfl
        · exact List.mem_append_left _ inLeft
        · exact List.mem_append_right _ inRight
  | selfJoin _ _ inLeft inRight _ _ _ induction =>
      intro c member attr isAttr
      rcases List.mem_append.mp member with member | isNew
      · exact induction c member isAttr
      · cases List.mem_singleton.mp isNew
        rcases List.mem_pair.mp isAttr with rfl | rfl
        · exact inLeft
        · exact inRight

def Required (relArr : List Relationsheep) (rels : List Nat) (selfJoins : Prop) (attrs : List Nat)
    (conditions : List (Condition Nat)) (requests : List SelectInfo) (info : SelectInfo)
    (result : Bool × Operator) : Prop :=
  result.1 = decide (info.binding ∈ attrs) ∧ ∃ required, requests ⊆ required ∧
    (info.binding ∈ attrs → info ∈ required) ∧
    Builds relArr rels selfJoins result.2 attrs conditions required

theorem length_of_getElem? {relation : Relationsheep} {col : Nat} {values : List Nat}
    (get : relation.pointToCols[col]? = some values) : values.length = relation.rows :=
  relation.rectangular values (List.mem_of_getElem? get)

theorem SelectInfo.Names.get (names : info.Names relArr rels) {real : Nat}
    {relation : Relationsheep} (isReal : rels[info.binding]? = some real)
    (isRelation : relArr[real]? = some relation) :
    ∃ values, relation.pointToCols[info.colId]? = some values := by
  rcases names.column with ⟨found, values, isFound, isFoundRelation, get⟩
  cases isReal.symm.trans isFound
  cases isRelation.symm.trans isFoundRelation
  exact ⟨values, get⟩

theorem require_scan {real binding : Nat} {relation : Relationsheep} {selected : Selected}
    (isReal : rels[binding]? = some real) (isRelation : relArr[real]? = some relation)
    (columns : selected.Holds (fun info column =>
      relation.pointToCols[info.colId]? = some column) requests)
    (names : ∀ info ∈ requests, info.binding = binding ∧ info.Names relArr rels)
    (asked : info.Names relArr rels) :
    Outcome selfJoins (Required relArr rels selfJoins [binding] [] requests info)
      ((Operator.scan (.ofTable relation) binding selected).require info) := by
  rw [Operator.require]
  by_cases same : info.binding = binding
  · subst same
    rcases asked.get isReal isRelation with ⟨values, get⟩
    rw [if_neg (not_not_intro rfl)]
    have found : orFault Fault.assertion (Relation.ofTable relation).columns[info.colId]? =
        .ok values := congrArg (orFault _) get
    rw [found, ok_bind]
    refine ⟨by simp, info :: requests, List.subset_cons_self _ _, fun _ => List.mem_cons_self,
      .scan isReal isRelation (columns.add get) ?_⟩
    exact List.forall_mem_cons.mpr ⟨⟨rfl, asked⟩, names⟩
  · rw [if_pos same]
    exact ⟨by simp [same], requests, List.Subset.refl _,
      fun member => absurd (List.mem_singleton.mp member) same,
      .scan isReal isRelation columns names⟩

theorem require_filterScan {real binding : Nat} {relation : Relationsheep}
    {filters : List FilterInfo} {inputData : Selected} (isReal : rels[binding]? = some real)
    (isRelation : relArr[real]? = some relation)
    (areFilters : ∀ f ∈ filters, f.filterColumn.binding = binding ∧
      f.filterColumn.Names relArr rels)
    (columns : inputData.Holds (fun info column =>
      relation.pointToCols[info.colId]? = some column) requests)
    (names : ∀ info ∈ requests, info.binding = binding ∧ info.Names relArr rels)
    (found : ∀ info, (inputData.select2ResultColId info).isSome → info ∈ requests)
    (whole : ∀ column ∈ inputData.columns, column.length = relation.rows)
    (asked : info.Names relArr rels) :
    Outcome selfJoins (Required relArr rels selfJoins [binding]
        (filters.map fun f => predicateCondition relArr rels f.asPredicate) requests info)
      ((Operator.filterScan (.ofTable relation) binding filters inputData).require info) := by
  have built := @Builds.filterScan _ _ selfJoins _ _ _ _ _ _ isReal isRelation areFilters columns
    names found whole
  rw [Operator.require]
  by_cases same : info.binding = binding
  · subst same
    rcases asked.get isReal isRelation with ⟨values, get⟩
    have isColumn : orFault Fault.assertion (Relation.ofTable relation).columns[info.colId]? =
        .ok values := congrArg (orFault _) get
    rw [if_neg (not_not_intro rfl), isColumn, ok_bind]
    by_cases known : (inputData.select2ResultColId info).isSome
    · rw [if_pos known]
      exact ⟨by simp, requests, List.Subset.refl _, fun _ => found info known, built⟩
    · rw [if_neg known]
      refine ⟨by simp, info :: requests, List.subset_cons_self _ _, fun _ => List.mem_cons_self,
        .filterScan isReal isRelation areFilters (columns.add get) ?_ ?_ ?_⟩
      · exact List.forall_mem_cons.mpr ⟨⟨rfl, asked⟩, names⟩
      · intro other isFound
        by_cases isNew : other = info
        · exact isNew ▸ List.mem_cons_self
        · simp only [Selected.add, Function.update_of_ne isNew] at isFound
          exact List.mem_cons_of_mem _ (found other isFound)
      · exact List.forall_mem_append.mpr
          ⟨whole, List.forall_mem_singleton.mpr (length_of_getElem? get)⟩
  · rw [if_pos same]
    exact ⟨by simp [same], requests, List.Subset.refl _,
      fun member => absurd (List.mem_singleton.mp member) same, built⟩

theorem SelectInfo.eq_of_not_less {other : SelectInfo} (names : info.Names relArr rels)
    (otherNames : other.Names relArr rels) (same : ¬ other.less info ∧ ¬ info.less other) :
    other = info := by
  rcases names.column with ⟨_, _, isReal, _⟩
  rcases otherNames.column with ⟨_, _, isOther, _⟩
  rcases info with ⟨relId, binding, colId⟩
  rcases other with ⟨relId', binding', colId'⟩
  simp only [less, not_or, not_lt] at same
  have binding : binding' = binding := Nat.le_antisymm same.2.1 same.1.1
  have colId : colId' = colId := Nat.le_antisymm same.2.2 same.1.2
  subst binding colId
  cases isReal.symm.trans isOther
  rfl

section Joined

variable {left right : Operator} {pInfo : PredicateInfo} {leftAttrs rightAttrs : List Nat}
  {leftConditions rightConditions : List (Condition Nat)}
  {leftRequests rightRequests requestedLeft requestedRight : List SelectInfo}

/-- The left input is asked first. -/
theorem require_join (isLeft : Builds relArr rels selfJoins left leftAttrs leftConditions leftRequests)
    (isRight : Builds relArr rels selfJoins right rightAttrs rightConditions rightRequests)
    (disjoint : leftAttrs.Disjoint rightAttrs) (fewerLeft : requestedLeft ⊆ leftRequests)
    (fewerRight : requestedRight ⊆ rightRequests) (inLeft : pInfo.left.binding ∈ leftAttrs)
    (inRight : pInfo.right.binding ∈ rightAttrs) (leftNames : pInfo.left.Names relArr rels)
    (rightNames : pInfo.right.Names relArr rels)
    (askedLeft : Outcome selfJoins (Required relArr rels selfJoins leftAttrs leftConditions
      leftRequests info) (left.require info))
    (askedRight : Outcome selfJoins (Required relArr rels selfJoins rightAttrs rightConditions
      rightRequests info) (right.require info)) :
    Outcome selfJoins (Required relArr rels selfJoins (leftAttrs ++ rightAttrs)
        (leftConditions ++ rightConditions ++
          [predicateCondition relArr rels pInfo.asPredicate]) (requestedLeft ++ requestedRight) info)
      ((Operator.join left right pInfo requestedLeft requestedRight).require info) := by
  have built := Builds.join isLeft isRight disjoint fewerLeft fewerRight inLeft inRight leftNames
    rightNames
  rw [Operator.require]
  by_cases known : info ∈ requestedLeft ++ requestedRight
  · have inside := (built.requests_inside info known).1
    rw [if_pos known]
    exact ⟨(decide_eq_true inside).symm, _, List.Subset.refl _, fun _ => known, built⟩
  · rw [if_neg known]
    apply askedLeft.bind
    intro reached _ isBuilt
    rcases reached with ⟨foundLeft, left'⟩
    rcases isBuilt with ⟨isFound, required, more, isRequired, built'⟩
    have enoughLeft := List.Subset.trans fewerLeft more
    cases foundLeft with
    | true =>
        have inAttrs := of_decide_eq_true isFound.symm
        have fewer : requestedLeft ++ [info] ⊆ required := List.append_subset.mpr
          ⟨enoughLeft, List.cons_subset.mpr ⟨isRequired inAttrs, List.nil_subset _⟩⟩
        refine ⟨by simp [inAttrs], (requestedLeft ++ [info]) ++ requestedRight, ?_, ?_,
          .join built' isRight disjoint fewer fewerRight inLeft inRight leftNames rightNames⟩
        · exact List.append_subset.mpr ⟨List.Subset.trans (List.subset_append_left _ _)
            (List.subset_append_left _ _), List.subset_append_right _ _⟩
        · exact fun _ => by simp
    | false =>
        have notLeft := of_decide_eq_false isFound.symm
        apply askedRight.bind
        intro reached _ isBuilt
        rcases reached with ⟨foundRight, right'⟩
        rcases isBuilt with ⟨isFound', required', more', isRequired', built''⟩
        have enoughRight := List.Subset.trans fewerRight more'
        cases foundRight with
        | true =>
            have inAttrs := of_decide_eq_true isFound'.symm
            have fewer : requestedRight ++ [info] ⊆ required' := List.append_subset.mpr
              ⟨enoughRight, List.cons_subset.mpr ⟨isRequired' inAttrs, List.nil_subset _⟩⟩
            refine ⟨by simp [inAttrs], requestedLeft ++ (requestedRight ++ [info]), ?_, ?_,
              .join built' built'' disjoint enoughLeft fewer inLeft inRight leftNames rightNames⟩
            · rw [← List.append_assoc]
              exact List.subset_append_left _ _
            · exact fun _ => by simp
        | false =>
            have notRight := of_decide_eq_false isFound'.symm
            have absent : info.binding ∉ leftAttrs ++ rightAttrs := fun member =>
              (List.mem_append.mp member).elim notLeft notRight
            exact ⟨(decide_eq_false absent).symm, requestedLeft ++ requestedRight,
              List.Subset.refl _, fun member => absurd member absent,
              .join built' built'' disjoint enoughLeft enoughRight inLeft inRight leftNames
                rightNames⟩

/-- A self join asks its input only for columns that are not in its set. -/
theorem require_selfJoin
    (isInput : Builds relArr rels selfJoins left leftAttrs leftConditions leftRequests)
    (fewer : requestedLeft ⊆ leftRequests) (inLeft : pInfo.left.binding ∈ leftAttrs)
    (inRight : pInfo.right.binding ∈ leftAttrs) (leftNames : pInfo.left.Names relArr rels)
    (rightNames : pInfo.right.Names relArr rels) (allowed : selfJoins)
    (asked : info.Names relArr rels)
    (askedInput : Outcome selfJoins (Required relArr rels selfJoins leftAttrs leftConditions
      leftRequests info) (left.require info)) :
    Outcome selfJoins (Required relArr rels selfJoins leftAttrs
        (leftConditions ++ [predicateCondition relArr rels pInfo.asPredicate]) requestedLeft info)
      ((Operator.selfJoin left pInfo requestedLeft).require info) := by
  have built := Builds.selfJoin isInput fewer inLeft inRight leftNames rightNames allowed
  rw [Operator.require]
  have counts : Outcome selfJoins (fun known => known = true → info ∈ requestedLeft)
      (countSelect requestedLeft info) := by
    rw [countSelect]
    split
    · exact ⟨rfl, allowed⟩
    · intro known
      rcases List.any_eq_true.mp known with ⟨other, member, same⟩
      have equal := SelectInfo.eq_of_not_less asked (built.requests_inside other member).2
        (of_decide_eq_true same)
      exact equal ▸ member
  apply counts.bind
  intro known _ isKnown
  cases known with
  | true =>
      have member := isKnown rfl
      exact ⟨(decide_eq_true (built.requests_inside info member).1).symm, requestedLeft,
        List.Subset.refl _, fun _ => member, built⟩
  | false =>
      apply askedInput.bind
      intro reached _ isBuilt
      rcases reached with ⟨inInput, input'⟩
      rcases isBuilt with ⟨isFound, required, more, isRequired, built'⟩
      have enough := List.Subset.trans fewer more
      cases inInput with
      | true =>
          have inAttrs := of_decide_eq_true isFound.symm
          refine ⟨isFound, requestedLeft.orderedInsert SelectInfo.less info, ?_,
            fun _ => (List.mem_orderedInsert _).mpr (.inl rfl),
            .selfJoin built' ?_ inLeft inRight leftNames rightNames allowed⟩
          · exact fun other member => (List.mem_orderedInsert _).mpr (.inr member)
          · intro other member
            rcases (List.mem_orderedInsert _).mp member with rfl | isOther
            · exact isRequired inAttrs
            · exact enough isOther
      | false =>
          have notIn := of_decide_eq_false isFound.symm
          exact ⟨isFound, requestedLeft, List.Subset.refl _, fun member => absurd member notIn,
            .selfJoin built' enough inLeft inRight leftNames rightNames allowed⟩

end Joined

/-- A column is found exactly when the operator has its relation. -/
theorem require_spec (builds : Builds relArr rels selfJoins op attrs conditions requests)
    (asked : info.Names relArr rels) :
    Outcome selfJoins (Required relArr rels selfJoins attrs conditions requests info)
      (op.require info) := by
  induction builds with
  | scan isReal isRelation columns names =>
      exact require_scan isReal isRelation columns names asked
  | filterScan isReal isRelation areFilters columns names found whole =>
      exact require_filterScan isReal isRelation areFilters columns names found whole asked
  | join isLeft isRight disjoint fewerLeft fewerRight inLeft inRight leftNames rightNames
      inductionLeft inductionRight =>
      exact require_join isLeft isRight disjoint fewerLeft fewerRight inLeft inRight leftNames
        rightNames inductionLeft inductionRight
  | selfJoin isInput fewer inLeft inRight leftNames rightNames allowed induction =>
      exact require_selfJoin isInput fewer inLeft inRight leftNames rightNames allowed asked induction

end Built

end JoinOperator.Reference
