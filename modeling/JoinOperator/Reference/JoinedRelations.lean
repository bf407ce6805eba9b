import JoinOperator.Reference.EvaluatedOperators
import JoinOperator.Reference.Joiner

/-! # Relations that are joined

The loop over the predicates keeps that the operators so far are built for the predicates that had
their turn, and for the filters on the relations of these.
-/

namespace JoinOperator.Reference

open Foundation QueryText Receiver Executor

structure QueryInfo.Valid (relArr : List Relationsheep) (query : QueryInfo) : Prop where
  predicates : ∀ pInfo ∈ query.predicates, pInfo.left.Names relArr query.relationIds ∧
    pInfo.right.Names relArr query.relationIds
  filters : ∀ f ∈ query.filters, f.filterColumn.Names relArr query.relationIds
  selections : ∀ info ∈ query.selections, info.Names relArr query.relationIds

def Operator.OnlyJoins : Operator → Prop
  | .scan .. => True
  | .filterScan .. => True
  | .join left right .. => left.OnlyJoins ∧ right.OnlyJoins
  | .selfJoin .. => False

section Joining

variable {relArr : List Relationsheep} {query : QueryInfo}

theorem Builds.of_onlyJoins {rels : List Nat} {selfJoins : Prop} {op : Operator} {attrs : List Nat}
    {conditions : List (Condition Nat)} {requests : List SelectInfo}
    (builds : Builds relArr rels selfJoins op attrs conditions requests) (only : op.OnlyJoins) :
    Builds relArr rels False op attrs conditions requests := by
  induction builds with
  | scan isReal isRelation columns names => exact .scan isReal isRelation columns names
  | filterScan isReal isRelation areFilters columns names found whole =>
      exact .filterScan isReal isRelation areFilters columns names found whole
  | join _ _ disjoint fewerLeft fewerRight inLeft inRight leftNames rightNames inductionLeft
      inductionRight =>
      exact .join (inductionLeft only.1) (inductionRight only.2) disjoint fewerLeft fewerRight
        inLeft inRight leftNames rightNames
  | selfJoin => exact only.elim

def filterConditions (relArr : List Relationsheep) (query : QueryInfo) (binding : Nat) :
    List (Condition Nat) :=
  (filtersOf query binding).map fun f =>
    predicateCondition relArr query.relationIds f.asPredicate

theorem addScan_spec (valid : query.Valid relArr) {info : SelectInfo}
    (names : info.Names relArr query.relationIds) (usedRelations : Finset Nat) (selfJoins : Prop) :
    ∃ op, addScan (relArr.map .ofTable) query usedRelations info =
        .ok (insert info.binding usedRelations, op) ∧ op.OnlyJoins ∧
      Builds relArr query.relationIds selfJoins op [info.binding]
        (filterConditions relArr query info.binding) [] := by
  rcases names.column with ⟨relation, _, isReal, isRelation, _⟩
  have found : (relArr.map Relation.ofTable)[info.relId]? = some (.ofTable relation) := by
    rw [List.getElem?_map, isRelation]
    rfl
  have areFilters : ∀ f ∈ filtersOf query info.binding, f.filterColumn.binding = info.binding ∧
      f.filterColumn.Names relArr query.relationIds := by
    intro f member
    rcases List.mem_filter.mp member with ⟨isFilter, same⟩
    exact ⟨of_decide_eq_true same, valid.filters f isFilter⟩
  have none : Selected.empty.Holds (fun info column =>
      relation.pointToCols[info.colId]? = some column) [] := List.forall_mem_nil _
  rw [addScan, found, filterConditions]
  cases filters : filtersOf query info.binding with
  | nil =>
      exact ⟨_, rfl, trivial, .scan isReal isRelation none (List.forall_mem_nil _)⟩
  | cons f rest =>
      rw [filters] at areFilters
      have same := (areFilters f List.mem_cons_self).1
      refine ⟨.filterScan (.ofTable relation) info.binding (f :: rest) .empty, ?_, trivial, ?_⟩
      · rw [← same]
        rfl
      refine .filterScan isReal isRelation areFilters none (List.forall_mem_nil _) ?_
        (List.forall_mem_nil _)
      intro other isFound
      cases isFound

def OfPredicates (done : List PredicateInfo) (binding : Nat) : Prop :=
  ∃ pInfo ∈ done, binding = pInfo.left.binding ∨ binding = pInfo.right.binding

/-- The operators that are built when some predicates had their turn. -/
structure IsJoined (relArr : List Relationsheep) (query : QueryInfo) (done : List PredicateInfo)
    (joined : Joined) : Prop where
  used : ∀ binding, binding ∈ joined.usedRelations ↔ OfPredicates done binding
  card : joined.usedRelations.card ≤ done.length + 1
  only : joined.usedRelations.card = done.length + 1 → joined.root.OnlyJoins
  builds : ∃ attrs conditions, Builds relArr query.relationIds True joined.root attrs conditions [] ∧
    attrs.Nodup ∧ (∀ binding, binding ∈ attrs ↔ binding ∈ joined.usedRelations) ∧
    ∀ c, c ∈ conditions ↔ (∃ binding ∈ attrs, c ∈ filterConditions relArr query binding) ∨
      ∃ pInfo ∈ done, c = predicateCondition relArr query.relationIds pInfo.asPredicate

theorem startJoin_spec (valid : query.Valid relArr) {firstJoin : PredicateInfo}
    (member : firstJoin ∈ query.predicates)
    (different : firstJoin.left.binding ≠ firstJoin.right.binding) :
    ∃ joined, startJoin (relArr.map .ofTable) query firstJoin = .ok joined ∧
      IsJoined relArr query [firstJoin] joined := by
  have names := valid.predicates firstJoin member
  rcases addScan_spec valid names.1 ∅ True with ⟨left, leftAdded, leftOnly, leftBuilt⟩
  rcases addScan_spec valid names.2 (insert firstJoin.left.binding ∅) True with
    ⟨right, rightAdded, rightOnly, rightBuilt⟩
  have disjoint : [firstJoin.left.binding].Disjoint [firstJoin.right.binding] :=
    List.disjoint_singleton.mpr fun member => different (List.mem_singleton.mp member).symm
  have built := Builds.join leftBuilt rightBuilt disjoint (List.Subset.refl _)
    (List.Subset.refl _) List.mem_cons_self List.mem_cons_self names.1 names.2
  refine ⟨⟨insert firstJoin.right.binding (insert firstJoin.left.binding ∅),
    .join left right firstJoin [] []⟩, ?_, ?_, ?_, fun _ => ⟨leftOnly, rightOnly⟩, _, _, built,
    ?_, ?_, ?_⟩
  · rw [startJoin, leftAdded, ok_bind]
    simp only [rightAdded, ok_bind]
  · intro binding
    simp [OfPredicates, or_comm]
  · exact (Finset.card_insert_le _ _).trans (by simp)
  · simpa using different
  · intro binding
    simp [or_comm]
  · intro c
    simp only [List.mem_append, exists_eq_left, List.singleton_append, List.mem_cons,
      List.not_mem_nil, or_false, exists_eq_or_imp]

theorem IsJoined.add {done : List PredicateInfo} {joined : Joined}
    (isJoined : IsJoined relArr query done joined) {pInfo : PredicateInfo} {known new : Nat}
    (isKnown : known ∈ joined.usedRelations) (isNew : new ∉ joined.usedRelations)
    (sides : ∀ binding, binding = pInfo.left.binding ∨ binding = pInfo.right.binding ↔
      binding = known ∨ binding = new)
    {op : Operator} (only : joined.root.OnlyJoins → op.OnlyJoins)
    (builds : ∀ attrs conditions,
      Builds relArr query.relationIds True joined.root attrs conditions [] →
      known ∈ attrs → new ∉ attrs → ∃ attrs' conditions',
        Builds relArr query.relationIds True op attrs' conditions' [] ∧
        attrs'.Perm (new :: attrs) ∧
        conditions'.Perm (predicateCondition relArr query.relationIds pInfo.asPredicate ::
          (filterConditions relArr query new ++ conditions))) :
    IsJoined relArr query (pInfo :: done) ⟨insert new joined.usedRelations, op⟩ := by
  have card := Finset.card_insert_of_notMem isNew
  refine ⟨?_, ?_, ?_, ?_⟩
  · intro binding
    rw [Finset.mem_insert, isJoined.used, OfPredicates, OfPredicates]
    simp only [List.exists_mem_cons_iff, sides]
    constructor
    · intro isNeeded
      rcases isNeeded with isNew | isOld
      · exact .inl (.inr isNew)
      · exact .inr isOld
    · intro isNeeded
      rcases isNeeded with (rfl | isNew) | isOld
      · exact .inr ((isJoined.used _).mp isKnown)
      · exact .inl isNew
      · exact .inr isOld
  · rw [card, List.length_cons]
    exact Nat.succ_le_succ isJoined.card
  · intro isTree
    rw [card, List.length_cons] at isTree
    exact only (isJoined.only (Nat.succ.inj isTree))
  · rcases isJoined.builds with ⟨attrs, conditions, built, nodup, sameAttrs, sameConditions⟩
    have notAttr : new ∉ attrs := fun member => isNew ((sameAttrs new).mp member)
    rcases builds attrs conditions built ((sameAttrs known).mpr isKnown) notAttr with
      ⟨attrs', conditions', built', permAttrs, permConditions⟩
    refine ⟨attrs', conditions', built', ?_, ?_, ?_⟩
    · exact permAttrs.nodup_iff.mpr (List.nodup_cons.mpr ⟨notAttr, nodup⟩)
    · intro binding
      rw [permAttrs.mem_iff, List.mem_cons, sameAttrs, Finset.mem_insert]
    · intro c
      rw [permConditions.mem_iff, List.mem_cons, List.mem_append, sameConditions]
      simp only [permAttrs.mem_iff, List.exists_mem_cons_iff]
      rw [@or_left_comm (_ ∨ _), or_assoc]

/-- A predicate has its turn exactly when one of its relations is joined already. -/
theorem addJoin_spec (valid : query.Valid relArr) {done : List PredicateInfo} {joined : Joined}
    (isJoined : IsJoined relArr query done joined) {pInfo : PredicateInfo}
    (member : pInfo ∈ query.predicates) :
    (∃ next, addJoin (relArr.map .ofTable) query joined pInfo = .ok (some next) ∧
      IsJoined relArr query (pInfo :: done) next) ∨
    addJoin (relArr.map .ofTable) query joined pInfo = .ok none ∧
      ¬ OfPredicates done pInfo.left.binding ∧ ¬ OfPredicates done pInfo.right.binding := by
  have names := valid.predicates pInfo member
  rw [addJoin, analyzeInputOfJoin]
  by_cases usedLeft : pInfo.left.binding ∈ joined.usedRelations
  · by_cases usedRight : pInfo.right.binding ∈ joined.usedRelations
    · left
      rw [if_pos usedLeft, if_pos usedRight]
      refine ⟨_, rfl, ?_, ?_, ?_, ?_⟩
      · intro binding
        rw [isJoined.used, OfPredicates, OfPredicates, List.exists_mem_cons_iff]
        constructor
        · exact .inr
        · intro isNeeded
          rcases isNeeded with (rfl | rfl) | isOld
          · exact (isJoined.used _).mp usedLeft
          · exact (isJoined.used _).mp usedRight
          · exact isOld
      · exact Nat.le_succ_of_le isJoined.card
      · intro isTree
        exact absurd isTree (Nat.ne_of_lt (Nat.lt_succ_of_le isJoined.card))
      · rcases isJoined.builds with ⟨attrs, conditions, built, nodup, sameAttrs, sameConditions⟩
        refine ⟨attrs, _, .selfJoin built (List.Subset.refl _) ((sameAttrs _).mpr usedLeft)
          ((sameAttrs _).mpr usedRight) names.1 names.2 trivial, nodup, sameAttrs, ?_⟩
        intro c
        rw [List.mem_append, List.mem_singleton, sameConditions, List.exists_mem_cons_iff]
        exact or_assoc.trans (or_congr_right or_comm)
    · left
      rcases addScan_spec valid names.2 joined.usedRelations True with ⟨right, added, only, built⟩
      simp only [if_pos usedLeft, if_neg usedRight, added, ok_bind]
      refine ⟨_, rfl, isJoined.add usedLeft usedRight (fun _ => Iff.rfl) (fun isOnly =>
        ⟨isOnly, only⟩) ?_⟩
      intro attrs conditions builtRoot inLeft notRight
      refine ⟨_, _, .join builtRoot built (List.disjoint_singleton.mpr notRight)
        (List.Subset.refl _) (List.Subset.refl _) inLeft List.mem_cons_self names.1 names.2, ?_, ?_⟩
      · exact List.perm_append_singleton _ _
      · exact (List.perm_append_singleton _ _).trans (List.perm_append_comm.cons _)
  · by_cases usedRight : pInfo.right.binding ∈ joined.usedRelations
    · left
      rcases addScan_spec valid names.1 joined.usedRelations True with ⟨left, added, only, built⟩
      simp only [if_neg usedLeft, if_pos usedRight, added, ok_bind]
      refine ⟨_, rfl, isJoined.add usedRight usedLeft (fun _ => or_comm) (fun isOnly =>
        ⟨only, isOnly⟩) ?_⟩
      intro attrs conditions builtRoot inRight notLeft
      refine ⟨_, _, .join built builtRoot (List.singleton_disjoint.mpr notLeft)
        (List.Subset.refl _) (List.Subset.refl _) List.mem_cons_self inRight names.1 names.2, ?_, ?_⟩
      · exact List.Perm.refl _
      · exact List.perm_append_singleton _ _
    · right
      rw [if_neg usedLeft, if_neg usedRight]
      rw [isJoined.used] at usedLeft usedRight
      exact ⟨rfl, usedLeft, usedRight⟩

end Joining

end JoinOperator.Reference
