import JoinOperator.Executor.MergedNodes

/-! # Runs of filters and join predicates

Every filter and every predicate keeps the invariant, if it has room for the
rows it collects.
-/

namespace JoinOperator.Executor

open Foundation RadixJoin

def touchedBy (conditions : List (Condition Nat)) : Set Nat :=
  {rel | ∃ c ∈ conditions, rel ∈ c.attrs}

/-- A predicate on one relation keeps at most as many rows of its intermediate as the
relation has. -/
def SelfJoinFits (pred : Join) (hq : HeadInter) : Prop :=
  pred.participant1.rel = pred.participant2.rel →
    ((sourceOf hq pred.participant1).satisfying (joinCondition pred)).length ≤
      pred.participant1.rows

def JoinsFit {relArr : List Relationsheep} {State : Type} (joiner : Joiner relArr State) :
    List Join → HeadInter → State → Prop
  | [], _, _ => True
  | pred :: rest, hq, state => SelfJoinFits pred hq ∧ ∀ after next,
      workerJ joiner pred hq state = .ok (after, next) → JoinsFit joiner rest after next

/-- What may come of predicates: the invariant, or a fault with its reason. -/
def Outcome {relArr : List Relationsheep} {State : Type} (rels : List Nat)
    (joiner : Joiner relArr State) (conditions : List (Condition Nat)) (fits : Prop) :
    Except Fault (HeadInter × State) → Prop
  | .ok (after, next) => fits ∧
      Executed relArr rels (touchedBy conditions) conditions after ∧ joiner.Valid next
  | .error .scratch => ¬ fits
  | .error .join => fits ∧ ¬ joiner.Returns
  | .error .memory => False

theorem mem_touchedBy_append {conditions : List (Condition Nat)} {c : Condition Nat} {rel : Nat} :
    rel ∈ touchedBy (conditions ++ [c]) ↔ rel ∈ c.attrs ∨ rel ∈ touchedBy conditions := by
  constructor
  · rintro ⟨other, member, isRel⟩
    rcases List.mem_append.mp member with member | isNew
    · exact .inr ⟨other, member, isRel⟩
    · cases List.mem_singleton.mp isNew
      exact .inl isRel
  · rintro (isRel | ⟨other, member, isRel⟩)
    · exact ⟨c, List.mem_append_right _ List.mem_cons_self, isRel⟩
    · exact ⟨other, List.mem_append_left _ member, isRel⟩

section Steps

variable {relArr : List Relationsheep} {rels : List Nat} {conditions : List (Condition Nat)}
  {head : HeadInter}

theorem Executed.of_touched {touched others : Set Nat}
    (executed : Executed relArr rels touched conditions head)
    (same : ∀ rel, rel ∈ touched ↔ rel ∈ others) : Executed relArr rels others conditions head :=
  Set.ext same ▸ executed

/-- A condition on one relation is evaluated in its intermediate, or in a new one. -/
theorem Executed.selected
    (executed : Executed relArr rels (touchedBy conditions) conditions head) {r : ColRel}
    (isParticipant : IsParticipant relArr rels r) {c : Condition Nat}
    (attrs : ∀ rel, rel ∈ c.attrs ↔ rel = r.rel) : ∃ after,
      Executed relArr rels (touchedBy (conditions ++ [c])) (conditions ++ [c]) after ∧
      match findNode head r.rel with
      | some node => updateInterSelfJoin head node ((sourceOf head r).satisfying c) = some after
      | none => createInterSelfJoin head r.rel ((sourceOf head r).satisfying c) = some after := by
  cases found : findNode head r.rel with
  | some node =>
      rcases findNode_some found with ⟨data, get, isRel⟩
      have inside : c.attrs ⊆ data.joinedRels := by
        intro rel member
        rw [(attrs rel).mp member]
        exact isRel
      rcases executed.updateSelected get inside with ⟨after, updated, kept⟩
      refine ⟨after, kept.of_touched fun rel => ?_, ?_⟩
      · rw [mem_touchedBy_append, attrs]
        constructor
        · exact .inr
        · rintro (rfl | touched)
          · exact executed.mem_touched (List.mem_of_getElem? get) isRel
          · exact touched
      · rw [sourceOf_some found get]
        exact updated
  | none =>
      have inside : c.attrs ⊆ [r.rel] := fun rel member =>
        List.mem_singleton.mpr ((attrs rel).mp member)
      rcases executed.createSelected isParticipant found inside with ⟨after, created, kept⟩
      refine ⟨after, kept.of_touched fun rel => ?_, ?_⟩
      · rw [mem_touchedBy_append, attrs, Set.mem_insert_iff]
      · rw [sourceOf_none found]
        exact created

theorem filterCondition_attrs (pred : Filter) (rel : Nat) :
    rel ∈ (filterCondition pred).attrs ↔ rel = pred.participant.rel :=
  List.mem_singleton

theorem joinCondition_attrs (pred : Join) (rel : Nat) : rel ∈ (joinCondition pred).attrs ↔
    rel = pred.participant1.rel ∨ rel = pred.participant2.rel := by
  rw [joinCondition, List.mem_cons, List.mem_singleton]

theorem collect_satisfying {data : Inter} {c : Condition Nat} {capacity : Nat}
    {test : Nat → Option Bool} (tests : ∀ i < data.numbOfRows,
      test i = some (c.holds (valueAt data.joinedRels (data.row i)))) :
    collect capacity data.numbOfRows test =
      if (data.satisfying c).length ≤ capacity then .ok (data.satisfying c)
      else .error .scratch :=
  collect_eq tests

theorem store_collected {fits : Prop} [Decidable fits] {rows : List Nat}
    {store : List Nat → Except Fault HeadInter} {after : HeadInter}
    (stored : store rows = .ok after) :
    (if fits then .ok rows else .error .scratch) >>= store =
      if fits then .ok after else .error .scratch := by
  by_cases holds : fits
  · rw [if_pos holds, if_pos holds, ok_bind, stored]
  · rw [if_neg holds, if_neg holds, error_bind]

theorem IsParticipant.read_base {r other : ColRel} (isParticipant : IsParticipant relArr rels other)
    (same : other.rel = r.rel) (isRows : IsParticipant relArr rels r) {i : Nat}
    (inside : i < (Inter.base r.rel r.rows).numbOfRows) : other.col[i]? =
      some (valueOf other (valueAt (Inter.base r.rel r.rows).joinedRels
        ((Inter.base r.rel r.rows).row i))) := by
  have below : i < rowsOf relArr rels other.rel := by
    rw [same, isRows.rows]
    exact inside
  have isRow : (Inter.base r.rel r.rows).row i = [i] := Inter.base_row r.rel inside
  rw [isParticipant.get below, isRow, valueOf, same]
  simp [valueAt, Inter.base, Inter.joinedRels]

theorem workerF_eq (executed : Executed relArr rels (touchedBy conditions) conditions head)
    {pred : Filter} (isParticipant : IsParticipant relArr rels pred.participant) : ∃ after,
      Executed relArr rels (touchedBy (conditions ++ [filterCondition pred]))
        (conditions ++ [filterCondition pred]) after ∧
      workerF pred head =
        if ((sourceOf head pred.participant).satisfying (filterCondition pred)).length ≤
          pred.participant.rows then .ok after else .error .scratch := by
  rcases executed.selected isParticipant (filterCondition_attrs pred) with ⟨after, kept, stored⟩
  refine ⟨after, kept, ?_⟩
  rw [workerF]
  cases found : findNode head pred.participant.rel with
  | some node =>
      rcases findNode_some found with ⟨data, get, isRel⟩
      rcases Inter.mem_joinedRels_iff.mp isRel with ⟨column, isColumn⟩
      rw [found, sourceOf_some found get] at stored
      simp only [get, isColumn, orFault_some, ok_bind, sourceOf_some found get]
      rw [collect_satisfying fun i inside => ?_]
      · apply store_collected
        rw [stored, orFault_some]
      · rcases executed.read (List.mem_of_getElem? get) isParticipant isColumn inside with
          ⟨rowId, isRowId, isValue⟩
        simp only [isRowId, isValue, Option.bind_eq_bind, Option.bind_some]
        rfl
  | none =>
      rw [found, sourceOf_none found] at stored
      simp only [sourceOf_none found]
      change (collect _ (Inter.base pred.participant.rel pred.participant.rows).numbOfRows _ >>=
        _) = _
      rw [collect_satisfying fun i inside => ?_]
      · apply store_collected
        rw [stored, orFault_some]
      · rw [isParticipant.read_base rfl isParticipant inside]
        rfl

theorem selfJoin_eq (executed : Executed relArr rels (touchedBy conditions) conditions head)
    {pred : Join} (isJoin : IsJoin relArr rels pred)
    (self : pred.participant1.rel = pred.participant2.rel) : ∃ after,
      Executed relArr rels (touchedBy (conditions ++ [joinCondition pred]))
        (conditions ++ [joinCondition pred]) after ∧
      selfJoin pred head =
        if ((sourceOf head pred.participant1).satisfying (joinCondition pred)).length ≤
          pred.participant1.rows then .ok after else .error .scratch := by
  have first := isJoin.first.toIsParticipant
  have second := isJoin.second.toIsParticipant
  have attrs : ∀ rel, rel ∈ (joinCondition pred).attrs ↔ rel = pred.participant1.rel := by
    intro rel
    rw [joinCondition_attrs, ← self, or_self]
  rcases executed.selected first attrs with ⟨after, kept, stored⟩
  refine ⟨after, kept, ?_⟩
  rw [selfJoin]
  cases found : findNode head pred.participant1.rel with
  | some node =>
      rcases findNode_some found with ⟨data, get, isRel⟩
      rcases Inter.mem_joinedRels_iff.mp isRel with ⟨column, isColumn⟩
      rw [found, sourceOf_some found get] at stored
      simp only [get, performSelfJoin, isColumn, orFault_some, ok_bind, sourceOf_some found get]
      rw [collect_satisfying fun i inside => ?_]
      · apply store_collected
        rw [stored, orFault_some]
      · have isNode := List.mem_of_getElem? get
        rcases executed.read isNode first isColumn inside with ⟨rowId, isRowId, isValue⟩
        rcases executed.read isNode second (self ▸ isColumn) inside with
          ⟨rowId', isRowId', isValue'⟩
        cases isRowId.symm.trans isRowId'
        simp only [isRowId, isValue, isValue', Option.bind_eq_bind, Option.bind_some]
        rfl
  | none =>
      rw [found, sourceOf_none found] at stored
      simp only [sourceOf_none found, performSelfJoin]
      change (collect _ (Inter.base pred.participant1.rel pred.participant1.rows).numbOfRows _ >>=
        _) = _
      rw [collect_satisfying fun i inside => ?_]
      · apply store_collected
        rw [stored, orFault_some]
      · rw [first.read_base rfl first inside, second.read_base self.symm first inside]
        rfl

end Steps

section Joins

variable {relArr : List Relationsheep} {State : Type} {joiner : Joiner relArr State}
  {rels : List Nat} {conditions : List (Condition Nat)} {head : HeadInter} {state : State}
  {pred : Join}

def forgedOf (head : HeadInter) (r : ColRel) : Forged :=
  ⟨(sourceOf head r).forged r, r.realRel, r.realCol⟩

theorem stored_outcome (valid : joiner.Valid state) {a b : ColRel}
    (first : IsParticipant relArr rels a) (second : IsParticipant relArr rels b)
    (different : a.rel ≠ b.rel) {c : Condition Nat}
    (attrs : ∀ rel, rel ∈ c.attrs ↔ rel = a.rel ∨ rel = b.rel)
    (holds : ∀ rowIds, c.holds rowIds = decide (valueOf a rowIds = valueOf b rowIds))
    {switched : Nat} (call : RadixCall relArr (forgedOf head a) (forgedOf head b) switched)
    (store : HeadResult → Nat → Option HeadInter)
    (stores : ∀ results after, JoinResults relArr rels head a b c after results →
      ∃ stored, store results after = some stored ∧
        Executed relArr rels (touchedBy (conditions ++ [c])) (conditions ++ [c]) stored)
    {fits : Prop} (isFit : fits) :
    Outcome rels joiner (conditions ++ [c]) fits (do
      let result ← orFault .join
        (joiner.radixHashJoin state (forgedOf head a) (forgedOf head b) switched)
      let stored ← orFault .memory (store result.1 result.2.1)
      .ok (stored, result.2.2)) := by
  cases returned : joiner.radixHashJoin state (forgedOf head a) (forgedOf head b) switched with
  | none =>
      refine ⟨isFit, fun returns => ?_⟩
      rcases returns state _ _ switched valid call with ⟨results, after, next, isResult⟩
      rw [returned] at isResult
      cases isResult
  | some result =>
      rcases result with ⟨results, after, next⟩
      have joined := joiner.joined valid call returned
      rcases stores results after ⟨first, second, different, attrs, holds, joined.1⟩ with
        ⟨stored, isStored, kept⟩
      simp only [orFault_some, ok_bind, isStored]
      exact ⟨isFit, kept, joined.2⟩

theorem joinCondition_holds (pred : Join) (rowIds : Nat → Nat) :
    (joinCondition pred).holds rowIds =
      decide (valueOf pred.participant1 rowIds = valueOf pred.participant2 rowIds) := rfl

theorem joinCondition_swapped (pred : Join) :
    (∀ rel, rel ∈ (joinCondition pred).attrs ↔
      rel = pred.participant2.rel ∨ rel = pred.participant1.rel) ∧
    ∀ rowIds, (joinCondition pred).holds rowIds =
      decide (valueOf pred.participant2 rowIds = valueOf pred.participant1 rowIds) := by
  constructor
  · intro rel
    rw [joinCondition_attrs, or_comm]
  · intro rowIds
    rw [joinCondition_holds]
    exact decide_eq_decide.mpr eq_comm

theorem performRHJ_eq (executed : Executed relArr rels (touchedBy conditions) conditions head)
    {r1 r2 : ColRel} (first : IsParticipant relArr rels r1) (second : IsParticipant relArr rels r2)
    (switched : Nat) : performRHJ joiner head r1 r2 switched state =
      orFault .join (match findNode head r1.rel, findNode head r2.rel with
        | none, some _ => joiner.radixHashJoin state (forgedOf head r2) (forgedOf head r1) 1
        | some _, none => joiner.radixHashJoin state (forgedOf head r1) (forgedOf head r2) 1
        | _, _ => joiner.radixHashJoin state (forgedOf head r1) (forgedOf head r2) switched) := by
  rw [performRHJ, executed.forgeRelationsheep_eq first, executed.forgeRelationsheep_eq second]
  cases findNode head r1.rel with
  | none =>
      cases findNode head r2.rel with
      | none => rfl
      | some n2 => rfl
  | some n1 =>
      cases findNode head r2.rel with
      | none => rfl
      | some n2 => rfl

theorem performSameNodeJoin_eq
    (executed : Executed relArr rels (touchedBy conditions) conditions head)
    (isJoin : IsJoin relArr rels pred) {node : Nat} {data : Inter}
    (get : head.nodes[node]? = some data) (inFirst : pred.participant1.rel ∈ data.joinedRels)
    (inSecond : pred.participant2.rel ∈ data.joinedRels) :
    performSameNodeJoin data pred = .ok (data.satisfying (joinCondition pred)) := by
  rcases Inter.mem_joinedRels_iff.mp inFirst with ⟨column1, isColumn1⟩
  rcases Inter.mem_joinedRels_iff.mp inSecond with ⟨column2, isColumn2⟩
  have isNode := List.mem_of_getElem? get
  simp only [performSameNodeJoin, isColumn1, isColumn2, orFault_some, ok_bind]
  rw [collect_satisfying fun i inside => ?_]
  · exact if_pos (length_filter_range_le _ _)
  · rcases executed.read isNode isJoin.first.toIsParticipant isColumn1 inside with
      ⟨rowId1, isRowId1, isValue1⟩
    rcases executed.read isNode isJoin.second.toIsParticipant isColumn2 inside with
      ⟨rowId2, isRowId2, isValue2⟩
    simp only [isRowId1, isRowId2, isValue1, isValue2, Option.bind_eq_bind, Option.bind_some]
    rfl

theorem sameNode_keeps
    (executed : Executed relArr rels (touchedBy conditions) conditions head)
    (isJoin : IsJoin relArr rels pred) {node : Nat}
    (found1 : findNode head pred.participant1.rel = some node)
    (found2 : findNode head pred.participant2.rel = some node) :
    ∃ data after, head.nodes[node]? = some data ∧
      performSameNodeJoin data pred = .ok (data.satisfying (joinCondition pred)) ∧
      updateInterSelfJoin head node (data.satisfying (joinCondition pred)) = some after ∧
      Executed relArr rels (touchedBy conditions) (conditions ++ [joinCondition pred]) after := by
  rcases findNode_some found1 with ⟨data, get, inFirst⟩
  rcases findNode_some found2 with ⟨data', get', inSecond⟩
  cases Option.some.inj (get.symm.trans get')
  have inside : (joinCondition pred).attrs ⊆ data.joinedRels := by
    intro rel member
    cases (joinCondition_attrs pred rel).mp member with
    | inl isFirst => exact isFirst ▸ inFirst
    | inr isSecond => exact isSecond ▸ inSecond
  rcases executed.updateSelected get inside with ⟨after, updated, kept⟩
  exact ⟨data, after, get, performSameNodeJoin_eq executed isJoin get inFirst inSecond, updated,
    kept⟩

theorem Executed.touched_of_findNode
    (executed : Executed relArr rels (touchedBy conditions) conditions head) {rel node : Nat}
    (found : findNode head rel = some node) : rel ∈ touchedBy conditions := by
  rcases findNode_some found with ⟨data, get, isRel⟩
  exact executed.mem_touched (List.mem_of_getElem? get) isRel

theorem joinRelations_outcome
    (executed : Executed relArr rels (touchedBy conditions) conditions head)
    (valid : joiner.Valid state) (isJoin : IsJoin relArr rels pred)
    (different : pred.participant1.rel ≠ pred.participant2.rel) {fits : Prop} (isFit : fits) :
    Outcome rels joiner (conditions ++ [joinCondition pred]) fits
      (joinRelations joiner pred head state) := by
  have first := isJoin.first.toIsParticipant
  have second := isJoin.second.toIsParticipant
  have attrs := joinCondition_attrs pred
  have holds := joinCondition_holds pred
  have touchedAfter : ∀ rel, rel ∈ touchedBy (conditions ++ [joinCondition pred]) ↔
      (rel = pred.participant1.rel ∨ rel = pred.participant2.rel) ∨ rel ∈ touchedBy conditions := by
    intro rel
    rw [mem_touchedBy_append, attrs]
  rw [joinRelations]
  cases found1 : findNode head pred.participant1.rel with
  | none =>
      cases found2 : findNode head pred.participant2.rel with
      | none =>
          simp only [performRHJ_eq executed first second, found1, found2]
          apply stored_outcome valid first second different attrs holds
            (.columns (Executed.isBase_forged isJoin.first found1)
              (Executed.isBase_forged isJoin.second found2))
            (fun results => createInterFromRes head results _ _) ?_ isFit
          intro results switched found
          rcases found.createInterFromRes executed found1 found2 with ⟨after, stored, kept⟩
          refine ⟨after, stored, kept.of_touched fun rel => ?_⟩
          rw [touchedAfter, Set.mem_insert_iff, Set.mem_insert_iff, or_assoc]
      | some n2 =>
          rcases joinCondition_swapped pred with ⟨attrs', holds'⟩
          simp only [performRHJ_eq executed first second, found1, found2]
          apply stored_outcome valid second first (Ne.symm different) attrs' holds'
            (.mixed _ (Executed.isBase_forged isJoin.first found1))
            (fun results => updateInterFromRes head n2 results _) ?_ isFit
          intro results switched found
          rcases found.updateInterFromRes executed found2 found1 with ⟨after, stored, kept⟩
          refine ⟨after, stored, kept.of_touched fun rel => ?_⟩
          rw [touchedAfter, Set.mem_insert_iff, or_assoc]
          apply or_congr_right
          exact (or_iff_right_of_imp fun isRel => isRel ▸ executed.touched_of_findNode found2).symm
  | some n1 =>
      cases found2 : findNode head pred.participant2.rel with
      | none =>
          simp only [performRHJ_eq executed first second, found1, found2]
          apply stored_outcome valid first second different attrs holds
            (.mixed _ (Executed.isBase_forged isJoin.second found2))
            (fun results => updateInterFromRes head n1 results _) ?_ isFit
          intro results switched found
          rcases found.updateInterFromRes executed found1 found2 with ⟨after, stored, kept⟩
          refine ⟨after, stored, kept.of_touched fun rel => ?_⟩
          rw [touchedAfter, Set.mem_insert_iff, or_assoc, or_left_comm]
          apply or_congr_right
          exact (or_iff_right_of_imp fun isRel => isRel ▸ executed.touched_of_findNode found1).symm
      | some n2 =>
          have touched : ∀ rel, rel ∈ touchedBy conditions ↔
              rel ∈ touchedBy (conditions ++ [joinCondition pred]) := by
            intro rel
            rw [touchedAfter]
            apply (or_iff_right_of_imp _).symm
            intro isEither
            cases isEither with
            | inl isFirst => exact isFirst ▸ executed.touched_of_findNode found1
            | inr isSecond => exact isSecond ▸ executed.touched_of_findNode found2
          by_cases same : n1 = n2
          · subst same
            rcases sameNode_keeps executed isJoin found1 found2 with
              ⟨data, after, get, selected, updated, kept⟩
            simp only [get, selected, updated, orFault_some, ok_bind]
            exact ⟨isFit, kept.of_touched touched, valid⟩
          · simp only [if_neg same, performRHJ_eq executed first second, found1, found2]
            apply stored_outcome valid first second different attrs holds (.intermediates _ _)
              (updateInterAndDelete head n1 n2) ?_ isFit
            intro results switched found
            rcases found.updateInterAndDelete executed found1 found2 same with
              ⟨after, stored, kept⟩
            exact ⟨after, stored, kept.of_touched touched⟩

theorem workerJ_outcome
    (executed : Executed relArr rels (touchedBy conditions) conditions head)
    (valid : joiner.Valid state) (isJoin : IsJoin relArr rels pred) :
    Outcome rels joiner (conditions ++ [joinCondition pred]) (SelfJoinFits pred head)
      (workerJ joiner pred head state) := by
  rw [workerJ]
  by_cases self : pred.participant1.rel = pred.participant2.rel
  · rw [if_pos self]
    rcases selfJoin_eq executed isJoin self with ⟨after, kept, equal⟩
    by_cases fits : ((sourceOf head pred.participant1).satisfying (joinCondition pred)).length ≤
        pred.participant1.rows
    · rw [equal, if_pos fits, ok_bind]
      exact ⟨fun _ => fits, kept, valid⟩
    · rw [equal, if_neg fits, error_bind]
      exact fun fitsSelf => fits (fitsSelf self)
  · rw [if_neg self]
    exact joinRelations_outcome executed valid isJoin self fun isSelf => absurd isSelf self

/-- A run of predicates keeps the invariant, if all of them fit. -/
theorem runJoins_outcome {joins : List Join} (areJoins : ∀ pred ∈ joins, IsJoin relArr rels pred)
    (executed : Executed relArr rels (touchedBy conditions) conditions head)
    (valid : joiner.Valid state) :
    Outcome rels joiner (conditions ++ joins.map joinCondition) (JoinsFit joiner joins head state)
      (runJoins joiner joins head state) := by
  induction joins generalizing conditions head state with
  | nil =>
      rw [List.map_nil, List.append_nil]
      exact ⟨trivial, executed, valid⟩
  | cons pred rest induction =>
      have outcome := workerJ_outcome executed valid (areJoins pred List.mem_cons_self)
      have others := fun other member => areJoins other (List.mem_cons_of_mem pred member)
      rw [runJoins, JoinsFit, List.map_cons, List.append_cons]
      cases returned : workerJ joiner pred head state with
      | error fault =>
          rw [returned] at outcome
          cases fault with
          | scratch => exact fun fits => outcome fits.1
          | memory => exact outcome
          | join => exact ⟨⟨outcome.1, fun after next returned => nomatch returned⟩, outcome.2⟩
      | ok result =>
          rcases result with ⟨after, next⟩
          rw [returned] at outcome
          rcases outcome with ⟨fits, kept, nextValid⟩
          have restOutcome := induction others kept nextValid
          rw [ok_bind]
          have same : (SelfJoinFits pred head ∧ ∀ after' next',
              (Except.ok (after, next) : Except Fault (HeadInter × State)) =
                .ok (after', next') → JoinsFit joiner rest after' next') ↔
              JoinsFit joiner rest after next := by
            constructor
            · exact fun fitsRest => fitsRest.2 after next rfl
            · rintro fitsRest
              refine ⟨fits, fun after' next' equal => ?_⟩
              cases equal
              exact fitsRest
          rw [same]
          exact restOutcome

end Joins

end JoinOperator.Executor
