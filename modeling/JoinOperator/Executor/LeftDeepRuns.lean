import JoinOperator.Executor.OrderIndependence
import JoinOperator.Executor.RoomyJoiner
import JoinOperator.Foundation.AllTuples

/-! # Runs that add one relation after the other

A predicate of such a run joins what was joined before it with a relation that only filters, and
predicates on this relation alone, have been executed on. So each side of a join has the solutions
of all conditions on its relations, those of the later predicates included.
-/

namespace JoinOperator.Executor

open Foundation RadixJoin

/-- Each predicate is between a relation that is covered and one that is not. -/
inductive OneByOne : List Nat → List Join → Prop
  | nil (covered : List Nat) : OneByOne covered []
  | cons {covered : List Nat} {pred : Join} {rest : List Join} {s r : Nat} (old : s ∈ covered)
      (new : r ∉ covered)
      (ends : pred.participant1.rel = s ∧ pred.participant2.rel = r ∨
        pred.participant1.rel = r ∧ pred.participant2.rel = s)
      (others : OneByOne (covered ++ [r]) rest) : OneByOne covered (pred :: rest)

theorem OneByOne.outside {covered : List Nat} {preds : List Join} (oneByOne : OneByOne covered preds) :
    ∀ pred ∈ preds, ¬ (joinCondition pred).attrs ⊆ covered := by
  induction oneByOne with
  | nil => exact List.forall_mem_nil _
  | @cons covered pred rest s r _ new ends _ induction =>
      intro other member inside
      cases List.mem_cons.mp member with
      | inl isFirst =>
          subst isFirst
          apply new
          apply inside
          rw [joinCondition_attrs]
          cases ends with
          | inl ends => exact .inr ends.2.symm
          | inr ends => exact .inl ends.1.symm
      | inr inRest =>
          exact induction other inRest fun rel isRel => List.mem_append_left _ (inside isRel)

theorem OneByOne.different {covered : List Nat} {preds : List Join}
    (oneByOne : OneByOne covered preds) :
    ∀ pred ∈ preds, pred.participant1.rel ≠ pred.participant2.rel := by
  induction oneByOne with
  | nil => exact List.forall_mem_nil _
  | @cons covered pred rest s r old new ends _ induction =>
      intro other member same
      cases List.mem_cons.mp member with
      | inl isFirst =>
          subst isFirst
          apply new
          cases ends with
          | inl ends => rwa [← ends.2, ← same, ends.1]
          | inr ends => rwa [← ends.1, same, ends.2]
      | inr inRest => exact induction other inRest same

section Sources

variable {relArr : List Relationsheep} {rels : List Nat} {conditions : List (Condition Nat)}
  {head : HeadInter}

/-- What is joined for a participant has all solutions on its relations, which no condition
links to others. -/
theorem Executed.source (executed : Executed relArr rels (touchedBy conditions) conditions head)
    {r : ColRel} (isParticipant : IsParticipant relArr rels r) :
    (sourceOf head r).part.Complete (rowsOf relArr rels) conditions ∧
      (sourceOf head r).joinedRels.Nodup ∧ r.rel ∈ (sourceOf head r).joinedRels ∧
      ∀ S : Set Nat, (∀ c ∈ conditions, ∀ a ∈ c.attrs, a ∈ S → ∀ b ∈ c.attrs, b ∈ S) →
        r.rel ∈ S → ∀ b ∈ (sourceOf head r).joinedRels, b ∈ S := by
  cases found : findNode head r.rel with
  | none =>
      have free := executed.findNode_none found
      rw [sourceOf_none found]
      refine ⟨?_, List.nodup_singleton _, List.mem_singleton_self _, ?_⟩
      · rw [Inter.base_part, ← isParticipant.rows]
        apply PartialResult.Complete.base
        intro c isCondition inside
        rcases c.exists_mem with ⟨attr, isAttr⟩
        exact free ⟨c, isCondition, List.mem_singleton.mp (inside isAttr) ▸ isAttr⟩
      · intro S _ inS b isB
        exact List.mem_singleton.mp isB ▸ inS
  | some node =>
      rcases findNode_some found with ⟨data, get, isRel⟩
      have isPart : data.part ∈ head.nodes.map Inter.part :=
        List.mem_map_of_mem (List.mem_of_getElem? get)
      rw [sourceOf_some found get]
      exact ⟨executed.evaluates.complete _ isPart, executed.evaluates.attrs_nodup isPart, isRel,
        fun S closed inS => executed.evaluates.attrs_subset closed isPart isRel inS⟩

theorem Inter.length_tuples (data : Inter) : data.part.tuples.length = data.numbOfRows := by
  rw [part, tuples, List.length_map, List.length_range]

theorem Executed.source_rows
    (executed : Executed relArr rels (touchedBy conditions) conditions head) {r : ColRel}
    (isParticipant : IsParticipant relArr rels r) :
    (sourceOf head r).numbOfRows =
      (solutions (rowsOf relArr rels) conditions (sourceOf head r).joinedRels).length := by
  rcases executed.source isParticipant with ⟨complete, nodup, _⟩
  rw [← Inter.length_tuples]
  exact complete.length_tuples nodup

end Sources

section Runs

variable {relArr : List Relationsheep} {State : Type} {joiner : Joiner relArr State}
  {rels : List Nat} {conditions : List (Condition Nat)} {head : HeadInter} {state : State}

/-- The conditions on a set of relations have few solutions. -/
def Manageable (relArr : List Relationsheep) (rels : List Nat)
    (conditions : List (Condition Nat)) (limit : Nat) : Prop :=
  ∀ attrs : List Nat, attrs.Nodup → (∀ rel ∈ attrs, rel < rels.length) →
    (solutions (rowsOf relArr rels) conditions attrs).length < limit

def OnCovered (conditions : List (Condition Nat)) (covered : List Nat) : Prop :=
  ∀ c ∈ conditions, c.attrs ⊆ covered ∨ ∀ a ∈ c.attrs, ∀ b ∈ c.attrs, a = b

theorem OnCovered.closed {covered : List Nat} (onCovered : OnCovered conditions covered) :
    ∀ c ∈ conditions, ∀ a ∈ c.attrs, a ∈ {rel | rel ∈ covered} →
      ∀ b ∈ c.attrs, b ∈ {rel | rel ∈ covered} := by
  intro c isCondition a isA inside b isB
  cases onCovered c isCondition with
  | inl included => exact included isB
  | inr one => exact one a isA b isB ▸ inside

theorem OnCovered.closed_singleton {covered : List Nat} {r : Nat} (onCovered : OnCovered conditions covered)
    (new : r ∉ covered) :
    ∀ c ∈ conditions, ∀ a ∈ c.attrs, a ∈ ({r} : Set Nat) → ∀ b ∈ c.attrs, b ∈ ({r} : Set Nat) := by
  intro c isCondition a isA inside b isB
  cases onCovered c isCondition with
  | inl included => exact absurd (included isA) (Set.mem_singleton_iff.mp inside ▸ new)
  | inr one => exact one a isA b isB ▸ inside

theorem IsParticipant.lt {r : ColRel} (isParticipant : IsParticipant relArr rels r) :
    r.rel < rels.length := by
  rcases isParticipant.column with ⟨real, relation, isReal, _⟩
  exact (List.getElem?_eq_some_iff.mp isReal).1

theorem OneByOne.solutions_eq {covered attrs : List Nat} {preds : List Join}
    (oneByOne : OneByOne covered preds) (inside : ∀ rel ∈ attrs, rel ∈ covered) :
    solutions (rowsOf relArr rels) conditions attrs =
      solutions (rowsOf relArr rels) (conditions ++ preds.map joinCondition) attrs := by
  apply solutions_congr
  intro c included
  rw [List.mem_append]
  constructor
  · exact .inl
  · intro either
    cases either with
    | inl isCondition => exact isCondition
    | inr isLater =>
        rcases List.mem_map.mp isLater with ⟨pred, member, rfl⟩
        exact absurd (fun rel isRel => inside rel (included isRel)) (oneByOne.outside pred member)

theorem OneByOne.solutions_singleton {covered : List Nat} {preds : List Join}
    (oneByOne : OneByOne covered preds) (rel : Nat) :
    solutions (rowsOf relArr rels) conditions [rel] =
      solutions (rowsOf relArr rels) (conditions ++ preds.map joinCondition) [rel] := by
  apply solutions_congr
  intro c included
  rw [List.mem_append]
  constructor
  · exact .inl
  · intro either
    cases either with
    | inl isCondition => exact isCondition
    | inr isLater =>
        rcases List.mem_map.mp isLater with ⟨pred, member, rfl⟩
        have first := included ((joinCondition_attrs pred _).mpr (.inl rfl))
        have second := included ((joinCondition_attrs pred _).mpr (.inr rfl))
        exact absurd ((List.mem_singleton.mp first).trans (List.mem_singleton.mp second).symm)
          (oneByOne.different pred member)

theorem OneByOne.joinable {covered : List Nat} {pred : Join} {rest : List Join} {limit : Nat}
    (oneByOne : OneByOne covered (pred :: rest)) (isJoin : IsJoin relArr rels pred)
    (executed : Executed relArr rels (touchedBy conditions) conditions head)
    (onCovered : OnCovered conditions covered) (inside : ∀ rel ∈ covered, rel < rels.length)
    (manageable : Manageable relArr rels
      (conditions ++ (pred :: rest).map joinCondition) limit) : Joinable limit pred head := by
  have first := isJoin.first.toIsParticipant
  have second := isJoin.second.toIsParticipant
  have old {r : ColRel} (isParticipant : IsParticipant relArr rels r) (isOld : r.rel ∈ covered) :
      (sourceOf head r).numbOfRows < limit := by
    rcases executed.source isParticipant with ⟨_, nodup, _, closed⟩
    have stays := closed _ onCovered.closed isOld
    rw [executed.source_rows isParticipant, oneByOne.solutions_eq stays]
    exact manageable _ nodup fun rel isRel => inside rel (stays rel isRel)
  have new {r : ColRel} (isParticipant : IsParticipant relArr rels r) (isNew : r.rel ∉ covered) :
      (sourceOf head r).numbOfRows < limit := by
    rcases executed.source isParticipant with ⟨_, nodup, isRel, closed⟩
    have alone : (sourceOf head r).joinedRels = [r.rel] := by
      have stays := closed {r.rel} (onCovered.closed_singleton isNew) rfl
      apply List.perm_singleton.mp
      apply (List.perm_ext_iff_of_nodup nodup (List.nodup_singleton _)).mpr
      intro rel
      rw [List.mem_singleton]
      exact ⟨fun member => stays rel member, fun same => same ▸ isRel⟩
    rw [executed.source_rows isParticipant, alone, oneByOne.solutions_singleton]
    exact manageable _ (List.nodup_singleton _) (List.forall_mem_singleton.mpr isParticipant.lt)
  cases oneByOne with
  | cons isOld isNew ends others =>
      rcases ends with ⟨rfl, rfl⟩ | ⟨rfl, rfl⟩
      · exact ⟨old first isOld, new second isNew⟩
      · exact ⟨new first isNew, old second isOld⟩

theorem runJoins_oneByOne {covered : List Nat} {preds : List Join} {limit : Nat}
    (oneByOne : OneByOne covered preds) (areJoins : ∀ pred ∈ preds, IsJoin relArr rels pred)
    (executed : Executed relArr rels (touchedBy conditions) conditions head)
    (valid : joiner.Valid state) (returns : joiner.ReturnsBelow limit)
    (onCovered : OnCovered conditions covered) (inside : ∀ rel ∈ covered, rel < rels.length)
    (manageable : Manageable relArr rels (conditions ++ preds.map joinCondition) limit) :
    ∃ after next, runJoins joiner preds head state = .ok (after, next) := by
  induction preds generalizing covered conditions head state with
  | nil => exact ⟨head, state, rfl⟩
  | cons pred rest induction =>
      have isJoin := areJoins pred List.mem_cons_self
      have joinable := oneByOne.joinable isJoin executed onCovered inside manageable
      have different := oneByOne.different pred List.mem_cons_self
      rcases workerJ_ok executed returns valid isJoin different joinable with
        ⟨after, next, ran, kept, nextValid⟩
      cases oneByOne with
      | @cons _ _ _ s r old new ends others =>
          have newInside : r < rels.length := by
            rcases ends with ⟨rfl, rfl⟩ | ⟨rfl, rfl⟩
            · exact isJoin.second.toIsParticipant.lt
            · exact isJoin.first.toIsParticipant.lt
          have onCoveredNext : OnCovered (conditions ++ [joinCondition pred]) (covered ++ [r]) := by
            intro c member
            cases List.mem_append.mp member with
            | inl isCondition =>
                exact (onCovered c isCondition).imp_left fun included rel isRel =>
                  List.mem_append_left _ (included isRel)
            | inr isLast =>
                cases List.mem_singleton.mp isLast
                left
                intro rel isRel
                rw [joinCondition_attrs] at isRel
                rcases ends with ⟨rfl, rfl⟩ | ⟨rfl, rfl⟩
                · rcases isRel with rfl | rfl
                  · exact List.mem_append_left _ old
                  · exact List.mem_append_right _ (List.mem_singleton_self _)
                · rcases isRel with rfl | rfl
                  · exact List.mem_append_right _ (List.mem_singleton_self _)
                  · exact List.mem_append_left _ old
          have insideNext : ∀ rel ∈ covered ++ [r], rel < rels.length := by
            intro rel member
            cases List.mem_append.mp member with
            | inl isOld => exact inside rel isOld
            | inr isNew => exact List.mem_singleton.mp isNew ▸ newInside
          rw [List.map_cons, List.append_cons] at manageable
          rw [runJoins, ran, ok_bind]
          exact induction others (fun other member => areJoins other (List.mem_cons_of_mem _ member))
            kept nextValid onCoveredNext insideNext manageable

end Runs

section Queries

variable {relArr : List Relationsheep} {State : Type} {joiner : Joiner relArr State}
  {rels : List Nat} {conditions : List (Condition Nat)} {head : HeadInter} {state : State}
  {filters : List Filter} {selfs links : List Join}

theorem runJoins_append (front rest : List Join) :
    runJoins joiner (front ++ rest) head state = (do
      let (after, next) ← runJoins joiner front head state
      runJoins joiner rest after next) := by
  induction front generalizing head state with
  | nil => rfl
  | cons pred front induction =>
      rw [List.cons_append, runJoins, runJoins]
      cases workerJ joiner pred head state with
      | error fault => rfl
      | ok result => exact induction

theorem runJoins_selfs (areSelfs : ∀ pred ∈ selfs, IsJoin relArr rels pred ∧
      pred.participant1.rel = pred.participant2.rel) (onOne : OnOne conditions)
    (executed : Executed relArr rels (touchedBy conditions) conditions head) :
    ∃ after, runJoins joiner selfs head state = .ok (after, state) ∧
      Executed relArr rels (touchedBy (conditions ++ selfs.map joinCondition))
        (conditions ++ selfs.map joinCondition) after ∧
      OnOne (conditions ++ selfs.map joinCondition) := by
  induction selfs generalizing conditions head with
  | nil =>
      rw [List.map_nil, List.append_nil]
      exact ⟨head, rfl, executed, onOne⟩
  | cons pred rest induction =>
      rcases areSelfs pred List.mem_cons_self with ⟨isJoin, self⟩
      have fits := satisfying_fits executed onOne isJoin.first.toIsParticipant (joinCondition pred)
      rcases selfJoin_eq executed isJoin self with ⟨next, kept, equal⟩
      rw [if_pos fits] at equal
      have onOneNext : OnOne (conditions ++ [joinCondition pred]) := by
        apply @OnOne.append _ _ _ pred.participant1.rel onOne
        intro rel isRel
        rwa [joinCondition_attrs, ← self, or_self] at isRel
      rcases induction (fun other member => areSelfs other (List.mem_cons_of_mem pred member))
        onOneNext kept with ⟨after, ran, executedAfter, onOneAfter⟩
      rw [List.map_cons, List.append_cons]
      refine ⟨after, ?_, executedAfter, onOneAfter⟩
      rw [runJoins, workerJ, if_pos self, equal]
      exact ran

theorem onOne_filters (filters : List Filter) : OnOne (filters.map filterCondition) := by
  intro c member a isA b isB
  rcases List.mem_map.mp member with ⟨pred, _, rfl⟩
  rw [(filterCondition_attrs pred a).mp isA, (filterCondition_attrs pred b).mp isB]

theorem runQuery_selfs (areFilters : ∀ pred ∈ filters, IsParticipant relArr rels pred.participant)
    (areSelfs : ∀ pred ∈ selfs, IsJoin relArr rels pred ∧
      pred.participant1.rel = pred.participant2.rel) :
    ∃ hq, runQuery joiner filters (selfs ++ links) state = runJoins joiner links hq state ∧
      Executed relArr rels (touchedBy (conditionsOf filters selfs)) (conditionsOf filters selfs)
        hq ∧ OnOne (conditionsOf filters selfs) := by
  rcases runFilters_initialiseHead areFilters with ⟨filtered, ran, executed⟩
  rcases @runJoins_selfs _ _ joiner _ _ _ state _ areSelfs (onOne_filters filters) executed with
    ⟨hq, ranSelfs, kept, onOne⟩
  refine ⟨hq, ?_, kept, onOne⟩
  rw [runQuery, ran, ok_bind, runJoins_append, ranSelfs]
  rfl

theorem conditionsOf_append (filters : List Filter) (selfs links : List Join) :
    conditionsOf filters (selfs ++ links) =
      conditionsOf filters selfs ++ links.map joinCondition := by
  rw [conditionsOf, conditionsOf, List.map_append, List.append_assoc]

theorem joinsFit_of_different (different : ∀ pred ∈ links,
    pred.participant1.rel ≠ pred.participant2.rel) : JoinsFit joiner links head state := by
  induction links generalizing head state with
  | nil => trivial
  | cons pred rest induction =>
      exact ⟨fun self => absurd self (different pred List.mem_cons_self), fun after next _ =>
        induction fun other member => different other (List.mem_cons_of_mem pred member)⟩

/-- What may come of a query that adds one relation after the other. -/
theorem runQuery_leftDeep {first limit : Nat} (below : first < rels.length)
    (areFilters : ∀ pred ∈ filters, IsParticipant relArr rels pred.participant)
    (areSelfs : ∀ pred ∈ selfs, IsJoin relArr rels pred ∧
      pred.participant1.rel = pred.participant2.rel)
    (areLinks : ∀ pred ∈ links, IsJoin relArr rels pred) (oneByOne : OneByOne [first] links)
    (valid : joiner.Valid state) :
    (∀ fault, runQuery joiner filters (selfs ++ links) state = .error fault → fault = .join) ∧
    (∀ head next, runQuery joiner filters (selfs ++ links) state = .ok (head, next) →
      Executed relArr rels (touchedBy (conditionsOf filters (selfs ++ links)))
        (conditionsOf filters (selfs ++ links)) head ∧ joiner.Valid next) ∧
    (joiner.ReturnsBelow limit →
      Manageable relArr rels (conditionsOf filters (selfs ++ links)) limit →
      ∃ head next, runQuery joiner filters (selfs ++ links) state = .ok (head, next)) := by
  rcases @runQuery_selfs _ _ joiner _ state _ _ links areFilters areSelfs with
    ⟨hq, same, executed, onOne⟩
  have fits : JoinsFit joiner links hq state := joinsFit_of_different oneByOne.different
  have outcome := runJoins_outcome areLinks executed valid
  rw [← conditionsOf_append] at outcome
  rw [same]
  refine ⟨?_, ?_, ?_⟩
  · intro fault stopped
    rw [stopped] at outcome
    cases fault with
    | scratch => exact absurd fits outcome
    | memory => exact False.elim outcome
    | join => rfl
  · intro head next returned
    rw [returned] at outcome
    exact outcome.2
  · intro returns manageable
    rw [conditionsOf_append] at manageable
    exact runJoins_oneByOne oneByOne areLinks executed valid returns
      (fun c isCondition => .inr (onOne c isCondition)) (List.forall_mem_singleton.mpr below)
      manageable

end Queries

end JoinOperator.Executor
