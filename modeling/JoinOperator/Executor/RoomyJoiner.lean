import JoinOperator.Executor.QueryRuns
import JoinOperator.Executor.RadixJoiner
import JoinOperator.RadixJoin.Capacity

/-! # Joins that return

On tables for which the warehouses have room, a radix hash join of sides that fit in memory
returns. So does a predicate that is executed on such sides.
-/

namespace JoinOperator.Executor

open Foundation RadixJoin

def Joiner.ReturnsBelow {relArr : List Relationsheep} {State : Type}
    (joiner : Joiner relArr State) (limit : Nat) : Prop :=
  ∀ state r s switched, joiner.Valid state → RadixCall relArr r s switched →
    r.tuples.length < limit → s.tuples.length < limit → ∃ results after next,
      joiner.radixHashJoin state r s switched = some (results, after, next)

section Sessions

variable {relArr : List Relationsheep} {forged r s : Forged} {switched : Nat}
  {orders : Nat → JoinOrders} {session next : Session} {results : HeadResult} {after : Nat}

theorem Session.join_joins (occupied : ∀ relation ∈ relArr, 0 < relation.rows)
    (call : RadixCall relArr r s switched)
    (returned : session.join orders r s switched = some (results, after, next)) :
    Joins relArr session.warehouses next.warehouses := by
  rcases Option.bind_eq_some_iff.mp returned with ⟨rRel, isR, returned⟩
  rcases Option.bind_eq_some_iff.mp returned with ⟨sRel, isS, returned⟩
  rcases Option.bind_eq_some_iff.mp returned with ⟨⟨found, switchedAfter, stored⟩, joined, returned⟩
  cases returned
  exact ⟨_, _, _, _, _, _, call.call occupied isR isS, joined⟩

/-- The radix hash join, with warehouses whose size is bounded by the tables. -/
def roomyJoiner (occupied : ∀ relation ∈ relArr, 0 < relation.rows)
    (orders : Nat → JoinOrders) : Joiner relArr Session where
  radixHashJoin := Session.join orders
  Valid session := session.warehouses.Coherent relArr ∧ session.warehouses.Sized relArr
  joined := by
    intro session r s switched results after next valid call returned
    rcases (radixJoiner occupied orders).joined valid.1 call returned with ⟨joined, coherent⟩
    exact ⟨joined, coherent, (Session.join_joins occupied call returned).sized valid.1 valid.2⟩

theorem roomyJoiner_valid (occupied : ∀ relation ∈ relArr, 0 < relation.rows)
    (orders : Nat → JoinOrders) :
    (roomyJoiner occupied orders).Valid ⟨0, initialiseWarehouses relArr⟩ :=
  ⟨initialiseWarehouses_coherent relArr, initialiseWarehouses_sized relArr⟩

theorem Forged.relation?_of_lt (short : forged.tuples.length < 2 ^ 59) :
    forged.relation? = some ⟨forged.tuples, forged.realRel, forged.realCol, short⟩ := by
  rw [relation?, dif_pos short]

/-- On tables for which the warehouses have room, all sides that fit in memory are joined. -/
theorem roomyJoiner_returnsBelow (occupied : ∀ relation ∈ relArr, 0 < relation.rows)
    (room : EnoughRoom relArr) (orders : Nat → JoinOrders) :
    (roomyJoiner occupied orders).ReturnsBelow (2 ^ 59) := by
  intro session r s switched valid call shortR shortS
  have isR := r.relation?_of_lt shortR
  have isS := s.relation?_of_lt shortS
  have isCall := call.call occupied isR isS
  have fits := valid.2.fits valid.1 room isCall
  rcases (radixHashJoin_spec valid.1 isCall (orders session.calls)).1 fits with
    ⟨results, after, stored, joined, _, _⟩
  refine ⟨results, after, ⟨session.calls + 1, stored⟩, ?_⟩
  change Session.join orders session r s switched = _
  simp only [Session.join, isR, isS, joined, Option.bind_eq_bind, Option.bind_some]

end Sessions

section Predicates

variable {relArr : List Relationsheep} {State : Type} {joiner : Joiner relArr State}
  {rels : List Nat} {conditions : List (Condition Nat)} {head : HeadInter} {state : State}
  {pred : Join} {limit : Nat}

/-- The intermediates of a predicate, or its relations, have few rows. -/
structure Joinable (limit : Nat) (pred : Join) (head : HeadInter) : Prop where
  first : (sourceOf head pred.participant1).numbOfRows < limit
  second : (sourceOf head pred.participant2).numbOfRows < limit

theorem length_forgedOf (head : HeadInter) (r : ColRel) :
    (forgedOf head r).tuples.length = (sourceOf head r).numbOfRows := by
  rw [forgedOf, Inter.forged, List.length_map, List.length_range]

theorem performRHJ_ok (executed : Executed relArr rels (touchedBy conditions) conditions head)
    (returns : joiner.ReturnsBelow limit) (valid : joiner.Valid state)
    (isJoin : IsJoin relArr rels pred) (joinable : Joinable limit pred head) {switched : Nat}
    (base : findNode head pred.participant1.rel = none →
      findNode head pred.participant2.rel = none → switched = 0)
    (both : findNode head pred.participant1.rel ≠ none →
      findNode head pred.participant2.rel ≠ none → switched = 2) :
    ∃ result, performRHJ joiner head pred.participant1 pred.participant2 switched state =
      .ok result := by
  have first := isJoin.first.toIsParticipant
  have second := isJoin.second.toIsParticipant
  rcases joinable with ⟨few1, few2⟩
  rw [← length_forgedOf] at few1 few2
  rw [performRHJ_eq executed first second]
  cases found1 : findNode head pred.participant1.rel with
  | none =>
      have isBase := Executed.isBase_forged isJoin.first found1
      cases found2 : findNode head pred.participant2.rel with
      | none =>
          have isBase' := Executed.isBase_forged isJoin.second found2
          rcases returns state _ _ 0 valid (.columns isBase isBase') few1 few2 with
            ⟨results, after, next, returned⟩
          rw [base found1 found2]
          exact ⟨_, congrArg (orFault .join) returned⟩
      | some n2 =>
          rcases returns state _ _ 1 valid (.mixed _ isBase) few2 few1 with
            ⟨results, after, next, returned⟩
          exact ⟨_, congrArg (orFault .join) returned⟩
  | some n1 =>
      cases found2 : findNode head pred.participant2.rel with
      | none =>
          have isBase' := Executed.isBase_forged isJoin.second found2
          rcases returns state _ _ 1 valid (.mixed _ isBase') few1 few2 with
            ⟨results, after, next, returned⟩
          exact ⟨_, congrArg (orFault .join) returned⟩
      | some n2 =>
          rcases returns state _ _ 2 valid (.intermediates _ _) few1 few2 with
            ⟨results, after, next, returned⟩
          rw [both (by simp [found1]) (by simp [found2])]
          exact ⟨_, congrArg (orFault .join) returned⟩

theorem joinRelations_ne_join
    (executed : Executed relArr rels (touchedBy conditions) conditions head)
    (returns : joiner.ReturnsBelow limit) (valid : joiner.Valid state)
    (isJoin : IsJoin relArr rels pred) (joinable : Joinable limit pred head) :
    joinRelations joiner pred head state ≠ .error .join := by
  have notStored {result : HeadResult × Nat × State} (stored : Option HeadInter) :
      (do
        let after ← orFault .memory stored
        .ok (after, result.2.2) : Except Fault (HeadInter × State)) ≠ .error .join := by
    cases stored with
    | none =>
        intro same
        cases same
    | some after =>
        intro same
        cases same
  have performed := fun switched =>
    @performRHJ_ok _ _ _ _ _ _ _ _ _ executed returns valid isJoin joinable switched
  have isSome {rel : Nat} {data} (found : findNode head rel = some data) :
      findNode head rel ≠ none := by
    rw [found]
    exact Option.some_ne_none data
  rw [joinRelations]
  cases found1 : findNode head pred.participant1.rel with
  | none =>
      cases found2 : findNode head pred.participant2.rel with
      | none =>
          rcases performed 0 (fun _ _ => rfl) (fun some => absurd found1 some) with ⟨result, ran⟩
          simp only [ran, ok_bind]
          exact @notStored result _
      | some n2 =>
          rcases performed 1 (fun _ none => absurd none (isSome found2))
            (fun some => absurd found1 some) with ⟨result, ran⟩
          simp only [ran, ok_bind]
          exact @notStored result _
  | some n1 =>
      cases found2 : findNode head pred.participant2.rel with
      | none =>
          rcases performed 1 (fun none => absurd none (isSome found1))
            (fun _ some => absurd found2 some) with ⟨result, ran⟩
          simp only [ran, ok_bind]
          exact @notStored result _
      | some n2 =>
          by_cases same : n1 = n2
          · subst same
            rcases sameNode_keeps executed isJoin found1 found2 with
              ⟨data, after, get, selected, updated, _⟩
            simp only [get, selected, updated, orFault_some, ok_bind]
            intro same
            cases same
          · rcases performed 2 (fun none => absurd none (isSome found1))
              (fun _ _ => rfl) with ⟨result, ran⟩
            simp only [if_neg same, ran, ok_bind]
            exact @notStored result _

theorem workerJ_ok (executed : Executed relArr rels (touchedBy conditions) conditions head)
    (returns : joiner.ReturnsBelow limit) (valid : joiner.Valid state)
    (isJoin : IsJoin relArr rels pred)
    (different : pred.participant1.rel ≠ pred.participant2.rel)
    (joinable : Joinable limit pred head) : ∃ after next,
      workerJ joiner pred head state = .ok (after, next) ∧
      Executed relArr rels (touchedBy (conditions ++ [joinCondition pred]))
        (conditions ++ [joinCondition pred]) after ∧ joiner.Valid next := by
  have outcome := workerJ_outcome executed valid isJoin
  have notJoin := joinRelations_ne_join executed returns valid isJoin joinable
  rw [workerJ, if_neg different] at outcome ⊢
  cases returned : joinRelations joiner pred head state with
  | error fault =>
      rw [returned] at outcome notJoin
      cases fault with
      | scratch => exact absurd (fun self => absurd self different) outcome
      | memory => exact False.elim outcome
      | join => exact absurd rfl notJoin
  | ok result =>
      rcases result with ⟨after, next⟩
      rw [returned] at outcome
      exact ⟨after, next, rfl, outcome.2.1, outcome.2.2⟩

end Predicates

end JoinOperator.Executor
