import JoinOperator.Foundation.EarlySlots
import JoinOperator.Planner.PredicateOrder
import JoinOperator.Planner.TotalPlanner

/-! # Predicates on one relation come first

Those between different columns are all in `priorities` before the sequence is
appended, and whatever is inserted between them is on one relation.
-/

namespace JoinOperator.Planner

open Foundation RadixJoin

def OnOneRelation (joins : List Join) (id : Nat) : Prop :=
  ∃ join, joins[id]? = some join ∧ join.participant1.rel = join.participant2.rel

/-- The predicates of `priorities`, those on one relation first. No other one is before all
that `executeFilterPredicates` has found. -/
structure SelfJoinsFirst (joins : List Join) (priorities front rest : List Nat) : Prop where
  slots : ∃ count, priorities = front ++ rest ++ List.replicate count noPriority
  valid : ∀ id ∈ front ++ rest, id < joins.length
  staged : Likeness.Staged (OnOneRelation joins) (sameRelationIds joins joins.length) front rest

variable {joins : List Join} {id k : Nat}

theorem respects_onOneRelation (joins : List Join) :
    Likeness.Respects (joinLikeness joins) (OnOneRelation joins) := by
  intro first second isRelated early
  rcases early with ⟨join, get, same⟩
  simp only [joinLikeness, get, Option.map_some] at isRelated
  rcases Option.map_eq_some_iff.mp isRelated.symm with ⟨other, getOther, related⟩
  refine ⟨other, getOther, ?_⟩
  cases relations_eq_iff.mp related with
  | inl direct => rw [direct.1, direct.2, same]
  | inr crossed => rw [crossed.1, crossed.2, same]

theorem onOneRelation_of_mem (member : id ∈ sameRelationIds joins joins.length) :
    OnOneRelation joins id := by
  rcases (Option.any_eq_true _ _).mp (List.mem_filter.mp member).2 with ⟨join, get, same⟩
  exact ⟨join, get, (of_decide_eq_true same).1⟩

theorem sameRelationIds_lt (member : id ∈ sameRelationIds joins joins.length) :
    id < joins.length :=
  List.mem_range.mp (List.mem_filter.mp member).1

theorem setPriorities_selfJoinsFirst {q : Query} {sequence : List Char} {priorities : List Nat}
    (few : q.numOfJoins ≤ noPriority)
    (isFirst : q.priorities = sameRelationIds q.joins q.numOfJoins ++
      List.replicate (q.numOfJoins - (sameRelationIds q.joins q.numOfJoins).length) noPriority)
    (validSequence : ∀ c ∈ sequence, charToInteger c < q.numOfJoins) (nonempty : sequence ≠ [])
    (isSet : setPriorities sequence q = some priorities) :
    ∃ front rest, SelfJoinsFirst q.joins priorities front rest := by
  have validFilters : ∀ id ∈ sameRelationIds q.joins q.numOfJoins, id < q.numOfJoins :=
    fun id member => sameRelationIds_lt member
  have fits := setPriorities_fits isFirst
    (fun id member => Nat.lt_of_lt_of_le (validFilters id member) few) isSet
  have valid : ∀ id ∈ sameRelationIds q.joins q.numOfJoins ++ sequence.map charToInteger,
      id < q.joins.length := by
    intro id member
    cases List.mem_append.mp member with
    | inl isFilter => exact validFilters id isFilter
    | inr isChar =>
        rcases List.mem_map.mp isChar with ⟨c, inSequence, rfl⟩
        exact validSequence c inSequence
  have staged : Likeness.Staged (OnOneRelation q.joins) (sameRelationIds q.joins q.numOfJoins)
      (sameRelationIds q.joins q.numOfJoins) (sequence.map charToInteger) :=
    ⟨fun id member => onOneRelation_of_mem member, fun _ id member => member⟩
  rw [(setPriorities_eq few isFirst validFilters validSequence nonempty fits).2] at isSet
  split at isSet
  · rcases Option.map_eq_some_iff.mp isSet with ⟨slots, ran, rfl⟩
    have more : (sameRelationIds q.joins q.numOfJoins).length <
        (sameRelationIds q.joins q.numOfJoins ++ sequence.map charToInteger).length := by
      have positive := List.length_pos_of_ne_nil nonempty
      rw [List.length_append, List.length_map]
      omega
    have earlyFirst : Likeness.EarlyFirst (OnOneRelation q.joins)
        (sameRelationIds q.joins q.numOfJoins) slots := by
      refine Likeness.EarlyFirst.rounds (respects_onOneRelation q.joins) ?_ (Nat.le_refl _) ran
      exact ⟨_, _, rfl, staged, more⟩
    rcases earlyFirst with ⟨front, rest, split, stagedAfter, _⟩
    refine ⟨front, rest, ⟨_, congrArg (· ++ _) split⟩, ?_, stagedAfter⟩
    rw [← split]
    exact rounds_valid visited_lt valid ran
  · cases isSet
    exact ⟨_, _, ⟨0, (List.append_nil _).symm⟩, valid, staged⟩

/-- Whatever plan is found, the predicates on one relation come first. -/
theorem planned_selfJoinsFirst {estimator : Estimator} {relArr : List Relationsheep}
    {q filtered : Query} (wellFormed : q.WellFormed relArr) (few : q.numOfJoins ≤ noPriority)
    (free : q.priorities = List.replicate q.numOfJoins noPriority)
    (isFiltered : executeFilterPredicates estimator q = some filtered) {joinGraph : Graph}
    {hashTree final : HashTree} {node : HTNode} {sequence : List Char} {priorities : List Nat}
    (isGraph : constructGraph (initialiseGraph filtered.numOfRels) filtered = some joinGraph)
    (isTree : initialiseHashTree (2 ^ filtered.numOfRels) filtered relArr = some hashTree)
    (enumerated : joinEnumeration estimator hashTree filtered joinGraph = some final)
    (isNode : final[2 ^ filtered.numOfRels - 1]? = some (some node))
    (isSequence : node.joinSeq = some sequence)
    (isSet : setPriorities sequence filtered = some priorities) :
    ∃ front rest, SelfJoinsFirst q.joins priorities front rest := by
  rcases executeFilterPredicates_spec wellFormed free isFiltered with
    ⟨filteredWellFormed, rels, joins, isFirst⟩
  rcases fullPlan_spec filteredWellFormed (many_of_sequence isTree enumerated isNode isSequence)
    isGraph isTree enumerated isNode isSequence with ⟨order, ids, leftDeep, rfl, nonempty⟩
  have valid : ∀ id ∈ ids, id < filtered.numOfJoins := fun id member =>
    leftDeep.lt_of_mem member
  rw [Query.numOfJoins, ← joins] at isFirst few
  rw [← joins]
  exact setPriorities_selfJoinsFirst few isFirst (charToInteger_lt valid)
    (combOf_ne_nil nonempty) isSet

end JoinOperator.Planner
