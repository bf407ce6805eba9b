import JoinOperator.Executor.QueryRuns

/-! # The result of a query, in any order of its predicates -/

namespace JoinOperator.Executor

open Foundation RadixJoin

def conditionsOf (filters : List Filter) (joins : List Join) : List (Condition Nat) :=
  filters.map filterCondition ++ joins.map joinCondition

/-- Every predicate on one relation keeps, of the intermediate it is executed in, at most as
many rows as the relation has. -/
def QueryFits {relArr : List Relationsheep} {State : Type} (joiner : Joiner relArr State)
    (filters : List Filter) (joins : List Join) (state : State) : Prop :=
  ∀ hq, runFilters filters initialiseHead = .ok hq → JoinsFit joiner joins hq state

/-- The same tuples of the same relations, in any order. -/
def SameTuples (data data' : Inter) : Prop :=
  data'.joinedRels.Perm data.joinedRels ∧
    (data'.part.readAs data.joinedRels).Perm data.tuples

def SameBags (head head' : HeadInter) : Prop :=
  (∀ data ∈ head.nodes, ∃ data' ∈ head'.nodes, SameTuples data data') ∧
    ∀ data' ∈ head'.nodes, ∃ data ∈ head.nodes, SameTuples data' data

section Filters

variable {relArr : List Relationsheep} {rels : List Nat} {conditions : List (Condition Nat)}
  {head : HeadInter}

theorem source_fits (executed : Executed relArr rels (touchedBy conditions) conditions head)
    (onOne : OnOne conditions) {r : ColRel}
    (isParticipant : IsParticipant relArr rels r) : (sourceOf head r).numbOfRows ≤ r.rows := by
  cases found : findNode head r.rel with
  | none =>
      rw [sourceOf_none found]
      exact Nat.le_refl _
  | some node =>
      rcases findNode_some found with ⟨data, get, isRel⟩
      rcases executed.evaluates.single onOne (List.mem_map_of_mem (List.mem_of_getElem? get)) with
        ⟨rel, attrs, short⟩
      rw [show data.part.attrs = data.joinedRels from rfl] at attrs
      rw [attrs, List.mem_singleton] at isRel
      rw [← isRel, isParticipant.rows, Inter.part, Inter.tuples, List.length_map,
        List.length_range] at short
      rw [sourceOf_some found get]
      exact short

theorem satisfying_fits (executed : Executed relArr rels (touchedBy conditions) conditions head)
    (onOne : OnOne conditions) {r : ColRel}
    (isParticipant : IsParticipant relArr rels r) (c : Condition Nat) :
    ((sourceOf head r).satisfying c).length ≤ r.rows :=
  Nat.le_trans (length_filter_range_le _ _) (source_fits executed onOne isParticipant)

theorem runFilters_eq {filters : List Filter}
    (areFilters : ∀ pred ∈ filters, IsParticipant relArr rels pred.participant)
    (onOne : OnOne conditions)
    (executed : Executed relArr rels (touchedBy conditions) conditions head) :
    ∃ after, runFilters filters head = .ok after ∧
      Executed relArr rels (touchedBy (conditions ++ filters.map filterCondition))
        (conditions ++ filters.map filterCondition) after := by
  induction filters generalizing conditions head with
  | nil =>
      rw [List.map_nil, List.append_nil]
      exact ⟨head, rfl, executed⟩
  | cons pred rest induction =>
      have isParticipant := areFilters pred List.mem_cons_self
      rcases workerF_eq executed isParticipant with ⟨next, kept, equal⟩
      rw [if_pos (satisfying_fits executed onOne isParticipant _)] at equal
      have onOneAfter := onOne.append fun a => (filterCondition_attrs pred a).mp
      rcases induction (fun other member => areFilters other (List.mem_cons_of_mem _ member))
        onOneAfter kept with ⟨after, ran, executedAfter⟩
      rw [List.map_cons, List.append_cons]
      refine ⟨after, ?_, executedAfter⟩
      rw [runFilters, List.foldlM_cons, equal]
      exact ran

theorem runFilters_initialiseHead {filters : List Filter}
    (areFilters : ∀ pred ∈ filters, IsParticipant relArr rels pred.participant) :
    ∃ hq, runFilters filters initialiseHead = .ok hq ∧
      Executed relArr rels (touchedBy (filters.map filterCondition))
        (filters.map filterCondition) hq := by
  have start : Executed relArr rels (touchedBy []) [] initialiseHead := by
    apply (executed_initialiseHead relArr rels).of_touched
    intro rel
    constructor
    · exact False.elim
    · rintro ⟨c, member, _⟩
      cases member
  rcases runFilters_eq areFilters (by simp [OnOne]) start with ⟨hq, ran, executed⟩
  rw [List.nil_append] at executed
  exact ⟨hq, ran, executed⟩

end Filters

section Queries

variable {relArr : List Relationsheep} {State : Type} {joiner : Joiner relArr State}
  {rels : List Nat} {state : State} {filters : List Filter} {joins : List Join}

theorem runQuery_outcome
    (areFilters : ∀ pred ∈ filters, IsParticipant relArr rels pred.participant)
    (areJoins : ∀ pred ∈ joins, IsJoin relArr rels pred) (valid : joiner.Valid state) :
    Outcome rels joiner (conditionsOf filters joins) (QueryFits joiner filters joins state)
      (runQuery joiner filters joins state) := by
  rcases runFilters_initialiseHead areFilters with ⟨hq, ran, executed⟩
  have fits : QueryFits joiner filters joins state ↔ JoinsFit joiner joins hq state := by
    constructor
    · exact fun fits => fits hq ran
    · intro fits hq' ran'
      cases ran.symm.trans ran'
      exact fits
  rw [fits, runQuery, ran, ok_bind]
  exact runJoins_outcome areJoins executed valid

theorem Executed.sameTuples {conditions others : List (Condition Nat)} {head head' : HeadInter}
    (executed : Executed relArr rels (touchedBy conditions) conditions head)
    (executed' : Executed relArr rels (touchedBy others) others head')
    (same : ∀ c, c ∈ conditions ↔ c ∈ others) {data : Inter} (isNode : data ∈ head.nodes) :
    ∃ data' ∈ head'.nodes, SameTuples data data' := by
  have touched : ∀ rel, rel ∈ touchedBy others ↔ rel ∈ touchedBy conditions := by
    intro rel
    constructor
    · rintro ⟨c, member, isRel⟩
      exact ⟨c, (same c).mpr member, isRel⟩
    · rintro ⟨c, member, isRel⟩
      exact ⟨c, (same c).mp member, isRel⟩
  rcases executed.evaluates.unique (executed'.of_touched touched).evaluates same
    (List.mem_map_of_mem isNode) with ⟨part, isPart, attrs, tuples⟩
  rcases List.mem_map.mp isPart with ⟨data', isNode', rfl⟩
  exact ⟨data', isNode', attrs, tuples⟩

theorem Executed.sameBags {conditions others : List (Condition Nat)} {head head' : HeadInter}
    (executed : Executed relArr rels (touchedBy conditions) conditions head)
    (executed' : Executed relArr rels (touchedBy others) others head')
    (same : ∀ c, c ∈ conditions ↔ c ∈ others) : SameBags head head' :=
  ⟨fun _ isNode => executed.sameTuples executed' same isNode,
    fun _ isNode => executed'.sameTuples executed (fun c => (same c).symm) isNode⟩

/-- A query ends with its solutions, and in any other order that fits with the same bags of
tuples, exactly when its predicates on one relation fit. -/
theorem runQuery_iff (returns : joiner.Returns) (valid : joiner.Valid state)
    (areFilters : ∀ pred ∈ filters, IsParticipant relArr rels pred.participant)
    (areJoins : ∀ pred ∈ joins, IsJoin relArr rels pred) :
    (∃ head next, runQuery joiner filters joins state = .ok (head, next) ∧
      Executed relArr rels (touchedBy (conditionsOf filters joins))
        (conditionsOf filters joins) head ∧
      ∀ filters' joins' state' head' next', filters'.Perm filters → joins'.Perm joins →
        joiner.Valid state' → runQuery joiner filters' joins' state' = .ok (head', next') →
        SameBags head head') ↔
      QueryFits joiner filters joins state := by
  have outcome := runQuery_outcome areFilters areJoins valid
  constructor
  · rintro ⟨head, next, ran, _⟩
    rw [ran] at outcome
    exact outcome.1
  · intro fits
    cases ran : runQuery joiner filters joins state with
    | error fault =>
        rw [ran] at outcome
        cases fault with
        | scratch => exact absurd fits outcome
        | memory => exact False.elim outcome
        | join => exact absurd returns outcome.2
    | ok result =>
        rcases result with ⟨head, next⟩
        rw [ran] at outcome
        refine ⟨head, next, rfl, outcome.2.1, ?_⟩
        intro filters' joins' state' head' next' permFilters permJoins valid' ran'
        have outcome' := runQuery_outcome
          (fun pred member => areFilters pred (permFilters.mem_iff.mp member))
          (fun pred member => areJoins pred (permJoins.mem_iff.mp member)) valid'
        rw [ran'] at outcome'
        apply outcome.2.1.sameBags outcome'.2.1
        intro c
        exact ((permFilters.map _).append (permJoins.map _)).mem_iff.symm

end Queries

/-- The results of a join in one node, in the order of nested loops. -/
def nestedResults (r s : List Tuple) : HeadResult :=
  match joinRows r s with
  | [] => initialiseResultHeadNoBuff
  | row :: rows => ⟨[row :: rows], some 0, 1, (row :: rows).length, none, 0⟩

theorem joined_nestedResults (r s : List Tuple) : Joined r s 0 (nestedResults r s) := by
  rw [nestedResults]
  refine ⟨.inl rfl, ?_, ?_⟩
  · cases joinRows r s with
    | nil => exact HeadResult.finished_initialise
    | cons row rows =>
        exact ⟨⟨rfl, rfl, by simp⟩, rfl, by rw [List.flatten_singleton]⟩
  · rw [map_unswitch_zero]
    cases joinRows r s with
    | nil => rfl
    | cons row rows => rw [List.flatten_singleton]

/-- A joiner that keeps nothing. -/
def nestedLoops (relArr : List Relationsheep) : Joiner relArr Unit where
  radixHashJoin _ r s _ := some (nestedResults r.tuples s.tuples, 0, ())
  Valid _ := True
  joined := by
    intro state r s switched results after next _ _ returned
    cases returned
    exact ⟨joined_nestedResults _ _, trivial⟩

theorem nestedLoops_returns (relArr : List Relationsheep) : (nestedLoops relArr).Returns :=
  fun _ _ _ _ _ _ => ⟨_, _, _, rfl⟩

theorem sevenSeven_rectangular : ∀ col ∈ [[7], [7]], col.length = 1 := by
  decide

theorem sevens_rectangular : ∀ col ∈ [[7, 7]], col.length = 2 := by
  decide

/-- A relation of one row, and one of two rows that both join it. -/
def fanOutTables : List Relationsheep :=
  [⟨1, [[7], [7]], [], sevenSeven_rectangular⟩, ⟨2, [[7, 7]], [], sevens_rectangular⟩]

def fanOutJoin : Join := ⟨⟨0, 0, 0, 0, [7], 1⟩, ⟨1, 0, 1, 0, [7, 7], 2⟩⟩

def fanOutSelf : Join := ⟨⟨0, 0, 0, 0, [7], 1⟩, ⟨0, 1, 0, 1, [7], 1⟩⟩

theorem isJoin_fanOutJoin : IsJoin fanOutTables [0, 1] fanOutJoin :=
  ⟨⟨⟨0, _, rfl, rfl, rfl, rfl⟩, rfl, rfl⟩, ⟨⟨1, _, rfl, rfl, rfl, rfl⟩, rfl, rfl⟩⟩

theorem isJoin_fanOutSelf : IsJoin fanOutTables [0, 1] fanOutSelf :=
  ⟨⟨⟨0, _, rfl, rfl, rfl, rfl⟩, rfl, rfl⟩, ⟨⟨0, _, rfl, rfl, rfl, rfl⟩, rfl, rfl⟩⟩

/-- The predicate on the first relation keeps both rows of the intermediate, in an array of one
element. -/
theorem runQuery_fanOut : (nestedLoops fanOutTables).Returns ∧
    (∀ pred ∈ [fanOutJoin, fanOutSelf], IsJoin fanOutTables [0, 1] pred) ∧
    runQuery (nestedLoops fanOutTables) [] [fanOutJoin, fanOutSelf] () = .error .scratch := by
  refine ⟨nestedLoops_returns _, ?_, rfl⟩
  intro pred member
  rcases List.mem_cons.mp member with rfl | member
  · exact isJoin_fanOutJoin
  · cases List.mem_singleton.mp member
    exact isJoin_fanOutSelf

theorem runQuery_iff_selfFirst : ∃ head next,
    runQuery (nestedLoops fanOutTables) [] [fanOutSelf, fanOutJoin] () = .ok (head, next) ∧
      Executed fanOutTables [0, 1] (touchedBy (conditionsOf [] [fanOutSelf, fanOutJoin]))
        (conditionsOf [] [fanOutSelf, fanOutJoin]) head := by
  have areJoins : ∀ pred ∈ [fanOutSelf, fanOutJoin], IsJoin fanOutTables [0, 1] pred :=
    List.forall_mem_cons.mpr ⟨isJoin_fanOutSelf, List.forall_mem_singleton.mpr isJoin_fanOutJoin⟩
  have fits : QueryFits (nestedLoops fanOutTables) [] [fanOutSelf, fanOutJoin] () := by
    intro hq ran
    cases ran
    refine ⟨fun _ => by decide, fun after next _ => ⟨fun self => ?_, fun _ _ _ => trivial⟩⟩
    cases self
  rcases (runQuery_iff (nestedLoops_returns fanOutTables) trivial (by simp) areJoins).mpr fits with
    ⟨head, next, ran, executed, _⟩
  exact ⟨head, next, ran, executed⟩

end JoinOperator.Executor
