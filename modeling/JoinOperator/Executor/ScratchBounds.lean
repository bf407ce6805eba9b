import JoinOperator.Executor.ConstructedQueries
import JoinOperator.Planner.EarlyPredicates

/-! # Room for the rows that a predicate on one relation keeps

The array has the length of the relation, and the rows are those of the intermediate. In the
order of `priorities`, a predicate between two columns is executed before any join, and one of
a column with itself may come after it.
-/

namespace JoinOperator.Executor

open Foundation RadixJoin Planner

section Model

variable {relArr : List Relationsheep} {State : Type} (joiner : Joiner relArr State)

def runPriorities (joins : List Join) :
    List Nat → HeadInter → State → Except Fault (HeadInter × State)
  | [], hq, state => .ok (hq, state)
  | p :: rest, hq, state =>
      if p = noPriority then runPriorities joins rest hq state
      else do
        let pred ← orFault .memory joins[p]?
        let (after, next) ← workerJ joiner pred hq state
        runPriorities joins rest after next

def performQuery (filters : List Filter) (joins : List Join) (priorities : List Nat)
    (state : State) : Except Fault (HeadInter × State) := do
  let hq ← runFilters filters initialiseHead
  runPriorities joiner joins priorities hq state

end Model

def scheduledJoins (joins : List Join) (priorities : List Nat) : List Join :=
  (priorities.filter (· ≠ noPriority)).filterMap (joins[·]?)

/-- The intermediate of a predicate on one relation has at most as many rows as the relation. -/
def HasRoom (pred : Join) (hq : HeadInter) : Prop :=
  pred.participant1.rel = pred.participant2.rel →
    (sourceOf hq pred.participant1).numbOfRows ≤ pred.participant1.rows

def JoinsHaveRoom {relArr : List Relationsheep} {State : Type} (joiner : Joiner relArr State) :
    List Join → HeadInter → State → Prop
  | [], _, _ => True
  | pred :: rest, hq, state => HasRoom pred hq ∧ ∀ after next,
      workerJ joiner pred hq state = .ok (after, next) → JoinsHaveRoom joiner rest after next

/-- Every predicate on one relation has room in the intermediate it is executed in. -/
def QueryHasRoom {relArr : List Relationsheep} {State : Type} (joiner : Joiner relArr State)
    (filters : List Filter) (joins : List Join) (priorities : List Nat) (state : State) : Prop :=
  ∀ hq, runFilters filters initialiseHead = .ok hq →
    JoinsHaveRoom joiner (scheduledJoins joins priorities) hq state

/-- The predicate compares a column with itself, or has been evaluated already. -/
def Repeats (conditions : List (Condition Nat)) (pred : Join) : Prop :=
  pred.participant1.numCol = pred.participant2.numCol ∨ joinCondition pred ∈ conditions

/-- The predicates on one relation come first, or repeat what is known. -/
def Orderly : List (Condition Nat) → List Join → Prop
  | _, [] => True
  | conditions, pred :: rest =>
      (pred.participant1.rel = pred.participant2.rel → OnOne conditions ∨ Repeats conditions pred) ∧
        Orderly (conditions ++ [joinCondition pred]) rest

section Steps

variable {relArr : List Relationsheep} {rels : List Nat} {conditions : List (Condition Nat)}
  {hq : HeadInter} {pred : Join}

theorem Executed.satisfying_evaluated
    (executed : Executed relArr rels (touchedBy conditions) conditions hq) {data : Inter}
    (isNode : data ∈ hq.nodes) {c : Condition Nat} (evaluated : c ∈ conditions)
    (inside : c.attrs ⊆ data.joinedRels) : data.satisfying c = List.range data.numbOfRows := by
  apply List.filter_eq_self.mpr
  intro i member
  have complete := executed.evaluates.complete _ (List.mem_map_of_mem isNode)
  exact ((complete.exact _).mp (List.mem_map_of_mem member)).satisfied c evaluated inside

theorem IsJoin.sameColumn (isJoin : IsJoin relArr rels pred)
    (self : pred.participant1.rel = pred.participant2.rel)
    (same : pred.participant1.numCol = pred.participant2.numCol) (rowIds : Nat → Nat) :
    (joinCondition pred).holds rowIds = true := by
  rcases isJoin.first.column with ⟨real, relation, isReal, isRelation, isColumn, _⟩
  rcases isJoin.second.column with ⟨real', relation', isReal', isRelation', isColumn', _⟩
  rw [← self, isReal] at isReal'
  cases isReal'
  rw [isRelation] at isRelation'
  cases isRelation'
  rw [← same, isColumn] at isColumn'
  rw [joinCondition_holds, valueOf, valueOf, self, Option.some.inj isColumn']
  exact decide_eq_true rfl

theorem selfJoinFits_iff (executed : Executed relArr rels (touchedBy conditions) conditions hq)
    (isJoin : IsJoin relArr rels pred) (harmless : pred.participant1.rel = pred.participant2.rel →
      OnOne conditions ∨ Repeats conditions pred) :
    SelfJoinFits pred hq ↔ HasRoom pred hq := by
  apply forall_congr'
  intro self
  rcases harmless self with onOne | same | evaluated
  · -- no join has been executed yet
    have first := isJoin.first.toIsParticipant
    exact iff_of_true (satisfying_fits executed onOne first _) (source_fits executed onOne first)
  · have all : (sourceOf hq pred.participant1).satisfying (joinCondition pred) =
        List.range (sourceOf hq pred.participant1).numbOfRows :=
      List.filter_eq_self.mpr fun _ _ => isJoin.sameColumn self same _
    rw [all, List.length_range]
  · cases found : findNode hq pred.participant1.rel with
    | none =>
        -- the condition has touched the relation
        have touched : pred.participant1.rel ∈ touchedBy conditions :=
          ⟨_, evaluated, (joinCondition_attrs pred _).mpr (.inl rfl)⟩
        exact absurd touched (executed.findNode_none found)
    | some node =>
        rcases findNode_some found with ⟨data, get, isRel⟩
        have inside : (joinCondition pred).attrs ⊆ data.joinedRels := by
          intro rel member
          rw [joinCondition_attrs, ← self, or_self] at member
          exact member ▸ isRel
        rw [sourceOf_some found get,
          executed.satisfying_evaluated (List.mem_of_getElem? get) evaluated inside,
          List.length_range]

theorem Repeats.append (repeats : Repeats conditions pred) (c : Condition Nat) :
    Repeats (conditions ++ [c]) pred :=
  repeats.imp_right (List.mem_append_left _)

theorem orderly_append {front rest : List Join} (onOne : OnOne conditions)
    (early : ∀ pred ∈ front, pred.participant1.rel = pred.participant2.rel)
    (late : ∀ pred ∈ rest, pred.participant1.rel = pred.participant2.rel →
      Repeats (conditions ++ front.map joinCondition) pred) :
    Orderly conditions (front ++ rest) := by
  induction front generalizing conditions with
  | nil =>
      rw [List.map_nil, List.append_nil] at late
      clear onOne early
      induction rest generalizing conditions with
      | nil => trivial
      | cons pred rest induction =>
          refine ⟨fun self => .inr (late pred List.mem_cons_self self), induction ?_⟩
          intro other member self
          exact (late other (List.mem_cons_of_mem pred member) self).append _
  | cons pred front induction =>
      have attrs : ∀ a ∈ (joinCondition pred).attrs, a = pred.participant1.rel := by
        intro a isAttr
        rw [joinCondition_attrs, ← early pred List.mem_cons_self, or_self] at isAttr
        exact isAttr
      refine ⟨fun _ => .inl onOne, induction (onOne.append attrs) ?_ ?_⟩
      · exact fun other member => early other (List.mem_cons_of_mem pred member)
      · rw [List.map_cons, List.append_cons] at late
        exact late

end Steps

section Runs

variable {relArr : List Relationsheep} {State : Type} {joiner : Joiner relArr State}
  {rels : List Nat} {conditions : List (Condition Nat)} {hq : HeadInter} {state : State}
  {joins : List Join}

theorem joinsFit_iff (areJoins : ∀ pred ∈ joins, IsJoin relArr rels pred)
    (executed : Executed relArr rels (touchedBy conditions) conditions hq)
    (valid : joiner.Valid state) (orderly : Orderly conditions joins) :
    JoinsFit joiner joins hq state ↔ JoinsHaveRoom joiner joins hq state := by
  induction joins generalizing conditions hq state with
  | nil => exact Iff.rfl
  | cons pred rest induction =>
      have isJoin := areJoins pred List.mem_cons_self
      have others := fun other member => areJoins other (List.mem_cons_of_mem pred member)
      have outcome := workerJ_outcome executed valid isJoin
      apply and_congr (selfJoinFits_iff executed isJoin orderly.1)
      apply forall_congr'
      intro after
      apply forall_congr'
      intro next
      apply forall_congr'
      intro returned
      rw [returned] at outcome
      exact induction others outcome.2.1 outcome.2.2 orderly.2

theorem runPriorities_eq {priorities : List Nat}
    (valid : ∀ p ∈ priorities, p = noPriority ∨ p < joins.length) :
    runPriorities joiner joins priorities hq state =
      runJoins joiner (scheduledJoins joins priorities) hq state := by
  induction priorities generalizing hq state with
  | nil => rfl
  | cons p rest induction =>
      have others := fun other member => valid other (List.mem_cons_of_mem p member)
      rw [runPriorities]
      by_cases free : p = noPriority
      · rw [if_pos free, induction others, scheduledJoins, scheduledJoins,
          List.filter_cons_of_neg (by simpa using free)]
      · have inside := (valid p List.mem_cons_self).resolve_left free
        have get := List.getElem?_eq_getElem inside
        rw [if_neg free, scheduledJoins, List.filter_cons_of_pos (by simpa using free),
          List.filterMap_cons_some get, get, runJoins]
        simp only [orFault_some, ok_bind]
        cases workerJ joiner joins[p] hq state with
        | error fault => rfl
        | ok result => exact induction others

/-- What `priorities` lists, the predicates on one relation first. -/
theorem scheduledJoins_eq {priorities front rest : List Nat}
    (first : SelfJoinsFirst joins priorities front rest) (few : joins.length ≤ noPriority) :
    scheduledJoins joins priorities =
      front.filterMap (joins[·]?) ++ rest.filterMap (joins[·]?) := by
  rcases first.slots with ⟨count, rfl⟩
  have kept : (front ++ rest).filter (· ≠ noPriority) = front ++ rest := by
    apply List.filter_eq_self.mpr
    intro id member
    have below := Nat.lt_of_lt_of_le (first.valid id member) few
    exact decide_eq_true (Nat.ne_of_lt below)
  have dropped : (List.replicate count noPriority).filter (· ≠ noPriority) = [] := by
    simp
  rw [scheduledJoins, List.filter_append, kept, dropped, List.append_nil, List.filterMap_append]

theorem orderly_scheduledJoins {priorities front rest : List Nat}
    (first : SelfJoinsFirst joins priorities front rest) (few : joins.length ≤ noPriority)
    (onOne : OnOne conditions) : Orderly conditions (scheduledJoins joins priorities) := by
  rw [scheduledJoins_eq first few]
  apply orderly_append onOne
  · intro pred member
    rcases List.mem_filterMap.mp member with ⟨id, inFront, get⟩
    rcases first.staged.early id inFront with ⟨other, getOther, self⟩
    rw [get] at getOther
    cases getOther
    exact self
  · intro pred member self
    rcases List.mem_filterMap.mp member with ⟨id, inRest, get⟩
    by_cases same : pred.participant1.numCol = pred.participant2.numCol
    · exact .inl same
    · -- it is one of those that were there before the sequence
      have isFirst : id ∈ sameRelationIds joins joins.length := by
        refine List.mem_filter.mpr ⟨List.mem_range.mpr (List.getElem?_eq_some_iff.mp get).1, ?_⟩
        rw [get, Option.any_some]
        exact decide_eq_true ⟨self, same⟩
      have inFront := first.staged.complete (List.ne_nil_of_mem inRest) id isFirst
      refine .inr (List.mem_append_right _ (List.mem_map_of_mem ?_))
      exact List.mem_filterMap.mpr ⟨id, inFront, get⟩

theorem Outcome.scratch_iff {fits : Prop} {result : Except Fault (HeadInter × State)}
    (outcome : Outcome rels joiner conditions fits result) : result ≠ .error .scratch ↔ fits := by
  rcases result with fault | ⟨after, next⟩
  · cases fault with
    | scratch => exact iff_of_false (fun differs => differs rfl) outcome
    | memory => exact False.elim outcome
    | join => exact iff_of_true (fun same => nomatch same) outcome.1
  · exact iff_of_true (fun same => nomatch same) outcome.1

theorem performQuery_eq {filters : List Filter} {priorities : List Nat}
    (valid : ∀ p ∈ priorities, p = noPriority ∨ p < joins.length) :
    performQuery joiner filters joins priorities state =
      runQuery joiner filters (scheduledJoins joins priorities) state := by
  rw [performQuery, runQuery]
  cases runFilters filters initialiseHead with
  | error fault => rfl
  | ok hq => exact runPriorities_eq valid

theorem performQuery_scratch_iff {filters : List Filter} {priorities front rest : List Nat}
    (areFilters : ∀ pred ∈ filters, IsParticipant relArr rels pred.participant)
    (areJoins : ∀ pred ∈ joins, IsJoin relArr rels pred) (few : joins.length ≤ noPriority)
    (first : SelfJoinsFirst joins priorities front rest) (valid : joiner.Valid state) :
    performQuery joiner filters joins priorities state ≠ .error .scratch ↔
      QueryHasRoom joiner filters joins priorities state := by
  have areScheduled : ∀ pred ∈ scheduledJoins joins priorities, IsJoin relArr rels pred := by
    intro pred member
    rcases List.mem_filterMap.mp member with ⟨id, _, get⟩
    exact areJoins pred (List.mem_of_getElem? get)
  have validSlots : ∀ p ∈ priorities, p = noPriority ∨ p < joins.length := by
    rcases first.slots with ⟨count, rfl⟩
    intro p member
    cases List.mem_append.mp member with
    | inl listed => exact .inr (first.valid p listed)
    | inr free => exact .inl (List.eq_of_mem_replicate free)
  have onOne : OnOne (filters.map filterCondition) := by
    intro c member a isA b isB
    rcases List.mem_map.mp member with ⟨pred, _, rfl⟩
    rw [(filterCondition_attrs pred a).mp isA, (filterCondition_attrs pred b).mp isB]
  have orderly := orderly_scheduledJoins first few onOne
  have same : QueryFits joiner filters (scheduledJoins joins priorities) state ↔
      QueryHasRoom joiner filters joins priorities state := by
    rcases runFilters_initialiseHead areFilters with ⟨hq, ran, executed⟩
    apply forall_congr'
    intro hq'
    apply forall_congr'
    intro ran'
    cases ran.symm.trans ran'
    exact joinsFit_iff areScheduled executed valid orderly
  rw [← same, performQuery_eq validSlots]
  exact (runQuery_outcome areFilters areScheduled valid).scratch_iff

end Runs

theorem executeFilterPredicates_filters {estimator : Estimator} {q filtered : Query}
    (ran : executeFilterPredicates estimator q = some filtered) : filtered.filters = q.filters := by
  rcases Option.bind_eq_some_iff.mp ran with ⟨queryStats, _, ran⟩
  rcases Option.bind_eq_some_iff.mp ran with ⟨state, _, ran⟩
  cases ran
  rfl

/-- In the order that the planner finds, no array overflows if and only if every predicate on
one relation is executed while its intermediate has no more rows than the relation. -/
theorem plannedQuery_scratch_iff (estimator : Estimator) {relArr : List Relationsheep}
    {State : Type} (joiner : Joiner relArr State) {q filtered : Query}
    (executable : Executable relArr q) (few : q.numOfJoins < 2 ^ 64)
    (isFiltered : executeFilterPredicates estimator q = some filtered) {joinGraph : Graph}
    {hashTree final : HashTree} {node : HTNode} {sequence : List Char} {priorities : List Nat}
    (isGraph : constructGraph (initialiseGraph filtered.numOfRels) filtered = some joinGraph)
    (isTree : initialiseHashTree (2 ^ filtered.numOfRels) filtered relArr = some hashTree)
    (enumerated : joinEnumeration estimator hashTree filtered joinGraph = some final)
    (isNode : final[2 ^ filtered.numOfRels - 1]? = some (some node))
    (isSequence : node.joinSeq = some sequence)
    (isSet : setPriorities sequence filtered = some priorities) {state : State}
    (valid : joiner.Valid state) :
    performQuery joiner filtered.filters filtered.joins priorities state ≠ .error .scratch ↔
      QueryHasRoom joiner filtered.filters filtered.joins priorities state := by
  have atMost : q.numOfJoins ≤ noPriority := Nat.le_sub_one_of_lt few
  rcases planned_selfJoinsFirst executable.wellFormed atMost executable.free isFiltered isGraph
    isTree enumerated isNode isSequence isSet with ⟨front, rest, first⟩
  rcases executeFilterPredicates_spec executable.wellFormed executable.free isFiltered with
    ⟨_, _, joins, _⟩
  rw [executeFilterPredicates_filters isFiltered, joins]
  exact performQuery_scratch_iff executable.areFilters executable.areJoins atMost first valid

theorem columns_rectangular (col : List Nat) : ∀ other ∈ [col], other.length = col.length :=
  List.forall_mem_singleton.mpr rfl

def linkedTables (col : List Nat) : List Relationsheep :=
  [⟨1, [[7]], [], columns_rectangular [7]⟩, ⟨col.length, [col], [], columns_rectangular col⟩]

/-- `0 1|0.0=1.0&0.0=0.0`, for the two relations. -/
def selfColumnQuery (col : List Nat) : Query where
  rels := [0, 1]
  queryStats := [[⟨7, 7, 1, 1, [1]⟩], [⟨7, 7, col.length, 1, [1]⟩]]
  filters := []
  joins := [⟨⟨0, 0, 0, 0, [7], 1⟩, ⟨1, 0, 1, 0, col, col.length⟩⟩,
    ⟨⟨0, 0, 0, 0, [7], 1⟩, ⟨0, 0, 0, 0, [7], 1⟩⟩]
  priorities := [2 ^ 64 - 1, 2 ^ 64 - 1]

theorem selfColumnQuery_executable (col : List Nat) :
    Executable (linkedTables col) (selfColumnQuery col) where
  wellFormed := by
    refine ⟨?_, (fun filter member => nomatch member), ?_⟩
    · intro rel below
      rcases Nat.le_one_iff_eq_zero_or_eq_one.mp (Nat.le_of_lt_succ below) with rfl | rfl
      · exact ⟨_, rfl, rfl, Nat.one_pos⟩
      · exact ⟨_, rfl, rfl, Nat.one_pos⟩
    · intro join member
      rcases List.mem_pair.mp member with rfl | rfl
      · exact ⟨⟨1, rfl, Nat.one_pos⟩, ⟨1, rfl, Nat.one_pos⟩⟩
      · exact ⟨⟨1, rfl, Nat.one_pos⟩, ⟨1, rfl, Nat.one_pos⟩⟩
  areFilters := fun filter member => nomatch member
  areJoins := by
    intro pred member
    rcases List.mem_pair.mp member with rfl | rfl
    · exact ⟨⟨⟨0, _, rfl, rfl, rfl, rfl⟩, rfl, rfl⟩, ⟨⟨1, _, rfl, rfl, rfl, rfl⟩, rfl, rfl⟩⟩
    · exact ⟨⟨⟨0, _, rfl, rfl, rfl, rfl⟩, rfl, rfl⟩, ⟨⟨0, _, rfl, rfl, rfl, rfl⟩, rfl, rfl⟩⟩
  free := rfl

theorem selfColumnQuery_planned (col : List Nat) : ∃ joinGraph hashTree final node,
    constructGraph (initialiseGraph 2) (selfColumnQuery col) = some joinGraph ∧
      initialiseHashTree (2 ^ 2) (selfColumnQuery col) (linkedTables col) = some hashTree ∧
      joinEnumeration naturalEstimator hashTree (selfColumnQuery col) joinGraph = some final ∧
      final[2 ^ 2 - 1]? = some (some node) ∧ node.joinSeq = some (combOf [0]) := by
  have connected : ConnectedOn (queryGraph (selfColumnQuery col).joins) (Finset.range 2) := by
    rw [show Finset.range 2 = {1, 0} by decide]
    apply ConnectedOn.insert (ConnectedOn.singleton 0) (Finset.mem_singleton_self 0)
    exact ⟨Nat.zero_ne_one, 0, _, rfl, .inl ⟨rfl, rfl⟩⟩
  rcases exists_fullPlan naturalEstimator (selfColumnQuery_executable col).wellFormed
    (Nat.le_refl 2) (show 2 ≤ 10 by decide) connected with
    ⟨joinGraph, hashTree, final, node, order, ids, isGraph, isTree, ran, isNode, isSequence,
      leftDeep, _, length⟩
  rcases List.length_eq_one_iff.mp (Nat.succ_injective length) with ⟨id, rfl⟩
  rcases leftDeep.different (List.mem_singleton_self id) with ⟨join, get, different⟩
  have isFirst : id = 0 := by
    have below : id < 2 := (List.getElem?_eq_some_iff.mp get).1
    by_contra positive
    have isSecond : id = 1 := by omega
    subst isSecond
    cases get
    exact different rfl
  subst isFirst
  exact ⟨joinGraph, hashTree, final, node, isGraph, isTree, ran, isNode, isSequence⟩

/-- The second predicate keeps both rows of the join, in an array of one element. -/
theorem plannedQuery_overflow : ∃ joinGraph hashTree final node sequence priorities,
    Executable (linkedTables [7, 7]) (selfColumnQuery [7, 7]) ∧
      executeFilterPredicates naturalEstimator (selfColumnQuery [7, 7]) =
        some (selfColumnQuery [7, 7]) ∧
      constructGraph (initialiseGraph 2) (selfColumnQuery [7, 7]) = some joinGraph ∧
      initialiseHashTree (2 ^ 2) (selfColumnQuery [7, 7]) (linkedTables [7, 7]) =
        some hashTree ∧
      joinEnumeration naturalEstimator hashTree (selfColumnQuery [7, 7]) joinGraph =
        some final ∧
      final[2 ^ 2 - 1]? = some (some node) ∧ node.joinSeq = some sequence ∧
      setPriorities sequence (selfColumnQuery [7, 7]) = some priorities ∧
      performQuery (nestedLoops (linkedTables [7, 7])) [] (selfColumnQuery [7, 7]).joins
        priorities () = .error .scratch := by
  rcases selfColumnQuery_planned [7, 7] with
    ⟨joinGraph, hashTree, final, node, isGraph, isTree, ran, isNode, isSequence⟩
  exact ⟨joinGraph, hashTree, final, node, combOf [0], [0, 1], selfColumnQuery_executable _,
    rfl, isGraph, isTree, ran, isNode, isSequence, rfl, rfl⟩

theorem plannedQuery_scratch_iff_oneRow :
    (∃ result, performQuery (nestedLoops (linkedTables [7])) [] (selfColumnQuery [7]).joins
      [0, 1] () = .ok result) ∧
      QueryHasRoom (nestedLoops (linkedTables [7])) [] (selfColumnQuery [7]).joins [0, 1] () := by
  have returned : ∃ result, performQuery (nestedLoops (linkedTables [7])) []
      (selfColumnQuery [7]).joins [0, 1] () = .ok result := ⟨_, rfl⟩
  have isFiltered : executeFilterPredicates naturalEstimator (selfColumnQuery [7]) =
      some (selfColumnQuery [7]) := rfl
  have isSet : setPriorities (combOf [0]) (selfColumnQuery [7]) = some [0, 1] := rfl
  rcases selfColumnQuery_planned [7] with
    ⟨joinGraph, hashTree, final, node, isGraph, isTree, ran, isNode, isSequence⟩
  have room := plannedQuery_scratch_iff naturalEstimator (nestedLoops (linkedTables [7]))
    (selfColumnQuery_executable [7]) (show 2 < 2 ^ 64 by decide) isFiltered isGraph isTree ran
    isNode isSequence isSet (show (nestedLoops (linkedTables [7])).Valid () from trivial)
  refine ⟨returned, room.mp fun fault => ?_⟩
  rcases returned with ⟨result, returned⟩
  cases returned.symm.trans fault

end JoinOperator.Executor
