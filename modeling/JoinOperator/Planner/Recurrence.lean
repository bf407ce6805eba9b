import JoinOperator.Foundation.Relaxation
import JoinOperator.Planner.TotalPlanner

/-! # The recurrence that the enumeration solves

An iteration extends the plan for a set of relations by one relation. All plans for sets of one
size are final when the first of them is extended.
-/

namespace JoinOperator.Planner

open Foundation RadixJoin

def relationsIn (comb : List Char) : Finset Nat := (comb.map charToInteger).toFinset

def planOf (hashTree : HashTree) (S : Finset Nat) : Option HTNode := hashTree[slotOf S]?.join

structure Extension where
  previous : HTNode
  joinId : Nat
  node : HTNode

/-- The extension of the plan for the relations of `comb` by `r`, if they are connected. -/
def extension (estimator : Estimator) (joinGraph : Graph) (comb : List Char) (r : Nat)
    (plans : Finset Nat → Option HTNode) : Option Extension :=
  if existsInComb comb r then none
  else do
    let found ← areConnected joinGraph r comb
    let (connection, columns) ← found
    let previous ← plans (relationsIn comb)
    let single ← plans {r}
    let node ← createJoinTree estimator previous single (comb ++ decimal r) connection columns
    some ⟨previous, columns.joinId, node⟩

/-- The iterations of the three loops, as sets of relations with another relation. -/
def iterations (numRels : Nat) : List (List Char × Nat) :=
  (List.range' 1 (numRels - 1)).flatMap fun i =>
    (getCombination numRels i).flatMap fun comb => (List.range numRels).map fun r => (comb, r)

def runIteration (estimator : Estimator) (joinGraph : Graph) (hashTree : HashTree)
    (iteration : List Char × Nat) : Option HashTree :=
  extendPlan estimator joinGraph iteration.1 hashTree iteration.2

/-- The plan for `S` is the cheapest extension of the plan for a set without one relation. -/
structure Solves (estimator : Estimator) (joinGraph : Graph) (numRels : Nat)
    (plans : Finset Nat → Option HTNode) (S : Finset Nat) (node : HTNode) : Prop where
  least : ∀ r ∈ S, ∀ extended,
    extension estimator joinGraph (combOf (relationsOf numRels (S.erase r))) r plans =
      some extended → node.cost ≤ extended.node.cost
  attained : ∃ r ∈ S, ∃ extended,
    extension estimator joinGraph (combOf (relationsOf numRels (S.erase r))) r plans =
      some extended ∧ node.cost = extended.node.cost ∧
      node.joinSeq = some (extended.previous.joinSeq.getD [] ++ decimal extended.joinId)

/-! ## Iterations as steps of a relaxation -/

theorem extension_reads {estimator : Estimator} {joinGraph : Graph} {comb : List Char} {r : Nat}
    {plans others : Finset Nat → Option HTNode}
    (same : ∀ S ∈ [relationsIn comb, {r}], plans S = others S) :
    (extension estimator joinGraph comb r plans).map Extension.node =
      (extension estimator joinGraph comb r others).map Extension.node := by
  have previous := same (relationsIn comb) (by simp)
  have single := same {r} (by simp)
  rw [extension, extension, previous, single]

def extensionStep (estimator : Estimator) (joinGraph : Graph) (iteration : List Char × Nat) :
    Relaxation (Finset Nat) HTNode where
  sources := [relationsIn iteration.1, {iteration.2}]
  target := insert iteration.2 (relationsIn iteration.1)
  candidate plans :=
    (extension estimator joinGraph iteration.1 iteration.2 plans).map Extension.node
  reads := extension_reads

@[simp] theorem extensionStep_sources (estimator : Estimator) (joinGraph : Graph)
    (iteration : List Char × Nat) : (extensionStep estimator joinGraph iteration).sources =
      [relationsIn iteration.1, {iteration.2}] := rfl

@[simp] theorem extensionStep_target (estimator : Estimator) (joinGraph : Graph)
    (iteration : List Char × Nat) : (extensionStep estimator joinGraph iteration).target =
      insert iteration.2 (relationsIn iteration.1) := rfl

section Steps

variable {estimator : Estimator} {joinGraph : Graph} {hashTree after : HashTree}
variable {order : List Nat} {r : Nat} {S : Finset Nat} {node : HTNode}

theorem relationsIn_combOf (digits : ∀ s ∈ order, s < 10) :
    relationsIn (combOf order) = order.toFinset := by
  rw [relationsIn, map_charToInteger digits]

theorem planOf_write (written : write hashTree (slotOf S) (some node) = some after) :
    planOf after = Function.update (planOf hashTree) S (some node) := by
  rw [write] at written
  split at written
  · rename_i inside
    cases written
    funext T
    by_cases same : T = S
    · subst same
      rw [Function.update_self, planOf, List.getElem?_set_self inside, Option.join_some]
    · rw [Function.update_of_ne same, planOf, List.getElem?_set_ne, planOf]
      intro sameSlot
      exact same (slotOf_injective sameSlot).symm
  · cases written

theorem planOf_keepCheaper (kept : keepCheaper hashTree (slotOf S) node = some after) :
    planOf after = Function.update (planOf hashTree) S
      (some (Relaxation.cheaper HTNode.cost (planOf hashTree S) node)) := by
  rcases Option.bind_eq_some_iff.mp kept with ⟨slot, get, kept⟩
  have isPlan : planOf hashTree S = slot := by
    rw [planOf, get, Option.join_some]
  rw [isPlan]
  cases slot with
  | none => exact planOf_write kept
  | some old =>
      rw [Relaxation.cheaper]
      by_cases cheaper : old.cost > node.cost
      · rw [if_pos cheaper]
        exact planOf_write ((if_pos cheaper).symm.trans kept)
      · rw [if_neg cheaper, ← isPlan, Function.update_eq_self]
        cases (if_neg cheaper).symm.trans kept
        rfl

/-- An iteration changes the plans as a step of the relaxation does. -/
theorem planOf_extendPlan (digits : ∀ s ∈ order, s < 10) (digit : r < 10)
    (ran : extendPlan estimator joinGraph (combOf order) hashTree r = some after) :
    planOf after = Relaxation.relax HTNode.cost (planOf hashTree)
      (extensionStep estimator joinGraph (combOf order, r)) := by
  have slot : combToIndex (combOf order) = slotOf (relationsIn (combOf order)) := by
    rw [combToIndex_combOf digits, relationsIn_combOf digits]
  rw [extendPlan] at ran
  cases present : existsInComb (combOf order) r with
  | true =>
      rw [if_pos present] at ran
      cases ran
      rw [Relaxation.relax_of_none]
      simp [extensionStep, extension, present]
  | false =>
      rw [if_neg (by simp [present])] at ran
      rcases Option.bind_eq_some_iff.mp ran with ⟨found, isFound, ran⟩
      cases found with
      | none =>
          cases ran
          rw [Relaxation.relax_of_none]
          simp [extensionStep, extension, present, isFound]
      | some connection =>
          rcases Option.bind_eq_some_iff.mp ran with ⟨ht1, getPrevious, ran⟩
          rw [slot] at getPrevious
          have isPrevious : planOf hashTree (relationsIn (combOf order)) = ht1 := by
            rw [planOf, getPrevious, Option.join_some]
          cases ht1 with
          | none =>
              cases ran
              rw [Relaxation.relax_of_none]
              simp [extensionStep, extension, present, isFound, isPrevious]
          | some previous =>
              rcases Option.bind_eq_some_iff.mp ran with ⟨single, getSingle, ran⟩
              rcases Option.bind_eq_some_iff.mp ran with ⟨node, isNode, ran⟩
              have isSingle : planOf hashTree {r} = some single := by
                rw [planOf, slotOf_singleton, ← Nat.one_shiftLeft]
                exact getSingle
              rw [combToIndex_append_decimal digits digit, ← relationsIn_combOf digits] at ran
              rw [planOf_keepCheaper ran, Relaxation.relax_of_some]
              · rfl
              · simp [extensionStep, extension, present, isFound, isPrevious, isSingle, isNode]

theorem joinSeq_of_createJoinTree {ht1 ht2 : HTNode} {newComb : List Char} {connection : Nat}
    {columns : Connection}
    (created : createJoinTree estimator ht1 ht2 newComb connection columns = some node) :
    node.joinSeq = some (ht1.joinSeq.getD [] ++ decimal columns.joinId) := by
  rw [createJoinTree] at created
  simp only at created
  split at created
  · cases created
  · rcases Option.bind_eq_some_iff.mp created with ⟨statA, _, created⟩
    rcases Option.bind_eq_some_iff.mp created with ⟨statB, _, created⟩
    rcases Option.bind_eq_some_iff.mp created with ⟨a, _, created⟩
    rcases Option.bind_eq_some_iff.mp created with ⟨b, _, created⟩
    rcases Option.bind_eq_some_iff.mp created with ⟨filteredA, _, created⟩
    rcases Option.bind_eq_some_iff.mp created with ⟨fA, _, created⟩
    rcases Option.bind_eq_some_iff.mp created with ⟨filteredB, _, created⟩
    rcases Option.bind_eq_some_iff.mp created with ⟨joined, _, created⟩
    rcases Option.bind_eq_some_iff.mp created with ⟨jA, _, created⟩
    cases created
    cases ht1.joinSeq with
    | none => rfl
    | some joinSeq => rfl

theorem extension_eq_some {comb : List Char} {plans : Finset Nat → Option HTNode}
    {extended : Extension}
    (isExtended : extension estimator joinGraph comb r plans = some extended) :
    existsInComb comb r = false ∧ ∃ connection columns single,
      areConnected joinGraph r comb = some (some (connection, columns)) ∧
      plans (relationsIn comb) = some extended.previous ∧ plans {r} = some single ∧
      createJoinTree estimator extended.previous single (comb ++ decimal r) connection columns =
        some extended.node ∧ extended.joinId = columns.joinId := by
  rw [extension] at isExtended
  split at isExtended
  · cases isExtended
  · rename_i absent
    rcases Option.bind_eq_some_iff.mp isExtended with ⟨found, isFound, isExtended⟩
    rcases Option.bind_eq_some_iff.mp isExtended with ⟨⟨connection, columns⟩, isSome, isExtended⟩
    rcases Option.bind_eq_some_iff.mp isExtended with ⟨previous, isPrevious, isExtended⟩
    rcases Option.bind_eq_some_iff.mp isExtended with ⟨single, isSingle, isExtended⟩
    rcases Option.bind_eq_some_iff.mp isExtended with ⟨node, created, isExtended⟩
    cases isExtended
    rw [isSome] at isFound
    exact ⟨by simpa using absent, connection, columns, single, isFound, isPrevious, isSingle,
      created, rfl⟩

theorem extension_joinSeq {comb : List Char} {plans : Finset Nat → Option HTNode}
    {extended : Extension}
    (isExtended : extension estimator joinGraph comb r plans = some extended) :
    extended.node.joinSeq =
      some (extended.previous.joinSeq.getD [] ++ decimal extended.joinId) := by
  rcases extension_eq_some isExtended with ⟨_, _, columns, _, _, _, _, created, isId⟩
  rw [isId]
  exact joinSeq_of_createJoinTree created

end Steps

/-! ## The order of the iterations -/

section Iterations

variable {estimator : Estimator} {joinGraph : Graph} {numRels : Nat}
variable {iteration : List Char × Nat} {iterated : List (List Char × Nat)}

/-- The combinations are the sets of relations in increasing order. -/
theorem eq_relationsOf {order : List Nat} (sublist : order.Sublist (List.range numRels)) :
    order = relationsOf numRels order.toFinset := by
  have sorted : order.Pairwise (· < ·) := List.pairwise_lt_range.sublist sublist
  have sortedSet : (relationsOf numRels order.toFinset).Pairwise (· < ·) :=
    List.pairwise_lt_range.sublist List.filter_sublist
  have inside : ∀ r ∈ order.toFinset, r < numRels := fun r member =>
    List.mem_range.mp (sublist.subset (List.mem_toFinset.mp member))
  apply List.Perm.eq_of_pairwise' sorted sortedSet
  have nodup : (relationsOf numRels order.toFinset).Nodup := List.nodup_range.filter _
  apply (List.perm_ext_iff_of_nodup (List.nodup_range.sublist sublist) nodup).mpr
  intro r
  rw [mem_relationsOf inside, List.mem_toFinset]

theorem mem_iterations (member : iteration ∈ iterations numRels) :
    ∃ S : Finset Nat, iteration.1 = combOf (relationsOf numRels S) ∧ 0 < S.card ∧
      (∀ r ∈ S, r < numRels) ∧ iteration.2 < numRels := by
  rcases List.mem_flatMap.mp member with ⟨i, isSize, member⟩
  rcases List.mem_flatMap.mp member with ⟨comb, isComb, member⟩
  rcases List.mem_map.mp member with ⟨r, isRelation, rfl⟩
  rw [getCombination_eq] at isComb
  rcases List.mem_map.mp isComb with ⟨order, listed, rfl⟩
  rcases List.mem_sublistsLen.mp (List.mem_reverse.mp listed) with ⟨sublist, length⟩
  have positive := (List.mem_range'_1.mp isSize).1
  have nodup : order.Nodup := List.nodup_range.sublist sublist
  refine ⟨order.toFinset, congrArg combOf (eq_relationsOf sublist), ?_, ?_,
    List.mem_range.mp isRelation⟩
  · rw [List.toFinset_card_of_nodup nodup, length]
    exact positive
  · intro s member
    exact List.mem_range.mp (sublist.subset (List.mem_toFinset.mp member))

theorem iteration_mem {S : Finset Nat} {r : Nat} (nonempty : 0 < S.card)
    (insideAll : ∀ s ∈ S, s < numRels) (inside : r < numRels) (absent : r ∉ S) :
    (combOf (relationsOf numRels S), r) ∈ iterations numRels := by
  have more : S.card + 1 ≤ numRels := by
    rw [← Finset.card_insert_of_notMem absent]
    have subset : insert r S ⊆ Finset.range numRels := by
      intro s member
      rw [Finset.mem_range]
      cases Finset.mem_insert.mp member with
      | inl isNew => exact isNew ▸ inside
      | inr isOld => exact insideAll s isOld
    have atMost := Finset.card_le_card subset
    rwa [Finset.card_range] at atMost
  apply List.mem_flatMap.mpr
  refine ⟨S.card, List.mem_range'_1.mpr (by omega), List.mem_flatMap.mpr ⟨_,
    relationsOf_mem_getCombination insideAll, ?_⟩⟩
  exact List.mem_map_of_mem (List.mem_range.mpr inside)

theorem iterations_pairwise (few : numRels ≤ 10) : (iterations numRels).Pairwise
    fun iteration later => iteration.1.length ≤ later.1.length := by
  have sizes : ∀ i, ∀ iteration ∈ (getCombination numRels i).flatMap fun comb =>
      (List.range numRels).map fun r => (comb, r), iteration.1.length = i := by
    intro i iteration member
    rcases List.mem_flatMap.mp member with ⟨comb, isComb, member⟩
    rcases List.mem_map.mp member with ⟨r, _, rfl⟩
    rcases mem_getCombination isComb with ⟨order, rfl, _, length, inside⟩
    rw [length_combOf fun s member => Nat.lt_of_lt_of_le (inside s member) few]
    exact length
  rw [iterations, List.pairwise_flatMap]
  constructor
  · intro i _
    apply List.pairwise_of_forall_mem_list
    intro iteration member later isLater
    rw [sizes i iteration member, sizes i later isLater]
  · apply (List.pairwise_lt_range' 1).imp
    intro i j smaller iteration member later isLater
    rw [sizes i iteration member, sizes j later isLater]
    exact Nat.le_of_lt smaller

theorem keeps_smaller {S T : Finset Nat} {r : Nat} (digits : ∀ s ∈ S, s < numRels)
    (few : numRels ≤ 10) (notLarger : T.card ≤ S.card) :
    Relaxation.Keeps HTNode.cost T
      (extensionStep estimator joinGraph (combOf (relationsOf numRels S), r)) := by
  have small : ∀ s ∈ relationsOf numRels S, s < 10 := fun s member =>
    Nat.lt_of_lt_of_le (digits s ((mem_relationsOf digits).mp member)) few
  by_cases present : r ∈ S
  · apply Relaxation.keeps_of_none
    intro plans
    have listed : existsInComb (combOf (relationsOf numRels S)) r = true := by
      rw [existsInComb_combOf small, decide_eq_true_iff, mem_relationsOf digits]
      exact present
    simp [extensionStep, extension, listed]
  · apply Relaxation.keeps_of_ne
    intro isTarget
    rw [isTarget, extensionStep_target, relationsIn_combOf small, toFinset_relationsOf digits,
      Finset.card_insert_of_notMem present] at notLarger
    omega

theorem iterations_ordered (few : numRels ≤ 10) : Relaxation.Ordered HTNode.cost
    ((iterations numRels).map (extensionStep estimator joinGraph)) := by
  -- neither source of an iteration is larger than the set of a later one
  have keeps : ∀ iteration ∈ iterations numRels, ∀ later ∈ iterations numRels,
      iteration.1.length ≤ later.1.length →
      ∀ T ∈ (extensionStep estimator joinGraph iteration).sources,
        Relaxation.Keeps HTNode.cost T (extensionStep estimator joinGraph later) := by
    intro iteration member later isLater notLarger T isSource
    rcases mem_iterations member with ⟨S, isComb, _, inside, _⟩
    rcases mem_iterations isLater with ⟨larger, isLargerComb, nonempty, insideLarger, _⟩
    have small {set : Finset Nat} (insideSet : ∀ s ∈ set, s < numRels) :
        ∀ s ∈ relationsOf numRels set, s < 10 := fun s inSet =>
      Nat.lt_of_lt_of_le (insideSet s ((mem_relationsOf insideSet).mp inSet)) few
    rw [isComb, isLargerComb, length_combOf (small inside), length_combOf (small insideLarger),
      length_relationsOf inside, length_relationsOf insideLarger] at notLarger
    have isStep : later = (combOf (relationsOf numRels larger), later.2) := by
      rw [← isLargerComb]
    rw [isStep]
    apply keeps_smaller insideLarger few
    rw [extensionStep_sources, isComb, relationsIn_combOf (small inside),
      toFinset_relationsOf inside] at isSource
    cases List.mem_cons.mp isSource with
    | inl isSet =>
        rw [isSet]
        exact notLarger
    | inr isSingle =>
        rw [List.mem_singleton.mp isSingle, Finset.card_singleton]
        exact nonempty
  constructor
  · intro step member
    rcases List.mem_map.mp member with ⟨iteration, isIteration, rfl⟩
    exact keeps iteration isIteration iteration isIteration (Nat.le_refl _)
  · rw [List.pairwise_map]
    apply (iterations_pairwise few).imp_of_mem
    intro iteration later member isLater notLarger
    exact keeps iteration member later isLater notLarger

theorem enumerateSize_eq (few : numRels ≤ 10) {size : Nat} (atMost : size ≤ numRels)
    (hashTree : HashTree) : enumerateSize estimator numRels joinGraph hashTree size =
      (getCombination numRels size).foldlM (fun hashTree comb =>
        (List.range numRels).foldlM (extendPlan estimator joinGraph comb) hashTree) hashTree := by
  have numCombs := numCombs_eq numRels few size atMost
  rw [← length_getCombination] at numCombs
  rw [enumerateSize, numCombs, if_neg (Nat.lt_irrefl _)]
  exact foldlM_getElem? (fun hashTree comb =>
    (List.range numRels).foldlM (extendPlan estimator joinGraph comb) hashTree) _ hashTree

theorem joinEnumeration_eq {q : Query} (few : q.numOfRels ≤ 10) (hashTree : HashTree) :
    joinEnumeration estimator hashTree q joinGraph =
      (iterations q.numOfRels).foldlM (runIteration estimator joinGraph) hashTree := by
  rw [joinEnumeration, iterations, foldlM_flatMap]
  apply foldlM_congr
  intro size isSize hashTree
  have atMost : size ≤ q.numOfRels := by
    have bounds := List.mem_range'_1.mp isSize
    omega
  rw [enumerateSize_eq few atMost, foldlM_flatMap]
  apply foldlM_congr
  intro comb _ hashTree
  rw [List.foldlM_map]
  rfl

theorem planOf_iterations (few : numRels ≤ 10) (sublist : iterated.Sublist (iterations numRels))
    {hashTree after : HashTree}
    (ran : iterated.foldlM (runIteration estimator joinGraph) hashTree = some after) :
    planOf after = Relaxation.run HTNode.cost
      (iterated.map (extensionStep estimator joinGraph)) (planOf hashTree) := by
  rw [Relaxation.run, List.foldl_map]
  refine foldlM_some_foldl planOf (fun plans iteration => Relaxation.relax HTNode.cost plans
    (extensionStep estimator joinGraph iteration)) ?_ ran
  intro iteration member before next stepped
  rcases mem_iterations (sublist.subset member) with ⟨S, isComb, _, inside, below⟩
  have isIteration : iteration = (combOf (relationsOf numRels S), iteration.2) := by
    rw [← isComb]
  rw [isIteration] at stepped ⊢
  apply planOf_extendPlan _ (Nat.lt_of_lt_of_le below few) stepped
  intro s inSet
  exact Nat.lt_of_lt_of_le (inside s ((mem_relationsOf inside).mp inSet)) few

/-- From the iteration for a set on, the plan of the set stays as it is. -/
theorem planOf_settled (few : numRels ≤ 10) {before between rest : List (List Char × Nat)}
    (split : iterations numRels = before ++ iteration :: between ++ rest)
    {hashTree later : HashTree}
    (ran : (iteration :: between).foldlM (runIteration estimator joinGraph) hashTree = some later) :
    planOf later (relationsIn iteration.1) = planOf hashTree (relationsIn iteration.1) := by
  have sublist : (iteration :: between).Sublist (iterations numRels) := by
    rw [split, List.append_assoc]
    exact (List.sublist_append_left _ rest).trans (List.sublist_append_right before _)
  rw [planOf_iterations few sublist ran, List.map_cons]
  have ordered : Relaxation.Ordered HTNode.cost ((iteration :: between).map
      (extensionStep estimator joinGraph)) :=
    (iterations_ordered few).sublist (sublist.map _)
  rw [List.map_cons] at ordered
  apply ordered.source_eq
  simp

end Iterations

section Solutions

variable {estimator : Estimator} {relArr : List Relationsheep} {q : Query} {joinGraph : Graph}
variable {hashTree final : HashTree}

theorem planOf_initial (wellFormed : q.WellFormed relArr)
    (isTree : initialiseHashTree (2 ^ q.numOfRels) q relArr = some hashTree) {S : Finset Nat}
    (many : 2 ≤ S.card) : planOf hashTree S = none := by
  rcases initialiseHashTree_spec wellFormed with ⟨hashTree', isTree', tree, _⟩
  rw [isTree] at isTree'
  cases isTree'
  cases isPlan : planOf hashTree S with
  | none => rfl
  | some node =>
      have get := Option.join_eq_some_iff.mp isPlan
      rcases tree.plan get with ⟨order, ids, plan, relations⟩
      have noSequence := noSequence_initialiseHashTree isTree _ _ get
      rw [plan.joinSeq, joinSeqOf] at noSequence
      split at noSequence
      · rename_i noIds
        have length := plan.leftDeep.length_ids relations
        rw [noIds, List.length_nil] at length
        omega
      · cases noSequence

theorem digits_relationsOf (few : q.numOfRels ≤ 10) {S : Finset Nat}
    (inside : ∀ r ∈ S, r < q.numOfRels) : ∀ r ∈ relationsOf q.numOfRels S, r < 10 :=
  fun r member => Nat.lt_of_lt_of_le (inside r ((mem_relationsOf inside).mp member)) few

theorem cost_le_of_extension (few : q.numOfRels ≤ 10)
    (ran : joinEnumeration estimator hashTree q joinGraph = some final) {S : Finset Nat}
    (inside : ∀ r ∈ S, r < q.numOfRels) (many : 2 ≤ S.card) {node : HTNode}
    (isPlan : planOf final S = some node) {r : Nat} (member : r ∈ S) {extended : Extension}
    (isExtended : extension estimator joinGraph (combOf (relationsOf q.numOfRels (S.erase r))) r
      (planOf final) = some extended) : node.cost ≤ extended.node.cost := by
  rw [joinEnumeration_eq few] at ran
  have isRun := planOf_iterations few (List.Sublist.refl _) ran
  have insideRest : ∀ s ∈ S.erase r, s < q.numOfRels := fun s member =>
    inside s (Finset.mem_of_mem_erase member)
  have nonempty : 0 < (S.erase r).card := by
    rw [Finset.card_erase_of_mem member]
    omega
  have isIteration := iteration_mem nonempty insideRest (inside r member)
    (Finset.notMem_erase r S)
  have isCandidate : (extensionStep estimator joinGraph
      (combOf (relationsOf q.numOfRels (S.erase r)), r)).candidate (planOf final) =
      some extended.node :=
    congrArg (Option.map Extension.node) isExtended
  rw [isRun] at isCandidate
  rcases (iterations_ordered few).run_least (List.mem_map_of_mem isIteration) isCandidate with
    ⟨best, getBest, cheapest⟩
  rw [← isRun, extensionStep_target, relationsIn_combOf (digits_relationsOf few insideRest),
    toFinset_relationsOf insideRest, Finset.insert_erase member, isPlan] at getBest
  cases getBest
  exact cheapest

/-- The plan of two or more relations is an extension of the plan of a set without one of them. -/
theorem exists_extension (few : q.numOfRels ≤ 10)
    (initial : ∀ S : Finset Nat, 2 ≤ S.card → planOf hashTree S = none)
    (ran : joinEnumeration estimator hashTree q joinGraph = some final) {S : Finset Nat}
    (many : 2 ≤ S.card) {node : HTNode} (isPlan : planOf final S = some node) :
    ∃ r ∈ S, ∃ extended, extension estimator joinGraph
      (combOf (relationsOf q.numOfRels (S.erase r))) r (planOf final) = some extended ∧
      extended.node = node := by
  rw [joinEnumeration_eq few] at ran
  have isRun := planOf_iterations few (List.Sublist.refl _) ran
  rw [isRun] at isPlan
  cases (iterations_ordered few).run_attained isPlan with
  | inl before =>
      rw [initial S many] at before
      cases before
  | inr isStep =>
      rcases isStep with ⟨step, isMapped, isTarget, isCandidate⟩
      rcases List.mem_map.mp isMapped with ⟨iteration, isIteration, rfl⟩
      rcases mem_iterations isIteration with ⟨T, isComb, _, inside, _⟩
      rcases Option.map_eq_some_iff.mp isCandidate with ⟨extended, isExtended, isNode⟩
      rw [← isRun] at isExtended
      have absent := (extension_eq_some isExtended).1
      rw [isComb, existsInComb_combOf (digits_relationsOf few inside), decide_eq_false_iff_not,
        mem_relationsOf inside] at absent
      rw [extensionStep_target, isComb, relationsIn_combOf (digits_relationsOf few inside),
        toFinset_relationsOf inside] at isTarget
      have isRest : S.erase iteration.2 = T := by
        rw [← isTarget, Finset.erase_insert absent]
      refine ⟨iteration.2, isTarget ▸ Finset.mem_insert_self _ T, extended, ?_, isNode⟩
      rw [isRest, ← isComb]
      exact isExtended

theorem solves_of_plan (few : q.numOfRels ≤ 10)
    (initial : ∀ S : Finset Nat, 2 ≤ S.card → planOf hashTree S = none)
    (ran : joinEnumeration estimator hashTree q joinGraph = some final) {S : Finset Nat}
    (inside : ∀ r ∈ S, r < q.numOfRels) (many : 2 ≤ S.card) {node : HTNode}
    (isPlan : planOf final S = some node) :
    Solves estimator joinGraph q.numOfRels (planOf final) S node := by
  constructor
  · intro r member extended isExtended
    exact cost_le_of_extension few ran inside many isPlan member isExtended
  · rcases exists_extension few initial ran many isPlan with
      ⟨r, member, extended, isExtended, rfl⟩
    exact ⟨r, member, extended, isExtended, rfl, extension_joinSeq isExtended⟩

end Solutions

/-- The enumeration solves its recurrence, and no plan of a set changes any more from the first
iteration for that set on. -/
theorem joinEnumeration_recurrence (estimator : Estimator) {relArr : List Relationsheep}
    {q : Query} (wellFormed : q.WellFormed relArr) (many : 2 ≤ q.numOfRels)
    (few : q.numOfRels ≤ 10) :
    ∃ joinGraph hashTree final,
      constructGraph (initialiseGraph q.numOfRels) q = some joinGraph ∧
      initialiseHashTree (2 ^ q.numOfRels) q relArr = some hashTree ∧
      joinEnumeration estimator hashTree q joinGraph = some final ∧
      (∀ S : Finset Nat, (∀ r ∈ S, r < q.numOfRels) → 2 ≤ S.card →
        ∀ node, planOf final S = some node →
          Solves estimator joinGraph q.numOfRels (planOf final) S node) ∧
      (iterations q.numOfRels).foldlM (runIteration estimator joinGraph) hashTree = some final ∧
      ∀ before iteration between rest,
        iterations q.numOfRels = before ++ iteration :: between ++ rest →
        ∀ state later, before.foldlM (runIteration estimator joinGraph) hashTree = some state →
          (iteration :: between).foldlM (runIteration estimator joinGraph) state = some later →
          planOf later (relationsIn iteration.1) = planOf state (relationsIn iteration.1) := by
  rcases joinEnumeration_spec estimator wellFormed many few with
    ⟨joinGraph, hashTree, final, isGraph, isTree, ran, _⟩
  refine ⟨joinGraph, hashTree, final, isGraph, isTree, ran, ?_, ?_, ?_⟩
  · intro S inside manyRelations node isPlan
    exact solves_of_plan few (fun T => planOf_initial wellFormed isTree) ran inside
      manyRelations isPlan
  · rw [← joinEnumeration_eq few]
    exact ran
  · intro before iteration between rest split state later _ ranBetween
    exact planOf_settled few split ranBetween

theorem joinEnumeration_recurrence_linkQuery : ∃ joinGraph hashTree final node,
    constructGraph (initialiseGraph 2) linkQuery = some joinGraph ∧
      initialiseHashTree (2 ^ 2) linkQuery twoRelations = some hashTree ∧
      joinEnumeration naturalEstimator hashTree linkQuery joinGraph = some final ∧
      planOf final {0, 1} = some node ∧
      Solves naturalEstimator joinGraph 2 (planOf final) {0, 1} node := by
  rcases joinEnumeration_recurrence naturalEstimator linkQuery_wellFormed (by decide) (by decide)
    with ⟨joinGraph, hashTree, final, isGraph, isTree, ran, solves, _⟩
  have covers := (enumerated_spec linkQuery_wellFormed (by decide) (by decide) isGraph isTree ran).2
  rcases covers {0, 1} ⟨0, by decide⟩ (by decide) (by decide) linkQuery_connected with
    ⟨node, get⟩
  have isPlan : planOf final {0, 1} = some node := by
    rw [planOf, get, Option.join_some]
  exact ⟨joinGraph, hashTree, final, node, isGraph, isTree, ran, isPlan,
    solves {0, 1} (by decide) (by decide) node isPlan⟩

end JoinOperator.Planner
