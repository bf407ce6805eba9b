import JoinOperator.Planner.ConnectedSubsets

/-! # Plans for all relations of a query

The slot of all relations is the last one of the table. It stays empty if there
are more than ten relations, since every slot is found by single digits.
-/

namespace JoinOperator.Planner

open Foundation RadixJoin

theorem slotOf_range (n : Nat) : slotOf (Finset.range n) = 2 ^ n - 1 := by
  apply Nat.eq_of_testBit_eq
  intro r
  rw [Bool.eq_iff_iff, testBit_slotOf, Nat.testBit_two_pow_sub_one, Finset.mem_range,
    decide_eq_true_iff]

section ManyRelations

def Digits (comb : List Char) : Prop := ∀ c ∈ comb, charToInteger c < 10

theorem digits_decimal (n : Nat) : Digits (decimal n) := by
  intro c member
  rcases Char.isDigit_iff_toNat.mp (Nat.isDigit_of_mem_toDigits (by decide) (by decide) member)
    with ⟨low, high⟩
  have ten : '9'.toNat = '0'.toNat + 9 := rfl
  rw [charToInteger, wrapSub_of_le low]
  omega

theorem Digits.append {front rest : List Char} (digitsFront : Digits front)
    (digitsRest : Digits rest) : Digits (front ++ rest) := by
  intro c member
  rcases List.mem_append.mp member with member | member
  · exact digitsFront c member
  · exact digitsRest c member

theorem digits_getCombination {n r : Nat} {comb : List Char}
    (member : comb ∈ getCombination n r) : Digits comb := by
  rcases List.mem_map.mp member with ⟨data, _, rfl⟩
  intro c member
  rcases List.mem_flatMap.mp member with ⟨relation, _, member⟩
  exact digits_decimal relation c member

theorem combToIndex_lt {comb : List Char} (digits : Digits comb) : combToIndex comb < 2 ^ 10 := by
  have bound : ∀ index < 2 ^ 10, comb.foldl
      (fun index c => index ||| (1 <<< charToInteger c)) index < 2 ^ 10 := by
    induction comb with
    | nil => exact fun index below => below
    | cons c comb induction =>
        intro index below
        apply induction fun other member => digits other (by simp [member])
        apply Nat.or_lt_two_pow below
        rw [Nat.one_shiftLeft]
        exact Nat.pow_lt_pow_right (by decide) (digits c (by simp))
  exact bound 0 (by decide)

def Empty (slot : Nat) (hashTree : HashTree) : Prop :=
  ∀ node, hashTree[slot]? ≠ some (some node)

variable {slot index : Nat} {hashTree after : HashTree} {node : HTNode}

theorem Empty.write (empty : Empty slot hashTree) (other : index ≠ slot)
    (written : write hashTree index (some node) = some after) : Empty slot after := by
  intro found
  rw [RadixJoin.write] at written
  split at written
  · cases written
    rw [List.getElem?_set_ne other]
    exact empty found
  · cases written

theorem Empty.keepCheaper (empty : Empty slot hashTree) (other : index ≠ slot)
    (ran : keepCheaper hashTree index node = some after) : Empty slot after := by
  rcases Option.bind_eq_some_iff.mp ran with ⟨old, _, ran⟩
  cases old with
  | none => exact empty.write other ran
  | some old =>
      by_cases cheaper : old.cost > node.cost
      · exact empty.write other ((if_pos cheaper).symm.trans ran)
      · cases (if_neg cheaper).symm.trans ran
        exact empty

theorem Empty.extendPlan {estimator : Estimator} {joinGraph : Graph} {comb : List Char} {r : Nat}
    (empty : Empty slot hashTree) (digits : Digits comb) (large : 2 ^ 10 ≤ slot)
    (ran : extendPlan estimator joinGraph comb hashTree r = some after) : Empty slot after := by
  rw [Planner.extendPlan] at ran
  split at ran
  · cases ran
    exact empty
  · rcases Option.bind_eq_some_iff.mp ran with ⟨found, _, ran⟩
    cases found with
    | none =>
        cases ran
        exact empty
    | some connection =>
        rcases Option.bind_eq_some_iff.mp ran with ⟨ht1, _, ran⟩
        cases ht1 with
        | none =>
            cases ran
            exact empty
        | some ht1 =>
            rcases Option.bind_eq_some_iff.mp ran with ⟨ht2, _, ran⟩
            rcases Option.bind_eq_some_iff.mp ran with ⟨node, _, ran⟩
            apply empty.keepCheaper _ ran
            have below := combToIndex_lt (digits.append (digits_decimal r))
            omega

theorem joinEnumeration_empty {estimator : Estimator} {joinGraph : Graph} {q : Query}
    (large : 2 ^ 10 ≤ slot) (empty : Empty slot hashTree)
    (ran : joinEnumeration estimator hashTree q joinGraph = some after) : Empty slot after := by
  apply foldlM_some_invariant (Empty slot) _ empty ran
  intro size _ hashTree after empty ran
  rw [enumerateSize] at ran
  split at ran
  · cases ran
  · apply foldlM_some_invariant (Empty slot) _ empty ran
    intro s _ hashTree after empty ran
    rcases Option.bind_eq_some_iff.mp ran with ⟨comb, getComb, ran⟩
    apply foldlM_some_invariant (Empty slot) _ empty ran
    intro r _ hashTree after empty ran
    exact empty.extendPlan (digits_getCombination (List.mem_of_getElem? getComb)) large ran

theorem initialiseHashTree_empty {q : Query} {relArr : List Relationsheep} {size : Nat}
    (singles : ∀ i < q.numOfRels, 1 <<< i ≠ slot)
    (ran : initialiseHashTree size q relArr = some hashTree) : Empty slot hashTree := by
  apply foldlM_some_invariant (Empty slot) _ _ ran
  · intro i member hashTree after empty ran
    rcases Option.bind_eq_some_iff.mp ran with ⟨rel, _, ran⟩
    rcases Option.bind_eq_some_iff.mp ran with ⟨relation, _, ran⟩
    rcases Option.bind_eq_some_iff.mp ran with ⟨node, _, ran⟩
    exact empty.write (singles i (List.mem_range.mp member)) ran
  · intro node get
    cases List.eq_of_mem_replicate (List.mem_of_getElem? get)

end ManyRelations

/-- With more than ten relations, there is no plan for all of them. -/
theorem numOfRels_le_of_plan {estimator : Estimator} {relArr : List Relationsheep} {q : Query}
    {joinGraph : Graph} {hashTree final : HashTree} {node : HTNode}
    (isTree : initialiseHashTree (2 ^ q.numOfRels) q relArr = some hashTree)
    (ran : joinEnumeration estimator hashTree q joinGraph = some final)
    (isNode : final[2 ^ q.numOfRels - 1]? = some (some node)) : q.numOfRels ≤ 10 := by
  by_contra tooMany
  have large : 2 ^ 11 ≤ 2 ^ q.numOfRels := Nat.pow_le_pow_right (by decide) (by omega)
  have empty : Empty (2 ^ q.numOfRels - 1) hashTree := by
    apply initialiseHashTree_empty _ isTree
    intro i below
    rw [Nat.one_shiftLeft]
    have half : 2 ^ i ≤ 2 ^ (q.numOfRels - 1) := Nat.pow_le_pow_right (by decide) (by omega)
    have double : 2 ^ q.numOfRels = 2 ^ (q.numOfRels - 1) * 2 := by
      rw [← Nat.pow_succ]
      congr 1
      omega
    omega
  exact joinEnumeration_empty (by omega) empty ran node isNode

theorem fullPlan_spec {estimator : Estimator} {relArr : List Relationsheep} {q : Query}
    (wellFormed : q.WellFormed relArr) (many : 2 ≤ q.numOfRels) {joinGraph : Graph}
    {hashTree final : HashTree} {node : HTNode} {sequence : List Char}
    (isGraph : constructGraph (initialiseGraph q.numOfRels) q = some joinGraph)
    (isTree : initialiseHashTree (2 ^ q.numOfRels) q relArr = some hashTree)
    (ran : joinEnumeration estimator hashTree q joinGraph = some final)
    (isNode : final[2 ^ q.numOfRels - 1]? = some (some node))
    (isSequence : node.joinSeq = some sequence) :
    ∃ order ids, LeftDeep q.joins order ids ∧ sequence = combOf ids ∧ ids ≠ [] := by
  have few := numOfRels_le_of_plan isTree ran isNode
  have tree := (enumerated_spec wellFormed many few isGraph isTree ran).1
  rw [← slotOf_range] at isNode
  rcases tree.plan isNode with ⟨order, ids, isPlan, relations⟩
  have joinSeq := isPlan.joinSeq
  rw [isSequence, joinSeqOf] at joinSeq
  split at joinSeq
  · cases joinSeq
  · rename_i nonempty
    exact ⟨order, ids, isPlan.leftDeep, Option.some.inj joinSeq, nonempty⟩

/-- The enumeration ends, and a connected query has a plan for all of its relations. -/
theorem exists_fullPlan (estimator : Estimator) {relArr : List Relationsheep} {q : Query}
    (wellFormed : q.WellFormed relArr) (many : 2 ≤ q.numOfRels) (few : q.numOfRels ≤ 10)
    (connected : ConnectedOn (queryGraph q.joins) (Finset.range q.numOfRels)) :
    ∃ joinGraph hashTree final node order ids,
      constructGraph (initialiseGraph q.numOfRels) q = some joinGraph ∧
      initialiseHashTree (2 ^ q.numOfRels) q relArr = some hashTree ∧
      joinEnumeration estimator hashTree q joinGraph = some final ∧
      final[2 ^ q.numOfRels - 1]? = some (some node) ∧ node.joinSeq = some (combOf ids) ∧
      LeftDeep q.joins order ids ∧ (∀ r, r ∈ order ↔ r < q.numOfRels) ∧
      ids.length + 1 = q.numOfRels := by
  rcases joinEnumeration_spec estimator wellFormed many few with
    ⟨joinGraph, hashTree, final, isGraph, isTree, ran, tree, covers⟩
  have inside : ∀ r ∈ Finset.range q.numOfRels, r < q.numOfRels := fun r member =>
    Finset.mem_range.mp member
  have nonempty : (Finset.range q.numOfRels).Nonempty :=
    ⟨0, Finset.mem_range.mpr (by omega)⟩
  rcases covers _ nonempty inside (card_le_numOfRels inside) connected with ⟨node, isNode⟩
  rcases tree.plan isNode with ⟨order, ids, isPlan, relations⟩
  have length : ids.length + 1 = q.numOfRels := by
    have all := isPlan.leftDeep.length_ids relations
    rwa [Finset.card_range] at all
  have someId : ids ≠ [] := List.ne_nil_of_length_pos (by omega)
  have isSequence : node.joinSeq = some (combOf ids) := by
    rw [isPlan.joinSeq, joinSeqOf, if_neg someId]
    rfl
  have isOrder : ∀ r, r ∈ order ↔ r < q.numOfRels := by
    intro r
    rw [← List.mem_toFinset, relations, Finset.mem_range]
  rw [slotOf_range] at isNode
  exact ⟨joinGraph, hashTree, final, node, order, ids, isGraph, isTree, ran, isNode, isSequence,
    isPlan.leftDeep, isOrder, length⟩

end JoinOperator.Planner
