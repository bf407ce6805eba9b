import JoinOperator.Planner.CombinationLists
import JoinOperator.Planner.Plans

/-! # Plans for exactly the connected sets of relations -/

namespace JoinOperator.Planner

open Foundation RadixJoin

/-- Every node of the table is a plan for the relations of its slot. -/
structure TreeOf (relArr : List Relationsheep) (q : Query) (hashTree : HashTree) : Prop where
  length : hashTree.length = 2 ^ q.numOfRels
  plans : ∀ (slot : Nat) (node : HTNode), hashTree[slot]? = some (some node) →
    ∃ order ids, IsPlan relArr q node order ids ∧ slotOf order.toFinset = slot

def HasPlan (hashTree : HashTree) (S : Finset Nat) : Prop :=
  ∃ node, hashTree[slotOf S]? = some (some node)

def Grows (hashTree after : HashTree) : Prop :=
  ∀ S, HasPlan hashTree S → HasPlan after S

section Trees

variable {relArr : List Relationsheep} {q : Query} {hashTree : HashTree}

theorem TreeOf.read (tree : TreeOf relArr q hashTree) {S : Finset Nat}
    (inside : ∀ r ∈ S, r < q.numOfRels) : ∃ slot, hashTree[slotOf S]? = some slot := by
  have bound : slotOf S < hashTree.length := by
    rw [tree.length]
    exact slotOf_lt inside
  exact ⟨_, List.getElem?_eq_getElem bound⟩

theorem TreeOf.plan (tree : TreeOf relArr q hashTree) {S : Finset Nat} {node : HTNode}
    (get : hashTree[slotOf S]? = some (some node)) :
    ∃ order ids, IsPlan relArr q node order ids ∧ order.toFinset = S := by
  rcases tree.plans _ node get with ⟨order, ids, isPlan, slot⟩
  exact ⟨order, ids, isPlan, slotOf_injective slot⟩

theorem TreeOf.put (tree : TreeOf relArr q hashTree) {node : HTNode} {order ids : List Nat}
    (isPlan : IsPlan relArr q node order ids) :
    ∃ after, write hashTree (slotOf order.toFinset) (some node) = some after ∧
      TreeOf relArr q after ∧ Grows hashTree after ∧ HasPlan after order.toFinset := by
  have bound : slotOf order.toFinset < hashTree.length := by
    rw [tree.length]
    exact slotOf_lt fun r member => isPlan.inside r (List.mem_toFinset.mp member)
  refine ⟨_, write_of_lt bound _, ⟨(List.length_set ..).trans tree.length, ?_⟩, ?_,
    node, List.getElem?_set_self bound⟩
  · intro slot other get
    by_cases same : slotOf order.toFinset = slot
    · subst same
      rw [List.getElem?_set_self bound] at get
      cases get
      exact ⟨order, ids, isPlan, rfl⟩
    · rw [List.getElem?_set_ne same] at get
      exact tree.plans slot other get
  · rintro S ⟨other, get⟩
    by_cases same : slotOf order.toFinset = slotOf S
    · exact ⟨node, same ▸ List.getElem?_set_self bound⟩
    · exact ⟨other, (List.getElem?_set_ne same).trans get⟩

theorem initialiseHTNode_spec (wellFormed : q.WellFormed relArr) {rel : Nat}
    (inside : rel < q.numOfRels) : ∃ cols node, q.colsOf relArr rel = some cols ∧
      initialiseHTNode q rel cols = some node ∧ IsPlan relArr q node [rel] [] := by
  rcases wellFormed.stats rel inside with ⟨columns, getColumns, cols, some_column⟩
  refine ⟨columns.length, ⟨[⟨columns, rel⟩], 1, decimal rel ++ [' '], columns[0].numElements,
    none⟩, cols, ?_, .single rel, rfl, ?_, ?_, rfl, rfl⟩
  · simp only [initialiseHTNode, getColumns, mapM_getElem?, Option.bind_eq_bind, Option.bind_some,
      List.getElem?_eq_getElem some_column]
  · intro other member
    rw [List.mem_singleton.mp member]
    exact inside
  · intro s member
    rw [List.mem_singleton.mp member]
    exact cols

theorem initialiseHashTree_spec (wellFormed : q.WellFormed relArr) :
    ∃ hashTree, initialiseHashTree (2 ^ q.numOfRels) q relArr = some hashTree ∧
      TreeOf relArr q hashTree ∧ ∀ r < q.numOfRels, HasPlan hashTree {r} := by
  apply foldlM_range_invariant fun count hashTree =>
    TreeOf relArr q hashTree ∧ ∀ r < count, HasPlan hashTree {r}
  · refine ⟨⟨List.length_replicate, ?_⟩, by simp⟩
    intro slot node get
    cases List.eq_of_mem_replicate (List.mem_of_getElem? get)
  · rintro rel below hashTree ⟨tree, singles⟩
    rcases initialiseHTNode_spec wellFormed below with ⟨cols, node, isCols, isNode, isPlan⟩
    rcases Option.bind_eq_some_iff.mp isCols with ⟨real, getReal, inRelation⟩
    rcases Option.bind_eq_some_iff.mp inRelation with ⟨relation, getRelation, sameCols⟩
    cases sameCols
    rcases tree.put isPlan with ⟨after, written, afterTree, grows, hasPlan⟩
    have slot : slotOf [rel].toFinset = 1 <<< rel := by
      rw [List.toFinset_cons, List.toFinset_nil, insert_empty_eq, slotOf_singleton,
        Nat.one_shiftLeft]
    refine ⟨after, ?_, afterTree, ?_⟩
    · simp only [initialiseSlot, getReal, getRelation, isNode, Option.bind_eq_bind,
        Option.bind_some, ← slot]
      exact written
    · intro r belowNext
      by_cases last : r = rel
      · subst last
        exact hasPlan
      · exact grows _ (singles r (by omega))

/-- All connected sets of up to `size` relations have plans. -/
def Covers (q : Query) (size : Nat) (hashTree : HashTree) : Prop :=
  ∀ S : Finset Nat, S.Nonempty → (∀ r ∈ S, r < q.numOfRels) → S.card ≤ size →
    ConnectedOn (queryGraph q.joins) S → HasPlan hashTree S

def Extends (q : Query) (S : Finset Nat) (r : Nat) (hashTree : HashTree) : Prop :=
  ConnectedOn (queryGraph q.joins) S → r ∉ S → (∃ s ∈ S, (queryGraph q.joins).Adj s r) →
    HasPlan hashTree (insert r S)

theorem Grows.covers {after : HashTree} (grows : Grows hashTree after) {size : Nat}
    (covers : Covers q size hashTree) : Covers q size after :=
  fun S nonempty inside few connected => grows S (covers S nonempty inside few connected)

theorem toFinset_append_singleton (order : List Nat) (r : Nat) :
    (order ++ [r]).toFinset = insert r order.toFinset := by
  rw [List.toFinset_append, Finset.union_comm]
  rfl

/-- The slot of the string to which a relation is appended. -/
theorem combToIndex_append_decimal {order : List Nat} {r : Nat} (digits : ∀ s ∈ order, s < 10)
    (digit : r < 10) :
    combToIndex (combOf order ++ decimal r) = slotOf (insert r order.toFinset) := by
  rw [← combOf_singleton, ← combOf_append, combToIndex_combOf, toFinset_append_singleton]
  intro s member
  rcases List.mem_append.mp member with inOrder | isLast
  · exact digits s inOrder
  · rw [List.mem_singleton.mp isLast]
    exact digit

theorem existsInComb_combOf {order : List Nat} (digits : ∀ r ∈ order, r < 10) (r : Nat) :
    existsInComb (combOf order) r = decide (r ∈ order) := by
  have values : existsInComb (combOf order) r =
      ((combOf order).map charToInteger).any (· = r) := by
    rw [existsInComb, List.any_map]
    rfl
  rw [values, map_charToInteger digits, Bool.eq_iff_iff, List.any_eq_true, decide_eq_true_iff]
  simp

theorem keepCheaper_spec (tree : TreeOf relArr q hashTree) {node : HTNode}
    {order ids : List Nat} (isPlan : IsPlan relArr q node order ids) :
    ∃ after, keepCheaper hashTree (slotOf order.toFinset) node = some after ∧
      TreeOf relArr q after ∧ Grows hashTree after ∧ HasPlan after order.toFinset := by
  rcases tree.put isPlan with ⟨after, written, afterTree, grows, hasPlan⟩
  rcases tree.read fun r member => isPlan.inside r (List.mem_toFinset.mp member) with
    ⟨slot, get⟩
  rw [keepCheaper, get]
  simp only [Option.bind_eq_bind, Option.bind_some]
  cases slot with
  | none => exact ⟨after, written, afterTree, grows, hasPlan⟩
  | some old =>
      by_cases cheaper : old.cost > node.cost
      · exact ⟨after, (if_pos cheaper).trans written, afterTree, grows, hasPlan⟩
      · exact ⟨hashTree, if_neg cheaper, tree, fun _ hasPlan => hasPlan, old, get⟩

theorem TreeOf.single (tree : TreeOf relArr q hashTree) {r : Nat}
    (hasPlan : HasPlan hashTree {r}) : ∃ node, hashTree[1 <<< r]? = some (some node) ∧
      IsPlan relArr q node [r] [] := by
  rcases hasPlan with ⟨node, get⟩
  rcases tree.plan get with ⟨order, ids, isPlan, relations⟩
  have alone : order = [r] := by
    have length : order.length = 1 := by
      rw [← List.toFinset_card_of_nodup isPlan.leftDeep.nodup, relations]
      exact Finset.card_singleton r
    rcases List.length_eq_one_iff.mp length with ⟨other, rfl⟩
    have member : other ∈ ({r} : Finset Nat) := by
      rw [← relations]
      simp
    rw [Finset.mem_singleton.mp member]
  subst alone
  have noIds : ids = [] := by
    have length := isPlan.leftDeep.length
    exact List.eq_nil_of_length_eq_zero (Nat.succ_injective length).symm
  subst noIds
  rw [slotOf_singleton] at get
  rw [Nat.one_shiftLeft]
  exact ⟨node, get, isPlan⟩

/-- A set is extended by a relation that is linked to it. -/
theorem extendPlan_spec {estimator : Estimator} (wellFormed : q.WellFormed relArr)
    (few : q.numOfRels ≤ 10) {joinGraph : Graph}
    (constructed : Constructed q.joins q.numOfRels q.numOfJoins joinGraph) {size : Nat}
    (positive : 0 < size) (tree : TreeOf relArr q hashTree) (covers : Covers q size hashTree)
    {order : List Nat} (nodup : order.Nodup) (length : order.length = size)
    (insideAll : ∀ s ∈ order, s < q.numOfRels) {r : Nat} (inside : r < q.numOfRels) :
    ∃ after, extendPlan estimator joinGraph (combOf order) hashTree r = some after ∧
      (TreeOf relArr q after ∧ Covers q size after) ∧ Grows hashTree after ∧
      Extends q order.toFinset r after := by
  have digits : ∀ s ∈ order, s < 10 := fun s member =>
    Nat.lt_of_lt_of_le (insideAll s member) few
  have digit : r < 10 := Nat.lt_of_lt_of_le inside few
  rw [extendPlan, existsInComb_combOf digits]
  by_cases present : r ∈ order
  · rw [if_pos (decide_eq_true present)]
    refine ⟨hashTree, rfl, ⟨tree, covers⟩, fun _ hasPlan => hasPlan, ?_⟩
    intro _ absent
    exact absurd (List.mem_toFinset.mpr present) absent
  rw [if_neg (by simp [present])]
  rcases areConnected_spec constructed inside digits insideAll present with
    ⟨found, isFound, unlinked, linked⟩
  rw [isFound]
  simp only [Option.bind_eq_bind, Option.bind_some]
  cases found with
  | none =>
      refine ⟨hashTree, rfl, ⟨tree, covers⟩, fun _ hasPlan => hasPlan, ?_⟩
      rintro _ _ ⟨s, member, _, joinId, links⟩
      exact absurd links (unlinked rfl s (List.mem_toFinset.mp member) joinId)
  | some connection =>
      rcases connection with ⟨connection, columns⟩
      rcases linked connection columns rfl with ⟨covered, oriented⟩
      have insideSet : ∀ s ∈ order.toFinset, s < q.numOfRels := fun s member =>
        insideAll s (List.mem_toFinset.mp member)
      have card : order.toFinset.card = size := by
        rw [List.toFinset_card_of_nodup nodup, length]
      rcases tree.read insideSet with ⟨slot, get⟩
      rw [combToIndex_combOf digits, get]
      simp only [Option.bind_some]
      cases slot with
      | none =>
          refine ⟨hashTree, rfl, ⟨tree, covers⟩, fun _ hasPlan => hasPlan, ?_⟩
          intro connected
          rcases covers order.toFinset ⟨connection, List.mem_toFinset.mpr covered⟩ insideSet
              (Nat.le_of_eq card) connected with ⟨node, getNode⟩
          rw [get] at getNode
          cases getNode
      | some ht1 =>
          rcases tree.plan get with ⟨order', ids, isPlan, relations⟩
          have same {s : Nat} : s ∈ order' ↔ s ∈ order := by
            rw [← List.mem_toFinset, relations, List.mem_toFinset]
          have single : HasPlan hashTree {r} := by
            apply covers {r} (Finset.singleton_nonempty r) _ _ (ConnectedOn.singleton r)
            · intro s member
              rw [Finset.mem_singleton.mp member]
              exact inside
            · rw [Finset.card_singleton]
              exact positive
          rcases tree.single single with ⟨ht2, getSingle, isSingle⟩
          have newLength : (combOf order ++ decimal r).length = order'.length + 1 := by
            rw [List.length_append, length_combOf digits, decimal_eq digit,
              ← List.toFinset_card_of_nodup isPlan.leftDeep.nodup, relations,
              List.toFinset_card_of_nodup nodup]
            rfl
          rcases createJoinTree_spec estimator wellFormed isPlan inside isSingle
              (mt same.mp present) (same.mpr covered) oriented newLength with
            ⟨node, created, isNew⟩
          have newSlot : combToIndex (combOf order ++ decimal r) =
              slotOf (order' ++ [r]).toFinset := by
            rw [combToIndex_append_decimal digits digit, toFinset_append_singleton, relations]
          rcases keepCheaper_spec tree isNew with ⟨after, kept, afterTree, grows, hasPlan⟩
          rw [toFinset_append_singleton, relations] at hasPlan
          refine ⟨after, ?_, ⟨afterTree, grows.covers covers⟩, grows, fun _ _ _ => hasPlan⟩
          simp only [getSingle, Option.join_some, Option.bind_some, created, newSlot, kept]

theorem extendPlans_spec (estimator : Estimator) (wellFormed : q.WellFormed relArr)
    (few : q.numOfRels ≤ 10) {joinGraph : Graph}
    (constructed : Constructed q.joins q.numOfRels q.numOfJoins joinGraph) {size : Nat}
    (positive : 0 < size) {order : List Nat} (nodup : order.Nodup) (length : order.length = size)
    (insideAll : ∀ s ∈ order, s < q.numOfRels) (tree : TreeOf relArr q hashTree)
    (covers : Covers q size hashTree) :
    ∃ after, (List.range q.numOfRels).foldlM
        (extendPlan estimator joinGraph (combOf order)) hashTree = some after ∧
      (TreeOf relArr q after ∧ Covers q size after) ∧ Grows hashTree after ∧
      ∀ r ∈ List.range q.numOfRels, Extends q order.toFinset r after := by
  apply foldlM_establishes (fun hashTree => TreeOf relArr q hashTree ∧
    Covers q size hashTree) Grows
  · exact fun _ _ hasPlan => hasPlan
  · exact fun first second S hasPlan => second S (first S hasPlan)
  · exact fun grows extends_ connected absent linked =>
      grows _ (extends_ connected absent linked)
  · rintro r member state ⟨tree, covers⟩
    exact extendPlan_spec wellFormed few constructed positive tree covers nodup length insideAll
      (List.mem_range.mp member)
  · exact ⟨tree, covers⟩

/-- A pass over the sets of one size makes plans for the connected sets of the
next size. -/
theorem enumerateSize_spec {estimator : Estimator} (wellFormed : q.WellFormed relArr)
    (few : q.numOfRels ≤ 10) {joinGraph : Graph}
    (constructed : Constructed q.joins q.numOfRels q.numOfJoins joinGraph) {size : Nat}
    (positive : 0 < size) (atMost : size ≤ q.numOfRels) (tree : TreeOf relArr q hashTree)
    (covers : Covers q size hashTree) :
    ∃ after, enumerateSize estimator q.numOfRels joinGraph hashTree size = some after ∧
      TreeOf relArr q after ∧ Covers q (size + 1) after := by
  have numCombs := numCombs_eq q.numOfRels few size atMost
  have many := length_getCombination q.numOfRels size
  -- the iteration `s` works on the set of the string `s`
  have passes : ∃ after, (List.range (q.numOfRels.choose size)).foldlM (fun hashTree s => do
        let comb ← (getCombination q.numOfRels size)[s]?
        (List.range q.numOfRels).foldlM (extendPlan estimator joinGraph comb) hashTree)
        hashTree = some after ∧ (TreeOf relArr q after ∧ Covers q size after) ∧
      Grows hashTree after ∧ ∀ s ∈ List.range (q.numOfRels.choose size), ∀ order : List Nat,
        (getCombination q.numOfRels size)[s]? = some (combOf order) →
        (∀ r ∈ order, r < q.numOfRels) → ∀ r < q.numOfRels,
          Extends q order.toFinset r after := by
    apply foldlM_establishes (fun hashTree => TreeOf relArr q hashTree ∧
      Covers q size hashTree) Grows
    · exact fun _ _ hasPlan => hasPlan
    · exact fun first second S hasPlan => second S (first S hasPlan)
    · exact fun grows extends_ order get inside r below connected absent linked =>
        grows _ (extends_ order get inside r below connected absent linked)
    · rintro s member state ⟨tree, covers⟩
      have bound := List.mem_range.mp member
      rw [← many] at bound
      have get := List.getElem?_eq_getElem bound
      rcases mem_getCombination (List.mem_of_getElem? get) with
        ⟨order, isComb, nodup, length, inside⟩
      rw [isComb] at get
      rcases extendPlans_spec estimator wellFormed few constructed positive nodup
          length inside tree covers with ⟨after, ran, kept, grows, extends_⟩
      refine ⟨after, ?_, kept, grows, ?_⟩
      · rw [get]
        exact ran
      · intro order' get' inside' r below
        rw [get] at get'
        have same : order = order' := by
          rw [← map_charToInteger fun s member => Nat.lt_of_lt_of_le (inside s member) few,
            Option.some.inj get',
            map_charToInteger fun s member => Nat.lt_of_lt_of_le (inside' s member) few]
        rw [← same]
        exact extends_ r (List.mem_range.mpr below)
    · exact ⟨tree, covers⟩
  rcases passes with ⟨after, ran, ⟨afterTree, afterCovers⟩, _, extends_⟩
  refine ⟨after, ?_, afterTree, ?_⟩
  · rw [enumerateSize, numCombs, if_neg (by omega)]
    exact ran
  · intro S nonempty inside card connected
    rcases Nat.lt_or_eq_of_le card with smaller | isNext
    · exact afterCovers S nonempty inside (Nat.le_of_lt_succ smaller) connected
    · rcases ConnectedOn.exists_erase connected (by omega) with ⟨r, member, rest, linked⟩
      have insideRest : ∀ s ∈ S.erase r, s < q.numOfRels := fun s member =>
        inside s (Finset.mem_of_mem_erase member)
      have listed := relationsOf_mem_getCombination insideRest
      rw [Finset.card_erase_of_mem member, isNext, Nat.add_sub_cancel] at listed
      rcases List.getElem?_of_mem listed with ⟨s, get⟩
      have bound := (List.getElem?_eq_some_iff.mp get).1
      rw [many] at bound
      have extended := extends_ s (List.mem_range.mpr bound) _ get
        (fun r member => insideRest r ((mem_relationsOf insideRest).mp member)) r
        (inside r member)
      rw [toFinset_relationsOf insideRest] at extended
      have hasPlan := extended rest (Finset.notMem_erase r S) linked
      rw [Finset.insert_erase member] at hasPlan
      exact hasPlan

theorem joinEnumeration_spec (estimator : Estimator) (wellFormed : q.WellFormed relArr)
    (many : 2 ≤ q.numOfRels) (few : q.numOfRels ≤ 10) :
    ∃ joinGraph hashTree final,
      constructGraph (initialiseGraph q.numOfRels) q = some joinGraph ∧
      initialiseHashTree (2 ^ q.numOfRels) q relArr = some hashTree ∧
      joinEnumeration estimator hashTree q joinGraph = some final ∧
      TreeOf relArr q final ∧ Covers q q.numOfRels final := by
  rcases constructGraph_eq fun join member => (wellFormed.joins join member).1.lt with
    ⟨joinGraph, isGraph, constructed⟩
  rcases initialiseHashTree_spec wellFormed with ⟨hashTree, isTree, tree, singles⟩
  have coversSingles : Covers q 1 hashTree := by
    intro S nonempty inside card _
    have one : S.card = 1 := Nat.le_antisymm card (Finset.card_pos.mpr nonempty)
    rcases Finset.card_eq_one.mp one with ⟨r, rfl⟩
    exact singles r (inside r (Finset.mem_singleton_self r))
  have levels : ∃ final, joinEnumeration estimator hashTree q joinGraph = some final ∧
      TreeOf relArr q final ∧ Covers q (1 + (q.numOfRels - 1)) final := by
    apply foldlM_range'_invariant (fun size hashTree => TreeOf relArr q hashTree ∧
      Covers q size hashTree) ⟨tree, coversSingles⟩
    intro size positive below state invariant
    exact enumerateSize_spec wellFormed few constructed positive (by omega) invariant.1
      invariant.2
  rw [show 1 + (q.numOfRels - 1) = q.numOfRels by omega] at levels
  rcases levels with ⟨final, ran, finalTree, covers⟩
  exact ⟨joinGraph, hashTree, final, isGraph, isTree, ran, finalTree, covers⟩

theorem enumerated_spec {estimator : Estimator} (wellFormed : q.WellFormed relArr)
    (many : 2 ≤ q.numOfRels) (few : q.numOfRels ≤ 10) {joinGraph : Graph} {final : HashTree}
    (isGraph : constructGraph (initialiseGraph q.numOfRels) q = some joinGraph)
    (isTree : initialiseHashTree (2 ^ q.numOfRels) q relArr = some hashTree)
    (ran : joinEnumeration estimator hashTree q joinGraph = some final) :
    TreeOf relArr q final ∧ Covers q q.numOfRels final := by
  rcases joinEnumeration_spec estimator wellFormed many few with
    ⟨joinGraph', hashTree', final', isGraph', isTree', ran', tree, covers⟩
  rw [isGraph] at isGraph'
  cases isGraph'
  rw [isTree] at isTree'
  cases isTree'
  rw [ran] at ran'
  cases ran'
  exact ⟨tree, covers⟩

theorem card_le_numOfRels {S : Finset Nat} (inside : ∀ r ∈ S, r < q.numOfRels) :
    S.card ≤ q.numOfRels := by
  have subset : S ⊆ Finset.range q.numOfRels := fun r member =>
    Finset.mem_range.mpr (inside r member)
  have atMost := Finset.card_le_card subset
  rw [Finset.card_range] at atMost
  exact atMost

end Trees

/-- The table has a plan for a set of relations if and only if they are
connected, and the plan covers them one after the other. -/
theorem joinEnumeration_connected (estimator : Estimator) {relArr : List Relationsheep}
    {q : Query} (wellFormed : q.WellFormed relArr) (many : 2 ≤ q.numOfRels)
    (few : q.numOfRels ≤ 10) :
    ∃ joinGraph hashTree final,
      constructGraph (initialiseGraph q.numOfRels) q = some joinGraph ∧
      initialiseHashTree (2 ^ q.numOfRels) q relArr = some hashTree ∧
      joinEnumeration estimator hashTree q joinGraph = some final ∧
      ∀ S : Finset Nat, S.Nonempty → (∀ r ∈ S, r < q.numOfRels) →
        (HasPlan final S ↔ ConnectedOn (queryGraph q.joins) S) ∧
        ∀ node, final[slotOf S]? = some (some node) →
          ∃ ids, node.joinSeq = joinSeqOf ids ∧ ids.length = S.card - 1 ∧ ids.Nodup ∧
            (node.htstats.map HTStats.rel).Nodup ∧
            (node.htstats.map HTStats.rel).toFinset = S ∧
            LeftDeep q.joins (node.htstats.map HTStats.rel) ids := by
  rcases joinEnumeration_spec estimator wellFormed many few with
    ⟨joinGraph, hashTree, final, isGraph, isTree, ran, finalTree, covers⟩
  refine ⟨joinGraph, hashTree, final, isGraph, isTree, ran, ?_⟩
  intro S nonempty inside
  refine ⟨⟨?_, ?_⟩, ?_⟩
  · rintro ⟨node, get⟩
    rcases finalTree.plan get with ⟨order, ids, isPlan, rfl⟩
    exact isPlan.leftDeep.connectedOn
  · exact covers S nonempty inside (card_le_numOfRels inside)
  · intro node get
    rcases finalTree.plan get with ⟨order, ids, isPlan, rfl⟩
    have leftDeep := isPlan.leftDeep
    rw [isPlan.rels]
    refine ⟨ids, isPlan.joinSeq, ?_, leftDeep.ids_nodup, leftDeep.nodup, rfl, leftDeep⟩
    rw [← leftDeep.length_ids rfl, Nat.add_sub_cancel]

def naturalEstimator : Estimator :=
  ⟨Nat, id, Nat.sub, Nat.mul, Nat.div, Nat.pow, id, id, 0⟩

def twoRelations : List Relationsheep :=
  [⟨1, [[7]], [⟨7, 7, 1, 1, [1]⟩], by decide⟩, ⟨1, [[7]], [⟨7, 7, 1, 1, [1]⟩], by decide⟩]

def linkQuery : Query where
  rels := [0, 1]
  queryStats := [[⟨7, 7, 1, 1, [1]⟩], [⟨7, 7, 1, 1, [1]⟩]]
  filters := []
  joins := [⟨⟨0, 0, 0, 0, [7], 1⟩, ⟨1, 0, 1, 0, [7], 1⟩⟩]
  priorities := [2 ^ 64 - 1]

theorem linkQuery_wellFormed : linkQuery.WellFormed twoRelations where
  stats := by
    intro rel below
    rcases Nat.le_one_iff_eq_zero_or_eq_one.mp (Nat.le_of_lt_succ below) with rfl | rfl
    · exact ⟨_, rfl, rfl, by decide⟩
    · exact ⟨_, rfl, rfl, by decide⟩
  filters := by
    intro filter member
    cases member
  joins := by
    intro join member
    cases List.mem_singleton.mp member
    exact ⟨⟨1, rfl, by decide⟩, ⟨1, rfl, by decide⟩⟩

theorem linkQuery_connected : ConnectedOn (queryGraph linkQuery.joins) {0, 1} := by
  rw [Finset.pair_comm]
  apply ConnectedOn.insert (ConnectedOn.singleton 0) (Finset.mem_singleton_self 0)
  exact ⟨by decide, 0, _, rfl, .inl ⟨rfl, rfl⟩⟩

def triangleQuery : Query where
  rels := [0, 1, 0]
  queryStats := List.replicate 3 [⟨7, 7, 1, 1, [1]⟩]
  filters := []
  joins := [⟨⟨0, 0, 0, 0, [7], 1⟩, ⟨1, 0, 1, 0, [7], 1⟩⟩, ⟨⟨1, 0, 1, 0, [7], 1⟩, ⟨0, 0, 2, 0, [7], 1⟩⟩,
    ⟨⟨0, 0, 2, 0, [7], 1⟩, ⟨0, 0, 0, 0, [7], 1⟩⟩]
  priorities := List.replicate 3 (2 ^ 64 - 1)

theorem triangleQuery_wellFormed : triangleQuery.WellFormed twoRelations where
  stats := by decide
  filters := by
    intro filter member
    cases member
  joins := by decide

theorem triangleQuery_connected :
    ConnectedOn (queryGraph triangleQuery.joins) (Finset.range triangleQuery.numOfRels) := by
  have all : Finset.range triangleQuery.numOfRels = insert 2 (insert 1 {0}) := by decide
  rw [all]
  refine ConnectedOn.insert (w := 1) (ConnectedOn.insert (w := 0)
    (ConnectedOn.singleton 0) (by decide) ?_) (by decide) ?_
  · exact ⟨by decide, 0, _, rfl, .inl ⟨rfl, rfl⟩⟩
  · exact ⟨by decide, 1, _, rfl, .inl ⟨rfl, rfl⟩⟩

theorem joinEnumeration_connected_linkQuery : ∃ joinGraph hashTree final,
    constructGraph (initialiseGraph 2) linkQuery = some joinGraph ∧
      initialiseHashTree (2 ^ 2) linkQuery twoRelations = some hashTree ∧
      joinEnumeration naturalEstimator hashTree linkQuery joinGraph = some final ∧
      HasPlan final {0, 1} := by
  rcases joinEnumeration_connected naturalEstimator linkQuery_wellFormed (by decide) (by decide)
    with ⟨joinGraph, hashTree, final, isGraph, isTree, ran, plans⟩
  refine ⟨joinGraph, hashTree, final, isGraph, isTree, ran, ?_⟩
  exact (plans {0, 1} ⟨0, by decide⟩ (by decide)).1.mpr linkQuery_connected

end JoinOperator.Planner
