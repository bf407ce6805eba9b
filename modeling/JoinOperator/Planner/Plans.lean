import JoinOperator.Planner.QueryGraph

/-! # Plans

A plan joins its relations one after the other, each by a predicate that links
it to one of the relations before it.
-/

namespace JoinOperator.Planner

open Foundation RadixJoin

/-- Relations in the order in which the predicates `ids` cover them. -/
inductive LeftDeep (joins : List Join) : List Nat → List Nat → Prop
  | single (r : Nat) : LeftDeep joins [r] []
  | extend {order ids : List Nat} {r s joinId : Nat} (covered : LeftDeep joins order ids)
      (uncovered : r ∉ order) (member : s ∈ order) (links : Links joins joinId s r) :
      LeftDeep joins (order ++ [r]) (ids ++ [joinId])

namespace LeftDeep

variable {joins : List Join} {order ids : List Nat}

theorem nodup (leftDeep : LeftDeep joins order ids) : order.Nodup := by
  induction leftDeep with
  | single r => exact List.nodup_singleton r
  | extend _ uncovered _ _ induction =>
      apply List.nodup_append.mpr
      refine ⟨induction, List.nodup_singleton _, ?_⟩
      rintro other member _ isNew rfl
      cases List.mem_singleton.mp isNew
      exact uncovered member

theorem length (leftDeep : LeftDeep joins order ids) : order.length = ids.length + 1 := by
  induction leftDeep with
  | single r => rfl
  | extend _ _ _ _ induction => simp [induction]

theorem length_ids (leftDeep : LeftDeep joins order ids) {S : Finset Nat}
    (relations : order.toFinset = S) : ids.length + 1 = S.card := by
  rw [← relations, List.toFinset_card_of_nodup leftDeep.nodup, leftDeep.length]

theorem covers (leftDeep : LeftDeep joins order ids) {joinId : Nat} (member : joinId ∈ ids) :
    ∃ join, joins[joinId]? = some join ∧ join.participant1.rel ∈ order ∧
      join.participant2.rel ∈ order := by
  induction leftDeep with
  | single r => cases member
  | @extend order ids r s last covered uncovered inOrder links induction =>
      rcases List.mem_append.mp member with earlier | isLast
      · rcases induction earlier with ⟨join, get, first, second⟩
        exact ⟨join, get, List.mem_append_left _ first, List.mem_append_left _ second⟩
      · cases List.mem_singleton.mp isLast
        rcases links with ⟨join, get, ⟨rfl, rfl⟩ | ⟨rfl, rfl⟩⟩
        · exact ⟨join, get, List.mem_append_left _ inOrder, by simp⟩
        · exact ⟨join, get, by simp, List.mem_append_left _ inOrder⟩

theorem different (leftDeep : LeftDeep joins order ids) {id : Nat} (member : id ∈ ids) :
    ∃ join, joins[id]? = some join ∧ join.participant1.rel ≠ join.participant2.rel := by
  induction leftDeep with
  | single r => cases member
  | @extend order ids r s last covered uncovered inOrder links induction =>
      rcases List.mem_append.mp member with earlier | isLast
      · exact induction earlier
      · cases List.mem_singleton.mp isLast
        rcases links with ⟨join, get, ⟨rfl, rfl⟩ | ⟨rfl, rfl⟩⟩
        · exact ⟨join, get, fun same => uncovered (same ▸ inOrder)⟩
        · exact ⟨join, get, fun same => uncovered (same ▸ inOrder)⟩

theorem lt_of_mem (leftDeep : LeftDeep joins order ids) {id : Nat} (member : id ∈ ids) :
    id < joins.length := by
  rcases leftDeep.different member with ⟨join, get, _⟩
  exact (List.getElem?_eq_some_iff.mp get).1

/-- No predicate is used twice, since it would cover a new relation twice. -/
theorem ids_nodup (leftDeep : LeftDeep joins order ids) : ids.Nodup := by
  induction leftDeep with
  | single r => exact List.nodup_nil
  | @extend order ids r s last covered uncovered inOrder links induction =>
      apply List.nodup_append.mpr
      refine ⟨induction, List.nodup_singleton _, ?_⟩
      rintro other member _ isNew rfl
      cases List.mem_singleton.mp isNew
      rcases covered.covers member with ⟨join, get, first, second⟩
      rcases links with ⟨join', get', ⟨_, rfl⟩ | ⟨rfl, _⟩⟩
      · rw [get] at get'
        cases get'
        exact uncovered second
      · rw [get] at get'
        cases get'
        exact uncovered first

theorem connectedOn (leftDeep : LeftDeep joins order ids) :
    ConnectedOn (queryGraph joins) order.toFinset := by
  induction leftDeep with
  | single r => exact ConnectedOn.singleton r
  | @extend order ids r s joinId covered uncovered member links induction =>
      have differs : s ≠ r := fun same => uncovered (same ▸ member)
      have grown := ConnectedOn.insert induction (List.mem_toFinset.mpr member)
        (⟨differs, joinId, links⟩ : (queryGraph joins).Adj s r)
      have same : (order ++ [r]).toFinset = insert r order.toFinset := by
        rw [List.toFinset_append, Finset.union_comm]
        rfl
      rw [same]
      exact grown

end LeftDeep

def joinSeqOf (ids : List Nat) : Option (List Char) :=
  if ids = [] then none else some (ids.flatMap decimal)

theorem joinSeqOf_append (ids : List Nat) (joinId : Nat) :
    joinSeqOf (ids ++ [joinId]) = match joinSeqOf ids with
      | none => some (decimal joinId)
      | some joinSeq => some (joinSeq ++ decimal joinId) := by
  cases ids with
  | nil => simp [joinSeqOf]
  | cons first ids => simp [joinSeqOf]

/-- The node is a plan for the relations in `order`, with the predicates `ids`. -/
structure IsPlan (relArr : List Relationsheep) (q : Query) (node : HTNode)
    (order ids : List Nat) : Prop where
  leftDeep : LeftDeep q.joins order ids
  rels : node.htstats.map HTStats.rel = order
  inside : ∀ r ∈ order, r < q.numOfRels
  columns : ∀ s ∈ node.htstats, q.colsOf relArr s.rel = some s.relStats.length
  numRels : node.numRels = order.length
  joinSeq : node.joinSeq = joinSeqOf ids

section Shapes

variable {estimator : Estimator}

def HTStats.shape (s : HTStats) : Nat × Nat := (s.rel, s.relStats.length)

theorem length_of_shape {s old : HTStats} (same : s.shape = old.shape) :
    s.relStats.length = old.relStats.length :=
  congrArg Prod.snd same

theorem filter_spec (estimator : Estimator) {s : HTStats} {filterCol : Nat}
    (inside : filterCol < s.relStats.length)
    (k1 k2 : Nat) :
    ∃ after, filter estimator s k1 k2 filterCol = some after ∧ after.shape = s.shape := by
  rw [filter, List.getElem?_eq_getElem inside]
  simp only [Option.bind_eq_bind, Option.bind_some]
  by_cases empty : k2 < k1
  · rw [if_pos empty]
    exact ⟨_, rfl, by simp [HTStats.shape]⟩
  · rw [if_neg empty]
    exact ⟨_, rfl, by simp [HTStats.shape]⟩

theorem join_spec (estimator : Estimator) {statA statB : HTStats} {colA colB : Nat}
    (insideA : colA < statA.relStats.length) (insideB : colB < statB.relStats.length) :
    ∃ joinedA joinedB, join estimator statA statB colA colB = some (joinedA, joinedB) ∧
      joinedA.shape = statA.shape ∧ joinedB.shape = statB.shape := by
  rw [join, List.getElem?_eq_getElem insideA, List.getElem?_eq_getElem insideB]
  exact ⟨_, _, rfl, by simp [HTStats.shape], by simp [HTStats.shape]⟩

theorem otherRelations_shape {htstats : List HTStats} {partA : Nat} {old statA : HTStats}
    (get : htstats[partA]? = some old) (same : statA.shape = old.shape) (before after rows : Nat) :
    (otherRelations estimator htstats partA statA before after rows).map HTStats.shape =
      htstats.map HTStats.shape := by
  apply List.ext_getElem
  · simp [otherRelations]
  · intro r first second
    simp only [otherRelations, List.getElem_map, List.getElem_mapIdx]
    by_cases isA : r = partA
    · subst isA
      rcases List.getElem?_eq_some_iff.mp get with ⟨_, rfl⟩
      rw [if_pos rfl, same]
    · rw [if_neg isA]
      simp [HTStats.shape]

theorem partAOf_spec (htstats : List HTStats) {connection : Nat}
    (member : connection ∈ htstats.map HTStats.rel) :
    ∃ statA, htstats[partAOf htstats connection]? = some statA ∧ statA.rel = connection := by
  have found : ∀ count, (∃ i < count, htstats[i]?.map HTStats.rel = some connection) →
      htstats[(List.range count).foldl (fun partA i =>
        if htstats[i]?.map HTStats.rel = some connection then i else partA) 0]?.map
          HTStats.rel = some connection := by
    intro count
    induction count with
    | zero =>
        rintro ⟨i, below, _⟩
        cases below
    | succ count induction =>
        rintro ⟨i, below, isConnection⟩
        rw [List.range_succ, List.foldl_append, List.foldl_cons, List.foldl_nil]
        by_cases last : htstats[count]?.map HTStats.rel = some connection
        · rw [if_pos last]
          exact last
        · rw [if_neg last]
          apply induction
          refine ⟨i, Nat.lt_of_le_of_ne (Nat.le_of_lt_succ below) ?_, isConnection⟩
          rintro rfl
          exact last isConnection
  rcases List.mem_map.mp member with ⟨s, inStats, isConnection⟩
  rcases List.getElem?_of_mem inStats with ⟨i, get⟩
  apply Option.map_eq_some_iff.mp
  apply found htstats.length ⟨i, (List.getElem?_eq_some_iff.mp get).1, ?_⟩
  rw [get, Option.map_some, isConnection]

end Shapes

theorem IsPlan.oriented_inside {relArr : List Relationsheep} {q : Query}
    (wellFormed : q.WellFormed relArr) {ht1 ht2 : HTNode} {order ids : List Nat}
    (isPlan : IsPlan relArr q ht1 order ids) {r : Nat} (isSingle : IsPlan relArr q ht2 [r] [])
    {connection : Nat} {columns : Connection}
    (oriented : Oriented q.joins connection r columns) {statA : HTStats}
    (isPart : statA ∈ ht1.htstats) (relA : statA.rel = connection) :
    columns.col1 < statA.relStats.length ∧ ∃ statB, ht2.htstats = [statB] ∧
      statB.rel = r ∧ columns.col2 < statB.relStats.length := by
  rcases List.map_eq_singleton_iff.mp isSingle.rels with ⟨statB, single, relB⟩
  have colsA := isPlan.columns statA isPart
  have colsB := isSingle.columns statB (by simp [single])
  rw [relA] at colsA
  rw [relB] at colsB
  rcases oriented with ⟨join, get, ends⟩
  rcases wellFormed.joins join (List.mem_of_getElem? get) with
    ⟨⟨cols1, isCols1, below1⟩, ⟨cols2, isCols2, below2⟩⟩
  rcases ends with ⟨rel1, col1, rel2, col2⟩ | ⟨rel1, col1, rel2, col2⟩
  · rw [rel1, colsA] at isCols1
    rw [rel2, colsB] at isCols2
    cases isCols1
    cases isCols2
    exact ⟨col1 ▸ below1, statB, single, relB, col2 ▸ below2⟩
  · rw [rel1, colsB] at isCols1
    rw [rel2, colsA] at isCols2
    cases isCols1
    cases isCols2
    exact ⟨col2 ▸ below2, statB, single, relB, col1 ▸ below1⟩

theorem columns_of_shapes {relArr : List Relationsheep} {q : Query}
    {htstats before : List HTStats}
    (shapes : htstats.map HTStats.shape = before.map HTStats.shape)
    (columns : ∀ s ∈ before, q.colsOf relArr s.rel = some s.relStats.length) :
    ∀ s ∈ htstats, q.colsOf relArr s.rel = some s.relStats.length := by
  intro s member
  have inShapes := List.mem_map_of_mem (f := HTStats.shape) member
  rw [shapes] at inShapes
  rcases List.mem_map.mp inShapes with ⟨old, isOld, same⟩
  have columnsBefore := columns old isOld
  rw [show s.rel = old.rel from (congrArg Prod.fst same).symm, ← length_of_shape same]
  exact columnsBefore

theorem createJoinTree_spec (estimator : Estimator) {relArr : List Relationsheep} {q : Query}
    (wellFormed : q.WellFormed relArr) {ht1 ht2 : HTNode} {order ids : List Nat}
    (isPlan : IsPlan relArr q ht1 order ids) {r : Nat} (inside : r < q.numOfRels)
    (isSingle : IsPlan relArr q ht2 [r] []) (uncovered : r ∉ order) {connection : Nat}
    (covered : connection ∈ order) {columns : Connection}
    (oriented : Oriented q.joins connection r columns) {newComb : List Char}
    (length : newComb.length = order.length + 1) :
    ∃ node, createJoinTree estimator ht1 ht2 newComb connection columns = some node ∧
      IsPlan relArr q node (order ++ [r]) (ids ++ [columns.joinId]) := by
  have many : ht1.htstats.length = order.length := by
    rw [← isPlan.rels, List.length_map]
  have whole : ht1.htstats.take (newComb.length - 1) = ht1.htstats := by
    apply List.take_of_length_le
    omega
  rcases partAOf_spec ht1.htstats (isPlan.rels.symm ▸ covered) with
    ⟨statA, getA, relA⟩
  rcases isPlan.oriented_inside wellFormed isSingle oriented (List.mem_of_getElem? getA) relA with
    ⟨insideA, statB, single, relB, insideB⟩
  rcases filter_spec estimator insideA
      (largerMin statA.relStats[columns.col1] statB.relStats[columns.col2])
      (smallerMax statA.relStats[columns.col1] statB.relStats[columns.col2]) with
    ⟨filteredA, isFilteredA, shapeA⟩
  rcases filter_spec estimator insideB
      (largerMin statA.relStats[columns.col1] statB.relStats[columns.col2])
      (smallerMax statA.relStats[columns.col1] statB.relStats[columns.col2]) with
    ⟨filteredB, isFilteredB, shapeB⟩
  have insideA' : columns.col1 < filteredA.relStats.length := by
    rw [length_of_shape shapeA]
    exact insideA
  have insideB' : columns.col2 < filteredB.relStats.length := by
    rw [length_of_shape shapeB]
    exact insideB
  rcases join_spec estimator insideA' insideB' with
    ⟨joinedA, joinedB, isJoined, shapeA', shapeB'⟩
  have insideA'' : columns.col1 < joinedA.relStats.length := by
    rw [length_of_shape shapeA']
    exact insideA'
  let partA := partAOf ht1.htstats connection
  let fA := filteredA.relStats[columns.col1]
  let jA := joinedA.relStats[columns.col1]
  let filtered := otherRelations estimator ht1.htstats partA filteredA
    statA.relStats[columns.col1].numElements fA.numElements fA.numElements
  let joined := otherRelations estimator filtered partA joinedA fA.distinctVals jA.distinctVals
    jA.numElements
  have built : createJoinTree estimator ht1 ht2 newComb connection columns =
      some ⟨joined ++ [joinedB], newComb.length, newComb,
        (ht1.cost + jA.numElements) % 2 ^ 64, joinSeqOf (ids ++ [columns.joinId])⟩ := by
    simp only [createJoinTree, if_neg (show ¬ ht1.htstats.length < newComb.length - 1 by omega),
      whole, getA, single, List.getElem?_cons_zero, List.getElem?_eq_getElem insideA,
      List.getElem?_eq_getElem insideB, isFilteredA, isFilteredB,
      List.getElem?_eq_getElem insideA', isJoined, List.getElem?_eq_getElem insideA'',
      Option.bind_eq_bind, Option.bind_some, joinSeqOf_append, ← isPlan.joinSeq]
    rfl
  have shapes : (joined ++ [joinedB]).map HTStats.shape =
      (ht1.htstats ++ [statB]).map HTStats.shape := by
    have getFiltered : filtered[partA]? = some filteredA := by
      simp only [filtered, otherRelations, List.getElem?_mapIdx, partA, getA]
      simp
    rw [List.map_append, List.map_append, otherRelations_shape getFiltered shapeA',
      otherRelations_shape getA shapeA, List.map_singleton, List.map_singleton, shapeB', shapeB]
  refine ⟨_, built, isPlan.leftDeep.extend uncovered covered oriented.links, ?_, ?_, ?_, ?_, rfl⟩
  · have rels := congrArg (List.map Prod.fst) shapes
    rw [List.map_map, List.map_map] at rels
    refine rels.trans ?_
    rw [List.map_append, List.map_singleton, ← relB, ← isPlan.rels]
    rfl
  · intro other member
    rcases List.mem_append.mp member with member | member
    · exact isPlan.inside other member
    · rw [List.mem_singleton.mp member]
      exact inside
  · apply columns_of_shapes shapes
    intro s member
    rcases List.mem_append.mp member with member | member
    · exact isPlan.columns s member
    · rw [List.mem_singleton.mp member]
      exact isSingle.columns statB (by simp [single])
  · rw [length, List.length_append]
    rfl

end JoinOperator.Planner
