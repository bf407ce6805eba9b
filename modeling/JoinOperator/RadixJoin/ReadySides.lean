import JoinOperator.RadixJoin.Coherence

/-! # The sides of a join

Whatever the warehouses hold, both sides are reordered with the same number of
bits, and the index is one of the side that `switched` names.
-/

namespace JoinOperator.RadixJoin

open Foundation

theorem partitions_empty {hash1 : Nat} (bits : hash1 < 64) :
    ReorderedR.Partitions ⟨⟨[], 0⟩, []⟩ hash1 [] where
  perm := .refl _
  occurring := by simp
  wellFormed :=
    { bits
      psumSize := rfl
      starts := rfl
      increasing := List.Pairwise.nil
      inside := by simp
      grouped := by simp }

/-- An empty relation keeps the number of bits that it is given. -/
theorem reorderRelation_spec (orders : Orders) (r : Relation) {hash1 : Nat}
    (bits : hash1 < 64 ∨ hash1 = firstReordered) (given : r.size = 0 → hash1 < 64) :
    ∃ array n, reorderRelation orders r hash1 = some (array, n) ∧ (hash1 < 64 → n = hash1) ∧
      array.Partitions n r.tuples := by
  rcases Nat.eq_zero_or_pos r.size with empty | nonempty
  · refine ⟨_, hash1, reorderRelation_empty orders empty hash1, fun _ => rfl, ?_⟩
    rw [List.eq_nil_of_length_eq_zero empty]
    exact partitions_empty (given empty)
  · rcases bucketRange_eq r.fits bits with ⟨n, below, range, same⟩
    rcases reorderRelation_partitions orders nonempty below range with
      ⟨array, returned, partitions⟩
    exact ⟨array, n, returned, same, partitions⟩

def Warehouses.missing (warehouses : Warehouses) (r : Relation) (h1 : Nat) : Nat :=
  match warehouses.fetchFromReWarehouse r.realRel r.realCol h1 with
  | some (some _) => 0
  | _ => 1

def Warehouses.newArrays (warehouses : Warehouses) (rRel sRel : Relation)
    (switched : Nat) : Nat :=
  if switched = 0 then
    match warehouses.fetchFromIndexWarehouse rRel.realRel rRel.realCol with
    | some (_, h1) => warehouses.missing sRel h1
    | none =>
        match warehouses.fetchFromIndexWarehouse sRel.realRel sRel.realCol with
        | some (_, h1) => warehouses.missing rRel h1
        | none => 2
  else if switched = 1 then
    if (warehouses.fetchFromIndexWarehouse sRel.realRel sRel.realCol).isSome then 0 else 1
  else 0

def Warehouses.newIndexes (warehouses : Warehouses) (rRel sRel : Relation)
    (switched : Nat) : Nat :=
  if switched = 0 then
    if (warehouses.fetchFromIndexWarehouse rRel.realRel rRel.realCol).isSome ∨
      (warehouses.fetchFromIndexWarehouse sRel.realRel sRel.realCol).isSome then 0 else 1
  else if switched = 1 then
    if (warehouses.fetchFromIndexWarehouse sRel.realRel sRel.realCol).isSome then 0 else 1
  else 0

def Warehouses.HasRoom (warehouses : Warehouses) (arrays : Nat) : Prop :=
  arrays = 0 ∨ warehouses.reWarehouse.length + arrays ≤ reCapacity

instance (warehouses : Warehouses) (arrays : Nat) : Decidable (warehouses.HasRoom arrays) :=
  inferInstanceAs (Decidable (_ ∨ _))

structure Warehouses.Grown (relArr : List Relationsheep) (best : List (Nat × Nat))
    (warehouses : Warehouses) (arrays : Nat) (after : Warehouses) : Prop where
  stored : after.Stored relArr best
  indexWarehouse : after.indexWarehouse = warehouses.indexWarehouse
  length : after.reWarehouse.length = warehouses.reWarehouse.length + arrays

section Reordering

variable {relArr : List Relationsheep} {best : List (Nat × Nat)} {warehouses : Warehouses}
  {r : Relation}

open Warehouses

theorem reorderAndAdd_spec (stored : warehouses.Stored relArr best)
    (isColumn : IsColumn relArr r) {h1 : Nat} (bits : h1 < 64 ∨ h1 = firstReordered)
    (orders : Orders) (isBest : Bool) :
    ∃ array n after, (h1 < 64 → n = h1) ∧ array.Partitions n r.tuples ∧
      Grown relArr (if isBest then (r.realRel, r.realCol) :: best else best)
        warehouses 1 after ∧
      reorderAndAdd orders warehouses r h1 isBest =
        if warehouses.HasRoom 1 then some (array, n, after) else none := by
  rcases reorderRelation_spec orders r bits
      (fun empty => absurd empty (Nat.pos_iff_ne_zero.mp isColumn.nonempty)) with
    ⟨array, n, returned, same, partitions⟩
  have room : warehouses.HasRoom 1 ↔ warehouses.reWarehouse.length < reCapacity := by
    rw [HasRoom]
    omega
  cases isBest with
  | false =>
      refine ⟨array, n, _, same, partitions,
        ⟨stored.addArray isColumn.whole partitions, rfl, List.length_append⟩, ?_⟩
      by_cases enough : warehouses.reWarehouse.length < reCapacity
      · simp [reorderAndAdd, returned, addToReWarehouse, enough, room]
      · simp [reorderAndAdd, returned, addToReWarehouse, enough, room]
  | true =>
      rcases stored.columns isColumn.whole with ⟨columns, getColumns, inside⟩
      refine ⟨array, n, _, same, partitions,
        ⟨stored.addBest isColumn.whole partitions getColumns inside, rfl,
          List.length_append⟩, ?_⟩
      by_cases enough : warehouses.reWarehouse.length < reCapacity
      · simp [reorderAndAdd, returned, addToReWarehouse, setBest, getColumns,
          write_of_lt inside, enough, room]
      · simp [reorderAndAdd, returned, addToReWarehouse, setBest, getColumns,
          write_of_lt inside, enough, room]

theorem fetchOrReorder_spec (stored : warehouses.Stored relArr best)
    (isColumn : IsColumn relArr r) {h1 : Nat} (bits : h1 < 64) (orders : Orders) :
    ∃ array after, array.Partitions h1 r.tuples ∧
      Grown relArr best warehouses (warehouses.missing r h1) after ∧
      fetchOrReorder orders warehouses r h1 false =
        if warehouses.HasRoom (warehouses.missing r h1) then some (array, h1, after)
        else none := by
  rcases stored.fetchRe r.realRel r.realCol bits with
    ⟨cell, fetched, partitioned⟩
  cases cell with
  | some array =>
      rcases partitioned array rfl with ⟨tuples, whole, partitions⟩
      rw [isColumn.whole] at whole
      cases whole
      have none_missing : warehouses.missing r h1 = 0 := by
        rw [missing, fetched]
      rw [none_missing]
      refine ⟨array, warehouses, partitions, ⟨stored, rfl, rfl⟩, ?_⟩
      rw [if_pos (.inl rfl)]
      simp [fetchOrReorder, fetched]
  | none =>
      have one_missing : warehouses.missing r h1 = 1 := by
        rw [missing, fetched]
      rcases reorderAndAdd_spec stored isColumn (.inl bits) orders false with
        ⟨array, n, after, same, partitions, grown, returned⟩
      cases same bits
      rw [one_missing]
      refine ⟨array, after, partitions, grown, ?_⟩
      rw [← returned]
      simp [fetchOrReorder, fetched]

end Reordering

namespace Sides

def indexedSide (sides : Sides) (rRel sRel : Relation) : Relation :=
  if sides.switched = 0 then rRel else sRel

def searchedSide (sides : Sides) (rRel sRel : Relation) : Relation :=
  if sides.switched = 0 then sRel else rRel

/-- The sides of a call that adds `arrays` and `indexes` to the warehouses. A
column that is to get an index has a best array already. -/
structure Ready (relArr : List Relationsheep) (warehouses : Warehouses)
    (rRel sRel : Relation) (arrays indexes : Nat) (sides : Sides) : Prop where
  switched : sides.switched = 0 ∨ sides.switched = 1
  searched : sides.roS.Partitions sides.h1 (sides.searchedSide rRel sRel).tuples
  indexed : ∃ array : ReorderedR,
    array.Partitions sides.h1 (sides.indexedSide rRel sRel).tuples ∧
      ((sides.indArr = none ∧ sides.roR = some array) ∨
        ∃ indArr, sides.indArr = some indArr ∧ indexing array sides.h1 = some indArr)
  kept : indexes = 0 ∧ (sides.indArr = none → sides.freedomFlag = 2) ∧
      Warehouses.Grown relArr (warehouses.indexWarehouse.map Ware.column) warehouses arrays
        sides.warehouses ∨
    indexes = 1 ∧ sides.indArr = none ∧
      (sides.freedomFlag = 0 ∨ sides.freedomFlag = 1 ∧ sides.switched = 1) ∧
      IsColumn relArr (sides.indexedSide rRel sRel) ∧
      warehouses.fetchFromIndexWarehouse (sides.indexedSide rRel sRel).realRel
        (sides.indexedSide rRel sRel).realCol = none ∧
      Warehouses.Grown relArr
        (((sides.indexedSide rRel sRel).realRel, (sides.indexedSide rRel sRel).realCol) ::
          warehouses.indexWarehouse.map Ware.column) warehouses arrays sides.warehouses

end Sides

section Cases

variable {relArr : List Relationsheep} {warehouses : Warehouses} {rRel sRel : Relation}

open Warehouses

private theorem room_two {middle : Warehouses}
    (length : middle.reWarehouse.length = warehouses.reWarehouse.length + 1) :
    warehouses.HasRoom 2 ↔ warehouses.HasRoom 1 ∧ middle.HasRoom 1 := by
  simp only [HasRoom, length]
  omega

theorem reorderColumns_spec (coherent : warehouses.Coherent relArr)
    {indexed searched : Relation} (isColumn : IsColumn relArr indexed)
    (isColumn' : IsColumn relArr searched) (orders : JoinOrders) (switched : Nat) :
    ∃ roR roS h1 after, roR.Partitions h1 indexed.tuples ∧ roS.Partitions h1 searched.tuples ∧
      Grown relArr ((indexed.realRel, indexed.realCol) ::
        warehouses.indexWarehouse.map Ware.column) warehouses 2 after ∧
      reorderColumns orders warehouses indexed searched switched =
        if warehouses.HasRoom 2 then
          some ⟨0, switched, h1, none, some roR, roS, after⟩
        else none := by
  rcases reorderAndAdd_spec coherent isColumn (.inr rfl) orders.roR true with
    ⟨roR, h1, middle, _, partitions, grown, returned⟩
  have bits := partitions.wellFormed.bits
  rcases reorderAndAdd_spec grown.stored isColumn' (.inl bits) orders.roS false with
    ⟨roS, h1', after, same, partitions', grown', returned'⟩
  cases same bits
  refine ⟨roR, roS, h1, after, partitions, partitions',
    ⟨grown'.stored, grown'.indexWarehouse.trans grown.indexWarehouse, ?_⟩, ?_⟩
  · rw [grown'.length, grown.length]
  · rw [reorderColumns, returned, if_congr (room_two grown.length) rfl rfl]
    by_cases first : warehouses.HasRoom 1
    · by_cases second : middle.HasRoom 1
      · simp [first, second, returned']
      · simp [first, second, returned']
    · simp [first]

theorem unindexedColumns_spec (coherent : warehouses.Coherent relArr)
    (isColumn : IsColumn relArr rRel) (isColumn' : IsColumn relArr sRel)
    (noIndex : warehouses.fetchFromIndexWarehouse rRel.realRel rRel.realCol = none)
    (noIndex' : warehouses.fetchFromIndexWarehouse sRel.realRel sRel.realCol = none)
    (orders : JoinOrders) :
    ∃ sides, Sides.Ready relArr warehouses rRel sRel 2 1 sides ∧
      unindexedColumns orders warehouses rRel sRel =
        if warehouses.HasRoom 2 then some sides else none := by
  have noBest := coherent.fetchBest_column isColumn noIndex
  have noBest' := coherent.fetchBest_column isColumn' noIndex'
  simp only [unindexedColumns, noBest, noBest', Option.bind_eq_bind, Option.bind_some]
  by_cases smaller : rRel.size < sRel.size
  · rcases reorderColumns_spec coherent isColumn isColumn' orders 0 with
      ⟨roR, roS, h1, after, partitions, partitions', grown, returned⟩
    refine ⟨_, ?_, (if_pos smaller).trans returned⟩
    exact ⟨.inl rfl, partitions', ⟨roR, partitions, .inl ⟨rfl, rfl⟩⟩,
      .inr ⟨rfl, rfl, .inl rfl, isColumn, noIndex, grown⟩⟩
  · rcases reorderColumns_spec coherent isColumn' isColumn orders 1 with
      ⟨roR, roS, h1, after, partitions, partitions', grown, returned⟩
    refine ⟨_, ?_, (if_neg smaller).trans returned⟩
    exact ⟨.inr rfl, partitions', ⟨roR, partitions, .inl ⟨rfl, rfl⟩⟩,
      .inr ⟨rfl, rfl, .inl rfl, isColumn', noIndex', grown⟩⟩

theorem indexedColumns_spec (coherent : warehouses.Coherent relArr)
    {indArr : IndexArray} {h1 : Nat} {rel col : Nat}
    (fetched : warehouses.fetchFromIndexWarehouse rel col = some (indArr, h1))
    {searched : Relation} (isColumn : IsColumn relArr searched) (orders : JoinOrders)
    (switched : Nat) :
    ∃ roS after, roS.Partitions h1 searched.tuples ∧
      Grown relArr (warehouses.indexWarehouse.map Ware.column) warehouses
        (warehouses.missing searched h1) after ∧
      indexedColumns orders warehouses indArr h1 searched switched =
        if warehouses.HasRoom (warehouses.missing searched h1) then
          some ⟨0, switched, h1, some indArr, none, roS, after⟩
        else none := by
  rcases coherent.fetchIndex fetched with ⟨_, _, _, partitions, _⟩
  rcases fetchOrReorder_spec coherent isColumn partitions.wellFormed.bits orders.roS with
    ⟨roS, after, partitions', grown, returned⟩
  refine ⟨roS, after, partitions', grown, ?_⟩
  rw [indexedColumns, returned]
  by_cases room : warehouses.HasRoom (warehouses.missing searched h1)
  · simp [room]
  · simp [room]

theorem columnSides_spec (coherent : warehouses.Coherent relArr)
    (isColumn : IsColumn relArr rRel) (isColumn' : IsColumn relArr sRel)
    (orders : JoinOrders) :
    ∃ sides, Sides.Ready relArr warehouses rRel sRel (warehouses.newArrays rRel sRel 0)
        (warehouses.newIndexes rRel sRel 0) sides ∧
      columnSides orders warehouses rRel sRel =
        if warehouses.HasRoom (warehouses.newArrays rRel sRel 0) then some sides else none := by
  rw [columnSides]
  simp only [newArrays, newIndexes, if_true]
  cases fetched : warehouses.fetchFromIndexWarehouse rRel.realRel rRel.realCol with
  | some ware =>
      rcases ware with ⟨indArr, h1⟩
      rcases coherent.fetchIndex fetched with ⟨tuples, array, whole, partitions, built⟩
      rw [isColumn.whole] at whole
      cases whole
      rcases indexedColumns_spec coherent fetched isColumn' orders 0 with
        ⟨roS, after, partitions', grown, returned⟩
      refine ⟨_, ?_, returned⟩
      exact ⟨.inl rfl, partitions', ⟨array, partitions, .inr ⟨indArr, rfl, built⟩⟩,
        .inl ⟨rfl, by simp, grown⟩⟩
  | none =>
      cases fetched' : warehouses.fetchFromIndexWarehouse sRel.realRel sRel.realCol with
      | some ware =>
          rcases ware with ⟨indArr, h1⟩
          rcases coherent.fetchIndex fetched' with ⟨tuples, array, whole, partitions, built⟩
          rw [isColumn'.whole] at whole
          cases whole
          rcases indexedColumns_spec coherent fetched' isColumn orders 1 with
            ⟨roS, after, partitions', grown, returned⟩
          refine ⟨_, ?_, returned⟩
          exact ⟨.inr rfl, partitions', ⟨array, partitions, .inr ⟨indArr, rfl, built⟩⟩,
            .inl ⟨rfl, by simp, grown⟩⟩
      | none => exact unindexedColumns_spec coherent isColumn isColumn' fetched fetched' orders

theorem mixedSides_spec (coherent : warehouses.Coherent relArr) (rRel : Relation)
    (isColumn : IsColumn relArr sRel) (orders : JoinOrders) :
    ∃ sides, Sides.Ready relArr warehouses rRel sRel (warehouses.newArrays rRel sRel 1)
        (warehouses.newIndexes rRel sRel 1) sides ∧
      mixedSides orders warehouses rRel sRel =
        if warehouses.HasRoom (warehouses.newArrays rRel sRel 1) then some sides else none := by
  have reordered {h1 : Nat} (bits : h1 < 64) : ∃ roS,
      reorderRelation orders.roS rRel h1 = some (roS, h1) ∧ roS.Partitions h1 rRel.tuples := by
    rcases reorderRelation_spec orders.roS rRel (.inl bits) (fun _ => bits) with
      ⟨roS, n, returned, same, partitions⟩
    cases same bits
    exact ⟨roS, returned, partitions⟩
  rw [mixedSides]
  simp only [newArrays, newIndexes, if_true, Nat.one_ne_zero, if_false]
  cases fetched : warehouses.fetchFromIndexWarehouse sRel.realRel sRel.realCol with
  | some ware =>
      rcases ware with ⟨indArr, h1⟩
      rcases coherent.fetchIndex fetched with ⟨tuples, array, whole, partitions, built⟩
      rw [isColumn.whole] at whole
      cases whole
      rcases reordered partitions.wellFormed.bits with ⟨roS, returned, partitions'⟩
      refine ⟨⟨1, 1, h1, some indArr, none, roS, warehouses⟩, ?_, ?_⟩
      · exact ⟨.inr rfl, partitions', ⟨array, partitions, .inr ⟨indArr, rfl, built⟩⟩,
          .inl ⟨rfl, by simp, coherent, rfl, rfl⟩⟩
      · simp [returned, HasRoom]
  | none =>
      have noBest := coherent.fetchBest_column isColumn fetched
      rcases reorderAndAdd_spec coherent isColumn (.inr rfl) orders.roR true with
        ⟨roR, h1, after, _, partitions, grown, added⟩
      rcases reordered partitions.wellFormed.bits with ⟨roS, returned, partitions'⟩
      refine ⟨⟨1, 1, h1, none, some roR, roS, after⟩, ?_, ?_⟩
      · exact ⟨.inr rfl, partitions', ⟨roR, partitions, .inl ⟨rfl, rfl⟩⟩,
          .inr ⟨rfl, rfl, .inr ⟨rfl, rfl⟩, isColumn, fetched, grown⟩⟩
      · simp only [fetchOrReorder, noBest, added, Option.bind_eq_bind, Option.bind_some]
        by_cases room : warehouses.HasRoom 1
        · simp [room, returned]
        · simp [room]

theorem reorderIntermediates_spec {indexed searched : Relation}
    (occupied : 0 < indexed.size ∨ 0 < searched.size) (orders : JoinOrders)
    (warehouses : Warehouses) (switched : Nat) :
    ∃ roR roS h1, roR.Partitions h1 indexed.tuples ∧ roS.Partitions h1 searched.tuples ∧
      reorderIntermediates orders warehouses indexed searched switched =
        some ⟨2, switched, h1, none, some roR, roS, warehouses⟩ := by
  rcases Nat.eq_zero_or_pos indexed.size with empty | nonempty
  · -- the empty side does not choose a number of bits, the other side does
    rcases reorderRelation_spec orders.roS searched (.inr rfl) (fun none => by omega) with
      ⟨roS, h1, returned, _, partitions⟩
    refine ⟨⟨⟨[], 0⟩, []⟩, roS, h1, ?_, partitions, ?_⟩
    · rw [List.eq_nil_of_length_eq_zero empty]
      exact partitions_empty partitions.wellFormed.bits
    · simp [reorderIntermediates, reorderRelation_empty orders.roR empty, returned]
  · rcases reorderRelation_spec orders.roR indexed (.inr rfl) (fun none => by omega) with
      ⟨roR, h1, returned, _, partitions⟩
    have bits := partitions.wellFormed.bits
    rcases reorderRelation_spec orders.roS searched (.inl bits) (fun _ => bits) with
      ⟨roS, h1', returned', same, partitions'⟩
    cases same bits
    refine ⟨roR, roS, h1, partitions, partitions', ?_⟩
    simp [reorderIntermediates, returned, returned']

theorem intermediateSides_spec (coherent : warehouses.Coherent relArr)
    (occupied : 0 < rRel.size ∨ 0 < sRel.size) (orders : JoinOrders) :
    ∃ sides, Sides.Ready relArr warehouses rRel sRel 0 0 sides ∧
      intermediateSides orders warehouses rRel sRel = some sides := by
  rw [intermediateSides]
  by_cases atMost : rRel.size ≤ sRel.size
  · rcases reorderIntermediates_spec occupied orders warehouses 0 with
      ⟨roR, roS, h1, partitions, partitions', returned⟩
    refine ⟨_, ?_, (if_pos atMost).trans returned⟩
    exact ⟨.inl rfl, partitions', ⟨roR, partitions, .inl ⟨rfl, rfl⟩⟩,
      .inl ⟨rfl, fun _ => rfl, coherent, rfl, rfl⟩⟩
  · rcases reorderIntermediates_spec occupied.symm orders warehouses 1 with
      ⟨roR, roS, h1, partitions, partitions', returned⟩
    refine ⟨_, ?_, (if_neg atMost).trans returned⟩
    exact ⟨.inr rfl, partitions', ⟨roR, partitions, .inl ⟨rfl, rfl⟩⟩,
      .inl ⟨rfl, fun _ => rfl, coherent, rfl, rfl⟩⟩

/-- The sides of every call are ready, as long as there is room in the
`reWarehouse`, except for two empty intermediates. -/
theorem joinSides_spec (coherent : warehouses.Coherent relArr) {switched : Nat}
    (call : Call relArr rRel sRel switched)
    (occupied : switched = 2 → 0 < rRel.size ∨ 0 < sRel.size) (orders : JoinOrders) :
    ∃ sides, Sides.Ready relArr warehouses rRel sRel
        (warehouses.newArrays rRel sRel switched)
        (warehouses.newIndexes rRel sRel switched) sides ∧
      joinSides orders warehouses rRel sRel switched =
        if warehouses.HasRoom (warehouses.newArrays rRel sRel switched) then some sides
        else none := by
  cases call with
  | columns isColumn isColumn' => exact columnSides_spec coherent isColumn isColumn' orders
  | mixed isColumn => exact mixedSides_spec coherent rRel isColumn orders
  | intermediates =>
      rcases intermediateSides_spec coherent (occupied rfl) orders with ⟨sides, ready, isSome⟩
      exact ⟨sides, ready, isSome.trans (if_pos (.inl rfl)).symm⟩

end Cases

end JoinOperator.RadixJoin
