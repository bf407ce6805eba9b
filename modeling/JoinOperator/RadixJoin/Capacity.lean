import JoinOperator.RadixJoin.JoinHistory
import Mathlib.Data.Finset.Card
import Mathlib.Data.Finset.Prod

/-! # Room in the warehouses

Nothing is ever removed from a warehouse, and no capacity is checked. What the warehouses have to
hold depends on the base tables only: an index for a column at most, and a reordered array for a
column and a number of bits, apart from two arrays that may come with a new index.
-/

namespace JoinOperator.RadixJoin

open Foundation

/-- What a reordered array is fetched by. -/
def ReWare.key (ware : ReWare) : (Nat × Nat) × Nat := ((ware.rel, ware.col), ware.hash1)

def columnsOf (relArr : List Relationsheep) : Finset (Nat × Nat) :=
  (relArr.zipIdx.flatMap fun (relation, rel) =>
    (List.range relation.cols).map fun col => (rel, col)).toFinset

def columnCount (relArr : List Relationsheep) : Nat := (relArr.map Relationsheep.cols).sum

def chosenBits (relArr : List Relationsheep) : Finset Nat :=
  (relArr.map fun relation => Nat.log 2 ((bestBuckets relation.rows).getD 1)).toFinset

/-- What the warehouses hold is bounded by the base tables. -/
structure Warehouses.Sized (relArr : List Relationsheep) (warehouses : Warehouses) : Prop where
  chosen : ∀ ware ∈ warehouses.indexWarehouse, ware.hash1 ∈ chosenBits relArr
  keys : ∀ ware ∈ warehouses.reWarehouse, ware.key ∈ columnsOf relArr ×ˢ chosenBits relArr
  arrays : warehouses.reWarehouse.length ≤
    2 * warehouses.indexWarehouse.length + (warehouses.reWarehouse.map ReWare.key).toFinset.card

/-- The warehouses are large enough for the base tables. -/
structure EnoughRoom (relArr : List Relationsheep) : Prop where
  indexes : columnCount relArr ≤ indexCapacity
  arrays : columnCount relArr * (relArr.length + 2) ≤ reCapacity

section Tables

variable {relArr : List Relationsheep}

theorem mem_columnsOf {rel col : Nat} {tuples : List Tuple}
    (whole : wholeColumn relArr rel col = some tuples) : (rel, col) ∈ columnsOf relArr := by
  rcases Option.bind_eq_some_iff.mp whole with ⟨relation, isRelation, inRelation⟩
  rcases Option.bind_eq_some_iff.mp inRelation with ⟨column, isColumn, _⟩
  rw [columnsOf, List.mem_toFinset, List.mem_flatMap]
  refine ⟨(relation, rel), List.mk_mem_zipIdx_iff_getElem?.mpr isRelation, ?_⟩
  apply List.mem_map_of_mem
  exact List.mem_range.mpr (List.getElem?_eq_some_iff.mp isColumn).1

theorem card_columnsOf_le (relArr : List Relationsheep) :
    (columnsOf relArr).card ≤ columnCount relArr := by
  have lengths : (relArr.zipIdx.map fun entry : Relationsheep × Nat => entry.1.cols) =
      relArr.map Relationsheep.cols := by
    have firsts : relArr.zipIdx.map Prod.fst = relArr := List.zipIdx_map_fst 0 relArr
    conv_rhs => rw [← firsts, List.map_map]
    rfl
  refine Nat.le_trans (List.toFinset_card_le _) (Nat.le_of_eq ?_)
  rw [List.length_flatMap, columnCount, ← lengths]
  simp only [List.length_map, List.length_range]

theorem card_chosenBits_le (relArr : List Relationsheep) :
    (chosenBits relArr).card ≤ relArr.length :=
  Nat.le_trans (List.toFinset_card_le _) (Nat.le_of_eq (List.length_map _))

theorem reorderRelation_bits (orders : Orders) {r : Relation} (nonempty : 0 < r.size)
    {hash1 n : Nat} (bits : hash1 < 64 ∨ hash1 = firstReordered) {array : ReorderedR}
    (returned : reorderRelation orders r hash1 = some (array, n)) :
    bucketRange r.size hash1 = some (2 ^ n) ∧ (hash1 < 64 → n = hash1) := by
  rcases bucketRange_eq r.fits bits with ⟨n', below, range, same⟩
  rcases reorderRelation_partitions orders nonempty below range with ⟨array', returned', _⟩
  rw [returned] at returned'
  cases returned'
  exact ⟨range, same⟩

theorem IsColumn.chosen {r : Relation} (isColumn : IsColumn relArr r) {orders : Orders} {n : Nat}
    {array : ReorderedR} (returned : reorderRelation orders r firstReordered = some (array, n)) :
    n ∈ chosenBits relArr := by
  have range := (reorderRelation_bits orders isColumn.nonempty (.inr rfl) returned).1
  rcases Option.bind_eq_some_iff.mp isColumn.whole with ⟨relation, isRelation, inRelation⟩
  rcases Option.bind_eq_some_iff.mp inRelation with ⟨column, isMember, isTuples⟩
  have size : r.size = relation.rows := by
    rw [Relation.size, ← Option.some.inj isTuples, columnTuples, List.length_map,
      List.length_zipIdx]
    exact relation.rectangular column (List.mem_of_getElem? isMember)
  rw [bucketRange, if_pos rfl, size] at range
  rw [chosenBits, List.mem_toFinset]
  refine List.mem_map.mpr ⟨relation, List.mem_of_getElem? isRelation, ?_⟩
  rw [range, Option.getD_some, Nat.log_pow (by decide)]

end Tables

section Additions

variable {relArr : List Relationsheep} {warehouses after : Warehouses} {r rRel sRel : Relation}
  {orders : Orders} {h1 n : Nat} {array : ReorderedR} {best : Bool}

theorem setBest_eq_some {rel col : Nat}
    (isSet : warehouses.setBest rel col array = some after) :
    after.indexWarehouse = warehouses.indexWarehouse ∧
      after.reWarehouse = warehouses.reWarehouse := by
  rcases Option.bind_eq_some_iff.mp isSet with ⟨columns, _, isSet⟩
  rcases Option.bind_eq_some_iff.mp isSet with ⟨written, _, isSet⟩
  cases isSet
  exact ⟨rfl, rfl⟩

theorem addToReWarehouse_eq_some {rel col : Nat}
    (stored : warehouses.addToReWarehouse rel col n array best = some after) :
    after.indexWarehouse = warehouses.indexWarehouse ∧
      after.reWarehouse = warehouses.reWarehouse ++ [⟨rel, col, n, array⟩] := by
  cases best with
  | false =>
      simp only [Warehouses.addToReWarehouse, Bool.false_eq_true, if_false, Option.bind_eq_bind,
        Option.bind_some] at stored
      split at stored
      · cases stored
        exact ⟨rfl, rfl⟩
      · cases stored
  | true =>
      simp only [Warehouses.addToReWarehouse, if_true] at stored
      rcases Option.bind_eq_some_iff.mp stored with ⟨middle, isMiddle, stored⟩
      rcases setBest_eq_some isMiddle with ⟨sameIndexes, sameArrays⟩
      split at stored
      · cases stored
        exact ⟨sameIndexes, congrArg (· ++ _) sameArrays⟩
      · cases stored

theorem reorderAndAdd_eq_some
    (added : reorderAndAdd orders warehouses r h1 best = some (array, n, after)) :
    reorderRelation orders r h1 = some (array, n) ∧
      after.indexWarehouse = warehouses.indexWarehouse ∧
      after.reWarehouse = warehouses.reWarehouse ++ [⟨r.realRel, r.realCol, n, array⟩] := by
  rcases Option.bind_eq_some_iff.mp added with ⟨⟨array', n'⟩, returned, added⟩
  rcases Option.bind_eq_some_iff.mp added with ⟨after', stored, pair⟩
  cases pair
  exact ⟨returned, addToReWarehouse_eq_some stored⟩

namespace Warehouses

theorem Sized.add (sized : warehouses.Sized relArr) {indexes : List Ware} {arrays : List ReWare}
    (isIndexes : after.indexWarehouse = warehouses.indexWarehouse ++ indexes)
    (isArrays : after.reWarehouse = warehouses.reWarehouse ++ arrays)
    (chosen : ∀ ware ∈ indexes, ware.hash1 ∈ chosenBits relArr)
    (keys : ∀ ware ∈ arrays, ware.key ∈ columnsOf relArr ×ˢ chosenBits relArr)
    (few : arrays.length ≤ 2 * indexes.length ∨
      ∃ ware, arrays = [ware] ∧ ware.key ∉ warehouses.reWarehouse.map ReWare.key) :
    after.Sized relArr where
  chosen := by
    rw [isIndexes]
    exact List.forall_mem_append.mpr ⟨sized.chosen, chosen⟩
  keys := by
    rw [isArrays]
    exact List.forall_mem_append.mpr ⟨sized.keys, keys⟩
  arrays := by
    have before := sized.arrays
    rw [isIndexes, isArrays, List.map_append, List.toFinset_append, List.length_append,
      List.length_append]
    rcases few with withIndex | ⟨ware, rfl, missing⟩
    · have grows := Finset.card_le_card
        (@Finset.subset_union_left _ _ (warehouses.reWarehouse.map ReWare.key).toFinset
          (arrays.map ReWare.key).toFinset)
      omega
    · have fresh : ware.key ∉ (warehouses.reWarehouse.map ReWare.key).toFinset := by
        rwa [List.mem_toFinset]
      have single : ([ware].map ReWare.key).toFinset = {ware.key} := rfl
      rw [single, Finset.union_comm, ← Finset.insert_eq, Finset.card_insert_of_notMem fresh,
        List.length_singleton]
      omega

theorem Sized.fetchOrReorder (sized : warehouses.Sized relArr) (isColumn : IsColumn relArr r)
    (bits : h1 < 64) (chosen : h1 ∈ chosenBits relArr)
    (returned : fetchOrReorder orders warehouses r h1 false = some (array, n, after)) :
    after.Sized relArr := by
  rcases Option.bind_eq_some_iff.mp returned with ⟨cell, fetched, returned⟩
  cases cell with
  | some found =>
      cases returned
      exact sized
  | none =>
      rcases reorderAndAdd_eq_some returned with ⟨reordered, sameIndexes, isArrays⟩
      have same := (reorderRelation_bits orders isColumn.nonempty (.inl bits) reordered).2 bits
      subst same
      have notFirst : n ≠ firstReordered := by
        rw [firstReordered]
        omega
      rw [fetchFromReWarehouse, if_neg notFirst, Option.some.injEq, Option.map_eq_none_iff] at fetched
      rw [← List.append_nil warehouses.indexWarehouse] at sameIndexes
      refine sized.add sameIndexes isArrays (List.forall_mem_nil _) ?_
        (.inr ⟨_, rfl, ?_⟩)
      · exact List.forall_mem_singleton.mpr
          (Finset.mem_product.mpr ⟨mem_columnsOf isColumn.whole, chosen⟩)
      · intro stored
        rcases List.mem_map.mp stored with ⟨ware, isWare, sameKey⟩
        have differs := List.find?_eq_none.mp fetched ware isWare
        rw [ReWare.key, ReWare.key, Prod.mk.injEq, Prod.mk.injEq] at sameKey
        exact differs (decide_eq_true ⟨sameKey.1.1, sameKey.1.2, sameKey.2⟩)

end Warehouses

theorem Sides.index_eq_some {sides : Sides} {indArr : IndexArray}
    (built : sides.index rRel sRel = some (indArr, after)) :
    ∃ indexes : List Ware, after.indexWarehouse = sides.warehouses.indexWarehouse ++ indexes ∧
      after.reWarehouse = sides.warehouses.reWarehouse ∧
      (∀ ware ∈ indexes, ware.hash1 = sides.h1) ∧
      indexes.length = if sides.indArr = none ∧ sides.freedomFlag < 2 then 1 else 0 := by
  have added {rel col : Nat} {indArr : IndexArray}
      (stored : sides.warehouses.addToIndexWarehouse rel col sides.h1 indArr = some after) :
      ∃ ware : Ware, after.indexWarehouse = sides.warehouses.indexWarehouse ++ [ware] ∧
        after.reWarehouse = sides.warehouses.reWarehouse ∧ ware.hash1 = sides.h1 := by
    rw [Warehouses.addToIndexWarehouse] at stored
    split at stored
    · cases stored
      exact ⟨_, rfl, rfl, rfl⟩
    · cases stored
  rw [Sides.index] at built
  split at built
  · next found isFound =>
      cases built
      refine ⟨[], (List.append_nil _).symm, rfl, List.forall_mem_nil _, ?_⟩
      simp [isFound]
  · next notFound =>
      rcases Option.bind_eq_some_iff.mp built with ⟨roR, _, built⟩
      rcases Option.bind_eq_some_iff.mp built with ⟨indArr', _, built⟩
      rcases Option.bind_eq_some_iff.mp built with ⟨after', stored, pair⟩
      cases pair
      rw [Sides.store] at stored
      by_cases columns : sides.freedomFlag < 2
      · have isAdded : ∃ ware : Ware,
            after.indexWarehouse = sides.warehouses.indexWarehouse ++ [ware] ∧
              after.reWarehouse = sides.warehouses.reWarehouse ∧ ware.hash1 = sides.h1 := by
          split_ifs at stored
          · exact added stored
          · exact added stored
          · exact added stored
          · omega
        rcases isAdded with ⟨ware, isIndexes, sameArrays, bits⟩
        refine ⟨[ware], isIndexes, sameArrays, List.forall_mem_singleton.mpr bits, ?_⟩
        rw [if_pos ⟨notFound, columns⟩, List.length_singleton]
      · rw [if_neg (by omega), if_neg (by omega)] at stored
        cases stored
        refine ⟨[], (List.append_nil _).symm, rfl, List.forall_mem_nil _, ?_⟩
        rw [if_neg fun both => columns both.2, List.length_nil]

end Additions

section Calls

variable {relArr : List Relationsheep} {warehouses after : Warehouses} {rRel sRel : Relation}
  {orders : JoinOrders} {sides : Sides} {indArr : IndexArray} {h1 : Nat}

open Warehouses

theorem Sides.sized_of_index (sized : sides.warehouses.Sized relArr)
    (noIndexes : ¬ (sides.indArr = none ∧ sides.freedomFlag < 2))
    (built : sides.index rRel sRel = some (indArr, after)) : after.Sized relArr := by
  rcases Sides.index_eq_some built with ⟨indexes, isIndexes, sameArrays, _, length⟩
  rw [if_neg noIndexes, List.length_eq_zero_iff] at length
  subst length
  refine sized.add isIndexes (show _ = _ ++ [] by rw [sameArrays, List.append_nil])
    (List.forall_mem_nil _) (List.forall_mem_nil _) (.inl (Nat.zero_le _))

/-- The arrays that the sides have reordered come with a new index. -/
theorem Sides.sized_of_newIndex (sized : warehouses.Sized relArr)
    (sameIndexes : sides.warehouses.indexWarehouse = warehouses.indexWarehouse)
    {arrays : List ReWare} (isArrays : sides.warehouses.reWarehouse =
      warehouses.reWarehouse ++ arrays) (few : arrays.length ≤ 2)
    (keys : ∀ ware ∈ arrays, ware.key ∈ columnsOf relArr ×ˢ chosenBits relArr)
    (chosen : sides.h1 ∈ chosenBits relArr) (columns : sides.freedomFlag < 2)
    (noIndex : sides.indArr = none) (built : sides.index rRel sRel = some (indArr, after)) :
    after.Sized relArr := by
  rcases Sides.index_eq_some built with ⟨indexes, isIndexes, sameArrays, bits, length⟩
  rw [if_pos ⟨noIndex, columns⟩] at length
  rw [sameIndexes] at isIndexes
  rw [isArrays] at sameArrays
  refine sized.add isIndexes sameArrays (fun ware member => bits ware member ▸ chosen) keys
    (.inl ?_)
  omega

theorem Warehouses.Sized.fetchIndex {rel col : Nat} (sized : warehouses.Sized relArr)
    (fetched : warehouses.fetchFromIndexWarehouse rel col = some (indArr, h1)) :
    h1 ∈ chosenBits relArr := by
  rcases Option.map_eq_some_iff.mp fetched with ⟨ware, found, equal⟩
  cases equal
  exact sized.chosen ware (List.mem_of_find?_eq_some found)

theorem indexedColumns_sized (coherent : warehouses.Coherent relArr)
    (sized : warehouses.Sized relArr) {rel col : Nat}
    (fetched : warehouses.fetchFromIndexWarehouse rel col = some (indArr, h1))
    {searched : Relation} (isColumn : IsColumn relArr searched) {switched : Nat}
    (isSides : indexedColumns orders warehouses indArr h1 searched switched = some sides) :
    sides.warehouses.Sized relArr ∧ sides.indArr ≠ none := by
  rcases coherent.fetchIndex fetched with ⟨_, _, _, partitions, _⟩
  rcases Option.bind_eq_some_iff.mp isSides with ⟨⟨roS, n, stored⟩, returned, isSides⟩
  cases isSides
  exact ⟨sized.fetchOrReorder isColumn partitions.wellFormed.bits (sized.fetchIndex fetched)
    returned, Option.some_ne_none _⟩

theorem reorderColumns_sized (sized : warehouses.Sized relArr) {indexed searched : Relation}
    (isColumn : IsColumn relArr indexed) (isColumn' : IsColumn relArr searched) {switched : Nat}
    (isSides : reorderColumns orders warehouses indexed searched switched = some sides)
    (built : sides.index rRel sRel = some (indArr, after)) : after.Sized relArr := by
  rcases Option.bind_eq_some_iff.mp isSides with ⟨⟨roR, n, middle⟩, first, isSides⟩
  rcases Option.bind_eq_some_iff.mp isSides with ⟨⟨roS, n', stored⟩, second, isSides⟩
  cases isSides
  rcases reorderAndAdd_eq_some first with ⟨reordered, sameIndexes, isArrays⟩
  rcases reorderAndAdd_eq_some second with ⟨reordered', sameIndexes', isArrays'⟩
  have chosen := isColumn.chosen reordered
  have bits : n < 64 := by
    rcases reorderRelation_spec orders.roR indexed (.inr rfl)
        (fun empty => absurd empty (Nat.pos_iff_ne_zero.mp isColumn.nonempty)) with
      ⟨array, bits, returned, _, partitions⟩
    rw [reordered] at returned
    cases returned
    exact partitions.wellFormed.bits
  have same := (reorderRelation_bits orders.roS isColumn'.nonempty (.inl bits) reordered').2 bits
  subst same
  rw [isArrays, List.append_assoc, List.singleton_append] at isArrays'
  apply Sides.sized_of_newIndex sized (sameIndexes'.trans sameIndexes) isArrays' _ _ chosen
    Nat.zero_lt_two rfl built
  · exact Nat.le_of_eq rfl
  · intro ware member
    cases List.mem_pair.mp member with
    | inl isFirst =>
        subst isFirst
        exact Finset.mem_product.mpr ⟨mem_columnsOf isColumn.whole, chosen⟩
    | inr isSecond =>
        subst isSecond
        exact Finset.mem_product.mpr ⟨mem_columnsOf isColumn'.whole, chosen⟩

theorem columnSides_sized (coherent : warehouses.Coherent relArr)
    (sized : warehouses.Sized relArr) (isColumn : IsColumn relArr rRel)
    (isColumn' : IsColumn relArr sRel)
    (isSides : columnSides orders warehouses rRel sRel = some sides)
    (built : sides.index rRel sRel = some (indArr, after)) : after.Sized relArr := by
  have noIndexes (found : sides.indArr ≠ none) :
      ¬ (sides.indArr = none ∧ sides.freedomFlag < 2) := fun both => found both.1
  rw [columnSides] at isSides
  split at isSides
  · next isIndex h1 fetched =>
      rcases indexedColumns_sized coherent sized fetched isColumn' isSides with ⟨kept, found⟩
      exact Sides.sized_of_index kept (noIndexes found) built
  · next noIndex =>
      split at isSides
      · next isIndex h1 fetched =>
          rcases indexedColumns_sized coherent sized fetched isColumn isSides with ⟨kept, found⟩
          exact Sides.sized_of_index kept (noIndexes found) built
      · next noIndex' =>
          have noBest := coherent.fetchBest_column isColumn noIndex
          have noBest' := coherent.fetchBest_column isColumn' noIndex'
          simp only [unindexedColumns, noBest, noBest', Option.bind_eq_bind, Option.bind_some]
            at isSides
          split at isSides
          · exact reorderColumns_sized sized isColumn isColumn' isSides built
          · exact reorderColumns_sized sized isColumn' isColumn isSides built

theorem mixedSides_sized (coherent : warehouses.Coherent relArr)
    (sized : warehouses.Sized relArr) (isColumn : IsColumn relArr sRel)
    (isSides : mixedSides orders warehouses rRel sRel = some sides)
    (built : sides.index rRel sRel = some (indArr, after)) : after.Sized relArr := by
  rw [mixedSides] at isSides
  split at isSides
  · next isIndex h1 fetched =>
      rcases Option.bind_eq_some_iff.mp isSides with ⟨⟨roS, n⟩, _, isSides⟩
      cases isSides
      exact Sides.sized_of_index sized (fun both => Option.some_ne_none _ both.1) built
  · next noIndex =>
      have noBest := coherent.fetchBest_column isColumn noIndex
      rcases Option.bind_eq_some_iff.mp isSides with ⟨⟨roR, n, stored⟩, returned, isSides⟩
      rcases Option.bind_eq_some_iff.mp isSides with ⟨⟨roS, n'⟩, reordered', isSides⟩
      cases isSides
      simp only [fetchOrReorder, noBest, Option.bind_eq_bind, Option.bind_some] at returned
      rcases reorderAndAdd_eq_some returned with ⟨reordered, sameIndexes, isArrays⟩
      have chosen := isColumn.chosen reordered
      -- the intermediate is reordered with the bits of the column
      have same : n' = n := by
        rcases reorderRelation_spec orders.roR sRel (.inr rfl)
            (fun empty => absurd empty (Nat.pos_iff_ne_zero.mp isColumn.nonempty)) with
          ⟨array, bits, isArray, _, partitions⟩
        rw [reordered] at isArray
        cases isArray
        have below := partitions.wellFormed.bits
        rcases reorderRelation_spec orders.roS rRel (.inl below) (fun _ => below) with
          ⟨array', bits', isArray', given, _⟩
        rw [reordered'] at isArray'
        cases isArray'
        exact given below
      subst same
      apply Sides.sized_of_newIndex sized sameIndexes isArrays _ _ chosen Nat.one_lt_two rfl built
      · exact Nat.le_succ 1
      · exact List.forall_mem_singleton.mpr
          (Finset.mem_product.mpr ⟨mem_columnsOf isColumn.whole, chosen⟩)

theorem intermediateSides_sized (sized : warehouses.Sized relArr)
    (isSides : intermediateSides orders warehouses rRel sRel = some sides)
    (built : sides.index rRel sRel = some (indArr, after)) : after.Sized relArr := by
  have reordered {indexed searched : Relation} {switched : Nat}
      (isSides : reorderIntermediates orders warehouses indexed searched switched = some sides) :
      after.Sized relArr := by
    rcases Option.bind_eq_some_iff.mp isSides with ⟨⟨roR, n⟩, _, isSides⟩
    rcases Option.bind_eq_some_iff.mp isSides with ⟨⟨roS, n'⟩, _, isSides⟩
    cases isSides
    exact Sides.sized_of_index sized (fun both => Nat.lt_irrefl 2 both.2) built
  rw [intermediateSides] at isSides
  split at isSides
  · exact reordered isSides
  · exact reordered isSides

theorem Joins.sized (coherent : warehouses.Coherent relArr) (sized : warehouses.Sized relArr)
    (joins : Joins relArr warehouses after) : after.Sized relArr := by
  rcases joins with ⟨orders, rRel, sRel, switched, results, switchedAfter, call, returned⟩
  rcases Option.bind_eq_some_iff.mp returned with ⟨sides, isSides, returned⟩
  rcases Option.bind_eq_some_iff.mp returned with ⟨⟨indArr, stored⟩, built, returned⟩
  rcases Option.bind_eq_some_iff.mp returned with ⟨found, _, returned⟩
  cases returned
  cases call with
  | columns isColumn isColumn' =>
      exact columnSides_sized coherent sized isColumn isColumn' isSides built
  | mixed isColumn => exact mixedSides_sized coherent sized isColumn isSides built
  | intermediates => exact intermediateSides_sized sized isSides built

theorem initialiseWarehouses_sized (relArr : List Relationsheep) :
    (initialiseWarehouses relArr).Sized relArr :=
  ⟨List.forall_mem_nil _, List.forall_mem_nil _, Nat.le_refl 0⟩

theorem Warehouses.Coherent.length_indexWarehouse (coherent : warehouses.Coherent relArr)
    {fresh : List (Nat × Nat)} (nodup : (fresh ++ warehouses.indexWarehouse.map Ware.column).Nodup)
    (inside : ∀ column ∈ fresh, column ∈ columnsOf relArr) :
    fresh.length + warehouses.indexWarehouse.length ≤ columnCount relArr := by
  have included : (fresh ++ warehouses.indexWarehouse.map Ware.column).toFinset ⊆
      columnsOf relArr := by
    intro column member
    rcases List.mem_append.mp (List.mem_toFinset.mp member) with isFresh | isIndexed
    · exact inside column isFresh
    · rcases List.mem_map.mp isIndexed with ⟨ware, isWare, rfl⟩
      rcases coherent.indexes ware isWare with ⟨tuples, _, whole, _⟩
      exact mem_columnsOf whole
  have card := Finset.card_le_card included
  rw [List.toFinset_card_of_nodup nodup, List.length_append, List.length_map] at card
  exact Nat.le_trans card (card_columnsOf_le relArr)

theorem Warehouses.Coherent.indexes_le (coherent : warehouses.Coherent relArr) :
    warehouses.indexWarehouse.length ≤ columnCount relArr := by
  have length := @coherent.length_indexWarehouse relArr warehouses [] coherent.once
    (List.forall_mem_nil _)
  rwa [List.length_nil, Nat.zero_add] at length

theorem Warehouses.Coherent.room_of_noIndex (coherent : warehouses.Coherent relArr)
    {r : Relation} (isColumn : IsColumn relArr r)
    (noIndex : warehouses.fetchFromIndexWarehouse r.realRel r.realCol = none) :
    warehouses.indexWarehouse.length + 1 ≤ columnCount relArr := by
  have fresh := fetchIndex_eq_none.mp noIndex
  have length := @coherent.length_indexWarehouse relArr warehouses
    [(r.realRel, r.realCol)] (List.nodup_cons.mpr ⟨fresh, coherent.once⟩)
    (List.forall_mem_singleton.mpr (mem_columnsOf isColumn.whole))
  rwa [List.length_singleton, Nat.add_comm] at length

theorem Warehouses.Sized.card_keys (sized : warehouses.Sized relArr)
    {fresh : Finset ((Nat × Nat) × Nat)} (inside : fresh ⊆ columnsOf relArr ×ˢ chosenBits relArr)
    (disjoint : Disjoint fresh (warehouses.reWarehouse.map ReWare.key).toFinset) :
    fresh.card + (warehouses.reWarehouse.map ReWare.key).toFinset.card ≤
      columnCount relArr * relArr.length := by
  have included : fresh ∪ (warehouses.reWarehouse.map ReWare.key).toFinset ⊆
      columnsOf relArr ×ˢ chosenBits relArr := by
    apply Finset.union_subset inside
    intro key member
    rcases List.mem_map.mp (List.mem_toFinset.mp member) with ⟨ware, isWare, rfl⟩
    exact sized.keys ware isWare
  have card := Finset.card_le_card included
  rw [Finset.card_union_of_disjoint disjoint, Finset.card_product] at card
  exact Nat.le_trans card
    (Nat.mul_le_mul (card_columnsOf_le relArr) (card_chosenBits_le relArr))

theorem Warehouses.Sized.keys_le (sized : warehouses.Sized relArr) :
    (warehouses.reWarehouse.map ReWare.key).toFinset.card ≤
      columnCount relArr * relArr.length := by
  have card := sized.card_keys (Finset.empty_subset _) (Finset.disjoint_empty_left _)
  rwa [Finset.card_empty, Nat.zero_add] at card

theorem Warehouses.Sized.hasRoom_missing (coherent : warehouses.Coherent relArr)
    (sized : warehouses.Sized relArr) (room : EnoughRoom relArr) {r : Relation}
    (isColumn : IsColumn relArr r) (bits : h1 < 64) (chosen : h1 ∈ chosenBits relArr) :
    warehouses.HasRoom (warehouses.missing r h1) := by
  rcases coherent.fetchRe r.realRel r.realCol bits with ⟨cell, fetched, _⟩
  cases cell with
  | some array =>
      rw [missing, fetched]
      exact .inl rfl
  | none =>
      have isOne : warehouses.missing r h1 = 1 := by
        rw [missing, fetched]
      have notFirst : h1 ≠ firstReordered := by
        rw [firstReordered]
        omega
      rw [fetchFromReWarehouse, if_neg notFirst, Option.some.injEq,
        Option.map_eq_none_iff] at fetched
      have fresh : ((r.realRel, r.realCol), h1) ∉
          (warehouses.reWarehouse.map ReWare.key).toFinset := by
        intro stored
        rcases List.mem_map.mp (List.mem_toFinset.mp stored) with ⟨ware, isWare, sameKey⟩
        have differs := List.find?_eq_none.mp fetched ware isWare
        rw [ReWare.key, Prod.mk.injEq, Prod.mk.injEq] at sameKey
        exact differs (decide_eq_true ⟨sameKey.1.1, sameKey.1.2, sameKey.2⟩)
      have card := sized.card_keys
        (Finset.singleton_subset_iff.mpr
          (Finset.mem_product.mpr ⟨mem_columnsOf isColumn.whole, chosen⟩))
        (Finset.disjoint_singleton_left.mpr fresh)
      have indexes := coherent.indexes_le
      have arrays := sized.arrays
      have enough := room.arrays
      rw [Finset.card_singleton] at card
      rw [Nat.mul_add] at enough
      rw [isOne]
      exact .inr (by omega)

theorem Warehouses.Sized.hasRoom_of_noIndex (coherent : warehouses.Coherent relArr)
    (sized : warehouses.Sized relArr) (room : EnoughRoom relArr) {r : Relation}
    (isColumn : IsColumn relArr r)
    (noIndex : warehouses.fetchFromIndexWarehouse r.realRel r.realCol = none) {arrays : Nat}
    (few : arrays ≤ 2) : warehouses.HasRoom arrays := by
  have indexes := coherent.room_of_noIndex isColumn noIndex
  have keys := sized.keys_le
  have stored := sized.arrays
  have enough := room.arrays
  rw [Nat.mul_add] at enough
  exact .inr (by omega)

theorem Warehouses.Sized.fits (coherent : warehouses.Coherent relArr)
    (sized : warehouses.Sized relArr) (room : EnoughRoom relArr) {switched : Nat}
    (call : Call relArr rRel sRel switched) : warehouses.Fits rRel sRel switched := by
  have indexed {r : Relation} (isColumn : IsColumn relArr r)
      (noIndex : warehouses.fetchFromIndexWarehouse r.realRel r.realCol = none) :
      warehouses.indexWarehouse.length + 1 ≤ indexCapacity :=
    Nat.le_trans (coherent.room_of_noIndex isColumn noIndex) room.indexes
  cases call with
  | columns isColumn isColumn' =>
      refine ⟨?_, ?_⟩
      · rw [newArrays, if_pos rfl]
        split
        · next index h1 fetched =>
            rcases coherent.fetchIndex fetched with ⟨_, _, _, partitions, _⟩
            exact sized.hasRoom_missing coherent room isColumn' partitions.wellFormed.bits
              (sized.fetchIndex fetched)
        · next noIndex =>
            split
            · next index h1 fetched =>
                rcases coherent.fetchIndex fetched with ⟨_, _, _, partitions, _⟩
                exact sized.hasRoom_missing coherent room isColumn partitions.wellFormed.bits
                  (sized.fetchIndex fetched)
            · exact sized.hasRoom_of_noIndex coherent room isColumn noIndex (Nat.le_refl 2)
      · rw [newIndexes, if_pos rfl]
        split
        · exact .inl rfl
        · next noIndex =>
            rw [not_or, Option.not_isSome_iff_eq_none] at noIndex
            exact .inr (indexed isColumn noIndex.1)
  | mixed isColumn =>
      refine ⟨?_, ?_⟩
      · rw [newArrays, if_neg Nat.one_ne_zero, if_pos rfl]
        split
        · exact .inl rfl
        · next noIndex =>
            exact sized.hasRoom_of_noIndex coherent room isColumn
              (Option.not_isSome_iff_eq_none.mp noIndex) (Nat.le_succ 1)
      · rw [newIndexes, if_neg Nat.one_ne_zero, if_pos rfl]
        split
        · exact .inl rfl
        · next noIndex =>
            exact .inr (indexed isColumn (Option.not_isSome_iff_eq_none.mp noIndex))
  | intermediates => exact fits_intermediates warehouses rRel sRel

theorem everyFits_of_enoughRoom (coherent : warehouses.Coherent relArr)
    (sized : warehouses.Sized relArr) (room : EnoughRoom relArr) {calls : List JoinCall}
    (areCalls : ∀ call ∈ calls, Call relArr call.rRel call.sRel call.switched) :
    EveryFits calls warehouses := by
  induction calls generalizing warehouses with
  | nil => trivial
  | cons call calls induction =>
      have isCall := areCalls call List.mem_cons_self
      refine ⟨sized.fits coherent room isCall, fun results switched after returned => ?_⟩
      have joins : Joins relArr warehouses after := ⟨_, _, _, _, _, _, isCall, returned⟩
      exact induction (joins.coherent coherent) (joins.sized coherent sized)
        fun other member => areCalls other (List.mem_cons_of_mem call member)

/-- Over every history of joins of tables with few columns, the warehouses do not overflow, and
all joins are right. -/
theorem runCalls_enoughRoom {relArr : List Relationsheep} (room : EnoughRoom relArr)
    {calls : List JoinCall}
    (areCalls : ∀ call ∈ calls, Call relArr call.rRel call.sRel call.switched) :
    ∃ outcomes, runCalls calls (initialiseWarehouses relArr) = some outcomes ∧
      List.Forall₂ JoinCall.Yields calls outcomes :=
  (runCalls_coherent areCalls (initialiseWarehouses_coherent relArr)).mpr
    (everyFits_of_enoughRoom (initialiseWarehouses_coherent relArr)
      (initialiseWarehouses_sized relArr) room areCalls)

theorem oneTuple_fits : ([⟨7, 0⟩] : List Tuple).length < 2 ^ 59 := by
  decide

theorem noTuple_fits : ([] : List Tuple).length < 2 ^ 59 := by
  decide

/-- Two columns are joined, then no row of another one to the second of them, and then no row
to no row. -/
def columnThenEmpty : List JoinCall :=
  let orders : JoinOrders := ⟨⟨[], []⟩, ⟨[], []⟩, []⟩
  [⟨orders, ⟨[⟨7, 0⟩], 0, 0, oneTuple_fits⟩, ⟨[⟨7, 0⟩], 1, 0, oneTuple_fits⟩, 0⟩,
    ⟨orders, ⟨[], 0, 0, noTuple_fits⟩, ⟨[⟨7, 0⟩], 1, 0, oneTuple_fits⟩, 1⟩,
    ⟨orders, ⟨[], 0, 0, noTuple_fits⟩, ⟨[], 1, 0, noTuple_fits⟩, 2⟩]

theorem runCalls_enoughRoom_columnThenEmpty : ∃ outcomes,
    runCalls columnThenEmpty (initialiseWarehouses smallRelArr) = some outcomes ∧
      List.Forall₂ JoinCall.Yields columnThenEmpty outcomes := by
  have areCalls : ∀ call ∈ columnThenEmpty,
      Call smallRelArr call.rRel call.sRel call.switched :=
    List.forall_mem_cons.mpr ⟨smallRelArr_call, List.forall_mem_cons.mpr
      ⟨.mixed _ ⟨rfl, by decide⟩, List.forall_mem_singleton.mpr (.intermediates _ _)⟩⟩
  exact runCalls_enoughRoom ⟨by decide, by decide⟩ areCalls

end Calls

end JoinOperator.RadixJoin
