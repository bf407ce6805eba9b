import JoinOperator.RadixJoin.BuildProbe
import JoinOperator.RadixJoin.ReadySides

/-! # Joins over any history of the warehouses

A call of `radixHashJoin` keeps the warehouses coherent, and what it returns
does not depend on what they hold.
-/

namespace JoinOperator.RadixJoin

open Foundation

/-- A row of the results, with the payload of `rRel` as `rowR`. -/
def unswitch (switched : Nat) (row : RowTuple) : RowTuple :=
  if switched = 1 then ⟨row.rowS, row.rowR⟩ else row

/-- Every pair of tuples with equal keys is one of the results, once. -/
structure EqualKeys (rRel sRel : Relation) (switched : Nat) (results : HeadResult) : Prop where
  eitherWay : switched = 0 ∨ switched = 1
  rows : (results.nodes.flatten.map (unswitch switched)).Perm
    (joinRows rRel.tuples sRel.tuples)

/-- When a call returns: there is room for what it adds to the warehouses. -/
structure Warehouses.Fits (warehouses : Warehouses) (rRel sRel : Relation)
    (switched : Nat) : Prop where
  arrays : warehouses.HasRoom (warehouses.newArrays rRel sRel switched)
  indexes : warehouses.newIndexes rRel sRel switched = 0 ∨
    warehouses.indexWarehouse.length + warehouses.newIndexes rRel sRel switched ≤ indexCapacity

/-- The warehouses after a call: some arrays more, and some indexes of its columns. -/
structure Warehouses.Gains (warehouses : Warehouses) (rRel sRel : Relation)
    (arrays indexes : Nat) (after : Warehouses) : Prop where
  arrays : after.reWarehouse.length = warehouses.reWarehouse.length + arrays
  indexes : ∃ wares : List Ware, after.indexWarehouse = warehouses.indexWarehouse ++ wares ∧
    wares.length = indexes ∧ ∀ ware ∈ wares, ware.column = (rRel.realRel, rRel.realCol) ∨
      ware.column = (sRel.realRel, sRel.realCol)

theorem joinRows_swap (r s : List Tuple) :
    ((joinRows r s).map (unswitch 1)).Perm (joinRows s r) := by
  have swapped := (equiJoin_swap Tuple.key Tuple.key r s).map
    fun pair => (⟨pair.1.payload, pair.2.payload⟩ : RowTuple)
  refine List.Perm.trans (.of_eq ?_) swapped
  rw [joinRows, List.map_map, List.map_map]
  rfl

theorem map_unswitch_zero (rows : List RowTuple) : rows.map (unswitch 0) = rows :=
  List.map_id rows

section Calls

variable {relArr : List Relationsheep} {warehouses : Warehouses} {rRel sRel : Relation}

open Warehouses

theorem Sides.indexedSide_eq (sides : Sides) (rRel sRel : Relation) :
    sides.indexedSide rRel sRel = rRel ∨ sides.indexedSide rRel sRel = sRel := by
  rw [indexedSide]
  split
  · exact .inl rfl
  · exact .inr rfl

/-- The index of the sides is built when it is not there, and stored when its
side is a column. -/
theorem Sides.Ready.index {arrays indexes : Nat} {sides : Sides}
    (ready : sides.Ready relArr warehouses rRel sRel arrays indexes) :
    ∃ array indArr after, array.Partitions sides.h1 (sides.indexedSide rRel sRel).tuples ∧
      indexing array sides.h1 = some indArr ∧ Coherent relArr after ∧
      warehouses.Gains rRel sRel arrays indexes after ∧ sides.index rRel sRel =
        if indexes = 0 ∨ warehouses.indexWarehouse.length + indexes ≤ indexCapacity then
          some (indArr, after)
        else none := by
  rcases ready.indexed with ⟨array, partitions, source⟩
  rcases indexing_eq partitions.wellFormed with ⟨indArr, built, _⟩
  rcases ready.kept with ⟨rfl, flag, grown⟩ | ⟨rfl, notFound, flag, isColumn, noIndex, grown⟩
  · have gains : warehouses.Gains rRel sRel arrays 0 sides.warehouses :=
      ⟨grown.length, [], by rw [grown.indexWarehouse, List.append_nil], rfl, List.forall_mem_nil _⟩
    refine ⟨array, indArr, sides.warehouses, partitions, built, ?_, gains, ?_⟩
    · rw [Coherent, grown.indexWarehouse]
      exact grown.stored
    · rw [if_pos (.inl rfl)]
      rcases source with ⟨notFound, isArray⟩ | ⟨indArr', found, built'⟩
      · simp [Sides.index, notFound, isArray, built, Sides.store, flag notFound]
      · rw [built] at built'
        cases built'
        simp [Sides.index, found]
  · have isArray : sides.roR = some array := by
      rcases source with ⟨_, isArray⟩ | ⟨indArr', found, _⟩
      · exact isArray
      · rw [notFound] at found
        cases found
    have stored : sides.store rRel sRel indArr = sides.warehouses.addToIndexWarehouse
        (sides.indexedSide rRel sRel).realRel (sides.indexedSide rRel sRel).realCol
        sides.h1 indArr := by
      rw [Sides.store, indexedSide]
      rcases flag with columns | ⟨mixed, switched⟩
      · rw [columns, if_neg (by decide), if_pos rfl]
        by_cases direct : sides.switched = 0
        · rw [if_pos direct, if_pos direct]
        · rw [if_neg direct, if_neg direct]
      · rw [mixed, switched]
        rfl
    have pending := grown.stored
    rw [← grown.indexWarehouse] at pending
    have absent : sides.warehouses.fetchFromIndexWarehouse
        (sides.indexedSide rRel sRel).realRel (sides.indexedSide rRel sRel).realCol = none := by
      rw [fetchFromIndexWarehouse, grown.indexWarehouse]
      exact noIndex
    have gains : ∀ ware : Ware, ware.column = ((sides.indexedSide rRel sRel).realRel,
          (sides.indexedSide rRel sRel).realCol) →
        warehouses.Gains rRel sRel arrays 1
          { sides.warehouses with indexWarehouse := sides.warehouses.indexWarehouse ++ [ware] } := by
      intro ware isIndexed
      refine ⟨grown.length, [ware], by rw [grown.indexWarehouse], rfl,
        List.forall_mem_singleton.mpr ?_⟩
      rw [isIndexed]
      rcases sides.indexedSide_eq rRel sRel with same | same
      · exact .inl (by rw [same])
      · exact .inr (by rw [same])
    refine ⟨array, indArr, _, partitions, built,
      pending.addIndex absent isColumn.whole partitions built, gains _ rfl, ?_⟩
    have room : (1 = 0 ∨ warehouses.indexWarehouse.length + 1 ≤ indexCapacity) ↔
        warehouses.indexWarehouse.length < indexCapacity := by
      omega
    simp only [Sides.index, notFound, isArray, built, stored, addToIndexWarehouse,
      grown.indexWarehouse, Option.bind_eq_bind, Option.bind_some, room]
    split_ifs <;> rfl

theorem searchSides {arrays indexes : Nat} {sides : Sides}
    (ready : sides.Ready relArr warehouses rRel sRel arrays indexes) {array : ReorderedR}
    (partitions : array.Partitions sides.h1 (sides.indexedSide rRel sRel).tuples)
    {indArr : IndexArray} (built : indexing array sides.h1 = some indArr)
    (schedule : List Turn) :
    ∃ results, searchThreadVer schedule indArr sides.roS = some results ∧
      EqualKeys rRel sRel sides.switched results := by
  rcases indexing_eq partitions.wellFormed with ⟨indArr', built', indexes'⟩
  rw [built] at built'
  cases built'
  rcases searchRows_perm indexes' ready.searched.wellFormed with ⟨rows, found, perm⟩
  have lists := lists_searchThreadVer schedule indArr sides.roS
  rw [found] at lists
  rcases lists with ⟨results, searched, _, flatten⟩
  have joined := perm.trans (joinRows_perm partitions.perm ready.searched.perm)
  refine ⟨results, searched, ready.switched, ?_⟩
  rw [flatten]
  rcases ready.switched with direct | switched
  · rw [Sides.indexedSide, Sides.searchedSide, if_pos direct, if_pos direct] at joined
    rw [direct, map_unswitch_zero]
    exact joined
  · have notDirect : sides.switched ≠ 0 := by
      omega
    rw [Sides.indexedSide, Sides.searchedSide, if_neg notDirect, if_neg notDirect] at joined
    rw [switched]
    exact (joined.map _).trans (joinRows_swap sRel.tuples rRel.tuples)

/-- Two empty intermediates keep `FIRST_REORDERED`. -/
theorem joinSides_twoEmpty (orders : JoinOrders) (warehouses : Warehouses)
    (emptyR : rRel.size = 0) (emptyS : sRel.size = 0) :
    joinSides orders warehouses rRel sRel 2 = some
      ⟨2, 0, firstReordered, none, some ⟨⟨[], 0⟩, []⟩, ⟨⟨[], 0⟩, []⟩, warehouses⟩ := by
  simp [joinSides, intermediateSides, reorderIntermediates, emptyR, emptyS,
    reorderRelation_empty]

/-- Two empty intermediates have an index without cells, and the empty join. -/
theorem radixHashJoin_twoEmpty (orders : JoinOrders) (warehouses : Warehouses)
    (emptyR : rRel.size = 0) (emptyS : sRel.size = 0) : ∃ results,
    radixHashJoin orders warehouses rRel sRel 2 = some (results, 0, warehouses) ∧
      EqualKeys rRel sRel 0 results := by
  have lists := lists_searchThreadVer orders.search ⟨[]⟩ ⟨⟨[], 0⟩, []⟩
  have noRows : searchRows ⟨[]⟩ ⟨⟨[], 0⟩, []⟩ (List.range 0) = some [] := rfl
  rw [noRows] at lists
  rcases lists with ⟨results, searched, _, flatten⟩
  have noCells : indexing ⟨⟨[], 0⟩, []⟩ firstReordered = some ⟨[]⟩ := rfl
  refine ⟨results, ?_, .inl rfl, ?_⟩
  · simp [radixHashJoin, joinSides_twoEmpty orders warehouses emptyR emptyS, Sides.index, noCells,
      Sides.store, searched]
  · rw [flatten, List.eq_nil_of_length_eq_zero emptyR, List.eq_nil_of_length_eq_zero emptyS]
    exact .refl _

theorem fits_intermediates (warehouses : Warehouses) (rRel sRel : Relation) :
    warehouses.Fits rRel sRel 2 :=
  ⟨.inl rfl, .inl rfl⟩

/-- What a call returns, in any coherent warehouses. -/
theorem radixHashJoin_spec (coherent : warehouses.Coherent relArr) {switched : Nat}
    (call : Call relArr rRel sRel switched) (orders : JoinOrders) :
    (warehouses.Fits rRel sRel switched → ∃ results switchedAfter after,
      radixHashJoin orders warehouses rRel sRel switched =
        some (results, switchedAfter, after) ∧
      EqualKeys rRel sRel switchedAfter results ∧ after.Coherent relArr ∧
      warehouses.Gains rRel sRel (warehouses.newArrays rRel sRel switched)
        (warehouses.newIndexes rRel sRel switched) after) ∧
    (¬ warehouses.Fits rRel sRel switched →
      radixHashJoin orders warehouses rRel sRel switched = none) := by
  by_cases occupied : switched = 2 → 0 < rRel.size ∨ 0 < sRel.size
  · rcases joinSides_spec coherent call occupied orders with ⟨sides, ready, isSides⟩
    rcases ready.index with ⟨array, indArr, after, partitions, built, kept, gains, isIndex⟩
    rcases searchSides ready partitions built orders.search with ⟨results, searched, joined⟩
    constructor
    · intro fits
      refine ⟨results, sides.switched, after, ?_, joined, kept, gains⟩
      simp [radixHashJoin, isSides, if_pos fits.arrays, isIndex, if_pos fits.indexes, searched]
    · intro notFits
      by_cases room : warehouses.HasRoom (warehouses.newArrays rRel sRel switched)
      · have noIndex : ¬ (warehouses.newIndexes rRel sRel switched = 0 ∨
            warehouses.indexWarehouse.length + warehouses.newIndexes rRel sRel switched ≤
              indexCapacity) := fun indexes => notFits ⟨room, indexes⟩
        simp [radixHashJoin, isSides, if_pos room, isIndex, if_neg noIndex]
      · simp [radixHashJoin, isSides, if_neg room]
  · push Not at occupied
    rcases occupied with ⟨rfl, noR, noS⟩
    -- no side chooses a number of bits
    rcases radixHashJoin_twoEmpty orders warehouses (Nat.le_zero.mp noR) (Nat.le_zero.mp noS) with
      ⟨results, returned, joined⟩
    have gains : warehouses.Gains rRel sRel 0 0 warehouses :=
      ⟨rfl, [], (List.append_nil _).symm, rfl, List.forall_mem_nil _⟩
    exact ⟨fun _ => ⟨results, 0, warehouses, returned, joined, coherent, gains⟩,
      fun notFits => absurd (fits_intermediates warehouses rRel sRel) notFits⟩

theorem Joins.coherent (coherent : warehouses.Coherent relArr) {after : Warehouses}
    (joins : Joins relArr warehouses after) : after.Coherent relArr := by
  rcases joins with ⟨orders, rRel, sRel, switched, results, switchedAfter, call, returned⟩
  have spec := radixHashJoin_spec coherent call orders
  by_cases fits : warehouses.Fits rRel sRel switched
  · rcases spec.1 fits with ⟨_, _, _, returned', _, kept, _⟩
    rw [returned] at returned'
    cases returned'
    exact kept
  · rw [spec.2 fits] at returned
    cases returned

end Calls

theorem coherent_of_reachable {relArr : List Relationsheep} {warehouses : Warehouses}
    (reachable : Reachable (· = initialiseWarehouses relArr) (Joins relArr) warehouses) :
    warehouses.Coherent relArr := by
  apply reachable.invariant
  · rintro _ rfl
    exact initialiseWarehouses_coherent relArr
  · intro state after _ coherent joins
    exact joins.coherent coherent

/-- Warehouse coherence. Without an index of a column, its best reordered array
is not found either. -/
theorem reachable_coherent (relArr : List Relationsheep) {warehouses : Warehouses}
    (reachable : Reachable (· = initialiseWarehouses relArr) (Joins relArr) warehouses) :
    warehouses.Coherent relArr ∧ ∀ rel col,
      warehouses.fetchFromIndexWarehouse rel col = none →
        ∀ cell, warehouses.fetchFromReWarehouse rel col firstReordered = some cell →
          cell = none := by
  have coherent := coherent_of_reachable reachable
  exact ⟨coherent, fun _ _ noIndex _ fetched => coherent.fetchBest noIndex fetched⟩

theorem oneRow_rectangular : ∀ col ∈ [[7]], col.length = 1 := by
  decide

def smallRelArr : List Relationsheep :=
  [⟨1, [[7]], [], oneRow_rectangular⟩, ⟨1, [[7]], [], oneRow_rectangular⟩]

theorem smallRelArr_call : Call smallRelArr ⟨[⟨7, 0⟩], 0, 0, by decide⟩
    ⟨[⟨7, 0⟩], 1, 0, by decide⟩ 0 :=
  .columns ⟨rfl, by decide⟩ ⟨rfl, by decide⟩

theorem smallRelArr_fits : (initialiseWarehouses smallRelArr).Fits
    ⟨[⟨7, 0⟩], 0, 0, by decide⟩ ⟨[⟨7, 0⟩], 1, 0, by decide⟩ 0 :=
  ⟨by decide, by decide⟩

/-- The first join leaves an index, and the two arrays that it has reordered. -/
theorem reachable_coherent_firstJoin : ∃ warehouses,
    Joins smallRelArr (initialiseWarehouses smallRelArr) warehouses ∧
      warehouses.indexWarehouse.length = 1 ∧ warehouses.reWarehouse.length = 2 ∧
      warehouses.Coherent smallRelArr := by
  rcases (radixHashJoin_spec (initialiseWarehouses_coherent smallRelArr) smallRelArr_call
    ⟨⟨[], []⟩, ⟨[], []⟩, []⟩).1 smallRelArr_fits with ⟨_, _, after, returned, _, _, gains⟩
  have joins : Joins smallRelArr (initialiseWarehouses smallRelArr) after :=
    ⟨_, _, _, _, _, _, smallRelArr_call, returned⟩
  have start : Reachable (· = initialiseWarehouses smallRelArr) (Joins smallRelArr)
      (initialiseWarehouses smallRelArr) := .start rfl
  rcases gains.indexes with ⟨wares, isIndexes, length, _⟩
  have oneIndex : after.indexWarehouse.length = 1 := by
    rw [isIndexes]
    exact length
  exact ⟨after, joins, oneIndex, gains.arrays,
    (reachable_coherent smallRelArr (start.next joins)).1⟩

structure JoinCall where
  orders : JoinOrders
  rRel : Relation
  sRel : Relation
  switched : Nat
  deriving DecidableEq

/-- The results of successive calls, each with its `*switched` on return. -/
def runCalls : List JoinCall → Warehouses → Option (List (HeadResult × Nat))
  | [], _ => some []
  | call :: calls, warehouses => do
      let (results, switched, warehouses) ←
        radixHashJoin call.orders warehouses call.rRel call.sRel call.switched
      let outcomes ← runCalls calls warehouses
      some ((results, switched) :: outcomes)

/-- Every call fits the warehouses that the calls before it leave. -/
def EveryFits : List JoinCall → Warehouses → Prop
  | [], _ => True
  | call :: calls, warehouses => warehouses.Fits call.rRel call.sRel call.switched ∧
      ∀ results switched after,
        radixHashJoin call.orders warehouses call.rRel call.sRel call.switched =
          some (results, switched, after) → EveryFits calls after

def JoinCall.Yields (call : JoinCall) (outcome : HeadResult × Nat) : Prop :=
  EqualKeys call.rRel call.sRel outcome.2 outcome.1

theorem runCalls_coherent {relArr : List Relationsheep} {calls : List JoinCall}
    (areCalls : ∀ call ∈ calls, Call relArr call.rRel call.sRel call.switched)
    {warehouses : Warehouses} (coherent : warehouses.Coherent relArr) :
    (∃ outcomes, runCalls calls warehouses = some outcomes ∧
      List.Forall₂ JoinCall.Yields calls outcomes) ↔ EveryFits calls warehouses := by
  induction calls generalizing warehouses with
  | nil => exact ⟨fun _ => trivial, fun _ => ⟨[], rfl, .nil⟩⟩
  | cons call calls induction =>
      have rest := fun after (kept : Warehouses.Coherent relArr after) =>
        induction (fun other member => areCalls other (List.mem_cons_of_mem _ member)) kept
      have spec := radixHashJoin_spec coherent (areCalls call (by simp)) call.orders
      constructor
      · rintro ⟨outcomes, ran, yields⟩
        by_cases fits : warehouses.Fits call.rRel call.sRel call.switched
        · refine ⟨fits, fun results switched after returned => ?_⟩
          rcases spec.1 fits with ⟨_, _, _, returned', _, kept, _⟩
          rw [returned] at returned'
          cases returned'
          rw [runCalls, returned] at ran
          simp only [Option.bind_eq_bind, Option.bind_some] at ran
          rcases Option.bind_eq_some_iff.mp ran with ⟨others, ranRest, isOutcomes⟩
          cases isOutcomes
          cases yields with
          | cons _ yieldsRest => exact (rest after kept).mp ⟨others, ranRest, yieldsRest⟩
        · rw [runCalls, spec.2 fits] at ran
          cases ran
      · rintro ⟨fits, fitsRest⟩
        rcases spec.1 fits with ⟨results, switched, after, returned, joined, kept, _⟩
        rcases (rest after kept).mpr (fitsRest _ _ _ returned) with
          ⟨outcomes, ran, yields⟩
        refine ⟨(results, switched) :: outcomes, ?_, .cons joined yields⟩
        simp [runCalls, returned, ran]

/-- Over every history, the joins are right exactly when all calls fit. -/
theorem runCalls_iff (relArr : List Relationsheep) (calls : List JoinCall)
    (areCalls : ∀ call ∈ calls, Call relArr call.rRel call.sRel call.switched) :
    (∃ outcomes, runCalls calls (initialiseWarehouses relArr) = some outcomes ∧
      List.Forall₂ JoinCall.Yields calls outcomes) ↔
      EveryFits calls (initialiseWarehouses relArr) :=
  runCalls_coherent areCalls (initialiseWarehouses_coherent relArr)

def smallCall : JoinCall :=
  ⟨⟨⟨[], []⟩, ⟨[], []⟩, []⟩, ⟨[⟨7, 0⟩], 0, 0, by decide⟩, ⟨[⟨7, 0⟩], 1, 0, by decide⟩, 0⟩

theorem runCalls_iff_oneCall : ∃ outcomes,
    runCalls [smallCall] (initialiseWarehouses smallRelArr) = some outcomes ∧
      List.Forall₂ JoinCall.Yields [smallCall] outcomes :=
  (runCalls_iff smallRelArr [smallCall] (List.forall_mem_singleton.mpr smallRelArr_call)).mpr
    ⟨smallRelArr_fits, fun _ _ _ _ => trivial⟩

theorem wideRelArr_rectangular : ∀ col ∈ List.replicate (indexCapacity + 1) [7],
    col.length = 1 := by
  intro col member
  rw [List.eq_of_mem_replicate member, List.length_singleton]

/-- A table of one row, with a column more than there is room for indexes. -/
def wideRelArr : List Relationsheep :=
  [⟨1, List.replicate (indexCapacity + 1) [7], [], wideRelArr_rectangular⟩]

def wideCall (col : Nat) : JoinCall :=
  ⟨⟨⟨[], []⟩, ⟨[], []⟩, []⟩, ⟨[⟨7, 0⟩], 0, 0, by decide⟩, ⟨[⟨7, 0⟩], 0, col, by decide⟩, 1⟩

theorem wideCall_call {col : Nat} (below : col ≤ indexCapacity) :
    Call wideRelArr (wideCall col).rRel (wideCall col).sRel (wideCall col).switched := by
  refine .mixed _ ⟨?_, Nat.one_pos⟩
  have isColumn : (List.replicate (indexCapacity + 1) [7])[col]? = some [7] :=
    List.getElem?_replicate_of_lt (Nat.lt_succ_of_le below)
  simp only [wholeColumn, wideRelArr, wideCall, List.getElem?_cons_zero, isColumn,
    Option.bind_eq_bind, Option.bind_some]
  rfl

theorem wideCall_indexes {col : Nat} (inside : col ≤ indexCapacity) {warehouses : Warehouses}
    (coherent : warehouses.Coherent wideRelArr)
    (length : warehouses.indexWarehouse.length = col)
    (below : ∀ ware ∈ warehouses.indexWarehouse, ware.col < col) :
    radixHashJoin (wideCall col).orders warehouses (wideCall col).rRel (wideCall col).sRel 1 =
        none ∨
      col < indexCapacity ∧ ∃ results switchedAfter after,
        radixHashJoin (wideCall col).orders warehouses (wideCall col).rRel (wideCall col).sRel 1 =
          some (results, switchedAfter, after) ∧
        after.Coherent wideRelArr ∧ after.indexWarehouse.length = col + 1 ∧
        ∀ ware ∈ after.indexWarehouse, ware.col < col + 1 := by
  have isCall : Call wideRelArr (wideCall col).rRel (wideCall col).sRel 1 := wideCall_call inside
  have spec := radixHashJoin_spec coherent isCall (wideCall col).orders
  have noIndex : warehouses.fetchFromIndexWarehouse 0 col = none := by
    rw [Warehouses.fetchIndex_eq_none]
    intro indexed
    rcases List.mem_map.mp indexed with ⟨ware, isWare, sameColumn⟩
    have sameCol : ware.col = col := congrArg Prod.snd sameColumn
    exact Nat.lt_irrefl col (sameCol ▸ below ware isWare)
  have isNew : warehouses.newIndexes (wideCall col).rRel (wideCall col).sRel 1 = 1 := by
    have sameColumn : warehouses.fetchFromIndexWarehouse (wideCall col).sRel.realRel
        (wideCall col).sRel.realCol = none := noIndex
    rw [Warehouses.newIndexes, sameColumn]
    rfl
  by_cases fits : warehouses.Fits (wideCall col).rRel (wideCall col).sRel 1
  · have room := fits.indexes
    rcases spec.1 fits with ⟨results, switchedAfter, after, returned, _, kept, gains⟩
    rcases gains.indexes with ⟨wares, isIndexes, added, columns⟩
    rw [isNew] at room added
    refine .inr ⟨by omega, results, switchedAfter, after, returned, kept, ?_, ?_⟩
    · rw [isIndexes, List.length_append, length, added]
    · rw [isIndexes]
      refine List.forall_mem_append.mpr ⟨fun ware member => Nat.lt_succ_of_lt (below ware member),
        fun ware member => ?_⟩
      rcases columns ware member with isR | isS
      · have sameCol : ware.col = 0 := congrArg Prod.snd isR
        omega
      · have sameCol : ware.col = col := congrArg Prod.snd isS
        omega
  · exact .inl (spec.2 fits)

/-- Every call indexes another column, until an index does not fit any more. -/
theorem runCalls_wideCalls {count col : Nat} (last : col + count = indexCapacity)
    {warehouses : Warehouses} (coherent : warehouses.Coherent wideRelArr)
    (length : warehouses.indexWarehouse.length = col)
    (below : ∀ ware ∈ warehouses.indexWarehouse, ware.col < col) :
    runCalls ((List.range' col (count + 1)).map wideCall) warehouses = none := by
  have isSwitched (col : Nat) : (wideCall col).switched = 1 := rfl
  induction count generalizing col warehouses with
  | zero =>
      rcases wideCall_indexes (by omega) coherent length below with overflow | ⟨room, _⟩
      · rw [List.range'_succ, List.map_cons, runCalls, isSwitched, overflow]
        rfl
      · omega
  | succ count induction =>
      rw [List.range'_succ, List.map_cons, runCalls, isSwitched]
      rcases wideCall_indexes (by omega) coherent length below with
        overflow | ⟨_, results, switchedAfter, after, returned, kept, longer, belowNext⟩
      · rw [overflow]
        rfl
      · rw [returned]
        simp only [Option.bind_eq_bind, Option.bind_some,
          induction (by omega) kept longer belowNext, Option.bind_none]

theorem wideCalls_areCalls : ∀ call ∈ (List.range' 0 (indexCapacity + 1)).map wideCall,
    Call wideRelArr call.rRel call.sRel call.switched := by
  intro call member
  rcases List.mem_map.mp member with ⟨col, isCol, rfl⟩
  have below := (List.mem_range'_1.mp isCol).2
  exact wideCall_call (by omega)

/-- The index of the 1001st column is stored behind the `indexWarehouse`. -/
theorem runCalls_manyColumns :
    (∀ call ∈ (List.range' 0 (indexCapacity + 1)).map wideCall,
      Call wideRelArr call.rRel call.sRel call.switched) ∧
      ¬ ∃ outcomes, runCalls ((List.range' 0 (indexCapacity + 1)).map wideCall)
        (initialiseWarehouses wideRelArr) = some outcomes := by
  refine ⟨wideCalls_areCalls, ?_⟩
  rintro ⟨outcomes, ran⟩
  rw [runCalls_wideCalls (Nat.zero_add _) (initialiseWarehouses_coherent wideRelArr) rfl
    (List.forall_mem_nil _)] at ran
  cases ran

end JoinOperator.RadixJoin
