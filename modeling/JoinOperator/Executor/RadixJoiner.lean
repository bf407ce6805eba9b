import JoinOperator.Executor.JointPerformer

/-! # The joiner of the program

The radix hash join, on the warehouses that the calls before it leave, does what the execution
relies on.
-/

namespace JoinOperator.Executor

open RadixJoin

/-- The relation that `radixHashJoin` is called with. There is no memory for a longer one. -/
def Forged.relation? (forged : Forged) : Option Relation :=
  if fits : forged.tuples.length < 2 ^ 59 then
    some ⟨forged.tuples, forged.realRel, forged.realCol, fits⟩
  else none

/-- The calls so far, and the warehouses. -/
structure Session where
  calls : Nat
  warehouses : Warehouses
  deriving DecidableEq

/-- A call, in which the threads have the orders of its number. -/
def Session.join (orders : Nat → JoinOrders) (session : Session) (r s : Forged)
    (switched : Nat) : Option (HeadResult × Nat × Session) := do
  let rRel ← r.relation?
  let sRel ← s.relation?
  let (results, after, warehouses) ←
    radixHashJoin (orders session.calls) session.warehouses rRel sRel switched
  some (results, after, ⟨session.calls + 1, warehouses⟩)

variable {relArr : List Relationsheep} {forged r s : Forged} {rRel sRel : Relation}
  {switched : Nat}

theorem Forged.relation?_eq_some (isRelation : forged.relation? = some rRel) :
    rRel.tuples = forged.tuples ∧ rRel.realRel = forged.realRel ∧
      rRel.realCol = forged.realCol := by
  rw [relation?] at isRelation
  split at isRelation
  · cases isRelation
    exact ⟨rfl, rfl, rfl⟩
  · cases isRelation

theorem Forged.IsBase.isColumn (isBase : forged.IsBase relArr)
    (occupied : ∀ relation ∈ relArr, 0 < relation.rows)
    (isRelation : forged.relation? = some rRel) : IsColumn relArr rRel := by
  rcases Forged.relation?_eq_some isRelation with ⟨tuples, realRel, realCol⟩
  rw [Forged.IsBase, ← tuples, ← realRel, ← realCol] at isBase
  refine ⟨isBase, ?_⟩
  rcases Option.bind_eq_some_iff.mp isBase with ⟨relation, isRelation, isBase⟩
  rcases Option.bind_eq_some_iff.mp isBase with ⟨column, isColumn, isTuples⟩
  rw [Relation.size, ← Option.some.inj isTuples, columnTuples, List.length_map, List.length_zipIdx,
    relation.rectangular column (List.mem_of_getElem? isColumn)]
  exact occupied relation (List.mem_of_getElem? isRelation)

theorem RadixCall.call (call : RadixCall relArr r s switched)
    (occupied : ∀ relation ∈ relArr, 0 < relation.rows) (isR : r.relation? = some rRel)
    (isS : s.relation? = some sRel) : Call relArr rRel sRel switched := by
  cases call with
  | columns isBase isBase' =>
      exact .columns (isBase.isColumn occupied isR) (isBase'.isColumn occupied isS)
  | mixed isBase => exact .mixed _ (isBase.isColumn occupied isS)
  | intermediates => exact .intermediates _ _

/-- The list of the results has its tail and its counters. -/
theorem radixHashJoin_finished {orders : JoinOrders} {warehouses after : Warehouses}
    {results : HeadResult} {switchedAfter : Nat}
    (returned : radixHashJoin orders warehouses rRel sRel switched =
      some (results, switchedAfter, after)) : results.Finished := by
  rcases Option.bind_eq_some_iff.mp returned with ⟨sides, _, returned⟩
  rcases Option.bind_eq_some_iff.mp returned with ⟨⟨indArr, stored⟩, _, returned⟩
  rcases Option.bind_eq_some_iff.mp returned with ⟨found, searched, returned⟩
  cases returned
  have lists := lists_searchThreadVer orders.search indArr sides.roS
  rw [searched] at lists
  cases rows : searchRows indArr sides.roS (List.range sides.roS.pSumArr.psumSize) with
  | none =>
      rw [rows] at lists
      cases lists
  | some rows' =>
      rw [rows] at lists
      rcases lists with ⟨results', isResult, finished, _⟩
      cases isResult
      exact finished

/-- The radix hash join, for relations that have rows. -/
def radixJoiner (occupied : ∀ relation ∈ relArr, 0 < relation.rows)
    (orders : Nat → JoinOrders) : Joiner relArr Session where
  radixHashJoin := Session.join orders
  Valid session := session.warehouses.Coherent relArr
  joined := by
    intro session r s switched results after next coherent call returned
    rcases Option.bind_eq_some_iff.mp returned with ⟨rRel, isR, returned⟩
    rcases Option.bind_eq_some_iff.mp returned with ⟨sRel, isS, returned⟩
    rcases Option.bind_eq_some_iff.mp returned with
      ⟨⟨found, switchedAfter, stored⟩, joined, returned⟩
    cases returned
    have spec := radixHashJoin_spec coherent (call.call occupied isR isS) (orders session.calls)
    by_cases fits : session.warehouses.Fits rRel sRel switched
    · rcases spec.1 fits with ⟨_, _, _, joined', equalKeys, kept, _⟩
      rw [joined] at joined'
      cases joined'
      have rows := equalKeys.rows
      rw [(Forged.relation?_eq_some isR).1, (Forged.relation?_eq_some isS).1] at rows
      exact ⟨⟨equalKeys.eitherWay, radixHashJoin_finished joined, rows⟩, kept⟩
    · rw [spec.2 fits] at joined
      cases joined

end JoinOperator.Executor
