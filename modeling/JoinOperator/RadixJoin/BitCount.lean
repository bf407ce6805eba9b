import JoinOperator.RadixJoin.JoinHistory

/-! # The number of bits

`h1` starts as `FIRST_REORDERED`, and the first relation that is reordered or
found in a warehouse replaces it. An empty relation leaves it as it is.
-/

namespace JoinOperator.RadixJoin

open Foundation

/-- The sides that `indexing` is called with: `h1` is a number of bits, there is
an array to index, and tuples on both sides are reordered with these bits. -/
structure Sides.RealBits (rRel sRel : Relation) (sides : Sides) : Prop where
  bits : sides.h1 < 64
  notFirst : sides.h1 ≠ firstReordered
  range : hash1Range sides.h1 = 2 ^ sides.h1
  indexed : ∃ roR, sides.roR = some roR ∧
    roR.Partitions sides.h1 (sides.indexedSide rRel sRel).tuples
  searched : sides.roS.Partitions sides.h1 (sides.searchedSide rRel sRel).tuples

section Sides

variable {relArr : List Relationsheep} {warehouses : Warehouses} {rRel sRel : Relation}

theorem Sides.Ready.realBits {arrays indexes : Nat} {sides : Sides}
    (ready : sides.Ready relArr warehouses rRel sRel arrays indexes)
    (noIndex : sides.indArr = none) : sides.RealBits rRel sRel := by
  have bits := ready.searched.wellFormed.bits
  have notFirst : sides.h1 ≠ firstReordered := by
    rw [firstReordered]
    omega
  refine ⟨bits, notFirst, powerOfTwo_eq bits, ?_, ready.searched⟩
  rcases ready.indexed with ⟨array, partitions, ⟨_, isArray⟩ | ⟨indArr, found, _⟩⟩
  · exact ⟨array, isArray, partitions⟩
  · rw [noIndex] at found
    cases found

/-- In every state of the warehouses and for every call, `indexing` gets a real
number of bits unless both sides are intermediates without rows. -/
theorem joinSides_realBits_iff
    (reachable : Reachable (· = initialiseWarehouses relArr) (Joins relArr) warehouses)
    {switched : Nat} (call : Call relArr rRel sRel switched) (orders : JoinOrders) :
    (∀ sides, joinSides orders warehouses rRel sRel switched = some sides →
      sides.indArr = none → sides.RealBits rRel sRel) ↔
      ¬ (switched = 2 ∧ rRel.size = 0 ∧ sRel.size = 0) := by
  constructor
  · rintro realBits ⟨rfl, emptyR, emptyS⟩
    have escaped := realBits _ (joinSides_twoEmpty orders warehouses emptyR emptyS) rfl
    exact escaped.notFirst rfl
  · intro notBothEmpty sides isSides noIndex
    have occupied : switched = 2 → 0 < rRel.size ∨ 0 < sRel.size := by
      intro intermediates
      by_contra empty
      rw [not_or] at empty
      exact notBothEmpty ⟨intermediates, by omega, by omega⟩
    rcases joinSides_spec (coherent_of_reachable reachable) call occupied orders with
      ⟨ready, isReady, returned⟩
    rw [isSides] at returned
    split at returned
    · cases returned
      exact isReady.realBits noIndex
    · cases returned

theorem joinSides_realBits_iff_columns :
    ∃ sides, joinSides ⟨⟨[], []⟩, ⟨[], []⟩, []⟩ (initialiseWarehouses smallRelArr)
        ⟨[⟨7, 0⟩], 0, 0, by decide⟩ ⟨[⟨7, 0⟩], 1, 0, by decide⟩ 0 = some sides ∧
      sides.indArr = none ∧
        sides.RealBits ⟨[⟨7, 0⟩], 0, 0, by decide⟩ ⟨[⟨7, 0⟩], 1, 0, by decide⟩ := by
  have realBits := (joinSides_realBits_iff (.start rfl) smallRelArr_call
    ⟨⟨[], []⟩, ⟨[], []⟩, []⟩).mpr (by simp)
  exact ⟨_, rfl, rfl, realBits _ rfl rfl⟩

/-- A call with two intermediates without rows, before anything is stored. -/
theorem joinSides_firstReordered :
    Call smallRelArr ⟨[], 0, 0, by decide⟩ ⟨[], 1, 0, by decide⟩ 2 ∧
      ∃ sides, joinSides ⟨⟨[], []⟩, ⟨[], []⟩, []⟩ (initialiseWarehouses smallRelArr)
          ⟨[], 0, 0, by decide⟩ ⟨[], 1, 0, by decide⟩ 2 = some sides ∧
        sides.indArr = none ∧ sides.h1 = firstReordered ∧
          hash1Range sides.h1 ≠ 2 ^ sides.h1 :=
  ⟨.intermediates _ _, _, joinSides_twoEmpty _ _ rfl rfl, rfl, rfl, by decide⟩

end Sides

end JoinOperator.RadixJoin
