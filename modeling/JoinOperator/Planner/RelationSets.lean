import JoinOperator.Planner.HashTree
import Mathlib.Algebra.BigOperators.Fin
import Mathlib.Combinatorics.Colex

/-! # Strings and slots of sets of relations

At most ten relations have one digit each, so a string is the list of its
relations, and its slot is the sum of their powers of two.
-/

namespace JoinOperator.Planner

def combOf (order : List Nat) : List Char := order.flatMap decimal

def slotOf (S : Finset Nat) : Nat := ∑ i ∈ S, 2 ^ i

theorem decimal_digit : ∀ r < 10, decimal r = [r.digitChar] ∧
    charToInteger r.digitChar = r := by
  decide

theorem decimal_eq {r : Nat} (digit : r < 10) : decimal r = [r.digitChar] :=
  (decimal_digit r digit).1

theorem charToInteger_digitChar {r : Nat} (digit : r < 10) :
    charToInteger r.digitChar = r :=
  (decimal_digit r digit).2

theorem combOf_cons (r : Nat) (order : List Nat) :
    combOf (r :: order) = decimal r ++ combOf order :=
  List.flatMap_cons ..

theorem combOf_append (order rest : List Nat) :
    combOf (order ++ rest) = combOf order ++ combOf rest :=
  List.flatMap_append ..

theorem combOf_singleton (r : Nat) : combOf [r] = decimal r :=
  List.append_nil _

theorem combOf_eq {order : List Nat} (digits : ∀ r ∈ order, r < 10) :
    combOf order = order.map Nat.digitChar := by
  induction order with
  | nil => rfl
  | cons r order induction =>
      rw [combOf_cons, decimal_eq (digits r (by simp)),
        induction fun other member => digits other (by simp [member])]
      rfl

theorem length_combOf {order : List Nat} (digits : ∀ r ∈ order, r < 10) :
    (combOf order).length = order.length := by
  rw [combOf_eq digits, List.length_map]

theorem map_charToInteger {order : List Nat} (digits : ∀ r ∈ order, r < 10) :
    (combOf order).map charToInteger = order := by
  rw [combOf_eq digits, List.map_map]
  have same : ∀ r ∈ order, (charToInteger ∘ Nat.digitChar) r = id r :=
    fun r member => charToInteger_digitChar (digits r member)
  rw [List.map_congr_left same, List.map_id]

theorem testBit_slotOf (S : Finset Nat) (r : Nat) : (slotOf S).testBit r ↔ r ∈ S := by
  have bits := Finset.toFinset_bitIndices_sum_two_pow S
  rw [← Nat.mem_bitIndices, ← List.mem_toFinset]
  exact Finset.ext_iff.mp bits r

theorem slotOf_injective : Function.Injective slotOf := by
  intro S T equal
  ext r
  rw [← testBit_slotOf, equal, testBit_slotOf]

theorem slotOf_singleton (r : Nat) : slotOf {r} = 2 ^ r :=
  Finset.sum_singleton ..

theorem slotOf_lt {S : Finset Nat} {n : Nat} (inside : ∀ r ∈ S, r < n) :
    slotOf S < 2 ^ n := by
  apply Nat.lt_pow_two_of_testBit
  intro r atLeast
  rw [Bool.eq_false_iff, Ne, testBit_slotOf]
  intro member
  exact absurd (inside r member) (Nat.not_lt.mpr atLeast)

private theorem testBit_foldl (values : List Nat) (index r : Nat) :
    (values.foldl (fun index value => index ||| (1 <<< value)) index).testBit r ↔
      index.testBit r ∨ r ∈ values := by
  induction values generalizing index with
  | nil => simp
  | cons value values induction =>
      rw [List.foldl_cons, induction, List.mem_cons, Nat.testBit_or, Bool.or_eq_true,
        Nat.one_shiftLeft, Nat.testBit_two_pow, decide_eq_true_iff, or_assoc, eq_comm (a := r)]

theorem combToIndex_combOf {order : List Nat} (digits : ∀ r ∈ order, r < 10) :
    combToIndex (combOf order) = slotOf order.toFinset := by
  have values : combToIndex (combOf order) =
      order.foldl (fun index value => index ||| (1 <<< value)) 0 := by
    conv_rhs => rw [← map_charToInteger digits, List.foldl_map]
    rfl
  apply Nat.eq_of_testBit_eq
  intro r
  rw [Bool.eq_iff_iff, testBit_slotOf, List.mem_toFinset, values, testBit_foldl]
  simp

end JoinOperator.Planner
