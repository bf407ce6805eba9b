import Mathlib.Data.List.Count
import Mathlib.Data.List.Range
import Mathlib.Data.List.Nodup

/-! # Where the buckets of a sort start

The values of a list sorted into buckets: the bucket of a value starts behind
everything that is smaller.
-/

namespace JoinOperator.Foundation

/-- The number of entries smaller than `value`. -/
def startOf (values : List Nat) (value : Nat) : Nat :=
  values.countP (· < value)

theorem startOf_zero (values : List Nat) : startOf values 0 = 0 := by
  simp [startOf]

theorem startOf_succ (values : List Nat) (value : Nat) :
    startOf values (value + 1) = startOf values value + values.count value := by
  induction values with
  | nil => rfl
  | cons first values induction =>
      have rest : startOf values (value + 1) = startOf values value + values.count value :=
        induction
      simp only [startOf] at rest
      simp only [startOf, List.countP_cons, List.count_cons, rest, decide_eq_true_iff,
        beq_iff_eq]
      split_ifs <;> omega

theorem startOf_mono (values : List Nat) {value later : Nat} (le : value ≤ later) :
    startOf values value ≤ startOf values later := by
  apply List.countP_mono_left
  intro other _ less
  rw [decide_eq_true_iff] at less ⊢
  omega

theorem startOf_le_length (values : List Nat) (value : Nat) :
    startOf values value ≤ values.length :=
  List.countP_le_length

theorem startOf_eq_length {values : List Nat} {range : Nat}
    (bounded : ∀ value ∈ values, value < range) : startOf values range = values.length := by
  apply List.countP_eq_length.mpr
  intro value member
  exact decide_eq_true (bounded value member)

theorem startOf_inj {values : List Nat} {first second position : Nat}
    (atLeast : startOf values first ≤ position) (below : position < startOf values (first + 1))
    (atLeast' : startOf values second ≤ position)
    (below' : position < startOf values (second + 1)) : first = second := by
  rcases Nat.lt_trichotomy first second with less | same | less
  · have := startOf_mono values (Nat.lt_iff_add_one_le.mp less)
    omega
  · exact same
  · have := startOf_mono values (Nat.lt_iff_add_one_le.mp less)
    omega

theorem startOf_of_absent (values : List Nat) {value later : Nat} (le : value ≤ later)
    (absent : ∀ other, value ≤ other → other < later → values.count other = 0) :
    startOf values later = startOf values value := by
  induction later, le using Nat.le_induction with
  | base => rfl
  | succ later le induction =>
      rw [startOf_succ, absent later le (Nat.lt_succ_self later), Nat.add_zero]
      exact induction fun other atLeast below => absent other atLeast (Nat.lt_succ_of_lt below)

end JoinOperator.Foundation
