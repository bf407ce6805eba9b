import Mathlib.Data.List.Flatten
import Mathlib.Data.List.Range

/-! # Runs of equal values

The indexes below a bound, taken apart into runs with the same value each. A run is given by its
first index.
-/

namespace JoinOperator.Foundation

variable {Value : Type*} [DecidableEq Value] (value : Nat → Value)

/-- The first index from `i` on, among the `remaining` next ones, that has another value. -/
def skipSame (current : Value) : Nat → Nat → Nat
  | 0, i => i
  | remaining + 1, i =>
      if value i = current then skipSame current remaining (i + 1) else i

def runEnd (bound i : Nat) : Nat := skipSame value (value i) (bound - (i + 1)) (i + 1)

def run (bound i : Nat) : List Nat := List.range' i (runEnd value bound i - i)

def StartsRun (i : Nat) : Prop := i = 0 ∨ value (i - 1) ≠ value i

instance : DecidablePred (StartsRun value) := fun i =>
  inferInstanceAs (Decidable (i = 0 ∨ value (i - 1) ≠ value i))

def runStarts (bound : Nat) : List Nat := (List.range bound).filter fun i => StartsRun value i

section Runs

variable {value} {current : Value} {bound i : Nat}

theorem skipSame_spec (current : Value) (remaining i : Nat) :
    i ≤ skipSame value current remaining i ∧ skipSame value current remaining i ≤ i + remaining ∧
      (∀ j, i ≤ j → j < skipSame value current remaining i → value j = current) ∧
      (skipSame value current remaining i < i + remaining →
        value (skipSame value current remaining i) ≠ current) := by
  induction remaining generalizing i with
  | zero =>
      refine ⟨Nat.le_refl i, Nat.le_refl i, ?_, ?_⟩
      · intro j from_ below
        exact absurd (Nat.lt_of_le_of_lt from_ below) (Nat.lt_irrefl i)
      · intro below
        exact absurd below (Nat.lt_irrefl i)
  | succ remaining induction =>
      rw [skipSame]
      split
      · next same =>
          rcases induction (i + 1) with ⟨above, below, equal, differs⟩
          refine ⟨Nat.le_of_succ_le above, by omega, ?_, ?_⟩
          · intro j from_ inside
            cases Nat.eq_or_lt_of_le from_ with
            | inl first => exact first ▸ same
            | inr later => exact equal j later inside
          · intro inside
            exact differs (by omega)
      · next differs =>
          refine ⟨Nat.le_refl i, Nat.le_add_right _ _, ?_, fun _ => differs⟩
          intro j from_ below
          exact absurd (Nat.lt_of_le_of_lt from_ below) (Nat.lt_irrefl i)

theorem runEnd_spec (below : i < bound) :
    i < runEnd value bound i ∧ runEnd value bound i ≤ bound ∧
      (∀ j, i ≤ j → j < runEnd value bound i → value j = value i) ∧
      (runEnd value bound i = bound ∨ StartsRun value (runEnd value bound i)) := by
  rcases @skipSame_spec _ _ value (value i) (bound - (i + 1)) (i + 1) with
    ⟨above, inside, equal, differs⟩
  have same : ∀ j, i ≤ j → j < runEnd value bound i → value j = value i := by
    intro j from_ before
    cases Nat.eq_or_lt_of_le from_ with
    | inl first => rw [← first]
    | inr later => exact equal j later before
  change i + 1 ≤ runEnd value bound i at above
  change runEnd value bound i ≤ _ at inside
  refine ⟨above, by omega, same, ?_⟩
  by_cases last : runEnd value bound i = bound
  · exact .inl last
  · refine .inr (.inr ?_)
    rw [same (runEnd value bound i - 1) (by omega) (by omega)]
    exact fun equal => differs (show runEnd value bound i < _ by omega) equal.symm

theorem value_of_mem_run (below : i < bound) {j : Nat} (member : j ∈ run value bound i) :
    value j = value i ∧ j < bound := by
  rcases @runEnd_spec _ _ value _ _ below with ⟨above, inside, equal, _⟩
  rcases List.mem_range'_1.mp member with ⟨from_, before⟩
  exact ⟨equal j from_ (by omega), by omega⟩

theorem flatMap_run_from (atMost : i ≤ bound) (starts : i = bound ∨ StartsRun value i) :
    ((List.range' i (bound - i)).filter fun i => StartsRun value i).flatMap (run value bound) =
      List.range' i (bound - i) := by
  generalize isRemaining : bound - i = remaining
  induction remaining using Nat.strongRecOn generalizing i with
  | ind remaining induction =>
      by_cases last : i = bound
      · have none : remaining = 0 := by omega
        rw [none]
        rfl
      · have below : i < bound := Nat.lt_of_le_of_ne atMost last
        have isStart : StartsRun value i := starts.resolve_left last
        rcases @runEnd_spec _ _ value _ _ below with ⟨above, inside, equal, next⟩
        have rest := induction (bound - runEnd value bound i) (by omega) inside next rfl
        have apart : List.range' i remaining =
            run value bound i ++ List.range' (runEnd value bound i)
              (bound - runEnd value bound i) := by
          have joined := @List.range'_append_1 i (runEnd value bound i - i)
            (bound - runEnd value bound i)
          rw [Nat.add_sub_cancel' (Nat.le_of_lt above)] at joined
          rw [run, joined]
          congr 1
          omega
        have only : (run value bound i).filter (fun i => StartsRun value i) = [i] := by
          have length : runEnd value bound i - i = runEnd value bound i - i - 1 + 1 := by omega
          rw [run, length, List.range'_succ, List.filter_cons, if_pos (decide_eq_true isStart),
            List.filter_eq_nil_iff.mpr]
          intro j member
          rcases List.mem_range'_1.mp member with ⟨from_, before⟩
          have same := (equal (j - 1) (by omega) (by omega)).trans
            (equal j (by omega) (by omega)).symm
          rw [decide_eq_true_eq]
          intro isOther
          exact isOther.elim (by omega) fun differs => differs same
        rw [apart, List.filter_append, List.flatMap_append, only, List.flatMap_singleton, rest]

/-- Every index is in the run of one start. -/
theorem runStarts_flatMap (value : Nat → Value) (bound : Nat) :
    (runStarts value bound).flatMap (run value bound) = List.range bound := by
  have all := @flatMap_run_from _ _ value bound 0 (Nat.zero_le _) (.inr (.inl rfl))
  rwa [Nat.sub_zero, ← List.range_eq_range'] at all

end Runs

end JoinOperator.Foundation
