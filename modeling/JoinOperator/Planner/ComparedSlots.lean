import JoinOperator.Foundation.SteadySlots
import JoinOperator.Planner.ConnectedSubsets
import JoinOperator.Planner.PredicateOrder

/-! # Whether only scheduled predicates are compared with

`alreadyPrioritized` counts the predicates that are inserted behind a related one, of which a
round may have several, though it fills one slot.
-/

namespace JoinOperator.Planner

open Foundation RadixJoin

def iterationCount (q : Query) (start : Priorities) : Nat :=
  (q.numOfJoins - start.alreadyPrioritized) * q.numOfJoins

def afterIterations (joins : List Join) (sequence : List Char) (start : Priorities) (m : Nat) :
    Option Priorities :=
  (List.range m).foldlM (fun state m => prioritize joins sequence
    (start.alreadyPrioritized + m / joins.length) state (m % joins.length)) start

theorem afterIterations_mul (joins : List Join) (sequence : List Char) (start : Priorities)
    (count : Nat) : afterIterations joins sequence start (count * joins.length) =
      (List.range' start.alreadyPrioritized count).foldlM (fun state j =>
        (List.range joins.length).foldlM (prioritize joins sequence j) state) start := by
  rw [afterIterations, ← foldlM_nested fun a => prioritize joins sequence
    (start.alreadyPrioritized + a), List.range'_eq_map_range, List.foldlM_map]

/-- The iterations are those of `SetPriorities`. -/
theorem setPriorities_iterations (sequence : List Char) (q : Query) :
    setPriorities sequence q = (startState sequence q).bind fun start =>
      (afterIterations q.joins sequence start (iterationCount q start)).map
        Priorities.priorities := by
  rw [setPriorities_start]
  congr 1
  funext start
  rw [iterationCount, Query.numOfJoins, afterIterations_mul]

section Iterations

variable {joins : List Join} {sequence : List Char} {state next start : Priorities}
  {slots : Slots Nat} {j k m : Nat}

/-- How far the slots are filled before the iteration for the slot `j` and the predicate `k`: up
to `j`, and including it unless all predicates so far were covered. -/
structure Progress (joins : List Join) (sequence : List Char) (j k : Nat) (slots : Slots Nat) :
    Prop where
  valid : ∀ id ∈ slots.filled, id < joins.length
  reaches : (∀ other ∈ visited sequence joins.length,
      Likeness.Covered (joinLikeness joins) slots other) ∨
    slots.filled.length = j + 1 ∨
    (slots.filled.length = j ∧ ∀ other ∈ visited sequence joins.length, other < k →
      Likeness.Covered (joinLikeness joins) slots other)

theorem mem_visited (inside : k < joins.length) (outside : existsInComb sequence k = false) :
    k ∈ visited sequence joins.length :=
  List.mem_filter.mpr ⟨List.mem_range.mpr inside, by simp [outside]⟩

theorem Progress.round (progress : Progress joins sequence j joins.length slots) :
    Progress joins sequence (j + 1) 0 slots := by
  refine ⟨progress.valid, ?_⟩
  rcases progress.reaches with covered | full | ⟨_, covered⟩
  · exact .inl covered
  · right
    right
    refine ⟨full, ?_⟩
    intro other _ below
    exact absurd below (Nat.not_lt_zero other)
  · left
    intro other member
    exact covered other member (visited_lt other member)

theorem Progress.same (progress : Progress joins sequence j k slots)
    (covered : existsInComb sequence k = false →
      Likeness.Covered (joinLikeness joins) slots k) :
    Progress joins sequence j (k + 1) slots := by
  refine ⟨progress.valid, ?_⟩
  rcases progress.reaches with all | full | ⟨free, before⟩
  · exact .inl all
  · exact .inr (.inl full)
  · right
    right
    refine ⟨free, ?_⟩
    intro other member below
    rcases Nat.lt_succ_iff_lt_or_eq.mp below with isBefore | isLast
    · exact before other member isBefore
    · subst isLast
      have outside := (List.mem_filter.mp member).2
      exact covered (by simpa using outside)

theorem Progress.fills (progress : Progress joins sequence j k slots)
    (isPredicate : k < joins.length) (outside : existsInComb sequence k = false)
    (uncovered : ¬ Likeness.Covered (joinLikeness joins) slots k) : Fills joins j slots := by
  rcases progress.reaches with all | full | ⟨free, _⟩
  · exact absurd (all k (mem_visited isPredicate outside)) uncovered
  · exact ⟨progress.valid, by omega, by omega⟩
  · exact ⟨progress.valid, by omega, by omega⟩

/-- The step lemma: the slots are filled further, and up to `j` if the predicate is inserted. -/
theorem Progress.step (few : joins.length ≤ noPriority) (inside : j < joins.length)
    (isPredicate : k < joins.length) (progress : Progress joins sequence j k slots)
    (ran : prioritize joins sequence j (prioritiesOf joins.length slots) k = some next) :
    ∃ after, next = prioritiesOf joins.length after ∧
      Progress joins sequence j (k + 1) after ∧
      slots.filled.length ≤ after.filled.length ∧
      (after.visible ≠ slots.visible → after.filled.length = j + 1) := by
  by_cases idle : existsInComb sequence k = false →
      Likeness.Covered (joinLikeness joins) slots k
  · rw [prioritize_covered progress.valid isPredicate idle] at ran
    cases ran
    exact ⟨slots, rfl, progress.same idle, Nat.le_refl _, fun grown => absurd rfl grown⟩
  · rw [Classical.not_imp] at idle
    rcases idle with ⟨outside, uncovered⟩
    have fills := progress.fills isPredicate outside uncovered
    rw [prioritize_eq (List.getElem?_eq_getElem isPredicate) few outside fills.valid fills.reaches
      fills.bounded inside] at ran
    rcases Option.map_eq_some_iff.mp ran with ⟨after, visit, rfl⟩
    have afterFills := fills.visit isPredicate visit
    rcases (Likeness.visit_cases visit).length_eq fills.reaches with ⟨_, covered⟩ | full
    · exact absurd covered uncovered
    · refine ⟨after, rfl, ⟨afterFills.valid, .inr (.inl full)⟩, ?_, fun _ => full⟩
      have bounded := fills.bounded
      omega

theorem Progress.succ (positive : 0 < joins.length) {first : Nat}
    (progress : Progress joins sequence (first + m / joins.length) (m % joins.length + 1) slots) :
    Progress joins sequence (first + (m + 1) / joins.length) ((m + 1) % joins.length) slots := by
  have split := Nat.div_add_mod m joins.length
  have below := Nat.mod_lt m positive
  by_cases inRound : m % joins.length + 1 < joins.length
  · have parts := (Nat.div_mod_unique positive).mpr
      ⟨show m % joins.length + 1 + joins.length * (m / joins.length) = m + 1 by omega, inRound⟩
    rw [parts.1, parts.2]
    exact progress
  · have atEnd : m % joins.length + 1 = joins.length := by omega
    have parts := (Nat.div_mod_unique positive).mpr
      ⟨show 0 + joins.length * (m / joins.length + 1) = m + 1 by rw [Nat.mul_succ]; omega,
        positive⟩
    rw [parts.1, parts.2]
    rw [atEnd] at progress
    exact progress.round

theorem slot_lt {first : Nat} (inside : m < (joins.length - first) * joins.length) :
    first + m / joins.length < joins.length := by
  rw [Nat.mul_comm] at inside
  rw [Nat.add_comm]
  exact Nat.add_lt_of_lt_sub (Nat.div_lt_of_lt_mul inside)

section Reached

variable {q : Query} {known : List Nat}

end Reached

end Iterations

end JoinOperator.Planner
