import Mathlib.Data.List.Basic
import Mathlib.Logic.Function.Basic
import Mathlib.Order.Lattice

/-! # Tables of cheapest nodes

Each step computes a candidate for one slot from some other slots, and puts it there if it is
cheaper than what the slot has. If no step changes a slot that an earlier one has read, the table
solves the recurrence that the steps spell out.
-/

namespace JoinOperator.Foundation

structure Relaxation (Slot Node : Type*) where
  sources : List Slot
  target : Slot
  candidate : (Slot → Option Node) → Option Node
  reads : ∀ {table other : Slot → Option Node}, (∀ slot ∈ sources, table slot = other slot) →
    candidate table = candidate other

namespace Relaxation

variable {Slot Node Cost : Type*} [DecidableEq Slot] [LinearOrder Cost]

def cheaper (cost : Node → Cost) (old : Option Node) (node : Node) : Node :=
  match old with
  | none => node
  | some old => if cost old > cost node then node else old

def relax (cost : Node → Cost) (table : Slot → Option Node) (step : Relaxation Slot Node) :
    Slot → Option Node :=
  match step.candidate table with
  | none => table
  | some node =>
      Function.update table step.target (some (cheaper cost (table step.target) node))

def run (cost : Node → Cost) (steps : List (Relaxation Slot Node))
    (table : Slot → Option Node) : Slot → Option Node :=
  steps.foldl (relax cost) table

def Keeps (cost : Node → Cost) (slot : Slot) (step : Relaxation Slot Node) : Prop :=
  ∀ table, relax cost table step slot = table slot

/-- No step changes what it has read itself, or what an earlier one has read. -/
structure Ordered (cost : Node → Cost) (steps : List (Relaxation Slot Node)) : Prop where
  own : ∀ step ∈ steps, ∀ slot ∈ step.sources, Keeps cost slot step
  earlier : steps.Pairwise fun step later => ∀ slot ∈ step.sources, Keeps cost slot later

variable {cost : Node → Cost} {table : Slot → Option Node} {step : Relaxation Slot Node}
variable {steps : List (Relaxation Slot Node)} {slot : Slot} {node : Node}

theorem cheaper_le (old : Option Node) (node : Node) :
    cost (cheaper cost old node) ≤ cost node := by
  cases old with
  | none => exact le_refl _
  | some old =>
      rw [cheaper]
      split
      · exact le_refl _
      · rename_i keeps
        exact not_lt.mp keeps

theorem cheaper_le_old (old node : Node) : cost (cheaper cost (some old) node) ≤ cost old := by
  rw [cheaper]
  split
  · rename_i cheaper
    exact le_of_lt cheaper
  · exact le_refl _

theorem relax_of_none (idle : step.candidate table = none) : relax cost table step = table := by
  rw [relax, idle]

theorem relax_of_some (isCandidate : step.candidate table = some node) :
    relax cost table step =
      Function.update table step.target (some (cheaper cost (table step.target) node)) := by
  rw [relax, isCandidate]

theorem keeps_of_ne (different : slot ≠ step.target) : Keeps cost slot step := by
  intro table
  cases isCandidate : step.candidate table with
  | none => rw [relax_of_none isCandidate]
  | some node => rw [relax_of_some isCandidate, Function.update_of_ne different]

theorem keeps_of_none (idle : ∀ table, step.candidate table = none) :
    Keeps cost slot step := by
  intro table
  rw [relax_of_none (idle table)]

theorem relax_le (cost : Node → Cost) (step : Relaxation Slot Node) {old : Node}
    (get : table slot = some old) :
    ∃ best, relax cost table step slot = some best ∧ cost best ≤ cost old := by
  cases isCandidate : step.candidate table with
  | none =>
      rw [relax_of_none isCandidate]
      exact ⟨old, get, le_refl _⟩
  | some node =>
      by_cases isTarget : slot = step.target
      · subst isTarget
        rw [relax_of_some isCandidate, Function.update_self, get]
        exact ⟨_, rfl, cheaper_le_old old node⟩
      · exact ⟨old, (keeps_of_ne isTarget table).trans get, le_refl _⟩

/-- A step leaves a slot as it was, or fills it with its candidate. -/
theorem relax_cases (filled : relax cost table step slot = some node) :
    table slot = some node ∨ step.target = slot ∧ step.candidate table = some node := by
  cases isCandidate : step.candidate table with
  | none =>
      rw [relax_of_none isCandidate] at filled
      exact .inl filled
  | some other =>
      by_cases isTarget : slot = step.target
      · subst isTarget
        rw [relax_of_some isCandidate, Function.update_self, Option.some.injEq] at filled
        cases get : table step.target with
        | none =>
            rw [get, cheaper] at filled
            exact .inr ⟨rfl, congrArg some filled⟩
        | some old =>
            rw [get, cheaper] at filled
            split at filled
            · exact .inr ⟨rfl, congrArg some filled⟩
            · exact .inl (congrArg some filled)
      · exact .inl ((keeps_of_ne isTarget table).symm.trans filled)

theorem run_cons : run cost (step :: steps) table = run cost steps (relax cost table step) :=
  rfl

theorem run_keeps (keeps : ∀ step ∈ steps, Keeps cost slot step) :
    run cost steps table slot = table slot := by
  induction steps generalizing table with
  | nil => rfl
  | cons step steps induction =>
      rw [run_cons, induction fun later member => keeps later (List.mem_cons_of_mem _ member)]
      exact keeps step List.mem_cons_self table

theorem run_le (cost : Node → Cost) (steps : List (Relaxation Slot Node)) {old : Node}
    (get : table slot = some old) :
    ∃ best, run cost steps table slot = some best ∧ cost best ≤ cost old := by
  induction steps generalizing table old with
  | nil => exact ⟨old, get, le_refl _⟩
  | cons step steps induction =>
      rcases relax_le cost step get with ⟨next, getNext, cheaper⟩
      rcases induction getNext with ⟨best, getBest, cheapest⟩
      exact ⟨best, getBest, le_trans cheapest cheaper⟩

theorem Ordered.sublist {selected : List (Relaxation Slot Node)} (ordered : Ordered cost steps)
    (sublist : selected.Sublist steps) : Ordered cost selected where
  own := fun step member => ordered.own step (sublist.subset member)
  earlier := ordered.earlier.sublist sublist

theorem Ordered.source_eq (ordered : Ordered cost (step :: steps)) (isSource : slot ∈ step.sources) :
    run cost (step :: steps) table slot = table slot := by
  apply run_keeps
  intro later member
  cases List.mem_cons.mp member with
  | inl isStep => exact isStep ▸ ordered.own step List.mem_cons_self slot isSource
  | inr isLater => exact (List.pairwise_cons.mp ordered.earlier).1 later isLater slot isSource

theorem Ordered.candidate_eq (ordered : Ordered cost (step :: steps)) :
    step.candidate (run cost (step :: steps) table) = step.candidate table :=
  step.reads fun _ isSource => ordered.source_eq isSource

/-- Each candidate that the final table has for a slot costs at least as much as its node. -/
theorem Ordered.run_least (ordered : Ordered cost steps) (member : step ∈ steps) {other : Node}
    (isCandidate : step.candidate (run cost steps table) = some other) :
    ∃ best, run cost steps table step.target = some best ∧ cost best ≤ cost other := by
  induction steps generalizing table with
  | nil => cases member
  | cons first steps induction =>
      cases List.mem_cons.mp member with
      | inl isFirst =>
          subst isFirst
          rw [ordered.candidate_eq] at isCandidate
          have getNext : relax cost table step step.target =
              some (cheaper cost (table step.target) other) := by
            rw [relax_of_some isCandidate, Function.update_self]
          rcases run_le cost steps getNext with ⟨best, getBest, cheapest⟩
          exact ⟨best, getBest, le_trans cheapest (cheaper_le _ other)⟩
      | inr inRest =>
          have tail := ordered.sublist (List.sublist_cons_self first steps)
          exact induction tail inRest isCandidate

/-- A node of the final table was there before, or is a candidate that the final table has. -/
theorem Ordered.run_attained (ordered : Ordered cost steps)
    (get : run cost steps table slot = some node) :
    table slot = some node ∨
      ∃ step ∈ steps, step.target = slot ∧
        step.candidate (run cost steps table) = some node := by
  induction steps generalizing table with
  | nil => exact .inl get
  | cons first steps induction =>
      have tail := ordered.sublist (List.sublist_cons_self first steps)
      cases induction tail get with
      | inl atFirst =>
          cases relax_cases atFirst with
          | inl before => exact .inl before
          | inr isFirst =>
              right
              refine ⟨first, List.mem_cons_self, isFirst.1, ?_⟩
              rw [ordered.candidate_eq]
              exact isFirst.2
      | inr isLater =>
          rcases isLater with ⟨later, member, isTarget, isCandidate⟩
          exact .inr ⟨later, List.mem_cons_of_mem _ member, isTarget, isCandidate⟩

end Relaxation

end JoinOperator.Foundation
