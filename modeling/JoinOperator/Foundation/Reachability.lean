import Mathlib.Logic.Relation

/-! # Reachable states

The small vocabulary shared by the transition systems of this development. It
is independent of what the states are.
-/

namespace JoinOperator.Foundation

variable {State : Type*} {Initial : State → Prop} {Step : State → State → Prop}

/-- `state` ends a finite run of `Step` that starts in an initial state. -/
def Reachable (Initial : State → Prop) (Step : State → State → Prop)
    (state : State) : Prop :=
  ∃ start, Initial start ∧ Relation.ReflTransGen Step start state

namespace Reachable

theorem start {state : State} (initial : Initial state) :
    Reachable Initial Step state :=
  ⟨state, initial, .refl⟩

theorem next {state after : State} (reachable : Reachable Initial Step state)
    (step : Step state after) : Reachable Initial Step after := by
  rcases reachable with ⟨start, initial, run⟩
  exact ⟨start, initial, run.tail step⟩

/-- The invariant rule. What holds initially and is kept by every step from a
reachable state holds in every reachable state. -/
theorem invariant {Invariant : State → Prop}
    (holdsInitially : ∀ state, Initial state → Invariant state)
    (keptByStep : ∀ state after, Reachable Initial Step state →
      Invariant state → Step state after → Invariant after)
    {state : State} (reachable : Reachable Initial Step state) :
    Invariant state := by
  rcases reachable with ⟨start, initial, run⟩
  induction run with
  | refl => exact holdsInitially start initial
  | tail run step induction =>
      exact keptByStep _ _ ⟨start, initial, run⟩ induction step

theorem mono {Restricted : State → State → Prop}
    (included : ∀ before after, Restricted before after → Step before after)
    {state : State} (reachable : Reachable Initial Restricted state) :
    Reachable Initial Step state := by
  rcases reachable with ⟨start, initial, run⟩
  exact ⟨start, initial, Relation.ReflTransGen.mono included _ _ run⟩

end Reachable

end JoinOperator.Foundation
