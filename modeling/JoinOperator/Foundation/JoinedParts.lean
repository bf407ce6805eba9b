import JoinOperator.Foundation.AllTuples

/-! # Joined parts

Two complete parts are joined on one condition, whatever conditions were evaluated in each.
-/

namespace JoinOperator.Foundation

namespace PartialResult.Complete

variable {Attr : Type*} [DecidableEq Attr] {bound : Attr → Nat}
  {conditions others : List (Condition Attr)} {part left right : PartialResult Attr}
  {c : Condition Attr}

theorem congr (complete : part.Complete bound conditions)
    (same : ∀ c, c.attrs ⊆ part.attrs → (c ∈ conditions ↔ c ∈ others)) :
    part.Complete bound others where
  once := complete.once
  exact := by
    intro tuple
    rw [complete.exact]
    constructor
    · intro solution
      exact ⟨solution.length, solution.bounded, fun c member inside =>
        solution.satisfied c ((same c inside).mpr member) inside⟩
    · intro solution
      exact ⟨solution.length, solution.bounded, fun c member inside =>
        solution.satisfied c ((same c inside).mp member) inside⟩

theorem append_left (complete : left.Complete bound conditions)
    (disjoint : left.attrs.Disjoint right.attrs) (inside : ∀ c ∈ others, c.attrs ⊆ right.attrs) :
    left.Complete bound (conditions ++ others) := by
  apply complete.congr
  intro c inLeft
  rw [List.mem_append]
  constructor
  · exact .inl
  · intro member
    refine member.resolve_right fun isOther => ?_
    rcases c.exists_mem with ⟨attr, isAttr⟩
    exact disjoint (inLeft isAttr) (inside c isOther isAttr)

theorem join (isLeft : left.Complete bound conditions) (isRight : right.Complete bound others)
    (insideLeft : ∀ c ∈ conditions, c.attrs ⊆ left.attrs)
    (insideRight : ∀ c ∈ others, c.attrs ⊆ right.attrs)
    (disjoint : left.attrs.Disjoint right.attrs) (inside : c.attrs ⊆ left.attrs ++ right.attrs)
    {tuples : List (List Nat)}
    (perm : tuples.Perm (((left.tuples ×ˢ right.tuples).map fun pair => pair.1 ++ pair.2).filter
      fun tuple => c.holds (valueAt (left.attrs ++ right.attrs) tuple))) :
    PartialResult.Complete bound (conditions ++ others ++ [c])
      ⟨left.attrs ++ right.attrs, tuples⟩ := by
  have leftBoth : left.Complete bound (conditions ++ others) :=
    isLeft.append_left disjoint insideRight
  have rightBoth : right.Complete bound (conditions ++ others) := by
    apply (isRight.append_left (List.disjoint_symm disjoint) insideLeft).congr
    intro c _
    rw [List.mem_append, List.mem_append, or_comm]
  have apart : ∀ c ∈ conditions ++ others, c.attrs ⊆ left.attrs ++ right.attrs →
      c.attrs ⊆ left.attrs ∨ c.attrs ⊆ right.attrs := fun c member _ =>
    (List.mem_append.mp member).imp (insideLeft c) (insideRight c)
  exact (leftBoth.product rightBoth disjoint apart).select inside perm

end PartialResult.Complete

section OneAttribute

variable {Attr : Type*} [DecidableEq Attr] {bound : Attr → Nat}
  {conditions : List (Condition Attr)} {attr : Attr}

theorem complete_single {passes : Nat → Bool} (inside : ∀ c ∈ conditions, c.attrs ⊆ [attr])
    (exact : ∀ value < bound attr, passes value = conditions.all fun c => c.holds fun _ => value) :
    PartialResult.Complete bound conditions
      ⟨[attr], ((List.range (bound attr)).filter passes).map ([·])⟩ := by
  have same : ((List.range (bound attr)).filter passes).map ([·]) =
      solutions bound conditions [attr] := by
    have tuples : tuplesBelow ([attr].map bound) = (List.range (bound attr)).map ([·]) := by
      rw [List.map_singleton, tuplesBelow, tuplesBelow, List.map_eq_flatMap]
      rfl
    rw [solutions, tuples, List.filter_map]
    congr 1
    apply List.filter_congr
    intro value member
    rw [exact value (List.mem_range.mp member), Function.comp_apply, Bool.eq_iff_iff,
      List.all_eq_true, List.all_eq_true]
    have isValue {c : Condition Attr} (member : c ∈ conditions) :
        c.holds (valueAt [attr] [value]) = c.holds fun _ => value := by
      apply c.onAttrs
      intro other isAttr
      cases List.mem_singleton.mp (inside c member isAttr)
      simp [valueAt]
    constructor
    · intro holds c isCondition
      apply decide_eq_true
      intro _
      rw [isValue isCondition]
      exact holds c isCondition
    · intro holds c isCondition
      rw [← isValue isCondition]
      exact of_decide_eq_true (holds c isCondition) (inside c isCondition)
  rw [same]
  exact complete_solutions (List.nodup_singleton attr)

end OneAttribute

end JoinOperator.Foundation
