import JoinOperator.Foundation.PartialResults
import Mathlib.Algebra.BigOperators.Group.List.Basic
import Mathlib.Data.List.Forall2

/-! # All tuples of a query

The solutions of a query, picked from all tuples of values below the bounds. This is what a
complete part has, in any order of its attributes.
-/

namespace JoinOperator.Foundation

def tuplesBelow : List Nat → List (List Nat)
  | [] => [[]]
  | bound :: bounds =>
      (List.range bound).flatMap fun value => (tuplesBelow bounds).map (value :: ·)

theorem mem_tuplesBelow {bounds tuple : List Nat} :
    tuple ∈ tuplesBelow bounds ↔ List.Forall₂ (· < ·) tuple bounds := by
  induction bounds generalizing tuple with
  | nil => rw [tuplesBelow, List.mem_singleton, List.forall₂_nil_right_iff]
  | cons bound bounds induction =>
      rw [tuplesBelow, List.mem_flatMap, List.forall₂_cons_right_iff]
      constructor
      · intro member
        rcases member with ⟨value, below, inRest⟩
        rcases List.mem_map.mp inRest with ⟨rest, isRest, rfl⟩
        exact ⟨value, rest, List.mem_range.mp below, induction.mp isRest, rfl⟩
      · intro related
        rcases related with ⟨value, rest, below, isRest, rfl⟩
        exact ⟨value, List.mem_range.mpr below, List.mem_map_of_mem (induction.mpr isRest)⟩

theorem nodup_tuplesBelow (bounds : List Nat) : (tuplesBelow bounds).Nodup := by
  induction bounds with
  | nil => exact List.nodup_singleton _
  | cons bound bounds induction =>
      apply List.nodup_flatMap.mpr
      constructor
      · intro value _
        exact induction.map fun _ _ equal => (List.cons.inj equal).2
      · apply List.nodup_range.imp
        intro value other differs tuple isFirst isSecond
        rcases List.mem_map.mp isFirst with ⟨rest, _, rfl⟩
        rcases List.mem_map.mp isSecond with ⟨rest', _, equal⟩
        exact differs (List.cons.inj equal).1.symm

theorem length_tuplesBelow (bounds : List Nat) : (tuplesBelow bounds).length = bounds.prod := by
  induction bounds with
  | nil => rfl
  | cons bound bounds induction =>
      rw [tuplesBelow, List.length_flatMap, List.prod_cons, ← induction]
      simp only [List.length_map, List.map_const', List.length_range, List.sum_replicate_nat]

variable {Attr : Type*} [DecidableEq Attr]

/-- The tuples over `attrs` that satisfy the conditions on them. -/
def solutions (bound : Attr → Nat) (conditions : List (Condition Attr)) (attrs : List Attr) :
    List (List Nat) :=
  (tuplesBelow (attrs.map bound)).filter fun tuple =>
    conditions.all fun c => decide (c.attrs ⊆ attrs → c.holds (valueAt attrs tuple) = true)

section Solutions

variable {bound : Attr → Nat} {conditions others : List (Condition Attr)} {attrs : List Attr}
  {tuple : List Nat}

theorem forall₂_lt_iff (nodup : attrs.Nodup) :
    List.Forall₂ (· < ·) tuple (attrs.map bound) ↔
      tuple.length = attrs.length ∧ ∀ attr ∈ attrs, valueAt attrs tuple attr < bound attr := by
  constructor
  · intro related
    rcases List.forall₂_iff_get.mp related with ⟨length, below⟩
    have sameLength := length
    rw [List.length_map] at sameLength
    refine ⟨sameLength, fun attr member => ?_⟩
    have inside := List.idxOf_lt_length_iff.mpr member
    have isBelow := below (attrs.idxOf attr) (sameLength ▸ inside) (by rwa [List.length_map])
    rw [valueAt, List.getD_eq_getElem _ _ (sameLength ▸ inside)]
    simpa using isBelow
  · intro bounded
    apply List.forall₂_iff_get.mpr
    refine ⟨by rw [bounded.1, List.length_map], fun i inside inside' => ?_⟩
    rw [List.length_map] at inside'
    have isBelow := bounded.2 attrs[i] (List.getElem_mem inside')
    rw [valueAt, nodup.idxOf_getElem, List.getD_eq_getElem _ _ inside] at isBelow
    simpa using isBelow

theorem mem_solutions (nodup : attrs.Nodup) :
    tuple ∈ solutions bound conditions attrs ↔ IsSolution bound conditions attrs tuple := by
  rw [solutions, List.mem_filter, mem_tuplesBelow, forall₂_lt_iff nodup, List.all_eq_true]
  constructor
  · intro member
    exact ⟨member.1.1, member.1.2, fun c isCondition => of_decide_eq_true (member.2 c isCondition)⟩
  · intro solution
    exact ⟨⟨solution.length, solution.bounded⟩, fun c isCondition =>
      decide_eq_true (solution.satisfied c isCondition)⟩

theorem complete_solutions (nodup : attrs.Nodup) :
    PartialResult.Complete bound conditions ⟨attrs, solutions bound conditions attrs⟩ where
  once := (nodup_tuplesBelow _).filter _
  exact := fun _ => mem_solutions nodup

theorem solutions_congr
    (same : ∀ c, c.attrs ⊆ attrs → (c ∈ conditions ↔ c ∈ others)) :
    solutions bound conditions attrs = solutions bound others attrs := by
  rw [solutions, solutions]
  congr 1
  funext tuple
  rw [Bool.eq_iff_iff, List.all_eq_true, List.all_eq_true]
  constructor
  · intro holds c isOther
    apply decide_eq_true
    intro inside
    exact of_decide_eq_true (holds c ((same c inside).mpr isOther)) inside
  · intro holds c isCondition
    apply decide_eq_true
    intro inside
    exact of_decide_eq_true (holds c ((same c inside).mp isCondition)) inside

end Solutions

section Parts

variable {bound : Attr → Nat} {touched : Set Attr} {conditions : List (Condition Attr)}
  {parts : List (PartialResult Attr)} {part : PartialResult Attr} {attrs : List Attr}

/-- A complete part has the solutions, whatever the order of the attributes. -/
theorem PartialResult.Complete.perm_solutions (complete : part.Complete bound conditions)
    (nodup : part.attrs.Nodup) (nodup' : attrs.Nodup) (same : ∀ a, a ∈ part.attrs ↔ a ∈ attrs) :
    (part.readAs attrs).Perm (solutions bound conditions attrs) :=
  @PartialResult.Complete.readAs_perm _ _ _ _ ⟨attrs, solutions bound conditions attrs⟩ part
    (complete_solutions nodup') complete nodup' nodup same

theorem PartialResult.Complete.length_tuples (complete : part.Complete bound conditions)
    (nodup : part.attrs.Nodup) :
    part.tuples.length = (solutions bound conditions part.attrs).length := by
  have perm := complete.perm_solutions nodup nodup fun _ => Iff.rfl
  rw [← perm.length_eq, PartialResult.readAs, List.length_map]

theorem Evaluates.attrs_subset (evaluates : Evaluates bound touched conditions parts)
    {S : Set Attr} (closed : ∀ c ∈ conditions, ∀ a ∈ c.attrs, a ∈ S → ∀ b ∈ c.attrs, b ∈ S)
    (isPart : part ∈ parts) {a : Attr} (isAttr : a ∈ part.attrs) (inside : a ∈ S) :
    ∀ b ∈ part.attrs, b ∈ S := by
  have same : ∀ a b, Relation.EqvGen (Linked conditions) a b → (a ∈ S ↔ b ∈ S) := by
    intro a b linked
    induction linked with
    | rel a b linked =>
        rcases linked with ⟨c, isCondition, isA, isB⟩
        exact ⟨fun inS => closed c isCondition a isA inS b isB,
          fun inS => closed c isCondition b isB inS a isA⟩
    | refl a => exact Iff.rfl
    | symm a b _ induction => exact induction.symm
    | trans a b d _ _ first second => exact first.trans second
  intro b isB
  exact (same a b (evaluates.connected part isPart a isAttr b isB)).mp inside

end Parts

end JoinOperator.Foundation
