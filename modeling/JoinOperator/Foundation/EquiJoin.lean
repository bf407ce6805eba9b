import Mathlib.Data.List.Perm.Basic
import Mathlib.Data.List.Flatten
import Mathlib.Data.List.Nodup
import Mathlib.Data.List.ProdSigma

/-! # Equi-joins of lists

The bag of all pairs with equal keys, and how it splits over concatenations,
permutations and filters of its two sides.
-/

namespace JoinOperator.Foundation

variable {Left Right Key : Type*} [DecidableEq Key]
  {left : Left → Key} {right : Right → Key}

/-- All pairs of an element of `as` and an element of `bs` with equal keys. -/
def equiJoin (left : Left → Key) (right : Right → Key) (as : List Left)
    (bs : List Right) : List (Left × Right) :=
  as.flatMap fun a => (bs.filter fun b => left a = right b).map fun b => (a, b)

@[simp] theorem equiJoin_nil_left (bs : List Right) :
    equiJoin left right [] bs = [] := rfl

@[simp] theorem equiJoin_nil_right (as : List Left) :
    equiJoin left right as [] = [] := by
  simp [equiJoin]

theorem equiJoin_cons_left (a : Left) (as : List Left) (bs : List Right) :
    equiJoin left right (a :: as) bs =
      (bs.filter fun b => left a = right b).map (fun b => (a, b)) ++
        equiJoin left right as bs := rfl

@[simp] theorem mem_equiJoin {as : List Left} {bs : List Right} {a : Left} {b : Right} :
    (a, b) ∈ equiJoin left right as bs ↔ a ∈ as ∧ b ∈ bs ∧ left a = right b := by
  simp [equiJoin]

theorem equiJoin_append_left (as as' : List Left) (bs : List Right) :
    equiJoin left right (as ++ as') bs =
      equiJoin left right as bs ++ equiJoin left right as' bs := by
  simp [equiJoin]

theorem equiJoin_append_right (as : List Left) (bs bs' : List Right) :
    (equiJoin left right as (bs ++ bs')).Perm
      (equiJoin left right as bs ++ equiJoin left right as bs') := by
  induction as with
  | nil => simp
  | cons a as induction =>
      simp only [equiJoin_cons_left, List.filter_append, List.map_append,
        List.append_assoc]
      apply List.Perm.append_left
      refine (List.Perm.append_left _ induction).trans ?_
      rw [← List.append_assoc, ← List.append_assoc]
      exact List.perm_append_comm.append_right _

theorem equiJoin_perm_left {as as' : List Left} (perm : as.Perm as') (bs : List Right) :
    (equiJoin left right as bs).Perm (equiJoin left right as' bs) :=
  perm.flatMap_right _

theorem equiJoin_perm_right (as : List Left) {bs bs' : List Right} (perm : bs.Perm bs') :
    (equiJoin left right as bs).Perm (equiJoin left right as bs') := by
  apply List.Perm.flatMap_left
  intro a _
  exact (perm.filter _).map _

theorem equiJoin_perm {as as' : List Left} {bs bs' : List Right} (permLeft : as.Perm as')
    (permRight : bs.Perm bs') :
    (equiJoin left right as bs).Perm (equiJoin left right as' bs') :=
  (equiJoin_perm_left permLeft bs).trans (equiJoin_perm_right as' permRight)

theorem equiJoin_singleton_right (as : List Left) (b : Right) :
    equiJoin left right as [b] =
      (as.filter fun a => left a = right b).map fun a => (a, b) := by
  induction as with
  | nil => rfl
  | cons a as induction =>
      rw [equiJoin_cons_left, induction]
      by_cases equal : left a = right b <;> simp [equal]

theorem equiJoin_swap (left : Left → Key) (right : Right → Key) (as : List Left)
    (bs : List Right) :
    ((equiJoin left right as bs).map Prod.swap).Perm (equiJoin right left bs as) := by
  induction bs with
  | nil => simp
  | cons b bs induction =>
      have split : (equiJoin left right as (b :: bs)).Perm
          (equiJoin left right as [b] ++ equiJoin left right as bs) :=
        equiJoin_append_right as [b] bs
      refine (split.map Prod.swap).trans ?_
      rw [List.map_append, equiJoin_singleton_right, equiJoin_cons_left]
      apply List.Perm.append _ induction
      simp [Function.comp_def, eq_comm]

theorem equiJoin_filter_left (keep : Left → Prop) [DecidablePred keep] (as : List Left)
    (bs : List Right) (kept : ∀ a ∈ as, ∀ b ∈ bs, left a = right b → keep a) :
    equiJoin left right (as.filter fun a => keep a) bs = equiJoin left right as bs := by
  induction as with
  | nil => rfl
  | cons a as induction =>
      have rest := induction fun a member => kept a (List.mem_cons_of_mem _ member)
      by_cases keeps : keep a
      · rw [List.filter_cons_of_pos (by simpa using keeps), equiJoin_cons_left,
          equiJoin_cons_left, rest]
      · rw [List.filter_cons_of_neg (by simpa using keeps), equiJoin_cons_left, rest]
        have noMatch : (bs.filter fun b => left a = right b) = [] := by
          rw [List.filter_eq_nil_iff]
          intro b member
          simpa using fun equal => keeps (kept a (by simp) b member equal)
        rw [noMatch, List.map_nil, List.nil_append]

theorem equiJoin_map {Left' Right' : Type*} (first : Left' → Left) (second : Right' → Right)
    (as : List Left') (bs : List Right') :
    equiJoin left right (as.map first) (bs.map second) =
      (equiJoin (fun a => left (first a)) (fun b => right (second b)) as bs).map
        (Prod.map first second) := by
  simp only [equiJoin, List.flatMap_map, List.map_flatMap, List.filter_map, List.map_map]
  rfl

theorem equiJoin_eq_filter (as : List Left) (bs : List Right) :
    equiJoin left right as bs = (as ×ˢ bs).filter fun pair => left pair.1 = right pair.2 := by
  induction as with
  | nil => rfl
  | cons a as induction =>
      rw [equiJoin_cons_left, List.product_cons, List.filter_append, induction, List.filter_map]
      rfl

section Groups

variable {Left' Right' : Type*} {left' : Left' → Key} {right' : Right' → Key}

theorem pairs_perm (as : List Left) (bs : List Right) :
    (bs.flatMap fun b => as.map fun a => (a, b)).Perm (as.flatMap fun a => bs.map fun b => (a, b)) := by
  induction bs with
  | nil => simp
  | cons b bs induction =>
      rw [List.flatMap_cons]
      refine (List.Perm.append_left _ induction).trans ?_
      exact List.map_append_flatMap_perm as (fun a => (a, b)) fun a => bs.map fun b => (a, b)

/-- Elements of the left side that stand for groups with their key. -/
theorem equiJoin_groups_left {group : Left → List Left'} {as : List Left}
    (keys : ∀ a ∈ as, ∀ a' ∈ group a, left' a' = left a) (bs : List Right) :
    ((equiJoin left right as bs).flatMap fun pair =>
      (group pair.1).map fun a' => (a', pair.2)).Perm
        (equiJoin left' right (as.flatMap group) bs) := by
  induction as with
  | nil => exact .refl _
  | cons a as induction =>
      have rest := induction fun other member => keys other (List.mem_cons_of_mem _ member)
      rw [equiJoin_cons_left, List.flatMap_append, List.flatMap_cons, equiJoin_append_left]
      apply List.Perm.append _ rest
      have same : equiJoin left' right (group a) bs =
          (group a).flatMap fun a' =>
            (bs.filter fun b => left a = right b).map fun b => (a', b) := by
        rw [equiJoin]
        apply List.flatMap_congr
        intro a' member
        rw [keys a List.mem_cons_self a' member]
      rw [same, List.flatMap_map]
      exact pairs_perm (group a) (bs.filter fun b => left a = right b)

theorem equiJoin_groups_right {group : Right → List Right'} {bs : List Right} (as : List Left)
    (keys : ∀ b ∈ bs, ∀ b' ∈ group b, right' b' = right b) :
    (equiJoin left right as bs).flatMap (fun pair =>
      (group pair.2).map fun b' => (pair.1, b')) =
        equiJoin left right' as (bs.flatMap group) := by
  rw [equiJoin, equiJoin, List.flatMap_assoc]
  apply List.flatMap_congr
  intro a _
  induction bs with
  | nil => rfl
  | cons b bs induction =>
      have rest := induction fun other member => keys other (List.mem_cons_of_mem _ member)
      have isKey := keys b List.mem_cons_self
      rw [List.flatMap_cons, List.filter_append, List.map_append, ← rest]
      by_cases equal : left a = right b
      · have all : (group b).filter (fun b' => left a = right' b') = group b := by
          rw [List.filter_eq_self]
          intro b' member
          rw [isKey b' member]
          exact decide_eq_true equal
        rw [List.filter_cons_of_pos (by simpa using equal), all]
        rfl
      · have none : (group b).filter (fun b' => left a = right' b') = [] := by
          rw [List.filter_eq_nil_iff]
          intro b' member
          rw [isKey b' member]
          simpa using equal
        rw [List.filter_cons_of_neg (by simpa using equal), none]
        rfl

end Groups

end JoinOperator.Foundation
