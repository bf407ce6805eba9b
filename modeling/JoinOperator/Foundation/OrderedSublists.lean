import Mathlib.Data.List.Sort
import Mathlib.Data.List.Sublists

/-! # Sublists of an ordered list -/

namespace JoinOperator.Foundation

theorem pairwise_lex_sublistsLen {Item : Type*} {relation : Item → Item → Prop}
    {items : List Item} (ordered : items.Pairwise relation) (count : Nat) :
    (items.sublistsLen count).reverse.Pairwise (List.Lex relation) := by
  induction items generalizing count with
  | nil =>
      cases count with
      | zero => exact List.pairwise_singleton _ _
      | succ count => exact List.Pairwise.nil
  | cons item items induction =>
      cases count with
      | zero =>
          rw [List.sublistsLen_zero]
          exact List.pairwise_singleton _ _
      | succ count =>
          rcases List.pairwise_cons.mp ordered with ⟨before, rest⟩
          rw [List.sublistsLen_succ_cons, List.reverse_append, List.pairwise_append,
            ← List.map_reverse, List.pairwise_map]
          refine ⟨(induction rest count).imp List.Lex.cons, induction rest (count + 1), ?_⟩
          -- a sublist with the first item comes before one that starts later
          intro first memberFirst second memberSecond
          rcases List.mem_map.mp memberFirst with ⟨remaining, _, rfl⟩
          rcases List.mem_sublistsLen.mp (List.mem_reverse.mp memberSecond) with
            ⟨sublist, length⟩
          cases second with
          | nil => cases length
          | cons other second =>
              exact List.Lex.rel (before other (sublist.subset List.mem_cons_self))

/-- The sublists of consecutive numbers are the increasing sequences of them. -/
theorem sublist_range'_iff {list : List Nat} {first count : Nat} :
    list.Sublist (List.range' first count) ↔
      list.Pairwise (· < ·) ∧ ∀ item ∈ list, first ≤ item ∧ item < first + count := by
  constructor
  · intro sublist
    refine ⟨List.Pairwise.sublist sublist List.pairwise_lt_range', ?_⟩
    intro item member
    exact List.mem_range'_1.mp (sublist.subset member)
  · rintro ⟨increasing, inside⟩
    have nodup : list.Nodup := increasing.imp Nat.ne_of_lt
    have subset : list ⊆ List.range' first count := fun item member =>
      List.mem_range'_1.mpr (inside item member)
    exact List.sublist_of_subperm_of_pairwise (nodup.subperm subset) increasing
      List.pairwise_lt_range'

end JoinOperator.Foundation
