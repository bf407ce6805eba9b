import JoinOperator.Planner.RelationSets

/-! # All combinations are listed, once -/

namespace JoinOperator.Planner

private theorem combinationLoop_eq (n remaining : Nat) (data : List Nat) (count start : Nat)
    (left : n - start = count)
    (calls : ∀ data start, combinationUtil n remaining data start =
      ((List.range' start (n - start)).sublistsLen remaining).reverse.map (data ++ ·)) :
    combinationUtil n (remaining + 1) data start =
      ((List.range' start count).sublistsLen (remaining + 1)).reverse.map (data ++ ·) := by
  induction count generalizing start with
  | zero =>
      rw [combinationUtil, left]
      simp
  | succ count induction =>
      have rest := induction (start + 1) (by omega)
      rw [combinationUtil, show n - (start + 1) = count by omega] at rest
      rw [combinationUtil, left, List.range'_succ]
      by_cases enough : n - 1 - start + 1 ≥ remaining + 1
      · rw [List.takeWhile_cons, if_pos (decide_eq_true enough), List.flatMap_cons, rest, calls,
          show n - (start + 1) = count by omega, List.sublistsLen_succ_cons,
          List.reverse_append, List.map_append, ← List.map_reverse, List.map_map]
        congr 1
        apply List.map_congr_left
        intro combination _
        exact List.append_assoc ..
      · rw [List.takeWhile_cons, if_neg fun holds => enough (of_decide_eq_true holds),
          List.flatMap_nil, List.sublistsLen_of_length_lt]
        · rfl
        · rw [List.length_cons, List.length_range']
          omega

theorem combinationUtil_eq (n remaining : Nat) (data : List Nat) (start : Nat) :
    combinationUtil n remaining data start =
      ((List.range' start (n - start)).sublistsLen remaining).reverse.map (data ++ ·) := by
  induction remaining generalizing data start with
  | zero => simp [combinationUtil]
  | succ remaining induction =>
      exact combinationLoop_eq n remaining data (n - start) start rfl induction

theorem getCombination_eq (n r : Nat) :
    getCombination n r = ((List.range n).sublistsLen r).reverse.map combOf := by
  rw [getCombination, combinationUtil_eq, List.map_map, List.range_eq_range', Nat.sub_zero]
  rfl

theorem length_getCombination (n r : Nat) : (getCombination n r).length = n.choose r := by
  rw [getCombination_eq, List.length_map, List.length_reverse, List.length_sublistsLen,
    List.length_range]

/-- The array of combinations has room for all of them, and no more. -/
theorem numCombs_eq : ∀ n ≤ 10, ∀ r ≤ n,
    factorial n / (factorial r * factorial (n - r) % 2 ^ 64) = n.choose r := by
  decide

def relationsOf (n : Nat) (S : Finset Nat) : List Nat :=
  (List.range n).filter (· ∈ S)

theorem mem_relationsOf {n : Nat} {S : Finset Nat} (inside : ∀ r ∈ S, r < n) {r : Nat} :
    r ∈ relationsOf n S ↔ r ∈ S := by
  rw [relationsOf, List.mem_filter, List.mem_range, decide_eq_true_iff]
  exact ⟨And.right, fun member => ⟨inside r member, member⟩⟩

theorem toFinset_relationsOf {n : Nat} {S : Finset Nat} (inside : ∀ r ∈ S, r < n) :
    (relationsOf n S).toFinset = S := by
  ext r
  rw [List.mem_toFinset, mem_relationsOf inside]

theorem length_relationsOf {n : Nat} {S : Finset Nat} (inside : ∀ r ∈ S, r < n) :
    (relationsOf n S).length = S.card := by
  have nodup : (relationsOf n S).Nodup := List.nodup_range.filter _
  rw [← List.toFinset_card_of_nodup nodup, toFinset_relationsOf inside]

theorem mem_getCombination {n r : Nat} {comb : List Char} (member : comb ∈ getCombination n r) :
    ∃ order : List Nat, comb = combOf order ∧ order.Nodup ∧ order.length = r ∧
      ∀ relation ∈ order, relation < n := by
  rw [getCombination_eq] at member
  rcases List.mem_map.mp member with ⟨order, listed, rfl⟩
  rcases List.mem_sublistsLen.mp (List.mem_reverse.mp listed) with ⟨sublist, length⟩
  exact ⟨order, rfl, List.nodup_range.sublist sublist, length, fun relation inOrder =>
    List.mem_range.mp (sublist.subset inOrder)⟩

theorem relationsOf_mem_getCombination {n : Nat} {S : Finset Nat} (inside : ∀ r ∈ S, r < n) :
    combOf (relationsOf n S) ∈ getCombination n S.card := by
  rw [getCombination_eq]
  apply List.mem_map_of_mem
  rw [List.mem_reverse, List.mem_sublistsLen]
  exact ⟨List.filter_sublist, length_relationsOf inside⟩

end JoinOperator.Planner
