import JoinOperator.Planner.FullPlan

/-! # Which strings stand for their sets of relations

The numbers of the relations are written without separators, and read one character at a time.
-/

namespace JoinOperator.Planner

/-- The strings of a set of relations: those that `getCombination` makes, and those to which
`joinEnumeration` appends another relation. -/
inductive SetString (n : Nat) : Finset Nat → List Char → Prop
  | listed {S : Finset Nat} {data : List Nat} (member : data ∈ combinationUtil n S.card [] 0)
      (relations : data.toFinset = S) : SetString n S (combOf data)
  | appended {S : Finset Nat} {data : List Nat} {r : Nat}
      (member : data ∈ combinationUtil n S.card [] 0) (relations : data.toFinset = S)
      (inside : r < n) (absent : r ∉ S) : SetString n (insert r S) (combOf data ++ decimal r)

/-- The slot of the string is that of the set, and the string has the relations of the set. -/
structure Faithful (n : Nat) (S : Finset Nat) (comb : List Char) : Prop where
  index : combToIndex comb = ∑ i ∈ S, 2 ^ i
  below : combToIndex comb < 2 ^ n
  relations : ∀ r, existsInComb comb r = true ↔ r ∈ S

variable {n : Nat} {S : Finset Nat} {comb : List Char}

theorem lt_of_mem_combinationUtil {r : Nat} {data : List Nat}
    (member : data ∈ combinationUtil n r [] 0) : ∀ relation ∈ data, relation < n := by
  rw [combinationUtil_eq] at member
  rcases List.mem_map.mp member with ⟨order, listed, rfl⟩
  have sublist := (List.mem_sublistsLen.mp (List.mem_reverse.mp listed)).1
  intro relation inOrder
  have inRange := List.mem_range'_1.mp (sublist.subset inOrder)
  omega

theorem SetString.exists_order (isString : SetString n S comb) :
    ∃ order : List Nat, comb = combOf order ∧ order.toFinset = S ∧ ∀ r ∈ order, r < n := by
  cases isString with
  | @listed S data member relations =>
      exact ⟨data, rfl, relations, lt_of_mem_combinationUtil member⟩
  | @appended S data r member relations inside absent =>
      refine ⟨data ++ [r], ?_, ?_, ?_⟩
      · rw [combOf_append, combOf_singleton]
      · rw [toFinset_append_singleton, relations]
      · intro other inOrder
        cases List.mem_append.mp inOrder with
        | inl isListed => exact lt_of_mem_combinationUtil member other isListed
        | inr isLast =>
            rw [List.mem_singleton.mp isLast]
            exact inside

theorem exists_setString (inside : ∀ r ∈ S, r < n) : ∃ comb, SetString n S comb := by
  have member : relationsOf n S ∈ combinationUtil n S.card [] 0 := by
    rw [combinationUtil_eq, Nat.sub_zero, ← List.range_eq_range']
    refine List.mem_map.mpr ⟨relationsOf n S, ?_, List.nil_append _⟩
    rw [List.mem_reverse, List.mem_sublistsLen]
    exact ⟨List.filter_sublist, length_relationsOf inside⟩
  exact ⟨_, .listed member (toFinset_relationsOf inside)⟩

theorem digits_combOf (order : List Nat) : Digits (combOf order) := by
  intro c member
  rcases List.mem_flatMap.mp member with ⟨relation, _, member⟩
  exact digits_decimal relation c member

theorem lt_of_existsInComb (digits : Digits comb) {r : Nat} (found : existsInComb comb r = true) :
    r < 10 := by
  rcases List.any_eq_true.mp found with ⟨c, member, isRelation⟩
  rw [← of_decide_eq_true isRelation]
  exact digits c member

theorem SetString.faithful_iff (isString : SetString n S comb) :
    Faithful n S comb ↔ ∀ r ∈ S, r < 10 := by
  rcases isString.exists_order with ⟨order, rfl, rfl, inside⟩
  constructor
  · intro faithful r member
    exact lt_of_existsInComb (digits_combOf order) ((faithful.relations r).mpr member)
  · intro small
    have digits : ∀ r ∈ order, r < 10 := fun r member => small r (List.mem_toFinset.mpr member)
    refine ⟨combToIndex_combOf digits, ?_, ?_⟩
    · rw [combToIndex_combOf digits]
      exact slotOf_lt fun r member => inside r (List.mem_toFinset.mp member)
    · intro r
      rw [existsInComb_combOf digits, decide_eq_true_iff, List.mem_toFinset]

/-- Every set has a string, and its strings stand for it exactly if its relations are below ten.
So all sets have faithful strings exactly up to ten relations. -/
theorem setStrings_faithful_iff (n : Nat) :
    (∀ S : Finset Nat, (∀ r ∈ S, r < n) → ∃ comb, SetString n S comb) ∧
    (∀ S comb, SetString n S comb → (Faithful n S comb ↔ ∀ r ∈ S, r < 10)) ∧
    ((∀ S comb, SetString n S comb → Faithful n S comb) ↔ n ≤ 10) := by
  refine ⟨fun S => exists_setString, fun S comb => SetString.faithful_iff, ?_⟩
  constructor
  · intro faithful
    by_contra more
    have inside : ∀ r ∈ ({10} : Finset Nat), r < n := by
      intro r member
      rw [Finset.mem_singleton.mp member]
      omega
    rcases exists_setString inside with ⟨comb, isString⟩
    have small := isString.faithful_iff.mp (faithful {10} comb isString) 10
      (Finset.mem_singleton_self 10)
    exact absurd small (Nat.lt_irrefl 10)
  · intro few S comb isString
    apply isString.faithful_iff.mpr
    rcases isString.exists_order with ⟨order, _, rfl, inside⟩
    intro r member
    exact Nat.lt_of_lt_of_le (inside r (List.mem_toFinset.mp member)) few

/-- The string of relation 10 is one of the relations 1 and 0. -/
theorem setString_ten : SetString 11 {10} ['1', '0'] ∧ ¬ Faithful 11 {10} ['1', '0'] := by
  constructor
  · exact @SetString.listed 11 {10} [10] (by decide) (by decide)
  · intro faithful
    have found := (faithful.relations 10).mpr (Finset.mem_singleton_self 10)
    exact absurd found (by decide)

end JoinOperator.Planner
