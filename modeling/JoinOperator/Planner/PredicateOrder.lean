import JoinOperator.Foundation.LostItems
import JoinOperator.Planner.FilteredQuery
import JoinOperator.Planner.FullPlan
import JoinOperator.Planner.PrioritySlots

/-! # Whether all predicates are scheduled -/

namespace JoinOperator.Planner

open Foundation RadixJoin

/-- The slots that are filled before other predicates are inserted. -/
def firstSlots (q : Query) (sequence : List Char) : List Nat :=
  q.priorities.takeWhile (· ≠ noPriority) ++ sequence.map charToInteger

theorem appendSequence_cons {priorities : List Nat} {i : Nat} {c : Char}
    {sequence : List Char} : appendSequence priorities i (c :: sequence) =
      (write priorities i (charToInteger c)).bind fun priorities =>
        appendSequence priorities (i + 1) sequence := by
  simp only [appendSequence, List.foldlM_cons, Option.bind_eq_bind, Option.bind_assoc,
    Option.bind_some]

theorem appendSequence_eq {filled : List Nat} {count : Nat} {sequence : List Char}
    (fits : sequence.length ≤ count) :
    appendSequence (filled ++ List.replicate count noPriority) filled.length sequence =
      some (filled ++ sequence.map charToInteger ++
        List.replicate (count - sequence.length) noPriority, filled.length + sequence.length) := by
  induction sequence generalizing filled count with
  | nil => simp [appendSequence]
  | cons c sequence induction =>
      rw [List.length_cons] at fits
      rcases Nat.exists_eq_add_of_le' (Nat.lt_of_lt_of_le (Nat.succ_pos _) fits) with
        ⟨count, rfl⟩
      rw [appendSequence_cons, List.replicate_succ, write_append, Option.bind_some,
        List.append_cons]
      have step := @induction (filled ++ [charToInteger c]) count (by omega)
      rw [List.length_append, List.length_singleton] at step
      rw [step, List.length_cons, Nat.add_sub_add_right, Nat.add_assoc, Nat.add_comm 1]
      simp

theorem appendSequence_fits {priorities : List Nat} {i : Nat} {sequence : List Char}
    {result : List Nat × Nat} (within : i ≤ priorities.length)
    (ran : appendSequence priorities i sequence = some result) :
    i + sequence.length ≤ priorities.length := by
  induction sequence generalizing priorities i with
  | nil => exact within
  | cons c sequence induction =>
      rw [appendSequence_cons] at ran
      rcases Option.bind_eq_some_iff.mp ran with ⟨written, isWritten, ran⟩
      rw [write] at isWritten
      split at isWritten
      · rename_i inside
        cases isWritten
        have rest := induction (by rw [List.length_set]; exact inside) ran
        rw [List.length_set] at rest
        rw [List.length_cons]
        omega
      · cases isWritten

theorem findIdx_noPriority {filters : List Nat} (count : Nat)
    (below : ∀ id ∈ filters, id < noPriority) :
    (filters ++ List.replicate count noPriority).findIdx? (· = noPriority) =
      if count = 0 then none else some filters.length := by
  have passed : filters.findIdx? (· = noPriority) = none := by
    apply List.findIdx?_eq_none_iff.mpr
    intro id member
    simpa using Nat.ne_of_lt (below id member)
  rw [List.findIdx?_append, passed]
  cases count with
  | zero => rfl
  | succ count => simp [List.replicate_succ, List.findIdx?_cons]

theorem charToInteger_lt {ids : List Nat} {count : Nat} (valid : ∀ id ∈ ids, id < count) :
    ∀ c ∈ combOf ids, charToInteger c < count := by
  intro c member
  rcases List.mem_flatMap.mp member with ⟨id, isId, member⟩
  have below := valid id isId
  by_cases digit : id < 10
  · rw [decimal_eq digit, List.mem_singleton] at member
    rw [member, charToInteger_digitChar digit]
    exact below
  · have isDigit := digits_decimal id c member
    omega

theorem combOf_ne_nil {ids : List Nat} (nonempty : ids ≠ []) : combOf ids ≠ [] := by
  cases ids with
  | nil => exact absurd rfl nonempty
  | cons id ids =>
      rw [combOf_cons]
      exact List.append_ne_nil_of_left_ne_nil Nat.toDigits_ne_nil _

def startState (sequence : List Char) (q : Query) : Option Priorities := do
  let i ← q.priorities.findIdx? (· = noPriority)
  let (priorities, i) ← appendSequence q.priorities i sequence
  some ⟨priorities, i⟩

theorem setPriorities_start (sequence : List Char) (q : Query) :
    setPriorities sequence q = (startState sequence q).bind fun start =>
      ((List.range' start.alreadyPrioritized (q.numOfJoins - start.alreadyPrioritized)).foldlM
        (fun state j => (List.range q.numOfJoins).foldlM (prioritize q.joins sequence j) state)
        start).map Priorities.priorities := by
  rw [setPriorities, startState]
  cases q.priorities.findIdx? (· = noPriority) with
  | none => rfl
  | some i =>
      simp only [Option.bind_eq_bind, Option.bind_some]
      cases appendSequence q.priorities i sequence with
      | none => rfl
      | some appended =>
          rcases appended with ⟨priorities, i⟩
          simp only [Option.bind_some]
          by_cases free : i < q.numOfJoins
          · simp only [free, if_true, Option.map_eq_bind]
            rfl
          · simp only [free, if_false, Nat.sub_eq_zero_of_le (Nat.not_lt.mp free)]
            rfl

section Setting

variable {q : Query} {filters : List Nat} {sequence : List Char}

theorem setPriorities_fits {priorities : List Nat}
    (isFirst : q.priorities = filters ++
      List.replicate (q.numOfJoins - filters.length) noPriority)
    (below : ∀ id ∈ filters, id < noPriority)
    (isSet : setPriorities sequence q = some priorities) :
    (filters ++ sequence.map charToInteger).length ≤ q.numOfJoins := by
  rcases Option.bind_eq_some_iff.mp isSet with ⟨i, isFree, isSet⟩
  rcases Option.bind_eq_some_iff.mp isSet with ⟨result, appended, _⟩
  rw [isFirst, findIdx_noPriority _ below] at isFree
  split at isFree
  · cases isFree
  · cases isFree
    have length : q.priorities.length = q.numOfJoins := by
      rw [isFirst, List.length_append, List.length_replicate]
      omega
    have fits := appendSequence_fits (by omega) appended
    rw [List.length_append, List.length_map]
    omega

theorem startState_eq (few : q.numOfJoins ≤ noPriority)
    (priorities : q.priorities = filters ++
      List.replicate (q.numOfJoins - filters.length) noPriority)
    (validFilters : ∀ id ∈ filters, id < q.numOfJoins) (nonempty : sequence ≠ [])
    (fits : (filters ++ sequence.map charToInteger).length ≤ q.numOfJoins) :
    startState sequence q = some (prioritiesOf q.numOfJoins
      ⟨filters ++ sequence.map charToInteger,
        (filters ++ sequence.map charToInteger).length⟩) := by
  have below : ∀ id ∈ filters, id < noPriority := fun id member =>
    Nat.lt_of_lt_of_le (validFilters id member) few
  have positive := List.length_pos_of_ne_nil nonempty
  rw [List.length_append, List.length_map] at fits
  have first : q.priorities.findIdx? (· = noPriority) = some filters.length := by
    rw [priorities, findIdx_noPriority _ below, if_neg (by omega)]
  have appended := @appendSequence_eq filters (q.numOfJoins - filters.length) sequence (by omega)
  rw [← priorities] at appended
  simp only [startState, first, Option.bind_eq_bind, Option.bind_some, appended, prioritiesOf,
    List.length_append, List.length_map, Nat.sub_sub]

/-- `SetPriorities` makes rounds of visits until all slots are filled. -/
theorem setPriorities_eq (few : q.numOfJoins ≤ noPriority)
    (priorities : q.priorities = filters ++
      List.replicate (q.numOfJoins - filters.length) noPriority)
    (validFilters : ∀ id ∈ filters, id < q.numOfJoins)
    (validSequence : ∀ c ∈ sequence, charToInteger c < q.numOfJoins)
    (nonempty : sequence ≠ [])
    (fits : (filters ++ sequence.map charToInteger).length ≤ q.numOfJoins) :
    firstSlots q sequence = filters ++ sequence.map charToInteger ∧
      setPriorities sequence q =
        if (filters ++ sequence.map charToInteger).length < q.numOfJoins then
          ((joinLikeness q.joins).rounds (visited sequence q.numOfJoins)
            (filters ++ sequence.map charToInteger).length
            (q.numOfJoins - (filters ++ sequence.map charToInteger).length)
            ⟨filters ++ sequence.map charToInteger,
              (filters ++ sequence.map charToInteger).length⟩).map fun slots =>
                (prioritiesOf q.numOfJoins slots).priorities
        else some (filters ++ sequence.map charToInteger) := by
  have below : ∀ id ∈ filters, id < noPriority := fun id member =>
    Nat.lt_of_lt_of_le (validFilters id member) few
  have positive := List.length_pos_of_ne_nil nonempty
  constructor
  · rw [List.length_append, List.length_map] at fits
    rcases Nat.exists_eq_add_of_le' (show 1 ≤ q.numOfJoins - filters.length by omega) with
      ⟨more, split⟩
    rw [firstSlots, priorities, split, List.replicate_succ,
      List.takeWhile_append_of_pos, List.takeWhile_cons_of_neg (by simp), List.append_nil]
    intro id member
    simpa using Nat.ne_of_lt (below id member)
  · have valid : ∀ id ∈ filters ++ sequence.map charToInteger, id < q.numOfJoins := by
      intro id member
      rcases List.mem_append.mp member with member | member
      · exact validFilters id member
      · rcases List.mem_map.mp member with ⟨c, isChar, rfl⟩
        exact validSequence c isChar
    have rounds := prioritizeRounds_eq sequence
      ⟨filters ++ sequence.map charToInteger, (filters ++ sequence.map charToInteger).length⟩
      few (Nat.le_of_eq (Nat.add_sub_cancel' fits)) valid rfl
    rw [setPriorities_start, startState_eq few priorities validFilters nonempty fits,
      Option.bind_some]
    split
    · have mapped := congrArg (Option.map Priorities.priorities) rounds
      rw [Option.map_map] at mapped
      exact mapped
    · rename_i full
      simp only [prioritiesOf, Nat.sub_eq_zero_of_le (Nat.not_lt.mp full)]
      simp

end Setting

section Conclusions

variable {q : Query} {filters digits filled : List Nat}

end Conclusions

namespace LeftDeep

variable {joins : List Join} {order ids : List Nat}

theorem first_nodup (leftDeep : LeftDeep joins order ids) :
    (sameRelationIds joins joins.length ++ ids).Nodup := by
  refine List.nodup_append.mpr ⟨List.nodup_range.filter _, leftDeep.ids_nodup, ?_⟩
  rintro id isFilter _ member rfl
  rcases leftDeep.different member with ⟨join, get, different⟩
  have same := (List.mem_filter.mp isFilter).2
  rw [get, Option.any_some, decide_eq_true_iff] at same
  exact different same.1

theorem first_lt (leftDeep : LeftDeep joins order ids) :
    ∀ id ∈ sameRelationIds joins joins.length ++ ids, id < joins.length := by
  intro id member
  cases List.mem_append.mp member with
  | inl isFilter => exact List.mem_range.mp (List.mem_filter.mp isFilter).1
  | inr inSequence => exact leftDeep.lt_of_mem inSequence

end LeftDeep

section Counting

variable {ids : List Nat} {n : Nat}

theorem length_le_of_nodup (nodup : ids.Nodup) (inside : ∀ id ∈ ids, id < n) :
    ids.length ≤ n := by
  have subperm := List.subperm_of_subset nodup fun id member =>
    List.mem_range.mpr (inside id member)
  rw [← List.length_range (n := n)]
  exact subperm.length_le

end Counting

end JoinOperator.Planner
