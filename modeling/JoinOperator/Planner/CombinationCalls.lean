import JoinOperator.Foundation.Loop
import JoinOperator.Foundation.OrderedSublists
import JoinOperator.Planner.CombinationLists
import Mathlib.Data.List.TakeWhile
import Mathlib.Data.Nat.Choose.Basic

/-! # The calls of `combinationUtil`

The calls write into one array. What a call leaves in the part that is filled
by its callers does not change, so that the arrays seen by the complete calls
are the combinations of `combinationUtil`. Every call that is made leads to one.
-/

namespace JoinOperator.Planner

open Foundation RadixJoin

/-- `data[0 .. index - 1]` and `start` when the call is made. -/
structure CombinationCall where
  filled : List Nat
  start : Nat
  deriving DecidableEq, Repr

/-- The array that the calls share, what it holds in the calls with
`index == r`, and all calls made so far. -/
structure SharedData where
  data : List Nat
  combs : List (List Nat)
  calls : List CombinationCall
  deriving DecidableEq, Repr

/-- The bound on the loop of `combinationUtil`, with `remaining = r - index`. -/
def canComplete (last remaining i : Nat) : Bool := last - i + 1 ≥ remaining

/-- A call of `combinationUtil` with `remaining = r - index` and `end = last`. -/
def combinationCall (arr : List Nat) (last r : Nat) :
    Nat → SharedData → Nat → Option SharedData
  | 0, shared, start =>
      some { shared with
        combs := shared.combs ++ [shared.data]
        calls := shared.calls ++ [⟨shared.data.take r, start⟩] }
  | remaining + 1, shared, start =>
      let index := r - (remaining + 1)
      let entered := { shared with
        calls := shared.calls ++ [⟨shared.data.take index, start⟩] }
      ((List.range' start (last + 1 - start)).takeWhile (canComplete last (remaining + 1))).foldlM
        (fun shared i => do
          let value ← arr[i]?
          let data ← write shared.data index value
          combinationCall arr last r remaining { shared with data } (i + 1))
        entered

/-- The calls that `getCombination` starts, on the contents of `data` before. -/
def combinationCalls (n r : Nat) (data : List Nat) : Option SharedData :=
  combinationCall (List.range n) (n - 1) r r ⟨data, [], []⟩ 0

structure IsCombination (n r : Nat) (combination : List Nat) : Prop where
  length : combination.length = r
  increasing : combination.Pairwise (· < ·)
  below : ∀ i ∈ combination, i < n

theorem mem_combinationUtil {n r : Nat} {combination : List Nat} :
    combination ∈ combinationUtil n r [] 0 ↔ IsCombination n r combination := by
  rw [combinationUtil_eq, Nat.sub_zero]
  simp only [List.nil_append, List.map_id', List.mem_reverse, List.mem_sublistsLen,
    sublist_range'_iff, Nat.zero_le, true_and, Nat.zero_add]
  constructor
  · rintro ⟨⟨increasing, below⟩, length⟩
    exact ⟨length, increasing, below⟩
  · rintro ⟨length, increasing, below⟩
    exact ⟨⟨increasing, below⟩, length⟩

/-- The filled part is increasing, and there is room for the rest behind it. -/
structure CombinationCall.Proper (n r : Nat) (call : CombinationCall) : Prop where
  atMost : call.filled.length ≤ r
  increasing : call.filled.Pairwise (· < ·)
  below : ∀ i ∈ call.filled, i < call.start
  room : call.start + (r - call.filled.length) ≤ n

namespace CombinationCall.Proper

variable {n r : Nat} {call : CombinationCall}

theorem complete (proper : call.Proper n r) :
    IsCombination n r (call.filled ++ List.range' call.start (r - call.filled.length)) where
  length := by
    have := proper.atMost
    rw [List.length_append, List.length_range']
    omega
  increasing := by
    rw [List.pairwise_append]
    refine ⟨proper.increasing, List.pairwise_lt_range', ?_⟩
    intro i filled j added
    have := proper.below i filled
    have := (List.mem_range'_1.mp added).1
    omega
  below := by
    intro i member
    have room := proper.room
    rcases List.mem_append.mp member with filled | added
    · have := proper.below i filled
      omega
    · have := (List.mem_range'_1.mp added).2
      omega

theorem next (proper : call.Proper n r) {i : Nat} (atLeast : call.start ≤ i) (atMost : i ≤ n - 1)
    (more : call.filled.length < r) (passes : canComplete (n - 1) (r - call.filled.length) i) :
    Proper n r ⟨call.filled ++ [i], i + 1⟩ where
  atMost := by
    rw [List.length_append]
    exact more
  increasing := by
    rw [List.pairwise_append]
    refine ⟨proper.increasing, List.pairwise_singleton _ i, ?_⟩
    intro j filled other isLast
    have := proper.below j filled
    have := List.mem_singleton.mp isLast
    omega
  below := by
    intro j member
    change j < i + 1
    rcases List.mem_append.mp member with filled | isLast
    · have := proper.below j filled
      omega
    · have := List.mem_singleton.mp isLast
      omega
  room := by
    have room := proper.room
    have passes : n - 1 - i + 1 ≥ r - call.filled.length := of_decide_eq_true passes
    rw [List.length_append, List.length_singleton]
    change i + 1 + (r - (call.filled.length + 1)) ≤ n
    omega

/-- The test lets a number pass if and only if a combination goes on with it. -/
theorem canComplete_iff (proper : call.Proper n r) {i : Nat} (atLeast : call.start ≤ i)
    (atMost : i ≤ n - 1) (more : call.filled.length < r) :
    canComplete (n - 1) (r - call.filled.length) i ↔
      ∃ combination, IsCombination n r combination ∧ call.filled ++ [i] <+: combination := by
  constructor
  · intro passes
    exact ⟨_, (proper.next atLeast atMost more passes).complete, List.prefix_append _ _⟩
  · rintro ⟨combination, isCombination, rest, rfl⟩
    -- the numbers behind `i` are increasing and below `n`
    have increasing := isCombination.increasing
    have length := isCombination.length
    rw [List.append_assoc, List.pairwise_append] at increasing
    have tail : (i :: rest).Pairwise (· < ·) := increasing.2.1
    have inside : ∀ item ∈ i :: rest, i ≤ item ∧ item < i + (n - i) := by
      intro item member
      have below := isCombination.below item (by
        rw [List.append_assoc]
        exact List.mem_append_right call.filled member)
      rcases List.mem_cons.mp member with rfl | behind
      · omega
      · have := (List.pairwise_cons.mp tail).1 item behind
        omega
    have few := (sublist_range'_iff.mpr ⟨tail, inside⟩).length_le
    rw [List.length_cons, List.length_range'] at few
    rw [List.length_append, List.length_append, List.length_singleton] at length
    apply decide_eq_true
    omega

theorem of_mem_loop {filled : List Nat} {start remaining i : Nat}
    (proper : Proper n r ⟨filled, start⟩) (length : filled.length + (remaining + 1) = r)
    (member : i ∈ (List.range' start (n - start)).takeWhile (canComplete (n - 1) (remaining + 1))) :
    i < n ∧ Proper n r ⟨filled ++ [i], i + 1⟩ := by
  have passes := List.mem_takeWhile_imp member
  have inside := List.mem_range'_1.mp ((List.takeWhile_sublist _).subset member)
  have below : i < n := by
    omega
  have left : r - filled.length = remaining + 1 := by
    omega
  refine ⟨below, proper.next inside.1 (by omega) ?_ ?_⟩
  · change filled.length < r
    omega
  · change canComplete (n - 1) (r - filled.length) i
    rw [left]
    exact passes

end CombinationCall.Proper

/-- The first `index` numbers of the array are those filled by the callers, and
all calls so far were proper. -/
structure SharedData.Holds (n r index : Nat) (filled : List Nat) (shared : SharedData) :
    Prop where
  length : shared.data.length = r
  filled : shared.data.take index = filled
  proper : ∀ call ∈ shared.calls, call.Proper n r

namespace SharedData.Holds

variable {n r index : Nat} {filled : List Nat} {shared : SharedData}

theorem length_filled (holds : shared.Holds n r index filled) (atMost : index ≤ r) :
    filled.length = index := by
  rw [← holds.filled, List.length_take, holds.length]
  exact Nat.min_eq_left atMost

theorem enter (holds : shared.Holds n r index filled) {start : Nat}
    (proper : CombinationCall.Proper n r ⟨filled, start⟩) {combs : List (List Nat)} :
    Holds n r index filled ⟨shared.data, combs, shared.calls ++ [⟨filled, start⟩]⟩ where
  length := holds.length
  filled := holds.filled
  proper := by
    intro call member
    rcases List.mem_append.mp member with earlier | new
    · exact holds.proper call earlier
    · rw [List.mem_singleton.mp new]
      exact proper

theorem write (holds : shared.Holds n r index filled) (bound : index < r) (i : Nat) :
    Holds n r (index + 1) (filled ++ [i])
      ⟨shared.data.set index i, shared.combs, shared.calls⟩ where
  length := (List.length_set ..).trans holds.length
  filled := by
    have inside : index < shared.data.length := by
      rw [holds.length]
      exact bound
    rw [List.take_add_one, List.take_set_of_le (Nat.le_refl index), holds.filled,
      List.getElem?_set_self inside]
    rfl
  proper := holds.proper

theorem back {i : Nat} (holds : shared.Holds n r (index + 1) (filled ++ [i]))
    (length : filled.length = index) : shared.Holds n r index filled where
  length := holds.length
  filled := by
    have kept := congrArg (List.take index) holds.filled
    rw [List.take_take, Nat.min_eq_left (Nat.le_succ index), List.take_left' length] at kept
    exact kept
  proper := holds.proper

end SharedData.Holds

/-- A call keeps what its callers filled, stores the combinations that go on
from there, and makes proper calls only. -/
theorem combinationCall_eq (n r remaining : Nat) {shared : SharedData} {filled : List Nat}
    {start : Nat} (atMost : remaining ≤ r) (holds : shared.Holds n r (r - remaining) filled)
    (proper : CombinationCall.Proper n r ⟨filled, start⟩) :
    ∃ after, combinationCall (List.range n) (n - 1) r remaining shared start = some after ∧
      after.Holds n r (r - remaining) filled ∧
      after.combs = shared.combs ++ combinationUtil n remaining filled start := by
  induction remaining generalizing shared filled start with
  | zero =>
      have isFilled : shared.data.take r = filled := holds.filled
      have whole : shared.data = filled := by
        rw [← isFilled, ← holds.length, List.take_length]
      refine ⟨_, rfl, ?_, ?_⟩
      · rw [isFilled]
        exact holds.enter proper
      · change shared.combs ++ [shared.data] = _
        rw [whole, combinationUtil]
  | succ remaining induction =>
      have index : r - (remaining + 1) + 1 = r - remaining := by
        omega
      have length := holds.length_filled (Nat.sub_le r (remaining + 1))
      have room : start + (r - filled.length) ≤ n := proper.room
      have positive : 1 ≤ n := by
        omega
      rw [combinationCall, combinationUtil, holds.filled, Nat.sub_add_cancel positive]
      apply foldlM_appends SharedData.combs
        (fun i => combinationUtil n remaining (filled ++ [i]) (i + 1))
        (SharedData.Holds n r (r - (remaining + 1)) filled)
      · intro i member state stateHolds
        rcases proper.of_mem_loop (by omega) member with ⟨below, nextProper⟩
        have bound : r - (remaining + 1) < state.data.length := by
          rw [stateHolds.length]
          omega
        have written := stateHolds.write (by omega) i
        rw [index] at written
        rcases induction (by omega) written nextProper with ⟨after, called, afterHolds, combs⟩
        refine ⟨after, ?_, ?_, combs⟩
        · rw [List.getElem?_range below, Option.bind_eq_bind, Option.bind_some,
            write_of_lt bound, Option.bind_eq_bind, Option.bind_some]
          exact called
        · rw [← index] at afterHolds
          exact afterHolds.back length
      · exact holds.enter proper

/-- The recursion is complete and free of duplicates, whatever `data` holds at
first: as many calls as there are sets of `r` numbers below `n` are complete,
and their arrays are the increasing sequences, once each and in lexicographic
order. Every call leads to one of them, and the test on the loop is passed by
exactly the numbers with which a combination goes on. -/
theorem combinationCalls_complete (n r : Nat) (atMost : r ≤ n) (data : List Nat)
    (length : data.length = r) :
    ∃ final, combinationCalls n r data = some final ∧
      getCombination n r = final.combs.map combOf ∧
      final.combs.length = n.factorial / (r.factorial * (n - r).factorial) ∧
      (∀ combination, combination ∈ final.combs ↔ IsCombination n r combination) ∧
      final.combs.Nodup ∧ final.combs.Pairwise (List.Lex (· < ·)) ∧
      ∀ call ∈ final.calls,
        (∃ combination ∈ final.combs, call.filled <+: combination) ∧
        ∀ i, call.start ≤ i → i ≤ n - 1 → call.filled.length < r →
          (canComplete (n - 1) (r - call.filled.length) i ↔
            ∃ combination, IsCombination n r combination ∧
              call.filled ++ [i] <+: combination) := by
  have proper : CombinationCall.Proper n r ⟨[], 0⟩ :=
    ⟨Nat.zero_le r, List.Pairwise.nil, by simp, by simpa using atMost⟩
  have holds : SharedData.Holds n r (r - r) [] ⟨data, [], []⟩ := by
    refine ⟨length, ?_, by simp⟩
    rw [Nat.sub_self, List.take_zero]
  rcases combinationCall_eq n r r (Nat.le_refl r) holds proper with
    ⟨final, called, finalHolds, combs⟩
  have stored : final.combs = ((List.range' 0 n).sublistsLen r).reverse := by
    rw [combs, combinationUtil_eq, Nat.sub_zero]
    simp only [List.nil_append, List.map_id']
  have isCombination (combination : List Nat) :
      combination ∈ final.combs ↔ IsCombination n r combination := by
    rw [combs, List.nil_append]
    exact mem_combinationUtil
  have strings : getCombination n r = final.combs.map combOf := by
    rw [combs]
    rfl
  refine ⟨final, called, strings, ?_, isCombination, ?_, ?_, ?_⟩
  · rw [stored, List.length_reverse, List.length_sublistsLen, List.length_range',
      Nat.choose_eq_factorial_div_factorial atMost]
  · rw [stored, List.nodup_reverse]
    exact List.nodup_sublistsLen r List.nodup_range'
  · rw [stored]
    exact pairwise_lex_sublistsLen List.pairwise_lt_range' r
  · intro call member
    have callProper := finalHolds.proper call member
    refine ⟨⟨_, (isCombination _).mpr callProper.complete, List.prefix_append _ _⟩, ?_⟩
    intro i atLeast below more
    exact callProper.canComplete_iff atLeast below more

theorem combinationCalls_complete_twoOfThree :
    ∃ final, combinationCalls 3 2 [7, 7] = some final ∧ final.combs.length = 3 ∧
      [0, 2] ∈ final.combs ∧ final.combs.Pairwise (List.Lex (· < ·)) := by
  rcases combinationCalls_complete 3 2 (by decide) [7, 7] rfl with
    ⟨final, called, _, count, isCombination, _, ordered, _⟩
  exact ⟨final, called, count, (isCombination [0, 2]).mpr ⟨rfl, by decide, by decide⟩, ordered⟩

end JoinOperator.Planner
