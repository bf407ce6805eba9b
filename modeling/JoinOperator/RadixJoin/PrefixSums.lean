import JoinOperator.Foundation.BucketStarts
import JoinOperator.RadixJoin.Histogram

/-! # The psum array

The loops that fill `psum` and `helpPSum` compute where the bucket of every
hash value starts, for all patterns of empty buckets.
-/

namespace JoinOperator.RadixJoin

open Foundation

def entriesBelow (values : List Nat) (limit : Nat) : List PSumTuple :=
  ((List.range limit).filter fun value => values.count value ≠ 0).map fun value =>
    ⟨value, startOf values value⟩

theorem entriesBelow_succ (values : List Nat) (limit : Nat) :
    entriesBelow values (limit + 1) = entriesBelow values limit ++
      if values.count limit ≠ 0 then [⟨limit, startOf values limit⟩] else [] := by
  rw [entriesBelow, List.range_succ, List.filter_append, List.map_append]
  by_cases occurs : values.count limit ≠ 0
  · simp [entriesBelow, occurs]
  · simp [entriesBelow, not_not.mp occurs]

theorem length_entriesBelow_mono (values : List Nat) {limit later : Nat} (le : limit ≤ later) :
    (entriesBelow values limit).length ≤ (entriesBelow values later).length := by
  induction later, le using Nat.le_induction with
  | base => exact Nat.le_refl _
  | succ later _ induction =>
      rw [entriesBelow_succ, List.length_append]
      omega

theorem absent_of_length_eq (values : List Nat) {limit later : Nat}
    (equal : (entriesBelow values limit).length = (entriesBelow values later).length)
    (value : Nat) (atLeast : limit ≤ value) (below : value < later) :
    values.count value = 0 := by
  by_contra occurs
  have first := length_entriesBelow_mono values atLeast
  have second := length_entriesBelow_mono values (Nat.lt_iff_add_one_le.mp below)
  rw [entriesBelow_succ, if_pos occurs, List.length_append, List.length_singleton] at second
  omega

theorem entriesBelow_of_absent (values : List Nat) {limit later : Nat} (le : limit ≤ later)
    (absent : ∀ value, limit ≤ value → value < later → values.count value = 0) :
    entriesBelow values later = entriesBelow values limit := by
  induction later, le using Nat.le_induction with
  | base => rfl
  | succ later le induction =>
      rw [entriesBelow_succ, if_neg (not_not_intro (absent later le (Nat.lt_succ_self later))),
        List.append_nil]
      exact induction fun value atLeast below => absent value atLeast (Nat.lt_succ_of_lt below)

theorem countBuckets_eq (values : List Nat) (hash1 : Nat) :
    countBuckets (histOf values hash1) hash1 = (entriesBelow values hash1).length := by
  have subtracts : ∀ (hist : List Nat) (buckets : Nat), hist.count 0 ≤ buckets →
      hist.foldl (fun buckets count => if count = 0 then wrapSub buckets 1 else buckets)
        buckets = buckets - hist.count 0 := by
    intro hist
    induction hist with
    | nil =>
        intro buckets _
        rfl
    | cons count hist induction =>
        intro buckets enough
        rw [List.count_cons] at enough ⊢
        by_cases empty : count = 0
        · subst empty
          simp only [beq_self_eq_true, if_true] at enough ⊢
          rw [List.foldl_cons, if_pos rfl, wrapSub_of_le (by omega), induction _ (by omega)]
          omega
        · simp only [beq_iff_eq, empty, if_false, Nat.add_zero] at enough ⊢
          rw [List.foldl_cons, if_neg empty, induction _ enough]
  have zeros : (histOf values hash1).count 0 + (entriesBelow values hash1).length = hash1 := by
    induction hash1 with
    | zero => rfl
    | succ hash1 induction =>
        rw [entriesBelow_succ, List.length_append, histOf, List.range_succ, List.map_append,
          List.count_append]
        rw [histOf] at induction
        by_cases occurs : values.count hash1 ≠ 0
        · rw [if_pos occurs, List.map_singleton, List.count_singleton]
          simp only [beq_iff_eq, occurs, if_false, List.length_singleton]
          omega
        · rw [not_not] at occurs
          simp [occurs]
          omega
  rw [countBuckets, subtracts _ _ (by omega)]
  omega

/-- The arrays are filled up to `j`, and `temp` is where the bucket `j` starts. -/
structure PSumState.Aligned (values : List Nat) (state : PSumState) : Prop where
  psum : state.psum = entriesBelow values state.j
  helpPSum : state.helpPSum = (List.range state.j).map (startOf values)
  temp : state.temp = startOf values state.j

namespace PSumState

variable {values : List Nat} {hash1 : Nat} {state : PSumState}

theorem Aligned.skip (aligned : state.Aligned values) (empty : values.count state.j = 0) :
    state.skip.Aligned values where
  psum := by
    change state.psum = entriesBelow values (state.j + 1)
    rw [entriesBelow_succ, if_neg (not_not_intro empty), List.append_nil, aligned.psum]
  helpPSum := by
    change state.helpPSum ++ [state.temp] = (List.range (state.j + 1)).map (startOf values)
    rw [List.range_succ, List.map_append, aligned.helpPSum, aligned.temp]
    rfl
  temp := by
    change state.temp = startOf values (state.j + 1)
    rw [startOf_succ, empty, aligned.temp, Nat.add_zero]

theorem Aligned.skipLeading {fuel occurring : Nat} (aligned : state.Aligned values)
    (enough : hash1 < state.j + fuel) (atLeast : state.j ≤ occurring)
    (below : occurring < hash1) (occurs : values.count occurring ≠ 0) :
    ∃ after, RadixJoin.skipLeading (histOf values hash1) fuel state = some after ∧
      after.Aligned values ∧ after.temp = state.temp ∧ after.psum = state.psum ∧
      after.prevJ = state.prevJ ∧ after.j < hash1 ∧ values.count after.j ≠ 0 := by
  induction fuel generalizing state with
  | zero => omega
  | succ fuel induction =>
      rw [RadixJoin.skipLeading, getElem?_histOf values (by omega), Option.bind_eq_bind,
        Option.bind_some]
      by_cases empty : values.count state.j = 0
      · have later : state.j + 1 ≤ occurring := by
          by_contra same
          have equal : state.j = occurring := by omega
          exact occurs (equal ▸ empty)
        rw [if_pos empty]
        exact induction (aligned.skip empty) (by simp only [PSumState.skip]; omega) later
      · rw [if_neg empty]
        exact ⟨state, rfl, aligned, rfl, rfl, rfl, by omega, empty⟩

theorem Aligned.skipEmpty {fuel : Nat} (aligned : state.Aligned values)
    (enough : hash1 < state.j + fuel) (atMost : state.j ≤ hash1) :
    ∃ after, RadixJoin.skipEmpty (histOf values hash1) hash1 fuel state = some after ∧
      after.Aligned values ∧ after.temp = state.temp ∧ after.psum = state.psum ∧
      after.prevJ = state.prevJ ∧ after.j ≤ hash1 ∧
      (after.j < hash1 → values.count after.j ≠ 0) := by
  induction fuel generalizing state with
  | zero => omega
  | succ fuel induction =>
      rw [RadixJoin.skipEmpty]
      by_cases inside : state.j < hash1
      · rw [if_pos inside, getElem?_histOf values inside, Option.bind_eq_bind,
          Option.bind_some]
        by_cases empty : values.count state.j = 0
        · rw [if_neg (not_not_intro empty)]
          exact induction (aligned.skip empty) (by simp only [PSumState.skip]; omega) inside
        · rw [if_pos empty]
          exact ⟨state, rfl, aligned, rfl, rfl, rfl, atMost, fun _ => empty⟩
      · rw [if_neg inside]
        exact ⟨state, rfl, aligned, rfl, rfl, rfl, atMost, fun below => absurd below inside⟩

theorem Aligned.take (aligned : state.Aligned values) (occurs : values.count state.j ≠ 0)
    {offset : Nat} (isStart : offset = startOf values state.j) :
    state.psum ++ [⟨state.j, offset⟩] = entriesBelow values (state.j + 1) ∧
      state.helpPSum ++ [offset] = (List.range (state.j + 1)).map (startOf values) := by
  rw [entriesBelow_succ, if_pos occurs, List.range_succ, List.map_append, aligned.psum,
    aligned.helpPSum, isStart]
  exact ⟨rfl, rfl⟩

theorem fillPSum_eq {remaining : Nat} (aligned : state.Aligned values)
    (after : state.j = state.prevJ + 1) (occurs : values.count state.prevJ ≠ 0)
    (atMost : state.j ≤ hash1)
    (left : state.psum.length + remaining = (entriesBelow values hash1).length) :
    ∃ final, fillPSum (histOf values hash1) hash1 (entriesBelow values hash1).length
        remaining state = some final ∧
      final.psum = entriesBelow values final.j ∧
      final.helpPSum = (List.range final.j).map (startOf values) ∧ final.j ≤ hash1 ∧
      final.psum.length = (entriesBelow values hash1).length := by
  induction remaining generalizing state with
  | zero => exact ⟨state, rfl, aligned.psum, aligned.helpPSum, atMost, left⟩
  | succ remaining induction =>
      rcases aligned.skipEmpty (show hash1 < state.j + (hash1 + 1) by omega) atMost with
        ⟨next, skipped, nextAligned, temp, psum, prevJ, nextAtMost, nextOccurs⟩
      have inside : next.j < hash1 := by
        by_contra outside
        have equal : next.j = hash1 := by omega
        have length := congrArg List.length nextAligned.psum
        rw [psum, equal] at length
        omega
      have position : (entriesBelow values hash1).length - (remaining + 1) =
          state.psum.length := by omega
      have last : state.psum[state.psum.length - 1]? =
          some ⟨state.prevJ, startOf values state.prevJ⟩ := by
        rw [aligned.psum, after, entriesBelow_succ, if_pos occurs]
        simp
      have prevCount := getElem?_histOf values (show state.prevJ < hash1 by omega)
      have nextCount := getElem?_histOf values inside
      have offset : startOf values state.prevJ + values.count state.prevJ =
          startOf values next.j := by
        rw [← startOf_succ, ← after, ← aligned.temp, ← temp, nextAligned.temp]
      rcases nextAligned.take (nextOccurs inside) rfl with ⟨psumNext, helpNext⟩
      have lengthNext := congrArg List.length psumNext
      rw [List.length_append, List.length_singleton, psum] at lengthNext
      rw [fillPSum]
      simp only [position, skipped, Option.bind_eq_bind, Option.bind_some,
        if_neg (Nat.ne_of_lt inside), psum, prevJ, last, prevCount, nextCount, offset]
      by_cases isLast : state.psum.length = (entriesBelow values hash1).length - 1
      · rw [if_pos isLast]
        rw [psum] at psumNext
        refine ⟨_, rfl, psumNext, helpNext, inside, ?_⟩
        rw [List.length_append, List.length_singleton]
        omega
      · rw [if_neg isLast]
        rw [psum] at psumNext
        apply induction
        · refine ⟨psumNext, helpNext, ?_⟩
          change next.temp + values.count next.j = startOf values (next.j + 1)
          rw [startOf_succ, nextAligned.temp]
        · rfl
        · exact nextOccurs inside
        · exact inside
        · change (state.psum ++ [_]).length + remaining = _
          rw [List.length_append, List.length_singleton]
          omega

end PSumState

open PSumState

/-- The arrays that `reorderRelation` computes from the histogram. -/
theorem computePSum_eq {values : List Nat} {hash1 : Nat} (nonempty : values ≠ [])
    (bounded : ∀ value ∈ values, value < hash1) :
    ∃ state, computePSum (histOf values hash1) hash1 values.length = some state ∧
      state.psum = entriesBelow values hash1 ∧
      state.helpPSum = (List.range hash1).map (startOf values) := by
  rcases List.exists_mem_of_ne_nil values nonempty with ⟨occurring, member⟩
  have occurs : values.count occurring ≠ 0 :=
    Nat.ne_of_gt (List.count_pos_iff.mpr member)
  have empty : (⟨[], [], 0, 0, 0⟩ : PSumState).Aligned values :=
    ⟨rfl, rfl, (startOf_zero values).symm⟩
  rcases empty.skipLeading (show hash1 < 0 + (hash1 + 1) by simp) (Nat.zero_le _)
      (bounded occurring member) occurs with
    ⟨first, skipped, aligned, temp, psum, prevJ, inside, firstOccurs⟩
  have prevZero : first.prevJ = 0 := prevJ
  have start : 0 = startOf values first.j := temp.symm.trans aligned.temp
  rcases aligned.take firstOccurs start with ⟨psumNext, helpNext⟩
  rw [psum, List.nil_append] at psumNext
  have nextTemp : (if first.prevJ < wrapSub hash1 1 then first.temp + values.count first.j
      else values.length) = startOf values (first.j + 1) := by
    rw [wrapSub_of_le (by omega), prevZero]
    split
    · rw [startOf_succ, aligned.temp]
    · have only : first.j + 1 = hash1 := by omega
      rw [only, startOf_eq_length bounded]
  have count := getElem?_histOf values inside
  have length : 1 + ((entriesBelow values hash1).length - 1) =
      (entriesBelow values hash1).length := by
    have mono := length_entriesBelow_mono values (Nat.lt_iff_add_one_le.mp inside)
    rw [← psumNext] at mono
    have one : 1 ≤ (entriesBelow values hash1).length := mono
    omega
  have taken : (⟨[⟨first.j, 0⟩], first.helpPSum ++ [0], startOf values (first.j + 1),
      first.j + 1, first.j⟩ : PSumState).Aligned values := ⟨psumNext, helpNext, rfl⟩
  rcases fillPSum_eq taken rfl firstOccurs inside length with
    ⟨final, filled, finalPSum, finalHelp, atMost, finalLength⟩
  have sameLength : (entriesBelow values final.j).length =
      (entriesBelow values hash1).length := by
    rw [← finalPSum, finalLength]
  have absent := absent_of_length_eq values sameLength
  refine ⟨{ final with
      helpPSum := final.helpPSum ++ List.replicate (hash1 - final.j) values.length }, ?_,
    finalPSum.trans (entriesBelow_of_absent values atMost fun value => absent value).symm, ?_⟩
  · rw [computePSum, countBuckets_eq]
    simp only [skipped, count, nextTemp, filled, Option.bind_eq_bind, Option.bind_some]
  · -- behind the last bucket everything starts at the end
    have rest : (List.range (hash1 - final.j)).map (startOf values ∘ (final.j + ·)) =
        List.replicate (hash1 - final.j) values.length := by
      refine Eq.trans (List.map_congr_left (g := fun _ => values.length) ?_) ?_
      · intro further member
        have below := List.mem_range.mp member
        rw [← startOf_eq_length bounded]
        change startOf values (final.j + further) = startOf values hash1
        refine (startOf_of_absent values (by omega) ?_).symm
        intro value atLeast
        exact absent value (by omega)
      · rw [List.map_const', List.length_range]
    have split : List.range hash1 = List.range final.j ++
        (List.range (hash1 - final.j)).map (final.j + ·) := by
      rw [← List.range_add]
      congr 1
      omega
    change final.helpPSum ++ List.replicate (hash1 - final.j) values.length = _
    rw [finalHelp, split, List.map_append, List.map_map, rest]

end JoinOperator.RadixJoin
