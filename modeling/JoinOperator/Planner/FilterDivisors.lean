import JoinOperator.Planner.FilteredQuery

/-! # What the estimates of the filters divide by

For each function, the divisors of the branch that it takes. A lemma beside each says that the
estimate depends on no other division.
-/

namespace JoinOperator.Planner

open RadixJoin

/-! ## Quotients -/

namespace Estimator

variable (estimator : Estimator)

def withDivision (div : estimator.Double → estimator.Double → estimator.Double) : Estimator :=
  { estimator with div }

def Divides (div : estimator.Double → estimator.Double → estimator.Double) (divisor : Nat) :
    Prop :=
  ∀ a, div a (estimator.ofNat divisor) = estimator.div a (estimator.ofNat divisor)

variable {estimator} {div : estimator.Double → estimator.Double → estimator.Double}

theorem quotient_division {a b : Nat} (same : estimator.Divides div b) :
    (estimator.withDivision div).quotient a b = estimator.quotient a b :=
  same (estimator.ofNat a)

theorem ceilQuotient_division {a b : Nat} (same : estimator.Divides div b) :
    (estimator.withDivision div).ceilQuotient a b = estimator.ceilQuotient a b :=
  congrArg (fun quotient => estimator.toNat (estimator.ceil quotient)) (quotient_division same)

theorem scale_division {part whole count : Nat} (same : estimator.Divides div whole) :
    (estimator.withDivision div).scale part whole count = estimator.scale part whole count :=
  congrArg (fun quotient => estimator.toNat (estimator.ceil
    (estimator.mul quotient (estimator.ofNat count)))) (quotient_division same)

theorem remaining_division {dC fC new old : Nat} (sameOld : estimator.Divides div old)
    (sameValues : estimator.Divides div dC) :
    (estimator.withDivision div).remaining dC fC new old =
      estimator.remaining dC fC new old :=
  congrArg₂ (fun ratio power => estimator.toNat (estimator.ceil (estimator.mul
      (estimator.ofNat dC) (estimator.sub (estimator.ofNat 1)
        (estimator.pow (estimator.sub (estimator.ofNat 1) ratio) power)))))
    (quotient_division sameOld) (quotient_division sameValues)

end Estimator

/-! ## Divisors -/

def otherDivisors (old : Nat) (s : Stats) : List Nat :=
  if old = 0 ∨ s.distinctVals = 0 then [] else [old, s.distinctVals]

def lessDivisors (value : Nat) (s : Stats) : List Nat :=
  let k2 := wrapSub value 1
  if k2 < s.maxU then
    if k2 < s.minI then []
    else if k2 = s.minI then
      if s.distinctVals = 0 then [] else [s.distinctVals]
    else [wrapSub s.maxU s.minI]
  else []

def greaterDivisors (value : Nat) (s : Stats) : List Nat :=
  let k1 := (value + 1) % 2 ^ 64
  if k1 > s.minI then
    if k1 > s.maxU then []
    else if k1 = s.maxU then
      if s.distinctVals = 0 then [] else [s.distinctVals]
    else [wrapSub s.maxU s.minI]
  else []

def equalDivisors (value : Nat) (s : Stats) : List Nat :=
  if testBit s.distinctArray (wrapSub value value) = some true then
    if s.distinctVals = 0 then [] else [s.distinctVals]
  else []

def filterStatsDivisors (filter : Filter) (s : Stats) : List Nat :=
  match filter.op with
  | .less => lessDivisors filter.value s
  | .greater => greaterDivisors filter.value s
  | .equal => equalDivisors filter.value s

def filterColumnsDivisors (filter : Filter) (columns : List Stats) : List Nat :=
  let numCol := filter.participant.numCol
  match columns[numCol]? with
  | none => []
  | some s => filterStatsDivisors filter s ++ (columns.mapIdx fun c other =>
      if c = numCol then [] else otherDivisors s.numElements other).flatten

def sameRelationDivisors (col1 col2 : Nat) (columns : List Stats) : List Nat :=
  match columns[col1]?, columns[col2]? with
  | some s1, some s2 =>
      let fA := s1.numElements
      commonWidth s1 s2 :: (otherDivisors fA s1 ++ (columns.mapIdx fun c other =>
        if c = col1 then [] else if c = col2 then [] else otherDivisors fA other).flatten)
  | _, _ => []

/-! ## Divisors that are not zero -/

section Guards

variable {old divisor value : Nat} {s : Stats} {columns : List Stats}

theorem otherDivisors_ne (member : divisor ∈ otherDivisors old s) : divisor ≠ 0 := by
  rw [otherDivisors] at member
  split_ifs at member with empty
  · cases member
  · rw [not_or] at empty
    rcases List.mem_cons.mp member with rfl | member
    · exact empty.1
    · cases List.mem_singleton.mp member
      exact empty.2

theorem lessDivisors_ne (member : divisor ∈ lessDivisors value s) : divisor ≠ 0 := by
  simp only [lessDivisors] at member
  split_ifs at member with below outside lowest empty
  · cases member
  · cases member
  · cases List.mem_singleton.mp member
    exact empty
  · cases List.mem_singleton.mp member
    rw [wrapSub_of_le (by omega)]
    omega
  · cases member

theorem greaterDivisors_ne (member : divisor ∈ greaterDivisors value s) : divisor ≠ 0 := by
  simp only [greaterDivisors] at member
  split_ifs at member with above outside highest empty
  · cases member
  · cases member
  · cases List.mem_singleton.mp member
    exact empty
  · cases List.mem_singleton.mp member
    rw [wrapSub_of_le (by omega)]
    omega
  · cases member

theorem equalDivisors_ne (member : divisor ∈ equalDivisors value s) : divisor ≠ 0 := by
  rw [equalDivisors] at member
  split_ifs at member with occurs empty
  · cases member
  · cases List.mem_singleton.mp member
    exact empty
  · cases member

theorem filterStatsDivisors_ne {filter : Filter}
    (member : divisor ∈ filterStatsDivisors filter s) : divisor ≠ 0 := by
  rw [filterStatsDivisors] at member
  cases op : filter.op with
  | less =>
      rw [op] at member
      exact lessDivisors_ne member
  | greater =>
      rw [op] at member
      exact greaterDivisors_ne member
  | equal =>
      rw [op] at member
      exact equalDivisors_ne member

/-- A filter checks every number that it divides by. -/
theorem filterColumnsDivisors_ne {filter : Filter}
    (member : divisor ∈ filterColumnsDivisors filter columns) : divisor ≠ 0 := by
  rw [filterColumnsDivisors] at member
  cases get : columns[filter.participant.numCol]? with
  | none =>
      rw [get] at member
      cases member
  | some s =>
      rw [get] at member
      cases List.mem_append.mp member with
      | inl isOwn => exact filterStatsDivisors_ne isOwn
      | inr isOther =>
          rcases List.mem_flatten.mp isOther with ⟨divisors, isColumn, member⟩
          rcases List.mem_mapIdx.mp isColumn with ⟨c, inside, rfl⟩
          split_ifs at member
          · cases member
          · exact otherDivisors_ne member

/-- A predicate of one relation does not check the width of the common range. -/
theorem sameRelationDivisors_ne {col1 col2 : Nat} {s1 s2 : Stats}
    (get1 : columns[col1]? = some s1) (get2 : columns[col2]? = some s2)
    (width : commonWidth s1 s2 ≠ 0)
    (member : divisor ∈ sameRelationDivisors col1 col2 columns) : divisor ≠ 0 := by
  rw [sameRelationDivisors, get1, get2] at member
  rcases List.mem_cons.mp member with rfl | member
  · exact width
  · cases List.mem_append.mp member with
    | inl isFirst => exact otherDivisors_ne isFirst
    | inr isOther =>
        rcases List.mem_flatten.mp isOther with ⟨divisors, isColumn, member⟩
        rcases List.mem_mapIdx.mp isColumn with ⟨c, inside, rfl⟩
        split_ifs at member
        · cases member
        · cases member
        · exact otherDivisors_ne member

end Guards

/-! ## The estimates depend on the divisors only -/

section Estimates

variable {estimator : Estimator} {div : estimator.Double → estimator.Double → estimator.Double}
  {s : Stats} {columns : List Stats} {value old new rows : Nat}

theorem otherColumn_division
    (same : ∀ divisor ∈ otherDivisors old s, estimator.Divides div divisor) :
    otherColumn (estimator.withDivision div) old new rows s =
      otherColumn estimator old new rows s := by
  rw [otherColumn, otherColumn]
  by_cases empty : old = 0 ∨ s.distinctVals = 0
  · rw [if_pos empty, if_pos empty]
  · rw [otherDivisors, if_neg empty] at same
    rw [if_neg empty, if_neg empty,
      Estimator.remaining_division (same old (by simp)) (same s.distinctVals (by simp))]

theorem lessStats_division
    (same : ∀ divisor ∈ lessDivisors value s, estimator.Divides div divisor) :
    lessStats (estimator.withDivision div) value s = lessStats estimator value s := by
  simp only [lessDivisors] at same
  simp only [lessStats]
  split_ifs at same ⊢ with below outside lowest empty
  · rfl
  · rfl
  · rw [Estimator.ceilQuotient_division (same _ (by simp))]
  · rw [Estimator.scale_division (same _ (by simp)), Estimator.scale_division (same _ (by simp))]
  · rfl

theorem greaterStats_division
    (same : ∀ divisor ∈ greaterDivisors value s, estimator.Divides div divisor) :
    greaterStats (estimator.withDivision div) value s = greaterStats estimator value s := by
  simp only [greaterDivisors] at same
  simp only [greaterStats]
  split_ifs at same ⊢ with above outside highest empty
  · rfl
  · rfl
  · rw [Estimator.ceilQuotient_division (same _ (by simp))]
  · rw [Estimator.scale_division (same _ (by simp)), Estimator.scale_division (same _ (by simp))]
  · rfl

theorem filterStats_division {filter : Filter}
    (same : ∀ divisor ∈ filterStatsDivisors filter s, estimator.Divides div divisor) :
    filterStats (estimator.withDivision div) filter s = filterStats estimator filter s := by
  rw [filterStatsDivisors] at same
  rw [filterStats, filterStats]
  cases op : filter.op with
  | less =>
      rw [op] at same
      exact congrArg some (lessStats_division same)
  | greater =>
      rw [op] at same
      exact congrArg some (greaterStats_division same)
  | equal => rfl

theorem filterColumns_division {filter : Filter}
    (same : ∀ divisor ∈ filterColumnsDivisors filter columns,
      estimator.Divides div divisor) :
    filterColumns (estimator.withDivision div) filter columns =
      filterColumns estimator filter columns := by
  rw [filterColumns, filterColumns]
  cases get : columns[filter.participant.numCol]? with
  | none => rfl
  | some s =>
      rw [filterColumnsDivisors, get] at same
      simp only [List.mem_append] at same
      rw [Option.bind_eq_bind, Option.bind_some, Option.bind_some,
        filterStats_division fun divisor member => same divisor (.inl member)]
      congr 1
      funext after
      refine congrArg some (List.mapIdx_eq_mapIdx_iff.mpr ?_)
      intro c inside
      by_cases isFiltered : c = filter.participant.numCol
      · rw [if_pos isFiltered, if_pos isFiltered]
      · rw [if_neg isFiltered, if_neg isFiltered]
        apply otherColumn_division
        intro divisor member
        apply same divisor
        right
        apply List.mem_flatten_of_mem _ member
        rw [List.mem_mapIdx]
        exact ⟨c, inside, if_neg isFiltered⟩

theorem sameFirst_division {s1 s2 : Stats}
    (sameCommon : estimator.Divides div (commonWidth s1 s2))
    (same : ∀ divisor ∈ otherDivisors s1.numElements s1, estimator.Divides div divisor) :
    sameFirst (estimator.withDivision div) s1 s2 = sameFirst estimator s1 s2 := by
  rw [sameFirst, sameFirst]
  by_cases empty : s1.numElements = 0 ∨ s1.distinctVals = 0
  · rw [if_pos empty, if_pos empty]
  · rw [otherDivisors, if_neg empty] at same
    rw [if_neg empty, if_neg empty, Estimator.ceilQuotient_division sameCommon,
      Estimator.remaining_division (same s1.numElements (by simp))
        (same s1.distinctVals (by simp))]

theorem sameRelationColumns_division {col1 col2 : Nat}
    (same : ∀ divisor ∈ sameRelationDivisors col1 col2 columns, estimator.Divides div divisor) :
    sameRelationColumns (estimator.withDivision div) col1 col2 columns =
      sameRelationColumns estimator col1 col2 columns := by
  cases get1 : columns[col1]? with
  | none => rw [sameRelationColumns, sameRelationColumns, get1]; rfl
  | some s1 =>
      cases get2 : columns[col2]? with
      | none => rw [sameRelationColumns, sameRelationColumns, get1, get2]; rfl
      | some s2 =>
          rw [sameRelationDivisors, get1, get2] at same
          simp only [List.mem_cons, List.mem_append] at same
          have sameCommon := same (commonWidth s1 s2) (.inl rfl)
          rw [sameRelationColumns_eq get1 get2, sameRelationColumns_eq get1 get2,
            sameFirst_division sameCommon fun divisor member =>
              same divisor (.inr (.inl member))]
          refine congrArg some (List.mapIdx_eq_mapIdx_iff.mpr ?_)
          intro c inside
          by_cases isFirst : c = col1
          · rw [if_pos isFirst, if_pos isFirst]
          · rw [if_neg isFirst, if_neg isFirst]
            by_cases isSecond : c = col2
            · rw [if_pos isSecond, if_pos isSecond, sameSecond, sameSecond,
                Estimator.ceilQuotient_division sameCommon]
            · rw [if_neg isSecond, if_neg isSecond]
              apply otherColumn_division
              intro divisor member
              apply same divisor
              right
              right
              apply List.mem_flatten_of_mem _ member
              rw [List.mem_mapIdx]
              exact ⟨c, inside, by rw [if_neg isFirst, if_neg isSecond]⟩

end Estimates

end JoinOperator.Planner
