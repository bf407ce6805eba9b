import JoinOperator.Foundation.Loop
import JoinOperator.Foundation.PackedBits
import JoinOperator.Planner.QueryStats

/-! # Statistics of a column

The distinct values are counted with a bit vector. If the values span more than `N` numbers, they
are counted modulo `N`.
-/

namespace JoinOperator.Planner

open Foundation RadixJoin

def N : Nat := 50000000

def setBit (distinctArray : List Nat) (k : Nat) : Option (List Nat) := do
  let word ← distinctArray[k / 64]?
  write distinctArray (k / 64) (word ||| 1 <<< (k % 64))

def extremes (col : List Nat) (rows : Nat) : Option (Nat × Nat) := do
  let first ← col[0]?
  (List.range rows).foldlM (fun (minI, maxU) i => do
    let value ← col[i]?
    some (if minI > value then value else minI, if maxU < value then value else maxU))
    (first, first)

def span (minI maxU : Nat) : Nat := (wrapSub maxU minI + 1) % 2 ^ 64

/-- `ceil((double)bits / (double)(sizeof(myint_t) * 8))`. The numbers are at most `N`, for which
doubles are exact. -/
def arraySize (bits : Nat) : Nat := PackedBits.wordsFor 64 bits

/-- The loop that counts the values whose bit is not set yet, and sets it. -/
def countDistinct (col : List Nat) (rows : Nat) (bitOf : Nat → Nat) (size : Nat) :
    Option (List Nat × Nat) :=
  (List.range rows).foldlM (fun (distinctArray, distinctVals) i => do
    let value ← col[i]?
    let occurs ← testBit distinctArray (bitOf value)
    let distinctArray ← setBit distinctArray (bitOf value)
    some (distinctArray, if occurs then distinctVals else distinctVals + 1))
    (List.replicate size 0, 0)

def bitOf (minI maxU value : Nat) : Nat :=
  if span minI maxU > N then wrapSub value minI % N else wrapSub value minI

def wordsOf (minI maxU : Nat) : Nat :=
  if span minI maxU > N then arraySize N else arraySize (span minI maxU)

def fillStatsArray (col : List Nat) (rows : Nat) : Option Stats := do
  let (minI, maxU) ← extremes col rows
  let (distinctArray, distinctVals) ← countDistinct col rows (bitOf minI maxU) (wordsOf minI maxU)
  some {
    minI
    maxU
    numElements := rows
    distinctVals
    distinctArray }

section Loops

variable {col : List Nat} {minI maxU : Nat}

structure Extremes (col : List Nat) (minI maxU : Nat) : Prop where
  minIn : minI ∈ col
  least : ∀ value ∈ col, minI ≤ value
  maxIn : maxU ∈ col
  greatest : ∀ value ∈ col, value ≤ maxU

theorem Extremes.le (isExtreme : Extremes col minI maxU) : minI ≤ maxU :=
  isExtreme.least maxU isExtreme.maxIn

theorem extremes_fold (col seen : List Nat) (isExtreme : Extremes seen minI maxU) :
    ∃ smallest largest, col.foldlM (fun ((minI, maxU) : Nat × Nat) value =>
      some (if minI > value then value else minI, if maxU < value then value else maxU))
        (minI, maxU) = some (smallest, largest) ∧ Extremes (seen ++ col) smallest largest := by
  induction col generalizing seen minI maxU with
  | nil => exact ⟨minI, maxU, rfl, by rwa [List.append_nil]⟩
  | cons value col induction =>
      have next : Extremes (seen ++ [value]) (if minI > value then value else minI)
          (if maxU < value then value else maxU) := by
        rcases isExtreme with ⟨minIn, least, maxIn, greatest⟩
        constructor
        · split
          · simp
          · exact List.mem_append_left _ minIn
        · intro other member
          cases List.mem_append.mp member with
          | inl isSeen =>
              have bound := least other isSeen
              split <;> omega
          | inr isValue =>
              rw [List.mem_singleton.mp isValue]
              split <;> omega
        · split
          · simp
          · exact List.mem_append_left _ maxIn
        · intro other member
          cases List.mem_append.mp member with
          | inl isSeen =>
              have bound := greatest other isSeen
              split <;> omega
          | inr isValue =>
              rw [List.mem_singleton.mp isValue]
              split <;> omega
      rw [List.append_cons, List.foldlM_cons]
      exact induction (seen ++ [value]) next

theorem extremes_spec (nonempty : col ≠ []) :
    ∃ minI maxU, extremes col col.length = some (minI, maxU) ∧ Extremes col minI maxU := by
  rcases List.exists_cons_of_ne_nil nonempty with ⟨first, rest, rfl⟩
  have single : Extremes [first] first first :=
    ⟨by simp, by simp, by simp, by simp⟩
  rcases extremes_fold (first :: rest) [first] single with ⟨minI, maxU, ran, isExtreme⟩
  refine ⟨minI, maxU, ?_, ?_⟩
  · rw [extremes, List.getElem?_cons_zero, Option.bind_eq_bind, Option.bind_some, ← ran]
    exact foldlM_getElem? (fun ((minI, maxU) : Nat × Nat) value =>
      some (if minI > value then value else minI, if maxU < value then value else maxU)) _ _
  · -- the first value is seen twice
    have same : ∀ value, value ∈ [first] ++ first :: rest ↔ value ∈ first :: rest := by
      simp
    exact ⟨(same _).mp isExtreme.minIn, fun value member =>
      isExtreme.least value ((same _).mpr member), (same _).mp isExtreme.maxIn,
      fun value member => isExtreme.greatest value ((same _).mpr member)⟩

theorem testBit_eq {distinctArray : List Nat} {k word : Nat}
    (get : distinctArray[k / 64]? = some word) :
    testBit distinctArray k = some (word.testBit (k % 64)) := by
  rw [testBit, get]
  rfl

theorem testBit_iff {distinctArray : List Nat} {k : Nat} :
    testBit distinctArray k = some true ↔ PackedBits.Has 64 distinctArray k := by
  cases get : distinctArray[k / 64]? with
  | none =>
      rw [testBit, get]
      refine iff_of_false (by simp) ?_
      intro has
      rcases has with ⟨word, getWord, _⟩
      rw [get] at getWord
      cases getWord
  | some word => rw [testBit_eq get, PackedBits.has_iff get, Option.some.injEq]

theorem setBit_eq {distinctArray : List Nat} {k word : Nat}
    (get : distinctArray[k / 64]? = some word) :
    setBit distinctArray k = some (distinctArray.set (k / 64) (word ||| 1 <<< (k % 64))) := by
  rw [setBit, get, Option.bind_eq_bind, Option.bind_some,
    write_of_lt (List.getElem?_eq_some_iff.mp get).1]

theorem countDistinct_fold (bitOf : Nat → Nat) {distinctArray : List Nat} {count : Nat}
    {S : Finset Nat} (holds : PackedBits.Holds 64 distinctArray count S)
    (inside : ∀ value ∈ col, bitOf value / 64 < distinctArray.length) :
    ∃ after total, col.foldlM (fun ((distinctArray, distinctVals) : List Nat × Nat) value => do
        let occurs ← testBit distinctArray (bitOf value)
        let distinctArray ← setBit distinctArray (bitOf value)
        some (distinctArray, if occurs then distinctVals else distinctVals + 1))
        (distinctArray, count) = some (after, total) ∧ after.length = distinctArray.length ∧
      PackedBits.Holds 64 after total (S ∪ (col.map bitOf).toFinset) := by
  induction col generalizing distinctArray count S with
  | nil => exact ⟨distinctArray, count, rfl, rfl, by simpa using holds⟩
  | cons value col induction =>
      have isWord : ∃ word, distinctArray[bitOf value / 64]? = some word :=
        ⟨_, List.getElem?_eq_getElem (inside value List.mem_cons_self)⟩
      rcases isWord with ⟨word, get⟩
      have insideNext : ∀ other ∈ col, bitOf other / 64 < (distinctArray.set (bitOf value / 64)
          (word ||| 1 <<< (bitOf value % 64))).length := by
        intro other member
        rw [List.length_set]
        exact inside other (List.mem_cons_of_mem _ member)
      rcases induction (holds.insert get) insideNext with ⟨after, total, ran, length, holdsAll⟩
      rw [List.length_set] at length
      refine ⟨after, total, ?_, length, ?_⟩
      · simp only [List.foldlM_cons, testBit_eq get, setBit_eq get, Option.bind_eq_bind,
          Option.bind_some]
        exact ran
      · rw [List.map_cons, List.toFinset_cons, Finset.union_insert, ← Finset.insert_union]
        exact holdsAll

theorem countDistinct_spec (bitOf : Nat → Nat) {size : Nat}
    (inside : ∀ value ∈ col, bitOf value / 64 < size) :
    ∃ distinctArray distinctVals,
      countDistinct col col.length bitOf size = some (distinctArray, distinctVals) ∧
      distinctArray.length = size ∧
      PackedBits.Holds 64 distinctArray distinctVals (col.map bitOf).toFinset := by
  have insideArray : ∀ value ∈ col, bitOf value / 64 < (List.replicate size 0).length := by
    rwa [List.length_replicate]
  rcases countDistinct_fold bitOf (PackedBits.holds_empty size) insideArray with
    ⟨distinctArray, distinctVals, ran, length, holds⟩
  rw [Finset.empty_union] at holds
  rw [List.length_replicate] at length
  refine ⟨distinctArray, distinctVals, ?_, length, holds⟩
  rw [countDistinct, ← ran]
  exact foldlM_getElem? (fun ((distinctArray, distinctVals) : List Nat × Nat) value => do
    let occurs ← testBit distinctArray (bitOf value)
    let distinctArray ← setBit distinctArray (bitOf value)
    some (distinctArray, if occurs then distinctVals else distinctVals + 1)) _ _

end Loops

/-- The statistics tell the truth about the column. -/
structure ExactStats (col : List Nat) (s : Stats) : Prop where
  extremes : Extremes col s.minI s.maxU
  numElements : s.numElements = col.length
  narrow : s.maxU - s.minI + 1 ≤ N → s.distinctVals = col.toFinset.card ∧
    ∀ k, testBit s.distinctArray k = some true ↔ s.minI + k ∈ col
  wide : N < s.maxU - s.minI + 1 →
    s.distinctVals = (col.map fun value => (value - s.minI) % N).toFinset.card ∧
    ∀ k, testBit s.distinctArray k = some true ↔ ∃ value ∈ col, (value - s.minI) % N = k
  inside : ∀ value ∈ col, bitOf s.minI s.maxU value < 64 * s.distinctArray.length

/-- The span is the number of values from `minI` to `maxU`, and all bits are in the words that are
allocated. -/
structure SizedExactly (col : List Nat) (minI maxU : Nat) : Prop where
  span : span minI maxU = maxU - minI + 1
  inside : ∀ value ∈ col, bitOf minI maxU value < 64 * wordsOf minI maxU

section Columns

variable {col : List Nat} {minI maxU value : Nat}

theorem span_eq (le : minI ≤ maxU) (small : maxU - minI + 1 < 2 ^ 64) :
    span minI maxU = maxU - minI + 1 := by
  rw [span, wrapSub_of_le le, Nat.mod_eq_of_lt small]

theorem bitOf_narrow (isSpan : span minI maxU = maxU - minI + 1)
    (narrow : maxU - minI + 1 ≤ N) (above : minI ≤ value) :
    bitOf minI maxU value = value - minI := by
  rw [bitOf, isSpan, if_neg (Nat.not_lt.mpr narrow), wrapSub_of_le above]

theorem bitOf_wide (isSpan : span minI maxU = maxU - minI + 1) (wide : N < maxU - minI + 1)
    (above : minI ≤ value) : bitOf minI maxU value = (value - minI) % N := by
  rw [bitOf, isSpan, if_pos wide, wrapSub_of_le above]

theorem bitOf_inside (isSpan : span minI maxU = maxU - minI + 1) (above : minI ≤ value)
    (below : value ≤ maxU) : bitOf minI maxU value / 64 < wordsOf minI maxU := by
  rw [wordsOf, isSpan]
  by_cases wide : maxU - minI + 1 > N
  · rw [if_pos wide, bitOf_wide isSpan wide above]
    exact PackedBits.word_lt_wordsFor (by decide) (Nat.mod_lt _ (by decide))
  · rw [if_neg wide, bitOf_narrow isSpan (Nat.not_lt.mp wide) above]
    exact PackedBits.word_lt_wordsFor (by decide) (by omega)

theorem sizedExactly_of_span (isExtreme : Extremes col minI maxU)
    (isSpan : span minI maxU = maxU - minI + 1) : SizedExactly col minI maxU where
  span := isSpan
  inside := by
    intro value member
    have inside := bitOf_inside isSpan (isExtreme.least value member)
      (isExtreme.greatest value member)
    rw [Nat.div_lt_iff_lt_mul (by decide), Nat.mul_comm] at inside
    exact inside

theorem fillStatsArray_holds (nonempty : col ≠ []) (small : ∀ value ∈ col, ∀ other ∈ col,
    other - value + 1 < 2 ^ 64) :
    ∃ s, fillStatsArray col col.length = some s ∧ Extremes col s.minI s.maxU ∧
      span s.minI s.maxU = s.maxU - s.minI + 1 ∧ s.numElements = col.length ∧
      s.distinctArray.length = wordsOf s.minI s.maxU ∧
      PackedBits.Holds 64 s.distinctArray s.distinctVals
        (col.map (bitOf s.minI s.maxU)).toFinset := by
  rcases extremes_spec nonempty with ⟨minI, maxU, found, isExtreme⟩
  have isSpan := span_eq isExtreme.le (small minI isExtreme.minIn maxU isExtreme.maxIn)
  rcases countDistinct_spec (bitOf minI maxU) fun value member => bitOf_inside isSpan
      (isExtreme.least value member) (isExtreme.greatest value member) with
    ⟨distinctArray, distinctVals, counted, length, holds⟩
  refine ⟨⟨minI, maxU, col.length, distinctVals, distinctArray⟩, ?_, isExtreme, isSpan, rfl,
    length, holds⟩
  rw [fillStatsArray, found]
  simp only [Option.bind_eq_bind, Option.bind_some, counted]

theorem image_toFinset (f : Nat → Nat) : (col.map f).toFinset = col.toFinset.image f := by
  ext value
  simp only [List.mem_toFinset, List.mem_map, Finset.mem_image]

/-- The statistics of a column are exact, unless it spans all numbers. -/
theorem fillStatsArray_exact (nonempty : col ≠ []) (small : ∀ value ∈ col, ∀ other ∈ col,
    other - value + 1 < 2 ^ 64) :
    ∃ s, fillStatsArray col col.length = some s ∧ ExactStats col s := by
  rcases fillStatsArray_holds nonempty small with
    ⟨s, filled, isExtreme, isSpan, numElements, length, holds⟩
  refine ⟨s, filled, isExtreme, numElements, ?_, ?_, ?_⟩
  · intro narrow
    have bits : col.map (bitOf s.minI s.maxU) = col.map (fun value => value - s.minI) :=
      List.map_congr_left fun value member =>
        bitOf_narrow isSpan narrow (isExtreme.least value member)
    rw [bits] at holds
    constructor
    · rw [holds.card, image_toFinset]
      apply Finset.card_image_of_injOn
      intro first isFirst second isSecond same
      have firstAbove := isExtreme.least first (List.mem_toFinset.mp isFirst)
      have secondAbove := isExtreme.least second (List.mem_toFinset.mp isSecond)
      simp only at same
      omega
    · intro k
      rw [testBit_iff, holds.bits, List.mem_toFinset, List.mem_map]
      constructor
      · intro isBit
        rcases isBit with ⟨value, member, rfl⟩
        rw [Nat.add_sub_cancel' (isExtreme.least value member)]
        exact member
      · intro member
        exact ⟨s.minI + k, member, Nat.add_sub_cancel_left ..⟩
  · intro wide
    have bits : col.map (bitOf s.minI s.maxU) = col.map (fun value => (value - s.minI) % N) :=
      List.map_congr_left fun value member =>
        bitOf_wide isSpan wide (isExtreme.least value member)
    rw [bits] at holds
    refine ⟨holds.card, ?_⟩
    intro k
    rw [testBit_iff, holds.bits, List.mem_toFinset, List.mem_map]
  · rw [length]
    exact (sizedExactly_of_span isExtreme isSpan).inside

theorem fillStatsArray_exact_threeRows :
    ∃ s, fillStatsArray [9, 7, 9] 3 = some s ∧ ExactStats [9, 7, 9] s :=
  fillStatsArray_exact (by decide) (by decide)

/-- The sizes are right exactly if the column does not have both the least and the greatest
number. -/
theorem sizedExactly_iff (nonempty : col ≠ []) (words : ∀ value ∈ col, value < 2 ^ 64) :
    ∃ minI maxU, extremes col col.length = some (minI, maxU) ∧
      (SizedExactly col minI maxU ↔ ¬ (0 ∈ col ∧ 2 ^ 64 - 1 ∈ col)) := by
  rcases extremes_spec nonempty with ⟨minI, maxU, found, isExtreme⟩
  refine ⟨minI, maxU, found, ?_⟩
  constructor
  · intro sized isFull
    rcases isFull with ⟨hasLeast, hasGreatest⟩
    have isLeast := isExtreme.least 0 hasLeast
    have isGreatest := isExtreme.greatest _ hasGreatest
    have below := words maxU isExtreme.maxIn
    have bound : span minI maxU < 2 ^ 64 := Nat.mod_lt _ (by decide)
    have isSpan := sized.span
    omega
  · intro notFull
    apply sizedExactly_of_span isExtreme
    apply span_eq isExtreme.le
    have below := words maxU isExtreme.maxIn
    by_contra full
    have isLeast : minI = 0 := by
      omega
    have isGreatest : maxU = 2 ^ 64 - 1 := by
      omega
    exact notFull ⟨isLeast ▸ isExtreme.minIn, isGreatest ▸ isExtreme.maxIn⟩

theorem sizedExactly_iff_threeRows : ∃ minI maxU,
    extremes [9, 7, 9] 3 = some (minI, maxU) ∧ SizedExactly [9, 7, 9] minI maxU := by
  rcases sizedExactly_iff (show [9, 7, 9] ≠ [] by decide) (by decide) with
    ⟨minI, maxU, found, sized⟩
  exact ⟨minI, maxU, found, sized.mpr (by decide)⟩

/-- For a column with both, no word is allocated. -/
theorem sizedExactly_fullRange : extremes [0, 2 ^ 64 - 1] 2 = some (0, 2 ^ 64 - 1) ∧
    wordsOf 0 (2 ^ 64 - 1) = 0 ∧ fillStatsArray [0, 2 ^ 64 - 1] 2 = none ∧
    ¬ SizedExactly [0, 2 ^ 64 - 1] 0 (2 ^ 64 - 1) := by
  refine ⟨by decide, by decide, by decide, ?_⟩
  intro sized
  exact absurd sized.span (by decide)

end Columns

end JoinOperator.Planner
