import JoinOperator.Foundation.HashChain
import JoinOperator.Foundation.Loop
import JoinOperator.RadixJoin.Buckets

/-! # What `indexing` builds

Every cell of the array indexes the tuples with its hash value, in parts that
are chained by the second hash.
-/

namespace JoinOperator.RadixJoin

open Foundation

/-- What `hashing` computes for fewer than 64 bits. -/
def hashValue (hash1 hash2 value : Nat) : Nat :=
  let value := value >>> hash1
  (value ^^^ (value >>> (hash1 + 3)) ^^^ (value >>> (hash1 + 5))) % 2 ^ hash2

theorem hashing_eq {hash2 : Nat} (bits : hash2 < 64) (value hash1 : Nat) :
    hashing value hash1 hash2 = hashValue hash1 hash2 value := by
  simp only [hashing, hash2Range, powerOfTwo_eq bits, wrapSub_of_le Nat.one_le_two_pow,
    Nat.and_two_pow_sub_one_eq_mod]
  rfl

theorem hashValue_lt (hash1 hash2 value : Nat) : hashValue hash1 hash2 value < 2 ^ hash2 :=
  Nat.mod_lt _ (Nat.two_pow_pos hash2)

def hashAt (hash1 hash2 : Nat) (tuples : List Tuple) (position : Nat) : Nat :=
  match tuples[position]? with
  | some t => hashValue hash1 hash2 t.key
  | none => 0

structure RelationIndex.Indexes (hash1 : Nat) (index : RelationIndex)
    (tuples : List Tuple) : Prop where
  rel : index.rel = some tuples
  bits : index.hash2 < 64
  length : index.chain.length = tuples.length
  small : tuples.length < 2 ^ 64 - 1
  chained : Chained (hashAt hash1 index.hash2 tuples) (2 ^ index.hash2) index.chain
    index.buckets tuples.length

theorem indexTuple_eq {hash1 hash2 : Nat} {tuples : List Tuple} (bits : hash2 < 64)
    {count : Nat} (below : count < tuples.length) {chain buckets : List Nat}
    (length : chain.length = tuples.length)
    (chained : Chained (hashAt hash1 hash2 tuples) (2 ^ hash2) chain buckets count) :
    ∃ after, indexTuple tuples hash1 hash2 (chain, buckets) count = some after ∧
      after.1.length = tuples.length ∧
      Chained (hashAt hash1 hash2 tuples) (2 ^ hash2) after.1 after.2 (count + 1) := by
  have get := List.getElem?_eq_getElem below
  have hash : hashValue hash1 hash2 tuples[count].key = hashAt hash1 hash2 tuples count := by
    rw [hashAt, get]
  have inside : hashAt hash1 hash2 tuples count < 2 ^ hash2 := by
    rw [← hash]
    exact hashValue_lt hash1 hash2 _
  have room : count < chain.length := by omega
  have bucketRoom : hashAt hash1 hash2 tuples count < buckets.length := by
    rw [chained.size]
    exact inside
  refine ⟨(chain.set count (lastLink (hashAt hash1 hash2 tuples)
      (hashAt hash1 hash2 tuples count) count),
    buckets.set (hashAt hash1 hash2 tuples count) (count + 1)), ?_, ?_,
    chained.enter inside room⟩
  · simp only [indexTuple, updateChain, get, hashing_eq bits, hash, chained.heads _ inside,
      write_of_lt room, write_of_lt bucketRoom, Option.bind_eq_bind, Option.bind_some]
  · rw [List.length_set, length]

theorem buildIndex_eq (hash1 hash2 key : Nat) {tuples : List Tuple} (bits : hash2 < 64)
    (small : tuples.length < 2 ^ 64 - 1) :
    ∃ index, buildIndex (initializeIndex (2 ^ hash2) (some tuples) key hash2) hash1 hash2 =
      some index ∧ index.Indexes hash1 tuples := by
  let Invariant (count : Nat) (arrays : List Nat × List Nat) : Prop :=
    arrays.1.length = tuples.length ∧
      Chained (hashAt hash1 hash2 tuples) (2 ^ hash2) arrays.1 arrays.2 count
  have start : Invariant 0 (List.replicate tuples.length 0, List.replicate (2 ^ hash2) 0) :=
    ⟨List.length_replicate, .empty _ _⟩
  rcases foldlM_range_invariant Invariant start
      (fun count below arrays ⟨length, chained⟩ => indexTuple_eq bits below length chained)
    with ⟨⟨chain, buckets⟩, built, length, chained⟩
  refine ⟨{ chain, buckets, rel := some tuples, key, hash2 }, ?_,
    ⟨rfl, bits, length, small, chained⟩⟩
  rw [buildIndex]
  simp only [initializeIndex, Option.bind_eq_bind, Option.bind_some, built]

/-- A cell indexes `tuples` in parts. Without tuples its first index is empty. -/
def CellIndexes (hash1 : Nat) (cell : List RelationIndex) (tuples : List Tuple) : Prop :=
  (tuples = [] ∧ ∃ key, cell = [initializeIndex 0 none key 0]) ∨
    ∃ parts, List.Forall₂ (RelationIndex.Indexes hash1) cell parts ∧ parts.flatten = tuples

theorem halveSize_eq (bucketArrSize : Nat) (fits : sizeOfIndex 1 bucketArrSize ≤ cacheSize)
    {fuel eachSize : Nat} (enough : eachSize < fuel) (positive : 1 ≤ eachSize) :
    ∃ size, halveSize bucketArrSize fuel eachSize = some size ∧ 1 ≤ size ∧ size ≤ eachSize ∧
      sizeOfIndex size bucketArrSize ≤ cacheSize := by
  induction fuel generalizing eachSize with
  | zero => cases enough
  | succ fuel induction =>
      rw [halveSize]
      split
      · rename_i tooLarge
        have several : 2 ≤ eachSize := by
          by_contra one
          have equal : eachSize = 1 := by omega
          subst equal
          omega
        rcases induction (show eachSize / 2 < fuel by omega) (show 1 ≤ eachSize / 2 by omega) with
          ⟨size, equal, atLeast, atMost, small⟩
        exact ⟨size, equal, atLeast, by omega, small⟩
      · rename_i small
        exact ⟨eachSize, rfl, positive, Nat.le_refl _, by omega⟩

/-- Buckets that fit in the cache are less than `2 ^ 13`. -/
theorem bits_lt_of_fits {eachSize hash2 : Nat}
    (fits : sizeOfIndex eachSize (2 ^ hash2) ≤ cacheSize) : hash2 < 13 := by
  by_contra many
  have power : 2 ^ 13 ≤ 2 ^ hash2 := Nat.pow_le_pow_right (by omega) (by omega)
  rw [sizeOfIndex, cacheSize] at fits
  omega

/-- The second loop ends one behind the last number of bits that fits. -/
theorem widenHash2_eq {eachSize fuel hash2 : Nat} (enough : 13 < hash2 + fuel)
    (fits : sizeOfIndex eachSize (2 ^ hash2) ≤ cacheSize) :
    ∃ last, widenHash2 eachSize fuel hash2 = some (last + 1) ∧ hash2 ≤ last ∧
      sizeOfIndex eachSize (2 ^ last) ≤ cacheSize ∧
      cacheSize < sizeOfIndex eachSize (2 ^ (last + 1)) := by
  induction fuel generalizing hash2 with
  | zero =>
      have := bits_lt_of_fits fits
      omega
  | succ fuel induction =>
      have few := bits_lt_of_fits fits
      rw [widenHash2, hash2Range, powerOfTwo_eq (by omega), if_pos fits]
      by_cases fitsNext : sizeOfIndex eachSize (2 ^ (hash2 + 1)) ≤ cacheSize
      · rcases induction (by omega) fitsNext with ⟨last, widened, atLeast, fitsLast, beyond⟩
        exact ⟨last, widened, by omega, fitsLast, beyond⟩
      · refine ⟨hash2, ?_, Nat.le_refl hash2, fits, Nat.lt_of_not_le fitsNext⟩
        cases fuel with
        | zero => omega
        | succ fuel =>
            rw [widenHash2, hash2Range, powerOfTwo_eq (by omega), if_neg fitsNext]

theorem recomputeSizes_eq {sizeAll : Nat} (large : sizeOfIndex sizeAll 256 > cacheSize) :
    ∃ eachSize hash2, recomputeSizes initialHash2 sizeAll = some (eachSize, hash2) ∧
      1 ≤ eachSize ∧ eachSize ≤ sizeAll / 2 ∧ initialHash2 ≤ hash2 ∧
      sizeOfIndex eachSize (2 ^ hash2) ≤ cacheSize ∧
      cacheSize < sizeOfIndex eachSize (2 ^ (hash2 + 1)) := by
  have several : 2 ≤ sizeAll := by
    rw [sizeOfIndex, cacheSize] at large
    omega
  rcases halveSize_eq 256 (by decide) (Nat.lt_succ_self (sizeAll / 2))
    (by omega) with ⟨eachSize, halved, atLeast, atMost, small⟩
  rcases widenHash2_eq (show 13 < 8 + 64 by omega) small with
    ⟨hash2, widened, widens, fits, beyond⟩
  have initial : initialHash2 = 8 := by decide
  have range : hash2Range 8 = 256 := rfl
  refine ⟨eachSize, hash2, ?_, atLeast, atMost, initial.symm ▸ widens, fits, beyond⟩
  rw [recomputeSizes, initial]
  simp only [range, halved, widened, wrapSub_of_le (Nat.le_add_left 1 hash2),
    Option.bind_eq_bind, Option.bind_some, Nat.add_sub_cancel]

theorem buildSubIndex_eq (hash1 key : Nat) {hash2 : Nat} (bits : hash2 < 64)
    (startOfBuck : List Tuple) {fuel sizeAll eachSize sizeIndexedSofar : Nat}
    (enough : sizeAll ≤ fuel) (positive : 1 ≤ eachSize) (small : eachSize < 2 ^ 64 - 1)
    (rest : sizeIndexedSofar + sizeAll = startOfBuck.length) :
    ∃ cell parts, buildSubIndex hash1 hash2 (2 ^ hash2) startOfBuck key fuel sizeAll eachSize
        sizeIndexedSofar = some cell ∧
      List.Forall₂ (RelationIndex.Indexes hash1) cell parts ∧
      parts.flatten = startOfBuck.drop sizeIndexedSofar ∧
      ∀ part ∈ parts, 1 ≤ part.length ∧ part.length ≤ eachSize := by
  induction fuel generalizing sizeAll eachSize sizeIndexedSofar with
  | zero =>
      have done : sizeAll = 0 := by omega
      subst done
      refine ⟨[], [], rfl, .nil, ?_, by simp⟩
      rw [List.drop_of_length_le (by omega)]
      rfl
  | succ fuel induction =>
      cases sizeAll with
      | zero =>
          refine ⟨[], [], rfl, .nil, ?_, by simp⟩
          rw [List.drop_of_length_le (by omega)]
          rfl
      | succ sizeAll =>
          have each : (if sizeAll + 1 < eachSize then sizeAll + 1 else eachSize) =
              min eachSize (sizeAll + 1) := by
            split <;> omega
          have cut : slice startOfBuck sizeIndexedSofar (min eachSize (sizeAll + 1)) =
              some ((startOfBuck.drop sizeIndexedSofar).take (min eachSize (sizeAll + 1))) :=
            if_pos (by omega)
          have length : ((startOfBuck.drop sizeIndexedSofar).take
              (min eachSize (sizeAll + 1))).length = min eachSize (sizeAll + 1) := by
            rw [List.length_take, List.length_drop]
            omega
          have smallPart : ((startOfBuck.drop sizeIndexedSofar).take
              (min eachSize (sizeAll + 1))).length < 2 ^ 64 - 1 := by
            rw [length]
            omega
          rcases buildIndex_eq hash1 hash2 key bits smallPart with ⟨index, built, indexes⟩
          have remaining : wrapSub (sizeAll + 1) (min eachSize (sizeAll + 1)) =
              sizeAll + 1 - min eachSize (sizeAll + 1) := wrapSub_of_le (by omega)
          rcases induction
              (show sizeAll + 1 - min eachSize (sizeAll + 1) ≤ fuel by omega)
              (show 1 ≤ min eachSize (sizeAll + 1) by omega) (by omega)
              (show sizeIndexedSofar + min eachSize (sizeAll + 1) +
                (sizeAll + 1 - min eachSize (sizeAll + 1)) = startOfBuck.length by omega) with
            ⟨cell, parts, rest, indexesRest, flatten, sizes⟩
          refine ⟨index :: cell, _ :: parts, ?_, .cons indexes indexesRest, ?_, ?_⟩
          · simp only [buildSubIndex, each, cut, built, remaining, rest, Option.bind_eq_bind,
              Option.bind_some]
          · rw [List.flatten_cons, flatten, ← List.drop_drop, List.take_append_drop]
          · intro part member
            rcases List.mem_cons.mp member with first | member
            · rw [first, length]
              omega
            · have size := sizes part member
              omega

theorem sizeOfIndex_mono {size other bits otherBits : Nat} (sizes : size ≤ other)
    (buckets : bits ≤ otherBits) :
    sizeOfIndex size (2 ^ bits) ≤ sizeOfIndex other (2 ^ otherBits) := by
  have power : 2 ^ bits ≤ 2 ^ otherBits := Nat.pow_le_pow_right (by omega) buckets
  rw [sizeOfIndex, sizeOfIndex]
  omega

/-- A bucket whose index does not fit in the cache is split into usable parts:
both loops of `recomputeSizes` end, the part and its buckets fit in the cache
as tightly as powers of two allow, no size that is computed on the way wraps,
and `buildSubIndex` indexes the rest of the bucket part by part. -/
theorem recomputeSizes_usable (rel : List Tuple)
    (large : sizeOfIndex rel.length (2 ^ initialHash2) > cacheSize)
    (noWrap : sizeOfIndex rel.length (2 ^ initialHash2) < 2 ^ 64) :
    ∃ eachSize hash2Var,
      recomputeSizes initialHash2 rel.length = some (eachSize, hash2Var) ∧
      1 ≤ eachSize ∧ eachSize ≤ rel.length / 2 ∧ initialHash2 ≤ hash2Var ∧
      sizeOfIndex eachSize (2 ^ hash2Var) ≤ cacheSize ∧
      cacheSize < sizeOfIndex eachSize (2 ^ (hash2Var + 1)) ∧
      (∀ size ≤ rel.length / 2, sizeOfIndex size (2 ^ initialHash2) < 2 ^ 64) ∧
      (∀ bits ≤ hash2Var + 1, sizeOfIndex eachSize (2 ^ bits) < 2 ^ 64) ∧
      ∀ hash1 key, ∃ cell parts,
        buildSubIndex hash1 hash2Var (2 ^ hash2Var) rel key rel.length
          (rel.length - eachSize) eachSize eachSize = some cell ∧
        List.Forall₂ (RelationIndex.Indexes hash1) cell parts ∧
        parts.flatten = rel.drop eachSize ∧
        ∀ part ∈ parts, 1 ≤ part.length ∧ part.length ≤ eachSize := by
  have initial : initialHash2 = 8 := by decide
  have tooLarge : sizeOfIndex rel.length 256 > cacheSize := by
    rw [initial] at large
    exact large
  rcases recomputeSizes_eq tooLarge with
    ⟨eachSize, hash2Var, sizes, positive, atMostHalf, atLeast, fits, beyond⟩
  have bits : hash2Var < 13 := bits_lt_of_fits fits
  have fitsEach : 24 * eachSize ≤ cacheSize := by
    rw [sizeOfIndex] at fits
    omega
  refine ⟨eachSize, hash2Var, sizes, positive, atMostHalf, atLeast, fits, beyond, ?_, ?_, ?_⟩
  · intro size half
    have smaller := sizeOfIndex_mono (show size ≤ rel.length by omega) (Nat.le_refl initialHash2)
    exact Nat.lt_of_le_of_lt smaller noWrap
  · intro width atMost
    have smaller := sizeOfIndex_mono (Nat.le_refl eachSize) (show width ≤ 13 by omega)
    have bounded : sizeOfIndex eachSize (2 ^ 13) < 2 ^ 64 := by
      rw [cacheSize] at fitsEach
      rw [sizeOfIndex]
      omega
    exact Nat.lt_of_le_of_lt smaller bounded
  · intro hash1 key
    have small : eachSize < 2 ^ 64 - 1 := by
      rw [cacheSize] at fitsEach
      omega
    exact buildSubIndex_eq hash1 key (Nat.lt_trans bits (by omega)) rel (Nat.sub_le _ _) positive
      small (by omega)

theorem recomputeSizes_usable_threeThousand : ∃ eachSize hash2Var cell,
    recomputeSizes initialHash2 3000 = some (eachSize, hash2Var) ∧
      1 ≤ eachSize ∧ eachSize ≤ 1500 ∧
      buildSubIndex 0 hash2Var (2 ^ hash2Var) (List.replicate 3000 ⟨7, 0⟩) 0 3000
        (3000 - eachSize) eachSize eachSize = some cell := by
  have length : (List.replicate 3000 (⟨7, 0⟩ : Tuple)).length = 3000 := List.length_replicate
  rcases recomputeSizes_usable (List.replicate 3000 ⟨7, 0⟩) (by rw [length]; decide)
      (by rw [length]; decide) with
    ⟨eachSize, hash2Var, sizes, positive, atMost, _, _, _, _, _, splits⟩
  rcases splits 0 0 with ⟨cell, _, built, _⟩
  rw [length] at sizes atMost built
  exact ⟨eachSize, hash2Var, cell, sizes, positive, atMost, built⟩

theorem indexBucket_eq (hash1 key : Nat) (tuples : List Tuple) :
    ∃ cell, indexBucket hash1 initialHash2 key tuples = some cell ∧
      CellIndexes hash1 cell tuples := by
  have initial : initialHash2 = 8 := by decide
  have range : hash2Range 8 = 256 := rfl
  by_cases fits : sizeOfIndex tuples.length 256 ≤ cacheSize
  · have small : tuples.length < 2 ^ 64 - 1 := by
      rw [sizeOfIndex, cacheSize] at fits
      omega
    rcases buildIndex_eq hash1 8 key (by omega) small with ⟨index, built, indexes⟩
    have built : buildIndex (initializeIndex 256 (some tuples) key 8) hash1 8 = some index :=
      built
    refine ⟨[index], ?_, .inr ⟨[tuples], .cons indexes .nil, List.append_nil _⟩⟩
    rw [indexBucket, initial]
    simp only [range, Option.bind_eq_bind, Option.bind_some, built, if_pos fits]
  · rcases recomputeSizes_eq (Nat.lt_of_not_le fits) with
      ⟨eachSize, hash2, sizes, positive, atMostHalf, _, fitsEach, _⟩
    have atMost : eachSize ≤ tuples.length := by
      omega
    have bits : hash2 < 64 := Nat.lt_trans (bits_lt_of_fits fitsEach) (by omega)
    have wideRange : hash2Range hash2 = 2 ^ hash2 := powerOfTwo_eq bits
    have cut : slice tuples 0 eachSize = some (tuples.take eachSize) :=
      if_pos (by omega)
    have eachSmall : eachSize < 2 ^ 64 - 1 := by
      rw [sizeOfIndex, cacheSize] at fitsEach
      omega
    have small : (tuples.take eachSize).length < 2 ^ 64 - 1 := by
      rw [List.length_take]
      omega
    rcases buildIndex_eq hash1 hash2 key bits small with ⟨index, built, indexes⟩
    rcases buildSubIndex_eq hash1 key bits tuples
        (show tuples.length - eachSize ≤ tuples.length by omega) positive eachSmall
        (show eachSize + (tuples.length - eachSize) = tuples.length by omega) with
      ⟨cell, parts, rest, indexesRest, flatten, _⟩
    refine ⟨index :: cell, ?_, .inr ⟨_ :: parts, .cons indexes indexesRest, ?_⟩⟩
    · rw [initial] at sizes
      rw [indexBucket, initial]
      simp only [range, Option.bind_eq_bind, Option.bind_some, if_neg fits, sizes, wideRange,
        cut, built, wrapSub_of_le atMost, rest]
    · rw [List.flatten_cons, flatten, List.take_append_drop]

structure IndexArray.Indexes (hash1 : Nat) (indArr : IndexArray) (tuples : List Tuple) :
    Prop where
  bits : hash1 < 64
  size : indArr.indexes.length = 2 ^ hash1
  cells : ∀ value < 2 ^ hash1, ∃ cell, indArr.indexes[value]? = some cell ∧
    CellIndexes hash1 cell (withHash hash1 value tuples)

/-- The cells made so far, and `whichPsum` is at the first entry that has none. -/
structure IndexedBelow (ror : ReorderedR) (hash1 count : Nat)
    (state : List (List RelationIndex) × Nat) : Prop where
  length : state.1.length = count
  cells : ∀ value < count, ∃ cell, state.1[value]? = some cell ∧
    CellIndexes hash1 cell (withHash hash1 value ror.rel)
  atMost : state.2 ≤ ror.pSumArr.psum.length
  passed : ∀ whichPsum entry, ror.pSumArr.psum[whichPsum]? = some entry →
    (entry.h1Res < count ↔ whichPsum < state.2)

private theorem IndexedBelow.append {ror : ReorderedR} {hash1 count whichPsum next : Nat}
    {cells : List (List RelationIndex)}
    (indexed : IndexedBelow ror hash1 count (cells, whichPsum)) {cell : List RelationIndex}
    (indexes : CellIndexes hash1 cell (withHash hash1 count ror.rel))
    (atMost : next ≤ ror.pSumArr.psum.length)
    (passed : ∀ whichPsum entry, ror.pSumArr.psum[whichPsum]? = some entry →
      (entry.h1Res < count + 1 ↔ whichPsum < next)) :
    IndexedBelow ror hash1 (count + 1) (cells ++ [cell], next) where
  length := by
    rw [List.length_append, indexed.length]
    rfl
  cells := by
    intro value below
    by_cases last : value = count
    · subst last
      refine ⟨cell, ?_, indexes⟩
      rw [List.getElem?_append_right (by rw [indexed.length]), indexed.length, Nat.sub_self]
      rfl
    · rcases indexed.cells value (by omega) with ⟨other, get, otherIndexes⟩
      refine ⟨other, ?_, otherIndexes⟩
      rw [List.getElem?_append_left (by rw [indexed.length]; omega)]
      exact get
  atMost := atMost
  passed := passed

theorem indexingStep_eq {ror : ReorderedR} {hash1 count : Nat}
    (wellFormed : ror.WellFormed hash1) {state : List (List RelationIndex) × Nat}
    (indexed : IndexedBelow ror hash1 count state) :
    ∃ after, indexingStep ror hash1 initialHash2 state count = some after ∧
      IndexedBelow ror hash1 (count + 1) after := by
  rcases state with ⟨cells, whichPsum⟩
  -- a hash value without an entry gets an empty cell
  have skips (noEntry : ∀ (which : Nat) (entry : PSumTuple), ror.pSumArr.psum[which]? = some entry →
      entry.h1Res ≠ count) :
      IndexedBelow ror hash1 (count + 1)
        (cells ++ [[initializeIndex 0 none count 0]], whichPsum) := by
    refine indexed.append (.inl ⟨?_, count, rfl⟩) indexed.atMost ?_
    · apply wellFormed.withHash_eq_nil
      intro entry member
      rcases List.getElem?_of_mem member with ⟨which, get⟩
      exact noEntry which entry get
    · intro which entry get
      have differs := noEntry which entry get
      rw [← indexed.passed which entry get]
      omega
  by_cases finished : whichPsum ≥ ror.pSumArr.psumSize
  · refine ⟨_, if_pos finished, skips ?_⟩
    intro which entry get equal
    have bound := (List.getElem?_eq_some_iff.mp get).1
    rw [wellFormed.psumSize] at bound
    have := (indexed.passed which entry get).mpr (Nat.lt_of_lt_of_le bound finished)
    omega
  · have bound : whichPsum < ror.pSumArr.psum.length := by
      rw [wellFormed.psumSize]
      omega
    have get := List.getElem?_eq_getElem bound
    have notPassed := (indexed.passed whichPsum _ get).not.mpr (Nat.lt_irrefl _)
    by_cases here : count = ror.pSumArr.psum[whichPsum].h1Res
    · rcases indexBucket_eq hash1 count (ror.bucket whichPsum) with ⟨cell, made, indexes⟩
      refine ⟨(cells ++ [cell], whichPsum + 1), ?_, indexed.append ?_ bound ?_⟩
      · rw [indexingStep, if_neg finished]
        simp only [get, Option.bind_eq_bind, Option.bind_some, if_pos here,
          wellFormed.getStartOfBucket bound, made]
      · rw [wellFormed.bucket_eq get, ← here] at indexes
        exact indexes
      · intro which entry getEntry
        have order := indexed.passed which entry getEntry
        constructor
        · intro below
          by_contra beyond
          have := (wellFormed.get_lt get getEntry (by omega)).1
          omega
        · intro below
          by_cases same : which = whichPsum
          · subst same
            rw [get] at getEntry
            cases getEntry
            omega
          · have := order.mpr (by omega)
            omega
    · refine ⟨(cells ++ [[initializeIndex 0 none count 0]], whichPsum), ?_, skips ?_⟩
      · rw [indexingStep, if_neg finished]
        simp only [get, Option.bind_eq_bind, Option.bind_some, if_neg here]
      · intro which entry getEntry equal
        rcases Nat.lt_trichotomy which whichPsum with less | same | less
        · have := (indexed.passed which entry getEntry).mpr less
          omega
        · subst same
          rw [get] at getEntry
          cases getEntry
          exact here equal.symm
        · have := (wellFormed.get_lt get getEntry less).1
          omega

theorem indexing_eq {ror : ReorderedR} {hash1 : Nat} (wellFormed : ror.WellFormed hash1) :
    ∃ indArr, indexing ror hash1 = some indArr ∧ indArr.Indexes hash1 ror.rel := by
  have start : IndexedBelow ror hash1 0 ([], 0) := ⟨rfl, by simp, Nat.zero_le _, by simp⟩
  rcases foldlM_range_invariant (IndexedBelow ror hash1) start
      (fun count (_ : count < 2 ^ hash1) state indexed => indexingStep_eq wellFormed indexed) with
    ⟨state, built, indexed⟩
  refine ⟨⟨state.1⟩, ?_, wellFormed.bits, indexed.length, indexed.cells⟩
  rw [indexing, hash1Range, powerOfTwo_eq wellFormed.bits]
  simp only [Option.bind_eq_bind, Option.bind_some, built]

end JoinOperator.RadixJoin
