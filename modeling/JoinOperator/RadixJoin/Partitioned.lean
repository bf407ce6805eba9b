import JoinOperator.RadixJoin.Buckets
import JoinOperator.RadixJoin.Reordered

/-! # A reordered relation is partitioned

`reorderRelation` returns the tuples of the relation, grouped by the last bits
of their keys, whatever the order in which its jobs take their steps.
-/

namespace JoinOperator.RadixJoin

open Foundation

/-- `ror` holds the tuples, grouped by the last `hash1` bits of their keys. -/
structure ReorderedR.Partitions (ror : ReorderedR) (hash1 : Nat) (tuples : List Tuple) :
    Prop where
  perm : ror.rel.Perm tuples
  occurring : ror.pSumArr.psum.map PSumTuple.h1Res =
    (List.range (2 ^ hash1)).filter fun value => ∃ t ∈ tuples, t.key % 2 ^ hash1 = value
  wellFormed : ror.WellFormed hash1

theorem mem_entriesBelow {values : List Nat} {range : Nat} {entry : PSumTuple} :
    entry ∈ entriesBelow values range ↔ entry.h1Res < range ∧
      values.count entry.h1Res ≠ 0 ∧ entry.offset = startOf values entry.h1Res := by
  simp only [entriesBelow, List.mem_map, List.mem_filter, List.mem_range, decide_eq_true_iff]
  constructor
  · rintro ⟨value, ⟨below, occurs⟩, rfl⟩
    exact ⟨below, occurs, rfl⟩
  · rintro ⟨below, occurs, offset⟩
    exact ⟨entry.h1Res, ⟨below, occurs⟩, by rw [← offset]⟩

theorem entriesBelow_increasing (values : List Nat) (range : Nat) :
    (entriesBelow values range).Pairwise fun entry next =>
      entry.h1Res < next.h1Res ∧ entry.offset < next.offset := by
  rw [entriesBelow, List.pairwise_map, List.pairwise_filter]
  apply List.pairwise_lt_range.imp
  intro value next less occurs _
  have grows := startOf_mono values (Nat.lt_iff_add_one_le.mp less)
  have present := of_decide_eq_true occurs
  rw [startOf_succ] at grows
  refine ⟨less, ?_⟩
  change startOf values value < startOf values next
  omega

theorem startOf_of_noEntry {values : List Nat} (range : Nat) {value later : Nat}
    (le : value ≤ later)
    (inRange : later ≤ range) (noEntry : ∀ entry ∈ entriesBelow values range,
      value ≤ entry.h1Res → later ≤ entry.h1Res) :
    startOf values later = startOf values value := by
  apply startOf_of_absent values le
  intro other atLeast below
  by_contra occurs
  have member : (⟨other, startOf values other⟩ : PSumTuple) ∈ entriesBelow values range :=
    mem_entriesBelow.mpr ⟨Nat.lt_of_lt_of_le below inRange, occurs, rfl⟩
  exact absurd (noEntry _ member atLeast) (Nat.not_le_of_lt below)

section Offsets

variable {values : List Nat} {range psumSize : Nat} {rel : List Tuple}

theorem offsetAt_zero (bounded : ∀ value ∈ values, value < range)
    (length : rel.length = values.length) :
    ReorderedR.offsetAt ⟨⟨entriesBelow values range, psumSize⟩, rel⟩ 0 = 0 := by
  cases get : (entriesBelow values range)[0]? with
  | none =>
      have empty := List.getElem?_eq_none_iff.mp get
      rw [ReorderedR.offsetAt_of_le empty, length, ← startOf_eq_length bounded,
        startOf_of_noEntry range (Nat.zero_le _) (Nat.le_refl _),
        startOf_zero]
      intro entry member
      rw [List.eq_nil_of_length_eq_zero (Nat.le_zero.mp empty)] at member
      cases member
  | some entry =>
      have isEntry := mem_entriesBelow.mp (List.mem_of_getElem? get)
      rw [ReorderedR.offsetAt_of_get get, isEntry.2.2,
        startOf_of_noEntry range (Nat.zero_le _) (by omega),
        startOf_zero]
      intro other member _
      rcases List.getElem?_of_mem member with ⟨position, getOther⟩
      rcases List.getElem?_eq_some_iff.mp get with ⟨bound, rfl⟩
      rcases List.getElem?_eq_some_iff.mp getOther with ⟨bound', rfl⟩
      by_cases first : position = 0
      · subst first
        exact Nat.le_refl _
      · exact Nat.le_of_lt (List.pairwise_iff_getElem.mp (entriesBelow_increasing values range)
          0 position bound bound' (by omega)).1

theorem offsetAt_succ (bounded : ∀ value ∈ values, value < range)
    (length : rel.length = values.length) {whichPsum : Nat} {entry : PSumTuple}
    (get : (entriesBelow values range)[whichPsum]? = some entry) :
    ReorderedR.offsetAt ⟨⟨entriesBelow values range, psumSize⟩, rel⟩ (whichPsum + 1) =
      startOf values (entry.h1Res + 1) := by
  have isEntry := mem_entriesBelow.mp (List.mem_of_getElem? get)
  have increasing := List.pairwise_iff_getElem.mp (entriesBelow_increasing values range)
  rcases List.getElem?_eq_some_iff.mp get with ⟨bound, rfl⟩
  -- an entry with a larger value comes later in the array
  have later {other : PSumTuple} (member : other ∈ entriesBelow values range)
      (larger : (entriesBelow values range)[whichPsum].h1Res + 1 ≤ other.h1Res) :
      ∃ position, ∃ bound' : position < (entriesBelow values range).length,
        (entriesBelow values range)[position] = other ∧ whichPsum < position := by
    rcases List.getElem_of_mem member with ⟨position, bound', rfl⟩
    refine ⟨position, bound', rfl, ?_⟩
    by_contra notLater
    rcases Nat.lt_or_eq_of_le (Nat.le_of_not_lt notLater) with less | rfl
    · have := (increasing position whichPsum bound' bound less).1
      omega
    · omega
  cases getNext : (entriesBelow values range)[whichPsum + 1]? with
  | none =>
      have last := List.getElem?_eq_none_iff.mp getNext
      rw [ReorderedR.offsetAt_of_le last, length, ← startOf_eq_length bounded]
      apply startOf_of_noEntry range isEntry.1 (Nat.le_refl _)
      intro other member larger
      rcases later member larger with ⟨position, bound', _, less⟩
      omega
  | some next =>
      have isNext := mem_entriesBelow.mp (List.mem_of_getElem? getNext)
      rcases List.getElem?_eq_some_iff.mp getNext with ⟨nextBound, rfl⟩
      rw [ReorderedR.offsetAt_of_get getNext, isNext.2.2]
      apply startOf_of_noEntry range
        (increasing whichPsum (whichPsum + 1) bound nextBound (Nat.lt_succ_self _)).1
        (Nat.le_of_lt isNext.1)
      intro other member larger
      rcases later member larger with ⟨position, bound', rfl, less⟩
      by_cases same : position = whichPsum + 1
      · subst same
        exact Nat.le_refl _
      · exact Nat.le_of_lt (increasing _ _ nextBound bound' (by omega)).1

end Offsets

theorem mem_hashesOf {tuples : List Tuple} {hash1 value : Nat} :
    value ∈ hashesOf tuples hash1 ↔ ∃ t ∈ tuples, t.key % hash1 = value :=
  List.mem_map

theorem Construction.Constructed.partitions {blues : Blueprints} {state : Construction}
    {rel : List Tuple} (constructed : Constructed blues state rel) {n : Nat} (bits : n < 64)
    (hashes : blues.hashValues = hashesOf blues.tuples (2 ^ n)) :
    ReorderedR.Partitions ⟨⟨entriesBelow blues.hashValues (2 ^ n),
      (entriesBelow blues.hashValues (2 ^ n)).length⟩, rel⟩ n blues.tuples := by
  have bounded : ∀ value ∈ blues.hashValues, value < 2 ^ n := by
    intro value member
    rw [hashes] at member
    rcases mem_hashesOf.mp member with ⟨t, _, rfl⟩
    exact Nat.mod_lt _ (Nat.two_pow_pos n)
  have length : rel.length = blues.hashValues.length := by
    rw [constructed.perm.length_eq, hashes, hashesOf, List.length_map]
  refine ⟨constructed.perm, ?_, bits, rfl, offsetAt_zero bounded length,
    entriesBelow_increasing _ _, ?_, ?_⟩
  · simp only [entriesBelow, List.map_map, Function.comp_def, List.map_id']
    apply List.filter_congr
    intro value _
    rw [decide_eq_decide, hashes, ← mem_hashesOf, ← List.count_pos_iff]
    exact Nat.pos_iff_ne_zero.symm
  · intro entry member
    rcases mem_entriesBelow.mp member with ⟨_, occurs, offset⟩
    have inside := startOf_le_length blues.hashValues (entry.h1Res + 1)
    rw [startOf_succ] at inside
    change entry.offset < rel.length
    omega
  · intro whichPsum entry position t get starts ends isTuple
    rw [offsetAt_succ bounded length get] at ends
    rcases mem_entriesBelow.mp (List.mem_of_getElem? get) with ⟨_, _, offset⟩
    rcases constructed.grouped position t isTuple with
      ⟨origin, value, getTuple, getHash, atLeast, below⟩
    have same : value = entry.h1Res := by
      apply startOf_inj atLeast below _ ends
      rw [← offset]
      exact starts
    rw [hashes, hashesOf, List.getElem?_map, getTuple, same] at getHash
    exact Option.some.inj getHash

theorem Construction.Explained.stays {blues : Blueprints} {state : Construction}
    (explained : Explained blues state) (passes : state.Passes) (schedule : List Turn) :
    Construction.run blues schedule state = some state := by
  rcases explained with ⟨taken, coherent⟩
  have idle (turn : Turn) : Construction.step blues state turn = some state := by
    cases turn with
    | post =>
        rw [Construction.step, passes.1]
        rcases state with ⟨posted, _, _, _, _, _⟩
        cases passes.1
        rfl
    | job k =>
        rw [Construction.step]
        split
        · rw [Construction.advance]
          cases get : state.workers[k]? with
          | none => rfl
          | some worker =>
              rcases coherent.atEnd passes get with ⟨last, free, finished⟩
              simp only [free, last, Nat.lt_irrefl, if_false, finished, if_true]
        · rfl
  induction schedule with
  | nil => rfl
  | cons turn schedule induction =>
      rw [Construction.run, List.foldlM_cons, idle turn]
      exact induction

theorem doublePower_eq {number : Nat} (exponent : Nat) {fuel : Nat}
    (enough : number ≤ 2 ^ (exponent + fuel)) :
    ∃ n ≤ exponent + fuel, doublePower number (fuel + 1) (2 ^ exponent) = some (2 ^ n) := by
  induction fuel generalizing exponent with
  | zero =>
      exact ⟨exponent, Nat.le_refl _, if_neg (Nat.not_lt.mpr enough)⟩
  | succ fuel induction =>
      rw [doublePower]
      by_cases less : 2 ^ exponent < number
      · rw [if_pos less, ← Nat.pow_succ]
        rcases induction (exponent + 1) (by rw [Nat.add_right_comm]; exact enough) with
          ⟨n, atMost, doubled⟩
        exact ⟨n, by omega, doubled⟩
      · exact ⟨exponent, Nat.le_add_right _ _, if_neg less⟩

theorem bestBuckets_eq {size : Nat} (fits : size < 2 ^ 59) :
    ∃ n < 64, bestBuckets size = some (2 ^ n) := by
  have product : size * 16 < 2 ^ 63 :=
    (Nat.mul_lt_mul_of_pos_right fits (by decide)).trans_eq (by decide)
  have number : size * 16 / availableCacheSize * 105 / 100 + 1 ≤ 2 ^ (0 + 63) := by
    have quotient : size * 16 / availableCacheSize * availableCacheSize ≤ size * 16 :=
      Nat.div_mul_le_self _ _
    rw [show availableCacheSize = 62415 from rfl] at quotient ⊢
    omega
  rcases doublePower_eq 0 number with ⟨n, atMost, doubled⟩
  exact ⟨n, by omega, doubled⟩

theorem bucketRange_eq {size hash1 : Nat} (fits : size < 2 ^ 59)
    (bits : hash1 < 64 ∨ hash1 = firstReordered) :
    ∃ n < 64, bucketRange size hash1 = some (2 ^ n) ∧ (hash1 < 64 → n = hash1) := by
  rw [bucketRange]
  rcases bits with given | chosen
  · have notFirst : hash1 ≠ firstReordered := by
      rw [firstReordered]
      omega
    refine ⟨hash1, given, ?_, fun _ => rfl⟩
    rw [if_neg notFirst, powerOfTwo_eq given]
  · subst chosen
    rcases bestBuckets_eq fits with ⟨n, below, best⟩
    exact ⟨n, below, by rw [if_pos rfl, best], fun given => absurd given (by decide)⟩

/-- The shifts count one bit more than the exponent. -/
theorem countShifts_eq {fuel n : Nat} (enough : n < fuel) : countShifts fuel (2 ^ n) = n + 1 := by
  induction n generalizing fuel with
  | zero =>
      cases fuel with
      | zero => omega
      | succ fuel => cases fuel <;> rfl
  | succ n induction =>
      cases fuel with
      | zero => omega
      | succ fuel =>
          rw [countShifts, if_pos (Nat.two_pow_pos _).ne', Nat.pow_succ,
            Nat.mul_div_cancel _ (by decide), induction (by omega)]

def blueprintsOf (r : Relation) (n : Nat) : Blueprints where
  tuples := r.tuples
  hashValues := hashesOf r.tuples (2 ^ n)
  helpPsum := (List.range (2 ^ n)).map (startOf (hashesOf r.tuples (2 ^ n)))
  hash1 := 2 ^ n

def pSumArrayOf (r : Relation) (n : Nat) : PSumArray where
  psum := entriesBelow (hashesOf r.tuples (2 ^ n)) (2 ^ n)
  psumSize := (entriesBelow (hashesOf r.tuples (2 ^ n)) (2 ^ n)).length

theorem hashesOf_lt {tuples : List Tuple} {hash1 : Nat} (positive : 0 < hash1) :
    ∀ value ∈ hashesOf tuples hash1, value < hash1 := by
  intro value member
  rcases mem_hashesOf.mp member with ⟨t, _, rfl⟩
  exact Nat.mod_lt _ positive

theorem blueprintsOf_prepared (r : Relation) (n : Nat) : (blueprintsOf r n).Prepared where
  length := List.length_map ..
  bounded := hashesOf_lt (Nat.two_pow_pos n)
  helpPsum := rfl

theorem prepare_eq (orders : Orders) {r : Relation} {hash1 n : Nat} (nonempty : 0 < r.size)
    (range : bucketRange r.size hash1 = some (2 ^ n)) :
    prepare orders r hash1 =
      some (blueprintsOf r n, histOf (hashesOf r.tuples (2 ^ n)) (2 ^ n), pSumArrayOf r n) := by
  have positive := Nat.two_pow_pos n
  rcases Option.map_eq_some_iff.mp (doTheHash_content orders.histograms r.tuples positive true)
    with ⟨hashed, isHashed, content⟩
  have hashes : (hashesOf r.tuples (2 ^ n)).length = r.size := List.length_map ..
  have occurs : hashesOf r.tuples (2 ^ n) ≠ [] := by
    intro empty
    rw [← hashes, empty] at nonempty
    exact absurd nonempty (by decide)
  rcases computePSum_eq occurs (hashesOf_lt positive) with ⟨sums, isSums, psum, helpPSum⟩
  rw [hashes] at isSums
  simp only [prepare, range, isHashed, content, isSums, psum, helpPSum, countBuckets_eq,
    Option.bind_eq_bind, Option.bind_some]
  rfl

private theorem mapM_id_map_some {Value : Type} (values : List Value) :
    (values.map some).mapM id = some values := by
  induction values with
  | nil => rfl
  | cons value values induction => simp [induction]

theorem reorderRelation_of_run {orders : Orders} {r : Relation} {hash1 n : Nat}
    (nonempty : 0 < r.size) (below : n < 64)
    (range : bucketRange r.size hash1 = some (2 ^ n)) (final : Construction)
    (ran : Construction.run (blueprintsOf r n)
      (orders.constructions ++ Construction.completion r.size)
      (.start (blueprintsOf r n) (histOf (hashesOf r.tuples (2 ^ n)) (2 ^ n))) = some final)
    {rel : List Tuple} (newR : final.newR = rel.map some) :
    reorderRelation orders r hash1 = some (⟨pSumArrayOf r n, rel⟩, n) := by
  have shifts : wrapSub (countShifts 64 (2 ^ n)) 1 = n := by
    rw [countShifts_eq below]
    exact wrapSub_of_le (Nat.le_add_left 1 n)
  rw [reorderRelation, if_neg (Nat.pos_iff_ne_zero.mp nonempty), prepare_eq orders nonempty range]
  simp only [Option.bind_eq_bind, Option.bind_some, ran, newR, mapM_id_map_some]
  exact congrArg (fun bits => some (_, bits)) shifts

def constructionOf (r : Relation) (n : Nat) : Construction :=
  .start (blueprintsOf r n) (histOf (hashesOf r.tuples (2 ^ n)) (2 ^ n))

theorem constructionOf_explained (r : Relation) (n : Nat) :
    Construction.Explained (blueprintsOf r n) (constructionOf r n) :=
  Construction.explained_start (blueprintsOf r n)

theorem exists_partitions {r : Relation} {n : Nat} (bits : n < 64) {state : Construction}
    (explained : Construction.Explained (blueprintsOf r n) state) (passes : state.Passes) :
    ∃ rel, state.newR = rel.map some ∧ state.written.Perm (List.range r.size) ∧
      ReorderedR.Partitions ⟨pSumArrayOf r n, rel⟩ n r.tuples := by
  rcases explained with ⟨taken, coherent⟩
  rcases coherent.constructed (blueprintsOf_prepared r n) passes with ⟨rel, constructed⟩
  exact ⟨rel, constructed.newR, constructed.once, constructed.partitions bits rfl⟩

theorem reorderRelation_partitions (orders : Orders) {r : Relation} {hash1 n : Nat}
    (nonempty : 0 < r.size) (below : n < 64)
    (range : bucketRange r.size hash1 = some (2 ^ n)) :
    ∃ ror, reorderRelation orders r hash1 = some (ror, n) ∧ ror.Partitions n r.tuples := by
  have prepared := blueprintsOf_prepared r n
  rcases (constructionOf_explained r n).run prepared orders.constructions with
    ⟨state, ran, explained⟩
  rcases explained.completes prepared with ⟨final, finished, finalExplained, passes⟩
  rcases exists_partitions below finalExplained passes with ⟨rel, newR, _, partitions⟩
  refine ⟨_, reorderRelation_of_run nonempty below range _ ?_ newR, partitions⟩
  change Construction.run _ _ (constructionOf r n) = _
  rw [Construction.run_append, ran]
  exact finished

theorem reorderRelation_empty (orders : Orders) {r : Relation} (empty : r.size = 0)
    (hash1 : Nat) : reorderRelation orders r hash1 = some (⟨⟨[], 0⟩, []⟩, hash1) :=
  if_pos empty

/-- What the jobs of `reorderRelation` do under one schedule, which may leave
them unfinished. -/
structure Reorders (r : Relation) (hash1 n : Nat) (pSumArr : PSumArray) (blues : Blueprints)
    (schedule : List Turn) (state : Construction) : Prop where
  writtenOnce : state.written.Nodup
  finishes : ∃ rest final, Construction.run blues rest state = some final ∧ final.Passes
  returns : state.Passes → ∃ rel, state.newR = rel.map some ∧
    state.written.Perm (List.range r.size) ∧ ∀ histograms,
      reorderRelation ⟨histograms, schedule⟩ r hash1 = some (⟨pSumArr, rel⟩, n)

/-- Reordering is correct under every schedule. -/
theorem reorderRelation_everySchedule (r : Relation) (hash1 : Nat) (nonempty : 0 < r.size)
    (bits : hash1 < 64 ∨ hash1 = firstReordered) :
    ∃ n < 64, bucketRange r.size hash1 = some (2 ^ n) ∧ (hash1 < 64 → n = hash1) ∧
      (∃ content, histogramJob r.tuples (2 ^ n) 0 r.size = some content ∧
        ∀ schedule trivial,
          (doTheHash schedule r.tuples (2 ^ n) trivial).map Hashed.content = some content) ∧
      (∃ blues hist pSumArr, (∀ orders, prepare orders r hash1 = some (blues, hist, pSumArr)) ∧
        ∀ schedule, ∃ state,
          Construction.run blues schedule (.start blues hist) = some state ∧
          Reorders r hash1 n pSumArr blues schedule state) ∧
      ∀ orders, ∃ ror, reorderRelation orders r hash1 = some (ror, n) ∧
        ror.Partitions n r.tuples ∧
        (ror.pSumArr.psum.map PSumTuple.offset).head? = some 0 := by
  rcases bucketRange_eq r.fits bits with ⟨n, below, range, given⟩
  have positive := Nat.two_pow_pos n
  have prepared := blueprintsOf_prepared r n
  refine ⟨n, below, range, given, ?_, ?_, ?_⟩
  · refine ⟨_, ?_, fun schedule trivial => doTheHash_content schedule r.tuples positive trivial⟩
    have length : (hashesOf r.tuples (2 ^ n)).length = r.size := List.length_map ..
    rw [histogramJob_eq r.tuples positive (Nat.le_refl r.size), List.drop_zero, Nat.sub_zero,
      ← length, List.take_length]
  · refine ⟨blueprintsOf r n, _, pSumArrayOf r n,
      fun orders => prepare_eq orders nonempty range, fun schedule => ?_⟩
    rcases (constructionOf_explained r n).run prepared schedule with ⟨state, ran, explained⟩
    refine ⟨state, ran, ?_, ?_, ?_⟩
    · rcases explained with ⟨taken, coherent⟩
      exact coherent.once
    · rcases explained.completes prepared with ⟨final, finished, _, passes⟩
      exact ⟨_, final, finished, passes⟩
    · intro passes
      rcases exists_partitions below explained passes with ⟨rel, newR, once, _⟩
      refine ⟨rel, newR, once, fun histograms => ?_⟩
      apply reorderRelation_of_run nonempty below range state _ newR
      change Construction.run _ _ (constructionOf r n) = _
      rw [Construction.run_append]
      change (Construction.run _ schedule (constructionOf r n)).bind _ = _
      rw [show Construction.run _ schedule (constructionOf r n) = some state from ran]
      exact explained.stays passes _
  · intro orders
    rcases reorderRelation_partitions orders nonempty below range with
      ⟨ror, returned, partitions⟩
    refine ⟨ror, returned, partitions, ?_⟩
    have starts := partitions.wellFormed.starts
    have length := partitions.perm.length_eq
    rw [ReorderedR.offsetAt] at starts
    cases get : ror.pSumArr.psum[0]? with
    | none =>
        rw [get] at starts
        exact absurd (length.symm.trans starts) (Nat.pos_iff_ne_zero.mp nonempty)
    | some entry =>
        rw [get] at starts
        rw [List.head?_map, List.head?_eq_getElem?, get, Option.map_some]
        exact congrArg some starts

theorem reorderRelation_everySchedule_threeTuples :
    let r : Relation := ⟨[⟨4, 0⟩, ⟨7, 1⟩, ⟨2, 2⟩], 0, 0, by decide⟩
    0 < r.size ∧ ∀ orders, ∃ ror, reorderRelation orders r 1 = some (ror, 1) ∧
      ror.Partitions 1 r.tuples := by
  refine ⟨by decide, fun orders => ?_⟩
  rcases reorderRelation_everySchedule ⟨[⟨4, 0⟩, ⟨7, 1⟩, ⟨2, 2⟩], 0, 0, by decide⟩ 1
    (by decide) (.inl (by decide)) with ⟨n, _, _, given, _, _, partitions⟩
  rw [given (by decide)] at partitions
  rcases partitions orders with ⟨ror, returned, partitions, _⟩
  exact ⟨ror, returned, partitions⟩

end JoinOperator.RadixJoin
