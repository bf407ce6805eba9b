import JoinOperator.Foundation.Slices
import JoinOperator.RadixJoin.ChainFollower

/-! # The buckets of a reordered relation

The tuples between an offset of the psum array and the next one are exactly
those with the hash value of the entry.
-/

namespace JoinOperator.RadixJoin

def withHash (hash1 value : Nat) (tuples : List Tuple) : List Tuple :=
  tuples.filter fun t => t.key % 2 ^ hash1 = value

namespace ReorderedR

/-- Where a bucket starts. The end of the tuples counts as a start as well. -/
def offsetAt (ror : ReorderedR) (whichPsum : Nat) : Nat :=
  match ror.pSumArr.psum[whichPsum]? with
  | some entry => entry.offset
  | none => ror.rel.length

/-- The tuples are grouped by the last `hash1` bits of their keys, and `psum`
says where each of the groups starts. -/
structure WellFormed (ror : ReorderedR) (hash1 : Nat) : Prop where
  bits : hash1 < 64
  psumSize : ror.pSumArr.psum.length = ror.pSumArr.psumSize
  starts : ror.offsetAt 0 = 0
  increasing : ror.pSumArr.psum.Pairwise fun entry next =>
    entry.h1Res < next.h1Res ∧ entry.offset < next.offset
  inside : ∀ entry ∈ ror.pSumArr.psum, entry.offset < ror.rel.length
  grouped : ∀ whichPsum entry position t, ror.pSumArr.psum[whichPsum]? = some entry →
    entry.offset ≤ position → position < ror.offsetAt (whichPsum + 1) →
    ror.rel[position]? = some t → t.key % 2 ^ hash1 = entry.h1Res

def bucket (ror : ReorderedR) (whichPsum : Nat) : List Tuple :=
  (ror.rel.drop (ror.offsetAt whichPsum)).take
    (ror.offsetAt (whichPsum + 1) - ror.offsetAt whichPsum)

theorem offsetAt_of_get {ror : ReorderedR} {whichPsum : Nat} {entry : PSumTuple}
    (get : ror.pSumArr.psum[whichPsum]? = some entry) : ror.offsetAt whichPsum = entry.offset := by
  rw [offsetAt, get]

theorem offsetAt_of_le {ror : ReorderedR} {whichPsum : Nat}
    (le : ror.pSumArr.psum.length ≤ whichPsum) : ror.offsetAt whichPsum = ror.rel.length := by
  rw [offsetAt, List.getElem?_eq_none le]

end ReorderedR

open Foundation ReorderedR

variable {ror : ReorderedR} {hash1 : Nat}

namespace ReorderedR.WellFormed

theorem get_lt (wellFormed : ror.WellFormed hash1) {first second : Nat}
    {entry next : PSumTuple} (get : ror.pSumArr.psum[first]? = some entry)
    (getNext : ror.pSumArr.psum[second]? = some next) (less : first < second) :
    entry.h1Res < next.h1Res ∧ entry.offset < next.offset := by
  rcases List.getElem?_eq_some_iff.mp get with ⟨bound, rfl⟩
  rcases List.getElem?_eq_some_iff.mp getNext with ⟨boundNext, rfl⟩
  exact List.pairwise_iff_getElem.mp wellFormed.increasing first second bound boundNext less

theorem get_inj (wellFormed : ror.WellFormed hash1) {first second : Nat}
    {entry next : PSumTuple} (get : ror.pSumArr.psum[first]? = some entry)
    (getNext : ror.pSumArr.psum[second]? = some next) (equal : entry.h1Res = next.h1Res) :
    first = second := by
  rcases Nat.lt_trichotomy first second with less | same | less
  · have := (wellFormed.get_lt get getNext less).1
    omega
  · exact same
  · have := (wellFormed.get_lt getNext get less).1
    omega

theorem offsetAt_lt (wellFormed : ror.WellFormed hash1) {whichPsum : Nat}
    {entry : PSumTuple} (get : ror.pSumArr.psum[whichPsum]? = some entry) :
    entry.offset < ror.offsetAt (whichPsum + 1) := by
  cases next : ror.pSumArr.psum[whichPsum + 1]? with
  | some next' =>
      rw [offsetAt_of_get next]
      exact (wellFormed.get_lt get next (Nat.lt_succ_self _)).2
  | none =>
      rw [offsetAt_of_le (List.getElem?_eq_none_iff.mp next)]
      exact wellFormed.inside entry (List.mem_of_getElem? get)

theorem offsetAt_le (wellFormed : ror.WellFormed hash1) (whichPsum : Nat) :
    ror.offsetAt whichPsum ≤ ror.rel.length := by
  cases get : ror.pSumArr.psum[whichPsum]? with
  | some entry =>
      rw [offsetAt_of_get get]
      exact Nat.le_of_lt (wellFormed.inside entry (List.mem_of_getElem? get))
  | none => exact Nat.le_of_eq (offsetAt_of_le (List.getElem?_eq_none_iff.mp get))

theorem exists_bucket (wellFormed : ror.WellFormed hash1) {position count : Nat}
    (atMost : count ≤ ror.pSumArr.psum.length) (below : position < ror.offsetAt count) :
    ∃ whichPsum entry, ror.pSumArr.psum[whichPsum]? = some entry ∧
      entry.offset ≤ position ∧ position < ror.offsetAt (whichPsum + 1) := by
  induction count with
  | zero =>
      rw [wellFormed.starts] at below
      cases below
  | succ count induction =>
      have get := List.getElem?_eq_getElem (l := ror.pSumArr.psum) (i := count) atMost
      by_cases earlier : position < ror.offsetAt count
      · exact induction (by omega) earlier
      · rw [offsetAt_of_get get] at earlier
        exact ⟨count, _, get, by omega, below⟩

/-- The position of a tuple tells its hash value, and the other way round. -/
theorem hash_iff (wellFormed : ror.WellFormed hash1) {whichPsum position : Nat}
    {entry : PSumTuple} {t : Tuple} (get : ror.pSumArr.psum[whichPsum]? = some entry)
    (at_ : ror.rel[position]? = some t) :
    t.key % 2 ^ hash1 = entry.h1Res ↔
      entry.offset ≤ position ∧ position < ror.offsetAt (whichPsum + 1) := by
  constructor
  · intro equal
    have bound := (List.getElem?_eq_some_iff.mp at_).1
    rw [← offsetAt_of_le (Nat.le_refl ror.pSumArr.psum.length)] at bound
    rcases wellFormed.exists_bucket (Nat.le_refl _) bound with
      ⟨other, found, getOther, starts, ends⟩
    have hash := wellFormed.grouped other found position t getOther starts ends at_
    have same := wellFormed.get_inj get getOther (equal.symm.trans hash)
    subst same
    rw [get] at getOther
    cases getOther
    exact ⟨starts, ends⟩
  · rintro ⟨starts, ends⟩
    exact wellFormed.grouped whichPsum entry position t get starts ends at_

end ReorderedR.WellFormed

namespace ReorderedR.WellFormed

theorem bucket_eq (wellFormed : ror.WellFormed hash1) {whichPsum : Nat} {entry : PSumTuple}
    (get : ror.pSumArr.psum[whichPsum]? = some entry) :
    ror.bucket whichPsum = withHash hash1 entry.h1Res ror.rel := by
  rw [bucket, offsetAt_of_get get, withHash]
  symm
  apply filter_eq_slice
  intro position t at_
  rw [decide_eq_true_iff]
  exact wellFormed.hash_iff get at_

theorem withHash_eq_nil (wellFormed : ror.WellFormed hash1) {value : Nat}
    (noEntry : ∀ entry ∈ ror.pSumArr.psum, entry.h1Res ≠ value) :
    withHash hash1 value ror.rel = [] := by
  rw [withHash, List.filter_eq_nil_iff]
  intro t member
  rcases List.getElem?_of_mem member with ⟨position, at_⟩
  have bound := (List.getElem?_eq_some_iff.mp at_).1
  rw [← offsetAt_of_le (Nat.le_refl ror.pSumArr.psum.length)] at bound
  rcases wellFormed.exists_bucket (Nat.le_refl _) bound with
    ⟨whichPsum, entry, get, starts, ends⟩
  have hash := wellFormed.grouped whichPsum entry position t get starts ends at_
  rw [hash, decide_eq_true_iff]
  exact noEntry entry (List.mem_of_getElem? get)

theorem h1Res_lt (wellFormed : ror.WellFormed hash1) {entry : PSumTuple}
    (member : entry ∈ ror.pSumArr.psum) : entry.h1Res < 2 ^ hash1 := by
  rcases List.getElem?_of_mem member with ⟨whichPsum, get⟩
  have bound := wellFormed.inside entry member
  have hash := wellFormed.grouped whichPsum entry entry.offset _ get (Nat.le_refl _)
    (wellFormed.offsetAt_lt get) (List.getElem?_eq_getElem bound)
  rw [← hash]
  exact Nat.mod_lt _ (Nat.two_pow_pos hash1)

/-- The buckets one after the other are the tuples. -/
theorem flatMap_bucket (wellFormed : ror.WellFormed hash1) :
    (List.range ror.pSumArr.psumSize).flatMap ror.bucket = ror.rel := by
  have whole := flatMap_slices ror.rel ror.offsetAt ror.pSumArr.psumSize wellFormed.starts
    fun whichPsum below => by
      rw [← wellFormed.psumSize] at below
      have get := List.getElem?_eq_getElem below
      rw [offsetAt_of_get get]
      exact Nat.le_of_lt (wellFormed.offsetAt_lt get)
  rw [offsetAt_of_le (Nat.le_of_eq wellFormed.psumSize), List.take_length] at whole
  exact whole

theorem getStartOfBucket (wellFormed : ror.WellFormed hash1) {whichPsum : Nat}
    (bound : whichPsum < ror.pSumArr.psum.length) :
    RadixJoin.getStartOfBucket ror whichPsum = some (ror.bucket whichPsum) := by
  have get := List.getElem?_eq_getElem bound
  have less := wellFormed.offsetAt_lt get
  have atMost := wellFormed.offsetAt_le (whichPsum + 1)
  have cut {stop : Nat} (stops : ror.offsetAt (whichPsum + 1) = stop) :
      slice ror.rel ror.pSumArr.psum[whichPsum].offset
        (wrapSub stop ror.pSumArr.psum[whichPsum].offset) = some (ror.bucket whichPsum) := by
    subst stops
    rw [wrapSub_of_le (Nat.le_of_lt less), slice, if_pos (by omega), bucket,
      offsetAt_of_get get]
  rw [RadixJoin.getStartOfBucket, get, Option.bind_eq_bind, Option.bind_some]
  by_cases last : whichPsum + 1 = ror.pSumArr.psumSize
  · rw [if_pos last]
    apply cut
    exact offsetAt_of_le (by rw [wellFormed.psumSize]; omega)
  · have inside : whichPsum + 1 < ror.pSumArr.psum.length := by
      rw [wellFormed.psumSize] at bound ⊢
      omega
    have getNext := List.getElem?_eq_getElem inside
    rw [if_neg last, getNext, Option.bind_some]
    exact cut (offsetAt_of_get getNext)

theorem searchArgument (wellFormed : ror.WellFormed hash1) {whichKey : Nat}
    {entry : PSumTuple} (get : ror.pSumArr.psum[whichKey]? = some entry) :
    RadixJoin.searchArgument ror whichKey = some ⟨entry.h1Res, ror.rel.drop entry.offset,
      ror.offsetAt (whichKey + 1) - entry.offset⟩ := by
  have bound := (List.getElem?_eq_some_iff.mp get).1
  have less := wellFormed.offsetAt_lt get
  have size : wrapSub ror.pSumArr.psumSize 1 = ror.pSumArr.psum.length - 1 := by
    rw [← wellFormed.psumSize, wrapSub_of_le (by omega)]
  rw [RadixJoin.searchArgument, get, Option.bind_eq_bind, Option.bind_some, size]
  by_cases last : whichKey < ror.pSumArr.psum.length - 1
  · have getNext := List.getElem?_eq_getElem (l := ror.pSumArr.psum) (i := whichKey + 1)
      (by omega)
    rw [if_pos last, getNext, Option.bind_some,
      ← offsetAt_of_get getNext, wrapSub_of_le (Nat.le_of_lt less)]
  · have ends : ror.offsetAt (whichKey + 1) = ror.rel.length := offsetAt_of_le (by omega)
    rw [if_neg last, ← ends, wrapSub_of_le (Nat.le_of_lt less)]

end ReorderedR.WellFormed

end JoinOperator.RadixJoin
