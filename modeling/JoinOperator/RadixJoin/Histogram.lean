import JoinOperator.Foundation.Loop
import JoinOperator.Foundation.Slices
import JoinOperator.RadixJoin.Reorder

/-! # The histogram does not depend on the schedule -/

namespace JoinOperator.RadixJoin

open Foundation

def hashesOf (tuples : List Tuple) (hash1 : Nat) : List Nat :=
  tuples.map fun t => hash1_2 t.key hash1

def histOf (values : List Nat) (hash1 : Nat) : List Nat :=
  (List.range hash1).map fun value => values.count value

theorem getElem?_histOf (values : List Nat) {hash1 value : Nat} (below : value < hash1) :
    (histOf values hash1)[value]? = some (values.count value) := by
  rw [histOf, List.getElem?_map, List.getElem?_range below]
  rfl

theorem write_histOf (values : List Nat) {hash1 value : Nat} (below : value < hash1) :
    write (histOf values hash1) value (values.count value + 1) =
      some (histOf (values ++ [value]) hash1) := by
  rw [write_of_lt (by rw [histOf, List.length_map, List.length_range]; exact below)]
  congr 1
  apply List.ext_getElem?
  intro other
  rw [List.getElem?_set]
  by_cases inside : other < hash1
  · rw [getElem?_histOf _ inside, getElem?_histOf _ inside, List.count_append]
    by_cases same : value = other
    · subst same
      simp [histOf, below]
    · simp [same]
  · simp [histOf, inside]
    omega

theorem merge_histOf (values next : List Nat) (hash1 : Nat) :
    Content.merge ⟨histOf values hash1, values⟩ ⟨histOf next hash1, next⟩ =
      ⟨histOf (values ++ next) hash1, values ++ next⟩ := by
  have hist : List.zipWith (· + ·) (histOf values hash1) (histOf next hash1) =
      histOf (values ++ next) hash1 := by
    rw [histOf, histOf, histOf, List.zipWith_map, List.zipWith_self]
    simp
  rw [Content.merge, hist]

theorem histogramJob_eq (tuples : List Tuple) {hash1 start stop : Nat} (positive : 0 < hash1)
    (inside : stop ≤ tuples.length) :
    histogramJob tuples hash1 start stop =
      some ⟨histOf (((hashesOf tuples hash1).drop start).take (stop - start)) hash1,
        ((hashesOf tuples hash1).drop start).take (stop - start)⟩ := by
  have kept : ∀ i < stop - start, ∀ content,
      content = (⟨histOf (((hashesOf tuples hash1).drop start).take i) hash1,
        ((hashesOf tuples hash1).drop start).take i⟩ : Content) →
      ∃ after, histogramTuple tuples hash1 content (start + i) = some after ∧
        after = ⟨histOf (((hashesOf tuples hash1).drop start).take (i + 1)) hash1,
          ((hashesOf tuples hash1).drop start).take (i + 1)⟩ := by
    rintro i below _ rfl
    have bound : start + i < tuples.length := by omega
    have get := List.getElem?_eq_getElem bound
    have hash : hash1_2 tuples[start + i].key hash1 < hash1 := Nat.mod_lt _ positive
    have next : ((hashesOf tuples hash1).drop start).take (i + 1) =
        ((hashesOf tuples hash1).drop start).take i ++ [hash1_2 tuples[start + i].key hash1] := by
      rw [List.take_add_one, List.getElem?_drop, hashesOf, List.getElem?_map, get]
      rfl
    refine ⟨_, ?_, rfl⟩
    simp only [histogramTuple, get, getElem?_histOf _ hash, write_histOf _ hash, next,
      Option.bind_eq_bind, Option.bind_some]
  have empty : histOf [] hash1 = List.replicate hash1 0 := by
    apply List.ext_getElem
    · simp [histOf]
    · simp [histOf]
  rcases foldlM_range_invariant (fun i content => content =
      (⟨histOf (((hashesOf tuples hash1).drop start).take i) hash1,
        ((hashesOf tuples hash1).drop start).take i⟩ : Content)) rfl kept with
    ⟨content, ran, equal⟩
  rw [List.take_zero, empty] at ran
  rw [histogramJob, ran, equal]

/-- Where the shares of the threads meet. -/
def shareBound (size i : Nat) : Nat :=
  if i < numbOfThreads then shareFrom size i else size

theorem shareFrom_eq (size : Nat) {i : Nat} (below : i < numbOfThreads) :
    shareFrom size i = shareBound size i :=
  (if_pos below).symm

theorem shareTo_eq (size : Nat) {i : Nat} (below : i < numbOfThreads) :
    shareTo size i = shareBound size (i + 1) := by
  rw [shareTo, shareBound]
  by_cases last : i = numbOfThreads - 1
  · rw [if_neg (not_not_intro last), if_neg (by omega)]
  · rw [if_pos last, if_pos (by omega)]
    rfl

theorem shareBound_le (size i : Nat) : shareBound size i ≤ size := by
  rw [shareBound]
  split
  · rename_i below
    exact (Nat.mul_le_mul_right _ (Nat.le_of_lt below)).trans (Nat.mul_div_le size numbOfThreads)
  · exact Nat.le_refl size

theorem shareBound_mono (size : Nat) {i : Nat} (below : i < numbOfThreads) :
    shareBound size i ≤ shareBound size (i + 1) := by
  by_cases last : i + 1 < numbOfThreads
  · rw [shareBound, shareBound, if_pos below, if_pos last]
    exact Nat.mul_le_mul_right _ (Nat.le_succ i)
  · have whole : shareBound size (i + 1) = size := if_neg last
    rw [whole]
    exact shareBound_le size i

theorem flatMap_shares {Value : Type} (values : List Value) :
    ((List.range numbOfThreads).flatMap fun i =>
      (values.drop (shareFrom values.length i)).take
        (shareTo values.length i - shareFrom values.length i)) = values := by
  have whole := flatMap_slices values (shareBound values.length) numbOfThreads
    (Nat.zero_mul _) fun i below => shareBound_mono values.length below
  rw [show shareBound values.length numbOfThreads = values.length from if_neg (by omega),
    List.take_length] at whole
  refine Eq.trans ?_ whole
  apply List.flatMap_congr
  intro i member
  have below := List.mem_range.mp member
  rw [shareFrom_eq _ below, shareTo_eq _ below]

theorem foldl_merge (parts : List (List Nat)) (values : List Nat) (hash1 : Nat) :
    (parts.map fun part => (⟨histOf part hash1, part⟩ : Content)).foldl Content.merge
        ⟨histOf values hash1, values⟩ =
      ⟨histOf (values ++ parts.flatten) hash1, values ++ parts.flatten⟩ := by
  induction parts generalizing values with
  | nil => rw [List.flatten_nil, List.append_nil]; rfl
  | cons part parts induction =>
      rw [List.map_cons, List.foldl_cons, merge_histOf, induction, List.flatten_cons,
        List.append_assoc]

/-- Under every schedule `DoTheHash` computes what one pass over all the tuples
does. -/
theorem doTheHash_content (schedule : List Turn) (tuples : List Tuple) {hash1 : Nat}
    (positive : 0 < hash1) (trivial : Bool) :
    (doTheHash schedule tuples hash1 trivial).map Hashed.content =
      some ⟨histOf (hashesOf tuples hash1) hash1, hashesOf tuples hash1⟩ := by
  have length : (hashesOf tuples hash1).length = tuples.length := List.length_map ..
  have jobs : (List.range numbOfThreads).mapM (fun i => histogramJob tuples hash1
      (shareFrom tuples.length i) (shareTo tuples.length i)) =
      some ((List.range numbOfThreads).map fun i =>
        ⟨histOf (((hashesOf tuples hash1).drop (shareFrom tuples.length i)).take
          (shareTo tuples.length i - shareFrom tuples.length i)) hash1,
        ((hashesOf tuples hash1).drop (shareFrom tuples.length i)).take
          (shareTo tuples.length i - shareFrom tuples.length i)⟩) :=
    mapM_eq_map _ fun i member => histogramJob_eq tuples positive (by
      rw [shareTo_eq _ (List.mem_range.mp member)]
      exact shareBound_le _ _)
  have whole := flatMap_shares (hashesOf tuples hash1)
  rw [length, show List.range numbOfThreads = 0 :: [1, 2, 3, 4, 5, 6] from rfl,
    List.flatMap_cons] at whole
  rw [doTheHash, histogramContents, Barrier.collect_eq_mapM, jobs]
  have merged := foldl_merge ([1, 2, 3, 4, 5, 6].map fun i =>
      ((hashesOf tuples hash1).drop (shareFrom tuples.length i)).take
        (shareTo tuples.length i - shareFrom tuples.length i))
    (((hashesOf tuples hash1).drop (shareFrom tuples.length 0)).take
      (shareTo tuples.length 0 - shareFrom tuples.length 0)) hash1
  rw [← List.flatMap_def, whole, List.map_map] at merged
  cases trivial <;> exact congrArg some merged

end JoinOperator.RadixJoin
