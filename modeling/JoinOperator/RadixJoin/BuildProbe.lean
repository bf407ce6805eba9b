import JoinOperator.Foundation.EquiJoin
import JoinOperator.RadixJoin.BuiltIndex
import JoinOperator.RadixJoin.ThreadedSearch

/-! # Build, then probe: the equal-key pairs

Probing what `indexing` built lists every pair of tuples with equal keys once.
-/

namespace JoinOperator.RadixJoin

open Foundation

def joinRows (r s : List Tuple) : List RowTuple :=
  (equiJoin Tuple.key Tuple.key r s).map fun pair => ⟨pair.1.payload, pair.2.payload⟩

theorem joinRows_append_left (r r' s : List Tuple) :
    joinRows (r ++ r') s = joinRows r s ++ joinRows r' s := by
  rw [joinRows, equiJoin_append_left, List.map_append]
  rfl

theorem joinRows_append_right (r s s' : List Tuple) :
    (joinRows r (s ++ s')).Perm (joinRows r s ++ joinRows r s') := by
  rw [joinRows, joinRows, joinRows, ← List.map_append]
  exact (equiJoin_append_right r s s').map _

theorem joinRows_singleton_right (r : List Tuple) (t : Tuple) :
    joinRows r [t] = r.flatMap fun indexed => equalRow indexed t := by
  rw [joinRows, equiJoin_singleton_right]
  induction r with
  | nil => rfl
  | cons indexed r induction =>
      rw [List.flatMap_cons, ← induction]
      by_cases equal : indexed.key = t.key <;> simp [equal, equalRow]

theorem joinRows_perm {r r' s s' : List Tuple} (permLeft : r.Perm r') (permRight : s.Perm s') :
    (joinRows r s).Perm (joinRows r' s') :=
  (equiJoin_perm permLeft permRight).map _

variable {hash1 : Nat}

/-- The row that a position of an index contributes for a tuple. -/
def rowAt (tuples : List Tuple) (t : Tuple) (position : Nat) : List RowTuple :=
  match tuples[position]? with
  | some indexed => equalRow indexed t
  | none => []

theorem chainRowsFrom_eq {index : RelationIndex} {tuples : List Tuple}
    (indexes : index.Indexes hash1 tuples) (t : Tuple) (value : Nat)
    {fuel entered position : Nat} (atMost : entered ≤ tuples.length)
    (link : lastLink (hashAt hash1 index.hash2 tuples) value entered = position + 1)
    (enough : position < fuel) :
    chainRowsFrom index t fuel position =
      some ((chainPositions (hashAt hash1 index.hash2 tuples) value entered).flatMap
        (rowAt tuples t)) := by
  induction fuel generalizing entered position with
  | zero => cases enough
  | succ fuel induction =>
      rcases chainPositions_of_link _ link with ⟨below, hash, positions⟩
      have inside : position < tuples.length := by omega
      have get := List.getElem?_eq_getElem inside
      have next := indexes.chained.links position inside
      rw [hash] at next
      have row : rowAt tuples t position = equalRow tuples[position] t := by
        rw [rowAt, get]
      rw [positions, List.flatMap_cons, row]
      cases previous : lastLink (hashAt hash1 index.hash2 tuples) value position with
      | zero =>
          rw [previous] at next
          rw [chainPositions_of_end _ previous]
          simp [chainRowsFrom, indexes.rel, get, next]
      | succ earlier =>
          rw [previous] at next
          have atMostEarlier := lastLink_le (hashAt hash1 index.hash2 tuples) value position
          have rest := induction (Nat.le_of_lt inside) previous
            (show earlier < fuel by omega)
          simp [chainRowsFrom, indexes.rel, get, next, rest]

/-- Following the chain of a tuple finds its equal tuples. -/
theorem chainRows_eq {index : RelationIndex} {tuples : List Tuple}
    (indexes : index.Indexes hash1 tuples) (t : Tuple) :
    chainRows index t hash1 = some ((chainPositions (hashAt hash1 index.hash2 tuples)
      (hashValue hash1 index.hash2 t.key) tuples.length).flatMap (rowAt tuples t)) := by
  have heads := indexes.chained.heads _ (hashValue_lt hash1 index.hash2 t.key)
  have atMost := lastLink_le (hashAt hash1 index.hash2 tuples)
    (hashValue hash1 index.hash2 t.key) tuples.length
  have small := indexes.small
  rw [chainRows, hashing_eq indexes.bits]
  simp only [Option.bind_eq_bind, Option.bind_some, heads]
  cases link : lastLink (hashAt hash1 index.hash2 tuples)
      (hashValue hash1 index.hash2 t.key) tuples.length with
  | zero =>
      rw [chainPositions_of_end _ link, if_pos (by decide)]
      rfl
  | succ position =>
      rw [link] at atMost
      have pointer : wrapSub (position + 1) 1 = position := wrapSub_of_le (by omega)
      have notEmpty : position ≠ emptyBucket := by
        rw [emptyBucket]
        omega
      rw [pointer, if_neg notEmpty]
      exact chainRowsFrom_eq indexes t _ (Nat.le_refl _) link (by rw [indexes.length]; omega)

theorem flatMap_rowAt (tuples : List Tuple) (t : Tuple) :
    (List.range tuples.length).flatMap (rowAt tuples t) =
      tuples.flatMap fun indexed => equalRow indexed t := by
  induction tuples with
  | nil => rfl
  | cons indexed tuples induction =>
      rw [List.length_cons, List.range_succ_eq_map, List.flatMap_cons, List.flatMap_map,
        List.flatMap_cons, ← induction]
      rfl

theorem chainRows_perm {index : RelationIndex} {tuples : List Tuple}
    (indexes : index.Indexes hash1 tuples) (t : Tuple) :
    ∃ rows, chainRows index t hash1 = some rows ∧ rows.Perm (joinRows tuples [t]) := by
  refine ⟨_, chainRows_eq indexes t, ?_⟩
  rw [joinRows_singleton_right, ← flatMap_rowAt]
  apply chainPositions_flatMap
  -- a tuple with an equal key has an equal hash value
  intro position differs
  rw [hashAt] at differs
  rw [rowAt]
  cases get : tuples[position]? with
  | none => rfl
  | some indexed =>
      rw [get] at differs
      apply if_neg
      intro equal
      exact differs (congrArg (hashValue hash1 index.hash2) equal)

theorem indexRows_perm {index : RelationIndex} {tuples : List Tuple}
    (indexes : index.Indexes hash1 tuples) {tuplesNumb : Nat} {checkedTuples : List Tuple}
    (enough : tuplesNumb ≤ checkedTuples.length) :
    ∃ rows, indexRows index hash1 tuplesNumb checkedTuples = some rows ∧
      rows.Perm (joinRows tuples (checkedTuples.take tuplesNumb)) := by
  induction tuplesNumb generalizing checkedTuples with
  | zero =>
      refine ⟨[], rfl, ?_⟩
      rw [List.take_zero, joinRows, equiJoin_nil_right, List.map_nil]
  | succ tuplesNumb induction =>
      cases checkedTuples with
      | nil => cases enough
      | cons t checkedTuples =>
          rcases chainRows_perm indexes t with ⟨rows, found, perm⟩
          rcases induction
            (show tuplesNumb ≤ checkedTuples.length from Nat.le_of_succ_le_succ enough) with
            ⟨rest, foundRest, permRest⟩
          refine ⟨rows ++ rest, ?_, ?_⟩
          · simp only [indexRows, found, foundRest, Option.bind_eq_bind, Option.bind_some]
          · rw [List.take_succ_cons]
            exact (perm.append permRest).trans (joinRows_append_right tuples [t] _).symm

theorem partRows_perm {cell : List RelationIndex} {parts : List (List Tuple)}
    (indexes : List.Forall₂ (RelationIndex.Indexes hash1) cell parts) {tuplesNumb : Nat}
    {checkedTuples : List Tuple} (enough : tuplesNumb ≤ checkedTuples.length) :
    ∃ rows, keyRows cell checkedTuples tuplesNumb hash1 = some rows ∧
      rows.Perm (joinRows parts.flatten (checkedTuples.take tuplesNumb)) := by
  induction indexes with
  | nil => exact ⟨[], rfl, .refl _⟩
  | cons first _ induction =>
      rcases indexRows_perm first enough with ⟨rows, found, perm⟩
      rcases induction with ⟨rest, foundRest, permRest⟩
      refine ⟨rows ++ rest, ?_, ?_⟩
      · rw [keyRows, if_neg (by simp [first.rel])]
        simp only [found, foundRest, Option.bind_eq_bind, Option.bind_some]
      · rw [List.flatten_cons, joinRows_append_left]
        exact perm.append permRest

theorem keyRows_perm {cell : List RelationIndex} {tuples : List Tuple}
    (indexes : CellIndexes hash1 cell tuples) {tuplesNumb : Nat}
    {checkedTuples : List Tuple} (enough : tuplesNumb ≤ checkedTuples.length) :
    ∃ rows, keyRows cell checkedTuples tuplesNumb hash1 = some rows ∧
      rows.Perm (joinRows tuples (checkedTuples.take tuplesNumb)) := by
  rcases indexes with ⟨rfl, key, rfl⟩ | ⟨parts, indexes, rfl⟩
  · exact ⟨[], rfl, .refl _⟩
  · exact partRows_perm indexes enough

theorem joinRows_withHash (r : List Tuple) {s : List Tuple} {value : Nat}
    (hashed : ∀ t ∈ s, t.key % 2 ^ hash1 = value) :
    joinRows (withHash hash1 value r) s = joinRows r s := by
  rw [joinRows, withHash, equiJoin_filter_left]
  · rfl
  · intro indexed _ t member equal
    rw [equal]
    exact hashed t member

theorem bucketRows_perm {indArr : IndexArray} {r : List Tuple}
    (indexes : indArr.Indexes hash1 r) {s : ReorderedR} (wellFormed : s.WellFormed hash1)
    {whichKey : Nat} (bound : whichKey < s.pSumArr.psumSize) :
    ∃ rows, bucketRows indArr s whichKey = some rows ∧
      rows.Perm (joinRows r (s.bucket whichKey)) := by
  rw [← wellFormed.psumSize] at bound
  have get := List.getElem?_eq_getElem bound
  rcases indexes.cells _ (wellFormed.h1Res_lt (List.mem_of_getElem? get)) with
    ⟨cell, getCell, cellIndexes⟩
  have less := wellFormed.offsetAt_lt get
  have atMost := wellFormed.offsetAt_le (whichKey + 1)
  have log : Nat.log2 indArr.size = hash1 := by
    rw [IndexArray.size, indexes.size, Nat.log2_two_pow]
  have enough : s.offsetAt (whichKey + 1) - s.pSumArr.psum[whichKey].offset ≤
      (s.rel.drop s.pSumArr.psum[whichKey].offset).length := by
    rw [List.length_drop]
    omega
  rcases keyRows_perm cellIndexes enough with ⟨rows, found, perm⟩
  refine ⟨rows, ?_, ?_⟩
  · rw [bucketRows, wellFormed.searchArgument get]
    simp only [Option.bind_eq_bind, Option.bind_some, getCell, log, found]
  · have bucket : s.bucket whichKey = (s.rel.drop s.pSumArr.psum[whichKey].offset).take
        (s.offsetAt (whichKey + 1) - s.pSumArr.psum[whichKey].offset) := by
      rw [ReorderedR.bucket, ReorderedR.offsetAt_of_get get]
    rw [← bucket, joinRows_withHash] at perm
    · exact perm
    · intro t member
      rw [wellFormed.bucket_eq get, withHash, List.mem_filter, decide_eq_true_iff] at member
      exact member.2

/-- Probing all the buckets finds the rows of the join. -/
theorem searchRows_perm {indArr : IndexArray} {r : List Tuple}
    (indexes : indArr.Indexes hash1 r) {s : ReorderedR} (wellFormed : s.WellFormed hash1) :
    ∃ rows, searchRows indArr s (List.range s.pSumArr.psumSize) = some rows ∧
      rows.Perm (joinRows r s.rel) := by
  have found : ∀ whichKeys : List Nat, (∀ whichKey ∈ whichKeys, whichKey < s.pSumArr.psumSize) →
      ∃ rows, searchRows indArr s whichKeys = some rows ∧
        rows.Perm (joinRows r (whichKeys.flatMap s.bucket)) := by
    intro whichKeys
    induction whichKeys with
    | nil =>
        intro _
        refine ⟨[], rfl, ?_⟩
        rw [List.flatMap_nil, joinRows, equiJoin_nil_right, List.map_nil]
    | cons whichKey whichKeys induction =>
        intro bounds
        rcases bucketRows_perm indexes wellFormed (bounds whichKey (by simp)) with
          ⟨rows, first, perm⟩
        rcases induction fun other member => bounds other (by simp [member]) with
          ⟨rest, second, permRest⟩
        refine ⟨rows ++ rest, ?_, ?_⟩
        · rw [searchRows_cons, first, second]
          rfl
        · rw [List.flatMap_cons]
          exact (perm.append permRest).trans (joinRows_append_right r _ _).symm
  rcases found (List.range s.pSumArr.psumSize) (by simp) with ⟨rows, equal, perm⟩
  rw [wellFormed.flatMap_bucket] at perm
  exact ⟨rows, equal, perm⟩

/-- Indexing one reordered relation and searching it for another one ends, and
lists each pair of tuples with equal keys once. -/
theorem search_indexing {r s : ReorderedR} (indexed : r.WellFormed hash1)
    (searched : s.WellFormed hash1) :
    ∃ indArr result, indexing r hash1 = some indArr ∧ search indArr s = some result ∧
      result.nodes.flatten.Perm (joinRows r.rel s.rel) := by
  rcases indexing_eq indexed with ⟨indArr, built, indexes⟩
  rcases searchRows_perm indexes searched with ⟨rows, found, perm⟩
  have lists := lists_search indArr s
  rw [found] at lists
  rcases lists with ⟨result, equal, _, isRows⟩
  refine ⟨indArr, result, built, equal, ?_⟩
  rw [isRows]
  exact perm

def threeTuples : ReorderedR :=
  { pSumArr := { psum := [⟨0, 0⟩, ⟨1, 2⟩], psumSize := 2 }
    rel := [⟨4, 0⟩, ⟨4, 2⟩, ⟨3, 1⟩] }

theorem threeTuples_wellFormed : threeTuples.WellFormed 1 where
  bits := by decide
  psumSize := rfl
  starts := rfl
  increasing := by decide
  inside := by decide
  grouped := by
    intro whichPsum entry position t get starts ends at_
    match whichPsum with
    | 0 =>
        cases get
        have bound : position < 2 := ends
        match position with
        | 0 | 1 =>
            cases at_
            rfl
    | 1 =>
        cases get
        have bound : position < 3 := ends
        have atLeast : 2 ≤ position := starts
        have equal : position = 2 := by omega
        subst equal
        cases at_
        rfl

theorem search_indexing_threeTuples :
    ∃ indArr result, indexing threeTuples 1 = some indArr ∧
      search indArr threeTuples = some result ∧
      result.nodes.flatten.Perm (joinRows threeTuples.rel threeTuples.rel) :=
  search_indexing threeTuples_wellFormed threeTuples_wellFormed

end JoinOperator.RadixJoin
