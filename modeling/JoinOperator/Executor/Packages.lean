import JoinOperator.Executor.MergedNodes
import JoinOperator.Foundation.Runs

/-! # Joins of packages

Successive rows of an intermediate with the same row of a relation are a package. When only the
first row of each package has been joined, all its rows are copied for each result, into columns
that are enlarged when they are full.
-/

namespace JoinOperator.Executor

open Foundation RadixJoin

def nextRowLoop (rowIds : List Nat) (current : Nat) : Nat → Nat → Option Nat
  | 0, i => some i
  | remaining + 1, i => do
      let rowId ← rowIds[i]?
      if rowId ≠ current then some i else nextRowLoop rowIds current remaining (i + 1)

/-- The row behind the package of row `i`. -/
def findNextRowId (rowIds : List Nat) (i rows : Nat) : Option Nat := do
  let current ← rowIds[i]?
  nextRowLoop rowIds current (rows - (i + 1)) (i + 1)

/-- The rows that have been copied, into columns of `cursize` rows. -/
structure Copied where
  cursize : Nat
  rows : List (Nat × Nat)

/-- One more row is copied. The columns are enlarged by `results` rows when they are full. -/
def Copied.push (results : Nat) (copied : Copied) (pair : Nat × Nat) : Option Copied :=
  if copied.rows.length < copied.cursize then
    some ⟨if copied.rows.length + 1 = copied.cursize then copied.cursize + results
      else copied.cursize, copied.rows ++ [pair]⟩
  else none

def resultRows (headRes : HeadResult) (switched : Nat) : Option (List (Nat × Nat)) :=
  if headRes.numbOfNodes ≤ headRes.nodes.length then
    some ((headRes.nodes.take headRes.numbOfNodes).flatten.map fun row =>
      if switched = 0 then (row.rowR, row.rowS) else (row.rowS, row.rowR))
  else none

/-- The row ids of `existingRel`, or those of the first relation. -/
def Inter.rowIdsAt (data : Inter) (existingRel : Nat) : Option (List Nat) := do
  let column ← data.columns[(data.joinedRels.findIdx? (· = existingRel)).getD 0]?
  some column.rowIds

def Inter.packageRows (data : Inter) (existingRel first : Nat) : Option (List Nat) := do
  let rowIds ← data.rowIdsAt existingRel
  let next ← findNextRowId rowIds first data.numbOfRows
  some (List.range' first (next - first))

def Inter.copyPackage (data : Inter) (results existingRel : Nat) (copied : Copied)
    (pair : Nat × Nat) : Option Copied := do
  let package ← data.packageRows existingRel pair.1
  package.foldlM (fun copied p => copied.push results (p, pair.2)) copied

def updateRowIds2 (data : Inter) (headRes : HeadResult) (results existingRel switched : Nat) :
    Option (List (Nat × Nat)) := do
  let rows ← resultRows headRes switched
  let copied ← rows.foldlM (data.copyPackage results existingRel) ⟨results, []⟩
  some copied.rows

def updateInterFromRes2 (head : HeadInter) (node : Nat) (headRes : HeadResult)
    (addedRel existingRel skipped switched : Nat) : Option HeadInter := do
  let data ← head.nodes[node]?
  let rows ← updateRowIds2 data headRes ((headRes.totalSize + skipped) % 2 ^ 64) existingRel
    switched
  let columns ← data.atRows (rows.map Prod.fst)
  some (updateInter head node ⟨rows.length, columns ++ [⟨addedRel, rows.map Prod.snd⟩]⟩)

def copyPackages (data1 data2 : Inter) (results existingRel1 existingRel2 : Nat)
    (copied : Copied) (pair : Nat × Nat) : Option Copied := do
  let package1 ← data1.packageRows existingRel1 pair.1
  let package2 ← data2.packageRows existingRel2 pair.2
  package1.foldlM (fun copied p1 =>
    package2.foldlM (fun copied p2 => copied.push results (p1, p2)) copied) copied

def joinRowIds2 (data1 data2 : Inter) (headRes : HeadResult)
    (results existingRel1 existingRel2 switched : Nat) : Option (List (Nat × Nat)) := do
  let rows ← resultRows headRes switched
  let copied ← rows.foldlM (copyPackages data1 data2 results existingRel1 existingRel2)
    ⟨results, []⟩
  some copied.rows

def updateInterAndDelete2 (head : HeadInter) (node1 node2 : Nat) (headRes : HeadResult)
    (existingRel1 existingRel2 skipped switched : Nat) : Option HeadInter := do
  let data1 ← head.nodes[node1]?
  let data2 ← head.nodes[node2]?
  let rows ← joinRowIds2 data1 data2 headRes ((headRes.totalSize + skipped) % 2 ^ 64)
    existingRel1 existingRel2 switched
  let columns1 ← data1.atRows (rows.map Prod.fst)
  let columns2 ← data2.atRows (rows.map Prod.snd)
  some (deleteInterNode (updateInter head node1 ⟨rows.length, columns1 ++ columns2⟩) node2)

section Copying

variable {results : Nat} {copied : Copied}

theorem foldlM_push (positive : 0 < results) (room : copied.rows.length < copied.cursize)
    (pairs : List (Nat × Nat)) :
    ∃ cursize, pairs.foldlM (Copied.push results) copied = some ⟨cursize, copied.rows ++ pairs⟩ ∧
      (copied.rows ++ pairs).length < cursize := by
  induction pairs generalizing copied with
  | nil => exact ⟨copied.cursize, by rw [List.append_nil]; rfl, by rwa [List.append_nil]⟩
  | cons pair pairs induction =>
      let next : Copied := ⟨if copied.rows.length + 1 = copied.cursize then
        copied.cursize + results else copied.cursize, copied.rows ++ [pair]⟩
      have pushed : copied.push results pair = some next := if_pos room
      have nextRoom : next.rows.length < next.cursize := by
        change (copied.rows ++ [pair]).length < if copied.rows.length + 1 = copied.cursize then
          copied.cursize + results else copied.cursize
        rw [List.length_append, List.length_singleton]
        split <;> omega
      rcases induction nextRoom with ⟨cursize, ran, fits⟩
      refine ⟨cursize, ?_, ?_⟩
      · rw [List.foldlM_cons, pushed, Option.bind_eq_bind, Option.bind_some, ran,
          List.append_assoc, List.singleton_append]
      · rwa [List.append_assoc, List.singleton_append] at fits

theorem foldlM_flatMap {Item : Type} {copies : Item → List (Nat × Nat)} {items : List Item}
    {step : Copied → Item → Option Copied}
    (steps : ∀ item ∈ items, ∀ copied,
      step copied item = (copies item).foldlM (Copied.push results) copied) (copied : Copied) :
    items.foldlM step copied = (items.flatMap copies).foldlM (Copied.push results) copied := by
  induction items generalizing copied with
  | nil => rfl
  | cons item items induction =>
      rw [List.foldlM_cons, List.flatMap_cons, List.foldlM_append, steps item List.mem_cons_self]
      congr 1
      funext next
      exact induction (fun other member => steps other (List.mem_cons_of_mem _ member)) next

theorem foldlM_copies {Item : Type} {copies : Item → List (Nat × Nat)} {items : List Item}
    {step : Copied → Item → Option Copied}
    (steps : ∀ item ∈ items, ∀ copied,
      step copied item = (copies item).foldlM (Copied.push results) copied)
    (positive : items ≠ [] → 0 < results) :
    ∃ cursize, items.foldlM step ⟨results, []⟩ = some ⟨cursize, items.flatMap copies⟩ := by
  by_cases none : items = []
  · rw [none]
    exact ⟨results, rfl⟩
  · rw [foldlM_flatMap steps]
    rcases @foldlM_push results ⟨results, []⟩ (positive none) (positive none)
      (items.flatMap copies) with ⟨cursize, ran, _⟩
    exact ⟨cursize, ran⟩

end Copying

section Packages

variable {data : Inter} {rowIds : List Nat} {rel i : Nat}

theorem nextRowLoop_eq {current remaining : Nat} (inside : i + remaining ≤ rowIds.length) :
    nextRowLoop rowIds current remaining i =
      some (skipSame (rowIds.getD · 0) current remaining i) := by
  induction remaining generalizing i with
  | zero => rfl
  | succ remaining induction =>
      have below : i < rowIds.length := by omega
      rw [nextRowLoop, skipSame, List.getElem?_eq_getElem below, List.getD_eq_getElem _ _ below,
        Option.bind_eq_bind, Option.bind_some]
      by_cases same : rowIds[i] = current
      · rw [if_neg (not_not.mpr same), if_pos same]
        exact induction (by omega)
      · rw [if_pos same, if_neg same]

/-- The package of a row goes to the end of its run. -/
theorem findNextRowId_eq (below : i < rowIds.length) :
    findNextRowId rowIds i rowIds.length = some (runEnd (rowIds.getD · 0) rowIds.length i) := by
  rw [findNextRowId, runEnd, List.getElem?_eq_getElem below, List.getD_eq_getElem _ _ below,
    Option.bind_eq_bind, Option.bind_some]
  exact nextRowLoop_eq (by omega)

def Inter.rowIdOf (data : Inter) (rel i : Nat) : Nat := valueAt data.joinedRels (data.row i) rel

theorem Inter.rowIdsAt_eq {column : InterColumn} (found : data.columnOf rel = some column) :
    data.rowIdsAt rel = some column.rowIds := by
  rcases data with ⟨numbOfRows, columns⟩
  rw [rowIdsAt]
  simp only [columnOf, joinedRels, List.findIdx?_map] at found ⊢
  have isFirst := List.find?_eq_some_iff_getElem.mp found
  rcases isFirst with ⟨isRel, place, inside, atPlace, before⟩
  have isPlace : columns.findIdx? ((fun x => decide (x = rel)) ∘ InterColumn.rel) = some place := by
    rw [List.findIdx?_eq_some_iff_getElem]
    refine ⟨inside, by rw [atPlace]; exact isRel, ?_⟩
    intro j earlier
    simpa using before j earlier
  rw [isPlace, Option.getD_some, List.getElem?_eq_getElem inside, atPlace]
  rfl

theorem Inter.packageRows_eq (rectangular : data.Rectangular) (joined : rel ∈ data.joinedRels)
    (below : i < data.numbOfRows) :
    data.packageRows rel i = some (run (data.rowIdOf rel) data.numbOfRows i) := by
  rcases Inter.mem_joinedRels_iff.mp joined with ⟨column, found⟩
  have length := rectangular column (columnOf_spec found).1
  have values : (column.rowIds.getD · 0) = data.rowIdOf rel := by
    funext j
    exact columnOf_getD found j
  rw [packageRows, rowIdsAt_eq found, Option.bind_eq_bind, Option.bind_some, ← length,
    findNextRowId_eq (length.symm ▸ below), values]
  rfl

end Packages

def Inter.keyAt (data : Inter) (r : ColRel) (i : Nat) : Nat :=
  valueOf r (valueAt data.joinedRels (data.row i))

def Inter.packaged (data : Inter) (r : ColRel) : List Tuple :=
  (runStarts (data.rowIdOf r.rel) data.numbOfRows).map fun i => ⟨data.keyAt r i, i⟩

def Inter.package (data : Inter) (rel i : Nat) : List Nat :=
  run (data.rowIdOf rel) data.numbOfRows i

def joinedPairs (r s : List Tuple) : List (Nat × Nat) :=
  (joinRows r s).map fun row => (row.rowR, row.rowS)

section Groups

variable (data data1 data2 : Inter) (r a b : ColRel)

theorem Inter.forged_eq :
    data.forged r = (List.range data.numbOfRows).map fun i => ⟨data.keyAt r i, i⟩ := rfl

theorem joinedPairs_left (rows : List Nat) (s : List Tuple) :
    joinedPairs (rows.map fun i => ⟨data.keyAt r i, i⟩) s =
      (equiJoin (data.keyAt r) Tuple.key rows s).map fun pair => (pair.1, pair.2.payload) := by
  have mapped := @equiJoin_map _ _ _ _ Tuple.key Tuple.key _ _
    (fun i => (⟨data.keyAt r i, i⟩ : Tuple)) id rows s
  rw [List.map_id] at mapped
  rw [joinedPairs, joinRows, mapped, List.map_map, List.map_map]
  rfl

theorem joinedPairs_both (rows1 rows2 : List Nat) :
    joinedPairs (rows1.map fun i => ⟨data1.keyAt a i, i⟩)
        (rows2.map fun i => ⟨data2.keyAt b i, i⟩) =
      equiJoin (data1.keyAt a) (data2.keyAt b) rows1 rows2 := by
  rw [joinedPairs, joinRows, equiJoin_map, List.map_map, List.map_map]
  exact List.map_id _

theorem Inter.keyAt_package {first i : Nat}
    (isStart : first ∈ runStarts (data.rowIdOf r.rel) data.numbOfRows)
    (member : i ∈ data.package r.rel first) : data.keyAt r i = data.keyAt r first := by
  have below := List.mem_range.mp (List.mem_filter.mp isStart).1
  have same : data.rowIdOf r.rel i = data.rowIdOf r.rel first := (value_of_mem_run below member).1
  exact congrArg (r.col.getD · 0) same

theorem Inter.packages_flatMap :
    (runStarts (data.rowIdOf r.rel) data.numbOfRows).flatMap (data.package r.rel) =
      List.range data.numbOfRows :=
  runStarts_flatMap _ _

/-- The rows of the packages that are joined are the rows that are joined. -/
theorem packages_left (s : List Tuple) :
    ((joinedPairs (data.packaged r) s).flatMap fun pair =>
      (data.package r.rel pair.1).map fun p => (p, pair.2)).Perm
        (joinedPairs (data.forged r) s) := by
  have groups := @equiJoin_groups_left _ _ _ _ (data.keyAt r) Tuple.key _ (data.keyAt r) _ _
    (fun _ isStart _ member => data.keyAt_package r isStart member) s
  rw [data.packages_flatMap r] at groups
  have mapped := groups.map fun pair : Nat × Tuple => (pair.1, pair.2.payload)
  rw [Inter.packaged, data.forged_eq r, joinedPairs_left, joinedPairs_left, List.flatMap_map]
  rw [List.map_flatMap] at mapped
  simpa only [List.map_map, Function.comp_def] using mapped

theorem packages_both :
    ((joinedPairs (data1.packaged a) (data2.packaged b)).flatMap fun pair =>
      (data1.package a.rel pair.1).flatMap fun p1 =>
        (data2.package b.rel pair.2).map fun p2 => (p1, p2)).Perm
        (joinedPairs (data1.forged a) (data2.forged b)) := by
  have left := @equiJoin_groups_left _ _ _ _ (data1.keyAt a) (data2.keyAt b) _ (data1.keyAt a) _ _
    (fun _ isStart _ member => data1.keyAt_package a isStart member)
    (runStarts (data2.rowIdOf b.rel) data2.numbOfRows)
  have right := @equiJoin_groups_right _ _ _ _ (data1.keyAt a) (data2.keyAt b) _ (data2.keyAt b)
    _ _ (List.range data1.numbOfRows)
    fun _ isStart _ member => data2.keyAt_package b isStart member
  rw [data1.packages_flatMap a] at left
  rw [data2.packages_flatMap b] at right
  have both := left.flatMap_right fun pair => (data2.package b.rel pair.2).map (pair.1, ·)
  rw [right, List.flatMap_assoc] at both
  rw [Inter.packaged, Inter.packaged, data1.forged_eq a, data2.forged_eq b, joinedPairs_both,
    joinedPairs_both]
  simpa only [List.flatMap_map] using both

end Groups

structure SameIntermediates (head head' : HeadInter) : Prop where
  numOfIntermediates : head'.numOfIntermediates = head.numOfIntermediates
  nodes : List.Forall₂ (fun data data' : Inter => data'.joinedRels = data.joinedRels ∧
    data'.tuples.Perm data.tuples) head.nodes head'.nodes

section Updates

variable {head : HeadInter} {data data1 data2 : Inter} {node : Nat}

theorem forall₂_set {First Second : Type} {R : First → Second → Prop} {items : List First}
    {others : List Second} (related : List.Forall₂ R items others) {item : First} {other : Second}
    (isRelated : R item other) (i : Nat) : List.Forall₂ R (items.set i item) (others.set i other) := by
  induction related generalizing i with
  | nil => exact .nil
  | cons first rest induction =>
      cases i with
      | zero => exact .cons isRelated rest
      | succ i => exact .cons first (induction i)

theorem forall₂_eraseIdx {First Second : Type} {R : First → Second → Prop} {items : List First}
    {others : List Second} (related : List.Forall₂ R items others) (i : Nat) :
    List.Forall₂ R (items.eraseIdx i) (others.eraseIdx i) := by
  induction related generalizing i with
  | nil => exact .nil
  | cons first rest induction =>
      cases i with
      | zero => exact rest
      | succ i => exact .cons first (induction i)

theorem SameIntermediates.updateInter {merged merged' : Inter}
    (joinedRels : merged'.joinedRels = merged.joinedRels)
    (tuples : merged'.tuples.Perm merged.tuples) :
    SameIntermediates (updateInter head node merged) (updateInter head node merged') where
  numOfIntermediates := rfl
  nodes := forall₂_set (List.forall₂_same.mpr fun _ _ => ⟨rfl, .refl _⟩) ⟨joinedRels, tuples⟩ node

theorem SameIntermediates.deleteInterNode {head' : HeadInter}
    (same : SameIntermediates head head') (node : Nat) :
    SameIntermediates (deleteInterNode head node) (deleteInterNode head' node) where
  numOfIntermediates := congrArg (wrapSub · 1) same.numOfIntermediates
  nodes := by
    rw [Executor.deleteInterNode, Executor.deleteInterNode, same.numOfIntermediates]
    dsimp only
    split
    · exact forall₂_eraseIdx same.nodes node
    · exact same.nodes

def Inter.extended (data : Inter) (addedRel : Nat) (rows : List (Nat × Nat)) : Inter :=
  ⟨rows.length, data.pick (rows.map Prod.fst) ++ [⟨addedRel, rows.map Prod.snd⟩]⟩

theorem Inter.tuples_extended (data : Inter) (addedRel : Nat) (rows : List (Nat × Nat)) :
    (data.extended addedRel rows).tuples =
      rows.map fun pair => data.row pair.1 ++ [pair.2] := by
  apply List.ext_getElem
  · simp [tuples, extended]
  · intro i inside inside'
    rw [List.length_map] at inside'
    have first : i < (rows.map Prod.fst).length := (List.length_map _).symm ▸ inside'
    simp only [tuples, extended, List.getElem_map, List.getElem_range, row, rowAt_append]
    rw [rowAt_pick first, List.getElem_map]
    simp [rowAt, inside', row]

theorem resultRows_eq {r s : List Tuple} {switched : Nat} {results : HeadResult}
    (joined : Joined r s switched results) : ∃ pairs, resultRows results switched = some pairs ∧
      results.totalSize = pairs.length ∧ pairs.Perm (joinedPairs r s) := by
  rcases createResultArray_eq joined with ⟨pairs, isPairs, size, perm⟩
  refine ⟨pairs, ?_, size, perm⟩
  rw [createResultArray] at isPairs
  split at isPairs
  · next counted =>
      rw [← isPairs]
      exact if_pos counted.1
  · cases isPairs

theorem positive_of_pairs {results skipped : Nat} {pairs : List (Nat × Nat)}
    (size : results = pairs.length) (fits : results + skipped < 2 ^ 64) (some : pairs ≠ []) :
    0 < (results + skipped) % 2 ^ 64 := by
  have length := List.length_pos_of_ne_nil some
  rw [Nat.mod_eq_of_lt fits]
  omega

theorem inside_left {r : ColRel} {s : List Tuple} {pairs : List (Nat × Nat)}
    {rows : List Nat} (below : ∀ i ∈ rows, i < data.numbOfRows)
    (perm : pairs.Perm (joinedPairs (rows.map fun i => ⟨data.keyAt r i, i⟩) s)) :
    ∀ pair ∈ pairs, pair.1 < data.numbOfRows := by
  intro pair member
  have isPair := perm.mem_iff.mp member
  rw [joinedPairs_left] at isPair
  rcases List.mem_map.mp isPair with ⟨⟨i, t⟩, isJoined, rfl⟩
  exact below i (mem_equiJoin.mp isJoined).1

theorem runStarts_lt {rel : Nat} : ∀ i ∈ runStarts (data.rowIdOf rel) data.numbOfRows,
    i < data.numbOfRows := fun _ member => List.mem_range.mp (List.mem_filter.mp member).1

theorem Inter.copyPackage_eq (rectangular : data.Rectangular) {rel results : Nat}
    (isJoined : rel ∈ data.joinedRels) {pair : Nat × Nat} (below : pair.1 < data.numbOfRows)
    (copied : Copied) : data.copyPackage results rel copied pair =
      ((data.package rel pair.1).map fun p => (p, pair.2)).foldlM (Copied.push results) copied := by
  rw [copyPackage, packageRows_eq rectangular isJoined below, Option.bind_eq_bind,
    Option.bind_some, List.foldlM_map]
  rfl

theorem copyPackages_eq (rectangular1 : data1.Rectangular) (rectangular2 : data2.Rectangular)
    {rel1 rel2 results : Nat} (isJoined1 : rel1 ∈ data1.joinedRels)
    (isJoined2 : rel2 ∈ data2.joinedRels) {pair : Nat × Nat} (below1 : pair.1 < data1.numbOfRows)
    (below2 : pair.2 < data2.numbOfRows) (copied : Copied) :
    copyPackages data1 data2 results rel1 rel2 copied pair =
      ((data1.package rel1 pair.1).flatMap fun p1 =>
        (data2.package rel2 pair.2).map fun p2 => (p1, p2)).foldlM (Copied.push results)
          copied := by
  rw [copyPackages, Inter.packageRows_eq rectangular1 isJoined1 below1,
    Inter.packageRows_eq rectangular2 isJoined2 below2]
  simp only [Option.bind_eq_bind, Option.bind_some]
  apply foldlM_flatMap
  intro p1 _ copied
  rw [List.foldlM_map]
  rfl

/-- An intermediate is joined with a relation that has none. With the results for the first rows
of its packages, the updated intermediate has the same rows as with all results. -/
theorem updateInterFromRes2_agrees (get : head.nodes[node]? = some data)
    (rectangular : data.Rectangular) {r : ColRel} (isJoined : r.rel ∈ data.joinedRels)
    {s : List Tuple} {headRes packages : HeadResult} {switched switched' skipped : Nat}
    (plain : Joined (data.forged r) s switched headRes)
    (packaged : Joined (data.packaged r) s switched' packages)
    (fits : packages.totalSize + skipped < 2 ^ 64) (addedRel : Nat) :
    ∃ after after', updateInterFromRes head node headRes addedRel switched = some after ∧
      updateInterFromRes2 head node packages addedRel r.rel skipped switched' = some after' ∧
      SameIntermediates after after' := by
  rcases createResultArray_eq plain with ⟨pairs, isPairs, size, perm⟩
  rcases resultRows_eq packaged with ⟨starts, areStarts, startsSize, startsPerm⟩
  let copies := starts.flatMap fun pair => (data.package r.rel pair.1).map fun p => (p, pair.2)
  have copiesPerm : copies.Perm pairs :=
    ((startsPerm.flatMap_right _).trans (packages_left data r s)).trans perm.symm
  have inside := inside_left (fun _ => List.mem_range.mp) (data.forged_eq r ▸ perm)
  have startsInside := inside_left runStarts_lt startsPerm
  have copied : updateRowIds2 data packages ((packages.totalSize + skipped) % 2 ^ 64) r.rel
      switched' = some copies := by
    rcases foldlM_copies (fun pair member copied =>
      Inter.copyPackage_eq rectangular isJoined (startsInside pair member) copied)
      (positive_of_pairs startsSize fits) with ⟨cursize, ran⟩
    rw [updateRowIds2, areStarts, Option.bind_eq_bind, Option.bind_some, ran]
    rfl
  have picked := @Inter.atRows_eq _ rectangular (pairs.map Prod.fst)
    (List.forall_mem_map.mpr inside)
  have pickedCopies := @Inter.atRows_eq _ rectangular (copies.map Prod.fst)
    (List.forall_mem_map.mpr fun pair member => inside pair (copiesPerm.mem_iff.mp member))
  refine ⟨updateInter head node (data.extended addedRel pairs),
    updateInter head node (data.extended addedRel copies), ?_, ?_, ?_⟩
  · simp only [updateInterFromRes, isPairs, get, picked, size, Option.bind_eq_bind,
      Option.bind_some]
    rfl
  · simp only [updateInterFromRes2, get, copied, pickedCopies, Option.bind_eq_bind,
      Option.bind_some]
    rfl
  · apply SameIntermediates.updateInter
    · simp only [Inter.joinedRels, Inter.extended, List.map_append, Inter.pick_rels]
      rfl
    · rw [Inter.tuples_extended, Inter.tuples_extended]
      exact copiesPerm.map _

theorem inside_right {r : ColRel} {s : List Tuple} {pairs : List (Nat × Nat)}
    {rows : List Nat} (below : ∀ i ∈ rows, i < data.numbOfRows)
    (perm : pairs.Perm (joinedPairs s (rows.map fun i => ⟨data.keyAt r i, i⟩))) :
    ∀ pair ∈ pairs, pair.2 < data.numbOfRows := by
  intro pair member
  rcases List.mem_map.mp (perm.mem_iff.mp member) with ⟨row, isRow, rfl⟩
  rcases List.mem_map.mp isRow with ⟨⟨t, u⟩, isJoined, rfl⟩
  rcases List.mem_map.mp (mem_equiJoin.mp isJoined).2.1 with ⟨i, inRows, rfl⟩
  exact below i inRows

def resultsOf (rows : List RowTuple) : HeadResult := ⟨[rows], some 0, 1, rows.length, none, 0⟩

theorem resultsOf_finished {rows : List RowTuple} (some : rows ≠ []) : (resultsOf rows).Finished where
  numbOfNodes := rfl
  tail := rfl
  nonempty := List.forall_mem_singleton.mpr some
  noBuffer := rfl
  totalSize := congrArg List.length (List.append_nil rows).symm

/-- Three rows, the first two of which are a package of relation `rel`. -/
def packagedInter (rel : Nat) : Inter := ⟨3, [⟨rel, [0, 0, 1]⟩]⟩

theorem packagedInter_rectangular (rel : Nat) : (packagedInter rel).Rectangular :=
  List.forall_mem_singleton.mpr rfl

def packagedCol (rel : Nat) : ColRel := ⟨rel, 0, rel, 0, [7, 8], 2⟩

/-- One value is joined with the package, and one row is skipped. -/
theorem updateInterFromRes2_agrees_oneValue : ∃ after after',
    updateInterFromRes ⟨1, [packagedInter 0]⟩ 0 (resultsOf [⟨0, 5⟩, ⟨1, 5⟩]) 1 0 = some after ∧
      updateInterFromRes2 ⟨1, [packagedInter 0]⟩ 0 (resultsOf [⟨0, 5⟩]) 1 0 1 0 = some after' ∧
      SameIntermediates after after' := by
  have plain : Joined ((packagedInter 0).forged (packagedCol 0)) [⟨7, 5⟩] 0
      (resultsOf [⟨0, 5⟩, ⟨1, 5⟩]) := ⟨.inl rfl, resultsOf_finished (List.cons_ne_nil _ _), by decide⟩
  have packaged : Joined ((packagedInter 0).packaged (packagedCol 0)) [⟨7, 5⟩] 0
      (resultsOf [⟨0, 5⟩]) := ⟨.inl rfl, resultsOf_finished (List.cons_ne_nil _ _), by decide⟩
  have get : (⟨1, [packagedInter 0]⟩ : HeadInter).nodes[0]? = some (packagedInter 0) := rfl
  have fits : (resultsOf [⟨0, 5⟩]).totalSize + 1 < 2 ^ 64 := by decide
  exact updateInterFromRes2_agrees get (packagedInter_rectangular 0) (by decide) plain packaged
    fits 1

/-- Two intermediates are joined. With the results for the first rows of the packages of both, the
updated intermediate has the same rows as with all results. -/
theorem updateInterAndDelete2_agrees {node1 node2 : Nat}
    (get1 : head.nodes[node1]? = some data1) (get2 : head.nodes[node2]? = some data2)
    (rectangular1 : data1.Rectangular) (rectangular2 : data2.Rectangular) {a b : ColRel}
    (isJoined1 : a.rel ∈ data1.joinedRels) (isJoined2 : b.rel ∈ data2.joinedRels)
    {headRes packages : HeadResult} {switched switched' skipped : Nat}
    (plain : Joined (data1.forged a) (data2.forged b) switched headRes)
    (packaged : Joined (data1.packaged a) (data2.packaged b) switched' packages)
    (fits : packages.totalSize + skipped < 2 ^ 64) :
    ∃ after after', updateInterAndDelete head node1 node2 headRes switched = some after ∧
      updateInterAndDelete2 head node1 node2 packages a.rel b.rel skipped switched' =
        some after' ∧
      SameIntermediates after after' := by
  rcases createResultArray_eq plain with ⟨pairs, isPairs, size, perm⟩
  rcases resultRows_eq packaged with ⟨starts, areStarts, startsSize, startsPerm⟩
  let copies := starts.flatMap fun pair => (data1.package a.rel pair.1).flatMap fun p1 =>
    (data2.package b.rel pair.2).map fun p2 => (p1, p2)
  have copiesPerm : copies.Perm pairs :=
    ((startsPerm.flatMap_right _).trans (packages_both data1 data2 a b)).trans perm.symm
  have inside1 := inside_left (fun _ => List.mem_range.mp) (data1.forged_eq a ▸ perm)
  have inside2 := inside_right (fun _ => List.mem_range.mp) (data2.forged_eq b ▸ perm)
  have startsInside1 := inside_left runStarts_lt startsPerm
  have startsInside2 := inside_right runStarts_lt startsPerm
  have copied : joinRowIds2 data1 data2 packages ((packages.totalSize + skipped) % 2 ^ 64) a.rel
      b.rel switched' = some copies := by
    rcases foldlM_copies (fun pair member copied =>
      copyPackages_eq rectangular1 rectangular2 isJoined1 isJoined2 (startsInside1 pair member)
        (startsInside2 pair member) copied)
      (positive_of_pairs startsSize fits) with ⟨cursize, ran⟩
    rw [joinRowIds2, areStarts, Option.bind_eq_bind, Option.bind_some, ran]
    rfl
  have picked1 := @Inter.atRows_eq _ rectangular1 (pairs.map Prod.fst)
    (List.forall_mem_map.mpr inside1)
  have picked2 := @Inter.atRows_eq _ rectangular2 (pairs.map Prod.snd)
    (List.forall_mem_map.mpr inside2)
  have pickedCopies1 := @Inter.atRows_eq _ rectangular1 (copies.map Prod.fst)
    (List.forall_mem_map.mpr fun pair member => inside1 pair (copiesPerm.mem_iff.mp member))
  have pickedCopies2 := @Inter.atRows_eq _ rectangular2 (copies.map Prod.snd)
    (List.forall_mem_map.mpr fun pair member => inside2 pair (copiesPerm.mem_iff.mp member))
  refine ⟨deleteInterNode (updateInter head node1 (data1.merge data2 pairs)) node2,
    deleteInterNode (updateInter head node1 (data1.merge data2 copies)) node2, ?_, ?_, ?_⟩
  · simp only [updateInterAndDelete, isPairs, get1, get2, picked1, picked2, size,
      Option.bind_eq_bind, Option.bind_some]
    rfl
  · simp only [updateInterAndDelete2, get1, get2, copied, pickedCopies1, pickedCopies2,
      Option.bind_eq_bind, Option.bind_some]
    rfl
  · apply SameIntermediates.deleteInterNode
    have part := data1.merge_part data2 pairs
    have part' := data1.merge_part data2 copies
    apply SameIntermediates.updateInter
    · exact (congrArg PartialResult.attrs part').trans (congrArg PartialResult.attrs part).symm
    · rw [show (data1.merge data2 copies).tuples = _ from congrArg PartialResult.tuples part',
        show (data1.merge data2 pairs).tuples = _ from congrArg PartialResult.tuples part]
      exact copiesPerm.map _

theorem updateInterAndDelete2_agrees_onePackage : ∃ after after',
    updateInterAndDelete ⟨2, [packagedInter 0, packagedInter 1]⟩ 0 1
        (resultsOf [⟨0, 0⟩, ⟨0, 1⟩, ⟨1, 0⟩, ⟨1, 1⟩, ⟨2, 2⟩]) 0 = some after ∧
      updateInterAndDelete2 ⟨2, [packagedInter 0, packagedInter 1]⟩ 0 1
        (resultsOf [⟨0, 0⟩, ⟨2, 2⟩]) 0 1 2 0 = some after' ∧
      SameIntermediates after after' := by
  have plain : Joined ((packagedInter 0).forged (packagedCol 0))
      ((packagedInter 1).forged (packagedCol 1)) 0
      (resultsOf [⟨0, 0⟩, ⟨0, 1⟩, ⟨1, 0⟩, ⟨1, 1⟩, ⟨2, 2⟩]) :=
    ⟨.inl rfl, resultsOf_finished (List.cons_ne_nil _ _), by decide⟩
  have packaged : Joined ((packagedInter 0).packaged (packagedCol 0))
      ((packagedInter 1).packaged (packagedCol 1)) 0 (resultsOf [⟨0, 0⟩, ⟨2, 2⟩]) :=
    ⟨.inl rfl, resultsOf_finished (List.cons_ne_nil _ _), by decide⟩
  have get1 : (⟨2, [packagedInter 0, packagedInter 1]⟩ : HeadInter).nodes[0]? =
      some (packagedInter 0) := rfl
  have get2 : (⟨2, [packagedInter 0, packagedInter 1]⟩ : HeadInter).nodes[1]? =
      some (packagedInter 1) := rfl
  have fits : (resultsOf [⟨0, 0⟩, ⟨2, 2⟩]).totalSize + 2 < 2 ^ 64 := by decide
  have isJoined1 : (packagedCol 0).rel ∈ (packagedInter 0).joinedRels := List.mem_cons_self
  have isJoined2 : (packagedCol 1).rel ∈ (packagedInter 1).joinedRels := List.mem_cons_self
  have agrees := updateInterAndDelete2_agrees get1 get2 (packagedInter_rectangular 0)
    (packagedInter_rectangular 1) isJoined1 isJoined2 plain packaged fits
  exact agrees

end Updates

end JoinOperator.Executor
