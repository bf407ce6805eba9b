import JoinOperator.Executor.Execution
import JoinOperator.Foundation.EquiJoin

/-! # Joining the intermediates of two relations -/

namespace JoinOperator.Executor

open Foundation RadixJoin

def Inter.merge (left right : Inter) (pairs : List (Nat × Nat)) : Inter :=
  ⟨pairs.length, left.pick (pairs.map Prod.fst) ++ right.pick (pairs.map Prod.snd)⟩

def agreeing (left right : Inter) (a b : ColRel) : List (Nat × Nat) :=
  (List.range left.numbOfRows ×ˢ List.range right.numbOfRows).filter fun pair =>
    valueOf a (valueAt left.joinedRels (left.row pair.1)) =
      valueOf b (valueAt right.joinedRels (right.row pair.2))

def Inter.forged (data : Inter) (r : ColRel) : List Tuple :=
  (List.range data.numbOfRows).map fun i => ⟨valueOf r (valueAt data.joinedRels (data.row i)), i⟩

theorem Inter.merge_rectangular (left right : Inter) (pairs : List (Nat × Nat)) :
    (left.merge right pairs).Rectangular := by
  intro column member
  rcases List.mem_append.mp member with inLeft | inRight
  · rw [left.pick_rectangular _ column inLeft, List.length_map]
    rfl
  · rw [right.pick_rectangular _ column inRight, List.length_map]
    rfl

theorem Inter.merge_part (left right : Inter) (pairs : List (Nat × Nat)) :
    (left.merge right pairs).part = ⟨left.joinedRels ++ right.joinedRels,
      pairs.map fun pair => left.row pair.1 ++ right.row pair.2⟩ := by
  rw [part, merge, tuples_pick_pick, joinedRels, List.map_append, pick_rels, pick_rels]

theorem joinRows_forged (left right : Inter) (a b : ColRel) :
    (joinRows (left.forged a) (right.forged b)).map (fun row => (row.rowR, row.rowS)) =
      agreeing left right a b := by
  rw [joinRows, Inter.forged, Inter.forged, equiJoin_map, List.map_map, List.map_map,
    equiJoin_eq_filter]
  exact List.map_id _

theorem createResultArray_eq {r s : List Tuple} {switched : Nat} {results : HeadResult}
    (joined : Joined r s switched results) : ∃ pairs,
      createResultArray results switched = some pairs ∧ results.totalSize = pairs.length ∧
        pairs.Perm ((joinRows r s).map fun row => (row.rowR, row.rowS)) := by
  have finished := joined.finished
  refine ⟨results.nodes.flatten.map fun row =>
    if switched = 0 then (row.rowR, row.rowS) else (row.rowS, row.rowR), ?_, ?_, ?_⟩
  · rw [createResultArray, finished.numbOfNodes, List.take_length]
    exact if_pos ⟨Nat.le_refl _, finished.totalSize.symm⟩
  · rw [List.length_map]
    exact finished.totalSize
  · have rows := joined.rows.map fun row => (row.rowR, row.rowS)
    rw [List.map_map] at rows
    refine List.Perm.trans (List.Perm.of_eq (List.map_congr_left fun row _ => ?_)) rows
    rcases joined.eitherWay with rfl | rfl
    · rfl
    · rfl

theorem product_map {Left Right Left' Right' : Type*} (f : Left → Left') (g : Right → Right')
    (as : List Left) (bs : List Right) :
    (as.map f) ×ˢ (bs.map g) = (as ×ˢ bs).map (Prod.map f g) := by
  induction as with
  | nil => rfl
  | cons a as induction =>
      rw [List.map_cons, List.product_cons, List.product_cons, induction, List.map_append,
        List.map_map, List.map_map]
      rfl

namespace Executed

variable {relArr : List Relationsheep} {rels : List Nat} {touched : Set Nat}
  {conditions : List (Condition Nat)} {head : HeadInter}

theorem forgeRelationsheep_eq (executed : Executed relArr rels touched conditions head)
    {r : ColRel} (isParticipant : IsParticipant relArr rels r) :
    forgeRelationsheep head r =
      some ⟨(sourceOf head r).forged r, r.realRel, r.realCol⟩ := by
  rw [forgeRelationsheep]
  cases found : findNode head r.rel with
  | none =>
      have read : ((List.range r.rows).mapM fun i => do
          let key ← r.col[i]?
          some (⟨key, i⟩ : Tuple)) = some ((Inter.base r.rel r.rows).forged r) := by
        apply mapM_eq_map
        intro i member
        have inside := List.mem_range.mp member
        rw [isParticipant.get (isParticipant.rows.symm ▸ inside), Inter.base_row r.rel inside]
        simp [valueOf, valueAt, Inter.base, Inter.joinedRels]
      simp only [Option.bind_eq_bind] at read ⊢
      rw [read, sourceOf_none found, Option.bind_some]
  | some node =>
      rcases findNode_some found with ⟨data, get, member⟩
      rcases Inter.mem_joinedRels_iff.mp member with ⟨column, isColumn⟩
      have read : ((List.range data.numbOfRows).mapM fun i => do
          let rowId ← column.rowIds[i]?
          let key ← r.col[rowId]?
          some (⟨key, i⟩ : Tuple)) = some (data.forged r) := by
        apply mapM_eq_map
        intro i member
        rcases executed.read (List.mem_of_getElem? get) isParticipant isColumn
          (List.mem_range.mp member) with ⟨rowId, isRowId, isKey⟩
        simp only [isRowId, isKey, Option.bind_eq_bind, Option.bind_some]
      simp only [get, isColumn, Option.bind_eq_bind, Option.bind_some] at read ⊢
      rw [read, sourceOf_some found get, Option.bind_some]

theorem isBase_forged {r : ColRel} (isParticipant : IsJoinParticipant relArr rels r)
    (absent : findNode head r.rel = none) :
    Forged.IsBase relArr ⟨(sourceOf head r).forged r, r.realRel, r.realCol⟩ := by
  rcases isParticipant.column with ⟨real, relation, isReal, isRelation, isColumn, _⟩
  rw [isParticipant.realRel] at isReal
  cases isReal
  simp only [Forged.IsBase, wholeColumn, isRelation, isParticipant.realCol, isColumn,
    Option.bind_eq_bind, Option.bind_some, sourceOf_none absent, columnTuples]
  congr 1
  rw [Inter.forged, Inter.base, ← isParticipant.length]
  apply List.ext_getElem
  · simp
  · intro i inside inside'
    have below : i < r.col.length := by simpa using inside
    simp [valueOf, valueAt, Inter.joinedRels, Inter.row, rowAt, below]

theorem join_parts {left right : Inter} {others : List (PartialResult Nat)}
    (evaluates : Evaluates (rowsOf relArr rels) touched conditions
      (left.part :: right.part :: others)) {a b : ColRel} {c : Condition Nat}
    (inLeft : a.rel ∈ left.joinedRels) (inRight : b.rel ∈ right.joinedRels)
    (attrs : ∀ rel, rel ∈ c.attrs ↔ rel = a.rel ∨ rel = b.rel)
    (holds : ∀ rowIds, c.holds rowIds = decide (valueOf a rowIds = valueOf b rowIds))
    {pairs : List (Nat × Nat)} (perm : pairs.Perm (agreeing left right a b)) :
    Evaluates (rowsOf relArr rels) touched (conditions ++ [c])
      ((left.merge right pairs).part :: others) := by
  have disjoint : left.joinedRels.Disjoint right.joinedRels := by
    have nodup := evaluates.disjoint
    rw [List.flatMap_cons, List.flatMap_cons, ← List.append_assoc] at nodup
    exact (List.nodup_append'.mp (List.nodup_append'.mp nodup).1).2.2
  rw [Inter.merge_part]
  apply evaluates.join
  · intro rel member
    rcases (attrs rel).mp member with rfl | rfl
    · exact List.mem_append_left _ inLeft
    · exact List.mem_append_right _ inRight
  · exact ⟨a.rel, (attrs _).mpr (.inl rfl), inLeft⟩
  · exact ⟨b.rel, (attrs _).mpr (.inr rfl), inRight⟩
  · refine (perm.map _).trans (List.Perm.of_eq ?_)
    have tuples : ((left.part.tuples ×ˢ right.part.tuples).map fun pair => pair.1 ++ pair.2) =
        (List.range left.numbOfRows ×ˢ List.range right.numbOfRows).map
          fun pair => left.row pair.1 ++ right.row pair.2 := by
      rw [Inter.part, Inter.part, Inter.tuples, Inter.tuples, product_map, List.map_map]
      rfl
    rw [tuples, List.filter_map, agreeing]
    congr 1
    apply List.filter_congr
    intro pair _
    have length : (left.row pair.1).length = left.joinedRels.length := by
      rw [Inter.row, rowAt, Inter.joinedRels, List.length_map, List.length_map]
    rw [Function.comp_apply, holds, valueOf, valueOf, valueOf, valueOf]
    rw [show left.part.attrs = left.joinedRels from rfl,
      show right.part.attrs = right.joinedRels from rfl, valueAt_append_left length inLeft,
      valueAt_append_right length fun member => disjoint member inRight]

end Executed

theorem agreeing_inside {left right : Inter} {a b : ColRel} {pairs : List (Nat × Nat)}
    (perm : pairs.Perm (agreeing left right a b)) :
    (∀ i ∈ pairs.map Prod.fst, i < left.numbOfRows) ∧
      ∀ i ∈ pairs.map Prod.snd, i < right.numbOfRows := by
  have inside : ∀ pair ∈ pairs, pair.1 < left.numbOfRows ∧ pair.2 < right.numbOfRows := by
    intro pair member
    have inProduct := List.mem_of_mem_filter (perm.mem_iff.mp member)
    rcases List.mem_product.mp inProduct with ⟨first, second⟩
    exact ⟨List.mem_range.mp first, List.mem_range.mp second⟩
  constructor
  · intro i member
    rcases List.mem_map.mp member with ⟨pair, isPair, rfl⟩
    exact (inside pair isPair).1
  · intro i member
    rcases List.mem_map.mp member with ⟨pair, isPair, rfl⟩
    exact (inside pair isPair).2

theorem set_eraseIdx_perm {α : Type*} {nodes : List α} {n m : Nat} {first second : α}
    (getFirst : nodes[n]? = some first) (getSecond : nodes[m]? = some second) (different : n ≠ m)
    (merged : α) : ∃ others, nodes.Perm (first :: second :: others) ∧
      ((nodes.set n merged).eraseIdx m).Perm (merged :: others) := by
  rcases List.getElem?_eq_some_iff.mp getFirst with ⟨bound, isFirst⟩
  rcases List.getElem?_eq_some_iff.mp getSecond with ⟨bound', isSecond⟩
  have erased : second ∈ nodes.eraseIdx n :=
    List.mem_eraseIdx_iff_getElem?.mpr ⟨m, Ne.symm different, getSecond⟩
  rcases List.append_of_mem erased with ⟨front, back, equal⟩
  have around : (nodes.eraseIdx n).Perm (second :: (front ++ back)) := by
    rw [equal]
    exact List.perm_middle
  have boundAfter : m < (nodes.set n merged).length := by rwa [List.length_set]
  have getAfter : (nodes.set n merged)[m] = second := by
    rw [List.getElem_set_ne different, isSecond]
  refine ⟨front ++ back, ?_, ?_⟩
  · have cons := (List.getElem_cons_eraseIdx_perm bound).symm
    rw [isFirst] at cons
    exact cons.trans (around.cons first)
  · have cons := List.getElem_cons_eraseIdx_perm boundAfter
    rw [getAfter] at cons
    have setFirst := (List.set_perm_cons_eraseIdx bound merged).trans (around.cons merged)
    exact ((cons.trans setFirst).trans (List.Perm.swap _ _ _)).cons_inv

/-- Results for two participants, and the condition that they agree. -/
structure JoinResults (relArr : List Relationsheep) (rels : List Nat) (head : HeadInter)
    (a b : ColRel) (c : Condition Nat) (switched : Nat) (results : HeadResult) : Prop where
  first : IsParticipant relArr rels a
  second : IsParticipant relArr rels b
  different : a.rel ≠ b.rel
  attrs : ∀ rel, rel ∈ c.attrs ↔ rel = a.rel ∨ rel = b.rel
  holds : ∀ rowIds, c.holds rowIds = decide (valueOf a rowIds = valueOf b rowIds)
  joined : Joined ((sourceOf head a).forged a) ((sourceOf head b).forged b) switched results

namespace JoinResults

variable {relArr : List Relationsheep} {rels : List Nat} {touched : Set Nat}
  {conditions : List (Condition Nat)} {head : HeadInter} {a b : ColRel} {c : Condition Nat}
  {switched : Nat} {results : HeadResult}

theorem pairs (found : JoinResults relArr rels head a b c switched results) : ∃ pairs,
    createResultArray results switched = some pairs ∧ results.totalSize = pairs.length ∧
      pairs.Perm (agreeing (sourceOf head a) (sourceOf head b) a b) := by
  rcases createResultArray_eq found.joined with ⟨pairs, isPairs, size, perm⟩
  rw [joinRows_forged] at perm
  exact ⟨pairs, isPairs, size, perm⟩

/-- Neither relation has an intermediate. -/
theorem createInterFromRes (found : JoinResults relArr rels head a b c switched results)
    (executed : Executed relArr rels touched conditions head)
    (absentA : findNode head a.rel = none) (absentB : findNode head b.rel = none) :
    ∃ after, createInterFromRes head results a.rel b.rel switched = some after ∧
      Executed relArr rels (insert a.rel (insert b.rel touched)) (conditions ++ [c]) after := by
  rcases found.pairs with ⟨pairs, isPairs, size, perm⟩
  rw [sourceOf_none absentA, sourceOf_none absentB] at perm
  rcases agreeing_inside perm with ⟨firsts, seconds⟩
  let merged := (Inter.base a.rel a.rows).merge (Inter.base b.rel b.rows) pairs
  have columns : merged =
      ⟨results.totalSize, [⟨a.rel, pairs.map Prod.fst⟩, ⟨b.rel, pairs.map Prod.snd⟩]⟩ := by
    rw [size]
    exact congrArg (Inter.mk pairs.length)
      (by rw [Inter.base_pick firsts, Inter.base_pick seconds]; rfl)
  refine ⟨⟨head.numOfIntermediates + 1, head.nodes ++ [merged]⟩, ?_, ?_, ?_, ?_⟩
  · rw [Executor.createInterFromRes, isPairs]
    simp only [Option.bind_eq_bind, Option.bind_some, pushInter, executed.counted, columns,
      if_pos (Nat.le_refl _), List.take_length]
  · rw [List.length_append, executed.counted]
    rfl
  · intro data member
    rcases List.mem_append.mp member with member | isNew
    · exact executed.rectangular data member
    · cases List.mem_singleton.mp isNew
      exact Inter.merge_rectangular _ _ _
  · have bTouched := executed.evaluates.touch (executed.findNode_none absentB)
    have aFresh : a.rel ∉ insert b.rel touched := by
      rw [Set.mem_insert_iff, not_or]
      exact ⟨found.different, executed.findNode_none absentA⟩
    have bothTouched := bTouched.touch aFresh
    rw [found.first.rows, found.second.rows, ← Inter.base_part, ← Inter.base_part] at bothTouched
    have parts := Executed.join_parts bothTouched List.mem_cons_self List.mem_cons_self
      found.attrs found.holds perm
    exact parts.of_perm ((List.perm_append_singleton _ _).map Inter.part).symm

/-- The second relation has no intermediate. -/
theorem updateInterFromRes (found : JoinResults relArr rels head a b c switched results)
    (executed : Executed relArr rels touched conditions head) {node : Nat}
    (isNode : findNode head a.rel = some node) (absentB : findNode head b.rel = none) :
    ∃ after, updateInterFromRes head node results b.rel switched = some after ∧
      Executed relArr rels (insert b.rel touched) (conditions ++ [c]) after := by
  rcases findNode_some isNode with ⟨data, get, isRel⟩
  rcases found.pairs with ⟨pairs, isPairs, size, perm⟩
  rw [sourceOf_some isNode get, sourceOf_none absentB] at perm
  rcases agreeing_inside perm with ⟨firsts, seconds⟩
  rcases List.getElem?_eq_some_iff.mp get with ⟨bound, isData⟩
  let merged := data.merge (Inter.base b.rel b.rows) pairs
  have rectangular := executed.rectangular data (List.mem_of_getElem? get)
  have picked := Inter.atRows_eq rectangular firsts
  have columns : merged = ⟨results.totalSize,
      data.pick (pairs.map Prod.fst) ++ [⟨b.rel, pairs.map Prod.snd⟩]⟩ := by
    rw [size]
    exact congrArg (Inter.mk pairs.length) (by rw [Inter.base_pick seconds])
  have nodes : head.nodes.Perm (data :: head.nodes.eraseIdx node) := by
    have cons := (List.getElem_cons_eraseIdx_perm bound).symm
    rwa [isData] at cons
  have nodesAfter : (head.nodes.set node merged).Perm (merged :: head.nodes.eraseIdx node) :=
    List.set_perm_cons_eraseIdx bound merged
  refine ⟨updateInter head node merged, ?_, ?_, ?_, ?_⟩
  · rw [Executor.updateInterFromRes, isPairs]
    simp only [Option.bind_eq_bind, Option.bind_some, get, picked, columns]
  · rw [updateInter, List.length_set]
    exact executed.counted
  · intro other member
    rcases List.mem_cons.mp (nodesAfter.mem_iff.mp member) with rfl | member
    · exact Inter.merge_rectangular _ _ _
    · exact executed.rectangular other (List.mem_of_mem_eraseIdx member)
  · have bTouched := executed.evaluates.touch (executed.findNode_none absentB)
    rw [found.second.rows, ← Inter.base_part] at bTouched
    have aFirst := bTouched.of_perm
      (((nodes.map Inter.part).cons _).trans (List.Perm.swap _ _ _))
    have parts := Executed.join_parts aFirst isRel List.mem_cons_self found.attrs found.holds perm
    exact parts.of_perm (nodesAfter.map Inter.part).symm

/-- The relations have different intermediates. -/
theorem updateInterAndDelete (found : JoinResults relArr rels head a b c switched results)
    (executed : Executed relArr rels touched conditions head) {n1 n2 : Nat}
    (isNode1 : findNode head a.rel = some n1) (isNode2 : findNode head b.rel = some n2)
    (apart : n1 ≠ n2) :
    ∃ after, updateInterAndDelete head n1 n2 results switched = some after ∧
      Executed relArr rels touched (conditions ++ [c]) after := by
  rcases findNode_some isNode1 with ⟨data1, get1, isRel1⟩
  rcases findNode_some isNode2 with ⟨data2, get2, isRel2⟩
  rcases found.pairs with ⟨pairs, isPairs, size, perm⟩
  rw [sourceOf_some isNode1 get1, sourceOf_some isNode2 get2] at perm
  rcases agreeing_inside perm with ⟨firsts, seconds⟩
  let merged := data1.merge data2 pairs
  have picked1 := Inter.atRows_eq (executed.rectangular data1 (List.mem_of_getElem? get1)) firsts
  have picked2 := Inter.atRows_eq (executed.rectangular data2 (List.mem_of_getElem? get2)) seconds
  have bound2 : n2 < head.nodes.length := (List.getElem?_eq_some_iff.mp get2).1
  rcases set_eraseIdx_perm get1 get2 apart merged with ⟨others, nodes, nodesAfter⟩
  have positive : 1 ≤ head.nodes.length := Nat.one_le_of_lt bound2
  have delete : deleteInterNode (updateInter head n1 merged) n2 =
      ⟨head.nodes.length - 1, (head.nodes.set n1 merged).eraseIdx n2⟩ := by
    rw [deleteInterNode, updateInter, executed.counted, wrapSub_of_le positive, if_pos bound2]
  refine ⟨deleteInterNode (updateInter head n1 merged) n2, ?_, ?_, ?_, ?_⟩
  · rw [Executor.updateInterAndDelete, isPairs]
    simp only [Option.bind_eq_bind, Option.bind_some, get1, get2, picked1, picked2, size]
    rfl
  · rw [delete, List.length_eraseIdx_of_lt (by rwa [List.length_set]), List.length_set]
  · rw [delete]
    intro other member
    rcases List.mem_cons.mp (nodesAfter.mem_iff.mp member) with rfl | member
    · exact Inter.merge_rectangular _ _ _
    · apply executed.rectangular other
      exact nodes.mem_iff.mpr (List.mem_cons_of_mem _ (List.mem_cons_of_mem _ member))
  · rw [delete]
    have parts := Executed.join_parts (executed.evaluates.of_perm (nodes.map Inter.part)) isRel1
      isRel2 found.attrs found.holds perm
    exact parts.of_perm (nodesAfter.map Inter.part).symm

end JoinResults

end JoinOperator.Executor
