import JoinOperator.Foundation.EquiJoin
import JoinOperator.Foundation.PartialResults
import JoinOperator.Reference.Operators

/-! # What is materialized

The rows of an operator stand for tuples, and its columns have the values of the tuples.
-/

namespace JoinOperator.Reference

open Foundation

def Selected.Holds (selected : Selected) (IsColumn : SelectInfo → List Nat → Prop)
    (requests : List SelectInfo) : Prop :=
  ∀ info ∈ requests, ∃ column, selected.column info = .ok column ∧ IsColumn info column

section Columns

variable {selected : Selected} {IsColumn : SelectInfo → List Nat → Prop} {info other : SelectInfo}
  {column : List Nat} {requests : List SelectInfo}

theorem column_eq_ok : selected.column info = .ok column ↔
    ∃ colId, selected.select2ResultColId info = some colId ∧
      selected.columns[colId]? = some column := by
  rw [Selected.column]
  cases selected.select2ResultColId info with
  | none => simp [orFault]
  | some colId =>
      simp only [orFault, ok_bind, Option.some.injEq, exists_eq_left']
      cases selected.columns[colId]? <;> simp

theorem column_add_self : (selected.add info column).column info = .ok column := by
  apply column_eq_ok.mpr
  exact ⟨selected.columns.length, Function.update_self .., List.getElem?_concat_length⟩

theorem column_add_of_ne (differs : other ≠ info) {found : List Nat}
    (isColumn : selected.column other = .ok found) :
    (selected.add info column).column other = .ok found := by
  rcases column_eq_ok.mp isColumn with ⟨colId, isId, get⟩
  apply column_eq_ok.mpr
  refine ⟨colId, (Function.update_of_ne differs ..).trans isId, ?_⟩
  have inside := (List.getElem?_eq_some_iff.mp get).1
  rw [Selected.add, List.getElem?_append_left inside, get]

theorem Selected.Holds.add (holds : selected.Holds IsColumn requests)
    (isColumn : IsColumn info column) :
    (selected.add info column).Holds IsColumn (info :: requests) := by
  intro asked member
  by_cases same : asked = info
  · subst same
    exact ⟨column, column_add_self, isColumn⟩
  · rcases holds asked ((List.mem_cons.mp member).resolve_left same) with ⟨found, get, isFound⟩
    exact ⟨found, column_add_of_ne same get, isFound⟩

theorem Selected.Holds.mono (holds : selected.Holds IsColumn requests) {others : List SelectInfo}
    (fewer : others ⊆ requests) : selected.Holds IsColumn others :=
  fun info member => holds info (fewer member)

theorem Selected.holds_ofColumns {columns : List (SelectInfo × List Nat)}
    (areColumns : ∀ pair ∈ columns, IsColumn pair.1 pair.2) :
    (Selected.ofColumns columns).Holds IsColumn (columns.map Prod.fst) := by
  have from_ : ∀ (columns : List (SelectInfo × List Nat)) (selected : Selected)
      (requests : List SelectInfo), (∀ pair ∈ columns, IsColumn pair.1 pair.2) →
      selected.Holds IsColumn requests →
      (columns.foldl (fun selected column => selected.add column.1 column.2) selected).Holds
        IsColumn (columns.map Prod.fst ++ requests) := by
    intro columns
    induction columns with
    | nil => exact fun _ _ _ holds => holds
    | cons pair columns induction =>
        intro selected requests areColumns holds
        have next := induction (selected.add pair.1 pair.2) (pair.1 :: requests)
          (fun other member => areColumns other (List.mem_cons_of_mem _ member))
          (holds.add (areColumns pair List.mem_cons_self))
        exact next.mono fun info member => by simpa [or_left_comm, or_assoc] using member
  have all := from_ columns .empty [] areColumns (List.forall_mem_nil _)
  rwa [List.append_nil] at all

end Columns

section Rows

variable {α : Type} {rows : List Nat}

theorem copyColumn_map {items : List α} (value : α → Nat) (default : α)
    (inside : ∀ row ∈ rows, row < items.length) :
    copyColumn rows (items.map value) =
      .ok ((rows.map (items.getD · default)).map value) := by
  rw [List.map_map]
  apply mapM_ok_map
  intro row member
  have below := inside row member
  rw [List.getElem?_map, List.getElem?_eq_getElem below, Function.comp_apply,
    List.getD_eq_getElem _ _ below]
  rfl

theorem map_getD_range (items : List α) (default : α) :
    (List.range items.length).map (items.getD · default) = items := by
  apply List.ext_getElem
  · simp
  · intro i inside inside'
    simp [inside']

theorem map_filter_range (items : List α) (default : α) (passes : α → Bool) :
    ((List.range items.length).filter fun i => passes (items.getD i default)).map
      (items.getD · default) = items.filter passes := by
  conv_rhs => rw [← map_getD_range items default, List.filter_map]
  rfl

end Rows

/-- A value that depends on the row of one relation only. -/
def IsLocal (value : SelectInfo → (Nat → Nat) → Nat) : Prop :=
  ∀ info f g, f info.binding = g info.binding → value info f = value info g

def shown (value : SelectInfo → (Nat → Nat) → Nat) (part : PartialResult Nat)
    (info : SelectInfo) : List Nat :=
  part.tuples.map fun tuple => value info (valueAt part.attrs tuple)

/-- The rows stand for the tuples of a part, and the requested columns have their values. -/
structure Materializes (value : SelectInfo → (Nat → Nat) → Nat) (part : PartialResult Nat)
    (requests : List SelectInfo) (results : Results) : Prop where
  resultSize : results.resultSize = part.tuples.length
  columns : results.Holds (fun info column => column = shown value part info) requests
  bindings : ∀ info ∈ requests, info.binding ∈ part.attrs
  lengths : ∀ tuple ∈ part.tuples, tuple.length = part.attrs.length

section Parts

variable {value : SelectInfo → (Nat → Nat) → Nat} {part left right : PartialResult Nat}
  {requests requestsLeft requestsRight requested requestedLeft requestedRight : List SelectInfo}
  {results resultsLeft resultsRight : Results} {info leftInfo rightInfo : SelectInfo}

theorem Materializes.column (materializes : Materializes value part requests results)
    (member : info ∈ requests) : results.column info = .ok (shown value part info) := by
  rcases materializes.columns info member with ⟨column, found, rfl⟩
  exact found

def pickRows (part : PartialResult Nat) (rows : List Nat) : PartialResult Nat :=
  ⟨part.attrs, rows.map (part.tuples.getD · [])⟩

theorem readKeys_eq (materializes : Materializes value part requests results)
    (member : info ∈ requests) : readKeys results info = .ok (shown value part info) := by
  rw [readKeys, materializes.column member, ok_bind, materializes.resultSize, shown,
    copyColumn_map _ [] (fun _ => List.mem_range.mp), map_getD_range]

theorem copyRequested_eq (materializes : Materializes value part requests results)
    (fewer : requested ⊆ requests) {rows : List Nat}
    (inside : ∀ row ∈ rows, row < part.tuples.length) :
    copyRequested results rows requested =
      .ok (requested.map fun info => (info, shown value (pickRows part rows) info)) := by
  apply mapM_ok_map
  intro info member
  rw [materializes.column (fewer member), ok_bind, shown, copyColumn_map _ [] inside]
  rfl

def collected (value : SelectInfo → (Nat → Nat) → Nat) (part : PartialResult Nat)
    (requested : List SelectInfo) : Results :=
  ⟨Selected.ofColumns (requested.map fun info => (info, shown value part info)),
    part.tuples.length⟩

theorem materializes_collected (bindings : ∀ info ∈ requested, info.binding ∈ part.attrs)
    (lengths : ∀ tuple ∈ part.tuples, tuple.length = part.attrs.length) :
    Materializes value part requested (collected value part requested) where
  resultSize := rfl
  columns := by
    have holds := @Selected.holds_ofColumns (fun info column => column = shown value part info)
      (requested.map fun info => (info, shown value part info)) (by simp)
    rwa [List.map_map, show (Prod.fst ∘ fun info => (info, shown value part info)) = id from rfl,
      List.map_id] at holds
  bindings := bindings
  lengths := lengths

theorem selfJoinResults_spec (materializes : Materializes value part requests results)
    {pInfo : PredicateInfo} (isLeft : pInfo.left ∈ requests) (isRight : pInfo.right ∈ requests)
    (fewer : requested ⊆ requests) :
    ∃ joined, selfJoinResults results pInfo requested = .ok joined ∧
      Materializes value ⟨part.attrs, part.tuples.filter fun tuple =>
        value pInfo.left (valueAt part.attrs tuple) =
          value pInfo.right (valueAt part.attrs tuple)⟩ requested joined := by
  let equal (tuple : List Nat) : Bool :=
    value pInfo.left (valueAt part.attrs tuple) = value pInfo.right (valueAt part.attrs tuple)
  have rows : (List.range results.resultSize).filter (fun i =>
      (shown value part pInfo.left)[i]? = (shown value part pInfo.right)[i]?) =
        (List.range part.tuples.length).filter fun i => equal (part.tuples.getD i []) := by
    rw [materializes.resultSize]
    apply List.filter_congr
    intro i member
    have below := List.mem_range.mp member
    simp [shown, equal, below]
  have inside : ∀ row ∈ (List.range part.tuples.length).filter
      (fun i => equal (part.tuples.getD i [])), row < part.tuples.length :=
    fun row member => List.mem_range.mp (List.mem_filter.mp member).1
  have picked : pickRows part ((List.range part.tuples.length).filter fun i =>
      equal (part.tuples.getD i [])) = ⟨part.attrs, part.tuples.filter equal⟩ :=
    congrArg _ (map_filter_range part.tuples [] equal)
  have length := congrArg (fun part : PartialResult Nat => part.tuples.length) picked
  simp only [pickRows, List.length_map] at length
  refine ⟨collected value ⟨part.attrs, part.tuples.filter equal⟩ requested, ?_,
    materializes_collected (fun info member => materializes.bindings info (fewer member))
      fun tuple member => materializes.lengths tuple (List.mem_filter.mp member).1⟩
  simp only [selfJoinResults, readKeys_eq materializes isLeft, readKeys_eq materializes isRight,
    ok_bind, rows, copyRequested_eq materializes fewer inside, picked, length]
  rfl

/-- The rows that are found when all right keys are looked up among the left keys. -/
def probed (multimap : Multimap) (leftKeys rightKeys : List Nat) : List (Nat × Nat) :=
  rightKeys.zipIdx.flatMap fun (key, i) =>
    (multimap.equalRange leftKeys key).map fun leftId => (leftId, i)

theorem mem_probed {multimap : Multimap} {leftKeys rightKeys : List Nat} {pair : Nat × Nat}
    (member : pair ∈ probed multimap leftKeys rightKeys) :
    pair.1 < leftKeys.length ∧ pair.2 < rightKeys.length := by
  rcases List.mem_flatMap.mp member with ⟨⟨key, i⟩, isRight, isPair⟩
  rcases List.mem_map.mp isPair with ⟨leftId, isLeft, rfl⟩
  have inRange := (multimap.perm leftKeys key).mem_iff.mp isLeft
  exact ⟨List.mem_range.mp (List.mem_filter.mp inRange).1,
    (List.getElem?_eq_some_iff.mp (List.mem_zipIdx_iff_getElem?.mp isRight)).1⟩

theorem probed_perm (multimap : Multimap) (lefts rights : List (List Nat))
    (leftKey rightKey : List Nat → Nat) :
    ((probed multimap (lefts.map leftKey) (rights.map rightKey)).map
        fun pair => lefts.getD pair.1 [] ++ rights.getD pair.2 []).Perm
      ((equiJoin leftKey rightKey lefts rights).map fun pair => pair.1 ++ pair.2) := by
  have ranges (key : Nat) : ((multimap.equalRange (lefts.map leftKey) key).map
      (lefts.getD · [])).Perm (lefts.filter fun tuple => leftKey tuple = key) := by
    refine ((multimap.perm _ key).map _).trans ?_
    rw [← map_filter_range lefts [] fun tuple => leftKey tuple = key, List.length_map]
    apply List.Perm.of_eq
    congr 1
    apply List.filter_congr
    intro i member
    have below := List.mem_range.mp member
    simp [below]
  rw [probed, List.zipIdx_map, List.flatMap_map, List.map_flatMap]
  have rows : (rights.zipIdx.flatMap fun pair =>
      ((multimap.equalRange (lefts.map leftKey) (rightKey pair.1)).map fun leftId =>
        (leftId, pair.2)).map fun pair => lefts.getD pair.1 [] ++ rights.getD pair.2 []).Perm
      ((rights.zipIdx.map Prod.fst).flatMap fun right =>
        (lefts.filter fun left => leftKey left = rightKey right).map (· ++ right)) := by
    rw [List.flatMap_map]
    apply List.Perm.flatMap_left
    intro pair member
    have isRight : rights.getD pair.2 [] = pair.1 := by
      have get := List.mem_zipIdx_iff_getElem?.mp member
      rw [List.getD_eq_getElem?_getD, get, Option.getD_some]
    rw [List.map_map]
    have mapped := (ranges (rightKey pair.1)).map (· ++ pair.1)
    rw [List.map_map] at mapped
    refine (List.Perm.of_eq (List.map_congr_left fun leftId _ => ?_)).trans mapped
    simp only [Function.comp_apply, isRight]
  refine rows.trans ?_
  rw [List.zipIdx_map_fst]
  have swapped := (equiJoin_swap rightKey leftKey rights lefts).map fun pair => pair.1 ++ pair.2
  refine (List.Perm.of_eq ?_).trans swapped
  rw [equiJoin, List.map_map, List.map_flatMap]
  apply List.flatMap_congr
  intro right _
  rw [List.map_map]
  simp only [eq_comm (a := rightKey right)]
  rfl

theorem value_append (isLocal : IsLocal value) {first second : List Nat}
    (length : first.length = left.attrs.length) :
    (info.binding ∈ left.attrs →
      value info (valueAt (left.attrs ++ right.attrs) (first ++ second)) =
        value info (valueAt left.attrs first)) ∧
    (info.binding ∉ left.attrs →
      value info (valueAt (left.attrs ++ right.attrs) (first ++ second)) =
        value info (valueAt right.attrs second)) :=
  ⟨fun member => isLocal _ _ _ (valueAt_append_left length member),
    fun absent => isLocal _ _ _ (valueAt_append_right length absent)⟩

def sideBySide (left right : PartialResult Nat) (pairs : List (Nat × Nat)) : PartialResult Nat where
  attrs := left.attrs ++ right.attrs
  tuples := pairs.map fun pair => left.tuples.getD pair.1 [] ++ right.tuples.getD pair.2 []

theorem Materializes.length_getD (materializes : Materializes value part requests results)
    {row : Nat} (below : row < part.tuples.length) :
    (part.tuples.getD row []).length = part.attrs.length := by
  rw [List.getD_eq_getElem _ _ below]
  exact materializes.lengths _ (List.getElem_mem below)

theorem copyLeft_eq (isLocal : IsLocal value)
    (isLeft : Materializes value left requestsLeft resultsLeft) {pairs : List (Nat × Nat)}
    (inside : ∀ pair ∈ pairs, pair.1 < left.tuples.length) (fewer : requestedLeft ⊆ requestsLeft) :
    copyRequested resultsLeft (pairs.map Prod.fst) requestedLeft = .ok (requestedLeft.map fun info =>
      (info, shown value (sideBySide left right pairs) info)) := by
  rw [copyRequested_eq isLeft fewer (List.forall_mem_map.mpr inside)]
  apply congrArg Except.ok
  apply List.map_congr_left
  intro info member
  have binding := isLeft.bindings info (fewer member)
  simp only [shown, pickRows, sideBySide, List.map_map]
  apply congrArg (Prod.mk info)
  apply List.map_congr_left
  intro pair isPair
  exact ((value_append isLocal (isLeft.length_getD (inside pair isPair))).1 binding).symm

theorem copyRight_eq (isLocal : IsLocal value)
    (isLeft : Materializes value left requestsLeft resultsLeft)
    (isRight : Materializes value right requestsRight resultsRight)
    (disjoint : left.attrs.Disjoint right.attrs) {pairs : List (Nat × Nat)}
    (inside : ∀ pair ∈ pairs, pair.1 < left.tuples.length ∧ pair.2 < right.tuples.length)
    (fewer : requestedRight ⊆ requestsRight) :
    copyRequested resultsRight (pairs.map Prod.snd) requestedRight =
      .ok (requestedRight.map fun info =>
        (info, shown value (sideBySide left right pairs) info)) := by
  rw [copyRequested_eq isRight fewer
    (List.forall_mem_map.mpr fun pair member => (inside pair member).2)]
  apply congrArg Except.ok
  apply List.map_congr_left
  intro info member
  have binding := isRight.bindings info (fewer member)
  simp only [shown, pickRows, sideBySide, List.map_map]
  apply congrArg (Prod.mk info)
  apply List.map_congr_left
  intro pair isPair
  have length := isLeft.length_getD (inside pair isPair).1
  exact ((value_append isLocal length).2 fun inLeft => disjoint inLeft binding).symm

theorem sideBySide_perm (multimap : Multimap) (isLocal : IsLocal value)
    (isLeft : Materializes value left requestsLeft resultsLeft)
    (isRight : Materializes value right requestsRight resultsRight)
    (disjoint : left.attrs.Disjoint right.attrs) (leftMember : leftInfo ∈ requestsLeft)
    (rightMember : rightInfo ∈ requestsRight) :
    (sideBySide left right (probed multimap (shown value left leftInfo)
      (shown value right rightInfo))).tuples.Perm
      (((left.tuples ×ˢ right.tuples).map fun pair => pair.1 ++ pair.2).filter
        fun tuple => value leftInfo (valueAt (left.attrs ++ right.attrs) tuple) =
          value rightInfo (valueAt (left.attrs ++ right.attrs) tuple)) := by
  refine (probed_perm multimap left.tuples right.tuples _ _).trans ?_
  rw [equiJoin_eq_filter, List.filter_map]
  apply List.Perm.of_eq
  congr 1
  apply List.filter_congr
  intro pair member
  rcases pair with ⟨first, second⟩
  have length := isLeft.lengths first (List.mem_product.mp member).1
  have inLeft := (@value_append _ left right leftInfo isLocal first second length).1
    (isLeft.bindings leftInfo leftMember)
  have inRight := (@value_append _ left right rightInfo isLocal first second length).2
    fun inLeft => disjoint inLeft (isRight.bindings rightInfo rightMember)
  simp only [Function.comp_apply, inLeft, inRight]

/-- The rows of a join are those of both inputs side by side, with equal keys. -/
theorem joinResults_spec (multimap : Multimap) (isLocal : IsLocal value)
    (isLeft : Materializes value left requestsLeft resultsLeft)
    (isRight : Materializes value right requestsRight resultsRight)
    (disjoint : left.attrs.Disjoint right.attrs) (leftMember : leftInfo ∈ requestsLeft)
    (rightMember : rightInfo ∈ requestsRight) (fewerLeft : requestedLeft ⊆ requestsLeft)
    (fewerRight : requestedRight ⊆ requestsRight) :
    ∃ joined tuples, joinResults multimap resultsLeft resultsRight leftInfo rightInfo
        requestedLeft requestedRight = .ok joined ∧
      Materializes value ⟨left.attrs ++ right.attrs, tuples⟩ (requestedLeft ++ requestedRight)
        joined ∧
      tuples.Perm (((left.tuples ×ˢ right.tuples).map fun pair => pair.1 ++ pair.2).filter
        fun tuple => value leftInfo (valueAt (left.attrs ++ right.attrs) tuple) =
          value rightInfo (valueAt (left.attrs ++ right.attrs) tuple)) := by
  have perm := sideBySide_perm multimap isLocal isLeft isRight disjoint leftMember rightMember
  have inside : ∀ pair ∈ probed multimap (shown value left leftInfo) (shown value right rightInfo),
      pair.1 < left.tuples.length ∧ pair.2 < right.tuples.length := by
    intro pair member
    have below := mem_probed member
    rwa [shown, shown, List.length_map, List.length_map] at below
  have copiedLeft := @copyLeft_eq _ _ right _ _ _ isLocal isLeft _
    (fun pair member => (inside pair member).1) fewerLeft
  have copiedRight := copyRight_eq isLocal isLeft isRight disjoint inside fewerRight
  refine ⟨collected value (sideBySide left right _) (requestedLeft ++ requestedRight), _, ?_,
    materializes_collected ?_ ?_, perm⟩
  · rw [joinResults, readKeys_eq isLeft leftMember, readKeys_eq isRight rightMember, ok_bind,
      ok_bind]
    change (do
      let leftColumns ← copyRequested resultsLeft ((probed multimap _ _).map Prod.fst) requestedLeft
      let rightColumns ←
        copyRequested resultsRight ((probed multimap _ _).map Prod.snd) requestedRight
      Except.ok (Results.mk (Selected.ofColumns (leftColumns ++ rightColumns))
        (probed multimap _ _).length)) = _
    rw [copiedLeft, copiedRight, ok_bind, ok_bind, collected, List.map_append]
    simp only [sideBySide, List.length_map]
  · intro info member
    rcases List.mem_append.mp member with inLeft | inRight
    · exact List.mem_append_left _ (isLeft.bindings info (fewerLeft inLeft))
    · exact List.mem_append_right _ (isRight.bindings info (fewerRight inRight))
  · intro tuple member
    rcases List.mem_map.mp member with ⟨pair, isPair, rfl⟩
    have below := inside pair isPair
    rw [List.length_append, List.length_append, isLeft.length_getD below.1,
      isRight.length_getD below.2]

end Parts

end JoinOperator.Reference
