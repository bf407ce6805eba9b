import JoinOperator.Foundation.Outcomes
import JoinOperator.Reference.QueryInfo
import Mathlib.Data.List.Sort
import Mathlib.Logic.Function.Basic

/-! # Operators of the reference

An operator is told which columns are required of it, and then materializes them. What is required
is kept in the operator, what it materializes is returned. Columns are lists, and the loops over
rows collect the columns one after the other.
-/

namespace JoinOperator.Reference

open Foundation

structure Relation where
  size : Nat
  columns : List (List Nat)
  rectangular : ∀ column ∈ columns, column.length = size
  deriving Repr

/-- Columns, and the positions under which they are found. -/
structure Selected where
  select2ResultColId : SelectInfo → Option Nat
  columns : List (List Nat)

def Selected.empty : Selected := ⟨fun _ => none, []⟩

def Selected.add (selected : Selected) (info : SelectInfo) (column : List Nat) : Selected :=
  ⟨Function.update selected.select2ResultColId info (some selected.columns.length),
    selected.columns ++ [column]⟩

/-- `resolve`, and the column at the position. -/
def Selected.column (selected : Selected) (info : SelectInfo) : Except Fault (List Nat) := do
  let colId ← orFault .assertion (selected.select2ResultColId info)
  orFault .access selected.columns[colId]?

structure Results extends Selected where
  resultSize : Nat

/-- An `unordered_multimap` from keys to their indexes, in an order that nothing is known of. -/
structure Multimap where
  equalRange : List Nat → Nat → List Nat
  perm : ∀ keys key, (equalRange keys key).Perm
    ((List.range keys.length).filter fun i => keys[i]? = some key)

inductive Operator where
  | scan (relation : Relation) (relationBinding : Nat) (selected : Selected)
  | filterScan (relation : Relation) (relationBinding : Nat) (filters : List FilterInfo)
      (inputData : Selected)
  | join (left right : Operator) (pInfo : PredicateInfo)
      (requestedColumnsLeft requestedColumnsRight : List SelectInfo)
  | selfJoin (input : Operator) (pInfo : PredicateInfo) (requiredIUs : List SelectInfo)

/-! ## Required columns -/

/-- The order of the set of a self join. -/
def SelectInfo.less (info other : SelectInfo) : Prop :=
  info.binding < other.binding ∨ info.colId < other.colId

instance : DecidableRel SelectInfo.less := fun _ _ => inferInstanceAs (Decidable (_ ∨ _))

/-- Whether the set has an element that is neither less nor greater. A set may only be asked for
what is not both at once. -/
def countSelect (requiredIUs : List SelectInfo) (info : SelectInfo) : Except Fault Bool :=
  if requiredIUs.any fun other => other.less info ∧ info.less other then .error .comparator
  else .ok (requiredIUs.any fun other => ¬ other.less info ∧ ¬ info.less other)

namespace Operator

def require (info : SelectInfo) : Operator → Except Fault (Bool × Operator)
  | scan relation relationBinding selected =>
      if info.binding ≠ relationBinding then .ok (false, scan relation relationBinding selected)
      else do
        let column ← orFault .assertion relation.columns[info.colId]?
        .ok (true, scan relation relationBinding (selected.add info column))
  | filterScan relation relationBinding filters inputData =>
      if info.binding ≠ relationBinding then
        .ok (false, filterScan relation relationBinding filters inputData)
      else do
        let column ← orFault .assertion relation.columns[info.colId]?
        if (inputData.select2ResultColId info).isSome then
          .ok (true, filterScan relation relationBinding filters inputData)
        else .ok (true, filterScan relation relationBinding filters (inputData.add info column))
  | join left right pInfo requestedColumnsLeft requestedColumnsRight =>
      if info ∈ requestedColumnsLeft ++ requestedColumnsRight then
        .ok (true, join left right pInfo requestedColumnsLeft requestedColumnsRight)
      else do
        let (inLeft, left) ← left.require info
        if inLeft then
          .ok (true, join left right pInfo (requestedColumnsLeft ++ [info]) requestedColumnsRight)
        else do
          let (inRight, right) ← right.require info
          if inRight then
            .ok (true,
              join left right pInfo requestedColumnsLeft (requestedColumnsRight ++ [info]))
          else .ok (false, join left right pInfo requestedColumnsLeft requestedColumnsRight)
  | selfJoin input pInfo requiredIUs => do
      let isRequired ← countSelect requiredIUs info
      if isRequired then .ok (true, selfJoin input pInfo requiredIUs)
      else do
        let (inInput, input) ← input.require info
        if inInput then
          .ok (true, selfJoin input pInfo (requiredIUs.orderedInsert SelectInfo.less info))
        else .ok (false, selfJoin input pInfo requiredIUs)

end Operator

/-! ## Runs -/

def copyColumn (rows column : List Nat) : Except Fault (List Nat) :=
  rows.mapM fun row => orFault .access column[row]?

def applyFilter (relation : Relation) (i : Nat) (f : FilterInfo) : Except Fault Bool := do
  let compareCol ← orFault .access relation.columns[f.filterColumn.colId]?
  let value ← orFault .access compareCol[i]?
  match f.comparison with
  | .equal => .ok (value = f.constant)
  | .greater => .ok (value > f.constant)
  | .less => .ok (value < f.constant)

def passFilters (relation : Relation) (filters : List FilterInfo) (i : Nat) : Except Fault Bool :=
  filters.foldlM (fun pass f => do
    let applies ← applyFilter relation i f
    .ok (pass && applies)) true

def runFilterScan (relation : Relation) (filters : List FilterInfo) (inputData : Selected) :
    Except Fault Results := do
  let rows ← (List.range relation.size).filterM (passFilters relation filters)
  let columns ← inputData.columns.mapM (copyColumn rows)
  .ok ⟨⟨inputData.select2ResultColId, columns⟩, rows.length⟩

def copyRequested (input : Results) (rows : List Nat) (requestedColumns : List SelectInfo) :
    Except Fault (List (SelectInfo × List Nat)) :=
  requestedColumns.mapM fun info => do
    let column ← input.column info
    let copied ← copyColumn rows column
    .ok (info, copied)

def Selected.ofColumns (columns : List (SelectInfo × List Nat)) : Selected :=
  columns.foldl (fun selected column => selected.add column.1 column.2) .empty

def readKeys (input : Results) (info : SelectInfo) : Except Fault (List Nat) := do
  let column ← input.column info
  copyColumn (List.range input.resultSize) column

/-- Build and probe. The left input is the smaller one. -/
def joinResults (multimap : Multimap) (left right : Results) (leftInfo rightInfo : SelectInfo)
    (requestedColumnsLeft requestedColumnsRight : List SelectInfo) : Except Fault Results := do
  let leftKeys ← readKeys left leftInfo
  let rightKeys ← readKeys right rightInfo
  let pairs := rightKeys.zipIdx.flatMap fun (rightKey, i) =>
    (multimap.equalRange leftKeys rightKey).map fun leftId => (leftId, i)
  let leftColumns ← copyRequested left (pairs.map Prod.fst) requestedColumnsLeft
  let rightColumns ← copyRequested right (pairs.map Prod.snd) requestedColumnsRight
  .ok ⟨Selected.ofColumns (leftColumns ++ rightColumns), pairs.length⟩

def selfJoinResults (input : Results) (pInfo : PredicateInfo) (requiredIUs : List SelectInfo) :
    Except Fault Results := do
  let leftCol ← readKeys input pInfo.left
  let rightCol ← readKeys input pInfo.right
  let rows := (List.range input.resultSize).filter fun i => leftCol[i]? = rightCol[i]?
  let columns ← copyRequested input rows requiredIUs
  .ok ⟨Selected.ofColumns columns, rows.length⟩

namespace Operator

def size : Operator → Nat
  | scan .. => 1
  | filterScan .. => 1
  | join left right .. => left.size + right.size + 1
  | selfJoin input .. => input.size + 1

theorem size_require {info : SelectInfo} {op after : Operator} {found : Bool}
    (required : op.require info = .ok (found, after)) : after.size = op.size := by
  induction op generalizing after found with
  | scan relation relationBinding selected =>
      rw [require] at required
      split at required
      · cases required
        rfl
      · rcases bind_eq_ok.mp required with ⟨column, _, same⟩
        cases same
        rfl
  | filterScan relation relationBinding filters inputData =>
      rw [require] at required
      split at required
      · cases required
        rfl
      · rcases bind_eq_ok.mp required with ⟨column, _, required⟩
        split at required
        · cases required
          rfl
        · cases required
          rfl
  | join left right pInfo requestedLeft requestedRight inductionLeft inductionRight =>
      rw [require] at required
      split at required
      · cases required
        rfl
      · rcases bind_eq_ok.mp required with ⟨⟨inLeft, left'⟩, askedLeft, required⟩
        have sameLeft := inductionLeft askedLeft
        cases inLeft with
        | true =>
            cases required
            simp only [size, sameLeft]
        | false =>
            rcases bind_eq_ok.mp required with ⟨⟨inRight, right'⟩, askedRight, required⟩
            have sameRight := inductionRight askedRight
            cases inRight with
            | true =>
                cases required
                simp only [size, sameLeft, sameRight]
            | false =>
                cases required
                simp only [size, sameLeft, sameRight]
  | selfJoin input pInfo requiredIUs induction =>
      rcases bind_eq_ok.mp required with ⟨isRequired, _, required⟩
      cases isRequired with
      | true =>
          cases required
          rfl
      | false =>
          rcases bind_eq_ok.mp required with ⟨⟨inInput, input'⟩, asked, required⟩
          have same := induction asked
          cases inInput with
          | true =>
              cases required
              simp only [size, same]
          | false =>
              cases required
              simp only [size, same]

theorem size_left_lt {left left' right : Operator} {info pInfo requestedLeft requestedRight}
    {found : Bool} (required : left.require info = .ok (found, left')) :
    left'.size < (join left right pInfo requestedLeft requestedRight).size := by
  rw [size_require required, size]
  omega

theorem size_right_lt {left right right' : Operator} {info pInfo requestedLeft requestedRight}
    {found : Bool} (required : right.require info = .ok (found, right')) :
    right'.size < (join left right pInfo requestedLeft requestedRight).size := by
  rw [size_require required, size]
  omega

theorem size_input_lt {input first second : Operator} {info info' pInfo requiredIUs}
    {found found' : Bool} (asked : input.require info = .ok (found, first))
    (askedAgain : first.require info' = .ok (found', second)) :
    second.size < (selfJoin input pInfo requiredIUs).size := by
  rw [size_require askedAgain, size_require asked, size]
  exact Nat.lt_succ_self _

def run (multimap : Multimap) : Operator → Except Fault Results
  | scan relation _ selected => .ok ⟨selected, relation.size⟩
  | filterScan relation _ filters inputData => runFilterScan relation filters inputData
  | join left right pInfo requestedColumnsLeft requestedColumnsRight =>
      match _askedLeft : left.require pInfo.left with
      | .error fault => .error fault
      | .ok (_, left') =>
          match _askedRight : right.require pInfo.right with
          | .error fault => .error fault
          | .ok (_, right') => do
              let leftResults ← left'.run multimap
              let rightResults ← right'.run multimap
              if leftResults.resultSize > rightResults.resultSize then
                joinResults multimap rightResults leftResults pInfo.right pInfo.left
                  requestedColumnsRight requestedColumnsLeft
              else
                joinResults multimap leftResults rightResults pInfo.left pInfo.right
                  requestedColumnsLeft requestedColumnsRight
  | selfJoin input pInfo requiredIUs =>
      match _askedLeft : input.require pInfo.left with
      | .error fault => .error fault
      | .ok (_, first) =>
          match _askedRight : first.require pInfo.right with
          | .error fault => .error fault
          | .ok (_, second) => do
              let results ← second.run multimap
              selfJoinResults results pInfo requiredIUs
termination_by op => op.size
decreasing_by
  · exact size_left_lt _askedLeft
  · exact size_right_lt _askedRight
  · exact size_input_lt _askedLeft _askedRight

theorem run_join (multimap : Multimap) (left right : Operator) (pInfo : PredicateInfo)
    (requestedColumnsLeft requestedColumnsRight : List SelectInfo) :
    (join left right pInfo requestedColumnsLeft requestedColumnsRight).run multimap = (do
      let (_, left') ← left.require pInfo.left
      let (_, right') ← right.require pInfo.right
      let leftResults ← left'.run multimap
      let rightResults ← right'.run multimap
      if leftResults.resultSize > rightResults.resultSize then
        joinResults multimap rightResults leftResults pInfo.right pInfo.left
          requestedColumnsRight requestedColumnsLeft
      else
        joinResults multimap leftResults rightResults pInfo.left pInfo.right
          requestedColumnsLeft requestedColumnsRight) := by
  rw [run]
  split
  · next asked => rw [asked, error_bind]
  · next asked =>
      rw [asked, ok_bind]
      split
      · next askedRight => simp only [askedRight, error_bind]
      · next askedRight => simp only [askedRight, ok_bind]

theorem run_selfJoin (multimap : Multimap) (input : Operator) (pInfo : PredicateInfo)
    (requiredIUs : List SelectInfo) : (selfJoin input pInfo requiredIUs).run multimap = (do
      let (_, first) ← input.require pInfo.left
      let (_, second) ← first.require pInfo.right
      let results ← second.run multimap
      selfJoinResults results pInfo requiredIUs) := by
  rw [run]
  split
  · next asked => rw [asked, error_bind]
  · next asked =>
      rw [asked, ok_bind]
      split
      · next askedRight => simp only [askedRight, error_bind]
      · next askedRight => simp only [askedRight, ok_bind]

/-- `Checksum::run`: the sums of the columns, and the number of rows. -/
def checkSums (multimap : Multimap) (input : Operator) (colInfo : List SelectInfo) :
    Except Fault (List Nat × Nat) := do
  let input ← colInfo.foldlM (fun input sInfo => do
    let (_, input) ← input.require sInfo
    .ok input) input
  let results ← input.run multimap
  let sums ← colInfo.mapM fun sInfo => do
    let column ← readKeys results sInfo
    .ok (column.sum % 2 ^ 64)
  .ok (sums, if colInfo.isEmpty then 0 else results.resultSize)

end Operator

end JoinOperator.Reference
