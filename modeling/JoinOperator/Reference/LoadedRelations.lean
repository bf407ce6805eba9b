import JoinOperator.InputFiles.BinaryTables
import JoinOperator.Reference.BuiltOperators

/-! # Relations in files

The reference maps a file and uses its columns where they are. It loads what it has stored, and
every table that the receiver loads.
-/

namespace JoinOperator.Reference

open Foundation InputFiles

/-- The columns behind the header. When the file is too short for one, the source reads behind the
end of what is mapped. -/
def loadColumns (size : Nat) : Nat → List UInt8 → Except Fault (List (List Nat))
  | 0, _ => .ok []
  | numColumns + 1, addr => do
      let (column, behind) ← orFault .access (readNumbers 8 size addr)
      let columns ← loadColumns size numColumns behind
      .ok (column :: columns)

section Columns

variable {size numColumns : Nat} {addr : List UInt8} {columns : List (List Nat)}

theorem orFault_eq_ok {α : Type} {fault : Fault} {found : Option α} {value : α} :
    orFault fault found = .ok value ↔ found = some value := by
  cases found with
  | none =>
      constructor
      · intro same
        cases same
      · intro same
        cases same
  | some other => exact ⟨fun same => congrArg some (Except.ok.inj same), fun same =>
      congrArg Except.ok (Option.some.inj same)⟩

theorem loadColumns_eq_ok : loadColumns size numColumns addr = .ok columns ↔
    columns.length = numColumns ∧ (∀ column ∈ columns, column.length = size) ∧
      (∀ column ∈ columns, ∀ value ∈ column, value < 2 ^ 64) ∧ columnBytes columns <+: addr := by
  induction numColumns generalizing addr columns with
  | zero =>
      constructor
      · intro ran
        cases ran
        exact ⟨rfl, List.forall_mem_nil _, List.forall_mem_nil _, List.nil_prefix⟩
      · intro parts
        rw [List.length_eq_zero_iff.mp parts.1]
        rfl
  | succ numColumns induction =>
      rw [loadColumns]
      constructor
      · intro ran
        rcases bind_eq_ok.mp ran with ⟨⟨column, behind⟩, isRead, ran⟩
        rcases bind_eq_ok.mp ran with ⟨others, areOthers, same⟩
        cases same
        rcases readNumbers_eq_some.mp (orFault_eq_ok.mp isRead) with ⟨length, small, rfl⟩
        rcases induction.mp areOthers with ⟨count, lengths, smallOthers, bytes⟩
        refine ⟨congrArg (· + 1) count, List.forall_mem_cons.mpr ⟨length, lengths⟩,
          List.forall_mem_cons.mpr ⟨small, smallOthers⟩, ?_⟩
        exact (List.prefix_append_right_inj _).mpr bytes
      · intro parts
        rcases parts with ⟨count, lengths, small, rest, rfl⟩
        cases columns with
        | nil => cases count
        | cons column others =>
            rcases List.forall_mem_cons.mp lengths with ⟨length, lengthsOthers⟩
            rcases List.forall_mem_cons.mp small with ⟨below, smallOthers⟩
            have isRead : readNumbers 8 size (columnBytes (column :: others) ++ rest) =
                some (column, columnBytes others ++ rest) := by
              apply readNumbers_eq_some.mpr
              refine ⟨length, below, ?_⟩
              rw [columnBytes, List.flatMap_cons, List.append_assoc]
              rfl
            have areOthers := induction.mpr ⟨Nat.succ.inj count, lengthsOthers, smallOthers,
              List.prefix_append (columnBytes others) rest⟩
            rw [isRead, orFault, ok_bind]
            dsimp only
            rw [areOthers, ok_bind]

theorem length_of_loadColumns (loaded : loadColumns size numColumns addr = .ok columns) :
    ∀ column ∈ columns, column.length = size :=
  (loadColumns_eq_ok.mp loaded).2.1

end Columns

def loadRelation (inputFile : List UInt8) : Except Fault Relation :=
  if inputFile.length < 16 then .error .relation
  else do
    let (size, addr) ← orFault .access (readNumber 8 inputFile)
    let (numColumns, addr) ← orFault .access (readNumber 8 addr)
    match loaded : loadColumns size numColumns addr with
    | .error fault => .error fault
    | .ok columns => .ok ⟨size, columns, length_of_loadColumns loaded⟩

def storeRelation (relation : Relation) : List UInt8 := tableBytes relation.size relation.columns

section Relations

variable {inputFile : List UInt8} {relation : Relation}

theorem loadRelation_eq_ok : loadRelation inputFile = .ok relation ↔
    relation.size < 2 ^ 64 ∧ relation.columns.length < 2 ^ 64 ∧
      (∀ column ∈ relation.columns, ∀ value ∈ column, value < 2 ^ 64) ∧
      storeRelation relation <+: inputFile := by
  rcases relation with ⟨size, columns, rectangular⟩
  constructor
  · intro ran
    rw [loadRelation] at ran
    split at ran
    · cases ran
    · rcases bind_eq_ok.mp ran with ⟨⟨size', behind⟩, isSize, ranBehind⟩
      rcases bind_eq_ok.mp ranBehind with ⟨⟨numColumns, addr⟩, isNum, ranColumns⟩
      clear ran ranBehind
      rcases readNumber_eq_some.mp (orFault_eq_ok.mp isSize) with ⟨sizeBelow, rfl⟩
      rcases readNumber_eq_some.mp (orFault_eq_ok.mp isNum) with ⟨numBelow, rfl⟩
      dsimp only at ranColumns
      split at ranColumns
      · cases ranColumns
      · next loaded =>
          cases ranColumns
          rcases loadColumns_eq_ok.mp loaded with ⟨rfl, _, small, bytes⟩
          refine ⟨sizeBelow, numBelow, small, ?_⟩
          exact (List.prefix_append_right_inj _).mpr ((List.prefix_append_right_inj _).mpr bytes)
  · intro parts
    rcases parts with ⟨sizeBelow, numBelow, small, rest, rfl⟩
    have isSize : readNumber 8 (storeRelation ⟨size, columns, rectangular⟩ ++ rest) =
        some (size, bytesOf 8 columns.length ++ (columnBytes columns ++ rest)) := by
      apply readNumber_eq_some.mpr
      exact ⟨sizeBelow, by rw [storeRelation, tableBytes, List.append_assoc, List.append_assoc]⟩
    have isNum : readNumber 8 (bytesOf 8 columns.length ++ (columnBytes columns ++ rest)) =
        some (columns.length, columnBytes columns ++ rest) :=
      readNumber_eq_some.mpr ⟨numBelow, rfl⟩
    have areColumns : loadColumns size columns.length (columnBytes columns ++ rest) = .ok columns :=
      loadColumns_eq_ok.mpr ⟨rfl, rectangular, small, List.prefix_append _ _⟩
    have header : ¬ (storeRelation ⟨size, columns, rectangular⟩ ++ rest).length < 16 := by
      rw [storeRelation, tableBytes, List.length_append, List.length_append, List.length_append,
        length_bytesOf, length_bytesOf]
      omega
    rw [loadRelation, if_neg header, isSize, orFault, ok_bind]
    dsimp only
    rw [isNum, orFault, ok_bind]
    dsimp only
    split
    · next fault failed => cases areColumns.symm.trans failed
    · next others loaded =>
        cases areColumns.symm.trans loaded
        rfl

/-- The receiver loads no other table than the reference. -/
theorem loadRelation_of_fillRel {table : Relationsheep} (filled : fillRel inputFile = .ok table) :
    loadRelation inputFile = .ok (.ofTable table) := by
  rcases fillRel_eq_ok.mp filled with ⟨⟨fits, _⟩, bytes⟩
  have few : table.pointToCols.length < 2 ^ 64 :=
    Nat.lt_of_le_of_lt (Nat.le_mul_of_pos_right _ (by decide)) fits.numOfCols
  exact loadRelation_eq_ok.mpr ⟨fits.numOfRows, few, fits.words, bytes⟩

end Relations

end JoinOperator.Reference
