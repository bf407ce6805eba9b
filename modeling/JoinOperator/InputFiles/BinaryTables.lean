import JoinOperator.Foundation.LittleEndian
import JoinOperator.Planner.ColumnStats

/-! # Tables in binary files

A file has the number of rows, the number of columns, and the columns one after the other, all as
numbers of eight bytes. The statistics of a column are computed as soon as it is read.
-/

namespace JoinOperator.InputFiles

open Foundation Planner

/-- Why a table is not loaded. `stats` is an access out of range in `FillStatsArray`. -/
inductive Fault where
  | noFile
  | metadata
  | allocation
  | column
  | stats
  deriving DecidableEq

/-- An allocation whose size does not fit in a number of 64 bits would be too small. -/
def allocate (count size : Nat) : Except Fault Unit :=
  if count * size < 2 ^ 64 then .ok () else .error .allocation

structure FilledCols (rows : Nat) where
  pointToCols : List (List Nat)
  statsArray : List Stats
  rectangular : ∀ col ∈ pointToCols, col.length = rows

def FilledCols.none (rows : Nat) : FilledCols rows := ⟨[], [], nofun⟩

def FilledCols.cons {rows : Nat} (col : List Nat) (length : col.length = rows) (s : Stats)
    (others : FilledCols rows) : FilledCols rows where
  pointToCols := col :: others.pointToCols
  statsArray := s :: others.statsArray
  rectangular := List.forall_mem_cons.mpr ⟨length, others.rectangular⟩

theorem length_of_readNumbers {width count : Nat} {values : List Nat} {bytes rest : List UInt8}
    (isRead : readNumbers width count bytes = some (values, rest)) : values.length = count :=
  (readNumbers_eq_some.mp isRead).1

def fillCols (rows : Nat) : Nat → List UInt8 → Except Fault (FilledCols rows)
  | 0, _ => .ok (.none rows)
  | cols + 1, inputFile => do
      allocate rows 8
      match isRead : readNumbers 8 rows inputFile with
      | none => .error .column
      | some (col, behind) =>
          match fillStatsArray col rows with
          | none => .error .stats
          | some s => do
              let others ← fillCols rows cols behind
              .ok (.cons col (length_of_readNumbers isRead) s others)

/-- A `stats` takes 40 bytes, and a pointer eight. -/
def fillRel (inputFile : List UInt8) : Except Fault Relationsheep :=
  match readNumber 8 inputFile with
  | none => .error .metadata
  | some (rows, behind) =>
      match readNumber 8 behind with
      | none => .error .metadata
      | some (cols, columns) => do
          allocate cols 40
          allocate cols 8
          let filled ← fillCols rows cols columns
          .ok ⟨rows, filled.pointToCols, filled.statsArray, filled.rectangular⟩

def fillRelArray (files : List Char → Option (List UInt8)) (input : List (List Char)) :
    Except Fault (List Relationsheep) :=
  input.mapM fun filename =>
    match files filename with
    | none => .error .noFile
    | some inputFile => fillRel inputFile

def columnBytes (columns : List (List Nat)) : List UInt8 :=
  columns.flatMap (List.flatMap (bytesOf 8))

def tableBytes (rows : Nat) (columns : List (List Nat)) : List UInt8 :=
  bytesOf 8 rows ++ (bytesOf 8 columns.length ++ columnBytes columns)

structure Fits (rows : Nat) (columns : List (List Nat)) : Prop where
  numOfRows : rows < 2 ^ 64
  numOfCols : columns.length * 40 < 2 ^ 64
  column : columns ≠ [] → rows * 8 < 2 ^ 64
  words : ∀ col ∈ columns, ∀ value ∈ col, value < 2 ^ 64

section Columns

variable {rows cols : Nat} {inputFile : List UInt8}

theorem allocate_eq_ok {count size : Nat} :
    allocate count size = .ok () ↔ count * size < 2 ^ 64 := by
  rw [allocate]
  split
  · next fits => exact iff_of_true rfl fits
  · next large => exact iff_of_false nofun large

theorem fillCols_eq_ok {filled : FilledCols rows} :
    fillCols rows cols inputFile = .ok filled ↔
      filled.pointToCols.length = cols ∧ (filled.pointToCols ≠ [] → rows * 8 < 2 ^ 64) ∧
      (∀ col ∈ filled.pointToCols, ∀ value ∈ col, value < 2 ^ 64) ∧
      List.Forall₂ (fun col s => fillStatsArray col rows = some s)
        filled.pointToCols filled.statsArray ∧
      columnBytes filled.pointToCols <+: inputFile := by
  induction cols generalizing inputFile filled with
  | zero =>
      rcases filled with ⟨pointToCols, statsArray, rectangular⟩
      constructor
      · intro ran
        cases ran
        exact ⟨rfl, nofun, nofun, .nil, List.nil_prefix⟩
      · intro parts
        rcases parts with ⟨length, _, _, stats, _⟩
        cases List.length_eq_zero_iff.mp length
        cases stats
        rfl
  | succ cols induction =>
      rcases filled with ⟨pointToCols, statsArray, rectangular⟩
      rw [fillCols]
      constructor
      · intro ran
        by_cases fits : rows * 8 < 2 ^ 64
        · rw [allocate_eq_ok.mpr fits, ok_bind] at ran
          split at ran
          · cases ran
          · next col behind isRead =>
              split at ran
              · cases ran
              · next s isStats =>
                  cases others : fillCols rows cols behind with
                  | error fault =>
                      rw [others] at ran
                      cases ran
                  | ok filled =>
                      rw [others] at ran
                      cases ran
                      rcases induction.mp others with ⟨length, _, small, stats, bytes⟩
                      rcases readNumbers_eq_some.mp isRead with ⟨_, below, rfl⟩
                      refine ⟨congrArg (· + 1) length, fun _ => fits,
                        List.forall_mem_cons.mpr ⟨below, small⟩, .cons isStats stats, ?_⟩
                      exact (List.prefix_append_right_inj _).mpr bytes
        · have large : allocate rows 8 = .error .allocation := if_neg fits
          rw [large] at ran
          cases ran
      · intro parts
        rcases parts with ⟨length, fits, small, stats, bytes⟩
        cases stats with
        | nil => cases length
        | @cons col s columns others isStats stats =>
            rcases bytes with ⟨rest, rfl⟩
            rcases List.forall_mem_cons.mp small with ⟨below, smallOthers⟩
            rcases List.forall_mem_cons.mp rectangular with ⟨isLength, rectangularOthers⟩
            have isRead : readNumbers 8 rows (columnBytes (col :: columns) ++ rest) =
                some (col, columnBytes columns ++ rest) := by
              apply readNumbers_eq_some.mpr
              refine ⟨isLength, below, ?_⟩
              rw [columnBytes, List.flatMap_cons, List.append_assoc]
              rfl
            have ran := @induction (columnBytes columns ++ rest) ⟨columns, others, rectangularOthers⟩
            have filled := ran.mpr ⟨Nat.succ.inj length, fun _ => fits (List.cons_ne_nil _ _),
              smallOthers, stats, List.prefix_append _ _⟩
            rw [allocate_eq_ok.mpr (fits (List.cons_ne_nil _ _)), ok_bind]
            split
            · next noRead =>
                rw [isRead] at noRead
                cases noRead
            · next col' behind isRead' =>
                cases isRead.symm.trans isRead'
                simp only [isStats, filled, ok_bind]
                rfl

end Columns

section Statistics

variable {col : List Nat}

theorem fillStatsArray_fullRange (words : ∀ value ∈ col, value < 2 ^ 64) (zero : 0 ∈ col)
    (last : 2 ^ 64 - 1 ∈ col) : fillStatsArray col col.length = none := by
  have nonempty := List.ne_nil_of_mem zero
  rcases extremes_spec nonempty with ⟨minI, maxU, found, isExtreme⟩
  have isMin : minI = 0 := Nat.le_zero.mp (isExtreme.least 0 zero)
  have isMax : maxU = 2 ^ 64 - 1 := by
    have below := words maxU isExtreme.maxIn
    have above := isExtreme.greatest _ last
    omega
  have noWords : wordsOf minI maxU = 0 := by
    rw [isMin, isMax]
    rfl
  rcases List.exists_cons_of_ne_nil nonempty with ⟨first, rest, isCol⟩
  have noBit (bitOf : Nat → Nat) : countDistinct col col.length bitOf 0 = none := by
    rw [countDistinct, isCol, List.length_cons, List.range_succ_eq_map, List.foldlM_cons]
    rfl
  simp only [fillStatsArray, found, noWords, noBit, Option.bind_eq_bind, Option.bind_some,
    Option.bind_none]

theorem spread_lt (words : ∀ value ∈ col, value < 2 ^ 64)
    (notBoth : ¬ (0 ∈ col ∧ 2 ^ 64 - 1 ∈ col)) :
    ∀ value ∈ col, ∀ other ∈ col, other - value + 1 < 2 ^ 64 := by
  intro value isValue other isOther
  have below := words other isOther
  by_contra large
  have isZero : value = 0 := by omega
  have isLast : other = 2 ^ 64 - 1 := by omega
  exact notBoth ⟨isZero ▸ isValue, isLast ▸ isOther⟩

/-- A column has statistics unless it is empty, or has the smallest and the largest number. -/
theorem fillStatsArray_returns_iff (words : ∀ value ∈ col, value < 2 ^ 64) :
    (∃ s, fillStatsArray col col.length = some s) ↔
      col ≠ [] ∧ ¬ (0 ∈ col ∧ 2 ^ 64 - 1 ∈ col) := by
  constructor
  · intro returned
    rcases returned with ⟨s, isStats⟩
    constructor
    · intro empty
      rw [empty] at isStats
      cases isStats
    · intro both
      rw [fillStatsArray_fullRange words both.1 both.2] at isStats
      cases isStats
  · intro condition
    rcases condition with ⟨nonempty, notBoth⟩
    rcases fillStatsArray_holds nonempty (spread_lt words notBoth) with ⟨s, isStats, _⟩
    exact ⟨s, isStats⟩

theorem distinctArray_ne_nil {s : Stats} (words : ∀ value ∈ col, value < 2 ^ 64)
    (isStats : fillStatsArray col col.length = some s) : s.distinctArray ≠ [] := by
  rcases (fillStatsArray_returns_iff words).mp ⟨s, isStats⟩ with ⟨nonempty, notBoth⟩
  rcases fillStatsArray_holds nonempty (spread_lt words notBoth) with ⟨s', same, isExtreme, isSpan, _, length, _⟩
  cases isStats.symm.trans same
  have inside := bitOf_inside isSpan (Nat.le_refl s.minI) isExtreme.le
  apply List.ne_nil_of_length_pos
  rw [length]
  exact Nat.zero_lt_of_lt inside

end Statistics

/-- A table that can come from a file. -/
structure IsStored (relation : Relationsheep) : Prop where
  fits : Fits relation.rows relation.pointToCols
  stats : List.Forall₂ (fun col s => fillStatsArray col relation.rows = some s)
    relation.pointToCols relation.statsArray

section Tables

variable {inputFile : List UInt8} {relation : Relationsheep}

theorem fillRel_eq_ok :
    fillRel inputFile = .ok relation ↔ IsStored relation ∧
      tableBytes relation.rows relation.pointToCols <+: inputFile := by
  rcases relation with ⟨rows, pointToCols, statsArray, rectangular⟩
  constructor
  · intro ran
    rw [fillRel] at ran
    split at ran
    · cases ran
    · next rows behind isRows =>
        split at ran
        · cases ran
        · next cols columns isCols =>
            rcases readNumber_eq_some.mp isRows with ⟨rowsBelow, rfl⟩
            rcases readNumber_eq_some.mp isCols with ⟨_, rfl⟩
            by_cases enough : cols * 40 < 2 ^ 64
            · have pointers : cols * 8 < 2 ^ 64 := by omega
              rw [allocate_eq_ok.mpr enough, allocate_eq_ok.mpr pointers, ok_bind, ok_bind] at ran
              cases areCols : fillCols rows cols columns with
              | error fault =>
                  rw [areCols] at ran
                  cases ran
              | ok filled =>
                  rw [areCols] at ran
                  cases ran
                  rcases fillCols_eq_ok.mp areCols with ⟨length, column, small, stats, bytes⟩
                  refine ⟨⟨⟨rowsBelow, length.symm ▸ enough, column, small⟩, stats⟩, ?_⟩
                  rw [tableBytes, length]
                  apply (List.prefix_append_right_inj _).mpr
                  exact (List.prefix_append_right_inj _).mpr bytes
            · have large : allocate cols 40 = .error .allocation := if_neg enough
              rw [large] at ran
              cases ran
  · intro condition
    rcases condition with ⟨⟨⟨rowsBelow, enough, column, small⟩, stats⟩, rest, rfl⟩
    have pointers : pointToCols.length * 8 < 2 ^ 64 :=
      Nat.lt_of_le_of_lt (Nat.mul_le_mul_left _ (by decide)) enough
    have isRows : readNumber 8 (tableBytes rows pointToCols ++ rest) =
        some (rows, bytesOf 8 pointToCols.length ++ (columnBytes pointToCols ++ rest)) := by
      apply readNumber_eq_some.mpr
      exact ⟨rowsBelow, by rw [tableBytes, List.append_assoc, List.append_assoc]⟩
    have isCols : readNumber 8 (bytesOf 8 pointToCols.length ++ (columnBytes pointToCols ++ rest)) =
        some (pointToCols.length, columnBytes pointToCols ++ rest) :=
      readNumber_eq_some.mpr ⟨Nat.lt_of_le_of_lt (Nat.le_mul_of_pos_right _ (by decide)) enough, rfl⟩
    have areCols := (@fillCols_eq_ok rows pointToCols.length (columnBytes pointToCols ++ rest)
      ⟨pointToCols, statsArray, rectangular⟩).mpr
      ⟨rfl, column, small, stats, List.prefix_append _ _⟩
    simp only [fillRel, isRows, isCols, allocate_eq_ok.mpr enough, allocate_eq_ok.mpr pointers,
      areCols, ok_bind]

theorem exists_stats {columns : List (List Nat)} {rows : Nat}
    (small : ∀ col ∈ columns, ∀ value ∈ col, value < 2 ^ 64)
    (rectangular : ∀ col ∈ columns, col.length = rows) :
    (∃ statsArray, List.Forall₂ (fun col s => fillStatsArray col rows = some s)
        columns statsArray) ↔
      ∀ col ∈ columns, col ≠ [] ∧ ¬ (0 ∈ col ∧ 2 ^ 64 - 1 ∈ col) := by
  induction columns with
  | nil => exact iff_of_true ⟨[], .nil⟩ nofun
  | cons col columns induction =>
      rcases List.forall_mem_cons.mp small with ⟨smallFirst, smallOthers⟩
      rcases List.forall_mem_cons.mp rectangular with ⟨length, lengths⟩
      have first := fillStatsArray_returns_iff smallFirst
      rw [length] at first
      rw [List.forall_mem_cons, ← first, ← induction smallOthers lengths]
      constructor
      · intro related
        rcases related with ⟨statsArray, related⟩
        cases related with
        | cons isStats others => exact ⟨⟨_, isStats⟩, _, others⟩
      · intro both
        rcases both with ⟨⟨s, isStats⟩, statsArray, others⟩
        exact ⟨s :: statsArray, .cons isStats others⟩

/-- The table that is loaded from a file is the one whose bytes the file begins with. Its columns
have as many values as there are rows, at least one, and not both the smallest and the largest
number. -/
theorem fillRel_loads_iff {rows : Nat} {columns : List (List Nat)} :
    (∃ relation, fillRel inputFile = .ok relation ∧ relation.rows = rows ∧
        relation.pointToCols = columns) ↔
      Fits rows columns ∧ (∀ col ∈ columns, col.length = rows ∧ col ≠ [] ∧
        ¬ (0 ∈ col ∧ 2 ^ 64 - 1 ∈ col)) ∧ tableBytes rows columns <+: inputFile := by
  constructor
  · intro loaded
    rcases loaded with ⟨relation, ran, rfl, rfl⟩
    rcases fillRel_eq_ok.mp ran with ⟨⟨fits, stats⟩, bytes⟩
    have all := (exists_stats fits.words relation.rectangular).mp ⟨_, stats⟩
    exact ⟨fits, fun col member => ⟨relation.rectangular col member, all col member⟩, bytes⟩
  · intro condition
    rcases condition with ⟨fits, all, bytes⟩
    have rectangular := fun col member => (all col member).1
    rcases (exists_stats fits.words rectangular).mpr fun col member => (all col member).2 with
      ⟨statsArray, stats⟩
    exact ⟨⟨rows, columns, statsArray, rectangular⟩, fillRel_eq_ok.mpr ⟨⟨fits, stats⟩, bytes⟩,
      rfl, rfl⟩

end Tables

end JoinOperator.InputFiles
