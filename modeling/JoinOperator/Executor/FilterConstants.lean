import JoinOperator.Executor.OrderIndependence
import JoinOperator.QueryText.RoundTrip

/-! # Filters of a query text

The constant of a filter is read by `atoi`, which returns an `int`, and stored as
a number of 64 bits.
-/

namespace JoinOperator.QueryText

/-- The values that are stored for a filter. Its base relation and column are not set. -/
structure FilterCells.Holds (cells : FilterCells) (pred : Filter) : Prop where
  rel : cells.participant.rel.getLast? = some pred.participant.rel
  numCol : cells.participant.numCol.getLast? = some pred.participant.numCol
  col : cells.participant.col.getLast? = some pred.participant.col
  rows : cells.participant.rows.getLast? = some pred.participant.rows
  op : cells.op.getLast? = some pred.op
  value : cells.value.getLast? = some pred.value

/-- `atoi` returns an `int`, and the value of a numeral that fits in one. -/
structure IsAtoi (atoi : List Char → Int) : Prop where
  reads : ReadsNumerals atoi
  isInt : ∀ text, - 2 ^ 31 ≤ atoi text ∧ atoi text < 2 ^ 31

end JoinOperator.QueryText

namespace JoinOperator.Executor

open Foundation QueryText

def rowIdsOf (head : HeadInter) (r : ColRel) : List Nat :=
  (((sourceOf head r).columnOf r.rel).map InterColumn.rowIds).getD []

def Compares (op : Op) (value target : Nat) : Prop :=
  match op with
  | .less => value < target
  | .greater => target < value
  | .equal => value = target

/-- The filter of a query text keeps the row ids whose value compares to the constant. -/
def KeepsCompared (relArr : List Relationsheep) (rels : List Nat) (name : ColumnName Nat)
    (op : Op) (constant : Numeral) (hq : HeadInter) : Prop :=
  ∀ atoi cells pred, IsAtoi atoi →
    fillFilterInfo atoi relArr (rels.map fun real => [real])
      (Predicate.filter (name.map Numeral.ofNat) op constant).text .unset = .ok cells →
    cells.Holds pred →
    ∃ after, workerF pred hq = .ok after ∧ (rowIdsOf after pred.participant).Nodup ∧
      ∀ rowId, rowId ∈ rowIdsOf after pred.participant ↔
        rowId ∈ rowIdsOf hq pred.participant ∧
          Compares op (pred.participant.col.getD rowId 0) (numeralValue constant.digits)

/-- A value on which no stored `int` and no greater constant is told apart. -/
def Unaffected (op : Op) (constant value : Nat) : Prop :=
  match op with
  | .less => value = 2 ^ 64 - 1
  | .greater => value = 0
  | .equal => value ≠ constant ∧ 2 ^ 31 ≤ value ∧ value < 2 ^ 64 - 2 ^ 31

section Rows

variable {relArr : List Relationsheep} {rels : List Nat} {conditions : List (Condition Nat)}
  {head : HeadInter}

theorem exists_column {data : Inter} {rel : Nat} (rectangular : data.Rectangular)
    (attrs : data.joinedRels = [rel]) : ∃ column, data.columnOf rel = some column ∧
      data.tuples = column.rowIds.map ([·]) := by
  rcases List.map_eq_singleton_iff.mp attrs with ⟨column, columns, isColumn⟩
  have length : column.rowIds.length = data.numbOfRows :=
    rectangular column (by rw [columns]; exact List.mem_cons_self)
  refine ⟨column, ?_, ?_⟩
  · rw [Inter.columnOf, columns]
    simp [isColumn]
  · rw [Inter.tuples, ← length]
    apply List.ext_getElem
    · simp
    · intro i inside inside'
      rw [List.length_map] at inside'
      simp [Inter.row, rowAt, columns, inside']

theorem mem_rowIdsOf (executed : Executed relArr rels (touchedBy conditions) conditions head)
    (onOne : OnOne conditions) {r : ColRel}
    (isParticipant : IsParticipant relArr rels r) : (rowIdsOf head r).Nodup ∧
      ∀ rowId, rowId ∈ rowIdsOf head r ↔ rowId < r.rows ∧
        ∀ c ∈ conditions, r.rel ∈ c.attrs → c.holds (fun _ => rowId) = true := by
  rw [rowIdsOf]
  cases found : findNode head r.rel with
  | none =>
      have rowIds : ((sourceOf head r).columnOf r.rel).map InterColumn.rowIds =
          some (List.range r.rows) := by
        rw [sourceOf_none found]
        simp [Inter.base, Inter.columnOf]
      rw [rowIds, Option.getD_some]
      refine ⟨List.nodup_range, fun rowId => ?_⟩
      rw [List.mem_range]
      refine ⟨fun below => ⟨below, fun c member isRel => ?_⟩, And.left⟩
      exact absurd ⟨c, member, isRel⟩ (executed.findNode_none found)
  | some node =>
      rcases findNode_some found with ⟨data, get, isRel⟩
      have isNode := List.mem_of_getElem? get
      have isPart : data.part ∈ head.nodes.map Inter.part := List.mem_map_of_mem isNode
      rcases executed.evaluates.single onOne isPart with ⟨rel, attrs, _⟩
      have complete := executed.evaluates.complete data.part isPart
      rw [show data.part.attrs = data.joinedRels from rfl] at attrs
      rw [attrs, List.mem_singleton] at isRel
      subst isRel
      rcases exists_column (executed.rectangular data isNode) attrs with
        ⟨column, isColumn, tuples⟩
      rw [sourceOf_some found get, isColumn, Option.map_some, Option.getD_some]
      have once := complete.once
      rw [Inter.part, tuples] at once
      refine ⟨List.Nodup.of_map _ once, fun rowId => ?_⟩
      have isTuple : rowId ∈ column.rowIds ↔ [rowId] ∈ data.part.tuples := by
        rw [Inter.part, tuples]
        simp
      rw [isTuple, complete.exact, show data.part.attrs = [r.rel] from attrs,
        isSolution_singleton onOne, isParticipant.rows]

theorem applyFilter_iff (value : Nat) (op : Op) (target : Nat) :
    applyFilter value op target = true ↔ Compares op value target := by
  cases op with
  | less => exact decide_eq_true_iff
  | greater => exact decide_eq_true_iff
  | equal => exact decide_eq_true_iff

theorem rowIdsOf_congr {r other : ColRel} (rel : other.rel = r.rel) (rows : other.rows = r.rows) :
    rowIdsOf head other = rowIdsOf head r := by
  rw [rowIdsOf, rowIdsOf, sourceOf, sourceOf, rel, rows]

theorem workerF_keeps (executed : Executed relArr rels (touchedBy conditions) conditions head)
    (onOne : OnOne conditions) {pred : Filter}
    (isParticipant : IsParticipant relArr rels pred.participant) :
    ∃ after, workerF pred head = .ok after ∧ (rowIdsOf after pred.participant).Nodup ∧
      ∀ rowId, rowId ∈ rowIdsOf after pred.participant ↔
        rowId ∈ rowIdsOf head pred.participant ∧
          Compares pred.op (pred.participant.col.getD rowId 0) pred.value := by
  rcases workerF_eq executed isParticipant with ⟨after, kept, equal⟩
  rw [if_pos (satisfying_fits executed onOne isParticipant _)] at equal
  have onOneAfter := onOne.append fun a => (filterCondition_attrs pred a).mp
  rcases mem_rowIdsOf kept onOneAfter isParticipant with ⟨nodup, isRowId⟩
  refine ⟨after, equal, nodup, fun rowId => ?_⟩
  rw [isRowId, (mem_rowIdsOf executed onOne isParticipant).2, and_assoc]
  apply and_congr_right
  intro _
  constructor
  · intro satisfied
    constructor
    · exact fun c member => satisfied c (List.mem_append_left _ member)
    · have passes := satisfied (filterCondition pred) (by simp) List.mem_cons_self
      exact (applyFilter_iff _ _ _).mp passes
  · rintro ⟨satisfied, compares⟩ c member isRel
    rcases List.mem_append.mp member with member | isNew
    · exact satisfied c member isRel
    · cases List.mem_singleton.mp isNew
      exact (applyFilter_iff _ _ _).mpr compares

end Rows

section Constants

variable {relArr : List Relationsheep} {rels : List Nat}

/-- A participant whose numbers fit in an `int`. -/
structure Nameable (relArr : List Relationsheep) (rels : List Nat) (participant : ColRel) :
    Prop extends IsParticipant relArr rels participant where
  fits : participant.rel < 2 ^ 31 ∧ participant.numCol < 2 ^ 31

def nameOf (participant : ColRel) : ColumnName Nat := ⟨participant.rel, participant.numCol⟩

theorem fillFilterInfo_holds {atoi : List Char → Int} (reads : ReadsNumerals atoi)
    {participant : ColRel} (nameable : Nameable relArr rels participant) (op : Op)
    (constant : Numeral) : ∃ cells,
      fillFilterInfo atoi relArr (rels.map fun real => [real])
        (Predicate.filter ((nameOf participant).map Numeral.ofNat) op constant).text .unset =
          .ok cells ∧
      ∀ pred, cells.Holds pred ↔ pred.participant.rel = participant.rel ∧
        pred.participant.numCol = participant.numCol ∧ pred.participant.col = participant.col ∧
        pred.participant.rows = participant.rows ∧ pred.op = op ∧
        pred.value = number atoi constant.digits := by
  rcases nameable.column with ⟨real, relation, isReal, isRelation, isColumn, rows⟩
  have valid : (nameOf participant).Valid relArr rels :=
    ⟨nameable.fits, real, relation, isReal, isRelation, (List.getElem?_eq_some_iff.mp isColumn).1⟩
  rcases fillParticipant_eq reads false valid with ⟨cells, filled, stored⟩
  rcases stored with ⟨real', relation', values, isReal', isRelation', isColumn', rfl⟩
  cases isReal.symm.trans isReal'
  cases isRelation.symm.trans isRelation'
  cases isColumn.symm.trans isColumn'
  rw [fillFilterInfo_text, filled, ok_bind]
  refine ⟨_, rfl, fun pred => ?_⟩
  constructor
  · intro holds
    have rel := holds.rel
    have numCol := holds.numCol
    have col := holds.col
    have rowsHeld := holds.rows
    have isOp := holds.op
    have value := holds.value
    simp only [List.getLast?_singleton, Option.some.injEq] at rel numCol col rowsHeld isOp value
    exact ⟨rel.symm, numCol.symm, col.symm, rows ▸ rowsHeld.symm, isOp.symm, value.symm⟩
  · rintro ⟨rel, numCol, col, rowsHeld, isOp, value⟩
    constructor
    · rw [rel]; rfl
    · rw [numCol]; rfl
    · rw [col]; rfl
    · rw [rowsHeld, rows]; rfl
    · rw [isOp]; rfl
    · rw [value]; rfl

theorem keepsCompared_iff_number {conditions : List (Condition Nat)} {hq : HeadInter}
    (executed : Executed relArr rels (touchedBy conditions) conditions hq)
    (onOne : OnOne conditions) {participant : ColRel}
    (nameable : Nameable relArr rels participant) (op : Op) (constant : Numeral) :
    KeepsCompared relArr rels (nameOf participant) op constant hq ↔
      ∀ atoi, IsAtoi atoi → ∀ rowId ∈ rowIdsOf hq participant,
        (Compares op (participant.col.getD rowId 0) (number atoi constant.digits) ↔
          Compares op (participant.col.getD rowId 0) (numeralValue constant.digits)) := by
  constructor
  · intro keeps atoi isAtoi rowId member
    rcases fillFilterInfo_holds isAtoi.reads nameable op constant with ⟨cells, filled, holds⟩
    let pred : Filter := ⟨participant, op, number atoi constant.digits⟩
    have held : cells.Holds pred := (holds pred).mpr ⟨rfl, rfl, rfl, rfl, rfl, rfl⟩
    rcases keeps atoi cells pred isAtoi filled held with ⟨after, ran, _, compared⟩
    rcases workerF_keeps executed onOne (show IsParticipant relArr rels pred.participant from
      nameable.toIsParticipant) with ⟨after', ran', _, kept⟩
    cases ran.symm.trans ran'
    have both := (kept rowId).symm.trans (compared rowId)
    constructor
    · exact fun compares => (both.mp ⟨member, compares⟩).2
    · exact fun compares => (both.mpr ⟨member, compares⟩).2
  · intro alike atoi cells pred isAtoi filled held
    rcases fillFilterInfo_holds isAtoi.reads nameable op constant with ⟨cells', filled', holds⟩
    cases filled.symm.trans filled'
    rcases (holds pred).mp held with ⟨rel, numCol, col, rows, isOp, value⟩
    have isParticipant : IsParticipant relArr rels pred.participant := by
      constructor
      rw [rel, numCol, col, rows]
      exact nameable.column
    rcases workerF_keeps executed onOne isParticipant with ⟨after, ran, nodup, kept⟩
    refine ⟨after, ran, nodup, fun rowId => ?_⟩
    rw [kept, isOp, value, col]
    apply and_congr_right
    intro member
    exact alike atoi isAtoi rowId (rowIdsOf_congr rel rows ▸ member)

/-- An `atoi` that returns a given number for what does not fit. -/
def overflowAtoi (beyond : Int) (text : List Char) : Int :=
  if numeralValue text < 2 ^ 31 then numeralValue text else beyond

theorem isAtoi_overflowAtoi {beyond : Int} (lower : - 2 ^ 31 ≤ beyond) (upper : beyond < 2 ^ 31) :
    IsAtoi (overflowAtoi beyond) where
  reads := fun written fits => if_pos fits
  isInt := by
    intro text
    rw [overflowAtoi]
    split
    · omega
    · exact ⟨lower, upper⟩

theorem number_overflowAtoi {beyond : Int} {constant : Numeral}
    (large : ¬ numeralValue constant.digits < 2 ^ 31) :
    number (overflowAtoi beyond) constant.digits = (beyond % 2 ^ 64).toNat := by
  rw [number, overflowAtoi, if_neg large]

theorem compares_alike_iff {op : Op} {constant : Numeral} {value : Nat} (word : value < 2 ^ 64)
    (isWord : numeralValue constant.digits < 2 ^ 64)
    (large : ¬ numeralValue constant.digits < 2 ^ 31) :
    (∀ atoi, IsAtoi atoi → (Compares op value (number atoi constant.digits) ↔
      Compares op value (numeralValue constant.digits))) ↔
      Unaffected op (numeralValue constant.digits) value := by
  constructor
  · intro alike
    have stored : ∀ beyond : Int, - 2 ^ 31 ≤ beyond → beyond < 2 ^ 31 →
        (Compares op value (beyond % 2 ^ 64).toNat ↔
          Compares op value (numeralValue constant.digits)) := by
      intro beyond lower upper
      rw [← number_overflowAtoi large]
      exact alike _ (isAtoi_overflowAtoi lower upper)
    have atZero := stored 0 (by decide) (by decide)
    have atLast := stored (-1) (by decide) (by decide)
    cases op with
    | less =>
        simp only [Compares, Unaffected] at atZero atLast ⊢
        omega
    | greater =>
        simp only [Compares, Unaffected] at atZero atLast ⊢
        omega
    | equal =>
        have atValue := stored value
        have atNegative := stored (value - 2 ^ 64)
        simp only [Compares, Unaffected] at atZero atValue atNegative ⊢
        omega
  · intro unaffected atoi isAtoi
    have isInt := isAtoi.isInt constant.digits
    rw [number]
    cases op with
    | less =>
        simp only [Compares, Unaffected] at unaffected ⊢
        omega
    | greater =>
        simp only [Compares, Unaffected] at unaffected ⊢
        omega
    | equal =>
        simp only [Compares, Unaffected] at unaffected ⊢
        omega

/-- A constant is honoured exactly when it fits in an `int`, or when it does not matter for
the values that are left. -/
theorem keepsCompared_iff {filters : List Filter} {hq : HeadInter}
    (areFilters : ∀ pred ∈ filters, IsParticipant relArr rels pred.participant)
    (ran : runFilters filters initialiseHead = .ok hq) {participant : ColRel}
    (nameable : Nameable relArr rels participant)
    (words : ∀ value ∈ participant.col, value < 2 ^ 64) (op : Op) (constant : Numeral)
    (isWord : numeralValue constant.digits < 2 ^ 64) :
    KeepsCompared relArr rels (nameOf participant) op constant hq ↔
      numeralValue constant.digits < 2 ^ 31 ∨
        ∀ rowId ∈ rowIdsOf hq participant,
          Unaffected op (numeralValue constant.digits) (participant.col.getD rowId 0) := by
  rcases runFilters_initialiseHead areFilters with ⟨hq', ran', executed⟩
  cases ran.symm.trans ran'
  have onOne : OnOne (filters.map filterCondition) := by
    intro c member a isA b isB
    rcases List.mem_map.mp member with ⟨pred, _, rfl⟩
    rw [(filterCondition_attrs pred a).mp isA, (filterCondition_attrs pred b).mp isB]
  rw [keepsCompared_iff_number executed onOne nameable]
  by_cases fits : numeralValue constant.digits < 2 ^ 31
  · refine iff_of_true (fun atoi isAtoi rowId _ => ?_) (.inl fits)
    rw [isAtoi.reads.number fits]
  · have word : ∀ rowId, participant.col.getD rowId 0 < 2 ^ 64 := by
      intro rowId
      by_cases inside : rowId < participant.col.length
      · rw [List.getD_eq_getElem _ _ inside]
        exact words _ (List.getElem_mem inside)
      · rw [List.getD_eq_default _ _ (Nat.le_of_not_lt inside)]
        decide
    rw [or_iff_right fits]
    constructor
    · intro alike rowId member
      exact (compares_alike_iff (word rowId) isWord fits).mp fun atoi isAtoi =>
        alike atoi isAtoi rowId member
    · intro unaffected atoi isAtoi rowId member
      exact (compares_alike_iff (word rowId) isWord fits).mpr (unaffected rowId member) atoi isAtoi

end Constants

theorem five_rectangular : ∀ col ∈ [[5]], col.length = 1 := by
  decide

def fiveTable : List Relationsheep := [⟨1, [[5]], [], five_rectangular⟩]

def fiveColumn : ColRel := ⟨0, 0, 0, 0, [5], 1⟩

theorem nameable_fiveColumn : Nameable fiveTable [0] fiveColumn :=
  ⟨⟨0, _, rfl, rfl, rfl, rfl⟩, by decide⟩

theorem keepsCompared_iff_fiveColumn :
    KeepsCompared fiveTable [0] (nameOf fiveColumn) .less (Numeral.ofNat 9) initialiseHead := by
  have isNine : numeralValue (Numeral.ofNat 9).digits = 9 := numeralValue_numeral 9
  refine (keepsCompared_iff (show ∀ pred ∈ [], IsParticipant fiveTable [0] (Filter.participant pred)
    by simp) rfl nameable_fiveColumn (by decide) .less (Numeral.ofNat 9) ?_).mpr (.inl ?_)
  · rw [isNine]
    decide
  · rw [isNine]
    decide

theorem toInt_bounds (value : Nat) : - 2 ^ 31 ≤ toInt value ∧ toInt value < 2 ^ 31 := by
  have bounds : ∀ m : Nat, m = 2 ^ 32 →
      - 2 ^ 31 ≤ (Int.ofNat value).bmod m ∧ (Int.ofNat value).bmod m < 2 ^ 31 := by
    intro m isWidth
    have positive : 0 < m := by omega
    have lower := Int.le_bmod (x := Int.ofNat value) positive
    have upper := Int.bmod_lt (x := Int.ofNat value) positive
    omega
  exact bounds _ rfl

theorem isAtoi_longAtoi : IsAtoi longAtoi where
  reads := longAtoi_readsNumerals
  isInt := fun _ => toInt_bounds _

/-- `4294967301`, which is `2 ^ 32 + 5`. -/
def beyondInt : Numeral := Numeral.ofNat 4294967301

/-- The filter `0.0=4294967301` keeps a row whose value is 5. -/
theorem keepsCompared_beyondInt :
    ¬ KeepsCompared fiveTable [0] (nameOf fiveColumn) .equal beyondInt initialiseHead := by
  intro keeps
  rcases fillFilterInfo_holds longAtoi_readsNumerals nameable_fiveColumn .equal beyondInt with
    ⟨cells, filled, holds⟩
  have isFive : number longAtoi beyondInt.digits = 5 := by
    rw [number, longAtoi_digits, beyondInt, Numeral.ofNat, numeralValue_numeral]
    decide
  have held : cells.Holds ⟨fiveColumn, .equal, 5⟩ :=
    (holds _).mpr ⟨rfl, rfl, rfl, rfl, rfl, isFive.symm⟩
  rcases keeps longAtoi cells _ isAtoi_longAtoi filled held with ⟨after, ran, _, kept⟩
  cases ran
  have compares := ((kept 0).mp (by decide)).2
  rw [beyondInt, Numeral.ofNat, numeralValue_numeral] at compares
  cases compares

end JoinOperator.Executor
