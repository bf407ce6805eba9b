import JoinOperator.Foundation.Cursor
import JoinOperator.Foundation.Loop
import JoinOperator.QueryStructs
import Mathlib.Algebra.Ring.Int.Defs

/-! # Construction of a query from its text

A text is the list of its characters without the terminator. A variable of the
new query is the list of the values stored in it, the last of which is the one
that is read. `atoi` is a parameter; its result is converted to a number of 64
bits wherever it is stored, and a negative index is out of range either way.
-/

namespace JoinOperator.QueryText

open Foundation

/-- How `ConstructQuery` fails: by a store behind an array, by a read that is
out of range or of a variable that is not set, or by returning `NULL`. -/
inductive Fault where
  | storePastEnd
  | invalidRead
  | wrongFormat
  deriving DecidableEq, Repr

def require {α : Type} : Option α → Except Fault α
  | some value => .ok value
  | none => .error .invalidRead

def load {α : Type} (cell : List α) : Except Fault α := require cell.getLast?

def modifyAt {α : Type} (array : List α) (index : Nat) (change : α → Except Fault α) :
    Except Fault (List α) :=
  match array[index]? with
  | some element => do
      let after ← change element
      .ok (array.set index after)
  | none => .error .storePastEnd

structure ColRelCells where
  realRel : List Nat
  realCol : List Nat
  rel : List Nat
  numCol : List Nat
  col : List (List Nat)
  rows : List Nat
  deriving DecidableEq, Repr

def ColRelCells.unset : ColRelCells := ⟨[], [], [], [], [], []⟩

structure FilterCells where
  participant : ColRelCells
  op : List Op
  value : List Nat
  deriving DecidableEq, Repr

def FilterCells.unset : FilterCells := ⟨.unset, [], []⟩

structure JoinCells where
  participant1 : ColRelCells
  participant2 : ColRelCells
  deriving DecidableEq, Repr

def JoinCells.unset : JoinCells := ⟨.unset, .unset⟩

def subStrOccur (str subStr : List Char) : Nat := str.tails.countP (subStr.isPrefixOf ·)

def strstr (str subStr : List Char) : Bool := str.tails.any (subStr.isPrefixOf ·)

section Fill

variable (atoi : List Char → Int) (relArr : List Relationsheep) (rels : List (List Nat))

/-- The value of `atoi`, as a number of type `myint_t`. -/
def number (part : List Char) : Nat := (atoi part % 2 ^ 64).toNat

def relationOf (rel : Nat) : Except Fault (Nat × Relationsheep) := do
  let cell ← require rels[rel]?
  let real ← load cell
  let relation ← require relArr[real]?
  .ok (real, relation)

/-- Stores the relation of a participant, for a join also the base relation. -/
def fillRel (isJoin : Bool) (participant : ColRelCells) (part : List Char) :
    Except Fault ColRelCells := do
  let rel := number atoi part
  let (real, relation) ← relationOf relArr rels rel
  .ok { participant with
    rel := participant.rel ++ [rel]
    realRel := if isJoin then participant.realRel ++ [real] else participant.realRel
    rows := participant.rows ++ [relation.rows] }

def fillCol (isJoin : Bool) (participant : ColRelCells) (part : List Char) :
    Except Fault ColRelCells := do
  let indexRel ← load participant.rel
  let (_, relation) ← relationOf relArr rels indexRel
  let values ← require relation.pointToCols[number atoi part]?
  .ok { participant with
    realCol := if isJoin then participant.realCol ++ [number atoi part] else participant.realCol
    col := participant.col ++ [values]
    numCol := participant.numCol ++ [number atoi part] }

/-- The loop of `fillJoinInfo`; `mark` is `end`. -/
structure JoinScan where
  mark : Nat
  dots : Nat
  join : JoinCells

def joinStep (tempStr : List Char) (state : JoinScan) (i : Nat) (c : Char) :
    Except Fault JoinScan :=
  if c = '.' then
    if state.dots + 1 = 1 then do
      let participant ← fillRel atoi relArr rels true state.join.participant1
        (cut tempStr state.mark i)
      .ok ⟨i + 1, state.dots + 1, { state.join with participant1 := participant }⟩
    else do
      let participant ← fillRel atoi relArr rels true state.join.participant2
        (cut tempStr state.mark i)
      .ok ⟨i + 1, state.dots + 1, { state.join with participant2 := participant }⟩
  else if c = '=' then do
    let participant ← fillCol atoi relArr rels true state.join.participant1
      (cut tempStr state.mark i)
    .ok ⟨i + 1, state.dots, { state.join with participant1 := participant }⟩
  else .ok state

def fillJoinInfo (tempStr : List Char) (join : JoinCells) : Except Fault JoinCells := do
  let state ← scan (joinStep atoi relArr rels tempStr) 0 ⟨0, 0, join⟩ tempStr
  let participant ← fillCol atoi relArr rels true state.join.participant2
    (cut tempStr state.mark tempStr.length)
  .ok { state.join with participant2 := participant }

structure FilterScan where
  mark : Nat
  filter : FilterCells

def opOf (c : Char) : Op := if c = '=' then .equal else if c = '>' then .greater else .less

def filterStep (tempStr : List Char) (state : FilterScan) (i : Nat) (c : Char) :
    Except Fault FilterScan :=
  if c = '.' then do
    let participant ← fillRel atoi relArr rels false state.filter.participant
      (cut tempStr state.mark i)
    .ok ⟨i + 1, { state.filter with participant }⟩
  else if c = '=' ∨ c = '>' ∨ c = '<' then do
    let participant ← fillCol atoi relArr rels false state.filter.participant
      (cut tempStr state.mark i)
    .ok ⟨i + 1, { state.filter with participant, op := state.filter.op ++ [opOf c] }⟩
  else .ok state

def fillFilterInfo (tempStr : List Char) (filter : FilterCells) : Except Fault FilterCells := do
  let state ← scan (filterStep atoi relArr rels tempStr) 0 ⟨0, filter⟩ tempStr
  .ok { state.filter with
    value := state.filter.value ++ [number atoi (cut tempStr state.mark tempStr.length)] }

def fillSum (sum : ColRelCells) (part : List Char) : Except Fault ColRelCells := do
  let indexRel ← load sum.rel
  let (_, relation) ← relationOf relArr rels indexRel
  let values ← require relation.pointToCols[number atoi part]?
  .ok { sum with
    col := sum.col ++ [values]
    numCol := sum.numCol ++ [number atoi part]
    rows := sum.rows ++ [relation.rows] }

end Fill

structure Counts where
  rels : Nat
  joins : Nat
  sums : Nat
  filters : Nat
  deriving DecidableEq, Repr

/-- The state of the loop of `ConstructQuery`; `mark` is `end`. -/
structure Construction where
  mark : Nat
  slice : Nat
  counterRels : Nat
  counterSums : Nat
  counterFilters : Nat
  counterJoins : Nat
  rels : List (List Nat)
  filters : List FilterCells
  joins : List JoinCells
  sums : List ColRelCells

def Construction.allocate (counts : Counts) : Construction where
  mark := 0
  slice := 0
  counterRels := 0
  counterSums := 0
  counterFilters := 0
  counterJoins := 0
  rels := List.replicate counts.rels []
  filters := List.replicate counts.filters .unset
  joins := List.replicate counts.joins .unset
  sums := List.replicate counts.sums .unset

structure ConstructedQuery where
  rels : List (List Nat)
  queryStats : List (List Stats)
  filters : List FilterCells
  joins : List JoinCells
  sums : List ColRelCells
  priorities : List Nat
  deriving DecidableEq, Repr

section Construct

variable (atoi : List Char → Int) (relArr : List Relationsheep)

def addRel (state : Construction) (part : List Char) : Except Fault Construction := do
  let rels ← modifyAt state.rels state.counterRels fun cell => .ok (cell ++ [number atoi part])
  .ok { state with rels, counterRels := state.counterRels + 1 }

def addFilter (state : Construction) (part : List Char) : Except Fault Construction := do
  let filters ← modifyAt state.filters state.counterFilters
    (fillFilterInfo atoi relArr state.rels part)
  .ok { state with filters, counterFilters := state.counterFilters + 1 }

def addJoin (state : Construction) (part : List Char) : Except Fault Construction := do
  let joins ← modifyAt state.joins state.counterJoins
    (fillJoinInfo atoi relArr state.rels part)
  .ok { state with joins, counterJoins := state.counterJoins + 1 }

def addPredicate (state : Construction) (part : List Char) : Except Fault Construction :=
  if strstr part ['='] then
    if subStrOccur part ['.'] = 1 then addFilter atoi relArr state part
    else if subStrOccur part ['.'] = 2 then addJoin atoi relArr state part
    else .error .wrongFormat
  else if strstr part ['>'] then addFilter atoi relArr state part
  else if strstr part ['<'] then addFilter atoi relArr state part
  else .error .wrongFormat

def addSumRel (state : Construction) (part : List Char) : Except Fault Construction := do
  let sums ← modifyAt state.sums state.counterSums fun sum =>
    .ok { sum with rel := sum.rel ++ [number atoi part] }
  .ok { state with sums }

def addSumCol (state : Construction) (part : List Char) : Except Fault Construction := do
  let sums ← modifyAt state.sums state.counterSums (fillSum atoi relArr state.rels · part)
  .ok { state with sums, counterSums := state.counterSums + 1 }

def constructStep (queryStr : List Char) (state : Construction) (i : Nat) (c : Char) :
    Except Fault Construction :=
  let part := cut queryStr state.mark i
  match state.slice with
  | 0 =>
      if c = ' ' then addRel atoi { state with mark := i + 1 } part
      else if c = '|' then addRel atoi { state with mark := i + 1, slice := 1 } part
      else .ok state
  | 1 =>
      if c = '&' then addPredicate atoi relArr { state with mark := i + 1 } part
      else if c = '|' then addPredicate atoi relArr { state with mark := i + 1, slice := 2 } part
      else .ok state
  | 2 =>
      if c = ' ' then addSumCol atoi relArr { state with mark := i + 1 } part
      else if c = '.' then addSumRel atoi { state with mark := i + 1 } part
      else .ok state
  | _ => .error .wrongFormat

def constructParts (queryStr : List Char) (counts : Counts) : Except Fault Construction := do
  let state ← scan (constructStep atoi relArr queryStr) 0 (.allocate counts) queryStr
  addSumCol atoi relArr state (cut queryStr state.mark queryStr.length)

def copyStats (rels : List (List Nat)) (rel : Nat) : Except Fault (List Stats) := do
  let (_, relation) ← relationOf relArr rels rel
  (List.range relation.cols).mapM fun c => require relation.statsArray[c]?

def constructQuery (queryStr : List Char) (counts : Counts) :
    Except Fault ConstructedQuery := do
  let state ← constructParts atoi relArr queryStr counts
  let queryStats ← (List.range counts.rels).mapM (copyStats relArr state.rels)
  .ok ⟨state.rels, queryStats, state.filters, state.joins, state.sums,
    List.replicate counts.joins (2 ^ 64 - 1)⟩

end Construct

end JoinOperator.QueryText
