import JoinOperator.Executor.InterList
import JoinOperator.RadixJoin.JoinHistory

/-! # Filters and joins on the intermediates

An array into which row ids are collected has a capacity, and writing past it is
the fault `scratch`. The radix hash join is a parameter, for which `Joiner` says
what a call that returns has done.
-/

namespace JoinOperator.Executor

open RadixJoin

inductive Fault where
  | scratch
  | memory
  | join
  deriving DecidableEq, Repr

def orFault {α : Type} (fault : Fault) : Option α → Except Fault α
  | some value => .ok value
  | none => .error fault

@[simp] theorem orFault_some {α : Type} (fault : Fault) (value : α) :
    orFault fault (some value) = .ok value := rfl

@[simp] theorem orFault_none {α : Type} (fault : Fault) :
    orFault fault (none : Option α) = .error fault := rfl

/-- The capacity is checked by nothing in the program. -/
def pushScratch (capacity : Nat) (temp : List Nat) (i : Nat) : Except Fault (List Nat) :=
  if temp.length < capacity then .ok (temp ++ [i]) else .error .scratch

def collect (capacity limit : Nat) (test : Nat → Option Bool) : Except Fault (List Nat) :=
  (List.range limit).foldlM (fun temp i => do
    let passes ← orFault .memory (test i)
    if passes then pushScratch capacity temp i else .ok temp) []

def applyFilter (value : Nat) (op : Op) (target : Nat) : Bool :=
  match op with
  | .less => value < target
  | .greater => value > target
  | .equal => value = target

def workerF (pred : Filter) (hq : HeadInter) : Except Fault HeadInter := do
  let r := pred.participant
  match findNode hq r.rel with
  | some node => do
      let data ← orFault .memory hq.nodes[node]?
      let column ← orFault .memory (data.columnOf r.rel)
      let temp ← collect r.rows data.numbOfRows fun i => do
        let rowId ← column.rowIds[i]?
        let value ← r.col[rowId]?
        some (applyFilter value pred.op pred.value)
      orFault .memory (updateInterSelfJoin hq node temp)
  | none => do
      let temp ← collect r.rows r.rows fun i => do
        let value ← r.col[i]?
        some (applyFilter value pred.op pred.value)
      orFault .memory (createInterSelfJoin hq r.rel temp)

def performSelfJoin (valids : Option Inter) (pred : Join) : Except Fault (List Nat) :=
  let r1 := pred.participant1
  let col2 := pred.participant2.col
  match valids with
  | some data => do
      let column ← orFault .memory (data.columnOf r1.rel)
      collect r1.rows data.numbOfRows fun i => do
        let j ← column.rowIds[i]?
        let value1 ← r1.col[j]?
        let value2 ← col2[j]?
        some (value1 = value2)
  | none =>
      collect r1.rows r1.rows fun i => do
        let value1 ← r1.col[i]?
        let value2 ← col2[i]?
        some (value1 = value2)

def performSameNodeJoin (data : Inter) (pred : Join) : Except Fault (List Nat) := do
  let r1 := pred.participant1
  let r2 := pred.participant2
  let column1 ← orFault .memory (data.columnOf r1.rel)
  let column2 ← orFault .memory (data.columnOf r2.rel)
  collect data.numbOfRows data.numbOfRows fun i => do
    let rowId1 ← column1.rowIds[i]?
    let rowId2 ← column2.rowIds[i]?
    let value1 ← r1.col[rowId1]?
    let value2 ← r2.col[rowId2]?
    some (value1 = value2)

/-- A relation that is forged for the radix hash join, of any size. -/
structure Forged where
  tuples : List Tuple
  realRel : Nat
  realCol : Nat
  deriving DecidableEq, Repr

/-- The tuples of the rows of an intermediate, or of all rows of a column. -/
def forgeRelationsheep (hi : HeadInter) (r : ColRel) : Option Forged := do
  let tuples ← match findNode hi r.rel with
    | none => (List.range r.rows).mapM fun i => do
        let key ← r.col[i]?
        some (⟨key, i⟩ : Tuple)
    | some node => do
        let data ← hi.nodes[node]?
        let column ← data.columnOf r.rel
        (List.range data.numbOfRows).mapM fun i => do
          let rowId ← column.rowIds[i]?
          let key ← r.col[rowId]?
          some (⟨key, i⟩ : Tuple)
  some ⟨tuples, r.realRel, r.realCol⟩

def Forged.IsBase (relArr : List Relationsheep) (forged : Forged) : Prop :=
  wholeColumn relArr forged.realRel forged.realCol = some forged.tuples

/-- What `*switched` tells `radixHashJoin` about its relations. -/
inductive RadixCall (relArr : List Relationsheep) : Forged → Forged → Nat → Prop
  | columns {r s : Forged} (isBase : r.IsBase relArr) (isBase' : s.IsBase relArr) :
      RadixCall relArr r s 0
  | mixed (r : Forged) {s : Forged} (isBase : s.IsBase relArr) : RadixCall relArr r s 1
  | intermediates (r s : Forged) : RadixCall relArr r s 2

/-- Every pair of tuples with equal keys is one of the results, once. -/
structure Joined (r s : List Tuple) (switched : Nat) (results : HeadResult) : Prop where
  eitherWay : switched = 0 ∨ switched = 1
  finished : results.Finished
  rows : (results.nodes.flatten.map (unswitch switched)).Perm (joinRows r s)

/-- A radix hash join, with what it keeps from one call to the next. -/
structure Joiner (relArr : List Relationsheep) (State : Type) where
  radixHashJoin : State → Forged → Forged → Nat → Option (HeadResult × Nat × State)
  Valid : State → Prop
  joined : ∀ {state r s switched results after next}, Valid state →
    RadixCall relArr r s switched →
    radixHashJoin state r s switched = some (results, after, next) →
    Joined r.tuples s.tuples after results ∧ Valid next

def Joiner.Returns {relArr : List Relationsheep} {State : Type}
    (joiner : Joiner relArr State) : Prop :=
  ∀ state r s switched, joiner.Valid state → RadixCall relArr r s switched →
    ∃ results after next,
      joiner.radixHashJoin state r s switched = some (results, after, next)

/-- The rows of the results, with the row of the first relation first. All cells of the
arrays are set. -/
def createResultArray (results : HeadResult) (switched : Nat) : Option (List (Nat × Nat)) :=
  let rows := (results.nodes.take results.numbOfNodes).flatten
  if results.numbOfNodes ≤ results.nodes.length ∧ rows.length = results.totalSize then
    some (rows.map fun row =>
      if switched = 0 then (row.rowR, row.rowS) else (row.rowS, row.rowR))
  else none

def createInterFromRes (head : HeadInter) (results : HeadResult) (rel1 rel2 switched : Nat) :
    Option HeadInter := do
  let rows ← createResultArray results switched
  pushInter head
    ⟨results.totalSize, [⟨rel1, rows.map Prod.fst⟩, ⟨rel2, rows.map Prod.snd⟩]⟩

def updateInterFromRes (head : HeadInter) (node : Nat) (results : HeadResult)
    (addedRel switched : Nat) : Option HeadInter := do
  let rows ← createResultArray results switched
  let data ← head.nodes[node]?
  let columns ← data.atRows (rows.map Prod.fst)
  some (updateInter head node
    ⟨results.totalSize, columns ++ [⟨addedRel, rows.map Prod.snd⟩]⟩)

/-- A node that is not found is not unlinked. -/
def deleteInterNode (head : HeadInter) (node : Nat) : HeadInter where
  numOfIntermediates := wrapSub head.numOfIntermediates 1
  nodes := if node < head.numOfIntermediates then head.nodes.eraseIdx node else head.nodes

def updateInterAndDelete (head : HeadInter) (node1 node2 : Nat) (results : HeadResult)
    (switched : Nat) : Option HeadInter := do
  let rows ← createResultArray results switched
  let data1 ← head.nodes[node1]?
  let data2 ← head.nodes[node2]?
  let columns1 ← data1.atRows (rows.map Prod.fst)
  let columns2 ← data2.atRows (rows.map Prod.snd)
  some (deleteInterNode (updateInter head node1 ⟨results.totalSize, columns1 ++ columns2⟩) node2)

section Joins

variable {relArr : List Relationsheep} {State : Type} (joiner : Joiner relArr State)

/-- The results, with `*switched` and the state on return. A relation without a node goes
second. -/
def performRHJ (hi : HeadInter) (r1 r2 : ColRel) (switched : Nat) (state : State) :
    Except Fault (HeadResult × Nat × State) := do
  let relation1 ← orFault .memory (forgeRelationsheep hi r1)
  let relation2 ← orFault .memory (forgeRelationsheep hi r2)
  let new1 := (findNode hi r1.rel).isNone
  let new2 := (findNode hi r2.rel).isNone
  if new1 ∧ ¬ new2 then
    orFault .join (joiner.radixHashJoin state relation2 relation1 1)
  else if ¬ new1 ∧ new2 then
    orFault .join (joiner.radixHashJoin state relation1 relation2 1)
  else orFault .join (joiner.radixHashJoin state relation1 relation2 switched)

def selfJoin (pred : Join) (hq : HeadInter) : Except Fault HeadInter := do
  let rel1 := pred.participant1.rel
  match findNode hq rel1 with
  | none => do
      let survivors ← performSelfJoin none pred
      orFault .memory (createInterSelfJoin hq rel1 survivors)
  | some node => do
      let data ← orFault .memory hq.nodes[node]?
      let survivors ← performSelfJoin (some data) pred
      orFault .memory (updateInterSelfJoin hq node survivors)

def joinRelations (pred : Join) (hq : HeadInter) (state : State) :
    Except Fault (HeadInter × State) := do
  let r1 := pred.participant1
  let r2 := pred.participant2
  match findNode hq r1.rel, findNode hq r2.rel with
  | none, none => do
      let (results, switched, next) ← performRHJ joiner hq r1 r2 0 state
      let after ← orFault .memory (createInterFromRes hq results r1.rel r2.rel switched)
      .ok (after, next)
  | none, some n2 => do
      let (results, switched, next) ← performRHJ joiner hq r1 r2 1 state
      let after ← orFault .memory (updateInterFromRes hq n2 results r1.rel switched)
      .ok (after, next)
  | some n1, none => do
      let (results, switched, next) ← performRHJ joiner hq r1 r2 1 state
      let after ← orFault .memory (updateInterFromRes hq n1 results r2.rel switched)
      .ok (after, next)
  | some n1, some n2 =>
      if n1 = n2 then do
        let data ← orFault .memory hq.nodes[n1]?
        let survivors ← performSameNodeJoin data pred
        let after ← orFault .memory (updateInterSelfJoin hq n1 survivors)
        .ok (after, state)
      else do
        let (results, switched, next) ← performRHJ joiner hq r1 r2 2 state
        let after ← orFault .memory (updateInterAndDelete hq n1 n2 results switched)
        .ok (after, next)

def workerJ (pred : Join) (hq : HeadInter) (state : State) :
    Except Fault (HeadInter × State) :=
  if pred.participant1.rel = pred.participant2.rel then do
    let after ← selfJoin pred hq
    .ok (after, state)
  else joinRelations joiner pred hq state

def runFilters (filters : List Filter) (hq : HeadInter) : Except Fault HeadInter :=
  filters.foldlM (fun hq pred => workerF pred hq) hq

def runJoins : List Join → HeadInter → State → Except Fault (HeadInter × State)
  | [], hq, state => .ok (hq, state)
  | pred :: rest, hq, state => do
      let (after, next) ← workerJ joiner pred hq state
      runJoins rest after next

def runQuery (filters : List Filter) (joins : List Join) (state : State) :
    Except Fault (HeadInter × State) := do
  let hq ← runFilters filters initialiseHead
  runJoins joiner joins hq state

end Joins

end JoinOperator.Executor
