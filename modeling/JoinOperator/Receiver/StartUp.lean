import JoinOperator.InputFiles.BinaryTables
import JoinOperator.InputFiles.InputList
import JoinOperator.Receiver.Sessions

/-! # The start of the program

The names of the files come before the batches, with `Done` on the line behind them. The tables
are loaded once, and all batches are answered on them.
-/

namespace JoinOperator.Receiver

open Foundation RadixJoin QueryText Planner Executor InputFiles
open PipeIO (Message Read maxBuffer readFromPipe shownText shownText_of_lt)

inductive StartFault where
  | input (fault : PipeIO.Fault)
  | tables (fault : InputFiles.Fault)

/-- What `main` does before the first batch. -/
def startUp (files : List Char → Option (List UInt8)) (reads : List Read) :
    Except StartFault (List Relationsheep) := do
  let inputStr ← (readFromPipe ['D', 'o', 'n', 'e'] reads).mapError .input
  (fillRelArray files (constructInput inputStr)).mapError .tables

def IsFileOf (files : List Char → Option (List UInt8)) (filename : List Char)
    (relation : Relationsheep) : Prop :=
  ∃ inputFile, files filename = some inputFile ∧
    tableBytes relation.rows relation.pointToCols <+: inputFile

section Tables

variable {relArr : List Relationsheep}

theorem areTables_of_stored (stored : ∀ relation ∈ relArr, IsStored relation)
    (columns : ∀ relation ∈ relArr, 0 < relation.cols) : AreTables relArr where
  loaded := fun relation member => (stored relation member).stats.length_eq.symm
  columns := columns
  occupied := by
    intro relation member
    rcases List.exists_mem_of_length_pos (columns relation member) with ⟨col, isCol⟩
    have isStored := stored relation member
    have some := (exists_stats isStored.fits.words relation.rectangular).mp
      ⟨_, isStored.stats⟩ col isCol
    rw [← relation.rectangular col isCol]
    exact List.length_pos_of_ne_nil some.1
  words := by
    intro relation member s isStats
    have isStored := stored relation member
    rcases exists_of_mem_forall₂ isStored.stats isStats with ⟨col, isCol, filled⟩
    rw [← relation.rectangular col isCol] at filled
    exact distinctArray_ne_nil (isStored.fits.words col isCol) filled

theorem fillRelArray_eq {files : List Char → Option (List UInt8)} {input : List (List Char)}
    (isFiles : List.Forall₂ (IsFileOf files) input relArr)
    (stored : ∀ relation ∈ relArr, IsStored relation) : fillRelArray files input = .ok relArr := by
  induction isFiles with
  | nil => rfl
  | @cons filename relation input relArr isFile _ induction =>
      rcases isFile with ⟨inputFile, opened, bytes⟩
      have filled : fillRel inputFile = .ok relation :=
        fillRel_eq_ok.mpr ⟨stored relation List.mem_cons_self, bytes⟩
      have others := induction fun other member => stored other (List.mem_cons_of_mem _ member)
      rw [fillRelArray] at others ⊢
      rw [List.mapM_cons, others]
      simp only [opened, filled, ok_bind]
      rfl

end Tables

/-- The message with the names. -/
structure NamesMessage extends Message where
  isDone : stopWord = ['D', 'o', 'n', 'e']
  passed : ∀ line ∈ lines, ¬ line <+: stopWord
  clean : ∀ line ∈ lines, '\x00' ∉ line

theorem startUp_eq {files : List Char → Option (List UInt8)} {names : NamesMessage}
    {read : Read} (delivered : read.bytes = names.stream) {relArr : List Relationsheep}
    (isFiles : List.Forall₂ (IsFileOf files) names.lines relArr)
    (stored : ∀ relation ∈ relArr, IsStored relation) : startUp files [read] = .ok relArr := by
  have received := Message.readFromPipe_whole delivered names.clean names.passed
  rw [names.isDone] at received
  have listed : constructInput names.body = names.lines :=
    constructInput_lines fun line member => (names.areLines line member).2.1
  simp only [startUp, received, Except.mapError, ok_bind, listed, fillRelArray_eq isFiles stored]

section Programs

variable {atoi : List Char → Int} {relArr : List Relationsheep}

/-- The program loads the tables of the files that are named, and writes the answers to the
queries on them, or those to the queries before one that is not answerable. -/
theorem program_written (reads : ReadsNumerals atoi) (estimator : Estimator)
    (orders : Nat → JoinOrders) {files : List Char → Option (List UInt8)} {names : NamesMessage}
    {nameRead : Read} (named : nameRead.bytes = names.stream)
    (isFiles : List.Forall₂ (IsFileOf files) names.lines relArr)
    (stored : ∀ relation ∈ relArr, IsStored relation)
    (columns : ∀ relation ∈ relArr, 0 < relation.cols) (room : EnoughRoom relArr)
    {batches : List (List (AbstractQuery Numeral))} {delivered : List (List Read)}
    (delivers : List.Forall₂ Delivers batches delivered) (some : ∀ batch ∈ batches, batch ≠ [])
    (supported : ∀ query ∈ batches.flatten, Supported relArr query) :
    startUp files [nameRead] = .ok relArr ∧
    ∃ occupied : ∀ relation ∈ relArr, 0 < relation.rows,
      match receiveBatches atoi estimator (roomyJoiner occupied orders) delivered
          ⟨[], ⟨0, initialiseWarehouses relArr⟩⟩ with
      | .ok after => after.written = batches.flatten.map (answerLine relArr ·.meant)
      | .error stopped => stopped.halt = .execution .join ∧
          ∃ before query rest, batches.flatten = before ++ query :: rest ∧
            ¬ Answerable relArr query.meant ∧
            stopped.written = before.map (answerLine relArr ·.meant) := by
  have tables := areTables_of_stored stored columns
  refine ⟨startUp_eq named isFiles stored, tables.occupied, ?_⟩
  have answered := @answered_receiveBatches _ _ _ _ ⟨[], ⟨0, initialiseWarehouses relArr⟩⟩
    reads estimator tables (roomyJoiner_returnsBelow tables.occupied room orders) _ _ delivers some
    supported (roomyJoiner_valid tables.occupied orders)
  cases received : receiveBatches atoi estimator (roomyJoiner tables.occupied orders) delivered
      ⟨[], ⟨0, initialiseWarehouses relArr⟩⟩ with
  | ok after =>
      rw [received] at answered
      exact answered.1
  | error stopped =>
      rw [received] at answered
      exact answered

end Programs

section SelfJoin

theorem oneTable_tables : AreTables oneTable where
  loaded := List.forall_mem_singleton.mpr rfl
  columns := List.forall_mem_singleton.mpr (by decide)
  occupied := List.forall_mem_singleton.mpr (by decide)
  words := List.forall_mem_singleton.mpr (by decide)

def selfJoinLine : AbstractQuery Numeral := selfJoinQuery.map Numeral.ofNat

theorem selfJoinLine_meant : selfJoinLine.meant = selfJoinQuery :=
  AbstractQuery.meant_ofNat selfJoinQuery

theorem selfJoinQuery_tree : IsTreeQuery selfJoinQuery where
  many := by decide
  few := by decide
  digits := by decide
  connected := by
    have relations : Finset.range selfJoinQuery.rels.length = {1, 0} := by decide
    rw [relations]
    apply ConnectedOn.insert (ConnectedOn.singleton 0) (Finset.mem_singleton_self 0)
    rw [joinedRelations, SimpleGraph.fromRel_adj]
    exact ⟨by decide, .inl ⟨(⟨0, 0⟩, ⟨1, 0⟩), List.mem_cons_self, rfl, rfl⟩⟩
  links := by decide
  columns := by decide

theorem selfJoinLine_supported : Supported oneTable selfJoinLine where
  short := List.forall_mem_singleton.mpr (by decide)
  valid := selfJoinLine_meant ▸ selfJoinQuery_valid
  tree := selfJoinLine_meant ▸ selfJoinQuery_tree
  small := by
    rw [selfJoinLine_meant]
    exact List.forall_mem_singleton.mpr (by decide)

theorem selfJoinQuery_answerable : Answerable oneTable selfJoinQuery := by
  intro among _ _
  have rows : ∀ bound ∈ among.map (rowsOf oneTable selfJoinQuery.rels), bound ≤ 1 := by
    intro bound member
    rcases List.mem_map.mp member with ⟨rel, _, rfl⟩
    rcases rel with _ | _ | rel
    · exact Nat.le_refl 1
    · exact Nat.le_refl 1
    · exact Nat.zero_le 1
  have few := List.length_filter_le (fun tuple => selfJoinQuery.predicates.all fun predicate =>
    decide (relationsOf predicate ⊆ among → selects oneTable selfJoinQuery.rels predicate
      (valueAt among tuple) = true)) (tuplesBelow (among.map (rowsOf oneTable selfJoinQuery.rels)))
  have product := List.prod_le_pow_card _ 1 rows
  rw [one_pow] at product
  rw [length_tuplesBelow] at few
  exact Nat.lt_of_le_of_lt (Nat.le_trans few product) (by decide)

theorem answerLine_selfJoinQuery : answerLine oneTable selfJoinQuery = ['7', '\n'] := by
  have sum : sumOf oneTable selfJoinQuery ⟨1, 0⟩ = 7 := by decide
  change delimited ' ' '\n' [shownText (sumOf oneTable selfJoinQuery ⟨1, 0⟩ % 2 ^ 64)] = _
  rw [sum, Nat.mod_eq_of_lt (by omega), shownText_of_lt (by decide) (by omega)]
  rfl

theorem oneTable_stored : ∀ relation ∈ oneTable, IsStored relation :=
  List.forall_mem_singleton.mpr ⟨⟨by decide, by decide, fun _ => by decide, by decide⟩,
    .cons rfl .nil⟩

def oneFile (filename : List Char) : Option (List UInt8) :=
  if filename = ['r', '0'] then some (tableBytes 1 [[7]]) else none

theorem doneWord_isWord :
    '\n' ∉ ['D', 'o', 'n', 'e'] ∧ '\x00' ∉ ['D', 'o', 'n', 'e'] := by
  decide

theorem nameLine_isLine :
    ['r', '0'] ≠ [] ∧ '\n' ∉ ['r', '0'] ∧ ['r', '0'] ≠ ['D', 'o', 'n', 'e'] := by
  decide

theorem nameLine_isName : ¬ ['r', '0'] <+: ['D', 'o', 'n', 'e'] ∧ '\x00' ∉ ['r', '0'] := by
  decide

def oneName : NamesMessage where
  stopWord := ['D', 'o', 'n', 'e']
  lines := [['r', '0']]
  isWord := doneWord_isWord
  areLines := List.forall_mem_singleton.mpr nameLine_isLine
  isDone := rfl
  passed := List.forall_mem_singleton.mpr nameLine_isName.1
  clean := List.forall_mem_singleton.mpr nameLine_isName.2

theorem program_written_selfJoin : ∃ nameRead read after,
    startUp oneFile [nameRead] = .ok oneTable ∧
    receiveBatches longAtoi naturalEstimator
      (roomyJoiner oneTable_tables.occupied fun _ => ⟨⟨[], []⟩, ⟨[], []⟩, []⟩) [[read], [read]]
      ⟨[], ⟨0, initialiseWarehouses oneTable⟩⟩ = .ok after ∧
    after.written = [['7', '\n'], ['7', '\n']] := by
  have nameFits : oneName.stream.length ≤ maxBuffer := by decide
  have nameRead : ∃ read : Read, read.bytes = oneName.stream :=
    ⟨Read.filled '\x00' oneName.stream nameFits, rfl⟩
  have fits : (batchMessage [selfJoinLine]).stream.length ≤ maxBuffer := by decide
  have delivered : ∃ read, Delivers [selfJoinLine] [read] :=
    ⟨Read.filled '\x00' (batchMessage [selfJoinLine]).stream fits, _, rfl, rfl⟩
  rcases nameRead with ⟨nameRead, named⟩
  rcases delivered with ⟨read, delivers⟩
  have isFiles : List.Forall₂ (IsFileOf oneFile) oneName.lines oneTable :=
    .cons ⟨_, rfl, List.prefix_refl _⟩ .nil
  have some : ∀ batch ∈ [[selfJoinLine], [selfJoinLine]], batch ≠ [] :=
    List.forall_mem_cons.mpr ⟨List.cons_ne_nil _ _,
      List.forall_mem_singleton.mpr (List.cons_ne_nil _ _)⟩
  have supported : ∀ query ∈ [[selfJoinLine], [selfJoinLine]].flatten, Supported oneTable query :=
    List.forall_mem_cons.mpr ⟨selfJoinLine_supported,
      List.forall_mem_singleton.mpr selfJoinLine_supported⟩
  rcases program_written longAtoi_readsNumerals naturalEstimator
    (fun _ => ⟨⟨[], []⟩, ⟨[], []⟩, []⟩) named isFiles oneTable_stored oneTable_tables.columns
    ⟨by decide, by decide⟩ (.cons delivers (.cons delivers .nil)) some supported with
    ⟨started, occupied, written⟩
  refine ⟨nameRead, read, ?_⟩
  split at written
  · next after received =>
      refine ⟨after, started, received, written.trans ?_⟩
      change [answerLine oneTable selfJoinLine.meant, answerLine oneTable selfJoinLine.meant] = _
      rw [selfJoinLine_meant, answerLine_selfJoinQuery]
  · rcases written with ⟨_, before, query, rest, queries, notAnswerable, _⟩
    have member : query ∈ [selfJoinLine, selfJoinLine] := by
      change query ∈ [[selfJoinLine], [selfJoinLine]].flatten
      rw [queries]
      simp
    have same : query = selfJoinLine := by simpa using member
    rw [same, selfJoinLine_meant] at notAnswerable
    exact absurd selfJoinQuery_answerable notAnswerable

end SelfJoin

end JoinOperator.Receiver
