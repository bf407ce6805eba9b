import JoinOperator.Executor.TreeRuns
import JoinOperator.PipeIO.ReadPipe
import JoinOperator.QueryText.Batch

/-! # The main loop

`main` reads one batch after the other. It looks at a batch character by character, and answers
a query as soon as its newline is reached, with what the queries before it have left in the
warehouses.
-/

namespace JoinOperator.Receiver

open Foundation QueryText Planner Executor
open PipeIO (readFromPipe writePipe)

inductive Halt where
  | input (fault : PipeIO.Fault)
  | wrongFormat
  | construction (fault : QueryText.Fault)
  | planning
  | execution (fault : Executor.Fault)
  | checksums
  | answer
  deriving DecidableEq

def orHalt {α : Type} (halt : Halt) : Option α → Except Halt α
  | some value => .ok value
  | none => .error halt

/-- What is read of a participant. The base relation and column are read in joins only. -/
def readParticipant (isJoin : Bool) (cells : ColRelCells) : Option ColRel := do
  let realRel ← if isJoin then cells.realRel.getLast? else some 0
  let realCol ← if isJoin then cells.realCol.getLast? else some 0
  let rel ← cells.rel.getLast?
  let numCol ← cells.numCol.getLast?
  let col ← cells.col.getLast?
  let rows ← cells.rows.getLast?
  some ⟨realRel, realCol, rel, numCol, col, rows⟩

def readFilter (cells : FilterCells) : Option Filter := do
  let participant ← readParticipant false cells.participant
  let op ← cells.op.getLast?
  let value ← cells.value.getLast?
  some ⟨participant, op, value⟩

def readJoin (cells : JoinCells) : Option Join := do
  let participant1 ← readParticipant true cells.participant1
  let participant2 ← readParticipant true cells.participant2
  some ⟨participant1, participant2⟩

/-- The variables of a query as they are read after `ConstructQuery`, and its sums. -/
def readQuery (constructed : ConstructedQuery) : Option (Query × List ColRel) := do
  let rels ← constructed.rels.mapM List.getLast?
  let filters ← constructed.filters.mapM readFilter
  let joins ← constructed.joins.mapM readJoin
  let sums ← constructed.sums.mapM (readParticipant false)
  some (⟨rels, constructed.queryStats, filters, joins, constructed.priorities⟩, sums)

section Model

variable (atoi : List Char → Int) (estimator : Estimator) {relArr : List Relationsheep}
  {State : Type} (joiner : Joiner relArr State)

/-- What is done at the newline of a query: the message that is written, and the state. -/
def answerQuery (queryStr : List Char) (counts : Counts) (state : State) :
    Except Halt (List Char × State) := do
  let constructed ← (constructQuery atoi relArr queryStr counts).mapError .construction
  let (newQuery, sums) ← orHalt (.construction .invalidRead) (readQuery constructed)
  let filtered ← orHalt .planning (executeFilterPredicates estimator newQuery)
  let priorities ← orHalt .planning (planQuery estimator relArr filtered)
  let (headInt, next) ←
    (performQuery joiner filtered.filters filtered.joins priorities state).mapError .execution
  let cs ← orHalt .checksums (performChecksums sums headInt)
  let message ← orHalt .answer (writePipe cs)
  .ok (message, next)

structure Answers (State : Type) where
  written : List (List Char)
  state : State

/-- A run that has stopped, with the messages that were written before. -/
structure Stopped where
  halt : Halt
  written : List (List Char)

def answerNext (answers : Answers State) (call : List Char × Counts) :
    Except Stopped (Answers State) :=
  match answerQuery atoi estimator joiner call.1 call.2 answers.state with
  | .ok (message, next) => .ok ⟨answers.written ++ [message], next⟩
  | .error halt => .error ⟨halt, answers.written⟩

/-- A step of the loop over the characters of a batch, which answers what it passes on. -/
def receiveStep (inputStr : List Char) (state : BatchScan × Answers State) (i : Nat) (c : Char) :
    Except Stopped (BatchScan × Answers State) :=
  match batchStep inputStr state.1 i c with
  | none => .error ⟨.wrongFormat, state.2.written⟩
  | some scanned => do
      let answers ← (scanned.passed.drop state.1.passed.length).foldlM
        (answerNext atoi estimator joiner) state.2
      .ok (scanned, answers)

def receiveBatch (inputStr : List Char) (answers : Answers State) :
    Except Stopped (Answers State) := do
  let (_, after) ← scan (receiveStep atoi estimator joiner inputStr) 0 (.start, answers) inputStr
  .ok after

/-- The loop over the batches, with the reads of each call of `readFromPipe`. An empty message is
the last one. -/
def receiveBatches : List (List PipeIO.Read) → Answers State → Except Stopped (Answers State)
  | [], answers => .ok answers
  | reads :: rest, answers =>
      match readFromPipe ['F'] reads with
      | .error fault => .error ⟨.input fault, answers.written⟩
      | .ok [] => .ok answers
      | .ok inputStr => do
          let after ← receiveBatch atoi estimator joiner inputStr answers
          receiveBatches rest after

end Model

section Scanning

variable {atoi : List Char → Int} {estimator : Estimator} {relArr : List Relationsheep}
  {State : Type} {joiner : Joiner relArr State} {inputStr : List Char}

theorem batchStep_passed {state after : BatchScan} {i : Nat} {c : Char}
    (stepped : batchStep inputStr state i c = some after) :
    ∃ calls, after.passed = state.passed ++ calls := by
  have kept : after.passed = state.passed → ∃ calls, after.passed = state.passed ++ calls :=
    fun same => ⟨[], by rw [same, List.append_nil]⟩
  rw [batchStep] at stepped
  split_ifs at stepped
  · cases stepped
    exact kept rfl
  · cases stepped
    exact kept rfl
  · cases stepped
    exact kept rfl
  · rcases Option.bind_eq_some_iff.mp stepped with ⟨isJoin, _, stepped⟩
    cases stepped
    apply kept
    split <;> rfl
  · cases stepped
    exact kept rfl
  · cases stepped
    exact ⟨_, rfl⟩
  · cases stepped
    exact kept rfl

theorem scan_receiveStep {state after : BatchScan} {answers : Answers State} {i : Nat}
    {text : List Char} (scanned : scan (batchStep inputStr) i state text = some after) :
    ∃ calls, after.passed = state.passed ++ calls ∧
      scan (receiveStep atoi estimator joiner inputStr) i (state, answers) text = (do
        let answered ← calls.foldlM (answerNext atoi estimator joiner) answers
        .ok (after, answered)) := by
  induction text generalizing i state answers with
  | nil =>
      cases scanned
      exact ⟨[], (List.append_nil _).symm, rfl⟩
  | cons c text induction =>
      rcases Option.bind_eq_some_iff.mp scanned with ⟨middle, stepped, scanned⟩
      rcases batchStep_passed stepped with ⟨calls, passed⟩
      have new : middle.passed.drop state.passed.length = calls := by
        rw [passed, List.drop_left]
      cases answered : calls.foldlM (answerNext atoi estimator joiner) answers with
      | error stopped =>
          rcases @induction middle answers (i + 1) scanned with ⟨others, isAfter, _⟩
          refine ⟨calls ++ others, by rw [isAfter, passed, List.append_assoc], ?_⟩
          simp only [scan, receiveStep, stepped, new, answered, List.foldlM_append]
          rfl
      | ok next =>
          rcases @induction middle next (i + 1) scanned with ⟨others, isAfter, ran⟩
          refine ⟨calls ++ others, by rw [isAfter, passed, List.append_assoc], ?_⟩
          simp only [scan, receiveStep, stepped, new, answered, List.foldlM_append]
          exact ran

theorem receiveBatch_eq {answers : Answers State} {calls : List (List Char × Counts)}
    (scanned : scanBatch inputStr = some calls) :
    receiveBatch atoi estimator joiner inputStr answers =
      calls.foldlM (answerNext atoi estimator joiner) answers := by
  rcases Option.bind_eq_some_iff.mp scanned with ⟨after, ran, isCalls⟩
  rcases @scan_receiveStep atoi estimator _ _ joiner _ _ _ answers _ _ ran with
    ⟨others, passed, received⟩
  cases isCalls
  rw [receiveBatch, received, show after.passed = others from passed]
  cases others.foldlM (answerNext atoi estimator joiner) answers with
  | error stopped => rfl
  | ok answered => rfl

end Scanning

end JoinOperator.Receiver
