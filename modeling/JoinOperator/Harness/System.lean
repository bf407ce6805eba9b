import JoinOperator.Harness.Batches

/-! # The harness and a process

The harness sends a batch through one pipe and collects lines from another. Both sides take their
steps in any order. The system starts when the names have been read and the pipes are empty.
-/

namespace JoinOperator.Harness

open Foundation

def maxFailedQueries : Nat := 100

/-- The characters of one buffer, and of one write that is not divided. -/
def pipeBuf : Nat := 4096

/-- The comparison of the lines of a batch. Without enough lines the harness gives up. -/
def checkLines : Nat → List (List Char) → List (List Char) → Option Nat
  | failureCnt, [], _ => some failureCnt
  | failureCnt, expected :: results, lines =>
      if failureCnt < maxFailedQueries then
        match lines with
        | [] => none
        | val :: rest =>
            checkLines (if val = expected then failureCnt else failureCnt + 1) results rest
      else some failureCnt

/-- Where the harness is. Of a batch that is running, `unsent` has not been written yet, and
`output` has been read, with `outputRead` lines. -/
inductive Progress where
  | running (batch : Batch) (rest : List Batch) (unsent output : List Char) (outputRead : Nat)
      (failureCnt : Nat)
  | finished (failureCnt : Nat)
  | incomplete

def Progress.begin (failureCnt : Nat) : List Batch → Progress
  | [] => .finished failureCnt
  | batch :: rest =>
      if failureCnt < maxFailedQueries then .running batch rest batch.input [] 0 failureCnt
      else .finished failureCnt

def Progress.afterBatch (batch : Batch) (rest : List Batch) (output : List Char)
    (failureCnt : Nat) : Progress :=
  match checkLines failureCnt batch.results (tokens '\n' output) with
  | none => .incomplete
  | some failureCnt => .begin failureCnt rest

structure Process (State : Type) where
  Reads : State → List Char → State → Prop
  Writes : State → List Char → State → Prop

structure System (State : Type) where
  harness : Progress
  stdinPipe : List Char
  stdoutPipe : List Char
  process : State

section Steps

variable {State : Type} (capacity : Nat) (process : Process State)

/-- A step of one side. A read of the process takes all that fits in its buffer, and a write of the
harness is not divided when it is short. -/
inductive Step : System State → System State → Prop
  | send {batch : Batch} {rest : List Batch} {unsent output stdinPipe stdoutPipe : List Char}
      {outputRead failureCnt : Nat} {state : State} {written left : List Char} (some : written ≠ [])
      (split : unsent = written ++ left) (atomic : unsent.length ≤ pipeBuf → left = [])
      (room : (stdinPipe ++ written).length ≤ capacity) :
      Step ⟨.running batch rest unsent output outputRead failureCnt, stdinPipe, stdoutPipe, state⟩
        ⟨.running batch rest left output outputRead failureCnt, stdinPipe ++ written, stdoutPipe,
          state⟩
  | collect {batch : Batch} {rest : List Batch} {unsent output stdinPipe stdoutPipe : List Char}
      {outputRead failureCnt : Nat} {state : State} {bytes left : List Char} (some : bytes ≠ [])
      (split : stdoutPipe = bytes ++ left) (short : bytes.length ≤ pipeBuf)
      (waits : outputRead ≠ batch.results.length) :
      Step ⟨.running batch rest unsent output outputRead failureCnt, stdinPipe, stdoutPipe, state⟩
        ⟨.running batch rest unsent (output ++ bytes) (outputRead + bytes.count '\n') failureCnt,
          stdinPipe, left, state⟩
  | next {batch : Batch} {rest : List Batch} {unsent output stdinPipe stdoutPipe : List Char}
      {outputRead failureCnt : Nat} {state : State} (sent : unsent = [])
      (enough : batch.results.length ≤ outputRead) :
      Step ⟨.running batch rest unsent output outputRead failureCnt, stdinPipe, stdoutPipe, state⟩
        ⟨.afterBatch batch rest output failureCnt, stdinPipe, stdoutPipe, state⟩
  | read {harness : Progress} {stdinPipe stdoutPipe : List Char} {state after : State}
      (some : stdinPipe ≠ []) (reads : process.Reads state (stdinPipe.take pipeBuf) after) :
      Step ⟨harness, stdinPipe, stdoutPipe, state⟩
        ⟨harness, stdinPipe.drop pipeBuf, stdoutPipe, after⟩
  | write {harness : Progress} {stdinPipe stdoutPipe text : List Char} {state after : State}
      (writes : process.Writes state text after) (room : (stdoutPipe ++ text).length ≤ capacity) :
      Step ⟨harness, stdinPipe, stdoutPipe, state⟩
        ⟨harness, stdinPipe, stdoutPipe ++ text, after⟩

inductive Runs : Nat → System State → System State → Prop
  | none (system : System State) : Runs 0 system system
  | step {steps : Nat} {start middle last : System State} (run : Runs steps start middle)
      (step : Step capacity process middle last) : Runs (steps + 1) start last

end Steps

end JoinOperator.Harness
