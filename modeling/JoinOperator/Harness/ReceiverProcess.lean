import JoinOperator.Harness.Lockstep
import JoinOperator.Receiver.Sessions
import JoinOperator.Reference.Agreement

/-! # The receiver as a process

The receiver takes one read at a time. What it writes for a batch is computed when the stop word
has been read, and written in pieces of any length.
-/

namespace JoinOperator.Harness

open Foundation QueryText Receiver Planner Executor
open Reference (answerText answerLine_eq)
open PipeIO (InputText Message Read findStop appendBuffer cString_eq_ok readLoop maxBuffer)

/-- One turn of the loop of `readFromPipe`, and whether the stop word was found. -/
def readOnce (stopWord : List Char) (input : InputText) (read : Read) :
    Except PipeIO.Fault (InputText × Bool) :=
  match findStop stopWord read.buffer 0 0 read.bytes with
  | none => do
      let after ← appendBuffer input read.bytes.length read.buffer
      .ok (after, false)
  | some i =>
      if i < stopWord.length then .error .beforeBuffer
      else do
        let after ← appendBuffer input read.bytes.length
          (read.buffer.set (i - stopWord.length) '\x00')
        .ok (after, true)

/-- The receiver reads a message, or writes what is left of its answers. After the last character
it reads the next message, or has stopped. -/
inductive Receiving (State : Type) where
  | reading (input : InputText) (state : State)
  | writing (text : List Char) (next : Option State)

def noInput : InputText := ⟨maxBuffer + 1, []⟩

def Receiving.awaits {State : Type} : Receiving State → Option (InputText × State)
  | .reading input state => some (input, state)
  | .writing [] (some state) => some (noInput, state)
  | .writing _ _ => none

section Process

variable (atoi : List Char → Int) (estimator : Estimator) {relArr : List Relationsheep}
  {State : Type} (joiner : Joiner relArr State)

/-- What follows a message. An empty one is the last. -/
def receiveMessage (inputStr : List Char) (state : State) : Receiving State :=
  if inputStr = [] then .writing [] none
  else
    match receiveBatch atoi estimator joiner inputStr ⟨[], state⟩ with
    | .ok answers => .writing answers.written.flatten (some answers.state)
    | .error stopped => .writing stopped.written.flatten none

def afterRead (input : InputText) (state : State) (read : Read) : Receiving State :=
  match readOnce ['F'] input read with
  | .error _ => .writing [] none
  | .ok (after, false) => .reading after state
  | .ok (after, true) => receiveMessage atoi estimator joiner after.inputStr state

/-- A read leaves any characters in the rest of the buffer. -/
def receiverProcess : Process (Receiving State) where
  Reads := fun before bytes after => ∃ (input : InputText) (state : State) (read : Read),
    before.awaits = some (input, state) ∧ read.bytes = bytes ∧
      after = afterRead atoi estimator joiner input state read
  Writes := fun before text after => text ≠ [] ∧ ∃ (rest : List Char) (next : Option State),
    before = .writing (text ++ rest) next ∧ after = .writing rest next

end Process

section Reading

theorem readLoop_cons (stopWord : List Char) (input : InputText) (read : Read)
    (rest : List Read) : readLoop stopWord input (read :: rest) = (do
      let (after, found) ← readOnce stopWord input read
      if found then .ok after.inputStr else readLoop stopWord after rest) := by
  rw [readLoop, readOnce]
  cases findStop stopWord read.buffer 0 0 read.bytes with
  | none =>
      cases appendBuffer input read.bytes.length read.buffer with
      | error fault => rfl
      | ok after => rfl
  | some i =>
      dsimp only
      split
      · rfl
      · cases appendBuffer input read.bytes.length
          (read.buffer.set (i - stopWord.length) '\x00') with
        | error fault => rfl
        | ok after => rfl

theorem readOnce_whole {batch : List (AbstractQuery Numeral)} {read : Read}
    (bytes : read.bytes = (batchMessage batch).stream) :
    ∃ after, readOnce ['F'] noInput read = .ok (after, true) ∧
      after.inputStr = batchText batch := by
  have delivers : Delivers batch [read] := ⟨read, rfl, bytes⟩
  have returned : readLoop ['F'] noInput [read] = .ok (batchText batch) := delivers.readFromPipe_eq
  rw [readLoop_cons] at returned
  rcases bind_eq_ok.mp returned with ⟨⟨after, found⟩, ran, text⟩
  cases found with
  | true => exact ⟨after, ran, Except.ok.inj text⟩
  | false =>
      -- without the stop word, the characters behind the lines would be kept
      have kept : after.inputStr = batchText batch := Except.ok.inj text
      rw [readOnce] at ran
      split at ran
      · rcases bind_eq_ok.mp ran with ⟨other, appended, same⟩
        cases same
        rcases PipeIO.appendBuffer_eq_ok appended with ⟨added, isText, equal⟩
        have clean : ∀ c ∈ (batchMessage batch).stream, (c != '\x00') = true := by
          intro c member
          rw [bne_iff_ne]
          intro same
          rcases same with rfl
          refine Message.terminator_not_mem_stream ?_ member
          intro line isLine
          rcases List.mem_map.mp isLine with ⟨query, _, rfl⟩
          exact query.not_mem_text rfl (by decide)
        rw [cString_eq_ok isText, Read.buffer, bytes,
          List.takeWhile_append_of_pos clean, kept, ← body_batchMessage] at equal
        have length := congrArg List.length equal
        rw [noInput, List.nil_append, List.length_append, Message.length_stream] at length
        omega
      · next stop _ =>
          split at ran
          · cases ran
          · rcases bind_eq_ok.mp ran with ⟨other, _, same⟩
            cases same

end Reading

def IsExchange (relArr : List Relationsheep) (exchange : Exchange) : Prop :=
  ∃ batch : List (AbstractQuery Numeral), exchange.batch.input = (batchMessage batch).stream ∧
    exchange.lines = batch.map (answerText relArr ·.meant) ∧
    ∀ query ∈ batch, Supported relArr query ∧ Answerable relArr query.meant

section Serving

variable {relArr : List Relationsheep} {State : Type} (joiner : Joiner relArr State)

def AwaitsBatch (todo : List Exchange) (before : Receiving State) : Prop :=
  (∀ exchange ∈ todo, IsExchange relArr exchange) ∧
    ∃ state, before.awaits = some (noInput, state) ∧ joiner.Valid state

def WritesAnswer (text : List Char) (todo : List Exchange) (before : Receiving State) : Prop :=
  (∀ exchange ∈ todo, IsExchange relArr exchange) ∧
    ∃ state, before = .writing text (some state) ∧ joiner.Valid state

variable {joiner} {atoi : List Char → Int}

theorem afterRead_writes (reads : ReadsNumerals atoi) (estimator : Estimator)
    (tables : AreTables relArr) (returns : joiner.ReturnsBelow (2 ^ 59)) {exchange : Exchange}
    (isExchange : IsExchange relArr exchange) {state : State} (valid : joiner.Valid state)
    {read : Read} (bytes : read.bytes = exchange.batch.input) :
    ∃ next, afterRead atoi estimator joiner noInput state read =
      .writing exchange.answer (some next) ∧ joiner.Valid next := by
  rcases isExchange with ⟨batch, input, lines, queries⟩
  rcases readOnce_whole (bytes.trans input) with ⟨after, ran, text⟩
  have some : batch ≠ [] := by
    intro same
    rcases same with rfl
    exact exchange.someLines lines
  have answered := @answered_receiveBatch atoi relArr State joiner batch ⟨[], state⟩ reads estimator
    tables returns (fun query member => (queries query member).1) valid
  rw [afterRead, ran]
  dsimp only
  rw [receiveMessage, text, if_neg (batchText_ne_nil some)]
  cases received : receiveBatch atoi estimator joiner (batchText batch) ⟨[], state⟩ with
  | error stopped =>
      rw [received] at answered
      rcases answered with ⟨_, front, query, rest, same, notAnswerable, _⟩
      have member : query ∈ batch := by
        rw [same]
        exact List.mem_append_right _ List.mem_cons_self
      exact absurd (queries query member).2 notAnswerable
  | ok answers =>
      rw [received] at answered
      refine ⟨answers.state, ?_, answered.2⟩
      dsimp only
      rw [answered.1, List.nil_append, Exchange.answer, lines, List.flatMap_map,
        ← List.flatMap_def]
      rw [List.flatMap_congr fun query _ => @answerLine_eq relArr query.meant]

/-- The receiver waits for a batch, and writes the answer to it before it reads the next. -/
theorem receiverProcess_serves (reads : ReadsNumerals atoi) (estimator : Estimator)
    (tables : AreTables relArr) (returns : joiner.ReturnsBelow (2 ^ 59)) :
    Serves (receiverProcess atoi estimator joiner) (AwaitsBatch joiner) (WritesAnswer joiner) where
  silent := by
    intro todo before text after related moved
    rcases related with ⟨_, state, awaits, _⟩
    rcases moved with ⟨some, rest, next, rfl, _⟩
    rcases List.exists_cons_of_ne_nil some with ⟨c, others, rfl⟩
    cases awaits
  reads := by
    intro exchange todo before related
    rcases related with ⟨_, state, awaits, _⟩
    exact ⟨_, noInput, state, Read.filled '\x00' exchange.batch.input exchange.short, awaits, rfl,
      rfl⟩
  answers := by
    intro exchange todo before after related moved
    rcases related with ⟨isExchange, state, awaits, valid⟩
    rcases moved with ⟨input, state', read, awaits', bytes, rfl⟩
    cases awaits.symm.trans awaits'
    rcases List.forall_mem_cons.mp isExchange with ⟨isFirst, areOthers⟩
    rcases afterRead_writes reads estimator tables returns isFirst valid bytes with
      ⟨next, same, nextValid⟩
    exact ⟨areOthers, next, same, nextValid⟩
  writes := by
    intro c rest todo before related
    rcases related with ⟨_, state, rfl, _⟩
    exact ⟨_, List.cons_ne_nil c [], rest, some state, rfl, rfl⟩
  continues := by
    intro text todo before written after related moved
    rcases related with ⟨areExchanges, state, rfl, valid⟩
    rcases moved with ⟨some, rest, next, same, rfl⟩
    cases same
    exact ⟨rest, some, rfl, areExchanges, state, rfl, valid⟩
  waits := by
    intro todo before related
    rcases related with ⟨areExchanges, state, rfl, valid⟩
    exact ⟨areExchanges, state, rfl, valid⟩

end Serving

end JoinOperator.Harness
