import JoinOperator.QueryText.LineText
import JoinOperator.Receiver.Answers

/-! # Whole sessions

The batches come one after the other, with `F` on the line behind each of them. All their
queries are answered in their order, as long as there is memory for the joins.
-/

namespace JoinOperator.Receiver

open Foundation QueryText Planner Executor
open PipeIO (Message Read readFromPipe)

def batchMessage (batch : List (AbstractQuery Numeral)) : Message where
  stopWord := ['F']
  lines := batch.map AbstractQuery.text
  isWord := by decide
  areLines := by
    intro line member
    rcases List.mem_map.mp member with ⟨query, _, rfl⟩
    rcases query.text_begins with ⟨c, rest, text, _⟩
    refine ⟨by rw [text]; exact List.cons_ne_nil c rest,
      query.not_mem_text rfl (by decide), ?_⟩
    intro equal
    exact query.text_not_prefix (equal ▸ List.prefix_refl _)

theorem body_batchMessage (batch : List (AbstractQuery Numeral)) :
    (batchMessage batch).body = batchText batch := by
  rw [Message.body, batchMessage, List.flatMap_map]
  rfl

/-- One read delivers the whole batch. -/
def Delivers (batch : List (AbstractQuery Numeral)) (reads : List Read) : Prop :=
  ∃ read : Read, reads = [read] ∧ read.bytes = (batchMessage batch).stream

theorem Delivers.readFromPipe_eq {batch : List (AbstractQuery Numeral)}
    {reads : List Read} (delivers : Delivers batch reads) :
    readFromPipe ['F'] reads = .ok (batchText batch) := by
  rcases delivers with ⟨read, rfl, bytes⟩
  rw [← body_batchMessage]
  apply @Message.readFromPipe_whole (batchMessage batch) read bytes
  · intro line member
    rcases List.mem_map.mp member with ⟨query, _, rfl⟩
    exact query.not_mem_text rfl (by decide)
  · intro line member
    rcases List.mem_map.mp member with ⟨query, _, rfl⟩
    exact query.text_not_prefix

/-- A query about columns that exist, whose relations form a tree and whose sums are printed
without a sign. -/
structure Supported (relArr : List Relationsheep) (written : AbstractQuery Numeral) : Prop where
  short : written.Short
  valid : written.meant.Valid relArr
  tree : IsTreeQuery written.meant
  small : ∀ name ∈ written.meant.sums, sumOf relArr written.meant name % 2 ^ 64 < 2 ^ 63

/-- How queries are answered: all of them, or those before one that is not answerable. -/
def Answered {relArr : List Relationsheep} {State : Type} (joiner : Joiner relArr State)
    (queries : List (AbstractQuery Numeral)) (answers : Answers State) :
    Except Stopped (Answers State) → Prop
  | .ok after => after.written = answers.written ++ queries.map (answerLine relArr ·.meant) ∧
      joiner.Valid after.state
  | .error stopped => stopped.halt = .execution .join ∧
      ∃ before query rest, queries = before ++ query :: rest ∧ ¬ Answerable relArr query.meant ∧
        stopped.written = answers.written ++ before.map (answerLine relArr ·.meant)

section Runs

variable {atoi : List Char → Int} {relArr : List Relationsheep} {State : Type}
  {joiner : Joiner relArr State} {queries others : List (AbstractQuery Numeral)}
  {answers : Answers State}

theorem Answered.bind {first : Except Stopped (Answers State)}
    {next : Answers State → Except Stopped (Answers State)}
    (answered : Answered joiner queries answers first)
    (continues : ∀ after, joiner.Valid after.state → Answered joiner others after (next after)) :
    Answered joiner (queries ++ others) answers (first >>= next) := by
  cases first with
  | error stopped =>
      rcases answered with ⟨halted, before, query, rest, rfl, notAnswerable, written⟩
      exact ⟨halted, before, query, rest ++ others, List.append_assoc _ _ _, notAnswerable, written⟩
  | ok middle =>
      have continued := continues middle answered.2
      rw [ok_bind]
      cases result : next middle with
      | ok after =>
          rw [result] at continued
          refine ⟨?_, continued.2⟩
          rw [continued.1, answered.1, List.map_append, List.append_assoc]
      | error stopped =>
          rw [result] at continued
          rcases continued with ⟨halted, before, query, rest, rfl, notAnswerable, written⟩
          refine ⟨halted, queries ++ before, query, rest, ?_, notAnswerable, ?_⟩
          · rw [List.append_assoc]
          · rw [written, answered.1, List.map_append, List.append_assoc]

theorem answered_next (reads : ReadsNumerals atoi) (estimator : Estimator)
    (tables : AreTables relArr) (returns : joiner.ReturnsBelow (2 ^ 59))
    {written : AbstractQuery Numeral} (supported : Supported relArr written)
    (valid : joiner.Valid answers.state) :
    Answered joiner [written] answers
      (answerNext atoi estimator joiner answers (written.text, written.counts)) := by
  rcases answerQuery_written reads estimator tables supported.valid supported.tree
    supported.small valid with ⟨faults, lines, answerable⟩
  rw [answerNext]
  cases answered : answerQuery atoi estimator joiner written.text written.counts
      answers.state with
  | ok answer =>
      rcases lines answer.1 answer.2 answered with ⟨line, nextValid⟩
      exact ⟨by rw [line]; rfl, nextValid⟩
  | error halt =>
      refine ⟨faults halt answered, [], written, [], rfl, ?_, (List.append_nil _).symm⟩
      intro isAnswerable
      rcases answerable returns isAnswerable with ⟨answer, isAnswer⟩
      rw [answered] at isAnswer
      cases isAnswer

theorem answered_foldlM (reads : ReadsNumerals atoi) (estimator : Estimator)
    (tables : AreTables relArr) (returns : joiner.ReturnsBelow (2 ^ 59))
    (supported : ∀ query ∈ queries, Supported relArr query) (valid : joiner.Valid answers.state) :
    Answered joiner queries answers
      ((queries.map fun query => (query.text, query.counts)).foldlM
        (answerNext atoi estimator joiner) answers) := by
  induction queries generalizing answers with
  | nil => exact ⟨(List.append_nil _).symm, valid⟩
  | cons query queries induction =>
      rw [List.map_cons, List.foldlM_cons]
      apply Answered.bind (answered_next reads estimator tables returns
        (supported query List.mem_cons_self) valid)
      intro after afterValid
      exact induction (fun other member => supported other (List.mem_cons_of_mem _ member))
        afterValid

theorem answered_receiveBatch (reads : ReadsNumerals atoi) (estimator : Estimator)
    (tables : AreTables relArr) (returns : joiner.ReturnsBelow (2 ^ 59))
    (supported : ∀ query ∈ queries, Supported relArr query) (valid : joiner.Valid answers.state) :
    Answered joiner queries answers
      (receiveBatch atoi estimator joiner (batchText queries) answers) := by
  rcases @scanBatch_lines (batchText queries) queries
    (fun query member => (supported query member).short) 0 [] rfl with ⟨after, scanned⟩
  have passed : scanBatch (batchText queries) =
      some (queries.map fun query => (query.text, query.counts)) := by
    rw [scanBatch]
    exact congrArg (· >>= fun state : BatchScan => some state.passed) scanned
  rw [receiveBatch_eq passed]
  exact answered_foldlM reads estimator tables returns supported valid

theorem batchText_ne_nil (some : queries ≠ []) : batchText queries ≠ [] := by
  cases queries with
  | nil => exact absurd rfl some
  | cons query queries =>
      rw [batchText, List.flatMap_cons]
      simp

theorem answered_receiveBatches (reads : ReadsNumerals atoi) (estimator : Estimator)
    (tables : AreTables relArr) (returns : joiner.ReturnsBelow (2 ^ 59))
    {batches : List (List (AbstractQuery Numeral))} {delivered : List (List Read)}
    (delivers : List.Forall₂ Delivers batches delivered) (some : ∀ batch ∈ batches, batch ≠ [])
    (supported : ∀ query ∈ batches.flatten, Supported relArr query)
    (valid : joiner.Valid answers.state) :
    Answered joiner batches.flatten answers
      (receiveBatches atoi estimator joiner delivered answers) := by
  induction delivers generalizing answers with
  | nil => exact ⟨(List.append_nil _).symm, valid⟩
  | @cons batch batchReads batches delivered isDelivered _ induction =>
      rw [List.flatten_cons] at supported ⊢
      have isText := batchText_ne_nil (some batch List.mem_cons_self)
      have received : receiveBatches atoi estimator joiner (batchReads :: delivered) answers =
          receiveBatch atoi estimator joiner (batchText batch) answers >>=
            receiveBatches atoi estimator joiner delivered := by
        rw [receiveBatches, isDelivered.readFromPipe_eq]
        cases text : batchText batch with
        | nil => exact absurd text isText
        | cons c rest => rfl
      rw [received]
      apply Answered.bind (answered_receiveBatch reads estimator tables returns
        (fun query member => supported query (List.mem_append_left _ member)) valid)
      intro after afterValid
      exact induction (fun other member => some other (List.mem_cons_of_mem _ member))
        (fun query member => supported query (List.mem_append_right _ member)) afterValid

end Runs

end JoinOperator.Receiver
