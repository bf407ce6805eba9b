import JoinOperator.Harness.System
import Mathlib.Algebra.BigOperators.Group.List.Basic

/-! # Batches in lockstep

A process that writes one line for every result, after it has read a whole batch, never has
characters of two batches before it. The harness collects all its lines and comes to an end, in
whatever order the steps are taken.
-/

namespace JoinOperator.Harness

open Foundation

/-- A batch, and the lines that a process writes for it. -/
structure Exchange where
  batch : Batch
  lines : List (List Char)
  some : batch.input ≠ []
  short : batch.input.length ≤ pipeBuf
  sameNumber : batch.results.length = lines.length
  areLines : ∀ line ∈ lines, '\n' ∉ line
  someLines : lines ≠ []

def Exchange.answer (exchange : Exchange) : List Char := exchange.lines.flatMap (· ++ ['\n'])

def countFailures (failureCnt : Nat) (results lines : List (List Char)) : Nat :=
  min maxFailedQueries (failureCnt + (results.zip lines).countP fun pair => pair.1 ≠ pair.2)

def failuresAfter (failureCnt : Nat) (exchanges : List Exchange) : Nat :=
  min maxFailedQueries (failureCnt + (exchanges.map fun exchange =>
    (exchange.batch.results.zip exchange.lines).countP fun pair => pair.1 ≠ pair.2).sum)

section Failures

variable {failureCnt : Nat} {results lines : List (List Char)}

theorem checkLines_eq (few : failureCnt ≤ maxFailedQueries) (same : results.length = lines.length) :
    checkLines failureCnt results lines = some (countFailures failureCnt results lines) := by
  induction results generalizing failureCnt lines with
  | nil =>
      rw [checkLines, countFailures, List.zip_nil_left, List.countP_nil, Nat.add_zero,
        Nat.min_eq_right few]
  | cons expected results induction =>
      cases lines with
      | nil => cases same
      | cons val lines =>
          have length := Nat.succ.inj same
          rw [checkLines]
          by_cases below : failureCnt < maxFailedQueries
          · rw [if_pos below]
            by_cases matched : val = expected
            · simp only [if_pos matched]
              rw [induction few length, countFailures, countFailures, List.zip_cons_cons,
                List.countP_cons_of_neg (by simp [matched])]
            · simp only [if_neg matched]
              rw [induction below length, countFailures, countFailures, List.zip_cons_cons,
                List.countP_cons_of_pos (by simp [Ne.symm matched]),
                Nat.succ_add_eq_add_succ]
          · rw [if_neg below, countFailures]
            have full := Nat.le_antisymm few (Nat.not_lt.mp below)
            rw [full, Nat.min_eq_left (Nat.le_add_right _ _)]

theorem failuresAfter_cons (failureCnt : Nat) (exchange : Exchange) (exchanges : List Exchange) :
    failuresAfter failureCnt (exchange :: exchanges) = failuresAfter
      (countFailures failureCnt exchange.batch.results exchange.lines) exchanges := by
  rw [failuresAfter, failuresAfter, countFailures, List.map_cons, List.sum_cons]
  omega

end Failures

section Answers

variable {exchange : Exchange}

theorem tokens_answer : tokens '\n' exchange.answer = exchange.lines :=
  tokens_endedWords exchange.areLines

theorem count_answer : exchange.answer.count '\n' = exchange.lines.length :=
  count_endedWords exchange.areLines

theorem rest_eq_nil {output rest : List Char} (answer : output ++ rest = exchange.answer)
    (all : exchange.lines.length ≤ output.count '\n') : rest = [] := by
  by_contra some
  have ends : '\n' ∈ rest := by
    have last : exchange.answer.getLast? = Option.some '\n' := by
      rw [Exchange.answer]
      rcases List.eq_nil_or_concat exchange.lines with none | ⟨front, line, lines⟩
      · exact absurd none exchange.someLines
      · rw [lines, List.concat_eq_append, List.flatMap_append, List.flatMap_singleton,
          ← List.append_assoc, List.getLast?_concat]
    rw [← answer, List.getLast?_append_of_ne_nil _ some] at last
    exact List.mem_of_getLast? last
  have count := @count_answer exchange
  rw [← answer, List.count_append] at count
  have positive := List.count_pos_iff.mpr ends
  omega

end Answers

/-- A process that waits for batches, and writes the answer to one before it reads the next. -/
structure Serves {State : Type} (process : Process State)
    (Waits : List Exchange → State → Prop)
    (Writing : List Char → List Exchange → State → Prop) : Prop where
  /-- A process that waits writes nothing. -/
  silent : ∀ {todo state text after}, Waits todo state → ¬ process.Writes state text after
  reads : ∀ {exchange todo state}, Waits (exchange :: todo) state →
    ∃ after, process.Reads state exchange.batch.input after
  answers : ∀ {exchange todo state after}, Waits (exchange :: todo) state →
    process.Reads state exchange.batch.input after → Writing exchange.answer todo after
  writes : ∀ {c rest todo state}, Writing (c :: rest) todo state →
    ∃ after, process.Writes state [c] after
  continues : ∀ {text todo state written after}, Writing text todo state →
    process.Writes state written after → ∃ rest, written ≠ [] ∧ text = written ++ rest ∧
      Writing rest todo after
  waits : ∀ {todo state}, Writing [] todo state → Waits todo state

section Invariant

variable {State : Type} {process : Process State} {Waits : List Exchange → State → Prop}
  {Writing : List Char → List Exchange → State → Prop} {capacity : Nat}

def stepsFor (todo : List Exchange) : Nat :=
  (todo.map fun exchange => 3 + 2 * exchange.answer.length).sum

theorem stepsFor_cons (exchange : Exchange) (todo : List Exchange) :
    stepsFor (exchange :: todo) = 3 + 2 * exchange.answer.length + stepsFor todo := by
  rw [stepsFor, List.map_cons, List.sum_cons, stepsFor]

/-- A system in which the characters of one batch are under way, with the number of failures in the
end and the most steps that are left. -/
inductive Conforms (Waits : List Exchange → State → Prop)
    (Writing : List Char → List Exchange → State → Prop) (failures : Nat) :
    Nat → System State → Prop
  | sending {exchange : Exchange} {todo : List Exchange} {failureCnt : Nat} {state : State}
      (waits : Waits (exchange :: todo) state) (below : failureCnt < maxFailedQueries)
      (count : failuresAfter failureCnt (exchange :: todo) = failures) :
      Conforms Waits Writing failures (stepsFor (exchange :: todo))
        ⟨.running exchange.batch (todo.map Exchange.batch) exchange.batch.input [] 0 failureCnt,
          [], [], state⟩
  | reading {exchange : Exchange} {todo : List Exchange} {failureCnt : Nat} {state : State}
      (waits : Waits (exchange :: todo) state) (below : failureCnt < maxFailedQueries)
      (count : failuresAfter failureCnt (exchange :: todo) = failures) :
      Conforms Waits Writing failures (2 + 2 * exchange.answer.length + stepsFor todo)
        ⟨.running exchange.batch (todo.map Exchange.batch) [] [] 0 failureCnt,
          exchange.batch.input, [], state⟩
  | answering {exchange : Exchange} {todo : List Exchange} {failureCnt : Nat} {state : State}
      {output stdoutPipe text : List Char} (writing : Writing text todo state)
      (answer : output ++ (stdoutPipe ++ text) = exchange.answer)
      (below : failureCnt < maxFailedQueries)
      (count : failuresAfter failureCnt (exchange :: todo) = failures) :
      Conforms Waits Writing failures (1 + 2 * text.length + stdoutPipe.length + stepsFor todo)
        ⟨.running exchange.batch (todo.map Exchange.batch) [] output (output.count '\n') failureCnt,
          [], stdoutPipe, state⟩
  | finished {todo : List Exchange} {state : State} (waits : Waits todo state) :
      Conforms Waits Writing failures 0 ⟨.finished failures, [], [], state⟩

theorem Conforms.begin {todo : List Exchange} {state : State} (waits : Waits todo state)
    {failureCnt : Nat} (few : failureCnt ≤ maxFailedQueries) :
    ∃ left ≤ stepsFor todo, Conforms Waits Writing (failuresAfter failureCnt todo) left
      ⟨.begin failureCnt (todo.map Exchange.batch), [], [], state⟩ := by
  cases todo with
  | nil =>
      have same : failuresAfter failureCnt [] = failureCnt := by
        rw [failuresAfter, List.map_nil, List.sum_nil, Nat.add_zero, Nat.min_eq_right few]
      rw [same]
      exact ⟨0, Nat.zero_le _, .finished waits⟩
  | cons exchange todo =>
      rw [List.map_cons, Progress.begin]
      by_cases below : failureCnt < maxFailedQueries
      · rw [if_pos below]
        exact ⟨_, Nat.le_refl _, .sending waits below rfl⟩
      · have full := Nat.le_antisymm few (Nat.not_lt.mp below)
        have same : failuresAfter failureCnt (exchange :: todo) = failureCnt := by
          rw [failuresAfter, full, Nat.min_eq_left (Nat.le_add_right _ _)]
        rw [if_neg below, same]
        exact ⟨0, Nat.zero_le _, .finished waits⟩

/-- Every step of either side keeps the characters of one batch under way. -/
theorem Conforms.step (serves : Serves process Waits Writing) {failures left : Nat}
    {before after : System State} (conforms : Conforms Waits Writing failures left before)
    (step : Step capacity process before after) :
    ∃ fewer < left, Conforms Waits Writing failures fewer after := by
  cases conforms with
  | @sending exchange todo failureCnt state waits below count =>
      cases step with
      | send some split atomic room =>
          cases atomic exchange.short
          rw [List.append_nil] at split
          cases split
          refine ⟨_, ?_, .reading waits below count⟩
          rw [stepsFor_cons]
          omega
      | collect some split short waits =>
          exact absurd (List.append_eq_nil_iff.mp split.symm).1 some
      | next sent enough => exact absurd sent exchange.some
      | read some reads => exact absurd rfl some
      | write writes room => exact absurd writes (serves.silent waits)
  | @reading exchange todo failureCnt state waits below count =>
      cases step with
      | send some split atomic room =>
          exact absurd (List.append_eq_nil_iff.mp split.symm).1 some
      | collect some split short waits =>
          exact absurd (List.append_eq_nil_iff.mp split.symm).1 some
      | next sent enough =>
          have none := List.length_eq_zero_iff.mp
            (exchange.sameNumber.symm.trans (Nat.le_zero.mp enough))
          exact absurd none exchange.someLines
      | @read _ _ _ _ after some reads =>
          rw [List.take_of_length_le exchange.short] at reads
          rw [List.drop_eq_nil_of_le exchange.short]
          have writing := serves.answers waits reads
          refine ⟨1 + 2 * exchange.answer.length + 0 + stepsFor todo, by omega, ?_⟩
          exact @Conforms.answering _ Waits Writing failures exchange todo failureCnt after [] []
            exchange.answer writing rfl below count
      | write writes room => exact absurd writes (serves.silent waits)
  | @answering exchange todo failureCnt state output stdoutPipe text writing answer below count =>
      cases step with
      | send some split atomic room =>
          exact absurd (List.append_eq_nil_iff.mp split.symm).1 some
      | @collect _ _ _ _ _ _ _ _ _ bytes left some split short waits =>
          cases split
          rw [← List.count_append]
          rw [List.append_assoc, ← List.append_assoc output] at answer
          refine ⟨_, ?_, .answering writing answer below count⟩
          have positive := List.length_pos_iff.mpr some
          rw [List.length_append]
          omega
      | next sent enough =>
          rw [exchange.sameNumber] at enough
          rcases List.append_eq_nil_iff.mp (rest_eq_nil answer enough) with ⟨rfl, rfl⟩
          rw [List.append_nil, List.append_nil] at answer
          have compared := checkLines_eq (Nat.le_of_lt below) exchange.sameNumber
          rw [Progress.afterBatch, answer, tokens_answer, compared]
          rw [failuresAfter_cons] at count
          have few : countFailures failureCnt exchange.batch.results exchange.lines ≤
              maxFailedQueries := Nat.min_le_left _ _
          rcases @Conforms.begin _ Waits Writing _ _ (serves.waits writing) _ few with
            ⟨left, few, conforms⟩
          rw [count] at conforms
          refine ⟨left, ?_, conforms⟩
          rw [List.length_nil]
          omega
      | read some reads => exact absurd rfl some
      | @write _ _ _ written _ after writes room =>
          rcases serves.continues writing writes with ⟨rest, some, rfl, continued⟩
          rw [← List.append_assoc stdoutPipe] at answer
          refine ⟨_, ?_, .answering continued answer below count⟩
          have positive := List.length_pos_iff.mpr some
          rw [List.length_append, List.length_append]
          omega
  | @finished todo state waits =>
      cases step with
      | read some reads => exact absurd rfl some
      | write writes room => exact absurd writes (serves.silent waits)

/-- No side waits for the other without end: a step is possible until the harness has finished. -/
theorem Conforms.progress (serves : Serves process Waits Writing) (room : pipeBuf ≤ capacity)
    {failures left : Nat} {system : System State}
    (conforms : Conforms Waits Writing failures left system) :
    system.harness = .finished failures ∨ ∃ after, Step capacity process system after := by
  cases conforms with
  | @sending exchange todo failureCnt state waits below count =>
      right
      refine ⟨_, .send exchange.some (List.append_nil _).symm (fun _ => rfl) ?_⟩
      exact Nat.le_trans exchange.short room
  | @reading exchange todo failureCnt state waits below count =>
      right
      rcases serves.reads waits with ⟨after, reads⟩
      refine ⟨⟨_, _, _, after⟩, .read exchange.some ?_⟩
      rwa [List.take_of_length_le exchange.short]
  | @answering exchange todo failureCnt state output stdoutPipe text writing answer below count =>
      right
      by_cases all : exchange.lines.length ≤ output.count '\n'
      · exact ⟨_, .next rfl (exchange.sameNumber ▸ all)⟩
      · -- a line is missing, so there is something to collect or to write
        cases stdoutPipe with
        | cons c rest =>
            refine ⟨_, .collect (List.cons_ne_nil c []) rfl (show 1 ≤ pipeBuf by decide) ?_⟩
            rw [exchange.sameNumber]
            exact Nat.ne_of_lt (Nat.lt_of_not_le all)
        | nil =>
            cases text with
            | nil =>
                rw [List.append_nil, List.append_nil] at answer
                rw [answer, count_answer] at all
                exact absurd (Nat.le_refl _) all
            | cons c rest =>
                rcases serves.writes writing with ⟨after, writes⟩
                exact ⟨_, .write writes (Nat.le_trans (show 1 ≤ pipeBuf by decide) room)⟩
  | finished => exact .inl rfl

theorem Conforms.runs (serves : Serves process Waits Writing) {failures left steps : Nat}
    {start last : System State} (conforms : Conforms Waits Writing failures left start)
    (run : Runs capacity process steps start last) :
    ∃ fewer, fewer + steps ≤ left ∧ Conforms Waits Writing failures fewer last := by
  induction run with
  | none => exact ⟨left, Nat.le_refl _, conforms⟩
  | step _ step induction =>
      rcases induction conforms with ⟨fewer, enough, conforms⟩
      rcases conforms.step serves step with ⟨fewest, less, conforms⟩
      exact ⟨fewest, by omega, conforms⟩

end Invariant

end JoinOperator.Harness
