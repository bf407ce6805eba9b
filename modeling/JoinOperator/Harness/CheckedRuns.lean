import JoinOperator.Harness.ReceiverProcess

/-! # Runs of the harness with the receiver

The result file is what the reference writes. In every run the harness comes to an end, and then
has counted the queries that select rows over which a sum is zero.
-/

namespace JoinOperator.Harness

open Foundation RadixJoin QueryText Receiver Planner Executor InputFiles
open Reference (answerText referenceText referenceLine HidesZero)
open PipeIO (Message)

def workFile (batches : List (List (AbstractQuery Numeral))) : List Char :=
  batches.flatMap fun batch => (batchMessage batch).stream

section Files

variable {relArr : List Relationsheep}

theorem tokens_workFile (batches : List (List (AbstractQuery Numeral))) :
    tokens '\n' (workFile batches) =
      batches.flatMap fun batch => batch.map AbstractQuery.text ++ [['F']] := by
  rw [workFile, ← Reference.streams_batches]
  exact tokens_endedWords fun _ member => Reference.newline_notMem_batches member

theorem tokens_resultFile (queries : List (AbstractQuery Numeral)) :
    tokens '\n' (queries.flatMap (referenceLine relArr ·.meant)) =
      queries.map (referenceText relArr ·.meant) := by
  have lines : queries.flatMap (referenceLine relArr ·.meant) =
      (queries.map (referenceText relArr ·.meant)).flatMap (· ++ ['\n']) := by
    rw [List.flatMap_map]
    rfl
  rw [lines]
  apply tokens_endedWords
  exact List.forall_mem_map.mpr fun query _ => Reference.newline_notMem_referenceText

theorem batchesOf_eq (batches : List (List (AbstractQuery Numeral))) :
    batchesOf (workFile batches) (batches.flatten.flatMap (referenceLine relArr ·.meant)) =
      batches.map fun batch =>
        ⟨(batchMessage batch).stream, batch.map (referenceText relArr ·.meant)⟩ := by
  have isText (query : AbstractQuery Numeral) :
      query.text ≠ [] ∧ query.text.head? ≠ some 'F' := by
    rcases query.text_begins with ⟨c, rest, text, isDigit⟩
    rw [text]
    refine ⟨List.cons_ne_nil c rest, fun same => ?_⟩
    cases Option.some.inj same
    cases isDigit
  rw [batchesOf, tokens_workFile, tokens_resultFile, loadBatches_written isText]
  simp only [Reference.stream_batchMessage]

end Files

section Runs

variable {relArr : List Relationsheep}

/-- Batches that one read of the receiver holds, with queries that are answered. -/
structure IsWorkload (relArr : List Relationsheep) (batches : List (List (AbstractQuery Numeral))) :
    Prop where
  some : ∀ batch ∈ batches, batch ≠ []
  short : ∀ batch ∈ batches, (batchMessage batch).stream.length ≤ pipeBuf
  supported : ∀ query ∈ batches.flatten, Supported relArr query
  answerable : ∀ query ∈ batches.flatten, Answerable relArr query.meant

theorem countP_hidesZero {batch : List (AbstractQuery Numeral)}
    (supported : ∀ query ∈ batch, Supported relArr query) :
    ((batch.map (referenceText relArr ·.meant)).zip
        (batch.map (answerText relArr ·.meant))).countP (fun pair => pair.1 ≠ pair.2) =
      batch.countP fun query => HidesZero relArr query.meant := by
  rw [List.zip_map', List.countP_map]
  apply List.countP_congr
  intro query member
  have agrees := Reference.answerText_eq_referenceText_iff (supported query member).small
  rw [Function.comp_apply, decide_eq_true_iff, decide_eq_true_iff, ne_comm, ne_eq, agrees, not_not]

theorem exists_exchanges {batches : List (List (AbstractQuery Numeral))}
    (workload : IsWorkload relArr batches) :
    ∃ todo : List Exchange, todo.map Exchange.batch = batches.map (fun batch =>
        ⟨(batchMessage batch).stream, batch.map (referenceText relArr ·.meant)⟩) ∧
      (∀ exchange ∈ todo, IsExchange relArr exchange) ∧
      (todo.map fun exchange => (exchange.batch.results.zip exchange.lines).countP fun pair =>
        pair.1 ≠ pair.2).sum = batches.flatten.countP fun query => HidesZero relArr query.meant := by
  induction batches with
  | nil => exact ⟨[], rfl, List.forall_mem_nil _, rfl⟩
  | cons batch batches induction =>
      have supported : ∀ query ∈ batch, Supported relArr query := fun query member =>
        workload.supported query (List.mem_append_left _ member)
      have answerable : ∀ query ∈ batch, Answerable relArr query.meant := fun query member =>
        workload.answerable query (List.mem_append_left _ member)
      rcases induction ⟨fun other member => workload.some other (List.mem_cons_of_mem _ member),
        fun other member => workload.short other (List.mem_cons_of_mem _ member),
        fun query member => workload.supported query (List.mem_append_right _ member),
        fun query member => workload.answerable query (List.mem_append_right _ member)⟩ with
        ⟨todo, same, areExchanges, count⟩
      let exchange : Exchange :=
        { batch := ⟨(batchMessage batch).stream, batch.map (referenceText relArr ·.meant)⟩
          lines := batch.map (answerText relArr ·.meant)
          some := by
            apply List.ne_nil_of_length_pos
            rw [Message.length_stream]
            exact Nat.succ_pos _
          short := workload.short batch List.mem_cons_self
          sameNumber := by rw [List.length_map, List.length_map]
          areLines := List.forall_mem_map.mpr fun query member =>
            Reference.newline_notMem_answerText (supported query member).small
          someLines := mt List.map_eq_nil_iff.mp (workload.some batch List.mem_cons_self) }
      refine ⟨exchange :: todo, ?_, ?_, ?_⟩
      · rw [List.map_cons, List.map_cons, same]
      · exact List.forall_mem_cons.mpr ⟨⟨batch, rfl, rfl, fun query member =>
          ⟨supported query member, answerable query member⟩⟩, areExchanges⟩
      · rw [List.map_cons, List.sum_cons, count, List.flatten_cons, List.countP_append,
          countP_hidesZero supported]

/-- Whatever the order of the steps is, the harness comes to an end, and has then counted the
queries for which the receiver does not write what the reference has written. -/
theorem harness_counts {atoi : List Char → Int} (reads : ReadsNumerals atoi)
    (estimator : Estimator) (orders : Nat → JoinOrders)
    {files : List Char → Option (List UInt8)} {names : NamesMessage}
    (isFiles : List.Forall₂ (IsFileOf files) names.lines relArr)
    (stored : ∀ relation ∈ relArr, IsStored relation)
    (columns : ∀ relation ∈ relArr, 0 < relation.cols) (room : EnoughRoom relArr)
    {batches : List (List (AbstractQuery Numeral))} (workload : IsWorkload relArr batches)
    (starts : ∀ query ∈ batches.flatten, Reference.StartsJoined query.meant)
    {multimap : Reference.Multimap} {vectorCapacity : Nat → Nat} {resultFile : List Char}
    (isResult : Reference.driver multimap vectorCapacity files
      (Reference.sessionInput names batches) = .ok resultFile)
    {capacity : Nat} (enough : pipeBuf ≤ capacity) :
    ∃ (occupied : ∀ relation ∈ relArr, 0 < relation.rows) (mostSteps : Nat),
      ∀ steps last, Runs capacity (receiverProcess atoi estimator (roomyJoiner occupied orders))
        steps ⟨.begin 0 (batchesOf (workFile batches) resultFile), [], [],
          .reading noInput ⟨0, initialiseWarehouses relArr⟩⟩ last →
      steps ≤ mostSteps ∧
        (last.harness = .finished (min maxFailedQueries
            (batches.flatten.countP fun query => HidesZero relArr query.meant)) ∨
          ∃ after, Step capacity
            (receiverProcess atoi estimator (roomyJoiner occupied orders)) last after) := by
  have tables := areTables_of_stored stored columns
  refine ⟨tables.occupied, ?_⟩
  have result : resultFile = batches.flatten.flatMap (referenceLine relArr ·.meant) := by
    have spec := @Reference.answerLines_spec relArr multimap vectorCapacity batches
      (fun query member => ⟨(workload.supported query member).valid, starts query member⟩) 0
    rw [← Reference.driver_eq multimap vectorCapacity isFiles stored, isResult] at spec
    exact spec
  rcases exists_exchanges workload with ⟨todo, same, areExchanges, count⟩
  have serves := receiverProcess_serves reads estimator tables
    (roomyJoiner_returnsBelow tables.occupied room orders)
  have waits : AwaitsBatch (roomyJoiner tables.occupied orders) todo
      (.reading noInput ⟨0, initialiseWarehouses relArr⟩) :=
    ⟨areExchanges, _, rfl, roomyJoiner_valid tables.occupied orders⟩
  rcases @Conforms.begin _ _ (WritesAnswer (roomyJoiner tables.occupied orders)) _ _ waits 0
    (Nat.zero_le _) with ⟨left, _, conforms⟩
  have failures : failuresAfter 0 todo = min maxFailedQueries
      (batches.flatten.countP fun query => HidesZero relArr query.meant) := by
    rw [failuresAfter, Nat.zero_add, count]
  rw [failures, same, ← batchesOf_eq, ← result] at conforms
  refine ⟨left, fun steps last run => ?_⟩
  rcases conforms.runs serves run with ⟨fewer, few, after⟩
  exact ⟨by omega, after.progress serves enough⟩

theorem harness_counts_selfJoin : ∃ mostSteps, ∀ steps last,
    Runs pipeBuf (receiverProcess longAtoi naturalEstimator
        (roomyJoiner oneTable_tables.occupied fun _ => ⟨⟨[], []⟩, ⟨[], []⟩, []⟩))
      steps ⟨.begin 0 (batchesOf (workFile [[selfJoinLine], [selfJoinLine]])
          ['7', '\n', '7', '\n']), [], [],
        .reading noInput ⟨0, initialiseWarehouses oneTable⟩⟩ last →
    steps ≤ mostSteps ∧ (last.harness = .finished 0 ∨
      ∃ after, Step pipeBuf (receiverProcess longAtoi naturalEstimator
        (roomyJoiner oneTable_tables.occupied fun _ => ⟨⟨[], []⟩, ⟨[], []⟩, []⟩)) last after) := by
  have each {Holds : AbstractQuery Numeral → Prop} (holds : Holds selfJoinLine) :
      ∀ query ∈ [[selfJoinLine], [selfJoinLine]].flatten, Holds query :=
    List.forall_mem_cons.mpr ⟨holds, List.forall_mem_singleton.mpr holds⟩
  have fits : (batchMessage [selfJoinLine]).stream.length ≤ pipeBuf := by decide
  have workload : IsWorkload oneTable [[selfJoinLine], [selfJoinLine]] :=
    ⟨List.forall_mem_cons.mpr ⟨List.cons_ne_nil _ _,
        List.forall_mem_singleton.mpr (List.cons_ne_nil _ _)⟩,
      List.forall_mem_cons.mpr ⟨fits, List.forall_mem_singleton.mpr fits⟩,
      each selfJoinLine_supported, each (selfJoinLine_meant ▸ selfJoinQuery_answerable)⟩
  have starts : ∀ query ∈ [[selfJoinLine], [selfJoinLine]].flatten,
      Reference.StartsJoined query.meant := each Reference.selfJoinLine_comparable.startsJoined
  have result : Reference.driver .inOrder (fun _ => 1) oneFile
      (Reference.sessionInput oneName [[selfJoinLine], [selfJoinLine]]) =
        .ok ['7', '\n', '7', '\n'] := by
    rw [Reference.driver_answers Reference.oneFile_isFile oneTable_stored
      (each Reference.selfJoinLine_comparable) .inOrder Reference.selfJoinLine_hasCapacity]
    change Except.ok (referenceLine oneTable selfJoinLine.meant ++
      (referenceLine oneTable selfJoinLine.meant ++ [])) = _
    rw [selfJoinLine_meant, Reference.referenceLine_selfJoinQuery]
    rfl
  rcases harness_counts longAtoi_readsNumerals naturalEstimator
    (fun _ => ⟨⟨[], []⟩, ⟨[], []⟩, []⟩) Reference.oneFile_isFile oneTable_stored
    oneTable_tables.columns ⟨by decide, by decide⟩ workload starts result (Nat.le_refl pipeBuf) with
    ⟨occupied, mostSteps, ends⟩
  have none : min maxFailedQueries ([[selfJoinLine], [selfJoinLine]].flatten.countP fun query =>
      HidesZero oneTable query.meant) = 0 := by
    change min maxFailedQueries ([selfJoinLine, selfJoinLine].countP fun query =>
      HidesZero oneTable query.meant) = 0
    rw [List.countP_eq_zero.mpr (List.forall_mem_cons.mpr ⟨?_, List.forall_mem_singleton.mpr ?_⟩)]
    · rfl
    all_goals
      rw [selfJoinLine_meant]
      decide
  rw [none] at ends
  exact ⟨mostSteps, ends⟩

end Runs

end JoinOperator.Harness
