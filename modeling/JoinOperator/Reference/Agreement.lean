import JoinOperator.Reference.Driver

/-! # The receiver and the reference

Both programs are given the same characters. They write the same when every query selects nothing
or has no sum that is zero as a number of 64 bits: for such a sum the receiver writes `NULL`, and
the reference a zero.
-/

namespace JoinOperator.Reference

open Foundation RadixJoin QueryText Receiver Planner Executor InputFiles
open PipeIO (Read shownText shownText_of_lt)

/-- A query that selects rows over which a sum is zero. -/
def HidesZero (relArr : List Relationsheep) (query : AbstractQuery Nat) : Prop :=
  result relArr query ≠ [] ∧ ∃ name ∈ query.sums, sumOf relArr query name % 2 ^ 64 = 0

instance (relArr : List Relationsheep) : DecidablePred (HidesZero relArr) := fun _ =>
  inferInstanceAs (Decidable (_ ∧ _))

section Lines

variable {relArr : List Relationsheep} {query : AbstractQuery Nat}

def referenceWord (relArr : List Relationsheep) (query : AbstractQuery Nat)
    (name : ColumnName Nat) : List Char :=
  if result relArr query = [] then nullText else numeral (sumOf relArr query name % 2 ^ 64)

theorem clean_nullText : ∀ c ∈ nullText, (c = ' ' ∨ c = '\n') → False := by
  intro c member separates
  rcases separates with rfl | rfl
  · exact absurd member (show ' ' ∉ nullText by decide)
  · exact absurd member (show '\n' ∉ nullText by decide)

theorem clean_numeral (value : Nat) : ∀ c ∈ numeral value, (c = ' ' ∨ c = '\n') → False := by
  intro c member separates
  rcases separates with rfl | rfl
  · exact not_mem_numeral rfl value member
  · exact not_mem_numeral rfl value member

theorem clean_referenceWord (name : ColumnName Nat) :
    ∀ c ∈ referenceWord relArr query name, (c = ' ' ∨ c = '\n') → False := by
  rw [referenceWord]
  split
  · exact clean_nullText
  · exact clean_numeral _

theorem clean_shownText {value : Nat} (small : value < 2 ^ 63) :
    ∀ c ∈ shownText value, (c = ' ' ∨ c = '\n') → False := by
  by_cases zero : value = 0
  · rw [zero]
    exact clean_nullText
  · rw [shownText_of_lt zero small]
    exact clean_numeral value

theorem delimited_inj {words others : List (List Char)}
    (clean : ∀ word ∈ words, ∀ c ∈ word, (c = ' ' ∨ c = '\n') → False)
    (cleanOthers : ∀ word ∈ others, ∀ c ∈ word, (c = ' ' ∨ c = '\n') → False) :
    delimited ' ' '\n' words = delimited ' ' '\n' others ↔ words = others := by
  refine ⟨fun same => ?_, congrArg _⟩
  have read {texts : List (List Char)}
      (clean : ∀ word ∈ texts, ∀ c ∈ word, (c = ' ' ∨ c = '\n') → False) :
      endedWords (fun c => c = ' ' ∨ c = '\n') [] (delimited ' ' '\n' texts) = texts :=
    endedWords_delimited (by decide) (by decide) fun word member c inWord =>
      decide_eq_false (clean word member c inWord)
  rw [← read clean, same, read cleanOthers]

/-- A word of the receiver is that of the reference, unless a sum over some rows is zero. -/
theorem shownText_eq_referenceWord_iff {name : ColumnName Nat}
    (small : sumOf relArr query name % 2 ^ 64 < 2 ^ 63) :
    shownText (sumOf relArr query name % 2 ^ 64) = referenceWord relArr query name ↔
      result relArr query = [] ∨ sumOf relArr query name % 2 ^ 64 ≠ 0 := by
  rw [referenceWord]
  by_cases none : result relArr query = []
  · have zero : sumOf relArr query name % 2 ^ 64 = 0 := by
      rw [sumOf, none]
      rfl
    rw [if_pos none, zero]
    exact iff_of_true rfl (.inl none)
  · rw [if_neg none]
    by_cases zero : sumOf relArr query name % 2 ^ 64 = 0
    · rw [zero]
      exact iff_of_false (by decide) fun either => either.elim none fun positive => positive rfl
    · exact iff_of_true (shownText_of_lt zero small) (.inr zero)

def answerText (relArr : List Relationsheep) (query : AbstractQuery Nat) : List Char :=
  separated ' ' (query.sums.map fun name => shownText (sumOf relArr query name % 2 ^ 64))

def referenceText (relArr : List Relationsheep) (query : AbstractQuery Nat) : List Char :=
  separated ' ' (query.sums.map (referenceWord relArr query))

theorem answerLine_eq : answerLine relArr query = answerText relArr query ++ ['\n'] :=
  delimited_eq_separated (mt List.map_eq_nil_iff.mp query.someSums) ' ' '\n'

theorem answerText_eq_referenceText_iff
    (small : ∀ name ∈ query.sums, sumOf relArr query name % 2 ^ 64 < 2 ^ 63) :
    answerText relArr query = referenceText relArr query ↔ ¬ HidesZero relArr query := by
  have lines : answerText relArr query = referenceText relArr query ↔
      delimited ' ' '\n' (query.sums.map fun name =>
          shownText (sumOf relArr query name % 2 ^ 64)) =
        delimited ' ' '\n' (query.sums.map (referenceWord relArr query)) := by
    rw [delimited_eq_separated (mt List.map_eq_nil_iff.mp query.someSums),
      delimited_eq_separated (mt List.map_eq_nil_iff.mp query.someSums), List.append_left_inj]
    rfl
  rw [lines, delimited_inj, List.map_inj_left,
    forall₂_congr fun name member => shownText_eq_referenceWord_iff (small name member)]
  · by_cases none : result relArr query = []
    · exact iff_of_true (fun _ _ => .inl none) fun hides => hides.1 none
    · rw [HidesZero, not_and_or, not_not, or_iff_right none]
      simp only [none, false_or, not_exists, not_and, ne_eq]
  · exact List.forall_mem_map.mpr fun name member => clean_shownText (small name member)
  · exact List.forall_mem_map.mpr fun name _ => clean_referenceWord name

theorem newline_notMem {words : List (List Char)}
    (clean : ∀ word ∈ words, ∀ c ∈ word, (c = ' ' ∨ c = '\n') → False) :
    '\n' ∉ separated ' ' words := by
  intro member
  rcases mem_separated member with ⟨word, isWord, inWord⟩ | isSeparator
  · exact clean word isWord '\n' inWord (.inr rfl)
  · cases isSeparator

theorem newline_notMem_answerText
    (small : ∀ name ∈ query.sums, sumOf relArr query name % 2 ^ 64 < 2 ^ 63) :
    '\n' ∉ answerText relArr query :=
  newline_notMem (List.forall_mem_map.mpr fun name member => clean_shownText (small name member))

theorem newline_notMem_referenceText : '\n' ∉ referenceText relArr query :=
  newline_notMem (List.forall_mem_map.mpr fun name _ => clean_referenceWord name)

theorem answerLines_eq_iff {queries : List (AbstractQuery Nat)}
    (small : ∀ query ∈ queries, ∀ name ∈ query.sums,
      sumOf relArr query name % 2 ^ 64 < 2 ^ 63) :
    queries.flatMap (answerLine relArr) = queries.flatMap (referenceLine relArr) ↔
      ∀ query ∈ queries, ¬ HidesZero relArr query := by
  have lines (body : AbstractQuery Nat → List Char) : (queries.flatMap fun query =>
      body query ++ ['\n']) = (queries.map body).flatMap fun line => line ++ ['\n'] :=
    (List.flatMap_map body (fun line => line ++ ['\n']) queries).symm
  have reference (query : AbstractQuery Nat) : referenceLine relArr query =
      referenceText relArr query ++ ['\n'] := rfl
  rw [List.flatMap_congr fun query _ => @answerLine_eq relArr query,
    List.flatMap_congr fun query _ => reference query, lines, lines, flatMap_ended_inj,
    List.map_inj_left]
  · exact forall₂_congr fun query member => answerText_eq_referenceText_iff (small query member)
  · exact List.forall_mem_map.mpr fun query member => newline_notMem_answerText (small query member)
  · exact List.forall_mem_map.mpr fun query _ => newline_notMem_referenceText

end Lines

/-- A query that both programs answer: its relations are connected without a join to spare. -/
structure Comparable (relArr : List Relationsheep) (written : AbstractQuery Numeral) : Prop where
  supported : Supported relArr written
  answerable : Answerable relArr written.meant
  few : written.meant.joins.length < written.meant.rels.length

/-- There is capacity for the predicates that wait, whatever the order of the predicates is. -/
def HasCapacity (capacity : Nat → Nat) (queries : List (AbstractQuery Numeral)) : Prop :=
  ∀ number query, queries[number]? = some query →
    query.meant.joins.length + (query.meant.joins.length - 1).choose 2 ≤ capacity number

section Sessions

variable {relArr : List Relationsheep}

theorem Comparable.startsJoined {written : AbstractQuery Numeral}
    (comparable : Comparable relArr written) : StartsJoined written.meant := by
  have tree := comparable.supported.tree
  refine ⟨?_, tree.connected⟩
  have links := tree.links
  have few := comparable.few
  have all : written.meant.joins.countP (fun join => join.1.rel ≠ join.2.rel) =
      written.meant.joins.length := by
    have atMost := @List.countP_le_length _ (fun join : ColumnName Nat × ColumnName Nat =>
      decide (join.1.rel ≠ join.2.rel)) written.meant.joins
    omega
  have many := tree.many
  cases joins : written.meant.joins with
  | nil =>
      rw [joins, List.countP_nil] at links
      omega
  | cons join rest =>
      refine ⟨join, rest, rfl, ?_⟩
      rw [List.countP_eq_length] at all
      exact of_decide_eq_true (all join (joins ▸ List.mem_cons_self))

/-- The driver answers the lines of a session in their order, unless a set that is not ordered or
predicates without capacity stop it. -/
theorem driver_written {files : List Char → Option (List UInt8)} {names : NamesMessage}
    (isFiles : List.Forall₂ (IsFileOf files) names.lines relArr)
    (stored : ∀ relation ∈ relArr, IsStored relation)
    {batches : List (List (AbstractQuery Numeral))}
    (valid : ∀ query ∈ batches.flatten, query.meant.Valid relArr ∧ StartsJoined query.meant)
    (multimap : Multimap) (capacity : Nat → Nat) :
    match driver multimap capacity files (sessionInput names batches) with
    | .ok out => out = batches.flatten.flatMap (referenceLine relArr ·.meant)
    | .error fault => FailsAt capacity (batches.flatten.map AbstractQuery.meant) 0 fault := by
  rw [driver_eq multimap capacity isFiles stored]
  exact answerLines_spec valid 0

/-- Equal keys in the order in which they were inserted. -/
def Multimap.inOrder : Multimap where
  equalRange := fun keys key => (List.range keys.length).filter fun i => keys[i]? = some key
  perm := fun _ _ => .refl _

theorem referenceLine_selfJoinQuery : referenceLine oneTable selfJoinQuery = ['7', '\n'] := by
  have sum : sumOf oneTable selfJoinQuery ⟨1, 0⟩ = 7 := by decide
  have some : result oneTable selfJoinQuery ≠ [] := by decide
  change (if result oneTable selfJoinQuery = [] then nullText
    else numeral (sumOf oneTable selfJoinQuery ⟨1, 0⟩ % 2 ^ 64)) ++ ['\n'] = _
  rw [if_neg some, sum, Nat.mod_eq_of_lt (by omega)]
  rfl

theorem selfJoinLine_comparable : Comparable oneTable selfJoinLine where
  supported := selfJoinLine_supported
  answerable := selfJoinLine_meant ▸ selfJoinQuery_answerable
  few := by
    rw [selfJoinLine_meant]
    decide

theorem selfJoinLine_hasCapacity :
    HasCapacity (fun _ => 1) [[selfJoinLine], [selfJoinLine]].flatten := by
  intro number query isQuery
  have member : query ∈ [selfJoinLine, selfJoinLine] := List.mem_of_getElem? isQuery
  have same : query = selfJoinLine := by simpa using member
  rw [same, selfJoinLine_meant]
  exact show 1 + (1 - 1).choose 2 ≤ 1 by decide

theorem oneFile_isFile : List.Forall₂ (IsFileOf oneFile) oneName.lines oneTable :=
  .cons ⟨_, rfl, List.prefix_refl _⟩ .nil

theorem driver_written_selfJoin :
    driver .inOrder (fun _ => 1) oneFile (sessionInput oneName [[selfJoinLine], [selfJoinLine]]) =
      .ok ['7', '\n', '7', '\n'] := by
  have valid : ∀ query ∈ [[selfJoinLine], [selfJoinLine]].flatten,
      query.meant.Valid oneTable ∧ StartsJoined query.meant := by
    have isValid : selfJoinLine.meant.Valid oneTable ∧ StartsJoined selfJoinLine.meant :=
      ⟨selfJoinLine_comparable.supported.valid, selfJoinLine_comparable.startsJoined⟩
    exact List.forall_mem_cons.mpr ⟨isValid, List.forall_mem_singleton.mpr isValid⟩
  have spec := driver_written oneFile_isFile oneTable_stored valid .inOrder fun _ => 1
  cases written : driver .inOrder (fun _ => 1) oneFile
      (sessionInput oneName [[selfJoinLine], [selfJoinLine]]) with
  | ok out =>
      rw [written] at spec
      rw [spec]
      change Except.ok (referenceLine oneTable selfJoinLine.meant ++
        (referenceLine oneTable selfJoinLine.meant ++ [])) = _
      rw [selfJoinLine_meant, referenceLine_selfJoinQuery]
      rfl
  | error fault =>
      rw [written] at spec
      rcases spec with ⟨number, query, isQuery, fails⟩
      have same : query = selfJoinQuery := by
        have member : query ∈ [selfJoinLine.meant, selfJoinLine.meant] :=
          List.mem_of_getElem? isQuery
        rw [selfJoinLine_meant] at member
        simpa using member
      rw [same] at fails
      rcases fails with ⟨_, many⟩ | ⟨_, small⟩
      · exact absurd many (by decide)
      · exact absurd small (show ¬ 1 < 1 + (1 - 1).choose 2 by decide)

theorem driver_answers {files : List Char → Option (List UInt8)} {names : NamesMessage}
    (isFiles : List.Forall₂ (IsFileOf files) names.lines relArr)
    (stored : ∀ relation ∈ relArr, IsStored relation)
    {batches : List (List (AbstractQuery Numeral))}
    (comparable : ∀ query ∈ batches.flatten, Comparable relArr query) (multimap : Multimap)
    {capacity : Nat → Nat} (room : HasCapacity capacity batches.flatten) :
    driver multimap capacity files (sessionInput names batches) =
      .ok (batches.flatten.flatMap (referenceLine relArr ·.meant)) := by
  have spec := @answerLines_spec relArr multimap capacity batches
    (fun query member => ⟨(comparable query member).supported.valid,
      (comparable query member).startsJoined⟩) 0
  rw [driver_eq multimap capacity isFiles stored]
  cases answered : answerLines multimap capacity (relArr.map .ofTable) 0
      (batches.flatMap fun batch => batch.map AbstractQuery.text ++ [['F']]) with
  | ok out =>
      rw [answered] at spec
      exact congrArg _ spec
  | error fault =>
      rw [answered] at spec
      rcases spec with ⟨number, query, isQuery, fails⟩
      rw [List.getElem?_map] at isQuery
      rcases Option.map_eq_some_iff.mp isQuery with ⟨written, isWritten, rfl⟩
      rcases fails with ⟨_, many⟩ | ⟨_, small⟩
      · exact absurd many (Nat.not_le_of_lt
          (comparable written (List.mem_of_getElem? isWritten)).few)
      · rw [Nat.zero_add] at small
        exact absurd small (Nat.not_lt_of_le (room number written isWritten))

/-- Both programs answer a session of comparable queries, and what they write is the same if and
only if no query selects rows over which a sum is zero. -/
theorem driver_agrees_iff {atoi : List Char → Int} (reads : ReadsNumerals atoi)
    (estimator : Estimator) (orders : Nat → JoinOrders)
    {files : List Char → Option (List UInt8)} {names : NamesMessage} {nameRead : Read}
    (named : nameRead.bytes = names.stream)
    (isFiles : List.Forall₂ (IsFileOf files) names.lines relArr)
    (stored : ∀ relation ∈ relArr, IsStored relation)
    (columns : ∀ relation ∈ relArr, 0 < relation.cols) (room : EnoughRoom relArr)
    {batches : List (List (AbstractQuery Numeral))} {delivered : List (List Read)}
    (delivers : List.Forall₂ Delivers batches delivered) (some : ∀ batch ∈ batches, batch ≠ [])
    (comparable : ∀ query ∈ batches.flatten, Comparable relArr query) (multimap : Multimap)
    {capacity : Nat → Nat} (hasCapacity : HasCapacity capacity batches.flatten) :
    startUp files [nameRead] = .ok relArr ∧
    ∃ (occupied : ∀ relation ∈ relArr, 0 < relation.rows) (after : Answers _) (out : List Char),
      receiveBatches atoi estimator (roomyJoiner occupied orders) delivered
        ⟨[], ⟨0, initialiseWarehouses relArr⟩⟩ = .ok after ∧
      driver multimap capacity files (sessionInput names batches) = .ok out ∧
      (after.written.flatten = out ↔
        ∀ query ∈ batches.flatten, ¬ HidesZero relArr query.meant) := by
  have tables := areTables_of_stored stored columns
  refine ⟨startUp_eq named isFiles stored, tables.occupied, ?_⟩
  have answered := @answered_receiveBatches _ _ _ _ ⟨[], ⟨0, initialiseWarehouses relArr⟩⟩
    reads estimator tables (roomyJoiner_returnsBelow tables.occupied room orders) _ _ delivers some
    (fun query member => (comparable query member).supported)
    (roomyJoiner_valid tables.occupied orders)
  cases received : receiveBatches atoi estimator (roomyJoiner tables.occupied orders) delivered
      ⟨[], ⟨0, initialiseWarehouses relArr⟩⟩ with
  | error stopped =>
      rw [received] at answered
      rcases answered with ⟨_, before, query, rest, queries, notAnswerable, _⟩
      have member : query ∈ batches.flatten := by
        rw [queries]
        exact List.mem_append_right _ List.mem_cons_self
      exact absurd (comparable query member).answerable notAnswerable
  | ok after =>
      rw [received] at answered
      refine ⟨after, _, rfl, driver_answers isFiles stored comparable multimap hasCapacity, ?_⟩
      have small : ∀ query ∈ batches.flatten.map AbstractQuery.meant, ∀ name ∈ query.sums,
          sumOf relArr query name % 2 ^ 64 < 2 ^ 63 :=
        List.forall_mem_map.mpr fun query member => (comparable query member).supported.small
      have lines := answerLines_eq_iff small
      rw [List.flatMap_map, List.flatMap_map, List.forall_mem_map] at lines
      rw [answered.1, List.nil_append, ← List.flatMap_def, lines]

theorem driver_agrees_selfJoin : ∃ (nameRead read : Read) (after : Answers _),
    startUp oneFile [nameRead] = .ok oneTable ∧
    receiveBatches longAtoi naturalEstimator
      (roomyJoiner oneTable_tables.occupied fun _ => ⟨⟨[], []⟩, ⟨[], []⟩, []⟩) [[read], [read]]
      ⟨[], ⟨0, initialiseWarehouses oneTable⟩⟩ = .ok after ∧
    driver .inOrder (fun _ => 1) oneFile (sessionInput oneName [[selfJoinLine], [selfJoinLine]]) =
      .ok after.written.flatten := by
  have nameFits : oneName.stream.length ≤ PipeIO.maxBuffer := by decide
  have nameRead : ∃ read : Read, read.bytes = oneName.stream :=
    ⟨Read.filled '\x00' oneName.stream nameFits, rfl⟩
  have fits : (batchMessage [selfJoinLine]).stream.length ≤ PipeIO.maxBuffer := by decide
  have delivered : ∃ read, Delivers [selfJoinLine] [read] :=
    ⟨Read.filled '\x00' (batchMessage [selfJoinLine]).stream fits, _, rfl, rfl⟩
  rcases nameRead with ⟨nameRead, named⟩
  rcases delivered with ⟨read, delivers⟩
  have some : ∀ batch ∈ [[selfJoinLine], [selfJoinLine]], batch ≠ [] :=
    List.forall_mem_cons.mpr ⟨List.cons_ne_nil _ _,
      List.forall_mem_singleton.mpr (List.cons_ne_nil _ _)⟩
  have comparable : ∀ query ∈ [[selfJoinLine], [selfJoinLine]].flatten,
      Comparable oneTable query :=
    List.forall_mem_cons.mpr ⟨selfJoinLine_comparable,
      List.forall_mem_singleton.mpr selfJoinLine_comparable⟩
  rcases driver_agrees_iff longAtoi_readsNumerals naturalEstimator
    (fun _ => ⟨⟨[], []⟩, ⟨[], []⟩, []⟩) named oneFile_isFile oneTable_stored
    oneTable_tables.columns ⟨by decide, by decide⟩ (.cons delivers (.cons delivers .nil)) some
    comparable .inOrder selfJoinLine_hasCapacity with ⟨started, occupied, after, out, received, ran, agrees⟩
  refine ⟨nameRead, read, after, started, received, ?_⟩
  rw [ran, agrees.mpr]
  intro query member
  have same : query = selfJoinLine := by simpa using member
  rw [same, selfJoinLine_meant]
  decide

end Sessions

end JoinOperator.Reference
