import JoinOperator.Receiver.StartUp
import JoinOperator.Reference.LoadedRelations
import JoinOperator.Reference.ResolvedQueries

/-! # The driver of the reference

The driver loads the relations that are named before `Done` and answers every line behind it that
is not `F`. The vector of the predicates keeps its capacity from query to query, so what it is for
a query is not known from the query alone.
-/

namespace JoinOperator.Reference

open Foundation QueryText Receiver InputFiles
open PipeIO (Message ended)

section Program

variable (multimap : Multimap) (capacity : Nat → Nat)

def answerLines (relations : List Relation) : Nat → List (List Char) → Except Fault (List Char)
  | _, [] => .ok []
  | answered, line :: rest =>
      if line = ['F'] then answerLines relations answered rest
      else do
        let query ← parseQuery line
        let text ← join multimap relations (capacity answered) query
        let others ← answerLines relations (answered + 1) rest
        .ok (text ++ others)

def addRelation (files : List Char → Option (List UInt8)) (line : List Char) :
    Except Fault Relation := do
  let inputFile ← orFault .relation (files (line.takeWhile (· ≠ '\x00')))
  loadRelation inputFile

/-- `main`, from what can be read to what is written. -/
def driver (files : List Char → Option (List UInt8)) (input : List Char) :
    Except Fault (List Char) := do
  let lines := tokens '\n' input
  let relations ← (lines.takeWhile (· ≠ ['D', 'o', 'n', 'e'])).mapM (addRelation files)
  answerLines multimap capacity relations 0
    ((lines.dropWhile (· ≠ ['D', 'o', 'n', 'e'])).drop 1)

end Program

section Queries

variable {relArr : List Relationsheep} {query : AbstractQuery Nat}

theorem resolvedName_resolved {rels : List Nat} {name : ColumnName Nat}
    (valid : name.Valid relArr rels) : (resolvedName rels name).Resolved rels := by
  rcases valid.column with ⟨real, relation, isReal, _⟩
  refine ⟨?_, Nat.lt_trans valid.fits.1 (by decide), Nat.lt_trans valid.fits.2 (by decide)⟩
  simp only [resolvedName, List.getD_eq_getElem?_getD, isReal, Option.getD_some]

theorem resolvedInfo_resolved (valid : query.Valid relArr) : (resolvedInfo query).Resolved where
  relationIds := fun real member => Nat.lt_trans (valid.rels real member).1 (by decide)
  predicates := by
    intro pInfo member
    rcases List.mem_map.mp member with ⟨join, isJoin, rfl⟩
    have both := valid.predicates _ (mem_joins isJoin)
    exact ⟨resolvedName_resolved both.1, resolvedName_resolved both.2⟩
  filters := by
    intro f member
    rcases List.mem_map.mp member with ⟨filter, isFilter, rfl⟩
    have isValid := valid.predicates _ (mem_filters isFilter)
    exact ⟨resolvedName_resolved isValid.1, Nat.lt_trans isValid.2 (by decide)⟩
  selections := by
    intro info member
    rcases List.mem_map.mp member with ⟨name, isSum, rfl⟩
    exact resolvedName_resolved (valid.sums name isSum)

theorem short_of_valid {rels : List Nat} {name : ColumnName Nat}
    (valid : name.Valid relArr rels) : ShortName name :=
  ⟨Nat.lt_trans valid.fits.1 (by decide), Nat.lt_trans valid.fits.2 (by decide)⟩

theorem parseQuery_text {written : AbstractQuery Numeral} (valid : written.meant.Valid relArr) :
    parseQuery written.text = .ok (resolvedInfo written.meant) := by
  have shortRels : ∀ rel ∈ written.rels, rel.value < 2 ^ 32 := fun rel member =>
    Nat.lt_trans (valid.rels rel.value (List.mem_map_of_mem member)).1 (by decide)
  have shortPredicates : ∀ predicate ∈ written.predicates,
      ShortPredicate (predicate.map Numeral.value) := by
    intro predicate member
    have isValid := valid.predicates _ (List.mem_map_of_mem member)
    cases predicate with
    | join left right => exact ⟨short_of_valid isValid.1, short_of_valid isValid.2⟩
    | filter participant op constant =>
        exact ⟨short_of_valid isValid.1, Nat.lt_trans isValid.2 (by decide)⟩
  have shortSums : ∀ sum ∈ written.sums, ShortName (sum.map Numeral.value) := fun sum member =>
    short_of_valid (valid.sums _ (List.mem_map_of_mem member))
  have text : written.text = separated ' ' (written.rels.map Numeral.digits) ++ '|' ::
      (separated '&' (written.predicates.map Predicate.text) ++ '|' ::
        separated ' ' (written.sums.map ColumnName.text)) := by
    rw [AbstractQuery.text, delimited_eq_separated (mt List.map_eq_nil_iff.mp written.someRels),
      delimited_eq_separated (mt List.map_eq_nil_iff.mp written.somePredicates), List.append_assoc,
      List.append_assoc, List.singleton_append, List.singleton_append]
  rw [text, parseQuery_parts written.someSums shortRels shortPredicates shortSums]
  have resolved := resolveRelationIds_eq (resolvedInfo_resolved valid)
  simp only [resolvedInfo, List.map_map] at resolved
  rw [resolvedInfo]
  exact resolved

end Queries

section Answers

variable {relArr : List Relationsheep} {multimap : Multimap} {capacity : Nat → Nat}

/-- Where an answer may fail: a set that is not ordered, or predicates for which there is no
capacity. -/
def FailsAt (capacity : Nat → Nat) (queries : List (AbstractQuery Nat)) (answered : Nat)
    (fault : Fault) : Prop :=
  ∃ number query, queries[number]? = some query ∧
    (fault = .comparator ∧ query.rels.length ≤ query.joins.length ∨
      fault = .dangling ∧ capacity (answered + number) <
        query.joins.length + (query.joins.length - 1).choose 2)

theorem text_ne_stopWord (written : AbstractQuery Numeral) : written.text ≠ ['F'] := fun same =>
  written.text_not_prefix (same ▸ List.prefix_refl _)

theorem answerLines_spec {batches : List (List (AbstractQuery Numeral))}
    (valid : ∀ query ∈ batches.flatten, query.meant.Valid relArr ∧ StartsJoined query.meant)
    (answered : Nat) :
    match answerLines multimap capacity (relArr.map .ofTable) answered
        (batches.flatMap fun batch => batch.map AbstractQuery.text ++ [['F']]) with
    | .ok out => out = batches.flatten.flatMap (referenceLine relArr ·.meant)
    | .error fault => FailsAt capacity (batches.flatten.map AbstractQuery.meant) answered fault := by
  induction batches generalizing answered with
  | nil => rfl
  | cons batch batches induction =>
      induction batch generalizing answered with
      | nil =>
          have spec := induction valid answered
          rwa [List.flatMap_cons, List.map_nil, List.nil_append, List.singleton_append,
            answerLines, if_pos rfl]
      | cons written batch inductionBatch =>
          rw [List.flatten_cons, List.cons_append] at valid
          have first := valid written List.mem_cons_self
          have spec := inductionBatch (fun query member =>
            valid query (List.mem_cons_of_mem _ member)) (answered + 1)
          rw [List.flatMap_cons, List.map_cons, List.cons_append, List.cons_append, answerLines,
            if_neg (text_ne_stopWord written), parseQuery_text first.1, ok_bind]
          rw [List.flatMap_cons] at spec
          have joined := join_answeredBy first.1 first.2 multimap (capacity answered)
          cases answer : join multimap (relArr.map .ofTable) (capacity answered)
              (resolvedInfo written.meant) with
          | error fault =>
              rw [answer] at joined
              exact ⟨0, written.meant, rfl, joined⟩
          | ok text =>
              rw [answer] at joined
              rw [ok_bind]
              cases others : answerLines multimap capacity (relArr.map .ofTable) (answered + 1)
                  ((batch.map AbstractQuery.text ++ [['F']]) ++
                    batches.flatMap fun batch => batch.map AbstractQuery.text ++ [['F']]) with
              | error fault =>
                  rw [others] at spec
                  rcases spec with ⟨number, query, isQuery, fails⟩
                  refine ⟨number + 1, query, isQuery, ?_⟩
                  rwa [Nat.add_comm number, ← Nat.add_assoc]
              | ok out =>
                  rw [others] at spec
                  rw [ok_bind]
                  change text ++ out = _
                  rw [joined, spec, List.flatten_cons, List.flatten_cons, List.cons_append,
                    List.flatMap_cons]

end Answers

section Runs

variable {relArr : List Relationsheep} {files : List Char → Option (List UInt8)}
  {names : NamesMessage}

theorem addRelations_eq (isFiles : List.Forall₂ (IsFileOf files) names.lines relArr)
    (stored : ∀ relation ∈ relArr, IsStored relation) :
    names.lines.mapM (addRelation files) = .ok (relArr.map .ofTable) := by
  have clean := names.clean
  generalize names.lines = lines at isFiles clean
  apply mapM_eq_ok.mpr
  induction isFiles with
  | nil => exact .nil
  | @cons line relation lines relArr isFile _ induction =>
      rcases isFile with ⟨inputFile, opened, bytes⟩
      have isName : line.takeWhile (· ≠ '\x00') = line := by
        apply List.takeWhile_eq_self_iff.mpr
        intro c member
        exact decide_eq_true fun same => clean line List.mem_cons_self (same ▸ member)
      have loaded : loadRelation inputFile = .ok (.ofTable relation) :=
        loadRelation_of_fillRel (fillRel_eq_ok.mpr ⟨stored relation List.mem_cons_self, bytes⟩)
      refine .cons ?_ (induction (fun other member => stored other (List.mem_cons_of_mem _ member))
        fun other member => clean other (List.mem_cons_of_mem _ member))
      rw [addRelation, isName, opened, orFault, ok_bind, loaded]

def sessionInput (names : NamesMessage) (batches : List (List (AbstractQuery Numeral))) :
    List Char :=
  names.stream ++ batches.flatMap fun batch => (batchMessage batch).stream

theorem stream_batchMessage (batch : List (AbstractQuery Numeral)) :
    (batch.map AbstractQuery.text ++ [['F']]).flatMap (· ++ ['\n']) =
      (batchMessage batch).stream := by
  rw [List.flatMap_append, List.flatMap_singleton]
  rfl

theorem streams_batches (batches : List (List (AbstractQuery Numeral))) :
    (batches.flatMap fun batch => batch.map AbstractQuery.text ++ [['F']]).flatMap (· ++ ['\n']) =
      batches.flatMap fun batch => (batchMessage batch).stream := by
  rw [List.flatMap_assoc]
  exact List.flatMap_congr fun batch _ => stream_batchMessage batch

theorem newline_notMem_batches {batches : List (List (AbstractQuery Numeral))} {line : List Char}
    (member : line ∈ batches.flatMap fun batch => batch.map AbstractQuery.text ++ [['F']]) :
    '\n' ∉ line := by
  rcases List.mem_flatMap.mp member with ⟨batch, _, member⟩
  rcases List.mem_append.mp member with isQuery | isStop
  · rcases List.mem_map.mp isQuery with ⟨query, _, rfl⟩
    exact query.not_mem_text rfl (by decide)
  · cases List.mem_singleton.mp isStop
    decide

theorem tokens_sessionInput (batches : List (List (AbstractQuery Numeral))) :
    tokens '\n' (sessionInput names batches) = names.lines ++ ['D', 'o', 'n', 'e'] ::
      batches.flatMap fun batch => batch.map AbstractQuery.text ++ [['F']] := by
  have input : sessionInput names batches = (names.lines ++ ['D', 'o', 'n', 'e'] ::
      batches.flatMap fun batch => batch.map AbstractQuery.text ++ [['F']]).flatMap
        (· ++ ['\n']) := by
    rw [List.flatMap_append, List.flatMap_cons, streams_batches, sessionInput, Message.stream,
      names.isDone, List.append_assoc]
    rfl
  rw [input]
  apply tokens_endedWords
  intro line member
  rcases List.mem_append.mp member with isName | member
  · exact (names.areLines line isName).2.1
  · rcases List.mem_cons.mp member with rfl | member
    · decide
    · exact newline_notMem_batches member

/-- The driver answers the lines of all batches on the tables that are named. -/
theorem driver_eq (multimap : Multimap) (capacity : Nat → Nat)
    (isFiles : List.Forall₂ (IsFileOf files) names.lines relArr)
    (stored : ∀ relation ∈ relArr, IsStored relation)
    (batches : List (List (AbstractQuery Numeral))) :
    driver multimap capacity files (sessionInput names batches) =
      answerLines multimap capacity (relArr.map .ofTable) 0
        (batches.flatMap fun batch => batch.map AbstractQuery.text ++ [['F']]) := by
  have isName : ∀ line ∈ names.lines, decide (line ≠ ['D', 'o', 'n', 'e']) = true :=
    fun line member => decide_eq_true (names.isDone ▸ (names.areLines line member).2.2)
  rw [driver, tokens_sessionInput]
  simp only [List.takeWhile_append_of_pos isName, List.dropWhile_append_of_pos isName]
  rw [List.takeWhile_cons_of_neg (by decide), List.dropWhile_cons_of_neg (by decide),
    List.append_nil, addRelations_eq isFiles stored, ok_bind]
  rfl

end Runs

end JoinOperator.Reference
