import JoinOperator.QueryText.Parts

/-! # The loop over the text

Reading the text of a query stores its parts, whatever `atoi` returns: the loop
and the storing of the parts one after the other fail or return together.
-/

namespace JoinOperator.QueryText

open Foundation

variable (atoi : List Char → Int) (relArr : List Relationsheep) {counts : Counts}
  {parts : Parts} {text rest : List Char} {mark : Nat}

theorem constructStep_slice0 {c : Char} (inside : c ≠ ' ' ∧ c ≠ '|') (i : Nat) :
    constructStep atoi relArr text (parts.construction counts mark 0) i c =
      pure (parts.construction counts mark 0) := by
  simp only [constructStep, Parts.construction, if_neg inside.1, if_neg inside.2]
  rfl

theorem constructStep_slice1 {c : Char} (inside : c ≠ '&' ∧ c ≠ '|') (i : Nat) :
    constructStep atoi relArr text (parts.construction counts mark 1) i c =
      pure (parts.construction counts mark 1) := by
  simp only [constructStep, Parts.construction, if_neg inside.1, if_neg inside.2]
  rfl

theorem constructStep_slice2 (state : Construction) (slice : state.slice = 2) {c : Char}
    (inside : c ≠ ' ' ∧ c ≠ '.') (i : Nat) :
    constructStep atoi relArr text state i c = pure state := by
  simp only [constructStep, slice, if_neg inside.1, if_neg inside.2]
  rfl

theorem Numeral.inside {c : Char} {written : Numeral} (member : c ∈ written.digits)
    {first second : Char} (noDigit : first.isDigit = false ∧ second.isDigit = false) :
    c ≠ first ∧ c ≠ second :=
  ⟨Numeral.ne_of_mem member noDigit.1, Numeral.ne_of_mem member noDigit.2⟩

theorem scan_rel {last : Char} {slice : Nat}
    (isLast : last = ' ' ∧ slice = 0 ∨ last = '|' ∧ slice = 1) {rel : Numeral}
    (ahead : text.drop mark = rel.digits ++ last :: rest)
    (room : parts.rels.length < counts.rels) :
    scan (constructStep atoi relArr text) mark (parts.construction counts mark 0)
        (rel.digits ++ last :: rest) =
      scan (constructStep atoi relArr text) (mark + rel.digits.length + 1)
        ((parts.storeRel atoi rel).construction counts (mark + rel.digits.length + 1) slice)
        rest := by
  have stored : constructStep atoi relArr text (parts.construction counts mark 0)
      (mark + rel.digits.length) last =
        addRel atoi (parts.construction counts (mark + rel.digits.length + 1) slice)
          rel.digits := by
    have part : cut text (parts.construction counts mark 0).mark (mark + rel.digits.length) =
        rel.digits := cut_of_drop ahead
    rcases isLast with ⟨rfl, rfl⟩ | ⟨rfl, rfl⟩
    · rw [constructStep, part]
      rfl
    · rw [constructStep, part]
      rfl
  rw [scan_word fun c member => constructStep_slice0 atoi relArr
    (Numeral.inside member ⟨rfl, rfl⟩), stored, addRel_construction atoi room, ok_bind]

theorem scan_rels {rels : List Numeral} (some : rels ≠ [])
    (ahead : text.drop mark = delimited ' ' '|' (rels.map Numeral.digits) ++ rest)
    (room : parts.rels.length + rels.length ≤ counts.rels) {markAfter : Nat}
    (isAfter : markAfter = mark + (delimited ' ' '|' (rels.map Numeral.digits)).length) :
    scan (constructStep atoi relArr text) mark (parts.construction counts mark 0)
        (delimited ' ' '|' (rels.map Numeral.digits) ++ rest) =
      scan (constructStep atoi relArr text) markAfter
        ((rels.foldl (Parts.storeRel atoi) parts).construction counts markAfter 1) rest := by
  induction rels generalizing parts mark with
  | nil => exact absurd rfl some
  | cons rel rels induction =>
      rw [List.length_cons] at room
      cases rels with
      | nil =>
          simp only [List.map_cons, List.map_nil, delimited, List.append_assoc,
            List.singleton_append, List.length_append, List.length_singleton] at ahead isAfter ⊢
          rw [scan_rel atoi relArr (.inr ⟨rfl, rfl⟩) ahead (by omega), isAfter, Nat.add_assoc]
          rfl
      | cons next rels =>
          simp only [List.map_cons, delimited, List.append_assoc, List.cons_append,
            List.length_append, List.length_cons] at ahead isAfter ⊢
          have roomAfter : (parts.storeRel atoi rel).rels.length + (next :: rels).length ≤
              counts.rels := by
            rw [Parts.storeRel, List.length_append, List.length_singleton]
            omega
          rw [scan_rel atoi relArr (.inl ⟨rfl, rfl⟩) ahead (by omega)]
          apply induction (List.cons_ne_nil _ _) (drop_word ahead) roomAfter
          rw [isAfter, List.map_cons]
          omega

theorem Predicate.inside {predicate : Predicate Numeral} {c : Char}
    (member : c ∈ predicate.text) : c ≠ '&' ∧ c ≠ '|' := by
  have notIn {other : Char} (noDigit : other.isDigit = false) (notDot : other ≠ '.')
      (notOp : ∀ op, other ≠ opChar op) : other ∉ predicate.text := by
    cases predicate with
    | join left right =>
        rw [Predicate.text, List.mem_append, List.mem_cons, ColumnName.mem_text_iff noDigit,
          ColumnName.mem_text_iff noDigit]
        simp [notDot, show other ≠ '=' from notOp .equal]
    | filter participant op constant =>
        rw [Predicate.text, List.mem_append, List.mem_cons, ColumnName.mem_text_iff noDigit]
        simp [notDot, notOp op, constant.not_mem noDigit]
  constructor
  · rintro rfl
    exact notIn rfl (by decide) (fun op => by cases op <;> decide) member
  · rintro rfl
    exact notIn rfl (by decide) (fun op => by cases op <;> decide) member

theorem scan_predicate {last : Char} {slice : Nat}
    (isLast : last = '&' ∧ slice = 1 ∨ last = '|' ∧ slice = 2) {predicate : Predicate Numeral}
    {others : List (Predicate Numeral)} (ahead : text.drop mark = predicate.text ++ last :: rest)
    (room : parts.HasRoom counts (predicate :: others))
    (full : parts.rels.length = counts.rels) :
    scan (constructStep atoi relArr text) mark (parts.construction counts mark 1)
        (predicate.text ++ last :: rest) = (do
      let after ← parts.storePredicate atoi relArr predicate
      scan (constructStep atoi relArr text) (mark + predicate.text.length + 1)
        (after.construction counts (mark + predicate.text.length + 1) slice) rest) := by
  have stored : constructStep atoi relArr text (parts.construction counts mark 1)
      (mark + predicate.text.length) last =
        addPredicate atoi relArr
          (parts.construction counts (mark + predicate.text.length + 1) slice)
          predicate.text := by
    have part : cut text (parts.construction counts mark 1).mark
        (mark + predicate.text.length) = predicate.text := cut_of_drop ahead
    rcases isLast with ⟨rfl, rfl⟩ | ⟨rfl, rfl⟩
    · rw [constructStep, part]
      rfl
    · rw [constructStep, part]
      rfl
  rw [scan_word fun c member => constructStep_slice1 atoi relArr (Predicate.inside member),
    stored, addPredicate_construction atoi relArr room full, bind_assoc]
  rfl

theorem Parts.storePredicate_spec {predicate : Predicate Numeral} {after : Parts}
    (stored : parts.storePredicate atoi relArr predicate = .ok after) :
    after.rels = parts.rels ∧ after.sums = parts.sums ∧
      after.joins.length = parts.joins.length + ([predicate].filterMap Predicate.asJoin).length ∧
      after.filters.length =
        parts.filters.length + ([predicate].filterMap Predicate.asFilter).length := by
  cases predicate with
  | join left right =>
      rw [Parts.storePredicate] at stored
      cases first : fillParticipant atoi relArr parts.rels true left with
      | error fault =>
          rw [first] at stored
          cases stored
      | ok participant1 =>
          cases second : fillParticipant atoi relArr parts.rels true right with
          | error fault =>
              rw [first, second] at stored
              cases stored
          | ok participant2 =>
              rw [first, second] at stored
              cases stored
              exact ⟨rfl, rfl, List.length_append, rfl⟩
  | filter participant op constant =>
      rw [Parts.storePredicate] at stored
      cases only : fillParticipant atoi relArr parts.rels false participant with
      | error fault =>
          rw [only] at stored
          cases stored
      | ok cells =>
          rw [only] at stored
          cases stored
          exact ⟨rfl, rfl, rfl, List.length_append⟩

theorem scan_predicates {predicates : List (Predicate Numeral)} (some : predicates ≠ [])
    (ahead : text.drop mark = delimited '&' '|' (predicates.map Predicate.text) ++ rest)
    (room : parts.HasRoom counts predicates) (full : parts.rels.length = counts.rels)
    {markAfter : Nat} (isAfter : markAfter =
      mark + (delimited '&' '|' (predicates.map Predicate.text)).length) :
    scan (constructStep atoi relArr text) mark (parts.construction counts mark 1)
        (delimited '&' '|' (predicates.map Predicate.text) ++ rest) = (do
      let after ← predicates.foldlM (Parts.storePredicate atoi relArr) parts
      scan (constructStep atoi relArr text) markAfter
        (after.construction counts markAfter 2) rest) := by
  induction predicates generalizing parts mark with
  | nil => exact absurd rfl some
  | cons predicate predicates induction =>
      rw [List.foldlM_cons]
      cases predicates with
      | nil =>
          simp only [List.map_cons, List.map_nil, delimited, List.append_assoc,
            List.singleton_append, List.length_append, List.length_singleton] at ahead isAfter ⊢
          rw [scan_predicate atoi relArr (.inr ⟨rfl, rfl⟩) ahead room full, isAfter,
            Nat.add_assoc]
          simp only [List.foldlM_nil, bind_pure]
      | cons next predicates =>
          simp only [List.map_cons, delimited, List.append_assoc, List.cons_append,
            List.length_append, List.length_cons] at ahead isAfter ⊢
          rw [scan_predicate atoi relArr (.inl ⟨rfl, rfl⟩) ahead room full]
          cases stored : parts.storePredicate atoi relArr predicate with
          | error fault => rfl
          | ok after =>
              rcases Parts.storePredicate_spec atoi relArr stored with ⟨rels, _, joins, filters⟩
              rw [ok_bind, ok_bind]
              apply induction (List.cons_ne_nil _ _) (drop_word ahead)
              · have split : predicate :: next :: predicates =
                    [predicate] ++ (next :: predicates) := rfl
                rw [Parts.HasRoom, split, List.filterMap_append, List.filterMap_append,
                  List.length_append, List.length_append] at room
                rw [Parts.HasRoom, joins, filters]
                omega
              · rw [rels, full]
              · rw [isAfter, List.map_cons]
                omega

theorem Parts.storeSum_spec {sum : ColumnName Numeral} {after : Parts}
    (stored : parts.storeSum atoi relArr sum = .ok after) :
    after.rels = parts.rels ∧ after.joins = parts.joins ∧ after.filters = parts.filters ∧
      after.sums.length = parts.sums.length + 1 := by
  rw [Parts.storeSum] at stored
  cases filled : fillSum atoi relArr parts.rels
      { ColRelCells.unset with rel := [number atoi sum.rel.digits] } sum.col.digits with
  | error fault =>
      rw [filled] at stored
      cases stored
  | ok cells =>
      rw [filled] at stored
      cases stored
      exact ⟨rfl, rfl, rfl, List.length_append⟩

theorem scan_sumRel {sum : ColumnName Numeral}
    (ahead : text.drop mark = sum.rel.digits ++ '.' :: rest)
    (room : parts.sums.length < counts.sums) :
    scan (constructStep atoi relArr text) mark (parts.construction counts mark 2)
        (sum.rel.digits ++ '.' :: rest) =
      scan (constructStep atoi relArr text) (mark + sum.rel.digits.length + 1)
        (parts.openSum atoi counts (mark + sum.rel.digits.length + 1) sum) rest := by
  have stored : constructStep atoi relArr text (parts.construction counts mark 2)
      (mark + sum.rel.digits.length) '.' =
        addSumRel atoi (parts.construction counts (mark + sum.rel.digits.length + 1) 2)
          sum.rel.digits := by
    have part : cut text (parts.construction counts mark 2).mark
        (mark + sum.rel.digits.length) = sum.rel.digits := cut_of_drop ahead
    rw [constructStep, part]
    rfl
  rw [scan_word fun c member => constructStep_slice2 atoi relArr _ rfl
    (Numeral.inside member ⟨rfl, rfl⟩), stored, addSumRel_construction atoi room, ok_bind]

theorem scan_sumCol {sum : ColumnName Numeral}
    (ahead : text.drop mark = sum.col.digits ++ ' ' :: rest)
    (full : parts.rels.length = counts.rels) :
    scan (constructStep atoi relArr text) mark (parts.openSum atoi counts mark sum)
        (sum.col.digits ++ ' ' :: rest) = (do
      let after ← parts.storeSum atoi relArr sum
      scan (constructStep atoi relArr text) (mark + sum.col.digits.length + 1)
        (after.construction counts (mark + sum.col.digits.length + 1) 2) rest) := by
  have stored : constructStep atoi relArr text (parts.openSum atoi counts mark sum)
      (mark + sum.col.digits.length) ' ' =
        addSumCol atoi relArr
          (parts.openSum atoi counts (mark + sum.col.digits.length + 1) sum)
          sum.col.digits := by
    have part : cut text (parts.openSum atoi counts mark sum).mark
        (mark + sum.col.digits.length) = sum.col.digits := cut_of_drop ahead
    rw [constructStep, part]
    rfl
  rw [scan_word fun c member => constructStep_slice2 atoi relArr _ rfl
    (Numeral.inside member ⟨rfl, rfl⟩), stored, addSumCol_openSum atoi relArr full, bind_assoc]
  rfl

/-- The sums, the last of which is stored behind the loop. -/
theorem scan_sums {sums : List (ColumnName Numeral)} (some : sums ≠ [])
    (ahead : text.drop mark = separated ' ' (sums.map ColumnName.text))
    (room : parts.sums.length + sums.length ≤ counts.sums)
    (full : parts.rels.length = counts.rels) :
    ∃ markAfter, (do
      let state ← scan (constructStep atoi relArr text) mark (parts.construction counts mark 2)
        (separated ' ' (sums.map ColumnName.text))
      addSumCol atoi relArr state (cut text state.mark text.length)) = (do
      let after ← sums.foldlM (Parts.storeSum atoi relArr) parts
      .ok (after.construction counts markAfter 2)) := by
  induction sums generalizing parts mark with
  | nil => exact absurd rfl some
  | cons sum sums induction =>
      rw [List.length_cons] at room
      rw [List.foldlM_cons]
      cases sums with
      | nil =>
          simp only [List.map_cons, List.map_nil, separated, ColumnName.text] at ahead ⊢
          refine ⟨mark + sum.rel.digits.length + 1, ?_⟩
          have last : cut text (parts.openSum atoi counts (mark + sum.rel.digits.length + 1)
              sum).mark text.length = sum.col.digits := cut_to_end (drop_word ahead)
          rw [scan_sumRel atoi relArr ahead (by omega), scan_skip_all fun c member =>
            constructStep_slice2 atoi relArr _ rfl (Numeral.inside member ⟨rfl, rfl⟩),
            pure_bind, last, addSumCol_openSum atoi relArr full]
          simp only [List.foldlM_nil, bind_pure]
      | cons next sums =>
          simp only [List.map_cons, separated, ColumnName.text, List.append_assoc,
            List.cons_append] at ahead ⊢
          have afterRel := drop_word ahead
          rw [scan_sumRel atoi relArr ahead (by omega), scan_sumCol atoi relArr afterRel full]
          cases stored : parts.storeSum atoi relArr sum with
          | error fault => exact ⟨0, rfl⟩
          | ok after =>
              rcases Parts.storeSum_spec atoi relArr stored with ⟨rels, _, _, length⟩
              rw [ok_bind, ok_bind]
              have roomAfter : after.sums.length + (next :: sums).length ≤ counts.sums := by
                rw [length]
                omega
              rcases induction (List.cons_ne_nil _ _) (drop_word afterRel) roomAfter
                (rels ▸ full) with ⟨markAfter, scanned⟩
              exact ⟨markAfter, scanned⟩

theorem storePredicates_spec {predicates : List (Predicate Numeral)} {after : Parts}
    (stored : predicates.foldlM (Parts.storePredicate atoi relArr) parts = .ok after) :
    after.rels = parts.rels ∧ after.sums = parts.sums ∧
      after.joins.length = parts.joins.length + (predicates.filterMap Predicate.asJoin).length ∧
      after.filters.length =
        parts.filters.length + (predicates.filterMap Predicate.asFilter).length := by
  apply foldlM_ok_induction (fun predicates (parts after : Parts) =>
    after.rels = parts.rels ∧ after.sums = parts.sums ∧
      after.joins.length = parts.joins.length + (predicates.filterMap Predicate.asJoin).length ∧
      after.filters.length =
        parts.filters.length + (predicates.filterMap Predicate.asFilter).length) _ _ stored
  · intro parts
    exact ⟨rfl, rfl, rfl, rfl⟩
  · intro predicate predicates parts next after first ⟨restRels, restSums, restJoins, restFilters⟩
    rcases Parts.storePredicate_spec atoi relArr first with ⟨rels, sums, joins, filters⟩
    have split : predicate :: predicates = [predicate] ++ predicates := rfl
    rw [split, List.filterMap_append, List.filterMap_append, List.length_append,
      List.length_append, restRels, restSums, restJoins, restFilters, joins, filters]
    exact ⟨rels, sums, Nat.add_assoc _ _ _, Nat.add_assoc _ _ _⟩

theorem storeSums_spec {sums : List (ColumnName Numeral)} {after : Parts}
    (stored : sums.foldlM (Parts.storeSum atoi relArr) parts = .ok after) :
    after.rels = parts.rels ∧ after.joins = parts.joins ∧ after.filters = parts.filters ∧
      after.sums.length = parts.sums.length + sums.length := by
  apply foldlM_ok_induction (fun sums (parts after : Parts) =>
    after.rels = parts.rels ∧ after.joins = parts.joins ∧ after.filters = parts.filters ∧
      after.sums.length = parts.sums.length + sums.length) _ _ stored
  · intro parts
    exact ⟨rfl, rfl, rfl, rfl⟩
  · intro sum sums parts next after first ⟨restRels, restJoins, restFilters, restLength⟩
    rcases Parts.storeSum_spec atoi relArr first with ⟨rels, joins, filters, length⟩
    rw [restRels, restJoins, restFilters, restLength, length, List.length_cons]
    exact ⟨rels, joins, filters, by omega⟩

theorem storeRels_eq (rels : List Numeral) (parts : Parts) :
    rels.foldl (Parts.storeRel atoi) parts =
      { parts with rels := parts.rels ++ rels.map fun rel => [number atoi rel.digits] } := by
  induction rels generalizing parts with
  | nil => simp
  | cons rel rels induction =>
      rw [List.foldl_cons, induction, Parts.storeRel]
      simp

def Parts.none : Parts := ⟨[], [], [], []⟩

def AbstractQuery.stored (query : AbstractQuery Numeral) : Except Fault Parts := do
  let parts ← query.predicates.foldlM (Parts.storePredicate atoi relArr)
    (query.rels.foldl (Parts.storeRel atoi) .none)
  query.sums.foldlM (Parts.storeSum atoi relArr) parts

/-- As many parts are stored as the text has. -/
theorem AbstractQuery.stored_spec {query : AbstractQuery Numeral}
    (stored : query.stored atoi relArr = .ok parts) :
    parts.rels.length = query.counts.rels ∧ parts.joins.length = query.counts.joins ∧
      parts.sums.length = query.counts.sums ∧ parts.filters.length = query.counts.filters := by
  rw [AbstractQuery.stored, storeRels_eq] at stored
  cases predicates : query.predicates.foldlM (Parts.storePredicate atoi relArr)
      { Parts.none with rels := Parts.none.rels ++ query.rels.map fun rel =>
        [number atoi rel.digits] } with
  | error fault =>
      rw [predicates] at stored
      cases stored
  | ok middle =>
      rw [predicates, ok_bind] at stored
      rcases storePredicates_spec atoi relArr predicates with ⟨rels, sums, joins, filters⟩
      rcases storeSums_spec atoi relArr stored with ⟨rels', joins', filters', sums'⟩
      rw [rels', joins', filters', sums', rels, sums, joins, filters]
      simp [Parts.none, AbstractQuery.counts, AbstractQuery.joins, AbstractQuery.filters]

/-- Reading the text of a query is storing its parts. -/
theorem constructParts_text (query : AbstractQuery Numeral) : ∃ mark,
    constructParts atoi relArr query.text query.counts = (do
      let parts ← query.stored atoi relArr
      .ok (parts.construction query.counts mark 2)) := by
  have allocated : Construction.allocate query.counts =
      Parts.none.construction query.counts 0 0 := by
    simp [Construction.allocate, Parts.construction, Parts.none, filled]
  have rels := storeRels_eq atoi query.rels .none
  have full : (query.rels.foldl (Parts.storeRel atoi) .none).rels.length =
      query.counts.rels := by
    rw [rels]
    simp [Parts.none, AbstractQuery.counts]
  have room : (query.rels.foldl (Parts.storeRel atoi) .none).HasRoom query.counts
      query.predicates := by
    rw [rels]
    simp [Parts.none, Parts.HasRoom, AbstractQuery.counts, AbstractQuery.joins,
      AbstractQuery.filters]
  rw [constructParts, allocated]
  generalize isText : query.text = text
  have start : text.drop 0 = delimited ' ' '|' (query.rels.map Numeral.digits) ++ _ :=
    isText.symm
  have afterRels := drop_of_drop start
  have afterPredicates := drop_of_drop afterRels
  have scanned := congrArg
    (scan (constructStep atoi relArr text) 0 (Parts.none.construction query.counts 0 0)) start
  rw [List.drop_zero] at scanned
  rw [scanned, scan_rels atoi relArr query.someRels start (by simp [Parts.none,
      AbstractQuery.counts]) rfl, scan_predicates atoi relArr query.somePredicates afterRels room
      full rfl, AbstractQuery.stored, bind_assoc]
  cases predicates : query.predicates.foldlM (Parts.storePredicate atoi relArr)
      (query.rels.foldl (Parts.storeRel atoi) .none) with
  | error fault => exact ⟨0, rfl⟩
  | ok parts =>
      rcases storePredicates_spec atoi relArr predicates with ⟨sameRels, sums, _, _⟩
      have roomSums : parts.sums.length + query.sums.length ≤ query.counts.sums := by
        rw [sums, rels]
        simp [Parts.none, AbstractQuery.counts]
      exact scan_sums atoi relArr query.someSums afterPredicates roomSums (sameRels ▸ full)

end JoinOperator.QueryText
