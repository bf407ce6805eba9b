import JoinOperator.QueryText.WrittenNumbers

/-! # The pass over a batch

`main` reads a batch once, counts the parts of each line and calls
`ConstructQuery` at its newline.
-/

namespace JoinOperator.QueryText

open Foundation

/-- `mark` is `end`, and `passed` are the arguments of the calls so far. -/
structure BatchScan where
  mark : Nat
  slice : Nat
  rels : Nat
  joins : Nat
  sums : Nat
  filters : Nat
  passed : List (List Char × Counts)
  deriving DecidableEq, Repr

def BatchScan.start : BatchScan := ⟨0, 0, 1, 0, 1, 0, []⟩

/-- A character of a string, the last of which is the terminator. -/
def charAt (inputStr : List Char) (i : Nat) : Option Char :=
  if i = inputStr.length then some (Char.ofNat 0) else inputStr[i]?

/-- Whether the second or the third character after an equals sign is a dot. -/
def peekDot (inputStr : List Char) (i : Nat) : Option Bool := do
  let second ← charAt inputStr (i + 2)
  if second = '.' then some true
  else do
    let third ← charAt inputStr (i + 3)
    some (third = '.')

/-- A step of the loop in `main`, which returns `-1` in the wrong format. -/
def batchStep (inputStr : List Char) (state : BatchScan) (i : Nat) (c : Char) :
    Option BatchScan :=
  if c = ' ' then
    if state.slice = 0 then some { state with rels := state.rels + 1 }
    else if state.slice = 2 then some { state with sums := state.sums + 1 }
    else none
  else if c = '|' then some { state with slice := state.slice + 1 }
  else if c = '=' then
    if state.slice = 1 then do
      let isJoin ← peekDot inputStr i
      some (if isJoin then { state with joins := state.joins + 1 }
        else { state with filters := state.filters + 1 })
    else none
  else if c = '>' ∨ c = '<' then
    if state.slice = 1 then some { state with filters := state.filters + 1 } else none
  else if c = '\n' then
    some { BatchScan.start with
      mark := i + 1
      passed := state.passed ++
        [(cut inputStr state.mark i, ⟨state.rels, state.joins, state.sums, state.filters⟩)] }
  else some state

def scanBatch (inputStr : List Char) : Option (List (List Char × Counts)) := do
  let state ← scan (batchStep inputStr) 0 .start inputStr
  some state.passed

def batchText (queries : List (AbstractQuery Numeral)) : List Char :=
  queries.flatMap fun query => query.text ++ ['\n']

section Scan

variable {text rest : List Char} {state : BatchScan} {i : Nat}

theorem batchStep_plain {c : Char} (plain : c.isDigit = true ∨ c = '.') (i : Nat) :
    batchStep text state i c = some state := by
  have isNot {other : Char} (noDigit : other.isDigit = false) (notDot : other ≠ '.') :
      c ≠ other := by
    rintro rfl
    rcases plain with isDigit | isDot
    · rw [noDigit] at isDigit
      cases isDigit
    · exact notDot isDot
  rw [batchStep, if_neg (isNot rfl (by decide)), if_neg (isNot rfl (by decide)),
    if_neg (isNot rfl (by decide)), if_neg, if_neg (isNot rfl (by decide))]
  simp only [isNot (show '>'.isDigit = false from rfl) (by decide),
    isNot (show '<'.isDigit = false from rfl) (by decide), or_self, not_false_eq_true]

theorem ColumnName.plain {name : ColumnName Numeral} {c : Char} (member : c ∈ name.text) :
    c.isDigit = true ∨ c = '.' := by
  by_cases isDigit : c.isDigit = true
  · exact .inl isDigit
  · exact .inr ((name.mem_text_iff (Bool.eq_false_iff.mpr isDigit)).mp member)

theorem Numeral.plain (written : Numeral) (state : BatchScan) :
    ∀ c ∈ written.digits, ∀ i, batchStep text state i c = pure state :=
  fun c member => batchStep_plain (.inl (written.areDigits c member))

theorem batchStep_bar (state : BatchScan) (i : Nat) :
    batchStep text state i '|' = some { state with slice := state.slice + 1 } := by
  rw [batchStep, if_neg (by decide), if_pos rfl]

theorem batchStep_newline (state : BatchScan) (i : Nat) : batchStep text state i '\n' =
    some { BatchScan.start with
      mark := i + 1
      passed := state.passed ++
        [(cut text state.mark i, ⟨state.rels, state.joins, state.sums, state.filters⟩)] } := by
  rw [batchStep, if_neg (by decide), if_neg (by decide), if_neg (by decide),
    if_neg (by decide), if_pos rfl]

theorem batchStep_blank (i : Nat) : batchStep text state i ' ' =
    if state.slice = 0 then some { state with rels := state.rels + 1 }
    else if state.slice = 2 then some { state with sums := state.sums + 1 }
    else none := by
  rw [batchStep, if_pos rfl]

theorem scanBatch_rels {rels : List Numeral} (some : rels ≠ []) (slice : state.slice = 0)
    {total after : Nat} (isTotal : total + 1 = state.rels + rels.length)
    (isAfter : after = i + (delimited ' ' '|' (rels.map Numeral.digits)).length) :
    scan (batchStep text) i state (delimited ' ' '|' (rels.map Numeral.digits) ++ rest) =
      scan (batchStep text) after { state with rels := total, slice := 1 } rest := by
  induction rels generalizing state i with
  | nil => exact absurd rfl some
  | cons rel rels induction =>
      rw [List.length_cons] at isTotal
      cases rels with
      | nil =>
          simp only [List.map_cons, List.map_nil, delimited, List.append_assoc,
            List.singleton_append, List.length_append, List.length_singleton,
            List.length_nil] at isTotal isAfter ⊢
          have sameTotal : total = state.rels := by
            omega
          rw [scan_word (rel.plain state), batchStep_bar, slice, sameTotal, isAfter,
            Nat.add_assoc]
          rfl
      | cons next rels =>
          simp only [List.map_cons, delimited, List.append_assoc, List.cons_append,
            List.length_append, List.length_cons] at isTotal isAfter ⊢
          let counted : BatchScan := { state with rels := state.rels + 1 }
          have total : total + 1 = counted.rels + (next :: rels).length := by
            change _ = state.rels + 1 + (rels.length + 1)
            omega
          have after : after = i + rel.digits.length + 1 +
              (delimited ' ' '|' ((next :: rels).map Numeral.digits)).length := by
            rw [isAfter, List.map_cons]
            omega
          rw [scan_word (rel.plain state), batchStep_blank, if_pos slice]
          exact induction (List.cons_ne_nil _ _) (show counted.slice = 0 from slice) total after

theorem scanBatch_sums {sums : List (ColumnName Numeral)} (some : sums ≠ [])
    (slice : state.slice = 2) {total after : Nat} (isTotal : total + 1 = state.sums + sums.length)
    (isAfter : after = i + (separated ' ' (sums.map ColumnName.text)).length) :
    scan (batchStep text) i state (separated ' ' (sums.map ColumnName.text) ++ rest) =
      scan (batchStep text) after { state with sums := total } rest := by
  induction sums generalizing state i with
  | nil => exact absurd rfl some
  | cons sum sums induction =>
      rw [List.length_cons] at isTotal
      have plain (state : BatchScan) : ∀ c ∈ sum.text, ∀ i, batchStep text state i c = pure state :=
        fun c member => batchStep_plain (ColumnName.plain member)
      cases sums with
      | nil =>
          simp only [List.map_cons, List.map_nil, separated, List.length_nil] at isTotal isAfter ⊢
          have sameTotal : total = state.sums := by
            omega
          rw [scan_skip (plain state), sameTotal, isAfter]
      | cons next sums =>
          simp only [List.map_cons, separated, List.append_assoc, List.cons_append,
            List.length_append, List.length_cons] at isTotal isAfter ⊢
          let counted : BatchScan := { state with sums := state.sums + 1 }
          have total : total + 1 = counted.sums + (next :: sums).length := by
            change _ = state.sums + 1 + (sums.length + 1)
            omega
          have after : after = i + sum.text.length + 1 +
              (separated ' ' ((next :: sums).map ColumnName.text)).length := by
            rw [isAfter, List.map_cons]
            omega
          rw [scan_word (plain state), batchStep_blank, if_neg (by omega), if_pos slice]
          exact induction (List.cons_ne_nil _ _) (show counted.slice = 2 from slice) total after

def BeginsWithDigit (text : List Char) : Prop := ∃ c rest, text = c :: rest ∧ c.isDigit = true

theorem Numeral.begins (written : Numeral) (rest : List Char) :
    BeginsWithDigit (written.digits ++ rest) := by
  cases isDigits : written.digits with
  | nil => exact absurd isDigits written.nonempty
  | cons c digits =>
      exact ⟨c, digits ++ rest, rfl, written.areDigits c (isDigits ▸ List.mem_cons_self)⟩

theorem charAt_of_drop {ahead : List Char} (isAhead : text.drop i = ahead) {k : Nat}
    (below : k < ahead.length) : charAt text (i + k) = ahead[k]? := by
  subst isAhead
  rw [List.length_drop] at below
  rw [charAt, if_neg (by omega), List.getElem?_drop]

theorem peekDot_second {first after : Char} (ahead : text.drop i = first :: after :: '.' :: rest) :
    peekDot text i = some true := by
  rw [peekDot, charAt_of_drop ahead (show 2 < _ by simp)]
  rfl

theorem peekDot_third {first after second third : Char} (notDot : second ≠ '.')
    (ahead : text.drop i = first :: after :: second :: third :: rest) :
    peekDot text i = some (decide (third = '.')) := by
  rw [peekDot, charAt_of_drop ahead (show 2 < _ by simp),
    charAt_of_drop ahead (show 3 < (first :: after :: second :: third :: rest).length by simp)]
  exact if_neg notDot

theorem ne_dot_of_isDigit {c : Char} (isDigit : c.isDigit = true) : c ≠ '.' := by
  rintro rfl
  cases isDigit

/-- After the equals sign of a join its second relation ends with a dot. -/
theorem peekDot_join {rel : Numeral} (short : rel.digits.length ≤ 2)
    (ahead : text.drop i = '=' :: (rel.digits ++ '.' :: rest)) : peekDot text i = some true := by
  rcases rel with ⟨_ | ⟨first, _ | ⟨second, _ | ⟨third, digits⟩⟩⟩, nonempty, areDigits⟩
  · exact absurd rfl nonempty
  · exact peekDot_second ahead
  · exact peekDot_third (ne_dot_of_isDigit (areDigits second (by simp))) ahead
  · simp only [List.length_cons] at short
    omega

/-- After the equals sign of a filter its constant, a delimiter and a digit
come before any dot. -/
theorem peekDot_filter {constant : Numeral} {last : Char} (notDot : last ≠ '.')
    (begins : BeginsWithDigit rest)
    (ahead : text.drop i = '=' :: (constant.digits ++ last :: rest)) :
    peekDot text i = some false := by
  rcases begins with ⟨next, more, rfl, isDigit⟩
  rcases constant with ⟨_ | ⟨first, _ | ⟨second, _ | ⟨third, digits⟩⟩⟩, nonempty, areDigits⟩
  · exact absurd rfl nonempty
  · rw [peekDot_third notDot ahead, decide_eq_false (ne_dot_of_isDigit isDigit)]
  · rw [peekDot_third (ne_dot_of_isDigit (areDigits second (by simp))) ahead,
      decide_eq_false notDot]
  · rw [peekDot_third (ne_dot_of_isDigit (areDigits second (by simp))) ahead,
      decide_eq_false (ne_dot_of_isDigit (areDigits third (by simp)))]

def BatchScan.count (state : BatchScan) : Predicate Numeral → BatchScan
  | .join .. => { state with joins := state.joins + 1 }
  | .filter .. => { state with filters := state.filters + 1 }

theorem ColumnName.plain_skips (name : ColumnName Numeral) (state : BatchScan) :
    ∀ c ∈ name.text, ∀ i, batchStep text state i c = pure state :=
  fun _ member => batchStep_plain (ColumnName.plain member)

theorem batchStep_op (slice : state.slice = 1) {op : Op}
    (peeked : op = .equal → peekDot text i = some false) :
    batchStep text state i (opChar op) = some { state with filters := state.filters + 1 } := by
  cases op with
  | equal =>
      rw [opChar, batchStep, if_neg (by decide), if_neg (by decide), if_pos rfl, if_pos slice,
        peeked rfl]
      rfl
  | less =>
      rw [opChar, batchStep, if_neg (by decide), if_neg (by decide), if_neg (by decide),
        if_pos (.inr rfl), if_pos slice]
  | greater =>
      rw [opChar, batchStep, if_neg (by decide), if_neg (by decide), if_neg (by decide),
        if_pos (.inl rfl), if_pos slice]

theorem scanBatch_predicate (slice : state.slice = 1) {predicate : Predicate Numeral}
    (short : ∀ join, predicate.asJoin = some join → join.2.rel.digits.length ≤ 2)
    {last : Char} (notDot : last ≠ '.') (begins : BeginsWithDigit rest)
    (ahead : text.drop i = predicate.text ++ last :: rest) :
    scan (batchStep text) i state (predicate.text ++ last :: rest) =
      scan (batchStep text) (i + predicate.text.length) (state.count predicate)
        (last :: rest) := by
  cases predicate with
  | join left right =>
      simp only [Predicate.text, List.append_assoc, List.cons_append, List.length_append,
        List.length_cons] at ahead ⊢
      have atEquals := drop_of_drop ahead
      have peeked : peekDot text (i + left.text.length) = some true := by
        rw [ColumnName.text, ColumnName.text, List.append_assoc, List.cons_append] at atEquals
        exact peekDot_join (short _ rfl) atEquals
      have counted : batchStep text state (i + left.text.length) '=' =
          some { state with joins := state.joins + 1 } := by
        rw [batchStep, if_neg (by decide), if_neg (by decide), if_pos rfl, if_pos slice, peeked]
        rfl
      rw [scan_word (left.plain_skips state), counted, Option.bind_eq_bind, Option.bind_some,
        scan_skip (right.plain_skips _), BatchScan.count, Nat.add_assoc, Nat.add_assoc,
        Nat.add_comm 1]
  | filter participant op constant =>
      simp only [Predicate.text, List.append_assoc, List.cons_append, List.length_append,
        List.length_cons] at ahead ⊢
      have atOp := drop_of_drop ahead
      have counted : batchStep text state (i + participant.text.length) (opChar op) =
          some { state with filters := state.filters + 1 } := by
        apply batchStep_op slice
        rintro rfl
        exact peekDot_filter notDot begins atOp
      rw [scan_word (participant.plain_skips state), counted, Option.bind_eq_bind,
        Option.bind_some, scan_skip (constant.plain _), BatchScan.count, Nat.add_assoc,
        Nat.add_assoc, Nat.add_comm 1]

theorem ColumnName.begins (name : ColumnName Numeral) (rest : List Char) :
    BeginsWithDigit (name.text ++ rest) := by
  rw [ColumnName.text, List.append_assoc]
  exact name.rel.begins _

theorem Predicate.begins (predicate : Predicate Numeral) (rest : List Char) :
    BeginsWithDigit (predicate.text ++ rest) := by
  cases predicate with
  | join left right =>
      rw [Predicate.text, List.append_assoc]
      exact left.begins _
  | filter participant op constant =>
      rw [Predicate.text, List.append_assoc]
      exact participant.begins _

theorem scanBatch_predicates {predicates : List (Predicate Numeral)} (some : predicates ≠ [])
    (slice : state.slice = 1) (short : ∀ predicate ∈ predicates, ∀ join,
      predicate.asJoin = Option.some join → join.2.rel.digits.length ≤ 2)
    (begins : BeginsWithDigit rest)
    (ahead : text.drop i = delimited '&' '|' (predicates.map Predicate.text) ++ rest)
    {after : Nat} (isAfter : after =
      i + (delimited '&' '|' (predicates.map Predicate.text)).length) :
    scan (batchStep text) i state
        (delimited '&' '|' (predicates.map Predicate.text) ++ rest) =
      scan (batchStep text) after
        { predicates.foldl BatchScan.count state with slice := 2 } rest := by
  induction predicates generalizing state i with
  | nil => exact absurd rfl some
  | cons predicate predicates induction =>
      have first := short predicate List.mem_cons_self
      have others := fun other member => short other (List.mem_cons_of_mem _ member)
      have counted : (state.count predicate).slice = 1 := by
        cases predicate <;> exact slice
      cases predicates with
      | nil =>
          simp only [List.map_cons, List.map_nil, delimited, List.append_assoc,
            List.singleton_append, List.length_append, List.length_singleton] at ahead isAfter ⊢
          rw [scanBatch_predicate slice first (by decide) begins ahead, scan, batchStep_bar,
            counted, isAfter, Nat.add_assoc]
          rfl
      | cons next predicates =>
          simp only [List.map_cons, delimited, List.append_assoc, List.cons_append,
            List.length_append, List.length_cons] at ahead isAfter ⊢
          have nextBegins : BeginsWithDigit
              (delimited '&' '|' (next.text :: predicates.map Predicate.text) ++ rest) := by
            cases predicates with
            | nil =>
                rw [List.map_nil, delimited, List.append_assoc]
                exact next.begins _
            | cons other predicates =>
                rw [List.map_cons, delimited, List.append_assoc]
                exact next.begins _
          have ampersand : batchStep text (state.count predicate) (i + predicate.text.length)
              '&' = Option.some (state.count predicate) := by
            rw [batchStep, if_neg (by decide), if_neg (by decide), if_neg (by decide),
              if_neg (by decide), if_neg (by decide)]
          rw [scanBatch_predicate slice first (by decide) nextBegins ahead, scan, ampersand]
          apply induction (List.cons_ne_nil _ _) counted others (drop_word ahead)
          rw [isAfter, List.map_cons]
          omega

theorem foldl_count (predicates : List (Predicate Numeral)) (state : BatchScan) :
    predicates.foldl BatchScan.count state =
      { state with
        joins := state.joins + (predicates.filterMap Predicate.asJoin).length
        filters := state.filters + (predicates.filterMap Predicate.asFilter).length } := by
  induction predicates generalizing state with
  | nil => rfl
  | cons predicate predicates induction =>
      rw [List.foldl_cons, induction]
      cases predicate with
      | join left right =>
          rw [List.filterMap_cons_some (show (Predicate.join left right).asJoin = _ from rfl),
            List.filterMap_cons_none (show (Predicate.join left right).asFilter = _ from rfl)]
          simp [BatchScan.count, Nat.add_assoc, Nat.add_comm 1]
      | filter participant op constant =>
          rw [List.filterMap_cons_none
              (show (Predicate.filter participant op constant).asJoin = _ from rfl),
            List.filterMap_cons_some
              (show (Predicate.filter participant op constant).asFilter = _ from rfl)]
          simp [BatchScan.count, Nat.add_assoc, Nat.add_comm 1]

/-- The relation indexes of the joins that are looked at have one or two digits. -/
def AbstractQuery.Short (query : AbstractQuery Numeral) : Prop :=
  ∀ join ∈ query.joins, join.2.rel.digits.length ≤ 2

def BatchScan.between (mark : Nat) (passed : List (List Char × Counts)) : BatchScan :=
  { BatchScan.start with mark, passed }

/-- At the newline of a line it is passed on with its counts, and all counters
are as before it. -/
theorem scanBatch_line {query : AbstractQuery Numeral} (short : query.Short) {mark : Nat}
    (passed : List (List Char × Counts)) (ahead : text.drop mark = query.text ++ '\n' :: rest) :
    scan (batchStep text) mark (.between mark passed) (query.text ++ '\n' :: rest) =
      scan (batchStep text) (mark + query.text.length + 1)
        (.between (mark + query.text.length + 1) (passed ++ [(query.text, query.counts)]))
        rest := by
  have line := cut_of_drop ahead
  have parts (rest : List Char) : query.text ++ rest =
      delimited ' ' '|' (query.rels.map Numeral.digits) ++
        (delimited '&' '|' (query.predicates.map Predicate.text) ++
          (separated ' ' (query.sums.map ColumnName.text) ++ rest)) := by
    rw [AbstractQuery.text, List.append_assoc, List.append_assoc]
  have length : query.text.length =
      (delimited ' ' '|' (query.rels.map Numeral.digits)).length +
        (delimited '&' '|' (query.predicates.map Predicate.text)).length +
          (separated ' ' (query.sums.map ColumnName.text)).length := by
    rw [AbstractQuery.text, List.length_append, List.length_append, Nat.add_assoc]
  have begins : BeginsWithDigit
      (separated ' ' (query.sums.map ColumnName.text) ++ '\n' :: rest) := by
    cases isSums : query.sums with
    | nil => exact absurd isSums query.someSums
    | cons sum sums =>
        cases sums with
        | nil => exact sum.begins _
        | cons next sums =>
            rw [List.map_cons, List.map_cons, separated, List.append_assoc]
            exact sum.begins _
  have shortJoins : ∀ predicate ∈ query.predicates, ∀ join, predicate.asJoin = some join →
      join.2.rel.digits.length ≤ 2 := fun predicate member join isJoin =>
    short join (List.mem_filterMap.mpr ⟨predicate, member, isJoin⟩)
  rw [parts] at ahead ⊢
  have afterRels := drop_of_drop ahead
  rw [scanBatch_rels query.someRels rfl (show query.rels.length + 1 = 1 + query.rels.length from
    Nat.add_comm _ _) rfl, scanBatch_predicates query.somePredicates rfl shortJoins begins
    afterRels rfl, foldl_count, scanBatch_sums query.someSums rfl
    (show query.sums.length + 1 = 1 + query.sums.length from Nat.add_comm _ _) rfl, scan]
  rw [Nat.add_assoc mark, Nat.add_assoc mark, ← length, batchStep_newline]
  simp only [BatchScan.between, BatchScan.start, Nat.zero_add, line, Option.bind_eq_bind,
    Option.bind_some]
  rfl

theorem scanBatch_lines {queries : List (AbstractQuery Numeral)}
    (short : ∀ query ∈ queries, query.Short) {mark : Nat} (passed : List (List Char × Counts))
    (ahead : text.drop mark = batchText queries) :
    ∃ after, scan (batchStep text) mark (.between mark passed) (batchText queries) =
      some (.between after (passed ++ queries.map fun query => (query.text, query.counts))) := by
  induction queries generalizing mark passed with
  | nil =>
      refine ⟨mark, ?_⟩
      rw [List.map_nil, List.append_nil]
      rfl
  | cons query queries induction =>
      have lines : batchText (query :: queries) = query.text ++ '\n' :: batchText queries := by
        simp [batchText]
      rw [lines] at ahead ⊢
      rcases induction (fun other member => short other (List.mem_cons_of_mem _ member))
        (passed ++ [(query.text, query.counts)]) (drop_word ahead) with ⟨after, scanned⟩
      refine ⟨after, ?_⟩
      rw [scanBatch_line (short query List.mem_cons_self) passed ahead, scanned, List.map_cons,
        List.append_assoc]
      rfl

end Scan

def OnlyReads {α : Type} (result : Except Fault α) : Prop :=
  ∀ fault, result = .error fault → fault = .invalidRead

theorem onlyReads_ok {α : Type} (value : α) : OnlyReads (.ok value) := nofun

theorem onlyReads_require {α : Type} (value : Option α) : OnlyReads (require value) := by
  cases value with
  | none =>
      rintro _ ⟨⟩
      rfl
  | some value => exact onlyReads_ok value

theorem OnlyReads.bind {α β : Type} {first : Except Fault α} (reads : OnlyReads first)
    {next : α → Except Fault β} (others : ∀ value, OnlyReads (next value)) :
    OnlyReads (first >>= next) := by
  cases first with
  | error fault =>
      rintro other ⟨⟩
      exact reads fault rfl
  | ok value => exact others value

theorem onlyReads_foldlM {α β : Type} {step : β → α → Except Fault β}
    (reads : ∀ state item, OnlyReads (step state item)) (items : List α) (state : β) :
    OnlyReads (items.foldlM step state) := by
  induction items generalizing state with
  | nil => exact onlyReads_ok state
  | cons item items induction =>
      rw [List.foldlM_cons]
      exact (reads state item).bind induction

section OnlyReads

variable (atoi : List Char → Int) (relArr : List Relationsheep)

theorem onlyReads_relationOf (rels : List (List Nat)) (rel : Nat) :
    OnlyReads (relationOf relArr rels rel) :=
  (onlyReads_require _).bind fun _ => (onlyReads_require _).bind fun _ =>
    (onlyReads_require _).bind fun _ => onlyReads_ok _

theorem onlyReads_fillParticipant (rels : List (List Nat)) (isJoin : Bool)
    (name : ColumnName Numeral) : OnlyReads (fillParticipant atoi relArr rels isJoin name) := by
  apply OnlyReads.bind
  · exact (onlyReads_relationOf relArr rels _).bind fun _ => onlyReads_ok _
  · exact fun _ => (onlyReads_require _).bind fun _ => (onlyReads_relationOf relArr rels _).bind
      fun _ => (onlyReads_require _).bind fun _ => onlyReads_ok _

theorem AbstractQuery.onlyReads_stored (query : AbstractQuery Numeral) :
    OnlyReads (query.stored atoi relArr) := by
  apply OnlyReads.bind
  · apply onlyReads_foldlM
    intro parts predicate
    cases predicate with
    | join left right =>
        exact (onlyReads_fillParticipant atoi relArr _ _ _).bind fun _ =>
          (onlyReads_fillParticipant atoi relArr _ _ _).bind fun _ => onlyReads_ok _
    | filter participant op constant =>
        exact (onlyReads_fillParticipant atoi relArr _ _ _).bind fun _ => onlyReads_ok _
  · intro parts
    apply onlyReads_foldlM
    intro parts sum
    apply OnlyReads.bind
    · exact (onlyReads_require _).bind fun _ => (onlyReads_relationOf relArr _ _).bind
        fun _ => (onlyReads_require _).bind fun _ => onlyReads_ok _
    · exact fun _ => onlyReads_ok _

/-- The arrays have room for all that `ConstructQuery` stores for a line, and in
the end as many elements are stored as were counted. -/
structure StoresAsCounted (line : List Char) (counts : Counts) : Prop where
  noOverflow : constructParts atoi relArr line counts ≠ .error .storePastEnd
  accepted : constructParts atoi relArr line counts ≠ .error .wrongFormat
  asCounted : ∀ state, constructParts atoi relArr line counts = .ok state →
    state.counterRels = counts.rels ∧ state.counterJoins = counts.joins ∧
      state.counterSums = counts.sums ∧ state.counterFilters = counts.filters

theorem storesAsCounted_text (query : AbstractQuery Numeral) :
    StoresAsCounted atoi relArr query.text query.counts := by
  rcases constructParts_text atoi relArr query with ⟨mark, read⟩
  have reads : OnlyReads (constructParts atoi relArr query.text query.counts) := by
    rw [read]
    exact (query.onlyReads_stored atoi relArr).bind fun _ => onlyReads_ok _
  refine ⟨?_, ?_, ?_⟩
  · intro fault
    cases reads _ fault
  · intro fault
    cases reads _ fault
  · intro state returned
    rw [read] at returned
    cases stored : query.stored atoi relArr with
    | error fault =>
        rw [stored] at returned
        cases returned
    | ok parts =>
        rw [stored] at returned
        cases returned
        exact AbstractQuery.stored_spec atoi relArr stored

end OnlyReads

/-! ## Lines about columns that exist -/

def Predicate.ColumnsExist (relArr : List Relationsheep) (rels : List Nat) :
    Predicate Nat → Prop
  | .join left right => left.Valid relArr rels ∧ right.Valid relArr rels
  | .filter participant _ _ => participant.Valid relArr rels

/-- The relations and columns of the query exist. Its constants are any numbers. -/
structure AbstractQuery.ColumnsExist (relArr : List Relationsheep) (query : AbstractQuery Nat) :
    Prop where
  rels : ∀ real ∈ query.rels, real < 2 ^ 31 ∧ real < relArr.length
  predicates : ∀ predicate ∈ query.predicates, predicate.ColumnsExist relArr query.rels
  sums : ∀ sum ∈ query.sums, sum.Valid relArr query.rels

theorem AbstractQuery.Valid.columnsExist {relArr : List Relationsheep} {query : AbstractQuery Nat}
    (valid : query.Valid relArr) : query.ColumnsExist relArr := by
  refine ⟨valid.rels, fun predicate member => ?_, valid.sums⟩
  have validPredicate := valid.predicates predicate member
  cases predicate with
  | join left right => exact validPredicate
  | filter participant op constant => exact validPredicate.1

section ColumnsExist

variable {atoi : List Char → Int} {relArr : List Relationsheep} {rels : List Nat} {parts : Parts}

theorem fillParticipant_ok (reads : ReadsNumerals atoi) (isJoin : Bool)
    {name : ColumnName Numeral} (valid : (name.map Numeral.value).Valid relArr rels) :
    ∃ cells, fillParticipant atoi relArr (rels.map fun real => [real]) isJoin name =
      .ok cells := by
  rcases fillParticipant_eq reads isJoin valid with ⟨cells, filled, _⟩
  rw [fillParticipant_value reads isJoin valid.fits] at filled
  exact ⟨cells, filled⟩

theorem storePredicate_ok (reads : ReadsNumerals atoi) {predicate : Predicate Numeral}
    (exist : (predicate.map Numeral.value).ColumnsExist relArr rels)
    (isRels : parts.rels = rels.map fun real => [real]) :
    ∃ after, parts.storePredicate atoi relArr predicate = .ok after ∧
      after.rels = rels.map fun real => [real] := by
  cases predicate with
  | join left right =>
      rcases fillParticipant_ok reads true exist.1 with ⟨participant1, filled1⟩
      rcases fillParticipant_ok reads true exist.2 with ⟨participant2, filled2⟩
      refine ⟨{ parts with joins := parts.joins ++ [⟨participant1, participant2⟩] }, ?_, isRels⟩
      rw [Parts.storePredicate, isRels, filled1, filled2]
      rfl
  | filter participant op constant =>
      rcases fillParticipant_ok reads false exist with ⟨cells, filled⟩
      refine ⟨{ parts with filters :=
        parts.filters ++ [⟨cells, [op], [number atoi constant.digits]⟩] }, ?_, isRels⟩
      rw [Parts.storePredicate, isRels, filled]
      rfl

theorem storePredicates_ok (reads : ReadsNumerals atoi) {predicates : List (Predicate Numeral)}
    (exist : ∀ predicate ∈ predicates,
      (predicate.map Numeral.value).ColumnsExist relArr rels)
    (isRels : parts.rels = rels.map fun real => [real]) :
    ∃ after, predicates.foldlM (Parts.storePredicate atoi relArr) parts = .ok after ∧
      after.rels = rels.map fun real => [real] := by
  induction predicates generalizing parts with
  | nil => exact ⟨parts, rfl, isRels⟩
  | cons predicate predicates induction =>
      rcases storePredicate_ok reads (exist predicate List.mem_cons_self) isRels with
        ⟨next, stored, nextRels⟩
      rw [List.foldlM_cons, stored, ok_bind]
      exact induction (fun other member => exist other (List.mem_cons_of_mem _ member)) nextRels

theorem storeSums_ok (reads : ReadsNumerals atoi) {sums : List (ColumnName Numeral)}
    (valid : ∀ sum ∈ sums, (sum.map Numeral.value).Valid relArr rels)
    (isRels : parts.rels = rels.map fun real => [real]) :
    ∃ after, sums.foldlM (Parts.storeSum atoi relArr) parts = .ok after := by
  rcases storeSums_eq reads (List.forall_mem_map.mpr valid) isRels with ⟨cells, stored, _⟩
  rw [List.map_map] at stored
  refine ⟨_, Eq.trans ?_ stored⟩
  refine (foldlM_map_congr (fun sum member state => ?_) parts).symm
  exact storeSum_value reads (valid sum member).fits state

theorem AbstractQuery.stored_ok (reads : ReadsNumerals atoi) {written : AbstractQuery Numeral}
    (exist : written.meant.ColumnsExist relArr) :
    ∃ stored, written.stored atoi relArr = .ok stored := by
  have isRels : (written.rels.foldl (Parts.storeRel atoi) .none).rels =
      written.meant.rels.map fun real => [real] := by
    rw [storeRels_eq]
    simp only [Parts.none, List.nil_append, meant, map, List.map_map]
    apply List.map_congr_left
    intro rel member
    rw [Function.comp_apply, reads.number (exist.rels _ (List.mem_map_of_mem member)).1]
    rfl
  rcases storePredicates_ok reads (List.forall_mem_map.mp exist.predicates) isRels with
    ⟨parts, predicates, partsRels⟩
  rcases storeSums_ok reads (List.forall_mem_map.mp exist.sums) partsRels with ⟨after, sums⟩
  exact ⟨after, by rw [stored, predicates, ok_bind, sums]⟩

theorem constructParts_ok (reads : ReadsNumerals atoi) {written : AbstractQuery Numeral}
    (exist : written.meant.ColumnsExist relArr) :
    ∃ state, constructParts atoi relArr written.text written.counts = .ok state := by
  rcases AbstractQuery.stored_ok reads exist with ⟨parts, stored⟩
  rcases constructParts_text atoi relArr written with ⟨mark, read⟩
  rw [stored, ok_bind] at read
  exact ⟨_, read⟩

end ColumnsExist

/-- The pass hands each line to `ConstructQuery`, with counts that are those of
its parts and of what `ConstructQuery` stores for it, up to the last part when
all columns exist. -/
theorem scanBatch_text {queries : List (AbstractQuery Numeral)}
    (short : ∀ query ∈ queries, query.Short) :
    scanBatch (batchText queries) =
        some (queries.map fun query => (query.text, query.counts)) ∧
      (∀ call ∈ queries.map (fun query => (query.text, query.counts)),
        ∀ atoi relArr, StoresAsCounted atoi relArr call.1 call.2) ∧
      ∀ query ∈ queries, ∀ atoi relArr, ReadsNumerals atoi → query.meant.ColumnsExist relArr →
        ∃ state, constructParts atoi relArr query.text query.counts = .ok state ∧
          state.counterRels = query.counts.rels ∧ state.counterJoins = query.counts.joins ∧
          state.counterSums = query.counts.sums ∧ state.counterFilters = query.counts.filters := by
  refine ⟨?_, ?_, ?_⟩
  · rcases scanBatch_lines short [] (show (batchText queries).drop 0 = _ from rfl) with
      ⟨after, scanned⟩
    rw [scanBatch]
    exact congrArg (· >>= fun state : BatchScan => some state.passed) scanned
  · intro call member atoi relArr
    rcases List.mem_map.mp member with ⟨query, _, rfl⟩
    exact storesAsCounted_text atoi relArr query
  · intro query _ atoi relArr reads exist
    rcases constructParts_ok reads exist with ⟨state, returned⟩
    exact ⟨state, returned, (storesAsCounted_text atoi relArr query).asCounted state returned⟩

theorem scanBatch_twoLines :
    scanBatch (batchText [selfJoinQuery.map .ofNat, selfJoinQuery.map .ofNat]) =
        some [((selfJoinQuery.map .ofNat).text, ⟨2, 1, 1, 1⟩),
          ((selfJoinQuery.map .ofNat).text, ⟨2, 1, 1, 1⟩)] ∧
      StoresAsCounted longAtoi oneTable (selfJoinQuery.map .ofNat).text ⟨2, 1, 1, 1⟩ ∧
      ∃ state, constructParts longAtoi oneTable (selfJoinQuery.map .ofNat).text ⟨2, 1, 1, 1⟩ =
          .ok state ∧
        state.counterRels = 2 ∧ state.counterJoins = 1 ∧ state.counterSums = 1 ∧
        state.counterFilters = 1 := by
  have short : (selfJoinQuery.map .ofNat).Short := List.forall_mem_singleton.mpr (by decide)
  have exist : (selfJoinQuery.map .ofNat).meant.ColumnsExist oneTable :=
    (AbstractQuery.meant_ofNat selfJoinQuery).symm ▸ selfJoinQuery_valid.columnsExist
  rcases scanBatch_text (List.forall_mem_cons.mpr ⟨short, List.forall_mem_singleton.mpr short⟩)
    with ⟨scanned, asCounted, constructed⟩
  exact ⟨scanned, asCounted _ List.mem_cons_self longAtoi oneTable,
    constructed _ List.mem_cons_self longAtoi oneTable longAtoi_readsNumerals exist⟩

end JoinOperator.QueryText
