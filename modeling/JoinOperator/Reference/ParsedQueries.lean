import JoinOperator.Foundation.Outcomes
import JoinOperator.QueryText.WrittenNumbers
import JoinOperator.Reference.QueryInfo

/-! # What is parsed

A line that is built from numerals is parsed as the query with their values. So what is written
for a query that was parsed is parsed as the same query again.
-/

namespace JoinOperator.Reference

open Foundation QueryText

section Numbers

theorem isSpace_of_isDigit {c : Char} (isDigit : c.isDigit = true) : isSpace c = false := by
  have bounds := isDigit
  simp only [Char.isDigit, Bool.and_eq_true, decide_eq_true_eq] at bounds
  have large : ('\r' : Char) < c := Nat.lt_of_lt_of_le (by decide : '\r'.val.toNat < 48) bounds.1
  have notSpace : c ≠ ' ' := by
    intro same
    rcases same with rfl
    cases isDigit
  simp [isSpace, notSpace, Char.not_le.mpr large]

theorem splitSign_digits (written : Numeral) :
    splitSign (written.digits.dropWhile isSpace) = (false, written.digits) := by
  rcases List.exists_cons_of_ne_nil written.nonempty with ⟨c, rest, isDigits⟩
  have isDigit : ∀ d ∈ c :: rest, d.isDigit = true := isDigits ▸ written.areDigits
  have first := isDigit c List.mem_cons_self
  have noMinus : c ≠ '-' := by
    intro same
    rcases same with rfl
    cases first
  have noPlus : c ≠ '+' := by
    intro same
    rcases same with rfl
    cases first
  have all : (c :: rest).takeWhile Char.isDigit = c :: rest := List.takeWhile_eq_self_iff.mpr isDigit
  have unspaced : (c :: rest).dropWhile isSpace = c :: rest := by
    rw [List.dropWhile_cons_of_neg (by rw [isSpace_of_isDigit first]; exact Bool.false_ne_true)]
  rw [isDigits, unspaced, splitSign, all]
  · exact fun _ same => noMinus (List.cons.inj same).1
  · exact fun _ same => noPlus (List.cons.inj same).1

theorem stoul_digits {written : Numeral} (fits : written.value < 2 ^ 64) :
    stoul written.digits = .ok written.value := by
  rw [stoul, splitSign_digits]
  simp only [if_neg written.nonempty, Numeral.value] at fits ⊢
  rw [if_neg (Nat.not_le.mpr fits)]
  rfl

theorem not_mem_digits {delimiter : Char} (noDigit : delimiter.isDigit = false)
    (written : Numeral) : delimiter ∉ written.digits :=
  fun member => Numeral.ne_of_mem member noDigit rfl

theorem getLast?_map_ne {α : Type} {text : α → List Char} {items : List α}
    (nonempty : ∀ item ∈ items, text item ≠ []) : (items.map text).getLast? ≠ some [] := by
  intro last
  rcases List.mem_map.mp (List.mem_of_getLast? last) with ⟨item, member, empty⟩
  exact nonempty item member empty

theorem splitNumbers_separated {delimiter : Char} (noDigit : delimiter.isDigit = false)
    {numbers : List Numeral} (fits : ∀ written ∈ numbers, written.value < 2 ^ 32) :
    splitNumbers delimiter (separated delimiter (numbers.map Numeral.digits)) =
      .ok (numbers.map Numeral.value) := by
  rw [splitNumbers, tokens_separated, List.mapM_map]
  · apply mapM_ok_map
    intro written member
    have small := fits written member
    change stoul written.digits >>= _ = _
    rw [stoul_digits (Nat.lt_trans small (by decide)), ok_bind, Nat.mod_eq_of_lt small]
  · exact List.forall_mem_map.mpr fun written _ => not_mem_digits noDigit written
  · exact getLast?_map_ne fun written _ => written.nonempty

end Numbers

def selectOf (name : ColumnName Nat) : SelectInfo := ⟨0, name.rel, name.col⟩

def predicateOf (join : ColumnName Nat × ColumnName Nat) : PredicateInfo :=
  ⟨selectOf join.1, selectOf join.2⟩

def filterOf (filter : ColumnName Nat × Op × Nat) : FilterInfo :=
  ⟨selectOf filter.1, filter.2.2, filter.2.1⟩

def ShortName (name : ColumnName Nat) : Prop := name.rel < 2 ^ 32 ∧ name.col < 2 ^ 32

def ShortPredicate : Predicate Nat → Prop
  | .join left right => ShortName left ∧ ShortName right
  | .filter participant _ constant => ShortName participant ∧ constant < 2 ^ 64

section Predicates

theorem parseRelColPair_text {name : ColumnName Numeral}
    (short : ShortName (name.map Numeral.value)) :
    parseRelColPair name.text = .ok (selectOf (name.map Numeral.value)) := by
  have split := @splitNumbers_separated '.' rfl [name.rel, name.col]
    (List.forall_mem_cons.mpr ⟨short.1, List.forall_mem_singleton.mpr short.2⟩)
  have text : name.text = separated '.' ([name.rel, name.col].map Numeral.digits) := rfl
  rw [parseRelColPair, text, split]
  rfl

theorem not_isConstant_text (name : ColumnName Numeral) : isConstant name.text = false := by
  simp [isConstant, ColumnName.text]

theorem isConstant_digits (written : Numeral) : isConstant written.digits = true := by
  simpa [isConstant] using not_mem_digits (show '.'.isDigit = false from rfl) written

theorem not_mem_columnText {c : Char} (noDigit : c.isDigit = false) (noDot : c ≠ '.')
    (name : ColumnName Numeral) : c ∉ name.text := by
  intro member
  rcases List.mem_append.mp member with inRel | inRest
  · exact not_mem_digits noDigit name.rel inRel
  · rcases List.mem_cons.mp inRest with isDot | inCol
    · exact noDot isDot
    · exact not_mem_digits noDigit name.col inCol

theorem not_mem_predicateText {c : Char} (noDigit : c.isDigit = false) (noDot : c ≠ '.')
    (noComparison : c ∉ comparisonTypes) (predicate : Predicate Numeral) : c ∉ predicate.text := by
  intro member
  cases predicate with
  | join left right =>
      rcases List.mem_append.mp member with inLeft | inRest
      · exact not_mem_columnText noDigit noDot left inLeft
      · rcases List.mem_cons.mp inRest with rfl | inRight
        · exact noComparison (by decide)
        · exact not_mem_columnText noDigit noDot right inRight
  | filter participant op constant =>
      rcases List.mem_append.mp member with inParticipant | inRest
      · exact not_mem_columnText noDigit noDot participant inParticipant
      · rcases List.mem_cons.mp inRest with rfl | inConstant
        · exact noComparison (by cases op <;> decide)
        · exact not_mem_digits noDigit constant inConstant

theorem not_mem_separated {separator c : Char} (differs : c ≠ separator) {α : Type}
    {text : α → List Char} {items : List α} (absent : ∀ item, c ∉ text item) :
    c ∉ separated separator (items.map text) := by
  intro member
  rcases mem_separated member with ⟨word, isWord, inWord⟩ | isSeparator
  · rcases List.mem_map.mp isWord with ⟨item, _, rfl⟩
    exact absent item inWord
  · exact differs isSeparator

theorem separated_ne_nil {separator : Char} {words : List (List Char)} (some : words ≠ [])
    (nonempty : ∀ word ∈ words, word ≠ []) : separated separator words ≠ [] := by
  rcases List.exists_cons_of_ne_nil some with ⟨word, rest, rfl⟩
  rw [separated_cons]
  exact List.append_ne_nil_of_left_ne_nil (nonempty word List.mem_cons_self) _

theorem columnText_ne_nil (name : ColumnName Numeral) : name.text ≠ [] := by
  simp [ColumnName.text]

theorem predicateText_ne_nil (predicate : Predicate Numeral) : predicate.text ≠ [] := by
  cases predicate with
  | join left right => simp [Predicate.text]
  | filter participant op constant => simp [Predicate.text]

theorem splitPredicates_eq {left right : List Char} {op : Op}
    (inLeft : ∀ c ∈ comparisonTypes, c ∉ left) (inRight : ∀ c ∈ comparisonTypes, c ∉ right)
    (some : right ≠ []) : splitPredicates (left ++ comparisonChar op :: right) = [left, right] := by
  have found : comparisonTypes.find? ((left ++ comparisonChar op :: right).contains ·) =
      Option.some (comparisonChar op) := by
    have contains {c : Char} (isType : c ∈ comparisonTypes) :
        (left ++ comparisonChar op :: right).contains c = decide (c = comparisonChar op) := by
      simp [inLeft c isType, inRight c isType]
    cases op <;> simp [comparisonTypes, comparisonChar] at contains ⊢ <;> simp [contains]
  have isType : comparisonChar op ∈ comparisonTypes := by
    cases op <;> decide
  rw [splitPredicates, found]
  exact (tokens_append_cons (inLeft _ isType) right).trans
    (congrArg _ (tokens_word (inRight _ isType) some))

theorem not_mem_comparisonTypes {c : Char} (isType : c ∈ comparisonTypes) :
    c.isDigit = false ∧ c ≠ '.' := by
  simp only [comparisonTypes, List.mem_cons, List.not_mem_nil, or_false] at isType
  rcases isType with rfl | rfl | rfl <;> decide

theorem comparisonOf_comparisonChar (op : Op) : comparisonOf (comparisonChar op) = some op := by
  cases op <;> decide

theorem comparisonChar_eq (op : Op) : opChar op = comparisonChar op := by
  cases op <;> rfl

def addPredicate (query : QueryInfo) : Predicate Nat → QueryInfo
  | .join left right =>
      { query with predicates := query.predicates ++ [predicateOf (left, right)] }
  | .filter participant op constant =>
      { query with filters := query.filters ++ [filterOf (participant, op, constant)] }

theorem parsePredicate_text (query : QueryInfo) {predicate : Predicate Numeral}
    (short : ShortPredicate (predicate.map Numeral.value)) :
    parsePredicate query predicate.text =
      .ok (addPredicate query (predicate.map Numeral.value)) := by
  have inColumn (name : ColumnName Numeral) : ∀ c ∈ comparisonTypes, c ∉ name.text :=
    fun c isType => not_mem_columnText (not_mem_comparisonTypes isType).1
      (not_mem_comparisonTypes isType).2 name
  cases predicate with
  | join left right =>
      have split : splitPredicates (Predicate.join left right).text = [left.text, right.text] :=
        @splitPredicates_eq _ _ .equal (inColumn left) (inColumn right)
          (columnText_ne_nil right)
      have readLeft := parseRelColPair_text short.1
      have readRight := parseRelColPair_text short.2
      simp only [parsePredicate, split, not_isConstant_text, readLeft, readRight, ok_bind]
      rfl
  | filter participant op constant =>
      have inConstant : ∀ c ∈ comparisonTypes, c ∉ constant.digits :=
        fun c isType => not_mem_digits (not_mem_comparisonTypes isType).1 constant
      have split : splitPredicates (Predicate.filter participant op constant).text =
          [participant.text, constant.digits] := by
        rw [Predicate.text, comparisonChar_eq]
        exact splitPredicates_eq (inColumn participant) inConstant constant.nonempty
      have readParticipant := parseRelColPair_text short.1
      have atComparison : (Predicate.filter participant op constant).text[participant.text.length]? =
          some (comparisonChar op) := by
        rw [Predicate.text, comparisonChar_eq, List.getElem?_append_right (Nat.le_refl _),
          Nat.sub_self]
        rfl
      simp only [parsePredicate, split, not_isConstant_text, isConstant_digits, readParticipant,
        stoul_digits short.2, atComparison, orFault, comparisonOf_comparisonChar, ok_bind]
      rfl

theorem parsePredicates_text {predicates : List (Predicate Numeral)}
    (short : ∀ predicate ∈ predicates, ShortPredicate (predicate.map Numeral.value))
    (query : QueryInfo) :
    (predicates.map Predicate.text).foldlM parsePredicate query =
      .ok ((predicates.map (Predicate.map Numeral.value)).foldl addPredicate query) := by
  induction predicates generalizing query with
  | nil => rfl
  | cons predicate predicates induction =>
      rw [List.map_cons, List.foldlM_cons, parsePredicate_text query (short _ List.mem_cons_self),
        ok_bind, induction fun other member => short other (List.mem_cons_of_mem _ member)]
      rfl

theorem foldl_addPredicate (predicates : List (Predicate Nat)) (query : QueryInfo) :
    predicates.foldl addPredicate query = { query with
      predicates := query.predicates ++ (predicates.filterMap Predicate.asJoin).map predicateOf
      filters := query.filters ++ (predicates.filterMap Predicate.asFilter).map filterOf } := by
  induction predicates generalizing query with
  | nil => simp
  | cons predicate predicates induction =>
      rw [List.foldl_cons, induction]
      cases predicate with
      | join left right =>
          simp only [addPredicate, List.append_assoc]
          rfl
      | filter participant op constant =>
          simp only [addPredicate, List.append_assoc]
          rfl

end Predicates

/-- The three parts of a line are parsed as what they are about. -/
theorem parseQuery_parts {rels : List Numeral} {predicates : List (Predicate Numeral)}
    {sums : List (ColumnName Numeral)} (some : sums ≠ [])
    (shortRels : ∀ written ∈ rels, written.value < 2 ^ 32)
    (shortPredicates : ∀ predicate ∈ predicates, ShortPredicate (predicate.map Numeral.value))
    (shortSums : ∀ sum ∈ sums, ShortName (sum.map Numeral.value)) :
    parseQuery (separated ' ' (rels.map Numeral.digits) ++ '|' ::
        (separated '&' (predicates.map Predicate.text) ++ '|' ::
          separated ' ' (sums.map ColumnName.text))) =
      resolveRelationIds {
        relationIds := rels.map Numeral.value
        predicates := ((predicates.map (Predicate.map Numeral.value)).filterMap
          Predicate.asJoin).map predicateOf
        filters := ((predicates.map (Predicate.map Numeral.value)).filterMap
          Predicate.asFilter).map filterOf
        selections := (sums.map (ColumnName.map Numeral.value)).map selectOf } := by
  have inRels : '|' ∉ separated ' ' (rels.map Numeral.digits) :=
    not_mem_separated (by decide) (not_mem_digits rfl)
  have inPredicates : '|' ∉ separated '&' (predicates.map Predicate.text) :=
    not_mem_separated (by decide) (not_mem_predicateText rfl (by decide) (by decide))
  have inSums : '|' ∉ separated ' ' (sums.map ColumnName.text) :=
    not_mem_separated (by decide) (not_mem_columnText rfl (by decide))
  have someSums : separated ' ' (sums.map ColumnName.text) ≠ [] :=
    separated_ne_nil (mt List.map_eq_nil_iff.mp some)
      (List.forall_mem_map.mpr fun name _ => columnText_ne_nil name)
  have predicateTokens : tokens '&' (separated '&' (predicates.map Predicate.text)) =
      predicates.map Predicate.text := by
    apply tokens_separated
    · exact List.forall_mem_map.mpr fun predicate _ =>
        not_mem_predicateText rfl (by decide) (by decide) predicate
    · exact getLast?_map_ne fun predicate _ => predicateText_ne_nil predicate
  have sumTokens : tokens ' ' (separated ' ' (sums.map ColumnName.text)) =
      sums.map ColumnName.text := by
    apply tokens_separated
    · exact List.forall_mem_map.mpr fun name _ => not_mem_columnText rfl (by decide) name
    · exact getLast?_map_ne fun name _ => columnText_ne_nil name
  have selections : (sums.map ColumnName.text).mapM parseRelColPair =
      .ok ((sums.map (ColumnName.map Numeral.value)).map selectOf) := by
    rw [List.mapM_map, List.map_map]
    exact mapM_ok_map _ fun sum member => parseRelColPair_text (shortSums sum member)
  have relations := @splitNumbers_separated ' ' rfl rels shortRels
  rw [parseQuery, tokens_append_cons inRels, tokens_append_cons inPredicates,
    tokens_word inSums someSums]
  simp only [relations, ok_bind, predicateTokens,
    parsePredicates_text shortPredicates, sumTokens, selections, foldl_addPredicate,
    List.nil_append]

end JoinOperator.Reference
