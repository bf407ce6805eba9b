import JoinOperator.QueryText.Grammar

/-! # What is stored for a predicate -/

namespace JoinOperator.QueryText

open Foundation

section Fill

variable (atoi : List Char → Int) (relArr : List Relationsheep) (rels : List (List Nat))

def fillParticipant (isJoin : Bool) (name : ColumnName Numeral) : Except Fault ColRelCells := do
  let participant ← fillRel atoi relArr rels isJoin .unset name.rel.digits
  fillCol atoi relArr rels isJoin participant name.col.digits

theorem joinStep_digit (text : List Char) (state : JoinScan) {written : Numeral} :
    ∀ c ∈ written.digits, ∀ i, joinStep atoi relArr rels text state i c = pure state := by
  intro c member i
  rw [joinStep, if_neg (Numeral.ne_of_mem member rfl), if_neg (Numeral.ne_of_mem member rfl)]
  rfl

section Join

variable {text rest : List Char} {written : Numeral} {mark : Nat}

private theorem joinScan_rel1 (ahead : text.drop mark = written.digits ++ '.' :: rest)
    (join : JoinCells) :
    scan (joinStep atoi relArr rels text) mark ⟨mark, 0, join⟩ (written.digits ++ '.' :: rest) =
      fillRel atoi relArr rels true join.participant1 written.digits >>= fun participant =>
        scan (joinStep atoi relArr rels text) (mark + written.digits.length + 1)
          ⟨mark + written.digits.length + 1, 1, ⟨participant, join.participant2⟩⟩ rest := by
  rw [scan_word (joinStep_digit atoi relArr rels text _), joinStep, if_pos rfl, if_pos rfl,
    cut_of_drop ahead, bind_assoc]
  rfl

private theorem joinScan_rel2 (ahead : text.drop mark = written.digits ++ '.' :: rest)
    (join : JoinCells) :
    scan (joinStep atoi relArr rels text) mark ⟨mark, 1, join⟩ (written.digits ++ '.' :: rest) =
      fillRel atoi relArr rels true join.participant2 written.digits >>= fun participant =>
        scan (joinStep atoi relArr rels text) (mark + written.digits.length + 1)
          ⟨mark + written.digits.length + 1, 2, ⟨join.participant1, participant⟩⟩ rest := by
  rw [scan_word (joinStep_digit atoi relArr rels text _), joinStep, if_pos rfl,
    if_neg (by simp), cut_of_drop ahead, bind_assoc]
  rfl

private theorem joinScan_col1 (ahead : text.drop mark = written.digits ++ '=' :: rest)
    (dots : Nat) (join : JoinCells) :
    scan (joinStep atoi relArr rels text) mark ⟨mark, dots, join⟩
        (written.digits ++ '=' :: rest) =
      fillCol atoi relArr rels true join.participant1 written.digits >>= fun participant =>
        scan (joinStep atoi relArr rels text) (mark + written.digits.length + 1)
          ⟨mark + written.digits.length + 1, dots, ⟨participant, join.participant2⟩⟩ rest := by
  rw [scan_word (joinStep_digit atoi relArr rels text _), joinStep, if_neg (by decide),
    if_pos rfl, cut_of_drop ahead, bind_assoc]
  rfl

end Join

theorem fillJoinInfo_text (left right : ColumnName Numeral) :
    fillJoinInfo atoi relArr rels (Predicate.join left right).text .unset = (do
      let participant1 ← fillParticipant atoi relArr rels true left
      let participant2 ← fillParticipant atoi relArr rels true right
      .ok ⟨participant1, participant2⟩) := by
  have isText : (Predicate.join left right).text = left.rel.digits ++ '.' ::
      (left.col.digits ++ '=' :: (right.rel.digits ++ '.' :: right.col.digits)) := by
    simp [Predicate.text, ColumnName.text]
  rw [fillJoinInfo]
  generalize (Predicate.join left right).text = text at isText
  have start : text.drop 0 = _ := isText
  have afterRel1 := drop_word start
  have afterCol1 := drop_word afterRel1
  have afterRel2 := drop_word afterCol1
  have scanned := congrArg (scan (joinStep atoi relArr rels text) 0 ⟨0, 0, .unset⟩) isText
  rw [scanned, joinScan_rel1 _ _ _ start]
  simp only [joinScan_col1 _ _ _ afterRel1, joinScan_rel2 _ _ _ afterCol1,
    scan_skip_all (joinStep_digit atoi relArr rels text _), cut_to_end afterRel2,
    fillParticipant, bind_assoc, pure_bind]
  rfl

theorem filterStep_digit (text : List Char) (state : FilterScan) {written : Numeral} :
    ∀ c ∈ written.digits, ∀ i, filterStep atoi relArr rels text state i c = pure state := by
  intro c member i
  rw [filterStep, if_neg (Numeral.ne_of_mem member rfl), if_neg]
  · rfl
  · simp only [Numeral.ne_of_mem member (show '='.isDigit = false from rfl),
      Numeral.ne_of_mem member (show '>'.isDigit = false from rfl),
      Numeral.ne_of_mem member (show '<'.isDigit = false from rfl), or_self, not_false_eq_true]

theorem opOf_opChar (op : Op) : opOf (opChar op) = op := by
  cases op <;> rfl

section Filter

variable {text rest : List Char} {written : Numeral} {mark : Nat}

private theorem filterScan_rel (ahead : text.drop mark = written.digits ++ '.' :: rest)
    (filter : FilterCells) :
    scan (filterStep atoi relArr rels text) mark ⟨mark, filter⟩ (written.digits ++ '.' :: rest) =
      fillRel atoi relArr rels false filter.participant written.digits >>= fun participant =>
        scan (filterStep atoi relArr rels text) (mark + written.digits.length + 1)
          ⟨mark + written.digits.length + 1, { filter with participant }⟩ rest := by
  rw [scan_word (filterStep_digit atoi relArr rels text _), filterStep, if_pos rfl,
    cut_of_drop ahead, bind_assoc]
  rfl

private theorem filterScan_col {op : Op}
    (ahead : text.drop mark = written.digits ++ opChar op :: rest) (filter : FilterCells) :
    scan (filterStep atoi relArr rels text) mark ⟨mark, filter⟩
        (written.digits ++ opChar op :: rest) =
      fillCol atoi relArr rels false filter.participant written.digits >>= fun participant =>
        scan (filterStep atoi relArr rels text) (mark + written.digits.length + 1)
          ⟨mark + written.digits.length + 1,
            { filter with participant, op := filter.op ++ [op] }⟩ rest := by
  have notDot : opChar op ≠ '.' := by
    cases op <;> decide
  have isOp : opChar op = '=' ∨ opChar op = '>' ∨ opChar op = '<' := by
    cases op <;> decide
  rw [scan_word (filterStep_digit atoi relArr rels text _), filterStep, if_neg notDot,
    if_pos isOp, opOf_opChar, cut_of_drop ahead, bind_assoc]
  rfl

end Filter

theorem fillFilterInfo_text (participant : ColumnName Numeral) (op : Op) (constant : Numeral) :
    fillFilterInfo atoi relArr rels (Predicate.filter participant op constant).text .unset = (do
      let cells ← fillParticipant atoi relArr rels false participant
      .ok ⟨cells, [op], [number atoi constant.digits]⟩) := by
  have isText : (Predicate.filter participant op constant).text = participant.rel.digits ++ '.' ::
      (participant.col.digits ++ opChar op :: constant.digits) := by
    simp [Predicate.text, ColumnName.text]
  rw [fillFilterInfo]
  generalize (Predicate.filter participant op constant).text = text at isText
  have start : text.drop 0 = _ := isText
  have afterRel := drop_word start
  have afterCol := drop_word afterRel
  have scanned := congrArg (scan (filterStep atoi relArr rels text) 0 ⟨0, .unset⟩) isText
  rw [scanned, filterScan_rel _ _ _ start]
  simp only [filterScan_col _ _ _ afterRel,
    scan_skip_all (filterStep_digit atoi relArr rels text _), cut_to_end afterCol,
    fillParticipant, bind_assoc, pure_bind]
  rfl

end Fill

end JoinOperator.QueryText
