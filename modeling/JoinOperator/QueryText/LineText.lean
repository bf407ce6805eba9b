import JoinOperator.QueryText.Grammar

/-! # The characters of a line

The line of a query has only digits and the characters between its numbers, and begins with a
digit.
-/

namespace JoinOperator.QueryText

open Foundation

def lineChars : List Char := [' ', '|', '&', '.', '=', '<', '>']

theorem ColumnName.mem_text {name : ColumnName Numeral} {c : Char} (member : c ∈ name.text) :
    c.isDigit = true ∨ c ∈ lineChars := by
  rcases List.mem_append.mp member with inRel | inRest
  · exact .inl (name.rel.areDigits c inRel)
  · rcases List.mem_cons.mp inRest with rfl | inCol
    · exact .inr (by decide)
    · exact .inl (name.col.areDigits c inCol)

theorem Predicate.mem_text {predicate : Predicate Numeral} {c : Char}
    (member : c ∈ predicate.text) : c.isDigit = true ∨ c ∈ lineChars := by
  cases predicate with
  | join left right =>
      rcases List.mem_append.mp member with inLeft | inRest
      · exact ColumnName.mem_text inLeft
      · rcases List.mem_cons.mp inRest with rfl | inRight
        · exact .inr (by decide)
        · exact ColumnName.mem_text inRight
  | filter participant op constant =>
      rcases List.mem_append.mp member with inParticipant | inRest
      · exact ColumnName.mem_text inParticipant
      · rcases List.mem_cons.mp inRest with rfl | inConstant
        · exact .inr (by cases op <;> decide)
        · exact .inl (constant.areDigits c inConstant)

theorem AbstractQuery.mem_text {query : AbstractQuery Numeral} {c : Char}
    (member : c ∈ query.text) : c.isDigit = true ∨ c ∈ lineChars := by
  rcases List.mem_append.mp member with inRels | inRest
  · rcases mem_delimited inRels with ⟨word, isWord, inWord⟩ | rfl | rfl
    · rcases List.mem_map.mp isWord with ⟨rel, _, rfl⟩
      exact .inl (rel.areDigits c inWord)
    · exact .inr (by decide)
    · exact .inr (by decide)
  · rcases List.mem_append.mp inRest with inPredicates | inSums
    · rcases mem_delimited inPredicates with ⟨word, isWord, inWord⟩ | rfl | rfl
      · rcases List.mem_map.mp isWord with ⟨predicate, _, rfl⟩
        exact Predicate.mem_text inWord
      · exact .inr (by decide)
      · exact .inr (by decide)
    · rcases mem_separated inSums with ⟨word, isWord, inWord⟩ | rfl
      · rcases List.mem_map.mp isWord with ⟨sum, _, rfl⟩
        exact ColumnName.mem_text inWord
      · exact .inr (by decide)

theorem AbstractQuery.text_begins (query : AbstractQuery Numeral) :
    ∃ c rest, query.text = c :: rest ∧ c.isDigit = true := by
  cases isRels : query.rels with
  | nil => exact absurd isRels query.someRels
  | cons rel rels =>
      rcases List.exists_cons_of_ne_nil rel.nonempty with ⟨c, digits, isDigits⟩
      have isDigit := rel.areDigits c (isDigits ▸ List.mem_cons_self)
      rw [AbstractQuery.text, isRels, List.map_cons, isDigits]
      cases rels with
      | nil => exact ⟨c, _, rfl, isDigit⟩
      | cons next rels => exact ⟨c, _, rfl, isDigit⟩

theorem AbstractQuery.not_mem_text (query : AbstractQuery Numeral) {c : Char}
    (noDigit : c.isDigit = false) (other : c ∉ lineChars) : c ∉ query.text := by
  intro member
  cases mem_text member with
  | inl isDigit =>
      rw [noDigit] at isDigit
      cases isDigit
  | inr inLine => exact other inLine

/-- A line of a query is no beginning of `F`. -/
theorem AbstractQuery.text_not_prefix (query : AbstractQuery Numeral) :
    ¬ query.text <+: ['F'] := by
  intro starts
  rcases query.text_begins with ⟨c, rest, text, isDigit⟩
  rw [text, List.cons_prefix_cons] at starts
  rw [starts.1] at isDigit
  cases isDigit

end JoinOperator.QueryText
