import Mathlib.Algebra.Ring.Nat
import Mathlib.Data.List.Basic

/-! # Numerals and delimited words -/

namespace JoinOperator.Foundation

def numeral (value : Nat) : List Char := Nat.toDigits 10 value

def numeralValue (digits : List Char) : Nat := Nat.ofDigitChars 10 digits 0

@[simp] theorem numeralValue_numeral (value : Nat) : numeralValue (numeral value) = value :=
  Nat.ofDigitChars_ten_toDigits

theorem numeral_ne_nil (value : Nat) : numeral value ≠ [] := Nat.toDigits_ne_nil

theorem isDigit_of_mem_numeral {value : Nat} {c : Char} (member : c ∈ numeral value) :
    c.isDigit = true :=
  Nat.isDigit_of_mem_toDigits (by omega) (by omega) member

theorem not_mem_numeral {c : Char} (noDigit : c.isDigit = false) (value : Nat) :
    c ∉ numeral value := by
  intro member
  rw [isDigit_of_mem_numeral member] at noDigit
  cases noDigit

theorem length_numeral_le_iff {value digits : Nat} (positive : 0 < digits) :
    (numeral value).length ≤ digits ↔ value < 10 ^ digits :=
  Nat.length_toDigits_le_iff (by omega) positive

theorem length_numeral_of_lt {value : Nat} (small : value < 10) : (numeral value).length = 1 := by
  rw [numeral, Nat.toDigits_of_lt_base small]
  rfl

theorem length_numeral_of_le {value : Nat} (large : 10 ≤ value) :
    (numeral value).length = (numeral (value / 10)).length + 1 := by
  rw [numeral, Nat.toDigits_of_base_le (by omega) large, List.length_append]
  rfl

/-- Words with a separator between two of them and a terminator at the end. -/
def delimited (separator terminator : Char) : List (List Char) → List Char
  | [] => []
  | [word] => word ++ [terminator]
  | word :: next :: rest => word ++ separator :: delimited separator terminator (next :: rest)

def separated (separator : Char) : List (List Char) → List Char
  | [] => []
  | [word] => word
  | word :: next :: rest => word ++ separator :: separated separator (next :: rest)

/-- The words that end at a delimiter, the first of which starts with `begun`. -/
def endedWords (delimiter : Char → Bool) : List Char → List Char → List (List Char)
  | _, [] => []
  | begun, c :: rest =>
      if delimiter c then begun :: endedWords delimiter [] rest
      else endedWords delimiter (begun ++ [c]) rest

theorem endedWords_append {delimiter : Char → Bool} {word : List Char}
    (inside : ∀ c ∈ word, delimiter c = false) {last : Char} (ends : delimiter last = true)
    (begun rest : List Char) : endedWords delimiter begun (word ++ last :: rest) =
      (begun ++ word) :: endedWords delimiter [] rest := by
  induction word generalizing begun with
  | nil =>
      rw [List.nil_append, List.append_nil, endedWords, if_pos ends]
  | cons c word induction =>
      have first := inside c List.mem_cons_self
      rw [List.cons_append, endedWords, if_neg (by simp [first]),
        induction fun c member => inside c (List.mem_cons_of_mem _ member)]
      simp

theorem endedWords_delimited {delimiter : Char → Bool} {separator terminator : Char}
    (separates : delimiter separator = true) (terminates : delimiter terminator = true)
    {words : List (List Char)} (inside : ∀ word ∈ words, ∀ c ∈ word, delimiter c = false) :
    endedWords delimiter [] (delimited separator terminator words) = words := by
  induction words with
  | nil => rfl
  | cons word rest induction =>
      have first := inside word List.mem_cons_self
      have others := induction fun word member => inside word (List.mem_cons_of_mem _ member)
      cases rest with
      | nil =>
          rw [delimited, endedWords_append first terminates]
          rfl
      | cons next rest =>
          rw [delimited, endedWords_append first separates, others]
          rfl

theorem mem_delimited {separator terminator c : Char} {words : List (List Char)}
    (member : c ∈ delimited separator terminator words) :
    (∃ word ∈ words, c ∈ word) ∨ c = separator ∨ c = terminator := by
  induction words with
  | nil => cases member
  | cons word rest induction =>
      cases rest with
      | nil =>
          rw [delimited, List.mem_append, List.mem_singleton] at member
          rcases member with inWord | isLast
          · exact .inl ⟨word, List.mem_cons_self, inWord⟩
          · exact .inr (.inr isLast)
      | cons next rest =>
          rw [delimited, List.mem_append, List.mem_cons] at member
          rcases member with inWord | isSeparator | inRest
          · exact .inl ⟨word, List.mem_cons_self, inWord⟩
          · exact .inr (.inl isSeparator)
          · rcases induction inRest with ⟨other, isOther, inOther⟩ | isDelimiter
            · exact .inl ⟨other, List.mem_cons_of_mem _ isOther, inOther⟩
            · exact .inr isDelimiter

theorem mem_separated {separator c : Char} {words : List (List Char)}
    (member : c ∈ separated separator words) : (∃ word ∈ words, c ∈ word) ∨ c = separator := by
  induction words with
  | nil => cases member
  | cons word rest induction =>
      cases rest with
      | nil => exact .inl ⟨word, List.mem_cons_self, member⟩
      | cons next rest =>
          rcases List.mem_append.mp member with inWord | inRest
          · exact .inl ⟨word, List.mem_cons_self, inWord⟩
          · rcases List.mem_cons.mp inRest with isSeparator | inRest
            · exact .inr isSeparator
            · rcases induction inRest with ⟨other, isOther, inOther⟩ | isSeparator
              · exact .inl ⟨other, List.mem_cons_of_mem _ isOther, inOther⟩
              · exact .inr isSeparator

theorem mem_delimited_of_mem {separator terminator c : Char} {words : List (List Char)}
    {word : List Char} (isWord : word ∈ words) (member : c ∈ word) :
    c ∈ delimited separator terminator words := by
  induction words with
  | nil => cases isWord
  | cons first rest induction =>
      cases rest with
      | nil =>
          cases List.mem_singleton.mp isWord
          exact List.mem_append_left _ member
      | cons next rest =>
          rw [delimited]
          rcases List.mem_cons.mp isWord with isFirst | inRest
          · exact List.mem_append_left _ (isFirst ▸ member)
          · exact List.mem_append_right _ (List.mem_cons_of_mem _ (induction inRest))

end JoinOperator.Foundation
