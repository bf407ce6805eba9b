import JoinOperator.Foundation.Words

/-! # Tokens of a stream

What successive calls of `getline` extract. A delimiter ends a token, and the end of the stream
ends one that has begun.
-/

namespace JoinOperator.Foundation

def tokensFrom (delimiter : Char) : List Char → List Char → List (List Char)
  | begun, [] => if begun = [] then [] else [begun]
  | begun, c :: rest =>
      if c = delimiter then begun :: tokensFrom delimiter [] rest
      else tokensFrom delimiter (begun ++ [c]) rest

def tokens (delimiter : Char) (text : List Char) : List (List Char) :=
  tokensFrom delimiter [] text

section Tokens

variable {delimiter : Char} {word : List Char} {words : List (List Char)}

theorem tokensFrom_append (inside : delimiter ∉ word) (begun rest : List Char) :
    tokensFrom delimiter begun (word ++ rest) = tokensFrom delimiter (begun ++ word) rest := by
  induction word generalizing begun with
  | nil => rw [List.nil_append, List.append_nil]
  | cons c word induction =>
      have differs : c ≠ delimiter := fun same => inside (same ▸ List.mem_cons_self)
      have others : delimiter ∉ word := fun member => inside (List.mem_cons_of_mem c member)
      rw [List.cons_append, tokensFrom, if_neg differs, induction others, List.append_assoc]
      rfl

theorem tokens_append_cons (inside : delimiter ∉ word) (rest : List Char) :
    tokens delimiter (word ++ delimiter :: rest) = word :: tokens delimiter rest := by
  rw [tokens, tokensFrom_append inside, List.nil_append, tokensFrom, if_pos rfl, tokens]

theorem tokens_word (inside : delimiter ∉ word) (some : word ≠ []) :
    tokens delimiter word = [word] := by
  rw [tokens, ← List.append_nil word, tokensFrom_append inside, List.nil_append, tokensFrom,
    if_neg some, List.append_nil]

/-- Words without the delimiter in them are the tokens of their text, unless the last of them is
empty. -/
theorem tokens_separated (inside : ∀ word ∈ words, delimiter ∉ word)
    (last : words.getLast? ≠ some []) : tokens delimiter (separated delimiter words) = words := by
  induction words with
  | nil => rfl
  | cons word rest induction =>
      have first := inside word List.mem_cons_self
      cases rest with
      | nil =>
          have some : word ≠ [] := fun empty => last (congrArg (fun word => [word].getLast?) empty)
          exact tokens_word first some
      | cons next rest =>
          rw [List.getLast?_cons_cons] at last
          rw [separated, tokens_append_cons first,
            induction (fun other member => inside other (List.mem_cons_of_mem _ member)) last]

theorem tokens_endedWords (inside : ∀ word ∈ words, delimiter ∉ word) :
    tokens delimiter (words.flatMap fun word => word ++ [delimiter]) = words := by
  induction words with
  | nil => rfl
  | cons word rest induction =>
      rw [List.flatMap_cons, List.append_assoc, List.singleton_append,
        tokens_append_cons (inside word List.mem_cons_self),
        induction fun other member => inside other (List.mem_cons_of_mem _ member)]

theorem count_endedWords (inside : ∀ word ∈ words, delimiter ∉ word) :
    (words.flatMap fun word => word ++ [delimiter]).count delimiter = words.length := by
  induction words with
  | nil => rfl
  | cons word rest induction =>
      rcases List.forall_mem_cons.mp inside with ⟨isWord, inside⟩
      rw [List.flatMap_cons, List.count_append, List.count_append, induction inside,
        List.count_eq_zero_of_not_mem isWord, List.count_singleton_self, List.length_cons,
        Nat.zero_add, Nat.add_comm]

/-- Lines can be told apart in the text that has all of them. -/
theorem flatMap_ended_inj {others : List (List Char)} (inside : ∀ word ∈ words, delimiter ∉ word)
    (insideOthers : ∀ word ∈ others, delimiter ∉ word) :
    (words.flatMap fun word => word ++ [delimiter]) =
        (others.flatMap fun word => word ++ [delimiter]) ↔ words = others := by
  refine ⟨fun same => ?_, congrArg _⟩
  rw [← tokens_endedWords inside, same, tokens_endedWords insideOthers]

theorem separated_cons (separator : Char) (word : List Char) (rest : List (List Char)) :
    separated separator (word :: rest) = word ++ rest.flatMap (separator :: ·) := by
  induction rest generalizing word with
  | nil => rw [separated, List.flatMap_nil, List.append_nil]
  | cons next rest induction =>
      rw [separated, induction, List.flatMap_cons]
      rfl

theorem separated_append (separator : Char) (words others : List (List Char)) :
    separated separator (words ++ others) = separated separator words ++
      ((if words ≠ [] ∧ others ≠ [] then [separator] else []) ++ separated separator others) := by
  cases words with
  | nil => rfl
  | cons word rest =>
      cases others with
      | nil => simp [separated]
      | cons next others =>
          rw [List.cons_append, separated_cons, separated_cons, separated_cons,
            if_pos ⟨List.cons_ne_nil _ _, List.cons_ne_nil _ _⟩, List.flatMap_append,
            List.flatMap_cons, List.append_assoc]
          rfl

theorem delimited_eq_separated {words : List (List Char)} (some : words ≠ [])
    (separator terminator : Char) :
    delimited separator terminator words = separated separator words ++ [terminator] := by
  induction words with
  | nil => exact absurd rfl some
  | cons word rest induction =>
      cases rest with
      | nil => rfl
      | cons next rest =>
          rw [delimited, separated, induction (List.cons_ne_nil next rest), List.append_assoc]
          rfl

end Tokens

end JoinOperator.Foundation
