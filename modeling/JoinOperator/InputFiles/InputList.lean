import JoinOperator.Foundation.Cursor
import JoinOperator.Foundation.Words

/-! # The names of the input files

The list of the names is its elements in their order. A name goes up to a newline; what follows
the last newline is no name.
-/

namespace JoinOperator.InputFiles

open Foundation

def addInputNode (input : List (List Char)) (file : List Char) : List (List Char) :=
  input ++ [file]

/-- `end`, and the names that have been added. -/
structure InputScan where
  stop : Nat
  input : List (List Char)

def constructStep (inputStr : List Char) (state : InputScan) (i : Nat) (c : Char) : InputScan :=
  if c = '\n' then ⟨i + 1, addInputNode state.input (cut inputStr state.stop i)⟩ else state

def constructInput (inputStr : List Char) : List (List Char) :=
  (@scan Id _ InputScan (constructStep inputStr) 0 ⟨0, []⟩ inputStr).input

theorem scan_constructStep {inputStr word rest : List Char} {stop : Nat}
    {input : List (List Char)} (ahead : inputStr.drop stop = word ++ rest) :
    (@scan Id _ InputScan (constructStep inputStr) (stop + word.length) ⟨stop, input⟩ rest).input =
      input ++ endedWords (· == '\n') word rest := by
  induction rest generalizing stop word input with
  | nil =>
      rw [endedWords, List.append_nil]
      rfl
  | cons c rest induction =>
      rw [endedWords]
      by_cases newline : c = '\n'
      · rw [newline] at ahead ⊢
        have isWord := cut_of_drop ahead
        have next := @induction [] (stop + word.length + 1) (input ++ [word]) (drop_word ahead)
        rw [if_pos (by decide), List.append_cons, ← next]
        have step : constructStep inputStr ⟨stop, input⟩ (stop + word.length) '\n' =
            ⟨stop + word.length + 1, input ++ [word]⟩ := by
          rw [constructStep, if_pos rfl, isWord, addInputNode]
        change (@scan Id _ InputScan (constructStep inputStr) (stop + word.length + 1)
          (constructStep inputStr ⟨stop, input⟩ (stop + word.length) '\n') rest).input = _
        rw [step]
        rfl
      · have next := @induction (word ++ [c]) stop input (by
          rw [ahead, List.append_assoc]
          rfl)
        rw [if_neg (by simpa using newline), ← next, List.length_append]
        have step : constructStep inputStr ⟨stop, input⟩ (stop + word.length) c = ⟨stop, input⟩ :=
          if_neg newline
        change (@scan Id _ InputScan (constructStep inputStr) (stop + word.length + 1)
          (constructStep inputStr ⟨stop, input⟩ (stop + word.length) c) rest).input = _
        rw [step]
        rfl

/-- The names are the words before the newlines, for every text. -/
theorem constructInput_eq (inputStr : List Char) :
    constructInput inputStr = endedWords (· == '\n') [] inputStr :=
  @scan_constructStep inputStr [] inputStr 0 [] rfl

theorem constructInput_lines {names : List (List Char)} (lines : ∀ name ∈ names, '\n' ∉ name) :
    constructInput (names.flatMap fun name => name ++ ['\n']) = names := by
  rw [constructInput_eq]
  induction names with
  | nil => rfl
  | cons name names induction =>
      have inside : ∀ c ∈ name, (c == '\n') = false := by
        intro c member
        rw [beq_eq_false_iff_ne]
        intro newline
        exact lines name List.mem_cons_self (newline ▸ member)
      have first := @endedWords_append (· == '\n') name inside '\n' (by decide) []
        (names.flatMap fun name => name ++ ['\n'])
      rw [List.flatMap_cons, List.append_assoc, List.singleton_append, first, List.nil_append,
        induction fun other member => lines other (List.mem_cons_of_mem _ member)]

end JoinOperator.InputFiles
