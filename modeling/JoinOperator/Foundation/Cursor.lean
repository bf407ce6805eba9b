import Mathlib.Data.List.Basic

/-! # Scanning a text with a cursor

The rule for a loop over the characters of a text that passes over the
characters of a word, and cuts the word out at the delimiter behind it.
-/

namespace JoinOperator.Foundation

universe u v

section Scan

variable {m : Type u → Type v} [Monad m] {State : Type u}

/-- The loop over the characters of a text, the first of which is at `i`. -/
def scan (step : State → Nat → Char → m State) : Nat → State → List Char → m State
  | _, state, [] => pure state
  | i, state, c :: rest => do
      let after ← step state i c
      scan step (i + 1) after rest

variable [LawfulMonad m] {step : State → Nat → Char → m State}

theorem scan_skip {state : State} {word : List Char}
    (skips : ∀ c ∈ word, ∀ i, step state i c = pure state) (rest : List Char) (i : Nat) :
    scan step i state (word ++ rest) = scan step (i + word.length) state rest := by
  induction word generalizing i with
  | nil => rfl
  | cons c word induction =>
      rw [List.cons_append, scan, skips c List.mem_cons_self, pure_bind,
        induction fun c member => skips c (List.mem_cons_of_mem _ member), List.length_cons,
        Nat.add_assoc, Nat.add_comm 1]

theorem scan_skip_all {state : State} {word : List Char}
    (skips : ∀ c ∈ word, ∀ i, step state i c = pure state) (i : Nat) :
    scan step i state word = pure state := by
  have skipped := scan_skip skips [] i
  rwa [List.append_nil, scan] at skipped

theorem scan_word {state : State} {word : List Char}
    (skips : ∀ c ∈ word, ∀ i, step state i c = pure state) (last : Char) (rest : List Char)
    (i : Nat) : scan step i state (word ++ last :: rest) =
      step state (i + word.length) last >>= fun after =>
        scan step (i + word.length + 1) after rest := by
  rw [scan_skip skips, scan]

end Scan

/-- The characters from `start` up to `stop`. -/
def cut (text : List Char) (start stop : Nat) : List Char :=
  (text.drop start).take (stop - start)

theorem cut_of_drop {text word rest : List Char} {start : Nat}
    (ahead : text.drop start = word ++ rest) : cut text start (start + word.length) = word := by
  rw [cut, ahead, Nat.add_sub_cancel_left, List.take_left]

theorem cut_to_end {text word : List Char} {start : Nat} (ahead : text.drop start = word) :
    cut text start text.length = word := by
  rw [cut, ← ahead, List.take_of_length_le (List.length_drop ▸ Nat.le_refl _)]

theorem drop_of_drop {text word rest : List Char} {start : Nat}
    (ahead : text.drop start = word ++ rest) : text.drop (start + word.length) = rest := by
  rw [← List.drop_drop, ahead, List.drop_left]

theorem drop_word {text word rest : List Char} {start : Nat} {last : Char}
    (ahead : text.drop start = word ++ last :: rest) :
    text.drop (start + word.length + 1) = rest := by
  rw [← List.drop_drop, drop_of_drop ahead]
  rfl

end JoinOperator.Foundation
