import Mathlib.Algebra.Ring.Nat
import Mathlib.Data.Finset.Card
import Mathlib.Data.List.Basic
import Mathlib.Data.Nat.Bitwise

/-! # Sets of numbers as bits of words

Bit `k` is the bit `k % width` of the word `k / width`.
-/

namespace JoinOperator.Foundation.PackedBits

variable {width : Nat} {words : List Nat} {k i : Nat}

def Has (width : Nat) (words : List Nat) (k : Nat) : Prop :=
  ∃ word, words[k / width]? = some word ∧ word.testBit (k % width) = true

def wordsFor (width bits : Nat) : Nat := (bits + (width - 1)) / width

theorem word_lt_wordsFor (positive : 0 < width) {bits : Nat} (inside : k < bits) :
    k / width < wordsFor width bits := by
  rw [wordsFor, Nat.div_lt_iff_lt_mul positive]
  have rest := Nat.div_add_mod (bits + (width - 1)) width
  have small := Nat.mod_lt (bits + (width - 1)) positive
  rw [Nat.mul_comm] at rest
  omega

theorem not_has_replicate (count k : Nat) : ¬ Has width (List.replicate count 0) k := by
  intro has
  rcases has with ⟨word, get, isSet⟩
  rw [List.eq_of_mem_replicate (List.mem_of_getElem? get), Nat.zero_testBit] at isSet
  cases isSet

theorem Has.lt (has : Has width words k) : k / width < words.length := by
  rcases has with ⟨word, get, _⟩
  exact (List.getElem?_eq_some_iff.mp get).1

theorem has_iff {word : Nat} (get : words[k / width]? = some word) :
    Has width words k ↔ word.testBit (k % width) = true := by
  constructor
  · intro has
    rcases has with ⟨other, getOther, isSet⟩
    rw [get] at getOther
    cases getOther
    exact isSet
  · intro isSet
    exact ⟨word, get, isSet⟩

theorem has_set {word : Nat} (get : words[k / width]? = some word) :
    Has width (words.set (k / width) (word ||| 1 <<< (k % width))) i ↔
      i = k ∨ Has width words i := by
  have inside := (List.getElem?_eq_some_iff.mp get).1
  by_cases sameWord : i / width = k / width
  · have getSet : (words.set (k / width) (word ||| 1 <<< (k % width)))[i / width]? =
        some (word ||| 1 <<< (k % width)) := by
      rw [sameWord, List.getElem?_set_self inside]
    have getOld : words[i / width]? = some word := by
      rw [sameWord, get]
    have sameBit : i = k ↔ k % width = i % width := by
      constructor
      · intro same
        rw [same]
      · intro same
        rw [← Nat.div_add_mod i width, ← Nat.div_add_mod k width, sameWord, same]
    rw [has_iff getSet, has_iff getOld, Nat.testBit_or, Bool.or_eq_true, Nat.one_shiftLeft,
      Nat.testBit_two_pow, decide_eq_true_iff, sameBit, or_comm]
  · have different : i ≠ k := fun same => sameWord (congrArg (· / width) same)
    have getSet : (words.set (k / width) (word ||| 1 <<< (k % width)))[i / width]? =
        words[i / width]? := List.getElem?_set_ne (Ne.symm sameWord)
    rw [Has, getSet, ← Has, or_iff_right different]

/-- The words hold the numbers of a set, which has `count` elements. -/
structure Holds (width : Nat) (words : List Nat) (count : Nat) (S : Finset Nat) : Prop where
  bits : ∀ k, Has width words k ↔ k ∈ S
  card : count = S.card

theorem holds_empty (count : Nat) : Holds width (List.replicate count 0) 0 ∅ where
  bits := by
    intro k
    exact iff_of_false (not_has_replicate count k) (Finset.notMem_empty k)
  card := rfl

theorem Holds.insert {word count : Nat} {S : Finset Nat} (holds : Holds width words count S)
    (get : words[k / width]? = some word) :
    Holds width (words.set (k / width) (word ||| 1 <<< (k % width)))
      (if word.testBit (k % width) then count else count + 1) (insert k S) where
  bits := by
    intro i
    rw [has_set get, holds.bits, Finset.mem_insert]
  card := by
    have isMember := (has_iff get).symm.trans (holds.bits k)
    by_cases isSet : word.testBit (k % width) = true
    · rw [if_pos isSet, Finset.insert_eq_of_mem (isMember.mp isSet), holds.card]
    · rw [if_neg isSet, Finset.card_insert_of_notMem (mt isMember.mpr isSet), holds.card]

end JoinOperator.Foundation.PackedBits
