import Mathlib.Data.List.Basic
import Mathlib.Data.List.Range
import Mathlib.Data.List.Perm.Basic
import Mathlib.Data.List.Flatten

/-! # Positions chained by their hash value

Two arrays chain the positions of a sequence: `heads` leads to the last
position with a hash value, and `links` from a position to the one before it
with the same hash value. Positions are stored plus one, and zero ends a chain.
-/

namespace JoinOperator.Foundation

variable (hash : Nat → Nat)

/-- One more than the last position below `n` with the hash value, or zero. -/
def lastLink (value : Nat) : Nat → Nat
  | 0 => 0
  | n + 1 => if hash n = value then n + 1 else lastLink value n

/-- The positions below `n` with the hash value, the last one first. -/
def chainPositions (value n : Nat) : List Nat :=
  ((List.range n).filter fun position => hash position = value).reverse

theorem chainPositions_succ (value n : Nat) :
    chainPositions hash value (n + 1) =
      if hash n = value then n :: chainPositions hash value n
      else chainPositions hash value n := by
  rw [chainPositions, List.range_succ, List.filter_append, List.reverse_append]
  by_cases equal : hash n = value <;> simp [equal, chainPositions]

theorem chainPositions_of_end {value n : Nat} (ends : lastLink hash value n = 0) :
    chainPositions hash value n = [] := by
  induction n with
  | zero => rfl
  | succ n induction =>
      rw [lastLink] at ends
      split at ends
      · cases ends
      · rename_i differs
        rw [chainPositions_succ, if_neg differs]
        exact induction ends

theorem chainPositions_of_link {value n position : Nat}
    (link : lastLink hash value n = position + 1) :
    position < n ∧ hash position = value ∧
      chainPositions hash value n = position :: chainPositions hash value position := by
  induction n with
  | zero => cases link
  | succ n induction =>
      rw [lastLink] at link
      rw [chainPositions_succ]
      split at link
      · rename_i equal
        cases link
        exact ⟨Nat.lt_succ_self _, equal, if_pos equal⟩
      · rename_i differs
        rcases induction link with ⟨bound, equal, positions⟩
        exact ⟨Nat.lt_succ_of_lt bound, equal, (if_neg differs).trans positions⟩

/-- Collecting along a chain is collecting over all positions, when the other
positions contribute nothing. -/
theorem chainPositions_flatMap {Value : Type*} {collect : Nat → List Value} {value : Nat}
    (n : Nat) (others : ∀ position, hash position ≠ value → collect position = []) :
    ((chainPositions hash value n).flatMap collect).Perm ((List.range n).flatMap collect) := by
  induction n with
  | zero => exact .refl _
  | succ n induction =>
      rw [chainPositions_succ, List.range_succ, List.flatMap_append, List.flatMap_singleton]
      by_cases equal : hash n = value
      · rw [if_pos equal, List.flatMap_cons]
        exact (induction.append_left _).trans List.perm_append_comm
      · rw [if_neg equal, others n equal, List.append_nil]
        exact induction

theorem lastLink_le (value n : Nat) : lastLink hash value n ≤ n := by
  cases link : lastLink hash value n with
  | zero => exact Nat.zero_le n
  | succ position => exact (chainPositions_of_link hash link).1

/-- The arrays once the first `entered` positions are chained. -/
structure Chained (range : Nat) (links heads : List Nat) (entered : Nat) : Prop where
  size : heads.length = range
  heads : ∀ value < range, heads[value]? = some (lastLink hash value entered)
  links : ∀ position < entered, links[position]? =
    some (lastLink hash (hash position) position)

variable {hash}

theorem Chained.empty (range : Nat) (links : List Nat) :
    Chained hash range links (List.replicate range 0) 0 where
  size := List.length_replicate
  heads := by
    intro value bound
    rw [List.getElem?_replicate, if_pos bound]
    rfl
  links := by
    intro position below
    cases below

theorem Chained.enter {range entered : Nat} {links heads : List Nat}
    (chained : Chained hash range links heads entered) (inside : hash entered < range)
    (room : entered < links.length) :
    Chained hash range (links.set entered (lastLink hash (hash entered) entered))
      (heads.set (hash entered) (entered + 1)) (entered + 1) where
  size := by
    rw [List.length_set, chained.size]
  heads := by
    intro value bound
    rw [List.getElem?_set, lastLink]
    by_cases same : hash entered = value
    · rw [if_pos same, if_pos same, chained.size, if_pos inside]
    · rw [if_neg same, if_neg same]
      exact chained.heads value bound
  links := by
    intro position below
    rw [List.getElem?_set]
    by_cases last : entered = position
    · subst last
      rw [if_pos rfl, if_pos room]
    · rw [if_neg last]
      exact chained.links position (by omega)

end JoinOperator.Foundation
