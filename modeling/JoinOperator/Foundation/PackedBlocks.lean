import Mathlib.Data.List.Basic
import Mathlib.Data.List.Flatten

/-! # Items packed into blocks

A list of items is cut into blocks of one size, where only the last block may
be shorter, and no block is empty. The items determine the blocks.
-/

namespace JoinOperator.Foundation

variable {Item : Type*}

/-- Every block but the last one holds `size` items, and the last one holds
some. -/
structure Packed (size : Nat) (blocks : List (List Item)) : Prop where
  full : ∀ block ∈ blocks.dropLast, block.length = size
  nonempty : ∀ block ∈ blocks, block ≠ []
  fits : ∀ block ∈ blocks, block.length ≤ size

namespace Packed

variable {size : Nat}

theorem nil : Packed size ([] : List (List Item)) where
  full := by simp
  nonempty := by simp
  fits := by simp

theorem ne_nil_of_full {block : List Item} (positive : 0 < size)
    (full : block.length = size) : block ≠ [] := by
  apply List.ne_nil_of_length_pos
  rw [full]
  exact positive

theorem concat {blocks : List (List Item)} {last : List Item}
    (full : ∀ block ∈ blocks, block.length = size) (positive : 0 < size)
    (nonempty : last ≠ []) (fits : last.length ≤ size) :
    Packed size (blocks ++ [last]) where
  full := by
    rw [List.dropLast_concat]
    exact full
  nonempty := by
    intro block member
    rcases List.mem_append.mp member with member | member
    · exact ne_nil_of_full positive (full block member)
    · rw [List.mem_singleton.mp member]
      exact nonempty
  fits := by
    intro block member
    rcases List.mem_append.mp member with member | member
    · exact Nat.le_of_eq (full block member)
    · rw [List.mem_singleton.mp member]
      exact fits

theorem of_full {blocks : List (List Item)} (positive : 0 < size)
    (full : ∀ block ∈ blocks, block.length = size) : Packed size blocks where
  full := fun block member => full block (List.dropLast_subset blocks member)
  nonempty := fun block member => ne_nil_of_full positive (full block member)
  fits := fun block member => Nat.le_of_eq (full block member)

theorem tail {block : List Item} {blocks : List (List Item)}
    (packed : Packed size (block :: blocks)) : Packed size blocks where
  full := by
    intro other member
    cases blocks with
    | nil => cases member
    | cons next blocks => exact packed.full other (List.mem_cons_of_mem block member)
  nonempty := fun other member => packed.nonempty other (List.mem_cons_of_mem block member)
  fits := fun other member => packed.fits other (List.mem_cons_of_mem block member)

theorem take_flatten {block : List Item} {blocks : List (List Item)}
    (packed : Packed size (block :: blocks)) :
    (block :: blocks).flatten.take size = block := by
  cases blocks with
  | nil =>
      rw [List.flatten_singleton]
      exact List.take_of_length_le (packed.fits block List.mem_cons_self)
  | cons next blocks =>
      have length : block.length = size := packed.full block List.mem_cons_self
      rw [List.flatten_cons, List.take_left' length]

/-- Two packings of the same items are the same blocks. -/
theorem eq_of_flatten_eq {blocks others : List (List Item)} (packed : Packed size blocks)
    (otherPacked : Packed size others) (same : blocks.flatten = others.flatten) :
    blocks = others := by
  induction blocks generalizing others with
  | nil =>
      have empty : ∀ other ∈ others, other = [] := List.flatten_eq_nil_iff.mp same.symm
      cases others with
      | nil => rfl
      | cons other others =>
          exact absurd (empty other List.mem_cons_self)
            (otherPacked.nonempty other List.mem_cons_self)
  | cons block blocks induction =>
      cases others with
      | nil =>
          have empty : ∀ other ∈ block :: blocks, other = [] :=
            List.flatten_eq_nil_iff.mp same
          exact absurd (empty block List.mem_cons_self)
            (packed.nonempty block List.mem_cons_self)
      | cons other others =>
          have first : block = other := by
            rw [← packed.take_flatten, ← otherPacked.take_flatten, same]
          subst first
          have rest : blocks.flatten = others.flatten := List.append_cancel_left same
          rw [induction packed.tail otherPacked.tail rest]

end Packed

end JoinOperator.Foundation
