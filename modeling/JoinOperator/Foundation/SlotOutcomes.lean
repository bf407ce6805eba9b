import JoinOperator.Foundation.SlotRounds

/-! # What the slots hold after all rounds

At first the slots hold `heads ++ [tail]`, where nothing is related to `tail`.
-/

namespace JoinOperator.Foundation.Likeness

variable {Item Pair Signature : Type*} [DecidableEq Pair]
variable {likeness : Likeness Item Pair Signature}
variable {heads items before after front rest : List Item} {tail item other : Item}
variable {last visible : Nat}

theorem Represents.append (represents : Represents likeness heads front) (rest : List Item) :
    Represents likeness (heads ++ rest) (front ++ rest) := by
  intro item
  rw [find_append, find_append, represents item]

theorem loose_append : likeness.loose (heads ++ rest) item =
    (likeness.loose heads item && likeness.loose rest item) := by
  rw [loose, find_append, loose, loose]
  cases likeness.find heads item <;> simp

theorem loose_singleton :
    likeness.loose [tail] item = true ↔ likeness.pair tail ≠ likeness.pair item := by
  rw [loose_iff, find_eq_none]
  simp

variable [DecidableEq Signature]

theorem visit_covered (notLoose : likeness.loose front item = false)
    (calm : likeness.parallel front item = false) (searched : front.length ≤ visible) :
    likeness.visit last ⟨front ++ rest, visible⟩ item = some ⟨front ++ rest, visible⟩ := by
  cases isFound : likeness.find front item with
  | none =>
      rw [loose_iff.mpr isFound] at notLoose
      cases notLoose
  | some found => exact visit_identical _ _ isFound (identical_of_find isFound calm) searched

/-- Where the last slots are not searched, the last loose item stays. -/
theorem visits_unseen {seen : List Item} (hidden : List Item)
    (calm : ∀ item ∈ items, likeness.parallel seen item = false)
    (length : (seen ++ hidden).length = last) :
    likeness.visits items last ⟨seen ++ hidden, seen.length⟩ =
      some ⟨seen ++ hidden ++ ((items.filter (likeness.loose seen)).getLast?).toList,
        seen.length⟩ := by
  induction items using List.reverseRecOn with
  | nil => simp [visits]
  | append_singleton items item induction =>
      rw [visits_append, induction fun other member => calm other (by simp [member]),
        Option.bind_some, visits_cons, List.filter_append]
      cases isLoose : likeness.loose seen item with
      | false =>
          rw [List.append_assoc, visit_covered isLoose (calm item (by simp)) (Nat.le_refl _)]
          simp [isLoose, visits]
      | true =>
          rw [visit_notFound, if_pos, List.filter_cons_of_pos isLoose, List.take_append,
            ← length, List.take_length]
          · simp [visits]
          · simp
          · rw [List.append_assoc, List.take_append, List.take_length]
            simpa using find_eq_none.mp (loose_iff.mp isLoose)

section Rounds

variable {first count : Nat}

end Rounds

end JoinOperator.Foundation.Likeness
