import JoinOperator.Foundation.KeptItems

/-! # When only filled slots are searched

Each item that is put behind a related one lets the search go one slot further, but a round fills
a single slot. So a round has to put no more than one item behind another.
-/

namespace JoinOperator.Foundation.Likeness

variable {Item Pair Signature : Type*} [DecidableEq Pair]

/-- The last item that is not related to a known one, or else `moving`. -/
def newest (likeness : Likeness Item Pair Signature) (known : List Item) (moving : Item)
    (items : List Item) : Item :=
  (items.filter (likeness.loose known)).getLastD moving

def moving (likeness : Likeness Item Pair Signature) (tail item : Item) : Item :=
  if likeness.pair tail = likeness.pair item then item else tail

section Comparing

variable {likeness : Likeness Item Pair Signature}
variable {known base items front : List Item} {item old new : Item}

theorem newest_append (known : List Item) (old : Item) (front : List Item) (item : Item) :
    likeness.newest known old (front ++ [item]) =
      if likeness.loose known item then item else likeness.newest known old front := by
  rw [newest, List.filter_append]
  cases isLoose : likeness.loose known item with
  | true => simp [isLoose]
  | false => simp [isLoose, newest]

theorem find_snoc (represents : Represents likeness known base)
    (same : likeness.signature old = likeness.signature new) :
    (likeness.find (base ++ [old]) item).map likeness.signature =
      (likeness.find (known ++ [new]) item).map likeness.signature := by
  rw [find_append, find_append, represents item]
  cases likeness.find known item with
  | some found => rfl
  | none =>
      by_cases isRelated : likeness.pair old = likeness.pair item
      · rw [find_cons_of_related isRelated,
          find_cons_of_related ((likeness.related same).symm.trans isRelated)]
        simpa using same
      · rw [find_cons_of_unrelated isRelated,
          find_cons_of_unrelated fun newRelated => isRelated ((likeness.related same).trans
            newRelated)]

theorem loose_snoc (represents : Represents likeness known base)
    (same : likeness.signature old = likeness.signature new) :
    likeness.loose (base ++ [old]) item = likeness.loose (known ++ [new]) item := by
  have view (items : List Item) : likeness.loose items item =
      ((likeness.find items item).map likeness.signature).isNone := by
    rw [loose, Option.isNone_map]
  rw [view, view, find_snoc represents same]

end Comparing

variable [DecidableEq Signature]

/-- No other item is parallel to what a round has in the slots. -/
structure Smooth (likeness : Likeness Item Pair Signature) (known before after : List Item)
    (moving : Item) : Prop where
  before : ∀ other ∈ before, likeness.parallel (known ++ [moving]) other = false
  after : ∀ front other, front ++ [other] <+: after →
    likeness.parallel (known ++ [likeness.newest known moving front]) other = false

variable {likeness : Likeness Item Pair Signature}
variable {known base items before after front heads : List Item}
variable {item other tail old new : Item} {last visible count : Nat} {slots next : Slots Item}

section Parallel

theorem parallel_snoc (represents : Represents likeness known base)
    (same : likeness.signature old = likeness.signature new) :
    likeness.parallel (base ++ [old]) item = likeness.parallel (known ++ [new]) item := by
  have view (items : List Item) : likeness.parallel items item =
      ((likeness.find items item).map likeness.signature).any fun signature =>
        signature ≠ likeness.signature item := by
    rw [parallel, Option.any_map]
  rw [view, view, find_snoc represents same]

theorem identical_of_covered (isNew : likeness.loose known item = true)
    (isLoose : likeness.loose (known ++ [old]) item = false)
    (calm : likeness.parallel (known ++ [old]) item = false) :
    likeness.signature old = likeness.signature item := by
  rw [loose_append, isNew, Bool.true_and, Bool.eq_false_iff, Ne, loose_singleton, not_not]
    at isLoose
  apply identical_of_find _ calm
  rw [find_append, loose_iff.mp isNew, Option.none_or, find_cons_of_related isLoose]

end Parallel

section Visits

theorem visit_overwrites (length : base.length = last)
    (isLoose : likeness.loose (base ++ [old]) item = true) :
    likeness.visit last ⟨base ++ [old], last + 1⟩ item = some ⟨base ++ [item], last + 1⟩ := by
  have whole : (base ++ [old]).length = last + 1 := by
    rw [List.length_append, length, List.length_singleton]
  rw [visit_notFound, if_pos (Nat.le_of_eq whole.symm), ← length, List.take_left]
  intro other member
  exact find_eq_none.mp (loose_iff.mp isLoose) other (List.mem_of_mem_take member)

/-- While no item is parallel, the loose ones overwrite each other in the last slot. -/
theorem visits_smooth (length : base.length = last) (represents : Represents likeness known base)
    (same : likeness.signature new = likeness.signature old)
    (calm : ∀ front other, front ++ [other] <+: items →
      likeness.parallel (known ++ [likeness.newest known old front]) other = false) :
    ∃ final, likeness.signature final = likeness.signature (likeness.newest known old items) ∧
      likeness.visits items last ⟨base ++ [new], last + 1⟩ =
        some ⟨base ++ [final], last + 1⟩ := by
  induction items using List.reverseRecOn with
  | nil => exact ⟨new, same, rfl⟩
  | append_singleton items item induction =>
      rcases induction fun front other isPrefix =>
        calm front other (isPrefix.trans (List.prefix_append items [item])) with
        ⟨current, isCurrent, ran⟩
      have notParallel := calm items item (List.prefix_refl _)
      rw [← parallel_snoc represents isCurrent] at notParallel
      rw [visits_append, ran, Option.bind_some, visits_cons, newest_append]
      cases isLoose : likeness.loose (base ++ [current]) item with
      | true =>
          have isNew : likeness.loose known item = true := by
            rw [loose_snoc represents isCurrent, loose_append, Bool.and_eq_true] at isLoose
            exact isLoose.1
          rw [visit_overwrites length isLoose, if_pos isNew]
          exact ⟨item, rfl, rfl⟩
      | false =>
          have covered := @visit_covered _ _ _ _ likeness (base ++ [current]) [] item last
            (last + 1) _ isLoose notParallel (by simp [length])
          rw [List.append_nil] at covered
          rw [covered]
          refine ⟨current, ?_, rfl⟩
          by_cases isNew : likeness.loose known item = true
          · -- the item is identical to the one in the last slot
            rw [if_pos isNew]
            rw [loose_snoc represents isCurrent] at isLoose
            rw [parallel_snoc represents isCurrent] at notParallel
            exact isCurrent.trans (identical_of_covered isNew isLoose notParallel)
          · rw [if_neg isNew]
            exact isCurrent

theorem visits_until (length : base.length + 1 = last)
    (represents : Represents likeness known base)
    (isParallel : likeness.parallel known item = true)
    (calm : ∀ other ∈ before, likeness.parallel (base ++ [old]) other = false) :
    ∃ grown, Represents likeness known grown ∧ grown.length = last ∧ ∀ after,
      likeness.visits (before ++ item :: after) last ⟨base ++ [old], last⟩ =
        likeness.visits after last ⟨grown ++ [old], last + 1⟩ := by
  have whole : (base ++ [old]).length = last := by
    rw [List.length_append, List.length_singleton, length]
  have unseen := visits_unseen [] calm (by rw [List.append_nil, whole])
  rw [List.append_nil, whole, List.append_assoc] at unseen
  rw [← represents.parallel_eq] at isParallel
  rcases parallel_iff.mp isParallel with ⟨found, isFound, differs⟩
  rcases visit_parallel ([old] ++ ((before.filter (likeness.loose (base ++ [old]))).getLast?).toList)
    isFound differs (show base.length ≤ last by omega) (show base.length ≤ last by omega) with
    ⟨grown, isVisit, grownRepresents, grownLength, _, _⟩
  refine ⟨grown, fun other => (grownRepresents other).trans (represents other), by omega, ?_⟩
  intro after
  have taken : (grown ++ ([old] ++
      ((before.filter (likeness.loose (base ++ [old]))).getLast?).toList)).take (last + 1) =
        grown ++ [old] := by
    rw [← List.append_assoc]
    exact List.take_left' (by rw [List.length_append, List.length_singleton]; omega)
  rw [visits_append, unseen, Option.bind_some, visits_cons, isVisit, Option.bind_some, taken]

end Visits

section Rounds

theorem Smooth.visits (smooth : Smooth likeness known before after old)
    (length : base.length + 1 = last) (represents : Represents likeness known base)
    (same : likeness.signature new = likeness.signature old)
    (isParallel : likeness.parallel known item = true) :
    ∃ grown final, Represents likeness known grown ∧ grown.length = last ∧
      likeness.signature final = likeness.signature (likeness.newest known old after) ∧
      likeness.visits (before ++ item :: after) last ⟨base ++ [new], last⟩ =
        some ⟨grown ++ [final], last + 1⟩ := by
  have calm : ∀ other ∈ before, likeness.parallel (base ++ [new]) other = false := fun other
      member => (parallel_snoc represents same).trans (smooth.before other member)
  rcases visits_until length represents isParallel calm with ⟨grown, grownRepresents, full, ran⟩
  rcases visits_smooth full grownRepresents same smooth.after with ⟨final, isFinal, ranAfter⟩
  exact ⟨grown, final, grownRepresents, full, isFinal, (ran after).trans ranAfter⟩

theorem Smooth.rounds (smooth : Smooth likeness known before after old)
    (isLast : likeness.newest known old after = old) (length : base.length + 1 = last)
    (represents : Represents likeness known base)
    (same : likeness.signature new = likeness.signature old)
    (isParallel : likeness.parallel known item = true) (count : Nat) :
    ∃ next, likeness.rounds (before ++ item :: after) last count ⟨base ++ [new], last⟩ =
      some next ∧ next.visible ≤ next.filled.length := by
  let Invariant (last : Nat) (slots : Slots Item) : Prop :=
    ∃ base new, slots = ⟨base ++ [new], last⟩ ∧ base.length + 1 = last ∧
      Represents likeness known base ∧ likeness.signature new = likeness.signature old
  have invariant : ∃ final, likeness.rounds (before ++ item :: after) last count
      ⟨base ++ [new], last⟩ = some final ∧ Invariant (last + count) final := by
    apply foldlM_range'_invariant Invariant
    · exact ⟨base, new, rfl, length, represents, same⟩
    · intro last _ _ slots invariant
      rcases invariant with ⟨base, new, rfl, length, represents, same⟩
      rcases smooth.visits length represents same isParallel with
        ⟨grown, final, grownRepresents, full, isFinal, ran⟩
      rw [isLast] at isFinal
      exact ⟨_, ran, grown, final, rfl, congrArg Nat.succ full, grownRepresents, isFinal⟩
  rcases invariant with ⟨_, ran, base, new, rfl, length, _⟩
  refine ⟨_, ran, ?_⟩
  rw [List.length_append, List.length_singleton, length]

end Rounds

end JoinOperator.Foundation.Likeness
