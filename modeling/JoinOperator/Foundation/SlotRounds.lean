import JoinOperator.Foundation.Loop
import JoinOperator.Foundation.RelatedSlots

/-! # Rounds of visits

What is left in the slots after all rounds depends on the items that are related
to one of the first slots, but not identical to it, and on those that are
related to none.
-/

namespace JoinOperator.Foundation.Likeness

variable {Item Pair Signature : Type*} [DecidableEq Pair]
variable {likeness : Likeness Item Pair Signature}
variable {known items before after front rest grown : List Item} {item found other : Item}
variable {last visible : Nat} {slots next : Slots Item}

/-- No item is related. -/
def loose (likeness : Likeness Item Pair Signature) (known : List Item) (item : Item) : Bool :=
  (likeness.find known item).isNone

theorem loose_iff : likeness.loose known item = true ↔ likeness.find known item = none :=
  Option.isNone_iff_eq_none

variable [DecidableEq Signature]

/-- The first related item is not identical. -/
def parallel (likeness : Likeness Item Pair Signature) (known : List Item) (item : Item) :
    Bool :=
  (likeness.find known item).any fun found =>
    likeness.signature found ≠ likeness.signature item

theorem parallel_iff : likeness.parallel known item = true ↔
    ∃ found, likeness.find known item = some found ∧
      likeness.signature found ≠ likeness.signature item := by
  simp [parallel, Option.any_eq_true]

theorem identical_of_find (isFound : likeness.find known item = some found)
    (calm : likeness.parallel known item = false) :
    likeness.signature found = likeness.signature item := by
  by_contra differs
  rw [parallel_iff.mpr ⟨found, isFound, differs⟩] at calm
  cases calm

theorem Represents.parallel_eq (represents : Represents likeness known front) :
    likeness.parallel front item = likeness.parallel known item := by
  rw [parallel, represents item, parallel]

theorem visits_cons : likeness.visits (item :: items) last slots =
    (likeness.visit last slots item).bind (likeness.visits items last) :=
  List.foldlM_cons

theorem visits_append : likeness.visits (before ++ after) last slots =
    (likeness.visits before last slots).bind (likeness.visits after last) :=
  List.foldlM_append

theorem rounds_succ {start count : Nat} : likeness.rounds items start (count + 1) slots =
    (likeness.visits items start slots).bind (likeness.rounds items (start + 1) count) := by
  rw [rounds, List.range'_succ, List.foldlM_cons]
  rfl

theorem visits_split (ran : likeness.visits (before ++ item :: after) last slots = some next) :
    ∃ first second, likeness.visits before last slots = some first ∧
      likeness.visit last first item = some second ∧
      likeness.visits after last second = some next := by
  rw [visits_append] at ran
  rcases Option.bind_eq_some_iff.mp ran with ⟨first, ranBefore, ran⟩
  rw [visits_cons] at ran
  rcases Option.bind_eq_some_iff.mp ran with ⟨second, ranItem, ran⟩
  exact ⟨first, second, ranBefore, ranItem, ran⟩

theorem visits_full (full : slots.filled.length = last + 1)
    (ran : likeness.visits items last slots = some next) :
    next.filled.length = last + 1 := by
  apply foldlM_some_invariant (fun slots : Slots Item =>
    slots.filled.length = last + 1) _ full ran
  intro item _ slots next full ran
  rcases (visit_cases ran).length_eq (by omega) with ⟨rfl, _⟩ | length
  · exact full
  · exact length

theorem visits_reaches (reaches : last ≤ slots.filled.length)
    (ran : likeness.visits items last slots = some next) : last ≤ next.filled.length := by
  apply foldlM_some_invariant (fun slots : Slots Item =>
    last ≤ slots.filled.length) _ reaches ran
  intro item _ slots next reaches ran
  rcases (visit_cases ran).length_eq reaches with ⟨rfl, _⟩ | length
  · exact reaches
  · omega

/-- A round that does not fill its last slot only visits covered items. -/
theorem visits_settled (reaches : last ≤ slots.filled.length)
    (ran : likeness.visits items last slots = some next) :
    (next = slots ∧ ∀ item ∈ items, Covered likeness slots item) ∨
      next.filled.length = last + 1 := by
  induction items generalizing slots with
  | nil =>
      cases ran
      exact .inl ⟨rfl, by simp⟩
  | cons item items induction =>
      rw [visits_cons] at ran
      rcases Option.bind_eq_some_iff.mp ran with ⟨second, ranItem, ranRest⟩
      rcases (visit_cases ranItem).length_eq reaches with ⟨rfl, covered⟩ | full
      · rcases induction reaches ranRest with ⟨rfl, coveredRest⟩ | full
        · exact .inl ⟨rfl, List.forall_mem_cons.mpr ⟨covered, coveredRest⟩⟩
        · exact .inr full
      · exact .inr (visits_full full ranRest)

theorem visit_of_covered (covered : Covered likeness slots item) :
    likeness.visit last slots item = some slots := by
  rcases slots with ⟨filled, visible⟩
  rcases covered with ⟨found, isFound, identical⟩
  have skipped := visit_identical (filled.drop visible) last
    isFound identical (List.length_take_le _ _)
  rw [List.take_append_drop] at skipped
  exact skipped

theorem Starved.rounds {starving : Item} (starved : Starved likeness starving slots)
    {first count : Nat} (ran : likeness.rounds items first count slots = some next) :
    Starved likeness starving next := by
  apply foldlM_some_invariant (Starved likeness starving) _ starved ran
  intro last _ slots next starved ran
  apply foldlM_some_invariant (Starved likeness starving) _ starved ran
  intro item _ slots next starved ran
  exact starved.visit (visit_cases ran)

theorem Starved.visits {starving : Item} (starved : Starved likeness starving slots)
    (ran : likeness.visits items last slots = some next) : Starved likeness starving next := by
  apply foldlM_some_invariant (Starved likeness starving) _ starved ran
  intro item _ slots next starved ran
  exact starved.visit (visit_cases ran)

/-- The slots begin with `front`, and at least `visible` ones are searched. -/
structure Fronted (front : List Item) (visible : Nat) (slots : Slots Item) : Prop where
  prefixed : front <+: slots.filled
  seen : visible ≤ slots.visible

theorem Fronted.visit (fronted : Fronted front visible slots) (fits : front.length ≤ last)
    (searched : front.length ≤ visible) (calm : likeness.parallel front item = false)
    (ran : likeness.visit last slots item = some next) : Fronted front visible next := by
  rcases slots with ⟨filled, v⟩
  rcases fronted with ⟨⟨rest, rfl⟩, seen⟩
  cases isFound : likeness.find front item with
  | none =>
      rcases (visit_cases ran).keeps_front rfl isFound fits with ⟨rest', split⟩
      exact ⟨⟨rest', split.symm⟩, Nat.le_trans seen (visit_cases ran).visible_le⟩
  | some found =>
      rw [visit_identical _ _ isFound (identical_of_find isFound calm)
        (Nat.le_trans searched seen)] at ran
      cases ran
      exact ⟨⟨rest, rfl⟩, seen⟩

theorem Fronted.visits (fronted : Fronted front visible slots) (fits : front.length ≤ last)
    (searched : front.length ≤ visible)
    (calm : ∀ item ∈ items, likeness.parallel front item = false)
    (ran : likeness.visits items last slots = some next) : Fronted front visible next := by
  apply foldlM_some_invariant (Fronted front visible) _ fronted ran
  intro item member slots next fronted ran
  exact fronted.visit fits searched (calm item member) ran

theorem Fronted.insert (fronted : Fronted front visible slots) (fits : front.length ≤ last)
    (searched : front.length ≤ visible) (reaches : last ≤ slots.filled.length)
    (isParallel : likeness.parallel front item = true)
    (ran : likeness.visit last slots item = some next) :
    ∃ grown, Represents likeness front grown ∧ grown.length = front.length + 1 ∧
      Fronted grown (visible + 1) next ∧ next.filled.length = last + 1 := by
  rcases slots with ⟨filled, v⟩
  rcases fronted with ⟨⟨rest, rfl⟩, seen⟩
  rcases parallel_iff.mp isParallel with ⟨found, isFound, differs⟩
  rcases visit_parallel rest isFound differs
    (Nat.le_trans searched seen) fits with ⟨grown, isVisit, represents, length, _, _⟩
  rw [isVisit] at ran
  cases ran
  rw [List.length_append] at reaches
  refine ⟨grown, represents, length, ⟨?_, Nat.succ_le_succ seen⟩, ?_⟩
  · exact List.prefix_take_iff.mpr ⟨List.prefix_append .., by omega⟩
  · rw [List.length_take, List.length_append]
    omega

theorem Fronted.rounds {first count : Nat} (fronted : Fronted front visible slots)
    (represents : Represents likeness known front) (length : front.length + 1 = first)
    (searched : front.length < visible) (full : slots.filled.length = first)
    (calmBefore : ∀ item ∈ before, likeness.parallel known item = false)
    (isParallel : likeness.parallel known item = true)
    (calmAfter : ∀ item ∈ after, likeness.parallel known item = false)
    (ran : likeness.rounds (before ++ item :: after) first count slots = some next) :
    ∃ front rest, Represents likeness known front ∧ next.filled = front ++ [rest] := by
  let Invariant (last : Nat) (slots : Slots Item) : Prop :=
    ∃ front visible, Fronted front visible slots ∧ Represents likeness known front ∧
      front.length + 1 = last ∧ front.length < visible ∧ slots.filled.length = last
  have invariant : Invariant (first + count) next := by
    apply foldlM_range'_some_invariant Invariant _ _ ran
    · exact ⟨front, visible, fronted, represents, length, searched, full⟩
    · rintro last _ slots next ⟨front, visible, fronted, represents, length, searched, full⟩ ran
      rcases visits_split ran with ⟨first, second, ranBefore, ranItem, ranAfter⟩
      have firstFronted := fronted.visits (by omega) (Nat.le_of_lt searched)
        (fun item member => represents.parallel_eq.trans (calmBefore item member)) ranBefore
      have reaches := visits_reaches (Nat.le_of_eq full.symm) ranBefore
      rcases firstFronted.insert (by omega) (Nat.le_of_lt searched) reaches
          (represents.parallel_eq.trans isParallel) ranItem with
        ⟨grown, grownRepresents, grownLength, secondFronted, secondFull⟩
      have grownKnown : Represents likeness known grown := fun item =>
        (grownRepresents item).trans (represents item)
      refine ⟨grown, visible + 1, ?_, grownKnown, by omega, by omega,
        visits_full secondFull ranAfter⟩
      exact secondFronted.visits (by omega) (by omega)
        (fun item member => grownKnown.parallel_eq.trans (calmAfter item member)) ranAfter
  rcases invariant with ⟨front, visible, ⟨⟨rest, split⟩, _⟩, represents, length, _, full⟩
  rw [← split, List.length_append] at full
  rcases List.length_eq_one_iff.mp (show rest.length = 1 by omega) with ⟨last, rfl⟩
  exact ⟨front, last, represents, split.symm⟩

end JoinOperator.Foundation.Likeness
