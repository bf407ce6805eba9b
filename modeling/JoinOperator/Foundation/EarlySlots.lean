import JoinOperator.Foundation.SlotRounds

/-! # Early items stay in front

Whether an item is early depends on its pair. What is put behind an early item
is early, and an item that is related to none of them comes behind all of them.
-/

namespace JoinOperator.Foundation.Likeness

variable {Item Pair Signature : Type*}
variable {likeness : Likeness Item Pair Signature} {Early : Item → Prop}
variable {items required filled before after front rest : List Item} {item found : Item}
variable {last visible p : Nat} {slots next : Slots Item}

/-- Related items are both early, or both not. -/
def Respects (likeness : Likeness Item Pair Signature) (Early : Item → Prop) : Prop :=
  ∀ first second, likeness.pair first = likeness.pair second → Early first → Early second

/-- The first slots have early items, and there is no other item before all that are
required are among them. -/
structure Staged (Early : Item → Prop) (required front rest : List Item) : Prop where
  early : ∀ item ∈ front, Early item
  complete : rest ≠ [] → ∀ item ∈ required, item ∈ front

/-- The slots are staged, and a search always sees an item behind the early ones. -/
def EarlyFirst (Early : Item → Prop) (required : List Item) (slots : Slots Item) : Prop :=
  ∃ front rest, slots.filled = front ++ rest ∧ Staged Early required front rest ∧
    front.length < slots.visible

theorem place_early (inside : p ≤ front.length) (item : Item) (rest : List Item) :
    place p last item (front ++ rest) =
      place p last item front ++ rest.take (last - front.length) := by
  rw [place, place, List.take_append_of_le_length inside, List.drop_append_of_le_length inside,
    List.take_append, List.append_assoc, List.cons_append, List.length_drop]
  congr 4
  omega

theorem mem_place_of_mem {other : Item} (fits : front.length ≤ last)
    (member : other ∈ front) : other ∈ place p last item front := by
  have all : (front.drop p).length ≤ last - p := by
    rw [List.length_drop]
    omega
  rw [place, List.take_of_length_le all, List.mem_append, List.mem_cons]
  rw [← List.take_append_drop p front, List.mem_append] at member
  cases member with
  | inl inFront => exact .inl inFront
  | inr behind => exact .inr (.inr behind)

theorem length_le_of_rest (bounded : (front ++ rest).length ≤ last + 1) (some : rest ≠ []) :
    front.length ≤ last := by
  have positive := List.length_pos_of_ne_nil some
  rw [List.length_append] at bounded
  omega

theorem Staged.insert (staged : Staged Early required front rest) (isEarly : Early item)
    (bounded : (front ++ rest).length ≤ last + 1) :
    Staged Early required (place p last item front) (rest.take (last - front.length)) where
  early := by
    intro other member
    cases mem_place member with
    | inl isItem => exact isItem ▸ isEarly
    | inr inFront => exact staged.early other inFront
  complete := by
    intro left other isRequired
    have more : rest ≠ [] := by
      intro none
      rw [none, List.take_nil] at left
      exact left rfl
    exact mem_place_of_mem (length_le_of_rest bounded more) (staged.complete more other isRequired)

theorem Staged.behind (staged : Staged Early required front rest) (some : rest ≠ [])
    (rest' : List Item) : Staged Early required front rest' where
  early := staged.early
  complete := fun _ => staged.complete some

theorem EarlyFirst.append (staged : Staged Early required front rest)
    (searched : front.length < visible) (bounded : (front ++ rest).length ≤ last + 1)
    (within : visible ≤ (front ++ rest).length) (item : Item) :
    EarlyFirst Early required ⟨(front ++ rest).take last ++ [item], visible⟩ := by
  -- the search went beyond the early items, and so there are others
  have some : rest ≠ [] := by
    rintro rfl
    rw [List.append_nil] at within
    omega
  refine ⟨front, rest.take (last - front.length) ++ [item], ?_, staged.behind some _, searched⟩
  change (front ++ rest).take last ++ [item] = _
  rw [List.take_append, List.take_of_length_le (length_le_of_rest bounded some),
    List.append_assoc]

theorem EarlyFirst.place (respects : Respects likeness Early)
    (staged : Staged Early required front rest) (searched : front.length < visible)
    (bounded : (front ++ rest).length ≤ last + 1) (split : front ++ rest = before ++ found :: after)
    (isRelated : likeness.pair found = likeness.pair item) :
    EarlyFirst Early required
      ⟨place (min (before.length + 1) last) last item (front ++ rest), visible + 1⟩ := by
  by_cases inFront : before.length < front.length
  · have isEarly : Early found := by
      apply staged.early
      have get : (front ++ rest)[before.length]? = some found := by
        rw [split, List.getElem?_append_right (Nat.le_refl _), Nat.sub_self]
        rfl
      rw [List.getElem?_append_left inFront] at get
      exact List.mem_of_getElem? get
    have inside : min (before.length + 1) last ≤ front.length := by
      omega
    exact ⟨_, _, place_early inside item rest,
      staged.insert (respects _ _ isRelated isEarly) bounded,
      Nat.lt_of_le_of_lt (length_place_le ..) (Nat.succ_lt_succ searched)⟩
  · have some : rest ≠ [] := by
      rintro rfl
      have lengths := congrArg List.length split
      rw [List.append_nil, List.length_append, List.length_cons] at lengths
      omega
    have fits := length_le_of_rest bounded some
    exact ⟨front, _, place_append (by omega), staged.behind some _, Nat.lt_succ_of_lt searched⟩

variable [DecidableEq Pair] [DecidableEq Signature]

theorem EarlyFirst.visit (respects : Respects likeness Early)
    (earlyFirst : EarlyFirst Early required slots) (bounded : slots.filled.length ≤ last + 1)
    (ran : likeness.visit last slots item = some next) : EarlyFirst Early required next := by
  rcases slots with ⟨filled, visible⟩
  rcases earlyFirst with ⟨front, rest, split, staged, searched⟩
  change filled = front ++ rest at split
  cases isFound : likeness.find (filled.take visible) item with
  | none =>
      rw [visit_notFound (find_eq_none.mp isFound)] at ran
      subst split
      split at ran
      · rename_i within
        cases ran
        exact .append staged searched bounded within item
      · cases ran
  | some found =>
      rcases split_of_find isFound with ⟨isRelated, before, after, whole, seen, first⟩
      rw [whole, visit_found isRelated first seen, ← whole] at ran
      subst split
      split at ran
      · cases ran
        exact ⟨front, rest, rfl, staged, searched⟩
      · cases ran
        exact .place respects staged searched bounded whole isRelated

theorem EarlyFirst.rounds (respects : Respects likeness Early)
    {first count : Nat} (earlyFirst : EarlyFirst Early required slots)
    (bounded : slots.filled.length ≤ first)
    (ran : likeness.rounds items first count slots = some next) :
    EarlyFirst Early required next := by
  let Invariant (last : Nat) (slots : Slots Item) : Prop :=
    EarlyFirst Early required slots ∧ slots.filled.length ≤ last
  have invariant : Invariant (first + count) next := by
    apply foldlM_range'_some_invariant Invariant ⟨earlyFirst, bounded⟩ _ ran
    intro last _ slots next staged ran
    apply foldlM_some_invariant (Invariant (last + 1)) _ ⟨staged.1, Nat.le_succ_of_le staged.2⟩ ran
    intro item _ slots next staged ran
    exact ⟨staged.1.visit respects staged.2 ran, (visit_cases ran).length_le staged.2⟩
  exact invariant.1

end JoinOperator.Foundation.Likeness
