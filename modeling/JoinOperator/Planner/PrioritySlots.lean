import JoinOperator.Foundation.SlotRounds
import JoinOperator.Planner.RelationSets
import JoinOperator.Planner.SetPriorities

/-! # The slots of `priorities`

`SetPriorities` visits the predicates that are not in the join sequence, round
after round. Predicates are related if they are between the same relations.
-/

namespace JoinOperator.Planner

open Foundation RadixJoin

/-- The relations and columns of a predicate, the smaller relation first. -/
def ends (join : Join) : (Nat × Nat) × (Nat × Nat) :=
  if join.participant1.rel ≤ join.participant2.rel then
    ((join.participant1.rel, join.participant1.numCol),
      (join.participant2.rel, join.participant2.numCol))
  else
    ((join.participant2.rel, join.participant2.numCol),
      (join.participant1.rel, join.participant1.numCol))

def relations (columns : (Nat × Nat) × (Nat × Nat)) : Nat × Nat :=
  (columns.1.1, columns.2.1)

theorem relations_eq_iff {partA partB : Join} :
    relations (ends partA) = relations (ends partB) ↔
      (partA.participant1.rel = partB.participant1.rel ∧
        partA.participant2.rel = partB.participant2.rel) ∨
      (partA.participant1.rel = partB.participant2.rel ∧
        partA.participant2.rel = partB.participant1.rel) := by
  simp only [relations, ends, Prod.mk.injEq]
  grind

theorem ends_eq_iff {partA partB : Join} : ends partA = ends partB ↔
    relations (ends partA) = relations (ends partB) ∧
      if partA.participant1.rel = partB.participant1.rel ∧
          partA.participant2.rel = partB.participant2.rel then
        partA.participant1.numCol = partB.participant1.numCol ∧
          partA.participant2.numCol = partB.participant2.numCol
      else
        partA.participant1.numCol = partB.participant2.numCol ∧
          partA.participant2.numCol = partB.participant1.numCol := by
  rw [relations_eq_iff]
  simp only [ends, Prod.ext_iff]
  grind

theorem compareJoins_eq (partA partB : Join) : compareJoins partA partB =
    if relations (ends partA) = relations (ends partB) then
      some (decide (ends partA = ends partB))
    else none := by
  by_cases same : relations (ends partA) = relations (ends partB)
  · rw [if_pos same, compareJoins]
    by_cases direct : partA.participant1.rel = partB.participant1.rel ∧
        partA.participant2.rel = partB.participant2.rel
    · rw [if_pos direct, Option.some.injEq, decide_eq_decide, ends_eq_iff, if_pos direct]
      exact ⟨fun columns => ⟨same, columns⟩, And.right⟩
    · rw [if_neg direct, if_pos ((relations_eq_iff.mp same).resolve_left direct),
        Option.some.injEq, decide_eq_decide, ends_eq_iff, if_neg direct]
      exact ⟨fun columns => ⟨same, columns⟩, And.right⟩
  · have neither := not_or.mp (mt relations_eq_iff.mpr same)
    rw [if_neg same, compareJoins, if_neg neither.1, if_neg neither.2]
def joinLikeness (joins : List Join) :
    Likeness Nat (Option (Nat × Nat)) (Option ((Nat × Nat) × (Nat × Nat))) where
  pair id := joins[id]?.map fun join => relations (ends join)
  signature id := joins[id]?.map ends
  related := by
    intro first second identical
    have pairs := congrArg (Option.map relations) identical
    rw [Option.map_map, Option.map_map] at pairs
    exact pairs

variable {joins : List Join} {partB : Join} {k id : Nat}

section Comparing

variable {filled before after : List Nat} {free : List Nat}

theorem compareJoins_of_related {partA : Join} (getA : joins[id]? = some partA)
    (getB : joins[k]? = some partB)
    (related : (joinLikeness joins).pair id = (joinLikeness joins).pair k) :
    compareJoins partA partB =
      some (decide ((joinLikeness joins).signature id = (joinLikeness joins).signature k)) := by
  simp only [joinLikeness, getA, getB, Option.map_some, Option.some.injEq] at related ⊢
  rw [compareJoins_eq, if_pos related]

theorem compareJoins_of_unrelated {partA : Join} (getA : joins[id]? = some partA)
    (getB : joins[k]? = some partB)
    (unrelated : (joinLikeness joins).pair id ≠ (joinLikeness joins).pair k) :
    compareJoins partA partB = none := by
  simp only [joinLikeness, getA, getB, Option.map_some, ne_eq, Option.some.injEq] at unrelated
  rw [compareJoins_eq, if_neg unrelated]

theorem findRelated_skip (before : List Nat) (getB : joins[k]? = some partB)
    (priorities : List Nat) (remaining p : Nat)
    (slots : ∀ i < before.length, priorities[p + i]? = before[i]?)
    (valid : ∀ id ∈ before, id < joins.length)
    (unrelated : ∀ id ∈ before, (joinLikeness joins).pair id ≠ (joinLikeness joins).pair k) :
    findRelated joins priorities partB (before.length + remaining) p =
      findRelated joins priorities partB remaining (p + before.length) := by
  induction before generalizing p with
  | nil => simp
  | cons id before induction =>
      have first : priorities[p]? = some id := slots 0 (by simp)
      rw [List.length_cons, Nat.add_right_comm, findRelated, first]
      simp only [Option.bind_eq_bind, Option.bind_some,
        List.getElem?_eq_getElem (valid id (by simp))]
      rw [compareJoins_of_unrelated (List.getElem?_eq_getElem (valid id (by simp))) getB
        (unrelated id (by simp))]
      rw [induction _ _ (fun other member => valid other (by simp [member]))
        (fun other member => unrelated other (by simp [member]))]
      · rw [Nat.add_assoc p, Nat.add_comm 1]
      · intro i below
        rw [Nat.add_assoc p, Nat.add_comm 1, slots (i + 1) (by simpa using below)]
        rfl

theorem findRelated_found (after : List Nat) (getB : joins[k]? = some partB) {remaining : Nat}
    (valid : ∀ other ∈ before, other < joins.length) (inside : id < joins.length)
    (unrelated : ∀ id ∈ before, (joinLikeness joins).pair id ≠ (joinLikeness joins).pair k)
    (related : (joinLikeness joins).pair id = (joinLikeness joins).pair k)
    (seen : before.length < remaining) :
    findRelated joins (before ++ id :: after) partB remaining 0 = some (some (before.length,
      decide ((joinLikeness joins).signature id = (joinLikeness joins).signature k))) := by
  rcases Nat.exists_eq_add_of_lt seen with ⟨more, rfl⟩
  rw [Nat.add_assoc, findRelated_skip before getB, Nat.zero_add, findRelated]
  · simp only [List.getElem?_append_right (Nat.le_refl _), Nat.sub_self, List.getElem?_cons_zero,
      Option.bind_eq_bind, Option.bind_some, List.getElem?_eq_getElem inside]
    rw [compareJoins_of_related (List.getElem?_eq_getElem inside) getB related]
  · intro i below
    rw [Nat.zero_add, List.getElem?_append_left below]
  · exact valid
  · exact unrelated

theorem findRelated_notFound (getB : joins[k]? = some partB) {visible count : Nat}
    (few : joins.length ≤ noPriority) (valid : ∀ id ∈ filled, id < joins.length)
    (unrelated : ∀ id ∈ filled.take visible,
      (joinLikeness joins).pair id ≠ (joinLikeness joins).pair k) :
    findRelated joins (filled ++ List.replicate count noPriority) partB visible 0 =
      if visible ≤ filled.length then some none else none := by
  have skipped := findRelated_skip (filled.take visible) getB
    (filled ++ List.replicate count noPriority) (visible - filled.length) 0
  rw [List.length_take, show min visible filled.length + (visible - filled.length) = visible by
    omega] at skipped
  rw [skipped]
  · by_cases within : visible ≤ filled.length
    · rw [if_pos within, Nat.sub_eq_zero_of_le within]
      rfl
    · rw [if_neg within, show visible - filled.length = visible - filled.length - 1 + 1 by omega,
        Nat.min_eq_right (by omega), Nat.zero_add, findRelated]
      rw [List.getElem?_append_right (Nat.le_refl _), Nat.sub_self]
      cases count with
      | zero => rfl
      | succ count =>
          simp [List.replicate_succ, List.getElem?_eq_none few]
  · intro i below
    rw [Nat.zero_add, List.getElem?_append_left (by omega), List.getElem?_take_of_lt (by omega)]
  · exact fun other member => valid other (List.mem_of_mem_take member)
  · exact unrelated

end Comparing

theorem write_append (front rest : List Nat) (old value : Nat) :
    write (front ++ old :: rest) front.length value = some (front ++ value :: rest) := by
  rw [write_of_lt (by simp), List.set_append_right _ _ (Nat.le_refl _), Nat.sub_self,
    List.set_cons_zero]

theorem insertPriority_eq (k p old : Nat) (front middle rest : List Nat)
    (fits : front.length ≤ p + 1) (moves : middle = [] ∨ front.length = p + 1) :
    insertPriority k p (front.length + middle.length) (front ++ middle ++ old :: rest) =
      some (front ++ k :: middle ++ rest) := by
  induction middle using List.reverseRecOn generalizing old rest with
  | nil =>
      rw [List.append_nil, List.length_nil, Nat.add_zero]
      cases front with
      | nil => rfl
      | cons first front =>
          rw [List.length_cons, insertPriority, if_neg (by simpa using fits)]
          rw [List.append_assoc]
          exact write_append (first :: front) rest old k
  | append_singleton middle last induction =>
      have atSlot := moves.resolve_left (by simp)
      have read : (front ++ (middle ++ [last]) ++ old :: rest)[front.length + middle.length]? =
          some last := by
        rw [← List.append_assoc, ← List.length_append, List.append_assoc,
          List.getElem?_append_right (Nat.le_refl _), Nat.sub_self]
        rfl
      have written : write (front ++ (middle ++ [last]) ++ old :: rest)
          (front.length + middle.length + 1) last =
          some (front ++ middle ++ last :: last :: rest) := by
        have slots := write_append (front ++ (middle ++ [last])) rest old last
        rw [List.length_append, List.length_append, List.length_singleton, ← Nat.add_assoc]
          at slots
        rw [slots]
        simp
      rw [List.length_append, List.length_singleton, ← Nat.add_assoc, insertPriority,
        if_pos (by omega), read]
      simp only [Option.bind_eq_bind, Option.bind_some, written]
      rw [induction _ _ (.inr atSlot)]
      simp

def prioritiesOf (numOfJoins : Nat) (slots : Slots Nat) : Priorities :=
  ⟨slots.filled ++ List.replicate (numOfJoins - slots.filled.length) noPriority, slots.visible⟩

section Slots

variable {filled : List Nat} {last numOfJoins visible : Nat}

theorem slots_split {p : Nat} (atMost : p ≤ last) (reaches : last ≤ filled.length)
    (bounded : filled.length ≤ last + 1) (inside : last < numOfJoins) :
    ∃ old, filled ++ List.replicate (numOfJoins - filled.length) noPriority =
      filled.take p ++ (filled.drop p).take (last - p) ++
        old :: List.replicate (numOfJoins - (last + 1)) noPriority := by
  have front : filled.take p ++ (filled.drop p).take (last - p) = filled.take last := by
    rw [← List.take_add, Nat.add_sub_cancel' atMost]
  rw [front]
  rcases Nat.lt_or_eq_of_le bounded with free | full
  · refine ⟨noPriority, ?_⟩
    rw [List.take_of_length_le (by omega), ← List.replicate_succ]
    congr 2
    omega
  · refine ⟨filled[last], ?_⟩
    rw [List.append_cons, List.take_append_getElem, List.take_of_length_le (by omega), full]

theorem insertPriority_place {p : Nat} (reaches : last ≤ filled.length)
    (bounded : filled.length ≤ last + 1) (inside : last < numOfJoins) :
    insertPriority k p last
        (filled ++ List.replicate (numOfJoins - filled.length) noPriority) =
      some (prioritiesOf numOfJoins
        ⟨place (min (p + 1) last) last k filled, visible⟩).priorities := by
  have atMost := Nat.min_le_right (p + 1) last
  rcases slots_split atMost reaches bounded inside with ⟨old, split⟩
  have frontLength : (filled.take (min (p + 1) last)).length = min (p + 1) last :=
    List.length_take_of_le (Nat.le_trans atMost reaches)
  have middleLength : ((filled.drop (min (p + 1) last)).take (last - min (p + 1) last)).length =
      last - min (p + 1) last := by
    rw [List.length_take, List.length_drop]
    omega
  have inserted := insertPriority_eq k p old (filled.take (min (p + 1) last))
    ((filled.drop (min (p + 1) last)).take (last - min (p + 1) last))
    (List.replicate (numOfJoins - (last + 1)) noPriority)
  rw [frontLength, middleLength, Nat.add_sub_cancel' atMost, ← split] at inserted
  rw [prioritiesOf, length_place atMost reaches, place]
  apply inserted (Nat.min_le_left _ _)
  by_cases above : p + 1 ≤ last
  · exact .inr (Nat.min_eq_left above)
  · left
    apply List.eq_nil_of_length_eq_zero
    omega

/-- What the loops of the source do for a predicate that is not in the sequence is
a visit. -/
theorem prioritize_eq {joins : List Join} {sequence : List Char} (getB : joins[k]? = some partB)
    (few : joins.length ≤ noPriority) (outside : existsInComb sequence k = false)
    (valid : ∀ id ∈ filled, id < joins.length) (reaches : last ≤ filled.length)
    (bounded : filled.length ≤ last + 1) (inside : last < joins.length) :
    prioritize joins sequence last (prioritiesOf joins.length ⟨filled, visible⟩) k =
      ((joinLikeness joins).visit last ⟨filled, visible⟩ k).map (prioritiesOf joins.length) := by
  rw [prioritize, if_neg (by simp [outside]), getB]
  simp only [Option.bind_eq_bind, Option.bind_some]
  cases isFound : (joinLikeness joins).find (filled.take visible) k with
  | none =>
      have unrelated := Likeness.find_eq_none.mp isFound
      rw [Likeness.visit_notFound unrelated]
      simp only [prioritiesOf, findRelated_notFound getB few valid unrelated]
      by_cases within : visible ≤ filled.length
      · rw [if_pos within, if_pos within]
        rcases slots_split (Nat.le_refl last) reaches bounded inside with ⟨old, split⟩
        have long : (filled.take last).length = last := List.length_take_of_le reaches
        rw [Nat.sub_self, List.take_zero, List.append_nil] at split
        have written := write_append (filled.take last)
          (List.replicate (joins.length - (last + 1)) noPriority) old k
        rw [long] at written
        simp only [Option.bind_some, split, written, Option.map_some]
        rw [prioritiesOf, List.length_append, long, List.length_singleton, List.append_assoc]
        rfl
      · rw [if_neg within, if_neg within]
        rfl
  | some found =>
      rcases Likeness.split_of_find isFound with ⟨related, before, after, rfl, seen, unrelated⟩
      have isRelated := findRelated_found (after ++ List.replicate
        (joins.length - (before ++ found :: after).length) noPriority) getB
        (fun other member => valid other (List.mem_append_left _ member))
        (valid found (by simp)) unrelated related seen
      rw [← List.cons_append, ← List.append_assoc] at isRelated
      rw [Likeness.visit_found related unrelated seen]
      simp only [prioritiesOf, isRelated, Option.bind_some, decide_eq_true_eq]
      by_cases identical : (joinLikeness joins).signature found = (joinLikeness joins).signature k
      · rw [if_pos identical, if_pos identical]
        rfl
      · rw [if_neg identical, if_neg identical, insertPriority_place reaches bounded inside]
        rfl

end Slots

def visited (sequence : List Char) (numOfJoins : Nat) : List Nat :=
  (List.range numOfJoins).filter fun k => !existsInComb sequence k

section Rounds

variable {sequence : List Char} {last : Nat} {slots next : Slots Nat}

/-- The filled slots have predicates, and reach up to the last slot of a round. -/
structure Fills (joins : List Join) (last : Nat) (slots : Slots Nat) : Prop where
  valid : ∀ id ∈ slots.filled, id < joins.length
  reaches : last ≤ slots.filled.length
  bounded : slots.filled.length ≤ last + 1

theorem Fills.visit (fills : Fills joins last slots) (inside : k < joins.length)
    (ran : (joinLikeness joins).visit last slots k = some next) : Fills joins last next := by
  have isVisited := Likeness.visit_cases ran
  have valid : ∀ id ∈ next.filled, id < joins.length := by
    intro id member
    rcases isVisited.mem member with rfl | member
    · exact inside
    · exact fills.valid id member
  rcases isVisited.length_eq fills.reaches with ⟨rfl, _⟩ | length
  · exact fills
  · exact ⟨valid, by omega, by omega⟩

theorem prioritizeAll_eq (sequence : List Char) (few : joins.length ≤ noPriority)
    (inside : last < joins.length)
    (fills : Fills joins last slots) {items : List Nat}
    (valid : ∀ k ∈ items, k < joins.length) :
    items.foldlM (prioritize joins sequence last) (prioritiesOf joins.length slots) =
      ((joinLikeness joins).visits (items.filter fun k => !existsInComb sequence k) last
        slots).map (prioritiesOf joins.length) := by
  induction items generalizing slots with
  | nil => rfl
  | cons k items induction =>
      have induction' := fun slots (fills : Fills joins last slots) => induction fills
        fun other member => valid other (List.mem_cons_of_mem k member)
      rw [List.foldlM_cons]
      cases listed : existsInComb sequence k with
      | true =>
          rw [prioritize, if_pos listed, List.filter_cons_of_neg (by simp [listed])]
          exact induction' slots fills
      | false =>
          rw [List.filter_cons_of_pos (by simp [listed]), Likeness.visits_cons,
            prioritize_eq (List.getElem?_eq_getElem (valid k (by simp))) few listed fills.valid
              fills.reaches fills.bounded inside]
          cases ran : (joinLikeness joins).visit last slots k with
          | none => rfl
          | some next => exact induction' next (fills.visit (valid k (by simp)) ran)

theorem Fills.visits (fills : Fills joins last slots) {items : List Nat}
    (valid : ∀ k ∈ items, k < joins.length)
    (ran : (joinLikeness joins).visits items last slots = some next) :
    Fills joins last next := by
  apply foldlM_some_invariant (Fills joins last) _ fills ran
  intro k member slots next fills ran
  exact fills.visit (valid k member) ran

theorem visited_lt {sequence : List Char} {numOfJoins : Nat} :
    ∀ k ∈ visited sequence numOfJoins, k < numOfJoins :=
  fun _ member => List.mem_range.mp (List.mem_filter.mp member).1

theorem rounds_valid {items : List Nat} {first count : Nat} {slots next : Slots Nat}
    (valid : ∀ k ∈ items, k < joins.length) (start : ∀ id ∈ slots.filled, id < joins.length)
    (ran : (joinLikeness joins).rounds items first count slots = some next) :
    ∀ id ∈ next.filled, id < joins.length := by
  apply foldlM_some_invariant (fun slots : Slots Nat => ∀ id ∈ slots.filled, id < joins.length)
    _ start ran
  intro last _ slots next start ran
  apply foldlM_some_invariant (fun slots : Slots Nat => ∀ id ∈ slots.filled, id < joins.length)
    _ start ran
  intro k member slots next start ran id isFilled
  cases (Likeness.visit_cases ran).mem isFilled with
  | inl isItem => exact isItem ▸ valid k member
  | inr inSlots => exact start id inSlots

theorem prioritize_covered (valid : ∀ id ∈ slots.filled, id < joins.length)
    (inside : k < joins.length)
    (covered : existsInComb sequence k = false → Likeness.Covered (joinLikeness joins) slots k) :
    prioritize joins sequence last (prioritiesOf joins.length slots) k =
      some (prioritiesOf joins.length slots) := by
  rw [prioritize]
  cases listed : existsInComb sequence k with
  | true => rfl
  | false =>
      rcases slots with ⟨filled, visible⟩
      rcases covered listed with ⟨found, isFound, identical⟩
      rcases Likeness.split_of_find isFound with ⟨related, before, after, rfl, seen, unrelated⟩
      have isRelated := findRelated_found (after ++ List.replicate
        (joins.length - (before ++ found :: after).length) noPriority)
        (List.getElem?_eq_getElem inside)
        (fun other member => valid other (List.mem_append_left _ member))
        (valid found (by simp)) unrelated related seen
      rw [← List.cons_append, ← List.append_assoc] at isRelated
      simp only [List.getElem?_eq_getElem inside, prioritiesOf, isRelated, identical,
        Option.bind_eq_bind, Option.bind_some]
      rfl

/-- The loops over the slots are rounds of visits. -/
theorem prioritizeRounds_eq (sequence : List Char) (slots : Slots Nat)
    (few : joins.length ≤ noPriority) {first count : Nat}
    (within : first + count ≤ joins.length) (valid : ∀ id ∈ slots.filled, id < joins.length)
    (length : slots.filled.length = first) :
    (List.range' first count).foldlM (fun state last => (List.range joins.length).foldlM
        (prioritize joins sequence last) state) (prioritiesOf joins.length slots) =
      ((joinLikeness joins).rounds (visited sequence joins.length) first count slots).map
        (prioritiesOf joins.length) := by
  induction count generalizing first slots with
  | zero => rfl
  | succ count induction =>
      have fills : Fills joins first slots := ⟨valid, by omega, by omega⟩
      have round := prioritizeAll_eq sequence few (by omega) fills
        fun k (member : k ∈ List.range joins.length) => List.mem_range.mp member
      rw [List.range'_succ, List.foldlM_cons, round, Likeness.rounds_succ]
      cases ran : (joinLikeness joins).visits (visited sequence joins.length) first slots with
      | none =>
          rw [visited] at ran
          rw [ran]
          rfl
      | some next =>
          have nextFills := fills.visits visited_lt ran
          have settled := Likeness.visits_settled fills.reaches ran
          rw [visited] at ran
          rw [ran]
          rcases settled with ⟨rfl, covered⟩ | full
          · have fixed : (joinLikeness joins).rounds (visited sequence joins.length) (first + 1)
                count next = some next :=
              foldlM_fixed fun last _ => foldlM_fixed fun k member =>
                Likeness.visit_of_covered (covered k member)
            rw [Option.bind_some, fixed]
            apply foldlM_fixed
            intro last _
            apply foldlM_fixed
            intro k member
            apply prioritize_covered valid (List.mem_range.mp member)
            intro listed
            exact covered k (List.mem_filter.mpr ⟨member, by simp [listed]⟩)
          · exact induction next (by omega) nextFills.valid full

end Rounds

end JoinOperator.Planner
