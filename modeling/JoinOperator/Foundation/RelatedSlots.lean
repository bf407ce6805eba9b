import Mathlib.Data.List.Basic
import Mathlib.Data.List.TakeDrop

/-! # Slots that are filled next to related items

Items are visited in rounds. The item of a visit is put behind the first related
item that is visible, unless the two are identical, or else into the last slot of
the round. The items above it move up, and that of the last slot is lost.
-/

namespace JoinOperator.Foundation

/-- Items with the same pair are related, items with the same signature are
identical. -/
structure Likeness (Item Pair Signature : Type*) where
  pair : Item → Pair
  signature : Item → Signature
  related : ∀ {first second : Item}, signature first = signature second →
    pair first = pair second

/-- The items of the slots that are filled. -/
structure Slots (Item : Type*) where
  filled : List Item
  visible : Nat

section Place

variable {Item : Type*}

/-- Puts an item into slot `p`, and moves those above up to slot `last`. -/
def place (p last : Nat) (item : Item) (filled : List Item) : List Item :=
  filled.take p ++ item :: (filled.drop p).take (last - p)

theorem mem_place {p last : Nat} {item other : Item} {filled : List Item}
    (member : other ∈ place p last item filled) : other = item ∨ other ∈ filled := by
  rcases List.mem_append.mp member with member | member
  · exact .inr (List.mem_of_mem_take member)
  · rcases List.mem_cons.mp member with isItem | member
    · exact .inl isItem
    · exact .inr (List.mem_of_mem_drop (List.mem_of_mem_take member))

theorem length_place_le (p last : Nat) (item : Item) (filled : List Item) :
    (place p last item filled).length ≤ filled.length + 1 := by
  simp only [place, List.length_append, List.length_cons, List.length_take, List.length_drop]
  omega

theorem length_place_of_le {p last : Nat} (item : Item) (filled : List Item)
    (atMost : p ≤ last) : (place p last item filled).length ≤ last + 1 := by
  simp only [place, List.length_append, List.length_cons, List.length_take, List.length_drop]
  omega

theorem length_place {p last : Nat} {item : Item} {filled : List Item} (atMost : p ≤ last)
    (reaches : last ≤ filled.length) : (place p last item filled).length = last + 1 := by
  simp only [place, List.length_append, List.length_cons, List.length_take, List.length_drop]
  omega

theorem place_self (last : Nat) (item : Item) (filled : List Item) :
    place last last item filled = filled.take last ++ [item] := by
  simp [place]

theorem place_append {p last : Nat} {item : Item} {front rest : List Item}
    (behind : front.length ≤ p) : place p last item (front ++ rest) =
      front ++ place (p - front.length) (last - front.length) item rest := by
  rw [place, place, List.take_append, List.drop_append, List.take_of_length_le behind,
    List.drop_of_length_le behind, List.nil_append, List.append_assoc]
  congr 4
  omega

theorem place_behind {last : Nat} {item found : Item} {before after : List Item}
    (inside : before.length < last) :
    place (before.length + 1) last item (before ++ found :: after) =
      (before ++ found :: item :: after).take (last + 1) := by
  rw [place_append (by omega), List.take_append, List.take_of_length_le (by omega)]
  have one : last + 1 - before.length = last - before.length - 1 + 1 + 1 := by omega
  rw [one, List.take_succ_cons, List.take_succ_cons, Nat.add_sub_cancel_left]
  rfl

end Place

namespace Likeness

variable {Item Pair Signature : Type*} [DecidableEq Pair]
variable (likeness : Likeness Item Pair Signature)

def find (items : List Item) (item : Item) : Option Item :=
  items.find? fun other => likeness.pair other = likeness.pair item

def visit [DecidableEq Signature] (last : Nat) (slots : Slots Item)
    (item : Item) : Option (Slots Item) :=
  match (slots.filled.take slots.visible).findIdx? fun other =>
      likeness.pair other = likeness.pair item with
  | some p =>
      if slots.filled[p]?.map likeness.signature = some (likeness.signature item) then some slots
      else some ⟨place (min (p + 1) last) last item slots.filled, slots.visible + 1⟩
  | none =>
      if slots.visible ≤ slots.filled.length then
        some ⟨place last last item slots.filled, slots.visible⟩
      else none

/-- One round, with the last slot `last`. -/
def visits [DecidableEq Signature] (items : List Item) (last : Nat) (slots : Slots Item) :
    Option (Slots Item) :=
  items.foldlM (likeness.visit last) slots

def rounds [DecidableEq Signature] (items : List Item) (first count : Nat) (slots : Slots Item) :
    Option (Slots Item) :=
  (List.range' first count).foldlM (fun slots last => likeness.visits items last slots) slots

variable {likeness}
variable {items filled before after front rest : List Item} {item found other : Item}
variable {last : Nat} {slots next : Slots Item}

theorem find_eq_none :
    likeness.find items item = none ↔
      ∀ other ∈ items, likeness.pair other ≠ likeness.pair item := by
  simp [find]

theorem find_eq_some : likeness.find items item = some found ↔
    likeness.pair found = likeness.pair item ∧ ∃ before after,
      items = before ++ found :: after ∧
        ∀ other ∈ before, likeness.pair other ≠ likeness.pair item := by
  simp [find, List.find?_eq_some_iff_append]

theorem split_of_find {visible : Nat}
    (isFound : likeness.find (filled.take visible) item = some found) :
    likeness.pair found = likeness.pair item ∧ ∃ before after,
      filled = before ++ found :: after ∧ before.length < visible ∧
        ∀ other ∈ before, likeness.pair other ≠ likeness.pair item := by
  rcases find_eq_some.mp isFound with ⟨isRelated, before, after, split, first⟩
  refine ⟨isRelated, before, after ++ filled.drop visible, ?_, ?_, first⟩
  · conv_lhs => rw [← List.take_append_drop visible filled, split]
    simp
  · have lengths := congrArg List.length split
    simp only [List.length_take, List.length_append, List.length_cons] at lengths
    omega

theorem find_append : likeness.find (front ++ rest) item =
    (likeness.find front item).or (likeness.find rest item) :=
  List.find?_append

theorem find_cons_of_related (isRelated : likeness.pair other = likeness.pair item) :
    likeness.find (other :: rest) item = some other :=
  List.find?_cons_of_pos (by simpa using isRelated)

theorem find_cons_of_unrelated (unrelated : likeness.pair other ≠ likeness.pair item) :
    likeness.find (other :: rest) item = likeness.find rest item :=
  List.find?_cons_of_neg (by simpa using unrelated)

/-- The first visible item that is related to `item` is identical to it. -/
def Covered (likeness : Likeness Item Pair Signature) (slots : Slots Item) (item : Item) :
    Prop :=
  ∃ found, likeness.find (slots.filled.take slots.visible) item = some found ∧
    likeness.signature found = likeness.signature item

inductive Visited (likeness : Likeness Item Pair Signature) (last : Nat) (slots : Slots Item)
    (item : Item) : Slots Item → Prop
  | skipped (covered : Covered likeness slots item) : Visited likeness last slots item slots
  | inserted (p : Nat) (found : Item) (isFound : likeness.find slots.filled item = some found)
      (atMost : p ≤ last)
      (behind : ∀ front rest, slots.filled = front ++ rest → likeness.find front item = none →
        front.length ≤ last → front.length ≤ p) :
      Visited likeness last slots item ⟨place p last item slots.filled, slots.visible + 1⟩
  | appended (visible : slots.visible ≤ slots.filled.length) :
      Visited likeness last slots item ⟨place last last item slots.filled, slots.visible⟩

/-- Each visit but those of identical items fills the last slot. -/
theorem Visited.length_eq (isVisited : Visited likeness last slots item next)
    (reaches : last ≤ slots.filled.length) :
    (next = slots ∧ Covered likeness slots item) ∨ next.filled.length = last + 1 := by
  cases isVisited with
  | skipped covered => exact .inl ⟨rfl, covered⟩
  | inserted p found isFound atMost => exact .inr (length_place atMost reaches)
  | appended => exact .inr (length_place (Nat.le_refl last) reaches)

theorem Visited.length_le (isVisited : Visited likeness last slots item next)
    (bounded : slots.filled.length ≤ last + 1) : next.filled.length ≤ last + 1 := by
  cases isVisited with
  | skipped => exact bounded
  | inserted p found isFound atMost => exact length_place_of_le item slots.filled atMost
  | appended => exact length_place_of_le item slots.filled (Nat.le_refl last)

theorem Visited.mem (isVisited : Visited likeness last slots item next)
    (member : other ∈ next.filled) : other = item ∨ other ∈ slots.filled := by
  cases isVisited with
  | skipped => exact .inr member
  | inserted => exact mem_place member
  | appended => exact mem_place member

theorem Visited.keeps_front (isVisited : Visited likeness last slots item next)
    (split : slots.filled = front ++ rest)
    (absent : likeness.find front item = none) (fits : front.length ≤ last) :
    ∃ rest', next.filled = front ++ rest' := by
  cases isVisited with
  | skipped => exact ⟨rest, split⟩
  | inserted p found isFound atMost behind =>
      exact ⟨_, by rw [split, place_append (behind front rest split absent fits)]⟩
  | appended => exact ⟨_, by rw [split, place_append fits]⟩

theorem Visited.visible_le (isVisited : Visited likeness last slots item next) :
    slots.visible ≤ next.visible := by
  cases isVisited with
  | skipped => exact Nat.le_refl _
  | inserted => exact Nat.le_succ _
  | appended => exact Nat.le_refl _

/-- No slot has a related item, and a search reads beyond the filled slots. -/
structure Starved (likeness : Likeness Item Pair Signature) (item : Item)
    (slots : Slots Item) : Prop where
  absent : likeness.find slots.filled item = none
  beyond : slots.filled.length < slots.visible

theorem Starved.visit {starving : Item} (starved : Starved likeness starving slots)
    (isVisited : Visited likeness last slots item next) : Starved likeness starving next := by
  cases isVisited with
  | skipped => exact starved
  | inserted p found isFound =>
      refine ⟨?_, Nat.lt_of_le_of_lt (length_place_le ..) (Nat.succ_lt_succ starved.beyond)⟩
      apply find_eq_none.mpr
      intro other member isRelated
      rcases mem_place member with rfl | member
      · rcases find_eq_some.mp isFound with ⟨foundRelated, _, _, split, _⟩
        refine find_eq_none.mp starved.absent found ?_ (foundRelated.trans isRelated)
        rw [split]
        simp
      · exact find_eq_none.mp starved.absent other member isRelated
  | appended within => exact absurd within (Nat.not_le.mpr starved.beyond)

theorem Starved.lost (starved : Starved likeness item slots) :
    ∀ other ∈ slots.filled, likeness.signature other ≠ likeness.signature item :=
  fun other member identical =>
    find_eq_none.mp starved.absent other member (likeness.related identical)

/-- Both lists have the same first item of each pair. -/
def Represents (likeness : Likeness Item Pair Signature) (items front : List Item) : Prop :=
  ∀ item, likeness.find front item = likeness.find items item

theorem Represents.insert {before after : List Item}
    (represents : Represents likeness items (before ++ found :: after))
    (isRelated : likeness.pair found = likeness.pair item) :
    Represents likeness items (before ++ found :: item :: after) := by
  intro other
  rw [← represents other, find_append, find_append]
  by_cases same : likeness.pair found = likeness.pair other
  · rw [find_cons_of_related same, find_cons_of_related same]
  · rw [find_cons_of_unrelated same, find_cons_of_unrelated same, find_cons_of_unrelated]
    exact fun itemSame => same (isRelated.trans itemSame)

section Visit

variable [DecidableEq Signature] {visible : Nat}

theorem visit_found (isRelated : likeness.pair found = likeness.pair item)
    (first : ∀ other ∈ before, likeness.pair other ≠ likeness.pair item)
    (seen : before.length < visible) :
    likeness.visit last ⟨before ++ found :: after, visible⟩ item =
      if likeness.signature found = likeness.signature item then
        some ⟨before ++ found :: after, visible⟩
      else some ⟨place (min (before.length + 1) last) last item (before ++ found :: after),
        visible + 1⟩ := by
  have position : ((before ++ found :: after).take visible).findIdx? (fun other =>
      likeness.pair other = likeness.pair item) = some before.length := by
    have more : visible - before.length = visible - before.length - 1 + 1 := by omega
    rw [List.take_append, List.take_of_length_le (Nat.le_of_lt seen), more, List.take_succ_cons,
      List.findIdx?_append, List.findIdx?_eq_none_iff.mpr (by simpa using first),
      List.findIdx?_cons, if_pos (by simpa using isRelated)]
    simp
  simp only [visit, position, List.getElem?_append_right (Nat.le_refl _), Nat.sub_self,
    List.getElem?_cons_zero, Option.map_some, Option.some.injEq]

theorem visit_notFound
    (unrelated : ∀ other ∈ filled.take visible, likeness.pair other ≠ likeness.pair item) :
    likeness.visit last ⟨filled, visible⟩ item =
      if visible ≤ filled.length then some ⟨filled.take last ++ [item], visible⟩ else none := by
  have position : (filled.take visible).findIdx? (fun other =>
      likeness.pair other = likeness.pair item) = none :=
    List.findIdx?_eq_none_iff.mpr (by simpa using unrelated)
  simp only [visit, position, place_self]

theorem visit_cases (ran : likeness.visit last slots item = some next) :
    Visited likeness last slots item next := by
  rcases slots with ⟨filled, visible⟩
  cases isFound : likeness.find (filled.take visible) item with
  | none =>
      rw [visit_notFound (find_eq_none.mp isFound)] at ran
      split at ran
      · rename_i within
        cases ran
        rw [← place_self]
        exact .appended within
      · cases ran
  | some found =>
      rcases split_of_find isFound with ⟨isRelated, before, after, whole, seen, first⟩
      have inFilled : likeness.find filled item = some found :=
        find_eq_some.mpr ⟨isRelated, before, _, whole, first⟩
      rw [whole, visit_found isRelated first seen, ← whole] at ran
      split at ran
      · rename_i identical
        cases ran
        exact .skipped ⟨found, isFound, identical⟩
      · cases ran
        refine .inserted _ found inFilled (Nat.min_le_right _ _) ?_
        intro front rest parts absent fits
        apply Nat.le_min.mpr ⟨?_, fits⟩
        by_contra longer
        have inFront : found ∈ front := by
          have prefixed : before ++ [found] <+: front := by
            refine List.prefix_of_prefix_length_le (show before ++ [found] <+: filled from ?_)
              ⟨rest, parts.symm⟩ ?_
            · refine ⟨after, ?_⟩
              rw [List.append_assoc]
              exact whole.symm
            · simp only [List.length_append, List.length_singleton]
              omega
          exact prefixed.subset (by simp)
        exact find_eq_none.mp absent found inFront isRelated

theorem visit_identical (rest : List Item) (last : Nat)
    (isFound : likeness.find front item = some found)
    (identical : likeness.signature found = likeness.signature item)
    (seen : front.length ≤ visible) :
    likeness.visit last ⟨front ++ rest, visible⟩ item = some ⟨front ++ rest, visible⟩ := by
  rcases find_eq_some.mp isFound with ⟨isRelated, before, after, rfl, first⟩
  rw [List.append_assoc, List.cons_append, visit_found isRelated first, if_pos identical]
  simp only [List.length_append, List.length_cons] at seen
  omega

theorem visit_parallel (rest : List Item)
    (isFound : likeness.find front item = some found)
    (differs : likeness.signature found ≠ likeness.signature item)
    (seen : front.length ≤ visible) (room : front.length ≤ last) :
    ∃ grown, likeness.visit last ⟨front ++ rest, visible⟩ item =
        some ⟨(grown ++ rest).take (last + 1), visible + 1⟩ ∧
      Represents likeness front grown ∧ grown.length = front.length + 1 ∧ item ∈ grown ∧
        ∀ other ∈ front, other ∈ grown := by
  rcases find_eq_some.mp isFound with ⟨isRelated, before, after, rfl, first⟩
  simp only [List.length_append, List.length_cons] at seen room
  have unchanged : Represents likeness (before ++ found :: after)
      (before ++ found :: after) := fun _ => rfl
  refine ⟨before ++ found :: item :: after, ?_,
    unchanged.insert isRelated, ?_, by simp, ?_⟩
  · rw [List.append_assoc, List.cons_append, visit_found isRelated first (by omega),
      if_neg differs, Nat.min_eq_left (by omega), place_behind (by omega)]
    simp
  · simp only [List.length_append, List.length_cons]
    omega
  · intro other member
    simp only [List.mem_append, List.mem_cons] at member ⊢
    tauto

end Visit

end Likeness

end JoinOperator.Foundation
