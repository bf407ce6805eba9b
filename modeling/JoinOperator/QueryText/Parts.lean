import JoinOperator.QueryText.Predicates

/-! # The parts of a text, in their order

Each array is filled from its front, and an element is what was stored for one
part of the text.
-/

namespace JoinOperator.QueryText

open Foundation

def filled {α : Type} (unset : α) (count : Nat) (done : List α) : List α :=
  done ++ List.replicate (count - done.length) unset

section Filled

variable {α : Type} {unset : α} {count : Nat} {done : List α}

theorem filled_of_length (full : done.length = count) : filled unset count done = done := by
  rw [filled, full, Nat.sub_self, List.replicate_zero, List.append_nil]

theorem filled_of_lt (room : done.length < count) :
    filled unset count done =
      done ++ unset :: List.replicate (count - (done.length + 1)) unset := by
  rw [filled, ← List.replicate_succ]
  congr 2
  omega

theorem filled_append (value : α) : filled unset count (done ++ [value]) =
    done ++ value :: List.replicate (count - (done.length + 1)) unset := by
  rw [filled, List.length_append, List.append_assoc]
  rfl

theorem modifyAt_append (value : α) (rest : List α) (change : α → Except Fault α) :
    modifyAt (done ++ value :: rest) done.length change = (do
      let after ← change value
      .ok (done ++ after :: rest)) := by
  have get : (done ++ value :: rest)[done.length]? = some value := by
    rw [List.getElem?_append_right (Nat.le_refl _), Nat.sub_self]
    rfl
  have set (after : α) : (done ++ value :: rest).set done.length after = done ++ after :: rest := by
    rw [List.set_append_right _ _ (Nat.le_refl _), Nat.sub_self]
    rfl
  simp only [modifyAt, get, set]

theorem modifyAt_filled (room : done.length < count) (change : α → Except Fault α) :
    modifyAt (filled unset count done) done.length change = (do
      let after ← change unset
      .ok (filled unset count (done ++ [after]))) := by
  simp only [filled_of_lt room, filled_append, modifyAt_append]

theorem modifyAt_filled_append (value : α) (change : α → Except Fault α) :
    modifyAt (filled unset count (done ++ [value])) done.length change = (do
      let after ← change value
      .ok (filled unset count (done ++ [after]))) := by
  simp only [filled_append, modifyAt_append]

end Filled

structure Parts where
  rels : List (List Nat)
  filters : List FilterCells
  joins : List JoinCells
  sums : List ColRelCells

def Parts.construction (parts : Parts) (counts : Counts) (mark slice : Nat) : Construction where
  mark
  slice
  counterRels := parts.rels.length
  counterSums := parts.sums.length
  counterFilters := parts.filters.length
  counterJoins := parts.joins.length
  rels := filled [] counts.rels parts.rels
  filters := filled .unset counts.filters parts.filters
  joins := filled .unset counts.joins parts.joins
  sums := filled .unset counts.sums parts.sums

section Store

variable (atoi : List Char → Int) (relArr : List Relationsheep)

def Parts.storeRel (parts : Parts) (rel : Numeral) : Parts :=
  { parts with rels := parts.rels ++ [[number atoi rel.digits]] }

def Parts.storePredicate (parts : Parts) : Predicate Numeral → Except Fault Parts
  | .join left right => do
      let participant1 ← fillParticipant atoi relArr parts.rels true left
      let participant2 ← fillParticipant atoi relArr parts.rels true right
      .ok { parts with joins := parts.joins ++ [⟨participant1, participant2⟩] }
  | .filter participant op constant => do
      let cells ← fillParticipant atoi relArr parts.rels false participant
      .ok { parts with
        filters := parts.filters ++ [⟨cells, [op], [number atoi constant.digits]⟩] }

def Parts.storeSum (parts : Parts) (sum : ColumnName Numeral) : Except Fault Parts := do
  let cells ← fillSum atoi relArr parts.rels
    { ColRelCells.unset with rel := [number atoi sum.rel.digits] } sum.col.digits
  .ok { parts with sums := parts.sums ++ [cells] }

variable {counts : Counts} {parts : Parts} {mark slice : Nat}

theorem addRel_construction (room : parts.rels.length < counts.rels) (rel : Numeral) :
    addRel atoi (parts.construction counts mark slice) rel.digits =
      .ok ((parts.storeRel atoi rel).construction counts mark slice) := by
  rw [addRel]
  simp only [Parts.construction, modifyAt_filled room]
  rw [Parts.storeRel, List.length_append]
  rfl

theorem strstr_single {c : Char} {text : List Char} : strstr text [c] = true ↔ c ∈ text := by
  induction text with
  | nil => simp [strstr]
  | cons first rest induction =>
      rw [strstr] at induction ⊢
      rw [List.tails, List.any_cons, Bool.or_eq_true, induction, List.mem_cons]
      simp [List.isPrefixOf]

theorem subStrOccur_single (c : Char) (text : List Char) :
    subStrOccur text [c] = text.count c := by
  induction text with
  | nil => rfl
  | cons first rest induction =>
      rw [subStrOccur] at induction ⊢
      rw [List.tails, List.countP_cons, induction, List.count_cons]
      simp [List.isPrefixOf, BEq.comm (a := c)]

theorem Numeral.not_mem {c : Char} (noDigit : c.isDigit = false) (written : Numeral) :
    c ∉ written.digits := fun member => written.ne_of_mem member noDigit rfl

theorem ColumnName.mem_text_iff {c : Char} (noDigit : c.isDigit = false)
    (name : ColumnName Numeral) : c ∈ name.text ↔ c = '.' := by
  simp [ColumnName.text, Numeral.not_mem noDigit]

theorem ColumnName.count_text (name : ColumnName Numeral) : name.text.count '.' = 1 := by
  have noDot (written : Numeral) : written.digits.count '.' = 0 :=
    List.count_eq_zero_of_not_mem (written.not_mem rfl)
  simp [ColumnName.text, noDot]

theorem addPredicate_join (room : parts.joins.length < counts.joins)
    (full : parts.rels.length = counts.rels) (left right : ColumnName Numeral) :
    addPredicate atoi relArr (parts.construction counts mark slice)
        (Predicate.join left right).text = (do
      let after ← parts.storePredicate atoi relArr (.join left right)
      .ok (after.construction counts mark slice)) := by
  have equals : strstr (Predicate.join left right).text ['='] = true := by
    rw [strstr_single, Predicate.text]
    simp
  have dots : subStrOccur (Predicate.join left right).text ['.'] = 2 := by
    rw [subStrOccur_single, Predicate.text, List.count_append, List.count_cons_of_ne (by decide),
      ColumnName.count_text, ColumnName.count_text]
  rw [addPredicate, if_pos equals, dots, if_neg (by decide), if_pos rfl, addJoin]
  simp only [Parts.construction, modifyAt_filled room, filled_of_length full, fillJoinInfo_text,
    Parts.storePredicate, bind_assoc, ok_bind, List.length_append, List.length_singleton]

theorem addFilter_construction (room : parts.filters.length < counts.filters)
    (full : parts.rels.length = counts.rels) (participant : ColumnName Numeral) (op : Op)
    (constant : Numeral) :
    addFilter atoi relArr (parts.construction counts mark slice)
        (Predicate.filter participant op constant).text = (do
      let after ← parts.storePredicate atoi relArr (.filter participant op constant)
      .ok (after.construction counts mark slice)) := by
  rw [addFilter]
  simp only [Parts.construction, modifyAt_filled room, filled_of_length full,
    fillFilterInfo_text, Parts.storePredicate, bind_assoc, ok_bind, List.length_append,
    List.length_singleton]

/-- The operator is found by its character, `=` by the number of dots. -/
theorem addPredicate_filter (state : Construction) (participant : ColumnName Numeral) (op : Op)
    (constant : Numeral) :
    addPredicate atoi relArr state (Predicate.filter participant op constant).text =
      addFilter atoi relArr state (Predicate.filter participant op constant).text := by
  have finds {c : Char} (noDigit : c.isDigit = false) (notDot : c ≠ '.') :
      strstr (Predicate.filter participant op constant).text [c] = true ↔ c = opChar op := by
    rw [strstr_single, Predicate.text, List.mem_append, ColumnName.mem_text_iff noDigit,
      List.mem_cons]
    simp [notDot, constant.not_mem noDigit]
  have dots : subStrOccur (Predicate.filter participant op constant).text ['.'] = 1 := by
    rw [subStrOccur_single, Predicate.text, List.count_append, ColumnName.count_text,
      List.count_cons_of_ne (by cases op <;> decide),
      List.count_eq_zero_of_not_mem (constant.not_mem rfl)]
  rw [addPredicate]
  simp only [finds (show '='.isDigit = false from rfl) (by decide),
    finds (show '>'.isDigit = false from rfl) (by decide),
    finds (show '<'.isDigit = false from rfl) (by decide), dots]
  cases op <;> rfl

def Parts.HasRoom (parts : Parts) (counts : Counts) (predicates : List (Predicate Numeral)) :
    Prop :=
  parts.joins.length + (predicates.filterMap Predicate.asJoin).length ≤ counts.joins ∧
    parts.filters.length + (predicates.filterMap Predicate.asFilter).length ≤ counts.filters

theorem addPredicate_construction {predicate : Predicate Numeral}
    {rest : List (Predicate Numeral)} (room : parts.HasRoom counts (predicate :: rest))
    (full : parts.rels.length = counts.rels) :
    addPredicate atoi relArr (parts.construction counts mark slice) predicate.text = (do
      let after ← parts.storePredicate atoi relArr predicate
      .ok (after.construction counts mark slice)) := by
  cases predicate with
  | join left right =>
      have below : parts.joins.length < counts.joins := by
        have atMost := room.1
        simp only [List.filterMap_cons, Predicate.asJoin, List.length_cons] at atMost
        omega
      exact addPredicate_join atoi relArr below full left right
  | filter participant op constant =>
      have below : parts.filters.length < counts.filters := by
        have atMost := room.2
        simp only [List.filterMap_cons, Predicate.asFilter, List.length_cons] at atMost
        omega
      rw [addPredicate_filter, addFilter_construction atoi relArr below full]

def Parts.openSum (parts : Parts) (counts : Counts) (mark : Nat) (sum : ColumnName Numeral) :
    Construction :=
  { parts.construction counts mark 2 with
    sums := filled .unset counts.sums
      (parts.sums ++ [{ ColRelCells.unset with rel := [number atoi sum.rel.digits] }]) }

theorem addSumRel_construction (room : parts.sums.length < counts.sums)
    (sum : ColumnName Numeral) :
    addSumRel atoi (parts.construction counts mark 2) sum.rel.digits =
      .ok (parts.openSum atoi counts mark sum) := by
  simp only [addSumRel, Parts.construction, modifyAt_filled room, ok_bind, Parts.openSum]
  rfl

theorem addSumCol_openSum (full : parts.rels.length = counts.rels) (sum : ColumnName Numeral) :
    addSumCol atoi relArr (parts.openSum atoi counts mark sum) sum.col.digits = (do
      let after ← parts.storeSum atoi relArr sum
      .ok (after.construction counts mark 2)) := by
  simp only [addSumCol, Parts.openSum, Parts.construction, modifyAt_filled_append,
    filled_of_length full, Parts.storeSum, bind_assoc, ok_bind, List.length_append,
    List.length_singleton]

end Store

end JoinOperator.QueryText
