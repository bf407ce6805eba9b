import JoinOperator.QueryText.RoundTrip

/-! # Numbers as they are written

A number may be written with leading zeros. What is stored for a text depends on the values of
its numerals only.
-/

namespace JoinOperator.QueryText

open Foundation

def Numeral.value (written : Numeral) : Nat := numeralValue written.digits

/-- The query that a text is about. -/
def AbstractQuery.meant (written : AbstractQuery Numeral) : AbstractQuery Nat :=
  written.map Numeral.value

section Congruence

variable {atoi : List Char → Int} {relArr : List Relationsheep}

theorem ReadsNumerals.number_value (reads : ReadsNumerals atoi) {written : Numeral}
    (fits : written.value < 2 ^ 31) :
    QueryText.number atoi (Numeral.ofNat written.value).digits =
      QueryText.number atoi written.digits := by
  rw [reads.number_ofNat fits, reads.number fits]
  rfl

theorem fillParticipant_value (reads : ReadsNumerals atoi) {rels : List (List Nat)} (isJoin : Bool)
    {name : ColumnName Numeral} (fits : name.rel.value < 2 ^ 31 ∧ name.col.value < 2 ^ 31) :
    fillParticipant atoi relArr rels isJoin ((name.map Numeral.value).map Numeral.ofNat) =
      fillParticipant atoi relArr rels isJoin name := by
  simp only [fillParticipant, ColumnName.map, fillRel, fillCol, reads.number_value fits.1,
    reads.number_value fits.2]

theorem storePredicate_value (reads : ReadsNumerals atoi) {rels : List Nat}
    {predicate : Predicate Numeral}
    (valid : (predicate.map Numeral.value).Valid relArr rels) (parts : Parts) :
    parts.storePredicate atoi relArr ((predicate.map Numeral.value).map Numeral.ofNat) =
      parts.storePredicate atoi relArr predicate := by
  cases predicate with
  | join left right =>
      simp only [Predicate.map, Parts.storePredicate, fillParticipant_value reads _ valid.1.fits,
        fillParticipant_value reads _ valid.2.fits]
  | filter participant op constant =>
      simp only [Predicate.map, Parts.storePredicate, fillParticipant_value reads _ valid.1.fits,
        reads.number_value valid.2]

theorem storeSum_value (reads : ReadsNumerals atoi) {sum : ColumnName Numeral}
    (fits : sum.rel.value < 2 ^ 31 ∧ sum.col.value < 2 ^ 31) (parts : Parts) :
    parts.storeSum atoi relArr ((sum.map Numeral.value).map Numeral.ofNat) =
      parts.storeSum atoi relArr sum := by
  simp only [Parts.storeSum, ColumnName.map, fillSum, reads.number_value fits.1,
    reads.number_value fits.2]

theorem foldlM_map_congr {α β γ : Type} {store : γ → β → Except Fault γ}
    {store' : γ → α → Except Fault γ} {rewritten : α → β} {items : List α}
    (same : ∀ item ∈ items, ∀ state, store state (rewritten item) = store' state item)
    (state : γ) : (items.map rewritten).foldlM store state = items.foldlM store' state := by
  induction items generalizing state with
  | nil => rfl
  | cons item items induction =>
      rw [List.map_cons, List.foldlM_cons, List.foldlM_cons, same item List.mem_cons_self]
      congr 1
      funext next
      exact induction (fun other member => same other (List.mem_cons_of_mem item member)) next

theorem AbstractQuery.stored_meant (reads : ReadsNumerals atoi) {written : AbstractQuery Numeral}
    (valid : written.meant.Valid relArr) :
    (written.meant.map Numeral.ofNat).stored atoi relArr = written.stored atoi relArr := by
  have rels (parts : Parts) :
      (written.meant.map Numeral.ofNat).rels.foldl (Parts.storeRel atoi) parts =
        written.rels.foldl (Parts.storeRel atoi) parts := by
    rw [storeRels_eq, storeRels_eq]
    simp only [meant, map, List.map_map]
    congr 2
    apply List.map_congr_left
    intro rel member
    rw [Function.comp_apply, Function.comp_apply,
      reads.number_value (valid.rels _ (List.mem_map_of_mem member)).1]
  have predicates (parts : Parts) :
      (written.meant.map Numeral.ofNat).predicates.foldlM (Parts.storePredicate atoi relArr) parts =
        written.predicates.foldlM (Parts.storePredicate atoi relArr) parts := by
    simp only [meant, map, List.map_map]
    apply foldlM_map_congr
    intro predicate member state
    exact storePredicate_value reads (valid.predicates _ (List.mem_map_of_mem member)) state
  have sums (parts : Parts) :
      (written.meant.map Numeral.ofNat).sums.foldlM (Parts.storeSum atoi relArr) parts =
        written.sums.foldlM (Parts.storeSum atoi relArr) parts := by
    simp only [meant, map, List.map_map]
    apply foldlM_map_congr
    intro sum member state
    exact storeSum_value reads (valid.sums _ (List.mem_map_of_mem member)).fits state
  rw [stored, stored, rels, predicates]
  congr 1
  funext parts
  exact sums parts

end Congruence

theorem AbstractQuery.stored_eq {atoi : List Char → Int} (reads : ReadsNumerals atoi)
    {relArr : List Relationsheep} {written : AbstractQuery Numeral}
    (valid : written.meant.Valid relArr) : ∃ filters joins sums,
      written.stored atoi relArr =
        .ok ⟨written.meant.rels.map fun real => [real], filters, joins, sums⟩ ∧
      List.Forall₂ (StoredFilter relArr written.meant.rels) written.meant.filters filters ∧
      List.Forall₂ (StoredJoin relArr written.meant.rels) written.meant.joins joins ∧
      List.Forall₂ (ColumnName.Stored relArr written.meant.rels false) written.meant.sums sums := by
  rw [← stored_meant reads valid]
  exact stored_ofNat reads valid

/-- A line is constructed as the query that it is about. -/
theorem constructQuery_written {atoi : List Char → Int} (reads : ReadsNumerals atoi)
    {relArr : List Relationsheep} (loaded : Loaded relArr) {written : AbstractQuery Numeral}
    (valid : written.meant.Valid relArr) :
    ∃ constructed, constructQuery atoi relArr written.text written.counts = .ok constructed ∧
      Stores relArr written.meant constructed := by
  rcases AbstractQuery.stored_eq reads valid with
    ⟨filters, joins, sums, stored, areFilters, areJoins, areSums⟩
  exact constructQuery_of_stored loaded (AbstractQuery.counts_map _ _) valid stored areFilters
    areJoins areSums

theorem AbstractQuery.meant_ofNat (query : AbstractQuery Nat) :
    (query.map Numeral.ofNat).meant = query := by
  have value (number : Nat) : (Numeral.ofNat number).value = number := numeralValue_numeral number
  have values : Numeral.value ∘ Numeral.ofNat = id := funext value
  have columns : ColumnName.map Numeral.value ∘ ColumnName.map Numeral.ofNat = id := by
    funext name
    simp only [Function.comp_apply, ColumnName.map, value, id]
  have predicates : Predicate.map Numeral.value ∘ Predicate.map Numeral.ofNat = id := by
    funext predicate
    cases predicate with
    | join left right => simp only [Function.comp_apply, Predicate.map, ColumnName.map, value, id]
    | filter participant op constant =>
        simp only [Function.comp_apply, Predicate.map, ColumnName.map, value, id]
  simp only [meant, map, List.map_map, values, columns, predicates, List.map_id]

end JoinOperator.QueryText
