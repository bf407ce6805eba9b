import JoinOperator.Foundation.Loop
import Mathlib.Data.List.Forall2

/-! # Outcomes of steps that can fail -/

namespace JoinOperator.Foundation

universe u

variable {Error : Type*} {α β γ : Type u}

theorem bind_eq_ok {first : Except Error α} {next : α → Except Error β} {result : β} :
    first >>= next = .ok result ↔ ∃ value, first = .ok value ∧ next value = .ok result := by
  cases first with
  | error fault =>
      rw [error_bind]
      constructor
      · intro ran
        cases ran
      · intro ran
        rcases ran with ⟨value, ran, _⟩
        cases ran
  | ok value =>
      rw [ok_bind]
      constructor
      · intro ran
        exact ⟨value, rfl, ran⟩
      · intro ran
        rcases ran with ⟨other, same, ran⟩
        cases same
        exact ran

theorem mapM_eq_ok {body : α → Except Error β} {items : List α} {values : List β} :
    items.mapM body = .ok values ↔
      List.Forall₂ (fun item value => body item = .ok value) items values := by
  induction items generalizing values with
  | nil =>
      rw [List.mapM_nil, List.forall₂_nil_left_iff]
      exact ⟨fun same => (Except.ok.inj same).symm, fun empty => congrArg Except.ok empty.symm⟩
  | cons item items induction =>
      rw [List.mapM_cons, bind_eq_ok, List.forall₂_cons_left_iff]
      constructor
      · intro ran
        rcases ran with ⟨value, first, ran⟩
        rcases bind_eq_ok.mp ran with ⟨others, rest, same⟩
        exact ⟨value, others, first, induction.mp rest, (Except.ok.inj same).symm⟩
      · intro related
        rcases related with ⟨value, others, first, rest, same⟩
        rw [same]
        exact ⟨value, first, bind_eq_ok.mpr ⟨others, induction.mpr rest, rfl⟩⟩

theorem mem_of_mapM_ok {body : α → Except Error β} {items : List α} {values : List β}
    (ran : items.mapM body = .ok values) {value : β} (member : value ∈ values) :
    ∃ item ∈ items, body item = .ok value := by
  have related := mapM_eq_ok.mp ran
  induction related with
  | nil => cases member
  | @cons item first items others returned rest induction =>
      rcases List.mem_cons.mp member with rfl | inOthers
      · exact ⟨item, List.mem_cons_self, returned⟩
      · rcases induction (mapM_eq_ok.mpr rest) inOthers with ⟨found, isItem, returned⟩
        exact ⟨found, List.mem_cons_of_mem _ isItem, returned⟩

theorem mapM_ok_map {body : α → Except Error β} (value : α → β) {items : List α}
    (returns : ∀ item ∈ items, body item = .ok (value item)) :
    items.mapM body = .ok (items.map value) := by
  rw [mapM_eq_ok, List.forall₂_map_right_iff, List.forall₂_same]
  exact returns

theorem filterAuxM_ok {Item : Type} {body : Item → Except Error Bool} (passes : Item → Bool)
    {items : List Item} (tests : ∀ item ∈ items, body item = .ok (passes item))
    (kept : List Item) :
    items.filterAuxM body kept = .ok ((items.filter passes).reverse ++ kept) := by
  induction items generalizing kept with
  | nil => rfl
  | cons item items induction =>
      have rest := induction fun other member => tests other (List.mem_cons_of_mem _ member)
      rw [List.filterAuxM, tests item List.mem_cons_self, ok_bind, rest]
      cases passed : passes item with
      | false => rw [List.filter_cons_of_neg (by rw [passed]; exact Bool.false_ne_true), cond_false]
      | true =>
          rw [List.filter_cons_of_pos passed, List.reverse_cons, List.append_assoc, cond_true]
          rfl

theorem filterM_ok {Item : Type} {body : Item → Except Error Bool} (passes : Item → Bool)
    {items : List Item} (tests : ∀ item ∈ items, body item = .ok (passes item)) :
    items.filterM body = .ok (items.filter passes) := by
  rw [List.filterM, filterAuxM_ok passes tests, ok_bind, List.append_nil, List.reverse_reverse]
  rfl

end JoinOperator.Foundation
