import Mathlib.Data.List.Basic
import Mathlib.Data.List.Flatten
import Mathlib.Data.List.Range

/-! # Slices of a list -/

namespace JoinOperator.Foundation

variable {Value : Type*}

theorem filter_eq_slice (keep : Value → Bool) (list : List Value) (start stop : Nat)
    (kept : ∀ position value, list[position]? = some value →
      (keep value = true ↔ start ≤ position ∧ position < stop)) :
    list.filter keep = (list.drop start).take (stop - start) := by
  induction list generalizing start stop with
  | nil => simp
  | cons value list induction =>
      have first := kept 0 value rfl
      cases start with
      | succ start =>
          have dropped : ¬ keep value = true := fun keeps => by
            have := (first.mp keeps).1
            omega
          rw [List.filter_cons_of_neg dropped, List.drop_succ_cons,
            induction start (stop - 1)]
          · congr 1
            omega
          · intro position other get
            rw [kept (position + 1) other get]
            omega
      | zero =>
          cases stop with
          | zero =>
              have dropped : ¬ keep value = true := fun keeps => by
                have := (first.mp keeps).2
                omega
              rw [List.filter_cons_of_neg dropped, induction 0 0]
              · simp
              · intro position other get
                rw [kept (position + 1) other get]
                omega
          | succ stop =>
              have keeps : keep value = true := first.mpr ⟨Nat.le_refl 0, Nat.succ_pos stop⟩
              rw [List.filter_cons_of_pos keeps, induction 0 stop]
              · simp
              · intro position other get
                rw [kept (position + 1) other get]
                omega

theorem flatMap_slices (list : List Value) (bound : Nat → Nat) (count : Nat)
    (starts : bound 0 = 0) (increasing : ∀ which < count, bound which ≤ bound (which + 1)) :
    ((List.range count).flatMap fun which =>
        (list.drop (bound which)).take (bound (which + 1) - bound which)) =
      list.take (bound count) := by
  induction count with
  | zero =>
      rw [starts]
      rfl
  | succ count induction =>
      have split : bound (count + 1) = bound count + (bound (count + 1) - bound count) := by
        have := increasing count (Nat.lt_succ_self count)
        omega
      rw [List.range_succ, List.flatMap_append, List.flatMap_singleton,
        induction fun which below => increasing which (Nat.lt_succ_of_lt below), split,
        List.take_add, Nat.add_sub_cancel_left]

theorem flatMap_range_grow {count which : Nat} (below : which < count)
    {before after : Nat → List Value} {extra : List Value}
    (others : ∀ other < count, other ≠ which → after other = before other)
    (grown : after which = before which ++ extra) :
    ((List.range count).flatMap after).Perm ((List.range count).flatMap before ++ extra) := by
  induction count with
  | zero => cases below
  | succ count induction =>
      rw [List.range_succ, List.flatMap_append, List.flatMap_append, List.flatMap_singleton,
        List.flatMap_singleton]
      by_cases last : which = count
      · subst last
        have same : (List.range which).flatMap after = (List.range which).flatMap before := by
          apply List.flatMap_congr
          intro other member
          have less := List.mem_range.mp member
          exact others other (Nat.lt_succ_of_lt less) (Nat.ne_of_lt less)
        rw [same, grown, List.append_assoc]
      · rw [others count (Nat.lt_succ_self count) (Ne.symm last)]
        have earlier := induction (by omega) fun other less =>
          others other (Nat.lt_succ_of_lt less)
        refine (earlier.append_right _).trans ?_
        rw [List.append_assoc, List.append_assoc]
        exact (List.perm_append_comm).append_left _

end JoinOperator.Foundation
