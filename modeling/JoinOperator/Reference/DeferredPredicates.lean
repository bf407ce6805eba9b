import JoinOperator.Reference.JoinedRelations
import Mathlib.Data.Nat.Choose.Basic

/-! # Predicates that wait

A predicate whose relations are not joined yet is put behind the others. As long as the predicates
are linked, one of those that wait has its turn before all of them have been put back, so the
vector stays within a capacity that depends only on their number.
-/

namespace JoinOperator.Reference

open Foundation QueryText Receiver Executor

/-- The predicates cannot be divided so that the parts are about different relations. -/
def QueryInfo.Linked (query : QueryInfo) : Prop :=
  ∀ left done, query.predicates.Perm (left ++ done) → left ≠ [] → done ≠ [] →
    ∃ pInfo ∈ left, OfPredicates done pInfo.left.binding ∨ OfPredicates done pInfo.right.binding

/-- The predicates that a vector needs room for: those that are there, and those that are put
back while `fresh` of `waiting` predicates have not been seen since the last turn. -/
def roomFor (size fresh waiting : Nat) : Nat := size + (fresh - 1) + (waiting - 1).choose 2

theorem choose_two_succ (waiting : Nat) :
    (waiting + 1).choose 2 = waiting + waiting.choose 2 := by
  rw [Nat.choose_succ_succ', Nat.choose_one_right]

theorem roomFor_turn (size : Nat) {fresh waiting : Nat} (some : 0 < waiting) :
    roomFor size waiting waiting ≤ roomFor size (fresh + 1) (waiting + 1) := by
  rcases Nat.exists_eq_succ_of_ne_zero (Nat.ne_of_gt some) with ⟨others, rfl⟩
  rw [roomFor, roomFor]
  simp only [Nat.succ_eq_add_one, Nat.add_sub_cancel, choose_two_succ]
  omega

theorem roomFor_wait (size : Nat) {fresh waiting : Nat} (some : 0 < fresh) :
    roomFor (size + 1) fresh waiting = roomFor size (fresh + 1) waiting := by
  rw [roomFor, roomFor]
  omega

theorem roomFor_self (size waiting : Nat) :
    roomFor size waiting waiting = size + waiting.choose 2 := by
  cases waiting with
  | zero => rfl
  | succ others =>
      rw [roomFor, Nat.add_sub_cancel, choose_two_succ, Nat.add_assoc]

section Waiting

variable {relArr : List Relationsheep} {query : QueryInfo}

/-- The loop joins the relations of all predicates, unless the vector is moved. -/
theorem addJoins_spec (valid : query.Valid relArr) {done : List PredicateInfo} (capacity size : Nat)
    (left : List PredicateInfo) (joined : Joined) (isJoined : IsJoined relArr query done joined)
    (inside : ∀ pInfo ∈ left, pInfo ∈ query.predicates) :
    match addJoins (relArr.map .ofTable) query capacity size left joined with
    | .ok after => ∃ all, all.Perm (left ++ done) ∧ IsJoined relArr query all after
    | .error fault => fault = .dangling := by
  induction size, left, joined using
    addJoins.induct (relArr.map .ofTable) query capacity generalizing done with
  | case1 size joined =>
      rw [addJoins]
      exact ⟨done, List.Perm.refl _, isJoined⟩
  | case2 size joined pInfo rest fault failed =>
      rcases addJoin_spec valid isJoined (inside pInfo List.mem_cons_self) with
        ⟨next, added, _⟩ | ⟨waits, _⟩
      · cases failed.symm.trans added
      · cases failed.symm.trans waits
  | case3 size joined pInfo rest next added induction =>
      rw [addJoins, added]
      rcases addJoin_spec valid isJoined (inside pInfo List.mem_cons_self) with
        ⟨next', added', nextJoined⟩ | ⟨waits, _⟩
      · cases added.symm.trans added'
        have spec := induction nextJoined fun other member =>
          inside other (List.mem_cons_of_mem _ member)
        dsimp only
        split at spec
        · rcases spec with ⟨all, perm, allJoined⟩
          exact ⟨all, perm.trans List.perm_middle, allJoined⟩
        · exact spec
      · cases added.symm.trans waits
  | case4 size joined pInfo rest waits below induction =>
      rw [addJoins, waits]
      dsimp only
      rw [if_pos below]
      have spec := induction isJoined fun other member =>
        inside other ((List.perm_append_singleton pInfo rest).mem_iff.mp member)
      split at spec
      · rcases spec with ⟨all, perm, allJoined⟩
        exact ⟨all, perm.trans ((List.perm_append_singleton pInfo rest).append_right done), allJoined⟩
      · exact spec
  | case5 size joined pInfo rest waits full =>
      rw [addJoins, waits]
      dsimp only
      rw [if_neg full]

def IsApart (done : List PredicateInfo) (pInfo : PredicateInfo) : Prop :=
  ¬ OfPredicates done pInfo.left.binding ∧ ¬ OfPredicates done pInfo.right.binding

/-- The predicates that have not had their turn: those that have not been seen since a relation was
joined, and those that were put back since. -/
structure Waiting (query : QueryInfo) (done fresh old : List PredicateInfo) : Prop where
  perm : query.predicates.Perm (fresh ++ old ++ done)
  apart : ∀ pInfo ∈ old, IsApart done pInfo

namespace Waiting

variable {done fresh old rest : List PredicateInfo} {pInfo : PredicateInfo}

theorem mem (waiting : Waiting query done (pInfo :: fresh) old) : pInfo ∈ query.predicates :=
  waiting.perm.mem_iff.mpr List.mem_cons_self

/-- One of the predicates that wait is linked to a joined relation, so it has not been seen. -/
theorem fresh_ne_nil (waiting : Waiting query done fresh old) (linked : query.Linked)
    (some : done ≠ []) (more : fresh ++ old ≠ []) : fresh ≠ [] := by
  intro none
  subst none
  rcases linked old done waiting.perm more some with ⟨pInfo, member, isLeft | isRight⟩
  · exact (waiting.apart pInfo member).1 isLeft
  · exact (waiting.apart pInfo member).2 isRight

theorem exists_fresh (waiting : Waiting query done fresh old) (linked : query.Linked)
    (some : done ≠ []) (isLeft : pInfo :: rest = fresh ++ old) :
    ∃ others, fresh = pInfo :: others ∧ rest = others ++ old := by
  have more := waiting.fresh_ne_nil linked some (isLeft ▸ List.cons_ne_nil _ _)
  rcases List.exists_cons_of_ne_nil more with ⟨first, others, rfl⟩
  rcases List.cons.inj isLeft with ⟨rfl, isRest⟩
  exact ⟨others, rfl, isRest⟩

theorem join (waiting : Waiting query done (pInfo :: fresh) old) :
    Waiting query (pInfo :: done) (fresh ++ old) [] where
  perm := by
    rw [List.append_nil]
    exact waiting.perm.trans List.perm_middle.symm
  apart := List.forall_mem_nil _

theorem putBack (waiting : Waiting query done (pInfo :: fresh) old) (apart : IsApart done pInfo) :
    Waiting query done fresh (old ++ [pInfo]) where
  perm := by
    rw [← List.append_assoc]
    exact waiting.perm.trans
      ((List.perm_append_singleton pInfo (fresh ++ old)).symm.append_right done)
  apart := List.forall_mem_append.mpr ⟨waiting.apart, List.forall_mem_singleton.mpr apart⟩

end Waiting

/-- The vector is not moved when it has room for the predicates that are put back. -/
theorem addJoins_ok (valid : query.Valid relArr) (linked : query.Linked)
    {done fresh old : List PredicateInfo} (capacity size : Nat) (left : List PredicateInfo)
    (joined : Joined) (isJoined : IsJoined relArr query done joined) (some : done ≠ [])
    (isLeft : left = fresh ++ old) (waiting : Waiting query done fresh old)
    (room : roomFor size fresh.length left.length ≤ capacity) :
    ∃ after, addJoins (relArr.map .ofTable) query capacity size left joined = .ok after := by
  induction size, left, joined using
    addJoins.induct (relArr.map .ofTable) query capacity generalizing done fresh old with
  | case1 size joined => exact ⟨joined, by rw [addJoins]⟩
  | case2 size joined pInfo rest fault failed =>
      rcases waiting.exists_fresh linked some isLeft with ⟨others, rfl, rfl⟩
      rcases addJoin_spec valid isJoined waiting.mem with ⟨next, added, _⟩ | ⟨waits, _⟩
      · cases failed.symm.trans added
      · cases failed.symm.trans waits
  | case3 size joined pInfo rest next added induction =>
      rcases waiting.exists_fresh linked some isLeft with ⟨others, rfl, rfl⟩
      rcases addJoin_spec valid isJoined waiting.mem with ⟨next', added', nextJoined⟩ | ⟨waits, _⟩
      · cases added.symm.trans added'
        rw [addJoins, added]
        dsimp only
        rcases Nat.eq_zero_or_pos (others ++ old).length with none | more
        · exact ⟨next, by rw [List.length_eq_zero_iff.mp none, addJoins]⟩
        · exact induction nextJoined (List.cons_ne_nil _ _) (List.append_nil _).symm waiting.join
            ((roomFor_turn size more).trans room)
      · cases added.symm.trans waits
  | case4 size joined pInfo rest waits below induction =>
      rcases waiting.exists_fresh linked some isLeft with ⟨others, rfl, rfl⟩
      rcases addJoin_spec valid isJoined waiting.mem with ⟨next, added, _⟩ | ⟨_, apart⟩
      · cases waits.symm.trans added
      · have after := waiting.putBack apart
        have othersFresh := after.fresh_ne_nil linked some (by simp)
        rw [addJoins, waits]
        dsimp only
        rw [if_pos below]
        apply induction isJoined some (List.append_assoc _ _ _) after
        rw [roomFor_wait size (List.length_pos_iff.mpr othersFresh), List.length_append,
          List.length_singleton]
        exact room
  | case5 size joined pInfo rest waits full =>
      rcases waiting.exists_fresh linked some isLeft with ⟨others, rfl, rfl⟩
      rcases addJoin_spec valid isJoined waiting.mem with ⟨next, added, _⟩ | ⟨_, apart⟩
      · cases waits.symm.trans added
      · have othersFresh := (waiting.putBack apart).fresh_ne_nil linked some (by simp)
        have positive := List.length_pos_iff.mpr othersFresh
        rw [roomFor, List.length_cons] at room
        omega

end Waiting

end JoinOperator.Reference
