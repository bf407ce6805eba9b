import JoinOperator.Executor.Tuples

/-! # Filters and join predicates as conditions

What the loops over rows collect, in terms of the conditions on the tuples.
-/

namespace JoinOperator.Executor

open Foundation RadixJoin

def rowsOf (relArr : List Relationsheep) (rels : List Nat) (rel : Nat) : Nat :=
  ((rels[rel]?.bind (relArr[·]?)).map Relationsheep.rows).getD 0

structure IsParticipant (relArr : List Relationsheep) (rels : List Nat)
    (participant : ColRel) : Prop where
  column : ∃ real relation, rels[participant.rel]? = some real ∧ relArr[real]? = some relation ∧
    relation.pointToCols[participant.numCol]? = some participant.col ∧
    participant.rows = relation.rows

structure IsJoinParticipant (relArr : List Relationsheep) (rels : List Nat)
    (participant : ColRel) : Prop extends IsParticipant relArr rels participant where
  realRel : rels[participant.rel]? = some participant.realRel
  realCol : participant.realCol = participant.numCol

structure IsJoin (relArr : List Relationsheep) (rels : List Nat) (pred : Join) : Prop where
  first : IsJoinParticipant relArr rels pred.participant1
  second : IsJoinParticipant relArr rels pred.participant2

def valueOf (participant : ColRel) (rowIds : Nat → Nat) : Nat :=
  participant.col.getD (rowIds participant.rel) 0

def filterCondition (pred : Filter) : Condition Nat where
  attrs := [pred.participant.rel]
  holds rowIds := applyFilter (valueOf pred.participant rowIds) pred.op pred.value
  nonempty := List.cons_ne_nil _ _
  onAttrs := by
    intro f g same
    rw [valueOf, valueOf, same _ List.mem_cons_self]

def joinCondition (pred : Join) : Condition Nat where
  attrs := [pred.participant1.rel, pred.participant2.rel]
  holds rowIds := valueOf pred.participant1 rowIds = valueOf pred.participant2 rowIds
  nonempty := List.cons_ne_nil _ _
  onAttrs := by
    intro f g same
    rw [valueOf, valueOf, valueOf, valueOf, same _ List.mem_cons_self,
      same _ (List.mem_cons_of_mem _ List.mem_cons_self)]

section Participants

variable {relArr : List Relationsheep} {rels : List Nat} {participant : ColRel}

theorem IsParticipant.rows (isParticipant : IsParticipant relArr rels participant) :
    rowsOf relArr rels participant.rel = participant.rows := by
  rcases isParticipant.column with ⟨real, relation, isReal, isRelation, _, rows⟩
  rw [rowsOf, isReal, Option.bind_some, isRelation, rows]
  rfl

theorem IsParticipant.length (isParticipant : IsParticipant relArr rels participant) :
    participant.col.length = participant.rows := by
  rcases isParticipant.column with ⟨real, relation, _, _, isColumn, rows⟩
  rw [rows]
  exact relation.rectangular _ (List.mem_of_getElem? isColumn)

theorem IsParticipant.get (isParticipant : IsParticipant relArr rels participant)
    {rowId : Nat} (below : rowId < rowsOf relArr rels participant.rel) :
    participant.col[rowId]? = some (participant.col.getD rowId 0) := by
  rw [isParticipant.rows, ← isParticipant.length] at below
  rw [List.getElem?_eq_getElem below, List.getD_eq_getElem _ _ below]

end Participants

theorem collect_eq {capacity limit : Nat} {test : Nat → Option Bool} {passes : Nat → Bool}
    (tests : ∀ i < limit, test i = some (passes i)) :
    collect capacity limit test =
      if ((List.range limit).filter passes).length ≤ capacity then
        .ok ((List.range limit).filter passes)
      else .error .scratch := by
  rw [collect]
  induction limit with
  | zero => rfl
  | succ limit induction =>
      rw [List.range_succ, List.foldlM_append,
        induction fun i below => tests i (Nat.lt_succ_of_lt below), List.filter_append]
      simp only [List.foldlM_cons, List.foldlM_nil, tests limit (Nat.lt_succ_self limit), orFault,
        ok_bind]
      by_cases passed : passes limit = true
      · rw [List.filter_cons_of_pos passed, List.filter_nil, List.length_append,
          List.length_singleton]
        by_cases room : ((List.range limit).filter passes).length < capacity
        · rw [if_pos (Nat.le_of_lt room), if_pos (Nat.succ_le_of_lt room)]
          simp [passed, pushScratch, if_pos room]
        · rw [if_neg (show ¬ _ + 1 ≤ capacity from room)]
          split
          · simp [pushScratch, if_neg room]
          · rfl
      · rw [List.filter_cons_of_neg passed, List.filter_nil, List.append_nil]
        split
        · simp
        · rfl

theorem length_filter_range_le (limit : Nat) (passes : Nat → Bool) :
    ((List.range limit).filter passes).length ≤ limit :=
  Nat.le_trans (List.length_filter_le _ _) (Nat.le_of_eq List.length_range)

end JoinOperator.Executor
