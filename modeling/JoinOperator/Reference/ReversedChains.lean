import JoinOperator.Reference.Agreement

/-! # Chains in reverse order

A query that names the joins of a chain from its end, but for the first, needs all the room that
any query of its length may need: whenever a relation is joined, only the last predicate can have
its turn, and all others are put back before it.
-/

namespace JoinOperator.Reference

open Foundation QueryText Receiver Executor

def chainPredicate (i : Nat) : PredicateInfo := ⟨⟨0, i, 0⟩, ⟨0, i + 1, 0⟩⟩

/-- The joins of a chain behind the join `joined`, the last first. -/
def laterPredicates (joined : Nat) : Nat → List PredicateInfo
  | 0 => []
  | waiting + 1 => chainPredicate (joined + waiting + 1) :: laterPredicates joined waiting

def reversedChain (waiting : Nat) : QueryInfo where
  relationIds := List.replicate (waiting + 2) 0
  predicates := chainPredicate 0 :: laterPredicates 0 waiting
  filters := []
  selections := [⟨0, 0, 0⟩]

section Predicates

variable {joined waiting : Nat} {pInfo : PredicateInfo}

theorem length_laterPredicates : (laterPredicates joined waiting).length = waiting := by
  induction waiting with
  | zero => rfl
  | succ waiting induction => rw [laterPredicates, List.length_cons, induction]

theorem laterPredicates_succ : laterPredicates joined (waiting + 1) =
    laterPredicates (joined + 1) waiting ++ [chainPredicate (joined + 1)] := by
  induction waiting with
  | zero => rfl
  | succ waiting induction =>
      rw [laterPredicates, induction, laterPredicates, List.cons_append,
        Nat.add_right_comm joined 1]
      rfl

theorem mem_laterPredicates : pInfo ∈ laterPredicates joined waiting ↔
    ∃ i, joined < i ∧ i ≤ joined + waiting ∧ pInfo = chainPredicate i := by
  induction waiting with
  | zero =>
      refine iff_of_false List.not_mem_nil fun member => ?_
      rcases member with ⟨i, above, below, _⟩
      omega
  | succ waiting induction =>
      rw [laterPredicates, List.mem_cons, induction]
      constructor
      · intro member
        rcases member with same | ⟨i, above, below, same⟩
        · exact ⟨_, by omega, Nat.le_refl _, same⟩
        · exact ⟨i, above, by omega, same⟩
      · intro member
        rcases member with ⟨i, above, below, same⟩
        rcases Nat.lt_or_eq_of_le below with less | last
        · exact .inr ⟨i, above, by omega, same⟩
        · exact .inl (last ▸ same)

theorem mem_predicates : pInfo ∈ (reversedChain waiting).predicates ↔
    ∃ i ≤ waiting, pInfo = chainPredicate i := by
  rw [reversedChain, List.mem_cons, mem_laterPredicates]
  constructor
  · intro member
    rcases member with same | ⟨i, _, below, same⟩
    · exact ⟨0, Nat.zero_le _, same⟩
    · exact ⟨i, by omega, same⟩
  · intro member
    rcases member with ⟨i, below, same⟩
    rcases Nat.eq_zero_or_pos i with rfl | positive
    · exact .inl same
    · exact .inr ⟨i, positive, by omega, same⟩

/-- Joins of the chain that are next to each other are about one relation, so neither can be among
those that are left while the other is done. -/
theorem reversedChain_linked : (reversedChain waiting).Linked := by
  intro left done perm someLeft someDone
  by_contra apart
  have isApart {i : Nat} (member : chainPredicate i ∈ left) :
      ¬ OfPredicates done i ∧ ¬ OfPredicates done (i + 1) := by
    constructor
    · exact fun ofDone => apart ⟨_, member, .inl ofDone⟩
    · exact fun ofDone => apart ⟨_, member, .inr ofDone⟩
  have divided {i : Nat} (below : i ≤ waiting) : chainPredicate i ∈ left ∨ chainPredicate i ∈ done :=
    List.mem_append.mp (perm.mem_iff.mp (mem_predicates.mpr ⟨i, below, rfl⟩))
  have next {i : Nat} (below : i + 1 ≤ waiting) :
      chainPredicate (i + 1) ∈ done ↔ chainPredicate i ∈ done := by
    constructor
    · intro isDone
      apply (divided (Nat.le_of_succ_le below)).resolve_left
      exact fun isLeft => (isApart isLeft).2 ⟨_, isDone, .inl rfl⟩
    · intro isDone
      apply (divided below).resolve_left
      exact fun isLeft => (isApart isLeft).1 ⟨_, isDone, .inr rfl⟩
  have same {i : Nat} (below : i ≤ waiting) : chainPredicate i ∈ done ↔ chainPredicate 0 ∈ done := by
    induction i with
    | zero => rfl
    | succ i induction => rw [next below, induction (Nat.le_of_succ_le below)]
  rcases List.exists_mem_of_ne_nil _ someDone with ⟨first, isDone⟩
  rcases List.exists_mem_of_ne_nil _ someLeft with ⟨last, isLeft⟩
  rcases mem_predicates.mp (perm.mem_iff.mpr (List.mem_append_right _ isDone)) with ⟨i, iBelow, rfl⟩
  rcases mem_predicates.mp (perm.mem_iff.mpr (List.mem_append_left _ isLeft)) with ⟨j, jBelow, rfl⟩
  have lastDone := (same jBelow).mpr ((same iBelow).mp isDone)
  exact (isApart isLeft).1 ⟨_, lastDone, .inl rfl⟩

theorem reversedChain_joins : (reversedChain waiting).Joins where
  linked := reversedChain_linked
  starts := ⟨_, _, rfl, Nat.zero_ne_one⟩
  all := by
    intro binding below
    rw [reversedChain, List.length_replicate] at below
    cases binding with
    | zero => exact ⟨_, mem_predicates.mpr ⟨0, Nat.zero_le _, rfl⟩, .inl rfl⟩
    | succ i => exact ⟨_, mem_predicates.mpr ⟨i, by omega, rfl⟩, .inr rfl⟩

theorem length_predicates : (reversedChain waiting).predicates.length = waiting + 1 := by
  rw [reversedChain, List.length_cons, length_laterPredicates]

theorem reversedChain_enoughCapacity :
    (reversedChain waiting).enoughCapacity = waiting + 1 + waiting.choose 2 := by
  rw [QueryInfo.enoughCapacity, length_predicates, Nat.add_sub_cancel]

theorem names_first {relArr : List Relationsheep} {relation : Relationsheep}
    (isRelation : relArr[0]? = some relation) (columns : 0 < relation.cols) {binding : Nat}
    (below : binding < waiting + 2) :
    SelectInfo.Names relArr (reversedChain waiting).relationIds ⟨0, binding, 0⟩ where
  column := ⟨relation, _, List.getElem?_replicate_of_lt below, isRelation,
    List.getElem?_eq_getElem columns⟩

end Predicates

section Rounds

variable {relArr : List Relationsheep} {query : QueryInfo} {done : List PredicateInfo}
  {joined : Joined} {capacity : Nat}

theorem addJoins_putBack {relations : List Relation} {later rest : List PredicateInfo} {size : Nat}
    (apart : ∀ pInfo ∈ later, addJoin relations query joined pInfo = .ok none)
    (fits : size ≤ capacity) :
    addJoins relations query capacity size (later ++ rest) joined =
      if size + later.length ≤ capacity then
        addJoins relations query capacity (size + later.length) (rest ++ later) joined
      else .error .dangling := by
  induction later generalizing size rest with
  | nil => rw [List.length_nil, Nat.add_zero, if_pos fits, List.nil_append, List.append_nil]
  | cons pInfo later induction =>
      rcases List.forall_mem_cons.mp apart with ⟨waits, apart⟩
      rw [List.cons_append, addJoins, waits]
      dsimp only
      rw [List.length_cons, Nat.add_comm later.length, ← Nat.add_assoc]
      by_cases below : size < capacity
      · rw [if_pos below, List.append_assoc, induction apart below, List.append_assoc,
          List.singleton_append]
      · rw [if_neg below, if_neg (by omega)]

theorem addJoin_apart {relations : List Relation} (isJoined : IsJoined relArr query done joined)
    {pInfo : PredicateInfo} (apart : IsApart done pInfo) :
    addJoin relations query joined pInfo = .ok none := by
  have notLeft := mt (isJoined.used _).mp apart.1
  have notRight := mt (isJoined.used _).mp apart.2
  rw [addJoin, analyzeInputOfJoin, if_neg notLeft, if_neg notRight]

/-- After the joins up to `last`, a round puts back all predicates but the next of the chain. -/
theorem addJoins_laterPredicates {total : Nat} (valid : (reversedChain total).Valid relArr)
    {last waiting size : Nat} (isJoined : IsJoined relArr (reversedChain total) done joined)
    (isDone : ∀ binding, OfPredicates done binding ↔ binding ≤ last + 1)
    (all : last + waiting = total) (fits : size ≤ capacity) :
    (∃ after, addJoins (relArr.map .ofTable) (reversedChain total) capacity size
        (laterPredicates last waiting) joined = .ok after) ↔
      size + waiting.choose 2 ≤ capacity := by
  induction waiting generalizing last size done joined with
  | zero => exact iff_of_true ⟨joined, by rw [laterPredicates, addJoins]⟩ fits
  | succ waiting induction =>
      have apart : ∀ pInfo ∈ laterPredicates (last + 1) waiting,
          addJoin (relArr.map .ofTable) (reversedChain total) joined pInfo = .ok none := by
        intro pInfo member
        rcases mem_laterPredicates.mp member with ⟨i, above, _, rfl⟩
        apply addJoin_apart isJoined
        rw [IsApart, isDone, isDone]
        exact ⟨fun below => absurd (Nat.lt_of_lt_of_le above below) (Nat.lt_irrefl _),
          fun below => absurd (Nat.lt_of_lt_of_le above (Nat.le_of_succ_le below))
            (Nat.lt_irrefl _)⟩
      have member : chainPredicate (last + 1) ∈ (reversedChain total).predicates :=
        mem_predicates.mpr ⟨_, by omega, rfl⟩
      rw [laterPredicates_succ, addJoins_putBack apart fits, length_laterPredicates,
        choose_two_succ, ← Nat.add_assoc]
      by_cases room : size + waiting ≤ capacity
      · rw [if_pos room, List.singleton_append, addJoins]
        rcases addJoin_spec valid isJoined member with
          ⟨next, added, nextJoined⟩ | ⟨_, notLeft, _⟩
        · rw [added]
          dsimp only
          apply induction nextJoined _ (by omega) room
          intro binding
          rw [OfPredicates, List.exists_mem_cons_iff, ← OfPredicates, isDone]
          simp only [chainPredicate]
          omega
        · exact absurd ((isDone _).mpr (Nat.le_refl _)) notLeft
      · rw [if_neg room]
        refine iff_of_false (fun ran => ?_) (by omega)
        rcases ran with ⟨after, same⟩
        cases same

end Rounds

section Joins

variable {relArr : List Relationsheep}

theorem reversedChain_valid {relation : Relationsheep} (isRelation : relArr[0]? = some relation)
    (columns : 0 < relation.cols) (waiting : Nat) : (reversedChain waiting).Valid relArr where
  predicates := by
    intro pInfo member
    rcases mem_predicates.mp member with ⟨i, below, rfl⟩
    exact ⟨names_first isRelation columns (by omega), names_first isRelation columns (by omega)⟩
  filters := List.forall_mem_nil _
  selections := List.forall_mem_singleton.mpr
    (names_first isRelation columns (Nat.succ_pos (waiting + 1)))

/-- The room that is enough for every query is needed for a chain in reverse order: with less
capacity the operators are left with references to predicates that have been moved. -/
theorem join_reversedChain {relation : Relationsheep} (isRelation : relArr[0]? = some relation)
    (columns : 0 < relation.cols) (multimap : Multimap) {waiting capacity : Nat}
    (whole : (reversedChain waiting).predicates.length ≤ capacity) :
    if waiting + 1 + waiting.choose 2 ≤ capacity then
      ∃ line, join multimap (relArr.map .ofTable) capacity (reversedChain waiting) = .ok line
    else join multimap (relArr.map .ofTable) capacity (reversedChain waiting) = .error .dangling := by
  have valid := reversedChain_valid isRelation columns waiting
  have spec := join_spec valid reversedChain_joins multimap capacity
  rw [reversedChain_enoughCapacity] at spec
  have onlyJoins : ¬ (reversedChain waiting).HasSelfJoins := by
    rw [QueryInfo.HasSelfJoins, length_predicates, reversedChain, List.length_replicate]
    omega
  rw [length_predicates] at whole
  split
  · next enough =>
      cases joined : join multimap (relArr.map .ofTable) capacity (reversedChain waiting) with
      | ok line => exact ⟨line, rfl⟩
      | error fault =>
          rw [joined] at spec
          rcases spec with ⟨_, selfJoins⟩ | ⟨_, short⟩
          · exact absurd selfJoins onlyJoins
          · exact absurd enough (Nat.not_le_of_lt short)
  · next short =>
      have first : chainPredicate 0 ∈ (reversedChain waiting).predicates := List.mem_cons_self
      rcases startJoin_spec valid first Nat.zero_ne_one with ⟨joined, started, isJoined⟩
      have isDone (binding : Nat) : OfPredicates [chainPredicate 0] binding ↔ binding ≤ 0 + 1 := by
        rw [OfPredicates, List.exists_mem_cons_iff]
        simp only [chainPredicate, List.not_mem_nil, false_and, exists_false, or_false]
        omega
      have ran := mt (addJoins_laterPredicates valid isJoined isDone (Nat.zero_add waiting)
        whole).mp short
      have built : buildJoins (relArr.map .ofTable) (reversedChain waiting) capacity =
          addJoins (relArr.map .ofTable) (reversedChain waiting) capacity (waiting + 1)
            (laterPredicates 0 waiting) joined := by
        rw [buildJoins, length_predicates]
        change (do
          let joined ← startJoin (relArr.map .ofTable) (reversedChain waiting) (chainPredicate 0)
          addJoins _ _ _ _ _ joined) = _
        rw [started, ok_bind]
      cases joined : join multimap (relArr.map .ofTable) capacity (reversedChain waiting) with
      | ok line =>
          rcases bind_eq_ok.mp joined with ⟨after, isBuilt, _⟩
          exact absurd ⟨after, built ▸ isBuilt⟩ ran
      | error fault =>
          rw [joined] at spec
          rcases spec with ⟨_, selfJoins⟩ | ⟨rfl, _⟩
          · exact absurd selfJoins onlyJoins
          · rfl

/-- `0.0=1.0&3.0=4.0&2.0=3.0&1.0=2.0`, with a vector that has room for no more than its joins. -/
theorem join_reversedChain_fourJoins :
    join .inOrder (oneTable.map .ofTable) 4 (reversedChain 3) = .error .dangling := by
  have isRelation : oneTable[0]? = some oneTable[0] := List.getElem?_eq_getElem (by decide)
  have columns : 0 < oneTable[0].cols := by decide
  have whole : (reversedChain 3).predicates.length ≤ 4 := by decide
  have spec := join_reversedChain isRelation columns .inOrder whole
  rwa [if_neg (by decide)] at spec

end Joins

end JoinOperator.Reference
