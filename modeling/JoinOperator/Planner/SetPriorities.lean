import JoinOperator.Planner.JoinEnumeration

/-! # The order in which the joins are executed

The predicates of the join sequence come behind those that
`executeFilterPredicates` has put into `priorities`. The others are then
inserted behind a predicate between the same relations.
-/

namespace JoinOperator.Planner

open RadixJoin

/-- The value `-1` of a free slot. -/
def noPriority : Nat := 2 ^ 64 - 1

def appendSequence (priorities : List Nat) (i : Nat) (sequence : List Char) :
    Option (List Nat × Nat) :=
  sequence.foldlM (fun (priorities, i) c => do
    let priorities ← write priorities i (charToInteger c)
    some (priorities, i + 1)) (priorities, i)

/-- Whether two predicates between the same relations are identical, or `none`
where they are between different relations. -/
def compareJoins (partA partB : Join) : Option Bool :=
  if partA.participant1.rel = partB.participant1.rel ∧
      partA.participant2.rel = partB.participant2.rel then
    some (partA.participant1.numCol = partB.participant1.numCol ∧
      partA.participant2.numCol = partB.participant2.numCol)
  else if partA.participant1.rel = partB.participant2.rel ∧
      partA.participant2.rel = partB.participant1.rel then
    some (partA.participant1.numCol = partB.participant2.numCol ∧
      partA.participant2.numCol = partB.participant1.numCol)
  else none

/-- The loop over the slots from `p` on, `remaining` of which are left. Returns
the slot where it stops, with the flag. -/
def findRelated (joins : List Join) (priorities : List Nat) (partB : Join) :
    Nat → Nat → Option (Option (Nat × Bool))
  | 0, _ => some none
  | remaining + 1, p => do
      let joinId ← priorities[p]?
      let partA ← joins[joinId]?
      match compareJoins partA partB with
      | some flag => some (some (p, flag))
      | none => findRelated joins priorities partB remaining (p + 1)

/-- The loop that moves the slots above `p + 1` up to slot `a`, and writes `k`
below them. -/
def insertPriority (k p : Nat) : Nat → List Nat → Option (List Nat)
  | 0, priorities => write priorities 0 k
  | a + 1, priorities =>
      if a + 1 > p + 1 then do
        let moved ← priorities[a]?
        let priorities ← write priorities (a + 1) moved
        insertPriority k p a priorities
      else write priorities (a + 1) k

structure Priorities where
  priorities : List Nat
  alreadyPrioritized : Nat
  deriving DecidableEq, Repr

def prioritize (joins : List Join) (sequence : List Char) (j : Nat) (state : Priorities)
    (k : Nat) : Option Priorities :=
  if existsInComb sequence k then some state
  else do
    let partB ← joins[k]?
    match ← findRelated joins state.priorities partB state.alreadyPrioritized 0 with
    | some (p, flag) =>
        if flag then some state
        else do
          let priorities ← insertPriority k p j state.priorities
          some ⟨priorities, state.alreadyPrioritized + 1⟩
    | none => do
        let priorities ← write state.priorities j k
        some ⟨priorities, state.alreadyPrioritized⟩

def setPriorities (sequence : List Char) (q : Query) : Option (List Nat) := do
  let i ← q.priorities.findIdx? (· = noPriority)
  let (priorities, i) ← appendSequence q.priorities i sequence
  if i < q.numOfJoins then do
    let state ← (List.range' i (q.numOfJoins - i)).foldlM (fun state j =>
      (List.range q.numOfJoins).foldlM (prioritize q.joins sequence j) state) ⟨priorities, i⟩
    some state.priorities
  else some priorities

end JoinOperator.Planner
