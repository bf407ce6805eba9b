import JoinOperator.RadixJoin.ChainFollower

/-! # The rows that a probe finds

The functions of `ChainFollower` without the result list: what they push, in
which order. Any list to which they push ends up with the same rows.
-/

namespace JoinOperator.RadixJoin

def equalRow (indexed t : Tuple) : List RowTuple :=
  if indexed.key = t.key then [⟨indexed.payload, t.payload⟩] else []

def chainRowsFrom (rIndex : RelationIndex) (t : Tuple) : Nat → Nat → Option (List RowTuple)
  | 0, _ => none
  | fuel + 1, chainPointer => do
      let tuples ← rIndex.rel
      let indexed ← tuples[chainPointer]?
      let rest ← rIndex.chain[chainPointer]?.bind fun next =>
        if next ≠ 0 then chainRowsFrom rIndex t fuel (next - 1) else some []
      some (equalRow indexed t ++ rest)

def chainRows (rIndex : RelationIndex) (t : Tuple) (h1 : Nat) : Option (List RowTuple) := do
  let hashRes := hashing t.key h1 rIndex.hash2
  let head ← rIndex.buckets[hashRes]?
  if wrapSub head 1 = emptyBucket then some []
  else chainRowsFrom rIndex t rIndex.chain.length (wrapSub head 1)

def indexRows (keyIndex : RelationIndex) (h1 : Nat) :
    Nat → List Tuple → Option (List RowTuple)
  | 0, _ => some []
  | _ + 1, [] => none
  | tuplesNumb + 1, t :: checkedTuples => do
      let rows ← chainRows keyIndex t h1
      let rest ← indexRows keyIndex h1 tuplesNumb checkedTuples
      some (rows ++ rest)

def keyRows (keyIndex : List RelationIndex) (checkedTuples : List Tuple)
    (tuplesNumb h1 : Nat) : Option (List RowTuple) :=
  match keyIndex with
  | [] => some []
  | index :: next =>
      if index.rel = none then some []
      else do
        let rows ← indexRows index h1 tuplesNumb checkedTuples
        let rest ← keyRows next checkedTuples tuplesNumb h1
        some (rows ++ rest)

def bucketRows (indArr : IndexArray) (s : ReorderedR) (whichKey : Nat) :
    Option (List RowTuple) := do
  let argument ← searchArgument s whichKey
  let keyIndex ← indArr.indexes[argument.key1]?
  keyRows keyIndex argument.startTup argument.size (Nat.log2 indArr.size)

/-- `action` pushes `rows` to whatever list it is given. -/
def Pushes (action : HeadResult → Option HeadResult) (rows : Option (List RowTuple)) : Prop :=
  ∀ head, action head = rows.bind fun rows => rows.foldlM pushResultVer2 head

namespace Pushes

theorem nothing : Pushes some (some []) := fun _ => rfl

theorem pushIfEqual (indexed t : Tuple) :
    Pushes (RadixJoin.pushIfEqual · indexed t) (some (equalRow indexed t)) := by
  intro head
  by_cases equal : indexed.key = t.key <;>
    simp [RadixJoin.pushIfEqual, equalRow, equal]

theorem fails : Pushes (fun _ => none) none := fun _ => rfl

theorem andThen {first second : HeadResult → Option HeadResult}
    {rows rest : Option (List RowTuple)} (pushesFirst : Pushes first rows)
    (pushesSecond : Pushes second rest) :
    Pushes (fun head => (first head).bind second)
      (rows.bind fun rows => rest.bind fun rest => some (rows ++ rest)) := by
  intro head
  change (first head).bind second = _
  rw [pushesFirst head]
  cases rows with
  | none => rfl
  | some rows =>
      rw [Option.bind_some, Option.bind_some, funext pushesSecond]
      cases rest with
      | none => simp
      | some rest =>
          rw [Option.bind_some, Option.bind_some, List.foldlM_append]
          rfl

theorem reading {Value : Type} {value : Option Value}
    {action : Value → HeadResult → Option HeadResult}
    {rows : Value → Option (List RowTuple)} (pushes : ∀ read, Pushes (action read) (rows read)) :
    Pushes (fun head => value.bind fun read => action read head) (value.bind rows) := by
  intro head
  cases value with
  | none => rfl
  | some read => exact pushes read head

end Pushes

theorem pushes_followFrom (rIndex : RelationIndex) (t : Tuple) (fuel chainPointer : Nat) :
    Pushes (followFrom rIndex t fuel chainPointer)
      (chainRowsFrom rIndex t fuel chainPointer) := by
  induction fuel generalizing chainPointer with
  | zero => exact Pushes.fails
  | succ fuel induction =>
      refine .reading fun tuples => .reading fun indexed => ?_
      refine (Pushes.pushIfEqual indexed t).andThen (.reading fun next => ?_)
      by_cases last : next ≠ 0
      · simpa only [if_pos last] using induction (next - 1)
      · simpa only [if_neg last] using Pushes.nothing

theorem pushes_followChain (rIndex : RelationIndex) (t : Tuple) (h1 : Nat) :
    Pushes (followChain · rIndex t h1) (chainRows rIndex t h1) := by
  refine .reading fun head => ?_
  by_cases empty : wrapSub head 1 = emptyBucket
  · simpa only [if_pos empty] using Pushes.nothing
  · simpa only [if_neg empty] using pushes_followFrom rIndex t _ _

theorem pushes_followChains (keyIndex : RelationIndex) (h1 tuplesNumb : Nat)
    (checkedTuples : List Tuple) :
    Pushes (followChains keyIndex h1 tuplesNumb checkedTuples)
      (indexRows keyIndex h1 tuplesNumb checkedTuples) := by
  induction tuplesNumb generalizing checkedTuples with
  | zero => exact Pushes.nothing
  | succ tuplesNumb induction =>
      cases checkedTuples with
      | nil => exact Pushes.fails
      | cons t checkedTuples =>
          exact (pushes_followChain keyIndex t h1).andThen (induction checkedTuples)

theorem pushes_searchKeyRec (keyIndex : List RelationIndex) (checkedTuples : List Tuple)
    (tuplesNumb h1 : Nat) :
    Pushes (searchKeyRec keyIndex · checkedTuples tuplesNumb h1)
      (keyRows keyIndex checkedTuples tuplesNumb h1) := by
  induction keyIndex with
  | nil => exact Pushes.nothing
  | cons index next induction =>
      by_cases empty : index.rel = none
      · simpa only [searchKeyRec, keyRows, if_pos empty] using Pushes.nothing
      · simp only [searchKeyRec, keyRows, if_neg empty]
        exact (pushes_followChains index h1 tuplesNumb checkedTuples).andThen induction

theorem pushes_searchBucket (indArr : IndexArray) (s : ReorderedR) (whichKey : Nat) :
    Pushes (searchBucket indArr s · whichKey) (bucketRows indArr s whichKey) :=
  .reading fun argument => .reading fun keyIndex =>
    pushes_searchKeyRec keyIndex argument.startTup argument.size (Nat.log2 indArr.size)

def searchRows (indArr : IndexArray) (s : ReorderedR) (whichKeys : List Nat) :
    Option (List RowTuple) :=
  (whichKeys.mapM (bucketRows indArr s)).map List.flatten

theorem searchRows_cons (indArr : IndexArray) (s : ReorderedR) (whichKey : Nat)
    (whichKeys : List Nat) :
    searchRows indArr s (whichKey :: whichKeys) =
      (bucketRows indArr s whichKey).bind fun rows =>
        (searchRows indArr s whichKeys).bind fun rest => some (rows ++ rest) := by
  rw [searchRows, List.mapM_cons]
  cases bucketRows indArr s whichKey with
  | none => rfl
  | some rows =>
      cases rest : whichKeys.mapM (bucketRows indArr s) <;> simp [searchRows, rest]

theorem pushes_searchBuckets (indArr : IndexArray) (s : ReorderedR)
    (whichKeys : List Nat) :
    Pushes (whichKeys.foldlM (searchBucket indArr s)) (searchRows indArr s whichKeys) := by
  induction whichKeys with
  | nil => exact Pushes.nothing
  | cons whichKey whichKeys induction =>
      rw [searchRows_cons]
      exact (pushes_searchBucket indArr s whichKey).andThen induction

theorem Pushes.filling {action : HeadResult → Option HeadResult}
    {rows : List RowTuple} (pushes : Pushes action (some rows)) {head : HeadResult}
    (filling : head.Filling) :
    ∃ after, action head = some after ∧ after.Filling ∧ after.rows = head.rows ++ rows := by
  rw [pushes head]
  exact filling.pushAll rows

end JoinOperator.RadixJoin
