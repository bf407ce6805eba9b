import JoinOperator.Foundation.JobBarrier
import JoinOperator.RadixJoin.Indexing
import JoinOperator.RadixJoin.ResultList

/-! # Probing an index

`search` probes the buckets of the second relation one after the other.
`searchThreadVer` posts one job for each bucket and connects their lists.
-/

namespace JoinOperator.RadixJoin

open Foundation

/-- `EMPTY_BUCKET`, the number `-1` as a `myint_t`. -/
def emptyBucket : Nat := 2 ^ 64 - 1

/-- Values are compared too, not only their hashes. -/
def pushIfEqual (resultList : HeadResult) (indexed t : Tuple) : Option HeadResult :=
  if indexed.key = t.key then pushResultVer2 resultList ⟨indexed.payload, t.payload⟩
  else some resultList

/-- The loop of `followChain`. A chain that is followed for more steps than it
has entries never ends. -/
def followFrom (rIndex : RelationIndex) (t : Tuple) :
    Nat → Nat → HeadResult → Option HeadResult
  | 0, _, _ => none
  | fuel + 1, chainPointer, resultList => do
      let tuples ← rIndex.rel
      let indexed ← tuples[chainPointer]?
      let resultList ← pushIfEqual resultList indexed t
      let next ← rIndex.chain[chainPointer]?
      if next ≠ 0 then followFrom rIndex t fuel (next - 1) resultList
      else some resultList

def followChain (resultList : HeadResult) (rIndex : RelationIndex) (t : Tuple) (h1 : Nat) :
    Option HeadResult := do
  let hashRes := hashing t.key h1 rIndex.hash2
  let head ← rIndex.buckets[hashRes]?
  let chainPointer := wrapSub head 1
  if chainPointer = emptyBucket then some resultList
  else followFrom rIndex t rIndex.chain.length chainPointer resultList

def followChains (keyIndex : RelationIndex) (h1 : Nat) :
    Nat → List Tuple → HeadResult → Option HeadResult
  | 0, _, resultList => some resultList
  | _ + 1, [], _ => none
  | tuplesNumb + 1, t :: checkedTuples, resultList => do
      let resultList ← followChain resultList keyIndex t h1
      followChains keyIndex h1 tuplesNumb checkedTuples resultList

def searchKeyRec (keyIndex : List RelationIndex) (resultList : HeadResult)
    (checkedTuples : List Tuple) (tuplesNumb h1 : Nat) : Option HeadResult :=
  match keyIndex with
  | [] => some resultList
  | index :: next =>
      if index.rel = none then some resultList
      else do
        let resultList ← followChains index h1 tuplesNumb checkedTuples resultList
        searchKeyRec next resultList checkedTuples tuplesNumb h1

structure SearchArgument where
  key1 : Nat
  startTup : List Tuple
  size : Nat
  deriving DecidableEq, Repr

def searchArgument (s : ReorderedR) (whichKey : Nat) : Option SearchArgument := do
  let entry ← s.pSumArr.psum[whichKey]?
  let startTup := s.rel.drop entry.offset
  if whichKey < wrapSub s.pSumArr.psumSize 1 then do
    let next ← s.pSumArr.psum[whichKey + 1]?
    some ⟨entry.h1Res, startTup, wrapSub next.offset entry.offset⟩
  else some ⟨entry.h1Res, startTup, wrapSub s.rel.length entry.offset⟩

def searchBucket (indArr : IndexArray) (s : ReorderedR) (resultList : HeadResult)
    (whichKey : Nat) : Option HeadResult := do
  let argument ← searchArgument s whichKey
  let keyIndex ← indArr.indexes[argument.key1]?
  searchKeyRec keyIndex resultList argument.startTup argument.size (Nat.log2 indArr.size)

def search (indArr : IndexArray) (s : ReorderedR) : Option HeadResult := do
  let resultList ← (List.range s.pSumArr.psumSize).foldlM (searchBucket indArr s)
    initialiseResultHead
  cleanListHead resultList

/-- The list that the job of one bucket stores in its slot of `jobLists`. -/
def joinBucket (indArr : IndexArray) (s : ReorderedR) (whichResult : Nat) :
    Option HeadResult := do
  let resultList ← searchBucket indArr s initialiseResultHead whichResult
  cleanListHead resultList

def connectAll (jobLists : List HeadResult) : Option HeadResult :=
  jobLists.foldlM connectResultList initialiseResultHeadNoBuff

def searchThreadVer (schedule : List Turn) (indArr : IndexArray) (s : ReorderedR) :
    Option HeadResult := do
  let jobLists ← Barrier.collect s.pSumArr.psumSize (joinBucket indArr s) schedule
  connectAll jobLists

end JoinOperator.RadixJoin
