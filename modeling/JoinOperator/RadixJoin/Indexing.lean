import JoinOperator.RadixJoin.BasicStructs

/-! # Indexing a reordered relation

One index for every hash value that occurs. The index of a bucket that does
not fit in the cache is split into a list of indexes of its parts.
-/

namespace JoinOperator.RadixJoin

/-- `pow(2, exponent)` as a `myint_t`. From `2 ^ 64` on the double is out of
range, and its conversion on x86-64 gives zero. -/
def powerOfTwo (exponent : Nat) : Nat :=
  if exponent < 64 then 2 ^ exponent else 0

theorem powerOfTwo_eq {exponent : Nat} (bits : exponent < 64) :
    powerOfTwo exponent = 2 ^ exponent :=
  if_pos bits

def hash1Range (hash1 : Nat) : Nat := powerOfTwo hash1

def hash2Range (hash2 : Nat) : Nat := powerOfTwo hash2

/-- The shifts are by less than 64, since an array of `2 ^ 59` indexes does not
fit in memory. -/
def hashing (value hash1 hash2 : Nat) : Nat :=
  let value := value >>> hash1
  let range := hash2Range hash2
  (value ^^^ (value >>> (hash1 + 3)) ^^^ (value >>> (hash1 + 5))) &&& wrapSub range 1

def initializeIndex (bucketSize : Nat) (rel : Option (List Tuple)) (key hash2 : Nat) :
    RelationIndex :=
  match rel with
  | none => { chain := [], buckets := [], rel, key, hash2 }
  | some tuples =>
      { chain := List.replicate tuples.length 0
        buckets := List.replicate bucketSize 0
        rel, key, hash2 }

def updateChain (chain buckets : List Nat) (hash2Index i : Nat) :
    Option (List Nat × List Nat) := do
  let temp ← buckets[hash2Index]?
  let buckets ← write buckets hash2Index (i + 1)
  let chain ← write chain i temp
  some (chain, buckets)

def indexTuple (tuples : List Tuple) (hash1 hash2 : Nat) (arrays : List Nat × List Nat)
    (i : Nat) : Option (List Nat × List Nat) := do
  let t ← tuples[i]?
  updateChain arrays.1 arrays.2 (hashing t.key hash1 hash2) i

def buildIndex (oneIndex : RelationIndex) (hash1 hash2 : Nat) : Option RelationIndex := do
  let tuples ← oneIndex.rel
  let arrays ← (List.range tuples.length).foldlM (indexTuple tuples hash1 hash2)
    (oneIndex.chain, oneIndex.buckets)
  some { oneIndex with chain := arrays.1, buckets := arrays.2 }

def slice (tuples : List Tuple) (start size : Nat) : Option (List Tuple) :=
  if start + size ≤ tuples.length then some ((tuples.drop start).take size) else none

def getStartOfBucket (ror : ReorderedR) (whichPsum : Nat) : Option (List Tuple) := do
  let entry ← ror.pSumArr.psum[whichPsum]?
  if whichPsum + 1 = ror.pSumArr.psumSize then
    slice ror.rel entry.offset (wrapSub ror.rel.length entry.offset)
  else do
    let next ← ror.pSumArr.psum[whichPsum + 1]?
    slice ror.rel entry.offset (wrapSub next.offset entry.offset)

/-- Bytes of an index: its size, its tuples with their chain, and its buckets. -/
def sizeOfIndex (size bucketArrSize : Nat) : Nat :=
  8 + size * (16 + 8) + bucketArrSize * 8

/-- The first loop of `recomputeSizes`. It decreases `eachSize` as long as that
is positive, so it runs forever when the fuel is used up. -/
def halveSize (bucketArrSize : Nat) : Nat → Nat → Option Nat
  | 0, _ => none
  | fuel + 1, eachSize =>
      if sizeOfIndex eachSize bucketArrSize > cacheSize then
        halveSize bucketArrSize fuel (eachSize / 2)
      else some eachSize

/-- The second loop of `recomputeSizes`, which ends before `hash2` is 64. -/
def widenHash2 (eachSize : Nat) : Nat → Nat → Option Nat
  | 0, _ => none
  | fuel + 1, hash2 =>
      if sizeOfIndex eachSize (hash2Range hash2) ≤ cacheSize then
        widenHash2 eachSize fuel (hash2 + 1)
      else some hash2

def recomputeSizes (hash2Var sizeAll : Nat) : Option (Nat × Nat) := do
  let eachSize ← halveSize (hash2Range hash2Var) (sizeAll / 2 + 1) (sizeAll / 2)
  let hash2 ← widenHash2 eachSize 64 hash2Var
  some (eachSize, wrapSub hash2 1)

/-- The indexes of `startOfBuck[sizeIndexedSofar ..]`. Every iteration takes at
least one of the `sizeAll` tuples, unless `eachSize` is zero and the loop runs
forever. -/
def buildSubIndex (hash1 hash2 bucketSize : Nat) (startOfBuck : List Tuple) (i : Nat) :
    Nat → Nat → Nat → Nat → Option (List RelationIndex)
  | _, 0, _, _ => some []
  | 0, _ + 1, _, _ => none
  | fuel + 1, sizeAll + 1, eachSize, sizeIndexedSofar => do
      let eachSize := if sizeAll + 1 < eachSize then sizeAll + 1 else eachSize
      let rel ← slice startOfBuck sizeIndexedSofar eachSize
      let index ← buildIndex (initializeIndex bucketSize (some rel) i hash2) hash1 hash2
      let rest ← buildSubIndex hash1 hash2 bucketSize startOfBuck i fuel
        (wrapSub (sizeAll + 1) eachSize) eachSize (sizeIndexedSofar + eachSize)
      some (index :: rest)

def indexBucket (hash1 hash2 i : Nat) (rel : List Tuple) : Option (List RelationIndex) :=
  let bucketArrSize := hash2Range hash2
  if sizeOfIndex rel.length bucketArrSize ≤ cacheSize then do
    let index ← buildIndex (initializeIndex bucketArrSize (some rel) i hash2) hash1 hash2
    some [index]
  else do
    let (eachSize, hash2Var) ← recomputeSizes hash2 rel.length
    let bucketArrSize := hash2Range hash2Var
    let first ← slice rel 0 eachSize
    let index ← buildIndex (initializeIndex bucketArrSize (some first) i hash2Var)
      hash1 hash2Var
    let rest ← buildSubIndex hash1 hash2Var bucketArrSize rel i rel.length
      (wrapSub rel.length eachSize) eachSize eachSize
    some (index :: rest)

/-- The iteration `i` of the loop in `indexing`, on the cells made so far and
`whichPsum`. -/
def indexingStep (ror : ReorderedR) (hash1 hash2 : Nat)
    (state : List (List RelationIndex) × Nat) (i : Nat) :
    Option (List (List RelationIndex) × Nat) :=
  let (cells, whichPsum) := state
  if whichPsum ≥ ror.pSumArr.psumSize then
    some (cells ++ [[initializeIndex 0 none i 0]], whichPsum)
  else do
    let entry ← ror.pSumArr.psum[whichPsum]?
    if i = entry.h1Res then do
      let rel ← getStartOfBucket ror whichPsum
      let cell ← indexBucket hash1 hash2 i rel
      some (cells ++ [cell], whichPsum + 1)
    else some (cells ++ [[initializeIndex 0 none i 0]], whichPsum)

/-- The buckets of an index take no more than what the tuples leave of the
cache. -/
def initialHash2 : Nat := Nat.log2 ((cacheSize - availableCacheSize) / 8)

def indexing (ror : ReorderedR) (hash1 : Nat) : Option IndexArray := do
  let sizeOfIndexArray := hash1Range hash1
  let state ← (List.range sizeOfIndexArray).foldlM (indexingStep ror hash1 initialHash2) ([], 0)
  some { indexes := state.1 }

end JoinOperator.RadixJoin
