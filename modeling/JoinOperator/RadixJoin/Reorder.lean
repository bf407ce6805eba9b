import JoinOperator.Foundation.JobBarrier
import JoinOperator.RadixJoin.Indexing

/-! # Reordering a relation by hash value

Threads count the hash values of their shares of the tuples, and then move the
tuples to their buckets. A bucket is shared: a thread takes the next free slot
of a bucket by reading and decrementing what is left of its histogram entry,
under the mutex of the bucket, and writes the tuple there afterwards.
-/

namespace JoinOperator.RadixJoin

open Foundation

def hash1_2 (key len : Nat) : Nat := key % len

def shareFrom (size i : Nat) : Nat := i * (size / numbOfThreads)

def shareTo (size i : Nat) : Nat :=
  if i ≠ numbOfThreads - 1 then (i + 1) * (size / numbOfThreads) else size

/-- What a histogram job computes. Its `hash_values` are written in order. -/
structure Content where
  hist : List Nat
  hashValues : List Nat
  deriving DecidableEq, Repr

def histogramTuple (tuples : List Tuple) (hash1 : Nat) (content : Content) (i : Nat) :
    Option Content := do
  let t ← tuples[i]?
  let value := hash1_2 t.key hash1
  let count ← content.hist[value]?
  let hist ← write content.hist value (count + 1)
  some { hist, hashValues := content.hashValues ++ [value] }

def histogramJob (tuples : List Tuple) (hash1 start stop : Nat) : Option Content :=
  (List.range (stop - start)).foldlM
    (fun content i => histogramTuple tuples hash1 content (start + i))
    { hist := List.replicate hash1 0, hashValues := [] }

/-- The loop that joins the results of one more job to those before it. -/
def Content.merge (content next : Content) : Content where
  hist := List.zipWith (· + ·) content.hist next.hist
  hashValues := content.hashValues ++ next.hashValues

def histogramContents (schedule : List Turn) (tuples : List Tuple) (hash1 : Nat) :
    Option (List Content) :=
  Barrier.collect numbOfThreads (fun i =>
    histogramJob tuples hash1 (shareFrom tuples.length i) (shareTo tuples.length i)) schedule

/-- `hist` and `hash_values`, with `max` and the number of buckets that are too
large, which are computed when `trivial` is zero. -/
structure Hashed where
  content : Content
  max : Nat
  bad : Nat
  deriving DecidableEq, Repr

def doTheHash (schedule : List Turn) (tuples : List Tuple) (hash1 : Nat) (trivial : Bool) :
    Option Hashed := do
  let contents ← histogramContents schedule tuples hash1
  let first ← contents[0]?
  let content := (contents.drop 1).foldl Content.merge first
  let large := content.hist.filter (· > availableCacheSize / 16)
  some (if trivial then ⟨content, 0, 0⟩ else ⟨content, large.sum, large.length⟩)

/-- The loop of `FindNextPower`. A power beyond `2 ^ 63` becomes zero, and the
loop runs forever. -/
def doublePower (number : Nat) : Nat → Nat → Option Nat
  | 0, _ => none
  | fuel + 1, power => if power < number then doublePower number fuel (power * 2) else some power

def findNextPower (number : Nat) : Option Nat := doublePower number 64 1

/-- The number of buckets chosen by `Hash1`. The product with `ERROR_MARGIN`,
which is 1.05, is below `2 ^ 48`, so its rounding does not change its floor. -/
def bestBuckets (size : Nat) : Option Nat :=
  findNextPower (size * 16 / availableCacheSize * 105 / 100 + 1)

def bucketRange (size hash1 : Nat) : Option Nat :=
  if hash1 = firstReordered then bestBuckets size else some (powerOfTwo hash1)

/-- The variables of the loops that fill `psum` and `helpPSum`. Both arrays are
written from the front, and hold what has been written. -/
structure PSumState where
  psum : List PSumTuple
  helpPSum : List Nat
  temp : Nat
  j : Nat
  prevJ : Nat
  deriving DecidableEq, Repr

def PSumState.skip (state : PSumState) : PSumState :=
  { state with helpPSum := state.helpPSum ++ [state.temp], j := state.j + 1 }

/-- `while (hist[j]==0)`, which has no other end than the end of `hist`. -/
def skipLeading (hist : List Nat) : Nat → PSumState → Option PSumState
  | 0, _ => none
  | fuel + 1, state => do
      let count ← hist[state.j]?
      if count = 0 then skipLeading hist fuel state.skip else some state

/-- `while (j<*hash1)`, up to the next bucket that is not empty. -/
def skipEmpty (hist : List Nat) (hash1 : Nat) : Nat → PSumState → Option PSumState
  | 0, _ => none
  | fuel + 1, state =>
      if state.j < hash1 then do
        let count ← hist[state.j]?
        if count ≠ 0 then some state else skipEmpty hist hash1 fuel state.skip
      else some state

def fillPSum (hist : List Nat) (hash1 buckets : Nat) : Nat → PSumState → Option PSumState
  | 0, state => some state
  | remaining + 1, state => do
      let i := buckets - (remaining + 1)
      let state ← skipEmpty hist hash1 (hash1 + 1) state
      if state.j = hash1 then some state
      else do
        let previous ← state.psum[i - 1]?
        let count ← hist[state.prevJ]?
        let offset := previous.offset + count
        let state : PSumState :=
          { psum := state.psum ++ [⟨state.j, offset⟩]
            helpPSum := state.helpPSum ++ [offset]
            temp := state.temp
            j := state.j + 1
            prevJ := state.j }
        if i = buckets - 1 then some state
        else do
          let count ← hist[state.prevJ]?
          fillPSum hist hash1 buckets remaining { state with temp := state.temp + count }

def countBuckets (hist : List Nat) (hash1 : Nat) : Nat :=
  hist.foldl (fun buckets count => if count = 0 then wrapSub buckets 1 else buckets) hash1

def computePSum (hist : List Nat) (hash1 size : Nat) : Option PSumState := do
  let buckets := countBuckets hist hash1
  let state ← skipLeading hist (hash1 + 1) ⟨[], [], 0, 0, 0⟩
  let count ← hist[state.j]?
  let temp := if state.prevJ < wrapSub hash1 1 then state.temp + count else size
  let state ← fillPSum hist hash1 buckets (buckets - 1)
    { psum := [⟨state.j, 0⟩]
      helpPSum := state.helpPSum ++ [0]
      temp
      j := state.j + 1
      prevJ := state.j }
  some { state with
    helpPSum := state.helpPSum ++ List.replicate (hash1 - state.j) size }

structure Blueprints where
  tuples : List Tuple
  hashValues : List Nat
  helpPsum : List Nat
  hash1 : Nat
  deriving DecidableEq, Repr

def Blueprints.size (blues : Blueprints) : Nat := blues.tuples.length

/-- Where a construction job is: in its iteration `i`, before the locked step or
after it with the `temp` that it has read. -/
structure Worker where
  i : Nat
  temp : Option Nat
  finished : Bool
  deriving DecidableEq, Repr

/-- `written` is the history of the positions of `newR` that were written. -/
structure Construction where
  posted : Nat
  workers : List Worker
  hist : List Nat
  newR : List (Option Tuple)
  written : List Nat
  constructionsCompleted : Nat
  deriving DecidableEq, Repr

namespace Construction

def start (blues : Blueprints) (hist : List Nat) : Construction where
  posted := 0
  workers := (List.range numbOfThreads).map fun k => ⟨shareFrom blues.size k, none, false⟩
  hist := hist
  newR := List.replicate blues.size none
  written := []
  constructionsCompleted := 0

/-- The locked step of an iteration. -/
def claim (blues : Blueprints) (state : Construction) (k : Nat) (worker : Worker) :
    Option Construction := do
  let hash ← blues.hashValues[worker.i]?
  let temp ← state.hist[hash]?
  let hist ← write state.hist hash (wrapSub temp 1)
  some { state with
    hist
    workers := state.workers.set k { worker with temp := some temp } }

def target (blues : Blueprints) (hash temp : Nat) : Option Nat :=
  if hash < wrapSub blues.hash1 1 then do
    let next ← blues.helpPsum[hash + 1]?
    some (wrapSub next temp)
  else some (wrapSub blues.size temp)

def place (blues : Blueprints) (state : Construction) (k : Nat) (worker : Worker)
    (temp : Nat) : Option Construction := do
  let hash ← blues.hashValues[worker.i]?
  let t ← blues.tuples[worker.i]?
  let position ← target blues hash temp
  let newR ← write state.newR position (some t)
  some { state with
    newR
    written := state.written ++ [position]
    workers := state.workers.set k { worker with i := worker.i + 1, temp := none } }

def complete (state : Construction) (k : Nat) (worker : Worker) : Construction :=
  { state with
    workers := state.workers.set k { worker with finished := true }
    constructionsCompleted := state.constructionsCompleted + 1 }

def advance (blues : Blueprints) (state : Construction) (k : Nat) : Option Construction :=
  match state.workers[k]? with
  | none => some state
  | some worker =>
      match worker.temp with
      | some temp => place blues state k worker temp
      | none =>
          if worker.i < shareTo blues.size k then claim blues state k worker
          else if worker.finished then some state
          else some (complete state k worker)

def step (blues : Blueprints) (state : Construction) : Turn → Option Construction
  | .post => some { state with posted := min numbOfThreads (state.posted + 1) }
  | .job k => if k < state.posted then advance blues state k else some state

def run (blues : Blueprints) (schedule : List Turn) (state : Construction) :
    Option Construction :=
  schedule.foldlM (step blues) state

/-- The test of the thread that waits for the construction jobs. -/
def Passes (state : Construction) : Prop :=
  state.posted = numbOfThreads ∧ state.constructionsCompleted = numbOfThreads

def completion (size : Nat) : List Turn :=
  List.replicate numbOfThreads .post ++
    (List.range numbOfThreads).flatMap fun k => List.replicate (2 * size + 1) (.job k)

end Construction

structure Orders where
  histograms : List Turn
  constructions : List Turn
  deriving DecidableEq

/-- What `reorderRelation` prepares for the construction jobs: what they read,
the histogram that they count down, and the psum array. -/
def prepare (orders : Orders) (r : Relation) (hash1 : Nat) :
    Option (Blueprints × List Nat × PSumArray) := do
  let range ← bucketRange r.size hash1
  let hashed ← doTheHash orders.histograms r.tuples range true
  let sums ← computePSum hashed.content.hist range r.size
  some (⟨r.tuples, hashed.content.hashValues, sums.helpPSum, range⟩, hashed.content.hist,
    ⟨sums.psum, countBuckets hashed.content.hist range⟩)

/-- The loop that shifts `*hash1` until it is zero. -/
def countShifts : Nat → Nat → Nat
  | 0, _ => 0
  | fuel + 1, hash1 => if hash1 ≠ 0 then countShifts fuel (hash1 / 2) + 1 else 0

/-- The reordered relation, with `*hash1` on return. -/
def reorderRelation (orders : Orders) (r : Relation) (hash1 : Nat) :
    Option (ReorderedR × Nat) :=
  if r.size = 0 then some (⟨⟨[], 0⟩, []⟩, hash1)
  else do
    let (blues, hist, pSumArr) ← prepare orders r hash1
    let state ← Construction.run blues
      (orders.constructions ++ Construction.completion r.size) (.start blues hist)
    let rel ← state.newR.mapM id
    some (⟨pSumArr, rel⟩, wrapSub (countShifts 64 blues.hash1) 1)

end JoinOperator.RadixJoin
