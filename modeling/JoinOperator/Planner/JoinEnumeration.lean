import JoinOperator.Planner.HashTree
import JoinOperator.Planner.JoinGraph

/-! # Join enumeration

Left-deep plans for ever larger sets of relations, each extending a plan for a
set with one relation less. The cheapest plan of a set is kept.
-/

namespace JoinOperator.Planner

open RadixJoin

def existsInComb (comb : List Char) (r : Nat) : Bool :=
  comb.any fun c => charToInteger c = r

/-- A relation of `comb` that is connected to `r`, or `none` where the source
returns `-1`. An edge from `r` to the relation has its columns exchanged. -/
def areConnected (joinGraph : Graph) (r : Nat) : List Char → Option (Option (Nat × Connection))
  | [] => some none
  | c :: comb => do
      match ← connected joinGraph (charToInteger c) r with
      | some found => some (some (charToInteger c, found))
      | none => do
          match ← connected joinGraph r (charToInteger c) with
          | some found =>
              some (some (charToInteger c, ⟨found.col2, found.col1, found.joinId⟩))
          | none => areConnected joinGraph r comb

/-- `Filter`: only values from `k1` to `k2` remain in `filterCol`. -/
def filter (estimator : Estimator) (statistics : HTStats) (k1 k2 filterCol : Nat) :
    Option HTStats := do
  let s ← statistics.relStats[filterCol]?
  if k2 < k1 then some { statistics with relStats := statistics.relStats.map zeroStats }
  else
    let after :=
      if k1 = k2 then { s with
        minI := k1
        maxU := k1
        numElements := estimator.ceilQuotient s.numElements s.distinctVals
        distinctVals := 1 }
      else { s with
        minI := k1
        maxU := k2
        distinctVals := estimator.scale (wrapSub k2 k1) (wrapSub s.maxU s.minI) s.distinctVals
        numElements := estimator.scale (wrapSub k2 k1) (wrapSub s.maxU s.minI) s.numElements }
    some { statistics with
      relStats := statistics.relStats.mapIdx fun c other =>
        if c = filterCol then after
        else otherColumn estimator s.numElements after.numElements after.numElements other }

/-- `Join`. The new number of distinct values of `colB` is read from the columns
of `statA`, which need not have so many. -/
def join (estimator : Estimator) (statA statB : HTStats) (colA colB : Nat) :
    Option (HTStats × HTStats) := do
  let a ← statA.relStats[colA]?
  let b ← statB.relStats[colB]?
  let n := (wrapSub a.maxU a.minI + 1) % 2 ^ 64
  let fANew := estimator.ceilQuotient (a.numElements * b.numElements % 2 ^ 64) n
  let dANew := estimator.ceilQuotient (a.distinctVals * b.distinctVals % 2 ^ 64) n
  let joinedA := { a with numElements := fANew, distinctVals := dANew }
  let joinedB := { b with numElements := fANew, distinctVals := dANew }
  let dBNew := match (statA.relStats.set colA joinedA)[colB]? with
    | some s => s.distinctVals
    | none => estimator.beyond
  let others (statistics : HTStats) (col : Nat) (joined : Stats) (old new : Nat) : HTStats :=
    { statistics with
      relStats := statistics.relStats.mapIdx fun c other =>
        if c = col then joined else otherColumn estimator old new fANew other }
  some (others statA colA joinedA a.distinctVals dANew,
    others statB colB joinedB b.distinctVals dBNew)

/-- The last of the relations that is `connection`. -/
def partAOf (htstats : List HTStats) (connection : Nat) : Nat :=
  (List.range htstats.length).foldl (fun partA i =>
    if htstats[i]?.map HTStats.rel = some connection then i else partA) 0

def otherRelations (estimator : Estimator) (htstats : List HTStats) (partA : Nat)
    (statA : HTStats) (old new rows : Nat) : List HTStats :=
  htstats.mapIdx fun r statistics =>
    if r = partA then statA
    else { statistics with
      relStats := statistics.relStats.map (otherColumn estimator old new rows) }

def createJoinTree (estimator : Estimator) (ht1 ht2 : HTNode) (newComb : List Char)
    (connection : Nat) (columns : Connection) : Option HTNode := do
  let numRels := newComb.length
  if ht1.htstats.length < numRels - 1 then none
  else do
    let htstats := ht1.htstats.take (numRels - 1)
    let partA := partAOf htstats connection
    let statA ← htstats[partA]?
    let statB ← ht2.htstats[0]?
    let a ← statA.relStats[columns.col1]?
    let b ← statB.relStats[columns.col2]?
    let filteredA ← filter estimator statA (largerMin a b) (smallerMax a b) columns.col1
    let fA ← filteredA.relStats[columns.col1]?
    let htstats := otherRelations estimator htstats partA filteredA a.numElements
      fA.numElements fA.numElements
    let filteredB ← filter estimator statB (largerMin a b) (smallerMax a b) columns.col2
    let (joinedA, joinedB) ← join estimator filteredA filteredB columns.col1 columns.col2
    let jA ← joinedA.relStats[columns.col1]?
    let htstats := otherRelations estimator htstats partA joinedA fA.distinctVals
      jA.distinctVals jA.numElements
    some {
      htstats := htstats ++ [joinedB]
      numRels
      comb := newComb
      cost := (ht1.cost + jA.numElements) % 2 ^ 64
      joinSeq := match ht1.joinSeq with
        | none => some (decimal columns.joinId)
        | some joinSeq => some (joinSeq ++ decimal columns.joinId) }

def keepCheaper (hashTree : HashTree) (index : Nat) (node : HTNode) : Option HashTree := do
  match ← hashTree[index]? with
  | some old => if old.cost > node.cost then write hashTree index (some node) else some hashTree
  | none => write hashTree index (some node)

def extendPlan (estimator : Estimator) (joinGraph : Graph) (comb : List Char)
    (hashTree : HashTree) (r : Nat) : Option HashTree :=
  if existsInComb comb r then some hashTree
  else do
    match ← areConnected joinGraph r comb with
    | none => some hashTree
    | some (connection, columns) => do
        match ← hashTree[combToIndex comb]? with
        | none => some hashTree
        | some ht1 => do
            let ht2 ← hashTree[1 <<< r]?.join
            let node ← createJoinTree estimator ht1 ht2 (comb ++ decimal r) connection columns
            keepCheaper hashTree (combToIndex (comb ++ decimal r)) node

def enumerateSize (estimator : Estimator) (numRels : Nat) (joinGraph : Graph)
    (hashTree : HashTree) (i : Nat) : Option HashTree := do
  let numCombs := factorial numRels / (factorial i * factorial (numRels - i) % 2 ^ 64)
  let combs := getCombination numRels i
  if combs.length > numCombs then none
  else (List.range numCombs).foldlM (fun hashTree s => do
    let comb ← combs[s]?
    (List.range numRels).foldlM (extendPlan estimator joinGraph comb) hashTree) hashTree

def joinEnumeration (estimator : Estimator) (hashTree : HashTree) (q : Query)
    (joinGraph : Graph) : Option HashTree :=
  (List.range' 1 (q.numOfRels - 1)).foldlM
    (enumerateSize estimator q.numOfRels joinGraph) hashTree

end JoinOperator.Planner
