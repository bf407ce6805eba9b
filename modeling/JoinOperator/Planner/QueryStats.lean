import JoinOperator.QueryStructs

/-! # Statistics of a query after its filters

The estimates are made in floating point arithmetic, about which nothing is
assumed. The array `queryStats[i]` has one entry for each column of the
relation `i` of the query.
-/

namespace JoinOperator.Planner

open RadixJoin

/-- Arithmetic of doubles and their conversions, and what is read beyond the end
of an array of statistics. -/
structure Estimator where
  Double : Type
  ofNat : Nat → Double
  sub : Double → Double → Double
  mul : Double → Double → Double
  div : Double → Double → Double
  pow : Double → Double → Double
  ceil : Double → Double
  toNat : Double → Nat
  beyond : Nat

namespace Estimator

variable (estimator : Estimator)

def quotient (a b : Nat) : estimator.Double :=
  estimator.div (estimator.ofNat a) (estimator.ofNat b)

/-- `ceil((double)a / (double)b)`. -/
def ceilQuotient (a b : Nat) : Nat :=
  estimator.toNat (estimator.ceil (estimator.quotient a b))

/-- `ceil(((double)part / (double)whole) * count)`. -/
def scale (part whole count : Nat) : Nat :=
  estimator.toNat (estimator.ceil
    (estimator.mul (estimator.quotient part whole) (estimator.ofNat count)))

/-- `ceil(dC * (1 - pow(1 - (double)new / (double)old, (double)fC / (double)dC)))`. -/
def remaining (dC fC new old : Nat) : Nat :=
  estimator.toNat (estimator.ceil (estimator.mul (estimator.ofNat dC)
    (estimator.sub (estimator.ofNat 1)
      (estimator.pow (estimator.sub (estimator.ofNat 1) (estimator.quotient new old))
        (estimator.quotient fC dC)))))

end Estimator

def zeroStats (s : Stats) : Stats :=
  { s with minI := 0, maxU := 0, numElements := 0, distinctVals := 0 }

/-- The other columns of a relation, when the ratio of the rows that are left is
`new / old`, and there are `rows` of them. -/
def otherColumn (estimator : Estimator) (old new rows : Nat) (s : Stats) : Stats :=
  if old = 0 ∨ s.distinctVals = 0 then zeroStats s
  else { s with
    numElements := rows
    distinctVals := estimator.remaining s.distinctVals s.numElements new old }

def testBit (distinctArray : List Nat) (k : Nat) : Option Bool := do
  let word ← distinctArray[k / 64]?
  some (word.testBit (k % 64))

def lessStats (estimator : Estimator) (value : Nat) (s : Stats) : Stats :=
  let k2 := wrapSub value 1
  if k2 < s.maxU then
    if k2 < s.minI then zeroStats s
    else if k2 = s.minI then
      if s.distinctVals = 0 then { s with minI := 0, maxU := 0, numElements := 0 }
      else { s with
        maxU := k2
        numElements := estimator.ceilQuotient s.numElements s.distinctVals
        distinctVals := 1 }
    else { s with
      maxU := k2
      distinctVals := estimator.scale (wrapSub k2 s.minI) (wrapSub s.maxU s.minI) s.distinctVals
      numElements := estimator.scale (wrapSub k2 s.minI) (wrapSub s.maxU s.minI) s.numElements }
  else s

def greaterStats (estimator : Estimator) (value : Nat) (s : Stats) : Stats :=
  let k1 := (value + 1) % 2 ^ 64
  if k1 > s.minI then
    if k1 > s.maxU then zeroStats s
    else if k1 = s.maxU then
      if s.distinctVals = 0 then { s with minI := 0, maxU := 0, numElements := 0 }
      else { s with
        minI := k1
        numElements := estimator.ceilQuotient s.numElements s.distinctVals
        distinctVals := 1 }
    else { s with
      minI := k1
      distinctVals := estimator.scale (wrapSub s.maxU k1) (wrapSub s.maxU s.minI) s.distinctVals
      numElements := estimator.scale (wrapSub s.maxU k1) (wrapSub s.maxU s.minI) s.numElements }
  else s

def equalStats (estimator : Estimator) (value : Nat) (s : Stats) : Option Stats := do
  let s := { s with minI := value, maxU := value }
  let occurs ← testBit s.distinctArray (wrapSub s.maxU value)
  some (if occurs then
    if s.distinctVals = 0 then { s with numElements := 0 }
    else { s with
      numElements := estimator.toNat
        (estimator.ceil (estimator.ofNat (s.numElements / s.distinctVals)))
      distinctVals := 1 }
  else { s with distinctVals := 0, numElements := 0 })

def filterStats (estimator : Estimator) (filter : Filter) (s : Stats) : Option Stats :=
  match filter.op with
  | .less => some (lessStats estimator filter.value s)
  | .greater => some (greaterStats estimator filter.value s)
  | .equal => equalStats estimator filter.value s

def filterColumns (estimator : Estimator) (filter : Filter) (columns : List Stats) :
    Option (List Stats) := do
  let numCol := filter.participant.numCol
  let s ← columns[numCol]?
  let after ← filterStats estimator filter s
  some (columns.mapIdx fun c other =>
    if c = numCol then after
    else otherColumn estimator s.numElements after.numElements after.numElements other)

def largerMin (s1 s2 : Stats) : Nat := if s1.minI > s2.minI then s1.minI else s2.minI

def smallerMax (s1 s2 : Stats) : Nat := if s1.maxU < s2.maxU then s1.maxU else s2.maxU

def commonRange (s1 s2 : Stats) : Stats × Stats :=
  ({ s1 with minI := largerMin s1 s2, maxU := smallerMax s1 s2 },
    { s2 with minI := largerMin s1 s2, maxU := smallerMax s1 s2 })

def sameRelationColumns (estimator : Estimator) (col1 col2 : Nat) (columns : List Stats) :
    Option (List Stats) := do
  let s1 ← columns[col1]?
  let s2 ← columns[col2]?
  let (s1, s2) := commonRange s1 s2
  let n := (wrapSub s1.maxU s1.minI + 1) % 2 ^ 64
  let fA := s1.numElements
  let fANew := estimator.ceilQuotient fA n
  let dA := s1.distinctVals
  let s2 := { s2 with numElements := fANew }
  let s1 := if fA = 0 ∨ dA = 0 then zeroStats s1
    else { s1 with
      numElements := fANew
      distinctVals := estimator.remaining dA fA fANew fA }
  some (columns.mapIdx fun c other =>
    if c = col1 then s1 else if c = col2 then s2
    else otherColumn estimator fA s1.numElements s1.numElements other)

def statsOf (queryStats : List (List Stats)) (participant : ColRel) : Option Stats := do
  let columns ← queryStats[participant.rel]?
  columns[participant.numCol]?

def updateStats (queryStats : List (List Stats)) (rel : Nat)
    (change : List Stats → Option (List Stats)) : Option (List (List Stats)) := do
  let columns ← queryStats[rel]?
  let columns ← change columns
  some (queryStats.set rel columns)

def runFilter (estimator : Estimator) (queryStats : List (List Stats)) (filter : Filter) :
    Option (List (List Stats)) :=
  updateStats queryStats filter.participant.rel (filterColumns estimator filter)

/-- `rel1 == rel2 && col1 != col2`. -/
def SameRelation (join : Join) : Prop :=
  join.participant1.rel = join.participant2.rel ∧
    join.participant1.numCol ≠ join.participant2.numCol

instance (join : Join) : Decidable (SameRelation join) := inferInstanceAs (Decidable (_ ∧ _))

structure JoinFilters where
  queryStats : List (List Stats)
  priorities : List Nat
  p : Nat
  deriving DecidableEq, Repr

def runSameRelation (estimator : Estimator) (joins : List Join) (state : JoinFilters)
    (i : Nat) : Option JoinFilters := do
  let join ← joins[i]?
  if SameRelation join then do
    let priorities ← write state.priorities state.p i
    let queryStats ← updateStats state.queryStats join.participant1.rel
      (sameRelationColumns estimator join.participant1.numCol join.participant2.numCol)
    some { queryStats, priorities, p := state.p + 1 }
  else some state

def executeFilterPredicates (estimator : Estimator) (q : Query) : Option Query := do
  let queryStats ← q.filters.foldlM (runFilter estimator) q.queryStats
  let state ← (List.range q.numOfJoins).foldlM (runSameRelation estimator q.joins)
    ⟨queryStats, q.priorities, 0⟩
  some { q with queryStats := state.queryStats, priorities := state.priorities }

end JoinOperator.Planner
