import JoinOperator.Foundation.Loop
import JoinOperator.QueryText.ReadParts
import Mathlib.Data.List.Forall2
import Mathlib.Data.List.TakeWhile

/-! # The round trip of a query -/

namespace JoinOperator.QueryText

open Foundation

/-- `atoi` returns the value of a numeral that fits in an `int`. -/
def ReadsNumerals (atoi : List Char → Int) : Prop :=
  ∀ written : Numeral, numeralValue written.digits < 2 ^ 31 →
    atoi written.digits = numeralValue written.digits

theorem ReadsNumerals.number {atoi : List Char → Int} (reads : ReadsNumerals atoi)
    {written : Numeral} (fits : numeralValue written.digits < 2 ^ 31) :
    number atoi written.digits = numeralValue written.digits := by
  rw [QueryText.number, reads written fits]
  omega

theorem ReadsNumerals.number_ofNat {atoi : List Char → Int} (reads : ReadsNumerals atoi)
    {value : Nat} (fits : value < 2 ^ 31) :
    QueryText.number atoi (Numeral.ofNat value).digits = value := by
  have isValue : numeralValue (Numeral.ofNat value).digits = value := numeralValue_numeral value
  rw [reads.number (isValue.symm ▸ fits), isValue]

/-- The column exists in its relation, and its numbers fit in an `int`. -/
structure ColumnName.Valid (relArr : List Relationsheep) (rels : List Nat)
    (name : ColumnName Nat) : Prop where
  fits : name.rel < 2 ^ 31 ∧ name.col < 2 ^ 31
  column : ∃ real relation, rels[name.rel]? = some real ∧ relArr[real]? = some relation ∧
    name.col < relation.cols

def Predicate.Valid (relArr : List Relationsheep) (rels : List Nat) :
    Predicate Nat → Prop
  | .join left right => left.Valid relArr rels ∧ right.Valid relArr rels
  | .filter participant _ constant => participant.Valid relArr rels ∧ constant < 2 ^ 31

structure AbstractQuery.Valid (relArr : List Relationsheep) (query : AbstractQuery Nat) :
    Prop where
  rels : ∀ real ∈ query.rels, real < 2 ^ 31 ∧ real < relArr.length
  predicates : ∀ predicate ∈ query.predicates, predicate.Valid relArr query.rels
  sums : ∀ sum ∈ query.sums, sum.Valid relArr query.rels

/-- Each variable of a participant was set once. The base relation and column
are set in joins only. -/
def ColumnName.Stored (relArr : List Relationsheep) (rels : List Nat) (isJoin : Bool)
    (name : ColumnName Nat) (cells : ColRelCells) : Prop :=
  ∃ real relation values, rels[name.rel]? = some real ∧ relArr[real]? = some relation ∧
    relation.pointToCols[name.col]? = some values ∧
    cells = ⟨if isJoin then [real] else [], if isJoin then [name.col] else [], [name.rel],
      [name.col], [values], [relation.rows]⟩

def StoredJoin (relArr : List Relationsheep) (rels : List Nat)
    (join : ColumnName Nat × ColumnName Nat) (cells : JoinCells) : Prop :=
  join.1.Stored relArr rels true cells.participant1 ∧
    join.2.Stored relArr rels true cells.participant2

def StoredFilter (relArr : List Relationsheep) (rels : List Nat)
    (filter : ColumnName Nat × Op × Nat) (cells : FilterCells) : Prop :=
  filter.1.Stored relArr rels false cells.participant ∧ cells.op = [filter.2.1] ∧
    cells.value = [filter.2.2]

/-- The parts of the query in their order, with every variable set once. -/
structure Stores (relArr : List Relationsheep) (query : AbstractQuery Nat)
    (constructed : ConstructedQuery) : Prop where
  rels : constructed.rels = query.rels.map fun real => [real]
  queryStats : List.Forall₂ (fun real columns => ∃ relation, relArr[real]? = some relation ∧
    columns = relation.statsArray) query.rels constructed.queryStats
  joins : List.Forall₂ (StoredJoin relArr query.rels) query.joins constructed.joins
  filters : List.Forall₂ (StoredFilter relArr query.rels) query.filters constructed.filters
  sums : List.Forall₂ (ColumnName.Stored relArr query.rels false) query.sums constructed.sums
  priorities : constructed.priorities = List.replicate query.joins.length (2 ^ 64 - 1)

section RoundTrip

variable {atoi : List Char → Int} {relArr : List Relationsheep} {rels : List Nat}

theorem relationOf_eq {rel real : Nat} {relation : Relationsheep}
    (isReal : rels[rel]? = some real) (isRelation : relArr[real]? = some relation) :
    relationOf relArr (rels.map fun real => [real]) rel = .ok (real, relation) := by
  rw [relationOf, List.getElem?_map, isReal]
  simp only [Option.map_some, require, ok_bind, load, List.getLast?_singleton, isRelation]

theorem fillParticipant_eq (reads : ReadsNumerals atoi) (isJoin : Bool) {name : ColumnName Nat}
    (valid : name.Valid relArr rels) :
    ∃ cells, fillParticipant atoi relArr (rels.map fun real => [real]) isJoin
        (name.map Numeral.ofNat) = .ok cells ∧ name.Stored relArr rels isJoin cells := by
  rcases valid.column with ⟨real, relation, isReal, isRelation, below⟩
  have isValues := List.getElem?_eq_getElem (show name.col < relation.pointToCols.length from below)
  refine ⟨_, ?_, real, relation, _, isReal, isRelation, isValues, rfl⟩
  have isRel := reads.number_ofNat valid.fits.1
  have isCol := reads.number_ofNat valid.fits.2
  simp only [fillParticipant, ColumnName.map, fillRel, isRel, relationOf_eq isReal isRelation,
    ok_bind, fillCol, isCol, load, ColRelCells.unset, List.nil_append, List.getLast?_singleton,
    require, isValues]

theorem fillSum_eq (reads : ReadsNumerals atoi) {sum : ColumnName Nat}
    (valid : sum.Valid relArr rels) :
    ∃ cells, fillSum atoi relArr (rels.map fun real => [real])
        { ColRelCells.unset with rel := [number atoi (Numeral.ofNat sum.rel).digits] }
        (Numeral.ofNat sum.col).digits = .ok cells ∧ sum.Stored relArr rels false cells := by
  rcases valid.column with ⟨real, relation, isReal, isRelation, below⟩
  have isValues := List.getElem?_eq_getElem (show sum.col < relation.pointToCols.length from below)
  refine ⟨_, ?_, real, relation, _, isReal, isRelation, isValues, rfl⟩
  simp only [fillSum, reads.number_ofNat valid.fits.1, reads.number_ofNat valid.fits.2, load,
    List.getLast?_singleton, require, ok_bind, relationOf_eq isReal isRelation, isValues,
    ColRelCells.unset, List.nil_append]
  rfl

theorem storePredicates_eq (reads : ReadsNumerals atoi) {predicates : List (Predicate Nat)}
    (valid : ∀ predicate ∈ predicates, predicate.Valid relArr rels) {parts : Parts}
    (isRels : parts.rels = rels.map fun real => [real]) :
    ∃ joins filters, (predicates.map (Predicate.map Numeral.ofNat)).foldlM
        (Parts.storePredicate atoi relArr) parts =
          .ok { parts with joins := parts.joins ++ joins, filters := parts.filters ++ filters } ∧
      List.Forall₂ (StoredJoin relArr rels) (predicates.filterMap Predicate.asJoin) joins ∧
      List.Forall₂ (StoredFilter relArr rels) (predicates.filterMap Predicate.asFilter)
        filters := by
  induction predicates generalizing parts with
  | nil =>
      refine ⟨[], [], ?_, .nil, .nil⟩
      rw [List.append_nil, List.append_nil]
      rfl
  | cons predicate predicates induction =>
      have first := valid predicate List.mem_cons_self
      have others := fun other member => valid other (List.mem_cons_of_mem _ member)
      rw [List.map_cons, List.foldlM_cons]
      cases predicate with
      | join left right =>
          rcases fillParticipant_eq reads true first.1 with ⟨participant1, filled1, stored1⟩
          rcases fillParticipant_eq reads true first.2 with ⟨participant2, filled2, stored2⟩
          let next : Parts := { parts with joins := parts.joins ++ [⟨participant1, participant2⟩] }
          rcases induction others (show next.rels = _ from isRels) with
            ⟨joins, filters, rest, restJoins, restFilters⟩
          refine ⟨⟨participant1, participant2⟩ :: joins, filters, ?_,
            .cons ⟨stored1, stored2⟩ restJoins, restFilters⟩
          simp only [Predicate.map, Parts.storePredicate, isRels, filled1, filled2, ok_bind]
          rw [← isRels]
          simpa [next] using rest
      | filter participant op constant =>
          rcases fillParticipant_eq reads false first.1 with ⟨cells, filled, stored⟩
          let next : Parts := { parts with filters := parts.filters ++ [⟨cells, [op], [constant]⟩] }
          rcases induction others (show next.rels = _ from isRels) with
            ⟨joins, filters, rest, restJoins, restFilters⟩
          refine ⟨joins, ⟨cells, [op], [constant]⟩ :: filters, ?_, restJoins,
            .cons ⟨stored, rfl, rfl⟩ restFilters⟩
          simp only [Predicate.map, Parts.storePredicate, isRels, filled, ok_bind,
            reads.number_ofNat first.2]
          rw [← isRels]
          simpa [next] using rest

theorem storeSums_eq (reads : ReadsNumerals atoi) {sums : List (ColumnName Nat)}
    (valid : ∀ sum ∈ sums, sum.Valid relArr rels) {parts : Parts}
    (isRels : parts.rels = rels.map fun real => [real]) :
    ∃ cells, (sums.map (ColumnName.map Numeral.ofNat)).foldlM (Parts.storeSum atoi relArr)
        parts = .ok { parts with sums := parts.sums ++ cells } ∧
      List.Forall₂ (ColumnName.Stored relArr rels false) sums cells := by
  induction sums generalizing parts with
  | nil =>
      refine ⟨[], ?_, .nil⟩
      rw [List.append_nil]
      rfl
  | cons sum sums induction =>
      rcases fillSum_eq reads (valid sum List.mem_cons_self) with ⟨cells, filled, stored⟩
      let next : Parts := { parts with sums := parts.sums ++ [cells] }
      rcases induction (fun other member => valid other (List.mem_cons_of_mem _ member))
        (show next.rels = _ from isRels) with ⟨others, rest, restStored⟩
      refine ⟨cells :: others, ?_, .cons stored restStored⟩
      rw [List.map_cons, List.foldlM_cons]
      simp only [ColumnName.map, Parts.storeSum, isRels, filled, ok_bind]
      rw [← isRels]
      simpa [next] using rest

end RoundTrip

def Loaded (relArr : List Relationsheep) : Prop :=
  ∀ relation ∈ relArr, relation.statsArray.length = relation.cols

theorem mapM_ok {α β : Type} {body : α → Except Fault β} {Yields : α → β → Prop}
    {items : List α} (yields : ∀ item ∈ items, ∃ value, body item = .ok value ∧
      Yields item value) :
    ∃ values, items.mapM body = .ok values ∧ List.Forall₂ Yields items values := by
  induction items with
  | nil => exact ⟨[], rfl, .nil⟩
  | cons item items induction =>
      rcases yields item List.mem_cons_self with ⟨value, ran, first⟩
      rcases induction fun other member => yields other (List.mem_cons_of_mem _ member) with
        ⟨values, rest, others⟩
      refine ⟨value :: values, ?_, .cons first others⟩
      rw [List.mapM_cons, ran, rest]
      rfl

theorem mapM_require {α β : Type} (read : α → Option β) (items : List α) :
    items.mapM (fun item => require (read item)) = require (items.mapM read) := by
  induction items with
  | nil => rfl
  | cons item items induction =>
      rw [List.mapM_cons, List.mapM_cons, induction]
      cases read item with
      | none => rfl
      | some value =>
          cases items.mapM read with
          | none => rfl
          | some values => rfl

theorem copyStats_eq {relArr : List Relationsheep} (loaded : Loaded relArr) {rels : List Nat}
    {rel real : Nat} {relation : Relationsheep} (isReal : rels[rel]? = some real)
    (isRelation : relArr[real]? = some relation) :
    copyStats relArr (rels.map fun real => [real]) rel = .ok relation.statsArray := by
  have length := loaded relation (List.mem_of_getElem? isRelation)
  rw [copyStats, relationOf_eq isReal isRelation, ok_bind]
  dsimp only
  rw [← length, mapM_require, mapM_getElem?]
  rfl

theorem AbstractQuery.counts_map {Number Other : Type} (write : Number → Other)
    (query : AbstractQuery Number) : (query.map write).counts = query.counts := by
  have joins (predicate : Predicate Number) :
      (predicate.map write).asJoin = predicate.asJoin.map fun join =>
        (join.1.map write, join.2.map write) := by
    cases predicate <;> rfl
  have filters (predicate : Predicate Number) :
      (predicate.map write).asFilter = predicate.asFilter.map fun filter =>
        (filter.1.map write, filter.2.1, write filter.2.2) := by
    cases predicate <;> rfl
  simp only [AbstractQuery.counts, AbstractQuery.map, AbstractQuery.joins,
    AbstractQuery.filters, List.length_map, List.filterMap_map, Function.comp_def, joins,
    filters, ← List.map_filterMap]

theorem AbstractQuery.stored_ofNat {atoi : List Char → Int} (reads : ReadsNumerals atoi)
    {relArr : List Relationsheep} {query : AbstractQuery Nat} (valid : query.Valid relArr) :
    ∃ filters joins sums, (query.map Numeral.ofNat).stored atoi relArr =
        .ok ⟨query.rels.map fun real => [real], filters, joins, sums⟩ ∧
      List.Forall₂ (StoredFilter relArr query.rels) query.filters filters ∧
      List.Forall₂ (StoredJoin relArr query.rels) query.joins joins ∧
      List.Forall₂ (ColumnName.Stored relArr query.rels false) query.sums sums := by
  let allRels : Parts := { Parts.none with rels := query.rels.map fun real => [real] }
  have isRels : (query.map Numeral.ofNat).rels.foldl (Parts.storeRel atoi) .none = allRels := by
    rw [storeRels_eq]
    simp only [map, List.map_map, allRels, Parts.none, List.nil_append]
    congr 1
    apply List.map_congr_left
    intro real member
    rw [Function.comp_apply, reads.number_ofNat (valid.rels real member).1]
  rcases storePredicates_eq reads valid.predicates (show allRels.rels = _ from rfl) with
    ⟨joins, filters, predicatesRan, areJoins, areFilters⟩
  let allPredicates : Parts :=
    { allRels with joins := allRels.joins ++ joins, filters := allRels.filters ++ filters }
  rcases storeSums_eq reads valid.sums (show allPredicates.rels = _ from rfl) with
    ⟨sums, sumsRan, areSums⟩
  refine ⟨filters, joins, sums, ?_, areFilters, areJoins, areSums⟩
  rw [stored, isRels]
  exact (congrArg (· >>= _) predicatesRan).trans sumsRan

theorem copyAllStats_eq {relArr : List Relationsheep} (loaded : Loaded relArr) {rels : List Nat}
    (inside : ∀ real ∈ rels, real < relArr.length) : ∃ queryStats,
    (List.range rels.length).mapM (copyStats relArr (rels.map fun real => [real])) =
        .ok queryStats ∧
      List.Forall₂ (fun real columns => ∃ relation, relArr[real]? = some relation ∧
        columns = relation.statsArray) rels queryStats := by
  have copies : ∀ rel ∈ List.range rels.length, ∃ columns,
      copyStats relArr (rels.map fun real => [real]) rel = .ok columns ∧
        ∃ real relation, rels[rel]? = some real ∧ relArr[real]? = some relation ∧
          columns = relation.statsArray := by
    intro rel member
    have isReal := List.getElem?_eq_getElem (List.mem_range.mp member)
    have isRelation := List.getElem?_eq_getElem (inside _ (List.mem_of_getElem? isReal))
    exact ⟨_, copyStats_eq loaded isReal isRelation, _, _, isReal, isRelation, rfl⟩
  rcases mapM_ok copies with ⟨queryStats, copied, areCopies⟩
  refine ⟨queryStats, copied, ?_⟩
  have length := areCopies.length_eq
  rw [List.length_range] at length
  rw [List.forall₂_iff_get] at areCopies ⊢
  refine ⟨length, fun rel below bound => ?_⟩
  rcases areCopies.2 rel (by rwa [List.length_range]) bound with
    ⟨real, relation, isReal, isRelation, isCopy⟩
  rw [List.get_eq_getElem, List.getElem_range, List.getElem?_eq_getElem below,
    Option.some_inj] at isReal
  rw [← isReal] at isRelation
  exact ⟨relation, isRelation, isCopy⟩

theorem constructQuery_of_stored {atoi : List Char → Int} {relArr : List Relationsheep}
    (loaded : Loaded relArr) {written : AbstractQuery Numeral} {query : AbstractQuery Nat}
    (sameCounts : query.counts = written.counts) (valid : query.Valid relArr)
    {filters : List FilterCells} {joins : List JoinCells} {sums : List ColRelCells}
    (stored : written.stored atoi relArr =
      .ok ⟨query.rels.map fun real => [real], filters, joins, sums⟩)
    (areFilters : List.Forall₂ (StoredFilter relArr query.rels) query.filters filters)
    (areJoins : List.Forall₂ (StoredJoin relArr query.rels) query.joins joins)
    (areSums : List.Forall₂ (ColumnName.Stored relArr query.rels false) query.sums sums) :
    ∃ constructed, constructQuery atoi relArr written.text written.counts = .ok constructed ∧
      Stores relArr query constructed := by
  rcases constructParts_text atoi relArr written with ⟨mark, read⟩
  rcases AbstractQuery.stored_spec atoi relArr stored with
    ⟨relsFull, joinsFull, sumsFull, filtersFull⟩
  rw [stored, ok_bind] at read
  simp only [Parts.construction, filled_of_length relsFull, filled_of_length joinsFull,
    filled_of_length sumsFull, filled_of_length filtersFull] at read
  rcases copyAllStats_eq loaded fun real member => (valid.rels real member).2 with
    ⟨queryStats, copied, areCopies⟩
  refine ⟨⟨query.rels.map fun real => [real], queryStats, filters, joins, sums,
    List.replicate query.joins.length (2 ^ 64 - 1)⟩, ?_, rfl, areCopies, areJoins, areFilters,
    areSums, rfl⟩
  rw [constructQuery, read, ok_bind, ← sameCounts]
  exact congrArg (· >>= _) copied

theorem constructQuery_text {atoi : List Char → Int} (reads : ReadsNumerals atoi)
    {relArr : List Relationsheep} (loaded : Loaded relArr) {query : AbstractQuery Nat}
    (valid : query.Valid relArr) :
    ∃ constructed, constructQuery atoi relArr (query.map Numeral.ofNat).text query.counts =
      .ok constructed ∧ Stores relArr query constructed := by
  rcases AbstractQuery.stored_ofNat reads valid with
    ⟨filters, joins, sums, stored, areFilters, areJoins, areSums⟩
  have sameCounts := AbstractQuery.counts_map Numeral.ofNat query
  rw [← sameCounts]
  exact constructQuery_of_stored loaded sameCounts.symm valid stored areFilters areJoins areSums

def toInt (value : Nat) : Int := (Int.ofNat value).bmod (2 ^ 32)

/-- The usual `atoi` on a text that starts with a digit: the value as a `long`,
converted to an `int`. -/
def longAtoi (text : List Char) : Int :=
  toInt (min (numeralValue (text.takeWhile Char.isDigit)) (2 ^ 63 - 1))

theorem longAtoi_digits (written : Numeral) :
    longAtoi written.digits = toInt (min (numeralValue written.digits) (2 ^ 63 - 1)) := by
  have all : written.digits.takeWhile Char.isDigit = written.digits :=
    List.takeWhile_eq_self_iff.mpr written.areDigits
  rw [longAtoi, all]

theorem toInt_of_lt {value : Nat} (fits : value < 2 ^ 31) : toInt value = value := by
  apply Int.bmod_eq_of_le
  · change _ ≤ (value : Int)
    omega
  · change (value : Int) < _
    omega

theorem longAtoi_readsNumerals : ReadsNumerals longAtoi := by
  intro written fits
  have small : numeralValue written.digits ≤ 2 ^ 63 - 1 := by
    omega
  rw [longAtoi_digits, Nat.min_eq_left small, toInt_of_lt fits]

theorem oneTable_rectangular : ∀ col ∈ [[7]], col.length = 1 :=
  List.forall_mem_singleton.mpr rfl

def oneTable : List Relationsheep :=
  [⟨1, [[7]], [⟨7, 7, 1, 1, [1]⟩], oneTable_rectangular⟩]

theorem selfJoinQuery_valid : selfJoinQuery.Valid oneTable := by
  have column : ∀ rel < 2, (⟨rel, 0⟩ : ColumnName Nat).Valid oneTable [0, 0] := by
    intro rel below
    refine ⟨⟨show rel < 2 ^ 31 by omega, show 0 < 2 ^ 31 by omega⟩, 0, oneTable[0], ?_, rfl,
      show 0 < 1 by omega⟩
    rcases rel with _ | _ | rel
    · rfl
    · rfl
    · omega
  refine ⟨by decide, ?_, List.forall_mem_singleton.mpr (column 1 (by omega))⟩
  simp only [selfJoinQuery, List.forall_mem_cons, Predicate.Valid]
  exact ⟨⟨column 0 (by omega), column 1 (by omega)⟩, ⟨column 0 (by omega), by omega⟩,
    List.forall_mem_nil _⟩

theorem constructQuery_text_selfJoin : ∃ constructed,
    constructQuery longAtoi oneTable (selfJoinQuery.map Numeral.ofNat).text
      selfJoinQuery.counts = .ok constructed ∧
        Stores oneTable selfJoinQuery constructed :=
  constructQuery_text longAtoi_readsNumerals (List.forall_mem_singleton.mpr rfl)
    selfJoinQuery_valid

end JoinOperator.QueryText
