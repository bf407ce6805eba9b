import JoinOperator.Foundation.Words
import JoinOperator.QueryText.ConstructQuery

/-! # The text of a query -/

namespace JoinOperator.QueryText

open Foundation

/-- A decimal numeral as it is written, which may have leading zeros. -/
structure Numeral where
  digits : List Char
  nonempty : digits ≠ []
  areDigits : ∀ c ∈ digits, c.isDigit = true

def Numeral.ofNat (value : Nat) : Numeral :=
  ⟨numeral value, numeral_ne_nil value, fun _ => isDigit_of_mem_numeral⟩

theorem Numeral.ne_of_mem {written : Numeral} {c : Char} (member : c ∈ written.digits)
    {other : Char} (noDigit : other.isDigit = false) : c ≠ other := by
  rintro rfl
  rw [written.areDigits c member] at noDigit
  cases noDigit

/-- `r.c`, with its numbers as they are written or as numbers. -/
structure ColumnName (Number : Type) where
  rel : Number
  col : Number
  deriving DecidableEq, Repr

inductive Predicate (Number : Type) where
  | join (left right : ColumnName Number)
  | filter (participant : ColumnName Number) (op : Op) (constant : Number)
  deriving DecidableEq, Repr

structure AbstractQuery (Number : Type) where
  rels : List Number
  predicates : List (Predicate Number)
  sums : List (ColumnName Number)
  someRels : rels ≠ []
  somePredicates : predicates ≠ []
  someSums : sums ≠ []
  deriving DecidableEq, Repr

def ColumnName.map {Number Other : Type} (write : Number → Other) (name : ColumnName Number) :
    ColumnName Other :=
  ⟨write name.rel, write name.col⟩

namespace Predicate

variable {Number Other : Type}

def map (write : Number → Other) : Predicate Number → Predicate Other
  | .join left right => .join (left.map write) (right.map write)
  | .filter participant op constant => .filter (participant.map write) op (write constant)

def asJoin : Predicate Number → Option (ColumnName Number × ColumnName Number)
  | .join left right => some (left, right)
  | .filter .. => none

def asFilter : Predicate Number → Option (ColumnName Number × Op × Number)
  | .join .. => none
  | .filter participant op constant => some (participant, op, constant)

end Predicate

namespace AbstractQuery

variable {Number Other : Type}

def map (write : Number → Other) (query : AbstractQuery Number) : AbstractQuery Other where
  rels := query.rels.map write
  predicates := query.predicates.map (Predicate.map write)
  sums := query.sums.map (ColumnName.map write)
  someRels := mt List.map_eq_nil_iff.mp query.someRels
  somePredicates := mt List.map_eq_nil_iff.mp query.somePredicates
  someSums := mt List.map_eq_nil_iff.mp query.someSums

def joins (query : AbstractQuery Number) : List (ColumnName Number × ColumnName Number) :=
  query.predicates.filterMap Predicate.asJoin

def filters (query : AbstractQuery Number) : List (ColumnName Number × Op × Number) :=
  query.predicates.filterMap Predicate.asFilter

def counts (query : AbstractQuery Number) : Counts :=
  ⟨query.rels.length, query.joins.length, query.sums.length, query.filters.length⟩

end AbstractQuery

def opChar : Op → Char
  | .less => '<'
  | .greater => '>'
  | .equal => '='

def ColumnName.text (name : ColumnName Numeral) : List Char :=
  name.rel.digits ++ '.' :: name.col.digits

def Predicate.text : Predicate Numeral → List Char
  | .join left right => left.text ++ '=' :: right.text
  | .filter participant op constant => participant.text ++ opChar op :: constant.digits

/-- The line of a query, without its newline. -/
def AbstractQuery.text (query : AbstractQuery Numeral) : List Char :=
  delimited ' ' '|' (query.rels.map Numeral.digits) ++
    (delimited '&' '|' (query.predicates.map Predicate.text) ++
      separated ' ' (query.sums.map ColumnName.text))

/-- A self join of one relation with a filter, `0 0|0.0=1.0&0.0<9|1.0`. -/
def selfJoinQuery : AbstractQuery Nat :=
  ⟨[0, 0], [.join ⟨0, 0⟩ ⟨1, 0⟩, .filter ⟨0, 0⟩ .less 9], [⟨1, 0⟩], by simp, by simp, by simp⟩

end JoinOperator.QueryText
