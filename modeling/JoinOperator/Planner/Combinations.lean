import Mathlib.Data.List.Sublists
import Mathlib.Data.Nat.Choose.Basic

/-! # Combinations of relations

A set of relations is the string of their numbers. The strings of the sets of
one size are listed in lexicographic order.
-/

namespace JoinOperator.Planner

/-- `sprintf` with the format `%ld`. -/
def decimal (n : Nat) : List Char := Nat.toDigits 10 n

/-- The loop of `combinationUtil` with `remaining = r - index`, on an `arr` that
holds the numbers below `n`. Returns what becomes of `data`, call by call. -/
def combinationUtil (n : Nat) : Nat → List Nat → Nat → List (List Nat)
  | 0, data, _ => [data]
  | remaining + 1, data, start =>
      ((List.range' start (n - start)).takeWhile fun i => n - 1 - i + 1 ≥ remaining + 1).flatMap
        fun i => combinationUtil n remaining (data ++ [i]) (i + 1)

def getCombination (n r : Nat) : List (List Char) :=
  (combinationUtil n r [] 0).map fun data => data.flatMap decimal

/-- Products of unsigned 64-bit numbers. -/
def factorial : Nat → Nat
  | 0 => 1
  | n + 1 => (n + 1) * factorial n % 2 ^ 64

end JoinOperator.Planner
