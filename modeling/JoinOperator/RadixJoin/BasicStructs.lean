import Mathlib.Algebra.Ring.Nat
import Mathlib.Data.Nat.Log

/-! # Data of the radix hash join

Numbers of type `myint_t` are natural numbers. Keys and payloads are compared
and hashed only, and a sum of sizes counts elements of arrays in memory, so it
stays below `2 ^ 64`; a subtraction that can go below zero is `wrapSub`. An
array is the list of its elements. Reading outside of an array, following a
null pointer and not terminating are the outcome `none`.
-/

namespace JoinOperator.RadixJoin

def cacheSize : Nat := 65536

def availableCacheSize : Nat := cacheSize * 20 / 21

def firstReordered : Nat := 100

def numbOfThreads : Nat := 7

def wrapSub (a b : Nat) : Nat :=
  if b ≤ a then a - b else 2 ^ 64 - (b - a)

theorem wrapSub_of_le {a b : Nat} (le : b ≤ a) : wrapSub a b = a - b :=
  if_pos le

def write {α : Type} (array : List α) (index : Nat) (value : α) : Option (List α) :=
  if index < array.length then some (array.set index value) else none

theorem write_of_lt {α : Type} {array : List α} {index : Nat} (bound : index < array.length)
    (value : α) : write array index value = some (array.set index value) :=
  if_pos bound

structure Tuple where
  key : Nat
  payload : Nat
  deriving DecidableEq, Repr

structure RowTuple where
  rowR : Nat
  rowS : Nat
  deriving DecidableEq, Repr

/-- A column to be joined. `realRel` and `realCol` name the base column its
keys come from. No array takes `2 ^ 63` bytes, and a tuple takes 16. -/
structure Relation where
  tuples : List Tuple
  realRel : Nat
  realCol : Nat
  fits : tuples.length < 2 ^ 59
  deriving DecidableEq, Repr

def Relation.size (relation : Relation) : Nat := relation.tuples.length

structure PSumTuple where
  h1Res : Nat
  offset : Nat
  deriving DecidableEq, Repr

/-- `psum` holds the entries written so far, which may be fewer than the
`psumSize` entries that were allocated. -/
structure PSumArray where
  psum : List PSumTuple
  psumSize : Nat
  deriving DecidableEq, Repr

/-- Only the tuples of `rel` are set. -/
structure ReorderedR where
  pSumArr : PSumArray
  rel : List Tuple
  deriving DecidableEq, Repr

/-- One index of a (part of a) bucket. The pointer `next` is the rest of the
list that the index is in. -/
structure RelationIndex where
  chain : List Nat
  buckets : List Nat
  rel : Option (List Tuple)
  key : Nat
  hash2 : Nat
  deriving DecidableEq, Repr

/-- Every cell of the array is followed by the indexes reached through `next`. -/
structure IndexArray where
  indexes : List (List RelationIndex)
  deriving DecidableEq, Repr

def IndexArray.size (indArr : IndexArray) : Nat := indArr.indexes.length

end JoinOperator.RadixJoin
