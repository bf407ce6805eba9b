import Mathlib.Data.Nat.Digits.Defs

/-! # Numbers in a file

A number is stored in a fixed number of bytes, the lowest one first. What can be read is exactly
what was written.
-/

namespace JoinOperator.Foundation

def bytesOf : Nat → Nat → List UInt8
  | 0, _ => []
  | width + 1, value => UInt8.ofNat value :: bytesOf width (value / 256)

def numberOf (bytes : List UInt8) : Nat := Nat.ofDigits 256 (bytes.map UInt8.toNat)

/-- A number of `width` bytes, and the bytes behind it. -/
def readNumber (width : Nat) (bytes : List UInt8) : Option (Nat × List UInt8) :=
  if width ≤ bytes.length then some (numberOf (bytes.take width), bytes.drop width) else none

def readNumbers (width : Nat) : Nat → List UInt8 → Option (List Nat × List UInt8)
  | 0, bytes => some ([], bytes)
  | count + 1, bytes => do
      let (value, behind) ← readNumber width bytes
      let (values, rest) ← readNumbers width count behind
      some (value :: values, rest)

section Numbers

variable {width value count : Nat} {values : List Nat} {bytes rest : List UInt8}

theorem length_bytesOf (width value : Nat) : (bytesOf width value).length = width := by
  induction width generalizing value with
  | zero => rfl
  | succ width induction => rw [bytesOf, List.length_cons, induction]

theorem numberOf_cons (byte : UInt8) (bytes : List UInt8) :
    numberOf (byte :: bytes) = byte.toNat + 256 * numberOf bytes := by
  rw [numberOf, List.map_cons, Nat.ofDigits_cons]
  rfl

theorem numberOf_bytesOf (below : value < 256 ^ width) : numberOf (bytesOf width value) = value := by
  induction width generalizing value with
  | zero =>
      rw [Nat.pow_zero] at below
      rw [Nat.lt_one_iff.mp below]
      rfl
  | succ width induction =>
      have next : value / 256 < 256 ^ width := by
        rw [Nat.div_lt_iff_lt_mul (by decide)]
        rwa [Nat.pow_succ] at below
      have lowest : (UInt8.ofNat value).toNat = value % 256 := UInt8.toNat_ofNat'
      rw [bytesOf, numberOf_cons, induction next, lowest]
      exact Nat.mod_add_div value 256

theorem bytesOf_numberOf (bytes : List UInt8) : bytesOf bytes.length (numberOf bytes) = bytes := by
  induction bytes with
  | nil => rfl
  | cons byte bytes induction =>
      have small := byte.toNat_lt
      have lowest : UInt8.ofNat (byte.toNat + 256 * numberOf bytes) = byte := by
        apply UInt8.toNat_inj.mp
        rw [UInt8.toNat_ofNat']
        omega
      have others : (byte.toNat + 256 * numberOf bytes) / 256 = numberOf bytes := by
        omega
      rw [List.length_cons, bytesOf, numberOf_cons, lowest, others, induction]

theorem numberOf_lt (bytes : List UInt8) : numberOf bytes < 256 ^ bytes.length := by
  have below := Nat.ofDigits_lt_base_pow_length (by decide : 1 < 256)
    (show ∀ digit ∈ bytes.map UInt8.toNat, digit < 256 by
      intro digit member
      rcases List.mem_map.mp member with ⟨byte, _, rfl⟩
      exact byte.toNat_lt)
  rwa [List.length_map] at below

theorem readNumber_eq_some :
    readNumber width bytes = some (value, rest) ↔
      value < 256 ^ width ∧ bytes = bytesOf width value ++ rest := by
  constructor
  · intro isRead
    rw [readNumber] at isRead
    split at isRead
    · next enough =>
        cases isRead
        have length : (bytes.take width).length = width := by
          rw [List.length_take, Nat.min_eq_left enough]
        have below := numberOf_lt (bytes.take width)
        have same := bytesOf_numberOf (bytes.take width)
        rw [length] at below same
        exact ⟨below, by rw [same, List.take_append_drop]⟩
    · cases isRead
  · intro isWritten
    rcases isWritten with ⟨below, rfl⟩
    have length := length_bytesOf width value
    have enough : width ≤ (bytesOf width value ++ rest).length := by
      rw [List.length_append, length]
      exact Nat.le_add_right _ _
    rw [readNumber, if_pos enough, List.take_left' length, List.drop_left' length,
      numberOf_bytesOf below]

theorem readNumbers_eq_some :
    readNumbers width count bytes = some (values, rest) ↔
      values.length = count ∧ (∀ value ∈ values, value < 256 ^ width) ∧
        bytes = values.flatMap (bytesOf width) ++ rest := by
  induction count generalizing bytes values with
  | zero =>
      rw [readNumbers]
      constructor
      · intro isRead
        cases isRead
        exact ⟨rfl, nofun, rfl⟩
      · intro isWritten
        rcases isWritten with ⟨empty, _, rfl⟩
        rw [List.length_eq_zero_iff.mp empty]
        rfl
  | succ count induction =>
      constructor
      · intro isRead
        rcases Option.bind_eq_some_iff.mp isRead with ⟨⟨value, behind⟩, first, isRead⟩
        rcases Option.bind_eq_some_iff.mp isRead with ⟨⟨others, rest⟩, areRead, isRead⟩
        cases isRead
        rcases readNumber_eq_some.mp first with ⟨below, rfl⟩
        rcases induction.mp areRead with ⟨length, small, rfl⟩
        refine ⟨congrArg (· + 1) length, List.forall_mem_cons.mpr ⟨below, small⟩, ?_⟩
        rw [List.flatMap_cons, List.append_assoc]
      · intro isWritten
        rcases isWritten with ⟨length, small, rfl⟩
        cases values with
        | nil => cases length
        | cons value others =>
            rcases List.forall_mem_cons.mp small with ⟨below, smallOthers⟩
            have first : readNumber width
                ((value :: others).flatMap (bytesOf width) ++ rest) =
                some (value, others.flatMap (bytesOf width) ++ rest) := by
              apply readNumber_eq_some.mpr
              exact ⟨below, by rw [List.flatMap_cons, List.append_assoc]⟩
            have areRead := induction.mpr ⟨Nat.succ.inj length, smallOthers, rfl⟩
            simp only [readNumbers, first, areRead, Option.bind_eq_bind, Option.bind_some]

end Numbers

end JoinOperator.Foundation
