import JoinOperator.PipeIO.ReadPipe
import Mathlib.Algebra.Ring.Nat

/-! # Room in the allocation of the input

`lenInput` is doubled when the bytes of a read do not fit behind the input. The
test has no room for the terminator that `strcat` writes behind them, so that
the allocation is too small when the input fills it exactly.
-/

namespace JoinOperator.PipeIO

namespace InputText

/-- `lenInput` after the test, for a read of so many bytes. -/
def grown (input : InputText) (bytes : Nat) : Nat :=
  if bytes + input.inputStr.length > input.lenInput then input.lenInput * 2 + 1
  else input.lenInput

/-- The input after a read, when the string in the buffer is what was read. -/
def accumulate (input : InputText) (chunk : List Char) : InputText :=
  ⟨input.grown chunk.length, input.inputStr ++ chunk⟩

/-- Before each `strcat` there is room for the input, for the bytes just read
and for the terminator. -/
def HasRoom : InputText → List (List Char) → Prop
  | _, [] => True
  | input, chunk :: chunks =>
      input.inputStr.length + chunk.length + 1 ≤ input.grown chunk.length ∧
        (input.accumulate chunk).HasRoom chunks

instance decidableHasRoom : (input : InputText) → (chunks : List (List Char)) →
    Decidable (input.HasRoom chunks)
  | _, [] => .isTrue trivial
  | input, chunk :: chunks =>
      @instDecidableAnd _ _ (Nat.decLe ..) (decidableHasRoom (input.accumulate chunk) chunks)

def initial : InputText := ⟨maxBuffer + 1, []⟩

theorem appendBuffer_eq (input : InputText) {buffer text : List Char}
    (isText : cString buffer = .ok text) (bytes : Nat) :
    appendBuffer input bytes buffer = input.append (input.grown bytes) text := by
  rw [appendBuffer, isText, grown]
  split <;> rfl

/-- Where the strings in the buffer are what was read, the bytes are returned if
there is always room for them, and are written past the allocation otherwise. -/
theorem readLoop_eq {stopWord : List Char} {reads : List Read} (input : InputText)
    (texts : ∀ read ∈ reads, cString read.buffer = .ok read.bytes)
    (noStop : ∀ read ∈ reads, findStop stopWord read.buffer 0 0 read.bytes = none) :
    readLoop stopWord input reads =
      if input.HasRoom (reads.map Read.bytes) then
        .ok (input.inputStr ++ (reads.map Read.bytes).flatten)
      else .error .pastInput := by
  induction reads generalizing input with
  | nil =>
      rw [readLoop, List.map_nil, List.flatten_nil, List.append_nil]
      exact (if_pos trivial).symm
  | cons read reads induction =>
      have rest := induction (input.accumulate read.bytes)
        (fun other member => texts other (List.mem_cons_of_mem read member))
        (fun other member => noStop other (List.mem_cons_of_mem read member))
      have appends := appendBuffer_eq input (texts read List.mem_cons_self)
        read.bytes.length
      rw [readLoop, noStop read List.mem_cons_self]
      simp only [appends]
      rw [InputText.append, List.map_cons, List.flatten_cons, ← List.append_assoc]
      by_cases fits : input.inputStr.length + read.bytes.length < input.grown read.bytes.length
      · have roomBehind : input.HasRoom (read.bytes :: reads.map Read.bytes) ↔
            (input.accumulate read.bytes).HasRoom (reads.map Read.bytes) :=
          ⟨And.right, And.intro (Nat.succ_le_of_lt fits)⟩
        rw [if_pos fits]
        simp only [roomBehind]
        exact rest
      · have noRoom : ¬ input.HasRoom (read.bytes :: reads.map Read.bytes) := fun room =>
          fits (Nat.lt_of_succ_le room.1)
        rw [if_neg fits, if_neg noRoom]
        rfl

/-- The allocation was doubled so many times, each time for an input that had
more than fits. -/
structure Doubled (input : InputText) (doublings : Nat) : Prop where
  lenInput : input.lenInput + 1 = 4098 * 2 ^ doublings
  fits : input.inputStr.length < input.lenInput
  outgrown : ∀ fewer < doublings, 4098 * 2 ^ fewer ≤ input.inputStr.length

theorem doubled_initial : initial.Doubled 0 where
  lenInput := rfl
  fits := Nat.lt_of_sub_pos (Nat.le_of_ble_eq_true rfl)
  outgrown := by
    intro fewer less
    cases less

theorem eq_of_between {size fewer doublings : Nat} (isSize : size = 4098 * 2 ^ fewer)
    (outgrown : ∀ other < doublings, 4098 * 2 ^ other < size)
    (less : size < 4098 * 2 ^ (doublings + 1)) : fewer = doublings := by
  rcases Nat.lt_trichotomy fewer doublings with below | equal | above
  · have := outgrown fewer below
    omega
  · exact equal
  · have := Nat.pow_le_pow_right (show 0 < 2 by omega) (Nat.succ_le_of_lt above)
    omega

theorem Doubled.room_iff {input : InputText} {doublings bytes : Nat}
    (doubled : input.Doubled doublings) (some : 1 ≤ bytes) (atMost : bytes ≤ maxBuffer) :
    input.inputStr.length + bytes + 1 ≤ input.grown bytes ↔
      ∀ fewer, input.inputStr.length + bytes + 1 ≠ 4098 * 2 ^ fewer := by
  have lenInput := doubled.lenInput
  have fits := doubled.fits
  have positive := Nat.two_pow_pos doublings
  have buffer : maxBuffer = 4096 := rfl
  have next : 2 ^ (doublings + 1) = 2 * 2 ^ doublings := by
    rw [Nat.pow_succ, Nat.mul_comm]
  rw [grown]
  constructor
  · intro room fewer full
    have last := eq_of_between full (fun other less => by
      have := doubled.outgrown other less
      omega) (by omega)
    subst last
    split at room <;> omega
  · intro neverFull
    have notFull := neverFull doublings
    split <;> omega

theorem Doubled.accumulate {input : InputText} {doublings : Nat} {chunk : List Char}
    (doubled : input.Doubled doublings)
    (room : input.inputStr.length + chunk.length + 1 ≤ input.grown chunk.length) :
    ∃ more, (input.accumulate chunk).Doubled more := by
  have lenInput := doubled.lenInput
  have length : (input.inputStr ++ chunk).length = input.inputStr.length + chunk.length :=
    List.length_append
  by_cases larger : chunk.length + input.inputStr.length > input.lenInput
  · have grows : input.grown chunk.length = input.lenInput * 2 + 1 := if_pos larger
    refine ⟨doublings + 1, ?_, ?_, ?_⟩
    · change input.grown chunk.length + 1 = _
      rw [grows, Nat.pow_succ]
      omega
    · change (input.inputStr ++ chunk).length < input.grown chunk.length
      omega
    · intro fewer less
      change 4098 * 2 ^ fewer ≤ (input.inputStr ++ chunk).length
      have atMost := Nat.pow_le_pow_right (show 0 < 2 by omega) (Nat.le_of_lt_succ less)
      omega
  · have keeps : input.grown chunk.length = input.lenInput := if_neg larger
    refine ⟨doublings, ?_, ?_, ?_⟩
    · change input.grown chunk.length + 1 = _
      rw [keeps]
      exact lenInput
    · change (input.inputStr ++ chunk).length < input.grown chunk.length
      omega
    · intro fewer less
      change 4098 * 2 ^ fewer ≤ (input.inputStr ++ chunk).length
      have := doubled.outgrown fewer less
      omega

theorem Doubled.hasRoom_iff {input : InputText} {doublings : Nat}
    (doubled : input.Doubled doublings) {chunks : List (List Char)}
    (sized : ∀ chunk ∈ chunks, 1 ≤ chunk.length ∧ chunk.length ≤ maxBuffer) :
    input.HasRoom chunks ↔ ∀ front, front <+: chunks → front ≠ [] → ∀ fewer,
      input.inputStr.length + front.flatten.length + 1 ≠ 4098 * 2 ^ fewer := by
  induction chunks generalizing input doublings with
  | nil =>
      refine ⟨?_, fun _ => trivial⟩
      intro _ front isPrefix nonempty
      exact absurd (List.prefix_nil.mp isPrefix) nonempty
  | cons chunk chunks induction =>
      rcases sized chunk List.mem_cons_self with ⟨some, atMost⟩
      have sizedRest := fun other member => sized other (List.mem_cons_of_mem chunk member)
      have first := doubled.room_iff some atMost
      have shift (front : List (List Char)) :
          (input.accumulate chunk).inputStr.length + front.flatten.length + 1 =
            input.inputStr.length + (chunk :: front).flatten.length + 1 := by
        change (input.inputStr ++ chunk).length + _ + 1 = _
        rw [List.flatten_cons, List.length_append, List.length_append]
        omega
      constructor
      · rintro ⟨room, rest⟩ front isPrefix nonempty fewer
        rcases doubled.accumulate room with ⟨more, doubledRest⟩
        cases front with
        | nil => contradiction
        | cons other front =>
            rcases List.cons_prefix_cons.mp isPrefix with ⟨rfl, restPrefix⟩
            by_cases single : front = []
            · rw [single, List.flatten_singleton]
              exact first.mp room fewer
            · rw [← shift]
              exact (induction doubledRest sizedRest).mp rest front restPrefix single fewer
      · intro neverFull
        have room : input.inputStr.length + chunk.length + 1 ≤ input.grown chunk.length := by
          apply first.mpr
          intro fewer
          have single := neverFull [chunk] (by simp) (by simp) fewer
          rw [List.flatten_singleton] at single
          exact single
        rcases doubled.accumulate room with ⟨more, doubledRest⟩
        refine ⟨room, (induction doubledRest sizedRest).mpr ?_⟩
        intro front isPrefix _ fewer
        rw [shift]
        exact neverFull (chunk :: front) (List.cons_prefix_cons.mpr ⟨rfl, isPrefix⟩)
          (List.cons_ne_nil chunk front) fewer

end InputText

theorem cString_filled {bytes : List Char} (clean : '\x00' ∉ bytes)
    (fits : bytes.length ≤ maxBuffer) (behind : bytes.length < maxBuffer) :
    cString (Read.filled '\x00' bytes fits).buffer = .ok bytes := by
  have more : maxBuffer - bytes.length = maxBuffer - bytes.length - 1 + 1 := by
    omega
  change cString (bytes ++ List.replicate (maxBuffer - bytes.length) '\x00') = .ok bytes
  rw [more, List.replicate_succ]
  exact cString_terminated clean _

theorem findStop_noNewline {stopWord buffer bytes : List Char} (noNewline : '\n' ∉ bytes) :
    findStop stopWord buffer 0 0 bytes = none := by
  have skipped := @findStop_skip stopWord buffer bytes noNewline 0 0 []
  rw [List.append_nil] at skipped
  exact skipped

/-- For reads of up to `MAX_BUFFER` bytes the allocation always has room for the
input, the bytes and the terminator if and only if no number of reads together
delivers `4098 * 2 ^ k - 1` bytes. Where the strings in the buffer are what was
read and no line stops the loop, `readFromPipe` then returns all the bytes, and
otherwise writes past the allocation. -/
theorem hasRoom_iff_neverFull (chunks : List (List Char))
    (sized : ∀ chunk ∈ chunks, 1 ≤ chunk.length ∧ chunk.length ≤ maxBuffer) :
    (InputText.initial.HasRoom chunks ↔ ∀ front, front <+: chunks → front ≠ [] →
      ∀ doublings, front.flatten.length + 1 ≠ 4098 * 2 ^ doublings) ∧
    ∀ (stopWord : List Char) (reads : List Read), reads.map Read.bytes = chunks →
      (∀ read ∈ reads, cString read.buffer = .ok read.bytes) →
      (∀ read ∈ reads, findStop stopWord read.buffer 0 0 read.bytes = none) →
      readFromPipe stopWord reads =
        if InputText.initial.HasRoom chunks then .ok chunks.flatten else .error .pastInput := by
  constructor
  · have neverFull := InputText.doubled_initial.hasRoom_iff sized
    have empty : InputText.initial.inputStr.length = 0 := rfl
    simp only [empty, Nat.zero_add] at neverFull
    exact neverFull
  · intro stopWord reads isChunks texts noStop
    rw [← isChunks]
    exact InputText.readLoop_eq InputText.initial texts noStop

theorem hasRoom_iff_neverFull_shortReads :
    InputText.initial.HasRoom [['a', 'b'], ['c']] ∧
      readFromPipe doneMessage.stopWord [Read.filled '\x00' ['a', 'b'] (by decide),
        Read.filled '\x00' ['c'] (by decide)] = .ok ['a', 'b', 'c'] := by
  rcases hasRoom_iff_neverFull [['a', 'b'], ['c']] (by decide) with ⟨neverFull, returns⟩
  have room : InputText.initial.HasRoom [['a', 'b'], ['c']] := by
    apply neverFull.mpr
    rintro front ⟨rest, whole⟩ _ doublings
    have length := congrArg List.length (congrArg List.flatten whole)
    have positive := Nat.two_pow_pos doublings
    rw [List.flatten_append, List.length_append] at length
    change _ = 3 at length
    omega
  have returned := returns doneMessage.stopWord [Read.filled '\x00' ['a', 'b'] (by decide),
    Read.filled '\x00' ['c'] (by decide)] rfl
    (by
      intro read member
      rcases List.mem_pair.mp member with rfl | rfl
      · exact cString_filled (by decide) _ (by decide)
      · exact cString_filled (by decide) _ (by decide))
    (by
      intro read member
      rcases List.mem_pair.mp member with rfl | rfl
      · exact findStop_noNewline (by decide)
      · exact findStop_noNewline (by decide))
  rw [if_pos room] at returned
  exact ⟨room, returned⟩

def lettersRead (count : Nat) (fits : count ≤ maxBuffer) : Read :=
  Read.filled '\x00' (List.replicate count 'a')
    (Nat.le_trans (Nat.le_of_eq List.length_replicate) fits)

theorem length_lettersRead {count : Nat} (fits : count ≤ maxBuffer) :
    (lettersRead count fits).bytes.length = count :=
  List.length_replicate

theorem notMem_lettersRead {c : Char} (other : c ≠ 'a') {count : Nat} (fits : count ≤ maxBuffer) :
    c ∉ (lettersRead count fits).bytes :=
  fun member => other (List.eq_of_mem_replicate member)

def fillingReads : List Read :=
  [lettersRead 97 (Nat.le_of_ble_eq_true rfl), lettersRead 4000 (Nat.le_of_ble_eq_true rfl)]

/-- The terminator behind 4097 characters is written past the allocation. -/
theorem hasRoom_fillingReads :
    (∀ read ∈ fillingReads, 1 ≤ read.bytes.length ∧ read.bytes.length ≤ maxBuffer ∧
      '\x00' ∉ read.bytes ∧ findStop doneMessage.stopWord read.buffer 0 0 read.bytes = none) ∧
    ¬ InputText.initial.HasRoom (fillingReads.map Read.bytes) ∧
    readFromPipe doneMessage.stopWord fillingReads = .error .pastInput := by
  have isRead : ∀ read ∈ fillingReads, ∃ count, ∃ fits : count ≤ maxBuffer,
      read = lettersRead count fits ∧ 1 ≤ count ∧ count < maxBuffer := by
    intro read member
    rcases List.mem_pair.mp member with rfl | rfl
    · exact ⟨97, _, rfl, by decide, by decide⟩
    · exact ⟨4000, _, rfl, by decide, by decide⟩
  have noRoom : ¬ InputText.initial.HasRoom (fillingReads.map Read.bytes) := by
    have full {first second : List Char} (isFirst : first.length = 97)
        (isSecond : second.length = 4000) : ¬ InputText.initial.HasRoom [first, second] := by
      rintro ⟨_, room, _⟩
      simp [InputText.accumulate, InputText.grown, InputText.initial, maxBuffer, isFirst,
        isSecond] at room
    exact full (length_lettersRead _) (length_lettersRead _)
  have noStop : ∀ read ∈ fillingReads,
      findStop doneMessage.stopWord read.buffer 0 0 read.bytes = none := by
    intro read member
    rcases isRead read member with ⟨count, fits, rfl, _⟩
    exact findStop_noNewline (notMem_lettersRead (by decide) fits)
  have texts : ∀ read ∈ fillingReads, cString read.buffer = .ok read.bytes := by
    intro read member
    rcases isRead read member with ⟨count, fits, rfl, _, behind⟩
    apply cString_filled (notMem_lettersRead (by decide) fits)
    rw [length_lettersRead]
    exact behind
  refine ⟨?_, noRoom, (InputText.readLoop_eq InputText.initial texts noStop).trans (if_neg noRoom)⟩
  intro read member
  rcases isRead read member with ⟨count, fits, rfl, some, _⟩
  rw [length_lettersRead]
  exact ⟨some, fits, notMem_lettersRead (by decide) fits, noStop _ member⟩

end JoinOperator.PipeIO
