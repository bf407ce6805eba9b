import JoinOperator.Foundation.Words

/-! # The line of checksums

Texts are lists of characters. A text is stored with its terminator, so an
allocation of `capacity` characters holds at most `capacity - 1` others; writing
past it is the outcome `none`.
-/

namespace JoinOperator.PipeIO

open Foundation

def countDigits (n : Nat) : Nat :=
  if n = 0 then 0 else countDigits (n / 10) + 1
termination_by n
decreasing_by omega

def numDigits (n : Nat) : Nat := if n = 0 then 1 else countDigits n

def store (capacity : Nat) (text : List Char) : Option (List Char) :=
  if text.length < capacity then some text else none

/-- What `%ld` prints for a number of 64 bits. -/
def signedNumeral (value : Nat) : List Char :=
  if value < 2 ^ 63 then numeral value else '-' :: numeral (2 ^ 64 - value)

def nullText : List Char := ['N', 'U', 'L', 'L']

/-- The string of a checksum, and what it adds to `csLength`. -/
def checksumString (value : Nat) : Option (List Char × Nat) :=
  if value = 0 then do
    let text ← store (nullText.length + 1 + 1) (nullText ++ [' '])
    some (text, nullText.length + 1)
  else do
    let digits := numDigits value + 1
    let text ← store (digits + 1) (signedNumeral value ++ [' '])
    some (text, digits)

/-- The last character of the last string becomes the newline. -/
def endLine (text : List Char) : List Char := text.dropLast ++ ['\n']

def csStrings : List Nat → Option (List (List Char) × Nat)
  | [] => some ([], 0)
  | value :: rest => do
      let (text, digits) ← checksumString value
      let (strings, csLength) ← csStrings rest
      some ((if rest.isEmpty then endLine text else text) :: strings, digits + csLength)

def writePipe (checksums : List Nat) : Option (List Char) := do
  let (strings, csLength) ← csStrings checksums
  strings.foldlM (fun message text => store (csLength + 1) (message ++ text)) []

def shownText (value : Nat) : List Char :=
  if value = 0 then nullText else signedNumeral value

theorem countDigits_eq {n : Nat} (positive : n ≠ 0) : countDigits n = (numeral n).length := by
  induction n using Nat.strongRecOn with
  | ind n induction =>
      rw [countDigits, if_neg positive]
      by_cases small : n < 10
      · rw [length_numeral_of_lt small, Nat.div_eq_of_lt small, countDigits, if_pos rfl]
      · rw [length_numeral_of_le (Nat.le_of_not_lt small),
          induction (n / 10) (by omega) (by omega)]

theorem numDigits_eq {n : Nat} (positive : n ≠ 0) : numDigits n = (numeral n).length := by
  rw [numDigits, if_neg positive, countDigits_eq positive]

theorem store_eq_some {capacity : Nat} {text stored : List Char} :
    store capacity text = some stored ↔ text.length < capacity ∧ text = stored := by
  rw [store]
  split
  · simp [*]
  · simp only [reduceCtorEq, false_iff, not_and]
    exact fun fits => absurd fits (by assumption)

theorem checksumString_spec {value digits : Nat} {text : List Char}
    (stored : checksumString value = some (text, digits)) :
    text = shownText value ++ [' '] ∧ text.length ≤ digits := by
  rw [checksumString] at stored
  rw [shownText]
  by_cases zero : value = 0
  all_goals
    simp only [zero, if_true, if_false] at stored ⊢
    rcases Option.bind_eq_some_iff.mp stored with ⟨stored, isStored, pair⟩
    cases pair
    rcases store_eq_some.mp isStored with ⟨fits, rfl⟩
    exact ⟨rfl, Nat.le_of_lt_succ fits⟩

theorem checksumString_of_lt {value : Nat} (small : value < 2 ^ 63) :
    ∃ text digits, checksumString value = some (text, digits) := by
  by_cases zero : value = 0
  · subst zero
    exact ⟨_, _, rfl⟩
  · refine ⟨numeral value ++ [' '], numDigits value + 1, ?_⟩
    have fits : (numeral value ++ [' ']).length < numDigits value + 1 + 1 := by
      rw [numDigits_eq zero, List.length_append]
      exact Nat.lt_succ_self _
    rw [checksumString, if_neg zero]
    simp only [signedNumeral, if_pos small, store, if_pos fits, Option.bind_eq_bind,
      Option.bind_some]

theorem endLine_append (text : List Char) (c : Char) : endLine (text ++ [c]) = text ++ ['\n'] := by
  rw [endLine, List.dropLast_concat]

theorem csStrings_spec {checksums : List Nat} {strings : List (List Char)} {csLength : Nat}
    (stored : csStrings checksums = some (strings, csLength)) :
    strings.flatten = delimited ' ' '\n' (checksums.map shownText) ∧
      strings.flatten.length ≤ csLength := by
  induction checksums generalizing strings csLength with
  | nil =>
      cases stored
      exact ⟨rfl, Nat.le_refl 0⟩
  | cons value rest induction =>
      rcases Option.bind_eq_some_iff.mp stored with ⟨⟨text, digits⟩, isText, stored⟩
      rcases Option.bind_eq_some_iff.mp stored with ⟨⟨others, length⟩, isOthers, pair⟩
      cases pair
      rcases checksumString_spec isText with ⟨rfl, fits⟩
      rcases induction isOthers with ⟨words, room⟩
      rw [List.flatten_cons, List.length_append]
      cases rest with
      | nil =>
          cases isOthers
          rw [List.isEmpty_nil, if_pos rfl, endLine_append]
          rw [List.length_append] at fits ⊢
          exact ⟨List.append_nil _, by simpa using fits⟩
      | cons next rest =>
          rw [List.isEmpty_cons, if_neg (by simp), words]
          rw [words] at room
          refine ⟨?_, Nat.add_le_add fits room⟩
          rw [List.append_assoc]
          rfl

theorem foldlM_store {capacity : Nat} {strings : List (List Char)} {message : List Char}
    (room : message.length + strings.flatten.length < capacity) :
    strings.foldlM (fun message text => store capacity (message ++ text)) message =
      some (message ++ strings.flatten) := by
  induction strings generalizing message with
  | nil => simp
  | cons text strings induction =>
      rw [List.flatten_cons, List.length_append] at room
      have fits : (message ++ text).length < capacity := by
        rw [List.length_append]
        omega
      rw [List.foldlM_cons, store, if_pos fits, Option.bind_eq_bind, Option.bind_some,
        induction (by rw [List.length_append]; omega), List.append_assoc]
      rfl

/-- The message is the line of what is printed for the checksums, if their
buffers are long enough; the buffer of the message always is. -/
theorem writePipe_eq {checksums : List Nat} {message : List Char}
    (written : writePipe checksums = some message) :
    message = delimited ' ' '\n' (checksums.map shownText) := by
  rcases Option.bind_eq_some_iff.mp written with ⟨⟨strings, csLength⟩, stored, assembled⟩
  rcases csStrings_spec stored with ⟨words, room⟩
  have isMessage := foldlM_store
    (show ([] : List Char).length + strings.flatten.length < csLength + 1 by
      rw [List.length_nil]
      omega)
  rw [List.nil_append, words] at isMessage
  exact Option.some_inj.mp (assembled.symm.trans isMessage)

theorem csStrings_of_lt {checksums : List Nat} (small : ∀ value ∈ checksums, value < 2 ^ 63) :
    ∃ strings csLength, csStrings checksums = some (strings, csLength) := by
  induction checksums with
  | nil => exact ⟨_, _, rfl⟩
  | cons value rest induction =>
      rcases checksumString_of_lt (small value List.mem_cons_self) with ⟨text, digits, isText⟩
      rcases induction fun value member => small value (List.mem_cons_of_mem _ member) with
        ⟨strings, csLength, isRest⟩
      refine ⟨(if rest.isEmpty then endLine text else text) :: strings, digits + csLength, ?_⟩
      rw [csStrings, isText, isRest]
      rfl

theorem writePipe_of_lt {checksums : List Nat} (small : ∀ value ∈ checksums, value < 2 ^ 63) :
    writePipe checksums = some (delimited ' ' '\n' (checksums.map shownText)) := by
  rcases csStrings_of_lt small with ⟨strings, csLength, stored⟩
  rcases csStrings_spec stored with ⟨words, room⟩
  rw [writePipe, stored, Option.bind_eq_bind, Option.bind_some, ← words]
  apply foldlM_store
  rw [List.length_nil]
  omega

theorem signedNumeral_of_lt {value : Nat} (small : value < 2 ^ 63) :
    signedNumeral value = numeral value := if_pos small

theorem sign_mem_signedNumeral_iff (value : Nat) : '-' ∈ signedNumeral value ↔ 2 ^ 63 ≤ value := by
  rw [signedNumeral]
  split
  · next small =>
      simp only [Nat.not_le_of_lt small, iff_false]
      exact not_mem_numeral rfl value
  · next large => simpa using Nat.le_of_not_lt large

/-- A string does not fit if the sign is one character more than was counted. -/
theorem checksumString_eq_none_iff {value : Nat} (inRange : value < 2 ^ 64) :
    checksumString value = none ↔ 2 ^ 63 ≤ value ∧ value < 10 ^ 19 := by
  constructor
  · intro overflow
    by_cases small : value < 2 ^ 63
    · rcases checksumString_of_lt small with ⟨text, digits, stored⟩
      rw [overflow] at stored
      cases stored
    · refine ⟨Nat.le_of_not_lt small, ?_⟩
      by_contra large
      have counted : ¬ (numeral value).length ≤ 19 := by
        rw [length_numeral_le_iff (by omega)]
        exact large
      have printed : (numeral (2 ^ 64 - value)).length ≤ 19 := by
        rw [length_numeral_le_iff (by omega)]
        omega
      have positive : value ≠ 0 := by omega
      have fits : ('-' :: numeral (2 ^ 64 - value) ++ [' ']).length <
          numDigits value + 1 + 1 := by
        rw [numDigits_eq positive, List.length_append, List.length_cons, List.length_singleton]
        omega
      rw [checksumString, if_neg positive] at overflow
      simp only [signedNumeral, if_neg small, store, if_pos fits, Option.bind_eq_bind,
        Option.bind_some, reduceCtorEq] at overflow
  · intro window
    have counted : (numeral value).length ≤ 19 := by
      rw [length_numeral_le_iff (by omega)]
      exact window.2
    have printed : ¬ (numeral (2 ^ 64 - value)).length ≤ 18 := by
      rw [length_numeral_le_iff (by omega)]
      omega
    have positive : value ≠ 0 := by omega
    have overflows : ¬ ('-' :: numeral (2 ^ 64 - value) ++ [' ']).length <
        numDigits value + 1 + 1 := by
      rw [numDigits_eq positive, List.length_append, List.length_cons, List.length_singleton]
      omega
    rw [checksumString, if_neg positive]
    simp only [signedNumeral, if_neg (Nat.not_lt_of_le window.1), store, if_neg overflows,
      Option.bind_eq_bind, Option.bind_none]

def unsignedLine (values : List Nat) : List Char := delimited ' ' '\n' (values.map numeral)

def parseUnsigned (line : List Char) : List Nat :=
  (endedWords (fun c => c == ' ' || c == '\n') [] line).map numeralValue

theorem parseUnsigned_unsignedLine (values : List Nat) :
    parseUnsigned (unsignedLine values) = values := by
  have inside : ∀ word ∈ values.map numeral, ∀ c ∈ word, (c == ' ' || c == '\n') = false := by
    intro word isWord c member
    rcases List.mem_map.mp isWord with ⟨value, _, rfl⟩
    rw [Bool.or_eq_false_iff, beq_eq_false_iff_ne, beq_eq_false_iff_ne]
    constructor
    · rintro rfl
      exact not_mem_numeral rfl value member
    · rintro rfl
      exact not_mem_numeral rfl value member
  rw [parseUnsigned, unsignedLine, endedWords_delimited rfl rfl inside, List.map_map]
  simp [Function.comp_def]

theorem mem_unsignedLine {c : Char} {values : List Nat} (member : c ∈ unsignedLine values) :
    c.isDigit = true ∨ c = ' ' ∨ c = '\n' := by
  rcases mem_delimited member with ⟨word, isWord, inWord⟩ | isDelimiter
  · rcases List.mem_map.mp isWord with ⟨value, _, rfl⟩
    exact .inl (isDigit_of_mem_numeral inWord)
  · exact .inr isDelimiter

theorem shownText_of_lt {value : Nat} (positive : value ≠ 0) (small : value < 2 ^ 63) :
    shownText value = numeral value := by
  rw [shownText, if_neg positive, signedNumeral_of_lt small]

theorem writePipe_unsigned_iff (values : List Nat) :
    writePipe values = some (unsignedLine values) ↔
      ∀ value ∈ values, value ≠ 0 ∧ value < 2 ^ 63 := by
  constructor
  · intro written value member
    have shown {c : Char} (inText : c ∈ shownText value) :
        c.isDigit = true ∨ c = ' ' ∨ c = '\n' := by
      apply mem_unsignedLine
      rw [writePipe_eq written]
      exact mem_delimited_of_mem (List.mem_map_of_mem member) inText
    have positive : value ≠ 0 := by
      rintro rfl
      rcases shown (show 'N' ∈ shownText 0 by decide) with isDigit | isBlank | isNewline
      · cases isDigit
      · cases isBlank
      · cases isNewline
    refine ⟨positive, ?_⟩
    by_contra large
    have sign : '-' ∈ shownText value := by
      rw [shownText, if_neg positive, sign_mem_signedNumeral_iff]
      exact Nat.le_of_not_lt large
    rcases shown sign with isDigit | isBlank | isNewline
    · cases isDigit
    · cases isBlank
    · cases isNewline
  · intro shown
    rw [writePipe_of_lt fun value member => (shown value member).2, unsignedLine,
      List.map_congr_left fun value member =>
        shownText_of_lt (shown value member).1 (shown value member).2]

/-- The buffers are long enough and the message is the line of unsigned
decimals, from which the checksums are read back. -/
def RoundTrips (checksums : List Nat) : Prop :=
  ∃ message, writePipe checksums = some message ∧ message = unsignedLine checksums ∧
    parseUnsigned message = checksums

/-- Checksums that are not zero survive the output if and only if they are below
`2 ^ 63`. -/
theorem roundTrips_iff {checksums : List Nat}
    (inRange : ∀ value ∈ checksums, value ≠ 0 ∧ value < 2 ^ 64) :
    RoundTrips checksums ↔ ∀ value ∈ checksums, value < 2 ^ 63 := by
  constructor
  · rintro ⟨message, written, rfl, _⟩ value member
    exact ((writePipe_unsigned_iff checksums).mp written value member).2
  · intro small
    refine ⟨_, ?_, rfl, parseUnsigned_unsignedLine checksums⟩
    apply (writePipe_unsigned_iff checksums).mpr
    exact fun value member => ⟨(inRange value member).1, small value member⟩

theorem roundTrips_sevenAndTwelve : RoundTrips [7, 12] :=
  (roundTrips_iff (by decide)).mpr (by decide)

/-- The smallest checksum with a sign is printed past the end of its buffer, and
the largest one is printed as `-1`. -/
theorem roundTrips_signed : writePipe [2 ^ 63] = none ∧
    writePipe [2 ^ 64 - 1] = some ['-', '1', '\n'] ∧
    ¬ RoundTrips [2 ^ 63] ∧ ¬ RoundTrips [2 ^ 64 - 1] := by
  have overflow : checksumString (2 ^ 63) = none :=
    (checksumString_eq_none_iff (by omega)).mpr (by omega)
  have none : writePipe [2 ^ 63] = none := by
    rw [writePipe, csStrings, overflow]
    rfl
  have counted : ¬ (numeral (2 ^ 64 - 1)).length ≤ 1 := by
    rw [length_numeral_le_iff (by omega)]
    omega
  have fits : ['-', '1', ' '].length < numDigits (2 ^ 64 - 1) + 1 + 1 := by
    rw [numDigits_eq (by omega), List.length_cons, List.length_cons, List.length_singleton]
    omega
  have stored : checksumString (2 ^ 64 - 1) =
      some (['-', '1', ' '], numDigits (2 ^ 64 - 1) + 1) := by
    have printed : signedNumeral (2 ^ 64 - 1) ++ [' '] = ['-', '1', ' '] := rfl
    rw [checksumString, if_neg (by omega)]
    simp only [printed, store, if_pos fits, Option.bind_eq_bind, Option.bind_some]
  have minusOne : writePipe [2 ^ 64 - 1] = some ['-', '1', '\n'] := by
    rw [writePipe, csStrings, stored]
    exact foldlM_store fits
  refine ⟨none, minusOne, ?_, ?_⟩
  · rintro ⟨message, written, _⟩
    rw [none] at written
    cases written
  · rintro ⟨message, written, isUnsigned, parsed⟩
    rw [minusOne] at written
    cases written
    cases isUnsigned

end JoinOperator.PipeIO
