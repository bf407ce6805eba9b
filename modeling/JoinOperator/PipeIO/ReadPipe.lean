import JoinOperator.Foundation.Cursor
import Mathlib.Data.List.TakeWhile

/-! # Reading a message from the pipe

A C string is the list of its characters before the terminator. What a read
does not fill of the buffer keeps the characters that were there before.
-/

namespace JoinOperator.PipeIO

open Foundation

def maxBuffer : Nat := 4096

/-- The characters a read delivers, and those behind them in the buffer. -/
structure Read where
  bytes : List Char
  leftover : List Char
  full : bytes.length + leftover.length = maxBuffer

def Read.buffer (read : Read) : List Char := read.bytes ++ read.leftover

def Read.filled (rest : Char) (bytes : List Char) (fits : bytes.length ≤ maxBuffer) : Read where
  bytes := bytes
  leftover := List.replicate (maxBuffer - bytes.length) rest
  full := by rw [List.length_replicate, Nat.add_sub_cancel' fits]

inductive Fault where
  | beforeBuffer
  | pastBuffer
  | pastInput
  deriving DecidableEq

/-- `strncmp(stopWord, line, n) == 0` for the `n` characters of the line. -/
def startsStopWord : List Char → List Char → Bool
  | _, [] => true
  | [], c :: _ => c == '\x00'
  | s :: stopWord, c :: line => s == c && startsStopWord stopWord line

/-- The loop over the characters read: the newline at which it breaks. The line
that is being read starts at `mark`. -/
def findStop (stopWord buffer : List Char) : Nat → Nat → List Char → Option Nat
  | _, _, [] => none
  | i, mark, c :: rest =>
      if c = '\n' then
        if startsStopWord stopWord (cut buffer mark i) then some i
        else findStop stopWord buffer (i + 1) (i + 1) rest
      else findStop stopWord buffer (i + 1) mark rest

/-- The string that starts at the buffer. Without a terminator in it, the string
would go on behind the buffer. -/
def cString (buffer : List Char) : Except Fault (List Char) :=
  if '\x00' ∈ buffer then .ok (buffer.takeWhile (· != '\x00')) else .error .pastBuffer

structure InputText where
  lenInput : Nat
  inputStr : List Char

/-- `strcat` into an allocation of `capacity` characters. -/
def InputText.append (capacity : Nat) (input : InputText) (text : List Char) :
    Except Fault InputText :=
  if input.inputStr.length + text.length < capacity then
    .ok ⟨capacity, input.inputStr ++ text⟩
  else .error .pastInput

/-- The buffer is appended, in a larger allocation if `lenInput` is too small. -/
def appendBuffer (input : InputText) (bytes : Nat) (buffer : List Char) :
    Except Fault InputText := do
  let text ← cString buffer
  if bytes + input.inputStr.length > input.lenInput then
    input.append (input.lenInput * 2 + 1) text
  else input.append input.lenInput text

/-- The reads until the stop word is found, or until there is nothing to read. -/
def readLoop (stopWord : List Char) (input : InputText) : List Read → Except Fault (List Char)
  | [] => .ok input.inputStr
  | read :: rest =>
      match findStop stopWord read.buffer 0 0 read.bytes with
      | none => do
          let after ← appendBuffer input read.bytes.length read.buffer
          readLoop stopWord after rest
      | some i =>
          if i < stopWord.length then .error .beforeBuffer
          else do
            let after ← appendBuffer input read.bytes.length
              (read.buffer.set (i - stopWord.length) '\x00')
            .ok after.inputStr

def readFromPipe (stopWord : List Char) (reads : List Read) : Except Fault (List Char) :=
  readLoop stopWord ⟨maxBuffer + 1, []⟩ reads

def ended (line : List Char) : List Char := line ++ ['\n']

/-- The lines of a message, and the word on the line behind them. -/
structure Message where
  stopWord : List Char
  lines : List (List Char)
  isWord : '\n' ∉ stopWord ∧ '\x00' ∉ stopWord
  areLines : ∀ line ∈ lines, line ≠ [] ∧ '\n' ∉ line ∧ line ≠ stopWord

namespace Message

def body (message : Message) : List Char := message.lines.flatMap ended

def stream (message : Message) : List Char := message.body ++ ended message.stopWord

end Message

/-- A way to cut a message into the characters of successive reads. -/
structure Delivery (message : Message) where
  chunks : List (List Char)
  sized : ∀ chunk ∈ chunks, 0 < chunk.length ∧ chunk.length ≤ maxBuffer
  whole : chunks.flatten = message.stream

/-- Whatever the reads leave in the buffer, the lines of the message are returned. -/
def Delivery.IsReceived {message : Message} (delivery : Delivery message) : Prop :=
  ∀ reads : List Read, reads.map Read.bytes = delivery.chunks →
    readFromPipe message.stopWord reads = .ok message.body

theorem startsStopWord_iff {stopWord line : List Char} (noTerminator : '\x00' ∉ line) :
    startsStopWord stopWord line = true ↔ line <+: stopWord := by
  induction line generalizing stopWord with
  | nil => simp [startsStopWord]
  | cons c line induction =>
      rw [List.mem_cons, not_or] at noTerminator
      cases stopWord with
      | nil => simp [startsStopWord, Ne.symm noTerminator.1]
      | cons s stopWord =>
          rw [startsStopWord, Bool.and_eq_true, beq_iff_eq, induction noTerminator.2,
            List.cons_prefix_cons, eq_comm]

theorem findStop_bounds {stopWord buffer rest : List Char} {i mark stop : Nat}
    (found : findStop stopWord buffer i mark rest = some stop) :
    i ≤ stop ∧ stop < i + rest.length := by
  induction rest generalizing i mark with
  | nil => cases found
  | cons c rest induction =>
      rw [findStop] at found
      rw [List.length_cons]
      split at found
      · split at found
        · cases found
          omega
        · have later := induction found
          omega
      · have later := induction found
        omega

theorem findStop_skip {stopWord buffer line : List Char} (inside : '\n' ∉ line)
    (i mark : Nat) (rest : List Char) :
    findStop stopWord buffer i mark (line ++ rest) =
      findStop stopWord buffer (i + line.length) mark rest := by
  induction line generalizing i with
  | nil => rfl
  | cons c line induction =>
      rw [List.mem_cons, not_or] at inside
      rw [List.cons_append, findStop, if_neg (Ne.symm inside.1), induction inside.2,
        List.length_cons, Nat.add_assoc, Nat.add_comm 1]

theorem findStop_line {stopWord buffer line rest behind : List Char} {mark : Nat}
    (inside : '\n' ∉ line) (ahead : buffer.drop mark = line ++ behind) :
    findStop stopWord buffer mark mark (ended line ++ rest) =
      if startsStopWord stopWord line then some (mark + line.length)
      else findStop stopWord buffer (mark + line.length + 1) (mark + line.length + 1) rest := by
  rw [ended, List.append_assoc, findStop_skip inside, List.singleton_append, findStop,
    if_pos rfl, cut_of_drop ahead]

theorem findStop_lines {stopWord buffer rest behind : List Char} {lines : List (List Char)}
    {mark : Nat} (inside : ∀ line ∈ lines, '\n' ∉ line)
    (passed : ∀ line ∈ lines, startsStopWord stopWord line = false)
    (ahead : buffer.drop mark = lines.flatMap ended ++ behind) :
    findStop stopWord buffer mark mark (lines.flatMap ended ++ rest) =
      findStop stopWord buffer (mark + (lines.flatMap ended).length)
        (mark + (lines.flatMap ended).length) rest := by
  induction lines generalizing mark with
  | nil => rfl
  | cons line lines induction =>
      rw [List.flatMap_cons, List.append_assoc] at ahead ⊢
      have atLine : buffer.drop mark = line ++ '\n' :: (lines.flatMap ended ++ behind) := by
        rw [ahead, ended, List.append_assoc, List.singleton_append]
      rw [findStop_line (inside line List.mem_cons_self) atLine,
        passed line List.mem_cons_self, if_neg Bool.false_ne_true,
        induction (fun other member => inside other (List.mem_cons_of_mem _ member))
          (fun other member => passed other (List.mem_cons_of_mem _ member)) (drop_word atLine)]
      rw [ended, List.length_append, List.length_append, List.length_singleton]
      simp only [Nat.add_assoc]

theorem findStop_early {stopWord buffer rest behind : List Char} {lines : List (List Char)}
    {mark : Nat} (inside : ∀ line ∈ lines, '\n' ∉ line)
    (breaks : ∃ line ∈ lines, startsStopWord stopWord line = true)
    (ahead : buffer.drop mark = lines.flatMap ended ++ behind) :
    ∃ stop, findStop stopWord buffer mark mark (lines.flatMap ended ++ rest) = some stop ∧
      stop < mark + (lines.flatMap ended).length := by
  induction lines generalizing mark with
  | nil =>
      rcases breaks with ⟨line, member, _⟩
      cases member
  | cons line lines induction =>
      rw [List.flatMap_cons, List.append_assoc] at ahead ⊢
      have atLine : buffer.drop mark = line ++ '\n' :: (lines.flatMap ended ++ behind) := by
        rw [ahead, ended, List.append_assoc, List.singleton_append]
      have length : (ended line ++ lines.flatMap ended).length =
          line.length + 1 + (lines.flatMap ended).length := by
        rw [List.length_append, ended, List.length_append, List.length_singleton]
      rw [findStop_line (inside line List.mem_cons_self) atLine, length]
      by_cases first : startsStopWord stopWord line = true
      · exact ⟨_, if_pos first, by omega⟩
      · rcases breaks with ⟨other, member, starts⟩
        rcases List.mem_cons.mp member with rfl | member
        · exact absurd starts first
        · rcases induction (fun other member => inside other (List.mem_cons_of_mem _ member))
            ⟨other, member, starts⟩ (drop_word atLine) with ⟨stop, found, early⟩
          exact ⟨stop, by rw [if_neg first, found], by omega⟩

theorem cString_eq_ok {buffer text : List Char} (isText : cString buffer = .ok text) :
    text = buffer.takeWhile (· != '\x00') := by
  rw [cString] at isText
  split at isText
  · cases isText
    rfl
  · cases isText

theorem cString_noTerminator {buffer text : List Char} (isText : cString buffer = .ok text) :
    '\x00' ∉ text := by
  rw [cString_eq_ok isText]
  intro member
  have passed := List.mem_takeWhile_imp member
  simp at passed

theorem cString_terminated {front : List Char} (noTerminator : '\x00' ∉ front)
    (behind : List Char) : cString (front ++ '\x00' :: behind) = .ok front := by
  rw [cString, if_pos (by simp), List.takeWhile_append_of_pos]
  · simp
  · intro c member
    simp only [bne_iff_ne, ne_eq]
    intro equal
    exact noTerminator (equal ▸ member)

theorem cString_set {front behind : List Char} (noTerminator : '\x00' ∉ front)
    (nonempty : behind ≠ []) :
    cString ((front ++ behind).set front.length '\x00') = .ok front := by
  cases behind with
  | nil => contradiction
  | cons c behind =>
      have ends : (front ++ c :: behind).set front.length '\x00' = front ++ '\x00' :: behind := by
        rw [List.set_append_right (h := Nat.le_refl _), Nat.sub_self, List.set_cons_zero]
      rw [ends]
      exact cString_terminated noTerminator behind

theorem length_cString_set_le {buffer text : List Char} {k : Nat}
    (isText : cString (buffer.set k '\x00') = .ok text) : text.length ≤ k := by
  by_contra longer
  have fits : k < text.length := Nat.lt_of_not_le longer
  have isPrefix : text <+: buffer.set k '\x00' :=
    cString_eq_ok isText ▸ List.takeWhile_prefix _
  have terminator : text[k] = '\x00' := by
    rw [isPrefix.getElem fits, List.getElem_set_self]
  exact cString_noTerminator isText (terminator ▸ List.getElem_mem fits)

theorem append_eq_ok {capacity : Nat} {input after : InputText} {text : List Char}
    (appended : input.append capacity text = .ok after) :
    after.inputStr = input.inputStr ++ text := by
  rw [InputText.append] at appended
  split at appended
  · cases appended
    rfl
  · cases appended

theorem appendBuffer_eq_ok {input after : InputText} {bytes : Nat} {buffer : List Char}
    (appended : appendBuffer input bytes buffer = .ok after) :
    ∃ text, cString buffer = .ok text ∧ after.inputStr = input.inputStr ++ text := by
  rw [appendBuffer] at appended
  cases isText : cString buffer with
  | error fault =>
      rw [isText] at appended
      cases appended
  | ok text =>
      rw [isText] at appended
      change (if _ then _ else _) = _ at appended
      split at appended
      · exact ⟨text, rfl, append_eq_ok appended⟩
      · exact ⟨text, rfl, append_eq_ok appended⟩

theorem readLoop_noTerminator {stopWord text : List Char} {reads : List Read}
    {input : InputText} (clean : '\x00' ∉ input.inputStr)
    (returned : readLoop stopWord input reads = .ok text) : '\x00' ∉ text := by
  induction reads generalizing input with
  | nil =>
      cases returned
      exact clean
  | cons read rest induction =>
      have cleanAfter : ∀ {buffer after}, appendBuffer input read.bytes.length buffer = .ok after →
          '\x00' ∉ after.inputStr := by
        intro buffer after appended
        rcases appendBuffer_eq_ok appended with ⟨added, isText, equal⟩
        rw [equal, List.mem_append, not_or]
        exact ⟨clean, cString_noTerminator isText⟩
      rw [readLoop] at returned
      split at returned
      · cases appended : appendBuffer input read.bytes.length read.buffer with
        | error fault =>
            rw [appended] at returned
            cases returned
        | ok after =>
            rw [appended] at returned
            exact induction (cleanAfter appended) returned
      · next i _ =>
          split at returned
          · cases returned
          · cases appended : appendBuffer input read.bytes.length
                (read.buffer.set (i - stopWord.length) '\x00') with
            | error fault =>
                rw [appended] at returned
                cases returned
            | ok after =>
                rw [appended] at returned
                cases returned
                exact cleanAfter appended

/-- When the first read has a newline at which the loop breaks, the returned text
ends the length of the stop word before it. -/
theorem readFromPipe_found {stopWord text : List Char} {read : Read} {rest : List Read}
    {stop : Nat} (found : findStop stopWord read.buffer 0 0 read.bytes = some stop)
    (returned : readFromPipe stopWord (read :: rest) = .ok text) :
    text.length + stopWord.length ≤ stop := by
  rw [readFromPipe, readLoop, found] at returned
  simp only at returned
  split at returned
  · cases returned
  · next late =>
      cases appended : appendBuffer ⟨maxBuffer + 1, []⟩ read.bytes.length
          (read.buffer.set (stop - stopWord.length) '\x00') with
      | error fault =>
          rw [appended] at returned
          cases returned
      | ok after =>
          rw [appended] at returned
          cases returned
          rcases appendBuffer_eq_ok appended with ⟨added, isText, equal⟩
          rw [equal, List.nil_append]
          have ends := length_cString_set_le isText
          omega

/-- When the first read has none and no terminator is left in the buffer, `strcat` reads
on behind the buffer. -/
theorem readFromPipe_notFound {stopWord : List Char} {read : Read} {rest : List Read}
    (found : findStop stopWord read.buffer 0 0 read.bytes = none)
    (unterminated : '\x00' ∉ read.buffer) :
    readFromPipe stopWord (read :: rest) = .error .pastBuffer := by
  rw [readFromPipe, readLoop, found]
  simp only [appendBuffer, cString, if_neg unterminated]
  rfl

namespace Message

variable {message : Message}

theorem terminator_not_mem_stream (clean : ∀ line ∈ message.lines, '\x00' ∉ line) :
    '\x00' ∉ message.stream := by
  simp only [stream, body, ended, List.mem_append, List.mem_flatMap, List.mem_singleton, not_or]
  refine ⟨?_, message.isWord.2, by decide⟩
  rintro ⟨line, member, inLine | isNewline⟩
  · exact clean line member inLine
  · cases isNewline

theorem length_stream :
    message.stream.length = message.body.length + message.stopWord.length + 1 := by
  rw [stream, ended, List.length_append, List.length_append, List.length_singleton, Nat.add_assoc]

theorem readFromPipe_whole {read : Read} (whole : read.bytes = message.stream)
    (clean : ∀ line ∈ message.lines, '\x00' ∉ line)
    (different : ∀ line ∈ message.lines, ¬ line <+: message.stopWord) :
    readFromPipe message.stopWord [read] = .ok message.body := by
  have buffer : read.buffer =
      message.body ++ (message.stopWord ++ '\n' :: read.leftover) := by
    rw [Read.buffer, whole, stream, ended, List.append_assoc, List.append_assoc]
    rfl
  have atStop : read.buffer.drop message.body.length =
      message.stopWord ++ '\n' :: read.leftover := by
    rw [buffer, List.drop_left]
  have found : findStop message.stopWord read.buffer 0 0 read.bytes =
      some (message.body.length + message.stopWord.length) := by
    have passed : findStop message.stopWord read.buffer 0 0
        (message.body ++ ended message.stopWord) =
        findStop message.stopWord read.buffer (0 + message.body.length)
          (0 + message.body.length) (ended message.stopWord) := by
      apply findStop_lines (fun line member => (message.areLines line member).2.1)
      · intro line member
        rw [Bool.eq_false_iff, Ne, startsStopWord_iff (clean line member)]
        exact different line member
      · exact buffer
    have reached : findStop message.stopWord read.buffer message.body.length message.body.length
        (ended message.stopWord ++ []) =
        some (message.body.length + message.stopWord.length) := by
      rw [findStop_line message.isWord.1 atStop]
      exact if_pos ((startsStopWord_iff message.isWord.2).mpr (List.prefix_refl _))
    rw [Nat.zero_add] at passed
    rw [List.append_nil] at reached
    rw [whole, stream, passed, reached]
  have text : cString (read.buffer.set message.body.length '\x00') = .ok message.body := by
    rw [buffer]
    apply cString_set
    · intro member
      exact terminator_not_mem_stream clean (List.mem_append_left _ member)
    · simp
  have fits : message.body.length < maxBuffer := by
    have full := read.full
    rw [whole, length_stream] at full
    omega
  have small : ¬ message.body.length + message.stopWord.length < message.stopWord.length := by
    omega
  have room : ¬ read.bytes.length + 0 > maxBuffer + 1 := by
    have full := read.full
    omega
  rw [readFromPipe, readLoop, found]
  simp only [if_neg small, Nat.add_sub_cancel, appendBuffer, text]
  change (if read.bytes.length + 0 > maxBuffer + 1 then _ else _) >>= _ = _
  rw [if_neg room, InputText.append, if_pos (by simp; omega)]
  rfl

end Message

theorem exists_reads {chunks : List (List Char)}
    (sized : ∀ chunk ∈ chunks, chunk.length ≤ maxBuffer) :
    ∃ reads : List Read, reads.map Read.bytes = chunks ∧
      ∀ read ∈ reads, '\x00' ∉ read.leftover := by
  induction chunks with
  | nil => exact ⟨[], rfl, by simp⟩
  | cons chunk chunks induction =>
      rcases induction fun other member => sized other (List.mem_cons_of_mem _ member) with
        ⟨reads, bytes, unterminated⟩
      have fits := sized chunk List.mem_cons_self
      refine ⟨Read.filled ' ' chunk fits :: reads, congrArg (chunk :: ·) bytes, ?_⟩
      intro other member
      rcases List.mem_cons.mp member with rfl | member
      · intro terminator
        cases List.eq_of_mem_replicate terminator
      · exact unterminated other member

namespace Delivery

variable {message : Message} {delivery : Delivery message}

theorem IsReceived.noTerminator (received : delivery.IsReceived) :
    ∀ line ∈ message.lines, '\x00' ∉ line := by
  intro line member terminator
  rcases exists_reads fun chunk inside => (delivery.sized chunk inside).2 with ⟨reads, bytes, _⟩
  apply readLoop_noTerminator (List.not_mem_nil) (received reads bytes)
  exact List.mem_flatMap.mpr ⟨line, member, List.mem_append_left _ terminator⟩

theorem IsReceived.found (received : delivery.IsReceived) {chunk : List Char}
    {rest : List (List Char)} (first : delivery.chunks = chunk :: rest) :
    ∃ read : Read, read.bytes = chunk ∧ ∃ stop,
      findStop message.stopWord read.buffer 0 0 chunk = some stop ∧
        message.body.length + message.stopWord.length ≤ stop := by
  rcases exists_reads fun chunk inside => (delivery.sized chunk inside).2 with
    ⟨reads, bytes, unterminated⟩
  have returned := received reads bytes
  rw [first] at bytes
  cases reads with
  | nil => cases bytes
  | cons read others =>
      rcases List.cons.inj bytes with ⟨rfl, _⟩
      refine ⟨read, rfl, ?_⟩
      cases isFound : findStop message.stopWord read.buffer 0 0 read.bytes with
      | some stop => exact ⟨stop, rfl, readFromPipe_found isFound returned⟩
      | none =>
          have clean : '\x00' ∉ read.buffer := by
            rw [Read.buffer, List.mem_append, not_or]
            refine ⟨?_, unterminated read List.mem_cons_self⟩
            intro member
            apply Message.terminator_not_mem_stream received.noTerminator
            rw [← delivery.whole, first]
            exact List.mem_append_left _ member
          rw [readFromPipe_notFound isFound clean] at returned
          cases returned

theorem IsReceived.oneRead (received : delivery.IsReceived) :
    delivery.chunks = [message.stream] := by
  have whole := delivery.whole
  cases chunks : delivery.chunks with
  | nil =>
      rw [chunks] at whole
      have length := congrArg List.length whole
      rw [Message.length_stream] at length
      cases length
  | cons chunk rest =>
      rw [chunks, List.flatten_cons] at whole
      rcases received.found chunks with ⟨read, rfl, stop, found, late⟩
      have inside := (findStop_bounds found).2
      have length := congrArg List.length whole
      rw [List.length_append, Message.length_stream] at length
      cases rest with
      | nil => rw [← whole, List.flatten_nil, List.append_nil]
      | cons next rest =>
          have positive := (delivery.sized next (by rw [chunks]; simp)).1
          rw [List.flatten_cons, List.length_append] at length
          omega

theorem IsReceived.different (received : delivery.IsReceived) :
    ∀ line ∈ message.lines, ¬ line <+: message.stopWord := by
  intro line member starts
  rcases received.found received.oneRead with ⟨read, bytes, stop, found, late⟩
  have breaks := (startsStopWord_iff (received.noTerminator line member)).mpr starts
  have ahead : read.buffer.drop 0 =
      message.lines.flatMap ended ++ (ended message.stopWord ++ read.leftover) := by
    rw [List.drop_zero, Read.buffer, bytes, Message.stream, Message.body, List.append_assoc]
  rcases findStop_early (fun line member => (message.areLines line member).2.1)
    ⟨line, member, breaks⟩ ahead with ⟨early, isEarly, before⟩
  rw [Message.stream, Message.body, isEarly] at found
  cases found
  rw [Message.body] at late
  omega

/-- A message is received exactly when one read delivers all of it and no line of it is a
beginning of the stop word, nor has a terminator inside. -/
theorem isReceived_iff {message : Message} (delivery : Delivery message) :
    delivery.IsReceived ↔ delivery.chunks = [message.stream] ∧
      ∀ line ∈ message.lines, ¬ line <+: message.stopWord ∧ '\x00' ∉ line := by
  constructor
  · intro received
    exact ⟨received.oneRead, fun line member =>
      ⟨received.different line member, received.noTerminator line member⟩⟩
  · intro condition reads bytes
    rw [condition.1] at bytes
    rcases List.map_eq_singleton_iff.mp bytes with ⟨read, rfl, whole⟩
    exact Message.readFromPipe_whole whole (fun line member => (condition.2 line member).2)
      fun line member => (condition.2 line member).1

end Delivery

def doneMessage : Message where
  stopWord := ['D', 'o', 'n', 'e']
  lines := [['a']]
  isWord := by decide
  areLines := by decide

def cutStopWord : Delivery doneMessage where
  chunks := [['a', '\n', 'D', 'o'], ['n', 'e', '\n']]
  sized := by decide
  whole := rfl

/-- The buffer is empty before each read. -/
def cutReads : List Read :=
  [Read.filled '\x00' ['a', '\n', 'D', 'o'] (by decide),
    Read.filled '\x00' ['n', 'e', '\n'] (by decide)]

theorem readFromPipe_cutReads : readFromPipe doneMessage.stopWord cutReads =
    .ok ['a', '\n', 'D', 'o', 'n', 'e', '\n'] := by
  rfl

/-- The stop word is not found, and becomes part of the text. -/
theorem cutStopWord_notReceived : ¬ cutStopWord.IsReceived := by
  intro received
  have returned := received cutReads rfl
  rw [readFromPipe_cutReads] at returned
  cases returned

end JoinOperator.PipeIO
