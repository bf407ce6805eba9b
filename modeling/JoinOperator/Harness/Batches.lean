import JoinOperator.Foundation.Tokens

/-! # Batches of the harness

The workload is divided at lines that are empty or begin with `F`. Every other line has the next
line of the result file as its result.
-/

namespace JoinOperator.Harness

open Foundation

/-- What is sent for a batch, and the lines that are expected. -/
structure Batch where
  input : List Char
  results : List (List Char)
  deriving DecidableEq, Repr

def loadBatches : List (List Char) → List (List Char) → Batch → List Batch
  | [], _, _ => []
  | line :: rest, resultFile, chunk =>
      if line ≠ [] ∧ line.head? ≠ some 'F' then
        loadBatches rest resultFile.tail
          ⟨chunk.input ++ (line ++ ['\n']), chunk.results ++ [resultFile.headD []]⟩
      else
        ⟨chunk.input ++ (line ++ ['\n']), chunk.results⟩ :: loadBatches rest resultFile ⟨[], []⟩

def batchesOf (workFile resultFile : List Char) : List Batch :=
  loadBatches (tokens '\n' workFile) (tokens '\n' resultFile) ⟨[], []⟩

section Loading

variable {Query : Type} {text result : Query → List Char}

theorem loadBatches_batch (isText : ∀ query, text query ≠ [] ∧ (text query).head? ≠ some 'F')
    (batch : List Query) (rest resultFile : List (List Char)) (chunk : Batch) :
    loadBatches (batch.map text ++ ['F'] :: rest) (batch.map result ++ resultFile) chunk =
      ⟨chunk.input ++ (batch.map text ++ [['F']]).flatMap (· ++ ['\n']),
        chunk.results ++ batch.map result⟩ :: loadBatches rest resultFile ⟨[], []⟩ := by
  induction batch generalizing chunk with
  | nil =>
      rw [List.map_nil, List.nil_append, loadBatches, if_neg (by decide)]
      simp only [List.map_nil, List.append_nil, List.nil_append, List.flatMap_singleton]
  | cons query batch induction =>
      rw [List.map_cons, List.cons_append, loadBatches, if_pos (isText query), List.map_cons,
        List.cons_append, List.tail_cons, induction, List.headD_cons]
      simp only [List.cons_append, List.flatMap_cons, List.append_assoc, List.nil_append]

theorem loadBatches_written (isText : ∀ query, text query ≠ [] ∧ (text query).head? ≠ some 'F')
    (batches : List (List Query)) :
    loadBatches (batches.flatMap fun batch => batch.map text ++ [['F']])
        (batches.flatten.map result) ⟨[], []⟩ =
      batches.map fun batch =>
        ⟨(batch.map text ++ [['F']]).flatMap (· ++ ['\n']), batch.map result⟩ := by
  induction batches with
  | nil => rfl
  | cons batch batches induction =>
      rw [List.flatMap_cons, List.append_assoc, List.singleton_append, List.flatten_cons,
        List.map_append, loadBatches_batch isText, induction]
      rfl

end Loading

end JoinOperator.Harness
