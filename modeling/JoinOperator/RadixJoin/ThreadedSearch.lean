import JoinOperator.RadixJoin.ProbedRows

/-! # The threaded search refines the sequential one -/

namespace JoinOperator.RadixJoin

open Foundation

def Lists (result : Option HeadResult) (rows : Option (List RowTuple)) : Prop :=
  match rows with
  | none => result = none
  | some rows => ∃ list, result = some list ∧ list.Finished ∧ list.nodes.flatten = rows

theorem lists_cleanListHead {action : HeadResult → Option HeadResult}
    {rows : Option (List RowTuple)} (pushes : Pushes action rows) :
    Lists ((action initialiseResultHead).bind cleanListHead) rows := by
  cases rows with
  | none =>
      rw [Lists, pushes initialiseResultHead]
      rfl
  | some rows =>
      rcases pushes.filling HeadResult.filling_initialise with
        ⟨head, equal, filling, headRows⟩
      rcases filling.cleanListHead with ⟨list, cleaned, finished, nodes⟩
      refine ⟨list, ?_, finished, ?_⟩
      · rw [equal, Option.bind_some, cleaned]
      · rw [nodes, headRows]
        rfl

theorem lists_search (indArr : IndexArray) (s : ReorderedR) :
    Lists (search indArr s) (searchRows indArr s (List.range s.pSumArr.psumSize)) :=
  lists_cleanListHead (pushes_searchBuckets indArr s _)

theorem lists_joinBucket (indArr : IndexArray) (s : ReorderedR) (whichResult : Nat) :
    Lists (joinBucket indArr s whichResult) (bucketRows indArr s whichResult) :=
  lists_cleanListHead (pushes_searchBucket indArr s whichResult)

theorem joinBuckets (indArr : IndexArray) (s : ReorderedR) (whichKeys : List Nat) :
    match whichKeys.mapM (joinBucket indArr s) with
    | none => searchRows indArr s whichKeys = none
    | some jobLists => (∀ list ∈ jobLists, list.Finished) ∧
        searchRows indArr s whichKeys = some (jobLists.flatMap fun list => list.nodes.flatten) := by
  induction whichKeys with
  | nil => exact ⟨by simp, rfl⟩
  | cons whichKey whichKeys induction =>
      have first := lists_joinBucket indArr s whichKey
      rw [searchRows_cons, List.mapM_cons]
      cases rows : bucketRows indArr s whichKey with
      | none =>
          rw [rows] at first
          rw [show joinBucket indArr s whichKey = none from first]
          rfl
      | some rows =>
          rw [rows] at first
          rcases first with ⟨list, equal, finished, listRows⟩
          rw [equal]
          cases rest : whichKeys.mapM (joinBucket indArr s) with
          | none =>
              rw [rest] at induction
              simp only [induction]
              rfl
          | some jobLists =>
              rw [rest] at induction
              refine ⟨?_, ?_⟩
              · intro other member
                rcases List.mem_cons.mp member with rfl | member
                · exact finished
                · exact induction.1 other member
              · rw [induction.2, List.flatMap_cons, listRows]
                rfl

theorem connectLists {jobLists : List HeadResult} (complete : ∀ list ∈ jobLists, list.Finished)
    {finalResult : HeadResult} (finished : finalResult.Finished) :
    ∃ connected, jobLists.foldlM connectResultList finalResult = some connected ∧
      connected.Finished ∧ connected.nodes.flatten =
        finalResult.nodes.flatten ++ jobLists.flatMap fun list => list.nodes.flatten := by
  induction jobLists generalizing finalResult with
  | nil => exact ⟨finalResult, rfl, finished, (List.append_nil _).symm⟩
  | cons list jobLists induction =>
      rcases finished.connectResultList (complete list (by simp)) with
        ⟨next, equal, nextFinished, nextRows⟩
      rcases induction (fun other member => complete other (by simp [member])) nextFinished with
        ⟨connected, rest, connectedFinished, connectedRows⟩
      refine ⟨connected, ?_, connectedFinished, ?_⟩
      · rw [List.foldlM_cons, equal]
        exact rest
      · rw [connectedRows, nextRows, List.flatMap_cons, List.append_assoc]

theorem lists_connectAll (indArr : IndexArray) (s : ReorderedR) (whichKeys : List Nat) :
    Lists ((whichKeys.mapM (joinBucket indArr s)).bind connectAll)
      (searchRows indArr s whichKeys) := by
  have jobs := joinBuckets indArr s whichKeys
  cases lists : whichKeys.mapM (joinBucket indArr s) with
  | none =>
      rw [lists] at jobs
      rw [jobs]
      rfl
  | some jobLists =>
      rw [lists] at jobs
      rw [jobs.2]
      exact connectLists jobs.1 HeadResult.finished_initialise

theorem lists_searchThreadVer (schedule : List Turn) (indArr : IndexArray) (s : ReorderedR) :
    Lists (searchThreadVer schedule indArr s)
      (searchRows indArr s (List.range s.pSumArr.psumSize)) := by
  rw [searchThreadVer, Barrier.collect_eq_mapM]
  exact lists_connectAll indArr s _

/-- `threaded` has the results of `sequential` in the same order, and its
counters are exact. -/
structure Refines (threaded sequential : HeadResult) : Prop where
  rows : threaded.nodes.flatten = sequential.nodes.flatten
  totalSize : threaded.totalSize = threaded.nodes.flatten.length
  numbOfNodes : threaded.numbOfNodes = threaded.nodes.length
  tail : threaded.tail = if threaded.nodes = [] then none
    else some (threaded.nodes.length - 1)

theorem Lists.refines {threaded sequential : Option HeadResult}
    {rows : Option (List RowTuple)} (first : Lists threaded rows)
    (second : Lists sequential rows) :
    (sequential = none → threaded = none) ∧ ∀ list, sequential = some list →
      ∃ result, threaded = some result ∧ Refines result list := by
  cases rows with
  | none =>
      refine ⟨fun _ => first, fun list equal => ?_⟩
      rw [show sequential = none from second] at equal
      cases equal
  | some rows =>
      rcases first with ⟨result, isResult, finished, resultRows⟩
      rcases second with ⟨list, isList, _, listRows⟩
      refine ⟨fun failed => ?_, fun other equal => ⟨result, isResult, ?_⟩⟩
      · rw [isList] at failed
        cases failed
      · rw [isList] at equal
        cases equal
        exact ⟨resultRows.trans listRows.symm, finished.totalSize, finished.numbOfNodes,
          finished.tail⟩

/-- Whenever the barrier opens in a run, every slot of `jobLists` is filled, and
connecting the slots refines `search`. Under every schedule `searchThreadVer`
ends when `search` does, and only then. -/
theorem searchThreadVer_refines_search (indArr : IndexArray) (s : ReorderedR)
    (schedule : List Turn) :
    (∀ state, Barrier.run s.pSumArr.psumSize (joinBucket indArr s) schedule
          (Barrier.start s.pSumArr.psumSize) = some state →
        state.Passes s.pSumArr.psumSize →
        ∃ jobLists threaded sequential, jobLists.length = s.pSumArr.psumSize ∧
          state.jobs.map JobState.slot = jobLists.map some ∧
          connectAll jobLists = some threaded ∧ search indArr s = some sequential ∧
          Refines threaded sequential) ∧
      (search indArr s = none → searchThreadVer schedule indArr s = none) ∧
      ∀ sequential, search indArr s = some sequential →
        ∃ threaded, searchThreadVer schedule indArr s = some threaded ∧
          Refines threaded sequential := by
  refine ⟨?_, (lists_searchThreadVer schedule indArr s).refines (lists_search indArr s)⟩
  intro state run passes
  rcases (Barrier.consistent_start.run run).results passes with
    ⟨jobLists, collected, length, slots⟩
  have jobs := joinBuckets indArr s (List.range s.pSumArr.psumSize)
  have connected := lists_connectAll indArr s (List.range s.pSumArr.psumSize)
  have sequential := lists_search indArr s
  rw [collected] at jobs connected
  rw [jobs.2] at connected sequential
  rcases sequential with ⟨list, searched, finished, rows⟩
  have inOrder : Lists (search indArr s) (some _) := ⟨list, searched, finished, rows⟩
  rcases (Lists.refines connected inOrder).2 list searched with ⟨threaded, equal, refines⟩
  exact ⟨jobLists, threaded, list, length, slots, equal, searched, refines⟩

end JoinOperator.RadixJoin
