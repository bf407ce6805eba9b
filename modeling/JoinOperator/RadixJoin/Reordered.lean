import JoinOperator.RadixJoin.Construction
import Mathlib.Data.List.Perm.Basic
import Mathlib.Data.Option.Basic

/-! # Reordering is correct under every schedule -/

namespace JoinOperator.RadixJoin

open Foundation

namespace Construction

variable {blues : Blueprints} {state : Construction}

def Explained (blues : Blueprints) (state : Construction) : Prop :=
  ∃ taken, Coherent blues state taken

theorem explained_start (blues : Blueprints) :
    Explained blues (start blues (histOf blues.hashValues blues.hash1)) := by
  have worker {k : Nat} {worker : Worker}
      (get : (start blues (histOf blues.hashValues blues.hash1)).workers[k]? = some worker) :
      k < numbOfThreads ∧ worker = ⟨shareFrom blues.size k, none, false⟩ := by
    have bound := (List.getElem?_eq_some_iff.mp get).1
    simp only [start, List.length_map, List.length_range] at bound
    simp only [start, List.getElem?_map, List.getElem?_range bound, Option.map_some,
      Option.some_inj] at get
    exact ⟨bound, get.symm⟩
  have notHeld (position : Nat) :
      ¬ Held (start blues (histOf blues.hashValues blues.hash1)) position := by
    rintro ⟨k, found, get, _, holds⟩
    rw [(worker get).2] at holds
    cases holds
  refine ⟨[], ?_⟩
  refine
    { posted := Nat.zero_le _
      workers := by simp [start]
      shares := ?_
      completed := by simp [start, List.countP_map, Function.comp_def]
      positions := ?_
      hist := ?_
      slots := fun _ _ => rfl
      holding := ?_
      newR := by simp [start]
      placed := by simp
      written := by simp [start]
      once := List.nodup_nil }
  · intro k found get
    rcases worker get with ⟨below, rfl⟩
    refine ⟨Nat.le_refl _, ?_, by simp⟩
    have mono := shareBound_mono blues.size below
    rw [← shareTo_eq _ below, ← shareFrom_eq _ below] at mono
    exact mono
  · have none (k : Nat) :
        claimedBy blues (start blues (histOf blues.hashValues blues.hash1)) k = [] := by
      rw [claimedBy]
      split
      · rename_i found get
        rw [(worker get).2]
        simp
      · rfl
    simp [none]
  · intro value below
    exact getElem?_histOf _ below
  · intro k found temp get holds
    rw [(worker get).2] at holds
    cases holds

def turnsLeft (size k : Nat) (worker : Worker) : Nat :=
  2 * (shareTo size k - worker.i) + (if worker.finished then 0 else 1) -
    if worker.temp.isSome then 1 else 0

structure Turned (size k : Nat) (state after : Construction) : Prop where
  posted : after.posted = state.posted
  others : ∀ other ≠ k, after.workers[other]? = state.workers[other]?
  progress : ∀ worker, state.workers[k]? = some worker → ∃ next,
    after.workers[k]? = some next ∧ turnsLeft size k next ≤ turnsLeft size k worker - 1

theorem Explained.advance (explained : Explained blues state) (prepared : blues.Prepared)
    (k : Nat) : ∃ after, Construction.advance blues state k = some after ∧
      Explained blues after ∧ Turned blues.size k state after := by
  rcases explained with ⟨taken, coherent⟩
  rw [Construction.advance]
  cases get : state.workers[k]? with
  | none =>
      refine ⟨state, rfl, ⟨taken, coherent⟩, rfl, fun _ _ => rfl, ?_⟩
      intro worker get'
      rw [get] at get'
      cases get'
  | some worker =>
      have bound := (List.getElem?_eq_some_iff.mp get).1
      have share := coherent.shares k worker get
      have ends := share.ends
      -- a turn that replaces the worker by `next`
      have turned {after : Construction} (next : Worker) (posted : after.posted = state.posted)
          (workers : after.workers = state.workers.set k next)
          (less : turnsLeft blues.size k next ≤ turnsLeft blues.size k worker - 1) :
          Turned blues.size k state after := by
        refine ⟨posted, fun other differs => ?_, fun found get' => ⟨next, ?_, ?_⟩⟩
        · rw [workers, List.getElem?_set_ne (Ne.symm differs)]
        · rw [workers, List.getElem?_set_self bound]
        · rw [get] at get'
          cases get'
          exact less
      cases holds : worker.temp with
      | some temp =>
          rcases coherent.place prepared get holds with ⟨after, placed, workers, posted, kept⟩
          refine ⟨after, ?_, ⟨taken, kept⟩, turned _ posted workers ?_⟩
          · simp only [holds, placed]
          · rw [holds] at ends
            simp [turnsLeft, holds] at ends ⊢
            omega
      | none =>
          by_cases more : worker.i < shareTo blues.size k
          · rcases coherent.claim prepared (coherent.index_lt get) get holds more with
              ⟨after, temp, slot, claimed, workers, posted, kept⟩
            refine ⟨after, ?_, ⟨_, kept⟩, turned _ posted workers ?_⟩
            · simp only [holds, if_pos more, claimed]
            · simp [turnsLeft, holds]
          · cases finished : worker.finished with
            | true =>
                refine ⟨state, ?_, ⟨taken, coherent⟩, rfl, fun _ _ => rfl, ?_⟩
                · simp only [holds, if_neg more, finished, if_true]
                · intro found get'
                  rw [get] at get'
                  cases get'
                  refine ⟨worker, get, ?_⟩
                  simp [turnsLeft, holds, finished]
                  omega
            | false =>
                refine ⟨Construction.complete state k worker, ?_,
                  ⟨taken, coherent.complete get finished more⟩,
                  turned { worker with finished := true } rfl rfl ?_⟩
                · simp [holds, if_neg more, finished]
                · simp [turnsLeft, holds, finished]

theorem Explained.step (explained : Explained blues state) (prepared : blues.Prepared)
    (turn : Turn) : ∃ after, Construction.step blues state turn = some after ∧
      Explained blues after := by
  cases turn with
  | post =>
      rcases explained with ⟨taken, coherent⟩
      exact ⟨_, rfl, taken, { coherent with posted := Nat.min_le_left _ _ }⟩
  | job k =>
      rw [Construction.step]
      split
      · rcases explained.advance prepared k with ⟨after, advanced, kept, _⟩
        exact ⟨after, advanced, kept⟩
      · exact ⟨state, rfl, explained⟩

theorem Explained.run (explained : Explained blues state) (prepared : blues.Prepared)
    (schedule : List Turn) : ∃ after, Construction.run blues schedule state = some after ∧
      Explained blues after := by
  induction schedule generalizing state with
  | nil => exact ⟨state, rfl, explained⟩
  | cons turn schedule induction =>
      rcases explained.step prepared turn with ⟨next, stepped, nextExplained⟩
      rcases induction nextExplained with ⟨after, ran, afterExplained⟩
      refine ⟨after, ?_, afterExplained⟩
      rw [Construction.run, List.foldlM_cons, stepped]
      exact ran

theorem run_append (schedule rest : List Turn) :
    run blues (schedule ++ rest) state = (run blues schedule state).bind (run blues rest) := by
  rw [run, List.foldlM_append]
  rfl

private theorem run_post (count : Nat) (bound : state.posted ≤ numbOfThreads) :
    run blues (List.replicate count .post) state =
      some { state with posted := min numbOfThreads (state.posted + count) } := by
  induction count generalizing state with
  | zero => simp [run, Nat.min_eq_right bound]
  | succ count induction =>
      have rest : run blues (List.replicate (count + 1) .post) state =
          run blues (List.replicate count .post)
            { state with posted := min numbOfThreads (state.posted + 1) } := rfl
      rw [rest, induction (Nat.min_le_left _ _)]
      simp
      omega

private theorem run_job (explained : Explained blues state) (prepared : blues.Prepared)
    {k : Nat} (below : k < state.posted) (count : Nat) :
    ∃ after, run blues (List.replicate count (.job k)) state = some after ∧
      Explained blues after ∧ after.posted = state.posted ∧
      (∀ other ≠ k, after.workers[other]? = state.workers[other]?) ∧
      ∀ worker, state.workers[k]? = some worker → ∃ next,
        after.workers[k]? = some next ∧
          turnsLeft blues.size k next ≤ turnsLeft blues.size k worker - count := by
  induction count generalizing state with
  | zero =>
      exact ⟨state, rfl, explained, rfl, fun _ _ => rfl,
        fun worker get => ⟨worker, get, Nat.le_refl _⟩⟩
  | succ count induction =>
      rcases explained.advance prepared k with ⟨next, advanced, nextExplained, turned⟩
      rcases induction nextExplained (by rw [turned.posted]; exact below) with
        ⟨after, ran, afterExplained, posted, others, progress⟩
      refine ⟨after, ?_, afterExplained, posted.trans turned.posted, ?_, ?_⟩
      · have first : step blues state (.job k) = some next := by
          rw [step, if_pos below, advanced]
        rw [run, List.replicate_succ, List.foldlM_cons, first]
        exact ran
      · intro other differs
        rw [others other differs, turned.others other differs]
      · intro worker get
        rcases turned.progress worker get with ⟨middle, getMiddle, less⟩
        rcases progress middle getMiddle with ⟨last, getLast, lessLast⟩
        exact ⟨last, getLast, by omega⟩

private theorem turnsLeft_le (size : Nat) {k : Nat} (below : k < numbOfThreads)
    (worker : Worker) : turnsLeft size k worker ≤ 2 * size + 1 := by
  have atMost := shareBound_le size (k + 1)
  rw [← shareTo_eq _ below] at atMost
  have last : (if worker.finished then 0 else 1) ≤ 1 := by
    split <;> omega
  rw [turnsLeft]
  omega

private theorem run_jobs (explained : Explained blues state) (prepared : blues.Prepared)
    (posted : state.posted = numbOfThreads) {count : Nat} (atMost : count ≤ numbOfThreads) :
    ∃ after, run blues ((List.range count).flatMap fun k =>
        List.replicate (2 * blues.size + 1) (.job k)) state = some after ∧
      Explained blues after ∧ after.posted = numbOfThreads ∧
      ∀ k < count, ∃ worker, after.workers[k]? = some worker ∧
        turnsLeft blues.size k worker = 0 := by
  induction count with
  | zero => exact ⟨state, rfl, explained, posted, by simp⟩
  | succ count induction =>
      rcases induction (by omega) with ⟨middle, ran, middleExplained, middlePosted, done⟩
      rcases run_job middleExplained prepared (k := count) (by omega) (2 * blues.size + 1) with
        ⟨after, last, afterExplained, afterPosted, others, progress⟩
      refine ⟨after, ?_, afterExplained, afterPosted.trans middlePosted, ?_⟩
      · rw [List.range_succ, List.flatMap_append, run_append, ran, List.flatMap_singleton]
        exact last
      · intro k below
        by_cases same : k = count
        · subst same
          rcases middleExplained with ⟨taken, coherent⟩
          have inside : k < middle.workers.length := by
            rw [coherent.workers]
            exact atMost
          rcases progress _ (List.getElem?_eq_getElem inside) with ⟨worker, get, less⟩
          have bound := turnsLeft_le blues.size (k := k) atMost middle.workers[k]
          exact ⟨worker, get, by omega⟩
        · rw [others k same]
          exact done k (by omega)

/-- Every schedule can be continued until all the jobs are counted. -/
theorem Explained.completes (explained : Explained blues state) (prepared : blues.Prepared) :
    ∃ final, Construction.run blues (completion blues.size) state = some final ∧
      Explained blues final ∧ final.Passes := by
  rcases explained with ⟨taken, coherent⟩
  have posted : min numbOfThreads (state.posted + numbOfThreads) = numbOfThreads := by
    have := coherent.posted
    omega
  have posting : Explained blues
      { state with posted := min numbOfThreads (state.posted + numbOfThreads) } :=
    ⟨taken, { coherent with posted := Nat.min_le_left _ _ }⟩
  rcases run_jobs posting prepared posted (Nat.le_refl _) with
    ⟨final, ran, ⟨taken', finalCoherent⟩, finalPosted, done⟩
  refine ⟨final, ?_, ⟨taken', finalCoherent⟩, finalPosted, ?_⟩
  · rw [completion, run_append, run_post _ coherent.posted]
    exact ran
  · rw [finalCoherent.completed, ← finalCoherent.workers]
    apply List.countP_eq_length.mpr
    intro worker member
    rcases List.getElem?_of_mem member with ⟨k, get⟩
    rcases done k (finalCoherent.index_lt get) with ⟨found, get', none⟩
    rw [get] at get'
    cases get'
    have ends := (finalCoherent.shares k worker get).ends
    cases finished : worker.finished with
    | true => rfl
    | false =>
        cases holds : worker.temp <;> simp [turnsLeft, holds, finished] at none ends
        omega

structure Constructed (blues : Blueprints) (state : Construction) (rel : List Tuple) :
    Prop where
  newR : state.newR = rel.map some
  perm : rel.Perm blues.tuples
  once : state.written.Perm (List.range blues.size)
  grouped : ∀ (slot : Nat) (t : Tuple), rel[slot]? = some t → ∃ position value : Nat,
    blues.tuples[position]? = some t ∧ blues.hashValues[position]? = some value ∧
      startOf blues.hashValues value ≤ slot ∧ slot < startOf blues.hashValues (value + 1)

private theorem exists_map_some {values : List (Option Tuple)}
    (allSome : ∀ value ∈ values, ∃ t, value = some t) :
    ∃ rel : List Tuple, values = rel.map some := by
  induction values with
  | nil => exact ⟨[], rfl⟩
  | cons value values induction =>
      rcases allSome value (by simp) with ⟨t, rfl⟩
      rcases induction fun other member => allSome other (by simp [member]) with ⟨rel, rfl⟩
      exact ⟨t :: rel, rfl⟩

private theorem map_getElem? {Value : Type} (values : List Value) :
    (List.range values.length).map (fun position => values[position]?) = values.map some := by
  apply List.ext_getElem
  · simp
  · intro position first second
    simp

theorem Coherent.atEnd {taken : List (Nat × Nat)} (coherent : Coherent blues state taken)
    (passes : state.Passes) {k : Nat} {worker : Worker}
    (get : state.workers[k]? = some worker) :
    worker.i = shareTo blues.size k ∧ worker.temp = none ∧ worker.finished = true := by
  have every : state.workers.countP Worker.finished = state.workers.length := by
    rw [← coherent.completed, passes.2, coherent.workers]
  have finished := List.countP_eq_length.mp every worker (List.mem_of_getElem? get)
  have share := coherent.shares k worker get
  have last := share.finished finished
  refine ⟨last, ?_, finished⟩
  have ends := share.ends
  cases holds : worker.temp with
  | none => rfl
  | some temp =>
      rw [holds] at ends
      simp at ends
      omega

theorem Coherent.positions_atEnd {taken : List (Nat × Nat)}
    (coherent : Coherent blues state taken) (passes : state.Passes) :
    (taken.map Prod.fst).Perm (List.range blues.size) := by
  have whole := flatMap_shares (List.range blues.size)
  rw [List.length_range] at whole
  have length := congrArg List.length whole
  apply coherent.once_each.perm_of_length_le
  rw [coherent.positions.length_eq, ← length, List.length_flatMap, List.length_flatMap]
  apply Nat.le_of_eq
  congr 1
  apply List.map_congr_left
  intro k member
  have below := List.mem_range.mp member
  have ends := shareBound_le blues.size (k + 1)
  rw [← shareTo_eq _ below] at ends
  have inside : k < state.workers.length := by
    rw [coherent.workers]
    exact below
  have get := List.getElem?_eq_getElem inside
  rcases coherent.atEnd passes get with ⟨atEnd, free, _⟩
  rw [claimedBy, get]
  simp only [atEnd, free, List.length_take, List.length_drop, List.length_range,
    List.length_range']
  simp
  omega

/-- If all positions have been claimed, all slots have been given. -/
theorem Coherent.slots_perm {taken : List (Nat × Nat)} (coherent : Coherent blues state taken)
    (prepared : blues.Prepared) (positions : (taken.map Prod.fst).Perm (List.range blues.size)) :
    (taken.map Prod.snd).Perm (List.range blues.size) := by
  have nodup : (taken.map Prod.snd).Nodup := by
    apply List.Nodup.map_on _ (List.Nodup.of_map _ coherent.nodup)
    rintro ⟨first, slot⟩ member ⟨second, slot'⟩ member' equal
    cases equal
    rw [coherent.slot_inj prepared member member']
  apply (List.subperm_of_subset nodup ?_).perm_of_length_le
  · rw [List.length_range, List.length_map, ← positions.length_eq.trans List.length_range,
      List.length_map]
  · intro slot member
    rcases List.mem_map.mp member with ⟨⟨position, _⟩, claim, rfl⟩
    exact List.mem_range.mpr (coherent.slot_lt prepared claim)

theorem Coherent.constructed {taken : List (Nat × Nat)}
    (coherent : Coherent blues state taken) (prepared : blues.Prepared)
    (passes : state.Passes) : ∃ rel, Constructed blues state rel := by
  have notHeld (position : Nat) : ¬ Held state position := by
    rintro ⟨k, worker, get, _, holds⟩
    rw [(coherent.atEnd passes get).2.1] at holds
    cases holds
  have positions := coherent.positions_atEnd passes
  have slots := coherent.slots_perm prepared positions
  have claimed {slot : Nat} (below : slot < blues.size) : ∃ position, (position, slot) ∈ taken := by
    have member := slots.symm.subset (List.mem_range.mpr below)
    rcases List.mem_map.mp member with ⟨⟨position, _⟩, claim, rfl⟩
    exact ⟨position, claim⟩
  have placed {position slot : Nat} (claim : (position, slot) ∈ taken) :
      slot ∈ state.written ∧ ∃ t, blues.tuples[position]? = some t ∧
        state.newR[slot]? = some (some t) :=
    (coherent.placed position slot claim).resolve_left (notHeld position)
  have allSome : ∀ value ∈ state.newR, ∃ t, value = some t := by
    intro value member
    rcases List.getElem?_of_mem member with ⟨slot, get⟩
    have below := (List.getElem?_eq_some_iff.mp get).1
    rw [coherent.newR] at below
    rcases claimed below with ⟨position, claim⟩
    rcases (placed claim).2 with ⟨t, _, content⟩
    rw [get] at content
    exact ⟨t, Option.some.inj content⟩
  rcases exists_map_some allSome with ⟨rel, isRel⟩
  have length : rel.length = blues.size := by
    rw [← coherent.newR, isRel, List.length_map]
  have content {position slot : Nat} (claim : (position, slot) ∈ taken) :
      rel[slot]? = blues.tuples[position]? := by
    rcases (placed claim).2 with ⟨t, isTuple, isNew⟩
    rw [isRel, List.getElem?_map] at isNew
    rcases Option.map_eq_some_iff.mp isNew with ⟨t', get, equal⟩
    cases equal
    rw [get, isTuple]
  refine ⟨rel, isRel, ?_, ?_, ?_⟩
  · -- both lists are what the claims name, by slots and by positions
    rw [← List.map_perm_map_iff (Option.some_injective _), ← map_getElem? rel,
      ← map_getElem? blues.tuples, length]
    have bySlot := (slots.map fun slot => rel[slot]?).symm
    have byPosition := positions.map fun position => blues.tuples[position]?
    rw [List.map_map] at bySlot byPosition
    refine bySlot.trans (List.Perm.trans (.of_eq ?_) byPosition)
    apply List.map_congr_left
    rintro ⟨position, slot⟩ claim
    exact content claim
  · apply (List.perm_ext_iff_of_nodup coherent.once List.nodup_range).mpr
    intro slot
    rw [List.mem_range]
    constructor
    · intro member
      rcases coherent.written slot member with ⟨position, claim, _⟩
      exact coherent.slot_lt prepared claim
    · intro below
      rcases claimed below with ⟨position, claim⟩
      exact (placed claim).1
  · intro slot t get
    have below := (List.getElem?_eq_some_iff.mp get).1
    rw [length] at below
    rcases claimed below with ⟨position, claim⟩
    rcases coherent.slot_in_bucket prepared claim with ⟨value, hash, _, starts, ends, _⟩
    exact ⟨position, value, (content claim).symm.trans get, hash, starts, ends⟩

end Construction

end JoinOperator.RadixJoin
