import Mathlib.Data.List.Basic
import Mathlib.Data.List.Flatten
import Mathlib.Data.List.Range

/-! # A barrier over independent jobs

One thread posts `n` jobs and then waits until a shared counter says that all
of them are done. A job first stores its result in its own slot and then, in a
second atomic step, increments the counter. The threads take turns in any
order.
-/

namespace JoinOperator.Foundation

variable {Result : Type*}

/-- How far one job is, with the content of its slot. -/
inductive JobState (Result : Type*)
  | waiting
  | stored (result : Result)
  | counted (result : Result)
  deriving DecidableEq

namespace JobState

def slot : JobState Result → Option Result
  | waiting => none
  | stored result | counted result => some result

def isCounted : JobState Result → Bool
  | counted _ => true
  | _ => false

end JobState

/-- Who takes the next step: the thread that posts the jobs, or one job. -/
inductive Turn
  | post
  | job (index : Nat)
  deriving DecidableEq

structure Barrier (Result : Type*) where
  posted : Nat
  jobs : List (JobState Result)
  completed : Nat
  deriving DecidableEq

namespace Barrier

def start (n : Nat) : Barrier Result := ⟨0, List.replicate n .waiting, 0⟩

/-- The test of the waiting thread, made once every job is posted. -/
def Passes (n : Nat) (state : Barrier Result) : Prop :=
  state.posted = n ∧ state.completed = n

instance (n : Nat) (state : Barrier Result) : Decidable (state.Passes n) :=
  inferInstanceAs (Decidable (_ ∧ _))

/-- The next step of a posted job. It fails when the job's computation does. -/
def advance (job : Nat → Option Result) (index : Nat) (state : Barrier Result) :
    Option (Barrier Result) :=
  match state.jobs[index]? with
  | some .waiting => do
      let result ← job index
      some { state with jobs := state.jobs.set index (.stored result) }
  | some (.stored result) =>
      some { state with
        jobs := state.jobs.set index (.counted result)
        completed := state.completed + 1 }
  | _ => some state

/-- One step. The turn of a job that is not posted or has finished changes
nothing. -/
def step (n : Nat) (job : Nat → Option Result) (state : Barrier Result) :
    Turn → Option (Barrier Result)
  | .post => some { state with posted := min n (state.posted + 1) }
  | .job index => if index < state.posted then state.advance job index else some state

def run (n : Nat) (job : Nat → Option Result) (schedule : List Turn)
    (state : Barrier Result) : Option (Barrier Result) :=
  schedule.foldlM (step n job) state

def completion (n : Nat) : List Turn :=
  List.replicate n .post ++ (List.range n).flatMap fun index => [.job index, .job index]

/-- The results after a schedule, which goes on until the barrier opens. -/
def collect (n : Nat) (job : Nat → Option Result) (schedule : List Turn) :
    Option (List Result) := do
  let state ← run n job (schedule ++ completion n) (start n)
  (state.jobs.map JobState.slot).mapM id

/-- What every step keeps: the counter counts the counted jobs, and a slot
holds nothing but the result of its own job. -/
structure Consistent (n : Nat) (job : Nat → Option Result) (state : Barrier Result) :
    Prop where
  posted : state.posted ≤ n
  length : state.jobs.length = n
  completed : state.completed = state.jobs.countP JobState.isCounted
  agrees : ∀ index before value, state.jobs[index]? = some before →
    before.slot = some value → job index = some value

variable {n : Nat} {job : Nat → Option Result} {state after : Barrier Result}

theorem consistent_start : (start n : Barrier Result).Consistent n job where
  posted := Nat.zero_le n
  length := by simp [start]
  completed := by simp [start, List.countP_replicate, JobState.isCounted]
  agrees := by
    intro index before value get slot
    rw [start, List.getElem?_replicate] at get
    split at get
    · cases get
      cases slot
    · cases get

inductive Advances (job : Nat → Option Result) (index : Nat) (state : Barrier Result) :
    Barrier Result → Prop
  | stores (result : Result) (get : state.jobs[index]? = some .waiting)
      (computed : job index = some result) :
      Advances job index state { state with jobs := state.jobs.set index (.stored result) }
  | counts (result : Result) (get : state.jobs[index]? = some (.stored result)) :
      Advances job index state { state with
        jobs := state.jobs.set index (.counted result)
        completed := state.completed + 1 }
  | idles (finished : index < state.posted → ∀ before, state.jobs[index]? = some before →
        before.isCounted) :
      Advances job index state state

theorem step_job {index : Nat} (taken : step n job state (.job index) = some after) :
    Advances job index state after := by
  by_cases posted : index < state.posted
  · rw [step, if_pos posted, advance] at taken
    split at taken
    · rename_i get
      rcases Option.bind_eq_some_iff.mp taken with ⟨result, computed, equal⟩
      cases equal
      exact .stores result get computed
    · rename_i result get
      cases taken
      exact .counts result get
    · rename_i notWaiting notStored
      cases taken
      refine .idles fun _ before get => ?_
      cases before with
      | waiting => exact absurd get notWaiting
      | stored result => exact absurd get (notStored result)
      | counted result => rfl
  · rw [step, if_neg posted] at taken
    cases taken
    exact .idles fun bound => absurd bound posted

theorem Consistent.advance (consistent : state.Consistent n job) {index : Nat}
    (advances : Advances job index state after) : after.Consistent n job := by
  cases advances with
  | stores result get computed =>
      rcases List.getElem?_eq_some_iff.mp get with ⟨bound, content⟩
      refine ⟨consistent.posted, by simp [consistent.length], ?_, ?_⟩
      · rw [consistent.completed, List.countP_set bound]
        simp [content, JobState.isCounted]
      · intro other before value found slot
        rw [List.getElem?_set] at found
        split at found
        · rename_i same
          subst same
          cases found
          rw [computed, ← slot, JobState.slot]
        · exact consistent.agrees other before value found slot
  | counts result get =>
      rcases List.getElem?_eq_some_iff.mp get with ⟨bound, content⟩
      refine ⟨consistent.posted, by simp [consistent.length], ?_, ?_⟩
      · rw [List.countP_set bound, ← consistent.completed]
        simp [content, JobState.isCounted]
      · intro other before value found slot
        rw [List.getElem?_set] at found
        split at found
        · rename_i same
          subst same
          cases found
          exact consistent.agrees index _ value get slot
        · exact consistent.agrees other before value found slot
  | idles => exact consistent

theorem Consistent.step (consistent : state.Consistent n job) {turn : Turn}
    (taken : Barrier.step n job state turn = some after) : after.Consistent n job := by
  cases turn with
  | post =>
      cases taken
      exact ⟨Nat.min_le_left _ _, consistent.length, consistent.completed, consistent.agrees⟩
  | job index =>
      exact consistent.advance (step_job taken)

theorem Consistent.run {schedule : List Turn} (consistent : state.Consistent n job)
    (taken : Barrier.run n job schedule state = some after) : after.Consistent n job := by
  induction schedule generalizing state with
  | nil =>
      cases taken
      exact consistent
  | cons turn schedule induction =>
      rcases Option.bind_eq_some_iff.mp taken with ⟨next, first, rest⟩
      exact induction (consistent.step first) rest

/-- The barrier opens only when every slot holds the result of its job. -/
theorem Consistent.slots (consistent : state.Consistent n job) (passes : state.Passes n)
    {index : Nat} (bound : index < n) :
    ∃ result, job index = some result ∧ state.jobs[index]? = some (.counted result) := by
  have every : state.jobs.countP JobState.isCounted = state.jobs.length := by
    rw [← consistent.completed, passes.2, consistent.length]
  have inside : index < state.jobs.length := by
    rw [consistent.length]
    exact bound
  have get := List.getElem?_eq_getElem inside
  have counted := List.countP_eq_length.mp every _ (List.getElem_mem inside)
  cases content : state.jobs[index] with
  | waiting | stored value => simp [content, JobState.isCounted] at counted
  | counted value =>
      rw [content] at get
      exact ⟨value, consistent.agrees index _ value get rfl, get⟩

theorem Consistent.slots_eq (consistent : state.Consistent n job) (passes : state.Passes n) :
    state.jobs.map JobState.slot = (List.range n).map job := by
  apply List.ext_getElem?
  intro index
  rw [List.getElem?_map, List.getElem?_map]
  by_cases bound : index < n
  · rcases consistent.slots passes bound with ⟨result, computed, get⟩
    rw [get, List.getElem?_range bound, Option.map_some, Option.map_some, computed]
    rfl
  · rw [List.getElem?_eq_none (by rw [consistent.length]; omega),
      List.getElem?_eq_none (by rw [List.length_range]; omega)]
    rfl

private theorem mapM_eq_none {Index : Type} {job : Index → Option Result}
    {indices : List Index} {index : Index} (member : index ∈ indices)
    (failed : job index = none) : indices.mapM job = none := by
  induction indices with
  | nil => cases member
  | cons first rest induction =>
      rw [List.mapM_cons]
      rcases List.mem_cons.mp member with rfl | member
      · rw [failed]
        rfl
      · cases job first with
        | none => rfl
        | some result => simp [induction member]

private theorem mapM_eq_some {Index : Type} {job : Index → Option Result}
    {indices : List Index} (computed : ∀ index ∈ indices, ∃ result, job index = some result) :
    ∃ results, indices.mapM job = some results ∧ indices.map job = results.map some := by
  induction indices with
  | nil => exact ⟨[], rfl, rfl⟩
  | cons first rest induction =>
      rcases computed first (by simp) with ⟨result, equal⟩
      rcases induction fun index member => computed index (by simp [member]) with
        ⟨results, collected, mapped⟩
      refine ⟨result :: results, ?_, ?_⟩
      · rw [List.mapM_cons, equal, collected]
        rfl
      · rw [List.map_cons, List.map_cons, equal, mapped]

theorem Consistent.results (consistent : state.Consistent n job) (passes : state.Passes n) :
    ∃ results, (List.range n).mapM job = some results ∧ results.length = n ∧
      state.jobs.map JobState.slot = results.map some := by
  have computed : ∀ index ∈ List.range n, ∃ result, job index = some result := by
    intro index member
    rcases consistent.slots passes (List.mem_range.mp member) with ⟨result, equal, _⟩
    exact ⟨result, equal⟩
  rcases mapM_eq_some computed with ⟨results, collected, mapped⟩
  have slots := (consistent.slots_eq passes).trans mapped
  have length := congrArg List.length slots
  rw [List.length_map, List.length_map, consistent.length] at length
  exact ⟨results, collected, length.symm, slots⟩

theorem finished_step {turn : Turn} {index : Nat} {result : Result}
    (finished : state.jobs[index]? = some (.counted result))
    (taken : step n job state turn = some after) :
    after.jobs[index]? = some (.counted result) := by
  cases turn with
  | post =>
      cases taken
      exact finished
  | job other =>
      have differs {before : JobState Result} (get : state.jobs[other]? = some before)
          (running : before.isCounted = false) : other ≠ index := by
        rintro rfl
        rw [finished] at get
        cases get
        cases running
      cases step_job taken with
      | stores result get computed =>
          rw [List.getElem?_set_ne (differs get rfl)]
          exact finished
      | counts result get =>
          rw [List.getElem?_set_ne (differs get rfl)]
          exact finished
      | idles => exact finished

theorem finished_run {schedule : List Turn} {index : Nat} {result : Result}
    (finished : state.jobs[index]? = some (.counted result))
    (taken : run n job schedule state = some after) :
    after.jobs[index]? = some (.counted result) := by
  induction schedule generalizing state with
  | nil =>
      cases taken
      exact finished
  | cons turn schedule induction =>
      rcases Option.bind_eq_some_iff.mp taken with ⟨next, first, rest⟩
      exact induction (finished_step finished first) rest

theorem finishes {index : Nat} (posted : index < state.posted)
    (inside : index < state.jobs.length)
    (taken : run n job [.job index, .job index] state = some after) :
    ∃ result, after.jobs[index]? = some (.counted result) := by
  rcases Option.bind_eq_some_iff.mp taken with ⟨next, first, rest⟩
  rcases Option.bind_eq_some_iff.mp rest with ⟨last, second, equal⟩
  cases equal
  cases step_job first with
  | stores result get computed =>
      refine ⟨result, ?_⟩
      have stored : (state.jobs.set index (.stored result))[index]? = some (.stored result) :=
        List.getElem?_set_self inside
      cases step_job second with
      | stores other get => exact absurd (stored.symm.trans get) (by simp)
      | counts other get =>
          cases stored.symm.trans get
          exact List.getElem?_set_self (by simpa using inside)
      | idles finished => cases finished posted _ stored
  | counts result get =>
      exact ⟨result, finished_step (List.getElem?_set_self inside) second⟩
  | idles finished =>
      have get := List.getElem?_eq_getElem inside
      have counted := finished posted _ get
      cases content : state.jobs[index] with
      | waiting | stored value => simp [content, JobState.isCounted] at counted
      | counted value =>
          rw [content] at get
          exact ⟨value, finished_step get second⟩

theorem run_append (schedule rest : List Turn) :
    run n job (schedule ++ rest) state =
      (run n job schedule state).bind (run n job rest) := by
  rw [run, List.foldlM_append]
  rfl

private theorem posted_run {schedule : List Turn} (posted : state.posted = n)
    (taken : run n job schedule state = some after) : after.posted = n := by
  induction schedule generalizing state with
  | nil =>
      cases taken
      exact posted
  | cons turn schedule induction =>
      rcases Option.bind_eq_some_iff.mp taken with ⟨next, first, rest⟩
      refine induction ?_ rest
      cases turn with
      | post =>
          cases first
          simp [posted]
      | job index => cases step_job first <;> exact posted

private theorem run_post (count : Nat) (bound : state.posted ≤ n) :
    run n job (List.replicate count .post) state =
      some { state with posted := min n (state.posted + count) } := by
  induction count generalizing state with
  | zero => simp [run, Nat.min_eq_right bound]
  | succ count induction =>
      have rest : run n job (List.replicate (count + 1) .post) state =
          run n job (List.replicate count .post)
            { state with posted := min n (state.posted + 1) } := rfl
      rw [rest, induction (Nat.min_le_left _ _)]
      simp
      omega

private theorem run_jobs {count : Nat} (bound : count ≤ n)
    (consistent : state.Consistent n job) (posted : state.posted = n)
    (taken : run n job ((List.range count).flatMap fun index => [.job index, .job index])
      state = some after) :
    ∀ index < count, ∃ result, after.jobs[index]? = some (.counted result) := by
  induction count generalizing after with
  | zero =>
      intro index below
      omega
  | succ count induction =>
      rw [List.range_succ, List.flatMap_append, run_append] at taken
      rcases Option.bind_eq_some_iff.mp taken with ⟨middle, first, rest⟩
      intro index below
      by_cases last : index = count
      · subst last
        refine finishes ?_ ?_ rest
        · rw [posted_run posted first]
          exact bound
        · rw [(consistent.run first).length]
          exact bound
      · rcases induction (by omega) first index (by omega) with ⟨result, finished⟩
        exact ⟨result, finished_run finished rest⟩

/-- A run fails only when the computation of one of the jobs does. -/
theorem failed_run {schedule : List Turn} (consistent : state.Consistent n job)
    (failed : run n job schedule state = none) : ∃ index < n, job index = none := by
  induction schedule generalizing state with
  | nil => cases failed
  | cons turn schedule induction =>
      cases first : step n job state turn with
      | some next =>
          refine induction (consistent.step first) ?_
          rw [run, List.foldlM_cons, first] at failed
          exact failed
      | none =>
          cases turn with
          | post => cases first
          | job index =>
              rw [step] at first
              split at first
              · rename_i posted
                refine ⟨index, Nat.lt_of_lt_of_le posted consistent.posted, ?_⟩
                rw [advance] at first
                split at first
                · cases computed : job index with
                  | none => rfl
                  | some result => simp [computed] at first
                · cases first
                · cases first
              · cases first

/-- The results do not depend on the schedule. -/
theorem collect_eq_mapM (n : Nat) (job : Nat → Option Result) (schedule : List Turn) :
    collect n job schedule = (List.range n).mapM job := by
  rw [collect, run_append]
  cases first : run n job schedule (start n) with
  | none =>
      rcases failed_run consistent_start first with ⟨index, bound, failed⟩
      exact (mapM_eq_none (List.mem_range.mpr bound) failed).symm
  | some middle =>
      have consistent : middle.Consistent n job := consistent_start.run first
      rw [completion, Option.bind_some, run_append, run_post n consistent.posted,
        Option.bind_some]
      have allPosted : min n (middle.posted + n) = n := by omega
      have posted : Barrier.Consistent n job
          { middle with posted := min n (middle.posted + n) } :=
        ⟨Nat.min_le_left _ _, consistent.length, consistent.completed, consistent.agrees⟩
      cases last : run n job ((List.range n).flatMap fun index => [.job index, .job index])
          { middle with posted := min n (middle.posted + n) } with
      | none =>
          rcases failed_run posted last with ⟨index, bound, failed⟩
          exact (mapM_eq_none (List.mem_range.mpr bound) failed).symm
      | some final =>
          have finalConsistent := posted.run last
          have finished := run_jobs (Nat.le_refl n) posted allPosted last
          have passes : final.Passes n := by
            refine ⟨posted_run allPosted last, ?_⟩
            rw [finalConsistent.completed, ← finalConsistent.length]
            apply List.countP_eq_length.mpr
            intro before member
            rcases List.getElem?_of_mem member with ⟨index, get⟩
            have bound := (List.getElem?_eq_some_iff.mp get).1
            rw [finalConsistent.length] at bound
            rcases finished index bound with ⟨result, counted⟩
            rw [get] at counted
            cases counted
            rfl
          change (final.jobs.map JobState.slot).mapM id = _
          rw [finalConsistent.slots_eq passes, List.mapM_map]
          rfl

end Barrier

end JoinOperator.Foundation
