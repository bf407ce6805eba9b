import Mathlib.Data.List.Basic
import Mathlib.Data.List.Range

/-! # Counting loops that can fail

The proof rule for a loop over `0, 1, .. n - 1` whose body may fail.
-/

namespace JoinOperator.Foundation

universe u

@[simp] theorem ok_bind {Error : Type*} {α β : Type u} (value : α) (next : α → Except Error β) :
    (Except.ok value >>= next) = next value := rfl

@[simp] theorem error_bind {Error : Type*} {α β : Type u} (fault : Error)
    (next : α → Except Error β) : (Except.error fault >>= next) = .error fault := rfl

/-- What relates the states around a loop that succeeded, built up from its
iterations. -/
theorem foldlM_ok_induction {Error : Type*} {State : Type u} {Item : Type*}
    {step : State → Item → Except Error State} (Related : List Item → State → State → Prop)
    (nil : ∀ state, Related [] state state)
    (cons : ∀ item items state next final, step state item = .ok next →
      Related items next final → Related (item :: items) state final)
    {items : List Item} {start final : State} (ran : items.foldlM step start = .ok final) :
    Related items start final := by
  induction items generalizing start with
  | nil =>
      cases ran
      exact nil _
  | cons item items induction =>
      rw [List.foldlM_cons] at ran
      cases first : step start item with
      | error fault =>
          rw [first] at ran
          cases ran
      | ok next =>
          rw [first, ok_bind] at ran
          exact cons item items start next final first (induction ran)

variable {State : Type*}

theorem foldlM_range_succ (body : State → Nat → Option State) (n : Nat) (start : State) :
    (List.range (n + 1)).foldlM body start =
      ((List.range n).foldlM body start).bind fun state => body state n := by
  rw [List.range_succ, List.foldlM_append]
  simp

/-- What holds before the loop and is kept by each iteration holds after it,
and the loop does not fail. -/
theorem foldlM_range_invariant {body : State → Nat → Option State} {n : Nat}
    {start : State} (Invariant : Nat → State → Prop) (holds : Invariant 0 start)
    (kept : ∀ i < n, ∀ state, Invariant i state →
      ∃ after, body state i = some after ∧ Invariant (i + 1) after) :
    ∃ final, (List.range n).foldlM body start = some final ∧ Invariant n final := by
  induction n with
  | zero => exact ⟨start, rfl, holds⟩
  | succ n induction =>
      rcases induction fun i below => kept i (Nat.lt_succ_of_lt below) with
        ⟨state, ran, invariant⟩
      rcases kept n (Nat.lt_succ_self n) state invariant with ⟨after, step, afterInvariant⟩
      refine ⟨after, ?_, afterInvariant⟩
      rw [foldlM_range_succ, ran, Option.bind_some, step]

theorem foldlM_range'_invariant {body : State → Nat → Option State} {first count : Nat}
    {start : State} (Invariant : Nat → State → Prop) (holds : Invariant first start)
    (kept : ∀ i, first ≤ i → i < first + count → ∀ state, Invariant i state →
      ∃ after, body state i = some after ∧ Invariant (i + 1) after) :
    ∃ final, (List.range' first count).foldlM body start = some final ∧
      Invariant (first + count) final := by
  rw [List.range'_eq_map_range, List.foldlM_map]
  apply foldlM_range_invariant fun i state => Invariant (first + i) state
  · exact holds
  · exact fun i below state invariant =>
      kept (first + i) (Nat.le_add_right first i) (Nat.add_lt_add_left below first) state invariant

/-- The rule for a loop that may fail: nothing is claimed where it does. -/
theorem foldlM_some_invariant {Item : Type*} {step : State → Item → Option State}
    (Invariant : State → Prop) {items : List Item} (kept : ∀ item ∈ items, ∀ state after,
      Invariant state → step state item = some after → Invariant after) {start final : State}
    (holds : Invariant start) (ran : items.foldlM step start = some final) :
    Invariant final := by
  induction items generalizing start with
  | nil =>
      cases ran
      exact holds
  | cons first items induction =>
      rw [List.foldlM_cons] at ran
      rcases Option.bind_eq_some_iff.mp ran with ⟨next, stepped, rest⟩
      exact induction (fun item member => kept item (by simp [member]))
        (kept first (by simp) start next holds stepped) rest

theorem foldlM_invariant {Item : Type*} {step : State → Item → Option State}
    {Invariant : State → Prop} {items : List Item} (kept : ∀ item ∈ items, ∀ state,
      Invariant state → ∃ after, step state item = some after ∧ Invariant after)
    {start : State} (holds : Invariant start) :
    ∃ final, items.foldlM step start = some final ∧ Invariant final := by
  induction items generalizing start with
  | nil => exact ⟨start, rfl, holds⟩
  | cons first items induction =>
      rcases kept first (by simp) start holds with ⟨next, stepped, nextHolds⟩
      rcases induction (fun item member => kept item (by simp [member])) nextHolds with
        ⟨final, ran, finalHolds⟩
      refine ⟨final, ?_, finalHolds⟩
      rw [List.foldlM_cons, stepped]
      exact ran

theorem foldlM_appends {Item Output : Type*} {step : State → Item → Option State}
    (output : State → List Output) (made : Item → List Output) (Invariant : State → Prop)
    {items : List Item} (kept : ∀ item ∈ items, ∀ state, Invariant state →
      ∃ after, step state item = some after ∧ Invariant after ∧
        output after = output state ++ made item)
    {start : State} (holds : Invariant start) :
    ∃ final, items.foldlM step start = some final ∧ Invariant final ∧
      output final = output start ++ items.flatMap made := by
  induction items generalizing start with
  | nil => exact ⟨start, rfl, holds, (List.append_nil _).symm⟩
  | cons first items induction =>
      rcases kept first (by simp) start holds with ⟨next, stepped, nextHolds, nextOutput⟩
      rcases induction (fun item member => kept item (by simp [member])) nextHolds with
        ⟨final, ran, finalHolds, finalOutput⟩
      refine ⟨final, ?_, finalHolds, ?_⟩
      · rw [List.foldlM_cons, stepped]
        exact ran
      · rw [finalOutput, nextOutput, List.flatMap_cons, List.append_assoc]

theorem foldlM_fixed {Item : Type*} {step : State → Item → Option State} {items : List Item}
    {state : State} (fixed : ∀ item ∈ items, step state item = some state) :
    items.foldlM step state = some state := by
  induction items with
  | nil => rfl
  | cons first items induction =>
      rw [List.foldlM_cons, fixed first (by simp)]
      exact induction fun item member => fixed item (by simp [member])

theorem foldlM_range'_some_invariant {body : State → Nat → Option State} {first count : Nat}
    {start final : State} (Invariant : Nat → State → Prop) (holds : Invariant first start)
    (kept : ∀ i, first ≤ i → ∀ state after, Invariant i state → body state i = some after →
      Invariant (i + 1) after)
    (ran : (List.range' first count).foldlM body start = some final) :
    Invariant (first + count) final := by
  induction count generalizing first start with
  | zero =>
      cases ran
      exact holds
  | succ count induction =>
      rw [List.range'_succ, List.foldlM_cons] at ran
      rcases Option.bind_eq_some_iff.mp ran with ⟨next, stepped, rest⟩
      have invariant := induction (kept first (Nat.le_refl first) start next holds stepped)
        (fun i above => kept i (Nat.le_of_succ_le above)) rest
      rw [Nat.succ_add_eq_add_succ] at invariant
      exact invariant

theorem foldlM_congr {Item : Type*} {step other : State → Item → Option State}
    {items : List Item} (same : ∀ item ∈ items, ∀ state, step state item = other state item)
    (start : State) : items.foldlM step start = items.foldlM other start := by
  induction items generalizing start with
  | nil => rfl
  | cons first items induction =>
      rw [List.foldlM_cons, List.foldlM_cons, same first (by simp)]
      exact congrArg _ (funext (induction fun item member => same item (by simp [member])))

/-- Two loops are the same if their bodies agree on the states that the first one reaches. -/
theorem foldlM_range'_congr {body other : State → Nat → Option State} {first count : Nat}
    {start : State} (same : ∀ i < count, ∀ state,
      (List.range' first i).foldlM body start = some state →
        body state (first + i) = other state (first + i)) :
    (List.range' first count).foldlM body start =
      (List.range' first count).foldlM other start := by
  induction count with
  | zero => rfl
  | succ count induction =>
      have before := induction fun i below => same i (Nat.lt_succ_of_lt below)
      rw [List.range'_concat, List.foldlM_append, List.foldlM_append, ← before, Nat.one_mul]
      cases reached : (List.range' first count).foldlM body start with
      | none => rfl
      | some state =>
          simp only [Option.bind_eq_bind, Option.bind_some, List.foldlM_cons, List.foldlM_nil,
            same count (Nat.lt_succ_self count) state reached]

theorem foldlM_range_congr {body other : State → Nat → Option State} {count : Nat}
    {start : State} (same : ∀ i < count, ∀ state,
      (List.range i).foldlM body start = some state → body state i = other state i) :
    (List.range count).foldlM body start = (List.range count).foldlM other start := by
  rw [List.range_eq_range']
  apply foldlM_range'_congr
  intro i below state reached
  rw [← List.range_eq_range'] at reached
  rw [Nat.zero_add]
  exact same i below state reached

theorem foldlM_flatMap {Item Part : Type*} (parts : Item → List Part)
    (step : State → Part → Option State) (items : List Item) (start : State) :
    (items.flatMap parts).foldlM step start =
      items.foldlM (fun state item => (parts item).foldlM step state) start := by
  induction items generalizing start with
  | nil => rfl
  | cons first items induction =>
      rw [List.flatMap_cons, List.foldlM_append, List.foldlM_cons]
      exact congrArg _ (funext induction)

theorem foldlM_nested (body : Nat → State → Nat → Option State) (count n : Nat) (start : State) :
    (List.range count).foldlM (fun state a => (List.range n).foldlM (body a) state) start =
      (List.range (count * n)).foldlM (fun state m => body (m / n) state (m % n)) start := by
  induction count with
  | zero => simp
  | succ count induction =>
      rw [foldlM_range_succ, induction, Nat.succ_mul, List.range_add, List.foldlM_append,
        Option.bind_eq_bind]
      congr 1
      funext state
      rw [List.foldlM_map]
      apply foldlM_congr
      intro k inside state
      have below := List.mem_range.mp inside
      have positive : 0 < n := Nat.lt_of_le_of_lt (Nat.zero_le k) below
      rw [Nat.mul_comm, Nat.mul_add_div positive, Nat.div_eq_of_lt below, Nat.mul_add_mod,
        Nat.mod_eq_of_lt below, Nat.add_zero]

theorem foldlM_getElem? {Item : Type*} (body : State → Item → Option State)
    (items : List Item) (start : State) :
    (List.range items.length).foldlM (fun state i => items[i]?.bind (body state)) start =
      items.foldlM body start := by
  induction items generalizing start with
  | nil => rfl
  | cons first items induction =>
      rw [List.length_cons, List.range_succ_eq_map, List.foldlM_cons, List.foldlM_cons]
      simp only [List.foldlM_map, List.getElem?_cons_zero, Option.bind_some,
        List.getElem?_cons_succ]
      exact congrArg _ (funext induction)

theorem foldlM_some_foldl {Item View : Type*} {step : State → Item → Option State}
    (view : State → View) (next : View → Item → View) {items : List Item}
    (simulates : ∀ item ∈ items, ∀ state after, step state item = some after →
      view after = next (view state) item) {start final : State}
    (ran : items.foldlM step start = some final) :
    view final = items.foldl next (view start) := by
  induction items generalizing start with
  | nil =>
      cases ran
      rfl
  | cons first items induction =>
      rw [List.foldlM_cons] at ran
      rcases Option.bind_eq_some_iff.mp ran with ⟨after, stepped, rest⟩
      rw [List.foldl_cons, ← simulates first (by simp) start after stepped]
      exact induction (fun item member => simulates item (by simp [member])) rest

/-- What each iteration establishes, and no other one destroys, holds after a
loop over the items of a list. -/
theorem foldlM_establishes {Item : Type*} {step : State → Item → Option State}
    (Invariant : State → Prop) (Grows : State → State → Prop) {Done : Item → State → Prop}
    (refl : ∀ state, Grows state state)
    (trans : ∀ {first second third}, Grows first second → Grows second third →
      Grows first third)
    (stable : ∀ {item state after}, Grows state after → Done item state → Done item after)
    {items : List Item} (kept : ∀ item ∈ items, ∀ state, Invariant state →
      ∃ after, step state item = some after ∧ Invariant after ∧ Grows state after ∧
        Done item after) {start : State} (holds : Invariant start) :
    ∃ final, items.foldlM step start = some final ∧ Invariant final ∧ Grows start final ∧
      ∀ item ∈ items, Done item final := by
  induction items generalizing start with
  | nil => exact ⟨start, rfl, holds, refl start, by simp⟩
  | cons first items induction =>
      rcases kept first (by simp) start holds with ⟨next, stepped, nextHolds, grows, done⟩
      rcases induction (fun item member => kept item (by simp [member])) nextHolds with
        ⟨final, ran, finalHolds, growsFinal, doneRest⟩
      refine ⟨final, ?_, finalHolds, trans grows growsFinal, ?_⟩
      · rw [List.foldlM_cons, stepped]
        exact ran
      · intro item member
        rcases List.mem_cons.mp member with rfl | member
        · exact stable growsFinal done
        · exact doneRest item member

theorem mapM_eq_map {Index Value : Type*} {job : Index → Option Value}
    (result : Index → Value) {indices : List Index}
    (computed : ∀ index ∈ indices, job index = some (result index)) :
    indices.mapM job = some (indices.map result) := by
  induction indices with
  | nil => rfl
  | cons first indices induction =>
      rw [List.mapM_cons, computed first (by simp),
        induction fun index member => computed index (by simp [member])]
      rfl

theorem mem_of_mapM {Index Value : Type*} {job : Index → Option Value} {indices : List Index}
    {results : List Value} (ran : indices.mapM job = some results) {result : Value}
    (member : result ∈ results) : ∃ index ∈ indices, job index = some result := by
  induction indices generalizing results with
  | nil =>
      cases ran
      cases member
  | cons first indices induction =>
      rw [List.mapM_cons] at ran
      rcases Option.bind_eq_some_iff.mp ran with ⟨value, computed, ran⟩
      rcases Option.bind_eq_some_iff.mp ran with ⟨others, rest, ran⟩
      cases ran
      rcases List.mem_cons.mp member with rfl | member
      · exact ⟨first, List.mem_cons_self, computed⟩
      · rcases induction rest member with ⟨index, isIndex, isResult⟩
        exact ⟨index, List.mem_cons_of_mem _ isIndex, isResult⟩

theorem mapM_getElem? {Value : Type*} (values : List Value) :
    (List.range values.length).mapM (fun position => values[position]?) = some values := by
  induction values with
  | nil => rfl
  | cons first values induction =>
      rw [List.length_cons, List.range_succ_eq_map, List.mapM_cons, List.mapM_map]
      simp only [List.getElem?_cons_zero, Function.comp_def, List.getElem?_cons_succ, induction]
      rfl

end JoinOperator.Foundation
