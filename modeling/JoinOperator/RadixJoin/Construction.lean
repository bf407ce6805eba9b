import JoinOperator.RadixJoin.PrefixSums

/-! # The construction jobs

Whatever the order of their steps, the jobs write every position of `newR`
once, and each tuple to the bucket of its hash value.
-/

namespace JoinOperator.RadixJoin

open Foundation

structure Blueprints.Prepared (blues : Blueprints) : Prop where
  length : blues.hashValues.length = blues.size
  bounded : ∀ value ∈ blues.hashValues, value < blues.hash1
  helpPsum : blues.helpPsum = (List.range blues.hash1).map (startOf blues.hashValues)

namespace Construction

variable {blues : Blueprints} {state after : Construction}

/-- The positions of its share that a job has claimed: those of its finished
iterations, and the one between the two steps of an iteration. -/
def claimedBy (blues : Blueprints) (state : Construction) (k : Nat) : List Nat :=
  match state.workers[k]? with
  | some worker => List.range' (shareFrom blues.size k)
      (worker.i - shareFrom blues.size k + if worker.temp.isSome then 1 else 0)
  | none => []

/-- The claims of slots in the bucket of one hash value, in their order. -/
def claimsOf (blues : Blueprints) (taken : List (Nat × Nat)) (value : Nat) :
    List (Nat × Nat) :=
  taken.filter fun claim => blues.hashValues[claim.1]? = some value

/-- A job holds a slot for the tuple at `position` but has not written it. -/
def Held (state : Construction) (position : Nat) : Prop :=
  ∃ (k : Nat) (worker : Worker),
    state.workers[k]? = some worker ∧ worker.i = position ∧ worker.temp.isSome

structure InShare (size k : Nat) (worker : Worker) : Prop where
  starts : shareFrom size k ≤ worker.i
  ends : worker.i + (if worker.temp.isSome then 1 else 0) ≤ shareTo size k
  finished : worker.finished = true → worker.i = shareTo size k

/-- What holds after any steps of the jobs. The history `taken` lists which
positions were given which slots. -/
structure Coherent (blues : Blueprints) (state : Construction) (taken : List (Nat × Nat)) :
    Prop where
  posted : state.posted ≤ numbOfThreads
  workers : state.workers.length = numbOfThreads
  shares : ∀ (k : Nat) (worker : Worker), state.workers[k]? = some worker →
    InShare blues.size k worker
  completed : state.constructionsCompleted = state.workers.countP Worker.finished
  positions : (taken.map Prod.fst).Perm
    ((List.range numbOfThreads).flatMap (claimedBy blues state))
  hist : ∀ value < blues.hash1, state.hist[value]? =
    some (blues.hashValues.count value - (claimsOf blues taken value).length)
  slots : ∀ value < blues.hash1, (claimsOf blues taken value).map Prod.snd =
    List.range' (startOf blues.hashValues value) (claimsOf blues taken value).length
  holding : ∀ (k : Nat) (worker : Worker) (temp : Nat), state.workers[k]? = some worker →
    worker.temp = some temp → ∃ value slot, blues.hashValues[worker.i]? = some value ∧
      target blues value temp = some slot ∧ (worker.i, slot) ∈ taken
  newR : state.newR.length = blues.size
  placed : ∀ position slot, (position, slot) ∈ taken → Held state position ∨
    (slot ∈ state.written ∧ ∃ t, blues.tuples[position]? = some t ∧
      state.newR[slot]? = some (some t))
  written : ∀ slot ∈ state.written, ∃ position, (position, slot) ∈ taken ∧
    ¬ Held state position
  once : state.written.Nodup

/-- The slots of a bucket are taken from its start on. -/
theorem target_eq (prepared : blues.Prepared) {value claimed : Nat}
    (below : value < blues.hash1) (room : claimed < blues.hashValues.count value) :
    target blues value (blues.hashValues.count value - claimed) =
      some (startOf blues.hashValues value + claimed) := by
  have ends := startOf_succ blues.hashValues value
  rw [target, wrapSub_of_le (by omega)]
  by_cases inner : value < blues.hash1 - 1
  · have next : blues.helpPsum[value + 1]? = some (startOf blues.hashValues (value + 1)) := by
      rw [prepared.helpPsum, List.getElem?_map, List.getElem?_range (by omega)]
      rfl
    rw [if_pos inner, next, Option.bind_eq_bind, Option.bind_some, wrapSub_of_le (by omega)]
    congr 1
    omega
  · have last : value + 1 = blues.hash1 := by omega
    have whole : startOf blues.hashValues (value + 1) = blues.size := by
      rw [last, startOf_eq_length prepared.bounded, prepared.length]
    rw [if_neg inner, wrapSub_of_le (by omega)]
    congr 1
    omega

theorem count_eq_countP (values : List Nat) (value : Nat) :
    (List.range values.length).countP (fun position => values[position]? = some value) =
      values.count value := by
  have all : (List.range values.length).map (fun position => values[position]?) =
      values.map some := by
    apply List.ext_getElem
    · simp
    · intro position first second
      simp
  have counted := congrArg (List.countP (fun entry => entry = some value)) all
  rw [List.countP_map, List.countP_map] at counted
  refine counted.trans ?_
  rw [List.count]
  congr 1
  funext other
  simp [Bool.beq_eq_decide_eq]

theorem claimed_sublist (shares : ∀ (k : Nat) (worker : Worker), state.workers[k]? = some worker →
      InShare blues.size k worker) :
    ((List.range numbOfThreads).flatMap (claimedBy blues state)).Sublist
      (List.range blues.size) := by
  have whole := flatMap_shares (List.range blues.size)
  rw [List.length_range] at whole
  rw [← whole]
  apply List.Sublist.flatMap_right
  intro k member
  have slice : ((List.range blues.size).drop (shareFrom blues.size k)).take
        (shareTo blues.size k - shareFrom blues.size k) =
      List.range' (shareFrom blues.size k)
        (shareTo blues.size k - shareFrom blues.size k) := by
    have ends := shareBound_le blues.size (k + 1)
    rw [← shareTo_eq _ (List.mem_range.mp member)] at ends
    rw [List.range_eq_range', List.drop_range', List.take_range'_of_length_ge (by omega)]
    simp
  rw [slice, claimedBy]
  split
  · rename_i worker get
    have share := shares k worker get
    have starts := share.starts
    have ends := share.ends
    apply List.range'_sublist_right.mpr
    omega
  · exact List.nil_sublist _

theorem claims_length_le {taken : List (Nat × Nat)} (prepared : blues.Prepared)
    (once : (taken.map Prod.fst).Subperm (List.range blues.size)) (value : Nat) :
    (claimsOf blues taken value).length ≤ blues.hashValues.count value := by
  have counted := once.countP_le fun position => blues.hashValues[position]? = some value
  rw [← prepared.length, count_eq_countP, List.countP_map, List.countP_eq_length_filter]
    at counted
  exact counted

variable {taken : List (Nat × Nat)}

namespace Coherent

theorem once_each (coherent : Coherent blues state taken) :
    (taken.map Prod.fst).Subperm (List.range blues.size) :=
  coherent.positions.subperm.trans (claimed_sublist coherent.shares).subperm

theorem nodup (coherent : Coherent blues state taken) : (taken.map Prod.fst).Nodup :=
  coherent.positions.nodup_iff.mpr
    ((claimed_sublist coherent.shares).nodup List.nodup_range)

theorem slot_in_bucket (coherent : Coherent blues state taken) (prepared : blues.Prepared)
    {position slot : Nat} (member : (position, slot) ∈ taken) :
    ∃ value, blues.hashValues[position]? = some value ∧ value < blues.hash1 ∧
      startOf blues.hashValues value ≤ slot ∧ slot < startOf blues.hashValues (value + 1) ∧
      (position, slot) ∈ claimsOf blues taken value := by
  have inside : position < blues.hashValues.length := by
    rw [prepared.length]
    exact List.mem_range.mp (coherent.once_each.subset (List.mem_map_of_mem member))
  have get := List.getElem?_eq_getElem inside
  have below := prepared.bounded _ (List.getElem_mem inside)
  have claim : (position, slot) ∈ claimsOf blues taken blues.hashValues[position] :=
    List.mem_filter.mpr ⟨member, decide_eq_true get⟩
  have slots := List.mem_map_of_mem (f := Prod.snd) claim
  rw [coherent.slots _ below, List.mem_range'_1] at slots
  have atMost := claims_length_le prepared coherent.once_each blues.hashValues[position]
  have ends := startOf_succ blues.hashValues blues.hashValues[position]
  exact ⟨_, get, below, slots.1, by omega, claim⟩

theorem slot_inj (coherent : Coherent blues state taken) (prepared : blues.Prepared)
    {first second slot : Nat} (member : (first, slot) ∈ taken)
    (member' : (second, slot) ∈ taken) : first = second := by
  rcases coherent.slot_in_bucket prepared member with
    ⟨value, _, below, starts, ends, claim⟩
  rcases coherent.slot_in_bucket prepared member' with
    ⟨value', _, _, starts', ends', claim'⟩
  have same := startOf_inj starts ends starts' ends'
  subst same
  have nodup : ((claimsOf blues taken value).map Prod.snd).Nodup := by
    rw [coherent.slots value below]
    exact List.nodup_range'
  have equal := List.inj_on_of_nodup_map nodup claim claim' rfl
  exact congrArg Prod.fst equal

theorem slot_lt (coherent : Coherent blues state taken) (prepared : blues.Prepared)
    {position slot : Nat} (member : (position, slot) ∈ taken) : slot < blues.size := by
  rcases coherent.slot_in_bucket prepared member with ⟨value, _, _, _, ends, _⟩
  have := startOf_le_length blues.hashValues (value + 1)
  rw [prepared.length] at this
  omega

end Coherent

theorem claimsOf_append (blues : Blueprints) (taken : List (Nat × Nat))
    (claim : Nat × Nat) (value : Nat) :
    claimsOf blues (taken ++ [claim]) value = claimsOf blues taken value ++
      if blues.hashValues[claim.1]? = some value then [claim] else [] := by
  rw [claimsOf, List.filter_append]
  by_cases same : blues.hashValues[claim.1]? = some value <;> simp [claimsOf, same]

theorem getElem?_set_workers {workers : List Worker} {k other : Nat} {worker next found : Worker}
    (get : workers[k]? = some worker) (getNext : (workers.set k next)[other]? = some found) :
    (other = k ∧ found = next) ∨ (other ≠ k ∧ workers[other]? = some found) := by
  have bound := (List.getElem?_eq_some_iff.mp get).1
  by_cases same : other = k
  · subst same
    rw [List.getElem?_set_self bound] at getNext
    exact .inl ⟨rfl, (Option.some.inj getNext).symm⟩
  · rw [List.getElem?_set_ne (Ne.symm same)] at getNext
    exact .inr ⟨same, getNext⟩

theorem countP_set_finished {workers : List Worker} {k : Nat} {worker : Worker} (next : Worker)
    (get : workers[k]? = some worker) (same : next.finished = worker.finished) :
    (workers.set k next).countP Worker.finished = workers.countP Worker.finished := by
  rcases List.getElem?_eq_some_iff.mp get with ⟨bound, content⟩
  rw [List.countP_set bound, content, same]
  split
  · have positive : 0 < workers.countP Worker.finished :=
      List.countP_pos_iff.mpr ⟨worker, List.mem_of_getElem? get, by assumption⟩
    omega
  · rfl

theorem claimedBy_set (after : Construction) {k other : Nat} (next : Worker) (differs : other ≠ k)
    (workers : after.workers = state.workers.set k next) :
    claimedBy blues after other = claimedBy blues state other := by
  rw [claimedBy, claimedBy, workers, List.getElem?_set_ne (Ne.symm differs)]

theorem claimedBy_self (after : Construction) {k : Nat} {worker : Worker} (next : Worker)
    (get : state.workers[k]? = some worker)
    (workers : after.workers = state.workers.set k next) :
    claimedBy blues after k = List.range' (shareFrom blues.size k)
      (next.i - shareFrom blues.size k + if next.temp.isSome then 1 else 0) := by
  rw [claimedBy, workers, List.getElem?_set_self (List.getElem?_eq_some_iff.mp get).1]

theorem shares_set (after : Construction) {k : Nat} {worker : Worker} (next : Worker)
    (shares : ∀ (k : Nat) (worker : Worker), state.workers[k]? = some worker →
      InShare blues.size k worker)
    (get : state.workers[k]? = some worker) (share : InShare blues.size k next)
    (workers : after.workers = state.workers.set k next) :
    ∀ (k : Nat) (worker : Worker), after.workers[k]? = some worker →
      InShare blues.size k worker := by
  intro other found getOther
  rw [workers] at getOther
  rcases getElem?_set_workers get getOther with ⟨rfl, rfl⟩ | ⟨_, getOther⟩
  · exact share
  · exact shares other found getOther

def HeldByOther (state : Construction) (k position : Nat) : Prop :=
  ∃ (other : Nat) (found : Worker),
    other ≠ k ∧ state.workers[other]? = some found ∧ found.i = position ∧ found.temp.isSome

theorem HeldByOther.held {k position : Nat} (held : HeldByOther state k position) :
    Held state position := by
  rcases held with ⟨other, found, _, getOther, isPosition, holds⟩
  exact ⟨other, found, getOther, isPosition, holds⟩

theorem held_iff {k position : Nat} {worker : Worker} (get : state.workers[k]? = some worker) :
    Held state position ↔
      (worker.i = position ∧ worker.temp.isSome) ∨ HeldByOther state k position := by
  constructor
  · rintro ⟨other, found, getOther, isPosition, holds⟩
    by_cases same : other = k
    · rw [same, get] at getOther
      cases getOther
      exact .inl ⟨isPosition, holds⟩
    · exact .inr ⟨other, found, same, getOther, isPosition, holds⟩
  · rintro (⟨isPosition, holds⟩ | held)
    · exact ⟨k, worker, get, isPosition, holds⟩
    · exact held.held

theorem held_set (after : Construction) {k position : Nat} {worker next : Worker}
    (get : state.workers[k]? = some worker)
    (workers : after.workers = state.workers.set k next) :
    Held after position ↔
      (next.i = position ∧ next.temp.isSome) ∨ HeldByOther state k position := by
  have getNext : after.workers[k]? = some next := by
    rw [workers, List.getElem?_set_self (List.getElem?_eq_some_iff.mp get).1]
  have others : HeldByOther after k position ↔ HeldByOther state k position := by
    constructor
    · rintro ⟨other, found, differs, getOther, held⟩
      rw [workers, List.getElem?_set_ne differs.symm] at getOther
      exact ⟨other, found, differs, getOther, held⟩
    · rintro ⟨other, found, differs, getOther, held⟩
      refine ⟨other, found, differs, ?_, held⟩
      rw [workers, List.getElem?_set_ne differs.symm]
      exact getOther
  rw [held_iff getNext, others]

theorem Coherent.positions_claim (coherent : Coherent blues state taken) {k : Nat}
    {worker : Worker} (below : k < numbOfThreads) (get : state.workers[k]? = some worker)
    (free : worker.temp = none) (after : Construction) (temp slot : Nat)
    (workers : after.workers = state.workers.set k { worker with temp := some temp }) :
    ((taken ++ [(worker.i, slot)]).map Prod.fst).Perm
      ((List.range numbOfThreads).flatMap (claimedBy blues after)) := by
  have starts := (coherent.shares k worker get).starts
  have last : shareFrom blues.size k + (worker.i - shareFrom blues.size k) = worker.i := by
    omega
  rw [List.map_append]
  refine (coherent.positions.append_right _).trans (flatMap_range_grow below ?_ ?_).symm
  · intro other _ differs
    exact claimedBy_set after _ differs workers
  · rw [claimedBy_self after _ get workers, claimedBy, get]
    simp only [free, Option.isSome_some, Option.isSome_none, if_true, List.range'_1_concat, last]
    rfl

section Claim

variable {k value : Nat} {worker next : Worker}

theorem claimsOf_claim (getHash : blues.hashValues[worker.i]? = some value)
    (taken : List (Nat × Nat)) (slot other : Nat) :
    claimsOf blues (taken ++ [(worker.i, slot)]) other =
      claimsOf blues taken other ++ if value = other then [(worker.i, slot)] else [] := by
  simp only [claimsOf_append, getHash, Option.some_inj]

/-- One tuple of the bucket less is without a slot. -/
theorem Coherent.hist_claim (coherent : Coherent blues state taken)
    (getHash : blues.hashValues[worker.i]? = some value) (bounded : value < blues.hash1)
    (room : (claimsOf blues taken value).length < blues.hashValues.count value) (slot : Nat) :
    ∀ other < blues.hash1, (state.hist.set value (wrapSub (blues.hashValues.count value -
        (claimsOf blues taken value).length) 1))[other]? =
      some (blues.hashValues.count other -
        (claimsOf blues (taken ++ [(worker.i, slot)]) other).length) := by
  intro other otherBelow
  rw [claimsOf_claim getHash, List.length_append]
  by_cases same : value = other
  · subst same
    have inside := (List.getElem?_eq_some_iff.mp (coherent.hist value bounded)).1
    rw [List.getElem?_set_self inside, if_pos rfl, wrapSub_of_le (by omega)]
    rfl
  · rw [List.getElem?_set_ne same, if_neg same]
    exact coherent.hist other otherBelow

/-- The slots of a bucket are still given in their order. -/
theorem Coherent.slots_claim (coherent : Coherent blues state taken)
    (getHash : blues.hashValues[worker.i]? = some value) :
    ∀ other < blues.hash1, (claimsOf blues (taken ++ [(worker.i,
        startOf blues.hashValues value + (claimsOf blues taken value).length)]) other).map Prod.snd =
      List.range' (startOf blues.hashValues other) (claimsOf blues (taken ++ [(worker.i,
        startOf blues.hashValues value + (claimsOf blues taken value).length)]) other).length := by
  intro other otherBelow
  rw [claimsOf_claim getHash, List.map_append, List.length_append,
    coherent.slots other otherBelow]
  by_cases same : value = other
  · subst same
    rw [if_pos rfl, List.length_singleton, List.range'_1_concat]
    rfl
  · rw [if_neg same]
    exact List.append_nil _

theorem Coherent.placed_claim (coherent : Coherent blues state taken)
    (get : state.workers[k]? = some worker) (free : worker.temp = none) {after : Construction}
    (workers : after.workers = state.workers.set k next) (samePosition : next.i = worker.i)
    (holds : next.temp.isSome) (newR : after.newR = state.newR)
    (written : after.written = state.written) {slot : Nat} :
    ∀ position slot', (position, slot') ∈ taken ++ [(worker.i, slot)] → Held after position ∨
      (slot' ∈ after.written ∧ ∃ t, blues.tuples[position]? = some t ∧
        after.newR[slot']? = some (some t)) := by
  intro position slot' member
  rw [newR, written]
  rcases List.mem_append.mp member with member | member
  · rcases coherent.placed position slot' member with held | placed
    · rcases (held_iff get).mp held with ⟨_, holds⟩ | byOther
      · rw [free] at holds
        cases holds
      · exact .inl ((held_set after get workers).mpr (.inr byOther))
    · exact .inr placed
  · cases List.mem_singleton.mp member
    exact .inl ((held_set after get workers).mpr (.inl ⟨samePosition, holds⟩))

theorem Coherent.written_claim (coherent : Coherent blues state taken)
    (get : state.workers[k]? = some worker) {after : Construction}
    (workers : after.workers = state.workers.set k next) (samePosition : next.i = worker.i)
    (isNew : worker.i ∉ taken.map Prod.fst) (written : after.written = state.written)
    {slot : Nat} :
    ∀ slot' ∈ after.written, ∃ position, (position, slot') ∈ taken ++ [(worker.i, slot)] ∧
      ¬ Held after position := by
  intro slot' member
  rw [written] at member
  rcases coherent.written slot' member with ⟨position, claim, notHeld⟩
  refine ⟨position, List.mem_append_left _ claim, ?_⟩
  intro later
  rcases (held_set after get workers).mp later with ⟨isPosition, _⟩ | byOther
  · apply isNew
    rw [← samePosition, isPosition]
    exact List.mem_map_of_mem claim
  · exact notHeld byOther.held

/-- The locked step gives the next free slot of the bucket. -/
theorem Coherent.claim (coherent : Coherent blues state taken) (prepared : blues.Prepared)
    (below : k < numbOfThreads) (get : state.workers[k]? = some worker)
    (free : worker.temp = none) (more : worker.i < shareTo blues.size k) :
    ∃ after temp slot, Construction.claim blues state k worker = some after ∧
      after.workers = state.workers.set k { worker with temp := some temp } ∧
      after.posted = state.posted ∧ Coherent blues after (taken ++ [(worker.i, slot)]) := by
  have share := coherent.shares k worker get
  have inside : worker.i < blues.hashValues.length := by
    have atMost := shareBound_le blues.size (k + 1)
    rw [← shareTo_eq _ below] at atMost
    rw [prepared.length]
    omega
  have getHash := List.getElem?_eq_getElem inside
  have bounded := prepared.bounded _ (List.getElem_mem inside)
  generalize blues.hashValues[worker.i] = value at getHash bounded
  have hist := coherent.hist value bounded
  have histBound : value < state.hist.length := (List.getElem?_eq_some_iff.mp hist).1
  let claimed := (claimsOf blues taken value).length
  let next : Worker := { worker with temp := some (blues.hashValues.count value - claimed) }
  let after : Construction := { state with
    hist := state.hist.set value (wrapSub (blues.hashValues.count value - claimed) 1)
    workers := state.workers.set k next }
  let slot := startOf blues.hashValues value + claimed
  have nextShare : InShare blues.size k next := by
    refine ⟨share.starts, more, fun finished => ?_⟩
    have := share.finished finished
    omega
  have shares := shares_set after next coherent.shares get nextShare rfl
  -- the new position has not been claimed before
  have positions := coherent.positions_claim below get free after _ slot rfl
  have once : ((taken ++ [(worker.i, slot)]).map Prod.fst).Subperm (List.range blues.size) :=
    positions.subperm.trans (claimed_sublist shares).subperm
  have isNew : worker.i ∉ taken.map Prod.fst := by
    have nodup := positions.nodup_iff.mpr ((claimed_sublist shares).nodup List.nodup_range)
    rw [List.map_append] at nodup
    intro member
    exact (List.nodup_append.mp nodup).2.2 _ member _ (List.mem_singleton_self _) rfl
  have room : claimed < blues.hashValues.count value := by
    have atMost := claims_length_le prepared once value
    rw [claimsOf_claim getHash, if_pos rfl, List.length_append] at atMost
    exact atMost
  refine ⟨after, blues.hashValues.count value - claimed, slot, ?_, rfl, rfl,
    { posted := coherent.posted
      workers := (List.length_set ..).trans coherent.workers
      shares
      completed := coherent.completed.trans (countP_set_finished next get rfl).symm
      positions
      hist := coherent.hist_claim getHash bounded room slot
      slots := coherent.slots_claim getHash
      holding := ?_
      newR := coherent.newR
      placed := coherent.placed_claim get free (show after.workers = _ from rfl) rfl rfl rfl rfl
      written := coherent.written_claim get (show after.workers = _ from rfl) rfl isNew rfl
      once := coherent.once }⟩
  · simp only [Construction.claim, getHash, hist, write_of_lt histBound, Option.bind_eq_bind,
      Option.bind_some]
    rfl
  · intro other found temp getOther holds
    rcases getElem?_set_workers get getOther with ⟨rfl, rfl⟩ | ⟨_, getOther⟩
    · cases holds
      exact ⟨value, slot, getHash, target_eq prepared bounded room, by simp [next]⟩
    · rcases coherent.holding other found temp getOther holds with
        ⟨value', slot', getHash', isTarget, member⟩
      exact ⟨value', slot', getHash', isTarget, List.mem_append_left _ member⟩

end Claim

theorem share_inj (size : Nat) {first second : Nat} (position : Nat) (below : first < numbOfThreads)
    (below' : second < numbOfThreads) (starts : shareFrom size first ≤ position)
    (ends : position < shareTo size first) (starts' : shareFrom size second ≤ position)
    (ends' : position < shareTo size second) : first = second := by
  have mono : ∀ {early late : Nat}, early < late → late < numbOfThreads →
      shareTo size early ≤ shareFrom size late := by
    intro early late less last
    rw [shareTo_eq size (by omega), shareBound, if_pos (by omega)]
    exact Nat.mul_le_mul_right _ less
  rcases Nat.lt_trichotomy first second with less | same | less
  · have := mono less below'
    omega
  · exact same
  · have := mono less below
    omega

theorem Coherent.index_lt (coherent : Coherent blues state taken) {k : Nat} {worker : Worker}
    (get : state.workers[k]? = some worker) : k < numbOfThreads := by
  rw [← coherent.workers]
  exact (List.getElem?_eq_some_iff.mp get).1

theorem Coherent.holder_unique (coherent : Coherent blues state taken) {k other : Nat}
    {worker found : Worker} (get : state.workers[k]? = some worker)
    (holds : worker.temp.isSome) (get' : state.workers[other]? = some found)
    (holds' : found.temp.isSome) (same : found.i = worker.i) : other = k := by
  have share := coherent.shares k worker get
  have share' := coherent.shares other found get'
  have ends := share.ends
  have ends' := share'.ends
  rw [if_pos holds] at ends
  rw [if_pos holds'] at ends'
  have starts := share.starts
  have starts' := share'.starts
  exact share_inj blues.size worker.i (coherent.index_lt get') (coherent.index_lt get)
    (by omega) (by omega) (by omega) (by omega)

section Place

variable {k temp slot : Nat} {worker : Worker}

/-- The iteration is over, and its position stays claimed. -/
theorem claimedBy_place (get : state.workers[k]? = some worker) (holds : worker.temp = some temp)
    (starts : shareFrom blues.size k ≤ worker.i)
    (workers : after.workers = state.workers.set k
      { worker with i := worker.i + 1, temp := none }) :
    claimedBy blues after = claimedBy blues state := by
  funext other
  by_cases same : other = k
  · subst same
    have grown : worker.i + 1 - shareFrom blues.size other =
        worker.i - shareFrom blues.size other + 1 := by omega
    rw [claimedBy_self after _ get workers, claimedBy, get]
    simp only [holds, Option.isSome_some, Option.isSome_none, if_true, grown]
    rfl
  · exact claimedBy_set after _ same workers

theorem Coherent.stillHeld (coherent : Coherent blues state taken)
    (get : state.workers[k]? = some worker) (holds : worker.temp = some temp)
    (workers : after.workers = state.workers.set k
      { worker with i := worker.i + 1, temp := none }) {position : Nat}
    (later : Held after position) : Held state position ∧ position ≠ worker.i := by
  have isHeld : worker.temp.isSome := by
    rw [holds]
    rfl
  rcases (held_set after get workers).mp later with ⟨_, nothing⟩ | byOther
  · cases nothing
  · refine ⟨byOther.held, ?_⟩
    rintro rfl
    rcases byOther with ⟨other, found, differs, getOther, isPosition, otherHolds⟩
    exact differs (coherent.holder_unique get isHeld getOther otherHolds isPosition)

theorem Coherent.placed_place (coherent : Coherent blues state taken) (prepared : blues.Prepared)
    (get : state.workers[k]? = some worker) (member : (worker.i, slot) ∈ taken) {t : Tuple}
    (getTuple : blues.tuples[worker.i]? = some t)
    (workers : after.workers = state.workers.set k
      { worker with i := worker.i + 1, temp := none })
    (newR : after.newR = state.newR.set slot (some t))
    (written : after.written = state.written ++ [slot]) :
    ∀ position slot', (position, slot') ∈ taken → Held after position ∨
      (slot' ∈ after.written ∧ ∃ t, blues.tuples[position]? = some t ∧
        after.newR[slot']? = some (some t)) := by
  intro position slot' claim
  rw [newR, written]
  by_cases sameSlot : slot' = slot
  · subst sameSlot
    have samePosition := coherent.slot_inj prepared claim member
    subst samePosition
    have slotBelow : slot' < state.newR.length := by
      rw [coherent.newR]
      exact coherent.slot_lt prepared member
    exact .inr ⟨List.mem_append_right _ (List.mem_singleton_self _), _, getTuple,
      List.getElem?_set_self slotBelow⟩
  · rcases coherent.placed position slot' claim with held | ⟨inWritten, t, isTuple, content⟩
    · by_cases samePosition : position = worker.i
      · subst samePosition
        have equal := List.inj_on_of_nodup_map coherent.nodup claim member rfl
        exact absurd (congrArg Prod.snd equal) sameSlot
      · rcases (held_iff get).mp held with ⟨isPosition, _⟩ | byOther
        · exact absurd isPosition.symm samePosition
        · exact .inl ((held_set after get workers).mpr (.inr byOther))
    · refine .inr ⟨List.mem_append_left _ inWritten, t, isTuple, ?_⟩
      rw [List.getElem?_set_ne (Ne.symm sameSlot)]
      exact content

theorem Coherent.written_place (coherent : Coherent blues state taken)
    (get : state.workers[k]? = some worker) (holds : worker.temp = some temp)
    (member : (worker.i, slot) ∈ taken)
    (workers : after.workers = state.workers.set k
      { worker with i := worker.i + 1, temp := none })
    (written : after.written = state.written ++ [slot]) :
    ∀ slot' ∈ after.written, ∃ position, (position, slot') ∈ taken ∧ ¬ Held after position := by
  intro slot' inWritten
  rw [written] at inWritten
  rcases List.mem_append.mp inWritten with inWritten | isSlot
  · rcases coherent.written slot' inWritten with ⟨position, claim, notHeld⟩
    exact ⟨position, claim, fun later =>
      notHeld (coherent.stillHeld get holds workers later).1⟩
  · cases List.mem_singleton.mp isSlot
    exact ⟨worker.i, member, fun later =>
      (coherent.stillHeld get holds workers later).2 rfl⟩

theorem Coherent.once_place (coherent : Coherent blues state taken) (prepared : blues.Prepared)
    (held : Held state worker.i) (member : (worker.i, slot) ∈ taken) :
    (state.written ++ [slot]).Nodup := by
  apply List.nodup_append.mpr
  refine ⟨coherent.once, List.nodup_singleton slot, ?_⟩
  rintro other inWritten _ isSlot rfl
  cases List.mem_singleton.mp isSlot
  rcases coherent.written slot inWritten with ⟨position, claim, notHeld⟩
  rw [coherent.slot_inj prepared claim member] at notHeld
  exact notHeld held

/-- The second step writes the slot that was given in the first one. -/
theorem Coherent.place (coherent : Coherent blues state taken) (prepared : blues.Prepared)
    (get : state.workers[k]? = some worker) (holds : worker.temp = some temp) :
    ∃ after, Construction.place blues state k worker temp = some after ∧
      after.workers = state.workers.set k { worker with i := worker.i + 1, temp := none } ∧
      after.posted = state.posted ∧ Coherent blues after taken := by
  rcases coherent.holding k worker temp get holds with
    ⟨value, slot, getHash, isTarget, member⟩
  have share := coherent.shares k worker get
  have isHeld : worker.temp.isSome := by
    rw [holds]
    rfl
  have held : Held state worker.i := ⟨k, worker, get, rfl, isHeld⟩
  have slotBelow : slot < state.newR.length := by
    rw [coherent.newR]
    exact coherent.slot_lt prepared member
  have inside : worker.i < blues.tuples.length := by
    have hashed := (List.getElem?_eq_some_iff.mp getHash).1
    rw [prepared.length] at hashed
    exact hashed
  have getTuple := List.getElem?_eq_getElem inside
  let next : Worker := { worker with i := worker.i + 1, temp := none }
  let after : Construction := { state with
    newR := state.newR.set slot (some blues.tuples[worker.i])
    written := state.written ++ [slot]
    workers := state.workers.set k next }
  have nextShare : InShare blues.size k next := by
    have ends := share.ends
    rw [if_pos isHeld] at ends
    refine ⟨Nat.le_succ_of_le share.starts, ends, fun finished => ?_⟩
    have := share.finished finished
    omega
  refine ⟨after, ?_, rfl, rfl,
    { posted := coherent.posted
      workers := (List.length_set ..).trans coherent.workers
      shares := shares_set after next coherent.shares get nextShare rfl
      completed := coherent.completed.trans (countP_set_finished next get rfl).symm
      positions := ?_
      hist := coherent.hist
      slots := coherent.slots
      holding := ?_
      newR := (List.length_set ..).trans coherent.newR
      placed := coherent.placed_place prepared get member getTuple rfl rfl rfl
      written := coherent.written_place get holds member rfl rfl
      once := coherent.once_place prepared held member }⟩
  · simp only [Construction.place, getHash, getTuple, isTarget, write_of_lt slotBelow,
      Option.bind_eq_bind, Option.bind_some]
    rfl
  · rw [claimedBy_place get holds share.starts rfl]
    exact coherent.positions
  · intro other found temp' getOther otherHolds
    rcases getElem?_set_workers get getOther with ⟨rfl, rfl⟩ | ⟨_, getOther⟩
    · cases otherHolds
    · exact coherent.holding other found temp' getOther otherHolds

end Place

theorem Coherent.complete (coherent : Coherent blues state taken) {k : Nat} {worker : Worker}
    (get : state.workers[k]? = some worker) (running : worker.finished = false)
    (done : ¬ worker.i < shareTo blues.size k) :
    Coherent blues (Construction.complete state k worker) taken := by
  have share := coherent.shares k worker get
  have bound := (List.getElem?_eq_some_iff.mp get).1
  let next : Worker := { worker with finished := true }
  let after := Construction.complete state k worker
  have ends := share.ends
  have sameHeld {position : Nat} : Held after position ↔ Held state position :=
    (held_set after get rfl).trans (held_iff get).symm
  refine
    { posted := coherent.posted
      workers := (List.length_set ..).trans coherent.workers
      shares := shares_set after next coherent.shares get
        ⟨share.starts, ends, fun _ => ?_⟩ rfl
      completed := ?_
      positions := ?_
      hist := coherent.hist
      slots := coherent.slots
      holding := ?_
      newR := coherent.newR
      placed := ?_
      written := ?_
      once := coherent.once }
  · change worker.i = shareTo blues.size k
    omega
  · change state.constructionsCompleted + 1 = (state.workers.set k next).countP Worker.finished
    have content := (List.getElem?_eq_some_iff.mp get).2
    rw [List.countP_set bound, content, running, coherent.completed]
    rfl
  · have same : claimedBy blues after = claimedBy blues state := by
      funext other
      by_cases same : other = k
      · subst same
        rw [claimedBy_self after next get rfl, claimedBy, get]
      · exact claimedBy_set after next same rfl
    rw [same]
    exact coherent.positions
  · intro other found temp getOther holds
    rcases getElem?_set_workers get getOther with ⟨rfl, rfl⟩ | ⟨_, getOther⟩
    · exact coherent.holding other worker temp get holds
    · exact coherent.holding other found temp getOther holds
  · intro position slot claim
    rw [sameHeld]
    exact coherent.placed position slot claim
  · intro slot inWritten
    rcases coherent.written slot inWritten with ⟨position, claim, notHeld⟩
    exact ⟨position, claim, fun later => notHeld (sameHeld.mp later)⟩

end Construction

end JoinOperator.RadixJoin
