import Mathlib.Algebra.Ring.Nat
import Mathlib.Data.List.GetD
import Mathlib.Data.List.Nodup
import Mathlib.Data.List.Pairwise
import Mathlib.Data.List.Perm.Subperm
import Mathlib.Data.List.ProdSigma
import Mathlib.Data.Set.Insert
import Mathlib.Logic.Relation

/-! # Partial results of a query

A query is a list of conditions on attributes, each of which ranges over the
numbers below a bound. It is evaluated part by part: a part has some of the
attributes, and all tuples over them that satisfy the conditions on them.
-/

namespace JoinOperator.Foundation

/-- A condition on the values of some attributes. -/
structure Condition (Attr : Type*) where
  attrs : List Attr
  holds : (Attr → Nat) → Bool
  nonempty : attrs ≠ []
  onAttrs : ∀ f g, (∀ attr ∈ attrs, f attr = g attr) → holds f = holds g

/-- Attributes, and tuples of their values. -/
structure PartialResult (Attr : Type*) where
  attrs : List Attr
  tuples : List (List Nat)

def OnOne {Attr : Type*} (conditions : List (Condition Attr)) : Prop :=
  ∀ c ∈ conditions, ∀ a ∈ c.attrs, ∀ b ∈ c.attrs, a = b

theorem OnOne.append {Attr : Type*} {conditions : List (Condition Attr)} {c : Condition Attr}
    {attr : Attr} (onOne : OnOne conditions) (attrs : ∀ a ∈ c.attrs, a = attr) :
    OnOne (conditions ++ [c]) := by
  intro other member a isA b isB
  cases List.mem_append.mp member with
  | inl member => exact onOne other member a isA b isB
  | inr isNew =>
      cases List.mem_singleton.mp isNew
      rw [attrs a isA, attrs b isB]

def Linked {Attr : Type*} (conditions : List (Condition Attr)) (a b : Attr) : Prop :=
  ∃ c ∈ conditions, a ∈ c.attrs ∧ b ∈ c.attrs

variable {Attr : Type*} [DecidableEq Attr]

def valueAt (attrs : List Attr) (tuple : List Nat) (attr : Attr) : Nat :=
  tuple.getD (attrs.idxOf attr) 0

/-- A tuple over `attrs` satisfies the conditions on them. -/
structure IsSolution (bound : Attr → Nat) (conditions : List (Condition Attr))
    (attrs : List Attr) (tuple : List Nat) : Prop where
  length : tuple.length = attrs.length
  bounded : ∀ attr ∈ attrs, valueAt attrs tuple attr < bound attr
  satisfied : ∀ c ∈ conditions, c.attrs ⊆ attrs → c.holds (valueAt attrs tuple) = true

/-- A part has every solution once. -/
structure PartialResult.Complete (bound : Attr → Nat) (conditions : List (Condition Attr))
    (part : PartialResult Attr) : Prop where
  once : part.tuples.Nodup
  exact : ∀ tuple, tuple ∈ part.tuples ↔ IsSolution bound conditions part.attrs tuple

/-- The parts of a query, of which the conditions have been evaluated so far. -/
structure Evaluates (bound : Attr → Nat) (touched : Set Attr)
    (conditions : List (Condition Attr)) (parts : List (PartialResult Attr)) : Prop where
  disjoint : (parts.flatMap PartialResult.attrs).Nodup
  covers : ∀ attr, attr ∈ parts.flatMap PartialResult.attrs ↔ attr ∈ touched
  nonempty : ∀ part ∈ parts, part.attrs ≠ []
  complete : ∀ part ∈ parts, part.Complete bound conditions
  together : ∀ c ∈ conditions, ∃ part ∈ parts, c.attrs ⊆ part.attrs
  connected : ∀ part ∈ parts, ∀ a ∈ part.attrs, ∀ b ∈ part.attrs,
    Relation.EqvGen (Linked conditions) a b

section Values

variable {attrs left right : List Attr} {tuple first second : List Nat} {attr : Attr}

theorem valueAt_append_left (length : first.length = left.length) (member : attr ∈ left) :
    valueAt (left ++ right) (first ++ second) attr = valueAt left first attr := by
  have inside : left.idxOf attr < first.length := length ▸ List.idxOf_lt_length_iff.mpr member
  rw [valueAt, valueAt, List.idxOf_append_of_mem member, List.getD_append _ _ _ _ inside]

theorem valueAt_append_right (length : first.length = left.length) (absent : attr ∉ left) :
    valueAt (left ++ right) (first ++ second) attr = valueAt right second attr := by
  rw [valueAt, valueAt, List.idxOf_append_of_notMem absent, ← length,
    List.getD_append_right _ _ _ _ (Nat.le_add_right _ _), Nat.add_sub_cancel_left]

theorem valueAt_map (value : Attr → Nat) (member : attr ∈ attrs) :
    valueAt attrs (attrs.map value) attr = value attr := by
  have inside := List.idxOf_lt_length_iff.mpr member
  rw [valueAt, List.getD_eq_getElem?_getD, List.getElem?_map, List.getElem?_eq_getElem inside,
    List.getElem_idxOf]
  rfl

theorem map_valueAt (nodup : attrs.Nodup) (length : tuple.length = attrs.length) :
    attrs.map (valueAt attrs tuple) = tuple := by
  apply List.ext_getElem
  · rw [List.length_map, length]
  · intro i inside inside'
    rw [List.length_map] at inside
    rw [List.getElem_map, valueAt, nodup.idxOf_getElem, List.getD_eq_getElem _ _ inside']

end Values

theorem Condition.holds_valueAt_left {c : Condition Attr} {left right : List Attr}
    {first second : List Nat} (inside : c.attrs ⊆ left) (length : first.length = left.length) :
    c.holds (valueAt (left ++ right) (first ++ second)) = c.holds (valueAt left first) :=
  c.onAttrs _ _ fun _ member => valueAt_append_left length (inside member)

theorem Condition.holds_valueAt_right {c : Condition Attr} {left right : List Attr}
    {first second : List Nat} (disjoint : left.Disjoint right) (inside : c.attrs ⊆ right)
    (length : first.length = left.length) :
    c.holds (valueAt (left ++ right) (first ++ second)) = c.holds (valueAt right second) :=
  c.onAttrs _ _ fun _ member =>
    valueAt_append_right length fun inLeft => disjoint inLeft (inside member)

theorem Condition.exists_mem {Attr : Type*} (c : Condition Attr) : ∃ attr, attr ∈ c.attrs :=
  List.exists_mem_of_ne_nil _ c.nonempty

namespace PartialResult.Complete

variable {bound : Attr → Nat} {conditions : List (Condition Attr)}
  {part left right : PartialResult Attr}

theorem base (attr : Attr) (free : ∀ c ∈ conditions, ¬ c.attrs ⊆ [attr]) :
    PartialResult.Complete bound conditions ⟨[attr], (List.range (bound attr)).map ([·])⟩ where
  once := List.nodup_range.map fun _ _ equal => List.singleton_inj.mp equal
  exact := by
    intro tuple
    rw [List.mem_map]
    constructor
    · rintro ⟨value, member, rfl⟩
      refine ⟨rfl, ?_, fun c member inside => absurd inside (free c member)⟩
      intro other isAttr
      cases List.mem_singleton.mp isAttr
      simpa [valueAt] using member
    · intro solution
      rcases List.length_eq_one_iff.mp solution.length with ⟨value, rfl⟩
      have below := solution.bounded attr List.mem_cons_self
      exact ⟨value, by simpa [valueAt] using below, rfl⟩

theorem select (complete : part.Complete bound conditions) {c : Condition Attr}
    (inside : c.attrs ⊆ part.attrs) {tuples : List (List Nat)}
    (perm : tuples.Perm (part.tuples.filter fun tuple => c.holds (valueAt part.attrs tuple))) :
    PartialResult.Complete bound (conditions ++ [c]) ⟨part.attrs, tuples⟩ where
  once := perm.nodup_iff.mpr (complete.once.filter _)
  exact := by
    intro tuple
    rw [perm.mem_iff, List.mem_filter, complete.exact]
    constructor
    · intro kept
      refine ⟨kept.1.length, kept.1.bounded, fun other member others => ?_⟩
      rcases List.mem_append.mp member with member | isNew
      · exact kept.1.satisfied other member others
      · cases List.mem_singleton.mp isNew
        exact kept.2
    · intro solution
      exact ⟨⟨solution.length, solution.bounded,
        fun other member => solution.satisfied other (List.mem_append_left _ member)⟩,
        solution.satisfied c (by simp) inside⟩

theorem skip (complete : part.Complete bound conditions) {c : Condition Attr}
    (outside : ¬ c.attrs ⊆ part.attrs) : part.Complete bound (conditions ++ [c]) where
  once := complete.once
  exact := by
    intro tuple
    rw [complete.exact]
    constructor
    · intro solution
      refine ⟨solution.length, solution.bounded, fun other member inside => ?_⟩
      rcases List.mem_append.mp member with member | isNew
      · exact solution.satisfied other member inside
      · cases List.mem_singleton.mp isNew
        exact absurd inside outside
    · intro solution
      exact ⟨solution.length, solution.bounded,
        fun other member => solution.satisfied other (List.mem_append_left _ member)⟩

theorem length_eq (complete : part.Complete bound conditions) {tuple : List Nat}
    (member : tuple ∈ part.tuples) : tuple.length = part.attrs.length :=
  ((complete.exact tuple).mp member).length

theorem isSolution_append (disjoint : left.attrs.Disjoint right.attrs)
    (apart : ∀ c ∈ conditions, c.attrs ⊆ left.attrs ++ right.attrs →
      c.attrs ⊆ left.attrs ∨ c.attrs ⊆ right.attrs)
    {first second : List Nat} (isFirst : IsSolution bound conditions left.attrs first)
    (isSecond : IsSolution bound conditions right.attrs second) :
    IsSolution bound conditions (left.attrs ++ right.attrs) (first ++ second) where
  length := by rw [List.length_append, List.length_append, isFirst.length, isSecond.length]
  bounded := by
    intro attr member
    by_cases inLeft : attr ∈ left.attrs
    · rw [valueAt_append_left isFirst.length inLeft]
      exact isFirst.bounded attr inLeft
    · rw [valueAt_append_right isFirst.length inLeft]
      exact isSecond.bounded attr ((List.mem_append.mp member).resolve_left inLeft)
  satisfied := by
    intro c member inside
    rcases apart c member inside with inLeft | inRight
    · rw [Condition.holds_valueAt_left inLeft isFirst.length]
      exact isFirst.satisfied c member inLeft
    · rw [Condition.holds_valueAt_right disjoint inRight isFirst.length]
      exact isSecond.satisfied c member inRight

theorem isSolution_split (disjoint : left.attrs.Disjoint right.attrs) {first second : List Nat}
    (isFirst : first.length = left.attrs.length) (isSecond : second.length = right.attrs.length)
    (solution : IsSolution bound conditions (left.attrs ++ right.attrs) (first ++ second)) :
    IsSolution bound conditions left.attrs first ∧
      IsSolution bound conditions right.attrs second := by
  constructor
  · refine ⟨isFirst, fun attr member => ?_, fun c member inside => ?_⟩
    · have same : valueAt (left.attrs ++ right.attrs) (first ++ second) attr =
          valueAt left.attrs first attr := valueAt_append_left isFirst member
      exact same ▸ solution.bounded attr (List.mem_append_left _ member)
    · have same : c.holds (valueAt (left.attrs ++ right.attrs) (first ++ second)) =
          c.holds (valueAt left.attrs first) := c.holds_valueAt_left inside isFirst
      exact same ▸ solution.satisfied c member fun _ isAttr =>
        List.mem_append_left _ (inside isAttr)
  · refine ⟨isSecond, fun attr member => ?_, fun c member inside => ?_⟩
    · have same : valueAt (left.attrs ++ right.attrs) (first ++ second) attr =
          valueAt right.attrs second attr :=
        valueAt_append_right isFirst fun inLeft => disjoint inLeft member
      exact same ▸ solution.bounded attr (List.mem_append_right _ member)
    · have same : c.holds (valueAt (left.attrs ++ right.attrs) (first ++ second)) =
          c.holds (valueAt right.attrs second) :=
        c.holds_valueAt_right disjoint inside isFirst
      exact same ▸ solution.satisfied c member fun _ isAttr =>
        List.mem_append_right _ (inside isAttr)

/-- All pairs of tuples of two parts without a condition between them. -/
theorem product (isLeft : left.Complete bound conditions)
    (isRight : right.Complete bound conditions) (disjoint : left.attrs.Disjoint right.attrs)
    (apart : ∀ c ∈ conditions, c.attrs ⊆ left.attrs ++ right.attrs →
      c.attrs ⊆ left.attrs ∨ c.attrs ⊆ right.attrs) :
    PartialResult.Complete bound conditions ⟨left.attrs ++ right.attrs,
      (left.tuples ×ˢ right.tuples).map fun pair => pair.1 ++ pair.2⟩ where
  once := by
    apply List.Nodup.map_on _ (isLeft.once.product isRight.once)
    rintro ⟨first, second⟩ member ⟨first', second'⟩ member' equal
    have lengths := (isLeft.length_eq (List.mem_product.mp member).1).trans
      (isLeft.length_eq (List.mem_product.mp member').1).symm
    rcases List.append_inj equal lengths with ⟨rfl, rfl⟩
    rfl
  exact := by
    intro tuple
    rw [List.mem_map]
    constructor
    · rintro ⟨⟨first, second⟩, member, rfl⟩
      rcases List.mem_product.mp member with ⟨inLeft, inRight⟩
      exact isSolution_append disjoint apart ((isLeft.exact first).mp inLeft)
        ((isRight.exact second).mp inRight)
    · intro solution
      have length := solution.length
      rw [List.length_append] at length
      have cut := List.take_append_drop left.attrs.length tuple
      have isFirst : (tuple.take left.attrs.length).length = left.attrs.length := by
        rw [List.length_take]
        omega
      have isSecond : (tuple.drop left.attrs.length).length = right.attrs.length := by
        rw [List.length_drop]
        omega
      rw [← cut] at solution
      rcases isSolution_split disjoint isFirst isSecond solution with ⟨first, second⟩
      exact ⟨⟨_, _⟩,
        List.mem_product.mpr ⟨(isLeft.exact _).mpr first, (isRight.exact _).mpr second⟩, cut⟩

end PartialResult.Complete

theorem linked_mono {Attr : Type*} {conditions others : List (Condition Attr)} {a b : Attr}
    (included : ∀ c ∈ conditions, c ∈ others)
    (linked : Relation.EqvGen (Linked conditions) a b) :
    Relation.EqvGen (Linked others) a b :=
  Relation.EqvGen.mono (fun _ _ ⟨c, member, inside⟩ => ⟨c, included c member, inside⟩) a b linked

theorem linked_append {Attr : Type*} {conditions : List (Condition Attr)} {a b : Attr}
    (linked : Relation.EqvGen (Linked conditions) a b) (others : List (Condition Attr)) :
    Relation.EqvGen (Linked (conditions ++ others)) a b :=
  linked_mono (fun _ member => List.mem_append_left _ member) linked

namespace Evaluates

variable {bound : Attr → Nat} {touched : Set Attr} {conditions : List (Condition Attr)}
  {parts others : List (PartialResult Attr)} {part left right : PartialResult Attr}
  {c : Condition Attr}

theorem start : Evaluates bound ∅ [] [] where
  disjoint := List.nodup_nil
  covers := by simp
  nonempty := by simp
  complete := by simp
  together := by simp
  connected := by simp

theorem of_perm (evaluates : Evaluates bound touched conditions parts) (perm : parts.Perm others) :
    Evaluates bound touched conditions others where
  disjoint := (perm.flatMap_right _).nodup_iff.mp evaluates.disjoint
  covers := fun attr => (perm.flatMap_right _).mem_iff.symm.trans (evaluates.covers attr)
  nonempty := fun part member => evaluates.nonempty part (perm.mem_iff.mpr member)
  complete := fun part member => evaluates.complete part (perm.mem_iff.mpr member)
  together := by
    intro c member
    rcases evaluates.together c member with ⟨part, isPart, inside⟩
    exact ⟨part, perm.mem_iff.mp isPart, inside⟩
  connected := fun part member => evaluates.connected part (perm.mem_iff.mpr member)

theorem eq_of_mem (evaluates : Evaluates bound touched conditions parts) {attr : Attr}
    (isLeft : left ∈ parts) (isRight : right ∈ parts) (inLeft : attr ∈ left.attrs)
    (inRight : attr ∈ right.attrs) : left = right := by
  have symmetric : Std.Symm
      (Function.onFun List.Disjoint (PartialResult.attrs : PartialResult Attr → List Attr)) :=
    ⟨fun _ _ disjoint => List.disjoint_symm disjoint⟩
  by_contra different
  exact (List.nodup_flatMap.mp evaluates.disjoint).2.forall isLeft isRight different inLeft inRight

theorem attrs_nodup (evaluates : Evaluates bound touched conditions parts)
    (isPart : part ∈ parts) : part.attrs.Nodup :=
  (List.nodup_flatMap.mp evaluates.disjoint).1 part isPart

/-- An attribute is touched: the part of all its values. -/
theorem touch (evaluates : Evaluates bound touched conditions parts) {attr : Attr}
    (fresh : attr ∉ touched) : Evaluates bound (insert attr touched) conditions
      (⟨[attr], (List.range (bound attr)).map ([·])⟩ :: parts) where
  disjoint := by
    rw [List.flatMap_cons, List.singleton_append, List.nodup_cons, evaluates.covers]
    exact ⟨fresh, evaluates.disjoint⟩
  covers := by
    intro other
    rw [List.flatMap_cons, List.singleton_append, List.mem_cons, evaluates.covers,
      Set.mem_insert_iff]
  nonempty := List.forall_mem_cons.mpr ⟨by simp, evaluates.nonempty⟩
  complete := by
    refine List.forall_mem_cons.mpr ⟨PartialResult.Complete.base attr ?_, evaluates.complete⟩
    intro c member inside
    rcases evaluates.together c member with ⟨part, isPart, insidePart⟩
    rcases c.exists_mem with ⟨other, isAttr⟩
    cases List.mem_singleton.mp (inside isAttr)
    exact fresh ((evaluates.covers attr).mp
      (List.mem_flatMap.mpr ⟨part, isPart, insidePart isAttr⟩))
  together := by
    intro c member
    rcases evaluates.together c member with ⟨part, isPart, inside⟩
    exact ⟨part, List.mem_cons_of_mem _ isPart, inside⟩
  connected := by
    refine List.forall_mem_cons.mpr ⟨?_, evaluates.connected⟩
    intro a isA b isB
    rw [List.mem_singleton.mp isA, List.mem_singleton.mp isB]
    exact .refl _

/-- Some of the parts become one, at which a condition is evaluated. -/
theorem replace {used : List (PartialResult Attr)}
    (evaluates : Evaluates bound touched conditions (used ++ others))
    (attrs : part.attrs = used.flatMap PartialResult.attrs) (inside : c.attrs ⊆ part.attrs)
    (complete : part.Complete bound (conditions ++ [c]))
    (connected : ∀ a ∈ part.attrs, ∀ b ∈ part.attrs,
      Relation.EqvGen (Linked (conditions ++ [c])) a b) :
    Evaluates bound touched (conditions ++ [c]) (part :: others) := by
  have sameAttrs : (part :: others).flatMap PartialResult.attrs =
      (used ++ others).flatMap PartialResult.attrs := by
    rw [List.flatMap_cons, attrs, List.flatMap_append]
  have disjoint := evaluates.disjoint
  have rest : ∀ other ∈ others, other ∈ used ++ others := fun _ member =>
    List.mem_append_right _ member
  constructor
  · rw [sameAttrs]
    exact disjoint
  · rw [sameAttrs]
    exact evaluates.covers
  · refine List.forall_mem_cons.mpr
      ⟨?_, fun other member => evaluates.nonempty other (rest _ member)⟩
    rcases c.exists_mem with ⟨attr, isAttr⟩
    exact List.ne_nil_of_mem (inside isAttr)
  · refine List.forall_mem_cons.mpr ⟨complete, fun other member => ?_⟩
    apply (evaluates.complete other (rest other member)).skip
    intro insideOther
    rcases c.exists_mem with ⟨attr, isAttr⟩
    rw [← sameAttrs, List.flatMap_cons] at disjoint
    exact (List.nodup_append'.mp disjoint).2.2 (inside isAttr)
      (List.mem_flatMap.mpr ⟨other, member, insideOther isAttr⟩)
  · intro other member
    rcases List.mem_append.mp member with member | isNew
    · rcases evaluates.together other member with ⟨found, isPart, insideFound⟩
      rcases List.mem_append.mp isPart with isUsed | isOther
      · refine ⟨part, List.mem_cons_self, fun attr isAttr => ?_⟩
        rw [attrs]
        exact List.mem_flatMap.mpr ⟨found, isUsed, insideFound isAttr⟩
      · exact ⟨found, List.mem_cons_of_mem _ isOther, insideFound⟩
    · cases List.mem_singleton.mp isNew
      exact ⟨part, List.mem_cons_self, inside⟩
  · refine List.forall_mem_cons.mpr ⟨connected, fun other member a isA b isB => ?_⟩
    exact linked_append (evaluates.connected other (rest other member) a isA b isB) _

theorem select (evaluates : Evaluates bound touched conditions (part :: others))
    (inside : c.attrs ⊆ part.attrs) {tuples : List (List Nat)}
    (perm : tuples.Perm (part.tuples.filter fun tuple => c.holds (valueAt part.attrs tuple))) :
    Evaluates bound touched (conditions ++ [c]) (⟨part.attrs, tuples⟩ :: others) := by
  have isPart : part ∈ part :: others := List.mem_cons_self
  apply replace (show Evaluates _ _ _ ([part] ++ others) from evaluates)
  · rw [List.flatMap_singleton]
  · exact inside
  · exact (evaluates.complete part isPart).select inside perm
  · intro a isA b isB
    exact linked_append (evaluates.connected part isPart a isA b isB) _

theorem join (evaluates : Evaluates bound touched conditions (left :: right :: others))
    (inside : c.attrs ⊆ left.attrs ++ right.attrs) (inLeft : ∃ a ∈ c.attrs, a ∈ left.attrs)
    (inRight : ∃ b ∈ c.attrs, b ∈ right.attrs) {tuples : List (List Nat)}
    (perm : tuples.Perm
      (((left.tuples ×ˢ right.tuples).map fun pair => pair.1 ++ pair.2).filter
        fun tuple => c.holds (valueAt (left.attrs ++ right.attrs) tuple))) :
    Evaluates bound touched (conditions ++ [c])
      (⟨left.attrs ++ right.attrs, tuples⟩ :: others) := by
  have isLeft : left ∈ left :: right :: others := List.mem_cons_self
  have isRight : right ∈ left :: right :: others := List.mem_cons_of_mem _ List.mem_cons_self
  have disjoint : left.attrs.Disjoint right.attrs := by
    have nodup := evaluates.disjoint
    rw [List.flatMap_cons, List.flatMap_cons, ← List.append_assoc] at nodup
    exact (List.nodup_append'.mp (List.nodup_append'.mp nodup).1).2.2
  have apart : ∀ other ∈ conditions, other.attrs ⊆ left.attrs ++ right.attrs →
      other.attrs ⊆ left.attrs ∨ other.attrs ⊆ right.attrs := by
    intro other member insideBoth
    rcases evaluates.together other member with ⟨found, isPart, insideFound⟩
    rcases other.exists_mem with ⟨attr, isAttr⟩
    rcases List.mem_append.mp (insideBoth isAttr) with attrLeft | attrRight
    · cases evaluates.eq_of_mem isPart isLeft (insideFound isAttr) attrLeft
      exact .inl insideFound
    · cases evaluates.eq_of_mem isPart isRight (insideFound isAttr) attrRight
      exact .inr insideFound
  apply replace (show Evaluates _ _ _ ([left, right] ++ others) from evaluates)
  · simp
  · exact inside
  · exact ((evaluates.complete left isLeft).product (evaluates.complete right isRight) disjoint
      apart).select inside perm
  · rcases inLeft with ⟨a₀, inC, a₀Left⟩
    rcases inRight with ⟨b₀, inC', b₀Right⟩
    have across : Relation.EqvGen (Linked (conditions ++ [c])) a₀ b₀ :=
      .rel _ _ ⟨c, by simp, inC, inC'⟩
    -- every attribute is linked to the one of the condition on its side
    have toLeft : ∀ a ∈ left.attrs ++ right.attrs,
        Relation.EqvGen (Linked (conditions ++ [c])) a a₀ := by
      intro a isA
      rcases List.mem_append.mp isA with aLeft | aRight
      · exact linked_append (evaluates.connected left isLeft a aLeft a₀ a₀Left) _
      · exact (linked_append (evaluates.connected right isRight a aRight b₀ b₀Right) _).trans
          _ _ _ (across.symm _ _)
    intro a isA b isB
    exact (toLeft a isA).trans _ _ _ ((toLeft b isB).symm _ _)

/-- The attributes of a part are those that the conditions link to one of them. -/
theorem mem_iff_of_linked (evaluates : Evaluates bound touched conditions parts)
    (isPart : part ∈ parts) {a b : Attr} (linked : Relation.EqvGen (Linked conditions) a b) :
    a ∈ part.attrs ↔ b ∈ part.attrs := by
  induction linked with
  | rel a b linked =>
      rcases linked with ⟨c, member, isA, isB⟩
      rcases evaluates.together c member with ⟨found, isFound, inside⟩
      constructor
      · intro inPart
        rw [evaluates.eq_of_mem isPart isFound inPart (inside isA)]
        exact inside isB
      · intro inPart
        rw [evaluates.eq_of_mem isPart isFound inPart (inside isB)]
        exact inside isA
  | refl a => exact Iff.rfl
  | symm a b _ induction => exact induction.symm
  | trans a b d _ _ first second => exact first.trans second

theorem single (evaluates : Evaluates bound touched conditions parts)
    (onOne : OnOne conditions) (isPart : part ∈ parts) :
    ∃ attr, part.attrs = [attr] ∧ part.tuples.length ≤ bound attr := by
  have same : ∀ a b, Relation.EqvGen (Linked conditions) a b → a = b := by
    intro a b linked
    induction linked with
    | rel a b linked =>
        rcases linked with ⟨c, member, isA, isB⟩
        exact onOne c member a isA b isB
    | refl a => rfl
    | symm a b _ induction => exact induction.symm
    | trans a b d _ _ first second => exact first.trans second
  rcases List.exists_mem_of_ne_nil _ (evaluates.nonempty part isPart) with ⟨attr, isAttr⟩
  have attrs : part.attrs = [attr] := by
    apply List.perm_singleton.mp
    apply (List.perm_ext_iff_of_nodup (evaluates.attrs_nodup isPart)
      (List.nodup_singleton attr)).mpr
    intro other
    rw [List.mem_singleton]
    constructor
    · intro isOther
      exact same _ _ (evaluates.connected part isPart other isOther attr isAttr)
    · rintro rfl
      exact isAttr
  have complete := evaluates.complete part isPart
  have included : part.tuples ⊆ (List.range (bound attr)).map ([·]) := by
    intro tuple member
    have solution := (complete.exact tuple).mp member
    rw [attrs] at solution
    rcases List.length_eq_one_iff.mp solution.length with ⟨value, rfl⟩
    have below := solution.bounded attr List.mem_cons_self
    exact List.mem_map.mpr ⟨value, by simpa [valueAt] using below, rfl⟩
  refine ⟨attr, attrs, ?_⟩
  have short := (complete.once.subperm included).length_le
  rwa [List.length_map, List.length_range] at short

end Evaluates

def PartialResult.readAs (part : PartialResult Attr) (attrs : List Attr) : List (List Nat) :=
  part.tuples.map fun tuple => attrs.map (valueAt part.attrs tuple)

theorem IsSolution.readAs {bound : Attr → Nat} {conditions : List (Condition Attr)}
    {attrs others : List Attr} {tuple : List Nat}
    (solution : IsSolution bound conditions attrs tuple) (same : ∀ a, a ∈ others ↔ a ∈ attrs) :
    IsSolution bound conditions others (others.map (valueAt attrs tuple)) where
  length := List.length_map _
  bounded := by
    intro attr member
    rw [valueAt_map _ member]
    exact solution.bounded attr ((same attr).mp member)
  satisfied := by
    intro c member inside
    rw [c.onAttrs _ _ fun attr isAttr => valueAt_map (valueAt attrs tuple) (inside isAttr)]
    exact solution.satisfied c member fun attr isAttr => (same attr).mp (inside isAttr)

theorem isSolution_congr {bound : Attr → Nat} {conditions others : List (Condition Attr)}
    (same : ∀ c, c ∈ conditions ↔ c ∈ others) {attrs : List Attr} {tuple : List Nat} :
    IsSolution bound others attrs tuple ↔ IsSolution bound conditions attrs tuple := by
  constructor
  · intro solution
    exact ⟨solution.length, solution.bounded, fun c member =>
      solution.satisfied c ((same c).mp member)⟩
  · intro solution
    exact ⟨solution.length, solution.bounded, fun c member =>
      solution.satisfied c ((same c).mpr member)⟩

/-- Complete parts on the same attributes have the same tuples. -/
theorem PartialResult.Complete.readAs_perm {bound : Attr → Nat}
    {conditions : List (Condition Attr)} {part other : PartialResult Attr}
    (complete : part.Complete bound conditions) (complete' : other.Complete bound conditions)
    (nodup : part.attrs.Nodup) (nodup' : other.attrs.Nodup)
    (sameAttrs : ∀ a, a ∈ other.attrs ↔ a ∈ part.attrs) :
    (other.readAs part.attrs).Perm part.tuples := by
  apply (List.perm_ext_iff_of_nodup ?_ complete.once).mpr
  · intro tuple
    rw [readAs, List.mem_map, complete.exact]
    constructor
    · rintro ⟨tuple', member, rfl⟩
      exact ((complete'.exact tuple').mp member).readAs fun a => (sameAttrs a).symm
    · intro solution
      refine ⟨other.attrs.map (valueAt part.attrs tuple), ?_, ?_⟩
      · exact (complete'.exact _).mpr (solution.readAs sameAttrs)
      · refine Eq.trans ?_ (map_valueAt nodup solution.length)
        apply List.map_congr_left
        intro a isA
        exact valueAt_map _ ((sameAttrs a).mpr isA)
  · apply List.Nodup.map_on _ complete'.once
    intro tuple member tuple' member' equal
    rw [← map_valueAt nodup' (complete'.length_eq member),
      ← map_valueAt nodup' (complete'.length_eq member')]
    apply List.map_congr_left
    intro a isA
    exact List.map_inj_left.mp equal a ((sameAttrs a).mp isA)

theorem isSolution_singleton {bound : Attr → Nat} {conditions : List (Condition Attr)}
    (onOne : OnOne conditions) {attr : Attr} {value : Nat} :
    IsSolution bound conditions [attr] [value] ↔
      value < bound attr ∧ ∀ c ∈ conditions, attr ∈ c.attrs → c.holds (fun _ => value) = true := by
  have isValue : valueAt [attr] [value] attr = value := by
    simp [valueAt]
  have same {c : Condition Attr} (inside : c.attrs ⊆ [attr]) :
      c.holds (valueAt [attr] [value]) = c.holds fun _ => value := by
    apply c.onAttrs
    intro other isOther
    rw [List.mem_singleton.mp (inside isOther), isValue]
  constructor
  · intro solution
    have below := solution.bounded attr List.mem_cons_self
    rw [isValue] at below
    refine ⟨below, fun c member isAttr => ?_⟩
    have inside : c.attrs ⊆ [attr] := fun other isOther =>
      List.mem_singleton.mpr (onOne c member other isOther attr isAttr)
    rw [← same inside]
    exact solution.satisfied c member inside
  · intro solves
    refine ⟨rfl, fun other isOther => ?_, fun c member inside => ?_⟩
    · rw [List.mem_singleton.mp isOther, isValue]
      exact solves.1
    · rcases c.exists_mem with ⟨other, isOther⟩
      rw [same inside]
      exact solves.2 c member (List.mem_singleton.mp (inside isOther) ▸ isOther)

/-- Two ways to evaluate the same conditions end with the same tuples. -/
theorem Evaluates.unique {bound : Attr → Nat} {touched : Set Attr}
    {conditions others : List (Condition Attr)} {parts parts' : List (PartialResult Attr)}
    (first : Evaluates bound touched conditions parts)
    (second : Evaluates bound touched others parts')
    (same : ∀ c, c ∈ conditions ↔ c ∈ others) {part : PartialResult Attr} (isPart : part ∈ parts) :
    ∃ part' ∈ parts', part'.attrs.Perm part.attrs ∧ (part'.readAs part.attrs).Perm part.tuples := by
  rcases List.exists_mem_of_ne_nil _ (first.nonempty part isPart) with ⟨a, isA⟩
  have isTouched := (first.covers a).mp (List.mem_flatMap.mpr ⟨part, isPart, isA⟩)
  rcases List.mem_flatMap.mp ((second.covers a).mpr isTouched) with ⟨part', isPart', isA'⟩
  have sameAttrs : ∀ b, b ∈ part'.attrs ↔ b ∈ part.attrs := by
    intro b
    constructor
    · intro isB
      have linked := linked_mono (fun c member => (same c).mpr member)
        (second.connected part' isPart' a isA' b isB)
      exact (first.mem_iff_of_linked isPart linked).mp isA
    · intro isB
      have linked := linked_mono (fun c member => (same c).mp member)
        (first.connected part isPart a isA b isB)
      exact (second.mem_iff_of_linked isPart' linked).mp isA'
  have nodup := first.attrs_nodup isPart
  have nodup' := second.attrs_nodup isPart'
  have complete' : part'.Complete bound conditions := by
    have complete := second.complete part' isPart'
    exact ⟨complete.once, fun tuple => (complete.exact tuple).trans (isSolution_congr same)⟩
  exact ⟨part', isPart', (List.perm_ext_iff_of_nodup nodup' nodup).mpr sameAttrs,
    (first.complete part isPart).readAs_perm complete' nodup nodup' sameAttrs⟩

end JoinOperator.Foundation
