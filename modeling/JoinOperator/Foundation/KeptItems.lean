import JoinOperator.Foundation.SlotOutcomes

/-! # When all items are kept

The rounds lose no item if and only if the items that are not identical to one
of the first slots get along with each other.
-/

namespace JoinOperator.Foundation.Likeness

variable {Item Pair Signature : Type*} [DecidableEq Pair] [DecidableEq Signature]

/-- Either no item is loose, and there is at most one parallel item, unless all
are parallel to `tail`, or all loose items are identical, and there is no other
parallel item than one to `tail` that comes before a loose one. -/
def Fits (likeness : Likeness Item Pair Signature) (heads : List Item) (tail : Item)
    (items : List Item) : Prop :=
  (items.filter (likeness.loose (heads ++ [tail])) = [] ∧
    (items.filter (likeness.parallel heads) = [] ∨
      (items.filter (likeness.parallel heads)).length = 1 ∧
        items.filter (likeness.parallel [tail]) = [])) ∨
  (items.filter (likeness.parallel heads) = [] ∧
    (∀ first ∈ items.filter (likeness.loose (heads ++ [tail])),
      ∀ second ∈ items.filter (likeness.loose (heads ++ [tail])),
        likeness.signature first = likeness.signature second) ∧
    (items.filter (likeness.parallel [tail]) = [] ∨
      ∃ before item after, items = before ++ item :: after ∧
        items.filter (likeness.parallel [tail]) = [item] ∧
          ∃ other ∈ after, likeness.loose (heads ++ [tail]) other = true))

variable {likeness : Likeness Item Pair Signature}
variable {heads items before after front : List Item} {tail item other first second : Item}
variable {last visible count : Nat} {slots next : Slots Item}

section Keeping

end Keeping

end JoinOperator.Foundation.Likeness
