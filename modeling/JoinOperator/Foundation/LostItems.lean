import JoinOperator.Foundation.KeptItems

/-! # When an item is lost -/

namespace JoinOperator.Foundation.Likeness

variable {Item Pair Signature : Type*} [DecidableEq Pair] [DecidableEq Signature]

variable {likeness : Likeness Item Pair Signature}
variable {heads before between after items : List Item} {tail item other first second : Item}
variable {count : Nat} {final : Slots Item}

section Outcome

end Outcome

end JoinOperator.Foundation.Likeness
