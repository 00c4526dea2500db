import ModernC.Move.BranchJoin

/-!
# The join at the end of an iteration

The sub-places of an iteration are taken one after another, and each keeps the slots of the
state before the loop or spends one of its roots under a report.
-/

namespace ModernC.Move

open ModernC.Framework

variable {τ : Type}

variable {place : MovePlace}

variable {key : MoveKey}

variable {rootKey : MoveKey}

variable {root : MoveSlot τ}

variable {slot : MoveSlot τ}

variable {entryState iterationState : MoveState τ}

end ModernC.Move

/-!
## What joins keep

The end of a nested block, and all three joins together: none of them keeps every restriction,
but what both states track is as restricted as in either, or that is reported.
-/

namespace ModernC.Move

open ModernC.Framework

variable {τ : Type}

/-! ## The end of a nested block -/

section ScopeEnd

variable {before state : MoveState τ}

end ScopeEnd

/-! ## What is forgotten, and what never is -/

end ModernC.Move
