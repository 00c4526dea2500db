import Mathlib.Logic.Basic

/-!
# Computations that return nothing or trap

A computation has a result, or it returns nothing because a check failed, or it traps.  It meets a
condition if it does not trap and its results satisfy the condition.
-/

namespace ModernC.Framework

variable {α β σ : Type}

/-- How a computation ends without a result. -/
inductive Stop where
  | null
  | trap
deriving DecidableEq

def orNull : Option α → Except Stop α
  | some a => .ok a
  | none => .error .null

/-- The computation does not trap, and its results satisfy the condition. -/
def Meets (x : Except Stop α) (Q : α → Prop) : Prop :=
  x ≠ .error .trap ∧ ∀ a, x = .ok a → Q a

variable {x : Except Stop α} {P Q : α → Prop}

lemma meets_ok {a : α} (h : Q a) : Meets (.ok a) Q := by
  refine ⟨nofun, fun b hb => ?_⟩
  obtain rfl := Except.ok.inj hb
  exact h

lemma meets_null : Meets (.error .null) Q := ⟨nofun, nofun⟩

lemma meets_orNull {o : Option α} (h : ∀ a, o = some a → Q a) : Meets (orNull o) Q := by
  cases o with
  | none => exact meets_null
  | some a => exact meets_ok (h a rfl)

lemma Meets.mono (h : Meets x P) (hPQ : ∀ a, x = .ok a → P a → Q a) : Meets x Q :=
  ⟨h.1, fun a ha => hPQ a ha (h.2 a ha)⟩

/-- **The rule of sequences.** -/
lemma Meets.bind {f : α → Except Stop β} {R : β → Prop} (h : Meets x P)
    (hf : ∀ a, x = .ok a → P a → Meets (f a) R) : Meets (x >>= f) R := by
  cases x with
  | error stop =>
    refine ⟨fun htrap => h.1 ?_, nofun⟩
    rw [Except.error.inj htrap]
  | ok a => exact hf a rfl (h.2 a rfl)

lemma meets_ite {c : Prop} [Decidable c] {y : Except Stop α} (hx : c → Meets x Q)
    (hy : ¬c → Meets y Q) : Meets (if c then x else y) Q := by
  split
  · next hc => exact hx hc
  · next hc => exact hy hc

end ModernC.Framework
