import Mathlib.Data.Nat.Notation

/-!
# Computations with a log

A value together with what was noted while it was computed, in order.  A walk over a tree that
rebuilds the tree and notes what it meets is such a computation.
-/

namespace ModernC.Framework

structure Logged (ω α : Type) where
  value : α
  log : List ω

namespace Logged

variable {ω α β : Type}

instance : Monad (Logged ω) where
  pure a := ⟨a, []⟩
  bind x f := ⟨(f x.value).value, x.log ++ (f x.value).log⟩

/-- Note one entry. -/
def note (entry : ω) : Logged ω Unit := ⟨(), [entry]⟩

/-- All computations of a list, one after another. -/
def all : List (Logged ω α) → Logged ω (List α)
  | [] => pure []
  | x :: xs => do
    let value ← x
    let values ← all xs
    pure (value :: values)

@[simp] lemma value_pure (a : α) : (pure a : Logged ω α).value = a := rfl

@[simp] lemma log_pure (a : α) : (pure a : Logged ω α).log = [] := rfl

@[simp] lemma value_bind (x : Logged ω α) (f : α → Logged ω β) :
    (x >>= f).value = (f x.value).value := rfl

@[simp] lemma log_bind (x : Logged ω α) (f : α → Logged ω β) :
    (x >>= f).log = x.log ++ (f x.value).log := rfl

@[simp] lemma value_note (entry : ω) : (note entry).value = () := rfl

@[simp] lemma log_note (entry : ω) : (note entry).log = [entry] := rfl

@[simp] lemma value_all (xs : List (Logged ω α)) : (all xs).value = xs.map value := by
  induction xs with
  | nil => rfl
  | cons x xs ih => rw [all, value_bind, value_bind, value_pure, ih, List.map_cons]

@[simp] lemma log_all (xs : List (Logged ω α)) : (all xs).log = xs.flatMap log := by
  induction xs with
  | nil => rfl
  | cons x xs ih =>
    rw [all, log_bind, log_bind, log_pure, ih, List.append_nil, List.flatMap_cons]

/-! ## What is noted -/

/-- Every entry of the log has the property. -/
def Notes (holds : ω → Prop) (x : Logged ω α) : Prop := ∀ entry ∈ x.log, holds entry

variable {holds : ω → Prop}

@[simp] lemma notes_pure (a : α) : Notes holds (pure a : Logged ω α) := by
  intro entry hentry
  exact absurd hentry List.not_mem_nil

@[simp] lemma notes_bind (x : Logged ω α) (f : α → Logged ω β) :
    Notes holds (x >>= f) ↔ Notes holds x ∧ Notes holds (f x.value) :=
  List.forall_mem_append

@[simp] lemma notes_note (entry : ω) : Notes holds (note entry) ↔ holds entry :=
  List.forall_mem_singleton

@[simp] lemma notes_all (xs : List (Logged ω α)) :
    Notes holds (all xs) ↔ ∀ x ∈ xs, Notes holds x := by
  simp only [Notes, log_all, List.mem_flatMap]
  constructor
  · intro h x hx entry hentry
    exact h entry ⟨x, hx, hentry⟩
  · rintro h entry ⟨x, hx, hentry⟩
    exact h x hx entry hentry

end Logged

end ModernC.Framework
