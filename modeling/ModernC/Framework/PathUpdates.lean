import Mathlib.Data.List.Basic

/-!
# Updates along a path

A tree whose nodes are reached from their parent by a step.  Every step can be read, with a reason
where there is nothing to read; some lead to a slot, whose node can be replaced.  An update at the
end of a path of slots replaces the nodes on the path, and no reading beside it sees a difference.
-/

namespace ModernC.Framework

/-- Reading and replacing below a node.  **Replacing a child has no effect on its siblings**. -/
structure TreeAccess (V S ε : Type) where
  child : V → S → Except ε V
  slot : V → S → Option V
  replace : V → S → V → V
  child_of_slot : ∀ v s w, slot v s = some w → child v s = .ok w
  slot_replace_self : ∀ v s w, (slot v s).isSome → slot (replace v s w) s = some w
  child_replace_of_ne : ∀ v s t w, (slot v s).isSome → t ≠ s → child (replace v s w) t = child v t

namespace TreeAccess

variable {V S ε : Type} (access : TreeAccess V S ε)

/-- The node at the end of a path. -/
def read (v : V) : List S → Except ε V
  | [] => .ok v
  | s :: path => (access.child v s).bind fun inner => read inner path

/-- The node in the slot at the end of a path of slots. -/
def slotAt (v : V) : List S → Option V
  | [] => some v
  | s :: path => (access.slot v s).bind fun inner => slotAt inner path

/-- The tree with another node at the end of a path. -/
def write (w : V) (v : V) : List S → Option V
  | [] => some w
  | s :: path =>
    (access.slot v s).bind fun inner => (write w inner path).map (access.replace v s)

/-- Neither path leads through the end of the other. -/
def Unrelated (p q : List S) : Prop := ¬ p <+: q ∧ ¬ q <+: p

variable {v w u : V} {s t : S} {p q : List S}

lemma read_append : access.read v (p ++ q) = (access.read v p).bind fun inner =>
    access.read inner q := by
  induction p generalizing v with
  | nil => rfl
  | cons s p ih =>
    simp only [List.cons_append, read]
    cases access.child v s with
    | error stop => rfl
    | ok inner => exact ih

/-! ## Steps of a write -/

lemma write_cons_eq_some_iff :
    access.write w v (s :: p) = some u ↔
      ∃ inner next, access.slot v s = some inner ∧ access.write w inner p = some next ∧
        u = access.replace v s next := by
  simp only [write, Option.bind_eq_some_iff, Option.map_eq_some_iff]
  constructor
  · rintro ⟨inner, hinner, next, hnext, rfl⟩
    exact ⟨inner, next, hinner, hnext, rfl⟩
  · rintro ⟨inner, next, hinner, hnext, rfl⟩
    exact ⟨inner, hinner, next, hnext, rfl⟩

/-- There is a tree with another node exactly where there is a slot. -/
lemma write_isSome : (access.write w v p).isSome = (access.slotAt v p).isSome := by
  induction p generalizing v with
  | nil => rfl
  | cons s p ih =>
    simp only [write, slotAt]
    cases access.slot v s with
    | none => rfl
    | some inner => simpa using ih

/-- The replaced child is read back. -/
lemma child_replace_self (h : access.slot v s = some u) :
    access.child (access.replace v s w) s = .ok w :=
  access.child_of_slot _ _ _ (access.slot_replace_self v s w (by rw [h]; rfl))

/-! ## Reading what was written -/

/-- Under the path lies the new node. -/
lemma read_write_append (h : access.write w v p = some u) :
    access.read u (p ++ q) = access.read w q := by
  induction p generalizing v u with
  | nil =>
    cases h
    rfl
  | cons s p ih =>
    obtain ⟨inner, next, hinner, hnext, rfl⟩ := access.write_cons_eq_some_iff.mp h
    simp only [List.cons_append, read, access.child_replace_self hinner]
    exact ih hnext

lemma read_write_self (h : access.write w v p = some u) : access.read u p = .ok w := by
  have happend := access.read_write_append (q := []) h
  rwa [List.append_nil] at happend

lemma Unrelated.of_cons (h : Unrelated (s :: p) (s :: q)) : Unrelated p q := by
  obtain ⟨hleft, hright⟩ := h
  refine ⟨?_, ?_⟩
  · intro hprefix
    exact hleft (List.cons_prefix_cons.mpr ⟨rfl, hprefix⟩)
  · intro hprefix
    exact hright (List.cons_prefix_cons.mpr ⟨rfl, hprefix⟩)

/-- **Beside the path nothing changes**. -/
lemma read_write_of_unrelated (h : access.write w v p = some u) (hpq : Unrelated p q) :
    access.read u q = access.read v q := by
  induction p generalizing v u q with
  | nil => exact absurd List.nil_prefix hpq.1
  | cons s p ih =>
    obtain ⟨inner, next, hinner, hnext, rfl⟩ := access.write_cons_eq_some_iff.mp h
    cases q with
    | nil => exact absurd List.nil_prefix hpq.2
    | cons t q =>
      simp only [read]
      by_cases hst : t = s
      · subst hst
        rw [access.child_replace_self hinner, access.child_of_slot _ _ _ hinner]
        exact ih hnext hpq.of_cons
      · rw [access.child_replace_of_ne v s t next (by rw [hinner]; rfl) hst]

end TreeAccess

end ModernC.Framework
