import Mathlib.Data.List.Nodup

/-!
# Collecting in post-order

A walk over a graph emits units, each behind the units that it contains.
-/

namespace ModernC.Framework.PostOrder

variable {U N : Type}

section
variable (name : U → N) (contains : U → N → Prop)

/-- Every unit is behind the ones that it contains. -/
def Ordered (units : List U) : Prop :=
  ∀ before unit after, units = before ++ unit :: after →
    ∀ n, contains unit n → n ∈ before.map name

end

variable {name : U → N} {contains : U → N → Prop}

/-- A unit comes behind the ones that it contains. -/
lemma Ordered.concat {units : List U} (h : Ordered name contains units) {unit : U}
    (hparts : ∀ n, contains unit n → n ∈ units.map name) :
    Ordered name contains (units ++ [unit]) := by
  intro before unit' after heq n hn
  rcases List.eq_nil_or_concat after with rfl | ⟨after', last, rfl⟩
  · obtain ⟨rfl, hlast⟩ := List.append_inj' heq rfl
    obtain rfl := List.singleton_inj.mp hlast
    exact hparts n hn
  · rw [List.concat_eq_append, ← List.cons_append, ← List.append_assoc] at heq
    obtain ⟨hunits, -⟩ := List.append_inj' heq rfl
    exact h before unit' after' hunits n hn

end ModernC.Framework.PostOrder
