import Mathlib.Data.List.Pairwise
import Mathlib.Data.List.Perm.Basic
import Mathlib.Data.Set.Function
import Mathlib.Order.Interval.Set.Basic

/-!
# Families of intervals

Intervals of a linear order, each without its upper end.  When any two of them have a gap between
them, the family is determined by the points that it covers.
-/

namespace ModernC.Framework.Intervals

variable {α : Type*} [LinearOrder α] {l l' : List (α × α)} {x y : α × α}

/-- A point is in one of the intervals. -/
def Covers (l : List (α × α)) (a : α) : Prop := ∃ x ∈ l, a ∈ Set.Ico x.1 x.2

/-- There are points between two intervals that are in neither. -/
def Gap (x y : α × α) : Prop := x.2 < y.1 ∨ y.2 < x.1

/-- No interval is empty, and there is a gap between any two. -/
structure Separated (l : List (α × α)) : Prop where
  lt : ∀ x ∈ l, x.1 < x.2
  gap : l.Pairwise Gap

lemma Separated.eq_or_gap (hl : Separated l) (hx : x ∈ l) (hy : y ∈ l) : x = y ∨ Gap x y := by
  by_cases hxy : x = y
  · exact .inl hxy
  · have hsymm : Std.Symm (Gap (α := α)) := ⟨fun _ _ h => Or.symm h⟩
    exact .inr (hl.gap.forall hx hy hxy)

lemma Separated.nodup (hl : Separated l) : l.Nodup := by
  refine hl.gap.imp_of_mem fun {x y} hx hy hgap heq => ?_
  subst heq
  have hlt := hl.lt x hx
  rcases hgap with h | h
  · exact absurd (hlt.trans h) (lt_irrefl _)
  · exact absurd (hlt.trans h) (lt_irrefl _)

/-- An interval of a covered family reaches no further than the interval that it starts in. -/
lemma Separated.snd_le (hl' : Separated l') (hsub : ∀ a, Covers l a → Covers l' a) (hx : x ∈ l)
    (hy : y ∈ l') (hmem : x.1 ∈ Set.Ico y.1 y.2) : x.2 ≤ y.2 := by
  by_contra hnot
  have hbeyond : y.2 < x.2 := not_le.mp hnot
  obtain ⟨z, hz, hle, hlt⟩ := hsub y.2 ⟨x, hx, hmem.2.le, hbeyond⟩
  rcases hl'.eq_or_gap hy hz with rfl | hgap | hgap
  · exact lt_irrefl _ hlt
  · exact absurd (hgap.trans_le hle) (lt_irrefl _)
  · exact absurd (hgap.trans ((hl'.lt y hy).trans hlt)) (lt_irrefl _)

lemma Separated.mem_of_covers (hl : Separated l) (hl' : Separated l')
    (hiff : ∀ a, Covers l a ↔ Covers l' a) (hx : x ∈ l) : x ∈ l' := by
  obtain ⟨y, hy, hmem⟩ := (hiff x.1).mp ⟨x, hx, le_refl _, hl.lt x hx⟩
  obtain ⟨z, hz, hmem'⟩ := (hiff y.1).mpr ⟨y, hy, le_refl _, hl'.lt y hy⟩
  have hxy : x.2 ≤ y.2 := hl'.snd_le (fun a => (hiff a).mp) hx hy hmem
  have hyz : y.2 ≤ z.2 := hl.snd_le (fun a => (hiff a).mpr) hy hz hmem'
  -- `z` starts in front of `x` and ends behind it, so it is `x`
  have hzx : z = x := by
    rcases hl.eq_or_gap hz hx with heq | hgap | hgap
    · exact heq
    · exact absurd (hgap.trans (hl.lt x hx)) (not_lt.mpr (hxy.trans hyz))
    · exact absurd (((hl.lt x hx).trans hgap).trans_le (hmem'.1.trans hmem.1)) (lt_irrefl _)
  subst hzx
  have hstart : z.1 = y.1 := le_antisymm hmem'.1 hmem.1
  have hstop : z.2 = y.2 := le_antisymm hxy hyz
  exact Prod.ext hstart hstop ▸ hy

/-- **A separated family is determined by what it covers.** -/
theorem Separated.perm_of_covers (hl : Separated l) (hl' : Separated l')
    (hiff : ∀ a, Covers l a ↔ Covers l' a) : l.Perm l' := by
  rw [List.perm_ext_iff_of_nodup hl.nodup hl'.nodup]
  intro x
  constructor
  · exact hl.mem_of_covers hl' hiff
  · exact hl'.mem_of_covers hl fun a => (hiff a).symm

end ModernC.Framework.Intervals
