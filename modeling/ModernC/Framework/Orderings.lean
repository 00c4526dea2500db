import Mathlib.Data.List.Basic
import Mathlib.Order.Bounds.Defs

/-!
# Lists ordered by a comparison

A comparison `less` is a strict weak order, in which some elements may be alike without being
equal.  A list is ordered by it where no element comes before an earlier one, and is rearranged
stably where the elements that are alike keep their order.
-/

namespace ModernC.Framework

variable {T : Type*} {less : T → T → Bool} {a b c key : T} {front back xs ys : List T}

/-- Neither element comes before the other. -/
def alike (less : T → T → Bool) (a b : T) : Bool := !less a b && !less b a

/-- No element comes before an earlier one. -/
def Ordered (less : T → T → Bool) (xs : List T) : Prop :=
  xs.Pairwise fun a b => less b a = false

/-- The same elements, those that are alike in the same order. -/
def StablePerm (less : T → T → Bool) (ys xs : List T) : Prop :=
  ys.Perm xs ∧ ∀ c, ys.filter (alike less c) = xs.filter (alike less c)

/-- Where the elements that come before the key end. -/
def boundsOf (less : T → T → Bool) (xs : List T) (key : T) : Set ℕ :=
  {i | i = xs.length ∨ ∃ h : i < xs.length, less xs[i] key = false}

lemma StablePerm.refl (less : T → T → Bool) (xs : List T) : StablePerm less xs xs :=
  ⟨.refl xs, fun _ => rfl⟩

section Order

variable [IsStrictWeakOrder T fun a b => less a b = true]

omit [IsStrictWeakOrder T fun a b => less a b = true] in
lemma alike_eq_true : alike less a b = true ↔ less a b = false ∧ less b a = false := by
  simp [alike]

lemma less_irrefl (less : T → T → Bool) [IsStrictWeakOrder T fun a b => less a b = true] (a : T) :
    less a a = false :=
  Bool.eq_false_iff.mpr (irrefl_of (fun a b => less a b = true) a)

lemma less_trans (hab : less a b = true) (hbc : less b c = true) : less a c = true :=
  trans_of (fun a b => less a b = true) hab hbc

lemma less_asymm (hab : less a b = true) : less b a = false := by
  apply Bool.eq_false_iff.mpr
  intro hba
  have haa := less_trans hab hba
  exact Bool.false_ne_true ((less_irrefl less a).symm.trans haa)

lemma alike_trans (hab : alike less a b = true) (hbc : alike less b c = true) :
    alike less a c = true := by
  rw [alike_eq_true] at *
  have h := @IsStrictWeakOrder.incomp_trans T (fun a b => less a b = true) _ a b c
    ⟨Bool.eq_false_iff.mp hab.1, Bool.eq_false_iff.mp hab.2⟩
    ⟨Bool.eq_false_iff.mp hbc.1, Bool.eq_false_iff.mp hbc.2⟩
  exact ⟨Bool.eq_false_iff.mpr h.1, Bool.eq_false_iff.mpr h.2⟩

/-- What does not come before an element does not come before what follows it. -/
lemma not_less_trans (hab : less a b = false) (hbc : less b c = false) : less a c = false := by
  apply Bool.eq_false_iff.mpr
  intro hac
  have hba : less b a = false := by
    apply Bool.eq_false_iff.mpr
    intro hba
    exact Bool.false_ne_true (hbc.symm.trans (less_trans hba hac))
  have hcb : less c b = false := by
    apply Bool.eq_false_iff.mpr
    intro hcb
    exact Bool.false_ne_true (hab.symm.trans (less_trans hac hcb))
  have halike := alike_trans (alike_eq_true.mpr ⟨hab, hba⟩) (alike_eq_true.mpr ⟨hbc, hcb⟩)
  exact Bool.false_ne_true ((alike_eq_true.mp halike).1.symm.trans hac)

/-! ## Insertion -/

/-- An element that the last of the elements in front does not follow does not precede any. -/
lemma Ordered.not_less_of_getLast (h : Ordered less front)
    (hlast : ∀ last ∈ front.getLast?, less key last = false) : ∀ x ∈ front, less key x = false := by
  rcases front.eq_nil_or_concat with rfl | ⟨init, last, rfl⟩
  · exact fun x hx => absurd hx List.not_mem_nil
  · have hkey : less key last = false := hlast last (by simp)
    intro x hx
    rcases List.mem_append.mp (List.concat_eq_append ▸ hx) with hx | hx
    · rw [List.concat_eq_append] at h
      exact not_less_trans hkey ((List.pairwise_append.mp h).2.2 x hx last List.mem_cons_self)
    · rw [List.mem_singleton.mp hx]
      exact hkey

/-- **Insertion** between what the element does not precede and what it precedes. -/
lemma Ordered.insert (h : Ordered less (front ++ back))
    (hfront : ∀ x ∈ front, less key x = false) (hback : ∀ x ∈ back, less key x = true) :
    Ordered less (front ++ key :: back) := by
  obtain ⟨hordered, hordered', hacross⟩ := List.pairwise_append.mp h
  refine List.pairwise_append.mpr ⟨hordered, List.pairwise_cons.mpr ⟨?_, hordered'⟩, ?_⟩
  · exact fun x hx => less_asymm (hback x hx)
  · intro x hx y hy
    rcases List.mem_cons.mp hy with rfl | hy
    · exact hfront x hx
    · exact hacross x hx y hy

/-- An element that was the last one is rearranged stably in front of what it precedes. -/
lemma stablePerm_insert (hback : ∀ x ∈ back, less key x = true) :
    StablePerm less (front ++ key :: back) (front ++ back ++ [key]) := by
  constructor
  · rw [List.append_assoc]
    exact List.Perm.append_left front (List.perm_append_singleton key back).symm
  · intro c
    rw [List.append_assoc, List.filter_append, List.filter_append, List.filter_append,
      List.filter_cons]
    by_cases hkey : alike less c key = true
    · have hnone : back.filter (alike less c) = [] := by
        refine List.filter_eq_nil_iff.mpr fun x hx hx' => ?_
        have hsym : alike less key c = true :=
          alike_eq_true.mpr (alike_eq_true.mp hkey).symm
        have halike := alike_eq_true.mp (alike_trans hsym hx')
        exact Bool.false_ne_true (halike.1.symm.trans (hback x hx))
      rw [if_pos hkey, hnone, List.nil_append, List.filter_cons_of_pos hkey]
      rfl
    · rw [if_neg hkey, List.filter_cons_of_neg hkey, List.filter_nil, List.append_nil]

omit [IsStrictWeakOrder T fun a b => less a b = true] in
lemma StablePerm.trans {zs : List T} (h : StablePerm less zs ys) (h' : StablePerm less ys xs) :
    StablePerm less zs xs :=
  ⟨h.1.trans h'.1, fun c => (h.2 c).trans (h'.2 c)⟩

omit [IsStrictWeakOrder T fun a b => less a b = true] in
lemma StablePerm.append_right (h : StablePerm less ys xs) (zs : List T) :
    StablePerm less (ys ++ zs) (xs ++ zs) := by
  refine ⟨h.1.append_right zs, fun c => ?_⟩
  rw [List.filter_append, List.filter_append, h.2]

/-! ## Search -/

variable {i j : ℕ}

variable {hi : i < xs.length}

omit [IsStrictWeakOrder T fun a b => less a b = true] in
lemma Ordered.getElem (h : Ordered less xs) (hij : i < j)
    (hj : j < xs.length) : less xs[j] xs[i] = false :=
  List.pairwise_iff_getElem.mp h i j hi hj hij

/-- What is in front of an element that precedes the key precedes it. -/
lemma Ordered.less_of_le (h : Ordered less xs) (hij : i ≤ j)
    (hj : j < xs.length) (hless : less xs[j] key = true) : less xs[i] key = true := by
  rcases Nat.lt_or_eq_of_le hij with hij | rfl
  · rw [← Bool.not_eq_false]
    intro hnot
    exact Bool.false_ne_true ((not_less_trans (h.getElem hij hj) hnot).symm.trans hless)
  · exact hless

/-- What is behind an element that does not precede the key does not precede it. -/
lemma Ordered.not_less_of_le (h : Ordered less xs) (hij : i ≤ j)
    (hj : j < xs.length) (hnot : less xs[i] key = false) : less xs[j] key = false := by
  rcases Nat.lt_or_eq_of_le hij with hij | rfl
  · exact not_less_trans (h.getElem hij hj) hnot
  · exact hnot

end Order

/-- The bound is where the elements in front precede the key and the next one does not. -/
lemma isLeast_boundsOf {r : ℕ} (hle : r ≤ xs.length)
    (hfront : ∀ k (h : k < xs.length), k < r → less xs[k] key = true)
    (hback : ∀ k (h : k < xs.length), r ≤ k → less xs[k] key = false) :
    IsLeast (boundsOf less xs key) r := by
  constructor
  · rcases Nat.lt_or_eq_of_le hle with hlt | heq
    · exact .inr ⟨hlt, hback r hlt (Nat.le_refl r)⟩
    · exact .inl heq
  · rintro i (rfl | ⟨hi, hnot⟩)
    · exact hle
    · by_contra hlt
      exact Bool.false_ne_true (hnot.symm.trans (hfront i hi (Nat.not_le.mp hlt)))

end ModernC.Framework
