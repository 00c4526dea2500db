import Mathlib.Data.Option.Basic

/-!
# Partial functions and their folds

A partial function extends another when it is defined at least there, with the same values, and
agrees with another where both are defined.  A fold of partial steps carries over what its
steps carry over.
-/

namespace ModernC.Framework

variable {α β σ τ : Type}

/-- `g` has every value of `f`. -/
def Extends (f g : α → Option β) : Prop := ∀ ⦃x v⦄, f x = some v → g x = some v

/-- `f` and `g` have the same values where both have one. -/
def Agrees (f g : α → Option β) : Prop := ∀ ⦃x v w⦄, f x = some v → g x = some w → v = w

lemma Agrees.filter_left {f g : α → Option β} (h : Agrees f g) (p : β → Bool) :
    Agrees (fun x => (f x).filter p) g := by
  intro x v w hv hw
  exact h (Option.filter_eq_some_iff.mp hv).1 hw

lemma Agrees.filter_right {f g : α → Option β} (h : Agrees f g) (p : β → Bool) :
    Agrees f (fun x => (g x).filter p) := by
  intro x v w hv hw
  exact h hv (Option.filter_eq_some_iff.mp hw).1

lemma Extends.filter {f g : α → Option β} (h : Extends f g) (p : β → Bool) :
    Extends (fun x => (f x).filter p) (fun x => (g x).filter p) := by
  intro x v hv
  obtain ⟨hf, hp⟩ := Option.filter_eq_some_iff.mp hv
  exact Option.filter_eq_some_iff.mpr ⟨h hf, hp⟩

/-! ## Extended results -/

section

variable {x x' : Option α} {b : β}

lemma map_extends {f : α → β} (hx : ∀ a, x = some a → x' = some a) (h : x.map f = some b) :
    x'.map f = some b := by
  obtain ⟨a, ha, rfl⟩ := Option.map_eq_some_iff.mp h
  exact Option.map_eq_some_iff.mpr ⟨a, hx a ha, rfl⟩

lemma bind_extends {f f' : α → Option β} (hx : ∀ a, x = some a → x' = some a)
    (hf : ∀ a, f a = some b → f' a = some b) (h : x.bind f = some b) : x'.bind f' = some b := by
  obtain ⟨a, ha, hb⟩ := Option.bind_eq_some_iff.mp h
  exact Option.bind_eq_some_iff.mpr ⟨a, hx a ha, hf a hb⟩

/-- A guard that cuts off less. -/
lemma guard_extends {p p' : Prop} [Decidable p] [Decidable p'] {a : α} (hp : p' → p)
    (hx : x = some a → x' = some a) (h : (if p then none else x) = some a) :
    (if p' then none else x') = some a := by
  obtain ⟨hguard, h⟩ := Option.ite_none_left_eq_some.mp h
  rw [if_neg fun h' => hguard (hp h'), hx h]

end

/-! ## Folds -/

variable {f : σ → α → Option σ} {g : τ → α → Option τ} {l : List α}

/-- Two folds whose steps keep a relation end in related states. -/
lemma foldlM_related {R : σ → τ → Prop} {s s' : σ} {t t' : τ}
    (hstep : ∀ x ∈ l, ∀ s t s' t', R s t → f s x = some s' → g t x = some t' → R s' t')
    (h : R s t) (hf : l.foldlM f s = some s') (hg : l.foldlM g t = some t') : R s' t' := by
  induction l generalizing s t with
  | nil =>
    obtain rfl : s = s' := by simpa using hf
    obtain rfl : t = t' := by simpa using hg
    exact h
  | cons x l ih =>
    rw [List.foldlM_cons] at hf hg
    obtain ⟨s₁, hs₁, hf⟩ := Option.bind_eq_some_iff.mp hf
    obtain ⟨t₁, ht₁, hg⟩ := Option.bind_eq_some_iff.mp hg
    have hrel := hstep x List.mem_cons_self s t s₁ t₁ h hs₁ ht₁
    exact ih (fun y hy => hstep y (List.mem_cons_of_mem x hy)) hrel hf hg

/-- Folds whose steps agree end alike. -/
lemma foldlM_bind_agrees {f g : σ → α → Option σ} {k : σ → Option β} {s : σ} {b b' : β}
    (hstep : ∀ x ∈ l, ∀ s t t', f s x = some t → g s x = some t' → t = t')
    (h : (l.foldlM f s).bind k = some b) (h' : (l.foldlM g s).bind k = some b') : b = b' := by
  obtain ⟨t, ht, hk⟩ := Option.bind_eq_some_iff.mp h
  obtain ⟨t', ht', hk'⟩ := Option.bind_eq_some_iff.mp h'
  have hsame : t = t' := by
    refine foldlM_related (fun x hx s _ u u' hs hu hu' => ?_) rfl ht ht'
    subst hs
    exact hstep x hx s u u' hu hu'
  subst hsame
  exact Option.some.inj (hk.symm.trans hk')

/-- A fold whose steps another follows under a view of the states. -/
lemma foldlM_view {v : σ → τ} {s s' : σ}
    (hstep : ∀ s x s', f s x = some s' → g (v s) x = some (v s'))
    (h : l.foldlM f s = some s') : l.foldlM g (v s) = some (v s') := by
  induction l generalizing s with
  | nil =>
    obtain rfl : s = s' := by simpa using h
    rfl
  | cons x l ih =>
    rw [List.foldlM_cons] at h ⊢
    obtain ⟨s₁, hs₁, h⟩ := Option.bind_eq_some_iff.mp h
    exact Option.bind_eq_some_iff.mpr ⟨v s₁, hstep s x s₁ hs₁, ih h⟩

lemma foldlM_extends {f' : σ → α → Option σ} {s s' : σ}
    (hstep : ∀ s x s', f s x = some s' → f' s x = some s') (h : l.foldlM f s = some s') :
    l.foldlM f' s = some s' := 
  @foldlM_view _ _ _ f f' l id s s' hstep h

/-- A property that a step has exactly when the state before has it and the element another:
the fold has it exactly when the first state has it and every element the other. -/
lemma foldlM_all {I P : σ → Prop} {Q : α → Prop} {s s' : σ}
    (hstep : ∀ x ∈ l, ∀ s s', I s → f s x = some s' → I s' ∧ (P s' ↔ P s ∧ Q x))
    (hI : I s) (h : l.foldlM f s = some s') : I s' ∧ (P s' ↔ P s ∧ ∀ x ∈ l, Q x) := by
  induction l generalizing s with
  | nil =>
    obtain rfl : s = s' := by simpa using h
    exact ⟨hI, by simp⟩
  | cons x l ih =>
    rw [List.foldlM_cons] at h
    obtain ⟨s₁, hs₁, h⟩ := Option.bind_eq_some_iff.mp h
    obtain ⟨hI₁, hP₁⟩ := hstep x List.mem_cons_self s s₁ hI hs₁
    obtain ⟨hI', hP'⟩ := ih (fun y hy => hstep y (List.mem_cons_of_mem x hy)) hI₁ h
    refine ⟨hI', ?_⟩
    rw [hP', hP₁, List.forall_mem_cons, and_assoc]

end ModernC.Framework
