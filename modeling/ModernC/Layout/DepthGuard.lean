import ModernC.Framework.PartialFolds
import ModernC.Layout.Reflection

/-!
# The depth guard

A guard only cuts off: what an engine finds at some depth, it finds at every smaller depth.
The walks over fields and payloads are monotone in their callbacks, and the engines are walks
whose callbacks go deeper.
-/

namespace ModernC.Layout

open Framework (Extends bind_extends foldlM_extends guard_extends map_extends)
open Syntax (Expr TypeExpr)

variable {sizeOf sizeOf' alignOf alignOf' : TypeExpr → Option ℤ} {wanted : Option String}
  {fields : List Field} {payloads : List (Option TypeExpr)} {isCUnion : Bool}

/-! ## Walks -/

lemma structStep_extends {add : ℤ → ℤ → Option ℤ} {state next : LayoutState} {field : Field}
    (hs : Extends sizeOf sizeOf') (ha : Extends alignOf alignOf')
    (h : structStep sizeOf alignOf wanted add state field = some next) :
    structStep sizeOf' alignOf' wanted add state field = some next := by
  rw [structStep_eq_some] at h ⊢
  obtain ⟨size, alignment, start, stop, hsize, halign, hrest⟩ := h
  exact ⟨size, alignment, start, stop, hs hsize, ha halign, hrest⟩

lemma unionStep_extends {state next : LayoutState} {field : Field}
    (hs : Extends sizeOf sizeOf') (ha : Extends alignOf alignOf')
    (h : unionStep sizeOf alignOf wanted state field = some next) :
    unionStep sizeOf' alignOf' wanted state field = some next := by
  rw [unionStep_eq_some] at h ⊢
  obtain ⟨size, alignment, hsize, halign, hrest⟩ := h
  exact ⟨size, alignment, hs hsize, ha halign, hrest⟩

lemma structLayout_extends {add : ℤ → ℤ → Option ℤ} {layout : StructLayout}
    (hs : Extends sizeOf sizeOf') (ha : Extends alignOf alignOf')
    (h : structLayout sizeOf alignOf wanted add fields = some layout) :
    structLayout sizeOf' alignOf' wanted add fields = some layout := by
  refine bind_extends (fun state hstate => ?_) (fun _ => id) h
  exact foldlM_extends (fun _ _ _ => structStep_extends hs ha) hstate

lemma unionLayout_extends {layout : StructLayout}
    (hs : Extends sizeOf sizeOf') (ha : Extends alignOf alignOf')
    (h : unionLayout sizeOf alignOf wanted fields = some layout) :
    unionLayout sizeOf' alignOf' wanted fields = some layout := by
  refine bind_extends (fun state hstate => ?_) (fun _ => id) h
  exact foldlM_extends (fun _ _ _ => unionStep_extends hs ha) hstate

lemma nonNegative_extends (hs : Extends sizeOf sizeOf') :
    Extends (nonNegative sizeOf) (nonNegative sizeOf') :=
  hs.filter _

/-! ## The checker -/

namespace Sema

lemma comptimeStructLayout_extends {layout : StructLayout}
    (hs : Extends sizeOf sizeOf') (ha : Extends alignOf alignOf')
    (h : comptimeStructLayout sizeOf alignOf fields isCUnion wanted = some layout) :
    comptimeStructLayout sizeOf' alignOf' fields isCUnion wanted = some layout := by
  rw [comptimeStructLayout] at h ⊢
  by_cases hunion : isCUnion = true
  · rw [if_pos hunion] at h ⊢
    exact unionLayout_extends hs ha h
  · rw [if_neg hunion] at h ⊢
    exact structLayout_extends hs ha h

variable {alignment : ℤ} {depth depth' : ℕ}

lemma comptimeStructAlign_extends (ha : Extends alignOf alignOf')
    (h : comptimeStructAlign alignOf fields = some alignment) :
    comptimeStructAlign alignOf' fields = some alignment := by
  refine foldlM_extends (fun maxAlign field _ hstep => ?_) h
  exact map_extends (fun _ hfield => ha hfield) hstep

lemma comptimeOverlayUnionSize_extends {size : ℤ}
    (hs : Extends sizeOf sizeOf') (ha : Extends alignOf alignOf')
    (h : comptimeOverlayUnionSize sizeOf alignOf fields = some size) :
    comptimeOverlayUnionSize sizeOf' alignOf' fields = some size := by
  exact map_extends (fun _ => unionLayout_extends (nonNegative_extends hs) ha) h

lemma comptimeOverlayUnionAlign_extends (ha : Extends alignOf alignOf')
    (h : comptimeOverlayUnionAlign alignOf fields = some alignment) :
    comptimeOverlayUnionAlign alignOf' fields = some alignment := by
  refine foldlM_extends (fun maxAlign field _ hstep => ?_) h
  exact map_extends (fun _ hfield => ha.filter _ hfield) hstep

lemma payloadStep_some {state next : PayloadLayout} {ty : TypeExpr} :
    payloadStep sizeOf alignOf state (some ty) = some next ↔
      ∃ size alignment, sizeOf ty = some size ∧ alignOf ty = some alignment ∧ 0 < alignment ∧
        next =
          { hasPayload := true
            size := max state.size size
            alignment := max state.alignment alignment } := by
  simp only [payloadStep, Option.bind_eq_bind, Option.bind_eq_some_iff,
    Option.filter_eq_some_iff, decide_eq_true_eq, Option.some.injEq]
  constructor
  · rintro ⟨size, hsize, alignment, ⟨halign, hpos⟩, rfl⟩
    exact ⟨size, alignment, hsize, halign, hpos, rfl⟩
  · rintro ⟨size, alignment, hsize, halign, hpos, rfl⟩
    exact ⟨size, hsize, alignment, ⟨halign, hpos⟩, rfl⟩

lemma comptimeTaggedUnionPayloadLayout_extends {layout : PayloadLayout}
    (hs : Extends sizeOf sizeOf') (ha : Extends alignOf alignOf')
    (h : comptimeTaggedUnionPayloadLayout sizeOf alignOf payloads = some layout) :
    comptimeTaggedUnionPayloadLayout sizeOf' alignOf' payloads = some layout := by
  refine bind_extends (fun state hstate => ?_) (fun _ => id) h
  refine foldlM_extends (fun state payload next hstep => ?_) hstate
  rcases payload with _ | ty
  · exact hstep
  · obtain ⟨size, alignment, hsize, halign, hrest⟩ := payloadStep_some.mp hstep
    exact payloadStep_some.mpr ⟨size, alignment, hs hsize, ha halign, hrest⟩

lemma nullableLayout_extends {ty : TypeExpr} {layout : ℤ × ℤ}
    (hs : Extends sizeOf sizeOf') (ha : Extends alignOf alignOf')
    (h : nullableLayout sizeOf alignOf ty = some layout) :
    nullableLayout sizeOf' alignOf' ty = some layout := by
  unfold nullableLayout at h ⊢
  split at h <;> try exact h
  split at h
  · exact absurd h (by simp)
  · next id hvoid =>
    simp only [if_neg hvoid]
    exact bind_extends (fun _ hsize => hs hsize)
      (fun _ => bind_extends (fun _ halign => ha halign) fun _ h => h) h

variable {decls : Decls} {comptime : Expr → Option ℕ}

lemma le_of_comptimeSizeOf {ty : TypeExpr} {size : ℤ}
    (h : comptimeSizeOf decls comptime ty depth = some size) : depth ≤ maxDepth := by
  by_contra hlt
  rw [comptimeSizeOf.eq_def, dif_pos (by omega)] at h
  exact absurd h (by simp)

lemma le_of_comptimeAlignOf {ty : TypeExpr}
    (h : comptimeAlignOf decls comptime ty depth = some alignment) : depth ≤ maxDepth := by
  by_contra hlt
  rw [comptimeAlignOf.eq_def, dif_pos (by omega)] at h
  exact absurd h (by simp)

/-- One level of the checker's size is monotone in the levels below. -/
lemma comptimeSizeOf_extends_step (hle : depth' ≤ depth)
    (hs₁ : Extends (comptimeSizeOf decls comptime · (depth + 1))
      (comptimeSizeOf decls comptime · (depth' + 1)))
    (ha₁ : Extends (comptimeAlignOf decls comptime · (depth + 1))
      (comptimeAlignOf decls comptime · (depth' + 1)))
    (hs₂ : Extends (comptimeSizeOf decls comptime · (depth + 2))
      (comptimeSizeOf decls comptime · (depth' + 2)))
    (ha₂ : Extends (comptimeAlignOf decls comptime · (depth + 2))
      (comptimeAlignOf decls comptime · (depth' + 2))) :
    Extends (comptimeSizeOf decls comptime · depth) (comptimeSizeOf decls comptime · depth') := by
  intro ty size h
  have hd := le_of_comptimeSizeOf h
  simp only at h ⊢
  rw [comptimeSizeOf.eq_def, dif_neg (by omega)] at h
  rw [comptimeSizeOf.eq_def, dif_neg (by omega)]
  split at h <;> try exact h
  · -- a name
    split at h
    · exact h
    · split at h
      · exact hs₁ h
      · exact map_extends (fun _ => comptimeStructLayout_extends hs₁ ha₁) h
      · exact hs₁ h
      · exact comptimeOverlayUnionSize_extends hs₁ ha₁ h
      · exact bind_extends (fun _ => comptimeTaggedUnionPayloadLayout_extends hs₂ ha₂)
          (fun _ => id) h
      · exact hs₁ h
      · exact h
  · exact map_extends (fun _ => nullableLayout_extends hs₂ ha₂) h
  · split at h
    · next hpointer => simpa only [if_pos hpointer] using h
    · next hpointer =>
      rw [if_neg hpointer]
      split at h
      · exact hs₁ h
      · exact h
  · exact bind_extends (fun _ => id)
      (fun _ => bind_extends (fun _ helem => hs₁ helem) fun _ => id) h
  · exact hs₁ h

/-- One level of the checker's alignment is monotone in the levels below. -/
lemma comptimeAlignOf_extends_step (hle : depth' ≤ depth)
    (ha₁ : Extends (comptimeAlignOf decls comptime · (depth + 1))
      (comptimeAlignOf decls comptime · (depth' + 1)))
    (hs₂ : Extends (comptimeSizeOf decls comptime · (depth + 2))
      (comptimeSizeOf decls comptime · (depth' + 2)))
    (ha₂ : Extends (comptimeAlignOf decls comptime · (depth + 2))
      (comptimeAlignOf decls comptime · (depth' + 2))) :
    Extends (comptimeAlignOf decls comptime · depth)
      (comptimeAlignOf decls comptime · depth') := by
  intro ty alignment h
  have hd := le_of_comptimeAlignOf h
  simp only at h ⊢
  rw [comptimeAlignOf.eq_def, dif_neg (by omega)] at h
  rw [comptimeAlignOf.eq_def, dif_neg (by omega)]
  split at h <;> try exact h
  · -- a name
    split at h
    · exact h
    · split at h
      · exact ha₁ h
      · exact comptimeStructAlign_extends ha₁ h
      · exact ha₁ h
      · exact comptimeOverlayUnionAlign_extends ha₁ h
      · exact map_extends (fun _ => comptimeTaggedUnionPayloadLayout_extends hs₂ ha₂) h
      · exact ha₁ h
      · exact h
  · exact map_extends (fun _ => nullableLayout_extends hs₂ ha₂) h
  · split at h
    · next hpointer => simpa only [if_pos hpointer] using h
    · next hpointer =>
      rw [if_neg hpointer]
      split at h
      · exact ha₁ h
      · exact h
  · exact ha₁ h
  · exact ha₁ h

lemma extends_of_le (hle : depth' ≤ depth) :
    Extends (comptimeSizeOf decls comptime · depth) (comptimeSizeOf decls comptime · depth') ∧
      Extends (comptimeAlignOf decls comptime · depth)
        (comptimeAlignOf decls comptime · depth') := by
  -- by how many levels the guard leaves below `depth`
  induction hn : maxDepth + 1 - depth using Nat.strong_induction_on generalizing depth depth' with
  | _ n ih =>
    by_cases hd : depth ≤ maxDepth
    · have h₁ := ih _ (by omega) (Nat.add_le_add_right hle 1) rfl
      have h₂ := ih _ (by omega) (Nat.add_le_add_right hle 2) rfl
      exact ⟨comptimeSizeOf_extends_step hle h₁.1 h₁.2 h₂.1 h₂.2,
        comptimeAlignOf_extends_step hle h₁.2 h₂.1 h₂.2⟩
    · exact ⟨fun _ _ h => absurd (le_of_comptimeSizeOf h) hd,
        fun _ _ h => absurd (le_of_comptimeAlignOf h) hd⟩

end Sema

/-! ## The MIR builder -/

namespace Mir

lemma comptimeStructLayout_extends {layout : StructLayout}
    (hs : Extends sizeOf sizeOf') (ha : Extends alignOf alignOf')
    (h : comptimeStructLayout sizeOf alignOf fields isCUnion wanted = some layout) :
    comptimeStructLayout sizeOf' alignOf' fields isCUnion wanted = some layout := by
  rw [comptimeStructLayout] at h ⊢
  by_cases hunion : isCUnion = true
  · rw [if_pos hunion] at h ⊢
    exact unionLayout_extends (nonNegative_extends hs) ha h
  · rw [if_neg hunion] at h ⊢
    exact structLayout_extends hs ha h

lemma payloadStep_some {state next : PayloadState} {ty : TypeExpr} :
    payloadStep sizeOf alignOf state (some ty) = some next ↔
      ∃ size alignment, sizeOf ty = some size ∧ 0 ≤ size ∧ size ≤ maxU64 ∧
        alignOf ty = some alignment ∧ 0 < alignment ∧ alignment ≤ maxU64 ∧
        next =
          { size := max state.size size
            alignment := max state.alignment alignment } := by
  simp only [payloadStep, nonNegative, castU64, Option.bind_eq_bind, Option.bind_eq_some_iff,
    Option.filter_eq_some_iff, decide_eq_true_eq, Option.ite_none_right_eq_some,
    Option.some.injEq]
  constructor
  · rintro ⟨size, ⟨_, ⟨hsize, hnonneg⟩, ⟨-, hmax⟩, rfl⟩, alignment,
      ⟨_, ⟨halign, hpos⟩, ⟨-, hmaxAlign⟩, rfl⟩, rfl⟩
    exact ⟨_, _, hsize, hnonneg, hmax, halign, hpos, hmaxAlign, rfl⟩
  · rintro ⟨size, alignment, hsize, hnonneg, hmax, halign, hpos, hmaxAlign, rfl⟩
    exact ⟨size, ⟨size, ⟨hsize, hnonneg⟩, ⟨hnonneg, hmax⟩, rfl⟩, alignment,
      ⟨alignment, ⟨halign, hpos⟩, ⟨by omega, hmaxAlign⟩, rfl⟩, rfl⟩

lemma comptimeTaggedUnionLayout_extends {layout : TaggedUnionLayout}
    (hs : Extends sizeOf sizeOf') (ha : Extends alignOf alignOf')
    (h : comptimeTaggedUnionLayout sizeOf alignOf payloads = some layout) :
    comptimeTaggedUnionLayout sizeOf' alignOf' payloads = some layout := by
  refine bind_extends (fun state hstate => ?_) (fun _ => id) h
  refine foldlM_extends (fun state payload next hstep => ?_) hstate
  rcases payload with _ | ty
  · exact hstep
  · obtain ⟨size, alignment, hsize, hnonneg, hmax, halign, hrest⟩ := payloadStep_some.mp hstep
    exact payloadStep_some.mpr ⟨size, alignment, hs hsize, hnonneg, hmax, ha halign, hrest⟩

variable {decls : Decls}

variable {depth depth' : ℕ}

lemma le_of_comptimeSizeOf {ty : TypeExpr} {size : ℤ}
    (h : comptimeSizeOf decls ty depth = some size) : depth ≤ maxDepth := by
  by_contra hlt
  rw [comptimeSizeOf.eq_def, dif_pos (by omega)] at h
  exact absurd h (by simp)

lemma le_of_comptimeAlignOf {ty : TypeExpr} {alignment : ℤ}
    (h : comptimeAlignOf decls ty depth = some alignment) : depth ≤ maxDepth := by
  by_contra hlt
  rw [comptimeAlignOf.eq_def, dif_pos (by omega)] at h
  exact absurd h (by simp)

/-- One level of the builder's size is monotone in the levels below. -/
lemma comptimeSizeOf_extends_step (hle : depth' ≤ depth)
    (hs₁ : Extends (comptimeSizeOf decls · (depth + 1)) (comptimeSizeOf decls · (depth' + 1)))
    (hs₂ : Extends (comptimeSizeOf decls · (depth + 2)) (comptimeSizeOf decls · (depth' + 2)))
    (ha₂ : Extends (comptimeAlignOf decls · (depth + 2)) (comptimeAlignOf decls · (depth' + 2))) :
    Extends (comptimeSizeOf decls · depth) (comptimeSizeOf decls · depth') := by
  intro ty size h
  have hd := le_of_comptimeSizeOf h
  simp only at h ⊢
  rw [comptimeSizeOf.eq_def, dif_neg (by omega)] at h
  rw [comptimeSizeOf.eq_def, dif_neg (by omega)]
  split at h <;> try exact h
  · -- a name
    split at h
    · exact h
    · split at h
      · exact hs₁ h
      · exact guard_extends (by omega)
          (map_extends fun _ => comptimeStructLayout_extends hs₂ ha₂) h
      · exact guard_extends (by omega)
          (map_extends fun _ => comptimeStructLayout_extends hs₂ ha₂) h
      · exact guard_extends (by omega)
          (map_extends fun _ => comptimeTaggedUnionLayout_extends hs₂ ha₂) h
      · exact hs₁ h
      · exact hs₁ h
      · exact h
  · split at h
    · next hpointer => simpa only [if_pos hpointer] using h
    · next hpointer =>
      rw [if_neg hpointer]
      split at h
      · exact hs₁ h
      · exact h
  · exact bind_extends (fun _ => id)
      (fun _ => bind_extends (fun _ helem => hs₁ helem) fun _ => id) h
  · exact hs₁ h

/-- One level of the builder's alignment is monotone in the levels below. -/
lemma comptimeAlignOf_extends_step (hle : depth' ≤ depth)
    (ha₁ : Extends (comptimeAlignOf decls · (depth + 1)) (comptimeAlignOf decls · (depth' + 1)))
    (hs₂ : Extends (comptimeSizeOf decls · (depth + 2)) (comptimeSizeOf decls · (depth' + 2)))
    (ha₂ : Extends (comptimeAlignOf decls · (depth + 2)) (comptimeAlignOf decls · (depth' + 2))) :
    Extends (comptimeAlignOf decls · depth) (comptimeAlignOf decls · depth') := by
  intro ty alignment h
  have hd := le_of_comptimeAlignOf h
  simp only at h ⊢
  rw [comptimeAlignOf.eq_def, dif_neg (by omega)] at h
  rw [comptimeAlignOf.eq_def, dif_neg (by omega)]
  split at h <;> try exact h
  · -- a name
    split at h
    · exact h
    · split at h
      · exact ha₁ h
      · exact guard_extends (by omega)
          (map_extends fun _ => comptimeStructLayout_extends hs₂ ha₂) h
      · exact guard_extends (by omega)
          (map_extends fun _ => comptimeStructLayout_extends hs₂ ha₂) h
      · exact guard_extends (by omega)
          (map_extends fun _ => comptimeTaggedUnionLayout_extends hs₂ ha₂) h
      · exact ha₁ h
      · exact ha₁ h
      · exact h
  · split at h
    · next hpointer => simpa only [if_pos hpointer] using h
    · next hpointer =>
      rw [if_neg hpointer]
      split at h
      · exact ha₁ h
      · exact h
  · exact ha₁ h
  · exact ha₁ h

lemma extends_of_le (hle : depth' ≤ depth) :
    Extends (comptimeSizeOf decls · depth) (comptimeSizeOf decls · depth') ∧
      Extends (comptimeAlignOf decls · depth) (comptimeAlignOf decls · depth') := by
  induction hn : maxDepth + 1 - depth using Nat.strong_induction_on generalizing depth depth' with
  | _ n ih =>
    by_cases hd : depth ≤ maxDepth
    · have h₁ := ih _ (by omega) (Nat.add_le_add_right hle 1) rfl
      have h₂ := ih _ (by omega) (Nat.add_le_add_right hle 2) rfl
      exact ⟨comptimeSizeOf_extends_step hle h₁.1 h₂.1 h₂.2,
        comptimeAlignOf_extends_step hle h₁.2 h₂.1 h₂.2⟩
    · exact ⟨fun _ _ h => absurd (le_of_comptimeSizeOf h) hd,
        fun _ _ h => absurd (le_of_comptimeAlignOf h) hd⟩

end Mir

end ModernC.Layout
