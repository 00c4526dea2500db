import ModernC.Layout.DepthGuard

/-!
# Types without storage

A type is zero-sized by its shape: an empty array or one of zero-sized elements, a struct or
union whose fields are all zero-sized and start at 0, and what takes over the layout of such a
type.  These are the types of which the checker finds the size 0.
-/

namespace ModernC.Layout

open Framework (foldlM_all)
open Syntax (Expr TypeExpr)

/-- The type whose layout a declaration takes over. -/
def layoutType : TypeDecl → Option TypeExpr
  | .alias_ target => some target
  | .packedBits repr _ => some repr
  | .enum repr => some (repr.getD isizeType)
  | _ => none

inductive ZeroSized (decls : Decls) (comptime : Expr → Option ℕ) : TypeExpr → Prop
  | named {id decl ty} (hscalar : scalarLayout id.text = none) (hdecl : decls id.text = some decl)
      (htype : layoutType decl = some ty) (h : ZeroSized decls comptime ty) :
      ZeroSized decls comptime (.name id)
  | struct {id fields} (hscalar : scalarLayout id.text = none)
      (hdecl : decls id.text = some (.struct fields false))
      (h : ∀ field ∈ fields, ZeroSized decls comptime field.ty)
      (hoffset : ∀ field ∈ fields, field.offset.getD 0 = 0) :
      ZeroSized decls comptime (.name id)
  | cUnion {id fields} (hscalar : scalarLayout id.text = none)
      (hdecl : decls id.text = some (.struct fields true))
      (h : ∀ field ∈ fields, ZeroSized decls comptime field.ty) :
      ZeroSized decls comptime (.name id)
  | overlayUnion {id fields} (hscalar : scalarLayout id.text = none)
      (hdecl : decls id.text = some (.overlayUnion fields))
      (h : ∀ field ∈ fields, ZeroSized decls comptime field.ty) :
      ZeroSized decls comptime (.name id)
  | generic {base args arg} (hpointer : isPointerGeneric base.text args = false)
      (harg : layoutArgument base.text args = some arg) (h : ZeroSized decls comptime arg) :
      ZeroSized decls comptime (.generic base args)
  | emptyArray {len child} (hlen : parseArrayLen comptime len = some 0) :
      ZeroSized decls comptime (.array len child)
  | array {len child} (h : ZeroSized decls comptime child) :
      ZeroSized decls comptime (.array len child)
  | qualified {q child} (h : ZeroSized decls comptime child) :
      ZeroSized decls comptime (.qualified q child)

section Inversion

variable {decls : Decls} {comptime : Expr → Option ℕ}

variable {id : Syntax.Ident} {fields : List Field}

lemma zeroSized_named_iff {decl : TypeDecl} {ty : TypeExpr}
    (hscalar : scalarLayout id.text = none) (hdecl : decls id.text = some decl)
    (htype : layoutType decl = some ty) :
    ZeroSized decls comptime (.name id) ↔ ZeroSized decls comptime ty := by
  refine ⟨fun h => ?_, .named hscalar hdecl htype⟩
  cases h with
  | named _ hdecl' htype' h =>
    obtain rfl := Option.some.inj (hdecl.symm.trans hdecl')
    obtain rfl := Option.some.inj (htype.symm.trans htype')
    exact h
  | struct _ hdecl' | cUnion _ hdecl' | overlayUnion _ hdecl' =>
    obtain rfl := Option.some.inj (hdecl.symm.trans hdecl')
    exact absurd htype (by simp [layoutType])

lemma zeroSized_struct_iff
    (hscalar : scalarLayout id.text = none) (hdecl : decls id.text = some (.struct fields false)) :
    ZeroSized decls comptime (.name id) ↔
      ∀ field ∈ fields, ZeroSized decls comptime field.ty ∧ field.offset.getD 0 = 0 := by
  refine ⟨fun h => ?_, fun h =>
    .struct hscalar hdecl (fun field hf => (h field hf).1) fun field hf => (h field hf).2⟩
  cases h with
  | struct _ hdecl' h hoffset =>
    obtain ⟨rfl, -⟩ := TypeDecl.struct.inj (Option.some.inj (hdecl.symm.trans hdecl'))
    exact fun field hf => ⟨h field hf, hoffset field hf⟩
  | named _ hdecl' htype =>
    obtain rfl := Option.some.inj (hdecl.symm.trans hdecl')
    exact absurd htype (by simp [layoutType])
  | cUnion _ hdecl' | overlayUnion _ hdecl' => simp [hdecl] at hdecl'

lemma zeroSized_union_iff (hscalar : scalarLayout id.text = none)
    (hdecl : decls id.text = some (.struct fields true) ∨
      decls id.text = some (.overlayUnion fields)) :
    ZeroSized decls comptime (.name id) ↔
      ∀ field ∈ fields, ZeroSized decls comptime field.ty := by
  refine ⟨fun h => ?_, fun h => hdecl.elim (.cUnion hscalar · h) (.overlayUnion hscalar · h)⟩
  cases h with
  | cUnion _ hdecl' h | overlayUnion _ hdecl' h =>
    rw [hdecl'] at hdecl
    simp only [Option.some.injEq, TypeDecl.struct.injEq, TypeDecl.overlayUnion.injEq, reduceCtorEq,
      and_true, or_false, false_or] at hdecl
    exact hdecl ▸ h
  | named _ hdecl' htype =>
    rcases hdecl with hdecl | hdecl
    all_goals
      obtain rfl := Option.some.inj (hdecl.symm.trans hdecl')
      exact absurd htype (by simp [layoutType])
  | struct _ hdecl' => simp [hdecl'] at hdecl

lemma not_zeroSized_taggedUnion {payloads : List (Option TypeExpr)}
    (hdecl : decls id.text = some (.taggedUnion payloads)) :
    ¬ZeroSized decls comptime (.name id) := by
  intro h
  cases h with
  | named _ hdecl' htype =>
    obtain rfl := Option.some.inj (hdecl.symm.trans hdecl')
    exact absurd htype (by simp [layoutType])
  | struct _ hdecl' | cUnion _ hdecl' | overlayUnion _ hdecl' => simp [hdecl] at hdecl'

lemma not_zeroSized_scalar {size : ℤ}
    (hscalar : scalarLayout id.text = some size) : ¬ZeroSized decls comptime (.name id) := by
  intro h
  cases h with
  | named hscalar' | struct hscalar' | cUnion hscalar' | overlayUnion hscalar' =>
    simp [hscalar] at hscalar'

lemma zeroSized_generic_iff {base : Syntax.Ident} {args : List TypeExpr} {arg : TypeExpr}
    (hpointer : ¬isPointerGeneric base.text args = true)
    (harg : layoutArgument base.text args = some arg) :
    ZeroSized decls comptime (.generic base args) ↔ ZeroSized decls comptime arg := by
  refine ⟨fun h => ?_, .generic (Bool.eq_false_iff.mpr hpointer) harg⟩
  cases h with
  | generic _ harg' h =>
    obtain rfl := Option.some.inj (harg.symm.trans harg')
    exact h

lemma not_zeroSized_pointerGeneric {base : Syntax.Ident} {args : List TypeExpr}
    (hpointer : isPointerGeneric base.text args = true) :
    ¬ZeroSized decls comptime (.generic base args) := by
  intro h
  cases h with
  | generic hpointer' => simp [hpointer] at hpointer'

lemma zeroSized_array_iff {len : Expr} {child : TypeExpr} :
    ZeroSized decls comptime (.array len child) ↔
      parseArrayLen comptime len = some 0 ∨ ZeroSized decls comptime child := by
  refine ⟨fun h => ?_, fun h => h.elim .emptyArray .array⟩
  cases h with
  | emptyArray hlen => exact .inl hlen
  | array h => exact .inr h

lemma zeroSized_qualified_iff {q : Syntax.Mutability} {child : TypeExpr} :
    ZeroSized decls comptime (.qualified q child) ↔ ZeroSized decls comptime child := by
  refine ⟨fun h => ?_, .qualified⟩
  cases h with
  | qualified h => exact h

end Inversion

/-! ## Sizes of walks -/

/-- The sizes are not negative, and 0 just for the types of `zero`. -/
def SizesZero (zero : TypeExpr → Prop) (sizeOf : TypeExpr → Option ℤ) : Prop :=
  ∀ ⦃ty size⦄, sizeOf ty = some size → 0 ≤ size ∧ (size = 0 ↔ zero ty)

section Walks

variable {zero : TypeExpr → Prop} {sizeOf alignOf : TypeExpr → Option ℤ}
  {wanted : Option String} {fields : List Field}

lemma alignForward_zero {value alignment aligned : ℤ} (hvalue : 0 ≤ value)
    (h : alignForward value alignment = some aligned) :
    0 ≤ aligned ∧ (aligned = 0 ↔ value = 0) := by
  obtain ⟨hpos, hdvd, hle, hlt⟩ := alignForward_spec hvalue h
  refine ⟨by omega, by omega, ?_⟩
  rintro rfl
  by_contra hne
  have hge := Int.le_of_dvd (by omega) hdvd
  omega

lemma fieldStart_zero {offset alignment start : ℤ} {explicit : Option ℕ} (hoffset : 0 ≤ offset)
    (h : fieldStart offset alignment explicit = some start) :
    0 ≤ start ∧ (start = 0 ↔ offset = 0 ∧ explicit.getD 0 = 0) := by
  rcases explicit with _ | explicit
  · obtain ⟨hnonneg, hzero⟩ := alignForward_zero hoffset h
    exact ⟨hnonneg, by simpa using hzero⟩
  · obtain ⟨hle, hstart⟩ := Option.ite_none_left_eq_some.mp h
    obtain rfl := Option.some.inj hstart
    refine ⟨by omega, fun hzero => ⟨by omega, ?_⟩, fun hzero => ?_⟩
    · simpa using hzero
    · simpa using hzero.2

variable {state : LayoutState} {layout : StructLayout}

lemma structStep_zero {next : LayoutState} {field : Field} (hs : SizesZero zero sizeOf)
    (hstate : 0 ≤ state.offset)
    (h : structStep sizeOf alignOf wanted comptimeLayoutAdd state field = some next) :
    0 ≤ next.offset ∧
      (next.offset = 0 ↔ state.offset = 0 ∧ zero field.ty ∧ field.offset.getD 0 = 0) := by
  obtain ⟨size, alignment, start, stop, hsize, -, -, hstart, hstop, rfl⟩ :=
    (structStep_eq_some ..).mp h
  obtain ⟨hsizeNonneg, hsizeZero⟩ := hs hsize
  obtain ⟨hstartNonneg, hstartZero⟩ := fieldStart_zero hstate hstart
  obtain ⟨-, -, rfl⟩ := comptimeLayoutAdd_spec hstop
  refine ⟨by simp only; omega, ?_⟩
  have hsum : start + size = 0 ↔ start = 0 ∧ size = 0 := by omega
  simp only [hsum, hstartZero, hsizeZero]
  tauto

lemma unionStep_zero {next : LayoutState} {field : Field} (hs : SizesZero zero sizeOf)
    (hstate : 0 ≤ state.offset) (h : unionStep sizeOf alignOf wanted state field = some next) :
    0 ≤ next.offset ∧ (next.offset = 0 ↔ state.offset = 0 ∧ zero field.ty) := by
  obtain ⟨size, alignment, hsize, -, -, rfl⟩ := (unionStep_eq_some ..).mp h
  obtain ⟨hsizeNonneg, hsizeZero⟩ := hs hsize
  refine ⟨by simp only; omega, ?_⟩
  have hmax : max state.offset size = 0 ↔ state.offset = 0 ∧ size = 0 := by omega
  simp only [hmax, hsizeZero]

lemma finishLayout_size (hstate : 0 ≤ state.offset) (h : finishLayout state = some layout) :
    0 ≤ layout.size ∧ (layout.size = 0 ↔ state.offset = 0) := by
  obtain ⟨size, hsize, rfl⟩ := Option.map_eq_some_iff.mp h
  exact alignForward_zero hstate hsize

/-- A walk over the fields, one by one, ends in a layout of size 0 where each of them fits in 0. -/
lemma foldLayout_zero {step : LayoutState → Field → Option LayoutState} {P : Field → Prop}
    (hstep : ∀ {state field next}, 0 ≤ state.offset → step state field = some next →
      0 ≤ next.offset ∧ (next.offset = 0 ↔ state.offset = 0 ∧ P field))
    (h : (fields.foldlM step {}).bind finishLayout = some layout) :
    0 ≤ layout.size ∧ (layout.size = 0 ↔ ∀ field ∈ fields, P field) := by
  obtain ⟨state, hstate, hfinish⟩ := Option.bind_eq_some_iff.mp h
  obtain ⟨hnonneg, hzero⟩ := foldlM_all (I := fun state => 0 ≤ state.offset)
    (P := fun state => state.offset = 0) (fun _ _ _ _ => hstep) (by simp) hstate
  obtain ⟨hsize, hsizeZero⟩ := finishLayout_size hnonneg hfinish
  refine ⟨hsize, ?_⟩
  rw [hsizeZero, hzero]
  simp

lemma structLayout_zero (hs : SizesZero zero sizeOf)
    (h : structLayout sizeOf alignOf wanted comptimeLayoutAdd fields = some layout) :
    0 ≤ layout.size ∧
      (layout.size = 0 ↔ ∀ field ∈ fields, zero field.ty ∧ field.offset.getD 0 = 0) :=
  foldLayout_zero (structStep_zero hs) h

lemma unionLayout_zero (hs : SizesZero zero sizeOf)
    (h : unionLayout sizeOf alignOf wanted fields = some layout) :
    0 ≤ layout.size ∧ (layout.size = 0 ↔ ∀ field ∈ fields, zero field.ty) :=
  foldLayout_zero (unionStep_zero hs) h

lemma SizesZero.nonNegative (hs : SizesZero zero sizeOf) : SizesZero zero (nonNegative sizeOf) :=
  fun _ _ h => hs (Option.filter_eq_some_iff.mp h).1

end Walks

/-! ## Sizes of the checker -/

namespace Sema

lemma four_le_taggedUnionSize {payload : PayloadLayout} {size : ℤ}
    (h : taggedUnionSize payload = some size) : 4 ≤ size := by
  rw [taggedUnionSize] at h
  split at h
  · obtain ⟨start, hstart, h⟩ := Option.bind_eq_some_iff.mp h
    obtain ⟨stop, hstop, h⟩ := Option.bind_eq_some_iff.mp h
    obtain ⟨-, -, hstartLe, -⟩ := alignForward_spec (by decide) hstart
    obtain ⟨-, hpayload, rfl⟩ := comptimeLayoutAdd_spec hstop
    have htag : tagSize = 4 := rfl
    obtain ⟨-, -, hsizeLe, -⟩ := alignForward_spec (by omega) h
    omega
  · obtain ⟨-, -, hsizeLe, -⟩ := alignForward_spec (by decide) h
    exact hsizeLe

lemma one_le_nullableLayout {sizeOf alignOf : TypeExpr → Option ℤ} {ty : TypeExpr}
    {layout : ℤ × ℤ} (h : nullableLayout sizeOf alignOf ty = some layout) : 1 ≤ layout.1 := by
  unfold nullableLayout at h
  split at h
  case h_5 id =>
    obtain ⟨-, h⟩ := Option.ite_none_left_eq_some.mp h
    obtain ⟨size, -, h⟩ := Option.bind_eq_some_iff.mp h
    obtain ⟨alignment, -, h⟩ := Option.bind_eq_some_iff.mp h
    obtain ⟨-, h⟩ := Option.ite_none_left_eq_some.mp h
    obtain ⟨start, hstart, h⟩ := Option.bind_eq_some_iff.mp h
    obtain ⟨stop, hstop, h⟩ := Option.bind_eq_some_iff.mp h
    obtain ⟨total, htotal, h⟩ := Option.bind_eq_some_iff.mp h
    obtain rfl := Option.some.inj h
    obtain ⟨-, -, hstartLe, -⟩ := alignForward_spec (by decide) hstart
    obtain ⟨-, hsize, rfl⟩ := comptimeLayoutAdd_spec hstop
    obtain ⟨-, -, htotalLe, -⟩ := alignForward_spec (by omega) htotal
    simp only
    omega
  all_goals
    first
    | obtain rfl := Option.some.inj h
      decide
    | exact absurd h (by simp)

variable {decls : Decls} {comptime : Expr → Option ℕ}

/-- One level of the checker's size. -/
lemma comptimeSizeOf_zero_step {depth : ℕ}
    (ih₁ : SizesZero (ZeroSized decls comptime) (comptimeSizeOf decls comptime · (depth + 1))) :
    SizesZero (ZeroSized decls comptime) (comptimeSizeOf decls comptime · depth) := by
  intro ty size h
  have hd := le_of_comptimeSizeOf h
  simp only at h
  rw [comptimeSizeOf.eq_def, dif_neg (by omega)] at h
  split at h
  · next id =>
    split at h
    · next scalar hscalar =>
      obtain rfl := Option.some.inj h
      have hpos := scalarLayout_pos hscalar
      exact ⟨by omega, iff_of_false (by omega) (not_zeroSized_scalar hscalar)⟩
    · next hscalar =>
      split at h
      · next hdecl =>
        rw [zeroSized_named_iff hscalar hdecl rfl]
        exact ih₁ h
      · next fields isCUnion hdecl =>
        obtain ⟨layout, hlayout, rfl⟩ := Option.map_eq_some_iff.mp h
        by_cases hunion : isCUnion = true
        · subst hunion
          rw [zeroSized_union_iff hscalar (.inl hdecl)]
          exact unionLayout_zero ih₁ hlayout
        · obtain rfl := Bool.eq_false_iff.mpr hunion
          rw [zeroSized_struct_iff hscalar hdecl]
          exact structLayout_zero ih₁ hlayout
      · next hdecl =>
        rw [zeroSized_named_iff hscalar hdecl rfl]
        exact ih₁ h
      · next hdecl =>
        obtain ⟨layout, hlayout, rfl⟩ := Option.map_eq_some_iff.mp h
        rw [zeroSized_union_iff hscalar (.inr hdecl)]
        exact unionLayout_zero ih₁.nonNegative hlayout
      · next hdecl =>
        obtain ⟨layout, -, h⟩ := Option.bind_eq_some_iff.mp h
        have hfour := four_le_taggedUnionSize h
        exact ⟨by omega, iff_of_false (by omega) (not_zeroSized_taggedUnion hdecl)⟩
      · next hdecl =>
        rw [zeroSized_named_iff hscalar hdecl rfl]
        exact ih₁ h
      · exact absurd h (by simp)
  case h_7 child =>
    obtain ⟨layout, hlayout, rfl⟩ := Option.map_eq_some_iff.mp h
    have hone := one_le_nullableLayout hlayout
    exact ⟨by omega, iff_of_false (by omega) (by rintro ⟨⟩)⟩
  case h_9 base args =>
    split at h
    · next hpointer =>
      obtain rfl := Option.some.inj h
      exact ⟨by decide, iff_of_false (by decide) (not_zeroSized_pointerGeneric hpointer)⟩
    · next hpointer =>
      split at h
      · next harg =>
        rw [zeroSized_generic_iff hpointer harg]
        exact ih₁ h
      · exact absurd h (by simp)
  -- an array has no bytes if it has no items, or items without bytes
  case h_10 len child =>
    obtain ⟨count, hcount, h⟩ := Option.bind_eq_some_iff.mp h
    obtain ⟨elem, helem, h⟩ := Option.bind_eq_some_iff.mp h
    obtain ⟨hlen, helemNonneg, rfl⟩ := comptimeArraySize_spec h
    refine ⟨Int.mul_nonneg hlen helemNonneg, ?_⟩
    rw [zeroSized_array_iff, hcount, Int.mul_eq_zero, (ih₁ helem).2]
    simp
  case h_11 q child =>
    rw [zeroSized_qualified_iff]
    exact ih₁ h
  all_goals
    first
    | obtain rfl := Option.some.inj h
      exact ⟨by decide, iff_of_false (by decide) (by rintro ⟨⟩)⟩
    | exact absurd h (by simp)

/-- **The checker finds the size 0 just of the zero-sized types.** -/
theorem comptimeSizeOf_zero (depth : ℕ) :
    SizesZero (ZeroSized decls comptime) (comptimeSizeOf decls comptime · depth) := by
  induction hn : maxDepth + 1 - depth generalizing depth with
  | zero => exact fun ty size h => absurd (le_of_comptimeSizeOf h) (by omega)
  | succ n ih => exact comptimeSizeOf_zero_step (ih (depth + 1) (by omega))

end Sema

end ModernC.Layout
