import ModernC.Layout.ZeroSized

/-!
# Where the two reflection engines agree

The alignments always agree.  The sizes agree up to the payloads of tagged unions: the checker
takes the largest payload, the MIR builder at least one byte, so they part at a tagged union that
stores nothing but its tag.  `reflectionsAgree_iff_taggedUnionsStore` says so of all declarations
and for every evaluator of lengths.
-/

namespace ModernC.Layout

open Framework (Agrees foldlM_related foldlM_all foldlM_bind_agrees foldlM_extends foldlM_view)
open Syntax (Expr TypeExpr)

/-! ## Walks -/

section Walks

variable {sizeOf sizeOf' alignOf alignOf' : TypeExpr → Option ℤ} {wanted : Option String}
  {fields : List Field}

variable {state : LayoutState} {layout layout' : StructLayout}

lemma structStep_agrees {next next' : LayoutState} {field : Field}
    (hs : Agrees sizeOf sizeOf') (ha : Agrees alignOf alignOf')
    (h : structStep sizeOf alignOf wanted comptimeLayoutAdd state field = some next)
    (h' : structStep sizeOf' alignOf' wanted addI128 state field = some next') : next = next' := by
  obtain ⟨size, alignment, start, stop, hsize, halign, -, hstart, hstop, rfl⟩ :=
    (structStep_eq_some ..).mp h
  obtain ⟨size', alignment', start', stop', hsize', halign', -, hstart', hstop', rfl⟩ :=
    (structStep_eq_some ..).mp h'
  obtain rfl := hs hsize hsize'
  obtain rfl := ha halign halign'
  obtain rfl := Option.some.inj (hstart.symm.trans hstart')
  obtain ⟨-, -, rfl⟩ := comptimeLayoutAdd_spec hstop
  obtain rfl := addI128_eq hstop'
  rfl

lemma unionStep_agrees {next next' : LayoutState} {field : Field}
    (hs : Agrees sizeOf sizeOf') (ha : Agrees alignOf alignOf')
    (h : unionStep sizeOf alignOf wanted state field = some next)
    (h' : unionStep sizeOf' alignOf' wanted state field = some next') : next = next' := by
  obtain ⟨size, alignment, hsize, halign, -, rfl⟩ := (unionStep_eq_some ..).mp h
  obtain ⟨size', alignment', hsize', halign', -, rfl⟩ := (unionStep_eq_some ..).mp h'
  obtain rfl := hs hsize hsize'
  obtain rfl := ha halign halign'
  rfl

lemma structLayout_agrees (hs : Agrees sizeOf sizeOf') (ha : Agrees alignOf alignOf')
    (h : structLayout sizeOf alignOf wanted comptimeLayoutAdd fields = some layout)
    (h' : structLayout sizeOf' alignOf' wanted addI128 fields = some layout') :
    layout = layout' := by
  exact foldlM_bind_agrees (fun _ _ _ _ _ => structStep_agrees hs ha) h h'

lemma unionLayout_agrees (hs : Agrees sizeOf sizeOf') (ha : Agrees alignOf alignOf')
    (h : unionLayout sizeOf alignOf wanted fields = some layout)
    (h' : unionLayout sizeOf' alignOf' wanted fields = some layout') : layout = layout' := by
  exact foldlM_bind_agrees (fun _ _ _ _ _ => unionStep_agrees hs ha) h h'

lemma comptimeStructLayout_agrees {isCUnion : Bool}
    (hs : Agrees sizeOf sizeOf') (ha : Agrees alignOf alignOf')
    (h : Sema.comptimeStructLayout sizeOf alignOf fields isCUnion wanted = some layout)
    (h' : Mir.comptimeStructLayout sizeOf' alignOf' fields isCUnion wanted = some layout') :
    layout = layout' := by
  rw [Sema.comptimeStructLayout] at h
  rw [Mir.comptimeStructLayout] at h'
  by_cases hunion : isCUnion = true
  · rw [if_pos hunion] at h h'
    exact unionLayout_agrees (hs.filter_right _) ha h h'
  · rw [if_neg hunion] at h h'
    exact structLayout_agrees hs ha h h'

/-! ### Alignments -/

lemma finishLayout_alignment
    (h : finishLayout state = some layout) : layout.alignment = state.maxAlign := by
  obtain ⟨size, -, rfl⟩ := Option.map_eq_some_iff.mp h
  rfl

/-- The alignment that a layout finds is the one that the alignments alone give. -/
lemma comptimeStructAlign_of_layout {isCUnion : Bool}
    (h : Mir.comptimeStructLayout sizeOf alignOf fields isCUnion wanted = some layout) :
    Sema.comptimeStructAlign alignOf fields = some layout.alignment := by
  rw [Mir.comptimeStructLayout] at h
  by_cases hunion : isCUnion = true
  · rw [if_pos hunion] at h
    obtain ⟨state, hstate, hfinish⟩ := Option.bind_eq_some_iff.mp h
    rw [finishLayout_alignment hfinish]
    refine foldlM_view (v := LayoutState.maxAlign) (fun _ field _ hstep => ?_) hstate
    obtain ⟨size, alignment, -, halign, -, rfl⟩ := (unionStep_eq_some ..).mp hstep
    rw [halign, Option.map_some]
  · rw [if_neg hunion] at h
    obtain ⟨state, hstate, hfinish⟩ := Option.bind_eq_some_iff.mp h
    rw [finishLayout_alignment hfinish]
    refine foldlM_view (v := LayoutState.maxAlign) (fun _ field _ hstep => ?_) hstate
    obtain ⟨size, alignment, start, stop, -, halign, -, -, -, rfl⟩ :=
      (structStep_eq_some ..).mp hstep
    rw [halign, Option.map_some]

lemma comptimeStructAlign_of_overlayUnion {alignment : ℤ}
    (h : Sema.comptimeOverlayUnionAlign alignOf fields = some alignment) :
    Sema.comptimeStructAlign alignOf fields = some alignment := by
  refine foldlM_extends (fun maxAlign field _ hstep => ?_) h
  obtain ⟨fieldAlign, hfield, rfl⟩ := Option.map_eq_some_iff.mp hstep
  exact Option.map_eq_some_iff.mpr ⟨fieldAlign, (Option.filter_eq_some_iff.mp hfield).1, rfl⟩

lemma comptimeStructAlign_agrees {alignment alignment' : ℤ} (ha : Agrees alignOf alignOf')
    (h : Sema.comptimeStructAlign alignOf fields = some alignment)
    (h' : Sema.comptimeStructAlign alignOf' fields = some alignment') :
    alignment = alignment' := by
  refine foldlM_related (fun field _ s t s' t' hst hs ht => ?_) rfl h h'
  obtain ⟨a, hfield, rfl⟩ := Option.map_eq_some_iff.mp hs
  obtain ⟨a', hfield', rfl⟩ := Option.map_eq_some_iff.mp ht
  rw [hst, ha hfield hfield']

end Walks

/-! ## Payloads of tagged unions -/

section Payloads

variable {sizeOf sizeOf' alignOf alignOf' : TypeExpr → Option ℤ}
  {payloads : List (Option TypeExpr)}

/-- How the walks of both engines over the same payloads stand, sizes apart. -/
structure SameAlignment (state : Sema.PayloadLayout) (state' : Mir.PayloadState) : Prop where
  alignment_eq : state'.alignment = state.alignment
  bare : state.hasPayload = false → state.alignment = 1 ∧ state.size = 0

variable {state next : Sema.PayloadLayout} {state' : Mir.PayloadState} {payload : Option TypeExpr}
  {layout' : Mir.TaggedUnionLayout} {size : ℤ}

lemma sameAlignment_step {next' : Mir.PayloadState}
    (ha : Agrees alignOf alignOf') (hsame : SameAlignment state state')
    (h : Sema.payloadStep sizeOf alignOf state payload = some next)
    (h' : Mir.payloadStep sizeOf' alignOf' state' payload = some next') :
    SameAlignment next next' := by
  rcases payload with _ | ty
  · obtain rfl : state = next := Option.some.inj h
    obtain rfl : state' = next' := Option.some.inj h'
    exact hsame
  · obtain ⟨size, alignment, -, halign, -, rfl⟩ := Sema.payloadStep_some.mp h
    obtain ⟨size', alignment', -, -, -, halign', -, -, rfl⟩ := Mir.payloadStep_some.mp h'
    obtain rfl := ha halign halign'
    exact ⟨by simp only [hsame.alignment_eq], by simp⟩

/-- The builder's largest payload has at least one byte. -/
lemma payloadSize_step {next' : Mir.PayloadState} (hs : Agrees sizeOf sizeOf')
    (hsame : state'.size = max 1 state.size)
    (h : Sema.payloadStep sizeOf alignOf state payload = some next)
    (h' : Mir.payloadStep sizeOf' alignOf' state' payload = some next') :
    next'.size = max 1 next.size := by
  rcases payload with _ | ty
  · obtain rfl : state = next := Option.some.inj h
    obtain rfl : state' = next' := Option.some.inj h'
    exact hsame
  · obtain ⟨size, alignment, hsize, -, -, rfl⟩ := Sema.payloadStep_some.mp h
    obtain ⟨size', alignment', hsize', -, -, -, -, -, rfl⟩ := Mir.payloadStep_some.mp h'
    obtain rfl := hs hsize hsize'
    simp only [hsame]
    omega

lemma payloadSize_zero_step {zero : TypeExpr → Prop}
    (hz : SizesZero zero sizeOf) (hstate : 0 ≤ state.size)
    (h : Sema.payloadStep sizeOf alignOf state payload = some next) :
    0 ≤ next.size ∧
      (next.size = 0 ↔ state.size = 0 ∧ ∀ ty, payload = some ty → zero ty) := by
  rcases payload with _ | ty
  · obtain rfl : state = next := Option.some.inj h
    exact ⟨hstate, by simp⟩
  · obtain ⟨size, alignment, hsize, -, -, rfl⟩ := Sema.payloadStep_some.mp h
    obtain ⟨hnonneg, hzero⟩ := hz hsize
    have hmax : max state.size size = 0 ↔ state.size = 0 ∧ size = 0 := by omega
    refine ⟨by simp only; omega, ?_⟩
    simp only [hmax, hzero, Option.some.injEq, forall_eq']

variable {payload : Sema.PayloadLayout}

/-- What both layouts of a tagged union are made of. -/
lemma payloads_of_layouts (ha : Agrees alignOf alignOf')
    (h : Sema.comptimeTaggedUnionPayloadLayout sizeOf alignOf payloads = some payload)
    (h' : Mir.comptimeTaggedUnionLayout sizeOf' alignOf' payloads = some layout') :
    ∃ state state' size, payloads.foldlM (Sema.payloadStep sizeOf alignOf) {} = some state ∧
      payloads.foldlM (Mir.payloadStep sizeOf' alignOf') {} = some state' ∧
      SameAlignment state state' ∧ alignForward state.size state.alignment = some size ∧
      payload = { state with size } ∧ Mir.layoutAround state' = some layout' := by
  obtain ⟨state, hstate, h⟩ := Option.bind_eq_some_iff.mp h
  obtain ⟨state', hstate', h'⟩ := Option.bind_eq_some_iff.mp h'
  obtain ⟨size, hsize, rfl⟩ := Option.map_eq_some_iff.mp h
  have hsame : SameAlignment state state' := by
    refine foldlM_related (fun payload _ s t s' t' hrel hf hg => ?_) ⟨rfl, fun _ => ⟨rfl, rfl⟩⟩
      hstate hstate'
    exact sameAlignment_step ha hrel hf hg
  exact ⟨state, state', size, hstate, hstate', hsame, hsize, rfl, h'⟩

lemma layoutAround_alignment {state : Mir.PayloadState} {layout : Mir.TaggedUnionLayout}
    (h : Mir.layoutAround state = some layout) : layout.alignment = max 4 state.alignment := by
  obtain ⟨-, h⟩ := Option.ite_none_right_eq_some.mp h
  obtain ⟨payloadOffset, -, h⟩ := Option.bind_eq_some_iff.mp h
  obtain ⟨alignedSize, -, h⟩ := Option.bind_eq_some_iff.mp h
  obtain ⟨stop, -, h⟩ := Option.bind_eq_some_iff.mp h
  obtain ⟨size, -, h⟩ := Option.bind_eq_some_iff.mp h
  obtain rfl := Option.some.inj h
  rfl

lemma taggedUnionAlign_eq (hsame : SameAlignment state state') :
    Sema.taggedUnionAlign { state with size } = max 4 state'.alignment := by
  obtain ⟨halign, hbare⟩ := hsame
  have htag : Sema.tagAlign = 4 := rfl
  by_cases hpayload : state.hasPayload = true
  · by_cases hlarge : 4 < state.alignment
    · simp only [Sema.taggedUnionAlign, htag, hpayload, hlarge, decide_true, Bool.and_self, if_true]
      omega
    · simp only [Sema.taggedUnionAlign, htag, hpayload, hlarge, decide_false, Bool.and_false,
        Bool.false_eq_true, if_false]
      omega
  · obtain ⟨hone, -⟩ := hbare (Bool.eq_false_iff.mpr hpayload)
    simp only [Sema.taggedUnionAlign, htag, hpayload, Bool.false_and, Bool.false_eq_true, if_false]
    omega

lemma taggedUnionAlign_agrees (ha : Agrees alignOf alignOf')
    (h : Sema.comptimeTaggedUnionPayloadLayout sizeOf alignOf payloads = some payload)
    (h' : Mir.comptimeTaggedUnionLayout sizeOf' alignOf' payloads = some layout') :
    Sema.taggedUnionAlign payload = layout'.alignment := by
  obtain ⟨state, state', size, -, -, hsame, -, rfl, hlayout⟩ := payloads_of_layouts ha h h'
  rw [taggedUnionAlign_eq hsame, layoutAround_alignment hlayout]

/-- The size around a payload that stores something. -/
lemma taggedUnionSize_of_stored {aligned : ℤ} (hsame : SameAlignment state state')
    (hsize : state'.size = state.size) (hpayload : state.hasPayload = true)
    (haligned : alignForward state.size state.alignment = some aligned)
    (h : Sema.taggedUnionSize { state with size := aligned } = some size)
    (h' : Mir.layoutAround state' = some layout') : size = layout'.size := by
  obtain ⟨-, h'⟩ := Option.ite_none_right_eq_some.mp h'
  rw [hsame.alignment_eq, hsize] at h'
  obtain ⟨payloadOffset, hoffset, h'⟩ := Option.bind_eq_some_iff.mp h'
  obtain ⟨alignedSize, haligned', h'⟩ := Option.bind_eq_some_iff.mp h'
  obtain ⟨stop, hstop, h'⟩ := Option.bind_eq_some_iff.mp h'
  obtain ⟨total, htotal, h'⟩ := Option.bind_eq_some_iff.mp h'
  obtain rfl := Option.some.inj h'
  obtain rfl := Option.some.inj (haligned.symm.trans haligned')
  obtain ⟨forward, hforward, hcast⟩ := Option.bind_eq_some_iff.mp htotal
  obtain ⟨-, hcast⟩ := Option.ite_none_right_eq_some.mp hcast
  obtain rfl := Option.some.inj hcast
  simp only [Sema.taggedUnionSize, hpayload, if_true, Sema.tagSize, Sema.tagAlign, hoffset, hstop,
    hforward, Option.bind_eq_bind, Option.bind_some, Option.some.injEq] at h
  exact h.symm

/-- Where nothing is stored, the checker's tagged union is as large as its alignment. -/
lemma taggedUnionSize_bare : ∀ alignment ∈ [1, 2, 4, 8],
    Sema.taggedUnionSize ⟨true, 0, alignment⟩ = some (max 4 alignment) ∧
      Sema.taggedUnionSize ⟨false, 0, 1⟩ = some 4 := by
  decide

/-- The builder's has room for one byte and its alignment. -/
lemma layoutAround_bare : ∀ alignment ∈ [1, 2, 4, 8],
    (Mir.layoutAround ⟨1, alignment⟩).map Mir.TaggedUnionLayout.size =
      some (2 * max 4 alignment) := by
  decide

lemma taggedUnionSize_ne_of_bare (hsame : SameAlignment state state')
    (hsize' : state'.size = 1) (h : Sema.taggedUnionSize { state with size := 0 } = some size)
    (h' : Mir.layoutAround state' = some layout') : size ≠ layout'.size := by
  obtain ⟨hasPayload, _, alignment⟩ := state
  obtain ⟨size', alignment'⟩ := state'
  obtain ⟨halignment, hbare⟩ := hsame
  simp only at hsize' halignment hbare h
  subst hsize' halignment
  have hmem := (Option.ite_none_right_eq_some.mp h').1
  have hlayout : layout'.size = 2 * max 4 alignment' := by
    have hbuilder := layoutAround_bare alignment' hmem
    rw [h', Option.map_some] at hbuilder
    exact Option.some.inj hbuilder
  obtain ⟨hstored, hunstored⟩ := taggedUnionSize_bare alignment' hmem
  by_cases hpayload : hasPayload = true
  · rw [hpayload, hstored] at h
    obtain rfl := Option.some.inj h
    omega
  · obtain rfl := Bool.eq_false_iff.mpr hpayload
    obtain ⟨rfl, -⟩ := hbare rfl
    rw [hunstored] at h
    obtain rfl := Option.some.inj h
    omega

/-- **The sizes of a tagged union agree when some payload is stored, and only then.** -/
lemma taggedUnionSize_agrees_iff {zero : TypeExpr → Prop}
      (ha : Agrees alignOf alignOf') (hs : Agrees sizeOf sizeOf') (hz : SizesZero zero sizeOf)
    (h : Sema.comptimeTaggedUnionPayloadLayout sizeOf alignOf payloads = some payload)
    (hsize : Sema.taggedUnionSize payload = some size)
    (h' : Mir.comptimeTaggedUnionLayout sizeOf' alignOf' payloads = some layout') :
    size = layout'.size ↔ ∃ ty, some ty ∈ payloads ∧ ¬zero ty := by
  obtain ⟨state, state', aligned, hstate, hstate', hsame, haligned, rfl, hlayout⟩ :=
    payloads_of_layouts ha h h'
  have hlargest : state'.size = max 1 state.size := by
    refine foldlM_related (R := fun s t => t.size = max 1 s.size)
      (fun payload _ s t s' t' hrel hf hg => ?_) rfl hstate hstate'
    exact payloadSize_step hs hrel hf hg
  obtain ⟨hnonneg, hzero⟩ := foldlM_all (I := fun state => 0 ≤ state.size)
    (P := fun state => state.size = 0) (fun _ _ _ _ => payloadSize_zero_step hz) (by simp) hstate
  by_cases hnothing : state.size = 0
  · obtain ⟨-, hall⟩ := hzero.mp hnothing
    obtain rfl : aligned = 0 := ((alignForward_zero hnonneg haligned).2).mpr hnothing
    refine iff_of_false (taggedUnionSize_ne_of_bare hsame (by omega) hsize hlayout) ?_
    rintro ⟨ty, hmem, hty⟩
    exact hty (hall _ hmem ty rfl)
  · have hpayload : state.hasPayload = true := by
      by_contra hbare
      exact hnothing (hsame.bare (Bool.eq_false_iff.mpr hbare)).2
    refine iff_of_true
      (taggedUnionSize_of_stored hsame (by omega) hpayload haligned hsize hlayout) ?_
    by_contra hnone
    have hall : ∀ ty, some ty ∈ payloads → zero ty := fun ty hmem =>
      by_contra fun hty => hnone ⟨ty, hmem, hty⟩
    exact hnothing (hzero.mpr ⟨rfl, fun payload hmem ty hty => hall ty (hty ▸ hmem)⟩)

end Payloads

/-! ## Alignments -/

variable {decls : Decls} {comptime : Expr → Option ℕ}

variable {depth depth' : ℕ} {offset : ℤ}

lemma comptimeAlignOf_agrees_step
    (ha : ∀ e, Agrees (Sema.comptimeAlignOf decls comptime · (depth + 1))
      (Mir.comptimeAlignOf decls · e))
    (ha₂ : ∀ e, Agrees (Sema.comptimeAlignOf decls comptime · (depth + 2))
      (Mir.comptimeAlignOf decls · e)) :
    Agrees (Sema.comptimeAlignOf decls comptime · depth) (Mir.comptimeAlignOf decls · depth') := by
  intro ty alignment alignment' h h'
  have hd := Sema.le_of_comptimeAlignOf h
  have hd' := Mir.le_of_comptimeAlignOf h'
  simp only at h h'
  revert h'
  rw [Sema.comptimeAlignOf.eq_def, dif_neg (by omega)] at h
  rw [Mir.comptimeAlignOf.eq_def, dif_neg (by omega)]
  split at h
  · split at h
    · next hscalar =>
      simp only [hscalar]
      exact fun h' => Option.some.inj (h.symm.trans h')
    · next hscalar =>
      simp only [hscalar]
      split at h <;> rename_i hdecl <;> simp only [hdecl] <;> intro h'
      · exact ha _ h h'
      · obtain ⟨-, h'⟩ := Option.ite_none_left_eq_some.mp h'
        obtain ⟨layout, hlayout, rfl⟩ := Option.map_eq_some_iff.mp h'
        exact comptimeStructAlign_agrees (ha _) h (comptimeStructAlign_of_layout hlayout)
      · exact ha _ h h'
      · obtain ⟨-, h'⟩ := Option.ite_none_left_eq_some.mp h'
        obtain ⟨layout, hlayout, rfl⟩ := Option.map_eq_some_iff.mp h'
        exact comptimeStructAlign_agrees (ha _) (comptimeStructAlign_of_overlayUnion h)
          (comptimeStructAlign_of_layout hlayout)
      · obtain ⟨payload, hpayload, rfl⟩ := Option.map_eq_some_iff.mp h
        obtain ⟨-, h'⟩ := Option.ite_none_left_eq_some.mp h'
        obtain ⟨layout, hlayout, rfl⟩ := Option.map_eq_some_iff.mp h'
        exact taggedUnionAlign_agrees (ha₂ _) hpayload hlayout
      · exact ha _ h h'
      · exact absurd h (by simp)
  case h_9 base args =>
    split at h
    · next hpointer =>
      simp only [if_pos hpointer]
      exact fun h' => Option.some.inj (h.symm.trans h')
    · next hpointer =>
      simp only [if_neg hpointer]
      split at h
      · exact fun h' => ha _ h h'
      · exact absurd h (by simp)
  all_goals
    first
    | exact fun h' => Option.some.inj (h.symm.trans h')
    | exact fun h' => ha _ h h'
    | exact fun h' => absurd h' (by simp)

/-- **The engines agree on every alignment.** -/
theorem comptimeAlignOf_agrees (depth depth' : ℕ) :
    Agrees (Sema.comptimeAlignOf decls comptime · depth) (Mir.comptimeAlignOf decls · depth') := by
  induction hn : maxDepth + 1 - depth using Nat.strong_induction_on generalizing depth depth' with
  | _ n ih =>
    by_cases hd : depth ≤ maxDepth
    · exact comptimeAlignOf_agrees_step (fun e => ih _ (by omega) (depth + 1) e rfl)
        fun e => ih _ (by omega) (depth + 2) e rfl
    · exact fun _ _ _ h _ => absurd (Sema.le_of_comptimeAlignOf h) hd

/-! ## Sizes -/

/-- Both engines find a size. -/
def SizedByBoth (decls : Decls) (comptime : Expr → Option ℕ) (ty : TypeExpr) : Prop :=
  (Sema.reflect decls comptime .size ty).isSome ∧ (Mir.reflect decls .size ty).isSome

/-- Every tagged union that both engines size has a payload that stores something. -/
def TaggedUnionsStore (decls : Decls) (comptime : Expr → Option ℕ) : Prop :=
  ∀ id payloads, scalarLayout id.text = none → decls id.text = some (.taggedUnion payloads) →
    SizedByBoth decls comptime (.name id) →
    ∃ ty, some ty ∈ payloads ∧ ¬ZeroSized decls comptime ty

lemma sizedByBoth_of_sizes {ty : TypeExpr} {size size' : ℤ}
    (h : Sema.comptimeSizeOf decls comptime ty depth = some size)
    (h' : Mir.comptimeSizeOf decls ty depth' = some size') : SizedByBoth decls comptime ty :=
  ⟨Option.isSome_iff_exists.mpr ⟨size, (Sema.extends_of_le (Nat.zero_le depth)).1 h⟩,
    Option.isSome_iff_exists.mpr ⟨size', (Mir.extends_of_le (Nat.zero_le depth')).1 h'⟩⟩

lemma comptimeSizeOf_agrees_step (hstore : TaggedUnionsStore decls comptime)
    (hs : ∀ e, Agrees (Sema.comptimeSizeOf decls comptime · (depth + 1))
      (Mir.comptimeSizeOf decls · e))
    (hs₂ : ∀ e, Agrees (Sema.comptimeSizeOf decls comptime · (depth + 2))
      (Mir.comptimeSizeOf decls · e)) :
    Agrees (Sema.comptimeSizeOf decls comptime · depth) (Mir.comptimeSizeOf decls · depth') := by
  intro ty size size' h h'
  have hboth : SizedByBoth decls comptime ty := sizedByBoth_of_sizes h h'
  have hd := Sema.le_of_comptimeSizeOf h
  have hd' := Mir.le_of_comptimeSizeOf h'
  simp only at h h'
  revert h'
  rw [Sema.comptimeSizeOf.eq_def, dif_neg (by omega)] at h
  rw [Mir.comptimeSizeOf.eq_def, dif_neg (by omega)]
  split at h
  · next id =>
    split at h
    · next hscalar =>
      simp only [hscalar]
      exact fun h' => Option.some.inj (h.symm.trans h')
    · next hscalar =>
      simp only [hscalar]
      split at h <;> rename_i hdecl <;> simp only [hdecl] <;> intro h'
      · exact hs _ h h'
      · obtain ⟨-, h'⟩ := Option.ite_none_left_eq_some.mp h'
        obtain ⟨layout', hlayout', rfl⟩ := Option.map_eq_some_iff.mp h'
        obtain ⟨layout, hlayout, rfl⟩ := Option.map_eq_some_iff.mp h
        rw [comptimeStructLayout_agrees (hs _) (comptimeAlignOf_agrees _ _) hlayout hlayout']
      · exact hs _ h h'
      · obtain ⟨-, h'⟩ := Option.ite_none_left_eq_some.mp h'
        obtain ⟨layout', hlayout', rfl⟩ := Option.map_eq_some_iff.mp h'
        obtain ⟨layout, hlayout, rfl⟩ := Option.map_eq_some_iff.mp h
        rw [unionLayout_agrees (((hs _).filter_left _).filter_right _)
          (comptimeAlignOf_agrees _ _) hlayout hlayout']
      · obtain ⟨payload, hpayload, h⟩ := Option.bind_eq_some_iff.mp h
        obtain ⟨-, h'⟩ := Option.ite_none_left_eq_some.mp h'
        obtain ⟨layout', hlayout', rfl⟩ := Option.map_eq_some_iff.mp h'
        have hstored := hstore id _ hscalar hdecl hboth
        exact (taggedUnionSize_agrees_iff (comptimeAlignOf_agrees _ _) (hs₂ _)
          (Sema.comptimeSizeOf_zero _) hpayload h hlayout').mpr hstored
      · exact hs _ h h'
      · exact absurd h (by simp)
  case h_9 base args =>
    split at h
    · next hpointer =>
      simp only [if_pos hpointer]
      exact fun h' => Option.some.inj (h.symm.trans h')
    · next hpointer =>
      simp only [if_neg hpointer]
      split at h
      · exact fun h' => hs _ h h'
      · exact absurd h (by simp)
  case h_10 len child =>
    intro h'
    obtain ⟨count, hcount, h⟩ := Option.bind_eq_some_iff.mp h
    obtain ⟨elem, helem, h⟩ := Option.bind_eq_some_iff.mp h
    obtain ⟨count', hcount', h'⟩ := Option.bind_eq_some_iff.mp h'
    obtain ⟨elem', helem', h'⟩ := Option.bind_eq_some_iff.mp h'
    obtain rfl := Option.some.inj (hcount.symm.trans (parseArrayLen_of_none hcount'))
    obtain rfl := hs _ helem helem'
    exact Option.some.inj (h.symm.trans h')
  all_goals
    first
    | exact fun h' => Option.some.inj (h.symm.trans h')
    | exact fun h' => hs _ h h'
    | exact fun h' => absurd h' (by simp)

theorem comptimeSizeOf_agrees (hstore : TaggedUnionsStore decls comptime) (depth depth' : ℕ) :
    Agrees (Sema.comptimeSizeOf decls comptime · depth) (Mir.comptimeSizeOf decls · depth') := by
  induction hn : maxDepth + 1 - depth using Nat.strong_induction_on generalizing depth depth' with
  | _ n ih =>
    by_cases hd : depth ≤ maxDepth
    · exact comptimeSizeOf_agrees_step hstore (fun e => ih _ (by omega) (depth + 1) e rfl)
        fun e => ih _ (by omega) (depth + 2) e rfl
    · exact fun _ _ _ h _ => absurd (Sema.le_of_comptimeSizeOf h) hd

/-! ## Offsets and representations -/

lemma unionLayout_fieldOffset {sizeOf alignOf : TypeExpr → Option ℤ} {wanted : Option String}
    {fields : List Field} {layout : StructLayout}
    (h : unionLayout sizeOf alignOf wanted fields = some layout)
    (hoffset : layout.fieldOffset = some offset) : offset = 0 := by
  obtain ⟨state, hstate, hfinish⟩ := Option.bind_eq_some_iff.mp h
  obtain ⟨size, -, rfl⟩ := Option.map_eq_some_iff.mp hfinish
  have hfound : ∀ found, state.found = some found → found = 0 := by
    refine (foldlM_all (I := fun state => ∀ found, state.found = some found → found = 0)
      (P := fun _ => True) (Q := fun _ => True) (fun field _ s t hs hstep => ⟨?_, by simp⟩)
      (by simp) hstate).1
    obtain ⟨size, alignment, -, -, -, rfl⟩ := (unionStep_eq_some ..).mp hstep
    intro found hfound
    simp only [foundAt] at hfound
    split at hfound
    · exact (Option.some.inj hfound).symm
    · exact hs found hfound
  exact hfound offset hoffset

lemma comptimeFieldOffset_agrees (hstore : TaggedUnionsStore decls comptime) {ty : TypeExpr}
    {field : String} {offset' : ℤ}
    (h : Sema.comptimeFieldOffset decls comptime ty field depth = some offset)
    (h' : Mir.comptimeFieldOffset decls ty field depth' = some offset') : offset = offset' := by
  induction hn : maxDepth + 1 - depth using Nat.strong_induction_on
    generalizing ty depth depth' with
  | _ n ih =>
    rw [Sema.comptimeFieldOffset] at h
    rw [Mir.comptimeFieldOffset] at h'
    obtain ⟨hd, h⟩ := Option.dite_none_left_eq_some.mp h
    obtain ⟨hd', h'⟩ := Option.dite_none_left_eq_some.mp h'
    revert h'
    split at h
    · next hdecl =>
      simp only [hdecl]
      exact fun h' => ih _ (by omega) h h' rfl
    · next hdecl =>
      simp only [hdecl, Mir.structSummary, Option.bind_some]
      intro h'
      obtain ⟨-, h'⟩ := Option.ite_none_left_eq_some.mp h'
      obtain ⟨layout', hlayout', h'⟩ := Option.bind_eq_some_iff.mp h'
      obtain ⟨layout, hlayout, h⟩ := Option.bind_eq_some_iff.mp h
      obtain rfl := comptimeStructLayout_agrees (comptimeSizeOf_agrees hstore _ _)
        (comptimeAlignOf_agrees _ _) hlayout hlayout'
      exact Option.some.inj (h.symm.trans h')
    · next hdecl =>
      simp only [hdecl, Mir.structSummary, Option.bind_some]
      intro h'
      obtain ⟨-, h'⟩ := Option.ite_none_left_eq_some.mp h'
      obtain ⟨layout', hlayout', h'⟩ := Option.bind_eq_some_iff.mp h'
      obtain ⟨-, h⟩ := Option.ite_none_right_eq_some.mp h
      rw [unionLayout_fieldOffset hlayout' h']
      exact (Option.some.inj h).symm
    · exact absurd h (by simp)

lemma comptimeBitOffset_agrees (hstore : TaggedUnionsStore decls comptime) {ty : TypeExpr}
    {field : String} {offset' : ℤ}
    (h : Sema.comptimeBitOffset decls comptime ty field depth = some offset)
    (h' : Mir.comptimeBitOffset decls ty field depth' = some offset') : offset = offset' := by
  induction hn : maxDepth + 1 - depth using Nat.strong_induction_on
    generalizing ty depth depth' with
  | _ n ih =>
    rw [Sema.comptimeBitOffset] at h
    rw [Mir.comptimeBitOffset] at h'
    obtain ⟨hd, h⟩ := Option.dite_none_left_eq_some.mp h
    obtain ⟨hd', h'⟩ := Option.dite_none_left_eq_some.mp h'
    revert h'
    split at h
    · exact fun h' => ih _ (by omega) h h' rfl
    · exact fun h' => Option.some.inj (h.symm.trans h')
    · intro h'
      obtain ⟨bytes, hbytes, h⟩ := Option.bind_eq_some_iff.mp h
      obtain ⟨bytes', hbytes', h'⟩ := Option.bind_eq_some_iff.mp h'
      obtain rfl := comptimeFieldOffset_agrees hstore hbytes hbytes'
      obtain ⟨-, -, rfl⟩ := comptimeArraySize_spec h
      obtain rfl := mulI128_eq h'
      exact Int.mul_comm 8 bytes
    · exact absurd h (by simp)

lemma comptimeReprOf_agrees (hstore : TaggedUnionsStore decls comptime) {ty : TypeExpr}
    {size size' : ℤ} (h : Sema.comptimeReprOf decls comptime ty depth = some size)
    (h' : Mir.comptimeReprOf decls ty depth' = some size') : size = size' := by
  induction hn : maxDepth + 1 - depth using Nat.strong_induction_on
    generalizing ty depth depth' with
  | _ n ih =>
    have hs := comptimeSizeOf_agrees hstore
    rw [Sema.comptimeReprOf.eq_def] at h
    rw [Mir.comptimeReprOf.eq_def] at h'
    obtain ⟨hd, h⟩ := Option.dite_none_left_eq_some.mp h
    obtain ⟨hd', h'⟩ := Option.dite_none_left_eq_some.mp h'
    revert h'
    split at h
    · split at h
      · exact fun h' => Option.some.inj (h.symm.trans h')
      · split at h
        · exact fun h' => ih _ (by omega) h h' rfl
        · exact fun h' => hs _ _ h h'
        · exact fun h' => hs _ _ h h'
        · exact fun h' => Option.some.inj (h.symm.trans h')
        · exact fun h' => hs _ _ h h'
    all_goals
      first
      | exact fun h' => hs _ _ h h'
      | exact fun h' => ih _ (by omega) h h' rfl
      | exact fun h' => absurd h' (by simp)

/-! ## Queries -/

/-- What both engines return is the same. -/
def ReflectionsAgree (decls : Decls) (comptime : Expr → Option ℕ) : Prop :=
  ∀ query ty value value', Sema.reflect decls comptime query ty = some value →
    Mir.reflect decls query ty = some value' → value = value'

/-- A size at some depth is the one that a query finds. -/
lemma agrees_of_reflectionsAgree (h : ReflectionsAgree decls comptime) (depth depth' : ℕ) :
    Agrees (Sema.comptimeSizeOf decls comptime · depth) (Mir.comptimeSizeOf decls · depth') := by
  intro ty size size' hsize hsize'
  have hquery := (Sema.extends_of_le (Nat.zero_le depth)).1 hsize
  have hquery' := (Mir.extends_of_le (Nat.zero_le depth')).1 hsize'
  exact h .size ty size size' hquery hquery'

lemma taggedUnionsStore_of_reflectionsAgree (h : ReflectionsAgree decls comptime) :
    TaggedUnionsStore decls comptime := by
  rintro id payloads hscalar hdecl ⟨hsized, hsized'⟩
  obtain ⟨size, hsize⟩ := Option.isSome_iff_exists.mp hsized
  obtain ⟨size', hsize'⟩ := Option.isSome_iff_exists.mp hsized'
  have heq := h .size _ size size' hsize hsize'
  rw [Sema.reflect, Sema.comptimeSizeOf.eq_def, dif_neg (by decide)] at hsize
  rw [Mir.reflect, Mir.comptimeSizeOf.eq_def, dif_neg (by decide)] at hsize'
  simp only [hscalar, hdecl] at hsize hsize'
  obtain ⟨payload, hpayload, hsize⟩ := Option.bind_eq_some_iff.mp hsize
  obtain ⟨-, hsize'⟩ := Option.ite_none_left_eq_some.mp hsize'
  obtain ⟨layout', hlayout', rfl⟩ := Option.map_eq_some_iff.mp hsize'
  exact (taggedUnionSize_agrees_iff (comptimeAlignOf_agrees _ _) (agrees_of_reflectionsAgree h _ _)
    (Sema.comptimeSizeOf_zero _) hpayload hsize hlayout').mp heq

/-- **The engines agree on every query when every tagged union stores something besides its
tag, and only then.** -/
theorem reflectionsAgree_iff_taggedUnionsStore (decls : Decls) (comptime : Expr → Option ℕ) :
    ReflectionsAgree decls comptime ↔ TaggedUnionsStore decls comptime := by
  refine ⟨taggedUnionsStore_of_reflectionsAgree, fun hstore query ty value value' h h' => ?_⟩
  rcases query with _ | _ | field | field | _
  · exact comptimeSizeOf_agrees hstore _ _ h h'
  · exact comptimeAlignOf_agrees _ _ h h'
  · exact comptimeFieldOffset_agrees hstore h h'
  · exact comptimeBitOffset_agrees hstore h h'
  · exact comptimeReprOf_agrees hstore h h'

/-- A union with one case that carries nothing. -/
def bareUnion : Decls := fun name => if name = "U" then some (.taggedUnion [none]) else none

/-- The checker makes it its tag, the builder a tag and a byte. -/
theorem bareUnion_not_reflectionsAgree : ¬ReflectionsAgree bareUnion fun _ => none := by
  intro h
  have hscalar : scalarLayout "U" = none := by decide
  have hsema : Sema.reflect bareUnion (fun _ => none) .size (.name { text := "U" }) = some 4 := by
    rw [Sema.reflect, Sema.comptimeSizeOf.eq_def, dif_neg (by decide)]
    simp only [hscalar, bareUnion, if_true]
    rfl
  have hmir : Mir.reflect bareUnion .size (.name { text := "U" }) = some 8 := by
    rw [Mir.reflect, Mir.comptimeSizeOf.eq_def, dif_neg (by decide)]
    simp only [hscalar, bareUnion, if_true]
    rfl
  have hsame := h _ _ _ _ hsema hmir
  omega

end ModernC.Layout
