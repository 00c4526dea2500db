import ModernC.Layout.Shared

/-!
# Storage of aggregates

A layout gives every field a place.  The places lie in the storage of the aggregate, apart from one
another unless they are the arms of a C union, and the payload of a tagged union or an optional
lies behind its tag.  The main result is `layouts_sound`, for both backends.
-/

namespace ModernC.Layout.Shared

open Framework
open Syntax (TypeExpr)

/-! ## Arithmetic -/

variable {alignment : ℤ} {depth : ℕ} {payload : Payload}

/-- **Aligning a quantity of the domain** goes to a multiple of the alignment in the domain. -/
lemma alignForward_meets {value : ℤ} (hvalue : 0 ≤ value) (hmax : value ≤ maxI128)
    (halignment : alignment ≤ maxI128) :
    Meets (alignForward value alignment) fun aligned =>
      alignment ∣ aligned ∧ value ≤ aligned ∧ aligned ≤ maxI128 := by
  unfold alignForward
  refine meets_ite (fun _ => meets_null) fun hpos => ?_
  have hpos : 0 < alignment := by omega
  have hrem := Int.emod_nonneg value (by omega : alignment ≠ 0)
  have hrem' := Int.emod_lt_of_pos value hpos
  rw [Int.tmod_eq_emod_of_nonneg hvalue]
  refine meets_ite (fun hzero => meets_ok ?_) fun _ => ?_
  · exact ⟨Int.dvd_of_emod_eq_zero hzero, Int.le_refl _, hmax⟩
  · have hin : minI128 ≤ alignment - value % alignment ∧
        alignment - value % alignment ≤ maxI128 := by
      have hmin : minI128 ≤ 0 := by decide
      exact ⟨by omega, by omega⟩
    rw [subI128, if_pos hin]
    refine (meets_ok rfl : Meets _ fun gap => gap = alignment - value % alignment).bind ?_
    rintro gap - rfl
    refine meets_orNull fun aligned haligned => ?_
    have hle := (Option.ite_none_right_eq_some.mp haligned).1.2
    obtain rfl := addI128_eq haligned
    refine ⟨?_, by omega, hle⟩
    have hself : alignment ∣ value - value % alignment := Int.dvd_self_sub_emod
    have hsum : value + (alignment - value % alignment) =
        value - value % alignment + alignment := by omega
    rw [hsum]
    exact Int.dvd_add hself (Int.dvd_refl alignment)

lemma layoutAdd_meets (left right : ℤ) :
    Meets (orNull (comptimeLayoutAdd left right)) fun value =>
      value = left + right ∧ value ≤ maxI128 := by
  refine meets_orNull fun value h => ?_
  obtain ⟨-, h⟩ := Option.ite_none_left_eq_some.mp h
  exact ⟨addI128_eq h, addI128_eq h ▸ (Option.ite_none_right_eq_some.mp h).1.2⟩

lemma castU64_meets (value : ℤ) :
    Meets (orNull (castU64 value)) fun word => word = value ∧ 0 ≤ value ∧ value ≤ maxU64 :=
  meets_orNull fun _ h =>
    have h := Option.ite_none_right_eq_some.mp h
    ⟨(Option.some.inj h.2).symm, h.1⟩

variable {backend : Backend}

/-- The extent that a backend reports is in the domain. -/
lemma extentOf_meets (ty : TypeExpr) (depth : ℕ) :
    Meets (extentOf backend ty depth) fun extent =>
      (backend.sizeOf ty depth).map Subtype.val = some extent.1 ∧
        (backend.alignOf ty depth).map Subtype.val = some extent.2 ∧
        0 ≤ extent.1 ∧ extent.1 ≤ maxI128 ∧ 0 < extent.2 ∧ extent.2 ≤ maxI128 := by
  refine (meets_orNull fun _ h => h).bind fun size _ hsize => ?_
  refine (meets_orNull fun _ h => h).bind fun alignment _ halignment => ?_
  refine meets_ite (fun _ => meets_null) fun hnonneg => ?_
  refine meets_ite (fun _ => meets_null) fun hpos => meets_ok ?_
  exact ⟨by rw [hsize]; rfl, by rw [halignment]; rfl, by omega, size.2.2, by omega,
    alignment.2.2⟩

/-! ## Structs -/

/-- Where a field lies. -/
structure Place where
  offset : ℤ
  size : ℤ
  alignment : ℤ
deriving DecidableEq

/-- The place is as the field asks for: it has the size of its type, and starts where the field
says, or else at a multiple of the alignment; the arms of a C union all start at 0. -/
structure Lies (backend : Backend) (isCUnion : Bool) (depth : ℕ) (field : FieldDecl)
    (place : Place) : Prop where
  size : (backend.sizeOf field.ty (depth + 1)).map Subtype.val = some place.size
  alignment : (backend.alignOf field.ty (depth + 1)).map Subtype.val = some place.alignment
  size_nonneg : 0 ≤ place.size
  alignment_pos : 0 < place.alignment
  offset_nonneg : 0 ≤ place.offset
  arm : isCUnion = true → place.offset = 0
  explicit : isCUnion = false → ∀ offset, field.offset = some offset → place.offset = offset.toNat
  implicit : isCUnion = false → field.offset = none → place.alignment ∣ place.offset

/-- The offset of the last field of the name. -/
def offsetIn (wanted : Option String) (fields : List FieldDecl) (places : List Place) : Option ℤ :=
  ((fields.zip places).reverse.find? fun entry => wanted = some entry.1.name).map fun entry =>
    entry.2.offset

/-- The state of a walk is in the domain. -/
structure InDomain (state : LayoutState) : Prop where
  offset_nonneg : 0 ≤ state.offset
  offset_le : state.offset ≤ maxI128
  maxAlign_pos : 0 < state.maxAlign
  maxAlign_le : state.maxAlign ≤ maxI128

lemma inDomain_start : InDomain {} := ⟨by decide, by decide, by decide, by decide⟩

/-- A field starts behind the fields before it. -/
lemma fieldStart_meets {offset : ℤ} (hoffset : 0 ≤ offset) (hmax : offset ≤ maxI128)
    (halignment : alignment ≤ maxI128) (explicit : Option UInt64) :
    Meets (fieldStart offset alignment explicit) fun start =>
      offset ≤ start ∧ (∀ e, explicit = some e → start = e.toNat) ∧
        (explicit = none → alignment ∣ start) := by
  cases explicit with
  | none =>
    refine (alignForward_meets hoffset hmax halignment).mono fun start _ h => ?_
    exact ⟨h.2.1, nofun, fun _ => h.1⟩
  | some explicit =>
    refine meets_ite (fun _ => meets_null) fun hle => meets_ok ⟨by omega, ?_, nofun⟩
    rintro e he
    rw [Option.some.inj he]

/-- **One field:** it gets a place behind what the walk has passed, or at the start of a union. -/
lemma fieldStep_meets {isCUnion : Bool} {state : LayoutState} (hstate : InDomain state)
    (wanted : Option String) (field : FieldDecl) :
    Meets (fieldStep backend isCUnion wanted depth state field) fun next =>
      InDomain next ∧ state.offset ≤ next.offset ∧ state.maxAlign ≤ next.maxAlign ∧
      ∃ place, Lies backend isCUnion depth field place ∧
        (isCUnion = false → state.offset ≤ place.offset) ∧
        place.offset + place.size ≤ next.offset ∧ place.alignment ≤ next.maxAlign ∧
        ∀ wanted' found, fieldStep backend isCUnion wanted' depth { state with found } field =
          .ok { next with found := foundAt wanted' field place.offset found } := by
  obtain ⟨hnonneg, hmax, hpos, halign⟩ := hstate
  cases isCUnion with
  | true =>
    refine (extentOf_meets field.ty (depth + 1)).bind fun extent hextent h => meets_ok ?_
    obtain ⟨hsize, halignment, hsizeNonneg, hsizeLe, halignPos, halignLe⟩ := h
    refine ⟨⟨by dsimp only; omega, by dsimp only; omega, by dsimp only; omega,
      by dsimp only; omega⟩, by dsimp only; omega, by dsimp only; omega,
      ⟨0, extent.1, extent.2⟩, ⟨hsize, halignment, hsizeNonneg, halignPos, Int.le_refl _,
        fun _ => rfl, nofun, nofun⟩, nofun, by dsimp only; omega, by dsimp only; omega, ?_⟩
    intro wanted' found
    simp only [fieldStep, if_true, unionStep, hextent]
    rfl
  | false =>
    refine (extentOf_meets field.ty (depth + 1)).bind fun extent hextent h => ?_
    obtain ⟨hsize, halignment, hsizeNonneg, hsizeLe, halignPos, halignLe⟩ := h
    refine (fieldStart_meets hnonneg hmax halignLe field.offset).bind fun start hstart h => ?_
    obtain ⟨hbehind, hexplicit, himplicit⟩ := h
    refine (layoutAdd_meets start extent.1).bind fun stop hstop h => meets_ok ?_
    obtain ⟨rfl, hstopLe⟩ := h
    refine ⟨⟨by dsimp only; omega, hstopLe, by dsimp only; omega, by dsimp only; omega⟩,
      by dsimp only; omega, by dsimp only; omega,
      ⟨start, extent.1, extent.2⟩, ⟨hsize, halignment, hsizeNonneg, halignPos,
        Int.le_trans hnonneg hbehind, nofun, fun _ => hexplicit, fun _ => himplicit⟩,
      fun _ => hbehind, Int.le_refl _, by dsimp only; omega, ?_⟩
    intro wanted' found
    simp only [fieldStep, Bool.false_eq_true, if_false, structStep, hextent]
    simp only [bind, Except.bind] at hstart hstop ⊢
    simp only [hstart, hstop]

/-- The fields behind the first one are looked at first. -/
lemma offsetIn_cons {field : FieldDecl} {place : Place} {fields : List FieldDecl}
    {places : List Place} (wanted : Option String) (found : Option ℤ) :
    (offsetIn wanted (field :: fields) (place :: places)).or found =
      (offsetIn wanted fields places).or (foundAt wanted field place.offset found) := by
  simp only [offsetIn, List.zip_cons_cons, List.reverse_cons, List.find?_append, Option.map_or,
    Option.or_assoc]
  congr 1
  by_cases hwanted : wanted = some field.name
  · simp [foundAt, hwanted]
  · simp [foundAt, hwanted]

/-- **The walk over the fields** gives each a place between where it starts and where it ends,
whichever field is wanted. -/
lemma foldFields_meets {isCUnion : Bool} (wanted : Option String)
    (fields : List FieldDecl) {state : LayoutState} (hstate : InDomain state) :
    Meets (fields.foldlM (fieldStep backend isCUnion wanted depth) state) fun last =>
      InDomain last ∧ state.offset ≤ last.offset ∧ state.maxAlign ≤ last.maxAlign ∧
      ∃ places, List.Forall₂ (Lies backend isCUnion depth) fields places ∧
        (∀ place ∈ places, (isCUnion = false → state.offset ≤ place.offset) ∧
          place.offset + place.size ≤ last.offset ∧ place.alignment ≤ last.maxAlign) ∧
        (isCUnion = false → places.Pairwise fun p q => p.offset + p.size ≤ q.offset) ∧
        ∀ wanted' found, fields.foldlM (fieldStep backend isCUnion wanted' depth)
          { state with found } =
            .ok { last with found := (offsetIn wanted' fields places).or found } := by
  induction fields generalizing state with
  | nil =>
    refine meets_ok ⟨hstate, Int.le_refl _, Int.le_refl _, [], .nil, nofun, fun _ => .nil, ?_⟩
    exact fun _ _ => rfl
  | cons field fields ih =>
    rw [List.foldlM_cons]
    refine (fieldStep_meets hstate wanted field).bind fun next _ h => ?_
    obtain ⟨hnext, hoffset, halign, place, hlies, hbehind, hend, hplace, hsame⟩ := h
    refine (ih hnext).mono fun last _ h => ?_
    obtain ⟨hlast, hoffset', halign', places, hall, hin, hapart, hfold⟩ := h
    refine ⟨hlast, Int.le_trans hoffset hoffset', Int.le_trans halign halign', place :: places,
      .cons hlies hall, ?_, fun hunion => ?_, fun wanted' found => ?_⟩
    · intro p hp
      rcases List.mem_cons.mp hp with rfl | hp
      · exact ⟨hbehind, by omega, by omega⟩
      · obtain ⟨hstart, hstop, hle⟩ := hin p hp
        exact ⟨fun hunion => Int.le_trans hoffset (hstart hunion), hstop, hle⟩
    · refine List.pairwise_cons.mpr ⟨fun q hq => ?_, hapart hunion⟩
      exact Int.le_trans hend ((hin q hq).1 hunion)
    · rw [List.foldlM_cons, hsame wanted' found, offsetIn_cons]
      exact hfold wanted' _

/-- **The storage of a struct:** the fields lie in it, apart from one another unless they are the
arms of a C union, and its size is a multiple of its alignment and in the layout domain. -/
structure Stored (backend : Backend) (decl : StructDecl) (depth : ℕ) (size alignment : ℤ)
    (places : List Place) : Prop where
  lies : List.Forall₂ (Lies backend decl.isCUnion depth) decl.fields places
  inside : ∀ place ∈ places, place.offset + place.size ≤ size
  apart : decl.isCUnion = false → places.Pairwise fun p q => p.offset + p.size ≤ q.offset
  alignment_le : ∀ place ∈ places, place.alignment ≤ alignment
  alignment_pos : 0 < alignment
  dvd_size : alignment ∣ size
  size_le : size ≤ maxI128

/-- A struct layout does not trap, and what it returns is storage for the fields, in which each
field that may be wanted is at its place. -/
lemma comptimeStructLayout_meets (decl : StructDecl) (wanted : Option String) (depth : ℕ) :
    Meets (comptimeStructLayout backend decl wanted depth) fun layout =>
      ∃ places, Stored backend decl depth layout.size layout.alignment places ∧
        ∀ wanted', comptimeStructLayout backend decl wanted' depth =
          .ok { layout with fieldOffset := offsetIn wanted' decl.fields places } := by
  unfold comptimeStructLayout
  refine meets_ite (fun _ => meets_null) fun hdepth => ?_
  refine (foldFields_meets wanted decl.fields inDomain_start).bind fun last _ h => ?_
  obtain ⟨hlast, -, -, places, hall, hin, hapart, hfold⟩ := h
  refine (alignForward_meets hlast.offset_nonneg hlast.offset_le hlast.maxAlign_le).bind
    fun size hsize h => meets_ok ⟨places, ?_, fun wanted' => ?_⟩
  · exact ⟨hall, fun p hp => Int.le_trans (hin p hp).2.1 h.2.1, hapart, fun p hp => (hin p hp).2.2,
      hlast.maxAlign_pos, h.1, h.2.2⟩
  · have hwalk : decl.fields.foldlM (fieldStep backend decl.isCUnion wanted' depth) {} =
        .ok { last with found := offsetIn wanted' decl.fields places } := by
      rw [hfold wanted' none, Option.or_none]
    rw [if_neg hdepth, hwalk]
    change (alignForward last.offset last.maxAlign >>= _) = _
    rw [hsize]
    rfl

/-! ## Tagged unions -/

/-- The largest payload is a word of 64 bits. -/
structure Payload.InDomain (payload : Payload) : Prop where
  size_pos : 1 ≤ payload.size
  size_le : payload.size ≤ maxU64
  alignment_pos : 1 ≤ payload.alignment
  alignment_le : payload.alignment ≤ maxU64

/-- A case has a payload that fits. -/
def Fits (backend : Backend) (depth : ℕ) (size alignment : ℤ) (case : Option TypeExpr) : Prop :=
  ∀ ty, case = some ty → ∃ s a, (backend.sizeOf ty (depth + 1)).map Subtype.val = some s ∧
    (backend.alignOf ty (depth + 1)).map Subtype.val = some a ∧
    0 ≤ s ∧ s ≤ size ∧ 0 < a ∧ a ≤ alignment

lemma Fits.mono {size size' alignment' : ℤ} {case : Option TypeExpr}
    (h : Fits backend depth size alignment case) (hsize : size ≤ size')
    (halignment : alignment ≤ alignment') : Fits backend depth size' alignment' case := by
  intro ty hty
  obtain ⟨s, a, hs, ha, hnonneg, hle, hpos, hle'⟩ := h ty hty
  exact ⟨s, a, hs, ha, hnonneg, Int.le_trans hle hsize, hpos, Int.le_trans hle' halignment⟩

lemma payloadStep_meets (h : payload.InDomain) (case : Option TypeExpr) :
    Meets (payloadStep backend depth payload case) fun next =>
      next.InDomain ∧ payload.size ≤ next.size ∧ payload.alignment ≤ next.alignment ∧
        Fits backend depth next.size next.alignment case := by
  cases case with
  | none => exact meets_ok ⟨h, Int.le_refl _, Int.le_refl _, nofun⟩
  | some ty =>
    obtain ⟨hsizePos, hsizeLe, halignPos, halignLe⟩ := h
    refine (extentOf_meets ty (depth + 1)).bind fun extent _ h => ?_
    obtain ⟨hsize, halignment, hnonneg, -, hpos, -⟩ := h
    refine (castU64_meets extent.1).bind fun size _ h => ?_
    obtain ⟨rfl, -, hsizeMax⟩ := h
    refine (castU64_meets extent.2).bind fun alignment _ h => meets_ok ?_
    obtain ⟨rfl, -, halignMax⟩ := h
    refine ⟨⟨by dsimp only; omega, by dsimp only; omega, by dsimp only; omega,
      by dsimp only; omega⟩, by dsimp only; omega, by dsimp only; omega, ?_⟩
    intro ty' hty
    obtain rfl := Option.some.inj hty
    exact ⟨extent.1, extent.2, hsize, halignment, hnonneg, by dsimp only; omega, hpos,
      by dsimp only; omega⟩

lemma foldPayloads_meets (cases : List (Option TypeExpr)) (h : payload.InDomain) :
    Meets (cases.foldlM (payloadStep backend depth) payload) fun last =>
      last.InDomain ∧ payload.size ≤ last.size ∧ payload.alignment ≤ last.alignment ∧
        ∀ case ∈ cases, Fits backend depth last.size last.alignment case := by
  induction cases generalizing payload with
  | nil => exact meets_ok ⟨h, Int.le_refl _, Int.le_refl _, nofun⟩
  | cons case cases ih =>
    rw [List.foldlM_cons]
    refine (payloadStep_meets h case).bind fun next _ h => ?_
    obtain ⟨hnext, hsize, halign, hfits⟩ := h
    refine (ih hnext).mono fun last _ h => ?_
    obtain ⟨hlast, hsize', halign', hall⟩ := h
    refine ⟨hlast, Int.le_trans hsize hsize', Int.le_trans halign halign', ?_⟩
    intro case' hcase
    rcases List.mem_cons.mp hcase with rfl | hcase
    · exact hfits.mono hsize' halign'
    · exact hall case' hcase

/-- **The storage of a tagged union:** a tag of 4 bytes, padding, and behind it whole units of
storage with room for the payload of every case. -/
structure UnionStored (backend : Backend) (cases : List (Option TypeExpr)) (depth : ℕ)
    (layout : Mir.TaggedUnionLayout) : Prop where
  fits : ∀ case ∈ cases, Fits backend depth layout.payloadSize layout.payloadAlignment case
  aligned : layout.payloadAlignment ∣ 4 + layout.paddingSize
  padding_nonneg : 0 ≤ layout.paddingSize
  units : layout.payloadSize ≤ layout.storageCount * layout.payloadAlignment
  inside : 4 + layout.paddingSize + layout.storageCount * layout.payloadAlignment ≤ layout.size
  dvd_size : layout.alignment ∣ layout.size
  alignment_le : 4 ≤ layout.alignment ∧ layout.payloadAlignment ≤ layout.alignment
  index : layout.payloadFieldIndex = if layout.paddingSize = 0 then 1 else 2
  size_le : layout.size ≤ maxU64

lemma payloadLayout_meets {cases : List (Option TypeExpr)} (h : payload.InDomain)
    (hfits : ∀ case ∈ cases, Fits backend depth payload.size payload.alignment case) :
    Meets (payloadLayout payload) (UnionStored backend cases depth) := by
  obtain ⟨hsizePos, hsizeLe, halignPos, halignLe⟩ := h
  have hmax : maxU64 ≤ maxI128 := by decide
  unfold payloadLayout
  refine meets_ite (fun _ => meets_null) fun _ => ?_
  refine (alignForward_meets (by decide) (by decide) (Int.le_trans halignLe hmax)).bind
    fun start _ h => ?_
  obtain ⟨hstartDvd, hstart, -⟩ := h
  refine (alignForward_meets (by omega) (Int.le_trans hsizeLe hmax)
    (Int.le_trans halignLe hmax)).bind fun room _ h => ?_
  obtain ⟨hroomDvd, hroom, -⟩ := h
  refine (layoutAdd_meets start room).bind fun stop _ h => ?_
  obtain ⟨rfl, hstop⟩ := h
  have htotal : max 4 payload.alignment ≤ maxI128 := by
    have hfour : (4 : ℤ) ≤ maxI128 := by decide
    omega
  refine (alignForward_meets (by omega) hstop htotal).bind fun size _ h => ?_
  obtain ⟨hsizeDvd, hsize, -⟩ := h
  refine (castU64_meets start).bind fun start' _ h => ?_
  obtain ⟨rfl, -, -⟩ := h
  refine (castU64_meets room).bind fun room' _ h => ?_
  obtain ⟨rfl, -, -⟩ := h
  refine (castU64_meets size).bind fun size' _ h => ?_
  obtain ⟨rfl, -, hsizeMax⟩ := h
  -- the room is a number of whole units, and at least one as the payload is not empty
  rw [subU64, if_pos hstart, divU64, if_neg (by omega)]
  obtain ⟨count, hcount⟩ := hroomDvd
  have hcountPos : 1 ≤ count := by
    by_contra hzero
    have hle : payload.alignment * count ≤ 0 :=
      Int.mul_nonpos_of_nonneg_of_nonpos (by omega) (by omega)
    omega
  have hunits : room' / payload.alignment = count := by
    rw [hcount, Int.mul_ediv_cancel_left _ (by omega)]
  have hmaxCount : max 1 count = count := by omega
  refine meets_ok ⟨hfits, ?_, by dsimp only; omega, ?_, ?_, hsizeDvd, by dsimp only; omega, ?_,
    hsizeMax⟩
  · have hsum : 4 + (start' - 4) = start' := by omega
    dsimp only
    rwa [hsum]
  · dsimp only
    rw [hunits, hmaxCount, Int.mul_comm, ← hcount]
    exact hroom
  · dsimp only
    rw [hunits, hmaxCount, Int.mul_comm count, ← hcount]
    omega
  · dsimp only
    congr 1
    exact propext ⟨fun h => by omega, fun h => by omega⟩

lemma comptimeTaggedUnionLayout_meets (cases : List (Option TypeExpr)) (depth : ℕ) :
    Meets (comptimeTaggedUnionLayout backend cases depth) (UnionStored backend cases depth) := by
  unfold comptimeTaggedUnionLayout
  refine meets_ite (fun _ => meets_null) fun _ => ?_
  have hstart : Payload.InDomain {} := ⟨by decide, by decide, by decide, by decide⟩
  exact (foldPayloads_meets cases hstart).bind fun last _ h => payloadLayout_meets h.1 h.2.2.2

/-! ## Optionals -/

/-- **The storage of an optional:** the payload lies behind the presence byte. -/
structure OptionalStored (payloadSize payloadAlignment : ℤ) (layout : OptionalLayout) : Prop where
  behind : 1 ≤ layout.payloadOffset
  aligned : payloadAlignment ∣ layout.payloadOffset
  inside : layout.payloadOffset + payloadSize ≤ layout.size
  alignment : layout.alignment = payloadAlignment
  dvd_size : layout.alignment ∣ layout.size
  size_le : layout.size ≤ maxI128

lemma comptimeTaggedOptionalLayout_meets (size alignment : I128) :
    Meets (comptimeTaggedOptionalLayout size.1 alignment.1)
      (OptionalStored size.1 alignment.1) := by
  unfold comptimeTaggedOptionalLayout
  refine meets_ite (fun _ => meets_null) fun hnonneg => ?_
  refine (alignForward_meets (by decide) (by decide) alignment.2.2).bind fun start _ h => ?_
  obtain ⟨hdvd, hstart, -⟩ := h
  refine (layoutAdd_meets start size.1).bind fun stop _ h => ?_
  obtain ⟨rfl, hstop⟩ := h
  refine (alignForward_meets (by omega) hstop alignment.2.2).bind fun total _ h => meets_ok ?_
  exact ⟨hstart, hdvd, h.2.1, rfl, h.1, h.2.2⟩

/-! ## All layouts -/

/-- **Layouts are sound.**  No layout traps.  What is returned for a struct is storage in which its
fields lie, each at the offset that is reported for it; what is returned for a tagged union or an
optional has room for the payloads; and an array has room for its elements. -/
theorem layouts_sound (backend : Backend) :
    (∀ decl wanted depth, Meets (comptimeStructLayout backend decl wanted depth) fun layout =>
      ∃ places, Stored backend decl depth layout.size layout.alignment places ∧
        ∀ wanted', comptimeStructLayout backend decl wanted' depth =
          .ok { layout with fieldOffset := offsetIn wanted' decl.fields places }) ∧
    (∀ cases depth, Meets (comptimeTaggedUnionLayout backend cases depth)
      (UnionStored backend cases depth)) ∧
    (∀ size alignment : I128, Meets (comptimeTaggedOptionalLayout size.1 alignment.1)
      (OptionalStored size.1 alignment.1)) ∧
    ∀ (len : ℕ) (elemSize : I128), Meets (orNull (comptimeArraySize len elemSize.1)) fun size =>
      size ≤ maxI128 ∧ ∀ i < len, 0 ≤ i * elemSize.1 ∧ i * elemSize.1 + elemSize.1 ≤ size := by
  refine ⟨comptimeStructLayout_meets, comptimeTaggedUnionLayout_meets,
    comptimeTaggedOptionalLayout_meets, fun len elemSize => meets_orNull fun size h => ?_⟩
  obtain ⟨-, hnonneg, rfl⟩ := comptimeArraySize_spec h
  have hle := (Option.ite_none_left_eq_some.mp (Option.ite_none_left_eq_some.mp h).2).2
  refine ⟨?_, fun i hi => ⟨Int.mul_nonneg (Int.natCast_nonneg i) hnonneg, ?_⟩⟩
  · rw [mulI128_eq hle] at *
    exact (Option.ite_none_right_eq_some.mp hle).1.2
  · have hstep : (i : ℤ) * elemSize.1 + elemSize.1 = (i + 1) * elemSize.1 := by
      rw [Int.add_mul, Int.one_mul]
    rw [hstep]
    exact Int.mul_le_mul_of_nonneg_right (by omega) hnonneg

end ModernC.Layout.Shared
