import Mathlib.Data.List.Perm.Subperm
import ModernC.Mir.Typed.Verified

/-!
# Bounds edges

Every access to an element or a sub-slice is a literal inside a known length or owns a bounds edge,
except in one form: a load of a slice element owns no edge at all, where a store to it and the
address of it own theirs. `boundsChecked_iff_noSliceElementLoad` says so of every complete body
that the verifier accepts.
-/

namespace ModernC.Mir.Typed

open Types (ValueType ArrayShape)

/-! ## Checked accesses -/

/-- The owner has exactly one edge for the access at the span, which leaves the access's own
block for a block that traps on bounds. -/
def OwnsBoundsEdge (function : Function) (owner : TrapOwner) (blockId : BlockId)
    (spanId : SpanId) : Prop :=
  ∃ edge trap, projectionEdges function.executableBody owner spanId = [edge] ∧
    edge.kind = .bounds ∧ edge.fromBlock = blockId ∧
    blockById function edge.trapBlock = some trap ∧ trap.terminator = .trap_ .bounds

/-- A literal index inside the known length of an array. -/
def LiteralInBounds (body : ExecutableBody) (ty : ValueType) (indexId : ExprId) : Prop :=
  ∃ index array length magnitude, body.expression indexId = some index ∧ ty = .array array ∧
    array.length = some length ∧ integerLiteral index = some magnitude ∧ magnitude < length

/-- Literal ends inside the known length of an array. -/
def LiteralRangeInBounds (body : ExecutableBody) (ty : ValueType) (startId stopId : ExprId) :
    Prop :=
  ∃ start stop array length first last, body.expression startId = some start ∧
    body.expression stopId = some stop ∧ ty = .array array ∧ array.length = some length ∧
    integerLiteral start = some first ∧ integerLiteral stop = some last ∧
    first ≤ last ∧ last ≤ length

/-- The edge at the span of a projection belongs to no other checked projection. -/
def OwnSpan (target : ExecutablePlace) (n : ℕ) (spanId : SpanId) : Prop :=
  ∀ m other, target.projections[m]? = some (.index other) → other.checked = true →
    other.spanId = spanId → m = n

/-- Every element that a place takes is a literal inside the array that the projections
before it lead to, or owns a bounds edge of its own. -/
def PlaceChecked (function : Function) (owner : TrapOwner) (blockId : BlockId)
    (target : ExecutablePlace) : Prop :=
  ∀ n projection, target.projections[n]? = some (.index projection) →
    (∃ reached, typeBefore function.executableBody target n = some reached ∧
      LiteralInBounds function.executableBody reached.1 projection.value) ∨
    (OwnsBoundsEdge function owner blockId projection.spanId ∧
      OwnSpan target n projection.spanId)

/-- No access of the body is out of range, unchecked and possible. -/
structure BoundsChecked (function : Function) : Prop where
  index : ∀ value ∈ function.executableBody.expressions, ∀ baseId indexId kind bound checked,
    value.operation = .index baseId indexId kind bound checked →
    (∃ base, function.executableBody.expression baseId = some base ∧
      LiteralInBounds function.executableBody base.resultTy indexId) ∨
    OwnsBoundsEdge function (.expression value.id) value.blockId value.spanId
  rangeSlice : ∀ value ∈ function.executableBody.expressions, ∀ baseId startId stopId checked,
    value.operation = .rangeSlice baseId startId stopId checked →
    (∃ base, function.executableBody.expression baseId = some base ∧
      LiteralRangeInBounds function.executableBody base.resultTy startId stopId) ∨
    OwnsBoundsEdge function (.expression value.id) value.blockId value.spanId
  load : ∀ value ∈ function.executableBody.expressions, ∀ placeId access spanId target,
    value.operation = .load placeId access spanId →
    function.executableBody.place placeId = some target →
    PlaceChecked function (.expression value.id) value.blockId target
  addressOf : ∀ value ∈ function.executableBody.expressions, ∀ placeId spanId target,
    value.operation = .addressOf placeId spanId →
    function.executableBody.place placeId = some target →
    PlaceChecked function (.expression value.id) value.blockId target
  store : ∀ statement ∈ function.executableBody.statements, ∀ store target,
    statement.operation = .store store →
    function.executableBody.place store.place = some target →
    PlaceChecked function (.statement statement.id) statement.blockId target

/-- No load reads an element of a slice. -/
def NoSliceElementLoad (body : ExecutableBody) : Prop :=
  ∀ value ∈ body.expressions, ∀ placeId access spanId target,
    value.operation = .load placeId access spanId → body.place placeId = some target →
    executableSliceIndexPlace body target = none

/-! ## Counting edges -/

/-- As many things as distinct ones among them are distinct themselves. -/
lemma nodup_of_subset_of_length_le {α : Type} [DecidableEq α] {xs ys : List α}
    (hxs : xs.Nodup) (hsubset : xs ⊆ ys) (hlength : ys.length ≤ xs.length) : ys.Nodup :=
  ((List.subperm_of_subset hxs hsubset).perm_of_length_le hlength).nodup_iff.mp hxs

lemma eq_singleton_of_countP {α : Type} {p : α → Bool} {xs : List α} (h : xs.countP p = 1) :
    ∃ x, xs.filter p = [x] := by
  rw [List.countP_eq_length_filter] at h
  exact List.length_eq_one_iff.mp h

variable {function : Function}

variable {owner : TrapOwner} {spanId representationSpanId : SpanId} {edge : ExecutableTrapEdge}
  {value : ExecutableExpression} {projection : IndexProjection} {blockId : BlockId} {extra : ℕ}
  {placeId : PlaceId}

lemma mem_projectionEdges {body : ExecutableBody} :
    edge ∈ projectionEdges body owner spanId ↔
      edge ∈ body.trapEdges ∧ edge.owner = owner ∧ edge.spanId = spanId := by
  simp only [projectionEdges, List.mem_filter, Bool.and_eq_true, beq_iff_eq, TypedIndex.eql_iff]

/-- The bounds edges of an owner. -/
def ownedBoundsEdges (body : ExecutableBody) (owner : TrapOwner) : List ExecutableTrapEdge :=
  body.trapEdges.filter fun edge => edge.owner == owner && edge.kind == .bounds &&
    edge.source == .boundsCheck

lemma ownedBoundsEdges_length (body : ExecutableBody) (owner : TrapOwner) :
    (ownedBoundsEdges body owner).length = ownedTrapCount body owner .bounds .boundsCheck :=
  List.countP_eq_length_filter.symm

/-- The checked index projections of a place. -/
def checkedProjections (target : ExecutablePlace) : List IndexProjection :=
  target.indexProjections.filter IndexProjection.checked

lemma checkedProjections_length (target : ExecutablePlace) :
    (checkedProjections target).length = executableCheckedIndexProjectionCount target :=
  List.countP_eq_length_filter.symm

/-- An operation that owns one edge, a bounds edge, has it at its own span. -/
lemma Verified.ownsBoundsEdge_of_operation (h : Verified function)
    (hmem : value ∈ function.executableBody.expressions)
    (hone : ownsOneBoundsEdge function.executableBody (.expression value.id) = true)
    (hspan : ∀ edge spanId, expressionEdgeSpan function.executableBody value edge = some spanId →
      spanId = value.spanId) :
    OwnsBoundsEdge function (.expression value.id) value.blockId value.spanId := by
  simp only [ownsOneBoundsEdge, Bool.and_eq_true, beq_iff_eq] at hone
  obtain ⟨edge, hedges⟩ := eq_singleton_of_countP hone.1
  obtain ⟨bounds, hbounds⟩ := eq_singleton_of_countP hone.2
  have hedge := List.mem_filter.mp (hedges ▸ List.mem_singleton_self edge)
  have hbound := List.mem_filter.mp (hbounds ▸ List.mem_singleton_self bounds)
  simp only [Bool.and_eq_true, beq_iff_eq] at hedge hbound
  have hsame : bounds = edge := by
    refine List.mem_singleton.mp (hedges ▸ List.mem_filter.mpr ⟨hbound.1, ?_⟩)
    exact beq_iff_eq.mpr hbound.2.1.1
  have hkind : edge.kind = .bounds := hsame ▸ hbound.2.1.2
  obtain ⟨hfrom, hedgeSpan⟩ := h.expressionEdge_of_mem hmem hedge.1 hedge.2
  obtain ⟨-, trap, hblock, htrap⟩ := h.trapEdge_of_mem hedge.1
  refine ⟨edge, trap, ?_, hkind, hfrom, hblock, hkind ▸ htrap⟩
  have hfilter : projectionEdges function.executableBody (.expression value.id) value.spanId =
      [edge].filter fun edge => edge.spanId.eql value.spanId := by
    rw [← hedges, List.filter_filter, projectionEdges]
    exact List.filter_congr fun edge _ => Bool.and_comm _ _
  rw [hfilter, List.filter_singleton, TypedIndex.eql_iff.mpr (hspan edge _ hedgeSpan)]
  rfl

/-! ## The edges of a place -/

variable {body : ExecutableBody} {target : ExecutablePlace}

/-- A slice-index place takes one element, checked, of a root that is no array. -/
lemma sliceIndexPlace_eq_some (h : executableSliceIndexPlace body target = some projection) :
    target.projections = [.index projection] ∧ projection.checked = true ∧
      ∃ child, sliceChild target.rootTy = some child := by
  unfold executableSliceIndexPlace at h
  split at h
  swap
  · cases h
  rename_i found hprojections
  obtain ⟨index, -, h⟩ := Option.bind_eq_some_iff.mp h
  split at h
  swap
  · cases h
  rename_i hchecks
  simp only [Bool.and_eq_true, beq_iff_eq] at hchecks
  obtain ⟨⟨⟨⟨_, hchecked⟩, _⟩, _⟩, hchild⟩ := hchecks
  rw [← Option.some.inj h]
  exact ⟨hprojections, hchecked, _, hchild⟩

lemma rootTy_ne_array_of_slice
    (h : executableSliceIndexPlace body target = some projection) {array : ArrayShape} :
    target.rootTy ≠ .array array := by
  intro harray
  obtain ⟨-, -, child, hchild⟩ := sliceIndexPlace_eq_some h
  rw [harray] at hchild
  cases hchild

lemma not_fixedArray_of_slice (h : executableSliceIndexPlace body target = some projection) :
    ¬ (executableFixedArrayIndexPlace body target).isSome = true := by
  intro hfixed
  obtain ⟨reached, hwalk⟩ := exists_walk_of_fixedArrayIndexPlace hfixed
  rw [(sliceIndexPlace_eq_some h).1, List.foldlM_cons] at hwalk
  obtain ⟨next, hstep, -⟩ := Option.bind_eq_some_iff.mp hwalk
  obtain ⟨_, array, _, _, harray, _⟩ := elementStep_eq_some hstep
  exact rootTy_ne_array_of_slice h harray

/-- A slice is no single pointer, so an element of it needs no guard of its root. -/
lemma not_guarded_of_slice (h : executableSliceIndexPlace body target = some projection) :
    placeNeedsRepresentationGuard body target = false := by
  obtain ⟨hprojections, -, child, hchild⟩ := sliceIndexPlace_eq_some h
  have hfield : (executableAggregatePointerFieldDerefPlace body target false).isSome = false := by
    rw [Bool.eq_false_iff]
    intro hsome
    have hnone := aggregatePointerFieldDerefPlace_noIndex hsome
    rw [ExecutablePlace.indexProjections, hprojections] at hnone
    cases hnone
  unfold placeNeedsRepresentationGuard
  rw [hfield, Bool.false_or, Bool.and_eq_false_iff]
  right
  unfold sliceChild at hchild
  split at hchild
  · rename_i shape hshape
    split at hchild
    · rename_i hkind
      simp only [hshape, beq_iff_eq.mp hkind]
      rfl
    · cases hchild
  · rename_i name hname
    rw [hname]
  · cases hchild

lemma mem_checkedProjections_of_forSpan
    (h : indexedProjectionForSpan body target spanId = some projection) :
    projection ∈ checkedProjections target ∧ projection.spanId = spanId := by
  rw [indexedProjectionForSpan, Option.orElse_eq_or, Option.or_eq_some_iff] at h
  rcases h with h | ⟨-, h⟩
  · unfold executableFixedArrayProjectionForSpan at h
    split at h
    swap
    · cases h
    have hfound := List.find?_some h
    simp only [Bool.and_eq_true, TypedIndex.eql_iff] at hfound
    exact ⟨List.mem_filter.mpr ⟨List.mem_of_find?_eq_some h, hfound.1.2⟩, hfound.2⟩
  · obtain ⟨hslice, hspan⟩ := Option.filter_eq_some_iff.mp h
    obtain ⟨hprojections, hchecked, -⟩ := sliceIndexPlace_eq_some hslice
    refine ⟨List.mem_filter.mpr ⟨?_, hchecked⟩, TypedIndex.eql_iff.mp hspan⟩
    rw [ExecutablePlace.indexProjections, hprojections]
    exact List.mem_singleton_self projection

/-- Each checked projection of an exactly checked place owns one edge. -/
lemma projectionEdges_of_exact
    (hexact : indexedBoundsEdgesExact body owner blockId target extra = true)
    (hmem : projection ∈ checkedProjections target) :
    ∃ edge, projectionEdges body owner projection.spanId = [edge] ∧
      edge.fromBlock = blockId ∧ edge.kind = .bounds := by
  simp only [indexedBoundsEdgesExact, Bool.and_eq_true, List.all_eq_true, beq_iff_eq] at hexact
  obtain ⟨hlength, hedges⟩ := hexact.2 projection hmem
  obtain ⟨edge, hedge⟩ := List.length_eq_one_iff.mp hlength
  have hfrom := hedges edge (hedge ▸ List.mem_singleton_self edge)
  simp only [boundsEdgeFrom, ExecutableTrapEdge.isBounds, Bool.and_eq_true, TypedIndex.eql_iff,
    beq_iff_eq] at hfrom
  exact ⟨edge, hedge, hfrom.1.1, hfrom.1.2.1⟩

/-- The checked projections of an exactly checked place have different spans: there are as
many bounds edges as projections, and one edge at each of their spans. -/
lemma checkedSpans_nodup_of_exact
    (hexact : indexedBoundsEdgesExact body owner blockId target extra = true)
    (hspans : ∀ edge ∈ ownedBoundsEdges body owner,
      edge.spanId ∈ (checkedProjections target).map IndexProjection.spanId) :
    ((checkedProjections target).map IndexProjection.spanId).Nodup := by
  have hcount : ownedTrapCount body owner .bounds .boundsCheck =
      executableCheckedIndexProjectionCount target := by
    simp only [indexedBoundsEdgesExact, Bool.and_eq_true, beq_iff_eq] at hexact
    exact hexact.1.2
  have hsubset : (ownedBoundsEdges body owner).map ExecutableTrapEdge.spanId ⊆
      (checkedProjections target).map IndexProjection.spanId := by
    intro spanId hmem
    obtain ⟨edge, hedge, rfl⟩ := List.mem_map.mp hmem
    exact hspans edge hedge
  refine nodup_of_subset_of_length_le (List.nodup_iff_count_le_one.mpr fun spanId => ?_) hsubset ?_
  · by_cases hmem : spanId ∈ (ownedBoundsEdges body owner).map ExecutableTrapEdge.spanId
    · obtain ⟨projection, hprojection, rfl⟩ := List.mem_map.mp (hsubset hmem)
      obtain ⟨edge, hedge, -⟩ := projectionEdges_of_exact hexact hprojection
      have hone : body.trapEdges.countP (fun edge =>
          edge.owner == owner && edge.spanId.eql projection.spanId) = 1 := by
        rw [List.countP_eq_length_filter]
        exact congrArg List.length hedge
      rw [List.count_eq_countP, List.countP_map, ownedBoundsEdges, List.countP_filter, ← hone]
      refine List.countP_mono_left fun edge _ hedge => ?_
      simp only [Function.comp_apply, Bool.and_eq_true, beq_iff_eq] at hedge
      simp only [Bool.and_eq_true, beq_iff_eq, TypedIndex.eql_iff]
      exact ⟨hedge.2.1.1, hedge.1⟩
    · rw [List.count_eq_zero_of_not_mem hmem]
      exact Nat.zero_le 1
  · rw [List.length_map, List.length_map, ownedBoundsEdges_length, checkedProjections_length,
      hcount]

/-- A checked projection whose span no other checked one has is the only one at its span. -/
lemma ownSpan_of_nodup (h : ((checkedProjections target).map IndexProjection.spanId).Nodup) {n : ℕ}
    (hget : target.projections[n]? = some (.index projection))
    (hchecked : projection.checked = true) : OwnSpan target n projection.spanId := by
  intro m other hother hotherChecked hspan
  rw [checkedProjections, ExecutablePlace.indexProjections, List.Nodup, List.pairwise_map,
    List.pairwise_filter, List.pairwise_filterMap, List.pairwise_iff_getElem] at h
  obtain ⟨hn, hnth⟩ := List.getElem?_eq_some_iff.mp hget
  obtain ⟨hm, hmth⟩ := List.getElem?_eq_some_iff.mp hother
  have hfirst : (target.projections[m]).asIndex = some other := by rw [hmth]; rfl
  have hsecond : (target.projections[n]).asIndex = some projection := by rw [hnth]; rfl
  by_contra hne
  rcases Nat.lt_or_gt_of_ne hne with hlt | hlt
  · exact h m n hm hn hlt other hfirst projection hsecond hotherChecked hchecked hspan
  · exact h n m hn hm hlt projection hsecond other hfirst hchecked hotherChecked hspan.symm

/-- An unchecked element of a fixed-array place has a literal index inside its array. -/
lemma literalInBounds_of_unchecked
    (hplace : (executableFixedArrayIndexPlace body target).isSome = true) {n : ℕ}
    (hget : target.projections[n]? = some (.index projection))
    (hchecked : ¬ projection.checked = true) :
    ∃ reached, typeBefore body target n = some reached ∧
      LiteralInBounds body reached.1 projection.value := by
  obtain ⟨reached, hwalk⟩ := exists_walk_of_fixedArrayIndexPlace hplace
  obtain ⟨before, after, htake, hstep⟩ := Framework.foldlM_at hwalk hget
  obtain ⟨index, array, length, hindex, harray, hlength, hliteral⟩ := elementStep_eq_some hstep
  obtain ⟨magnitude, hmagnitude, hlt⟩ := hliteral.resolve_left hchecked
  exact ⟨before, htake, index, array, length, magnitude, hindex, harray, hlength, hmagnitude, hlt⟩

/-- An exactly checked place whose bounds edges are those of its projections is checked. -/
lemma Verified.placeChecked_of_exact (h : Verified function)
    (hexact : indexedBoundsEdgesExact function.executableBody owner blockId target extra = true)
    (hspans : ∀ edge ∈ ownedBoundsEdges function.executableBody owner,
      edge.spanId ∈ (checkedProjections target).map IndexProjection.spanId) :
    PlaceChecked function owner blockId target := by
  intro n projection hget
  have hindex : projection ∈ target.indexProjections :=
    List.mem_filterMap.mpr ⟨_, List.mem_of_getElem? hget, rfl⟩
  by_cases hchecked : projection.checked = true
  · right
    have hmem : projection ∈ checkedProjections target := List.mem_filter.mpr ⟨hindex, hchecked⟩
    obtain ⟨edge, hedges, hfrom, hkind⟩ := projectionEdges_of_exact hexact hmem
    have hedge := mem_projectionEdges.mp (hedges ▸ List.mem_singleton_self edge)
    obtain ⟨-, trap, hblock, htrap⟩ := h.trapEdge_of_mem hedge.1
    refine ⟨⟨edge, trap, hedges, hkind, hfrom, hblock, hkind ▸ htrap⟩, ?_⟩
    exact ownSpan_of_nodup (checkedSpans_nodup_of_exact hexact hspans) hget hchecked
  · left
    refine literalInBounds_of_unchecked ?_ hget hchecked
    simp only [indexedBoundsEdgesExact, Bool.and_eq_true, Bool.or_eq_true] at hexact
    refine hexact.1.1.1.resolve_right fun hslice => ?_
    obtain ⟨found, hfound⟩ := Option.isSome_iff_exists.mp hslice
    obtain ⟨hprojections, hfoundChecked, -⟩ := sliceIndexPlace_eq_some hfound
    rw [ExecutablePlace.indexProjections, hprojections] at hindex
    exact hchecked (List.mem_singleton.mp hindex ▸ hfoundChecked)

lemma placeChecked_of_noIndex
    (h : target.indexProjections = []) : PlaceChecked function owner blockId target := by
  intro n projection hget
  have hmem : projection ∈ target.indexProjections :=
    List.mem_filterMap.mpr ⟨_, List.mem_of_getElem? hget, rfl⟩
  rw [h] at hmem
  cases hmem

/-- A place of a complete body that takes an element is a fixed-array or a slice place. -/
lemma indexPlace_of_completePlaceKind (hkind : isCompletePlaceKind body target = true)
    (hstorage : target.storage = .ordinary) :
    target.indexProjections = [] ∨ (executableFixedArrayIndexPlace body target).isSome = true ∨
      (executableSliceIndexPlace body target).isSome = true := by
  simp only [isCompletePlaceKind, hstorage, Bool.or_eq_true, reduceCtorEq, beq_iff_eq,
    false_or] at hkind
  rcases hkind with ((((hempty | hscalar) | haggregate) | hparameter) | hfixed) | hslice
  · rw [ExecutablePlace.indexProjections, List.isEmpty_iff.mp hempty]
    exact .inl rfl
  · exact .inl (scalarAccessPlace_noIndex hscalar)
  · exact .inl (guardedLocalAggregateDerefPlace_noIndex haggregate)
  · exact .inl (parameterProjectedPlace_noIndex hparameter)
  · exact .inr (.inl hfixed)
  · exact .inr (.inr hslice)

/-! ## The access forms -/

lemma mem_spans_of_forSpan
    (h : (indexedProjectionForSpan body target spanId).map (·.spanId) = some spanId) :
    spanId ∈ (checkedProjections target).map IndexProjection.spanId := by
  obtain ⟨projection, hprojection, hspan⟩ := Option.map_eq_some_iff.mp h
  exact List.mem_map.mpr ⟨projection, (mem_checkedProjections_of_forSpan hprojection).1, hspan⟩

lemma mem_ownedBoundsEdges :
    edge ∈ ownedBoundsEdges body owner ↔
      edge ∈ body.trapEdges ∧ edge.owner = owner ∧ edge.isBounds = true := by
  simp only [ownedBoundsEdges, ExecutableTrapEdge.isBounds, List.mem_filter, Bool.and_eq_true,
    beq_iff_eq, and_assoc]

/-- The bounds edges of a load or a store stand at the spans of its checked projections. -/
lemma mem_spans_of_loadEdgeSpan {isStore : Bool} (hplace : body.place placeId = some target)
    (hbounds : edge.isBounds = true)
    (h : loadEdgeSpan body placeId representationSpanId edge isStore = some edge.spanId) :
    edge.spanId ∈ (checkedProjections target).map IndexProjection.spanId := by
  rw [loadEdgeSpan, hplace] at h
  simp only [Option.bind_eq_bind, Option.bind_some, hbounds, if_true] at h
  exact mem_spans_of_forSpan h

lemma mem_spans_of_addressEdgeSpan (hplace : body.place placeId = some target)
    (hbounds : edge.isBounds = true)
    (h : addressEdgeSpan body placeId representationSpanId edge = some edge.spanId) :
    edge.spanId ∈ (checkedProjections target).map IndexProjection.spanId := by
  rw [addressEdgeSpan, hplace] at h
  simp only [Option.bind_eq_bind, Option.bind_some, hbounds, if_true] at h
  split at h
  · cases h
  · exact mem_spans_of_forSpan h

/-- What the check of a load establishes: a fixed-array place is exactly checked, and any
other place owns as many edges as it has representation guards. -/
lemma verifyLoad_eq_ok {access : ExecutableMemoryAccess}
    (hcomplete : function.executableBody.complete = true)
    (hplace : function.executableBody.place placeId = some target)
    (h : verifyLoad function value placeId access representationSpanId = .ok ()) :
    target.storage = .ordinary ∧
      (((executableFixedArrayIndexPlace function.executableBody target).isSome = true ∧
        ∃ extra, indexedBoundsEdgesExact function.executableBody (.expression value.id)
          value.blockId target extra = true) ∨
        (executableFixedArrayIndexPlace function.executableBody target = none ∧
          ownedTrapCountAll function.executableBody (.expression value.id) =
            (placeNeedsRepresentationGuard function.executableBody target).toNat)) := by
  simp only [verifyLoad, hplace, hcomplete, if_true, Framework.exceptBind_eq_ok,
    Framework.ensure_eq_ok, beq_iff_eq] at h
  obtain ⟨_, hstorage, _, _, _, _, h⟩ := h
  refine ⟨hstorage, ?_⟩
  split at h
  · rename_i indexed hfixed
    simp only [Framework.exceptBind_eq_ok, Framework.ensure_eq_ok] at h
    obtain ⟨_, _, hexact⟩ := h
    exact .inl ⟨Option.isSome_iff_exists.mpr ⟨indexed, hfixed⟩, _, hexact⟩
  · rename_i hfixed
    simp only [Framework.exceptBind_eq_ok, Framework.ensure_eq_ok, beq_iff_eq] at h
    obtain ⟨_, _, hcount⟩ := h
    exact .inr ⟨hfixed, hcount⟩

/-- What the check of an address establishes: an element of either kind is exactly checked. -/
lemma verifyAddressOf_eq_ok (hcomplete : function.executableBody.complete = true)
    (hplace : function.executableBody.place placeId = some target)
    (h : verifyAddressOf function value placeId representationSpanId = .ok ()) :
    target.storage = .ordinary ∧
      ((executableFixedArrayIndexPlace function.executableBody target).isSome = true ∨
        (executableSliceIndexPlace function.executableBody target).isSome = true →
      ∃ extra, indexedBoundsEdgesExact function.executableBody (.expression value.id)
        value.blockId target extra = true) := by
  simp only [verifyAddressOf, hplace, hcomplete, if_true, Framework.exceptBind_eq_ok,
    Framework.ensure_eq_ok, beq_iff_eq] at h
  obtain ⟨_, hstorage, _, _, _, _, h⟩ := h
  refine ⟨hstorage, fun hindexed => ?_⟩
  split at h
  · simp only [Framework.ensure_eq_ok, Bool.and_eq_true] at h
    exact ⟨_, h.2⟩
  · rename_i hslice
    obtain ⟨indexed, hfixed⟩ :=
      Option.isSome_iff_exists.mp (hindexed.resolve_right hslice)
    simp only [hfixed, Framework.exceptBind_eq_ok, Framework.ensure_eq_ok] at h
    obtain ⟨_, _, _, _, hexact⟩ := h
    exact ⟨_, hexact⟩

lemma verifyStore_eq_ok {statement : ExecutableStatement} {store : Store}
    (hcomplete : function.executableBody.complete = true)
    (hplace : function.executableBody.place store.place = some target)
    (h : verifyStore function statement store = .ok ()) :
    target.storage = .ordinary ∧
      ((executableFixedArrayIndexPlace function.executableBody target).isSome = true ∨
        (executableSliceIndexPlace function.executableBody target).isSome = true →
      ∃ extra, indexedBoundsEdgesExact function.executableBody (.statement statement.id)
        statement.blockId target extra = true) := by
  simp only [verifyStore, hplace, hcomplete, if_true, Framework.exceptBind_eq_ok] at h
  obtain ⟨_, _, _, _, _, haccess, _, _, _, hedges, _⟩ := h
  constructor
  · simp only [verifyMemoryAccess, Framework.exceptBind_eq_ok, Framework.ensure_eq_ok,
      beq_iff_eq] at haccess
    exact haccess.choose_spec.1
  · intro hindexed
    rw [Framework.ensure_eq_ok, Bool.or_eq_true, Bool.not_eq_true', Bool.or_eq_false_iff] at hedges
    refine ⟨_, hedges.resolve_left fun hnone => ?_⟩
    rcases hindexed with hfixed | hslice
    · exact Bool.false_ne_true (hnone.1.symm.trans hfixed)
    · exact Bool.false_ne_true (hnone.2.symm.trans hslice)

/-! ## Each form in a verified body -/

namespace Verified

variable (h : Verified function)

include h

lemma index_checked (hmem : value ∈ function.executableBody.expressions) {baseId indexId : ExprId}
    {kind : IndexKind} {bound : Option ℕ} {checked : Bool}
    (hoperation : value.operation = .index baseId indexId kind bound checked) :
    (∃ base, function.executableBody.expression baseId = some base ∧
      LiteralInBounds function.executableBody base.resultTy indexId) ∨
    OwnsBoundsEdge function (.expression value.id) value.blockId value.spanId := by
  have hcheck := h.operation_of_mem hmem
  simp only [verifyOperation, hoperation, h.complete, if_true, Framework.exceptBind_eq_ok]
    at hcheck
  obtain ⟨_, _, _, _, hcheck⟩ := hcheck
  unfold verifyIndexProjection at hcheck
  split at hcheck
  swap
  · cases hcheck
  rename_i base index hbase hindex
  simp only [Framework.exceptBind_eq_ok] at hcheck
  obtain ⟨_, _, _, hbound, hcheck⟩ := hcheck
  split at hcheck
  · right
    refine h.ownsBoundsEdge_of_operation hmem (Framework.ensure_eq_ok.mp hcheck) ?_
    intro edge spanId hspan
    simp only [expressionEdgeSpan, hoperation, Option.ite_none_right_eq_some,
      Option.some.injEq] at hspan
    exact hspan.2.symm
  · left
    rw [Framework.ensure_eq_ok] at hcheck
    simp only [Bool.and_eq_true, beq_iff_eq] at hcheck
    obtain ⟨⟨_, hkind⟩, hliteral⟩ := hcheck
    obtain ⟨magnitude, hmagnitude, hlt⟩ := (Option.any_eq_true _ _).mp hliteral
    obtain ⟨length, hlength, hlt⟩ := (Option.any_eq_true _ _).mp hlt
    simp only [verifyIndexBase, hkind] at hbound
    split at hbound
    swap
    · cases hbound
    rename_i array aggregate harray _
    simp only [Framework.ensure_eq_ok, Bool.and_eq_true, beq_iff_eq] at hbound
    obtain ⟨⟨⟨⟨⟨_, harrayLength⟩, _⟩, _⟩, _⟩, _⟩ := hbound
    exact ⟨base, hbase, index, array, length, magnitude, hindex, harray,
      harrayLength.trans hlength, hmagnitude, of_decide_eq_true hlt⟩

lemma rangeSlice_checked
    (hmem : value ∈ function.executableBody.expressions) {baseId startId stopId : ExprId}
    {checked : Bool} (hoperation : value.operation = .rangeSlice baseId startId stopId checked) :
    (∃ base, function.executableBody.expression baseId = some base ∧
      LiteralRangeInBounds function.executableBody base.resultTy startId stopId) ∨
    OwnsBoundsEdge function (.expression value.id) value.blockId value.spanId := by
  have hcheck := h.operation_of_mem hmem
  simp only [verifyOperation, hoperation, h.complete, if_true, Framework.exceptBind_eq_ok]
    at hcheck
  obtain ⟨_, _, _, _, _, _, hcheck⟩ := hcheck
  unfold verifyRangeSlice at hcheck
  split at hcheck
  swap
  · cases hcheck
  rename_i base start stop hbase hstart hstop
  simp only [Framework.exceptBind_eq_ok] at hcheck
  obtain ⟨_, _, hcheck⟩ := hcheck
  split at hcheck
  · cases hcheck
  simp only [Framework.exceptBind_eq_ok] at hcheck
  obtain ⟨bound, hbound, hcheck⟩ := hcheck
  split at hcheck
  -- an unchecked slice owns its edge, a checked one has literal ends inside the length
  · right
    refine h.ownsBoundsEdge_of_operation hmem (Framework.ensure_eq_ok.mp hcheck) ?_
    intro edge spanId hspan
    simp only [expressionEdgeSpan, hoperation, Option.ite_none_right_eq_some,
      Option.some.injEq] at hspan
    exact hspan.2.symm
  · left
    rw [Framework.ensure_eq_ok, Bool.and_eq_true] at hcheck
    obtain ⟨length, hlength, hends⟩ := (Option.any_eq_true _ _).mp hcheck.2
    obtain ⟨first, hfirst, hends⟩ := (Option.any_eq_true _ _).mp hends
    obtain ⟨last, hlast, hends⟩ := (Option.any_eq_true _ _).mp hends
    simp only [Bool.and_eq_true, decide_eq_true_eq] at hends
    unfold rangeSliceBound at hbound
    split at hbound
    · rename_i array harray
      split at hbound
      swap
      · cases hbound
      rename_i arrayLength aggregate harrayLength _
      split at hbound
      swap
      · cases hbound
      rw [hlength, Except.ok.injEq, Option.some.injEq] at hbound
      exact ⟨base, hbase, start, stop, array, length, first, last, hstart, hstop, harray,
        hbound ▸ harrayLength, hfirst, hlast, hends.1, hends.2⟩
    · split at hbound
      · rw [hlength] at hbound
        cases hbound
      · cases hbound

lemma isCompletePlaceKind_of_place (hplace : function.executableBody.place placeId = some target) :
    isCompletePlaceKind function.executableBody target = true :=
  h.places target (entryNamed_eq_some hplace).1

/-- An access whose checks are exact for the elements of either kind is checked. -/
lemma placeChecked_of_indexed (hplace : function.executableBody.place placeId = some target)
    (hstorage : target.storage = .ordinary)
    (hindexed : (executableFixedArrayIndexPlace function.executableBody target).isSome = true ∨
        (executableSliceIndexPlace function.executableBody target).isSome = true →
      ∃ extra, indexedBoundsEdgesExact function.executableBody owner blockId target extra = true)
    (hspans : ∀ edge ∈ ownedBoundsEdges function.executableBody owner,
      edge.spanId ∈ (checkedProjections target).map IndexProjection.spanId) :
    PlaceChecked function owner blockId target := by
  rcases indexPlace_of_completePlaceKind (h.isCompletePlaceKind_of_place hplace) hstorage with
    hnone | hkind
  · exact placeChecked_of_noIndex hnone
  · obtain ⟨extra, hexact⟩ := hindexed hkind
    exact h.placeChecked_of_exact hexact hspans

lemma addressOf_checked (hmem : value ∈ function.executableBody.expressions)
    (hoperation : value.operation = .addressOf placeId spanId)
    (hplace : function.executableBody.place placeId = some target) :
    PlaceChecked function (.expression value.id) value.blockId target := by
  have hcheck := h.operation_of_mem hmem
  simp only [verifyOperation, hoperation] at hcheck
  obtain ⟨hstorage, hindexed⟩ := verifyAddressOf_eq_ok h.complete hplace hcheck
  refine h.placeChecked_of_indexed hplace hstorage hindexed fun edge hedge => ?_
  obtain ⟨hedge, howner, hbounds⟩ := mem_ownedBoundsEdges.mp hedge
  have hspan := (h.expressionEdge_of_mem hmem hedge howner).2
  simp only [expressionEdgeSpan, hoperation] at hspan
  exact mem_spans_of_addressEdgeSpan hplace hbounds hspan

lemma store_checked {statement : ExecutableStatement}
    (hmem : statement ∈ function.executableBody.statements) {store : Store}
    (hoperation : statement.operation = .store store)
    (hplace : function.executableBody.place store.place = some target) :
    PlaceChecked function (.statement statement.id) statement.blockId target := by
  have hcheck := h.statements statement hmem
  simp only [verifyTypedStatement, hoperation] at hcheck
  obtain ⟨hstorage, hindexed⟩ := verifyStore_eq_ok h.complete hplace hcheck
  refine h.placeChecked_of_indexed hplace hstorage hindexed fun edge hedge => ?_
  obtain ⟨hedge, howner, hbounds⟩ := mem_ownedBoundsEdges.mp hedge
  have hspan := (h.statementEdge_of_mem hmem hedge howner).2
  simp only [statementEdgeSpan, hoperation] at hspan
  exact mem_spans_of_loadEdgeSpan hplace hbounds hspan

/-- A load is checked like the other forms unless it reads an element of a slice. -/
lemma load_checked (hmem : value ∈ function.executableBody.expressions)
    {access : ExecutableMemoryAccess} (hoperation : value.operation = .load placeId access spanId)
    (hplace : function.executableBody.place placeId = some target)
    (hslice : executableSliceIndexPlace function.executableBody target = none) :
    PlaceChecked function (.expression value.id) value.blockId target := by
  have hcheck := h.operation_of_mem hmem
  simp only [verifyOperation, hoperation] at hcheck
  obtain ⟨hstorage, hkind⟩ := verifyLoad_eq_ok h.complete hplace hcheck
  refine h.placeChecked_of_indexed hplace hstorage (fun hindexed => ?_) fun edge hedge => ?_
  · rcases hkind with ⟨-, hexact⟩ | ⟨hfixed, -⟩
    · exact hexact
    · rw [hfixed, hslice] at hindexed
      exact absurd hindexed (by simp)
  · obtain ⟨hedge, howner, hbounds⟩ := mem_ownedBoundsEdges.mp hedge
    have hspan := (h.expressionEdge_of_mem hmem hedge howner).2
    simp only [expressionEdgeSpan, hoperation] at hspan
    exact mem_spans_of_loadEdgeSpan hplace hbounds hspan

/-- A load of a slice element owns no edge, and its root is no array of known length. -/
lemma sliceElementLoad_not_checked (hmem : value ∈ function.executableBody.expressions)
    {access : ExecutableMemoryAccess} (hoperation : value.operation = .load placeId access spanId)
    (hplace : function.executableBody.place placeId = some target)
    (hslice : executableSliceIndexPlace function.executableBody target = some projection) :
    ¬ PlaceChecked function (.expression value.id) value.blockId target := by
  intro hchecked
  have hprojections := (sliceIndexPlace_eq_some hslice).1
  have hcheck := h.operation_of_mem hmem
  simp only [verifyOperation, hoperation] at hcheck
  obtain ⟨-, hkind⟩ := verifyLoad_eq_ok h.complete hplace hcheck
  obtain ⟨-, hcount⟩ := hkind.resolve_left fun hfixed => not_fixedArray_of_slice hslice hfixed.1
  rw [not_guarded_of_slice hslice, Bool.toNat_false, ownedTrapCountAll,
    List.countP_eq_zero] at hcount
  rcases hchecked 0 projection (by rw [hprojections]; rfl) with ⟨reached, hreached, hliteral⟩ | hedge
  · obtain ⟨_, array, _, _, _, harray, _⟩ := hliteral
    rw [← Option.some.inj hreached] at harray
    exact rootTy_ne_array_of_slice hslice harray
  · obtain ⟨edge, _, hedges, _⟩ := hedge.1
    obtain ⟨hmemEdge, howner, -⟩ := mem_projectionEdges.mp (hedges ▸ List.mem_singleton_self edge)
    exact hcount edge hmemEdge (beq_iff_eq.mpr howner)

end Verified

/-- **The bounds of a verified body.**  Every element and sub-slice access is a literal in
range or owns its bounds edge exactly when no load reads an element of a slice: the check of a
load asks for the edges of a fixed-array place only. -/
theorem boundsChecked_iff_noSliceElementLoad (hverify : verify function = .ok ())
    (hcomplete : function.executableBody.complete = true) :
    BoundsChecked function ↔ NoSliceElementLoad function.executableBody := by
  have h := verified_of_verify hverify hcomplete
  constructor
  · intro hbounds value hmem placeId access spanId target hoperation hplace
    by_contra hslice
    obtain ⟨projection, hslice⟩ := Option.ne_none_iff_exists'.mp hslice
    exact h.sliceElementLoad_not_checked hmem hoperation hplace hslice
      (hbounds.load value hmem placeId access spanId target hoperation hplace)
  · intro hload
    constructor
    · intro value hmem baseId indexId kind bound checked hoperation
      exact h.index_checked hmem hoperation
    · intro value hmem baseId startId stopId checked hoperation
      exact h.rangeSlice_checked hmem hoperation
    · intro value hmem placeId access spanId target hoperation hplace
      exact h.load_checked hmem hoperation hplace
        (hload value hmem placeId access spanId target hoperation hplace)
    · intro value hmem placeId spanId target hoperation hplace
      exact h.addressOf_checked hmem hoperation hplace
    · intro statement hmem store target hoperation hplace
      exact h.store_checked hmem hoperation hplace

/-! ## An element of a slice, read in both ways -/

def sliceType : ValueType := .pointer { kind := .slice, mutability := .constant, child := "u32" }

/-- Spans and types of a function that reads an element of a slice parameter. -/
def readSpans : List SpanIdentity :=
  [{ id := .fromIndex 0, source := { line := 1, column := 1 } },
    { id := .fromIndex 1, source := { line := 2, column := 12 } }]

def readTypes : List TypeIdentity :=
  [{ id := .fromIndex 0, spelling := "[]const u32", ty := some sliceType },
    { id := .fromIndex 1, spelling := "u32", ty := some (.integer "u32") },
    { id := .fromIndex 2, spelling := "usize", ty := some (.integer "usize") }]

/-- `fn read(s: []const u32) -> u32` returns an expression of its only block. -/
def readBody (expressions : List ExecutableExpression) (result : ℕ) : ExecutableBody where
  returnTypeId := .fromIndex 1
  parameters := [⟨.fromIndex 0, sliceType, .fromIndex 0, .fromIndex 0⟩]
  locals := [{ id := .fromIndex 0, spelling := "s", ty := sliceType, typeId := .fromIndex 0,
               declarationSpanId := .fromIndex 0, kind := .parameter }]
  expressions := expressions
  statements := [⟨.fromIndex 0, .fromIndex 0, .fromIndex 1, .return_ (some (.fromIndex result))⟩]
  terminators := [{ blockId := .fromIndex 0, operation := .return_ }]

def readExpression (id : ℕ) (resultTy : ValueType) (typeId : ℕ) (operation : Operation) :
    ExecutableExpression :=
  ⟨.fromIndex id, .fromIndex 0, .fromIndex 0, .fromIndex 1, resultTy, .fromIndex typeId, operation⟩

/-- `s[7]` as a load of the place `s[7]`, with no edge. -/
def readByLoad : Function where
  blocks := [⟨.fromIndex 0, [], .return_⟩]
  paramTypes := [sliceType]
  returnTy := .integer "u32"
  spanIdentities := readSpans
  typeIdentities := readTypes
  executableBody :=
    { readBody [readExpression 0 (.integer "usize") 2 (.literal (.integer 7)),
        readExpression 1 (.integer "u32") 1 (.load (.fromIndex 0) ⟨.raceUnordered, 4⟩ .invalid)] 1
      with
      places := [{ id := .fromIndex 0, spanId := .fromIndex 1, root := .ofLocal (.fromIndex 0),
                   rootTy := sliceType, rootTypeId := .fromIndex 0, ty := .integer "u32",
                   typeId := .fromIndex 1,
                   projections := [.index { value := .fromIndex 0, kind := .slice,
                                            spanId := .fromIndex 1 }] }] }

/-- `s[7]` as an index expression, with the edge that such an expression owns. -/
def readByIndex : Function where
  blocks := [⟨.fromIndex 0, [.fromIndex 1], .return_⟩, ⟨.fromIndex 1, [], .trap_ .bounds⟩]
  paramTypes := [sliceType]
  returnTy := .integer "u32"
  spanIdentities := readSpans
  typeIdentities := readTypes
  trapEdges := [⟨.fromIndex 0, .fromIndex 1, .bounds, .boundsCheck, .fromIndex 1⟩]
  executableBody :=
    { readBody [readExpression 0 sliceType 0 (.ofLocal (.fromIndex 0)),
        readExpression 1 (.integer "usize") 2 (.literal (.integer 7)),
        readExpression 2 (.integer "u32") 1
          (.index (.fromIndex 0) (.fromIndex 1) .slice none true)] 2
      with
      trapEdges := [⟨.expression (.fromIndex 2), .fromIndex 0, .fromIndex 1, .bounds,
        .boundsCheck, .fromIndex 1⟩]
      terminators := [{ blockId := .fromIndex 0, operation := .return_ },
        { blockId := .fromIndex 1, operation := .trap_ .bounds }] }

theorem readByIndex_boundsChecked : BoundsChecked readByIndex := by
  refine (boundsChecked_iff_noSliceElementLoad (by decide) rfl).mpr ?_
  intro value hmem placeId access spanId target hoperation
  have hnone : value.operation ≠ .load placeId access spanId := by
    simp only [readByIndex, readBody, readExpression, List.mem_cons, List.not_mem_nil,
      or_false] at hmem
    rcases hmem with rfl | rfl | rfl <;> simp
  exact absurd hoperation hnone

/-- **An unchecked read of a slice element is verified.** -/
theorem verified_not_boundsChecked :
    ¬ ∀ function : Function, verify function = .ok () →
      function.executableBody.complete = true → BoundsChecked function := by
  intro hall
  have hbounds := (hall readByLoad (by decide) rfl).load _ (.tail _ (.head _)) _ _ _ _ rfl rfl
  rcases hbounds 0 _ rfl with ⟨reached, hreached, hliteral⟩ | ⟨⟨edge, _, hedges, _⟩, -⟩
  · obtain ⟨_, array, _, _, _, harray, _⟩ := hliteral
    rw [← Option.some.inj hreached] at harray
    cases harray
  · cases hedges

end ModernC.Mir.Typed
