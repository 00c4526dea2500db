import ModernC.Mir.Typed.Body

/-!
# Kinds of places

The predicates of `mir_model.zig` and `mir_executable_body.zig` that say which storage a place
denotes: a chain of fields, a dereference of a checked pointer, elements of fixed arrays, or
one element of a slice.  A complete body has no place of another kind.
-/

namespace ModernC.Mir.Typed

open Types (ValueType)

/-! ## Alignments -/

def integerAlignment (name : String) : Option ℕ :=
  if name ∈ ["u8", "i8"] then some 1
  else if name ∈ ["u16", "i16"] then some 2
  else if name ∈ ["u32", "i32"] then some 4
  else if name ∈ ["u64", "i64", "usize", "isize"] then some 8
  else if name ∈ ["u128", "i128"] then some 16
  else none

def scalarAlignment : ValueType → Option ℕ
  | .bool => some 1
  | .integer name => integerAlignment name
  | .domainInteger shape => integerAlignment shape.child
  | .float name => if name = "f32" then some 4 else if name = "f64" then some 8 else none
  | .pointer _ | .nullablePointer _ | .cstr | .address _ | .value => some 8
  | _ => none

def enumAlignment (enumTypes : List ExecutableEnumType) (ty : ValueType) : Option ℕ :=
  match ty with
  | .closedEnum _ | .openEnum _ =>
    (enumTypes.find? fun enumTy => enumTy.ty == ty).bind fun enumTy => scalarAlignment enumTy.reprTy
  | _ => none

def executableStorageAlignment (enumTypes : List ExecutableEnumType) (ty : ValueType) :
    Option ℕ :=
  (scalarAlignment ty).orElse fun _ => enumAlignment enumTypes ty

def executableAggregateCopyAlignment : ValueType → Option ℕ
  | .array _ | .struct _ | .taggedUnion _ | .result _ | .nullableValue _ => some 1
  | _ => none

def executableMemoryAlignment (enumTypes : List ExecutableEnumType) (ty : ValueType) : Option ℕ :=
  (executableStorageAlignment enumTypes ty).orElse fun _ => executableAggregateCopyAlignment ty

/-! ## Pointers -/

/-- What a single pointer points to, if it is mutable where that is required. -/
def pointee (pointerTy : ValueType) (requireMutable : Bool) : Option String :=
  match pointerTy with
  | .pointer shape =>
    if shape.kind == .single && (!requireMutable || shape.mutability == .mutable) then
      some shape.child
    else none
  | _ => none

/-- The element type of a slice. -/
def sliceChild : ValueType → Option String
  | .pointer shape => if shape.kind == .slice then some shape.child else none
  | .slice name => some name
  | _ => none

def integerLiteral (value : ExecutableExpression) : Option ℕ :=
  match value.operation with
  | .literal (.integer magnitude) => some magnitude
  | _ => none

namespace ExecutablePlace

variable (place : ExecutablePlace)

/-- An ordinary place with resolved types, as every predicate on places demands. -/
def ordinary : Bool :=
  place.storage == .ordinary && place.rootTypeId.isValid && place.typeId.isValid

def rootLocal : Option LocalId :=
  match place.root with
  | .ofLocal id => some id
  | _ => none

/-- A dereference of the root pointer, and nothing else. -/
def isDeref : Bool := place.ordinary && place.projections == [.deref]

end ExecutablePlace

def Projection.asIndex : Projection → Option IndexProjection
  | .index projection => some projection
  | _ => none

variable (body : ExecutableBody)

/-- A store replaces the whole local. -/
def storesWholeLocal (localId : LocalId) : Bool :=
  body.statements.any fun statement =>
    match statement.operation with
    | .store store =>
      store.place.isValid && (body.places[store.place.index]?).any fun target =>
        target.projections.isEmpty && target.root == .ofLocal localId
    | _ => false

def parameterHasType (localId : LocalId) (ty : ValueType) (typeId : TypeId) : Bool :=
  (body.parameter localId).any fun parameter =>
    parameter.typeId.eql typeId && parameter.ty == ty

/-- The value whose pointer the initializer passes on: itself, or what it has checked. -/
def pointerSource (value : ExecutableExpression) (pointerTy : ValueType)
    (pointerTypeId : TypeId) : Option ExecutableExpression :=
  match value.operation with
  | .representationCheck operand kind =>
    if kind == .nonnullPointer then
      (body.expression operand).filter fun source =>
        source.resultTy == pointerTy && source.typeId.eql pointerTypeId
    else none
  | _ => some value

/-- The initializer of a local is a pointer parameter. -/
def initializedByParameter (init : LocalInit) (pointerTy : ValueType)
    (pointerTypeId : TypeId) : Bool :=
  (init.value.bind body.expression).any fun value =>
    value.resultTy == pointerTy && value.typeId.eql pointerTypeId &&
      (pointerSource body value pointerTy pointerTypeId).any fun source =>
        match source.operation with
        | .ofLocal sourceLocal => parameterHasType body sourceLocal pointerTy pointerTypeId
        | _ => false

def executableParameterPointerRoot (localId : LocalId) (pointerTy : ValueType)
    (pointerTypeId : TypeId) : Bool :=
  match body.parameter localId with
  | some parameter => parameter.typeId.eql pointerTypeId && parameter.ty == pointerTy
  | none =>
    match body.localInits localId with
    | [init] =>
      !storesWholeLocal body localId && !init.mutable && init.typeId.eql pointerTypeId &&
        init.ty == pointerTy && initializedByParameter body init pointerTy pointerTypeId
    | _ => false

/-- The statement that the place names as its witness gives the pointer local its value. -/
def executableLocalPointerInitialization (place : ExecutablePlace) (localId : LocalId) : Bool :=
  match (body.statement place.rootInitialization).map ExecutableStatement.operation with
  | some (.localInit init) =>
    init.localId.eql localId && init.value.isSome && init.ty == place.rootTy
  | some (.store store) =>
    store.ty == place.rootTy &&
      ((body.place store.place).any fun target =>
        target.root == .ofLocal localId && target.projections.isEmpty) &&
      (body.expression store.value).any fun value =>
        value.resultTy == place.rootTy && value.typeId.eql place.rootTypeId
  | _ => false

/-! ## Chains of fields -/

/-- The type of a field of a by-value aggregate. -/
def fieldStep (current : ValueType × TypeId) (projection : Projection) :
    Option (ValueType × TypeId) :=
  match projection with
  | .field fieldIndex => do
    let shape ← body.aggregateTypes.find? fun candidate => candidate.typeId.eql current.2
    let field ← shape.fields[fieldIndex]?
    if shape.construction != .packedBits && shape.ty == current.1 then
      some (field.ty, field.typeId)
    else none
  | .index _ | .deref => none

/-- The projections select fields only and end at the type of the place. -/
def isFieldChain (start : ValueType × TypeId) (projections : List Projection)
    (place : ExecutablePlace) : Bool :=
  projections.foldlM (fieldStep body) start == some (place.ty, place.typeId)

def executableAggregateFieldPlace (place : ExecutablePlace) (requireMutable : Bool) : Bool :=
  place.ordinary && !place.projections.isEmpty &&
    ((scalarAlignment place.ty).isSome || (executableAggregateCopyAlignment place.ty).isSome) &&
    (match place.root with
    | .ofLocal id =>
      (body.local_ id).isSome &&
        (!requireMutable || (body.localInits id).head?.any LocalInit.mutable)
    | .ofSymbol _ => true
    | .ofValue _ => false) &&
    isFieldChain body (place.rootTy, place.rootTypeId) place.projections place

/-- Fields of the pointee of a typed pointer local. -/
def executableParameterProjectedPlace (place : ExecutablePlace) (requireMutable : Bool) : Bool :=
  match place.rootLocal, place.projections with
  | some localId, .deref :: fields =>
    place.ordinary && !fields.isEmpty &&
      (if place.rootInitialization.isValid then
        executableLocalPointerInitialization body place localId
      else executableParameterPointerRoot body localId place.rootTy place.rootTypeId) &&
      (pointee place.rootTy requireMutable).any fun child =>
        (body.aggregateTypes.find? fun candidate => candidate.ty == .struct child).any
          fun aggregate => isFieldChain body (.struct child, aggregate.typeId) fields place
  | _, _ => false

/-- The pointee of a pointer field of an aggregate local. -/
def executableAggregatePointerFieldDerefPlace (place : ExecutablePlace)
    (requireMutable : Bool) : Option (ℕ × ValueType) :=
  match place.rootLocal, place.projections with
  | some localId, [.field fieldIndex, .deref] => do
    let shape ← body.aggregateTypes.find? fun candidate => candidate.typeId.eql place.rootTypeId
    let field ← shape.fields[fieldIndex]?
    if place.ordinary && (scalarAlignment place.ty).isSome && (body.local_ localId).isSome &&
        shape.construction == .declaredStruct && shape.ty == place.rootTy &&
        pointee field.ty requireMutable == some place.ty.name then
      some (fieldIndex, field.ty)
    else none
  | _, _ => none

/-! ## Dereferences -/

/-- A use of the pointer value, or a call, after which the pointer may have escaped. -/
def mayEscape (localId : LocalId) (value : ExecutableExpression) : Bool :=
  match value.operation with
  | .ofLocal used => used.eql localId
  | .directCall | .indirectCall | .builtinCall _ => true
  | _ => false

/-- The place whose address an expression takes, if a pointer of the type can hold it. -/
def addressedPlace (value : ExecutableExpression) (pointerTy : ValueType) : Option PlaceId :=
  match value.operation with
  | .addressOf placeId _ => do
    let target ← body.place placeId
    if decide (target.projections.length ≤ maxExecutableProjections) && target.typeId.isValid &&
        (match target.root with
        | .ofLocal _ | .ofSymbol _ => true
        | .ofValue _ => false) &&
        pointee pointerTy false == some target.ty.name then
      some placeId
    else none
  | _ => none

/-- The place that an unescaped local pointer, initialized once, is the address of. -/
def executableLocalAddressAliasTarget (localId : LocalId) (pointerTy : ValueType)
    (pointerTypeId : TypeId) : Option PlaceId :=
  if body.expressions.any (mayEscape localId) || storesWholeLocal body localId then none
  else
    match body.localInitStatements localId with
    | [(statementId, init)] => do
      let value ← init.value.bind body.expression
      if init.ty == pointerTy && init.typeId.eql pointerTypeId &&
          value.ownerStatement.eql statementId && value.resultTy == pointerTy &&
          value.typeId.eql pointerTypeId then
        addressedPlace body value pointerTy
      else none
    | _ => none

def executableLocalAddressDerefPlace (place : ExecutablePlace) (requireMutable : Bool) : Bool :=
  place.isDeref && (scalarAlignment place.ty).isSome &&
    (place.rootLocal.any fun localId =>
      (executableLocalAddressAliasTarget body localId place.rootTy place.rootTypeId).isSome) &&
    pointee place.rootTy requireMutable == some place.ty.name

/-- A parameter or an initialized local whose type is that of the root pointer. -/
def guardedLocalRoot (place : ExecutablePlace) (localId : LocalId) : Bool :=
  (body.local_ localId).isSome &&
    (parameterHasType body localId place.rootTy place.rootTypeId ||
      (body.localInits localId).head?.any fun init =>
        init.value.isSome && init.typeId.eql place.rootTypeId && init.ty == place.rootTy)

/-- Whether an aggregate is lowered as scalar leaf accesses, down to `depth` levels. -/
def raceAggregateTypeSupportedDepth (typeId : TypeId) (ty : ValueType) : (depth : ℕ) → Bool
  | 0 => false
  | depth + 1 =>
    if (executableAggregateCopyAlignment ty).isNone then
      (executableMemoryAlignment body.enumTypes ty).isSome
    else
      (body.aggregateTypes.find? fun candidate => candidate.typeId.eql typeId).any fun shape =>
        shape.construction == .declaredStruct && shape.ty == ty && !shape.fields.isEmpty &&
          (shape.fields.take (if shape.arrayLength.isSome then 1 else shape.fields.length)).all
            fun field => raceAggregateTypeSupportedDepth field.typeId field.ty depth

def executableRaceAggregateTypeSupported (typeId : TypeId) (ty : ValueType) : Bool :=
  raceAggregateTypeSupportedDepth body typeId ty maxExecutableProjections

def executableGuardedLocalAggregateDerefPlace (place : ExecutablePlace)
    (requireMutable : Bool) : Bool :=
  place.isDeref && (executableAggregateCopyAlignment place.ty).isSome &&
    place.rootLocal.any (guardedLocalRoot body place) &&
    (pointee place.rootTy requireMutable).isSome &&
    executableRaceAggregateTypeSupported body place.typeId place.ty

def executableGuardedLocalScalarDerefPlace (place : ExecutablePlace)
    (requireMutable : Bool) : Bool :=
  place.isDeref && (scalarAlignment place.ty).isSome &&
    place.rootLocal.any (guardedLocalRoot body place) &&
    pointee place.rootTy requireMutable == some place.ty.name

def executableGlobalPointerDerefPlace (place : ExecutablePlace) (requireMutable : Bool) : Bool :=
  place.isDeref && (executableStorageAlignment body.enumTypes place.ty).isSome &&
    (match place.root with
    | .ofSymbol id => (body.symbol id).any fun symbol => symbol.kind == .global
    | _ => false) &&
    pointee place.rootTy requireMutable == some place.ty.name

def isComputedRawManyDerefPlace (place : ExecutablePlace) (requireMutable : Bool) : Bool :=
  place.isDeref && (executableStorageAlignment body.enumTypes place.ty).isSome &&
    match place.root with
    | .ofValue rootId => (body.expression rootId).any fun root =>
      root.typeId.eql place.rootTypeId && root.resultTy == place.rootTy &&
        root.operation == .builtinCall .rawManyOffset &&
        match root.resultTy with
        | .pointer shape =>
          shape.kind == .rawMany && (!requireMutable || shape.mutability == .mutable) &&
            shape.child == place.ty.name
        | _ => false
    | _ => false

/-- The pointee of a single-pointer parameter. -/
def isSingleParameterDerefPlace (place : ExecutablePlace) (requireMutable : Bool) : Bool :=
  place.projections == [.deref] &&
    ((place.rootLocal.bind body.parameter).any fun parameter => parameter.ty == place.rootTy) &&
    (executableMemoryAlignment body.enumTypes place.ty).isSome &&
    (pointee place.rootTy requireMutable).any fun child =>
      (executableAggregateCopyAlignment place.ty).isSome || child == place.ty.name

def isParameterScalarAccessPlace (place : ExecutablePlace) (requireMutable : Bool) : Bool :=
  place.storage == .ordinary &&
    if place.projections.length = 1 then isSingleParameterDerefPlace body place requireMutable
    else (executableStorageAlignment body.enumTypes place.ty).isSome &&
      executableParameterProjectedPlace body place requireMutable

def isScalarAccessPlace (place : ExecutablePlace) (requireMutable : Bool) : Bool :=
  executableAggregateFieldPlace body place requireMutable ||
    (executableAggregatePointerFieldDerefPlace body place requireMutable).isSome ||
    isParameterScalarAccessPlace body place requireMutable ||
    executableLocalAddressDerefPlace body place requireMutable ||
    executableGuardedLocalScalarDerefPlace body place requireMutable ||
    executableGlobalPointerDerefPlace body place requireMutable ||
    isComputedRawManyDerefPlace body place requireMutable

/-! ## Elements of fixed arrays -/

structure FixedArrayIndexPlace where
  firstIndex : IndexProjection
  parameterPointee : Bool
  localPointee : Bool

def FixedArrayIndexPlace.indirectPointee (self : FixedArrayIndexPlace) : Bool :=
  self.parameterPointee || self.localPointee

/-- Where the walk along the projections begins: at the root, or behind its pointer. -/
structure ProjectionStart where
  reached : ValueType × TypeId
  projections : List Projection
  parameterPointee : Bool := false
  localPointee : Bool := false

/-- Whether the typed pointer local at the root is a parameter; none if it is neither a
parameter nor initialized by the witness of the place. -/
def pointerRootIsParameter (place : ExecutablePlace) (localId : LocalId) : Option Bool :=
  match body.parameter localId with
  | some _ =>
    if parameterHasType body localId place.rootTy place.rootTypeId &&
        !place.rootInitialization.isValid then some true
    else none
  | none => if executableLocalPointerInitialization body place localId then some false else none

/-- The aggregate behind the pointer local. -/
def derefStart (place : ExecutablePlace) (localId : LocalId) (projections : List Projection) :
    Option ProjectionStart := do
  let isParameter ← pointerRootIsParameter body place localId
  let child ← pointee place.rootTy false
  let aggregate ← body.aggregateTypes.find? fun candidate => candidate.ty == .struct child
  if aggregate.construction != .packedBits then
    some { reached := (aggregate.ty, aggregate.typeId), projections,
           parameterPointee := isParameter, localPointee := !isParameter }
  else none

def projectionStart (place : ExecutablePlace) : Option ProjectionStart :=
  match place.projections with
  | .deref :: projections =>
    match place.root with
    | .ofLocal localId => derefStart body place localId projections
    | _ => none
  | projections => some { reached := (place.rootTy, place.rootTypeId), projections }

/-- An element of an array of `bound` elements; an unchecked one has a literal index. -/
def elementStep (current : ValueType × TypeId) (projection : IndexProjection) :
    Option (ValueType × TypeId) := do
  let bound ← projection.bound
  let index ← body.expression projection.value
  let shape ← body.aggregateTypes.find? fun candidate => candidate.typeId.eql current.2
  let element ← shape.fields.head?
  match current.1 with
  | .array array =>
    if projection.kind == .fixedArray && projection.spanId.isValid &&
        index.resultTy == .integer "usize" && array.length == some bound && bound != 0 &&
        shape.arrayLength == some bound && shape.ty == current.1 &&
        (projection.checked || (integerLiteral index).any (· < bound)) then
      some (element.ty, element.typeId)
    else none
  | _ => none

def projectionStep (current : ValueType × TypeId) (projection : Projection) :
    Option (ValueType × TypeId) :=
  match projection with
  | .index projection => elementStep body current projection
  | .field fieldIndex => do
    let shape ← body.aggregateTypes.find? fun candidate => candidate.typeId.eql current.2
    let field ← shape.fields[fieldIndex]?
    if shape.ty == current.1 then some (field.ty, field.typeId) else none
  | .deref => none

def executableFixedArrayIndexPlace (place : ExecutablePlace) : Option FixedArrayIndexPlace :=
  if place.ordinary && !place.projections.isEmpty then do
    let start ← projectionStart body place
    let reached ← start.projections.foldlM (projectionStep body) start.reached
    let firstIndex ← start.projections.findSome? Projection.asIndex
    if reached.1 == place.ty && reached.2.eql place.typeId then
      some { firstIndex, parameterPointee := start.parameterPointee,
             localPointee := start.localPointee }
    else none
  else none

def executableFixedArrayIndirectPointeePlace (place : ExecutablePlace)
    (requireMutable : Bool) : Bool :=
  ((executableFixedArrayIndexPlace body place).any FixedArrayIndexPlace.indirectPointee) &&
    (pointee place.rootTy requireMutable).isSome

/-- The result of a direct call that returns an array. -/
def executableFixedArrayCallResultRoot (place : ExecutablePlace) : Bool :=
  match place.root with
  | .ofValue rootId => (body.expression rootId).any fun root =>
    root.typeId.eql place.rootTypeId && root.resultTy == place.rootTy &&
      root.operation == .directCall &&
      match root.resultTy with
      | .array _ => true
      | _ => false
  | _ => false

def fixedArrayAddressableRoot (place : ExecutablePlace) : Bool :=
  match executableFixedArrayIndexPlace body place with
  | none => false
  | some indexed =>
    indexed.indirectPointee ||
      match place.root with
      | .ofLocal id => (body.parameter id).isNone && !(body.localInits id).isEmpty
      | .ofSymbol id => (body.symbol id).any fun symbol => symbol.kind == .global
      | .ofValue _ => executableFixedArrayCallResultRoot body place

/-- The index projections of the place, in order. -/
def ExecutablePlace.indexProjections (place : ExecutablePlace) : List IndexProjection :=
  place.projections.filterMap Projection.asIndex

def executableCheckedIndexProjectionCount (place : ExecutablePlace) : ℕ :=
  place.indexProjections.countP IndexProjection.checked

def executableFixedArrayProjectionForSpan (place : ExecutablePlace) (spanId : SpanId) :
    Option IndexProjection :=
  if (executableFixedArrayIndexPlace body place).isSome then
    place.indexProjections.find? fun projection =>
      projection.kind == .fixedArray && projection.checked && projection.spanId.eql spanId
  else none

/-! ## Elements of slices -/

def executableSliceIndexPlace (place : ExecutablePlace) : Option IndexProjection :=
  match place.projections with
  | [.index projection] => do
    let index ← body.expression projection.value
    if place.ordinary && projection.kind == .slice && projection.bound.isNone &&
        projection.checked && projection.spanId.isValid && index.resultTy == .integer "usize" &&
        sliceChild place.rootTy == some place.ty.name then
      some projection
    else none
  | _ => none

def executableCheckedSliceValueRoot (place : ExecutablePlace) : Bool :=
  (executableSliceIndexPlace body place).isSome &&
    match place.root with
    | .ofValue id => (body.expression id).any fun value =>
      value.resultTy == place.rootTy && value.typeId.eql place.rootTypeId &&
        match value.operation with
        | .representationCheck _ kind => kind == .validSlice
        | _ => false
    | _ => false

/-! ## Access classes and guards -/

def isResult : ValueType → Bool
  | .result _ => true
  | _ => false

def executableAggregateRequiresPlainAccess (typeId : TypeId) (ty : ValueType) : Bool :=
  (executableAggregateCopyAlignment ty).isSome && typeId.isValid &&
    ((isResult ty && body.resultTypes.any fun shape => shape.typeId.eql typeId && shape.ty == ty) ||
      (body.taggedUnionTypes.any fun shape => shape.typeId.eql typeId && shape.ty == ty) ||
      (body.aggregateTypes.find? fun shape => shape.typeId.eql typeId && shape.ty == ty).any
        fun shape => shape.construction != .declaredStruct)

def executableLocalAddressDerefTarget (place : ExecutablePlace) : Option PlaceId :=
  if executableLocalAddressDerefPlace body place false then
    place.rootLocal.bind fun localId =>
      executableLocalAddressAliasTarget body localId place.rootTy place.rootTypeId
  else none

def executablePointerDerefAccessKind (place : ExecutablePlace) : Option MemoryAccessKind :=
  if place.storage != .ordinary || place.projections.isEmpty then none
  else
    match place.pointerProvenance with
    | .localStorage => some .plain
    | .globalStorage => some .raceUnordered
    | .unknown =>
      match executableLocalAddressDerefTarget body place with
      | none => some .raceUnordered
      | some targetId =>
        if targetId.isValid then
          (body.places[targetId.index]?).bind fun target =>
            match target.root with
            | .ofLocal _ => some .plain
            | .ofSymbol id => (body.symbol id).map fun symbol =>
              if symbol.mutable then .raceUnordered else .plain
            | .ofValue _ => some .raceUnordered
        else none

def placeNeedsRepresentationGuard (place : ExecutablePlace) : Bool :=
  !place.projections.isEmpty && !place.rootNonnullProven &&
    ((executableAggregatePointerFieldDerefPlace body place false).isSome ||
      match place.rootTy with
      | .pointer shape => shape.kind == .single
      | .nullablePointer _ => true
      | _ => false)

/-- A parameter, an initialized local or a global that is addressed as a whole. -/
def directAddressablePlace (place : ExecutablePlace) : Bool :=
  place.storage == .ordinary && place.projections.isEmpty && place.rootTy == place.ty &&
    match place.root with
    | .ofLocal id => (body.parameter id).isSome || !(body.localInits id).isEmpty
    | .ofSymbol id => (body.symbol id).any fun symbol => symbol.kind == .global
    | .ofValue _ => false

/-- A local that is only ever the payload of a present optional. -/
def executableLocalInitializedByOptionalPresentPayload (localId : LocalId) : Bool :=
  match body.localInits localId with
  | [init] => !init.mutable && (init.value.bind body.expression).any fun value =>
    match value.operation with
    | .variantPayload _ kind => kind == .optionalPresent
    | _ => false
  | _ => false

/-- A synthetic local that only ever holds a pointer checked where it was initialized. -/
def executableLocalInitializedByCheckedPointer (localId : LocalId) : Bool :=
  localId.isValid &&
    ((body.locals.filter fun identity => identity.id.eql localId).getLast?.any fun identity =>
      identity.kind == .synthetic) &&
    (match body.localInits localId with
    | [init] => init.value.any fun valueId =>
      (body.expressions.find? fun value => value.id.eql valueId).any fun value =>
        match value.operation with
        | .representationCheck _ kind => kind == .nonnullPointer
        | _ => false
    | _ => false) &&
    !(body.statements.any fun statement =>
      match statement.operation with
      | .store store => body.places.any fun place =>
        place.id.eql store.place && place.projections.isEmpty && place.root == .ofLocal localId
      | _ => false)

/-! ## The kinds without an element -/

variable {body} {place : ExecutablePlace} {requireMutable : Bool}

variable {current next : ValueType × TypeId}

lemma fieldStep_asIndex {projection : Projection}
    (h : fieldStep body current projection = some next) : projection.asIndex = none := by
  cases projection with
  | field fieldIndex => rfl
  | index projection => simp [fieldStep] at h
  | deref => rfl

lemma isFieldChain_noIndex {start : ValueType × TypeId} {projections : List Projection}
    (h : isFieldChain body start projections place = true) :
    projections.filterMap Projection.asIndex = [] := by
  rw [List.filterMap_eq_nil_iff]
  intro projection hmem
  obtain ⟨n, hget⟩ := List.mem_iff_getElem?.mp hmem
  obtain ⟨before, after, -, hstep⟩ := Framework.foldlM_at (beq_iff_eq.mp h) hget
  exact fieldStep_asIndex hstep

lemma isDeref_noIndex (h : place.isDeref = true) : place.indexProjections = [] := by
  simp only [ExecutablePlace.isDeref, Bool.and_eq_true, beq_iff_eq] at h
  rw [ExecutablePlace.indexProjections, h.2]
  rfl

lemma aggregateFieldPlace_noIndex
    (h : executableAggregateFieldPlace body place requireMutable = true) :
    place.indexProjections = [] := by
  simp only [executableAggregateFieldPlace, Bool.and_eq_true] at h
  exact isFieldChain_noIndex h.2

lemma parameterProjectedPlace_noIndex
    (h : executableParameterProjectedPlace body place requireMutable = true) :
    place.indexProjections = [] := by
  unfold executableParameterProjectedPlace at h
  split at h
  · rename_i localId fields hroot hprojections
    simp only [Bool.and_eq_true] at h
    obtain ⟨child, -, hchild⟩ := (Option.any_eq_true _ _).mp h.2
    obtain ⟨aggregate, -, hchain⟩ := (Option.any_eq_true _ _).mp hchild
    have hfields := isFieldChain_noIndex hchain
    rw [ExecutablePlace.indexProjections, hprojections]
    exact hfields
  · cases h

lemma aggregatePointerFieldDerefPlace_noIndex
    (h : (executableAggregatePointerFieldDerefPlace body place requireMutable).isSome = true) :
    place.indexProjections = [] := by
  unfold executableAggregatePointerFieldDerefPlace at h
  split at h
  · rename_i localId fieldIndex hroot hprojections
    rw [ExecutablePlace.indexProjections, hprojections]
    rfl
  · cases h

lemma parameterScalarAccessPlace_noIndex
    (h : isParameterScalarAccessPlace body place requireMutable = true) :
    place.indexProjections = [] := by
  simp only [isParameterScalarAccessPlace, Bool.and_eq_true] at h
  have hkind := h.2
  split at hkind
  · simp only [isSingleParameterDerefPlace, Bool.and_eq_true, beq_iff_eq] at hkind
    rw [ExecutablePlace.indexProjections, hkind.1.1.1]
    rfl
  · exact parameterProjectedPlace_noIndex (Bool.and_eq_true_iff.mp hkind).2

lemma guardedLocalAggregateDerefPlace_noIndex
    (h : executableGuardedLocalAggregateDerefPlace body place requireMutable = true) :
    place.indexProjections = [] := by
  simp only [executableGuardedLocalAggregateDerefPlace, Bool.and_eq_true] at h
  exact isDeref_noIndex h.1.1.1.1

/-- A scalar access selects fields and follows pointers, but takes no element. -/
lemma scalarAccessPlace_noIndex (h : isScalarAccessPlace body place requireMutable = true) :
    place.indexProjections = [] := by
  simp only [isScalarAccessPlace, Bool.or_eq_true] at h
  obtain (((((h | h) | h) | h) | h) | h) | h := h
  · exact aggregateFieldPlace_noIndex h
  · exact aggregatePointerFieldDerefPlace_noIndex h
  · exact parameterScalarAccessPlace_noIndex h
  · simp only [executableLocalAddressDerefPlace, Bool.and_eq_true] at h
    exact isDeref_noIndex h.1.1.1
  · simp only [executableGuardedLocalScalarDerefPlace, Bool.and_eq_true] at h
    exact isDeref_noIndex h.1.1.1
  · simp only [executableGlobalPointerDerefPlace, Bool.and_eq_true] at h
    exact isDeref_noIndex h.1.1.1
  · simp only [isComputedRawManyDerefPlace, Bool.and_eq_true] at h
    exact isDeref_noIndex h.1.1

/-! ## Walking the projections -/

/-- The type behind a projection, whether or not it is the dereference of the root. -/
def walkStep (body : ExecutableBody) (current : ValueType × TypeId) (projection : Projection) :
    Option (ValueType × TypeId) :=
  match projection with
  | .deref => do
    let child ← pointee current.1 false
    let aggregate ← body.aggregateTypes.find? fun candidate => candidate.ty == .struct child
    some (aggregate.ty, aggregate.typeId)
  | projection => projectionStep body current projection

/-- The type that the projections before position `n` lead to from the root. -/
def typeBefore (body : ExecutableBody) (place : ExecutablePlace) (n : ℕ) :
    Option (ValueType × TypeId) :=
  (place.projections.take n).foldlM (walkStep body) (place.rootTy, place.rootTypeId)

lemma projectionStep_le_walkStep {projection : Projection}
    (h : projectionStep body current projection = some next) :
    walkStep body current projection = some next := by
  cases projection with
  | field fieldIndex | index projection => exact h
  | deref => simp [projectionStep] at h

lemma foldlM_walkStep {projections : List Projection} {start reached : ValueType × TypeId}
    (h : projections.foldlM (projectionStep body) start = some reached) :
    projections.foldlM (walkStep body) start = some reached := by
  induction projections generalizing start with
  | nil => exact h
  | cons projection projections ih =>
    rw [List.foldlM_cons] at h ⊢
    obtain ⟨next, hstep, hrest⟩ := Option.bind_eq_some_iff.mp h
    rw [projectionStep_le_walkStep hstep]
    exact ih hrest

/-- A fixed-array place is a walk from its root along all its projections. -/
lemma exists_walk_of_fixedArrayIndexPlace
    (h : (executableFixedArrayIndexPlace body place).isSome = true) :
    ∃ reached, place.projections.foldlM (walkStep body) (place.rootTy, place.rootTypeId) =
      some reached := by
  obtain ⟨indexed, h⟩ := Option.isSome_iff_exists.mp h
  unfold executableFixedArrayIndexPlace at h
  split at h
  swap
  · cases h
  obtain ⟨start, hstart, h⟩ := Option.bind_eq_some_iff.mp h
  obtain ⟨reached, hreached, -⟩ := Option.bind_eq_some_iff.mp h
  refine ⟨reached, ?_⟩
  unfold projectionStart at hstart
  split at hstart
  · rename_i projections hprojections
    split at hstart
    swap
    · cases hstart
    unfold derefStart at hstart
    obtain ⟨isParameter, -, hstart⟩ := Option.bind_eq_some_iff.mp hstart
    obtain ⟨child, hchild, hstart⟩ := Option.bind_eq_some_iff.mp hstart
    obtain ⟨aggregate, haggregate, hstart⟩ := Option.bind_eq_some_iff.mp hstart
    split at hstart
    swap
    · cases hstart
    have hderef : walkStep body (place.rootTy, place.rootTypeId) .deref =
        some (aggregate.ty, aggregate.typeId) := by
      simp only [walkStep, hchild, haggregate, Option.bind_eq_bind, Option.bind_some]
    rw [← Option.some.inj hstart] at hreached
    rw [hprojections, List.foldlM_cons, hderef]
    exact foldlM_walkStep hreached
  · rw [← Option.some.inj hstart] at hreached
    exact foldlM_walkStep hreached

/-- An element that the walk takes lies in an array of known length, and its index is checked
or a literal below that length. -/
lemma elementStep_eq_some {projection : IndexProjection}
    (h : elementStep body current projection = some next) :
    ∃ index array length, body.expression projection.value = some index ∧
      current.1 = .array array ∧ array.length = some length ∧
      (projection.checked = true ∨
        ∃ magnitude, integerLiteral index = some magnitude ∧ magnitude < length) := by
  unfold elementStep at h
  obtain ⟨bound, -, h⟩ := Option.bind_eq_some_iff.mp h
  obtain ⟨index, hindex, h⟩ := Option.bind_eq_some_iff.mp h
  obtain ⟨shape, -, h⟩ := Option.bind_eq_some_iff.mp h
  obtain ⟨element, -, h⟩ := Option.bind_eq_some_iff.mp h
  split at h
  swap
  · cases h
  rename_i array hcurrent
  split at h
  swap
  · cases h
  rename_i hchecks
  simp only [Bool.and_eq_true, Bool.or_eq_true, beq_iff_eq] at hchecks
  obtain ⟨⟨⟨⟨⟨_, hlength⟩, _⟩, _⟩, _⟩, hindexed⟩ := hchecks
  refine ⟨index, array, bound, hindex, hcurrent, hlength, ?_⟩
  rcases hindexed with hchecked | hliteral
  · exact .inl hchecked
  · obtain ⟨magnitude, hmagnitude, hlt⟩ := (Option.any_eq_true _ _).mp hliteral
    exact .inr ⟨magnitude, hmagnitude, of_decide_eq_true hlt⟩

end ModernC.Mir.Typed
