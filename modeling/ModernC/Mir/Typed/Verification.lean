import ModernC.Mir.Typed.Places

/-!
# Verification of typed bodies

The checks of `mir_executable_body.zig` on types, places, memory accesses, trap edges and
tagged unions.  `verify` runs them after the checks of the erased body.  What the remaining
checks read (the operations under `other`, the aggregate, enum and result tables, callable and
trait signatures, the case values of a switch, the trap edges of the control-flow graph that
no executable edge stands for) is left out; those checks only reject more bodies.
-/

namespace ModernC.Mir.Typed

open Framework
open Types (ValueType)

inductive TypedError where
  | ofControl (error : VerifyError)
  | invalidFunctionSignature
  | invalidTypeReference
  | invalidSpanReference
  | invalidExpressionReference
  | invalidEvaluationOrder
  | invalidLocalIdentity
  | invalidLocalReference
  | invalidSymbolIdentity
  | invalidSymbolReference
  | invalidPlaceReference
  | invalidPlaceIdentity
  | invalidPlaceType
  | invalidMemoryAccessType
  | invalidMemoryAccessAlignment
  | invalidMemoryAccessKind
  | invalidMemoryAccessTrap
  | invalidGlobalSymbol
  | immutableGlobalStore
  | invalidStoreType
  | invalidReturnStatement
  | invalidAggregateType
  | invalidAggregateConstruction
  | invalidTrapEdge
  | invalidCompletionClaim
deriving DecidableEq

abbrev TypedCheck := Except TypedError Unit

/-! ## References -/

def TypeIdentity.matches (self : TypeIdentity) (ty : ValueType) : Bool :=
  self.spelling == ty.name && self.ty.all (· == ty)

def verifyType (function : Function) (id : TypeId) (ty : ValueType) : TypedCheck :=
  if id.isValid then
    ensure ((entryNamed function.typeIdentities TypeIdentity.id id).any (·.matches ty))
      .invalidTypeReference
  else ensure (!function.executableBody.complete) .invalidTypeReference

def verifySpanId (function : Function) (id : SpanId) : TypedCheck :=
  ensure (entryNamed function.spanIdentities SpanIdentity.id id).isSome .invalidSpanReference

def verifyLocal (body : ExecutableBody) (id : LocalId) : TypedCheck :=
  ensure (body.local_ id).isSome .invalidLocalReference

def verifySymbol (body : ExecutableBody) (id : SymbolId) : TypedCheck :=
  ensure (body.symbol id).isSome .invalidSymbolReference

def verifyExpr (body : ExecutableBody) (id : ExprId) : TypedCheck :=
  ensure (body.expression id).isSome .invalidExpressionReference

/-- An operand is evaluated before its consumer, by the same statement. -/
def verifyOperand (body : ExecutableBody) (consumer : ExecutableExpression) (id : ExprId) :
    TypedCheck :=
  match body.expression id with
  | none => .error .invalidExpressionReference
  | some operand =>
    ensure (decide (operand.id.index < consumer.id.index) &&
      operand.blockId.eql consumer.blockId && operand.ownerStatement.eql consumer.ownerStatement)
      .invalidEvaluationOrder

def verifyStatementExpr (body : ExecutableBody) (owner : ExecutableStatement) (id : ExprId) :
    TypedCheck :=
  match body.expression id with
  | none => .error .invalidExpressionReference
  | some value =>
    ensure (value.ownerStatement.eql owner.id && value.blockId.eql owner.blockId)
      .invalidEvaluationOrder

/-! ## Owned trap edges -/

def ownedTrapCount (body : ExecutableBody) (owner : TrapOwner) (kind : TrapKind)
    (source : TrapSource) : ℕ :=
  body.trapEdges.countP fun edge =>
    edge.owner == owner && edge.kind == kind && edge.source == source

def ownedTrapCountAll (body : ExecutableBody) (owner : TrapOwner) : ℕ :=
  body.trapEdges.countP fun edge => edge.owner == owner

def ExecutableTrapEdge.isBounds (edge : ExecutableTrapEdge) : Bool :=
  edge.kind == .bounds && edge.source == .boundsCheck

def ExecutableTrapEdge.isRepresentation (edge : ExecutableTrapEdge) : Bool :=
  edge.kind == .invalidRepresentation && edge.source == .representationCheck

def indexedProjectionForSpan (body : ExecutableBody) (target : ExecutablePlace)
    (spanId : SpanId) : Option IndexProjection :=
  (executableFixedArrayProjectionForSpan body target spanId).orElse fun _ =>
    (executableSliceIndexPlace body target).filter fun projection => projection.spanId.eql spanId

/-- The edges of an owner for the projection at a span. -/
def projectionEdges (body : ExecutableBody) (owner : TrapOwner) (spanId : SpanId) :
    List ExecutableTrapEdge :=
  body.trapEdges.filter fun edge => edge.owner == owner && edge.spanId.eql spanId

/-- The edge leaves the block for an executable block that traps on bounds. -/
def boundsEdgeFrom (body : ExecutableBody) (blockId : BlockId) (edge : ExecutableTrapEdge) :
    Bool :=
  edge.fromBlock.eql blockId && edge.isBounds &&
    (body.executableTerminator edge.trapBlock).any fun trap => trap.operation == .trap_ .bounds

/-- Every checked index projection of the place owns one edge, and there are no others but
the additional ones. -/
def indexedBoundsEdgesExact (body : ExecutableBody) (owner : TrapOwner) (blockId : BlockId)
    (target : ExecutablePlace) (additionalTraps : ℕ) : Bool :=
  ((executableFixedArrayIndexPlace body target).isSome ||
    (executableSliceIndexPlace body target).isSome) &&
  ownedTrapCountAll body owner ==
    executableCheckedIndexProjectionCount target + additionalTraps &&
  ownedTrapCount body owner .bounds .boundsCheck ==
    executableCheckedIndexProjectionCount target &&
  (target.indexProjections.filter IndexProjection.checked).all fun projection =>
    (projectionEdges body owner projection.spanId).length == 1 &&
      (projectionEdges body owner projection.spanId).all (boundsEdgeFrom body blockId)

/-- A guarded access owns one representation edge and names its span. -/
def verifyRepresentation (function : Function) (owner : TrapOwner) (guarded : Bool)
    (representationSpanId : SpanId) : TypedCheck :=
  if guarded then do
    verifySpanId function representationSpanId
    ensure (ownedTrapCount function.executableBody owner .invalidRepresentation
      .representationCheck == 1) .invalidMemoryAccessTrap
  else ensure (!representationSpanId.isValid) .invalidMemoryAccessTrap

/-! ## Memory accesses -/

def globalAccessKind (body : ExecutableBody) (id : SymbolId) (isStore : Bool) :
    Except TypedError MemoryAccessKind :=
  match body.symbol id with
  | none => .error .invalidSymbolReference
  | some identity =>
    if identity.kind != .global || (isStore && !identity.mutable) then
      .error .invalidMemoryAccessType
    else .ok (if identity.mutable then .raceUnordered else .plain)

/-- The access class of storage that is reached without a pointer. -/
def directAccessKind (body : ExecutableBody) (target : ExecutablePlace) (isStore : Bool) :
    Except TypedError MemoryAccessKind :=
  match target.root with
  | .ofLocal _ => .ok .plain
  | .ofSymbol id => globalAccessKind body id isStore
  | .ofValue _ => .error .invalidPlaceType

/-- A slice is indexed through a parameter or a value whose representation is checked. -/
def sliceRootValid (body : ExecutableBody) (target : ExecutablePlace) : Bool :=
  match target.root with
  | .ofLocal localId => parameterHasType body localId target.rootTy target.rootTypeId
  | .ofValue _ => executableCheckedSliceValueRoot body target
  | .ofSymbol _ => false

def projectedAccessKind (body : ExecutableBody) (target : ExecutablePlace) (ty : ValueType)
    (isStore : Bool) : Except TypedError MemoryAccessKind :=
  if (executableFixedArrayIndexPlace body target).isSome then
    if executableFixedArrayIndirectPointeePlace body target isStore then .ok .raceUnordered
    else directAccessKind body target isStore
  else if (executableSliceIndexPlace body target).isSome then
    if sliceRootValid body target then .ok .raceUnordered else .error .invalidPlaceType
  else if executableAggregateFieldPlace body target isStore then
    directAccessKind body target isStore
  else if isScalarAccessPlace body target isStore ||
      ((executableAggregateCopyAlignment ty).isSome &&
        (executableGuardedLocalAggregateDerefPlace body target isStore ||
          executableParameterProjectedPlace body target isStore)) then
    match executablePointerDerefAccessKind body target with
    | some kind => .ok kind
    | none => .error .invalidPlaceType
  else .error .invalidPlaceType

def wholeAccessKind (body : ExecutableBody) (target : ExecutablePlace) (isStore : Bool) :
    Except TypedError MemoryAccessKind :=
  match target.root with
  | .ofLocal _ => .ok .plain
  | .ofSymbol id =>
    match body.symbol id with
    | none => .error .invalidSymbolReference
    | some identity =>
      if identity.kind != .global then .error .invalidGlobalSymbol
      else if isStore && !identity.mutable then .error .immutableGlobalStore
      else if executableAggregateRequiresPlainAccess body target.typeId target.ty then .ok .plain
      else .ok (if identity.mutable then .raceUnordered else .plain)
  | .ofValue _ => .error .invalidPlaceType

def expectedAccessKind (body : ExecutableBody) (target : ExecutablePlace) (ty : ValueType)
    (isStore : Bool) : Except TypedError MemoryAccessKind :=
  if target.projections.isEmpty then wholeAccessKind body target isStore
  else projectedAccessKind body target ty isStore

def verifyMemoryAccess (body : ExecutableBody) (target : ExecutablePlace) (ty : ValueType)
    (access : ExecutableMemoryAccess) (isStore : Bool) : TypedCheck := do
  ensure (target.storage == .ordinary) .invalidMemoryAccessType
  ensure (target.ty == ty) .invalidPlaceType
  match executableMemoryAlignment body.enumTypes ty with
  | none => .error .invalidMemoryAccessType
  | some alignment =>
    ensure (access.alignment == alignment) .invalidMemoryAccessAlignment
    ensure (!((executableAggregateCopyAlignment ty).isSome && access.kind == .raceUnordered &&
      !executableRaceAggregateTypeSupported body target.typeId target.ty)) .invalidMemoryAccessType
    let kind ← expectedAccessKind body target ty isStore
    ensure (access.kind == kind) .invalidMemoryAccessKind

/-- A root that is a value is an operand of the expression that accesses the place. -/
def verifyRootOperand (body : ExecutableBody) (value : ExecutableExpression)
    (target : ExecutablePlace) : TypedCheck :=
  match target.root with
  | .ofValue id => verifyOperand body value id
  | _ => .ok ()

/-- A load of fixed-array elements owns its bounds edges; any other load owns a
representation edge or none. -/
def verifyLoad (function : Function) (value : ExecutableExpression) (placeId : PlaceId)
    (access : ExecutableMemoryAccess) (representationSpanId : SpanId) : TypedCheck :=
  let body := function.executableBody
  let owner := TrapOwner.expression value.id
  match body.place placeId with
  | none => .error .invalidPlaceReference
  | some target => do
    ensure (target.storage == .ordinary) .invalidMemoryAccessType
    verifyRootOperand body value target
    if body.complete then
      verifyMemoryAccess body target value.resultTy access false
      match executableFixedArrayIndexPlace body target with
      | some indexed =>
        verifyRepresentation function owner indexed.indirectPointee representationSpanId
        ensure (indexedBoundsEdgesExact body owner value.blockId target
          indexed.indirectPointee.toNat) .invalidMemoryAccessTrap
      | none =>
        let guarded := placeNeedsRepresentationGuard body target
        verifyRepresentation function owner guarded representationSpanId
        ensure (ownedTrapCountAll body owner == guarded.toNat) .invalidMemoryAccessTrap

def addressResultMatchesPlace (resultTy placeTy : ValueType) : Bool :=
  pointee resultTy false == some placeTy.name

def verifyAddressOf (function : Function) (value : ExecutableExpression) (placeId : PlaceId)
    (representationSpanId : SpanId) : TypedCheck :=
  let body := function.executableBody
  let owner := TrapOwner.expression value.id
  match body.place placeId with
  | none => .error .invalidPlaceReference
  | some target => do
    ensure (target.storage == .ordinary) .invalidPlaceType
    verifyRootOperand body value target
    if body.complete then
      ensure (addressResultMatchesPlace value.resultTy target.ty) .invalidPlaceType
      if (executableSliceIndexPlace body target).isSome then
        ensure (!representationSpanId.isValid &&
          indexedBoundsEdgesExact body owner value.blockId target 0) .invalidMemoryAccessTrap
      else
        match executableFixedArrayIndexPlace body target with
        | some indexed =>
          ensure (fixedArrayAddressableRoot body target) .invalidMemoryAccessTrap
          verifyRepresentation function owner indexed.indirectPointee representationSpanId
          ensure (indexedBoundsEdgesExact body owner value.blockId target
            indexed.indirectPointee.toNat) .invalidMemoryAccessTrap
        | none =>
          if executableAggregateFieldPlace body target false then
            ensure (!representationSpanId.isValid && ownedTrapCountAll body owner == 0)
              .invalidMemoryAccessTrap
          else if target.projections.isEmpty then
            ensure (directAddressablePlace body target && !representationSpanId.isValid &&
              ownedTrapCountAll body owner == 0) .invalidMemoryAccessTrap
          else if isComputedRawManyDerefPlace body target false then
            ensure (!representationSpanId.isValid && ownedTrapCountAll body owner == 0)
              .invalidMemoryAccessTrap
          else do
            ensure (executableParameterProjectedPlace body target false ||
              ((isSingleParameterDerefPlace body target false ||
                executableLocalAddressDerefPlace body target false) &&
                value.resultTy == target.rootTy)) .invalidPlaceType
            verifyRepresentation function owner true representationSpanId
            ensure (ownedTrapCountAll body owner == 1) .invalidMemoryAccessTrap

/-! ## Elements and sub-slices of values -/

/-- The statically known length that an index is checked against: that of a fixed array. -/
def verifyIndexBase (body : ExecutableBody) (value base : ExecutableExpression)
    (kind : IndexKind) (bound : Option ℕ) : TypedCheck :=
  match kind with
  | .fixedArray =>
    match base.resultTy, body.aggregateType base.typeId with
    | .array array, some aggregate =>
      ensure (bound.isSome && array.length == bound && bound != some 0 &&
        aggregate.ty == base.resultTy && aggregate.arrayLength == bound &&
        aggregate.fields.head? == some ⟨value.resultTy, value.typeId⟩) .invalidAggregateType
    | _, _ => .error .invalidAggregateType
  | .slice =>
    ensure (bound.isNone && sliceChild base.resultTy == some value.resultTy.name)
      .invalidAggregateType

/-- A checked operation owns one bounds edge and no other. -/
def ownsOneBoundsEdge (body : ExecutableBody) (owner : TrapOwner) : Bool :=
  ownedTrapCountAll body owner == 1 && ownedTrapCount body owner .bounds .boundsCheck == 1

/-- The operand belongs to the statement and the block of its consumer and is a `usize`. -/
def isIndexOperand (consumer operand : ExecutableExpression) : Bool :=
  operand.blockId.eql consumer.blockId &&
    operand.ownerStatement.eql consumer.ownerStatement && operand.resultTy == .integer "usize"

def verifyIndexProjection (body : ExecutableBody) (value : ExecutableExpression)
    (baseId indexId : ExprId) (kind : IndexKind) (bound : Option ℕ) (checked : Bool) :
    TypedCheck :=
  match body.expression baseId, body.expression indexId with
  | some base, some index => do
    ensure (base.blockId.eql value.blockId && base.ownerStatement.eql value.ownerStatement &&
      isIndexOperand value index) .invalidAggregateType
    verifyIndexBase body value base kind bound
    if checked then
      ensure (ownsOneBoundsEdge body (.expression value.id)) .invalidMemoryAccessTrap
    else
      ensure (ownedTrapCountAll body (.expression value.id) == 0 && kind == .fixedArray &&
        (integerLiteral index).any fun magnitude => bound.any (magnitude < ·))
        .invalidMemoryAccessTrap
  | _, _ => .error .invalidExpressionReference

/-- The length of the sliced value, if it is a fixed array of the element type. -/
def rangeSliceBound (body : ExecutableBody) (base : ExecutableExpression) (child : String) :
    Except TypedError (Option ℕ) :=
  match base.resultTy with
  | .array array =>
    match array.length, body.aggregateType base.typeId with
    | some length, some aggregate =>
      if aggregate.arrayLength == some length && aggregate.ty == base.resultTy &&
          (aggregate.fields.head?.any fun field => field.ty.name == child) then .ok (some length)
      else .error .invalidAggregateType
    | _, _ => .error .invalidAggregateType
  | ty => if sliceChild ty == some child then .ok none else .error .invalidAggregateType

/-- The element type of a slice pointer, the only type of a sub-slice. -/
def slicePointerChild : ValueType → Option String
  | .pointer shape => if shape.kind == .slice then some shape.child else none
  | _ => none

def verifyRangeSlice (body : ExecutableBody) (value : ExecutableExpression)
    (baseId startId stopId : ExprId) (checked : Bool) : TypedCheck :=
  match body.expression baseId, body.expression startId, body.expression stopId with
  | some base, some start, some stop => do
    ensure (base.blockId.eql value.blockId && base.ownerStatement.eql value.ownerStatement &&
      isIndexOperand value start && isIndexOperand value stop) .invalidAggregateType
    match slicePointerChild value.resultTy with
    | none => .error .invalidAggregateType
    | some child =>
      let bound ← rangeSliceBound body base child
      if checked then
        ensure (ownsOneBoundsEdge body (.expression value.id)) .invalidMemoryAccessTrap
      else
        ensure (ownedTrapCountAll body (.expression value.id) == 0 &&
          bound.any fun length => (integerLiteral start).any fun first =>
            (integerLiteral stop).any fun last => decide (first ≤ last) && decide (last ≤ length))
          .invalidMemoryAccessTrap
  | _, _, _ => .error .invalidExpressionReference

/-! ## Tagged unions -/

def verifyTaggedUnionConstruction (body : ExecutableBody) (value : ExecutableExpression)
    (caseIndex : ℕ) (payloadId : Option ExprId) : TypedCheck :=
  match body.taggedUnionType value.typeId with
  | none => .error .invalidAggregateConstruction
  | some tagged =>
    match tagged.cases[caseIndex]? with
    | none => .error .invalidAggregateConstruction
    | some case_ => do
      ensure (tagged.ty == value.resultTy) .invalidAggregateConstruction
      if case_.hasPayload then
        ensure ((payloadId.bind body.expression).any fun payload =>
          payload.resultTy == case_.payloadTy && payload.typeId.eql case_.payloadTypeId)
          .invalidAggregateConstruction
      else ensure payloadId.isNone .invalidAggregateConstruction

def verifyTaggedUnionTag (body : ExecutableBody) (value : ExecutableExpression)
    (operandId : ExprId) : TypedCheck :=
  match body.expression operandId with
  | none => .error .invalidExpressionReference
  | some operand =>
    match body.taggedUnionType operand.typeId with
    | none => .error .invalidAggregateConstruction
    | some tagged =>
      ensure (operand.resultTy == tagged.ty && value.resultTy == .integer "u32" &&
        value.typeId.eql tagged.tagTypeId) .invalidAggregateConstruction

def expressionLocal (body : ExecutableBody) (id : ExprId) : Option LocalId :=
  (body.expression id).bind fun value =>
    match value.operation with
    | .ofLocal localId => some localId
    | _ => none

/-- The block of the tag expression switches on it and enters the block in the case. -/
def switchesInto (body : ExecutableBody) (tag : ExecutableExpression) (caseIndex : ℕ)
    (blockId : BlockId) : Bool :=
  (body.executableTerminator tag.blockId).any fun terminator =>
    match terminator.operation with
    | .switch_ subject cases _ => subject.eql tag.id && cases.any fun case_ =>
      case_.value == .unsigned caseIndex && case_.target.eql blockId
    | _ => false

/-- Some switch on a tag of the operand's local enters the block of the payload in its case. -/
def taggedUnionPayloadHasCaseEdge (body : ExecutableBody) (value : ExecutableExpression)
    (operandId : ExprId) (caseIndex : ℕ) : Bool :=
  (expressionLocal body operandId).any fun payloadLocal =>
    body.expressions.any fun tag =>
      match tag.operation with
      | .taggedUnionTag tagOperand =>
        ((expressionLocal body tagOperand).any fun tagLocal => tagLocal.eql payloadLocal) &&
          switchesInto body tag caseIndex value.blockId
      | _ => false

def verifyTaggedUnionPayload (body : ExecutableBody) (value : ExecutableExpression)
    (operandId : ExprId) (caseIndex : ℕ) : TypedCheck :=
  match body.expression operandId with
  | none => .error .invalidExpressionReference
  | some operand =>
    match body.taggedUnionType operand.typeId with
    | none => .error .invalidAggregateConstruction
    | some tagged =>
      match tagged.cases[caseIndex]? with
      | none => .error .invalidAggregateConstruction
      | some case_ =>
        ensure (operand.resultTy == tagged.ty && case_.hasPayload &&
          value.resultTy == case_.payloadTy && value.typeId.eql case_.payloadTypeId &&
          taggedUnionPayloadHasCaseEdge body value operandId caseIndex)
          .invalidAggregateConstruction

/-- `std.math.maxInt(u64)`. -/
def maxU64 : ℕ := 18446744073709551615

/-- The next multiple of an alignment, which is a power of two; none on overflow. -/
def alignUp (size alignment : ℕ) : Option ℕ :=
  if size + (alignment - 1) ≤ maxU64 then
    some (size + (alignment - 1) - (size + (alignment - 1)) % alignment)
  else none

/-- The layout fields are those of a `u32` tag followed by the aligned payload. -/
def taggedUnionLayoutValid (tagged : ExecutableTaggedUnionType) : Bool :=
  tagged.payloadAlignment ∈ [1, 2, 4, 8] && tagged.size != 0 && tagged.payloadSize != 0 &&
    (let align := tagged.payloadAlignment
    let padding := (align - 4 % align) % align
    (alignUp tagged.payloadSize align).any fun payloadSize =>
      let storage := max 1 (payloadSize / align)
      decide (4 + padding + storage * align ≤ maxU64) &&
        tagged.alignment == max 4 align && tagged.paddingSize == padding &&
        tagged.storageCount == storage &&
        alignUp (4 + padding + storage * align) (max 4 align) == some tagged.size &&
        tagged.payloadFieldIndex == if padding = 0 then 1 else 2)

def isTaggedUnion : ValueType → Bool
  | .taggedUnion _ => true
  | _ => false

/-- `max_executable_switch_cases`. -/
def maxExecutableSwitchCases : ℕ := 8

def verifyTaggedUnionCase (function : Function) (case_ : TaggedUnionCase) : TypedCheck := do
  ensure (case_.spelling != "") .invalidAggregateType
  if case_.hasPayload then
    ensure (case_.payloadTypeId.isValid &&
      !([ValueType.unknown, .value, .void, .never].contains case_.payloadTy)) .invalidAggregateType
    verifyType function case_.payloadTypeId case_.payloadTy
  else ensure (!case_.payloadTypeId.isValid && case_.payloadTy == .void) .invalidAggregateType

def verifyTaggedUnionType (function : Function) (tagged : ExecutableTaggedUnionType)
    (index : ℕ) : TypedCheck := do
  let body := function.executableBody
  ensure (tagged.typeId.isValid && tagged.tagTypeId.isValid && isTaggedUnion tagged.ty &&
    !tagged.cases.isEmpty && decide (tagged.cases.length ≤ maxExecutableSwitchCases) &&
    taggedUnionLayoutValid tagged) .invalidAggregateType
  verifyType function tagged.typeId tagged.ty
  verifyType function tagged.tagTypeId (.integer "u32")
  ensure (!((body.taggedUnionTypes.take index).any fun previous =>
    previous.typeId.eql tagged.typeId || previous.ty == tagged.ty)) .invalidAggregateType
  ensure (decide (tagged.cases.map TaggedUnionCase.spelling).Nodup) .invalidAggregateType
  tagged.cases.forM (verifyTaggedUnionCase function)

/-! ## Expressions -/

def verifyOperation (function : Function) (value : ExecutableExpression) : TypedCheck :=
  let body := function.executableBody
  match value.operation with
  | .ofLocal id => verifyLocal body id
  | .ofSymbol id => verifySymbol body id
  | .load place access representationSpanId =>
    verifyLoad function value place access representationSpanId
  | .addressOf place representationSpanId =>
    verifyAddressOf function value place representationSpanId
  | .index base index kind bound checked => do
    verifyOperand body value base
    verifyOperand body value index
    if body.complete then verifyIndexProjection body value base index kind bound checked
  | .rangeSlice base start stop checked => do
    verifyOperand body value base
    verifyOperand body value start
    verifyOperand body value stop
    if body.complete then verifyRangeSlice body value base start stop checked
  | .representationCheck operand _ => verifyOperand body value operand
  | .variantPayload operand _ => verifyOperand body value operand
  | .taggedUnionConstruct caseIndex payload => do
    payload.toList.forM (verifyOperand body value)
    if body.complete then verifyTaggedUnionConstruction body value caseIndex payload
  | .taggedUnionTag operand => do
    verifyOperand body value operand
    if body.complete then verifyTaggedUnionTag body value operand
  | .taggedUnionPayload operand caseIndex => do
    verifyOperand body value operand
    if body.complete then verifyTaggedUnionPayload body value operand caseIndex
  | .literal _ | .directCall | .indirectCall | .builtinCall _ | .tryPropagate _
  | .tryMapError _ | .other => .ok ()

def verifyTypedExpression (function : Function) (value : ExecutableExpression) : TypedCheck := do
  verifyType function value.typeId value.resultTy
  verifyOperation function value

/-! ## Trap edges -/

/-- The indirect accesses that own a representation edge, the same for loads and stores. -/
def ownsRepresentationEdge (body : ExecutableBody) (target : ExecutablePlace)
    (isStore : Bool) : Bool :=
  isParameterScalarAccessPlace body target isStore ||
    executableParameterProjectedPlace body target isStore ||
    executableLocalAddressDerefPlace body target isStore ||
    executableGuardedLocalScalarDerefPlace body target isStore ||
    executableGuardedLocalAggregateDerefPlace body target isStore ||
    executableGlobalPointerDerefPlace body target isStore ||
    (executableAggregatePointerFieldDerefPlace body target isStore).isSome ||
    executableFixedArrayIndirectPointeePlace body target isStore

def loadEdgeSpan (body : ExecutableBody) (placeId : PlaceId) (representationSpanId : SpanId)
    (edge : ExecutableTrapEdge) (isStore : Bool) : Option SpanId := do
  let target ← body.place placeId
  if edge.isBounds then (indexedProjectionForSpan body target edge.spanId).map (·.spanId)
  else if (isStore || target.storage == .ordinary) &&
      ownsRepresentationEdge body target isStore && edge.isRepresentation then
    some representationSpanId
  else none

def addressEdgeSpan (body : ExecutableBody) (placeId : PlaceId) (representationSpanId : SpanId)
    (edge : ExecutableTrapEdge) : Option SpanId := do
  let target ← body.place placeId
  let indexed := executableFixedArrayIndexPlace body target
  if edge.isBounds then
    if indexed.isSome && !fixedArrayAddressableRoot body target then none
    else (indexedProjectionForSpan body target edge.spanId).map (·.spanId)
  else if (isSingleParameterDerefPlace body target false ||
      executableLocalAddressDerefPlace body target false ||
      executableParameterProjectedPlace body target false ||
      indexed.any FixedArrayIndexPlace.indirectPointee) && edge.isRepresentation then
    some representationSpanId
  else none

/-- The span of the operation that may own the edge.  The edges of the builtin calls and of
the operations under `other` are not constrained here. -/
def expressionEdgeSpan (body : ExecutableBody) (owner : ExecutableExpression)
    (edge : ExecutableTrapEdge) : Option SpanId :=
  match owner.operation with
  | .load place _ representationSpanId => loadEdgeSpan body place representationSpanId edge false
  | .addressOf place representationSpanId => addressEdgeSpan body place representationSpanId edge
  | .representationCheck _ _ => if edge.isRepresentation then some owner.spanId else none
  | .index _ _ _ _ checked => if checked && edge.isBounds then some owner.spanId else none
  | .rangeSlice _ _ _ checked => if checked && edge.isBounds then some owner.spanId else none
  | .builtinCall _ | .other => some edge.spanId
  | _ => none

def statementEdgeSpan (body : ExecutableBody) (owner : ExecutableStatement)
    (edge : ExecutableTrapEdge) : Option SpanId :=
  match owner.operation with
  | .store store => loadEdgeSpan body store.place store.representationSpanId edge true
  | .guard kind condition => do
    let value ← body.expression condition
    let trap ← body.executableTerminator edge.trapBlock
    if kind == .assert_ && value.resultTy == .bool && value.ownerStatement.eql owner.id &&
        value.blockId.eql owner.blockId && edge.kind == .assert && edge.source == .assertStmt &&
        trap.operation == .trap_ .assert then
      some owner.spanId
    else none
  | _ => none

/-- The block of the owner of an edge, and the span that the edge has to carry. -/
def edgeOwner (body : ExecutableBody) (edge : ExecutableTrapEdge) : Option (BlockId × SpanId) :=
  match edge.owner with
  | .expression id => do
    let owner ← body.expression id
    let spanId ← expressionEdgeSpan body owner edge
    some (owner.blockId, spanId)
  | .statement id => do
    let owner ← body.statement id
    let spanId ← statementEdgeSpan body owner edge
    some (owner.blockId, spanId)

def verifyTrapEdge (function : Function) (edge : ExecutableTrapEdge) (index : ℕ) :
    TypedCheck := do
  let body := function.executableBody
  verifySpanId function edge.spanId
  ensure ((edgeOwner body edge).any fun (blockId, spanId) =>
    blockId.eql edge.fromBlock && spanId.eql edge.spanId) .invalidTrapEdge
  ensure ((blockById function edge.fromBlock).any fun source =>
    source.successors.any (·.eql edge.trapBlock)) .invalidTrapEdge
  ensure ((blockById function edge.trapBlock).any fun trap =>
    trap.terminator == .trap_ edge.kind) .invalidTrapEdge
  ensure (function.trapEdges.countP (fun legacy =>
    legacy.fromBlock.eql edge.fromBlock && legacy.trapBlock.eql edge.trapBlock &&
      legacy.kind == edge.kind && legacy.source == edge.source &&
      legacy.typedSpanId.eql edge.spanId) == 1) .invalidTrapEdge
  ensure (!((body.trapEdges.take index).any fun previous =>
    previous.owner == edge.owner && previous.trapBlock.eql edge.trapBlock &&
      previous.kind == edge.kind && previous.source == edge.source &&
      previous.spanId.eql edge.spanId)) .invalidTrapEdge

/-! ## Places and statements -/

/-- The kinds of places that a complete body may have: with projections, each of them is a
scalar access, an aggregate behind a pointer, or an element. -/
def isCompletePlaceKind (body : ExecutableBody) (place : ExecutablePlace) : Bool :=
  place.storage == .atomic || place.projections.isEmpty ||
    isScalarAccessPlace body place false ||
    executableGuardedLocalAggregateDerefPlace body place false ||
    executableParameterProjectedPlace body place false ||
    (executableFixedArrayIndexPlace body place).isSome ||
    (executableSliceIndexPlace body place).isSome

def rootPointer (place : ExecutablePlace) : Bool :=
  place.rootLocal.isSome && place.projections.head? == some .deref

def verifyCompletePlace (body : ExecutableBody) (place : ExecutablePlace) : TypedCheck := do
  if place.rootNonnullProven then
    ensure (rootPointer place &&
      (place.rootLocal.any fun localId =>
        executableLocalInitializedByOptionalPresentPayload body localId ||
          executableLocalInitializedByCheckedPointer body localId) &&
      (pointee place.rootTy false).isSome) .invalidPlaceType
  if place.pointerProvenance != .unknown then
    ensure (rootPointer place && match place.rootTy with
      | .pointer _ => true
      | _ => false) .invalidPlaceType
  ensure (place.storage == .atomic || place.projections.isEmpty ||
    (executableAggregateCopyAlignment place.ty).isSome ||
    (executableFixedArrayIndexPlace body place).isSome ||
    (executableSliceIndexPlace body place).isSome || isScalarAccessPlace body place false)
    .invalidPlaceType

def verifyPlaceRoot (body : ExecutableBody) (root : PlaceRoot) : TypedCheck :=
  match root with
  | .ofLocal id => verifyLocal body id
  | .ofSymbol id => verifySymbol body id
  | .ofValue id => verifyExpr body id

def verifyPlace (function : Function) (place : ExecutablePlace) (index : ℕ) : TypedCheck := do
  let body := function.executableBody
  ensure (place.id.isValid && place.id.index == index &&
    decide (place.projections.length ≤ maxExecutableProjections)) .invalidPlaceIdentity
  verifySpanId function place.spanId
  verifyType function place.rootTypeId place.rootTy
  verifyType function place.typeId place.ty
  verifyPlaceRoot body place.root
  place.indexProjections.forM fun projection => do
    verifyExpr body projection.value
    verifySpanId function projection.spanId
  if body.complete then verifyCompletePlace body place

/-- The stored value is evaluated before a root that is a value. -/
def verifyStoreRoot (body : ExecutableBody) (statement : ExecutableStatement) (store : Store)
    (target : ExecutablePlace) : TypedCheck :=
  match target.root with
  | .ofValue id => do
    verifyStatementExpr body statement id
    ensure (decide (store.value.index < id.index)) .invalidEvaluationOrder
  | _ => .ok ()

def verifyStore (function : Function) (statement : ExecutableStatement) (store : Store) :
    TypedCheck :=
  let body := function.executableBody
  let owner := TrapOwner.statement statement.id
  match body.place store.place with
  | none => .error .invalidPlaceReference
  | some target => do
    verifyStoreRoot body statement store target
    verifyType function store.typeId store.ty
    if body.complete then
      verifyMemoryAccess body target store.ty store.access true
      let guarded := placeNeedsRepresentationGuard body target
      let indexed := (executableFixedArrayIndexPlace body target).isSome ||
        (executableSliceIndexPlace body target).isSome
      verifyRepresentation function owner guarded store.representationSpanId
      ensure (!indexed || indexedBoundsEdgesExact body owner statement.blockId target
        guarded.toNat) .invalidMemoryAccessTrap
      ensure (ownedTrapCountAll body owner == guarded.toNat +
        if indexed then executableCheckedIndexProjectionCount target else 0)
        .invalidMemoryAccessTrap
    target.indexProjections.forM fun projection =>
      verifyStatementExpr body statement projection.value
    verifyStatementExpr body statement store.value
    ensure (!body.complete ||
      (body.expression store.value).any fun stored => stored.resultTy == store.ty)
      .invalidStoreType

def verifyTypedStatement (function : Function) (statement : ExecutableStatement) :
    TypedCheck :=
  let body := function.executableBody
  match statement.operation with
  | .localInit init => do
    verifyLocal body init.localId
    verifyType function init.typeId init.ty
    init.value.toList.forM (verifyStatementExpr body statement)
  | .store store => verifyStore function statement store
  | .packedFieldStore place value => do
    ensure (body.place place).isSome .invalidPlaceReference
    verifyStatementExpr body statement value
    ensure (ownedTrapCountAll body (.statement statement.id) == 0) .invalidMemoryAccessTrap
  | .eval value => verifyStatementExpr body statement value
  | .return_ (some id) =>
    ensure (!body.complete ||
      (body.expression id).any fun result => result.resultTy == function.returnTy)
      .invalidReturnStatement
  | .preciseAsm outputs => outputs.forM (verifyLocal body)
  | .guard _ _ | .return_ none | .controlTransfer | .opaqueAsm | .deferRegister _
  | .cleanupRun _ => .ok ()

/-! ## Declarations -/

def verifySignature (function : Function) : TypedCheck := do
  let parameters := function.executableBody.parameters
  ensure (function.isExtern || parameters.length == function.paramTypes.length)
    .invalidFunctionSignature
  ensure (parameters.length != function.paramTypes.length ||
    parameters.map ExecutableParameter.ty == function.paramTypes) .invalidFunctionSignature

def verifyParameter (function : Function) (parameter : ExecutableParameter) : TypedCheck := do
  verifyLocal function.executableBody parameter.localId
  verifySpanId function parameter.spanId
  verifyType function parameter.typeId parameter.ty

def verifyLocalIdentity (function : Function) (identity : ExecutableLocalIdentity)
    (index : ℕ) : TypedCheck := do
  ensure (identity.id.isValid && identity.id.index == index && identity.spelling != "")
    .invalidLocalIdentity
  if function.executableBody.complete then
    verifyType function identity.typeId identity.ty
    verifySpanId function identity.declarationSpanId

/-- The parameter and the initializing statement of a local agree with its declaration, and
there is exactly one of the two. -/
def verifyLocalDeclarationFacts (body : ExecutableBody) (identity : ExecutableLocalIdentity) :
    TypedCheck := do
  let parameters := body.parameters.filter fun parameter => parameter.localId.eql identity.id
  let initializers := body.localInits identity.id
  ensure (parameters.all fun parameter =>
    parameter.ty == identity.ty && parameter.typeId.eql identity.typeId &&
      parameter.spanId.eql identity.declarationSpanId && !identity.mutable) .invalidLocalIdentity
  ensure (initializers.all fun init =>
    init.ty == identity.ty && init.typeId.eql identity.typeId &&
      init.mutable == identity.mutable) .invalidLocalIdentity
  ensure ((parameters.length, initializers.length) ==
    if identity.kind = .parameter then (1, 0) else (0, 1)) .invalidLocalIdentity

/-- A body without any table. -/
def isEmptyBody (body : ExecutableBody) : Bool :=
  body.parameters.isEmpty && body.locals.isEmpty && body.symbols.isEmpty &&
    body.aggregateTypes.isEmpty && body.enumTypes.isEmpty && body.resultTypes.isEmpty &&
    body.taggedUnionTypes.isEmpty && body.expressions.isEmpty && body.places.isEmpty &&
    body.statements.isEmpty && body.terminators.isEmpty

def verify (function : Function) : TypedCheck := do
  let body := function.executableBody
  verifySignature function
  if !body.complete && isEmptyBody body then .ok ()
  else do
    (Mir.verify function.erase).mapError .ofControl
    verifyType function body.returnTypeId function.returnTy
    body.taggedUnionTypes.zipIdx.forM fun (tagged, index) =>
      verifyTaggedUnionType function tagged index
    body.locals.zipIdx.forM fun (identity, index) => verifyLocalIdentity function identity index
    body.symbols.zipIdx.forM fun (identity, index) =>
      ensure (identity.id.isValid && identity.id.index == index) .invalidSymbolIdentity
    body.parameters.forM (verifyParameter function)
    body.expressions.forM (verifyTypedExpression function)
    body.trapEdges.zipIdx.forM fun (edge, index) => verifyTrapEdge function edge index
    body.places.zipIdx.forM fun (place, index) => verifyPlace function place index
    body.statements.forM (verifyTypedStatement function)
    body.locals.forM (verifyLocalDeclarationFacts body)
    ensure (!body.complete || body.places.all (isCompletePlaceKind body)) .invalidCompletionClaim

end ModernC.Mir.Typed
