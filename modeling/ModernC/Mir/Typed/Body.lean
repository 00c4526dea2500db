import ModernC.Mir.ExecutableBody
import ModernC.Types.ValueType

/-!
# Typed executable bodies

The executable body of a function with its types, places, trap edges and type tables, as
`mir_model.zig` has it.  `Function.erase` forgets them and gives the body whose control flow
and cleanup `Mir.verify` checks.

Fixed-size arrays are the lists of their used entries.  An operation that reads no place,
takes no element and belongs to no tagged union is `other`.
-/

namespace ModernC.Mir.Typed

open Types (ValueType PointerShape)

abbrev TypeId := TypedIndex "TypeId"
abbrev LocalId := TypedIndex "LocalId"
abbrev PlaceId := TypedIndex "PlaceId"

/-! ## Places -/

inductive MemoryAccessKind where
  | plain
  | raceUnordered
deriving DecidableEq

structure ExecutableMemoryAccess where
  kind : MemoryAccessKind
  alignment : ℕ
deriving DecidableEq

inductive PlaceStorage where
  | ordinary
  | atomic
deriving DecidableEq

inductive PointerProvenance where
  | globalStorage
  | localStorage
  | unknown
deriving DecidableEq

inductive IndexKind where
  | fixedArray
  | slice
deriving DecidableEq

structure IndexProjection where
  value : ExprId
  kind : IndexKind
  bound : Option ℕ := none
  checked : Bool := true
  spanId : SpanId := .invalid
deriving DecidableEq

inductive Projection where
  | field (fieldIndex : ℕ)
  | index (projection : IndexProjection)
  | deref
deriving DecidableEq

inductive PlaceRoot where
  | ofLocal (id : LocalId)
  | ofSymbol (id : SymbolId)
  | ofValue (id : ExprId)
deriving DecidableEq

structure ExecutablePlace where
  id : PlaceId
  spanId : SpanId
  root : PlaceRoot
  rootTy : ValueType
  rootTypeId : TypeId
  ty : ValueType
  typeId : TypeId
  storage : PlaceStorage := .ordinary
  pointerProvenance : PointerProvenance := .unknown
  rootInitialization : InstId := .invalid
  rootNonnullProven : Bool := false
  projections : List Projection := []
deriving DecidableEq

/-- `max_executable_projections`. -/
def maxExecutableProjections : ℕ := 8

/-! ## Expressions -/

/-- Literals; only the integer ones are told apart. -/
inductive ExecutableLiteral where
  | integer (magnitude : ℕ)
  | other
deriving DecidableEq

inductive RepresentationCheckKind where
  | nonnullPointer
  | validSlice
  | validClosedEnum
deriving DecidableEq

inductive VariantKind where
  | optionalPresent
  | resultOk
  | resultErr
deriving DecidableEq

/-- Builtin calls; only the one that computes a place root is told apart. -/
inductive BuiltinKind where
  | rawManyOffset
  | other
deriving DecidableEq

inductive Operation where
  | ofLocal (id : LocalId)
  | ofSymbol (id : SymbolId)
  | load (place : PlaceId) (access : ExecutableMemoryAccess) (representationSpanId : SpanId)
  | literal (value : ExecutableLiteral)
  | representationCheck (operand : ExprId) (kind : RepresentationCheckKind)
  | directCall
  | indirectCall
  | builtinCall (kind : BuiltinKind)
  | addressOf (place : PlaceId) (representationSpanId : SpanId)
  | index (base index : ExprId) (kind : IndexKind) (bound : Option ℕ) (checked : Bool)
  | rangeSlice (base start stop : ExprId) (checked : Bool)
  | variantPayload (operand : ExprId) (kind : VariantKind)
  | taggedUnionConstruct (caseIndex : ℕ) (payload : Option ExprId)
  | taggedUnionTag (operand : ExprId)
  | taggedUnionPayload (operand : ExprId) (caseIndex : ℕ)
  | tryPropagate (errorCleanupActions : List CleanupActionId)
  | tryMapError (errorCleanupActions : List CleanupActionId)
  | other
deriving DecidableEq

structure ExecutableExpression where
  id : ExprId
  blockId : BlockId
  ownerStatement : InstId
  spanId : SpanId
  resultTy : ValueType
  typeId : TypeId
  operation : Operation
deriving DecidableEq

/-! ## Trap edges -/

inductive TrapKind where
  | integerOverflow
  | divideByZero
  | invalidShift
  | bounds
  | assert
  | unreachable
  | explicitTrap
  | unwrap
  | callMayTrap
  | invalidRepresentation
  | unknown
deriving DecidableEq

inductive TrapSource where
  | checkedArithmetic
  | checkedShift
  | boundsCheck
  | assertStmt
  | unreachableExpr
  | explicitTrap
  | unwrap
  | call
  | representationCheck
deriving DecidableEq

inductive TrapOwner where
  | expression (id : ExprId)
  | statement (id : InstId)
deriving DecidableEq

structure ExecutableTrapEdge where
  owner : TrapOwner
  fromBlock : BlockId
  trapBlock : BlockId
  kind : TrapKind
  source : TrapSource
  spanId : SpanId
deriving DecidableEq

/-- A trap edge of the control-flow graph, next to which every executable one stands. -/
structure TrapEdge where
  fromBlock : BlockId
  trapBlock : BlockId
  kind : TrapKind
  source : TrapSource
  typedSpanId : SpanId
deriving DecidableEq

/-! ## Statements and terminators -/

structure LocalInit where
  localId : LocalId
  ty : ValueType
  typeId : TypeId
  value : Option ExprId
  mutable : Bool
deriving DecidableEq

structure Store where
  place : PlaceId
  value : ExprId
  ty : ValueType
  typeId : TypeId
  access : ExecutableMemoryAccess
  representationSpanId : SpanId := .invalid
deriving DecidableEq

inductive StatementOperation where
  | localInit (init : LocalInit)
  | store (store : Store)
  | packedFieldStore (place : PlaceId) (value : ExprId)
  | eval (value : ExprId)
  | guard (kind : GuardKind) (condition : ExprId)
  | return_ (value : Option ExprId)
  | controlTransfer
  | opaqueAsm
  | preciseAsm (outputs : List LocalId)
  | deferRegister (action : CleanupActionId)
  | cleanupRun (actions : List CleanupActionId)
deriving DecidableEq

structure ExecutableStatement where
  id : InstId
  blockId : BlockId
  spanId : SpanId
  operation : StatementOperation
deriving DecidableEq

inductive TerminatorOperation where
  | fallthrough
  | jump (target : BlockId)
  | branch (condition : ExprId) (trueBlock falseBlock : BlockId)
  | forEach (indexLocal bindingLocal : LocalId) (bodyBlock afterBlock : BlockId)
  | forStep (indexLocal : LocalId) (headerBlock : BlockId)
  | switch_ (subject : ExprId) (cases : List ExecutableSwitchCase) (defaultBlock : BlockId)
  | return_
  | trap_ (kind : TrapKind)
  | unreachable_
deriving DecidableEq

structure ExecutableTerminator where
  blockId : BlockId
  spanId : SpanId := .invalid
  entryCleanupStack : List CleanupActionId := []
  exitCleanupActions : List CleanupActionId := []
  operation : TerminatorOperation
deriving DecidableEq

/-! ## Declarations and type tables -/

structure ExecutableParameter where
  localId : LocalId
  ty : ValueType
  typeId : TypeId
  spanId : SpanId
deriving DecidableEq

inductive LocalKind where
  | parameter
  | source
  | synthetic
deriving DecidableEq

structure ExecutableLocalIdentity where
  id : LocalId
  spelling : String
  ty : ValueType
  typeId : TypeId
  declarationSpanId : SpanId
  mutable : Bool := false
  kind : LocalKind
deriving DecidableEq

inductive SymbolKind where
  | unknown
  | function
  | global
  | trait
  | type_
deriving DecidableEq

structure ExecutableSymbol where
  id : SymbolId
  kind : SymbolKind
  mutable : Bool := false
deriving DecidableEq

inductive AggregateConstruction where
  | declaredStruct
  | cUnion
  | packedBits
deriving DecidableEq

structure AggregateField where
  ty : ValueType
  typeId : TypeId
deriving DecidableEq

structure ExecutableAggregateType where
  typeId : TypeId
  ty : ValueType
  construction : AggregateConstruction
  fields : List AggregateField
  arrayLength : Option ℕ := none
deriving DecidableEq

structure ExecutableEnumType where
  typeId : TypeId
  ty : ValueType
  reprTy : ValueType
deriving DecidableEq

structure ExecutableResultType where
  typeId : TypeId
  ty : ValueType
deriving DecidableEq

structure TaggedUnionCase where
  spelling : String
  payloadTy : ValueType := .void
  payloadTypeId : TypeId := .invalid
  hasPayload : Bool := false
deriving DecidableEq

structure ExecutableTaggedUnionType where
  typeId : TypeId
  ty : ValueType
  tagTypeId : TypeId
  cases : List TaggedUnionCase
  size : ℕ
  alignment : ℕ
  payloadSize : ℕ
  payloadAlignment : ℕ
  paddingSize : ℕ
  storageCount : ℕ
  payloadFieldIndex : ℕ
deriving DecidableEq

structure TypeIdentity where
  id : TypeId
  spelling : String
  ty : Option ValueType := none
deriving DecidableEq

/-! ## Bodies and functions -/

structure ExecutableBody where
  complete : Bool := true
  returnTypeId : TypeId := .invalid
  parameters : List ExecutableParameter := []
  locals : List ExecutableLocalIdentity := []
  symbols : List ExecutableSymbol := []
  aggregateTypes : List ExecutableAggregateType := []
  enumTypes : List ExecutableEnumType := []
  resultTypes : List ExecutableResultType := []
  taggedUnionTypes : List ExecutableTaggedUnionType := []
  expressions : List ExecutableExpression := []
  trapEdges : List ExecutableTrapEdge := []
  places : List ExecutablePlace := []
  statements : List ExecutableStatement := []
  cleanupActions : List ExecutableCleanupAction := []
  terminators : List ExecutableTerminator := []
deriving DecidableEq

/-- Block terminators of the control-flow graph, with the kinds of the traps. -/
inductive Terminator where
  | fallthrough
  | jump (target : BlockId)
  | branch (trueBlock falseBlock : BlockId)
  | return_
  | trap_ (kind : TrapKind)
  | unreachable_
  | switch_
deriving DecidableEq

structure Block where
  id : BlockId
  successors : List BlockId
  terminator : Terminator
deriving DecidableEq

/-- A function with its typed executable body.  Blocks are numbered by their position. -/
structure Function where
  blocks : List Block
  isExtern : Bool := false
  paramTypes : List ValueType := []
  returnTy : ValueType := .void
  spanIdentities : List SpanIdentity := []
  typeIdentities : List TypeIdentity := []
  trapEdges : List TrapEdge := []
  executableBody : ExecutableBody
  blocksIndexed : blocks.length ≤ maxU32 := by decide
  blocksNumbered : ∀ i (h : i < blocks.length), (blocks[i]).id = .fromIndex i := by decide

/-! ## Lookups -/

namespace ExecutableBody

variable (body : ExecutableBody)

def expression (id : ExprId) : Option ExecutableExpression :=
  entryNamed body.expressions ExecutableExpression.id id

def statement (id : InstId) : Option ExecutableStatement :=
  entryNamed body.statements ExecutableStatement.id id

def place (id : PlaceId) : Option ExecutablePlace :=
  entryNamed body.places ExecutablePlace.id id

def local_ (id : LocalId) : Option ExecutableLocalIdentity :=
  entryNamed body.locals ExecutableLocalIdentity.id id

def symbol (id : SymbolId) : Option ExecutableSymbol :=
  entryNamed body.symbols ExecutableSymbol.id id

/-- The terminator of a block by its identity, wherever it stands in the table. -/
def executableTerminator (id : BlockId) : Option ExecutableTerminator :=
  body.terminators.find? fun terminator => terminator.blockId.eql id

def aggregateType (id : TypeId) : Option ExecutableAggregateType :=
  if id.isValid then body.aggregateTypes.find? fun aggregate => aggregate.typeId.eql id else none

def taggedUnionType (id : TypeId) : Option ExecutableTaggedUnionType :=
  body.taggedUnionTypes.find? fun tagged => tagged.typeId.eql id

/-- The initializing statements of a local, in statement order. -/
def localInitStatements (id : LocalId) : List (InstId × LocalInit) :=
  body.statements.filterMap fun statement =>
    match statement.operation with
    | .localInit init => if init.localId.eql id then some (statement.id, init) else none
    | _ => none

def localInits (id : LocalId) : List LocalInit := (body.localInitStatements id).map Prod.snd

/-- The parameter that is the local. -/
def parameter (id : LocalId) : Option ExecutableParameter :=
  body.parameters.find? fun parameter => parameter.localId.eql id

end ExecutableBody

def blockById (function : Function) (id : BlockId) : Option Block :=
  if id.isValid then function.blocks.find? fun block => block.id.eql id else none

/-! ## Erasure -/

def Operation.erase : Operation → Mir.ExpressionOperation
  | .tryPropagate actions => .tryPropagate actions
  | .tryMapError actions => .tryMapError actions
  | .directCall => .directCall
  | _ => .other

def ExecutableExpression.erase (value : ExecutableExpression) : Mir.ExecutableExpression where
  id := value.id
  blockId := value.blockId
  ownerStatement := value.ownerStatement
  spanId := value.spanId
  operation := value.operation.erase

def StatementOperation.erase : StatementOperation → Mir.StatementOperation
  | .guard kind condition => .guard kind condition
  | .return_ value => .return_ value
  | .deferRegister action => .deferRegister action
  | .cleanupRun actions => .cleanupRun actions
  | _ => .other

def ExecutableStatement.erase (statement : ExecutableStatement) : Mir.ExecutableStatement where
  id := statement.id
  blockId := statement.blockId
  spanId := statement.spanId
  operation := statement.operation.erase

def TerminatorOperation.erase : TerminatorOperation → ExecutableTerminatorOperation
  | .fallthrough => .fallthrough
  | .jump target => .jump target
  | .branch condition trueBlock falseBlock => .branch condition trueBlock falseBlock
  | .forEach _ _ bodyBlock afterBlock => .forEach bodyBlock afterBlock
  | .forStep _ headerBlock => .forStep headerBlock
  | .switch_ subject cases defaultBlock => .switch_ subject cases defaultBlock
  | .return_ => .return_
  | .trap_ _ => .trap_
  | .unreachable_ => .unreachable_

def ExecutableTerminator.erase (terminator : ExecutableTerminator) : Mir.ExecutableTerminator where
  blockId := terminator.blockId
  spanId := terminator.spanId
  entryCleanupStack := terminator.entryCleanupStack
  exitCleanupActions := terminator.exitCleanupActions
  operation := terminator.operation.erase

def ExecutableBody.erase (body : ExecutableBody) : Mir.ExecutableBody where
  complete := body.complete
  expressions := body.expressions.map ExecutableExpression.erase
  statements := body.statements.map ExecutableStatement.erase
  cleanupActions := body.cleanupActions
  terminators := body.terminators.map ExecutableTerminator.erase

def Terminator.erase : Terminator → Mir.Terminator
  | .fallthrough => .fallthrough
  | .jump target => .jump target
  | .branch trueBlock falseBlock => .branch trueBlock falseBlock
  | .return_ => .return_
  | .trap_ _ => .trap_
  | .unreachable_ => .unreachable_
  | .switch_ => .switch_

def Block.erase (block : Block) : Mir.Block where
  id := block.id
  successors := block.successors
  terminator := block.terminator.erase

def Function.erase (function : Function) : ExecutableFunction where
  blocks := function.blocks.map Block.erase
  spanIdentities := function.spanIdentities
  blocksIndexed := by
    rw [List.length_map]
    exact function.blocksIndexed
  executableBody := function.executableBody.erase
  returnsVoid := function.returnTy == .void
  blocksNumbered i h := by
    rw [List.getElem_map]
    exact function.blocksNumbered i (by simpa using h)

end ModernC.Mir.Typed
