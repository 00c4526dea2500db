import ModernC.Framework.EvaluationOrder
import ModernC.Mir.Typed.TaggedUnions

/-!
# The evaluation order of verified bodies

The operations of `mir_model.zig` with everything that they read: operands, arguments, and the
values that a place is rooted in or indexed by.  `verifyReads` makes the checks of
`verifyExpression` on them; what else it checks of an operation that `Typed.Operation` does not
tell apart (its types, its signature, its trap edges) is left out and only rejects more bodies.

The index values of the places that an expression accesses are not among the checked reads, and
the statement of the write that a `maybe_uninit_assume_init` names may be a deferred one.  Apart
from that a verified body is evaluated in order.
-/

namespace ModernC.Mir.Typed.Evaluation

open Framework

/-! ## Operations in full -/

/-- `ExecutableTryErrorMapper`. -/
inductive ErrorMapper where
  | identity
  | conversion
  | literal (value : ExprId)
deriving DecidableEq

inductive Operation where
  | ofLocal (id : LocalId)
  | ofSymbol (id : SymbolId)
  | load (place : PlaceId) (access : ExecutableMemoryAccess) (representationSpanId : SpanId)
  | atomicLoad (place : PlaceId)
  | atomicInit (operand : ExprId)
  | maybeUninitWrite (localId : LocalId) (value : ExprId)
  | maybeUninitAssumeInit (localId : LocalId) (initializedBy : ExprId)
  | atomicUpdate (place : PlaceId) (value : ExprId)
  | mmioRead (base : LocalId)
  | mmioWrite (base : LocalId) (value : ExprId)
  | mmioMapChecked (address : ExprId)
  | literal (value : ExecutableLiteral)
  | unary (operand : ExprId)
  | binary (left right : ExprId)
  | cast (operand : ExprId)
  | representationCheck (operand : ExprId) (kind : RepresentationCheckKind)
  | directCall (callee : SymbolId) (arguments : List ExprId)
  | closureBind (capture : ExprId)
  | builtinCall (kind : BuiltinKind) (arguments : List ExprId)
  | indirectCall (callee : ExprId) (arguments : List ExprId)
  | dynCall (receiver : PlaceId) (arguments : List ExprId)
  | dynBind (source : ExprId)
  | addressOf (place : PlaceId) (representationSpanId : SpanId)
  | deref (operand : ExprId)
  | index (base index : ExprId) (kind : IndexKind) (bound : Option ℕ) (checked : Bool)
  | rangeSlice (base start stop : ExprId) (checked : Bool)
  | member (base : ExprId)
  | sliceLength (operand : ExprId)
  | optionalSome (operand : ExprId)
  | optionalNone
  | variantTest (operand : ExprId) (kind : VariantKind)
  | variantPayload (operand : ExprId) (kind : VariantKind)
  | taggedUnionConstruct (caseIndex : ℕ) (payload : Option ExprId)
  | taggedUnionTag (operand : ExprId)
  | taggedUnionPayload (operand : ExprId) (caseIndex : ℕ)
  | tryUnwrap (operand : ExprId)
  | tryPropagate (operand : ExprId) (errorCleanupActions : List CleanupActionId)
  | tryMapError (operand : ExprId) (mapper : ErrorMapper)
      (errorCleanupActions : List CleanupActionId)
  | result (payload : ExprId)
  | array (operands : List ExprId)
  | struct_ (operands : List ExprId)
  | unsupported
deriving DecidableEq

/-- What `Typed.Operation` keeps of an operation. -/
def Operation.erase : Operation → Typed.Operation
  | .ofLocal id => .ofLocal id
  | .ofSymbol id => .ofSymbol id
  | .load place access representationSpanId => .load place access representationSpanId
  | .literal value => .literal value
  | .representationCheck operand kind => .representationCheck operand kind
  | .directCall _ _ => .directCall
  | .indirectCall _ _ => .indirectCall
  | .builtinCall kind _ => .builtinCall kind
  | .addressOf place representationSpanId => .addressOf place representationSpanId
  | .index base indexId kind bound checked => .index base indexId kind bound checked
  | .rangeSlice base start stop checked => .rangeSlice base start stop checked
  | .variantPayload operand kind => .variantPayload operand kind
  | .taggedUnionConstruct caseIndex payload => .taggedUnionConstruct caseIndex payload
  | .taggedUnionTag operand => .taggedUnionTag operand
  | .taggedUnionPayload operand caseIndex => .taggedUnionPayload operand caseIndex
  | .tryPropagate _ actions => .tryPropagate actions
  | .tryMapError _ _ actions => .tryMapError actions
  | _ => .other

structure Expression where
  id : ExprId
  blockId : BlockId
  ownerStatement : InstId
  spanId : SpanId
  resultTy : Types.ValueType
  typeId : TypeId
  operation : Operation
deriving DecidableEq

def Expression.erase (value : Expression) : ExecutableExpression where
  id := value.id
  blockId := value.blockId
  ownerStatement := value.ownerStatement
  spanId := value.spanId
  resultTy := value.resultTy
  typeId := value.typeId
  operation := value.operation.erase

/-- A function with its expressions in full. -/
structure FullFunction where
  function : Typed.Function
  expressions : List Expression
  erases : expressions.map Expression.erase = function.executableBody.expressions

namespace FullFunction

variable (full : FullFunction)

abbrev body : ExecutableBody := full.function.executableBody

def expression (id : ExprId) : Option Expression :=
  entryNamed full.expressions Expression.id id

end FullFunction

/-! ## The checks on reads -/

/-- A value that the accessed place is rooted in is an operand. -/
def verifyPlaceRoot (body : ExecutableBody) (value : Expression) (placeId : PlaceId) :
    TypedCheck :=
  match body.place placeId with
  | none => .error .invalidPlaceReference
  | some target => verifyRootOperand body value.erase target

def isField : Projection → Bool
  | .field _ => true
  | _ => false

/-- The places of `executableDynTraitPlace`: a local, fields of it, or fields behind a pointer
parameter.  The traits are left out. -/
def isDynTraitPlace (body : ExecutableBody) (target : ExecutablePlace) : Bool :=
  target.storage == .ordinary && target.typeId.isValid && target.rootLocal.isSome &&
    (target.projections.all isField ||
      (executableParameterProjectedPlace body target false &&
        (target.projections.drop 1).all isField))

/-- The receiver of a call through a trait object. -/
def verifyReceiver (body : ExecutableBody) (placeId : PlaceId) : TypedCheck :=
  match body.place placeId with
  | none => .error .invalidPlaceReference
  | some target =>
    ensure (!body.complete || isDynTraitPlace body target) .invalidPlaceType

/-- The write that initializes a local belongs to an earlier statement of the same block. -/
def verifyInitializedBy (full : FullFunction) (value : Expression) (localId : LocalId)
    (initializedBy : ExprId) : TypedCheck :=
  match full.expression initializedBy with
  | none => .error .invalidExpressionReference
  | some write =>
    match write.operation with
    | .maybeUninitWrite writeLocal _ =>
      ensure (write.blockId.eql value.blockId &&
        decide (write.ownerStatement.index < value.ownerStatement.index) &&
        writeLocal.eql localId) .invalidMemoryAccessType
    | _ => .error .invalidMemoryAccessType

def verifyReads (full : FullFunction) (value : Expression) : TypedCheck :=
  let body := full.body
  match value.operation with
  | .ofLocal _ | .ofSymbol _ | .mmioRead _ | .literal _ | .optionalNone | .unsupported => .ok ()
  | .load place _ _ | .atomicLoad place | .addressOf place _ => verifyPlaceRoot body value place
  | .atomicInit operand | .maybeUninitWrite _ operand | .mmioWrite _ operand
  | .mmioMapChecked operand | .unary operand | .cast operand | .representationCheck operand _
  | .closureBind operand | .dynBind operand | .deref operand | .sliceLength operand
  | .member operand | .optionalSome operand | .variantTest operand _ | .variantPayload operand _
  | .taggedUnionTag operand | .taggedUnionPayload operand _ | .tryUnwrap operand
  | .tryPropagate operand _ | .result operand => verifyOperand body value.erase operand
  | .maybeUninitAssumeInit localId initializedBy =>
    verifyInitializedBy full value localId initializedBy
  | .atomicUpdate place operand => do
    verifyPlaceRoot body value place
    verifyOperand body value.erase operand
  | .binary left right => do
    verifyOperand body value.erase left
    verifyOperand body value.erase right
  | .directCall _ operands | .builtinCall _ operands | .array operands | .struct_ operands =>
    operands.forM (verifyOperand body value.erase)
  | .indirectCall callee arguments => do
    verifyOperand body value.erase callee
    arguments.forM (verifyOperand body value.erase)
  | .dynCall receiver arguments => do
    verifyReceiver body receiver
    arguments.forM (verifyOperand body value.erase)
  | .index base index _ _ _ => do
    verifyOperand body value.erase base
    verifyOperand body value.erase index
  | .rangeSlice base start stop _ => do
    verifyOperand body value.erase base
    verifyOperand body value.erase start
    verifyOperand body value.erase stop
  | .taggedUnionConstruct _ payload => payload.toList.forM (verifyOperand body value.erase)
  | .tryMapError operand mapper _ => do
    verifyOperand body value.erase operand
    match mapper with
    | .literal mapped => verifyOperand body value.erase mapped
    | .identity | .conversion => .ok ()

def verify (full : FullFunction) : TypedCheck := do
  Typed.verify full.function
  full.expressions.forM (verifyReads full)

/-! ## What an expression reads -/

/-- The place that an operation loads, addresses, updates or calls through. -/
def Operation.place : Operation → Option PlaceId
  | .load place _ _ | .atomicLoad place | .addressOf place _ | .atomicUpdate place _
  | .dynCall place _ => some place
  | _ => none

/-- The values that an operation reads itself. -/
def Operation.operands : Operation → List ExprId
  | .ofLocal _ | .ofSymbol _ | .mmioRead _ | .literal _ | .optionalNone | .unsupported
  | .load _ _ _ | .atomicLoad _ | .addressOf _ _ | .maybeUninitAssumeInit _ _ => []
  | .atomicInit operand | .maybeUninitWrite _ operand | .mmioWrite _ operand
  | .mmioMapChecked operand | .unary operand | .cast operand | .representationCheck operand _
  | .closureBind operand | .dynBind operand | .deref operand | .sliceLength operand
  | .member operand | .optionalSome operand | .variantTest operand _ | .variantPayload operand _
  | .taggedUnionTag operand | .taggedUnionPayload operand _ | .tryUnwrap operand
  | .tryPropagate operand _ | .result operand | .atomicUpdate _ operand => [operand]
  | .binary left right => [left, right]
  | .directCall _ operands | .builtinCall _ operands | .array operands | .struct_ operands
  | .dynCall _ operands => operands
  | .indirectCall callee arguments => callee :: arguments
  | .index base indexId _ _ _ => [base, indexId]
  | .rangeSlice base start stop _ => [base, start, stop]
  | .taggedUnionConstruct _ payload => payload.toList
  | .tryMapError operand mapper _ =>
    operand :: match mapper with
      | .literal mapped => [mapped]
      | .identity | .conversion => []

/-- The write that an operation relies on. -/
def Operation.initializedBy : Operation → Option ExprId
  | .maybeUninitAssumeInit _ initializedBy => some initializedBy
  | _ => none

def rootValue (target : ExecutablePlace) : List ExprId :=
  match target.root with
  | .ofValue id => [id]
  | _ => []

def indexValues (target : ExecutablePlace) : List ExprId :=
  target.indexProjections.map IndexProjection.value

def accessedPlace (body : ExecutableBody) (operation : Operation) : Option ExecutablePlace :=
  operation.place.bind body.place

/-- Everything that an operation reads: its operands, and the values that its place is rooted
in and indexed by. -/
def reads (body : ExecutableBody) (operation : Operation) : List ExprId :=
  operation.operands ++ (accessedPlace body operation).toList.flatMap fun target =>
    rootValue target ++ indexValues target

/-! ## Evaluation and rendering -/

section Runs

variable (full : FullFunction)

def ownedExpressions (statementId : InstId) : List Expression :=
  full.expressions.filter fun value => value.ownerStatement.eql statementId

/-- Everything that an expression reads has been computed by this execution of its statement,
and the write that it relies on by this visit of its block. -/
def readyExpression (earlier computed : List ExprId) (value : Expression) : Bool :=
  (reads full.body value.operation).all computed.contains &&
    value.operation.initializedBy.all (earlier ++ computed).contains

/-- Executes a statement: its expressions are evaluated in the order of their identities. -/
def evaluateStatement (earlier : List ExprId) (statement : ExecutableStatement) :
    Option (List ExprId) :=
  evaluateAll (readyExpression full earlier) (fun value => [value.id]) []
    (ownedExpressions full statement.id)

def defers (statement : ExecutableStatement) : Bool :=
  match statement.operation with
  | .deferRegister _ => true
  | _ => false

/-- What a visit of the block has computed after the statement.  The expressions of a deferred
one are evaluated later, where its cleanup action runs. -/
def computedBy (statement : ExecutableStatement) : List ExprId :=
  if defers statement then [] else (ownedExpressions full statement.id).map Expression.id

def blockStatements (blockId : BlockId) : List ExecutableStatement :=
  full.body.statements.filter fun statement => statement.blockId.eql blockId

/-- Visits a block. -/
def visit (blockId : BlockId) : Option (List ExprId) :=
  evaluateAll (fun earlier statement => (evaluateStatement full earlier statement).isSome)
    (computedBy full) [] (blockStatements full blockId)

/-- Renders an expression tree, as far as the fuel goes. -/
def render (fuel : ℕ) (id : ExprId) : Option (NeedTree ExprId) :=
  unfoldTree (fun id => (full.expression id).map fun value => reads full.body value.operation)
    fuel id

/-- The read value has a smaller identity and belongs to the statement and the block of its
reader. -/
def ReadEarlier (value : Expression) (id : ExprId) : Prop :=
  ∃ read, full.expression id = some read ∧ read.id.index < value.id.index ∧
    read.blockId = value.blockId ∧ read.ownerStatement = value.ownerStatement

/-- **Every expression is evaluated after everything it reads**: a visit of a block never reads
what has not been computed, and the rendering of an expression tree ends. -/
structure EvaluatedInOrder : Prop where
  reads : ∀ value ∈ full.expressions, ∀ id ∈ reads full.body value.operation,
    ReadEarlier full value id
  visits : ∀ blockId, (visit full blockId).isSome = true
  renders : ∀ value ∈ full.expressions, ∃ fuel, (render full fuel value.id).isSome = true

/-- The condition under which a verified body is evaluated in order: the index values of the
accessed places pass the check that operands pass, and no expression relies on a deferred
write. -/
structure PlacesInOrder : Prop where
  indices : ∀ value ∈ full.expressions, ∀ target ∈ accessedPlace full.body value.operation,
    ∀ id ∈ indexValues target, verifyOperand full.body value.erase id = .ok ()
  writes : ∀ value ∈ full.expressions, ∀ id ∈ value.operation.initializedBy,
    ∀ write ∈ full.expressions, write.id = id → ∀ statement ∈ full.body.statements,
      statement.id = write.ownerStatement → defers statement = false

end Runs

variable {full : FullFunction} {value : Expression}

/-! ## What the checks establish -/

lemma body_expression (id : ExprId) :
    full.body.expression id = (full.expression id).map Expression.erase := by
  unfold ExecutableBody.expression FullFunction.expression entryNamed
  rw [← full.erases, List.getElem?_map]
  split_ifs
  · cases full.expressions[id.index]? with
    | none => rfl
    | some read =>
      simp only [Option.map_some, Option.filter_some, Expression.erase]
      split_ifs <;> rfl
  · rfl

lemma verifyOperand_iff (id : ExprId) :
    verifyOperand full.body value.erase id = .ok () ↔ ReadEarlier full value id := by
  unfold verifyOperand ReadEarlier
  rw [body_expression]
  cases full.expression id with
  | none => simp
  | some read =>
    simp only [Option.map_some, ensure_eq_ok, Bool.and_eq_true, TypedIndex.eql_iff,
      Option.some.injEq, exists_eq_left', and_assoc]
    exact and_congr decide_eq_true_iff Iff.rfl

/-- A place that a trait object is called through has a local at its root, and no index. -/
lemma values_of_dynTraitPlace {target : ExecutablePlace}
    (h : isDynTraitPlace full.body target = true) :
    rootValue target = [] ∧ indexValues target = [] := by
  simp only [isDynTraitPlace, Bool.and_eq_true, Bool.or_eq_true] at h
  obtain ⟨⟨-, hlocal⟩, hfields⟩ := h
  constructor
  · unfold ExecutablePlace.rootLocal at hlocal
    unfold rootValue
    cases hroot : target.root with
    | ofValue id => simp [hroot] at hlocal
    | _ => rfl
  · have hnone : target.indexProjections = [] := by
      rcases hfields with hfields | ⟨hparameter, -⟩
      · refine List.filterMap_eq_nil_iff.mpr fun projection hmem => ?_
        have hfield := List.all_eq_true.mp hfields projection hmem
        cases projection with
        | field fieldIndex => rfl
        | _ => simp [isField] at hfield
      · exact parameterProjectedPlace_noIndex hparameter
    rw [indexValues, hnone]
    rfl

/-- What the checks on reads say: the operands pass, the accessed place is rooted in an operand or
called through, and a write that is relied on is an earlier one. -/
lemma verifyReads_spec (h : verifyReads full value = .ok ()) :
    (∀ id ∈ value.operation.operands, verifyOperand full.body value.erase id = .ok ()) ∧
    (∀ placeId ∈ value.operation.place,
      verifyPlaceRoot full.body value placeId = .ok () ∨
        verifyReceiver full.body placeId = .ok ()) ∧
    ∀ localId id, value.operation = .maybeUninitAssumeInit localId id →
      verifyInitializedBy full value localId id = .ok () := by
  unfold verifyReads at h
  cases hoperation : value.operation <;>
    simp only [hoperation, exceptBind_eq_ok, forM_eq_ok] at h
  case tryMapError operand mapper actions =>
    obtain ⟨_, hoperand, hmapper⟩ := h
    cases mapper <;> simp_all [Operation.operands, Operation.place]
  all_goals
    simp only [Operation.operands, Operation.place, List.not_mem_nil, List.mem_cons, or_false,
      Option.mem_def, Option.some.injEq, reduceCtorEq, forall_eq, forall_eq_or_imp, false_imp_iff,
      implies_true, and_true, true_and, Option.mem_toList, Operation.maybeUninitAssumeInit.injEq]
  all_goals grind

variable {id : ExprId} {statement : ExecutableStatement}

/-- The value that the accessed place is rooted in is read in order. -/
lemma readEarlier_of_root (hcomplete : full.body.complete = true)
    (h : verifyReads full value = .ok ()) {target : ExecutablePlace}
    (htarget : target ∈ accessedPlace full.body value.operation)
    (hid : id ∈ rootValue target) : ReadEarlier full value id := by
  obtain ⟨placeId, hplace, hfound⟩ := Option.bind_eq_some_iff.mp htarget
  rcases (verifyReads_spec h).2.1 placeId hplace with hroot | hreceiver
  · rw [← verifyOperand_iff]
    unfold verifyPlaceRoot verifyRootOperand at hroot
    unfold rootValue at hid
    cases hvalue : target.root with
    | ofValue root =>
      simp only [hvalue, List.mem_singleton] at hid
      subst hid
      simpa only [hfound, hvalue] using hroot
    | _ => simp [hvalue] at hid
  · simp only [verifyReceiver, hfound, hcomplete, Bool.not_true, Bool.false_or,
      ensure_eq_ok] at hreceiver
    rw [(values_of_dynTraitPlace hreceiver).1] at hid
    cases hid

/-- Everything is read in order if the index values of the accessed place are. -/
lemma readEarlier_of_mem (hcomplete : full.body.complete = true)
    (h : verifyReads full value = .ok ())
    (hindices : ∀ target ∈ accessedPlace full.body value.operation,
      ∀ id ∈ indexValues target, verifyOperand full.body value.erase id = .ok ())
    (hid : id ∈ reads full.body value.operation) : ReadEarlier full value id := by
  rcases List.mem_append.mp hid with hoperand | hplace
  · exact (verifyOperand_iff id).mp ((verifyReads_spec h).1 id hoperand)
  · obtain ⟨target, htarget, hvalue⟩ := List.mem_flatMap.mp hplace
    have htarget := Option.mem_toList.mp htarget
    rcases List.mem_append.mp hvalue with hroot | hindex
    · exact readEarlier_of_root hcomplete h htarget hroot
    · exact (verifyOperand_iff id).mp (hindices target htarget id hindex)

/-- The write that an expression relies on belongs to an earlier statement of the block. -/
lemma exists_write (h : verifyReads full value = .ok ())
    (hid : id ∈ value.operation.initializedBy) :
    ∃ write, full.expression id = some write ∧ write.blockId = value.blockId ∧
      write.ownerStatement.index < value.ownerStatement.index := by
  obtain ⟨localId, hoperation⟩ :
      ∃ localId, value.operation = .maybeUninitAssumeInit localId id := by
    cases hoperation : value.operation with
    | maybeUninitAssumeInit localId initializedBy =>
      rw [hoperation] at hid
      obtain rfl : initializedBy = id := Option.some.inj hid
      exact ⟨localId, rfl⟩
    | _ =>
      rw [hoperation] at hid
      cases hid
  have hcheck := (verifyReads_spec h).2.2 localId id hoperation
  unfold verifyInitializedBy at hcheck
  cases hwrite : full.expression id with
  | none => simp [hwrite] at hcheck
  | some write =>
    simp only [hwrite] at hcheck
    split at hcheck
    · simp only [ensure_eq_ok, Bool.and_eq_true, decide_eq_true_eq, TypedIndex.eql_iff] at hcheck
      exact ⟨write, rfl, hcheck.1.1, hcheck.1.2⟩
    · cases hcheck

/-! ## Tables -/

section Tables

variable (h : Verified full.function)

include h

lemma expression_at {i : ℕ} (hget : full.expressions[i]? = some value) :
    value.id.isValid = true ∧ value.id.index = i := by
  refine h.expression_at (show full.body.expressions[i]? = some value.erase from ?_)
  rw [← full.erases, List.getElem?_map, hget]
  rfl

lemma expression_of_mem (hmem : value ∈ full.expressions) :
    full.expression value.id = some value := by
  obtain ⟨i, hget⟩ := List.mem_iff_getElem?.mp hmem
  obtain ⟨hvalid, hindex⟩ := expression_at h hget
  exact entryNamed_of_getElem? hget hvalid hindex

lemma eq_of_id_eq {other : Expression} (hmem : value ∈ full.expressions)
    (hmem' : other ∈ full.expressions) (hid : value.id = other.id) : value = other := by
  have hfound := expression_of_mem h hmem
  rw [hid, expression_of_mem h hmem'] at hfound
  exact (Option.some.inj hfound).symm

lemma statement_eq_of_id_eq {other : ExecutableStatement}
    (hmem : statement ∈ full.body.statements) (hmem' : other ∈ full.body.statements)
    (hid : statement.id = other.id) : statement = other := by
  have hfound := h.statement_of_mem hmem
  rw [hid, h.statement_of_mem hmem'] at hfound
  exact (Option.some.inj hfound).symm

/-- The owner of an expression stands in its block. -/
lemma exists_owner (hmem : value ∈ full.expressions) :
    ∃ statement ∈ full.body.statements, statement.id = value.ownerStatement ∧
      statement.blockId = value.blockId := by
  obtain ⟨i, hget⟩ := List.mem_iff_getElem?.mp hmem
  have hpair : (value.erase.erase, i) ∈
      full.function.erase.executableBody.expressions.zipIdx := by
    refine List.mem_zipIdx_iff_getElem?.mpr ?_
    have herase : full.function.erase.executableBody.expressions =
        full.body.expressions.map ExecutableExpression.erase := rfl
    rw [herase, ← full.erases, List.map_map, List.getElem?_map, hget]
    rfl
  have hcheck := h.control_checks.1 _ hpair
  simp only [Mir.verifyExpression, exceptBind_eq_ok, ensure_eq_ok] at hcheck
  obtain ⟨_, _, _, _, howner⟩ := hcheck
  split at howner
  · cases howner
  · rename_i owner hfound
    simp only [exceptBind_eq_ok, ensure_eq_ok, Bool.and_eq_true, TypedIndex.eql_iff] at howner
    obtain ⟨_, ⟨⟨-, hid⟩, hblock⟩, -⟩ := howner
    have hmap : full.function.erase.executableBody.statements =
        full.body.statements.map ExecutableStatement.erase := rfl
    rw [hmap, List.getElem?_map] at hfound
    obtain ⟨statement, hstatement, rfl⟩ := Option.map_eq_some_iff.mp hfound
    exact ⟨statement, List.mem_of_getElem? hstatement, hid, hblock⟩

lemma ownedExpressions_sorted (statementId : InstId) :
    (ownedExpressions full statementId).Pairwise fun a b => a.id.index < b.id.index :=
  (pairwise_of_positions fun _ _ hget => (expression_at h hget).2).filter _

lemma blockStatements_sorted (blockId : BlockId) :
    (blockStatements full blockId).Pairwise fun a b => a.id.index < b.id.index :=
  (pairwise_of_positions fun _ _ hget => (h.statement_at hget).2).filter _

end Tables

lemma mem_ownedExpressions {statementId : InstId} :
    value ∈ ownedExpressions full statementId ↔
      value ∈ full.expressions ∧ value.ownerStatement = statementId := by
  rw [ownedExpressions, List.mem_filter, TypedIndex.eql_iff]

lemma mem_blockStatements {blockId : BlockId} :
    statement ∈ blockStatements full blockId ↔
      statement ∈ full.body.statements ∧ statement.blockId = blockId := by
  rw [blockStatements, List.mem_filter, TypedIndex.eql_iff]

lemma mem_computedBy :
    id ∈ computedBy full statement ↔
      defers statement = false ∧ ∃ value ∈ full.expressions,
        value.ownerStatement = statement.id ∧ value.id = id := by
  unfold computedBy
  split_ifs with hdefers
  · simp [hdefers]
  · simp only [Bool.not_eq_true] at hdefers
    simp only [hdefers, true_and, List.mem_map, mem_ownedExpressions, and_assoc]

/-! ## Evaluation in order -/

/-- A statement is executed to its end if its expressions are read in order and what they rely on
has been written before. -/
lemma evaluateStatement_isSome (h : Verified full.function) {earlier : List ExprId}
    (hreads : ∀ value ∈ ownedExpressions full statement.id,
      ∀ id ∈ reads full.body value.operation, ReadEarlier full value id)
    (hwrites : ∀ value ∈ ownedExpressions full statement.id,
      ∀ id ∈ value.operation.initializedBy, id ∈ earlier) :
    (evaluateStatement full earlier statement).isSome = true := by
  refine evaluateAll_isSome_iff.mpr fun front value rest hsplit => ?_
  have hmem : value ∈ ownedExpressions full statement.id := by rw [hsplit]; simp
  rw [readyExpression, Bool.and_eq_true]
  constructor
  · refine List.all_eq_true.mpr fun id hid => ?_
    obtain ⟨read, hfound, hlt, -, howner⟩ := hreads value hmem id hid
    obtain ⟨hlisted, rfl⟩ := entryNamed_eq_some hfound
    have howned : read ∈ ownedExpressions full statement.id :=
      mem_ownedExpressions.mpr ⟨hlisted, howner.trans (mem_ownedExpressions.mp hmem).2⟩
    have hfront := mem_front_of_lt (ownedExpressions_sorted h statement.id) hsplit howned hlt
    rw [List.contains_iff_mem]
    exact List.mem_append_right _ (List.mem_flatMap.mpr ⟨read, hfront, List.mem_singleton_self _⟩)
  · refine Option.all_eq_true_iff_get _ _ |>.mpr fun hsome => ?_
    rw [List.contains_iff_mem]
    exact List.mem_append_left _ (hwrites value hmem _ (Option.get_mem hsome))

/-- **A visit of a block reaches its end** if the accessed places are read in order. -/
lemma visit_isSome (h : Verified full.function)
    (hchecked : ∀ value ∈ full.expressions, verifyReads full value = .ok ())
    (hplaces : PlacesInOrder full) (blockId : BlockId) :
    (visit full blockId).isSome = true := by
  refine evaluateAll_isSome_iff.mpr fun front statement rest hsplit => ?_
  have hmem : statement ∈ blockStatements full blockId := by rw [hsplit]; simp
  obtain ⟨hlisted, hblock⟩ := mem_blockStatements.mp hmem
  refine evaluateStatement_isSome h (fun value howned id hid => ?_) fun value howned id hid => ?_
  · obtain ⟨hvalue, -⟩ := mem_ownedExpressions.mp howned
    exact readEarlier_of_mem h.complete (hchecked value hvalue) (hplaces.indices value hvalue) hid
  · obtain ⟨hvalue, howner⟩ := mem_ownedExpressions.mp howned
    obtain ⟨write, hfound, hwriteBlock, hlt⟩ := exists_write (hchecked value hvalue) hid
    obtain ⟨hwrite, rfl⟩ := entryNamed_eq_some hfound
    obtain ⟨writer, hwriter, hid', hwriterBlock⟩ := exists_owner h hwrite
    obtain ⟨owner, howner', hownerId, hownerBlock⟩ := exists_owner h hvalue
    obtain rfl : owner = statement :=
      statement_eq_of_id_eq h howner' hlisted (hownerId.trans howner)
    have hfront : writer ∈ front := by
      refine mem_front_of_lt (blockStatements_sorted h blockId) hsplit
        (mem_blockStatements.mpr ⟨hwriter, ?_⟩) ?_
      · rw [hwriterBlock, hwriteBlock, ← hownerBlock, hblock]
      · rw [hid', hownerId]
        exact hlt
    have hkept := hplaces.writes value hvalue write.id hid write hwrite rfl writer hwriter hid'
    exact List.mem_append_right _ (List.mem_flatMap.mpr ⟨writer, hfront,
      mem_computedBy.mpr ⟨hkept, write, hwrite, hid'.symm, rfl⟩⟩)

/-- **The rendering of an expression tree ends** if every expression is read in order. -/
lemma render_isSome (h : Verified full.function)
    (hreads : ∀ value ∈ full.expressions, ∀ id ∈ reads full.body value.operation,
      ReadEarlier full value id) (hmem : value ∈ full.expressions) :
    (render full (value.id.index + 1) value.id).isSome = true := by
  refine unfoldTree_isSome (fun id => ∃ value ∈ full.expressions, value.id = id)
    TypedIndex.index ?_ ⟨value, hmem, rfl⟩ (Nat.lt_succ_self _)
  rintro _ ⟨value, hmem, rfl⟩
  refine ⟨_, by rw [expression_of_mem h hmem]; rfl, fun id hid => ?_⟩
  obtain ⟨read, hfound, hlt, -, -⟩ := hreads value hmem id hid
  obtain ⟨hread, rfl⟩ := entryNamed_eq_some hfound
  exact ⟨⟨read, hread, rfl⟩, hlt⟩

/-- A write that a visit relies on is not a deferred one. -/
lemma defers_eq_false_of_visit (h : Verified full.function)
    (hchecked : ∀ value ∈ full.expressions, verifyReads full value = .ok ())
    (hvisits : ∀ blockId, (visit full blockId).isSome = true) (hmem : value ∈ full.expressions)
    {write : Expression} (hwrite : write ∈ full.expressions)
    (hid : write.id ∈ value.operation.initializedBy) (hstatement : statement ∈ full.body.statements)
    (hwriter : statement.id = write.ownerStatement) : defers statement = false := by
  obtain ⟨owner, howner, hownerId, hownerBlock⟩ := exists_owner h hmem
  obtain ⟨before, after, hblock⟩ :=
    List.append_of_mem (mem_blockStatements.mpr ⟨howner, hownerBlock⟩)
  have howned : value ∈ ownedExpressions full owner.id :=
    mem_ownedExpressions.mpr ⟨hmem, hownerId.symm⟩
  obtain ⟨front, rest, hfront⟩ := List.append_of_mem howned
  have hstatements := evaluateAll_isSome_iff.mp (hvisits value.blockId) before owner after hblock
  have hready := evaluateAll_isSome_iff.mp hstatements front value rest hfront
  rw [readyExpression, Bool.and_eq_true] at hready
  have hcomputed := hready.2
  rw [Option.mem_def.mp hid, Option.all_some, List.contains_iff_mem, List.nil_append,
    List.nil_append] at hcomputed
  rcases List.mem_append.mp hcomputed with hearlier | hsame
  · obtain ⟨writer, hbefore, hcomputes⟩ := List.mem_flatMap.mp hearlier
    obtain ⟨hkept, other, hother, hotherId, heq⟩ := mem_computedBy.mp hcomputes
    obtain rfl : other = write := eq_of_id_eq h hother hwrite heq
    have hlisted : writer ∈ blockStatements full value.blockId := by
      rw [hblock]
      exact List.mem_append_left _ hbefore
    obtain rfl : statement = writer := statement_eq_of_id_eq h hstatement
      (mem_blockStatements.mp hlisted).1 (hwriter.trans hotherId)
    exact hkept
  -- the write would belong to the statement that relies on it
  · obtain ⟨other, hother, heq⟩ := List.mem_flatMap.mp hsame
    have hother' : other ∈ ownedExpressions full owner.id := by
      rw [hfront]
      exact List.mem_append_left _ hother
    obtain ⟨hlisted, hotherId⟩ := mem_ownedExpressions.mp hother'
    obtain rfl : write = other := eq_of_id_eq h hwrite hlisted (List.mem_singleton.mp heq)
    obtain ⟨found, hfound, -, hlt⟩ := exists_write (hchecked value hmem) hid
    rw [expression_of_mem h hwrite, Option.some.injEq] at hfound
    subst hfound
    rw [hotherId, hownerId] at hlt
    exact absurd hlt (Nat.lt_irrefl _)

/-- **A verified body is evaluated in order if and only if the places that its expressions access
are**, and no expression relies on a deferred write. -/
theorem evaluatedInOrder_iff (hverify : verify full = .ok ())
    (hcomplete : full.body.complete = true) :
    EvaluatedInOrder full ↔ PlacesInOrder full := by
  obtain ⟨_, hfunction, hchecked⟩ := exceptBind_eq_ok.mp hverify
  have h := verified_of_verify hfunction hcomplete
  have hchecked := forM_eq_ok.mp hchecked
  constructor
  · intro hordered
    refine ⟨fun value hmem target htarget id hid => ?_, fun value hmem id hid write hwrite hwriteId
      statement hstatement hwriter => ?_⟩
    · refine (verifyOperand_iff id).mpr (hordered.reads value hmem id ?_)
      refine List.mem_append_right _ (List.mem_flatMap.mpr ⟨target, ?_, ?_⟩)
      · exact Option.mem_toList.mpr htarget
      · exact List.mem_append_right _ hid
    · subst hwriteId
      exact defers_eq_false_of_visit h hchecked hordered.visits hmem hwrite hid hstatement hwriter
  · intro hplaces
    have hreads : ∀ value ∈ full.expressions, ∀ id ∈ reads full.body value.operation,
        ReadEarlier full value id := fun value hmem id hid =>
      readEarlier_of_mem hcomplete (hchecked value hmem) (hplaces.indices value hmem) hid
    exact ⟨hreads, visit_isSome h hchecked hplaces,
      fun value hmem => ⟨_, render_isSome h hreads hmem⟩⟩

/-! ## A load that is its own index -/

def usizeSlice : Types.ValueType :=
  .pointer { kind := .slice, mutability := .constant, child := "usize" }

lemma returnBlock_indexed : [(⟨.fromIndex 0, [], .return_⟩ : Block)].length ≤ maxU32 := by
  decide

lemma returnBlock_numbered : ∀ i (h : i < [(⟨.fromIndex 0, [], .return_⟩ : Block)].length),
    ([(⟨.fromIndex 0, [], .return_⟩ : Block)][i]).id = .fromIndex i := by
  decide

/-- `fn read(s: []const usize) -> usize` returns the first of its expressions, which may access
`s[i]`, where `i` is the value of an expression. -/
def readFunction (index result : ℕ) (expressions : List Expression) : FullFunction where
  function :=
    { blocks := [⟨.fromIndex 0, [], .return_⟩]
      blocksIndexed := returnBlock_indexed
      blocksNumbered := returnBlock_numbered
      paramTypes := [usizeSlice]
      returnTy := .integer "usize"
      spanIdentities := [{ id := .fromIndex 0, source := { line := 1, column := 1 } },
        { id := .fromIndex 1, source := { line := 2, column := 12 } }]
      typeIdentities := [{ id := .fromIndex 0, spelling := "[]const", ty := some usizeSlice },
        { id := .fromIndex 1, spelling := "usize", ty := some (.integer "usize") }]
      executableBody :=
        { returnTypeId := .fromIndex 1
          parameters := [⟨.fromIndex 0, usizeSlice, .fromIndex 0, .fromIndex 0⟩]
          locals := [{ id := .fromIndex 0, spelling := "s", ty := usizeSlice,
                       typeId := .fromIndex 0, declarationSpanId := .fromIndex 0,
                       kind := .parameter }]
          expressions := expressions.map Expression.erase
          places := [{ id := .fromIndex 0, spanId := .fromIndex 1, root := .ofLocal (.fromIndex 0),
                       rootTy := usizeSlice, rootTypeId := .fromIndex 0, ty := .integer "usize",
                       typeId := .fromIndex 1,
                       projections := [.index { value := .fromIndex index, kind := .slice,
                                                spanId := .fromIndex 1 }] }]
          statements := [⟨.fromIndex 0, .fromIndex 0, .fromIndex 1,
            .return_ (some (.fromIndex result))⟩]
          terminators := [{ blockId := .fromIndex 0, operation := .return_ }] } }
  expressions := expressions
  erases := rfl

def usizeExpression (id : ℕ) (operation : Operation) : Expression :=
  ⟨.fromIndex id, .fromIndex 0, .fromIndex 0, .fromIndex 1, .integer "usize", .fromIndex 1,
    operation⟩

def elementLoad (id : ℕ) : Expression :=
  usizeExpression id (.load (.fromIndex 0) ⟨.raceUnordered, 8⟩ .invalid)

/-- `s[7]`, the index before the load. -/
def loadAfterIndex : FullFunction :=
  readFunction 0 1 [usizeExpression 0 (.literal (.integer 7)), elementLoad 1]

/-- The load of `s[i]`, where `i` is the loaded value itself. -/
def loadOfItself : FullFunction := readFunction 0 0 [elementLoad 0]

theorem evaluatedInOrder_loadAfterIndex :
    EvaluatedInOrder loadAfterIndex := by
  refine (evaluatedInOrder_iff (by decide) rfl).mpr ⟨?_, ?_⟩
  · decide
  · decide

/-- **A load that is its own index is verified.** -/
theorem verified_not_evaluatedInOrder :
    ¬ ∀ full : FullFunction, verify full = .ok () → full.body.complete = true →
      EvaluatedInOrder full := by
  intro hall
  have hordered := hall loadOfItself (by decide) rfl
  obtain ⟨read, hfound, hlt, -⟩ :=
    hordered.reads (elementLoad 0) (.head _) (.fromIndex 0) (by decide)
  obtain ⟨-, hid⟩ := entryNamed_eq_some hfound
  rw [hid] at hlt
  exact absurd hlt (Nat.lt_irrefl _)

end ModernC.Mir.Typed.Evaluation
