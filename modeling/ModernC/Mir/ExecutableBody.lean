import Mathlib.Data.Int.Notation
import ModernC.Framework.Obligations
import ModernC.Mir.Model

/-!
# Executable bodies and their verifier

The executable body of a function and the checks of `mir_executable_body.zig` on it that
read control flow and cleanup: the identities of expressions, statements, cleanup actions
and terminators, the return statements, the targets of the terminators, and the declared
cleanup stacks.  The checks of types, places, operands, signatures and trap edges only
reject more bodies; they and the data they read are left out.
-/

namespace ModernC.Mir

open Framework

/-! ## The body -/

/-- Expression operations.  Only the operations that own or are a cleanup are told apart. -/
inductive ExpressionOperation where
  | tryPropagate (errorCleanupActions : List CleanupActionId)
  | tryMapError (errorCleanupActions : List CleanupActionId)
  | directCall
  | other
deriving DecidableEq

structure ExecutableExpression where
  id : ExprId
  blockId : BlockId
  ownerStatement : InstId
  spanId : SpanId
  operation : ExpressionOperation
deriving DecidableEq

inductive GuardKind where
  | if_
  | while_
  | switch_
  | assert_
deriving DecidableEq

/-- Statement operations; `other` is a statement without control flow or cleanup. -/
inductive StatementOperation where
  | guard (kind : GuardKind) (condition : ExprId)
  | return_ (value : Option ExprId)
  | deferRegister (action : CleanupActionId)
  | cleanupRun (actions : List CleanupActionId)
  | other
deriving DecidableEq

structure ExecutableStatement where
  id : InstId
  blockId : BlockId
  spanId : SpanId
  operation : StatementOperation
deriving DecidableEq

structure ExecutableCleanupAction where
  id : CleanupActionId
  registration : InstId
  blockId : BlockId
  spanId : SpanId := .invalid
  roots : List ExprId := []
deriving DecidableEq

inductive SwitchValue where
  | unsigned (value : ℕ)
  | signed (value : ℤ)
deriving DecidableEq

structure ExecutableSwitchCase where
  value : SwitchValue
  target : BlockId
deriving DecidableEq

inductive ExecutableTerminatorOperation where
  | fallthrough
  | jump (target : BlockId)
  | branch (condition : ExprId) (trueBlock falseBlock : BlockId)
  | forEach (bodyBlock afterBlock : BlockId)
  | forStep (headerBlock : BlockId)
  | switch_ (subject : ExprId) (cases : List ExecutableSwitchCase) (defaultBlock : BlockId)
  | return_
  | trap_
  | unreachable_
deriving DecidableEq

/-- A terminator: the cleanup stack on entry to its block in registration order, the actions
executed immediately before it, and its operation. -/
structure ExecutableTerminator where
  blockId : BlockId
  spanId : SpanId := .invalid
  entryCleanupStack : List CleanupActionId := []
  exitCleanupActions : List CleanupActionId := []
  operation : ExecutableTerminatorOperation
deriving DecidableEq

structure ExecutableBody where
  complete : Bool := true
  expressions : List ExecutableExpression := []
  statements : List ExecutableStatement := []
  cleanupActions : List ExecutableCleanupAction := []
  terminators : List ExecutableTerminator := []
deriving DecidableEq

/-- A function with its executable body.  Blocks are numbered by their position, as the
builder makes them and the block checks of `mir.zig` and `mir_body_plan.zig` require. -/
structure ExecutableFunction extends Function where
  executableBody : ExecutableBody
  returnsVoid : Bool
  blocksNumbered : ∀ i (h : i < blocks.length), (blocks[i]).id = .fromIndex i

/-! ## Lookups -/

/-- The entry of a table that an identity names, if the entry at its index carries it. -/
def entryNamed {name : String} {α : Type} (table : List α) (idOf : α → TypedIndex name)
    (id : TypedIndex name) : Option α :=
  if id.isValid then (table[id.index]?).filter fun value => (idOf value).eql id else none

namespace ExecutableBody

variable (body : ExecutableBody)

def expression (id : ExprId) : Option ExecutableExpression :=
  entryNamed body.expressions ExecutableExpression.id id

def cleanupAction (id : CleanupActionId) : Option ExecutableCleanupAction :=
  entryNamed body.cleanupActions ExecutableCleanupAction.id id

def terminatorByBlock (id : BlockId) : Option ExecutableTerminator :=
  entryNamed body.terminators ExecutableTerminator.blockId id

end ExecutableBody

def blockExists (function : ExecutableFunction) (id : BlockId) : Bool :=
  id.isValid && function.blocks.any fun block => block.id.eql id

def blockById (function : ExecutableFunction) (id : BlockId) : Option Block :=
  if id.isValid then function.blocks.find? fun block => block.id.eql id else none

/-! ## Verification -/

inductive VerifyError where
  | invalidSpanReference
  | invalidExpressionIdentity
  | invalidExpressionReference
  | invalidBlockReference
  | invalidStatementReference
  | invalidStatementIdentity
  | invalidEvaluationOrder
  | invalidReturnStatement
  | invalidTerminatorIdentity
  | invalidTerminatorCondition
  | invalidCleanupActionIdentity
  | invalidCleanupRegistration
  | invalidCleanupExpression
  | invalidCleanupSuccessorState
  | invalidCleanupOrder
deriving DecidableEq

abbrev Check := Except VerifyError Unit

def verifySpanId (function : ExecutableFunction) (id : SpanId) : Check :=
  ensure ((entryNamed function.spanIdentities SpanIdentity.id id).isSome) .invalidSpanReference

def verifyExpression (function : ExecutableFunction) (value : ExecutableExpression)
    (index : ℕ) : Check := do
  let body := function.executableBody
  ensure (value.id.isValid && value.id.index == index) .invalidExpressionIdentity
  ensure (blockExists function value.blockId) .invalidBlockReference
  match body.statements[value.ownerStatement.index]? with
  | none => .error .invalidStatementReference
  | some owner =>
    ensure (value.ownerStatement.isValid && owner.id.eql value.ownerStatement &&
      owner.blockId.eql value.blockId) .invalidStatementReference
    verifySpanId function value.spanId

def verifyCleanupRoot (body : ExecutableBody) (action : ExecutableCleanupAction)
    (root : ExprId) : Check :=
  match body.expression root with
  | none => .error .invalidExpressionReference
  | some value => do
    ensure (value.ownerStatement.eql action.registration && value.blockId.eql action.blockId)
      .invalidCleanupExpression
    ensure (!body.complete || value.operation == .directCall) .invalidCleanupExpression

/-- An action is registered by exactly the statement it names. -/
def verifyCleanupAction (function : ExecutableFunction) (action : ExecutableCleanupAction)
    (index : ℕ) : Check := do
  let body := function.executableBody
  ensure (action.id.isValid && action.id.index == index && action.registration.isValid &&
    decide (action.registration.index < body.statements.length) &&
    blockExists function action.blockId) .invalidCleanupActionIdentity
  verifySpanId function action.spanId
  match body.statements[action.registration.index]? with
  | none => .error .invalidCleanupActionIdentity
  | some registration =>
    ensure (registration.id.eql action.registration && registration.blockId.eql action.blockId &&
      registration.spanId.eql action.spanId) .invalidCleanupRegistration
    match registration.operation with
    | .deferRegister id => ensure (id.eql action.id) .invalidCleanupRegistration
    | _ => .error .invalidCleanupRegistration
    ensure (!(body.complete && action.roots.isEmpty)) .invalidCleanupExpression
    action.roots.forM (verifyCleanupRoot body action)

def verifyStatementExpr (body : ExecutableBody) (owner : ExecutableStatement)
    (id : ExprId) : Check :=
  match body.expression id with
  | none => .error .invalidExpressionReference
  | some value =>
    ensure (value.ownerStatement.eql owner.id && value.blockId.eql owner.blockId)
      .invalidEvaluationOrder

/-- A return statement closes its block in the statement list, and the block of the CFG
returns.  The block's executable terminator is not looked at. -/
def verifyReturnStatement (function : ExecutableFunction) (statement : ExecutableStatement)
    (value : Option ExprId) : Check := do
  let body := function.executableBody
  if body.complete then
    match blockById function statement.blockId with
    | none => .error .invalidBlockReference
    | some block =>
      ensure (block.terminator == .return_) .invalidReturnStatement
      ensure ((body.statements.drop (statement.id.index + 1)).all fun later =>
        !later.blockId.eql statement.blockId) .invalidReturnStatement
  match value with
  | some id =>
    ensure (!function.returnsVoid) .invalidReturnStatement
    verifyStatementExpr body statement id
  | none => ensure (!body.complete || function.returnsVoid) .invalidReturnStatement

def verifyStatement (function : ExecutableFunction) (statement : ExecutableStatement)
    (index : ℕ) : Check := do
  ensure (statement.id.isValid && statement.id.index == index &&
    blockExists function statement.blockId) .invalidStatementIdentity
  verifySpanId function statement.spanId
  match statement.operation with
  | .guard _ condition => verifyStatementExpr function.executableBody statement condition
  | .return_ value => verifyReturnStatement function statement value
  | _ => .ok ()

/-- The number of return statements in the block. -/
def returnCount (body : ExecutableBody) (blockId : BlockId) : ℕ :=
  body.statements.countP fun statement =>
    statement.blockId.eql blockId &&
      match statement.operation with
      | .return_ _ => true
      | _ => false

def verifyBranchCondition (function : ExecutableFunction) (terminator : ExecutableTerminator)
    (condition : ExprId) : Check :=
  match function.executableBody.expression condition with
  | none => .error .invalidExpressionReference
  | some value => do
    ensure (value.blockId.eql terminator.blockId) .invalidBlockReference
    match (function.executableBody.statements[value.ownerStatement.index]?).map
        ExecutableStatement.operation with
    | some (.guard kind guarded) =>
      ensure (guarded.eql condition && kind != .assert_) .invalidTerminatorCondition
    | _ => .error .invalidTerminatorCondition

def verifySwitch (function : ExecutableFunction) (terminator : ExecutableTerminator)
    (subject : ExprId) (cases : List ExecutableSwitchCase) (defaultBlock : BlockId) : Check :=
  match function.executableBody.expression subject with
  | none => .error .invalidExpressionReference
  | some value => do
    ensure (value.blockId.eql terminator.blockId) .invalidTerminatorCondition
    if !function.executableBody.complete && cases.isEmpty && !defaultBlock.isValid then .ok ()
    else do
      ensure (!cases.isEmpty && blockExists function defaultBlock) .invalidTerminatorCondition
      cases.forM fun case => ensure (blockExists function case.target) .invalidBlockReference
      ensure (decide (cases.Pairwise fun earlier later => earlier.value ≠ later.value))
        .invalidTerminatorCondition

def verifyTerminator (function : ExecutableFunction) (terminator : ExecutableTerminator) :
    Check := do
  if terminator.spanId.isValid then verifySpanId function terminator.spanId
  match terminator.operation with
  | .fallthrough | .trap_ | .unreachable_ => .ok ()
  | .return_ =>
    let count := returnCount function.executableBody terminator.blockId
    ensure (!(function.executableBody.complete &&
      (decide (1 < count) || (!function.returnsVoid && count != 1)))) .invalidReturnStatement
  | .jump target => ensure (blockExists function target) .invalidBlockReference
  | .forEach bodyBlock afterBlock =>
    ensure (blockExists function bodyBlock && blockExists function afterBlock)
      .invalidBlockReference
  | .forStep headerBlock => ensure (blockExists function headerBlock) .invalidBlockReference
  | .branch condition trueBlock falseBlock =>
    verifyBranchCondition function terminator condition
    ensure (blockExists function trueBlock && blockExists function falseBlock)
      .invalidBlockReference
  | .switch_ subject cases defaultBlock =>
    verifySwitch function terminator subject cases defaultBlock

/-! ## Declared cleanup stacks -/

/-- Pop the actions off a stack, which lists its bottom first; none if they are not its top,
the newest first. -/
def cleanupListPops (stack actions : List CleanupActionId) : Option (List CleanupActionId) :=
  if stack.length < actions.length then none
  else if actions.zipIdx.all fun (action, index) =>
      (stack[stack.length - 1 - index]?).any fun top => top.eql action then
    some (stack.take (stack.length - actions.length))
  else none

def cleanupStackEql (left right : List CleanupActionId) : Bool :=
  left.length == right.length && (left.zip right).all fun (a, b) => a.eql b

/-- The actions the expression runs on its error path. -/
def errorCleanupActions (value : ExecutableExpression) : Option (List CleanupActionId) :=
  match value.operation with
  | .tryPropagate actions => some actions
  | .tryMapError actions => some actions
  | _ => none

/-- The error lists of the `try` operations that the statement owns. -/
def ownedErrorLists (body : ExecutableBody) (statement : ExecutableStatement) :
    List (List CleanupActionId) :=
  (body.expressions.filter fun value => value.ownerStatement.eql statement.id).filterMap
    errorCleanupActions

/-- The statements of the terminator's block, in list order. -/
def blockStatements (body : ExecutableBody) (terminator : ExecutableTerminator) :
    List ExecutableStatement :=
  body.statements.filter fun statement => statement.blockId.eql terminator.blockId

/-- The declared stack after a statement; every error path empties it. -/
def verifyStatementCleanup (body : ExecutableBody) (stack : List CleanupActionId)
    (statement : ExecutableStatement) : Except VerifyError (List CleanupActionId) := do
  (ownedErrorLists body statement).forM fun actions =>
    ensure (cleanupListPops stack actions == some []) .invalidCleanupOrder
  match statement.operation with
  | .deferRegister id =>
    match body.cleanupAction id with
    | none => .error .invalidCleanupActionIdentity
    | some action => do
      ensure (action.registration.eql statement.id &&
        decide (stack.length < body.cleanupActions.length)) .invalidCleanupRegistration
      .ok (stack ++ [id])
  | .cleanupRun actions =>
    match cleanupListPops stack actions with
    | none => .error .invalidCleanupOrder
    | some rest => .ok rest
  | _ => .ok stack

/-- The declared stack that is left when the terminator's exit list has run. -/
def exitCleanupStack (body : ExecutableBody) (terminator : ExecutableTerminator) :
    Except VerifyError (List CleanupActionId) := do
  let stack ← (blockStatements body terminator).foldlM (verifyStatementCleanup body)
    terminator.entryCleanupStack
  match cleanupListPops stack terminator.exitCleanupActions with
  | none => .error .invalidCleanupOrder
  | some remaining => .ok remaining

/-- The blocks an operation continues in. -/
def ExecutableTerminatorOperation.targets : ExecutableTerminatorOperation → List BlockId
  | .jump target => [target]
  | .branch _ trueBlock falseBlock => [trueBlock, falseBlock]
  | .forEach bodyBlock afterBlock => [bodyBlock, afterBlock]
  | .forStep headerBlock => [headerBlock]
  | .switch_ _ cases defaultBlock => defaultBlock :: cases.map ExecutableSwitchCase.target
  | .fallthrough | .return_ | .trap_ | .unreachable_ => []

def verifyCleanupSuccessor (body : ExecutableBody) (stack : List CleanupActionId)
    (target : BlockId) : Check :=
  match body.terminatorByBlock target with
  | none => .error .invalidBlockReference
  | some successor =>
    ensure (cleanupStackEql stack successor.entryCleanupStack) .invalidCleanupSuccessorState

def verifyBlockCleanup (body : ExecutableBody) (terminator : ExecutableTerminator) : Check := do
  ensure (decide (terminator.entryCleanupStack.length ≤ body.cleanupActions.length))
    .invalidCleanupOrder
  let remaining ← exitCleanupStack body terminator
  match terminator.operation with
  | .return_ => ensure remaining.isEmpty .invalidCleanupOrder
  | .fallthrough => .error .invalidBlockReference
  | operation => operation.targets.forM (verifyCleanupSuccessor body remaining)

def verifyExecutableCleanupCfg (function : ExecutableFunction) : Check :=
  let body := function.executableBody
  match body.terminators with
  | [] => .ok ()
  | entry :: _ => do
    ensure entry.entryCleanupStack.isEmpty .invalidCleanupSuccessorState
    body.terminators.forM (verifyBlockCleanup body)

def verifyTerminators (function : ExecutableFunction) : Check := do
  let body := function.executableBody
  ensure (body.terminators.length == function.blocks.length) .invalidTerminatorIdentity
  body.terminators.zipIdx.forM fun (terminator, index) => do
    ensure ((function.blocks[index]?).any fun block => terminator.blockId.eql block.id)
      .invalidTerminatorIdentity
    verifyTerminator function terminator

/-- The checks of `verify` on expressions, cleanup actions, statements, terminators and
cleanup stacks, in its order.  An incomplete body without any table is let pass. -/
def verify (function : ExecutableFunction) : Check :=
  let body := function.executableBody
  if !body.complete && body.expressions.isEmpty && body.statements.isEmpty &&
      body.terminators.isEmpty then .ok ()
  else do
    body.expressions.zipIdx.forM fun (value, index) => verifyExpression function value index
    body.cleanupActions.zipIdx.forM fun (action, index) =>
      verifyCleanupAction function action index
    body.statements.zipIdx.forM fun (statement, index) => verifyStatement function statement index
    verifyTerminators function
    if body.complete then verifyExecutableCleanupCfg function

/-! ## What a verified body establishes -/

lemma entryNamed_eq_some {name : String} {α : Type} {table : List α}
    {idOf : α → TypedIndex name} {id : TypedIndex name} {value : α}
    (h : entryNamed table idOf id = some value) : value ∈ table ∧ idOf value = id := by
  unfold entryNamed at h
  split at h
  · obtain ⟨hget, hid⟩ := Option.filter_eq_some_iff.mp h
    exact ⟨List.mem_of_getElem? hget, TypedIndex.eql_iff.mp hid⟩
  · cases h

/-- Popping succeeds exactly on the stacks that end in the actions, the newest last. -/
lemma cleanupListPops_eq_some {stack actions rest : List CleanupActionId} :
    cleanupListPops stack actions = some rest ↔ stack = rest ++ actions.reverse := by
  unfold cleanupListPops
  constructor
  · intro h
    split at h
    · cases h
    rename_i hlength
    split at h
    · rename_i htop
      have hinitial : actions = stack.reverse.take actions.length := by
        refine List.ext_getElem? fun i => ?_
        by_cases hi : i < actions.length
        · have hpair : (actions[i], i) ∈ actions.zipIdx :=
            List.mem_zipIdx_iff_getElem?.mpr (List.getElem?_eq_getElem hi)
          have hany := List.all_eq_true.mp htop _ hpair
          obtain ⟨top, hget, heq⟩ := (Option.any_eq_true _ _).mp hany
          rw [TypedIndex.eql_iff] at heq
          rw [List.getElem?_take_of_lt hi, List.getElem?_reverse (by omega), hget, heq,
            List.getElem?_eq_getElem hi]
        · rw [List.getElem?_eq_none (by omega), List.getElem?_eq_none]
          rw [List.length_take]
          omega
      have hsplit := List.take_append_drop actions.length stack.reverse
      rw [← hinitial, List.drop_reverse] at hsplit
      have hreverse := congrArg List.reverse hsplit
      rw [List.reverse_append, List.reverse_reverse, List.reverse_reverse] at hreverse
      rw [← Option.some.inj h, hreverse]
    · cases h
  · rintro rfl
    have hlength : ¬ (rest ++ actions.reverse).length < actions.length := by simp
    have htop : (actions.zipIdx.all fun (action, index) =>
        ((rest ++ actions.reverse)[(rest ++ actions.reverse).length - 1 - index]?).any
          fun top => top.eql action) = true := by
      rw [List.all_eq_true]
      rintro ⟨action, i⟩ hpair
      have hget : actions[i]? = some action := List.mem_zipIdx_iff_getElem?.mp hpair
      obtain ⟨hi, -⟩ := List.getElem?_eq_some_iff.mp hget
      have hreverse : (rest ++ actions.reverse)[(rest ++ actions.reverse).length - 1 - i]? =
          some action := by
        rw [← List.getElem?_reverse (by simp; omega), List.reverse_append, List.reverse_reverse,
          List.getElem?_append_left hi, hget]
      simp only [hreverse, Option.any_some, TypedIndex.eql_iff]
    rw [if_neg hlength, if_pos htop]
    simp

lemma cleanupStackEql_iff {left right : List CleanupActionId} :
    cleanupStackEql left right = true ↔ left = right := by
  unfold cleanupStackEql
  rw [Bool.and_eq_true, beq_iff_eq]
  constructor
  · rintro ⟨hlength, hall⟩
    induction left generalizing right with
    | nil => exact (List.eq_nil_of_length_eq_zero hlength.symm).symm
    | cons a left ih =>
      cases right with
      | nil => cases hlength
      | cons b right =>
        rw [List.zip_cons_cons, List.all_cons, Bool.and_eq_true, TypedIndex.eql_iff] at hall
        rw [hall.1, ih (Nat.succ.inj hlength) hall.2]
  · rintro rfl
    refine ⟨rfl, ?_⟩
    induction left with
    | nil => rfl
    | cons a left ih => simp [ih]

end ModernC.Mir
