import ModernC.Comptime.Folder

/-!
# Folding statements at compile time

The statements of a `const fn` body in `eval.zig`, with its assignments, and the table of folders in
which the functions call themselves.
-/

namespace ModernC.Comptime

open Eval (ComptimeValue ComptimeFold comptimeValueEql)
open Framework
open Syntax (Expr TypeExpr Ident Stmt Pattern SwitchArm LoopKind)

variable (F : Folders)

/-- What a statement that has no value ends with. -/
def stopFlow : ComptimeFold → BodyFlow
  | .trap => .trap
  | _ => .unknown

/-! ## Declarations -/

/-- The value of an initializer. -/
def foldInitializer (scope : ComptimeScope) (ty : Option TypeExpr) (init : Expr) :
    Run ComptimeFold :=
  match ty with
  | some ty => F.foldComptimeExprExpected scope init ty
  | none => F.foldComptimeExpr scope init

/-- Bind the type of a declaration: the declared one, or that of the initializer. -/
def bindDeclaredType (scope : ComptimeScope) (name : String) (ty : Option TypeExpr)
    (init : Expr) : Run ComptimeScope :=
  match ty with
  | some ty => pure (scope.bindTypeInfo name ty)
  | none => bindComptimeExprType scope name init

/-- `let` and `var`. -/
def foldLocal (scope : ComptimeScope) (names : List Ident) (ty : Option TypeExpr)
    (init : Option Expr) : Run (ComptimeScope × BodyFlow) :=
  match names, init with
  | [name], some .uninitLiteral =>
    let bound := scope.bind name.text .void
    pure ((match ty with
      | some ty => bound.bindTypeInfo name.text ty
      | none => bound), .fallthrough)
  | [name], some init => do
    match ← foldInitializer F scope ty init with
    | .value value =>
      let scope ← bindDeclaredType (scope.bind name.text value) name.text ty init
      pure (scope, .fallthrough)
    | stop => pure (scope, stopFlow stop)
  | _, _ => pure (scope, .unknown)

/-! ## Assignments -/

inductive AssignResult where
  | ok
  | trap
  | unknown

/-- A step on the way to a place. -/
inductive AssignPathSegment where
  | member (name : String)
  | index (expr : Expr)

def comptimeAssignRootName : Expr → Option String
  | .ident id => some id.text
  | .grouped inner => comptimeAssignRootName inner
  | .index base _ => comptimeAssignRootName base
  | .member base _ => comptimeAssignRootName base
  | _ => none

/-- The path of a target behind its root. -/
def appendAssignPath : Expr → Option (List AssignPathSegment)
  | .ident _ => some []
  | .grouped inner => appendAssignPath inner
  | .member base name => (appendAssignPath base).map fun path => path ++ [.member name.text]
  | .index base index => (appendAssignPath base).map fun path => path ++ [.index index]
  | _ => none

/-- Copy the fields with a new value of the first one of a name. -/
def setField (name : String) (value : ComptimeValue) :
    List (String × ComptimeValue) → List (String × ComptimeValue)
  | [] => []
  | field :: rest =>
    if field.1 = name then (field.1, value) :: rest else field :: setField name value rest

def foldComptimeUpdatePath (scope : ComptimeScope) (replacement : ComptimeValue) :
    ComptimeValue → List AssignPathSegment → Run ComptimeFold
  | _, [] => pure (.value replacement)
  | current, .member name :: path =>
    match current with
    | .struct fields =>
      match fields.lookup name with
      | some inner =>
        onValue (foldComptimeUpdatePath scope replacement inner path) fun value =>
          pure (.value (.struct (setField name value fields)))
      | none => pure .unknown
    | _ => pure .unknown
  | current, .index indexExpr :: path =>
    match current with
    | .array items =>
      onValue (F.foldComptimeExpr scope indexExpr) fun indexValue =>
        match indexNumber indexValue with
        | .error stop => pure stop
        | .ok index =>
          match elementAt items index with
          | .value inner =>
            onValue (foldComptimeUpdatePath scope replacement inner path) fun value =>
              pure (.value (.array (items.set index.toNat value)))
          | stop => pure stop
    | _ => pure .unknown

def foldComptimeUpdateTarget (scope : ComptimeScope) (current : ComptimeValue) (target : Expr)
    (replacement : ComptimeValue) : Run ComptimeFold :=
  match appendAssignPath target with
  | some path => foldComptimeUpdatePath F scope replacement current path
  | none => pure .unknown

/-- What an assignment without a new value ends with. -/
def assignStop : ComptimeFold → AssignResult
  | .trap => .trap
  | _ => .unknown

/-- The assigned value, at the type of the target where that is known. -/
def foldAssigned (scope : ComptimeScope) (target valueExpr : Expr) : Run ComptimeFold := do
  match ← comptimeExprType scope target with
  | some ty => F.foldComptimeExprExpected scope valueExpr ty
  | none => F.foldComptimeExpr scope valueExpr

def foldComptimeAssign (scope : ComptimeScope) (target valueExpr : Expr) :
    Run (ComptimeScope × AssignResult) := do
  match ← foldAssigned F scope target valueExpr with
  | .value v =>
    match comptimeAssignRootName target with
    | none => pure (scope, .unknown)
    | some rootName =>
      match scope.bindings rootName with
      | none => pure (scope, .unknown)
      | some root => do
        match ← foldComptimeUpdateTarget F scope root target v with
        | .value updated => pure (scope.bind rootName updated, .ok)
        | stop => pure (scope, assignStop stop)
  | stop => pure (scope, assignStop stop)

/-- The flow behind an assignment. -/
def assignFlow : AssignResult → BodyFlow
  | .ok => .fallthrough
  | .trap => .trap
  | .unknown => .unknown

/-! ## Loops -/

/-- The limit of the turns of a `while` loop. -/
def comptimeLoopFuel : ℕ := 1000000

/-- What a loop does behind its body: go on, or end with a flow. -/
def loopExit : BodyFlow → Option BodyFlow
  | .fallthrough | .continued => none
  | .broke => some .fallthrough
  | flow => some flow

/-- The turns of a `while` loop. -/
def foldWhileTurns (cond : Expr) (body : List Stmt) :
    ℕ → ComptimeScope → Run (ComptimeScope × BodyFlow)
  | 0, scope => pure (scope, .unknown)
  | fuel + 1, scope => do
    match ← F.foldComptimeExpr scope cond with
    | .value (.boolean true) =>
      let (scope, flow) ← F.foldComptimeStmtSeq scope body
      match loopExit flow with
      | none => foldWhileTurns cond body fuel scope
      | some flow => pure (scope, flow)
    | .value (.boolean false) => pure (scope, .fallthrough)
    | stop => pure (scope, stopFlow stop)

/-- Bind an element and its type. -/
def bindElement (scope : ComptimeScope) (name : String) (value : ComptimeValue)
    (ty : Option TypeExpr) : ComptimeScope :=
  match ty with
  | some ty => (scope.bind name value).bindTypeInfo name ty
  | none => scope.bind name value

/-- The turns of a `for` loop. -/
def foldForTurns (name : String) (elementTy : Option TypeExpr) (body : List Stmt) :
    List ComptimeValue → ComptimeScope → Run (ComptimeScope × BodyFlow)
  | [], scope => pure (scope, .fallthrough)
  | element :: rest, scope => do
    let (scope, flow) ← F.foldComptimeStmtSeq (bindElement scope name element elementTy) body
    match loopExit flow with
    | none => foldForTurns name elementTy body rest scope
    | some flow => pure (scope, flow)

def foldComptimeForLoop (scope : ComptimeScope) (binding : Ident) (iterable : Expr)
    (body : List Stmt) : Run (ComptimeScope × BodyFlow) := do
  let iterableTy ← comptimeExprType scope iterable
  match ← F.foldComptimeExpr scope iterable with
  | .value (.array items) =>
    foldForTurns F binding.text (iterableTy.bind (arrayElementType scope)) body items scope
  | stop => pure (scope, stopFlow stop)

def foldLoop (scope : ComptimeScope) (kind : LoopKind) (label : Option Ident)
    (iterable : Option Expr) (body : List Stmt) : Run (ComptimeScope × BodyFlow) :=
  match kind, iterable, label with
  | .whileLoop, some cond, _ => foldWhileTurns F cond body comptimeLoopFuel scope
  | .forLoop, some iterable, some binding => foldComptimeForLoop F scope binding iterable body
  | _, _, _ => pure (scope, .unknown)

/-! ## Branches -/

/-- The scope in which a branch is taken, or the flow of a pattern that has no answer. -/
abbrev Branch : Type := Except BodyFlow (Option ComptimeScope)

/-- The payload of a result value whose tag is matched. -/
def matchTagBind (scope : ComptimeScope) (tag binding : Ident) (value : ComptimeValue) : Branch :=
  match comptimeResultTag value with
  | none => .error .unknown
  | some name =>
    if name = tag.text then
      match comptimeStructFieldVal value "__result_payload" with
      | none => .error .unknown
      | some payload => .ok (some (scope.bind binding.text payload))
    else .ok none

/-- The type of the payload of an optional. -/
def payloadType (scope : ComptimeScope) (ty : TypeExpr) : TypeExpr :=
  match ty with
  | .nullable child => resolveComptimeType scope child
  | ty => ty

/-- The pattern of an `if let`. -/
def matchIfLet (scope : ComptimeScope) (sourceTy : Option TypeExpr) (value : ComptimeValue) :
    Pattern → Branch
  | .bind name =>
    if isComptimeNull value then .ok none
    else
      let bound := scope.bind name.text value
      .ok (some (match sourceTy with
        | some ty => bound.bindTypeInfo name.text (payloadType bound ty)
        | none => bound))
  | .tagBind tag binding => matchTagBind scope tag binding value
  | .tag tag =>
    match comptimeResultTag value with
    | none => .error .unknown
    | some name => .ok (if name = tag.text then some scope else none)
  | _ => .error .unknown

/-- The statements of the branch that is taken, if there are any. -/
def foldBranch (scope : ComptimeScope) (body : Option (List Stmt)) :
    Run (ComptimeScope × BodyFlow) :=
  match body with
  | some body => F.foldComptimeStmtSeq scope body
  | none => pure (scope, .fallthrough)

def foldComptimeIfLet (scope : ComptimeScope) (pattern : Pattern) (valueExpr : Expr)
    (thenBlock : List Stmt) (elseBlock : Option (List Stmt)) :
    Run (ComptimeScope × BodyFlow) := do
  let sourceTy ← comptimeExprType scope valueExpr
  match ← F.foldComptimeExpr scope valueExpr with
  | .value value =>
    match matchIfLet scope (sourceTy.map (resolveComptimeType scope)) value pattern with
    | .ok (some scope) => F.foldComptimeStmtSeq scope thenBlock
    | .ok none => foldBranch F scope elseBlock
    | .error flow => pure (scope, flow)
  | stop => pure (scope, stopFlow stop)

/-- A pattern of a `switch`. -/
def matchPattern (scope : ComptimeScope) (subject : ComptimeValue)
    (subjectTy : Option TypeExpr) : Pattern → Run Branch
  | .wildcard => pure (.ok (some scope))
  | .bind name => pure (.ok (some (bindElement scope name.text subject subjectTy)))
  | .literal lit => do
    match ← F.foldComptimeExpr scope lit with
    | .value value =>
      pure (.ok (if comptimeValueEql F.floats.toFloatArithmetic value subject then some scope
        else none))
    | stop => pure (.error (stopFlow stop))
  | .tag tag =>
    match subject with
    | .tag name => pure (.ok (if name = tag.text then some scope else none))
    | subject =>
      match comptimeResultTag subject with
      | none => pure (.error .unknown)
      | some name => pure (.ok (if name = tag.text then some scope else none))
  | .tagBind tag binding => pure (matchTagBind scope tag binding subject)

/-- The first pattern that matches. -/
def matchPatterns (scope : ComptimeScope) (subject : ComptimeValue)
    (subjectTy : Option TypeExpr) : List Pattern → Run Branch
  | [] => pure (.ok none)
  | pattern :: rest => do
    match ← matchPattern F scope subject subjectTy pattern with
    | .ok none => matchPatterns scope subject subjectTy rest
    | branch => pure branch

def armPatterns : SwitchArm → List Pattern
  | .block patterns _ _ => patterns
  | .expr patterns _ _ => patterns

/-- The body of an arm.  An expression is folded for its trap. -/
def foldArm (scope : ComptimeScope) : SwitchArm → Run (ComptimeScope × BodyFlow)
  | .block _ body _ => F.foldComptimeStmtSeq scope body
  | .expr _ body _ => do
    match ← F.foldComptimeExpr scope body with
    | .trap => pure (scope, .trap)
    | _ => pure (scope, .fallthrough)

/-- The first arm that matches. -/
def foldArms (scope : ComptimeScope) (subject : ComptimeValue) (subjectTy : Option TypeExpr) :
    List SwitchArm → Run (ComptimeScope × BodyFlow)
  | [] => pure (scope, .unknown)
  | arm :: rest => do
    match ← matchPatterns F scope subject subjectTy (armPatterns arm) with
    | .ok (some scope) => foldArm F scope arm
    | .ok none => foldArms scope subject subjectTy rest
    | .error flow => pure (scope, flow)

def foldComptimeSwitch (scope : ComptimeScope) (subject : Expr) (arms : List SwitchArm) :
    Run (ComptimeScope × BodyFlow) := do
  let subjectTy ← comptimeExprType scope subject
  match ← F.foldComptimeExpr scope subject with
  | .value value => foldArms F scope value subjectTy arms
  | stop => pure (scope, stopFlow stop)

/-! ## Sequences -/

/-- The value that a body returns, at the declared return type. -/
def foldReturn (scope : ComptimeScope) (value : Option Expr) : Run ComptimeFold :=
  match value with
  | none => pure (.value .void)
  | some expr => foldInitializer F scope scope.returnType expr

def foldStmt (scope : ComptimeScope) : Stmt → Run (ComptimeScope × BodyFlow)
  | .letDecl names ty init => foldLocal F scope names ty init
  | .varDecl names ty init => foldLocal F scope names ty init
  | .assignment target value => do
    let (scope, result) ← foldComptimeAssign F scope target value
    pure (scope, assignFlow result)
  | .ret value => do
    pure (scope, .returned (← foldReturn F scope value))
  | .assert expr => do
    match ← F.foldComptimeExpr scope expr with
    | .value (.boolean true) => pure (scope, .fallthrough)
    | .value (.boolean false) => pure (scope, .trap)
    | stop => pure (scope, stopFlow stop)
  | .expr expr => do
    match ← F.foldComptimeExpr scope expr with
    | .value _ => pure (scope, .fallthrough)
    | stop => pure (scope, stopFlow stop)
  | .break _ => pure (scope, .broke)
  | .continue _ => pure (scope, .continued)
  | .loop kind label _ iterable body => foldLoop F scope kind label iterable body
  | .block body => F.foldComptimeStmtSeq scope body
  | .unsafeBlock body => F.foldComptimeStmtSeq scope body
  | .switch subject arms => foldComptimeSwitch F scope subject arms
  | .ifLet pattern value thenBlock elseBlock =>
    foldComptimeIfLet F scope pattern value thenBlock elseBlock
  | _ => pure (scope, .unknown)

def foldComptimeStmtSeq : ComptimeScope → List Stmt → Run (ComptimeScope × BodyFlow)
  | scope, [] => pure (scope, .fallthrough)
  | scope, stmt :: rest => do
    let (scope, flow) ← foldStmt F scope stmt
    match flow with
    | .fallthrough => foldComptimeStmtSeq scope rest
    | flow => pure (scope, flow)

/-! ## The tables of folders -/

/-- The folders that call those of a table. -/
def callingFolders : Folders where
  floats := F.floats
  foldComptimeExpr := foldComptimeExpr F
  foldComptimeExprExpected := foldComptimeExprExpected F
  foldComptimeStmtSeq := foldComptimeStmtSeq F

/-- The folders whose calls are nested at most this deep. -/
def folders (floats : FloatHost) : ℕ → Folders
  | 0 =>
    { floats
      foldComptimeExpr := fun _ _ => .unfinished
      foldComptimeExprExpected := fun _ _ _ => .unfinished
      foldComptimeStmtSeq := fun _ _ => .unfinished }
  | depth + 1 => callingFolders (folders floats depth)

end ModernC.Comptime
