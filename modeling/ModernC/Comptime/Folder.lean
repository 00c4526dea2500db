import ModernC.Comptime.Casts
import ModernC.Layout.LengthFold
import ModernC.Loader.Loader

/-!
# Folding expressions at compile time

The expressions of `eval.zig`, folded without an expected type and at one.  Folding calls itself
through a table of folders (`Folders`), so that each function of the source is a definition on its
own; the tables are tied together level by level.
-/

namespace ModernC.Comptime

open Eval (ComptimeValue ComptimeFold ComptimeFloat comptimeOperandsEql foldComptimeLogicalNot
  foldFloatBinary comptimeUnsignedValue complement128 bitCastToU128 u128Max i128Max)
open Framework
open Syntax (Expr TypeExpr Ident Param Stmt StructLiteralField UnaryOp)
open Layout (operator contextApplies comptimeIntegerLiteral parseCharLiteral)

/-! ## Folders -/

/-- How a sequence of statements ends. -/
inductive BodyFlow where
  | fallthrough
  | returned (fold : ComptimeFold)
  | broke
  | continued
  | trap
  | unknown

/-- The functions that folding calls recursively. -/
structure Folders where
  floats : FloatHost
  foldComptimeExpr : ComptimeScope → Expr → Run ComptimeFold
  foldComptimeExprExpected : ComptimeScope → Expr → TypeExpr → Run ComptimeFold
  foldComptimeStmtSeq : ComptimeScope → List Stmt → Run (ComptimeScope × BodyFlow)

variable (F : Folders)

/-- Go on with a value. -/
def onValue (fold : Run ComptimeFold) (next : ComptimeValue → Run ComptimeFold) :
    Run ComptimeFold := do
  match ← fold with
  | .value value => next value
  | .trap => pure .trap
  | .unknown => pure .unknown

/-! ## Unary operators -/

/-- A float with the other sign. -/
def flipSign (x : ComptimeFloat) : ComptimeFloat :=
  { x with bits := x.bits ^^^ (if x.width == 32 then 2 ^ 31 else 2 ^ 63) }

/-- The complement of a value under the mask of a width. -/
def foldBitNot (bits : Option ℕ) : ComptimeValue → ComptimeFold
  | .int v =>
    match bits with
    | none => .unknown
    | some bits =>
      let mask := if 128 ≤ bits then u128Max else 2 ^ bits - 1
      .value (comptimeUnsignedValue (complement128 (bitCastToU128 v) &&& mask))
  | .uint v =>
    match bits with
    | none => .unknown
    | some bits =>
      let mask := if 128 ≤ bits then u128Max else 2 ^ bits - 1
      .value (comptimeUnsignedValue (complement128 (v % 2 ^ 128) &&& mask))
  | _ => .unknown

def foldComptimeUnary (scope : ComptimeScope) (op : UnaryOp) (operandExpr : Expr) :
    Run ComptimeFold :=
  onValue (F.foldComptimeExpr scope operandExpr) fun operand =>
    match op, operand with
    | .neg, .int v => do foldComptimeIntegerNeg (← comptimeExprDomainWidth scope operandExpr) v
    | .neg, .uint v => do foldComptimeUnsignedNeg (← comptimeExprDomainWidth scope operandExpr) v
    | .neg, .float x => pure (.value (.float (flipSign x)))
    | .neg, _ => pure .unknown
    | .bitNot, .int v => do
      pure (foldBitNot (← comptimeExprWidth scope operandExpr) (.int v))
    | .bitNot, .uint v => do
      pure (foldBitNot (← comptimeExprWidth scope operandExpr) (.uint v))
    | .bitNot, _ => pure .unknown
    | .logicalNot, operand => pure (foldComptimeLogicalNot operand)

/-- The negation of an operand that is expected to be of a resolved type. -/
def foldNegExpected (scope : ComptimeScope) (resolved : TypeExpr) :
    ComptimeValue → Run ComptimeFold
  | .int v => foldComptimeIntegerNeg (comptimeTypeDomainWidth resolved) v
  | .uint v => foldComptimeUnsignedNeg (comptimeTypeDomainWidth resolved) v
  | .float x =>
    onValue (contextualComptimeValue F.floats scope (.float x) resolved) fun converted =>
      match converted with
      | .float x => pure (.value (.float (flipSign x)))
      | _ => pure .unknown
  | _ => pure .unknown

/-- The complement of an operand that is expected to be of a resolved type. -/
def foldBitNotExpected (scope : ComptimeScope) (resolved : TypeExpr) (operand : ComptimeValue) :
    Run ComptimeFold :=
  match comptimeTypeBitWidth resolved with
  | none => pure .unknown
  | some bits => contextualFold F.floats scope resolved (foldBitNot (some bits) operand)

def foldComptimeUnaryExpected (scope : ComptimeScope) (op : UnaryOp) (operandExpr : Expr)
    (expectedTy : TypeExpr) : Run ComptimeFold :=
  let resolved := resolveComptimeType scope expectedTy
  onValue (F.foldComptimeExpr scope operandExpr) fun operand =>
    match op with
    | .neg => do
      contextualFold F.floats scope resolved (← foldNegExpected F scope resolved operand)
    | .bitNot => do
      contextualFold F.floats scope resolved (← foldBitNotExpected F scope resolved operand)
    | .logicalNot => foldComptimeUnary F scope .logicalNot operandExpr

/-! ## Binary operators -/

/-- `and` and `or`: the left operand may decide. -/
def foldLogical (scope : ComptimeScope) (isAnd : Bool) (left right : Expr) : Run ComptimeFold :=
  onValue (F.foldComptimeExpr scope left) fun value =>
    match value with
    | .boolean decided =>
      if decided != isAnd then pure (.value (.boolean decided))
      else
        onValue (F.foldComptimeExpr scope right) fun value =>
          match value with
          | .boolean b => pure (.value (.boolean b))
          | _ => pure .unknown
    | _ => pure .unknown

/-- The operators on two integers, in the domain that is known for them. -/
def foldIntegers (op : Eval.BinaryOp) (hlogical : ¬ IsLogical op) (heq : ¬ IsEquality op)
    (left right : ComptimeValue) (dw : Option KnownDomain) : Run ComptimeFold :=
  match left, right with
  | .uint _, _ | _, .uint _ => foldWideUnsignedBinary op hlogical left right dw
  | _, _ =>
    if dw.any fun d => !d.val.signed then foldWideUnsignedBinary op hlogical left right dw
    else
      match left, right with
      | .int l, .int r => foldSignedBinary op hlogical heq l r dw
      | _, _ => pure .unknown

/-- An operator on two folded operands; the domain is looked up where it matters. -/
def foldOperands (op : Eval.BinaryOp) (hlogical : ¬ IsLogical op) (left right : ComptimeValue)
    (dw : Run (Option KnownDomain)) : Run ComptimeFold :=
  if heq : IsEquality op then
    pure <|
      match comptimeOperandsEql F.floats.toFloatArithmetic left right with
      | none => .unknown
      | some equal => .value (.boolean (if op = .eq then equal else !equal))
  else
    match left, right with
    | .float l, .float r => pure (foldFloatBinary F.floats.toFloatArithmetic op l r)
    | .float _, _ | _, .float _ => pure .unknown
    | left, right => do foldIntegers op hlogical heq left right (← dw)

/-- An operand, at the expected type where the operator passes it on. -/
def foldOperand (scope : ComptimeScope) (expectedTy : Option TypeExpr) (expr : Expr) :
    Run ComptimeFold :=
  match expectedTy with
  | some ty => F.foldComptimeExprExpected scope expr ty
  | none => F.foldComptimeExpr scope expr

/-- The domain of an operation: that of the expected type, or that of an operand. -/
def binaryDomainWidth (scope : ComptimeScope) (expectedTy : Option TypeExpr) (left right : Expr) :
    Run (Option KnownDomain) :=
  match expectedTy.bind fun ty => comptimeTypeDomainWidth (resolveComptimeType scope ty) with
  | some dw => pure (some dw)
  | none => operandsDomainWidth scope left right

def foldComptimeBinaryWithExpected (scope : ComptimeScope) (op : Syntax.BinaryOp)
    (left right : Expr) (expectedTy : Option TypeExpr) : Run ComptimeFold :=
  if hlogical : IsLogical (operator op) then
    foldLogical F scope (operator op = .logicalAnd) left right
  else do
    let operandTy := if contextApplies op then expectedTy else none
    let leftFold ← foldOperand F scope operandTy left
    let rightFold ← foldOperand F scope operandTy right
    onValue (pure leftFold) fun l =>
      onValue (pure rightFold) fun r =>
        foldOperands F (operator op) hlogical l r (binaryDomainWidth scope expectedTy left right)

/-! ## Aggregates -/

/-- Fold items one by one; the first one without a value decides. -/
def foldItems {α : Type} (fold : α → Run ComptimeFold) :
    List α → Run (Except ComptimeFold (List ComptimeValue))
  | [] => pure (.ok [])
  | item :: rest => do
    match ← fold item with
    | .value value =>
      match ← foldItems fold rest with
      | .ok values => pure (.ok (value :: values))
      | .error stop => pure (.error stop)
    | stop => pure (.error stop)

def foldComptimeArrayLiteral (scope : ComptimeScope) (items : List Expr) : Run ComptimeFold := do
  match ← foldItems (F.foldComptimeExpr scope) items with
  | .ok values => pure (.value (.array values))
  | .error stop => pure stop

def fieldName : StructLiteralField → String
  | .mk name _ => name.text

def fieldValue : StructLiteralField → Expr
  | .mk _ value => value

/-- A struct of the fields of a literal. -/
def structOf (fields : List StructLiteralField) (values : List ComptimeValue) : ComptimeValue :=
  .struct ((fields.map fieldName).zip values)

def foldComptimeStructLiteral (scope : ComptimeScope) (fields : List StructLiteralField) :
    Run ComptimeFold := do
  match ← foldItems (fun field => F.foldComptimeExpr scope (fieldValue field)) fields with
  | .ok values => pure (.value (structOf fields values))
  | .error stop => pure stop

def foldComptimeArrayLiteralExpected (scope : ComptimeScope) (items : List Expr)
    (expectedTy : TypeExpr) : Run ComptimeFold :=
  match resolveComptimeType scope expectedTy with
  | .array _ child => do
    match ← foldItems (fun item => F.foldComptimeExprExpected scope item child) items with
    | .ok values => pure (.value (.array values))
    | .error stop => pure stop
  | _ => foldComptimeArrayLiteral F scope items

/-- A field of a struct literal, at its declared type. -/
def foldField (scope : ComptimeScope) (declared : List (String × TypeExpr))
    (field : StructLiteralField) : Run ComptimeFold :=
  match declared.find? fun decl => decl.1 = fieldName field with
  | some (_, ty) => F.foldComptimeExprExpected scope (fieldValue field) ty
  | none => F.foldComptimeExpr scope (fieldValue field)

def foldComptimeStructLiteralExpected (scope : ComptimeScope) (fields : List StructLiteralField)
    (expectedTy : TypeExpr) : Run ComptimeFold :=
  match resolveComptimeType scope expectedTy with
  | .name id =>
    match moduleStructFields scope id.text with
    | some declared => do
      match ← foldItems (foldField F scope declared) fields with
      | .ok values => pure (.value (structOf fields values))
      | .error stop => pure stop
    | none => foldComptimeStructLiteral F scope fields
  | _ => foldComptimeStructLiteral F scope fields

/-- The first field of this name. -/
def comptimeStructFieldVal (value : ComptimeValue) (name : String) : Option ComptimeValue :=
  match value with
  | .struct fields => fields.lookup name
  | _ => none

/-- The bytes of a string literal. -/
def decodeStringLiteral : Expr → Option (List UInt8)
  | .stringLiteral text => Loader.decodeInto text.toUTF8.toList
  | _ => none

/-- The length that a value has as its member `len`. -/
def comptimeLen : ComptimeValue → Option ℕ
  | .array items => some items.length
  | .bytes content => some content.utf8ByteSize
  | _ => none

/-- A member of a folded value. -/
def memberOf (value : ComptimeValue) (name : String) : ComptimeFold :=
  match if name = "len" then comptimeLen value else none with
  | some len => .value (.int len)
  | none => ofValue (comptimeStructFieldVal value name)

def foldComptimeMember (scope : ComptimeScope) (base : Expr) (name : String) :
    Run ComptimeFold :=
  match if name = "len" then decodeStringLiteral base else none with
  | some bytes => pure (.value (.int bytes.length))
  | none => onValue (F.foldComptimeExpr scope base) fun value => pure (memberOf value name)

/-- The number of an index; one that is no `i128` traps. -/
def indexNumber : ComptimeValue → Except ComptimeFold ℤ
  | .int n => .ok n
  | .uint n => if (n : ℤ) ≤ i128Max then .ok n else .error .trap
  | _ => .error .unknown

/-- The element at an index; out of bounds is a trap. -/
def elementAt (items : List ComptimeValue) (index : ℤ) : ComptimeFold :=
  if index < 0 then .trap
  else
    match items[index.toNat]? with
    | some value => .value value
    | none => .trap

/-- An element of a folded value. -/
def elementOf (base : ComptimeValue) (index : ℤ) : ComptimeFold :=
  match base with
  | .array items => elementAt items index
  | .bytes content =>
    elementAt (content.toUTF8.toList.map fun byte => .int byte.toNat) index
  | _ => .unknown

def foldComptimeIndex (scope : ComptimeScope) (base index : Expr) : Run ComptimeFold :=
  let baseFold : Run ComptimeFold :=
    match decodeStringLiteral base with
    | some bytes => pure (.value (.array (bytes.map fun byte => .int byte.toNat)))
    | none => F.foldComptimeExpr scope base
  onValue baseFold fun baseValue =>
    onValue (F.foldComptimeExpr scope index) fun indexValue =>
      match indexNumber indexValue with
      | .ok number => pure (elementOf baseValue number)
      | .error stop => pure stop

/-! ## Built-in calls -/

/-- The callee is this name. -/
def isCalleeName (name : String) : Expr → Bool
  | .ident id => id.text = name
  | .grouped inner => isCalleeName name inner
  | _ => false

/-- The value of `ok(v)` and `err(e)`. -/
def comptimeResult (isOk : Bool) (payload : ComptimeValue) : ComptimeValue :=
  .struct [("__result_tag", .tag (if isOk then "ok" else "err")), ("__result_payload", payload)]

def isComptimeNull (value : ComptimeValue) : Bool :=
  (comptimeStructFieldVal value "__null").isSome

def comptimeResultTag (value : ComptimeValue) : Option String :=
  match comptimeStructFieldVal value "__result_tag" with
  | some (.tag name) => some name
  | _ => none

/-- The bits of a float in an integer type of its width. -/
def floatBits (floats : FloatHost) (bits : ℕ) (x : ComptimeFloat) : Option ℕ :=
  if bits = 64 ∨ bits = 32 then some (if x.width = bits then x.bits else (floats.convert bits x).bits)
  else none

/-- `bitcast` of a value to a type of this name, on the host. -/
def hostBitcast (floats : FloatHost) (name : String) (target : TypeExpr)
    (operand : ComptimeValue) : Option ComptimeFold :=
  match floatWidth name with
  | some width =>
    some <|
      match operand with
      | .int n => .value (.float { bits := bitCastToU128 n % 2 ^ width, width })
      | .uint n => .value (.float { bits := n % 2 ^ width, width })
      | .float x => .value (.float (floats.convert width x))
      | _ => .unknown
  | none =>
    match comptimeIntType target with
    | none => some .unknown
    | some info =>
      match operand with
      | .int n => (hostValueFromBits info (bitCastToU128 n)).map ofValue
      | .uint n => (hostValueFromBits info (n % 2 ^ 128)).map ofValue
      | .float x =>
        match floatBits floats info.bits x with
        | some raw => (hostValueFromBits info raw).map ofValue
        | none => some .unknown
      | _ => some .unknown

lemma hostBitcast_ne_none (floats : FloatHost) (name : String) (target : TypeExpr)
    (operand : ComptimeValue) : hostBitcast floats name target operand ≠ none := by
  unfold hostBitcast
  simp only [hostValueFromBits_eq, Option.map_some]
  cases floatWidth name with
  | some width => simp
  | none =>
    cases comptimeIntType target with
    | none => simp
    | some info =>
      cases operand with
      | float x =>
        simp only
        cases floatBits floats info.bits x <;> simp
      | _ => simp

/-- `bitcast` of a value to a type of this name. -/
def bitcastTo (floats : FloatHost) (id : Ident) (operand : ComptimeValue) : Run ComptimeFold :=
  .certain (hostBitcast floats id.text (.name id) operand)
    (hostBitcast_ne_none floats id.text _ operand)

def foldComptimeBitcast (scope : ComptimeScope) (typeArgs : List TypeExpr) (args : List Expr) :
    Run ComptimeFold :=
  match typeArgs, args with
  | [.name id], [arg] => onValue (F.foldComptimeExpr scope arg) (bitcastTo F.floats id)
  | _, _ => pure .unknown

/-! ## Reflection -/

/-- A reflection call with its type parameters replaced. -/
def rewriteReflectionExpr (scope : ComptimeScope) (callee : Expr) (typeArgs : List TypeExpr)
    (args : List Expr) : Expr :=
  match typeArgs, args with
  | [], [] => .call callee [] []
  | [], arg :: rest =>
    match comptimeTypeArg scope arg with
    | none => .call callee [] (arg :: rest)
    | some ty => .call callee [substituteComptimeType scope ty] rest
  | typeArgs, args => .call callee (substituteComptimeTypes scope typeArgs) args

def foldComptimeReflection (scope : ComptimeScope) (callee : Expr) (typeArgs : List TypeExpr)
    (args : List Expr) : ComptimeFold :=
  match scope.reflect with
  | none => .unknown
  | some reflect =>
    match reflect (rewriteReflectionExpr scope callee typeArgs args) with
    | some value => .value (.int value)
    | none => .unknown

/-! ## Calls -/

/-- The limit of nested calls. -/
def comptimeCallFuel : ℕ := 256

/-- Bind the arguments of a call in the scope of the callee. -/
def bindArguments (scope : ComptimeScope) :
    ComptimeScope → List (Param × Expr) → Run (Except ComptimeFold ComptimeScope)
  | calleeScope, [] => pure (.ok calleeScope)
  | calleeScope, (param, arg) :: rest =>
    if isComptimeTypeParam param then
      match comptimeTypeArg scope arg with
      | some ty => bindArguments scope (calleeScope.bindType param.name.text ty) rest
      | none => pure (.error .unknown)
    else do
      let paramTy := resolveComptimeType calleeScope param.ty
      match ← F.foldComptimeExprExpected scope arg paramTy with
      | .value value =>
        bindArguments scope
          ((calleeScope.bind param.name.text value).bindTypeInfo param.name.text paramTy) rest
      | stop => pure (.error stop)

/-- The scope that the parameters of a callee are bound in. -/
def freshCalleeScope (scope : ComptimeScope) : ComptimeScope where
  funcs := scope.funcs
  declarations := scope.declarations
  globals := scope.globals
  globalDomains := scope.globalDomains
  reflect := scope.reflect
  callDepth := scope.callDepth + 1

def foldComptimeFnBody (scope : ComptimeScope) (body : List Stmt) : Run ComptimeFold := do
  let (_, flow) ← F.foldComptimeStmtSeq scope body
  match flow with
  | .returned fold => pure fold
  | .trap => pure .trap
  | _ => pure .unknown

/-- The scope of a body, with the return type that its values are expected at. -/
def withReturnType (scope : ComptimeScope) (returnType : Option TypeExpr) : ComptimeScope :=
  { scope with returnType := returnType.map (resolveComptimeType scope) }

def foldComptimeCall (scope : ComptimeScope) (callee : Expr) (args : List Expr) :
    Run ComptimeFold :=
  match scope.funcs, callee with
  | some funcs, .ident id =>
    if comptimeCallFuel ≤ scope.callDepth then pure .unknown
    else
      match funcs.lookup id.text with
      | none => pure .unknown
      | some fnDecl =>
        match fnDecl.body with
        | none => pure .unknown
        | some body =>
          if args.length ≠ fnDecl.params.length then pure .unknown
          else do
            match ← bindArguments F scope (freshCalleeScope scope) (fnDecl.params.zip args) with
            | .ok calleeScope =>
              foldComptimeFnBody F (withReturnType calleeScope fnDecl.returnType) body
            | .error stop => pure stop
  | _, _ => pure .unknown

/-- A call: a built-in one, one of a `const fn`, or else a reflection. -/
def foldCall (scope : ComptimeScope) (callee : Expr) (typeArgs : List TypeExpr)
    (args : List Expr) : Run ComptimeFold :=
  if isCalleeName "comptime_error" callee then pure .trap
  else if isCalleeName "bitcast" callee then foldComptimeBitcast F scope typeArgs args
  else
    match isCalleeName "ok" callee || isCalleeName "err" callee, args with
    | true, [arg] =>
      onValue (F.foldComptimeExpr scope arg) fun payload =>
        pure (.value (comptimeResult (isCalleeName "ok" callee) payload))
    | _, args => do
      match ← foldComptimeCall F scope callee args with
      | .unknown => pure (foldComptimeReflection scope callee typeArgs args)
      | fold => pure fold

/-! ## Expressions -/

def foldComptimeExpr (scope : ComptimeScope) : Expr → Run ComptimeFold
  | .voidLiteral => pure (.value .void)
  | .intLiteral text => pure (ofValue (comptimeIntegerLiteral text))
  | .floatLiteral text => pure (ofValue ((F.floats.parseFloat text).map .float))
  | .charLiteral text => pure (ofValue ((parseCharLiteral text).map fun c : ℕ => .int c))
  | .boolLiteral value => pure (.value (.boolean value))
  | .enumLiteral id => pure (.value (.tag id.text))
  | .ident id => pure (ofValue (comptimeIdentValue scope id.text))
  | .grouped inner => F.foldComptimeExpr scope inner
  | .unary op operand => foldComptimeUnary F scope op operand
  | .binary op left right => foldComptimeBinaryWithExpected F scope op left right none
  | .call callee typeArgs args => foldCall F scope callee typeArgs args
  | .cast value ty =>
    onValue (F.foldComptimeExpr scope value) fun v => do
      pure (ofValue (← comptimeCastValue F.floats v ty))
  | .arrayLiteral items => foldComptimeArrayLiteral F scope items
  | .index base index => foldComptimeIndex F scope base index
  | .structLiteral fields => foldComptimeStructLiteral F scope fields
  | .member base name => foldComptimeMember F scope base name.text
  | _ => pure .unknown

def foldComptimeExprExpected (scope : ComptimeScope) (expr : Expr) (expectedTy : TypeExpr) :
    Run ComptimeFold :=
  let resolved := resolveComptimeType scope expectedTy
  match expr with
  | .grouped inner => F.foldComptimeExprExpected scope inner resolved
  | .binary op left right => foldComptimeBinaryWithExpected F scope op left right (some resolved)
  | .unary op operand => foldComptimeUnaryExpected F scope op operand resolved
  | .arrayLiteral items => foldComptimeArrayLiteralExpected F scope items resolved
  | .structLiteral fields => foldComptimeStructLiteralExpected F scope fields resolved
  | expr => do contextualFold F.floats scope resolved (← F.foldComptimeExpr scope expr)

end ModernC.Comptime
