import ModernC.Comptime.HostArithmetic
import ModernC.Framework.GuardedRuns
import ModernC.Syntax.Ast
import ModernC.Syntax.IntegerLiteral

/-!
# The scope of a comptime fold

The names that `eval.zig` folds under, and its view of types: the substitution of type parameters,
the resolution of aliases, and the integer type that a type is.
-/

namespace ModernC.Comptime

open Eval
open Syntax (Expr TypeExpr Ident Param Stmt)

/-! ## Scopes -/

/-- A domain whose width is that of an integer type. -/
abbrev KnownDomain := {d : DomainWidth // d.bits ∈ supportedWidths}

/-- A `const fn`. -/
structure ComptimeFunction where
  params : List Param
  returnType : Option TypeExpr
  body : Option (List Stmt)

/-- The declarations that folding looks up, each by its name: the target of an alias, the type that
a global declares, and the fields of a struct. -/
structure ComptimeDeclarations where
  aliasType : String → Option TypeExpr
  globalType : String → Option TypeExpr
  structFields : String → Option (List (String × TypeExpr))

structure ComptimeScope where
  bindings : String → Option ComptimeValue := fun _ => none
  bindingTypes : String → Option TypeExpr := fun _ => none
  typeBindings : String → Option TypeExpr := fun _ => none
  funcs : Option (List (String × ComptimeFunction)) := none
  declarations : Option ComptimeDeclarations := none
  globals : Option (String → Option ComptimeValue) := none
  globalDomains : Option (String → Option KnownDomain) := none
  reflect : Option (Expr → Option ℤ) := none
  callDepth : ℕ := 0
  returnType : Option TypeExpr := none
  widths : String → Option ℕ := fun _ => none
  domains : String → Option KnownDomain := fun _ => none

/-- A map with one more entry. -/
def put {α : Type} (map : String → Option α) (name : String) (a : α) : String → Option α :=
  fun n => if n = name then some a else map n

@[simp]
lemma put_self {α : Type} (map : String → Option α) (name : String) (a : α) :
    put map name a name = some a := if_pos rfl

lemma put_of_ne {α : Type} {map : String → Option α} {name n : String} {a : α} (h : n ≠ name) :
    put map name a n = map n := if_neg h

/-! ## Integer types -/

/-- An integer type of the language. -/
structure IntType where
  bits : ℕ
  signed : Bool
  supported : bits ∈ supportedWidths

/-- `std.fmt.parseInt` to `u16` in decimal. -/
def parseU16 (text : List Char) : Option ℕ :=
  let digits := if text.head? = some '+' then text.tail else text
  if digits = [] ∨ digits.head? = some '_' ∨ digits.getLast? = some '_' then none
  else
    (digits.filter (· ≠ '_')).foldlM (fun number c =>
      if c.isDigit then
        let next := number * 10 + (c.toNat - '0'.toNat)
        if next < 2 ^ 16 then some next else none
      else none) 0

/-- The integer type of this name. -/
def intTypeOfName (name : String) : Option IntType :=
  if name = "usize" ∨ name = "isize" then
    some { bits := 64, signed := name = "isize", supported := by decide }
  else
    match name.toList with
    | [] | [_] => none
    | first :: digits =>
      if first = 'i' ∨ first = 'u' then
        (parseU16 digits).bind fun bits =>
          if h : bits ∈ supportedWidths then
            some { bits, signed := first = 'i', supported := h }
          else none
      else none

/-- The types `wrap` and `sat` of an argument. -/
def domainOfGeneric (base : Ident) : Option ComptimeDomain :=
  if base.text = "wrap" then some .wrap
  else if base.text = "sat" then some .sat
  else none

def comptimeIntType (ty : TypeExpr) : Option IntType :=
  let scalar : Option TypeExpr :=
    match ty with
    | .generic base [arg] => (domainOfGeneric base).map fun _ => arg
    | .generic _ _ => none
    | .qualified _ child => some child
    | ty => some ty
  match scalar with
  | some (.name id) => intTypeOfName id.text
  | _ => none

def comptimeTypeBitWidth (ty : TypeExpr) : Option ℕ := (comptimeIntType ty).map IntType.bits

/-- A name that starts with the letter of the signed types. -/
def startsSigned (name : String) : Bool := name.toList.head? = some 'i'

/-- The domain of an integer type. -/
def IntType.domain (info : IntType) (domain : ComptimeDomain) (signed : Bool) : KnownDomain :=
  ⟨{ domain, bits := info.bits, signed }, info.supported⟩

def comptimeTypeDomainWidth : TypeExpr → Option KnownDomain
  | .name id =>
    (comptimeIntType (.name id)).map fun info => info.domain .checked (startsSigned id.text)
  | .generic base args =>
    (domainOfGeneric base).bind fun domain =>
      match args with
      | [arg] =>
        (comptimeIntType arg).map fun info =>
          info.domain domain (match arg with
            | .name id => startsSigned id.text
            | _ => false)
      | _ => none
  | .qualified _ child => comptimeTypeDomainWidth child
  | _ => none

/-! ## Resolution -/

mutual

/-- A type with the concrete types of the type parameters. -/
def substituteComptimeType (scope : ComptimeScope) : TypeExpr → TypeExpr
  | .name id => (scope.typeBindings id.text).getD (.name id)
  | .enumLiteral id => .enumLiteral id
  | .member base field => .member (substituteComptimeType scope base) field
  | .nullable child => .nullable (substituteComptimeType scope child)
  | .qualified mutability child => .qualified mutability (substituteComptimeType scope child)
  | .pointer mutability child => .pointer mutability (substituteComptimeType scope child)
  | .rawManyPointer mutability child =>
    .rawManyPointer mutability (substituteComptimeType scope child)
  | .slice mutability child => .slice mutability (substituteComptimeType scope child)
  | .array len child => .array len (substituteComptimeType scope child)
  | .generic base args => .generic base (substituteComptimeTypes scope args)
  | .fnPointer params ret =>
    .fnPointer (substituteComptimeTypes scope params) (substituteComptimeType scope ret)
  | .closureType params ret =>
    .closureType (substituteComptimeTypes scope params) (substituteComptimeType scope ret)
  | .dynTrait mutability traitName => .dynTrait mutability traitName

def substituteComptimeTypes (scope : ComptimeScope) : List TypeExpr → List TypeExpr
  | [] => []
  | ty :: rest => substituteComptimeType scope ty :: substituteComptimeTypes scope rest

end

def moduleAliasType (scope : ComptimeScope) (name : String) : Option TypeExpr :=
  scope.declarations.bind fun declarations => declarations.aliasType name

def moduleGlobalType (scope : ComptimeScope) (name : String) : Option TypeExpr :=
  scope.declarations.bind fun declarations => declarations.globalType name

/-- The fields of `moduleStructDecl`. -/
def moduleStructFields (scope : ComptimeScope) (name : String) :
    Option (List (String × TypeExpr)) :=
  scope.declarations.bind fun declarations => declarations.structFields name

/-- Follow qualifiers and aliases, `fuel` of them at most. -/
def resolveSteps (scope : ComptimeScope) : ℕ → TypeExpr → TypeExpr
  | 0, ty => ty
  | fuel + 1, .name id =>
    match moduleAliasType scope id.text with
    | none => .name id
    | some aliased => resolveSteps scope fuel (substituteComptimeType scope aliased)
  | fuel + 1, .qualified _ child => resolveSteps scope fuel child
  | _ + 1, ty => ty

def resolveComptimeType (scope : ComptimeScope) (ty : TypeExpr) : TypeExpr :=
  resolveSteps scope 32 (substituteComptimeType scope ty)

def moduleStructFieldType (scope : ComptimeScope) (ty : TypeExpr) (fieldName : String) :
    Option TypeExpr :=
  match resolveComptimeType scope ty with
  | .name id =>
    (moduleStructFields scope id.text).bind fun fields =>
      (fields.find? fun field => field.1 = fieldName).map fun field =>
        resolveComptimeType scope field.2
  | _ => none

/-! ## Names -/

def ComptimeScope.bind (scope : ComptimeScope) (name : String) (value : ComptimeValue) :
    ComptimeScope :=
  { scope with bindings := put scope.bindings name value }

def ComptimeScope.bindType (scope : ComptimeScope) (name : String) (ty : TypeExpr) :
    ComptimeScope :=
  { scope with typeBindings := put scope.typeBindings name ty }

def ComptimeScope.bindWidth (scope : ComptimeScope) (name : String) (bits : ℕ) : ComptimeScope :=
  { scope with widths := put scope.widths name bits }

def ComptimeScope.bindDomain (scope : ComptimeScope) (name : String) (dw : KnownDomain) :
    ComptimeScope :=
  { scope with
    domains := put scope.domains name dw
    widths := put scope.widths name dw.val.bits }

/-- Record the resolved type of a name, and its width and domain where it has one. -/
def ComptimeScope.recordType (scope : ComptimeScope) (name : String) (resolved : TypeExpr) :
    ComptimeScope :=
  let typed := { scope with bindingTypes := put scope.bindingTypes name resolved }
  match comptimeTypeBitWidth resolved, comptimeTypeDomainWidth resolved with
  | _, some dw => typed.bindDomain name dw
  | some bits, none => typed.bindWidth name bits
  | none, none => typed

def ComptimeScope.bindTypeInfo (scope : ComptimeScope) (name : String) (ty : TypeExpr) :
    ComptimeScope :=
  scope.recordType name (resolveComptimeType scope ty)

def comptimeIdentValue (scope : ComptimeScope) (name : String) : Option ComptimeValue :=
  (scope.bindings name).or (scope.globals.bind fun globals => globals name)

/-! ## Type parameters -/

/-- The type that a `comptime T: type` parameter is declared with. -/
def isTypeName : TypeExpr → Bool
  | .name id => id.text = "type"
  | _ => false

def isComptimeTypeParam (param : Param) : Bool :=
  param.isComptime &&
    match param.ty with
    | .qualified _ child => isTypeName child
    | ty => isTypeName ty

def comptimeTypeArg (scope : ComptimeScope) : Expr → Option TypeExpr
  | .ident id => some ((scope.typeBindings id.text).getD (.name id))
  | .grouped inner => comptimeTypeArg scope inner
  | _ => none

/-! ## What a binding leaves alone -/

@[simp]
lemma bindings_bind (scope : ComptimeScope) (name : String) (value : ComptimeValue) :
    (scope.bind name value).bindings = put scope.bindings name value := rfl

/-- Recording a type changes the tables of types alone. -/
lemma recordType_eq (scope : ComptimeScope) (name : String) (resolved : TypeExpr) :
    ∃ widths domains, scope.recordType name resolved =
      { scope with bindingTypes := put scope.bindingTypes name resolved, widths, domains } := by
  unfold ComptimeScope.recordType
  cases comptimeTypeBitWidth resolved <;> cases comptimeTypeDomainWidth resolved <;>
    exact ⟨_, _, rfl⟩

@[simp]
lemma bindings_bindTypeInfo (scope : ComptimeScope) (name : String) (ty : TypeExpr) :
    (scope.bindTypeInfo name ty).bindings = scope.bindings := by
  obtain ⟨widths, domains, heq⟩ := recordType_eq scope name (resolveComptimeType scope ty)
  rw [ComptimeScope.bindTypeInfo, heq]

end ModernC.Comptime

/-!
## The types of comptime expressions

The type, width and domain that an expression has as far as the scope knows them.  The type of a
call pairs the parameters of the function with the arguments of the call, which stops the host where
their numbers differ.
-/

namespace ModernC.Comptime

open Eval Framework
open Syntax (Expr TypeExpr Param)

/-! ## Runs -/

/-- The steps in front of an operation that can stop the host. -/
inductive HostStep where
  | negation (dw : Option DomainWidth) (value : ℤ)
  | shift (op : BinaryOp) (value count : ℤ) (dw : Option DomainWidth)
  | returnType (params args : ℕ)

/-- The host gets past a step. -/
def HostStep.Safe : HostStep → Prop
  | .negation dw value => ¬ NegOverflows dw value
  | .shift op value count dw => ¬ ShiftOverflows op value count dw
  | .returnType params args => params = args

/-- A run of the folder. -/
abbrev Run (α : Type) : Type := GuardedRun HostStep HostStep.Safe α

/-- The loop `for (params, args)`, which wants as many of the one as of the other. -/
def zipSameLength {α β : Type} (xs : List α) (ys : List β) : Option (List (α × β)) :=
  if xs.length = ys.length then some (xs.zip ys) else none

lemma zipSameLength_eq_none_iff {α β : Type} {xs : List α} {ys : List β} :
    zipSameLength xs ys = none ↔ xs.length ≠ ys.length := by
  unfold zipSameLength
  split_ifs with h <;> simp [h]

/-! ## Types -/

/-- The type parameters of a call, bound in a scope of their own. -/
def bindTypeParams (scope : ComptimeScope) :
    ComptimeScope → List (Param × Expr) → Option ComptimeScope
  | callScope, [] => some callScope
  | callScope, (param, arg) :: rest =>
    if isComptimeTypeParam param then
      (comptimeTypeArg scope arg).bind fun ty =>
        bindTypeParams scope
          (callScope.bindType param.name.text (resolveComptimeType scope ty)) rest
    else bindTypeParams scope callScope rest

/-- The return type of a function in the scope of the type parameters of a call. -/
def substitutedReturnType (scope : ComptimeScope) (returnType : TypeExpr)
    (pairs : List (Param × Expr)) : Option TypeExpr :=
  let callScope : ComptimeScope := { declarations := scope.declarations, funcs := scope.funcs }
  (bindTypeParams scope callScope pairs).map fun callScope =>
    resolveComptimeType callScope returnType

def comptimeCallReturnType (scope : ComptimeScope) (callee : Expr) (args : List Expr) :
    Run (Option TypeExpr) :=
  match scope.funcs, callee with
  | some funcs, .ident id =>
    match funcs.lookup id.text with
    | none => pure none
    | some fnDecl =>
      match fnDecl.returnType with
      | none => pure none
      | some returnType =>
        .attempt (.returnType fnDecl.params.length args.length)
          ((zipSameLength fnDecl.params args).map (substitutedReturnType scope returnType))
          (by rw [Option.map_eq_none_iff]; exact zipSameLength_eq_none_iff)
  | _, _ => pure none

def comptimeIntegerLiteralType (literal : String) : Option TypeExpr :=
  (Syntax.parseIntegerLiteralParts literal).bind fun parsed =>
    parsed.suffix.map fun suffix => .name { text := suffix.typeName }

/-- The element type of an array type. -/
def arrayElementType (scope : ComptimeScope) (ty : TypeExpr) : Option TypeExpr :=
  match resolveComptimeType scope ty with
  | .array _ child => some (resolveComptimeType scope child)
  | _ => none

def comptimeExprType (scope : ComptimeScope) : Expr → Run (Option TypeExpr)
  | .intLiteral text => pure (comptimeIntegerLiteralType text)
  | .ident id =>
    pure ((scope.bindingTypes id.text).or
      ((moduleGlobalType scope id.text).map (resolveComptimeType scope)))
  | .grouped inner => comptimeExprType scope inner
  | .unary _ operand => comptimeExprType scope operand
  | .binary _ left right => do
    match ← comptimeExprType scope left with
    | some ty => pure (some ty)
    | none => comptimeExprType scope right
  | .cast _ ty => pure (some (resolveComptimeType scope ty))
  | .index base _ => do
    let baseTy ← comptimeExprType scope base
    pure (baseTy.bind (arrayElementType scope))
  | .member base name => do
    let baseTy ← comptimeExprType scope base
    pure (baseTy.bind fun ty => moduleStructFieldType scope ty name.text)
  | .call callee _ args => comptimeCallReturnType scope callee args
  | _ => pure none

/-! ## Widths and domains -/

/-- What the type of an expression tells, where the scope knows it. -/
def ofExprType {α : Type} (scope : ComptimeScope) (read : TypeExpr → Option α)
    (ty : Option TypeExpr) : Option α :=
  ty.bind fun ty => read (resolveComptimeType scope ty)

def comptimeExprWidth (scope : ComptimeScope) (expr : Expr) : Run (Option ℕ) := do
  match ofExprType scope comptimeTypeBitWidth (← comptimeExprType scope expr) with
  | some bits => pure (some bits)
  | none =>
    match expr with
    | .ident id => pure (scope.widths id.text)
    | .grouped inner => comptimeExprWidth scope inner
    | .unary _ operand => comptimeExprWidth scope operand
    | .binary _ left right => do
      match ← comptimeExprWidth scope left with
      | some bits => pure (some bits)
      | none => comptimeExprWidth scope right
    | .cast _ ty => pure (comptimeTypeBitWidth ty)
    | _ => pure none

def comptimeExprDomainWidth (scope : ComptimeScope) (expr : Expr) : Run (Option KnownDomain) := do
  match ofExprType scope comptimeTypeDomainWidth (← comptimeExprType scope expr) with
  | some dw => pure (some dw)
  | none =>
    match expr with
    | .ident id =>
      pure ((scope.domains id.text).or (scope.globalDomains.bind fun domains => domains id.text))
    | .grouped inner => comptimeExprDomainWidth scope inner
    | .unary _ operand => comptimeExprDomainWidth scope operand
    | .binary _ left right => do
      match ← comptimeExprDomainWidth scope left with
      | some dw => pure (some dw)
      | none => comptimeExprDomainWidth scope right
    | .cast _ ty => pure (comptimeTypeDomainWidth ty)
    | _ => pure none

/-- The domain that an operation without an expected type is evaluated in. -/
def operandsDomainWidth (scope : ComptimeScope) (left right : Expr) :
    Run (Option KnownDomain) := do
  match ← comptimeExprDomainWidth scope left with
  | some dw => pure (some dw)
  | none => comptimeExprDomainWidth scope right

/-- Bind the type that an initializer has. -/
def bindComptimeExprType (scope : ComptimeScope) (name : String) (expr : Expr) :
    Run ComptimeScope := do
  match ← comptimeExprType scope expr with
  | some ty => pure (scope.bindTypeInfo name ty)
  | none => pure scope

end ModernC.Comptime
