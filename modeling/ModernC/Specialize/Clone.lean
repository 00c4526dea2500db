import ModernC.Specialize.Names
import ModernC.Syntax.IntegerLiteral
import ModernC.Syntax.Walk

/-!
# The specializing clone

A generic declaration is cloned with its parameters replaced by what they stand for.  On the way
each use of a generic declaration is replaced by the name of its instance, and noted, so that the
instance gets registered; a call of a method of a type becomes a direct call.
-/

namespace ModernC.Specialize

open ModernC.Framework ModernC.Syntax

/-! ## What the clone looks up -/

structure TypeGenericInfo where
  decl : FnDecl
  fileId : Option ℕ
  attrs : List Attr
  isPub : Bool

structure GenericStructInfo where
  decl : StructDecl
  fileId : Option ℕ
  attrs : List Attr
  isPub : Bool

structure GenericUnionInfo where
  decl : UnionDecl
  fileId : Option ℕ
  attrs : List Attr
  isPub : Bool

/-- What is collected of the declarations before the first of them is cloned. -/
structure Program where
  typeGeneric : String → Option TypeGenericInfo
  genericStructs : String → Option GenericStructInfo
  genericUnions : String → Option GenericUnionInfo
  intConsts : String → Option ℤ
  /-- The type of a field, by the name of the type that has it and its own name. -/
  fieldTypes : String → Option (String → Option TypeExpr)
  fnNames : String → Bool
  /-- There is an `impl` of a trait for a type. -/
  conformance : String → String → Bool
  /-- The integer value of an expression, if it has one at compile time. -/
  foldConst : Expr → Option ℤ
  /-- Diagnostics are reported. -/
  reports : Bool

/-- What a clone notes: the uses of generic declarations, and bounds that are not met. -/
inductive CloneEvent where
  | use (use : Use)
  | traitNotSatisfied (concrete : String) (bound : TraitBound)

def traitNotSatisfiedMessage (concrete : String) (bound : TraitBound) : String :=
  "E_TRAIT_NOT_SATISFIED: type '" ++ concrete ++ "' does not satisfy the bound '" ++
    bound.typeParam.text ++ ": " ++ bound.traitName.text ++ "' (no `impl " ++
    bound.traitName.text ++ " for " ++ concrete ++ "`)"

abbrev Clone := Logged CloneEvent

def Subst.get (subst : Subst) (name : String) : Option SubstValue := subst.lookup name

def Subst.put (subst : Subst) (name : String) (value : SubstValue) : Subst :=
  (name, value) :: subst

/-! ## Names in expressions and types -/

def calleeName : Expr → Option Ident
  | .ident id => some id
  | .grouped inner => calleeName inner
  | _ => none

def typeName : TypeExpr → Option String
  | .name id => some id.text
  | .qualified _ child => typeName child
  | _ => none

def enumLiteralName : Expr → Option String
  | .enumLiteral id => some id.text
  | .grouped inner => enumLiteralName inner
  | _ => none

/-- The type of a field, as `field_type(T, .field)` names it. -/
def fieldTypeArgName (fieldTypes : String → Option (String → Option TypeExpr)) (callee : Expr)
    (typeArgs : List TypeExpr) (args : List Expr) : Option String := do
  let name ← calleeName callee
  if name.text ≠ "field_type" then none
  else
    match typeArgs, args with
    | [typeArg], [arg] => do
      let ty ← typeName typeArg
      let field ← enumLiteralName arg
      let fields ← fieldTypes ty
      let fieldTy ← fields field
      typeName fieldTy
    | _, _ => none

def typeArgName (fieldTypes : String → Option (String → Option TypeExpr)) : Expr → Option String
  | .ident id => some id.text
  | .grouped inner => typeArgName fieldTypes inner
  | .call callee typeArgs args => fieldTypeArgName fieldTypes callee typeArgs args
  | _ => none

def isTypeParam (param : Param) : Bool :=
  match param.ty with
  | .name id => id.text == "type"
  | _ => false

/-! ## Generic arguments -/

def maxI128 : ℕ := 2 ^ 127 - 1

/-- Read digits on; separators are skipped. -/
def parseI128Digits (radix : ℕ) (value : ℕ) : List Char → Option ℕ
  | [] => some value
  | c :: rest =>
    if c = '_' then parseI128Digits radix value rest
    else do
      let digit ← digitValue c
      if digit ≥ radix then none
      else if value * radix + digit > maxI128 then none
      else parseI128Digits radix (value * radix + digit) rest

/-- The radix that the prefix of a number gives, and the digits. -/
def splitRadix (text : List Char) : ℕ × List Char :=
  match text with
  | '0' :: c :: d :: rest =>
    if c = 'b' ∨ c = 'B' then (2, d :: rest)
    else if c = 'o' ∨ c = 'O' then (8, d :: rest)
    else if c = 'x' ∨ c = 'X' then (16, d :: rest)
    else (10, text)
  | _ => (10, text)

def parseI128 (text : List Char) : Option ℕ :=
  let (radix, digits) := splitRadix text
  if digits.isEmpty || digits.head? == some '_' || digits.getLast? == some '_' then none
  else parseI128Digits radix 0 digits

/-- The value of a generic argument that is written as a number. -/
def constGenericValue (text : String) : Option ℤ :=
  if text.toList.head?.any Char.isDigit then (parseI128 text.toList).map Int.ofNat else none

/-- The arguments of a generic type, as far as they are bound to its parameters. -/
structure TypeArgs where
  subst : Subst
  canonicalArgs : List CanonicalGenericArg

def TypeArgs.bind (bound : TypeArgs) (param : Ident) (value : SubstValue) : TypeArgs where
  subst := bound.subst.put param.text value
  canonicalArgs := bound.canonicalArgs ++ [value]

/-- What an argument of a generic type stands for. -/
def genericArgValue (program : Program) (name : String) : SubstValue :=
  match constGenericValue name with
  | some value => .int value
  | none =>
    match program.intConsts name with
    | some value => .int value
    | none => .typeName name

/-- Bind the arguments one after another; each must be a name. -/
def bindTypeArgs (program : Program) :
    TypeArgs → List Ident → List (Clone TypeExpr) → Clone (Option TypeArgs)
  | bound, param :: params, arg :: args => do
    match ← arg with
    | .name id =>
      bindTypeArgs program (bound.bind param (genericArgValue program id.text)) params args
    | _ => pure none
  | bound, _, _ => pure (some bound)

def instantiateGeneric (program : Program) (typeParams : List Ident)
    (args : List (Clone TypeExpr)) : Clone (Option TypeArgs) :=
  if args.length ≠ typeParams.length then pure none
  else bindTypeArgs program ⟨[], []⟩ typeParams args

/-- The arguments of a generic call, as far as they are bound to its parameters. -/
structure CallArgs extends TypeArgs where
  keptArgs : List Expr

def CallArgs.bindComptime (bound : CallArgs) (param : Param) (value : SubstValue) : CallArgs :=
  { bound.toTypeArgs.bind param.name value with keptArgs := bound.keptArgs }

/-- Bind the arguments one after another; a type parameter takes the name of a type, another
comptime parameter the value of a constant, and the rest of the arguments is kept. -/
def bindCallArgs (program : Program) :
    CallArgs → List Param → List (Clone Expr) → Clone (Option CallArgs)
  | bound, param :: params, arg :: args => do
    let argClone ← arg
    if param.isComptime && isTypeParam param then
      match typeArgName program.fieldTypes argClone with
      | none => pure none
      | some name => bindCallArgs program (bound.bindComptime param (.typeName name)) params args
    else if param.isComptime then
      match program.foldConst argClone with
      | none => pure none
      | some value => bindCallArgs program (bound.bindComptime param (.int value)) params args
    else bindCallArgs program { bound with keptArgs := bound.keptArgs ++ [argClone] } params args
  | bound, _, _ => pure (some bound)

/-- The bounds that the arguments do not meet, each with the type that does not. -/
def unmetBounds (program : Program) (subst : Subst) (bounds : List TraitBound) :
    List (String × TraitBound) :=
  if program.reports then
    bounds.filterMap fun bound =>
      match subst.get bound.typeParam.text with
      | some (.typeName concrete) =>
        if program.conformance bound.traitName.text concrete then none
        else some (concrete, bound)
      | _ => none
  else []

def noteUnmet : List (String × TraitBound) → Clone Unit
  | [] => pure ()
  | (concrete, bound) :: unmet => do
    Logged.note (.traitNotSatisfied concrete bound)
    noteUnmet unmet

/-! ## Rewriting uses -/

def rewriteGenericCall (program : Program) (info : TypeGenericInfo) (callee : Ident)
    (args : List (Clone Expr)) : Clone (Option Expr) :=
  if args.length ≠ info.decl.params.length then pure none
  else do
    match ← bindCallArgs program ⟨⟨[], []⟩, []⟩ info.decl.params args with
    | none => pure none
    | some bound =>
      let unmet := unmetBounds program bound.subst info.decl.bounds
      noteUnmet unmet
      let use : Use :=
        { decl := .function info.decl
          args := bound.canonicalArgs
          subst := bound.subst
          fileId := info.fileId
          attrs := info.attrs
          isPub := info.isPub
          boundFailed := !unmet.isEmpty }
      Logged.note (.use use)
      pure (some (.call (.ident { text := use.mangled, offset := callee.offset }) []
        bound.keptArgs))

/-- Note the use of a generic type and name its instance. -/
def rewriteGenericType (program : Program) (decl : GenericDecl) (typeParams : List Ident)
    (fileId : Option ℕ) (attrs : List Attr) (isPub : Bool) (base : Ident)
    (args : List (Clone TypeExpr)) : Clone (Option TypeExpr) := do
  match ← instantiateGeneric program typeParams args with
  | none => pure none
  | some bound =>
    let use : Use :=
      { decl, args := bound.canonicalArgs, subst := bound.subst, fileId, attrs, isPub,
        boundFailed := false }
    Logged.note (.use use)
    pure (some (.name { text := use.mangled, offset := base.offset }))

def rewriteGenericStruct (program : Program) (info : GenericStructInfo) (base : Ident)
    (args : List (Clone TypeExpr)) : Clone (Option TypeExpr) :=
  rewriteGenericType program (.struct info.decl) info.decl.typeParams info.fileId info.attrs
    info.isPub base args

def rewriteGenericUnion (program : Program) (info : GenericUnionInfo) (base : Ident)
    (args : List (Clone TypeExpr)) : Clone (Option TypeExpr) :=
  rewriteGenericType program (.union info.decl) info.decl.typeParams info.fileId info.attrs
    info.isPub base args

/-- A method of a named type, called as a function. -/
def memberCalleeDirect (program : Program) : Expr → Option String
  | .member (.ident owner) name =>
    let mangled := owner.text ++ "__" ++ name.text
    if program.fnNames mangled then some mangled else none
  | .grouped inner => memberCalleeDirect program inner
  | _ => none

/-! ## The walk -/

def cloneIdent (subst : Subst) (id : Ident) : Expr :=
  match subst.get id.text with
  | some (.int value) => .intLiteral (toString value)
  | some (.typeName name) => .ident { text := name, offset := id.offset }
  | none => .ident id

def cloneTypeName (subst : Subst) (id : Ident) : TypeExpr :=
  match subst.get id.text with
  | some (.int value) => .name { text := toString value, offset := id.offset }
  | some (.typeName name) => .name { text := name, offset := id.offset }
  | none => .name id

def cloneGenericCall (program : Program) (callee : Expr) (args : List (Clone Expr)) :
    Clone (Option Expr) :=
  match calleeName callee with
  | none => pure none
  | some name =>
    match program.typeGeneric name.text with
    | none => pure none
    | some info => rewriteGenericCall program info name args

def cloneCallee (program : Program) (walked : Expr) : Expr :=
  match memberCalleeDirect program walked with
  | some mangled => .ident { text := mangled }
  | none => walked

def cloneGenericStruct (program : Program) (base : Ident) (args : List (Clone TypeExpr)) :
    Clone (Option TypeExpr) :=
  match program.genericStructs base.text with
  | none => pure none
  | some info => rewriteGenericStruct program info base args

def cloneGenericUnion (program : Program) (base : Ident) (args : List (Clone TypeExpr)) :
    Clone (Option TypeExpr) :=
  match program.genericUnions base.text with
  | none => pure none
  | some info => rewriteGenericUnion program info base args

/-- A generic type that is a struct, or else a union. -/
def cloneGeneric (program : Program) (base : Ident) (args : List (Clone TypeExpr)) :
    Clone (Option TypeExpr) := do
  match ← cloneGenericStruct program base args with
  | some rewritten => pure (some rewritten)
  | none => cloneGenericUnion program base args

def cloneWalk (program : Program) (subst : Subst) : Walk CloneEvent where
  ident _ id := pure (cloneIdent subst id)
  member _ _ walked name := pure (.member walked name)
  call callee args := cloneGenericCall program callee args
  callee walked := pure (cloneCallee program walked)
  typeName _ id := pure (cloneTypeName subst id)
  generic base args := cloneGeneric program base args
  asmOutput _ name := pure name

end ModernC.Specialize
