import ModernC.Syntax.ManglePrivate

/-!
# The symbol index

`symbols.zig` walks the declarations of all files twice: once to put each top-level declaration
into one global table, once to resolve every identifier by a stack of frames and else by that
table.  The names of values and of types go through the same frames and the same table.

The identifiers of a declaration are all in the file of the declaration, which the walks take
beside them.
-/

namespace ModernC.Symbols

open ModernC.Framework
open Syntax (Ident Mutability Expr TypeExpr Stmt Pattern SwitchArm StructLiteralField AsmInput Decl
  FnDecl Param Field)

/-- Where a name stands. -/
structure Span where
  file : Option ℕ
  offset : ℕ
deriving DecidableEq

def spanOf (file : Option ℕ) (name : Ident) : Span := ⟨file, name.offset⟩

structure DefInfo where
  span : Span
  kind : String
  ty : String
deriving DecidableEq

structure Def where
  name : String
  kind : String
  ty : String
  span : Span
deriving DecidableEq

structure Ref where
  name : String
  kind : String
  ty : String
  span : Span
  target : Span
deriving DecidableEq

structure FieldInfo where
  owner : String
  ownerKind : String
  name : String
  ty : String
  span : Span
deriving DecidableEq

structure Local where
  name : String
  info : DefInfo
deriving DecidableEq

/-- The index so far.  The innermost frame comes first, and in a frame the newest local. -/
structure Builder where
  globals : Table String DefInfo := ∅
  defs : List Def := []
  refs : List Ref := []
  fields : List FieldInfo := []
  frames : List (List Local) := []

/-! ## Types as text -/

def writeMut : Mutability → String
  | .mutable => "mut "
  | .constant => "const "
  | .none => ""

def writeLen : Expr → String
  | .intLiteral text => text
  | .ident id => id.text
  | _ => "_"

mutual

def renderType : TypeExpr → String
  | .name id => id.text
  | .enumLiteral id => "." ++ id.text
  | .member base field => renderType base ++ "." ++ field.text
  | .nullable child => "?" ++ renderType child
  | .qualified mutability child => writeMut mutability ++ renderType child
  | .pointer mutability child => "*" ++ writeMut mutability ++ renderType child
  | .rawManyPointer mutability child => "[*]" ++ writeMut mutability ++ renderType child
  | .slice mutability child => "[]" ++ writeMut mutability ++ renderType child
  | .array len child => "[" ++ writeLen len ++ "]" ++ renderType child
  | .generic base args => base.text ++ "<" ++ ", ".intercalate (renderTypes args) ++ ">"
  | .fnPointer params ret =>
    "fn(" ++ ", ".intercalate (renderTypes params) ++ ") -> " ++ renderType ret
  | .closureType params ret =>
    "closure(" ++ ", ".intercalate (renderTypes params) ++ ") -> " ++ renderType ret
  | .dynTrait mutability traitName =>
    (if mutability = .mutable then "*mut dyn " else "*dyn ") ++ traitName.text

def renderTypes : List TypeExpr → List String
  | [] => []
  | ty :: tys => renderType ty :: renderTypes tys

end

def renderTypeOpt : Option TypeExpr → String
  | some ty => renderType ty
  | none => "?"

def renderFnType (decl : FnDecl) : String :=
  "fn(" ++ ", ".intercalate (decl.params.map fun param => renderType param.ty) ++ ") -> " ++
    match decl.returnType with
    | some ty => renderType ty
    | none => "void"

/-! ## The builder -/

namespace Builder

def resolve (b : Builder) (name : String) : Option DefInfo :=
  match b.frames.flatten.find? fun bound => bound.name == name with
  | some bound => some bound.info
  | none => b.globals.lookup name

def pushFrame (b : Builder) : Builder := { b with frames := [] :: b.frames }

def popFrame (b : Builder) : Builder := { b with frames := b.frames.tail }

variable (file : Option ℕ)

def addDef (b : Builder) (name : Ident) (kind ty : String) : Builder :=
  { b with defs := b.defs ++ [⟨name.text, kind, ty, spanOf file name⟩] }

def addField (b : Builder) (owner : Ident) (ownerKind : String) (field : Field) : Builder :=
  { b with
    fields := b.fields ++
      [⟨owner.text, ownerKind, field.name.text, renderType field.ty, spanOf file field.name⟩] }

def addRef (b : Builder) (name : Ident) : Builder :=
  match b.resolve name.text with
  | none => b
  | some info =>
    { b with refs := b.refs ++ [⟨name.text, info.kind, info.ty, spanOf file name, info.span⟩] }

/-- Put a local into the innermost frame. -/
def pushLocal (b : Builder) (bound : Local) : Builder :=
  match b.frames with
  | [] => b
  | top :: frames => { b with frames := (bound :: top) :: frames }

def bindLocal (b : Builder) (name : Ident) (kind ty : String) : Builder :=
  (b.addDef file name kind ty).pushLocal ⟨name.text, spanOf file name, kind, ty⟩

def bindLocals (b : Builder) (names : List Ident) (kind ty : String) : Builder :=
  names.foldl (fun b name => b.bindLocal file name kind ty) b

/-! ## Walks -/

mutual

def walkTypeRefs (b : Builder) : TypeExpr → Builder
  | .name id => b.addRef file id
  | .enumLiteral _ => b
  | .member base _ => walkTypeRefs b base
  | .nullable child => walkTypeRefs b child
  | .qualified _ child => walkTypeRefs b child
  | .pointer _ child => walkTypeRefs b child
  | .rawManyPointer _ child => walkTypeRefs b child
  | .slice _ child => walkTypeRefs b child
  | .array _ child => walkTypeRefs b child
  | .generic base args => walkTypesRefs (b.addRef file base) args
  | .fnPointer params ret => walkTypeRefs (walkTypesRefs b params) ret
  | .closureType params ret => walkTypeRefs (walkTypesRefs b params) ret
  | .dynTrait _ traitName => b.addRef file traitName

def walkTypesRefs (b : Builder) : List TypeExpr → Builder
  | [] => b
  | ty :: tys => walkTypesRefs (walkTypeRefs b ty) tys

end

def walkOptTypeRefs (b : Builder) : Option TypeExpr → Builder
  | none => b
  | some ty => walkTypeRefs file b ty

mutual

def walkExpr (b : Builder) : Expr → Builder
  | .ident id => b.addRef file id
  | .grouped inner => walkExpr b inner
  | .unary _ expr => walkExpr b expr
  | .binary _ left right => walkExpr (walkExpr b left) right
  | .cast value ty => walkTypeRefs file (walkExpr b value) ty
  | .addressOf inner => walkExpr b inner
  | .call callee typeArgs args =>
    walkExprs (walkTypesRefs file (walkExpr b callee) typeArgs) args
  | .index base index => walkExpr (walkExpr b base) index
  | .slice base start stop => walkExpr (walkExpr (walkExpr b base) start) stop
  | .deref inner => walkExpr b inner
  | .member base _ => walkExpr b base
  | .tryExpr operand mapped => walkOptExpr (walkExpr b operand) mapped
  | .arrayLiteral items => walkExprs b items
  | .structLiteral fields => walkFields b fields
  | .block body => walkBlock b body
  | .intLiteral _ | .floatLiteral _ | .stringLiteral _ | .charLiteral _ | .boolLiteral _
  | .nullLiteral | .uninitLiteral | .unreachableExpr | .voidLiteral | .enumLiteral _
  | .moveExpr _ | .borrowExpr _ _ => b

def walkExprs (b : Builder) : List Expr → Builder
  | [] => b
  | expr :: exprs => walkExprs (walkExpr b expr) exprs

def walkOptExpr (b : Builder) : Option Expr → Builder
  | none => b
  | some expr => walkExpr b expr

def walkFields (b : Builder) : List StructLiteralField → Builder
  | [] => b
  | .mk _ value :: fields => walkFields (walkExpr b value) fields

def bindPattern (b : Builder) : Pattern → Builder
  | .bind id => b.bindLocal file id "local" "?"
  | .tagBind _ binding => b.bindLocal file binding "local" "?"
  | .literal expr => walkExpr b expr
  | .tag _ | .wildcard => b

def bindPatterns (b : Builder) : List Pattern → Builder
  | [] => b
  | pattern :: patterns => bindPatterns (bindPattern b pattern) patterns

def walkStmt (b : Builder) : Stmt → Builder
  | .letDecl names ty init =>
    (walkOptTypeRefs file (walkOptExpr b init) ty).bindLocals file names "local" (renderTypeOpt ty)
  | .varDecl names ty init =>
    (walkOptTypeRefs file (walkOptExpr b init) ty).bindLocals file names "local_mut"
      (renderTypeOpt ty)
  | .loop _ _ _ iterable body => walkBlock (walkOptExpr b iterable) body
  | .ifLet pattern value thenBlock elseBlock =>
    walkOptBlock
      (walkBlock (bindPattern (walkExpr b value).pushFrame pattern) thenBlock).popFrame elseBlock
  | .switch subject arms => walkArms (walkExpr b subject) arms
  | .unsafeBlock body => walkBlock b body
  | .comptimeBlock body => walkBlock b body
  | .block body => walkBlock b body
  | .contractBlock _ body => walkBlock b body
  | .asmStmt _ _ _ _ _ inputs => walkInputs b inputs
  | .ret value => walkOptExpr b value
  | .defer expr => walkExpr b expr
  | .assert expr => walkExpr b expr
  | .assignment target value => walkExpr (walkExpr b target) value
  | .expr expr => walkExpr b expr
  | .break _ | .continue _ => b

def walkStmts (b : Builder) : List Stmt → Builder
  | [] => b
  | stmt :: stmts => walkStmts (walkStmt b stmt) stmts

/-- The statements of a block in a frame of their own. -/
def walkBlock (b : Builder) : List Stmt → Builder
  | [] => b.pushFrame.popFrame
  | stmt :: stmts => (walkStmts (walkStmt b.pushFrame stmt) stmts).popFrame

def walkOptBlock (b : Builder) : Option (List Stmt) → Builder
  | none => b
  | some body => walkBlock b body

def walkArms (b : Builder) : List SwitchArm → Builder
  | [] => b
  | .block patterns body _ :: arms =>
    walkArms (walkBlock (bindPatterns b.pushFrame patterns) body).popFrame arms
  | .expr patterns body _ :: arms =>
    walkArms (walkExpr (bindPatterns b.pushFrame patterns) body).popFrame arms

def walkInputs (b : Builder) : List AsmInput → Builder
  | [] => b
  | .mk _ value _ :: inputs => walkInputs (walkExpr b value) inputs

end

/-! ## Declarations -/

def putGlobal (b : Builder) (name : Ident) (kind ty : String) : Builder :=
  { b with globals := b.globals.insert name.text ⟨spanOf file name, kind, ty⟩ }

/-- A definition at the top level, which takes the name over. -/
def collectNamed (b : Builder) (name : Ident) (kind ty : String) : Builder :=
  (b.addDef file name kind ty).putGlobal file name kind ty

def collectType (b : Builder) (name : Ident) (kind : String) : Builder :=
  b.collectNamed file name kind kind

def collectFields (b : Builder) (owner : Ident) (ownerKind : String) (fields : List Field) :
    Builder :=
  fields.foldl (fun b field => b.addField file owner ownerKind field) b

def collectDecl (b : Builder) (decl : Decl) : Builder :=
  match decl.kind with
  | .fnDecl node | .externFn node =>
    b.collectNamed decl.fileId node.name "function" (renderFnType node)
  | .globalDecl node =>
    b.collectNamed decl.fileId node.name (if node.isConst then "constant" else "global")
      (renderTypeOpt node.ty)
  | .typeAlias node => b.collectNamed decl.fileId node.name "type_alias" (renderType node.ty)
  | .structDecl node =>
    let b := b.collectType decl.fileId node.name "struct"
    if node.isOpaque then b else b.collectFields decl.fileId node.name "struct" node.fields
  | .enumDecl node => b.collectType decl.fileId node.name "enum"
  | .unionDecl node => b.collectType decl.fileId node.name "union"
  | .packedBitsDecl node =>
    (b.collectType decl.fileId node.name "packed_bits").collectFields decl.fileId node.name
      "packed_bits" node.fields
  | .overlayUnionDecl node =>
    (b.collectType decl.fileId node.name "overlay_union").collectFields decl.fileId node.name
      "overlay_union" node.fields
  | .opaqueDecl name => b.collectType decl.fileId name "opaque"
  | .traitDecl node => b.collectType decl.fileId node.name "trait"
  | .implTrait _ => b

def walkParams (b : Builder) (params : List Param) : Builder :=
  params.foldl (fun b param =>
    walkTypeRefs file (b.bindLocal file param.name "param" (renderType param.ty)) param.ty) b

def walkFieldTypes (b : Builder) (fields : List Field) : Builder :=
  fields.foldl (fun b field => walkTypeRefs file b field.ty) b

def walkDeclBody (b : Builder) (decl : Decl) : Builder :=
  let file := decl.fileId
  match decl.kind with
  | .fnDecl node | .externFn node =>
    (walkOptBlock file
      (walkOptTypeRefs file (b.pushFrame.walkParams file node.params) node.returnType)
      node.body).popFrame
  | .globalDecl node =>
    let b := walkOptTypeRefs file b node.ty
    match node.init with
    | none => b
    | some init => (walkExpr file b.pushFrame init).popFrame
  | .typeAlias node => walkTypeRefs file b node.ty
  | .structDecl node => b.walkFieldTypes file node.fields
  | .packedBitsDecl node => (walkTypeRefs file b node.repr).walkFieldTypes file node.fields
  | .overlayUnionDecl node => b.walkFieldTypes file node.fields
  | .unionDecl node => node.cases.foldl (fun b case => walkOptTypeRefs file b case.ty) b
  | .enumDecl node => walkOptTypeRefs file b node.repr
  | .opaqueDecl _ => b
  | .traitDecl node =>
    node.methods.foldl (fun b method =>
      walkOptTypeRefs file (method.params.foldl (fun b param => walkTypeRefs file b param.ty) b)
        method.returnType) b
  | .implTrait _ => b

end Builder

/-- What `emitJsonFromResolvedSources` writes out. -/
def index (decls : List Decl) : Builder :=
  decls.foldl Builder.walkDeclBody (decls.foldl Builder.collectDecl {})

end ModernC.Symbols

/-!
## What an identifier stands for

The identifiers of a declaration, each with what is bound around it and with its name space.  A
value name stands for the innermost parameter, local or loop variable of the name, a type name
for the innermost compile-time or type parameter; what is bound nowhere stands for a declaration
that its file sees, and a type name for one that declares a type.
-/

namespace ModernC.Symbols

open Syntax (Ident Expr TypeExpr Stmt Pattern SwitchArm StructLiteralField AsmInput LoopKind Decl
  FnDecl Param Field TraitMethodSig UnionCase ModuleSet declName importableName)

inductive BindingKind where
  | param (isComptime : Bool)
  /-- The parameter whose own type it is. -/
  | ownParam
  | localName
  | loopVariable
  | typeParam
deriving DecidableEq

structure Binding where
  id : Ident
  kind : BindingKind
deriving DecidableEq

inductive NameSpace where
  | value
  | type
deriving DecidableEq

/-- What the names of a name space can stand for. -/
def BindingKind.names : NameSpace → BindingKind → Bool
  | .value, .param _ | .value, .localName | .value, .loopVariable => true
  | .type, .param isComptime => isComptime
  | .type, .typeParam => true
  | _, _ => false

/-- What the index keeps in its frames. -/
def BindingKind.kept : BindingKind → Bool
  | .param _ | .ownParam | .localName => true
  | .loopVariable | .typeParam => false

structure Occurrence where
  id : Ident
  space : NameSpace
  scope : List Binding
deriving DecidableEq

/-! ## Occurrences -/

def bindNames (scope : List Binding) (names : List Ident) : List Binding :=
  names.foldl (fun scope name => ⟨name, .localName⟩ :: scope) scope

def bindPattern (scope : List Binding) : Pattern → List Binding
  | .bind id => ⟨id, .localName⟩ :: scope
  | .tagBind _ binding => ⟨binding, .localName⟩ :: scope
  | .literal _ | .tag _ | .wildcard => scope

/-- The patterns of an arm bind in order; only one of them binds in a program that is accepted. -/
def bindPatterns (scope : List Binding) (patterns : List Pattern) : List Binding :=
  patterns.foldl bindPattern scope

def bindLoop (scope : List Binding) (kind : LoopKind) (label : Option Ident) : List Binding :=
  match kind with
  | .forLoop => (label.toList.map fun id => ⟨id, .loopVariable⟩) ++ scope
  | .whileLoop => scope

/-- What is bound after a statement. -/
def bindStmt (scope : List Binding) : Stmt → List Binding
  | .letDecl names _ _ | .varDecl names _ _ => bindNames scope names
  | _ => scope

mutual

def typeOccurrences (scope : List Binding) : TypeExpr → List Occurrence
  | .name id => [⟨id, .type, scope⟩]
  | .enumLiteral _ => []
  | .member base _ => typeOccurrences scope base
  | .nullable child => typeOccurrences scope child
  | .qualified _ child => typeOccurrences scope child
  | .pointer _ child => typeOccurrences scope child
  | .rawManyPointer _ child => typeOccurrences scope child
  | .slice _ child => typeOccurrences scope child
  | .array _ child => typeOccurrences scope child
  | .generic base args => ⟨base, .type, scope⟩ :: typesOccurrences scope args
  | .fnPointer params ret => typesOccurrences scope params ++ typeOccurrences scope ret
  | .closureType params ret => typesOccurrences scope params ++ typeOccurrences scope ret
  | .dynTrait _ traitName => [⟨traitName, .type, scope⟩]

def typesOccurrences (scope : List Binding) : List TypeExpr → List Occurrence
  | [] => []
  | ty :: tys => typeOccurrences scope ty ++ typesOccurrences scope tys

end

def optTypeOccurrences (scope : List Binding) : Option TypeExpr → List Occurrence
  | none => []
  | some ty => typeOccurrences scope ty

mutual

def exprOccurrences (scope : List Binding) : Expr → List Occurrence
  | .ident id => [⟨id, .value, scope⟩]
  | .grouped inner => exprOccurrences scope inner
  | .unary _ expr => exprOccurrences scope expr
  | .binary _ left right => exprOccurrences scope left ++ exprOccurrences scope right
  | .cast value ty => exprOccurrences scope value ++ typeOccurrences scope ty
  | .addressOf inner => exprOccurrences scope inner
  | .call callee typeArgs args =>
    exprOccurrences scope callee ++ typesOccurrences scope typeArgs ++ exprsOccurrences scope args
  | .index base index => exprOccurrences scope base ++ exprOccurrences scope index
  | .slice base start stop =>
    exprOccurrences scope base ++ exprOccurrences scope start ++ exprOccurrences scope stop
  | .deref inner => exprOccurrences scope inner
  | .member base _ => exprOccurrences scope base
  | .tryExpr operand mapped => exprOccurrences scope operand ++ optExprOccurrences scope mapped
  | .arrayLiteral items => exprsOccurrences scope items
  | .structLiteral fields => fieldsOccurrences scope fields
  | .block body => blockOccurrences scope body
  | .intLiteral _ | .floatLiteral _ | .stringLiteral _ | .charLiteral _ | .boolLiteral _
  | .nullLiteral | .uninitLiteral | .unreachableExpr | .voidLiteral | .enumLiteral _
  | .moveExpr _ | .borrowExpr _ _ => []

def exprsOccurrences (scope : List Binding) : List Expr → List Occurrence
  | [] => []
  | expr :: exprs => exprOccurrences scope expr ++ exprsOccurrences scope exprs

def optExprOccurrences (scope : List Binding) : Option Expr → List Occurrence
  | none => []
  | some expr => exprOccurrences scope expr

def fieldsOccurrences (scope : List Binding) : List StructLiteralField → List Occurrence
  | [] => []
  | .mk _ value :: fields => exprOccurrences scope value ++ fieldsOccurrences scope fields

def patternOccurrences (scope : List Binding) : Pattern → List Occurrence
  | .literal expr => exprOccurrences scope expr
  | .bind _ | .tagBind _ _ | .tag _ | .wildcard => []

def patternsOccurrences (scope : List Binding) : List Pattern → List Occurrence
  | [] => []
  | pattern :: patterns =>
    patternOccurrences scope pattern ++ patternsOccurrences (bindPattern scope pattern) patterns

def stmtOccurrences (scope : List Binding) : Stmt → List Occurrence
  | .letDecl _ ty init => optExprOccurrences scope init ++ optTypeOccurrences scope ty
  | .varDecl _ ty init => optExprOccurrences scope init ++ optTypeOccurrences scope ty
  | .loop kind label _ iterable body =>
    optExprOccurrences scope iterable ++ blockOccurrences (bindLoop scope kind label) body
  | .ifLet pattern value thenBlock elseBlock =>
    exprOccurrences scope value ++ patternOccurrences scope pattern ++
      blockOccurrences (bindPattern scope pattern) thenBlock ++ optBlockOccurrences scope elseBlock
  | .switch subject arms => exprOccurrences scope subject ++ armsOccurrences scope arms
  | .unsafeBlock body => blockOccurrences scope body
  | .comptimeBlock body => blockOccurrences scope body
  | .block body => blockOccurrences scope body
  | .contractBlock _ body => blockOccurrences scope body
  | .asmStmt _ _ _ _ _ inputs => inputsOccurrences scope inputs
  | .ret value => optExprOccurrences scope value
  | .defer expr => exprOccurrences scope expr
  | .assert expr => exprOccurrences scope expr
  | .assignment target value => exprOccurrences scope target ++ exprOccurrences scope value
  | .expr expr => exprOccurrences scope expr
  | .break _ | .continue _ => []

def blockOccurrences (scope : List Binding) : List Stmt → List Occurrence
  | [] => []
  | stmt :: stmts =>
    stmtOccurrences scope stmt ++ blockOccurrences (bindStmt scope stmt) stmts

def optBlockOccurrences (scope : List Binding) : Option (List Stmt) → List Occurrence
  | none => []
  | some body => blockOccurrences scope body

def armsOccurrences (scope : List Binding) : List SwitchArm → List Occurrence
  | [] => []
  | .block patterns body _ :: arms =>
    patternsOccurrences scope patterns ++ blockOccurrences (bindPatterns scope patterns) body ++
      armsOccurrences scope arms
  | .expr patterns body _ :: arms =>
    patternsOccurrences scope patterns ++ exprOccurrences (bindPatterns scope patterns) body ++
      armsOccurrences scope arms

def inputsOccurrences (scope : List Binding) : List AsmInput → List Occurrence
  | [] => []
  | .mk _ value _ :: inputs => exprOccurrences scope value ++ inputsOccurrences scope inputs

end

/-! ## Declarations -/

def bindParam (scope : List Binding) (param : Param) : List Binding :=
  ⟨param.name, .param param.isComptime⟩ :: scope

/-- A parameter is in scope in the types of those after it. -/
def paramsOccurrences (scope : List Binding) : List Param → List Occurrence
  | [] => []
  | param :: params =>
    typeOccurrences (⟨param.name, .ownParam⟩ :: scope) param.ty ++
      paramsOccurrences (bindParam scope param) params

/-- The compile-time parameters of a method without a body; its types name nothing else. -/
def bindMethodParam (scope : List Binding) (param : Param) : List Binding :=
  if param.isComptime then ⟨param.name, .typeParam⟩ :: scope else scope

def methodParamsOccurrences (scope : List Binding) : List Param → List Occurrence
  | [] => []
  | param :: params =>
    typeOccurrences scope param.ty ++
      methodParamsOccurrences (bindMethodParam scope param) params

def typeParamScope (names : List Ident) : List Binding :=
  names.map fun name => ⟨name, .typeParam⟩

def fieldTypesOccurrences (scope : List Binding) (fields : List Field) : List Occurrence :=
  fields.flatMap fun field => typeOccurrences scope field.ty

def fnOccurrences (decl : FnDecl) : List Occurrence :=
  let scope := decl.params.foldl bindParam []
  paramsOccurrences [] decl.params ++ optTypeOccurrences scope decl.returnType ++
    optBlockOccurrences scope decl.body

def methodOccurrences (method : TraitMethodSig) : List Occurrence :=
  methodParamsOccurrences [] method.params ++
    optTypeOccurrences (method.params.foldl bindMethodParam []) method.returnType

/-- The identifiers of a declaration that the index walks over. -/
def occurrencesOf (decl : Decl) : List Occurrence :=
  match decl.kind with
  | .fnDecl node | .externFn node => fnOccurrences node
  | .globalDecl node => optTypeOccurrences [] node.ty ++ optExprOccurrences [] node.init
  | .typeAlias node => typeOccurrences [] node.ty
  | .structDecl node => fieldTypesOccurrences (typeParamScope node.typeParams) node.fields
  | .packedBitsDecl node => typeOccurrences [] node.repr ++ fieldTypesOccurrences [] node.fields
  | .overlayUnionDecl node => fieldTypesOccurrences [] node.fields
  | .unionDecl node =>
    node.cases.flatMap fun case => optTypeOccurrences (typeParamScope node.typeParams) case.ty
  | .enumDecl node => optTypeOccurrences [] node.repr
  | .opaqueDecl _ => []
  | .traitDecl node => node.methods.flatMap methodOccurrences
  | .implTrait _ => []

/-! ## Resolution -/

/-- The innermost binding of the name among those of the kinds. -/
def innermost (kinds : BindingKind → Bool) (scope : List Binding) (name : String) :
    Option Binding :=
  scope.find? fun binding => kinds binding.kind && binding.id.text == name

inductive Target where
  | bound (binding : Binding)
  | declared (decl : Decl)

def Target.span (file : Option ℕ) : Target → Span
  | .bound binding => spanOf file binding.id
  | .declared decl => spanOf decl.fileId (declName decl)

section Resolution

variable (set : ModuleSet)

end Resolution

end ModernC.Symbols
