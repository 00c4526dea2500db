import Mathlib.Data.Nat.Notation

/-!
# The syntax tree

The tree that the parser builds and that name resolution, specialization and private-name
mangling rewrite.  Of a span only the offset of a name is kept, which tells two declarations of
one name apart, and the file of a declaration.
-/

namespace ModernC.Syntax

structure Ident where
  text : String
  offset : ℕ := 0
deriving DecidableEq

inductive Mutability where
  | none
  | mutable
  | constant
deriving DecidableEq

inductive UnaryOp where
  | neg
  | bitNot
  | logicalNot
deriving DecidableEq

inductive BinaryOp where
  | logicalOr
  | logicalAnd
  | eq
  | ne
  | lt
  | le
  | gt
  | ge
  | bitOr
  | bitXor
  | bitAnd
  | shl
  | shr
  | add
  | sub
  | mul
  | div
  | mod
deriving DecidableEq

inductive LoopKind where
  | forLoop
  | whileLoop
deriving DecidableEq

inductive AsmForm where
  | opaqueForm
  | precise
deriving DecidableEq

/-- The kinds of attributes that hold no expression. -/
inductive AttrKind where
  | noLangTrap
  | naked
  | noinline
  | weak
  | backendName (name : String)
  | origin (name : String)
  | linkSection (name : String)
  | align (bytes : ℕ)
  | named (name : Ident)
deriving DecidableEq

/-! ## Expressions, types and statements -/

mutual

inductive Expr where
  | ident (id : Ident)
  | intLiteral (text : String)
  | floatLiteral (text : String)
  | stringLiteral (text : String)
  | charLiteral (text : String)
  | boolLiteral (value : Bool)
  | nullLiteral
  | uninitLiteral
  | unreachableExpr
  | voidLiteral
  | enumLiteral (id : Ident)
  | arrayLiteral (items : List Expr)
  | structLiteral (fields : List StructLiteralField)
  | grouped (inner : Expr)
  | moveExpr (inner : Expr)
  | block (body : List Stmt)
  | unary (op : UnaryOp) (expr : Expr)
  | binary (op : BinaryOp) (left right : Expr)
  | cast (value : Expr) (ty : TypeExpr)
  | addressOf (inner : Expr)
  | borrowExpr (mutability : Mutability) (value : Expr)
  | call (callee : Expr) (typeArgs : List TypeExpr) (args : List Expr)
  | index (base index : Expr)
  | slice (base start stop : Expr)
  | deref (inner : Expr)
  | member (base : Expr) (name : Ident)
  | tryExpr (operand : Expr) (mapped : Option Expr)

inductive StructLiteralField where
  | mk (name : Ident) (value : Expr)

inductive TypeExpr where
  | name (id : Ident)
  | enumLiteral (id : Ident)
  | member (base : TypeExpr) (field : Ident)
  | nullable (child : TypeExpr)
  | qualified (mutability : Mutability) (child : TypeExpr)
  | pointer (mutability : Mutability) (child : TypeExpr)
  | rawManyPointer (mutability : Mutability) (child : TypeExpr)
  | slice (mutability : Mutability) (child : TypeExpr)
  | array (len : Expr) (child : TypeExpr)
  | generic (base : Ident) (args : List TypeExpr)
  | fnPointer (params : List TypeExpr) (ret : TypeExpr)
  | closureType (params : List TypeExpr) (ret : TypeExpr)
  | dynTrait (mutability : Mutability) (traitName : Ident)

/-- A block is the list of its statements. -/
inductive Stmt where
  | letDecl (names : List Ident) (ty : Option TypeExpr) (init : Option Expr)
  | varDecl (names : List Ident) (ty : Option TypeExpr) (init : Option Expr)
  | loop (kind : LoopKind) (label loopLabel : Option Ident) (iterable : Option Expr)
      (body : List Stmt)
  | ifLet (pattern : Pattern) (value : Expr) (thenBlock : List Stmt)
      (elseBlock : Option (List Stmt))
  | switch (subject : Expr) (arms : List SwitchArm)
  | unsafeBlock (body : List Stmt)
  | comptimeBlock (body : List Stmt)
  | contractBlock (attr : Attr) (body : List Stmt)
  | asmStmt (form : AsmForm) (isVolatile : Bool) (templates clobbers : List String)
      (outputs : List AsmOutput) (inputs : List AsmInput)
  | block (body : List Stmt)
  | ret (value : Option Expr)
  | break (label : Option Ident)
  | continue (label : Option Ident)
  | defer (expr : Expr)
  | assert (expr : Expr)
  | assignment (target value : Expr)
  | expr (expr : Expr)

inductive Pattern where
  | wildcard
  | bind (id : Ident)
  | tag (id : Ident)
  | tagBind (tag binding : Ident)
  | literal (expr : Expr)

/-- An arm whose body is a block, or an expression. -/
inductive SwitchArm where
  | block (patterns : List Pattern) (body : List Stmt) (dupLocalIfBinds : Bool)
  | expr (patterns : List Pattern) (body : Expr) (dupLocalIfBinds : Bool)

inductive AsmOutput where
  | mk (reg : String) (name : Ident) (ty : TypeExpr)

inductive AsmInput where
  | mk (reg : String) (value : Expr) (ty : TypeExpr)

inductive Attr where
  | unsafeContract (name : Ident) (args : List Expr)
  | plain (kind : AttrKind)

end

abbrev Block := List Stmt

/-! ## Declarations -/

structure Param where
  name : Ident
  ty : TypeExpr
  isComptime : Bool := false

structure TraitBound where
  typeParam : Ident
  traitName : Ident
deriving DecidableEq

structure FnDecl where
  name : Ident
  associatedOwner : Option Ident := none
  abi : Option String := none
  params : List Param
  returnType : Option TypeExpr := none
  returnBorrowSource : Option Ident := none
  body : Option Block
  isConst : Bool := false
  exported : Bool := false
  isVariadic : Bool := false
  bounds : List TraitBound := []

structure TypeAlias where
  name : Ident
  ty : TypeExpr

structure Field where
  name : Ident
  ty : TypeExpr
  offset : Option ℕ := none

structure StructDecl where
  name : Ident
  semanticIdentity : Option Ident := none
  abi : Option String := none
  fields : List Field
  typeParams : List Ident := []
  isMove : Bool := false
  isLinear : Bool := false
  isOpaque : Bool := false
  isRegion : Bool := false
  isView : Bool := false
  isThreadMove : Bool := false
  isCUnion : Bool := false

structure EnumCase where
  name : Ident
  value : Option Expr

structure EnumDecl where
  name : Ident
  repr : Option TypeExpr
  cases : List EnumCase
  isOpen : Bool

structure UnionCase where
  name : Ident
  ty : Option TypeExpr

structure UnionDecl where
  name : Ident
  cases : List UnionCase
  typeParams : List Ident := []

structure PackedBitsDecl where
  name : Ident
  repr : TypeExpr
  fields : List Field

structure OverlayUnionDecl where
  name : Ident
  fields : List Field

structure GlobalDecl where
  name : Ident
  ty : Option TypeExpr
  init : Option Expr
  isConst : Bool := false
  exported : Bool := false
  isExtern : Bool := false

inductive SelfMode where
  | none
  | byPtr
  | byMutPtr
  | byValue
  | moveSelf
deriving DecidableEq

structure TraitMethodSig where
  name : Ident
  params : List Param
  returnType : Option TypeExpr
  returnBorrowSource : Option Ident := none
  selfMode : SelfMode
  attrs : List Attr := []

structure TraitDecl where
  name : Ident
  methods : List TraitMethodSig

structure ImplTraitMethod where
  name : Ident
  mangled : String
  selfMode : SelfMode
  attrs : List Attr := []
  params : List Param := []
  returnType : Option TypeExpr := none
  returnBorrowSource : Option Ident := none

structure ImplTrait where
  traitName : Ident
  typeName : Ident
  methods : List ImplTraitMethod

inductive DeclKind where
  | fnDecl (decl : FnDecl)
  | typeAlias (decl : TypeAlias)
  | externFn (decl : FnDecl)
  | structDecl (decl : StructDecl)
  | enumDecl (decl : EnumDecl)
  | unionDecl (decl : UnionDecl)
  | packedBitsDecl (decl : PackedBitsDecl)
  | overlayUnionDecl (decl : OverlayUnionDecl)
  | opaqueDecl (name : Ident)
  | globalDecl (decl : GlobalDecl)
  | traitDecl (decl : TraitDecl)
  | implTrait (decl : ImplTrait)

/-- A top-level declaration, with the index of the file it is in. -/
structure Decl where
  fileId : Option ℕ := none
  attrs : List Attr := []
  kind : DeclKind
  isPub : Bool := false

end ModernC.Syntax
