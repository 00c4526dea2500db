import ModernC.Framework.Logged
import ModernC.Syntax.Ast

/-!
# Walks over the syntax tree

Three passes rewrite the tree before it is checked: names with an owner are resolved, generics
are specialized and private names are mangled.  All of them rebuild the tree node by node; what
differs is what becomes of a name, a member, a call or a generic type, and in which parts of the
tree anything is rewritten at all.  `Walk` holds these choices.  A walk keeps track of the place
it is at: the names bound around it, and the parts of the tree it is in that only some of the
passes visit.
-/

namespace ModernC.Syntax

open ModernC.Framework

structure Place where
  /-- The names bound by the parameters, locals, loops and patterns around the place. -/
  bound : List String
  inPattern : Bool := false
  inAsm : Bool := false
  inContract : Bool := false
deriving DecidableEq

/-- The place at the top of a declaration. -/
def Place.top : Place where
  bound := []

def Place.bind (place : Place) (names : List String) : Place :=
  { place with bound := names ++ place.bound }

def Place.pattern (place : Place) : Place := { place with inPattern := true }

def Place.asm (place : Place) : Place := { place with inAsm := true }

def Place.contract (place : Place) : Place := { place with inContract := true }

structure Walk (ω : Type) where
  /-- An identifier as an expression. -/
  ident : Place → Ident → Logged ω Expr
  /-- A member of a base, as it was and as it was walked. -/
  member : Place → Expr → Expr → Ident → Logged ω Expr
  /-- A call of a callee, by its arguments still to be walked; `none` goes on with the walk. -/
  call : Expr → List (Logged ω Expr) → Logged ω (Option Expr)
  /-- The callee of a call, walked. -/
  callee : Expr → Logged ω Expr
  /-- A name as a type. -/
  typeName : Place → Ident → Logged ω TypeExpr
  /-- A generic type, by its arguments still to be walked; `none` goes on with the walk. -/
  generic : Ident → List (Logged ω TypeExpr) → Logged ω (Option TypeExpr)
  /-- A name that receives an output of `asm`. -/
  asmOutput : Place → Ident → Logged ω Ident

/-- The walk that rebuilds the tree as it is. -/
def Walk.rebuild (ω : Type) : Walk ω where
  ident _ id := pure (.ident id)
  member _ _ walked name := pure (.member walked name)
  call _ _ := pure none
  callee walked := pure walked
  typeName _ id := pure (.name id)
  generic _ _ := pure none
  asmOutput _ name := pure name

/-- The names that a statement binds in the rest of its block. -/
def Stmt.binds : Stmt → List String
  | .letDecl names _ _ | .varDecl names _ _ => names.map Ident.text
  | _ => []

def Pattern.binds : Pattern → List String
  | .bind id => [id.text]
  | .tagBind _ binding => [binding.text]
  | .wildcard | .tag _ | .literal _ => []

/-- The names that a loop binds in its body. -/
def loopBinds (kind : LoopKind) (label : Option Ident) : List String :=
  match kind with
  | .forLoop => label.toList.map Ident.text
  | .whileLoop => []

variable {ω : Type}

mutual

def walkExpr (walk : Walk ω) (place : Place) : Expr → Logged ω Expr
  | .ident id => walk.ident place id
  | .intLiteral text => pure (.intLiteral text)
  | .floatLiteral text => pure (.floatLiteral text)
  | .stringLiteral text => pure (.stringLiteral text)
  | .charLiteral text => pure (.charLiteral text)
  | .boolLiteral value => pure (.boolLiteral value)
  | .nullLiteral => pure .nullLiteral
  | .uninitLiteral => pure .uninitLiteral
  | .unreachableExpr => pure .unreachableExpr
  | .voidLiteral => pure .voidLiteral
  | .enumLiteral id => pure (.enumLiteral id)
  | .arrayLiteral items => do
    let items ← Logged.all (walkExprs walk place items)
    pure (.arrayLiteral items)
  | .structLiteral fields => do
    let fields ← walkFields walk place fields
    pure (.structLiteral fields)
  | .grouped inner => do
    let inner ← walkExpr walk place inner
    pure (.grouped inner)
  | .moveExpr inner => do
    let inner ← walkExpr walk place inner
    pure (.moveExpr inner)
  | .block body => do
    let body ← walkBlock walk place body
    pure (.block body)
  | .unary op expr => do
    let expr ← walkExpr walk place expr
    pure (.unary op expr)
  | .binary op left right => do
    let left ← walkExpr walk place left
    let right ← walkExpr walk place right
    pure (.binary op left right)
  | .cast value ty => do
    let value ← walkExpr walk place value
    let ty ← walkType walk place ty
    pure (.cast value ty)
  | .addressOf inner => do
    let inner ← walkExpr walk place inner
    pure (.addressOf inner)
  | .borrowExpr mutability value => do
    let value ← walkExpr walk place value
    pure (.borrowExpr mutability value)
  | .call callee typeArgs args => do
    match ← walk.call callee (walkExprs walk place args) with
    | some rewritten => pure rewritten
    | none =>
      let walked ← walkExpr walk place callee
      let callee ← walk.callee walked
      let typeArgs ← Logged.all (walkTypes walk place typeArgs)
      let args ← Logged.all (walkExprs walk place args)
      pure (.call callee typeArgs args)
  | .index base index => do
    let base ← walkExpr walk place base
    let index ← walkExpr walk place index
    pure (.index base index)
  | .slice base start stop => do
    let base ← walkExpr walk place base
    let start ← walkExpr walk place start
    let stop ← walkExpr walk place stop
    pure (.slice base start stop)
  | .deref inner => do
    let inner ← walkExpr walk place inner
    pure (.deref inner)
  | .member base name => do
    let walked ← walkExpr walk place base
    walk.member place base walked name
  | .tryExpr operand mapped => do
    let operand ← walkExpr walk place operand
    let mapped ← walkOptExpr walk place mapped
    pure (.tryExpr operand mapped)

/-- The expressions of a list, each still to be walked. -/
def walkExprs (walk : Walk ω) (place : Place) : List Expr → List (Logged ω Expr)
  | [] => []
  | expr :: exprs => walkExpr walk place expr :: walkExprs walk place exprs

def walkOptExpr (walk : Walk ω) (place : Place) : Option Expr → Logged ω (Option Expr)
  | none => pure none
  | some expr => do
    let expr ← walkExpr walk place expr
    pure (some expr)

def walkFields (walk : Walk ω) (place : Place) :
    List StructLiteralField → Logged ω (List StructLiteralField)
  | [] => pure []
  | .mk name value :: fields => do
    let value ← walkExpr walk place value
    let fields ← walkFields walk place fields
    pure (.mk name value :: fields)

def walkType (walk : Walk ω) (place : Place) : TypeExpr → Logged ω TypeExpr
  | .name id => walk.typeName place id
  | .enumLiteral id => pure (.enumLiteral id)
  | .member base field => do
    let base ← walkType walk place base
    pure (.member base field)
  | .nullable child => do
    let child ← walkType walk place child
    pure (.nullable child)
  | .qualified mutability child => do
    let child ← walkType walk place child
    pure (.qualified mutability child)
  | .pointer mutability child => do
    let child ← walkType walk place child
    pure (.pointer mutability child)
  | .rawManyPointer mutability child => do
    let child ← walkType walk place child
    pure (.rawManyPointer mutability child)
  | .slice mutability child => do
    let child ← walkType walk place child
    pure (.slice mutability child)
  | .array len child => do
    let len ← walkExpr walk place len
    let child ← walkType walk place child
    pure (.array len child)
  | .generic base args => do
    match ← walk.generic base (walkTypes walk place args) with
    | some rewritten => pure rewritten
    | none =>
      let args ← Logged.all (walkTypes walk place args)
      pure (.generic base args)
  | .fnPointer params ret => do
    let params ← Logged.all (walkTypes walk place params)
    let ret ← walkType walk place ret
    pure (.fnPointer params ret)
  | .closureType params ret => do
    let params ← Logged.all (walkTypes walk place params)
    let ret ← walkType walk place ret
    pure (.closureType params ret)
  | .dynTrait mutability traitName => pure (.dynTrait mutability traitName)

/-- The types of a list, each still to be walked. -/
def walkTypes (walk : Walk ω) (place : Place) : List TypeExpr → List (Logged ω TypeExpr)
  | [] => []
  | ty :: tys => walkType walk place ty :: walkTypes walk place tys

def walkOptType (walk : Walk ω) (place : Place) : Option TypeExpr → Logged ω (Option TypeExpr)
  | none => pure none
  | some ty => do
    let ty ← walkType walk place ty
    pure (some ty)

def walkStmt (walk : Walk ω) (place : Place) : Stmt → Logged ω Stmt
  | .letDecl names ty init => do
    let ty ← walkOptType walk place ty
    let init ← walkOptExpr walk place init
    pure (.letDecl names ty init)
  | .varDecl names ty init => do
    let ty ← walkOptType walk place ty
    let init ← walkOptExpr walk place init
    pure (.varDecl names ty init)
  | .loop kind label loopLabel iterable body => do
    let iterable ← walkOptExpr walk place iterable
    let body ← walkBlock walk (place.bind (loopBinds kind label)) body
    pure (.loop kind label loopLabel iterable body)
  | .ifLet pattern value thenBlock elseBlock => do
    let walked ← walkPattern walk place pattern
    let value ← walkExpr walk place value
    let thenBlock ← walkBlock walk (place.bind pattern.binds) thenBlock
    let elseBlock ← walkOptBlock walk place elseBlock
    pure (.ifLet walked value thenBlock elseBlock)
  | .switch subject arms => do
    let arms ← walkArms walk place arms
    let subject ← walkExpr walk place subject
    pure (.switch subject arms)
  | .unsafeBlock body => do
    let body ← walkBlock walk place body
    pure (.unsafeBlock body)
  | .comptimeBlock body => do
    let body ← walkBlock walk place body
    pure (.comptimeBlock body)
  | .contractBlock attr body => do
    let attr ← walkAttr walk place attr
    let body ← walkBlock walk place body
    pure (.contractBlock attr body)
  | .asmStmt form isVolatile templates clobbers outputs inputs => do
    let outputs ← walkOutputs walk place outputs
    let inputs ← walkInputs walk place inputs
    pure (.asmStmt form isVolatile templates clobbers outputs inputs)
  | .block body => do
    let body ← walkBlock walk place body
    pure (.block body)
  | .ret value => do
    let value ← walkOptExpr walk place value
    pure (.ret value)
  | .break label => pure (.break label)
  | .continue label => pure (.continue label)
  | .defer expr => do
    let expr ← walkExpr walk place expr
    pure (.defer expr)
  | .assert expr => do
    let expr ← walkExpr walk place expr
    pure (.assert expr)
  | .assignment target value => do
    let target ← walkExpr walk place target
    let value ← walkExpr walk place value
    pure (.assignment target value)
  | .expr expr => do
    let expr ← walkExpr walk place expr
    pure (.expr expr)

/-- A name bound by a statement is in place in the rest of the block. -/
def walkBlock (walk : Walk ω) (place : Place) : List Stmt → Logged ω (List Stmt)
  | [] => pure []
  | stmt :: stmts => do
    let walked ← walkStmt walk place stmt
    let stmts ← walkBlock walk (place.bind stmt.binds) stmts
    pure (walked :: stmts)

def walkOptBlock (walk : Walk ω) (place : Place) :
    Option (List Stmt) → Logged ω (Option (List Stmt))
  | none => pure none
  | some body => do
    let body ← walkBlock walk place body
    pure (some body)

def walkPattern (walk : Walk ω) (place : Place) : Pattern → Logged ω Pattern
  | .wildcard => pure .wildcard
  | .bind id => pure (.bind id)
  | .tag id => pure (.tag id)
  | .tagBind tag binding => pure (.tagBind tag binding)
  | .literal expr => do
    let walked ← walkExpr walk place.pattern expr
    pure (.literal walked)

def walkPatterns (walk : Walk ω) (place : Place) : List Pattern → Logged ω (List Pattern)
  | [] => pure []
  | pattern :: patterns => do
    let pattern ← walkPattern walk place pattern
    let patterns ← walkPatterns walk place patterns
    pure (pattern :: patterns)

def walkArms (walk : Walk ω) (place : Place) : List SwitchArm → Logged ω (List SwitchArm)
  | [] => pure []
  | .block patterns body dupLocalIfBinds :: arms => do
    let walked ← walkPatterns walk place patterns
    let body ← walkBlock walk (place.bind (patterns.flatMap Pattern.binds)) body
    let arms ← walkArms walk place arms
    pure (.block walked body dupLocalIfBinds :: arms)
  | .expr patterns body dupLocalIfBinds :: arms => do
    let walked ← walkPatterns walk place patterns
    let body ← walkExpr walk (place.bind (patterns.flatMap Pattern.binds)) body
    let arms ← walkArms walk place arms
    pure (.expr walked body dupLocalIfBinds :: arms)

def walkOutputs (walk : Walk ω) (place : Place) : List AsmOutput → Logged ω (List AsmOutput)
  | [] => pure []
  | .mk reg name ty :: outputs => do
    let name ← walk.asmOutput place.asm name
    let ty ← walkType walk place.asm ty
    let outputs ← walkOutputs walk place outputs
    pure (.mk reg name ty :: outputs)

def walkInputs (walk : Walk ω) (place : Place) : List AsmInput → Logged ω (List AsmInput)
  | [] => pure []
  | .mk reg value ty :: inputs => do
    let value ← walkExpr walk place.asm value
    let ty ← walkType walk place.asm ty
    let inputs ← walkInputs walk place inputs
    pure (.mk reg value ty :: inputs)

def walkAttr (walk : Walk ω) (place : Place) : Attr → Logged ω Attr
  | .unsafeContract name args => do
    let args ← Logged.all (walkExprs walk place.contract args)
    pure (.unsafeContract name args)
  | .plain kind => pure (.plain kind)

end

end ModernC.Syntax

/-!
## Walks over declarations

A declaration is walked with its attributes, its types and its bodies.  A parameter is in scope
in the types of the parameters after it, in the return type, in the attributes and in the body.
-/

namespace ModernC.Syntax

open ModernC.Framework

variable {ω : Type}

def paramNames (params : List Param) : List String :=
  (params.map fun param => param.name.text).reverse

def walkParams (walk : Walk ω) (place : Place) : List Param → Logged ω (List Param)
  | [] => pure []
  | param :: params => do
    let ty ← walkType walk place param.ty
    let params ← walkParams walk (place.bind [param.name.text]) params
    pure ({ param with ty } :: params)

def walkAttrs (walk : Walk ω) (place : Place) : List Attr → Logged ω (List Attr)
  | [] => pure []
  | attr :: attrs => do
    let attr ← walkAttr walk place attr
    let attrs ← walkAttrs walk place attrs
    pure (attr :: attrs)

def walkFnSignature (walk : Walk ω) (decl : FnDecl) : Logged ω FnDecl := do
  let params ← walkParams walk Place.top decl.params
  let returnType ← walkOptType walk (Place.top.bind (paramNames decl.params)) decl.returnType
  pure { decl with params, returnType, body := none }

def walkFn (walk : Walk ω) (decl : FnDecl) : Logged ω FnDecl := do
  let signature ← walkFnSignature walk decl
  let body ← walkOptBlock walk (Place.top.bind (paramNames decl.params)) decl.body
  pure { signature with body }

def walkFieldTypes (walk : Walk ω) : List Field → Logged ω (List Field)
  | [] => pure []
  | field :: fields => do
    let ty ← walkType walk Place.top field.ty
    let fields ← walkFieldTypes walk fields
    pure ({ field with ty } :: fields)

def walkStruct (walk : Walk ω) (decl : StructDecl) : Logged ω StructDecl := do
  let fields ← walkFieldTypes walk decl.fields
  pure { decl with fields }

def walkUnionCases (walk : Walk ω) : List UnionCase → Logged ω (List UnionCase)
  | [] => pure []
  | case :: cases => do
    let ty ← walkOptType walk Place.top case.ty
    let cases ← walkUnionCases walk cases
    pure ({ case with ty } :: cases)

def walkUnion (walk : Walk ω) (decl : UnionDecl) : Logged ω UnionDecl := do
  let cases ← walkUnionCases walk decl.cases
  pure { decl with cases }

def walkEnumCases (walk : Walk ω) : List EnumCase → Logged ω (List EnumCase)
  | [] => pure []
  | case :: cases => do
    let value ← walkOptExpr walk Place.top case.value
    let cases ← walkEnumCases walk cases
    pure ({ case with value } :: cases)

def walkTraitMethods (walk : Walk ω) : List TraitMethodSig → Logged ω (List TraitMethodSig)
  | [] => pure []
  | method :: methods => do
    let place := Place.top.bind (paramNames method.params)
    let params ← walkParams walk Place.top method.params
    let returnType ← walkOptType walk place method.returnType
    let attrs ← walkAttrs walk place method.attrs
    let methods ← walkTraitMethods walk methods
    pure ({ method with params, returnType, attrs } :: methods)

def walkImplMethods (walk : Walk ω) : List ImplTraitMethod → Logged ω (List ImplTraitMethod)
  | [] => pure []
  | method :: methods => do
    let place := Place.top.bind (paramNames method.params)
    let attrs ← walkAttrs walk place method.attrs
    let params ← walkParams walk Place.top method.params
    let returnType ← walkOptType walk place method.returnType
    let methods ← walkImplMethods walk methods
    pure ({ method with attrs, params, returnType } :: methods)

def walkDecl (walk : Walk ω) (decl : Decl) : Logged ω Decl :=
  match decl.kind with
  | .fnDecl node => do
    let attrs ← walkAttrs walk (Place.top.bind (paramNames node.params)) decl.attrs
    let node ← walkFn walk node
    pure { decl with attrs, kind := .fnDecl node }
  | .externFn node => do
    let attrs ← walkAttrs walk (Place.top.bind (paramNames node.params)) decl.attrs
    let node ← walkFn walk node
    pure { decl with attrs, kind := .externFn node }
  | .typeAlias node => do
    let attrs ← walkAttrs walk Place.top decl.attrs
    let ty ← walkType walk Place.top node.ty
    pure { decl with attrs, kind := .typeAlias { node with ty } }
  | .structDecl node => do
    let attrs ← walkAttrs walk Place.top decl.attrs
    let node ← walkStruct walk node
    pure { decl with attrs, kind := .structDecl node }
  | .enumDecl node => do
    let cases ← walkEnumCases walk node.cases
    let attrs ← walkAttrs walk Place.top decl.attrs
    let repr ← walkOptType walk Place.top node.repr
    pure { decl with attrs, kind := .enumDecl { node with repr, cases } }
  | .unionDecl node => do
    let attrs ← walkAttrs walk Place.top decl.attrs
    let node ← walkUnion walk node
    pure { decl with attrs, kind := .unionDecl node }
  | .packedBitsDecl node => do
    let attrs ← walkAttrs walk Place.top decl.attrs
    let repr ← walkType walk Place.top node.repr
    let fields ← walkFieldTypes walk node.fields
    pure { decl with attrs, kind := .packedBitsDecl { node with repr, fields } }
  | .overlayUnionDecl node => do
    let attrs ← walkAttrs walk Place.top decl.attrs
    let fields ← walkFieldTypes walk node.fields
    pure { decl with attrs, kind := .overlayUnionDecl { node with fields } }
  | .opaqueDecl name => do
    let attrs ← walkAttrs walk Place.top decl.attrs
    pure { decl with attrs, kind := .opaqueDecl name }
  | .globalDecl node => do
    let ty ← walkOptType walk Place.top node.ty
    let init ← walkOptExpr walk Place.top node.init
    let attrs ← walkAttrs walk Place.top decl.attrs
    pure { decl with attrs, kind := .globalDecl { node with ty, init } }
  | .traitDecl node => do
    let attrs ← walkAttrs walk Place.top decl.attrs
    let methods ← walkTraitMethods walk node.methods
    pure { decl with attrs, kind := .traitDecl { node with methods } }
  | .implTrait node => do
    let attrs ← walkAttrs walk Place.top decl.attrs
    let methods ← walkImplMethods walk node.methods
    pure { decl with attrs, kind := .implTrait { node with methods } }

def walkDecls (walk : Walk ω) : List Decl → Logged ω (List Decl)
  | [] => pure []
  | decl :: decls => do
    let decl ← walkDecl walk decl
    let decls ← walkDecls walk decls
    pure (decl :: decls)

end ModernC.Syntax
