import ModernC.Specialize.Clone

/-!
# Type-generic functions

A function is generic over its comptime parameters if a type in it mentions one of them: the type
of a parameter or of a local, the return type, or a type in an expression.  Inside a type, an
expression mentions a parameter by its name.
-/

namespace ModernC.Specialize

open ModernC.Syntax

/-! ## Names in expressions -/

mutual

def exprMentionsIdent (name : String) : Expr → Bool
  | .ident id => id.text == name
  | .grouped inner | .addressOf inner | .deref inner | .moveExpr inner =>
    exprMentionsIdent name inner
  | .borrowExpr _ value => exprMentionsIdent name value
  | .tryExpr operand mapped => exprMentionsIdent name operand || optExprMentionsIdent name mapped
  | .unary _ expr => exprMentionsIdent name expr
  | .binary _ left right => exprMentionsIdent name left || exprMentionsIdent name right
  | .index base index => exprMentionsIdent name base || exprMentionsIdent name index
  | .slice base start stop =>
    exprMentionsIdent name base || exprMentionsIdent name start || exprMentionsIdent name stop
  | .member base _ => exprMentionsIdent name base
  | .cast value _ => exprMentionsIdent name value
  | .call callee _ args => exprMentionsIdent name callee || exprsMentionIdent name args
  | .arrayLiteral items => exprsMentionIdent name items
  | .structLiteral fields => fieldsMentionIdent name fields
  | .block body => blockExprMentionsIdent name body
  | .intLiteral _ | .floatLiteral _ | .stringLiteral _ | .charLiteral _ | .boolLiteral _
  | .nullLiteral | .uninitLiteral | .unreachableExpr | .voidLiteral | .enumLiteral _ => false

def exprsMentionIdent (name : String) : List Expr → Bool
  | [] => false
  | expr :: exprs => exprMentionsIdent name expr || exprsMentionIdent name exprs

def optExprMentionsIdent (name : String) : Option Expr → Bool
  | none => false
  | some expr => exprMentionsIdent name expr

def fieldsMentionIdent (name : String) : List StructLiteralField → Bool
  | [] => false
  | .mk _ value :: fields => exprMentionsIdent name value || fieldsMentionIdent name fields

def stmtExprMentionsIdent (name : String) : Stmt → Bool
  | .letDecl _ _ init | .varDecl _ _ init => optExprMentionsIdent name init
  | .loop _ _ _ iterable body =>
    optExprMentionsIdent name iterable || blockExprMentionsIdent name body
  | .block body | .unsafeBlock body | .comptimeBlock body => blockExprMentionsIdent name body
  | .contractBlock attr body => attrExprMentionsIdent name attr || blockExprMentionsIdent name body
  | .ifLet pattern value thenBlock elseBlock =>
    patternExprMentionsIdent name pattern || exprMentionsIdent name value ||
      blockExprMentionsIdent name thenBlock || optBlockExprMentionsIdent name elseBlock
  | .switch subject arms => exprMentionsIdent name subject || armsExprMentionIdent name arms
  | .ret value => optExprMentionsIdent name value
  | .defer expr | .assert expr | .expr expr => exprMentionsIdent name expr
  | .assignment target value => exprMentionsIdent name target || exprMentionsIdent name value
  | .asmStmt _ _ _ _ _ inputs => inputsExprMentionIdent name inputs
  | .break _ | .continue _ => false

def blockExprMentionsIdent (name : String) : List Stmt → Bool
  | [] => false
  | stmt :: stmts => stmtExprMentionsIdent name stmt || blockExprMentionsIdent name stmts

def optBlockExprMentionsIdent (name : String) : Option (List Stmt) → Bool
  | none => false
  | some body => blockExprMentionsIdent name body

def patternExprMentionsIdent (name : String) : Pattern → Bool
  | .literal expr => exprMentionsIdent name expr
  | .wildcard | .bind _ | .tag _ | .tagBind _ _ => false

def patternsExprMentionIdent (name : String) : List Pattern → Bool
  | [] => false
  | pattern :: patterns =>
    patternExprMentionsIdent name pattern || patternsExprMentionIdent name patterns

def armsExprMentionIdent (name : String) : List SwitchArm → Bool
  | [] => false
  | .block patterns body _ :: arms =>
    patternsExprMentionIdent name patterns || blockExprMentionsIdent name body ||
      armsExprMentionIdent name arms
  | .expr patterns body _ :: arms =>
    patternsExprMentionIdent name patterns || exprMentionsIdent name body ||
      armsExprMentionIdent name arms

def inputsExprMentionIdent (name : String) : List AsmInput → Bool
  | [] => false
  | .mk _ value _ :: inputs => exprMentionsIdent name value || inputsExprMentionIdent name inputs

def attrExprMentionsIdent (name : String) : Attr → Bool
  | .unsafeContract _ args => exprsMentionIdent name args
  | .plain _ => false

end

/-! ## Names in types -/

mutual

def typeMentionsIdent (name : String) : TypeExpr → Bool
  | .name id => id.text == name
  | .array len child => exprMentionsIdent name len || typeMentionsIdent name child
  | .member base _ => typeMentionsIdent name base
  | .nullable child | .qualified _ child | .pointer _ child | .rawManyPointer _ child
  | .slice _ child => typeMentionsIdent name child
  | .generic _ args => typesMentionIdent name args
  | .fnPointer params ret | .closureType params ret =>
    typesMentionIdent name params || typeMentionsIdent name ret
  | .enumLiteral _ | .dynTrait _ _ => false

def typesMentionIdent (name : String) : List TypeExpr → Bool
  | [] => false
  | ty :: tys => typeMentionsIdent name ty || typesMentionIdent name tys

end

/-! ## Names in the types of expressions -/

mutual

def exprTypeMentions (name : String) : Expr → Bool
  | .grouped inner | .addressOf inner | .deref inner | .moveExpr inner =>
    exprTypeMentions name inner
  | .borrowExpr _ value => exprTypeMentions name value
  | .tryExpr operand mapped => exprTypeMentions name operand || optExprTypeMentions name mapped
  | .unary _ expr => exprTypeMentions name expr
  | .binary _ left right => exprTypeMentions name left || exprTypeMentions name right
  | .index base index => exprTypeMentions name base || exprTypeMentions name index
  | .slice base start stop =>
    exprTypeMentions name base || exprTypeMentions name start || exprTypeMentions name stop
  | .member base _ => exprTypeMentions name base
  | .cast value ty => typeMentionsIdent name ty || exprTypeMentions name value
  | .call callee typeArgs args =>
    exprTypeMentions name callee || typesMentionIdent name typeArgs || exprsTypeMention name args
  | .arrayLiteral items => exprsTypeMention name items
  | .structLiteral fields => fieldsTypeMention name fields
  | .block body => blockTypeMentions name body
  | .ident _ | .intLiteral _ | .floatLiteral _ | .stringLiteral _ | .charLiteral _
  | .boolLiteral _ | .nullLiteral | .uninitLiteral | .unreachableExpr | .voidLiteral
  | .enumLiteral _ => false

def exprsTypeMention (name : String) : List Expr → Bool
  | [] => false
  | expr :: exprs => exprTypeMentions name expr || exprsTypeMention name exprs

def optExprTypeMentions (name : String) : Option Expr → Bool
  | none => false
  | some expr => exprTypeMentions name expr

def fieldsTypeMention (name : String) : List StructLiteralField → Bool
  | [] => false
  | .mk _ value :: fields => exprTypeMentions name value || fieldsTypeMention name fields

def stmtTypeMentions (name : String) : Stmt → Bool
  | .letDecl _ ty init | .varDecl _ ty init =>
    ty.any (typeMentionsIdent name) || optExprTypeMentions name init
  | .loop _ _ _ iterable body =>
    optExprTypeMentions name iterable || blockTypeMentions name body
  | .block body | .unsafeBlock body | .comptimeBlock body => blockTypeMentions name body
  | .contractBlock attr body => attrTypeMentions name attr || blockTypeMentions name body
  | .ifLet pattern value thenBlock elseBlock =>
    patternTypeMentions name pattern || exprTypeMentions name value ||
      blockTypeMentions name thenBlock || optBlockTypeMentions name elseBlock
  | .switch subject arms => exprTypeMentions name subject || armsTypeMention name arms
  | .ret value => optExprTypeMentions name value
  | .defer expr | .assert expr | .expr expr => exprTypeMentions name expr
  | .assignment target value => exprTypeMentions name target || exprTypeMentions name value
  | .asmStmt _ _ _ _ outputs inputs =>
    outputsTypeMention name outputs || inputsTypeMention name inputs
  | .break _ | .continue _ => false

def blockTypeMentions (name : String) : List Stmt → Bool
  | [] => false
  | stmt :: stmts => stmtTypeMentions name stmt || blockTypeMentions name stmts

def optBlockTypeMentions (name : String) : Option (List Stmt) → Bool
  | none => false
  | some body => blockTypeMentions name body

def patternTypeMentions (name : String) : Pattern → Bool
  | .literal expr => exprTypeMentions name expr
  | .wildcard | .bind _ | .tag _ | .tagBind _ _ => false

def patternsTypeMention (name : String) : List Pattern → Bool
  | [] => false
  | pattern :: patterns =>
    patternTypeMentions name pattern || patternsTypeMention name patterns

def armsTypeMention (name : String) : List SwitchArm → Bool
  | [] => false
  | .block patterns body _ :: arms =>
    patternsTypeMention name patterns || blockTypeMentions name body || armsTypeMention name arms
  | .expr patterns body _ :: arms =>
    patternsTypeMention name patterns || exprTypeMentions name body || armsTypeMention name arms

def outputsTypeMention (name : String) : List AsmOutput → Bool
  | [] => false
  | .mk _ _ ty :: outputs => typeMentionsIdent name ty || outputsTypeMention name outputs

def inputsTypeMention (name : String) : List AsmInput → Bool
  | [] => false
  | .mk _ value ty :: inputs =>
    typeMentionsIdent name ty || exprTypeMentions name value || inputsTypeMention name inputs

def attrTypeMentions (name : String) : Attr → Bool
  | .unsafeContract _ args => exprsTypeMention name args
  | .plain _ => false

end

def fnTypeMentions (decl : FnDecl) (name : String) : Bool :=
  decl.params.any (fun param => typeMentionsIdent name param.ty) ||
    decl.returnType.any (typeMentionsIdent name) || decl.body.any (blockTypeMentions name)

/-- The comptime parameters that the function is generic over. -/
def typeGenericParams (decl : FnDecl) : List String :=
  (decl.params.filter fun param => param.isComptime && fnTypeMentions decl param.name.text).map
    fun param => param.name.text

def isTypeGenericFunction (decl : FnDecl) : Bool :=
  decl.params.any fun param => param.isComptime && fnTypeMentions decl param.name.text

end ModernC.Specialize

/-!
## Monomorphization

The declarations are collected first.  Pass 1 clones those that are not generic, pass 2a the
instances of functions and pass 2b the instances of structs and unions.  Each clone may register
further instances: pass 2a goes on until no function instance is left, pass 2b until no struct or
union instance is.
-/

namespace ModernC.Specialize

open ModernC.Framework ModernC.Syntax

/-! ## Collection -/

def put {α : Type} (map : String → Option α) (name : String) (value : α) : String → Option α :=
  fun other => if other = name then some value else map other

/-- The evaluator of constants, by the const functions and the constants it knows. -/
abbrev FoldIntConst := (String → Option FnDecl) → (String → Option ℤ) → Expr → Option ℤ

structure Collected where
  typeGeneric : String → Option TypeGenericInfo
  constFns : String → Option FnDecl
  genericStructs : String → Option GenericStructInfo
  genericUnions : String → Option GenericUnionInfo
  intConsts : String → Option ℤ
  fieldTypes : String → Option (String → Option TypeExpr)

namespace Collected

def empty : Collected where
  typeGeneric _ := none
  constFns _ := none
  genericStructs _ := none
  genericUnions _ := none
  intConsts _ := none
  fieldTypes _ := none

/-- The types of the fields of a type, unless a type of this name was collected before. -/
def addFieldTypes (collected : Collected) (name : String) (fields : List (String × TypeExpr)) :
    Collected :=
  if (collected.fieldTypes name).isSome then collected
  else { collected with
    fieldTypes := put collected.fieldTypes name fun field => fields.lookup field }

def addFn (collected : Collected) (decl : Decl) (node : FnDecl) : Collected :=
  let constFns :=
    if node.isConst && (collected.constFns node.name.text).isNone then
      put collected.constFns node.name.text node
    else collected.constFns
  let typeGeneric :=
    if isTypeGenericFunction node then
      put collected.typeGeneric node.name.text
        { decl := node, fileId := decl.fileId, attrs := decl.attrs, isPub := decl.isPub }
    else collected.typeGeneric
  { collected with constFns, typeGeneric }

def addStruct (collected : Collected) (decl : Decl) (node : StructDecl) : Collected :=
  if node.typeParams.isEmpty then collected
  else { collected with
    genericStructs := put collected.genericStructs node.name.text
      { decl := node, fileId := decl.fileId, attrs := decl.attrs, isPub := decl.isPub } }

def addUnion (collected : Collected) (decl : Decl) (node : UnionDecl) : Collected :=
  if node.typeParams.isEmpty then collected
  else { collected with
    genericUnions := put collected.genericUnions node.name.text
      { decl := node, fileId := decl.fileId, attrs := decl.attrs, isPub := decl.isPub } }

/-- Record an integer constant, folded against earlier ones. -/
def addConst (fold : FoldIntConst) (collected : Collected) (node : GlobalDecl) : Collected :=
  if node.isConst then
    match node.init.bind (fold collected.constFns collected.intConsts) with
    | some value => { collected with intConsts := put collected.intConsts node.name.text value }
    | none => collected
  else collected

def add (fold : FoldIntConst) (collected : Collected) (decl : Decl) : Collected :=
  match decl.kind with
  | .fnDecl node => collected.addFn decl node
  | .structDecl node =>
    (collected.addStruct decl node).addFieldTypes node.name.text
      (node.fields.map fun field => (field.name.text, field.ty))
  | .packedBitsDecl node =>
    collected.addFieldTypes node.name.text
      (node.fields.map fun field => (field.name.text, field.ty))
  | .overlayUnionDecl node =>
    collected.addFieldTypes node.name.text
      (node.fields.map fun field => (field.name.text, field.ty))
  | .unionDecl node =>
    (collected.addUnion decl node).addFieldTypes node.name.text
      (node.cases.filterMap fun case => case.ty.map fun ty => (case.name.text, ty))
  | .globalDecl node => collected.addConst fold node
  | _ => collected

end Collected

def collect (fold : FoldIntConst) (decls : List Decl) : Collected :=
  decls.foldl (Collected.add fold) Collected.empty

def declaresFn (name : String) (decl : Decl) : Bool :=
  match decl.kind with
  | .fnDecl node | .externFn node => node.name.text == name
  | _ => false

def declaresImpl (traitName typeName : String) (decl : Decl) : Bool :=
  match decl.kind with
  | .implTrait node => node.traitName.text == traitName && node.typeName.text == typeName
  | _ => false

def programOf (fold : FoldIntConst) (decls : List Decl) (reports : Bool) : Program :=
  let collected := collect fold decls
  { typeGeneric := collected.typeGeneric
    genericStructs := collected.genericStructs
    genericUnions := collected.genericUnions
    intConsts := collected.intConsts
    fieldTypes := collected.fieldTypes
    fnNames := fun name => decls.any (declaresFn name)
    conformance := fun traitName typeName => decls.any (declaresImpl traitName typeName)
    foldConst := fold collected.constFns collected.intConsts
    reports }

/-! ## Clones of declarations -/

def cloneStructDecl (program : Program) (subst : Subst) (decl : StructDecl) : Clone StructDecl := do
  let spec ← walkStruct (cloneWalk program subst) decl
  pure { spec with semanticIdentity := some (decl.semanticIdentity.getD decl.name) }

/-- The clone of a declaration that is not generic. -/
def cloneDecl (program : Program) (decl : Decl) : Clone Decl :=
  match decl.kind with
  | .externFn node => do
    let attrs ← walkAttrs (cloneWalk program []) (Place.top.bind (paramNames node.params))
      decl.attrs
    let node ← walkFnSignature (cloneWalk program []) node
    pure { decl with attrs, kind := .externFn node }
  | .structDecl node => do
    let attrs ← walkAttrs (cloneWalk program []) Place.top decl.attrs
    let node ← cloneStructDecl program [] node
    pure { decl with attrs, kind := .structDecl node }
  | _ => walkDecl (cloneWalk program []) decl

def unreachableBody : Block := [.ret (some .unreachableExpr)]

def dropComptimeParams (params : List Param) : List Param :=
  params.filter fun param => !param.isComptime

def specializeFn (program : Program) (use : Use) (decl : FnDecl) : Clone Decl := do
  let spec ← walkFn (cloneWalk program use.subst) decl
  let attrs ← walkAttrs (cloneWalk program use.subst) (Place.top.bind (paramNames decl.params))
    use.attrs
  let spec :=
    { spec with
      name := { text := use.mangled, offset := decl.name.offset }
      params := dropComptimeParams spec.params
      body := if use.boundFailed then some unreachableBody else spec.body }
  pure { fileId := use.fileId, attrs, isPub := use.isPub, kind := .fnDecl spec }

def specializeStruct (program : Program) (use : Use) (decl : StructDecl) : Clone Decl := do
  let spec ← cloneStructDecl program use.subst decl
  let attrs ← walkAttrs (cloneWalk program use.subst) Place.top use.attrs
  let spec :=
    { spec with name := { text := use.mangled, offset := decl.name.offset }, typeParams := [] }
  pure { fileId := use.fileId, attrs, isPub := use.isPub, kind := .structDecl spec }

def specializeUnion (program : Program) (use : Use) (decl : UnionDecl) : Clone Decl := do
  let spec ← walkUnion (cloneWalk program use.subst) decl
  let attrs ← walkAttrs (cloneWalk program use.subst) Place.top use.attrs
  let spec :=
    { spec with name := { text := use.mangled, offset := decl.name.offset }, typeParams := [] }
  pure { fileId := use.fileId, attrs, isPub := use.isPub, kind := .unionDecl spec }

/-- The declaration that a use stands for. -/
def specialize (program : Program) (use : Use) : Clone Decl :=
  match use.decl with
  | .function decl => specializeFn program use decl
  | .struct decl => specializeStruct program use decl
  | .union decl => specializeUnion program use decl

/-! ## The passes -/

def CloneEvent.use? : CloneEvent → Option Use
  | .use noted => some noted
  | .traitNotSatisfied _ _ => none

/-- The uses of generic declarations that a clone noted. -/
def usesOf (events : List CloneEvent) : List Use := events.filterMap CloneEvent.use?

structure Run where
  rw : Rewriter
  out : List Decl
  events : List CloneEvent

inductive Stop where
  | failure (failure : Failure)
  | outOfFuel
deriving DecidableEq

structure Options where
  limits : Limits
  names : List String
  program : Program

def Run.empty : Run := ⟨Rewriter.empty, [], []⟩

/-- Put a clone out and register the uses it noted. -/
def Run.emit (options : Options) (depth : ℕ) (run : Run) (clone : Clone Decl) :
    Except Stop Run := do
  let rw ← (registerAll options.limits options.names run.rw
    ((usesOf clone.log).map fun use => (depth, use))).mapError Stop.failure
  pure { rw, out := run.out ++ [clone.value], events := run.events ++ clone.log }

/-- The declaration is generic; its instances take its place. -/
def isDropped (program : Program) (decl : Decl) : Bool :=
  match decl.kind with
  | .fnDecl node => (program.typeGeneric node.name.text).isSome
  | .structDecl node => !node.typeParams.isEmpty
  | .unionDecl node => !node.typeParams.isEmpty
  | _ => false

/-- Pass 1. -/
def cloneDecls (options : Options) (run : Run) : List Decl → Except Stop Run
  | [] => .ok run
  | decl :: decls =>
    if isDropped options.program decl then cloneDecls options run decls
    else do
      let run ← run.emit options 0 (cloneDecl options.program decl)
      cloneDecls options run decls

/-- Specialize the instances of a kind from an index on, until none is left. -/
def specializeKind (options : Options) (kind : InstantiationKind) :
    ℕ → ℕ → Run → Except Stop (ℕ × Run)
  | fuel, index, run =>
    match (run.rw.instancesOf kind)[index]? with
    | none => .ok (index, run)
    | some inst =>
      match fuel with
      | 0 => .error .outOfFuel
      | fuel + 1 => do
        let run ← run.emit options inst.depth (specialize options.program inst.toUse)
        specializeKind options kind fuel (index + 1) run

/-- Pass 2b; each of its inner loops takes at most so many turns. -/
def specializeTypes (options : Options) (turns : ℕ) : ℕ → ℕ → ℕ → Run → Except Stop Run
  | fuel, si, ui, run =>
    if si < run.rw.structInstances.length ∨ ui < run.rw.unionInstances.length then
      match fuel with
      | 0 => .error .outOfFuel
      | fuel + 1 => do
        let (si, run) ← specializeKind options .struct turns si run
        let (ui, run) ← specializeKind options .union turns ui run
        specializeTypes options turns fuel si ui run
    else .ok run

def isGenericDecl (decl : Decl) : Bool :=
  match decl.kind with
  | .fnDecl node => isTypeGenericFunction node
  | .structDecl node => !node.typeParams.isEmpty
  | .unionDecl node => !node.typeParams.isEmpty
  | _ => false

def optionsOf (fold : FoldIntConst) (decls : List Decl) (reports : Bool) (limits : Limits) :
    Options where
  limits := limits
  names := sourceNames decls
  program := programOf fold decls reports

/-- The transform; each of its loops takes at most `fuel` turns. -/
def transformDeclsReportOptions (fuel : ℕ) (fold : FoldIntConst) (decls : List Decl)
    (reports : Bool) (limits : Limits) : Except Stop Run :=
  if decls.any isGenericDecl then do
    let options := optionsOf fold decls reports limits
    let run ← cloneDecls options Run.empty decls
    let (_, run) ← specializeKind options .function fuel 0 run
    specializeTypes options fuel fuel 0 0 run
  else .ok { rw := Rewriter.empty, out := decls, events := [] }

end ModernC.Specialize
