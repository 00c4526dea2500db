import ModernC.Syntax.WalkRelations

/-!
# Rewritten trees

`Rewrites` relates a tree to what a pass may make of it: one rule for every form of an expression,
a type, a statement, a pattern and a declaration, which goes on with all the parts of the form and
keeps the rest of it.  What may become of an identifier, a member, a call, the name of a type and a
generic type is left to `Rules`, by the place where it stands.  The relation does not speak of
walks; what a walk makes of declarations is a rewriting of them by any rules that the walk follows
(`rewrites_walkDecls`), and what these rules ask of the sites of a tree may be assumed of the tree
(`Rewrites.of_given`), all of whose sites are reached by `partsOf`.
-/

namespace ModernC.Syntax

open ModernC.Framework ModernC.Framework.Logged

/-! ## Nodes -/

/-- The parts of a tree.  Of an option and of a single part the list is taken. -/
inductive Node where
  | expr (expr : Expr)
  | exprs (exprs : List Expr)
  | values (fields : List StructLiteralField)
  | ty (ty : TypeExpr)
  | types (types : List TypeExpr)
  | stmt (stmt : Stmt)
  | block (body : List Stmt)
  | blocks (bodies : List (List Stmt))
  | patterns (patterns : List Pattern)
  | arms (arms : List SwitchArm)
  | outputs (outputs : List AsmOutput)
  | inputs (inputs : List AsmInput)
  | attrs (attrs : List Attr)
  | params (params : List Param)
  | fn (decl : FnDecl)
  | fields (fields : List Field)
  | unionCases (cases : List UnionCase)
  | enumCases (cases : List EnumCase)
  | traitMethods (methods : List TraitMethodSig)
  | implMethods (methods : List ImplTraitMethod)
  | kind (kind : DeclKind)
  | decls (decls : List Decl)

/-- What may become of a node, by its place and by what became of its parts. -/
structure Rules where
  ident : Place → Ident → Expr → Prop
  /-- A base, the rewritten base and a member. -/
  member : Place → Expr → Expr → Ident → Expr → Prop
  /-- A callee, and the rewritten callee, type arguments and arguments. -/
  call : Expr → Expr → List TypeExpr → List Expr → Expr → Prop
  typeName : Place → Ident → TypeExpr → Prop
  /-- The head of a generic type, and the rewritten arguments. -/
  generic : Ident → List TypeExpr → TypeExpr → Prop
  asmOutput : Place → Ident → Ident → Prop

/-- The place of the attributes of a declaration. -/
def DeclKind.place : DeclKind → Place
  | .fnDecl decl | .externFn decl => Place.top.bind (paramNames decl.params)
  | _ => Place.top

/-! ## Rewriting -/

section

variable (rules : Rules)

/-- **A rewritten tree.** -/
inductive Rewrites : Place → Node → Node → Prop
  | ident {place id out} (h : rules.ident place id out) :
      Rewrites place (.expr (.ident id)) (.expr out)
  | intLiteral {place text} : Rewrites place (.expr (.intLiteral text)) (.expr (.intLiteral text))
  | floatLiteral {place text} :
      Rewrites place (.expr (.floatLiteral text)) (.expr (.floatLiteral text))
  | stringLiteral {place text} :
      Rewrites place (.expr (.stringLiteral text)) (.expr (.stringLiteral text))
  | charLiteral {place text} :
      Rewrites place (.expr (.charLiteral text)) (.expr (.charLiteral text))
  | boolLiteral {place value} :
      Rewrites place (.expr (.boolLiteral value)) (.expr (.boolLiteral value))
  | enumLiteral {place id} : Rewrites place (.expr (.enumLiteral id)) (.expr (.enumLiteral id))
  | nullLiteral {place} : Rewrites place (.expr .nullLiteral) (.expr .nullLiteral)
  | uninitLiteral {place} : Rewrites place (.expr .uninitLiteral) (.expr .uninitLiteral)
  | unreachableExpr {place} : Rewrites place (.expr .unreachableExpr) (.expr .unreachableExpr)
  | voidLiteral {place} : Rewrites place (.expr .voidLiteral) (.expr .voidLiteral)
  | arrayLiteral {place items items'} (hitems : Rewrites place (.exprs items) (.exprs items')) :
      Rewrites place (.expr (.arrayLiteral items)) (.expr (.arrayLiteral items'))
  | structLiteral {place fields fields'}
      (hfields : Rewrites place (.values fields) (.values fields')) :
      Rewrites place (.expr (.structLiteral fields)) (.expr (.structLiteral fields'))
  | grouped {place inner inner'} (hinner : Rewrites place (.expr inner) (.expr inner')) :
      Rewrites place (.expr (.grouped inner)) (.expr (.grouped inner'))
  | moveExpr {place inner inner'} (hinner : Rewrites place (.expr inner) (.expr inner')) :
      Rewrites place (.expr (.moveExpr inner)) (.expr (.moveExpr inner'))
  | blockExpr {place body body'} (hbody : Rewrites place (.block body) (.block body')) :
      Rewrites place (.expr (.block body)) (.expr (.block body'))
  | unary {place op expr expr'} (hexpr : Rewrites place (.expr expr) (.expr expr')) :
      Rewrites place (.expr (.unary op expr)) (.expr (.unary op expr'))
  | binary {place op left left' right right'} (hleft : Rewrites place (.expr left) (.expr left'))
      (hright : Rewrites place (.expr right) (.expr right')) :
      Rewrites place (.expr (.binary op left right)) (.expr (.binary op left' right'))
  | cast {place value value' ty ty'} (hvalue : Rewrites place (.expr value) (.expr value'))
      (hty : Rewrites place (.ty ty) (.ty ty')) :
      Rewrites place (.expr (.cast value ty)) (.expr (.cast value' ty'))
  | addressOf {place inner inner'} (hinner : Rewrites place (.expr inner) (.expr inner')) :
      Rewrites place (.expr (.addressOf inner)) (.expr (.addressOf inner'))
  | borrowExpr {place mutability value value'}
      (hvalue : Rewrites place (.expr value) (.expr value')) :
      Rewrites place (.expr (.borrowExpr mutability value)) (.expr (.borrowExpr mutability value'))
  | call {place callee callee' typeArgs typeArgs' args args' out}
      (hcallee : Rewrites place (.expr callee) (.expr callee'))
      (htypes : Rewrites place (.types typeArgs) (.types typeArgs'))
      (hargs : Rewrites place (.exprs args) (.exprs args'))
      (h : rules.call callee callee' typeArgs' args' out) :
      Rewrites place (.expr (.call callee typeArgs args)) (.expr out)
  | index {place base base' index index'} (hbase : Rewrites place (.expr base) (.expr base'))
      (hindex : Rewrites place (.expr index) (.expr index')) :
      Rewrites place (.expr (.index base index)) (.expr (.index base' index'))
  | slice {place base base' start start' stop stop'}
      (hbase : Rewrites place (.expr base) (.expr base'))
      (hstart : Rewrites place (.expr start) (.expr start'))
      (hstop : Rewrites place (.expr stop) (.expr stop')) :
      Rewrites place (.expr (.slice base start stop)) (.expr (.slice base' start' stop'))
  | deref {place inner inner'} (hinner : Rewrites place (.expr inner) (.expr inner')) :
      Rewrites place (.expr (.deref inner)) (.expr (.deref inner'))
  | member {place base base' name out} (hbase : Rewrites place (.expr base) (.expr base'))
      (h : rules.member place base base' name out) :
      Rewrites place (.expr (.member base name)) (.expr out)
  | tryExpr {place operand operand' mapped mapped'}
      (hoperand : Rewrites place (.expr operand) (.expr operand'))
      (hmapped : Rewrites place (.exprs mapped.toList) (.exprs mapped'.toList)) :
      Rewrites place (.expr (.tryExpr operand mapped)) (.expr (.tryExpr operand' mapped'))
  | exprsNil {place} : Rewrites place (.exprs []) (.exprs [])
  | exprsCons {place expr expr' exprs exprs'} (hexpr : Rewrites place (.expr expr) (.expr expr'))
      (hexprs : Rewrites place (.exprs exprs) (.exprs exprs')) :
      Rewrites place (.exprs (expr :: exprs)) (.exprs (expr' :: exprs'))
  | valuesNil {place} : Rewrites place (.values []) (.values [])
  | valuesCons {place name value value' fields fields'}
      (hvalue : Rewrites place (.expr value) (.expr value'))
      (hfields : Rewrites place (.values fields) (.values fields')) :
      Rewrites place (.values (.mk name value :: fields)) (.values (.mk name value' :: fields'))
  | typeName {place id out} (h : rules.typeName place id out) :
      Rewrites place (.ty (.name id)) (.ty out)
  | typeEnumLiteral {place id} : Rewrites place (.ty (.enumLiteral id)) (.ty (.enumLiteral id))
  | typeMember {place base base' field} (hbase : Rewrites place (.ty base) (.ty base')) :
      Rewrites place (.ty (.member base field)) (.ty (.member base' field))
  | nullable {place child child'} (hchild : Rewrites place (.ty child) (.ty child')) :
      Rewrites place (.ty (.nullable child)) (.ty (.nullable child'))
  | qualified {place mutability child child'} (hchild : Rewrites place (.ty child) (.ty child')) :
      Rewrites place (.ty (.qualified mutability child)) (.ty (.qualified mutability child'))
  | pointer {place mutability child child'} (hchild : Rewrites place (.ty child) (.ty child')) :
      Rewrites place (.ty (.pointer mutability child)) (.ty (.pointer mutability child'))
  | rawManyPointer {place mutability child child'}
      (hchild : Rewrites place (.ty child) (.ty child')) :
      Rewrites place (.ty (.rawManyPointer mutability child))
        (.ty (.rawManyPointer mutability child'))
  | typeSlice {place mutability child child'} (hchild : Rewrites place (.ty child) (.ty child')) :
      Rewrites place (.ty (.slice mutability child)) (.ty (.slice mutability child'))
  | array {place len len' child child'} (hlen : Rewrites place (.expr len) (.expr len'))
      (hchild : Rewrites place (.ty child) (.ty child')) :
      Rewrites place (.ty (.array len child)) (.ty (.array len' child'))
  | generic {place base args args' out} (hargs : Rewrites place (.types args) (.types args'))
      (h : rules.generic base args' out) : Rewrites place (.ty (.generic base args)) (.ty out)
  | fnPointer {place params params' ret ret'}
      (hparams : Rewrites place (.types params) (.types params'))
      (hret : Rewrites place (.ty ret) (.ty ret')) :
      Rewrites place (.ty (.fnPointer params ret)) (.ty (.fnPointer params' ret'))
  | closureType {place params params' ret ret'}
      (hparams : Rewrites place (.types params) (.types params'))
      (hret : Rewrites place (.ty ret) (.ty ret')) :
      Rewrites place (.ty (.closureType params ret)) (.ty (.closureType params' ret'))
  | dynTrait {place mutability traitName} :
      Rewrites place (.ty (.dynTrait mutability traitName)) (.ty (.dynTrait mutability traitName))
  | typesNil {place} : Rewrites place (.types []) (.types [])
  | typesCons {place ty ty' tys tys'} (hty : Rewrites place (.ty ty) (.ty ty'))
      (htys : Rewrites place (.types tys) (.types tys')) :
      Rewrites place (.types (ty :: tys)) (.types (ty' :: tys'))
  | letDecl {place names ty ty' init init'}
      (hty : Rewrites place (.types ty.toList) (.types ty'.toList))
      (hinit : Rewrites place (.exprs init.toList) (.exprs init'.toList)) :
      Rewrites place (.stmt (.letDecl names ty init)) (.stmt (.letDecl names ty' init'))
  | varDecl {place names ty ty' init init'}
      (hty : Rewrites place (.types ty.toList) (.types ty'.toList))
      (hinit : Rewrites place (.exprs init.toList) (.exprs init'.toList)) :
      Rewrites place (.stmt (.varDecl names ty init)) (.stmt (.varDecl names ty' init'))
  | loop {place kind label loopLabel iterable iterable' body body'}
      (hiterable : Rewrites place (.exprs iterable.toList) (.exprs iterable'.toList))
      (hbody : Rewrites (place.bind (loopBinds kind label)) (.block body) (.block body')) :
      Rewrites place (.stmt (.loop kind label loopLabel iterable body))
        (.stmt (.loop kind label loopLabel iterable' body'))
  | ifLet {place pattern pattern' value value' thenBlock thenBlock' elseBlock elseBlock'}
      (hpattern : Rewrites place (.patterns [pattern]) (.patterns [pattern']))
      (hvalue : Rewrites place (.expr value) (.expr value'))
      (hthen : Rewrites (place.bind pattern.binds) (.block thenBlock) (.block thenBlock'))
      (helse : Rewrites place (.blocks elseBlock.toList) (.blocks elseBlock'.toList)) :
      Rewrites place (.stmt (.ifLet pattern value thenBlock elseBlock))
        (.stmt (.ifLet pattern' value' thenBlock' elseBlock'))
  | switch {place subject subject' arms arms'}
      (hsubject : Rewrites place (.expr subject) (.expr subject'))
      (harms : Rewrites place (.arms arms) (.arms arms')) :
      Rewrites place (.stmt (.switch subject arms)) (.stmt (.switch subject' arms'))
  | unsafeBlock {place body body'} (hbody : Rewrites place (.block body) (.block body')) :
      Rewrites place (.stmt (.unsafeBlock body)) (.stmt (.unsafeBlock body'))
  | comptimeBlock {place body body'} (hbody : Rewrites place (.block body) (.block body')) :
      Rewrites place (.stmt (.comptimeBlock body)) (.stmt (.comptimeBlock body'))
  | contractBlock {place attr attr' body body'}
      (hattr : Rewrites place (.attrs [attr]) (.attrs [attr']))
      (hbody : Rewrites place (.block body) (.block body')) :
      Rewrites place (.stmt (.contractBlock attr body)) (.stmt (.contractBlock attr' body'))
  | asmStmt {place form isVolatile templates clobbers outputs outputs' inputs inputs'}
      (houtputs : Rewrites place.asm (.outputs outputs) (.outputs outputs'))
      (hinputs : Rewrites place.asm (.inputs inputs) (.inputs inputs')) :
      Rewrites place (.stmt (.asmStmt form isVolatile templates clobbers outputs inputs))
        (.stmt (.asmStmt form isVolatile templates clobbers outputs' inputs'))
  | blockStmt {place body body'} (hbody : Rewrites place (.block body) (.block body')) :
      Rewrites place (.stmt (.block body)) (.stmt (.block body'))
  | ret {place value value'}
      (hvalue : Rewrites place (.exprs value.toList) (.exprs value'.toList)) :
      Rewrites place (.stmt (.ret value)) (.stmt (.ret value'))
  | break {place label} : Rewrites place (.stmt (.break label)) (.stmt (.break label))
  | continue {place label} : Rewrites place (.stmt (.continue label)) (.stmt (.continue label))
  | defer {place expr expr'} (hexpr : Rewrites place (.expr expr) (.expr expr')) :
      Rewrites place (.stmt (.defer expr)) (.stmt (.defer expr'))
  | assert {place expr expr'} (hexpr : Rewrites place (.expr expr) (.expr expr')) :
      Rewrites place (.stmt (.assert expr)) (.stmt (.assert expr'))
  | assignment {place target target' value value'}
      (htarget : Rewrites place (.expr target) (.expr target'))
      (hvalue : Rewrites place (.expr value) (.expr value')) :
      Rewrites place (.stmt (.assignment target value)) (.stmt (.assignment target' value'))
  | exprStmt {place expr expr'} (hexpr : Rewrites place (.expr expr) (.expr expr')) :
      Rewrites place (.stmt (.expr expr)) (.stmt (.expr expr'))
  | blockNil {place} : Rewrites place (.block []) (.block [])
  | blockCons {place stmt stmt' body body'} (hstmt : Rewrites place (.stmt stmt) (.stmt stmt'))
      (hbody : Rewrites (place.bind stmt.binds) (.block body) (.block body')) :
      Rewrites place (.block (stmt :: body)) (.block (stmt' :: body'))
  | blocksNil {place} : Rewrites place (.blocks []) (.blocks [])
  | blocksCons {place body body' bodies bodies'}
      (hbody : Rewrites place (.block body) (.block body'))
      (hbodies : Rewrites place (.blocks bodies) (.blocks bodies')) :
      Rewrites place (.blocks (body :: bodies)) (.blocks (body' :: bodies'))
  | patternsNil {place} : Rewrites place (.patterns []) (.patterns [])
  | patternsWildcard {place patterns patterns'}
      (hpatterns : Rewrites place (.patterns patterns) (.patterns patterns')) :
      Rewrites place (.patterns (.wildcard :: patterns)) (.patterns (.wildcard :: patterns'))
  | patternsBind {place id patterns patterns'}
      (hpatterns : Rewrites place (.patterns patterns) (.patterns patterns')) :
      Rewrites place (.patterns (.bind id :: patterns)) (.patterns (.bind id :: patterns'))
  | patternsTag {place id patterns patterns'}
      (hpatterns : Rewrites place (.patterns patterns) (.patterns patterns')) :
      Rewrites place (.patterns (.tag id :: patterns)) (.patterns (.tag id :: patterns'))
  | patternsTagBind {place tag binding patterns patterns'}
      (hpatterns : Rewrites place (.patterns patterns) (.patterns patterns')) :
      Rewrites place (.patterns (.tagBind tag binding :: patterns))
        (.patterns (.tagBind tag binding :: patterns'))
  | patternsLiteral {place expr expr' patterns patterns'}
      (hexpr : Rewrites place.pattern (.expr expr) (.expr expr'))
      (hpatterns : Rewrites place (.patterns patterns) (.patterns patterns')) :
      Rewrites place (.patterns (.literal expr :: patterns))
        (.patterns (.literal expr' :: patterns'))
  | armsNil {place} : Rewrites place (.arms []) (.arms [])
  | armsBlock {place patterns patterns' body body' dup arms arms'}
      (hpatterns : Rewrites place (.patterns patterns) (.patterns patterns'))
      (hbody : Rewrites (place.bind (patterns.flatMap Pattern.binds)) (.block body) (.block body'))
      (harms : Rewrites place (.arms arms) (.arms arms')) :
      Rewrites place (.arms (.block patterns body dup :: arms))
        (.arms (.block patterns' body' dup :: arms'))
  | armsExpr {place patterns patterns' body body' dup arms arms'}
      (hpatterns : Rewrites place (.patterns patterns) (.patterns patterns'))
      (hbody : Rewrites (place.bind (patterns.flatMap Pattern.binds)) (.expr body) (.expr body'))
      (harms : Rewrites place (.arms arms) (.arms arms')) :
      Rewrites place (.arms (.expr patterns body dup :: arms))
        (.arms (.expr patterns' body' dup :: arms'))
  | outputsNil {place} : Rewrites place (.outputs []) (.outputs [])
  | outputsCons {place reg name name' ty ty' outputs outputs'}
      (h : rules.asmOutput place name name') (hty : Rewrites place (.ty ty) (.ty ty'))
      (houtputs : Rewrites place (.outputs outputs) (.outputs outputs')) :
      Rewrites place (.outputs (.mk reg name ty :: outputs))
        (.outputs (.mk reg name' ty' :: outputs'))
  | inputsNil {place} : Rewrites place (.inputs []) (.inputs [])
  | inputsCons {place reg value value' ty ty' inputs inputs'}
      (hvalue : Rewrites place (.expr value) (.expr value'))
      (hty : Rewrites place (.ty ty) (.ty ty'))
      (hinputs : Rewrites place (.inputs inputs) (.inputs inputs')) :
      Rewrites place (.inputs (.mk reg value ty :: inputs))
        (.inputs (.mk reg value' ty' :: inputs'))
  | attrsNil {place} : Rewrites place (.attrs []) (.attrs [])
  | attrsContract {place name args args' attrs attrs'}
      (hargs : Rewrites place.contract (.exprs args) (.exprs args'))
      (hattrs : Rewrites place (.attrs attrs) (.attrs attrs')) :
      Rewrites place (.attrs (.unsafeContract name args :: attrs))
        (.attrs (.unsafeContract name args' :: attrs'))
  | attrsPlain {place kind attrs attrs'} (hattrs : Rewrites place (.attrs attrs) (.attrs attrs')) :
      Rewrites place (.attrs (.plain kind :: attrs)) (.attrs (.plain kind :: attrs'))
  | paramsNil {place} : Rewrites place (.params []) (.params [])
  | paramsCons {place param ty params params'} (hty : Rewrites place (.ty param.ty) (.ty ty))
      (hparams : Rewrites (place.bind [param.name.text]) (.params params) (.params params')) :
      Rewrites place (.params (param :: params)) (.params ({ param with ty } :: params'))
  | fn {place decl params returnType body}
      (hparams : Rewrites .top (.params decl.params) (.params params))
      (hreturn : Rewrites (Place.top.bind (paramNames decl.params)) (.types decl.returnType.toList)
        (.types returnType.toList))
      (hbody : Rewrites (Place.top.bind (paramNames decl.params)) (.blocks decl.body.toList)
        (.blocks body.toList)) :
      Rewrites place (.fn decl) (.fn { decl with params, returnType, body })
  | fieldsNil {place} : Rewrites place (.fields []) (.fields [])
  | fieldsCons {place field ty fields fields'} (hty : Rewrites .top (.ty field.ty) (.ty ty))
      (hfields : Rewrites place (.fields fields) (.fields fields')) :
      Rewrites place (.fields (field :: fields)) (.fields ({ field with ty } :: fields'))
  | unionCasesNil {place} : Rewrites place (.unionCases []) (.unionCases [])
  | unionCasesCons {place case ty cases cases'}
      (hty : Rewrites .top (.types case.ty.toList) (.types ty.toList))
      (hcases : Rewrites place (.unionCases cases) (.unionCases cases')) :
      Rewrites place (.unionCases (case :: cases)) (.unionCases ({ case with ty } :: cases'))
  | enumCasesNil {place} : Rewrites place (.enumCases []) (.enumCases [])
  | enumCasesCons {place case value cases cases'}
      (hvalue : Rewrites .top (.exprs case.value.toList) (.exprs value.toList))
      (hcases : Rewrites place (.enumCases cases) (.enumCases cases')) :
      Rewrites place (.enumCases (case :: cases)) (.enumCases ({ case with value } :: cases'))
  | traitMethodsNil {place} : Rewrites place (.traitMethods []) (.traitMethods [])
  | traitMethodsCons {place method params returnType attrs methods methods'}
      (hparams : Rewrites .top (.params method.params) (.params params))
      (hreturn : Rewrites (Place.top.bind (paramNames method.params))
        (.types method.returnType.toList) (.types returnType.toList))
      (hattrs : Rewrites (Place.top.bind (paramNames method.params)) (.attrs method.attrs)
        (.attrs attrs))
      (hmethods : Rewrites place (.traitMethods methods) (.traitMethods methods')) :
      Rewrites place (.traitMethods (method :: methods))
        (.traitMethods ({ method with params, returnType, attrs } :: methods'))
  | implMethodsNil {place} : Rewrites place (.implMethods []) (.implMethods [])
  | implMethodsCons {place method attrs params returnType methods methods'}
      (hattrs : Rewrites (Place.top.bind (paramNames method.params)) (.attrs method.attrs)
        (.attrs attrs))
      (hparams : Rewrites .top (.params method.params) (.params params))
      (hreturn : Rewrites (Place.top.bind (paramNames method.params))
        (.types method.returnType.toList) (.types returnType.toList))
      (hmethods : Rewrites place (.implMethods methods) (.implMethods methods')) :
      Rewrites place (.implMethods (method :: methods))
        (.implMethods ({ method with attrs, params, returnType } :: methods'))
  | fnDecl {place decl decl'} (hfn : Rewrites place (.fn decl) (.fn decl')) :
      Rewrites place (.kind (.fnDecl decl)) (.kind (.fnDecl decl'))
  | externFn {place decl decl'} (hfn : Rewrites place (.fn decl) (.fn decl')) :
      Rewrites place (.kind (.externFn decl)) (.kind (.externFn decl'))
  | typeAlias {place decl ty} (hty : Rewrites .top (.ty decl.ty) (.ty ty)) :
      Rewrites place (.kind (.typeAlias decl)) (.kind (.typeAlias { decl with ty }))
  | structDecl {place decl fields}
      (hfields : Rewrites .top (.fields decl.fields) (.fields fields)) :
      Rewrites place (.kind (.structDecl decl)) (.kind (.structDecl { decl with fields }))
  | enumDecl {place decl repr cases}
      (hrepr : Rewrites .top (.types decl.repr.toList) (.types repr.toList))
      (hcases : Rewrites .top (.enumCases decl.cases) (.enumCases cases)) :
      Rewrites place (.kind (.enumDecl decl)) (.kind (.enumDecl { decl with repr, cases }))
  | unionDecl {place decl cases}
      (hcases : Rewrites .top (.unionCases decl.cases) (.unionCases cases)) :
      Rewrites place (.kind (.unionDecl decl)) (.kind (.unionDecl { decl with cases }))
  | packedBitsDecl {place decl repr fields} (hrepr : Rewrites .top (.ty decl.repr) (.ty repr))
      (hfields : Rewrites .top (.fields decl.fields) (.fields fields)) :
      Rewrites place (.kind (.packedBitsDecl decl))
        (.kind (.packedBitsDecl { decl with repr, fields }))
  | overlayUnionDecl {place decl fields}
      (hfields : Rewrites .top (.fields decl.fields) (.fields fields)) :
      Rewrites place (.kind (.overlayUnionDecl decl))
        (.kind (.overlayUnionDecl { decl with fields }))
  | opaqueDecl {place name} : Rewrites place (.kind (.opaqueDecl name)) (.kind (.opaqueDecl name))
  | globalDecl {place decl ty init} (hty : Rewrites .top (.types decl.ty.toList) (.types ty.toList))
      (hinit : Rewrites .top (.exprs decl.init.toList) (.exprs init.toList)) :
      Rewrites place (.kind (.globalDecl decl)) (.kind (.globalDecl { decl with ty, init }))
  | traitDecl {place decl methods}
      (hmethods : Rewrites .top (.traitMethods decl.methods) (.traitMethods methods)) :
      Rewrites place (.kind (.traitDecl decl)) (.kind (.traitDecl { decl with methods }))
  | implTrait {place decl methods}
      (hmethods : Rewrites .top (.implMethods decl.methods) (.implMethods methods)) :
      Rewrites place (.kind (.implTrait decl)) (.kind (.implTrait { decl with methods }))
  | declsNil {place} : Rewrites place (.decls []) (.decls [])
  | declsCons {place decl attrs kind decls decls'}
      (hattrs : Rewrites decl.kind.place (.attrs decl.attrs) (.attrs attrs))
      (hkind : Rewrites .top (.kind decl.kind) (.kind kind))
      (hdecls : Rewrites place (.decls decls) (.decls decls')) :
      Rewrites place (.decls (decl :: decls)) (.decls ({ decl with attrs, kind } :: decls'))

end

/-! ## What walks make of a tree -/

variable {ω : Type}

/-- Whatever the walk decides is what the rules say. -/
structure Walk.Follows (walk : Walk ω) (rules : Rules) : Prop where
  ident : ∀ place id, rules.ident place id (walk.ident place id).value
  member : ∀ place base name, rules.member place base (walkExpr walk place base).value name
    (walk.member place base (walkExpr walk place base).value name).value
  callRewritten : ∀ callee callee' typeArgs args out, (walk.call callee args).value = some out →
    rules.call callee callee' typeArgs (args.map Logged.value) out
  callKept : ∀ callee callee' typeArgs args, (walk.call callee args).value = none →
    rules.call callee callee' typeArgs (args.map Logged.value)
      (.call (walk.callee callee').value typeArgs (args.map Logged.value))
  typeName : ∀ place id, rules.typeName place id (walk.typeName place id).value
  genericRewritten : ∀ base args out, (walk.generic base args).value = some out →
    rules.generic base (args.map Logged.value) out
  genericKept : ∀ base args, (walk.generic base args).value = none →
    rules.generic base (args.map Logged.value) (.generic base (args.map Logged.value))
  asmOutput : ∀ place name, rules.asmOutput place name (walk.asmOutput place name).value

section

variable {walk : Walk ω} {rules : Rules} (h : walk.Follows rules)

include h

set_option linter.unusedSectionVars false

mutual

theorem rewrites_walkExpr : ∀ (place : Place) (expr : Expr),
    Rewrites rules place (.expr expr) (.expr (walkExpr walk place expr).value)
  | place, .ident id => .ident (h.ident place id)
  | _, .intLiteral _ => .intLiteral
  | _, .floatLiteral _ => .floatLiteral
  | _, .stringLiteral _ => .stringLiteral
  | _, .charLiteral _ => .charLiteral
  | _, .boolLiteral _ => .boolLiteral
  | _, .nullLiteral => .nullLiteral
  | _, .uninitLiteral => .uninitLiteral
  | _, .unreachableExpr => .unreachableExpr
  | _, .voidLiteral => .voidLiteral
  | _, .enumLiteral _ => .enumLiteral
  | place, .arrayLiteral items => by
    rw [walkExpr, value_bind, value_all]
    exact .arrayLiteral (rewrites_walkExprs place items)
  | place, .structLiteral fields => .structLiteral (rewrites_walkFields place fields)
  | place, .grouped inner => .grouped (rewrites_walkExpr place inner)
  | place, .moveExpr inner => .moveExpr (rewrites_walkExpr place inner)
  | place, .block body => .blockExpr (rewrites_walkBlock place body)
  | place, .unary op expr => .unary (rewrites_walkExpr place expr)
  | place, .binary op left right =>
    .binary (rewrites_walkExpr place left) (rewrites_walkExpr place right)
  | place, .cast value ty => .cast (rewrites_walkExpr place value) (rewrites_walkType place ty)
  | place, .addressOf inner => .addressOf (rewrites_walkExpr place inner)
  | place, .borrowExpr mutability value => .borrowExpr (rewrites_walkExpr place value)
  | place, .call callee typeArgs args => by
    have hcallee := rewrites_walkExpr place callee
    have htypes := rewrites_walkTypes place typeArgs
    have hargs := rewrites_walkExprs place args
    refine .call hcallee htypes hargs ?_
    rw [walkExpr, value_bind]
    rcases hcall : (walk.call callee (walkExprs walk place args)).value with _ | out
    · simp only [value_bind, value_all, value_pure]
      exact h.callKept _ _ _ _ hcall
    · exact h.callRewritten _ _ _ _ _ hcall
  | place, .index base index =>
    .index (rewrites_walkExpr place base) (rewrites_walkExpr place index)
  | place, .slice base start stop =>
    .slice (rewrites_walkExpr place base) (rewrites_walkExpr place start)
      (rewrites_walkExpr place stop)
  | place, .deref inner => .deref (rewrites_walkExpr place inner)
  | place, .member base name => .member (rewrites_walkExpr place base) (h.member place base name)
  | place, .tryExpr operand mapped =>
    .tryExpr (rewrites_walkExpr place operand) (rewrites_walkOptExpr place mapped)

theorem rewrites_walkExprs : ∀ (place : Place) (exprs : List Expr),
    Rewrites rules place (.exprs exprs) (.exprs ((walkExprs walk place exprs).map Logged.value))
  | _, [] => .exprsNil
  | place, expr :: exprs =>
    .exprsCons (rewrites_walkExpr place expr) (rewrites_walkExprs place exprs)

theorem rewrites_walkOptExpr : ∀ (place : Place) (expr : Option Expr),
    Rewrites rules place (.exprs expr.toList) (.exprs (walkOptExpr walk place expr).value.toList)
  | _, none => .exprsNil
  | place, some expr => .exprsCons (rewrites_walkExpr place expr) .exprsNil

theorem rewrites_walkFields : ∀ (place : Place) (fields : List StructLiteralField),
    Rewrites rules place (.values fields) (.values (walkFields walk place fields).value)
  | _, [] => .valuesNil
  | place, .mk _ value :: fields =>
    .valuesCons (rewrites_walkExpr place value) (rewrites_walkFields place fields)

theorem rewrites_walkType : ∀ (place : Place) (ty : TypeExpr),
    Rewrites rules place (.ty ty) (.ty (walkType walk place ty).value)
  | place, .name id => .typeName (h.typeName place id)
  | _, .enumLiteral _ => .typeEnumLiteral
  | place, .member base _ => .typeMember (rewrites_walkType place base)
  | place, .nullable child => .nullable (rewrites_walkType place child)
  | place, .qualified _ child => .qualified (rewrites_walkType place child)
  | place, .pointer _ child => .pointer (rewrites_walkType place child)
  | place, .rawManyPointer _ child => .rawManyPointer (rewrites_walkType place child)
  | place, .slice _ child => .typeSlice (rewrites_walkType place child)
  | place, .array len child => .array (rewrites_walkExpr place len) (rewrites_walkType place child)
  | place, .generic base args => by
    refine .generic (rewrites_walkTypes place args) ?_
    rw [walkType, value_bind]
    rcases hgeneric : (walk.generic base (walkTypes walk place args)).value with _ | out
    · simp only [value_bind, value_all, value_pure]
      exact h.genericKept _ _ hgeneric
    · exact h.genericRewritten _ _ _ hgeneric
  | place, .fnPointer params ret => by
    rw [walkType, value_bind, value_all]
    exact .fnPointer (rewrites_walkTypes place params) (rewrites_walkType place ret)
  | place, .closureType params ret => by
    rw [walkType, value_bind, value_all]
    exact .closureType (rewrites_walkTypes place params) (rewrites_walkType place ret)
  | _, .dynTrait _ _ => .dynTrait

theorem rewrites_walkTypes : ∀ (place : Place) (tys : List TypeExpr),
    Rewrites rules place (.types tys) (.types ((walkTypes walk place tys).map Logged.value))
  | _, [] => .typesNil
  | place, ty :: tys => .typesCons (rewrites_walkType place ty) (rewrites_walkTypes place tys)

theorem rewrites_walkOptType : ∀ (place : Place) (ty : Option TypeExpr),
    Rewrites rules place (.types ty.toList) (.types (walkOptType walk place ty).value.toList)
  | _, none => .typesNil
  | place, some ty => .typesCons (rewrites_walkType place ty) .typesNil

theorem rewrites_walkStmt : ∀ (place : Place) (stmt : Stmt),
    Rewrites rules place (.stmt stmt) (.stmt (walkStmt walk place stmt).value)
  | place, .letDecl _ ty init =>
    .letDecl (rewrites_walkOptType place ty) (rewrites_walkOptExpr place init)
  | place, .varDecl _ ty init =>
    .varDecl (rewrites_walkOptType place ty) (rewrites_walkOptExpr place init)
  | place, .loop _ _ _ iterable body =>
    .loop (rewrites_walkOptExpr place iterable) (rewrites_walkBlock _ body)
  | place, .ifLet pattern value thenBlock elseBlock =>
    .ifLet (rewrites_walkPattern place pattern) (rewrites_walkExpr place value)
      (rewrites_walkBlock _ thenBlock) (rewrites_walkOptBlock place elseBlock)
  | place, .switch subject arms =>
    .switch (rewrites_walkExpr place subject) (rewrites_walkArms place arms)
  | place, .unsafeBlock body => .unsafeBlock (rewrites_walkBlock place body)
  | place, .comptimeBlock body => .comptimeBlock (rewrites_walkBlock place body)
  | place, .contractBlock attr body =>
    .contractBlock (rewrites_walkAttr place attr .attrsNil) (rewrites_walkBlock place body)
  | place, .asmStmt _ _ _ _ outputs inputs =>
    .asmStmt (rewrites_walkOutputs place outputs) (rewrites_walkInputs place inputs)
  | place, .block body => .blockStmt (rewrites_walkBlock place body)
  | place, .ret value => .ret (rewrites_walkOptExpr place value)
  | _, .break _ => .break
  | _, .continue _ => .continue
  | place, .defer expr => .defer (rewrites_walkExpr place expr)
  | place, .assert expr => .assert (rewrites_walkExpr place expr)
  | place, .assignment target value =>
    .assignment (rewrites_walkExpr place target) (rewrites_walkExpr place value)
  | place, .expr expr => .exprStmt (rewrites_walkExpr place expr)

theorem rewrites_walkBlock : ∀ (place : Place) (body : List Stmt),
    Rewrites rules place (.block body) (.block (walkBlock walk place body).value)
  | _, [] => .blockNil
  | place, stmt :: body => .blockCons (rewrites_walkStmt place stmt) (rewrites_walkBlock _ body)

theorem rewrites_walkOptBlock : ∀ (place : Place) (body : Option (List Stmt)),
    Rewrites rules place (.blocks body.toList) (.blocks (walkOptBlock walk place body).value.toList)
  | _, none => .blocksNil
  | place, some body => .blocksCons (rewrites_walkBlock place body) .blocksNil

theorem rewrites_walkPattern : ∀ (place : Place) (pattern : Pattern),
    Rewrites rules place (.patterns [pattern]) (.patterns [(walkPattern walk place pattern).value])
  | _, .wildcard => .patternsWildcard .patternsNil
  | _, .bind _ => .patternsBind .patternsNil
  | _, .tag _ => .patternsTag .patternsNil
  | _, .tagBind _ _ => .patternsTagBind .patternsNil
  | _, .literal expr => .patternsLiteral (rewrites_walkExpr _ expr) .patternsNil

theorem rewrites_walkPatterns : ∀ (place : Place) (patterns : List Pattern),
    Rewrites rules place (.patterns patterns) (.patterns (walkPatterns walk place patterns).value)
  | _, [] => .patternsNil
  | place, .wildcard :: patterns => .patternsWildcard (rewrites_walkPatterns place patterns)
  | place, .bind _ :: patterns => .patternsBind (rewrites_walkPatterns place patterns)
  | place, .tag _ :: patterns => .patternsTag (rewrites_walkPatterns place patterns)
  | place, .tagBind _ _ :: patterns => .patternsTagBind (rewrites_walkPatterns place patterns)
  | place, .literal expr :: patterns =>
    .patternsLiteral (rewrites_walkExpr _ expr) (rewrites_walkPatterns place patterns)

theorem rewrites_walkArms : ∀ (place : Place) (arms : List SwitchArm),
    Rewrites rules place (.arms arms) (.arms (walkArms walk place arms).value)
  | _, [] => .armsNil
  | place, .block patterns body _ :: arms =>
    .armsBlock (rewrites_walkPatterns place patterns) (rewrites_walkBlock _ body)
      (rewrites_walkArms place arms)
  | place, .expr patterns body _ :: arms =>
    .armsExpr (rewrites_walkPatterns place patterns) (rewrites_walkExpr _ body)
      (rewrites_walkArms place arms)

theorem rewrites_walkOutputs : ∀ (place : Place) (outputs : List AsmOutput),
    Rewrites rules place.asm (.outputs outputs) (.outputs (walkOutputs walk place outputs).value)
  | _, [] => .outputsNil
  | place, .mk _ name ty :: outputs =>
    .outputsCons (h.asmOutput place.asm name) (rewrites_walkType _ ty)
      (rewrites_walkOutputs place outputs)

theorem rewrites_walkInputs : ∀ (place : Place) (inputs : List AsmInput),
    Rewrites rules place.asm (.inputs inputs) (.inputs (walkInputs walk place inputs).value)
  | _, [] => .inputsNil
  | place, .mk _ value ty :: inputs =>
    .inputsCons (rewrites_walkExpr _ value) (rewrites_walkType _ ty)
      (rewrites_walkInputs place inputs)

theorem rewrites_walkAttr : ∀ (place : Place) (attr : Attr) {attrs attrs' : List Attr},
    Rewrites rules place (.attrs attrs) (.attrs attrs') →
    Rewrites rules place (.attrs (attr :: attrs))
      (.attrs ((walkAttr walk place attr).value :: attrs'))
  | place, .unsafeContract _ args, _, _, hattrs => by
    rw [walkAttr, value_bind, value_all]
    exact .attrsContract (rewrites_walkExprs _ args) hattrs
  | _, .plain _, _, _, hattrs => .attrsPlain hattrs

end

/-! ### Declarations -/

theorem rewrites_walkParams (place : Place) (params : List Param) :
    Rewrites rules place (.params params) (.params (walkParams walk place params).value) := by
  induction params generalizing place with
  | nil => exact .paramsNil
  | cons param params ih => exact .paramsCons (rewrites_walkType h place param.ty) (ih _)

theorem rewrites_walkAttrs (place : Place) (attrs : List Attr) :
    Rewrites rules place (.attrs attrs) (.attrs (walkAttrs walk place attrs).value) := by
  induction attrs with
  | nil => exact .attrsNil
  | cons attr attrs ih => exact rewrites_walkAttr h place attr ih

theorem rewrites_walkFn (place : Place) (decl : FnDecl) :
    Rewrites rules place (.fn decl) (.fn (walkFn walk decl).value) :=
  .fn (rewrites_walkParams h _ decl.params) (rewrites_walkOptType h _ decl.returnType)
    (rewrites_walkOptBlock h _ decl.body)

theorem rewrites_walkFieldTypes (place : Place) (fields : List Field) :
    Rewrites rules place (.fields fields) (.fields (walkFieldTypes walk fields).value) := by
  induction fields with
  | nil => exact .fieldsNil
  | cons field fields ih => exact .fieldsCons (rewrites_walkType h _ field.ty) ih

theorem rewrites_walkUnionCases (place : Place) (cases : List UnionCase) :
    Rewrites rules place (.unionCases cases) (.unionCases (walkUnionCases walk cases).value) := by
  induction cases with
  | nil => exact .unionCasesNil
  | cons case cases ih => exact .unionCasesCons (rewrites_walkOptType h _ case.ty) ih

theorem rewrites_walkEnumCases (place : Place) (cases : List EnumCase) :
    Rewrites rules place (.enumCases cases) (.enumCases (walkEnumCases walk cases).value) := by
  induction cases with
  | nil => exact .enumCasesNil
  | cons case cases ih => exact .enumCasesCons (rewrites_walkOptExpr h _ case.value) ih

theorem rewrites_walkTraitMethods (place : Place) (methods : List TraitMethodSig) :
    Rewrites rules place (.traitMethods methods)
      (.traitMethods (walkTraitMethods walk methods).value) := by
  induction methods with
  | nil => exact .traitMethodsNil
  | cons method methods ih =>
    exact .traitMethodsCons (rewrites_walkParams h _ method.params)
      (rewrites_walkOptType h _ method.returnType) (rewrites_walkAttrs h _ method.attrs) ih

theorem rewrites_walkImplMethods (place : Place) (methods : List ImplTraitMethod) :
    Rewrites rules place (.implMethods methods)
      (.implMethods (walkImplMethods walk methods).value) := by
  induction methods with
  | nil => exact .implMethodsNil
  | cons method methods ih =>
    exact .implMethodsCons (rewrites_walkAttrs h _ method.attrs)
      (rewrites_walkParams h _ method.params) (rewrites_walkOptType h _ method.returnType) ih

/-- **What a walk makes of declarations is a rewriting of them**, by any rules that it follows. -/
theorem rewrites_walkDecls (place : Place) (decls : List Decl) :
    Rewrites rules place (.decls decls) (.decls (walkDecls walk decls).value) := by
  induction decls with
  | nil => exact .declsNil
  | cons decl decls ih =>
    obtain ⟨fileId, attrs, kind, isPub⟩ := decl
    cases kind with
    | fnDecl node =>
      exact .declsCons (rewrites_walkAttrs h _ attrs) (.fnDecl (rewrites_walkFn h _ node)) ih
    | externFn node =>
      exact .declsCons (rewrites_walkAttrs h _ attrs) (.externFn (rewrites_walkFn h _ node)) ih
    | typeAlias node =>
      exact .declsCons (rewrites_walkAttrs h _ attrs)
        (.typeAlias (rewrites_walkType h _ node.ty)) ih
    | structDecl node =>
      exact .declsCons (rewrites_walkAttrs h _ attrs)
        (.structDecl (rewrites_walkFieldTypes h _ node.fields)) ih
    | enumDecl node =>
      exact .declsCons (rewrites_walkAttrs h _ attrs)
        (.enumDecl (rewrites_walkOptType h _ node.repr) (rewrites_walkEnumCases h _ node.cases)) ih
    | unionDecl node =>
      exact .declsCons (rewrites_walkAttrs h _ attrs)
        (.unionDecl (rewrites_walkUnionCases h _ node.cases)) ih
    | packedBitsDecl node =>
      exact .declsCons (rewrites_walkAttrs h _ attrs)
        (.packedBitsDecl (rewrites_walkType h _ node.repr)
          (rewrites_walkFieldTypes h _ node.fields)) ih
    | overlayUnionDecl node =>
      exact .declsCons (rewrites_walkAttrs h _ attrs)
        (.overlayUnionDecl (rewrites_walkFieldTypes h _ node.fields)) ih
    | opaqueDecl name => exact .declsCons (rewrites_walkAttrs h _ attrs) .opaqueDecl ih
    | globalDecl node =>
      exact .declsCons (rewrites_walkAttrs h _ attrs)
        (.globalDecl (rewrites_walkOptType h _ node.ty) (rewrites_walkOptExpr h _ node.init)) ih
    | traitDecl node =>
      exact .declsCons (rewrites_walkAttrs h _ attrs)
        (.traitDecl (rewrites_walkTraitMethods h _ node.methods)) ih
    | implTrait node =>
      exact .declsCons (rewrites_walkAttrs h _ attrs)
        (.implTrait (rewrites_walkImplMethods h _ node.methods)) ih

end

/-! ## Sites -/

/-- Where a pass decides by the place. -/
inductive Site where
  | ident (place : Place) (id : Ident)
  | member (place : Place) (base : Expr) (name : Ident)
  | typeName (place : Place) (id : Ident)
  | asmOutput (place : Place) (name : Ident)

def Site.place : Site → Place
  | .ident place _ | .member place _ _ | .typeName place _ | .asmOutput place _ => place

/-- The site that a node is. -/
def siteOf (place : Place) : Node → Option Site
  | .expr (.ident id) => some (.ident place id)
  | .expr (.member base name) => some (.member place base name)
  | .ty (.name id) => some (.typeName place id)
  | .outputs (.mk _ name _ :: _) => some (.asmOutput place name)
  | _ => none

/-- The parts of a node, and the places where they stand. -/
def partsOf (place : Place) : Node → List (Place × Node)
  | .expr (.arrayLiteral items) => [(place, .exprs items)]
  | .expr (.structLiteral fields) => [(place, .values fields)]
  | .expr (.grouped inner) | .expr (.moveExpr inner) | .expr (.unary _ inner)
  | .expr (.addressOf inner) | .expr (.borrowExpr _ inner) | .expr (.deref inner)
  | .expr (.member inner _) => [(place, .expr inner)]
  | .expr (.block body) => [(place, .block body)]
  | .expr (.binary _ left right) => [(place, .expr left), (place, .expr right)]
  | .expr (.cast value ty) => [(place, .expr value), (place, .ty ty)]
  | .expr (.call callee typeArgs args) =>
    [(place, .expr callee), (place, .types typeArgs), (place, .exprs args)]
  | .expr (.index base index) => [(place, .expr base), (place, .expr index)]
  | .expr (.slice base start stop) => [(place, .expr base), (place, .expr start), (place, .expr stop)]
  | .expr (.tryExpr operand mapped) => [(place, .expr operand), (place, .exprs mapped.toList)]
  | .exprs (expr :: exprs) => [(place, .expr expr), (place, .exprs exprs)]
  | .values (.mk _ value :: fields) => [(place, .expr value), (place, .values fields)]
  | .ty (.member child _) | .ty (.nullable child) | .ty (.qualified _ child)
  | .ty (.pointer _ child) | .ty (.rawManyPointer _ child) | .ty (.slice _ child) =>
    [(place, .ty child)]
  | .ty (.array len child) => [(place, .expr len), (place, .ty child)]
  | .ty (.generic _ args) => [(place, .types args)]
  | .ty (.fnPointer params ret) | .ty (.closureType params ret) =>
    [(place, .types params), (place, .ty ret)]
  | .types (ty :: tys) => [(place, .ty ty), (place, .types tys)]
  | .stmt (.letDecl _ ty init) | .stmt (.varDecl _ ty init) =>
    [(place, .types ty.toList), (place, .exprs init.toList)]
  | .stmt (.loop kind label _ iterable body) =>
    [(place, .exprs iterable.toList), (place.bind (loopBinds kind label), .block body)]
  | .stmt (.ifLet pattern value thenBlock elseBlock) =>
    [(place, .patterns [pattern]), (place, .expr value),
      (place.bind pattern.binds, .block thenBlock), (place, .blocks elseBlock.toList)]
  | .stmt (.switch subject arms) => [(place, .expr subject), (place, .arms arms)]
  | .stmt (.unsafeBlock body) | .stmt (.comptimeBlock body) | .stmt (.block body) =>
    [(place, .block body)]
  | .stmt (.contractBlock attr body) => [(place, .attrs [attr]), (place, .block body)]
  | .stmt (.asmStmt _ _ _ _ outputs inputs) =>
    [(place.asm, .outputs outputs), (place.asm, .inputs inputs)]
  | .stmt (.ret value) => [(place, .exprs value.toList)]
  | .stmt (.defer expr) | .stmt (.assert expr) | .stmt (.expr expr) => [(place, .expr expr)]
  | .stmt (.assignment target value) => [(place, .expr target), (place, .expr value)]
  | .block (stmt :: body) => [(place, .stmt stmt), (place.bind stmt.binds, .block body)]
  | .blocks (body :: bodies) => [(place, .block body), (place, .blocks bodies)]
  | .patterns (.literal expr :: patterns) =>
    [(place.pattern, .expr expr), (place, .patterns patterns)]
  | .patterns (_ :: patterns) => [(place, .patterns patterns)]
  | .arms (.block patterns body _ :: arms) =>
    [(place, .patterns patterns), (place.bind (patterns.flatMap Pattern.binds), .block body),
      (place, .arms arms)]
  | .arms (.expr patterns body _ :: arms) =>
    [(place, .patterns patterns), (place.bind (patterns.flatMap Pattern.binds), .expr body),
      (place, .arms arms)]
  | .outputs (.mk _ _ ty :: outputs) => [(place, .ty ty), (place, .outputs outputs)]
  | .inputs (.mk _ value ty :: inputs) =>
    [(place, .expr value), (place, .ty ty), (place, .inputs inputs)]
  | .attrs (.unsafeContract _ args :: attrs) =>
    [(place.contract, .exprs args), (place, .attrs attrs)]
  | .attrs (.plain _ :: attrs) => [(place, .attrs attrs)]
  | .params (param :: params) =>
    [(place, .ty param.ty), (place.bind [param.name.text], .params params)]
  | .fn decl =>
    [(.top, .params decl.params),
      (Place.top.bind (paramNames decl.params), .types decl.returnType.toList),
      (Place.top.bind (paramNames decl.params), .blocks decl.body.toList)]
  | .fields (field :: fields) => [(.top, .ty field.ty), (place, .fields fields)]
  | .unionCases (case :: cases) => [(.top, .types case.ty.toList), (place, .unionCases cases)]
  | .enumCases (case :: cases) => [(.top, .exprs case.value.toList), (place, .enumCases cases)]
  | .traitMethods (method :: methods) =>
    [(.top, .params method.params),
      (Place.top.bind (paramNames method.params), .types method.returnType.toList),
      (Place.top.bind (paramNames method.params), .attrs method.attrs),
      (place, .traitMethods methods)]
  | .implMethods (method :: methods) =>
    [(Place.top.bind (paramNames method.params), .attrs method.attrs),
      (.top, .params method.params),
      (Place.top.bind (paramNames method.params), .types method.returnType.toList),
      (place, .implMethods methods)]
  | .kind (.fnDecl decl) | .kind (.externFn decl) => [(place, .fn decl)]
  | .kind (.typeAlias decl) => [(.top, .ty decl.ty)]
  | .kind (.structDecl decl) | .kind (.overlayUnionDecl decl) => [(.top, .fields decl.fields)]
  | .kind (.enumDecl decl) => [(.top, .types decl.repr.toList), (.top, .enumCases decl.cases)]
  | .kind (.unionDecl decl) => [(.top, .unionCases decl.cases)]
  | .kind (.packedBitsDecl decl) => [(.top, .ty decl.repr), (.top, .fields decl.fields)]
  | .kind (.globalDecl decl) => [(.top, .types decl.ty.toList), (.top, .exprs decl.init.toList)]
  | .kind (.traitDecl decl) => [(.top, .traitMethods decl.methods)]
  | .kind (.implTrait decl) => [(.top, .implMethods decl.methods)]
  | .decls (decl :: decls) =>
    [(decl.kind.place, .attrs decl.attrs), (.top, .kind decl.kind), (place, .decls decls)]
  | _ => []

/-- Every site of a tree that stands at the place has the property. -/
inductive EverywhereAt (P : Site → Prop) : Place → Node → Prop
  | node {place node} (hsite : ∀ site ∈ siteOf place node, P site)
      (hparts : ∀ part ∈ partsOf place node, EverywhereAt P part.1 part.2) : EverywhereAt P place node

/-- Every site of the tree has the property. -/
def Everywhere (P : Site → Prop) (node : Node) : Prop := EverywhereAt P .top node

/-- The rules, where a site has the property. -/
def Rules.given (P : Site → Prop) (rules : Rules) : Rules where
  ident place id out := P (.ident place id) → rules.ident place id out
  member place base base' name out :=
    P (.member place base name) → rules.member place base base' name out
  call := rules.call
  typeName place id out := P (.typeName place id) → rules.typeName place id out
  generic := rules.generic
  asmOutput place name out := P (.asmOutput place name) → rules.asmOutput place name out

variable {rules : Rules} {P Q : Site → Prop} {place : Place} {node node' : Node}

namespace EverywhereAt

lemma at_site (h : EverywhereAt P place node) {site : Site} (hsite : siteOf place node = some site) :
    P site := by
  cases h with | node hsites _ => exact hsites site (Option.mem_def.mpr hsite)

lemma at_part (h : EverywhereAt P place node) {inner : Place} {part : Node}
    (hpart : (inner, part) ∈ partsOf place node) : EverywhereAt P inner part := by
  cases h with | node _ hparts => exact hparts (inner, part) hpart

/-- A weaker property holds everywhere as well. -/
lemma mono (h : EverywhereAt P place node) (hPQ : ∀ site, P site → Q site) :
    EverywhereAt Q place node := by
  induction h with
  | node hsite _ ih => exact .node (fun site hmem => hPQ site (hsite site hmem)) ih

end EverywhereAt

/-- What the rules ask of the sites holds at all of them. -/
theorem Rewrites.of_given (h : Rewrites (rules.given P) place node node')
    (hsites : EverywhereAt P place node) : Rewrites rules place node node' := by
  induction h with
  | ident hrule => exact .ident (hrule (hsites.at_site rfl))
  | member _ hrule ih =>
    exact .member (ih (hsites.at_part (.head _))) (hrule (hsites.at_site rfl))
  | typeName hrule => exact .typeName (hrule (hsites.at_site rfl))
  | call _ _ _ hrule ih ihTypes ihArgs =>
    exact .call (ih (hsites.at_part (.head _))) (ihTypes (hsites.at_part (.tail _ (.head _))))
      (ihArgs (hsites.at_part (.tail _ (.tail _ (.head _))))) hrule
  | generic _ hrule ih => exact .generic (ih (hsites.at_part (.head _))) hrule
  | outputsCons hrule _ _ ihTy ih =>
    exact .outputsCons (hrule (hsites.at_site rfl)) (ihTy (hsites.at_part (.head _)))
      (ih (hsites.at_part (.tail _ (.head _))))
  | _ =>
    -- the parts are rewritten in their order
    constructor <;> apply_assumption <;>
      first
      | exact hsites.at_part (.head _)
      | exact hsites.at_part (.tail _ (.head _))
      | exact hsites.at_part (.tail _ (.tail _ (.head _)))
      | exact hsites.at_part (.tail _ (.tail _ (.tail _ (.head _))))

end ModernC.Syntax
