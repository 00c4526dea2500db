import ModernC.Syntax.Walk

/-!
# Relations between walks

What holds of a walk, or between walks, at the places where they decide holds of all that they make
of a tree.  The induction over the tree is here once.
-/

namespace ModernC.Syntax

open ModernC.Framework ModernC.Framework.Logged

/-! ## Walks bind what they bound -/

section

variable {ω : Type}

lemma binds_walkStmt (walk : Walk ω) (place : Place) (stmt : Stmt) :
    (walkStmt walk place stmt).value.binds = stmt.binds := by
  cases stmt <;> rfl

lemma binds_walkPattern (walk : Walk ω) (place : Place) (pattern : Pattern) :
    (walkPattern walk place pattern).value.binds = pattern.binds := by
  cases pattern <;> rfl

lemma binds_walkPatterns (walk : Walk ω) (place : Place) (patterns : List Pattern) :
    (walkPatterns walk place patterns).value.flatMap Pattern.binds =
      patterns.flatMap Pattern.binds := by
  induction patterns with
  | nil => rfl
  | cons pattern patterns ih =>
    rw [walkPatterns, value_bind, value_bind, value_pure, List.flatMap_cons, List.flatMap_cons,
      binds_walkPattern, ih]

lemma paramNames_walkParams (walk : Walk ω) (place : Place) (params : List Param) :
    paramNames (walkParams walk place params).value = paramNames params := by
  rw [paramNames, paramNames]
  congr 1
  induction params generalizing place with
  | nil => rfl
  | cons param params ih =>
    rw [walkParams, value_bind, value_bind, value_pure, List.map_cons, List.map_cons, ih]

lemma walkExprs_eq_map (walk : Walk ω) (place : Place) (exprs : List Expr) :
    walkExprs walk place exprs = exprs.map (walkExpr walk place) := by
  induction exprs with
  | nil => rfl
  | cons expr exprs ih => rw [walkExprs, ih, List.map_cons]

lemma walkTypes_eq_map (walk : Walk ω) (place : Place) (tys : List TypeExpr) :
    walkTypes walk place tys = tys.map (walkType walk place) := by
  induction tys with
  | nil => rfl
  | cons ty tys ih => rw [walkTypes, ih, List.map_cons]

end

/-! ## Relations -/

/-- A relation between what a walk notes on a rewritten tree, what it notes on the tree itself, and
what two more walks make of the tree. -/
structure WalkRelation (ω₀ ω : Type) where
  rewriting : Walk Empty
  noting : Walk ω₀
  left : Walk ω
  right : Walk ω
  rel : ∀ {α : Type}, Logged ω₀ α → Logged ω₀ α → Logged ω α → Logged ω α → Prop

namespace WalkRelation

variable {ω₀ ω : Type}

/-- What the walks make of a node is related. -/
def At (R : WalkRelation ω₀ ω) {α : Type} (f : ∀ {ω : Type}, Walk ω → Place → α → Logged ω α)
    (place : Place) (node : α) : Prop :=
  R.rel (f R.noting place (f R.rewriting place node).value) (f R.noting place node)
    (f R.left place node) (f R.right place node)

/-- The relation goes along with the sequence of a walk and holds where the walks decide. -/
structure Lawful (R : WalkRelation ω₀ ω) : Prop where
  pure : ∀ {α : Type} (a b c : α), R.rel (pure a) (pure b) (pure c) (pure c)
  bind : ∀ {α β : Type} {x₁ x₂ : Logged ω₀ α} {x x' : Logged ω α} {f₁ f₂ : α → Logged ω₀ β}
    {f f' : α → Logged ω β}, R.rel x₁ x₂ x x' →
      R.rel (f₁ x₁.value) (f₂ x₂.value) (f x.value) (f' x.value) →
      R.rel (x₁ >>= f₁) (x₂ >>= f₂) (x >>= f) (x' >>= f')
  ident : ∀ place id, R.At walkExpr place (.ident id)
  member : ∀ place base name, R.At walkExpr place base → R.At walkExpr place (.member base name)
  call : ∀ place callee typeArgs args, R.At walkExpr place callee →
    (∀ ty ∈ typeArgs, R.At walkType place ty) → (∀ arg ∈ args, R.At walkExpr place arg) →
    R.At walkExpr place (.call callee typeArgs args)
  typeName : ∀ place id, R.At walkType place (.name id)
  generic : ∀ place base args, (∀ ty ∈ args, R.At walkType place ty) →
    R.At walkType place (.generic base args)
  asmOutput : ∀ place name, R.At (fun walk => walk.asmOutput) place name

namespace Lawful

variable {R : WalkRelation ω₀ ω} (h : R.Lawful)

include h

lemma allExprs {place : Place} {exprs : List Expr}
    (hexprs : ∀ expr ∈ exprs, R.At walkExpr place expr) :
    R.At (fun walk place exprs => all (walkExprs walk place exprs)) place exprs := by
  induction exprs with
  | nil => exact h.pure _ _ _
  | cons expr exprs ih =>
    obtain ⟨hexpr, hrest⟩ := List.forall_mem_cons.mp hexprs
    simp only [At, walkExprs, all, value_bind, value_pure]
    exact h.bind hexpr (h.bind (ih hrest) (h.pure _ _ _))

lemma allTypes {place : Place} {tys : List TypeExpr}
    (htys : ∀ ty ∈ tys, R.At walkType place ty) :
    R.At (fun walk place tys => all (walkTypes walk place tys)) place tys := by
  induction tys with
  | nil => exact h.pure _ _ _
  | cons ty tys ih =>
    obtain ⟨hty, hrest⟩ := List.forall_mem_cons.mp htys
    simp only [At, walkTypes, all, value_bind, value_pure]
    exact h.bind hty (h.bind (ih hrest) (h.pure _ _ _))

section

set_option linter.unusedSectionVars false

mutual

theorem atExpr : ∀ (place : Place) (expr : Expr), R.At walkExpr place expr
  | place, .ident id => by
    exact h.ident place id
  | _, .intLiteral _ | _, .floatLiteral _ | _, .stringLiteral _ | _, .charLiteral _
  | _, .boolLiteral _ | _, .nullLiteral | _, .uninitLiteral | _, .unreachableExpr
  | _, .voidLiteral | _, .enumLiteral _ => h.pure _ _ _
  | place, .arrayLiteral items => by
    simp only [At, walkExpr, value_bind, value_pure]
    exact h.bind (h.allExprs (atExprs place items)) (h.pure _ _ _)
  | place, .structLiteral fields => by
    simp only [At, walkExpr, value_bind, value_pure]
    exact h.bind (atFields place fields) (h.pure _ _ _)
  | place, .grouped inner | place, .moveExpr inner | place, .unary _ inner
  | place, .addressOf inner | place, .borrowExpr _ inner | place, .deref inner => by
    simp only [At, walkExpr, value_bind, value_pure]
    exact h.bind (atExpr place inner) (h.pure _ _ _)
  | place, .block body => by
    simp only [At, walkExpr, value_bind, value_pure]
    exact h.bind (atBlock place body) (h.pure _ _ _)
  | place, .binary _ left right | place, .index left right => by
    simp only [At, walkExpr, value_bind, value_pure]
    exact h.bind (atExpr place left) (h.bind (atExpr place right) (h.pure _ _ _))
  | place, .cast value ty => by
    simp only [At, walkExpr, value_bind, value_pure]
    exact h.bind (atExpr place value) (h.bind (atType place ty) (h.pure _ _ _))
  | place, .call callee typeArgs args => by
    exact h.call place callee typeArgs args (atExpr place callee) (atTypes place typeArgs)
      (atExprs place args)
  | place, .slice base start stop => by
    simp only [At, walkExpr, value_bind, value_pure]
    exact h.bind (atExpr place base)
      (h.bind (atExpr place start) (h.bind (atExpr place stop) (h.pure _ _ _)))
  | place, .member base name => by
    exact h.member place base name (atExpr place base)
  | place, .tryExpr operand mapped => by
    simp only [At, walkExpr, value_bind, value_pure]
    exact h.bind (atExpr place operand) (h.bind (atOptExpr place mapped) (h.pure _ _ _))

theorem atExprs : ∀ (place : Place) (exprs : List Expr), ∀ expr ∈ exprs, R.At walkExpr place expr
  | place, [] => by
    intro expr hexpr
    exact absurd hexpr List.not_mem_nil
  | place, expr :: exprs => by
    exact List.forall_mem_cons.mpr ⟨atExpr place expr, atExprs place exprs⟩

theorem atOptExpr : ∀ (place : Place) (expr : Option Expr), R.At walkOptExpr place expr
  | _, none => h.pure _ _ _
  | place, some expr => by
    simp only [At, walkOptExpr, value_bind, value_pure]
    exact h.bind (atExpr place expr) (h.pure _ _ _)

theorem atFields : ∀ (place : Place) (fields : List StructLiteralField),
    R.At walkFields place fields
  | _, [] => h.pure _ _ _
  | place, .mk _ value :: fields => by
    simp only [At, walkFields, value_bind, value_pure]
    exact h.bind (atExpr place value) (h.bind (atFields place fields) (h.pure _ _ _))

theorem atType : ∀ (place : Place) (ty : TypeExpr), R.At walkType place ty
  | place, .name id => by
    exact h.typeName place id
  | _, .enumLiteral _ | _, .dynTrait _ _ => h.pure _ _ _
  | place, .member child _ | place, .nullable child | place, .qualified _ child
  | place, .pointer _ child | place, .rawManyPointer _ child | place, .slice _ child => by
    simp only [At, walkType, value_bind, value_pure]
    exact h.bind (atType place child) (h.pure _ _ _)
  | place, .array len child => by
    simp only [At, walkType, value_bind, value_pure]
    exact h.bind (atExpr place len) (h.bind (atType place child) (h.pure _ _ _))
  | place, .generic base args => by
    exact h.generic place base args (atTypes place args)
  | place, .fnPointer params ret | place, .closureType params ret => by
    simp only [At, walkType, value_bind, value_pure]
    exact h.bind (h.allTypes (atTypes place params)) (h.bind (atType place ret) (h.pure _ _ _))

theorem atTypes : ∀ (place : Place) (tys : List TypeExpr), ∀ ty ∈ tys, R.At walkType place ty
  | place, [] => by
    intro ty hty
    exact absurd hty List.not_mem_nil
  | place, ty :: tys => by
    exact List.forall_mem_cons.mpr ⟨atType place ty, atTypes place tys⟩

theorem atOptType : ∀ (place : Place) (ty : Option TypeExpr), R.At walkOptType place ty
  | _, none => h.pure _ _ _
  | place, some ty => by
    simp only [At, walkOptType, value_bind, value_pure]
    exact h.bind (atType place ty) (h.pure _ _ _)

theorem atStmt : ∀ (place : Place) (stmt : Stmt), R.At walkStmt place stmt
  | place, .letDecl _ ty init | place, .varDecl _ ty init => by
    simp only [At, walkStmt, value_bind, value_pure]
    exact h.bind (atOptType place ty) (h.bind (atOptExpr place init) (h.pure _ _ _))
  | place, .loop _ _ _ iterable body => by
    simp only [At, walkStmt, value_bind, value_pure]
    exact h.bind (atOptExpr place iterable) (h.bind (atBlock _ body) (h.pure _ _ _))
  | place, .ifLet pattern value thenBlock elseBlock => by
    simp only [At, walkStmt, binds_walkPattern, value_bind, value_pure]
    exact h.bind (atPattern place pattern) (h.bind (atExpr place value)
      (h.bind (atBlock _ thenBlock) (h.bind (atOptBlock place elseBlock) (h.pure _ _ _))))
  | place, .switch subject arms => by
    simp only [At, walkStmt, value_bind, value_pure]
    exact h.bind (atArms place arms) (h.bind (atExpr place subject) (h.pure _ _ _))
  | place, .unsafeBlock body | place, .comptimeBlock body | place, .block body => by
    simp only [At, walkStmt, value_bind, value_pure]
    exact h.bind (atBlock place body) (h.pure _ _ _)
  | place, .contractBlock attr body => by
    simp only [At, walkStmt, value_bind, value_pure]
    exact h.bind (atAttr place attr) (h.bind (atBlock place body) (h.pure _ _ _))
  | place, .asmStmt _ _ _ _ outputs inputs => by
    simp only [At, walkStmt, value_bind, value_pure]
    exact h.bind (atOutputs place outputs) (h.bind (atInputs place inputs) (h.pure _ _ _))
  | place, .ret value => by
    simp only [At, walkStmt, value_bind, value_pure]
    exact h.bind (atOptExpr place value) (h.pure _ _ _)
  | _, .break _ | _, .continue _ => h.pure _ _ _
  | place, .defer expr | place, .assert expr | place, .expr expr => by
    simp only [At, walkStmt, value_bind, value_pure]
    exact h.bind (atExpr place expr) (h.pure _ _ _)
  | place, .assignment target value => by
    simp only [At, walkStmt, value_bind, value_pure]
    exact h.bind (atExpr place target) (h.bind (atExpr place value) (h.pure _ _ _))

theorem atBlock : ∀ (place : Place) (body : List Stmt), R.At walkBlock place body
  | _, [] => h.pure _ _ _
  | place, stmt :: stmts => by
    simp only [At, walkBlock, binds_walkStmt, value_bind, value_pure]
    exact h.bind (atStmt place stmt) (h.bind (atBlock _ stmts) (h.pure _ _ _))

theorem atOptBlock : ∀ (place : Place) (body : Option (List Stmt)), R.At walkOptBlock place body
  | _, none => h.pure _ _ _
  | place, some body => by
    simp only [At, walkOptBlock, value_bind, value_pure]
    exact h.bind (atBlock place body) (h.pure _ _ _)

theorem atPattern : ∀ (place : Place) (pattern : Pattern), R.At walkPattern place pattern
  | _, .wildcard | _, .bind _ | _, .tag _ | _, .tagBind _ _ => h.pure _ _ _
  | place, .literal expr => by
    simp only [At, walkPattern, value_bind, value_pure]
    exact h.bind (atExpr _ expr) (h.pure _ _ _)

theorem atPatterns : ∀ (place : Place) (patterns : List Pattern),
    R.At walkPatterns place patterns
  | _, [] => h.pure _ _ _
  | place, pattern :: patterns => by
    simp only [At, walkPatterns, value_bind, value_pure]
    exact h.bind (atPattern place pattern) (h.bind (atPatterns place patterns) (h.pure _ _ _))

theorem atArms : ∀ (place : Place) (arms : List SwitchArm), R.At walkArms place arms
  | _, [] => h.pure _ _ _
  | place, .block patterns body _ :: arms => by
    simp only [At, walkArms, binds_walkPatterns, value_bind, value_pure]
    exact h.bind (atPatterns place patterns)
      (h.bind (atBlock _ body) (h.bind (atArms place arms) (h.pure _ _ _)))
  | place, .expr patterns body _ :: arms => by
    simp only [At, walkArms, binds_walkPatterns, value_bind, value_pure]
    exact h.bind (atPatterns place patterns)
      (h.bind (atExpr _ body) (h.bind (atArms place arms) (h.pure _ _ _)))

theorem atOutputs : ∀ (place : Place) (outputs : List AsmOutput), R.At walkOutputs place outputs
  | _, [] => h.pure _ _ _
  | place, .mk _ name ty :: outputs => by
    simp only [At, walkOutputs, value_bind, value_pure]
    exact h.bind (h.asmOutput _ name)
      (h.bind (atType _ ty) (h.bind (atOutputs place outputs) (h.pure _ _ _)))

theorem atInputs : ∀ (place : Place) (inputs : List AsmInput), R.At walkInputs place inputs
  | _, [] => h.pure _ _ _
  | place, .mk _ value ty :: inputs => by
    simp only [At, walkInputs, value_bind, value_pure]
    exact h.bind (atExpr _ value)
      (h.bind (atType _ ty) (h.bind (atInputs place inputs) (h.pure _ _ _)))

theorem atAttr : ∀ (place : Place) (attr : Attr), R.At walkAttr place attr
  | place, .unsafeContract _ args => by
    simp only [At, walkAttr, value_bind, value_pure]
    exact h.bind (h.allExprs (atExprs _ args)) (h.pure _ _ _)
  | _, .plain _ => h.pure _ _ _

end

end

/-! ## Declarations -/

lemma atParams (place : Place) (params : List Param) : R.At walkParams place params := by
  induction params generalizing place with
  | nil => exact h.pure _ _ _
  | cons param params ih =>
    simp only [At, walkParams, value_bind, value_pure]
    exact h.bind (h.atType place param.ty) (h.bind (ih _) (h.pure _ _ _))

lemma atAttrs (place : Place) (attrs : List Attr) : R.At walkAttrs place attrs := by
  induction attrs with
  | nil => exact h.pure _ _ _
  | cons attr attrs ih =>
    simp only [At, walkAttrs, value_bind, value_pure]
    exact h.bind (h.atAttr place attr) (h.bind ih (h.pure _ _ _))

lemma atFnSignature (place : Place) (decl : FnDecl) :
    R.At (fun walk _ => walkFnSignature walk) place decl := by
  simp only [At, walkFnSignature, value_bind, value_pure, paramNames_walkParams]
  exact h.bind (h.atParams _ decl.params) (h.bind (h.atOptType _ decl.returnType) (h.pure _ _ _))

lemma atFn (place : Place) (decl : FnDecl) : R.At (fun walk _ => walkFn walk) place decl := by
  have hsignature := h.atFnSignature place decl
  simp only [At, walkFn, walkFnSignature, value_bind, value_pure, paramNames_walkParams]
    at hsignature ⊢
  exact h.bind hsignature (h.bind (h.atOptBlock _ decl.body) (h.pure _ _ _))

lemma atFieldTypes (place : Place) (fields : List Field) :
    R.At (fun walk _ => walkFieldTypes walk) place fields := by
  induction fields with
  | nil => exact h.pure _ _ _
  | cons field fields ih =>
    simp only [At, walkFieldTypes, value_bind, value_pure]
    exact h.bind (h.atType _ field.ty) (h.bind ih (h.pure _ _ _))

lemma atStruct (place : Place) (decl : StructDecl) :
    R.At (fun walk _ => walkStruct walk) place decl := by
  simp only [At, walkStruct, value_bind, value_pure]
  exact h.bind (h.atFieldTypes place decl.fields) (h.pure _ _ _)

lemma atUnionCases (place : Place) (cases : List UnionCase) :
    R.At (fun walk _ => walkUnionCases walk) place cases := by
  induction cases with
  | nil => exact h.pure _ _ _
  | cons case cases ih =>
    simp only [At, walkUnionCases, value_bind, value_pure]
    exact h.bind (h.atOptType _ case.ty) (h.bind ih (h.pure _ _ _))

lemma atUnion (place : Place) (decl : UnionDecl) :
    R.At (fun walk _ => walkUnion walk) place decl := by
  simp only [At, walkUnion, value_bind, value_pure]
  exact h.bind (h.atUnionCases place decl.cases) (h.pure _ _ _)

lemma atEnumCases (place : Place) (cases : List EnumCase) :
    R.At (fun walk _ => walkEnumCases walk) place cases := by
  induction cases with
  | nil => exact h.pure _ _ _
  | cons case cases ih =>
    simp only [At, walkEnumCases, value_bind, value_pure]
    exact h.bind (h.atOptExpr _ case.value) (h.bind ih (h.pure _ _ _))

lemma atTraitMethods (place : Place) (methods : List TraitMethodSig) :
    R.At (fun walk _ => walkTraitMethods walk) place methods := by
  induction methods with
  | nil => exact h.pure _ _ _
  | cons method methods ih =>
    simp only [At, walkTraitMethods, value_bind, value_pure, paramNames_walkParams]
    exact h.bind (h.atParams _ method.params) (h.bind (h.atOptType _ method.returnType)
      (h.bind (h.atAttrs _ method.attrs) (h.bind ih (h.pure _ _ _))))

lemma atImplMethods (place : Place) (methods : List ImplTraitMethod) :
    R.At (fun walk _ => walkImplMethods walk) place methods := by
  induction methods with
  | nil => exact h.pure _ _ _
  | cons method methods ih =>
    simp only [At, walkImplMethods, value_bind, value_pure, paramNames_walkParams]
    exact h.bind (h.atAttrs _ method.attrs) (h.bind (h.atParams _ method.params)
      (h.bind (h.atOptType _ method.returnType) (h.bind ih (h.pure _ _ _))))

/-- **The relation holds of declarations.** -/
lemma atDecl (place : Place) (decl : Decl) : R.At (fun walk _ => walkDecl walk) place decl := by
  obtain ⟨fileId, attrs, kind, isPub⟩ := decl
  cases kind
  all_goals simp only [At, walkDecl, value_bind, value_pure]
  case fnDecl node | externFn node =>
    have hfn := h.atFn place node
    have hnames : paramNames (walkFn R.rewriting node).value.params = paramNames node.params := by
      simp only [walkFn, walkFnSignature, value_bind, value_pure, paramNames_walkParams]
    simp only [hnames]
    exact h.bind (h.atAttrs _ attrs) (h.bind hfn (h.pure _ _ _))
  case typeAlias node =>
    exact h.bind (h.atAttrs _ attrs) (h.bind (h.atType _ node.ty) (h.pure _ _ _))
  case structDecl node =>
    exact h.bind (h.atAttrs _ attrs) (h.bind (h.atStruct place node) (h.pure _ _ _))
  case enumDecl node =>
    exact h.bind (h.atEnumCases place node.cases)
      (h.bind (h.atAttrs _ attrs) (h.bind (h.atOptType _ node.repr) (h.pure _ _ _)))
  case unionDecl node =>
    exact h.bind (h.atAttrs _ attrs) (h.bind (h.atUnion place node) (h.pure _ _ _))
  case packedBitsDecl node =>
    exact h.bind (h.atAttrs _ attrs)
      (h.bind (h.atType _ node.repr) (h.bind (h.atFieldTypes place node.fields) (h.pure _ _ _)))
  case overlayUnionDecl node =>
    exact h.bind (h.atAttrs _ attrs) (h.bind (h.atFieldTypes place node.fields) (h.pure _ _ _))
  case opaqueDecl name =>
    exact h.bind (h.atAttrs _ attrs) (h.pure _ _ _)
  case globalDecl node =>
    exact h.bind (h.atOptType _ node.ty)
      (h.bind (h.atOptExpr _ node.init) (h.bind (h.atAttrs _ attrs) (h.pure _ _ _)))
  case traitDecl node =>
    exact h.bind (h.atAttrs _ attrs) (h.bind (h.atTraitMethods place node.methods) (h.pure _ _ _))
  case implTrait node =>
    exact h.bind (h.atAttrs _ attrs) (h.bind (h.atImplMethods place node.methods) (h.pure _ _ _))

end Lawful

end WalkRelation

end ModernC.Syntax
