import ModernC.Specialize.Transform

/-!
# Types that depend on a parameter

A type in a function depends on a comptime parameter if the name of the parameter occurs in it,
however deep.  The parts of a function are followed from the function down to the name; on the way
the region tells whether a type has been entered, and whether this was in the length of an array.
The main result is `typeGenericParams_exact_iff`.
-/

namespace ModernC.Specialize

open ModernC.Syntax

/-! ## Parts and regions -/

inductive Part where
  | expr (expr : Expr)
  | ty (ty : TypeExpr)
  | stmt (stmt : Stmt)

def patternParts : Pattern → List Part
  | .literal expr => [.expr expr]
  | .wildcard | .bind _ | .tag _ | .tagBind _ _ => []

def armParts : SwitchArm → List Part
  | .block patterns body _ => patterns.flatMap patternParts ++ body.map .stmt
  | .expr patterns body _ => patterns.flatMap patternParts ++ [.expr body]

def attrParts : Attr → List Part
  | .unsafeContract _ args => args.map .expr
  | .plain _ => []

/-- An output is written to a local, so its name is none of a parameter. -/
def outputPart : AsmOutput → Part
  | .mk _ _ ty => .ty ty

def inputParts : AsmInput → List Part
  | .mk _ value ty => [.ty ty, .expr value]

def fieldPart : StructLiteralField → Part
  | .mk _ value => .expr value

def exprParts : Expr → List Part
  | .arrayLiteral items => items.map .expr
  | .structLiteral fields => fields.map fieldPart
  | .grouped inner | .moveExpr inner | .addressOf inner | .deref inner => [.expr inner]
  | .block body => body.map .stmt
  | .unary _ expr => [.expr expr]
  | .binary _ left right => [.expr left, .expr right]
  | .cast value ty => [.expr value, .ty ty]
  | .borrowExpr _ value => [.expr value]
  | .call callee typeArgs args => .expr callee :: (typeArgs.map .ty ++ args.map .expr)
  | .index base index => [.expr base, .expr index]
  | .slice base start stop => [.expr base, .expr start, .expr stop]
  | .member base _ => [.expr base]
  | .tryExpr operand mapped => .expr operand :: mapped.toList.map .expr
  | .ident _ | .intLiteral _ | .floatLiteral _ | .stringLiteral _ | .charLiteral _
  | .boolLiteral _ | .nullLiteral | .uninitLiteral | .unreachableExpr | .voidLiteral
  | .enumLiteral _ => []

/-- The only expression that is a part of a type is the length of an array. -/
def typeParts : TypeExpr → List Part
  | .array len child => [.expr len, .ty child]
  | .member base _ => [.ty base]
  | .nullable child | .qualified _ child | .pointer _ child | .rawManyPointer _ child
  | .slice _ child => [.ty child]
  | .generic _ args => args.map .ty
  | .fnPointer params ret | .closureType params ret => params.map .ty ++ [.ty ret]
  | .name _ | .enumLiteral _ | .dynTrait _ _ => []

def stmtParts : Stmt → List Part
  | .letDecl _ ty init | .varDecl _ ty init => ty.toList.map .ty ++ init.toList.map .expr
  | .loop _ _ _ iterable body => iterable.toList.map .expr ++ body.map .stmt
  | .ifLet pattern value thenBlock elseBlock =>
    patternParts pattern ++ .expr value :: (thenBlock.map .stmt ++ (elseBlock.getD []).map .stmt)
  | .switch subject arms => .expr subject :: arms.flatMap armParts
  | .block body | .unsafeBlock body | .comptimeBlock body => body.map .stmt
  | .contractBlock attr body => attrParts attr ++ body.map .stmt
  | .asmStmt _ _ _ _ outputs inputs =>
    outputs.map outputPart ++ inputs.flatMap inputParts
  | .ret value => value.toList.map .expr
  | .defer expr | .assert expr | .expr expr => [.expr expr]
  | .assignment target value => [.expr target, .expr value]
  | .break _ | .continue _ => []

def Part.parts : Part → List Part
  | .expr e => exprParts e
  | .ty t => typeParts t
  | .stmt s => stmtParts s

def fnParts (decl : FnDecl) : List Part :=
  decl.params.map (fun param => .ty param.ty) ++
    (decl.returnType.toList.map .ty ++ (decl.body.getD []).map .stmt)

/-- The name that a part is.  The head of a generic type names a declaration, and a trait is not a
type; neither can be a parameter. -/
def Part.name : Part → Option String
  | .expr (.ident id) => some id.text
  | .ty (.name id) => some id.text
  | _ => none

/-- Where a part of a function is. -/
inductive Region where
  | code
  /-- In a type, but in no length. -/
  | type
  /-- In the length of an array, but in no type there. -/
  | length
  /-- In a type that is in the length of an array. -/
  | innerType
deriving DecidableEq

def Region.enter : Region → Part → Region
  | .code, .ty _ | .type, .ty _ => .type
  | .type, _ => .length
  | .length, .ty _ => .innerType
  | region, _ => region

/-- The name occurs in a part that is in a region, and it does so in a wanted region. -/
inductive Occurs (name : String) (wanted : Region → Prop) : Region → Part → Prop
  | here {region : Region} {part : Part} : wanted region → part.name = some name →
      Occurs name wanted region part
  | inside {region : Region} {part child : Part} : child ∈ part.parts →
      Occurs name wanted (region.enter child) child → Occurs name wanted region part

/-- The name occurs in one of the parts of what is in the region. -/
def OccursIn (name : String) (wanted : Region → Prop) (region : Region) (parts : List Part) :
    Prop :=
  ∃ child ∈ parts, Occurs name wanted (region.enter child) child

/-- A type of the function depends on the name. -/
def TypeDepends (decl : FnDecl) (name : String) : Prop :=
  OccursIn name (fun region => region ≠ .code) .code (fnParts decl)

/-- The regions in types, but for the types in lengths. -/
def Region.Outer (region : Region) : Prop := region = .type ∨ region = .length

/-- The name occurs in a type, or in the length of an array without being in a type there. -/
def OuterDepends (decl : FnDecl) (name : String) : Prop :=
  OccursIn name Region.Outer .code (fnParts decl)

/-- The name occurs in a type that is in the length of an array. -/
def InnerDepends (decl : FnDecl) (name : String) : Prop :=
  OccursIn name (fun region => region = .innerType) .code (fnParts decl)

/-! ## Occurrences -/

variable {name : String} {wanted wanted' : Region → Prop} {region : Region} {part : Part}

lemma occurs_iff : Occurs name wanted region part ↔
    wanted region ∧ part.name = some name ∨ OccursIn name wanted region part.parts := by
  constructor
  · rintro (⟨hwanted, hname⟩ | ⟨hchild, hoccurs⟩)
    · exact .inl ⟨hwanted, hname⟩
    · exact .inr ⟨_, hchild, hoccurs⟩
  · rintro (⟨hwanted, hname⟩ | ⟨child, hchild, hoccurs⟩)
    · exact .here hwanted hname
    · exact .inside hchild hoccurs

lemma Occurs.mono (hwanted : ∀ region, wanted region → wanted' region)
    (h : Occurs name wanted region part) : Occurs name wanted' region part := by
  induction h with
  | here hregion hname => exact .here (hwanted _ hregion) hname
  | inside hchild _ ih => exact .inside hchild ih

lemma Occurs.or (h : Occurs name (fun region => wanted region ∨ wanted' region) region part) :
    Occurs name wanted region part ∨ Occurs name wanted' region part := by
  induction h with
  | here hwanted hname => exact hwanted.imp (.here · hname) (.here · hname)
  | inside hchild _ ih => exact ih.imp (.inside hchild) (.inside hchild)

variable {decl : FnDecl} {parts : List Part}

lemma typeDepends_iff :
    TypeDepends decl name ↔ OuterDepends decl name ∨ InnerDepends decl name := by
  have hcases : ∀ region : Region, region ≠ .code → region.Outer ∨ region = .innerType := by
    intro region hne
    rw [Region.Outer]
    cases region <;> simp_all
  constructor
  · rintro ⟨part, hpart, hoccurs⟩
    exact (hoccurs.mono hcases).or.imp (⟨part, hpart, ·⟩) (⟨part, hpart, ·⟩)
  · rintro (⟨part, hpart, hoccurs⟩ | ⟨part, hpart, hoccurs⟩)
    · exact ⟨part, hpart, hoccurs.mono fun region h => by rcases h with rfl | rfl <;> decide⟩
    · exact ⟨part, hpart, hoccurs.mono fun region h => by rw [h]; decide⟩

/-! ## The walks -/

/-- What the walk for a region finds in a part. -/
def mentions (name : String) : Region → Part → Bool
  | .code, .expr e => exprTypeMentions name e
  | .code, .stmt s => stmtTypeMentions name s
  | .type, .ty t => typeMentionsIdent name t
  | .length, .expr e => exprMentionsIdent name e
  | .length, .stmt s => stmtExprMentionsIdent name s
  | _, _ => false

def mentionsIn (name : String) (region : Region) (parts : List Part) : Bool :=
  parts.any fun child => mentions name (region.enter child) child

@[simp] lemma mentionsIn_nil : mentionsIn name region [] = false := rfl

@[simp] lemma mentionsIn_cons : mentionsIn name region (part :: parts) =
    (mentions name (region.enter part) part || mentionsIn name region parts) := List.any_cons

@[simp] lemma mentionsIn_append {parts' : List Part} :
    mentionsIn name region (parts ++ parts') =
      (mentionsIn name region parts || mentionsIn name region parts') := List.any_append

@[simp] lemma mentionsIn_types (tys : List TypeExpr) :
    mentionsIn name .length (tys.map .ty) = false := by
  induction tys with
  | nil => rfl
  | cons ty tys ih => rw [List.map_cons, mentionsIn_cons, ih]; rfl

@[simp] lemma exprsMentionIdent_eq (exprs : List Expr) :
    exprsMentionIdent name exprs = mentionsIn name .length (exprs.map .expr) := by
  induction exprs with
  | nil => rfl
  | cons expr exprs ih => rw [exprsMentionIdent, ih]; rfl

@[simp] lemma optExprMentionsIdent_eq (expr : Option Expr) :
    optExprMentionsIdent name expr = mentionsIn name .length (expr.toList.map .expr) := by
  cases expr with
  | none => rfl
  | some expr => exact (Bool.or_false _).symm

@[simp] lemma fieldsMentionIdent_eq (fields : List StructLiteralField) :
    fieldsMentionIdent name fields = mentionsIn name .length (fields.map fieldPart) := by
  induction fields with
  | nil => rfl
  | cons field fields ih => cases field; rw [fieldsMentionIdent, ih]; rfl

@[simp] lemma blockExprMentionsIdent_eq (body : List Stmt) :
    blockExprMentionsIdent name body = mentionsIn name .length (body.map .stmt) := by
  induction body with
  | nil => rfl
  | cons stmt body ih => rw [blockExprMentionsIdent, ih]; rfl

@[simp] lemma optBlockExprMentionsIdent_eq (body : Option (List Stmt)) :
    optBlockExprMentionsIdent name body = mentionsIn name .length ((body.getD []).map .stmt) := by
  cases body with
  | none => rfl
  | some body => exact blockExprMentionsIdent_eq body

@[simp] lemma patternExprMentionsIdent_eq (pattern : Pattern) :
    patternExprMentionsIdent name pattern = mentionsIn name .length (patternParts pattern) := by
  cases pattern with
  | literal expr => exact (Bool.or_false _).symm
  | _ => rfl

@[simp] lemma patternsExprMentionIdent_eq (patterns : List Pattern) :
    patternsExprMentionIdent name patterns =
      mentionsIn name .length (patterns.flatMap patternParts) := by
  induction patterns with
  | nil => rfl
  | cons pattern patterns ih => simp [patternsExprMentionIdent, ih]

@[simp] lemma armsExprMentionIdent_eq (arms : List SwitchArm) :
    armsExprMentionIdent name arms = mentionsIn name .length (arms.flatMap armParts) := by
  induction arms with
  | nil => rfl
  | cons arm arms ih =>
    cases arm <;>
      simp [armsExprMentionIdent, armParts, ih, mentions, Region.enter, Bool.or_assoc]

@[simp] lemma inputsExprMentionIdent_eq (inputs : List AsmInput) :
    inputsExprMentionIdent name inputs = mentionsIn name .length (inputs.flatMap inputParts) := by
  induction inputs with
  | nil => rfl
  | cons input inputs ih =>
    cases input
    simp [inputsExprMentionIdent, inputParts, ih, mentions, Region.enter]

@[simp] lemma mentionsIn_outputs (outputs : List AsmOutput) :
    mentionsIn name .length (outputs.map outputPart) = false := by
  induction outputs with
  | nil => rfl
  | cons output outputs ih => cases output; rw [List.map_cons, mentionsIn_cons, ih]; rfl

@[simp] lemma attrExprMentionsIdent_eq (attr : Attr) :
    attrExprMentionsIdent name attr = mentionsIn name .length (attrParts attr) := by
  cases attr with
  | unsafeContract _ args => exact exprsMentionIdent_eq args
  | plain _ => rfl

/-! ### Types in code -/

@[simp] lemma typesMentionIdent_type (tys : List TypeExpr) :
    typesMentionIdent name tys = mentionsIn name .type (tys.map .ty) := by
  induction tys with
  | nil => rfl
  | cons ty tys ih => rw [typesMentionIdent, ih]; rfl

lemma mentionsIn_code_types (tys : List TypeExpr) :
    mentionsIn name .code (tys.map .ty) = mentionsIn name .type (tys.map .ty) := by
  induction tys with
  | nil => rfl
  | cons ty tys ih => rw [List.map_cons, mentionsIn_cons, mentionsIn_cons, ih]; rfl

@[simp] lemma any_typeMentionsIdent (ty : Option TypeExpr) :
    ty.any (typeMentionsIdent name) = mentionsIn name .code (ty.toList.map .ty) := by
  cases ty with
  | none => rfl
  | some ty => exact (Bool.or_false _).symm

@[simp] lemma exprsTypeMention_eq (exprs : List Expr) :
    exprsTypeMention name exprs = mentionsIn name .code (exprs.map .expr) := by
  induction exprs with
  | nil => rfl
  | cons expr exprs ih => rw [exprsTypeMention, ih]; rfl

@[simp] lemma optExprTypeMentions_eq (expr : Option Expr) :
    optExprTypeMentions name expr = mentionsIn name .code (expr.toList.map .expr) := by
  cases expr with
  | none => rfl
  | some expr => exact (Bool.or_false _).symm

@[simp] lemma fieldsTypeMention_eq (fields : List StructLiteralField) :
    fieldsTypeMention name fields = mentionsIn name .code (fields.map fieldPart) := by
  induction fields with
  | nil => rfl
  | cons field fields ih => cases field; rw [fieldsTypeMention, ih]; rfl

@[simp] lemma blockTypeMentions_eq (body : List Stmt) :
    blockTypeMentions name body = mentionsIn name .code (body.map .stmt) := by
  induction body with
  | nil => rfl
  | cons stmt body ih => rw [blockTypeMentions, ih]; rfl

@[simp] lemma optBlockTypeMentions_eq (body : Option (List Stmt)) :
    optBlockTypeMentions name body = mentionsIn name .code ((body.getD []).map .stmt) := by
  cases body with
  | none => rfl
  | some body => exact blockTypeMentions_eq body

@[simp] lemma patternTypeMentions_eq (pattern : Pattern) :
    patternTypeMentions name pattern = mentionsIn name .code (patternParts pattern) := by
  cases pattern with
  | literal expr => exact (Bool.or_false _).symm
  | _ => rfl

@[simp] lemma patternsTypeMention_eq (patterns : List Pattern) :
    patternsTypeMention name patterns = mentionsIn name .code (patterns.flatMap patternParts) := by
  induction patterns with
  | nil => rfl
  | cons pattern patterns ih => simp [patternsTypeMention, ih]

@[simp] lemma armsTypeMention_eq (arms : List SwitchArm) :
    armsTypeMention name arms = mentionsIn name .code (arms.flatMap armParts) := by
  induction arms with
  | nil => rfl
  | cons arm arms ih =>
    cases arm <;> simp [armsTypeMention, armParts, ih, mentions, Region.enter, Bool.or_assoc]

@[simp] lemma outputsTypeMention_eq (outputs : List AsmOutput) :
    outputsTypeMention name outputs = mentionsIn name .code (outputs.map outputPart) := by
  induction outputs with
  | nil => rfl
  | cons output outputs ih => cases output; rw [outputsTypeMention, ih]; rfl

@[simp] lemma inputsTypeMention_eq (inputs : List AsmInput) :
    inputsTypeMention name inputs = mentionsIn name .code (inputs.flatMap inputParts) := by
  induction inputs with
  | nil => rfl
  | cons input inputs ih =>
    cases input
    simp [inputsTypeMention, inputParts, ih, mentions, Region.enter, Bool.or_assoc]

@[simp] lemma attrTypeMentions_eq (attr : Attr) :
    attrTypeMentions name attr = mentionsIn name .code (attrParts attr) := by
  cases attr with
  | unsafeContract _ args => exact exprsTypeMention_eq args
  | plain _ => rfl

/-! ### One step of the walks -/

/-- A part that can be in the region. -/
def Fits : Region → Part → Prop
  | .code, .ty _ | .length, .ty _ => False
  | .type, .ty _ | .code, _ | .length, _ | .innerType, _ => True
  | .type, _ => False

lemma fits_enter (region : Region) (child : Part) : Fits (region.enter child) child := by
  cases region <;> cases child <;> trivial

/-- **The walks cover the syntax**: at each part they look at its name, where this is in a type,
and at all its parts. -/
lemma mentions_step (hfits : Fits region part) : mentions name region part = true ↔
    Region.Outer region ∧ part.name = some name ∨ mentionsIn name region part.parts = true := by
  cases region with
  | code =>
    cases part with
    | expr e =>
      cases e <;> simp [mentions, exprTypeMentions, Part.parts, exprParts, Region.Outer,
        Region.enter, mentionsIn_code_types, Bool.or_assoc, or_comm]
    | ty t => exact absurd hfits id
    | stmt s =>
      cases s <;> simp [mentions, stmtTypeMentions, Part.parts, stmtParts, Part.name,
        Region.enter, or_assoc]
  | type =>
    cases part with
    | ty t =>
      cases t <;> simp [mentions, typeMentionsIdent, Part.parts, typeParts, Part.name,
        Region.Outer, Region.enter]
    | expr e => exact absurd hfits id
    | stmt s => exact absurd hfits id
  | length =>
    cases part with
    | expr e =>
      cases e <;> simp [mentions, exprMentionsIdent, Part.parts, exprParts, Part.name,
        Region.Outer, Region.enter, or_assoc]
    | ty t => exact absurd hfits id
    | stmt s =>
      cases s <;> simp [mentions, stmtExprMentionsIdent, Part.parts, stmtParts, Part.name,
        Region.enter, or_assoc]
  | innerType => simp [mentions, mentionsIn, Region.Outer, Region.enter]

/-! ### The size of the parts -/

/-- All parts are smaller than a number. -/
def Below (n : ℕ) (parts : List Part) : Prop := ∀ child ∈ parts, sizeOf child < n

variable {n : ℕ}

@[simp] lemma below_nil : Below n [] := fun _ h => absurd h List.not_mem_nil

@[simp] lemma below_cons :
    Below n (part :: parts) ↔ sizeOf part < n ∧ Below n parts := List.forall_mem_cons

@[simp] lemma below_append {parts' : List Part} :
    Below n (parts ++ parts') ↔ Below n parts ∧ Below n parts' := List.forall_mem_append

lemma below_flatMap {α : Type} [SizeOf α] {items : List α} {parts : α → List Part}
    (hparts : ∀ item, Below (2 + sizeOf item) (parts item)) (h : 1 + sizeOf items ≤ n) :
    Below n (items.flatMap parts) := by
  intro child hchild
  obtain ⟨item, hitem, hmem⟩ := List.mem_flatMap.mp hchild
  have hlt := List.sizeOf_lt_of_mem hitem
  have hsize := hparts item child hmem
  omega

lemma below_map {α : Type} [SizeOf α] {items : List α} {make : α → Part}
    (hmake : ∀ item, sizeOf (make item) < 2 + sizeOf item) (h : 1 + sizeOf items ≤ n) :
    Below n (items.map make) := by
  rw [List.map_eq_flatMap]
  exact below_flatMap (fun item => below_cons.mpr ⟨hmake item, below_nil⟩) h

lemma below_toList {α : Type} [SizeOf α] {item : Option α} {make : α → Part}
    (hmake : ∀ item, sizeOf (make item) < 2 + sizeOf item) (h : 1 + sizeOf item ≤ n) :
    Below n (item.toList.map make) := by
  cases item with
  | none => exact below_nil
  | some item =>
    have hlt := hmake item
    rw [Option.some.sizeOf_spec] at h
    exact below_cons.mpr ⟨by omega, below_nil⟩

lemma sizeOf_expr (e : Expr) : sizeOf (Part.expr e) < 2 + sizeOf e := by
  rw [Part.expr.sizeOf_spec]
  omega

lemma sizeOf_ty (t : TypeExpr) : sizeOf (Part.ty t) < 2 + sizeOf t := by
  rw [Part.ty.sizeOf_spec]
  omega

lemma sizeOf_stmt (s : Stmt) : sizeOf (Part.stmt s) < 2 + sizeOf s := by
  rw [Part.stmt.sizeOf_spec]
  omega

lemma sizeOf_fieldPart (field : StructLiteralField) :
    sizeOf (fieldPart field) < 2 + sizeOf field := by
  cases field
  simp [fieldPart]
  omega

lemma below_exprParts (expr : Expr) : Below (1 + sizeOf expr) (exprParts expr) := by
  cases expr <;>
    simp (disch := omega) [exprParts, below_map sizeOf_expr, below_map sizeOf_ty,
      below_map sizeOf_stmt, below_map sizeOf_fieldPart, below_toList sizeOf_expr]
  all_goals omega

lemma below_typeParts (ty : TypeExpr) : Below (1 + sizeOf ty) (typeParts ty) := by
  cases ty <;> simp (disch := omega) [typeParts, below_map sizeOf_ty]
  all_goals omega

lemma below_patternParts (pattern : Pattern) (h : 2 + sizeOf pattern ≤ n) :
    Below n (patternParts pattern) := by
  cases pattern <;> simp [patternParts] at h ⊢
  omega

lemma below_armParts (arm : SwitchArm) : Below (2 + sizeOf arm) (armParts arm) := by
  have hpatterns : ∀ pattern, Below (2 + sizeOf pattern) (patternParts pattern) := fun pattern =>
    below_patternParts pattern (le_refl _)
  cases arm <;>
    simp (disch := omega) [armParts, below_flatMap hpatterns, below_map sizeOf_stmt]
  omega

lemma below_attrParts (attr : Attr) (h : 2 + sizeOf attr ≤ n) : Below n (attrParts attr) := by
  cases attr with
  | unsafeContract _ args =>
    rw [Attr.unsafeContract.sizeOf_spec] at h
    exact below_map sizeOf_expr (by omega)
  | plain _ => exact below_nil

lemma sizeOf_outputPart (output : AsmOutput) : sizeOf (outputPart output) < 2 + sizeOf output := by
  cases output
  simp [outputPart]
  omega

lemma below_inputParts (input : AsmInput) : Below (2 + sizeOf input) (inputParts input) := by
  cases input
  simp [inputParts]
  omega

lemma below_getD (body : Option (List Stmt)) (h : 1 + sizeOf body ≤ n) :
    Below n ((body.getD []).map .stmt) := by
  cases body with
  | none => exact below_nil
  | some body =>
    rw [Option.some.sizeOf_spec] at h
    change Below n (body.map .stmt)
    exact below_map sizeOf_stmt (by omega)

lemma below_stmtParts (stmt : Stmt) : Below (1 + sizeOf stmt) (stmtParts stmt) := by
  cases stmt <;>
    simp (disch := omega) [stmtParts, below_map sizeOf_stmt, below_map sizeOf_outputPart,
      below_toList sizeOf_expr, below_toList sizeOf_ty, below_flatMap below_armParts,
      below_flatMap below_inputParts, below_patternParts, below_attrParts, below_getD]
  all_goals omega

lemma below_parts (part : Part) : Below (sizeOf part) part.parts := by
  cases part with
  | expr e => exact below_exprParts e
  | ty t => exact below_typeParts t
  | stmt s => exact below_stmtParts s

/-- **What the walks find** is an occurrence in a type, but in no type in a length. -/
theorem mentions_iff (hfits : Fits region part) :
    mentions name region part = true ↔ Occurs name Region.Outer region part := by
  induction hsize : sizeOf part using Nat.strongRecOn generalizing region part with
  | _ size ih =>
    rw [mentions_step hfits, occurs_iff]
    refine or_congr Iff.rfl ?_
    rw [mentionsIn, List.any_eq_true, OccursIn]
    refine exists_congr fun child => and_congr_right fun hchild => ?_
    exact ih _ (hsize ▸ below_parts part child hchild) (fits_enter region child) rfl

/-! ## Generic parameters -/

lemma mentionsIn_iff :
    mentionsIn name region parts = true ↔ OccursIn name Region.Outer region parts := by
  rw [mentionsIn, List.any_eq_true, OccursIn]
  exact exists_congr fun child => and_congr_right fun _ => mentions_iff (fits_enter region child)

/-- **What a function is generic over**: the names in its types, but for those that occur only in
types in lengths. -/
lemma fnTypeMentions_iff :
    fnTypeMentions decl name = true ↔ OuterDepends decl name := by
  have hparams : decl.params.any (fun param => typeMentionsIdent name param.ty) =
      mentionsIn name .code (decl.params.map fun param => .ty param.ty) := by
    rw [mentionsIn, List.any_map]
    rfl
  have hbody : decl.body.any (blockTypeMentions name) =
      mentionsIn name .code ((decl.body.getD []).map .stmt) := by
    cases decl.body with
    | none => rfl
    | some body => exact blockTypeMentions_eq body
  rw [OuterDepends, ← mentionsIn_iff, fnTypeMentions, hparams, hbody, any_typeMentionsIdent,
    fnParts, mentionsIn_append, mentionsIn_append, Bool.or_assoc]

lemma mem_typeGenericParams {param : Param} (hparam : param ∈ decl.params)
    (hcomptime : param.isComptime = true) :
    param.name.text ∈ typeGenericParams decl ↔ OuterDepends decl param.name.text := by
  rw [← fnTypeMentions_iff, typeGenericParams, List.mem_map]
  constructor
  · rintro ⟨other, hother, hname⟩
    have hmentions := (List.mem_filter.mp hother).2
    rw [Bool.and_eq_true, hname] at hmentions
    exact hmentions.2
  · intro hmentions
    refine ⟨param, List.mem_filter.mpr ⟨hparam, ?_⟩, rfl⟩
    rw [hcomptime, hmentions]
    rfl

/-- **The generic parameters** are the comptime parameters that a type depends on, exactly where a
parameter that occurs in a type in a length also occurs elsewhere in a type. -/
theorem typeGenericParams_exact_iff {decl : FnDecl} {param : Param} (hparam : param ∈ decl.params)
    (hcomptime : param.isComptime = true) :
    (param.name.text ∈ typeGenericParams decl ↔ TypeDepends decl param.name.text) ↔
      (InnerDepends decl param.name.text → OuterDepends decl param.name.text) := by
  rw [mem_typeGenericParams hparam hcomptime, typeDepends_iff]
  constructor
  · exact fun hiff hinner => hiff.mpr (.inr hinner)
  · exact fun h => ⟨.inl, fun hdepends => hdepends.elim id h⟩

/-- A parameter that stands for a type. -/
def comptimeT : Param := { name := ⟨"T", 0⟩, ty := .name ⟨"type", 0⟩, isComptime := true }

def sizeofCall (ty : TypeExpr) : Expr := .call (.ident ⟨"sizeof", 0⟩) [ty] []

/-- A function of `T` that returns the size of a type. -/
def sizeFn (ty : TypeExpr) : FnDecl where
  name := ⟨"size", 0⟩
  params := [comptimeT]
  returnType := some (.name ⟨"usize", 0⟩)
  body := some [.ret (some (sizeofCall ty))]

/-- The bytes of a value of type `T`. -/
def bytesOfT : TypeExpr := .array (sizeofCall (.name ⟨"T", 0⟩)) (.name ⟨"u8", 0⟩)

theorem typeGenericParams_exact_sizeFn :
    comptimeT ∈ (sizeFn (.name ⟨"T", 0⟩)).params ∧
      ("T" ∈ typeGenericParams (sizeFn (.name ⟨"T", 0⟩)) ↔
        TypeDepends (sizeFn (.name ⟨"T", 0⟩)) "T") := by
  have hparam : comptimeT ∈ (sizeFn (.name ⟨"T", 0⟩)).params := List.mem_singleton_self _
  have hcomptime : comptimeT.isComptime = true := rfl
  refine ⟨hparam, (typeGenericParams_exact_iff hparam hcomptime).mpr fun _ => ?_⟩
  exact fnTypeMentions_iff.mp rfl

/-- The only type that mentions `T` is in the length of an array. -/
theorem typeGenericParams_not_exact : comptimeT ∈ (sizeFn bytesOfT).params ∧
    typeGenericParams (sizeFn bytesOfT) = [] ∧ TypeDepends (sizeFn bytesOfT) "T" ∧
      ¬("T" ∈ typeGenericParams (sizeFn bytesOfT) ↔ TypeDepends (sizeFn bytesOfT) "T") := by
  have hnone : typeGenericParams (sizeFn bytesOfT) = [] := rfl
  have hdepends : TypeDepends (sizeFn bytesOfT) "T" := by
    have hname : Occurs "T" (fun region => region ≠ .code) .innerType (.ty (.name ⟨"T", 0⟩)) :=
      .here (by decide) rfl
    have hlength : Occurs "T" (fun region => region ≠ .code) .length
        (.expr (sizeofCall (.name ⟨"T", 0⟩))) :=
      .inside (List.mem_cons_of_mem _ List.mem_cons_self) hname
    have harray : Occurs "T" (fun region => region ≠ .code) .type (.ty bytesOfT) :=
      .inside List.mem_cons_self hlength
    have hcall : Occurs "T" (fun region => region ≠ .code) .code (.expr (sizeofCall bytesOfT)) :=
      .inside (List.mem_cons_of_mem _ List.mem_cons_self) harray
    have hreturn : Occurs "T" (fun region => region ≠ .code) .code
        (.stmt (.ret (some (sizeofCall bytesOfT)))) := .inside List.mem_cons_self hcall
    exact ⟨_, List.mem_append_right _ (List.mem_append_right _ List.mem_cons_self), hreturn⟩
  refine ⟨List.mem_singleton_self _, hnone, hdepends, fun hiff => ?_⟩
  have hmem := hiff.mpr hdepends
  rw [hnone] at hmem
  exact absurd hmem List.not_mem_nil

end ModernC.Specialize
