import ModernC.Comptime.Statements

/-!
# Folding terminates

The tables of folders are bounded in the depth of their calls.  A fold of an expression or of a body
ends within a depth that its size, the size of the registered bodies and the calls that are left
determine, and from there on a deeper table folds it in the same way.
-/

namespace ModernC.Comptime

open Eval (ComptimeValue ComptimeFold)
open Framework Framework.GuardedRun
open Syntax (Expr TypeExpr Param Stmt StructLiteralField Pattern SwitchArm)

/-! ## Runs without a recursive call -/

/-- No more is said of a run than that it ends. -/
abbrev Any {α : Type} : α → Prop := fun _ => True

variable {scope : ComptimeScope}

lemma comptimeCallReturnType_ends (callee : Expr) (args : List Expr) :
    Ends Any (comptimeCallReturnType scope callee args) := by
  unfold comptimeCallReturnType
  split
  · split
    · exact .pure trivial
    · split
      · exact .pure trivial
      · exact .attempt _ _ _
  · exact .pure trivial

lemma comptimeExprType_ends (expr : Expr) : Ends Any (comptimeExprType scope expr) := by
  fun_induction comptimeExprType scope expr with
  | case3 inner ih | case4 op operand ih => exact ih
  | case5 op left right ihLeft ihRight =>
    refine ihLeft.bind fun ty _ => ?_
    cases ty with
    | none => exact ihRight
    | some ty => exact .pure trivial
  | case7 base index ih | case8 base name ih => exact ih.bind fun ty _ => .pure trivial
  | case9 callee typeArgs args => exact comptimeCallReturnType_ends callee args
  | _ => exact .pure trivial

lemma comptimeExprWidth_ends (expr : Expr) : Ends Any (comptimeExprWidth scope expr) := by
  induction expr using comptimeExprWidth.induct with
  | case1 expr ih =>
    unfold comptimeExprWidth
    refine (comptimeExprType_ends expr).bind fun ty _ => ?_
    cases ofExprType scope comptimeTypeBitWidth ty with
    | some bits => exact .pure trivial
    | none =>
      cases expr with
      | grouped inner | unary op operand => exact ih
      | binary op left right =>
        refine ih.1.bind fun bits _ => ?_
        cases bits with
        | none => exact ih.2
        | some bits => exact .pure trivial
      | _ => exact .pure trivial

lemma comptimeExprDomainWidth_ends (expr : Expr) :
    Ends Any (comptimeExprDomainWidth scope expr) := by
  induction expr using comptimeExprDomainWidth.induct with
  | case1 expr ih =>
    unfold comptimeExprDomainWidth
    refine (comptimeExprType_ends expr).bind fun ty _ => ?_
    cases ofExprType scope comptimeTypeDomainWidth ty with
    | some dw => exact .pure trivial
    | none =>
      cases expr with
      | grouped inner | unary op operand => exact ih
      | binary op left right =>
        refine ih.1.bind fun dw _ => ?_
        cases dw with
        | none => exact ih.2
        | some dw => exact .pure trivial
      | _ => exact .pure trivial

lemma operandsDomainWidth_ends (left right : Expr) :
    Ends Any (operandsDomainWidth scope left right) := by
  refine (comptimeExprDomainWidth_ends left).bind fun dw _ => ?_
  cases dw with
  | none => exact comptimeExprDomainWidth_ends right
  | some dw => exact .pure trivial

lemma foldComptimeIntegerNeg_ends (dw : Option KnownDomain) (value : ℤ) :
    Ends Any (foldComptimeIntegerNeg dw value) := by
  unfold foldComptimeIntegerNeg
  exact .attempt _ _ _

lemma foldComptimeUnsignedNeg_ends (dw : Option KnownDomain) (value : ℕ) :
    Ends Any (foldComptimeUnsignedNeg dw value) := by
  unfold foldComptimeUnsignedNeg
  exact .certain _ _

lemma contextualComptimeValue_ends (floats : FloatHost) (ty : TypeExpr) (value : ComptimeValue) :
    Ends Any (contextualComptimeValue floats scope value ty) := by
  unfold contextualComptimeValue
  exact .certain _ _

lemma contextualFold_ends (floats : FloatHost) (ty : TypeExpr) (fold : ComptimeFold) :
    Ends Any (contextualFold floats scope ty fold) := by
  cases fold with
  | value value => exact contextualComptimeValue_ends floats ty value
  | trap | unknown => exact .pure trivial

lemma foldSignedBinary_ends {op : Eval.BinaryOp} (hlogical : ¬ IsLogical op)
    (heq : ¬ IsEquality op) (l r : ℤ) (dw : Option KnownDomain) :
    Ends Any (foldSignedBinary op hlogical heq l r dw) := by
  unfold foldSignedBinary
  split
  · exact .attempt _ _ _
  · exact .certain _ _

lemma foldIntegers_ends {op : Eval.BinaryOp} (hlogical : ¬ IsLogical op)
    (heq : ¬ IsEquality op) (left right : ComptimeValue) (dw : Option KnownDomain) :
    Ends Any (foldIntegers op hlogical heq left right dw) := by
  unfold foldIntegers
  split
  · exact .certain _ _
  · exact .certain _ _
  · split
    · exact .certain _ _
    · split
      · exact foldSignedBinary_ends hlogical heq _ _ dw
      · exact .pure trivial

lemma bitcastTo_ends (floats : FloatHost) (id : Syntax.Ident) (operand : ComptimeValue) :
    Ends Any (bitcastTo floats id operand) := by
  unfold bitcastTo
  exact .certain _ _

lemma binaryDomainWidth_ends (expectedTy : Option TypeExpr) (left right : Expr) :
    Ends Any (binaryDomainWidth scope expectedTy left right) := by
  unfold binaryDomainWidth
  split
  · exact .pure trivial
  · exact operandsDomainWidth_ends left right

lemma bindComptimeExprType_keeps {P : ComptimeScope → Prop} (name : String) (expr : Expr)
    (hscope : P scope) (hbind : ∀ ty, P (scope.bindTypeInfo name ty)) :
    Ends P (bindComptimeExprType scope name expr) := by
  refine (comptimeExprType_ends expr).bind fun ty _ => ?_
  cases ty with
  | none => exact .pure hscope
  | some ty => exact .pure (hbind ty)

/-! ## One level of a table -/

/-- Two scopes of one body: they call the same functions, at the same depth. -/
def SameRegistry (scope scope' : ComptimeScope) : Prop :=
  scope'.funcs = scope.funcs ∧ scope'.callDepth = scope.callDepth

lemma SameRegistry.refl (scope : ComptimeScope) : SameRegistry scope scope := ⟨rfl, rfl⟩

variable {scope' : ComptimeScope} {body : List Stmt}

lemma SameRegistry.trans {scope'' : ComptimeScope} (h : SameRegistry scope scope')
    (h' : SameRegistry scope' scope'') : SameRegistry scope scope'' :=
  ⟨h'.1.trans h.1, h'.2.trans h.2⟩

lemma sameRegistry_bind (scope : ComptimeScope) (name : String) (value : ComptimeValue) :
    SameRegistry scope (scope.bind name value) := ⟨rfl, rfl⟩

lemma sameRegistry_bindType (scope : ComptimeScope) (name : String) (ty : TypeExpr) :
    SameRegistry scope (scope.bindType name ty) := ⟨rfl, rfl⟩

lemma sameRegistry_bindTypeInfo (scope : ComptimeScope) (name : String) (ty : TypeExpr) :
    SameRegistry scope (scope.bindTypeInfo name ty) := by
  obtain ⟨widths, domains, heq⟩ := recordType_eq scope name (resolveComptimeType scope ty)
  rw [ComptimeScope.bindTypeInfo, heq]
  exact ⟨rfl, rfl⟩

/-- A statement ends in a scope of the same body. -/
abbrev Keeps (scope : ComptimeScope) (result : ComptimeScope × BodyFlow) : Prop :=
  SameRegistry scope result.1

/-- Two tables fold alike what is smaller than `size`, and the bodies that a call enters. -/
structure AlikeBelow (F G : Folders) (scope : ComptimeScope) (size : ℕ) : Prop where
  floats : F.floats = G.floats
  expr : ∀ scope', SameRegistry scope scope' → ∀ expr, sizeOf expr < size →
    Agree Any (F.foldComptimeExpr scope' expr) (G.foldComptimeExpr scope' expr)
  expected : ∀ scope', SameRegistry scope scope' → ∀ expr ty, sizeOf expr < size →
    Agree Any (F.foldComptimeExprExpected scope' expr ty) (G.foldComptimeExprExpected scope' expr ty)
  stmts : ∀ scope', SameRegistry scope scope' → ∀ body, sizeOf body < size →
    Agree (Keeps scope') (F.foldComptimeStmtSeq scope' body) (G.foldComptimeStmtSeq scope' body)
  calls : ∀ funcs name fnDecl body scope', scope.funcs = some funcs →
    funcs.lookup name = some fnDecl → fnDecl.body = some body →
    scope.callDepth < comptimeCallFuel → scope'.funcs = scope.funcs →
    scope'.callDepth = scope.callDepth + 1 →
    Agree Any (F.foldComptimeStmtSeq scope' body) (G.foldComptimeStmtSeq scope' body)

variable {F G : Folders} {size : ℕ}

lemma AlikeBelow.at_scope (h : AlikeBelow F G scope size)
    (hsame : SameRegistry scope scope') : AlikeBelow F G scope' size where
  floats := h.floats
  expr := fun scope'' h' => h.expr scope'' (hsame.trans h')
  expected := fun scope'' h' => h.expected scope'' (hsame.trans h')
  stmts := fun scope'' h' => h.stmts scope'' (hsame.trans h')
  calls := fun funcs name fnDecl body scope'' hfuncs hlookup hbody hdepth hfuncs' hdepth' =>
    h.calls funcs name fnDecl body scope'' (hsame.1 ▸ hfuncs) hlookup hbody (hsame.2 ▸ hdepth)
      (hfuncs'.trans hsame.1) (hdepth'.trans (by rw [hsame.2]))

lemma AlikeBelow.mono (h : AlikeBelow F G scope size) {size' : ℕ} (hle : size' ≤ size) :
    AlikeBelow F G scope size' where
  floats := h.floats
  expr := fun scope' hsame expr hs => h.expr scope' hsame expr (hs.trans_le hle)
  expected := fun scope' hsame expr ty hs => h.expected scope' hsame expr ty (hs.trans_le hle)
  stmts := fun scope' hsame body hs => h.stmts scope' hsame body (hs.trans_le hle)
  calls := h.calls

lemma AlikeBelow.at_expr (h : AlikeBelow F G scope size) {expr : Expr} (hs : sizeOf expr < size) :
    Agree Any (F.foldComptimeExpr scope expr) (G.foldComptimeExpr scope expr) :=
  h.expr scope (.refl scope) expr hs

lemma AlikeBelow.at_expected (h : AlikeBelow F G scope size) {expr : Expr} (ty : TypeExpr)
    (hs : sizeOf expr < size) :
    Agree Any (F.foldComptimeExprExpected scope expr ty)
      (G.foldComptimeExprExpected scope expr ty) :=
  h.expected scope (.refl scope) expr ty hs

lemma AlikeBelow.at_stmts (h : AlikeBelow F G scope size) (hs : sizeOf body < size) :
    Agree (Keeps scope) (F.foldComptimeStmtSeq scope body) (G.foldComptimeStmtSeq scope body) :=
  h.stmts scope (.refl scope) body hs

lemma onValue_agree {fold fold' : Run ComptimeFold} {next next' : ComptimeValue → Run ComptimeFold}
    (hfold : Agree Any fold fold') (hnext : ∀ value, Agree Any (next value) (next' value)) :
    Agree Any (onValue fold next) (onValue fold' next') := by
  refine hfold.bind fun fold _ => ?_
  cases fold with
  | value value => exact hnext value
  | trap | unknown => exact .pure trivial

/-! ## Expressions -/

section Expressions

variable (h : AlikeBelow F G scope size)
include h

lemma foldComptimeUnary_agree (op : Syntax.UnaryOp) {operand : Expr} (hs : sizeOf operand < size) :
    Agree Any (foldComptimeUnary F scope op operand) (foldComptimeUnary G scope op operand) := by
  refine onValue_agree (h.at_expr hs) fun value => .refl ?_
  cases op with
  | neg =>
    cases value with
    | int v =>
      exact (comptimeExprDomainWidth_ends operand).bind fun dw _ =>
        foldComptimeIntegerNeg_ends dw v
    | uint v =>
      exact (comptimeExprDomainWidth_ends operand).bind fun dw _ =>
        foldComptimeUnsignedNeg_ends dw v
    | _ => exact .pure trivial
  | bitNot =>
    cases value with
    | int v | uint v => exact (comptimeExprWidth_ends operand).bind fun bits _ => .pure trivial
    | _ => exact .pure trivial
  | logicalNot => exact .pure trivial

lemma foldComptimeUnaryExpected_agree (op : Syntax.UnaryOp) {operand : Expr} (ty : TypeExpr)
    (hs : sizeOf operand < size) :
    Agree Any (foldComptimeUnaryExpected F scope op operand ty)
      (foldComptimeUnaryExpected G scope op operand ty) := by
  refine onValue_agree (h.at_expr hs) fun value => ?_
  have hfloats := h.floats
  cases op with
  | neg =>
    have hneg : Agree Any (foldNegExpected F scope (resolveComptimeType scope ty) value)
        (foldNegExpected G scope (resolveComptimeType scope ty) value) := by
      cases value with
      | int v => exact .refl (foldComptimeIntegerNeg_ends _ v)
      | uint v => exact .refl (foldComptimeUnsignedNeg_ends _ v)
      | float x =>
        unfold foldNegExpected
        rw [hfloats]
        refine onValue_agree (.refl (contextualComptimeValue_ends _ _ _)) fun converted => .refl ?_
        cases converted <;> exact .pure trivial
      | _ => exact .refl (.pure trivial)
    refine hneg.bind fun fold _ => ?_
    rw [hfloats]
    exact .refl (contextualFold_ends _ _ fold)
  | bitNot =>
    have hnot : Agree Any (foldBitNotExpected F scope (resolveComptimeType scope ty) value)
        (foldBitNotExpected G scope (resolveComptimeType scope ty) value) := by
      unfold foldBitNotExpected
      rw [hfloats]
      cases comptimeTypeBitWidth (resolveComptimeType scope ty) with
      | none => exact .refl (.pure trivial)
      | some bits => exact .refl (contextualFold_ends _ _ _)
    refine hnot.bind fun fold _ => ?_
    rw [hfloats]
    exact .refl (contextualFold_ends _ _ fold)
  | logicalNot => exact foldComptimeUnary_agree h .logicalNot hs

lemma foldLogical_agree (isAnd : Bool) {left right : Expr} (hleft : sizeOf left < size)
    (hright : sizeOf right < size) :
    Agree Any (foldLogical F scope isAnd left right) (foldLogical G scope isAnd left right) := by
  refine onValue_agree (h.at_expr hleft) fun value => ?_
  cases value with
  | boolean decided =>
    simp only
    split
    · exact .refl (.pure trivial)
    · refine onValue_agree (h.at_expr hright) fun value => .refl ?_
      cases value <;> exact .pure trivial
  | _ => exact .refl (.pure trivial)

lemma foldOperands_agree {op : Eval.BinaryOp} (hlogical : ¬ IsLogical op)
    (left right : ComptimeValue) {dw : Run (Option KnownDomain)} (hdw : Ends Any dw) :
    Agree Any (foldOperands F op hlogical left right dw)
      (foldOperands G op hlogical left right dw) := by
  unfold foldOperands
  rw [h.floats]
  refine .refl ?_
  split
  · exact .pure trivial
  · split
    · exact .pure trivial
    · exact .pure trivial
    · exact .pure trivial
    · exact hdw.bind fun dw _ => foldIntegers_ends hlogical _ _ _ dw

variable {expr : Expr} {args : List Expr}

lemma foldOperand_agree (ty : Option TypeExpr) (hs : sizeOf expr < size) :
    Agree Any (foldOperand F scope ty expr) (foldOperand G scope ty expr) := by
  cases ty with
  | none => exact h.at_expr hs
  | some ty => exact h.at_expected ty hs

lemma foldComptimeBinaryWithExpected_agree (op : Syntax.BinaryOp) {left right : Expr}
    (ty : Option TypeExpr) (hleft : sizeOf left < size) (hright : sizeOf right < size) :
    Agree Any (foldComptimeBinaryWithExpected F scope op left right ty)
      (foldComptimeBinaryWithExpected G scope op left right ty) := by
  unfold foldComptimeBinaryWithExpected
  split
  · exact foldLogical_agree h _ hleft hright
  · refine (foldOperand_agree h _ hleft).bind fun leftFold _ => ?_
    refine (foldOperand_agree h _ hright).bind fun rightFold _ => ?_
    refine onValue_agree (.refl (.pure trivial)) fun l => ?_
    refine onValue_agree (.refl (.pure trivial)) fun r => ?_
    exact foldOperands_agree h _ l r (binaryDomainWidth_ends ty left right)

omit h in
lemma foldItems_agree {α : Type} {fold fold' : α → Run ComptimeFold} {items : List α}
    (hfold : ∀ item ∈ items, Agree Any (fold item) (fold' item)) :
    Agree Any (foldItems fold items) (foldItems fold' items) := by
  induction items with
  | nil => exact .pure trivial
  | cons item rest ih =>
    refine (hfold item List.mem_cons_self).bind fun first _ => ?_
    cases first with
    | value value =>
      refine (ih fun item hitem => hfold item (List.mem_cons_of_mem _ hitem)).bind fun others _ => ?_
      cases others <;> exact .pure trivial
    | trap | unknown => exact .pure trivial

lemma foldComptimeArrayLiteral_agree {items : List Expr} (hs : ∀ item ∈ items, sizeOf item < size) :
    Agree Any (foldComptimeArrayLiteral F scope items) (foldComptimeArrayLiteral G scope items) := by
  refine (foldItems_agree fun item hitem => h.at_expr (hs item hitem)).bind fun values _ => ?_
  cases values <;> exact .pure trivial

lemma foldComptimeArrayLiteralExpected_agree {items : List Expr} (ty : TypeExpr)
    (hs : ∀ item ∈ items, sizeOf item < size) :
    Agree Any (foldComptimeArrayLiteralExpected F scope items ty)
      (foldComptimeArrayLiteralExpected G scope items ty) := by
  unfold foldComptimeArrayLiteralExpected
  split
  · refine (foldItems_agree fun item hitem =>
      h.at_expected _ (hs item hitem)).bind fun values _ => ?_
    cases values <;> exact .pure trivial
  · exact foldComptimeArrayLiteral_agree h hs

lemma foldComptimeStructLiteral_agree {fields : List StructLiteralField}
    (hs : ∀ field ∈ fields, sizeOf (fieldValue field) < size) :
    Agree Any (foldComptimeStructLiteral F scope fields)
      (foldComptimeStructLiteral G scope fields) := by
  refine (foldItems_agree fun field hfield => h.at_expr (hs field hfield)).bind fun values _ => ?_
  cases values <;> exact .pure trivial

lemma foldComptimeStructLiteralExpected_agree {fields : List StructLiteralField} (ty : TypeExpr)
    (hs : ∀ field ∈ fields, sizeOf (fieldValue field) < size) :
    Agree Any (foldComptimeStructLiteralExpected F scope fields ty)
      (foldComptimeStructLiteralExpected G scope fields ty) := by
  unfold foldComptimeStructLiteralExpected
  split
  · split
    · refine (foldItems_agree fun field hfield => ?_).bind fun values _ => ?_
      · unfold foldField
        split
        · exact h.at_expected _ (hs field hfield)
        · exact h.at_expr (hs field hfield)
      · cases values <;> exact .pure trivial
    · exact foldComptimeStructLiteral_agree h hs
  · exact foldComptimeStructLiteral_agree h hs

lemma foldComptimeMember_agree {base : Expr} (name : String) (hs : sizeOf base < size) :
    Agree Any (foldComptimeMember F scope base name) (foldComptimeMember G scope base name) := by
  unfold foldComptimeMember
  split
  · exact .pure trivial
  · exact onValue_agree (h.at_expr hs) fun value => .pure trivial

lemma foldComptimeIndex_agree {base index : Expr} (hbase : sizeOf base < size)
    (hindex : sizeOf index < size) :
    Agree Any (foldComptimeIndex F scope base index) (foldComptimeIndex G scope base index) := by
  unfold foldComptimeIndex
  refine onValue_agree ?_ fun baseValue => onValue_agree (h.at_expr hindex) fun indexValue => ?_
  · split
    · exact .pure trivial
    · exact h.at_expr hbase
  · split <;> exact .pure trivial

lemma foldComptimeBitcast_agree (typeArgs : List TypeExpr) (hs : ∀ arg ∈ args, sizeOf arg < size) :
    Agree Any (foldComptimeBitcast F scope typeArgs args)
      (foldComptimeBitcast G scope typeArgs args) := by
  unfold foldComptimeBitcast
  rw [h.floats]
  split
  · exact onValue_agree (h.at_expr (hs _ List.mem_cons_self)) fun operand =>
      .refl (bitcastTo_ends _ _ operand)
  · exact .pure trivial

/-! ## Calls -/

/-- The arguments are bound in a scope of the callee. -/
lemma bindArguments_agree {calleeScope : ComptimeScope} {pairs : List (Param × Expr)}
    (hs : ∀ pair ∈ pairs, sizeOf pair.2 < size) :
    Agree (fun result => ∀ bound, result = .ok bound → SameRegistry calleeScope bound)
      (bindArguments F scope calleeScope pairs) (bindArguments G scope calleeScope pairs) := by
  induction pairs generalizing calleeScope with
  | nil =>
    refine .pure fun bound hbound => ?_
    cases hbound
    exact .refl calleeScope
  | cons pair rest ih =>
    obtain ⟨param, arg⟩ := pair
    have hrest : ∀ pair ∈ rest, sizeOf pair.2 < size := fun pair hpair =>
      hs pair (List.mem_cons_of_mem _ hpair)
    simp only [bindArguments]
    split
    · split
      · refine (ih hrest).mono fun result hresult bound hbound => ?_
        exact (sameRegistry_bindType calleeScope _ _).trans (hresult bound hbound)
      · exact .pure fun bound hbound => by cases hbound
    · refine (h.at_expected _ (hs _ List.mem_cons_self)).bind fun fold _ => ?_
      cases fold with
      | value value =>
        refine (ih hrest).mono fun result hresult bound hbound => ?_
        exact ((sameRegistry_bind calleeScope _ _).trans
          (sameRegistry_bindTypeInfo _ _ _)).trans (hresult bound hbound)
      | trap | unknown => exact .pure fun bound hbound => by cases hbound

lemma foldComptimeCall_agree (callee : Expr) (hs : ∀ arg ∈ args, sizeOf arg < size) :
    Agree Any (foldComptimeCall F scope callee args) (foldComptimeCall G scope callee args) := by
  unfold foldComptimeCall
  split
  · rename_i funcs id hfuncs
    split
    · exact .pure trivial
    · rename_i hdepth
      split
      · exact .pure trivial
      · rename_i fnDecl hlookup
        split
        · exact .pure trivial
        · rename_i body hbody
          split
          · exact .pure trivial
          · have hpairs : ∀ pair ∈ fnDecl.params.zip args, sizeOf pair.2 < size :=
              fun pair hpair => hs _ (List.of_mem_zip hpair).2
            refine (bindArguments_agree h hpairs).bind fun result hresult => ?_
            cases result with
            | error stop => exact .pure trivial
            | ok calleeScope =>
              obtain ⟨hsame, hsameDepth⟩ := hresult calleeScope rfl
              -- the body is entered one call deeper, with the same functions
              have hcall := h.calls funcs id.text fnDecl body
                (withReturnType calleeScope fnDecl.returnType) hfuncs hlookup hbody
                (Nat.not_le.mp hdepth) hsame hsameDepth
              refine hcall.bind fun ⟨after, flow⟩ _ => ?_
              cases flow <;> exact .pure trivial
  · exact .pure trivial

lemma foldCall_agree (callee : Expr) (typeArgs : List TypeExpr)
    (hs : ∀ arg ∈ args, sizeOf arg < size) :
    Agree Any (foldCall F scope callee typeArgs args) (foldCall G scope callee typeArgs args) := by
  unfold foldCall
  split
  · exact .pure trivial
  · split
    · exact foldComptimeBitcast_agree h typeArgs hs
    · split
      · exact onValue_agree (h.at_expr (hs _ List.mem_cons_self)) fun payload => .pure trivial
      · refine (foldComptimeCall_agree h callee hs).bind fun fold _ => ?_
        cases fold <;> exact .pure trivial

omit h in
lemma sizeOf_item_lt {α : Type} [SizeOf α] {items : List α} {item : α}
    (hitem : item ∈ items) (hs : sizeOf items < size) : sizeOf item < size :=
  (List.sizeOf_lt_of_mem hitem).trans hs

omit h in
lemma sizeOf_fieldValue_lt (field : StructLiteralField) :
    sizeOf (fieldValue field) < sizeOf field := by
  cases field with
  | mk name value =>
    simp only [fieldValue, StructLiteralField.mk.sizeOf_spec]
    omega

omit h in
theorem foldComptimeExpr_agree (h : AlikeBelow F G scope (sizeOf expr)) :
    Agree Any (foldComptimeExpr F scope expr) (foldComptimeExpr G scope expr) := by
  cases expr with
  | floatLiteral text =>
    unfold foldComptimeExpr
    rw [h.floats]
    exact .pure trivial
  | grouped inner => exact h.at_expr (by simp)
  | unary op operand => exact foldComptimeUnary_agree h op (by simp)
  | binary op left right =>
    exact foldComptimeBinaryWithExpected_agree h op none (by simp; omega) (by simp)
  | call callee typeArgs args =>
    exact foldCall_agree h callee typeArgs fun arg harg => sizeOf_item_lt harg (by simp)
  | cast value ty =>
    unfold foldComptimeExpr
    rw [h.floats]
    refine onValue_agree (h.at_expr (by simp; omega)) fun v => .refl ?_
    have hcast : Ends Any (comptimeCastValue G.floats v ty) := by
      unfold comptimeCastValue
      exact .certain _ _
    exact hcast.bind fun converted _ => .pure trivial
  | arrayLiteral items =>
    exact foldComptimeArrayLiteral_agree h fun item hitem => sizeOf_item_lt hitem (by simp)
  | index base index => exact foldComptimeIndex_agree h (by simp; omega) (by simp)
  | structLiteral fields =>
    exact foldComptimeStructLiteral_agree h fun field hfield =>
      (sizeOf_fieldValue_lt field).trans (sizeOf_item_lt hfield (by simp))
  | member base name => exact foldComptimeMember_agree h name.text (by simp; omega)
  | _ => exact .pure trivial

omit h in
theorem foldComptimeExprExpected_agree (ty : TypeExpr) (h : AlikeBelow F G scope (sizeOf expr))
    (hexpr : Agree Any (F.foldComptimeExpr scope expr) (G.foldComptimeExpr scope expr)) :
    Agree Any (foldComptimeExprExpected F scope expr ty)
      (foldComptimeExprExpected G scope expr ty) := by
  have hcontext : Agree Any
      (F.foldComptimeExpr scope expr >>=
        contextualFold F.floats scope (resolveComptimeType scope ty))
      (G.foldComptimeExpr scope expr >>=
        contextualFold G.floats scope (resolveComptimeType scope ty)) := by
    rw [h.floats]
    exact hexpr.bind fun fold _ => .refl (contextualFold_ends _ _ fold)
  cases expr with
  | grouped inner => exact h.at_expected _ (by simp)
  | unary op operand => exact foldComptimeUnaryExpected_agree h op _ (by simp)
  | binary op left right =>
    exact foldComptimeBinaryWithExpected_agree h op _ (by simp; omega) (by simp)
  | arrayLiteral items =>
    exact foldComptimeArrayLiteralExpected_agree h _ fun item hitem =>
      sizeOf_item_lt hitem (by simp)
  | structLiteral fields =>
    exact foldComptimeStructLiteralExpected_agree h _ fun field hfield =>
      (sizeOf_fieldValue_lt field).trans (sizeOf_item_lt hfield (by simp))
  | _ => exact hcontext

end Expressions

/-! ## Statements -/

section Statements

variable (h : AlikeBelow F G scope size)
include h

lemma foldInitializer_agree (ty : Option TypeExpr) {init : Expr} (hs : sizeOf init < size) :
    Agree Any (foldInitializer F scope ty init) (foldInitializer G scope ty init) := by
  cases ty with
  | none => exact h.at_expr hs
  | some ty => exact h.at_expected ty hs

lemma foldLocal_agree (names : List Syntax.Ident) (ty : Option TypeExpr) {init : Option Expr}
    (hs : ∀ expr ∈ init, sizeOf expr < size) :
    Agree (Keeps scope) (foldLocal F scope names ty init) (foldLocal G scope names ty init) := by
  unfold foldLocal
  split
  · refine .pure ?_
    cases ty with
    | none => exact sameRegistry_bind _ _ _
    | some ty => exact (sameRegistry_bind _ _ _).trans (sameRegistry_bindTypeInfo _ _ _)
  · rename_i name expr _
    refine (foldInitializer_agree h ty (hs expr rfl)).bind fun fold _ => ?_
    cases fold with
    | value value =>
      have hbound : Ends (SameRegistry scope)
          (bindDeclaredType (scope.bind name.text value) name.text ty expr) := by
        cases ty with
        | none =>
          exact bindComptimeExprType_keeps _ _ (sameRegistry_bind _ _ _) fun ty =>
            (sameRegistry_bind _ _ _).trans (sameRegistry_bindTypeInfo _ _ _)
        | some ty => exact .pure ((sameRegistry_bind _ _ _).trans (sameRegistry_bindTypeInfo _ _ _))
      exact .refl (hbound.bind fun bound hsame => .pure hsame)
    | trap | unknown => exact .pure (.refl scope)
  · exact .pure (.refl scope)

/-- The indexes of a target fold alike. -/
lemma foldComptimeUpdatePath_agree (replacement : ComptimeValue) {path : List AssignPathSegment}
    (hs : ∀ expr, .index expr ∈ path → sizeOf expr < size) (current : ComptimeValue) :
    Agree Any (foldComptimeUpdatePath F scope replacement current path)
      (foldComptimeUpdatePath G scope replacement current path) := by
  induction path generalizing current with
  | nil => exact .pure trivial
  | cons segment path ih =>
    have hrest := fun current => ih (fun expr hexpr => hs expr (List.mem_cons_of_mem _ hexpr)) current
    cases segment with
    | member name =>
      cases current with
      | struct fields =>
        simp only [foldComptimeUpdatePath]
        split
        · exact onValue_agree (hrest _) fun value => .pure trivial
        · exact .pure trivial
      | _ => exact .pure trivial
    | index indexExpr =>
      cases current with
      | array items =>
        refine onValue_agree (h.at_expr (hs indexExpr List.mem_cons_self)) fun indexValue => ?_
        split
        · exact .pure trivial
        · split
          · exact onValue_agree (hrest _) fun value => .pure trivial
          · exact .pure trivial
      | _ => exact .pure trivial

omit h in
lemma sizeOf_index_lt {target : Expr} {path : List AssignPathSegment}
    (hpath : appendAssignPath target = some path) {expr : Expr} (hexpr : .index expr ∈ path) :
    sizeOf expr < sizeOf target := by
  fun_induction appendAssignPath target generalizing path with
  | case1 id =>
    cases hpath
    cases hexpr
  | case2 inner ih =>
    have := ih hpath hexpr
    simp only [Expr.grouped.sizeOf_spec]
    omega
  | case3 base name ih =>
    obtain ⟨path', hbase, rfl⟩ := Option.map_eq_some_iff.mp hpath
    have hmem : .index expr ∈ path' := by simpa using hexpr
    have := ih hbase hmem
    simp only [Expr.member.sizeOf_spec]
    omega
  | case4 base index ih =>
    obtain ⟨path', hbase, rfl⟩ := Option.map_eq_some_iff.mp hpath
    simp only [Expr.index.sizeOf_spec]
    have hmem : .index expr ∈ path' ∨ expr = index := by simpa using hexpr
    rcases hmem with hmem | rfl
    · have := ih hbase hmem
      omega
    · omega
  | case5 => cases hpath

lemma foldComptimeAssign_agree {target value : Expr} (htarget : sizeOf target < size)
    (hvalue : sizeOf value < size) :
    Agree (fun result => SameRegistry scope result.1) (foldComptimeAssign F scope target value)
      (foldComptimeAssign G scope target value) := by
  have hassigned : Agree Any (foldAssigned F scope target value)
      (foldAssigned G scope target value) := by
    refine (Agree.refl (comptimeExprType_ends target)).bind fun ty _ => ?_
    cases ty with
    | none => exact h.at_expr hvalue
    | some ty => exact h.at_expected ty hvalue
  refine hassigned.bind fun fold _ => ?_
  cases fold with
  | value v =>
    simp only
    split
    · exact .pure (.refl scope)
    · split
      · exact .pure (.refl scope)
      · rename_i root _
        have hupdate : Agree Any (foldComptimeUpdateTarget F scope root target v)
            (foldComptimeUpdateTarget G scope root target v) := by
          unfold foldComptimeUpdateTarget
          split
          · rename_i path hpath
            exact foldComptimeUpdatePath_agree h v
              (fun expr hexpr => (sizeOf_index_lt hpath hexpr).trans htarget) root
          · exact .pure trivial
        refine hupdate.bind fun updated _ => ?_
        cases updated with
        | value updated => exact .pure (sameRegistry_bind _ _ _)
        | trap | unknown => exact .pure (.refl scope)
  | trap | unknown => exact .pure (.refl scope)

lemma foldWhileTurns_agree {cond : Expr} (hcond : sizeOf cond < size)
    (hbody : sizeOf body < size) (fuel : ℕ) (hsame : SameRegistry scope scope') :
    Agree (Keeps scope') (foldWhileTurns F cond body fuel scope')
      (foldWhileTurns G cond body fuel scope') := by
  induction fuel generalizing scope' with
  | zero => exact .pure (.refl scope')
  | succ fuel ih =>
    refine (h.expr scope' hsame cond hcond).bind fun fold _ => ?_
    split
    · refine (h.stmts scope' hsame body hbody).bind fun ⟨after, flow⟩ hafter => ?_
      simp only
      split
      · exact (ih (hsame.trans hafter)).mono fun result hresult => hafter.trans hresult
      · exact .pure hafter
    · exact .pure (.refl scope')
    · exact .pure (.refl scope')

omit h in
lemma sameRegistry_bindElement (scope : ComptimeScope) (name : String) (value : ComptimeValue)
    (ty : Option TypeExpr) : SameRegistry scope (bindElement scope name value ty) := by
  cases ty with
  | none => exact sameRegistry_bind _ _ _
  | some ty => exact (sameRegistry_bind _ _ _).trans (sameRegistry_bindTypeInfo _ _ _)

lemma foldForTurns_agree (name : String) (ty : Option TypeExpr)
    (hbody : sizeOf body < size) (items : List ComptimeValue) (hsame : SameRegistry scope scope') :
    Agree (Keeps scope') (foldForTurns F name ty body items scope')
      (foldForTurns G name ty body items scope') := by
  induction items generalizing scope' with
  | nil => exact .pure (.refl scope')
  | cons element rest ih =>
    have hbound := sameRegistry_bindElement scope' name element ty
    refine (h.stmts _ (hsame.trans hbound) body hbody).bind fun ⟨after, flow⟩ hafter => ?_
    simp only
    split
    · exact (ih ((hsame.trans hbound).trans hafter)).mono fun result hresult =>
        (hbound.trans hafter).trans hresult
    · exact .pure (hbound.trans hafter)

lemma foldLoop_agree (kind : Syntax.LoopKind) (label : Option Syntax.Ident)
    {iterable : Option Expr} (hiterable : ∀ expr ∈ iterable, sizeOf expr < size)
    (hbody : sizeOf body < size) :
    Agree (Keeps scope) (foldLoop F scope kind label iterable body)
      (foldLoop G scope kind label iterable body) := by
  unfold foldLoop
  split
  · exact foldWhileTurns_agree h (hiterable _ rfl) hbody _ (.refl scope)
  · rename_i expr binding
    refine (Agree.refl (comptimeExprType_ends expr)).bind fun ty _ => ?_
    refine (h.at_expr (hiterable _ rfl)).bind fun fold _ => ?_
    split
    · exact foldForTurns_agree h _ _ hbody _ (.refl scope)
    · exact .pure (.refl scope)
  · exact .pure (.refl scope)

/-- The scope of a branch is one of the same body. -/
abbrev BranchKeeps (scope : ComptimeScope) (branch : Branch) : Prop :=
  ∀ taken, branch = .ok (some taken) → SameRegistry scope taken

omit h in
lemma matchTagBind_keeps (tag binding : Syntax.Ident) (value : ComptimeValue) :
    BranchKeeps scope (matchTagBind scope tag binding value) := by
  intro taken htaken
  unfold matchTagBind at htaken
  split at htaken
  · cases htaken
  · split at htaken
    · split at htaken
      · cases htaken
      · cases htaken
        exact sameRegistry_bind _ _ _
    · cases htaken

omit h in
lemma matchIfLet_keeps (sourceTy : Option TypeExpr) (value : ComptimeValue) (pattern : Pattern) :
    BranchKeeps scope (matchIfLet scope sourceTy value pattern) := by
  intro taken htaken
  unfold matchIfLet at htaken
  split at htaken
  · split at htaken
    · cases htaken
    · cases htaken
      cases sourceTy with
      | none => exact sameRegistry_bind _ _ _
      | some ty => exact (sameRegistry_bind _ _ _).trans (sameRegistry_bindTypeInfo _ _ _)
  · exact matchTagBind_keeps _ _ _ taken htaken
  · split at htaken
    · cases htaken
    · split at htaken
      · cases htaken
        exact .refl scope
      · cases htaken
  · cases htaken

lemma foldComptimeIfLet_agree (pattern : Pattern) {value : Expr} {thenBlock : List Stmt}
    {elseBlock : Option (List Stmt)} (hvalue : sizeOf value < size)
    (hthen : sizeOf thenBlock < size) (helse : ∀ body ∈ elseBlock, sizeOf body < size) :
    Agree (Keeps scope) (foldComptimeIfLet F scope pattern value thenBlock elseBlock)
      (foldComptimeIfLet G scope pattern value thenBlock elseBlock) := by
  refine (Agree.refl (comptimeExprType_ends value)).bind fun ty _ => ?_
  refine (h.at_expr hvalue).bind fun fold _ => ?_
  cases fold with
  | value v =>
    have hkeeps : BranchKeeps scope (matchIfLet scope _ v pattern) :=
      matchIfLet_keeps (ty.map (resolveComptimeType scope)) v pattern
    simp only
    split
    · rename_i taken htaken
      exact (h.stmts taken (hkeeps taken htaken) thenBlock hthen).mono fun result hresult =>
        (hkeeps taken htaken).trans hresult
    · cases elseBlock with
      | none => exact .pure (.refl scope)
      | some body => exact h.at_stmts (helse body rfl)
    · exact .pure (.refl scope)
  | trap | unknown => exact .pure (.refl scope)

lemma matchPattern_agree (subject : ComptimeValue) (ty : Option TypeExpr) {pattern : Pattern}
    (hs : sizeOf pattern < size) :
    Agree (BranchKeeps scope) (matchPattern F scope subject ty pattern)
      (matchPattern G scope subject ty pattern) := by
  cases pattern with
  | wildcard =>
    refine .pure fun taken htaken => ?_
    cases htaken
    exact .refl scope
  | bind name =>
    refine .pure fun taken htaken => ?_
    cases htaken
    exact sameRegistry_bindElement _ _ _ _
  | literal lit =>
    unfold matchPattern
    rw [h.floats]
    have hlit : sizeOf lit < size := by
      simp only [Pattern.literal.sizeOf_spec] at hs
      omega
    refine (h.at_expr hlit).bind fun fold _ => ?_
    split
    · refine .pure fun taken htaken => ?_
      split at htaken
      · cases htaken
        exact .refl scope
      · cases htaken
    · exact .pure fun taken htaken => by cases htaken
  | tag tag =>
    have hkeeps : ∀ name, BranchKeeps scope (.ok (if name = tag.text then some scope else none)) := by
      intro name taken htaken
      split at htaken
      · cases htaken
        exact .refl scope
      · cases htaken
    have hresult : Ends (BranchKeeps scope) (matchPattern F scope subject ty (.tag tag)) := by
      cases subject with
      | tag name => exact .pure (hkeeps name)
      | _ =>
        simp only [matchPattern]
        split
        · exact .pure fun taken htaken => by cases htaken
        · exact .pure (hkeeps _)
    exact ⟨by unfold matchPattern; rfl, hresult⟩
  | tagBind tag binding => exact .pure (matchTagBind_keeps tag binding subject)

lemma matchPatterns_agree (subject : ComptimeValue) (ty : Option TypeExpr)
    {patterns : List Pattern} (hs : sizeOf patterns < size) :
    Agree (BranchKeeps scope) (matchPatterns F scope subject ty patterns)
      (matchPatterns G scope subject ty patterns) := by
  induction patterns with
  | nil => exact .pure fun taken htaken => by cases htaken
  | cons pattern rest ih =>
    simp only [List.cons.sizeOf_spec] at hs
    refine (matchPattern_agree h subject ty (by omega)).bind fun branch hbranch => ?_
    split
    · exact ih (by omega)
    · exact .pure hbranch

lemma foldArm_agree (hsame : SameRegistry scope scope') {arm : SwitchArm} (hs : sizeOf arm < size) :
    Agree (Keeps scope) (foldArm F scope' arm) (foldArm G scope' arm) := by
  cases arm with
  | block patterns body dup =>
    simp only [SwitchArm.block.sizeOf_spec] at hs
    exact (h.stmts scope' hsame body (by omega)).mono fun result hresult => hsame.trans hresult
  | expr patterns body dup =>
    simp only [SwitchArm.expr.sizeOf_spec] at hs
    refine (h.expr scope' hsame body (by omega)).bind fun fold _ => ?_
    split <;> exact .pure hsame

omit h in
lemma sizeOf_armPatterns_lt (arm : SwitchArm) : sizeOf (armPatterns arm) < sizeOf arm := by
  cases arm <;> simp [armPatterns] <;> omega

lemma foldArms_agree (subject : ComptimeValue) (ty : Option TypeExpr) {arms : List SwitchArm}
    (hs : sizeOf arms < size) :
    Agree (Keeps scope) (foldArms F scope subject ty arms) (foldArms G scope subject ty arms) := by
  induction arms with
  | nil => exact .pure (.refl scope)
  | cons arm rest ih =>
    simp only [List.cons.sizeOf_spec] at hs
    have harm := sizeOf_armPatterns_lt arm
    refine (matchPatterns_agree h subject ty (by omega)).bind fun branch hbranch => ?_
    split
    · rename_i taken
      exact foldArm_agree h (hbranch taken rfl) (by omega)
    · exact ih (by omega)
    · exact .pure (.refl scope)

lemma foldReturn_agree {value : Option Expr} (hs : ∀ expr ∈ value, sizeOf expr < size) :
    Agree Any (foldReturn F scope value) (foldReturn G scope value) := by
  cases value with
  | none => exact .pure trivial
  | some expr => exact foldInitializer_agree h _ (hs expr rfl)

omit h in
lemma sizeOf_lt_of_mem_option {α : Type} [SizeOf α] {o : Option α} {a : α}
    (ha : a ∈ o) (hs : sizeOf o < size) : sizeOf a < size := by
  cases ha
  simp only [Option.some.sizeOf_spec] at hs
  omega

omit h in
theorem foldStmt_agree {stmt : Stmt} (h : AlikeBelow F G scope (sizeOf stmt)) :
    Agree (Keeps scope) (foldStmt F scope stmt) (foldStmt G scope stmt) := by
  cases stmt with
  | letDecl names ty init | varDecl names ty init =>
    exact foldLocal_agree h names ty fun expr hexpr => sizeOf_lt_of_mem_option hexpr (by simp)
  | assignment target value =>
    refine (foldComptimeAssign_agree h (by simp; omega) (by simp)).bind
      fun ⟨after, result⟩ hsame => .pure hsame
  | ret value =>
    have hreturn := foldReturn_agree h fun expr (hexpr : expr ∈ value) =>
      sizeOf_lt_of_mem_option hexpr (by simp)
    exact hreturn.bind fun fold _ => .pure (.refl scope)
  | assert expr | expr expr =>
    refine (h.at_expr (by simp)).bind fun fold _ => ?_
    split <;> exact .pure (.refl scope)
  | loop kind label loopLabel iterable body =>
    exact foldLoop_agree h kind label
      (fun expr hexpr => sizeOf_lt_of_mem_option hexpr (by simp; omega)) (by simp)
  | block body | unsafeBlock body => exact h.at_stmts (by simp)
  | switch subject arms =>
    refine (Agree.refl (comptimeExprType_ends subject)).bind fun ty _ => ?_
    refine (h.at_expr (by simp; omega)).bind fun fold _ => ?_
    cases fold with
    | value value => exact foldArms_agree h value ty (by simp)
    | trap | unknown => exact .pure (.refl scope)
  | ifLet pattern value thenBlock elseBlock =>
    exact foldComptimeIfLet_agree h pattern (by simp; omega) (by simp; omega)
      fun body hbody => sizeOf_lt_of_mem_option hbody (by simp)
  | _ => exact .pure (.refl scope)

omit h in
theorem foldComptimeStmtSeq_agree (h : AlikeBelow F G scope (sizeOf body)) :
    Agree (Keeps scope) (foldComptimeStmtSeq F scope body) (foldComptimeStmtSeq G scope body) := by
  induction body generalizing scope with
  | nil => exact .pure (.refl scope)
  | cons stmt rest ih =>
    have hstmt := foldStmt_agree (h.mono (show sizeOf stmt ≤ sizeOf (stmt :: rest) by simp; omega))
    refine hstmt.bind fun ⟨after, flow⟩ hafter => ?_
    have hrest := ih ((h.mono (show sizeOf rest ≤ sizeOf (stmt :: rest) by simp)).at_scope hafter)
    cases flow with
    | fallthrough => exact hrest.mono fun result hresult => hafter.trans hresult
    | _ => exact .pure hafter

end Statements

/-! ## Tables of folders -/

/-- The size of the bodies that calls enter. -/
noncomputable def registrySize (scope : ComptimeScope) : ℕ :=
  ((scope.funcs.getD []).map fun entry => sizeOf entry.2.body).sum

/-- The calls that may still be nested. -/
def callsLeft (scope : ComptimeScope) : ℕ := comptimeCallFuel - scope.callDepth

/-- A depth within which a fold of this size ends: twice its size, and for every call that is left
twice the size of the bodies. -/
noncomputable def foldingDepth (scope : ComptimeScope) (size : ℕ) : ℕ :=
  2 * size + callsLeft scope * (2 * registrySize scope + 2)

lemma foldingDepth_of_sameRegistry (h : SameRegistry scope scope')
    (size : ℕ) : foldingDepth scope' size = foldingDepth scope size := by
  simp only [foldingDepth, callsLeft, registrySize, h.1, h.2]

variable (scope) in
lemma foldingDepth_lt {size' : ℕ} (h : size' < size) :
    foldingDepth scope size' + 2 ≤ foldingDepth scope size := by
  unfold foldingDepth
  omega

lemma sizeOf_body_lt {funcs : List (String × ComptimeFunction)} {name : String}
    {fnDecl : ComptimeFunction} (hfuncs : scope.funcs = some funcs)
    (hlookup : funcs.lookup name = some fnDecl) (hbody : fnDecl.body = some body) :
    sizeOf body < registrySize scope := by
  obtain ⟨front, back, hsplit, -⟩ := List.lookup_eq_some_iff.mp hlookup
  have hmem : (name, fnDecl) ∈ funcs := by simp [hsplit]
  have hle : sizeOf fnDecl.body ≤ registrySize scope := by
    unfold registrySize
    rw [hfuncs]
    exact List.le_sum_of_mem (List.mem_map.mpr ⟨_, hmem, rfl⟩)
  rw [hbody, Option.some.sizeOf_spec] at hle
  omega

/-- A call leaves room for the body that it enters. -/
lemma foldingDepth_call (size : ℕ)
    (hbody : sizeOf body < registrySize scope) (hdepth : scope.callDepth < comptimeCallFuel)
    (hfuncs : scope'.funcs = scope.funcs) (hdepth' : scope'.callDepth = scope.callDepth + 1) :
    foldingDepth scope' (sizeOf body) + 1 ≤ foldingDepth scope size := by
  have hleft : callsLeft scope = callsLeft scope' + 1 := by
    unfold callsLeft
    omega
  have hsize : registrySize scope' = registrySize scope := by
    unfold registrySize
    rw [hfuncs]
  unfold foldingDepth
  rw [hleft, hsize, Nat.add_mul]
  omega

lemma folders_succ (floats : FloatHost) (n : ℕ) :
    folders floats (n + 1) = callingFolders (folders floats n) := rfl

lemma folders_floats (floats : FloatHost) (n : ℕ) : (folders floats n).floats = floats := by
  induction n with
  | zero => rfl
  | succ n ih => exact ih

/-- **Deep enough tables fold alike**, and to an end. -/
theorem folders_agree (floats : FloatHost) {n m : ℕ} (hle : n ≤ m) (scope : ComptimeScope) :
    (∀ expr, foldingDepth scope (sizeOf expr) < n →
      Agree Any ((folders floats n).foldComptimeExpr scope expr)
        ((folders floats m).foldComptimeExpr scope expr)) ∧
    (∀ expr ty, foldingDepth scope (sizeOf expr) + 1 < n →
      Agree Any ((folders floats n).foldComptimeExprExpected scope expr ty)
        ((folders floats m).foldComptimeExprExpected scope expr ty)) ∧
    ∀ body, foldingDepth scope (sizeOf body) < n →
      Agree (Keeps scope) ((folders floats n).foldComptimeStmtSeq scope body)
        ((folders floats m).foldComptimeStmtSeq scope body) := by
  induction n generalizing m scope with
  | zero => exact ⟨fun _ h => absurd h (by omega), fun _ _ h => absurd h (by omega),
      fun _ h => absurd h (by omega)⟩
  | succ n ih =>
    obtain ⟨m, rfl⟩ : ∃ k, m = k + 1 := ⟨m - 1, by omega⟩
    have hle' : n ≤ m := by omega
    have hbelow : ∀ size, foldingDepth scope size < n + 1 →
        AlikeBelow (folders floats n) (folders floats m) scope size := by
      intro size hsize
      refine ⟨(folders_floats floats n).trans (folders_floats floats m).symm, ?_, ?_, ?_, ?_⟩
      · intro scope' hsame expr hexpr
        have hlt := foldingDepth_lt scope hexpr
        exact (ih hle' scope').1 expr (by rw [foldingDepth_of_sameRegistry hsame]; omega)
      · intro scope' hsame expr ty hexpr
        have hlt := foldingDepth_lt scope hexpr
        exact (ih hle' scope').2.1 expr ty (by rw [foldingDepth_of_sameRegistry hsame]; omega)
      · intro scope' hsame body hbody
        have hlt := foldingDepth_lt scope hbody
        exact (ih hle' scope').2.2 body (by rw [foldingDepth_of_sameRegistry hsame]; omega)
      · intro funcs name fnDecl body scope' hfuncs hlookup hbody hdepth hfuncs' hdepth'
        have hlt := foldingDepth_call size (sizeOf_body_lt hfuncs hlookup hbody) hdepth hfuncs'
          hdepth'
        exact ((ih hle' scope').2.2 body (by omega)).mono fun _ _ => trivial
    rw [folders_succ, folders_succ]
    refine ⟨fun expr hexpr => foldComptimeExpr_agree (hbelow _ hexpr), fun expr ty hexpr => ?_,
      fun body hbody => foldComptimeStmtSeq_agree (hbelow _ hbody)⟩
    exact foldComptimeExprExpected_agree ty (hbelow _ (by omega))
      ((ih hle' scope).1 expr (by omega))

end ModernC.Comptime
