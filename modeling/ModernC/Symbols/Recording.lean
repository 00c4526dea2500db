import Mathlib.Data.List.Induction
import ModernC.Symbols.Scopes

/-!
# What the index records

The frames of the index hold, of what is bound around an identifier, what the index keeps.  So a
walk leaves the frames as they were and records of each occurrence the innermost binding that is
kept, or else the entry of the global table.
-/

namespace ModernC.Symbols

open ModernC.Framework
open Syntax (Ident Expr TypeExpr Stmt Pattern SwitchArm StructLiteralField AsmInput LoopKind Decl
  FnDecl Param Field TraitMethodSig UnionCase declName importableName)

/-- A reference without the text about its target. -/
structure Jump where
  name : String
  span : Span
  target : Span
deriving DecidableEq

def Ref.jump (ref : Ref) : Jump := ⟨ref.name, ref.span, ref.target⟩

def Occurrence.kept (occ : Occurrence) : Option Binding :=
  innermost BindingKind.kept occ.scope occ.id.text

/-- Where the index jumps to from an occurrence. -/
def jumpTarget (globals : Table String DefInfo) (file : Option ℕ) (occ : Occurrence) :
    Option Span :=
  match occ.kept with
  | some binding => some (spanOf file binding.id)
  | none => (globals.lookup occ.id.text).map DefInfo.span

def jumpOf (globals : Table String DefInfo) (file : Option ℕ) (occ : Occurrence) : Option Jump :=
  (jumpTarget globals file occ).map fun target => ⟨occ.id.text, spanOf file occ.id, target⟩

def jumpsOf (globals : Table String DefInfo) (file : Option ℕ) (occs : List Occurrence) :
    List Jump :=
  occs.filterMap (jumpOf globals file)

/-! ## Frames and scopes -/

def Local.key (bound : Local) : String × Span := (bound.name, bound.info.span)

def Binding.key (file : Option ℕ) (binding : Binding) : String × Span :=
  (binding.id.text, spanOf file binding.id)

/-- The frames hold what is kept of the scope. -/
def Matches (file : Option ℕ) (frames : List (List Local)) (scope : List Binding) : Prop :=
  frames.flatten.map Local.key =
    (scope.filter fun binding => binding.kind.kept).map (Binding.key file)

variable {file : Option ℕ} {b b' b'' : Builder} {scope : List Binding} {occs occs' : List Occurrence}

lemma Matches.pushFrame (h : Matches file b.frames scope) :
    Matches file b.pushFrame.frames scope := h

variable {frames : List (List Local)}

/-- What is not kept leaves the frames as they are. -/
lemma Matches.unkept (h : Matches file frames scope) {binding : Binding}
    (hkept : binding.kind.kept = false) : Matches file frames (binding :: scope) := by
  rw [Matches, List.filter_cons_of_neg (by simp [hkept])]
  exact h

lemma Matches.unkept_append (h : Matches file frames scope)
    {bindings : List Binding} (hkept : ∀ binding ∈ bindings, binding.kind.kept = false) :
    Matches file frames (bindings ++ scope) := by
  induction bindings with
  | nil => exact h
  | cons binding bindings ih =>
    have hrest := ih fun other hother => hkept other (List.mem_cons_of_mem _ hother)
    exact hrest.unkept (hkept binding List.mem_cons_self)

lemma Matches.bindLoop (h : Matches file frames scope) (kind : LoopKind) (label : Option Ident) :
    Matches file frames (bindLoop scope kind label) := by
  rcases kind with _ | _
  · refine h.unkept_append fun binding hbinding => ?_
    obtain ⟨id, -, rfl⟩ := List.mem_map.mp hbinding
    rfl
  · exact h

lemma find_key {α : Type} (key : α → String × Span) (l : List α) (name : String) :
    ((l.find? fun x => (key x).1 == name).map fun x => (key x).2) =
      ((l.map key).find? fun pair => pair.1 == name).map Prod.snd := by
  rw [List.find?_map, Option.map_map]
  rfl

/-- Matching frames have a local where the scope has a binding that is kept. -/
lemma Matches.find {occ : Occurrence} (h : Matches file frames occ.scope) :
    ((frames.flatten.find? fun bound => bound.name == occ.id.text).map fun bound =>
      bound.info.span) = occ.kept.map fun binding => spanOf file binding.id := by
  have hlocals := find_key Local.key frames.flatten occ.id.text
  have hbindings := find_key (Binding.key file)
    (occ.scope.filter fun binding => binding.kind.kept) occ.id.text
  rw [← h, List.find?_filter] at hbindings
  simp only [Bool.decide_and, Bool.decide_eq_true] at hbindings
  exact hlocals.trans hbindings.symm

lemma Matches.resolve_span (occ : Occurrence) (h : Matches file b.frames occ.scope) :
    (b.resolve occ.id.text).map DefInfo.span = jumpTarget b.globals file occ := by
  have hfind := h.find
  rw [Builder.resolve, jumpTarget]
  rcases hlocal : b.frames.flatten.find? fun bound => bound.name == occ.id.text with _ | bound
  · rw [hlocal, Option.map_none, eq_comm, Option.map_eq_none_iff] at hfind
    simp only [hlocal, hfind]
  · rw [hlocal, Option.map_some, eq_comm, Option.map_eq_some_iff] at hfind
    obtain ⟨binding, hkept, hspan⟩ := hfind
    simp only [hlocal, hkept, Option.map_some, hspan]

/-! ## Walks -/

/-- A walk records the occurrences and changes nothing else but the definitions. -/
structure Records (file : Option ℕ) (b b' : Builder) (occs : List Occurrence) : Prop where
  globals : b'.globals = b.globals
  refs : b'.refs.map Ref.jump = b.refs.map Ref.jump ++ jumpsOf b.globals file occs

/-- A walk that leaves the frames as they were. -/
structure Walked (file : Option ℕ) (b b' : Builder) (occs : List Occurrence) : Prop
    extends Records file b b' occs where
  frames : b'.frames = b.frames

/-- A walk that binds names in the innermost frame. -/
structure Bound (file : Option ℕ) (b b' : Builder) (scope : List Binding)
    (occs : List Occurrence) : Prop extends Records file b b' occs where
  tail : b'.frames.tail = b.frames.tail
  nonempty : b'.frames ≠ []
  scope : Matches file b'.frames scope

lemma Records.refl : Records file b b [] := ⟨rfl, by simp [jumpsOf]⟩

lemma Records.trans (h : Records file b b' occs) (h' : Records file b' b'' occs') :
    Records file b b'' (occs ++ occs') := by
  refine ⟨h'.globals.trans h.globals, ?_⟩
  rw [h'.refs, h.refs, h.globals, jumpsOf, jumpsOf, jumpsOf, List.filterMap_append,
    List.append_assoc]

lemma Walked.refl : Walked file b b [] := ⟨Records.refl, rfl⟩

lemma Walked.trans (h : Walked file b b' occs) (h' : Walked file b' b'' occs') :
    Walked file b b'' (occs ++ occs') :=
  ⟨h.toRecords.trans h'.toRecords, h'.frames.trans h.frames⟩

lemma Walked.matches (h : Walked file b b' occs) (hm : Matches file b.frames scope) :
    Matches file b'.frames scope :=
  h.frames ▸ hm

lemma Bound.popFrame {frame : List Local}
    (hframes : b.frames = frame :: frames) (h : Bound file b b' scope occs)
    {base : Builder} (hbase : base.frames = frames) (hglobals : b.globals = base.globals)
    (hrefs : b.refs = base.refs) : Walked file base b'.popFrame occs := by
  refine ⟨⟨h.globals.trans hglobals, ?_⟩, ?_⟩
  · show b'.refs.map Ref.jump = _
    rw [h.refs, hrefs, hglobals]
  · show b'.frames.tail = base.frames
    rw [h.tail, hframes, hbase, List.tail_cons]

/-- What is walked in a frame of its own. -/
lemma Bound.pushed (h : Bound file b.pushFrame b' scope occs) : Walked file b b'.popFrame occs :=
  Bound.popFrame rfl h rfl rfl rfl

lemma Walked.bound (h : Walked file b b' occs) (hne : b.frames ≠ [])
    (hm : Matches file b.frames scope) : Bound file b b' scope occs :=
  ⟨h.toRecords, by rw [h.frames], h.frames ▸ hne, h.matches hm⟩

lemma Bound.trans {scope' : List Binding} (h : Bound file b b' scope occs)
    (h' : Bound file b' b'' scope' occs') : Bound file b b'' scope' (occs ++ occs') :=
  ⟨h.toRecords.trans h'.toRecords, h'.tail.trans h.tail, h'.nonempty, h'.scope⟩

lemma addRef_walked (id : Ident) (space : NameSpace) (h : Matches file b.frames scope) :
    Walked file b (b.addRef file id) [⟨id, space, scope⟩] := by
  have hresolve : (b.resolve id.text).map DefInfo.span =
      jumpTarget b.globals file ⟨id, space, scope⟩ := Matches.resolve_span ⟨id, space, scope⟩ h
  rw [Builder.addRef]
  rcases hinfo : b.resolve id.text with _ | info
  · rw [hinfo, Option.map_none] at hresolve
    refine ⟨⟨rfl, ?_⟩, rfl⟩
    simp [jumpsOf, jumpOf, ← hresolve]
  · rw [hinfo, Option.map_some] at hresolve
    refine ⟨⟨rfl, ?_⟩, rfl⟩
    simp [jumpsOf, jumpOf, ← hresolve, Ref.jump]

lemma bindLocal_bound (name : Ident) (kind ty : String) {binding : BindingKind}
    (hkept : binding.kept = true) (hne : b.frames ≠ []) (h : Matches file b.frames scope) :
    Bound file b (b.bindLocal file name kind ty) (⟨name, binding⟩ :: scope) [] := by
  obtain ⟨top, frames, hframes⟩ := List.exists_cons_of_ne_nil hne
  have hbind : (b.bindLocal file name kind ty).frames =
      (⟨name.text, spanOf file name, kind, ty⟩ :: top) :: frames := by
    simp only [Builder.bindLocal, Builder.pushLocal, Builder.addDef, hframes]
  have hrest : (b.bindLocal file name kind ty).globals = b.globals ∧
      (b.bindLocal file name kind ty).refs = b.refs := by
    simp only [Builder.bindLocal, Builder.pushLocal, Builder.addDef, hframes, and_self]
  refine ⟨⟨hrest.1, by simp [hrest.2, jumpsOf]⟩, ?_, ?_, ?_⟩
  · rw [hbind, hframes, List.tail_cons, List.tail_cons]
  · rw [hbind]
    exact List.cons_ne_nil _ _
  · rw [Matches, hbind, List.filter_cons_of_pos (by simp [hkept]), List.map_cons, ← h, hframes]
    rfl

lemma bindLocals_bound (names : List Ident) (kind ty : String) (hne : b.frames ≠ [])
    (h : Matches file b.frames scope) :
    Bound file b (b.bindLocals file names kind ty) (bindNames scope names) [] := by
  induction names generalizing b scope with
  | nil => exact Walked.refl.bound hne h
  | cons name names ih =>
    have hfirst : Bound file b (b.bindLocal file name kind ty) (⟨name, .localName⟩ :: scope) [] :=
      bindLocal_bound name kind ty rfl hne h
    have hrest := ih hfirst.nonempty hfirst.scope
    exact hfirst.trans hrest

/-! ## Types and expressions -/

open Builder

mutual

theorem walkTypeRefs_walked : ∀ (ty : TypeExpr) {b : Builder} {scope : List Binding},
    Matches file b.frames scope → Walked file b (b.walkTypeRefs file ty) (typeOccurrences scope ty)
  | .name _, _, _, h | .dynTrait _ _, _, _, h => addRef_walked _ .type h
  | .enumLiteral _, _, _, _ => Walked.refl
  | .member base _, _, _, h | .nullable base, _, _, h | .qualified _ base, _, _, h
  | .pointer _ base, _, _, h | .rawManyPointer _ base, _, _, h | .slice _ base, _, _, h
  | .array _ base, _, _, h => walkTypeRefs_walked base h
  | .generic base args, _, _, h => by
    have hbase := addRef_walked base .type h
    exact hbase.trans (walkTypesRefs_walked args (hbase.matches h))
  | .fnPointer params ret, _, _, h | .closureType params ret, _, _, h => by
    have hparams := walkTypesRefs_walked params h
    exact hparams.trans (walkTypeRefs_walked ret (hparams.matches h))

theorem walkTypesRefs_walked : ∀ (tys : List TypeExpr) {b : Builder} {scope : List Binding},
    Matches file b.frames scope →
      Walked file b (b.walkTypesRefs file tys) (typesOccurrences scope tys)
  | [], _, _, _ => Walked.refl
  | ty :: tys, _, _, h => by
    have hty := walkTypeRefs_walked ty h
    exact hty.trans (walkTypesRefs_walked tys (hty.matches h))

end

lemma walkOptTypeRefs_walked (ty : Option TypeExpr) (h : Matches file b.frames scope) :
    Walked file b (b.walkOptTypeRefs file ty) (optTypeOccurrences scope ty) := by
  rcases ty with _ | ty
  · exact Walked.refl
  · exact walkTypeRefs_walked ty h

mutual

theorem walkExpr_walked : ∀ (expr : Expr) {b : Builder} {scope : List Binding},
    Matches file b.frames scope → Walked file b (b.walkExpr file expr) (exprOccurrences scope expr)
  | .ident _, _, _, h => addRef_walked _ .value h
  | .grouped inner, _, _, h | .unary _ inner, _, _, h | .addressOf inner, _, _, h
  | .deref inner, _, _, h | .member inner _, _, _, h => walkExpr_walked inner h
  | .binary _ left right, _, _, h | .index left right, _, _, h => by
    have hleft := walkExpr_walked left h
    exact hleft.trans (walkExpr_walked right (hleft.matches h))
  | .cast value ty, _, _, h => by
    have hvalue := walkExpr_walked value h
    exact hvalue.trans (walkTypeRefs_walked ty (hvalue.matches h))
  | .call callee typeArgs args, _, _, h => by
    have hcallee := walkExpr_walked callee h
    have htypes := hcallee.trans (walkTypesRefs_walked typeArgs (hcallee.matches h))
    exact htypes.trans (walkExprs_walked args (htypes.matches h))
  | .slice base start stop, _, _, h => by
    have hbase := walkExpr_walked base h
    have hstart := hbase.trans (walkExpr_walked start (hbase.matches h))
    exact hstart.trans (walkExpr_walked stop (hstart.matches h))
  | .tryExpr operand mapped, _, _, h => by
    have hoperand := walkExpr_walked operand h
    exact hoperand.trans (walkOptExpr_walked mapped (hoperand.matches h))
  | .arrayLiteral items, _, _, h => walkExprs_walked items h
  | .structLiteral fields, _, _, h => walkFields_walked fields h
  | .block body, _, _, h => walkBlock_walked body h
  | .intLiteral _, _, _, _ | .floatLiteral _, _, _, _ | .stringLiteral _, _, _, _
  | .charLiteral _, _, _, _ | .boolLiteral _, _, _, _ | .nullLiteral, _, _, _
  | .uninitLiteral, _, _, _ | .unreachableExpr, _, _, _ | .voidLiteral, _, _, _
  | .enumLiteral _, _, _, _ | .moveExpr _, _, _, _ | .borrowExpr _ _, _, _, _ => Walked.refl

theorem walkExprs_walked : ∀ (exprs : List Expr) {b : Builder} {scope : List Binding},
    Matches file b.frames scope →
      Walked file b (b.walkExprs file exprs) (exprsOccurrences scope exprs)
  | [], _, _, _ => Walked.refl
  | expr :: exprs, _, _, h => by
    have hexpr := walkExpr_walked expr h
    exact hexpr.trans (walkExprs_walked exprs (hexpr.matches h))

theorem walkOptExpr_walked : ∀ (expr : Option Expr) {b : Builder} {scope : List Binding},
    Matches file b.frames scope →
      Walked file b (b.walkOptExpr file expr) (optExprOccurrences scope expr)
  | none, _, _, _ => Walked.refl
  | some expr, _, _, h => walkExpr_walked expr h

theorem walkFields_walked : ∀ (fields : List StructLiteralField) {b : Builder}
    {scope : List Binding}, Matches file b.frames scope →
      Walked file b (b.walkFields file fields) (fieldsOccurrences scope fields)
  | [], _, _, _ => Walked.refl
  | .mk _ value :: fields, _, _, h => by
    have hvalue := walkExpr_walked value h
    exact hvalue.trans (walkFields_walked fields (hvalue.matches h))

theorem bindPattern_bound : ∀ (pattern : Pattern) {b : Builder} {scope : List Binding},
    b.frames ≠ [] → Matches file b.frames scope →
      Bound file b (b.bindPattern file pattern) (bindPattern scope pattern)
        (patternOccurrences scope pattern)
  | .bind _, _, _, hne, h | .tagBind _ _, _, _, hne, h => bindLocal_bound _ _ _ rfl hne h
  | .literal expr, _, _, hne, h => (walkExpr_walked expr h).bound hne h
  | .tag _, _, _, hne, h | .wildcard, _, _, hne, h => Walked.refl.bound hne h

theorem bindPatterns_bound : ∀ (patterns : List Pattern) {b : Builder} {scope : List Binding},
    b.frames ≠ [] → Matches file b.frames scope →
      Bound file b (b.bindPatterns file patterns) (bindPatterns scope patterns)
        (patternsOccurrences scope patterns)
  | [], _, _, hne, h => Walked.refl.bound hne h
  | pattern :: patterns, _, _, hne, h => by
    have hpattern := bindPattern_bound pattern hne h
    exact hpattern.trans (bindPatterns_bound patterns hpattern.nonempty hpattern.scope)

theorem walkStmt_bound : ∀ (stmt : Stmt) {b : Builder} {scope : List Binding},
    b.frames ≠ [] → Matches file b.frames scope →
      Bound file b (b.walkStmt file stmt) (bindStmt scope stmt) (stmtOccurrences scope stmt)
  | .letDecl names ty init, b, scope, hne, h => by
    have hinit := walkOptExpr_walked init h
    have hty := hinit.trans (walkOptTypeRefs_walked ty (hinit.matches h))
    have hbound := hty.bound hne h
    have hnames := hbound.trans (bindLocals_bound names "local" (renderTypeOpt ty) hbound.nonempty hbound.scope)
    rw [List.append_nil] at hnames
    exact hnames
  | .varDecl names ty init, b, scope, hne, h => by
    have hinit := walkOptExpr_walked init h
    have hty := hinit.trans (walkOptTypeRefs_walked ty (hinit.matches h))
    have hbound := hty.bound hne h
    have hnames := hbound.trans (bindLocals_bound names "local_mut" (renderTypeOpt ty) hbound.nonempty hbound.scope)
    rw [List.append_nil] at hnames
    exact hnames
  | .loop kind label _ iterable body, _, _, hne, h => by
    have hiterable := walkOptExpr_walked iterable h
    have hbody := walkBlock_walked body ((hiterable.matches h).bindLoop kind label)
    exact (hiterable.trans hbody).bound hne h
  | .ifLet pattern value thenBlock elseBlock, b, _, hne, h => by
    have hvalue := walkExpr_walked value h
    have hpattern := bindPattern_bound pattern (b := (b.walkExpr file value).pushFrame)
      (List.cons_ne_nil _ _) (hvalue.matches h)
    have hthen := (walkBlock_walked thenBlock hpattern.scope).bound hpattern.nonempty hpattern.scope
    have harm := hvalue.trans (hpattern.trans hthen).pushed
    have helse := harm.trans (walkOptBlock_walked elseBlock (harm.matches h))
    rw [← List.append_assoc] at helse
    exact helse.bound hne h
  | .switch subject arms, _, _, hne, h => by
    have hsubject := walkExpr_walked subject h
    exact (hsubject.trans (walkArms_walked arms (hsubject.matches h))).bound hne h
  | .unsafeBlock body, _, _, hne, h | .comptimeBlock body, _, _, hne, h
  | .block body, _, _, hne, h | .contractBlock _ body, _, _, hne, h => (walkBlock_walked body h).bound hne h
  | .asmStmt _ _ _ _ _ inputs, _, _, hne, h => (walkInputs_walked inputs h).bound hne h
  | .ret value, _, _, hne, h => (walkOptExpr_walked value h).bound hne h
  | .defer expr, _, _, hne, h | .assert expr, _, _, hne, h | .expr expr, _, _, hne, h => (walkExpr_walked expr h).bound hne h
  | .assignment target value, _, _, hne, h => by
    have htarget := walkExpr_walked target h
    exact (htarget.trans (walkExpr_walked value (htarget.matches h))).bound hne h
  | .break _, _, _, hne, h | .continue _, _, _, hne, h => Walked.refl.bound hne h

theorem walkStmts_bound : ∀ (stmts : List Stmt) {b : Builder} {scope : List Binding},
    b.frames ≠ [] → Matches file b.frames scope →
      ∃ scope', Bound file b (b.walkStmts file stmts) scope' (blockOccurrences scope stmts)
  | [], _, scope, hne, h => ⟨scope, Walked.refl.bound hne h⟩
  | stmt :: stmts, _, _, hne, h => by
    have hstmt := walkStmt_bound stmt hne h
    obtain ⟨scope', hstmts⟩ := walkStmts_bound stmts hstmt.nonempty hstmt.scope
    exact ⟨scope', hstmt.trans hstmts⟩

theorem walkBlock_walked : ∀ (body : List Stmt) {b : Builder} {scope : List Binding},
    Matches file b.frames scope → Walked file b (b.walkBlock file body) (blockOccurrences scope body)
  | [], _, _, _ => Walked.refl
  | stmt :: stmts, b, _, h => by
    have hstmt := walkStmt_bound stmt (b := b.pushFrame) (List.cons_ne_nil _ _) h.pushFrame
    obtain ⟨scope', hstmts⟩ := walkStmts_bound stmts hstmt.nonempty hstmt.scope
    exact (hstmt.trans hstmts).pushed

theorem walkOptBlock_walked : ∀ (body : Option (List Stmt)) {b : Builder} {scope : List Binding},
    Matches file b.frames scope →
      Walked file b (b.walkOptBlock file body) (optBlockOccurrences scope body)
  | none, _, _, _ => Walked.refl
  | some body, _, _, h => walkBlock_walked body h

theorem walkArms_walked : ∀ (arms : List SwitchArm) {b : Builder} {scope : List Binding},
    Matches file b.frames scope → Walked file b (b.walkArms file arms) (armsOccurrences scope arms)
  | [], _, _, _ => Walked.refl
  | .block patterns body _ :: arms, b, _, h => by
    have hpatterns := bindPatterns_bound patterns (b := b.pushFrame) (List.cons_ne_nil _ _)
      h.pushFrame
    have hbody := (walkBlock_walked body hpatterns.scope).bound hpatterns.nonempty hpatterns.scope
    have harm := (hpatterns.trans hbody).pushed
    exact harm.trans (walkArms_walked arms (harm.matches h))
  | .expr patterns body _ :: arms, b, _, h => by
    have hpatterns := bindPatterns_bound patterns (b := b.pushFrame) (List.cons_ne_nil _ _)
      h.pushFrame
    have hbody := (walkExpr_walked body hpatterns.scope).bound hpatterns.nonempty hpatterns.scope
    have harm := (hpatterns.trans hbody).pushed
    exact harm.trans (walkArms_walked arms (harm.matches h))

theorem walkInputs_walked : ∀ (inputs : List AsmInput) {b : Builder} {scope : List Binding},
    Matches file b.frames scope →
      Walked file b (b.walkInputs file inputs) (inputsOccurrences scope inputs)
  | [], _, _, _ => Walked.refl
  | .mk _ value _ :: inputs, _, _, h => by
    have hvalue := walkExpr_walked value h
    exact hvalue.trans (walkInputs_walked inputs (hvalue.matches h))

end

/-! ## Declarations -/

/-- The global table and the definitions after the first pass. -/
def collected (decls : List Decl) : Builder := decls.foldl collectDecl {}

/-- The first pass over a declaration of the name: only definitions, fields and the table change,
and the table at the name. -/
structure Collects (name : Ident) (file : Option ℕ) (b b' : Builder) : Prop where
  frames : b'.frames = b.frames
  refs : b'.refs = b.refs
  globals : ∀ text, (b'.globals.lookup text).map DefInfo.span =
    if name.text = text then some (spanOf file name) else (b.globals.lookup text).map DefInfo.span

lemma Collects.collectFields {name : Ident} (h : Collects name file b b') (owner : Ident)
    (ownerKind : String) (fields : List Field) :
    Collects name file b (b'.collectFields file owner ownerKind fields) := by
  rw [Builder.collectFields]
  induction fields generalizing b' with
  | nil => exact h
  | cons field fields ih => exact ih ⟨h.frames, h.refs, h.globals⟩

/-- The last declaration of a name. -/
def lastDecl (decls : List Decl) (name : String) : Option Decl :=
  decls.reverse.find? fun decl => decide (importableName decl = some name)

end ModernC.Symbols
