import ModernC.Layout.Reflection
import ModernC.Types.Resolution

/-!
# Optionals in the layers

The C emitter reads a nullable type off its syntax and off the table of signature types, the checker
classifies it, and the reflection lays it out.  Each of them follows aliases on its own.
-/

namespace ModernC.Optionals

open Framework (Table)
open Layout (Decls alignForward comptimeLayoutAdd)
open Syntax (Expr Ident Mutability TypeExpr)
open Types

/-! ## Signature types -/

/-- `mir.TypeShape`, whose children are numbers of shapes. -/
inductive TypeShape where
  | name (text : String)
  | enumLiteral (text : String)
  | member (base : ℕ) (field : String)
  | nullable (child : ℕ)
  | qualified (mutability : Mutability) (child : ℕ)
  | pointer (mutability : Mutability) (child : ℕ)
  | rawManyPointer (mutability : Mutability) (child : ℕ)
  | slice (mutability : Mutability) (child : ℕ)
  | array (length : Option ℕ) (child : ℕ)
  | generic (base : String) (args : List ℕ)
  | fnPointer (params : List ℕ) (ret : ℕ)
  | closureType (params : List ℕ) (ret : ℕ)
  | dynTrait (mutability : Mutability) (traitName : String)

def TypeShape.children : TypeShape → List ℕ
  | .name _ | .enumLiteral _ | .dynTrait _ _ => []
  | .member child _ | .nullable child | .qualified _ child | .pointer _ child
  | .rawManyPointer _ child | .slice _ child | .array _ child => [child]
  | .generic _ args => args
  | .fnPointer params ret | .closureType params ret => ret :: params

/-- The number that `internTypeExpr` gives to a type. -/
inductive Interned (shapes : List TypeShape) : ℕ → TypeExpr → Prop
  | name {n : ℕ} {id : Ident} : shapes[n]? = some (.name id.text) → Interned shapes n (.name id)
  | enumLiteral {n : ℕ} {id : Ident} :
      shapes[n]? = some (.enumLiteral id.text) → Interned shapes n (.enumLiteral id)
  | member {n child : ℕ} {base : TypeExpr} {field : Ident} :
      shapes[n]? = some (.member child field.text) → Interned shapes child base →
      Interned shapes n (.member base field)
  | nullable {n child : ℕ} {ty : TypeExpr} :
      shapes[n]? = some (.nullable child) → Interned shapes child ty →
      Interned shapes n (.nullable ty)
  | qualified {n child : ℕ} {mutability : Mutability} {ty : TypeExpr} :
      shapes[n]? = some (.qualified mutability child) → Interned shapes child ty →
      Interned shapes n (.qualified mutability ty)
  | pointer {n child : ℕ} {mutability : Mutability} {ty : TypeExpr} :
      shapes[n]? = some (.pointer mutability child) → Interned shapes child ty →
      Interned shapes n (.pointer mutability ty)
  | rawManyPointer {n child : ℕ} {mutability : Mutability} {ty : TypeExpr} :
      shapes[n]? = some (.rawManyPointer mutability child) → Interned shapes child ty →
      Interned shapes n (.rawManyPointer mutability ty)
  | slice {n child : ℕ} {mutability : Mutability} {ty : TypeExpr} :
      shapes[n]? = some (.slice mutability child) → Interned shapes child ty →
      Interned shapes n (.slice mutability ty)
  | array {n child : ℕ} {length : Option ℕ} {len : Expr} {ty : TypeExpr} :
      shapes[n]? = some (.array length child) → Interned shapes child ty →
      Interned shapes n (.array len ty)
  | generic {n : ℕ} {base : Ident} {ids : List ℕ} {args : List TypeExpr} :
      shapes[n]? = some (.generic base.text ids) → List.Forall₂ (Interned shapes) ids args →
      Interned shapes n (.generic base args)
  | fnPointer {n child : ℕ} {ids : List ℕ} {params : List TypeExpr} {ret : TypeExpr} :
      shapes[n]? = some (.fnPointer ids child) → List.Forall₂ (Interned shapes) ids params →
      Interned shapes child ret → Interned shapes n (.fnPointer params ret)
  | closureType {n child : ℕ} {ids : List ℕ} {params : List TypeExpr} {ret : TypeExpr} :
      shapes[n]? = some (.closureType ids child) → List.Forall₂ (Interned shapes) ids params →
      Interned shapes child ret → Interned shapes n (.closureType params ret)
  | dynTrait {n : ℕ} {mutability : Mutability} {traitName : Ident} :
      shapes[n]? = some (.dynTrait mutability traitName.text) →
      Interned shapes n (.dynTrait mutability traitName)

/-- **A module** as the layers see it.  The children of a shape are interned before it, and the
emitter and the reflection know the aliases of the checker. -/
structure Module where
  tables : NameTables
  decls : Decls
  comptime : Expr → Option ℕ
  shapes : List TypeShape
  -- the target of a `TypeAliasFact`
  aliasTarget : String → Option ℕ
  ordered : ∀ {n : ℕ} {shape : TypeShape}, shapes[n]? = some shape →
    ∀ child ∈ shape.children, child < n
  aliasTarget_none : ∀ {name}, tables.aliases.lookup name = none → aliasTarget name = none
  aliasTarget_some : ∀ {name ty}, tables.aliases.lookup name = some ty →
    ∃ n, aliasTarget name = some n ∧ Interned shapes n ty
  decls_alias : ∀ {name ty},
    decls name = some (.alias_ ty) ↔ tables.checkerAliases name = some ty

/-! ## The emitter on syntax -/

section Syntax

variable (tables : NameTables)

def aliasTargetType : TypeExpr → Option TypeExpr
  | .name id =>
    match tables.aliases.lookup id.text with
    | none => none
    | some target => if typeName target = some id.text then none else some target
  | .qualified _ child => aliasTargetType child
  | _ => none

lemma aliasTargetType_level {ty target : TypeExpr} (h : aliasTargetType tables ty = some target) :
    tables.level target < tables.level ty := by
  fun_induction aliasTargetType tables ty with
  | case1 | case2 => exact absurd h nofun
  | case3 id target' halias hother =>
    obtain rfl := Option.some.inj h
    exact NameTables.level_alias_lt (List.mem_singleton.mpr rfl) halias
  | case4 mutability child ih => exact ih h
  | case5 => exact absurd h nofun

def nullablePayloadIsValueType (child : TypeExpr) : Bool :=
  match _hresolved : (aliasTargetType tables child).getD child with
  | .name id => id.text != "c_void"
  | .qualified _ inner => nullablePayloadIsValueType inner
  | _ => false
termination_by (tables.level child, sizeOf child)
decreasing_by
  have hresolved := _hresolved
  rcases htarget : aliasTargetType tables child with _ | target
  · rw [htarget, Option.getD_none] at hresolved
    rw [hresolved]
    exact Prod.Lex.right _ (NameTables.sizeOf_qualified_lt _ _)
  · rw [htarget, Option.getD_some] at hresolved
    have hlevel := aliasTargetType_level tables htarget
    rw [hresolved] at hlevel
    exact Prod.Lex.left _ _ hlevel

end Syntax

/-! ## The emitter on signature types -/

namespace Module

variable (m : Module)

def signatureTypeSpelling (n : ℕ) : Option String :=
  match _ : m.shapes[n]? with
  | some (.name text) => some text
  | some (.qualified _ child) => signatureTypeSpelling child
  | _ => none
termination_by n
decreasing_by exact m.ordered ‹_› _ (by simp [TypeShape.children])

def signatureAliasTarget (n : ℕ) : Option ℕ :=
  match _ : m.shapes[n]? with
  | some (.name text) =>
    match m.aliasTarget text with
    | none => none
    | some target => if m.signatureTypeSpelling target = some text then none else some target
  | some (.qualified _ child) => signatureAliasTarget child
  | _ => none
termination_by n
decreasing_by exact m.ordered ‹_› _ (by simp [TypeShape.children])

/-! ### The measure of the walk -/

/-- One more than the rank of the alias that a signature type names. -/
def spellingLevel (n : ℕ) : ℕ :=
  match m.signatureTypeSpelling n with
  | none => 0
  | some name => if (m.tables.aliases.lookup name).isSome then m.tables.rank name + 1 else 0

variable {m}

variable {n : ℕ}

lemma signatureTypeSpelling_name {text : String} (h : m.shapes[n]? = some (.name text)) :
    m.signatureTypeSpelling n = some text := by
  rw [signatureTypeSpelling]
  split
  · next heq => rw [h] at heq; cases heq; rfl
  · next heq => rw [h] at heq; cases heq
  · next hname _ => exact absurd h (hname text)

lemma signatureTypeSpelling_qualified {child : ℕ} {mutability : Mutability}
    (h : m.shapes[n]? = some (.qualified mutability child)) :
    m.signatureTypeSpelling n = m.signatureTypeSpelling child := by
  rw [signatureTypeSpelling]
  split
  · next heq => rw [h] at heq; cases heq
  · next heq => rw [h] at heq; cases heq; rfl
  · next _ hqualified => exact absurd h (hqualified mutability child)

lemma signatureTypeSpelling_other (hname : ∀ text, m.shapes[n]? ≠ some (.name text))
    (hqualified : ∀ mutability child, m.shapes[n]? ≠ some (.qualified mutability child)) :
    m.signatureTypeSpelling n = none := by
  rw [signatureTypeSpelling]
  split
  · next heq => exact absurd heq (hname _)
  · next heq => exact absurd heq (hqualified _ _)
  · rfl

/-- A signature type is spelled as the type that it is interned for. -/
lemma signatureTypeSpelling_eq {ty : TypeExpr} (h : Interned m.shapes n ty) :
    m.signatureTypeSpelling n = typeName ty := by
  fun_induction typeName ty generalizing n with
  | case1 id =>
    cases h with
    | name hshape => exact signatureTypeSpelling_name hshape
  | case2 mutability child ih =>
    cases h with
    | qualified hshape hchild => rw [signatureTypeSpelling_qualified hshape, ih hchild]
  | case3 ty hname hqualified =>
    apply signatureTypeSpelling_other
    · intro text hshape
      cases h with
      | name => exact hname _ rfl
      | qualified => exact hqualified _ _ rfl
      | _ => simp_all
    · intro mutability child hshape
      cases h with
      | name => exact hname _ rfl
      | qualified => exact hqualified _ _ rfl
      | _ => simp_all

lemma spellingLevel_qualified {child : ℕ} {mutability : Mutability}
    (h : m.shapes[n]? = some (.qualified mutability child)) :
    m.spellingLevel n = m.spellingLevel child := by
  rw [spellingLevel, spellingLevel, signatureTypeSpelling_qualified h]

/-- Following an alias lowers the level. -/
lemma signatureAliasTarget_level {target : ℕ} (h : m.signatureAliasTarget n = some target) :
    m.spellingLevel target < m.spellingLevel n := by
  fun_induction signatureAliasTarget m n with
  | case1 | case2 => exact absurd h nofun
  | case3 n text hshape target' htarget hother =>
    obtain rfl := Option.some.inj h
    rcases halias : m.tables.aliases.lookup text with _ | ty
    · exact nomatch htarget.symm.trans (m.aliasTarget_none halias)
    · obtain ⟨n', hn', hinterned⟩ := m.aliasTarget_some halias
      obtain rfl := Option.some.inj (htarget.symm.trans hn')
      rw [spellingLevel, spellingLevel, signatureTypeSpelling_name hshape,
        signatureTypeSpelling_eq hinterned]
      dsimp only
      rw [halias, if_pos Option.isSome_some]
      rcases hname : typeName ty with _ | name
      · exact Nat.succ_pos _
      · dsimp only
        split
        · next hsome =>
          have hfollowed := NameTables.typeName_mem_followedNames hname
          have hrank := m.tables.rank_lt halias name hfollowed hsome
          omega
        · exact Nat.succ_pos _
  | case4 n mutability child hshape ih =>
    rw [spellingLevel_qualified hshape]
    exact ih h
  | case5 => exact absurd h nofun

variable (m) in
def signatureNullablePayloadIsValueType (child : ℕ) : Bool :=
  match _hresolved : m.shapes[(m.signatureAliasTarget child).getD child]? with
  | some (.name text) => text != "c_void"
  | some (.qualified _ inner) => signatureNullablePayloadIsValueType inner
  | _ => false
termination_by (m.spellingLevel child, child)
decreasing_by
  have hresolved := _hresolved
  have hlevel := spellingLevel_qualified hresolved
  rcases htarget : m.signatureAliasTarget child with _ | target
  · rw [htarget, Option.getD_none] at hresolved hlevel
    rw [← hlevel]
    exact Prod.Lex.right _ (m.ordered hresolved _ (by simp [TypeShape.children]))
  · rw [htarget, Option.getD_some] at hlevel
    exact Prod.Lex.left _ _ (hlevel ▸ signatureAliasTarget_level htarget)

end Module

/-! ## The representation that a layer picks -/

/-- What a nullable type is appended as: the tagged `mc_opt` aggregate around the payload, or what
the payload itself is appended as. -/
inductive Rendering (α : Type) where
  | opt (payload : α)
  | bare (payload : α)

/-- The tagged aggregate, or the null sentinel of the payload. -/
inductive Representation where
  | tagged
  | niche
deriving DecidableEq

def Rendering.representation {α : Type} : Rendering α → Representation
  | .opt _ => .tagged
  | .bare _ => .niche

/-- The classes of nullable types that the checker knows. -/
def classRepresentation : TypeClass → Option Representation
  | .nullableValue => some .tagged
  | .nullablePointer | .nullableCVoidPointer | .nullableDynTrait => some .niche
  | _ => none

structure ComptimeOptionalLayout where
  size : ℤ
  alignment : ℤ
  payloadOffset : ℤ
deriving DecidableEq

/-- Nothing stands before the payload of a niche. -/
def ComptimeOptionalLayout.representation (layout : ComptimeOptionalLayout) : Representation :=
  if layout.payloadOffset = 0 then .niche else .tagged

/-- `comptimeTaggedOptionalLayout`: a presence byte, then the payload. -/
def comptimeTaggedOptionalLayout (size alignment : ℤ) : Option ComptimeOptionalLayout :=
  if size < 0 ∨ alignment ≤ 0 then none
  else do
    let payloadOffset ← alignForward 1 alignment
    let stop ← comptimeLayoutAdd payloadOffset size
    let size ← alignForward stop alignment
    some ⟨size, alignment, payloadOffset⟩

/-- The branches of `comptimeNullableLayout`, for a child that is resolved. -/
def resolvedLayout (sizeOf alignOf : TypeExpr → Option ℤ) :
    TypeExpr → Option ComptimeOptionalLayout
  | .pointer _ _ | .rawManyPointer _ _ | .fnPointer _ _ => some ⟨8, 8, 0⟩
  | .dynTrait _ _ => some ⟨16, 8, 0⟩
  | .name id =>
    if id.text = "c_void" then none
    else do
      let size ← sizeOf (.name id)
      let alignment ← alignOf (.name id)
      comptimeTaggedOptionalLayout size alignment
  | _ => none

namespace Module

variable (m : Module)

/-- The nullable arm of `appendType`. -/
def appendNullable (child : TypeExpr) : Rendering TypeExpr :=
  if nullablePayloadIsValueType m.tables child then .opt child else .bare child

/-- The nullable arm of `appendSignatureType`. -/
def appendSignatureNullable (child : ℕ) : Rendering ℕ :=
  if m.signatureNullablePayloadIsValueType child then .opt child else .bare child

/-- The layout of a nullable type that stands at a depth of the reflection. -/
def comptimeNullableLayout (child : TypeExpr) (depth : ℕ) : Option ComptimeOptionalLayout :=
  resolvedLayout (fun ty => Layout.Sema.comptimeSizeOf m.decls m.comptime ty (depth + 1))
    (fun ty => Layout.Sema.comptimeAlignOf m.decls m.comptime ty (depth + 1))
    (Layout.Sema.resolveReflectionAlias m.decls child 65)

end Module

end ModernC.Optionals

/-!
## The two paths of the emitter

The emitter decides about an optional on the syntax of its payload as on the signature type.  It
finds the head of the payload unless it stops at the bare name of another alias.
-/

namespace ModernC.Optionals

open Syntax (Ident Mutability TypeExpr)
open Types

/-! ## The emitter on syntax -/

section Syntax

variable {tables : NameTables}

/-- What the walk does at the type that it has resolved. -/
def payloadAt (tables : NameTables) : TypeExpr → Bool
  | .name id => id.text != "c_void"
  | .qualified _ inner => nullablePayloadIsValueType tables inner
  | _ => false

lemma nullablePayloadIsValueType_eq (child : TypeExpr) :
    nullablePayloadIsValueType tables child =
      payloadAt tables ((aliasTargetType tables child).getD child) := by
  rw [nullablePayloadIsValueType]
  split
  · next hresolved => rw [hresolved]; rfl
  · next hresolved => rw [hresolved]; rfl
  · next hname hqualified =>
    generalize (aliasTargetType tables child).getD child = resolved at hname hqualified
    cases resolved with
    | name id => exact absurd rfl (hname id)
    | qualified mutability inner => exact absurd rfl (hqualified mutability inner)
    | _ => rfl

@[simp] lemma nullablePayloadIsValueType_qualified (mutability : Mutability) (child : TypeExpr) :
    nullablePayloadIsValueType tables (.qualified mutability child) =
      nullablePayloadIsValueType tables child := by
  rw [nullablePayloadIsValueType_eq, nullablePayloadIsValueType_eq, aliasTargetType]
  rcases htarget : aliasTargetType tables child with _ | target
  · rw [Option.getD_none, Option.getD_none, payloadAt, nullablePayloadIsValueType_eq, htarget]
    rfl
  · rfl

/-- The target of an alias is the bare name of a type. -/
def IsBareName : TypeExpr → Prop
  | .name _ => True
  | _ => False

variable {id : Ident}

lemma nullablePayloadIsValueType_alias {target : TypeExpr}
    (h : tables.aliases.lookup id.text = some target) (hbare : ¬IsBareName target) :
    nullablePayloadIsValueType tables (.name id) = nullablePayloadIsValueType tables target := by
  have htarget : aliasTargetType tables (.name id) = some target := by
    rw [aliasTargetType, h]
    exact if_neg (NameTables.typeName_target_ne h)
  rw [nullablePayloadIsValueType_eq, htarget, Option.getD_some]
  cases target with
  | name => exact absurd trivial hbare
  | qualified mutability inner => exact (nullablePayloadIsValueType_qualified mutability inner).symm
  | _ =>
    rw [nullablePayloadIsValueType_eq]
    rfl

lemma nullablePayloadIsValueType_bareName {next : Ident}
    (h : tables.aliases.lookup id.text = some (.name next)) :
    nullablePayloadIsValueType tables (.name id) = (next.text != "c_void") := by
  have htarget : aliasTargetType tables (.name id) = some (.name next) := by
    rw [aliasTargetType, h]
    exact if_neg (NameTables.typeName_target_ne h)
  rw [nullablePayloadIsValueType_eq, htarget]
  rfl

lemma nullablePayloadIsValueType_head {ty : TypeExpr} (h : tables.IsHead ty) :
    nullablePayloadIsValueType tables ty = payloadAt tables ty := by
  have htarget : aliasTargetType tables ty = none := by
    cases ty with
    | name id =>
      have hnone : tables.aliases.lookup id.text = none := h
      rw [aliasTargetType, hnone]
    | qualified => exact h.elim
    | _ => rfl
  rw [nullablePayloadIsValueType_eq, htarget, Option.getD_none]

/-- An alias on the way to the head of the type stands for the bare name of a type. -/
def BareStep (tables : NameTables) (ty : TypeExpr) : Prop :=
  ∃ name ∈ tables.aliasChain ty, ∃ target, tables.aliases.lookup name = some target ∧
    IsBareName target

lemma BareStep.alias_iff {target : TypeExpr} (h : tables.aliases.lookup id.text = some target) :
    BareStep tables (.name id) ↔ IsBareName target ∨ BareStep tables target := by
  rw [BareStep, NameTables.aliasChain_alias h]
  simp only [List.mem_cons, exists_eq_or_imp, h, Option.some.injEq, exists_eq_left']
  rfl

/-- A payload that is no name is none of the emitter's values. -/
lemma not_nullablePayloadIsValueType {ty : TypeExpr} (hhead : ¬IsBareName (tables.head ty))
    (hsteps : ¬BareStep tables ty) : nullablePayloadIsValueType tables ty = false := by
  induction ty using NameTables.resolution_induction tables with
  | aliasName id target halias ih =>
    rw [BareStep.alias_iff halias, not_or] at hsteps
    rw [NameTables.head_alias halias] at hhead
    rw [nullablePayloadIsValueType_alias halias hsteps.1]
    exact ih hhead hsteps.2
  | qualified mutability child ih =>
    rw [NameTables.head_qualified] at hhead
    rw [nullablePayloadIsValueType_qualified]
    refine ih hhead fun hchild => hsteps ?_
    rwa [BareStep, NameTables.aliasChain_qualified]
  | isHead ty h =>
    rw [NameTables.head_of_isHead h] at hhead
    rw [nullablePayloadIsValueType_head h]
    cases ty with
    | name => exact absurd trivial hhead
    | qualified => exact h.elim
    | _ => rfl

/-- A payload that is a name is one of the emitter's values, wherever the walk stops. -/
lemma nullablePayloadIsValueType_of_name {ty : TypeExpr}
    (hhead : tables.head ty = .name id) (hid : id.text ≠ "c_void")
    (hvoid : "c_void" ∉ tables.aliasChain ty) : nullablePayloadIsValueType tables ty = true := by
  induction ty using NameTables.resolution_induction tables with
  | aliasName id' target halias ih =>
    rw [NameTables.head_alias halias] at hhead
    rw [NameTables.aliasChain_alias halias, List.mem_cons, not_or] at hvoid
    by_cases hbare : IsBareName target
    · obtain ⟨next, rfl⟩ : ∃ next, target = .name next := by
        cases target with
        | name next => exact ⟨next, rfl⟩
        | _ => exact hbare.elim
      rw [nullablePayloadIsValueType_bareName halias, bne_iff_ne]
      rcases hnext : tables.aliases.lookup next.text with _ | target'
      · rw [NameTables.head_of_isHead (show tables.IsHead (.name next) from hnext)] at hhead
        obtain rfl := TypeExpr.name.inj hhead
        exact hid
      · rw [NameTables.aliasChain_alias hnext, List.mem_cons, not_or] at hvoid
        exact fun h => hvoid.2.1 h.symm
    · rw [nullablePayloadIsValueType_alias halias hbare]
      exact ih hhead hvoid.2
  | qualified mutability child ih =>
    rw [NameTables.head_qualified] at hhead
    rw [NameTables.aliasChain_qualified] at hvoid
    rw [nullablePayloadIsValueType_qualified]
    exact ih hhead hvoid
  | isHead ty h =>
    rw [NameTables.head_of_isHead h] at hhead
    rw [nullablePayloadIsValueType_head h, hhead, payloadAt, bne_iff_ne]
    exact hid

end Syntax

/-! ## The emitter on signature types -/

namespace Module

variable {m : Module}

/-- What the walk does at the shape that it has resolved. -/
def signaturePayloadAt (m : Module) : Option TypeShape → Bool
  | some (.name text) => text != "c_void"
  | some (.qualified _ inner) => m.signatureNullablePayloadIsValueType inner
  | _ => false

lemma signatureNullablePayloadIsValueType_eq (n : ℕ) :
    m.signatureNullablePayloadIsValueType n =
      m.signaturePayloadAt (m.shapes[(m.signatureAliasTarget n).getD n]?) := by
  rw [signatureNullablePayloadIsValueType]
  split
  · next hresolved => rw [hresolved]; rfl
  · next hresolved => rw [hresolved]; rfl
  · next hname hqualified =>
    generalize m.shapes[(m.signatureAliasTarget n).getD n]? = resolved at hname hqualified
    rcases resolved with _ | shape
    · rfl
    · cases shape with
      | name text => exact absurd rfl (hname text)
      | qualified mutability inner => exact absurd rfl (hqualified mutability inner)
      | _ => rfl

variable {n : ℕ}

lemma signatureAliasTarget_name {text : String} (h : m.shapes[n]? = some (.name text)) :
    m.signatureAliasTarget n = (m.aliasTarget text).filter
      fun target => m.signatureTypeSpelling target != some text := by
  rw [signatureAliasTarget]
  split
  · next heq =>
    rw [h] at heq
    obtain rfl := TypeShape.name.inj (Option.some.inj heq)
    rcases m.aliasTarget text with _ | target
    · rfl
    · by_cases hspelled : m.signatureTypeSpelling target = some text <;>
        simp [hspelled, Option.filter]
  · next heq => exact absurd (h.symm.trans heq) (by simp)
  · next hname _ => exact absurd h (hname text)

lemma signatureAliasTarget_qualified {child : ℕ} {mutability : Mutability}
    (h : m.shapes[n]? = some (.qualified mutability child)) :
    m.signatureAliasTarget n = m.signatureAliasTarget child := by
  rw [signatureAliasTarget]
  split
  · next heq => exact absurd (h.symm.trans heq) (by simp)
  · next heq =>
    rw [h] at heq
    obtain ⟨rfl, rfl⟩ := TypeShape.qualified.inj (Option.some.inj heq)
    rfl
  · next _ hqualified => exact absurd h (hqualified mutability child)

lemma signatureNullablePayloadIsValueType_qualified {child : ℕ} {mutability : Mutability}
    (h : m.shapes[n]? = some (.qualified mutability child)) :
    m.signatureNullablePayloadIsValueType n = m.signatureNullablePayloadIsValueType child := by
  rw [signatureNullablePayloadIsValueType_eq, signatureNullablePayloadIsValueType_eq,
    signatureAliasTarget_qualified h]
  rcases htarget : m.signatureAliasTarget child with _ | target
  · rw [Option.getD_none, Option.getD_none, h, signaturePayloadAt,
      signatureNullablePayloadIsValueType_eq, htarget]
    rfl
  · rfl

lemma signatureNullablePayloadIsValueType_other (h : ∀ text, m.shapes[n]? ≠ some (.name text)) :
    m.signatureNullablePayloadIsValueType n = m.signaturePayloadAt m.shapes[n]? := by
  by_cases hqualified : ∃ mutability child, m.shapes[n]? = some (.qualified mutability child)
  · obtain ⟨mutability, child, hshape⟩ := hqualified
    rw [signatureNullablePayloadIsValueType_qualified hshape, hshape]
    rfl
  · have htarget : m.signatureAliasTarget n = none := by
      rw [signatureAliasTarget]
      split
      · next heq => exact absurd heq (h _)
      · next heq => exact absurd ⟨_, _, heq⟩ hqualified
      · rfl
    rw [signatureNullablePayloadIsValueType_eq, htarget, Option.getD_none]

lemma shape_ne_name {ty : TypeExpr} (h : Interned m.shapes n ty) (hbare : ¬IsBareName ty)
    (text : String) : m.shapes[n]? ≠ some (.name text) := by
  intro hname
  cases h with
  | name => exact hbare trivial
  | _ => simp_all

/-- **Both paths of the emitter** decide alike. -/
lemma signatureNullablePayloadIsValueType_eq_typeExpr {ty : TypeExpr} (h : Interned m.shapes n ty) :
    m.signatureNullablePayloadIsValueType n = nullablePayloadIsValueType m.tables ty := by
  induction ty using NameTables.resolution_induction m.tables generalizing n with
  | aliasName id target halias ih =>
    obtain ⟨t, ht, hinterned⟩ := m.aliasTarget_some halias
    have htarget : m.signatureAliasTarget n = some t := by
      cases h with
      | name hshape =>
        rw [signatureAliasTarget_name hshape, ht, Option.filter_some,
          signatureTypeSpelling_eq hinterned, if_pos]
        exact bne_iff_ne.mpr (NameTables.typeName_target_ne halias)
    rw [signatureNullablePayloadIsValueType_eq, htarget, Option.getD_some]
    by_cases hbare : IsBareName target
    · cases hinterned with
      | name hshape =>
        rw [hshape, nullablePayloadIsValueType_bareName halias]
        rfl
      | _ => exact hbare.elim
    · rw [nullablePayloadIsValueType_alias halias hbare, ← ih hinterned]
      exact (signatureNullablePayloadIsValueType_other (shape_ne_name hinterned hbare)).symm
  | qualified mutability child ih =>
    cases h with
    | qualified hshape hchild =>
      rw [signatureNullablePayloadIsValueType_qualified hshape, ih hchild,
        nullablePayloadIsValueType_qualified]
  | isHead ty hhead =>
    rw [nullablePayloadIsValueType_head hhead]
    by_cases hbare : IsBareName ty
    · cases h with
      | @name _ id hshape =>
        have hnone : m.aliasTarget id.text = none := m.aliasTarget_none hhead
        rw [signatureNullablePayloadIsValueType_eq, signatureAliasTarget_name hshape, hnone]
        exact congrArg m.signaturePayloadAt hshape
      | _ => exact hbare.elim
    · rw [signatureNullablePayloadIsValueType_other (shape_ne_name h hbare)]
      cases h with
      | name => exact absurd trivial hbare
      | qualified => exact hhead.elim
      | _ => simp_all [signaturePayloadAt, payloadAt]

end Module

end ModernC.Optionals
