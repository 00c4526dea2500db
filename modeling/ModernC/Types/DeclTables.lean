import ModernC.Framework.Tables
import ModernC.Syntax.Ast

/-!
# Declaration tables

The tables of declared names that the checker and the MIR builder classify types with.  Both
build them from the same declarations; they differ in two places only, which
`NameTables.mirStructs` and `NameTables.checkerAliases` record.
-/

namespace ModernC.Types

open Framework (Table)
open Syntax (TypeExpr Ident)

structure EnumSummary where
  isOpen : Bool
deriving DecidableEq

/-- The names that a classifier may look up when it reads the type. -/
def followedNames : TypeExpr → List String
  | .name id => [id.text]
  | .nullable child => followedNames child
  | .qualified _ child => followedNames child
  | .generic base args =>
    base.text :: match args with
      | [arg] => followedNames arg
      | _ => []
  | _ => []

lemma base_mem_followedNames (base : Ident) (args : List TypeExpr) :
    base.text ∈ followedNames (.generic base args) := by
  unfold followedNames
  exact List.mem_cons_self

/-- The type behind its qualifiers. -/
def unqualified : TypeExpr → TypeExpr
  | .qualified _ child => unqualified child
  | ty => ty

/-- The bound of the depth guards of all alias walks. -/
def depthGuard : ℕ := 64

/-- `target` is the alias that `name` stands for, behind qualifiers. -/
def AliasStep (aliases : Table String TypeExpr) (name target : String) : Prop :=
  ∃ ty id, aliases.lookup name = some ty ∧ unqualified ty = .name id ∧ id.text = target ∧
    (aliases.lookup target).isSome

/-- **The declared names of a module.**  Aliases are acyclic, as a rank that falls along
`followedNames` shows. -/
structure NameTables where
  aliases : Table String TypeExpr
  opaques : List String
  structs : List String
  overlayUnions : List String
  enums : Table String EnumSummary
  packedBits : List String
  taggedUnions : List String
  typeParams : List String
  rank : String → ℕ
  rank_lt : ∀ {name ty}, aliases.lookup name = some ty →
    ∀ followed ∈ followedNames ty, (aliases.lookup followed).isSome → rank followed < rank name

/-- The declared names of a module where no chain of aliases is longer than the depth guard. -/
structure DeclTables extends NameTables where
  chains_short : ∀ name chain, (aliases.lookup name).isSome →
    List.IsChain (AliasStep aliases) (name :: chain) → chain.length < depthGuard

namespace NameTables

variable (tables : NameTables)

/-- The MIR builder files the overlay unions under the structs. -/
def mirStructs : List String := tables.structs ++ tables.overlayUnions

/-- The checker files an opaque type as an alias of itself. -/
def checkerAliases (name : String) : Option TypeExpr :=
  (tables.aliases.lookup name).orElse fun _ =>
    if tables.opaques.contains name then some (.name { text := name }) else none

/-! ## The measure of the alias walks -/

/-- One more than the greatest rank of an alias that the type may lead to. -/
def level (ty : TypeExpr) : ℕ :=
  ((followedNames ty).map fun name =>
    if (tables.aliases.lookup name).isSome then tables.rank name + 1 else 0).foldr max 0

variable {tables}

lemma level_le_iff {ty : TypeExpr} {n : ℕ} :
    tables.level ty ≤ n ↔
      ∀ name ∈ followedNames ty, (tables.aliases.lookup name).isSome → tables.rank name < n := by
  unfold level
  induction followedNames ty with
  | nil => simp
  | cons name rest ih =>
    simp only [List.map_cons, List.foldr_cons, Nat.max_le, ih, List.mem_cons, forall_eq_or_imp]
    refine and_congr ?_ Iff.rfl
    by_cases h : (tables.aliases.lookup name).isSome <;> simp [h, Nat.succ_le_iff]

lemma rank_lt_level {ty : TypeExpr} {name : String} (hmem : name ∈ followedNames ty)
    (halias : (tables.aliases.lookup name).isSome) : tables.rank name < tables.level ty :=
  level_le_iff.mp Nat.le.refl name hmem halias

/-- Following an alias lowers the level. -/
lemma level_alias_lt {ty target : TypeExpr} {name : String} (hmem : name ∈ followedNames ty)
    (halias : tables.aliases.lookup name = some target) : tables.level target < tables.level ty := by
  have hname : tables.rank name < tables.level ty := rank_lt_level hmem (by simp [halias])
  have htarget : tables.level target ≤ tables.rank name :=
    level_le_iff.mpr fun followed hfollowed => tables.rank_lt halias followed hfollowed
  omega

lemma level_le_of_subset {ty ty' : TypeExpr} (h : followedNames ty ⊆ followedNames ty') :
    tables.level ty ≤ tables.level ty' :=
  level_le_iff.mpr fun _ hmem halias => rank_lt_level (h hmem) halias

@[simp] lemma level_qualified (mutability : Syntax.Mutability) (child : TypeExpr) :
    tables.level (.qualified mutability child) = tables.level child := rfl

lemma level_arg_le (base : Ident) (arg : TypeExpr) :
    tables.level arg ≤ tables.level (.generic base [arg]) :=
  level_le_of_subset (List.subset_cons_self _ _)

lemma lex_of_lt {a a' b b' c c' : ℕ} (h : a < a') :
    Prod.Lex (· < ·) (Prod.Lex (· < ·) (· < ·)) (a, b, c) (a', b', c') :=
  Prod.Lex.left _ _ h

lemma lex_of_le_of_lt {a a' b b' c c' : ℕ} (ha : a ≤ a') (hb : b < b') :
    Prod.Lex (· < ·) (Prod.Lex (· < ·) (· < ·)) (a, b, c) (a', b', c') := by
  rcases Nat.lt_or_eq_of_le ha with h | rfl
  · exact Prod.Lex.left _ _ h
  · exact Prod.Lex.right _ (Prod.Lex.left _ _ hb)

lemma sizeOf_qualified_lt (mutability : Syntax.Mutability) (child : TypeExpr) :
    sizeOf child < sizeOf (TypeExpr.qualified mutability child) := by
  rw [TypeExpr.qualified.sizeOf_spec]
  omega

end NameTables

end ModernC.Types

/-!
## Type classes

How the checker reads a type: `classifyTypeCtx`, over the types that it reads through aliases.
-/

namespace ModernC.Types

open Syntax (TypeExpr Ident)

inductive TypeClass where
  | unknown
  | checkedU8
  | checkedU16
  | checkedU32
  | checkedU64
  | checkedU128
  | checkedUsize
  | checkedI8
  | checkedI16
  | checkedI32
  | checkedI64
  | checkedI128
  | checkedIsize
  | wrap
  | sat
  | serial
  | counter
  | pointer
  | rawManyPointer
  | slice
  | array
  | cVoidPointer
  | cstr
  | nullablePointer
  | nullableCVoidPointer
  | nullableDynTrait
  | nullableValue
  | paddr
  | vaddr
  | dmaAddr
  | userPtr
  | mmioPtr
  | physPtr
  | secret
  | atomic
  | dmaBuf
  | result
  | fnPointer
  | closure
  | never
  | void
  | bool
  | nullLiteral
  | intLiteral
  | f32
  | f64
  | floatLiteral
  | duration
  | order
deriving DecidableEq

namespace TypeClass

def isCheckedUnsigned : TypeClass → Bool
  | .checkedU8 | .checkedU16 | .checkedU32 | .checkedU64 | .checkedU128 | .checkedUsize => true
  | _ => false

def isCheckedSigned : TypeClass → Bool
  | .checkedI8 | .checkedI16 | .checkedI32 | .checkedI64 | .checkedI128 | .checkedIsize => true
  | _ => false

def isCheckedInt (kind : TypeClass) : Bool := kind.isCheckedUnsigned || kind.isCheckedSigned

def isFloat (kind : TypeClass) : Bool := kind == .f32 || kind == .f64

def isOpaqueAddressClass : TypeClass → Bool
  | .paddr | .vaddr | .dmaAddr | .userPtr | .mmioPtr | .physPtr => true
  | _ => false

def isValueOptionalPayloadClass (kind : TypeClass) : Bool :=
  kind.isCheckedInt || kind.isFloat || kind.isOpaqueAddressClass || kind == .bool

end TypeClass

/-! ## Names -/

def classifyGenericTypeName (name : String) : TypeClass :=
  match name with
  | "Result" => .result
  | "atomic" => .atomic
  | "DmaBuf" => .dmaBuf
  | "UserPtr" => .userPtr
  | "MmioPtr" => .mmioPtr
  | "PhysPtr" => .physPtr
  | "Secret" => .secret
  | "wrap" => .wrap
  | "sat" => .sat
  | "serial" => .serial
  | "counter" => .counter
  | "Duration" => .duration
  | _ => .unknown

def classifyTypeName (name : String) : TypeClass :=
  match name with
  | "bool" => .bool
  | "u8" => .checkedU8
  | "u16" => .checkedU16
  | "u32" => .checkedU32
  | "u64" => .checkedU64
  | "u128" => .checkedU128
  | "usize" => .checkedUsize
  | "i8" => .checkedI8
  | "i16" => .checkedI16
  | "i32" => .checkedI32
  | "i64" => .checkedI64
  | "i128" => .checkedI128
  | "isize" => .checkedIsize
  | "f32" => .f32
  | "f64" => .f64
  | "Order" => .order
  | "cstr" => .cstr
  | "never" => .never
  | "void" => .void
  | "PAddr" => .paddr
  | "VAddr" => .vaddr
  | "DmaAddr" => .dmaAddr
  | _ => .unknown

/-- The name of a type that is one, behind its qualifiers. -/
def typeName : TypeExpr → Option String
  | .name id => some id.text
  | .qualified _ child => typeName child
  | _ => none

def typeNameEql (ty : TypeExpr) (expected : String) : Bool := typeName ty == some expected

def isDynTraitTypeExpr : TypeExpr → Bool
  | .dynTrait _ _ => true
  | .qualified _ child => isDynTraitTypeExpr child
  | _ => false

def nullableInnerType : TypeExpr → Option TypeExpr
  | .nullable child => some child
  | .qualified _ child => nullableInnerType child
  | _ => none

/-! ## Types -/

/-- The class of a nullable type without the declaration tables. -/
def nullableClass (child : TypeExpr) (childClass : TypeClass) : TypeClass :=
  match childClass with
  | .cVoidPointer => .nullableCVoidPointer
  | .pointer | .rawManyPointer => .nullablePointer
  | .unknown => if isDynTraitTypeExpr child then .nullableDynTrait else .unknown
  | childClass => if childClass.isValueOptionalPayloadClass then .nullableValue else .unknown

def classifyType : TypeExpr → TypeClass
  | .name id => classifyTypeName id.text
  | .pointer _ child => if typeNameEql child "c_void" then .cVoidPointer else .pointer
  | .rawManyPointer _ child => if typeNameEql child "c_void" then .cVoidPointer else .rawManyPointer
  | .slice _ child => if typeNameEql child "c_void" then .cVoidPointer else .slice
  | .array _ _ => .array
  | .nullable child => nullableClass child (classifyType child)
  | .qualified _ child => classifyType child
  | .generic base _ => classifyGenericTypeName base.text
  | .fnPointer _ _ => .fnPointer
  | .closureType _ _ => .closure
  | .enumLiteral _ | .member _ _ | .dynTrait _ _ => .unknown

namespace NameTables

variable (tables : NameTables)

/-- The type names a sized value that the module declares, not a type parameter. -/
def namedTypeIsKnownValue (ty : TypeExpr) : Bool :=
  match typeName ty with
  | none => false
  | some name =>
    !tables.typeParams.contains name &&
      (tables.structs.contains name || tables.packedBits.contains name ||
        (tables.enums.lookup name).isSome || tables.taggedUnions.contains name)

def resolveAliasTypeDepth (ty : TypeExpr) (depth : ℕ) : TypeExpr :=
  if depth > depthGuard then ty
  else
    match ty with
    | .name id =>
      match tables.checkerAliases id.text with
      | none => .name id
      | some target =>
        if typeName target = some id.text then .name id
        else resolveAliasTypeDepth target (depth + 1)
    | .qualified _ child => resolveAliasTypeDepth child depth
    | ty => ty
termination_by (depthGuard + 1 - depth, sizeOf ty)

def resolveAliasType (ty : TypeExpr) : TypeExpr := tables.resolveAliasTypeDepth ty 0

variable {tables}

lemma checkerAliases_eq_some {name : String} {target : TypeExpr}
    (h : tables.checkerAliases name = some target) :
    tables.aliases.lookup name = some target ∨ typeName target = some name := by
  unfold checkerAliases at h
  cases halias : tables.aliases.lookup name with
  | some ty =>
    rw [halias] at h
    exact Or.inl h
  | none =>
    rw [halias] at h
    simp only [Option.orElse_none] at h
    split at h
    · cases h
      exact Or.inr rfl
    · simp at h

variable (tables) in
/-- Resolving a type makes it no larger in the measure of the alias walks. -/
lemma resolveAliasTypeDepth_le (ty : TypeExpr) (depth : ℕ) :
    tables.level (tables.resolveAliasTypeDepth ty depth) < tables.level ty ∨
      tables.level (tables.resolveAliasTypeDepth ty depth) ≤ tables.level ty ∧
        sizeOf (tables.resolveAliasTypeDepth ty depth) ≤ sizeOf ty := by
  fun_induction resolveAliasTypeDepth tables ty depth with
  | case1 | case2 | case3 | case6 => exact Or.inr ⟨Nat.le.refl, Nat.le.refl⟩
  | case4 depth _ id target halias hname ih =>
    have hlt : tables.level target < tables.level (.name id) :=
      level_alias_lt (List.mem_singleton.mpr rfl)
        ((checkerAliases_eq_some halias).resolve_right hname)
    omega
  | case5 depth _ mutability child ih =>
    simp only [level_qualified, TypeExpr.qualified.sizeOf_spec]
    omega

variable (tables) in
lemma nullableInnerType_lt {ty inner : TypeExpr} (h : nullableInnerType ty = some inner) :
    tables.level inner ≤ tables.level ty ∧ sizeOf inner < sizeOf ty := by
  fun_induction nullableInnerType ty with
  | case1 child =>
    cases h
    exact ⟨Nat.le.refl, by simp⟩
  | case2 mutability child ih =>
    obtain ⟨hlevel, hsize⟩ := ih h
    exact ⟨hlevel, by simp; omega⟩
  | case3 => simp at h

/-- The payload of a nullable type is smaller than the type, however both are resolved. -/
lemma resolveAliasType_inner_lt {ty inner : TypeExpr}
    (h : nullableInnerType (tables.resolveAliasType ty) = some inner) :
    Prod.Lex (· < ·) (· < ·)
      (tables.level (tables.resolveAliasType inner), sizeOf (tables.resolveAliasType inner))
      (tables.level ty, sizeOf ty) := by
  have houter := resolveAliasTypeDepth_le tables ty 0
  have hinner := resolveAliasTypeDepth_le tables inner 0
  have hbetween := nullableInnerType_lt tables h
  rw [Prod.lex_def]
  unfold resolveAliasType at *
  omega

variable (tables)

/-- The class of a nullable type, given its resolved payload and the class of that. -/
def nullableClassCtx (inner : TypeExpr) (innerClass : TypeClass) : TypeClass :=
  match innerClass with
  | .cVoidPointer => .nullableCVoidPointer
  | .pointer | .rawManyPointer => .nullablePointer
  | innerClass =>
    if isDynTraitTypeExpr inner then .nullableDynTrait
    else if innerClass.isValueOptionalPayloadClass || tables.namedTypeIsKnownValue inner then
      .nullableValue
    else .unknown

def classifyTypeCtx (ty : TypeExpr) : TypeClass :=
  match _ : nullableInnerType (tables.resolveAliasType ty) with
  | some inner =>
    tables.nullableClassCtx (tables.resolveAliasType inner)
      (classifyTypeCtx (tables.resolveAliasType inner))
  | none => classifyType (tables.resolveAliasType ty)
termination_by (tables.level ty, sizeOf ty)
decreasing_by exact resolveAliasType_inner_lt ‹_›

end NameTables

end ModernC.Types
