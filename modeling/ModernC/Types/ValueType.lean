import ModernC.Syntax.IntegerLiteral
import ModernC.Types.DeclTables

/-!
# Value types

How the MIR builder reads a type: `valueTypeFromTypeAlias`, with the texts and shapes that it
puts into a `ValueType`.
-/

namespace ModernC.Types

open Syntax (TypeExpr Expr Ident Mutability)

inductive PointerKind where
  | single
  | rawMany
  | slice
deriving DecidableEq

structure PointerShape where
  kind : PointerKind
  mutability : Mutability
  child : String
deriving DecidableEq

structure ResultShape where
  ok : String
  err : String
deriving DecidableEq

inductive IntegerDomainKind where
  | wrap
  | sat
  | serial
  | counter
  | duration
deriving DecidableEq

structure DomainIntegerShape where
  kind : IntegerDomainKind
  child : String
deriving DecidableEq

structure ArrayShape where
  child : String
  length : Option ℕ
deriving DecidableEq

inductive AddressClass where
  | paddr
  | vaddr
  | dmaAddr
  | userPtr
  | mmioPtr
  | physPtr
deriving DecidableEq

inductive ValueType where
  | void
  | never
  | bool
  | value
  | integer (name : String)
  | domainInteger (shape : DomainIntegerShape)
  | float (name : String)
  | cstr
  | pointer (shape : PointerShape)
  | nullablePointer (shape : PointerShape)
  | nullableDynTrait
  | nullableValue (payload : String)
  | slice (name : String)
  | array (shape : ArrayShape)
  | address (kind : AddressClass)
  | closedEnum (name : String)
  | openEnum (name : String)
  | struct (name : String)
  | taggedUnion (name : String)
  | result (shape : ResultShape)
  | contract
  | branch
  | trap
  | unknown
deriving DecidableEq

/-! ## Texts and shapes -/

/-- The brackets that open the spelling of a pointer type. -/
def pointerOpening : PointerKind → String
  | .single => "*"
  | .rawMany => "[*]"
  | .slice => "[]"

def mutabilityText : Mutability → String
  | .none => ""
  | .mutable => "mut"
  | .constant => "const"

/-- A pointer to `u8`, `u16`, `u32` or `c_void` keeps the name of what it points to. -/
def pointerSpelling (kind : PointerKind) (mutability : Mutability) (child : String) : String :=
  let spelling := pointerOpening kind ++ mutabilityText mutability
  if child ∈ ["u8", "u16", "u32", "c_void"] then spelling ++ " " ++ child else spelling

def typeText : TypeExpr → String
  | .name id => id.text
  | .enumLiteral id => id.text
  | .member _ field => field.text
  | .nullable _ => "?"
  | .qualified _ child => typeText child
  | .pointer mutability child => pointerSpelling .single mutability (typeText child)
  | .rawManyPointer mutability child => pointerSpelling .rawMany mutability (typeText child)
  | .slice mutability child => pointerSpelling .slice mutability (typeText child)
  | .array _ _ => "array"
  | .generic base _ => base.text
  | .fnPointer _ _ => "fn"
  | .closureType _ _ => "closure"
  | .dynTrait _ traitName => traitName.text

def pointerShapeName (shape : PointerShape) : String :=
  if shape.child = "null" then "null" else pointerSpelling shape.kind shape.mutability shape.child

def addressClassName : AddressClass → String
  | .paddr => "PAddr"
  | .vaddr => "VAddr"
  | .dmaAddr => "DmaAddr"
  | .userPtr => "UserPtr"
  | .mmioPtr => "MmioPtr"
  | .physPtr => "PhysPtr"

/-- The spelling of a type, which different types can share. -/
def ValueType.name : ValueType → String
  | .void => "void"
  | .never => "never"
  | .bool => "bool"
  | .value => "value"
  | .integer name => name
  | .domainInteger shape => shape.child
  | .float name => name
  | .cstr => "cstr"
  | .pointer shape => pointerShapeName shape
  | .nullablePointer shape => pointerShapeName shape
  | .nullableDynTrait => "?dyn"
  | .nullableValue payload => payload
  | .slice name => name
  | .array _ => "array"
  | .address kind => addressClassName kind
  | .closedEnum name => name
  | .openEnum name => name
  | .struct name => name
  | .taggedUnion name => name
  | .result _ => "Result"
  | .contract => "contract"
  | .branch => "branch"
  | .trap => "language_trap"
  | .unknown => "unknown"

/-- The value of a character literal: one byte, or one of the known escapes. -/
def parseCharLiteral (literal : String) : Option ℕ :=
  let chars := literal.toList
  if chars.length < 3 || chars.head? != some '\'' || chars.getLast? != some '\'' then none
  else
    match chars.tail.dropLast with
    | [c] => if c.utf8Size = 1 then some c.toNat else none
    | ['\\', '\\'] => some '\\'.toNat
    | ['\\', '\''] => some '\''.toNat
    | ['\\', '"'] => some '"'.toNat
    | ['\\', '0'] => some 0
    | ['\\', 'n'] => some '\n'.toNat
    | ['\\', 'r'] => some '\r'.toNat
    | ['\\', 't'] => some '\t'.toNat
    | _ => none

structure LiteralValue where
  negative : Bool
  magnitude : ℕ
deriving DecidableEq

def integerLiteralValue : Expr → Option LiteralValue
  | .intLiteral text =>
    (Syntax.parseIntegerLiteral text).map fun magnitude => { negative := false, magnitude }
  | .charLiteral text =>
    (parseCharLiteral text).map fun magnitude => { negative := false, magnitude }
  | .grouped inner => integerLiteralValue inner
  | .unary .neg expr => do
    let literal ← integerLiteralValue expr
    if literal.negative then none
    else some { negative := true, magnitude := literal.magnitude }
  | _ => none

/-- `std.math.maxInt(usize)`. -/
def usizeMax : ℕ := 2 ^ 64 - 1

def arrayLength (len : Expr) : Option ℕ := do
  let literal ← integerLiteralValue len
  if literal.negative || usizeMax < literal.magnitude then none else some literal.magnitude

/-! ## Names -/

/-- The integer types that have bounds, `checkedIntBoundsByName`. -/
def checkedIntNames : List String :=
  ["u8", "u16", "u32", "u64", "u128", "usize", "i8", "i16", "i32", "i64", "i128", "isize"]

def integerDomainKind (name : String) : Option IntegerDomainKind :=
  match name with
  | "wrap" => some .wrap
  | "sat" => some .sat
  | "serial" => some .serial
  | "counter" => some .counter
  | "Duration" => some .duration
  | _ => none

def startsWith (start name : String) : Bool := start.toList.isPrefixOf name.toList

namespace DeclTables

open NameTables

variable (tables : DeclTables)

def namedValueType (name : String) : ValueType :=
  if name = "void" then .void
  else if name = "never" then .never
  else if name = "bool" then .bool
  else if name = "cstr" then .cstr
  else if name = "PAddr" then .address .paddr
  else if name = "VAddr" then .address .vaddr
  else if name = "DmaAddr" then .address .dmaAddr
  else
    match tables.enums.lookup name with
    | some info => if info.isOpen then .openEnum name else .closedEnum name
    | none =>
      if tables.mirStructs.contains name then .struct name
      else if name = "IrqOff" then .integer name
      else if startsWith "u" name || startsWith "i" name then .integer name
      else if name = "f32" || name = "f64" then .float name
      else .value

def namedValueTypeAlias (name : String) : ValueType :=
  if tables.packedBits.contains name then .struct name else tables.namedValueType name

/-! ## Types -/

def aggregateTargetTypeAliasDepth (ty : TypeExpr) (depth : ℕ) : TypeExpr :=
  if depth > depthGuard then ty
  else
    match ty with
    | .name id =>
      match tables.aliases.lookup id.text with
      | some resolved => aggregateTargetTypeAliasDepth resolved (depth + 1)
      | none => .name id
    | .qualified _ child => aggregateTargetTypeAliasDepth child (depth + 1)
    | ty => ty
termination_by depthGuard + 1 - depth

def aggregateTargetTypeAlias (ty : TypeExpr) : TypeExpr := tables.aggregateTargetTypeAliasDepth ty 0

def pointerShapeAlias (kind : PointerKind) (mutability : Mutability) (child : TypeExpr) :
    PointerShape :=
  { kind, mutability, child := typeText (tables.aggregateTargetTypeAlias child) }

/-- The shape of an array type, which is its own aggregate target. -/
def arrayShapeAlias (len : Expr) (child : TypeExpr) : ArrayShape :=
  { child := typeText (tables.aggregateTargetTypeAlias child), length := arrayLength len }

def isDynTraitMirType : TypeExpr → Bool
  | .dynTrait _ _ => true
  | .qualified _ child => isDynTraitMirType child
  | _ => false

/-- The texts of the arguments of a `Result`. -/
def resultShapeAlias : List TypeExpr → ResultShape
  | [] => { ok := "unknown", err := "unknown" }
  | [ok] => { ok := typeText (tables.aggregateTargetTypeAlias ok), err := "unknown" }
  | ok :: err :: _ =>
    { ok := typeText (tables.aggregateTargetTypeAlias ok),
      err := typeText (tables.aggregateTargetTypeAlias err) }

def domainIntegerValueTypeAlias (name : String) (args : List TypeExpr) : Option ValueType :=
  match args with
  | [arg] =>
    match tables.aggregateTargetTypeAlias arg with
    | .name id =>
      if checkedIntNames.contains id.text then
        (integerDomainKind name).map fun kind => .domainInteger { kind, child := id.text }
      else none
    | _ => none
  | _ => none

/-- What a nullable type is, given what its payload is. -/
def nullableValueType (child : TypeExpr) (childTy : ValueType) : ValueType :=
  match childTy with
  | .pointer shape => .nullablePointer shape
  | .integer _ | .domainInteger _ | .float _ | .bool | .struct _ | .closedEnum _ | .openEnum _
  | .address _ => .nullableValue (typeText (tables.aggregateTargetTypeAlias child))
  | _ => if isDynTraitMirType child then .nullableDynTrait else .value

/-- `T` of `Secret<T>`. -/
def secretPayload (base : Ident) (args : List TypeExpr) : Option TypeExpr :=
  match args with
  | [arg] => if base.text = "Secret" then some arg else none
  | _ => none

lemma secretPayload_eq_some_iff {base : Ident} {args : List TypeExpr} {arg : TypeExpr} :
    secretPayload base args = some arg ↔ base.text = "Secret" ∧ args = [arg] := by
  unfold secretPayload
  split
  · simp
  · rename_i hargs
    simp only [reduceCtorEq, false_iff, not_and]
    exact fun _ heq => hargs arg heq

mutual

def valueTypeFromTypeAliasDepth (ty : TypeExpr) (depth : ℕ) : ValueType :=
  if depth > depthGuard then .value
  else
    match ty with
    | .name id =>
      match _ : tables.aliases.lookup id.text with
      | some resolved => valueTypeFromTypeAliasDepth resolved (depth + 1)
      | none => tables.namedValueTypeAlias id.text
    | .enumLiteral _ | .member _ _ | .fnPointer _ _ | .closureType _ _ | .dynTrait _ _ => .value
    | .nullable child =>
      tables.nullableValueType child (valueTypeFromTypeAliasDepth child (depth + 1))
    | .qualified _ child => valueTypeFromTypeAliasDepth child (depth + 1)
    | .pointer mutability child => .pointer (tables.pointerShapeAlias .single mutability child)
    | .rawManyPointer mutability child =>
      .pointer (tables.pointerShapeAlias .rawMany mutability child)
    | .slice mutability child => .pointer (tables.pointerShapeAlias .slice mutability child)
    | .array len child => .array (tables.arrayShapeAlias len child)
    | .generic base args => genericValueTypeAlias base args
termination_by (tables.level ty, sizeOf ty, 1)
decreasing_by
  · exact lex_of_lt (level_alias_lt (List.mem_singleton.mpr rfl) ‹_›)
  · exact lex_of_le_of_lt (Nat.le_of_eq rfl) (by simp)
  · exact lex_of_le_of_lt (Nat.le_of_eq rfl) (sizeOf_qualified_lt _ _)
  · exact Prod.Lex.right _ (Prod.Lex.right _ Nat.zero_lt_one)

def genericValueTypeAlias (base : Ident) (args : List TypeExpr) : ValueType :=
  if base.text = "Result" then .result (tables.resultShapeAlias args)
  else if base.text = "UserPtr" then .address .userPtr
  else if base.text = "MmioPtr" then .address .mmioPtr
  else if base.text = "PhysPtr" then .address .physPtr
  else
    match tables.domainIntegerValueTypeAlias base.text args with
    | some domain => domain
    | none =>
      match _ : secretPayload base args with
      | some arg => valueTypeFromTypeAliasDepth arg 0
      | none =>
        match _ : tables.aliases.lookup base.text with
        | some resolved => valueTypeFromTypeAliasDepth resolved 0
        | none => tables.namedValueTypeAlias base.text
termination_by (tables.level (.generic base args), sizeOf (TypeExpr.generic base args), 0)
decreasing_by
  · obtain ⟨_, rfl⟩ := secretPayload_eq_some_iff.mp ‹_›
    exact lex_of_le_of_lt (level_arg_le base arg) (by simp; omega)
  · exact lex_of_lt (level_alias_lt (base_mem_followedNames base args) ‹_›)

end

def valueTypeFromTypeAlias (ty : TypeExpr) : ValueType := tables.valueTypeFromTypeAliasDepth ty 0

end DeclTables

end ModernC.Types
