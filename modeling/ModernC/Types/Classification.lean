import ModernC.Types.Resolution

/-!
# Classification

What the two classifiers have in common: the scalar class of a type and the representation of
a nullable one.  For both, the class of a type is read off its head.
-/

namespace ModernC.Types

open Syntax (TypeExpr Ident Mutability)

inductive ScalarClass where
  | integer
  | float
  | bool
  | address
  | other
deriving DecidableEq

inductive NullableRepr where
  | pointerNiche
  | traitObject
  | taggedValue
  | neither
deriving DecidableEq

namespace ValueType

def scalarClass : ValueType → ScalarClass
  | .integer _ => .integer
  | .float _ => .float
  | .bool => .bool
  | .address _ => .address
  | _ => .other

def nullableRepr : ValueType → NullableRepr
  | .nullablePointer _ => .pointerNiche
  | .nullableDynTrait => .traitObject
  | .nullableValue _ => .taggedValue
  | _ => .neither

def isPointer : ValueType → Bool
  | .pointer _ => true
  | _ => false

/-- A sized value that an optional stores behind its tag. -/
def isTaggedPayload : ValueType → Bool
  | .integer _ | .domainInteger _ | .float _ | .bool | .struct _ | .closedEnum _ | .openEnum _
  | .address _ => true
  | _ => false

/-- What an optional of a type may hold. -/
def isPayload (ty : ValueType) : Bool := ty.isPointer || ty.isTaggedPayload

end ValueType

namespace TypeClass

def scalarClass (kind : TypeClass) : ScalarClass :=
  if kind.isCheckedInt then .integer
  else if kind.isFloat then .float
  else if kind = .bool then .bool
  else if kind.isOpaqueAddressClass then .address
  else .other

def nullableRepr : TypeClass → NullableRepr
  | .nullablePointer | .nullableCVoidPointer => .pointerNiche
  | .nullableDynTrait => .traitObject
  | .nullableValue => .taggedValue
  | _ => .neither

def isPointer : TypeClass → Bool
  | .pointer | .rawManyPointer | .cVoidPointer => true
  | _ => false

end TypeClass

/-- **The two classifiers agree about the type.** -/
def DeclTables.classifiedAlike (tables : DeclTables) (ty : TypeExpr) : Prop :=
  (tables.valueTypeFromTypeAlias ty).scalarClass = (tables.classifyTypeCtx ty).scalarClass ∧
    (tables.valueTypeFromTypeAlias ty).nullableRepr = (tables.classifyTypeCtx ty).nullableRepr

/-! ## The built-in names -/

def floatNames : List String := ["f32", "f64"]

def addressNames : List String := ["PAddr", "VAddr", "DmaAddr"]

/-- The generic types that are addresses. -/
def addressBases : List String := ["UserPtr", "MmioPtr", "PhysPtr"]

def scalarNames : List String := checkedIntNames ++ floatNames ++ "bool" :: addressNames

/-- The built-in names of no scalar that the MIR builder knows before its tables. -/
def unitNames : List String := ["void", "never", "cstr"]

/-- The spellings that the MIR builder takes for integers. -/
def SpelledAsInteger (name : String) : Prop :=
  name = "IrqOff" ∨ startsWith "u" name = true ∨ startsWith "i" name = true

instance (name : String) : Decidable (SpelledAsInteger name) := inferInstanceAs (Decidable (_ ∨ _))

lemma mem_scalarNames {name : String} :
    name ∈ scalarNames ↔
      name ∈ checkedIntNames ∨ name ∈ floatNames ∨ name ∈ "bool" :: addressNames := by
  simp [scalarNames]

lemma unitNames_not_scalar : ∀ name ∈ unitNames, name ∉ scalarNames := by decide

lemma checkedIntNames_spelled : ∀ name ∈ checkedIntNames, SpelledAsInteger name := by decide

lemma checkedIntNames_only : ∀ name ∈ checkedIntNames, name ≠ "bool" ∧ name ∉ addressNames := by
  decide

lemma floatNames_only :
    ∀ name ∈ floatNames, name ≠ "bool" ∧ name ∉ addressNames ∧ ¬ SpelledAsInteger name := by
  decide

lemma unknown_scalarClass : TypeClass.unknown.scalarClass = .other := rfl

lemma unknown_not_payload : TypeClass.unknown.isValueOptionalPayloadClass = false := rfl

/-- What a built-in name is classified as. -/
lemma classifyTypeName_spec (name : String) :
    ((classifyTypeName name).scalarClass =
      if name ∈ checkedIntNames then .integer
      else if name ∈ floatNames then .float
      else if name = "bool" then .bool
      else if name ∈ addressNames then .address
      else .other) ∧
    ((classifyTypeName name).isValueOptionalPayloadClass = true ↔ name ∈ scalarNames) ∧
    (classifyTypeName name).nullableRepr = .neither ∧ (classifyTypeName name).isPointer = false := by
  unfold classifyTypeName
  split <;> first | exact ⟨by decide, by decide, rfl, rfl⟩ | skip
  refine ⟨?_, ?_, rfl, rfl⟩
  · simp_all [checkedIntNames, floatNames, addressNames, unknown_scalarClass]
  · simp_all [scalarNames, checkedIntNames, floatNames, addressNames, unknown_not_payload]

lemma scalarClass_classifyTypeName (name : String) :
    (classifyTypeName name).scalarClass =
      if name ∈ checkedIntNames then .integer
      else if name ∈ floatNames then .float
      else if name = "bool" then .bool
      else if name ∈ addressNames then .address
      else .other :=
  (classifyTypeName_spec name).1

/-- A built-in name is a payload of the checker's optionals exactly if it is a scalar. -/
lemma isValueOptionalPayloadClass_classifyTypeName (name : String) :
    (classifyTypeName name).isValueOptionalPayloadClass = true ↔ name ∈ scalarNames :=
  (classifyTypeName_spec name).2.1

lemma classifyTypeName_plain (name : String) :
    (classifyTypeName name).nullableRepr = .neither ∧ (classifyTypeName name).isPointer = false :=
  (classifyTypeName_spec name).2.2

/-- What a generic name is classified as. -/
lemma classifyGenericTypeName_spec (name : String) :
    ((classifyGenericTypeName name).scalarClass =
      if name ∈ addressBases then .address else .other) ∧
    ((classifyGenericTypeName name).isValueOptionalPayloadClass = true ↔ name ∈ addressBases) ∧
    (classifyGenericTypeName name).nullableRepr = .neither ∧
      (classifyGenericTypeName name).isPointer = false := by
  unfold classifyGenericTypeName
  split <;> first | exact ⟨by decide, by decide, rfl, rfl⟩ | skip
  refine ⟨?_, ?_, rfl, rfl⟩
  · simp_all [addressBases, unknown_scalarClass]
  · simp_all [addressBases, unknown_not_payload]

lemma scalarClass_classifyGenericTypeName (name : String) :
    (classifyGenericTypeName name).scalarClass =
      if name ∈ addressBases then .address else .other :=
  (classifyGenericTypeName_spec name).1

lemma isValueOptionalPayloadClass_classifyGenericTypeName (name : String) :
    (classifyGenericTypeName name).isValueOptionalPayloadClass = true ↔ name ∈ addressBases :=
  (classifyGenericTypeName_spec name).2.1

lemma classifyGenericTypeName_plain (name : String) :
    (classifyGenericTypeName name).nullableRepr = .neither ∧
      (classifyGenericTypeName name).isPointer = false :=
  (classifyGenericTypeName_spec name).2.2

/-! ## The checker -/

namespace NameTables

variable {tables : NameTables}

lemma nullableRepr_nullableClassCtx (inner : TypeExpr) (innerClass : TypeClass) :
    (tables.nullableClassCtx inner innerClass).nullableRepr =
      if innerClass.isPointer then .pointerNiche
      else if isDynTraitTypeExpr inner then .traitObject
      else if innerClass.isValueOptionalPayloadClass || tables.namedTypeIsKnownValue inner then
        .taggedValue
      else .neither := by
  unfold nullableClassCtx
  split
  · rfl
  · rfl
  · rfl
  · rename_i hvoid hpointer hmany
    have hplain : innerClass.isPointer = false := by
      cases innerClass <;> first | rfl | contradiction
    rw [hplain]
    simp only [Bool.false_eq_true, if_false]
    split
    · rfl
    · split <;> rfl

variable (tables) in
/-- A nullable type is no payload itself. -/
lemma nullableClassCtx_no_payload (inner : TypeExpr) (innerClass : TypeClass) :
    (tables.nullableClassCtx inner innerClass).isPointer = false ∧
      (tables.nullableClassCtx inner innerClass).isValueOptionalPayloadClass = false := by
  unfold nullableClassCtx
  split
  · exact ⟨rfl, rfl⟩
  · exact ⟨rfl, rfl⟩
  · exact ⟨rfl, rfl⟩
  · split
    · exact ⟨rfl, rfl⟩
    · split <;> exact ⟨rfl, rfl⟩

lemma scalarClass_nullableClassCtx (inner : TypeExpr) (innerClass : TypeClass) :
    (tables.nullableClassCtx inner innerClass).scalarClass = .other := by
  unfold nullableClassCtx
  split
  · rfl
  · rfl
  · rfl
  · split
    · rfl
    · split <;> rfl

end NameTables

namespace DeclTables

open NameTables

variable {tables : DeclTables}

/-- The checker reads the class of a type off its head. -/
lemma classifyTypeCtx_eq (ty : TypeExpr) (h : ∀ child, tables.head ty ≠ .nullable child) :
    tables.classifyTypeCtx ty = classifyType (tables.head ty) := by
  rw [classifyTypeCtx.eq_def]
  split
  · rename_i inner hinner
    rw [resolveAliasType_eq_head, nullableInnerType_eq_some_iff (isHead_head ty)] at hinner
    exact absurd hinner (h inner)
  · rw [resolveAliasType_eq_head]

lemma classifyTypeCtx_nullable {ty child : TypeExpr} (h : tables.head ty = .nullable child) :
    tables.classifyTypeCtx ty =
      tables.nullableClassCtx (tables.head child) (tables.classifyTypeCtx (tables.head child)) := by
  rw [classifyTypeCtx.eq_def]
  split
  · rename_i inner hinner
    rw [resolveAliasType_eq_head, nullableInnerType_eq_some_iff (isHead_head ty), h,
      TypeExpr.nullable.injEq] at hinner
    rw [resolveAliasType_eq_head, hinner]
  · rename_i hinner
    rw [resolveAliasType_eq_head, h] at hinner
    cases hinner

lemma classifyTypeCtx_head (ty : TypeExpr) :
    tables.classifyTypeCtx (tables.head ty) = tables.classifyTypeCtx ty := by
  by_cases h : ∃ child, tables.head ty = .nullable child
  · obtain ⟨child, hchild⟩ := h
    rw [classifyTypeCtx_nullable hchild, classifyTypeCtx_nullable (by rwa [head_head])]
  · have hnot : ∀ child, tables.head ty ≠ .nullable child := not_exists.mp h
    rw [classifyTypeCtx_eq ty hnot, classifyTypeCtx_eq _ (by rwa [head_head]), head_head]

/-! ## The MIR builder -/

lemma nullableRepr_nullableValueType (child : TypeExpr) (childTy : ValueType) :
    (tables.nullableValueType child childTy).nullableRepr =
      if childTy.isPointer then .pointerNiche
      else if childTy.isTaggedPayload then .taggedValue
      else if isDynTraitMirType child then .traitObject
      else .neither := by
  unfold nullableValueType
  cases isDynTraitMirType child <;> cases childTy <;> rfl

lemma isPayload_nullableValueType (child : TypeExpr) (childTy : ValueType) :
    (tables.nullableValueType child childTy).isPayload = false := by
  unfold nullableValueType
  cases isDynTraitMirType child <;> cases childTy <;> rfl

lemma scalarClass_nullableValueType (child : TypeExpr) (childTy : ValueType) :
    (tables.nullableValueType child childTy).scalarClass = .other := by
  unfold nullableValueType
  cases isDynTraitMirType child <;> cases childTy <;> rfl

end DeclTables

end ModernC.Types

/-!
## Types read alike

The MIR builder and the checker share their tables and disagree about spelling, about what
they look through and about what an optional may hold.  `ReadAlike` says of a type expression
that it touches none of this, and holds exactly of the types that the two classify alike.
-/

namespace ModernC.Types

open Syntax (TypeExpr Ident Mutability)

namespace DeclTables

open NameTables

variable (tables : DeclTables)

/-! ## Names -/

/-- The MIR builder finds the name in its tables. -/
def declaredInMir (name : String) : Prop :=
  name ∈ tables.packedBits ∨ (tables.enums.lookup name).isSome ∨ name ∈ tables.mirStructs

instance (name : String) : Decidable (tables.declaredInMir name) :=
  inferInstanceAs (Decidable (_ ∨ _))

/-- A name that the MIR builder takes for a scalar. -/
def mirScalarName (name : String) : Prop :=
  if name ∈ "bool" :: addressNames then name ∉ tables.packedBits
  else ¬ tables.declaredInMir name ∧ (SpelledAsInteger name ∨ name ∈ floatNames)

/-- A name that the MIR builder puts behind the tag of an optional, and that is no scalar. -/
def mirTaggedName (name : String) : Prop :=
  name ∈ tables.packedBits ∨
    name ∉ unitNames ∧ (tables.declaredInMir name ∨ SpelledAsInteger name)

/-- **A name of one class.**  Integers and floats are not declared anew, `bool` and the
addresses are not declared as packed bits, and what is spelled as an integer is declared. -/
def nameAlike (name : String) : Prop :=
  if name ∈ checkedIntNames ++ floatNames then ¬ tables.declaredInMir name
  else if name ∈ "bool" :: addressNames then name ∉ tables.packedBits
  else SpelledAsInteger name → tables.declaredInMir name

/-- A name that both or neither put behind the tag of an optional. -/
def payloadNameAlike (id : Ident) : Prop :=
  id.text ∈ scalarNames ∨
    (tables.mirTaggedName id.text ↔ tables.namedTypeIsKnownValue (.name id) = true)

variable {tables}

variable (tables) in
/-- The names that the MIR builder reads before its tables of enums and structs. -/
lemma namedValueType_first {name : String} (h : name ∈ unitNames ++ "bool" :: addressNames) :
    (tables.namedValueType name).scalarClass =
        (if name = "bool" then .bool else if name ∈ addressNames then .address else .other) ∧
      ((tables.namedValueType name).isTaggedPayload = true ↔ name ∉ unitNames) ∧
      ¬ SpelledAsInteger name ∧ name ∉ floatNames := by
  simp only [unitNames, addressNames, List.cons_append, List.nil_append, List.mem_cons,
    List.not_mem_nil, or_false] at h
  rcases h with rfl | rfl | rfl | rfl | rfl | rfl | rfl <;>
    exact ⟨rfl, by simp [namedValueType, ValueType.isTaggedPayload, unitNames], by decide,
      by decide⟩

variable (tables) in
/-- The names that the MIR builder reads by its tables or by their spelling. -/
lemma namedValueType_later {name : String} (h : name ∉ unitNames ++ "bool" :: addressNames) :
    (tables.namedValueType name).scalarClass =
        (if (tables.enums.lookup name).isSome ∨ name ∈ tables.mirStructs then .other
          else if SpelledAsInteger name then .integer
          else if name ∈ floatNames then .float
          else .other) ∧
      ((tables.namedValueType name).isTaggedPayload = true ↔
        (tables.enums.lookup name).isSome ∨ name ∈ tables.mirStructs ∨ SpelledAsInteger name ∨
          name ∈ floatNames) := by
  simp only [unitNames, addressNames, List.cons_append, List.nil_append, List.mem_cons,
    List.not_mem_nil, or_false, not_or] at h
  obtain ⟨hvoid, hnever, hcstr, hbool, hpaddr, hvaddr, hdma⟩ := h
  simp only [namedValueType, hvoid, hnever, hbool, hcstr, hpaddr, hvaddr, hdma, if_false]
  cases tables.enums.lookup name with
  | some info =>
    obtain ⟨isOpen⟩ := info
    cases isOpen <;> simp [ValueType.scalarClass, ValueType.isTaggedPayload]
  | none =>
    by_cases hstruct : name ∈ tables.mirStructs
    · simp [hstruct, ValueType.scalarClass, ValueType.isTaggedPayload]
    have hspelled : ∀ otherwise : ValueType,
        (if name = "IrqOff" then .integer name
          else if (startsWith "u" name || startsWith "i" name) = true then .integer name
          else otherwise) = if SpelledAsInteger name then .integer name else otherwise := by
      intro otherwise
      by_cases hirq : name = "IrqOff" <;> simp [hirq, SpelledAsInteger]
    rw [if_neg (by simpa using hstruct), hspelled]
    by_cases hspell : SpelledAsInteger name
    · simp [hspell, hstruct, ValueType.scalarClass, ValueType.isTaggedPayload]
    by_cases hfloat : name ∈ floatNames
    · have hname : (name = "f32" || name = "f64") = true := by simpa [floatNames] using hfloat
      simp [hspell, hstruct, hfloat, hname, ValueType.scalarClass, ValueType.isTaggedPayload]
    · have hname : (name = "f32" || name = "f64") = false := by simpa [floatNames] using hfloat
      simp [hspell, hstruct, hfloat, hname, ValueType.scalarClass, ValueType.isTaggedPayload]

lemma scalarClass_namedValueTypeAlias (name : String) :
    (tables.namedValueTypeAlias name).scalarClass =
      if name ∈ tables.packedBits then .other
      else if name = "bool" then .bool
      else if name ∈ addressNames then .address
      else if tables.declaredInMir name then .other
      else if SpelledAsInteger name then .integer
      else if name ∈ floatNames then .float
      else .other := by
  unfold namedValueTypeAlias
  by_cases hpacked : name ∈ tables.packedBits
  · simp [hpacked, ValueType.scalarClass]
  have hdeclared : tables.declaredInMir name ↔
      (tables.enums.lookup name).isSome ∨ name ∈ tables.mirStructs := by
    simp [declaredInMir, hpacked]
  rw [if_neg (by simpa using hpacked), if_neg hpacked]
  by_cases hfirst : name ∈ unitNames ++ "bool" :: addressNames
  · obtain ⟨hclass, -, hspelled, hfloat⟩ := namedValueType_first tables hfirst
    simp [hclass, hspelled, hfloat]
  · have hnames : name ≠ "bool" ∧ name ∉ addressNames := by
      simp only [List.mem_append, List.mem_cons, not_or] at hfirst
      exact hfirst.2
    simp [(namedValueType_later tables hfirst).1, hnames, hdeclared]

lemma isTaggedPayload_namedValueTypeAlias (name : String) :
    (tables.namedValueTypeAlias name).isTaggedPayload = true ↔
      name ∈ scalarNames ∨ tables.mirTaggedName name := by
  unfold namedValueTypeAlias mirTaggedName
  by_cases hpacked : name ∈ tables.packedBits
  · simp [hpacked, ValueType.isTaggedPayload]
  have hdeclared : tables.declaredInMir name ↔
      (tables.enums.lookup name).isSome ∨ name ∈ tables.mirStructs := by
    simp [declaredInMir, hpacked]
  rw [if_neg (by simpa using hpacked), hdeclared]
  by_cases hfirst : name ∈ unitNames ++ "bool" :: addressNames
  · obtain ⟨-, hpayload, hspelled, -⟩ := namedValueType_first tables hfirst
    rw [hpayload]
    rcases List.mem_append.mp hfirst with hunit | hscalar
    · simp [hpacked, hunit, unitNames_not_scalar name hunit]
    · have hmem : name ∈ scalarNames := mem_scalarNames.mpr (Or.inr (Or.inr hscalar))
      have hunit : name ∉ unitNames := fun h => unitNames_not_scalar name h hmem
      simp [hmem, hunit]
  · rw [(namedValueType_later tables hfirst).2, mem_scalarNames]
    rw [List.mem_append, not_or] at hfirst
    have hint := checkedIntNames_spelled name
    tauto

/-! ## What the MIR builder looks through -/

variable (tables)

/-- The type that the MIR builder reads in place of a generic type: `T` of `Secret<T>`, or what
the base is an alias of. -/
def lookedThrough (base : Ident) (args : List TypeExpr) : Option TypeExpr :=
  if base.text ∈ "Result" :: addressBases ||
      (tables.domainIntegerValueTypeAlias base.text args).isSome then none
  else (secretPayload base args).or (tables.aliases.lookup base.text)

variable {tables} in
lemma lookedThrough_lt {base : Ident} {args : List TypeExpr} {inner : TypeExpr}
    (h : tables.lookedThrough base args = some inner) :
    tables.level inner < tables.level (.generic base args) ∨
      tables.level inner ≤ tables.level (.generic base args) ∧
        sizeOf inner < sizeOf (TypeExpr.generic base args) := by
  unfold lookedThrough at h
  split at h
  · cases h
  rcases Option.or_eq_some_iff.mp h with hsecret | ⟨-, halias⟩
  · obtain ⟨-, rfl⟩ := secretPayload_eq_some_iff.mp hsecret
    exact Or.inr ⟨level_arg_le base inner, by simp; omega⟩
  · exact Or.inl (level_alias_lt (base_mem_followedNames base args) halias)

variable {tables} in
lemma lookedThrough_address {base : Ident} {args : List TypeExpr}
    (h : base.text ∈ addressBases) : tables.lookedThrough base args = none := by
  rw [lookedThrough, if_pos (by simp [h])]

lemma head_le (ty : TypeExpr) :
    tables.level (tables.head ty) < tables.level ty ∨
      tables.level (tables.head ty) ≤ tables.level ty ∧ sizeOf (tables.head ty) ≤ sizeOf ty := by
  have h := resolveAliasTypeDepth_le tables.toNameTables ty 0
  rwa [← resolveAliasType, resolveAliasType_eq_head] at h

/-- The depth at which the MIR builder finds a type that it does not look through, and that
type. -/
def mirHead (ty : TypeExpr) (depth : ℕ) : Option (ℕ × TypeExpr) :=
  if depth + tables.hops ty > depthGuard then none
  else
    match _ : tables.head ty with
    | .generic base args =>
      match _ : tables.lookedThrough base args with
      | some inner => mirHead inner 0
      | none => some (depth + tables.hops ty, .generic base args)
    | h => some (depth + tables.hops ty, h)
termination_by (tables.level ty, sizeOf ty)
decreasing_by
  have hle := head_le tables ty
  have hlt := lookedThrough_lt ‹tables.lookedThrough base args = some inner›
  rw [‹tables.head ty = .generic base args›] at hle
  rw [Prod.lex_def]
  omega

/-- The type is a pointer, or a value that the MIR builder puts behind the tag of an optional. -/
def mirPayload (ty : TypeExpr) (depth : ℕ) : Prop :=
  match tables.mirHead ty depth with
  | some (_, .pointer _ _) | some (_, .rawManyPointer _ _) | some (_, .slice _ _) => True
  | some (_, .name id) => id.text ∈ scalarNames ∨ tables.mirTaggedName id.text
  | some (_, .generic base args) =>
    base.text ∈ addressBases ∨ (tables.domainIntegerValueTypeAlias base.text args).isSome ∨
      base.text ≠ "Result" ∧ (base.text ∈ scalarNames ∨ tables.mirTaggedName base.text)
  | _ => False

/-- The MIR builder sees neither a scalar nor an optional. -/
def mirPlain (ty : TypeExpr) (depth : ℕ) : Prop :=
  match tables.mirHead ty depth with
  | some (_, .name id) => ¬ tables.mirScalarName id.text
  | some (_, .generic base _) =>
    base.text ∉ addressBases ∧ ¬ tables.mirScalarName base.text
  | some (inner, .nullable child) =>
    ¬ tables.mirPayload child (inner + 1) ∧ isDynTraitMirType child = false
  | _ => True

/-- The head is a pointer, or a value that the checker puts behind the tag of an optional. -/
def checkerPayload : TypeExpr → Prop
  | .pointer _ _ | .rawManyPointer _ _ => True
  | .slice _ child => typeNameEql child "c_void" = true
  | .name id => id.text ∈ scalarNames ∨ tables.namedTypeIsKnownValue (.name id) = true
  | .generic base _ => base.text ∈ addressBases
  | _ => False

/-- The checker sees neither a scalar nor an optional in the head. -/
def checkerPlain : TypeExpr → Prop
  | .name id => id.text ∉ scalarNames
  | .generic base _ => base.text ∉ addressBases
  | .nullable child =>
    ¬ tables.checkerPayload (tables.head child) ∧
      isDynTraitTypeExpr (tables.head child) = false
  | _ => True

/-! ## The condition -/

/-- **A payload that both put into an optional of one representation.**  A trait object stands
there under no alias; a slice is one of `c_void`; a generic payload is an address or nothing
that the MIR builder can store. -/
def payloadAlike (child : TypeExpr) (depth : ℕ) : Prop :=
  match tables.head child with
  | .dynTrait _ _ => isDynTraitMirType child = true
  | payload =>
    if depth + tables.hops child > depthGuard then ¬ tables.checkerPayload payload
    else
      match payload with
      | .slice _ element => typeNameEql element "c_void" = true
      | .name id => tables.payloadNameAlike id
      | .generic base _ => base.text ∈ addressBases ∨ ¬ tables.mirPayload child depth
      | _ => True

/-- **A type that both classify alike.** -/
def readAlike (ty : TypeExpr) : Prop :=
  if tables.hops ty > depthGuard then tables.checkerPlain (tables.head ty)
  else
    match tables.head ty with
    | .name id => tables.nameAlike id.text
    | .generic base _ => base.text ∈ addressBases ∨ tables.mirPlain ty 0
    | .nullable child => tables.payloadAlike child (tables.hops ty + 1)
    | _ => True

end DeclTables

end ModernC.Types
