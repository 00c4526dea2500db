import ModernC.Layout.Layout

/-!
# The two reflection engines

Sizes, alignments, representation sizes and offsets as the checker (`sema_reflect.zig`) and the
MIR builder (`mir_reflect.zig`) fold them at compile time.  Both cut off the recursion by a
depth that they count differently, and both return nothing for what they do not cover.

The declarations of a module have distinct names, and so have the fields and cases of each.
-/

namespace ModernC.Layout

open Syntax (Expr TypeExpr Ident)

/-! ## Declarations -/

inductive TypeDecl where
  | struct (fields : List Field) (isCUnion : Bool)
  | packedBits (repr : TypeExpr) (fields : List String)
  | overlayUnion (fields : List Field)
  | taggedUnion (payloads : List (Option TypeExpr))
  | enum (repr : Option TypeExpr)
  | alias_ (target : TypeExpr)

abbrev Decls := String → Option TypeDecl

/-- `simpleNameType("isize")`, the representation of an enum that declares none. -/
def isizeType : TypeExpr := .name { text := "isize" }

def isPointerLikeGeneric (name : String) : Bool := name == "MmioPtr" || name == "UserPtr"

def isArithmeticLayoutGeneric (name : String) : Bool :=
  name == "wrap" || name == "sat" || name == "serial" || name == "counter" || name == "Duration"

/-- The argument whose layout a generic type has. -/
def layoutArgument (base : String) (args : List TypeExpr) : Option TypeExpr :=
  if base == "Reg" || base == "RegBits" then args.head?
  else if base == "atomic" || base == "MaybeUninit" || isArithmeticLayoutGeneric base then
    if args.length = 1 then args.head? else none
  else none

/-- The generic types that are a pointer. -/
def isPointerGeneric (base : String) (args : List TypeExpr) : Bool :=
  isPointerLikeGeneric base || (base == "DmaBuf" && args.length == 2)

def typeName : TypeExpr → Option String
  | .name id => some id.text
  | .qualified _ child => typeName child
  | _ => none

/-- `max_depth` of both engines. -/
def maxDepth : ℕ := 32

/-! ## The checker -/

namespace Sema

def tagSize : ℤ := 4

def tagAlign : ℤ := 4

structure PayloadLayout where
  hasPayload : Bool := false
  size : ℤ := 0
  alignment : ℤ := 1
deriving DecidableEq

section Unions

variable (sizeOf alignOf : TypeExpr → Option ℤ)

def payloadStep (state : PayloadLayout) : Option TypeExpr → Option PayloadLayout
  | none => some state
  | some ty => do
    let size ← sizeOf ty
    let alignment ← (alignOf ty).filter (0 < ·)
    some
      { hasPayload := true
        size := max state.size size
        alignment := max state.alignment alignment }

def comptimeTaggedUnionPayloadLayout (payloads : List (Option TypeExpr)) : Option PayloadLayout :=
  (payloads.foldlM (payloadStep sizeOf alignOf) {}).bind fun state =>
    (alignForward state.size state.alignment).map fun size => { state with size }

/-- The size of a tagged union; one without payloads is its tag. -/
def taggedUnionSize (payload : PayloadLayout) : Option ℤ :=
  if payload.hasPayload then do
    let start ← alignForward tagSize payload.alignment
    let stop ← comptimeLayoutAdd start payload.size
    alignForward stop (max tagAlign payload.alignment)
  else alignForward tagSize tagAlign

def taggedUnionAlign (payload : PayloadLayout) : ℤ :=
  if payload.hasPayload && decide (tagAlign < payload.alignment) then payload.alignment
  else tagAlign

/-- The alignment of a struct looks at the alignments alone. -/
def comptimeStructAlign (fields : List Field) : Option ℤ :=
  fields.foldlM (fun maxAlign field => (alignOf field.ty).map (max maxAlign)) 1

def comptimeStructLayout (fields : List Field) (isCUnion : Bool) (wanted : Option String) :
    Option StructLayout :=
  if isCUnion then unionLayout sizeOf alignOf wanted fields
  else structLayout sizeOf alignOf wanted comptimeLayoutAdd fields

def comptimeOverlayUnionSize (fields : List Field) : Option ℤ :=
  (unionLayout (nonNegative sizeOf) alignOf none fields).map StructLayout.size

def comptimeOverlayUnionAlign (fields : List Field) : Option ℤ :=
  fields.foldlM
    (fun maxAlign field => ((alignOf field.ty).filter (0 < ·)).map (max maxAlign)) 1

end Unions

/-- `comptimeTaggedOptionalLayout`: a presence byte, then the payload. -/
def comptimeTaggedOptionalLayout (size alignment : ℤ) : Option (ℤ × ℤ) :=
  if size < 0 ∨ alignment ≤ 0 then none
  else do
    let start ← alignForward 1 alignment
    let stop ← comptimeLayoutAdd start size
    let size ← alignForward stop alignment
    some (size, alignment)

variable (decls : Decls) (comptime : Expr → Option ℕ)

def resolveReflectionAlias (ty : TypeExpr) : ℕ → TypeExpr
  | 0 => ty
  | fuel + 1 =>
    match ty with
    | .name id =>
      match decls id.text with
      | some (.alias_ target) => resolveReflectionAlias target fuel
      | _ => ty
    | .qualified _ child => resolveReflectionAlias child fuel
    | _ => ty

/-- The size and alignment of a nullable type whose child is resolved. -/
def nullableLayout (sizeOf alignOf : TypeExpr → Option ℤ) : TypeExpr → Option (ℤ × ℤ)
  | .pointer _ _ | .rawManyPointer _ _ | .fnPointer _ _ => some (8, 8)
  | .dynTrait _ _ => some (16, 8)
  | .name id =>
    if id.text = "c_void" then none
    else do
      let size ← sizeOf (.name id)
      let alignment ← alignOf (.name id)
      comptimeTaggedOptionalLayout size alignment
  | _ => none

mutual

def comptimeSizeOf (ty : TypeExpr) (depth : ℕ) : Option ℤ :=
  if _h : maxDepth < depth then none
  else
    match ty with
    | .name id =>
      match scalarLayout id.text with
      | some size => some size
      | none =>
        match decls id.text with
        | some (.alias_ target) => comptimeSizeOf target (depth + 1)
        | some (.struct fields isCUnion) =>
          (comptimeStructLayout (fun ty => comptimeSizeOf ty (depth + 1))
            (fun ty => comptimeAlignOf ty (depth + 1)) fields isCUnion none).map StructLayout.size
        | some (.packedBits repr _) => comptimeSizeOf repr (depth + 1)
        | some (.overlayUnion fields) =>
          comptimeOverlayUnionSize (fun ty => comptimeSizeOf ty (depth + 1))
            (fun ty => comptimeAlignOf ty (depth + 1)) fields
        | some (.taggedUnion payloads) =>
          (comptimeTaggedUnionPayloadLayout (fun ty => comptimeSizeOf ty (depth + 2))
            (fun ty => comptimeAlignOf ty (depth + 2)) payloads).bind taggedUnionSize
        | some (.enum repr) => comptimeSizeOf (repr.getD isizeType) (depth + 1)
        | none => none
    | .pointer _ _ | .rawManyPointer _ _ | .fnPointer _ _ => some 8
    | .dynTrait _ _ | .closureType _ _ => some 16
    | .nullable child =>
      (nullableLayout (fun ty => comptimeSizeOf ty (depth + 2))
        (fun ty => comptimeAlignOf ty (depth + 2)) (resolveReflectionAlias decls child 65)).map
        Prod.fst
    | .slice _ _ => some 16
    | .generic base args =>
      if isPointerGeneric base.text args then some 8
      else
        match layoutArgument base.text args with
        | some arg => comptimeSizeOf arg (depth + 1)
        | none => none
    | .array len child => do
      let len ← parseArrayLen comptime len
      let elem ← comptimeSizeOf child (depth + 1)
      comptimeArraySize len elem
    | .qualified _ child => comptimeSizeOf child (depth + 1)
    | .enumLiteral _ | .member _ _ => none
  termination_by maxDepth + 1 - depth

def comptimeAlignOf (ty : TypeExpr) (depth : ℕ) : Option ℤ :=
  if _h : maxDepth < depth then none
  else
    match ty with
    | .name id =>
      match scalarLayout id.text with
      | some alignment => some alignment
      | none =>
        match decls id.text with
        | some (.alias_ target) => comptimeAlignOf target (depth + 1)
        | some (.struct fields _) =>
          comptimeStructAlign (fun ty => comptimeAlignOf ty (depth + 1)) fields
        | some (.packedBits repr _) => comptimeAlignOf repr (depth + 1)
        | some (.overlayUnion fields) =>
          comptimeOverlayUnionAlign (fun ty => comptimeAlignOf ty (depth + 1)) fields
        | some (.taggedUnion payloads) =>
          (comptimeTaggedUnionPayloadLayout (fun ty => comptimeSizeOf ty (depth + 2))
            (fun ty => comptimeAlignOf ty (depth + 2)) payloads).map taggedUnionAlign
        | some (.enum repr) => comptimeAlignOf (repr.getD isizeType) (depth + 1)
        | none => none
    | .pointer _ _ | .rawManyPointer _ _ | .fnPointer _ _ | .slice _ _ | .dynTrait _ _
    | .closureType _ _ => some 8
    | .nullable child =>
      (nullableLayout (fun ty => comptimeSizeOf ty (depth + 2))
        (fun ty => comptimeAlignOf ty (depth + 2)) (resolveReflectionAlias decls child 65)).map
        Prod.snd
    | .generic base args =>
      if isPointerGeneric base.text args then some 8
      else
        match layoutArgument base.text args with
        | some arg => comptimeAlignOf arg (depth + 1)
        | none => none
    | .array _ child => comptimeAlignOf child (depth + 1)
    | .qualified _ child => comptimeAlignOf child (depth + 1)
    | .enumLiteral _ | .member _ _ => none
  termination_by maxDepth + 1 - depth

end

def comptimeFieldOffset (ty : TypeExpr) (field : String) (depth : ℕ) : Option ℤ :=
  if _h : maxDepth < depth then none
  else
    match (typeName ty).bind decls with
    | some (.alias_ target) => comptimeFieldOffset target field (depth + 1)
    | some (.struct fields isCUnion) =>
      (comptimeStructLayout (fun ty => comptimeSizeOf decls comptime ty (depth + 2))
        (fun ty => comptimeAlignOf decls comptime ty (depth + 2)) fields isCUnion
        (some field)).bind StructLayout.fieldOffset
    | some (.overlayUnion fields) =>
      if fields.any fun declared => declared.name == field then some 0 else none
    | _ => none
  termination_by maxDepth + 1 - depth

def comptimeBitOffset (ty : TypeExpr) (field : String) (depth : ℕ) : Option ℤ :=
  if _h : maxDepth < depth then none
  else
    match (typeName ty).bind decls with
    | some (.alias_ target) => comptimeBitOffset target field (depth + 1)
    | some (.packedBits _ fields) => (fields.idxOf? field).map Nat.cast
    | some _ => (comptimeFieldOffset decls comptime ty field (depth + 1)).bind Layout.comptimeBitOffset
    | none => none
  termination_by maxDepth + 1 - depth

def comptimeReprOf (ty : TypeExpr) (depth : ℕ) : Option ℤ :=
  if _h : maxDepth < depth then none
  else
    match ty with
    | .name id =>
      match scalarLayout id.text with
      | some size => some size
      | none =>
        match decls id.text with
        | some (.alias_ target) => comptimeReprOf target (depth + 1)
        | some (.enum repr) => comptimeSizeOf decls comptime (repr.getD isizeType) (depth + 1)
        | some (.packedBits repr _) => comptimeSizeOf decls comptime repr (depth + 1)
        | some (.taggedUnion _) => some tagSize
        | _ => comptimeSizeOf decls comptime (.name id) (depth + 1)
    | .pointer _ _ | .rawManyPointer _ _ | .slice _ _ | .array _ _ | .generic _ _ =>
      comptimeSizeOf decls comptime ty (depth + 1)
    | .qualified _ child => comptimeReprOf child (depth + 1)
    | _ => none
  termination_by maxDepth + 1 - depth

end Sema

/-! ## The MIR builder -/

namespace Mir

structure PayloadState where
  size : ℤ := 1
  alignment : ℤ := 1
deriving DecidableEq

structure TaggedUnionLayout where
  size : ℤ
  alignment : ℤ
  payloadSize : ℤ
  payloadAlignment : ℤ
  paddingSize : ℤ
  storageCount : ℤ
  payloadFieldIndex : ℕ
deriving DecidableEq

section Unions

variable (sizeOf alignOf : TypeExpr → Option ℤ)

def payloadStep (state : PayloadState) : Option TypeExpr → Option PayloadState
  | none => some state
  | some ty => do
    let size ← (nonNegative sizeOf ty).bind castU64
    let alignment ← ((alignOf ty).filter (0 < ·)).bind castU64
    some { size := max state.size size, alignment := max state.alignment alignment }

/-- The layout around the largest payload, which is taken to have at least one byte. -/
def layoutAround (state : PayloadState) : Option TaggedUnionLayout :=
  if state.alignment ∈ [1, 2, 4, 8] then do
    let payloadOffset ← alignForward 4 state.alignment
    let alignedSize ← alignForward state.size state.alignment
    let stop ← comptimeLayoutAdd payloadOffset alignedSize
    let size ← (alignForward stop (max 4 state.alignment)).bind castU64
    some
      { size
        alignment := max 4 state.alignment
        payloadSize := state.size
        payloadAlignment := state.alignment
        paddingSize := payloadOffset - 4
        storageCount := max 1 (alignedSize / state.alignment)
        payloadFieldIndex := if payloadOffset = 4 then 1 else 2 }
  else none

/-- `comptimeTaggedUnionLayout` of `layout.zig`. -/
def comptimeTaggedUnionLayout (payloads : List (Option TypeExpr)) : Option TaggedUnionLayout :=
  (payloads.foldlM (payloadStep sizeOf alignOf) {}).bind layoutAround

def comptimeStructLayout (fields : List Field) (isCUnion : Bool) (wanted : Option String) :
    Option StructLayout :=
  if isCUnion then unionLayout (nonNegative sizeOf) alignOf wanted fields
  else structLayout sizeOf alignOf wanted addI128 fields

end Unions

/-- The fields of the structs and overlay unions, which share one table. -/
def structSummary : TypeDecl → Option (List Field × Bool)
  | .struct fields isCUnion => some (fields, isCUnion)
  | .overlayUnion fields => some (fields, true)
  | _ => none

variable (decls : Decls)

mutual

def comptimeSizeOf (ty : TypeExpr) (depth : ℕ) : Option ℤ :=
  if _h : maxDepth < depth then none
  else
    match ty with
    | .name id =>
      match scalarLayout id.text with
      | some size => some size
      | none =>
        match decls id.text with
        | some (.alias_ target) => comptimeSizeOf target (depth + 1)
        | some (.struct fields isCUnion) =>
          if maxDepth < depth + 1 then none
          else
            (comptimeStructLayout (fun ty => comptimeSizeOf ty (depth + 2))
              (fun ty => comptimeAlignOf ty (depth + 2)) fields isCUnion none).map
              StructLayout.size
        | some (.overlayUnion fields) =>
          if maxDepth < depth + 1 then none
          else
            (comptimeStructLayout (fun ty => comptimeSizeOf ty (depth + 2))
              (fun ty => comptimeAlignOf ty (depth + 2)) fields true none).map StructLayout.size
        | some (.taggedUnion payloads) =>
          if maxDepth < depth + 1 then none
          else
            (comptimeTaggedUnionLayout (fun ty => comptimeSizeOf ty (depth + 2))
              (fun ty => comptimeAlignOf ty (depth + 2)) payloads).map TaggedUnionLayout.size
        | some (.enum repr) => comptimeSizeOf (repr.getD isizeType) (depth + 1)
        | some (.packedBits repr _) => comptimeSizeOf repr (depth + 1)
        | none => none
    | .pointer _ _ | .rawManyPointer _ _ => some 8
    | .slice _ _ => some 16
    | .generic base args =>
      if isPointerGeneric base.text args then some 8
      else
        match layoutArgument base.text args with
        | some arg => comptimeSizeOf arg (depth + 1)
        | none => none
    | .array len child => do
      let len ← parseArrayLen (fun _ => none) len
      let elem ← comptimeSizeOf child (depth + 1)
      comptimeArraySize len elem
    | .qualified _ child => comptimeSizeOf child (depth + 1)
    | _ => none
  termination_by maxDepth + 1 - depth

def comptimeAlignOf (ty : TypeExpr) (depth : ℕ) : Option ℤ :=
  if _h : maxDepth < depth then none
  else
    match ty with
    | .name id =>
      match scalarLayout id.text with
      | some alignment => some alignment
      | none =>
        match decls id.text with
        | some (.alias_ target) => comptimeAlignOf target (depth + 1)
        | some (.struct fields isCUnion) =>
          if maxDepth < depth + 1 then none
          else
            (comptimeStructLayout (fun ty => comptimeSizeOf ty (depth + 2))
              (fun ty => comptimeAlignOf ty (depth + 2)) fields isCUnion none).map
              StructLayout.alignment
        | some (.overlayUnion fields) =>
          if maxDepth < depth + 1 then none
          else
            (comptimeStructLayout (fun ty => comptimeSizeOf ty (depth + 2))
              (fun ty => comptimeAlignOf ty (depth + 2)) fields true none).map
              StructLayout.alignment
        | some (.taggedUnion payloads) =>
          if maxDepth < depth + 1 then none
          else
            (comptimeTaggedUnionLayout (fun ty => comptimeSizeOf ty (depth + 2))
              (fun ty => comptimeAlignOf ty (depth + 2)) payloads).map
              TaggedUnionLayout.alignment
        | some (.enum repr) => comptimeAlignOf (repr.getD isizeType) (depth + 1)
        | some (.packedBits repr _) => comptimeAlignOf repr (depth + 1)
        | none => none
    | .pointer _ _ | .rawManyPointer _ _ | .slice _ _ => some 8
    | .generic base args =>
      if isPointerGeneric base.text args then some 8
      else
        match layoutArgument base.text args with
        | some arg => comptimeAlignOf arg (depth + 1)
        | none => none
    | .array _ child => comptimeAlignOf child (depth + 1)
    | .qualified _ child => comptimeAlignOf child (depth + 1)
    | _ => none
  termination_by maxDepth + 1 - depth

end

def comptimeFieldOffset (ty : TypeExpr) (field : String) (depth : ℕ) : Option ℤ :=
  if _h : maxDepth < depth then none
  else
    match (typeName ty).bind decls with
    | some (.alias_ target) => comptimeFieldOffset target field (depth + 1)
    | some decl =>
      if maxDepth < depth + 1 then none
      else
        (structSummary decl).bind fun (fields, isCUnion) =>
          (comptimeStructLayout (fun ty => comptimeSizeOf decls ty (depth + 2))
            (fun ty => comptimeAlignOf decls ty (depth + 2)) fields isCUnion
            (some field)).bind StructLayout.fieldOffset
    | none => none
  termination_by maxDepth + 1 - depth

def comptimeBitOffset (ty : TypeExpr) (field : String) (depth : ℕ) : Option ℤ :=
  if _h : maxDepth < depth then none
  else
    match (typeName ty).bind decls with
    | some (.alias_ target) => comptimeBitOffset target field (depth + 1)
    | some (.packedBits _ fields) => (fields.idxOf? field).map Nat.cast
    | some _ => (comptimeFieldOffset decls ty field (depth + 1)).bind (mulI128 · 8)
    | none => none
  termination_by maxDepth + 1 - depth

def comptimeReprOf (ty : TypeExpr) (depth : ℕ) : Option ℤ :=
  if _h : maxDepth < depth then none
  else
    match ty with
    | .name id =>
      match scalarLayout id.text with
      | some size => some size
      | none =>
        match decls id.text with
        | some (.alias_ target) => comptimeReprOf target (depth + 1)
        | some (.enum repr) => comptimeSizeOf decls (repr.getD isizeType) (depth + 1)
        | some (.packedBits repr _) => comptimeSizeOf decls repr (depth + 1)
        | some (.taggedUnion _) => some 4
        | _ => comptimeSizeOf decls (.name id) (depth + 1)
    | .pointer _ _ | .rawManyPointer _ _ | .slice _ _ | .array _ _ | .generic _ _ =>
      comptimeSizeOf decls ty (depth + 1)
    | .qualified _ child => comptimeReprOf child (depth + 1)
    | _ => none
  termination_by maxDepth + 1 - depth

end Mir

/-! ## Queries -/

inductive Query where
  | size
  | alignment
  | fieldOffset (field : String)
  | bitOffset (field : String)
  | repr
deriving DecidableEq

def Sema.reflect (decls : Decls) (comptime : Expr → Option ℕ) (query : Query) (ty : TypeExpr) :
    Option ℤ :=
  match query with
  | .size => comptimeSizeOf decls comptime ty 0
  | .alignment => comptimeAlignOf decls comptime ty 0
  | .fieldOffset field => comptimeFieldOffset decls comptime ty field 0
  | .bitOffset field => comptimeBitOffset decls comptime ty field 0
  | .repr => comptimeReprOf decls comptime ty 0

def Mir.reflect (decls : Decls) (query : Query) (ty : TypeExpr) : Option ℤ :=
  match query with
  | .size => comptimeSizeOf decls ty 0
  | .alignment => comptimeAlignOf decls ty 0
  | .fieldOffset field => comptimeFieldOffset decls ty field 0
  | .bitOffset field => comptimeBitOffset decls ty field 0
  | .repr => comptimeReprOf decls ty 0

end ModernC.Layout
