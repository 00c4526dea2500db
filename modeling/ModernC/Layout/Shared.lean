import ModernC.Framework.NullOrTrap
import ModernC.Layout.Reflection

/-!
# The shared layout of aggregates

`layout.zig` lays out structs, C unions, tagged unions and optionals for both backends.  The size
and the alignment of a type come from callbacks.  A computation returns nothing where a quantity
leaves the layout domain or a check fails; arithmetic without a check would trap instead.
-/

namespace ModernC.Layout.Shared

open Framework (Stop orNull)
open Syntax (TypeExpr)

/-! ## The layout domain -/

/-- A value of the 128-bit signed layout domain. -/
abbrev I128 := {value : ℤ // minI128 ≤ value ∧ value ≤ maxI128}

/-- A backend: the size and the alignment of a type at a depth. -/
structure Backend where
  sizeOf : TypeExpr → ℕ → Option I128
  alignOf : TypeExpr → ℕ → Option I128

/-- A difference that the source does not check. -/
def subI128 (left right : ℤ) : Except Stop ℤ :=
  if minI128 ≤ left - right ∧ left - right ≤ maxI128 then .ok (left - right) else .error .trap

/-- A difference of unsigned words that the source does not check. -/
def subU64 (left right : ℤ) : Except Stop ℤ :=
  if right ≤ left then .ok (left - right) else .error .trap

/-- A quotient of unsigned words. -/
def divU64 (left right : ℤ) : Except Stop ℤ :=
  if right = 0 then .error .trap else .ok (left / right)

def alignForward (value alignment : ℤ) : Except Stop ℤ :=
  if alignment ≤ 0 then .error .null
  else if value.tmod alignment = 0 then .ok value
  else do
    let gap ← subI128 alignment (value.tmod alignment)
    orNull (addI128 value gap)

/-! ## Declarations -/

structure FieldDecl where
  name : String
  ty : TypeExpr
  offset : Option UInt64 := none

structure StructDecl where
  isCUnion : Bool
  fields : List FieldDecl

variable (backend : Backend)

/-- The size and the alignment of a type, of which neither may be negative and the second may not
be zero. -/
def extentOf (ty : TypeExpr) (depth : ℕ) : Except Stop (ℤ × ℤ) := do
  let size ← orNull (backend.sizeOf ty depth)
  let alignment ← orNull (backend.alignOf ty depth)
  if size.1 < 0 then .error .null
  else if alignment.1 ≤ 0 then .error .null
  else .ok (size.1, alignment.1)

/-- An explicit offset must not overlap the fields before it. -/
def fieldStart (offset alignment : ℤ) : Option UInt64 → Except Stop ℤ
  | some explicit => if (explicit.toNat : ℤ) < offset then .error .null else .ok explicit.toNat
  | none => alignForward offset alignment

def foundAt (wanted : Option String) (field : FieldDecl) (offset : ℤ) (found : Option ℤ) :
    Option ℤ :=
  if wanted = some field.name then some offset else found

/-! ## Structs -/

/-- A field of a struct. -/
def structStep (wanted : Option String) (depth : ℕ) (state : LayoutState) (field : FieldDecl) :
    Except Stop LayoutState := do
  let (size, alignment) ← extentOf backend field.ty (depth + 1)
  let start ← fieldStart state.offset alignment field.offset
  let stop ← orNull (comptimeLayoutAdd start size)
  .ok
    { offset := stop
      maxAlign := max state.maxAlign alignment
      found := foundAt wanted field start state.found }

/-- A field of a C union. -/
def unionStep (wanted : Option String) (depth : ℕ) (state : LayoutState) (field : FieldDecl) :
    Except Stop LayoutState := do
  let (size, alignment) ← extentOf backend field.ty (depth + 1)
  .ok
    { offset := max state.offset size
      maxAlign := max state.maxAlign alignment
      found := foundAt wanted field 0 state.found }

def fieldStep (isCUnion : Bool) (wanted : Option String) (depth : ℕ) :
    LayoutState → FieldDecl → Except Stop LayoutState :=
  if isCUnion then unionStep backend wanted depth else structStep backend wanted depth

def finishLayout (state : LayoutState) : Except Stop StructLayout := do
  let size ← alignForward state.offset state.maxAlign
  .ok { size, alignment := state.maxAlign, fieldOffset := state.found }

def comptimeStructLayout (decl : StructDecl) (wanted : Option String) (depth : ℕ) :
    Except Stop StructLayout :=
  if 32 < depth then .error .null
  else do
    let state ← decl.fields.foldlM (fieldStep backend decl.isCUnion wanted depth) {}
    finishLayout state

/-! ## Tagged unions and optionals -/

/-- The largest payload so far. -/
structure Payload where
  size : ℤ := 1
  alignment : ℤ := 1

/-- A case of a tagged union, of which some have no payload. -/
def payloadStep (depth : ℕ) (payload : Payload) : Option TypeExpr → Except Stop Payload
  | none => .ok payload
  | some ty => do
    let (size, alignment) ← extentOf backend ty (depth + 1)
    let size ← orNull (castU64 size)
    let alignment ← orNull (castU64 alignment)
    .ok { size := max payload.size size, alignment := max payload.alignment alignment }

def payloadLayout (payload : Payload) : Except Stop Mir.TaggedUnionLayout :=
  if payload.alignment ≠ 1 ∧ payload.alignment ≠ 2 ∧ payload.alignment ≠ 4 ∧
      payload.alignment ≠ 8 then .error .null
  else do
    let payloadOffset ← alignForward 4 payload.alignment
    let alignedPayloadSize ← alignForward payload.size payload.alignment
    let totalAlignment := max 4 payload.alignment
    let payloadEnd ← orNull (comptimeLayoutAdd payloadOffset alignedPayloadSize)
    let size ← alignForward payloadEnd totalAlignment
    let payloadOffset ← orNull (castU64 payloadOffset)
    let alignedPayloadSize ← orNull (castU64 alignedPayloadSize)
    let size ← orNull (castU64 size)
    let paddingSize ← subU64 payloadOffset 4
    let storageCount ← divU64 alignedPayloadSize payload.alignment
    .ok
      { size
        alignment := totalAlignment
        payloadSize := payload.size
        payloadAlignment := payload.alignment
        paddingSize
        storageCount := max 1 storageCount
        payloadFieldIndex := if payloadOffset = 4 then 1 else 2 }

def comptimeTaggedUnionLayout (cases : List (Option TypeExpr)) (depth : ℕ) :
    Except Stop Mir.TaggedUnionLayout :=
  if 32 < depth then .error .null
  else do
    let payload ← cases.foldlM (payloadStep backend depth) {}
    payloadLayout payload

structure OptionalLayout where
  size : ℤ
  alignment : ℤ
  payloadOffset : ℤ
deriving DecidableEq

def comptimeTaggedOptionalLayout (payloadSize payloadAlignment : ℤ) : Except Stop OptionalLayout :=
  if payloadSize < 0 ∨ payloadAlignment ≤ 0 then .error .null
  else do
    let payloadOffset ← alignForward 1 payloadAlignment
    let stop ← orNull (comptimeLayoutAdd payloadOffset payloadSize)
    let size ← alignForward stop payloadAlignment
    .ok { size, alignment := payloadAlignment, payloadOffset }

end ModernC.Layout.Shared
