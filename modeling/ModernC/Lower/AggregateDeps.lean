import ModernC.Framework.PostOrder
import ModernC.Optionals.EmitterPaths

/-!
# The aggregates that a declaration needs

The C emitter writes the definitions of structs, arrays, results, tagged unions and optionals as
units.  A unit names the units that must come before it, from the types of the source or from the
table of signature types, after aliases, qualifiers and `Secret` have been followed.
-/

namespace ModernC.Lower.AggregateDeps

open Optionals (TypeShape nullablePayloadIsValueType)
open Syntax (TypeExpr)
open Types

/-! ## Declarations and units -/

structure StructDecl where
  name : String
  fields : List TypeExpr

structure UnionDecl where
  name : String
  cases : List (Option TypeExpr)

/-- The types of the cases that have one. -/
def UnionDecl.payloads (decl : UnionDecl) : List TypeExpr := decl.cases.filterMap id

structure ArrayInfo where
  name : String
  elementTypeId : ℕ

structure ResultInfo where
  name : String
  okTypeId : ℕ
  errTypeId : ℕ

structure OptInfo where
  name : String
  payloadTypeId : ℕ

inductive AggregateEmitUnit where
  | structDecl (decl : StructDecl)
  | array (info : ArrayInfo)
  | result (info : ResultInfo)
  | taggedUnion (decl : UnionDecl)
  | opt (info : OptInfo)

def aggregateUnitName : AggregateEmitUnit → String
  | .structDecl decl => decl.name
  | .array info => info.name
  | .result info => info.name
  | .taggedUnion decl => decl.name
  | .opt info => info.name

inductive Failure where
  | missingAggregateSignatureFact
  | unsupportedCEmission
  | endless
deriving DecidableEq

/-- The tables of the emitter and its names of types.  The children of a shape are interned before
it. -/
structure DepContext where
  tables : NameTables
  structs : String → Option StructDecl
  taggedUnions : String → Option UnionDecl
  shapes : List TypeShape
  nameForType : TypeExpr → Except Failure String
  nameForSignature : ℕ → Except Failure String
  ordered : ∀ {n : ℕ} {shape : TypeShape}, shapes[n]? = some shape →
    ∀ child ∈ shape.children, child < n

namespace DepContext

variable (ctx : DepContext)

/-- Aliases, qualifiers and `Secret` are followed, up to the depth guard. -/
def resolveAliasTypeDepth (ty : TypeExpr) (depth : ℕ) : TypeExpr :=
  if depth > depthGuard then ty
  else
    match ty with
    | .name id =>
      match ctx.tables.aliases.lookup id.text with
      | none => .name id
      | some target =>
        if typeName target = some id.text then .name id
        else resolveAliasTypeDepth target (depth + 1)
    | .qualified _ child => resolveAliasTypeDepth child depth
    | .generic base [arg] =>
      if base.text = "Secret" then resolveAliasTypeDepth arg (depth + 1) else .generic base [arg]
    | ty => ty
termination_by (depthGuard + 1 - depth, sizeOf ty)

def resolveAliasType (ty : TypeExpr) : TypeExpr := ctx.resolveAliasTypeDepth ty 0

def signaturePointerLike (n : ℕ) : Bool :=
  match _ : ctx.shapes[n]? with
  | some (.pointer _ _) | some (.rawManyPointer _ _) => true
  | some (.qualified _ child) => signaturePointerLike child
  | _ => false
termination_by n
decreasing_by exact ctx.ordered ‹_› _ (by simp [TypeShape.children])

end DepContext

end ModernC.Lower.AggregateDeps
