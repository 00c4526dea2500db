import ModernC.Lower.AggregateDeps

/-!
# What a type holds by value

A declaration needs the complete definition of each aggregate that it holds by value.
-/

namespace ModernC.Lower.AggregateDeps

open Framework.PostOrder
open Optionals (TypeShape nullablePayloadIsValueType)
open Syntax (Ident Expr Mutability TypeExpr)
open Types

/-- What can hold an aggregate. -/
inductive Node where
  | type (ty : TypeExpr)
  | signature (id : ℕ)

/-- The generics that C has as their first argument. -/
def isTransparentBase (base : String) : Bool :=
  ["wrap", "sat", "serial", "counter", "Secret", "Duration", "atomic", "MaybeUninit", "Reg",
    "RegBits"].contains base

variable (ctx : DepContext)

def isAggregateName (name : String) : Bool :=
  (ctx.structs name).isSome || (ctx.taggedUnions name).isSome

/-- The target of an alias that does not name itself. -/
def aliasTarget (name : String) : Option TypeExpr :=
  match ctx.tables.aliases.lookup name with
  | none => none
  | some target => if typeName target = some name then none else some target

/-- **What is held by value.**  The C type of a value is the aggregate of a name. -/
inductive Holds : Node → String → Prop
  | aliased {id : Ident} {target : TypeExpr} {n : String}
      (h : aliasTarget ctx id.text = some target) (htarget : Holds (.type target) n) : Holds (.type (.name id)) n
  | named {id : Ident} (halias : aliasTarget ctx id.text = none)
      (h : isAggregateName ctx id.text = true) : Holds (.type (.name id)) id.text
  | qualified {mutability : Mutability} {child : TypeExpr} {n : String}
      (h : Holds (.type child) n) : Holds (.type (.qualified mutability child)) n
  | array {len : Expr} {child : TypeExpr} {n : String}
      (h : ctx.nameForType (.array len child) = .ok n) : Holds (.type (.array len child)) n
  | opt {child : TypeExpr} {n : String}
      (hvalue : nullablePayloadIsValueType ctx.tables child = true) (h : ctx.nameForType (.nullable child) = .ok n) : Holds (.type (.nullable child)) n
  | niche {child : TypeExpr} {n : String}
      (hvalue : nullablePayloadIsValueType ctx.tables child = false)
      (h : Holds (.type child) n) : Holds (.type (.nullable child)) n
  | result {base : Ident} {args : List TypeExpr} {n : String}
      (hbase : base.text = "Result" ∧ args.length = 2)
      (h : ctx.nameForType (.generic base args) = .ok n) : Holds (.type (.generic base args)) n
  | transparent {base : Ident} {arg : TypeExpr} {args : List TypeExpr} {n : String}
      (hbase : isTransparentBase base.text = true) (h : Holds (.type arg) n) :
      Holds (.type (.generic base (arg :: args))) n
  | signatureAlias {id : ℕ} {name n : String} {target : TypeExpr}
      (hshape : ctx.shapes[id]? = some (.name name))
      (halias : ctx.tables.aliases.lookup name = some target) (h : Holds (.type target) n) :
      Holds (.signature id) n
  | signatureNamed {id : ℕ} {name : String} (hshape : ctx.shapes[id]? = some (.name name))
      (halias : ctx.tables.aliases.lookup name = none) (h : isAggregateName ctx name = true) :
      Holds (.signature id) name
  | signatureQualified {id child : ℕ} {mutability : Mutability} {n : String}
      (hshape : ctx.shapes[id]? = some (.qualified mutability child))
      (h : Holds (.signature child) n) : Holds (.signature id) n
  | signatureArray {id child : ℕ} {length : Option ℕ} {n : String}
      (hshape : ctx.shapes[id]? = some (.array length child))
      (h : ctx.nameForSignature id = .ok n) : Holds (.signature id) n
  | signatureOpt {id child : ℕ} {n : String} (hshape : ctx.shapes[id]? = some (.nullable child))
      (hvalue : ctx.signaturePointerLike child = false) (h : ctx.nameForSignature id = .ok n) :
      Holds (.signature id) n
  | signatureResult {id : ℕ} {args : List ℕ} {n : String}
      (hshape : ctx.shapes[id]? = some (.generic "Result" args))
      (h : ctx.nameForSignature id = .ok n) : Holds (.signature id) n
  | signatureTransparent {id arg : ℕ} {args : List ℕ} {base n : String}
      (hshape : ctx.shapes[id]? = some (.generic base (arg :: args)))
      (hbase : isTransparentBase base = true) (h : Holds (.signature arg) n) :
      Holds (.signature id) n

/-- What the definition of a unit needs. -/
def Contains : AggregateEmitUnit → String → Prop
  | .structDecl decl, n => ∃ ty ∈ decl.fields, Holds ctx (.type ty) n
  | .array info, n => Holds ctx (.signature info.elementTypeId) n
  | .result info, n =>
    Holds ctx (.signature info.okTypeId) n ∨ Holds ctx (.signature info.errTypeId) n
  | .taggedUnion decl, n => ∃ ty ∈ decl.payloads, Holds ctx (.type ty) n
  | .opt info, n => Holds ctx (.signature info.payloadTypeId) n

end ModernC.Lower.AggregateDeps
