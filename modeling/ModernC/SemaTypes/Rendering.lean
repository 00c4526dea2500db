import ModernC.SemaTypes.Interning
import ModernC.Types.ValueType

/-!
# Types and their syntax

`toTypeExpr` renders a resolved type and `agreesWithSyntax` compares one with a type expression
without rendering it.  The table holds the types, and the spellings of the declarations stand
beside it.  Spans are left out, and so is allocation, which is taken to succeed.
-/

namespace ModernC.SemaTypes

open Syntax (Expr Ident TypeExpr)

/-! ## Spellings -/

/-- The spelling of a scalar or builtin. -/
def scalarSpelling : ResolvedType → Option String
  | .void_ => some "void"
  | .boolean => some "bool"
  | .integer ⟨true, .w8⟩ => some "i8"
  | .integer ⟨true, .w16⟩ => some "i16"
  | .integer ⟨true, .w32⟩ => some "i32"
  | .integer ⟨true, .w64⟩ => some "i64"
  | .integer ⟨true, .w128⟩ => some "i128"
  | .integer ⟨true, .pointer⟩ => some "isize"
  | .integer ⟨false, .w8⟩ => some "u8"
  | .integer ⟨false, .w16⟩ => some "u16"
  | .integer ⟨false, .w32⟩ => some "u32"
  | .integer ⟨false, .w64⟩ => some "u64"
  | .integer ⟨false, .w128⟩ => some "u128"
  | .integer ⟨false, .pointer⟩ => some "usize"
  | .float .f32 => some "f32"
  | .float .f64 => some "f64"
  | .builtin name => some name.spelling
  | _ => none

/-- The scalar type a builtin type name denotes. -/
def scalarByName (name : String) : Option ResolvedType :=
  [("void", (.void_ : ResolvedType)), ("bool", .boolean), ("u8", .integer ⟨false, .w8⟩),
    ("u16", .integer ⟨false, .w16⟩), ("u32", .integer ⟨false, .w32⟩),
    ("u64", .integer ⟨false, .w64⟩), ("u128", .integer ⟨false, .w128⟩),
    ("usize", .integer ⟨false, .pointer⟩), ("i8", .integer ⟨true, .w8⟩),
    ("i16", .integer ⟨true, .w16⟩), ("i32", .integer ⟨true, .w32⟩),
    ("i64", .integer ⟨true, .w64⟩), ("i128", .integer ⟨true, .w128⟩),
    ("isize", .integer ⟨true, .pointer⟩), ("f32", .float .f32), ("f64", .float .f64)].lookup name

/-- The table with the spellings of nominal, generic and trait declarations. -/
structure Resolved where
  table : Table := {}
  nominalNames : DefId → Option String := fun _ => none

namespace Resolved

def spelling (self : Resolved) (ty : ResolvedType) : Option String :=
  match scalarSpelling ty with
  | some name => some name
  | none =>
    match ty with
    | .nominal info => self.nominalNames info.defId
    | _ => none

def baseSpelling (self : Resolved) : GenericBase → Option String
  | .decl defId => self.nominalNames defId
  | .builtin name => some name.spelling

/-! ## Rendering -/

def nameType (name : String) : TypeExpr := .name ⟨name, 0⟩

/-- A pointer as written, before its nullability. -/
def pointerType (kind : PointerKind) (mutability : Mutability) (child : TypeExpr) : TypeExpr :=
  match kind with
  | .single => .pointer mutability.toSyntax child
  | .rawMany => .rawManyPointer mutability.toSyntax child

def signatureType (kind : SignatureKind) (params : List TypeExpr) (ret : TypeExpr) : TypeExpr :=
  match kind with
  | .fnPointer => .fnPointer params ret
  | .closure => .closureType params ret

/-- Render the type of an id, down to a depth. -/
def render (self : Resolved) : ℕ → TypeId → Option TypeExpr
  | 0, _ => none
  | fuel + 1, id => do
    match ← self.table.get id with
    | .nominal info => (self.nominalNames info.defId).map nameType
    | .pointer kind mutability nullable child => do
      let bare := pointerType kind mutability (← self.render fuel child)
      if nullable then some (.nullable bare) else some bare
    | .slice mutability child => (self.render fuel child).map (.slice mutability.toSyntax)
    | .array len child => (self.render fuel child).map (.array (.intLiteral (toString len.toNat)))
    | .optional child => (self.render fuel child).map .nullable
    | .result ok err => do
      some (.generic ⟨"Result", 0⟩ [← self.render fuel ok, ← self.render fuel err])
    | .signature kind params ret => do
      let params ← (self.table.list params).mapM (self.render fuel)
      some (signatureType kind params (← self.render fuel ret))
    | .generic base args => do
      let base ← self.baseSpelling base
      some (.generic ⟨base, 0⟩ (← (self.table.list args).mapM (self.render fuel)))
    | .qualified mutability child =>
      (self.render fuel child).map (.qualified mutability.toSyntax)
    | .dynTrait info =>
      (self.nominalNames info.trait).map fun name =>
        .dynTrait info.mutability.toSyntax ⟨name, 0⟩
    | ty => (scalarSpelling ty).map nameType

/-- Types are built out of types with smaller ids, so the depth is enough. -/
def toTypeExpr (self : Resolved) (id : TypeId) : Option TypeExpr := self.render (id.value + 1) id

/-! ## Comparing -/

/-- A length is compared only where the syntax states it as a literal. -/
def arrayLenAgrees (len : UInt64) (syntaxLen : Expr) : Bool :=
  match Types.integerLiteralValue syntaxLen with
  | none => true
  | some literal => if literal.negative then false else literal.magnitude == len.toNat

mutual

def agrees (self : Resolved) : ResolvedType → TypeExpr → Bool
  | ty, .name name =>
    match self.spelling ty with
    | none => false
    | some spelled => spelled == name.text
  | .qualified mutability child, .qualified mutability' node =>
    mutability == .fromSyntax mutability' && self.agreesId child node
  | .pointer kind mutability nullable child, .pointer mutability' node =>
    kind == .single && !nullable && mutability == .fromSyntax mutability' &&
      self.agreesId child node
  | .pointer kind mutability nullable child, .rawManyPointer mutability' node =>
    kind == .rawMany && !nullable && mutability == .fromSyntax mutability' &&
      self.agreesId child node
  | .slice mutability child, .slice mutability' node =>
    mutability == .fromSyntax mutability' && self.agreesId child node
  | .array len child, .array syntaxLen node =>
    self.agreesId child node && arrayLenAgrees len syntaxLen
  | .pointer kind mutability nullable child, .nullable node =>
    nullable && self.agrees (.pointer kind mutability false child) node
  | .optional inner, .nullable node => self.agreesId inner node
  | ty, .generic base args =>
    if base.text == "Result" && args.length == 2 then
      match ty with
      | .result ok err => self.listAgrees [ok, err] args
      | _ => false
    else
      match ty with
      | .generic base' run =>
        match self.baseSpelling base' with
        | none => false
        | some spelled => if spelled != base.text then false
          else self.listAgrees (self.table.list run) args
      | _ => false
  | .signature kind params ret, .fnPointer params' ret' =>
    kind == .fnPointer && self.listAgrees (self.table.list params) params' &&
      self.agreesId ret ret'
  | .signature kind params ret, .closureType params' ret' =>
    kind == .closure && self.listAgrees (self.table.list params) params' &&
      self.agreesId ret ret'
  | .dynTrait info, .dynTrait mutability' traitName =>
    info.mutability == .fromSyntax mutability' &&
      match self.nominalNames info.trait with
      | none => false
      | some spelled => spelled == traitName.text
  | _, _ => false

def agreesId (self : Resolved) (id : TypeId) (node : TypeExpr) : Bool :=
  match self.table.get id with
  | none => false
  | some ty => self.agrees ty node

def listAgrees (self : Resolved) : List TypeId → List TypeExpr → Bool
  | [], [] => true
  | id :: ids, item :: items => self.agreesId id item && self.listAgrees ids items
  | _, _ => false

end

def agreesWithSyntax (self : Resolved) (id : TypeId) (node : TypeExpr) : Bool :=
  self.agreesId id node

end Resolved

end ModernC.SemaTypes
