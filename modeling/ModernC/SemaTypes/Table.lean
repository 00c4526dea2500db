import ModernC.Syntax.Ast

/-!
# Interned types

The resolved types of `sema_types.zig` and the table that interns them.  A resolved type refers
to other types by id and to a run of types by a `TypeList`; `Node` is generic in both, so that
the tree a type denotes is built from the same constructors (`Shape`).

The hash index is the list of its entries, searched with the equality it is given.  Ids and runs
are natural numbers: a table that outgrows `u32` stops the compiler.
-/

namespace ModernC.SemaTypes

/-! ## Resolved types -/

inductive IntWidth where
  | w8
  | w16
  | w32
  | w64
  | w128
  | pointer
deriving DecidableEq

inductive FloatWidth where
  | f32
  | f64
deriving DecidableEq

inductive Builtin where
  | never
  | order
  | cstr
  | paddr
  | vaddr
  | dmaAddr
  | cVoid
  | vaList
deriving DecidableEq

def Builtin.spelling : Builtin → String
  | .never => "never"
  | .order => "Order"
  | .cstr => "cstr"
  | .paddr => "PAddr"
  | .vaddr => "VAddr"
  | .dmaAddr => "DmaAddr"
  | .cVoid => "c_void"
  | .vaList => "va_list"

/-- `Builtin.fromName`. -/
def Builtin.fromName (name : String) : Option Builtin :=
  [("never", Builtin.never), ("Order", .order), ("cstr", .cstr), ("PAddr", .paddr),
    ("VAddr", .vaddr), ("DmaAddr", .dmaAddr), ("c_void", .cVoid), ("va_list", .vaList)].lookup name

inductive Mutability where
  | none
  | mut
  | constant
deriving DecidableEq

def Mutability.fromSyntax : Syntax.Mutability → Mutability
  | .none => .none
  | .mutable => .mut
  | .constant => .constant

def Mutability.toSyntax : Mutability → Syntax.Mutability
  | .none => .none
  | .mut => .mutable
  | .constant => .constant

@[simp] lemma Mutability.fromSyntax_toSyntax (mutability : Mutability) :
    Mutability.fromSyntax mutability.toSyntax = mutability := by
  cases mutability <;> rfl

/-- Declaration identity. -/
structure DefId where
  fileId : ℕ
  ordinal : ℕ
deriving DecidableEq

inductive NominalKind where
  | struct_
  | enum_
  | taggedUnion
  | overlayUnion
  | packedBits
  | alias
  | opaqueType
  | trait
deriving DecidableEq

structure Nominal where
  defId : DefId
  kind : NominalKind
deriving DecidableEq

inductive PointerKind where
  | single
  | rawMany
deriving DecidableEq

structure Integer where
  signed : Bool
  width : IntWidth
deriving DecidableEq

inductive SignatureKind where
  | fnPointer
  | closure
deriving DecidableEq

inductive BuiltinGeneric where
  | atomic
  | dmaBuf
  | userPtr
  | mmioPtr
  | physPtr
  | secret
  | wrap
  | sat
  | serial
  | counter
  | duration
  | maybeUninit
deriving DecidableEq

def BuiltinGeneric.spelling : BuiltinGeneric → String
  | .atomic => "atomic"
  | .dmaBuf => "DmaBuf"
  | .userPtr => "UserPtr"
  | .mmioPtr => "MmioPtr"
  | .physPtr => "PhysPtr"
  | .secret => "Secret"
  | .wrap => "wrap"
  | .sat => "sat"
  | .serial => "serial"
  | .counter => "counter"
  | .duration => "Duration"
  | .maybeUninit => "MaybeUninit"

/-- `BuiltinGeneric.fromName`. -/
def BuiltinGeneric.fromName (name : String) : Option BuiltinGeneric :=
  [("atomic", BuiltinGeneric.atomic), ("DmaBuf", .dmaBuf), ("UserPtr", .userPtr),
    ("MmioPtr", .mmioPtr), ("PhysPtr", .physPtr), ("Secret", .secret), ("wrap", .wrap),
    ("sat", .sat), ("serial", .serial), ("counter", .counter), ("Duration", .duration),
    ("MaybeUninit", .maybeUninit)].lookup name

inductive GenericBase where
  | decl (defId : DefId)
  | builtin (name : BuiltinGeneric)
deriving DecidableEq

structure DynTrait where
  mutability : Mutability
  trait : DefId
deriving DecidableEq

/-- A type built out of types `ι` and runs of types `κ`. -/
inductive Node (ι κ : Type) where
  | void_
  | boolean
  | integer (info : Integer)
  | float (width : FloatWidth)
  | builtin (name : Builtin)
  | nominal (info : Nominal)
  | pointer (kind : PointerKind) (mutability : Mutability) (nullable : Bool) (child : ι)
  | slice (mutability : Mutability) (child : ι)
  | array (len : UInt64) (child : ι)
  | optional (child : ι)
  | result (ok err : ι)
  | signature (kind : SignatureKind) (params : κ) (ret : ι)
  | generic (base : GenericBase) (args : κ)
  | qualified (mutability : Mutability) (child : ι)
  | dynTrait (info : DynTrait)
deriving DecidableEq

structure TypeId where
  value : ℕ
deriving DecidableEq

/-- A run in the list storage of the table. -/
structure TypeList where
  start : ℕ
  len : ℕ
deriving DecidableEq

def TypeList.empty : TypeList := ⟨0, 0⟩

def TypeList.eql (self other : TypeList) : Bool :=
  if self.len != other.len then false else self.len == 0 || self.start == other.start

abbrev ResolvedType := Node TypeId TypeList

/-- `ResolvedType.eql`: runs are compared with `TypeList.eql`, everything else as it is. -/
def ResolvedType.eql : ResolvedType → ResolvedType → Bool
  | .signature kind params ret, .signature kind' params' ret' =>
    kind == kind' && params.eql params' && ret == ret'
  | .generic base args, .generic base' args' => base == base' && args.eql args'
  | self, other => self == other

namespace Node

variable {ι κ ι' κ' : Type}

/-- The types a type is built out of, other than those in its runs. -/
def children : Node ι κ → List ι
  | .pointer _ _ _ child | .slice _ child | .array _ child | .optional child
  | .signature _ _ child | .qualified _ child => [child]
  | .result ok err => [ok, err]
  | _ => []

def runs : Node ι κ → List κ
  | .signature _ run _ | .generic _ run => [run]
  | _ => []

/-- Replace the components of a type where every one of them has a replacement. -/
def traverse (f : ι → Option ι') (g : κ → Option κ') : Node ι κ → Option (Node ι' κ')
  | .void_ => some .void_
  | .boolean => some .boolean
  | .integer info => some (.integer info)
  | .float width => some (.float width)
  | .builtin name => some (.builtin name)
  | .nominal info => some (.nominal info)
  | .pointer kind mutability nullable child =>
    (f child).map (.pointer kind mutability nullable)
  | .slice mutability child => (f child).map (.slice mutability)
  | .array len child => (f child).map (.array len)
  | .optional child => (f child).map .optional
  | .result ok err => do some (.result (← f ok) (← f err))
  | .signature kind params ret => do some (.signature kind (← g params) (← f ret))
  | .generic base args => (g args).map (.generic base)
  | .qualified mutability child => (f child).map (.qualified mutability)
  | .dynTrait info => some (.dynTrait info)

end Node

/-- What a type denotes: the same constructors all the way down. -/
inductive Shape where
  | node (head : Node Shape (List Shape))

/-! ## The table -/

structure Table where
  types : List ResolvedType := []
  index : List (ResolvedType × TypeId) := []
  listItems : List TypeId := []
  listRuns : List TypeList := []

namespace Table

def get (t : Table) (id : TypeId) : Option ResolvedType := t.types[id.value]?

def list (t : Table) (run : TypeList) : List TypeId := (t.listItems.drop run.start).take run.len

def intern (t : Table) (ty : ResolvedType) : TypeId × Table :=
  match t.index.find? fun slot => ResolvedType.eql slot.1 ty with
  | some slot => (slot.2, t)
  | none =>
    let id : TypeId := ⟨t.types.length⟩
    (id, { t with types := t.types ++ [ty], index := t.index ++ [(ty, id)] })

def internList (t : Table) (ids : List TypeId) : TypeList × Table :=
  if ids.isEmpty then (.empty, t)
  else
    match t.listRuns.find? fun run => run.len == ids.length && t.list run == ids with
    | some run => (run, t)
    | none =>
      let run : TypeList := ⟨t.listItems.length, ids.length⟩
      (run, { t with listItems := t.listItems ++ ids, listRuns := t.listRuns ++ [run] })

end Table

/-! ## Calls on a table -/

/-- What a caller may intern: ids and runs that the table has given out, with the one kind of
each nominal declaration, and no optional of a pointer. -/
structure Admits (kindOf : DefId → NominalKind) (t : Table) (ty : ResolvedType) : Prop where
  children : ∀ id ∈ ty.children, id.value < t.types.length
  runs : ∀ run ∈ ty.runs, run = .empty ∨ run ∈ t.listRuns
  nominal : ∀ info, ty = .nominal info → info.kind = kindOf info.defId
  optional : ∀ id, ty = .optional id → ∀ kind mutability nullable child,
    t.get id ≠ some (.pointer kind mutability nullable child)

/-- One call of `intern` or `internList`. -/
inductive Call (kindOf : DefId → NominalKind) : Table → Table → Prop where
  | intern {t : Table} {ty : ResolvedType} (h : Admits kindOf t ty) : Call kindOf t (t.intern ty).2
  | internList {t : Table} {ids : List TypeId} (h : ∀ id ∈ ids, id.value < t.types.length) :
      Call kindOf t (t.internList ids).2

end ModernC.SemaTypes
