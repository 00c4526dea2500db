import Mathlib.Data.List.Basic

/-!
# The MIR data read by the ownership checks

The records of `mir_model.zig` that the ownership-event verifier and the cleanup tables
read.  A `TypedIndex` keeps the raw number of the source; its `u32` sentinel is the invalid
index.  Indices, generations and loan ids are natural numbers: none of the modelled
functions wraps, and an overflowing `generation + 1`, which stops the compiler, is a
generation that no event carries.
-/

namespace ModernC.Mir

/-! ## Typed indices -/

/-- `std.math.maxInt(u32)`, the raw value of every invalid index. -/
def maxU32 : ℕ := 4294967295

/-- `std.math.maxInt(usize)`, the position that stands for no event or action. -/
def maxUsize : ℕ := 18446744073709551615

/-- An index into one of the tables of a function or module; `name` keeps the index types
of different tables apart. -/
structure TypedIndex (name : String) where
  raw : ℕ
deriving DecidableEq

namespace TypedIndex

variable {name : String}

def invalid : TypedIndex name := ⟨maxU32⟩

def fromIndex (indexValue : ℕ) : TypedIndex name := ⟨indexValue⟩

def index (self : TypedIndex name) : ℕ := self.raw

def isValid (self : TypedIndex name) : Bool := self.raw != maxU32

def eql (self other : TypedIndex name) : Bool := self.raw == other.raw

@[simp] lemma eql_iff {self other : TypedIndex name} : self.eql other = true ↔ self = other := by
  cases self
  cases other
  simp [eql]

@[simp] lemma eql_eq_false_iff {self other : TypedIndex name} :
    self.eql other = false ↔ self ≠ other := by
  rw [← Bool.not_eq_true, eql_iff]

@[simp] lemma index_fromIndex (i : ℕ) : (fromIndex i : TypedIndex name).index = i := rfl

end TypedIndex

abbrev SymbolId := TypedIndex "SymbolId"
abbrev ValueId := TypedIndex "ValueId"
abbrev BlockId := TypedIndex "BlockId"
abbrev SpanId := TypedIndex "SpanId"
abbrev InstId := TypedIndex "InstId"
abbrev ExprId := TypedIndex "ExprId"
abbrev CleanupActionId := TypedIndex "CleanupActionId"

/-! ## Source points, places and events -/

structure SourcePoint where
  line : ℕ
  column : ℕ
  offset : ℕ := 0
  len : ℕ := 0
  fileId : ℕ := maxU32
deriving DecidableEq

inductive OwnershipEventKind where
  | storageLive
  | init
  | reinit
  | moveOut
  | forget
  | explicitDrop
  | autoDrop
  | storageDead
  | borrowBegin
  | borrowEnd
  | setDropFlag
deriving DecidableEq

inductive OwnershipLoanKind where
  | shared
  | mutable
deriving DecidableEq

inductive OwnershipPlaceProjection where
  | field (id : SymbolId)
  | constantIndex (index : ℕ)
  | deref
  | wildcardIndex
deriving DecidableEq

/-- An owned place.  `projections` are the used entries of the source's projection array,
so its `projection_count` is their number. -/
structure OwnershipPlace where
  rootValueId : ValueId := .invalid
  rootSymbolId : SymbolId := .invalid
  rootTypeSymbolId : SymbolId := .invalid
  projections : List OwnershipPlaceProjection := []
deriving DecidableEq

namespace OwnershipPlace

def projectionCount (self : OwnershipPlace) : ℕ := self.projections.length

end OwnershipPlace

structure OwnershipEvent where
  kind : OwnershipEventKind
  place : OwnershipPlace
  generation : ℕ := 0
  loanId : ℕ := maxU32
  loanKind : Option OwnershipLoanKind := none
  dropGlueSymbolId : SymbolId := .invalid
  blockId : BlockId := .invalid
  instructionIndex : Option ℕ := none
  source : SourcePoint
deriving DecidableEq

/-! ## Blocks and functions -/

/-- Block terminators.  The value type a `return_` carries and the trap kind of a `trap_`
are not read by any modelled function. -/
inductive Terminator where
  | fallthrough
  | jump (target : BlockId)
  | branch (trueBlock falseBlock : BlockId)
  | return_
  | trap_
  | unreachable_
  | switch_
deriving DecidableEq

structure Instruction where
  typedSpanId : SpanId := .invalid
deriving DecidableEq

structure Block where
  id : BlockId
  instructions : List Instruction := []
  successors : List BlockId
  terminator : Terminator
deriving DecidableEq

structure SpanIdentity where
  id : SpanId
  source : SourcePoint
deriving DecidableEq

structure ValueIdentity where
  id : ValueId
  spelling : String
deriving DecidableEq

/-- A MIR function.  Every block has a valid index: `BlockId.fromIndex` asserts it. -/
structure Function where
  blocks : List Block
  ownershipEvents : List OwnershipEvent := []
  spanIdentities : List SpanIdentity := []
  valueIdentities : List ValueIdentity := []
  blocksIndexed : blocks.length ≤ maxU32 := by decide

/-! ## Module facts -/

structure SymbolIdentity where
  id : SymbolId
  spelling : String
deriving DecidableEq

structure DropGlueFact where
  typedResourceSymbolId : SymbolId := .invalid
  typedReleaseSymbolId : SymbolId := .invalid
deriving DecidableEq

inductive TypeOwnershipKind where
  | copy
  | affine
  | linear
  | region
  | view
deriving DecidableEq

structure TypeOwnershipFact where
  typedTypeSymbolId : SymbolId := .invalid
  kind : TypeOwnershipKind
  dropGlueSymbolId : SymbolId := .invalid
deriving DecidableEq

/-- The tables of a module that the ownership checks of its functions consult. -/
structure Module where
  symbolIdentities : List SymbolIdentity := []
  dropGlueFacts : List DropGlueFact := []
  typeOwnershipFacts : List TypeOwnershipFact := []
deriving DecidableEq

namespace Function

/-- The successors of the block at `index`; none out of range. -/
def successors (function : Function) (index : ℕ) : List BlockId :=
  (function.blocks[index]?.map Block.successors).getD []

lemma successors_eq_nil {function : Function} {index : ℕ}
    (h : function.blocks.length ≤ index) : function.successors index = [] := by
  simp [successors, List.getElem?_eq_none h]

end Function

end ModernC.Mir
