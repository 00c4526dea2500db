import ModernC.Framework.Tables

/-!
# Move states

What the move checker knows at a point of a function: a slot for each tracked place, and the
scoped borrows taken so far.  A place is given by the id of its root and the projections from
it; two places are equal if these are.  The string key of a slot spells the name of its root
and the same projections, so it is kept in that form here.  Slots without a place, which no
part of the checker makes any more, are left out, as is the table that hands out root ids.
-/

namespace ModernC.Move

open ModernC.Framework

/-! ## Places -/

structure Span where
  offset : ℕ
  len : ℕ
  line : ℕ
  column : ℕ
  fileId : ℕ
deriving DecidableEq

inductive MovePlaceProjection where
  | field (name : String)
  | constantIndex (index : ℕ)
  | wildcardIndex
deriving DecidableEq

structure MovePlace where
  rootId : ℕ
  projections : List MovePlaceProjection
deriving DecidableEq

namespace MovePlace

def isSubplace (place : MovePlace) : Bool := !place.projections.isEmpty

/-- The place of the whole binding. -/
def root (place : MovePlace) : MovePlace := { rootId := place.rootId, projections := [] }

end MovePlace

/-- The display key of a slot: the name of the root, with the projections after it. -/
structure MoveKey where
  root : String
  projections : List MovePlaceProjection
deriving DecidableEq

/-! ## Slots -/

inductive PlaceState where
  | uninitialized
  | live
  | moved
  | dropped
deriving DecidableEq

structure CleanupObligation where
  deferredConsume : Bool
  autoDrop : Bool
  cleanupLocal : Bool
deriving DecidableEq

/-- What is known of one place: a linear value, an alias of one (`aliasOf`), or a binding
whose type alone is kept (`typeOnly`).  `τ` is the type of type expressions. -/
structure MoveSlot (τ : Type) where
  live : Bool
  span : Span
  place : MovePlace
  deferred : Bool := false
  autoDrop : Bool := false
  deferredBorrow : Bool := false
  deferredBorrowPlace : Option MovePlace := none
  scopedSharedBorrows : ℕ := 0
  scopedMutBorrow : Bool := false
  ty : Option τ := none
  typeOnly : Bool := false
  aliasOf : Option MoveKey := none
  aliasPlace : Option MovePlace := none
  divergentAlias : Bool := false
  escapedBorrow : Option Span := none
  cleanupLocal : Bool := false
  fullDerefAlias : Bool := false

/-- What the checker knows of the types: whether a linear value is embedded in one, and which
of its named move types are dropped without effect. -/
structure TypeRules (τ : Type) where
  resolvesAliases : Bool
  typeEmbedsLinearByValue : τ → Bool
  moveTypeNameOf : τ → Option String
  trivialDropTypes : Option (List String)

variable {τ : Type}

namespace MoveSlot

def placeState (slot : MoveSlot τ) : PlaceState :=
  if slot.typeOnly || slot.aliasOf.isSome then .uninitialized
  else if slot.live then .live
  else .moved

def cleanupObligation (slot : MoveSlot τ) : CleanupObligation where
  deferredConsume := slot.deferred
  autoDrop := slot.autoDrop
  cleanupLocal := slot.cleanupLocal

/-- `isTrackedMoveSubplace`. -/
def isSubplace (slot : MoveSlot τ) : Bool := slot.place.isSubplace

end MoveSlot

/-- Whether the value must still be consumed before its scope is left. -/
def slotRequiresExplicitConsume (rules : TypeRules τ) (slot : MoveSlot τ) : Bool :=
  if !slot.live || slot.deferred then false
  else if slot.typeOnly || slot.aliasOf.isSome then false
  else match slot.ty with
    | none => true
    | some ty =>
      if !rules.resolvesAliases then true
      else if rules.typeEmbedsLinearByValue ty then true
      else if slot.autoDrop then false
      else match rules.moveTypeNameOf ty, rules.trivialDropTypes with
        | none, _ => true
        | some _, none => false
        | some name, some trivial => !trivial.contains name

def sameCleanupObligation (left right : MoveSlot τ) : Bool :=
  left.cleanupObligation == right.cleanupObligation

/-- Only a typed place tells that two states defer a borrow of the same resource. -/
def sameDeferredBorrowFact (left right : MoveSlot τ) : Bool :=
  match left.deferredBorrowPlace, right.deferredBorrowPlace with
  | some leftPlace, some rightPlace => leftPlace == rightPlace
  | some _, none => false
  | none, some _ => false
  | none, none => !left.deferredBorrow && !right.deferredBorrow

/-- Two aliases are the same only if both have a typed referent, and these agree. -/
def sameAliasFact (left right : MoveSlot τ) : Bool :=
  match left.aliasOf, right.aliasOf with
  | none, none => true
  | none, some _ => false
  | some _, none => false
  | some _, some _ =>
    match left.aliasPlace, right.aliasPlace with
    | some leftPlace, some rightPlace =>
      leftPlace == rightPlace && left.fullDerefAlias == right.fullDerefAlias
    | _, _ => false

/-- The facts on which a value has to agree at every join. -/
def sameOwnership (left right : MoveSlot τ) : Bool :=
  left.placeState == right.placeState && left.live == right.live &&
    sameCleanupObligation left right && sameDeferredBorrowFact left right

/-- An alias that may refer to different places: no read through it is allowed. -/
def divergentAliasSlot (key : MoveKey) (source : MoveSlot τ) : MoveSlot τ where
  live := false
  span := source.span
  place := source.place
  aliasOf := some key
  divergentAlias := true
  cleanupLocal := source.cleanupLocal

/-! ## States -/

structure ScopedBorrowSlot where
  span : Span
  shared : ℕ := 0
  mutable : Bool := false
deriving DecidableEq

/-- A move state.  A key spells the projections of its slot's place, and the slot of a
sub-place is there because the sub-place was moved or is reserved by a `defer`. -/
structure MoveState (τ : Type) where
  slots : Table MoveKey (MoveSlot τ)
  scopedBorrows : Table String ScopedBorrowSlot
  keyed : ∀ {key slot}, slots.lookup key = some slot → slot.place.projections = key.projections
  reserved : ∀ {key slot}, slots.lookup key = some slot →
    slot.isSubplace = true → slot.live = true → slot.deferred = true

namespace MoveState

/-- The slot found under a key. -/
def get (state : MoveState τ) (key : MoveKey) : Option (MoveSlot τ) := state.slots.lookup key

def empty : MoveState τ where
  slots := ∅
  scopedBorrows := ∅
  keyed h := by cases h
  reserved h := by cases h

/-- A state with the slot of one binding. -/
def single (key : MoveKey) (slot : MoveSlot τ)
    (hkey : slot.place.projections = key.projections) (hroot : slot.isSubplace = false) :
    MoveState τ where
  slots := AList.singleton key slot
  scopedBorrows := ∅
  keyed := by
    intro key' slot' h
    rw [Table.lookup_eq_some_iff, AList.singleton_entries, List.mem_singleton] at h
    cases h
    exact hkey
  reserved := by
    intro key' slot' h hsub
    rw [Table.lookup_eq_some_iff, AList.singleton_entries, List.mem_singleton] at h
    cases h
    rw [hroot] at hsub
    cases hsub

end MoveState

/-- Two slots are about the same thing: the same place, both or neither an alias, both or
neither a type only. -/
def sameSubject (slot candidate : MoveSlot τ) : Bool :=
  candidate.place == slot.place && slot.aliasOf.isSome == candidate.aliasOf.isSome &&
    slot.typeOnly == candidate.typeOnly

/-- The counterpart of a slot in another state. -/
def matchingMoveStateSlot (state : MoveState τ) (slot : MoveSlot τ) : Option (MoveSlot τ) :=
  (state.slots.find fun _ candidate => sameSubject slot candidate).map Prod.snd

def moveStateSlotMatches (state : MoveState τ) (slot : MoveSlot τ) : Bool :=
  (matchingMoveStateSlot state slot).isSome

/-- A whole binding, other than an alias, that owns the place. -/
def isRootSlotOf (place : MovePlace) (candidate : MoveSlot τ) : Bool :=
  candidate.aliasOf.isNone && !candidate.isSubplace && candidate.place == place.root

def scopedBorrowStatesEqual (left right : MoveState τ) : Bool :=
  left.scopedBorrows.entries.length == right.scopedBorrows.entries.length &&
    left.scopedBorrows.entries.all fun entry =>
      match right.scopedBorrows.lookup entry.1 with
      | none => false
      | some other => entry.2.shared == other.shared && entry.2.mutable == other.mutable

def moveSlotStateEqual [DecidableEq τ] (left right : MoveSlot τ) : Bool :=
  left.placeState == right.placeState && left.live == right.live && left.place == right.place &&
    sameCleanupObligation left right && sameDeferredBorrowFact left right &&
    left.ty == right.ty && left.typeOnly == right.typeOnly && sameAliasFact left right &&
    left.escapedBorrow == right.escapedBorrow

def moveStatesEqual [DecidableEq τ] (left right : MoveState τ) : Bool :=
  scopedBorrowStatesEqual left right &&
    left.slots.entries.length == right.slots.entries.length &&
    left.slots.entries.all fun entry =>
      match matchingMoveStateSlot right entry.2 with
      | none => false
      | some other => moveSlotStateEqual entry.2 other

/-! ## First facts -/

variable {slot : MoveSlot τ}

lemma alive_of_requiresConsume {rules : TypeRules τ}
    (h : slotRequiresExplicitConsume rules slot = true) :
    slot.live = true ∧ slot.deferred = false ∧ slot.typeOnly = false ∧ slot.aliasOf = none := by
  unfold slotRequiresExplicitConsume at h
  split at h
  · cases h
  · rename_i hlive
    split at h
    · cases h
    · rename_i hkind
      simp only [Bool.or_eq_true, Bool.not_eq_true', not_or, Bool.not_eq_true,
        Bool.not_eq_false] at hlive hkind
      exact ⟨hlive.1, hlive.2, hkind.1, by simpa using hkind.2⟩

lemma matching_spec {state : MoveState τ} {other : MoveSlot τ}
    (h : matchingMoveStateSlot state slot = some other) :
    (∃ key, state.get key = some other) ∧ sameSubject slot other = true := by
  obtain ⟨⟨key, found⟩, hfind, heq⟩ := Option.map_eq_some_iff.mp h
  cases heq
  obtain ⟨hlookup, hsame⟩ := Table.exists_of_find_eq_some hfind
  exact ⟨⟨key, hlookup⟩, hsame⟩

end ModernC.Move
