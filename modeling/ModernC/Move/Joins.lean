import ModernC.Move.MoveState

/-!
# Joins of move states

The three places where the checker makes one state out of two: where branches meet, where
the end of an iteration meets the state a loop was entered with, and at the end of a nested
block, whose state is cut down to what exists outside.
-/

namespace ModernC.Move

open ModernC.Framework

variable {τ : Type}

/-! ## Diagnostics -/

inductive DiagnosticCode where
  | resourceLeak
  | moveBranchMismatch
  | moveLoopResource
deriving DecidableEq

def DiagnosticCode.text : DiagnosticCode → String
  | .resourceLeak => "E_RESOURCE_LEAK"
  | .moveBranchMismatch => "E_MOVE_BRANCH_MISMATCH"
  | .moveLoopResource => "E_MOVE_LOOP_RESOURCE"

structure Diagnostic where
  span : Span
  code : DiagnosticCode
  message : String
deriving DecidableEq

/-! ## Changing slots in place -/

/-- A change that leaves every slot its place and makes no value live. -/
structure SlotChange (τ : Type) where
  apply : MoveKey → MoveSlot τ → MoveSlot τ
  place_apply : ∀ key slot, (apply key slot).place = slot.place
  live_apply : ∀ key slot, (apply key slot).live = true →
    slot.live = true ∧ (apply key slot).deferred = slot.deferred

def MoveState.change (state : MoveState τ) (slotChange : SlotChange τ) : MoveState τ where
  slots := state.slots.update slotChange.apply
  scopedBorrows := state.scopedBorrows
  keyed := by
    intro key slot h
    rw [Table.lookup_update] at h
    obtain ⟨old, hold, rfl⟩ := Option.map_eq_some_iff.mp h
    rw [slotChange.place_apply]
    exact state.keyed hold
  reserved := by
    intro key slot h hsub hlive
    rw [Table.lookup_update] at h
    obtain ⟨old, hold, rfl⟩ := Option.map_eq_some_iff.mp h
    obtain ⟨holdLive, hdeferred⟩ := slotChange.live_apply key old hlive
    rw [MoveSlot.isSubplace, slotChange.place_apply] at hsub
    rw [hdeferred]
    exact state.reserved hold hsub holdLive

/-- A slot whose ownership the two states disagree on. -/
def conflictingSlot (slot : MoveSlot τ) : MoveSlot τ :=
  { slot with live := false, deferred := false, deferredBorrow := false,
              deferredBorrowPlace := none }

/-- What is known of a slot with this counterpart. -/
def joinedSlot (key : MoveKey) (slot other : MoveSlot τ) : MoveSlot τ :=
  if !sameOwnership slot other then conflictingSlot slot
  else if !sameAliasFact slot other then divergentAliasSlot key slot
  else slot

lemma place_joinedSlot (key : MoveKey) (slot other : MoveSlot τ) :
    (joinedSlot key slot other).place = slot.place := by
  unfold joinedSlot
  split
  · rfl
  · split <;> rfl

variable {key : MoveKey} {slot result : MoveSlot τ} {report : Bool}

lemma live_joinedSlot {other : MoveSlot τ} (h : (joinedSlot key slot other).live = true) :
    slot.live = true ∧ sameOwnership slot other = true ∧ joinedSlot key slot other = slot := by
  unfold joinedSlot at h ⊢
  split at h
  · cases h
  · rename_i hsame
    split at h
    · cases h
    · rename_i halias
      rw [if_neg hsame, if_neg halias]
      exact ⟨h, by simpa using hsame, rfl⟩

/-! ## Where branches meet -/

def reported (report : Bool) (diagnostic : Diagnostic) : List Diagnostic :=
  if report then [diagnostic] else []

/-- A slot without a counterpart in the other branch is dropped, unless it is a sub-place. -/
def mergeUnmatchedEntry (rules : TypeRules τ) (report : Bool) (slot : MoveSlot τ) :
    List Diagnostic × Option (MoveSlot τ) :=
  if slotRequiresExplicitConsume rules slot then
    (reported report ⟨slot.span, .resourceLeak,
      "linear `move` value created in only one branch is never consumed before the branch exits"⟩,
      none)
  else if slot.isSubplace then
    (reported report ⟨slot.span, .moveBranchMismatch,
      "linear `move` field has inconsistent ownership across control-flow branches"⟩, some slot)
  else ([], none)

def mergeLeftEntry (rules : TypeRules τ) (right : MoveState τ) (report : Bool) (key : MoveKey)
    (slot : MoveSlot τ) : List Diagnostic × Option (MoveSlot τ) :=
  match matchingMoveStateSlot right slot with
  | none => mergeUnmatchedEntry rules report slot
  | some other =>
    (if !sameOwnership slot other then
      reported report ⟨slot.span, .moveBranchMismatch,
        "linear `move` value has inconsistent ownership across control-flow branches"⟩
    else [], some (joinedSlot key slot other))

def mergeRightEntry (rules : TypeRules τ) (left : MoveState τ) (report : Bool)
    (slot : MoveSlot τ) : List Diagnostic × Option (MoveSlot τ) :=
  if moveStateSlotMatches left slot then ([], none) else mergeUnmatchedEntry rules report slot

/-- Only the scoped borrows that both branches hold alike are kept. -/
def mergeScopedBorrowSlots (left right : MoveState τ) : Table String ScopedBorrowSlot :=
  left.scopedBorrows.putAll (fun key borrow =>
    match right.scopedBorrows.lookup key with
    | none => none
    | some other =>
      if borrow.shared != other.shared || borrow.mutable != other.mutable then none
      else some borrow) ∅

def mergedSlots (rules : TypeRules τ) (left right : MoveState τ) (report : Bool) :
    Table MoveKey (MoveSlot τ) :=
  right.slots.putAll (fun _ slot => (mergeRightEntry rules left report slot).2)
    (left.slots.putAll (fun key slot => (mergeLeftEntry rules right report key slot).2) ∅)

lemma mergeUnmatchedEntry_eq_some {rules : TypeRules τ} :
    (mergeUnmatchedEntry rules report slot).2 = some result ↔
      slotRequiresExplicitConsume rules slot = false ∧ slot.isSubplace = true ∧ slot = result := by
  unfold mergeUnmatchedEntry
  cases slotRequiresExplicitConsume rules slot <;> cases slot.isSubplace <;> simp

lemma mergeRightEntry_eq_some {rules : TypeRules τ} {left : MoveState τ} :
    (mergeRightEntry rules left report slot).2 = some result ↔
      moveStateSlotMatches left slot = false ∧
        slotRequiresExplicitConsume rules slot = false ∧ slot.isSubplace = true ∧
        slot = result := by
  unfold mergeRightEntry
  cases moveStateSlotMatches left slot
  · rw [if_neg Bool.false_ne_true, mergeUnmatchedEntry_eq_some]
    exact (and_iff_right rfl).symm
  · simp

lemma mergeLeftEntry_eq_some {rules : TypeRules τ} {right : MoveState τ} :
    (mergeLeftEntry rules right report key slot).2 = some result ↔
      (∃ other, matchingMoveStateSlot right slot = some other ∧
        joinedSlot key slot other = result) ∨
      (matchingMoveStateSlot right slot = none ∧
        slotRequiresExplicitConsume rules slot = false ∧ slot.isSubplace = true ∧
        slot = result) := by
  unfold mergeLeftEntry
  cases matchingMoveStateSlot right slot with
  | none => simp [mergeUnmatchedEntry_eq_some]
  | some other => simp

/-- A merged slot comes from the right state under its key, or else from the left one. -/
lemma lookup_mergedSlots (rules : TypeRules τ) (left right : MoveState τ) (report : Bool)
    (key : MoveKey) :
    (mergedSlots rules left right report).lookup key =
      ((right.get key).bind fun slot => (mergeRightEntry rules left report slot).2).or
        ((left.get key).bind fun slot => (mergeLeftEntry rules right report key slot).2) := by
  rw [mergedSlots, Table.lookup_putAll, Table.lookup_putAll, AList.lookup_empty, Option.or_none]
  rfl

/-- Every merged slot is one of the slots under its key, as it was or with less. -/
lemma source_of_mergedSlots {rules : TypeRules τ} {left right : MoveState τ}
    (h : (mergedSlots rules left right report).lookup key = some slot) :
    ∃ state : MoveState τ, ∃ source, state.get key = some source ∧
      slot.place = source.place ∧ (slot.live = true → slot = source) := by
  rw [lookup_mergedSlots, Option.or_eq_some_iff] at h
  rcases h with h | ⟨_, h⟩
  · obtain ⟨source, hsource, hentry⟩ := Option.bind_eq_some_iff.mp h
    obtain ⟨_, _, _, rfl⟩ := mergeRightEntry_eq_some.mp hentry
    exact ⟨right, source, hsource, rfl, fun _ => rfl⟩
  · obtain ⟨source, hsource, hentry⟩ := Option.bind_eq_some_iff.mp h
    refine ⟨left, source, hsource, ?_⟩
    rcases mergeLeftEntry_eq_some.mp hentry with ⟨other, _, rfl⟩ | ⟨_, _, _, rfl⟩
    · exact ⟨place_joinedSlot key source other, fun hlive => (live_joinedSlot hlive).2.2⟩
    · exact ⟨rfl, fun _ => rfl⟩

/-- The state where two branches meet, and what is reported about it.  Only the join of
branches reports; the others inside a loop are silent. -/
def mergeMoveBranchesImpl (rules : TypeRules τ) (left right : MoveState τ) (report : Bool) :
    List Diagnostic × MoveState τ :=
  (left.slots.entries.flatMap (fun entry =>
      (mergeLeftEntry rules right report entry.1 entry.2).1) ++
    right.slots.entries.flatMap (fun entry => (mergeRightEntry rules left report entry.2).1),
  { slots := mergedSlots rules left right report
    scopedBorrows := mergeScopedBorrowSlots left right
    keyed := by
      intro key slot h
      obtain ⟨state, source, hsource, hplace, _⟩ := source_of_mergedSlots h
      rw [hplace]
      exact state.keyed hsource
    reserved := by
      intro key slot h hsub hlive
      obtain ⟨state, source, hsource, _, hsame⟩ := source_of_mergedSlots h
      cases hsame hlive
      exact state.reserved hsource hsub hlive })

lemma get_mergeMoveBranchesImpl (rules : TypeRules τ) (left right : MoveState τ) (report : Bool)
    (key : MoveKey) :
    (mergeMoveBranchesImpl rules left right report).2.get key =
      ((right.get key).bind fun slot => (mergeRightEntry rules left report slot).2).or
        ((left.get key).bind fun slot => (mergeLeftEntry rules right report key slot).2) :=
  lookup_mergedSlots rules left right report key

/-! ## The end of an iteration -/

/-- The slots of the entry state against those of an iteration. -/
def backedgeChange (iterationState : MoveState τ) : SlotChange τ where
  apply key before :=
    match matchingMoveStateSlot iterationState before with
    | none => before
    | some after => joinedSlot key before after
  place_apply key before := by
    cases matchingMoveStateSlot iterationState before with
    | none => rfl
    | some after => exact place_joinedSlot key before after
  live_apply key before := by
    cases matchingMoveStateSlot iterationState before with
    | none => exact fun h => ⟨h, rfl⟩
    | some after =>
      intro h
      obtain ⟨hlive, _, hsame⟩ := live_joinedSlot h
      exact ⟨hlive, congrArg MoveSlot.deferred hsame⟩

def backedgeDiagnostics (iterationState : MoveState τ) (before : MoveSlot τ) : List Diagnostic :=
  match matchingMoveStateSlot iterationState before with
  | none => []
  | some after =>
    reported (!sameOwnership before after) ⟨before.span, .moveLoopResource,
      "cannot consume or reserve an outer linear `move` value inside a loop; the loop may run zero or multiple times"⟩

/-- The root found under this key is no longer owned. -/
def spendRoot (rootKey : MoveKey) : SlotChange τ where
  apply key slot :=
    if key = rootKey then { slot with live := false, deferred := false, escapedBorrow := none }
    else slot
  place_apply key slot := by split <;> rfl
  live_apply key slot := by
    split
    · intro h
      cases h
    · exact fun h => ⟨h, rfl⟩

/-- A sub-place that only the iteration tracks spends its root. -/
def backedgeSubplace (outcome : List Diagnostic × MoveState τ) (slot : MoveSlot τ) :
    List Diagnostic × MoveState τ :=
  if moveStateSlotMatches outcome.2 slot then outcome
  else if !slot.isSubplace then outcome
  else
    match outcome.2.slots.find fun _ candidate => isRootSlotOf slot.place candidate with
    | none => outcome
    | some (rootKey, _) =>
      (outcome.1 ++ [⟨slot.span, .moveLoopResource,
        "cannot move an outer linear `move` place inside a loop; the loop may run zero or multiple times"⟩],
        outcome.2.change (spendRoot rootKey))

/-- Join the state at the end of an iteration into the state the loop was entered with. -/
def reportLoopOuterResourceChanges (entryState iterationState : MoveState τ) :
    List Diagnostic × MoveState τ :=
  iterationState.slots.entries.foldl (fun outcome entry => backedgeSubplace outcome entry.2)
    (entryState.slots.entries.flatMap (fun entry => backedgeDiagnostics iterationState entry.2),
      entryState.change (backedgeChange iterationState))

/-! ## The end of a nested block -/

end ModernC.Move
