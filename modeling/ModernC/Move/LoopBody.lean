import ModernC.Framework.ListUpdates
import ModernC.Move.Joins

/-!
# The body of a loop

How the move checker runs a loop body: a worklist over the blocks of a small graph, with a
state for each block that has been reached.  The body is walked once; the states that its
`break` and `continue` statements queued are joined afterwards and checked where they leave
the iteration.  The walk of the body's statements is a parameter here.
-/

namespace ModernC.Move

open ModernC.Framework

variable {τ : Type}

/-! ## Loop frames -/

inductive LoopMoveExitKind where
  | breakExit
  | continueExit
deriving DecidableEq

structure LoopMoveExitState (τ : Type) where
  kind : LoopMoveExitKind
  state : MoveState τ

structure LoopMoveFrame (τ : Type) where
  label : Option String
  entryPlaces : List MovePlace
  entryState : MoveState τ
  invalidatedAliasPlaces : List MovePlace := []
  pendingExits : List (LoopMoveExitState τ) := []

/-- The part of the checker that a loop reads and writes; the innermost frame is the first. -/
structure Checker (τ : Type) where
  diagnostics : List Diagnostic
  moveLoopStack : List (LoopMoveFrame τ)

namespace Checker

def report (checker : Checker τ) (diagnostics : List Diagnostic) : Checker τ :=
  { checker with diagnostics := checker.diagnostics ++ diagnostics }

def setFrames (checker : Checker τ) (frames : List (LoopMoveFrame τ)) : Checker τ :=
  { checker with moveLoopStack := frames }

end Checker

/-- The loop that a `break` or `continue` leaves, counted from the innermost frame. -/
def moveLoopTargetFrame (frames : List (LoopMoveFrame τ)) : Option String → Option ℕ
  | none => if frames.isEmpty then none else some 0
  | some label => frames.findIdx? fun frame => frame.label == some label

/-- A `break` or `continue` queues its state at the loop it leaves. -/
def moveLoopExitEdgeCfg (checker : Checker τ) (state : MoveState τ) (target : Option String)
    (kind : LoopMoveExitKind) : Checker τ :=
  match moveLoopTargetFrame checker.moveLoopStack target with
  | none => checker
  | some depth =>
    checker.setFrames (checker.moveLoopStack.modify depth fun frame =>
      { frame with pendingExits := frame.pendingExits ++ [⟨kind, state⟩] })

/-! ## Checks where an iteration is left -/

def loopFrameHasEntryPlace (frame : LoopMoveFrame τ) (place : MovePlace) : Bool :=
  frame.entryPlaces.contains place

/-- A value declared in the body that the state still has to consume. -/
def leaksAtLoopExit (rules : TypeRules τ) (frame : LoopMoveFrame τ) (slot : MoveSlot τ) : Bool :=
  slotRequiresExplicitConsume rules slot && !loopFrameHasEntryPlace frame slot.place

def loopExitLeak (slot : MoveSlot τ) : Diagnostic where
  span := slot.span
  code := .resourceLeak
  message := "linear `move` value declared in a loop body is never consumed before this `break`/`continue` exits the iteration"

def loopExitLeaks (rules : TypeRules τ) (frame : LoopMoveFrame τ) (state : MoveState τ) :
    List Diagnostic :=
  state.slots.entries.flatMap fun entry =>
    reported (leaksAtLoopExit rules frame entry.2) (loopExitLeak entry.2)

def aliasSlotForStoragePlace (place : MovePlace) (state : MoveState τ) : Option (MoveSlot τ) :=
  (state.slots.find fun _ slot => slot.aliasOf.isSome && slot.place == place).map Prod.snd

/-- Aliases of the entry state that are others where the iteration is left. -/
def recordLoopEarlyExitInvalidations (frame : LoopMoveFrame τ) (state : MoveState τ) :
    LoopMoveFrame τ :=
  frame.entryState.slots.entries.foldl (fun frame entry =>
    if entry.2.aliasOf.isNone then frame
    else
      match aliasSlotForStoragePlace entry.2.place state with
      | some after =>
        if sameAliasFact entry.2 after || frame.invalidatedAliasPlaces.contains entry.2.place
        then frame
        else { frame with
          invalidatedAliasPlaces := frame.invalidatedAliasPlaces ++ [entry.2.place] }
      | none =>
        if frame.invalidatedAliasPlaces.contains entry.2.place then frame
        else { frame with
          invalidatedAliasPlaces := frame.invalidatedAliasPlaces ++ [entry.2.place] }) frame

def checkLoopExitLeaks (rules : TypeRules τ) (checker : Checker τ) (state : MoveState τ) :
    Checker τ :=
  match checker.moveLoopStack with
  | [] => checker
  | frame :: outer =>
    ((checker.report (loopExitLeaks rules frame state)).report
      (reportLoopOuterResourceChanges frame.entryState state).1).setFrames
        (recordLoopEarlyExitInvalidations frame state :: outer)

/-! ## The graph of a loop -/

inductive LoopBlock where
  | entry
  | loopHead
  | body
  | exit
  | breakSource
  | breakExit
  | continueSource
  | continueExit
deriving DecidableEq

/-- The edges of `loopMoveCfgSkeleton`, in the order they are added. -/
def LoopBlock.successors : LoopBlock → List LoopBlock
  | .entry => [.loopHead]
  | .loopHead => [.body, .exit]
  | .body => [.loopHead]
  | .exit => []
  | .breakSource => [.breakExit]
  | .breakExit => []
  | .continueSource => [.continueExit]
  | .continueExit => [.loopHead]

/-- What a run over the graph carries besides its queue. -/
structure LoopData (τ : Type) where
  checker : Checker τ
  states : LoopBlock → Option (MoveState τ)
  bodyDiverges : Bool := false
  bodyVisited : Bool := false

/-- The blocks still to visit, and the rest. -/
abbrev LoopRun (τ : Type) := List LoopBlock × LoopData τ

def enqueue (queue : List LoopBlock) (block : LoopBlock) : List LoopBlock :=
  if queue.contains block then queue else queue ++ [block]

def LoopData.setState (data : LoopData τ) (block : LoopBlock) (state : MoveState τ) : LoopData τ :=
  { data with states := Function.update data.states block (some state) }

def LoopData.setChecker (data : LoopData τ) (checker : Checker τ) : LoopData τ :=
  { data with checker := checker }

/-- The join under the policy of a loop: the end of an iteration meets the entry state at the
loop head, and all other joins are silent. -/
def loopJoin (rules : TypeRules τ) (block : LoopBlock) (joined outgoing : MoveState τ) :
    List Diagnostic × MoveState τ :=
  if block = .loopHead then reportLoopOuterResourceChanges joined outgoing
  else mergeMoveBranchesImpl rules joined outgoing false

variable [DecidableEq τ]

def joinStateAt (rules : TypeRules τ) (outgoing : MoveState τ) (run : LoopRun τ)
    (block : LoopBlock) : LoopRun τ :=
  match run.2.states block with
  | none => (enqueue run.1 block, run.2.setState block outgoing)
  | some joined =>
    let (diagnostics, after) := loopJoin rules block joined outgoing
    let data := (run.2.setChecker (run.2.checker.report diagnostics)).setState block after
    (if moveStatesEqual after joined then run.1 else enqueue run.1 block, data)

def propagateSuccessorsExcept (rules : TypeRules τ) (source : LoopBlock)
    (excluded : Option LoopBlock) (outgoing : MoveState τ) (run : LoopRun τ) : LoopRun τ :=
  (source.successors.filter fun target => some target != excluded).foldl
    (joinStateAt rules outgoing) run

def propagateSuccessors (rules : TypeRules τ) (source : LoopBlock) (outgoing : MoveState τ)
    (run : LoopRun τ) : LoopRun τ :=
  propagateSuccessorsExcept rules source none outgoing run

/-! ## Running the body -/

/-- `moveBlock` on the body: whether it diverges, the checker and the state after it. -/
abbrev BodyWalk (τ : Type) := Checker τ → MoveState τ → Bool × Checker τ × MoveState τ

/-- The body's walk has left this behind. -/
def LoopData.walkBody (data : LoopData τ) (walk : BodyWalk τ) (blockState : MoveState τ) :
    LoopData τ :=
  let (diverges, checker, after) := walk data.checker blockState
  { (data.setChecker checker).setState .body after with
    bodyDiverges := diverges, bodyVisited := true }

def visitBlock (rules : TypeRules τ) (walk : BodyWalk τ) (block : LoopBlock) (run : LoopRun τ) :
    LoopRun τ :=
  match run.2.states block with
  | none => run
  | some blockState =>
    match block with
    | .entry => propagateSuccessors rules .entry blockState run
    | .loopHead =>
      propagateSuccessorsExcept rules .loopHead
        (if run.2.bodyVisited then some .body else none) blockState run
    | .body =>
      let data := run.2.walkBody walk blockState
      if data.bodyDiverges then (run.1, data)
      else propagateSuccessors rules .body (walk run.2.checker blockState).2.2 (run.1, data)
    | .exit => run
    | .breakSource => propagateSuccessors rules .breakSource blockState run
    | .continueSource => propagateSuccessors rules .continueSource blockState run
    | .breakExit => (run.1, run.2.setChecker (checkLoopExitLeaks rules run.2.checker blockState))
    | .continueExit =>
      propagateSuccessors rules .continueExit blockState
        (run.1, run.2.setChecker (checkLoopExitLeaks rules run.2.checker blockState))

/-- Enough fuel for each of the two runs: see `loopWeight_le_fuel`. -/
def loopFuel : ℕ := 6

def runLoopBodyCfgWorklist (rules : TypeRules τ) (walk : BodyWalk τ) (run : LoopRun τ) :
    LoopRun τ :=
  drain (visitBlock rules walk) loopFuel run

def LoopMoveExitKind.source : LoopMoveExitKind → LoopBlock
  | .breakExit => .breakSource
  | .continueExit => .continueSource

/-- The queued states are taken from the last one on. -/
def enqueuePendingLoopExitStates (rules : TypeRules τ) (run : LoopRun τ) : LoopRun τ :=
  match run.2.checker.moveLoopStack with
  | [] => run
  | frame :: outer =>
    frame.pendingExits.reverse.foldl
      (fun run exit => joinStateAt rules exit.state run exit.kind.source)
      (run.1, run.2.setChecker
        (run.2.checker.setFrames ({ frame with pendingExits := [] } :: outer)))

/-- The worklist starts at the entry block, with the state before the loop. -/
def loopStart (checker : Checker τ) (outerState : MoveState τ) : LoopRun τ :=
  ([.entry], {
    checker := checker
    states := fun block => if block = .entry then some outerState else none })

/-- The body has been walked, and its end joined into the loop head. -/
def bodyWalked (rules : TypeRules τ) (walk : BodyWalk τ) (checker : Checker τ)
    (outerState : MoveState τ) : LoopRun τ :=
  runLoopBodyCfgWorklist rules walk (loopStart checker outerState)

/-- The queued states have been joined and checked too. -/
def exitsChecked (rules : TypeRules τ) (walk : BodyWalk τ) (checker : Checker τ)
    (outerState : MoveState τ) : LoopRun τ :=
  runLoopBodyCfgWorklist rules walk
    (enqueuePendingLoopExitStates rules (bodyWalked rules walk checker outerState))

end ModernC.Move

/-!
## Joining the queued exits

The silent join of several exit states keeps a value that must still be consumed only if the
first of them has it and all others have it with the same ownership.
-/

namespace ModernC.Move

open ModernC.Framework

variable {τ : Type}

/-- The state has a counterpart of the slot, and agrees on its ownership. -/
def SharedBy (state : MoveState τ) (slot : MoveSlot τ) : Prop :=
  ∃ other, matchingMoveStateSlot state slot = some other ∧ sameOwnership slot other = true

variable {key : MoveKey} {slot : MoveSlot τ}

/-- A value that must be consumed has no alias facts to disagree on. -/
lemma joinedSlot_of_requiresConsume {rules : TypeRules τ} {other : MoveSlot τ}
    (hconsume : slotRequiresExplicitConsume rules slot = true)
    (hsubject : sameSubject slot other = true) (hsame : sameOwnership slot other = true) :
    joinedSlot key slot other = slot := by
  obtain ⟨_, _, _, halias⟩ := alive_of_requiresConsume hconsume
  have hother : other.aliasOf = none := by
    simp only [sameSubject, Bool.and_eq_true, beq_iff_eq] at hsubject
    have hnone := hsubject.1.2
    rw [halias] at hnone
    exact Option.isSome_eq_false_iff.mp hnone.symm |> Option.isNone_iff_eq_none.mp
  have haliasFact : sameAliasFact slot other = true := by
    rw [sameAliasFact, halias, hother]
  rw [joinedSlot, hsame, haliasFact]
  rfl

/-- The root and the sub-places of one name have different keys, so a value that must be
consumed is not displaced by a sub-place of the other state. -/
lemma not_subplace_of_requiresConsume {rules : TypeRules τ} {left right : MoveState τ}
    {other : MoveSlot τ} (hslot : left.get key = some slot) (hother : right.get key = some other)
    (hconsume : slotRequiresExplicitConsume rules slot = true) : other.isSubplace = false := by
  obtain ⟨hlive, hdeferred, _, _⟩ := alive_of_requiresConsume hconsume
  have hsame : other.isSubplace = slot.isSubplace := by
    rw [MoveSlot.isSubplace, MoveSlot.isSubplace, MovePlace.isSubplace, MovePlace.isSubplace,
      right.keyed hother, left.keyed hslot]
  rw [hsame, ← Bool.not_eq_true]
  intro hsub
  rw [left.reserved hslot hsub hlive] at hdeferred
  cases hdeferred

/-- **A join keeps a value that must be consumed** only as both states share it. -/
theorem get_merge_eq_some_iff {rules : TypeRules τ} {left right : MoveState τ} {report : Bool}
      (hconsume : slotRequiresExplicitConsume rules slot = true) :
    (mergeMoveBranchesImpl rules left right report).2.get key = some slot ↔
      left.get key = some slot ∧ SharedBy right slot := by
  rw [get_mergeMoveBranchesImpl, Option.or_eq_some_iff]
  constructor
  · rintro (h | ⟨_, h⟩)
    · obtain ⟨source, _, hentry⟩ := Option.bind_eq_some_iff.mp h
      obtain ⟨_, hnot, _, rfl⟩ := mergeRightEntry_eq_some.mp hentry
      rw [hnot] at hconsume
      cases hconsume
    · obtain ⟨source, hsource, hentry⟩ := Option.bind_eq_some_iff.mp h
      rcases mergeLeftEntry_eq_some.mp hentry with ⟨other, hmatch, rfl⟩ | ⟨_, hnot, _, rfl⟩
      · obtain ⟨_, hsame, heq⟩ := live_joinedSlot (alive_of_requiresConsume hconsume).1
        rw [heq]
        exact ⟨hsource, other, hmatch, hsame⟩
      · rw [hnot] at hconsume
        cases hconsume
  · rintro ⟨hslot, other, hmatch, hsame⟩
    right
    constructor
    · rw [Option.bind_eq_none_iff]
      intro source hsource
      rw [Option.eq_none_iff_forall_ne_some]
      intro result hresult
      obtain ⟨_, _, hsub, _⟩ := mergeRightEntry_eq_some.mp hresult
      rw [not_subplace_of_requiresConsume hslot hsource hconsume] at hsub
      cases hsub
    · rw [hslot, Option.bind_some, mergeLeftEntry_eq_some]
      refine Or.inl ⟨other, hmatch, ?_⟩
      exact joinedSlot_of_requiresConsume hconsume (matching_spec hmatch).2 hsame

/-- The join of a queued state with those queued before it. -/
def joinedExits (rules : TypeRules τ) (first : MoveState τ) (rest : List (MoveState τ)) :
    MoveState τ :=
  rest.foldl (fun joined state => (mergeMoveBranchesImpl rules joined state false).2) first

theorem get_joinedExits_eq_some_iff {rules : TypeRules τ} {first : MoveState τ}
    {rest : List (MoveState τ)} (hconsume : slotRequiresExplicitConsume rules slot = true) :
    (joinedExits rules first rest).get key = some slot ↔
      first.get key = some slot ∧ ∀ state ∈ rest, SharedBy state slot := by
  induction rest generalizing first with
  | nil => simp [joinedExits]
  | cons state rest ih =>
    show (joinedExits rules (mergeMoveBranchesImpl rules first state false).2 rest).get key =
      some slot ↔ _
    rw [ih, get_merge_eq_some_iff hconsume, List.forall_mem_cons, and_assoc]

/-- Joins other than where branches meet are silent. -/
lemma mergeMoveBranchesImpl_silent (rules : TypeRules τ) (left right : MoveState τ) :
    (mergeMoveBranchesImpl rules left right false).1 = [] := by
  have hunmatched : ∀ slot : MoveSlot τ, (mergeUnmatchedEntry rules false slot).1 = [] := by
    intro slot
    unfold mergeUnmatchedEntry reported
    split
    · rfl
    · split <;> rfl
  rw [mergeMoveBranchesImpl, List.append_eq_nil_iff, List.flatMap_eq_nil_iff,
    List.flatMap_eq_nil_iff]
  constructor
  · rintro ⟨key, slot⟩ _
    unfold mergeLeftEntry
    split
    · exact hunmatched slot
    · rw [reported, if_neg Bool.false_ne_true, ite_self]
  · rintro ⟨key, slot⟩ _
    unfold mergeRightEntry
    split
    · rfl
    · exact hunmatched slot

/-- The join at a loop head reports changed resources, never a leak. -/
lemma code_of_reportLoopOuterResourceChanges {entryState iterationState : MoveState τ}
    {diagnostic : Diagnostic}
    (h : diagnostic ∈ (reportLoopOuterResourceChanges entryState iterationState).1) :
    diagnostic.code = .moveLoopResource := by
  have hstep : ∀ (outcome : List Diagnostic × MoveState τ) (slot : MoveSlot τ),
      (∀ d ∈ outcome.1, d.code = .moveLoopResource) →
      ∀ d ∈ (backedgeSubplace outcome slot).1, d.code = .moveLoopResource := by
    intro outcome slot hcodes
    unfold backedgeSubplace
    split
    · exact hcodes
    · split
      · exact hcodes
      · split
        · exact hcodes
        · intro d hd
          rcases List.mem_append.mp hd with hd | hd
          · exact hcodes d hd
          · rw [List.mem_singleton] at hd
            rw [hd]
  have hfold : ∀ (entries : List (Σ _ : MoveKey, MoveSlot τ))
      (outcome : List Diagnostic × MoveState τ),
      (∀ d ∈ outcome.1, d.code = .moveLoopResource) →
      ∀ d ∈ (entries.foldl (fun outcome entry => backedgeSubplace outcome entry.2) outcome).1,
        d.code = .moveLoopResource := by
    intro entries
    induction entries with
    | nil => exact fun _ hcodes => hcodes
    | cons entry entries ih => exact fun outcome hcodes => ih _ (hstep outcome entry.2 hcodes)
  refine hfold _ _ ?_ diagnostic h
  intro d hd
  obtain ⟨entry, _, hentry⟩ := List.mem_flatMap.mp hd
  unfold backedgeDiagnostics at hentry
  split at hentry
  · cases hentry
  · unfold reported at hentry
    split at hentry
    · rw [List.mem_singleton] at hentry
      rw [hentry]
    · cases hentry

end ModernC.Move
