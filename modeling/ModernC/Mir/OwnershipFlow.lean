import ModernC.Framework.Sweep
import ModernC.Mir.Model

/-!
# The ownership-event verifier

The data flow of `mir_cleanup_cfg.zig` that admits a function's ownership events: one
`OwnershipFlow` for every block and tracked root, solved by in-place sweeps over the blocks
in index order and then checked event by event.  The definitions follow the source; what
they mean for the paths through the function is proved in
`ModernC.Mir.OwnershipSoundness`.
-/

namespace ModernC.Mir

open ModernC.Framework

/-! ## States and state sets -/

inductive OwnershipRootState where
  | untracked
  | storageLive
  | live
  | consumed
deriving DecidableEq

/-- The set of ownership states a root may be in at a program point, a `u4` bit set. -/
structure OwnershipStateSet where
  bits : BitVec 4 := 0#4
deriving DecidableEq

namespace OwnershipStateSet

def of : OwnershipRootState → OwnershipStateSet
  | .untracked => ⟨1#4⟩
  | .storageLive => ⟨2#4⟩
  | .live => ⟨4#4⟩
  | .consumed => ⟨8#4⟩

def isEmpty (self : OwnershipStateSet) : Bool := self.bits == 0

def contains (self : OwnershipStateSet) (state : OwnershipRootState) : Bool :=
  self.bits &&& (of state).bits != 0

def only (self : OwnershipStateSet) (state : OwnershipRootState) : Bool :=
  self.bits == (of state).bits

/-- Every state in this set is one of the two named ones. -/
def within (self : OwnershipStateSet) (a b : OwnershipRootState) : Bool :=
  !self.isEmpty && self.bits &&& ~~~((of a).bits ||| (of b).bits) == 0

def unionWith (self other : OwnershipStateSet) : OwnershipStateSet :=
  ⟨self.bits ||| other.bits⟩

@[simp] lemma contains_of (s t : OwnershipRootState) :
    (of s).contains t = true ↔ t = s := by
  cases s <;> cases t <;> decide

@[simp] lemma contains_unionWith (a b : OwnershipStateSet) (s : OwnershipRootState) :
    (a.unionWith b).contains s = (a.contains s || b.contains s) := by
  obtain ⟨a⟩ := a
  obtain ⟨b⟩ := b
  cases s <;> revert a b <;> decide

variable {a : OwnershipStateSet}

lemma eq_of_only {s t : OwnershipRootState}
    (h : a.only s = true) (ht : a.contains t = true) : t = s := by
  obtain ⟨a⟩ := a
  have ha : a = (of s).bits := by simpa [only] using h
  subst ha
  exact (contains_of s t).mp ht

lemma eq_or_eq_of_within {s t u : OwnershipRootState}
    (h : a.within s t = true) (hu : a.contains u = true) : u = s ∨ u = t := by
  obtain ⟨a⟩ := a
  cases s <;> cases t <;> cases u <;> revert a <;> decide

/-- A set that is not empty has a member. -/
lemma exists_contains (h : a.isEmpty = false) :
    ∃ s, a.contains s = true := by
  have hmem : ∀ bits : BitVec 4, (⟨bits⟩ : OwnershipStateSet).isEmpty = false →
      (⟨bits⟩ : OwnershipStateSet).contains .untracked = true ∨
      (⟨bits⟩ : OwnershipStateSet).contains .storageLive = true ∨
      (⟨bits⟩ : OwnershipStateSet).contains .live = true ∨
      (⟨bits⟩ : OwnershipStateSet).contains .consumed = true := by
    decide
  rcases hmem a.bits h with h | h | h | h
  exacts [⟨_, h⟩, ⟨_, h⟩, ⟨_, h⟩, ⟨_, h⟩]

end OwnershipStateSet

/-! ## Flows -/

/-- One root's state on entry to, or exit from, a block. -/
structure OwnershipFlow where
  /-- False until the data flow proves control can reach this point. -/
  reachable : Bool := false
  states : OwnershipStateSet := {}
  generation : ℕ := 0
  /-- Predecessors agreed on the state but not on the generation. -/
  generationAmbiguous : Bool := false
deriving DecidableEq

namespace OwnershipFlow

def single (state : OwnershipRootState) (generation : ℕ) : OwnershipFlow :=
  { reachable := true, states := .of state, generation := generation }

def join (self other : OwnershipFlow) : OwnershipFlow :=
  if !other.reachable then self
  else if !self.reachable then other
  else
    { reachable := true
      states := self.states.unionWith other.states
      generation := max self.generation other.generation
      generationAmbiguous := self.generationAmbiguous || other.generationAmbiguous ||
        self.generation != other.generation }

def eql (self other : OwnershipFlow) : Bool :=
  self.reachable == other.reachable && self.states.bits == other.states.bits &&
    self.generation == other.generation &&
    self.generationAmbiguous == other.generationAmbiguous

lemma eql_iff {self other : OwnershipFlow} : self.eql other = true ↔ self = other := by
  obtain ⟨_, ⟨_⟩, _, _⟩ := self
  obtain ⟨_, ⟨_⟩, _, _⟩ := other
  simp [eql, and_assoc]

end OwnershipFlow

/-! ## Events and roots -/

def simpleOwnershipRootValue (place : OwnershipPlace) : Option ValueId :=
  if !place.rootValueId.isValid || place.rootSymbolId.isValid || place.projectionCount != 0 then
    none
  else some place.rootValueId

def ownershipRootHasStorageLive (function : Function) (root : ValueId) : Bool :=
  function.ownershipEvents.any fun event =>
    match simpleOwnershipRootValue event.place with
    | none => false
    | some eventRoot => event.kind == .storageLive && eventRoot.eql root

def ownershipEventTracksRoot (event : OwnershipEvent) (root : ValueId) : Bool :=
  match simpleOwnershipRootValue event.place with
  | none => false
  | some eventRoot => event.place.rootTypeSymbolId.isValid && eventRoot.eql root

def applyOwnershipEvent (flow : OwnershipFlow) (event : OwnershipEvent) : OwnershipFlow :=
  match event.kind with
  | .storageLive => .single .storageLive event.generation
  | .init | .reinit => .single .live event.generation
  | .moveOut | .forget | .explicitDrop | .autoDrop => .single .consumed event.generation
  | .storageDead => .single .untracked event.generation
  | .borrowBegin | .borrowEnd | .setDropFlag => flow

/-- The state `root` is left in by the events `block` records, starting from `incoming`.
This is the transfer function; it does not validate. -/
def applyOwnershipBlockEvents (function : Function) (root : ValueId) (block : BlockId)
    (incoming : OwnershipFlow) : OwnershipFlow :=
  function.ownershipEvents.foldl
    (fun flow event =>
      if !ownershipEventTracksRoot event root then flow
      else if !event.blockId.eql block then flow
      else applyOwnershipEvent flow event)
    incoming

/-! ## Solving the entry states -/

/-- Join `exit` into the entry of one successor and note whether the entry changed. -/
def joinIntoSuccessor (exit : OwnershipFlow) (acc : List OwnershipFlow × Bool)
    (successor : BlockId) : List OwnershipFlow × Bool :=
  let (entry, changed) := acc
  if !successor.isValid || decide (entry.length ≤ successor.index) then (entry, changed)
  else
    let old := entry.getD successor.index {}
    let joined := old.join exit
    if joined.eql old then (entry, changed)
    else (entry.set successor.index joined, true)

/-- The body of the block loop: push one block's exit into its successors. -/
def propagateBlock (function : Function) (root : ValueId) (acc : List OwnershipFlow × Bool)
    (index : ℕ) : List OwnershipFlow × Bool :=
  let flow := acc.1.getD index {}
  if !flow.reachable then acc
  else
    let exit := applyOwnershipBlockEvents function root (.fromIndex index) flow
    (function.successors index).foldl (joinIntoSuccessor exit) acc

/-- One round over the blocks. -/
def propagateRound (function : Function) (root : ValueId) (entry : List OwnershipFlow) :
    List OwnershipFlow × Bool :=
  (List.range function.blocks.length).foldl (propagateBlock function root) (entry, false)

def initialEntryStates (function : Function) : List OwnershipFlow :=
  (List.replicate function.blocks.length {}).set 0 (.single .untracked 0)

/-- The rounds are bounded by `blocks.len`, counted from zero, and stop early at a round
without a change. -/
def solveOwnershipRootEntryStates (function : Function) (root : ValueId) :
    List OwnershipFlow :=
  sweepUntil (propagateRound function root) (function.blocks.length + 1)
    (initialEntryStates function)

/-! ## Validating the events -/

/-- The loop of `autoDropClosingStorageDeadIndex` over the events from `index` on. -/
def closingStorageDeadFrom (root : ValueId) : List OwnershipEvent → ℕ → Option ℕ
  | [], _ => none
  | event :: events, index =>
    match simpleOwnershipRootValue event.place with
    | none => closingStorageDeadFrom root events (index + 1)
    | some eventRoot =>
      if !eventRoot.eql root then closingStorageDeadFrom root events (index + 1)
      else if event.kind != .storageDead then none
      else some index

def autoDropClosingStorageDeadIndex (function : Function) (eventIndex : ℕ) (root : ValueId) :
    Option ℕ :=
  closingStorageDeadFrom root (function.ownershipEvents.drop (eventIndex + 1)) (eventIndex + 1)

def ownershipEventValidInFlow (function : Function) (event : OwnershipEvent)
    (eventIndex : ℕ) (root : ValueId) (flow : OwnershipFlow) : Bool :=
  let exactGeneration := !flow.generationAmbiguous
  match event.kind with
  | .storageLive =>
    -- re-entering a slot is an error only while the previous generation is still owned
    if flow.states.contains .live then false
    else if event.generation != 0 then false
    else true
  | .init =>
    if !flow.states.only .storageLive then false
    else if exactGeneration && event.generation != flow.generation then false
    else true
  | .reinit =>
    if !flow.states.within .storageLive .consumed then false
    else if exactGeneration && flow.states.only .storageLive &&
        event.generation != flow.generation then false
    else if exactGeneration && flow.states.only .consumed &&
        event.generation != flow.generation + 1 then false
    else true
  | .moveOut | .forget | .explicitDrop | .autoDrop =>
    if !flow.states.only .live then false
    else if exactGeneration && event.generation != flow.generation then false
    else if event.kind == .autoDrop &&
        autoDropClosingStorageDeadIndex function eventIndex root == none then false
    else true
  | .borrowBegin | .setDropFlag =>
    if !flow.states.only .live then false
    else if exactGeneration && event.generation != flow.generation then false
    else true
  | .borrowEnd => true
  | .storageDead =>
    if flow.states.contains .live then false
    else if !flow.states.only .untracked && exactGeneration &&
        event.generation != flow.generation then false
    else true

/-- The inner loop of `ownershipRootFlowValid`: the events from `eventIndex` on that belong
to `root` and to the block at `index`, checked in order. -/
def blockEventsValid (function : Function) (root : ValueId) (index : ℕ) :
    List OwnershipEvent → ℕ → OwnershipFlow → Bool
  | [], _, _ => true
  | event :: events, eventIndex, flow =>
    if !ownershipEventTracksRoot event root then
      blockEventsValid function root index events (eventIndex + 1) flow
    else if !event.blockId.isValid || event.blockId.index != index then
      blockEventsValid function root index events (eventIndex + 1) flow
    else if !ownershipEventValidInFlow function event eventIndex root flow then false
    else
      blockEventsValid function root index events (eventIndex + 1)
        (applyOwnershipEvent flow event)

/-- A block the data flow never reached holds no executable event, so it has nothing to
validate. -/
def ownershipRootFlowValid (function : Function) (root : ValueId)
    (entry : List OwnershipFlow) : Bool :=
  (List.range function.blocks.length).all fun index =>
    let flow := entry.getD index {}
    if !flow.reachable then true
    else blockEventsValid function root index function.ownershipEvents 0 flow

/-! ## Closing and admission -/

def blockCanReach (function : Function) (start target : ℕ) : ℕ → Bool
  | 0 => start == target
  | remaining + 1 =>
    if start == target then true
    else if decide (function.blocks.length ≤ start) then false
    else (function.successors start).any fun successor =>
      successor.isValid && decide (successor.index < function.blocks.length) &&
        blockCanReach function successor.index target remaining

def ownershipEventCanReachBlock (function : Function) (event : OwnershipEvent)
    (target : BlockId) : Bool :=
  if !event.blockId.isValid || !target.isValid then false
  else if decide (function.blocks.length ≤ event.blockId.index) ||
      decide (function.blocks.length ≤ target.index) then false
  else blockCanReach function event.blockId.index target.index (function.blocks.length + 1)

/-- The state an event of this kind leaves its root in. -/
def OwnershipRootState.after (state : OwnershipRootState) :
    OwnershipEventKind → OwnershipRootState
  | .storageLive => .storageLive
  | .init | .reinit => .live
  | .moveOut | .forget | .explicitDrop | .autoDrop => .consumed
  | .storageDead => .untracked
  | .borrowBegin | .borrowEnd | .setDropFlag => state

/-- The list read in order: the state `root` has before the event at `eventIndex`.  Past
the end of the list there is no target block and every event of the root counts. -/
def ownershipRootStateBefore (function : Function) (eventIndex : ℕ) (root : ValueId) :
    OwnershipRootState :=
  let targetBlock := function.ownershipEvents[eventIndex]?.map OwnershipEvent.blockId
  (function.ownershipEvents.take eventIndex).foldl
    (fun state event =>
      if !ownershipEventTracksRoot event root then state
      else
        match targetBlock with
        | some blockId =>
          if !ownershipEventCanReachBlock function event blockId then state
          else state.after event.kind
        | none => state.after event.kind)
    .untracked

def typedOwnershipRootsClosed (function : Function) : Bool :=
  function.ownershipEvents.all fun event =>
    if !event.place.rootTypeSymbolId.isValid then true
    else
      match simpleOwnershipRootValue event.place with
      | none => true
      | some root =>
        ownershipRootStateBefore function function.ownershipEvents.length root != .live

/-- The loop of `ownershipEventSequenceValid` over the events; `seen` holds the roots
already checked. -/
def ownershipRootsFlowValid (function : Function) :
    List OwnershipEvent → List ValueId → Bool
  | [], _ => true
  | event :: events, seen =>
    match simpleOwnershipRootValue event.place with
    | none => ownershipRootsFlowValid function events seen
    | some root =>
      if !event.place.rootTypeSymbolId.isValid then ownershipRootsFlowValid function events seen
      else if !ownershipRootHasStorageLive function root then
        ownershipRootsFlowValid function events seen
      else if seen.any (fun candidate => candidate.eql root) then
        ownershipRootsFlowValid function events seen
      else if !ownershipRootFlowValid function root
          (solveOwnershipRootEntryStates function root) then false
      else ownershipRootsFlowValid function events (seen ++ [root])

/-- The admission check of a function's ownership events. -/
def ownershipEventSequenceValid (function : Function) : Bool :=
  (function.blocks.isEmpty || ownershipRootsFlowValid function function.ownershipEvents []) &&
    typedOwnershipRootsClosed function

/-- The roots the admission check follows through the blocks. -/
def OwnershipRootTracked (function : Function) (root : ValueId) : Prop :=
  (∃ event ∈ function.ownershipEvents, ownershipEventTracksRoot event root = true) ∧
    ownershipRootHasStorageLive function root = true

lemma ownershipEventTracksRoot_iff {event : OwnershipEvent} {root : ValueId} :
    ownershipEventTracksRoot event root = true ↔
      simpleOwnershipRootValue event.place = some root ∧
        event.place.rootTypeSymbolId.isValid = true := by
  unfold ownershipEventTracksRoot
  split <;> rename_i h
  · simp [h]
  · simp [h, and_comm]

end ModernC.Mir

/-!
## Ownership along a path

What the ownership verifier is for, stated without data flow: a path through the blocks
executes the events recorded for one root in a fixed order, each event moves the root to
its next state, and each event is permitted in some states only.  Nothing here is computed
by the compiler.

A path is a `Framework.Walk` from block `0`.  Its first part, the blocks already left, fixes
the state in which the root arrives at the last block.
-/

namespace ModernC.Mir

open ModernC.Framework

/-- The states in which an event may execute.  Consuming, borrowing and flagging a root
need it live; initialisation needs fresh or, for `reinit`, consumed storage; storage is
neither opened nor closed under a live value.  Ending a borrow is not a use of the root. -/
def OwnershipRootState.permits (state : OwnershipRootState) : OwnershipEventKind → Bool
  | .storageLive | .storageDead => state != .live
  | .init => state == .storageLive
  | .reinit => state == .storageLive || state == .consumed
  | .moveOut | .forget | .explicitDrop | .autoDrop => state == .live
  | .borrowBegin | .setDropFlag => state == .live
  | .borrowEnd => true

/-- Every event is permitted in the state its predecessors leave the root in. -/
def eventsPermitted : OwnershipRootState → List OwnershipEvent → Bool
  | _, [] => true
  | state, event :: events =>
    state.permits event.kind && eventsPermitted (state.after event.kind) events

def stateAfterEvents (state : OwnershipRootState) (events : List OwnershipEvent) :
    OwnershipRootState :=
  events.foldl (fun state event => state.after event.kind) state

@[simp] lemma stateAfterEvents_nil (state : OwnershipRootState) :
    stateAfterEvents state [] = state := rfl

@[simp] lemma stateAfterEvents_cons (state : OwnershipRootState) (event : OwnershipEvent)
    (events : List OwnershipEvent) :
    stateAfterEvents state (event :: events) =
      stateAfterEvents (state.after event.kind) events := rfl

variable (function : Function) (root : ValueId)

/-- The events of `root` that the block at `index` executes. -/
def blockEvents (index : ℕ) : List OwnershipEvent :=
  function.ownershipEvents.filter fun event =>
    ownershipEventTracksRoot event root && event.blockId.eql (.fromIndex index)

/-- Control may pass from the block at `u` to the block at `v`. -/
def FlowEdge (u v : ℕ) : Prop :=
  ∃ successor ∈ function.successors u,
    successor.isValid = true ∧ successor.index = v ∧ v < function.blocks.length

/-- A path from the entry block that leaves the blocks `p` and arrives at block `v`. -/
structure Arrives (p : List ℕ) (v : ℕ) : Prop where
  walk : Walk (FlowEdge function) 0 p v
  inRange : v < function.blocks.length

/-- The state of `root` on arrival, after the blocks `p`. -/
def arrivalState (p : List ℕ) : OwnershipRootState :=
  stateAlong (fun index state => stateAfterEvents state (blockEvents function root index))
    .untracked p

/-- The path performs a forbidden event in the block it arrives at. -/
def ArrivesIllegally (p : List ℕ) (v : ℕ) : Prop :=
  Arrives function p v ∧
    eventsPermitted (arrivalState function root p) (blockEvents function root v) = false

/-- Along every path, every event of `root` is permitted in the root's actual state. -/
def PathsLegal : Prop :=
  ∀ p v, Arrives function p v →
    eventsPermitted (arrivalState function root p) (blockEvents function root v) = true

/-- Every state in which a block performs a forbidden event is also brought to that block by
a path that goes back to an earlier block, or repeats one, at most `blocks.len` times before
its last step. -/
def IllegalStatesWithinRounds : Prop :=
  ∀ p v, ArrivesIllegally function root p v →
    ∃ q, Arrives function q v ∧ arrivalState function root q = arrivalState function root p ∧
      turns q ≤ function.blocks.length

variable {function root}

lemma FlowEdge.source_lt {u v : ℕ} (h : FlowEdge function u v) : u < function.blocks.length := by
  obtain ⟨successor, hmem, -⟩ := h
  by_contra hu
  rw [Function.successors_eq_nil (by omega)] at hmem
  simp at hmem

lemma FlowEdge.target_lt {u v : ℕ} (h : FlowEdge function u v) : v < function.blocks.length := by
  obtain ⟨_, -, -, -, hv⟩ := h
  exact hv

/-- A path that performs a forbidden event is exactly what legality excludes. -/
lemma pathsLegal_iff : PathsLegal function root ↔ ∀ p v, ¬ ArrivesIllegally function root p v := by
  simp [PathsLegal, ArrivesIllegally]

end ModernC.Mir
