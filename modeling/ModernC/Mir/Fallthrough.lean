import ModernC.Framework.Walks
import ModernC.Framework.WhileLoops
import ModernC.Mir.Typed.Body
import Mathlib.Data.List.Count

/-!
# Functions that run off their end

`functionFallsThrough` of `mir.zig` looks for a block of a non-void function that control can
reach and that ends without a terminator, and `cfgHasStructuralError` says which control-flow
graphs the MIR verifier accepts.  The search keeps its stack and its marks in buffers of 512
entries.
-/

namespace ModernC.Mir.Fallthrough

open Framework Relation
open Types (ValueType)
open Typed (TrapEdge)

/-! ## Functions with trap edges -/

structure Block where
  id : BlockId
  instructions : List Instruction := []
  successors : List BlockId
  terminator : Typed.Terminator
deriving DecidableEq

structure Function where
  returnTy : ValueType
  blocks : List Block
  trapEdges : List TrapEdge := []
  spanIdentities : List SpanIdentity := []
deriving DecidableEq

def isVoidLike (ty : ValueType) : Bool := ty == .void

/-! ## Source points -/

def noPoint : SourcePoint := { line := 0, column := 0 }

def sourcePointForSpanId (function : Function) (typedSpanId : SpanId) : Option SourcePoint :=
  if !typedSpanId.isValid || decide (function.spanIdentities.length ≤ typedSpanId.index) then none
  else
    match function.spanIdentities[typedSpanId.index]? with
    | none => none
    | some identity => if identity.id.eql typedSpanId then some identity.source else none

def instructionSourcePoint (function : Function) (instruction : Instruction) :
    Option SourcePoint :=
  sourcePointForSpanId function instruction.typedSpanId

def blockLastSpan (function : Function) (block : Block) : SourcePoint :=
  match block.instructions.getLast? with
  | none => noPoint
  | some last => (instructionSourcePoint function last).getD noPoint

/-! ## The structural check -/

def isTrapSuccessor (function : Function) (fromBlock toBlock : BlockId) : Bool :=
  function.trapEdges.any fun edge => edge.fromBlock.eql fromBlock && edge.trapBlock.eql toBlock

def successorListed (block : Block) (target : BlockId) : Bool :=
  block.successors.any fun successor => successor.eql target

def normalSuccessorCount (function : Function) (block : Block) : ℕ :=
  block.successors.countP fun successor => !isTrapSuccessor function block.id successor

def normalSuccessorListed (function : Function) (block : Block) (target : BlockId) : Bool :=
  successorListed block target && !isTrapSuccessor function block.id target

/-- The only successor is a trap block, and the first trap edge to it is a trap of the source. -/
def terminalTrapSuccessor (function : Function) (block : Block) (target : BlockId) : Bool :=
  if block.successors.length != 1 || !block.successors.head?.any (·.eql target) then false
  else
    match function.trapEdges.find? fun edge =>
        edge.fromBlock.eql block.id && edge.trapBlock.eql target with
    | none => false
    | some edge => edge.source == .explicitTrap || edge.source == .unreachableExpr

def terminatorSuccessorsAreConsistent (function : Function) (block : Block) : Bool :=
  match block.terminator with
  | .fallthrough => normalSuccessorCount function block == 0
  | .jump target =>
    (normalSuccessorCount function block == 1 && normalSuccessorListed function block target) ||
      terminalTrapSuccessor function block target
  | .branch trueBlock falseBlock =>
    normalSuccessorCount function block == 2 && successorListed block trueBlock &&
      successorListed block falseBlock
  | .return_ | .trap_ _ | .unreachable_ => normalSuccessorCount function block == 0
  | .switch_ => decide (0 < normalSuccessorCount function block)

/-- The index of the block is its position, its successors are blocks, and their number fits the
terminator. -/
def blockWellFormed (function : Function) (blockIndex : ℕ) (block : Block) : Bool :=
  block.id.isValid && block.id.index == blockIndex &&
    block.successors.all (fun successor =>
      successor.isValid && (function.blocks[successor.index]?).any (·.id.eql successor)) &&
    terminatorSuccessorsAreConsistent function block

/-- What is wrong with a trap edge, as the point to report. -/
def trapEdgeError (function : Function) (edge : TrapEdge) : Option SourcePoint :=
  match sourcePointForSpanId function edge.typedSpanId with
  | none => some noPoint
  | some source =>
    if !edge.fromBlock.isValid || !edge.trapBlock.isValid then some source
    else
      match function.blocks[edge.fromBlock.index]?, function.blocks[edge.trapBlock.index]? with
      | some source', some trapBlock =>
        if !successorListed source' edge.trapBlock then some source
        else
          match trapBlock.terminator with
          | .trap_ trapKind => if trapKind != edge.kind then some source else none
          | _ => some source
      | _, _ => some source

/-- The first malformed block or trap edge.  A function without blocks has none. -/
def cfgHasStructuralError (function : Function) : Option SourcePoint :=
  if function.blocks.length == 0 then none
  else
    match function.blocks.zipIdx.find? fun entry =>
        !blockWellFormed function entry.2 entry.1 with
    | some entry => some (blockLastSpan function entry.1)
    | none => function.trapEdges.findSome? (trapEdgeError function)

/-! ## The search -/

/-- The length of `stack_buf` and `seen_buf`. -/
def searchCapacity : ℕ := 512

/-- The stack, its top first, and the marks. -/
structure Search where
  stack : List ℕ
  seen : List Bool
deriving DecidableEq

/-- The entry block is on the stack and marked. -/
def Search.start (capacity : ℕ) : Search := ⟨[0], (List.replicate capacity false).set 0 true⟩

/-- The passes the search can still make: what is on the stack and what is not yet marked. -/
def Search.passes (state : Search) : ℕ := state.stack.length + state.seen.count false

/-- Marking a successor and pushing it; `none` is a write past the end of a buffer. -/
def push (function : Function) (state : Search) (successor : BlockId) : Option Search :=
  if !successor.isValid || decide (function.blocks.length ≤ successor.index) then some state
  else
    match state.seen[successor.index]? with
    | none => none
    | some true => some state
    | some false =>
      if state.stack.length < searchCapacity then
        some ⟨successor.index :: state.stack, state.seen.set successor.index true⟩
      else none

/-- One pass of the search: it goes on, or it returns a point or `null`. -/
def visit (function : Function) (state : Search) : Option (Search ⊕ Option SourcePoint) :=
  match state.stack with
  | [] => some (.inr none)
  | id :: rest =>
    match function.blocks[id]? with
    | none => none
    | some block =>
      if block.successors.length == 0 && block.terminator == .fallthrough then
        some (.inr (some (blockLastSpan function block)))
      else (block.successors.foldlM (push function) ⟨rest, state.seen⟩).map .inl

/-- `function_falls_through`.  Every pass takes a marked block off the stack, so that as many
passes as there are marks suffice. -/
def functionFallsThrough (function : Function) : Option (Option SourcePoint) :=
  if isVoidLike function.returnTy then some none
  else if searchCapacity < function.blocks.length || function.blocks.length == 0 then some none
  else
    loopUntil (visit function) (searchCapacity + 1)
      (Search.start searchCapacity)

/-! ## Reachable blocks -/

/-- The block at `u` lists the block at `v` among its successors. -/
def Edge (function : Function) (u v : ℕ) : Prop :=
  ∃ block, function.blocks[u]? = some block ∧ ∃ successor ∈ block.successors, successor.index = v

def Reachable (function : Function) : ℕ → Prop := ReflTransGen (Edge function) 0

/-- Some block that control can reach ends without a terminator. -/
def FallsThrough (function : Function) : Prop :=
  ∃ u block, Reachable function u ∧ function.blocks[u]? = some block ∧
    block.terminator = .fallthrough

/-- What the search reports: a block that ends without a terminator and lists no successor. -/
def RunsOff (block : Block) : Prop := block.successors = [] ∧ block.terminator = .fallthrough

def ReachesRunsOff (function : Function) : Prop :=
  ∃ u block, Reachable function u ∧ function.blocks[u]? = some block ∧ RunsOff block

/-- A point is reported. -/
def Reports (function : Function) : Prop :=
  ∃ point, functionFallsThrough function = some (some point)

variable {function : Function}

lemma ReachesRunsOff.fallsThrough (h : ReachesRunsOff function) :
    FallsThrough function := by
  obtain ⟨u, block, hreach, hblock, hoff⟩ := h
  exact ⟨u, block, hreach, hblock, hoff.2⟩

/-- Every successor of a block is the index of a block. -/
def SuccessorsInRange (function : Function) : Prop :=
  ∀ (u : ℕ) (block : Block), function.blocks[u]? = some block → ∀ successor ∈ block.successors,
    successor.isValid = true ∧ successor.index < function.blocks.length

lemma blockWellFormed_of_accepted
    (h : cfgHasStructuralError function = none) {u : ℕ} {block : Block}
    (hblock : function.blocks[u]? = some block) : blockWellFormed function u block = true := by
  have hmem : (block, u) ∈ function.blocks.zipIdx := List.mem_zipIdx_iff_getElem?.mpr hblock
  rw [cfgHasStructuralError] at h
  split at h
  · next hempty =>
    have hnil : function.blocks = [] := by simpa using hempty
    simp [hnil] at hblock
  · split at h
    · exact absurd h (by simp)
    · next hnone => simpa using List.find?_eq_none.mp hnone _ hmem

lemma successorsInRange_of_accepted
    (h : cfgHasStructuralError function = none) : SuccessorsInRange function := by
  intro u block hblock successor hmem
  have hformed := blockWellFormed_of_accepted h hblock
  simp only [blockWellFormed, Bool.and_eq_true, List.all_eq_true] at hformed
  obtain ⟨hvalid, htarget⟩ := hformed.1.2 successor hmem
  refine ⟨hvalid, ?_⟩
  by_contra hout
  simp [List.getElem?_eq_none (not_lt.mp hout)] at htarget

/-! ## What pushing does -/

/-- The step from one state of the search to another marks and pushes the unmarked targets. -/
structure Pushed (state next : Search) (targets : Set ℕ) : Prop where
  length : next.seen.length = state.seen.length
  passes : next.passes = state.passes
  seen : ∀ v, next.seen[v]? = some true ↔ state.seen[v]? = some true ∨ v ∈ targets
  stack : ∀ v, v ∈ next.stack ↔
    v ∈ state.stack ∨ (v ∈ targets ∧ state.seen[v]? ≠ some true)

namespace Pushed

variable {state middle next : Search} {targets targets' : Set ℕ}

lemma refl (h : ∀ v ∈ targets, state.seen[v]? = some true) : Pushed state state targets where
  length := rfl
  passes := rfl
  seen := by
    intro v
    exact ⟨.inl, fun hv => hv.elim id (h v)⟩
  stack := by
    intro v
    exact ⟨.inl, fun hv => hv.elim id fun hboth => absurd (h v hboth.1) hboth.2⟩

lemma trans (h : Pushed state middle targets) (h' : Pushed middle next targets') :
    Pushed state next (targets ∪ targets') where
  length := h'.length.trans h.length
  passes := h'.passes.trans h.passes
  seen := by
    intro v
    rw [h'.seen, h.seen, or_assoc]
    exact Iff.rfl
  stack := by
    intro v
    rw [h'.stack, h.stack, Set.mem_union, ne_eq, ne_eq, h.seen]
    tauto

end Pushed

section

variable {function : Function}

lemma push_pushed {state : Search} {successor : BlockId} (hvalid : successor.isValid = true)
    (hlt : successor.index < function.blocks.length) (hseen : successor.index < state.seen.length)
    (hroom : state.passes ≤ searchCapacity) :
    ∃ next, push function state successor = some next ∧
      Pushed state next {v | v = successor.index} := by
  have hin : (!successor.isValid || decide (function.blocks.length ≤ successor.index)) = false := by
    simp [hvalid, hlt]
  rw [push, hin, if_neg Bool.false_ne_true]
  have hget : state.seen[successor.index]? = some state.seen[successor.index] :=
    List.getElem?_eq_getElem hseen
  rw [hget]
  cases hmark : state.seen[successor.index] with
  | true =>
    refine ⟨state, rfl, .refl ?_⟩
    rintro v rfl
    rw [hget, hmark]
  | false =>
    have hcount : 0 < state.seen.count false :=
      List.count_pos_iff.mpr (hmark ▸ List.getElem_mem hseen)
    have hfits : state.stack.length < searchCapacity := by
      rw [Search.passes] at hroom
      omega
    rw [hmark] at hget
    refine ⟨_, if_pos hfits, ?_⟩
    constructor
    · simp
    · simp only [Search.passes, List.length_cons, List.count_set hseen, hmark]
      simp
      omega
    · intro v
      rw [List.getElem?_set]
      by_cases hv : successor.index = v
      · simp [hv]
        omega
      · simp [hv, Ne.symm hv]
    · intro v
      simp only [List.mem_cons, Set.mem_ofPred_eq]
      constructor
      · rintro (rfl | hold)
        · exact .inr ⟨rfl, by simp [hget]⟩
        · exact .inl hold
      · rintro (hold | ⟨rfl, -⟩)
        · exact .inr hold
        · exact .inl rfl

/-- Pushing all successors of a block. -/
lemma pushAll_pushed {successors : List BlockId} {state : Search}
    (hvalid : ∀ successor ∈ successors,
      successor.isValid = true ∧ successor.index < function.blocks.length)
    (hblocks : function.blocks.length ≤ state.seen.length) (hroom : state.passes ≤ searchCapacity) :
    ∃ next, successors.foldlM (push function) state = some next ∧
      Pushed state next {v | ∃ successor ∈ successors, successor.index = v} := by
  induction successors generalizing state with
  | nil => exact ⟨state, rfl, .refl (by simp)⟩
  | cons successor rest ih =>
    obtain ⟨hself, hrest⟩ := List.forall_mem_cons.mp hvalid
    obtain ⟨middle, hmiddle, hpushed⟩ :=
      push_pushed hself.1 hself.2 (hself.2.trans_le hblocks) hroom
    obtain ⟨next, hnext, hall⟩ :=
      ih hrest (hpushed.length ▸ hblocks) (hpushed.passes ▸ hroom)
    refine ⟨next, by simp [List.foldlM_cons, hmiddle, hnext], ?_⟩
    have htargets : {v | ∃ s ∈ successor :: rest, s.index = v} =
        {v | v = successor.index} ∪ {v | ∃ s ∈ rest, s.index = v} := by
      ext v
      simp [eq_comm]
    rw [htargets]
    exact hpushed.trans hall

end

/-! ## What the search keeps -/

section

variable {capacity v : ℕ}

lemma searchCapacity_pos : 0 < searchCapacity := by decide

lemma Search.start_length : (Search.start capacity).seen.length = capacity := by
  simp [Search.start]

lemma Search.start_seen (h : 0 < capacity) :
    (Search.start capacity).seen[v]? = some true ↔ v = 0 := by
  rcases Nat.eq_zero_or_pos v with rfl | hv
  · simp [Search.start, h]
  · have hne : ¬ 0 = v := by omega
    simp [Search.start, List.getElem?_replicate, hne]
    omega

lemma Search.start_passes (h : 0 < capacity) : (Search.start capacity).passes = capacity := by
  simp [Search.start, Search.passes, List.count_set, h]
  omega

end

/-- The search of the blocks: what is marked, what is pending, and that what it has left behind
does not run off. -/
structure Tracks (function : Function) (state : Search) : Prop where
  searching : Searching (Edge function) 0 {v | v ∈ state.stack} {v | state.seen[v]? = some true}
  inRange : ∀ v ∈ state.stack, v < function.blocks.length
  length : state.seen.length = searchCapacity
  room : state.passes ≤ searchCapacity
  quiet : ∀ v, state.seen[v]? = some true → v ∉ state.stack →
    ∀ block, function.blocks[v]? = some block → ¬ RunsOff block

section

variable {function : Function}

lemma tracks_start (hblocks : 0 < function.blocks.length) :
    Tracks function (Search.start searchCapacity) where
  searching := by
    have hpending : {v | v ∈ (Search.start searchCapacity).stack} = ({0} : Set ℕ) := by
      ext v
      exact List.mem_singleton
    have hmarked : {v | (Search.start searchCapacity).seen[v]? = some true} = ({0} : Set ℕ) := by
      ext v
      exact Search.start_seen searchCapacity_pos
    rw [hpending, hmarked]
    exact .begin_at
  inRange := by
    intro v hv
    rw [List.mem_singleton.mp hv]
    exact hblocks
  length := Search.start_length
  room := (Search.start_passes searchCapacity_pos).le
  quiet := by
    intro v hseen hnot
    rw [Search.start_seen searchCapacity_pos] at hseen
    exact absurd (List.mem_singleton.mpr hseen) hnot

/-- The marks and the pending blocks after a pass that goes on. -/
lemma tracks_next (hrange : SuccessorsInRange function) {id : ℕ} {rest : List ℕ}
    {seen : List Bool} {next : Search} {block : Block} (h : Tracks function ⟨id :: rest, seen⟩)
    (hblock : function.blocks[id]? = some block) (hquiet : ¬ RunsOff block)
    (hpushed : Pushed ⟨rest, seen⟩ next {v | ∃ successor ∈ block.successors, successor.index = v}) :
    Tracks function next where
  searching := by
    have hedge : ∀ v, Edge function id v ↔ ∃ s ∈ block.successors, s.index = v := by
      intro v
      simp [Edge, hblock]
    refine h.searching.expand (u := id) (h.searching.pending_marked (List.mem_cons_self ..))
      ?_ ?_ ?_ ?_ ?_
    · intro v hv
      exact (hpushed.seen v).mpr (.inl hv)
    · intro v hv hnew
      have htarget := ((hpushed.seen v).mp hv).resolve_left hnew
      exact ⟨(hedge v).mpr htarget, (hpushed.stack v).mpr (.inr ⟨htarget, hnew⟩)⟩
    · intro v hv
      exact (hpushed.seen v).mpr (.inr ((hedge v).mp hv))
    · intro v hv hne
      exact (hpushed.stack v).mpr (.inl ((List.mem_cons.mp hv).resolve_left hne))
    · intro v hv
      refine (hpushed.seen v).mpr (((hpushed.stack v).mp hv).imp (fun hold => ?_) And.left)
      exact h.searching.pending_marked (List.mem_cons_of_mem id hold)
  inRange := by
    intro v hv
    rcases (hpushed.stack v).mp hv with hold | ⟨⟨successor, hmem, rfl⟩, -⟩
    · exact h.inRange v (List.mem_cons_of_mem id hold)
    · exact (hrange id block hblock successor hmem).2
  length := hpushed.length.trans h.length
  room := by
    have hroom := h.room
    have hpasses := hpushed.passes
    simp only [Search.passes, List.length_cons] at hroom hpasses ⊢
    omega
  quiet := by
    intro v hv hnot
    have hold : seen[v]? = some true := by
      by_contra hnew
      exact hnot ((hpushed.stack v).mpr (.inr ⟨((hpushed.seen v).mp hv).resolve_left hnew, hnew⟩))
    by_cases hid : v = id
    · rintro block' hblock'
      rw [hid, hblock] at hblock'
      exact Option.some.inj hblock' ▸ hquiet
    · refine h.quiet v hold fun hmem => hnot ((hpushed.stack v).mpr (.inl ?_))
      exact (List.mem_cons.mp hmem).resolve_left hid

/-- A pass takes a block off the stack and goes on, or it tells whether control can run off. -/
lemma visit_step (hrange : SuccessorsInRange function)
    (hsize : function.blocks.length ≤ searchCapacity) (state : Search) (h : Tracks function state) :
    (∃ next, visit function state = some (.inl next) ∧ Tracks function next ∧
      next.passes < state.passes) ∨
    ∃ result, visit function state = some (.inr result) ∧
      ((∃ point, result = some point) ↔ ReachesRunsOff function) := by
  obtain ⟨stack, seen⟩ := state
  cases stack with
  | nil =>
    -- Nothing is pending: every reachable block is marked and left behind.
    refine .inr ⟨none, rfl, iff_of_false (by simp) ?_⟩
    rintro ⟨u, block, hreach, hblock, hoff⟩
    have hsearch : Searching (Edge function) 0 ∅ {v | seen[v]? = some true} := by
      simpa using h.searching
    exact h.quiet u (hsearch.marked_iff.mpr hreach) List.not_mem_nil block hblock hoff
  | cons id rest =>
    have hlt : id < function.blocks.length := h.inRange id (List.mem_cons_self ..)
    obtain ⟨block, hblock⟩ : ∃ block, function.blocks[id]? = some block :=
      ⟨_, List.getElem?_eq_getElem hlt⟩
    simp only [visit, hblock]
    split
    · next hoff =>
      have hruns : RunsOff block := by simpa [RunsOff] using hoff
      have hmarked := h.searching.pending_marked (List.mem_cons_self ..)
      refine .inr ⟨_, rfl, iff_of_true ⟨_, rfl⟩ ?_⟩
      exact ⟨id, block, h.searching.sound id hmarked, hblock, hruns⟩
    · next hon =>
      have hquiet : ¬ RunsOff block := by simpa [RunsOff] using hon
      have hroom : Search.passes ⟨rest, seen⟩ < Search.passes ⟨id :: rest, seen⟩ := by
        simp [Search.passes]
      obtain ⟨next, hnext, hpushed⟩ : ∃ next,
          block.successors.foldlM (push function) ⟨rest, seen⟩ = some next ∧
            Pushed ⟨rest, seen⟩ next {v | ∃ successor ∈ block.successors, successor.index = v} :=
        pushAll_pushed (hrange id block hblock) (hsize.trans_eq h.length.symm)
          (hroom.le.trans h.room)
      refine .inl ⟨next, by rw [hnext]; rfl, tracks_next hrange h hblock hquiet hpushed, ?_⟩
      rw [hpushed.passes]
      exact hroom

/-- **The search** ends within its buffers, and within them it reports a point just where control
can reach a block that runs off. -/
lemma functionFallsThrough_spec (hvoid : function.returnTy ≠ .void)
    (hrange : SuccessorsInRange function) :
    ∃ result, functionFallsThrough function = some result ∧
      ((∃ point, result = some point) ↔
        function.blocks.length ≤ searchCapacity ∧ ReachesRunsOff function) := by
  have hvalue : isVoidLike function.returnTy = false := by simp [isVoidLike, hvoid]
  rw [functionFallsThrough, hvalue, if_neg Bool.false_ne_true]
  split
  · next hsize =>
    refine ⟨none, rfl, iff_of_false (by simp) ?_⟩
    rintro ⟨hfits, u, block, -, hblock, -⟩
    rcases (by simpa using hsize : searchCapacity < function.blocks.length ∨ function.blocks = [])
      with hlarge | hempty
    · omega
    · simp [hempty] at hblock
  · next hsize =>
    obtain ⟨hfits, hblocks⟩ :
        function.blocks.length ≤ searchCapacity ∧ function.blocks ≠ [] := by simpa using hsize
    have hstart := tracks_start (List.length_pos_iff.mpr hblocks)
    obtain ⟨result, hresult, hiff⟩ := loopUntil_spec (Tracks function) Search.passes
      (visit_step hrange hfits) hstart (Nat.lt_succ_of_le hstart.room)
    exact ⟨result, hresult, hiff.trans (by simp [hfits])⟩

end

/-! ## The main theorem -/

/-- **Missing returns.**  In a function that returns a value and whose graph the verifier accepts,
a point is reported just where control can run off, precisely if control cannot run off at all, or
the blocks fit the buffers and one of the blocks where it runs off lists no successor. -/
theorem reports_iff_fallsThrough_iff (function : Function) (hvoid : function.returnTy ≠ .void)
    (hcfg : cfgHasStructuralError function = none) :
    (Reports function ↔ FallsThrough function) ↔
      (¬ FallsThrough function ∨
        function.blocks.length ≤ searchCapacity ∧ ReachesRunsOff function) := by
  obtain ⟨result, hresult, hiff⟩ :=
    functionFallsThrough_spec hvoid (successorsInRange_of_accepted hcfg)
  have hreports : Reports function ↔ ∃ point, result = some point := by
    simp [Reports, hresult]
  rw [hreports, hiff]
  constructor
  · intro h
    by_cases hfalls : FallsThrough function
    · exact .inr (h.mpr hfalls)
    · exact .inl hfalls
  · rintro (hnot | hfound)
    · exact iff_of_false (fun hfound => hnot hfound.2.fallsThrough) hnot
    · exact iff_of_true hfound hfound.2.fallsThrough

/-! ## A block that may trap and then falls through -/

/-- The body of a `u32` function whose only statement is a checked addition: the block ends
without a terminator and lists the trap block. -/
def addsOnly : Function where
  returnTy := .integer "u32"
  blocks := [⟨.fromIndex 0, [⟨.fromIndex 0⟩], [.fromIndex 1], .fallthrough⟩,
    ⟨.fromIndex 1, [], [], .trap_ .integerOverflow⟩]
  trapEdges := [⟨.fromIndex 0, .fromIndex 1, .integerOverflow, .checkedArithmetic, .fromIndex 0⟩]
  spanIdentities := [⟨.fromIndex 0, { line := 2, column := 5 }⟩]

lemma addsOnly_accepted : cfgHasStructuralError addsOnly = none := by decide

theorem reports_iff_fallsThrough_iff_addsOnly :
    (Reports addsOnly ↔ FallsThrough addsOnly) ↔
      (¬ FallsThrough addsOnly ∨
        addsOnly.blocks.length ≤ searchCapacity ∧ ReachesRunsOff addsOnly) :=
  reports_iff_fallsThrough_iff addsOnly (by decide) addsOnly_accepted

theorem addsOnly_not_reported :
    addsOnly.returnTy ≠ .void ∧ cfgHasStructuralError addsOnly = none ∧
      FallsThrough addsOnly ∧ ¬ Reports addsOnly := by
  refine ⟨by decide, addsOnly_accepted, ⟨0, _, .refl, rfl, rfl⟩, ?_⟩
  rintro ⟨point, hpoint⟩
  obtain ⟨result, hresult, hiff⟩ := functionFallsThrough_spec
    (by decide : addsOnly.returnTy ≠ .void) (successorsInRange_of_accepted addsOnly_accepted)
  obtain rfl : result = some point := Option.some.inj (hresult.symm.trans hpoint)
  obtain ⟨-, u, block, -, hblock, hoff⟩ := hiff.mp ⟨point, rfl⟩
  have hnone : ∀ block ∈ addsOnly.blocks, ¬ (block.successors = [] ∧
      block.terminator = .fallthrough) := by decide
  exact hnone block (List.mem_of_getElem? hblock) hoff

end ModernC.Mir.Fallthrough
