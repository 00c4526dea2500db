import Mathlib.Algebra.Ring.Nat
import ModernC.Move.LoopBody

/-!
# Runs over the graph of a loop

What each visit does, what it reports, and that every run ends: a visit leads to less than
it was worth.
-/

namespace ModernC.Move

open ModernC.Framework

variable {τ : Type}

/-! ## What is reported -/

/-- A leak is reported for the value declared at `span`. -/
def ReportsLeak (diagnostics : List Diagnostic) (span : Span) : Prop :=
  ∃ diagnostic ∈ diagnostics, diagnostic.code = .resourceLeak ∧ diagnostic.span = span

/-- The state still has to consume the value declared at `span`, and its place was not there
when the loop was entered. -/
def LeaksAt (rules : TypeRules τ) (entryPlaces : List MovePlace) (state : MoveState τ)
    (span : Span) : Prop :=
  ∃ key slot, state.get key = some slot ∧ slotRequiresExplicitConsume rules slot = true ∧
    slot.place ∉ entryPlaces ∧ slot.span = span

lemma reportsLeak_append {first second : List Diagnostic} {span : Span} :
    ReportsLeak (first ++ second) span ↔ ReportsLeak first span ∨ ReportsLeak second span := by
  simp only [ReportsLeak, List.mem_append, or_and_right, exists_or]

/-- Diagnostics of which none is a leak. -/
def NoLeaks (diagnostics : List Diagnostic) : Prop :=
  ∀ diagnostic ∈ diagnostics, diagnostic.code ≠ .resourceLeak

lemma NoLeaks.not_reportsLeak {diagnostics : List Diagnostic} (h : NoLeaks diagnostics)
    (span : Span) : ¬ ReportsLeak diagnostics span := by
  rintro ⟨diagnostic, hmem, hcode, _⟩
  exact h diagnostic hmem hcode

lemma noLeaks_nil : NoLeaks [] := List.forall_mem_nil _

lemma noLeaks_backedge (entryState iterationState : MoveState τ) :
    NoLeaks (reportLoopOuterResourceChanges entryState iterationState).1 := by
  intro diagnostic hmem hcode
  rw [code_of_reportLoopOuterResourceChanges hmem] at hcode
  cases hcode

lemma reportsLeak_loopExitLeaks {rules : TypeRules τ} {frame : LoopMoveFrame τ}
    {state : MoveState τ} {span : Span} :
    ReportsLeak (loopExitLeaks rules frame state) span ↔
      LeaksAt rules frame.entryPlaces state span := by
  constructor
  · rintro ⟨diagnostic, hmem, _, hspan⟩
    obtain ⟨⟨key, slot⟩, hentry, hreported⟩ := List.mem_flatMap.mp hmem
    unfold reported at hreported
    split at hreported
    · rename_i hleaks
      rw [List.mem_singleton] at hreported
      rw [hreported] at hspan
      simp only [leaksAtLoopExit, loopFrameHasEntryPlace, Bool.and_eq_true, Bool.not_eq_true',
        List.contains_eq_mem, decide_eq_false_iff_not] at hleaks
      exact ⟨key, slot, Table.lookup_eq_some_iff.mpr hentry, hleaks.1, hleaks.2, hspan⟩
    · cases hreported
  · rintro ⟨key, slot, hget, hconsume, hplace, hspan⟩
    have hleaks : leaksAtLoopExit rules frame slot = true := by
      simp only [leaksAtLoopExit, loopFrameHasEntryPlace, Bool.and_eq_true, Bool.not_eq_true',
        List.contains_eq_mem, decide_eq_false_iff_not]
      exact ⟨hconsume, hplace⟩
    refine ⟨loopExitLeak slot, List.mem_flatMap.mpr
      ⟨⟨key, slot⟩, Table.lookup_eq_some_iff.mp hget, ?_⟩, rfl, hspan⟩
    rw [reported, if_pos hleaks]
    exact List.mem_singleton_self _

lemma entryPlaces_recordLoopEarlyExitInvalidations (frame : LoopMoveFrame τ) (state : MoveState τ) :
    (recordLoopEarlyExitInvalidations frame state).entryPlaces = frame.entryPlaces := by
  rw [recordLoopEarlyExitInvalidations]
  apply List.foldlRecOn (motive := fun f : LoopMoveFrame τ => f.entryPlaces = frame.entryPlaces)
  · rfl
  · intro current hcurrent entry _
    split
    · exact hcurrent
    · split <;> split <;> exact hcurrent

/-! ## The queue -/

variable {block : LoopBlock}

lemma mem_enqueue {queue : List LoopBlock} {other : LoopBlock} :
    other ∈ enqueue queue block ↔ other ∈ queue ∨ other = block := by
  unfold enqueue
  split
  · rename_i hmem
    rw [List.contains_iff_mem] at hmem
    constructor
    · exact Or.inl
    · rintro (h | rfl)
      · exact h
      · exact hmem
  · rw [List.mem_append, List.mem_singleton]

lemma nodup_enqueue {queue : List LoopBlock} (h : queue.Nodup) :
    (enqueue queue block).Nodup := by
  unfold enqueue
  split
  · exact h
  · rename_i hmem
    rw [List.contains_iff_mem] at hmem
    rw [← List.concat_eq_append]
    exact h.concat hmem

@[simp] lemma setState_self (data : LoopData τ) (block : LoopBlock) (state : MoveState τ) :
    (data.setState block state).states block = some state :=
  Function.update_self _ _ _

lemma setState_of_ne {data : LoopData τ} {other : LoopBlock} {state : MoveState τ}
    (h : other ≠ block) : (data.setState block state).states other = data.states other :=
  Function.update_of_ne h _ _

@[simp] lemma report_nil (checker : Checker τ) : checker.report [] = checker := by
  rw [Checker.report, List.append_nil]

variable [DecidableEq τ]

/-- What a join does: it sets the state of its block, may put the block into the queue, and
reports no leak.  A block reached for the first time gets the state as it is. -/
lemma joinStateAt_spec (rules : TypeRules τ) (outgoing : MoveState τ) (run : LoopRun τ)
    (block : LoopBlock) :
    ∃ queue diagnostics after,
      joinStateAt rules outgoing run block =
        (queue, (run.2.setChecker (run.2.checker.report diagnostics)).setState block after) ∧
      (queue = run.1 ∨ queue = enqueue run.1 block) ∧ NoLeaks diagnostics ∧
      (run.2.states block = none → after = outgoing ∧ queue = enqueue run.1 block) := by
  unfold joinStateAt
  cases hstate : run.2.states block with
  | none =>
    refine ⟨_, [], outgoing, ?_, Or.inr rfl, noLeaks_nil, fun _ => ⟨rfl, rfl⟩⟩
    rw [report_nil]
    rfl
  | some joined =>
    refine ⟨_, (loopJoin rules block joined outgoing).1, (loopJoin rules block joined outgoing).2,
      rfl, ?_, ?_, fun h => by cases h⟩
    · split
      · exact Or.inl rfl
      · exact Or.inr rfl
    · rw [loopJoin]
      split
      · exact noLeaks_backedge _ _
      · rw [mergeMoveBranchesImpl_silent]
        exact noLeaks_nil

/-! ## Every run ends -/

/-- How many visits a block in the queue may lead to, itself included. -/
def LoopBlock.weight (bodyVisited : Bool) : LoopBlock → ℕ
  | .entry => 6
  | .loopHead => if bodyVisited then 2 else 5
  | .body => 3
  | .exit => 1
  | .breakSource => 2
  | .breakExit => 1
  | .continueSource => if bodyVisited then 4 else 7
  | .continueExit => if bodyVisited then 3 else 6

def queueWeight (bodyVisited : Bool) (queue : List LoopBlock) : ℕ :=
  (queue.map (LoopBlock.weight bodyVisited)).sum

def loopWeight (run : LoopRun τ) : ℕ := queueWeight run.2.bodyVisited run.1

lemma queueWeight_enqueue (bodyVisited : Bool) (queue : List LoopBlock) (block : LoopBlock) :
    queueWeight bodyVisited (enqueue queue block) ≤
      queueWeight bodyVisited queue + block.weight bodyVisited := by
  unfold enqueue
  split
  · omega
  · simp [queueWeight]

lemma queueWeight_visited (queue : List LoopBlock) (bodyVisited : Bool) :
    queueWeight true queue ≤ queueWeight bodyVisited queue := by
  induction queue with
  | nil => exact Nat.le_refl _
  | cons block queue ih =>
    simp only [queueWeight, List.map_cons, List.sum_cons] at ih ⊢
    have hblock : block.weight true ≤ block.weight bodyVisited := by
      cases block <;> cases bodyVisited <;> decide
    omega

lemma bodyVisited_joinStateAt (rules : TypeRules τ) (outgoing : MoveState τ) (run : LoopRun τ)
    (block : LoopBlock) :
    (joinStateAt rules outgoing run block).2.bodyVisited = run.2.bodyVisited := by
  obtain ⟨queue, diagnostics, after, heq, _⟩ := joinStateAt_spec rules outgoing run block
  rw [heq]
  rfl

lemma loopWeight_joinStateAt (rules : TypeRules τ) (outgoing : MoveState τ) (run : LoopRun τ)
    (block : LoopBlock) :
    loopWeight (joinStateAt rules outgoing run block) ≤
      loopWeight run + block.weight run.2.bodyVisited := by
  rw [loopWeight, bodyVisited_joinStateAt]
  obtain ⟨queue, diagnostics, after, heq, hqueue, _⟩ := joinStateAt_spec rules outgoing run block
  rw [heq]
  rcases hqueue with rfl | rfl
  · exact Nat.le_add_right _ _
  · exact queueWeight_enqueue _ _ _

/-! ## What each visit does -/

section Visits

variable {rules : TypeRules τ} {walk : BodyWalk τ} {rest : List LoopBlock} {data : LoopData τ}
  {blockState : MoveState τ}

lemma visitBlock_unreached (h : data.states block = none) :
    visitBlock rules walk block (rest, data) = (rest, data) := by
  unfold visitBlock
  rw [h]

lemma visitBlock_entry (h : data.states .entry = some blockState) :
    visitBlock rules walk .entry (rest, data) =
      joinStateAt rules blockState (rest, data) .loopHead := by
  unfold visitBlock
  rw [h]
  rfl

/-- The first time the head is reached it leads to the body. -/
lemma visitBlock_loopHead_first (h : data.states .loopHead = some blockState)
    (hvisited : data.bodyVisited = false) :
    visitBlock rules walk .loopHead (rest, data) =
      joinStateAt rules blockState (joinStateAt rules blockState (rest, data) .body) .exit := by
  unfold visitBlock
  rw [h, hvisited]
  rfl

lemma visitBlock_loopHead_again (h : data.states .loopHead = some blockState)
    (hvisited : data.bodyVisited = true) :
    visitBlock rules walk .loopHead (rest, data) =
      joinStateAt rules blockState (rest, data) .exit := by
  unfold visitBlock
  rw [h, hvisited]
  rfl

lemma visitBlock_body (h : data.states .body = some blockState) :
    visitBlock rules walk .body (rest, data) =
      if (data.walkBody walk blockState).bodyDiverges then (rest, data.walkBody walk blockState)
      else joinStateAt rules (walk data.checker blockState).2.2
        (rest, data.walkBody walk blockState) .loopHead := by
  unfold visitBlock
  rw [h]
  rfl

lemma visitBlock_exit : visitBlock rules walk .exit (rest, data) = (rest, data) := by
  unfold visitBlock
  cases data.states .exit <;> rfl

lemma visitBlock_breakSource (h : data.states .breakSource = some blockState) :
    visitBlock rules walk .breakSource (rest, data) =
      joinStateAt rules blockState (rest, data) .breakExit := by
  unfold visitBlock
  rw [h]
  rfl

lemma visitBlock_continueSource (h : data.states .continueSource = some blockState) :
    visitBlock rules walk .continueSource (rest, data) =
      joinStateAt rules blockState (rest, data) .continueExit := by
  unfold visitBlock
  rw [h]
  rfl

lemma visitBlock_breakExit (h : data.states .breakExit = some blockState) :
    visitBlock rules walk .breakExit (rest, data) =
      (rest, data.setChecker (checkLoopExitLeaks rules data.checker blockState)) := by
  unfold visitBlock
  rw [h]

lemma visitBlock_continueExit (h : data.states .continueExit = some blockState) :
    visitBlock rules walk .continueExit (rest, data) =
      joinStateAt rules blockState
        (rest, data.setChecker (checkLoopExitLeaks rules data.checker blockState)) .loopHead := by
  unfold visitBlock
  rw [h]
  rfl

/-- **Every visit makes the queue lighter.** -/
lemma loopWeight_visitBlock (block : LoopBlock) :
    loopWeight (visitBlock rules walk block (rest, data)) < loopWeight (block :: rest, data) := by
  have hcons : loopWeight (block :: rest, data) =
      block.weight data.bodyVisited + loopWeight (rest, data) := by
    simp [loopWeight, queueWeight]
  have hpos : 0 < block.weight data.bodyVisited := by
    cases block <;> cases data.bodyVisited <;> decide
  rw [hcons]
  cases hstate : data.states block with
  | none =>
    rw [visitBlock_unreached hstate]
    omega
  | some blockState =>
    -- a visit adds to the queue what it joins into
    have hjoin := fun target => loopWeight_joinStateAt rules blockState (rest, data) target
    cases block with
    | entry =>
      rw [visitBlock_entry hstate]
      have hhead := hjoin .loopHead
      cases hvisited : data.bodyVisited <;> simp only [hvisited, LoopBlock.weight] at hhead ⊢ <;>
        grind
    | loopHead =>
      cases hvisited : data.bodyVisited
      · rw [visitBlock_loopHead_first hstate hvisited]
        have hbody := hjoin .body
        have hexit := loopWeight_joinStateAt rules blockState
          (joinStateAt rules blockState (rest, data) .body) .exit
        simp only [LoopBlock.weight] at hbody hexit ⊢
        grind
      · rw [visitBlock_loopHead_again hstate hvisited]
        have hexit := hjoin .exit
        simp only [LoopBlock.weight] at hexit ⊢
        grind
    | body =>
      rw [visitBlock_body hstate]
      have hwalked : loopWeight (rest, data.walkBody walk blockState) ≤ loopWeight (rest, data) :=
        queueWeight_visited rest data.bodyVisited
      split
      · omega
      · have hhead := loopWeight_joinStateAt rules (walk data.checker blockState).2.2
          (rest, data.walkBody walk blockState) .loopHead
        have hweight : LoopBlock.weight (data.walkBody walk blockState).bodyVisited .loopHead = 2 :=
          rfl
        rw [hweight] at hhead
        simp only [LoopBlock.weight]
        omega
    | exit =>
      rw [visitBlock_exit]
      omega
    | breakSource =>
      rw [visitBlock_breakSource hstate]
      have hexit := hjoin .breakExit
      simp only [LoopBlock.weight] at hexit ⊢
      omega
    | continueSource =>
      rw [visitBlock_continueSource hstate]
      have hexit := hjoin .continueExit
      cases hvisited : data.bodyVisited <;> simp only [hvisited, LoopBlock.weight] at hexit ⊢ <;>
        grind
    | breakExit =>
      rw [visitBlock_breakExit hstate]
      show loopWeight (rest, data) < _
      omega
    | continueExit =>
      rw [visitBlock_continueExit hstate]
      have hhead := loopWeight_joinStateAt rules blockState
        (rest, data.setChecker (checkLoopExitLeaks rules data.checker blockState)) .loopHead
      have hsame : loopWeight
          (rest, data.setChecker (checkLoopExitLeaks rules data.checker blockState)) =
          loopWeight (rest, data) := rfl
      rw [hsame] at hhead
      have hvisited' : (data.setChecker (checkLoopExitLeaks rules data.checker blockState)).bodyVisited
        = data.bodyVisited := rfl
      simp only [hvisited'] at hhead
      cases hvisited : data.bodyVisited <;> simp only [hvisited, LoopBlock.weight] at hhead ⊢ <;>
        grind

end Visits

end ModernC.Move
