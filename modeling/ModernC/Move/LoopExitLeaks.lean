import Mathlib.Algebra.Order.BigOperators.Group.List
import Mathlib.Algebra.Order.Ring.Nat
import ModernC.Move.LoopRuns

/-!
# Leaks where a loop is left

A value declared in a loop body leaks at a `break` or `continue` if it still has to be
consumed there.  The checker joins all queued `break` states before it looks, and all queued
`continue` states: it reports the leak of a queued state exactly if a value with the same
declaration leaks in the last state queued of one kind and all others of the kind share it.
-/

namespace ModernC.Move

open ModernC.Framework

variable {τ : Type}

/-! ## The queued states -/

def LoopMoveExitKind.exit : LoopMoveExitKind → LoopBlock
  | .breakExit => .breakExit
  | .continueExit => .continueExit

/-- The blocks that the queued states pass through. -/
def LoopBlock.leaves : LoopBlock → Bool
  | .breakSource => true
  | .breakExit => true
  | .continueSource => true
  | .continueExit => true
  | _ => false

/-- The states of one kind, in the order of the list. -/
def exitsOf (kind : LoopMoveExitKind) (exits : List (LoopMoveExitState τ)) : List (MoveState τ) :=
  (exits.filter fun exit => exit.kind == kind).map LoopMoveExitState.state

/-- The join of all of them, if there are any. -/
def joinedOf (rules : TypeRules τ) : List (MoveState τ) → Option (MoveState τ)
  | [] => none
  | first :: rest => some (joinedExits rules first rest)

lemma joinedOf_concat (rules : TypeRules τ) (states : List (MoveState τ)) (state : MoveState τ) :
    joinedOf rules (states ++ [state]) =
      match joinedOf rules states with
      | none => some state
      | some joined => some (mergeMoveBranchesImpl rules joined state false).2 := by
  cases states with
  | nil => rfl
  | cons first rest =>
    show some (joinedExits rules first (rest ++ [state])) = some _
    rw [joinedExits, List.foldl_append]
    rfl

lemma joinedOf_eq_none_iff {rules : TypeRules τ} {states : List (MoveState τ)} :
    joinedOf rules states = none ↔ states = [] := by
  cases states <;> simp [joinedOf]

lemma exitsOf_concat (kind : LoopMoveExitKind) (exits : List (LoopMoveExitState τ))
    (exit : LoopMoveExitState τ) :
    exitsOf kind (exits ++ [exit]) =
      if exit.kind = kind then exitsOf kind exits ++ [exit.state] else exitsOf kind exits := by
  rw [exitsOf, List.filter_append, List.map_append]
  by_cases hkind : exit.kind = kind
  · rw [if_pos hkind, List.filter_cons_of_pos (by rw [hkind]; exact beq_self_eq_true _)]
    rfl
  · rw [if_neg hkind, List.filter_cons_of_neg (by rwa [beq_iff_eq]), List.filter_nil, List.map_nil,
      List.append_nil]
    rfl

lemma LoopMoveExitKind.source_inj {first second : LoopMoveExitKind} :
    first.source = second.source ↔ first = second := by
  cases first <;> cases second <;> decide

/-! ## What is owed

A queued state is owed a check until its exit block has been visited.  Every visit of the
second run pays a debt by reporting it, or hands it on. -/

/-- A state on its way out of the loop still leaks the value declared at `span`. -/
def Owed (rules : TypeRules τ) (entryPlaces : List MovePlace) (run : LoopRun τ) (span : Span) :
    Prop :=
  ∃ block ∈ run.1, block.leaves = true ∧
    ∃ state, run.2.states block = some state ∧ LeaksAt rules entryPlaces state span

/-- The leaks reported since `base` diagnostics, and those still owed. -/
def Account (rules : TypeRules τ) (entryPlaces : List MovePlace) (base : ℕ) (run : LoopRun τ)
    (span : Span) : Prop :=
  ReportsLeak (run.2.checker.diagnostics.drop base) span ∨ Owed rules entryPlaces run span

/-- A run after the body's walk: the body is not visited again, and no exit block has been
reached while its source is still in the queue. -/
structure ExitRun (entryPlaces : List MovePlace) (base : ℕ) (run : LoopRun τ) : Prop where
  visited : run.2.bodyVisited = true
  nodup : run.1.Nodup
  noBody : LoopBlock.body ∉ run.1
  unreached : ∀ kind : LoopMoveExitKind, kind.source ∈ run.1 → run.2.states kind.exit = none
  reported : base ≤ run.2.checker.diagnostics.length
  frame : ∃ frame outer, run.2.checker.moveLoopStack = frame :: outer ∧
    frame.entryPlaces = entryPlaces

section Accounts

variable {rules : TypeRules τ} {entryPlaces : List MovePlace} {base : ℕ}
  {rest : List LoopBlock} {data : LoopData τ} {span : Span}

/-- The front of the queue may be left out if it is no exit, or was never reached. -/
lemma ExitRun.tail {block : LoopBlock} (h : ExitRun entryPlaces base (block :: rest, data)) :
    ExitRun entryPlaces base (rest, data) where
  visited := h.visited
  nodup := h.nodup.of_cons
  noBody hmem := h.noBody (List.mem_cons_of_mem _ hmem)
  unreached kind hmem := h.unreached kind (List.mem_cons_of_mem _ hmem)
  reported := h.reported
  frame := h.frame

lemma owed_cons {block : LoopBlock} :
    Owed rules entryPlaces (block :: rest, data) span ↔
      (block.leaves = true ∧
        ∃ state, data.states block = some state ∧ LeaksAt rules entryPlaces state span) ∨
      Owed rules entryPlaces (rest, data) span := by
  simp only [Owed, List.mem_cons, or_and_right, exists_or, exists_eq_left]

lemma drop_report (diagnostics : List Diagnostic) (h : base ≤ data.checker.diagnostics.length) :
    (data.checker.report diagnostics).diagnostics.drop base =
      data.checker.diagnostics.drop base ++ diagnostics :=
  List.drop_append_of_le_length h

end Accounts

/-! ## Putting the states at their source blocks -/

variable [DecidableEq τ]

/-- What a run carries once these states have been put at their source blocks. -/
structure Queued (rules : TypeRules τ) (base : LoopData τ) (exits : List (LoopMoveExitState τ))
    (run : LoopRun τ) : Prop where
  checker : run.2.checker = base.checker
  visited : run.2.bodyVisited = base.bodyVisited
  source : ∀ kind : LoopMoveExitKind,
    run.2.states kind.source = joinedOf rules (exitsOf kind exits)
  exit : ∀ kind : LoopMoveExitKind, run.2.states kind.exit = base.states kind.exit
  queue : ∀ block, block ∈ run.1 ↔
    ∃ kind : LoopMoveExitKind, block = kind.source ∧ exitsOf kind exits ≠ []
  nodup : run.1.Nodup

variable {state : MoveState τ} {run : LoopRun τ} {block : LoopBlock} {base : LoopData τ}
  {exits : List (LoopMoveExitState τ)}

lemma joinStateAt_first {rules : TypeRules τ} (h : run.2.states block = none) :
    joinStateAt rules state run block = (enqueue run.1 block, run.2.setState block state) := by
  unfold joinStateAt
  rw [h]

lemma enqueue_of_mem {queue : List LoopBlock} (h : block ∈ queue) :
    enqueue queue block = queue := by
  rw [enqueue, if_pos (List.contains_iff_mem.mpr h)]

/-- A further join at a source block that is in the queue changes its state only. -/
lemma joinStateAt_source {rules : TypeRules τ} {joined : MoveState τ}
    {kind : LoopMoveExitKind} (h : run.2.states kind.source = some joined)
    (hmem : kind.source ∈ run.1) :
    joinStateAt rules state run kind.source =
      (run.1, run.2.setState kind.source (mergeMoveBranchesImpl rules joined state false).2) := by
  have hjoin : loopJoin rules kind.source joined state =
      ([], (mergeMoveBranchesImpl rules joined state false).2) := by
    rw [loopJoin, if_neg (by cases kind <;> decide),
      ← mergeMoveBranchesImpl_silent rules joined state]
  unfold joinStateAt
  simp only [h, hjoin, report_nil, enqueue_of_mem hmem, ite_self]
  rfl

lemma Queued.concat {rules : TypeRules τ}
    (h : Queued rules base exits run) (exit : LoopMoveExitState τ) :
    Queued rules base (exits ++ [exit]) (joinStateAt rules exit.state run exit.kind.source) := by
  have hexit : ∀ state (kind : LoopMoveExitKind),
      (run.2.setState exit.kind.source state).states kind.exit = base.states kind.exit := by
    intro state kind
    have hne : kind.exit ≠ exit.kind.source := by
      cases kind <;> cases exit.kind <;> decide
    rw [← h.exit kind]
    exact Function.update_of_ne hne _ _
  have hsource : ∀ {state}, joinedOf rules (exitsOf exit.kind exits ++ [exit.state]) = some state →
      ∀ kind : LoopMoveExitKind, (run.2.setState exit.kind.source state).states kind.source =
        joinedOf rules (exitsOf kind (exits ++ [exit])) := by
    intro state hjoined kind
    rw [exitsOf_concat]
    by_cases hkind : kind = exit.kind
    · rw [if_pos hkind.symm, hkind, hjoined]
      exact Function.update_self _ _ _
    · rw [if_neg (Ne.symm hkind), ← h.source]
      exact Function.update_of_ne (fun heq => hkind (LoopMoveExitKind.source_inj.mp heq)) _ _
  cases hstate : run.2.states exit.kind.source with
  | none =>
    have hnone : exitsOf exit.kind exits = [] := by
      rw [← joinedOf_eq_none_iff, ← h.source, hstate]
    rw [joinStateAt_first hstate]
    refine ⟨h.checker, h.visited, hsource ?_, hexit _, ?_, nodup_enqueue h.nodup⟩
    · rw [joinedOf_concat, ← h.source, hstate]
    · intro block
      rw [mem_enqueue, h.queue]
      constructor
      · rintro (⟨kind, rfl, hkind⟩ | rfl)
        · refine ⟨kind, rfl, ?_⟩
          rw [exitsOf_concat]
          split
          · exact List.append_ne_nil_of_right_ne_nil _ (List.cons_ne_nil _ _)
          · exact hkind
        · refine ⟨exit.kind, rfl, ?_⟩
          rw [exitsOf_concat, if_pos rfl]
          exact List.append_ne_nil_of_right_ne_nil _ (List.cons_ne_nil _ _)
      · rintro ⟨kind, rfl, hkind⟩
        by_cases hsame : kind = exit.kind
        · exact Or.inr (congrArg LoopMoveExitKind.source hsame)
        · rw [exitsOf_concat, if_neg (Ne.symm hsame)] at hkind
          exact Or.inl ⟨kind, rfl, hkind⟩
  | some joined =>
    have hsome : exitsOf exit.kind exits ≠ [] := by
      intro hnone
      have hsource := h.source exit.kind
      rw [hnone, hstate] at hsource
      cases hsource
    have hmem : exit.kind.source ∈ run.1 := (h.queue _).mpr ⟨exit.kind, rfl, hsome⟩
    rw [joinStateAt_source hstate hmem]
    refine ⟨h.checker, h.visited, hsource ?_, hexit _, ?_, h.nodup⟩
    · rw [joinedOf_concat, ← h.source, hstate]
    · intro block
      rw [h.queue]
      apply exists_congr
      intro kind
      rw [exitsOf_concat]
      split
      · rename_i hkind
        rw [← hkind]
        exact and_congr_right fun _ => iff_of_true hsome
          (List.append_ne_nil_of_right_ne_nil _ (List.cons_ne_nil _ _))
      · exact Iff.rfl

lemma Queued.foldl {rules : TypeRules τ}
    (hrun : Queued rules base [] run) (exits : List (LoopMoveExitState τ)) :
    Queued rules base exits (exits.foldl
      (fun run exit => joinStateAt rules exit.state run exit.kind.source) run) := by
  induction exits using List.reverseRecOn with
  | nil => exact hrun
  | append_singleton exits exit ih =>
    rw [List.foldl_append]
    exact ih.concat exit

/-! ## Every visit keeps the account -/

section Accounts

variable (rules : TypeRules τ) {entryPlaces : List MovePlace} {base : ℕ}
  {rest : List LoopBlock} {data : LoopData τ} {blockState : MoveState τ}

/-- A join at the loop head or the loop's exit changes neither what is reported nor what is
owed. -/
lemma account_joinStateAt_quiet (h : ExitRun entryPlaces base (rest, data))
    (hleaves : block.leaves = false) (hbody : block ≠ .body) :
    ExitRun entryPlaces base (joinStateAt rules blockState (rest, data) block) ∧
      ∀ span, Account rules entryPlaces base (joinStateAt rules blockState (rest, data) block) span ↔
        Account rules entryPlaces base (rest, data) span := by
  obtain ⟨queue, diagnostics, after, heq, hqueue, hleaks, _⟩ :=
    joinStateAt_spec rules blockState (rest, data) block
  rw [heq]
  have hmem : ∀ other, other ≠ block → (other ∈ queue ↔ other ∈ rest) := by
    intro other hne
    rcases hqueue with rfl | rfl
    · exact Iff.rfl
    · rw [mem_enqueue]
      exact or_iff_left hne
  have hstates : ∀ other, other ≠ block →
      Function.update data.states block (some after) other = data.states other :=
    fun other hne => Function.update_of_ne hne _ _
  constructor
  · refine ⟨h.visited, ?_, ?_, ?_, ?_, h.frame⟩
    · rcases hqueue with rfl | rfl
      · exact h.nodup
      · exact nodup_enqueue h.nodup
    · rw [hmem _ (Ne.symm hbody)]
      exact h.noBody
    · intro kind hsource
      have hne : kind.source ≠ block := by
        rintro rfl
        cases kind <;> cases hleaves
      have hne' : kind.exit ≠ block := by
        rintro rfl
        cases kind <;> cases hleaves
      exact (hstates _ hne').trans (h.unreached kind ((hmem _ hne).mp hsource))
    · exact le_trans h.reported (by simp [LoopData.setState, LoopData.setChecker, Checker.report])
  · intro span
    apply or_congr
    · show ReportsLeak ((data.checker.report diagnostics).diagnostics.drop base) span ↔ _
      rw [drop_report diagnostics h.reported, reportsLeak_append]
      exact or_iff_left (hleaks.not_reportsLeak span)
    · apply exists_congr
      intro other
      by_cases hother : other = block
      · subst hother
        rw [hleaves]
        exact iff_of_false (by rintro ⟨_, hfalse, _⟩; cases hfalse)
          (by rintro ⟨_, hfalse, _⟩; cases hfalse)
      · show _ ∧ _ ∧ (∃ state, Function.update data.states block (some after) other = _ ∧ _) ↔ _
        rw [hmem other hother, hstates other hother]

/-- A join at an exit block that was not reached before hands the state on. -/
lemma account_joinStateAt_exit {kind : LoopMoveExitKind}
    (h : ExitRun entryPlaces base (kind.source :: rest, data))
    (hstate : data.states kind.source = some blockState) :
    ExitRun entryPlaces base (joinStateAt rules blockState (rest, data) kind.exit) ∧
      ∀ span,
        Account rules entryPlaces base (joinStateAt rules blockState (rest, data) kind.exit) span ↔
          Account rules entryPlaces base (kind.source :: rest, data) span := by
  have hnone : data.states kind.exit = none := h.unreached kind List.mem_cons_self
  have hfresh : kind.source ∉ rest := (List.nodup_cons.mp h.nodup).1
  rw [joinStateAt_first hnone]
  have hstates : ∀ other, other ≠ kind.exit →
      Function.update data.states kind.exit (some blockState) other = data.states other :=
    fun other hne => Function.update_of_ne hne _ _
  -- the exit block takes the place of its source in the worklist
  constructor
  · refine ⟨h.visited, nodup_enqueue h.tail.nodup, ?_, ?_, h.reported, h.frame⟩
    · rw [mem_enqueue]
      rintro (hmem | hbody)
      · exact h.tail.noBody hmem
      · cases kind <;> cases hbody
    · intro other hother
      rcases mem_enqueue.mp hother with hmem | hsame
      · have hne : other ≠ kind := by
          rintro rfl
          exact hfresh hmem
        have hexit : other.exit ≠ kind.exit := by
          intro heq
          apply hne
          cases other <;> cases kind <;> first | rfl | cases heq
        exact (hstates _ hexit).trans (h.tail.unreached other hmem)
      · cases other <;> cases kind <;> cases hsame
  · intro span
    apply or_congr Iff.rfl
    rw [owed_cons]
    constructor
    · rintro ⟨block, hblock, hleaves, state, hblockState, hleak⟩
      by_cases hexit : block = kind.exit
      · subst hexit
        have hsame : some blockState = some state :=
          (Function.update_self _ _ data.states).symm.trans hblockState
        cases hsame
        exact Or.inl ⟨by cases kind <;> rfl, blockState, hstate, hleak⟩
      · rcases mem_enqueue.mp hblock with hmem | hsame
        · exact Or.inr ⟨block, hmem, hleaves, state, (hstates _ hexit).symm.trans hblockState, hleak⟩
        · exact absurd hsame hexit
    · rintro (⟨_, state, hsource, hleak⟩ | ⟨block, hmem, hleaves, state, hblockState, hleak⟩)
      · rw [hstate] at hsource
        cases hsource
        exact ⟨kind.exit, mem_enqueue.mpr (Or.inr rfl), by cases kind <;> rfl, blockState,
          Function.update_self _ _ _, hleak⟩
      · have hne : block ≠ kind.exit := by
          rintro rfl
          rw [hnone] at hblockState
          cases hblockState
        exact ⟨block, mem_enqueue.mpr (Or.inl hmem), hleaves, state,
          (hstates _ hne).trans hblockState, hleak⟩

omit [DecidableEq τ] in
/-- The check at an exit block reports what its state owes. -/
lemma account_checkLoopExitLeaks
    (h : ExitRun entryPlaces base (block :: rest, data)) (hleaves : block.leaves = true)
    (hstate : data.states block = some blockState) :
    ExitRun entryPlaces base
        (rest, data.setChecker (checkLoopExitLeaks rules data.checker blockState)) ∧
      ∀ span, Account rules entryPlaces base
          (rest, data.setChecker (checkLoopExitLeaks rules data.checker blockState)) span ↔
        Account rules entryPlaces base (block :: rest, data) span := by
  obtain ⟨frame, outer, hframes, hplaces⟩ := h.frame
  have hchecked : checkLoopExitLeaks rules data.checker blockState =
      ((data.checker.report (loopExitLeaks rules frame blockState)).report
        (reportLoopOuterResourceChanges frame.entryState blockState).1).setFrames
          (recordLoopEarlyExitInvalidations frame blockState :: outer) := by
    unfold checkLoopExitLeaks
    rw [show data.checker.moveLoopStack = frame :: outer from hframes]
  have hdiagnostics : (checkLoopExitLeaks rules data.checker blockState).diagnostics =
      data.checker.diagnostics ++ (loopExitLeaks rules frame blockState ++
        (reportLoopOuterResourceChanges frame.entryState blockState).1) := by
    rw [hchecked]
    exact List.append_assoc _ _ _
  constructor
  · refine ⟨h.visited, h.tail.nodup, h.tail.noBody, h.tail.unreached, ?_, ?_⟩
    · show base ≤ (checkLoopExitLeaks rules data.checker blockState).diagnostics.length
      rw [hdiagnostics, List.length_append]
      exact Nat.le_add_right_of_le h.reported
    · refine ⟨recordLoopEarlyExitInvalidations frame blockState, outer, ?_, ?_⟩
      · show (checkLoopExitLeaks rules data.checker blockState).moveLoopStack = _
        rw [hchecked]
        rfl
      · rw [entryPlaces_recordLoopEarlyExitInvalidations, hplaces]
  · intro span
    show ReportsLeak ((checkLoopExitLeaks rules data.checker blockState).diagnostics.drop base) span ∨
      Owed rules entryPlaces (rest, data) span ↔ _
    rw [hdiagnostics, List.drop_append_of_le_length h.reported, reportsLeak_append,
      reportsLeak_append, reportsLeak_loopExitLeaks, hplaces, Account, owed_cons, or_assoc]
    apply or_congr Iff.rfl
    rw [or_iff_left ((noLeaks_backedge _ _).not_reportsLeak span)]
    apply or_congr _ Iff.rfl
    constructor
    · exact fun hleak => ⟨hleaves, blockState, hstate, hleak⟩
    · rintro ⟨_, state, hsame, hleak⟩
      rw [show data.states block = some blockState from hstate] at hsame
      cases hsame
      exact hleak

/-- **Every visit keeps the account.** -/
theorem account_visitBlock (walk : BodyWalk τ) (block : LoopBlock)
    (h : ExitRun entryPlaces base (block :: rest, data)) :
    ExitRun entryPlaces base (visitBlock rules walk block (rest, data)) ∧
      ∀ span, Account rules entryPlaces base (visitBlock rules walk block (rest, data)) span ↔
        Account rules entryPlaces base (block :: rest, data) span := by
  cases hstate : data.states block with
  | none =>
    rw [visitBlock_unreached hstate]
    refine ⟨h.tail, fun span => or_congr Iff.rfl ?_⟩
    rw [owed_cons, hstate]
    exact (or_iff_right (by rintro ⟨_, state, hsome, _⟩; cases hsome)).symm
  | some blockState =>
    -- a block that is no exit owes nothing itself
    have hquiet : block.leaves = false → ∀ span,
        (Account rules entryPlaces base (rest, data) span ↔
          Account rules entryPlaces base (block :: rest, data) span) := by
      intro hleaves span
      refine or_congr Iff.rfl ?_
      rw [owed_cons, hleaves]
      exact (or_iff_right (by rintro ⟨hfalse, _⟩; cases hfalse)).symm
    have hjoin : ∀ target : LoopBlock, block.leaves = false → target.leaves = false →
        target ≠ .body →
        ExitRun entryPlaces base (joinStateAt rules blockState (rest, data) target) ∧
          ∀ span, Account rules entryPlaces base (joinStateAt rules blockState (rest, data) target)
            span ↔ Account rules entryPlaces base (block :: rest, data) span := by
      intro target hleaves htarget hbody
      obtain ⟨hrun, haccount⟩ := account_joinStateAt_quiet rules h.tail htarget hbody
      exact ⟨hrun, fun span => (haccount span).trans (hquiet hleaves span)⟩
    cases block with
    | entry =>
      rw [visitBlock_entry hstate]
      exact hjoin .loopHead rfl rfl (by decide)
    | loopHead =>
      rw [visitBlock_loopHead_again hstate h.visited]
      exact hjoin .exit rfl rfl (by decide)
    | body => exact absurd List.mem_cons_self h.noBody
    | exit =>
      rw [visitBlock_exit]
      exact ⟨h.tail, hquiet rfl⟩
    | breakSource =>
      rw [visitBlock_breakSource hstate]
      have hbreak : ExitRun entryPlaces base (LoopMoveExitKind.breakExit.source :: rest, data) := h
      exact account_joinStateAt_exit rules hbreak hstate
    | continueSource =>
      rw [visitBlock_continueSource hstate]
      have hcontinue :
          ExitRun entryPlaces base (LoopMoveExitKind.continueExit.source :: rest, data) := h
      exact account_joinStateAt_exit rules hcontinue hstate
    | breakExit =>
      rw [visitBlock_breakExit hstate]
      exact account_checkLoopExitLeaks rules h rfl hstate
    | continueExit =>
      rw [visitBlock_continueExit hstate]
      obtain ⟨hrun, haccount⟩ := account_checkLoopExitLeaks rules h rfl hstate
      have hhead : LoopBlock.leaves .loopHead = false := rfl
      obtain ⟨hjoined, hsame⟩ := account_joinStateAt_quiet rules hrun hhead (by decide)
      exact ⟨hjoined, fun span => (hsame span).trans (haccount span)⟩

/-- **A run pays every debt**: at its end all that was owed has been reported. -/
theorem account_run (walk : BodyWalk τ) (h : ExitRun entryPlaces base run)
    (hfuel : loopWeight run ≤ loopFuel) (span : Span) :
    ReportsLeak ((runLoopBodyCfgWorklist rules walk run).2.checker.diagnostics.drop base) span ↔
      Account rules entryPlaces base run span := by
  let kept := fun later : LoopRun τ => ExitRun entryPlaces base later ∧
    ∀ span, Account rules entryPlaces base later span ↔ Account rules entryPlaces base run span
  have hvisit : ∀ block rest data, kept (block :: rest, data) →
      kept (visitBlock rules walk block (rest, data)) := by
    rintro block rest data ⟨hrun, haccount⟩
    obtain ⟨hnext, hsame⟩ := account_visitBlock rules walk block hrun
    exact ⟨hnext, fun span => (hsame span).trans (haccount span)⟩
  have hstart : kept run := ⟨h, fun _ => Iff.rfl⟩
  have hend : kept (runLoopBodyCfgWorklist rules walk run) := drain_invariant hvisit hstart
  have hempty : (runLoopBodyCfgWorklist rules walk run).1 = [] :=
    drain_empties hvisit (fun block _ _ _ => loopWeight_visitBlock block) hstart hfuel
  rw [← hend.2 span]
  refine (or_iff_left ?_).symm
  rintro ⟨block, hmem, _⟩
  rw [hempty] at hmem
  cases hmem

end Accounts

/-! ## After the walk of the body -/

/-- The run that walks the body: no exit block is touched, and until the body has been
visited the queue leads to it. -/
structure WalkRun (run : LoopRun τ) : Prop where
  untouched : ∀ block : LoopBlock, block.leaves = true → run.2.states block = none ∧ block ∉ run.1
  ahead : run.2.bodyVisited = false →
    (run.1 = [.entry] ∧ run.2.states .entry ≠ none ∧ run.2.states .loopHead = none ∧
      run.2.states .body = none) ∨
    (run.1 = [.loopHead] ∧ run.2.states .loopHead ≠ none ∧ run.2.states .body = none) ∨
    (∃ rest, run.1 = .body :: rest ∧ run.2.states .body ≠ none)

lemma untouched_joinStateAt {rules : TypeRules τ}
    {target : LoopBlock} (htarget : target.leaves = false) (hblock : block.leaves = true)
    (h : run.2.states block = none ∧ block ∉ run.1) :
    (joinStateAt rules state run target).2.states block = none ∧
      block ∉ (joinStateAt rules state run target).1 := by
  obtain ⟨queue, diagnostics, after, heq, hqueue, _⟩ := joinStateAt_spec rules state run target
  have hne : block ≠ target := by
    rintro rfl
    rw [hblock] at htarget
    cases htarget
  rw [heq]
  refine ⟨(Function.update_of_ne hne _ _).trans h.1, ?_⟩
  rcases hqueue with rfl | rfl
  · exact h.2
  · rw [mem_enqueue]
    exact not_or.mpr ⟨h.2, hne⟩

lemma walkRun_visitBlock {rules : TypeRules τ} {walk : BodyWalk τ} (block : LoopBlock)
    (rest : List LoopBlock) (data : LoopData τ) (h : WalkRun (block :: rest, data)) :
    WalkRun (visitBlock rules walk block (rest, data)) := by
  have hblock : block.leaves = false := by
    rw [← Bool.not_eq_true]
    exact fun hleaves => (h.untouched block hleaves).2 List.mem_cons_self
  have huntouched : ∀ other : LoopBlock, other.leaves = true →
      data.states other = none ∧ other ∉ rest := fun other hother =>
    ⟨(h.untouched other hother).1, fun hmem => (h.untouched other hother).2
      (List.mem_cons_of_mem _ hmem)⟩
  cases hstate : data.states block with
  | none =>
    rw [visitBlock_unreached hstate]
    refine ⟨huntouched, fun hvisited => ?_⟩
    -- the block the queue leads to has been reached
    rcases h.ahead hvisited with ⟨hqueue, hreached, _⟩ | ⟨hqueue, hreached, _⟩ | ⟨_, hqueue, hreached⟩
    all_goals
      cases hqueue
      exact absurd hstate hreached
  | some blockState =>
    cases block with
    | entry =>
      rw [visitBlock_entry hstate]
      refine ⟨fun other hother => untouched_joinStateAt rfl hother (huntouched other hother), ?_⟩
      rw [bodyVisited_joinStateAt]
      intro hvisited
      rcases h.ahead hvisited with ⟨hqueue, _, hhead, hbody⟩ | ⟨hqueue, _⟩ | ⟨_, hqueue, _⟩
      · cases hqueue
        have hfirst : joinStateAt rules blockState ([], data) .loopHead =
          (enqueue [] .loopHead, data.setState .loopHead blockState) := joinStateAt_first hhead
        rw [hfirst]
        refine Or.inr (Or.inl ⟨rfl, ?_, ?_⟩)
        · simp
        · have hne : LoopBlock.body ≠ .loopHead := by decide
          exact (setState_of_ne hne).trans hbody
      · cases hqueue
      · cases hqueue
    | loopHead =>
      cases hvisited : data.bodyVisited
      · rw [visitBlock_loopHead_first hstate hvisited]
        refine ⟨fun other hother => untouched_joinStateAt rfl hother
          (untouched_joinStateAt rfl hother (huntouched other hother)), fun _ => ?_⟩
        rcases h.ahead hvisited with ⟨hqueue, _⟩ | ⟨hqueue, _, hbody⟩ | ⟨_, hqueue, _⟩
        · cases hqueue
        · cases hqueue
          have hfirst : joinStateAt rules blockState ([], data) .body =
            (enqueue [] .body, data.setState .body blockState) := joinStateAt_first hbody
          rw [hfirst]
          obtain ⟨queue, diagnostics, after, heq, hqueue, _⟩ := joinStateAt_spec rules blockState
            (enqueue [] .body, data.setState .body blockState) .exit
          rw [heq]
          refine Or.inr (Or.inr ?_)
          have hne : LoopBlock.body ≠ .exit := by decide
          have hbodyState : Function.update (data.setState .body blockState).states .exit
              (some after) .body ≠ none := by
            rw [Function.update_of_ne hne, setState_self]
            exact Option.some_ne_none _
          rcases hqueue with rfl | rfl
          · exact ⟨[], rfl, hbodyState⟩
          · exact ⟨[.exit], rfl, hbodyState⟩
        · cases hqueue
      · rw [visitBlock_loopHead_again hstate hvisited]
        refine ⟨fun other hother => untouched_joinStateAt rfl hother (huntouched other hother), ?_⟩
        rw [bodyVisited_joinStateAt, hvisited]
        intro hfalse
        cases hfalse
    | body =>
      rw [visitBlock_body hstate]
      have hwalked : ∀ other : LoopBlock, other.leaves = true →
          (data.walkBody walk blockState).states other = none ∧ other ∉ rest := by
        intro other hother
        have hne : other ≠ .body := by
          rintro rfl
          cases hother
        exact ⟨(Function.update_of_ne hne _ _).trans (huntouched other hother).1,
          (huntouched other hother).2⟩
      split
      · refine ⟨hwalked, fun hfalse => ?_⟩
        cases hfalse
      · refine ⟨fun other hother => untouched_joinStateAt rfl hother (hwalked other hother), ?_⟩
        rw [bodyVisited_joinStateAt]
        intro hfalse
        cases hfalse
    | exit =>
      rw [visitBlock_exit]
      refine ⟨huntouched, fun hvisited => ?_⟩
      rcases h.ahead hvisited with ⟨hqueue, _⟩ | ⟨hqueue, _⟩ | ⟨_, hqueue, _⟩
      all_goals cases hqueue
    | breakSource | continueSource | breakExit | continueExit => cases hblock

/-- After the walk the queue is empty, the body has been visited, and no exit block has been
touched. -/
lemma bodyWalked_spec (rules : TypeRules τ) (walk : BodyWalk τ) (checker : Checker τ)
    (outerState : MoveState τ) :
    (bodyWalked rules walk checker outerState).1 = [] ∧
      (bodyWalked rules walk checker outerState).2.bodyVisited = true ∧
      ∀ block : LoopBlock, block.leaves = true →
        (bodyWalked rules walk checker outerState).2.states block = none := by
  have hstart : WalkRun (loopStart checker outerState) := by
    refine ⟨?_, fun _ => Or.inl ⟨rfl, Option.some_ne_none _, rfl, rfl⟩⟩
    intro block hblock
    have hentry : block ≠ .entry := by
      rintro rfl
      cases hblock
    exact ⟨if_neg hentry, fun hmem => hentry (List.mem_singleton.mp hmem)⟩
  have hend : WalkRun (bodyWalked rules walk checker outerState) :=
    drain_invariant (fun block rest data h => walkRun_visitBlock block rest data h) hstart
  have hempty : (bodyWalked rules walk checker outerState).1 = [] :=
    drain_empties (fun block rest data h => walkRun_visitBlock block rest data h)
      (fun block _ _ _ => loopWeight_visitBlock block) hstart (Nat.le_refl _)
  refine ⟨hempty, ?_, fun block hblock => (hend.untouched block hblock).1⟩
  rw [← Bool.not_eq_false]
  intro hvisited
  rcases hend.ahead hvisited with ⟨hqueue, _⟩ | ⟨hqueue, _⟩ | ⟨_, hqueue, _⟩
  all_goals
    rw [hempty] at hqueue
    cases hqueue

/-! ## The leaks that are reported -/

/-- What the check of the queued states reports. -/
def exitDiagnostics (rules : TypeRules τ) (walk : BodyWalk τ) (checker : Checker τ)
    (outerState : MoveState τ) : List Diagnostic :=
  (exitsChecked rules walk checker outerState).2.checker.diagnostics.drop
    (bodyWalked rules walk checker outerState).2.checker.diagnostics.length

omit [DecidableEq τ] in
/-- A value leaks in the last state queued of one kind, and all other states of the kind share
it.  The list starts with the state queued last. -/
def LeakShared (rules : TypeRules τ) (entryPlaces : List MovePlace)
    (exits : List (LoopMoveExitState τ)) (span : Span) : Prop :=
  ∃ kind last others, exitsOf kind exits = last :: others ∧
    ∃ key slot, (last.get key = some slot ∧ ∀ other ∈ others, SharedBy other slot) ∧
      slotRequiresExplicitConsume rules slot = true ∧ slot.place ∉ entryPlaces ∧ slot.span = span

lemma queued_enqueuePending {rules : TypeRules τ} {data : LoopData τ} {frame : LoopMoveFrame τ}
    {outer : List (LoopMoveFrame τ)} (hframes : data.checker.moveLoopStack = frame :: outer)
    (huntouched : ∀ block : LoopBlock, block.leaves = true → data.states block = none) :
    Queued rules
      (data.setChecker (data.checker.setFrames ({ frame with pendingExits := [] } :: outer)))
      frame.pendingExits.reverse (enqueuePendingLoopExitStates rules ([], data)) := by
  unfold enqueuePendingLoopExitStates
  simp only [hframes]
  apply Queued.foldl
  refine ⟨rfl, rfl, ?_, fun _ => rfl, ?_, List.nodup_nil⟩
  · intro kind
    exact huntouched _ (by cases kind <;> rfl)
  · intro block
    exact iff_of_false List.not_mem_nil (by rintro ⟨_, _, hne⟩; exact hne rfl)

omit [DecidableEq τ] in
/-- The states put at the source blocks owe what leaks in their joins. -/
lemma owed_queued_iff {rules : TypeRules τ} {entryPlaces : List MovePlace} {span : Span}
    (h : Queued rules base exits run) :
    Owed rules entryPlaces run span ↔ LeakShared rules entryPlaces exits span := by
  constructor
  · rintro ⟨block, hmem, _, state, hstate, key, slot, hget, hconsume, hplace, hspan⟩
    obtain ⟨kind, rfl, hsome⟩ := (h.queue block).mp hmem
    rw [h.source] at hstate
    cases hexits : exitsOf kind exits with
    | nil => exact absurd hexits hsome
    | cons last others =>
      rw [hexits] at hstate
      cases hstate
      exact ⟨kind, last, others, hexits, key, slot,
        (get_joinedExits_eq_some_iff hconsume).mp hget, hconsume, hplace, hspan⟩
  · rintro ⟨kind, last, others, hexits, key, slot, hshared, hconsume, hplace, hspan⟩
    refine ⟨kind.source, (h.queue _).mpr ⟨kind, rfl, by rw [hexits]; exact List.cons_ne_nil _ _⟩,
      by cases kind <;> rfl, joinedExits rules last others, ?_, key, slot,
      (get_joinedExits_eq_some_iff hconsume).mpr hshared, hconsume, hplace, hspan⟩
    rw [h.source, hexits]
    rfl

omit [DecidableEq τ] in
/-- The two source blocks are not too heavy for the fuel of a run. -/
lemma loopWeight_le_fuel {rules : TypeRules τ} (h : Queued rules base exits run)
    (hvisited : run.2.bodyVisited = true) : loopWeight run ≤ loopFuel := by
  have hsubset : run.1 ⊆ [.breakSource, .continueSource] := by
    intro block hmem
    obtain ⟨kind, rfl, _⟩ := (h.queue block).mp hmem
    cases kind <;> decide
  obtain ⟨queue, hperm, hsub⟩ := List.subperm_of_subset h.nodup hsubset
  rw [loopWeight, hvisited]
  have hweight : queueWeight true run.1 = queueWeight true queue :=
    (hperm.symm.map (LoopBlock.weight true)).sum_eq
  rw [hweight]
  exact (hsub.map (LoopBlock.weight true)).sum_le_sum fun _ _ => Nat.zero_le _

/-- **What is reported for the queued states**: exactly the shared leaks. -/
theorem reportsLeak_exitDiagnostics_iff {rules : TypeRules τ} {walk : BodyWalk τ}
    {checker : Checker τ} {outerState : MoveState τ} {frame : LoopMoveFrame τ}
    {outer : List (LoopMoveFrame τ)}
    (hframes : (bodyWalked rules walk checker outerState).2.checker.moveLoopStack = frame :: outer)
    (span : Span) :
    ReportsLeak (exitDiagnostics rules walk checker outerState) span ↔
      LeakShared rules frame.entryPlaces frame.pendingExits.reverse span := by
  obtain ⟨hempty, hvisited, huntouched⟩ := bodyWalked_spec rules walk checker outerState
  have hpair : bodyWalked rules walk checker outerState =
      ([], (bodyWalked rules walk checker outerState).2) := by
    rw [← hempty]
  have hqueued : Queued rules _ frame.pendingExits.reverse _ :=
    queued_enqueuePending hframes huntouched
  rw [← hpair] at hqueued
  have hstart : ExitRun frame.entryPlaces
      (bodyWalked rules walk checker outerState).2.checker.diagnostics.length
      (enqueuePendingLoopExitStates rules (bodyWalked rules walk checker outerState)) := by
    refine ⟨hqueued.visited.trans hvisited, hqueued.nodup, ?_, ?_, ?_, ?_⟩
    · rw [hqueued.queue]
      rintro ⟨kind, hbody, _⟩
      cases kind <;> cases hbody
    · intro kind _
      rw [hqueued.exit kind]
      exact huntouched _ (by cases kind <;> rfl)
    · rw [hqueued.checker]
      exact Nat.le_refl _
    · rw [hqueued.checker]
      exact ⟨_, outer, rfl, rfl⟩
  have hfuel := loopWeight_le_fuel hqueued (hqueued.visited.trans hvisited)
  rw [exitDiagnostics, exitsChecked, account_run rules walk hstart hfuel, Account,
    owed_queued_iff hqueued, hqueued.checker]
  refine or_iff_right ?_
  show ¬ ReportsLeak ((bodyWalked rules walk checker outerState).2.checker.diagnostics.drop _) span
  rw [List.drop_length]
  exact noLeaks_nil.not_reportsLeak span

/-! ## Leaks edge by edge -/

/-- **Leaks are judged per edge**: one is reported exactly for each value that some queued
state leaks. -/
def LeaksJudgedPerEdge (rules : TypeRules τ) (walk : BodyWalk τ) (checker : Checker τ)
    (outerState : MoveState τ) : Prop :=
  ∀ frame outer, (bodyWalked rules walk checker outerState).2.checker.moveLoopStack =
      frame :: outer →
    ∀ span, ReportsLeak (exitDiagnostics rules walk checker outerState) span ↔
      ∃ exit ∈ frame.pendingExits, LeaksAt rules frame.entryPlaces exit.state span

omit [DecidableEq τ] in
/-- A shared leak is one of a queued state. -/
lemma LeakShared.leaksAt {rules : TypeRules τ} {entryPlaces : List MovePlace} {span : Span}
    (h : LeakShared rules entryPlaces exits span) :
    ∃ exit ∈ exits, LeaksAt rules entryPlaces exit.state span := by
  obtain ⟨kind, last, others, hexits, key, slot, ⟨hget, _⟩, hconsume, hplace, hspan⟩ := h
  have hmem : last ∈ exitsOf kind exits := by
    rw [hexits]
    exact List.mem_cons_self
  obtain ⟨exit, hexit, rfl⟩ := List.mem_map.mp hmem
  exact ⟨exit, (List.mem_filter.mp hexit).1, key, slot, hget, hconsume, hplace, hspan⟩

/-- **Leaks are judged per edge exactly where they are shared**: where every leak of a queued
state is, by its declaration, one that all queued states of one kind share. -/
theorem leaksJudgedPerEdge_iff_leaksShared (rules : TypeRules τ) (walk : BodyWalk τ)
    (checker : Checker τ) (outerState : MoveState τ) :
    LeaksJudgedPerEdge rules walk checker outerState ↔
      ∀ frame outer, (bodyWalked rules walk checker outerState).2.checker.moveLoopStack =
          frame :: outer →
        ∀ exit ∈ frame.pendingExits, ∀ span, LeaksAt rules frame.entryPlaces exit.state span →
          LeakShared rules frame.entryPlaces frame.pendingExits.reverse span := by
  constructor
  · intro h frame outer hframes exit hexit span hleak
    rw [← reportsLeak_exitDiagnostics_iff hframes]
    exact (h frame outer hframes span).mpr ⟨exit, hexit, hleak⟩
  · intro h frame outer hframes span
    rw [reportsLeak_exitDiagnostics_iff hframes]
    constructor
    · intro hshared
      obtain ⟨exit, hexit, hleak⟩ := hshared.leaksAt
      exact ⟨exit, List.mem_reverse.mp hexit, hleak⟩
    · rintro ⟨exit, hexit, hleak⟩
      exact h frame outer hframes exit hexit span hleak

/-! ## A leak that is hidden

`while c { if early { break; } let value = alloc(); break; }`: only the second `break` leaks
`value`, and the join with the first one drops it. -/

/-- A binding of the loop body, live at the second `break`. -/
def valueSlot : MoveSlot Unit where
  live := true
  span := ⟨0, 0, 3, 5, 0⟩
  place := ⟨1, []⟩

def withValue : MoveState Unit :=
  MoveState.single ⟨"value", []⟩ valueSlot rfl rfl

/-- The walk of the body queues the state at each `break`. -/
def twoBreaks : BodyWalk Unit := fun checker state =>
  (true, moveLoopExitEdgeCfg (moveLoopExitEdgeCfg checker state none .breakExit) withValue none
    .breakExit, withValue)

/-- A language without move types: what has no type must be consumed. -/
def noTypes : TypeRules Unit where
  resolvesAliases := true
  typeEmbedsLinearByValue _ := false
  moveTypeNameOf _ := none
  trivialDropTypes := none

/-- The leak at the second `break` is not reported. -/
theorem not_leaksJudgedPerEdge_twoBreaks :
    ¬ ∀ (rules : TypeRules Unit) (walk : BodyWalk Unit) (checker : Checker Unit)
      (outerState : MoveState Unit), LeaksJudgedPerEdge rules walk checker outerState := by
  intro h
  have hframes : (bodyWalked noTypes twoBreaks
      ⟨[], [{ label := none, entryPlaces := [], entryState := .empty }]⟩ .empty).2.checker.moveLoopStack =
      [{ label := none, entryPlaces := [], entryState := .empty,
         pendingExits := [⟨.breakExit, .empty⟩, ⟨.breakExit, withValue⟩] }] := rfl
  have hleak : LeaksAt noTypes [] withValue valueSlot.span :=
    ⟨⟨"value", []⟩, valueSlot, rfl, rfl, List.not_mem_nil, rfl⟩
  have hreported := (h noTypes twoBreaks _ _ _ _ hframes valueSlot.span).mpr
    ⟨⟨.breakExit, withValue⟩, List.mem_cons_of_mem _ List.mem_cons_self, hleak⟩
  rw [reportsLeak_exitDiagnostics_iff hframes] at hreported
  obtain ⟨kind, last, others, hexits, _, _, ⟨_, hshared⟩, _⟩ := hreported
  cases kind
  · cases hexits
    obtain ⟨other, hmatch, _⟩ := hshared .empty (List.mem_singleton_self _)
    cases hmatch
  · cases hexits

end ModernC.Move
