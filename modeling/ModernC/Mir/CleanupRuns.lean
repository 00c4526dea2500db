import Mathlib.Logic.Relation
import ModernC.Mir.ExecutableBody

/-!
# Deferred cleanups along a run

A run of an executable body records the cleanup actions it registers and runs.  The verified
declared stacks follow it: what is pending is always the declared stack, so actions run last
in first out, and a function is left with nothing pending.  The one exit the verifier does
not follow is a return statement in a block whose executable terminator is not `return_`.
-/

namespace ModernC.Mir

open Framework ObligationEvent

/-! ## Runs -/

abbrev CleanupEvent := ObligationEvent CleanupActionId

/-- Where a run goes on: at the statements left in a block, or nowhere. -/
inductive Continuation where
  | statements (terminator : ExecutableTerminator) (rest : List ExecutableStatement)
  | left
  | stopped

/-- A state of a run: what it registered and ran so far, the cleanup actions it is running,
and where it goes on after them. -/
structure RunState where
  trace : List CleanupEvent
  cleaning : List CleanupActionId
  next : Continuation

namespace RunState

def enter (body : ExecutableBody) (trace : List CleanupEvent) (cleaning : List CleanupActionId)
    (terminator : ExecutableTerminator) : RunState :=
  ⟨trace, cleaning, .statements terminator (blockStatements body terminator)⟩

end RunState

/-- The error lists of the `try` operations in the deferred expression of an action, which
are evaluated when the action runs. -/
def deferredErrorLists (body : ExecutableBody) (action : CleanupActionId) :
    List (List CleanupActionId) :=
  match body.cleanupAction action with
  | none => []
  | some entry =>
    (body.statements.filter fun statement => statement.id.eql entry.registration).flatMap
      (ownedErrorLists body)

/-- One step of a run.  A return statement keeps its value, runs the exit list of its block
and leaves; a failing `try` runs its error list and leaves. -/
inductive Step (body : ExecutableBody) : RunState → RunState → Prop
  | clean {trace action rest next} :
      Step body ⟨trace, action :: rest, next⟩ ⟨trace ++ [.ran action], rest, next⟩
  | cleanFails {trace action rest next errors}
      (owned : errors ∈ deferredErrorLists body action) :
      Step body ⟨trace, action :: rest, next⟩ ⟨trace ++ [.ran action], errors, .left⟩
  | fails {trace terminator statement rest errors}
      (evaluated : ∀ action, statement.operation ≠ .deferRegister action)
      (owned : errors ∈ ownedErrorLists body statement) :
      Step body ⟨trace, [], .statements terminator (statement :: rest)⟩ ⟨trace, errors, .left⟩
  | register {trace terminator statement rest action}
      (operation : statement.operation = .deferRegister action) :
      Step body ⟨trace, [], .statements terminator (statement :: rest)⟩
        ⟨trace ++ [.registered action], [], .statements terminator rest⟩
  | runCleanup {trace terminator statement rest actions}
      (operation : statement.operation = .cleanupRun actions) :
      Step body ⟨trace, [], .statements terminator (statement :: rest)⟩
        ⟨trace, actions, .statements terminator rest⟩
  | returnStatement {trace terminator statement rest value}
      (operation : statement.operation = .return_ value) :
      Step body ⟨trace, [], .statements terminator (statement :: rest)⟩
        ⟨trace, terminator.exitCleanupActions, .left⟩
  | guard {trace terminator statement rest kind condition}
      (operation : statement.operation = .guard kind condition) :
      Step body ⟨trace, [], .statements terminator (statement :: rest)⟩
        ⟨trace, [], .statements terminator rest⟩
  | other {trace terminator statement rest}
      (operation : statement.operation = .other) :
      Step body ⟨trace, [], .statements terminator (statement :: rest)⟩
        ⟨trace, [], .statements terminator rest⟩
  | continue_ {trace terminator target successor}
      (targeted : target ∈ terminator.operation.targets)
      (found : body.terminatorByBlock target = some successor) :
      Step body ⟨trace, [], .statements terminator []⟩
        (.enter body trace terminator.exitCleanupActions successor)
  | return_ {trace terminator} (operation : terminator.operation = .return_) :
      Step body ⟨trace, [], .statements terminator []⟩
        ⟨trace, terminator.exitCleanupActions, .left⟩
  | stop {trace terminator}
      (operation : terminator.operation = .trap_ ∨ terminator.operation = .unreachable_) :
      Step body ⟨trace, [], .statements terminator []⟩
        ⟨trace, terminator.exitCleanupActions, .stopped⟩

/-- The states of the runs from block 0. -/
def Reachable (body : ExecutableBody) (state : RunState) : Prop :=
  ∃ entry, body.terminators.head? = some entry ∧
    Relation.ReflTransGen (Step body) (.enter body [] [] entry) state

/-- What a run owes its cleanup actions: they run last in first out, each run after a
registration of its own, and none is left when the function has been left. -/
structure CleanupsRunOnce (state : RunState) : Prop where
  order : LastInFirstOut state.trace
  fresh : RunsFresh state.trace
  closed : state.next = .left → state.cleaning = [] → pending state.trace = []

/-- A run executes a return statement of the block. -/
def ReturnsIn (body : ExecutableBody) (terminator : ExecutableTerminator) : Prop :=
  ∃ trace statement rest value, statement.operation = .return_ value ∧
    Reachable body ⟨trace, [], .statements terminator (statement :: rest)⟩

/-- Every block in which a run executes a return statement ends in the executable operation
`return_`, or its exit list empties its declared stack all the same. -/
def ReturnStatementsClose (body : ExecutableBody) : Prop :=
  ∀ terminator, ReturnsIn body terminator →
    terminator.operation = .return_ ∨ exitCleanupStack body terminator = .ok []

/-! ## What verification establishes -/

/-- The facts of a complete verified body that its runs rest on. -/
structure Verified (body : ExecutableBody) : Prop where
  statementsNumbered : ∀ (i : ℕ) (statement : ExecutableStatement),
    body.statements[i]? = some statement → statement.id = .fromIndex i
  registration : ∀ entry ∈ body.cleanupActions, ∃ statement ∈ body.statements,
    statement.id = entry.registration ∧ statement.blockId = entry.blockId
  terminatorsDistinct : ∀ terminator ∈ body.terminators, ∀ other ∈ body.terminators,
    terminator.blockId = other.blockId → terminator = other
  returnsLast : ∀ executed rest statement terminator value,
    blockStatements body terminator = executed ++ statement :: rest →
    statement.operation = .return_ value → rest = []
  entryEmpty : ∀ entry, body.terminators.head? = some entry → entry.entryCleanupStack = []
  cleanup : ∀ terminator ∈ body.terminators, verifyBlockCleanup body terminator = .ok ()

variable {function : ExecutableFunction}

/-- The checks of a complete body that passed. -/
lemma verify_eq_ok (hverify : verify function = .ok ())
    (hcomplete : function.executableBody.complete = true) :
    (∀ pair ∈ function.executableBody.cleanupActions.zipIdx,
      verifyCleanupAction function pair.1 pair.2 = .ok ()) ∧
    (∀ pair ∈ function.executableBody.statements.zipIdx,
      verifyStatement function pair.1 pair.2 = .ok ()) ∧
    verifyTerminators function = .ok () ∧ verifyExecutableCleanupCfg function = .ok () := by
  simp only [verify, hcomplete, Bool.not_true, Bool.false_and, Bool.false_eq_true, if_false,
    if_true, exceptBind_eq_ok, forM_eq_ok] at hverify
  obtain ⟨_, _, _, hactions, _, hstatements, _, hterminators, hcfg⟩ := hverify
  exact ⟨hactions, hstatements, hterminators, hcfg⟩

lemma statementsNumbered_of_verifyStatement (h : ∀ pair ∈ function.executableBody.statements.zipIdx,
      verifyStatement function pair.1 pair.2 = .ok ()) (i : ℕ) (statement : ExecutableStatement)
    (hget : function.executableBody.statements[i]? = some statement) :
    statement.id = .fromIndex i := by
  have hcheck := h (statement, i) (List.mem_zipIdx_iff_getElem?.mpr hget)
  simp only [verifyStatement, exceptBind_eq_ok, ensure_eq_ok, Bool.and_eq_true, beq_iff_eq]
    at hcheck
  obtain ⟨_, ⟨⟨_, hindex⟩, _⟩, _⟩ := hcheck
  rw [← hindex]
  rfl

lemma registration_of_verifyCleanupAction {entry : ExecutableCleanupAction} {index : ℕ}
    (h : verifyCleanupAction function entry index = .ok ()) :
    ∃ statement ∈ function.executableBody.statements,
      statement.id = entry.registration ∧ statement.blockId = entry.blockId := by
  simp only [verifyCleanupAction, exceptBind_eq_ok] at h
  obtain ⟨_, _, _, _, h⟩ := h
  split at h
  · cases h
  · rename_i registration hget
    simp only [exceptBind_eq_ok, ensure_eq_ok, Bool.and_eq_true, TypedIndex.eql_iff] at h
    obtain ⟨_, ⟨⟨hid, hblock⟩, _⟩, _⟩ := h
    exact ⟨registration, List.mem_of_getElem? hget, hid, hblock⟩

lemma terminator_blockId_of_verifyTerminators
    (h : verifyTerminators function = .ok ()) {i : ℕ} {terminator : ExecutableTerminator}
    (hget : function.executableBody.terminators[i]? = some terminator) :
    terminator.blockId = .fromIndex i := by
  simp only [verifyTerminators, exceptBind_eq_ok, forM_eq_ok] at h
  obtain ⟨_, _, h⟩ := h
  obtain ⟨_, hblock, _⟩ := h (terminator, i) (List.mem_zipIdx_iff_getElem?.mpr hget)
  obtain ⟨block, hblockGet, hid⟩ := (Option.any_eq_true _ _).mp (ensure_eq_ok.mp hblock)
  obtain ⟨hi, hgetElem⟩ := List.getElem?_eq_some_iff.mp hblockGet
  rw [TypedIndex.eql_iff.mp hid, ← hgetElem]
  exact function.blocksNumbered i hi

/-- No statement of the block stands after a return statement. -/
lemma returnsLast_of_verifyStatement (hcomplete : function.executableBody.complete = true)
    (hstatements : ∀ pair ∈ function.executableBody.statements.zipIdx,
      verifyStatement function pair.1 pair.2 = .ok ())
    {executed rest : List ExecutableStatement} {statement : ExecutableStatement}
    {terminator : ExecutableTerminator} {value : Option ExprId}
    (hblock : blockStatements function.executableBody terminator = executed ++ statement :: rest)
    (hreturn : statement.operation = .return_ value) : rest = [] := by
  obtain ⟨before, fromStatement, hsplit, -, hfrom⟩ := List.filter_eq_append_iff.mp hblock
  obtain ⟨skipped, after, rfl, hskipped, hown, hafter⟩ := List.filter_eq_cons_iff.mp hfrom
  rw [TypedIndex.eql_iff] at hown
  have hindex : function.executableBody.statements[(before ++ skipped).length]? =
      some statement := by
    rw [hsplit, ← List.append_assoc, List.getElem?_append_right Nat.le.refl, Nat.sub_self]
    rfl
  have hid := statementsNumbered_of_verifyStatement hstatements _ _ hindex
  have hcheck := hstatements (statement, _) (List.mem_zipIdx_iff_getElem?.mpr hindex)
  simp only [verifyStatement, hreturn, exceptBind_eq_ok, verifyReturnStatement, hcomplete,
    if_true] at hcheck
  obtain ⟨_, _, _, _, hlast⟩ := hcheck
  split at hlast
  · obtain ⟨_, herror, _⟩ := exceptBind_eq_ok.mp hlast
    cases herror
  · obtain ⟨_, _, hrest⟩ := exceptBind_eq_ok.mp hlast
    obtain ⟨_, hnone, _⟩ := exceptBind_eq_ok.mp hrest
    have hdrop : function.executableBody.statements.drop (statement.id.index + 1) = after := by
      rw [hid, TypedIndex.index_fromIndex, hsplit, ← List.append_assoc, List.append_cons]
      exact List.drop_left' (by rw [List.length_append, List.length_singleton])
    rw [ensure_eq_ok, hdrop, List.all_eq_true] at hnone
    rw [← hafter, List.filter_eq_nil_iff]
    intro later hlater
    simpa [hown] using hnone later hlater

lemma verified_of_verify (hverify : verify function = .ok ())
    (hcomplete : function.executableBody.complete = true) : Verified function.executableBody := by
  obtain ⟨hactions, hstatements, hterminators, hcfg⟩ := verify_eq_ok hverify hcomplete
  refine {
    statementsNumbered := statementsNumbered_of_verifyStatement hstatements
    registration := ?_
    terminatorsDistinct := ?_
    returnsLast := fun _ _ _ _ _ hblock hreturn =>
      returnsLast_of_verifyStatement hcomplete hstatements hblock hreturn
    entryEmpty := ?_
    cleanup := ?_ }
  · intro entry hentry
    obtain ⟨i, hget⟩ := List.getElem?_of_mem hentry
    exact registration_of_verifyCleanupAction
      (hactions (entry, i) (List.mem_zipIdx_iff_getElem?.mpr hget))
  · intro terminator hmem other hother hid
    obtain ⟨i, hi⟩ := List.getElem?_of_mem hmem
    obtain ⟨j, hj⟩ := List.getElem?_of_mem hother
    have hindex : i = j := by
      have hlabels := (terminator_blockId_of_verifyTerminators hterminators hi).symm.trans
        (hid.trans (terminator_blockId_of_verifyTerminators hterminators hj))
      exact congrArg TypedIndex.index hlabels
    rw [hindex, hj] at hi
    exact (Option.some.inj hi).symm
  · intro entry hentry
    simp only [verifyExecutableCleanupCfg] at hcfg
    split at hcfg
    · rename_i hnil
      rw [hnil] at hentry
      cases hentry
    · rename_i first _ hcons
      rw [hcons] at hentry
      cases hentry
      obtain ⟨_, hempty, _⟩ := exceptBind_eq_ok.mp hcfg
      exact List.isEmpty_iff.mp (ensure_eq_ok.mp hempty)
  · intro terminator hmem
    simp only [verifyExecutableCleanupCfg] at hcfg
    split at hcfg
    · rename_i hnil
      rw [hnil] at hmem
      cases hmem
    · obtain ⟨_, _, hall⟩ := exceptBind_eq_ok.mp hcfg
      exact forM_eq_ok.mp hall terminator hmem

section Runs

variable {body : ExecutableBody}

/-! ## The declared stacks -/

/-- The declared stack when these statements of the block have been executed. -/
def DeclaredStack (body : ExecutableBody) (terminator : ExecutableTerminator)
    (executed : List ExecutableStatement) (stack : List CleanupActionId) : Prop :=
  executed.foldlM (verifyStatementCleanup body) terminator.entryCleanupStack = .ok stack

/-- Every error list of the statement empties the stack before it. -/
lemma reverse_eq_of_ownedErrorLists {stack after errors : List CleanupActionId}
    {statement : ExecutableStatement}
    (hstep : verifyStatementCleanup body stack statement = .ok after)
    (howned : errors ∈ ownedErrorLists body statement) : stack.reverse = errors := by
  obtain ⟨_, hlists, _⟩ := exceptBind_eq_ok.mp hstep
  have hpops := ensure_eq_ok.mp (forM_eq_ok.mp hlists errors howned)
  have hstack := cleanupListPops_eq_some.mp (beq_iff_eq.mp hpops)
  rw [hstack, List.nil_append, List.reverse_reverse]

/-- What a statement does to the declared stack. -/
lemma verifyStatementCleanup_cases {stack after : List CleanupActionId}
    {statement : ExecutableStatement}
    (hstep : verifyStatementCleanup body stack statement = .ok after) :
    (∃ id action, statement.operation = .deferRegister id ∧ body.cleanupAction id = some action ∧
      action.registration = statement.id ∧ after = stack ++ [id]) ∨
    (∃ actions, statement.operation = .cleanupRun actions ∧ stack = after ++ actions.reverse) ∨
    ((∀ id, statement.operation ≠ .deferRegister id) ∧
      (∀ actions, statement.operation ≠ .cleanupRun actions) ∧ after = stack) := by
  obtain ⟨_, -, hstep⟩ := exceptBind_eq_ok.mp hstep
  split at hstep
  · rename_i id hoperation
    split at hstep
    · cases hstep
    · rename_i action haction
      obtain ⟨_, hregistered, hafter⟩ := exceptBind_eq_ok.mp hstep
      rw [ensure_eq_ok, Bool.and_eq_true, TypedIndex.eql_iff] at hregistered
      cases hafter
      exact Or.inl ⟨id, action, hoperation, haction, hregistered.1, rfl⟩
  · rename_i actions hoperation
    split at hstep
    · cases hstep
    · rename_i rest hpops
      cases hstep
      exact Or.inr (Or.inl ⟨actions, hoperation, cleanupListPops_eq_some.mp hpops⟩)
  · rename_i hdefer hrun
    cases hstep
    exact Or.inr (Or.inr ⟨hdefer, hrun, rfl⟩)

/-- What is on a declared stack was there on entry or was registered in the block. -/
lemma registered_of_mem_declaredStack {terminator : ExecutableTerminator}
    {executed : List ExecutableStatement} {stack : List CleanupActionId}
    (h : DeclaredStack body terminator executed stack) {id : CleanupActionId} (hid : id ∈ stack) :
    id ∈ terminator.entryCleanupStack ∨ ∃ statement ∈ executed, ∃ action,
      body.cleanupAction id = some action ∧ action.registration = statement.id := by
  induction executed using List.reverseRecOn generalizing stack with
  | nil =>
    cases h
    exact Or.inl hid
  | append_singleton executed statement ih =>
    obtain ⟨before, hbefore, hlast⟩ := foldlM_append_eq_ok.mp h
    have hlater : id ∈ before → id ∈ terminator.entryCleanupStack ∨
        ∃ statement' ∈ executed ++ [statement], ∃ action,
          body.cleanupAction id = some action ∧ action.registration = statement'.id := by
      intro hmem
      rcases ih hbefore hmem with hentry | ⟨statement', hmem', haction⟩
      · exact Or.inl hentry
      · exact Or.inr ⟨statement', List.mem_append_left _ hmem', haction⟩
    obtain ⟨_, hstep, hnil⟩ := exceptBind_eq_ok.mp hlast
    cases hnil
    rcases verifyStatementCleanup_cases hstep with
      ⟨registered, action, -, haction, hregistration, rfl⟩ | ⟨actions, -, rfl⟩ | ⟨-, -, rfl⟩
    · rcases List.mem_append.mp hid with hold | hnew
      · exact hlater hold
      · obtain rfl := List.mem_singleton.mp hnew
        exact Or.inr ⟨statement, by simp, action, haction, hregistration⟩
    · exact hlater (List.mem_append_left _ hid)
    · exact hlater hid

namespace Verified

variable (verified : Verified body)
include verified

/-- The declared stack can be followed to the end of a block. -/
lemma declaredStack_of_split {terminator : ExecutableTerminator}
    (hmem : terminator ∈ body.terminators) {executed rest : List ExecutableStatement}
    {statement : ExecutableStatement}
    (hblock : blockStatements body terminator = executed ++ statement :: rest)
    {stack : List CleanupActionId} (hstack : DeclaredStack body terminator executed stack) :
    ∃ after, verifyStatementCleanup body stack statement = .ok after ∧
      DeclaredStack body terminator (executed ++ [statement]) after := by
  obtain ⟨_, _, hexit⟩ := exceptBind_eq_ok.mp (verified.cleanup terminator hmem)
  obtain ⟨_, hexit, -⟩ := exceptBind_eq_ok.mp hexit
  obtain ⟨full, hfull, -⟩ := exceptBind_eq_ok.mp hexit
  rw [hblock] at hfull
  obtain ⟨before, hbefore, hrest⟩ := foldlM_append_eq_ok.mp hfull
  obtain rfl : stack = before := Except.ok.inj (hstack.symm.trans hbefore)
  obtain ⟨after, hstep, -⟩ := exceptBind_eq_ok.mp hrest
  refine ⟨after, hstep, foldlM_append_eq_ok.mpr ⟨stack, hstack, ?_⟩⟩
  exact exceptBind_eq_ok.mpr ⟨after, hstep, rfl⟩

/-- The exit list of a block pops its last declared stack. -/
lemma exitCleanupStack_of_end {terminator : ExecutableTerminator}
    (hmem : terminator ∈ body.terminators) {stack : List CleanupActionId}
    (hstack : DeclaredStack body terminator (blockStatements body terminator) stack) :
    ∃ remaining, exitCleanupStack body terminator = .ok remaining ∧
      stack = remaining ++ terminator.exitCleanupActions.reverse := by
  obtain ⟨_, _, hexit⟩ := exceptBind_eq_ok.mp (verified.cleanup terminator hmem)
  obtain ⟨remaining, hexit, -⟩ := exceptBind_eq_ok.mp hexit
  refine ⟨remaining, hexit, ?_⟩
  obtain ⟨full, hfull, hpops⟩ := exceptBind_eq_ok.mp hexit
  obtain rfl : stack = full := Except.ok.inj (hstack.symm.trans hfull)
  split at hpops
  · cases hpops
  · rename_i rest hrest
    cases hpops
    exact cleanupListPops_eq_some.mp hrest

/-- A successor is entered with the stack its predecessor leaves. -/
lemma entryCleanupStack_of_target {terminator : ExecutableTerminator}
    (hmem : terminator ∈ body.terminators) {remaining : List CleanupActionId}
    (hexit : exitCleanupStack body terminator = .ok remaining) {target : BlockId}
    (htarget : target ∈ terminator.operation.targets) {successor : ExecutableTerminator}
    (hfound : body.terminatorByBlock target = some successor) :
    successor.entryCleanupStack = remaining := by
  obtain ⟨_, _, hblock⟩ := exceptBind_eq_ok.mp (verified.cleanup terminator hmem)
  obtain ⟨remaining', hexit', hblock⟩ := exceptBind_eq_ok.mp hblock
  obtain rfl : remaining = remaining' := Except.ok.inj (hexit.symm.trans hexit')
  have hall : terminator.operation.targets.forM (verifyCleanupSuccessor body remaining) =
      .ok () := by
    cases hoperation : terminator.operation <;> rw [hoperation] at hblock htarget
    case return_ => cases htarget
    case fallthrough => cases htarget
    all_goals exact hblock
  have hsuccessor := forM_eq_ok.mp hall target htarget
  rw [verifyCleanupSuccessor, hfound] at hsuccessor
  exact (cleanupStackEql_iff.mp (ensure_eq_ok.mp hsuccessor)).symm

/-- An executable `return_` is reached with nothing left on the declared stack. -/
lemma exitCleanupStack_of_return {terminator : ExecutableTerminator}
    (hmem : terminator ∈ body.terminators) (hreturn : terminator.operation = .return_) :
    exitCleanupStack body terminator = .ok [] := by
  obtain ⟨_, _, hblock⟩ := exceptBind_eq_ok.mp (verified.cleanup terminator hmem)
  obtain ⟨remaining, hexit, hblock⟩ := exceptBind_eq_ok.mp hblock
  rw [hreturn] at hblock
  rw [hexit, List.isEmpty_iff.mp (ensure_eq_ok.mp hblock)]

/-- A statement identity names one statement. -/
lemma statement_unique {statement other : ExecutableStatement}
    (hmem : statement ∈ body.statements) (hother : other ∈ body.statements)
    (hid : statement.id = other.id) : statement = other := by
  obtain ⟨i, hi⟩ := List.getElem?_of_mem hmem
  obtain ⟨j, hj⟩ := List.getElem?_of_mem hother
  have hindex : i = j := by
    have hlabels := (verified.statementsNumbered i statement hi).symm.trans
      (hid.trans (verified.statementsNumbered j other hj))
    exact congrArg TypedIndex.index hlabels
  rw [hindex, hj] at hi
  exact (Option.some.inj hi).symm

/-- No statement stands twice in a block. -/
lemma not_mem_executed {terminator : ExecutableTerminator}
    {executed rest : List ExecutableStatement} {statement : ExecutableStatement}
    (hblock : blockStatements body terminator = executed ++ statement :: rest) :
    statement ∉ executed := by
  have hstatements : body.statements.Nodup := by
    refine List.nodup_iff_injective_getElem.mpr fun i j hij => ?_
    have hi := verified.statementsNumbered i _ (List.getElem?_eq_getElem i.isLt)
    have hj := verified.statementsNumbered j _ (List.getElem?_eq_getElem j.isLt)
    have hlabels := hi.symm.trans ((congrArg ExecutableStatement.id hij).trans hj)
    exact Fin.ext (congrArg TypedIndex.index hlabels)
  have hnodup : (executed ++ statement :: rest).Nodup := hblock ▸ hstatements.filter _
  intro hmem
  exact List.disjoint_of_nodup_append hnodup hmem List.mem_cons_self

end Verified

/-! ## The invariant of a run -/

/-- What the trace of a run satisfies.  `visited` are the blocks it has entered: an action
can only be pending once its block was entered, so the stack of a block on its first entry,
which is its declared stack, has none of the block's own actions. -/
structure Ledger (body : ExecutableBody) (visited : List BlockId) (trace : List CleanupEvent) :
    Prop where
  order : LastInFirstOut trace
  once : RegistersOnce trace
  deferred : ∀ above action below, pending trace = above ++ action :: below →
    ∀ errors ∈ deferredErrorLists body action, errors = below
  pendingVisited : ∀ id ∈ pending trace, ∀ action, body.cleanupAction id = some action →
    action.blockId ∈ visited
  entryForeign : ∀ terminator ∈ body.terminators, terminator.blockId ∈ visited →
    ∀ id ∈ terminator.entryCleanupStack, ∀ action, body.cleanupAction id = some action →
      action.blockId ≠ terminator.blockId

/-- What is pending below the actions being run, as the place where the run goes on declares
it. -/
def Expects (body : ExecutableBody) (visited : List BlockId) (below : List CleanupActionId) :
    Continuation → Prop
  | .statements terminator rest =>
    terminator ∈ body.terminators ∧ terminator.blockId ∈ visited ∧ ∃ executed,
      blockStatements body terminator = executed ++ rest ∧
      DeclaredStack body terminator executed below.reverse
  | .left => below = [] ∨ ∃ terminator ∈ body.terminators, ReturnsIn body terminator ∧
      exitCleanupStack body terminator = .ok below.reverse
  | .stopped => True

/-- The invariant: the actions being run are the newest pending ones. -/
def Accounted (body : ExecutableBody) (state : RunState) : Prop :=
  ∃ visited below, Ledger body visited state.trace ∧
    pending state.trace = state.cleaning ++ below ∧ Expects body visited below state.next

namespace Ledger

variable {visited : List BlockId} {trace : List CleanupEvent}

lemma pending_ran {action : CleanupActionId} {rest : List CleanupActionId}
    (hpending : pending trace = action :: rest) : pending (trace ++ [.ran action]) = rest := by
  rw [pending_snoc, hpending]
  show (action :: rest).erase action = rest
  rw [List.erase_cons_head]

lemma ran (ledger : Ledger body visited trace) {action : CleanupActionId}
    {rest : List CleanupActionId} (hpending : pending trace = action :: rest) :
    Ledger body visited (trace ++ [.ran action]) := by
  have hafter := pending_ran hpending
  refine ⟨ledger.order.ran (by rw [hpending]; rfl), ledger.once.ran action, ?_, ?_,
    ledger.entryForeign⟩
  · intro above other below hsplit
    refine ledger.deferred (action :: above) other below ?_
    rw [hpending, ← hafter, hsplit]
    rfl
  · intro id hid
    refine ledger.pendingVisited id ?_
    rw [hafter] at hid
    rw [hpending]
    exact List.mem_cons_of_mem _ hid

lemma registered (ledger : Ledger body visited trace) {id : CleanupActionId}
    {action : ExecutableCleanupAction} (hfound : body.cleanupAction id = some action)
    (hvisited : action.blockId ∈ visited) (hnew : id ∉ pending trace)
    (hdeferred : ∀ errors ∈ deferredErrorLists body id, errors = pending trace) :
    Ledger body visited (trace ++ [.registered id]) := by
  have hafter : pending (trace ++ [.registered id]) = id :: pending trace := pending_snoc _ _
  refine ⟨ledger.order.registered id, ledger.once.registered hnew, ?_, ?_, ledger.entryForeign⟩
  · intro above other below hsplit
    rw [hafter] at hsplit
    cases above with
    | nil =>
      obtain ⟨rfl, rfl⟩ := List.cons.inj hsplit
      exact hdeferred
    | cons first above => exact ledger.deferred above other below (List.cons.inj hsplit).2
  · intro other hother action' hfound'
    rw [hafter] at hother
    rcases List.mem_cons.mp hother with rfl | hold
    · rw [Option.some.inj (hfound'.symm.trans hfound)]
      exact hvisited
    · exact ledger.pendingVisited other hold action' hfound'

/-- Entering a block whose declared stack is what is pending. -/
lemma enter (ledger : Ledger body visited trace) (verified : Verified body)
    {successor : ExecutableTerminator} (hmem : successor ∈ body.terminators)
    (hentry : ∀ id ∈ successor.entryCleanupStack, id ∈ pending trace) :
    Ledger body (successor.blockId :: visited) trace := by
  refine ⟨ledger.order, ledger.once, ledger.deferred, ?_, ?_⟩
  · intro id hid action hfound
    exact List.mem_cons_of_mem _ (ledger.pendingVisited id hid action hfound)
  · intro terminator hterminator hvisited id hid action hfound
    by_cases hbefore : terminator.blockId ∈ visited
    · exact ledger.entryForeign terminator hterminator hbefore id hid action hfound
    · -- a first entry: the block is the successor, and its own actions are not pending yet
      have hsame : terminator.blockId = successor.blockId := by
        rcases List.mem_cons.mp hvisited with h | h
        · exact h
        · exact absurd h hbefore
      obtain rfl := verified.terminatorsDistinct terminator hterminator successor hmem hsame
      intro heq
      exact hbefore (heq ▸ ledger.pendingVisited id (hentry id hid) action hfound)

end Ledger

/-! ## One step -/

/-- At a statement nothing is being run, and the declared stack can be followed through it. -/
lemma Expects.statement (verified : Verified body) {visited : List BlockId}
    {below : List CleanupActionId} {terminator : ExecutableTerminator}
    {statement : ExecutableStatement} {rest : List ExecutableStatement}
    (h : Expects body visited below (.statements terminator (statement :: rest))) :
    ∃ executed after, blockStatements body terminator = executed ++ statement :: rest ∧
      DeclaredStack body terminator executed below.reverse ∧
      verifyStatementCleanup body below.reverse statement = .ok after ∧
      Expects body visited after.reverse (.statements terminator rest) := by
  obtain ⟨hmem, hvisited, executed, hblock, hstack⟩ := h
  obtain ⟨after, hstep, hafter⟩ := verified.declaredStack_of_split hmem hblock hstack
  refine ⟨executed, after, hblock, hstack, hstep, hmem, hvisited, executed ++ [statement], ?_, ?_⟩
  · rw [hblock, List.append_cons]
  · rw [List.reverse_reverse]
    exact hafter

/-- At the end of a block the exit list is the newest part of what is pending. -/
lemma Expects.blockEnd (verified : Verified body) {visited : List BlockId}
    {below : List CleanupActionId} {terminator : ExecutableTerminator}
    (h : Expects body visited below (.statements terminator [])) :
    terminator ∈ body.terminators ∧ ∃ remaining,
      exitCleanupStack body terminator = .ok remaining ∧
      below = terminator.exitCleanupActions ++ remaining.reverse := by
  obtain ⟨hmem, -, executed, hblock, hstack⟩ := h
  rw [List.append_nil] at hblock
  subst hblock
  obtain ⟨remaining, hexit, hpops⟩ := verified.exitCleanupStack_of_end hmem hstack
  refine ⟨hmem, remaining, hexit, ?_⟩
  have hreverse := congrArg List.reverse hpops
  rwa [List.reverse_reverse, List.reverse_append, List.reverse_reverse] at hreverse

/-- Registering an action: it is new, and its error lists are what lies below it. -/
lemma registered_accounted (verified : Verified body) {visited : List BlockId}
    {trace : List CleanupEvent} (ledger : Ledger body visited trace)
    {terminator : ExecutableTerminator} {statement : ExecutableStatement}
    {rest : List ExecutableStatement} {id : CleanupActionId}
    (hoperation : statement.operation = .deferRegister id)
    (hexpects : Expects body visited (pending trace) (.statements terminator (statement :: rest))) :
    Accounted body ⟨trace ++ [.registered id], [], .statements terminator rest⟩ := by
  have hmem := hexpects.1
  have hvisited := hexpects.2.1
  obtain ⟨executed, after, hblock, hstack, hstep, hnext⟩ := hexpects.statement verified
  obtain ⟨action, hfound, hregistration, rfl⟩ : ∃ action, body.cleanupAction id = some action ∧
      action.registration = statement.id ∧ after = (pending trace).reverse ++ [id] := by
    rcases verifyStatementCleanup_cases hstep with
      ⟨id', action, hid, hfound, hregistration, hafter⟩ | ⟨actions, hrun, -⟩ | ⟨hdefer, -, -⟩
    · rw [hoperation] at hid
      cases hid
      exact ⟨action, hfound, hregistration, hafter⟩
    · rw [hoperation] at hrun
      cases hrun
    · exact absurd hoperation (hdefer id)
  have hstatement : statement ∈ blockStatements body terminator := by
    rw [hblock]
    simp
  obtain ⟨hlisted, hown⟩ := List.mem_filter.mp hstatement
  rw [TypedIndex.eql_iff] at hown
  have hentry := (entryNamed_eq_some hfound).1
  obtain ⟨registration, hregistered, hid, hactionBlock⟩ := verified.registration action hentry
  have hsame := verified.statement_unique hregistered hlisted (hid.trans hregistration)
  have hblockId : action.blockId = terminator.blockId := by
    rw [← hactionBlock, hsame, hown]
  -- an action that is pending was declared in another block, and this one registers its own
  have hnew : id ∉ pending trace := by
    intro hpending
    rcases registered_of_mem_declaredStack hstack (List.mem_reverse.mpr hpending) with
      hdeclared | ⟨earlier, hearlier, action', hfound', hregistration'⟩
    · exact ledger.entryForeign terminator hmem hvisited id hdeclared action hfound hblockId
    · have haction : action' = action := Option.some.inj (hfound'.symm.trans hfound)
      have hlistedEarlier : earlier ∈ body.statements := by
        have hinBlock : earlier ∈ blockStatements body terminator := by
          rw [hblock]
          exact List.mem_append_left _ hearlier
        exact (List.mem_filter.mp hinBlock).1
      have hrepeat := verified.statement_unique hlistedEarlier hlisted
        (hregistration'.symm.trans (haction ▸ hregistration))
      exact verified.not_mem_executed hblock (hrepeat ▸ hearlier)
  have hdeferred : ∀ errors ∈ deferredErrorLists body id, errors = pending trace := by
    intro errors herrors
    rw [deferredErrorLists, hfound] at herrors
    obtain ⟨owner, howner, howned⟩ := List.mem_flatMap.mp herrors
    obtain ⟨hownerListed, hownerId⟩ := List.mem_filter.mp howner
    rw [TypedIndex.eql_iff] at hownerId
    obtain rfl := verified.statement_unique hownerListed hlisted (hownerId.trans hregistration)
    rw [← reverse_eq_of_ownedErrorLists hstep howned, List.reverse_reverse]
  refine ⟨visited, id :: pending trace, ledger.registered hfound (hblockId ▸ hvisited) hnew
    hdeferred, pending_snoc _ _, ?_⟩
  rwa [List.reverse_append, List.reverse_reverse] at hnext

/-- A statement without an effect on the declared stack. -/
lemma Expects.passed (verified : Verified body) {visited : List BlockId}
    {below : List CleanupActionId} {terminator : ExecutableTerminator} {statement : ExecutableStatement}
    {rest : List ExecutableStatement} (hdefer : ∀ id, statement.operation ≠ .deferRegister id)
    (hrun : ∀ actions, statement.operation ≠ .cleanupRun actions)
    (h : Expects body visited below (.statements terminator (statement :: rest))) :
    Expects body visited below (.statements terminator rest) := by
  obtain ⟨executed, after, -, -, hstep, hnext⟩ := h.statement verified
  rcases verifyStatementCleanup_cases hstep with
    ⟨id, action, hid, -⟩ | ⟨actions, hactions, -⟩ | ⟨-, -, rfl⟩
  · exact absurd hid (hdefer id)
  · exact absurd hactions (hrun actions)
  · rwa [List.reverse_reverse] at hnext

/-- The blocks of a run are entered with what is pending. -/
lemma entered_accounted (verified : Verified body) {visited : List BlockId}
    {trace : List CleanupEvent} (ledger : Ledger body visited trace)
    {terminator successor : ExecutableTerminator} {target : BlockId}
    (htarget : target ∈ terminator.operation.targets)
    (hfound : body.terminatorByBlock target = some successor)
    (hexpects : Expects body visited (pending trace) (.statements terminator [])) :
    Accounted body (.enter body trace terminator.exitCleanupActions successor) := by
  obtain ⟨hmem, remaining, hexit, hpending⟩ := hexpects.blockEnd verified
  have hentry := verified.entryCleanupStack_of_target hmem hexit htarget hfound
  have hsuccessor := (entryNamed_eq_some hfound).1
  have hentered := ledger.enter verified hsuccessor (by
    intro id hid
    rw [hpending, List.mem_append, List.mem_reverse, ← hentry]
    exact Or.inr hid)
  refine ⟨successor.blockId :: visited, remaining.reverse, hentered, hpending, hsuccessor,
    List.mem_cons_self, [], rfl, ?_⟩
  rw [List.reverse_reverse, ← hentry]
  rfl

/-- **A step keeps the account.** -/
lemma Accounted.step (verified : Verified body) {state next : RunState}
    (hreachable : Reachable body state) (hstep : Step body state next)
    (h : Accounted body state) : Accounted body next := by
  obtain ⟨visited, below, ledger, hpending, hexpects⟩ := h
  -- only a registration and a run of a cleanup change what is pending
  cases hstep with
  | clean => exact ⟨visited, below, ledger.ran hpending, Ledger.pending_ran hpending, hexpects⟩
  | cleanFails owned =>
    refine ⟨visited, [], ledger.ran hpending, ?_, Or.inl rfl⟩
    rw [ledger.deferred [] _ _ hpending _ owned, List.append_nil]
    exact Ledger.pending_ran hpending
  | fails evaluated owned =>
    obtain ⟨executed, after, -, -, hstep, -⟩ := hexpects.statement verified
    refine ⟨visited, [], ledger, ?_, Or.inl rfl⟩
    rw [hpending, ← reverse_eq_of_ownedErrorLists hstep owned, List.reverse_reverse]
    simp
  | register operation =>
    obtain rfl : pending _ = below := hpending
    exact registered_accounted verified ledger operation hexpects
  | runCleanup operation =>
    obtain ⟨executed, after, -, -, hstep, hnext⟩ := hexpects.statement verified
    rcases verifyStatementCleanup_cases hstep with
      ⟨id, action, hid, -⟩ | ⟨actions, hactions, hpops⟩ | ⟨-, hrun, -⟩
    · rw [operation] at hid
      cases hid
    · rw [operation] at hactions
      cases hactions
      refine ⟨visited, after.reverse, ledger, ?_, hnext⟩
      have hreverse := congrArg List.reverse hpops
      rw [List.reverse_reverse, List.reverse_append, List.reverse_reverse] at hreverse
      rw [hpending, hreverse]
      rfl
    · exact absurd operation (hrun _)
  | @returnStatement trace terminator statement rest value operation =>
    obtain ⟨executed, after, hblock, -, -, -⟩ := hexpects.statement verified
    obtain rfl := verified.returnsLast _ _ _ _ _ hblock operation
    have hpassed := hexpects.passed verified (by simp [operation]) (by simp [operation])
    obtain ⟨hmem, remaining, hexit, hexits⟩ := hpassed.blockEnd verified
    refine ⟨visited, remaining.reverse, ledger, hpending.trans hexits,
      Or.inr ⟨terminator, hmem, ?_, ?_⟩⟩
    · exact ⟨trace, statement, [], value, operation, hreachable⟩
    · rw [List.reverse_reverse]
      exact hexit
  | guard operation | other operation =>
    exact ⟨visited, below, ledger, hpending, hexpects.passed verified (by simp [operation])
      (by simp [operation])⟩
  | continue_ targeted found =>
    obtain rfl : pending _ = below := hpending
    exact entered_accounted verified ledger targeted found hexpects
  | return_ operation =>
    obtain ⟨hmem, remaining, hexit, hexits⟩ := hexpects.blockEnd verified
    obtain rfl : remaining = [] :=
      Except.ok.inj (hexit.symm.trans (verified.exitCleanupStack_of_return hmem operation))
    exact ⟨visited, [], ledger, hpending.trans hexits, Or.inl rfl⟩
  | stop operation =>
    obtain ⟨-, remaining, -, hexits⟩ := hexpects.blockEnd verified
    exact ⟨visited, remaining.reverse, ledger, hpending.trans hexits, trivial⟩

/-! ## Whole runs -/

/-- **A run keeps the account.** -/
theorem Reachable.accounted (verified : Verified body) {state : RunState}
    (hreachable : Reachable body state) : Accounted body state := by
  obtain ⟨entry, hentry, hrun⟩ := hreachable
  have hempty := verified.entryEmpty entry hentry
  induction hrun with
  | refl =>
    refine ⟨[entry.blockId], [], ⟨lastInFirstOut_nil, registersOnce_nil, ?_, ?_, ?_⟩, rfl,
      List.mem_of_mem_head? hentry, List.mem_singleton_self _, [], rfl, ?_⟩
    · intro above action below hsplit
      have hnil : [] = above ++ action :: below := hsplit
      exact absurd hnil (by simp)
    · intro id hid
      cases hid
    · intro terminator hmem hvisited id hid
      obtain rfl := verified.terminatorsDistinct terminator hmem entry
        (List.mem_of_mem_head? hentry) (List.mem_singleton.mp hvisited)
      rw [hempty] at hid
      cases hid
    · rw [DeclaredStack, hempty]
      rfl
  | tail hbefore hstep ih => exact ih.step verified ⟨entry, hentry, hbefore⟩ hstep

lemma Reachable.step {state next : RunState} (hreachable : Reachable body state)
    (hstep : Step body state next) : Reachable body next := by
  obtain ⟨entry, hentry, hrun⟩ := hreachable
  exact ⟨entry, hentry, hrun.tail hstep⟩

/-- The actions being run can all be run. -/
lemma Reachable.cleaned {trace : List CleanupEvent} {actions below : List CleanupActionId}
    {next : Continuation} (hreachable : Reachable body ⟨trace, actions, next⟩)
    (hpending : pending trace = actions ++ below) :
    ∃ trace', Reachable body ⟨trace', [], next⟩ ∧ pending trace' = below := by
  induction actions generalizing trace with
  | nil => exact ⟨trace, hreachable, hpending⟩
  | cons action actions ih =>
    exact ih (hreachable.step .clean) (Ledger.pending_ran hpending)

/-- **Cleanups run exactly once, last in first out.**  For a complete body that `verify`
accepts, every run keeps the order, runs only what was registered since, and leaves nothing
behind, if and only if its return statements stand in blocks that close their stacks. -/
theorem cleanupsRunOnce_iff_returnStatementsClose (function : ExecutableFunction)
    (hverify : verify function = .ok ()) (hcomplete : function.executableBody.complete = true) :
    (∀ state, Reachable function.executableBody state → CleanupsRunOnce state) ↔
      ReturnStatementsClose function.executableBody := by
  have verified := verified_of_verify hverify hcomplete
  constructor
  · rintro honce terminator ⟨trace, statement, rest, value, hoperation, hreachable⟩
    obtain ⟨visited, below, -, hpending, hexpects⟩ := hreachable.accounted verified
    obtain ⟨executed, -, hblock, -⟩ := hexpects.statement verified
    obtain rfl := verified.returnsLast _ _ _ _ _ hblock hoperation
    have hpassed := hexpects.passed verified (by simp [hoperation]) (by simp [hoperation])
    obtain ⟨-, remaining, hexit, hexits⟩ := hpassed.blockEnd verified
    obtain ⟨trace', hleft, hrest⟩ :=
      (hreachable.step (.returnStatement hoperation)).cleaned (hpending.trans hexits)
    have hnone := (honce _ hleft).closed rfl rfl
    rw [hrest, List.reverse_eq_nil_iff] at hnone
    exact Or.inr (hexit.trans (by rw [hnone]))
  · intro hclose state hreachable
    obtain ⟨visited, below, ledger, hpending, hexpects⟩ := hreachable.accounted verified
    refine ⟨ledger.order, ledger.once.runsFresh ledger.order, ?_⟩
    intro hleft hcleaning
    rw [hcleaning, List.nil_append] at hpending
    rw [hleft] at hexpects
    rw [hpending]
    rcases hexpects with hnone | ⟨terminator, hmem, hreturns, hexit⟩
    · exact hnone
    · have hempty : exitCleanupStack function.executableBody terminator = .ok [] := by
        rcases hclose terminator hreturns with hreturn | hempty
        · exact verified.exitCleanupStack_of_return hmem hreturn
        · exact hempty
      exact List.reverse_eq_nil_iff.mp (Except.ok.inj (hexit.symm.trans hempty))

end Runs

/-- One call deferred and then a return, in a block that goes on to another one: the block of
the CFG returns, the executable terminator jumps to the block that runs the call. -/
def deferThenReturn (operation : ExecutableTerminatorOperation)
    (exitCleanupActions : List CleanupActionId) : ExecutableFunction where
  blocks := [
    { id := .fromIndex 0, successors := [], terminator := .return_ },
    { id := .fromIndex 1, successors := [], terminator := .return_ }]
  spanIdentities := [{ id := .fromIndex 0, source := { line := 1, column := 1 } }]
  executableBody := {
    expressions := [{
      id := .fromIndex 0, blockId := .fromIndex 0, ownerStatement := .fromIndex 0,
      spanId := .fromIndex 0, operation := .directCall }]
    statements := [
      { id := .fromIndex 0, blockId := .fromIndex 0, spanId := .fromIndex 0,
        operation := .deferRegister (.fromIndex 0) },
      { id := .fromIndex 1, blockId := .fromIndex 0, spanId := .fromIndex 0,
        operation := .return_ none }]
    cleanupActions := [{
      id := .fromIndex 0, registration := .fromIndex 0, blockId := .fromIndex 0,
      spanId := .fromIndex 0, roots := [.fromIndex 0] }]
    terminators := [
      { blockId := .fromIndex 0, exitCleanupActions := exitCleanupActions, operation := operation },
      { blockId := .fromIndex 1, entryCleanupStack := [.fromIndex 0],
        exitCleanupActions := [.fromIndex 0], operation := .return_ }] }
  returnsVoid := true
  blocksNumbered := by decide

/-- The call is deferred and run at the return: block 0 ends in `return_`. -/
theorem deferThenReturn_runsOnce_iff :
    verify (deferThenReturn .return_ [.fromIndex 0]) = .ok () ∧
      ((∀ state, Reachable (deferThenReturn .return_ [.fromIndex 0]).executableBody state →
        CleanupsRunOnce state) ↔
      ReturnStatementsClose (deferThenReturn .return_ [.fromIndex 0]).executableBody) := by
  have hverify : verify (deferThenReturn .return_ [.fromIndex 0]) = .ok () := by rfl
  exact ⟨hverify, cleanupsRunOnce_iff_returnStatementsClose _ hverify rfl⟩

/-- Block 0 registers the call, returns, and jumps: the call is left unrun. -/
theorem verified_not_cleanupsRunOnce :
    ¬ ∀ function : ExecutableFunction, verify function = .ok () →
      function.executableBody.complete = true →
      ∀ state, Reachable function.executableBody state → CleanupsRunOnce state := by
  intro honce
  have hverify : verify (deferThenReturn (.jump (.fromIndex 1)) []) = .ok () := by rfl
  have hstart : Reachable (deferThenReturn (.jump (.fromIndex 1)) []).executableBody
      (.enter (deferThenReturn (.jump (.fromIndex 1)) []).executableBody [] []
        { blockId := .fromIndex 0, operation := .jump (.fromIndex 1) }) :=
    ⟨_, rfl, .refl⟩
  have hregistered := hstart.step (.register rfl)
  have hleft := hregistered.step (.returnStatement rfl)
  have hnone := (honce _ hverify rfl _ hleft).closed rfl rfl
  cases hnone

end ModernC.Mir
