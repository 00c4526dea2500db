import ModernC.Framework.Walks
import ModernC.Mir.Typed.Verified

/-!
# Runs of typed bodies

A run evaluates the expressions of each statement in the order of their identities, executes the
statement, and continues where the terminator of the block says.  A deferred statement is evaluated
where its cleanup action runs.  The operands that short-circuit evaluation leaves out are skipped,
together with what consumes them, and a trap edge may be taken wherever its owner is.  Values are
abstract: a run reads the tag of a union and the number of a switch subject, and any call, and any
store through a pointer, may change every local.  The main result,
`payloadsReadOwnCase_of_selected`, is about the runs of a complete body that the verifier accepts.
-/

namespace ModernC.Mir.Typed

open Framework

/-! ## Machines and states -/

/-- How a value is read as a tagged union, and as a switch subject. -/
structure Machine (V : Type) where
  tag : V → ℕ
  number : V → ℤ

/-- What is left to do in a block.  `begin` starts the evaluation for one statement. -/
inductive Action where
  | begin
  | evaluate (value : ExecutableExpression)
  | perform (statement : ExecutableStatement)
  | finish
deriving DecidableEq

/-- What a step did: it evaluated an expression, wrote locals, or took a case of a switch. -/
inductive Event where
  | evaluated (value : ExecutableExpression)
  | wrote (written : LocalId → Bool)
  | switched (subject : ExprId) (value : ℤ)

/-- A state of a run.  `fresh` lists the expressions evaluated since the last `begin`. -/
structure RunState (V : Type) where
  terminator : ExecutableTerminator
  actions : List Action
  fresh : List ExprId
  locals : LocalId → V
  values : ExprId → V
  history : List Event

/-! ## The actions of a block -/

variable (body : ExecutableBody)

def ownedExpressions (statementId : InstId) : List ExecutableExpression :=
  body.expressions.filter fun value => value.ownerStatement.eql statementId

def visitActions (statementId : InstId) : List Action :=
  .begin :: (ownedExpressions body statementId).map .evaluate

/-- The deferred expressions of cleanup actions, in the order in which the actions run. -/
def cleanupActions (ids : List CleanupActionId) : List Action :=
  ids.flatMap fun id =>
    match entryNamed body.cleanupActions ExecutableCleanupAction.id id with
    | some entry => visitActions body entry.registration
    | none => []

/-- A registration evaluates nothing: its expressions belong to the cleanup action. -/
def statementActions (statement : ExecutableStatement) : List Action :=
  match statement.operation with
  | .deferRegister _ => []
  | .cleanupRun ids => cleanupActions body ids
  | _ => visitActions body statement.id ++ [.perform statement]

def blockActions (terminator : ExecutableTerminator) : List Action :=
  (body.statements.filter fun statement =>
    statement.blockId.eql terminator.blockId).flatMap (statementActions body) ++
    cleanupActions body terminator.exitCleanupActions ++ [.finish]

def RunState.enter {V : Type} (state : RunState V) (terminator : ExecutableTerminator) :
    RunState V :=
  { state with terminator, actions := blockActions body terminator, fresh := [] }

/-! ## Effects -/

/-- The operations that may write locals: calls, and those that are not told apart. -/
def Operation.effectful : Operation → Bool
  | .directCall | .indirectCall | .builtinCall _ | .other => true
  | _ => false

/-- The tagged union that an operation reads. -/
def Operation.unionOperand : Operation → Option ExprId
  | .taggedUnionTag operand => some operand
  | .taggedUnionPayload operand _ => some operand
  | _ => none

/-- The cleanup actions that the error path of an operation runs before it leaves. -/
def Operation.errorActions : Operation → Option (List CleanupActionId)
  | .tryPropagate actions => some actions
  | .tryMapError actions => some actions
  | _ => none

/-- The local whose own storage a place denotes, whole or in part. -/
def placeLocal (placeId : PlaceId) : Option LocalId :=
  (body.place placeId).bind fun target =>
    if target.projections.contains .deref then none else target.rootLocal

/-- The locals a statement writes; none if it may write any. -/
def writtenLocals : StatementOperation → Option (List LocalId)
  | .localInit init => some [init.localId]
  | .store store => (placeLocal body store.place).map ([·])
  | .packedFieldStore place _ => (placeLocal body place).map ([·])
  | .opaqueAsm | .preciseAsm _ => none
  | .eval _ | .guard _ _ | .return_ _ | .controlTransfer | .deferRegister _ | .cleanupRun _ =>
    some []

/-- The local that a statement gives the value of an expression. -/
def assigned : StatementOperation → Option (LocalId × ExprId)
  | .localInit init => init.value.map (init.localId, ·)
  | .store store => do
    let target ← body.place store.place
    let localId ← target.rootLocal
    if target.projections.isEmpty then some (localId, store.value) else none
  | _ => none

/-- The successors that are not chosen by a switch, and the locals written on the way. -/
def TerminatorOperation.leads : TerminatorOperation → List (BlockId × List LocalId)
  | .jump target => [(target, [])]
  | .branch _ trueBlock falseBlock => [(trueBlock, []), (falseBlock, [])]
  | .forEach indexLocal bindingLocal bodyBlock afterBlock =>
    [(bodyBlock, [indexLocal, bindingLocal]), (afterBlock, [indexLocal, bindingLocal])]
  | .forStep indexLocal headerBlock => [(headerBlock, [indexLocal])]
  | _ => []

/-- The edges over which an action may leave its block. -/
def Action.owner : Action → Option TrapOwner
  | .evaluate value => some (.expression value.id)
  | .perform statement => some (.statement statement.id)
  | .begin | .finish => none

def switchNumber : SwitchValue → ℤ
  | .unsigned value => value
  | .signed value => value

/-! ## Steps -/

variable {V : Type} (machine : Machine V)

/-- What the operation of an expression says about its value. -/
def Yields (state : RunState V) (operation : Operation) (result : V) : Prop :=
  match operation with
  | .ofLocal id => result = state.locals id
  | .literal (.integer magnitude) => machine.number result = magnitude
  | .taggedUnionConstruct caseIndex _ => machine.tag result = caseIndex
  | .taggedUnionTag operand => machine.number result = machine.tag (state.values operand)
  | _ => True

/-- The locals after a step that wrote some of them. -/
def AgreeOutside (written : LocalId → Bool) (before after : LocalId → V) : Prop :=
  ∀ id, written id = false → after id = before id

inductive Step : RunState V → RunState V → Prop
  | begin {state rest} (next : state.actions = .begin :: rest) :
      Step state { state with actions := rest, fresh := [] }
  | skip {state value rest} (next : state.actions = .evaluate value :: rest) :
      Step state { state with actions := rest }
  | evaluate {state value rest result written locals}
      (next : state.actions = .evaluate value :: rest)
      (ready : ∀ operand, value.operation.unionOperand = some operand → operand ∈ state.fresh)
      (yields : Yields machine state value.operation result)
      (quiet : value.operation.effectful = false → ∀ id, written id = false)
      (outside : AgreeOutside written state.locals locals) :
      Step state
        { state with
          actions := rest
          fresh := value.id :: state.fresh
          locals
          values := Function.update state.values value.id result
          history := state.history ++ [.evaluated value, .wrote written] }
  | fails {state value rest ids} (next : state.actions = .evaluate value :: rest)
      (error : value.operation.errorActions = some ids) :
      Step state { state with actions := cleanupActions body ids }
  | perform {state statement rest written locals}
      (next : state.actions = .perform statement :: rest)
      (kept : ∀ value, statement.operation ≠ .return_ value)
      (writes : ∀ ids, writtenLocals body statement.operation = some ids →
        ∀ id, written id = ids.contains id)
      (assigns : ∀ id valueId, assigned body statement.operation = some (id, valueId) →
        locals id = state.values valueId)
      (outside : AgreeOutside written state.locals locals) :
      Step state
        { state with actions := rest, locals, history := state.history ++ [.wrote written] }
  | returns {state statement rest value} (next : state.actions = .perform statement :: rest)
      (operation : statement.operation = .return_ value) :
      Step state
        { state with actions := cleanupActions body state.terminator.exitCleanupActions }
  | traps {state action rest edge terminator} (next : state.actions = action :: rest)
      (listed : edge ∈ body.trapEdges) (owned : action.owner = some edge.owner)
      (found : body.executableTerminator edge.trapBlock = some terminator) :
      Step state (state.enter body terminator)
  | goto {state target ids locals terminator} (next : state.actions = [.finish])
      (leads : (target, ids) ∈ state.terminator.operation.leads)
      (outside : AgreeOutside ids.contains state.locals locals)
      (found : body.executableTerminator target = some terminator) :
      Step state
        (.enter body { state with locals, history := state.history ++ [.wrote ids.contains] }
          terminator)
  | switches {state subject cases defaultBlock terminator} {case_ : ExecutableSwitchCase}
      (next : state.actions = [.finish])
      (operation : state.terminator.operation = .switch_ subject cases defaultBlock)
      (listed : case_ ∈ cases)
      (matched : machine.number (state.values subject) = switchNumber case_.value)
      (found : body.executableTerminator case_.target = some terminator) :
      Step state
        (.enter body
          { state with
            history := state.history ++ [.switched subject (switchNumber case_.value)] }
          terminator)
  | defaults {state subject cases defaultBlock terminator} (next : state.actions = [.finish])
      (operation : state.terminator.operation = .switch_ subject cases defaultBlock)
      (unmatched : ∀ case_ ∈ cases, machine.number (state.values subject) ≠ switchNumber case_.value)
      (found : body.executableTerminator defaultBlock = some terminator) :
      Step state (state.enter body terminator)

/-- A state on entry to the first block. -/
def Starts (state : RunState V) : Prop :=
  body.terminators.head? = some state.terminator ∧
    state.actions = blockActions body state.terminator ∧ state.fresh = [] ∧ state.history = []

/-- The runs from block 0. -/
abbrev Runs (states : List (RunState V)) : Prop := IsRun (Starts body) (Step body machine) states

/-! ## What a run has shown -/

/-- What the steps of a run say about the current values of the locals: which expressions
still hold the value of a local, which hold its tag, and which case its tag was found to be. -/
structure Knowledge where
  copyOf : ExprId → Option LocalId := fun _ => none
  tagOf : ExprId → Option LocalId := fun _ => none
  selected : LocalId → Option ℤ := fun _ => none

namespace Knowledge

/-- The local that an expression copies or whose tag it reads. -/
def copied : Operation → Option LocalId
  | .ofLocal id => some id
  | _ => none

def tagged (knowledge : Knowledge) : Operation → Option LocalId
  | .taggedUnionTag operand => knowledge.copyOf operand
  | _ => none

/-- A write forgets what was known of the local; taking a case on the tag of a local, unwritten
since the tag was read, selects the case. -/
def after (knowledge : Knowledge) : Event → Knowledge
  | .evaluated value =>
    { knowledge with
      copyOf := Function.update knowledge.copyOf value.id (copied value.operation)
      tagOf := Function.update knowledge.tagOf value.id (knowledge.tagged value.operation) }
  | .wrote written =>
    { copyOf := fun id => (knowledge.copyOf id).filter fun localId => !written localId
      tagOf := fun id => (knowledge.tagOf id).filter fun localId => !written localId
      selected := fun localId => if written localId then none else knowledge.selected localId }
  | .switched subject value =>
    match knowledge.tagOf subject with
    | some localId =>
      { knowledge with selected := Function.update knowledge.selected localId (some value) }
    | none => knowledge

lemma after_switched_of_some {knowledge : Knowledge} {subject : ExprId} {localId : LocalId}
    (h : knowledge.tagOf subject = some localId) (value : ℤ) :
    knowledge.after (.switched subject value) =
      { knowledge with
        selected := Function.update knowledge.selected localId (some value) } := by
  simp only [after, h]

lemma after_switched_of_none {knowledge : Knowledge} {subject : ExprId}
    (h : knowledge.tagOf subject = none) (value : ℤ) :
    knowledge.after (.switched subject value) = knowledge := by
  simp only [after, h]

def ofHistory (history : List Event) : Knowledge := history.foldl after {}

@[simp] lemma ofHistory_snoc (history : List Event) (event : Event) :
    ofHistory (history ++ [event]) = (ofHistory history).after event := by
  rw [ofHistory, ofHistory, List.foldl_append]
  rfl

end Knowledge

end ModernC.Mir.Typed

/-!
## Payloads of tagged unions

A payload is admitted as soon as some switch on a tag of its local enters its block in its
case.  The block can be entered otherwise, by another case of the same switch, and the local
can be written after the switch.  What a run has shown of the tag decides: a payload is read in
its own case whenever the last thing that happened to its local was that case.
-/

namespace ModernC.Mir.Typed

open Framework

variable {V : Type} {machine : Machine V} {body : ExecutableBody} {state next : RunState V}

/-! ## Knowledge of the locals -/

/-- The knowledge is true of the locals and of the values of the expressions. -/
structure Knows (machine : Machine V) (knowledge : Knowledge) (locals : LocalId → V)
    (values : ExprId → V) : Prop where
  copy : ∀ id localId, knowledge.copyOf id = some localId → values id = locals localId
  tag : ∀ id localId, knowledge.tagOf id = some localId →
    machine.number (values id) = machine.tag (locals localId)
  selected : ∀ localId number, knowledge.selected localId = some number →
    (machine.tag (locals localId) : ℤ) = number

lemma knows_empty (locals : LocalId → V) (values : ExprId → V) :
    Knows machine {} locals values where
  copy := by simp
  tag := by simp
  selected := by simp

variable {knowledge : Knowledge} {value : ExecutableExpression}

/-- Evaluating an expression says whether it copies a local or reads the tag of one. -/
lemma Knows.evaluated {result : V} (h : Knows machine knowledge state.locals state.values)
    (hyields : Yields machine state value.operation result) :
    Knows machine (knowledge.after (.evaluated value)) state.locals
      (Function.update state.values value.id result) where
  copy id localId hcopy := by
    simp only [Knowledge.after, Function.update_apply] at hcopy ⊢
    split at hcopy
    · unfold Knowledge.copied at hcopy
      split at hcopy
      · rename_i id' hoperation
        simp only [Yields, hoperation] at hyields
        rw [if_pos ‹_›, hyields, Option.some.inj hcopy]
      · cases hcopy
    · rw [if_neg ‹_›]
      exact h.copy id localId hcopy
  tag id localId htag := by
    simp only [Knowledge.after, Function.update_apply] at htag ⊢
    split at htag
    · unfold Knowledge.tagged at htag
      split at htag
      · rename_i operand hoperation
        simp only [Yields, hoperation] at hyields
        rw [if_pos ‹_›, hyields, h.copy operand localId htag]
      · cases htag
    · rw [if_neg ‹_›]
      exact h.tag id localId htag
  selected := h.selected

/-- What is still known after a write concerns the locals that were not written. -/
lemma Knows.wrote {locals locals' : LocalId → V} {values : ExprId → V}
    {written : LocalId → Bool} (h : Knows machine knowledge locals values)
    (houtside : AgreeOutside written locals locals') :
    Knows machine (knowledge.after (.wrote written)) locals' values where
  copy id localId hcopy := by
    obtain ⟨hcopy, hkept⟩ := Option.filter_eq_some_iff.mp hcopy
    rw [houtside localId (by simpa using hkept)]
    exact h.copy id localId hcopy
  tag id localId htag := by
    obtain ⟨htag, hkept⟩ := Option.filter_eq_some_iff.mp htag
    rw [houtside localId (by simpa using hkept)]
    exact h.tag id localId htag
  selected localId number hselected := by
    simp only [Knowledge.after, Option.ite_none_left_eq_some, Bool.not_eq_true] at hselected
    rw [houtside localId hselected.1]
    exact h.selected localId number hselected.2

/-- Taking a case on the tag of a local shows its tag. -/
lemma Knows.switched {locals : LocalId → V} {values : ExprId → V}
    {subject : ExprId} {number : ℤ} (h : Knows machine knowledge locals values)
    (hmatched : machine.number (values subject) = number) :
    Knows machine (knowledge.after (.switched subject number)) locals values := by
  rcases htag : knowledge.tagOf subject with - | localId
  · rw [Knowledge.after_switched_of_none htag]
    exact h
  · rw [Knowledge.after_switched_of_some htag]
    refine ⟨h.copy, h.tag, fun other known hselected => ?_⟩
    simp only [Function.update_apply] at hselected
    split at hselected
    · rename_i hother
      rw [hother, ← Option.some.inj hselected, ← hmatched, h.tag subject localId htag]
    · exact h.selected other known hselected

/-! ## The invariant of a run -/

/-- Since the last `begin`, an expression that reads a local still holds its value, unless the
local was written, and then nothing is known of its case. -/
def FreshCopies (body : ExecutableBody) (knowledge : Knowledge) (fresh : List ExprId) : Prop :=
  ∀ id ∈ fresh, ∀ localId, expressionLocal body id = some localId →
    knowledge.copyOf id = some localId ∨ knowledge.selected localId = none

lemma freshCopies_nil (knowledge : Knowledge) : FreshCopies body knowledge [] := by
  intro id hmem
  cases hmem

lemma FreshCopies.evaluated {fresh : List ExprId} (h : FreshCopies body knowledge fresh)
    (hvalue : body.expression value.id = some value) :
    FreshCopies body (knowledge.after (.evaluated value)) (value.id :: fresh) := by
  intro id hmem localId hlocal
  simp only [Knowledge.after, Function.update_apply]
  split
  · rename_i hid
    rw [hid, expressionLocal, hvalue, Option.bind_some] at hlocal
    left
    cases hoperation : value.operation with
    | ofLocal copied =>
      rw [hoperation] at hlocal
      exact hlocal
    | _ =>
      rw [hoperation] at hlocal
      cases hlocal
  · rename_i hid
    exact h id ((List.mem_cons.mp hmem).resolve_left hid) localId hlocal

lemma FreshCopies.wrote {fresh : List ExprId}
    (h : FreshCopies body knowledge fresh) (written : LocalId → Bool) :
    FreshCopies body (knowledge.after (.wrote written)) fresh := by
  intro id hmem localId hlocal
  simp only [Knowledge.after]
  by_cases hwritten : written localId = true
  · right
    rw [if_pos hwritten]
  · rw [if_neg hwritten]
    rcases h id hmem localId hlocal with hcopy | hselected
    · left
      rw [hcopy, Option.filter_some, if_pos (by simpa using hwritten)]
    · exact .inr hselected

structure Sound (machine : Machine V) (body : ExecutableBody) (state : RunState V) : Prop where
  evaluates : ∀ value, .evaluate value ∈ state.actions → value ∈ body.expressions
  knows : Knows machine (.ofHistory state.history) state.locals state.values
  copies : FreshCopies body (.ofHistory state.history) state.fresh

/-! ## The actions of a block evaluate expressions of the body -/

lemma mem_visitActions {statementId : InstId}
    (h : .evaluate value ∈ visitActions body statementId) : value ∈ body.expressions := by
  rcases List.mem_cons.mp h with h | h
  · cases h
  · obtain ⟨found, hfound, heq⟩ := List.mem_map.mp h
    rw [← Action.evaluate.inj heq]
    exact (List.mem_filter.mp hfound).1

lemma mem_cleanupActions {ids : List CleanupActionId}
    (h : .evaluate value ∈ cleanupActions body ids) : value ∈ body.expressions := by
  obtain ⟨id, -, hid⟩ := List.mem_flatMap.mp h
  split at hid
  · exact mem_visitActions hid
  · cases hid

lemma mem_statementActions {statement : ExecutableStatement}
    (h : .evaluate value ∈ statementActions body statement) : value ∈ body.expressions := by
  unfold statementActions at h
  split at h
  · cases h
  · exact mem_cleanupActions h
  · rcases List.mem_append.mp h with h | h
    · exact mem_visitActions h
    · cases List.mem_singleton.mp h

lemma mem_blockActions {terminator : ExecutableTerminator}
    (h : .evaluate value ∈ blockActions body terminator) : value ∈ body.expressions := by
  rcases List.mem_append.mp h with h | h
  · rcases List.mem_append.mp h with h | h
    · obtain ⟨statement, -, hstatement⟩ := List.mem_flatMap.mp h
      exact mem_statementActions hstatement
    · exact mem_cleanupActions h
  · cases List.mem_singleton.mp h

/-! ## Steps keep the invariant -/

lemma sound_of_starts (h : Starts body state) : Sound machine body state := by
  obtain ⟨-, hactions, hfresh, hhistory⟩ := h
  constructor
  · intro value hmem
    rw [hactions] at hmem
    exact mem_blockActions hmem
  · rw [hhistory]
    exact knows_empty _ _
  · rw [hfresh]
    exact freshCopies_nil _

lemma sound_enter {terminator : ExecutableTerminator}
    (h : Knows machine (.ofHistory state.history) state.locals state.values) :
    Sound machine body (.enter body state terminator) :=
  ⟨fun _ hmem => mem_blockActions hmem, h, freshCopies_nil _⟩

lemma Sound.step (h : Sound machine body state)
    (hexpressions : ∀ value ∈ body.expressions, body.expression value.id = some value)
    (hstep : Step body machine state next) : Sound machine body next := by
  cases hstep with
  | begin hnext =>
    exact ⟨fun value hmem => h.evaluates value (hnext ▸ .tail _ hmem), h.knows, freshCopies_nil _⟩
  | skip hnext =>
    exact ⟨fun value hmem => h.evaluates value (hnext ▸ .tail _ hmem), h.knows, h.copies⟩
  | @evaluate value rest result written locals hnext hready hyields hquiet houtside =>
    have hvalue := hexpressions value (h.evaluates value (hnext ▸ .head _))
    refine ⟨fun value hmem => h.evaluates value (hnext ▸ .tail _ hmem), ?_, ?_⟩
    · rw [List.append_cons, Knowledge.ofHistory_snoc, Knowledge.ofHistory_snoc]
      exact (h.knows.evaluated hyields).wrote houtside
    · rw [List.append_cons, Knowledge.ofHistory_snoc, Knowledge.ofHistory_snoc]
      exact (h.copies.evaluated hvalue).wrote written
  | fails hnext herror | returns _ _ => exact ⟨fun value hmem => mem_cleanupActions hmem, h.knows, h.copies⟩
  | @perform statement rest written locals hnext hkept hwrites hassigns houtside =>
    refine ⟨fun value hmem => h.evaluates value (hnext ▸ .tail _ hmem), ?_, ?_⟩
    · rw [Knowledge.ofHistory_snoc]
      exact h.knows.wrote houtside
    · rw [Knowledge.ofHistory_snoc]
      exact h.copies.wrote written
  | traps hnext hlisted howned hfound | defaults _ _ _ _ => exact sound_enter h.knows
  | goto hnext hleads houtside hfound =>
    refine sound_enter ?_
    rw [Knowledge.ofHistory_snoc]
    exact h.knows.wrote houtside
  | switches hnext hoperation hlisted hmatched hfound =>
    refine sound_enter ?_
    rw [Knowledge.ofHistory_snoc]
    exact h.knows.switched hmatched

/-! ## Payloads -/

/-- A payload that the state is about to read is that of the case the operand holds. -/
def ReadsOwnCase (machine : Machine V) (state : RunState V) : Prop :=
  ∀ value rest operand caseIndex, state.actions = .evaluate value :: rest →
    value.operation = .taggedUnionPayload operand caseIndex → operand ∈ state.fresh →
    machine.tag (state.values operand) = caseIndex

/-- When the state is about to read a payload of a local, the last event that concerns the
local is that a switch on its tag took the case of the payload. -/
def SelectedWhenRead (body : ExecutableBody) (state : RunState V) : Prop :=
  ∀ value rest operand caseIndex localId, state.actions = .evaluate value :: rest →
    value.operation = .taggedUnionPayload operand caseIndex → operand ∈ state.fresh →
    expressionLocal body operand = some localId →
    (Knowledge.ofHistory state.history).selected localId = some caseIndex

/-- The payloads of a verified body are read from locals. -/
lemma Verified.payload_of_local {function : Function} (h : Verified function)
    (hmem : value ∈ function.executableBody.expressions) {operand : ExprId} {caseIndex : ℕ}
    (hoperation : value.operation = .taggedUnionPayload operand caseIndex) :
    ∃ localId, expressionLocal function.executableBody operand = some localId := by
  have hcheck := h.operation_of_mem hmem
  simp only [verifyOperation, hoperation, h.complete, if_true, exceptBind_eq_ok] at hcheck
  obtain ⟨_, _, hcheck⟩ := hcheck
  unfold verifyTaggedUnionPayload at hcheck
  split at hcheck
  · cases hcheck
  split at hcheck
  · cases hcheck
  split at hcheck
  · cases hcheck
  rw [ensure_eq_ok, Bool.and_eq_true] at hcheck
  obtain ⟨localId, hlocal, -⟩ := (Option.any_eq_true _ _).mp hcheck.2
  exact ⟨localId, hlocal⟩

/-- **Payloads along a run.**  In every run of a verified body, if each payload is read when
the last event concerning its local was that a switch on the local's tag took its case, then
each payload is read in its own case. -/
theorem payloadsReadOwnCase_of_selected {function : Function} (hverify : verify function = .ok ())
    (hcomplete : function.executableBody.complete = true) {states : List (RunState V)}
    (hrun : Runs function.executableBody machine states)
    (hselected : ∀ state ∈ states, SelectedWhenRead function.executableBody state) :
    ∀ state ∈ states, ReadsOwnCase machine state := by
  have h := verified_of_verify hverify hcomplete
  have hsound := hrun.invariant (fun state hstarts => sound_of_starts hstarts)
    fun state next hstate hstep => hstate.step (fun value hmem => h.expression_of_mem hmem) hstep
  intro state hmem value rest operand caseIndex hnext hoperation hfresh
  obtain ⟨hevaluates, hknows, hcopies⟩ := hsound state hmem
  have hvalue := hevaluates value (hnext ▸ .head _)
  obtain ⟨localId, hlocal⟩ := h.payload_of_local hvalue hoperation
  have hcase := hselected state hmem value rest operand caseIndex localId hnext hoperation hfresh
    hlocal
  have hcopy : (Knowledge.ofHistory state.history).copyOf operand = some localId := by
    refine (hcopies operand hfresh localId hlocal).resolve_right fun hnone => ?_
    rw [hnone] at hcase
    cases hcase
  rw [hknows.copy operand localId hcopy]
  exact_mod_cast hknows.selected localId caseIndex hcase

/-! ## Two cases that share a block -/

/-- `union U { a: u32, b: u32 }`. -/
def unionU : ExecutableTaggedUnionType where
  typeId := .fromIndex 0
  ty := .taggedUnion "U"
  tagTypeId := .fromIndex 1
  cases := [⟨"a", .integer "u32", .fromIndex 1, true⟩, ⟨"b", .integer "u32", .fromIndex 1, true⟩]
  size := 8
  alignment := 4
  payloadSize := 4
  payloadAlignment := 4
  paddingSize := 0
  storageCount := 1
  payloadFieldIndex := 1

def unionCopy (id block statement : ℕ) : ExecutableExpression :=
  ⟨.fromIndex id, .fromIndex block, .fromIndex statement, .fromIndex 1, unionU.ty, .fromIndex 0,
    .ofLocal (.fromIndex 0)⟩

def unionTag : ExecutableExpression :=
  ⟨.fromIndex 1, .fromIndex 0, .fromIndex 0, .fromIndex 1, .integer "u32", .fromIndex 1,
    .taggedUnionTag (.fromIndex 0)⟩

def unionPayload : ExecutableExpression :=
  ⟨.fromIndex 3, .fromIndex 1, .fromIndex 1, .fromIndex 1, .integer "u32", .fromIndex 1,
    .taggedUnionPayload (.fromIndex 2) 0⟩

def switchOnTag : ExecutableStatement :=
  ⟨.fromIndex 0, .fromIndex 0, .fromIndex 1, .guard .switch_ (.fromIndex 1)⟩

def switchTerminator : ExecutableTerminator where
  blockId := .fromIndex 0
  operation := .switch_ (.fromIndex 1)
    [⟨.unsigned 0, .fromIndex 1⟩, ⟨.unsigned 1, .fromIndex 1⟩] (.fromIndex 2)

def payloadTerminator : ExecutableTerminator where
  blockId := .fromIndex 1
  operation := .return_

/-- A function of `u: U` that returns the payload of `a` for both cases. -/
def sharedBlock : Function where
  blocks := [⟨.fromIndex 0, [.fromIndex 1, .fromIndex 1, .fromIndex 2], .switch_⟩,
    ⟨.fromIndex 1, [], .return_⟩, ⟨.fromIndex 2, [], .unreachable_⟩]
  paramTypes := [unionU.ty]
  returnTy := .integer "u32"
  spanIdentities := [{ id := .fromIndex 0, source := { line := 1, column := 1 } },
    { id := .fromIndex 1, source := { line := 2, column := 5 } }]
  typeIdentities :=
    [⟨.fromIndex 0, "U", some unionU.ty⟩, ⟨.fromIndex 1, "u32", some (.integer "u32")⟩]
  executableBody :=
    { returnTypeId := .fromIndex 1
      parameters := [⟨.fromIndex 0, unionU.ty, .fromIndex 0, .fromIndex 0⟩]
      locals := [{ id := .fromIndex 0, spelling := "u", ty := unionU.ty, typeId := .fromIndex 0,
                   declarationSpanId := .fromIndex 0, kind := .parameter }]
      taggedUnionTypes := [unionU]
      expressions := [unionCopy 0 0 0, unionTag, unionCopy 2 1 1, unionPayload]
      statements := [switchOnTag,
        ⟨.fromIndex 1, .fromIndex 1, .fromIndex 1, .return_ (some (.fromIndex 3))⟩]
      terminators := [switchTerminator, payloadTerminator,
        { blockId := .fromIndex 2, operation := .unreachable_ }] }

/-- The values of `sharedBlock`: a union is known by its tag. -/
def tagMachine : Machine ℕ := ⟨id, Nat.cast⟩

/-- The state after the next action has evaluated an expression that writes nothing. -/
def RunState.evaluateNext (state : RunState ℕ) (value : ExecutableExpression) (result : ℕ) :
    RunState ℕ :=
  { state with
    actions := state.actions.tail
    fresh := value.id :: state.fresh
    values := Function.update state.values value.id result
    history := state.history ++ [.evaluated value, .wrote fun _ => false] }

def RunState.beginNext (state : RunState ℕ) : RunState ℕ :=
  { state with actions := state.actions.tail, fresh := [] }

/-- The run of `sharedBlock` on a union of some tag: on entry, -/
def sharedStart (tag : ℕ) : RunState ℕ where
  terminator := switchTerminator
  actions := blockActions sharedBlock.executableBody switchTerminator
  fresh := []
  locals _ := tag
  values _ := 0
  history := []

/-- when its tag has been read, -/
def sharedTag (tag : ℕ) : RunState ℕ :=
  ((sharedStart tag).beginNext.evaluateNext (unionCopy 0 0 0) tag).evaluateNext unionTag tag

/-- before the switch, -/
def sharedSwitch (tag : ℕ) : RunState ℕ :=
  { sharedTag tag with
    actions := [.finish], history := (sharedTag tag).history ++ [.wrote fun _ => false] }

/-- in the block of both cases, -/
def sharedEntry (tag : ℕ) : RunState ℕ :=
  .enter sharedBlock.executableBody
    { sharedSwitch tag with
      history := (sharedSwitch tag).history ++ [.switched (.fromIndex 1) tag] }
    payloadTerminator

/-- and before the payload is read. -/
def sharedRead (tag : ℕ) : RunState ℕ :=
  (sharedEntry tag).beginNext.evaluateNext (unionCopy 2 1 1) tag

def sharedStates (tag : ℕ) : List (RunState ℕ) :=
  [sharedStart tag, (sharedStart tag).beginNext,
    (sharedStart tag).beginNext.evaluateNext (unionCopy 0 0 0) tag, sharedTag tag,
    sharedSwitch tag, sharedEntry tag, (sharedEntry tag).beginNext, sharedRead tag]

/-- A step that evaluates an expression without effects. -/
lemma step_evaluateNext {state : RunState ℕ} {rest : List Action} {result : ℕ}
    (hnext : state.actions = .evaluate value :: rest)
    (hready : ∀ operand, value.operation.unionOperand = some operand → operand ∈ state.fresh)
    (hyields : Yields tagMachine state value.operation result) :
    Step body tagMachine state (state.evaluateNext value result) := by
  have hactions : state.actions.tail = rest := by rw [hnext, List.tail_cons]
  rw [RunState.evaluateNext, hactions]
  exact .evaluate hnext hready hyields (fun _ _ => rfl) fun _ _ => rfl

lemma sharedStates_runs {tag : ℕ} (hcase : tag = 0 ∨ tag = 1) :
    Runs sharedBlock.executableBody tagMachine (sharedStates tag) := by
  have hread : Step sharedBlock.executableBody tagMachine
      ((sharedStart tag).beginNext.evaluateNext (unionCopy 0 0 0) tag) (sharedTag tag) := by
    refine step_evaluateNext rfl (fun operand hoperand => ?_) rfl
    rw [← Option.some.inj hoperand]
    exact .head _
  have hguard : Step sharedBlock.executableBody tagMachine (sharedTag tag) (sharedSwitch tag) :=
    .perform rfl (fun _ => by simp [switchOnTag]) (fun ids hids id => by
      rw [← Option.some.inj hids]
      rfl) (fun _ _ hassigned => by cases hassigned) fun _ _ => rfl
  have hswitch : Step sharedBlock.executableBody tagMachine (sharedSwitch tag)
      (sharedEntry tag) := by
    have hfirst : (⟨.unsigned 0, .fromIndex 1⟩ : ExecutableSwitchCase) ∈
        [⟨.unsigned 0, .fromIndex 1⟩, ⟨.unsigned 1, .fromIndex 1⟩] := .head _
    have hsecond : (⟨.unsigned 1, .fromIndex 1⟩ : ExecutableSwitchCase) ∈
        [⟨.unsigned 0, .fromIndex 1⟩, ⟨.unsigned 1, .fromIndex 1⟩] := .tail _ (.head _)
    rcases hcase with rfl | rfl
    · exact .switches rfl rfl hfirst rfl rfl
    · exact .switches rfl rfl hsecond rfl rfl
  refine ⟨fun state hstate => ?_, ?_⟩
  · rw [← Option.some.inj hstate]
    exact ⟨rfl, rfl, rfl, rfl⟩
  · refine .cons_cons (.begin rfl) (.cons_cons (step_evaluateNext rfl (fun _ h => ?_) rfl)
      (.cons_cons hread (.cons_cons hguard (.cons_cons hswitch (.cons_cons (.begin rfl)
        (.cons_cons (step_evaluateNext rfl (fun _ h => ?_) rfl) (.singleton _)))))))
    · cases h
    · cases h

theorem sharedBlock_readsOwnCase : ReadsOwnCase tagMachine (sharedRead 0) := by
  have hverify : verify sharedBlock = .ok () := by decide
  refine payloadsReadOwnCase_of_selected hverify rfl (sharedStates_runs (.inl rfl)) ?_ _
    (by simp [sharedStates])
  intro state hmem value rest operand caseIndex localId hnext hoperation _ hlocal
  simp only [sharedStates, List.mem_cons, List.not_mem_nil, or_false] at hmem
  rcases hmem with rfl | rfl | rfl | rfl | rfl | rfl | rfl | rfl
  all_goals cases hnext
  all_goals cases hoperation
  cases hlocal
  decide

/-- **A payload is read in the case of another.** -/
theorem verified_not_readsOwnCase :
    ¬ ∀ (function : Function) (machine : Machine ℕ) (states : List (RunState ℕ)),
      verify function = .ok () → function.executableBody.complete = true →
        Runs function.executableBody machine states →
          ∀ state ∈ states, ReadsOwnCase machine state := by
  intro hall
  have hread := hall sharedBlock tagMachine (sharedStates 1) (by decide) rfl
    (sharedStates_runs (.inr rfl)) (sharedRead 1) (by simp [sharedStates])
  have htag := hread unionPayload _ _ _ rfl rfl (.head _)
  cases htag

end ModernC.Mir.Typed
