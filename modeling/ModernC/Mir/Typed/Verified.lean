import ModernC.Mir.Typed.Verification

/-!
# What a verified typed body establishes

The facts of a complete verified body that the results about its accesses and its runs rest
on: its tables are numbered by position, operands precede their consumers, and every trap edge
leaves the block of its owner for a block that traps in its kind.
-/

namespace ModernC.Mir.Typed

open Framework

lemma mapError_eq_ok {ε ε' α : Type} {f : ε → ε'} {x : Except ε α} {a : α} :
    x.mapError f = .ok a ↔ x = .ok a := by
  cases x <;> simp [Except.mapError]

structure Verified (function : Function) : Prop where
  complete : function.executableBody.complete = true
  control : Mir.verify function.erase = .ok ()
  expressions : ∀ value ∈ function.executableBody.expressions,
    verifyTypedExpression function value = .ok ()
  trapEdges : ∀ edge ∈ function.executableBody.trapEdges, ∃ index,
    verifyTrapEdge function edge index = .ok ()
  statements : ∀ statement ∈ function.executableBody.statements,
    verifyTypedStatement function statement = .ok ()
  places : ∀ place ∈ function.executableBody.places,
    isCompletePlaceKind function.executableBody place = true

variable {function : Function}

lemma verified_of_verify (hverify : verify function = .ok ())
    (hcomplete : function.executableBody.complete = true) : Verified function := by
  simp only [verify, hcomplete, Bool.not_true, Bool.false_and, Bool.false_eq_true, if_false,
    Bool.false_or, exceptBind_eq_ok, forM_eq_ok, mapError_eq_ok, ensure_eq_ok,
    List.all_eq_true] at hverify
  obtain ⟨_, _, _, hcontrol, _, _, _, _, _, _, _, _, _, _, _, hexpressions, _, hedges, _, _, _,
    hstatements, _, _, hplaces⟩ := hverify
  refine ⟨hcomplete, hcontrol, hexpressions, fun edge hedge => ?_, hstatements, hplaces⟩
  obtain ⟨index, hget⟩ := List.mem_iff_getElem?.mp hedge
  exact ⟨index, hedges (edge, index) (List.mem_zipIdx_iff_getElem?.mpr hget)⟩

/-! ## Numbering -/

/-- An entry that stands at its own valid index is the one its identity names. -/
lemma entryNamed_of_getElem? {name : String} {α : Type} {table : List α}
    {idOf : α → TypedIndex name} {value : α} {i : ℕ} (hget : table[i]? = some value)
    (hvalid : (idOf value).isValid = true) (hindex : (idOf value).index = i) :
    entryNamed table idOf (idOf value) = some value := by
  unfold entryNamed
  rw [if_pos hvalid, hindex, hget]
  simp

/-- The erased entries stand where the entries did. -/
lemma mem_zipIdx_erased {α β : Type} {entries : List α} {i : ℕ} {entry : α} (erase : α → β)
    (hget : entries[i]? = some entry) : (erase entry, i) ∈ (entries.map erase).zipIdx := by
  rw [List.mem_zipIdx_iff_getElem?, List.getElem?_map, hget]
  rfl

namespace Verified

variable (h : Verified function)

include h

/-- The control checks of the erased body that passed. -/
lemma control_checks :
    (∀ pair ∈ function.erase.executableBody.expressions.zipIdx,
      Mir.verifyExpression function.erase pair.1 pair.2 = .ok ()) ∧
    (∀ pair ∈ function.erase.executableBody.statements.zipIdx,
      Mir.verifyStatement function.erase pair.1 pair.2 = .ok ()) := by
  have hcomplete : function.erase.executableBody.complete = true := h.complete
  have hcontrol := h.control
  simp only [Mir.verify, hcomplete, Bool.not_true, Bool.false_and, Bool.false_eq_true, if_false,
    if_true, exceptBind_eq_ok, forM_eq_ok] at hcontrol
  obtain ⟨_, hexpressions, _, _, _, hstatements, _⟩ := hcontrol
  exact ⟨hexpressions, hstatements⟩

variable {value : ExecutableExpression} {statement : ExecutableStatement}
  {edge : ExecutableTrapEdge}

lemma expression_at {i : ℕ} (hget : function.executableBody.expressions[i]? = some value) :
    value.id.isValid = true ∧ value.id.index = i := by
  have hcheck := h.control_checks.1 _ (mem_zipIdx_erased ExecutableExpression.erase hget)
  simp only [Mir.verifyExpression, exceptBind_eq_ok, ensure_eq_ok, Bool.and_eq_true,
    beq_iff_eq] at hcheck
  exact hcheck.choose_spec.1

lemma expression_of_mem (hmem : value ∈ function.executableBody.expressions) :
    function.executableBody.expression value.id = some value := by
  obtain ⟨i, hget⟩ := List.mem_iff_getElem?.mp hmem
  obtain ⟨hvalid, hindex⟩ := h.expression_at hget
  exact entryNamed_of_getElem? hget hvalid hindex

lemma statement_at {i : ℕ} (hget : function.executableBody.statements[i]? = some statement) :
    statement.id.isValid = true ∧ statement.id.index = i := by
  have hcheck := h.control_checks.2 _ (mem_zipIdx_erased ExecutableStatement.erase hget)
  simp only [Mir.verifyStatement, exceptBind_eq_ok, ensure_eq_ok, Bool.and_eq_true,
    beq_iff_eq] at hcheck
  exact hcheck.choose_spec.1.1

lemma statement_of_mem (hmem : statement ∈ function.executableBody.statements) :
    function.executableBody.statement statement.id = some statement := by
  obtain ⟨i, hget⟩ := List.mem_iff_getElem?.mp hmem
  obtain ⟨hvalid, hindex⟩ := h.statement_at hget
  exact entryNamed_of_getElem? hget hvalid hindex

/-! ## Trap edges -/

lemma operation_of_mem (hmem : value ∈ function.executableBody.expressions) :
    verifyOperation function value = .ok () := by
  have hcheck := h.expressions value hmem
  simp only [verifyTypedExpression, exceptBind_eq_ok] at hcheck
  exact hcheck.choose_spec.2

/-- An edge leaves the block of its owner, under the span the owner gives it, for a block that
traps in its kind. -/
lemma trapEdge_of_mem (hmem : edge ∈ function.executableBody.trapEdges) :
    edgeOwner function.executableBody edge = some (edge.fromBlock, edge.spanId) ∧
      ∃ trap, blockById function edge.trapBlock = some trap ∧
        trap.terminator = .trap_ edge.kind := by
  obtain ⟨index, hcheck⟩ := h.trapEdges edge hmem
  simp only [verifyTrapEdge, exceptBind_eq_ok, ensure_eq_ok] at hcheck
  obtain ⟨_, _, _, howner, _, _, _, htrap, _⟩ := hcheck
  obtain ⟨⟨blockId, spanId⟩, hget, hids⟩ := (Option.any_eq_true _ _).mp howner
  simp only [Bool.and_eq_true, TypedIndex.eql_iff] at hids
  obtain ⟨trap, hblock, hkind⟩ := (Option.any_eq_true _ _).mp htrap
  rw [hids.1, hids.2] at hget
  exact ⟨hget, trap, hblock, beq_iff_eq.mp hkind⟩

/-- An edge leaves the block of its owner, under the span of the operation. -/
lemma edge_of_owner {span : Option SpanId} (hedge : edge ∈ function.executableBody.trapEdges)
    (howner : edgeOwner function.executableBody edge = span.bind fun id => some (blockId, id)) :
    edge.fromBlock = blockId ∧ span = some edge.spanId := by
  have hinfo := (h.trapEdge_of_mem hedge).1
  rw [howner, Option.bind_eq_some_iff] at hinfo
  obtain ⟨spanId, hspanId, hids⟩ := hinfo
  obtain ⟨hfrom, hspan⟩ := Prod.mk.inj (Option.some.inj hids)
  exact ⟨hfrom.symm, hspan ▸ hspanId⟩

lemma expressionEdge_of_mem (hmem : value ∈ function.executableBody.expressions)
    (hedge : edge ∈ function.executableBody.trapEdges)
    (howner : edge.owner = .expression value.id) :
    edge.fromBlock = value.blockId ∧
      expressionEdgeSpan function.executableBody value edge = some edge.spanId :=
  h.edge_of_owner hedge (by simp [edgeOwner, howner, h.expression_of_mem hmem])

lemma statementEdge_of_mem (hmem : statement ∈ function.executableBody.statements)
    (hedge : edge ∈ function.executableBody.trapEdges)
    (howner : edge.owner = .statement statement.id) :
    edge.fromBlock = statement.blockId ∧
      statementEdgeSpan function.executableBody statement edge = some edge.spanId :=
  h.edge_of_owner hedge (by simp [edgeOwner, howner, h.statement_of_mem hmem])

end Verified

end ModernC.Mir.Typed
