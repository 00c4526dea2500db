import ModernC.Framework.Walks
import ModernC.Mir.Model

/-!
# The dominating check of a representation use

`useHasDominatingCheck` of `mir_representation.zig` decides whether a value of a checked type
may be used without a further check: it looks for a `representation_check` of the same kind on
the same value before the use, first in the block of the use and then backward through the
blocks that lead to it.

Only the fields of an instruction and a block that the search reads are modelled.  The payloads
of a `ValueType` other than the ones it looks at are left out, and so is the allocation of the
guard, which is taken to succeed.
-/

namespace ModernC.Mir.Representation

/-! ## Instructions, blocks and functions -/

inductive ValueType where
  | void
  | never
  | bool
  | value
  | integer (name : String)
  | domainInteger (child : String)
  | float (name : String)
  | cstr
  | pointer (child : String)
  | nullablePointer (child : String)
  | nullableDynTrait
  | nullableValue (name : String)
  | slice (name : String)
  | array (child : String) (length : Option ℕ)
  | address
  | closedEnum (name : String)
  | openEnum (name : String)
  | struct_ (name : String)
  | taggedUnion (name : String)
  | result (ok err : String)
  | contract
  | branch
  | trap
  | unknown
deriving DecidableEq

/-- Instruction kinds; the ones the search does not tell apart are `other`. -/
inductive Kind where
  | typedLoad
  | call
  | indirectCall
  | assign
  | representationCheck
  | representationUse
  | returnValue
  | other
deriving DecidableEq

structure Instruction where
  kind : Kind
  resultTy : ValueType
  typedValueId : Option ValueId := none
deriving DecidableEq

structure Block where
  instructions : List Instruction := []
  successors : List BlockId := []
deriving DecidableEq

/-- A function.  Every block has a valid index: `BlockId.fromIndex` asserts it. -/
structure Function where
  blocks : List Block
  blocksIndexed : blocks.length ≤ maxU32 := by decide

/-! ## Checks -/

def checkKind : ValueType → Option String
  | .pointer _ => some "nonnull_pointer"
  | .cstr => some "nonnull_cstr"
  | .closedEnum _ => some "closed_enum"
  | _ => none

def checkMatches (instruction : Instruction) (expectedKind : String)
    (expectedValueId : Option ValueId) : Bool :=
  if instruction.kind != .representationCheck then false
  else
    match checkKind instruction.resultTy with
    | none => false
    | some actualKind =>
      if actualKind != expectedKind then false
      else
        match expectedValueId, instruction.typedValueId with
        | some expected, some actual => actual.eql expected
        | some _, none => false
        | none, actual => actual.isNone

def successorListed (block : Block) (target : BlockId) : Bool :=
  block.successors.any fun successor => successor.eql target

/-- The blocks whose successor list names the block, in table order. -/
def predecessors (function : Function) (blockIndex : ℕ) : List (Block × ℕ) :=
  function.blocks.zipIdx.filter fun candidate =>
    successorListed candidate.1 (TypedIndex.fromIndex blockIndex)

/-! ## The backward search -/

lemma count_set_true {visiting : List Bool} {i : ℕ} (h : visiting[i]? = some false) :
    (visiting.set i true).count false < visiting.count false := by
  obtain ⟨hi, hget⟩ := List.getElem?_eq_some_iff.mp h
  have hpos : 0 < visiting.count false := List.count_pos_iff.mpr (hget ▸ List.getElem_mem hi)
  rw [List.count_set hi, hget, if_pos (BEq.rfl (a := false)), if_neg (by decide)]
  omega

/-- `visiting` has one flag for each block, so a flag is found for every block index.  It is
taken back when the call returns, which the pure model does by not handing it on. -/
def blockHasDominatingCheck (function : Function) (blockIndex beforeIndex : ℕ)
    (expectedKind : String) (expectedValueId : Option ValueId) (visiting : List Bool) : Bool :=
  match function.blocks[blockIndex]? with
  | none => false
  | some block =>
    if (block.instructions.take beforeIndex).any fun instruction =>
        checkMatches instruction expectedKind expectedValueId then true
    else if blockIndex = 0 then false
    else if _h : visiting[blockIndex]? = some false then
      -- every predecessor has to answer, and there has to be one
      !(predecessors function blockIndex).isEmpty &&
        (predecessors function blockIndex).all fun candidate =>
          blockHasDominatingCheck function candidate.2 candidate.1.instructions.length
            expectedKind expectedValueId (visiting.set blockIndex true)
    else false
termination_by visiting.count false
decreasing_by exact count_set_true _h

def useHasDominatingCheck (function : Function) (blockIndex instructionIndex : ℕ)
    (ty : ValueType) : Bool :=
  match checkKind ty with
  | none => true
  | some expectedKind =>
    match function.blocks[blockIndex]? with
    | none => false
    | some block =>
      match block.instructions[instructionIndex]? with
      | none => false
      | some instruction =>
        blockHasDominatingCheck function blockIndex instructionIndex expectedKind
          instruction.typedValueId (List.replicate function.blocks.length false)

end ModernC.Mir.Representation

/-!
## What the dominating check establishes

A use is checked when every path from block 0 to it executes a matching check first.  A yes of
the backward search is always right (`everyPathChecks_of_useHasDominatingCheck`).  A no is not:
the search also answers no when it comes back to a block it is visiting, although a path has to
enter a loop through a block outside of it, and when it meets a block that nothing leads to.
`useHasDominatingCheck_exact_iff` says exactly when the answer is the right one.
-/

namespace ModernC.Mir.Representation

open Framework Relation

/-! ## Paths -/

variable {function : Function} {kind : String} {valueId : Option ValueId} {b i u v : ℕ}

/-- A matching check: a `representation_check` of the kind, on the value. -/
def IsCheck (kind : String) (valueId : Option ValueId) (instruction : Instruction) : Prop :=
  instruction.kind = .representationCheck ∧ checkKind instruction.resultTy = some kind ∧
    instruction.typedValueId = valueId

def Edge (function : Function) (u v : ℕ) : Prop :=
  ∃ block, function.blocks[u]? = some block ∧ TypedIndex.fromIndex v ∈ block.successors

/-- The instructions of a block; none where there is no block. -/
def instructionsOf (function : Function) (v : ℕ) : List Instruction :=
  (function.blocks[v]?.map Block.instructions).getD []

/-- What a path that has left the blocks `path` and entered block `b` has executed when it
arrives at instruction `i` of `b`. -/
def executed (function : Function) (path : List ℕ) (b i : ℕ) : List Instruction :=
  path.flatMap (instructionsOf function) ++ (instructionsOf function b).take i

/-- Every path from the start of block 0 to instruction `i` of block `b` executes a matching
check before it. -/
def EveryPathChecks (function : Function) (b i : ℕ) (kind : String) (valueId : Option ValueId) :
    Prop :=
  ∀ path, Walk (Edge function) 0 path b →
    ∃ instruction ∈ executed function path b i, IsCheck kind valueId instruction

/-! ## Blocks that check -/

/-- The block has a matching check before instruction `i`. -/
def ChecksBefore (function : Function) (kind : String) (valueId : Option ValueId) (v i : ℕ) :
    Prop :=
  ∃ instruction ∈ (instructionsOf function v).take i, IsCheck kind valueId instruction

/-- The block has a matching check. -/
def Checks (function : Function) (kind : String) (valueId : Option ValueId) (v : ℕ) : Prop :=
  ∃ instruction ∈ instructionsOf function v, IsCheck kind valueId instruction

/-- An edge that leaves a block without a matching check. -/
abbrev UncheckedEdge (function : Function) (kind : String) (valueId : Option ValueId) :
    ℕ → ℕ → Prop :=
  OpenStep (Edge function) (Checks function kind valueId)

variable {block : Block} {instruction : Instruction} {visiting : List Bool}

lemma instructionsOf_eq (h : function.blocks[v]? = some block) :
    instructionsOf function v = block.instructions := by
  simp [instructionsOf, h]

lemma checks_iff_checksBefore (h : function.blocks[v]? = some block) :
    Checks function kind valueId v ↔
      ChecksBefore function kind valueId v block.instructions.length := by
  simp [Checks, ChecksBefore, instructionsOf_eq h]

lemma checkMatches_iff :
    checkMatches instruction kind valueId = true ↔ IsCheck kind valueId instruction := by
  unfold checkMatches IsCheck
  by_cases hcheck : instruction.kind = .representationCheck
  · cases hkind : checkKind instruction.resultTy with
    | none => simp [hcheck]
    | some actualKind =>
      by_cases hname : actualKind = kind
      · rcases valueId with _ | expected <;>
          rcases hid : instruction.typedValueId with _ | actual <;>
          simp [hcheck, hname]
      · simp [hcheck, hname]
  · simp [hcheck]

lemma any_checkMatches_iff (h : function.blocks[v]? = some block) :
    ((block.instructions.take i).any fun instruction =>
        checkMatches instruction kind valueId) = true ↔
      ChecksBefore function kind valueId v i := by
  simp only [List.any_eq_true, checkMatches_iff, ChecksBefore, instructionsOf_eq h]

lemma mem_predecessors {candidate : Block × ℕ} :
    candidate ∈ predecessors function v ↔
      function.blocks[candidate.2]? = some candidate.1 ∧
        TypedIndex.fromIndex v ∈ candidate.1.successors := by
  obtain ⟨block, p⟩ := candidate
  simp [predecessors, successorListed, List.mem_zipIdx_iff_getElem?]

lemma edge_iff_mem_predecessors :
    Edge function u v ↔ ∃ block, (block, u) ∈ predecessors function v := by
  simp only [Edge, mem_predecessors]

/-! ## The path property as reachability through unchecked blocks -/

/-- Along a path that executes no check before its last block, every edge is unchecked. -/
lemma uncheckedEdges_of_walk {path : List ℕ} (h : Walk (Edge function) 0 path b)
    (hnone : ∀ w ∈ path, ¬ Checks function kind valueId w) :
    ReflTransGen (UncheckedEdge function kind valueId) 0 b := by
  induction h with
  | nil => exact .refl
  | snoc _ hedge ih =>
    have hpath := ih fun w hw => hnone w (List.mem_append_left _ hw)
    exact hpath.tail ⟨hedge, hnone _ (by simp)⟩

lemma walk_of_uncheckedEdges (h : ReflTransGen (UncheckedEdge function kind valueId) 0 b) :
    ∃ path, Walk (Edge function) 0 path b ∧ ∀ w ∈ path, ¬ Checks function kind valueId w := by
  induction h with
  | refl => exact ⟨[], .nil, by simp⟩
  | tail _ hstep ih =>
    obtain ⟨path, hwalk, hnone⟩ := ih
    refine ⟨_, hwalk.snoc hstep.1, ?_⟩
    intro w hw
    rcases List.mem_append.mp hw with hw | hw
    · exact hnone w hw
    · rw [List.mem_singleton.mp hw]
      exact hstep.2

lemma exists_check_executed_iff {path : List ℕ} :
    (∃ instruction ∈ executed function path b i, IsCheck kind valueId instruction) ↔
      (∃ w ∈ path, Checks function kind valueId w) ∨
        ChecksBefore function kind valueId b i := by
  simp only [executed, Checks, ChecksBefore, List.mem_append, List.mem_flatMap]
  constructor
  · rintro ⟨instruction, ⟨w, hw, hmem⟩ | hmem, hcheck⟩
    · exact .inl ⟨w, hw, instruction, hmem, hcheck⟩
    · exact .inr ⟨instruction, hmem, hcheck⟩
  · rintro (⟨w, hw, instruction, hmem, hcheck⟩ | ⟨instruction, hmem, hcheck⟩)
    · exact ⟨instruction, .inl ⟨w, hw, hmem⟩, hcheck⟩
    · exact ⟨instruction, .inr hmem, hcheck⟩

/-- Every path checks exactly when the block of the use does, or no unchecked path reaches
it. -/
theorem everyPathChecks_iff :
    EveryPathChecks function b i kind valueId ↔ ChecksBefore function kind valueId b i ∨
      ¬ ReflTransGen (UncheckedEdge function kind valueId) 0 b := by
  constructor
  · intro hall
    by_contra hcon
    obtain ⟨hown, hreach⟩ := not_or.mp hcon
    rw [not_not] at hreach
    obtain ⟨path, hwalk, hnone⟩ := walk_of_uncheckedEdges hreach
    rcases exists_check_executed_iff.mp (hall path hwalk) with ⟨w, hw, hcheck⟩ | hcheck
    · exact hnone w hw hcheck
    · exact hown hcheck
  · rintro (hown | hreach) path hwalk
    · exact exists_check_executed_iff.mpr (.inr hown)
    · by_contra hcon
      rw [exists_check_executed_iff] at hcon
      obtain ⟨hpath, -⟩ := not_or.mp hcon
      exact hreach (uncheckedEdges_of_walk hwalk fun w hw hchecks => hpath ⟨w, hw, hchecks⟩)

/-! ## The search -/

/-- One call of the search: the block checks before the instruction, or it is not block 0, is
not being visited, and its predecessors, of which there is one, all answer yes. -/
lemma blockHasDominatingCheck_iff (hblock : function.blocks[v]? = some block) :
    blockHasDominatingCheck function v i kind valueId visiting = true ↔
      ChecksBefore function kind valueId v i ∨
        v ≠ 0 ∧ visiting[v]? = some false ∧ (∃ w, Edge function w v) ∧
          ∀ candidate ∈ predecessors function v,
            blockHasDominatingCheck function candidate.2 candidate.1.instructions.length kind
              valueId (visiting.set v true) = true := by
  have hsome : (∃ w, Edge function w v) ↔ (predecessors function v).isEmpty = false := by
    simp only [edge_iff_mem_predecessors, List.isEmpty_eq_false_iff_exists_mem, Prod.exists]
    exact exists_comm
  rw [blockHasDominatingCheck, hblock, hsome, ← any_checkMatches_iff hblock]
  by_cases hany : ((block.instructions.take i).any fun instruction =>
      checkMatches instruction kind valueId) = true
  · simp only [hany, if_true, true_or]
  · by_cases hentry : v = 0
    · simp only [hany, hentry, if_true, if_false, ne_eq, not_true_eq_false, false_and, or_false,
        Bool.false_eq_true]
    · by_cases hvisiting : visiting[v]? = some false
      · simp [hany, hentry, hvisiting]
      · simp [hany, hentry, hvisiting]

/-- What a yes of the search says. -/
lemma settled_of_blockHasDominatingCheck (hblock : function.blocks[v]? = some block)
    (h : blockHasDominatingCheck function v i kind valueId visiting = true) :
    ChecksBefore function kind valueId v i ∨
      v ≠ 0 ∧ (∃ w, Edge function w v) ∧
        ∀ w, Edge function w v →
          Settled (Edge function) (Checks function kind valueId) 0 w := by
  induction hn : visiting.count false using Nat.strongRecOn
    generalizing v i block visiting with
  | _ n ih =>
    rcases (blockHasDominatingCheck_iff hblock).mp h with hown | ⟨hentry, hvisiting, hsome, hall⟩
    · exact .inl hown
    · refine .inr ⟨hentry, hsome, fun w hw => ?_⟩
      obtain ⟨candidate, hmem⟩ := edge_iff_mem_predecessors.mp hw
      have hcandidate : function.blocks[w]? = some candidate := (mem_predecessors.mp hmem).1
      have hcount := count_set_true hvisiting
      rcases ih _ (hn ▸ hcount) hcandidate (hall _ hmem) rfl with hchecks | ⟨hne, ⟨x, hx⟩, hback⟩
      · exact .closed ((checks_iff_checksBefore hcandidate).mpr hchecks)
      · exact .behind hne hx hback

/-- What a no of the search says of a block it enters from behind: following unchecked blocks
backward leads to a gap.  The blocks being visited are the ones the search came through. -/
lemma gap_of_not_blockHasDominatingCheck (hblock : function.blocks[v]? = some block)
    (hlength : visiting.length = function.blocks.length)
    (hvisiting : ∀ w, visiting[w]? = some true → ¬ Checks function kind valueId v →
      TransGen (UncheckedEdge function kind valueId) v w)
    (h : ¬ blockHasDominatingCheck function v block.instructions.length kind valueId visiting =
      true) :
    ¬ Checks function kind valueId v ∧
      ∃ u, ReflTransGen (UncheckedEdge function kind valueId) u v ∧
        Gap (Edge function) (Checks function kind valueId) 0 u := by
  induction hn : visiting.count false using Nat.strongRecOn
    generalizing v block visiting with
  | _ n ih =>
    rw [blockHasDominatingCheck_iff hblock, not_or, ← checks_iff_checksBefore hblock] at h
    obtain ⟨hopen, hfail⟩ := h
    refine ⟨hopen, ?_⟩
    by_cases hentry : v = 0
    · exact ⟨v, .refl, hopen, .inl hentry⟩
    by_cases hsome : ∃ w, Edge function w v
    swap
    · exact ⟨v, .refl, hopen, .inr (.inr fun w hw => hsome ⟨w, hw⟩)⟩
    by_cases hfree : visiting[v]? = some false
    swap
    · -- the search has come back to a block it is visiting
      have hv : v < visiting.length := hlength ▸ (List.getElem?_eq_some_iff.mp hblock).1
      have htrue : visiting[v]? = some true := by
        rw [List.getElem?_eq_getElem hv] at hfree ⊢
        cases hget : visiting[v] with
        | false => exact absurd (congrArg some hget) hfree
        | true => rfl
      exact ⟨v, .refl, hopen, .inr (.inl (hvisiting v htrue hopen))⟩
    have hall : ¬ ∀ candidate ∈ predecessors function v,
        blockHasDominatingCheck function candidate.2 candidate.1.instructions.length kind
          valueId (visiting.set v true) = true := fun hall => hfail ⟨hentry, hfree, hsome, hall⟩
    simp only [not_forall] at hall
    obtain ⟨⟨candidate, w⟩, hmem, hno⟩ := hall
    obtain ⟨hcandidate, hlisted⟩ := mem_predecessors.mp hmem
    have hedge : Edge function w v := edge_iff_mem_predecessors.mpr ⟨candidate, hmem⟩
    have hback : ∀ x, (visiting.set v true)[x]? = some true →
        ¬ Checks function kind valueId w →
          TransGen (UncheckedEdge function kind valueId) w x := by
      intro x hx hw
      rw [List.getElem?_set] at hx
      by_cases hxv : v = x
      · subst hxv
        exact .single ⟨hedge, hw⟩
      · rw [if_neg hxv] at hx
        exact (hvisiting x hx hopen).head ⟨hedge, hw⟩
    obtain ⟨hw, u, hu, hgap⟩ := ih _ (hn ▸ count_set_true hfree) hcandidate
      (by simpa using hlength) hback hno rfl
    exact ⟨u, hu.tail ⟨hedge, hw⟩, hgap⟩

/-- What a no of the search says of the block of the use. -/
lemma gap_of_not_search (hblock : function.blocks[b]? = some block)
    (hvisiting : visiting = List.replicate function.blocks.length false)
    (h : ¬ blockHasDominatingCheck function b i kind valueId visiting = true) :
    ¬ ChecksBefore function kind valueId b i ∧
      (b = 0 ∨ (∀ w, ¬ Edge function w b) ∨
        ∃ u, TransGen (UncheckedEdge function kind valueId) u b ∧
          Gap (Edge function) (Checks function kind valueId) 0 u) := by
  rw [blockHasDominatingCheck_iff hblock, not_or] at h
  obtain ⟨hown, hfail⟩ := h
  refine ⟨hown, ?_⟩
  by_cases hentry : b = 0
  · exact .inl hentry
  by_cases hsome : ∃ w, Edge function w b
  swap
  · exact .inr (.inl fun w hw => hsome ⟨w, hw⟩)
  refine .inr (.inr ?_)
  have hb : b < function.blocks.length := (List.getElem?_eq_some_iff.mp hblock).1
  have hfree : visiting[b]? = some false := by
    rw [hvisiting, List.getElem?_replicate, if_pos hb]
  have hall : ¬ ∀ candidate ∈ predecessors function b,
      blockHasDominatingCheck function candidate.2 candidate.1.instructions.length kind
        valueId (visiting.set b true) = true := fun hall => hfail ⟨hentry, hfree, hsome, hall⟩
  simp only [not_forall] at hall
  obtain ⟨⟨candidate, w⟩, hmem, hno⟩ := hall
  have hedge : Edge function w b := edge_iff_mem_predecessors.mpr ⟨candidate, hmem⟩
  have hback : ∀ x, (visiting.set b true)[x]? = some true →
      ¬ Checks function kind valueId w → TransGen (UncheckedEdge function kind valueId) w x := by
    intro x hx hw
    rw [List.getElem?_set, hvisiting] at hx
    by_cases hxb : b = x
    · subst hxb
      exact .single ⟨hedge, hw⟩
    · rw [if_neg hxb, List.getElem?_replicate] at hx
      split at hx <;> simp at hx
  obtain ⟨hw, u, hu, hgap⟩ := gap_of_not_blockHasDominatingCheck (mem_predecessors.mp hmem).1
    (by simp [hvisiting]) hback hno
  exact ⟨u, .tail' hu ⟨hedge, hw⟩, hgap⟩

/-! ## The check of a use -/

lemma useHasDominatingCheck_eq {ty : ValueType} (hblock : function.blocks[b]? = some block)
    (hinstruction : block.instructions[i]? = some instruction) (hkind : checkKind ty = some kind) :
    useHasDominatingCheck function b i ty =
      blockHasDominatingCheck function b i kind instruction.typedValueId
        (List.replicate function.blocks.length false) := by
  simp only [useHasDominatingCheck, hkind, hblock, hinstruction]

/-- **Soundness**: a yes is right in every graph. -/
theorem everyPathChecks_of_useHasDominatingCheck
    {ty : ValueType} (hblock : function.blocks[b]? = some block)
    (hinstruction : block.instructions[i]? = some instruction)
    (hkind : checkKind ty = some kind) (h : useHasDominatingCheck function b i ty = true) :
    EveryPathChecks function b i kind instruction.typedValueId := by
  rw [useHasDominatingCheck_eq hblock hinstruction hkind] at h
  rw [everyPathChecks_iff]
  rcases settled_of_blockHasDominatingCheck hblock h with hown | ⟨hentry, -, hall⟩
  · exact .inl hown
  · refine .inr fun hreach => ?_
    rcases hreach.cases_tail with hb | ⟨w, hw, hstep⟩
    · exact hentry hb
    · have hzero : ¬ Checks function kind instruction.typedValueId 0 := by
        rcases hw.cases_head with rfl | ⟨_, hfirst, _⟩
        · exact hstep.2
        · exact hfirst.2
      exact (hall w hstep.1).not_gap hstep.2 hw ⟨hzero, .inl rfl⟩

/-- Where the search gives the right answer: the block of the use checks before it, or block 0
leads to it through unchecked blocks, so that no is right, or no unchecked block that leads to
it through unchecked blocks lies on a cycle of such blocks or has nothing leading to it. -/
def SearchDecides (function : Function) (b i : ℕ) (kind : String) (valueId : Option ValueId) :
    Prop :=
  ChecksBefore function kind valueId b i ∨
    ReflTransGen (UncheckedEdge function kind valueId) 0 b ∨
      ∀ u, TransGen (UncheckedEdge function kind valueId) u b →
        ¬ TransGen (UncheckedEdge function kind valueId) u u ∧ ∃ w, Edge function w u

/-- **Exactness**: the answer at a reachable use of a checked type is yes exactly when every
path checks, under the condition `SearchDecides` and under no weaker one. -/
theorem useHasDominatingCheck_exact_iff {block : Block} {instruction : Instruction}
    {ty : ValueType} (hblock : function.blocks[b]? = some block)
    (hinstruction : block.instructions[i]? = some instruction)
    (hkind : checkKind ty = some kind) (hreach : ReflTransGen (Edge function) 0 b) :
    (useHasDominatingCheck function b i ty = true ↔
        EveryPathChecks function b i kind instruction.typedValueId) ↔
      SearchDecides function b i kind instruction.typedValueId := by
  have hsound := everyPathChecks_of_useHasDominatingCheck hblock hinstruction hkind
  have hanswer := useHasDominatingCheck_eq hblock hinstruction hkind
  constructor
  · intro hexact
    by_cases hyes : useHasDominatingCheck function b i ty = true
    · rcases settled_of_blockHasDominatingCheck hblock (hanswer ▸ hyes) with
        hown | ⟨_, _, hall⟩
      · exact .inl hown
      · refine .inr (.inr fun u hu => ?_)
        obtain ⟨w, hw, hstep⟩ := TransGen.tail'_iff.mp hu
        have hno := (hall w hstep.1).not_gap hstep.2 hw
        have hopen : ¬ Checks function kind instruction.typedValueId u := by
          obtain ⟨_, hfirst, _⟩ := TransGen.head'_iff.mp hu
          exact hfirst.2
        refine ⟨fun hcycle => hno ⟨hopen, .inr (.inl hcycle)⟩, ?_⟩
        by_contra hnone
        exact hno ⟨hopen, .inr (.inr (not_exists.mp hnone))⟩
    · rw [hexact, everyPathChecks_iff, not_or, not_not] at hyes
      exact .inr (.inl hyes.2)
  · intro hdecides
    refine ⟨hsound, fun hall => ?_⟩
    by_contra hno
    obtain ⟨hown, hfail⟩ := gap_of_not_search hblock rfl (hanswer ▸ hno)
    have hsafe := (everyPathChecks_iff.mp hall).resolve_left hown
    have hregion := (hdecides.resolve_left hown).resolve_left hsafe
    rcases hfail with rfl | hnone | ⟨u, hu, hgap⟩
    · exact hsafe .refl
    · rcases hreach.cases_tail with hb | ⟨w, _, hw⟩
      · exact hsafe (hb ▸ .refl)
      · exact hnone w hw
    · rcases hgap.cause with rfl | hcycle | hnone
      · exact hsafe hu.to_reflTransGen
      · exact (hregion u hu).1 hcycle
      · obtain ⟨w, hw⟩ := (hregion u hu).2
        exact hnone w hw

/-! ## A loop after the check -/

/-- Block 0 checks the value 7 and enters block 1, which uses it and branches back to itself
or leaves. -/
def loopAfterCheck : Function where
  blocks :=
    [{ instructions := [⟨.representationCheck, .cstr, some ⟨7⟩⟩], successors := [⟨1⟩] },
     { instructions := [⟨.representationUse, .cstr, some ⟨7⟩⟩], successors := [⟨1⟩] }]

/-- **The defect**: the use in the loop is dominated by the check, and the answer is no. -/
theorem loopAfterCheck_not_exact :
    ReflTransGen (Edge loopAfterCheck) 0 1 ∧ checkKind .cstr = some "nonnull_cstr" ∧
      EveryPathChecks loopAfterCheck 1 0 "nonnull_cstr" (some ⟨7⟩) ∧
      useHasDominatingCheck loopAfterCheck 1 0 .cstr = false := by
  have hedge : Edge loopAfterCheck 0 1 := ⟨_, rfl, by decide⟩
  have hself : Edge loopAfterCheck 1 1 := ⟨_, rfl, by decide⟩
  have hopen : ¬ Checks loopAfterCheck "nonnull_cstr" (some ⟨7⟩) 1 := by
    rintro ⟨instruction, hmem, hcheck⟩
    rw [List.mem_singleton.mp hmem] at hcheck
    exact absurd hcheck.1 (by decide)
  refine ⟨.single hedge, rfl, ?_, ?_⟩
  · refine everyPathChecks_iff.mpr (.inr fun hpath => ?_)
    rcases hpath.cases_head with h | ⟨_, hfirst, _⟩
    · exact absurd h (by decide)
    · exact hfirst.2 ⟨_, List.mem_singleton.mpr rfl, rfl, rfl, rfl⟩
  · by_contra hyes
    rw [Bool.not_eq_false, useHasDominatingCheck_eq rfl rfl rfl] at hyes
    rcases settled_of_blockHasDominatingCheck rfl hyes with ⟨_, hmem, _⟩ | ⟨_, _, hall⟩
    · exact absurd hmem (by simp)
    · exact (hall 1 hself).not_cycle hopen (.single ⟨hself, hopen⟩)

theorem loopAfterCheck_exact_iff :
    (useHasDominatingCheck loopAfterCheck 1 0 .cstr = true ↔
        EveryPathChecks loopAfterCheck 1 0 "nonnull_cstr" (some ⟨7⟩)) ↔
      SearchDecides loopAfterCheck 1 0 "nonnull_cstr" (some ⟨7⟩) := by
  let use : Instruction := ⟨.representationUse, .cstr, some ⟨7⟩⟩
  have hedge : Edge loopAfterCheck 0 1 := ⟨_, rfl, by decide⟩
  have hblock : loopAfterCheck.blocks[1]? = some ⟨[use], [⟨1⟩]⟩ := rfl
  have huse : [use][0]? = some use := rfl
  have hkind : checkKind .cstr = some "nonnull_cstr" := rfl
  exact useHasDominatingCheck_exact_iff hblock huse hkind (.single hedge)

end ModernC.Mir.Representation
