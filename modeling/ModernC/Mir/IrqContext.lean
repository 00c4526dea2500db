import ModernC.Mir.CleanupPlan

/-!
# Interrupt context

The context verifier of `mir_verify.zig` looks at each call of an `#[irq_context]` function on
its own.  It rejects known blocking callees, indirect calls and callees that are not themselves
`#[irq_context]`, but first lets a call pass when its callee is spelled like a non-blocking
primitive of the compiler.  What no chain of calls may reach is a statement about the whole
call graph.
-/

namespace ModernC.Mir.Irq

/-! ## Functions and their instructions -/

/-- The kinds of instructions; the ones that make no call are `other`. -/
inductive Kind where
  | call
  | indirectCall
  | other
deriving DecidableEq

structure Instruction where
  kind : Kind
  detail : String
  typedSpanId : SpanId := .invalid
deriving DecidableEq

structure Function where
  name : String
  irqContext : Bool
  blocks : List (List Instruction)
  spanIdentities : List SpanIdentity := []
deriving DecidableEq

/-- The functions of a module, external ones with them: those have no blocks. -/
structure Module where
  functions : List Function
deriving DecidableEq

def Function.instructions (function : Function) : List Instruction := function.blocks.flatten

/-! ## The verifier -/

/-- `std.mem.startsWith`. -/
def startsWith (name start : String) : Bool := start.toList.isPrefixOf name.toList

def isNonBlockingPrimitive (name : String) : Bool :=
  startsWith name "raw." || startsWith name "mmio." || startsWith name "atomic." ||
    startsWith name "raw_" || startsWith name "mmio_" || startsWith name "atomic_" ||
    name == "phys" || name == "pa" || name == "drop" || name == "forget_unchecked"

def isKnownBlockingIrqCallee (name : String) : Bool :=
  name == "lock.acquire" || name == "heap.alloc" || name == "device.wait_irq" || name == "fs.read"

def functionByName (mod : Module) (name : String) : Option Function :=
  mod.functions.find? fun function => function.name == name

def calleeIsIrqContext (mod : Module) (name : String) : Bool :=
  (functionByName mod name).any Function.irqContext

inductive IrqContextCallFinding where
  | unprovenCall
  | blocking
deriving DecidableEq

def irqContextCallFinding (mod : Module) (function : Function) (instruction : Instruction) :
    Option IrqContextCallFinding :=
  if !function.irqContext then none
  else if instruction.kind != .call && instruction.kind != .indirectCall then none
  else if isNonBlockingPrimitive instruction.detail then none
  else if isKnownBlockingIrqCallee instruction.detail then some .blocking
  else if instruction.kind == .indirectCall || !calleeIsIrqContext mod instruction.detail then
    some .unprovenCall
  else none

def irqContextDiagnostic : IrqContextCallFinding → String
  | .unprovenCall => "E_IRQ_CONTEXT_CALL"
  | .blocking => "E_IRQ_CONTEXT_BLOCKING"

structure Diagnostic where
  source : SourcePoint
  message : String
deriving DecidableEq

/-- `sourcePointForSpanId` on the spans of the function, or line 1, column 1. -/
def instructionSource (function : Function) (instruction : Instruction) : SourcePoint :=
  (sourcePointForSpanId { blocks := [], spanIdentities := function.spanIdentities }
    instruction.typedSpanId).getD { line := 1, column := 1 }

def irqContextReport (mod : Module) (function : Function) (instruction : Instruction) :
    Option Diagnostic :=
  (irqContextCallFinding mod function instruction).map fun finding =>
    { source := instructionSource function instruction
      message := irqContextDiagnostic finding ++
        ": MIR context verifier rejected call in #[irq_context]" }

/-- The irq-context findings of `verifyBuiltMir`. -/
def irqContextReports (mod : Module) : List Diagnostic :=
  mod.functions.flatMap fun function =>
    function.instructions.filterMap (irqContextReport mod function)

/-! ## Chains of calls -/

/-- A call reaches every function of the module that bears the name of its callee. -/
def Calls (mod : Module) (caller callee : Function) : Prop :=
  callee ∈ mod.functions ∧
    ∃ instruction ∈ caller.instructions, instruction.kind = .call ∧
      instruction.detail = callee.name

/-- A primitive of the compiler: spelled like one, and not the name of any function. -/
def IsCompilerPrimitive (mod : Module) (name : String) : Prop :=
  isNonBlockingPrimitive name = true ∧ ∀ function ∈ mod.functions, function.name ≠ name

/-- What an interrupt may execute: no indirect call, no known blocking callee, and otherwise
only calls of `#[irq_context]` functions or of compiler primitives. -/
structure InterruptSafe (mod : Module) (instruction : Instruction) : Prop where
  direct : instruction.kind ≠ .indirectCall
  nonBlocking : instruction.kind = .call → isKnownBlockingIrqCallee instruction.detail = false
  marked : instruction.kind = .call → ∀ function ∈ mod.functions,
    function.name = instruction.detail → function.irqContext = true
  known : instruction.kind = .call → IsCompilerPrimitive mod instruction.detail ∨
    ∃ function ∈ mod.functions, function.name = instruction.detail

/-- No chain of calls from an `#[irq_context]` function reaches an unsafe instruction. -/
def IrqSafe (mod : Module) : Prop :=
  ∀ entry ∈ mod.functions, entry.irqContext = true →
    ∀ reached, Relation.ReflTransGen (Calls mod) entry reached →
      ∀ instruction ∈ reached.instructions, InterruptSafe mod instruction

/-- The exemption by spelling does no harm: a call of an `#[irq_context]` function whose callee
is spelled like a primitive is direct, and names no function but `#[irq_context]` ones.  The
same holds of the functions that an earlier one of their name hides. -/
def SpellingsHarmless (mod : Module) : Prop :=
  ∀ caller ∈ mod.functions, caller.irqContext = true → ∀ instruction ∈ caller.instructions,
    (instruction.kind = .indirectCall → isNonBlockingPrimitive instruction.detail = false) ∧
    (instruction.kind = .call → ∀ callee ∈ mod.functions, callee.name = instruction.detail →
      isNonBlockingPrimitive instruction.detail = true ∨
        functionByName mod instruction.detail ≠ some callee → callee.irqContext = true)

/-! ## What the verifier has seen -/

variable {mod : Module}

variable {caller : Function} {instruction : Instruction}

lemma finding_eq_none (h : irqContextReports mod = []) (hcaller : caller ∈ mod.functions)
    (hmem : instruction ∈ caller.instructions) :
    irqContextCallFinding mod caller instruction = none := by
  have hreport := List.flatMap_eq_nil_iff.mp h caller hcaller
  have hnone := List.filterMap_eq_nil_iff.mp hreport instruction hmem
  exact Option.map_eq_none_iff.mp hnone

/-- A spelling is not both that of a primitive and that of a blocking callee. -/
lemma not_primitive_of_blocking {name : String} (h : isKnownBlockingIrqCallee name = true) :
    isNonBlockingPrimitive name = false := by
  simp only [isKnownBlockingIrqCallee, Bool.or_eq_true, beq_iff_eq] at h
  rcases h with ((rfl | rfl) | rfl) | rfl <;> decide

/-- One call of an `#[irq_context]` function: unless its callee is spelled like a primitive, it
is direct, does not block, and the first function of its callee's name is marked. -/
lemma irqContextCallFinding_eq_none (hirq : caller.irqContext = true)
    (hspelling : isNonBlockingPrimitive instruction.detail = false)
    (h : irqContextCallFinding mod caller instruction = none) :
    instruction.kind ≠ .indirectCall ∧
      (instruction.kind = .call → isKnownBlockingIrqCallee instruction.detail = false ∧
        ∃ callee, functionByName mod instruction.detail = some callee ∧
          callee.irqContext = true) := by
  rw [irqContextCallFinding, hirq, hspelling] at h
  rcases hkind : instruction.kind with - | - | -
  · rw [hkind] at h
    by_cases hblocking : isKnownBlockingIrqCallee instruction.detail = true
    · simp [hblocking] at h
    · have hmarked : calleeIsIrqContext mod instruction.detail = true := by
        simpa [hblocking] using h
      obtain ⟨callee, hcallee, hcalleeIrq⟩ := (Option.any_eq_true _ _).mp hmarked
      exact ⟨by simp, fun _ => ⟨by simpa using hblocking, callee, hcallee, hcalleeIrq⟩⟩
  · rw [hkind] at h
    by_cases hblocking : isKnownBlockingIrqCallee instruction.detail = true
    · simp [hblocking] at h
    · simp [hblocking] at h
  · simp

lemma functionByName_eq_some {name : String} {function : Function}
    (h : functionByName mod name = some function) :
    function ∈ mod.functions ∧ function.name = name :=
  ⟨List.mem_of_find?_eq_some h, by simpa using List.find?_some h⟩

/-! ## Safety of the call graph -/

/-- One step: the instructions of an `#[irq_context]` function are safe. -/
lemma interruptSafe_of_harmless (hreports : irqContextReports mod = [])
    (hharmless : SpellingsHarmless mod) (hcaller : caller ∈ mod.functions)
    (hirq : caller.irqContext = true)
    (hmem : instruction ∈ caller.instructions) : InterruptSafe mod instruction := by
  have hfinding := finding_eq_none hreports hcaller hmem
  obtain ⟨hindirect, hcallees⟩ := hharmless caller hcaller hirq instruction hmem
  by_cases hspelling : isNonBlockingPrimitive instruction.detail = true
  · refine ⟨fun hkind => ?_, fun hkind => ?_, fun hkind callee hcallee hname => ?_,
      fun hkind => ?_⟩
    · rw [hindirect hkind] at hspelling
      cases hspelling
    · by_contra hblocking
      rw [not_primitive_of_blocking (by simpa using hblocking)] at hspelling
      cases hspelling
    · exact hcallees hkind callee hcallee hname (.inl hspelling)
    · by_cases hnamed : ∃ function ∈ mod.functions, function.name = instruction.detail
      · exact .inr hnamed
      · exact .inl ⟨hspelling, fun function hfunction hname => hnamed ⟨function, hfunction, hname⟩⟩
  · obtain ⟨hdirect, hcall⟩ :=
      irqContextCallFinding_eq_none hirq (by simpa using hspelling) hfinding
    refine ⟨hdirect, fun hkind => (hcall hkind).1, fun hkind callee hcallee hname => ?_,
      fun hkind => ?_⟩
    · obtain ⟨-, first, hfirst, hfirstIrq⟩ := hcall hkind
      by_cases heq : first = callee
      · rwa [← heq]
      · refine hcallees hkind callee hcallee hname (.inr fun hsome => heq ?_)
        rw [hfirst] at hsome
        exact Option.some.inj hsome
    · obtain ⟨-, first, hfirst, -⟩ := hcall hkind
      exact .inr ⟨first, functionByName_eq_some hfirst⟩

/-- Along a chain of calls every function is marked, as long as the calls are safe. -/
lemma reached_marked {entry reached : Function} (hentry : entry ∈ mod.functions)
    (hirq : entry.irqContext = true) (hsafe : ∀ caller ∈ mod.functions, caller.irqContext = true →
      ∀ instruction ∈ caller.instructions, InterruptSafe mod instruction)
    (hchain : Relation.ReflTransGen (Calls mod) entry reached) :
    reached ∈ mod.functions ∧ reached.irqContext = true := by
  induction hchain with
  | refl => exact ⟨hentry, hirq⟩
  | tail _ hcalls ih =>
    obtain ⟨hmem, hmarked⟩ := ih
    obtain ⟨hcallee, instruction, hinstruction, hkind, hname⟩ := hcalls
    have hstep := hsafe _ hmem hmarked instruction hinstruction
    exact ⟨hcallee, hstep.marked hkind _ hcallee hname.symm⟩

/-- **Interrupt-context safety.**  On a module without irq-context findings, no chain of calls
from an `#[irq_context]` function reaches blocking or unproven code exactly when the exemption
of spellings does no harm. -/
theorem irqSafe_iff_spellingsHarmless (hreports : irqContextReports mod = []) :
    IrqSafe mod ↔ SpellingsHarmless mod := by
  constructor
  · intro hsafe caller hcaller hirq instruction hmem
    have hstep := hsafe caller hcaller hirq caller .refl instruction hmem
    refine ⟨fun hkind => absurd hkind hstep.direct, fun hkind callee hcallee hname _ => ?_⟩
    exact hstep.marked hkind callee hcallee hname
  · intro hharmless entry hentry hirq reached hchain
    have hsafe : ∀ caller ∈ mod.functions, caller.irqContext = true →
        ∀ instruction ∈ caller.instructions, InterruptSafe mod instruction :=
      fun caller hcaller hcallerIrq instruction hmem =>
        interruptSafe_of_harmless hreports hharmless hcaller hcallerIrq hmem
    obtain ⟨hmem, hmarked⟩ := reached_marked hentry hirq hsafe hchain
    exact hsafe reached hmem hmarked

/-! ## A user function that is spelled like a primitive -/

/-- `#[irq_context] fn irq_entry() { <callee>(); }`, and a function that waits for a lock. -/
def entryCalling (callee : String) : Module where
  functions :=
    [{ name := "irq_entry", irqContext := true, blocks := [[⟨.call, callee, .invalid⟩]] },
      { name := "raw_spin", irqContext := false, blocks := [[⟨.call, "lock.acquire", .invalid⟩]] }]

theorem entryCalling_primitive_irqSafe : IrqSafe (entryCalling "raw.store") := by
  refine (irqSafe_iff_spellingsHarmless (by decide)).mpr ?_
  intro caller hcaller hirq instruction hmem
  rcases List.mem_cons.mp hcaller with rfl | hcaller
  · rw [List.mem_singleton.mp hmem]
    refine ⟨fun hkind => absurd hkind (by decide), fun _ callee hcallee hname => ?_⟩
    rcases List.mem_cons.mp hcallee with rfl | hcallee
    · intro _
      rfl
    · rw [List.mem_singleton.mp hcallee] at hname
      exact absurd hname (by decide)
  · rw [List.mem_singleton.mp hcaller] at hirq
    cases hirq

/-- **Blocking code reached from an interrupt.** -/
theorem noReports_not_irqSafe : ¬ ∀ mod : Module, irqContextReports mod = [] → IrqSafe mod := by
  intro hall
  have hsafe := hall (entryCalling "raw_spin") (by decide) _ (.head _) rfl _ .refl _ (.head _)
  have hmarked := hsafe.marked rfl _ (.tail _ (.head _)) rfl
  cases hmarked

end ModernC.Mir.Irq
