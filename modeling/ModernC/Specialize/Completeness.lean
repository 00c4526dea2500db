import ModernC.Specialize.Collection
import ModernC.Specialize.Passes

/-!
# Which uses are noted and which instances are put out

The uses that a run notes are those reached from the declarations that are not generic, through
the instances that are put out.  Pass 2a follows instances of functions only, and pass 2b, which
follows instances of structs and unions, does not go back to it: an instance of a function that
is noted first in pass 2b is registered but not put out.
-/

namespace ModernC.Specialize

open ModernC.Framework ModernC.Framework.Logged ModernC.Syntax

/-! ## Reached uses -/

/-- The uses in declarations that are not generic, in the instances of functions these use, and
so on. -/
inductive ReachedByFunctions (program : Program) (decls : List Decl) : Use → Prop where
  | kept {decl : Decl} {use : Use} (hdecl : decl ∈ keptDecls program decls)
      (huse : use ∈ usesOf (cloneDecl program decl).log) : ReachedByFunctions program decls use
  | inFunction {parent use : Use} (hparent : ReachedByFunctions program decls parent)
      (hkind : parent.kind = .function) (huse : use ∈ usesOf (specialize program parent).log) :
      ReachedByFunctions program decls use

/-- The uses reached by functions, those in the instances of structs and unions these use, and
so on. -/
inductive Reached (program : Program) (decls : List Decl) : Use → Prop where
  | byFunctions {use : Use} (huse : ReachedByFunctions program decls use) :
      Reached program decls use
  | inType {parent use : Use} (hparent : Reached program decls parent)
      (hkind : parent.kind ≠ .function) (huse : use ∈ usesOf (specialize program parent).log) :
      Reached program decls use

/-- The uses whose instances are put out. -/
def PutsOut (program : Program) (decls : List Decl) (use : Use) : Prop :=
  if use.kind = .function then ReachedByFunctions program decls use
  else Reached program decls use

lemma mem_usesOf {use : Use} {events : List CloneEvent} :
    use ∈ usesOf events ↔ .use use ∈ events := by
  simp only [usesOf, List.mem_filterMap]
  constructor
  · rintro ⟨event, hevent, huse⟩
    cases event with
    | use noted => exact Option.some.inj huse ▸ hevent
    | traitNotSatisfied concrete bound => exact absurd huse (Option.some_ne_none _).symm
  · intro huse
    exact ⟨_, huse, rfl⟩

section

variable {program : Program} {names : List String} (hprogram : Coherent program names)

include hprogram

lemma notes_cloneStructDecl (subst : Subst) (decl : StructDecl) :
    Notes (Canonical program) (cloneStructDecl program subst decl) := by
  simp only [cloneStructDecl, notes_bind, notes_pure, and_true]
  exact notes_walkStruct (notesOnly_cloneWalk hprogram subst) decl

lemma notes_cloneDecl (decl : Decl) : Notes (Canonical program) (cloneDecl program decl) := by
  have hwalk := notesOnly_cloneWalk hprogram []
  rw [cloneDecl]
  split
  · simp only [notes_bind, notes_pure, and_true]
    exact ⟨notes_walkAttrs hwalk _ _, notes_walkFnSignature hwalk _⟩
  · simp only [notes_bind, notes_pure, and_true]
    exact ⟨notes_walkAttrs hwalk _ _, notes_cloneStructDecl hprogram _ _⟩
  · exact notes_walkDecl hwalk decl

lemma notes_specialize (use : Use) : Notes (Canonical program) (specialize program use) := by
  have hwalk := notesOnly_cloneWalk hprogram use.subst
  rw [specialize]
  split
  · simp only [specializeFn, notes_bind, notes_pure, and_true]
    exact ⟨notes_walkFn hwalk _, notes_walkAttrs hwalk _ _⟩
  · simp only [specializeStruct, notes_bind, notes_pure, and_true]
    exact ⟨notes_cloneStructDecl hprogram _ _, notes_walkAttrs hwalk _ _⟩
  · simp only [specializeUnion, notes_bind, notes_pure, and_true]
    exact ⟨notes_walkUnion hwalk _, notes_walkAttrs hwalk _ _⟩

lemma determined_reachedByFunctions (decls : List Decl) :
    Determined program (ReachedByFunctions program decls) := by
  intro use huse
  cases huse with
  | kept hdecl huse => exact notes_cloneDecl hprogram _ _ (mem_usesOf.mp huse)
  | inFunction hparent hkind huse => exact notes_specialize hprogram _ _ (mem_usesOf.mp huse)

lemma determined_reached (decls : List Decl) : Determined program (Reached program decls) := by
  intro use huse
  cases huse with
  | byFunctions huse => exact determined_reachedByFunctions hprogram decls use huse
  | inType hparent hkind huse => exact notes_specialize hprogram _ _ (mem_usesOf.mp huse)

end

/-! ## A run that succeeds -/

variable {run : Run}

lemma RunSound.mono {options : Options} {holds holds' : Use → Prop}
    (hmono : ∀ use, holds use → holds' use) (h : RunSound options holds run) :
    RunSound options holds' run where
  noted use huse := hmono use (h.noted use huse)
  registered := h.registered
  instances := h.instances
  rewriter := h.rewriter

/-- The instances of a kind are the noted uses of that kind. -/
lemma RunSound.mem_instances {options : Options} {holds : Use → Prop}
    (h : RunSound options holds run) (kind : InstantiationKind) (use : Use) :
    use ∈ (run.rw.instancesOf kind).map Instance.toUse ↔
      use.kind = kind ∧ use ∈ usesOf run.events := by
  rw [List.mem_map]
  constructor
  · rintro ⟨inst, hinst, rfl⟩
    exact ⟨(h.rewriter.recorded kind inst hinst).1, h.instances kind inst hinst⟩
  · rintro ⟨rfl, huse⟩
    exact h.registered use huse

lemma nodup_instances {limits : Limits} {names : List String} {rw : Rewriter}
    (h : WellRegistered limits names rw) (kind : InstantiationKind) :
    ((rw.instancesOf kind).map Instance.toUse).Nodup := by
  apply List.Nodup.of_map Use.key
  rw [List.map_map]
  exact h.once kind

lemma PutOut.mem_usesOf {run' : Run} {clones : List (Clone Decl)} (h : PutOut run run' clones)
    {use : Use} : use ∈ usesOf run'.events ↔
      use ∈ usesOf run.events ∨ ∃ clone ∈ clones, use ∈ usesOf clone.log := by
  simp only [Specialize.mem_usesOf, h.events, List.mem_append, List.mem_flatMap]

/-- What a run that succeeds has done. -/
structure Completed (options : Options) (decls : List Decl) (run : Run) (emitted : List Use) :
    Prop where
  sound : RunSound options (Reached options.program decls) run
  noted : ∀ use, use ∈ usesOf run.events ↔ Reached options.program decls use
  emits : ∀ use, use ∈ emitted ↔ PutsOut options.program decls use
  once : emitted.Nodup
  out : run.out.Perm
    ((keptDecls options.program decls).map (fun decl => (cloneDecl options.program decl).value) ++
      emitted.map fun use => (specialize options.program use).value)

lemma runSound_empty (options : Options) (holds : Use → Prop) :
    RunSound options holds Run.empty where
  noted use huse := absurd huse List.not_mem_nil
  registered use huse := absurd huse List.not_mem_nil
  instances kind inst hinst := by cases kind <;> exact absurd hinst List.not_mem_nil
  rewriter := wellRegistered_empty _ _

section

variable {options : Options} {decls : List Decl}
  (hprogram : Coherent options.program options.names)

include hprogram

variable {kept functions : Run} {fuel index : ℕ}

/-- **Pass 1** notes the uses in the declarations that are not generic. -/
lemma kept_spec (h : cloneDecls options Run.empty decls = .ok kept) :
    RunSound options (ReachedByFunctions options.program decls) kept ∧
      PutOut Run.empty kept
        ((keptDecls options.program decls).map (cloneDecl options.program)) := by
  apply cloneDecls_spec (determined_reachedByFunctions hprogram decls) (runSound_empty _ _) _ h
  intro decl hdecl use huse
  exact ReachedByFunctions.kept hdecl huse

/-- **Pass 2a** notes the uses reached by functions, and puts the functions among them out. -/
lemma functions_spec (hkept : cloneDecls options Run.empty decls = .ok kept)
    (h : specializeKind options .function fuel 0 kept = .ok (index, functions)) :
    RunSound options (ReachedByFunctions options.program decls) functions ∧
      (∀ use, use ∈ usesOf functions.events ↔ ReachedByFunctions options.program decls use) ∧
      PutOut Run.empty functions
        ((keptDecls options.program decls).map (cloneDecl options.program) ++
          specialized options.program functions.rw.instances) := by
  obtain ⟨hsoundKept, hputOutKept⟩ := kept_spec hprogram hkept
  obtain ⟨hsound, -, -, hputOut⟩ :=
    specializeKind_spec (determined_reachedByFunctions hprogram decls)
      (fun parent hparent hkind use huse => ReachedByFunctions.inFunction hparent hkind huse)
      hsoundKept (Nat.zero_le _) h
  refine ⟨hsound, ?_, hputOutKept.trans hputOut⟩
  intro use
  constructor
  · exact hsound.noted use
  · intro hreached
    induction hreached with
    | kept hdecl huse =>
      rw [hputOut.mem_usesOf, hputOutKept.mem_usesOf]
      exact Or.inl (Or.inr ⟨_, List.mem_map_of_mem hdecl, huse⟩)
    | inFunction hparent hkind huse ih =>
      -- the instance of the parent was put out
      rw [hputOut.mem_usesOf]
      obtain ⟨inst, hinst, rfl⟩ := List.mem_map.mp ((hsound.mem_instances .function _).mpr ⟨hkind, ih⟩)
      exact Or.inr ⟨_, List.mem_map_of_mem hinst, huse⟩

/-- **Pass 2b** notes the uses reached, and puts the structs and unions among them out. -/
lemma types_spec {turns fuel' : ℕ} (hkept : cloneDecls options Run.empty decls = .ok kept)
    (hfunctions : specializeKind options .function fuel 0 kept = .ok (index, functions))
    (h : specializeTypes options turns fuel' 0 0 functions = .ok run) :
    RunSound options (Reached options.program decls) run ∧
      (∀ use, use ∈ usesOf run.events ↔ Reached options.program decls use) ∧
      ∃ clones, PutOut functions run clones ∧
        clones.Perm (specialized options.program run.rw.structInstances ++
          specialized options.program run.rw.unionInstances) := by
  obtain ⟨hsoundFunctions, hnoted, hputOutFunctions⟩ := functions_spec hprogram hkept hfunctions
  obtain ⟨hsound, -, clones, hputOut, hperm⟩ :=
    specializeTypes_spec (determined_reached hprogram decls)
      (fun parent hparent hkind use huse => Reached.inType hparent hkind huse)
      (hsoundFunctions.mono fun use huse => Reached.byFunctions huse) (Nat.zero_le _)
      (Nat.zero_le _) h
  refine ⟨hsound, ?_, clones, hputOut, hperm⟩
  intro use
  constructor
  · exact hsound.noted use
  · intro hreached
    induction hreached with
    | byFunctions huse =>
      rw [hputOut.mem_usesOf]
      exact Or.inl ((hnoted _).mpr huse)
    | @inType parent use hparent hkind huse ih =>
      have hmem := (hsound.mem_instances parent.kind parent).mpr ⟨rfl, ih⟩
      obtain ⟨inst, hinst, rfl⟩ := List.mem_map.mp hmem
      rw [hputOut.mem_usesOf]
      refine Or.inr ⟨specialize options.program inst.toUse, ?_, huse⟩
      rw [hperm.mem_iff, List.mem_append]
      cases hinstKind : inst.toUse.kind with
      | function => exact absurd hinstKind hkind
      | struct =>
        rw [hinstKind] at hinst
        exact Or.inl (List.mem_map_of_mem hinst)
      | union =>
        rw [hinstKind] at hinst
        exact Or.inr (List.mem_map_of_mem hinst)

/-- **A run that succeeds** puts out the clones of the declarations that are not generic and,
once each, the instances of the reached structs and unions and of the functions reached by
functions. -/
lemma exists_completed {turns fuel' : ℕ} (hkept : cloneDecls options Run.empty decls = .ok kept)
    (hfunctions : specializeKind options .function fuel 0 kept = .ok (index, functions))
    (h : specializeTypes options turns fuel' 0 0 functions = .ok run) :
    ∃ emitted, Completed options decls run emitted := by
  obtain ⟨hsoundFunctions, hnotedFunctions, hputOutFunctions⟩ :=
    functions_spec hprogram hkept hfunctions
  obtain ⟨hsound, hnoted, clones, hputOut, hperm⟩ := types_spec hprogram hkept hfunctions h
  have hfunction := hsoundFunctions.mem_instances .function
  have hstruct := hsound.mem_instances .struct
  have hunion := hsound.mem_instances .union
  simp only [Rewriter.instancesOf, hnotedFunctions, hnoted] at hfunction hstruct hunion
  refine ⟨functions.rw.instances.map Instance.toUse ++
    (run.rw.structInstances.map Instance.toUse ++ run.rw.unionInstances.map Instance.toUse),
    hsound, hnoted, ?_, ?_, ?_⟩
  · intro use
    rw [List.mem_append, List.mem_append, hfunction, hstruct, hunion, PutsOut]
    cases use.kind <;> simp
  · rw [List.nodup_append', List.nodup_append']
    refine ⟨nodup_instances hsoundFunctions.rewriter .function,
      ⟨nodup_instances hsound.rewriter .struct, nodup_instances hsound.rewriter .union, ?_⟩, ?_⟩
    · intro use huse huse'
      have hkind := ((hstruct use).mp huse).1
      rw [((hunion use).mp huse').1] at hkind
      exact absurd hkind (by decide)
    · intro use huse huse'
      have hkind := ((hfunction use).mp huse).1
      rw [List.mem_append, hstruct, hunion, hkind] at huse'
      rcases huse' with ⟨hkind', -⟩ | ⟨hkind', -⟩
      · exact absurd hkind' (by decide)
      · exact absurd hkind' (by decide)
  · have hvalues := hperm.map value
    rw [hputOut.out, hputOutFunctions.out, List.map_append, List.append_assoc]
    simp only [specialized, Run.empty, List.nil_append, List.append_assoc, List.map_append,
      List.map_map] at hvalues ⊢
    exact (hvalues.append_left _).append_left _

end

end ModernC.Specialize
