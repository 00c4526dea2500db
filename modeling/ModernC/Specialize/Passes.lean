import ModernC.Specialize.Linkage
import ModernC.Specialize.Transform
import ModernC.Specialize.Uses

/-!
# What the passes put out

Each pass puts clones out one after another and registers the uses they note.  Pass 1 puts out
the declarations that are not generic, pass 2a all instances of functions there are when it ends,
and pass 2b all instances of structs and unions.
-/

namespace ModernC.Specialize

open ModernC.Framework ModernC.Framework.Logged ModernC.Syntax

/-! ## Registration -/

/-- What holds of the registered instances at every point of a run. -/
structure WellRegistered (limits : Limits) (names : List String) (rw : Rewriter) : Prop where
  recorded : Recorded names rw
  once : ∀ kind, ((rw.instancesOf kind).map fun inst => inst.key).Nodup
  bounded : rw.count ≤ limits.maxInstances

lemma wellRegistered_empty (limits : Limits) (names : List String) :
    WellRegistered limits names Rewriter.empty where
  recorded := recorded_empty names
  once kind := by cases kind <;> exact List.nodup_nil
  bounded := Nat.zero_le _

variable {limits : Limits} {names : List String} {currentDepth : ℕ} {rw rw' : Rewriter} {use : Use}
  {holds : Use → Prop} {options : Options} {run run' : Run} {clone : Clone Decl}

lemma isPrefix_register (h : register limits names currentDepth rw use = .ok rw')
    (kind : InstantiationKind) : rw.instancesOf kind <+: rw'.instancesOf kind := by
  obtain ⟨-, heq⟩ | ⟨-, -, -, -, -, -, heq⟩ := register_eq_ok h
  · rw [heq]
  · rw [heq, instancesOf_append]
    split
    · exact List.prefix_append _ _
    · exact List.prefix_rfl

lemma wellRegistered_register (hrw : WellRegistered limits names rw)
    (h : register limits names currentDepth rw use = .ok rw') :
    WellRegistered limits names rw' := by
  refine ⟨recorded_register hrw.recorded h, ?_, ?_⟩
  · intro kind
    obtain ⟨-, heq⟩ | ⟨hnew, -, -, -, -, -, heq⟩ := register_eq_ok h
    · rw [heq]
      exact hrw.once kind
    · rw [heq, instancesOf_append]
      split
      · rename_i hkind
        rw [List.map_append, List.nodup_append_comm, List.map_singleton, List.singleton_append,
          List.nodup_cons]
        refine ⟨?_, hrw.once kind⟩
        intro hmem
        obtain ⟨inst, hinst, hkey⟩ := List.mem_map.mp hmem
        rw [Rewriter.contains, List.any_eq_false] at hnew
        rw [hkind] at hinst
        exact hnew inst hinst (decide_eq_true hkey)
      · exact hrw.once kind
  · obtain ⟨-, heq⟩ | ⟨-, -, hcount, -, -, -, heq⟩ := register_eq_ok h
    · rw [heq]
      exact hrw.bounded
    · rw [heq, count_append]
      exact hcount

lemma instance_of_register (h : register limits names currentDepth rw use = .ok rw')
    {kind : InstantiationKind} {inst : Instance} (hinst : inst ∈ rw'.instancesOf kind) :
    inst ∈ rw.instancesOf kind ∨ inst.toUse = use := by
  obtain ⟨-, heq⟩ | ⟨-, -, -, -, -, -, heq⟩ := register_eq_ok h
  · rw [heq] at hinst
    exact Or.inl hinst
  · rw [heq, mem_instancesOf_append] at hinst
    rcases hinst with hinst | ⟨rfl, -⟩
    · exact Or.inl hinst
    · exact Or.inr rfl

/-- **A run of registrations** keeps what was registered, registers the uses and nothing else. -/
lemma registerAll_spec {uses : List (ℕ × Use)} (hrw : WellRegistered limits names rw)
    (h : registerAll limits names rw uses = .ok rw') :
    WellRegistered limits names rw' ∧
      (∀ kind, rw.instancesOf kind <+: rw'.instancesOf kind) ∧
      ∀ kind, ∀ inst ∈ rw'.instancesOf kind,
        inst ∈ rw.instancesOf kind ∨ ∃ entry ∈ uses, inst.toUse = entry.2 := by
  induction uses generalizing rw with
  | nil =>
    have heq : rw = rw' := Except.ok.inj h
    subst heq
    exact ⟨hrw, fun kind => List.prefix_rfl, fun kind inst hinst => Or.inl hinst⟩
  | cons entry uses ih =>
    obtain ⟨currentDepth, use⟩ := entry
    obtain ⟨next, hnext, hrest⟩ := exceptBind_eq_ok.mp h
    obtain ⟨hrw', hkeeps, hnew⟩ := ih (wellRegistered_register hrw hnext) hrest
    refine ⟨hrw', fun kind => (isPrefix_register hnext kind).trans (hkeeps kind), ?_⟩
    intro kind inst hinst
    rcases hnew kind inst hinst with hinst | ⟨entry, hentry, huse⟩
    · rcases instance_of_register hnext hinst with hinst | huse
      · exact Or.inl hinst
      · exact Or.inr ⟨_, List.mem_cons_self, huse⟩
    · exact Or.inr ⟨entry, List.mem_cons_of_mem _ hentry, huse⟩

/-! ## Putting a clone out -/

/-- What holds of a run: the uses noted so far have the property, each is registered, and the
instances are noted uses. -/
structure RunSound (options : Options) (holds : Use → Prop) (run : Run) : Prop where
  noted : ∀ use ∈ usesOf run.events, holds use
  registered : ∀ use ∈ usesOf run.events, ∃ inst ∈ run.rw.instancesOf use.kind, inst.toUse = use
  instances : ∀ kind, ∀ inst ∈ run.rw.instancesOf kind, inst.toUse ∈ usesOf run.events
  rewriter : WellRegistered options.limits options.names run.rw

lemma usesOf_append (events events' : List CloneEvent) :
    usesOf (events ++ events') = usesOf events ++ usesOf events' :=
  List.filterMap_append

/-- Uses with the property are determined by their kind and key. -/
def Determined (program : Program) (holds : Use → Prop) : Prop :=
  ∀ use, holds use → useOf program use.kind use.key = some use

lemma Determined.eq {program : Program} (h : Determined program holds)
    {use' : Use} (huse : holds use) (huse' : holds use') (hkind : use.kind = use'.kind)
    (hkey : use.key = use'.key) : use = use' := by
  have heq := h use huse
  rw [hkind, hkey, h use' huse'] at heq
  exact (Option.some.inj heq).symm

lemma emit_eq_ok {depth : ℕ} (h : run.emit options depth clone = .ok run') :
    ∃ rw, registerAll options.limits options.names run.rw
        ((usesOf clone.log).map fun use => (depth, use)) = .ok rw ∧
      run' = { rw, out := run.out ++ [clone.value], events := run.events ++ clone.log } := by
  obtain ⟨rw, hrw, hrun⟩ := exceptBind_eq_ok.mp h
  refine ⟨rw, ?_, (Except.ok.inj hrun).symm⟩
  cases hregister : registerAll options.limits options.names run.rw
      ((usesOf clone.log).map fun use => (depth, use)) with
  | error failure =>
    rw [hregister] at hrw
    exact absurd hrw (by rintro ⟨⟩)
  | ok rw' =>
    rw [hregister] at hrw
    exact congrArg Except.ok (Except.ok.inj hrw)

/-- **One clone.** -/
lemma RunSound.emit {depth : ℕ} (hdetermined : Determined options.program holds)
    (hrun : RunSound options holds run) (hclone : ∀ use ∈ usesOf clone.log, holds use)
    (h : run.emit options depth clone = .ok run') :
    RunSound options holds run' ∧ (∀ kind, run.rw.instancesOf kind <+: run'.rw.instancesOf kind) ∧
      run'.out = run.out ++ [clone.value] ∧ run'.events = run.events ++ clone.log := by
  obtain ⟨rw, hregister, rfl⟩ := emit_eq_ok h
  obtain ⟨hrw, hkeeps, hnew⟩ := registerAll_spec hrun.rewriter hregister
  have hnoted : ∀ use ∈ usesOf (run.events ++ clone.log), holds use := by
    rw [usesOf_append, List.forall_mem_append]
    exact ⟨hrun.noted, hclone⟩
  have hinstances : ∀ kind, ∀ inst ∈ rw.instancesOf kind,
      inst.toUse ∈ usesOf (run.events ++ clone.log) := by
    intro kind inst hinst
    rw [usesOf_append, List.mem_append]
    rcases hnew kind inst hinst with hinst | ⟨entry, hentry, huse⟩
    · exact Or.inl (hrun.instances kind inst hinst)
    · obtain ⟨use, hmem, rfl⟩ := List.mem_map.mp hentry
      exact Or.inr (huse ▸ hmem)
  refine ⟨⟨hnoted, ?_, hinstances, hrw⟩, hkeeps, rfl, rfl⟩
  intro use huse
  -- an instance with the kind and the key of the use is the instance of the use
  obtain ⟨inst, hinst, hkey⟩ : ∃ inst ∈ rw.instancesOf use.kind, inst.key = use.key := by
    rw [exists_instance_registerAll hregister]
    rw [usesOf_append, List.mem_append] at huse
    rcases huse with huse | huse
    · obtain ⟨inst, hinst, heq⟩ := hrun.registered use huse
      exact Or.inl ⟨inst, hinst, by rw [← heq]⟩
    · exact Or.inr ⟨(depth, use), List.mem_map.mpr ⟨use, huse, rfl⟩, rfl, rfl⟩
  refine ⟨inst, hinst, ?_⟩
  exact hdetermined.eq (hnoted _ (hinstances _ inst hinst)) (hnoted _ huse)
    (hrw.recorded _ inst hinst).1 hkey

/-! ## The passes -/

/-- The declarations that pass 1 clones. -/
def keptDecls (program : Program) (decls : List Decl) : List Decl :=
  decls.filter fun decl => !isDropped program decl

/-- The declarations that the instances stand for. -/
def specialized (program : Program) (insts : List Instance) : List (Clone Decl) :=
  insts.map fun inst => specialize program inst.toUse

/-- The run has put the clones out, in order. -/
structure PutOut (run run' : Run) (clones : List (Clone Decl)) : Prop where
  out : run'.out = run.out ++ clones.map value
  events : run'.events = run.events ++ clones.flatMap log

lemma PutOut.nil (run : Run) : PutOut run run [] :=
  ⟨(List.append_nil _).symm, (List.append_nil _).symm⟩

lemma PutOut.cons {next : Run} {clones : List (Clone Decl)}
    (hout : next.out = run.out ++ [clone.value]) (hevents : next.events = run.events ++ clone.log)
    (h : PutOut next run' clones) : PutOut run run' (clone :: clones) := by
  constructor
  · rw [h.out, hout, List.append_assoc]
    rfl
  · rw [h.events, hevents, List.append_assoc]
    rfl

/-- The loop ends when no instance of the kind is left. -/
lemma specializeKind_done {kind : InstantiationKind}
    {fuel index index' : ℕ} (hrun : RunSound options holds run)
    (hindex : index ≤ (run.rw.instancesOf kind).length)
    (hinst : (run.rw.instancesOf kind)[index]? = none)
    (h : specializeKind options kind fuel index run = .ok (index', run')) :
    RunSound options holds run' ∧ index' = (run'.rw.instancesOf kind).length ∧
      (∀ other, run.rw.instancesOf other <+: run'.rw.instancesOf other) ∧
      PutOut run run' (specialized options.program ((run'.rw.instancesOf kind).drop index)) := by
  have heq : (index, run) = (index', run') := by
    cases fuel <;> rw [specializeKind, hinst] at h <;> exact Except.ok.inj h
  obtain ⟨hindex', hrun'⟩ := Prod.mk.inj heq
  have hlength : index = (run.rw.instancesOf kind).length :=
    le_antisymm hindex (List.getElem?_eq_none_iff.mp hinst)
  rw [← hrun', ← hindex', List.drop_of_length_le hlength.ge]
  exact ⟨hrun, hlength, fun other => List.prefix_rfl, PutOut.nil run⟩

lemma PutOut.trans {next : Run} {clones clones' : List (Clone Decl)}
    (h : PutOut run next clones) (h' : PutOut next run' clones') :
    PutOut run run' (clones ++ clones') := by
  constructor
  · rw [h'.out, h.out, List.append_assoc, List.map_append]
  · rw [h'.events, h.events, List.append_assoc, List.flatMap_append]

lemma drop_of_prefix {α : Type} {xs ys : List α} (h : xs <+: ys) {index : ℕ}
    (hindex : index ≤ xs.length) : ys.drop index = xs.drop index ++ ys.drop xs.length := by
  obtain ⟨zs, rfl⟩ := h
  rw [List.drop_append_of_le_length hindex, List.drop_left]

lemma specialized_append (program : Program) (insts insts' : List Instance) :
    specialized program (insts ++ insts') = specialized program insts ++ specialized program insts' :=
  List.map_append

section

variable {options : Options} {holds : Use → Prop}
  (hdetermined : Determined options.program holds)

include hdetermined

/-- **Pass 1.** -/
lemma cloneDecls_spec {decls : List Decl} (hrun : RunSound options holds run)
    (hclones : ∀ decl ∈ keptDecls options.program decls,
      ∀ use ∈ usesOf (cloneDecl options.program decl).log, holds use)
    (h : cloneDecls options run decls = .ok run') :
    RunSound options holds run' ∧
      PutOut run run' ((keptDecls options.program decls).map (cloneDecl options.program)) := by
  induction decls generalizing run with
  | nil =>
    have heq : run = run' := Except.ok.inj h
    subst heq
    exact ⟨hrun, PutOut.nil run⟩
  | cons decl decls ih =>
    rw [cloneDecls] at h
    by_cases hdropped : isDropped options.program decl = true
    · have hkept : keptDecls options.program (decl :: decls) =
          keptDecls options.program decls := by
        rw [keptDecls, List.filter_cons_of_neg (by rw [hdropped]; decide)]
        rfl
      rw [if_pos hdropped] at h
      rw [hkept] at hclones ⊢
      exact ih hrun hclones h
    · have hkept : keptDecls options.program (decl :: decls) =
          decl :: keptDecls options.program decls := by
        rw [keptDecls, List.filter_cons_of_pos (by rw [eq_false_of_ne_true hdropped]; rfl)]
        rfl
      rw [if_neg hdropped] at h
      rw [hkept, List.forall_mem_cons] at hclones
      obtain ⟨next, hnext, hrest⟩ := exceptBind_eq_ok.mp h
      obtain ⟨hsound, -, hout, hevents⟩ := hrun.emit hdetermined hclones.1 hnext
      obtain ⟨hsound', hputOut⟩ := ih hsound hclones.2 hrest
      rw [hkept]
      exact ⟨hsound', hputOut.cons hout hevents⟩

variable {kind : InstantiationKind} {fuel : ℕ}

/-- **Pass 2a, and the loops of pass 2b.** All instances of the kind from the index on are put
out, those that are registered on the way included. -/
lemma specializeKind_spec (hclosed : ∀ parent, holds parent → parent.kind = kind →
      ∀ use ∈ usesOf (specialize options.program parent).log, holds use)
    {index index' : ℕ} (hrun : RunSound options holds run)
    (hindex : index ≤ (run.rw.instancesOf kind).length)
    (h : specializeKind options kind fuel index run = .ok (index', run')) :
    RunSound options holds run' ∧ index' = (run'.rw.instancesOf kind).length ∧
      (∀ other, run.rw.instancesOf other <+: run'.rw.instancesOf other) ∧
      PutOut run run' (specialized options.program ((run'.rw.instancesOf kind).drop index)) := by
  induction fuel generalizing index run with
  | zero =>
    cases hinst : (run.rw.instancesOf kind)[index]? with
    | none => exact specializeKind_done hrun hindex hinst h
    | some inst =>
      rw [specializeKind, hinst] at h
      exact absurd h (by rintro ⟨⟩)
  | succ fuel ih =>
    cases hinst : (run.rw.instancesOf kind)[index]? with
    | none => exact specializeKind_done hrun hindex hinst h
    | some inst =>
      rw [specializeKind, hinst] at h
      obtain ⟨next, hnext, hrest⟩ := exceptBind_eq_ok.mp h
      have hmem : inst ∈ run.rw.instancesOf kind := List.mem_of_getElem? hinst
      have hnotes := hclosed inst.toUse (hrun.noted _ (hrun.instances kind inst hmem))
        (hrun.rewriter.recorded kind inst hmem).1
      obtain ⟨hsound, hkeeps, hout, hevents⟩ := hrun.emit hdetermined hnotes hnext
      have hlt : index < (run.rw.instancesOf kind).length :=
        (List.getElem?_eq_some_iff.mp hinst).1
      obtain ⟨hsound', hlength, hkeeps', hputOut⟩ :=
        ih hsound (Nat.succ_le_of_lt (hlt.trans_le (hkeeps kind).length_le)) hrest
      refine ⟨hsound', hlength, fun other => (hkeeps other).trans (hkeeps' other), ?_⟩
      have hinst' : (run'.rw.instancesOf kind)[index]? = some inst := by
        obtain ⟨later, hlater⟩ := (hkeeps kind).trans (hkeeps' kind)
        rw [← hlater, List.getElem?_append_left hlt]
        exact hinst
      obtain ⟨hlt', hget⟩ := List.getElem?_eq_some_iff.mp hinst'
      rw [List.drop_eq_getElem_cons hlt', hget]
      exact hputOut.cons hout hevents

omit hdetermined in
/-- Uses that are closed under the types are closed under those of one kind. -/
lemma closed_kind (hclosed : ∀ parent, holds parent → parent.kind ≠ .function →
      ∀ use ∈ usesOf (specialize options.program parent).log, holds use)
    (hkind : kind ≠ .function) : ∀ parent, holds parent → parent.kind = kind →
      ∀ use ∈ usesOf (specialize options.program parent).log, holds use :=
  fun parent hparent heq => hclosed parent hparent (heq ▸ hkind)

/-- **Pass 2b.** All instances of structs and unions are put out, in some order. -/
lemma specializeTypes_spec (hclosed : ∀ parent, holds parent → parent.kind ≠ .function →
      ∀ use ∈ usesOf (specialize options.program parent).log, holds use)
    {turns si ui : ℕ} (hrun : RunSound options holds run)
    (hsi : si ≤ run.rw.structInstances.length) (hui : ui ≤ run.rw.unionInstances.length)
    (h : specializeTypes options turns fuel si ui run = .ok run') :
    RunSound options holds run' ∧
      (∀ other, run.rw.instancesOf other <+: run'.rw.instancesOf other) ∧
      ∃ clones, PutOut run run' clones ∧
        clones.Perm (specialized options.program (run'.rw.structInstances.drop si) ++
          specialized options.program (run'.rw.unionInstances.drop ui)) := by
  induction fuel generalizing si ui run with
  | zero =>
    rw [specializeTypes] at h
    split at h
    · exact absurd h (by rintro ⟨⟩)
    · rename_i hdone
      obtain rfl : run = run' := Except.ok.inj h
      rw [List.drop_of_length_le (by omega), List.drop_of_length_le (by omega)]
      exact ⟨hrun, fun other => List.prefix_rfl, [], PutOut.nil run, List.Perm.refl _⟩
  | succ fuel ih =>
    rw [specializeTypes] at h
    split at h
    · obtain ⟨⟨si', structs⟩, hstructs, h⟩ := exceptBind_eq_ok.mp h
      obtain ⟨⟨ui', unions⟩, hunions, h⟩ := exceptBind_eq_ok.mp h
      obtain ⟨hsound, rfl, hkeeps, hputOut⟩ :=
        specializeKind_spec hdetermined (closed_kind hclosed (by decide)) hrun hsi hstructs
      obtain ⟨hsound', rfl, hkeeps', hputOut'⟩ :=
        specializeKind_spec hdetermined (closed_kind hclosed (by decide)) hsound
          (hui.trans (hkeeps .union).length_le) hunions
      obtain ⟨hsound'', hkeeps'', clones, hclones, hperm⟩ :=
        ih hsound' (hkeeps' .struct).length_le (le_refl _) h
      refine ⟨hsound'', fun other =>
        ((hkeeps other).trans (hkeeps' other)).trans (hkeeps'' other), _,
        (hputOut.trans hputOut').trans hclones, ?_⟩
      have hstruct : run'.rw.structInstances.drop si =
          structs.rw.structInstances.drop si ++
            run'.rw.structInstances.drop structs.rw.structInstances.length :=
        drop_of_prefix ((hkeeps' .struct).trans (hkeeps'' .struct))
          (hsi.trans (hkeeps .struct).length_le)
      have hunion : run'.rw.unionInstances.drop ui =
          unions.rw.unionInstances.drop ui ++
            run'.rw.unionInstances.drop unions.rw.unionInstances.length :=
        drop_of_prefix (hkeeps'' .union)
          (hui.trans ((hkeeps .union).trans (hkeeps' .union)).length_le)
      rw [hstruct, hunion, specialized_append, specialized_append]
      refine (hperm.append_left _).trans ?_
      simp only [List.append_assoc]
      refine List.Perm.append_left _ ?_
      rw [← List.append_assoc, ← List.append_assoc]
      exact List.Perm.append_right _ List.perm_append_comm
    · rename_i hdone
      obtain rfl : run = run' := Except.ok.inj h
      rw [List.drop_of_length_le (by omega), List.drop_of_length_le (by omega)]
      exact ⟨hrun, fun other => List.prefix_rfl, [], PutOut.nil run, List.Perm.refl _⟩

/-! ## Termination -/

omit hdetermined in
lemma emit_ne_outOfFuel (depth : ℕ) (run : Run) (clone : Clone Decl) :
    run.emit options depth clone ≠ .error .outOfFuel := by
  rw [Run.emit]
  cases registerAll options.limits options.names run.rw
    ((usesOf clone.log).map fun use => (depth, use)) <;> rintro ⟨⟩

omit hdetermined in
lemma cloneDecls_ne_outOfFuel (run : Run) (decls : List Decl) :
    cloneDecls options run decls ≠ .error .outOfFuel := by
  induction decls generalizing run with
  | nil => rintro ⟨⟩
  | cons decl decls ih =>
    rw [cloneDecls]
    split
    · exact ih run
    · intro h
      cases hemit : run.emit options 0 (cloneDecl options.program decl) with
      | error stop =>
        rw [hemit] at h
        have hstop : stop = .outOfFuel := Except.error.inj h
        exact emit_ne_outOfFuel _ _ _ (hstop ▸ hemit)
      | ok next =>
        rw [hemit] at h
        exact ih next h

omit hdetermined in
lemma length_instancesOf_le (rw : Rewriter) (kind : InstantiationKind) :
    (rw.instancesOf kind).length ≤ rw.count := by
  rw [Rewriter.count]
  cases kind <;> simp only [Rewriter.instancesOf] <;> omega

/-- The number of instances is limited, so is the number of turns. -/
lemma specializeKind_ne_outOfFuel (hclosed : ∀ parent, holds parent → parent.kind = kind →
      ∀ use ∈ usesOf (specialize options.program parent).log, holds use)
    {index : ℕ} (hrun : RunSound options holds run)
    (hfuel : options.limits.maxInstances ≤ index + fuel) :
    specializeKind options kind fuel index run ≠ .error .outOfFuel := by
  induction fuel generalizing index run with
  | zero =>
    rw [specializeKind]
    split
    · rintro ⟨⟩
    · rename_i inst hinst
      have hlt := (List.getElem?_eq_some_iff.mp hinst).1
      have hle := length_instancesOf_le run.rw kind
      have hbounded := hrun.rewriter.bounded
      omega
  | succ fuel ih =>
    rw [specializeKind]
    split
    · rintro ⟨⟩
    · rename_i inst hinst
      intro h
      cases hemit : run.emit options inst.depth (specialize options.program inst.toUse) with
      | error stop =>
        rw [hemit] at h
        have hstop : stop = .outOfFuel := Except.error.inj h
        exact emit_ne_outOfFuel _ _ _ (hstop ▸ hemit)
      | ok next =>
        rw [hemit] at h
        have hmem : inst ∈ run.rw.instancesOf kind := List.mem_of_getElem? hinst
        have hnotes := hclosed inst.toUse (hrun.noted _ (hrun.instances kind inst hmem))
          (hrun.rewriter.recorded kind inst hmem).1
        exact ih (hrun.emit hdetermined hnotes hemit).1 (by omega) h

lemma specializeTypes_ne_outOfFuel (hclosed : ∀ parent, holds parent → parent.kind ≠ .function →
      ∀ use ∈ usesOf (specialize options.program parent).log, holds use)
    {turns si ui : ℕ} (hrun : RunSound options holds run)
    (hsi : si ≤ run.rw.structInstances.length) (hui : ui ≤ run.rw.unionInstances.length)
    (hturns : options.limits.maxInstances ≤ turns)
    (hfuel : options.limits.maxInstances ≤ si + ui + fuel) :
    specializeTypes options turns fuel si ui run ≠ .error .outOfFuel := by
  induction fuel generalizing si ui run with
  | zero =>
    rw [specializeTypes]
    split
    · have hcount : run.rw.structInstances.length + run.rw.unionInstances.length ≤ run.rw.count :=
        Nat.add_le_add_right (Nat.le_add_left _ _) _
      have hbounded := hrun.rewriter.bounded
      omega
    · rintro ⟨⟩
  | succ fuel ih =>
    rw [specializeTypes]
    split
    · rename_i hleft
      intro h
      cases hstructs : specializeKind options .struct turns si run with
      | error stop =>
        rw [hstructs] at h
        have hstop : stop = .outOfFuel := Except.error.inj h
        exact specializeKind_ne_outOfFuel hdetermined (closed_kind hclosed (by decide)) hrun
          (hturns.trans (Nat.le_add_left _ _)) (hstop ▸ hstructs)
      | ok afterStructs =>
        obtain ⟨si', structs⟩ := afterStructs
        rw [hstructs] at h
        obtain ⟨hsound, hsi', hkeeps, -⟩ :=
          specializeKind_spec hdetermined (closed_kind hclosed (by decide)) hrun hsi hstructs
        have hstructsLe := (hkeeps .struct).length_le
        have hunionsLe := (hkeeps .union).length_le
        cases hunions : specializeKind options .union turns ui structs with
        | error stop =>
          simp only [bind, Except.bind, hunions] at h
          have hstop : stop = .outOfFuel := Except.error.inj h
          exact specializeKind_ne_outOfFuel hdetermined (closed_kind hclosed (by decide)) hsound
            (hturns.trans (Nat.le_add_left _ _)) (hstop ▸ hunions)
        | ok afterUnions =>
          obtain ⟨ui', unions⟩ := afterUnions
          simp only [bind, Except.bind, hunions] at h
          obtain ⟨hsound', hui', hkeeps', -⟩ :=
            specializeKind_spec hdetermined (closed_kind hclosed (by decide)) hsound
              (hui.trans hunionsLe) hunions
          have hstructsLe' := (hkeeps' .struct).length_le
          have hunionsLe' := (hkeeps' .union).length_le
          simp only [Rewriter.instancesOf] at hsi' hui' hstructsLe hunionsLe hstructsLe' hunionsLe'
          -- at least one more instance has been put out
          exact ih hsound' (by omega) (by omega) (by omega) h
    · rintro ⟨⟩

end

end ModernC.Specialize
