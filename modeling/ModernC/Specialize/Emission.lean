import ModernC.Specialize.Completeness

/-!
# Monomorphization is closed

Registration bounds the number of instances, so the passes end.  A run that succeeds leaves no
generic declaration, and each use it rewrote names one declaration it put out, provided that no
instance of a function is reached through a struct or a union only and that no key is used for
instances of two kinds.  The main result is `transformDeclsReportOptions_monomorphized_iff`; as
many rounds as instances are allowed are enough.
-/

namespace ModernC.Specialize

open ModernC.Framework ModernC.Framework.Logged ModernC.Syntax

/-- The declaration has this name. -/
def isNamed (name : String) (decl : Decl) : Bool := decide (sourceDeclName decl = some name)

/-- **The result is closed.** Each rewritten use names one declaration, the specialization for its
arguments; no generic declaration is left, and the limit on instances is kept. -/
structure Monomorphized (program : Program) (limits : Limits) (run : Run) : Prop where
  bounded : run.rw.count ≤ limits.maxInstances
  unique : ∀ use ∈ usesOf run.events,
    run.out.filter (isNamed use.mangled) = [(specialize program use).value]
  concrete : ∀ decl ∈ run.out, isDropped program decl = false

/-- No function is used in instances of structs and unions only. -/
def FunctionsFirst (program : Program) (decls : List Decl) : Prop :=
  ∀ use, Reached program decls use → use.kind = .function → ReachedByFunctions program decls use

/-- Uses of different kinds have different keys. -/
def KindsApart (program : Program) (decls : List Decl) : Prop :=
  ∀ use, Reached program decls use → ∀ use', Reached program decls use' → use.key = use'.key →
    use.kind = use'.kind

/-! ## Names of clones -/

/-- The kind of generic declaration that the declaration can be an instance of. -/
def instanceKind (decl : Decl) : Option InstantiationKind :=
  match decl.kind with
  | .fnDecl _ => some .function
  | .structDecl _ => some .struct
  | .unionDecl _ => some .union
  | _ => none

lemma instanceKind_specialize (program : Program) (use : Use) :
    instanceKind (specialize program use).value = some use.kind := by
  rw [specialize, Use.kind]
  cases use.decl <;> rfl

lemma sourceDeclName_specialize (program : Program) (use : Use) :
    sourceDeclName (specialize program use).value = some use.mangled := by
  rw [specialize]
  cases use.decl <;> rfl

lemma sourceDeclName_cloneDecl (program : Program) (decl : Decl) :
    sourceDeclName (cloneDecl program decl).value = sourceDeclName decl := by
  obtain ⟨fileId, attrs, kind, isPub⟩ := decl
  cases kind <;> rfl

lemma isDropped_cloneDecl (program : Program) (decl : Decl) :
    isDropped program (cloneDecl program decl).value = isDropped program decl := by
  obtain ⟨fileId, attrs, kind, isPub⟩ := decl
  cases kind <;> rfl

/-- An instance has no parameters left and a name that no generic declaration has. -/
lemma isDropped_specialize {program : Program} {names : List String}
    (hprogram : Coherent program names) {use : Use} (hfresh : use.mangled ∉ names) :
    isDropped program (specialize program use).value = false := by
  rw [specialize]
  cases use.decl with
  | function decl =>
    show (program.typeGeneric use.mangled).isSome = false
    rw [Option.isSome_eq_false_iff, Option.isNone_iff_eq_none, Option.eq_none_iff_forall_ne_some]
    intro info hinfo
    exact hfresh (hprogram.functions _ _ hinfo).2
  | struct decl | union decl => rfl

/-! ## Names of uses -/

section

variable {options : Options} {holds : Use → Prop} {run : Run}

lemma RunSound.fresh (h : RunSound options holds run) {use : Use}
    (huse : use ∈ usesOf run.events) : use.mangled ∉ options.names := by
  obtain ⟨inst, hinst, rfl⟩ := h.registered use huse
  exact (h.rewriter.recorded _ inst hinst).2.1

/-- A name belongs to one key. -/
lemma RunSound.key_eq (h : RunSound options holds run) {use use' : Use}
    (huse : use ∈ usesOf run.events) (huse' : use' ∈ usesOf run.events)
    (hname : use.mangled = use'.mangled) : use.key = use'.key := by
  obtain ⟨inst, hinst, rfl⟩ := h.registered use huse
  obtain ⟨inst', hinst', rfl⟩ := h.registered use' huse'
  have hkey := (h.rewriter.recorded _ inst hinst).2.2
  rw [hname, (h.rewriter.recorded _ inst' hinst').2.2] at hkey
  exact (Option.some.inj hkey).symm

end

section

variable {options : Options} {decls : List Decl} {run : Run} {emitted : List Use}
  (hprogram : Coherent options.program options.names)
  (hnames : options.names = sourceNames decls)
  (h : Completed options decls run emitted)

include h hnames

/-- The declarations of a free name are the instances of that name. -/
lemma Completed.named {name : String} (hfresh : name ∉ options.names) :
    (run.out.filter (isNamed name)).Perm
      ((emitted.filter fun use => decide (use.mangled = name)).map
        fun use => (specialize options.program use).value) := by
  have hkept : ((keptDecls options.program decls).map
      fun decl => (cloneDecl options.program decl).value).filter (isNamed name) = [] := by
    rw [List.filter_eq_nil_iff]
    intro clone hclone hname
    obtain ⟨decl, hdecl, rfl⟩ := List.mem_map.mp hclone
    have hdeclName : sourceDeclName decl = some name :=
      (sourceDeclName_cloneDecl _ _).symm.trans (of_decide_eq_true hname)
    apply hfresh
    rw [hnames, mem_sourceNames]
    exact ⟨decl, (List.mem_filter.mp hdecl).1, hdeclName⟩
  have hinstances : (isNamed name ∘ fun use => (specialize options.program use).value) =
      fun use => decide (use.mangled = name) := by
    funext use
    simp only [Function.comp_apply, isNamed, sourceDeclName_specialize, Option.some.injEq]
  have hout := h.out.filter (isNamed name)
  rwa [List.filter_append, hkept, List.nil_append, List.filter_map, hinstances] at hout

include hprogram

omit hnames in
lemma Completed.concrete : ∀ decl ∈ run.out, isDropped options.program decl = false := by
  intro decl hdecl
  rw [h.out.mem_iff, List.mem_append] at hdecl
  rcases hdecl with hdecl | hdecl
  · obtain ⟨source, hsource, rfl⟩ := List.mem_map.mp hdecl
    rw [isDropped_cloneDecl]
    exact Bool.not_eq_true' _ ▸ (List.mem_filter.mp hsource).2
  · obtain ⟨use, huse, rfl⟩ := List.mem_map.mp hdecl
    apply isDropped_specialize hprogram
    apply h.sound.fresh
    rw [h.noted]
    have hputsOut := (h.emits use).mp huse
    rw [PutsOut] at hputsOut
    split at hputsOut
    · exact Reached.byFunctions hputsOut
    · exact hputsOut

lemma Completed.functionsFirst (hclosed : Monomorphized options.program options.limits run) :
    FunctionsFirst options.program decls := by
  intro use huse hkind
  have hnoted := (h.noted use).mpr huse
  have hnamed := h.named hnames (h.sound.fresh hnoted)
  rw [hclosed.unique use hnoted, List.singleton_perm] at hnamed
  -- the declaration put out under this name is an instance of a function
  have hmem : (specialize options.program use).value ∈
      (emitted.filter fun other => decide (other.mangled = use.mangled)).map
        fun other => (specialize options.program other).value := by
    rw [← hnamed]
    exact List.mem_singleton_self _
  obtain ⟨other, hother, hvalue⟩ := List.mem_map.mp hmem
  obtain ⟨hemitted, hname⟩ := List.mem_filter.mp hother
  have hotherKind : other.kind = use.kind := by
    have hkinds := congrArg instanceKind hvalue
    rw [instanceKind_specialize, instanceKind_specialize] at hkinds
    exact Option.some.inj hkinds
  have hputsOut := (h.emits other).mp hemitted
  rw [PutsOut, if_pos (hotherKind.trans hkind)] at hputsOut
  have hotherReached : Reached options.program decls other := Reached.byFunctions hputsOut
  have hkey := h.sound.key_eq ((h.noted other).mpr hotherReached) hnoted (of_decide_eq_true hname)
  rwa [(determined_reached hprogram decls).eq hotherReached huse hotherKind hkey] at hputsOut

omit hprogram hnames in
lemma Completed.kindsApart (hclosed : Monomorphized options.program options.limits run) :
    KindsApart options.program decls := by
  intro use huse use' huse' hkey
  have hvalue := hclosed.unique use ((h.noted use).mpr huse)
  rw [Use.mangled_eq_of_key_eq hkey, hclosed.unique use' ((h.noted use').mpr huse'),
    List.singleton_inj] at hvalue
  have hkinds := congrArg instanceKind hvalue
  rw [instanceKind_specialize, instanceKind_specialize] at hkinds
  exact (Option.some.inj hkinds).symm

lemma Completed.unique (hfunctions : FunctionsFirst options.program decls)
    (hkinds : KindsApart options.program decls) {use : Use} (huse : use ∈ usesOf run.events) :
    run.out.filter (isNamed use.mangled) = [(specialize options.program use).value] := by
  have hreached := (h.noted use).mp huse
  have hinstances : (emitted.filter fun other => decide (other.mangled = use.mangled)).Perm
      [use] := by
    rw [List.perm_ext_iff_of_nodup (h.once.filter _) (List.nodup_singleton use)]
    intro other
    rw [List.mem_filter, List.mem_singleton, decide_eq_true_iff, h.emits, PutsOut]
    constructor
    · rintro ⟨hputsOut, hname⟩
      have hother : Reached options.program decls other := by
        split at hputsOut
        · exact Reached.byFunctions hputsOut
        · exact hputsOut
      have hkey := h.sound.key_eq ((h.noted other).mpr hother) huse hname
      exact (determined_reached hprogram decls).eq hother hreached
        (hkinds other hother use hreached hkey) hkey
    · rintro rfl
      refine ⟨?_, rfl⟩
      split
      · rename_i hkind
        exact hfunctions other hreached hkind
      · exact hreached
  have hnamed := (h.named hnames (h.sound.fresh huse)).trans (hinstances.map _)
  exact List.perm_singleton.mp hnamed

lemma Completed.monomorphized_iff :
    Monomorphized options.program options.limits run ↔
      FunctionsFirst options.program decls ∧ KindsApart options.program decls := by
  constructor
  · intro hclosed
    exact ⟨h.functionsFirst hprogram hnames hclosed, h.kindsApart hclosed⟩
  · rintro ⟨hfunctions, hkinds⟩
    exact ⟨h.sound.rewriter.bounded, fun use huse => h.unique hprogram hnames hfunctions hkinds huse,
      h.concrete hprogram⟩

end

/-! ## The transform -/

section

variable {fuel : ℕ} {fold : FoldIntConst} {decls : List Decl} {reports : Bool} {limits : Limits}

/-- Without generic declarations there are no uses. -/
lemma not_reached_of_not_any (hgeneric : ¬ decls.any isGenericDecl = true) (use : Use) :
    ¬ Reached (programOf fold decls reports) decls use := by
  intro huse
  have hcanonical := determined_reached (coherent_programOf fold decls reports) decls use huse
  exact hgeneric (any_isGenericDecl_of_useOf hcanonical)

lemma isDropped_of_isGenericDecl_eq_false (hgeneric : ¬ decls.any isGenericDecl = true)
    {decl : Decl} (hdecl : decl ∈ decls) :
    isDropped (programOf fold decls reports) decl = false := by
  have hdeclGeneric : isGenericDecl decl = false := by
    rw [List.any_eq_true] at hgeneric
    exact Bool.eq_false_iff.mpr fun h => hgeneric ⟨decl, hdecl, h⟩
  rw [isDropped]
  rw [isGenericDecl] at hdeclGeneric
  split
  · rename_i node hkind
    rw [Option.isSome_eq_false_iff, Option.isNone_iff_eq_none, Option.eq_none_iff_forall_ne_some]
    intro info hinfo
    obtain ⟨other, hother, hinfo⟩ := exists_of_typeGeneric hinfo
    exact hgeneric (List.any_eq_true.mpr ⟨other, hother, (typeGenericOf_eq_some hinfo).2.2⟩)
  · rename_i node hkind
    rwa [hkind] at hdeclGeneric
  · rename_i node hkind
    rwa [hkind] at hdeclGeneric
  · rfl

/-- **The passes end.** -/
lemma transform_ne_outOfFuel (hfuel : limits.maxInstances ≤ fuel) :
    transformDeclsReportOptions fuel fold decls reports limits ≠ .error .outOfFuel := by
  rw [transformDeclsReportOptions]
  split
  · intro h
    have hprogram := coherent_programOf fold decls reports
    have hoptions : Coherent (optionsOf fold decls reports limits).program
        (optionsOf fold decls reports limits).names := hprogram
    cases hkept : cloneDecls (optionsOf fold decls reports limits) Run.empty decls with
    | error stop =>
      simp only [bind, Except.bind, hkept, Except.error.injEq] at h
      exact cloneDecls_ne_outOfFuel _ _ (h ▸ hkept)
    | ok kept =>
      have hsoundKept := (kept_spec hoptions hkept).1
      cases hfunctions : specializeKind (optionsOf fold decls reports limits) .function fuel 0 kept
        with
      | error stop =>
        simp only [bind, Except.bind, hkept, hfunctions, Except.error.injEq] at h
        exact specializeKind_ne_outOfFuel (determined_reachedByFunctions hoptions decls)
          (fun parent hparent hkind use huse => ReachedByFunctions.inFunction hparent hkind huse)
          hsoundKept (hfuel.trans (Nat.le_add_left _ _)) (h ▸ hfunctions)
      | ok afterFunctions =>
        obtain ⟨index, functions⟩ := afterFunctions
        simp only [bind, Except.bind, hkept, hfunctions] at h
        have hsound := (functions_spec hoptions hkept hfunctions).1.mono
          fun use huse => Reached.byFunctions huse
        exact specializeTypes_ne_outOfFuel (determined_reached hoptions decls)
          (fun parent hparent hkind use huse => Reached.inType hparent hkind huse) hsound
          (Nat.zero_le _) (Nat.zero_le _) hfuel (hfuel.trans (Nat.le_add_left _ _)) h
  · rintro ⟨⟩

lemma exists_completed_of_transform {run : Run} (hgeneric : decls.any isGenericDecl = true)
    (h : transformDeclsReportOptions fuel fold decls reports limits = .ok run) :
    ∃ emitted, Completed (optionsOf fold decls reports limits) decls run emitted := by
  rw [transformDeclsReportOptions, if_pos hgeneric] at h
  obtain ⟨kept, hkept, h⟩ := exceptBind_eq_ok.mp h
  obtain ⟨⟨index, functions⟩, hfunctions, h⟩ := exceptBind_eq_ok.mp h
  exact exists_completed (coherent_programOf fold decls reports) hkept hfunctions h

end

/-- **Monomorphization.** The transform ends, and a run that succeeds is closed exactly if every
function it uses is reached without going through a struct or a union, and no key is used for two
kinds of instances. -/
theorem transformDeclsReportOptions_monomorphized_iff (fuel : ℕ) (fold : FoldIntConst)
    (decls : List Decl) (reports : Bool) (limits : Limits)
    (hfuel : limits.maxInstances ≤ fuel) :
    transformDeclsReportOptions fuel fold decls reports limits ≠ .error .outOfFuel ∧
      ∀ run, transformDeclsReportOptions fuel fold decls reports limits = .ok run →
        (Monomorphized (programOf fold decls reports) limits run ↔
          FunctionsFirst (programOf fold decls reports) decls ∧
            KindsApart (programOf fold decls reports) decls) := by
  refine ⟨transform_ne_outOfFuel hfuel, ?_⟩
  intro run h
  by_cases hgeneric : decls.any isGenericDecl = true
  · obtain ⟨emitted, hcompleted⟩ := exists_completed_of_transform hgeneric h
    exact hcompleted.monomorphized_iff (coherent_programOf fold decls reports) rfl
  · rw [transformDeclsReportOptions, if_neg hgeneric] at h
    obtain rfl := Except.ok.inj h
    have hreached : ∀ use, ¬ Reached (programOf fold decls reports) decls use :=
      not_reached_of_not_any hgeneric
    constructor
    · intro _
      exact ⟨fun use huse => absurd huse (hreached use), fun use huse => absurd huse (hreached use)⟩
    · intro _
      exact ⟨Nat.zero_le _, fun use huse => absurd huse List.not_mem_nil,
        fun decl hdecl => isDropped_of_isGenericDecl_eq_false hgeneric hdecl⟩

/-! ## A function used in the field of a generic struct -/

/-- The evaluator of constants on integer literals. -/
def foldLiteral : FoldIntConst
  | _, _, .intLiteral text => (parseIntegerLiteral text).map Int.ofNat
  | _, _, _ => none

/-- `const fn width(comptime n: usize) -> usize { let x: [n]u8 = uninit; return n; }`. -/
def widthDecl : FnDecl where
  name := { text := "width" }
  params := [{ name := { text := "n" }, ty := .name { text := "usize" }, isComptime := true }]
  returnType := some (.name { text := "usize" })
  isConst := true
  body := some
    [.letDecl [{ text := "x" }] (some (.array (.ident { text := "n" }) (.name { text := "u8" })))
        (some .uninitLiteral),
      .ret (some (.ident { text := "n" }))]

/-- `struct Buf<T> { data: [width(3)]T }`. -/
def bufDecl : StructDecl where
  name := { text := "Buf" }
  typeParams := [{ text := "T" }]
  fields :=
    [{ name := { text := "data" },
        ty := .array (.call (.ident { text := "width" }) [] [.intLiteral "3"])
          (.name { text := "T" }) }]

/-- `fn size(b: Buf<u32>) -> usize { return 3; }`. -/
def sizeDecl : FnDecl where
  name := { text := "size" }
  params := [{ name := { text := "b" }, ty := .generic { text := "Buf" } [.name { text := "u32" }] }]
  returnType := some (.name { text := "usize" })
  body := some [.ret (some (.intLiteral "3"))]

def bufDecls : List Decl :=
  [{ kind := .fnDecl widthDecl }, { kind := .structDecl bufDecl }, { kind := .fnDecl sizeDecl }]

theorem transformDeclsReportOptions_monomorphized_iff_buf :
    transformDeclsReportOptions 4096 foldLiteral bufDecls true {} ≠ .error .outOfFuel ∧
      ∀ run, transformDeclsReportOptions 4096 foldLiteral bufDecls true {} = .ok run →
        (Monomorphized (programOf foldLiteral bufDecls true) {} run ↔
          FunctionsFirst (programOf foldLiteral bufDecls true) bufDecls ∧
            KindsApart (programOf foldLiteral bufDecls true) bufDecls) :=
  transformDeclsReportOptions_monomorphized_iff 4096 foldLiteral bufDecls true {} (le_refl _)

/-- The use of `width` in `Buf<u32>` names `width__3`, which is not put out. -/
theorem not_monomorphized_width :
    ∃ run, transformDeclsReportOptions 4096 foldLiteral bufDecls true {} = .ok run ∧
      ¬ Monomorphized (programOf foldLiteral bufDecls true) {} run := by
  refine ⟨_, rfl, ?_⟩
  intro h
  have hwidth := h.unique
    { decl := .function widthDecl, args := [.int 3], subst := [("n", .int 3)], fileId := none,
      attrs := [], isPub := false, boundFailed := false }
    (List.mem_cons_of_mem _ (List.mem_singleton.mpr rfl))
  exact absurd (congrArg List.length hwidth) (by decide)

end ModernC.Specialize
