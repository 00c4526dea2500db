import ModernC.Specialize.Emission

/-!
# Monomorphization and the order of declarations

If the declarations have distinct names, their order matters for the values of module constants
only: a constant is folded against earlier ones.  Where these values agree, every use is rewritten
to the same instance and the same declarations are put out, up to order.  The main result,
`transformDeclsReportOptions_perm`, compares two runs that succeed.
-/

namespace ModernC.Specialize

open ModernC.Framework ModernC.Framework.Logged ModernC.Syntax

/-! ## Uses in the source -/

/-- A use of a generic declaration, as it is written. -/
inductive GenericUse where
  | call (callee : Expr) (args : List Expr)
  | type (base : Ident) (args : List TypeExpr)

/-- What the use is rewritten to, in a declaration with this substitution. -/
def GenericUse.instanceName (program : Program) (subst : Subst) (place : Place) :
    GenericUse → Option String
  | .call callee args =>
    (cloneGenericCall program callee
      (walkExprs (cloneWalk program subst) place args)).value.bind fun
      | .call (.ident id) _ _ => some id.text
      | _ => none
  | .type base args =>
    (cloneGeneric program base (walkTypes (cloneWalk program subst) place args)).value.bind typeName

/-- An occurrence of a use, with the substitution of the declaration it occurs in. -/
structure Occurrence where
  use : GenericUse
  subst : Subst
  place : Place

/-- Both uses are rewritten to the same instance. -/
def SameInstance (program : Program) (occ occ' : Occurrence) : Prop :=
  ∃ name, occ.use.instanceName program occ.subst occ.place = some name ∧
    occ'.use.instanceName program occ'.subst occ'.place = some name

/-! ## What is collected -/

section

variable {α : Type} {f : Decl → Option α} {name : String}
  (hname : ∀ decl value, f decl = some value → sourceDeclName decl = some name)

include hname

/-- Where names are distinct, at most one declaration is found. -/
lemma findSome_eq_of_perm {decls decls' : List Decl} (hperm : decls.Perm decls')
    (hnodup : (sourceNames decls).Nodup) : decls.findSome? f = decls'.findSome? f := by
  induction hperm with
  | nil => rfl
  | @cons decl decls decls' _ ih =>
    have hrest : (sourceNames decls).Nodup :=
      hnodup.sublist ((List.sublist_cons_self decl decls).filterMap _)
    rw [List.findSome?_cons, List.findSome?_cons, ih hrest]
  | swap decl decl' decls =>
    rw [List.findSome?_cons, List.findSome?_cons, List.findSome?_cons, List.findSome?_cons]
    cases hfound : f decl with
    | none => cases f decl' <;> rfl
    | some value =>
      cases hfound' : f decl' with
      | none => rfl
      | some value' =>
        rw [sourceNames, List.filterMap_cons_some (hname _ _ hfound'),
          List.filterMap_cons_some (hname _ _ hfound)] at hnodup
        exact absurd List.mem_cons_self (List.nodup_cons.mp hnodup).1
  | trans hperm _ ih ih' =>
    exact (ih hnodup).trans (ih' ((hperm.filterMap _).nodup_iff.mp hnodup))

lemma findSome_reverse_eq_of_perm {decls decls' : List Decl} (hperm : decls.Perm decls')
    (hnodup : (sourceNames decls).Nodup) :
    decls.reverse.findSome? f = decls'.reverse.findSome? f := by
  apply findSome_eq_of_perm hname
  · exact (List.reverse_perm decls).trans (hperm.trans (List.reverse_perm decls').symm)
  · exact ((List.reverse_perm decls).filterMap _).nodup_iff.mpr hnodup

end

lemma any_eq_of_perm {α : Type} {xs ys : List α} (hperm : xs.Perm ys) (holds : α → Bool) :
    xs.any holds = ys.any holds := by
  rw [Bool.eq_iff_iff, List.any_eq_true, List.any_eq_true]
  constructor
  · rintro ⟨x, hx, hholds⟩
    exact ⟨x, hperm.mem_iff.mp hx, hholds⟩
  · rintro ⟨x, hx, hholds⟩
    exact ⟨x, hperm.mem_iff.mpr hx, hholds⟩

variable {decl : Decl} {decls decls' : List Decl} {program : Program}

lemma sourceDeclName_of_constFnOf {name : String} {node : FnDecl}
    (h : constFnOf name decl = some node) : sourceDeclName decl = some name := by
  obtain ⟨fileId, attrs, kind, isPub⟩ := decl
  cases kind with
  | fnDecl node =>
    obtain ⟨⟨rfl, -⟩, -⟩ := Option.ite_none_right_eq_some.mp h
    rfl
  | _ => exact absurd h (Option.some_ne_none _).symm

lemma sourceDeclName_of_fieldTypesOf {name : String}
    {fields : String → Option TypeExpr} (h : fieldTypesOf name decl = some fields) :
    sourceDeclName decl = some name := by
  obtain ⟨fileId, attrs, kind, isPub⟩ := decl
  cases kind with
  | structDecl node | packedBitsDecl node | overlayUnionDecl node | unionDecl node =>
    obtain ⟨rfl, -⟩ := Option.ite_none_right_eq_some.mp h
    rfl
  | _ => exact absurd h (Option.some_ne_none _).symm

section

variable {fold : FoldIntConst} {decls decls' : List Decl} (hperm : decls.Perm decls')
  (hnodup : (sourceNames decls).Nodup)
  (hconsts : (collect fold decls).intConsts = (collect fold decls').intConsts)

include hperm hnodup hconsts

lemma collect_eq_of_perm : collect fold decls = collect fold decls' := by
  have htypeGeneric : (collect fold decls).typeGeneric = (collect fold decls').typeGeneric := by
    funext name
    rw [typeGeneric_collect, typeGeneric_collect]
    exact findSome_reverse_eq_of_perm (fun decl info h => (typeGenericOf_eq_some h).1) hperm hnodup
  have hconstFns : (collect fold decls).constFns = (collect fold decls').constFns := by
    funext name
    rw [constFns_collect, constFns_collect]
    exact findSome_eq_of_perm (fun decl node h => sourceDeclName_of_constFnOf h) hperm hnodup
  have hstructs : (collect fold decls).genericStructs = (collect fold decls').genericStructs := by
    funext name
    rw [genericStructs_collect, genericStructs_collect]
    exact findSome_reverse_eq_of_perm (fun decl info h => (genericStructOf_eq_some h).1) hperm
      hnodup
  have hunions : (collect fold decls).genericUnions = (collect fold decls').genericUnions := by
    funext name
    rw [genericUnions_collect, genericUnions_collect]
    exact findSome_reverse_eq_of_perm (fun decl info h => (genericUnionOf_eq_some h).1) hperm hnodup
  have hfieldTypes : (collect fold decls).fieldTypes = (collect fold decls').fieldTypes := by
    funext name
    rw [fieldTypes_collect, fieldTypes_collect]
    exact findSome_eq_of_perm (fun decl fields h => sourceDeclName_of_fieldTypesOf h) hperm hnodup
  rw [Collected.mk.injEq]
  exact ⟨htypeGeneric, hconstFns, hstructs, hunions, hconsts, hfieldTypes⟩

lemma programOf_eq_of_perm (reports : Bool) :
    programOf fold decls reports = programOf fold decls' reports := by
  have hfnNames : ∀ name, decls.any (declaresFn name) = decls'.any (declaresFn name) :=
    fun name => any_eq_of_perm hperm _
  have hconformance : ∀ traitName typeName, decls.any (declaresImpl traitName typeName) =
      decls'.any (declaresImpl traitName typeName) := fun _ _ => any_eq_of_perm hperm _
  simp only [programOf, collect_eq_of_perm hperm hnodup hconsts, hfnNames, hconformance]

end

/-! ## Constants in the same order -/

/-- The declaration is a constant or a function that constants may use. -/
def isConstDecl (decl : Decl) : Bool :=
  match decl.kind with
  | .globalDecl node => node.isConst
  | .fnDecl node => node.isConst
  | _ => false

/-- What is collected of the constants. -/
def Collected.consts (collected : Collected) :
    (String → Option FnDecl) × (String → Option ℤ) :=
  (collected.constFns, collected.intConsts)

@[simp] lemma intConsts_addFieldTypes (collected : Collected) (ty : String)
    (fields : List (String × TypeExpr)) :
    (collected.addFieldTypes ty fields).intConsts = collected.intConsts := by
  rw [Collected.addFieldTypes]
  split <;> rfl

lemma consts_add_of_not_isConstDecl (fold : FoldIntConst) (collected : Collected)
    (hdecl : isConstDecl decl = false) : (collected.add fold decl).consts = collected.consts := by
  obtain ⟨fileId, attrs, kind, isPub⟩ := decl
  cases kind with
  | fnDecl node =>
    have hconst : node.isConst = false := hdecl
    simp [Collected.add, Collected.addFn, Collected.consts, hconst]
  | globalDecl node =>
    have hconst : node.isConst = false := hdecl
    simp [Collected.add, Collected.addConst, hconst]
  | structDecl node =>
    have hintConsts : (collected.addStruct ⟨fileId, attrs, .structDecl node, isPub⟩ node).intConsts =
        collected.intConsts := by
      rw [Collected.addStruct]
      split <;> rfl
    simp [Collected.add, Collected.consts, hintConsts]
  | unionDecl node =>
    have hintConsts : (collected.addUnion ⟨fileId, attrs, .unionDecl node, isPub⟩ node).intConsts =
        collected.intConsts := by
      rw [Collected.addUnion]
      split <;> rfl
    simp [Collected.add, Collected.consts, hintConsts]
  | _ => simp [Collected.add, Collected.consts]

lemma consts_add_congr (fold : FoldIntConst) {collected collected' : Collected} (decl : Decl)
    (h : collected.consts = collected'.consts) (hdecl : isConstDecl decl = true) :
    (collected.add fold decl).consts = (collected'.add fold decl).consts := by
  obtain ⟨hconstFns, hintConsts⟩ := Prod.mk.inj h
  obtain ⟨fileId, attrs, kind, isPub⟩ := decl
  cases kind with
  | fnDecl node =>
    simp only [Collected.add, Collected.addFn, Collected.consts, hconstFns, hintConsts]
  | globalDecl node =>
    have hconst : node.isConst = true := hdecl
    simp only [Collected.add, Collected.addConst, hconst, if_true, hconstFns, hintConsts]
    cases node.init.bind (fold collected'.constFns collected'.intConsts) with
    | none => exact h
    | some value => simp only [Collected.consts]
  | _ => exact absurd hdecl Bool.false_ne_true

lemma consts_foldl (fold : FoldIntConst) (decls : List Decl) {collected collected' : Collected}
    (h : collected.consts = collected'.consts) :
    (decls.foldl (Collected.add fold) collected).consts =
      ((decls.filter isConstDecl).foldl (Collected.add fold) collected').consts := by
  induction decls generalizing collected collected' with
  | nil => exact h
  | cons decl decls ih =>
    by_cases hdecl : isConstDecl decl = true
    · rw [List.filter_cons_of_pos hdecl]
      exact ih (consts_add_congr fold decl h hdecl)
    · rw [List.filter_cons_of_neg hdecl]
      exact ih ((consts_add_of_not_isConstDecl fold _ (eq_false_of_ne_true hdecl)).trans h)

/-- Constants and const functions that are declared in the same order get the same values. -/
lemma intConsts_collect_eq {fold : FoldIntConst}
    (h : decls.filter isConstDecl = decls'.filter isConstDecl) :
    (collect fold decls).intConsts = (collect fold decls').intConsts := by
  have hconsts : (collect fold decls).consts = (collect fold decls').consts := by
    rw [collect, collect, consts_foldl fold decls rfl, h, ← consts_foldl fold decls' rfl]
  exact (Prod.mk.inj hconsts).2

/-! ## Reached uses -/

lemma reachedByFunctions_mono {use : Use}
    (hmem : ∀ decl ∈ decls, decl ∈ decls') (h : ReachedByFunctions program decls use) :
    ReachedByFunctions program decls' use := by
  induction h with
  | kept hdecl huse =>
    obtain ⟨hdecl, hkept⟩ := List.mem_filter.mp hdecl
    exact ReachedByFunctions.kept (List.mem_filter.mpr ⟨hmem _ hdecl, hkept⟩) huse
  | inFunction _ hkind huse ih => exact ReachedByFunctions.inFunction ih hkind huse

lemma reached_mono {use : Use}
    (hmem : ∀ decl ∈ decls, decl ∈ decls') (h : Reached program decls use) :
    Reached program decls' use := by
  induction h with
  | byFunctions huse => exact Reached.byFunctions (reachedByFunctions_mono hmem huse)
  | inType _ hkind huse ih => exact Reached.inType ih hkind huse

lemma reached_iff_of_perm (hperm : decls.Perm decls') (use : Use) :
    Reached program decls use ↔ Reached program decls' use :=
  ⟨reached_mono fun _ => hperm.mem_iff.mp, reached_mono fun _ => hperm.mem_iff.mpr⟩

lemma putsOut_iff_of_perm (hperm : decls.Perm decls') (use : Use) :
    PutsOut program decls use ↔ PutsOut program decls' use := by
  rw [PutsOut, PutsOut]
  split
  · exact ⟨reachedByFunctions_mono fun _ => hperm.mem_iff.mp,
      reachedByFunctions_mono fun _ => hperm.mem_iff.mpr⟩
  · exact reached_iff_of_perm hperm use

/-- Two runs that succeed put out the same declarations. -/
lemma Completed.out_perm {options options' : Options} {run run' : Run}
    {emitted emitted' : List Use} (h : Completed options decls run emitted)
    (h' : Completed options' decls' run' emitted') (hperm : decls.Perm decls')
    (hprogram : options.program = options'.program) : run.out.Perm run'.out := by
  have hemitted : emitted.Perm emitted' := by
    rw [List.perm_ext_iff_of_nodup h.once h'.once]
    intro use
    rw [h.emits, h'.emits, ← hprogram]
    exact putsOut_iff_of_perm hperm use
  have hkept : (keptDecls options.program decls).Perm (keptDecls options.program decls') :=
    hperm.filter _
  refine h.out.trans (List.Perm.trans ?_ h'.out.symm)
  rw [← hprogram]
  exact (hkept.map _).append (hemitted.map _)

/-! ## The order of declarations -/

/-- **The order of declarations.** If the names are distinct and the module constants get the
same values, two orders of the declarations give the same instances. -/
theorem transformDeclsReportOptions_perm (fuel : ℕ) (fold : FoldIntConst)
    (decls decls' : List Decl) (reports : Bool) (limits : Limits) (run run' : Run)
    (hperm : decls.Perm decls') (hnodup : (sourceNames decls).Nodup)
    (hconsts : (collect fold decls).intConsts = (collect fold decls').intConsts)
    (h : transformDeclsReportOptions fuel fold decls reports limits = .ok run)
    (h' : transformDeclsReportOptions fuel fold decls' reports limits = .ok run') :
    (∀ occ occ', SameInstance (programOf fold decls reports) occ occ' ↔
        SameInstance (programOf fold decls' reports) occ occ') ∧
      (∀ use, use ∈ usesOf run.events ↔ use ∈ usesOf run'.events) ∧
      run.out.Perm run'.out := by
  have hprogram := programOf_eq_of_perm hperm hnodup hconsts reports
  refine ⟨fun occ occ' => by rw [hprogram], ?_⟩
  have hany := any_eq_of_perm hperm isGenericDecl
  by_cases hgeneric : decls.any isGenericDecl = true
  · obtain ⟨emitted, hcompleted⟩ := exists_completed_of_transform hgeneric h
    obtain ⟨emitted', hcompleted'⟩ := exists_completed_of_transform (hany ▸ hgeneric) h'
    refine ⟨?_, hcompleted.out_perm hcompleted' hperm hprogram⟩
    intro use
    rw [hcompleted.noted, hcompleted'.noted]
    show Reached (programOf fold decls reports) decls use ↔
      Reached (programOf fold decls' reports) decls' use
    rw [← hprogram]
    exact reached_iff_of_perm hperm use
  · rw [transformDeclsReportOptions, if_neg hgeneric] at h
    rw [transformDeclsReportOptions, if_neg (hany ▸ hgeneric)] at h'
    obtain rfl := Except.ok.inj h
    obtain rfl := Except.ok.inj h'
    exact ⟨fun use => Iff.rfl, hperm⟩

/-! ## A constant that is declared after its use -/

/-- The evaluator of constants on integer literals and names of constants. -/
def foldName : FoldIntConst
  | _, _, .intLiteral text => (parseIntegerLiteral text).map Int.ofNat
  | _, intConsts, .ident id => intConsts id.text
  | _, _, _ => none

/-- `const name: usize = init;`. -/
def constDecl (name : String) (init : Expr) : Decl where
  kind := .globalDecl
    { name := { text := name }, ty := some (.name { text := "usize" }), init := some init,
      isConst := true }

/-- `struct Buf<N> { data: [N]u8 }`. -/
def arrayDecl : Decl where
  kind := .structDecl
    { name := { text := "Buf" }
      typeParams := [{ text := "N" }]
      fields :=
        [{ name := { text := "data" },
            ty := .array (.ident { text := "N" }) (.name { text := "u8" }) }] }

/-- `extern fn name(b: Buf<arg>) -> usize;`. -/
def sizeOfBuf (name arg : String) : Decl where
  kind := .externFn
    { name := { text := name }
      params := [{ name := { text := "b" }, ty := .generic { text := "Buf" } [.name { text := arg }] }]
      returnType := some (.name { text := "usize" })
      body := none }

/-- `const B = 4; const A = B;`, in one order or the other, and two uses of `Buf`. -/
def twoConsts (first second : Decl) : List Decl :=
  [first, second, arrayDecl, sizeOfBuf "sizeA" "A", sizeOfBuf "size4" "4"]

def constB : Decl := constDecl "B" (.intLiteral "4")

def constA : Decl := constDecl "A" (.ident { text := "B" })

/-- The use `Buf<arg>`. -/
def bufOccurrence (arg : String) : Occurrence where
  use := .type { text := "Buf" } [.name { text := arg }]
  subst := []
  place := Place.top

/-- The same declarations with the constants at the end. -/
def constsLast : List Decl :=
  [sizeOfBuf "size4" "4", arrayDecl, sizeOfBuf "sizeA" "A", constB, constA]

theorem transformDeclsReportOptions_perm_constsLast :
    ∃ run run',
      transformDeclsReportOptions 4096 foldName (twoConsts constB constA) true {} = .ok run ∧
      transformDeclsReportOptions 4096 foldName constsLast true {} = .ok run' ∧
      (∀ occ occ', SameInstance (programOf foldName (twoConsts constB constA) true) occ occ' ↔
          SameInstance (programOf foldName constsLast true) occ occ') ∧
        (∀ use, use ∈ usesOf run.events ↔ use ∈ usesOf run'.events) ∧
        run.out.Perm run'.out := by
  have hperm : (twoConsts constB constA).Perm constsLast := by
    have hreverse : constsLast =
        [sizeOfBuf "size4" "4", arrayDecl, sizeOfBuf "sizeA" "A"] ++ [constB, constA] := rfl
    rw [hreverse]
    refine List.Perm.trans ?_ List.perm_append_comm
    refine List.Perm.cons _ (List.Perm.cons _ ?_)
    exact (List.reverse_perm [sizeOfBuf "size4" "4", sizeOfBuf "sizeA" "A", arrayDecl]).trans
      (List.Perm.cons _ (List.Perm.swap _ _ _))
  exact ⟨_, _, rfl, rfl, transformDeclsReportOptions_perm 4096 foldName (twoConsts constB constA)
    constsLast true {} _ _ hperm (by decide) (intConsts_collect_eq rfl) rfl rfl⟩

/-- With `A` declared before `B`, the uses `Buf<A>` and `Buf<4>` are not the same instance. -/
theorem not_sameInstances_twoConsts :
    ∃ run run',
      transformDeclsReportOptions 4096 foldName (twoConsts constB constA) true {} = .ok run ∧
      transformDeclsReportOptions 4096 foldName (twoConsts constA constB) true {} = .ok run' ∧
      (twoConsts constB constA).Perm (twoConsts constA constB) ∧
      (sourceNames (twoConsts constB constA)).Nodup ∧
      SameInstance (programOf foldName (twoConsts constB constA) true) (bufOccurrence "A")
        (bufOccurrence "4") ∧
      ¬ SameInstance (programOf foldName (twoConsts constA constB) true) (bufOccurrence "A")
        (bufOccurrence "4") ∧
      ¬ run.out.Perm run'.out := by
  refine ⟨_, _, rfl, rfl, List.Perm.swap _ _ _, by decide, ⟨"Buf__4", by decide, by decide⟩, ?_, ?_⟩
  · rintro ⟨name, hfirst, hsecond⟩
    rw [← hfirst] at hsecond
    exact absurd hsecond (by decide)
  · intro hperm
    exact absurd hperm.length_eq (by decide)

end ModernC.Specialize
