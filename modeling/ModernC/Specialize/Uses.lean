import ModernC.Specialize.Clone
import ModernC.Syntax.WalkLogs

/-!
# The uses that a clone notes

A use is determined by its kind and its key: the declaration is looked up by name, and what each
parameter stands for can be read off the arguments.
-/

namespace ModernC.Specialize

open ModernC.Framework ModernC.Framework.Logged ModernC.Syntax

/-- What the parameters of these names stand for, by the arguments. -/
def substOf (names : List String) (args : List CanonicalGenericArg) : Subst :=
  (names.zip args).reverse

def comptimeNames (params : List Param) : List String :=
  (params.filter Param.isComptime).map fun param => param.name.text

/-- The use of a kind with a key. -/
def useOf (program : Program) (kind : InstantiationKind) (key : GenericInstanceKey) : Option Use :=
  match kind with
  | .function =>
    (program.typeGeneric key.genericName).map fun info =>
      let subst := substOf (comptimeNames info.decl.params) key.args
      { decl := .function info.decl
        args := key.args
        subst
        fileId := info.fileId
        attrs := info.attrs
        isPub := info.isPub
        boundFailed := !(unmetBounds program subst info.decl.bounds).isEmpty }
  | .struct =>
    (program.genericStructs key.genericName).map fun info =>
      { decl := .struct info.decl
        args := key.args
        subst := substOf (info.decl.typeParams.map Ident.text) key.args
        fileId := info.fileId
        attrs := info.attrs
        isPub := info.isPub
        boundFailed := false }
  | .union =>
    (program.genericUnions key.genericName).map fun info =>
      { decl := .union info.decl
        args := key.args
        subst := substOf (info.decl.typeParams.map Ident.text) key.args
        fileId := info.fileId
        attrs := info.attrs
        isPub := info.isPub
        boundFailed := false }

/-- Generic declarations are collected under their names, which the program declares. -/
structure Coherent (program : Program) (names : List String) : Prop where
  functions : ∀ name info, program.typeGeneric name = some info →
    info.decl.name.text = name ∧ name ∈ names
  structs : ∀ name info, program.genericStructs name = some info →
    info.decl.name.text = name ∧ name ∈ names
  unions : ∀ name info, program.genericUnions name = some info →
    info.decl.name.text = name ∧ name ∈ names

/-- A use that is noted is the one of its kind and key. -/
def Canonical (program : Program) : CloneEvent → Prop
  | .use noted => useOf program noted.kind noted.key = some noted
  | .traitNotSatisfied _ _ => True

/-! ## Arguments -/

lemma substOf_cons_append (name : String) (names : List String) (value : SubstValue)
    (values : List CanonicalGenericArg) (subst : Subst) :
    substOf (name :: names) (value :: values) ++ subst =
      substOf names values ++ subst.put name value := by
  rw [substOf, substOf, List.zip_cons_cons, List.reverse_cons, List.append_assoc]
  rfl

variable {program : Program} {args : List (Clone TypeExpr)}

lemma bindTypeArgs_eq_some {params : List Ident}
    (hlength : args.length = params.length) {bound result : TypeArgs}
    (h : (bindTypeArgs program bound params args).value = some result) :
    ∃ values, values.length = params.length ∧
      result.canonicalArgs = bound.canonicalArgs ++ values ∧
      result.subst = substOf (params.map Ident.text) values ++ bound.subst := by
  induction params generalizing args bound with
  | nil =>
    cases args with
    | nil =>
      have heq : bound = result := Option.some.inj h
      subst heq
      exact ⟨[], rfl, (List.append_nil _).symm, rfl⟩
    | cons arg args => exact absurd hlength (Nat.succ_ne_zero _)
  | cons param params ih =>
    cases args with
    | nil => exact absurd hlength.symm (Nat.succ_ne_zero _)
    | cons arg args =>
      rw [bindTypeArgs, value_bind] at h
      split at h
      · rename_i id _
        obtain ⟨values, hvalues, hcanonical, hsubst⟩ := ih (Nat.succ.inj hlength) h
        refine ⟨genericArgValue program id.text :: values, congrArg Nat.succ hvalues, ?_, ?_⟩
        · rw [hcanonical]
          exact List.append_assoc ..
        · rw [hsubst, List.map_cons, substOf_cons_append]
          rfl
      · exact absurd h (Option.some_ne_none _).symm

lemma bindCallArgs_eq_some {params : List Param} {args : List (Clone Expr)}
    (hlength : args.length = params.length) {bound result : CallArgs}
    (h : (bindCallArgs program bound params args).value = some result) :
    ∃ values, values.length = (comptimeNames params).length ∧
      result.canonicalArgs = bound.canonicalArgs ++ values ∧
      result.subst = substOf (comptimeNames params) values ++ bound.subst := by
  induction params generalizing args bound with
  | nil =>
    cases args with
    | nil =>
      have heq : bound = result := Option.some.inj h
      subst heq
      exact ⟨[], rfl, (List.append_nil _).symm, rfl⟩
    | cons arg args => exact absurd hlength (Nat.succ_ne_zero _)
  | cons param params ih =>
    cases args with
    | nil => exact absurd hlength.symm (Nat.succ_ne_zero _)
    | cons arg args =>
      -- a comptime parameter is bound to a value, and the rest follows
      have hcomptime : param.isComptime = true → ∀ value,
          (bindCallArgs program (bound.bindComptime param value) params args).value = some result →
          ∃ values, values.length = (comptimeNames (param :: params)).length ∧
            result.canonicalArgs = bound.canonicalArgs ++ values ∧
            result.subst = substOf (comptimeNames (param :: params)) values ++ bound.subst := by
        intro hparam value hrest
        obtain ⟨values, hvalues, hcanonical, hsubst⟩ := ih (Nat.succ.inj hlength) hrest
        have hnames : comptimeNames (param :: params) =
            param.name.text :: comptimeNames params := by
          rw [comptimeNames, List.filter_cons_of_pos hparam]
          rfl
        rw [hnames]
        refine ⟨value :: values, congrArg Nat.succ hvalues, ?_, ?_⟩
        · rw [hcanonical]
          exact List.append_assoc ..
        · rw [hsubst, substOf_cons_append]
          rfl
      rw [bindCallArgs, value_bind] at h
      by_cases hparam : param.isComptime = true
      · by_cases htype : isTypeParam param = true
        · rw [if_pos (by rw [hparam, htype]; rfl)] at h
          split at h
          · exact absurd h (Option.some_ne_none _).symm
          · exact hcomptime hparam _ h
        · rw [if_neg (by rw [hparam, Bool.true_and]; exact htype), if_pos hparam] at h
          split at h
          · exact absurd h (Option.some_ne_none _).symm
          · exact hcomptime hparam _ h
      · have hnames : comptimeNames (param :: params) = comptimeNames params := by
          rw [comptimeNames, List.filter_cons_of_neg hparam]
          rfl
        rw [if_neg (by rw [Bool.and_eq_true]; exact fun hboth => hparam hboth.1),
          if_neg hparam] at h
        obtain ⟨values, hvalues, hcanonical, hsubst⟩ := ih (Nat.succ.inj hlength) h
        rw [hnames]
        exact ⟨values, hvalues, hcanonical, hsubst⟩

/-! ## Uses are canonical -/

lemma notes_bindTypeArgs {holds : CloneEvent → Prop}
    (hargs : ∀ arg ∈ args, Notes holds arg) (params : List Ident)
    (bound : TypeArgs) : Notes holds (bindTypeArgs program bound params args) := by
  induction params generalizing args bound with
  | nil => cases args <;> exact notes_pure _
  | cons param params ih =>
    cases args with
    | nil => exact notes_pure _
    | cons arg args =>
      obtain ⟨harg, hrest⟩ := List.forall_mem_cons.mp hargs
      rw [bindTypeArgs, notes_bind]
      refine ⟨harg, ?_⟩
      split
      · exact ih hrest _
      · exact notes_pure _

lemma notes_bindCallArgs {holds : CloneEvent → Prop}
    {args : List (Clone Expr)} (hargs : ∀ arg ∈ args, Notes holds arg) (params : List Param)
    (bound : CallArgs) : Notes holds (bindCallArgs program bound params args) := by
  induction params generalizing args bound with
  | nil => cases args <;> exact notes_pure _
  | cons param params ih =>
    cases args with
    | nil => exact notes_pure _
    | cons arg args =>
      obtain ⟨harg, hrest⟩ := List.forall_mem_cons.mp hargs
      rw [bindCallArgs, notes_bind]
      refine ⟨harg, ?_⟩
      split
      · split
        · exact notes_pure _
        · exact ih hrest _
      · split
        · split
          · exact notes_pure _
          · exact ih hrest _
        · exact ih hrest _

lemma notes_noteUnmet (program : Program) (unmet : List (String × TraitBound)) :
    Notes (Canonical program) (noteUnmet unmet) := by
  induction unmet with
  | nil => exact notes_pure _
  | cons entry unmet ih =>
    obtain ⟨concrete, bound⟩ := entry
    rw [noteUnmet, notes_bind, notes_note]
    exact ⟨trivial, ih⟩

lemma notes_rewriteGenericType {decl : GenericDecl}
    {typeParams : List Ident} {fileId : Option ℕ} {attrs : List Attr} {isPub : Bool}
    (huse : ∀ args, useOf program decl.kind ⟨decl.name.text, decl.name.offset, args⟩ =
      some ⟨decl, args, substOf (typeParams.map Ident.text) args, fileId, attrs, isPub, false⟩)
    (base : Ident) (hargs : ∀ arg ∈ args, Notes (Canonical program) arg) :
    Notes (Canonical program)
      (rewriteGenericType program decl typeParams fileId attrs isPub base args) := by
  rw [rewriteGenericType, notes_bind, instantiateGeneric]
  split
  · exact ⟨notes_pure _, notes_pure _⟩
  · rename_i hlength
    refine ⟨notes_bindTypeArgs hargs _ _, ?_⟩
    split
    · exact notes_pure _
    · rename_i bound hbound
      obtain ⟨values, -, hcanonical, hsubst⟩ := bindTypeArgs_eq_some (not_not.mp hlength) hbound
      simp only [notes_bind, notes_note, notes_pure, and_true]
      have hvalues : bound.canonicalArgs = values := hcanonical
      have hvalue : bound.subst = substOf (typeParams.map Ident.text) bound.canonicalArgs := by
        rw [hsubst, hvalues, List.append_nil]
      rw [hvalue]
      exact huse bound.canonicalArgs

section

variable {program : Program} {names : List String} (hprogram : Coherent program names)

include hprogram

lemma notes_cloneGenericCall (callee : Expr) {args : List (Clone Expr)}
    (hargs : ∀ arg ∈ args, Notes (Canonical program) arg) :
    Notes (Canonical program) (cloneGenericCall program callee args) := by
  rw [cloneGenericCall]
  split
  · exact notes_pure _
  · rename_i name _
    split
    · exact notes_pure _
    · rename_i info hinfo
      rw [rewriteGenericCall]
      split
      · exact notes_pure _
      · rename_i hlength
        rw [notes_bind]
        refine ⟨notes_bindCallArgs hargs _ _, ?_⟩
        split
        · exact notes_pure _
        · rename_i bound hbound
          obtain ⟨values, -, hcanonical, hsubst⟩ :=
            bindCallArgs_eq_some (not_not.mp hlength) hbound
          simp only [notes_bind, notes_note, notes_pure, and_true]
          refine ⟨notes_noteUnmet program _, ?_⟩
          have hname := (hprogram.functions _ _ hinfo).1
          have hvalues : bound.canonicalArgs = values := hcanonical
          have hvalue : bound.subst = substOf (comptimeNames info.decl.params) values := by
            rw [hsubst, List.append_nil]
          show useOf program .function _ = some _
          rw [hvalue, hvalues]
          show (program.typeGeneric info.decl.name.text).map _ = _
          rw [hname, hinfo]
          rfl

lemma notes_cloneGenericStruct (base : Ident)
    (hargs : ∀ arg ∈ args, Notes (Canonical program) arg) :
    Notes (Canonical program) (cloneGenericStruct program base args) := by
  rw [cloneGenericStruct]
  split
  · exact notes_pure _
  · rename_i info hinfo
    apply notes_rewriteGenericType _ base hargs
    intro values
    show (program.genericStructs info.decl.name.text).map _ = _
    rw [(hprogram.structs _ _ hinfo).1, hinfo]
    rfl

lemma notes_cloneGenericUnion (base : Ident) (hargs : ∀ arg ∈ args, Notes (Canonical program) arg) :
    Notes (Canonical program) (cloneGenericUnion program base args) := by
  rw [cloneGenericUnion]
  split
  · exact notes_pure _
  · rename_i info hinfo
    apply notes_rewriteGenericType _ base hargs
    intro values
    show (program.genericUnions info.decl.name.text).map _ = _
    rw [(hprogram.unions _ _ hinfo).1, hinfo]
    rfl

lemma notes_cloneGeneric (base : Ident) (hargs : ∀ arg ∈ args, Notes (Canonical program) arg) :
    Notes (Canonical program) (cloneGeneric program base args) := by
  rw [cloneGeneric, notes_bind]
  refine ⟨notes_cloneGenericStruct hprogram base hargs, ?_⟩
  split
  · exact notes_pure _
  · exact notes_cloneGenericUnion hprogram base hargs

end

lemma notesOnly_cloneWalk {names : List String}
    (hprogram : Coherent program names) (subst : Subst) :
    NotesOnly (cloneWalk program subst) (Canonical program) where
  ident _ _ := notes_pure _
  member _ _ _ _ := notes_pure _
  call callee _ hargs := notes_cloneGenericCall hprogram callee hargs
  callee _ := notes_pure _
  typeName _ _ := notes_pure _
  generic base _ hargs := notes_cloneGeneric hprogram base hargs
  asmOutput _ _ := notes_pure _

end ModernC.Specialize
