import ModernC.Specialize.Transform
import ModernC.Specialize.Uses

/-!
# What is collected

A generic declaration is collected under its name, a later one in place of an earlier one.  A
const function and the types of the fields of a type stay those of the first declaration of the
name.
-/

namespace ModernC.Specialize

open ModernC.Framework ModernC.Syntax

/-! ## One declaration -/

def typeGenericOf (name : String) (decl : Decl) : Option TypeGenericInfo :=
  match decl.kind with
  | .fnDecl node =>
    if node.name.text = name ∧ isTypeGenericFunction node = true then
      some { decl := node, fileId := decl.fileId, attrs := decl.attrs, isPub := decl.isPub }
    else none
  | _ => none

def constFnOf (name : String) (decl : Decl) : Option FnDecl :=
  match decl.kind with
  | .fnDecl node => if node.name.text = name ∧ node.isConst = true then some node else none
  | _ => none

def genericStructOf (name : String) (decl : Decl) : Option GenericStructInfo :=
  match decl.kind with
  | .structDecl node =>
    if node.name.text = name ∧ node.typeParams.isEmpty = false then
      some { decl := node, fileId := decl.fileId, attrs := decl.attrs, isPub := decl.isPub }
    else none
  | _ => none

def genericUnionOf (name : String) (decl : Decl) : Option GenericUnionInfo :=
  match decl.kind with
  | .unionDecl node =>
    if node.name.text = name ∧ node.typeParams.isEmpty = false then
      some { decl := node, fileId := decl.fileId, attrs := decl.attrs, isPub := decl.isPub }
    else none
  | _ => none

/-- The types of the fields that a declaration gives to a type, by the name of the type. -/
def declFields (decl : Decl) : Option (String × List (String × TypeExpr)) :=
  match decl.kind with
  | .structDecl node =>
    some (node.name.text, node.fields.map fun field => (field.name.text, field.ty))
  | .packedBitsDecl node =>
    some (node.name.text, node.fields.map fun field => (field.name.text, field.ty))
  | .overlayUnionDecl node =>
    some (node.name.text, node.fields.map fun field => (field.name.text, field.ty))
  | .unionDecl node =>
    some (node.name.text,
      node.cases.filterMap fun case => case.ty.map fun ty => (case.name.text, ty))
  | _ => none

def fieldTypesOf (name : String) (decl : Decl) : Option (String → Option TypeExpr) :=
  match declFields decl with
  | some (ty, fields) => if ty = name then some fun field => fields.lookup field else none
  | none => none

/-! ## The declarations together -/

lemma collect_concat (fold : FoldIntConst) (decls : List Decl) (decl : Decl) :
    collect fold (decls ++ [decl]) = (collect fold decls).add fold decl := by
  rw [collect, collect, List.foldl_append]
  rfl

section

variable (collected : Collected) (ty : String) (fields : List (String × TypeExpr))

@[simp] lemma addFieldTypes_eq :
    (collected.addFieldTypes ty fields).typeGeneric = collected.typeGeneric ∧
      (collected.addFieldTypes ty fields).constFns = collected.constFns ∧
      (collected.addFieldTypes ty fields).genericStructs = collected.genericStructs ∧
      (collected.addFieldTypes ty fields).genericUnions = collected.genericUnions := by
  rw [Collected.addFieldTypes]
  split <;> exact ⟨rfl, rfl, rfl, rfl⟩

lemma fieldTypes_addFieldTypes (name : String) :
    (collected.addFieldTypes ty fields).fieldTypes name =
      (collected.fieldTypes name).or
        (if ty = name then some fun field => fields.lookup field else none) := by
  rw [Collected.addFieldTypes]
  by_cases hname : ty = name
  · subst hname
    cases hknown : collected.fieldTypes ty <;> simp [hknown, put]
  · have hne : ¬ name = ty := fun h => hname h.symm
    split <;> simp [hne, put]

end

section

variable (collected : Collected) (decl : Decl) (node : StructDecl) (node' : UnionDecl)

@[simp] lemma addStruct_eq :
    (collected.addStruct decl node).typeGeneric = collected.typeGeneric ∧
      (collected.addStruct decl node).constFns = collected.constFns ∧
      (collected.addStruct decl node).genericUnions = collected.genericUnions ∧
      (collected.addStruct decl node).fieldTypes = collected.fieldTypes := by
  rw [Collected.addStruct]
  split <;> exact ⟨rfl, rfl, rfl, rfl⟩

@[simp] lemma addUnion_eq :
    (collected.addUnion decl node').typeGeneric = collected.typeGeneric ∧
      (collected.addUnion decl node').constFns = collected.constFns ∧
      (collected.addUnion decl node').genericStructs = collected.genericStructs ∧
      (collected.addUnion decl node').fieldTypes = collected.fieldTypes := by
  rw [Collected.addUnion]
  split <;> exact ⟨rfl, rfl, rfl, rfl⟩

end

lemma addConst_eq (fold : FoldIntConst) (collected : Collected) (node : GlobalDecl) :
    ∃ intConsts, collected.addConst fold node = { collected with intConsts } := by
  rw [Collected.addConst]
  split
  · split
    · exact ⟨_, rfl⟩
    · exact ⟨_, rfl⟩
  · exact ⟨_, rfl⟩

lemma put_apply {α : Type} (map : String → Option α) (key : String) (value : α) (name : String) :
    put map key value name = (if key = name then some value else none).or (map name) := by
  by_cases hname : key = name
  · simp [put, hname]
  · have hne : ¬ name = key := fun h => hname h.symm
    simp [put, hname, hne]

variable (fold : FoldIntConst) (collected : Collected) (decl : Decl)

/-- **One more declaration.**  The tables that a later declaration overwrites. -/
lemma tables_add (name : String) :
    (collected.add fold decl).typeGeneric name =
        (typeGenericOf name decl).or (collected.typeGeneric name) ∧
      (collected.add fold decl).genericStructs name =
        (genericStructOf name decl).or (collected.genericStructs name) ∧
      (collected.add fold decl).genericUnions name =
        (genericUnionOf name decl).or (collected.genericUnions name) := by
  obtain ⟨fileId, attrs, kind, isPub⟩ := decl
  cases kind with
  | fnDecl node =>
    by_cases hgeneric : isTypeGenericFunction node = true <;>
      simp [Collected.add, Collected.addFn, typeGenericOf, genericStructOf, genericUnionOf,
        put_apply, hgeneric]
  | structDecl node =>
    by_cases hparams : node.typeParams.isEmpty = true <;>
      simp [Collected.add, Collected.addStruct, typeGenericOf, genericStructOf, genericUnionOf,
        put_apply, hparams]
  | unionDecl node =>
    by_cases hparams : node.typeParams.isEmpty = true <;>
      simp [Collected.add, Collected.addUnion, typeGenericOf, genericStructOf, genericUnionOf,
        put_apply, hparams]
  | globalDecl node =>
    obtain ⟨intConsts, hconst⟩ := addConst_eq fold collected node
    simp [Collected.add, typeGenericOf, genericStructOf, genericUnionOf, hconst]
  | _ => simp [Collected.add, typeGenericOf, genericStructOf, genericUnionOf]

lemma constFns_add (name : String) :
    (collected.add fold decl).constFns name =
      (collected.constFns name).or (constFnOf name decl) := by
  obtain ⟨fileId, attrs, kind, isPub⟩ := decl
  cases kind with
  | fnDecl node =>
    by_cases hconst : node.isConst = true
    · by_cases hname : node.name.text = name
      · subst hname
        cases hknown : collected.constFns node.name.text <;>
          simp [Collected.add, Collected.addFn, constFnOf, put_apply, hconst, hknown]
      · cases hknown : collected.constFns node.name.text <;>
          simp [Collected.add, Collected.addFn, constFnOf, put_apply, hconst, hname, hknown]
    · simp [Collected.add, Collected.addFn, constFnOf, hconst]
  | globalDecl node =>
    obtain ⟨intConsts, hconst⟩ := addConst_eq fold collected node
    simp [Collected.add, constFnOf, hconst]
  | _ => simp [Collected.add, constFnOf]

lemma fieldTypes_add (name : String) :
    (collected.add fold decl).fieldTypes name =
      (collected.fieldTypes name).or (fieldTypesOf name decl) := by
  obtain ⟨fileId, attrs, kind, isPub⟩ := decl
  cases kind with
  | globalDecl node =>
    obtain ⟨intConsts, hconst⟩ := addConst_eq fold collected node
    simp [Collected.add, fieldTypesOf, declFields, hconst]
  | _ =>
    simp [Collected.add, Collected.addFn, fieldTypesOf, declFields, fieldTypes_addFieldTypes]

section

variable (decls : List Decl) (name : String) {α : Type}
  {T : Collected → Option α} {entry : Decl → Option α}

/-- Of a table that a later declaration overwrites, the last entry stands. -/
lemma collect_eq_last (hadd : ∀ collected decl,
      T (collected.add fold decl) = (entry decl).or (T collected))
    (hempty : T Collected.empty = none) :
    T (collect fold decls) = decls.reverse.findSome? entry := by
  induction decls using List.reverseRecOn with
  | nil => exact hempty
  | append_singleton decls decl ih =>
    rw [collect_concat, hadd, ih, List.reverse_append, List.reverse_singleton,
      List.singleton_append, List.findSome?_cons]
    cases entry decl <;> rfl

/-- Of a table that a later declaration leaves alone, the first. -/
lemma collect_eq_first (hadd : ∀ collected decl,
      T (collected.add fold decl) = (T collected).or (entry decl))
    (hempty : T Collected.empty = none) :
    T (collect fold decls) = decls.findSome? entry := by
  induction decls using List.reverseRecOn with
  | nil => exact hempty
  | append_singleton decls decl ih =>
    rw [collect_concat, hadd, ih, List.findSome?_append, List.findSome?_singleton]

lemma typeGeneric_collect :
    (collect fold decls).typeGeneric name = decls.reverse.findSome? (typeGenericOf name) :=
  collect_eq_last fold decls (T := fun collected => collected.typeGeneric name)
    (fun collected decl => (tables_add fold collected decl name).1) rfl

lemma genericStructs_collect :
    (collect fold decls).genericStructs name = decls.reverse.findSome? (genericStructOf name) :=
  collect_eq_last fold decls (T := fun collected => collected.genericStructs name)
    (fun collected decl => (tables_add fold collected decl name).2.1) rfl

lemma genericUnions_collect :
    (collect fold decls).genericUnions name = decls.reverse.findSome? (genericUnionOf name) :=
  collect_eq_last fold decls (T := fun collected => collected.genericUnions name)
    (fun collected decl => (tables_add fold collected decl name).2.2) rfl

lemma constFns_collect :
    (collect fold decls).constFns name = decls.findSome? (constFnOf name) :=
  collect_eq_first fold decls (T := fun collected => collected.constFns name)
    (constFns_add fold · · name) rfl

lemma fieldTypes_collect :
    (collect fold decls).fieldTypes name = decls.findSome? (fieldTypesOf name) :=
  collect_eq_first fold decls (T := fun collected => collected.fieldTypes name)
    (fieldTypes_add fold · · name) rfl

end

/-! ## Generic declarations -/

variable {name : String} {decl : Decl}

lemma typeGenericOf_eq_some {info : TypeGenericInfo} (h : typeGenericOf name decl = some info) :
    sourceDeclName decl = some name ∧ info.decl.name.text = name ∧ isGenericDecl decl = true := by
  obtain ⟨fileId, attrs, kind, isPub⟩ := decl
  cases kind with
  | fnDecl node =>
    obtain ⟨⟨rfl, hgeneric⟩, heq⟩ := Option.ite_none_right_eq_some.mp h
    obtain rfl := Option.some.inj heq
    exact ⟨rfl, rfl, hgeneric⟩
  | _ => exact absurd h (Option.some_ne_none _).symm

lemma genericStructOf_eq_some {info : GenericStructInfo}
    (h : genericStructOf name decl = some info) :
    sourceDeclName decl = some name ∧ info.decl.name.text = name ∧ isGenericDecl decl = true := by
  obtain ⟨fileId, attrs, kind, isPub⟩ := decl
  cases kind with
  | structDecl node =>
    obtain ⟨⟨rfl, hgeneric⟩, heq⟩ := Option.ite_none_right_eq_some.mp h
    obtain rfl := Option.some.inj heq
    exact ⟨rfl, rfl, congrArg not hgeneric⟩
  | _ => exact absurd h (Option.some_ne_none _).symm

lemma genericUnionOf_eq_some {info : GenericUnionInfo} (h : genericUnionOf name decl = some info) :
    sourceDeclName decl = some name ∧ info.decl.name.text = name ∧ isGenericDecl decl = true := by
  obtain ⟨fileId, attrs, kind, isPub⟩ := decl
  cases kind with
  | unionDecl node =>
    obtain ⟨⟨rfl, hgeneric⟩, heq⟩ := Option.ite_none_right_eq_some.mp h
    obtain rfl := Option.some.inj heq
    exact ⟨rfl, rfl, congrArg not hgeneric⟩
  | _ => exact absurd h (Option.some_ne_none _).symm

lemma mem_sourceNames {decls : List Decl} :
    name ∈ sourceNames decls ↔ ∃ decl ∈ decls, sourceDeclName decl = some name :=
  List.mem_filterMap

section

variable {fold : FoldIntConst} {decls : List Decl} {reports : Bool} {name : String}

lemma exists_of_last {α : Type} {entry : Decl → Option α} {info : α}
    (h : decls.reverse.findSome? entry = some info) : ∃ decl ∈ decls, entry decl = some info := by
  obtain ⟨decl, hdecl, hinfo⟩ := List.exists_of_findSome?_eq_some h
  exact ⟨decl, List.mem_reverse.mp hdecl, hinfo⟩

/-- A function that was collected is a generic declaration of the program. -/
lemma exists_of_typeGeneric {info : TypeGenericInfo}
    (h : (programOf fold decls reports).typeGeneric name = some info) :
    ∃ decl ∈ decls, typeGenericOf name decl = some info := by
  exact exists_of_last ((typeGeneric_collect fold decls name).symm.trans h)

lemma exists_of_genericStructs {info : GenericStructInfo}
    (h : (programOf fold decls reports).genericStructs name = some info) :
    ∃ decl ∈ decls, genericStructOf name decl = some info := by
  exact exists_of_last ((genericStructs_collect fold decls name).symm.trans h)

lemma exists_of_genericUnions {info : GenericUnionInfo}
    (h : (programOf fold decls reports).genericUnions name = some info) :
    ∃ decl ∈ decls, genericUnionOf name decl = some info := by
  exact exists_of_last ((genericUnions_collect fold decls name).symm.trans h)

end

lemma coherent_programOf (fold : FoldIntConst) (decls : List Decl) (reports : Bool) :
    Coherent (programOf fold decls reports) (sourceNames decls) where
  functions name info h := by
    obtain ⟨decl, hdecl, hinfo⟩ := exists_of_typeGeneric h
    obtain ⟨hname, htext, -⟩ := typeGenericOf_eq_some hinfo
    exact ⟨htext, mem_sourceNames.mpr ⟨decl, hdecl, hname⟩⟩
  structs name info h := by
    obtain ⟨decl, hdecl, hinfo⟩ := exists_of_genericStructs h
    obtain ⟨hname, htext, -⟩ := genericStructOf_eq_some hinfo
    exact ⟨htext, mem_sourceNames.mpr ⟨decl, hdecl, hname⟩⟩
  unions name info h := by
    obtain ⟨decl, hdecl, hinfo⟩ := exists_of_genericUnions h
    obtain ⟨hname, htext, -⟩ := genericUnionOf_eq_some hinfo
    exact ⟨htext, mem_sourceNames.mpr ⟨decl, hdecl, hname⟩⟩

/-- A program with a use of a generic declaration has a generic declaration. -/
lemma any_isGenericDecl_of_useOf {fold : FoldIntConst} {decls : List Decl} {reports : Bool}
    {kind : InstantiationKind} {key : GenericInstanceKey} {use : Use}
    (h : useOf (programOf fold decls reports) kind key = some use) :
    decls.any isGenericDecl = true := by
  rw [List.any_eq_true]
  cases kind with
  | function =>
    obtain ⟨info, hinfo, -⟩ := Option.map_eq_some_iff.mp h
    obtain ⟨decl, hdecl, hinfo⟩ := exists_of_typeGeneric hinfo
    exact ⟨decl, hdecl, (typeGenericOf_eq_some hinfo).2.2⟩
  | struct =>
    obtain ⟨info, hinfo, -⟩ := Option.map_eq_some_iff.mp h
    obtain ⟨decl, hdecl, hinfo⟩ := exists_of_genericStructs hinfo
    exact ⟨decl, hdecl, (genericStructOf_eq_some hinfo).2.2⟩
  | union =>
    obtain ⟨info, hinfo, -⟩ := Option.map_eq_some_iff.mp h
    obtain ⟨decl, hdecl, hinfo⟩ := exists_of_genericUnions hinfo
    exact ⟨decl, hdecl, (genericUnionOf_eq_some hinfo).2.2⟩

end ModernC.Specialize
