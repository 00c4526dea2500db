import ModernC.Optionals.EmitterPaths
import ModernC.Types.Classification

/-!
# The layers agree about an optional

Each layer reads the representation of an optional off the head of its payload, the checker and the
reflection within their depth guards. `optional_alike` says for which payloads they agree; it
assumes that the payload was interned and that its aliases are within the guard.
-/

namespace ModernC.Optionals

open Layout (Decls maxDepth)
open Syntax (Ident TypeExpr)
open Types

/-! ## The checker -/

section Checker

variable {tables : NameTables}

lemma resolveAliasType_head {ty : TypeExpr} (hhead : tables.IsHead ty) :
    tables.resolveAliasType ty = ty := by
  have hguard : 0 + tables.hops ty ≤ depthGuard + 1 := by
    rw [NameTables.hops_of_isHead hhead]
    exact Nat.zero_le _
  exact (NameTables.resolveAliasTypeDepth_eq_head ty 0 (.inr hguard)).trans
    (NameTables.head_of_isHead hhead)

lemma classifyTypeCtx_head {ty : TypeExpr} (hhead : tables.IsHead ty)
    (hnullable : ∀ child, ty ≠ .nullable child) :
    tables.classifyTypeCtx ty = classifyType ty := by
  have hresolved := resolveAliasType_head hhead
  rw [NameTables.classifyTypeCtx.eq_def]
  split
  · next inner hinner =>
    rw [hresolved, NameTables.nullableInnerType_eq_some_iff hhead] at hinner
    exact absurd hinner (hnullable inner)
  · rw [hresolved]

/-- **The checker** classifies an optional by the head of its payload. -/
lemma nullableRepr_classifyTypeCtx {child : TypeExpr} (hguard : tables.hops child ≤ depthGuard + 1)
    (hnullable : ∀ inner, tables.head child ≠ .nullable inner) :
    (tables.classifyTypeCtx (.nullable child)).nullableRepr =
      if (classifyType (tables.head child)).isPointer then .pointerNiche
      else if isDynTraitTypeExpr (tables.head child) then .traitObject
      else if (classifyType (tables.head child)).isValueOptionalPayloadClass ||
          tables.namedTypeIsKnownValue (tables.head child) then .taggedValue
      else .neither := by
  have hresolved : tables.resolveAliasType child = tables.head child := by
    refine NameTables.resolveAliasTypeDepth_eq_head child 0 (.inr ?_)
    rwa [Nat.zero_add]
  have houter : tables.resolveAliasType (.nullable child) = .nullable child :=
    resolveAliasType_head trivial
  rw [NameTables.classifyTypeCtx.eq_def]
  split
  · next inner hinner =>
    rw [houter] at hinner
    obtain rfl := Option.some.inj hinner
    rw [hresolved, classifyTypeCtx_head (NameTables.isHead_head child) hnullable,
      NameTables.nullableRepr_nullableClassCtx]
  · next hinner =>
    rw [houter] at hinner
    exact absurd hinner (Option.some_ne_none child)

end Checker

/-! ## The reflection -/

namespace Module

variable {m : Module}

/-- A type that is its own head is resolved to itself, up to where its name stands. -/
lemma resolveReflectionAlias_name {id : Ident} (h : m.tables.aliases.lookup id.text = none)
    (fuel : ℕ) : ∃ id', Layout.Sema.resolveReflectionAlias m.decls (.name id) fuel = .name id' ∧
      id'.text = id.text := by
  induction fuel generalizing id with
  | zero => exact ⟨id, rfl, rfl⟩
  | succ fuel ih =>
    rw [Layout.Sema.resolveReflectionAlias]
    split
    · next target htarget =>
      have hself := m.decls_alias.mp htarget
      rw [NameTables.checkerAliases, h, Option.orElse_none] at hself
      obtain ⟨-, hself⟩ := Option.ite_none_right_eq_some.mp hself
      obtain rfl := Option.some.inj hself
      exact ih h
    · exact ⟨id, rfl, rfl⟩

/-- **The reflection** finds the head of a type within its depth guard. -/
lemma resolveReflectionAlias_head {ty : TypeExpr} {fuel : ℕ} (h : m.tables.hops ty ≤ fuel) :
    (∀ id, m.tables.head ty = .name id →
      ∃ id', Layout.Sema.resolveReflectionAlias m.decls ty fuel = .name id' ∧
        id'.text = id.text) ∧
      (¬IsBareName (m.tables.head ty) →
        Layout.Sema.resolveReflectionAlias m.decls ty fuel = m.tables.head ty) := by
  induction ty using NameTables.resolution_induction m.tables generalizing fuel with
  | aliasName id target halias ih =>
    rw [NameTables.hops_alias halias] at h
    obtain ⟨fuel, rfl⟩ : ∃ k, fuel = k + 1 := ⟨fuel - 1, by omega⟩
    have hdecl : m.decls id.text = some (.alias_ target) :=
      m.decls_alias.mpr (NameTables.checkerAliases_of_alias halias)
    rw [NameTables.head_alias halias, Layout.Sema.resolveReflectionAlias, hdecl]
    exact ih (by omega)
  | qualified mutability child ih =>
    rw [NameTables.hops_qualified] at h
    obtain ⟨fuel, rfl⟩ : ∃ k, fuel = k + 1 := ⟨fuel - 1, by omega⟩
    rw [NameTables.head_qualified, Layout.Sema.resolveReflectionAlias]
    exact ih (by omega)
  | isHead ty hhead =>
    rw [NameTables.head_of_isHead hhead]
    constructor
    · rintro id rfl
      exact resolveReflectionAlias_name hhead fuel
    · intro hbare
      rcases fuel with _ | fuel
      · rfl
      · cases ty with
        | name => exact absurd trivial hbare
        | qualified => exact hhead.elim
        | _ => rfl

end Module

lemma comptimeTaggedOptionalLayout_tagged {size alignment : ℤ} {layout : ComptimeOptionalLayout}
    (h : comptimeTaggedOptionalLayout size alignment = some layout) :
    layout.representation = .tagged := by
  rw [comptimeTaggedOptionalLayout] at h
  obtain ⟨-, h⟩ := Option.ite_none_left_eq_some.mp h
  obtain ⟨payloadOffset, hoffset, h⟩ := Option.bind_eq_some_iff.mp h
  obtain ⟨stop, -, h⟩ := Option.bind_eq_some_iff.mp h
  obtain ⟨total, -, h⟩ := Option.bind_eq_some_iff.mp h
  obtain rfl := Option.some.inj h
  obtain ⟨-, -, hle, -⟩ := Layout.alignForward_spec Int.one_nonneg hoffset
  refine if_neg ?_
  dsimp only
  omega

/-- The scalars fit behind a presence byte. -/
lemma scalarLayout_tagged : ∀ name ∈ scalarNames, name ≠ "c_void" ∧
    ∃ size, Layout.scalarLayout name = some size ∧
      (comptimeTaggedOptionalLayout size size).isSome := by
  decide

/-! ## The layers -/

namespace Module

variable (m : Module)

/-- How the checker takes an optional. -/
def checked (child : TypeExpr) : Option Representation :=
  classRepresentation (m.tables.classifyTypeCtx (.nullable child))

/-- How the reflection lays an optional out. -/
def laidOut (child : TypeExpr) (depth : ℕ) : Option Representation :=
  (m.comptimeNullableLayout child depth).map ComptimeOptionalLayout.representation

/-- **The layers agree** about an optional: either path of the emitter picks the representation that
the checker and the reflection both have. -/
structure Alike (child : TypeExpr) (n depth : ℕ) : Prop where
  onSyntax : ∀ repr, (m.appendNullable child).representation = repr ↔
    m.checked child = some repr ∧ m.laidOut child depth = some repr
  onSignature : ∀ repr, (m.appendSignatureNullable n).representation = repr ↔
    m.checked child = some repr ∧ m.laidOut child depth = some repr

/-- A name of which the reflection computes the layout of an optional. -/
def Sized (id : Ident) (depth : ℕ) : Prop :=
  ∃ size alignment, Layout.Sema.comptimeSizeOf m.decls m.comptime (.name id) depth = some size ∧
    Layout.Sema.comptimeAlignOf m.decls m.comptime (.name id) depth = some alignment ∧
    (comptimeTaggedOptionalLayout size alignment).isSome

/-- Pointers and trait objects. -/
def IsNichePayload : TypeExpr → Prop
  | .pointer _ _ | .rawManyPointer _ _ | .dynTrait _ _ => True
  | _ => False

/-- **The payloads** that the layers agree about.  The bare name `c_void` is no alias. -/
inductive Payload (child : TypeExpr) (depth : ℕ) : Prop
  | niche (hhead : IsNichePayload (m.tables.head child)) (hsteps : ¬BareStep m.tables child)
  | scalar {id : Ident} (hhead : m.tables.head child = .name id) (hscalar : id.text ∈ scalarNames)
      (hvoid : "c_void" ∉ m.tables.aliasChain child) (hdepth : depth < maxDepth)
  | declared {id : Ident} (hhead : m.tables.head child = .name id)
      (hknown : m.tables.namedTypeIsKnownValue (.name id) = true) (hne : id.text ≠ "c_void")
      (hvoid : "c_void" ∉ m.tables.aliasChain child) (hsized : m.Sized id (depth + 1))

/-- A function pointer, which the checker leaves without a class. -/
structure FnPayload (child : TypeExpr) : Prop where
  head : ∃ params ret, m.tables.head child = .fnPointer params ret
  steps : ¬BareStep m.tables child

variable {m} {child : TypeExpr} {n depth : ℕ}

lemma alike_of_eq (repr : Representation)
    (hrendered : (m.appendNullable child).representation = repr)
    (hsignature : (m.appendSignatureNullable n).representation = repr)
    (hchecked : m.checked child = some repr) (hlaidOut : m.laidOut child depth = some repr) :
    m.Alike child n depth := by
  have hall : ∀ repr', repr = repr' ↔
      m.checked child = some repr' ∧ m.laidOut child depth = some repr' := by
    intro repr'
    rw [hchecked, hlaidOut, and_self, Option.some.injEq]
  exact ⟨hrendered ▸ hall, hsignature ▸ hall⟩

lemma representation_appendNullable (m : Module) (child : TypeExpr) :
    (m.appendNullable child).representation =
      if nullablePayloadIsValueType m.tables child then .tagged else .niche := by
  rw [appendNullable]
  split <;> rfl

/-- The emitter picks one representation on both paths. -/
lemma representation_appendSignatureNullable (hinterned : Interned m.shapes n child) :
    (m.appendSignatureNullable n).representation = (m.appendNullable child).representation := by
  rw [representation_appendNullable, appendSignatureNullable,
    signatureNullablePayloadIsValueType_eq_typeExpr hinterned]
  split <;> rfl

lemma checked_eq (hguard : m.tables.hops child ≤ depthGuard + 1)
    (hnullable : ∀ inner, m.tables.head child ≠ .nullable inner) :
    m.checked child =
      if (classifyType (m.tables.head child)).isPointer ∨
          isDynTraitTypeExpr (m.tables.head child) then some .niche
      else if (classifyType (m.tables.head child)).isValueOptionalPayloadClass ∨
          m.tables.namedTypeIsKnownValue (m.tables.head child) then some .tagged
      else none := by
  have hclass : ∀ kind : TypeClass, classRepresentation kind =
      match kind.nullableRepr with
      | .pointerNiche | .traitObject => some .niche
      | .taggedValue => some .tagged
      | .neither => none := by
    intro kind
    cases kind <;> rfl
  rw [checked, hclass, nullableRepr_classifyTypeCtx hguard hnullable]
  by_cases hpointer : (classifyType (m.tables.head child)).isPointer = true
  · simp [hpointer]
  · by_cases hdyn : isDynTraitTypeExpr (m.tables.head child) = true
    · simp [hpointer, hdyn]
    · by_cases hvalue : (classifyType (m.tables.head child)).isValueOptionalPayloadClass = true ∨
          m.tables.namedTypeIsKnownValue (m.tables.head child) = true
      · simp [hpointer, hdyn, hvalue]
      · simp [hpointer, hdyn, hvalue]

variable {id : Ident}

/-- A name is laid out as a tagged optional where the reflection computes its layout. -/
lemma laidOut_of_sized (hguard : m.tables.hops child ≤ depthGuard + 1)
    (hhead : m.tables.head child = .name id) (hne : id.text ≠ "c_void")
    (hsized : m.Sized id (depth + 1)) : m.laidOut child depth = some .tagged := by
  obtain ⟨size, alignment, hsize, halignment, hsome⟩ := hsized
  obtain ⟨layout, hlayout⟩ := Option.isSome_iff_exists.mp hsome
  have hfuel : m.tables.hops child ≤ 65 := hguard
  obtain ⟨id', hresolved, htext⟩ := (resolveReflectionAlias_head hfuel).1 id hhead
  have hsize' : Layout.Sema.comptimeSizeOf m.decls m.comptime (.name id') (depth + 1) =
      some size := by
    rw [← hsize, Layout.Sema.comptimeSizeOf, Layout.Sema.comptimeSizeOf, htext]
  have halignment' : Layout.Sema.comptimeAlignOf m.decls m.comptime (.name id') (depth + 1) =
      some alignment := by
    rw [← halignment, Layout.Sema.comptimeAlignOf, Layout.Sema.comptimeAlignOf, htext]
  rw [laidOut, comptimeNullableLayout, hresolved, resolvedLayout, if_neg (htext ▸ hne), hsize',
    halignment']
  rw [← comptimeTaggedOptionalLayout_tagged hlayout]
  exact congrArg (Option.map ComptimeOptionalLayout.representation) hlayout

lemma sized_of_scalar (hscalar : id.text ∈ scalarNames) (hdepth : depth < maxDepth) :
    m.Sized id (depth + 1) := by
  obtain ⟨-, size, hsize, hsome⟩ := scalarLayout_tagged id.text hscalar
  refine ⟨size, size, ?_, ?_, hsome⟩
  · rw [Layout.Sema.comptimeSizeOf, dif_neg (by omega)]
    simp only [hsize]
  · rw [Layout.Sema.comptimeAlignOf, dif_neg (by omega)]
    simp only [hsize]

lemma laidOut_of_not_name (hguard : m.tables.hops child ≤ depthGuard + 1)
    (hbare : ¬IsBareName (m.tables.head child)) :
    m.laidOut child depth = (resolvedLayout
      (fun ty => Layout.Sema.comptimeSizeOf m.decls m.comptime ty (depth + 1))
      (fun ty => Layout.Sema.comptimeAlignOf m.decls m.comptime ty (depth + 1))
      (m.tables.head child)).map ComptimeOptionalLayout.representation := by
  have hfuel : m.tables.hops child ≤ 65 := hguard
  rw [laidOut, comptimeNullableLayout, (resolveReflectionAlias_head hfuel).2 hbare]

/-- A payload that is a name has the tagged representation. -/
lemma alike_of_name (hinterned : Interned m.shapes n child)
    (hguard : m.tables.hops child ≤ depthGuard + 1) (hhead : m.tables.head child = .name id)
    (hne : id.text ≠ "c_void") (hvoid : "c_void" ∉ m.tables.aliasChain child)
    (hvalue : id.text ∈ scalarNames ∨ m.tables.namedTypeIsKnownValue (.name id) = true)
    (hsized : m.Sized id (depth + 1)) : m.Alike child n depth := by
  have hrendered : (m.appendNullable child).representation = .tagged := by
    rw [representation_appendNullable, nullablePayloadIsValueType_of_name hhead hne hvoid]
    rfl
  refine alike_of_eq .tagged hrendered ?_ ?_ (laidOut_of_sized hguard hhead hne hsized)
  · rw [representation_appendSignatureNullable hinterned, hrendered]
  · have hplain := (classifyTypeName_plain id.text).2
    have hpayload := hvalue.imp_left (isValueOptionalPayloadClass_classifyTypeName id.text).mpr
    rw [checked_eq hguard (by simp [hhead]), hhead, classifyType, hplain,
      if_neg (by simp [isDynTraitTypeExpr]), if_pos hpayload]

/-- A payload that is no name stays bare. -/
lemma bare_of_not_name (hinterned : Interned m.shapes n child)
    (hbare : ¬IsBareName (m.tables.head child)) (hsteps : ¬BareStep m.tables child) :
    (m.appendNullable child).representation = .niche ∧
      (m.appendSignatureNullable n).representation = .niche := by
  have hrendered : (m.appendNullable child).representation = .niche := by
    rw [representation_appendNullable, not_nullablePayloadIsValueType hbare hsteps]
    rfl
  exact ⟨hrendered, (representation_appendSignatureNullable hinterned).trans hrendered⟩

/-- What the checker and the reflection read off a pointer or a trait object. -/
lemma IsNichePayload.spec {ty : TypeExpr} (h : IsNichePayload ty) :
    ¬IsBareName ty ∧ (∀ inner, ty ≠ .nullable inner) ∧
      ((classifyType ty).isPointer = true ∨ isDynTraitTypeExpr ty = true) ∧
      ∀ sizeOf alignOf,
        (resolvedLayout sizeOf alignOf ty).map ComptimeOptionalLayout.representation =
          some .niche := by
  cases ty with
  | pointer mutability child | rawManyPointer mutability child =>
    refine ⟨id, nofun, .inl ?_, fun _ _ => rfl⟩
    rw [classifyType]
    split <;> rfl
  | dynTrait => exact ⟨id, nofun, .inr rfl, fun _ _ => rfl⟩
  | _ => exact h.elim

/-- **The layers agree** about an optional within the depth guards; a function pointer stays bare,
and it has the layout of a pointer. -/
theorem optional_alike (m : Module) {child : TypeExpr} {n depth : ℕ}
    (hinterned : Interned m.shapes n child) (hguard : m.tables.hops child ≤ depthGuard + 1) :
    (m.Payload child depth → m.Alike child n depth) ∧
      (m.FnPayload child → (m.appendNullable child).representation = .niche ∧
        (m.appendSignatureNullable n).representation = .niche ∧
        m.laidOut child depth = some .niche ∧ m.checked child = none) := by
  constructor
  · intro hpayload
    cases hpayload with
    | niche hhead hsteps =>
      obtain ⟨hbare, hnullable, hclass, hlayout⟩ := hhead.spec
      obtain ⟨hrendered, hsignature⟩ := bare_of_not_name hinterned hbare hsteps
      refine alike_of_eq .niche hrendered hsignature ?_ ?_
      · rw [checked_eq hguard hnullable, if_pos hclass]
      · rw [laidOut_of_not_name hguard hbare, hlayout]
    | scalar hhead hscalar hvoid hdepth =>
      exact alike_of_name hinterned hguard hhead (scalarLayout_tagged _ hscalar).1 hvoid
        (.inl hscalar) (sized_of_scalar hscalar hdepth)
    | declared hhead hknown hne hvoid hsized =>
      exact alike_of_name hinterned hguard hhead hne hvoid (.inr hknown) hsized
  · rintro ⟨⟨params, ret, hhead⟩, hsteps⟩
    have hbare : ¬IsBareName (m.tables.head child) := by
      rw [hhead]
      exact id
    obtain ⟨hrendered, hsignature⟩ := bare_of_not_name hinterned hbare hsteps
    refine ⟨hrendered, hsignature, ?_, ?_⟩
    · rw [laidOut_of_not_name hguard hbare, hhead]
      rfl
    · rw [checked_eq hguard (by simp [hhead]), hhead]
      rfl

end Module

/-- The name `u8`. -/
def byteType : TypeExpr := .name { text := "u8" }

/-- `type Handle = const *u8;` -/
def handleType : TypeExpr := .qualified .constant (.pointer .none byteType)

def handleAliases : Framework.Table String TypeExpr := AList.singleton "Handle" handleType

lemma lookup_handleAliases {name : String} {ty : TypeExpr} :
    handleAliases.lookup name = some ty ↔ name = "Handle" ∧ ty = handleType := by
  rw [Framework.Table.lookup_eq_some_iff, handleAliases]
  simp

def handleTables : NameTables where
  aliases := handleAliases
  opaques := []
  structs := []
  overlayUnions := []
  enums := ∅
  packedBits := []
  taggedUnions := []
  typeParams := []
  rank _ := 0
  rank_lt h := by
    obtain ⟨-, rfl⟩ := lookup_handleAliases.mp h
    exact nofun

def handles : Module where
  tables := handleTables
  decls name := if name = "Handle" then some (.alias_ handleType) else none
  comptime _ := none
  shapes := [.name "u8", .pointer .none 0, .qualified .constant 1, .name "Handle"]
  aliasTarget name := if name = "Handle" then some 2 else none
  ordered := by
    intro n shape hshape
    rcases n with _ | _ | _ | _ | n
    · obtain rfl := Option.some.inj hshape
      exact nofun
    · obtain rfl := Option.some.inj hshape
      simp [TypeShape.children]
    · obtain rfl := Option.some.inj hshape
      simp [TypeShape.children]
    · obtain rfl := Option.some.inj hshape
      exact nofun
    · exact nomatch hshape
  aliasTarget_none := by
    intro name hnone
    refine if_neg fun hname => ?_
    exact nomatch hnone.symm.trans (lookup_handleAliases.mpr ⟨hname, rfl⟩)
  aliasTarget_some := by
    intro name ty hsome
    obtain ⟨rfl, rfl⟩ := lookup_handleAliases.mp hsome
    exact ⟨2, rfl, .qualified rfl (.pointer rfl (.name rfl))⟩
  decls_alias := by
    intro name ty
    have hchecker : handleTables.checkerAliases name = handleAliases.lookup name := by
      show (handleAliases.lookup name).orElse _ = _
      rcases handleAliases.lookup name with _ | target
      · rfl
      · rfl
    rw [hchecker, lookup_handleAliases]
    by_cases hname : name = "Handle"
    · simp [hname, eq_comm]
    · simp [hname]

theorem handles_alike : handles.Alike (.name { text := "Handle" }) 3 1 := by
  have hlookup : handles.tables.aliases.lookup "Handle" = some handleType :=
    lookup_handleAliases.mpr ⟨rfl, rfl⟩
  have hpointer : handles.tables.IsHead (.pointer .none byteType) := trivial
  have hhead : handles.tables.head (.name { text := "Handle" }) = .pointer .none byteType := by
    rw [NameTables.head_alias hlookup, handleType, NameTables.head_qualified,
      NameTables.head_of_isHead hpointer]
  have hhops : handles.tables.hops (.name { text := "Handle" }) = 2 := by
    rw [NameTables.hops_alias hlookup, handleType, NameTables.hops_qualified,
      NameTables.hops_of_isHead hpointer]
  have hsteps : ¬BareStep handles.tables (.name { text := "Handle" }) := by
    rw [BareStep.alias_iff hlookup, handleType, BareStep, NameTables.aliasChain_qualified,
      NameTables.aliasChain_of_isHead hpointer]
    simp [IsBareName]
  exact (Module.optional_alike handles (.name rfl) (hhops ▸ by decide)).1
    (.niche (hhead ▸ trivial) hsteps)

/-! ## Where the layers disagree -/

lemma rank_lt_empty {name : String} {ty : TypeExpr}
    (h : (∅ : Framework.Table String TypeExpr).lookup name = some ty) : ∀ followed ∈ followedNames ty,
      ((∅ : Framework.Table String TypeExpr).lookup followed).isSome → 0 < 0 :=
  absurd h (by simp)

/-- A struct `S` that holds a `Result`, and no alias. -/
def holderTables : NameTables where
  aliases := ∅
  opaques := []
  structs := ["S"]
  overlayUnions := []
  enums := ∅
  packedBits := []
  taggedUnions := []
  typeParams := []
  rank _ := 0
  rank_lt := @rank_lt_empty

/-- `u8`, `fn() -> u8`, `S`, `*u8` and its qualified types. -/
def holderShapes : List TypeShape :=
  [.name "u8", .fnPointer [] 0, .name "S", .pointer .none 0] ++
    (List.range 66).map fun i => .qualified .constant (i + 3)

lemma holderShapes_ordered : ∀ i : Fin holderShapes.length,
    ∀ child ∈ (holderShapes[i]).children, child < i := by
  decide

def holder : Module where
  tables := holderTables
  decls name := if name = "S" then
    some (.struct [⟨"r", .generic { text := "Result" } [byteType, byteType], none⟩] false) else none
  comptime _ := none
  shapes := holderShapes
  aliasTarget _ := none
  ordered := by
    intro n shape hshape child hchild
    obtain ⟨hlt, rfl⟩ := List.getElem?_eq_some_iff.mp hshape
    exact holderShapes_ordered ⟨n, hlt⟩ child hchild
  aliasTarget_none _ := rfl
  aliasTarget_some h := absurd h (by simp [holderTables])
  decls_alias := by
    intro name ty
    refine iff_of_false ?_ ?_
    · split
      · exact nofun
      · exact nofun
    · simp [NameTables.checkerAliases, holderTables]

/-- `*u8` behind qualifiers. -/
def qualifiedPointer : ℕ → TypeExpr
  | 0 => .pointer .none byteType
  | k + 1 => .qualified .constant (qualifiedPointer k)

lemma interned_byteType : Interned holder.shapes 0 byteType := .name rfl

lemma interned_qualifiedPointer {k : ℕ} (hk : k ≤ 66) :
    Interned holder.shapes (k + 3) (qualifiedPointer k) := by
  induction k with
  | zero => exact .pointer rfl interned_byteType
  | succ k ih =>
    refine .qualified ?_ (ih (by omega))
    have hrange : (List.range 66)[k]? = some k := List.getElem?_range (by omega)
    show (_ ++ _)[k + 1 + 3]? = _
    rw [List.getElem?_append_right (by simp), List.getElem?_map]
    simp [hrange]

/-- The reflection gives up in the middle of the qualifiers. -/
lemma resolveReflectionAlias_qualifiedPointer (decls : Decls) (k fuel : ℕ) :
    Layout.Sema.resolveReflectionAlias decls (qualifiedPointer (k + fuel)) fuel =
      qualifiedPointer k := by
  induction fuel with
  | zero => rfl
  | succ fuel ih => exact ih

namespace Module

lemma Alike.laidOut_isSome {m : Module} {child : TypeExpr} {n depth : ℕ}
    (h : m.Alike child n depth) : (m.laidOut child depth).isSome := by
  have hlaidOut := ((h.onSyntax _).mp rfl).2
  rw [hlaidOut]
  rfl

lemma Alike.checked_isSome {m : Module} {child : TypeExpr} {n depth : ℕ}
    (h : m.Alike child n depth) : (m.checked child).isSome := by
  have hchecked := ((h.onSyntax _).mp rfl).1
  rw [hchecked]
  rfl

end Module

/-- The reflection has no size of the struct. -/
lemma comptimeSizeOf_holder :
    Layout.Sema.comptimeSizeOf holder.decls holder.comptime (.name { text := "S" }) 2 = none := by
  have hresult : Layout.Sema.comptimeSizeOf holder.decls holder.comptime
      (.generic { text := "Result" } [byteType, byteType]) 3 = none := by
    rw [Layout.Sema.comptimeSizeOf]
    rfl
  have hscalar : Layout.scalarLayout "S" = none := by decide
  rw [Layout.Sema.comptimeSizeOf, dif_neg (by decide)]
  dsimp only
  rw [hscalar]
  show Option.map _ (Option.bind (Option.bind (Option.bind
    (Layout.Sema.comptimeSizeOf holder.decls holder.comptime
      (.generic { text := "Result" } [byteType, byteType]) 3) _) _) _) = _
  rw [hresult]
  rfl

/-- The checker leaves a function pointer without a class, and the reflection lays out neither a
struct with a `Result` nor a pointer behind more qualifiers than its depth guard. -/
theorem holder_not_alike :
    (Interned holder.shapes 1 (.fnPointer [] byteType) ∧
      ¬holder.Alike (.fnPointer [] byteType) 1 1) ∧
    (Interned holder.shapes 2 (.name { text := "S" }) ∧
      ¬holder.Alike (.name { text := "S" }) 2 1) ∧
    (Interned holder.shapes 69 (qualifiedPointer 66) ∧
      ¬holder.Alike (qualifiedPointer 66) 69 1) := by
  refine ⟨⟨.fnPointer rfl .nil interned_byteType, fun h => ?_⟩, ⟨.name rfl, fun h => ?_⟩,
    ⟨interned_qualifiedPointer (by omega), fun h => ?_⟩⟩
  · have hhead : holder.tables.head (.fnPointer [] byteType) = .fnPointer [] byteType :=
      NameTables.head_of_isHead trivial
    have hchecked : holder.checked (.fnPointer [] byteType) = none := by
      have hhops : holder.tables.hops (.fnPointer [] byteType) = 0 :=
        NameTables.hops_of_isHead trivial
      rw [Module.checked_eq (hhops ▸ Nat.zero_le _) (by simp [hhead]), hhead]
      rfl
    exact nomatch hchecked ▸ h.checked_isSome
  · have hlaidOut : holder.laidOut (.name { text := "S" }) 1 = none := by
      rw [Module.laidOut, Module.comptimeNullableLayout]
      show Option.map _ (Option.bind (Layout.Sema.comptimeSizeOf holder.decls holder.comptime
        (.name { text := "S" }) 2) _) = _
      rw [comptimeSizeOf_holder]
      rfl
    exact nomatch hlaidOut ▸ h.laidOut_isSome
  · have hlaidOut : holder.laidOut (qualifiedPointer 66) 1 = none := by
      rw [Module.laidOut, Module.comptimeNullableLayout,
        resolveReflectionAlias_qualifiedPointer holder.decls 1 65]
      rfl
    exact nomatch hlaidOut ▸ h.laidOut_isSome

end ModernC.Optionals
