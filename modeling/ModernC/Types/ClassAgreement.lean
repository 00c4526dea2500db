import ModernC.Types.Classification

/-!
# The agreement of the classifiers

The MIR builder and the checker agree about a type exactly if it is `readAlike`.
-/

namespace ModernC.Types

open Syntax (TypeExpr Ident Mutability)

namespace DeclTables

open NameTables

variable {tables : DeclTables}

/-! ## Names -/

lemma scalarClass_eq_other_iff (name : String) :
    (tables.namedValueTypeAlias name).scalarClass = .other ↔ ¬ tables.mirScalarName name := by
  rw [scalarClass_namedValueTypeAlias]
  unfold mirScalarName
  by_cases hpacked : name ∈ tables.packedBits
  · have hdeclared : tables.declaredInMir name := Or.inl hpacked
    simp [hpacked, hdeclared]
  · by_cases hbool : name = "bool"
    · simp [hbool]
    by_cases haddress : name ∈ addressNames
    · simp [hpacked, hbool, haddress]
    by_cases hdeclared : tables.declaredInMir name
    · simp [hbool, haddress, hdeclared]
    by_cases hspelled : SpelledAsInteger name
    · simp [hpacked, hbool, haddress, hdeclared, hspelled]
    by_cases hfloat : name ∈ floatNames <;>
      simp [hpacked, hbool, haddress, hdeclared, hspelled, hfloat]

lemma nullableRepr_namedValueTypeAlias (name : String) :
    (tables.namedValueTypeAlias name).nullableRepr = .neither ∧
      (tables.namedValueTypeAlias name).isPointer = false := by
  have hite (p : Prop) [Decidable p] (v w : ValueType)
      (hv : v.nullableRepr = .neither ∧ v.isPointer = false)
      (hw : w.nullableRepr = .neither ∧ w.isPointer = false) :
      (if p then v else w).nullableRepr = .neither ∧ (if p then v else w).isPointer = false := by
    by_cases h : p
    · rwa [if_pos h]
    · rwa [if_neg h]
  unfold namedValueTypeAlias namedValueType
  repeat' refine hite _ _ _ ⟨rfl, rfl⟩ ?_
  cases tables.enums.lookup name with
  | none => repeat' first | exact ⟨rfl, rfl⟩ | refine hite _ _ _ ⟨rfl, rfl⟩ ?_
  | some info => exact hite _ _ _ ⟨rfl, rfl⟩ ⟨rfl, rfl⟩

/-- Both classifiers find one scalar class for a name exactly if it is spelled for it. -/
lemma scalarClass_name_iff (name : String) :
    (tables.namedValueTypeAlias name).scalarClass = (classifyTypeName name).scalarClass ↔
      tables.nameAlike name := by
  rw [scalarClass_namedValueTypeAlias, scalarClass_classifyTypeName]
  unfold nameAlike
  by_cases hint : name ∈ checkedIntNames
  · have hspelled := checkedIntNames_spelled name hint
    have hnames : name ≠ "bool" ∧ name ∉ addressNames := checkedIntNames_only name hint
    by_cases hpacked : name ∈ tables.packedBits
    · have hdeclared : tables.declaredInMir name := Or.inl hpacked
      simp [hint, hpacked, hdeclared]
    by_cases hdeclared : tables.declaredInMir name <;>
      simp [hint, hpacked, hnames, hdeclared, hspelled]
  by_cases hfloat : name ∈ floatNames
  · have hnames : name ≠ "bool" ∧ name ∉ addressNames ∧ ¬ SpelledAsInteger name :=
      floatNames_only name hfloat
    by_cases hpacked : name ∈ tables.packedBits
    · have hdeclared : tables.declaredInMir name := Or.inl hpacked
      simp [hint, hfloat, hpacked, hdeclared]
    by_cases hdeclared : tables.declaredInMir name <;>
      simp [hint, hfloat, hpacked, hnames, hdeclared]
  by_cases hbool : name = "bool"
  · subst hbool
    have hnames : "bool" ∉ checkedIntNames ∧ "bool" ∉ floatNames := ⟨hint, hfloat⟩
    by_cases hpacked : "bool" ∈ tables.packedBits <;> simp [hnames, hpacked]
  by_cases haddress : name ∈ addressNames
  · by_cases hpacked : name ∈ tables.packedBits <;> simp [hint, hfloat, hbool, haddress, hpacked]
  by_cases hpacked : name ∈ tables.packedBits
  · have hdeclared : tables.declaredInMir name := Or.inl hpacked
    simp [hint, hfloat, hbool, haddress, hpacked, hdeclared]
  by_cases hdeclared : tables.declaredInMir name <;> by_cases hspelled : SpelledAsInteger name <;>
    simp [hint, hfloat, hbool, haddress, hpacked, hdeclared, hspelled]

/-! ## The MIR builder -/

variable {base : Ident} {args : List TypeExpr} {depth : ℕ}

lemma genericValueTypeAlias_of_lookedThrough
    {inner : TypeExpr} (h : tables.lookedThrough base args = some inner) :
    tables.genericValueTypeAlias base args = tables.valueTypeFromTypeAliasDepth inner 0 := by
  unfold lookedThrough at h
  split at h
  · cases h
  rename_i hnot
  simp only [Bool.or_eq_true, decide_eq_true_eq, not_or, addressBases, List.mem_cons,
    List.not_mem_nil, or_false, Option.not_isSome_iff_eq_none] at hnot
  obtain ⟨⟨hresult, huser, hmmio, hphys⟩, hdomain⟩ := hnot
  rw [genericValueTypeAlias, if_neg hresult, if_neg huser, if_neg hmmio, if_neg hphys, hdomain]
  simp only
  split
  · rename_i arg hsecret
    rw [hsecret, Option.some_or] at h
    cases h
    rfl
  · rename_i hsecret
    rw [hsecret, Option.none_or] at h
    split
    · rename_i heq
      rw [h] at heq
      cases heq
      rfl
    · rename_i heq
      rw [h] at heq
      cases heq

/-- A generic type that is not looked through is a `Result`, an address, a domain integer, or
what its base names. -/
lemma genericValueTypeAlias_of_not_lookedThrough (h : tables.lookedThrough base args = none) :
    tables.genericValueTypeAlias base args =
      if base.text = "Result" then .result (tables.resultShapeAlias args)
      else if base.text = "UserPtr" then .address .userPtr
      else if base.text = "MmioPtr" then .address .mmioPtr
      else if base.text = "PhysPtr" then .address .physPtr
      else (tables.domainIntegerValueTypeAlias base.text args).getD
        (tables.namedValueTypeAlias base.text) := by
  rw [genericValueTypeAlias]
  split
  · rfl
  rename_i hresult
  split
  · rfl
  rename_i huser
  split
  · rfl
  rename_i hmmio
  split
  · rfl
  rename_i hphys
  cases hdomain : tables.domainIntegerValueTypeAlias base.text args with
  | some domain => rfl
  | none =>
    unfold lookedThrough at h
    rw [if_neg (by simp [addressBases, hresult, huser, hmmio, hphys, hdomain]),
      Option.or_eq_none_iff] at h
    simp only [Option.getD_none]
    split
    · rename_i heq
      rw [h.1] at heq
      cases heq
    · split
      · rename_i heq
        rw [h.2] at heq
        cases heq
      · rfl

lemma mirHead_spec {ty head : TypeExpr} {atDepth : ℕ}
    (h : tables.mirHead ty depth = some (atDepth, head)) :
    atDepth ≤ depthGuard ∧ tables.IsHead head ∧
      ∀ base args, head = .generic base args → tables.lookedThrough base args = none := by
  fun_induction mirHead tables ty depth with
  | case1 => cases h
  | case2 ty depth _ base args _ inner _ ih => exact ih h
  | case3 ty depth hdepth base args _ hnone =>
    cases h
    refine ⟨by omega, trivial, ?_⟩
    rintro _ _ ⟨⟩
    exact hnone
  | case4 ty depth hdepth hgeneric =>
    cases h
    exact ⟨by omega, isHead_head ty, fun base args heq => (hgeneric base args heq).elim⟩

/-- **The MIR builder reads a type off the type that it finds.** -/
theorem valueTypeFromTypeAliasDepth_eq_mirHead (ty : TypeExpr) (depth : ℕ) :
    tables.valueTypeFromTypeAliasDepth ty depth =
      match tables.mirHead ty depth with
      | none => .value
      | some (atDepth, head) => tables.valueTypeFromTypeAliasDepth head atDepth := by
  fun_induction mirHead tables ty depth with
  | case1 ty depth hdepth => rw [valueTypeFromTypeAliasDepth_eq, if_pos hdepth]
  | case2 ty depth hdepth base args hhead inner hinner ih =>
    rw [valueTypeFromTypeAliasDepth_eq, if_neg hdepth, hhead,
      valueTypeFromTypeAliasDepth.eq_def, if_neg hdepth, ← ih]
    exact genericValueTypeAlias_of_lookedThrough hinner
  | case3 ty depth hdepth base args hhead _ =>
    rw [valueTypeFromTypeAliasDepth_eq, if_neg hdepth, hhead]
  | case4 ty depth hdepth _ =>
    rw [valueTypeFromTypeAliasDepth_eq, if_neg hdepth]

lemma valueType_name {id : Ident} (hdepth : depth ≤ depthGuard) (hhead : tables.IsHead (.name id)) :
    tables.valueTypeFromTypeAliasDepth (.name id) depth = tables.namedValueTypeAlias id.text := by
  rw [valueTypeFromTypeAliasDepth.eq_def, if_neg (by omega)]
  simp only
  split
  · rename_i heq
    rw [show tables.aliases.lookup id.text = none from hhead] at heq
    cases heq
  · rfl

lemma valueType_nullable {child : TypeExpr} (hdepth : depth ≤ depthGuard) :
    tables.valueTypeFromTypeAliasDepth (.nullable child) depth =
      tables.nullableValueType child (tables.valueTypeFromTypeAliasDepth child (depth + 1)) := by
  rw [valueTypeFromTypeAliasDepth.eq_def, if_neg (by omega)]

lemma valueType_generic (hdepth : depth ≤ depthGuard) :
    tables.valueTypeFromTypeAliasDepth (.generic base args) depth =
      tables.genericValueTypeAlias base args := by
  rw [valueTypeFromTypeAliasDepth.eq_def, if_neg (by omega)]

lemma domainIntegerValueTypeAlias_eq_some {name : String}
    {domain : ValueType} (h : tables.domainIntegerValueTypeAlias name args = some domain) :
    (integerDomainKind name).isSome ∧ ∃ shape, domain = .domainInteger shape := by
  unfold domainIntegerValueTypeAlias at h
  split at h
  · split at h
    · split at h
      · obtain ⟨kind, hkind, rfl⟩ := Option.map_eq_some_iff.mp h
        exact ⟨by simp [hkind], _, rfl⟩
      · cases h
    · cases h
  · cases h

/-- The bases that are no names of types say nothing when they are read as names. -/
lemma scalarClass_base {name : String} (h : name = "Result" ∨ (integerDomainKind name).isSome) :
    (tables.namedValueTypeAlias name).scalarClass = .other := by
  have hplain : name ∉ "bool" :: addressNames ∧ ¬ SpelledAsInteger name ∧ name ∉ floatNames := by
    rcases h with rfl | h
    · decide
    · unfold integerDomainKind at h
      split at h <;> first | decide | cases h
  rw [scalarClass_eq_other_iff]
  unfold mirScalarName
  rw [if_neg hplain.1]
  exact fun h' => h'.2.elim hplain.2.1 hplain.2.2

lemma isPayload_namedValueTypeAlias (name : String) :
    (tables.namedValueTypeAlias name).isPayload = true ↔
      name ∈ scalarNames ∨ tables.mirTaggedName name := by
  rw [← isTaggedPayload_namedValueTypeAlias, ValueType.isPayload,
    (nullableRepr_namedValueTypeAlias name).2, Bool.false_or]

/-- **What the MIR builder reads off a generic type that it does not look through.** -/
lemma genericValueTypeAlias_spec (h : tables.lookedThrough base args = none) :
    (tables.genericValueTypeAlias base args).scalarClass =
        (if base.text ∈ addressBases then .address
          else (tables.namedValueTypeAlias base.text).scalarClass) ∧
      (tables.genericValueTypeAlias base args).nullableRepr = .neither ∧
      ((tables.genericValueTypeAlias base args).isPayload = true ↔
        base.text ∈ addressBases ∨
          (tables.domainIntegerValueTypeAlias base.text args).isSome ∨
          base.text ≠ "Result" ∧ (base.text ∈ scalarNames ∨ tables.mirTaggedName base.text)) := by
  rw [genericValueTypeAlias_of_not_lookedThrough h]
  by_cases hresult : base.text = "Result"
  · have hdomain : tables.domainIntegerValueTypeAlias "Result" args = none := by
      rw [Option.eq_none_iff_forall_ne_some]
      intro domain hdomain
      have := (domainIntegerValueTypeAlias_eq_some hdomain).1
      simp [integerDomainKind] at this
    have hclass : (tables.namedValueTypeAlias "Result").scalarClass = .other :=
      scalarClass_base (Or.inl rfl)
    rw [hresult, if_pos rfl, hdomain, hclass]
    refine ⟨rfl, rfl, ?_⟩
    simp [addressBases, ValueType.isPayload, ValueType.isPointer, ValueType.isTaggedPayload]
  by_cases haddress : base.text ∈ addressBases
  · have hcases := haddress
    simp only [addressBases, List.mem_cons, List.not_mem_nil, or_false] at hcases
    rcases hcases with hbase | hbase | hbase <;>
      simp [hbase, addressBases, ValueType.scalarClass, ValueType.nullableRepr,
        ValueType.isPayload, ValueType.isPointer, ValueType.isTaggedPayload]
  have hbases : base.text ≠ "UserPtr" ∧ base.text ≠ "MmioPtr" ∧ base.text ≠ "PhysPtr" := by
    simpa [addressBases] using haddress
  rw [if_neg hresult, if_neg hbases.1, if_neg hbases.2.1, if_neg hbases.2.2, if_neg haddress]
  cases hdomain : tables.domainIntegerValueTypeAlias base.text args with
  | none =>
    simp only [Option.getD_none, isPayload_namedValueTypeAlias,
      (nullableRepr_namedValueTypeAlias base.text).1]
    simp [hresult, haddress]
  | some domain =>
    obtain ⟨hkind, shape, rfl⟩ := domainIntegerValueTypeAlias_eq_some hdomain
    rw [scalarClass_base (Or.inr hkind)]
    simp [ValueType.scalarClass, ValueType.nullableRepr, ValueType.isPayload,
      ValueType.isPointer, ValueType.isTaggedPayload]

/-- **What an optional may hold, read off the type that the MIR builder finds.** -/
theorem isPayload_iff (ty : TypeExpr) (depth : ℕ) :
    (tables.valueTypeFromTypeAliasDepth ty depth).isPayload = true ↔
      tables.mirPayload ty depth := by
  rw [valueTypeFromTypeAliasDepth_eq_mirHead]
  unfold mirPayload
  cases hfound : tables.mirHead ty depth with
  | none => simp [ValueType.isPayload, ValueType.isPointer, ValueType.isTaggedPayload]
  | some found =>
    obtain ⟨atDepth, head⟩ := found
    obtain ⟨hdepth, hhead, hgeneric⟩ := mirHead_spec hfound
    cases head with
    | name id =>
      simp only
      rw [valueType_name hdepth hhead, isPayload_namedValueTypeAlias]
    | generic base args =>
      simp only
      rw [valueType_generic hdepth, (genericValueTypeAlias_spec (hgeneric base args rfl)).2.2]
    | nullable child =>
      simp only
      rw [valueType_nullable hdepth, isPayload_nullableValueType]
      simp
    | qualified => exact hhead.elim
    | _ =>
      simp only
      rw [valueTypeFromTypeAliasDepth.eq_def, if_neg (by omega)]
      simp [ValueType.isPayload, ValueType.isPointer, ValueType.isTaggedPayload]

lemma nullableRepr_nullable (child : TypeExpr) (childTy : ValueType) :
    (tables.nullableValueType child childTy).nullableRepr = .neither ↔
      childTy.isPayload = false ∧ isDynTraitMirType child = false := by
  rw [nullableRepr_nullableValueType, ValueType.isPayload]
  cases childTy.isPointer <;> cases childTy.isTaggedPayload <;>
    cases isDynTraitMirType child <;> simp

/-- **Where the MIR builder sees neither a scalar nor an optional.** -/
theorem mirPlain_iff (ty : TypeExpr) (depth : ℕ) :
    (tables.valueTypeFromTypeAliasDepth ty depth).scalarClass = .other ∧
        (tables.valueTypeFromTypeAliasDepth ty depth).nullableRepr = .neither ↔
      tables.mirPlain ty depth := by
  rw [valueTypeFromTypeAliasDepth_eq_mirHead]
  unfold mirPlain
  cases hfound : tables.mirHead ty depth with
  | none => simp [ValueType.scalarClass, ValueType.nullableRepr]
  | some found =>
    obtain ⟨atDepth, head⟩ := found
    obtain ⟨hdepth, hhead, hgeneric⟩ := mirHead_spec hfound
    cases head with
    | name id =>
      simp only
      rw [valueType_name hdepth hhead, scalarClass_eq_other_iff]
      simp [(nullableRepr_namedValueTypeAlias id.text).1]
    | generic base args =>
      simp only
      obtain ⟨hclass, hrepr, -⟩ := genericValueTypeAlias_spec (hgeneric base args rfl)
      rw [valueType_generic hdepth, hclass, hrepr, ← scalarClass_eq_other_iff]
      by_cases haddress : base.text ∈ addressBases <;> simp [haddress]
    | nullable child =>
      simp only
      rw [valueType_nullable hdepth, scalarClass_nullableValueType, nullableRepr_nullable,
        ← isPayload_iff]
      simp
    | qualified => exact hhead.elim
    | _ =>
      simp only
      rw [valueTypeFromTypeAliasDepth.eq_def, if_neg (by omega)]
      simp [ValueType.scalarClass, ValueType.nullableRepr]

/-! ## The checker -/

lemma head_of_isDynTraitMirType {ty : TypeExpr} (h : isDynTraitMirType ty = true) :
    ∃ mutability traitName, tables.head ty = .dynTrait mutability traitName := by
  fun_induction isDynTraitMirType ty with
  | case1 mutability traitName => exact ⟨mutability, traitName, head_of_isHead trivial⟩
  | case2 mutability child ih =>
    rw [head_qualified]
    exact ih h
  | case3 => cases h

lemma isDynTraitMirType_eq_false {ty : TypeExpr}
    (h : ∀ mutability traitName, tables.head ty ≠ .dynTrait mutability traitName) :
    isDynTraitMirType ty = false := by
  rw [Bool.eq_false_iff]
  intro hdyn
  obtain ⟨mutability, traitName, hhead⟩ := head_of_isDynTraitMirType hdyn
  exact h mutability traitName hhead

/-- **What an optional may hold, read off the head that the checker finds.** -/
theorem checkerPayload_iff (ty : TypeExpr) :
    (tables.classifyTypeCtx ty).isPointer = true ∨
        ((tables.classifyTypeCtx ty).isValueOptionalPayloadClass ||
          tables.namedTypeIsKnownValue (tables.head ty)) = true ↔
      tables.checkerPayload (tables.head ty) := by
  by_cases hnullable : ∃ child, tables.head ty = .nullable child
  · obtain ⟨child, hchild⟩ := hnullable
    obtain ⟨hpointer, hpayload⟩ := nullableClassCtx_no_payload tables.toNameTables
      (tables.head child) (tables.classifyTypeCtx (tables.head child))
    rw [classifyTypeCtx_nullable hchild, hchild, hpointer, hpayload]
    simp [checkerPayload, namedTypeIsKnownValue, typeName]
  rw [classifyTypeCtx_eq ty (not_exists.mp hnullable)]
  have hhead : tables.IsHead (tables.head ty) := isHead_head ty
  rw [not_exists] at hnullable
  generalize tables.head ty = head at hhead hnullable ⊢
  cases head with
  | name id =>
    simp [checkerPayload, classifyType, (classifyTypeName_plain id.text).2,
      isValueOptionalPayloadClass_classifyTypeName]
  | generic base args =>
    simp [checkerPayload, classifyType, (classifyGenericTypeName_plain base.text).2,
      isValueOptionalPayloadClass_classifyGenericTypeName, namedTypeIsKnownValue, typeName]
  | pointer mutability child | rawManyPointer mutability child =>
    by_cases hvoid : typeNameEql child "c_void" = true <;>
      simp [checkerPayload, classifyType, hvoid, TypeClass.isPointer]
  | slice mutability child =>
    by_cases hvoid : typeNameEql child "c_void" = true
    · simp [checkerPayload, classifyType, hvoid, TypeClass.isPointer]
    · simp [checkerPayload, classifyType, hvoid, TypeClass.isPointer, namedTypeIsKnownValue,
        typeName]
      decide
  | qualified => exact hhead.elim
  | nullable child => exact (hnullable child rfl).elim
  | _ =>
    simp [checkerPayload, classifyType, TypeClass.isPointer, namedTypeIsKnownValue, typeName]
    decide

lemma nullableRepr_nullableClass {inner : TypeExpr} {innerClass : TypeClass} :
    (tables.nullableClassCtx inner innerClass).nullableRepr = .neither ↔
      ¬ (innerClass.isPointer = true ∨
          (innerClass.isValueOptionalPayloadClass || tables.namedTypeIsKnownValue inner) = true) ∧
        isDynTraitTypeExpr inner = false := by
  rw [nullableRepr_nullableClassCtx]
  cases innerClass.isPointer <;> cases isDynTraitTypeExpr inner <;>
    cases (innerClass.isValueOptionalPayloadClass || tables.namedTypeIsKnownValue inner) <;> simp

/-- **Where the checker sees neither a scalar nor an optional.** -/
theorem checkerPlain_iff (ty : TypeExpr) :
    (tables.classifyTypeCtx ty).scalarClass = .other ∧
        (tables.classifyTypeCtx ty).nullableRepr = .neither ↔
      tables.checkerPlain (tables.head ty) := by
  by_cases hnullable : ∃ child, tables.head ty = .nullable child
  · obtain ⟨child, hchild⟩ := hnullable
    rw [classifyTypeCtx_nullable hchild, hchild, scalarClass_nullableClassCtx,
      nullableRepr_nullableClass, classifyTypeCtx_head, checkerPayload_iff]
    simp [checkerPlain]
  rw [classifyTypeCtx_eq ty (not_exists.mp hnullable)]
  have hhead : tables.IsHead (tables.head ty) := isHead_head ty
  rw [not_exists] at hnullable
  generalize tables.head ty = head at hhead hnullable ⊢
  cases head with
  | name id =>
    simp only [checkerPlain, classifyType, scalarClass_classifyTypeName,
      (classifyTypeName_plain id.text).1, mem_scalarNames, List.mem_cons, and_true]
    split_ifs <;> simp_all
  | generic base args =>
    simp only [checkerPlain, classifyType, scalarClass_classifyGenericTypeName,
      (classifyGenericTypeName_plain base.text).1, and_true]
    split_ifs <;> simp_all
  | pointer mutability child | rawManyPointer mutability child | slice mutability child =>
    by_cases hvoid : typeNameEql child "c_void" = true <;> simp [checkerPlain, classifyType, hvoid]
      <;> decide
  | qualified => exact hhead.elim
  | nullable child => exact (hnullable child rfl).elim
  | _ =>
    simp only [checkerPlain, classifyType]
    decide

/-! ## The agreement -/

lemma isDynTraitTypeExpr_eq_false {head : TypeExpr} (hhead : tables.IsHead head)
    (h : ∀ mutability traitName, head ≠ .dynTrait mutability traitName) :
    isDynTraitTypeExpr head = false := by
  cases head with
  | qualified => exact hhead.elim
  | dynTrait mutability traitName => exact (h mutability traitName rfl).elim
  | _ => rfl

lemma taggedValue_eq_iff {p q : Prop} [Decidable p] [Decidable q] :
    (if p then NullableRepr.taggedValue else .neither) =
        (if q then NullableRepr.taggedValue else .neither) ↔ (p ↔ q) := by
  by_cases hp : p <;> by_cases hq : q <;> simp [hp, hq]

lemma tagged_of_address {ty : ValueType} (h : ty.scalarClass = .address) :
    ty.isPointer = false ∧ ty.isTaggedPayload = true := by
  cases ty <;> first | exact ⟨rfl, rfl⟩ | cases h

/-- **Both put the payload into an optional of one representation exactly if it is
`payloadAlike`.** -/
theorem nullableRepr_iff_payloadAlike (child : TypeExpr) (depth : ℕ) :
    (tables.nullableValueType child
          (tables.valueTypeFromTypeAliasDepth child depth)).nullableRepr =
        (tables.nullableClassCtx (tables.head child) (tables.classifyTypeCtx child)).nullableRepr ↔
      tables.payloadAlike child depth := by
  have hhead : tables.IsHead (tables.head child) := isHead_head child
  unfold payloadAlike
  -- a trait object is known by its own test in each engine, before the depth is looked at
  by_cases htrait : ∃ mutability traitName, tables.head child = .dynTrait mutability traitName
  · obtain ⟨mutability, traitName, hchild⟩ := htrait
    have hvalue : tables.valueTypeFromTypeAliasDepth child depth = .value := by
      rw [valueTypeFromTypeAliasDepth_eq, hchild]
      split
      · rfl
      · rw [valueTypeFromTypeAliasDepth.eq_def, if_neg (by omega)]
    have hclass : tables.classifyTypeCtx child = .unknown := by
      rw [classifyTypeCtx_eq child (by simp [hchild]), hchild, classifyType]
    rw [hvalue, hclass, hchild, nullableRepr_nullableValueType, nullableRepr_nullableClassCtx]
    cases isDynTraitMirType child <;>
      simp [ValueType.isPointer, ValueType.isTaggedPayload, TypeClass.isPointer,
        isDynTraitTypeExpr]
  have hnotTrait : ∀ mutability traitName, tables.head child ≠ .dynTrait mutability traitName :=
    fun mutability traitName heq => htrait ⟨mutability, traitName, heq⟩
  have hmir : isDynTraitMirType child = false := isDynTraitMirType_eq_false hnotTrait
  have hchecker : isDynTraitTypeExpr (tables.head child) = false :=
    isDynTraitTypeExpr_eq_false hhead hnotTrait
  -- beyond the guard the builder stops at the alias, and the checker goes on to the head
  by_cases hdepth : depth + tables.hops child > depthGuard
  · have hvalue : tables.valueTypeFromTypeAliasDepth child depth = .value := by
      rw [valueTypeFromTypeAliasDepth_eq, if_pos hdepth]
    have hrepr : (tables.nullableValueType child .value).nullableRepr = .neither := by
      rw [nullableRepr_nullable, hmir]
      exact ⟨rfl, rfl⟩
    rw [hvalue, hrepr, eq_comm, nullableRepr_nullableClass, checkerPayload_iff, hchecker]
    split
    · exact (hnotTrait _ _ ‹_›).elim
    · rw [if_pos hdepth]
      simp
  have hvalue : tables.valueTypeFromTypeAliasDepth child depth =
      tables.valueTypeFromTypeAliasDepth (tables.head child) (depth + tables.hops child) := by
    rw [valueTypeFromTypeAliasDepth_eq, if_neg hdepth]
  have hle : depth + tables.hops child ≤ depthGuard := by omega
  rw [nullableRepr_nullableClassCtx, hchecker]
  cases hchild : tables.head child with
  | dynTrait => exact (hnotTrait _ _ hchild).elim
  | qualified =>
    rw [hchild] at hhead
    exact hhead.elim
  | name id =>
    rw [hchild] at hhead hvalue
    have hclass : tables.classifyTypeCtx child = classifyTypeName id.text := by
      rw [classifyTypeCtx_eq child (by simp [hchild]), hchild, classifyType]
    have htagged : (tables.namedValueTypeAlias id.text).isTaggedPayload = true ↔
        id.text ∈ scalarNames ∨ tables.mirTaggedName id.text :=
      isTaggedPayload_namedValueTypeAlias id.text
    have hscalar := isValueOptionalPayloadClass_classifyTypeName id.text
    rw [hvalue, valueType_name hle hhead, nullableRepr_nullableValueType, hmir,
      (nullableRepr_namedValueTypeAlias id.text).2, hclass, (classifyTypeName_plain id.text).2]
    simp only [Bool.false_eq_true, if_false, hdepth, payloadNameAlike]
    rw [taggedValue_eq_iff, htagged, Bool.or_eq_true, hscalar]
    by_cases hmem : id.text ∈ scalarNames <;> simp [hmem]
  | generic base args =>
    rw [hchild] at hvalue
    have hclass : tables.classifyTypeCtx child = classifyGenericTypeName base.text := by
      rw [classifyTypeCtx_eq child (by simp [hchild]), hchild, classifyType]
    have haddress := isValueOptionalPayloadClass_classifyGenericTypeName base.text
    rw [hclass, (classifyGenericTypeName_plain base.text).2]
    have hunknown : tables.namedTypeIsKnownValue (.generic base args) = false := rfl
    simp only [Bool.false_eq_true, if_false, hdepth, hunknown, Bool.or_false]
    by_cases hbase : base.text ∈ addressBases
    · have hnot : tables.lookedThrough base args = none := lookedThrough_address hbase
      have hvalueClass := (genericValueTypeAlias_spec hnot).1
      rw [if_pos hbase] at hvalueClass
      obtain ⟨hpointer, htagged⟩ := tagged_of_address hvalueClass
      rw [nullableRepr_nullableValueType, hvalue, valueType_generic hle, hpointer, htagged,
        haddress.mpr hbase]
      simp [hbase]
    · rw [if_neg (by rwa [haddress]), nullableRepr_nullable, ← isPayload_iff, hmir]
      simp [hbase]
  | slice mutability element =>
    have hclass : tables.classifyTypeCtx child =
        if typeNameEql element "c_void" then .cVoidPointer else .slice := by
      rw [classifyTypeCtx_eq child (by simp [hchild]), hchild, classifyType]
    rw [hvalue, hchild, valueTypeFromTypeAliasDepth.eq_def, if_neg hdepth, hclass]
    by_cases hvoid : typeNameEql element "c_void" = true
    · simp [hvoid, hdepth, nullableRepr_nullableValueType, ValueType.isPointer,
        TypeClass.isPointer]
    · simp [hvoid, hdepth, nullableRepr_nullableValueType, ValueType.isPointer,
        TypeClass.isPointer, namedTypeIsKnownValue, typeName]
      decide
  | nullable inner =>
    obtain ⟨hpointer, hpayload⟩ := nullableClassCtx_no_payload tables.toNameTables
      (tables.head inner) (tables.classifyTypeCtx (tables.head inner))
    rw [hvalue, hchild, valueType_nullable hle, classifyTypeCtx_nullable hchild, hpointer,
      hpayload]
    rw [(nullableRepr_nullable child _).mpr ⟨isPayload_nullableValueType inner _, hmir⟩]
    simp [hdepth, namedTypeIsKnownValue, typeName]
  | pointer mutability element | rawManyPointer mutability element =>
    have hpointer : (tables.classifyTypeCtx child).isPointer = true := by
      rw [classifyTypeCtx_eq child (by simp [hchild]), hchild, classifyType]
      split <;> rfl
    rw [hvalue, hchild, valueTypeFromTypeAliasDepth.eq_def, if_neg hdepth, hpointer]
    simp [hdepth, nullableRepr_nullableValueType, ValueType.isPointer]
  | _ =>
    rw [classifyTypeCtx_eq child (by simp [hchild]), hvalue, hchild,
      valueTypeFromTypeAliasDepth.eq_def, if_neg hdepth, nullableRepr_nullableValueType, hmir]
    simp [hdepth, classifyType, ValueType.isPointer, ValueType.isTaggedPayload,
      TypeClass.isPointer, namedTypeIsKnownValue, typeName]
    decide

/-- **The MIR builder and the checker classify a type alike exactly if it is `readAlike`.** -/
theorem classifiedAlike_iff_readAlike (tables : DeclTables) (ty : TypeExpr) :
    tables.classifiedAlike ty ↔ tables.readAlike ty := by
  unfold classifiedAlike readAlike valueTypeFromTypeAlias
  split
  · rename_i hdepth
    rw [valueTypeFromTypeAliasDepth_eq, if_pos (by omega), ← checkerPlain_iff]
    exact ⟨fun ⟨hclass, hrepr⟩ => ⟨hclass.symm, hrepr.symm⟩,
      fun ⟨hclass, hrepr⟩ => ⟨hclass.symm, hrepr.symm⟩⟩
  rename_i hdepth
  have hhead : tables.IsHead (tables.head ty) := isHead_head ty
  have hvalue : tables.valueTypeFromTypeAliasDepth ty 0 =
      tables.valueTypeFromTypeAliasDepth (tables.head ty) (tables.hops ty) := by
    rw [valueTypeFromTypeAliasDepth_eq, if_neg (by omega), Nat.zero_add]
  have hle : tables.hops ty ≤ depthGuard := by omega
  -- within the guard both read the head of the type
  cases hty : tables.head ty with
  | name id =>
    rw [hty] at hhead hvalue
    have hnullable : ∀ child, tables.head ty ≠ .nullable child := by simp [hty]
    rw [hvalue, valueType_name hle hhead, classifyTypeCtx_eq ty hnullable, hty, classifyType,
      scalarClass_name_iff, (nullableRepr_namedValueTypeAlias id.text).1,
      (classifyTypeName_plain id.text).1]
    simp
  | generic base args =>
    rw [hty] at hvalue
    have hnullable : ∀ child, tables.head ty ≠ .nullable child := by simp [hty]
    rw [classifyTypeCtx_eq ty hnullable, hty, classifyType, scalarClass_classifyGenericTypeName,
      (classifyGenericTypeName_plain base.text).1, ← mirPlain_iff]
    by_cases haddress : base.text ∈ addressBases
    · have hnot : tables.lookedThrough base args = none := lookedThrough_address haddress
      obtain ⟨hclass, hrepr, -⟩ := genericValueTypeAlias_spec hnot
      rw [hvalue, valueType_generic hle, hclass, hrepr]
      simp [haddress]
    · simp [haddress]
  | nullable child =>
    rw [hty] at hvalue
    rw [hvalue, valueType_nullable hle, classifyTypeCtx_nullable hty, classifyTypeCtx_head,
      scalarClass_nullableValueType, scalarClass_nullableClassCtx,
      nullableRepr_iff_payloadAlike]
    simp
  | qualified =>
    rw [hty] at hhead
    exact hhead.elim
  | _ =>
    have hnullable : ∀ child, tables.head ty ≠ .nullable child := by simp [hty]
    rw [hty] at hvalue
    rw [hvalue, classifyTypeCtx_eq ty hnullable, hty, valueTypeFromTypeAliasDepth.eq_def,
      if_neg (by omega)]
    simp only [classifyType]
    first
    | exact iff_true_intro ⟨rfl, rfl⟩
    | split <;> exact iff_true_intro ⟨rfl, rfl⟩

/-! ## A tagged union that the MIR builder takes for an integer -/

/-- `union inode { ... }` -/
def inodeTables : DeclTables where
  aliases := ∅
  opaques := []
  structs := []
  overlayUnions := []
  enums := ∅
  packedBits := []
  taggedUnions := ["inode"]
  typeParams := []
  rank := fun _ => 0
  rank_lt := by simp
  chains_short := by simp

theorem not_classifiedAlike_inode : ¬ inodeTables.classifiedAlike (.name { text := "inode" }) := by
  rintro ⟨hclass, -⟩
  have hmir : (inodeTables.valueTypeFromTypeAlias (.name { text := "inode" })).scalarClass =
      .integer := by
    rw [valueTypeFromTypeAlias, valueTypeFromTypeAliasDepth]
    decide
  have hchecker : (inodeTables.classifyTypeCtx (.name { text := "inode" })).scalarClass =
      .other := by
    have hhead : inodeTables.head (.name { text := "inode" }) = .name { text := "inode" } :=
      head_of_isHead (show inodeTables.aliases.lookup "inode" = none by rfl)
    rw [classifyTypeCtx_eq _ (by simp [hhead]), hhead]
    decide
  rw [hmir, hchecker] at hclass
  cases hclass

end DeclTables

end ModernC.Types
