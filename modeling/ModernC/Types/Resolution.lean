import ModernC.Types.ValueType

/-!
# Resolution

What a type is behind its aliases and qualifiers: its head, and the number of hops to it.  The
checker always finds the head; the MIR builder finds it when the hops fit into its depth guard.
-/

namespace ModernC.Types

open Syntax (TypeExpr Ident Mutability)

namespace NameTables

variable (tables : NameTables)

/-- The hops over aliases and qualifiers to the head of the type, and the head. -/
def resolution (ty : TypeExpr) : ℕ × TypeExpr :=
  match ty with
  | .name id =>
    match _ : tables.aliases.lookup id.text with
    | some target => ((resolution target).1 + 1, (resolution target).2)
    | none => (0, .name id)
  | .qualified _ child => ((resolution child).1 + 1, (resolution child).2)
  | ty => (0, ty)
termination_by (tables.level ty, sizeOf ty, 0)
decreasing_by
  · exact lex_of_lt (level_alias_lt (List.mem_singleton.mpr rfl) ‹_›)
  · exact lex_of_le_of_lt (Nat.le_of_eq rfl) (sizeOf_qualified_lt _ _)

def hops (ty : TypeExpr) : ℕ := (tables.resolution ty).1

def head (ty : TypeExpr) : TypeExpr := (tables.resolution ty).2

/-- The type is its own head. -/
def IsHead (ty : TypeExpr) : Prop :=
  match ty with
  | .name id => tables.aliases.lookup id.text = none
  | .qualified _ _ => False
  | _ => True

variable {tables}

variable {id : Ident} {name : String}

lemma head_alias {target : TypeExpr} (h : tables.aliases.lookup id.text = some target) :
    tables.head (.name id) = tables.head target := by
  unfold head
  rw [resolution.eq_def]
  simp only
  split
  · rename_i heq
    rw [h] at heq
    cases heq
    rfl
  · rename_i heq
    rw [h] at heq
    cases heq

lemma hops_alias {target : TypeExpr} (h : tables.aliases.lookup id.text = some target) :
    tables.hops (.name id) = tables.hops target + 1 := by
  unfold hops
  rw [resolution.eq_def]
  simp only
  split
  · rename_i heq
    rw [h] at heq
    cases heq
    rfl
  · rename_i heq
    rw [h] at heq
    cases heq

@[simp] lemma head_qualified (mutability : Mutability) (child : TypeExpr) :
    tables.head (.qualified mutability child) = tables.head child := by
  unfold head
  rw [resolution]

@[simp] lemma hops_qualified (mutability : Mutability) (child : TypeExpr) :
    tables.hops (.qualified mutability child) = tables.hops child + 1 := by
  unfold hops
  rw [resolution]

lemma resolution_of_isHead {ty : TypeExpr} (h : tables.IsHead ty) :
    tables.resolution ty = (0, ty) := by
  rw [resolution.eq_def]
  cases ty with
  | name id =>
    simp only
    split
    · rename_i heq
      rw [show tables.aliases.lookup id.text = none from h] at heq
      cases heq
    · rfl
  | qualified => exact h.elim
  | _ => rfl

lemma head_of_isHead {ty : TypeExpr} (h : tables.IsHead ty) : tables.head ty = ty := by
  rw [head, resolution_of_isHead h]

lemma hops_of_isHead {ty : TypeExpr} (h : tables.IsHead ty) : tables.hops ty = 0 := by
  rw [hops, resolution_of_isHead h]

variable (tables) in
/-- **Induction along a resolution.**  A property of types holds of all types when an alias
has it from its target, a qualified type from its child, and every head has it. -/
lemma resolution_induction {motive : TypeExpr → Prop}
    (aliasName : ∀ id target, tables.aliases.lookup id.text = some target → motive target →
      motive (.name id))
    (qualified : ∀ mutability child, motive child → motive (.qualified mutability child))
    (isHead : ∀ ty, tables.IsHead ty → motive ty) (ty : TypeExpr) : motive ty := by
  fun_induction tables.resolution ty with
  | case1 id target halias ih => exact aliasName id target halias ih
  | case2 id hnone => exact isHead _ hnone
  | case3 mutability child ih => exact qualified mutability child ih
  | case4 ty hname hqualified =>
    refine isHead ty ?_
    unfold IsHead
    split
    · exact absurd rfl (hname _)
    · exact absurd rfl (hqualified _ _)
    · trivial

lemma isHead_head (ty : TypeExpr) : tables.IsHead (tables.head ty) := by
  induction ty using resolution_induction tables with
  | aliasName id target halias ih => rwa [head_alias halias]
  | qualified mutability child ih => rwa [head_qualified]
  | isHead ty h => rwa [head_of_isHead h]

@[simp] lemma head_head (ty : TypeExpr) : tables.head (tables.head ty) = tables.head ty :=
  head_of_isHead (isHead_head ty)

/-! ## The chain of aliases -/

variable (tables) in
/-- The aliases that the resolution of the type follows. -/
def aliasChain (ty : TypeExpr) : List String :=
  match ty with
  | .name id =>
    match _ : tables.aliases.lookup id.text with
    | some target => id.text :: aliasChain target
    | none => []
  | .qualified _ child => aliasChain child
  | _ => []
termination_by (tables.level ty, sizeOf ty, 0)
decreasing_by
  · exact lex_of_lt (level_alias_lt (List.mem_singleton.mpr rfl) ‹_›)
  · exact lex_of_le_of_lt (Nat.le_of_eq rfl) (sizeOf_qualified_lt _ _)

lemma aliasChain_alias {target : TypeExpr} (h : tables.aliases.lookup id.text = some target) :
    tables.aliasChain (.name id) = id.text :: tables.aliasChain target := by
  rw [aliasChain.eq_def]
  simp only
  split
  · rename_i heq
    rw [h] at heq
    cases heq
    rfl
  · rename_i heq
    rw [h] at heq
    cases heq

@[simp] lemma aliasChain_qualified (mutability : Mutability) (child : TypeExpr) :
    tables.aliasChain (.qualified mutability child) = tables.aliasChain child := by
  rw [aliasChain]

lemma aliasChain_of_isHead {ty : TypeExpr} (h : tables.IsHead ty) : tables.aliasChain ty = [] := by
  rw [aliasChain.eq_def]
  cases ty with
  | name id =>
    simp only
    split
    · rename_i heq
      rw [show tables.aliases.lookup id.text = none from h] at heq
      cases heq
    · rfl
  | qualified => exact h.elim
  | _ => rfl

/-- The chain starts with the alias that the type names. -/
lemma aliasChain_eq_cons {ty : TypeExpr} {rest : List String}
    (h : tables.aliasChain ty = name :: rest) :
    (tables.aliases.lookup name).isSome ∧ ∃ id, unqualified ty = .name id ∧ id.text = name := by
  induction ty using resolution_induction tables with
  | aliasName id target halias ih =>
    rw [aliasChain_alias halias, List.cons.injEq] at h
    obtain ⟨rfl, -⟩ := h
    exact ⟨by simp [halias], id, rfl, rfl⟩
  | qualified mutability child ih =>
    rw [aliasChain_qualified] at h
    exact ih h
  | isHead ty hhead =>
    rw [aliasChain_of_isHead hhead] at h
    cases h

lemma isChain_aliasChain (ty : TypeExpr) :
    List.IsChain (AliasStep tables.aliases) (tables.aliasChain ty) := by
  induction ty using resolution_induction tables with
  | aliasName id target halias ih =>
    rw [aliasChain_alias halias]
    cases hrest : tables.aliasChain target with
    | nil => exact List.IsChain.singleton _
    | cons next rest =>
      obtain ⟨hsome, id', htarget, hid'⟩ := aliasChain_eq_cons hrest
      rw [hrest] at ih
      exact List.IsChain.cons_cons ⟨target, id', halias, htarget, hid', hsome⟩ ih
  | qualified mutability child ih => rwa [aliasChain_qualified]
  | isHead ty hhead =>
    rw [aliasChain_of_isHead hhead]
    exact List.IsChain.nil

/-! ## The checker resolves to the head -/

lemma typeName_mem_followedNames {ty : TypeExpr} (h : typeName ty = some name) :
    name ∈ followedNames ty := by
  fun_induction typeName ty with
  | case1 id =>
    cases h
    exact List.mem_singleton.mpr rfl
  | case2 mutability child ih => exact ih h
  | case3 => cases h

/-- An alias is not spelled as itself. -/
lemma typeName_target_ne {target : TypeExpr}
    (h : tables.aliases.lookup name = some target) : typeName target ≠ some name := by
  intro hname
  have hlt := tables.rank_lt h name (typeName_mem_followedNames hname) (by simp [h])
  omega

lemma checkerAliases_of_alias {target : TypeExpr}
    (h : tables.aliases.lookup name = some target) : tables.checkerAliases name = some target := by
  simp [checkerAliases, h]

/-- The checker finds the head of a type whose aliases, or whose hops, fit into its depth guard. -/
lemma resolveAliasTypeDepth_eq_head (ty : TypeExpr) (depth : ℕ)
    (h : depth + (tables.aliasChain ty).length ≤ depthGuard ∨
      depth + tables.hops ty ≤ depthGuard + 1) :
    tables.resolveAliasTypeDepth ty depth = tables.head ty := by
  induction ty using resolution_induction tables generalizing depth with
  | aliasName id target halias ih =>
    rw [aliasChain_alias halias, List.length_cons, hops_alias halias] at h
    rw [resolveAliasTypeDepth, head_alias halias, if_neg (by omega)]
    simp only [checkerAliases_of_alias halias, typeName_target_ne halias, if_false]
    exact ih (depth + 1) (by omega)
  | qualified mutability child ih =>
    rw [aliasChain_qualified, hops_qualified] at h
    rw [resolveAliasTypeDepth, head_qualified, if_neg (by omega)]
    exact ih depth (by omega)
  | isHead ty hhead =>
    rw [head_of_isHead hhead]
    rw [resolveAliasTypeDepth.eq_def]
    split
    · rfl
    cases ty with
    | name id =>
      simp only
      split
      · rfl
      · rename_i target htarget
        have hname := (checkerAliases_eq_some htarget).resolve_left
          (by rw [show tables.aliases.lookup id.text = none from hhead]; simp)
        rw [if_pos hname]
    | qualified => exact hhead.elim
    | _ => rfl

lemma nullableInnerType_eq_some_iff {ty inner : TypeExpr} (h : tables.IsHead ty) :
    nullableInnerType ty = some inner ↔ ty = .nullable inner := by
  cases ty with
  | qualified => exact h.elim
  | _ => simp [nullableInnerType]

end NameTables

namespace DeclTables

open NameTables

variable {tables : DeclTables}

lemma length_aliasChain_le (ty : TypeExpr) : (tables.aliasChain ty).length ≤ depthGuard := by
  have hchain : List.IsChain (AliasStep tables.aliases) (tables.aliasChain ty) :=
    isChain_aliasChain ty
  cases hrest : tables.aliasChain ty with
  | nil => simp
  | cons name rest =>
    rw [hrest] at hchain
    exact tables.chains_short name rest (aliasChain_eq_cons hrest).1 hchain

/-- **The checker finds the head of every type.** -/
theorem resolveAliasType_eq_head (ty : TypeExpr) : tables.resolveAliasType ty = tables.head ty :=
  resolveAliasTypeDepth_eq_head ty 0 (.inl (by simpa using length_aliasChain_le ty))

/-! ## The MIR builder resolves within its depth guard -/

/-- **The MIR builder reads the head of the type, unless it is too many hops away.** -/
theorem valueTypeFromTypeAliasDepth_eq (ty : TypeExpr) (depth : ℕ) :
    tables.valueTypeFromTypeAliasDepth ty depth =
      if depth + tables.hops ty > depthGuard then .value
      else tables.valueTypeFromTypeAliasDepth (tables.head ty) (depth + tables.hops ty) := by
  induction ty using resolution_induction tables.toNameTables generalizing depth with
  | aliasName id target halias ih =>
    rw [valueTypeFromTypeAliasDepth.eq_def, hops_alias halias, head_alias halias]
    by_cases hdepth : depth > depthGuard
    · rw [if_pos hdepth, if_pos (by omega)]
    · rw [if_neg hdepth]
      simp only
      split
      · rename_i heq
        rw [halias] at heq
        cases heq
        rw [ih, show depth + 1 + tables.hops target = depth + (tables.hops target + 1) by omega]
      · rename_i heq
        rw [halias] at heq
        cases heq
  | qualified mutability child ih =>
    rw [valueTypeFromTypeAliasDepth.eq_def, hops_qualified, head_qualified]
    by_cases hdepth : depth > depthGuard
    · rw [if_pos hdepth, if_pos (by omega)]
    · rw [if_neg hdepth]
      simp only
      rw [ih, show depth + 1 + tables.hops child = depth + (tables.hops child + 1) by omega]
  | isHead ty hhead =>
    rw [hops_of_isHead hhead, head_of_isHead hhead, Nat.add_zero]
    split
    · rename_i hdepth
      rw [valueTypeFromTypeAliasDepth.eq_def, if_pos hdepth]
    · rfl

end DeclTables

end ModernC.Types
