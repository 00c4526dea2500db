import ModernC.Comptime.Termination
import ModernC.Framework.PathUpdates

/-!
# Assignments at compile time

An assignment to a place inside of an aggregate binds the root of the place to a copy in which the
place has the new value.
-/

namespace ModernC.Comptime

open Eval (ComptimeValue ComptimeFold)
open Framework Framework.GuardedRun Framework.TreeAccess
open Syntax (Expr TypeExpr Ident Stmt)

/-! ## Paths through a value -/

/-- A step into an aggregate. -/
inductive PathStep where
  | field (name : String)
  | element (index : ℕ)

/-- Why a fold has no value. -/
inductive FoldStop where
  | trap
  | unknown

/-- The value of a fold, or why there is none. -/
def valueOf : ComptimeFold → Except FoldStop ComptimeValue
  | .value value => .ok value
  | .trap => .error .trap
  | .unknown => .error .unknown

/-- What folding a member or an element of a value gives. -/
def readChild (value : ComptimeValue) : PathStep → Except FoldStop ComptimeValue
  | .field name => valueOf (memberOf value name)
  | .element index => valueOf (elementOf value index)

/-- The place for a value in an aggregate. -/
def slotOf : ComptimeValue → PathStep → Option ComptimeValue
  | .struct fields, .field name => fields.lookup name
  | .array items, .element index => items[index]?
  | _, _ => none

/-- An aggregate with another value in one of its places. -/
def replaceSlot : ComptimeValue → PathStep → ComptimeValue → ComptimeValue
  | .struct fields, .field name, value => .struct (setField name value fields)
  | .array items, .element index, value => .array (items.set index value)
  | current, _, _ => current

lemma lookup_setField_self {fields : List (String × ComptimeValue)} {name : String}
    {value : ComptimeValue} (h : (fields.lookup name).isSome) :
    (setField name value fields).lookup name = some value := by
  induction fields with
  | nil => simp at h
  | cons field rest ih =>
    obtain ⟨fieldName, old⟩ := field
    by_cases hname : fieldName = name
    · subst hname
      simp [setField]
    · have hbeq : (name == fieldName) = false := by simpa using fun h => hname h.symm
      simp only [List.lookup_cons, hbeq] at h
      simp only [setField, hname, if_false, List.lookup_cons, hbeq]
      exact ih h

lemma lookup_setField_of_ne {fields : List (String × ComptimeValue)} {name other : String}
    {value : ComptimeValue} (h : other ≠ name) :
    (setField name value fields).lookup other = fields.lookup other := by
  induction fields with
  | nil => rfl
  | cons field rest ih =>
    obtain ⟨fieldName, old⟩ := field
    by_cases hname : fieldName = name
    · subst hname
      have hbeq : (other == fieldName) = false := by simpa using h
      simp [setField, List.lookup_cons, hbeq]
    · simp only [setField, hname, if_false, List.lookup_cons, ih]

lemma memberOf_struct (fields : List (String × ComptimeValue)) (name : String) :
    memberOf (.struct fields) name = ofValue (fields.lookup name) := by
  unfold memberOf
  split_ifs <;> rfl

lemma memberOf_set (items : List ComptimeValue) (index : ℕ) (value : ComptimeValue)
    (name : String) : memberOf (.array (items.set index value)) name =
      memberOf (.array items) name := by
  simp only [memberOf, comptimeLen, List.length_set, comptimeStructFieldVal]

lemma elementOf_array (items : List ComptimeValue) (index : ℕ) :
    elementOf (.array items) index =
      match items[index]? with
      | some value => .value value
      | none => .trap := by
  have hnonneg : ¬ (index : ℤ) < 0 := by omega
  cases hitem : items[index]? with
  | none | some value => simp [elementOf, elementAt, hnonneg, hitem]

lemma readChild_of_slotOf (v : ComptimeValue) (s : PathStep) (w : ComptimeValue)
    (h : slotOf v s = some w) : readChild v s = .ok w := by
  unfold slotOf at h
  split at h
  · simp only [readChild, memberOf_struct, h]
    rfl
  · simp only [readChild, elementOf_array, h]
    rfl
  · cases h

lemma slotOf_replaceSlot_self (v : ComptimeValue) (s : PathStep) (w : ComptimeValue)
    (h : (slotOf v s).isSome) : slotOf (replaceSlot v s w) s = some w := by
  unfold slotOf at h
  split at h
  · exact lookup_setField_self h
  · rename_i items index
    have hlt : index < items.length := by
      by_contra hge
      rw [List.getElem?_eq_none (by omega)] at h
      cases h
    simp [replaceSlot, slotOf, hlt]
  · cases h

lemma readChild_replaceSlot_of_ne (v : ComptimeValue) (s t : PathStep) (w : ComptimeValue)
    (h : (slotOf v s).isSome) (hts : t ≠ s) : readChild (replaceSlot v s w) t = readChild v t := by
  unfold slotOf at h
  split at h
  · rename_i fields name
    cases t with
    | field other =>
      have hother : other ≠ name := fun heq => hts (by rw [heq])
      simp only [replaceSlot, readChild, memberOf_struct, lookup_setField_of_ne hother]
    | element index => rfl
  · rename_i items index
    cases t with
    | field name => simp only [replaceSlot, readChild, memberOf_set]
    | element other =>
      have hother : index ≠ other := fun heq => hts (by rw [heq])
      simp only [replaceSlot, readChild, elementOf_array, List.getElem?_set_ne hother]
  · cases h

/-- Values as trees. -/
def valueTree : TreeAccess ComptimeValue PathStep FoldStop where
  child := readChild
  slot := slotOf
  replace := replaceSlot
  child_of_slot := readChild_of_slotOf
  slot_replace_self := slotOf_replaceSlot_self
  child_replace_of_ne := readChild_replaceSlot_of_ne

/-! ## Paths of places -/

/-- The step that a segment of a path stands for, where an index folds to a number. -/
inductive SegmentAt (Folds : Expr → ComptimeValue → Prop) : AssignPathSegment → PathStep → Prop
  | member (name : String) : SegmentAt Folds (.member name) (.field name)
  | index {expr : Expr} {value : ComptimeValue} {index : ℕ} (hfold : Folds expr value)
      (hnumber : indexNumber value = .ok index) : SegmentAt Folds (.index expr) (.element index)

/-- An index that is not one of an array of this length. -/
def OutOfBounds (length : ℕ) (index : ComptimeValue) : Prop :=
  match indexNumber index with
  | .ok number => number < 0 ∨ (length : ℤ) ≤ number
  | .error stop => stop = .trap

/-- The path comes to an array and goes on with an index out of its bounds. -/
def LeavesArray (Folds : Expr → ComptimeValue → Prop) (value : ComptimeValue)
    (path : List AssignPathSegment) : Prop :=
  ∃ front expr rest steps items index,
    path = front ++ .index expr :: rest ∧ List.Forall₂ (SegmentAt Folds) front steps ∧
      valueTree.read value steps = .ok (.array items) ∧ Folds expr index ∧
      OutOfBounds items.length index

/-! ## The update of a path -/

section Update

variable {F : Folders} {scope : ComptimeScope} {fold : Run ComptimeFold}
  {next : ComptimeValue → Run ComptimeFold} {value u w : ComptimeValue}

lemma onValue_ending_of_value (h : fold.ending = .done (.value value)) :
    (onValue fold next).ending = (next value).ending := ending_bind_of_done h

lemma onValue_ending_of_trap (h : fold.ending = .done .trap) :
    (onValue fold next).ending = .done .trap := ending_bind_of_done h

lemma onValue_value_iff :
    (onValue fold next).ending = .done (.value u) ↔
      ∃ value, fold.ending = .done (.value value) ∧ (next value).ending = .done (.value u) := by
  unfold onValue
  rw [bind_done_iff]
  constructor
  · rintro ⟨result, hresult, hnext⟩
    cases result with
    | value value => exact ⟨value, hresult, hnext⟩
    | trap | unknown => simp at hnext
  · rintro ⟨value, hvalue, hnext⟩
    exact ⟨.value value, hvalue, hnext⟩

/-- The expressions that a table folds to a value. -/
def FoldsIn (F : Folders) (scope : ComptimeScope) (expr : Expr) (value : ComptimeValue) : Prop :=
  (F.foldComptimeExpr scope expr).ending = .done (.value value)

variable {items : List ComptimeValue}

lemma elementAt_of_getElem? {index : ℕ}
    (h : items[index]? = some value) : elementAt items index = .value value := by
  simp only [elementAt, Int.toNat_natCast, h]
  rw [if_neg (by omega)]

lemma elementAt_value_iff {index : ℤ} :
    elementAt items index = .value value ↔
      ∃ i : ℕ, index = i ∧ items[i]? = some value := by
  constructor
  · intro h
    unfold elementAt at h
    split_ifs at h with hneg
    refine ⟨index.toNat, by omega, ?_⟩
    split at h
    · cases h
      assumption
    · cases h
  · rintro ⟨i, rfl, hget⟩
    exact elementAt_of_getElem? hget

lemma elementAt_trap {index : ℤ}
    (h : index < 0 ∨ (items.length : ℤ) ≤ index) : elementAt items index = .trap := by
  unfold elementAt
  split_ifs with hneg
  · rfl
  · rw [List.getElem?_eq_none (by omega)]

/-- **The update gives a value exactly if the path leads to a place**, and it is then the value with
the replacement in that place. -/
theorem foldComptimeUpdatePath_value_iff {path : List AssignPathSegment} :
    (foldComptimeUpdatePath F scope w value path).ending = .done (.value u) ↔
      ∃ steps, List.Forall₂ (SegmentAt (FoldsIn F scope)) path steps ∧
        valueTree.write w value steps = some u := by
  induction path generalizing value u with
  | nil =>
    simp only [foldComptimeUpdatePath, ending_pure, Ending.done.injEq, ComptimeFold.value.injEq,
      List.forall₂_nil_left_iff, exists_eq_left, write, Option.some.injEq]
  | cons segment path ih =>
    simp only [List.forall₂_cons_left_iff]
    -- a segment leads to a child, and the rest of the path goes on from there
    cases segment with
    | member name =>
      constructor
      · intro h
        unfold foldComptimeUpdatePath at h
        split at h
        · split at h
          · rename_i fields inner hlookup
            obtain ⟨next, hnext, hu⟩ := onValue_value_iff.mp h
            obtain ⟨steps, hsteps, hwrite⟩ := ih.mp hnext
            simp only [ending_pure, Ending.done.injEq, ComptimeFold.value.injEq] at hu
            refine ⟨_, ⟨.field name, steps, .member name, hsteps, rfl⟩, ?_⟩
            exact valueTree.write_cons_eq_some_iff.mpr ⟨inner, next, hlookup, hwrite, hu.symm⟩
          · simp at h
        · simp at h
      · rintro ⟨_, ⟨step, steps, hstep, hsteps, rfl⟩, hwrite⟩
        cases hstep
        obtain ⟨inner, next, hslot, hnext, rfl⟩ := valueTree.write_cons_eq_some_iff.mp hwrite
        cases value with
        | struct fields =>
          have hlookup : fields.lookup name = some inner := hslot
          simp only [foldComptimeUpdatePath, hlookup]
          exact onValue_value_iff.mpr ⟨next, ih.mpr ⟨steps, hsteps, hnext⟩, rfl⟩
        | _ => cases hslot
    | index expr =>
      constructor
      · intro h
        unfold foldComptimeUpdatePath at h
        split at h
        · rename_i items
          obtain ⟨indexValue, hindex, h⟩ := onValue_value_iff.mp h
          split at h
          · rename_i stop hnumber
            simp only [ending_pure, Ending.done.injEq] at h
            subst h
            unfold indexNumber at hnumber
            split at hnumber
            · cases hnumber
            · split_ifs at hnumber
              cases hnumber
            · cases hnumber
          · rename_i number hnumber
            split at h
            · rename_i inner helement
              obtain ⟨i, rfl, hget⟩ := elementAt_value_iff.mp helement
              obtain ⟨next, hnext, hu⟩ := onValue_value_iff.mp h
              obtain ⟨steps, hsteps, hwrite⟩ := ih.mp hnext
              simp only [ending_pure, Ending.done.injEq, ComptimeFold.value.injEq,
                Int.toNat_natCast] at hu
              refine ⟨_, ⟨.element i, steps, .index hindex hnumber, hsteps, rfl⟩, ?_⟩
              exact valueTree.write_cons_eq_some_iff.mpr ⟨inner, next, hget, hwrite, hu.symm⟩
            · rename_i hstop
              simp only [ending_pure, Ending.done.injEq] at h
              exact absurd h (hstop u)
        · simp at h
      · rintro ⟨_, ⟨step, steps, hstep, hsteps, rfl⟩, hwrite⟩
        cases hstep with
        | @index _ indexValue i hfold hnumber =>
          obtain ⟨inner, next, hslot, hnext, rfl⟩ := valueTree.write_cons_eq_some_iff.mp hwrite
          cases value with
          | array items =>
            have hget : items[i]? = some inner := hslot
            simp only [foldComptimeUpdatePath]
            rw [onValue_ending_of_value hfold]
            simp only [hnumber, elementAt_of_getElem? hget]
            exact onValue_value_iff.mpr ⟨next, ih.mpr ⟨steps, hsteps, hnext⟩, rfl⟩
          | _ => cases hslot

/-- What leads on to an array is itself a place. -/
lemma slotOf_of_read_array {inner : ComptimeValue} {step : PathStep} {steps : List PathStep}
    (hchild : readChild value step = .ok inner)
    (hread : valueTree.read inner steps = .ok (.array items)) : slotOf value step = some inner := by
  have hint : ∀ n : ℤ, inner ≠ .int n := by
    rintro n rfl
    cases steps with
    | nil => cases hread
    | cons next steps =>
      cases next with
      | field name =>
        have hnone : memberOf (.int n) name = .unknown := by
          unfold memberOf
          split_ifs <;> rfl
        have hbind : (readChild (.int n) (.field name)).bind (fun inner =>
            valueTree.read inner steps) = .ok (.array items) := hread
        rw [readChild, hnone] at hbind
        cases hbind
      | element index => cases hread
  cases step with
  | field name =>
    simp only [readChild, memberOf] at hchild
    split at hchild
    · cases hchild
      exact absurd rfl (hint _)
    · cases value with
      | struct fields =>
        simp only [comptimeStructFieldVal] at hchild
        cases hlookup : fields.lookup name with
        | none =>
          rw [hlookup] at hchild
          cases hchild
        | some found =>
          rw [hlookup] at hchild
          cases hchild
          exact hlookup
      | _ => cases hchild
  | element index =>
    cases value with
    | array items =>
      simp only [readChild, elementOf_array] at hchild
      cases hget : items[index]? with
      | none =>
        rw [hget] at hchild
        cases hchild
      | some found =>
        rw [hget] at hchild
        cases hchild
        exact hget
    | bytes content =>
      simp only [readChild, elementOf, elementAt] at hchild
      rw [if_neg (by omega)] at hchild
      split at hchild
      · rename_i byte hbyte
        rw [List.getElem?_map, Option.map_eq_some_iff] at hbyte
        obtain ⟨b, -, rfl⟩ := hbyte
        cases hchild
        exact absurd rfl (hint _)
      · cases hchild
    | _ => cases hchild

/-- **An index out of bounds traps**. -/
theorem foldComptimeUpdatePath_trap {path : List AssignPathSegment}
    (h : LeavesArray (FoldsIn F scope) value path) :
    (foldComptimeUpdatePath F scope w value path).ending = .done .trap := by
  obtain ⟨front, expr, rest, steps, items, index, rfl, hfront, hread, hindex, hbounds⟩ := h
  induction hfront generalizing value with
  | nil =>
    cases hread
    show (onValue (F.foldComptimeExpr scope expr) _).ending = _
    rw [onValue_ending_of_value hindex]
    unfold OutOfBounds at hbounds
    split at hbounds
    · rename_i number hnumber
      simp only [hnumber, elementAt_trap hbounds, ending_pure]
    · rename_i stop hnumber
      simp only [hnumber, hbounds, ending_pure]
  | @cons segment step front steps hstep hfront ih =>
    have hbind : (readChild value step).bind (fun inner => valueTree.read inner steps) =
      .ok (.array items) := hread
    cases hchild : readChild value step with
    | error stop =>
      rw [hchild] at hbind
      cases hbind
    | ok inner =>
      rw [hchild] at hbind
      have hslot := slotOf_of_read_array hchild hbind
      have htrap := ih hbind
      cases hstep with
      | member name =>
        cases value with
        | struct fields =>
          have hlookup : fields.lookup name = some inner := hslot
          simp only [List.cons_append, foldComptimeUpdatePath, hlookup]
          exact onValue_ending_of_trap htrap
        | _ => cases hslot
      | @index _ indexValue i hfold hnumber =>
        cases value with
        | array items =>
          have hget : items[i]? = some inner := hslot
          simp only [List.cons_append, foldComptimeUpdatePath]
          rw [onValue_ending_of_value hfold]
          simp only [hnumber, elementAt_of_getElem? hget]
          exact onValue_ending_of_trap htrap
        | _ => cases hslot

end Update

/-! ## Folds of settled depth -/

section Places

variable {floats : FloatHost} {scope : ComptimeScope} {expr : Expr} {fold : ComptimeFold}
  {value : ComptimeValue} {root : String} {steps : List PathStep}

/-- Every deep enough table folds the expression to this. -/
def FoldsTo (floats : FloatHost) (scope : ComptimeScope) (expr : Expr) (fold : ComptimeFold) :
    Prop :=
  ∀ n, foldingDepth scope (sizeOf expr) < n →
    ((folders floats n).foldComptimeExpr scope expr).ending = .done fold

/-- One deep enough table decides. -/
lemma foldsTo_iff {n : ℕ} (hn : foldingDepth scope (sizeOf expr) < n) :
    FoldsTo floats scope expr fold ↔
      ((folders floats n).foldComptimeExpr scope expr).ending = .done fold := by
  refine ⟨fun h => h n hn, fun h m hm => ?_⟩
  rcases Nat.le_total n m with hle | hle
  · rw [← ((folders_agree floats hle scope).1 expr hn).1]
    exact h
  · rw [((folders_agree floats hle scope).1 expr hm).1]
    exact h

lemma foldsTo_unique {fold' : ComptimeFold} (h : FoldsTo floats scope expr fold) :
    FoldsTo floats scope expr fold' ↔ fold' = fold := by
  constructor
  · intro h'
    have hend := h _ (Nat.lt_succ_self _)
    rw [h' _ (Nat.lt_succ_self _), Ending.done.injEq] at hend
    exact hend
  · rintro rfl
    exact h

/-- The expressions that fold to a value. -/
def FoldsToValue (floats : FloatHost) (scope : ComptimeScope) (expr : Expr)
    (value : ComptimeValue) : Prop := FoldsTo floats scope expr (.value value)

/-- An expression that names a place by its root and the steps from there. -/
structure PlaceAt (floats : FloatHost) (scope : ComptimeScope) (target : Expr) (root : String)
    (steps : List PathStep) : Prop where
  rootName : comptimeAssignRootName target = some root
  path : ∃ segments, appendAssignPath target = some segments ∧
    List.Forall₂ (SegmentAt (FoldsToValue floats scope)) segments steps

lemma segmentAt_unique {segment : AssignPathSegment} {step step' : PathStep}
    (h : SegmentAt (FoldsToValue floats scope) segment step)
    (h' : SegmentAt (FoldsToValue floats scope) segment step') : step = step' := by
  cases h with
  | member name =>
    cases h'
    rfl
  | index hfold hnumber =>
    cases h' with
    | index hfold' hnumber' =>
      cases (foldsTo_unique hfold).mp hfold'
      rw [hnumber'] at hnumber
      cases hnumber
      rfl

variable {target : Expr}

lemma placeAt_unique {steps' : List PathStep} {root' : String}
    (h : PlaceAt floats scope target root steps) (h' : PlaceAt floats scope target root' steps') :
    steps = steps' := by
  obtain ⟨-, path, hpath, hsteps⟩ := h
  obtain ⟨-, path', hpath', hsteps'⟩ := h'
  rw [hpath] at hpath'
  cases hpath'
  clear hpath
  induction hsteps generalizing steps' with
  | nil =>
    cases hsteps'
    rfl
  | cons hstep _ ih =>
    cases hsteps' with
    | cons hstep' hrest' => rw [segmentAt_unique hstep hstep', ih hrest']

lemma foldsTo_of_succ (h : ∀ n, foldingDepth scope (sizeOf expr) ≤ n →
      (foldComptimeExpr (folders floats n) scope expr).ending = .done fold) :
    FoldsTo floats scope expr fold := by
  intro n hn
  obtain ⟨m, rfl⟩ : ∃ m, n = m + 1 := ⟨n - 1, by omega⟩
  rw [folders_succ]
  exact h m (by omega)

lemma depth_lt_of_sizeOf_lt {size size' n : ℕ} (h : size' < size)
    (hn : foldingDepth scope size ≤ n) : foldingDepth scope size' < n := by
  have hlt := foldingDepth_lt scope h
  omega

/-- The fold of what was read. -/
def foldOf : Except FoldStop ComptimeValue → ComptimeFold
  | .ok value => .value value
  | .error .trap => .trap
  | .error .unknown => .unknown

lemma foldOf_valueOf (fold : ComptimeFold) : foldOf (valueOf fold) = fold := by
  cases fold <;> rfl

/-- A fold, and one more step of reading. -/
def thenRead (fold : ComptimeFold) (step : PathStep) : ComptimeFold :=
  match fold with
  | .value value => foldOf (readChild value step)
  | stop => stop

lemma foldOf_read_snoc (value : ComptimeValue) (steps : List PathStep) (step : PathStep) :
    foldOf (valueTree.read value (steps ++ [step])) =
      thenRead (foldOf (valueTree.read value steps)) step := by
  rw [valueTree.read_append]
  cases valueTree.read value steps with
  | error stop => cases stop <;> rfl
  | ok inner =>
    show foldOf ((readChild inner step).bind fun child => .ok child) = foldOf (readChild inner step)
    cases readChild inner step <;> rfl

lemma ending_member {F : Folders} {base : Expr} (name : Ident)
    (hbase : decodeStringLiteral base = none)
    (h : (F.foldComptimeExpr scope base).ending = .done fold) :
    (foldComptimeExpr F scope (.member base name)).ending =
      .done (thenRead fold (.field name.text)) := by
  show (foldComptimeMember F scope base name.text).ending = _
  simp only [foldComptimeMember, hbase, ite_self]
  rw [onValue, ending_bind_of_done h]
  cases fold with
  | value value => exact congrArg Ending.done (foldOf_valueOf _).symm
  | trap | unknown => rfl

lemma ending_index {F : Folders} {base index : Expr} {indexValue : ComptimeValue} {i : ℕ}
    (hbase : decodeStringLiteral base = none)
    (h : (F.foldComptimeExpr scope base).ending = .done fold)
    (hindex : (F.foldComptimeExpr scope index).ending = .done (.value indexValue))
    (hnumber : indexNumber indexValue = .ok i) :
    (foldComptimeExpr F scope (.index base index)).ending =
      .done (thenRead fold (.element i)) := by
  show (foldComptimeIndex F scope base index).ending = _
  simp only [foldComptimeIndex, hbase]
  rw [onValue, ending_bind_of_done h]
  cases fold with
  | value value =>
    simp only
    rw [onValue_ending_of_value hindex]
    simp only [hnumber, ending_pure]
    exact congrArg Ending.done (foldOf_valueOf _).symm
  | trap | unknown => rfl

lemma decodeStringLiteral_of_path {path : List AssignPathSegment}
    (h : appendAssignPath target = some path) : decodeStringLiteral target = none := by
  cases target with
  | stringLiteral text => cases h
  | _ => rfl

/-- The steps of a path with one more segment. -/
lemma segments_snoc {Folds : Expr → ComptimeValue → Prop} {path : List AssignPathSegment}
    {segment : AssignPathSegment} (h : List.Forall₂ (SegmentAt Folds) (path ++ [segment]) steps) :
    ∃ front step, steps = front ++ [step] ∧ List.Forall₂ (SegmentAt Folds) path front ∧
      SegmentAt Folds segment step := by
  induction path generalizing steps with
  | nil =>
    obtain ⟨step, rest, hstep, hnil, rfl⟩ := List.forall₂_cons_left_iff.mp h
    cases hnil
    exact ⟨[], step, rfl, .nil, hstep⟩
  | cons first path ih =>
    obtain ⟨step, rest, hstep, hrest, rfl⟩ := List.forall₂_cons_left_iff.mp h
    obtain ⟨front, last, rfl, hfront, hlast⟩ := ih hrest
    exact ⟨step :: front, last, rfl, .cons hstep hfront, hlast⟩

/-- **A place is folded to what is read there**. -/
theorem foldsTo_place (hplace : PlaceAt floats scope target root steps)
    (hroot : scope.bindings root = some value) :
    FoldsTo floats scope target (foldOf (valueTree.read value steps)) := by
  obtain ⟨hname, segments, hpath, hsteps⟩ := hplace
  fun_induction appendAssignPath target generalizing segments steps with
  | case1 id =>
    cases hpath
    cases hsteps
    cases hname
    refine foldsTo_of_succ fun n _ => ?_
    show Ending.done (ofValue (comptimeIdentValue scope id.text)) = _
    rw [comptimeIdentValue, hroot]
    rfl
  | case2 inner ih =>
    refine foldsTo_of_succ fun n hn => ih hname segments hpath hsteps n ?_
    have hlt := foldingDepth_lt scope (show sizeOf inner < sizeOf (Expr.grouped inner) by simp)
    omega
  | case3 base name ih =>
    obtain ⟨path, hbase, rfl⟩ := Option.map_eq_some_iff.mp hpath
    obtain ⟨front, step, rfl, hfront, hstep⟩ := segments_snoc hsteps
    cases hstep
    refine foldsTo_of_succ fun n hn => ?_
    have hlt := depth_lt_of_sizeOf_lt (show sizeOf base < sizeOf (Expr.member base name) by
      simp; omega) hn
    rw [ending_member name (decodeStringLiteral_of_path hbase)
      (ih hname path hbase hfront n hlt), foldOf_read_snoc]
  | case4 base index ih =>
    obtain ⟨path, hbase, rfl⟩ := Option.map_eq_some_iff.mp hpath
    obtain ⟨front, step, rfl, hfront, hstep⟩ := segments_snoc hsteps
    cases hstep with
    | index hfold hnumber =>
      refine foldsTo_of_succ fun n hn => ?_
      have hlt := depth_lt_of_sizeOf_lt (show sizeOf base < sizeOf (Expr.index base index) by
        simp; omega) hn
      have hlt' := depth_lt_of_sizeOf_lt (show sizeOf index < sizeOf (Expr.index base index) by
        simp) hn
      rw [ending_index (decodeStringLiteral_of_path hbase) (ih hname path hbase hfront n hlt)
        (hfold n hlt') hnumber, foldOf_read_snoc]
  | case5 => cases hpath

end Places

/-! ## Assignments -/

section Assign

variable {floats : FloatHost} {scope scope' : ComptimeScope} {target valueExpr : Expr} {n : ℕ}
  {path : List AssignPathSegment} {steps : List PathStep} {root : String} {old v : ComptimeValue}

lemma segments_mono {Folds Folds' : Expr → ComptimeValue → Prop}
    (h : ∀ expr, .index expr ∈ path → ∀ value, Folds expr value → Folds' expr value)
    (hpath : List.Forall₂ (SegmentAt Folds) path steps) :
    List.Forall₂ (SegmentAt Folds') path steps := by
  induction hpath with
  | nil => exact .nil
  | cons hstep hrest ih =>
    refine .cons ?_ (ih fun expr hexpr => h expr (List.mem_cons_of_mem _ hexpr))
    cases hstep with
    | member name => exact .member name
    | index hfold hnumber => exact .index (h _ List.mem_cons_self _ hfold) hnumber

/-- The indices of a target fold alike in every deep enough table. -/
lemma foldsIn_iff (hn : foldingDepth scope (sizeOf target) ≤ n)
    (hpath : appendAssignPath target = some path) {expr : Expr} (hexpr : .index expr ∈ path)
    (value : ComptimeValue) :
    FoldsIn (folders floats n) scope expr value ↔ FoldsToValue floats scope expr value :=
  (foldsTo_iff (depth_lt_of_sizeOf_lt (sizeOf_index_lt hpath hexpr) hn)).symm

/-- The assigned value, as the tables of this depth fold it. -/
def Assigns (floats : FloatHost) (n : ℕ) (scope : ComptimeScope) (target valueExpr : Expr)
    (value : ComptimeValue) : Prop :=
  (foldAssigned (folders floats n) scope target valueExpr).ending = .done (.value value)

/-- **An assignment succeeds exactly if its target is a place**, and it then binds the root to the
value with the assigned one in that place. -/
theorem foldComptimeAssign_ok_iff (hn : foldingDepth scope (sizeOf target) ≤ n) :
    (foldComptimeAssign (folders floats n) scope target valueExpr).ending = .done (scope', .ok) ↔
      ∃ v root old steps updated, Assigns floats n scope target valueExpr v ∧
        PlaceAt floats scope target root steps ∧ scope.bindings root = some old ∧
        valueTree.write v old steps = some updated ∧ scope' = scope.bind root updated := by
  constructor
  · intro h
    obtain ⟨fold, hfold, h⟩ := bind_done_iff.mp h
    cases fold with
    | value v =>
      simp only at h
      split at h
      · simp at h
      · rename_i root hname
        split at h
        · simp at h
        · rename_i old hroot
          obtain ⟨updatedFold, hupdate, h⟩ := bind_done_iff.mp h
          unfold foldComptimeUpdateTarget at hupdate
          cases updatedFold with
          | value updated =>
            simp only [ending_pure, Ending.done.injEq, Prod.mk.injEq, and_true] at h
            split at hupdate
            · rename_i path hpath
              obtain ⟨steps, hsteps, hwrite⟩ := foldComptimeUpdatePath_value_iff.mp hupdate
              have hplace : PlaceAt floats scope target root steps :=
                ⟨hname, path, hpath, segments_mono
                  (fun expr hexpr value => (foldsIn_iff hn hpath hexpr value).mp) hsteps⟩
              exact ⟨v, root, old, steps, updated, hfold, hplace, hroot, hwrite, h.symm⟩
            · simp at hupdate
          | trap | unknown => simp [assignStop] at h
    | trap | unknown => simp [assignStop] at h
  · rintro ⟨v, root, old, steps, updated, hv, ⟨hname, path, hpath, hsteps⟩, hroot, hwrite, rfl⟩
    have hsteps' := segments_mono
      (fun expr hexpr value => (foldsIn_iff hn hpath hexpr value).mpr) hsteps
    have hupdate := foldComptimeUpdatePath_value_iff.mpr ⟨steps, hsteps', hwrite⟩
    refine bind_done_iff.mpr ⟨_, hv, ?_⟩
    simp only [hname, hroot]
    refine bind_done_iff.mpr ⟨.value updated, ?_, rfl⟩
    simpa only [foldComptimeUpdateTarget, hpath] using hupdate

/-- An assignment that does not succeed leaves the scope as it is. -/
lemma foldComptimeAssign_stop {result : AssignResult} {F : Folders}
    (h : (foldComptimeAssign F scope target valueExpr).ending = .done (scope', result))
    (hresult : result ≠ .ok) : scope' = scope := by
  obtain ⟨fold, -, h⟩ := bind_done_iff.mp h
  cases fold with
  | value v =>
    simp only at h
    split at h
    · simp only [ending_pure, Ending.done.injEq, Prod.mk.injEq] at h
      exact h.1.symm
    · split at h
      · simp only [ending_pure, Ending.done.injEq, Prod.mk.injEq] at h
        exact h.1.symm
      · obtain ⟨updatedFold, -, h⟩ := bind_done_iff.mp h
        cases updatedFold with
        | value updated =>
          simp only [ending_pure, Ending.done.injEq, Prod.mk.injEq] at h
          exact absurd h.2.symm hresult
        | _ =>
          simp only [ending_pure, Ending.done.injEq, Prod.mk.injEq] at h
          exact h.1.symm
  | _ =>
    simp only [ending_pure, Ending.done.injEq, Prod.mk.injEq] at h
    exact h.1.symm

/-- The target leads to an array of its root and goes on with an index out of bounds. -/
def IndexesOutOfBounds (floats : FloatHost) (scope : ComptimeScope) (target : Expr) : Prop :=
  ∃ root old path, comptimeAssignRootName target = some root ∧ scope.bindings root = some old ∧
    appendAssignPath target = some path ∧ LeavesArray (FoldsToValue floats scope) old path

/-- An assignment out of bounds traps. -/
lemma foldComptimeAssign_trap (hn : foldingDepth scope (sizeOf target) ≤ n)
    (hv : Assigns floats n scope target valueExpr v) (h : IndexesOutOfBounds floats scope target) :
    (foldComptimeAssign (folders floats n) scope target valueExpr).ending =
      .done (scope, .trap) := by
  obtain ⟨root, old, path, hname, hroot, hpath, front, expr, rest, steps, items, index, rfl, hfront,
    hread, hindex, hbounds⟩ := h
  have hfolds : ∀ expr', .index expr' ∈ front ++ .index expr :: rest → ∀ value,
      FoldsToValue floats scope expr' value → FoldsIn (folders floats n) scope expr' value :=
    fun expr' hexpr value => (foldsIn_iff hn hpath hexpr value).mpr
  have hfront' := segments_mono
    (fun expr hexpr => hfolds expr (List.mem_append_left _ hexpr)) hfront
  have hindex' := hfolds expr (by simp) index hindex
  refine bind_done_iff.mpr ⟨_, hv, ?_⟩
  simp only [hname, hroot]
  refine bind_done_iff.mpr ⟨.trap, ?_, rfl⟩
  simp only [foldComptimeUpdateTarget, hpath]
  exact foldComptimeUpdatePath_trap
    ⟨front, expr, rest, steps, items, index, rfl, hfront', hread, hindex', hbounds⟩

/-- Later folds read the assigned value at its place, and what was there before at every place that
is unrelated to it. -/
def ReadsAssigned (floats : FloatHost) (scope later : ComptimeScope) (root : String)
    (steps : List PathStep) (v : ComptimeValue) : Prop :=
  (∀ expr, PlaceAt floats later expr root steps → FoldsToValue floats later expr v) ∧
  ∀ expr expr' others fold, Unrelated steps others → PlaceAt floats scope expr root others →
    PlaceAt floats later expr' root others →
      (FoldsTo floats later expr' fold ↔ FoldsTo floats scope expr fold)

/-- **What later folds read** of a root that was written. -/
theorem readsAssigned_of_write {updated : ComptimeValue} (hroot : scope.bindings root = some old)
    (hwrite : valueTree.write v old steps = some updated) {later : ComptimeScope}
    (hlater : later.bindings root = some updated) :
    ReadsAssigned floats scope later root steps v := by
  refine ⟨?_, ?_⟩
  · intro expr hplace
    have hread := foldsTo_place hplace hlater
    rwa [valueTree.read_write_self hwrite] at hread
  · intro expr expr' others fold hunrelated hplace hplace'
    have hbefore := foldsTo_place hplace hroot
    have hafter := foldsTo_place hplace' hlater
    rw [valueTree.read_write_of_unrelated hwrite hunrelated] at hafter
    rw [foldsTo_unique hbefore, foldsTo_unique hafter]

end Assign

end ModernC.Comptime
