import ModernC.Framework.DependencyOrder
import ModernC.Lower.AggregateClosure

/-!
# The order of the aggregates

`emitUnitsInDependencyOrder` defines an aggregate when the names that it depends on are defined,
and what is left when nothing more can be defined in the order it came in.  The names are looked
up by two functions, one for the types of the source and one for signature types: the first does
not follow generics that C has as their argument, the second does not follow aliases.
-/

namespace ModernC.Lower.AggregateDeps

open Framework.PostOrder (Ordered)
open Framework.DependencyOrder (Needs Ready schedule satisfied)
open Optionals (TypeShape nullablePayloadIsValueType)
open Syntax (TypeExpr)

variable (ctx : DepContext)

/-! ## Dependency names -/

def aggregateSignatureDepName (n : ℕ) : Except Failure (Option String) :=
  match _ : ctx.shapes[n]? with
  | none => .error .missingAggregateSignatureFact
  | some (.qualified _ child) => aggregateSignatureDepName child
  | some (.array _ _) => (ctx.nameForSignature n).map some
  | some (.nullable child) =>
    if ctx.signaturePointerLike child then .ok none else (ctx.nameForSignature n).map some
  | some (.generic base []) =>
    if base = "Result" then (ctx.nameForSignature n).map some else .ok none
  | some (.generic base (arg :: _)) =>
    if base = "Result" then (ctx.nameForSignature n).map some
    else if isTransparentBase base then aggregateSignatureDepName arg
    else .ok none
  | some (.name name) => .ok (if isAggregateName ctx name then some name else none)
  | _ => .ok none
termination_by n
decreasing_by
  all_goals exact ctx.ordered ‹_› _ (by simp [TypeShape.children])

/-- The recursion ends unless aliases lead back to themselves. -/
def aggregateDepName : ℕ → TypeExpr → Except Failure (Option String)
  | 0, _ => .error .endless
  | fuel + 1, ty =>
    match ctx.resolveAliasType ty with
    | .array len child => (ctx.nameForType (.array len child)).map some
    | .qualified _ child => aggregateDepName fuel child
    | .generic base args =>
      if base.text = "Result" then (ctx.nameForType (.generic base args)).map some else .ok none
    | .nullable child =>
      if nullablePayloadIsValueType ctx.tables child then
        (ctx.nameForType (.nullable child)).map some
      else .ok none
    | .name id => .ok (if isAggregateName ctx id.text then some id.text else none)
    | _ => .ok none

/-- What `aggregateDepsSatisfied` looks up for a unit, in its order. -/
def dependencies (fuel : ℕ) : AggregateEmitUnit → List (Except Failure (Option String))
  | .structDecl decl => decl.fields.map (aggregateDepName ctx fuel)
  | .array info => [aggregateSignatureDepName ctx info.elementTypeId]
  | .result info =>
    [aggregateSignatureDepName ctx info.okTypeId, aggregateSignatureDepName ctx info.errTypeId]
  | .taggedUnion decl => decl.payloads.map (aggregateDepName ctx fuel)
  | .opt info => [aggregateSignatureDepName ctx info.payloadTypeId]

/-- Looking the names up stops at the first one that was not emitted. -/
def allEmitted (emitted : List String) : List (Except Failure (Option String)) → Except Failure Bool
  | [] => .ok true
  | look :: rest =>
    match look with
    | .error failure => .error failure
    | .ok none => allEmitted emitted rest
    | .ok (some dep) => if emitted.contains dep then allEmitted emitted rest else .ok false

def aggregateDepsSatisfied (fuel : ℕ) (unit : AggregateEmitUnit) (emitted : List String) :
    Except Failure Bool :=
  allEmitted emitted (dependencies ctx fuel unit)

/-! ## The emission -/

/-- The inner loop over the units that are not done, with those emitted so far. -/
def emitPass (fuel : ℕ) : List AggregateEmitUnit → List AggregateEmitUnit →
    Except Failure (List AggregateEmitUnit × List AggregateEmitUnit)
  | [], out => .ok (out, [])
  | unit :: rest, out => do
    if ← aggregateDepsSatisfied ctx fuel unit (out.map aggregateUnitName) then
      emitPass fuel rest (out ++ [unit])
    else do
      let (out, left) ← emitPass fuel rest out
      return (out, unit :: left)

/-- The outer loop.  Without progress, what is left is emitted as it is. -/
def emitLoop (fuel : ℕ) (rest out : List AggregateEmitUnit) :
    Except Failure (List AggregateEmitUnit) :=
  match emitPass ctx fuel rest out with
  | .error failure => .error failure
  | .ok (out, left) =>
    if left.length < rest.length then emitLoop fuel left out else .ok (out ++ left)
termination_by rest.length

def emitUnitsInDependencyOrder (fuel : ℕ) (units : List AggregateEmitUnit) :
    Except Failure (List AggregateEmitUnit) :=
  emitLoop ctx fuel units []

/-! ## The names of a unit -/

/-- The name that was looked up, if there is one. -/
def lookedUp : Except Failure (Option String) → Option String
  | .ok dep => dep
  | .error _ => none

/-- The dependency names of a unit. -/
def depNames (fuel : ℕ) (unit : AggregateEmitUnit) : List String :=
  (dependencies ctx fuel unit).filterMap lookedUp

/-- **A set of units:** each has a name of its own, and the types in them can be named. -/
structure UnitSet (fuel : ℕ) where
  units : List AggregateEmitUnit
  nodup : (units.map aggregateUnitName).Nodup
  named : ∀ unit ∈ units, ∀ look ∈ dependencies ctx fuel unit, ∃ dep, look = .ok dep

/-- No unit contains itself, over any number of steps. -/
def Acyclic (units : List AggregateEmitUnit) : Prop :=
  ∃ rank : String → ℕ, ∀ unit ∈ units, ∀ n, Contains ctx unit n →
    rank n < rank (aggregateUnitName unit)

/-- **Units are emitted in order:** for every order of the set the emission ends with each unit
once, and behind the units of the set that it contains by value. -/
def EmittedInOrder {fuel : ℕ} (set : UnitSet ctx fuel) : Prop :=
  ∀ order : List AggregateEmitUnit, order.Perm set.units →
    ∃ emitted, emitUnitsInDependencyOrder ctx fuel order = .ok emitted ∧ emitted.Perm order ∧
      Ordered aggregateUnitName
        (fun unit n => Contains ctx unit n ∧ n ∈ set.units.map aggregateUnitName) emitted

variable {ctx} {fuel : ℕ}

lemma allEmitted_eq {looks : List (Except Failure (Option String))}
    (hnamed : ∀ look ∈ looks, ∃ dep, look = .ok dep) (emitted : List String) :
    allEmitted emitted looks = .ok ((looks.filterMap lookedUp).all emitted.contains) := by
  induction looks with
  | nil => rfl
  | cons look looks ih =>
    have hrest := ih fun look hlook => hnamed look (List.mem_cons_of_mem _ hlook)
    obtain ⟨dep, rfl⟩ := hnamed look List.mem_cons_self
    cases dep with
    | none =>
      rw [allEmitted, hrest]
      rfl
    | some dep =>
      have hcons : (Except.ok (some dep) :: looks).filterMap lookedUp =
          dep :: looks.filterMap lookedUp := rfl
      rw [allEmitted, hrest, hcons, List.all_cons]
      by_cases hdep : emitted.contains dep = true
      · rw [if_pos hdep, hdep, Bool.true_and]
      · rw [if_neg hdep, Bool.eq_false_iff.mpr hdep, Bool.false_and]

/-- What `aggregateDepsSatisfied` decides. -/
lemma aggregateDepsSatisfied_eq {unit : AggregateEmitUnit} (out : List AggregateEmitUnit)
    (hnamed : ∀ look ∈ dependencies ctx fuel unit, ∃ dep, look = .ok dep) :
    aggregateDepsSatisfied ctx fuel unit (out.map aggregateUnitName) =
      .ok (satisfied aggregateUnitName (depNames ctx fuel) out unit) :=
  allEmitted_eq hnamed _

/-- **The inner loop is a pass.** -/
lemma emitPass_eq {rest : List AggregateEmitUnit} (out : List AggregateEmitUnit)
    (hnamed : ∀ unit ∈ rest, ∀ look ∈ dependencies ctx fuel unit, ∃ dep, look = .ok dep) :
    emitPass ctx fuel rest out =
      .ok (Framework.DependencyOrder.pass aggregateUnitName (depNames ctx fuel) rest out) := by
  induction rest generalizing out with
  | nil => rfl
  | cons unit rest ih =>
    have hrest := fun out => ih out fun unit hunit => hnamed unit (List.mem_cons_of_mem _ hunit)
    have hsatisfied := aggregateDepsSatisfied_eq out (hnamed unit List.mem_cons_self)
    rw [emitPass, Framework.DependencyOrder.pass, hsatisfied]
    cases satisfied aggregateUnitName (depNames ctx fuel) out unit with
    | true => exact hrest _
    | false =>
      have hleft := hrest out
      simp [hleft, bind, Except.bind, pure, Except.pure]

/-- **The outer loop is a schedule.** -/
lemma emitLoop_eq {rest : List AggregateEmitUnit} (out : List AggregateEmitUnit)
    (hnamed : ∀ unit ∈ rest, ∀ look ∈ dependencies ctx fuel unit, ∃ dep, look = .ok dep) :
    emitLoop ctx fuel rest out =
      .ok (schedule aggregateUnitName (depNames ctx fuel) rest out) := by
  induction rest, out using
      Framework.DependencyOrder.schedule.induct aggregateUnitName (depNames ctx fuel) with
  | case1 rest out hlt ih =>
    have hkeeps := (Framework.DependencyOrder.pass_runs aggregateUnitName (depNames ctx fuel) rest
      out).keeps
    rw [emitLoop, emitPass_eq out hnamed, schedule, if_pos hlt]
    simp only [if_pos hlt]
    exact ih fun unit hunit => hnamed unit (hkeeps.subset hunit)
  | case2 rest out hge =>
    rw [emitLoop, emitPass_eq out hnamed, schedule, if_neg hge]
    simp only [if_neg hge]

/-- The emission is a schedule, which ends with each unit once. -/
lemma emittedInOrder_iff_schedule (set : UnitSet ctx fuel) :
    EmittedInOrder ctx set ↔ ∀ order : List AggregateEmitUnit, order.Perm set.units →
      Ordered aggregateUnitName
        (fun unit n => Contains ctx unit n ∧ n ∈ set.units.map aggregateUnitName)
        (schedule aggregateUnitName (depNames ctx fuel) order []) := by
  have hemit : ∀ order : List AggregateEmitUnit, order.Perm set.units →
      emitUnitsInDependencyOrder ctx fuel order =
        .ok (schedule aggregateUnitName (depNames ctx fuel) order []) :=
    fun order horder => emitLoop_eq [] fun unit hunit =>
      set.named unit (horder.mem_iff.mp hunit)
  constructor
  · intro h order horder
    obtain ⟨emitted, hemitted, -, hordered⟩ := h order horder
    rw [hemit order horder] at hemitted
    rwa [Except.ok.inj hemitted]
  · intro h order horder
    exact ⟨_, hemit order horder, Framework.DependencyOrder.schedule_perm _ _ order,
      h order horder⟩

/-- **When units are emitted in order.**  What a unit of the set contains is defined by a pass, and
if the unit is, it depends on what it contains over some steps. -/
theorem emittedInOrder_iff (set : UnitSet ctx fuel) :
    EmittedInOrder ctx set ↔
      ∀ unit ∈ set.units, ∀ part ∈ set.units, Contains ctx unit (aggregateUnitName part) →
        Ready aggregateUnitName (depNames ctx fuel) set.units part ∧
          (Ready aggregateUnitName (depNames ctx fuel) set.units unit →
            Relation.TransGen (Needs aggregateUnitName (depNames ctx fuel) set.units) unit
              part) := by
  rw [emittedInOrder_iff_schedule,
    Framework.DependencyOrder.schedule_ordered_iff set.nodup]

/-! ## A generic that C has as its argument -/

/-- `struct Inner { x: u32 }`. -/
def innerDecl : StructDecl := { name := "Inner", fields := [.name { text := "u32" }] }

def cellType : TypeExpr := .generic { text := "MaybeUninit" } [.name { text := "Inner" }]

/-- `struct Outer { cell: MaybeUninit<Inner> }`. -/
def outerDecl : StructDecl := { name := "Outer", fields := [cellType] }

def cellTables : Types.NameTables where
  aliases := ∅
  opaques := []
  structs := ["Inner", "Outer"]
  overlayUnions := []
  enums := ∅
  packedBits := []
  taggedUnions := []
  typeParams := []
  rank _ := 0
  rank_lt h := absurd h (by simp)

def cellContext : DepContext where
  tables := cellTables
  structs := fun name =>
    if name = "Inner" then some innerDecl else if name = "Outer" then some outerDecl else none
  taggedUnions := fun _ => none
  shapes := []
  nameForType := fun _ => .error .unsupportedCEmission
  nameForSignature := fun _ => .error .unsupportedCEmission
  ordered h := absurd h (by simp)

lemma resolveAliasType_cell : cellContext.resolveAliasType cellType = cellType := by
  rw [DepContext.resolveAliasType, cellType, DepContext.resolveAliasTypeDepth,
    if_neg (Nat.not_lt.mpr (Nat.zero_le _))]
  rfl

lemma resolveAliasType_u32 :
    cellContext.resolveAliasType (.name { text := "u32" }) = .name { text := "u32" } := by
  rw [DepContext.resolveAliasType, DepContext.resolveAliasTypeDepth,
    if_neg (Nat.not_lt.mpr (Nat.zero_le _))]
  rfl

/-- Neither unit depends on a name. -/
lemma dependencies_cell :
    dependencies cellContext 1 (.structDecl outerDecl) = [.ok none] ∧
      dependencies cellContext 1 (.structDecl innerDecl) = [.ok none] := by
  have houter : aggregateDepName cellContext 1 cellType = .ok none := by
    rw [aggregateDepName, resolveAliasType_cell]
    rfl
  have hinner : aggregateDepName cellContext 1 (.name { text := "u32" }) = .ok none := by
    rw [aggregateDepName, resolveAliasType_u32]
    rfl
  exact ⟨congrArg (fun look => [look]) houter, congrArg (fun look => [look]) hinner⟩

def cells : UnitSet cellContext 1 where
  units := [.structDecl outerDecl, .structDecl innerDecl]
  nodup := by decide
  named := by
    intro unit hunit look hlook
    rcases List.mem_cons.mp hunit with rfl | hunit
    · rw [dependencies_cell.1] at hlook
      exact ⟨_, List.mem_singleton.mp hlook⟩
    · rw [List.mem_singleton.mp hunit, dependencies_cell.2] at hlook
      exact ⟨_, List.mem_singleton.mp hlook⟩

lemma contains_cell {unit : AggregateEmitUnit} (hunit : unit ∈ cells.units) {n : String}
    (h : Contains cellContext unit n) : unit = .structDecl outerDecl ∧ n = "Inner" := by
  rcases List.mem_cons.mp hunit with rfl | hunit
  · obtain ⟨ty, hty, hholds⟩ := h
    rw [List.mem_singleton.mp hty] at hholds
    cases hholds with
    | result hbase _ => exact absurd hbase.1 (by decide)
    | transparent _ hholds =>
      cases hholds with
      | aliased halias _ => exact absurd halias nofun
      | named _ _ => exact ⟨rfl, rfl⟩
  · rw [List.mem_singleton.mp hunit] at h
    obtain ⟨ty, hty, hholds⟩ := h
    rw [List.mem_singleton.mp hty] at hholds
    cases hholds with
    | aliased halias _ => exact absurd halias nofun
    | named _ hname => exact absurd hname (by decide)

/-- The struct that comes first is defined first, although it contains the other one. -/
theorem cells_not_emittedInOrder :
    Acyclic cellContext cells.units ∧ ¬EmittedInOrder cellContext cells := by
  have hnone : depNames cellContext 1 (.structDecl outerDecl) = [] ∧
      depNames cellContext 1 (.structDecl innerDecl) = [] := by
    rw [depNames, depNames, dependencies_cell.1, dependencies_cell.2]
    exact ⟨rfl, rfl⟩
  constructor
  · refine ⟨fun name => if name = "Outer" then 1 else 0, fun unit hunit n h => ?_⟩
    obtain ⟨rfl, rfl⟩ := contains_cell hunit h
    decide
  · intro h
    obtain ⟨emitted, hemitted, hperm, hordered⟩ := h cells.units (.refl _)
    have hsupported : Framework.DependencyOrder.Supported aggregateUnitName
        (depNames cellContext 1) cells.units := by
      intro before unit after hsplit n hn
      have hunit : unit ∈ cells.units := by simp [hsplit]
      rcases List.mem_cons.mp hunit with rfl | hunit
      · exact absurd (hnone.1 ▸ hn) List.not_mem_nil
      · rw [List.mem_singleton.mp hunit] at hn
        exact absurd (hnone.2 ▸ hn) List.not_mem_nil
    have hprefix := Framework.DependencyOrder.prefix_schedule hsupported []
    have hschedule := emitLoop_eq [] cells.named
    rw [List.append_nil, Except.ok.inj (hschedule.symm.trans hemitted)] at hprefix
    have hsame := hprefix.eq_of_length hperm.length_eq.symm
    have hinner := hordered [] (.structDecl outerDecl) [.structDecl innerDecl] hsame.symm "Inner"
      ⟨⟨cellType, List.mem_singleton_self _, .transparent (by decide) (.named rfl rfl)⟩,
        by decide⟩
    exact absurd hinner List.not_mem_nil

end ModernC.Lower.AggregateDeps
