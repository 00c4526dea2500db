import ModernC.SemaTypes.Denotation
import ModernC.SemaTypes.Rendering

/-!
# A type agrees with the syntax of itself only

`agreesWithSyntax` answers yes for the rendering of a type at that type and at no other
(`agreesId_render_iff`), where declarations have spellings of their own.
-/

namespace ModernC.SemaTypes

open Syntax (Expr Ident TypeExpr)

/-! ## Spellings are read back -/

lemma Builtin.fromName_spelling (name : Builtin) : fromName name.spelling = some name := by
  cases name <;> rfl

lemma BuiltinGeneric.fromName_spelling (name : BuiltinGeneric) :
    fromName name.spelling = some name := by
  cases name <;> rfl

/-- A scalar or builtin is told by its spelling. -/
lemma scalarSpelling_back {ty : ResolvedType} {name : String} (h : scalarSpelling ty = some name) :
    (scalarByName name).or ((Builtin.fromName name).map .builtin) = some ty := by
  unfold scalarSpelling at h
  split at h
  case h_17 builtin =>
    obtain rfl := Option.some.inj h
    have hscalar : scalarByName builtin.spelling = none := by cases builtin <;> rfl
    rw [hscalar, Builtin.fromName_spelling]
    rfl
  case h_18 => cases h
  all_goals
    obtain rfl := Option.some.inj h
    rfl

lemma scalarSpelling_injective {ty ty' : ResolvedType} {name : String}
    (h : scalarSpelling ty = some name) (h' : scalarSpelling ty' = some name) : ty = ty' :=
  Option.some.inj ((scalarSpelling_back h).symm.trans (scalarSpelling_back h'))

namespace Resolved

variable {self : Resolved} {ty : ResolvedType}

/-! ## What each form of syntax agrees with -/

attribute [local simp] agrees

variable {name : String}

lemma spelling_eq_some_iff :
    self.spelling ty = some name ↔ scalarSpelling ty = some name ∨
      ∃ info, ty = .nominal info ∧ self.nominalNames info.defId = some name := by
  unfold spelling
  cases hscalar : scalarSpelling ty with
  | some spelled =>
    refine ⟨.inl, fun h => h.resolve_right ?_⟩
    rintro ⟨info, rfl, -⟩
    cases hscalar
  | none =>
    cases ty with
    | nominal info => simp
    | _ => simp

lemma agreesId_iff {id : TypeId} {node : TypeExpr} :
    self.agreesId id node = true ↔ ∃ ty, self.table.get id = some ty ∧ self.agrees ty node := by
  rw [agreesId]
  cases self.table.get id <;> simp

lemma agrees_name :
    self.agrees ty (nameType name) = true ↔ self.spelling ty = some name := by
  rw [nameType, agrees]
  cases self.spelling ty <;> simp

variable {mutability : Mutability}

lemma agrees_pointerType {kind : PointerKind} {node : TypeExpr} :
    self.agrees ty (pointerType kind mutability node) = true ↔
      ∃ child, ty = .pointer kind mutability false child ∧ self.agreesId child node = true := by
  cases kind <;> cases ty <;> simp [pointerType, agrees, and_assoc, and_left_comm]

lemma agrees_nullable {node : TypeExpr} :
    self.agrees ty (.nullable node) = true ↔
      (∃ kind mutability child, ty = .pointer kind mutability true child ∧
          self.agrees (.pointer kind mutability false child) node = true) ∨
        ∃ child, ty = .optional child ∧ self.agreesId child node = true := by
  cases ty <;> simp [agrees, and_assoc]

lemma agrees_slice {node : TypeExpr} :
    self.agrees ty (.slice mutability.toSyntax node) = true ↔
      ∃ child, ty = .slice mutability child ∧ self.agreesId child node = true := by
  cases ty <;> simp [agrees, and_assoc]

lemma agrees_qualified {node : TypeExpr} :
    self.agrees ty (.qualified mutability.toSyntax node) = true ↔
      ∃ child, ty = .qualified mutability child ∧ self.agreesId child node = true := by
  cases ty <;> simp [agrees, and_assoc]

/-- A length agrees with the digits it is printed with, and with no others. -/
lemma arrayLenAgrees_toString {len len' : UInt64} :
    arrayLenAgrees len (.intLiteral (toString len'.toNat)) = true ↔ len = len' := by
  have hmax : len'.toNat ≤ Syntax.maxMagnitude :=
    (Nat.le_of_lt len'.toNat_lt).trans (by decide)
  simp only [arrayLenAgrees, Types.integerLiteralValue, Syntax.parseIntegerLiteral_toString hmax,
    Option.map_some, Bool.false_eq_true, if_false, beq_iff_eq, UInt64.toNat_inj]
  exact eq_comm

lemma agrees_array {len : UInt64} {node : TypeExpr} :
    self.agrees ty (.array (.intLiteral (toString len.toNat)) node) = true ↔
      ∃ child, ty = .array len child ∧ self.agreesId child node = true := by
  cases ty with
  | array len' child =>
    rw [agrees, Bool.and_eq_true, arrayLenAgrees_toString]
    simp [and_comm]
  | _ => simp [agrees]

lemma agrees_result {nodes : List TypeExpr} (hlength : nodes.length = 2) :
    self.agrees ty (.generic ⟨"Result", 0⟩ nodes) = true ↔
      ∃ ok err, ty = .result ok err ∧ self.listAgrees [ok, err] nodes = true := by
  cases ty <;> simp [agrees, hlength]

lemma agrees_generic {base : String} {nodes : List TypeExpr} (hbase : base ≠ "Result") :
    self.agrees ty (.generic ⟨base, 0⟩ nodes) = true ↔
      ∃ base' run, ty = .generic base' run ∧ self.baseSpelling base' = some base ∧
        self.listAgrees (self.table.list run) nodes = true := by
  cases ty with
  | generic base' run =>
    cases hspelled : self.baseSpelling base' with
    | none => simp [agrees, hbase, hspelled]
    | some spelled =>
      by_cases hsame : spelled = base <;> simp [agrees, hbase, hspelled, hsame]
  | _ => simp [agrees, hbase]

lemma agrees_signatureType {kind : SignatureKind} {params : List TypeExpr} {ret : TypeExpr} :
    self.agrees ty (signatureType kind params ret) = true ↔
      ∃ run child, ty = .signature kind run child ∧
        self.listAgrees (self.table.list run) params = true ∧
        self.agreesId child ret = true := by
  cases kind <;> cases ty <;> simp [signatureType, agrees, and_assoc]

lemma agrees_dynTrait :
    self.agrees ty (.dynTrait mutability.toSyntax ⟨name, 0⟩) = true ↔
      ∃ info, ty = .dynTrait info ∧ info.mutability = mutability ∧
        self.nominalNames info.trait = some name := by
  cases ty with
  | dynTrait info => cases hname : self.nominalNames info.trait <;> simp [agrees, hname]
  | _ => simp [agrees]

/-! ## Renderings -/

/-- Declarations have spellings of their own. -/
structure DistinctNames (resolved : Resolved) : Prop where
  injective : ∀ defId defId' name, resolved.nominalNames defId = some name →
    resolved.nominalNames defId' = some name → defId = defId'
  notScalar : ∀ defId name, resolved.nominalNames defId = some name →
    ∀ ty, scalarSpelling ty ≠ some name
  notGeneric : ∀ defId name, resolved.nominalNames defId = some name →
    ∀ builtin : BuiltinGeneric, builtin.spelling ≠ name
  notResult : ∀ id defId run, resolved.table.get id = some (.generic (.decl defId) run) →
    resolved.nominalNames defId ≠ some "Result"

/-- What is read back as the contents of a list. -/
lemma listAgrees_iff {f : TypeId → Option TypeExpr}
    (h : ∀ b node, f b = some node → ∀ a, self.agreesId a node = true ↔ a = b)
    {ids ids' : List TypeId} {nodes : List TypeExpr} (hnodes : ids'.mapM f = some nodes) :
    self.listAgrees ids nodes = true ↔ ids = ids' := by
  rw [mapM_eq_some_iff] at hnodes
  induction hnodes generalizing ids with
  | nil => cases ids <;> simp [listAgrees]
  | cons hb _ ih =>
    cases ids with
    | nil => simp [listAgrees]
    | cons a ids => rw [listAgrees, Bool.and_eq_true, h _ _ hb, ih, List.cons.injEq]

/-- **The depth is enough**: down to any depth behind its id a type is rendered alike. -/
lemma render_congr {kindOf : DefId → NominalKind} (hwell : self.table.WellFormed kindOf)
    {fuel fuel' : ℕ} {id : TypeId} (hfuel : id.value < fuel) (hfuel' : id.value < fuel') :
    self.render fuel' id = self.render fuel id := by
  induction fuel generalizing fuel' id with
  | zero => omega
  | succ fuel ih =>
    obtain ⟨fuel', rfl⟩ : ∃ n, fuel' = n + 1 := ⟨fuel' - 1, by omega⟩
    rcases hget : self.table.get id with _ | ty
    · rw [render, render, hget]
      rfl
    · have hentry := hwell.entries _ _ hget
      have hchild : ∀ c ∈ ty.children, self.render fuel' c = self.render fuel c := fun c hc =>
        have hbelow := hentry.children c hc
        ih (by omega) (by omega)
      have hruns : ∀ run ∈ ty.runs, (self.table.list run).mapM (self.render fuel') =
          (self.table.list run).mapM (self.render fuel) := fun run hrun =>
        mapM_congr fun c hc =>
          have hbelow := (hentry.runs run hrun).2 c hc
          ih (by omega) (by omega)
      rw [render, render, hget]
      cases ty <;> simp_all [Node.children, Node.runs]

/-- One step of the rendering, with the renderings `f` of what a type is built out of. -/
inductive Renders (self : Resolved) (f : TypeId → Option TypeExpr) :
    ResolvedType → TypeExpr → Prop where
  | named {ty : ResolvedType} {name : String} (h : self.spelling ty = some name) :
      Renders self f ty (nameType name)
  | pointer {kind : PointerKind} {mutability : Mutability} {child : TypeId} {node : TypeExpr}
      (h : f child = some node) :
      Renders self f (.pointer kind mutability false child) (pointerType kind mutability node)
  | nullablePointer {kind : PointerKind} {mutability : Mutability} {child : TypeId}
      {node : TypeExpr} (h : f child = some node) :
      Renders self f (.pointer kind mutability true child)
        (.nullable (pointerType kind mutability node))
  | slice {mutability : Mutability} {child : TypeId} {node : TypeExpr} (h : f child = some node) :
      Renders self f (.slice mutability child) (.slice mutability.toSyntax node)
  | array {len : UInt64} {child : TypeId} {node : TypeExpr} (h : f child = some node) :
      Renders self f (.array len child) (.array (.intLiteral (toString len.toNat)) node)
  | optional {child : TypeId} {node : TypeExpr} (h : f child = some node) :
      Renders self f (.optional child) (.nullable node)
  | result {ok err : TypeId} {nodes : List TypeExpr} (h : [ok, err].mapM f = some nodes) :
      Renders self f (.result ok err) (.generic ⟨"Result", 0⟩ nodes)
  | signature {kind : SignatureKind} {run : TypeList} {child : TypeId} {nodes : List TypeExpr}
      {node : TypeExpr} (hrun : (self.table.list run).mapM f = some nodes)
      (h : f child = some node) :
      Renders self f (.signature kind run child) (signatureType kind nodes node)
  | generic {base : GenericBase} {name : String} {run : TypeList} {nodes : List TypeExpr}
      (hbase : self.baseSpelling base = some name)
      (hrun : (self.table.list run).mapM f = some nodes) :
      Renders self f (.generic base run) (.generic ⟨name, 0⟩ nodes)
  | qualified {mutability : Mutability} {child : TypeId} {node : TypeExpr}
      (h : f child = some node) :
      Renders self f (.qualified mutability child) (.qualified mutability.toSyntax node)
  | dynTrait {info : DynTrait} {name : String} (h : self.nominalNames info.trait = some name) :
      Renders self f (.dynTrait info) (.dynTrait info.mutability.toSyntax ⟨name, 0⟩)

lemma renders_of_render {fuel : ℕ} {id : TypeId} {node : TypeExpr}
    (h : self.render (fuel + 1) id = some node) :
    ∃ ty, self.table.get id = some ty ∧ Renders self (self.render fuel) ty node := by
  rw [render, Option.bind_eq_bind, Option.bind_eq_some_iff] at h
  obtain ⟨ty, hget, h⟩ := h
  refine ⟨ty, hget, ?_⟩
  -- each form of a type is rendered from the forms of its parts
  cases ty with
  | nominal info =>
    obtain ⟨name, hname, rfl⟩ := Option.map_eq_some_iff.mp h
    exact .named (spelling_eq_some_iff.mpr (.inr ⟨info, rfl, hname⟩))
  | pointer kind mutability nullable child =>
    obtain ⟨bare, hchild, h⟩ := Option.bind_eq_some_iff.mp h
    cases nullable with
    | false =>
      obtain rfl := Option.some.inj h
      exact .pointer hchild
    | true =>
      obtain rfl := Option.some.inj h
      exact .nullablePointer hchild
  | slice mutability child =>
    obtain ⟨inner, hchild, rfl⟩ := Option.map_eq_some_iff.mp h
    exact .slice hchild
  | array len child =>
    obtain ⟨inner, hchild, rfl⟩ := Option.map_eq_some_iff.mp h
    exact .array hchild
  | optional child =>
    obtain ⟨inner, hchild, rfl⟩ := Option.map_eq_some_iff.mp h
    exact .optional hchild
  | result ok err =>
    obtain ⟨nodeOk, hok, h⟩ := Option.bind_eq_some_iff.mp h
    obtain ⟨nodeErr, herr, h⟩ := Option.bind_eq_some_iff.mp h
    obtain rfl := Option.some.inj h
    exact .result (by simp [hok, herr])
  | signature kind run child =>
    obtain ⟨nodes, hrun, h⟩ := Option.bind_eq_some_iff.mp h
    obtain ⟨inner, hchild, h⟩ := Option.bind_eq_some_iff.mp h
    obtain rfl := Option.some.inj h
    exact .signature hrun hchild
  | generic base run =>
    obtain ⟨name, hbase, h⟩ := Option.bind_eq_some_iff.mp h
    obtain ⟨nodes, hrun, h⟩ := Option.bind_eq_some_iff.mp h
    obtain rfl := Option.some.inj h
    exact .generic hbase hrun
  | qualified mutability child =>
    obtain ⟨inner, hchild, rfl⟩ := Option.map_eq_some_iff.mp h
    exact .qualified hchild
  | dynTrait info =>
    obtain ⟨name, hname, rfl⟩ := Option.map_eq_some_iff.mp h
    exact .dynTrait hname
  | void_ | boolean | integer info | float width | builtin builtin =>
    obtain ⟨name, hname, rfl⟩ := Option.map_eq_some_iff.mp h
    exact .named (spelling_eq_some_iff.mpr (.inl hname))

/-- Only a pointer is rendered as something that a pointer agrees with. -/
lemma Renders.eq_pointer_of_agrees {f : TypeId → Option TypeExpr} {node : TypeExpr}
    {kind : PointerKind} {child : TypeId} (h : Renders self f ty node)
    (hpointer : self.agrees (.pointer kind mutability false child) node = true) :
    ∃ kind' mutability' nullable child', ty = .pointer kind' mutability' nullable child' := by
  cases h with
  | pointer _ | nullablePointer _ => exact ⟨_, _, _, _, rfl⟩
  | named _ => simp [agrees_name, spelling, scalarSpelling] at hpointer
  | slice _ => simp at hpointer
  | array _ =>
    obtain ⟨_, heq, _⟩ := agrees_array.mp hpointer
    cases heq
  | optional _ | result _ => simp at hpointer
  | signature _ _ => simp [agrees_signatureType] at hpointer
  | generic _ _ => simp [agrees] at hpointer
  | qualified _ | dynTrait _ => simp at hpointer

section Agreement

variable {kindOf : DefId → NominalKind}

/-- A name is agreed with by the type it spells only. -/
lemma spelling_injective (hwell : self.table.WellFormed kindOf) (hnames : DistinctNames self)
    {a b : TypeId} {ty' : ResolvedType} (ha : self.table.get a = some ty)
    (hb : self.table.get b = some ty') (h : self.spelling ty = some name)
    (h' : self.spelling ty' = some name) : ty = ty' := by
  rcases spelling_eq_some_iff.mp h with hscalar | ⟨info, rfl, hname⟩ <;>
    rcases spelling_eq_some_iff.mp h' with hscalar' | ⟨info', rfl, hname'⟩
  · exact scalarSpelling_injective hscalar hscalar'
  · exact absurd hscalar (hnames.notScalar _ _ hname' _)
  · exact absurd hscalar' (hnames.notScalar _ _ hname _)
  · have hdef := hnames.injective _ _ _ hname hname'
    have hkind := (hwell.entries _ _ ha).nominal info rfl
    have hkind' := (hwell.entries _ _ hb).nominal info' rfl
    obtain ⟨defId, kind⟩ := info
    obtain ⟨defId', kind'⟩ := info'
    obtain rfl : defId = defId' := hdef
    obtain rfl : kind = kind' := hkind.trans hkind'.symm
    rfl

/-- A generic is told by its spelling. -/
lemma baseSpelling_injective (hnames : DistinctNames self) {base base' : GenericBase}
    (h : self.baseSpelling base = some name)
    (h' : self.baseSpelling base' = some name) : base = base' := by
  cases base with
  | decl defId =>
    cases base' with
    | decl defId' => rw [hnames.injective _ _ _ h h']
    | builtin generic => exact absurd (Option.some.inj h') (hnames.notGeneric _ _ h generic)
  | builtin generic =>
    cases base' with
    | decl defId' => exact absurd (Option.some.inj h) (hnames.notGeneric _ _ h' generic)
    | builtin generic' =>
      have hback := BuiltinGeneric.fromName_spelling generic
      have hback' := BuiltinGeneric.fromName_spelling generic'
      rw [Option.some.inj h] at hback
      rw [Option.some.inj h', hback] at hback'
      rw [Option.some.inj hback']

lemma baseSpelling_ne_result (hnames : DistinctNames self) {id : TypeId} {base : GenericBase}
    {run : TypeList} (hget : self.table.get id = some (.generic base run))
    (h : self.baseSpelling base = some name) : name ≠ "Result" := by
  rintro rfl
  cases base with
  | decl defId => exact hnames.notResult _ _ _ hget h
  | builtin generic =>
    have hspelled := Option.some.inj h
    cases generic <;> exact absurd hspelled (by decide)

/-- **One step**: with the agreement of what a type is built out of, its rendering agrees with
the type itself only. -/
lemma agrees_iff_of_renders (hwell : self.table.WellFormed kindOf) (hnames : DistinctNames self)
    {fuel : ℕ} {a b : TypeId} {ty' : ResolvedType} {node : TypeExpr}
    (ih : ∀ b node, self.render fuel b = some node → ∀ a, self.agreesId a node = true ↔ a = b)
    (ha : self.table.get a = some ty) (hb : self.table.get b = some ty')
    (h : Renders self (self.render fuel) ty' node) : self.agrees ty node = true ↔ ty = ty' := by
  have hlist := @listAgrees_iff self _ ih
  have hknown : ∀ {id ty run}, self.table.get id = some ty → run ∈ ty.runs →
      self.table.Known run :=
    fun hget hrun => ((hwell.entries _ _ hget).runs _ hrun).1
  cases h with
  | named hname =>
    rw [agrees_name]
    exact ⟨fun hspelled => spelling_injective hwell hnames ha hb hspelled hname, fun h => h ▸ hname⟩
  | pointer hchild =>
    rw [agrees_pointerType]
    simp only [ih _ _ hchild, exists_eq_right]
  | nullablePointer hchild =>
    rw [agrees_nullable]
    constructor
    · rintro (⟨kind, mutability, other, rfl, hpointer⟩ | ⟨other, rfl, hother⟩)
      · obtain ⟨child, heq, hagrees⟩ := agrees_pointerType.mp hpointer
        cases heq
        rw [(ih _ _ hchild _).mp hagrees]
      · -- no optional has a pointer as its payload
        obtain ⟨payload, hget, hpointer⟩ := agreesId_iff.mp hother
        obtain ⟨_, rfl, _⟩ := agrees_pointerType.mp hpointer
        exact absurd hget ((hwell.entries _ _ ha).optional other rfl _ _ _ _)
    · rintro rfl
      exact .inl ⟨_, _, _, rfl, agrees_pointerType.mpr ⟨_, rfl, (ih _ _ hchild _).mpr rfl⟩⟩
  | slice hchild =>
    rw [agrees_slice]
    simp only [ih _ _ hchild, exists_eq_right]
  | array hchild =>
    rw [agrees_array]
    simp only [ih _ _ hchild, exists_eq_right]
  | @optional child inner hchild =>
    rw [agrees_nullable]
    constructor
    · rintro (⟨kind, mutability, other, rfl, hpointer⟩ | ⟨other, rfl, hother⟩)
      · cases fuel with
        | zero => cases hchild
        | succ fuel =>
          obtain ⟨payload, hget, hrenders⟩ := renders_of_render hchild
          obtain ⟨_, _, _, _, rfl⟩ := hrenders.eq_pointer_of_agrees hpointer
          exact absurd hget ((hwell.entries _ _ hb).optional child rfl _ _ _ _)
      · rw [(ih _ _ hchild _).mp hother]
    · rintro rfl
      exact .inr ⟨_, rfl, (ih _ _ hchild _).mpr rfl⟩
  | result hnodes =>
    have hlength := (mapM_eq_some_iff.mp hnodes).length_eq
    rw [agrees_result hlength.symm]
    simp only [hlist hnodes, List.cons.injEq, and_true]
    constructor
    · rintro ⟨_, _, rfl, rfl, rfl⟩
      rfl
    · rintro rfl
      exact ⟨_, _, rfl, rfl, rfl⟩
  | signature hrun hchild =>
    rw [agrees_signatureType]
    simp only [hlist hrun, ih _ _ hchild]
    constructor
    · rintro ⟨run, _, rfl, hcontents, rfl⟩
      rw [hwell.known_injective (hknown ha (by simp [Node.runs]))
        (hknown hb (by simp [Node.runs])) hcontents]
    · rintro rfl
      exact ⟨_, _, rfl, rfl, rfl⟩
  | generic hbase hrun =>
    rw [agrees_generic (baseSpelling_ne_result hnames hb hbase)]
    simp only [hlist hrun]
    constructor
    · rintro ⟨base, run, rfl, hspelled, hcontents⟩
      rw [baseSpelling_injective hnames hspelled hbase,
        hwell.known_injective (hknown ha (by simp [Node.runs]))
          (hknown hb (by simp [Node.runs])) hcontents]
    · rintro rfl
      exact ⟨_, _, rfl, hbase, rfl⟩
  | qualified hchild =>
    rw [agrees_qualified]
    simp only [ih _ _ hchild, exists_eq_right]
  | @dynTrait info name hname =>
    rw [agrees_dynTrait]
    constructor
    · rintro ⟨info', rfl, hmutability, hname'⟩
      obtain ⟨mutability, trait⟩ := info
      obtain ⟨mutability', trait'⟩ := info'
      obtain rfl : mutability' = mutability := hmutability
      obtain rfl : trait' = trait := hnames.injective _ _ _ hname' hname
      rfl
    · rintro rfl
      exact ⟨_, rfl, rfl, hname⟩

/-- **Agreement**: the rendering of a type agrees with the id of that type and with no other. -/
theorem agreesId_render_iff (hwell : self.table.WellFormed kindOf) (hnames : DistinctNames self)
    (fuel : ℕ) : ∀ b node, self.render fuel b = some node →
      ∀ a, self.agreesId a node = true ↔ a = b := by
  induction fuel with
  | zero =>
    intro b node h
    cases h
  | succ fuel ih =>
    intro b node h a
    obtain ⟨ty', hb, hrenders⟩ := renders_of_render h
    rw [agreesId_iff]
    constructor
    · rintro ⟨ty, ha, hagrees⟩
      have hsame := (agrees_iff_of_renders hwell hnames ih ha hb hrenders).mp hagrees
      exact hwell.get_injective (hsame ▸ ha) hb
    · rintro rfl
      exact ⟨ty', hb, (agrees_iff_of_renders hwell hnames ih hb hb hrenders).mpr rfl⟩

end Agreement

end Resolved

/-! ## Types and their syntax determine each other -/

/-- **Interning and rendering**: after any calls on a table and any more calls, the ids and runs
of before mean what they meant, ids are equal exactly when they denote the same tree, and a type
agrees with the rendering of itself and of no other type. -/
theorem interned_agrees_iff {kindOf : DefId → NominalKind} {t t' : Table}
    {nominalNames : DefId → Option String} (hcalls : Relation.ReflTransGen (Call kindOf) {} t)
    (hmore : Relation.ReflTransGen (Call kindOf) t t')
    (hnames : Resolved.DistinctNames ⟨t', nominalNames⟩) :
    (∀ id : TypeId, id.value < t.types.length →
      t'.get id = t.get id ∧ t'.denotation id = t.denotation id ∧
        ∃ s, t.denotation id = some s) ∧
    (∀ run, t.Known run → t'.list run = t.list run) ∧
    (∀ a b : TypeId, a.value < t'.types.length → b.value < t'.types.length →
      (a = b ↔ t'.denotation a = t'.denotation b)) ∧
    (∀ a b : TypeId, a.value < t'.types.length → b.value < t'.types.length →
      ∀ node, Resolved.toTypeExpr ⟨t', nominalNames⟩ b = some node →
        (Resolved.agreesWithSyntax ⟨t', nominalNames⟩ a node = true ↔ a = b)) := by
  have hwell := (calls_wellFormed Table.empty_wellFormed hcalls).1
  obtain ⟨hwell', hext⟩ := calls_wellFormed hwell hmore
  refine ⟨fun id hid => ?_, fun run hrun => hwell.list_eq hext hrun, ?_, ?_⟩
  · exact ⟨hext.get_eq hid, Table.denotation_extends hwell hext hid,
      Table.denotation_isSome hwell hid⟩
  · exact fun a b ha hb => Table.denotation_injective hwell' ha hb
  · intro a b _ _ node hnode
    exact Resolved.agreesId_render_iff hwell' hnames _ b node hnode a

/-- Every declaration is a struct. -/
def structKinds (_ : DefId) : NominalKind := .struct_

/-- The table of `u32` and of the struct `Node`. -/
def nodeTable : Table :=
  ((({} : Table).intern (.integer ⟨false, .w32⟩)).2.intern (.nominal ⟨⟨0, 7⟩, .struct_⟩)).2

/-- The table of `u32`, `Node`, `?Node` and `Cell<?Node>`. -/
def cellTable : Table :=
  ((nodeTable.intern (.optional ⟨1⟩)).2.internList [⟨2⟩]).2.intern
    (.generic (.decl ⟨0, 9⟩) ⟨0, 1⟩) |>.2

def cellNames : DefId → Option String
  | ⟨0, 7⟩ => some "Node"
  | ⟨0, 9⟩ => some "Cell"
  | _ => none

theorem cellTable_agrees_iff :
    (∀ id : TypeId, id.value < 2 →
      cellTable.get id = nodeTable.get id ∧ cellTable.denotation id = nodeTable.denotation id ∧
        ∃ s, nodeTable.denotation id = some s) ∧
    (∀ run, nodeTable.Known run → cellTable.list run = nodeTable.list run) ∧
    (∀ a b : TypeId, a.value < 4 → b.value < 4 →
      (a = b ↔ cellTable.denotation a = cellTable.denotation b)) ∧
    (∀ a b : TypeId, a.value < 4 → b.value < 4 →
      ∀ node, Resolved.toTypeExpr ⟨cellTable, cellNames⟩ b = some node →
        (Resolved.agreesWithSyntax ⟨cellTable, cellNames⟩ a node = true ↔ a = b)) := by
  -- the table is built call by call, each within what the table has given out
  have hinteger : Call structKinds {} (({} : Table).intern (.integer ⟨false, .w32⟩)).2 :=
    .intern ⟨nofun, nofun, nofun, nofun⟩
  have hnode : Call structKinds (({} : Table).intern (.integer ⟨false, .w32⟩)).2 nodeTable :=
    .intern ⟨nofun, nofun, by rintro info ⟨⟩; rfl, nofun⟩
  have hoptional : Call structKinds nodeTable (nodeTable.intern (.optional ⟨1⟩)).2 := by
    refine .intern ⟨?_, nofun, nofun, ?_⟩
    · intro id hid
      rw [List.mem_singleton.mp hid]
      decide
    · rintro id ⟨⟩ kind mutability nullable child hget
      cases hget
  have hlist : Call structKinds (nodeTable.intern (.optional ⟨1⟩)).2
      ((nodeTable.intern (.optional ⟨1⟩)).2.internList [⟨2⟩]).2 := by
    refine .internList fun id hid => ?_
    rw [List.mem_singleton.mp hid]
    decide
  have hgeneric : Call structKinds ((nodeTable.intern (.optional ⟨1⟩)).2.internList [⟨2⟩]).2
      cellTable := by
    refine .intern ⟨nofun, ?_, nofun, nofun⟩
    intro run hrun
    rw [List.mem_singleton.mp hrun]
    exact .inr List.mem_cons_self
  have hnamed : ∀ {defId : DefId} {name : String}, cellNames defId = some name →
      defId = ⟨0, 7⟩ ∧ name = "Node" ∨ defId = ⟨0, 9⟩ ∧ name = "Cell" := by
    intro defId name h
    unfold cellNames at h
    split at h
    · exact .inl ⟨rfl, (Option.some.inj h).symm⟩
    · exact .inr ⟨rfl, (Option.some.inj h).symm⟩
    · cases h
  have hnames : Resolved.DistinctNames ⟨cellTable, cellNames⟩ := by
    refine ⟨?_, ?_, ?_, ?_⟩
    · intro defId defId' name h h'
      rcases hnamed h with ⟨rfl, rfl⟩ | ⟨rfl, rfl⟩ <;>
        rcases hnamed h' with ⟨rfl, hname⟩ | ⟨rfl, hname⟩ <;> simp_all
    · intro defId name h ty hty
      have hback := scalarSpelling_back hty
      rcases hnamed h with ⟨-, rfl⟩ | ⟨-, rfl⟩ <;> cases hback
    · intro defId name h builtin
      rcases hnamed h with ⟨-, rfl⟩ | ⟨-, rfl⟩ <;> cases builtin <;> decide
    · intro id defId run _ h
      rcases hnamed h with ⟨-, hname⟩ | ⟨-, hname⟩ <;> simp at hname
  exact interned_agrees_iff (.tail (.single hinteger) hnode)
    (.tail (.tail (.single hoptional) hlist) hgeneric) hnames

end ModernC.SemaTypes
