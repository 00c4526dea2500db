import ModernC.Framework.Obligations
import ModernC.Specialize.Names

/-!
# The linkage names of registered instances

A run of registrations that succeeds has given every instance a name.  Two instances share a name
only if they are of different kinds and have the same key, no instance has the name of a
declaration, and a name is an identifier unless an argument put a minus sign into it.
`linkageSound_iff_plainUses` assumes that what is registered is named by identifiers.
-/

namespace ModernC.Specialize

open ModernC.Framework ModernC.Syntax

/-! ## One registration -/

lemma instancesOf_append (rw : Rewriter) (inst : Instance)
    (linkageKeys : Table String GenericInstanceKey) (kind : InstantiationKind) :
    (rw.append inst linkageKeys).instancesOf kind =
      if kind = inst.kind then rw.instancesOf kind ++ [inst] else rw.instancesOf kind := by
  rw [Rewriter.append]
  cases inst.kind <;> cases kind <;> rfl

variable {rw rw' : Rewriter} {names : List String} {limits : Limits} {currentDepth : ℕ} {use : Use}

lemma mem_instancesOf_append {inst other : Instance}
    {linkageKeys : Table String GenericInstanceKey} {kind : InstantiationKind} :
    other ∈ (rw.append inst linkageKeys).instancesOf kind ↔
      other ∈ rw.instancesOf kind ∨ other = inst ∧ kind = inst.kind := by
  rw [instancesOf_append]
  by_cases hkind : kind = inst.kind
  · simp [hkind]
  · simp [hkind]

lemma count_append (rw : Rewriter) (inst : Instance)
    (linkageKeys : Table String GenericInstanceKey) :
    (rw.append inst linkageKeys).count = rw.count + 1 := by
  rw [Rewriter.append]
  cases inst.kind <;> simp only [Rewriter.count, List.length_append, List.length_singleton] <;>
    omega

lemma linkageKeys_append (rw : Rewriter) (inst : Instance)
    (linkageKeys : Table String GenericInstanceKey) :
    (rw.append inst linkageKeys).linkageKeys = linkageKeys := by
  rw [Rewriter.append]
  cases inst.kind <;> rfl

/-- A registered name is free of the program's names and belongs to its key from then on. -/
lemma registerGenericLinkage_eq_ok
    {linkageKeys linkageKeys' : Table String GenericInstanceKey} {name : String}
    {key : GenericInstanceKey}
    (h : registerGenericLinkage names linkageKeys name key = .ok linkageKeys') :
    name ∉ names ∧ linkageKeys'.lookup name = some key ∧
      ∀ other known, linkageKeys.lookup other = some known →
        linkageKeys'.lookup other = some known := by
  rw [registerGenericLinkage] at h
  by_cases hnames : names.contains name = true
  · rw [if_pos hnames] at h
    exact absurd h (by simp)
  · rw [if_neg hnames] at h
    refine ⟨fun hmem => hnames (List.contains_iff_mem.mpr hmem), ?_⟩
    cases hknown : linkageKeys.lookup name with
    | none =>
      rw [hknown] at h
      have heq : linkageKeys.insert name key = linkageKeys' := Except.ok.inj h
      subst heq
      refine ⟨AList.lookup_insert linkageKeys, ?_⟩
      intro other known hother
      have hne : other ≠ name := by
        rintro rfl
        rw [hknown] at hother
        exact absurd hother (by simp)
      rw [AList.lookup_insert_ne hne]
      exact hother
    | some known =>
      rw [hknown] at h
      by_cases hsame : known = key
      · have heq : linkageKeys = linkageKeys' := by simpa [hsame] using h
        subst heq
        exact ⟨hsame ▸ hknown, fun _ _ hother => hother⟩
      · simp [hsame] at h

lemma admitInstance_eq_ok {depth : ℕ} {result : Unit}
    (h : admitInstance limits rw depth = .ok result) :
    depth ≤ limits.maxDepth ∧ rw.count < limits.maxInstances := by
  rw [admitInstance] at h
  by_cases hdepth : depth > limits.maxDepth
  · rw [if_pos hdepth] at h
    exact absurd h (by simp)
  · rw [if_neg hdepth] at h
    by_cases hcount : rw.count ≥ limits.maxInstances
    · rw [if_pos hcount] at h
      exact absurd h (by simp)
    · exact ⟨Nat.le_of_not_lt hdepth, Nat.lt_of_not_le hcount⟩

/-- **One registration.** The instance of the use is registered afterwards, under a name that is
recorded for its key, and nothing else changes. -/
lemma register_eq_ok (h : register limits names currentDepth rw use = .ok rw') :
    (rw.contains use = true ∧ rw' = rw) ∨
      (rw.contains use = false ∧ currentDepth + 1 ≤ limits.maxDepth ∧
        rw.count < limits.maxInstances ∧ use.mangled ∉ names ∧
        rw'.linkageKeys.lookup use.mangled = some use.key ∧
        (∀ other known, rw.linkageKeys.lookup other = some known →
          rw'.linkageKeys.lookup other = some known) ∧
        rw' = rw.append { toUse := use, depth := currentDepth + 1 } rw'.linkageKeys) := by
  rw [register] at h
  by_cases hcontains : rw.contains use = true
  · rw [if_pos hcontains] at h
    exact Or.inl ⟨hcontains, (Except.ok.inj h).symm⟩
  · rw [if_neg hcontains, exceptBind_eq_ok] at h
    obtain ⟨admitted, hadmit, h⟩ := h
    obtain ⟨linkageKeys, hlinkage, h⟩ := exceptBind_eq_ok.mp h
    obtain ⟨hdepth, hcount⟩ := admitInstance_eq_ok hadmit
    obtain ⟨hfresh, hlookup, hkept⟩ := registerGenericLinkage_eq_ok hlinkage
    have heq : rw.append { toUse := use, depth := currentDepth + 1 } linkageKeys = rw' :=
      Except.ok.inj h
    subst heq
    rw [linkageKeys_append]
    exact Or.inr ⟨Bool.not_eq_true _ ▸ hcontains, hdepth, hcount, hfresh, hlookup, hkept, rfl⟩

/-! ## A run of registrations -/

/-- Every instance has a free name, recorded for its key. -/
def Recorded (names : List String) (rw : Rewriter) : Prop :=
  ∀ kind, ∀ inst ∈ rw.instancesOf kind,
    inst.kind = kind ∧ inst.mangled ∉ names ∧
      rw.linkageKeys.lookup inst.mangled = some inst.key

lemma recorded_empty (names : List String) : Recorded names Rewriter.empty := by
  intro kind inst hmem
  cases kind <;> exact absurd hmem List.not_mem_nil

lemma recorded_register (hrec : Recorded names rw)
    (h : register limits names currentDepth rw use = .ok rw') : Recorded names rw' := by
  obtain ⟨-, heq⟩ | ⟨-, -, -, hfresh, hlookup, hkept, heq⟩ := register_eq_ok h
  · rw [heq]
    exact hrec
  · intro kind inst hmem
    rw [heq, mem_instancesOf_append] at hmem
    rcases hmem with hmem | ⟨rfl, rfl⟩
    · obtain ⟨hkind, hname, hknown⟩ := hrec kind inst hmem
      exact ⟨hkind, hname, hkept _ _ hknown⟩
    · exact ⟨rfl, hfresh, hlookup⟩

/-- The instances of a run are those that were there and those of its uses. -/
lemma exists_instance_register (h : register limits names currentDepth rw use = .ok rw')
    (kind : InstantiationKind) (key : GenericInstanceKey) :
    (∃ inst ∈ rw'.instancesOf kind, inst.key = key) ↔
      (∃ inst ∈ rw.instancesOf kind, inst.key = key) ∨ use.kind = kind ∧ use.key = key := by
  obtain ⟨hcontains, heq⟩ | ⟨-, -, -, -, -, -, heq⟩ := register_eq_ok h
  · rw [heq]
    refine ⟨Or.inl, ?_⟩
    rintro (hinst | ⟨rfl, rfl⟩)
    · exact hinst
    · obtain ⟨inst, hmem, hkey⟩ := List.any_eq_true.mp hcontains
      exact ⟨inst, hmem, of_decide_eq_true hkey⟩
  · rw [heq]
    constructor
    · rintro ⟨inst, hmem, hkey⟩
      rcases mem_instancesOf_append.mp hmem with hmem | ⟨rfl, rfl⟩
      · exact Or.inl ⟨inst, hmem, hkey⟩
      · exact Or.inr ⟨rfl, hkey⟩
    · rintro (⟨inst, hmem, hkey⟩ | ⟨rfl, rfl⟩)
      · exact ⟨inst, mem_instancesOf_append.mpr (Or.inl hmem), hkey⟩
      · exact ⟨_, mem_instancesOf_append.mpr (Or.inr ⟨rfl, rfl⟩), rfl⟩

lemma recorded_registerAll {uses : List (ℕ × Use)} (hrec : Recorded names rw)
    (h : registerAll limits names rw uses = .ok rw') : Recorded names rw' := by
  induction uses generalizing rw with
  | nil =>
    have heq : rw = rw' := Except.ok.inj h
    exact heq ▸ hrec
  | cons entry uses ih =>
    obtain ⟨currentDepth, use⟩ := entry
    obtain ⟨next, hnext, hrest⟩ := exceptBind_eq_ok.mp h
    exact ih (recorded_register hrec hnext) hrest

lemma exists_instance_registerAll
    {uses : List (ℕ × Use)} (h : registerAll limits names rw uses = .ok rw')
    (kind : InstantiationKind) (key : GenericInstanceKey) :
    (∃ inst ∈ rw'.instancesOf kind, inst.key = key) ↔
      (∃ inst ∈ rw.instancesOf kind, inst.key = key) ∨
        ∃ entry ∈ uses, entry.2.kind = kind ∧ entry.2.key = key := by
  induction uses generalizing rw with
  | nil =>
    have heq : rw = rw' := Except.ok.inj h
    rw [heq]
    simp
  | cons entry uses ih =>
    obtain ⟨currentDepth, use⟩ := entry
    obtain ⟨next, hnext, hrest⟩ := exceptBind_eq_ok.mp h
    rw [ih hrest, exists_instance_register hnext, or_assoc]
    simp only [List.mem_cons, exists_eq_or_imp]

/-! ## Names of different instances -/

/-- Different instances have different names, each an identifier and none declared by the
program. -/
structure LinkageSound (names : List String) (rw : Rewriter) : Prop where
  distinct : ∀ kind, ∀ inst ∈ rw.instancesOf kind, ∀ kind', ∀ inst' ∈ rw.instancesOf kind',
    inst.mangled = inst'.mangled → kind = kind' ∧ inst.key = inst'.key
  identifiers : ∀ kind, ∀ inst ∈ rw.instancesOf kind, isIdentifier inst.mangled = true
  undeclared : ∀ kind, ∀ inst ∈ rw.instancesOf kind, inst.mangled ∉ names

/-- No argument of the use puts a minus sign into the name: an integer is not negative, and a
type name that is not spelled out is a word. -/
def Use.IsPlain (use : Use) : Prop :=
  ∀ arg ∈ use.args, arg.isPlain (isEscaped use.decl.name.text use.args) = true

lemma Use.mangled_eq_of_key_eq {use' : Use} (h : use.key = use'.key) :
    use.mangled = use'.mangled := by
  have hname := congrArg GenericInstanceKey.genericName h
  have hargs := congrArg GenericInstanceKey.args h
  rw [Use.mangled, Use.mangled]
  exact congrArg₂ mangleGenericInstance hname hargs

/-- **Linkage names.** After a run of registrations the names are sound exactly if no argument
put a minus sign into a name and no key was used for two kinds of instances. -/
theorem linkageSound_iff_plainUses (limits : Limits) (decls : List Decl)
    (uses : List (ℕ × Use)) (rw : Rewriter)
    (hnames : ∀ entry ∈ uses, isIdentifier entry.2.decl.name.text = true)
    (hrun : registerAll limits (sourceNames decls) Rewriter.empty uses = .ok rw) :
    LinkageSound (sourceNames decls) rw ↔
      (∀ entry ∈ uses, entry.2.IsPlain) ∧
        ∀ entry ∈ uses, ∀ entry' ∈ uses, entry.2.key = entry'.2.key →
          entry.2.kind = entry'.2.kind := by
  have hrec := recorded_registerAll (recorded_empty (sourceNames decls)) hrun
  -- every instance comes from a use, and every use has an instance
  have hinstance : ∀ entry ∈ uses, ∃ inst ∈ rw.instancesOf entry.2.kind,
      inst.key = entry.2.key := by
    intro entry hentry
    exact (exists_instance_registerAll hrun _ _).mpr (Or.inr ⟨entry, hentry, rfl, rfl⟩)
  have huse : ∀ kind, ∀ inst ∈ rw.instancesOf kind,
      ∃ entry ∈ uses, entry.2.kind = kind ∧ entry.2.key = inst.key := by
    intro kind inst hmem
    rcases (exists_instance_registerAll hrun kind inst.key).mp ⟨inst, hmem, rfl⟩ with
      ⟨other, hother, -⟩ | h
    · cases kind <;> exact absurd hother List.not_mem_nil
    · exact h
  have hplain : ∀ entry ∈ uses, entry.2.IsPlain ↔ isIdentifier entry.2.mangled = true := by
    intro entry hentry
    rw [Use.mangled, isIdentifier_mangleGenericInstance (hnames entry hentry), List.all_eq_true]
    exact Iff.rfl
  constructor
  · intro hsound
    constructor
    · intro entry hentry
      obtain ⟨inst, hmem, hkey⟩ := hinstance entry hentry
      rw [hplain entry hentry, ← Use.mangled_eq_of_key_eq hkey]
      exact hsound.identifiers _ inst hmem
    · intro entry hentry entry' hentry' hsame
      obtain ⟨inst, hmem, hkey⟩ := hinstance entry hentry
      obtain ⟨inst', hmem', hkey'⟩ := hinstance entry' hentry'
      have hname : inst.mangled = inst'.mangled :=
        Use.mangled_eq_of_key_eq (hkey.trans (hsame.trans hkey'.symm))
      exact (hsound.distinct _ inst hmem _ inst' hmem' hname).1
  · rintro ⟨hargs, hkinds⟩
    refine ⟨?_, ?_, fun kind inst hmem => (hrec kind inst hmem).2.1⟩
    · intro kind inst hmem kind' inst' hmem' hname
      have hkey : inst.key = inst'.key := by
        have hlookup := (hrec kind inst hmem).2.2
        rw [hname, (hrec kind' inst' hmem').2.2] at hlookup
        exact (Option.some.inj hlookup).symm
      obtain ⟨entry, hentry, rfl, hentryKey⟩ := huse kind inst hmem
      obtain ⟨entry', hentry', rfl, hentryKey'⟩ := huse kind' inst' hmem'
      exact ⟨hkinds entry hentry entry' hentry'
        (hentryKey.trans (hkey.trans hentryKey'.symm)), hkey⟩
    · intro kind inst hmem
      obtain ⟨entry, hentry, -, hkey⟩ := huse kind inst hmem
      rw [← Use.mangled_eq_of_key_eq hkey]
      exact (hplain entry hentry).mp (hargs entry hentry)

/-! ## A negative argument -/

/-- `fn pick(comptime n: i32, comptime T: type, x: T) -> T`. -/
def pickDecl : FnDecl where
  name := { text := "pick" }
  params :=
    [{ name := { text := "n" }, ty := .name { text := "i32" }, isComptime := true },
      { name := { text := "T" }, ty := .name { text := "type" }, isComptime := true },
      { name := { text := "x" }, ty := .name { text := "T" } }]
  returnType := some (.name { text := "T" })
  body := some [.ret (some (.ident { text := "x" }))]

/-- The use `pick(value, u32, ..)`. -/
def pickUse (value : ℤ) : Use where
  decl := .function pickDecl
  args := [.int value, .typeName "u32"]
  subst := [("T", .typeName "u32"), ("n", .int value)]
  fileId := none
  attrs := []
  isPub := false
  boundFailed := false

def pickRegistered (value : ℤ) : Rewriter :=
  Rewriter.empty.append { toUse := pickUse value, depth := 1 }
    ((∅ : Table String GenericInstanceKey).insert (pickUse value).mangled (pickUse value).key)

theorem linkageSound_iff_plainUses_pick :
    LinkageSound (sourceNames []) (pickRegistered 5) ↔
      (∀ entry ∈ [(0, pickUse 5)], entry.2.IsPlain) ∧
        ∀ entry ∈ [(0, pickUse 5)], ∀ entry' ∈ [(0, pickUse 5)], entry.2.key = entry'.2.key →
          entry.2.kind = entry'.2.kind :=
  linkageSound_iff_plainUses {} [] [(0, pickUse 5)] (pickRegistered 5)
    (by decide) rfl

/-- `pick(-5, u32, 7)` is registered as `pick__-5__u32`. -/
theorem not_linkageSound_negative :
    ∃ rw, registerAll {} (sourceNames []) Rewriter.empty [(0, pickUse (-5))] = .ok rw ∧
      ¬ LinkageSound (sourceNames []) rw := by
  refine ⟨pickRegistered (-5), rfl, ?_⟩
  intro hsound
  have hname := hsound.identifiers .function { toUse := pickUse (-5), depth := 1 }
    (List.mem_singleton.mpr rfl)
  exact absurd hname (by decide)

end ModernC.Specialize
