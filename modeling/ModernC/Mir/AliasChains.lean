import ModernC.Framework.WhileLoops
import ModernC.Optionals.EmitterPaths

/-!
# Chains of aliases

A signature type is followed through aliases and qualifiers to a type that is neither.  The walks
are bounded by the number of aliases, but a qualifier takes a step of them as well.  The main
result, `resolved_iff_short`, holds of every table, also of a cyclic one.
-/

namespace ModernC.Mir.AliasChains

open Framework
open Optionals (TypeShape)
open Syntax (Mutability)

/-! ## Tables -/

structure SymbolIdentity where
  id : ℕ
  spelling : String
  isType : Bool

structure TypeAliasFact where
  symbolId : ℕ
  targetTypeId : ℕ

/-- The tables of a module. -/
structure Tables where
  signatureTypes : List TypeShape
  typeAliases : List TypeAliasFact
  symbolIdentities : List SymbolIdentity

/-- The number that stands for no type. -/
def invalidId : ℕ := 2 ^ 32 - 1

namespace Tables

variable (m : Tables)

def get (id : ℕ) : Option TypeShape := if id = invalidId then none else m.signatureTypes[id]?

def symbolIdForTypeSpelling (spelling : String) : Option ℕ :=
  (m.symbolIdentities.find? fun identity => identity.isType && identity.spelling == spelling).map
    SymbolIdentity.id

/-- The target of the first alias of a symbol. -/
def aliasTarget (symbolId : ℕ) : Option ℕ :=
  (m.typeAliases.find? fun fact => fact.symbolId == symbolId).map TypeAliasFact.targetTypeId

/-! ## The walks -/

def transparentPass (id : ℕ) : Option (ℕ ⊕ Option ℕ) :=
  match m.get id with
  | none => some (.inr none)
  | some (.name name) =>
    match m.symbolIdForTypeSpelling name with
    | none => some (.inr (some id))
    | some symbolId =>
      match m.aliasTarget symbolId with
      | none => some (.inr (some id))
      | some target => some (.inl target)
  | some (.qualified _ child) => some (.inl child)
  | some _ => some (.inr (some id))

def transparentSignatureTypeId (initialTypeId : ℕ) : Option ℕ :=
  (loopUntil m.transparentPass (m.typeAliases.length + 1) initialTypeId).getD none

def resolvesPass (expectedSymbolId id : ℕ) : Option (ℕ ⊕ Bool) :=
  match m.get id with
  | none => some (.inr false)
  | some (.name name) =>
    match m.symbolIdForTypeSpelling name with
    | none => some (.inr false)
    | some symbolId =>
      if symbolId = expectedSymbolId then some (.inr true)
      else
        match m.aliasTarget symbolId with
        | none => some (.inr false)
        | some target => some (.inl target)
  | some (.qualified _ child) => some (.inl child)
  | some _ => some (.inr false)

def signatureTypeResolvesToSymbol (initialTypeId expectedSymbolId : ℕ) : Bool :=
  (loopUntil (m.resolvesPass expectedSymbolId) (m.typeAliases.length + 1) initialTypeId).getD false

/-! ## Chains -/

/-- The symbol that a type names. -/
def symbolOf (id : ℕ) : Option ℕ :=
  match m.get id with
  | some (.name name) => m.symbolIdForTypeSpelling name
  | _ => none

/-- An alias links to its target and a qualified type to the type that it qualifies. -/
inductive Link : ℕ → ℕ → Prop
  | aliased {id symbolId target : ℕ} (hsymbol : m.symbolOf id = some symbolId)
      (htarget : m.aliasTarget symbolId = some target) : Link id target
  | qualified {id child : ℕ} {mutability : Mutability}
      (h : m.get id = some (.qualified mutability child)) : Link id child

/-- A type is behind another one, by a number of links. -/
inductive Behind : ℕ → ℕ → ℕ → Prop
  | here {id : ℕ} : Behind 0 id id
  | link {n id next last : ℕ} (h : m.Link id next) (hrest : Behind n next last) :
      Behind (n + 1) id last

/-- A type that is neither an alias nor qualified. -/
def IsEnd (id : ℕ) : Prop := (m.get id).isSome ∧ ∀ next, ¬m.Link id next

/-- A type on the chain, behind a number of links, names the symbol. -/
def Names (n id symbolId : ℕ) : Prop :=
  ∃ last, m.Behind n id last ∧ m.symbolOf last = some symbolId

/-- **The chain of a type is resolved:** its end is found, and the symbols that it names. -/
def Resolved (id : ℕ) : Prop :=
  (∀ last, m.transparentSignatureTypeId id = some last ↔
    (∃ n, m.Behind n id last) ∧ m.IsEnd last) ∧
  ∀ symbolId, m.signatureTypeResolvesToSymbol id symbolId = true ↔ ∃ n, m.Names n id symbolId

/-- The chain has no more links than the module has aliases, up to its end and up to each symbol
that it names. -/
def Short (id : ℕ) : Prop :=
  (∀ n last, m.Behind n id last → m.IsEnd last → n ≤ m.typeAliases.length) ∧
  ∀ symbolId, (∃ n, m.Names n id symbolId) →
    ∃ n ≤ m.typeAliases.length, m.Names n id symbolId

/-! ## One step -/

variable {m} {id next : ℕ}

lemma transparentPass_link (h : m.Link id next) : m.transparentPass id = some (.inl next) := by
  cases h with
  | aliased hsymbol htarget =>
    rw [symbolOf] at hsymbol
    split at hsymbol
    · next name hname =>
      simp only [transparentPass, hname, hsymbol, htarget]
    · exact nomatch hsymbol
  | qualified h => simp only [transparentPass, h]

/-- A step of the walk is a link, or there is none. -/
lemma transparentPass_cases (m : Tables) (id : ℕ) :
    (∃ next, m.Link id next) ∨ (m.IsEnd id ∧ m.transparentPass id = some (.inr (some id))) ∨
      (m.get id = none ∧ m.transparentPass id = some (.inr none)) := by
  by_cases hlink : ∃ next, m.Link id next
  · exact .inl hlink
  refine .inr ?_
  rcases hget : m.get id with _ | shape
  · exact .inr ⟨rfl, by simp only [transparentPass, hget]⟩
  · refine .inl ⟨⟨by rw [hget]; rfl, fun next h => hlink ⟨next, h⟩⟩, ?_⟩
    rw [transparentPass, hget]
    cases shape with
    | name name =>
      rcases hsymbol : m.symbolIdForTypeSpelling name with _ | symbolId
      · simp only [hsymbol]
      · rcases htarget : m.aliasTarget symbolId with _ | target
        · simp only [hsymbol, htarget]
        · have hof : m.symbolOf id = some symbolId := by
            simp only [symbolOf, hget, hsymbol]
          exact absurd ⟨target, .aliased hof htarget⟩ hlink
    | qualified mutability child => exact absurd ⟨child, .qualified hget⟩ hlink
    | _ => rfl

lemma Link.unique {next' : ℕ} (h : m.Link id next) (h' : m.Link id next') : next = next' :=
  Sum.inl.inj (Option.some.inj ((transparentPass_link h).symm.trans (transparentPass_link h')))

lemma IsEnd.get_ne_none (h : m.IsEnd id) : m.get id ≠ none := by
  intro hnone
  rw [IsEnd, hnone] at h
  exact Bool.false_ne_true h.1

variable {symbolId n last : ℕ}

lemma resolvesPass_named (h : m.symbolOf id = some symbolId) :
    m.resolvesPass symbolId id = some (.inr true) := by
  rw [symbolOf] at h
  split at h
  · next name hname => simp [resolvesPass, hname, h]
  · exact nomatch h

lemma resolvesPass_link (hother : m.symbolOf id ≠ some symbolId)
    (h : m.Link id next) : m.resolvesPass symbolId id = some (.inl next) := by
  cases h with
  | @aliased symbolId' _ hsymbol htarget =>
    have hne : symbolId' ≠ symbolId := fun heq => hother (heq ▸ hsymbol)
    rw [symbolOf] at hsymbol
    split at hsymbol
    · next name hname =>
      simp only [resolvesPass, hname, hsymbol, htarget, if_neg hne]
    · exact nomatch hsymbol
  | qualified h => simp only [resolvesPass, h]

lemma resolvesPass_end (hother : m.symbolOf id ≠ some symbolId)
    (hend : ∀ next, ¬m.Link id next) : m.resolvesPass symbolId id = some (.inr false) := by
  rw [resolvesPass]
  rcases hget : m.get id with _ | shape
  · rfl
  cases shape with
  | name name =>
    rcases hsymbol : m.symbolIdForTypeSpelling name with _ | symbolId'
    · simp only [hsymbol]
    · have hof : m.symbolOf id = some symbolId' := by simp only [symbolOf, hget, hsymbol]
      have hne : symbolId' ≠ symbolId := fun heq => hother (heq ▸ hof)
      rcases htarget : m.aliasTarget symbolId' with _ | target
      · simp only [hsymbol, if_neg hne, htarget]
      · exact absurd (.aliased hof htarget) (hend target)
  | qualified mutability child => exact absurd (.qualified hget) (hend child)
  | _ => rfl

/-! ## The walks along a chain -/

lemma stopsAfter_transparent :
    StopsAfter m.transparentPass n id (some last) ↔ m.Behind n id last ∧ m.IsEnd last := by
  constructor
  · intro h
    generalize hresult : some last = result at h
    induction h with
    | @stop id result h =>
      subst hresult
      rcases transparentPass_cases m id with ⟨next, hlink⟩ | ⟨hend, hpass⟩ | ⟨-, hpass⟩
      · exact nomatch h.symm.trans (transparentPass_link hlink)
      · cases h.symm.trans hpass
        exact ⟨.here, hend⟩
      · exact nomatch h.symm.trans hpass
    | @pass n id next result h hrest ih =>
      obtain ⟨hbehind, hend⟩ := ih hresult
      rcases transparentPass_cases m id with ⟨next', hlink⟩ | ⟨-, hpass⟩ | ⟨-, hpass⟩
      · cases h.symm.trans (transparentPass_link hlink)
        exact ⟨.link hlink hbehind, hend⟩
      · exact nomatch h.symm.trans hpass
      · exact nomatch h.symm.trans hpass
  · rintro ⟨hbehind, hend⟩
    induction hbehind with
    | @here id =>
      rcases transparentPass_cases m id with ⟨next, hlink⟩ | ⟨-, hpass⟩ | ⟨hnone, -⟩
      · exact absurd hlink (hend.2 next)
      · exact .stop hpass
      · exact absurd hnone hend.get_ne_none
    | link hlink _ ih => exact .pass (transparentPass_link hlink) (ih hend)

lemma transparentSignatureTypeId_eq_some :
    m.transparentSignatureTypeId id = some last ↔
      ∃ n ≤ m.typeAliases.length, m.Behind n id last ∧ m.IsEnd last := by
  have hget : m.transparentSignatureTypeId id = some last ↔
      loopUntil m.transparentPass (m.typeAliases.length + 1) id = some (some last) := by
    rw [transparentSignatureTypeId, Option.getD_eq_iff]
    simp
  rw [hget, loopUntil_eq_some_iff]
  simp only [Nat.lt_succ_iff, stopsAfter_transparent]

lemma stopsAfter_resolves (h : StopsAfter (m.resolvesPass symbolId) n id true) :
    m.Names n id symbolId := by
  generalize hresult : true = result at h
  induction h with
  | @stop id result h =>
    subst hresult
    by_cases hnamed : m.symbolOf id = some symbolId
    · exact ⟨id, .here, hnamed⟩
    · by_cases hlink : ∃ next, m.Link id next
      · obtain ⟨next, hlink⟩ := hlink
        exact nomatch h.symm.trans (resolvesPass_link hnamed hlink)
      · exact nomatch h.symm.trans (resolvesPass_end hnamed fun next hn => hlink ⟨next, hn⟩)
  | @pass n id next result h hrest ih =>
    obtain ⟨last, hbehind, hlast⟩ := ih hresult
    by_cases hnamed : m.symbolOf id = some symbolId
    · exact nomatch h.symm.trans (resolvesPass_named hnamed)
    · by_cases hlink : ∃ next, m.Link id next
      · obtain ⟨next', hlink⟩ := hlink
        cases h.symm.trans (resolvesPass_link hnamed hlink)
        exact ⟨last, .link hlink hbehind, hlast⟩
      · exact nomatch h.symm.trans (resolvesPass_end hnamed fun next hn => hlink ⟨next, hn⟩)

lemma Names.stopsAfter (h : m.Names n id symbolId) :
    ∃ k ≤ n, StopsAfter (m.resolvesPass symbolId) k id true := by
  obtain ⟨last, hbehind, hlast⟩ := h
  induction hbehind with
  | here => exact ⟨0, le_refl 0, .stop (resolvesPass_named hlast)⟩
  | @link n id next last hlink _ ih =>
    by_cases hnamed : m.symbolOf id = some symbolId
    · exact ⟨0, Nat.zero_le _, .stop (resolvesPass_named hnamed)⟩
    · obtain ⟨k, hk, hstops⟩ := ih hlast
      exact ⟨k + 1, Nat.succ_le_succ hk, .pass (resolvesPass_link hnamed hlink) hstops⟩

lemma signatureTypeResolvesToSymbol_eq_true :
    m.signatureTypeResolvesToSymbol id symbolId = true ↔
      ∃ n ≤ m.typeAliases.length, m.Names n id symbolId := by
  have hget : m.signatureTypeResolvesToSymbol id symbolId = true ↔
      loopUntil (m.resolvesPass symbolId) (m.typeAliases.length + 1) id = some true := by
    rw [signatureTypeResolvesToSymbol, Option.getD_eq_iff]
    simp
  rw [hget, loopUntil_eq_some_iff]
  constructor
  · rintro ⟨n, hn, hstops⟩
    exact ⟨n, Nat.le_of_lt_succ hn, stopsAfter_resolves hstops⟩
  · rintro ⟨n, hn, hnames⟩
    obtain ⟨k, hk, hstops⟩ := hnames.stopsAfter
    exact ⟨k, Nat.lt_succ_of_le (hk.trans hn), hstops⟩

/-- A chain has one end. -/
lemma Behind.links_eq {n' last' : ℕ} (h : m.Behind n id last) (hlast : m.IsEnd last)
    (h' : m.Behind n' id last') (hlast' : m.IsEnd last') : n = n' := by
  induction h generalizing n' with
  | here =>
    cases h' with
    | here => rfl
    | link hlink => exact absurd hlink (hlast.2 _)
  | link hlink _ ih =>
    cases h' with
    | here => exact absurd hlink (hlast'.2 _)
    | link hlink' hrest =>
      obtain rfl := hlink.unique hlink'
      exact congrArg (· + 1) (ih hlast hrest)

/-- **Aliases are resolved exactly where the chain is short:** where it has no more links than the
module has aliases. -/
theorem resolved_iff_short (m : Tables) (id : ℕ) : m.Resolved id ↔ m.Short id := by
  constructor
  · rintro ⟨hends, hnames⟩
    refine ⟨fun n last hbehind hlast => ?_, fun symbolId hnamed => ?_⟩
    · have hfound := (hends last).mpr ⟨⟨n, hbehind⟩, hlast⟩
      obtain ⟨k, hk, hbehind', hlast'⟩ := transparentSignatureTypeId_eq_some.mp hfound
      rwa [hbehind.links_eq hlast hbehind' hlast']
    · exact signatureTypeResolvesToSymbol_eq_true.mp ((hnames symbolId).mpr hnamed)
  · rintro ⟨hends, hnames⟩
    refine ⟨fun last => ?_, fun symbolId => ?_⟩
    · rw [transparentSignatureTypeId_eq_some]
      constructor
      · rintro ⟨n, -, hbehind, hlast⟩
        exact ⟨⟨n, hbehind⟩, hlast⟩
      · rintro ⟨⟨n, hbehind⟩, hlast⟩
        exact ⟨n, hends n last hbehind hlast, hbehind, hlast⟩
    · rw [signatureTypeResolvesToSymbol_eq_true]
      constructor
      · rintro ⟨n, -, hnamed⟩
        exact ⟨n, hnamed⟩
      · exact hnames symbolId

/-- `const u32` in a module without aliases. -/
def constTables : Tables where
  signatureTypes := [.name "u32", .qualified .constant 0]
  typeAliases := []
  symbolIdentities := []

/-- The type that is qualified is not found. -/
theorem not_resolved_const :
    constTables.transparentSignatureTypeId 1 = none ∧ constTables.Behind 1 1 0 ∧
      constTables.IsEnd 0 := by
  have hconst : constTables.get 1 = some (.qualified .constant 0) := rfl
  refine ⟨rfl, .link (.qualified hconst) .here, rfl, fun next h => ?_⟩
  exact nomatch transparentPass_link h

end Tables

end ModernC.Mir.AliasChains
