import ModernC.Numbers.Math

/-!
# Sets of rights

The words of 32 bits that `std/rights` uses as sets of permissions.  An authority mints rights, and
other code can only narrow the rights that it is given.
-/

namespace ModernC.Numbers

open Framework

/-! ## The program -/

/-- The bits of an opaque struct: only the functions of its module make one. -/
structure Rights where
  bits : BitVec 32

namespace Rights

variable {b i : ℕ} {r root less child parent : Rights} {roots : Set Rights}

/-- `wrapping_shl_u32(1, b)` -/
def rightBit (b : ℕ) : Option (BitVec 32) := do
  let bit ← wrappingShlU32 1 b
  return .ofNat 32 bit

def none : Rights := ⟨0⟩

def attenuate (r keep : Rights) : Rights := ⟨r.bits &&& keep.bits⟩

def attenuateMask (r : Rights) (keepBits : BitVec 32) : Rights := ⟨r.bits &&& keepBits⟩

def without (r : Rights) (b : ℕ) : Option Rights :=
  if 32 ≤ b then some r
  else do
    let bit ← rightBit b
    return ⟨r.bits &&& ~~~bit⟩

def allows (r : Rights) (b : ℕ) : Option Bool :=
  if 32 ≤ b then some false
  else do
    let bit ← rightBit b
    return r.bits &&& bit != 0

def subsetOf (child parent : Rights) : Bool := child.bits &&& ~~~parent.bits == 0

/-- The rights that code without an authority comes by, once some were minted. -/
inductive Obtained (roots : Set Rights) : Rights → Prop
  | minted {r : Rights} : r ∈ roots → Obtained roots r
  | none : Obtained roots none
  | attenuate {r keep : Rights} :
      Obtained roots r → Obtained roots keep → Obtained roots (r.attenuate keep)
  | attenuateMask {r : Rights} (keepBits : BitVec 32) :
      Obtained roots r → Obtained roots (r.attenuateMask keepBits)
  | without {r less : Rights} {b : ℕ} :
      Obtained roots r → r.without b = some less → Obtained roots less

/-! ## Bits -/

lemma rightBit_eq (hb : b < 32) : rightBit b = some (.twoPow 32 b) := by
  have hlt : 2 ^ b < 2 ^ 32 := Nat.pow_lt_pow_right (by omega) hb
  have hshl : wrappingShlU32 1 b = some (2 ^ b) := by
    refine wrappingShlU32_eq_some.mpr ⟨by omega, by omega, ?_⟩
    rw [Nat.one_mul, Nat.mod_eq_of_lt hlt]
  rw [rightBit, hshl]
  refine congrArg some (BitVec.eq_of_toNat_eq ?_)
  rw [BitVec.toNat_twoPow]
  rfl

lemma allows_iff : r.allows b = some true ↔ r.bits.getLsbD b = true := by
  by_cases hb : 32 ≤ b
  · rw [allows, if_pos hb, BitVec.getLsbD_of_ge _ _ hb]
    simp
  · have hlt : b < 32 := Nat.lt_of_not_le hb
    have hne : BitVec.twoPow 32 b ≠ 0 := by
      intro hzero
      have hbit := congrArg (·.getLsbD b) hzero
      simp [hlt] at hbit
    rw [allows, if_neg hb, rightBit_eq hlt]
    simp only [Option.bind_eq_bind, Option.bind_some, BitVec.and_twoPow]
    rcases r.bits.getLsbD b with - | -
    · simp
    · simpa using hne

/-- `rights_subset_of` compares what two sets of rights allow. -/
lemma subsetOf_iff : child.subsetOf parent = true ↔
    ∀ i, child.bits.getLsbD i = true → parent.bits.getLsbD i = true := by
  rw [subsetOf, beq_iff_eq]
  constructor
  · intro hzero i hi
    have hbit := congrArg (·.getLsbD i) hzero
    simpa [hi, BitVec.lt_of_getLsbD hi] using hbit
  · intro h
    refine BitVec.eq_of_getLsbD_eq fun i _ => ?_
    by_cases hi : child.bits.getLsbD i = true
    · simp [h i hi]
    · simp [hi]

lemma eq_none_of_subsetOf (h : r.subsetOf none = true) : r = none := by
  refine congrArg Rights.mk (BitVec.eq_of_getLsbD_eq fun i _ => ?_)
  by_contra hi
  exact absurd (subsetOf_iff.mp h i (by simpa [none] using hi)) (by simp [none])

lemma subsetOf_attenuateMask (keepBits : BitVec 32) :
    (r.attenuateMask keepBits).subsetOf r = true :=
  subsetOf_iff.mpr fun i hi => by
    rw [attenuateMask, BitVec.getLsbD_and, Bool.and_eq_true_iff] at hi
    exact hi.1

lemma subsetOf_of_without (h : r.without b = some less) : less.subsetOf r = true := by
  by_cases hb : 32 ≤ b
  · rw [without, if_pos hb] at h
    obtain rfl := Option.some.inj h
    exact subsetOf_iff.mpr fun i hi => hi
  · rw [without, if_neg hb, rightBit_eq (Nat.lt_of_not_le hb)] at h
    obtain rfl := Option.some.inj h
    exact subsetOf_attenuateMask (~~~.twoPow 32 b)

/-! ## The law of attenuation -/

/-- A set of rights that is empty or within a minted one. -/
def Rooted (roots : Set Rights) (r : Rights) : Prop :=
  r = none ∨ ∃ root ∈ roots, r.subsetOf root = true

lemma Rooted.narrow (h : Rooted roots r) (hless : less.subsetOf r = true) :
    Rooted roots less := by
  rcases h with rfl | ⟨root, hmem, hsub⟩
  · exact .inl (eq_none_of_subsetOf hless)
  · exact .inr ⟨root, hmem, subsetOf_iff.mpr fun i hi =>
      subsetOf_iff.mp hsub i (subsetOf_iff.mp hless i hi)⟩

lemma Obtained.rooted (h : Obtained roots r) : Rooted roots r := by
  induction h with
  | minted hmem => exact .inr ⟨_, hmem, subsetOf_iff.mpr fun i hi => hi⟩
  | none => exact .inl rfl
  | attenuate _ _ ih => exact ih.narrow (subsetOf_attenuateMask _)
  | attenuateMask keepBits _ ih => exact ih.narrow (subsetOf_attenuateMask keepBits)
  | without _ hless ih => exact ih.narrow (subsetOf_of_without hless)

lemma attenuateMask_bits (h : r.subsetOf root = true) : root.attenuateMask r.bits = r := by
  refine congrArg Rights.mk (BitVec.eq_of_getLsbD_eq fun i _ => ?_)
  rw [BitVec.getLsbD_and, Bool.and_eq_right_iff_imp]
  exact subsetOf_iff.mp h i

/-- **Attenuation.**  Besides the empty set, code comes by precisely those rights all of which a
single minted set allows, which is what `rights_subset_of` decides. -/
theorem obtained_iff : (Obtained roots r ↔
      r = none ∨ ∃ root ∈ roots, ∀ b, r.allows b = some true → root.allows b = some true) ∧
    ∀ root, r.subsetOf root = true ↔
      ∀ b, r.allows b = some true → root.allows b = some true := by
  have hsub : ∀ root, r.subsetOf root = true ↔
      ∀ b, r.allows b = some true → root.allows b = some true := fun root => by
    simp only [allows_iff, subsetOf_iff]
  refine ⟨?_, hsub⟩
  simp only [← hsub]
  constructor
  · exact Obtained.rooted
  · rintro (rfl | ⟨root, hmem, hless⟩)
    · exact .none
    · exact attenuateMask_bits hless ▸ .attenuateMask r.bits (.minted hmem)

end Rights

end ModernC.Numbers
