import ModernC.Comptime.Folder
import ModernC.Eval.HelperAgreement

/-!
# Ranges of comptime operators

The values that the operators of `eval.zig` give in the domain of an integer type, and in a type
whose range includes that of the domain.
-/

namespace ModernC.Comptime

open Eval (ComptimeValue ComptimeFold DomainWidth i128Min i128Max u128Max lowMask lowMask_eq
  and_lowMask bitCastToU128 bitCastToI128 complement128 comptimeUnsignedValue comptimeIntFromBits
  comptimeNonnegative applyDomain domainArith fitsI128)
open Framework

/-! ## Ranges -/

/-- The bits below the sign. -/
def IntType.magnitudeBits (info : IntType) : ℕ := if info.signed then info.bits - 1 else info.bits

/-- An integer is one of a type. -/
def IntType.Contains (info : IntType) (n : ℤ) : Prop :=
  (if info.signed then -2 ^ info.magnitudeBits else 0) ≤ n ∧ n < 2 ^ info.magnitudeBits

instance (info : IntType) (n : ℤ) : Decidable (info.Contains n) :=
  inferInstanceAs (Decidable (_ ∧ _))

/-- A value that is an integer is one of a type. -/
def InRange (info : IntType) : ComptimeValue → Prop
  | .int n => info.Contains n
  | .uint n => info.Contains n
  | _ => True

/-- A value in range whose representation is the one that folding chooses. -/
def Fits (info : IntType) : ComptimeValue → Prop
  | .int n => info.Contains n
  | .uint n => i128Max < n ∧ info.Contains n
  | _ => True

/-- A fold whose value is in range. -/
def FoldFits (info : IntType) : ComptimeFold → Prop
  | .value v => Fits info v
  | _ => True

/-- Every integer of the one type is one of the other. -/
def IntType.Within (inner outer : IntType) : Prop := ∀ n, inner.Contains n → outer.Contains n

variable {info inner outer : IntType} {v : ComptimeValue} {fold : ComptimeFold}

lemma Fits.inRange (h : Fits info v) : InRange info v := by
  cases v with
  | uint n => exact h.2
  | _ => exact h

lemma Fits.mono (h : Fits inner v) (hwithin : inner.Within outer) : Fits outer v := by
  cases v with
  | int n => exact hwithin n h
  | uint n => exact ⟨h.1, hwithin n h.2⟩
  | _ => trivial

lemma FoldFits.mono (h : FoldFits inner fold) (hwithin : inner.Within outer) :
    FoldFits outer fold := by
  cases fold with
  | value v => exact Fits.mono h hwithin
  | _ => trivial

lemma magnitudeBits_le (info : IntType) : info.magnitudeBits ≤ 128 := by
  have hbits := pos_of_supported info.supported
  unfold IntType.magnitudeBits
  split_ifs <;> omega

lemma contains_of_signed (h : info.signed = true) (n : ℤ) :
    info.Contains n ↔ -2 ^ (info.bits - 1) ≤ n ∧ n < 2 ^ (info.bits - 1) := by
  simp only [IntType.Contains, IntType.magnitudeBits, h, if_true]

lemma contains_of_unsigned (h : info.signed = false) (n : ℤ) :
    info.Contains n ↔ 0 ≤ n ∧ n < 2 ^ info.bits := by
  simp only [IntType.Contains, IntType.magnitudeBits, h, Bool.false_eq_true, if_false]

/-- A natural number is one of a type if it is less than the power of the magnitude. -/
lemma contains_natCast {n : ℕ} (info : IntType) :
    info.Contains n ↔ n < 2 ^ info.magnitudeBits := by
  have hneg : (if info.signed then -2 ^ info.magnitudeBits else 0 : ℤ) ≤ n := by
    have hpos : (0 : ℤ) < 2 ^ info.magnitudeBits := by positivity
    split_ifs <;> omega
  have hcast : ((n : ℤ) < 2 ^ info.magnitudeBits) ↔ n < 2 ^ info.magnitudeBits := by
    exact_mod_cast Iff.rfl
  simp only [IntType.Contains, hneg, true_and, hcast]

lemma signed_of_within (h : inner.Within outer) (hsigned : inner.signed = true) :
    outer.signed = true := by
  by_contra hunsigned
  have hmem : inner.Contains (-1) := by
    rw [contains_of_signed hsigned]
    have hpos : (0 : ℤ) < 2 ^ (inner.bits - 1) := by positivity
    omega
  have := (contains_of_unsigned (Bool.eq_false_iff.mpr hunsigned) _).mp (h _ hmem)
  omega

variable {n : ℤ} {k : ℕ}

lemma fitsI128_of_contains (hsigned : info.signed = true) (h : info.Contains n) :
    i128Min ≤ n ∧ n ≤ i128Max := by
  rw [contains_of_signed hsigned] at h
  have hbits := pos_of_supported info.supported
  have hpow : (2 : ℤ) ^ (info.bits - 1) ≤ 2 ^ 127 :=
    pow_le_pow_right₀ (by omega) (by omega)
  unfold i128Min i128Max
  omega

/-- A natural number in range has a value in range. -/
lemma fits_unsignedValue {n : ℕ} (h : info.Contains n) :
    Fits info (comptimeUnsignedValue n) := by
  unfold comptimeUnsignedValue
  split_ifs with hle
  · exact h
  · exact ⟨by omega, h⟩

/-! ## Integers from bits -/

/-- The low bits of a pattern. -/
lemma low_lt (raw bits : ℕ) : raw &&& lowMask bits < 2 ^ bits := by
  rw [and_lowMask]
  exact Nat.mod_lt _ (by positivity)

/-- The top bit of a pattern tells the halves of its range apart. -/
lemma topBit_iff {value bits : ℕ} (hpos : 0 < bits) (h : value < 2 ^ bits) :
    (value >>> (bits - 1)) &&& 1 = 1 ↔ 2 ^ (bits - 1) ≤ value := by
  obtain ⟨k, rfl⟩ : ∃ k, bits = k + 1 := ⟨bits - 1, by omega⟩
  rw [Nat.add_sub_cancel, Nat.and_one_is_mod, Nat.shiftRight_eq_div_pow]
  have hk : 0 < 2 ^ k := by positivity
  have hlt : value / 2 ^ k < 2 := by
    rw [Nat.div_lt_iff_lt_mul hk, mul_comm]
    rwa [pow_succ] at h
  have hge : 1 ≤ value / 2 ^ k ↔ 2 ^ k ≤ value := by
    rw [Nat.le_div_iff_mul_le hk, one_mul]
  rw [← hge]
  generalize value / 2 ^ k = quotient at hlt ⊢
  omega

/-- Setting the bits above a pattern adds them. -/
lemma or_complement_lowMask {value bits : ℕ} (hbits : bits ≤ 128) (h : value < 2 ^ bits) :
    value ||| complement128 (lowMask bits) = value + (2 ^ 128 - 2 ^ bits) := by
  have hsplit : 2 ^ 128 = 2 ^ bits * 2 ^ (128 - bits) := by
    rw [← pow_add]
    congr 1
    omega
  have hcomplement : complement128 (lowMask bits) = 2 ^ bits * (2 ^ (128 - bits) - 1) := by
    have hpos : 0 < 2 ^ bits := by positivity
    rw [complement128, lowMask_eq, u128Max, Nat.mul_sub, ← hsplit, mul_one]
    omega
  rw [hcomplement, Nat.or_comm, ← Nat.two_pow_add_eq_or_of_lt h, Nat.mul_sub, ← hsplit, mul_one]
  omega

variable {m : ℕ}

lemma bitCastToI128_mem (h : m < 2 ^ 128) :
    i128Min ≤ bitCastToI128 m ∧ bitCastToI128 m ≤ i128Max := by
  unfold bitCastToI128 i128Min i128Max
  split_ifs <;> omega

/-- **The integer with certain bits is one of its type**. -/
lemma comptimeIntFromBits_contains {raw : ℕ}
    (h : comptimeIntFromBits raw info.bits info.signed = some n) : info.Contains n := by
  obtain ⟨hlow, hhigh⟩ := pos_of_supported info.supported
  have hlt := low_lt raw info.bits
  have htop := topBit_iff (show 0 < info.bits by omega) hlt
  have hpow : 2 ^ info.bits = 2 * 2 ^ (info.bits - 1) := by
    rw [← pow_succ']
    congr 1
    omega
  have hor := or_complement_lowMask hhigh hlt
  unfold comptimeIntFromBits at h
  rw [if_neg (by simp only [Bool.or_eq_true, beq_iff_eq, decide_eq_true_eq]; omega)] at h
  generalize raw &&& lowMask info.bits = value at *
  cases hsigned : info.signed with
  | false =>
    rw [contains_of_unsigned hsigned]
    simp only [hsigned, Bool.false_and, Bool.false_eq_true, if_false] at h
    split_ifs at h
    cases h
    exact ⟨by omega, by exact_mod_cast hlt⟩
  | true =>
    have hcast : (2 : ℤ) ^ (info.bits - 1) = ((2 ^ (info.bits - 1) : ℕ) : ℤ) := by push_cast; rfl
    rw [contains_of_signed hsigned, hcast]
    simp only [hsigned, Bool.true_and, beq_iff_eq, htop] at h
    by_cases hneg : 2 ^ (info.bits - 1) ≤ value
    · simp only [hneg, if_true] at h
      by_cases hwide : info.bits = 128
      · simp only [hwide, if_true, Option.some.injEq] at h
        rw [hwide] at hlt hneg hpow ⊢
        subst h
        unfold bitCastToI128
        split_ifs <;> omega
      · have hnarrow := narrow_of_supported info.supported hwide
        have hle : 2 ^ info.bits ≤ 2 ^ 64 := Nat.pow_le_pow_right (by omega) hnarrow.2
        simp only [hwide, if_false, Option.some.injEq, hor] at h
        subst h
        unfold bitCastToI128
        rw [if_neg (by omega)]
        omega
    · simp only [hneg, if_false] at h
      split_ifs at h
      cases h
      omega

/-! ## Domain rules -/

/-- The integer type of a domain. -/
def intTypeOfDomain (d : KnownDomain) : IntType where
  bits := d.val.bits
  signed := d.val.signed
  supported := d.property

variable {d : KnownDomain}

lemma signedMin_contains (hsigned : info.signed = true) :
    info.Contains (-2 ^ (info.bits - 1)) := by
  rw [contains_of_signed hsigned]
  have hpos : (0 : ℤ) < 2 ^ (info.bits - 1) := by positivity
  omega

/-- The wrapping rule takes the low bits of a result. -/
lemma applyDomain_wrap (raw : ℤ) (hnarrow : info.bits < 128) :
    ∃ n, applyDomain ⟨.wrap, info.bits, info.signed⟩ raw = .value (.int n) ∧
      comptimeIntFromBits (bitCastToU128 raw) info.bits info.signed = some n := by
  obtain ⟨hlow, -⟩ := pos_of_supported info.supported
  have hlt := low_lt (bitCastToU128 raw) info.bits
  have hpow : 2 ^ info.bits ≤ 2 ^ 127 := Nat.pow_le_pow_right (by omega) (by omega)
  have hzero : ¬ (info.bits == 0 || decide (128 < info.bits)) = true := by
    simp only [Bool.or_eq_true, beq_iff_eq, decide_eq_true_eq]
    omega
  have hne : info.bits ≠ 128 := by omega
  unfold applyDomain comptimeIntFromBits
  simp only [if_neg hzero, if_neg (show ¬ 128 ≤ info.bits by omega), ← lowMask_eq, beq_iff_eq,
    hne, if_false]
  generalize bitCastToU128 raw &&& lowMask info.bits = value at *
  split_ifs with htop hle
  · exact ⟨_, rfl, rfl⟩
  · exact ⟨_, rfl, rfl⟩
  · unfold i128Max at hle
    omega

/-- **The rule of a domain keeps to its range**; at 128 bits there is nothing to keep. -/
lemma applyDomain_fits {raw : ℤ} (hwide : d.val.bits = 128 → (intTypeOfDomain d).Contains raw) :
    FoldFits (intTypeOfDomain d) (applyDomain d.val raw) := by
  obtain ⟨⟨domain, bits, signed⟩, hsupported⟩ := d
  have hwidth := pos_of_supported hsupported
  by_cases hbits : bits = 128
  · have hraw := hwide hbits
    subst hbits
    exact hraw
  · have hnarrow : bits < 128 := by
      simp only at hwidth
      omega
    set info : IntType := ⟨bits, signed, hsupported⟩ with hinfo
    show FoldFits info (applyDomain ⟨domain, bits, signed⟩ raw)
    -- wrapping reduces, a check refuses, saturation clamps to the ends of the range
    cases domain with
    | wrap =>
      obtain ⟨n, happly, hn⟩ := applyDomain_wrap raw (show info.bits < 128 from hnarrow)
      rw [show applyDomain ⟨.wrap, bits, signed⟩ raw = _ from happly]
      exact comptimeIntFromBits_contains hn
    | checked =>
      unfold applyDomain
      rw [if_neg (show ¬ 128 ≤ bits by omega)]
      cases signed with
      | true =>
        simp only [if_true]
        split_ifs with hout
        · trivial
        · refine (contains_of_signed (show info.signed = true from rfl) raw).mpr ?_
          show -2 ^ (bits - 1) ≤ raw ∧ raw < 2 ^ (bits - 1)
          omega
      | false =>
        simp only [Bool.false_eq_true, if_false]
        split_ifs with hout
        · trivial
        · refine (contains_of_unsigned (show info.signed = false from rfl) raw).mpr ?_
          show 0 ≤ raw ∧ raw < 2 ^ bits
          omega
    | sat =>
      unfold applyDomain
      rw [if_neg (show ¬ 128 ≤ bits by omega)]
      cases signed with
      | true =>
        have hpos : (0 : ℤ) < 2 ^ (bits - 1) := by positivity
        refine (contains_of_signed (show info.signed = true from rfl) _).mpr ?_
        show -2 ^ (bits - 1) ≤ _ ∧ _ < 2 ^ (bits - 1)
        simp only [if_true]
        split_ifs <;> omega
      | false =>
        have hpos : (0 : ℤ) < 2 ^ bits := by positivity
        refine (contains_of_unsigned (show info.signed = false from rfl) _).mpr ?_
        show 0 ≤ _ ∧ _ < 2 ^ bits
        simp only [Bool.false_eq_true, if_false]
        split_ifs <;> omega

/-! ## Unsigned operators -/

lemma nonnegative_lt {n : ℕ} (h : comptimeNonnegative v = some n) (hv : Fits info v) :
    n < 2 ^ info.magnitudeBits := by
  cases v with
  | int m =>
    simp only [comptimeNonnegative] at h
    split_ifs at h with hnonneg
    cases h
    rw [← contains_natCast, Int.toNat_of_nonneg hnonneg]
    exact hv
  | uint m =>
    cases h
    exact (contains_natCast info).mp hv.2
  | _ => cases h

lemma fits_of_lt {n : ℕ} (h : n < 2 ^ info.magnitudeBits) : Fits info (comptimeUnsignedValue n) :=
  fits_unsignedValue ((contains_natCast info).mpr h)

/-- The domain of an unsigned operator. -/
lemma magnitudeBits_domain (h : d.val.signed = false) :
    (intTypeOfDomain d).magnitudeBits = d.val.bits := by
  simp only [IntType.magnitudeBits, intTypeOfDomain, h, Bool.false_eq_true, if_false]

lemma fits_masked (h : d.val.signed = false) (n : ℕ) :
    Fits (intTypeOfDomain d) (comptimeUnsignedValue (n &&& lowMask d.val.bits)) :=
  fits_of_lt (by rw [magnitudeBits_domain h]; exact low_lt _ _)

lemma fits_mask (h : d.val.signed = false) :
    Fits (intTypeOfDomain d) (comptimeUnsignedValue (lowMask d.val.bits)) := by
  have hmasked := fits_masked h (lowMask d.val.bits)
  rwa [Nat.and_self] at hmasked

lemma fits_zero (info : IntType) : Fits info (.int 0) := by
  have hmem := (contains_natCast (n := 0) info).mpr (by positivity)
  exact hmem

lemma unsignedOverflowResult_fits (h : d.val.signed = false) (exact : ℕ) :
    FoldFits (intTypeOfDomain d)
      (Eval.unsignedOverflowResult d.val.domain (lowMask d.val.bits) exact) := by
  unfold Eval.unsignedOverflowResult
  simp only
  split_ifs
  · exact fits_masked h _
  · cases d.val.domain with
    | checked => trivial
    | wrap => exact fits_masked h _
    | sat => exact fits_mask h

/-- **An unsigned operator stays in the range of its operands** or in that of its domain. -/
lemma foldWideUnsignedBinary_fits {op : Eval.BinaryOp} {left right : ComptimeValue}
    (hsigned : d.val.signed = false) (hwithin : (intTypeOfDomain d).Within info)
    (hleft : Fits info left) (hright : Fits info right) :
    FoldFits info (Eval.foldWideUnsignedBinary op left right (some d.val)) := by
  unfold Eval.foldWideUnsignedBinary
  cases hl : comptimeNonnegative left with
  | none => trivial
  | some l =>
    cases hr : comptimeNonnegative right with
    | none => trivial
    | some r =>
      have hllt := nonnegative_lt hl hleft
      have hrlt := nonnegative_lt hr hright
      simp only [Option.map_some, Option.getD_some]
      cases op with
      | add | mul => exact FoldFits.mono (unsignedOverflowResult_fits hsigned _) hwithin
      | sub =>
        simp only
        split_ifs
        · exact Fits.mono (fits_masked hsigned _) hwithin
        · cases d.val.domain with
          | checked => trivial
          | wrap => exact Fits.mono (fits_masked hsigned _) hwithin
          | sat => exact fits_zero info
      | div =>
        simp only
        split_ifs
        · trivial
        · exact fits_of_lt (lt_of_le_of_lt (Nat.div_le_self l r) hllt)
      | mod =>
        simp only
        split_ifs
        · trivial
        · exact fits_of_lt (lt_of_le_of_lt (Nat.mod_le l r) hllt)
      | bitAnd => exact fits_of_lt (Nat.and_lt_two_pow l hrlt)
      | bitOr => exact fits_of_lt (Nat.or_lt_two_pow hllt hrlt)
      | bitXor => exact fits_of_lt (Nat.xor_lt_two_pow hllt hrlt)
      | shl =>
        simp only
        split_ifs
        · trivial
        · exact Fits.mono (fits_masked hsigned _) hwithin
        · cases d.val.domain with
          | checked => trivial
          | wrap => exact Fits.mono (fits_masked hsigned _) hwithin
          | sat => exact Fits.mono (fits_mask hsigned) hwithin
      | shr =>
        simp only
        split_ifs
        · trivial
        · rw [Nat.shiftRight_eq_div_pow]
          exact fits_of_lt (lt_of_le_of_lt (Nat.div_le_self l _) hllt)
      | _ => trivial

/-! ## Signed operators -/

/-- The bits from `k` on repeat the sign. -/
def SignExtended (k m : ℕ) : Prop :=
  m < 2 ^ 128 ∧ ∀ i, k ≤ i → i < 128 → m.testBit i = m.testBit 127

lemma testBit_of_lt {i : ℕ} (h : m < 2 ^ k) (hi : k ≤ i) : m.testBit i = false :=
  Nat.testBit_lt_two_pow (lt_of_lt_of_le h (Nat.pow_le_pow_right (by omega) hi))

/-- The complement of a pattern has the opposite bits. -/
lemma testBit_complement (h : m < 2 ^ 128) (i : ℕ) :
    (2 ^ 128 - (m + 1)).testBit i = (decide (i < 128) && !m.testBit i) :=
  Nat.testBit_two_pow_sub_succ h i

lemma signExtended_of_contains (hk : k ≤ 127) (hlow : -2 ^ k ≤ n)
    (hhigh : n < 2 ^ k) : SignExtended k (bitCastToU128 n) := by
  have hpow : 2 ^ k ≤ 2 ^ 127 := Nat.pow_le_pow_right (by omega) hk
  have hcast : (2 : ℤ) ^ k = ((2 ^ k : ℕ) : ℤ) := by push_cast; rfl
  rw [hcast] at hlow hhigh
  by_cases hneg : n < 0
  · have hx : (-n - 1).toNat < 2 ^ k := by omega
    have hlt : (-n - 1).toNat < 2 ^ 128 := by omega
    have heq : bitCastToU128 n = 2 ^ 128 - ((-n - 1).toNat + 1) := by
      unfold bitCastToU128
      omega
    rw [heq]
    refine ⟨by omega, fun i hi hi' => ?_⟩
    rw [testBit_complement hlt, testBit_complement hlt, testBit_of_lt hx hi, testBit_of_lt hx hk]
    simp [hi']
  · have heq : bitCastToU128 n = n.toNat := by
      unfold bitCastToU128
      omega
    have hx : n.toNat < 2 ^ k := by omega
    rw [heq]
    refine ⟨by omega, fun i hi _ => ?_⟩
    rw [testBit_of_lt hx hi, testBit_of_lt hx hk]

lemma contains_of_signExtended (hk : k ≤ 127) (h : SignExtended k m) :
    -2 ^ k ≤ bitCastToI128 m ∧ bitCastToI128 m < 2 ^ k := by
  obtain ⟨hlt, hbits⟩ := h
  have hpow : 2 ^ k ≤ 2 ^ 127 := Nat.pow_le_pow_right (by omega) hk
  have hcast : (2 : ℤ) ^ k = ((2 ^ k : ℕ) : ℤ) := by push_cast; rfl
  rw [hcast]
  unfold bitCastToI128
  cases htop : m.testBit 127 with
  | false =>
    have hsmall : m < 2 ^ k := by
      refine Nat.lt_pow_two_of_testBit m fun i hi => ?_
      by_cases hi' : i < 128
      · rw [hbits i hi hi', htop]
      · exact testBit_of_lt hlt (by omega)
    rw [if_pos (by omega)]
    omega
  | true =>
    have hsmall : 2 ^ 128 - (m + 1) < 2 ^ k := by
      refine Nat.lt_pow_two_of_testBit _ fun i hi => ?_
      rw [testBit_complement hlt]
      by_cases hi' : i < 128
      · rw [hbits i hi hi', htop, Bool.not_true, Bool.and_false]
      · rw [decide_eq_false hi', Bool.false_and]
    have hlarge : 2 ^ 127 ≤ m := by
      by_contra hsmall'
      rw [testBit_of_lt (k := 127) (by omega) le_rfl] at htop
      cases htop
    rw [if_neg (by omega)]
    omega

lemma SignExtended.and {n : ℕ} (hm : SignExtended k m) (hn : SignExtended k n) :
    SignExtended k (m &&& n) := by
  refine ⟨Nat.and_lt_two_pow m hn.1, fun i hi hi' => ?_⟩
  rw [Nat.testBit_and, Nat.testBit_and, hm.2 i hi hi', hn.2 i hi hi']

lemma SignExtended.or {n : ℕ} (hm : SignExtended k m) (hn : SignExtended k n) :
    SignExtended k (m ||| n) := by
  refine ⟨Nat.or_lt_two_pow hm.1 hn.1, fun i hi hi' => ?_⟩
  rw [Nat.testBit_or, Nat.testBit_or, hm.2 i hi hi', hn.2 i hi hi']

lemma SignExtended.xor {n : ℕ} (hm : SignExtended k m) (hn : SignExtended k n) :
    SignExtended k (m ^^^ n) := by
  refine ⟨Nat.xor_lt_two_pow hm.1 hn.1, fun i hi hi' => ?_⟩
  rw [Nat.testBit_xor, Nat.testBit_xor, hm.2 i hi hi', hn.2 i hi hi']

lemma signExtended_of_signed (hsigned : info.signed = true) (h : info.Contains n) :
    SignExtended (info.bits - 1) (bitCastToU128 n) := by
  have hbits := pos_of_supported info.supported
  obtain ⟨hlow, hhigh⟩ := (contains_of_signed hsigned n).mp h
  exact signExtended_of_contains (by omega) hlow hhigh

lemma contains_of_bits (hsigned : info.signed = true)
    (h : SignExtended (info.bits - 1) m) : info.Contains (bitCastToI128 m) := by
  have hbits := pos_of_supported info.supported
  rw [contains_of_signed hsigned]
  exact contains_of_signExtended (by omega) h

/-- The integers of 128 bits. -/
def i128Type : Eval.CIntType := { bits := 128, signed := true }

section Signed

variable (hsigned : d.val.signed = true)
include hsigned

/-- A domain of 128 bits is that of `i128`. -/
lemma contains_wide (hwide : d.val.bits = 128) (n : ℤ) :
    (intTypeOfDomain d).Contains n ↔ i128Min ≤ n ∧ n ≤ i128Max := by
  have hiff := contains_of_signed (show (intTypeOfDomain d).signed = true from hsigned) n
  rw [show (intTypeOfDomain d).bits = 128 from hwide] at hiff
  rw [hiff]
  unfold i128Min i128Max
  omega

lemma domainArith_fits {raw : ℤ} (hraw : d.val.bits = 128 → i128Min ≤ raw ∧ raw ≤ i128Max) :
    FoldFits (intTypeOfDomain d) (domainArith (some d.val) raw) :=
  applyDomain_fits fun hwide => (contains_wide hsigned hwide raw).mpr (hraw hwide)

lemma foldSignedExact_fits (exact : ℤ) (saturateToMax : Bool) :
    FoldFits (intTypeOfDomain d) (Eval.foldSignedExact (some d.val) exact saturateToMax) := by
  have hlt : bitCastToU128 exact < 2 ^ 128 := by
    unfold bitCastToU128
    omega
  have hwrapped := bitCastToI128_mem hlt
  unfold Eval.foldSignedExact
  simp only [Option.map_some, beq_iff_eq, Option.some.injEq]
  split_ifs with hwide hfits
  · unfold Eval.signedOverflowResult
    cases fitsI128 exact with
    | true => exact domainArith_fits hsigned fun _ => hwrapped
    | false =>
      simp only [Bool.not_false, Bool.not_true, Bool.false_eq_true, if_false]
      cases d.val.domain with
      | checked => trivial
      | wrap => exact (contains_wide hsigned hwide _).mpr hwrapped
      | sat =>
        refine (contains_wide hsigned hwide _).mpr ?_
        cases saturateToMax <;> decide
  · exact domainArith_fits hsigned fun _ => fitsI128_iff.mp hfits
  · trivial

/-- What saturates a shift is the least or the greatest integer of the domain. -/
lemma fits_shift_bounds :
    Fits (intTypeOfDomain d) (.int (-2 ^ (d.val.bits - 1))) ∧
      Fits (intTypeOfDomain d) (comptimeUnsignedValue (2 ^ (d.val.bits - 1) - 1)) := by
  refine ⟨signedMin_contains hsigned, fits_of_lt ?_⟩
  have hpos : 0 < 2 ^ (d.val.bits - 1) := by positivity
  simp only [IntType.magnitudeBits, intTypeOfDomain, hsigned, if_true]
  omega

lemma foldSignedShift_fits {op : Eval.BinaryOp} {value count : ℤ}
    (hvalue : i128Min ≤ value ∧ value ≤ i128Max) :
    FoldFits (intTypeOfDomain d) (Eval.foldSignedShift op value count (some d.val)) := by
  obtain ⟨hleast, hgreatest⟩ := fits_shift_bounds hsigned
  unfold Eval.foldSignedShift
  simp only [Option.map_some, Option.getD_some]
  split_ifs with hcount hshr hwrap hneg hsat hover
  · trivial
  · refine domainArith_fits hsigned fun _ => ?_
    exact Eval.contains_shiftRight (show i128Type.signed = true from rfl) hvalue count.toNat
  · split
    · rename_i n hn
      rw [← hsigned] at hn
      show (intTypeOfDomain d).Contains n
      exact comptimeIntFromBits_contains hn
    · trivial
  · exact hleast
  · trivial
  · cases d.val.domain with
    | checked => trivial
    | _ => exact hgreatest
  · refine fits_of_lt ?_
    have hpos : 0 < 2 ^ (d.val.bits - 1) := by positivity
    simp only [IntType.magnitudeBits, intTypeOfDomain, hsigned, if_true]
    omega

/-- **A signed operator stays in the range of its operands** or in that of its domain. -/
lemma foldSignedBinary_fits {op : Eval.BinaryOp} {l r : ℤ}
    (hwithin : (intTypeOfDomain d).Within info) (hl : info.Contains l) (hr : info.Contains r) :
    FoldFits info (Eval.foldSignedBinary op l r (some d.val)) := by
  have houter : info.signed = true := signed_of_within hwithin hsigned
  have hlwide := fitsI128_of_contains houter hl
  have hrwide := fitsI128_of_contains houter hr
  have hlbits := signExtended_of_signed houter hl
  have hrbits := signExtended_of_signed houter hr
  cases op with
  | add | sub | mul => exact FoldFits.mono (foldSignedExact_fits hsigned _ _) hwithin
  | div =>
    refine FoldFits.mono (show FoldFits (intTypeOfDomain d) _ from ?_) hwithin
    simp only [Eval.foldSignedBinary, Option.map_some, Bool.and_eq_true, beq_iff_eq,
      Option.some.injEq]
    split_ifs with hzero hmin hfits
    · trivial
    · have hwide := contains_wide hsigned hmin.1.1
      cases d.val.domain with
      | checked => trivial
      | wrap | sat => exact (hwide _).mpr (by decide)
    · exact domainArith_fits hsigned fun _ => fitsI128_iff.mp hfits
    · trivial
  | mod =>
    refine FoldFits.mono (show FoldFits (intTypeOfDomain d) _ from ?_) hwithin
    simp only [Eval.foldSignedBinary, Option.map_some, Bool.and_eq_true, beq_iff_eq]
    split_ifs with hzero hmin
    · trivial
    · cases d.val.domain with
      | checked => trivial
      | _ => exact fits_zero _
    · refine domainArith_fits hsigned fun _ => ?_
      exact Eval.contains_tmod (show i128Type.signed = true from rfl) hrwide hzero
  | bitAnd => exact contains_of_bits houter (hlbits.and hrbits)
  | bitOr => exact contains_of_bits houter (hlbits.or hrbits)
  | bitXor => exact contains_of_bits houter (hlbits.xor hrbits)
  | shl | shr => exact FoldFits.mono (foldSignedShift_fits hsigned hlwide) hwithin
  | _ => trivial

end Signed

end ModernC.Comptime
