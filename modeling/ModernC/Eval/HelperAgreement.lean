import Mathlib.Algebra.Order.Ring.Abs
import Mathlib.Data.Nat.Bitwise
import ModernC.Eval.RuntimeHelpers

/-!
# Folding against the runtime helpers

The folder and the C prelude are two implementations of one arithmetic.  Wherever the
prelude defines a helper they give the same value or both trap, with one exception: the
signed remainder of the least value by `-1` at a width below 128 bits, which the folder
computes to `0` and the helper rejects.
-/

namespace ModernC.Eval

/-! ## Operations, folded and run -/

/-- The folded representation of an integer. -/
def comptimeIntegerValue (n : ℤ) : ComptimeValue :=
  if n ≤ i128Max then .int n else .uint n.toNat

/-- An integer operator applied to operand values. -/
inductive IntegerOperation where
  | binary (op : BinaryOp) (l r : ℤ)
  | unary (op : UnaryOp) (a : ℤ)

namespace IntegerOperation

/-- The operands are values of the type. -/
def OperandsIn (ty : CIntType) : IntegerOperation → Prop
  | .binary _ l r => ty.Contains l ∧ ty.Contains r
  | .unary _ a => ty.Contains a

/-- What the folder makes of the operation at this type and domain. -/
def fold (floats : FloatArithmetic) (domain : ComptimeDomain) (ty : CIntType) :
    IntegerOperation → ComptimeFold
  | .binary op l r =>
    foldComptimeBinaryOperands floats op (comptimeIntegerValue l) (comptimeIntegerValue r)
      (some { domain := domain, bits := ty.bits, signed := ty.signed })
  | .unary op a =>
    foldComptimeUnaryOperand op (comptimeIntegerValue a)
      (some { domain := domain, bits := ty.bits, signed := ty.signed }) (some ty.bits)

/-- What the prelude's helper for the operation does, where there is one. -/
def run (domain : ComptimeDomain) (ty : CIntType) : IntegerOperation → Option HelperResult
  | .binary op l r => (runtimeBinaryHelper domain ty.signed op).map fun helper => helper ty l r
  | .unary op a => (runtimeUnaryHelper domain ty.signed op).map fun helper => helper ty a

/-- The signed remainder of the least value by `-1`, below 128 bits. -/
def NarrowRemainderOverflow (ty : CIntType) : IntegerOperation → Prop
  | .binary .mod l r => ty.signed = true ∧ ty.bits < 128 ∧ l = ty.min ∧ r = -1
  | _ => False

end IntegerOperation

/-- The folder answers as the helper does: the same value, or a trap for a trap. -/
def FoldAgrees (fold : ComptimeFold) : HelperResult → Prop
  | .returns n => fold = .value (comptimeIntegerValue n)
  | .traps _ => fold = .trap

/-! ## Representations -/

lemma comptimeUnsignedValue_eq (n : ℕ) : comptimeUnsignedValue n = comptimeIntegerValue n := by
  simp [comptimeUnsignedValue, comptimeIntegerValue]

lemma comptimeNonnegative_comptimeIntegerValue (n : ℕ) :
    comptimeNonnegative (comptimeIntegerValue n) = some n := by
  unfold comptimeIntegerValue
  split <;> simp [comptimeNonnegative]

lemma comptimeIntegerValue_of_le {n : ℤ} (h : n ≤ i128Max) : comptimeIntegerValue n = .int n := by
  rw [comptimeIntegerValue, if_pos h]

lemma lowMask_eq (bits : ℕ) : lowMask bits = 2 ^ bits - 1 := by
  unfold lowMask
  split <;> rename_i hbits
  · rw [beq_iff_eq.mp hbits]
    rfl
  · rfl

lemma and_lowMask (n bits : ℕ) : n &&& lowMask bits = n % 2 ^ bits := by
  rw [lowMask_eq, Nat.and_two_pow_sub_one_eq_mod]

/-- A pattern has a bit above the low `bits` exactly when it is too large for them. -/
lemma and_complement128_lowMask {bits n : ℕ} (h : bits ≤ 128) (hn : n < 2 ^ 128) :
    n &&& complement128 (lowMask bits) = 0 ↔ n < 2 ^ bits := by
  have hpow : 2 ^ bits ≤ 2 ^ 128 := Nat.pow_le_pow_right (by decide) h
  have hpos : 0 < 2 ^ bits := Nat.two_pow_pos bits
  have hcomplement : complement128 (lowMask bits) = 2 ^ 128 - (2 ^ bits - 1 + 1) := by
    rw [complement128, lowMask_eq, u128Max]
    omega
  have hbit : ∀ i, (complement128 (lowMask bits)).testBit i =
      (decide (i < 128) && !decide (i < bits)) := by
    intro i
    rw [hcomplement, Nat.testBit_two_pow_sub_succ (by omega), Nat.testBit_two_pow_sub_one]
  constructor
  · intro hzero
    by_contra hlarge
    obtain ⟨i, hi, htest⟩ := Nat.exists_ge_and_testBit_of_ge_two_pow (Nat.le_of_not_lt hlarge)
    have hlt : i < 128 := by
      by_contra hi128
      have hsmall : n < 2 ^ i :=
        Nat.lt_of_lt_of_le hn (Nat.pow_le_pow_right (by decide) (Nat.le_of_not_lt hi128))
      rw [Nat.testBit_lt_two_pow hsmall] at htest
      cases htest
    have hand : (n &&& complement128 (lowMask bits)).testBit i = true := by
      rw [Nat.testBit_and, htest, hbit]
      simp [hlt, Nat.not_lt.mpr hi]
    rw [hzero, Nat.zero_testBit] at hand
    cases hand
  · intro hsmall
    refine Nat.eq_of_testBit_eq fun i => ?_
    rw [Nat.testBit_and, hbit, Nat.zero_testBit]
    by_cases hi : i < bits
    · simp [hi]
    · have hi' : n < 2 ^ i :=
        Nat.lt_of_lt_of_le hsmall (Nat.pow_le_pow_right (by decide) (Nat.le_of_not_lt hi))
      rw [Nat.testBit_lt_two_pow hi', Bool.false_and]

/-- An `i128` survives the trip through its bits. -/
lemma bitCastToI128_bitCastToU128 {n : ℤ} (h : fitsI128 n = true) :
    bitCastToI128 (bitCastToU128 n) = n := by
  rw [fitsI128, Bool.and_eq_true, decide_eq_true_eq, decide_eq_true_eq] at h
  unfold i128Min i128Max at h
  unfold bitCastToI128 bitCastToU128
  have hnonneg : 0 ≤ n % 2 ^ 128 := Int.emod_nonneg _ (by decide)
  split <;> omega

/-! ## Unsigned operators -/

section Unsigned

variable {bits : ℕ} (floats : FloatArithmetic) (domain : ComptimeDomain)

lemma foldOperands_unsigned {op : BinaryOp} (heq : op ≠ .eq) (hne : op ≠ .ne) (a b : ℕ) :
    foldComptimeBinaryOperands floats op (comptimeIntegerValue a) (comptimeIntegerValue b)
      (some { domain := domain, bits := bits, signed := false }) =
    foldWideUnsignedBinary op (comptimeIntegerValue a) (comptimeIntegerValue b)
      (some { domain := domain, bits := bits, signed := false }) := by
  have hop : (op == .eq || op == .ne) = false := by simp [heq, hne]
  simp only [foldComptimeBinaryOperands, hop, comptimeIntegerValue]
  split_ifs <;> simp_all

/-- What an unsigned overflow of the exact result gives. -/
def unsignedOverflow (bits : ℕ) (domain : ComptimeDomain) (exact : ℕ) : ComptimeFold :=
  if exact < 2 ^ bits then .value (comptimeIntegerValue exact)
  else
    match domain with
    | .checked => .trap
    | .wrap => .value (comptimeIntegerValue (exact % 2 ^ bits : ℕ))
    | .sat => .value (comptimeIntegerValue (2 ^ bits - 1 : ℕ))

/-- The overflow rule of the unsigned operators, on the exact result. -/
lemma unsignedOverflowResult_eq (hbits : bits ≤ 128) (exact : ℕ) :
    unsignedOverflowResult domain (lowMask bits) exact = unsignedOverflow bits domain exact := by
  have hpow : 2 ^ bits ≤ 2 ^ 128 := Nat.pow_le_pow_right (by decide) hbits
  have hpos : 0 < 2 ^ bits := Nat.two_pow_pos bits
  have hmod : exact % 2 ^ 128 % 2 ^ bits = exact % 2 ^ bits :=
    Nat.mod_mod_of_dvd _ (Nat.pow_dvd_pow 2 hbits)
  have hoverflow : (!(decide (u128Max < exact) || decide (lowMask bits < exact % 2 ^ 128))) =
      decide (exact < 2 ^ bits) := by
    rw [lowMask_eq, u128Max]
    by_cases hsmall : exact < 2 ^ bits
    all_goals
      simp [hsmall]
      omega
  simp only [unsignedOverflowResult, unsignedOverflow, hoverflow, and_lowMask, hmod,
    decide_eq_true_eq, comptimeUnsignedValue_eq]
  split <;> rename_i hsmall
  · rw [Nat.mod_eq_of_lt hsmall]
  · cases domain <;> simp only [lowMask_eq]

/-- The overflow test of the unsigned shift. -/
lemma shlOverflow_eq (hbits : bits ≤ 128) (exact : ℕ) :
    (!(decide (u128Max < exact) ||
      exact % 2 ^ 128 &&& complement128 (lowMask bits) != 0)) = decide (exact < 2 ^ bits) := by
  have hpow : 2 ^ bits ≤ 2 ^ 128 := Nat.pow_le_pow_right (by decide) hbits
  have hhigh := and_complement128_lowMask hbits (Nat.mod_lt exact (show 0 < 2 ^ 128 by decide))
  by_cases hwide : exact < 2 ^ 128
  · have hfits : ¬ u128Max < exact := by
      rw [u128Max]
      omega
    rw [Nat.mod_eq_of_lt hwide] at hhigh ⊢
    by_cases hsmall : exact < 2 ^ bits
    · simp [hfits, hsmall, hhigh.mpr hsmall]
    · simp [hfits, hsmall, mt hhigh.mp hsmall]
  · have hfits : u128Max < exact := by
      rw [u128Max]
      omega
    have hsmall : ¬ exact < 2 ^ bits := by omega
    simp [hfits, hsmall]

/-! ## The helpers at an unsigned type -/

variable {ty : CIntType}

/-- The fold of an unsigned operator on in-range operands. -/
def unsignedFold (bits : ℕ) (domain : ComptimeDomain) (op : BinaryOp) (a b : ℕ) : ComptimeFold :=
  foldWideUnsignedBinary op (comptimeIntegerValue a) (comptimeIntegerValue b)
    (some { domain := domain, bits := bits, signed := false })

lemma unsignedFold_add (hbits : bits ≤ 128) (a b : ℕ) :
    unsignedFold bits domain .add a b = unsignedOverflow bits domain (a + b) := by
  simp only [unsignedFold, foldWideUnsignedBinary, comptimeNonnegative_comptimeIntegerValue,
    Option.map_some, Option.getD_some, unsignedOverflowResult_eq domain hbits]

lemma unsignedFold_mul (hbits : bits ≤ 128) (a b : ℕ) :
    unsignedFold bits domain .mul a b = unsignedOverflow bits domain (a * b) := by
  simp only [unsignedFold, foldWideUnsignedBinary, comptimeNonnegative_comptimeIntegerValue,
    Option.map_some, Option.getD_some, unsignedOverflowResult_eq domain hbits]

variable {a b : ℕ}

lemma unsignedFold_sub (ha : a < 2 ^ bits) (h : b ≤ a) :
    unsignedFold bits domain .sub a b = .value (comptimeIntegerValue (a - b : ℕ)) := by
  simp only [unsignedFold, foldWideUnsignedBinary, comptimeNonnegative_comptimeIntegerValue, h,
    if_true, Option.map_some, Option.getD_some, and_lowMask, comptimeUnsignedValue_eq]
  rw [Nat.mod_eq_of_lt (by omega)]

lemma unsignedFold_shl (hbits : bits ≤ 128) (a c : ℕ) (hc : c < bits) :
    unsignedFold bits domain .shl a c = unsignedOverflow bits domain (a * 2 ^ c) := by
  have hcount : ¬ bits ≤ c := by omega
  simp only [unsignedFold, foldWideUnsignedBinary, comptimeNonnegative_comptimeIntegerValue,
    Option.map_some, Option.getD_some, hcount, if_false, Nat.shiftLeft_eq, shlOverflow_eq hbits,
    and_lowMask, Nat.mod_mod_of_dvd _ (Nat.pow_dvd_pow 2 hbits), decide_eq_true_eq,
    comptimeUnsignedValue_eq, unsignedOverflow]
  split <;> rename_i hsmall
  · rw [Nat.mod_eq_of_lt hsmall]
  · cases domain <;> simp only [lowMask_eq]

variable (hunsigned : ty.signed = false)
include hunsigned

lemma contains_natCast (n : ℕ) : ty.Contains n ↔ n < 2 ^ ty.bits := by
  have hpos : 0 < 2 ^ ty.bits := Nat.two_pow_pos _
  have hcast : ((2 ^ ty.bits : ℕ) : ℤ) = 2 ^ ty.bits := by push_cast; rfl
  simp only [CIntType.Contains, CIntType.min, CIntType.max, hunsigned, Bool.false_eq_true, if_false]
  omega

lemma convert_natCast (n : ℕ) : ty.convert n = (n % 2 ^ ty.bits : ℕ) := by
  simp [CIntType.convert, hunsigned]

lemma max_eq_natCast : ty.max = (2 ^ ty.bits - 1 : ℕ) := by
  have hpos : 0 < 2 ^ ty.bits := Nat.two_pow_pos _
  have hcast : ((2 ^ ty.bits : ℕ) : ℤ) = 2 ^ ty.bits := by push_cast; rfl
  simp only [CIntType.max, hunsigned, Bool.false_eq_true, if_false]
  omega

lemma natCast_of_contains {n : ℤ} (h : ty.Contains n) : ∃ m : ℕ, n = m ∧ m < 2 ^ ty.bits := by
  have hnonneg : 0 ≤ n := by
    simpa [CIntType.Contains, CIntType.min, hunsigned] using h.1
  obtain ⟨m, rfl⟩ := Int.eq_ofNat_of_zero_le hnonneg
  exact ⟨m, rfl, (contains_natCast hunsigned m).mp h⟩

/-- An overflow-checked result at an unsigned type. -/
lemma unsignedOverflow_agrees (n : ℕ) :
    FoldAgrees (unsignedOverflow ty.bits .checked n) (returnUnlessOverflow ty n) := by
  unfold unsignedOverflow returnUnlessOverflow
  simp only [contains_natCast hunsigned]
  split <;> rfl

/-- A value that fits is what the helper converts it to. -/
lemma returns_agrees {n : ℕ} (h : n < 2 ^ ty.bits) :
    FoldAgrees (.value (comptimeIntegerValue n)) (.returns (ty.convert n)) := by
  rw [convert_natCast hunsigned, Nat.mod_eq_of_lt h]
  rfl

/-- The shift bound `a > MAXV >> b` of the C prelude is the overflow of the exact shift. -/
lemma convert_max_shiftRight_lt_iff (a c : ℕ) :
    ty.convert (ty.max >>> c) < a ↔ 2 ^ ty.bits ≤ a * 2 ^ c := by
  have hpos : 0 < 2 ^ ty.bits := Nat.two_pow_pos _
  have hshift : ty.max >>> c = ((2 ^ ty.bits - 1) / 2 ^ c : ℕ) := by
    rw [max_eq_natCast hunsigned, Int.shiftRight_eq_div_pow]
    push_cast
    rfl
  have hsmall : (2 ^ ty.bits - 1) / 2 ^ c < 2 ^ ty.bits :=
    Nat.lt_of_le_of_lt (Nat.div_le_self _ _) (by omega)
  rw [hshift, convert_natCast hunsigned, Nat.mod_eq_of_lt hsmall, Nat.cast_lt,
    Nat.div_lt_iff_lt_mul (Nat.two_pow_pos c)]
  omega

lemma mcCheckedSub_agrees (ha : a < 2 ^ ty.bits) :
    FoldAgrees (unsignedFold ty.bits .checked .sub a b) (mcCheckedSub ty a b) := by
  rw [mcCheckedSub, returnUnlessOverflow]
  by_cases h : b ≤ a
  · rw [unsignedFold_sub _ ha h, ← Nat.cast_sub h, if_pos ((contains_natCast hunsigned _).mpr (by omega))]
    rfl
  · have hnegative : ¬ ty.Contains ((a : ℤ) - b) := by
      intro hcontains
      obtain ⟨m, hm, -⟩ := natCast_of_contains hunsigned hcontains
      omega
    rw [if_neg hnegative]
    simp [unsignedFold, foldWideUnsignedBinary, comptimeNonnegative_comptimeIntegerValue, h, FoldAgrees]

lemma mcCheckedDivMod_agrees (ha : a < 2 ^ ty.bits) :
    FoldAgrees (unsignedFold ty.bits .checked .div a b) (mcCheckedDiv ty a b) ∧
      FoldAgrees (unsignedFold ty.bits .checked .mod a b) (mcCheckedMod ty a b) := by
  simp only [unsignedFold, foldWideUnsignedBinary, comptimeNonnegative_comptimeIntegerValue,
    mcCheckedDiv, mcCheckedMod, hunsigned, Bool.false_eq_true, false_and, if_false,
    Nat.cast_eq_zero, beq_iff_eq]
  by_cases hb : b = 0
  · simp [hb, FoldAgrees]
  · simp only [if_neg hb, comptimeUnsignedValue_eq, ← Int.ofNat_tdiv, ← Int.ofNat_tmod]
    exact ⟨returns_agrees hunsigned (Nat.lt_of_le_of_lt (Nat.div_le_self a b) ha),
      returns_agrees hunsigned (Nat.lt_of_le_of_lt (Nat.mod_le a b) ha)⟩

lemma mcCheckedShl_agrees (hbits : ty.bits ≤ 128) (a b : ℕ) :
    FoldAgrees (unsignedFold ty.bits .checked .shl a b) (mcCheckedShl ty a b) := by
  simp only [mcCheckedShl, hunsigned, Bool.false_eq_true, false_and, false_or, if_false,
    Nat.cast_le, Int.toNat_natCast, convert_max_shiftRight_lt_iff hunsigned]
  by_cases hb : ty.bits ≤ b
  · simp [unsignedFold, foldWideUnsignedBinary, comptimeNonnegative_comptimeIntegerValue, hb,
      FoldAgrees]
  · rw [if_neg hb, unsignedFold_shl _ hbits a b (by omega), unsignedOverflow]
    by_cases hsmall : a * 2 ^ b < 2 ^ ty.bits
    · rw [if_pos hsmall, if_neg (by omega)]
      exact_mod_cast returns_agrees hunsigned hsmall
    · rw [if_neg hsmall, if_pos (by omega)]
      rfl

/-- Both right shifts at an unsigned type. -/
lemma unsignedShr_agrees (ha : a < 2 ^ ty.bits) :
    FoldAgrees (unsignedFold ty.bits domain .shr a b)
      (if (ty.bits : ℤ) ≤ b then .traps .invalidShift
        else .returns (ty.convert ((a : ℤ) >>> (b : ℤ).toNat))) := by
  simp only [unsignedFold, foldWideUnsignedBinary, comptimeNonnegative_comptimeIntegerValue,
    Nat.cast_le, Option.map_some, Option.getD_some, Int.toNat_natCast, comptimeUnsignedValue_eq]
  split
  · rfl
  · have hshift : (a : ℤ) >>> b = (a >>> b : ℕ) := by
      rw [Int.shiftRight_eq_div_pow, Nat.shiftRight_eq_div_pow]
      push_cast
      rfl
    rw [hshift]
    exact returns_agrees hunsigned (Nat.lt_of_le_of_lt (Nat.shiftRight_le a b) ha)

lemma mcWrapShl_agrees (hbits : ty.bits ≤ 128) (a b : ℕ) :
    FoldAgrees (unsignedFold ty.bits .wrap .shl a b) (mcWrapShl ty a b) := by
  simp only [mcWrapShl, Nat.cast_le, Int.toNat_natCast]
  by_cases hb : ty.bits ≤ b
  · simp [unsignedFold, foldWideUnsignedBinary, comptimeNonnegative_comptimeIntegerValue, hb,
      FoldAgrees]
  · have hexact : (a : ℤ) * 2 ^ b = (a * 2 ^ b : ℕ) := by push_cast; rfl
    rw [if_neg hb, unsignedFold_shl _ hbits a b (by omega), unsignedOverflow, hexact,
      convert_natCast hunsigned]
    split <;> rename_i hsmall
    · rw [Nat.mod_eq_of_lt hsmall]
      rfl
    · rfl

/-- A saturated result. -/
lemma saturates_agrees {exact : ℕ} (h : 2 ^ ty.bits ≤ exact) :
    FoldAgrees (unsignedOverflow ty.bits .sat exact) (.returns (ty.convert ty.max)) := by
  have hpos : 0 < 2 ^ ty.bits := Nat.two_pow_pos _
  have hmax : 2 ^ ty.bits - 1 < 2 ^ ty.bits := by omega
  have hlarge : ¬ exact < 2 ^ ty.bits := by omega
  rw [max_eq_natCast hunsigned, convert_natCast hunsigned, Nat.mod_eq_of_lt hmax]
  simp only [unsignedOverflow, hlarge, if_false]
  rfl

lemma fits_agrees {exact : ℕ} (h : exact < 2 ^ ty.bits) :
    FoldAgrees (unsignedOverflow ty.bits domain exact) (.returns (ty.convert exact)) := by
  simp only [unsignedOverflow, h, if_true]
  exact returns_agrees hunsigned h

lemma mcSatAdd_agrees (hbits : ty.bits ≤ 128) (hb : b < 2 ^ ty.bits) :
    FoldAgrees (unsignedFold ty.bits .sat .add a b) (mcSatAdd ty a b) := by
  have hbound : ty.max - b = (2 ^ ty.bits - 1 - b : ℕ) := by
    rw [max_eq_natCast hunsigned]
    omega
  rw [unsignedFold_add _ hbits, mcSatAdd, hbound, convert_natCast hunsigned,
    Nat.mod_eq_of_lt (by omega)]
  simp only [Nat.cast_lt]
  split <;> rename_i h
  · exact saturates_agrees hunsigned (by omega)
  · exact_mod_cast fits_agrees .sat hunsigned (by omega)

lemma mcSatSub_agrees (ha : a < 2 ^ ty.bits) :
    FoldAgrees (unsignedFold ty.bits .sat .sub a b) (mcSatSub ty a b) := by
  simp only [mcSatSub, Nat.cast_lt]
  split <;> rename_i h
  · simp only [unsignedFold, foldWideUnsignedBinary, comptimeNonnegative_comptimeIntegerValue,
      Nat.not_le.mpr h, if_false, Option.map_some, Option.getD_some, FoldAgrees]
    rfl
  · rw [unsignedFold_sub _ ha (by omega), ← Nat.cast_sub (by omega)]
    exact returns_agrees hunsigned (by omega)

lemma mcSatMul_agrees (hbits : ty.bits ≤ 128) (a b : ℕ) :
    FoldAgrees (unsignedFold ty.bits .sat .mul a b) (mcSatMul ty a b) := by
  have hpos : 0 < 2 ^ ty.bits := Nat.two_pow_pos _
  have hbound : ty.max.tdiv b = ((2 ^ ty.bits - 1) / b : ℕ) := by
    rw [max_eq_natCast hunsigned, ← Int.ofNat_tdiv]
  have hsmall : (2 ^ ty.bits - 1) / b < 2 ^ ty.bits :=
    Nat.lt_of_le_of_lt (Nat.div_le_self _ _) (by omega)
  rw [unsignedFold_mul _ hbits, mcSatMul, hbound, convert_natCast hunsigned,
    Nat.mod_eq_of_lt hsmall]
  simp only [Nat.cast_lt]
  by_cases hb : b = 0
  · subst hb
    have hzero : FoldAgrees (unsignedOverflow ty.bits .sat 0) (.returns (ty.convert (0 : ℕ))) :=
      fits_agrees .sat hunsigned hpos
    simpa using hzero
  · have hiff : (2 ^ ty.bits - 1) / b < a ↔ 2 ^ ty.bits ≤ a * b := by
      rw [Nat.div_lt_iff_lt_mul (by omega)]
      omega
    split <;> rename_i h
    · exact saturates_agrees hunsigned (hiff.mp h.2)
    · have hfits : a * b < 2 ^ ty.bits := by
        by_contra hlarge
        exact h ⟨by exact_mod_cast hb, hiff.mpr (by omega)⟩
      exact_mod_cast fits_agrees .sat hunsigned hfits

/-- Every unsigned helper agrees with the fold of its operator. -/
lemma unsignedBinary_agrees (hbits : ty.bits ≤ 128) {op : BinaryOp}
    {helper : CIntType → ℤ → ℤ → HelperResult}
    (hhelper : runtimeBinaryHelper domain false op = some helper)
    (ha : a < 2 ^ ty.bits) (hb : b < 2 ^ ty.bits) :
    FoldAgrees (unsignedFold ty.bits domain op a b) (helper ty a b) := by
  unfold runtimeBinaryHelper at hhelper
  split at hhelper <;> cases hhelper
  · rw [unsignedFold_add _ hbits]
    exact_mod_cast unsignedOverflow_agrees hunsigned (a + b)
  · exact mcCheckedSub_agrees hunsigned ha
  · rw [unsignedFold_mul _ hbits]
    exact_mod_cast unsignedOverflow_agrees hunsigned (a * b)
  · exact (mcCheckedDivMod_agrees hunsigned ha).1
  · exact (mcCheckedDivMod_agrees hunsigned ha).2
  · exact mcCheckedShl_agrees hunsigned hbits a b
  · simpa [mcCheckedShr, hunsigned] using unsignedShr_agrees .checked hunsigned ha
  · exact mcWrapShl_agrees hunsigned hbits a b
  · exact unsignedShr_agrees .wrap hunsigned ha
  · exact mcSatAdd_agrees hunsigned hbits hb
  · exact mcSatSub_agrees hunsigned ha
  · exact mcSatMul_agrees hunsigned hbits a b

end Unsigned

/-! ## The helpers at a signed type -/

section Signed

/-- The domain and width of checked arithmetic at a type. -/
def CIntType.checked (ty : CIntType) : DomainWidth :=
  { domain := .checked, bits := ty.bits, signed := ty.signed }

lemma CIntType.bits_eq_128_or_le (ty : CIntType) :
    ty.bits = 128 ∨ 8 ≤ ty.bits ∧ ty.bits ≤ 64 := by
  have h := ty.supported
  simp only [integerWidths, List.mem_cons, List.not_mem_nil, or_false] at h
  omega

lemma CIntType.bits_le (ty : CIntType) : ty.bits ≤ 128 := by
  rcases ty.bits_eq_128_or_le with h | h <;> omega

/-- The bound of a signed type is that of `i128` at most. -/
lemma signedBound_le (ty : CIntType) : (2 : ℤ) ^ (ty.bits - 1) ≤ 2 ^ 127 := by
  have h := ty.bits_le
  exact pow_le_pow_right₀ (by decide) (by omega)

lemma CIntType.signedBound_le_narrow (ty : CIntType) (h : ty.bits ≠ 128) :
    (2 : ℤ) ^ (ty.bits - 1) ≤ 2 ^ 63 := by
  rcases ty.bits_eq_128_or_le with h' | h'
  · exact absurd h' h
  · exact pow_le_pow_right₀ (by decide) (by omega)

lemma fitsI128_iff (n : ℤ) : fitsI128 n = true ↔ -2 ^ 127 ≤ n ∧ n ≤ 2 ^ 127 - 1 := by
  rw [fitsI128, Bool.and_eq_true, decide_eq_true_eq, decide_eq_true_eq]
  unfold i128Min i128Max
  rfl

variable {ty : CIntType} (hsigned : ty.signed = true)
include hsigned

lemma contains_signed (n : ℤ) :
    ty.Contains n ↔ -2 ^ (ty.bits - 1) ≤ n ∧ n ≤ 2 ^ (ty.bits - 1) - 1 := by
  simp only [CIntType.Contains, CIntType.min, CIntType.max, hsigned, if_true]

variable {n l r : ℤ}

lemma convert_of_contains (h : ty.Contains n) : ty.convert n = n := by
  rw [contains_signed hsigned] at h
  have hdouble : (2 : ℤ) ^ ty.bits = 2 * 2 ^ (ty.bits - 1) := by
    rw [← pow_succ', Nat.sub_add_cancel]
    rcases ty.bits_eq_128_or_le with h | h <;> omega
  simp only [CIntType.convert, hsigned, if_true]
  rw [Int.emod_eq_of_lt (by omega) (by omega)]
  omega

lemma fitsI128_of_contains (h : ty.Contains n) : fitsI128 n = true := by
  rw [contains_signed hsigned] at h
  have hbound := signedBound_le ty
  rw [fitsI128_iff]
  omega

lemma comptimeIntegerValue_signed (h : ty.Contains n) :
    comptimeIntegerValue n = .int n := by
  have hfits := (fitsI128_iff n).mp (fitsI128_of_contains hsigned h)
  exact comptimeIntegerValue_of_le hfits.2

lemma foldOperands_signed (floats : FloatArithmetic) {op : BinaryOp} (heq : op ≠ .eq)
    (hne : op ≠ .ne) (hl : ty.Contains l) (hr : ty.Contains r) :
    foldComptimeBinaryOperands floats op (comptimeIntegerValue l) (comptimeIntegerValue r)
      (some ty.checked) = foldSignedBinary op l r (some ty.checked) := by
  have hop : (op == .eq || op == .ne) = false := by simp [heq, hne]
  rw [comptimeIntegerValue_signed hsigned hl, comptimeIntegerValue_signed hsigned hr]
  simp [foldComptimeBinaryOperands, hop, CIntType.checked, hsigned]

/-- The domain rule of a checked signed result. -/
lemma domainArith_checked (hwide : ty.bits = 128 → ty.Contains n) :
    domainArith (some ty.checked) n = if ty.Contains n then .value (.int n) else .trap := by
  simp only [domainArith, applyDomain, CIntType.checked, hsigned, if_true]
  rcases ty.bits_eq_128_or_le with h | h
  · rw [if_pos (by omega), if_pos (hwide h)]
  · rw [if_neg (by omega)]
    simp only [contains_signed hsigned]
    by_cases hin : -2 ^ (ty.bits - 1) ≤ n ∧ n ≤ 2 ^ (ty.bits - 1) - 1
    · rw [if_pos hin, if_neg (by omega)]
    · rw [if_neg hin, if_pos (by omega)]

/-- A value in range agrees with the helper that returns it. -/
lemma returns_signed_agrees (h : ty.Contains n) :
    FoldAgrees (.value (.int n)) (.returns (ty.convert n)) := by
  rw [convert_of_contains hsigned h, FoldAgrees, comptimeIntegerValue_signed hsigned h]

/-- A checked result in range agrees with the helper that returns it. -/
lemma domainArith_agrees (h : ty.Contains n) :
    FoldAgrees (domainArith (some ty.checked) n) (.returns (ty.convert n)) := by
  rw [domainArith_checked hsigned fun _ => h, if_pos h]
  exact returns_signed_agrees hsigned h

/-- The exact result of a signed operation against the overflow builtin. -/
lemma foldSignedExact_agrees {exact : ℤ} (hfits : ty.bits ≠ 128 → fitsI128 exact = true)
    (saturateToMax : Bool) :
    FoldAgrees (foldSignedExact (some ty.checked) exact saturateToMax)
      (returnUnlessOverflow ty exact) := by
  rw [foldSignedExact, returnUnlessOverflow]
  by_cases h : ty.bits = 128
  · have hcontains : ty.Contains exact ↔ fitsI128 exact = true := by
      rw [contains_signed hsigned, h, fitsI128_iff]
    have hwidth : (Option.map DomainWidth.bits (some ty.checked) == some 128) = true := by
      simp [CIntType.checked, h]
    rw [if_pos hwidth, signedOverflowResult]
    by_cases hin : ty.Contains exact
    · have hno := hcontains.mp hin
      rw [if_pos hin, hno, bitCastToI128_bitCastToU128 hno]
      simp only [Bool.not_true, Bool.not_false, if_true]
      rw [domainArith_checked hsigned fun _ => hin, if_pos hin, FoldAgrees,
        comptimeIntegerValue_signed hsigned hin]
    · have hover : fitsI128 exact = false := by
        rw [← Bool.not_eq_true, ← hcontains]
        exact hin
      rw [if_neg hin, hover]
      rfl
  · have hwidth : ¬(Option.map DomainWidth.bits (some ty.checked) == some 128) = true := by
      simpa [CIntType.checked] using h
    rw [if_neg hwidth, if_pos (hfits h), domainArith_checked hsigned fun h' => absurd h' h]
    split <;> rename_i hin
    · exact congrArg _ (comptimeIntegerValue_signed hsigned hin).symm
    · rfl

lemma CIntType.min_signed : ty.min = -2 ^ (ty.bits - 1) := by
  simp only [CIntType.min, hsigned, if_true]

lemma signedMin_bits : signedMin ty.bits = ty.min := by
  rw [CIntType.min_signed hsigned, signedMin]
  by_cases h : ty.bits = 128
  · rw [h]
    rfl
  · rw [if_neg (by simpa using h)]

/-- A sum or difference of narrow operands fits an `i128`. -/
lemma fitsI128_of_le_add (hl : ty.Contains l) (hr : ty.Contains r)
    (h : |n| ≤ |l| + |r|) (hbits : ty.bits ≠ 128) : fitsI128 n = true := by
  rw [contains_signed hsigned] at hl hr
  have hbound := ty.signedBound_le_narrow hbits
  have hleft : |l| ≤ 2 ^ 63 := abs_le.mpr ⟨by omega, by omega⟩
  have hright : |r| ≤ 2 ^ 63 := abs_le.mpr ⟨by omega, by omega⟩
  have hn := abs_le.mp (h.trans (add_le_add hleft hright))
  rw [fitsI128_iff]
  omega

/-- A product of narrow operands fits an `i128`. -/
lemma fitsI128_mul (hl : ty.Contains l) (hr : ty.Contains r)
    (hbits : ty.bits ≠ 128) : fitsI128 (l * r) = true := by
  rw [contains_signed hsigned] at hl hr
  have hbound := ty.signedBound_le_narrow hbits
  have hleft : |l| ≤ 2 ^ 63 := abs_le.mpr ⟨by omega, by omega⟩
  have hright : |r| ≤ 2 ^ 63 := abs_le.mpr ⟨by omega, by omega⟩
  have hprod : |l * r| ≤ 2 ^ 63 * 2 ^ 63 := by
    rw [abs_mul]
    exact mul_le_mul hleft hright (abs_nonneg r) (by decide)
  have hn := abs_le.mp hprod
  rw [fitsI128_iff]
  omega

/-- Only the least value divided by `-1` leaves the type. -/
lemma contains_tdiv (hl : ty.Contains l) (h : ¬(l = ty.min ∧ r = -1)) :
    ty.Contains (l.tdiv r) := by
  rw [CIntType.min_signed hsigned] at h
  rw [contains_signed hsigned] at hl ⊢
  have habs : (l.tdiv r).natAbs = l.natAbs / r.natAbs := Int.natAbs_tdiv l r
  by_cases hone : r.natAbs ≤ 1
  · have hr : r = 0 ∨ r = 1 ∨ r = -1 := by omega
    rcases hr with rfl | rfl | rfl
    · rw [Int.tdiv_zero]
      omega
    · rw [Int.tdiv_one]
      exact hl
    · rw [Int.tdiv_neg, Int.tdiv_one]
      have hne : l ≠ -2 ^ (ty.bits - 1) := fun hmin => h ⟨hmin, rfl⟩
      omega
  · have hhalf : l.natAbs / r.natAbs ≤ l.natAbs / 2 := Nat.div_le_div_left (by omega) (by decide)
    omega

/-- A remainder stays in the type. -/
lemma contains_tmod (hr : ty.Contains r) (hzero : r ≠ 0) :
    ty.Contains (l.tmod r) := by
  rw [contains_signed hsigned] at hr ⊢
  have habs : (l.tmod r).natAbs = l.natAbs % r.natAbs := Int.natAbs_tmod l r
  have hlt : l.natAbs % r.natAbs < r.natAbs := Nat.mod_lt _ (by omega)
  omega

/-- An arithmetic right shift stays in the type. -/
lemma contains_shiftRight (h : ty.Contains n) (c : ℕ) : ty.Contains (n >>> c) := by
  rw [contains_signed hsigned] at h ⊢
  have hpos : (0 : ℤ) < 2 ^ c := pow_pos (by decide) c
  have hbound : (0 : ℤ) < 2 ^ (ty.bits - 1) := pow_pos (by decide) _
  have hgrow : (2 : ℤ) ^ (ty.bits - 1) ≤ 2 ^ (ty.bits - 1) * 2 ^ c :=
    le_mul_of_one_le_right hbound.le hpos
  rw [Int.shiftRight_eq_div_pow]
  push_cast
  constructor
  · rw [Int.le_ediv_iff_mul_le hpos, neg_mul]
    omega
  · have hlt : n / 2 ^ c < 2 ^ (ty.bits - 1) := by
      rw [Int.ediv_lt_iff_lt_mul hpos]
      omega
    omega

lemma signedDiv_agrees (hl : ty.Contains l) :
    FoldAgrees (foldSignedBinary .div l r (some ty.checked)) (mcCheckedDiv ty l r) := by
  simp only [foldSignedBinary, mcCheckedDiv, hsigned, true_and, beq_iff_eq]
  by_cases hzero : r = 0
  · rw [if_pos hzero, if_pos hzero]
    rfl
  rw [if_neg hzero, if_neg hzero]
  by_cases hmin : l = ty.min ∧ r = -1
  · rw [if_pos hmin]
    have hquotient : l.tdiv r = 2 ^ (ty.bits - 1) := by
      rw [hmin.1, hmin.2, CIntType.min_signed hsigned, Int.tdiv_neg, Int.tdiv_one, neg_neg]
    have hout : ¬ ty.Contains (l.tdiv r) := by
      rw [contains_signed hsigned, hquotient]
      omega
    by_cases hbits : ty.bits = 128
    · have hleast : l = i128Min := by
        rw [hmin.1, CIntType.min_signed hsigned, hbits]
        rfl
      rw [if_pos (by simp [CIntType.checked, hbits, hleast, hmin.2])]
      rfl
    · have hfits : fitsI128 (l.tdiv r) = true := by
        have hbound := ty.signedBound_le_narrow hbits
        have hpos : (0 : ℤ) < 2 ^ (ty.bits - 1) := pow_pos (by decide) _
        rw [fitsI128_iff, hquotient]
        omega
      have hnarrow : ¬((Option.map DomainWidth.bits (some ty.checked) == some 128 &&
          l == i128Min && r == -1) = true) := by
        simp [CIntType.checked, hbits]
      rw [if_neg hnarrow, if_pos hfits, domainArith_checked hsigned fun h => absurd h hbits,
        if_neg hout]
      rfl
  · have hin := contains_tdiv hsigned hl hmin
    have hnotLeast : ¬((Option.map DomainWidth.bits (some ty.checked) == some 128 &&
        l == i128Min && r == -1) = true) := by
      intro h
      simp only [CIntType.checked, Option.map_some, Bool.and_eq_true, beq_iff_eq,
        Option.some.injEq] at h
      refine hmin ⟨?_, h.2⟩
      rw [CIntType.min_signed hsigned, h.1.1, h.1.2]
      rfl
    rw [if_neg hmin, if_neg hnotLeast, if_pos (fitsI128_of_contains hsigned hin)]
    exact domainArith_agrees hsigned hin

/-- The folder computes the remainder of the least value by `-1` below 128 bits; the helper
traps on it at every width. -/
lemma signedMod_agrees_iff (hl : ty.Contains l) (hr : ty.Contains r) :
    FoldAgrees (foldSignedBinary .mod l r (some ty.checked)) (mcCheckedMod ty l r) ↔
      ¬(ty.bits < 128 ∧ l = ty.min ∧ r = -1) := by
  simp only [foldSignedBinary, mcCheckedMod, hsigned, true_and, beq_iff_eq]
  by_cases hzero : r = 0
  · rw [if_pos hzero, if_pos hzero]
    subst hzero
    simp [FoldAgrees]
  rw [if_neg hzero, if_neg hzero]
  have hin := contains_tmod hsigned (l := l) hr hzero
  by_cases hmin : l = ty.min ∧ r = -1
  · rw [if_pos hmin]
    rcases ty.bits_eq_128_or_le with hbits | hbits
    · have hleast : l = i128Min := by
        rw [hmin.1, CIntType.min_signed hsigned, hbits]
        rfl
      rw [if_pos (by simp [hleast, hmin.2])]
      simp [CIntType.checked, FoldAgrees, hbits]
    · have hnotLeast : l ≠ i128Min := by
        have hbound := ty.signedBound_le_narrow (by omega)
        rw [hmin.1, CIntType.min_signed hsigned]
        unfold i128Min
        omega
      rw [if_neg (by simp [hnotLeast]), domainArith_checked hsigned fun _ => hin, if_pos hin]
      simp only [FoldAgrees, hmin, and_self, and_true, reduceCtorEq, false_iff, not_not]
      omega
  · have hnotLeast : ¬((l == i128Min && r == -1) = true) := by
      intro h
      simp only [Bool.and_eq_true, beq_iff_eq] at h
      refine hmin ⟨?_, h.2⟩
      rw [contains_signed hsigned, h.1] at hl
      have hbound := signedBound_le ty
      rw [CIntType.min_signed hsigned, h.1]
      unfold i128Min at hl ⊢
      omega
    rw [if_neg hmin, if_neg hnotLeast]
    have hnarrow : ¬(ty.bits < 128 ∧ l = ty.min ∧ r = -1) := fun h => hmin h.2
    simpa only [hnarrow, not_false_eq_true, iff_true] using domainArith_agrees hsigned hin

lemma signedShl_agrees (hl : ty.Contains l) :
    FoldAgrees (foldSignedBinary .shl l r (some ty.checked)) (mcCheckedShl ty l r) := by
  have hbits : ty.checked.bits = ty.bits := rfl
  simp only [foldSignedBinary, foldSignedShift, mcCheckedShl, hsigned, true_and,
    Option.map_some, Option.getD_some, hbits]
  by_cases hcount : r < 0 ∨ (ty.bits : ℤ) ≤ r
  · rw [if_pos hcount, if_pos hcount]
    rfl
  rw [if_neg hcount, if_neg hcount]
  by_cases hnegative : l < 0
  · rw [if_pos hnegative]
    simp [CIntType.checked, hnegative, FoldAgrees]
  rw [if_neg hnegative]
  obtain ⟨n, rfl⟩ := Int.eq_ofNat_of_zero_le (not_lt.mp hnegative)
  have hmax : ty.max = (2 ^ (ty.bits - 1) - 1 : ℕ) := by
    have hpos : 0 < 2 ^ (ty.bits - 1) := Nat.two_pow_pos _
    have hcast : ((2 ^ (ty.bits - 1) : ℕ) : ℤ) = 2 ^ (ty.bits - 1) := by push_cast; rfl
    simp only [CIntType.max, hsigned, if_true]
    omega
  have hshift : ty.convert (ty.max >>> r.toNat) = ((2 ^ (ty.bits - 1) - 1) / 2 ^ r.toNat : ℕ) := by
    have hin : ty.Contains ty.max := by
      have hpos : (0 : ℤ) < 2 ^ (ty.bits - 1) := pow_pos (by decide) _
      simp only [contains_signed hsigned, CIntType.max, hsigned, if_true]
      omega
    rw [convert_of_contains hsigned (contains_shiftRight hsigned hin _), hmax,
      Int.shiftRight_eq_div_pow]
    push_cast
    rfl
  have hover : (2 ^ (ty.bits - 1) - 1) / 2 ^ r.toNat < n ↔
      2 ^ (ty.bits - 1) ≤ n * 2 ^ r.toNat := by
    have hpos : 0 < 2 ^ (ty.bits - 1) := Nat.two_pow_pos _
    rw [Nat.div_lt_iff_lt_mul (Nat.two_pow_pos _)]
    omega
  have hsign : ty.checked.signed = true := hsigned
  have hdomain : (ty.checked.domain == .wrap) = false := rfl
  simp only [hdomain, hsign, hnegative, Int.toNat_natCast, Nat.shiftLeft_eq, Bool.false_eq_true,
    if_false, if_true, hshift, Nat.cast_lt, hover]
  have hbound : 2 ^ (ty.bits - 1) ≤ 2 ^ 127 := by
    have hle := ty.bits_le
    exact Nat.pow_le_pow_right (by decide) (by omega)
  have hpos : 0 < 2 ^ (ty.bits - 1) := Nat.two_pow_pos _
  by_cases hlarge : 2 ^ (ty.bits - 1) ≤ n * 2 ^ r.toNat
  · have htrap : u128Max < n * 2 ^ r.toNat ∨
        2 ^ (ty.bits - 1) - 1 < n * 2 ^ r.toNat % 2 ^ 128 := by
      unfold u128Max
      omega
    rw [if_neg (by decide), if_pos htrap, if_pos hlarge]
    rfl
  · have hkept : ¬(u128Max < n * 2 ^ r.toNat ∨
        2 ^ (ty.bits - 1) - 1 < n * 2 ^ r.toNat % 2 ^ 128) := by
      unfold u128Max
      omega
    have hin : ty.Contains (n * 2 ^ r.toNat : ℕ) := by
      have hcast : ((2 ^ (ty.bits - 1) : ℕ) : ℤ) = 2 ^ (ty.bits - 1) := by push_cast; rfl
      rw [contains_signed hsigned]
      omega
    have hexact : (n : ℤ) * 2 ^ r.toNat = (n * 2 ^ r.toNat : ℕ) := by push_cast; rfl
    rw [if_neg (by decide), if_neg hkept, if_neg hlarge, hexact,
      Nat.mod_eq_of_lt (by omega), comptimeUnsignedValue_eq, comptimeIntegerValue_signed hsigned hin]
    exact returns_signed_agrees hsigned hin

lemma signedShr_agrees (hl : ty.Contains l) :
    FoldAgrees (foldSignedBinary .shr l r (some ty.checked)) (mcCheckedShr ty l r) := by
  have hbits : ty.checked.bits = ty.bits := rfl
  simp only [foldSignedBinary, foldSignedShift, mcCheckedShr, hsigned, true_and,
    Option.map_some, Option.getD_some, hbits, beq_self_eq_true, if_true]
  split
  · rfl
  · exact domainArith_agrees hsigned (contains_shiftRight hsigned hl _)

lemma signedNeg_agrees {a : ℤ} (ha : ty.Contains a) :
    FoldAgrees (foldComptimeNeg (some ty.checked) (comptimeIntegerValue a))
      (mcCheckedNeg ty a) := by
  rw [comptimeIntegerValue_signed hsigned ha, foldComptimeNeg, foldComptimeIntegerNeg,
    mcCheckedNeg]
  have hsign : ty.checked.signed = true := hsigned
  have hbits : ty.checked.bits = ty.bits := rfl
  have hmin : ty.convert ty.min = ty.min := by
    have hpos : (0 : ℤ) < 2 ^ (ty.bits - 1) := pow_pos (by decide) _
    refine convert_of_contains hsigned ?_
    rw [contains_signed hsigned, CIntType.min_signed hsigned]
    omega
  simp only [hsign, hbits, hmin, signedMin_bits hsigned, Bool.not_true, Bool.false_eq_true,
    if_false, beq_iff_eq]
  by_cases hleast : a = ty.min
  · rw [if_pos hleast, if_pos hleast]
    rfl
  · have hin : ty.Contains (-a) := by
      rw [CIntType.min_signed hsigned] at hleast
      rw [contains_signed hsigned] at ha ⊢
      omega
    rw [if_neg hleast, if_neg hleast]
    exact returns_signed_agrees hsigned hin

/-- Every signed helper agrees with the fold of its operator, the narrow remainder of the
least value by `-1` apart. -/
lemma signedBinary_agrees_iff {op : BinaryOp} {helper : CIntType → ℤ → ℤ → HelperResult}
    (hhelper : runtimeBinaryHelper .checked true op = some helper)
    (hl : ty.Contains l) (hr : ty.Contains r) :
    FoldAgrees (foldSignedBinary op l r (some ty.checked)) (helper ty l r) ↔
      ¬(op = .mod ∧ ty.bits < 128 ∧ l = ty.min ∧ r = -1) := by
  cases op <;> cases hhelper
  case mod => simpa using signedMod_agrees_iff hsigned hl hr
  all_goals refine iff_of_true ?_ fun h => BinaryOp.noConfusion h.1
  case shl => exact signedShl_agrees hsigned hl
  case shr => exact signedShr_agrees hsigned hl
  case add =>
    have hfits := fitsI128_of_le_add hsigned hl hr (abs_add_le l r)
    exact foldSignedExact_agrees hsigned hfits _
  case sub =>
    have hfits := fitsI128_of_le_add hsigned hl hr (abs_sub l r)
    exact foldSignedExact_agrees hsigned hfits _
  case mul => exact foldSignedExact_agrees hsigned (fitsI128_mul hsigned hl hr) _
  case div => exact signedDiv_agrees hsigned hl

end Signed

/-! ## The two engines -/

/-- The wrapping and saturating helpers are those of the unsigned types. -/
lemma domain_of_signed_helper {domain : ComptimeDomain} {op : BinaryOp}
    {helper : CIntType → ℤ → ℤ → HelperResult}
    (h : runtimeBinaryHelper domain true op = some helper) : domain = .checked := by
  cases domain
  case checked => rfl
  all_goals cases op <;> cases h

/-- No comparison has a helper. -/
lemma not_comparison_of_helper {domain : ComptimeDomain} {signed : Bool} {op : BinaryOp}
    {helper : CIntType → ℤ → ℤ → HelperResult}
    (h : runtimeBinaryHelper domain signed op = some helper) : op ≠ .eq ∧ op ≠ .ne := by
  constructor
  all_goals
    rintro rfl
    cases domain <;> cases signed <;> cases h

/-- **Folding agrees with the prelude** on operands of the type, for every operator that has
a helper at its type and domain, exactly outside the narrow remainder of the least value by
`-1`. -/
theorem foldAgrees_iff (floats : FloatArithmetic) (domain : ComptimeDomain) (ty : CIntType)
    (operation : IntegerOperation) (result : HelperResult) (hoperands : operation.OperandsIn ty)
    (hrun : operation.run domain ty = some result) :
    FoldAgrees (operation.fold floats domain ty) result ↔
      ¬ operation.NarrowRemainderOverflow ty := by
  cases operation with
  | unary op a =>
    refine iff_of_true ?_ id
    obtain ⟨helper, hhelper, rfl⟩ := Option.map_eq_some_iff.mp hrun
    cases hsigned : ty.signed with
    | false =>
      rw [hsigned] at hhelper
      cases domain <;> cases op <;> cases hhelper
    | true =>
      rw [hsigned] at hhelper
      cases domain <;> cases op <;> cases hhelper
      exact signedNeg_agrees hsigned hoperands
  | binary op l r =>
    obtain ⟨helper, hhelper, rfl⟩ := Option.map_eq_some_iff.mp hrun
    obtain ⟨hl, hr⟩ := hoperands
    obtain ⟨heq, hne⟩ := not_comparison_of_helper hhelper
    cases hsigned : ty.signed with
    | false =>
      rw [hsigned] at hhelper
      obtain ⟨a, rfl, ha⟩ := natCast_of_contains hsigned hl
      obtain ⟨b, rfl, hb⟩ := natCast_of_contains hsigned hr
      have hagrees := unsignedBinary_agrees domain hsigned ty.bits_le hhelper ha hb
      refine iff_of_true ?_ ?_
      · rw [IntegerOperation.fold, hsigned, foldOperands_unsigned floats domain heq hne]
        exact hagrees
      · cases op <;> simp [IntegerOperation.NarrowRemainderOverflow, hsigned]
    | true =>
      rw [hsigned] at hhelper
      obtain rfl := domain_of_signed_helper hhelper
      have hagrees := signedBinary_agrees_iff hsigned hhelper hl hr
      have hfold := foldOperands_signed hsigned floats heq hne hl hr
      have hcondition : (IntegerOperation.binary op l r).NarrowRemainderOverflow ty ↔
          (op = .mod ∧ ty.bits < 128 ∧ l = ty.min ∧ r = -1) := by
        cases op <;> simp [IntegerOperation.NarrowRemainderOverflow, hsigned]
      rw [hcondition, ← hagrees, ← hfold]
      rfl

/-- A host without floating point: no integer operator looks at it. -/
def noFloats : FloatArithmetic where
  equal _ _ := false
  less _ _ := false
  lessEqual _ _ := false
  add a _ := a
  sub a _ := a
  mul a _ := a
  div a _ := a

def i8Type : CIntType := { bits := 8, signed := true }

/-- `1 << 6` at `i8`. -/
theorem narrowShift_foldAgrees :
    (IntegerOperation.binary .shl 1 6).OperandsIn i8Type ∧
      (IntegerOperation.binary .shl 1 6).run .checked i8Type = some (.returns 64) ∧
      FoldAgrees ((IntegerOperation.binary .shl 1 6).fold noFloats .checked i8Type)
        (.returns 64) := by
  have hoperands : (IntegerOperation.binary .shl 1 6).OperandsIn i8Type := by
    constructor <;> decide
  have hrun : (IntegerOperation.binary .shl 1 6).run .checked i8Type = some (.returns 64) := by
    decide
  exact ⟨hoperands, hrun, (foldAgrees_iff noFloats .checked i8Type _ _ hoperands hrun).mpr id⟩

/-- `-128 % -1` at `i8` folds to `0`; `mc_checked_mod_i8` traps. -/
theorem not_foldAgrees_everywhere :
    ¬ ∀ (domain : ComptimeDomain) (ty : CIntType) (operation : IntegerOperation)
      (result : HelperResult), operation.OperandsIn ty → operation.run domain ty = some result →
      FoldAgrees (operation.fold noFloats domain ty) result := by
  intro hagrees
  have hoperands : (IntegerOperation.binary .mod (-128) (-1)).OperandsIn i8Type := by
    constructor <;> decide
  have hrun : (IntegerOperation.binary .mod (-128) (-1)).run .checked i8Type =
      some (.traps .integerOverflow) := by
    decide
  have htrap := hagrees .checked i8Type _ _ hoperands hrun
  have hzero : (IntegerOperation.binary .mod (-128) (-1)).fold noFloats .checked i8Type =
      .value (.int 0) := by
    rfl
  rw [FoldAgrees, hzero] at htrap
  cases htrap

end ModernC.Eval
