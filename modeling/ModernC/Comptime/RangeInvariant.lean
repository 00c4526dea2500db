import ModernC.Comptime.Assignment
import ModernC.Comptime.Panics
import ModernC.Comptime.Ranges

/-!
# Folds in the range of their type

What is folded at an integer type, and stored under one, is an integer of that type, as far as the
folder reads the type itself: it resolves a type anew at every level, but never inside of `wrap` and
`sat`.
-/

namespace ModernC.Comptime

open Eval (ComptimeValue ComptimeFold DomainWidth i128Min i128Max lowMask and_lowMask
  bitCastToU128 bitCastToI128 comptimeIntFromBits comptimeUnsignedValue comptimeIntegerValue)
open Framework Framework.GuardedRun
open Syntax (Expr TypeExpr Ident Param Stmt)
open Layout (operator contextApplies)

/-! ## The domain of a type -/

lemma intTypeOfName_signed {name : String} {info : IntType}
    (h : intTypeOfName name = some info) : info.signed = startsSigned name := by
  unfold intTypeOfName at h
  split_ifs at h with hpointer
  · cases h
    rcases hpointer with rfl | rfl <;> decide
  · unfold startsSigned
    split at h
    · cases h
    · cases h
    · rename_i first digits hne hlist
      split_ifs at h with hfirst
      obtain ⟨bits, -, hbits⟩ := Option.bind_eq_some_iff.mp h
      split_ifs at hbits
      cases hbits
      simp [hlist]

/-- The domain of an integer type has its range. -/
lemma comptimeTypeDomainWidth_of_intType {ty : TypeExpr} {info : IntType}
    (h : comptimeIntType ty = some info) :
    ∃ d, comptimeTypeDomainWidth ty = some d ∧ intTypeOfDomain d = info := by
  have hname : ∀ id : Ident, comptimeIntType (.name id) = some info →
      ∀ domain, intTypeOfDomain (info.domain domain (startsSigned id.text)) = info := by
    intro id hid domain
    obtain ⟨bits, signed, supported⟩ := info
    have hsigned := intTypeOfName_signed (show intTypeOfName id.text = some _ from hid)
    simp only at hsigned
    subst hsigned
    rfl
  cases ty with
  | name id =>
    refine ⟨_, ?_, hname id h .checked⟩
    simp only [comptimeTypeDomainWidth, h, Option.map_some]
  | qualified mutability child =>
    cases child with
    | name id =>
      have hid : comptimeIntType (.name id) = some info := h
      refine ⟨_, ?_, hname id hid .checked⟩
      simp only [comptimeTypeDomainWidth, hid, Option.map_some]
    | _ => cases h
  | generic base args =>
    cases args with
    | nil => cases h
    | cons arg rest =>
      cases rest with
      | cons => cases h
      | nil =>
        unfold comptimeIntType at h
        simp only at h
        cases hdomain : domainOfGeneric base with
        | none =>
          rw [hdomain] at h
          cases h
        | some domain =>
          rw [hdomain] at h
          cases arg with
          | name id =>
            have hid : comptimeIntType (.name id) = some info := h
            refine ⟨_, ?_, hname id hid domain⟩
            simp only [comptimeTypeDomainWidth, hdomain, Option.bind_some, hid, Option.map_some]
          | _ => cases h
  | _ => cases h

/-! ## The check of an expected type -/

section Context

variable {floats : FloatHost} {scope : ComptimeScope} {info : IntType} {ty : TypeExpr}
  {fold result : ComptimeFold}

lemma bitCastToU128_lt (n : ℤ) : bitCastToU128 n < 2 ^ 128 := by
  unfold bitCastToU128
  omega

variable {raw : ℕ} {v : ComptimeValue}

lemma valueFromBits_fits (hraw : raw < 2 ^ 128)
    (h : valueFromBits info raw = some v) : Fits info v := by
  unfold valueFromBits at h
  split_ifs at h with hwide
  · cases h
    simp only [Bool.and_eq_true, Bool.not_eq_true', beq_iff_eq] at hwide
    refine fits_of_lt ?_
    simp only [IntType.magnitudeBits, hwide.1, hwide.2, Bool.false_eq_true, if_false]
    exact hraw
  · obtain ⟨n, hn, rfl⟩ := Option.map_eq_some_iff.mp h
    exact comptimeIntFromBits_contains hn

lemma contextualFromBits_fits (hraw : raw < 2 ^ 128)
    (h : contextualFromBits info raw = some result) : FoldFits info result := by
  rw [contextualFromBits_eq, Option.some.injEq] at h
  subst h
  cases hv : valueFromBits info raw with
  | none => trivial
  | some v => exact valueFromBits_fits hraw hv

lemma castBits_lt (h : castBits floats info v = some raw) :
    raw < 2 ^ 128 := by
  cases v with
  | int n =>
    cases h
    exact bitCastToU128_lt n
  | uint n =>
    cases h
    exact Nat.mod_lt _ (by positivity)
  | float x =>
    obtain ⟨t, -, h⟩ := Option.bind_eq_some_iff.mp h
    split_ifs at h with hsigned hout hout
    · cases h
      exact bitCastToU128_lt t
    · cases h
      omega
  | _ => cases h

lemma hostCastValue_fits {converted : Option ComptimeValue} (hinfo : comptimeIntType ty = some info)
    (h : hostCastValue floats v ty = some converted) : FoldFits info (ofValue converted) := by
  unfold hostCastValue at h
  split at h
  · cases h
    trivial
  · split at h
    · cases h
      cases v <;> trivial
    · rw [hinfo] at h
      simp only at h
      split at h
      · cases h
        trivial
      · rename_i raw hraw
        rw [hostValueFromBits_eq, Option.some.injEq] at h
        subst h
        cases hv : valueFromBits info raw with
        | none => trivial
        | some w => exact valueFromBits_fits (castBits_lt hraw) hv

/-- **What passes the check of an integer type is in its range**. -/
lemma contextualFold_fits (hinfo : comptimeIntType (resolveComptimeType scope ty) = some info)
    (h : (contextualFold floats scope ty fold).ending = .done result) : FoldFits info result := by
  cases fold with
  | value v =>
    have hvalue : hostContextualValue floats v (resolveComptimeType scope ty) = some result :=
      (certain_done_iff (h := hostContextualValue_ne_none floats v _)).mp h
    unfold hostContextualValue at hvalue
    rw [hinfo] at hvalue
    simp only at hvalue
    cases v with
    | int n =>
      change contextualInt info n = some result at hvalue
      rcases contextualInt_eq info n with htrap | hbits
      · rw [htrap] at hvalue
        cases hvalue
        trivial
      · exact contextualFromBits_fits (bitCastToU128_lt n) (hbits ▸ hvalue)
    | uint n =>
      change contextualUint info n = some result at hvalue
      rcases contextualUint_eq info n with htrap | hbits
      · rw [htrap] at hvalue
        cases hvalue
        trivial
      · exact contextualFromBits_fits (Nat.mod_lt _ (by positivity)) (hbits ▸ hvalue)
    | _ =>
      obtain ⟨converted, hconverted, rfl⟩ := Option.map_eq_some_iff.mp hvalue
      exact hostCastValue_fits hinfo hconverted
  | trap | unknown =>
    cases h
    trivial

end Context

/-! ## What passes the check -/

section Passing

variable {info : IntType} {n : ℤ}

/-- The low bits of an integer are its remainder. -/
lemma low_bitCastToU128 {bits : ℕ} (hbits : bits ≤ 128) (n : ℤ) :
    ((bitCastToU128 n &&& lowMask bits : ℕ) : ℤ) = n % 2 ^ bits := by
  have hdvd : (2 : ℤ) ^ bits ∣ 2 ^ 128 := pow_dvd_pow 2 hbits
  have hnonneg : 0 ≤ n % 2 ^ 128 := Int.emod_nonneg _ (by decide)
  rw [and_lowMask, Int.natCast_mod, bitCastToU128, Int.toNat_of_nonneg hnonneg, Nat.cast_pow]
  exact Int.emod_emod_of_dvd n hdvd

lemma comptimeIntFromBits_of_contains (hsmall : n ≤ i128Max) (h : info.Contains n) :
    comptimeIntFromBits (bitCastToU128 n) info.bits info.signed = some n := by
  obtain ⟨hlow, hhigh⟩ := pos_of_supported info.supported
  have hlt := low_lt (bitCastToU128 n) info.bits
  have htop := topBit_iff (show 0 < info.bits by omega) hlt
  have hvalue := low_bitCastToU128 hhigh n
  have hor := or_complement_lowMask hhigh hlt
  have hpow : 2 ^ info.bits = 2 * 2 ^ (info.bits - 1) := by
    rw [← pow_succ']
    congr 1
    omega
  have hcast : (2 : ℤ) ^ info.bits = ((2 ^ info.bits : ℕ) : ℤ) := by push_cast; rfl
  have hcast' : (2 : ℤ) ^ (info.bits - 1) = ((2 ^ (info.bits - 1) : ℕ) : ℤ) := by push_cast; rfl
  unfold comptimeIntFromBits
  rw [if_neg (by simp only [Bool.or_eq_true, beq_iff_eq, decide_eq_true_eq]; omega)]
  generalize bitCastToU128 n &&& lowMask info.bits = value at *
  cases hsigned : info.signed with
  | false =>
    rw [contains_of_unsigned hsigned] at h
    rw [Int.emod_eq_of_lt h.1 h.2] at hvalue
    simp only [Bool.false_and, Bool.false_eq_true, if_false, hvalue, hsmall, if_true]
  | true =>
    rw [contains_of_signed hsigned, hcast'] at h
    simp only [Bool.true_and, beq_iff_eq, htop]
    by_cases hneg : n < 0
    · have hmod : n % 2 ^ info.bits = n + 2 ^ info.bits := by
        rw [← Int.add_emod_right, Int.emod_eq_of_lt (by omega) (by omega)]
      rw [hmod, hcast] at hvalue
      rw [if_pos (show 2 ^ (info.bits - 1) ≤ value by omega)]
      by_cases hwide : info.bits = 128
      · rw [hwide] at h hvalue hlt
        simp only [hwide, if_true, bitCastToI128]
        rw [if_neg (by omega)]
        congr 1
        omega
      · have hnarrow := narrow_of_supported info.supported hwide
        have hle : 2 ^ info.bits ≤ 2 ^ 64 := Nat.pow_le_pow_right (by omega) hnarrow.2
        simp only [hwide, if_false, hor, bitCastToI128]
        rw [if_neg (by omega)]
        congr 1
        omega
    · rw [Int.emod_eq_of_lt (by omega) (by omega)] at hvalue
      rw [if_neg (show ¬ 2 ^ (info.bits - 1) ≤ value by omega)]
      simp only [hvalue, hsmall, if_true]

lemma valueFromBits_of_contains (h : info.Contains n) :
    valueFromBits info (bitCastToU128 n) = some (comptimeIntegerValue n) := by
  have hsmall : ¬ (info.signed = false ∧ info.bits = 128) → n ≤ i128Max := by
    intro hnarrow
    cases hsigned : info.signed with
    | true => exact (fitsI128_of_contains hsigned h).2
    | false =>
      have hwide : info.bits ≠ 128 := fun hwide => hnarrow ⟨hsigned, hwide⟩
      have hle := (narrow_of_supported info.supported hwide).2
      have hpow : (2 : ℤ) ^ info.bits ≤ 2 ^ 64 := pow_le_pow_right₀ (by omega) hle
      have hlt := ((contains_of_unsigned hsigned n).mp h).2
      unfold i128Max
      omega
  unfold valueFromBits
  by_cases hwide : info.signed = false ∧ info.bits = 128
  · have hmem := (contains_of_unsigned hwide.1 n).mp h
    rw [hwide.2] at hmem
    have hbits : (bitCastToU128 n : ℤ) = n := by
      unfold bitCastToU128
      omega
    rw [if_pos (by simp [hwide.1, hwide.2]), Eval.comptimeUnsignedValue_eq, hbits]
  · have hle := hsmall hwide
    rw [if_neg (by simpa using hwide), comptimeIntFromBits_of_contains hle h,
      Eval.comptimeIntegerValue_of_le hle]
    rfl

lemma contextualInt_of_contains (h : info.Contains n) :
    contextualInt info n = some (.value (comptimeIntegerValue n)) := by
  have hpos := pos_of_supported info.supported
  have hbits : contextualFromBits info (bitCastToU128 n) =
      some (.value (comptimeIntegerValue n)) := by
    rw [contextualFromBits_eq, valueFromBits_of_contains h]
    rfl
  unfold contextualInt
  cases hsigned : info.signed with
  | true =>
    rw [contains_of_signed hsigned] at h
    by_cases hnarrow : info.bits < 128
    · have hlt : info.bits - 1 < 127 := by omega
      simp only [if_true, hnarrow, oneShiftedI128_pred (show 0 < info.bits by omega) hnarrow,
        Option.bind_eq_bind, Option.bind_some, subI128_two_pow hlt,
        negI128_of_nonneg (show (0 : ℤ) ≤ 2 ^ (info.bits - 1) by positivity)]
      rw [if_neg (by omega), hbits]
    · simp only [if_true, hnarrow, if_false, hbits]
  | false =>
    rw [contains_of_unsigned hsigned] at h
    have hneg : ¬ n < 0 := by omega
    by_cases hnarrow : info.bits < 128
    · have hle : ¬ 2 ^ info.bits - 1 < n.toNat := by
        have hcast : (2 : ℤ) ^ info.bits = ((2 ^ info.bits : ℕ) : ℤ) := by push_cast; rfl
        omega
      simp only [hneg, hnarrow, if_true, Bool.false_eq_true, if_false,
        castU128_of_nonneg (show 0 ≤ n by omega), onesU128_of_lt hnarrow,
        Option.bind_eq_bind, Option.bind_some, hle, hbits]
    · simp only [hneg, hnarrow, Bool.false_eq_true, if_false, hbits]

/-- **An integer of a type passes its check** as it is. -/
lemma hostContextualValue_of_contains (floats : FloatHost) {ty : TypeExpr}
    (hinfo : comptimeIntType ty = some info) (h : info.Contains n) :
    hostContextualValue floats (comptimeIntegerValue n) ty =
      some (.value (comptimeIntegerValue n)) := by
  unfold hostContextualValue
  rw [hinfo]
  by_cases hsmall : n ≤ i128Max
  · have hpass := contextualInt_of_contains h
    rw [Eval.comptimeIntegerValue_of_le hsmall] at hpass ⊢
    exact hpass
  · have hvalue : comptimeIntegerValue n = .uint n.toNat := if_neg hsmall
    have hunsigned : info.signed = false := by
      by_contra hsigned
      rw [Bool.not_eq_false] at hsigned
      exact hsmall (fitsI128_of_contains hsigned h).2
    have hmem := (contains_of_unsigned hunsigned n).mp h
    have hpow : (2 : ℤ) ^ info.bits ≤ 2 ^ 128 :=
      pow_le_pow_right₀ (by omega) (pos_of_supported info.supported).2
    have hwide : ¬ info.bits < 128 := by
      intro hnarrow
      have hle := (narrow_of_supported info.supported (by omega)).2
      have hpow' : (2 : ℤ) ^ info.bits ≤ 2 ^ 64 := pow_le_pow_right₀ (by omega) hle
      unfold i128Max at hsmall
      omega
    have hbits : n.toNat % 2 ^ 128 = bitCastToU128 n := by
      unfold bitCastToU128
      omega
    rw [hvalue]
    show contextualUint info n.toNat = _
    simp only [contextualUint, hunsigned, Bool.false_eq_true, if_false, hwide,
      contextualFromBits_eq, hbits, valueFromBits_of_contains h, hvalue, Option.elim_some]

end Passing

/-! ## Operators -/

section Operators

variable {floats : FloatHost} {scope : ComptimeScope} {outer : IntType} {F : Folders}
  {result : ComptimeFold} {d : KnownDomain}

/-- A `u128` above the greatest `i128` is in the range of an unsigned type alone. -/
lemma unsigned_of_uint {n : ℕ} (h : Fits outer (.uint n)) : outer.signed = false := by
  by_contra hsigned
  rw [Bool.not_eq_false] at hsigned
  have hle := (fitsI128_of_contains hsigned h.2).2
  have hlt := h.1
  omega

variable {op : Eval.BinaryOp} {left right : ComptimeValue}

variable {hlogical : ¬ IsLogical op} {heq : ¬ IsEquality op}

/-- The operators on integers are the unsigned ones or the signed ones of their domain. -/
lemma foldIntegers_cases {dw : Option KnownDomain}
    (h : (foldIntegers op hlogical heq left right dw).ending = .done result) :
    (((∃ n, left = .uint n) ∨ (∃ n, right = .uint n) ∨ ∃ d ∈ dw, d.val.signed = false) ∧
      result = Eval.foldWideUnsignedBinary op left right (domainOf dw)) ∨
    (∃ l r, left = .int l ∧ right = .int r ∧ (∀ d ∈ dw, d.val.signed = true) ∧
      result = Eval.foldSignedBinary op l r (domainOf dw)) ∨
    result = .unknown := by
  have hwide : (foldWideUnsignedBinary op hlogical left right dw).ending = .done result →
      result = Eval.foldWideUnsignedBinary op left right (domainOf dw) := by
    intro hrun
    have hhost : hostWideUnsignedBinary op left right (domainOf dw) = some result :=
      certain_done_iff.mp hrun
    rw [hostWideUnsignedBinary_eq left right (supported_domainOf _) (fun h => hlogical (.inl h))
      fun h => hlogical (.inr h), Option.some.injEq] at hhost
    exact hhost.symm
  unfold foldIntegers at h
  split at h
  · exact .inl ⟨.inl ⟨_, rfl⟩, hwide h⟩
  · exact .inl ⟨.inr (.inl ⟨_, rfl⟩), hwide h⟩
  · by_cases hunsigned : (dw.any fun d => !d.val.signed) = true
    · rw [if_pos hunsigned] at h
      obtain ⟨d, rfl, hsigned⟩ : ∃ d, dw = some d ∧ d.val.signed = false := by
        cases dw with
        | none => cases hunsigned
        | some d => exact ⟨d, rfl, by simpa using hunsigned⟩
      exact .inl ⟨.inr (.inr ⟨d, rfl, hsigned⟩), hwide h⟩
    · rw [if_neg hunsigned] at h
      have hsigned : ∀ d ∈ dw, d.val.signed = true := by
        rintro d rfl
        simpa using hunsigned
      split at h
      · rename_i l r _ _
        refine .inr (.inl ⟨l, r, rfl, rfl, hsigned, ?_⟩)
        unfold foldSignedBinary at h
        split_ifs at h with hshift
        · have hhost : hostSignedShift op l r (domainOf dw) = some result := attempt_done_iff.mp h
          have hover : ¬ ShiftOverflows op l r (domainOf dw) := by
            intro hover
            rw [(hostSignedShift_eq_none_iff (supported_domainOf _)).mpr hover] at hhost
            cases hhost
          rw [hostSignedShift_eq (supported_domainOf _) hover, Option.some.injEq] at hhost
          rcases hshift with rfl | rfl <;> exact hhost.symm
        · have hhost : hostSignedBinary op l r (domainOf dw) = some result :=
            certain_done_iff.mp h
          rw [hostSignedBinary_eq l r (supported_domainOf _) (isPlainSigned hlogical heq hshift),
            Option.some.injEq] at hhost
          exact hhost.symm
      · cases h
        exact .inr (.inr rfl)

/-- **The operators on integers keep to the range** that includes that of their domain. -/
lemma foldIntegers_fits (hwithin : (intTypeOfDomain d).Within outer)
    (hleft : Fits outer left) (hright : Fits outer right)
    (h : (foldIntegers op hlogical heq left right (some d)).ending = .done result) :
    FoldFits outer result := by
  have huint : outer.signed = false → d.val.signed = false := by
    intro houter
    by_contra hsigned
    rw [Bool.not_eq_false] at hsigned
    rw [signed_of_within hwithin hsigned] at houter
    cases houter
  rcases foldIntegers_cases h with ⟨hwide, rfl⟩ | ⟨l, r, rfl, rfl, hsigned, rfl⟩ | rfl
  · have hsigned : d.val.signed = false := by
      rcases hwide with ⟨n, rfl⟩ | ⟨n, rfl⟩ | ⟨d', hd', hsigned⟩
      · exact huint (unsigned_of_uint hleft)
      · exact huint (unsigned_of_uint hright)
      · cases hd'
        exact hsigned
    exact foldWideUnsignedBinary_fits hsigned hwithin hleft hright
  · exact foldSignedBinary_fits (hsigned d rfl) hwithin hleft hright
  · trivial

/-- The operators with a truth value. -/
def IsComparison (op : Eval.BinaryOp) : Prop :=
  op = .eq ∨ op = .ne ∨ op = .lt ∨ op = .le ∨ op = .gt ∨ op = .ge

/-- A comparison has no integer value. -/
lemma foldIntegers_comparison {dw : Option KnownDomain} (hcompare : IsComparison op)
    (h : (foldIntegers op hlogical heq left right dw).ending = .done result) :
    FoldFits outer result := by
  rcases foldIntegers_cases h with ⟨-, rfl⟩ | ⟨l, r, rfl, rfl, -, rfl⟩ | rfl
  · unfold Eval.foldWideUnsignedBinary
    split
    · rcases hcompare with rfl | rfl | rfl | rfl | rfl | rfl <;> trivial
    · trivial
  · rcases hcompare with rfl | rfl | rfl | rfl | rfl | rfl <;> trivial
  · trivial

lemma foldFloatBinary_fits (floats : Eval.FloatArithmetic) (op : Eval.BinaryOp)
    (l r : Eval.ComptimeFloat) : FoldFits outer (Eval.foldFloatBinary floats op l r) := by
  cases op <;> trivial

/-- An operator has a value in range if its integer version has. -/
lemma foldOperands_fits (hlogical : ¬ IsLogical op) {dw : Run (Option KnownDomain)}
    (hintegers : ∀ heq known, dw.ending = .done known →
      (foldIntegers op hlogical heq left right known).ending = .done result →
        FoldFits outer result)
    (h : (foldOperands F op hlogical left right dw).ending = .done result) :
    FoldFits outer result := by
  unfold foldOperands at h
  by_cases heq : IsEquality op
  · rw [dif_pos heq] at h
    cases h
    split <;> trivial
  · rw [dif_neg heq] at h
    split at h
    · cases h
      exact foldFloatBinary_fits _ _ _ _
    · cases h
      trivial
    · cases h
      trivial
    · obtain ⟨known, hknown, hrun⟩ := bind_done_iff.mp h
      exact hintegers heq known hknown hrun

end Operators

/-! ## Expressions at a type -/

section Expressions

variable {floats : FloatHost} {scope : ComptimeScope} {outer inner : IntType} {F : Folders}
  {result : ComptimeFold} {ty : TypeExpr}

/-- What goes on with a value ends so, or without a value. -/
lemma onValue_fits {fold : Run ComptimeFold} {next : ComptimeValue → Run ComptimeFold}
    (hnext : ∀ v, fold.ending = .done (.value v) → (next v).ending = .done result →
      FoldFits outer result)
    (h : (onValue fold next).ending = .done result) : FoldFits outer result := by
  obtain ⟨first, hfirst, h⟩ := bind_done_iff.mp h
  cases first with
  | value v => exact hnext v hfirst h
  | trap | unknown =>
    cases h
    trivial

lemma foldLogical_fits {isAnd : Bool} {left right : Expr}
    (h : (foldLogical F scope isAnd left right).ending = .done result) :
    FoldFits outer result := by
  refine onValue_fits (fun v _ hv => ?_) h
  split at hv
  · split_ifs at hv
    · cases hv
      trivial
    · refine onValue_fits (fun w _ hw => ?_) hv
      split at hw <;>
        · cases hw
          trivial
  · cases hv
    trivial

lemma foldComptimeLogicalNot_fits (v : ComptimeValue) :
    FoldFits outer (Eval.foldComptimeLogicalNot v) := by
  cases v <;> trivial

/-- The operators that pass no type on are comparisons. -/
lemma isComparison_of_not_applies {op : Syntax.BinaryOp} (hlogical : ¬ IsLogical (operator op))
    (h : contextApplies op = false) : IsComparison (operator op) := by
  cases op with
  | logicalOr => exact absurd (.inr rfl) hlogical
  | logicalAnd => exact absurd (.inl rfl) hlogical
  | eq => exact .inl rfl
  | ne => exact .inr (.inl rfl)
  | lt => exact .inr (.inr (.inl rfl))
  | le => exact .inr (.inr (.inr (.inl rfl)))
  | gt => exact .inr (.inr (.inr (.inr (.inl rfl))))
  | ge => exact .inr (.inr (.inr (.inr (.inr rfl))))
  | _ => cases h

lemma foldComptimeBinaryWithExpected_fits {op : Syntax.BinaryOp} {left right : Expr}
    (hoperand : ∀ expr operand, (F.foldComptimeExprExpected scope expr ty).ending = .done operand →
      FoldFits outer operand) (hinner : comptimeIntType (resolveComptimeType scope ty) = some inner)
    (hwithin : inner.Within outer)
    (h : (foldComptimeBinaryWithExpected F scope op left right (some ty)).ending = .done result) :
    FoldFits outer result := by
  obtain ⟨d, hd, rfl⟩ := comptimeTypeDomainWidth_of_intType hinner
  have hdomain : binaryDomainWidth scope (some ty) left right = pure (some d) := by
    simp only [binaryDomainWidth, Option.bind_some, hd]
  unfold foldComptimeBinaryWithExpected at h
  by_cases hlogical : IsLogical (operator op)
  · rw [dif_pos hlogical] at h
    exact foldLogical_fits h
  · rw [dif_neg hlogical] at h
    obtain ⟨leftFold, hleft, h⟩ := bind_done_iff.mp h
    obtain ⟨rightFold, hright, h⟩ := bind_done_iff.mp h
    refine onValue_fits (fun l hl h => ?_) h
    refine onValue_fits (fun r hr h => ?_) h
    cases hl
    cases hr
    rw [hdomain] at h
    refine foldOperands_fits hlogical (fun heq known hknown hrun => ?_) h
    cases hknown
    cases hcontext : contextApplies op with
    | true =>
      rw [hcontext] at hleft hright
      exact foldIntegers_fits hwithin (hoperand _ _ hleft) (hoperand _ _ hright) hrun
    | false => exact foldIntegers_comparison (isComparison_of_not_applies hlogical hcontext) hrun

lemma foldComptimeUnaryExpected_fits {op : Syntax.UnaryOp} {operand : Expr}
    (hinner : comptimeIntType (resolveComptimeType scope (resolveComptimeType scope ty)) =
      some inner) (hwithin : inner.Within outer)
    (h : (foldComptimeUnaryExpected F scope op operand ty).ending = .done result) :
    FoldFits outer result := by
  refine onValue_fits (fun v _ hv => ?_) h
  cases op with
  | neg | bitNot =>
    obtain ⟨fold, -, hfold⟩ := bind_done_iff.mp hv
    exact FoldFits.mono (contextualFold_fits hinner hfold) hwithin
  | logicalNot =>
    refine onValue_fits (fun w _ hw => ?_) hv
    cases hw
    exact foldComptimeLogicalNot_fits w

/-- Items stop without a value. -/
lemma foldItems_stop {α : Type} {fold : α → Run ComptimeFold} {items : List α}
    (h : (foldItems fold items).ending = .done (.error result)) : FoldFits outer result := by
  induction items with
  | nil => cases h
  | cons item rest ih =>
    obtain ⟨first, -, h⟩ := bind_done_iff.mp h
    cases first with
    | value v =>
      obtain ⟨values, hvalues, h⟩ := bind_done_iff.mp h
      cases values with
      | ok values => cases h
      | error stop =>
        cases h
        exact ih hvalues
    | trap | unknown =>
      cases h
      trivial

def IsAggregate : ComptimeValue → Prop
  | .array _ | .struct _ => True
  | _ => False

lemma IsAggregate.fits {v : ComptimeValue} (h : IsAggregate v) : Fits outer v := by
  cases v with
  | array items | struct fields => trivial
  | _ => exact h.elim

/-- A literal of items is no integer. -/
lemma aggregate_fits {α : Type} {fold : α → Run ComptimeFold} {items : List α}
    (build : List ComptimeValue → ComptimeValue) (hbuild : ∀ values, IsAggregate (build values))
    (h : (foldItems fold items >>= fun values =>
      match values with
      | .ok values => pure (.value (build values))
      | .error stop => pure stop).ending = .done result) : FoldFits outer result := by
  obtain ⟨values, hvalues, h⟩ := bind_done_iff.mp h
  cases values with
  | ok values =>
    cases h
    exact (hbuild values).fits
  | error stop =>
    cases h
    exact foldItems_stop hvalues

lemma foldComptimeArrayLiteralExpected_fits {items : List Expr}
    (h : (foldComptimeArrayLiteralExpected F scope items ty).ending = .done result) :
    FoldFits outer result := by
  unfold foldComptimeArrayLiteralExpected at h
  split at h
  · exact aggregate_fits .array (fun _ => trivial) h
  · exact aggregate_fits .array (fun _ => trivial) h

lemma foldComptimeStructLiteralExpected_fits {fields : List Syntax.StructLiteralField}
    (h : (foldComptimeStructLiteralExpected F scope fields ty).ending = .done result) :
    FoldFits outer result := by
  unfold foldComptimeStructLiteralExpected at h
  split at h
  · split at h
    · exact aggregate_fits (structOf fields) (fun _ => trivial) h
    · exact aggregate_fits (structOf fields) (fun _ => trivial) h
  · exact aggregate_fits (structOf fields) (fun _ => trivial) h

/-- The folder reads a type, at each time that it resolves it anew, as an integer type within
another one. -/
def ReadsWithin (scope : ComptimeScope) (ty : TypeExpr) (info : IntType) : Prop :=
  ∀ k, 2 ≤ k → ∃ inner, comptimeIntType ((resolveComptimeType scope)^[k] ty) = some inner ∧
    inner.Within info

lemma ReadsWithin.resolve (h : ReadsWithin scope ty outer) :
    ReadsWithin scope (resolveComptimeType scope ty) outer := by
  intro k hk
  rw [← Function.iterate_succ_apply]
  exact h (k + 1) (by omega)

/-- **What folds at a type is in its range** as the folder reads it. -/
theorem foldComptimeExprExpected_fits {n : ℕ} {expr : Expr} (hty : ReadsWithin scope ty outer)
    (h : ((folders floats n).foldComptimeExprExpected scope expr ty).ending = .done result) :
    FoldFits outer result := by
  induction n generalizing ty expr result with
  | zero => cases h
  | succ n ih =>
    obtain ⟨inner, hinner, hwithin⟩ := hty 2 le_rfl
    rw [folders_succ] at h
    change (foldComptimeExprExpected (folders floats n) scope expr ty).ending = _ at h
    unfold foldComptimeExprExpected at h
    split at h
    · exact ih hty.resolve h
    · exact foldComptimeBinaryWithExpected_fits (fun expr operand => ih hty.resolve) hinner
        hwithin h
    · obtain ⟨inner', hinner', hwithin'⟩ := hty 3 (by omega)
      exact foldComptimeUnaryExpected_fits hinner' hwithin' h
    · exact foldComptimeArrayLiteralExpected_fits h
    · exact foldComptimeStructLiteralExpected_fits h
    · obtain ⟨fold, -, hfold⟩ := bind_done_iff.mp h
      exact FoldFits.mono (contextualFold_fits hinner hfold) hwithin

end Expressions

/-! ## Constants out of range -/

section Constants

variable {floats : FloatHost} {scope : ComptimeScope} {outer inner : IntType} {ty : TypeExpr}
  {expr : Expr} {n : ℤ}

/-- An expression that folds to this integer, and is checked against the expected type alone. -/
structure IsConstant (floats : FloatHost) (scope : ComptimeScope) (expr : Expr) (n : ℤ) : Prop where
  folds : ∀ depth, ((folders floats (depth + 3)).foldComptimeExpr scope expr).ending =
    .done (.value (comptimeIntegerValue n))
  checked : ∀ F ty, foldComptimeExprExpected F scope expr ty =
    F.foldComptimeExpr scope expr >>= contextualFold F.floats scope (resolveComptimeType scope ty)

/-- The literal of a natural number. -/
lemma isConstant_literal {m : ℕ} (h : m < 2 ^ 128) :
    IsConstant floats scope (.intLiteral (toString m)) m where
  folds := by
    intro depth
    have hparse : Syntax.parseIntegerLiteral (toString m) = some m :=
      Syntax.parseIntegerLiteral_toString (Nat.le_of_lt_succ h)
    have hliteral : Layout.comptimeIntegerLiteral (toString m) = some (comptimeIntegerValue m) := by
      rw [Layout.comptimeIntegerLiteral, hparse, Option.map_some, Eval.comptimeUnsignedValue_eq]
    show Ending.done (ofValue (Layout.comptimeIntegerLiteral (toString m))) = _
    rw [hliteral]
    rfl
  checked := fun _ _ => rfl

/-- `255 as i8`, which is `-1`. -/
def minusOne : Expr := .cast (.intLiteral "255") (.name { text := "i8" })

lemma isConstant_minusOne : IsConstant floats scope minusOne (-1) where
  folds := fun _ => rfl
  checked := fun _ _ => rfl

/-- **Behind parentheses the type is resolved once more** for each of them. -/
lemma ending_grouped (h : IsConstant floats scope expr n) (j : ℕ) (ty : TypeExpr) :
    ((folders floats (j + 4)).foldComptimeExprExpected scope (Expr.grouped^[j] expr) ty).ending =
      (contextualFold floats scope ((resolveComptimeType scope)^[j + 1] ty)
        (.value (comptimeIntegerValue n))).ending := by
  induction j generalizing ty with
  | zero =>
    show (foldComptimeExprExpected (folders floats 3) scope expr ty).ending = _
    rw [h.checked, ending_bind_of_done (h.folds 0), folders_floats]
    rfl
  | succ j ih =>
    rw [Function.iterate_succ_apply', Function.iterate_succ_apply]
    exact ih (resolveComptimeType scope ty)

/-- A type with an integer outside of another one has a natural number there, or `-1`. -/
lemma exists_outside (h : ¬ inner.Within outer) :
    (∃ m : ℕ, m < 2 ^ 128 ∧ inner.Contains m ∧ ¬ outer.Contains m) ∨
      inner.Contains (-1) ∧ ¬ outer.Contains (-1) := by
  by_contra hnone
  push Not at hnone
  obtain ⟨hnat, hone⟩ := hnone
  have hbound : ∀ m : ℕ, inner.Contains m → outer.Contains m := by
    intro m hm
    refine hnat m ?_ hm
    exact lt_of_lt_of_le ((contains_natCast inner).mp hm)
      (Nat.pow_le_pow_right (by omega) (magnitudeBits_le inner))
  refine h fun n hn => ?_
  by_cases hneg : n < 0
  · have hsigned : inner.signed = true := by
      by_contra hunsigned
      have := (contains_of_unsigned (Bool.eq_false_iff.mpr hunsigned) n).mp hn
      omega
    have hmem := (contains_of_signed hsigned n).mp hn
    have houter : outer.signed = true := by
      by_contra hunsigned
      have hminus := hone ((contains_of_signed hsigned (-1)).mpr (by omega))
      have := (contains_of_unsigned (Bool.eq_false_iff.mpr hunsigned) (-1)).mp hminus
      omega
    have hopposite := hbound (-n - 1).toNat (by
      rw [contains_of_signed hsigned]
      omega)
    rw [contains_of_signed houter] at hopposite ⊢
    omega
  · have hcast : (n.toNat : ℤ) = n := by omega
    have hmem := hbound n.toNat (by rwa [hcast])
    rwa [hcast] at hmem

/-- Every type leaves out a natural number of 128 bits, or `-1`. -/
lemma exists_not_contained (outer : IntType) :
    (∃ m : ℕ, m < 2 ^ 128 ∧ ¬ outer.Contains m) ∨ ¬ outer.Contains (-1) := by
  cases hsigned : outer.signed with
  | false =>
    right
    rw [contains_of_unsigned hsigned]
    omega
  | true =>
    left
    refine ⟨2 ^ 128 - 1, by omega, fun h => ?_⟩
    have := (fitsI128_of_contains hsigned h).2
    unfold i128Max at this
    omega

/-- A type that is nowhere read as a floating-point type. -/
def NotFloat (scope : ComptimeScope) (ty : TypeExpr) : Prop :=
  ∀ k id, (resolveComptimeType scope)^[k] ty = .name id → floatWidth id.text = none

variable (floats) in
lemma hostContextualValue_unchecked (v : ComptimeValue) (hinfo : comptimeIntType ty = none)
    (hfloat : ∀ id, ty = .name id → floatWidth id.text = none) :
    hostContextualValue floats v ty = some (.value v) := by
  unfold hostContextualValue
  rw [hinfo]
  cases ty with
  | name id =>
    simp only [hfloat id rfl, Option.isSome_none, Bool.false_eq_true, if_false]
  | _ => rfl

variable (floats) in
/-- **A type that is read too wide, or not as an integer type, lets an integer out of its range
pass**. -/
lemma exists_out_of_range (hfloat : NotFloat scope ty) {k : ℕ}
    (h : ¬ ∃ inner, comptimeIntType ((resolveComptimeType scope)^[k] ty) = some inner ∧
      inner.Within outer) :
    ∃ expr n, IsConstant floats scope expr n ∧ ¬ outer.Contains n ∧
      hostContextualValue floats (comptimeIntegerValue n) ((resolveComptimeType scope)^[k] ty) =
        some (.value (comptimeIntegerValue n)) := by
  cases hinfo : comptimeIntType ((resolveComptimeType scope)^[k] ty) with
  | none =>
    have hpass := fun n => hostContextualValue_unchecked floats (comptimeIntegerValue n) hinfo
      (hfloat k)
    rcases exists_not_contained outer with ⟨m, hm, hout⟩ | hout
    · exact ⟨_, m, isConstant_literal hm, hout, hpass m⟩
    · exact ⟨_, -1, isConstant_minusOne, hout, hpass (-1)⟩
  | some inner =>
    have hnot : ¬ inner.Within outer := fun hwithin => h ⟨inner, hinfo, hwithin⟩
    rcases exists_outside hnot with ⟨m, hm, hin, hout⟩ | ⟨hin, hout⟩
    · exact ⟨_, m, isConstant_literal hm, hout, hostContextualValue_of_contains floats hinfo hin⟩
    · exact ⟨_, -1, isConstant_minusOne, hout, hostContextualValue_of_contains floats hinfo hin⟩

lemma inRange_integerValue (info : IntType) (n : ℤ) :
    InRange info (comptimeIntegerValue n) ↔ info.Contains n := by
  unfold comptimeIntegerValue
  split_ifs with hle
  · exact Iff.rfl
  · have hcast : (n.toNat : ℤ) = n := by
      unfold i128Max at hle
      omega
    show info.Contains n.toNat ↔ _
    rw [hcast]

end Constants

/-! ## Stored values -/

/-- The folder keeps to the range of an integer type wherever it folds or stores a value at it: an
expression, a declaration, a returned value, an assigned one, and an argument of a call. -/
structure KeepsRange (floats : FloatHost) (scope : ComptimeScope) (ty : TypeExpr)
    (info : IntType) : Prop where
  expression : ∀ n expr v,
    ((folders floats n).foldComptimeExprExpected scope expr ty).ending = .done (.value v) →
      InRange info v
  declared : ∀ n name init scope' v,
    (foldLocal (folders floats n) scope [name] (some ty) (some init)).ending =
      .done (scope', .fallthrough) → scope'.bindings name.text = some v → InRange info v
  returned : ∀ n expr v, scope.returnType = some ty →
    (foldReturn (folders floats n) scope (some expr)).ending = .done (.value v) → InRange info v
  assigned : ∀ n target valueExpr scope' root steps u v,
    foldingDepth scope (sizeOf target) ≤ n →
    (comptimeExprType scope target).ending = .done (some ty) →
    (foldComptimeAssign (folders floats n) scope target valueExpr).ending = .done (scope', .ok) →
    PlaceAt floats scope target root steps → scope'.bindings root = some u →
    valueTree.read u steps = .ok v → InRange info v
  argument : ∀ n calleeScope param arg rest result,
    isComptimeTypeParam param = false → resolveComptimeType calleeScope param.ty = ty →
    (bindArguments (folders floats n) scope calleeScope ((param, arg) :: rest)).ending =
      .done (.ok result) →
    ∃ v, InRange info v ∧ (bindArguments (folders floats n) scope
      ((calleeScope.bind param.name.text v).bindTypeInfo param.name.text ty) rest).ending =
        .done (.ok result)

section Stored

variable {floats : FloatHost} {scope : ComptimeScope} {ty : TypeExpr} {info : IntType}

variable {n : ℕ} {v : ComptimeValue}

lemma inRange_of_reads (h : ReadsWithin scope ty info) {expr : Expr}
    (hrun : ((folders floats n).foldComptimeExprExpected scope expr ty).ending =
      .done (.value v)) : InRange info v :=
  Fits.inRange (foldComptimeExprExpected_fits h hrun)

lemma declared_inRange (h : ReadsWithin scope ty info) {name : Ident} {init : Expr}
    {scope' : ComptimeScope}
    (hrun : (foldLocal (folders floats n) scope [name] (some ty) (some init)).ending =
      .done (scope', .fallthrough)) (hv : scope'.bindings name.text = some v) :
    InRange info v := by
  unfold foldLocal at hrun
  split at hrun
  · rename_i heq heq'
    cases heq
    cases hrun
    simp only [bindings_bindTypeInfo, bindings_bind, put_self, Option.some.injEq] at hv
    subst hv
    trivial
  · rename_i _ heq heq'
    cases heq
    cases heq'
    obtain ⟨fold, hfold, hrun⟩ := bind_done_iff.mp hrun
    cases fold with
    | value w =>
      obtain ⟨bound, hbound, hrun⟩ := bind_done_iff.mp hrun
      cases hbound
      cases hrun
      simp only [bindings_bindTypeInfo, bindings_bind, put_self, Option.some.injEq] at hv
      subst hv
      exact inRange_of_reads h hfold
    | trap | unknown => cases hrun
  · cases hrun

lemma assigned_inRange (h : ReadsWithin scope ty info) {target valueExpr : Expr}
    {scope' : ComptimeScope} {root : String} {steps : List PathStep} {u : ComptimeValue}
    (hn : foldingDepth scope (sizeOf target) ≤ n)
    (hty : (comptimeExprType scope target).ending = .done (some ty))
    (hrun : (foldComptimeAssign (folders floats n) scope target valueExpr).ending =
      .done (scope', .ok)) (hplace : PlaceAt floats scope target root steps)
    (hroot : scope'.bindings root = some u) (hread : valueTree.read u steps = .ok v) :
    InRange info v := by
  obtain ⟨w, root', old, steps', updated, hw, hplace', hold, hwrite, rfl⟩ :=
    (foldComptimeAssign_ok_iff hn).mp hrun
  obtain rfl : root' = root := by
    have hname := hplace'.rootName
    rw [hplace.rootName] at hname
    exact (Option.some.inj hname).symm
  obtain rfl : steps' = steps := placeAt_unique hplace' hplace
  simp only [bindings_bind, put_self, Option.some.injEq] at hroot
  subst hroot
  rw [valueTree.read_write_self hwrite] at hread
  cases hread
  obtain ⟨known, hknown, hfold⟩ := bind_done_iff.mp hw
  rw [hty] at hknown
  cases hknown
  exact inRange_of_reads h hfold

lemma argument_inRange (h : ReadsWithin scope ty info) {calleeScope result : ComptimeScope}
    {param : Param} {arg : Expr} {rest : List (Param × Expr)}
    (hparam : isComptimeTypeParam param = false)
    (hty : resolveComptimeType calleeScope param.ty = ty)
    (hrun : (bindArguments (folders floats n) scope calleeScope ((param, arg) :: rest)).ending =
      .done (.ok result)) :
    ∃ v, InRange info v ∧ (bindArguments (folders floats n) scope
      ((calleeScope.bind param.name.text v).bindTypeInfo param.name.text ty) rest).ending =
        .done (.ok result) := by
  simp only [bindArguments, hparam, hty, Bool.false_eq_true, if_false] at hrun
  obtain ⟨fold, hfold, hrun⟩ := bind_done_iff.mp hrun
  cases fold with
  | value v => exact ⟨v, inRange_of_reads h hfold, hrun⟩
  | trap | unknown => cases hrun

/-- **The folder keeps to the range of a type exactly if it reads the type within that range** at
every time that it resolves it anew. -/
theorem keepsRange_iff (floats : FloatHost) (scope : ComptimeScope) (ty : TypeExpr)
    (info : IntType) (hfloat : NotFloat scope ty) :
    KeepsRange floats scope ty info ↔ ReadsWithin scope ty info := by
  constructor
  · intro h k hk
    by_contra hreads
    obtain ⟨expr, m, hconst, hout, hpass⟩ := exists_out_of_range floats hfloat hreads
    obtain ⟨j, rfl⟩ : ∃ j, k = j + 2 := ⟨k - 2, by omega⟩
    have hend := ending_grouped hconst j ty
    have hcheck : (contextualFold floats scope ((resolveComptimeType scope)^[j + 1] ty)
        (.value (comptimeIntegerValue m))).ending = .done (.value (comptimeIntegerValue m)) := by
      rw [Function.iterate_succ_apply'] at hpass
      exact (certain_done_iff (h := hostContextualValue_ne_none floats _ _)).mpr hpass
    have hrange := h.expression _ _ _ (hend.trans hcheck)
    exact hout ((inRange_integerValue info m).mp hrange)
  · intro h
    refine ⟨?_, ?_, ?_, ?_, ?_⟩
    · intro n expr v hrun
      exact inRange_of_reads h hrun
    · intro n name init scope' v hrun hv
      exact declared_inRange h hrun hv
    · intro n expr v hreturn hrun
      unfold foldReturn foldInitializer at hrun
      rw [hreturn] at hrun
      exact inRange_of_reads h hrun
    · intro n target valueExpr scope' root steps u v hn hty hrun hplace hroot hread
      exact assigned_inRange h hn hty hrun hplace hroot hread
    · intro n calleeScope param arg rest result hparam hty hrun
      exact argument_inRange h hparam hty hrun

/-- An integer type that every resolution leaves as it is. -/
lemma iterate_resolve_of_fixed (hfixed : resolveComptimeType scope ty = ty) (k : ℕ) :
    (resolveComptimeType scope)^[k] ty = ty := Function.iterate_fixed hfixed k

/-- The folder keeps to the range of `u8`. -/
theorem keepsRange_iff_u8 :
    KeepsRange default {} (typeNamed "u8") ⟨8, false, by decide⟩ ↔
      ReadsWithin {} (typeNamed "u8") ⟨8, false, by decide⟩ :=
  keepsRange_iff default {} (typeNamed "u8") ⟨8, false, by decide⟩ fun k id hname => by
    rw [iterate_resolve_of_fixed rfl] at hname
    cases hname
    decide

end Stored

/-! ## Aliases inside of a domain -/

/-- The integer type that the checker takes a type for: it follows aliases and qualifiers, inside of
`wrap` and `sat` too. -/
inductive DenotesInteger (aliasType : String → Option TypeExpr) : TypeExpr → IntType → Prop
  | name {id : Ident} {info : IntType} (halias : aliasType id.text = none)
    (hinfo : intTypeOfName id.text = some info) : DenotesInteger aliasType (.name id) info
  | alias {id : Ident} {target : TypeExpr} {info : IntType}
    (halias : aliasType id.text = some target)
    (htarget : DenotesInteger aliasType target info) : DenotesInteger aliasType (.name id) info
  | qualified {mutability : Syntax.Mutability} {child : TypeExpr} {info : IntType}
    (hchild : DenotesInteger aliasType child info) :
    DenotesInteger aliasType (.qualified mutability child) info
  | domain {base : Ident} {arg : TypeExpr} {info : IntType}
    (hdomain : (domainOfGeneric base).isSome)
    (harg : DenotesInteger aliasType arg info) : DenotesInteger aliasType (.generic base [arg]) info

/-- `type Byte = u8;`. -/
def byteAlias : String → Option TypeExpr := put (fun _ => none) "Byte" (typeNamed "u8")

/-- `wrap<Byte>`. -/
def wrappedByte : TypeExpr := .generic { text := "wrap" } [typeNamed "Byte"]

/-- The scope behind `let a: wrap<Byte> = 255;`. -/
def byteScope : ComptimeScope :=
  let scope : ComptimeScope :=
    { declarations := some
        { aliasType := byteAlias, globalType := fun _ => none, structFields := fun _ => none } }
  (scope.bind "a" (.int 255)).bindTypeInfo "a" wrappedByte

/-- `a + a`. -/
def doubled : Expr := .binary .add (.ident { text := "a" }) (.ident { text := "a" })

/-- The integer that a run folded to. -/
def foldedInteger : Ending ComptimeFold → Option ℤ
  | .done (.value (.int n)) => some n
  | _ => none

lemma ending_of_foldedInteger {ending : Ending ComptimeFold} {n : ℤ}
    (h : foldedInteger ending = some n) : ending = .done (.value (.int n)) := by
  unfold foldedInteger at h
  split at h
  · cases h
    rfl
  · cases h

/-- **`a + a` folds to 510 at `wrap<Byte>`**, a type of eight bits. -/
theorem not_keepsRange_everywhere :
    ¬ ∀ (floats : FloatHost) (scope : ComptimeScope) (ty : TypeExpr) (info : IntType),
      DenotesInteger (moduleAliasType scope) ty info → KeepsRange floats scope ty info := by
  intro hkeeps
  have hbyte : DenotesInteger (moduleAliasType byteScope) wrappedByte ⟨8, false, by decide⟩ :=
    .domain rfl (.alias rfl (.name rfl rfl))
  have hfolded : foldedInteger ((folders default 3).foldComptimeExprExpected byteScope doubled
      wrappedByte).ending = some 510 := by
    decide +kernel
  have hrange := (hkeeps default byteScope wrappedByte _ hbyte).expression 3 doubled (.int 510)
    (ending_of_foldedInteger hfolded)
  have hcontains : IntType.Contains ⟨8, false, by decide⟩ 510 := hrange
  exact absurd hcontains (by decide)

end ModernC.Comptime
