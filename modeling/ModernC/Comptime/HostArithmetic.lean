import Mathlib.Tactic.Positivity
import ModernC.Eval.IntegerFold

/-!
# Integer folding with the operations of the host

The integer operators of `eval.zig` once more, with every operation of the host that can stop the
compiler: an `i128` negation or subtraction that overflows, an `@intCast` that does not fit.  None
stands for a stopped host.  Each of them has the result of its unguarded version, but the negation
of the least `i128` in a narrower type and one saturating shift.
-/

namespace ModernC.Comptime

open Eval

/-! ## Operations that can stop the host -/

/-- `-n` on `i128`, which overflows at its least value. -/
def negI128 (n : ℤ) : Option ℤ := if n = i128Min then none else some (-n)

/-- `m - n` on `i128`. -/
def subI128 (m n : ℤ) : Option ℤ := if fitsI128 (m - n) then some (m - n) else none

/-- `m - n` on an unsigned type. -/
def subUnsigned (m n : ℕ) : Option ℕ := if n ≤ m then some (m - n) else none

/-- `@intCast` to the shift amount of a 128-bit integer. -/
def shiftAmount (count : ℤ) : Option ℕ :=
  if 0 ≤ count ∧ count < 128 then some count.toNat else none

/-- `@intCast` from `i128` to `u128`. -/
def castU128 (n : ℤ) : Option ℕ := if 0 ≤ n then some n.toNat else none

/-- `@intCast` from `u128` to `i128`. -/
def castI128 (m : ℕ) : Option ℤ := if (m : ℤ) ≤ i128Max then some m else none

/-- `@rem` on `i128`. -/
def remI128 (l r : ℤ) : Option ℤ :=
  if r = 0 ∨ l = i128Min ∧ r = -1 then none else some (l.tmod r)

/-- `@as(i128, 1) << bits`: the bit of the sign makes a negative number. -/
def oneShiftedI128 (bits : ℤ) : Option ℤ :=
  (shiftAmount bits).map fun amount => bitCastToI128 (2 ^ amount)

/-- `(@as(u128, 1) << bits) - 1`. -/
def onesU128 (bits : ℤ) : Option ℕ :=
  (shiftAmount bits).bind fun amount => subUnsigned (2 ^ amount) 1

/-- The mask of the low `bits` bits. -/
def hostMask (bits : ℕ) : Option ℕ := if bits == 128 then some u128Max else onesU128 bits

/-- The widths of the integer types. -/
def supportedWidths : List ℕ := [8, 16, 32, 64, 128]

/-! ## Domain rules and negation -/

/-- `comptimeIntFromBits` on the host. -/
def hostIntFromBits (raw bits : ℕ) (signed : Bool) : Option (Option ℤ) :=
  if bits == 0 || decide (128 < bits) then some none
  else do
    let value := raw &&& (← hostMask bits)
    let top ← shiftAmount (bits - 1)
    if signed && (value >>> top) &&& 1 == 1 then
      if bits == 128 then some (some (bitCastToI128 value))
      else some (some (bitCastToI128 (value ||| complement128 (← hostMask bits))))
    else some (if (value : ℤ) ≤ i128Max then some value else none)

/-- `applyDomain` on the host. -/
def hostApplyDomain (dw : DomainWidth) (raw : ℤ) : Option ComptimeFold :=
  if 128 ≤ dw.bits then some (.value (.int raw))
  else do
    let limit ← oneShiftedI128 (if dw.signed then dw.bits - 1 else dw.bits)
    let max ← subI128 limit 1
    let min ← if dw.signed then negI128 limit else some 0
    match dw.domain with
    | .checked => some (if raw < min ∨ max < raw then .trap else .value (.int raw))
    | .sat => some (.value (.int (if raw < min then min else if max < raw then max else raw)))
    | .wrap =>
      let mask ← onesU128 dw.bits
      let m := bitCastToU128 raw &&& mask
      if dw.signed && (m >>> (← shiftAmount (dw.bits - 1))) &&& 1 == 1 then
        some (.value (.int (bitCastToI128 (m ||| complement128 mask))))
      else some (.value (.int (← castI128 m)))

/-- `domainArith` on the host. -/
def hostDomainArith (dw : Option DomainWidth) (raw : ℤ) : Option ComptimeFold :=
  match dw with
  | some d => hostApplyDomain d raw
  | none => some (.value (.int raw))

/-- `signedOverflowResult` on the host. -/
def hostOverflowResult (dw : Option DomainWidth) (wrapped : ℤ)
    (overflowed saturateToMax : Bool) : Option ComptimeFold :=
  if !overflowed then hostDomainArith dw wrapped
  else
    match dw with
    | none => some .unknown
    | some d =>
      match d.domain with
      | .checked => some .trap
      | .wrap => some (.value (.int wrapped))
      | .sat => some (.value (.int (if saturateToMax then i128Max else i128Min)))

/-- The least value of a signed type, as the negations compute it. -/
def hostSignedMin (bits : ℕ) : Option ℤ :=
  if bits == 128 then some i128Min else (oneShiftedI128 (bits - 1)).bind negI128

/-- The greatest value of a signed type. -/
def hostSignedMax (bits : ℕ) : Option ℤ :=
  if bits == 128 then some i128Max else (oneShiftedI128 (bits - 1)).bind (subI128 · 1)

/-- A value from the bits of a signed integer. -/
def signedValue : Option ℤ → ComptimeFold
  | some n => .value (.int n)
  | none => .unknown

/-- `foldComptimeUnsignedNeg` on the host. -/
def hostUnsignedNeg (dw : Option DomainWidth) (value : ℕ) : Option ComptimeFold :=
  match dw with
  | none =>
    if value == 2 ^ 127 then some (.value (.int i128Min))
    else if (value : ℤ) ≤ i128Max then do
      some (.value (.int (← negI128 (← castI128 value))))
    else some .unknown
  | some d =>
    if d.signed then do
      let limit := 2 ^ (← shiftAmount (d.bits - 1))
      if limit < value then
        match d.domain with
        | .checked => some .trap
        | .wrap => do
          let raw := bitCastToU128 (-value) &&& (← hostMask d.bits)
          some (signedValue (← hostIntFromBits raw d.bits true))
        | .sat => do some (.value (.int (← hostSignedMin d.bits)))
      else if value == limit then do some (.value (.int (← hostSignedMin d.bits)))
      else do some (.value (.int (← negI128 (← castI128 value))))
    else if d.domain == .checked then
      some (if value == 0 then .value (.int 0) else .trap)
    else if d.domain == .sat then some (.value (.int 0))
    else do some (.value (comptimeUnsignedValue (bitCastToU128 (-value) &&& (← hostMask d.bits))))

/-- `foldComptimeIntegerNeg` on the host. -/
def hostIntegerNeg (dw : Option DomainWidth) (value : ℤ) : Option ComptimeFold :=
  match dw with
  | none => some (if value == i128Min then .unknown else .value (.int (-value)))
  | some d =>
    if !d.signed then hostUnsignedNeg (some d) (bitCastToU128 value)
    else do
      let min ← hostSignedMin d.bits
      let max ← hostSignedMax d.bits
      if value == min then
        match d.domain with
        | .checked => some .trap
        | .wrap => some (.value (.int min))
        | .sat => some (.value (.int max))
      else some (.value (.int (← negI128 value)))

/-! ## Binary operators -/

/-- The overflow rule of `unsignedOverflowResult`, with the mask at hand. -/
def hostWideUnsignedBinary (op : BinaryOp) (left right : ComptimeValue)
    (dw : Option DomainWidth) : Option ComptimeFold :=
  match comptimeNonnegative left, comptimeNonnegative right with
  | some l, some r => do
    let domain := (dw.map DomainWidth.domain).getD .checked
    let bits := (dw.map DomainWidth.bits).getD 128
    let mask ← hostMask bits
    match op with
    | .lt => some (.value (.boolean (decide (l < r))))
    | .le => some (.value (.boolean (decide (l ≤ r))))
    | .gt => some (.value (.boolean (decide (r < l))))
    | .ge => some (.value (.boolean (decide (r ≤ l))))
    | .add => some (unsignedOverflowResult domain mask (l + r))
    | .sub =>
      if r ≤ l then do some (.value (comptimeUnsignedValue ((← subUnsigned l r) &&& mask)))
      else
        match domain with
        | .checked => some .trap
        | .wrap => some (.value (comptimeUnsignedValue (bitCastToU128 ((l : ℤ) - r) &&& mask)))
        | .sat => some (.value (.int 0))
    | .mul => some (unsignedOverflowResult domain mask (l * r))
    | .div => some (if r == 0 then .trap else .value (comptimeUnsignedValue (l / r)))
    | .mod => some (if r == 0 then .trap else .value (comptimeUnsignedValue (l % r)))
    | .bitAnd => some (.value (comptimeUnsignedValue (l &&& r)))
    | .bitOr => some (.value (comptimeUnsignedValue (l ||| r)))
    | .bitXor => some (.value (comptimeUnsignedValue (l ^^^ r)))
    | .shl =>
      if bits ≤ r then some .trap
      else do
        let amount ← shiftAmount r
        let shifted := (l <<< amount) % 2 ^ 128
        if !(decide (u128Max < l <<< amount) || shifted &&& complement128 mask != 0) then
          some (.value (comptimeUnsignedValue (shifted &&& mask)))
        else
          match domain with
          | .checked => some .trap
          | .wrap => some (.value (comptimeUnsignedValue (shifted &&& mask)))
          | .sat => some (.value (comptimeUnsignedValue mask))
    | .shr =>
      if bits ≤ r then some .trap
      else do some (.value (comptimeUnsignedValue (l >>> (← shiftAmount r))))
    | .eq => some (.value (.boolean (l == r)))
    | .ne => some (.value (.boolean (l != r)))
    | .logicalAnd | .logicalOr => none
  | _, _ => some .unknown

/-- What a negative number saturates at in a shift to the left. -/
def hostSaturatedMin (d : DomainWidth) : Option ℤ :=
  if d.signed then (oneShiftedI128 (d.bits - 1)).bind negI128 else some 0

/-- What a shift to the left is bounded by. -/
def hostShiftMax (d : DomainWidth) : Option ℕ :=
  if d.signed then onesU128 (d.bits - 1) else hostMask d.bits

/-- `foldSignedShift` on the host. -/
def hostSignedShift (op : BinaryOp) (value count : ℤ) (dw : Option DomainWidth) :
    Option ComptimeFold :=
  let bits := (dw.map DomainWidth.bits).getD 128
  if count < 0 ∨ (bits : ℤ) ≤ count then some .trap
  else do
    let amount ← shiftAmount count
    if op == .shr then hostDomainArith dw (value >>> amount)
    else
      match dw with
      | none =>
        if 0 ≤ value then do
          let magnitude ← castU128 value
          some (if u128Max < magnitude <<< amount then .unknown
            else .value (comptimeUnsignedValue (magnitude <<< amount)))
        else some (if !fitsI128 (value * 2 ^ amount) then .unknown
          else .value (.int (value * 2 ^ amount)))
      | some d =>
        if d.domain == .wrap then do
          let raw := ((bitCastToU128 value <<< amount) % 2 ^ 128) &&& (← hostMask bits)
          if d.signed then some (signedValue (← hostIntFromBits raw bits true))
          else some (.value (comptimeUnsignedValue raw))
        else if value < 0 then
          if d.domain == .sat then do some (.value (.int (← hostSaturatedMin d)))
          else some .trap
        else do
          let magnitude ← castU128 value
          let shifted := (magnitude <<< amount) % 2 ^ 128
          let max ← hostShiftMax d
          if u128Max < magnitude <<< amount ∨ max < shifted then
            some (match d.domain with
              | .checked => .trap
              | _ => .value (comptimeUnsignedValue max))
          else some (.value (comptimeUnsignedValue shifted))

/-- `add`, `sub` and `mul` on the host. -/
def hostSignedExact (dw : Option DomainWidth) (exact : ℤ) (saturateToMax : Bool) :
    Option ComptimeFold :=
  if (dw.map DomainWidth.bits) == some 128 then
    hostOverflowResult dw (bitCastToI128 (bitCastToU128 exact)) (!fitsI128 exact) saturateToMax
  else if fitsI128 exact then hostDomainArith dw exact
  else some .unknown

/-- `foldSignedBinary` on the host.  Equality and the logical operators are folded before. -/
def hostSignedBinary (op : BinaryOp) (l r : ℤ) (dw : Option DomainWidth) : Option ComptimeFold :=
  match op with
  | .add => hostSignedExact dw (l + r) (decide (0 ≤ l) && decide (0 ≤ r))
  | .sub => hostSignedExact dw (l - r) (decide (0 ≤ l) && decide (r < 0))
  | .mul => hostSignedExact dw (l * r) (decide (l < 0) == decide (r < 0))
  | .div =>
    if r == 0 then some .trap
    else if (dw.map DomainWidth.bits) == some 128 && l == i128Min && r == -1 then
      match dw.map DomainWidth.domain with
      | some .wrap => some (.value (.int i128Min))
      | some .sat => some (.value (.int i128Max))
      | _ => some .trap
    else if fitsI128 (l.tdiv r) then hostDomainArith dw (l.tdiv r)
    else some .unknown
  | .mod =>
    if r == 0 then some .trap
    else if l == i128Min && r == -1 then
      match dw.map DomainWidth.domain with
      | some .checked => some .trap
      | some _ => some (.value (.int 0))
      | none => some .unknown
    else do hostDomainArith dw (← remI128 l r)
  | .shl | .shr => hostSignedShift op l r dw
  | .eq | .ne | .logicalAnd | .logicalOr => none
  | .lt | .le | .gt | .ge | .bitAnd | .bitOr | .bitXor => some (foldSignedBinary op l r dw)

/-! ## Results on the host -/

variable {bits : ℕ} {n : ℤ}

/-- The widths of the integer types, one by one. -/
lemma width_cases (h : bits ∈ supportedWidths) :
    bits = 8 ∨ bits = 16 ∨ bits = 32 ∨ bits = 64 ∨ bits = 128 := by
  simpa [supportedWidths] using h

lemma shiftAmount_of_lt {n : ℕ} (h : n < 128) : shiftAmount n = some n := by
  unfold shiftAmount
  rw [if_pos ⟨by omega, by omega⟩, Int.toNat_natCast]

lemma onesU128_of_lt {n : ℕ} (h : n < 128) : onesU128 n = some (2 ^ n - 1) := by
  unfold onesU128 subUnsigned
  rw [shiftAmount_of_lt h, Option.bind_some, if_pos Nat.one_le_two_pow]

lemma hostMask_eq (h : bits ≤ 128) : hostMask bits = some (lowMask bits) := by
  unfold hostMask lowMask
  by_cases hwide : bits = 128
  · simp [hwide]
  · simp only [beq_iff_eq, hwide, if_false]
    exact onesU128_of_lt (by omega)

lemma shiftAmount_pred (hpos : 0 < bits) (h : bits ≤ 128) :
    shiftAmount (bits - 1) = some (bits - 1) := by
  rw [← Int.natCast_pred_of_pos hpos]
  exact shiftAmount_of_lt (by omega)

lemma hostIntFromBits_eq (raw bits : ℕ) (signed : Bool) :
    hostIntFromBits raw bits signed = some (comptimeIntFromBits raw bits signed) := by
  unfold hostIntFromBits comptimeIntFromBits
  by_cases hwidth : bits == 0 || decide (128 < bits)
  · simp [hwidth]
  · simp only [Bool.or_eq_true, beq_iff_eq, decide_eq_true_eq, not_or, not_lt] at hwidth
    obtain ⟨hzero, hle⟩ := hwidth
    have hpos : 0 < bits := Nat.pos_of_ne_zero hzero
    simp only [hostMask_eq hle, shiftAmount_pred hpos hle, beq_iff_eq, hzero, Bool.or_eq_true,
      decide_eq_true_eq, Nat.not_lt.mpr hle, or_self, if_false, Option.bind_eq_bind,
      Option.bind_some]
    split_ifs <;> rfl

/-- A shifted one is positive below the bit of the sign. -/
lemma oneShiftedI128_of_lt {n : ℕ} (h : n < 127) : oneShiftedI128 n = some (2 ^ n) := by
  have hlt : 2 ^ n < 2 ^ 127 := Nat.pow_lt_pow_right (by omega) h
  simp only [oneShiftedI128, shiftAmount_of_lt (show n < 128 by omega), Option.map_some,
    bitCastToI128, if_pos hlt, Nat.cast_pow, Nat.cast_ofNat]

lemma two_pow_le_top {n : ℕ} (h : n < 127) : (2 : ℤ) ^ n ≤ 2 ^ 126 :=
  pow_le_pow_right₀ (by omega) (by omega)

lemma fitsI128_iff : fitsI128 n = true ↔ i128Min ≤ n ∧ n ≤ i128Max := by
  simp [fitsI128]

lemma negI128_of_nonneg (h : 0 ≤ n) : negI128 n = some (-n) :=
  if_neg (by unfold i128Min; omega)

lemma subI128_two_pow {n : ℕ} (h : n < 127) : subI128 (2 ^ n) 1 = some (2 ^ n - 1) := by
  have hle := two_pow_le_top h
  have hpos : (0 : ℤ) < 2 ^ n := by positivity
  exact if_pos (fitsI128_iff.mpr ⟨by unfold i128Min; omega, by unfold i128Max; omega⟩)

/-- The widths below 128 leave room for their own bounds. -/
lemma narrow_of_supported (h : bits ∈ supportedWidths) (hwide : bits ≠ 128) :
    8 ≤ bits ∧ bits ≤ 64 := by
  have := width_cases h
  omega

lemma pos_of_supported (h : bits ∈ supportedWidths) : 8 ≤ bits ∧ bits ≤ 128 := by
  have := width_cases h
  omega

lemma oneShiftedI128_pred (hpos : 0 < bits) (h : bits < 128) :
    oneShiftedI128 (bits - 1) = some (2 ^ (bits - 1)) := by
  rw [← Int.natCast_pred_of_pos hpos]
  exact oneShiftedI128_of_lt (by omega)

lemma hostSignedMin_eq (h : bits ∈ supportedWidths) :
    hostSignedMin bits = some (signedMin bits) := by
  unfold hostSignedMin signedMin
  by_cases hwide : bits = 128
  · simp [hwide]
  · have hnarrow := narrow_of_supported h hwide
    simp only [beq_iff_eq, hwide, if_false, oneShiftedI128_pred (show 0 < bits by omega)
      (show bits < 128 by omega), Option.bind_some]
    exact negI128_of_nonneg (by positivity)

lemma hostSignedMax_eq (h : bits ∈ supportedWidths) :
    hostSignedMax bits = some (signedMax bits) := by
  unfold hostSignedMax signedMax
  by_cases hwide : bits = 128
  · simp [hwide]
  · have hnarrow := narrow_of_supported h hwide
    simp only [beq_iff_eq, hwide, if_false, oneShiftedI128_pred (show 0 < bits by omega)
      (show bits < 128 by omega), Option.bind_some]
    exact subI128_two_pow (by omega)

lemma castI128_of_lt {m : ℕ} (h : m < 2 ^ 127) : castI128 m = some (m : ℤ) :=
  if_pos (by unfold i128Max; omega)

lemma hostApplyDomain_eq {dw : DomainWidth} (h : dw.bits ∈ supportedWidths) (raw : ℤ) :
    hostApplyDomain dw raw = some (applyDomain dw raw) := by
  unfold hostApplyDomain applyDomain
  by_cases hwide : 128 ≤ dw.bits
  · simp [hwide]
  · obtain ⟨hlow, hhigh⟩ := narrow_of_supported h (by omega)
    have hpow : 2 ^ dw.bits ≤ 2 ^ 127 := Nat.pow_le_pow_right (by omega) (by omega)
    have hmask : bitCastToU128 raw &&& (2 ^ dw.bits - 1) < 2 ^ 127 := by
      have hle : bitCastToU128 raw &&& (2 ^ dw.bits - 1) ≤ 2 ^ dw.bits - 1 := Nat.and_le_right
      have hpos : 0 < 2 ^ dw.bits := by positivity
      omega
    cases hsigned : dw.signed with
    | true =>
      simp only [hwide, if_false, if_true, oneShiftedI128_pred (show 0 < dw.bits by omega)
        (show dw.bits < 128 by omega), Option.bind_eq_bind, Option.bind_some,
        subI128_two_pow (show dw.bits - 1 < 127 by omega),
        negI128_of_nonneg (show (0 : ℤ) ≤ 2 ^ (dw.bits - 1) by positivity),
        onesU128_of_lt (show dw.bits < 128 by omega),
        shiftAmount_pred (show 0 < dw.bits by omega) (show dw.bits ≤ 128 by omega),
        castI128_of_lt hmask]
      cases dw.domain with
      | checked | sat => rfl
      | wrap => split_ifs <;> rfl
    | false =>
      simp only [hwide, if_false, oneShiftedI128_of_lt (show dw.bits < 127 by omega),
        Option.bind_eq_bind, Option.bind_some, Bool.false_eq_true,
        subI128_two_pow (show dw.bits < 127 by omega),
        onesU128_of_lt (show dw.bits < 128 by omega),
        shiftAmount_pred (show 0 < dw.bits by omega) (show dw.bits ≤ 128 by omega),
        castI128_of_lt hmask]
      cases dw.domain with
      | checked | sat => rfl
      | wrap => simp

/-- The widths of a domain, where there is one. -/
def Supported (dw : Option DomainWidth) : Prop := ∀ d ∈ dw, d.bits ∈ supportedWidths

variable {dw : Option DomainWidth}

lemma hostDomainArith_eq (h : Supported dw) (raw : ℤ) :
    hostDomainArith dw raw = some (domainArith dw raw) := by
  cases dw with
  | none => rfl
  | some d => exact hostApplyDomain_eq (h d rfl) raw

lemma hostOverflowResult_eq (h : Supported dw) (wrapped : ℤ) (overflowed saturateToMax : Bool) :
    hostOverflowResult dw wrapped overflowed saturateToMax =
      some (signedOverflowResult dw wrapped overflowed saturateToMax) := by
  unfold hostOverflowResult signedOverflowResult
  cases overflowed with
  | false => simpa using hostDomainArith_eq h wrapped
  | true =>
    cases dw with
    | none => rfl
    | some d => cases hdomain : d.domain <;> simp [hdomain]

lemma hostUnsignedNeg_none_eq (value : ℕ) :
    hostUnsignedNeg none value = some (foldComptimeUnsignedNeg none value) := by
  unfold hostUnsignedNeg foldComptimeUnsignedNeg
  simp only [beq_iff_eq]
  by_cases htop : value = 2 ^ 127
  · simp only [htop, if_true]
  · by_cases hle : (value : ℤ) ≤ i128Max
    · have hlt : value < 2 ^ 127 := by unfold i128Max at hle; omega
      simp only [htop, hle, if_false, if_true, castI128_of_lt hlt, negI128_of_nonneg value.cast_nonneg,
        Option.bind_eq_bind, Option.bind_some]
    · simp only [htop, hle, if_false]

variable {d : DomainWidth}

lemma hostUnsignedNeg_some_eq (h : d.bits ∈ supportedWidths) (value : ℕ) :
    hostUnsignedNeg (some d) value = some (foldComptimeUnsignedNeg (some d) value) := by
  obtain ⟨hlow, hhigh⟩ := pos_of_supported h
  obtain ⟨domain, bits, signed⟩ := d
  simp only at h hlow hhigh
  unfold hostUnsignedNeg foldComptimeUnsignedNeg
  cases signed with
  | true =>
    simp only [if_true, shiftAmount_pred (show 0 < bits by omega) hhigh, Option.bind_eq_bind,
      Option.bind_some, hostMask_eq hhigh, hostIntFromBits_eq, hostSignedMin_eq h, beq_iff_eq]
    by_cases hover : 2 ^ (bits - 1) < value
    · simp only [hover, if_true]
      cases domain with
      | checked => rfl
      | wrap => cases comptimeIntFromBits (bitCastToU128 (-value) &&& lowMask bits) bits true <;> rfl
      | sat => rfl
    · by_cases hlimit : value = 2 ^ (bits - 1)
      · subst hlimit
        simp only [lt_irrefl, if_true, if_false]
      · have hpow : 2 ^ (bits - 1) ≤ 2 ^ 127 := Nat.pow_le_pow_right (by omega) (by omega)
        have hlt : value < 2 ^ 127 := by omega
        simp only [hover, hlimit, if_false, castI128_of_lt hlt, negI128_of_nonneg value.cast_nonneg,
          Option.bind_some]
  | false =>
    simp only [hostMask_eq hhigh, Bool.false_eq_true, if_false, Option.bind_eq_bind,
      Option.bind_some]
    split_ifs <;> rfl

lemma hostUnsignedNeg_eq (h : Supported dw) (value : ℕ) :
    hostUnsignedNeg dw value = some (foldComptimeUnsignedNeg dw value) := by
  cases dw with
  | none => exact hostUnsignedNeg_none_eq value
  | some d => exact hostUnsignedNeg_some_eq (h d rfl) value

/-- **The negation that stops the host**: the least `i128`, negated in a narrower signed type. -/
def NegOverflows (dw : Option DomainWidth) (value : ℤ) : Prop :=
  ∃ d ∈ dw, d.signed = true ∧ d.bits ≠ 128 ∧ value = i128Min

lemma i128Min_lt_signedMin (h : bits ∈ supportedWidths) (hwide : bits ≠ 128) :
    i128Min < signedMin bits := by
  have hnarrow := narrow_of_supported h hwide
  have hle := two_pow_le_top (show bits - 1 < 127 by omega)
  simp only [signedMin, beq_iff_eq, hwide, if_false]
  unfold i128Min
  omega

variable {value : ℤ}

lemma hostIntegerNeg_eq (h : Supported dw) (hneg : ¬ NegOverflows dw value) :
    hostIntegerNeg dw value = some (foldComptimeIntegerNeg dw value) := by
  unfold hostIntegerNeg foldComptimeIntegerNeg
  cases dw with
  | none => rfl
  | some d =>
    obtain ⟨domain, bits, signed⟩ := d
    have hwidth : bits ∈ supportedWidths := h _ rfl
    cases signed with
    | false =>
      have heq := hostUnsignedNeg_some_eq (show (DomainWidth.mk domain bits false).bits ∈ _ from hwidth)
      exact heq _
    | true =>
      simp only [hostSignedMin_eq hwidth, hostSignedMax_eq hwidth, Option.bind_eq_bind,
        Option.bind_some, beq_iff_eq, Bool.not_true, Bool.false_eq_true, if_false]
      by_cases hmin : value = signedMin bits
      · simp only [hmin, if_true]
        cases domain <;> rfl
      · have hne : value ≠ i128Min := by
          rintro rfl
          by_cases hwide : bits = 128
          · exact hmin (by simp [signedMin, hwide])
          · exact hneg ⟨_, rfl, rfl, hwide, rfl⟩
        simp only [hmin, hne, negI128, if_false, Option.bind_some]

/-- The host is stopped by the negation, and by no other one. -/
lemma hostIntegerNeg_eq_none_iff (h : Supported dw) :
    hostIntegerNeg dw value = none ↔ NegOverflows dw value := by
  constructor
  · intro hnone
    by_contra hneg
    rw [hostIntegerNeg_eq h hneg] at hnone
    exact Option.some_ne_none _ hnone
  · rintro ⟨d, hd, hsigned, hwide, rfl⟩
    cases hd
    have hwidth : d.bits ∈ supportedWidths := h _ rfl
    have hne : i128Min ≠ signedMin d.bits := (i128Min_lt_signedMin hwidth hwide).ne
    simp only [hostIntegerNeg, hsigned, hostSignedMin_eq hwidth, hostSignedMax_eq hwidth,
      Option.bind_eq_bind, Option.bind_some, beq_iff_eq, hne, Bool.not_true, Bool.false_eq_true,
      if_false, if_true, negI128, Option.bind_none]

/-! ## Binary operators -/

/-- The width that an operator without a domain has is that of `i128`. -/
lemma width_le (h : Supported dw) :
    8 ≤ (dw.map DomainWidth.bits).getD 128 ∧ (dw.map DomainWidth.bits).getD 128 ≤ 128 := by
  cases dw with
  | none => exact ⟨by simp, by simp⟩
  | some d => exact pos_of_supported (h d rfl)

variable {op : BinaryOp}

lemma hostWideUnsignedBinary_eq
    (left right : ComptimeValue) (h : Supported dw) (hand : op ≠ .logicalAnd)
    (hor : op ≠ .logicalOr) :
    hostWideUnsignedBinary op left right dw = some (foldWideUnsignedBinary op left right dw) := by
  unfold hostWideUnsignedBinary foldWideUnsignedBinary
  obtain ⟨hlow, hhigh⟩ := width_le h
  cases comptimeNonnegative left with
  | none => rfl
  | some l =>
    cases comptimeNonnegative right with
    | none => rfl
    | some r =>
      simp only [hostMask_eq hhigh, Option.bind_eq_bind, Option.bind_some]
      generalize (dw.map DomainWidth.bits).getD 128 = bits at *
      generalize (dw.map DomainWidth.domain).getD .checked = domain
      cases op with
      | logicalAnd => exact absurd rfl hand
      | logicalOr => exact absurd rfl hor
      | sub =>
        by_cases hle : r ≤ l
        · simp only [hle, if_true, subUnsigned, Option.bind_some]
        · simp only [hle, if_false]
          cases domain <;> rfl
      | shl =>
        by_cases hle : bits ≤ r
        · simp only [hle, if_true]
        · simp only [hle, if_false, shiftAmount_of_lt (show r < 128 by omega), Option.bind_some]
          split_ifs
          · rfl
          · cases domain <;> rfl
      | shr =>
        by_cases hle : bits ≤ r
        · simp only [hle, if_true]
        · simp only [hle, if_false, shiftAmount_of_lt (show r < 128 by omega), Option.bind_some]
      | _ => rfl

/-- **The shift that stops the host**: to the left, of a negative number that saturates at the
least `i128`. -/
def ShiftOverflows (op : BinaryOp) (value count : ℤ) (dw : Option DomainWidth) : Prop :=
  op ≠ .shr ∧ value < 0 ∧ 0 ≤ count ∧ count < 128 ∧
    ∃ d ∈ dw, d.domain = .sat ∧ d.signed = true ∧ d.bits = 128

lemma castU128_of_nonneg (h : 0 ≤ n) : castU128 n = some n.toNat := if_pos h

variable {count : ℤ}

lemma shiftAmount_eq (h : 0 ≤ count) (h' : count < 128) :
    shiftAmount count = some count.toNat := if_pos ⟨h, h'⟩

/-- A shift that saturates a negative number at its least value. -/
lemma saturatedMin_eq (h : d.bits ∈ supportedWidths) (hneg : ¬ (d.signed = true ∧ d.bits = 128)) :
    hostSaturatedMin d = some (if d.signed then -2 ^ (d.bits - 1) else 0) := by
  unfold hostSaturatedMin
  cases hsigned : d.signed with
  | false => rfl
  | true =>
    have hwide : d.bits ≠ 128 := fun hwide => hneg ⟨hsigned, hwide⟩
    have hnarrow := narrow_of_supported h hwide
    simp only [if_true, oneShiftedI128_pred (show 0 < d.bits by omega)
      (show d.bits < 128 by omega), Option.bind_some]
    exact negI128_of_nonneg (by positivity)

lemma saturatedMax_eq (h : d.bits ∈ supportedWidths) :
    hostShiftMax d = some (if d.signed then 2 ^ (d.bits - 1) - 1 else lowMask d.bits) := by
  unfold hostShiftMax
  obtain ⟨hlow, hhigh⟩ := pos_of_supported h
  cases d.signed with
  | false => exact hostMask_eq hhigh
  | true =>
    simp only [if_true]
    rw [← Int.natCast_pred_of_pos (show 0 < d.bits by omega)]
    exact onesU128_of_lt (by omega)

lemma hostSignedShift_eq (h : Supported dw) (hshift : ¬ ShiftOverflows op value count dw) :
    hostSignedShift op value count dw = some (foldSignedShift op value count dw) := by
  unfold hostSignedShift foldSignedShift
  obtain ⟨hlow, hhigh⟩ := width_le h
  by_cases hcount : count < 0 ∨ ((dw.map DomainWidth.bits).getD 128 : ℤ) ≤ count
  · simp only [hcount, if_true]
  · have hnonneg : 0 ≤ count := by omega
    have hlt : count < 128 := by omega
    simp only [hcount, if_false, shiftAmount_eq hnonneg hlt, Option.bind_eq_bind,
      Option.bind_some]
    by_cases hshr : op = .shr
    · simp only [hshr, beq_self_eq_true, if_true]
      exact hostDomainArith_eq h _
    · simp only [beq_iff_eq, hshr, if_false]
      cases dw with
      | none =>
        by_cases hvalue : 0 ≤ value
        · simp only [hvalue, if_true, castU128_of_nonneg hvalue, Option.bind_some]
        · simp only [hvalue, if_false]
      | some d =>
        have hwidth := h d rfl
        simp only [Option.map_some, Option.getD_some] at hhigh ⊢
        by_cases hwrap : d.domain = .wrap
        · simp only [hwrap, if_true, hostMask_eq hhigh, Option.bind_some, hostIntFromBits_eq]
          cases d.signed with
          | false => rfl
          | true =>
            simp only [if_true]
            cases comptimeIntFromBits _ d.bits true <;> rfl
        · simp only [hwrap, if_false]
          by_cases hvalue : value < 0
          · simp only [hvalue, if_true]
            by_cases hsat : d.domain = .sat
            · have hneg : ¬ (d.signed = true ∧ d.bits = 128) := fun hwide =>
                hshift ⟨hshr, hvalue, hnonneg, hlt, d, rfl, hsat, hwide⟩
              simp only [hsat, if_true, saturatedMin_eq hwidth hneg, Option.bind_some]
            · simp only [hsat, if_false]
          · simp only [hvalue, if_false, castU128_of_nonneg (show 0 ≤ value by omega),
              Option.bind_some, saturatedMax_eq hwidth]
            split_ifs <;> rfl

/-- The host is stopped by that shift, and by no other one. -/
lemma hostSignedShift_eq_none_iff (h : Supported dw) :
    hostSignedShift op value count dw = none ↔ ShiftOverflows op value count dw := by
  constructor
  · intro hnone
    by_contra hshift
    rw [hostSignedShift_eq h hshift] at hnone
    exact Option.some_ne_none _ hnone
  · rintro ⟨hshr, hvalue, hnonneg, hlt, ⟨domain, bits, signed⟩, hd, hsat, hsigned, hbits⟩
    cases hd
    subst hsat hsigned hbits
    have hcount : ¬ (count < 0 ∨ ((128 : ℕ) : ℤ) ≤ count) := by omega
    have hnone : hostSaturatedMin ⟨.sat, 128, true⟩ = none := by decide
    simp only [hostSignedShift, Option.map_some, Option.getD_some, hcount, if_false,
      shiftAmount_eq hnonneg hlt, Option.bind_eq_bind, Option.bind_some, beq_iff_eq, hshr,
      reduceCtorEq, hvalue, if_true, hnone, Option.bind_none]

lemma remI128_eq {l r : ℤ} (hzero : r ≠ 0) (hmin : ¬ (l = i128Min ∧ r = -1)) :
    remI128 l r = some (l.tmod r) :=
  if_neg (not_or.mpr ⟨hzero, hmin⟩)

lemma hostSignedExact_eq (h : Supported dw) (exact : ℤ) (saturateToMax : Bool) :
    hostSignedExact dw exact saturateToMax = some (foldSignedExact dw exact saturateToMax) := by
  unfold hostSignedExact foldSignedExact
  rw [hostOverflowResult_eq h, hostDomainArith_eq h]
  split_ifs <;> rfl

/-- The operators that are folded as signed ones, but for the shifts. -/
def IsPlainSigned : BinaryOp → Prop
  | .eq | .ne | .logicalAnd | .logicalOr | .shl | .shr => False
  | _ => True

lemma hostSignedBinary_eq (l r : ℤ) (h : Supported dw) (hop : IsPlainSigned op) :
    hostSignedBinary op l r dw = some (foldSignedBinary op l r dw) := by
  cases op with
  | add | sub | mul => exact hostSignedExact_eq h _ _
  | div =>
    simp only [hostSignedBinary, foldSignedBinary, hostDomainArith_eq h]
    split_ifs
    · rfl
    · cases dw.map DomainWidth.domain with
      | none => rfl
      | some domain => cases domain <;> rfl
    · rfl
    · rfl
  | mod =>
    simp only [hostSignedBinary, foldSignedBinary]
    by_cases hzero : r = 0
    · simp only [hzero, beq_self_eq_true, if_true]
    · by_cases hmin : l = i128Min ∧ r = -1
      · simp only [hmin, beq_self_eq_true, Bool.and_self, if_true]
        cases dw.map DomainWidth.domain with
        | none => rfl
        | some domain => cases domain <;> rfl
      · simp only [beq_iff_eq, hzero, if_false, Bool.and_eq_true, hmin, remI128_eq hzero hmin,
          Option.bind_eq_bind, Option.bind_some, hostDomainArith_eq h]
  | shl | shr | eq | ne | logicalAnd | logicalOr => exact hop.elim
  | _ => rfl

end ModernC.Comptime
