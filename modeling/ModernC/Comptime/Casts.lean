import ModernC.Comptime.Scope

/-!
# Conversions of comptime values

The casts of `eval.zig` and the check of a value against an expected type, with the guarded
operations of the host as runs.
-/

namespace ModernC.Comptime

open Eval Framework
open Syntax (Expr TypeExpr)

/-- The floating-point operations and conversions of the host.  A width is 32 or 64 bits. -/
structure FloatHost extends FloatArithmetic where
  parseFloat : String → Option ComptimeFloat
  ofInteger : (width : ℕ) → ℤ → ComptimeFloat
  convert : (width : ℕ) → ComptimeFloat → ComptimeFloat
  /-- `@trunc`, of a finite number. -/
  truncated : ComptimeFloat → Option ℤ

/-- A host whose floats are no more than their bits. -/
instance : Inhabited FloatHost where
  default :=
    { equal := fun x y => x == y
      less := fun _ _ => false
      lessEqual := fun _ _ => false
      add := fun x _ => x
      sub := fun x _ => x
      mul := fun x _ => x
      div := fun x _ => x
      parseFloat := fun _ => none
      ofInteger := fun width n => { bits := bitCastToU128 n, width }
      convert := fun width x => { x with width }
      truncated := fun x => some x.bits }

/-! ## Operators as runs -/

/-- The domain that an operation is evaluated in. -/
def domainOf (dw : Option KnownDomain) : Option DomainWidth := dw.map Subtype.val

lemma supported_domainOf (dw : Option KnownDomain) : Supported (domainOf dw) := by
  intro d hd
  obtain ⟨known, -, rfl⟩ := Option.map_eq_some_iff.mp hd
  exact known.property

lemma ne_none_of_eq_some {α : Type} {o : Option α} {a : α} (h : o = some a) : o ≠ none := by
  rw [h]
  exact Option.some_ne_none a

def foldComptimeIntegerNeg (dw : Option KnownDomain) (value : ℤ) : Run ComptimeFold :=
  .attempt (.negation (domainOf dw) value) (hostIntegerNeg (domainOf dw) value) <| by
    rw [hostIntegerNeg_eq_none_iff (supported_domainOf dw)]
    exact not_not.symm

def foldComptimeUnsignedNeg (dw : Option KnownDomain) (value : ℕ) : Run ComptimeFold :=
  .certain (hostUnsignedNeg (domainOf dw) value) <|
    ne_none_of_eq_some (hostUnsignedNeg_eq (supported_domainOf dw) value)

/-- The operators that are folded before their operands. -/
def IsLogical (op : BinaryOp) : Prop := op = .logicalAnd ∨ op = .logicalOr

instance (op : BinaryOp) : Decidable (IsLogical op) := inferInstanceAs (Decidable (_ ∨ _))

def IsEquality (op : BinaryOp) : Prop := op = .eq ∨ op = .ne

instance (op : BinaryOp) : Decidable (IsEquality op) := inferInstanceAs (Decidable (_ ∨ _))

def IsShift (op : BinaryOp) : Prop := op = .shl ∨ op = .shr

instance (op : BinaryOp) : Decidable (IsShift op) := inferInstanceAs (Decidable (_ ∨ _))

lemma isPlainSigned {op : BinaryOp} (hlogical : ¬ IsLogical op) (heq : ¬ IsEquality op)
    (hshift : ¬ IsShift op) : IsPlainSigned op := by
  cases op with
  | logicalAnd => exact absurd (.inl rfl) hlogical
  | logicalOr => exact absurd (.inr rfl) hlogical
  | eq => exact absurd (.inl rfl) heq
  | ne => exact absurd (.inr rfl) heq
  | shl => exact absurd (.inl rfl) hshift
  | shr => exact absurd (.inr rfl) hshift
  | _ => trivial

def foldWideUnsignedBinary (op : BinaryOp) (hlogical : ¬ IsLogical op)
    (left right : ComptimeValue) (dw : Option KnownDomain) : Run ComptimeFold :=
  .certain (hostWideUnsignedBinary op left right (domainOf dw)) <|
    ne_none_of_eq_some (hostWideUnsignedBinary_eq left right (supported_domainOf dw)
      (fun h => hlogical (.inl h)) fun h => hlogical (.inr h))

def foldSignedShift (op : BinaryOp) (value count : ℤ) (dw : Option KnownDomain) :
    Run ComptimeFold :=
  .attempt (.shift op value count (domainOf dw)) (hostSignedShift op value count (domainOf dw)) <|
    by
      rw [hostSignedShift_eq_none_iff (supported_domainOf dw)]
      exact not_not.symm

/-- The operators of two signed operands. -/
def foldSignedBinary (op : BinaryOp) (hlogical : ¬ IsLogical op) (heq : ¬ IsEquality op)
    (l r : ℤ) (dw : Option KnownDomain) : Run ComptimeFold :=
  if hshift : IsShift op then foldSignedShift op l r dw
  else
    .certain (hostSignedBinary op l r (domainOf dw)) <|
      ne_none_of_eq_some (hostSignedBinary_eq l r (supported_domainOf dw)
        (isPlainSigned hlogical heq hshift))

/-! ## Casts -/

/-- The name of the scalar type that a cast goes to. -/
def castTarget (ty : TypeExpr) : Option String :=
  match ty with
  | .generic base [.name id] => (domainOfGeneric base).map fun _ => id.text
  | .qualified _ (.name id) => some id.text
  | .name id => some id.text
  | _ => none

/-- The width of a floating-point type. -/
def floatWidth (name : String) : Option ℕ :=
  if name = "f32" then some 32
  else if name = "f64" then some 64
  else none

/-- A number as a float of this width. -/
def toFloat (floats : FloatHost) (width : ℕ) : ComptimeValue → Option ComptimeValue
  | .int n => some (.float (floats.ofInteger width n))
  | .uint n => some (.float (floats.ofInteger width n))
  | .float x => some (.float (floats.convert width x))
  | _ => none

/-- The bits of a number that is cast to an integer type; a float is truncated. -/
def castBits (floats : FloatHost) (info : IntType) : ComptimeValue → Option ℕ
  | .int n => some (bitCastToU128 n)
  | .uint n => some (n % 2 ^ 128)
  | .float x =>
    (floats.truncated x).bind fun t =>
      if info.signed then
        if t < -2 ^ 127 ∨ 2 ^ 127 ≤ t then none else some (bitCastToU128 t)
      else if t < 0 ∨ 2 ^ 128 ≤ t then none
      else some t.toNat
  | _ => none

/-- The value of an integer type with these bits; the host may stop. -/
def hostValueFromBits (info : IntType) (raw : ℕ) : Option (Option ComptimeValue) :=
  if !info.signed && info.bits == 128 then some (some (comptimeUnsignedValue raw))
  else (hostIntFromBits raw info.bits info.signed).map fun n => n.map ComptimeValue.int

/-- The value of an integer type with these bits. -/
def valueFromBits (info : IntType) (raw : ℕ) : Option ComptimeValue :=
  if !info.signed && info.bits == 128 then some (comptimeUnsignedValue raw)
  else (comptimeIntFromBits raw info.bits info.signed).map ComptimeValue.int

lemma hostValueFromBits_eq (info : IntType) (raw : ℕ) :
    hostValueFromBits info raw = some (valueFromBits info raw) := by
  unfold hostValueFromBits valueFromBits
  split_ifs
  · rfl
  · rw [hostIntFromBits_eq, Option.map_some]

/-- `comptimeCastValue` on the host. -/
def hostCastValue (floats : FloatHost) (value : ComptimeValue) (ty : TypeExpr) :
    Option (Option ComptimeValue) :=
  match castTarget ty with
  | none => some none
  | some name =>
    match floatWidth name with
    | some width => some (toFloat floats width value)
    | none =>
      match comptimeIntType ty with
      | none => some none
      | some info =>
        match castBits floats info value with
        | none => some none
        | some raw => hostValueFromBits info raw

lemma hostCastValue_ne_none (floats : FloatHost) (value : ComptimeValue) (ty : TypeExpr) :
    hostCastValue floats value ty ≠ none := by
  unfold hostCastValue
  simp only [hostValueFromBits_eq]
  split
  · simp
  · split
    · simp
    · split
      · simp
      · split <;> simp

def comptimeCastValue (floats : FloatHost) (value : ComptimeValue) (ty : TypeExpr) :
    Run (Option ComptimeValue) :=
  .certain (hostCastValue floats value ty) (hostCastValue_ne_none floats value ty)

/-- A value, or no answer. -/
def ofValue : Option ComptimeValue → ComptimeFold
  | none => .unknown
  | some value => .value value

/-! ## Expected types -/

/-- The value of an integer type with these bits, where the bits are within its range. -/
def contextualFromBits (info : IntType) (raw : ℕ) : Option ComptimeFold :=
  (hostValueFromBits info raw).map fun value => value.elim .trap .value

/-- `contextualComptimeValue` of a signed integer. -/
def contextualInt (info : IntType) (n : ℤ) : Option ComptimeFold :=
  if info.signed then
    if info.bits < 128 then do
      let limit ← oneShiftedI128 (info.bits - 1)
      let min ← negI128 limit
      let max ← subI128 limit 1
      if n < min ∨ max < n then some .trap else contextualFromBits info (bitCastToU128 n)
    else contextualFromBits info (bitCastToU128 n)
  else if n < 0 then some .trap
  else if info.bits < 128 then do
    let magnitude ← castU128 n
    let max ← onesU128 info.bits
    if max < magnitude then some .trap else contextualFromBits info (bitCastToU128 n)
  else contextualFromBits info (bitCastToU128 n)

/-- `contextualComptimeValue` of an unsigned integer. -/
def contextualUint (info : IntType) (n : ℕ) : Option ComptimeFold :=
  if info.signed then
    if info.bits == 128 then
      if i128Max < n then some .trap else contextualFromBits info (n % 2 ^ 128)
    else do
      let max ← onesU128 (info.bits - 1)
      if max < n then some .trap else contextualFromBits info (n % 2 ^ 128)
  else if info.bits < 128 then do
    let max ← onesU128 info.bits
    if max < n then some .trap else contextualFromBits info (n % 2 ^ 128)
  else contextualFromBits info (n % 2 ^ 128)

/-- `contextualComptimeValue` at a resolved type, on the host. -/
def hostContextualValue (floats : FloatHost) (value : ComptimeValue) (resolved : TypeExpr) :
    Option ComptimeFold :=
  match comptimeIntType resolved with
  | some info =>
    match value with
    | .int n => contextualInt info n
    | .uint n => contextualUint info n
    | value => (hostCastValue floats value resolved).map ofValue
  | none =>
    match resolved with
    | .name id =>
      if (floatWidth id.text).isSome then (hostCastValue floats value resolved).map ofValue
      else some (.value value)
    | _ => some (.value value)

lemma contextualFromBits_eq (info : IntType) (raw : ℕ) :
    contextualFromBits info raw = some ((valueFromBits info raw).elim .trap .value) := by
  rw [contextualFromBits, hostValueFromBits_eq, Option.map_some]

lemma contextualInt_eq (info : IntType) (n : ℤ) :
    contextualInt info n = some .trap ∨
      contextualInt info n = contextualFromBits info (bitCastToU128 n) := by
  have hpos := pos_of_supported info.supported
  unfold contextualInt
  cases info.signed with
  | true =>
    by_cases hnarrow : info.bits < 128
    · have hlt : info.bits - 1 < 127 := by omega
      simp only [if_true, hnarrow, oneShiftedI128_pred (show 0 < info.bits by omega) hnarrow,
        Option.bind_eq_bind, Option.bind_some, subI128_two_pow hlt,
        negI128_of_nonneg (show (0 : ℤ) ≤ 2 ^ (info.bits - 1) by positivity)]
      split_ifs <;> simp
    · simp only [if_true, hnarrow, if_false, or_true]
  | false =>
    by_cases hneg : n < 0
    · simp only [hneg, if_true, Bool.false_eq_true, if_false, true_or]
    · by_cases hnarrow : info.bits < 128
      · simp only [hneg, hnarrow, if_true, Bool.false_eq_true, if_false,
          castU128_of_nonneg (show 0 ≤ n by omega), onesU128_of_lt hnarrow,
          Option.bind_eq_bind, Option.bind_some]
        split_ifs <;> simp
      · simp only [hneg, hnarrow, Bool.false_eq_true, if_false, or_true]

lemma contextualUint_eq (info : IntType) (n : ℕ) :
    contextualUint info n = some .trap ∨
      contextualUint info n = contextualFromBits info (n % 2 ^ 128) := by
  have hpos := pos_of_supported info.supported
  unfold contextualUint
  cases info.signed with
  | true =>
    simp only [if_true, ← Int.natCast_pred_of_pos (show 0 < info.bits by omega),
      onesU128_of_lt (show info.bits - 1 < 128 by omega), Option.bind_eq_bind, Option.bind_some]
    split_ifs <;> simp
  | false =>
    by_cases hnarrow : info.bits < 128
    · simp only [hnarrow, if_true, Bool.false_eq_true, if_false, onesU128_of_lt hnarrow,
        Option.bind_eq_bind, Option.bind_some]
      split_ifs <;> simp
    · simp only [hnarrow, Bool.false_eq_true, if_false, or_true]

lemma hostContextualValue_ne_none (floats : FloatHost) (value : ComptimeValue)
    (resolved : TypeExpr) : hostContextualValue floats value resolved ≠ none := by
  have hcast : (hostCastValue floats value resolved).map ofValue ≠ none := by
    rw [Ne, Option.map_eq_none_iff]
    exact hostCastValue_ne_none floats value resolved
  unfold hostContextualValue
  cases comptimeIntType resolved with
  | some info =>
    cases value with
    | int n =>
      rcases contextualInt_eq info n with h | h
      · exact ne_none_of_eq_some h
      · exact ne_none_of_eq_some (h.trans (contextualFromBits_eq info _))
    | uint n =>
      rcases contextualUint_eq info n with h | h
      · exact ne_none_of_eq_some h
      · exact ne_none_of_eq_some (h.trans (contextualFromBits_eq info _))
    | _ => exact hcast
  | none =>
    cases resolved with
    | name id =>
      simp only
      split_ifs
      · exact hcast
      · simp
    | _ => simp

def contextualComptimeValue (floats : FloatHost) (scope : ComptimeScope) (value : ComptimeValue)
    (ty : TypeExpr) : Run ComptimeFold :=
  .certain (hostContextualValue floats value (resolveComptimeType scope ty))
    (hostContextualValue_ne_none floats value _)

/-- The check of a folded value against an expected type. -/
def contextualFold (floats : FloatHost) (scope : ComptimeScope) (ty : TypeExpr) :
    ComptimeFold → Run ComptimeFold
  | .value value => contextualComptimeValue floats scope value ty
  | .trap => pure .trap
  | .unknown => pure .unknown

end ModernC.Comptime
