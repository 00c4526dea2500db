import ModernC.Eval.IntegerFold

/-!
# The checked arithmetic of the C prelude

The helpers `mc_checked_*`, `mc_wrap_*` and `mc_sat_*` that `lower_c_runtime.zig` writes into
every C translation unit, read as C.  Operands are promoted before an operation, so the
intermediate results are exact or are brought back by the final conversion to the helper's
type; a helper ends in a value of its type or in a call of a trap function.
-/

namespace ModernC.Eval

/-- The integer widths of the language. -/
def integerWidths : List ℕ := [8, 16, 32, 64, 128]

/-- A C integer type of the prelude. -/
structure CIntType where
  bits : ℕ
  signed : Bool
  supported : bits ∈ integerWidths := by decide
deriving DecidableEq

namespace CIntType

def min (ty : CIntType) : ℤ := if ty.signed then -2 ^ (ty.bits - 1) else 0

def max (ty : CIntType) : ℤ := if ty.signed then 2 ^ (ty.bits - 1) - 1 else 2 ^ ty.bits - 1

/-- The value is one of the type. -/
def Contains (ty : CIntType) (n : ℤ) : Prop := ty.min ≤ n ∧ n ≤ ty.max

instance (ty : CIntType) (n : ℤ) : Decidable (ty.Contains n) :=
  inferInstanceAs (Decidable (_ ∧ _))

/-- Conversion to the type, `(TYPE)n`. -/
def convert (ty : CIntType) (n : ℤ) : ℤ :=
  if ty.signed then (n + 2 ^ (ty.bits - 1)) % 2 ^ ty.bits - 2 ^ (ty.bits - 1)
  else n % 2 ^ ty.bits

end CIntType

inductive RuntimeTrap where
  | integerOverflow
  | divideByZero
  | invalidShift
deriving DecidableEq

inductive HelperResult where
  | returns (value : ℤ)
  | traps (trap : RuntimeTrap)
deriving DecidableEq

/-- `if (__builtin_*_overflow(a, b, &out)) mc_trap_IntegerOverflow(); return out;` where the
builtin computes `exact`. -/
def returnUnlessOverflow (ty : CIntType) (exact : ℤ) : HelperResult :=
  if ty.Contains exact then .returns exact else .traps .integerOverflow

def mcCheckedAdd (ty : CIntType) (a b : ℤ) : HelperResult := returnUnlessOverflow ty (a + b)

def mcCheckedSub (ty : CIntType) (a b : ℤ) : HelperResult := returnUnlessOverflow ty (a - b)

def mcCheckedMul (ty : CIntType) (a b : ℤ) : HelperResult := returnUnlessOverflow ty (a * b)

/-- Division and remainder truncate toward zero. -/
def mcCheckedDiv (ty : CIntType) (a b : ℤ) : HelperResult :=
  if b = 0 then .traps .divideByZero
  else if ty.signed ∧ a = ty.min ∧ b = -1 then .traps .integerOverflow
  else .returns (ty.convert (a.tdiv b))

def mcCheckedMod (ty : CIntType) (a b : ℤ) : HelperResult :=
  if b = 0 then .traps .divideByZero
  else if ty.signed ∧ a = ty.min ∧ b = -1 then .traps .integerOverflow
  else .returns (ty.convert (a.tmod b))

/-- The signed helpers also reject a negative count and a negative value. -/
def mcCheckedShl (ty : CIntType) (a b : ℤ) : HelperResult :=
  if (ty.signed ∧ b < 0) ∨ (ty.bits : ℤ) ≤ b then .traps .invalidShift
  else if ty.signed ∧ a < 0 then .traps .integerOverflow
  else if ty.convert (ty.max >>> b.toNat) < a then .traps .integerOverflow
  else .returns (ty.convert (a * 2 ^ b.toNat))

def mcCheckedShr (ty : CIntType) (a b : ℤ) : HelperResult :=
  if (ty.signed ∧ b < 0) ∨ (ty.bits : ℤ) ≤ b then .traps .invalidShift
  else .returns (ty.convert (a >>> b.toNat))

def mcCheckedNeg (ty : CIntType) (a : ℤ) : HelperResult :=
  if a = ty.convert ty.min then .traps .integerOverflow
  else .returns (ty.convert (-a))

def mcWrapShl (ty : CIntType) (a b : ℤ) : HelperResult :=
  if (ty.bits : ℤ) ≤ b then .traps .invalidShift
  else .returns (ty.convert (a * 2 ^ b.toNat))

def mcWrapShr (ty : CIntType) (a b : ℤ) : HelperResult :=
  if (ty.bits : ℤ) ≤ b then .traps .invalidShift
  else .returns (ty.convert (a >>> b.toNat))

def mcSatAdd (ty : CIntType) (a b : ℤ) : HelperResult :=
  if ty.convert (ty.max - b) < a then .returns (ty.convert ty.max)
  else .returns (ty.convert (a + b))

def mcSatSub (ty : CIntType) (a b : ℤ) : HelperResult :=
  if a < b then .returns 0 else .returns (ty.convert (a - b))

def mcSatMul (ty : CIntType) (a b : ℤ) : HelperResult :=
  if b ≠ 0 ∧ ty.convert (ty.max.tdiv b) < a then .returns (ty.convert ty.max)
  else .returns (ty.convert (a * b))

/-- The prelude's binary helper for an operator in a domain, where it defines one: checked
arithmetic at every type, wrapping shifts and saturating `add`, `sub` and `mul` at the
unsigned types. -/
def runtimeBinaryHelper (domain : ComptimeDomain) (signed : Bool) (op : BinaryOp) :
    Option (CIntType → ℤ → ℤ → HelperResult) :=
  match domain, signed, op with
  | .checked, _, .add => some mcCheckedAdd
  | .checked, _, .sub => some mcCheckedSub
  | .checked, _, .mul => some mcCheckedMul
  | .checked, _, .div => some mcCheckedDiv
  | .checked, _, .mod => some mcCheckedMod
  | .checked, _, .shl => some mcCheckedShl
  | .checked, _, .shr => some mcCheckedShr
  | .wrap, false, .shl => some mcWrapShl
  | .wrap, false, .shr => some mcWrapShr
  | .sat, false, .add => some mcSatAdd
  | .sat, false, .sub => some mcSatSub
  | .sat, false, .mul => some mcSatMul
  | _, _, _ => none

/-- The prelude's unary helper: checked negation of the signed types. -/
def runtimeUnaryHelper (domain : ComptimeDomain) (signed : Bool) (op : UnaryOp) :
    Option (CIntType → ℤ → HelperResult) :=
  match domain, signed, op with
  | .checked, true, .neg => some mcCheckedNeg
  | _, _, _ => none

end ModernC.Eval
