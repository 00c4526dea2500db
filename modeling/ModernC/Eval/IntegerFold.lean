import Mathlib.Algebra.Ring.Int.Defs
import Mathlib.Algebra.Ring.Nat

/-!
# Comptime values

The values the comptime evaluator folds to, and its machine integers.  An `i128` is an
integer and a `u128` a natural number, with the wrapping of the source written out where it
happens.  Floating-point operations are a parameter (`FloatArithmetic`): a float value is
its width and its raw bits, and nothing in the evaluator looks inside.
-/

namespace ModernC.Eval

inductive UnaryOp where
  | neg
  | bitNot
  | logicalNot
deriving DecidableEq

inductive BinaryOp where
  | logicalOr
  | logicalAnd
  | eq
  | ne
  | lt
  | le
  | gt
  | ge
  | bitOr
  | bitXor
  | bitAnd
  | shl
  | shr
  | add
  | sub
  | mul
  | div
  | mod
deriving DecidableEq

/-! ## Machine integers -/

def i128Min : ℤ := -2 ^ 127

def i128Max : ℤ := 2 ^ 127 - 1

def u128Max : ℕ := 2 ^ 128 - 1

/-- An `i128` operation does not overflow. -/
def fitsI128 (n : ℤ) : Bool := decide (i128Min ≤ n) && decide (n ≤ i128Max)

/-- The bits of an `i128`, as a `u128`. -/
def bitCastToU128 (n : ℤ) : ℕ := (n % 2 ^ 128).toNat

/-- The `i128` with these bits. -/
def bitCastToI128 (m : ℕ) : ℤ := if m < 2 ^ 127 then m else (m : ℤ) - 2 ^ 128

/-- `~m` on `u128`. -/
def complement128 (m : ℕ) : ℕ := u128Max - m

/-- The mask of the low `bits` bits. -/
def lowMask (bits : ℕ) : ℕ := if bits == 128 then u128Max else 2 ^ bits - 1

/-! ## Values and folds -/

structure ComptimeFloat where
  bits : ℕ
  width : ℕ
deriving DecidableEq

inductive ComptimeValue where
  | void
  | int (value : ℤ)
  | uint (value : ℕ)
  | float (value : ComptimeFloat)
  | boolean (value : Bool)
  | tag (name : String)
  | bytes (content : String)
  | array (items : List ComptimeValue)
  | struct (fields : List (String × ComptimeValue))

/-- The result of folding: a value, a proved trap, or no answer. -/
inductive ComptimeFold where
  | value (value : ComptimeValue)
  | trap
  | unknown

inductive ComptimeDomain where
  | checked
  | wrap
  | sat
deriving DecidableEq

structure DomainWidth where
  domain : ComptimeDomain
  bits : ℕ
  signed : Bool
deriving DecidableEq

/-- The floating-point operations of the host. -/
structure FloatArithmetic where
  equal : ComptimeFloat → ComptimeFloat → Bool
  less : ComptimeFloat → ComptimeFloat → Bool
  lessEqual : ComptimeFloat → ComptimeFloat → Bool
  add : ComptimeFloat → ComptimeFloat → ComptimeFloat
  sub : ComptimeFloat → ComptimeFloat → ComptimeFloat
  mul : ComptimeFloat → ComptimeFloat → ComptimeFloat
  div : ComptimeFloat → ComptimeFloat → ComptimeFloat

def comptimeUnsignedValue (value : ℕ) : ComptimeValue :=
  if (value : ℤ) ≤ i128Max then .int value else .uint value

def comptimeNonnegative : ComptimeValue → Option ℕ
  | .int n => if 0 ≤ n then some n.toNat else none
  | .uint n => some n
  | _ => none

/-- Equality of integer values across their two representations. -/
def comptimeIntegersEql : ComptimeValue → ComptimeValue → Option Bool
  | .int l, .int r => some (l == r)
  | .int l, .uint r => some (decide (0 ≤ l) && l.toNat == r)
  | .uint l, .int r => some (decide (0 ≤ r) && l == r.toNat)
  | .uint l, .uint r => some (l == r)
  | _, _ => none

mutual

def comptimeValueEql (floats : FloatArithmetic) : ComptimeValue → ComptimeValue → Bool
  | .void, .void => true
  | .float a, .float b => floats.equal a b
  | .bytes a, .bytes b => a == b
  | .boolean a, .boolean b => a == b
  | .tag a, .tag b => a == b
  | .array as, .array bs => comptimeArrayEql floats as bs
  | .struct as, .struct bs => as.length == bs.length && comptimeFieldsEql floats as bs
  | a, b => (comptimeIntegersEql a b).getD false

def comptimeArrayEql (floats : FloatArithmetic) : List ComptimeValue → List ComptimeValue → Bool
  | [], [] => true
  | a :: as, b :: bs => comptimeValueEql floats a b && comptimeArrayEql floats as bs
  | _, _ => false

/-- Every field of the first struct has an equal namesake in the second one. -/
def comptimeFieldsEql (floats : FloatArithmetic) :
    List (String × ComptimeValue) → List (String × ComptimeValue) → Bool
  | [], _ => true
  | (name, a) :: as, bs =>
    (match bs.find? fun field => field.1 == name with
      | none => false
      | some field => comptimeValueEql floats a field.2) && comptimeFieldsEql floats as bs

end

end ModernC.Eval

/-!
## Folding the integer operators

The arithmetic of `eval.zig` on values that are already folded: the domain rule of a typed
result, negation, the signed shift, the wide unsigned operators, and the dispatch of a
binary operator on its operands.  A missing `DomainWidth` is untyped `i128` arithmetic.
-/

namespace ModernC.Eval

/-- The integer a `bits`-wide pattern stands for; none if it does not fit an `i128`. -/
def comptimeIntFromBits (raw bits : ℕ) (signed : Bool) : Option ℤ :=
  if bits == 0 || decide (128 < bits) then none
  else
    let value := raw &&& lowMask bits
    if signed && (value >>> (bits - 1)) &&& 1 == 1 then
      if bits == 128 then some (bitCastToI128 value)
      else some (bitCastToI128 (value ||| complement128 (lowMask bits)))
    else if (value : ℤ) ≤ i128Max then some value
    else none

/-- The least value of a signed type. -/
def signedMin (bits : ℕ) : ℤ := if bits == 128 then i128Min else -2 ^ (bits - 1)

/-- The greatest value of a signed type. -/
def signedMax (bits : ℕ) : ℤ := if bits == 128 then i128Max else 2 ^ (bits - 1) - 1

/-! ## Domain rules -/

/-- Apply a domain's overflow rule to a raw `i128` result. -/
def applyDomain (dw : DomainWidth) (raw : ℤ) : ComptimeFold :=
  if 128 ≤ dw.bits then .value (.int raw)
  else
    let max : ℤ := if dw.signed then 2 ^ (dw.bits - 1) - 1 else 2 ^ dw.bits - 1
    let min : ℤ := if dw.signed then -2 ^ (dw.bits - 1) else 0
    match dw.domain with
    | .checked => if raw < min ∨ max < raw then .trap else .value (.int raw)
    | .sat => .value (.int (if raw < min then min else if max < raw then max else raw))
    | .wrap =>
      let mask := 2 ^ dw.bits - 1
      let m := bitCastToU128 raw &&& mask
      if dw.signed && (m >>> (dw.bits - 1)) &&& 1 == 1 then
        .value (.int (bitCastToI128 (m ||| complement128 mask)))
      else .value (.int m)

/-- Apply the domain rule, or pass the result through when no domain is known. -/
def domainArith (dw : Option DomainWidth) (raw : ℤ) : ComptimeFold :=
  match dw with
  | some d => applyDomain d raw
  | none => .value (.int raw)

/-- An `i128` result of a 128-bit operation, `wrapped` when it `overflowed`. -/
def signedOverflowResult (dw : Option DomainWidth) (wrapped : ℤ)
    (overflowed saturateToMax : Bool) : ComptimeFold :=
  if !overflowed then domainArith dw wrapped
  else
    match dw with
    | none => .unknown
    | some d =>
      match d.domain with
      | .checked => .trap
      | .wrap => .value (.int wrapped)
      | .sat => .value (.int (if saturateToMax then i128Max else i128Min))

/-! ## Negation -/

def foldComptimeUnsignedNeg (dw : Option DomainWidth) (value : ℕ) : ComptimeFold :=
  match dw with
  | none =>
    if value == 2 ^ 127 then .value (.int i128Min)
    else if (value : ℤ) ≤ i128Max then .value (.int (-value))
    else .unknown
  | some d =>
    if d.signed then
      let limit := 2 ^ (d.bits - 1)
      if limit < value then
        match d.domain with
        | .checked => .trap
        | .wrap =>
          match comptimeIntFromBits (bitCastToU128 (-value) &&& lowMask d.bits) d.bits true with
          | some n => .value (.int n)
          | none => .unknown
        | .sat => .value (.int (signedMin d.bits))
      else if value == limit then .value (.int (signedMin d.bits))
      else .value (.int (-value))
    else if d.domain == .checked then
      if value == 0 then .value (.int 0) else .trap
    else if d.domain == .sat then .value (.int 0)
    else .value (comptimeUnsignedValue (bitCastToU128 (-value) &&& lowMask d.bits))

def foldComptimeIntegerNeg (dw : Option DomainWidth) (value : ℤ) : ComptimeFold :=
  match dw with
  | none => if value == i128Min then .unknown else .value (.int (-value))
  | some d =>
    if !d.signed then foldComptimeUnsignedNeg (some d) (bitCastToU128 value)
    else if value == signedMin d.bits then
      match d.domain with
      | .checked => .trap
      | .wrap => .value (.int (signedMin d.bits))
      | .sat => .value (.int (signedMax d.bits))
    else .value (.int (-value))

/-- Negation of a folded operand; a float flips its sign bit. -/
def foldComptimeNeg (dw : Option DomainWidth) : ComptimeValue → ComptimeFold
  | .int v => foldComptimeIntegerNeg dw v
  | .uint v => foldComptimeUnsignedNeg dw v
  | .float v =>
    .value (.float { bits := v.bits ^^^ (if v.width == 32 then 2 ^ 31 else 2 ^ 63), width := v.width })
  | _ => .unknown

/-- Complement of a folded operand, masked to the operand's width; no answer without one. -/
def foldComptimeBitNot (width : Option ℕ) (operand : ComptimeValue) : ComptimeFold :=
  match operand, width with
  | .int v, some bits =>
    let mask := if 128 ≤ bits then u128Max else 2 ^ bits - 1
    .value (comptimeUnsignedValue (complement128 (bitCastToU128 v) &&& mask))
  | .uint v, some bits =>
    let mask := if 128 ≤ bits then u128Max else 2 ^ bits - 1
    .value (comptimeUnsignedValue (complement128 v &&& mask))
  | _, _ => .unknown

def foldComptimeLogicalNot : ComptimeValue → ComptimeFold
  | .boolean v => .value (.boolean (!v))
  | _ => .unknown

/-- A unary operator on a folded operand of this domain and width: `foldComptimeUnary` after
its operand. -/
def foldComptimeUnaryOperand (op : UnaryOp) (operand : ComptimeValue)
    (dw : Option DomainWidth) (width : Option ℕ) : ComptimeFold :=
  match op with
  | .neg => foldComptimeNeg dw operand
  | .bitNot => foldComptimeBitNot width operand
  | .logicalNot => foldComptimeLogicalNot operand

/-! ## Unsigned operators -/

/-- The overflow rule of the unsigned `add`, `mul` and `shl`: the exact result is kept when
it fits `u128` and the mask. -/
def unsignedOverflowResult (domain : ComptimeDomain) (mask exact : ℕ) : ComptimeFold :=
  let result := exact % 2 ^ 128
  if !(decide (u128Max < exact) || decide (mask < result)) then
    .value (comptimeUnsignedValue (result &&& mask))
  else
    match domain with
    | .checked => .trap
    | .wrap => .value (comptimeUnsignedValue (result &&& mask))
    | .sat => .value (comptimeUnsignedValue mask)

def foldWideUnsignedBinary (op : BinaryOp) (left right : ComptimeValue)
    (dw : Option DomainWidth) : ComptimeFold :=
  match comptimeNonnegative left, comptimeNonnegative right with
  | some l, some r =>
    let domain := (dw.map DomainWidth.domain).getD .checked
    let bits := (dw.map DomainWidth.bits).getD 128
    let mask := lowMask bits
    match op with
    | .lt => .value (.boolean (decide (l < r)))
    | .le => .value (.boolean (decide (l ≤ r)))
    | .gt => .value (.boolean (decide (r < l)))
    | .ge => .value (.boolean (decide (r ≤ l)))
    | .add => unsignedOverflowResult domain mask (l + r)
    | .sub =>
      if r ≤ l then .value (comptimeUnsignedValue ((l - r) &&& mask))
      else
        match domain with
        | .checked => .trap
        | .wrap => .value (comptimeUnsignedValue (bitCastToU128 ((l : ℤ) - r) &&& mask))
        | .sat => .value (.int 0)
    | .mul => unsignedOverflowResult domain mask (l * r)
    | .div => if r == 0 then .trap else .value (comptimeUnsignedValue (l / r))
    | .mod => if r == 0 then .trap else .value (comptimeUnsignedValue (l % r))
    | .bitAnd => .value (comptimeUnsignedValue (l &&& r))
    | .bitOr => .value (comptimeUnsignedValue (l ||| r))
    | .bitXor => .value (comptimeUnsignedValue (l ^^^ r))
    | .shl =>
      if bits ≤ r then .trap
      else
        let shifted := (l <<< r) % 2 ^ 128
        if !(decide (u128Max < l <<< r) || shifted &&& complement128 mask != 0) then
          .value (comptimeUnsignedValue (shifted &&& mask))
        else
          match domain with
          | .checked => .trap
          | .wrap => .value (comptimeUnsignedValue (shifted &&& mask))
          | .sat => .value (comptimeUnsignedValue mask)
    | .shr => if bits ≤ r then .trap else .value (comptimeUnsignedValue (l >>> r))
    | .eq => .value (.boolean (l == r))
    | .ne => .value (.boolean (l != r))
    | .logicalAnd | .logicalOr => .unknown
  | _, _ => .unknown

/-! ## Signed operators -/

def foldSignedShift (op : BinaryOp) (value count : ℤ) (dw : Option DomainWidth) : ComptimeFold :=
  let bits := (dw.map DomainWidth.bits).getD 128
  if count < 0 ∨ (bits : ℤ) ≤ count then .trap
  else
    let amount := count.toNat
    if op == .shr then domainArith dw (value >>> amount)
    else
      match dw with
      | none =>
        if 0 ≤ value then
          if u128Max < value.toNat <<< amount then .unknown
          else .value (comptimeUnsignedValue (value.toNat <<< amount))
        else if !fitsI128 (value * 2 ^ amount) then .unknown
        else .value (.int (value * 2 ^ amount))
      | some d =>
        if d.domain == .wrap then
          let raw := ((bitCastToU128 value <<< amount) % 2 ^ 128) &&& lowMask bits
          if d.signed then
            match comptimeIntFromBits raw bits true with
            | some n => .value (.int n)
            | none => .unknown
          else .value (comptimeUnsignedValue raw)
        else if value < 0 then
          -- at 128 bits the source negates `1 << 127` here, which stops the compiler
          if d.domain == .sat then .value (.int (if d.signed then -2 ^ (bits - 1) else 0))
          else .trap
        else
          let shifted := (value.toNat <<< amount) % 2 ^ 128
          let max := if d.signed then 2 ^ (bits - 1) - 1 else lowMask bits
          if u128Max < value.toNat <<< amount ∨ max < shifted then
            match d.domain with
            | .checked => .trap
            | _ => .value (comptimeUnsignedValue max)
          else .value (comptimeUnsignedValue shifted)

/-- `add`, `sub` and `mul` on `i128`: 128-bit operands overflow as their domain says, for
narrower ones the exact result goes to the domain rule. -/
def foldSignedExact (dw : Option DomainWidth) (exact : ℤ) (saturateToMax : Bool) : ComptimeFold :=
  if (dw.map DomainWidth.bits) == some 128 then
    signedOverflowResult dw (bitCastToI128 (bitCastToU128 exact)) (!fitsI128 exact) saturateToMax
  else if fitsI128 exact then domainArith dw exact
  else .unknown

def foldSignedBinary (op : BinaryOp) (l r : ℤ) (dw : Option DomainWidth) : ComptimeFold :=
  match op with
  | .lt => .value (.boolean (decide (l < r)))
  | .le => .value (.boolean (decide (l ≤ r)))
  | .gt => .value (.boolean (decide (r < l)))
  | .ge => .value (.boolean (decide (r ≤ l)))
  | .add => foldSignedExact dw (l + r) (decide (0 ≤ l) && decide (0 ≤ r))
  | .sub => foldSignedExact dw (l - r) (decide (0 ≤ l) && decide (r < 0))
  | .mul => foldSignedExact dw (l * r) (decide (l < 0) == decide (r < 0))
  | .div =>
    if r == 0 then .trap
    else if (dw.map DomainWidth.bits) == some 128 && l == i128Min && r == -1 then
      match dw.map DomainWidth.domain with
      | some .wrap => .value (.int i128Min)
      | some .sat => .value (.int i128Max)
      | _ => .trap
    else if fitsI128 (l.tdiv r) then domainArith dw (l.tdiv r)
    else .unknown
  | .mod =>
    if r == 0 then .trap
    else if l == i128Min && r == -1 then
      match dw.map DomainWidth.domain with
      | some .checked => .trap
      | some _ => .value (.int 0)
      | none => .unknown
    else domainArith dw (l.tmod r)
  | .bitAnd => .value (.int (bitCastToI128 (bitCastToU128 l &&& bitCastToU128 r)))
  | .bitOr => .value (.int (bitCastToI128 (bitCastToU128 l ||| bitCastToU128 r)))
  | .bitXor => .value (.int (bitCastToI128 (bitCastToU128 l ^^^ bitCastToU128 r)))
  | .shl | .shr => foldSignedShift op l r dw
  | .eq | .ne | .logicalAnd | .logicalOr => .unknown

/-! ## Dispatch -/

/-- Equality of two operands, where it is defined. -/
def comptimeOperandsEql (floats : FloatArithmetic) : ComptimeValue → ComptimeValue → Option Bool
  | .void, .void => some true
  | .float l, .float r => some (floats.equal l r)
  | .boolean l, .boolean r => some (l == r)
  | .tag l, .tag r => some (l == r)
  | .bytes l, .bytes r => some (l == r)
  | .array l, .array r => some (comptimeValueEql floats (.array l) (.array r))
  | .struct l, .struct r => some (comptimeValueEql floats (.struct l) (.struct r))
  | l, r => comptimeIntegersEql l r

def foldFloatBinary (floats : FloatArithmetic) (op : BinaryOp) (l r : ComptimeFloat) :
    ComptimeFold :=
  match op with
  | .lt => .value (.boolean (floats.less l r))
  | .le => .value (.boolean (floats.lessEqual l r))
  | .gt => .value (.boolean (floats.less r l))
  | .ge => .value (.boolean (floats.lessEqual r l))
  | .add => .value (.float (floats.add l r))
  | .sub => .value (.float (floats.sub l r))
  | .mul => .value (.float (floats.mul l r))
  | .div => .value (.float (floats.div l r))
  | _ => .unknown

/-- A binary operator on folded operands, evaluated in the domain and width `dw`: the part
of `foldComptimeBinaryWithExpected` after both operands. -/
def foldComptimeBinaryOperands (floats : FloatArithmetic) (op : BinaryOp)
    (left right : ComptimeValue) (dw : Option DomainWidth) : ComptimeFold :=
  if op == .eq || op == .ne then
    match comptimeOperandsEql floats left right with
    | none => .unknown
    | some equal => .value (.boolean (if op == .eq then equal else !equal))
  else
    match left, right with
    | .float l, .float r => foldFloatBinary floats op l r
    | .float _, _ | _, .float _ => .unknown
    | .uint _, _ | _, .uint _ => foldWideUnsignedBinary op left right dw
    | _, _ =>
      if dw.any fun d => !d.signed then foldWideUnsignedBinary op left right dw
      else
        match left, right with
        | .int l, .int r => foldSignedBinary op l r dw
        | _, _ => .unknown

end ModernC.Eval
