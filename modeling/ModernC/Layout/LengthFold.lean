import ModernC.Eval.IntegerFold
import ModernC.Layout.Layout

/-!
# Folding at `usize`

The constant folder of `eval.zig` on expressions that are expected to be a `usize`, and the value
that an array length has.
-/

namespace ModernC.Layout

open Syntax (Expr UnaryOp BinaryOp)
open Eval (ComptimeValue ComptimeFold ComptimeFloat FloatArithmetic DomainWidth
  comptimeIntFromBits comptimeUnsignedValue complement128 bitCastToU128 lowMask
  foldComptimeIntegerNeg foldComptimeUnsignedNeg foldComptimeLogicalNot
  foldComptimeBinaryOperands)

/-- What a fold depends on: names, calls and everything else that a length is not made of itself,
and the host's floats. -/
structure Folder where
  other : Expr → ComptimeFold
  floats : FloatArithmetic
  /-- A float as a `usize`. -/
  castFloat : ComptimeFloat → Option ComptimeValue

/-- The operator of the evaluator. -/
def operator : BinaryOp → Eval.BinaryOp
  | .logicalOr => .logicalOr
  | .logicalAnd => .logicalAnd
  | .eq => .eq
  | .ne => .ne
  | .lt => .lt
  | .le => .le
  | .gt => .gt
  | .ge => .ge
  | .bitOr => .bitOr
  | .bitXor => .bitXor
  | .bitAnd => .bitAnd
  | .shl => .shl
  | .shr => .shr
  | .add => .add
  | .sub => .sub
  | .mul => .mul
  | .div => .div
  | .mod => .mod

/-- `usize` is a checked type of 64 bits. -/
def usizeDomain : DomainWidth := { domain := .checked, bits := 64, signed := false }

/-! ## Without an expected type -/

def comptimeIntegerLiteral (raw : String) : Option ComptimeValue :=
  (Syntax.parseIntegerLiteral raw).map comptimeUnsignedValue

def ofValue : Option ComptimeValue → ComptimeFold
  | none => .unknown
  | some value => .value value

def foldComptimeExpr (folder : Folder) : Expr → ComptimeFold
  | .intLiteral text => ofValue (comptimeIntegerLiteral text)
  | .charLiteral text => ofValue ((parseCharLiteral text).map fun c : ℕ => .int c)
  | .grouped inner => foldComptimeExpr folder inner
  | .block _ => .unknown
  | expr => folder.other expr

/-! ## At `usize` -/

/-- The bits of a `usize`. -/
def usizeFromBits (raw : ℕ) : ComptimeFold :=
  match comptimeIntFromBits raw 64 false with
  | none => .trap
  | some n => .value (.int n)

/-- `contextualComptimeValue` at `usize`. -/
def contextualUsize (folder : Folder) : ComptimeValue → ComptimeFold
  | .int n =>
    if n < 0 then .trap
    else if lowMask 64 < n.toNat then .trap
    else usizeFromBits (bitCastToU128 n)
  | .uint n => if lowMask 64 < n then .trap else usizeFromBits n
  | .float x => ofValue (folder.castFloat x)
  | _ => .unknown

def contextualFold (folder : Folder) : ComptimeFold → ComptimeFold
  | .value value => contextualUsize folder value
  | fold => fold

/-- `foldComptimeUnaryExpected`, behind the fold of its operand. -/
def foldUnaryUsize (folder : Folder) (op : UnaryOp) : ComptimeFold → ComptimeFold
  | .value operand =>
    match op with
    | .neg =>
      contextualFold folder <|
        match operand with
        | .int value => foldComptimeIntegerNeg (some usizeDomain) value
        | .uint value => foldComptimeUnsignedNeg (some usizeDomain) value
        | .float x =>
          match contextualUsize folder (.float x) with
          | .value (.float x) =>
            .value (.float { x with bits := x.bits ^^^ (if x.width == 32 then 2 ^ 31 else 2 ^ 63) })
          | .value _ => .unknown
          | fold => fold
        | _ => .unknown
    | .bitNot =>
      contextualFold folder <|
        match operand with
        | .int value =>
          contextualUsize folder
            (comptimeUnsignedValue (complement128 (bitCastToU128 value) &&& lowMask 64))
        | .uint value =>
          contextualUsize folder (comptimeUnsignedValue (complement128 value &&& lowMask 64))
        | _ => .unknown
    | .logicalNot => foldComptimeLogicalNot operand
  | fold => fold

/-- `and` and `or`: the left operand may decide. -/
def foldLogical (isAnd : Bool) (left right : ComptimeFold) : ComptimeFold :=
  match left with
  | .value (.boolean decided) =>
    if decided != isAnd then .value (.boolean decided)
    else
      match right with
      | .value (.boolean value) => .value (.boolean value)
      | .value _ => .unknown
      | fold => fold
  | .value _ => .unknown
  | fold => fold

def foldOperands (folder : Folder) (op : BinaryOp) (left right : ComptimeFold) : ComptimeFold :=
  match left, right with
  | .value left, .value right =>
    foldComptimeBinaryOperands folder.floats (operator op) left right (some usizeDomain)
  | .value _, fold => fold
  | fold, _ => fold

/-- The expected type goes on to the operands of arithmetic. -/
def contextApplies : BinaryOp → Bool
  | .add | .sub | .mul | .div | .mod | .bitAnd | .bitOr | .bitXor | .shl | .shr => true
  | _ => false

/-- `foldComptimeExprExpected` at `usize`. -/
def foldUsize (folder : Folder) : Expr → ComptimeFold
  | .grouped inner => foldUsize folder inner
  | .binary op left right =>
    if op = .logicalAnd ∨ op = .logicalOr then
      foldLogical (op = .logicalAnd) (foldComptimeExpr folder left) (foldComptimeExpr folder right)
    else if contextApplies op then
      foldOperands folder op (foldUsize folder left) (foldUsize folder right)
    else foldOperands folder op (foldComptimeExpr folder left) (foldComptimeExpr folder right)
  | .unary op operand => foldUnaryUsize folder op (foldComptimeExpr folder operand)
  | .arrayLiteral items => foldComptimeExpr folder (.arrayLiteral items)
  | .structLiteral fields => foldComptimeExpr folder (.structLiteral fields)
  | expr => contextualFold folder (foldComptimeExpr folder expr)

/-! ## Constants in array lengths -/

def usizeOf : ComptimeFold → Option ℕ
  | .value (.int n) => if 0 ≤ n ∧ n ≤ maxUsize then some n.toNat else none
  | .value (.uint n) => castUsize n
  | _ => none

/-- `comptimeUsizeValueWithReflect`: without functions and globals there is no constant. -/
def comptimeUsizeValue (folder : Folder) (hasConstants : Bool) (expr : Expr) : Option ℕ :=
  if hasConstants then usizeOf (foldComptimeExpr folder expr) else none

/-! ## The number that a length is -/

def integerOf : ComptimeFold → Option ℤ
  | .value (.int n) => some n
  | .value (.uint n) => some n
  | _ => none

def exactBinary (left right : ℤ) : BinaryOp → Option ℤ
  | .add => some (left + right)
  | .sub => some (left - right)
  | .mul => some (left * right)
  | .div => if right = 0 then none else some (left.tdiv right)
  | .mod => if right = 0 then none else some (left.tmod right)
  | .shl => if right < 0 then none else some (left * 2 ^ right.toNat)
  | .shr => if right < 0 then none else some (left / 2 ^ right.toNat)
  | _ => none

/-- The value of an expression in unbounded integers; that of a constant is what it folds to. -/
def exactValue (folder : Folder) : Expr → Option ℤ
  | .intLiteral text => (Syntax.parseIntegerLiteral text).map fun magnitude : ℕ => (magnitude : ℤ)
  | .charLiteral text => (parseCharLiteral text).map fun c : ℕ => (c : ℤ)
  | .grouped inner => exactValue folder inner
  | .binary op left right =>
    (exactValue folder left).bind fun left =>
      (exactValue folder right).bind fun right => exactBinary left right op
  | .call callee typeArgs args => integerOf (foldComptimeExpr folder (.call callee typeArgs args))
  | .ident id => integerOf (foldComptimeExpr folder (.ident id))
  | .block [.ret (some value)] => exactValue folder value
  | _ => none

/-- No shift to the left in a length loses a bit. -/
def ShiftsFit (folder : Folder) : Expr → Prop
  | .grouped inner => ShiftsFit folder inner
  | .binary op left right =>
    ShiftsFit folder left ∧ ShiftsFit folder right ∧
      (op = .shl → ∀ value count, exactValue folder left = some value →
        exactValue folder right = some count → value * 2 ^ count.toNat ≤ maxUsize)
  | .block [.ret (some value)] => ShiftsFit folder value
  | _ => True

/-- No part of a length is a block. -/
def NoBlock : Expr → Prop
  | .grouped inner => NoBlock inner
  | .binary _ left right => NoBlock left ∧ NoBlock right
  | .block _ => False
  | _ => True

end ModernC.Layout
