import Mathlib.Algebra.Group.Int.Defs
import Mathlib.Data.Option.Basic
import ModernC.Syntax.Ast
import ModernC.Syntax.IntegerLiteral

/-!
# Layout arithmetic

The layout of scalars, arrays, structs and unions as `layout.zig`, `numeric.zig` and
`array_len.zig` compute it, in the 128-bit signed layout domain.  The walks over fields and
payloads take the size and the alignment of a type as callbacks: two engines supply them.
-/

namespace ModernC.Layout

open Syntax (Expr TypeExpr BinaryOp)

/-! ## Arithmetic -/

def maxI128 : ℤ := 2 ^ 127 - 1

def minI128 : ℤ := -2 ^ 127

def maxU64 : ℤ := 2 ^ 64 - 1

/-- `std.math.add` on `i128`. -/
def addI128 (left right : ℤ) : Option ℤ :=
  if minI128 ≤ left + right ∧ left + right ≤ maxI128 then some (left + right) else none

/-- `std.math.mul` on `i128`. -/
def mulI128 (left right : ℤ) : Option ℤ :=
  if minI128 ≤ left * right ∧ left * right ≤ maxI128 then some (left * right) else none

/-- `std.math.cast` to `u64`. -/
def castU64 (value : ℤ) : Option ℤ := if 0 ≤ value ∧ value ≤ maxU64 then some value else none

def alignForward (value alignment : ℤ) : Option ℤ :=
  if alignment ≤ 0 then none
  else if value.tmod alignment = 0 then some value
  else addI128 value (alignment - value.tmod alignment)

variable {left right value : ℤ}

lemma addI128_eq (h : addI128 left right = some value) :
    value = left + right :=
  (Option.ite_none_right_eq_some.mp h).2 |> Option.some.inj |>.symm

lemma mulI128_eq (h : mulI128 left right = some value) :
    value = left * right :=
  (Option.ite_none_right_eq_some.mp h).2 |> Option.some.inj |>.symm

/-- Aligning goes to the next multiple of the alignment. -/
lemma alignForward_spec {alignment aligned : ℤ} (hvalue : 0 ≤ value)
    (h : alignForward value alignment = some aligned) :
    0 < alignment ∧ alignment ∣ aligned ∧ value ≤ aligned ∧ aligned < value + alignment := by
  rw [alignForward] at h
  obtain ⟨hpos, h⟩ := Option.ite_none_left_eq_some.mp h
  have hpos : 0 < alignment := by omega
  rw [Int.tmod_eq_emod_of_nonneg hvalue] at h
  have hmod := Int.emod_lt_of_pos value hpos
  have hmod' := Int.emod_nonneg value (by omega : alignment ≠ 0)
  split at h
  · next hzero =>
    obtain rfl : value = aligned := Option.some.inj h
    exact ⟨hpos, Int.dvd_of_emod_eq_zero hzero, by omega, by omega⟩
  · obtain rfl := addI128_eq h
    refine ⟨hpos, ?_, by omega, by omega⟩
    have hself : alignment ∣ value - value % alignment := Int.dvd_self_sub_emod
    have hsum : value + (alignment - value % alignment) =
        value - value % alignment + alignment := by omega
    rw [hsum]
    exact Int.dvd_add hself (Int.dvd_refl alignment)

def comptimeLayoutAdd (left right : ℤ) : Option ℤ :=
  if left < 0 ∨ right < 0 then none else addI128 left right

lemma comptimeLayoutAdd_spec (h : comptimeLayoutAdd left right = some value) :
    0 ≤ left ∧ 0 ≤ right ∧ value = left + right := by
  obtain ⟨hpos, h⟩ := Option.ite_none_left_eq_some.mp h
  exact ⟨by omega, by omega, addI128_eq h⟩

def comptimeArraySize (len elemSize : ℤ) : Option ℤ :=
  if elemSize < 0 then none else if len < 0 then none else mulI128 len elemSize

lemma comptimeArraySize_spec {len elemSize : ℤ} (h : comptimeArraySize len elemSize = some value) :
    0 ≤ len ∧ 0 ≤ elemSize ∧ value = len * elemSize := by
  obtain ⟨helem, h⟩ := Option.ite_none_left_eq_some.mp h
  obtain ⟨hlen, h⟩ := Option.ite_none_left_eq_some.mp h
  exact ⟨by omega, by omega, mulI128_eq h⟩

def comptimeBitOffset (byteOffset : ℤ) : Option ℤ := comptimeArraySize 8 byteOffset

/-! ## Scalars -/

def scalarTable : List (String × ℤ) :=
  [("usize", 8), ("isize", 8), ("PAddr", 8), ("VAddr", 8), ("DmaAddr", 8), ("u8", 1), ("i8", 1),
    ("bool", 1), ("u16", 2), ("i16", 2), ("u32", 4), ("i32", 4), ("f32", 4), ("u64", 8),
    ("i64", 8), ("f64", 8), ("u128", 16), ("i128", 16)]

/-- The size of a scalar, which is its alignment too. -/
def scalarLayout (name : String) : Option ℤ := scalarTable.lookup name

lemma scalarLayout_pos {name : String} {size : ℤ} (h : scalarLayout name = some size) :
    0 < size := by
  have hall : ∀ entry ∈ scalarTable, 0 < entry.2 := by decide
  obtain ⟨before, after, htable, -⟩ := List.lookup_eq_some_iff.mp h
  exact hall (name, size) (htable ▸ by simp)

/-! ## Array lengths -/

def maxUsize : ℕ := 2 ^ 64 - 1

def castUsize (value : ℕ) : Option ℕ := if value ≤ maxUsize then some value else none

/-- `parseCharLiteral`. -/
def parseCharLiteral (literal : String) : Option ℕ :=
  match literal.toList with
  | ['\'', c, '\''] => if c.toNat < 128 then some c.toNat else none
  | ['\'', '\\', '\\', '\''] => some '\\'.toNat
  | ['\'', '\\', '\'', '\''] => some '\''.toNat
  | ['\'', '\\', '"', '\''] => some '"'.toNat
  | ['\'', '\\', '0', '\''] => some 0
  | ['\'', '\\', 'n', '\''] => some 10
  | ['\'', '\\', 'r', '\''] => some 13
  | ['\'', '\\', 't', '\''] => some 9
  | _ => none

def foldLength (left right : ℕ) : BinaryOp → Option ℕ
  | .add => castUsize (left + right)
  | .sub => if right ≤ left then some (left - right) else none
  | .mul => castUsize (left * right)
  | .div => if right = 0 then none else some (left / right)
  | .mod => if right = 0 then none else some (left % right)
  | .shl => if 64 ≤ right then none else some (left * 2 ^ right % 2 ^ 64)
  | .shr => if 64 ≤ right then none else some (left / 2 ^ right)
  | _ => none

/-- The length of an array type.  `comptime` folds calls and identifiers with the constant
functions and globals at hand; without any it folds nothing. -/
def parseArrayLen (comptime : Expr → Option ℕ) : Expr → Option ℕ
  | .intLiteral text => (Syntax.parseIntegerLiteral text).bind castUsize
  | .charLiteral text => parseCharLiteral text
  | .grouped inner => parseArrayLen comptime inner
  | .binary op left right =>
    (parseArrayLen comptime left).bind fun left =>
      (parseArrayLen comptime right).bind fun right => foldLength left right op
  | .call callee typeArgs args => comptime (.call callee typeArgs args)
  | .ident id => comptime (.ident id)
  | .block [.ret (some value)] => parseArrayLen comptime value
  | _ => none

/-- A length that folds without constants folds to the same with them. -/
lemma parseArrayLen_of_none {comptime : Expr → Option ℕ} {expr : Expr} {len : ℕ}
    (h : parseArrayLen (fun _ => none) expr = some len) : parseArrayLen comptime expr = some len := by
  fun_induction parseArrayLen (fun _ => none) expr generalizing len with
  | case1 text | case2 text => rw [parseArrayLen]; exact h
  | case3 inner ih | case7 _ ih => rw [parseArrayLen]; exact ih h
  | case4 op left right ihLeft ihRight =>
    obtain ⟨l, hl, h⟩ := Option.bind_eq_some_iff.mp h
    obtain ⟨r, hr, h⟩ := Option.bind_eq_some_iff.mp h
    rw [parseArrayLen, ihLeft hl, Option.bind_some, ihRight hr, Option.bind_some, h]
  | case5 | case6 => cases h
  | case8 => cases h

/-! ## Structs and unions -/

structure Field where
  name : String
  ty : TypeExpr
  offset : Option ℕ := none

/-- Where a walk over the fields stands: the end of the last field or the largest size, the
largest alignment, and the offset of the wanted field. -/
structure LayoutState where
  offset : ℤ := 0
  maxAlign : ℤ := 1
  found : Option ℤ := none
deriving DecidableEq

structure StructLayout where
  size : ℤ
  alignment : ℤ
  fieldOffset : Option ℤ
deriving DecidableEq

/-- A size that must not be negative. -/
def nonNegative (sizeOf : TypeExpr → Option ℤ) (ty : TypeExpr) : Option ℤ :=
  (sizeOf ty).filter (0 ≤ ·)

section Walks

variable (sizeOf alignOf : TypeExpr → Option ℤ) (wanted : Option String)

def foundAt (field : Field) (offset : ℤ) (found : Option ℤ) : Option ℤ :=
  if wanted = some field.name then some offset else found

/-- The offset of a field: an explicit one must not overlap the fields before it. -/
def fieldStart (offset alignment : ℤ) : Option ℕ → Option ℤ
  | some explicit => if (explicit : ℤ) < offset then none else some explicit
  | none => alignForward offset alignment

def structStep (add : ℤ → ℤ → Option ℤ) (state : LayoutState) (field : Field) :
    Option LayoutState := do
  let size ← sizeOf field.ty
  let alignment ← (alignOf field.ty).filter (0 < ·)
  let start ← fieldStart state.offset alignment field.offset
  let stop ← add start size
  some
    { offset := stop
      maxAlign := max state.maxAlign alignment
      found := foundAt wanted field start state.found }

lemma structStep_eq_some {add : ℤ → ℤ → Option ℤ} {state next : LayoutState} {field : Field} :
    structStep sizeOf alignOf wanted add state field = some next ↔
      ∃ size alignment start stop, sizeOf field.ty = some size ∧
        alignOf field.ty = some alignment ∧ 0 < alignment ∧
        fieldStart state.offset alignment field.offset = some start ∧
        add start size = some stop ∧
        next =
          { offset := stop
            maxAlign := max state.maxAlign alignment
            found := foundAt wanted field start state.found } := by
  simp only [structStep, Option.bind_eq_bind, Option.bind_eq_some_iff,
    Option.filter_eq_some_iff, decide_eq_true_eq, Option.some.injEq]
  constructor
  · rintro ⟨size, hsize, alignment, ⟨halign, hpos⟩, start, hstart, stop, hstop, rfl⟩
    exact ⟨size, alignment, start, stop, hsize, halign, hpos, hstart, hstop, rfl⟩
  · rintro ⟨size, alignment, start, stop, hsize, halign, hpos, hstart, hstop, rfl⟩
    exact ⟨size, hsize, alignment, ⟨halign, hpos⟩, start, hstart, stop, hstop, rfl⟩

def unionStep (state : LayoutState) (field : Field) : Option LayoutState := do
  let size ← sizeOf field.ty
  let alignment ← (alignOf field.ty).filter (0 < ·)
  some
    { offset := max state.offset size
      maxAlign := max state.maxAlign alignment
      found := foundAt wanted field 0 state.found }

lemma unionStep_eq_some {state next : LayoutState} {field : Field} :
    unionStep sizeOf alignOf wanted state field = some next ↔
      ∃ size alignment, sizeOf field.ty = some size ∧ alignOf field.ty = some alignment ∧
        0 < alignment ∧
        next =
          { offset := max state.offset size
            maxAlign := max state.maxAlign alignment
            found := foundAt wanted field 0 state.found } := by
  simp only [unionStep, Option.bind_eq_bind, Option.bind_eq_some_iff,
    Option.filter_eq_some_iff, decide_eq_true_eq, Option.some.injEq]
  constructor
  · rintro ⟨size, hsize, alignment, ⟨halign, hpos⟩, rfl⟩
    exact ⟨size, alignment, hsize, halign, hpos, rfl⟩
  · rintro ⟨size, alignment, hsize, halign, hpos, rfl⟩
    exact ⟨size, hsize, alignment, ⟨halign, hpos⟩, rfl⟩

def finishLayout (state : LayoutState) : Option StructLayout :=
  (alignForward state.offset state.maxAlign).map fun size =>
    { size, alignment := state.maxAlign, fieldOffset := state.found }

/-- The layout of a struct, whose ends of fields are added up by `add`. -/
def structLayout (add : ℤ → ℤ → Option ℤ) (fields : List Field) : Option StructLayout :=
  (fields.foldlM (structStep sizeOf alignOf wanted add) {}).bind finishLayout

/-- The layout of a C union or an overlay union. -/
def unionLayout (fields : List Field) : Option StructLayout :=
  (fields.foldlM (unionStep sizeOf alignOf wanted) {}).bind finishLayout

end Walks

end ModernC.Layout
