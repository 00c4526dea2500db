import Mathlib.Algebra.Group.Nat.Defs
import Mathlib.Data.List.Infix
import Mathlib.Data.List.TakeWhile

/-!
# Integer literals

An integer literal is a decimal or hexadecimal number, with separators between its digits and an
integer type as a suffix.
-/

namespace ModernC.Syntax

inductive IntegerSuffix where
  | u8
  | u16
  | u32
  | u64
  | u128
  | usize
  | i8
  | i16
  | i32
  | i64
  | i128
  | isize
deriving DecidableEq

def IntegerSuffix.typeName : IntegerSuffix → String
  | .u8 => "u8"
  | .u16 => "u16"
  | .u32 => "u32"
  | .u64 => "u64"
  | .u128 => "u128"
  | .usize => "usize"
  | .i8 => "i8"
  | .i16 => "i16"
  | .i32 => "i32"
  | .i64 => "i64"
  | .i128 => "i128"
  | .isize => "isize"

def integerSuffix (raw : List Char) : Option IntegerSuffix :=
  [IntegerSuffix.u8, .u16, .u32, .u64, .u128, .usize, .i8, .i16, .i32, .i64, .i128, .isize].find?
    fun suffix => suffix.typeName.toList == raw

/-- The digits, and the suffix after the last separator where that is an integer type. -/
def splitSuffix (digits : List Char) : List Char × Option IntegerSuffix :=
  let last := (digits.reverse.takeWhile (· != '_')).reverse
  if last.length = digits.length then (digits, none)
  else
    match integerSuffix last with
    | none => (digits, none)
    | some suffix => (digits.take (digits.length - last.length - 1), some suffix)

def digitValue (c : Char) : Option ℕ :=
  if '0' ≤ c ∧ c ≤ '9' then some (c.toNat - '0'.toNat)
  else if 'a' ≤ c ∧ c ≤ 'f' then some (c.toNat - 'a'.toNat + 10)
  else if 'A' ≤ c ∧ c ≤ 'F' then some (c.toNat - 'A'.toNat + 10)
  else none

def maxMagnitude : ℕ := 2 ^ 128 - 1

/-- Read digits on; a separator must stand between two digits. -/
def parseDigits (radix : ℕ) (magnitude : ℕ) (afterDigit : Bool) : List Char → Option ℕ
  | [] => some magnitude
  | c :: rest =>
    if c = '_' then
      if !afterDigit || rest.isEmpty then none else parseDigits radix magnitude false rest
    else do
      let digit ← digitValue c
      if digit ≥ radix then none
      else if magnitude * radix > maxMagnitude then none
      else if magnitude * radix + digit > maxMagnitude then none
      else parseDigits radix (magnitude * radix + digit) true rest

structure ParsedIntegerLiteral where
  magnitude : ℕ
  suffix : Option IntegerSuffix
deriving DecidableEq

def parseIntegerLiteralParts (raw : String) : Option ParsedIntegerLiteral :=
  let hex := "0x".toList.isPrefixOf raw.toList || "0X".toList.isPrefixOf raw.toList
  let digits := if hex then raw.toList.drop 2 else raw.toList
  let (digits, suffix) := splitSuffix digits
  if digits.isEmpty then none
  else (parseDigits (if hex then 16 else 10) 0 false digits).map fun magnitude =>
    { magnitude, suffix }

def parseIntegerLiteral (raw : String) : Option ℕ :=
  (parseIntegerLiteralParts raw).map ParsedIntegerLiteral.magnitude

/-! ## Printed numbers -/

lemma digitValue_of_isDigit {c : Char} (h : c.isDigit = true) :
    digitValue c = some (c.toNat - '0'.toNat) ∧ c.toNat - '0'.toNat < 10 ∧ c ≠ '_' := by
  rw [Char.isDigit, Bool.and_eq_true, decide_eq_true_eq, decide_eq_true_eq] at h
  refine ⟨if_pos h, ?_, ?_⟩
  · have hle : c.toNat ≤ '9'.toNat := h.2
    show c.toNat - 48 < 10
    have hnine : '9'.toNat = 57 := rfl
    omega
  · rintro rfl
    exact absurd h.2 (by decide)

lemma le_ofDigitChars (digits : List Char) (magnitude : ℕ) :
    magnitude ≤ Nat.ofDigitChars 10 digits magnitude := by
  rw [Nat.ofDigitChars_eq_ofDigitChars_zero]
  have hpos : 0 < 10 ^ digits.length := Nat.pow_pos (by decide)
  exact (Nat.le_mul_of_pos_left magnitude hpos).trans (Nat.le_add_right _ _)

variable {digits : List Char}

/-- Decimal digits without separators are read as the number they denote. -/
lemma parseDigits_eq (hdigits : ∀ c ∈ digits, c.isDigit = true) {magnitude : ℕ} (afterDigit : Bool)
    (hmax : Nat.ofDigitChars 10 digits magnitude ≤ maxMagnitude) :
    parseDigits 10 magnitude afterDigit digits = some (Nat.ofDigitChars 10 digits magnitude) := by
  induction digits generalizing magnitude afterDigit with
  | nil => rfl
  | cons c digits ih =>
    obtain ⟨hvalue, hlt, hseparator⟩ := digitValue_of_isDigit (hdigits c List.mem_cons_self)
    rw [Nat.ofDigitChars_cons, Nat.mul_comm 10 magnitude] at hmax ⊢
    have hnext := (le_ofDigitChars _ _).trans hmax
    rw [parseDigits, if_neg hseparator, hvalue]
    show (if _ then _ else _) = _
    rw [if_neg (Nat.not_le_of_lt hlt), if_neg (by omega), if_neg (by omega)]
    exact ih (fun c' hc' => hdigits c' (List.mem_cons_of_mem _ hc')) true hmax

lemma not_isPrefixOf_of_isDigit (hdigits : ∀ c ∈ digits, c.isDigit = true)
    {start : List Char} {c : Char} (hc : c ∈ start) (hletter : c.isDigit = false) :
    start.isPrefixOf digits = false := by
  rw [← Bool.not_eq_true, List.isPrefixOf_iff_prefix]
  intro hinitial
  have hdigit := hdigits c (hinitial.subset hc)
  rw [hletter] at hdigit
  exact absurd hdigit Bool.false_ne_true

lemma splitSuffix_of_isDigit (hdigits : ∀ c ∈ digits, c.isDigit = true) :
    splitSuffix digits = (digits, none) := by
  have hlast : digits.reverse.takeWhile (· != '_') = digits.reverse := by
    rw [List.takeWhile_eq_self_iff]
    intro c hc
    exact bne_iff_ne.mpr (digitValue_of_isDigit (hdigits c (List.mem_reverse.mp hc))).2.2
  rw [splitSuffix, hlast, List.reverse_reverse]
  exact if_pos rfl

/-- **Printed numbers.** A natural number of at most 128 bits is read back from its digits. -/
theorem parseIntegerLiteral_toString {n : ℕ} (h : n ≤ maxMagnitude) :
    parseIntegerLiteral (toString n) = some n := by
  have htext : (toString n).toList = Nat.toDigits 10 n := by
    rw [Nat.toString_eq_repr, Nat.toList_repr]
  have hdigits : ∀ c ∈ Nat.toDigits 10 n, c.isDigit = true := by
    intro c hc
    exact Nat.isDigit_of_mem_toDigits (by decide) (by decide) hc
  have hhex : ("0x".toList.isPrefixOf (Nat.toDigits 10 n) ||
      "0X".toList.isPrefixOf (Nat.toDigits 10 n)) = false := by
    rw [@not_isPrefixOf_of_isDigit _ hdigits "0x".toList 'x' (by decide) (by decide),
      @not_isPrefixOf_of_isDigit _ hdigits "0X".toList 'X' (by decide) (by decide)]
    rfl
  have hempty : (Nat.toDigits 10 n).isEmpty = false := by
    rw [List.isEmpty_eq_false_iff]
    exact Nat.toDigits_ne_nil
  have hvalue := @parseDigits_eq _ hdigits 0 false (by rwa [Nat.ofDigitChars_ten_toDigits])
  rw [Nat.ofDigitChars_ten_toDigits] at hvalue
  simp only [parseIntegerLiteral, parseIntegerLiteralParts, htext, hhex, Bool.false_eq_true,
    if_false, splitSuffix_of_isDigit hdigits, hempty, hvalue, Option.map_some]

end ModernC.Syntax
