import Mathlib.Data.Nat.Digits.Defs
import ModernC.Libc.Stdio

/-!
# What ISO C prints

A conversion specification has flags, a width, a precision, a length modifier and a specifier.  An
integer is printed by its digits, of which the precision asks for a least number, by what stands in
front of them, and by what fills the field.
-/

namespace ModernC.Libc

/-! ## Conversion specifications -/

inductive FlagChar where
  | minus
  | plus
  | space
  | hash
  | zero
deriving DecidableEq

def FlagChar.byte : FlagChar → UInt8
  | .minus => 45
  | .plus => 43
  | .space => 32
  | .hash => 35
  | .zero => 48

/-- A width or a precision: a numeral, or an argument. -/
inductive Amount where
  | number (digits : List (Fin 10))
  | star
deriving DecidableEq

def digitByte (d : Fin 10) : UInt8 := UInt8.ofNat (48 + d)

def Amount.bytes : Amount → List UInt8
  | .number digits => digits.map digitByte
  | .star => [42]

/-- Length modifiers for integers. -/
inductive Modifier where
  | none
  | hh
  | h
  | l
  | ll
  | j
  | z
  | t
deriving DecidableEq

def Modifier.bytes : Modifier → List UInt8
  | .none => []
  | .hh => [104, 104]
  | .h => [104]
  | .l => [108]
  | .ll => [108, 108]
  | .j => [106]
  | .z => [122]
  | .t => [116]

/-- The bits of the type that a modifier stands for. -/
def Modifier.bits : Modifier → ℕ
  | .none => 32
  | .hh => 8
  | .h => 16
  | _ => 64

inductive Specifier where
  | d
  | i
  | o
  | u
  | x
  | X
  | c
deriving DecidableEq

def Specifier.byte : Specifier → UInt8
  | .d => 100
  | .i => 105
  | .o => 111
  | .u => 117
  | .x => 120
  | .X => 88
  | .c => 99

def Specifier.base : Specifier → ℕ
  | .o => 8
  | .x | .X => 16
  | _ => 10

/-- The letters of the digits are upper case. -/
def Specifier.upper (specifier : Specifier) : Bool := decide (specifier = .X)

/-- A conversion specification.  Its width is a numeral that does not start with a zero, which would
be a flag. -/
structure Specification where
  flags : List FlagChar
  width : Option Amount
  precision : Option Amount
  modifier : Modifier
  specifier : Specifier
  width_starts : ∀ digits, width = some (.number digits) → ∃ d rest, digits = d :: rest ∧ d ≠ 0

namespace Specification

variable (c : Specification)

def precisionBytes : List UInt8 :=
  match c.precision with
  | none => []
  | some amount => 46 :: amount.bytes

/-- How a specification is written. -/
def bytes : List UInt8 :=
  37 :: (c.flags.map FlagChar.byte ++ ((c.width.map Amount.bytes).getD [] ++
    (c.precisionBytes ++ (c.modifier.bytes ++ [c.specifier.byte]))))

end Specification

/-! ## Requests -/

/-- The number that a numeral denotes. -/
def numeral (digits : List (Fin 10)) : ℕ := digits.foldl (fun n d => n * 10 + d.val) 0

/-- What a specification asks for, with the arguments of its stars, and the argument to convert. -/
structure FormatRequest where
  flags : List FlagChar
  width : ℕ
  precision : Option ℕ
  argument : ℕ
deriving DecidableEq

namespace Specification

variable (c : Specification) (args : Args) (k : ℕ)

/-- The width.  It has a sign where it is an argument. -/
def signedWidth : ℤ :=
  match c.width with
  | none => 0
  | some (.number digits) => numeral digits
  | some .star => argI32 args k

/-- The argument behind the one of the width. -/
def afterWidth : ℕ := if c.width = some .star then k + 1 else k

/-- The precision.  A negative argument is taken as if there were none. -/
def precisionValue : Option ℕ :=
  match c.precision with
  | none => none
  | some (.number digits) => some (numeral digits)
  | some .star =>
    if argI32 args (c.afterWidth k) < 0 then none else some (argI32 args (c.afterWidth k)).toNat

/-- A negative width is a `-` flag and a positive width. -/
def request : FormatRequest where
  flags := if c.signedWidth args k < 0 then .minus :: c.flags else c.flags
  width := (c.signedWidth args k).natAbs
  precision := c.precisionValue args k
  argument := if c.precision = some .star then c.afterWidth k + 1 else c.afterWidth k

end Specification

/-! ## Texts -/

def isoDigit (upper : Bool) (d : ℕ) : UInt8 :=
  (if upper then [48, 49, 50, 51, 52, 53, 54, 55, 56, 57, 65, 66, 67, 68, 69, 70]
  else [48, 49, 50, 51, 52, 53, 54, 55, 56, 57, 97, 98, 99, 100, 101, 102]).getD d 0

/-- The digits of a number, none for zero. -/
def isoDigits (base : ℕ) (upper : Bool) (v : ℕ) : List UInt8 :=
  (Nat.digits base v).reverse.map (isoDigit upper)

/-- At least so many digits. -/
def atLeast (least : ℕ) (digits : List UInt8) : List UInt8 :=
  List.replicate (least - digits.length) 48 ++ digits

/-- The alternate form of an octal number increases the precision, if its first digit is not a
zero. -/
def isoBody (r : FormatRequest) (base : ℕ) (upper : Bool) (v : ℕ) : List UInt8 :=
  let digits := isoDigits base upper v
  let body := atLeast (r.precision.getD 1) digits
  if .hash ∈ r.flags ∧ base = 8 ∧ body.head? ≠ some 48 then atLeast (digits.length + 1) digits
  else body

/-- The alternate form of a hexadecimal number that is not zero. -/
def isoPrefix (r : FormatRequest) (base : ℕ) (upper : Bool) (v : ℕ) : List UInt8 :=
  if .hash ∈ r.flags ∧ base = 16 ∧ v ≠ 0 then [48, if upper then 88 else 120] else []

/-- The sign of a signed conversion. -/
def isoSign (r : FormatRequest) (v : ℤ) : List UInt8 :=
  if v < 0 then [45] else if .plus ∈ r.flags then [43] else if .space ∈ r.flags then [32] else []

def isoField (r : FormatRequest) (lead body : List UInt8) : List UInt8 :=
  let pad := r.width - (lead.length + body.length)
  if .minus ∈ r.flags then lead ++ body ++ List.replicate pad 32
  else if .zero ∈ r.flags ∧ r.precision = none then lead ++ List.replicate pad 48 ++ body
  else List.replicate pad 32 ++ (lead ++ body)

/-- The text of a signed number. -/
def isoSigned (r : FormatRequest) (v : ℤ) : List UInt8 :=
  isoField r (isoSign r v) (isoBody r 10 false v.natAbs)

/-- The text of an unsigned number. -/
def isoUnsigned (r : FormatRequest) (base : ℕ) (upper : Bool) (v : ℕ) : List UInt8 :=
  isoField r (isoPrefix r base upper v) (isoBody r base upper v)

/-- The text of a character. -/
def isoChar (r : FormatRequest) (b : UInt8) : List UInt8 := isoField r [] [b]

namespace Specification

variable (c : Specification) (args : Args) (k : ℕ)

/-- ISO C says what the specification does.  What `lc` prints is up to the locale. -/
def Defined : Prop :=
  (.hash ∈ c.flags → c.specifier = .o ∨ c.specifier = .x ∨ c.specifier = .X) ∧
    (c.specifier = .c →
      .zero ∉ c.flags ∧ (c.request args k).precision = none ∧ c.modifier = .none)

/-- The argument, converted to the type that the modifier stands for. -/
def signedValue : ℤ := ((args (c.request args k).argument).setWidth c.modifier.bits).toInt

def unsignedValue : ℕ := ((args (c.request args k).argument).setWidth c.modifier.bits).toNat

/-- The text that ISO C prescribes. -/
def isoText : List UInt8 :=
  match c.specifier with
  | .d | .i => isoSigned (c.request args k) (c.signedValue args k)
  | .c => isoChar (c.request args k) (UInt8.ofNat (args (c.request args k).argument).toNat)
  | .u | .o | .x | .X =>
    isoUnsigned (c.request args k) c.specifier.base c.specifier.upper (c.unsignedValue args k)

end Specification

end ModernC.Libc

/-!
## Directives

The formatter reads a conversion specification as a directive.  It traps where a width or a
precision does not fit.
-/

namespace ModernC.Libc

open Framework

variable {m : Memory} {args : Args} {fuel p k : ℕ} {f : Flags} {text rest : List UInt8}

/-! ## Flags -/

/-- Flags with more flags. -/
def Flags.with (f : Flags) (flags : List FlagChar) : Flags where
  minus := f.minus || decide (.minus ∈ flags)
  zero := f.zero || decide (.zero ∈ flags)
  plus := f.plus || decide (.plus ∈ flags)
  space := f.space || decide (.space ∈ flags)
  hash := f.hash || decide (.hash ∈ flags)

/-- The bytes that are not flags. -/
def NoFlag (b : UInt8) : Prop := b ∉ ([45, 48, 43, 32, 35] : List UInt8)

instance (b : UInt8) : Decidable (NoFlag b) := inferInstanceAs (Decidable (b ∉ _))

lemma setFlag_of_noFlag {b : UInt8} (h : NoFlag b) : setFlag f b = none := by
  simp only [NoFlag, List.mem_cons, List.not_mem_nil, or_false, not_or] at h
  obtain ⟨hminus, hzero, hplus, hspace, hhash⟩ := h
  rw [setFlag, if_neg hminus, if_neg hzero, if_neg hplus, if_neg hspace, if_neg hhash]

lemma setFlag_byte (flag : FlagChar) : setFlag f flag.byte = some (f.with [flag]) := by
  cases flag <;> simp [setFlag, FlagChar.byte, Flags.with]

lemma Flags.with_with (flag : FlagChar) (flags : List FlagChar) :
    (f.with [flag]).with flags = f.with (flag :: flags) := by
  simp only [Flags.with, List.mem_cons, List.not_mem_nil, or_false, Bool.decide_or, Bool.or_assoc]

lemma FlagChar.byte_ne (flag : FlagChar) : flag.byte ≠ 0 := by cases flag <;> decide

/-- **Flags are read up to the first byte that is none.** -/
lemma parseFlags_text (flags : List FlagChar) (htext : TextAt m p (flags.map FlagChar.byte ++ rest))
    (hrest : NoFlag (firstByte rest)) (hfuel : flags.length < fuel) :
    parseFlags m fuel p f = some (f.with flags, p + flags.length) := by
  induction flags generalizing fuel p f with
  | nil =>
    obtain ⟨fuel, rfl⟩ : ∃ fuel', fuel = fuel' + 1 := ⟨fuel - 1, by omega⟩
    have hnone : setFlag f (m p) = none := by
      rw [htext.first]
      exact setFlag_of_noFlag hrest
    rw [parseFlags, hnone]
    simp [Flags.with]
  | cons flag flags ih =>
    rw [List.length_cons] at hfuel
    obtain ⟨fuel, rfl⟩ : ∃ fuel', fuel = fuel' + 1 := ⟨fuel - 1, by omega⟩
    have hbyte : m p = flag.byte := htext.first
    have hadd : checkedAdd 64 p 1 = some (p + 1) :=
      if_pos (htext.succ_lt (by rw [hbyte]; exact flag.byte_ne))
    have hrun := ih (f := f.with [flag]) htext.tail (Nat.lt_of_succ_lt_succ hfuel)
    rw [parseFlags, hbyte, setFlag_byte]
    dsimp only
    rw [hadd, Option.bind_some, hrun, Flags.with_with, List.length_cons, Nat.add_assoc,
      Nat.add_comm 1]

/-! ## Numerals -/

lemma isDecimal_digitByte (d : Fin 10) : isDecimal (digitByte d) = true := by decide +revert

lemma digitByte_sub (d : Fin 10) : (digitByte d - 48).toNat = d.val := by decide +revert

lemma digitByte_ne (d : Fin 10) : digitByte d ≠ 0 := by decide +revert

/-- A number with more digits. -/
def moreDigits (n : ℕ) (digits : List (Fin 10)) : ℕ := digits.foldl (fun n d => n * 10 + d.val) n

lemma le_moreDigits (n : ℕ) (digits : List (Fin 10)) : n ≤ moreDigits n digits := by
  induction digits generalizing n with
  | nil => exact Nat.le_refl n
  | cons d digits ih =>
    have hrest : n * 10 + d.val ≤ moreDigits n (d :: digits) := ih _
    omega

/-- **A numeral is read if it fits.** -/
lemma parseNumber_text {bits n : ℕ} (digits : List (Fin 10))
    (htext : TextAt m p (digits.map digitByte ++ rest))
    (hrest : isDecimal (firstByte rest) = false) (hfuel : digits.length < fuel)
    (hn : n < 2 ^ bits) :
    parseNumber m bits fuel p n =
      if moreDigits n digits < 2 ^ bits then some (moreDigits n digits, p + digits.length)
      else none := by
  induction digits generalizing fuel p n with
  | nil =>
    obtain ⟨fuel, rfl⟩ : ∃ fuel', fuel = fuel' + 1 := ⟨fuel - 1, by omega⟩
    have hstop : ¬isDecimal (m p) = true := by
      rw [htext.first]
      exact Bool.eq_false_iff.mp hrest
    rw [parseNumber, if_neg hstop]
    exact (if_pos hn).symm
  | cons d digits ih =>
    rw [List.length_cons] at hfuel
    obtain ⟨fuel, rfl⟩ : ∃ fuel', fuel = fuel' + 1 := ⟨fuel - 1, by omega⟩
    have hbyte : m p = digitByte d := htext.first
    have hmore : n * 10 + d.val ≤ moreDigits n (d :: digits) := le_moreDigits _ digits
    have hadd : checkedAdd 64 p 1 = some (p + 1) :=
      if_pos (htext.succ_lt (by rw [hbyte]; exact digitByte_ne d))
    rw [parseNumber, hbyte, if_pos (isDecimal_digitByte d), digitByte_sub]
    by_cases hfits : n * 10 + d.val < 2 ^ bits
    · have hmul : checkedMul bits n 10 = some (n * 10) := if_pos (by omega)
      have hsum : checkedAdd bits (n * 10) d.val = some (n * 10 + d.val) := if_pos hfits
      have hrun := ih (n := n * 10 + d.val) htext.tail (Nat.lt_of_succ_lt_succ hfuel) hfits
      simp only [hmul, hsum, hadd, hrun, Option.bind_eq_bind, Option.bind_some, List.length_cons,
        Nat.add_assoc, Nat.add_comm 1]
      rfl
    · rw [if_neg (by omega)]
      by_cases hprod : n * 10 < 2 ^ bits
      · have hmul : checkedMul bits n 10 = some (n * 10) := if_pos hprod
        have hsum : checkedAdd bits (n * 10) d.val = none := if_neg hfits
        simp only [hmul, hsum, Option.bind_eq_bind, Option.bind_some, Option.bind_none]
      · have hmul : checkedMul bits n 10 = none := if_neg hprod
        simp only [hmul, Option.bind_eq_bind, Option.bind_none]

/-! ## Where the parts start -/

variable {c : Specification}

/-- The bytes that a length modifier or a specifier starts with. -/
def typeStarts : List UInt8 := [104, 108, 106, 122, 116, 100, 105, 111, 117, 120, 88, 99]

/-- A length modifier and a specifier. -/
def Specification.typeBytes (c : Specification) : List UInt8 :=
  c.modifier.bytes ++ [c.specifier.byte]

lemma typeBytes_first (c : Specification) : firstByte c.typeBytes ∈ typeStarts := by
  rw [Specification.typeBytes]
  cases c.modifier <;> cases c.specifier <;> decide

lemma typeStarts_spec : ∀ b ∈ typeStarts, NoFlag b ∧ b ≠ 42 ∧ b ≠ 46 ∧ isDecimal b = false := by
  have hall : (typeStarts.all fun b =>
      decide (NoFlag b ∧ b ≠ 42 ∧ b ≠ 46 ∧ isDecimal b = false)) = true := by decide
  exact fun b hb => of_decide_eq_true (List.all_eq_true.mp hall b hb)

/-- Behind the width there is no flag, no star and no digit. -/
lemma precisionBytes_first (c : Specification) :
    NoFlag (firstByte (c.precisionBytes ++ c.typeBytes)) ∧
      firstByte (c.precisionBytes ++ c.typeBytes) ≠ 42 ∧
      isDecimal (firstByte (c.precisionBytes ++ c.typeBytes)) = false := by
  rw [Specification.precisionBytes]
  rcases c.precision with _ | amount
  · obtain ⟨hflag, hstar, -, hdecimal⟩ := typeStarts_spec _ (typeBytes_first c)
    exact ⟨hflag, hstar, hdecimal⟩
  · exact (by decide : NoFlag 46 ∧ (46 : UInt8) ≠ 42 ∧ isDecimal 46 = false)

/-- The bytes of a width. -/
def Specification.widthBytes (c : Specification) : List UInt8 := (c.width.map Amount.bytes).getD []

lemma widthBytes_first (hrest : NoFlag (firstByte rest)) :
    NoFlag (firstByte (c.widthBytes ++ rest)) := by
  rw [Specification.widthBytes]
  rcases hwidth : c.width with _ | (digits | _)
  · exact hrest
  · obtain ⟨d, digits', rfl, hne⟩ := c.width_starts digits hwidth
    have hfirst : ∀ d : Fin 10, d ≠ 0 → NoFlag (digitByte d) := by decide
    exact hfirst d hne
  · exact (by decide : NoFlag 42)

/-! ## Widths -/

/-- The width fits.  The least `i32` has no opposite. -/
def Specification.WidthFits (c : Specification) (args : Args) (k : ℕ) : Prop :=
  (c.request args k).width < 2 ^ 64 ∧ (c.width = some .star → argI32 args k ≠ i32Min)

instance : Decidable (c.WidthFits args k) := inferInstanceAs (Decidable (_ ∧ _))

lemma argI32_lt (args : Args) (k : ℕ) : argI32 args k < 2 ^ 31 := BitVec.toInt_lt

lemma le_argI32 (args : Args) (k : ℕ) : i32Min ≤ argI32 args k := BitVec.le_toInt _

/-- The flags of the specification and of its width. -/
def Specification.allFlags (c : Specification) (args : Args) (k : ℕ) (f : Flags) : Flags :=
  if c.signedWidth args k < 0 then { f with minus := true } else f

/-- **The width is read if it fits.** -/
lemma parseWidth_text (htext : TextAt m p (c.widthBytes ++ rest)) (hstar : firstByte rest ≠ 42)
    (hrest : isDecimal (firstByte rest) = false) :
    parseWidth m args p k f =
      if c.WidthFits args k then
        some (c.allFlags args k f, (c.request args k).width, p + c.widthBytes.length,
          c.afterWidth k)
      else none := by
  have hlt := htext.lt
  have hwidth : (c.request args k).width = (c.signedWidth args k).natAbs := rfl
  have hfits : c.WidthFits args k ↔ (c.signedWidth args k).natAbs < 2 ^ 64 ∧
      (c.width = some .star → argI32 args k ≠ i32Min) := Iff.rfl
  rw [Specification.allFlags, hwidth, Specification.afterWidth]
  rw [Specification.widthBytes] at *
  rw [Specification.signedWidth] at *
  rcases hamount : c.width with _ | (digits | _)
  · rw [hamount] at htext hfits
    have hread : parseNumber m 64 (2 ^ 64 + 1 - p) p 0 = _ :=
      parseNumber_text [] htext hrest (by rw [List.length_nil]; omega) (by decide)
    have hfirst : m p ≠ 42 := by
      rw [htext.first]
      exact hstar
    rw [parseWidth, if_neg hfirst, hread, if_pos (hfits.mpr ⟨by simp, fun h => by cases h⟩)]
    rfl
  · rw [hamount] at htext hlt hfits
    obtain ⟨d, digits', rfl, hne⟩ := c.width_starts digits hamount
    have hread : parseNumber m 64 (2 ^ 64 + 1 - p) p 0 = _ :=
      parseNumber_text (d :: digits') htext hrest (by
        simp only [Option.map_some, Option.getD_some, Amount.bytes, List.length_append,
          List.length_map] at hlt
        omega) (by decide)
    have hfirst : m p ≠ 42 := by
      have hdigit : ∀ d : Fin 10, digitByte d ≠ 42 := by decide
      rw [htext.first]
      exact hdigit d
    rw [parseWidth, if_neg hfirst, hread]
    by_cases hsmall : numeral (d :: digits') < 2 ^ 64
    · have hmore : moreDigits 0 (d :: digits') < 2 ^ 64 := hsmall
      rw [if_pos (hfits.mpr ⟨by simpa using hsmall, fun h => by cases h⟩), if_pos hmore]
      simp [moreDigits, numeral, Amount.bytes]
    · have hmore : ¬moreDigits 0 (d :: digits') < 2 ^ 64 := hsmall
      rw [if_neg hmore, if_neg fun h => hsmall (by simpa using (hfits.mp h).1)]
      rfl
  · rw [hamount] at htext hfits
    have hbyte : m p = 42 := htext.first
    have hadd : checkedAdd 64 p 1 = some (p + 1) :=
      if_pos (htext.succ_lt (by rw [hbyte]; decide))
    have hupper := argI32_lt args k
    have hlower := le_argI32 args k
    rw [i32Min] at hlower hfits
    dsimp only at hfits
    rw [parseWidth, if_pos hbyte, hadd, i32Min]
    simp only [Option.bind_eq_bind, Option.bind_some, Option.map_some, Option.getD_some,
      Amount.bytes, List.length_singleton, if_true]
    by_cases hneg : argI32 args k < 0
    · rw [if_pos hneg, if_pos hneg]
      by_cases hmin : argI32 args k = -2 ^ 31
      · rw [if_pos hmin, if_neg fun h => (hfits.mp h).2 rfl hmin]
      · have habs : (-argI32 args k).toNat = (argI32 args k).natAbs := by omega
        rw [if_neg hmin, if_pos (hfits.mpr ⟨by omega, fun _ => hmin⟩), habs]
    · have habs : (argI32 args k).toNat = (argI32 args k).natAbs := by omega
      rw [if_neg hneg, if_neg hneg, if_pos (hfits.mpr ⟨by omega, fun _ => by omega⟩), habs]

/-! ## Precisions and length modifiers -/

/-- The precision fits.  An argument always does. -/
def Specification.PrecisionFits (c : Specification) (args : Args) (k : ℕ) : Prop :=
  ∀ n ∈ (c.request args k).precision, n < 2 ^ 31

instance : Decidable (c.PrecisionFits args k) := inferInstanceAs (Decidable (∀ n ∈ _, n < _))

/-- How the program stores a precision. -/
def storedPrecision : Option ℕ → ℤ
  | none => -1
  | some n => n

/-- **The precision is read if it fits.** -/
lemma parsePrecision_text (htext : TextAt m p (c.precisionBytes ++ rest))
    (hrest : firstByte rest ∈ typeStarts) :
    parsePrecision m args p (c.afterWidth k) =
      if c.PrecisionFits args k then
        some (storedPrecision (c.request args k).precision, p + c.precisionBytes.length,
          (c.request args k).argument)
      else none := by
  have hlt := htext.lt
  have hfits : c.PrecisionFits args k ↔ ∀ n ∈ c.precisionValue args k, n < 2 ^ 31 := Iff.rfl
  have hvalue : (c.request args k).precision = c.precisionValue args k := rfl
  have hargument : (c.request args k).argument =
      if c.precision = some .star then c.afterWidth k + 1 else c.afterWidth k := rfl
  obtain ⟨-, -, hpoint, hdecimal⟩ := typeStarts_spec _ hrest
  rw [hvalue, hargument]
  rw [Specification.precisionBytes, Specification.precisionValue] at *
  -- no precision, a precision in digits, and one that is taken from the arguments
  rcases hamount : c.precision with _ | (digits | _)
  · rw [hamount] at htext hfits
    have hfirst : m p ≠ 46 := by
      rw [htext.first]
      exact hpoint
    rw [parsePrecision, if_neg hfirst, if_pos (hfits.mpr fun n hn => by cases hn)]
    rfl
  · rw [hamount] at htext hlt hfits
    have hbyte : m p = 46 := htext.first
    have hadd : checkedAdd 64 p 1 = some (p + 1) :=
      if_pos (htext.succ_lt (by rw [hbyte]; decide))
    have hread : parseNumber m 31 (2 ^ 64 + 1 - (p + 1)) (p + 1) 0 = _ :=
      parseNumber_text digits htext.tail hdecimal (by
        simp only [Amount.bytes, List.length_append, List.length_cons, List.length_map] at hlt
        omega) (by decide)
    have hfirst : m (p + 1) ≠ 42 := by
      rw [htext.tail.first]
      cases digits with
      | nil => exact (typeStarts_spec _ hrest).2.1
      | cons d digits =>
        have hdigit : ∀ d : Fin 10, digitByte d ≠ 42 := by decide
        exact hdigit d
    rw [parsePrecision, if_pos hbyte, hadd, Option.bind_eq_bind, Option.bind_some, if_neg hfirst,
      hread]
    by_cases hsmall : numeral digits < 2 ^ 31
    · have hmore : moreDigits 0 digits < 2 ^ 31 := hsmall
      have hall : c.PrecisionFits args k := hfits.mpr fun n hn => by
        cases hn
        exact hsmall
      rw [if_pos hmore, if_pos hall]
      simp [moreDigits, numeral, Amount.bytes, storedPrecision, Nat.add_assoc, Nat.add_comm 1]
    · have hmore : ¬moreDigits 0 digits < 2 ^ 31 := hsmall
      rw [if_neg hmore, if_neg fun h => hsmall (hfits.mp h _ rfl)]
      rfl
  · rw [hamount] at htext hfits
    have hbyte : m p = 46 := htext.first
    have hstar : m (p + 1) = 42 := htext.tail.first
    have hadd : checkedAdd 64 p 1 = some (p + 1) :=
      if_pos (htext.succ_lt (by rw [hbyte]; decide))
    have hadd' : checkedAdd 64 (p + 1) 1 = some (p + 1 + 1) :=
      if_pos (htext.tail.succ_lt (by rw [hstar]; decide))
    have hupper := argI32_lt args (c.afterWidth k)
    have hall : c.PrecisionFits args k := hfits.mpr fun n hn => by
      dsimp only at hn
      split at hn
      · cases hn
      · cases hn
        omega
    rw [parsePrecision, if_pos hbyte, hadd, Option.bind_eq_bind, Option.bind_some, if_pos hstar,
      hadd', if_pos hall]
    by_cases hneg : argI32 args (c.afterWidth k) < 0
    · simp [hneg, storedPrecision, Amount.bytes]
    · have habs : ((argI32 args (c.afterWidth k)).toNat : ℤ) = argI32 args (c.afterWidth k) := by
        omega
      simp [hneg, storedPrecision, Amount.bytes, habs]

/-- The length that a modifier is read as. -/
def Modifier.length : Modifier → Length
  | .none => .none
  | .hh => .hh
  | .h => .h
  | .l => .l
  | .ll | .j | .t => .ll
  | .z => .z

lemma parseLength_text (htext : TextAt m p (c.modifier.bytes ++ [c.specifier.byte])) :
    parseLength m p = some (c.modifier.length, p + c.modifier.bytes.length) := by
  have hadd : m p ≠ 0 → checkedAdd 64 p 1 = some (p + 1) := fun hne => if_pos (htext.succ_lt hne)
  have hspecifier : ∀ specifier : Specifier, specifier.byte ≠ 108 ∧ specifier.byte ≠ 104 ∧
      specifier.byte ≠ 122 ∧ specifier.byte ≠ 106 ∧ specifier.byte ≠ 116 := by
    intro specifier
    cases specifier <;> decide
  obtain ⟨hl, hh, hz, hj, ht⟩ := hspecifier c.specifier
  rw [parseLength]
  cases hmodifier : c.modifier with
  | none =>
    rw [hmodifier] at htext
    have hbyte : m p = c.specifier.byte := htext.first
    simp [hbyte, hl, hh, hz, hj, ht, Modifier.length, Modifier.bytes]
  | hh =>
    rw [hmodifier] at htext
    have hbyte : m p = 104 := htext.first
    have hbyte' : m (p + 1) = 104 := htext.tail.first
    have hadd' : checkedAdd 64 (p + 1) 1 = some (p + 1 + 1) :=
      if_pos (htext.tail.succ_lt (by rw [hbyte']; decide))
    simp [hbyte, hbyte', hadd (by rw [hbyte]; decide), hadd', Modifier.length, Modifier.bytes]
  | h =>
    rw [hmodifier] at htext
    have hbyte : m p = 104 := htext.first
    have hbyte' : m (p + 1) = c.specifier.byte := htext.tail.first
    simp [hbyte, hbyte', hh, hadd (by rw [hbyte]; decide), Modifier.length, Modifier.bytes]
  | l =>
    rw [hmodifier] at htext
    have hbyte : m p = 108 := htext.first
    have hbyte' : m (p + 1) = c.specifier.byte := htext.tail.first
    simp [hbyte, hbyte', hl, hadd (by rw [hbyte]; decide), Modifier.length, Modifier.bytes]
  | ll =>
    rw [hmodifier] at htext
    have hbyte : m p = 108 := htext.first
    have hbyte' : m (p + 1) = 108 := htext.tail.first
    have hadd' : checkedAdd 64 (p + 1) 1 = some (p + 1 + 1) :=
      if_pos (htext.tail.succ_lt (by rw [hbyte']; decide))
    simp [hbyte, hbyte', hadd (by rw [hbyte]; decide), hadd', Modifier.length, Modifier.bytes]
  | j =>
    rw [hmodifier] at htext
    have hbyte : m p = 106 := htext.first
    simp [hbyte, hadd (by rw [hbyte]; decide), Modifier.length, Modifier.bytes]
  | z =>
    rw [hmodifier] at htext
    have hbyte : m p = 122 := htext.first
    simp [hbyte, hadd (by rw [hbyte]; decide), Modifier.length, Modifier.bytes]
  | t =>
    rw [hmodifier] at htext
    have hbyte : m p = 116 := htext.first
    simp [hbyte, hadd (by rw [hbyte]; decide), Modifier.length, Modifier.bytes]

/-! ## Directives -/

/-- The directive that stands for a request. -/
def Specification.directive (c : Specification) (args : Args) (k : ℕ) : Directive where
  flags := Flags.with {} (c.request args k).flags
  width := (c.request args k).width
  prec := storedPrecision (c.request args k).precision
  length := c.modifier.length

lemma allFlags_eq (c : Specification) (args : Args) (k : ℕ) :
    c.allFlags args k (Flags.with {} c.flags) = Flags.with {} (c.request args k).flags := by
  rw [Specification.allFlags, Specification.request]
  split
  · simp [Flags.with]
  · rfl

/-- **A specification is read if its width and its precision fit.** -/
lemma parseDirective_text (htext : TextAt m p (c.bytes.tail)) :
    parseDirective m args p k =
      if c.WidthFits args k ∧ c.PrecisionFits args k then
        some (c.directive args k, p + (c.bytes.tail.length - 1), (c.request args k).argument)
      else none := by
  have hbytes : c.bytes.tail = c.flags.map FlagChar.byte ++ (c.widthBytes ++
      (c.precisionBytes ++ (c.modifier.bytes ++ [c.specifier.byte]))) := rfl
  have hlt := htext.lt
  rw [hbytes] at htext hlt ⊢
  obtain ⟨hflag, hstar, hdecimal⟩ := precisionBytes_first c
  have hflags : parseFlags m (2 ^ 64 + 1 - p) p {} = _ :=
    parseFlags_text c.flags htext (widthBytes_first hflag) (by
      rw [List.length_append, List.length_map] at hlt
      omega)
  have hwidthText := htext.append
  rw [List.length_map] at hwidthText
  have hwidth : parseWidth m args (p + c.flags.length) k (Flags.with {} c.flags) = _ :=
    parseWidth_text hwidthText hstar hdecimal
  have hprecisionText := hwidthText.append
  have hprecision : parsePrecision m args (p + c.flags.length + c.widthBytes.length)
      (c.afterWidth k) = _ := parsePrecision_text hprecisionText (typeBytes_first c)
  have hlength := parseLength_text hprecisionText.append
  rw [parseDirective]
  simp only [hflags, hwidth, Option.bind_eq_bind, Option.bind_some]
  by_cases hfits : c.WidthFits args k
  · simp only [if_pos hfits, hprecision, Option.bind_some]
    by_cases hfits' : c.PrecisionFits args k
    · simp only [if_pos hfits', if_pos (And.intro hfits hfits'), hlength, allFlags_eq,
        Option.bind_some]
      simp [Specification.directive]
      omega
    · rw [if_neg hfits', if_neg fun h => hfits' h.2]
      rfl
  · rw [if_neg hfits, if_neg fun h => hfits h.1]
    rfl

end ModernC.Libc
