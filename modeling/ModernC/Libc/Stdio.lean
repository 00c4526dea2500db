import Mathlib.Algebra.Group.Int.Defs
import ModernC.Framework.CheckedWords
import ModernC.Framework.Texts

/-!
# Formatted output

The core of the `printf` family.  It puts bytes into any destination, one at a time, and reads the
format and the strings from memory: they lie outside of what the destination writes, as C asks for.
The variable arguments are a row of words of 64 bits.  A program that traps has no result.
-/

namespace ModernC.Libc

open Framework

/-- Variable arguments. -/
abbrev Args := ℕ → BitVec 64

/-! ## Arguments -/

/-- `va.arg<i32>`. -/
def argI32 (args : Args) (k : ℕ) : ℤ := ((args k).setWidth 32).toInt

/-- `va.arg<u32>`. -/
def argU32 (args : Args) (k : ℕ) : ℕ := ((args k).setWidth 32).toNat

/-- `va.arg<i64>`. -/
def argI64 (args : Args) (k : ℕ) : ℤ := (args k).toInt

/-- `va.arg<u64>`. -/
def argU64 (args : Args) (k : ℕ) : ℕ := (args k).toNat

/-! ## Emitting -/

/-- Parsed conversion flags. -/
structure Flags where
  minus : Bool := false
  zero : Bool := false
  plus : Bool := false
  space : Bool := false
  hash : Bool := false
deriving DecidableEq

def digitChar (v : ℕ) (upper : Bool) : UInt8 :=
  if v < 10 then UInt8.ofNat (48 + v)
  else if upper then UInt8.ofNat (65 + v - 10)
  else UInt8.ofNat (97 + v - 10)

/-- The digits of a magnitude, the lowest first.  There is room for so many of them. -/
def magnitudeDigits (base : ℕ) (upper : Bool) : ℕ → ℕ → Option (List UInt8)
  | _, 0 => some []
  | 0, _ + 1 => none
  | room + 1, mag => (magnitudeDigits base upper room (mag / base)).map fun digits =>
    digitChar (mag % base) upper :: digits

/-- The digits that are emitted, the lowest first. -/
def emittedDigits (mag base : ℕ) (upper : Bool) (prec : ℤ) : Option (List UInt8) :=
  if mag = 0 then some (if prec ≠ 0 then [48] else []) else magnitudeDigits base upper 24 mag

def signChar (negative : Bool) (f : Flags) : UInt8 :=
  if negative then 45 else if f.plus then 43 else if f.space then 32 else 0

/-- The prefix of the alternate form. -/
def prefixChars (base : ℕ) (upper : Bool) (f : Flags) (digits : List UInt8) : List UInt8 :=
  if f.hash ∧ base = 8 ∧ (digits = [] ∨ digits.getLastD 0 ≠ 48) then [48]
  else if f.hash ∧ base = 16 ∧ digits ≠ [] then [48, if upper then 88 else 120]
  else []

/-- Precision is the least number of digits. -/
def zerosForPrec (prec : ℤ) (ndig : ℕ) : ℕ :=
  if 0 ≤ prec ∧ ndig < prec.toNat then prec.toNat - ndig else 0

section Emitting

variable {σ : Type} (putc : σ → UInt8 → Option σ)

def sinkPad (b : UInt8) : ℕ → σ → Option σ
  | 0, s => some s
  | n + 1, s => (putc s b).bind fun s => sinkPad b n s

def padIf (pads : Bool) (b : UInt8) (n : ℕ) (s : σ) : Option σ :=
  if pads then sinkPad putc b n s else some s

def putIf (puts : Bool) (b : UInt8) (s : σ) : Option σ := if puts then putc s b else some s

def putAll (text : List UInt8) (s : σ) : Option σ := text.foldlM putc s

def emitInt (s : σ) (mag : ℕ) (negative : Bool) (base : ℕ) (upper : Bool) (f : Flags) (width : ℕ)
    (prec : ℤ) : Option σ := do
  let digits ← emittedDigits mag base upper prec
  let sign := signChar negative f
  let start := prefixChars base upper f digits
  let zeros := zerosForPrec prec digits.length
  let body := (if sign ≠ 0 then 1 else 0) + start.length + zeros + digits.length
  let pad := if body < width then width - body else 0
  let zeroPad := f.zero && !f.minus && decide (prec < 0)
  let s ← padIf putc (!f.minus && !zeroPad) 32 pad s
  let s ← putIf putc (sign ≠ 0) sign s
  let s ← putAll putc start s
  let s ← padIf putc zeroPad 48 pad s
  let s ← sinkPad putc 48 zeros s
  let s ← putAll putc digits.reverse s
  padIf putc f.minus 32 pad s

/-- One byte in its field. -/
def emitChar (s : σ) (c : UInt8) (f : Flags) (width : ℕ) : Option σ := do
  let pad := if 1 < width then width - 1 else 0
  let s ← padIf putc (!f.minus) 32 pad s
  let s ← putc s c
  padIf putc f.minus 32 pad s

end Emitting

/-! ## Strings -/

/-- The bytes of `g_null`. -/
def nullMemory : Memory := fun a => [40, 110, 117, 108, 108, 41].getD a 0

/-- The length of a string, bounded by the precision. -/
def stringLength (m : Memory) (saddr : ℕ) (prec : ℤ) : ℕ → ℕ → Option ℕ
  | 0, _ => none
  | fuel + 1, slen =>
    if 0 ≤ prec ∧ prec.toNat ≤ slen then some slen
    else do
      let a ← checkedAdd 64 saddr slen
      if m a = 0 then return slen
      else stringLength m saddr prec fuel (slen + 1)

/-- The bytes of a string. -/
def stringBytes (m : Memory) (saddr slen : ℕ) : List UInt8 :=
  (List.range slen).map fun i => m (saddr + i)

/-- The string that is emitted: a null pointer has a text of its own. -/
def emittedString (m : Memory) (saddr : ℕ) (prec : ℤ) : Option (List UInt8) :=
  if saddr = 0 then (stringLength nullMemory 0 prec (2 ^ 64 + 1) 0).map (stringBytes nullMemory 0)
  else (stringLength m saddr prec (2 ^ 64 + 1) 0).map (stringBytes m saddr)

section Formatting

variable {σ : Type} (putc : σ → UInt8 → Option σ)

def emitString (s : σ) (text : List UInt8) (f : Flags) (width : ℕ) : Option σ := do
  let pad := if text.length < width then width - text.length else 0
  let s ← padIf putc (!f.minus) 32 pad s
  let s ← putAll putc text s
  padIf putc f.minus 32 pad s

/-! ## Parsing -/

/-- Length modifiers. -/
inductive Length where
  | none
  | l
  | ll
  | z
  | h
  | hh
deriving DecidableEq

/-- The argument has 64 bits. -/
def Length.wide : Length → Bool
  | .l | .ll | .z => true
  | _ => false

/-- The flag that a character sets. -/
def setFlag (f : Flags) (fc : UInt8) : Option Flags :=
  if fc = 45 then some { f with minus := true }
  else if fc = 48 then some { f with zero := true }
  else if fc = 43 then some { f with plus := true }
  else if fc = 32 then some { f with space := true }
  else if fc = 35 then some { f with hash := true }
  else none

def parseFlags (m : Memory) : ℕ → ℕ → Flags → Option (Flags × ℕ)
  | 0, _, _ => none
  | fuel + 1, p, f =>
    match setFlag f (m p) with
    | none => some (f, p)
    | some f => (checkedAdd 64 p 1).bind fun p => parseFlags m fuel p f

def isDecimal (c : UInt8) : Bool := decide (48 ≤ c) && decide (c ≤ 57)

/-- A number whose width is so many bits. -/
def parseNumber (m : Memory) (bits : ℕ) : ℕ → ℕ → ℕ → Option (ℕ × ℕ)
  | 0, _, _ => none
  | fuel + 1, p, n =>
    if isDecimal (m p) then do
      let n ← checkedMul bits n 10
      let n ← checkedAdd bits n (m p - 48).toNat
      let p ← checkedAdd 64 p 1
      parseNumber m bits fuel p n
    else some (n, p)

/-- The least `i32`, which has no opposite. -/
def i32Min : ℤ := -2 ^ 31

/-- The flags, the width, where the text goes on, and the next argument. -/
def parseWidth (m : Memory) (args : Args) (p k : ℕ) (f : Flags) : Option (Flags × ℕ × ℕ × ℕ) :=
  if m p = 42 then do
    let w := argI32 args k
    let p ← checkedAdd 64 p 1
    if w < 0 then
      if w = i32Min then none else some ({ f with minus := true }, (-w).toNat, p, k + 1)
    else some (f, w.toNat, p, k + 1)
  else (parseNumber m 64 (2 ^ 64 + 1 - p) p 0).map fun (width, p) => (f, width, p, k)

/-- The precision, -1 where there is none. -/
def parsePrecision (m : Memory) (args : Args) (p k : ℕ) : Option (ℤ × ℕ × ℕ) :=
  if m p = 46 then do
    let p ← checkedAdd 64 p 1
    if m p = 42 then do
      let pr := argI32 args k
      let p ← checkedAdd 64 p 1
      return (if pr < 0 then -1 else pr, p, k + 1)
    else (parseNumber m 31 (2 ^ 64 + 1 - p) p 0).map fun (prec, p) => ((prec : ℤ), p, k)
  else some (-1, p, k)

def parseLength (m : Memory) (p : ℕ) : Option (Length × ℕ) :=
  if m p = 108 then do
    let p ← checkedAdd 64 p 1
    if m p = 108 then (checkedAdd 64 p 1).map fun p => (.ll, p) else some (.l, p)
  else if m p = 122 then (checkedAdd 64 p 1).map fun p => (.z, p)
  else if m p = 104 then do
    let p ← checkedAdd 64 p 1
    if m p = 104 then (checkedAdd 64 p 1).map fun p => (.hh, p) else some (.h, p)
  else if m p = 106 ∨ m p = 116 then (checkedAdd 64 p 1).map fun p => (.ll, p)
  else some (.none, p)

/-- What stands in front of a specifier. -/
structure Directive where
  flags : Flags
  width : ℕ
  prec : ℤ
  length : Length
deriving DecidableEq

/-- The directive, where the specifier stands, and the next argument. -/
def parseDirective (m : Memory) (args : Args) (p k : ℕ) : Option (Directive × ℕ × ℕ) := do
  let (f, p) ← parseFlags m (2 ^ 64 + 1 - p) p {}
  let (f, width, p, k) ← parseWidth m args p k f
  let (prec, p, k) ← parsePrecision m args p k
  let (length, p) ← parseLength m p
  return (⟨f, width, prec, length⟩, p, k)

/-! ## Converting -/

/-- The magnitude of a signed number, by its two's complement where it is negative. -/
def signedMagnitude (v : ℤ) : Option ℕ :=
  if v < 0 then checkedAdd 64 (2 ^ 64 - 1 - (v % 2 ^ 64).toNat) 1 else some v.toNat

def convertSigned (d : Directive) (args : Args) (k : ℕ) (s : σ) : Option σ := do
  let v := if d.length.wide then argI64 args k else argI32 args k
  let mag ← signedMagnitude v
  emitInt putc s mag (v < 0) 10 false d.flags d.width d.prec

def convertUnsigned (d : Directive) (base : ℕ) (upper : Bool) (args : Args) (k : ℕ) (s : σ) :
    Option σ :=
  let v := if d.length.wide then argU64 args k else argU32 args k
  emitInt putc s v false base upper d.flags d.width d.prec

/-- What a specifier does, and the next argument. -/
def convert (m : Memory) (d : Directive) (spec : UInt8) (args : Args) (k : ℕ) (s : σ) :
    Option (σ × ℕ) :=
  if spec = 100 ∨ spec = 105 then (convertSigned putc d args k s).map fun s => (s, k + 1)
  else if spec = 117 then (convertUnsigned putc d 10 false args k s).map fun s => (s, k + 1)
  else if spec = 120 then (convertUnsigned putc d 16 false args k s).map fun s => (s, k + 1)
  else if spec = 88 then (convertUnsigned putc d 16 true args k s).map fun s => (s, k + 1)
  else if spec = 111 then (convertUnsigned putc d 8 false args k s).map fun s => (s, k + 1)
  else if spec = 99 then
    (emitChar putc s (UInt8.ofNat (argU32 args k)) d.flags d.width).map fun s => (s, k + 1)
  else if spec = 115 then do
    let text ← emittedString m (argU64 args k) d.prec
    let s ← emitString putc s text d.flags d.width
    return (s, k + 1)
  else if spec = 112 then
    (emitInt putc s (argU64 args k) false 16 false { d.flags with hash := true } d.width (-1)).map
      fun s => (s, k + 1)
  else if spec = 37 then (putc s 37).map fun s => (s, k)
  else do
    let s ← putc s 37
    let s ← putc s spec
    return (s, k)

/-- The core formatter, from where it stands in the format. -/
def doFormat (m : Memory) (args : Args) : ℕ → ℕ → ℕ → σ → Option σ
  | 0, _, _, _ => none
  | fuel + 1, p, k, s =>
    if m p = 0 then some s
    else if m p ≠ 37 then do
      let s ← putc s (m p)
      let p ← checkedAdd 64 p 1
      doFormat m args fuel p k s
    else do
      let p ← checkedAdd 64 p 1
      let (d, p, k) ← parseDirective m args p k
      if m p = 0 then some s
      else do
        let next ← checkedAdd 64 p 1
        let (s, k) ← convert putc m d (m p) args k s
        doFormat m args fuel next k s

end Formatting

/-! ## The buffer -/

end ModernC.Libc
