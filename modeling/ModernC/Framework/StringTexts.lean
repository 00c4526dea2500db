import Mathlib.Data.List.TakeWhile
import Mathlib.Tactic.IntervalCases

/-!
# The text of string literals

How C and LLVM read what stands behind the opening quote of a string literal: the bytes of the
literal, and the text behind its closing quote.  A byte is a character below 256.
-/

namespace ModernC.Framework.StringTexts

/-! ## Digits -/

def isOctalDigit (c : Char) : Bool := decide ('0' ≤ c ∧ c ≤ '7')

def isHexDigit (c : Char) : Bool :=
  c.isDigit || decide ('A' ≤ c ∧ c ≤ 'F') || decide ('a' ≤ c ∧ c ≤ 'f')

def digitValue (c : Char) : ℕ :=
  if c.isDigit then c.toNat - '0'.toNat
  else if c ≤ 'F' then c.toNat - 'A'.toNat + 10
  else c.toNat - 'a'.toNat + 10

/-- The number with these digits. -/
def ofDigits (base : ℕ) (digits : List Char) : ℕ :=
  digits.foldl (fun n c => n * base + digitValue c) 0

/-- The octal digit of a number below eight. -/
def octalDigit (d : ℕ) : Char := Char.ofNat ('0'.toNat + d)

lemma octalDigit_spec {d : ℕ} (h : d < 8) :
    isOctalDigit (octalDigit d) = true ∧ digitValue (octalDigit d) = d := by
  interval_cases d <;> decide

/-- A byte has the octal digits of its number. -/
lemma ofDigits_octal {n : ℕ} (h : n < 512) :
    ofDigits 8 [octalDigit (n / 64), octalDigit (n / 8 % 8), octalDigit (n % 8)] = n := by
  have hhigh := octalDigit_spec (d := n / 64) (by omega)
  have hmiddle := octalDigit_spec (d := n / 8 % 8) (by omega)
  have hlow := octalDigit_spec (d := n % 8) (by omega)
  simp only [ofDigits, List.foldl_cons, List.foldl_nil, hhigh.2, hmiddle.2, hlow.2]
  omega

/-! ## C -/

/-- One more byte in front of what was read. -/
def push (byte : Char) : Option (List Char × List Char) → Option (List Char × List Char) :=
  Option.map fun (bytes, rest) => (byte :: bytes, rest)

def simpleEscape : Char → Option Char
  | '\\' => some '\\'
  | '\'' => some '\''
  | '"' => some '"'
  | '?' => some '?'
  | 'a' => some '\x07'
  | 'b' => some '\x08'
  | 't' => some '\t'
  | 'n' => some '\n'
  | 'v' => some '\x0b'
  | 'f' => some '\x0c'
  | 'r' => some '\r'
  | _ => none

/-- The byte that an escape denotes, if it is one. -/
def byteOf (n : ℕ) : Option Char := if n < 256 then some (Char.ofNat n) else none

/-- The escape behind a backslash, and what follows it.  An octal escape takes three digits at
most, a hexadecimal one as many as follow. -/
def readEscape : List Char → Option (Char × List Char)
  | [] => none
  | c :: rest =>
    match simpleEscape c with
    | some byte => some (byte, rest)
    | none =>
      if isOctalDigit c then
        let digits := c :: (rest.take 2).takeWhile isOctalDigit
        (byteOf (ofDigits 8 digits)).map fun byte => (byte, (c :: rest).drop digits.length)
      else if c = 'x' then
        let digits := rest.takeWhile isHexDigit
        if digits = [] then none
        else (byteOf (ofDigits 16 digits)).map fun byte => (byte, rest.drop digits.length)
      else none

lemma readEscape_length_lt {text rest : List Char} {byte : Char}
    (h : readEscape text = some (byte, rest)) : rest.length < text.length := by
  cases text with
  | nil => exact absurd h nofun
  | cons c text =>
    simp only [readEscape] at h
    split at h
    · obtain ⟨-, rfl⟩ := Prod.mk.inj (Option.some.inj h)
      exact Nat.lt_succ_self _
    · split at h
      · obtain ⟨byte', -, h⟩ := Option.map_eq_some_iff.mp h
        obtain ⟨-, rfl⟩ := Prod.mk.inj h
        simp only [List.length_drop, List.length_cons]
        omega
      · split at h
        · split at h
          · exact absurd h nofun
          · obtain ⟨byte', -, h⟩ := Option.map_eq_some_iff.mp h
            obtain ⟨-, rfl⟩ := Prod.mk.inj h
            simp only [List.length_drop, List.length_cons]
            omega
        · exact absurd h nofun

/-- Reads a string literal of C behind its opening quote. -/
def readC : List Char → Option (List Char × List Char)
  | [] => none
  | c :: text =>
    if c = '"' then some ([], text)
    else if c = '\n' then none
    else if c = '\\' then
      match _h : readEscape text with
      | none => none
      | some (byte, rest) => push byte (readC rest)
    else push c (readC text)
termination_by text => text.length
decreasing_by
  · have := readEscape_length_lt ‹_›
    simp only [List.length_cons]
    omega
  · simp

lemma readC_quote (text : List Char) : readC ('"' :: text) = some ([], text) := by
  rw [readC, if_pos rfl]

lemma readC_plain {c : Char} (text : List Char) (hquote : c ≠ '"') (hline : c ≠ '\n')
    (hescape : c ≠ '\\') : readC (c :: text) = push c (readC text) := by
  rw [readC, if_neg hquote, if_neg hline, if_neg hescape]

lemma readC_escape {text rest : List Char} {byte : Char}
    (h : readEscape text = some (byte, rest)) :
    readC ('\\' :: text) = push byte (readC rest) := by
  rw [readC, if_neg (by decide), if_neg (by decide), if_pos rfl]
  split
  · next hnone => exact absurd (hnone.symm.trans h) nofun
  · next byte' rest' hsome =>
    obtain ⟨rfl, rfl⟩ := Prod.mk.inj (Option.some.inj (hsome.symm.trans h))
    rfl

/-- An escape with three octal digits, whatever follows them. -/
lemma readEscape_octal {n : ℕ} (h : n < 256) (rest : List Char) :
    readEscape (octalDigit (n / 64) :: octalDigit (n / 8 % 8) :: octalDigit (n % 8) :: rest) =
      some (Char.ofNat n, rest) := by
  have hhigh := octalDigit_spec (d := n / 64) (by omega)
  have hmiddle := octalDigit_spec (d := n / 8 % 8) (by omega)
  have hlow := octalDigit_spec (d := n % 8) (by omega)
  have hsimple : simpleEscape (octalDigit (n / 64)) = none := by
    have hle : n / 64 < 4 := by omega
    interval_cases n / 64 <;> rfl
  have hvalue := ofDigits_octal (n := n) (by omega)
  simp only [readEscape, hsimple, hhigh.1, if_true, List.take_succ_cons, List.take_zero,
    List.takeWhile_cons, hmiddle.1, hlow.1, List.takeWhile_nil, hvalue, byteOf, if_pos h]
  rfl

/-! ## LLVM -/

/-- What a backslash and the text behind it denote.  A backslash escapes a backslash or stands in
front of two hexadecimal digits, and stands for itself in front of anything else. -/
def readLlvmEscape : List Char → Char × List Char
  | '\\' :: rest => ('\\', rest)
  | high :: low :: rest =>
    if isHexDigit high && isHexDigit low then (Char.ofNat (ofDigits 16 [high, low]), rest)
    else ('\\', high :: low :: rest)
  | text => ('\\', text)

lemma readLlvmEscape_length_le (text : List Char) :
    (readLlvmEscape text).2.length ≤ text.length := by
  unfold readLlvmEscape
  split
  · simp
  · split
    · simp only [List.length_cons]
      omega
    · exact Nat.le_refl _
  · exact Nat.le_refl _

/-- Reads a literal `c"…"` of LLVM behind its opening quote. -/
def readLlvm : List Char → Option (List Char × List Char)
  | [] => none
  | c :: text =>
    if c = '"' then some ([], text)
    else if c = '\\' then push (readLlvmEscape text).1 (readLlvm (readLlvmEscape text).2)
    else push c (readLlvm text)
termination_by text => text.length
decreasing_by
  · have := readLlvmEscape_length_le text
    simp only [List.length_cons]
    omega
  · simp

lemma readLlvm_quote (text : List Char) : readLlvm ('"' :: text) = some ([], text) := by
  rw [readLlvm, if_pos rfl]

lemma readLlvm_plain {c : Char} (text : List Char) (hquote : c ≠ '"') (hescape : c ≠ '\\') :
    readLlvm (c :: text) = push c (readLlvm text) := by
  rw [readLlvm, if_neg hquote, if_neg hescape]

lemma readLlvm_hex {high low : Char} (text : List Char) (hhigh : isHexDigit high = true)
    (hlow : isHexDigit low = true) :
    readLlvm ('\\' :: high :: low :: text) =
      push (Char.ofNat (ofDigits 16 [high, low])) (readLlvm text) := by
  have hne : high ≠ '\\' := by
    rintro rfl
    exact absurd hhigh (by decide)
  have hescape : readLlvmEscape (high :: low :: text) =
      (Char.ofNat (ofDigits 16 [high, low]), text) := by
    simp [readLlvmEscape, hhigh, hlow]
  rw [readLlvm, if_neg (by decide), if_pos rfl, hescape]

end ModernC.Framework.StringTexts
