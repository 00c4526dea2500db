import Mathlib.Algebra.Group.Int.Defs
import ModernC.Framework.CheckedWords
import ModernC.Framework.Texts

/-!
# Parsing integers

`strtol` and `strtoul` of the C library.  A program that traps has no result.  A memory address is
a number below 2⁶⁴, and a loop makes at most one pass for each address there is.
-/

namespace ModernC.Libc

open Framework

def isspace (c : UInt8) : Bool := c ∈ [32, 9, 10, 11, 12, 13]

/-- The value of a digit or a letter, and 99 for anything else. -/
def digitValue (ch : UInt8) : ℕ :=
  let c := ch.toNat
  if 48 ≤ c ∧ c ≤ 57 then c - 48
  else if 97 ≤ c ∧ c ≤ 122 then c - 97 + 10
  else if 65 ≤ c ∧ c ≤ 90 then c - 65 + 10
  else 99

def u64Max : ℕ := 0xFFFFFFFFFFFFFFFF

def i64Max : ℕ := 0x7FFFFFFFFFFFFFFF

structure ParsedInt where
  value : ℕ
  negative : Bool
  stop : ℕ
deriving DecidableEq

/-! ## The parts of `parse_uint` -/

def skipSpace (m : Memory) (p : ℕ) : Option ℕ := do
  let (p, _) ← loopWhile (fun p => isspace (m p)) 1
    (fun p _ => (checkedAdd 64 p 1).map fun _ => ()) (2 ^ 64 - p) p ()
  return p

/-- Whether there is a minus sign, and where the text goes on. -/
def readSign (m : Memory) (p : ℕ) : Option (Bool × ℕ) :=
  if m p = 43 then (checkedAdd 64 p 1).map fun p => (false, p)
  else if m p = 45 then (checkedAdd 64 p 1).map fun p => (true, p)
  else some (false, p)

/-- The base, and where the digits start. -/
def readPrefix (m : Memory) (p baseIn : ℕ) : Option (ℕ × ℕ) :=
  if baseIn = 0 then
    if m p = 48 then do
      let next ← checkedAdd 64 p 1
      if m next = 120 ∨ m next = 88 then (checkedAdd 64 p 2).map fun p => (16, p)
      else some (8, p)
    else some (10, p)
  else if baseIn = 16 then
    if m p = 48 then do
      let next ← checkedAdd 64 p 1
      if m next = 120 ∨ m next = 88 then (checkedAdd 64 p 2).map fun p => (16, p)
      else some (16, p)
    else some (16, p)
  else some (baseIn, p)

/-- One more digit.  The number stays at the largest one once it is too large. -/
def addDigit (b d acc : ℕ) (overflow : Bool) : Option (ℕ × Bool) :=
  if overflow then some (acc, true)
  else if u64Max / b < acc ∨ acc = u64Max / b ∧ u64Max % b < d then some (u64Max, true)
  else do
    let acc ← checkedMul 64 acc b
    let acc ← checkedAdd 64 acc d
    return (acc, false)

/-- The digits from an address on: where they end, and their number. -/
def readDigits (m : Memory) (base p : ℕ) : Option (ℕ × ℕ) := do
  let (p, acc, _) ← loopWhile (fun p => digitValue (m p) < base) 1
    (fun p (acc, overflow) => do
      let x ← addDigit base (digitValue (m p)) acc overflow
      let _ ← checkedAdd 64 p 1
      return x) (2 ^ 64 - p) p (0, false)
  return (p, acc)

def parseUint (m : Memory) (nptr baseIn : ℕ) : Option ParsedInt := do
  let p ← skipSpace m nptr
  let (negative, p) ← readSign m p
  let (base, digitsStart) ← readPrefix m p baseIn
  let (p, acc) ← readDigits m base digitsStart
  return ⟨acc, negative, if p = digitsStart then nptr else p⟩

/-! ## The functions -/

def storeEnd (m : Memory) (endptr stop : ℕ) : Memory :=
  if endptr ≠ 0 then storeWord m endptr stop else m

/-- The value and the memory behind the call.  `nptr as usize` and `endptr as usize` trap where the
pointer is null, so that the test of `store_end` always finds an end pointer. -/
def strtoul (m : Memory) (nptr endptr base : ℕ) : Option (ℕ × Memory) := do
  let nptr ← nonNull nptr
  let r ← parseUint m nptr base
  let endptr ← nonNull endptr
  let m := storeEnd m endptr r.stop
  if r.negative then
    if r.value = 0 then return (0, m)
    else
      let value ← checkedAdd 64 (u64Max - r.value) 1
      return (value, m)
  else return (r.value, m)

def strtol (m : Memory) (nptr endptr base : ℕ) : Option (ℤ × Memory) := do
  let nptr ← nonNull nptr
  let r ← parseUint m nptr base
  let endptr ← nonNull endptr
  let m := storeEnd m endptr r.stop
  if r.negative then
    if i64Max < r.value then return (-2 ^ 63, m)
    else return (-r.value, m)
  else if i64Max < r.value then return (i64Max, m)
  else return (r.value, m)

end ModernC.Libc

/-!
## What ISO C reads as an integer

Behind white space, the subject sequence is the longest start of the text that has the expected
form: an optional sign and an integer of the base.  It is found by looking for a prefix first and
taking the digits behind it, where a prefix without a digit is only a zero.
-/

namespace ModernC.Libc

open Framework

/-! ## The expected form -/

/-- The number that digits denote behind a number. -/
def numberOf (base v : ℕ) (digits : List UInt8) : ℕ :=
  digits.foldl (fun v c => v * base + digitValue c) v

/-- Digits of the base, at least one. -/
def Digits (base : ℕ) (digits : List UInt8) : Prop :=
  digits ≠ [] ∧ ∀ c ∈ digits, digitValue c < base

/-- An integer of the base, without a sign.  Base zero stands for the constants of C. -/
inductive Numeral : ℕ → List UInt8 → ℕ → Prop
  | plain {base digits} (hbase : base ≠ 0) (h : Digits base digits) :
      Numeral base digits (numberOf base 0 digits)
  | hex {base x digits} (hbase : base = 0 ∨ base = 16) (hx : x = 120 ∨ x = 88)
      (h : Digits 16 digits) : Numeral base (48 :: x :: digits) (numberOf 16 0 digits)
  | octal {digits} (h : Digits 8 (48 :: digits)) :
      Numeral 0 (48 :: digits) (numberOf 8 0 (48 :: digits))
  | decimal {c digits} (hc : c ≠ 48) (h : Digits 10 (c :: digits)) :
      Numeral 0 (c :: digits) (numberOf 10 0 (c :: digits))

/-- The expected form of a subject sequence, with its sign and its magnitude. -/
inductive Subject (base : ℕ) : List UInt8 → Bool → ℕ → Prop
  | unsigned {numeral magnitude} (h : Numeral base numeral magnitude) :
      Subject base numeral false magnitude
  | plus {numeral magnitude} (h : Numeral base numeral magnitude) :
      Subject base (43 :: numeral) false magnitude
  | minus {numeral magnitude} (h : Numeral base numeral magnitude) :
      Subject base (45 :: numeral) true magnitude

/-- What is converted: how far it goes, its sign and its magnitude. -/
structure Conversion where
  length : ℕ
  negative : Bool
  magnitude : ℕ
deriving DecidableEq

/-- The text is white space and the rest. -/
structure Blanks (text blanks rest : List UInt8) : Prop where
  eq_append : text = blanks ++ rest
  space : ∀ c ∈ blanks, isspace c = true
  stop : ∀ c, rest.head? = some c → isspace c = false

/-- The conversion of a text, if there is a subject sequence. -/
inductive Converts (base : ℕ) (text : List UInt8) : Option Conversion → Prop
  | empty {blanks rest} (hblanks : Blanks text blanks rest)
      (h : ∀ subject negative magnitude,
        subject <+: rest → ¬Subject base subject negative magnitude) :
      Converts base text none
  | subject {blanks rest subject negative magnitude} (hblanks : Blanks text blanks rest)
      (hpre : subject <+: rest) (h : Subject base subject negative magnitude)
      (hlongest : ∀ subject' negative' magnitude', subject' <+: rest →
        Subject base subject' negative' magnitude' → subject'.length ≤ subject.length) :
      Converts base text (some ⟨blanks.length + subject.length, negative, magnitude⟩)

/-! ## The values -/

/-- The value of `strtol`. -/
def isoLong : Option Conversion → ℤ
  | none => 0
  | some conversion =>
    let value : ℤ := if conversion.negative then -conversion.magnitude else conversion.magnitude
    if value < -2 ^ 63 then -2 ^ 63 else if 2 ^ 63 - 1 < value then 2 ^ 63 - 1 else value

/-- The value of `strtoul`. -/
def isoUnsignedLong : Option Conversion → ℕ
  | none => 0
  | some conversion =>
    if 2 ^ 64 - 1 < conversion.magnitude then 2 ^ 64 - 1
    else if conversion.negative then (2 ^ 64 - conversion.magnitude) % 2 ^ 64
    else conversion.magnitude

/-- Where the end pointer points to. -/
def isoEnd (nptr : ℕ) : Option Conversion → ℕ
  | none => nptr
  | some conversion => nptr + conversion.length

/-! ## Finding a numeral -/

variable {base : ℕ} {body digits numeral text rest : List UInt8} {v magnitude : ℕ}

/-- There is a hexadecimal prefix. -/
def marked (base : ℕ) : List UInt8 → Bool
  | 48 :: x :: _ => (base == 0 || base == 16) && (x == 120 || x == 88)
  | _ => false

def radixOf (base : ℕ) (body : List UInt8) : ℕ :=
  if marked base body then 16
  else if base = 0 then if firstByte body = 48 then 8 else 10
  else base

/-- The digits behind the prefix. -/
def digitsOf (base : ℕ) (body : List UInt8) : List UInt8 :=
  (body.drop (if marked base body then 2 else 0)).takeWhile fun c =>
    digitValue c < radixOf base body

/-- The longest numeral in front of the text. -/
def firstNumeral (base : ℕ) (body : List UInt8) : Option (List UInt8 × ℕ) :=
  if digitsOf base body = [] then if marked base body then some ([48], 0) else none
  else some (body.take (if marked base body then 2 else 0) ++ digitsOf base body,
    numberOf (radixOf base body) 0 (digitsOf base body))

lemma marked_iff : marked base body = true ↔
    (base = 0 ∨ base = 16) ∧ ∃ x tail, body = 48 :: x :: tail ∧ (x = 120 ∨ x = 88) := by
  unfold marked
  split
  · next x tail =>
    rw [Bool.and_eq_true, Bool.or_eq_true, Bool.or_eq_true, beq_iff_eq, beq_iff_eq, beq_iff_eq,
      beq_iff_eq]
    constructor
    · exact fun h => ⟨h.1, x, tail, rfl, h.2⟩
    · rintro ⟨hbase, x', tail', heq, hx⟩
      obtain ⟨-, heq⟩ := List.cons.inj heq
      obtain ⟨rfl, -⟩ := List.cons.inj heq
      exact ⟨hbase, hx⟩
  · next hnot =>
    refine iff_of_false Bool.false_ne_true ?_
    rintro ⟨-, x, tail, rfl, -⟩
    exact hnot x tail rfl

/-- Digits in front of a text are among all that are there. -/
lemma prefix_takeWhile {q : UInt8 → Bool} (hpre : digits <+: body) (h : ∀ c ∈ digits, q c = true) :
    digits <+: body.takeWhile q := by
  obtain ⟨rest, rfl⟩ := hpre
  rw [List.takeWhile_append_of_pos h]
  exact List.prefix_append _ _

lemma digits_takeWhile (hne : body.takeWhile (fun c => digitValue c < base) ≠ []) :
    Digits base (body.takeWhile fun c => digitValue c < base) := by
  refine ⟨hne, fun c hc => ?_⟩
  have hall := List.all_eq_true.mp (List.all_takeWhile (l := body)) c hc
  exact of_decide_eq_true hall

/-- What is found is a numeral. -/
lemma firstNumeral_sound (h : firstNumeral base body = some (numeral, v)) :
    Numeral base numeral v ∧ numeral <+: body := by
  rw [firstNumeral] at h
  by_cases hmarked : marked base body = true
  · obtain ⟨hbase, x, tail, rfl, hx⟩ := marked_iff.mp hmarked
    rw [if_pos hmarked, if_pos hmarked] at h
    have hradix : radixOf base (48 :: x :: tail) = 16 := if_pos hmarked
    have hdigits : digitsOf base (48 :: x :: tail) = tail.takeWhile fun c => digitValue c < 16 := by
      rw [digitsOf, hradix, if_pos hmarked]
      rfl
    rw [hradix, hdigits] at h
    split at h
    · obtain ⟨rfl, rfl⟩ := Prod.mk.inj (Option.some.inj h)
      refine ⟨?_, x :: tail, rfl⟩
      rcases hbase with rfl | rfl
      · exact .octal ⟨List.cons_ne_nil _ _, List.forall_mem_singleton.mpr (by decide)⟩
      · exact .plain (by decide) ⟨List.cons_ne_nil _ _, List.forall_mem_singleton.mpr (by decide)⟩
    · next hne =>
      obtain ⟨rfl, rfl⟩ := Prod.mk.inj (Option.some.inj h)
      refine ⟨.hex hbase hx (digits_takeWhile hne), ?_⟩
      obtain ⟨more, hmore⟩ := List.takeWhile_prefix (l := tail) fun c => digitValue c < 16
      exact ⟨more, congrArg (fun rest => 48 :: x :: rest) hmore⟩
  · rw [if_neg hmarked, if_neg hmarked, List.take_zero, List.nil_append] at h
    have hdigits : digitsOf base body =
        body.takeWhile fun c => digitValue c < radixOf base body := by
      rw [digitsOf, if_neg hmarked, List.drop_zero]
    split at h
    · exact absurd h (by simp)
    · next hne =>
      obtain ⟨rfl, rfl⟩ := Prod.mk.inj (Option.some.inj h)
      rw [hdigits] at hne ⊢
      have hall := digits_takeWhile hne
      refine ⟨?_, List.takeWhile_prefix _⟩
      rw [radixOf, if_neg hmarked] at hall ⊢
      by_cases hbase : base = 0
      · subst hbase
        rw [if_pos rfl] at hall ⊢
        obtain ⟨c, tail, rfl⟩ : ∃ c tail, body = c :: tail := by
          rcases body with _ | ⟨c, tail⟩
          · exact absurd rfl hne
          · exact ⟨c, tail, rfl⟩
        have hfirst : ∀ {radix : ℕ},
            Digits radix ((c :: tail).takeWhile fun c => digitValue c < radix) →
            ∃ more, (c :: tail).takeWhile (fun c => digitValue c < radix) = c :: more := by
          intro radix hradix
          by_cases hc : digitValue c < radix
          · exact ⟨_, List.takeWhile_cons_of_pos (by simpa using hc)⟩
          · rw [List.takeWhile_cons_of_neg (by simpa using hc)] at hradix
            exact absurd rfl hradix.1
        by_cases hc : c = 48
        · have hbyte : firstByte (c :: tail) = 48 := hc
          rw [if_pos hbyte] at hall ⊢
          obtain ⟨more, hmore⟩ := hfirst hall
          rw [hmore, hc] at hall ⊢
          exact .octal hall
        · have hbyte : ¬firstByte (c :: tail) = 48 := hc
          rw [if_neg hbyte] at hall ⊢
          obtain ⟨more, hmore⟩ := hfirst hall
          rw [hmore] at hall ⊢
          exact .decimal hc hall
      · rw [if_neg hbase] at hall ⊢
        exact .plain hbase hall

lemma Digits.takeWhile (h : Digits base digits) (hpre : digits <+: body) :
    digits <+: body.takeWhile fun c => digitValue c < base :=
  prefix_takeWhile hpre fun c hc => decide_eq_true (h.2 c hc)

variable {x : UInt8}

/-- A prefix mark is no digit. -/
lemma not_digit_of_mark (hx : x = 120 ∨ x = 88) : ¬digitValue x < 16 := by
  rcases hx with rfl | rfl
  · decide
  · decide

/-- Digits at a prefix are only its zero. -/
lemma Digits.eq_zero {tail : List UInt8} (h : Digits base digits) (hbase : base ≤ 16)
    (hx : x = 120 ∨ x = 88) (hpre : digits <+: 48 :: x :: tail) : digits = [48] := by
  obtain ⟨rest, hrest⟩ := hpre
  rcases digits with _ | ⟨c, _ | ⟨c', digits⟩⟩
  · exact absurd rfl h.1
  · rw [(List.cons.inj hrest).1]
  · have hsecond := (List.cons.inj (List.cons.inj hrest).2).1
    have hdigit := h.2 c' (by simp)
    rw [hsecond] at hdigit
    exact absurd (Nat.lt_of_lt_of_le hdigit hbase) (not_digit_of_mark hx)

/-- What numerals there are behind a prefix. -/
lemma Numeral.of_marked {tail : List UInt8} (h : Numeral base numeral v)
    (hbase : base = 0 ∨ base = 16) (hx : x = 120 ∨ x = 88) (hpre : numeral <+: 48 :: x :: tail) :
    (numeral = [48] ∧ v = 0) ∨ ∃ digits, numeral = 48 :: x :: digits ∧ Digits 16 digits ∧
      digits <+: tail ∧ v = numberOf 16 0 digits := by
  cases h with
  | plain hne hdigits =>
    have hle : base ≤ 16 := by omega
    obtain rfl := hdigits.eq_zero hle hx hpre
    refine .inl ⟨rfl, ?_⟩
    rw [numberOf, List.foldl_cons, List.foldl_nil, Nat.zero_mul]
    rfl
  | @hex base x' digits _ _ hdigits =>
    obtain ⟨more, hmore⟩ := hpre
    obtain ⟨rfl, htail⟩ := List.cons.inj (List.cons.inj hmore).2
    exact .inr ⟨digits, rfl, hdigits, ⟨more, htail⟩, rfl⟩
  | octal hdigits =>
    have heq := hdigits.eq_zero (by decide) hx hpre
    rw [heq]
    exact .inl ⟨rfl, rfl⟩
  | decimal hc hdigits =>
    have heq := hdigits.eq_zero (by decide) hx hpre
    exact absurd (List.cons.inj heq).1 hc

/-- What numerals there are without a prefix. -/
lemma Numeral.of_not_marked (h : Numeral base numeral v) (hpre : numeral <+: body)
    (hmarked : ¬marked base body = true) :
    Digits (radixOf base body) numeral ∧ v = numberOf (radixOf base body) 0 numeral := by
  rw [radixOf, if_neg hmarked]
  cases h with
  | plain hne hdigits =>
    rw [if_neg hne]
    exact ⟨hdigits, rfl⟩
  | @hex base x digits hbase hx hdigits =>
    obtain ⟨rest, rfl⟩ := hpre
    exact absurd (marked_iff.mpr ⟨hbase, x, digits ++ rest, rfl, hx⟩) hmarked
  | octal hdigits =>
    obtain ⟨rest, rfl⟩ := hpre
    exact ⟨hdigits, rfl⟩
  | @decimal c digits hc hdigits =>
    obtain ⟨rest, rfl⟩ := hpre
    have hbyte : ¬firstByte (c :: digits ++ rest) = 48 := hc
    rw [if_pos rfl, if_neg hbyte]
    exact ⟨hdigits, rfl⟩

/-- **No numeral is longer than the one that is found**, and one as long has its value. -/
lemma Numeral.le_firstNumeral (h : Numeral base numeral v) (hpre : numeral <+: body) :
    ∃ longest v', firstNumeral base body = some (longest, v') ∧ numeral.length ≤ longest.length ∧
      (numeral.length = longest.length → v = v') := by
  rw [firstNumeral]
  by_cases hmarked : marked base body = true
  · obtain ⟨hbase, x, tail, rfl, hx⟩ := marked_iff.mp hmarked
    have hradix : radixOf base (48 :: x :: tail) = 16 := if_pos hmarked
    have hdigits : digitsOf base (48 :: x :: tail) = tail.takeWhile fun c => digitValue c < 16 := by
      rw [digitsOf, hradix, if_pos hmarked]
      rfl
    rw [if_pos hmarked, if_pos hmarked, hradix, hdigits]
    rcases h.of_marked hbase hx hpre with ⟨rfl, rfl⟩ | ⟨digits, rfl, hdigits', htail, rfl⟩
    · split
      · exact ⟨_, _, rfl, le_refl _, fun _ => rfl⟩
      · refine ⟨_, _, rfl, ?_, fun heq => ?_⟩
        · simp
        · exact absurd heq (by simp)
    · have hle := hdigits'.takeWhile htail
      have hne : tail.takeWhile (fun c => digitValue c < 16) ≠ [] := by
        intro hnil
        rw [hnil] at hle
        exact hdigits'.1 (List.prefix_nil.mp hle)
      rw [if_neg hne]
      refine ⟨_, _, rfl, ?_, fun heq => ?_⟩
      · have hlength := hle.length_le
        simp only [List.length_append, List.length_cons, List.take_succ_cons, List.take_zero,
          List.length_nil]
        omega
      · simp only [List.length_append, List.length_cons, List.take_succ_cons, List.take_zero,
          List.length_nil] at heq
        rw [hle.eq_of_length (by omega)]
  · obtain ⟨hall, hv⟩ := h.of_not_marked hpre hmarked
    have hdigits : digitsOf base body =
        body.takeWhile fun c => digitValue c < radixOf base body := by
      rw [digitsOf, if_neg hmarked, List.drop_zero]
    have hle := hall.takeWhile hpre
    rw [← hdigits] at hle
    have hne : digitsOf base body ≠ [] := by
      intro hnil
      rw [hnil] at hle
      exact hall.1 (List.prefix_nil.mp hle)
    rw [if_neg hne, if_neg hmarked, List.take_zero, List.nil_append]
    refine ⟨_, _, rfl, hle.length_le, fun heq => ?_⟩
    rw [hv, hle.eq_of_length heq]

/-! ## Finding a subject sequence -/

/-- Whether there is a minus sign, and the length of the sign. -/
def signOf (rest : List UInt8) : Bool × ℕ :=
  if firstByte rest = 43 then (false, 1)
  else if firstByte rest = 45 then (true, 1)
  else (false, 0)

def afterSpace (text : List UInt8) : List UInt8 := text.dropWhile isspace

/-- The text behind white space and a sign. -/
def bodyOf (text : List UInt8) : List UInt8 := (afterSpace text).drop (signOf (afterSpace text)).2

/-- The length of white space and a sign. -/
def bodyStart (text : List UInt8) : ℕ :=
  (text.takeWhile isspace).length + (signOf (afterSpace text)).2

/-- The conversion of a text. -/
def isoConversion (base : ℕ) (text : List UInt8) : Option Conversion :=
  (firstNumeral base (bodyOf text)).map fun (numeral, magnitude) =>
    ⟨bodyStart text + numeral.length, (signOf (afterSpace text)).1, magnitude⟩

lemma Blanks.eq {blanks : List UInt8} (h : Blanks text blanks rest) :
    blanks = text.takeWhile isspace ∧ rest = afterSpace text := by
  obtain ⟨rfl, hspace, hstop⟩ := h
  rw [afterSpace, List.takeWhile_append_of_pos hspace, List.dropWhile_append_of_pos hspace]
  rcases rest with _ | ⟨c, rest⟩
  · simp
  · have hc : ¬isspace c = true := by
      rw [hstop c rfl]
      exact Bool.false_ne_true
    rw [List.takeWhile_cons_of_neg hc, List.dropWhile_cons_of_neg hc, List.append_nil]
    exact ⟨rfl, rfl⟩

lemma blanks_takeWhile (text : List UInt8) :
    Blanks text (text.takeWhile isspace) (afterSpace text) where
  eq_append := List.takeWhile_append_dropWhile.symm
  space := List.all_eq_true.mp List.all_takeWhile
  stop := by
    intro c hc
    have hnot := List.head?_dropWhile_not isspace text
    rw [afterSpace] at hc
    rw [hc] at hnot
    simpa using hnot

/-- A numeral does not start with a sign. -/
lemma Numeral.first {c : UInt8} (hbase : base ≤ 36) (h : Numeral base (c :: numeral) v) :
    c ≠ 43 ∧ c ≠ 45 := by
  have hdigit : ∀ {radix : ℕ}, radix ≤ 36 → digitValue c < radix → c ≠ 43 ∧ c ≠ 45 := by
    intro radix hradix hc
    constructor
    · rintro rfl
      exact absurd (Nat.lt_of_lt_of_le hc hradix) (by decide)
    · rintro rfl
      exact absurd (Nat.lt_of_lt_of_le hc hradix) (by decide)
  cases h with
  | plain _ hdigits => exact hdigit hbase (hdigits.2 c List.mem_cons_self)
  | hex | octal => exact ⟨by decide, by decide⟩
  | decimal _ hdigits => exact hdigit (by decide) (hdigits.2 c List.mem_cons_self)

lemma Numeral.ne_nil (h : Numeral base numeral v) : numeral ≠ [] := by
  cases h with
  | plain _ hdigits => exact hdigits.1
  | hex | octal | decimal => exact List.cons_ne_nil _ _

/-- A subject sequence is a sign and a numeral. -/
lemma Subject.exists_numeral {subject : List UInt8} {negative : Bool} (hbase : base ≤ 36)
    (h : Subject base subject negative magnitude) (hpre : subject <+: rest) :
    ∃ numeral, Numeral base numeral magnitude ∧ numeral <+: rest.drop (signOf rest).2 ∧
      subject.length = (signOf rest).2 + numeral.length ∧ negative = (signOf rest).1 := by
  cases h with
  | unsigned hnumeral =>
    obtain ⟨more, rfl⟩ := hpre
    rcases subject with _ | ⟨c, subject⟩
    · exact absurd rfl hnumeral.ne_nil
    · obtain ⟨hplus, hminus⟩ := hnumeral.first hbase
      have hsign : signOf (c :: subject ++ more) = (false, 0) :=
        (if_neg hplus).trans (if_neg hminus)
      rw [hsign]
      exact ⟨c :: subject, hnumeral, List.prefix_append _ _, (Nat.zero_add _).symm, rfl⟩
  | @plus numeral _ hnumeral | @minus numeral _ hnumeral =>
    obtain ⟨more, rfl⟩ := hpre
    exact ⟨numeral, hnumeral, List.prefix_append _ _, Nat.add_comm _ _, rfl⟩

/-- A sign and a numeral are a subject sequence. -/
lemma Numeral.exists_subject (h : Numeral base numeral magnitude)
    (hpre : numeral <+: rest.drop (signOf rest).2) :
    ∃ subject, subject <+: rest ∧ Subject base subject (signOf rest).1 magnitude ∧
      subject.length = (signOf rest).2 + numeral.length := by
  rw [signOf] at hpre ⊢
  split
  · next hplus =>
    rw [if_pos hplus] at hpre
    rcases rest with _ | ⟨c, rest⟩
    · exact absurd hplus (by decide)
    · obtain rfl : c = 43 := hplus
      exact ⟨43 :: numeral, List.cons_prefix_cons.mpr ⟨rfl, hpre⟩, .plus h, Nat.add_comm _ _⟩
  · next hplus =>
    rw [if_neg hplus] at hpre
    split
    · next hminus =>
      rw [if_pos hminus] at hpre
      rcases rest with _ | ⟨c, rest⟩
      · exact absurd hminus (by decide)
      · obtain rfl : c = 45 := hminus
        exact ⟨45 :: numeral, List.cons_prefix_cons.mpr ⟨rfl, hpre⟩, .minus h, Nat.add_comm _ _⟩
    · next hminus =>
      rw [if_neg hminus] at hpre
      exact ⟨numeral, hpre, .unsigned h, (Nat.zero_add _).symm⟩

/-- **The conversion of a text is the one that is found.** -/
theorem converts_iff (hbase : base ≤ 36) {conversion : Option Conversion} :
    Converts base text conversion ↔ conversion = isoConversion base text := by
  constructor
  · intro h
    cases h with
    | empty hblanks hnone =>
      obtain ⟨-, rfl⟩ := hblanks.eq
      rcases hfirst : firstNumeral base (bodyOf text) with _ | ⟨numeral, magnitude⟩
      · rw [isoConversion, hfirst]
        rfl
      · obtain ⟨hnumeral, hpre⟩ := firstNumeral_sound hfirst
        obtain ⟨subject, hsubject, h, -⟩ := hnumeral.exists_subject hpre
        exact absurd h (hnone _ _ _ hsubject)
    | subject hblanks hpre hsubject hlongest =>
      obtain ⟨rfl, rfl⟩ := hblanks.eq
      obtain ⟨numeral, hnumeral, hnumeralPrefix, hlength, hnegative⟩ :=
        hsubject.exists_numeral hbase hpre
      obtain ⟨longest, v', hfirst, hle, hvalue⟩ := hnumeral.le_firstNumeral hnumeralPrefix
      obtain ⟨hfound, hfoundPrefix⟩ := firstNumeral_sound hfirst
      obtain ⟨subject', hsubjectPrefix, h', hlength'⟩ := hfound.exists_subject hfoundPrefix
      have hge := hlongest _ _ _ hsubjectPrefix h'
      have heq : numeral.length = longest.length := by omega
      have hfirst' : firstNumeral base (bodyOf text) = some (longest, v') := hfirst
      rw [isoConversion, hfirst', hvalue heq, hnegative, hlength, heq, ← Nat.add_assoc]
      rfl
  · rintro rfl
    have hblanks := blanks_takeWhile text
    rw [isoConversion]
    rcases hfirst : firstNumeral base (bodyOf text) with _ | ⟨numeral, magnitude⟩
    · refine .empty hblanks fun subject negative magnitude hpre hsubject => ?_
      obtain ⟨numeral, hnumeral, hnumeralPrefix, -⟩ := hsubject.exists_numeral hbase hpre
      obtain ⟨longest, v', hlongest, -⟩ := hnumeral.le_firstNumeral hnumeralPrefix
      have hnone : firstNumeral base (bodyOf text) = some (longest, v') := hlongest
      rw [hnone] at hfirst
      exact absurd hfirst (by simp)
    · obtain ⟨hnumeral, hpre⟩ := firstNumeral_sound hfirst
      obtain ⟨subject, hsubjectPrefix, hsubject, hlength⟩ := hnumeral.exists_subject hpre
      have hconverts := Converts.subject hblanks hsubjectPrefix hsubject (by
        intro subject' negative' magnitude' hpre' hsubject'
        obtain ⟨numeral', hnumeral', hnumeralPrefix', hlength', -⟩ :=
          hsubject'.exists_numeral hbase hpre'
        obtain ⟨longest, v', hlongest, hle, -⟩ := hnumeral'.le_firstNumeral hnumeralPrefix'
        have hsame : firstNumeral base (bodyOf text) = some (longest, v') := hlongest
        rw [hfirst] at hsame
        obtain ⟨rfl, -⟩ := Prod.mk.inj (Option.some.inj hsame)
        omega)
      rw [hlength, ← Nat.add_assoc] at hconverts
      exact hconverts

end ModernC.Libc
