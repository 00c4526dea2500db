import ModernC.Libc.NumberTexts
import ModernC.Libc.Truncation

/-!
# The formatter against ISO C

What the formatter prints for an integer is what ISO C prescribes, except where the argument does
not fit the type of its modifier, and except for the sign and the alternate form of some unsigned
conversions. `output_eq_isoText_iff` says exactly where; it assumes that the conversion is one that
ISO C defines.
-/

namespace ModernC.Libc

open Framework

variable {m : Memory} {args : Args} {fmt k base v v' : ℕ} {upper : Bool}
  {p : Option ℕ} {r : FormatRequest} {c : Specification}

/-! ## What is printed -/

/-- What the program puts between the sign and the digits. -/
def printedPrefix (r : FormatRequest) (base : ℕ) (upper : Bool) (v : ℕ) : List UInt8 :=
  if .hash ∈ r.flags ∧ base = 8 ∧ (v ≠ 0 ∨ r.precision = some 0) then [48]
  else if .hash ∈ r.flags ∧ base = 16 ∧ (v ≠ 0 ∨ r.precision ≠ some 0) then
    [48, if upper then 88 else 120]
  else []

/-- The sign that the program puts in front of a number that is not negative. -/
def printedSign (r : FormatRequest) : List UInt8 :=
  if .plus ∈ r.flags then [43] else if .space ∈ r.flags then [32] else []

def printedUnsigned (r : FormatRequest) (base : ℕ) (upper : Bool) (v : ℕ) : List UInt8 :=
  isoField r (printedSign r ++ printedPrefix r base upper v)
    (atLeast (r.precision.getD 1) (isoDigits base upper v))

lemma isoDigit_ne_zero {d : ℕ} (hd : d < 16) (hne : d ≠ 0) : isoDigit upper d ≠ 48 := by
  have hall : ∀ (d : Fin 16) (upper : Bool), d ≠ 0 → isoDigit upper d ≠ 48 := by decide
  exact hall ⟨d, hd⟩ upper fun h => hne (Fin.mk.inj_iff.mp h)

/-- The digits that the program stores, the lowest first. -/
def storedDigits (base : ℕ) (upper : Bool) (v : ℕ) (p : Option ℕ) : List UInt8 :=
  if v = 0 ∧ storedPrecision p ≠ 0 then [48] else (Nat.digits base v).map (isoDigit upper)

lemma storedDigits_ne_nil : storedDigits base upper v p ≠ [] ↔ v ≠ 0 ∨ p ≠ some 0 := by
  rw [storedDigits]
  by_cases hzero : v = 0
  · by_cases hp : p = some 0
    · simp [hzero, hp, storedPrecision]
    · simp [hzero, hp, storedPrecision_eq_zero]
  · simp [hzero, Nat.digits_eq_nil_iff_eq_zero]

/-- The highest digit of a number is not zero. -/
lemma storedDigits_last (hbase : 2 ≤ base) (hbase' : base ≤ 16) :
    (storedDigits base upper v p = [] ∨ (storedDigits base upper v p).getLastD 0 ≠ 48) ↔
      v ≠ 0 ∨ p = some 0 := by
  rw [storedDigits]
  by_cases hzero : v = 0
  · by_cases hp : p = some 0
    · simp [hzero, hp, storedPrecision]
    · simp [hzero, hp, storedPrecision_eq_zero]
  · have hne : Nat.digits base v ≠ [] := Nat.digits_ne_nil_iff_ne_zero.mpr hzero
    have hlast : isoDigit upper ((Nat.digits base v).getLast hne) ≠ 48 :=
      isoDigit_ne_zero (Nat.lt_of_lt_of_le
        (Nat.digits_lt_base (by omega) (List.getLast_mem hne)) hbase')
        (Nat.getLast_digit_ne_zero base hzero)
    simp [hzero, List.getLastD_eq_getLast?, List.getLast?_map,
      List.getLast?_eq_getLast_of_ne_nil hne, hlast]

lemma prefixChars_eq (hbase : 2 ≤ base) (hbase' : base ≤ 16) :
    prefixChars base upper (Flags.with {} r.flags) (storedDigits base upper v r.precision) =
      printedPrefix r base upper v := by
  rw [prefixChars, printedPrefix]
  simp only [storedDigits_last hbase hbase', storedDigits_ne_nil]
  simp [Flags.with]

/-- **The text of a number.** -/
lemma intText_eq (hbase : 8 ≤ base) (hbase' : base ≤ 16) (hv : v < 2 ^ 64) (negative : Bool) :
    intText v negative base upper (Flags.with {} r.flags) r.width (storedPrecision r.precision) =
      some (isoField r ((if negative then [45] else printedSign r) ++ printedPrefix r base upper v)
        (atLeast (r.precision.getD 1) (isoDigits base upper v))) := by
  have hsign : (if signChar negative (Flags.with {} r.flags) ≠ 0 then
      [signChar negative (Flags.with {} r.flags)] else []) =
      if negative then [45] else printedSign r := by
    rw [signChar, printedSign, Flags.with]
    cases negative with
    | true => rfl
    | false =>
      by_cases hplus : FlagChar.plus ∈ r.flags
      · simp [hplus]
      · by_cases hspace : FlagChar.space ∈ r.flags
        · simp [hplus, hspace]
        · simp [hplus, hspace]
  rw [intText, emittedDigits_eq hbase hbase' hv, Option.map_some, leadText, hsign, digitsText_eq,
    isoField_eq]
  have hpre : prefixChars base upper (Flags.with {} r.flags)
      (storedDigits base upper v r.precision) = _ :=
    prefixChars_eq (Nat.le_trans (by decide) hbase) hbase'
  rw [storedDigits] at hpre
  rw [hpre]

/-! ## Signed conversions -/

/-- The signed argument that the program reads for a modifier. -/
def readSigned (modifier : Modifier) (args : Args) (a : ℕ) : ℤ :=
  if modifier.length.wide then argI64 args a else argI32 args a

/-- The unsigned argument that the program reads for a modifier. -/
def readUnsigned (modifier : Modifier) (args : Args) (a : ℕ) : ℕ :=
  if modifier.length.wide then argU64 args a else argU32 args a

lemma readSigned_bounds (modifier : Modifier) (args : Args) (a : ℕ) :
    -2 ^ 63 ≤ readSigned modifier args a ∧ readSigned modifier args a < 2 ^ 63 := by
  have hupper : argI32 args a < 2 ^ 31 := argI32_lt args a
  have hlower : -2 ^ 31 ≤ argI32 args a := le_argI32 args a
  rw [readSigned]
  split
  · exact ⟨BitVec.le_toInt _, BitVec.toInt_lt⟩
  · exact ⟨by omega, by omega⟩

lemma readUnsigned_lt (modifier : Modifier) (args : Args) (a : ℕ) :
    readUnsigned modifier args a < 2 ^ 64 := by
  have hnarrow : argU32 args a < 2 ^ 32 := BitVec.isLt _
  rw [readUnsigned]
  split
  · exact BitVec.isLt _
  · omega

lemma signedMagnitude_eq {v : ℤ} (hlower : -2 ^ 63 ≤ v) (hupper : v < 2 ^ 63) :
    signedMagnitude v = some v.natAbs := by
  rw [signedMagnitude]
  split
  · have hword : 2 ^ 64 - 1 - (v % 2 ^ 64).toNat + 1 = v.natAbs := by omega
    rw [checkedAdd, if_pos (by omega), hword]
  · have habs : v.toNat = v.natAbs := by omega
    rw [habs]

lemma signedText_eq (c : Specification) (args : Args) (k a : ℕ) :
    signedText (c.directive args k) args a =
      some (isoSigned (c.request args k) (readSigned c.modifier args a)) := by
  obtain ⟨hlower, hupper⟩ := readSigned_bounds c.modifier args a
  have hread : (if (c.directive args k).length.wide then argI64 args a else argI32 args a) =
      readSigned c.modifier args a := rfl
  have hpre : printedPrefix (c.request args k) 10 false (readSigned c.modifier args a).natAbs =
      [] := by
    rw [printedPrefix, if_neg (by omega), if_neg (by omega)]
  have hbody : isoBody (c.request args k) 10 false (readSigned c.modifier args a).natAbs =
      atLeast ((c.request args k).precision.getD 1)
        (isoDigits 10 false (readSigned c.modifier args a).natAbs) := by
    rw [isoBody, if_neg (by omega)]
  rw [signedText, hread, signedMagnitude_eq hlower hupper, Option.bind_some,
    Specification.directive]
  rw [intText_eq (by decide) (by decide) (by omega), hpre, List.append_nil, isoSigned, hbody,
    isoSign, printedSign]
  simp only [decide_eq_true_eq]

lemma unsignedText_eq (c : Specification) (hbase : 8 ≤ base) (hbase' : base ≤ 16) (args : Args)
    (k a : ℕ) : unsignedText (c.directive args k) base upper args a =
      some (printedUnsigned (c.request args k) base upper (readUnsigned c.modifier args a)) := by
  have hread : (if (c.directive args k).length.wide then argU64 args a else argU32 args a) =
      readUnsigned c.modifier args a := rfl
  rw [unsignedText, hread, Specification.directive]
  exact intText_eq hbase hbase' (readUnsigned_lt _ _ _) false

/-- The text that the program prints. -/
def Specification.printed (c : Specification) (args : Args) (k : ℕ) : List UInt8 :=
  match c.specifier with
  | .d | .i =>
    isoSigned (c.request args k) (readSigned c.modifier args (c.request args k).argument)
  | .c =>
    fieldText (Flags.with {} (c.request args k).flags) (c.request args k).width
      [UInt8.ofNat (argU32 args (c.request args k).argument)]
  | .u | .o | .x | .X =>
    printedUnsigned (c.request args k) c.specifier.base c.specifier.upper
      (readUnsigned c.modifier args (c.request args k).argument)

lemma convertText_eq (m : Memory) (c : Specification) (args : Args) (k : ℕ) :
    convertText m (c.directive args k) c.specifier.byte args (c.request args k).argument =
      some (c.printed args k, (c.request args k).argument + 1) := by
  rw [convertText, Specification.printed]
  cases c.specifier with
  | d | i => simp [Specifier.byte, signedText_eq]
  | o | u | x | X => simp [Specifier.byte, Specifier.base, Specifier.upper, unsignedText_eq]
  | c => simp [Specifier.byte, Specification.directive]

/-! ## Lengths -/

lemma length_atLeast (n : ℕ) (digits : List UInt8) :
    (atLeast n digits).length = max n digits.length := by
  rw [atLeast, List.length_append, List.length_replicate]
  omega

lemma length_isoField (r : FormatRequest) (lead body : List UInt8) :
    (isoField r lead body).length = max r.width (lead.length + body.length) := by
  rw [isoField_eq, length_numberText]

lemma length_isoDigits_le (hbase : 2 ≤ base) (hv : v < 2 ^ 64) :
    (isoDigits base upper v).length ≤ 64 := by
  rw [length_isoDigits, Nat.digits_length_le_iff (by omega)]
  exact Nat.lt_of_lt_of_le hv (Nat.pow_le_pow_left hbase 64)

lemma length_printedPrefix_le (r : FormatRequest) (base : ℕ) (upper : Bool) (v : ℕ) :
    (printedPrefix r base upper v).length ≤ 2 := by
  rw [printedPrefix]
  split
  · decide
  · split
    · exact Nat.le_refl 2
    · decide

lemma length_printedSign_le (r : FormatRequest) : (printedSign r).length ≤ 1 := by
  rw [printedSign]
  split
  · decide
  · split <;> decide

lemma length_isoSign_le (r : FormatRequest) (v : ℤ) : (isoSign r v).length ≤ 1 := by
  rw [isoSign]
  split
  · decide
  · split
    · decide
    · split <;> decide

/-- A text that is asked for is not longer than the address space. -/
lemma length_printed_lt (hwidth : c.WidthFits args k) (hprecision : c.PrecisionFits args k) :
    (c.printed args k).length < 2 ^ 64 := by
  have hleast : (c.request args k).precision.getD 1 < 2 ^ 31 := by
    rcases hp : (c.request args k).precision with _ | n
    · decide
    · exact hprecision n hp
  have hunsigned : ∀ base upper, 2 ≤ base → (printedUnsigned (c.request args k) base upper
      (readUnsigned c.modifier args (c.request args k).argument)).length < 2 ^ 64 := by
    intro base upper hbase
    have hdigits : (isoDigits base upper _).length ≤ 64 :=
      length_isoDigits_le hbase (readUnsigned_lt c.modifier args (c.request args k).argument)
    have hsign := length_printedSign_le (c.request args k)
    have hpre := length_printedPrefix_le (c.request args k) base upper
      (readUnsigned c.modifier args (c.request args k).argument)
    have hfits := hwidth.1
    rw [printedUnsigned, length_isoField, List.length_append, length_atLeast]
    omega
  have hsigned : (isoSigned (c.request args k)
      (readSigned c.modifier args (c.request args k).argument)).length < 2 ^ 64 := by
    obtain ⟨hlower, hupper⟩ := readSigned_bounds c.modifier args (c.request args k).argument
    have hdigits : (isoDigits 10 false _).length ≤ 64 := length_isoDigits_le (by decide)
      (by omega : (readSigned c.modifier args (c.request args k).argument).natAbs < 2 ^ 64)
    have hsign := length_isoSign_le (c.request args k)
      (readSigned c.modifier args (c.request args k).argument)
    have hfits := hwidth.1
    rw [isoSigned, length_isoField, isoBody, if_neg (by omega), length_atLeast]
    omega
  rw [Specification.printed]
  cases c.specifier with
  | d | i => exact hsigned
  | o | u | x | X => exact hunsigned _ _ (by decide)
  | c =>
    have hfits := hwidth.1
    rw [length_fieldText, List.length_singleton]
    omega

/-! ## The output -/

/-- **The output of a specification:** what is printed, if its width and its precision fit. -/
lemma output_specification (htext : TextAt m fmt c.bytes) :
    output m args fmt k =
      if c.WidthFits args k ∧ c.PrecisionFits args k then some (c.printed args k) else none := by
  have htail : TextAt m (fmt + 1) c.bytes.tail := htext.tail
  obtain ⟨front, hfront⟩ : ∃ front, c.bytes.tail = front ++ [c.specifier.byte] :=
    ⟨c.flags.map FlagChar.byte ++ (c.widthBytes ++ (c.precisionBytes ++ c.modifier.bytes)),
      by simp [Specification.bytes, Specification.widthBytes]⟩
  have hspecifier : TextAt m (fmt + 1 + (c.bytes.tail.length - 1)) [c.specifier.byte] := by
    have hlength : c.bytes.tail.length - 1 = front.length := by simp [hfront]
    rw [hlength]
    exact TextAt.append (hfront ▸ htail)
  have hlt := hspecifier.lt
  rw [List.length_singleton] at hlt
  have hpercent : m fmt = 37 := htext.first
  have hzero : m fmt ≠ 0 := by
    rw [hpercent]
    decide
  have hadd : checkedAdd 64 fmt 1 = some (fmt + 1) := if_pos (htext.succ_lt hzero)
  have hread : parseDirective m args (fmt + 1) k = _ := parseDirective_text htail
  obtain ⟨fuel, hfuel⟩ : ∃ fuel, 2 ^ 64 + 1 - fmt = fuel + 1 + 1 := ⟨2 ^ 64 - 1 - fmt, by omega⟩
  rw [output, hfuel]
  by_cases hfits : c.WidthFits args k ∧ c.PrecisionFits args k
  · rw [if_pos hfits] at hread ⊢
    have hbyte : m (fmt + 1 + (c.bytes.tail.length - 1)) = c.specifier.byte := hspecifier.first
    have hend : m (fmt + 1 + (c.bytes.tail.length - 1) + 1) = 0 := hspecifier.tail.first
    have hconvert := convertText_eq m c args k
    rw [← hbyte] at hconvert
    rw [doFormat_directive hpercent hadd hread (hbyte ▸ hspecifier.2.1) (if_pos hlt) hconvert,
      foldlM_unboundedPutc _ (by decide), List.length_nil, Nat.zero_add,
      if_pos (length_printed_lt hfits.1 hfits.2), Option.bind_some, doFormat, if_pos hend]
    rfl
  · rw [if_neg hfits] at hread ⊢
    rw [doFormat, if_neg hzero, if_neg (not_not_intro hpercent), hadd, Option.bind_eq_bind,
      Option.bind_some, hread]
    rfl

/-! ## Telling texts apart -/

lemma not_mem_atLeast {b : UInt8} (n : ℕ) (hbase : 2 ≤ base) (hbase' : base ≤ 16)
    (hb : base ≤ digitValue b) (hzero : b ≠ 48) : b ∉ atLeast n (isoDigits base upper v) := by
  intro hmem
  rcases mem_atLeast hmem with rfl | hdigit
  · exact hzero rfl
  · exact absurd (mem_isoDigits hbase hbase' hdigit) (Nat.not_lt_of_le hb)

/-- The precision is increased at most. -/
lemma exists_isoBody (r : FormatRequest) (base : ℕ) (upper : Bool) (v : ℕ) :
    ∃ n, isoBody r base upper v = atLeast n (isoDigits base upper v) := by
  rw [isoBody]
  split
  · exact ⟨_, rfl⟩
  · exact ⟨_, rfl⟩

lemma isoBody_of_ne (hbase : base ≠ 8) : isoBody r base upper v =
    atLeast (r.precision.getD 1) (isoDigits base upper v) := by
  rw [isoBody, if_neg fun h => hbase h.2.1]

lemma mem_isoField {b : UInt8} {lead body : List UInt8} (hblank : b ≠ 32) (hzero : b ≠ 48) :
    b ∈ isoField r lead body ↔ b ∈ lead ∨ b ∈ body := by
  rw [isoField_eq, mem_numberText hblank hzero]

lemma leads_isoSign (v : ℤ) : Leads 10 (isoSign r v) := by
  intro b hb hlt
  have hsign : b = 45 ∨ b = 43 ∨ b = 32 := by
    rw [isoSign] at hb
    split at hb
    · exact Or.inl (List.mem_singleton.mp hb)
    · split at hb
      · exact Or.inr (Or.inl (List.mem_singleton.mp hb))
      · split at hb
        · exact Or.inr (Or.inr (List.mem_singleton.mp hb))
        · cases hb
  rcases hsign with rfl | rfl | rfl
  · exact absurd hlt (by decide)
  · exact absurd hlt (by decide)
  · exact absurd hlt (by decide)

lemma mem_isoSign {v : ℤ} : 45 ∈ isoSign r v ↔ v < 0 := by
  rw [isoSign]
  split
  · next hneg => exact iff_of_true List.mem_cons_self hneg
  · next hneg =>
    refine iff_of_false ?_ hneg
    split
    · decide
    · split <;> decide

/-- **A signed number is told by its text.** -/
lemma isoSigned_inj {v v' : ℤ} : isoSigned r v = isoSigned r v' ↔ v = v' := by
  refine ⟨fun h => ?_, fun h => congrArg _ h⟩
  rw [isoSigned, isoSigned, isoBody_of_ne (by decide), isoBody_of_ne (by decide)] at h
  have hmagnitude : v.natAbs = v'.natAbs := by
    have hread := congrArg (readBack 10) h
    rwa [isoField_eq, isoField_eq,
      readBack_numberText (by decide) (by decide) (leads_isoSign v),
      readBack_numberText (by decide) (by decide) (leads_isoSign v')] at hread
  have hmem : ∀ w : ℤ, 45 ∈ isoField r (isoSign r w)
      (atLeast (r.precision.getD 1) (isoDigits 10 false w.natAbs)) ↔ w < 0 := by
    intro w
    rw [mem_isoField (by decide) (by decide), mem_isoSign]
    exact or_iff_left (not_mem_atLeast _ (by decide) (by decide) (by decide) (by decide))
  have hnegative : v < 0 ↔ v' < 0 := by
    rw [← hmem v, h, hmem v']
  omega

/-! ## Unsigned conversions -/

/-- The blanks of the field absorb a blank in front of the number. -/
def FormatRequest.Absorbs (r : FormatRequest) (number : List UInt8) : Prop :=
  ¬(.zero ∈ r.flags ∧ .minus ∉ r.flags ∧ r.precision = none) ∧ number.length < r.width ∧
    (.minus ∈ r.flags → number = [])

/-- An unsigned conversion does without the forms that the program gets wrong: there is no sign that
is seen, the hexadecimal prefix is not asked for with a zero that is printed, and the zero of an
octal number does not come on top of the zeros of the precision. -/
structure FormatRequest.Plain (r : FormatRequest) (base : ℕ) (upper : Bool) (v : ℕ) : Prop where
  plus : .plus ∉ r.flags
  space : .space ∈ r.flags → r.Absorbs (isoPrefix r base upper v ++ isoBody r base upper v)
  hexadecimal : .hash ∈ r.flags → base = 16 → v = 0 → r.precision = some 0
  octal : .hash ∈ r.flags → base = 8 → v ≠ 0 → r.precision.getD 1 ≤ (Nat.digits 8 v).length

lemma isoField_zero (r : FormatRequest) (body : List UInt8) :
    isoField r [48] body = isoField r [] (48 :: body) := by
  rw [isoField_eq, isoField_eq]
  show numberText _ _ _ ([] ++ [48]) body = _
  exact numberText_zero

lemma isoField_blank {lead body : List UInt8} (hlead : 32 ∉ lead) (hbody : 32 ∉ body) :
    isoField r (32 :: lead) body = isoField r lead body ↔ r.Absorbs (lead ++ body) := by
  have hpads : zeroPads (Flags.with {} r.flags) (storedPrecision r.precision) = false ↔
      ¬(.zero ∈ r.flags ∧ .minus ∉ r.flags ∧ r.precision = none) := by
    rw [← Bool.not_eq_true, not_iff_not]
    simp [zeroPads, Flags.with, storedPrecision_neg, and_assoc]
  rw [isoField_eq, isoField_eq, numberText_blank hlead hbody, hpads, FormatRequest.Absorbs,
    List.length_append]
  simp [Flags.with]

lemma count_isoField {lead body : List UInt8} (hp : r.precision ≠ none) :
    (isoField r lead body).count 48 = lead.count 48 + body.count 48 := by
  rw [isoField]
  split
  · simp [List.count_replicate]
  · rw [if_neg fun h => hp h.2]
    simp [List.count_replicate]

lemma isoDigits_head (hbase : 2 ≤ base) (hbase' : base ≤ 16) (hv : v ≠ 0) :
    (isoDigits base upper v).head? ≠ some 48 := by
  have hne : Nat.digits base v ≠ [] := Nat.digits_ne_nil_iff_ne_zero.mpr hv
  have hlast : isoDigit upper ((Nat.digits base v).getLast hne) ≠ 48 :=
    isoDigit_ne_zero (Nat.lt_of_lt_of_le
      (Nat.digits_lt_base (by omega) (List.getLast_mem hne)) hbase')
      (Nat.getLast_digit_ne_zero base hv)
  simp [isoDigits, List.head?_reverse, List.getLast?_eq_getLast_of_ne_nil hne, hlast]

lemma atLeast_of_le {n : ℕ} {digits : List UInt8} (h : n ≤ digits.length) :
    atLeast n digits = digits := by
  rw [atLeast, Nat.sub_eq_zero_of_le h]
  rfl

lemma atLeast_head {n : ℕ} {digits : List UInt8} (h : digits.length < n) :
    (atLeast n digits).head? = some 48 := by
  obtain ⟨zeros, hzeros⟩ : ∃ zeros, n - digits.length = zeros + 1 :=
    ⟨n - digits.length - 1, by omega⟩
  rw [atLeast, hzeros]
  rfl

lemma atLeast_succ (digits : List UInt8) : atLeast (digits.length + 1) digits = 48 :: digits := by
  rw [atLeast, Nat.add_sub_cancel_left]
  rfl

lemma printedPrefix_of_ne (hbase : base ≠ 8) : printedPrefix r base upper v =
    if .hash ∈ r.flags ∧ base = 16 ∧ (v ≠ 0 ∨ r.precision ≠ some 0) then
      [48, if upper then 88 else 120] else [] := by
  rw [printedPrefix, if_neg fun h => hbase h.2.1]

/-- **Without a sign, the program prints the text of ISO C.** -/
lemma isoUnsigned_eq (upper : Bool) (hbase : 2 ≤ base) (hbase' : base ≤ 16)
    (hhex : .hash ∈ r.flags → base = 16 → v = 0 → r.precision = some 0)
    (hoct : .hash ∈ r.flags → base = 8 → v ≠ 0 → r.precision.getD 1 ≤ (Nat.digits 8 v).length) :
    isoUnsigned r base upper v = isoField r (printedPrefix r base upper v)
        (atLeast (r.precision.getD 1) (isoDigits base upper v)) ∧
      isoPrefix r base upper v ++ isoBody r base upper v = printedPrefix r base upper v ++
        atLeast (r.precision.getD 1) (isoDigits base upper v) := by
  rw [isoUnsigned]
  -- only the alternate form of octal lengthens the digits
  by_cases hhash : FlagChar.hash ∈ r.flags
  · by_cases height : base = 8
    · subst height
      have hempty : isoPrefix r 8 upper v = [] := if_neg (by omega)
      rw [hempty, isoBody, printedPrefix]
      by_cases hzero : v = 0
      · subst hzero
        have hdigits : isoDigits 8 upper 0 = [] := by simp [isoDigits]
        rw [hdigits]
        by_cases hp : r.precision = some 0
        · rw [if_pos ⟨hhash, rfl, by simp [hp, atLeast]⟩, if_pos ⟨hhash, rfl, Or.inr hp⟩, hp,
            isoField_zero]
          exact ⟨rfl, rfl⟩
        · have hleast : 0 < r.precision.getD 1 := by
            rcases hprecision : r.precision with _ | n
            · decide
            · rw [hprecision] at hp
              exact Nat.pos_of_ne_zero fun h => hp (congrArg some h)
          rw [if_neg fun h => h.2.2 (atLeast_head hleast),
            if_neg fun h => h.2.2.elim (fun h => h rfl) hp, if_neg (by omega)]
          exact ⟨rfl, rfl⟩
      · have hle : r.precision.getD 1 ≤ (isoDigits 8 upper v).length := by
          rw [length_isoDigits]
          exact hoct hhash rfl hzero
        rw [atLeast_of_le hle, if_pos ⟨hhash, rfl, isoDigits_head hbase hbase' hzero⟩,
          if_pos ⟨hhash, rfl, Or.inl hzero⟩, isoField_zero, atLeast_succ]
        exact ⟨rfl, rfl⟩
    · have hpre : isoPrefix r base upper v = printedPrefix r base upper v := by
        rw [isoPrefix, printedPrefix_of_ne height]
        by_cases hsixteen : base = 16
        · by_cases hzero : v = 0
          · have hp := hhex hhash hsixteen hzero
            rw [if_neg fun h => h.2.2 hzero,
              if_neg fun h => h.2.2.elim (fun h => h hzero) fun h => h hp]
          · have hprints : FlagChar.hash ∈ r.flags ∧ base = 16 ∧
                (v ≠ 0 ∨ r.precision ≠ some 0) := ⟨hhash, hsixteen, Or.inl hzero⟩
            rw [if_pos ⟨hhash, hsixteen, hzero⟩, if_pos hprints]
        · rw [if_neg fun h => hsixteen h.2.1, if_neg fun h => hsixteen h.2.1]
      rw [hpre, isoBody_of_ne height]
      exact ⟨rfl, rfl⟩
  · rw [isoPrefix, isoBody, printedPrefix, if_neg fun h => hhash h.1, if_neg fun h => hhash h.1,
      if_neg fun h => hhash h.1, if_neg fun h => hhash h.1]
    exact ⟨rfl, rfl⟩

lemma mem_printedPrefix {b : UInt8} (hb : b ∈ printedPrefix r base upper v) :
    b = 48 ∨ b = 120 ∨ b = 88 := by
  rw [printedPrefix] at hb
  split at hb
  · exact Or.inl (List.mem_singleton.mp hb)
  · split at hb
    · have hb : b = 48 ∨ b = if upper then 88 else 120 := by simpa using hb
      cases upper with
      | false => exact hb.imp_right Or.inl
      | true => exact hb.imp_right Or.inr
    · cases hb

lemma mem_printedSign {b : UInt8} (hb : b ∈ printedSign r) : b = 43 ∨ b = 32 := by
  rw [printedSign] at hb
  split at hb
  · exact Or.inl (List.mem_singleton.mp hb)
  · split at hb
    · exact Or.inr (List.mem_singleton.mp hb)
    · cases hb

lemma leads_printed : Leads 16 (printedSign r ++ printedPrefix r base upper v) := by
  intro b hb hlt
  rcases List.mem_append.mp hb with hb | hb
  · rcases mem_printedSign hb with rfl | rfl
    · exact absurd hlt (by decide)
    · exact absurd hlt (by decide)
  · rcases mem_printedPrefix hb with rfl | rfl | rfl
    · rfl
    · exact absurd hlt (by decide)
    · exact absurd hlt (by decide)

lemma mem_isoPrefix {b : UInt8} (hb : b ∈ isoPrefix r base upper v) :
    b = 48 ∨ b = 120 ∨ b = 88 := by
  rw [isoPrefix] at hb
  split at hb
  · have hb : b = 48 ∨ b = if upper then 88 else 120 := by simpa using hb
    cases upper with
    | false => exact hb.imp_right Or.inl
    | true => exact hb.imp_right Or.inr
  · cases hb

lemma leads_isoPrefix : Leads 16 (isoPrefix r base upper v) := by
  intro b hb hlt
  rcases mem_isoPrefix hb with rfl | rfl | rfl
  · rfl
  · exact absurd hlt (by decide)
  · exact absurd hlt (by decide)

lemma Leads.mono {lead : List UInt8} (h : Leads 16 lead) (hbase : base ≤ 16) : Leads base lead :=
  fun b hb hlt => h b hb (Nat.lt_of_lt_of_le hlt hbase)

/-- **An unsigned number is printed as ISO C prescribes exactly where its conversion is plain.** -/
lemma printedUnsigned_iff (hbase : 2 ≤ base) (hbase' : base ≤ 16) :
    printedUnsigned r base upper v = isoUnsigned r base upper v' ↔
      v = v' ∧ r.Plain base upper v' := by
  have hnot : ∀ (b : UInt8) (n w : ℕ), base ≤ digitValue b → b ≠ 48 →
      b ∉ atLeast n (isoDigits base upper w) := fun b n w => not_mem_atLeast n hbase hbase'
  have hblank : ∀ n w : ℕ, 32 ∉ atLeast n (isoDigits base upper w) := fun n w =>
    hnot 32 n w (by rw [show digitValue 32 = 99 from rfl]; omega) (by decide)
  constructor
  · intro h
    -- both texts spell the value, so the values are one; the flags are read off the other bytes
    have hvalue : v = v' := by
      obtain ⟨n, hn⟩ := exists_isoBody r base upper v'
      have hread := congrArg (readBack base) h
      rwa [printedUnsigned, isoUnsigned, hn, isoField_eq, isoField_eq,
        readBack_numberText hbase hbase' (leads_printed.mono hbase'),
        readBack_numberText hbase hbase' (leads_isoPrefix.mono hbase')] at hread
    subst hvalue
    have hmem : ∀ b : UInt8, b ∈ printedSign r ∨ b ∈ printedPrefix r base upper v →
        b ≠ 32 → b ≠ 48 → base ≤ digitValue b → b ∈ isoPrefix r base upper v := by
      intro b hb h32 h48 hdigit
      obtain ⟨n, hn⟩ := exists_isoBody r base upper v
      have hprinted : b ∈ printedUnsigned r base upper v := by
        rw [printedUnsigned, mem_isoField h32 h48]
        exact Or.inl (List.mem_append.mpr hb)
      rw [h, isoUnsigned, hn, mem_isoField h32 h48] at hprinted
      exact hprinted.resolve_right (hnot b n v hdigit h48)
    have hplus : FlagChar.plus ∉ r.flags := by
      intro hplus
      have hsign : (43 : UInt8) ∈ printedSign r := by
        rw [printedSign, if_pos hplus]
        exact List.mem_cons_self
      have hpre := hmem 43 (Or.inl hsign) (by decide) (by decide)
        (by rw [show digitValue 43 = 99 from rfl]; omega)
      rcases mem_isoPrefix hpre with h | h | h <;> exact absurd h (by decide)
    have hhex : FlagChar.hash ∈ r.flags → base = 16 → v = 0 → r.precision = some 0 := by
      intro hhash hsixteen hzero
      by_contra hp
      have hletter : (if upper then (88 : UInt8) else 120) ∈ isoPrefix r base upper v := by
        refine hmem _ (Or.inr ?_) ?_ ?_ ?_
        · have hprints : FlagChar.hash ∈ r.flags ∧ base = 16 ∧
              (v ≠ 0 ∨ r.precision ≠ some 0) := ⟨hhash, hsixteen, Or.inr hp⟩
          rw [printedPrefix_of_ne (by omega), if_pos hprints]
          exact List.mem_cons_of_mem _ List.mem_cons_self
        · cases upper <;> decide
        · cases upper <;> decide
        · rw [hsixteen]
          cases upper <;> decide
      rw [isoPrefix, if_neg fun h => h.2.2 hzero] at hletter
      cases hletter
    have hoct : FlagChar.hash ∈ r.flags → base = 8 → v ≠ 0 →
        r.precision.getD 1 ≤ (Nat.digits 8 v).length := by
      intro hhash height hzero
      subst height
      by_contra hmore
      have hlength : (isoDigits 8 upper v).length < r.precision.getD 1 := by
        rw [length_isoDigits]
        omega
      have hp : r.precision ≠ none := by
        intro hnone
        have hpos : 0 < (Nat.digits 8 v).length :=
          List.length_pos_of_ne_nil (Nat.digits_ne_nil_iff_ne_zero.mpr hzero)
        rw [hnone] at hmore
        exact hmore hpos
      have hcount := congrArg (List.count 48) h
      have hsign : (printedSign r).count 48 = 0 := by
        rw [List.count_eq_zero]
        intro hb
        rcases mem_printedSign hb with h | h <;> exact absurd h (by decide)
      have hpre : printedPrefix r 8 upper v = [48] := if_pos ⟨hhash, rfl, Or.inl hzero⟩
      have hpre' : isoPrefix r 8 upper v = [] := if_neg (by omega)
      have hbody : isoBody r 8 upper v =
          atLeast (r.precision.getD 1) (isoDigits 8 upper v) :=
        if_neg fun h => h.2.2 (atLeast_head hlength)
      rw [printedUnsigned, isoUnsigned, count_isoField hp, count_isoField hp, hpre, hpre',
        hbody, List.count_append, hsign] at hcount
      simp at hcount
    refine ⟨rfl, hplus, fun hspace => ?_, hhex, hoct⟩
    obtain ⟨heq, hcontent⟩ := isoUnsigned_eq upper hbase hbase' hhex hoct
    rw [heq, printedUnsigned, printedSign, if_neg hplus, if_pos hspace, List.singleton_append,
      isoField_blank ?_ (hblank _ _)] at h
    · rwa [hcontent]
    · intro hb
      rcases mem_printedPrefix hb with h | h | h <;> exact absurd h (by decide)
  · rintro ⟨rfl, hplain⟩
    obtain ⟨heq, hcontent⟩ := isoUnsigned_eq upper hbase hbase' hplain.hexadecimal
      hplain.octal
    rw [heq, printedUnsigned, printedSign, if_neg hplain.plus]
    by_cases hspace : FlagChar.space ∈ r.flags
    · have habsorbs := hplain.space hspace
      rw [hcontent] at habsorbs
      rw [if_pos hspace, List.singleton_append, isoField_blank ?_ (hblank _ _)]
      · exact habsorbs
      · intro hb
        rcases mem_printedPrefix hb with h | h | h <;> exact absurd h (by decide)
    · rw [if_neg hspace, List.nil_append]

/-! ## Arguments -/

/-- The argument of a signed conversion is in the range of the type of its modifier. -/
def SignedFits (modifier : Modifier) (args : Args) (a : ℕ) : Prop :=
  modifier.bits < 32 →
    -2 ^ (modifier.bits - 1) ≤ argI32 args a ∧ argI32 args a < 2 ^ (modifier.bits - 1)

/-- The argument of an unsigned conversion is in the range of the type of its modifier. -/
def UnsignedFits (modifier : Modifier) (args : Args) (a : ℕ) : Prop :=
  modifier.bits < 32 → argU32 args a < 2 ^ modifier.bits

lemma readSigned_eq_iff (modifier : Modifier) (args : Args) (a : ℕ) :
    readSigned modifier args a = ((args a).setWidth modifier.bits).toInt ↔
      SignedFits modifier args a := by
  rw [SignedFits]
  cases modifier with
  | none => exact iff_of_true rfl fun h => absurd h (by decide)
  | hh | h =>
    show argI32 args a = _ ↔ _
    simp only [argI32, Modifier.bits, BitVec.toInt_eq_toNat_cond,
      BitVec.toNat_setWidth]
    omega
  | _ =>
    refine iff_of_true ?_ fun h => absurd h (by decide)
    show (args a).toInt = ((args a).setWidth 64).toInt
    rw [BitVec.setWidth_eq]

lemma readUnsigned_eq_iff (modifier : Modifier) (args : Args) (a : ℕ) :
    readUnsigned modifier args a = ((args a).setWidth modifier.bits).toNat ↔
      UnsignedFits modifier args a := by
  rw [UnsignedFits]
  cases modifier with
  | none => exact iff_of_true rfl fun h => absurd h (by decide)
  | hh | h =>
    show argU32 args a = _ ↔ _
    simp only [argU32, Modifier.bits, BitVec.toNat_setWidth]
    omega
  | _ =>
    refine iff_of_true ?_ fun h => absurd h (by decide)
    show (args a).toNat = ((args a).setWidth 64).toNat
    rw [BitVec.setWidth_eq]

lemma printed_char (hspecifier : c.specifier = .c) (hzero : .zero ∉ c.flags) :
    c.printed args k = c.isoText args k := by
  have hflags : FlagChar.zero ∉ (c.request args k).flags := by
    rw [Specification.request]
    dsimp only
    split
    · exact fun h => hzero ((List.mem_cons.mp h).resolve_left (by decide))
    · exact hzero
  have hpads : zeroPads (Flags.with {} (c.request args k).flags)
      (storedPrecision (c.request args k).precision) = false := by
    simp [zeroPads, Flags.with, hflags]
  have hbyte : UInt8.ofNat (args (c.request args k).argument).toNat =
      UInt8.ofNat (argU32 args (c.request args k).argument) := by
    rw [← UInt8.toNat_inj, UInt8.toNat_ofNat', UInt8.toNat_ofNat', argU32, BitVec.toNat_setWidth]
    omega
  rw [Specification.printed, Specification.isoText, hspecifier]
  dsimp only
  rw [isoChar, isoField_eq, numberText, hpads, if_neg Bool.false_ne_true, hbyte, List.nil_append]

/-! ## The conversions -/

/-- **Where the program prints what ISO C prescribes:** the width, the precision and the argument
fit, and an unsigned conversion is plain. -/
structure Specification.Conforms (c : Specification) (args : Args) (k : ℕ) : Prop where
  width : c.WidthFits args k
  precision : c.PrecisionFits args k
  signed : c.specifier = .d ∨ c.specifier = .i →
    SignedFits c.modifier args (c.request args k).argument
  unsigned : c.specifier ∈ [.u, .o, .x, .X] →
    UnsignedFits c.modifier args (c.request args k).argument ∧
      (c.request args k).Plain c.specifier.base c.specifier.upper (c.unsignedValue args k)

lemma printed_signed (hspecifier : c.specifier = .d ∨ c.specifier = .i) :
    c.printed args k = c.isoText args k ↔
      SignedFits c.modifier args (c.request args k).argument := by
  rw [← readSigned_eq_iff, Specification.printed, Specification.isoText]
  rcases hspecifier with h | h
  · rw [h]
    exact isoSigned_inj
  · rw [h]
    exact isoSigned_inj

lemma printed_unsigned (hspecifier : c.specifier ∈ [.u, .o, .x, .X]) :
    c.printed args k = c.isoText args k ↔
      UnsignedFits c.modifier args (c.request args k).argument ∧
        (c.request args k).Plain c.specifier.base c.specifier.upper (c.unsignedValue args k) := by
  have hbase : 2 ≤ c.specifier.base ∧ c.specifier.base ≤ 16 := by
    cases c.specifier <;> decide
  rw [← readUnsigned_eq_iff, ← Specification.unsignedValue,
    ← printedUnsigned_iff hbase.1 hbase.2, Specification.printed, Specification.isoText]
  cases h : c.specifier with
  | d | i | c => exact absurd (h ▸ hspecifier) (by decide)
  | _ => exact Iff.rfl

/-- **The integer conversions print what ISO C prescribes exactly where they conform.** -/
theorem output_eq_isoText_iff (htext : TextAt m fmt c.bytes) (hdefined : c.Defined args k) :
    output m args fmt k = some (c.isoText args k) ↔ c.Conforms args k := by
  rw [output_specification htext]
  by_cases hfits : c.WidthFits args k ∧ c.PrecisionFits args k
  · rw [if_pos hfits, Option.some_inj]
    cases hspecifier : c.specifier with
    | c =>
      refine iff_of_true (printed_char hspecifier (hdefined.2 hspecifier).1) ?_
      refine ⟨hfits.1, hfits.2, fun h => ?_, fun h => ?_⟩
      · exact absurd (hspecifier ▸ h) (by decide)
      · exact absurd (hspecifier ▸ h) (by decide)
    | d =>
      rw [printed_signed (Or.inl hspecifier)]
      refine ⟨fun h => ⟨hfits.1, hfits.2, fun _ => h, fun h => ?_⟩,
        fun h => h.signed (Or.inl hspecifier)⟩
      exact absurd (hspecifier ▸ h) (by decide)
    | i =>
      rw [printed_signed (Or.inr hspecifier)]
      refine ⟨fun h => ⟨hfits.1, hfits.2, fun _ => h, fun h => ?_⟩,
        fun h => h.signed (Or.inr hspecifier)⟩
      exact absurd (hspecifier ▸ h) (by decide)
    | _ =>
      have hmem : c.specifier ∈ [.u, .o, .x, .X] := by
        rw [hspecifier]
        decide
      rw [printed_unsigned hmem]
      refine ⟨fun h => ⟨hfits.1, hfits.2, fun h => ?_, fun _ => h⟩, fun h => h.unsigned hmem⟩
      exact absurd (hspecifier ▸ h) (by decide)
  · rw [if_neg hfits]
    exact iff_of_false (fun h => by cases h) fun h => hfits ⟨h.width, h.precision⟩

/-- `%5d`. -/
def wideDecimal : Specification where
  flags := []
  width := some (.number [5])
  precision := none
  modifier := .none
  specifier := .d
  width_starts := by
    rintro digits ⟨⟩
    exact ⟨5, [], rfl, by decide⟩

theorem output_wideDecimal :
    output (fun a => wideDecimal.bytes.getD (a - 16) 0) (fun _ => -7) 16 0 =
      some [32, 32, 32, 45, 55] := by
  have htext : TextAt (fun a => wideDecimal.bytes.getD (a - 16) 0) 16 wideDecimal.bytes :=
    ⟨rfl, by decide, rfl, by decide, rfl, by decide, rfl, by decide⟩
  have hdefined : wideDecimal.Defined (fun _ => -7) 0 := ⟨by decide, by decide⟩
  have hconforms : wideDecimal.Conforms (fun _ => -7) 0 :=
    ⟨by decide, by decide, fun _ h => absurd h (by decide), fun h => absurd h (by decide)⟩
  have htext' : wideDecimal.isoText (fun _ => -7) 0 = [32, 32, 32, 45, 55] := by decide
  rw [← htext']
  exact (output_eq_isoText_iff htext hdefined).mpr hconforms

/-- `%hhx`. -/
def hexByte : Specification where
  flags := []
  width := none
  precision := none
  modifier := .hh
  specifier := .x
  width_starts := by
    rintro digits ⟨⟩

/-- `%hhx` of `0x101` is printed as `101`, and ISO C prescribes `1`. -/
theorem hexByte_differs :
    TextAt (fun a => hexByte.bytes.getD (a - 16) 0) 16 hexByte.bytes ∧
      hexByte.Defined (fun _ => 0x101) 0 ∧
      output (fun a => hexByte.bytes.getD (a - 16) 0) (fun _ => 0x101) 16 0 = some [49, 48, 49] ∧
      hexByte.isoText (fun _ => 0x101) 0 = [49] := by
  have htext : TextAt (fun a => hexByte.bytes.getD (a - 16) 0) 16 hexByte.bytes :=
    ⟨rfl, by decide, rfl, by decide, rfl, by decide, rfl, by decide, rfl, by decide⟩
  have hfits : hexByte.WidthFits (fun _ => 0x101) 0 ∧ hexByte.PrecisionFits (fun _ => 0x101) 0 := by
    decide
  have hprinted : hexByte.printed (fun _ => 0x101) 0 = [49, 48, 49] := by decide
  refine ⟨htext, ⟨by decide, by decide⟩, ?_, by decide⟩
  rw [output_specification htext, if_pos hfits, hprinted]

end ModernC.Libc
