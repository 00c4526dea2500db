import ModernC.Lexer.Lexer

/-!
# Where a token ends

What a token is depends on the text behind it only where that text goes on with the token.  A text
`Halts` a word or a number if it starts with no letter, digit or underscore; integers must not be
followed by a fraction either, and each mark has the characters that make a longer mark of it.
-/

namespace ModernC.Lexer

open ModernC.Parser (Kind)
open Specialize (isIdentStart isIdentContinue)

/-! ## Characters -/

@[simp] lemma peek_nil : peek [] = '\x00' := rfl

@[simp] lemma peek_cons (c : Char) (text : Text) : peek (c :: text) = c := rfl

/-- No letter, digit or underscore comes first. -/
def Halts (rest : Text) : Prop := isIdentContinue (peek rest) = false

lemma halts_nil : Halts [] := rfl

/-- A character that words and numbers are made of. -/
def Inside (p : Char → Bool) : Prop := ∀ c, p c = true → isIdentContinue c = true

lemma inside_isDigit : Inside Char.isDigit := fun c h => by simp [isIdentContinue, h]

lemma inside_isIdentStart : Inside isIdentStart := fun c h => by simp [isIdentContinue, h]

variable {c : Char} {p : Char → Bool} {rest text : Text} {base : IntegerBase} {number : Number}
  {digits : Digits}

lemma isAlpha_of_hex (h : 'a' ≤ c ∧ c ≤ 'f' ∨ 'A' ≤ c ∧ c ≤ 'F') :
    c.isAlpha = true := by
  have hf : ('f' : Char) ≤ 'z' := by decide
  have hF : ('F' : Char) ≤ 'Z' := by decide
  refine Bool.or_eq_true_iff.mpr ?_
  rcases h with h | h
  · exact .inr (Bool.and_eq_true_iff.mpr ⟨decide_eq_true h.1, decide_eq_true (Char.le_trans h.2 hf)⟩)
  · exact .inl (decide_eq_true ⟨h.1, Char.le_trans h.2 hF⟩)

lemma inside_digit (base : IntegerBase) : Inside (isDigitForBase · base) := by
  intro c h
  rcases base with _ | _
  · exact inside_isDigit c h
  · simp only [isDigitForBase, Bool.or_eq_true, Bool.and_eq_true, decide_eq_true_eq] at h
    rcases h with (h | h) | h
    · exact inside_isDigit c h
    · exact inside_isIdentStart c (by simp [isIdentStart, isAlpha_of_hex (.inl h)])
    · exact inside_isIdentStart c (by simp [isIdentStart, isAlpha_of_hex (.inr h)])

lemma Halts.eq_false (h : Halts rest) (hp : Inside p) :
    p (peek rest) = false := by
  by_contra hne
  exact absurd ((hp _ (by simpa using hne)).symm.trans h) (by decide)

lemma Halts.ne (h : Halts rest) (hc : isIdentContinue c = true) :
    peek rest ≠ c := by
  rintro rfl
  exact absurd (hc.symm.trans h) (by decide)

/-- A halting text behind does not change what the next character is for. -/
lemma Halts.peek_append (h : Halts rest) (hp : Inside p)
    (text : Text) : p (peek (text ++ rest)) = p (peek text) := by
  rcases text with _ | ⟨c, text⟩
  · rw [List.nil_append, h.eq_false hp, halts_nil.eq_false hp]
  · rfl

lemma Halts.takeWhile (h : Halts rest) : rest.takeWhile isIdentContinue = [] := by
  rcases rest with _ | ⟨c, rest⟩
  · rfl
  · rw [List.takeWhile_cons_of_neg (by simpa [Halts] using h)]

lemma Halts.dropWhile (h : Halts rest) : rest.dropWhile isIdentContinue = rest := by
  rcases rest with _ | ⟨c, rest⟩
  · rfl
  · rw [List.dropWhile_cons_of_neg (by simpa [Halts] using h)]

lemma Halts.takeWhile_append (h : Halts rest) (text : Text) :
    (text ++ rest).takeWhile isIdentContinue = text.takeWhile isIdentContinue := by
  induction text with
  | nil => rw [List.nil_append, h.takeWhile, List.takeWhile_nil]
  | cons c text ih =>
    by_cases hc : isIdentContinue c = true
    · rw [List.cons_append, List.takeWhile_cons_of_pos hc, List.takeWhile_cons_of_pos hc, ih]
    · rw [List.cons_append, List.takeWhile_cons_of_neg hc, List.takeWhile_cons_of_neg hc]

lemma Halts.dropWhile_append (h : Halts rest) (text : Text) :
    (text ++ rest).dropWhile isIdentContinue = text.dropWhile isIdentContinue ++ rest := by
  induction text with
  | nil => rw [List.nil_append, h.dropWhile, List.dropWhile_nil, List.nil_append]
  | cons c text ih =>
    by_cases hc : isIdentContinue c = true
    · rw [List.cons_append, List.dropWhile_cons_of_pos hc, List.dropWhile_cons_of_pos hc, ih]
    · rw [List.cons_append, List.dropWhile_cons_of_neg hc, List.dropWhile_cons_of_neg hc,
        List.cons_append]

lemma halts_dropWhile (text : Text) : Halts (text.dropWhile isIdentContinue) := by
  induction text with
  | nil => exact halts_nil
  | cons c text ih =>
    by_cases hc : isIdentContinue c = true
    · rwa [List.dropWhile_cons_of_pos hc]
    · rw [List.dropWhile_cons_of_neg hc]
      exact Bool.eq_false_iff.mpr hc

/-! ## Loops over digits -/

def Digits.append (digits : Digits) (rest : Text) : Digits :=
  { digits with rest := digits.rest ++ rest }

lemma integerSuffixAt_append (h : Halts rest) (text : Text) :
    integerSuffixAt ('_' :: (text ++ rest)) = integerSuffixAt ('_' :: text) := by
  simp only [integerSuffixAt, List.tail_cons, h.takeWhile_append, peek_cons, List.length_cons,
    List.length_append]
  rcases text with _ | ⟨c, text⟩
  · have hnot : isIntegerSuffix (List.takeWhile isIdentContinue []) = false := by decide
    rw [hnot, Bool.and_false, Bool.and_false]
  · have hlength : 2 ≤ text.length + 1 + 1 := by omega
    have hlength' : 2 ≤ text.length + 1 + rest.length + 1 := by omega
    simp only [List.length_cons, hlength, hlength']

lemma integerDigits_append (h : Halts rest) (base : IntegerBase) (text : Text)
    (sawDigit last invalid : Bool) :
    integerDigits base sawDigit last invalid (text ++ rest) =
      (integerDigits base sawDigit last invalid text).append rest := by
  induction text generalizing sawDigit last invalid with
  | nil =>
    rcases rest with _ | ⟨c, rest⟩
    · rfl
    · have hdigit : isDigitForBase c base = false := h.eq_false (inside_digit base)
      have hunderscore : c ≠ '_' := h.ne (by decide)
      simp [integerDigits, Digits.append, hdigit, hunderscore]
  | cons c text ih =>
    rw [List.cons_append, integerDigits, integerDigits]
    split
    · exact ih _ _ _
    · split
      · next hc =>
        subst hc
        rw [integerSuffixAt_append h, h.peek_append (inside_digit base)]
        split
        · rfl
        · exact ih _ _ _
      · rfl

lemma floatDigits_append (h : Halts rest) (text : Text) (sawDigit last invalid : Bool) :
    floatDigits sawDigit last invalid (text ++ rest) =
      (floatDigits sawDigit last invalid text).append rest := by
  induction text generalizing sawDigit last invalid with
  | nil =>
    rcases rest with _ | ⟨c, rest⟩
    · rfl
    · have hdigit : c.isDigit = false := h.eq_false inside_isDigit
      have hunderscore : c ≠ '_' := h.ne (by decide)
      simp [floatDigits, Digits.append, hdigit, hunderscore]
  | cons c text ih =>
    rw [List.cons_append, floatDigits, floatDigits]
    split
    · exact ih _ _ _
    · split
      · rw [h.peek_append inside_isIdentStart]
        split
        · rfl
        · exact ih _ _ _
      · rfl

lemma peek_integerDigits (base : IntegerBase) (text : Text) (sawDigit last invalid : Bool) :
    isDigitForBase (peek (integerDigits base sawDigit last invalid text).rest) base = false := by
  induction text generalizing sawDigit last invalid with
  | nil => cases base <;> rfl
  | cons c text ih =>
    rw [integerDigits]
    split
    · exact ih _ _ _
    · next hc =>
      split
      · split
        · exact Bool.eq_false_iff.mpr hc
        · exact ih _ _ _
      · exact Bool.eq_false_iff.mpr hc

lemma peek_floatDigits (text : Text) (sawDigit last invalid : Bool) :
    (peek (floatDigits sawDigit last invalid text).rest).isDigit = false := by
  induction text generalizing sawDigit last invalid with
  | nil => rfl
  | cons c text ih =>
    rw [floatDigits]
    split
    · exact ih _ _ _
    · next hc =>
      split
      · split
        · exact Bool.eq_false_iff.mpr hc
        · exact ih _ _ _
      · exact Bool.eq_false_iff.mpr hc

/-! ## Spelling -/

/-- A character of a number. -/
def isNumberChar (c : Char) : Bool := isIdentContinue c || c ∈ ['.', '+', '-']

lemma isNumberChar_of_inside (hp : Inside p) (h : p c = true) :
    isNumberChar c = true := by
  simp [isNumberChar, hp c h]

/-- What stands in front of the rest is made of characters of numbers. -/
def Spelled (text rest : Text) : Prop :=
  ∃ front, text = front ++ rest ∧ ∀ c ∈ front, isNumberChar c = true

lemma Spelled.refl (text : Text) : Spelled text text := ⟨[], rfl, nofun⟩

lemma Spelled.trans {text' : Text} (h : Spelled text text') (h' : Spelled text' rest) :
    Spelled text rest := by
  obtain ⟨front, rfl, hfront⟩ := h
  obtain ⟨front', rfl, hfront'⟩ := h'
  refine ⟨front ++ front', (List.append_assoc _ _ _).symm, fun c hc => ?_⟩
  exact (List.mem_append.mp hc).elim (hfront c) (hfront' c)

lemma Spelled.cons (h : Spelled text rest) (hc : isNumberChar c = true) : Spelled (c :: text) rest:=
  Spelled.trans ⟨[c], rfl, by simpa using hc⟩ h

lemma Spelled.length_le (h : Spelled text rest) : rest.length ≤ text.length := by
  obtain ⟨front, rfl, -⟩ := h
  rw [List.length_append]
  omega

lemma spelled_tail (h : isNumberChar (peek text) = true) :
    Spelled text text.tail := by
  rcases text with _ | ⟨c, text⟩
  · exact Spelled.refl _
  · exact (Spelled.refl text).cons h

lemma spelled_dropWhile (text : Text) : Spelled text (text.dropWhile isIdentContinue) := by
  induction text with
  | nil => exact Spelled.refl _
  | cons c text ih =>
    by_cases hc : isIdentContinue c = true
    · rw [List.dropWhile_cons_of_pos hc]
      exact ih.cons (isNumberChar_of_inside (fun _ h => h) hc)
    · rw [List.dropWhile_cons_of_neg hc]
      exact Spelled.refl _

lemma spelled_integerDigits (base : IntegerBase) (text : Text) (sawDigit last invalid : Bool) :
    Spelled text (integerDigits base sawDigit last invalid text).rest := by
  induction text generalizing sawDigit last invalid with
  | nil => exact Spelled.refl _
  | cons c text ih =>
    rw [integerDigits]
    split
    · next hc => exact (ih _ _ _).cons (isNumberChar_of_inside (inside_digit base) hc)
    · split
      · next hc =>
        split
        · exact Spelled.refl _
        · exact (ih _ _ _).cons (hc ▸ rfl)
      · exact Spelled.refl _

lemma spelled_floatDigits (text : Text) (sawDigit last invalid : Bool) :
    Spelled text (floatDigits sawDigit last invalid text).rest := by
  induction text generalizing sawDigit last invalid with
  | nil => exact Spelled.refl _
  | cons c text ih =>
    rw [floatDigits]
    split
    · next hc => exact (ih _ _ _).cons (isNumberChar_of_inside inside_isDigit hc)
    · split
      · next hc =>
        split
        · exact Spelled.refl _
        · exact (ih _ _ _).cons (hc ▸ rfl)
      · exact Spelled.refl _

/-! ## Numbers -/

def Number.append (number : Number) (rest : Text) : Number :=
  { number with rest := number.rest ++ rest }

/-- A fraction behind a text is seen from inside it only if the text is over. -/
lemma startsFraction_append (h : Halts rest)
    (hfraction : text = [] → startsFraction base rest = false) :
    startsFraction base (text ++ rest) = startsFraction base text := by
  rcases text with _ | ⟨c, text⟩
  · rw [List.nil_append, hfraction rfl]
    cases base <;> rfl
  · simp only [startsFraction, List.cons_append, peek_cons, List.tail_cons,
      h.peek_append inside_isDigit]

/-- So is the sign of an exponent. -/
lemma startsExponent_append (h : Halts rest)
    (hexponent : base = .decimal → text ≠ ['e'] ∧ text ≠ ['E']) :
    startsExponent base (text ++ rest) = startsExponent base text := by
  rcases text with _ | ⟨c, _ | ⟨second, text⟩⟩
  · have he : peek rest ≠ 'e' := h.ne (by decide)
    have hE : peek rest ≠ 'E' := h.ne (by decide)
    simp [startsExponent, he, hE]
  · rcases base with _ | _
    · obtain ⟨he, hE⟩ : c ≠ 'e' ∧ c ≠ 'E' := by simpa using hexponent rfl
      simp [startsExponent, beq_eq_false_iff_ne.mpr he, beq_eq_false_iff_ne.mpr hE]
    · rfl
  · simp only [startsExponent, isExponentTail, List.cons_append, peek_cons, List.tail_cons,
      h.peek_append inside_isDigit]

lemma fraction_append (h : Halts rest) (number : Number)
    (hfraction : number.rest = [] → startsFraction base rest = false) :
    fraction base (number.append rest) = (fraction base number).append rest := by
  simp only [fraction, Number.append, startsFraction_append h hfraction]
  split
  · next hstarts =>
    have hne : number.rest ≠ [] := by
      intro hnil
      rw [hnil] at hstarts
      cases base <;> exact absurd hstarts (by decide)
    rw [List.tail_append_of_ne_nil hne, floatDigits_append h]
    rfl
  · rfl

lemma dropSign_append (hne : text ≠ []) :
    dropSign (text ++ rest) = dropSign text ++ rest := by
  rcases text with _ | ⟨c, text⟩
  · exact absurd rfl hne
  · by_cases hc : c = '+' ∨ c = '-'
    · simp [dropSign, hc]
    · simp [dropSign, hc]

lemma exponent_append (h : Halts rest)
    (hexponent : base = .decimal → number.rest ≠ ['e'] ∧ number.rest ≠ ['E']) :
    exponent base (number.append rest) = (exponent base number).append rest := by
  simp only [exponent, Number.append, startsExponent_append h hexponent]
  split
  · next hstarts =>
    rcases hnumber : number.rest with _ | ⟨c, _ | ⟨second, text⟩⟩
    · rw [hnumber] at hstarts
      cases base <;> exact absurd hstarts (by decide)
    · rw [hnumber] at hstarts
      simp [startsExponent, isExponentTail] at hstarts
    · rw [List.cons_append, List.tail_cons, List.tail_cons,
        dropSign_append (List.cons_ne_nil second text), floatDigits_append h]
      rfl
  · rfl

lemma isFloat_numberSuffix (number : Number) : (numberSuffix number).isFloat = number.isFloat := by
  simp only [numberSuffix]
  split
  · split <;> rfl
  · split <;> rfl

lemma numberSuffix_append (h : Halts rest) (number : Number) :
    numberSuffix (number.append rest) = (numberSuffix number).append rest := by
  obtain ⟨text, isFloat, invalid⟩ := number
  rcases text with _ | ⟨c, text⟩
  · have hunderscore : peek rest ≠ '_' := h.ne (by decide)
    have hstart : isIdentStart (peek rest) = false := h.eq_false inside_isIdentStart
    have hzero : isIdentStart '\x00' = false := by decide
    simp [numberSuffix, Number.append, hunderscore, hstart, hzero]
  · have hpeek : isIdentStart (peek (text ++ rest)) = isIdentStart (peek text) :=
      h.peek_append inside_isIdentStart text
    have hdrop := h.dropWhile_append (c :: text)
    simp only [List.cons_append] at hdrop
    simp only [numberSuffix, Number.append, List.cons_append, peek_cons, List.tail_cons, hpeek,
      h.dropWhile_append, h.takeWhile_append, hdrop]
    by_cases hc : c = '_'
    · by_cases hstart : isIdentStart (peek text) = true
      · simp [hc, hstart]
      · simp [hc, hstart]
    · by_cases hstart : isIdentStart c = true
      · simp [hc, hstart]
      · simp [hc, hstart]

/-- What comes after the digits of an integer. -/
def numberAfter (base : IntegerBase) (digits : Digits) : Number :=
  numberSuffix (exponent base (fraction base ⟨digits.rest, false, digits.bad⟩))

lemma numberAfter_append_eq (h : Halts rest)
    (hfraction : digits.rest = [] → startsFraction base rest = false) :
    numberAfter base (digits.append rest) = numberSuffix (exponent base
      ((fraction base ⟨digits.rest, false, digits.bad⟩).append rest)) := by
  rw [← fraction_append h _ hfraction]
  rfl

lemma numberAfter_append (h : Halts rest)
    (hfraction : digits.rest = [] → startsFraction base rest = false) (hexponent : base = .decimal →
      (fraction base ⟨digits.rest, false, digits.bad⟩).rest ≠ ['e'] ∧
        (fraction base ⟨digits.rest, false, digits.bad⟩).rest ≠ ['E']) :
    numberAfter base (digits.append rest) = (numberAfter base digits).append rest := by
  rw [numberAfter_append_eq h hfraction, exponent_append h hexponent, numberSuffix_append h]
  rfl

/-- No number is clean that stops in front of its exponent. -/
lemma numberSuffix_invalid (h : isIdentStart (peek number.rest) = true)
    (hne : peek number.rest ≠ '_') : (numberSuffix number).invalid = true := by
  simp [numberSuffix, h, hne]

lemma peek_numberSuffix (h : (peek number.rest).isDigit = false)
    (hvalid : (numberSuffix number).invalid = false) : Halts (numberSuffix number).rest := by
  simp only [numberSuffix] at hvalid ⊢
  split
  · split
    · exact halts_dropWhile _
    · next hunderscore hstart =>
      rw [if_pos hunderscore, if_neg hstart] at hvalid
      exact absurd hvalid nofun
  · next hunderscore =>
    split
    · exact halts_dropWhile _
    · next hstart =>
      simp only [Halts, isIdentContinue, h, Bool.or_false]
      exact Bool.eq_false_iff.mpr hstart

lemma spelled_numberSuffix (number : Number) :
    Spelled number.rest (numberSuffix number).rest := by
  simp only [numberSuffix]
  split
  · next hc =>
    have htail : Spelled number.rest number.rest.tail := spelled_tail (hc ▸ rfl)
    split
    · exact htail.trans (spelled_dropWhile _)
    · exact htail
  · split
    · exact spelled_dropWhile _
    · exact Spelled.refl _

lemma spelled_dropSign (text : Text) : Spelled text (dropSign text) := by
  rw [dropSign]
  split
  · next hsign => exact spelled_tail (by rcases hsign with h | h <;> rw [h] <;> rfl)
  · exact Spelled.refl _

lemma spelled_exponent (base : IntegerBase) (number : Number) :
    Spelled number.rest (exponent base number).rest := by
  simp only [exponent]
  split
  · next hstarts =>
    simp only [startsExponent, Bool.and_eq_true, Bool.or_eq_true, beq_iff_eq] at hstarts
    have htail : Spelled number.rest number.rest.tail :=
      spelled_tail (by rcases hstarts.1.2 with h | h <;> rw [h] <;> rfl)
    exact htail.trans ((spelled_dropSign _).trans (spelled_floatDigits _ _ _ _))
  · exact Spelled.refl _

lemma spelled_fraction (base : IntegerBase) (number : Number) :
    Spelled number.rest (fraction base number).rest := by
  simp only [fraction]
  split
  · next hstarts =>
    simp only [startsFraction, Bool.and_eq_true, beq_iff_eq] at hstarts
    have htail : Spelled number.rest number.rest.tail :=
      spelled_tail (by rw [hstarts.1.2]; rfl)
    exact htail.trans (spelled_floatDigits _ _ _ _)
  · exact Spelled.refl _

lemma spelled_numberAfter (base : IntegerBase) (digits : Digits) :
    Spelled digits.rest (numberAfter base digits).rest :=
  (spelled_fraction base ⟨digits.rest, false, digits.bad⟩).trans
    ((spelled_exponent base _).trans (spelled_numberSuffix _))

lemma peek_exponent (h : (peek number.rest).isDigit = false) :
    (peek (exponent base number).rest).isDigit = false := by
  simp only [exponent]
  split
  · exact peek_floatDigits _ _ _ _
  · exact h

lemma peek_fraction (h : (peek number.rest).isDigit = false) :
    (peek (fraction base number).rest).isDigit = false := by
  simp only [fraction]
  split
  · exact peek_floatDigits _ _ _ _
  · exact h

/-- A clean number halts. -/
lemma halts_numberAfter (hpeek : isDigitForBase (peek digits.rest) base = false)
    (h : (numberAfter base digits).invalid = false) : Halts (numberAfter base digits).rest := by
  refine peek_numberSuffix (peek_exponent (peek_fraction ?_)) h
  rcases base with _ | _
  · exact hpeek
  · simp only [isDigitForBase, Bool.or_eq_false_iff] at hpeek
    exact hpeek.1.1

/-- A fraction in the text behind would be part of the number. -/
lemma not_startsFraction_of_rest
    (hrest : (numberSuffix (exponent base (fraction base number))).rest = number.rest) :
    startsFraction base number.rest = false := by
  by_contra hstarts
  have hstarts' : startsFraction base number.rest = true := by simpa using hstarts
  have hlength := ((spelled_exponent base (fraction base number)).trans
    (spelled_numberSuffix (exponent base (fraction base number)))).length_le
  have hshort : (fraction base number).rest.length ≤ number.rest.tail.length := by
    simp only [fraction, hstarts', if_true]
    exact (spelled_floatDigits _ _ _ _).length_le
  have hpos : number.rest ≠ [] := by
    intro hnil
    rw [hnil] at hstarts'
    cases base <;> exact absurd hstarts' (by decide)
  have hlt := List.length_pos_iff.mpr hpos
  rw [hrest] at hlength
  rw [List.length_tail] at hshort
  omega

/-- So would an exponent, and without its digits it is no number. -/
lemma ne_exponent_of_rest (h : Halts rest)
    (hclean : (numberSuffix (exponent .decimal (number.append rest))).invalid = false)
    (hrest : (numberSuffix (exponent .decimal (number.append rest))).rest = rest)
    (hc : c = 'e' ∨ c = 'E') : number.rest ≠ [c] := by
  intro hone
  have happend : (number.append rest).rest = c :: rest := by
    rw [Number.append, hone]
    rfl
  by_cases hstarts : startsExponent .decimal (c :: rest) = true
  · have hlength := (spelled_numberSuffix (exponent .decimal (number.append rest))).length_le
    have hdigits := (spelled_floatDigits (dropSign rest) false false number.invalid).length_le
    have hexponent : (exponent .decimal (number.append rest)).rest.length ≤
        (dropSign rest).length := by
      rw [exponent, happend, if_pos hstarts]
      exact hdigits
    have hsign : peek rest = '+' ∨ peek rest = '-' := by
      have hdigit : (peek rest).isDigit = false := h.eq_false inside_isDigit
      simp only [startsExponent, isExponentTail, List.tail_cons, hdigit, Bool.false_or,
        Bool.and_eq_true, Bool.or_eq_true, beq_iff_eq] at hstarts
      exact hstarts.2.1
    have hpos : rest ≠ [] := by
      rintro rfl
      exact absurd hsign (by decide)
    have hlt := List.length_pos_iff.mpr hpos
    rw [dropSign, if_pos hsign, List.length_tail] at hexponent
    rw [hrest] at hlength
    omega
  · have hexponent : exponent .decimal (number.append rest) = number.append rest := by
      rw [exponent, happend, if_neg hstarts]
    rw [hexponent] at hclean
    have hinvalid : (numberSuffix (number.append rest)).invalid = true := by
      refine numberSuffix_invalid ?_ ?_
      · rw [happend]
        rcases hc with rfl | rfl <;> rfl
      · rw [happend]
        rcases hc with rfl | rfl <;> simp
    exact absurd (hinvalid.symm.trans hclean) (by decide)

/-- A clean number does not need the text behind it. -/
lemma numberAfter_append_of_rest
    (h : Halts rest) (hclean : (numberAfter base (digits.append rest)).invalid = false)
    (hrest : (numberAfter base (digits.append rest)).rest = rest) :
    (digits.rest = [] → startsFraction base rest = false) ∧
      numberAfter base (digits.append rest) = (numberAfter base digits).append rest := by
  have hfraction : digits.rest = [] → startsFraction base rest = false := by
    intro hnil
    have hdigits : (digits.append rest).rest = rest := by rw [Digits.append, hnil, List.nil_append]
    have hnot : startsFraction base (digits.append rest).rest = false :=
      not_startsFraction_of_rest (hrest.trans hdigits.symm)
    rwa [hdigits] at hnot
  refine ⟨hfraction, numberAfter_append h hfraction fun hbase => ?_⟩
  subst hbase
  rw [numberAfter_append_eq h hfraction] at hclean hrest
  exact ⟨ne_exponent_of_rest h hclean hrest (.inl rfl),
    ne_exponent_of_rest h hclean hrest (.inr rfl)⟩

/-- Nor does one that is clean by itself. -/
lemma numberAfter_append_of_clean
    (h : Halts rest) (hclean : (numberAfter base digits).invalid = false)
    (hfraction : digits.rest = [] → startsFraction base rest = false) :
    numberAfter base (digits.append rest) = (numberAfter base digits).append rest := by
  refine numberAfter_append h hfraction fun hbase => ?_
  subst hbase
  have hnot : ∀ c, c = 'e' ∨ c = 'E' →
      (fraction .decimal ⟨digits.rest, false, digits.bad⟩).rest ≠ [c] := by
    intro c hc hone
    have hexponent : exponent .decimal (fraction .decimal ⟨digits.rest, false, digits.bad⟩) =
        fraction .decimal ⟨digits.rest, false, digits.bad⟩ := by
      rw [exponent, hone, if_neg]
      rcases hc with rfl | rfl <;> decide
    have hinvalid : (numberAfter .decimal digits).invalid = true := by
      rw [numberAfter, hexponent]
      refine numberSuffix_invalid ?_ ?_
      · rw [hone]
        rcases hc with rfl | rfl <;> rfl
      · rw [hone]
        rcases hc with rfl | rfl <;> simp
    exact absurd (hinvalid.symm.trans hclean) (by decide)
  exact ⟨hnot 'e' (.inl rfl), hnot 'E' (.inr rfl)⟩

end ModernC.Lexer
