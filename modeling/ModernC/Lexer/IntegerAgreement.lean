import ModernC.Lexer.IntegerGrammar

/-!
# The lexer and the parser of integers agree

An integer token without a diagnostic is a literal of the grammar, and every literal of the grammar
is lexed as one such token. The main result is `integers_agree`, about every text.
-/

namespace ModernC.Lexer

open Syntax (IntegerSuffix ParsedIntegerLiteral integerSuffix parseIntegerLiteralParts)
open ModernC.Parser (Kind)
open Specialize (isIdentStart isIdentContinue)

/-! ## Suffixes -/

variable {text digits rest : Text} {base : IntegerBase} {saw last : Bool}
  {suffix : Option IntegerSuffix}

lemma isIntegerSuffix_iff :
    isIntegerSuffix text = true ↔ ∃ suffix : IntegerSuffix, text = suffix.typeName.toList := by
  rw [isIntegerSuffix, List.contains_iff_mem]
  constructor
  · intro h
    have hname : ∀ name ∈ integerSuffixes, ∃ suffix : IntegerSuffix,
        name = suffix.typeName.toList := by
      intro name hname
      simp only [integerSuffixes, List.mem_cons, List.not_mem_nil, or_false] at hname
      rcases hname with rfl | rfl | rfl | rfl | rfl | rfl | rfl | rfl | rfl | rfl | rfl | rfl
      · exact ⟨.u8, rfl⟩
      · exact ⟨.u16, rfl⟩
      · exact ⟨.u32, rfl⟩
      · exact ⟨.u64, rfl⟩
      · exact ⟨.u128, rfl⟩
      · exact ⟨.usize, rfl⟩
      · exact ⟨.i8, rfl⟩
      · exact ⟨.i16, rfl⟩
      · exact ⟨.i32, rfl⟩
      · exact ⟨.i64, rfl⟩
      · exact ⟨.i128, rfl⟩
      · exact ⟨.isize, rfl⟩
    exact hname text h
  · rintro ⟨suffix, rfl⟩
    cases suffix <;> decide

/-- The characters of a suffix belong to words. -/
lemma typeName_isIdentContinue (suffix : IntegerSuffix) :
    suffix.typeName.toList.all isIdentContinue = true ∧
      isIdentStart (peek suffix.typeName.toList) = true := by
  cases suffix <;> exact ⟨by decide, by decide⟩

lemma takeWhile_typeName (suffix : IntegerSuffix) :
    suffix.typeName.toList.takeWhile isIdentContinue = suffix.typeName.toList ∧
      suffix.typeName.toList.dropWhile isIdentContinue = [] := by
  have hall : ∀ c ∈ suffix.typeName.toList, isIdentContinue c = true :=
    List.all_eq_true.mp (typeName_isIdentContinue suffix).1
  exact ⟨List.takeWhile_eq_self_iff.mpr hall, List.dropWhile_eq_nil_iff.mpr hall⟩

/-- A digit behind an underscore is not a suffix. -/
lemma not_integerSuffixAt {c : Char}
    (h : isDigitForBase c base = true) : integerSuffixAt ('_' :: c :: text) = false := by
  have hcontinue : isIdentContinue c = true := inside_digit base c h
  have hnot : isIntegerSuffix ((c :: text).takeWhile isIdentContinue) = false := by
    rw [← Bool.not_eq_true, isIntegerSuffix_iff]
    rintro ⟨suffix, hsuffix⟩
    obtain ⟨first, rest, hname, hdigit, -⟩ := exists_typeName suffix base
    rw [List.takeWhile_cons_of_pos hcontinue, hname] at hsuffix
    rw [(List.cons.inj hsuffix).1, hdigit] at h
    exact Bool.false_ne_true h
  rw [integerSuffixAt, List.tail_cons, hnot, Bool.and_false]

/-! ## Digits -/

/-- The loop over digits does not go on. -/
def DigitsEnd (base : IntegerBase) : Text → Prop
  | [] => True
  | c :: rest => isDigitForBase c base = false ∧ (c = '_' → integerSuffixAt (c :: rest) = true)

/-- The loop over digits reads the digits of the grammar. -/
lemma integerDigits_separated
    (h : Separated base (saw && !last) digits) (hrest : DigitsEnd base rest) :
    integerDigits base saw last false (digits ++ rest) = ⟨rest, true, false, false⟩ := by
  induction digits generalizing saw last with
  | nil =>
    rw [Separated, Bool.and_eq_true, Bool.not_eq_true'] at h
    obtain ⟨rfl, rfl⟩ := h
    cases rest with
    | nil => rfl
    | cons c rest =>
      obtain ⟨hdigit, hsuffix⟩ := hrest
      rw [List.nil_append, integerDigits, hdigit, if_neg Bool.false_ne_true]
      by_cases hunderscore : c = '_'
      · rw [if_pos hunderscore, if_pos (hsuffix hunderscore)]
      · rw [if_neg hunderscore]
  | cons c digits ih =>
    rw [Separated] at h
    rw [List.cons_append, integerDigits]
    by_cases hunderscore : c = '_'
    · rw [if_pos hunderscore, Bool.and_eq_true, Bool.not_eq_true'] at h
      obtain ⟨⟨rfl, rfl⟩, h⟩ := h
      have hnot : isDigitForBase c base = false := hunderscore ▸ underscore_not_digit base
      rw [hnot, if_neg Bool.false_ne_true, if_pos hunderscore]
      rcases digits with _ | ⟨next, digits⟩
      · exact absurd h Bool.false_ne_true
      · have hnext : isDigitForBase next base = true := by
          rw [Separated] at h
          split at h
          · exact absurd h.1 Bool.false_ne_true
          · exact h.1
        have hsuffix : integerSuffixAt (c :: (next :: digits ++ rest)) = false :=
          hunderscore ▸ not_integerSuffixAt hnext
        rw [hsuffix, if_neg Bool.false_ne_true]
        simp only [List.cons_append, peek_cons, hnext, Bool.not_true, Bool.or_false]
        exact ih h
    · rw [if_neg hunderscore] at h
      rw [if_pos h.1]
      exact ih h.2

/-- The loop ends without an objection. -/
lemma separated_of_end {invalid : Bool}
    (h : (Digits.mk rest saw last invalid).bad = false) (hrest : DigitsEnd base rest) :
    invalid = false ∧ ∃ digits, rest = digits ++ rest ∧ Separated base (saw && !last) digits ∧
      DigitsEnd base rest := by
  rw [Digits.bad, Bool.or_eq_false_iff, Bool.or_eq_false_iff, Bool.not_eq_false'] at h
  obtain ⟨⟨rfl, rfl⟩, rfl⟩ := h
  exact ⟨rfl, [], rfl, rfl, hrest⟩

/-- What the loop reads without an objection are digits of the grammar. -/
lemma separated_integerDigits {invalid : Bool}
    (h : (integerDigits base saw last invalid text).bad = false) :
    invalid = false ∧ ∃ digits, text = digits ++ (integerDigits base saw last invalid text).rest ∧
      Separated base (saw && !last) digits ∧
      DigitsEnd base (integerDigits base saw last invalid text).rest := by
  induction text generalizing saw last invalid with
  | nil => exact separated_of_end h trivial
  | cons c text ih =>
    rw [integerDigits] at h ⊢
    by_cases hdigit : isDigitForBase c base = true
    · rw [if_pos hdigit] at h ⊢
      obtain ⟨hinvalid, digits, htext, hseparated, hrest⟩ := ih h
      have hne : c ≠ '_' := by
        rintro rfl
        rw [underscore_not_digit] at hdigit
        exact Bool.false_ne_true hdigit
      refine ⟨hinvalid, c :: digits, by rw [List.cons_append, ← htext], ?_, hrest⟩
      rw [Separated, if_neg hne]
      exact ⟨hdigit, hseparated⟩
    · have hnot : isDigitForBase c base = false := Bool.not_eq_true _ ▸ hdigit
      rw [if_neg hdigit] at h ⊢
      by_cases hunderscore : c = '_'
      · rw [if_pos hunderscore] at h ⊢
        by_cases hsuffix : integerSuffixAt (c :: text) = true
        · rw [if_pos hsuffix] at h ⊢
          exact separated_of_end h ⟨hnot, fun _ => hsuffix⟩
        · rw [if_neg hsuffix] at h ⊢
          obtain ⟨hinvalid, digits, htext, hseparated, hrest⟩ := ih h
          rw [Bool.or_eq_false_iff, Bool.or_eq_false_iff, Bool.or_eq_false_iff,
            Bool.not_eq_false'] at hinvalid
          obtain ⟨⟨⟨hinvalid, rfl⟩, rfl⟩, -⟩ := hinvalid
          refine ⟨hinvalid, c :: digits, by rw [List.cons_append, ← htext], ?_, hrest⟩
          rw [Separated, if_pos hunderscore]
          refine ⟨rfl, ?_⟩
          rwa [Bool.not_true, Bool.and_false] at hseparated
      · rw [if_neg hunderscore] at h ⊢
        exact separated_of_end h ⟨hnot, fun heq => absurd heq hunderscore⟩

/-! ## Tokens -/

/-- A number that is no float has no fraction and no exponent. -/
lemma integer_of_not_float {number : Number}
    (h : (numberSuffix (exponent base (fraction base number))).isFloat = false) :
    exponent base (fraction base number) = number := by
  rw [isFloat_numberSuffix, exponent] at h
  rw [exponent]
  by_cases hexponent : startsExponent base (fraction base number).rest = true
  · rw [if_pos hexponent] at h
    exact absurd h (by simp)
  · rw [if_neg hexponent] at h ⊢
    rw [fraction] at h ⊢
    by_cases hfraction : startsFraction base number.rest = true
    · rw [if_pos hfraction] at h
      exact absurd h (by simp)
    · rw [if_neg hfraction]

/-- The suffix of a number without an objection. -/
lemma numberSuffix_clean {number : Number} (h : (numberSuffix number).invalid = false) :
    number.invalid = false ∧
      ∃ suffix, number.rest = suffixText suffix ++ (numberSuffix number).rest := by
  simp only [numberSuffix] at h ⊢
  by_cases hunderscore : peek number.rest = '_'
  · rw [if_pos hunderscore] at h ⊢
    obtain ⟨rest, hrest⟩ : ∃ rest, number.rest = '_' :: rest := by
      rcases hnumber : number.rest with _ | ⟨c, rest⟩
      · rw [hnumber] at hunderscore
        exact absurd hunderscore (by decide)
      · rw [hnumber] at hunderscore
        exact ⟨rest, by rw [← hunderscore]; rfl⟩
    rw [hrest, List.tail_cons] at h ⊢
    by_cases hident : isIdentStart (peek rest) = true
    · rw [if_pos hident] at h ⊢
      dsimp only at h
      rw [Bool.or_eq_false_iff, Bool.or_eq_false_iff, Bool.not_eq_false'] at h
      obtain ⟨suffix, hsuffix⟩ := isIntegerSuffix_iff.mp h.2
      refine ⟨h.1.1, some suffix, ?_⟩
      rw [suffixText, ← hsuffix, List.cons_append, List.takeWhile_append_dropWhile]
    · rw [if_neg hident] at h
      exact absurd h (by simp)
  · rw [if_neg hunderscore] at h ⊢
    by_cases hident : isIdentStart (peek number.rest) = true
    · rw [if_pos hident] at h
      exact absurd h (by simp)
    · rw [if_neg hident] at h ⊢
      exact ⟨h, none, rfl⟩

lemma numberAfter_clean {digits : Digits} (hfloat : (numberAfter base digits).isFloat = false)
    (hclean : (numberAfter base digits).invalid = false) :
    digits.bad = false ∧ ∃ suffix,
      digits.rest = suffixText suffix ++ (numberAfter base digits).rest := by
  rw [numberAfter] at hfloat hclean ⊢
  rw [integer_of_not_float hfloat] at hclean ⊢
  exact numberSuffix_clean hclean

lemma isHex_iff {first : Char} :
    isHex first text = true ↔
      ∃ start, IsPrefix start .hex ∧ first :: text = start ++ text.tail := by
  rw [isHex, Bool.and_eq_true, Bool.or_eq_true, beq_iff_eq, beq_iff_eq, beq_iff_eq]
  constructor
  · rintro ⟨rfl, h⟩
    rcases text with _ | ⟨c, text⟩
    · rcases h with h | h
      · exact absurd h (by decide)
      · exact absurd h (by decide)
    · rcases h with h | h
      · exact ⟨_, .inl rfl, by rw [← h]; rfl⟩
      · exact ⟨_, .inr rfl, by rw [← h]; rfl⟩
  · rintro ⟨start, rfl | rfl, h⟩
    · obtain ⟨rfl, htext⟩ := List.cons.inj h
      exact ⟨rfl, .inl (by rw [htext]; rfl)⟩
    · obtain ⟨rfl, htext⟩ := List.cons.inj h
      exact ⟨rfl, .inr (by rw [htext]; rfl)⟩

/-- **An integer token without a diagnostic is a literal of the grammar.** -/
lemma isInteger_of_integer {first : Char} (hfirst : first.isDigit = true)
    (h : integer first text = ⟨.integerLiteral, rest, true⟩) :
    ∃ front base digits suffix, first :: text = front ++ rest ∧
      IsInteger front base digits suffix := by
  rw [integer_eq] at h
  simp only [Scan.mk.injEq, Bool.not_eq_true'] at h
  obtain ⟨hkind, rfl, hclean⟩ := h
  have hfloat : (numberAfter (baseOf first text) (digitsOf first text)).isFloat = false := by
    rw [← Bool.not_eq_true]
    intro hfloat
    rw [if_pos hfloat] at hkind
    exact absurd hkind (by decide)
  obtain ⟨hbad, suffix, hsuffix⟩ := numberAfter_clean hfloat hclean
  obtain ⟨-, digits, htext, hseparated, -⟩ := separated_integerDigits hbad
  rw [← digitsOf, hsuffix] at htext
  by_cases hhex : isHex first text = true
  · rw [hhex, if_pos rfl] at htext
    rw [baseOf, hhex, if_pos rfl] at hseparated
    obtain ⟨start, hstart, hstarted⟩ := isHex_iff.mp hhex
    refine ⟨start ++ (digits ++ suffixText suffix), .hex, digits, suffix, ?_,
      hseparated, start, hstart, rfl⟩
    rw [hstarted, htext, List.append_assoc, List.append_assoc]
  · have hdecimal : isHex first text = false := Bool.not_eq_true _ ▸ hhex
    rw [hdecimal, if_neg Bool.false_ne_true] at htext
    rw [baseOf, hdecimal, if_neg Bool.false_ne_true] at hseparated
    have hne : first ≠ '_' := by
      rintro rfl
      exact absurd hfirst (by decide)
    refine ⟨first :: digits ++ suffixText suffix, .decimal, first :: digits, suffix, ?_, ?_,
      [], rfl, rfl⟩
    · conv_lhs => rw [htext]
      rw [List.append_assoc, List.cons_append]
    · rw [Separated, if_neg hne]
      exact ⟨hfirst, hseparated⟩

lemma digitsEnd_suffixText (base : IntegerBase) (suffix : Option IntegerSuffix) :
    DigitsEnd base (suffixText suffix) := by
  cases suffix with
  | none => trivial
  | some suffix =>
    refine ⟨underscore_not_digit base, fun _ => ?_⟩
    have hname : isIntegerSuffix suffix.typeName.toList = true :=
      isIntegerSuffix_iff.mpr ⟨suffix, rfl⟩
    have hlength : 2 ≤ ('_' :: suffix.typeName.toList).length := by cases suffix <;> decide
    rw [integerSuffixAt, List.tail_cons, (takeWhile_typeName suffix).1, hname,
      decide_eq_true hlength]
    rfl

/-- Behind its digits a literal has nothing but its suffix. -/
lemma numberAfter_suffixText (base : IntegerBase) (suffix : Option IntegerSuffix) :
    numberAfter base ⟨suffixText suffix, true, false, false⟩ = ⟨[], false, false⟩ := by
  have hfraction : startsFraction base (suffixText suffix) = false := by
    cases suffix <;> cases base <;> rfl
  have hexponent : startsExponent base (suffixText suffix) = false := by
    cases suffix <;> cases base <;> rfl
  rw [numberAfter, fraction, hfraction, if_neg Bool.false_ne_true, exponent, hexponent,
    if_neg Bool.false_ne_true, numberSuffix]
  cases suffix with
  | none => rfl
  | some suffix =>
    have hname : isIntegerSuffix suffix.typeName.toList = true :=
      isIntegerSuffix_iff.mpr ⟨suffix, rfl⟩
    obtain ⟨htake, hdrop⟩ := takeWhile_typeName suffix
    simp only [suffixText, peek_cons, if_pos, List.tail_cons, (typeName_isIdentContinue suffix).2,
      htake, hdrop, hname]
    rfl

/-- **A literal of the grammar is one integer token.** -/
lemma IsInteger.integer (h : IsInteger text base digits suffix) :
    ∃ first after, text = first :: after ∧ first.isDigit = true ∧
      Lexer.integer first after = ⟨.integerLiteral, [], true⟩ := by
  obtain ⟨hseparated, start, hstart, rfl⟩ := h
  have hend := digitsEnd_suffixText base suffix
  have hdone : ∀ {first : Char} {after : Text}, baseOf first after = base →
      digitsOf first after = ⟨suffixText suffix, true, false, false⟩ →
      Lexer.integer first after = ⟨.integerLiteral, [], true⟩ := by
    intro first after hbase hdigits
    rw [integer_eq, hbase, hdigits, numberAfter_suffixText]
    rfl
  cases base with
  | hex =>
    have hread := @integerDigits_separated _ _ _ false false hseparated hend
    rcases hstart with rfl | rfl
    · exact ⟨'0', _, rfl, rfl, hdone rfl hread⟩
    · exact ⟨'0', _, rfl, rfl, hdone rfl hread⟩
  | decimal =>
    obtain rfl : start = [] := hstart
    rcases digits with _ | ⟨first, digits⟩
    · exact absurd rfl hseparated.ne_nil
    · have hhex : isHex first (digits ++ suffixText suffix) = false := by
        rw [← Bool.not_eq_true, isHex_iff]
        rintro ⟨start, hstart, hstarted⟩
        have hnot : ∀ {x : Char}, isDigitForBase x .decimal = false → x ≠ '_' →
            ¬['0', x] <+: first :: digits ++ suffixText suffix := by
          intro x hx hunderscore hpre
          have hfalse := hseparated.not_hex hx hunderscore (head_suffixText suffix hunderscore)
          rw [List.isPrefixOf_iff_prefix.mpr hpre] at hfalse
          exact absurd hfalse (by decide)
        rw [List.cons_append, hstarted] at hnot
        rcases hstart with rfl | rfl
        · exact hnot (x := 'x') (by decide) (by decide) (List.prefix_append _ _)
        · exact hnot (x := 'X') (by decide) (by decide) (List.prefix_append _ _)
      rw [Separated] at hseparated
      split at hseparated
      · exact absurd hseparated.1 Bool.false_ne_true
      · have hread := @integerDigits_separated _ _ _ true false hseparated.2 hend
        refine ⟨first, digits ++ suffixText suffix, rfl, hseparated.1, hdone ?_ ?_⟩
        · rw [baseOf, hhex, if_neg Bool.false_ne_true]
        · rw [digitsOf, baseOf, hhex, if_neg Bool.false_ne_true, if_neg Bool.false_ne_true]
          exact hread

/-- No word has a kind that neither words of the language nor `inf` and `_` have. -/
lemma wordKind_ne {kind : Kind}
    (hkind : (keywords.all fun entry => entry.2 != kind) && kind != .underscore &&
      kind != .floatLiteral && kind != .identifier) (lexeme : Text) : wordKind lexeme ≠ kind := by
  simp only [Bool.and_eq_true, bne_iff_ne, List.all_eq_true] at hkind
  obtain ⟨⟨⟨hkeywords, hunderscore⟩, hfloat⟩, hidentifier⟩ := hkind
  rw [wordKind]
  split
  · exact hunderscore.symm
  · split
    · exact hfloat.symm
    · rcases hkeyword : keywordKind lexeme with _ | kind'
      · exact hidentifier.symm
      · obtain ⟨front, back, hfound, -⟩ := List.lookup_eq_some_iff.mp hkeyword
        exact hkeywords (lexeme, kind') (by simp [hfound])

/-- A scan gives an integer only where it starts with a digit. -/
lemma integer_of_scan {c : Char} {after : Text} (h : scan c after = ⟨.integerLiteral, rest, true⟩) :
    c.isDigit = true ∧ integer c after = ⟨.integerLiteral, rest, true⟩ := by
  have hsuffix := scan_suffix c after
  rw [scan] at h
  by_cases hstart : isIdentStart c = true
  · rw [if_pos hstart, identifier, scan_mk_eq] at h
    exact absurd h.1 (wordKind_ne rfl _)
  · rw [if_neg hstart] at h
    by_cases hdigit : c.isDigit = true
    · rw [if_pos hdigit] at h
      exact ⟨hdigit, h⟩
    · rw [scan, if_neg hstart] at hsuffix
      rw [if_neg hdigit] at h hsuffix
      rw [h] at hsuffix
      obtain ⟨text, rfl⟩ := hsuffix
      rcases mem_marks_of_punctuation h with rfl | rfl | hmem
      · exact absurd (quoted_kind h) (by decide)
      · exact absurd (quoted_kind h) (by decide)
      · have hnone : ∀ token ∈ marks, token.kind ≠ .integerLiteral := by decide
        exact absurd rfl (hnone _ hmem)

/-! ## The tokens of a text -/

/-- The lexer gets to the rest of the text. -/
inductive Reached (text : Text) : Text → Prop
  | start : Reached text (dropMark text)
  | scan {rest : Text} {c : Char} {after : Text} (h : Reached text rest)
      (hskip : (skip .space rest).1 = c :: after) : Reached text (scan c after).rest

/-- Somewhere in the text the lexer makes the token, without a diagnostic if `clean`. -/
def Produces (text : Text) (token : Token) (clean : Bool) : Prop :=
  ∃ rest c after, Reached text rest ∧ (skip .space rest).1 = c :: after ∧
    token = ⟨(scan c after).kind, consumed (c :: after) (scan c after).rest⟩ ∧
    clean = (scan c after).clean

/-- The parser reads a literal as its number, if that is small enough. -/
lemma IsInteger.parse (h : IsInteger text base digits suffix) :
    parseIntegerLiteralParts (String.ofList text) =
      if denoted base 0 digits < 2 ^ 128 then some ⟨denoted base 0 digits, suffix⟩ else none := by
  by_cases hlt : denoted base 0 digits < 2 ^ 128
  · rw [if_pos hlt, parseIntegerLiteralParts_iff, String.toList_ofList]
    exact ⟨base, digits, h, rfl, hlt⟩
  · rw [if_neg hlt, Option.eq_none_iff_forall_ne_some]
    intro parsed hparsed
    rw [parseIntegerLiteralParts_iff, String.toList_ofList] at hparsed
    obtain ⟨base', digits', h', hvalue, hsmall⟩ := hparsed
    obtain ⟨rfl, rfl, -⟩ := h.unique h'
    exact hlt (hvalue ▸ hsmall)

/-- A literal is the only token of its text. -/
lemma IsInteger.lexLines (h : IsInteger text base digits suffix) :
    lex text = [⟨.integerLiteral, text⟩] ∧ Accepted text := by
  obtain ⟨first, after, rfl, hfirst, hread⟩ := h.integer
  have hends : Ends ⟨.integerLiteral, first :: after⟩ [] := by
    rw [ends_number (isIdentStart_of_isDigit hfirst) hfirst, List.append_nil]
    exact hread
  have hrun : Run .space (first :: after) [⟨.integerLiteral, first :: after⟩] .space := by
    have htoken := Run.token hends (.done .space)
    rwa [List.append_nil] at htoken
  obtain ⟨htokens, hclean⟩ := hrun.lexLines
  exact ⟨htokens, hclean⟩

/-- **Lexer and parser agree about integers.**  The parser reads an integer token without a
diagnostic as the number that its digits denote, if that is small enough; and what the parser
accepts is one such token. -/
theorem integers_agree :
    (∀ text lexeme, Produces text ⟨.integerLiteral, lexeme⟩ true →
      ∃ base digits suffix, IsInteger lexeme base digits suffix ∧
        parseIntegerLiteralParts (String.ofList lexeme) =
          if denoted base 0 digits < 2 ^ 128 then some ⟨denoted base 0 digits, suffix⟩
          else none) ∧
    (∀ raw parsed, parseIntegerLiteralParts raw = some parsed →
      lex raw.toList = [⟨.integerLiteral, raw.toList⟩] ∧ Accepted raw.toList) := by
  constructor
  · rintro text lexeme ⟨rest, c, after, -, -, htoken, hclean⟩
    obtain ⟨hkind, rfl⟩ := Token.mk.inj htoken
    have hscan : scan c after = ⟨.integerLiteral, (scan c after).rest, true⟩ := by
      rw [hkind, hclean]
    obtain ⟨hdigit, hread⟩ := integer_of_scan hscan
    obtain ⟨front, base, digits, suffix, htext, hinteger⟩ := isInteger_of_integer hdigit hread
    have hlexeme : consumed (c :: after) (scan c after).rest = front := by
      conv_lhs => rw [htext]
      exact consumed_append front _
    exact ⟨base, digits, suffix, hlexeme ▸ hinteger, hlexeme ▸ hinteger.parse⟩
  · intro raw parsed h
    obtain ⟨base, digits, hinteger, -, -⟩ := parseIntegerLiteralParts_iff.mp h
    exact hinteger.lexLines

/-- A literal behind space, and a literal by itself. -/
theorem integers_agree_hex :
    (∃ base digits suffix, IsInteger "0xF_u8".toList base digits suffix ∧
      parseIntegerLiteralParts (String.ofList "0xF_u8".toList) =
        if denoted base 0 digits < 2 ^ 128 then some ⟨denoted base 0 digits, suffix⟩
        else none) ∧
    lex "1_000".toList = [⟨.integerLiteral, "1_000".toList⟩] ∧ Accepted "1_000".toList :=
  ⟨integers_agree.1 " 0xF_u8;".toList _ ⟨_, '0', "xF_u8;".toList, .start, by decide, by decide,
    by decide⟩, integers_agree.2 "1_000" ⟨1000, none⟩ (by decide)⟩

end ModernC.Lexer
