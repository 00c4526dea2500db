import ModernC.Lexer.Loop
import ModernC.Syntax.IntegerLiteral

/-!
# What an integer literal is

The grammar that the lexer and the parser of integers share: a base, digits with underscores between
them, and the name of a type as a suffix.  The parser accepts exactly its texts, unless the number
is too large.
-/

namespace ModernC.Lexer

open Syntax (IntegerSuffix ParsedIntegerLiteral digitValue parseDigits splitSuffix integerSuffix
  parseIntegerLiteralParts maxMagnitude)

def radix : IntegerBase → ℕ
  | .decimal => 10
  | .hex => 16

/-- Digits with single underscores between them, behind a digit or not. -/
def Separated (base : IntegerBase) : Bool → Text → Prop
  | afterDigit, [] => afterDigit = true
  | afterDigit, c :: rest =>
    if c = '_' then afterDigit = true ∧ Separated base false rest
    else isDigitForBase c base = true ∧ Separated base true rest

/-- The number that digits denote behind a number, whatever underscores stand between them. -/
def denoted (base : IntegerBase) (magnitude : ℕ) : Text → ℕ
  | [] => magnitude
  | c :: rest =>
    if c = '_' then denoted base magnitude rest
    else denoted base (magnitude * radix base + (digitValue c).getD 0) rest

def suffixText : Option IntegerSuffix → Text
  | none => []
  | some suffix => '_' :: suffix.typeName.toList

/-- What a text of the base starts with. -/
def IsPrefix (start : Text) : IntegerBase → Prop
  | .decimal => start = []
  | .hex => start = ['0', 'x'] ∨ start = ['0', 'X']

/-- The text is an integer literal. -/
def IsInteger (text : Text) (base : IntegerBase) (digits : Text) (suffix : Option IntegerSuffix) :
    Prop :=
  Separated base false digits ∧
    ∃ start, IsPrefix start base ∧ text = start ++ (digits ++ suffixText suffix)

/-! ## Digits -/

variable {base : IntegerBase} {digits text : Text} {suffix : Option IntegerSuffix}

lemma isDigitForBase_iff {c : Char} :
    isDigitForBase c base = true ↔ ∃ d, digitValue c = some d ∧ d < radix base := by
  have hnine : '9'.toNat = 57 := rfl
  have hzero : '0'.toNat = 48 := rfl
  have ha : 'a'.toNat = 97 := rfl
  have hf : 'f'.toNat = 102 := rfl
  have hA : 'A'.toNat = 65 := rfl
  have hF : 'F'.toNat = 70 := rfl
  have hle : ∀ {x y : Char}, x ≤ y ↔ x.toNat ≤ y.toNat := Iff.rfl
  have hdigit : c.isDigit = true ↔ 48 ≤ c.toNat ∧ c.toNat ≤ 57 := by
    rw [Char.isDigit, Bool.and_eq_true, decide_eq_true_eq, decide_eq_true_eq]
    exact Iff.rfl
  cases base with
  | decimal =>
    rw [isDigitForBase, hdigit, digitValue]
    simp only [hle, hnine, hzero, ha, hf, hA, hF, radix]
    constructor
    · intro h
      exact ⟨c.toNat - 48, if_pos h, by omega⟩
    · rintro ⟨d, hd, hlt⟩
      split at hd
      · assumption
      · split at hd
        · have heq := Option.some.inj hd
          omega
        · split at hd
          · have heq := Option.some.inj hd
            omega
          · exact absurd hd (by simp)
  | hex =>
    rw [isDigitForBase, Bool.or_eq_true, Bool.or_eq_true, hdigit, Bool.and_eq_true,
      Bool.and_eq_true, decide_eq_true_eq, decide_eq_true_eq, decide_eq_true_eq, decide_eq_true_eq,
      digitValue]
    simp only [hle, hnine, hzero, ha, hf, hA, hF, radix]
    constructor
    · rintro ((h | h) | h)
      · exact ⟨c.toNat - 48, if_pos h, by omega⟩
      · exact ⟨c.toNat - 97 + 10, by rw [if_neg (by omega), if_pos h], by omega⟩
      · exact ⟨c.toNat - 65 + 10, by rw [if_neg (by omega), if_neg (by omega), if_pos h], by omega⟩
    · rintro ⟨d, hd, -⟩
      split at hd
      · exact .inl (.inl (by assumption))
      · split at hd
        · exact .inl (.inr (by assumption))
        · split at hd
          · exact .inr (by assumption)
          · exact absurd hd (by simp)

lemma underscore_not_digit (base : IntegerBase) : isDigitForBase '_' base = false := by
  cases base <;> decide

/-- A number only grows by more digits. -/
lemma le_denoted (base : IntegerBase) (magnitude : ℕ) (digits : Text) :
    magnitude ≤ denoted base magnitude digits := by
  induction digits generalizing magnitude with
  | nil => exact le_refl _
  | cons c rest ih =>
    rw [denoted]
    split
    · exact ih magnitude
    · have hradix : 0 < radix base := by cases base <;> exact Nat.succ_pos _
      have hmul := Nat.le_mul_of_pos_right magnitude hradix
      exact (hmul.trans (Nat.le_add_right _ _)).trans (ih _)

/-- **The parser reads the digits of the grammar**, up to the largest number. -/
lemma parseDigits_iff {magnitude value : ℕ}
    {afterDigit : Bool} (hmagnitude : magnitude ≤ maxMagnitude)
    (hstart : afterDigit = true ∨ digits ≠ []) :
    parseDigits (radix base) magnitude afterDigit digits = some value ↔
      Separated base afterDigit digits ∧ value = denoted base magnitude digits ∧
        denoted base magnitude digits ≤ maxMagnitude := by
  induction digits generalizing magnitude afterDigit with
  | nil =>
    have hafter : afterDigit = true := hstart.resolve_right fun hne => hne rfl
    rw [parseDigits, Separated, denoted]
    exact ⟨fun h => ⟨hafter, (Option.some.inj h).symm, hmagnitude⟩, fun h => by rw [h.2.1]⟩
  | cons c rest ih =>
    rw [parseDigits, Separated, denoted]
    -- an underscore needs a digit on both sides, a digit must keep the magnitude in range
    by_cases hunderscore : c = '_'
    · rw [if_pos hunderscore, if_pos hunderscore, if_pos hunderscore]
      by_cases hafter : afterDigit = true
      · cases rest with
        | nil =>
          have hend : ¬Separated base false [] := Bool.false_ne_true
          rw [if_pos (by simp)]
          exact iff_of_false (by simp) fun h => hend h.1.2
        | cons next rest =>
          rw [if_neg (by simp [hafter]), ih hmagnitude (.inr (by simp))]
          simp only [hafter, true_and]
      · rw [if_pos (by simp [hafter])]
        exact iff_of_false (by simp) fun h => hafter h.1.1
    · rw [if_neg hunderscore, if_neg hunderscore, if_neg hunderscore]
      rcases hdigit : digitValue c with _ | d
      · have hnot : isDigitForBase c base ≠ true := by
          rw [Ne, isDigitForBase_iff, hdigit]
          rintro ⟨d, hd, -⟩
          exact absurd hd (by simp)
        exact iff_of_false (by simp) fun h => hnot h.1.1
      · by_cases hlt : d < radix base
        · have hbase : isDigitForBase c base = true := isDigitForBase_iff.mpr ⟨d, hdigit, hlt⟩
          have hgrows := le_denoted base (magnitude * radix base + d) rest
          rw [Option.bind_eq_bind, Option.bind_some, if_neg (Nat.not_le_of_lt hlt),
            Option.getD_some]
          by_cases hfits : magnitude * radix base + d ≤ maxMagnitude
          · rw [if_neg (by omega), if_neg (by omega), ih hfits (.inl rfl)]
            simp only [hbase, true_and]
          · have hnone : (if magnitude * radix base > maxMagnitude then none
                else if magnitude * radix base + d > maxMagnitude then none
                else parseDigits (radix base) (magnitude * radix base + d) true rest) = none := by
              split
              · rfl
              · exact if_pos (by omega)
            rw [hnone]
            exact iff_of_false (by simp) fun h => by omega
        · have hnot : isDigitForBase c base ≠ true := by
            rw [Ne, isDigitForBase_iff, hdigit]
            rintro ⟨d', hd', hlt'⟩
            rw [Option.some.inj hd'] at hlt
            exact hlt hlt'
          rw [Option.bind_eq_bind, Option.bind_some, if_pos (Nat.le_of_not_lt hlt)]
          exact iff_of_false (by simp) fun h => hnot h.1.1

/-! ## Suffixes -/

/-- Every character is a digit or an underscore. -/
lemma Separated.mem {afterDigit : Bool}
    (h : Separated base afterDigit digits) {c : Char} (hc : c ∈ digits) :
    c = '_' ∨ isDigitForBase c base = true := by
  induction digits generalizing afterDigit with
  | nil => exact absurd hc List.not_mem_nil
  | cons next rest ih =>
    rw [Separated] at h
    by_cases hunderscore : next = '_'
    · rw [if_pos hunderscore] at h
      rcases List.mem_cons.mp hc with rfl | hc
      · exact .inl hunderscore
      · exact ih h.2 hc
    · rw [if_neg hunderscore] at h
      rcases List.mem_cons.mp hc with rfl | hc
      · exact .inr h.1
      · exact ih h.2 hc

/-- The first character of a suffix is not a digit. -/
lemma exists_typeName (suffix : IntegerSuffix) (base : IntegerBase) :
    ∃ c rest, suffix.typeName.toList = c :: rest ∧ isDigitForBase c base = false ∧ c ≠ '_' ∧
      '_' ∉ rest := by
  cases suffix <;> cases base <;> exact ⟨_, _, rfl, by decide, by decide, by decide⟩

lemma integerSuffix_eq_some {raw : Text} {suffix : IntegerSuffix}
    (h : integerSuffix raw = some suffix) : suffix.typeName.toList = raw := by
  have hfound := List.find?_some h
  exact beq_iff_eq.mp hfound

lemma integerSuffix_typeName (suffix : IntegerSuffix) :
    integerSuffix suffix.typeName.toList = some suffix := by
  cases suffix <;> rfl

/-- The part behind the last underscore, and what is in front of it. -/
lemma splitSuffix_eq
    (h : splitSuffix text = (digits, suffix)) : text = digits ++ suffixText suffix := by
  rw [splitSuffix] at h
  obtain ⟨last, hlast⟩ : ∃ last, last = (text.reverse.takeWhile (· != '_')).reverse := ⟨_, rfl⟩
  simp only [← hlast] at h
  split at h
  · obtain ⟨rfl, rfl⟩ := Prod.mk.inj h
    exact (List.append_nil _).symm
  · next hlength =>
    split at h
    · obtain ⟨rfl, rfl⟩ := Prod.mk.inj h
      exact (List.append_nil _).symm
    · next found hfound =>
      obtain ⟨rfl, rfl⟩ := Prod.mk.inj h
      have hname := integerSuffix_eq_some hfound
      -- the reversed text goes on with an underscore
      have hsplit := List.takeWhile_append_dropWhile (p := (· != '_')) (l := text.reverse)
      have hreverse : text.reverse.takeWhile (· != '_') = last.reverse := by
        rw [hlast, List.reverse_reverse]
      rcases hrest : text.reverse.dropWhile (· != '_') with _ | ⟨c, rest⟩
      · rw [hrest, hreverse, List.append_nil] at hsplit
        rw [List.reverse_inj.mp hsplit] at hlength
        exact absurd rfl hlength
      · have hc : c = '_' := by
          have hnot := List.head_dropWhile_not (p := (· != '_')) (l := text.reverse)
            (by rw [hrest]; exact List.cons_ne_nil _ _)
          simp only [hrest, List.head_cons] at hnot
          simpa using hnot
        rw [hrest, hreverse, hc] at hsplit
        have htext : text = rest.reverse ++ '_' :: last := by
          have hback := congrArg List.reverse hsplit
          simpa using hback.symm
        have hlen : text.length - last.length - 1 = rest.reverse.length := by
          rw [htext]
          simp only [List.length_append, List.length_cons]
          omega
        rw [hlen, suffixText, hname]
        conv_lhs => rw [htext]
        conv_rhs => rw [htext, List.take_left]

/-- A literal is split at its suffix. -/
lemma splitSuffix_literal (h : Separated base false digits) (suffix : Option IntegerSuffix) :
    splitSuffix (digits ++ suffixText suffix) = (digits, suffix) := by
  cases suffix with
  | none =>
    rw [suffixText, List.append_nil, splitSuffix]
    obtain ⟨last, hlast⟩ : ∃ last, last = (digits.reverse.takeWhile (· != '_')).reverse := ⟨_, rfl⟩
    have hsub : ∀ c ∈ last, c ∈ digits := by
      intro c hc
      rw [hlast, List.mem_reverse] at hc
      exact List.mem_reverse.mp ((List.takeWhile_prefix _).subset hc)
    have hnone : integerSuffix last = none := by
      rcases hsome : integerSuffix last with _ | suffix
      · rfl
      · obtain ⟨c, rest, hname, hdigit, hne, -⟩ := exists_typeName suffix base
        rw [integerSuffix_eq_some hsome] at hname
        have hmem := hsub c (hname ▸ List.mem_cons_self)
        rcases h.mem hmem with heq | heq
        · exact absurd heq hne
        · rw [hdigit] at heq
          exact absurd heq Bool.false_ne_true
    simp only [← hlast, hnone, ite_self]
  | some suffix =>
    obtain ⟨c, rest, hname, -, hne, hrest⟩ := exists_typeName suffix base
    have hplain : ∀ c' ∈ suffix.typeName.toList, (c' != '_') = true := by
      intro c' hc'
      rw [hname] at hc'
      rcases List.mem_cons.mp hc' with rfl | hc'
      · exact bne_iff_ne.mpr hne
      · exact bne_iff_ne.mpr fun heq => hrest (heq ▸ hc')
    have hreverse : (digits ++ suffixText (some suffix)).reverse =
        suffix.typeName.toList.reverse ++ '_' :: digits.reverse := by
      simp [suffixText]
    have hlast : ((digits ++ suffixText (some suffix)).reverse.takeWhile (· != '_')).reverse =
        suffix.typeName.toList := by
      rw [hreverse, List.takeWhile_append_of_pos fun c' hc' => hplain c' (List.mem_reverse.mp hc'),
        List.takeWhile_cons_of_neg (by simp), List.append_nil, List.reverse_reverse]
    have hlength : (digits ++ suffixText (some suffix)).length =
        digits.length + (suffix.typeName.toList.length + 1) := by
      rw [List.length_append, suffixText, List.length_cons]
    rw [splitSuffix]
    simp only [hlast, integerSuffix_typeName]
    rw [if_neg (by omega), hlength]
    have hcount : digits.length + (suffix.typeName.toList.length + 1) -
        suffix.typeName.toList.length - 1 = digits.length := by omega
    rw [hcount, List.take_left]

/-! ## The parser -/

lemma Separated.ne_nil (h : Separated base false digits) :
    digits ≠ [] := by
  rintro rfl
  exact Bool.false_ne_true h

/-- A decimal literal does not start like a hexadecimal one. -/
lemma Separated.not_hex {rest : Text} (h : Separated .decimal false digits) {x : Char}
    (hx : isDigitForBase x .decimal = false) (hunderscore : x ≠ '_') (hrest : rest.head? ≠ some x) :
    ['0', x].isPrefixOf (digits ++ rest) = false := by
  rw [← Bool.not_eq_true, List.isPrefixOf_iff_prefix]
  rintro ⟨more, hmore⟩
  rcases digits with _ | ⟨c, _ | ⟨c', digits⟩⟩
  · exact h.ne_nil rfl
  · have hsecond := congrArg (fun text : Text => text.tail.head?) hmore
    exact hrest hsecond.symm
  · have hsecond := congrArg (fun text : Text => text.tail.head?) hmore
    obtain rfl : x = c' := Option.some.inj hsecond
    rcases h.mem (List.mem_cons_of_mem _ List.mem_cons_self) with heq | heq
    · exact hunderscore heq
    · rw [hx] at heq
      exact absurd heq Bool.false_ne_true

lemma head_suffixText (suffix : Option IntegerSuffix) {x : Char} (hx : x ≠ '_') :
    (suffixText suffix).head? ≠ some x := by
  cases suffix with
  | none => exact fun h => absurd h (by simp [suffixText])
  | some suffix => exact fun h => hx (Option.some.inj h).symm

/-- The part of the parser behind the prefix. -/
def parseBody (base : IntegerBase) (body : Text) : Option ParsedIntegerLiteral :=
  if (splitSuffix body).1.isEmpty then none
  else (parseDigits (radix base) 0 false (splitSuffix body).1).map fun magnitude =>
    { magnitude, suffix := (splitSuffix body).2 }

def startsHex (text : Text) : Bool := ['0', 'x'].isPrefixOf text || ['0', 'X'].isPrefixOf text

lemma parseIntegerLiteralParts_eq (raw : String) :
    parseIntegerLiteralParts raw =
      if startsHex raw.toList then parseBody .hex (raw.toList.drop 2)
      else parseBody .decimal raw.toList := by
  have hhex : ("0x".toList.isPrefixOf raw.toList || "0X".toList.isPrefixOf raw.toList) =
      startsHex raw.toList := rfl
  simp only [parseIntegerLiteralParts, hhex]
  cases startsHex raw.toList with
  | false | true => rfl

lemma parseBody_iff {body : Text} {parsed : ParsedIntegerLiteral} :
    parseBody base body = some parsed ↔ ∃ digits, Separated base false digits ∧
      body = digits ++ suffixText parsed.suffix ∧ parsed.magnitude = denoted base 0 digits ∧
        parsed.magnitude < 2 ^ 128 := by
  have hzero : 0 ≤ maxMagnitude := Nat.zero_le _
  rw [parseBody]
  constructor
  · intro h
    rcases hsplit : splitSuffix body with ⟨digits, suffix⟩
    rw [hsplit] at h
    split at h
    · exact absurd h (by simp)
    · next hempty =>
      obtain ⟨magnitude, hdigits, rfl⟩ := Option.map_eq_some_iff.mp h
      have hne : digits ≠ [] := fun heq => hempty (by rw [heq]; rfl)
      obtain ⟨hseparated, hvalue, hmax⟩ := (parseDigits_iff hzero (.inr hne)).mp hdigits
      refine ⟨digits, hseparated, splitSuffix_eq hsplit, hvalue, ?_⟩
      show magnitude < 2 ^ 128
      rw [maxMagnitude] at hmax
      omega
  · rintro ⟨digits, hseparated, rfl, hvalue, hlt⟩
    have hne := hseparated.ne_nil
    have hempty : digits.isEmpty = false := by
      rw [List.isEmpty_eq_false_iff]
      exact hne
    have hmax : denoted base 0 digits ≤ maxMagnitude := by
      rw [maxMagnitude]
      omega
    rw [splitSuffix_literal hseparated, hempty,
      (parseDigits_iff hzero (.inr hne)).mpr ⟨hseparated, hvalue, hmax⟩]
    rfl

lemma startsHex_iff :
    startsHex text = true ↔ ∃ start, IsPrefix start .hex ∧ start <+: text := by
  rw [startsHex, Bool.or_eq_true, List.isPrefixOf_iff_prefix, List.isPrefixOf_iff_prefix]
  constructor
  · rintro (h | h)
    · exact ⟨_, .inl rfl, h⟩
    · exact ⟨_, .inr rfl, h⟩
  · rintro ⟨start, rfl | rfl, h⟩
    · exact .inl h
    · exact .inr h

/-- The text behind the prefix. -/
def bodyOf (text : Text) : Text := if startsHex text then text.drop 2 else text

/-- How a literal is taken apart. -/
lemma IsInteger.parts (h : IsInteger text base digits suffix) :
    (startsHex text = true ↔ base = .hex) ∧ bodyOf text = digits ++ suffixText suffix := by
  obtain ⟨hseparated, start, hstart, rfl⟩ := h
  cases base with
  | decimal =>
    obtain rfl : start = [] := hstart
    have hsmall := hseparated.not_hex (x := 'x') (by decide) (by decide)
      (head_suffixText suffix (by decide))
    have hlarge := hseparated.not_hex (x := 'X') (by decide) (by decide)
      (head_suffixText suffix (by decide))
    have hnot : startsHex (digits ++ suffixText suffix) = false := by
      rw [startsHex, hsmall, hlarge, Bool.or_false]
    rw [List.nil_append, bodyOf, hnot, if_neg Bool.false_ne_true]
    exact ⟨iff_of_false Bool.false_ne_true (by decide), rfl⟩
  | hex =>
    have hhex : startsHex (start ++ (digits ++ suffixText suffix)) = true :=
      startsHex_iff.mpr ⟨start, hstart, List.prefix_append _ _⟩
    have hlength : start.length = 2 := by rcases hstart with rfl | rfl <;> rfl
    rw [bodyOf, if_pos hhex, ← hlength, List.drop_left]
    exact ⟨iff_of_true hhex rfl, rfl⟩

/-- A literal has one base, one row of digits and one suffix. -/
lemma IsInteger.unique {base' : IntegerBase} {digits' : Text}
    {suffix' : Option IntegerSuffix} (h : IsInteger text base digits suffix)
    (h' : IsInteger text base' digits' suffix') :
    base = base' ∧ digits = digits' ∧ suffix = suffix' := by
  have hsplit := splitSuffix_literal h.1 suffix
  have hsplit' := splitSuffix_literal h'.1 suffix'
  obtain ⟨hhex, hbody⟩ := h.parts
  obtain ⟨hhex', hbody'⟩ := h'.parts
  rw [← hbody] at hsplit
  rw [← hbody', hsplit] at hsplit'
  obtain ⟨hdigits, hsuffix⟩ := Prod.mk.inj hsplit'
  refine ⟨?_, hdigits, hsuffix⟩
  have hbase : base = .hex ↔ base' = .hex := hhex.symm.trans hhex'
  cases base with
  | hex => exact (hbase.mp rfl).symm
  | decimal =>
    cases base' with
    | hex => exact hbase.mpr rfl
    | decimal => rfl

/-- **The parser accepts the literals of the grammar** whose numbers are below 2¹²⁸. -/
theorem parseIntegerLiteralParts_iff {raw : String} {parsed : ParsedIntegerLiteral} :
    parseIntegerLiteralParts raw = some parsed ↔ ∃ base digits,
      IsInteger raw.toList base digits parsed.suffix ∧
        parsed.magnitude = denoted base 0 digits ∧ parsed.magnitude < 2 ^ 128 := by
  rw [parseIntegerLiteralParts_eq]
  constructor
  · intro h
    split at h
    · next hhex =>
      obtain ⟨start, hstart, rest, hrest⟩ := startsHex_iff.mp hhex
      obtain ⟨digits, hseparated, hbody, hvalue, hlt⟩ := parseBody_iff.mp h
      have hlength : start.length = 2 := by rcases hstart with rfl | rfl <;> rfl
      rw [← hrest, ← hlength, List.drop_left] at hbody
      exact ⟨.hex, digits, ⟨hseparated, start, hstart, by rw [← hrest, hbody]⟩, hvalue, hlt⟩
    · obtain ⟨digits, hseparated, hbody, hvalue, hlt⟩ := parseBody_iff.mp h
      exact ⟨.decimal, digits, ⟨hseparated, [], rfl, hbody⟩, hvalue, hlt⟩
  · rintro ⟨base, digits, hinteger, hvalue, hlt⟩
    obtain ⟨hhex, hbody⟩ := hinteger.parts
    rw [bodyOf] at hbody
    cases base with
    | decimal =>
      have hnot : ¬startsHex raw.toList = true := fun h => absurd (hhex.mp h) (by decide)
      rw [if_neg hnot] at hbody ⊢
      exact parseBody_iff.mpr ⟨digits, hinteger.1, hbody, hvalue, hlt⟩
    | hex =>
      rw [if_pos (hhex.mpr rfl)] at hbody ⊢
      exact parseBody_iff.mpr ⟨digits, hinteger.1, hbody, hvalue, hlt⟩

end ModernC.Lexer
