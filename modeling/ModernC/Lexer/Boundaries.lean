import ModernC.Lexer.Endings

/-!
# Boundaries of tokens

A token `Ends` in front of a text if the lexer reads it there, to its last character and without
a diagnostic.  That is a matter of the token by itself and of the text not going on with it.
-/

namespace ModernC.Lexer

open ModernC.Parser (Kind)
open Specialize (isIdentStart isIdentContinue)

/-- The lexer reads the token in front of the rest. -/
def Ends (token : Token) (rest : Text) : Prop :=
  ∃ c text, token.lexeme = c :: text ∧
    skip .space (c :: (text ++ rest)) = (c :: (text ++ rest), true) ∧
    scan c (text ++ rest) = ⟨token.kind, rest, true⟩

variable {kind long short : Kind} {rest text : Text} {c first second : Char} {token : Token}

lemma scan_mk_eq {kind' : Kind} {rest' : Text} {clean clean' : Bool} :
    (⟨kind, rest, clean⟩ : Scan) = ⟨kind', rest', clean'⟩ ↔
      kind = kind' ∧ rest = rest' ∧ clean = clean' := by
  rw [Scan.mk.injEq]

/-! ## Words -/

lemma identifier_append :
    identifier c (text ++ rest) = ⟨kind, rest, true⟩ ↔
      identifier c text = ⟨kind, [], true⟩ ∧ Halts rest := by
  simp only [identifier, scan_mk_eq, and_true]
  constructor
  · rintro ⟨hkind, hrest⟩
    have hhalts : Halts rest := hrest ▸ halts_dropWhile (text ++ rest)
    rw [hhalts.takeWhile_append] at hkind
    rw [hhalts.dropWhile_append, List.append_left_eq_self] at hrest
    exact ⟨⟨hkind, hrest⟩, hhalts⟩
  · rintro ⟨⟨hkind, hrest⟩, hhalts⟩
    rw [hhalts.takeWhile_append, hhalts.dropWhile_append, hrest, List.nil_append]
    exact ⟨hkind, rfl⟩

/-! ## Numbers -/

def isHex (first : Char) (text : Text) : Bool :=
  first == '0' && (peek text == 'x' || peek text == 'X')

def baseOf (first : Char) (text : Text) : IntegerBase := if isHex first text then .hex else .decimal

def digitsOf (first : Char) (text : Text) : Digits :=
  integerDigits (baseOf first text) (!isHex first text) false false
    (if isHex first text then text.tail else text)

lemma integer_eq (first : Char) (text : Text) :
    integer first text =
      ⟨if (numberAfter (baseOf first text) (digitsOf first text)).isFloat then .floatLiteral
        else .integerLiteral,
        (numberAfter (baseOf first text) (digitsOf first text)).rest,
        !(numberAfter (baseOf first text) (digitsOf first text)).invalid⟩ := rfl

lemma isHex_append (h : Halts rest) (first : Char) (text : Text) :
    isHex first (text ++ rest) = isHex first text := by
  have hx : Inside fun c => c == 'x' || c == 'X' := by
    intro c hc
    rcases (by simpa using hc : c = 'x' ∨ c = 'X') with rfl | rfl <;> decide
  have hpeek : (peek (text ++ rest) == 'x' || peek (text ++ rest) == 'X') =
      (peek text == 'x' || peek text == 'X') := h.peek_append hx text
  rw [isHex, isHex, hpeek]

lemma digitsOf_append (h : Halts rest) (first : Char) (text : Text) :
    digitsOf first (text ++ rest) = (digitsOf first text).append rest := by
  simp only [digitsOf, baseOf, isHex_append h]
  split
  · next hhex =>
    have hne : text ≠ [] := by
      rintro rfl
      simp [isHex] at hhex
    rw [List.tail_append_of_ne_nil hne, integerDigits_append h]
  · rw [integerDigits_append h]

/-- An integer that a fraction would make a float. -/
def openInteger (first : Char) (text : Text) : Bool :=
  baseOf first text == .decimal && (digitsOf first text).rest.isEmpty

lemma startsFraction_hex (rest : Text) : startsFraction .hex rest = false := rfl

lemma openInteger_iff :
    (openInteger first text = true → startsFraction .decimal rest = false) ↔
      ((digitsOf first text).rest = [] → startsFraction (baseOf first text) rest = false) := by
  rcases hbase : baseOf first text with _ | _
  · simp [openInteger, hbase]
  · simp [openInteger, hbase, startsFraction_hex]

lemma integer_append :
    integer c (text ++ rest) = ⟨kind, rest, true⟩ ↔
      integer c text = ⟨kind, [], true⟩ ∧ Halts rest ∧
        (openInteger c text = true → startsFraction .decimal rest = false) := by
  rw [openInteger_iff, integer_eq, integer_eq, scan_mk_eq, scan_mk_eq]
  simp only [Bool.not_eq_true']
  constructor
  · rintro ⟨hkind, hrest, hclean⟩
    have hhalts : Halts rest :=
      hrest ▸ halts_numberAfter (peek_integerDigits _ _ _ _ _) hclean
    have hbase : baseOf c (text ++ rest) = baseOf c text := by
      rw [baseOf, baseOf, isHex_append hhalts]
    rw [digitsOf_append hhalts, hbase] at hkind hrest hclean
    obtain ⟨hfraction, happend⟩ := numberAfter_append_of_rest hhalts hclean hrest
    rw [happend] at hkind hrest hclean
    exact ⟨⟨hkind, List.append_left_eq_self.mp hrest, hclean⟩, hhalts, hfraction⟩
  · rintro ⟨⟨hkind, hrest, hclean⟩, hhalts, hfraction⟩
    have hbase : baseOf c (text ++ rest) = baseOf c text := by
      rw [baseOf, baseOf, isHex_append hhalts]
    rw [digitsOf_append hhalts, hbase, numberAfter_append_of_clean hhalts hclean hfraction]
    exact ⟨hkind, List.append_left_eq_self.mpr hrest, hclean⟩

/-! ## Quotes -/

section Quotes

variable {quote : Char} {kind : Kind} {accepts : ℕ → Bool}

lemma quoted_nil (units : ℕ) : quoted quote kind accepts units [] = ⟨.invalid, [], false⟩ := rfl

/-- The last character. -/
lemma quoted_singleton (units : ℕ) (c : Char) :
    quoted quote kind accepts units [c] =
      if c = quote then ⟨kind, [], accepts units⟩
      else if c = '\n' then ⟨.invalid, [c], false⟩
      else if c = '\\' then ⟨.invalid, [], false⟩
      else ⟨.invalid, [], false⟩ := rfl

/-- A character in front of another one. -/
lemma quoted_cons_cons (units : ℕ) (c d : Char) (rest : Text) :
    quoted quote kind accepts units (c :: d :: rest) =
      if c = quote then ⟨kind, d :: rest, accepts units⟩
      else if c = '\n' then ⟨.invalid, c :: d :: rest, false⟩
      else if c = '\\' then ⟨(quoted quote kind accepts (units + 1) rest).kind,
        (quoted quote kind accepts (units + 1) rest).rest,
        isEscape d && (quoted quote kind accepts (units + 1) rest).clean⟩
      else quoted quote kind accepts (units + 1) (d :: rest) := rfl

variable {units : ℕ}

lemma quoted_quote :
    quoted quote kind accepts units (quote :: rest) = ⟨kind, rest, accepts units⟩ := by
  rcases rest with _ | ⟨c, rest⟩
  · rw [quoted_singleton, if_pos rfl]
  · rw [quoted_cons_cons, if_pos rfl]

lemma quoted_line (h : '\n' ≠ quote) :
    quoted quote kind accepts units ('\n' :: rest) = ⟨.invalid, '\n' :: rest, false⟩ := by
  rcases rest with _ | ⟨c, rest⟩
  · rw [quoted_singleton, if_neg h, if_pos rfl]
  · rw [quoted_cons_cons, if_neg h, if_pos rfl]

lemma quoted_escape {escaped : Char} (h : '\\' ≠ quote) :
    quoted quote kind accepts units ('\\' :: escaped :: rest) =
      ⟨(quoted quote kind accepts (units + 1) rest).kind,
        (quoted quote kind accepts (units + 1) rest).rest,
        isEscape escaped && (quoted quote kind accepts (units + 1) rest).clean⟩ := by
  rw [quoted_cons_cons, if_neg h, if_neg (by decide), if_pos rfl]

lemma quoted_unit (hquote : c ≠ quote) (hline : c ≠ '\n') (hescape : c ≠ '\\') :
    quoted quote kind accepts units (c :: rest) = quoted quote kind accepts (units + 1) rest := by
  rcases rest with _ | ⟨d, rest⟩
  · rw [quoted_singleton, if_neg hquote, if_neg hline, if_neg hescape, quoted_nil]
  · rw [quoted_cons_cons, if_neg hquote, if_neg hline, if_neg hescape]

lemma length_quoted (h : (quoted quote kind accepts units text).clean = true) :
    (quoted quote kind accepts units text).rest.length < text.length := by
  induction units, text using quoted.induct quote kind accepts with
  | case1 units => exact absurd h nofun
  | case2 units rest =>
    rw [quoted_quote]
    exact Nat.lt_succ_self _
  | case3 units rest hline =>
    rw [quoted_line hline] at h
    exact absurd h nofun
  | case4 units hquote hline =>
    rw [quoted_singleton, if_neg hquote, if_neg hline, if_pos rfl] at h
    exact absurd h nofun
  | case5 units escaped rest hquote hline ih =>
    rw [quoted_escape hquote] at h ⊢
    have hlt := ih (Bool.and_eq_true_iff.mp h).2
    simp only [List.length_cons]
    omega
  | case6 units c rest hquote hline hescape ih =>
    rw [quoted_unit hquote hline hescape] at h ⊢
    exact (ih h).trans (Nat.lt_succ_self _)

/-- A literal does not look behind its last quote. -/
lemma quoted_append {kind' : Kind} :
    quoted quote kind accepts units (text ++ rest) = ⟨kind', rest, true⟩ ↔
      quoted quote kind accepts units text = ⟨kind', [], true⟩ := by
  have hshort : ∀ {units : ℕ} {text : Text}, text.length ≤ rest.length →
      quoted quote kind accepts units text ≠ ⟨kind', rest, true⟩ := by
    intro units text hle heq
    have hclean : (quoted quote kind accepts units text).clean = true := by rw [heq]
    have hlt := length_quoted hclean
    rw [heq] at hlt
    exact absurd hlt (Nat.not_lt.mpr hle)
  induction units, text using quoted.induct quote kind accepts with
  | case1 units =>
    constructor
    · exact fun h => absurd h (hshort (le_refl _))
    · exact fun h => absurd h (by simp [quoted_nil])
  | case2 units text =>
    rw [List.cons_append, quoted_quote, quoted_quote, scan_mk_eq, scan_mk_eq,
      List.append_left_eq_self]
  | case3 units text hline =>
    rw [List.cons_append, quoted_line hline, quoted_line hline, scan_mk_eq, scan_mk_eq]
    simp
  | case4 units hquote hline =>
    rcases rest with _ | ⟨escaped, rest⟩
    · simp [quoted_singleton, hquote]
    · rw [List.cons_append, List.nil_append, quoted_escape hquote]
      constructor
      · intro h
        simp only [scan_mk_eq, Bool.and_eq_true] at h
        have hlt := length_quoted h.2.2.2
        rw [h.2.1, List.length_cons] at hlt
        omega
      · exact fun h => absurd h (by simp [quoted_singleton, hquote])
  | case5 units escaped text hquote hline ih =>
    rw [List.cons_append, List.cons_append, quoted_escape hquote, quoted_escape hquote]
    simp only [scan_mk_eq, Bool.and_eq_true] at ih ⊢
    have hsplit : ∀ scan : Scan, ∀ rest', scan.kind = kind' ∧ scan.rest = rest' ∧
        scan.clean = true ↔ scan = ⟨kind', rest', true⟩ := by
      rintro ⟨kind'', rest'', clean⟩ rest'
      exact scan_mk_eq.symm
    have hreads := ih
    rw [← hsplit, ← hsplit] at hreads
    tauto
  | case6 units c text hquote hline hescape ih =>
    rw [List.cons_append, quoted_unit hquote hline hescape, quoted_unit hquote hline hescape]
    exact ih

end Quotes

/-! ## Marks -/

def marks : List Token :=
  [⟨.lParen, ['(']⟩, ⟨.rParen, [')']⟩, ⟨.lBrace, ['{']⟩, ⟨.rBrace, ['}']⟩, ⟨.lBracket, ['[']⟩,
    ⟨.rBracket, [']']⟩, ⟨.comma, [',']⟩, ⟨.colon, [':']⟩, ⟨.doubleColon, [':', ':']⟩,
    ⟨.semicolon, [';']⟩, ⟨.question, ['?']⟩, ⟨.hash, ['#']⟩, ⟨.at, ['@']⟩, ⟨.tilde, ['~']⟩,
    ⟨.caret, ['^']⟩, ⟨.plus, ['+']⟩, ⟨.percent, ['%']⟩, ⟨.dot, ['.']⟩, ⟨.dotDot, ['.', '.']⟩,
    ⟨.dotDotDot, ['.', '.', '.']⟩, ⟨.minus, ['-']⟩, ⟨.arrow, ['-', '>']⟩, ⟨.equal, ['=']⟩,
    ⟨.equalEqual, ['=', '=']⟩, ⟨.fatArrow, ['=', '>']⟩, ⟨.bang, ['!']⟩, ⟨.bangEqual, ['!', '=']⟩,
    ⟨.less, ['<']⟩, ⟨.shiftLeft, ['<', '<']⟩, ⟨.lessEqual, ['<', '=']⟩, ⟨.greater, ['>']⟩,
    ⟨.shiftRight, ['>', '>']⟩, ⟨.greaterEqual, ['>', '=']⟩, ⟨.amp, ['&']⟩, ⟨.ampAmp, ['&', '&']⟩,
    ⟨.pipe, ['|']⟩, ⟨.pipePipe, ['|', '|']⟩, ⟨.slash, ['/']⟩, ⟨.star, ['*']⟩]

/-- The characters that make a longer mark, or a comment, of a mark. -/
def extensions : Kind → List Char
  | .colon => [':']
  | .dot => ['.']
  | .dotDot => ['.']
  | .minus => ['>']
  | .equal => ['=', '>']
  | .bang => ['=']
  | .less => ['<', '=']
  | .greater => ['>', '=']
  | .amp => ['&']
  | .pipe => ['|']
  | .slash => ['/', '*']
  | _ => []

lemma eq_singleton_of_tail (hhead : (text ++ rest).head? = some c)
    (htail : (text ++ rest).tail = rest) : text = [c] := by
  rcases text with _ | ⟨d, text⟩
  · rcases rest with _ | ⟨d, rest⟩
    · exact absurd hhead nofun
    · exact absurd htail.symm (List.cons_ne_self d rest)
  · rw [List.cons_append, List.tail_cons, List.append_left_eq_self] at htail
    rw [List.cons_append, List.head?_cons, Option.some.injEq] at hhead
    rw [htail, hhead]

lemma oneOrTwo_append (h : oneOrTwo second long short (text ++ rest) = ⟨kind, rest, true⟩) :
    (kind = long ∧ text = [second]) ∨ (kind = short ∧ text = []) := by
  rw [oneOrTwo] at h
  split at h
  · next hhead =>
    obtain ⟨rfl, hrest, -⟩ := scan_mk_eq.mp h
    exact .inl ⟨rfl, eq_singleton_of_tail hhead hrest⟩
  · obtain ⟨rfl, hrest, -⟩ := scan_mk_eq.mp h
    exact .inr ⟨rfl, List.append_left_eq_self.mp hrest⟩

lemma twoOrTwo_append {long' : Kind}
    (h : (if (text ++ rest).head? = some first then ⟨long, (text ++ rest).tail, true⟩
      else oneOrTwo second long' short (text ++ rest)) = (⟨kind, rest, true⟩ : Scan)) :
    (kind = long ∧ text = [first]) ∨ (kind = long' ∧ text = [second]) ∨
      (kind = short ∧ text = []) := by
  split at h
  · next hhead =>
    obtain ⟨rfl, hrest, -⟩ := scan_mk_eq.mp h
    exact .inl ⟨rfl, eq_singleton_of_tail hhead hrest⟩
  · exact .inr (oneOrTwo_append h)

lemma dots_append (h : (if (text ++ rest).head? = some '.' then
      oneOrTwo '.' .dotDotDot .dotDot (text ++ rest).tail else ⟨.dot, text ++ rest, true⟩) =
        (⟨kind, rest, true⟩ : Scan)) :
    (kind = .dotDotDot ∧ text = ['.', '.']) ∨ (kind = .dotDot ∧ text = ['.']) ∨
      (kind = .dot ∧ text = []) := by
  split at h
  · next hhead =>
    rcases text with _ | ⟨c, text⟩
    · have hlength : rest.length ≤ rest.tail.length := by
        rw [List.nil_append, oneOrTwo] at h
        split at h
        · have hlength := congrArg List.length (scan_mk_eq.mp h).2.1
          simp only [List.length_tail] at hlength ⊢
          omega
        · have hrest := (scan_mk_eq.mp h).2.1
          rw [hrest]
      rcases rest with _ | ⟨d, rest⟩
      · exact absurd hhead nofun
      · exact absurd hlength (by simp)
    · obtain rfl : c = '.' := Option.some.inj hhead
      rcases oneOrTwo_append h with ⟨rfl, rfl⟩ | ⟨rfl, rfl⟩
      · exact .inl ⟨rfl, rfl⟩
      · exact .inr (.inl ⟨rfl, rfl⟩)
  · obtain ⟨rfl, hrest, -⟩ := scan_mk_eq.mp h
    exact .inr (.inr ⟨rfl, List.append_left_eq_self.mp hrest⟩)

/-- What `punctuation` reads is a mark or a literal. -/
lemma mem_marks_of_punctuation (h : punctuation c (text ++ rest) = ⟨kind, rest, true⟩) :
    c = '"' ∨ c = '\'' ∨ ⟨kind, c :: text⟩ ∈ marks := by
  unfold punctuation at h
  split at h
  all_goals first
    | exact .inl rfl
    | exact .inr (.inl rfl)
    | rcases oneOrTwo_append h with ⟨rfl, rfl⟩ | ⟨rfl, rfl⟩ <;> simp [marks]
    | rcases dots_append h with ⟨rfl, rfl⟩ | ⟨rfl, rfl⟩ | ⟨rfl, rfl⟩ <;> simp [marks]
    | rcases twoOrTwo_append h with ⟨rfl, rfl⟩ | ⟨rfl, rfl⟩ | ⟨rfl, rfl⟩ <;> simp [marks]
    | obtain ⟨rfl, hrest, -⟩ := scan_mk_eq.mp h
      obtain rfl := List.append_left_eq_self.mp hrest
      simp [marks]
      done
    | exact absurd (scan_mk_eq.mp h).2.2 (by decide)

/-- A character that starts neither a word nor a number nor space. -/
def isMark (c : Char) : Bool := !isIdentStart c && !c.isDigit && !isWhitespace c

/-- Nothing is skipped in front of a token. -/
lemma skip_space_of_token (hspace : isWhitespace c = false)
    (hcomment : c = '/' → text.head? ≠ some '/' ∧ text.head? ≠ some '*') :
    skip .space (c :: text) = (c :: text, true) := by
  rw [skip, if_neg (by simp [hspace])]
  · rintro rest hc rfl
    exact (hcomment hc).1 rfl
  · rintro rest hc rfl
    exact (hcomment hc).2 rfl

lemma isWhitespace_of_isMark (h : isMark c = true) : isWhitespace c = false := by
  simp only [isMark, Bool.and_eq_true, Bool.not_eq_true'] at h
  exact h.2

lemma scan_of_isMark (h : isMark c = true) (text : Text) :
    scan c text = punctuation c text := by
  simp only [isMark, Bool.and_eq_true, Bool.not_eq_true'] at h
  rw [scan, if_neg (by simp [h.1.1]), if_neg (by simp [h.1.2])]

lemma ends_of_isMark (h : isMark c = true) (hslash : c ≠ '/') :
    Ends ⟨kind, c :: text⟩ rest ↔ punctuation c (text ++ rest) = ⟨kind, rest, true⟩ := by
  constructor
  · rintro ⟨c', text', hlexeme, -, hscan⟩
    obtain ⟨rfl, rfl⟩ := List.cons.inj hlexeme
    rwa [scan_of_isMark h] at hscan
  · intro hscan
    refine ⟨c, text, rfl,
      skip_space_of_token (isWhitespace_of_isMark h) fun hc => absurd hc hslash, ?_⟩
    rwa [scan_of_isMark h]

lemma ends_oneOrTwo (h : isMark c = true)
    (hslash : c ≠ '/') (hc : punctuation c rest = oneOrTwo second long short rest)
    (hkind : long ≠ short) : Ends ⟨short, [c]⟩ rest ↔ rest.head? ≠ some second := by
  rw [ends_of_isMark h hslash, List.nil_append, hc, oneOrTwo]
  split
  · next hhead => simp [hhead, hkind]
  · next hhead => simp [hhead]

lemma ends_twoOrTwo {long' : Kind} (h : isMark c = true) (hslash : c ≠ '/')
    (hc : punctuation c rest =
      if rest.head? = some first then ⟨long, rest.tail, true⟩
      else oneOrTwo second long' short rest) (hkind : long ≠ short) (hkind' : long' ≠ short) :
    Ends ⟨short, [c]⟩ rest ↔ rest.head? ≠ some first ∧ rest.head? ≠ some second := by
  rw [ends_of_isMark h hslash, List.nil_append, hc]
  split
  · next hhead => simp [hhead, hkind]
  · next hhead =>
    rw [oneOrTwo]
    split
    · next hhead' => simp [hhead', hkind']
    · next hhead' => simp [hhead, hhead']

lemma ends_dot : Ends ⟨.dot, ['.']⟩ rest ↔ rest.head? ≠ some '.' := by
  rw [ends_of_isMark rfl (by decide)]
  have hdot : punctuation '.' rest = if rest.head? = some '.' then
      oneOrTwo '.' .dotDotDot .dotDot rest.tail else ⟨.dot, rest, true⟩ := rfl
  rw [List.nil_append, hdot]
  split
  · next hhead =>
    rw [oneOrTwo]
    split <;> simp [hhead]
  · next hhead => simp [hhead]

lemma ends_dotDot : Ends ⟨.dotDot, ['.', '.']⟩ rest ↔ rest.head? ≠ some '.' := by
  rw [ends_of_isMark rfl (by decide)]
  have hdot : punctuation '.' (['.'] ++ rest) = oneOrTwo '.' .dotDotDot .dotDot rest := rfl
  rw [hdot, oneOrTwo]
  split
  · next hhead => simp [hhead]
  · next hhead => simp [hhead]

lemma length_skip_le (mode : Mode) (text : Text) : (skip mode text).1.length ≤ text.length := by
  induction mode, text using skip.induct with
  | case1 => exact le_refl _
  | case2 text ih | case3 text ih | case10 _ ih => exact ih.trans ((Nat.le_succ _).trans (Nat.le_succ _))
  | case4 c text hline hblock hspace ih =>
    rw [skip, if_pos hspace]
    · exact ih.trans (Nat.le_succ _)
    · exact hline
    · exact hblock
  | case5 c text hline hblock hspace =>
    rw [skip, if_neg hspace]
    · exact hline
    · exact hblock
  | case6 => exact le_refl _
  | case7 text ih => exact ih.trans (Nat.le_succ _)
  | case8 c text hc ih =>
    rw [skip, if_neg hc]
    exact ih.trans (Nat.le_succ _)
  | case9 => exact le_refl _
  | case11 c text hclose ih =>
    rw [skip]
    · exact ih.trans (Nat.le_succ _)
    · exact hclose

lemma ends_slash :
    Ends ⟨.slash, ['/']⟩ rest ↔ rest.head? ≠ some '/' ∧ rest.head? ≠ some '*' := by
  constructor
  · rintro ⟨c, text, hlexeme, hskip, -⟩
    obtain ⟨rfl, rfl⟩ := List.cons.inj hlexeme
    rw [List.nil_append] at hskip
    refine ⟨fun hhead => ?_, fun hhead => ?_⟩
    all_goals
      obtain ⟨rest, rfl⟩ := List.head?_eq_some_iff.mp hhead
      rw [skip] at hskip
    · have hlength := length_skip_le .line rest
      rw [hskip, List.length_cons, List.length_cons] at hlength
      omega
    · have hlength := length_skip_le .block rest
      rw [hskip, List.length_cons, List.length_cons] at hlength
      omega
  · intro h
    exact ⟨'/', [], rfl, skip_space_of_token rfl fun _ => h, rfl⟩

/-- A mark is read where none of its extensions follows. -/
lemma ends_of_mem_marks (h : token ∈ marks) :
    Ends token rest ↔ ∀ c ∈ extensions token.kind, rest.head? ≠ some c := by
  simp only [marks, List.mem_cons, List.not_mem_nil, or_false] at h
  casesm* _ ∨ _
  all_goals
    subst h
    simp only [extensions, List.mem_cons, List.not_mem_nil, or_false, forall_eq_or_imp, forall_eq]
  all_goals first
    | exact iff_of_true ⟨_, _, rfl, rfl, rfl⟩ (fun _ => nofun)
    | exact ends_dot
    | exact ends_dotDot
    | exact ends_slash
    | exact ends_oneOrTwo rfl (by decide) rfl (by decide)
    | exact ends_twoOrTwo rfl (by decide) rfl (by decide) (by decide)

/-! ## Tokens -/

/-- An integer literal that a fraction would make a float. -/
def Token.isOpen (token : Token) : Bool :=
  (peek token.lexeme).isDigit && openInteger (peek token.lexeme) token.lexeme.tail

/-- The text does not go on with the token. -/
structure Stops (token : Token) (rest : Text) : Prop where
  word : isIdentContinue (peek token.lexeme) = true → Halts rest
  fraction : token.isOpen = true → startsFraction .decimal rest = false
  mark : token ∈ marks → ∀ c ∈ extensions token.kind, rest.head? ≠ some c

lemma isMark_of_mem_marks (h : token ∈ marks) :
    isMark (peek token.lexeme) = true := by
  simp only [marks, List.mem_cons, List.not_mem_nil, or_false] at h
  casesm* _ ∨ _
  all_goals
    subst h
    rfl

lemma isIdentContinue_of_isMark (h : isMark c = true) : isIdentContinue c = false := by
  simp only [isMark, Bool.and_eq_true, Bool.not_eq_true'] at h
  simp [isIdentContinue, h]

lemma isWhitespace_of_isIdentContinue (h : isIdentContinue c = true) :
    isWhitespace c = false := by
  by_contra hspace
  simp only [isWhitespace, List.mem_cons, List.not_mem_nil, or_false, Bool.not_eq_false,
    decide_eq_true_eq] at hspace
  rcases hspace with rfl | rfl | rfl | rfl | rfl | rfl <;> exact absurd h (by decide)

lemma skip_space_of_isIdentContinue (h : isIdentContinue c = true) (text : Text) :
    skip .space (c :: text) = (c :: text, true) := by
  have hslash : c ≠ '/' := by
    rintro rfl
    exact absurd h (by decide)
  exact skip_space_of_token (isWhitespace_of_isIdentContinue h) fun hc => absurd hc hslash

lemma not_mem_marks (h : isIdentContinue (peek token.lexeme) = true) :
    token ∉ marks := by
  intro hmem
  exact absurd (h.symm.trans (isIdentContinue_of_isMark (isMark_of_mem_marks hmem))) (by decide)

lemma isIdentStart_of_isDigit (h : c.isDigit = true) : isIdentStart c = false := by
  have hunderscore : c ≠ '_' := by
    rintro rfl
    exact absurd h (by decide)
  have halpha : c.isAlpha = false := by
    have hle : c.val.toNat ≤ 57 :=
      UInt32.le_iff_toNat_le.mp (of_decide_eq_true (Bool.and_eq_true_iff.mp h).2)
    refine Bool.or_eq_false_iff.mpr ⟨decide_eq_false fun hc => ?_,
      Bool.and_eq_false_iff.mpr (.inl (decide_eq_false fun hc => ?_))⟩
    · have hge : 65 ≤ c.val.toNat := UInt32.le_iff_toNat_le.mp hc.1
      omega
    · have hge : 97 ≤ c.val.toNat := UInt32.le_iff_toNat_le.mp hc
      omega
  simp [isIdentStart, halpha, hunderscore]

lemma ends_word (h : isIdentStart c = true) :
    Ends ⟨kind, c :: text⟩ rest ↔ identifier c (text ++ rest) = ⟨kind, rest, true⟩ := by
  have hscan : ∀ text, scan c text = identifier c text := fun text => if_pos h
  constructor
  · rintro ⟨c', text', hlexeme, -, h⟩
    obtain ⟨rfl, rfl⟩ := List.cons.inj hlexeme
    rwa [hscan] at h
  · exact fun hread =>
      ⟨c, text, rfl, skip_space_of_isIdentContinue (inside_isIdentStart c h) _, (hscan _).trans hread⟩

lemma ends_number (hstart : isIdentStart c = false) (h : c.isDigit = true) :
    Ends ⟨kind, c :: text⟩ rest ↔ integer c (text ++ rest) = ⟨kind, rest, true⟩ := by
  have hscan : ∀ text, scan c text = integer c text := by
    intro text
    rw [scan, if_neg (by simp [hstart]), if_pos h]
  constructor
  · rintro ⟨c', text', hlexeme, -, h⟩
    obtain ⟨rfl, rfl⟩ := List.cons.inj hlexeme
    rwa [hscan] at h
  · exact fun hread =>
      ⟨c, text, rfl, skip_space_of_isIdentContinue (inside_isDigit c h) _, (hscan _).trans hread⟩

lemma ends_quote (h : c = '"' ∨ c = '\'') :
    Ends ⟨kind, c :: text⟩ rest ↔ Ends ⟨kind, c :: text⟩ [] := by
  rcases h with rfl | rfl
  · rw [ends_of_isMark rfl (by decide), ends_of_isMark rfl (by decide), List.append_nil]
    exact quoted_append
  · rw [ends_of_isMark rfl (by decide), ends_of_isMark rfl (by decide), List.append_nil]
    exact quoted_append

/-- What ends is a word, a number, a literal or a mark. -/
lemma Ends.cases (h : Ends token rest) :
    isIdentContinue (peek token.lexeme) = true ∨ peek token.lexeme = '"' ∨
      peek token.lexeme = '\'' ∨ token ∈ marks := by
  obtain ⟨c, text, hlexeme, hskip, hscan⟩ := h
  obtain ⟨kind, lexeme⟩ := token
  obtain rfl : lexeme = c :: text := hlexeme
  rw [peek_cons]
  by_cases hword : isIdentContinue c = true
  · exact .inl hword
  · simp only [isIdentContinue, Bool.or_eq_true, not_or, Bool.not_eq_true] at hword
    rw [scan, if_neg (by simp [hword.1]), if_neg (by simp [hword.2])] at hscan
    exact .inr (mem_marks_of_punctuation hscan)

lemma stops_of_not_word (hword : isIdentContinue (peek token.lexeme) = false) :
    Stops token rest ↔ (token ∈ marks → ∀ c ∈ extensions token.kind, rest.head? ≠ some c) := by
  refine ⟨Stops.mark, fun hmark => ⟨fun h => absurd (h.symm.trans hword) (by decide), ?_, hmark⟩⟩
  intro h
  rw [Token.isOpen, Bool.and_eq_true] at h
  exact absurd ((inside_isDigit _ h.1).symm.trans hword) (by decide)

/-- A word or a number. -/
lemma ends_iff_of_isIdentContinue (h : isIdentContinue (peek token.lexeme) = true) :
    Ends token rest ↔ Ends token [] ∧ Stops token rest := by
  have hmark := not_mem_marks h
  obtain ⟨kind, _ | ⟨c, text⟩⟩ := token
  · exact absurd h nofun
  have hstops : Stops ⟨kind, c :: text⟩ rest ↔ Halts rest ∧
      ((⟨kind, c :: text⟩ : Token).isOpen = true → startsFraction .decimal rest = false) :=
    ⟨fun hstops => ⟨hstops.word h, hstops.fraction⟩,
      fun hstops => ⟨fun _ => hstops.1, hstops.2, fun hmem => absurd hmem hmark⟩⟩
  rw [hstops]
  by_cases hstart : isIdentStart c = true
  · have hdigit : c.isDigit = false := by
      by_contra hdigit
      have hdigit' : c.isDigit = true := by simpa using hdigit
      exact absurd (isIdentStart_of_isDigit hdigit' ▸ hstart) (by decide)
    rw [ends_word hstart, ends_word hstart, List.append_nil, identifier_append]
    simp [Token.isOpen, hdigit]
  · have hstart' : isIdentStart c = false := by simpa using hstart
    have hdigit : c.isDigit = true := by simpa [isIdentContinue, hstart'] using h
    rw [ends_number hstart' hdigit, ends_number hstart' hdigit, List.append_nil, integer_append]
    simp [Token.isOpen, hdigit]

/-- **A token ends where it can end at all and the text does not go on with it.** -/
theorem ends_iff :
    Ends token rest ↔ Ends token [] ∧ Stops token rest := by
  have hcases : (isIdentContinue (peek token.lexeme) = true ∨ peek token.lexeme = '"' ∨
      peek token.lexeme = '\'' ∨ token ∈ marks) →
      (Ends token rest ↔ Ends token [] ∧ Stops token rest) := by
    intro h
    by_cases hword : isIdentContinue (peek token.lexeme) = true
    · exact ends_iff_of_isIdentContinue hword
    · rw [stops_of_not_word (by simpa using hword)]
      by_cases hmem : token ∈ marks
      · rw [ends_of_mem_marks hmem, ends_of_mem_marks hmem]
        simp [hmem]
      · have hquote : peek token.lexeme = '"' ∨ peek token.lexeme = '\'' := by tauto
        obtain ⟨kind, _ | ⟨c, text⟩⟩ := token
        · exact absurd hquote (by simp)
        · rw [peek_cons] at hquote
          rw [ends_quote hquote]
          simp [hmem]
  constructor
  · exact fun h => (hcases h.cases).mp h
  · exact fun h => (hcases h.1.cases).mpr h

end ModernC.Lexer
