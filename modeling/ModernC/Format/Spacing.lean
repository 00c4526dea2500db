import ModernC.Format.Formatter
import ModernC.Lexer.Loop

/-!
# Tokens next to each other

The formatter puts no space between some tokens.  Most of them stay apart without one; the ones
that do not are dots next to dots, a colon before colons, and an integer, a dot and digits.
-/

namespace ModernC.Format

open ModernC.Parser (Kind)
open Lexer
open Specialize (isIdentStart isIdentContinue)

/-- Two tokens that become others when nothing stands between them; `next` is the one behind. -/
def joins (prev cur : Token) (next : Option Token) : Bool :=
  (prev.kind == .dot && cur.kind ∈ [.dot, .dotDot, .dotDotDot]) ||
    (prev.kind == .dotDot && cur.kind == .dot) ||
    (prev.kind == .colon && cur.kind ∈ [.colon, .doubleColon]) ||
    (prev.isOpen && cur.kind == .dot && next.any fun token => (peek token.lexeme).isDigit)

/-- No two tokens in a row join. -/
def apart : List Token → Bool
  | prev :: cur :: tokens => !joins prev cur tokens.head? && apart (cur :: tokens)
  | _ => true

/-! ## Kinds of tokens -/

lemma isWordLike_of_lookup {lexeme : Text} {kind : Kind} (h : keywordKind lexeme = some kind) :
    isWordLike kind = true := by
  have hall : ∀ entry ∈ keywords, isWordLike entry.2 = true := by decide
  obtain ⟨front, back, hkeywords, -⟩ := List.lookup_eq_some_iff.mp h
  exact hall (lexeme, kind) (hkeywords ▸ by simp)

lemma isWordLike_wordKind (lexeme : Text) : isWordLike (wordKind lexeme) = true := by
  rw [wordKind]
  split
  · rfl
  · split
    · rfl
    · rcases hkind : keywordKind lexeme with _ | kind
      · rfl
      · exact isWordLike_of_lookup hkind

variable {rest : Text}

variable {token : Token}

/-- A token that is no mark has the kind of a word or a literal. -/
lemma mem_marks_or_isWordLike (h : Ends token rest) :
    token ∈ marks ∨ isWordLike token.kind = true ∧
      (isIdentContinue (peek token.lexeme) = true ∨ peek token.lexeme = '"' ∨
        peek token.lexeme = '\'') := by
  have hends := (ends_iff.mp h).1
  obtain ⟨kind, _ | ⟨c, text⟩⟩ := token
  · obtain ⟨c, text, hnil, -⟩ := hends
    exact absurd hnil (by simp)
  rcases h.cases with hword | hquote | hquote | hmem
  · refine .inr ⟨?_, .inl hword⟩
    by_cases hstart : isIdentStart c = true
    · rw [ends_word hstart, List.append_nil] at hends
      obtain rfl := (scan_mk_eq.mp hends).1
      exact isWordLike_wordKind _
    · have hstart' : isIdentStart c = false := by simpa using hstart
      have hdigit : c.isDigit = true := by simpa [isIdentContinue, hstart'] using hword
      rw [ends_number hstart' hdigit, List.append_nil, integer_eq] at hends
      obtain rfl := (scan_mk_eq.mp hends).1
      have hkind : ∀ isFloat : Bool,
          isWordLike (if isFloat then .floatLiteral else .integerLiteral) = true := by decide
      exact hkind _
  · refine .inr ⟨?_, .inr (.inl hquote)⟩
    obtain rfl : c = '"' := hquote
    rw [ends_of_isMark rfl (by decide), List.append_nil] at hends
    rw [quoted_kind hends]
    rfl
  · refine .inr ⟨?_, .inr (.inr hquote)⟩
    obtain rfl : c = '\'' := hquote
    rw [ends_of_isMark rfl (by decide), List.append_nil] at hends
    rw [quoted_kind hends]
    rfl
  · exact .inl hmem

lemma ne_of_isWordLike {kind other : Kind} (h : isWordLike kind = true)
    (hother : isWordLike other = false) : kind ≠ other := by
  rintro rfl
  exact absurd (h.symm.trans hother) (by decide)

variable {prev : Kind} {cur : Token}

/-- Words are kept apart. -/
lemma needsSpace_of_isWordLike {cur : Kind} (hprev : isWordLike prev = true)
    (hcur : isWordLike cur = true) : needsSpace prev cur = true := by
  have hne : ∀ {kind : Kind}, isWordLike kind = false → prev ≠ kind ∧ cur ≠ kind :=
    fun h => ⟨ne_of_isWordLike hprev h, ne_of_isWordLike hcur h⟩
  have hparen := hne (rfl : isWordLike .lParen = false)
  have hbracket := hne (rfl : isWordLike .lBracket = false)
  have hbrace := hne (rfl : isWordLike .lBrace = false)
  have hparen' := hne (rfl : isWordLike .rParen = false)
  have hbracket' := hne (rfl : isWordLike .rBracket = false)
  have hbrace' := hne (rfl : isWordLike .rBrace = false)
  have hcomma := hne (rfl : isWordLike .comma = false)
  have hsemicolon := hne (rfl : isWordLike .semicolon = false)
  have hdot := hne (rfl : isWordLike .dot = false)
  have hcolon := hne (rfl : isWordLike .colon = false)
  have hcolons := hne (rfl : isWordLike .doubleColon = false)
  have hhash := hne (rfl : isWordLike .hash = false)
  have hat := hne (rfl : isWordLike .at = false)
  simp [needsSpace, hparen, hbracket, hbrace, hparen', hbracket', hbrace', hcomma, hsemicolon,
    hdot, hcolon, hcolons, hhash, hat]

lemma isWordLike_of_mem_marks (h : token ∈ marks) :
    isWordLike token.kind = false := by
  have hall : ∀ token ∈ marks, isWordLike token.kind = false := by decide
  exact hall token h

/-! ## Marks next to marks -/

lemma joins_marks : ∀ prev ∈ marks, ∀ cur ∈ marks,
    joins prev cur none = true ↔
      peek cur.lexeme ∈ extensions prev.kind ∧ needsSpace prev.kind cur.kind = false := by
  decide

/-- Only a closing brace is kept apart from a dot. -/
lemma needsSpace_dot {cur : Kind} (h : cur ≠ .rBrace) : needsSpace .dot cur = false := by
  by_cases hclose : cur ∈ [.rParen, .rBracket, .comma, .semicolon]
  · simp [needsSpace, hclose]
  · by_cases hopen : cur = .lBrace
    · simp [needsSpace, hopen]
    · simp [needsSpace, hclose, hopen, h]

lemma Ends.lexeme_eq (h : Ends token rest) :
    ∃ text, token.lexeme = peek token.lexeme :: text := by
  obtain ⟨c, text, hlexeme, -⟩ := h
  exact ⟨text, by rw [hlexeme, peek_cons]⟩

lemma isOpen_of_mem_marks (h : token ∈ marks) : token.isOpen = false := by
  have hmark := isMark_of_mem_marks h
  simp only [isMark, Bool.and_eq_true, Bool.not_eq_true'] at hmark
  rw [Token.isOpen, hmark.1.2, Bool.false_and]

/-- Marks join whatever comes behind. -/
lemma joins_of_mem_marks {prev : Token} (h : prev ∈ marks) (next : Option Token) :
    joins prev cur next = joins prev cur none := by
  simp [joins, isOpen_of_mem_marks h]

lemma joins_of_isWordLike {prev : Token} (h : isWordLike prev.kind = true) (next : Option Token) :
    joins prev cur next =
      (prev.isOpen && cur.kind == .dot && next.any fun token => (peek token.lexeme).isDigit) := by
  have hdot := ne_of_isWordLike h (rfl : isWordLike .dot = false)
  have hdots := ne_of_isWordLike h (rfl : isWordLike .dotDot = false)
  have hcolon := ne_of_isWordLike h (rfl : isWordLike .colon = false)
  simp [joins, beq_eq_false_iff_ne.mpr hdot, beq_eq_false_iff_ne.mpr hdots,
    beq_eq_false_iff_ne.mpr hcolon]

lemma needsSpace_dot_of_ne (h : prev ≠ .lBrace) : needsSpace prev .dot = false := by
  simp [needsSpace, h]

lemma head?_spacedAfter (tokens : List Token)
    (hcur : Ends cur rest) (hspace : needsSpace prev cur.kind = false) :
    (spacedAfter prev (cur :: tokens)).head? = some (peek cur.lexeme) := by
  obtain ⟨text, hlexeme⟩ := Ends.lexeme_eq hcur
  rw [spacedAfter, hspace, hlexeme]
  rfl

variable {tokens : List Token}

lemma peek_spacedAfter (hcur : Ends cur rest) (hspace : needsSpace prev cur.kind = false) :
    peek (spacedAfter prev (cur :: tokens)) = peek cur.lexeme := by
  have hhead := head?_spacedAfter tokens hcur hspace
  rw [peek, List.headD_eq_head?_getD, hhead]
  rfl

/-- A mark is no start of a word or a number. -/
lemma isDigit_of_mem_marks (h : token ∈ marks) :
    (peek token.lexeme).isDigit = false := by
  have hmark := isMark_of_mem_marks h
  simp only [isMark, Bool.and_eq_true, Bool.not_eq_true'] at hmark
  exact hmark.1.2

/-- What comes behind a dot goes on with a number if a digit starts it. -/
lemma isDigit_spacedAfter_dot (h : ∀ token ∈ tokens, Ends token []) :
    (peek (spacedAfter .dot tokens)).isDigit =
      tokens.head?.any fun token => (peek token.lexeme).isDigit := by
  rcases tokens with _ | ⟨next, tokens⟩
  · rfl
  · have hnext := h next List.mem_cons_self
    rw [List.head?_cons, Option.any_some]
    by_cases hspace : needsSpace .dot next.kind = true
    · have hblank : (peek (spacedAfter .dot (next :: tokens))).isDigit = false := by
        rw [spacedAfter, if_pos hspace]
        rfl
      rw [hblank]
      rcases mem_marks_or_isWordLike hnext with hmem | ⟨hword, -⟩
      · exact (isDigit_of_mem_marks hmem).symm
      · have hnone := needsSpace_dot (ne_of_isWordLike hword (rfl : isWordLike .rBrace = false))
        exact absurd (hspace.symm.trans hnone) (by decide)
    · rw [peek_spacedAfter hnext (by simpa using hspace)]

/-! ## Every two tokens -/

/-- A word joins nothing in front of it. -/
lemma joins_eq_false_of_isWordLike {prev : Token} (h : isWordLike cur.kind = true)
    (next : Option Token) : joins prev cur next = false := by
  have hdot := ne_of_isWordLike h (rfl : isWordLike .dot = false)
  have hdots := ne_of_isWordLike h (rfl : isWordLike .dotDot = false)
  have hellipsis := ne_of_isWordLike h (rfl : isWordLike .dotDotDot = false)
  have hcolon := ne_of_isWordLike h (rfl : isWordLike .colon = false)
  have hcolons := ne_of_isWordLike h (rfl : isWordLike .doubleColon = false)
  simp [joins, hdot, hdots, hellipsis, hcolon, hcolons, beq_eq_false_iff_ne.mpr hdot]

/-- There is no space between tokens that join. -/
lemma needsSpace_of_joins {prev : Token} {next : Option Token} (hprev : Ends prev [])
    (hcur : Ends cur []) (h : joins prev cur next = true) :
    needsSpace prev.kind cur.kind = false := by
  rcases mem_marks_or_isWordLike hprev with hmem | ⟨hword, -⟩
  · rcases mem_marks_or_isWordLike hcur with hmem' | ⟨hword', -⟩
    · rw [joins_of_mem_marks hmem] at h
      exact ((joins_marks prev hmem cur hmem').mp h).2
    · exact absurd (h.symm.trans (joins_eq_false_of_isWordLike hword' next)) (by decide)
  · rw [joins_of_isWordLike hword] at h
    simp only [Bool.and_eq_true, beq_iff_eq] at h
    rw [h.1.2]
    exact needsSpace_dot_of_ne (ne_of_isWordLike hword (rfl : isWordLike .lBrace = false))

/-- Only dots and colons are spelled so, and no other mark starts a fraction. -/
lemma marks_spelled : ∀ mark ∈ marks,
    (mark.kind = .dot → mark.lexeme = ['.']) ∧ (mark.kind = .dotDot → mark.lexeme = ['.', '.']) ∧
      (mark.kind = .colon → mark.lexeme = [':']) ∧
      (mark.kind ≠ .dot → peek mark.lexeme ≠ '.' ∨ mark.lexeme.tail.head? = some '.') := by
  decide

/-- The fraction that an integer, a dot and digits are taken for. -/
lemma startsFraction_spacedAfter (hcur : cur ∈ marks) (htokens : ∀ token ∈ tokens, Ends token [])
    (hspace : needsSpace prev cur.kind = false) :
    startsFraction .decimal (spacedAfter prev (cur :: tokens)) =
      (cur.kind == .dot && tokens.head?.any fun token => (peek token.lexeme).isDigit) := by
  have htext : spacedAfter prev (cur :: tokens) = cur.lexeme ++ spacedAfter cur.kind tokens := by
    rw [spacedAfter, hspace]
    rfl
  rw [htext]
  by_cases hdot : cur.kind = .dot
  · rw [(marks_spelled cur hcur).1 hdot, hdot, ← isDigit_spacedAfter_dot htokens]
    rfl
  · rw [beq_eq_false_iff_ne.mpr hdot, Bool.false_and]
    rcases (marks_spelled cur hcur).2.2.2 hdot with hpeek | htail
    · have hends : Ends cur [] := (ends_of_mem_marks hcur).mpr (by simp)
      obtain ⟨text, hlexeme⟩ := Ends.lexeme_eq hends
      rw [hlexeme, List.cons_append, startsFraction, peek_cons, beq_eq_false_iff_ne.mpr hpeek]
      rfl
    · rcases hlexeme : cur.lexeme with _ | ⟨c, text⟩
      · rw [hlexeme] at htail
        exact absurd htail (by simp)
      · rw [hlexeme, List.tail_cons] at htail
        obtain ⟨text, rfl⟩ := List.head?_eq_some_iff.mp htail
        rw [startsFraction, Bool.and_eq_false_iff]
        exact .inr rfl

lemma not_mem_extensions {c : Char} (h : isIdentContinue c = true ∨ c = '"' ∨ c = '\'')
    (kind : Kind) : c ∉ extensions kind := by
  intro hmem
  unfold extensions at hmem
  split at hmem
  all_goals simp only [List.mem_cons, List.not_mem_nil, or_false] at hmem
  all_goals first
    | obtain rfl := hmem
      exact absurd h (by decide)
    | rcases hmem with rfl | rfl <;> exact absurd h (by decide)

/-- **A token ends in front of the spaced tokens behind it unless it joins the next.** -/
theorem ends_spacedAfter {prev : Token} (hprev : Ends prev [])
    (hcur : Ends cur []) (htokens : ∀ token ∈ tokens, Ends token []) :
    Ends prev (spacedAfter prev.kind (cur :: tokens)) ↔ joins prev cur tokens.head? = false := by
  by_cases hspace : needsSpace prev.kind cur.kind = true
  · refine iff_of_true ?_ (Bool.eq_false_iff.mpr fun hjoins =>
      absurd (hspace.symm.trans (needsSpace_of_joins hprev hcur hjoins)) (by decide))
    rw [spacedAfter, if_pos hspace]
    exact (blank_cons rfl _).ends_append.mpr hprev
  · have hspace' : needsSpace prev.kind cur.kind = false := by simpa using hspace
    have hhead := head?_spacedAfter tokens hcur hspace'
    rw [ends_iff.trans (and_iff_right hprev)]
    rcases mem_marks_or_isWordLike hprev with hmem | ⟨hword, -⟩
    · rw [stops_of_not_word (isIdentContinue_of_isMark (isMark_of_mem_marks hmem)), hhead,
        joins_of_mem_marks hmem]
      rcases mem_marks_or_isWordLike hcur with hmem' | ⟨hword', hchar⟩
      · have hjoins := joins_marks prev hmem cur hmem'
        rw [Bool.eq_false_iff, Ne, hjoins]
        constructor
        · exact fun hstops hmem'' => hstops hmem _ hmem''.1 rfl
        · rintro hnot - c hc heq
          obtain rfl := Option.some.inj heq
          exact hnot ⟨hc, hspace'⟩
      · refine iff_of_true (fun _ c hc heq => ?_) (joins_eq_false_of_isWordLike hword' none)
        obtain rfl := Option.some.inj heq
        exact not_mem_extensions hchar _ hc
    · rcases mem_marks_or_isWordLike hcur with hmem' | ⟨hword', -⟩
      · have hnot : prev ∉ marks := fun hmem =>
          absurd (hword.symm.trans (isWordLike_of_mem_marks hmem)) (by decide)
        have hhalts : Halts (spacedAfter prev.kind (cur :: tokens)) := by
          rw [Halts, peek_spacedAfter hcur hspace']
          exact isIdentContinue_of_isMark (isMark_of_mem_marks hmem')
        rw [joins_of_isWordLike hword, Bool.and_assoc,
          ← startsFraction_spacedAfter hmem' htokens hspace']
        constructor
        · intro hstops
          rcases hopen : prev.isOpen with _ | _
          · rfl
          · exact hstops.fraction hopen
        · intro hjoins
          refine ⟨fun _ => hhalts, fun hopen => ?_, fun hmem => absurd hmem hnot⟩
          rwa [hopen, Bool.true_and] at hjoins
      · exact absurd (needsSpace_of_isWordLike hword hword') hspace

/-! ## Spaced tokens -/

lemma spacedAfter_cons (prev : Kind) (token : Token) (tokens : List Token) :
    spacedAfter prev (token :: tokens) =
      (if needsSpace prev token.kind then [' '] else []) ++ spaced (token :: tokens) := rfl

/-- Tokens that stay apart are read back. -/
theorem run_spaced (h : ∀ token ∈ tokens, Ends token [])
    (hapart : apart tokens = true) : Run .space (spaced tokens) tokens .space := by
  induction tokens with
  | nil => exact .done _
  | cons prev tokens ih =>
    have hprev := h prev List.mem_cons_self
    have htail : ∀ token ∈ tokens, Ends token [] :=
      fun token htoken => h token (List.mem_cons_of_mem prev htoken)
    rcases tokens with _ | ⟨cur, tokens⟩
    · exact .token hprev (.done _)
    · simp only [apart, Bool.and_eq_true, Bool.not_eq_true'] at hapart
      refine .token ((ends_spacedAfter hprev (htail cur List.mem_cons_self)
        fun token htoken => htail token (List.mem_cons_of_mem cur htoken)).mpr hapart.1) ?_
      have hrest := ih htail hapart.2
      rw [spacedAfter_cons]
      split
      · exact .space rfl hrest
      · exact hrest

/-! ## Joined tokens -/

lemma isFloat_exponent {base : IntegerBase} {number : Number} (h : number.isFloat = true) :
    (exponent base number).isFloat = true := by
  rw [exponent]
  split
  · rfl
  · exact h

variable {text : Text}

/-- An open integer is an integer by itself. -/
lemma integer_of_openInteger {first : Char} (hopen : openInteger first text = true) :
    (integer first text).kind = .integerLiteral := by
  simp only [openInteger, Bool.and_eq_true, beq_iff_eq, List.isEmpty_iff] at hopen
  obtain ⟨hbase, hnil⟩ := hopen
  have hnumber : (numberAfter .decimal (digitsOf first text)).isFloat = false := by
    rw [numberAfter, hnil, isFloat_numberSuffix]
    rfl
  rw [integer_eq, hbase, hnumber]
  rfl

/-- In front of a fraction it is a float. -/
lemma float_of_openInteger {first : Char}
    (hopen : openInteger first text = true) (hhalts : Halts rest)
    (hstarts : startsFraction .decimal rest = true) :
    (integer first (text ++ rest)).kind = .floatLiteral := by
  simp only [openInteger, Bool.and_eq_true, beq_iff_eq, List.isEmpty_iff] at hopen
  obtain ⟨hbase, hnil⟩ := hopen
  have hbase' : baseOf first (text ++ rest) = .decimal := by
    rw [← hbase, baseOf, baseOf, isHex_append hhalts]
  have hdigits : (digitsOf first (text ++ rest)).rest = rest := by
    rw [digitsOf_append hhalts, Digits.append, hnil, List.nil_append]
  have hnumber : (numberAfter .decimal (digitsOf first (text ++ rest))).isFloat = true := by
    rw [numberAfter, isFloat_numberSuffix, hdigits]
    refine isFloat_exponent ?_
    simp only [fraction, hstarts, if_true]
  rw [integer_eq, hbase', hnumber]
  rfl

lemma lexIn_head {c : Char} (text : Text) (line : ℕ) (hspace : isWhitespace c = false)
    (hslash : c ≠ '/') :
    ∃ lexeme more, (lexIn .space line (c :: text)).tokens.map Prod.snd =
      ⟨(scan c text).kind, lexeme⟩ :: more := by
  rw [lexIn_eq, skip_space_of_token hspace fun hc => absurd hc hslash]
  exact ⟨_, _, rfl⟩

lemma scan_dot (h : text.head? = some '.') : (scan '.' text).kind ≠ .dot := by
  obtain ⟨text, rfl⟩ := List.head?_eq_some_iff.mp h
  have hscan : scan '.' ('.' :: text) = oneOrTwo '.' .dotDotDot .dotDot text := rfl
  rw [hscan, oneOrTwo]
  split <;> simp

lemma scan_dotDot (h : text.head? = some '.') :
    (scan '.' ('.' :: text)).kind ≠ .dotDot := by
  have hscan : scan '.' ('.' :: text) = oneOrTwo '.' .dotDotDot .dotDot text := rfl
  rw [hscan, oneOrTwo, if_pos h]
  simp

lemma scan_colon (h : text.head? = some ':') : (scan ':' text).kind ≠ .colon := by
  have hscan : scan ':' text = oneOrTwo ':' .doubleColon .colon text := rfl
  rw [hscan, oneOrTwo, if_pos h]
  simp

/-- A mark in front of what it joins is read as a longer one. -/
lemma scan_of_joined_mark {prev : Token} (hprev : prev ∈ marks)
    (hcur : Ends cur []) (hjoins : joins prev cur none = true)
    (hrest : rest.head? = some (peek cur.lexeme)) :
    ∃ c text, prev.lexeme = c :: text ∧ isWhitespace c = false ∧ c ≠ '/' ∧
      (scan c (text ++ rest)).kind ≠ prev.kind := by
  have hmem : cur ∈ marks := by
    rcases mem_marks_or_isWordLike hcur with hmem | ⟨hword, -⟩
    · exact hmem
    · exact absurd (hjoins.symm.trans (joins_eq_false_of_isWordLike hword none)) (by decide)
  have hext := ((joins_marks prev hprev cur hmem).mp hjoins).1
  have hkind : prev.kind = .dot ∨ prev.kind = .dotDot ∨ prev.kind = .colon := by
    simp only [joins, Bool.or_eq_true, Bool.and_eq_true, beq_iff_eq, Option.any_none,
      Bool.and_false, Bool.false_eq_true, or_false] at hjoins
    tauto
  rcases hkind with hkind | hkind | hkind
  · rw [hkind, extensions, List.mem_singleton] at hext
    refine ⟨'.', [], (marks_spelled prev hprev).1 hkind, rfl, by decide, ?_⟩
    rw [hkind]
    exact scan_dot (hext ▸ hrest)
  · rw [hkind, extensions, List.mem_singleton] at hext
    refine ⟨'.', ['.'], (marks_spelled prev hprev).2.1 hkind, rfl, by decide, ?_⟩
    rw [hkind]
    exact scan_dotDot (hext ▸ hrest)
  · rw [hkind, extensions, List.mem_singleton] at hext
    refine ⟨':', [], (marks_spelled prev hprev).2.2.1 hkind, rfl, by decide, ?_⟩
    rw [hkind]
    exact scan_colon (hext ▸ hrest)

/-- So is an integer in front of what is taken for its fraction. -/
lemma scan_of_open {prev : Token} (hprev : Ends prev []) (hopen : prev.isOpen = true)
    (hhalts : Halts rest) (hstarts : startsFraction .decimal rest = true) :
    ∃ c text, prev.lexeme = c :: text ∧ isWhitespace c = false ∧ c ≠ '/' ∧
      (scan c (text ++ rest)).kind ≠ prev.kind := by
  obtain ⟨kind, _ | ⟨c, text⟩⟩ := prev
  · exact absurd hopen nofun
  rw [Token.isOpen, Bool.and_eq_true] at hopen
  obtain ⟨hdigit, hopen⟩ : c.isDigit = true ∧ openInteger c text = true := hopen
  have hstart := isIdentStart_of_isDigit hdigit
  have hword : isIdentContinue c = true := inside_isDigit c hdigit
  rw [ends_number hstart hdigit, List.append_nil] at hprev
  have hkind : kind = .integerLiteral :=
    (congrArg Scan.kind hprev).symm.trans (integer_of_openInteger hopen)
  refine ⟨c, text, rfl, isWhitespace_of_isIdentContinue hword, ?_, ?_⟩
  · rintro rfl
    exact absurd hword (by decide)
  · have hscan : scan c (text ++ rest) = integer c (text ++ rest) := by
      rw [scan, if_neg (by simp [hstart]), if_pos hdigit]
    rw [hscan, float_of_openInteger hopen hhalts hstarts, hkind]
    simp

lemma halts_of_startsFraction (h : startsFraction .decimal rest = true) :
    Halts rest := by
  simp only [startsFraction, Bool.and_eq_true, beq_iff_eq] at h
  rw [Halts, h.1.2]
  rfl

/-- A token that joins the next is read as another. -/
lemma scan_of_joins {prev : Token} (hprev : Ends prev [])
    (hcur : Ends cur []) (htokens : ∀ token ∈ tokens, Ends token [])
    (hjoins : joins prev cur tokens.head? = true) (hrest : Blank rest) :
    ∃ c text, prev.lexeme = c :: text ∧ isWhitespace c = false ∧ c ≠ '/' ∧
      (scan c (text ++ (spacedAfter prev.kind (cur :: tokens) ++ rest))).kind ≠ prev.kind := by
  have hspace := needsSpace_of_joins hprev hcur hjoins
  rcases mem_marks_or_isWordLike hprev with hmem | ⟨hword, -⟩
  · rw [joins_of_mem_marks hmem] at hjoins
    refine scan_of_joined_mark hmem hcur hjoins ?_
    rw [List.head?_append, head?_spacedAfter tokens hcur hspace, Option.some_or]
  · rw [joins_of_isWordLike hword] at hjoins
    simp only [Bool.and_eq_true, beq_iff_eq] at hjoins
    obtain ⟨⟨hopen, hdot⟩, hdigit⟩ := hjoins
    have hmem : cur ∈ marks := by
      rcases mem_marks_or_isWordLike hcur with hmem | ⟨hword', -⟩
      · exact hmem
      · exact absurd hdot (ne_of_isWordLike hword' rfl)
    have hstarts : startsFraction .decimal (spacedAfter prev.kind (cur :: tokens) ++ rest) =
        true := by
      rw [hrest.startsFraction_append, startsFraction_spacedAfter hmem htokens hspace, hdot, hdigit]
      rfl
    exact scan_of_open hprev hopen (halts_of_startsFraction hstarts) hstarts

/-- **Joined tokens are not read back.** -/
theorem lexIn_spaced_ne (h : ∀ token ∈ tokens, Ends token [])
    (hapart : apart tokens = false) (hrest : Blank rest) (line : ℕ) (more : List Token) :
    (lexIn .space line (spaced tokens ++ rest)).tokens.map Prod.snd ≠ tokens ++ more := by
  induction tokens generalizing more with
  | nil => exact absurd hapart (by decide)
  | cons prev tokens ih =>
    have hprev := h prev List.mem_cons_self
    have htail : ∀ token ∈ tokens, Ends token [] :=
      fun token htoken => h token (List.mem_cons_of_mem prev htoken)
    rcases tokens with _ | ⟨cur, tokens⟩
    · exact absurd hapart (by simp [apart])
    have hcur := htail cur List.mem_cons_self
    have htokens : ∀ token ∈ tokens, Ends token [] :=
      fun token htoken => htail token (List.mem_cons_of_mem cur htoken)
    rw [spaced, List.append_assoc]
    rcases hjoins : joins prev cur tokens.head? with _ | _
    · have hends := (ends_spacedAfter hprev hcur htokens).mpr hjoins
      have hspace : lexIn .space line (spacedAfter prev.kind (cur :: tokens) ++ rest) =
          lexIn .space line (spaced (cur :: tokens) ++ rest) := by
        rw [spacedAfter_cons]
        split
        · exact lexIn_of_skip_line line (by decide : '\n' ∉ [' ']) (skip_space_cons rfl _)
        · rfl
      rw [lexIn_token (hrest.ends_append.mpr hends) line, hspace]
      intro heq
      refine ih htail ?_ more (List.cons.inj heq).2
      simpa [apart, hjoins] using hapart
    · obtain ⟨c, text, hlexeme, hblank, hslash, hkind⟩ :=
        scan_of_joins hprev hcur htokens hjoins hrest
      intro heq
      rw [hlexeme, List.cons_append] at heq
      obtain ⟨lexeme, others, hhead⟩ := lexIn_head
        (text ++ (spacedAfter prev.kind (cur :: tokens) ++ rest)) line hblank hslash
      rw [hhead] at heq
      exact hkind (congrArg Token.kind (List.cons.inj heq).1)

end ModernC.Format
