import ModernC.Framework.Escapes
import ModernC.Lexer.IntegerAgreement

/-!
# The readers of string literals

The lexer finds the end of a literal, `decodeInto` writes its value to storage, and
`stringLiteralByteLen` counts the bytes of the value.  All three read one grammar of escapes.
-/

namespace ModernC.Lexer

open Framework (Spells)
open ModernC.Parser (Kind)
open Specialize (isIdentStart isIdentContinue)

/-! ## Decoding -/

/-- Why `decodeInto` stops.  A write behind the end of the storage is a trap. -/
inductive DecodeError where
  | invalidStringLiteral
  | invalidEscapeSequence
  | outOfBounds
deriving DecidableEq

/-- What the byte behind a backslash stands for. -/
def unescape : Char → Option Char
  | '\\' => some '\\'
  | '\'' => some '\''
  | '"' => some '"'
  | '0' => some '\x00'
  | 'n' => some '\n'
  | 'r' => some '\r'
  | 't' => some '\t'
  | _ => none

/-- What is between the quotes of a literal. -/
def literalBody (literal : Text) : Text := (literal.drop 1).take (literal.length - 2)

/-- A literal of two bytes at least, with a quote at either end. -/
def isQuoted (literal : Text) : Bool :=
  decide (2 ≤ literal.length) && literal.head? == some '"' && literal.getLast? == some '"'

/-- A byte is written to the storage. -/
def writeAt (out : Text) (written : ℕ) (c : Char) : Except DecodeError Text :=
  if written < out.length then .ok (out.set written c) else .error .outOfBounds

/-- The loop of `decodeInto` over the body, with the storage and how much of it is written. -/
def decodeBody (out : Text) (written : ℕ) : Text → Except DecodeError (Text × ℕ)
  | [] => .ok (out, written)
  | c :: rest =>
    if c = '\\' then
      match rest with
      | [] => .error .invalidEscapeSequence
      | escaped :: rest =>
        match unescape escaped with
        | some c => do
          let out ← writeAt out written c
          decodeBody out (written + 1) rest
        | none => .error .invalidEscapeSequence
    else do
      let out ← writeAt out written c
      decodeBody out (written + 1) rest

/-- The literal is decoded into the storage, of which a part is returned. -/
def decodeInto (out literal : Text) : Except DecodeError Text :=
  if isQuoted literal = false then .error .invalidStringLiteral
  else if out.length < (literalBody literal).length then .error .invalidStringLiteral
  else do
    let (out, written) ← decodeBody out 0 (literalBody literal)
    .ok (out.take written)

/-- The loop of `stringLiteralByteLen`, with the bytes so far. -/
def countBody (n : ℕ) : Text → Option ℕ
  | [] => some n
  | c :: rest =>
    if c = '\\' then
      match rest with
      | [] => none
      | escaped :: rest => if isEscape escaped then countBody (n + 1) rest else none
    else countBody (n + 1) rest

def stringLiteralByteLen (literal : Text) : Option ℕ :=
  if isQuoted literal = false then none else countBody 0 (literalBody literal)

/-- A quote in the body that no backslash escapes. -/
def hasUnescapedQuote : Text → Bool
  | [] => false
  | c :: rest =>
    if c = '\\' then
      match rest with
      | [] => false
      | _ :: rest => hasUnescapedQuote rest
    else c == '"' || hasUnescapedQuote rest

/-! ## One grammar -/

/-- The body of a literal spells the value. -/
abbrev SpellsText (body value : Text) : Prop := Spells '\\' unescape body value

variable {c : Char} {out rest value body : Text} {written : ℕ}

lemma isEscape_iff : isEscape c = true ↔ ∃ b, unescape c = some b := by
  constructor
  · intro h
    simp only [isEscape, List.mem_cons, List.not_mem_nil, or_false, decide_eq_true_eq] at h
    rcases h with rfl | rfl | rfl | rfl | rfl | rfl | rfl <;> exact ⟨_, rfl⟩
  · rintro ⟨b, h⟩
    unfold unescape at h
    split at h
    all_goals first
      | decide
      | exact absurd h nofun

/-! ### `decodeInto` -/

lemma decodeBody_plain (hc : c ≠ '\\') :
    decodeBody out written (c :: rest) =
      writeAt out written c >>= fun out => decodeBody out (written + 1) rest := by
  cases rest with
  | nil => rw [decodeBody.eq_2, if_neg hc]
  | cons escaped rest => rw [decodeBody.eq_3, if_neg hc]

lemma decodeBody_escape {escaped : Char} (hc : unescape escaped = some c) :
    decodeBody out written ('\\' :: escaped :: rest) =
      writeAt out written c >>= fun out => decodeBody out (written + 1) rest := by
  rw [decodeBody.eq_3, if_pos rfl, hc]

/-- A write inside the storage keeps what was written before. -/
lemma writeAt_of_lt (h : written < out.length) (c : Char) :
    ∃ out', writeAt out written c = .ok out' ∧ out'.length = out.length ∧
      out'.take (written + 1) = out.take written ++ [c] := by
  refine ⟨_, if_pos h, List.length_set, ?_⟩
  rw [List.take_add_one, List.take_set_of_le (Nat.le_refl _), List.getElem?_set_self h]
  rfl

/-- One more byte in front of what is written behind it. -/
lemma write_then (hroom : written < out.length) (hnext : ∀ out₁ : Text, out₁.length = out.length →
      ∃ out₂, decodeBody out₁ (written + 1) rest = .ok (out₂, written + 1 + value.length) ∧
        out₂.length = out₁.length ∧
        out₂.take (written + 1 + value.length) = out₁.take (written + 1) ++ value) :
    ∃ out', (writeAt out written c >>= fun out => decodeBody out (written + 1) rest) =
        .ok (out', written + (c :: value).length) ∧ out'.length = out.length ∧
      out'.take (written + (c :: value).length) = out.take written ++ c :: value := by
  obtain ⟨out₁, hwrite, hlength, htake⟩ := writeAt_of_lt hroom c
  obtain ⟨out₂, hloop, hlength', htake'⟩ := hnext out₁ hlength
  have hcount : written + (c :: value).length = written + 1 + value.length := by
    rw [List.length_cons]
    omega
  refine ⟨out₂, ?_, hlength'.trans hlength, ?_⟩
  · rw [hwrite, hcount]
    exact hloop
  · rw [hcount, htake', htake, List.append_assoc]
    rfl

/-- **The loop of `decodeInto`:** with room for the body it writes what the body spells. -/
lemma decodeBody_of_spells (h : SpellsText body value)
    (hroom : written + body.length ≤ out.length) :
    ∃ out', decodeBody out written body = .ok (out', written + value.length) ∧
      out'.length = out.length ∧
      out'.take (written + value.length) = out.take written ++ value := by
  induction h generalizing out written with
  | nil => exact ⟨out, rfl, rfl, (List.append_nil _).symm⟩
  | plain hc h ih =>
    rw [List.length_cons] at hroom
    rw [decodeBody_plain hc]
    exact write_then (by omega) fun out₁ hlength => ih (by omega)
  | escape hc h ih =>
    rw [List.length_cons, List.length_cons] at hroom
    rw [decodeBody_escape hc]
    exact write_then (by omega) fun out₁ hlength => ih (by omega)

/-- Behind a write that does not trap the loop goes on. -/
lemma loop_of_write {result : Text × ℕ}
    (h : (writeAt out written c >>= fun out => decodeBody out (written + 1) rest) = .ok result) :
    ∃ out₁, decodeBody out₁ (written + 1) rest = .ok result := by
  rcases hwrite : writeAt out written c with error | out₁
  · rw [hwrite] at h
    exact absurd h nofun
  · rw [hwrite] at h
    exact ⟨out₁, h⟩

/-- What the loop accepts spells something. -/
lemma spells_of_decodeBody {out' : Text} {written' : ℕ}
    (h : decodeBody out written body = .ok (out', written')) : ∃ value, SpellsText body value := by
  induction out, written, body using decodeBody.induct generalizing out' written' with
  | case1 out written => exact ⟨[], .nil⟩
  | case2 out written =>
    rw [decodeBody.eq_2, if_pos rfl] at h
    exact absurd h nofun
  | case3 out written escaped rest c hc ih =>
    rw [decodeBody_escape hc] at h
    obtain ⟨out₁, hloop⟩ := loop_of_write h
    obtain ⟨value, hvalue⟩ := ih out₁ hloop
    exact ⟨c :: value, hvalue.escape hc⟩
  | case4 out written escaped rest hnone =>
    rw [decodeBody.eq_3, if_pos rfl, hnone] at h
    exact absurd h nofun
  | case5 out written c rest hc ih =>
    rw [decodeBody_plain hc] at h
    obtain ⟨out₁, hloop⟩ := loop_of_write h
    obtain ⟨value, hvalue⟩ := ih out₁ hloop
    exact ⟨c :: value, hvalue.plain hc⟩

/-! ### `stringLiteralByteLen` -/

lemma countBody_plain {n : ℕ} (hc : c ≠ '\\') :
    countBody n (c :: rest) = countBody (n + 1) rest := by
  cases rest with
  | nil => rw [countBody.eq_2, if_neg hc]
  | cons escaped rest => rw [countBody.eq_3, if_neg hc]

/-- The count of a body is the length of what it spells. -/
lemma countBody_of_spells (h : SpellsText body value) (n : ℕ) :
    countBody n body = some (n + value.length) := by
  induction h generalizing n with
  | nil => rfl
  | plain hc _ ih =>
    rw [countBody_plain hc, ih, List.length_cons, Nat.add_assoc, Nat.add_comm 1]
  | escape hc _ ih =>
    rw [countBody.eq_3, if_pos rfl, if_pos (isEscape_iff.mpr ⟨_, hc⟩), ih, List.length_cons,
      Nat.add_assoc, Nat.add_comm 1]

/-! ### The lexer -/

lemma hasUnescapedQuote_plain (hc : c ≠ '\\') :
    hasUnescapedQuote (c :: rest) = (c == '"' || hasUnescapedQuote rest) := by
  cases rest with
  | nil => rw [hasUnescapedQuote.eq_2, if_neg hc]
  | cons escaped rest => rw [hasUnescapedQuote.eq_3, if_neg hc]

lemma hasUnescapedQuote_escape (escaped : Char) (rest : Text) :
    hasUnescapedQuote ('\\' :: escaped :: rest) = hasUnescapedQuote rest := by
  rw [hasUnescapedQuote.eq_3, if_pos rfl]

variable {kind kind' : Kind} {accepts : ℕ → Bool} {units : ℕ} {text rest : Text}

/-- What is read as a string is a body that spells something, in front of a quote. -/
lemma spells_of_quoted (h : quoted '"' kind accepts units text = ⟨kind', rest, true⟩) :
    ∃ body value, text = body ++ '"' :: rest ∧ SpellsText body value := by
  induction units, text using quoted.induct '"' kind accepts with
  | case1 units => exact absurd h (by simp [quoted])
  | case2 units text =>
    rw [quoted_quote] at h
    obtain ⟨-, rfl, -⟩ := scan_mk_eq.mp h
    exact ⟨[], [], rfl, .nil⟩
  | case3 units text hline =>
    rw [quoted_line hline] at h
    exact absurd h (by simp)
  | case4 units hquote hline =>
    rw [quoted_singleton, if_neg hquote, if_neg hline, if_pos rfl] at h
    exact absurd h (by simp)
  | case5 units escaped text hquote hline ih =>
    rw [quoted_escape hquote] at h
    obtain ⟨hkind, hrest, hclean⟩ := scan_mk_eq.mp h
    obtain ⟨hescape, hclean⟩ := Bool.and_eq_true_iff.mp hclean
    obtain ⟨body, value, rfl, hspells⟩ := ih (by rw [← hkind, ← hrest, ← hclean])
    obtain ⟨b, hb⟩ := isEscape_iff.mp hescape
    exact ⟨'\\' :: escaped :: body, b :: value, rfl, hspells.escape hb⟩
  | case6 units c text hquote hline hescape ih =>
    rw [quoted_unit hquote hline hescape] at h
    obtain ⟨body, value, rfl, hspells⟩ := ih h
    exact ⟨c :: body, c :: value, rfl, hspells.plain hescape⟩

/-- A body without an end is read up to the quote behind it. -/
lemma quoted_of_spells (h : SpellsText body value)
    (hquote : hasUnescapedQuote body = false) (hline : '\n' ∉ body) :
    quoted '"' kind accepts units (body ++ '"' :: rest) =
      ⟨kind, rest, accepts (units + value.length)⟩ := by
  induction h generalizing units with
  | nil => exact quoted_quote
  | @plain c body value hc h ih =>
    rw [hasUnescapedQuote_plain hc, Bool.or_eq_false_iff, beq_eq_false_iff_ne] at hquote
    rw [List.mem_cons, not_or] at hline
    rw [List.cons_append, quoted_unit hquote.1 (Ne.symm hline.1) hc, ih hquote.2 hline.2,
      List.length_cons, Nat.add_assoc, Nat.add_comm 1]
  | @escape c b body value hc h ih =>
    rw [hasUnescapedQuote_escape] at hquote
    simp only [List.mem_cons, not_or] at hline
    rw [List.cons_append, List.cons_append, quoted_escape (by decide), ih hquote hline.2.2,
      isEscape_iff.mpr ⟨b, hc⟩, List.length_cons, Nat.add_assoc, Nat.add_comm 1]
    rfl

/-! ### Literals -/

/-- The body of a literal is between its quotes. -/
lemma literalBody_quoted (body : Text) : literalBody ('"' :: (body ++ ['"'])) = body := by
  simp [literalBody]

lemma isQuoted_quoted (body : Text) : isQuoted ('"' :: (body ++ ['"'])) = true := by
  simp [isQuoted, List.getLast?_cons]

lemma isQuoted_iff {literal : Text} :
    isQuoted literal = true ↔ literal = '"' :: (literalBody literal ++ ['"']) := by
  constructor
  · intro h
    simp only [isQuoted, Bool.and_eq_true, decide_eq_true_eq, beq_iff_eq] at h
    obtain ⟨⟨hlength, hhead⟩, hlast⟩ := h
    rcases literal with _ | ⟨c, rest⟩
    · exact absurd hlength (by decide)
    · obtain rfl : c = '"' := Option.some.inj hhead
      rcases List.eq_nil_or_concat rest with rfl | ⟨body, last, rfl⟩
      · exact absurd hlength (by decide)
      · have hend : last = '"' := by simpa [List.getLast?_cons] using hlast
        rw [hend, List.concat_eq_append, literalBody_quoted]
  · intro h
    rw [h]
    exact isQuoted_quoted _

/-- A literal whose body spells a value is decoded to it and counted. -/
lemma decodeInto_of_spells (h : SpellsText body value) :
    (∀ out : Text, body.length ≤ out.length → decodeInto out ('"' :: (body ++ ['"'])) = .ok value) ∧
      stringLiteralByteLen ('"' :: (body ++ ['"'])) = some value.length := by
  constructor
  · intro out hroom
    have hlength : 0 + body.length ≤ out.length := by omega
    obtain ⟨out', hloop, -, htake⟩ := decodeBody_of_spells h hlength
    rw [decodeInto, isQuoted_quoted, if_neg (by decide), literalBody_quoted,
      if_neg (Nat.not_lt.mpr hroom), hloop]
    exact congrArg Except.ok htake
  · rw [stringLiteralByteLen, isQuoted_quoted, if_neg (by decide), literalBody_quoted,
      countBody_of_spells h, Nat.zero_add]

/-- What `decodeInto` accepts is a literal whose body spells something. -/
lemma spells_of_decodeInto {literal : Text} (h : decodeInto out literal = .ok value) :
    literal = '"' :: (literalBody literal ++ ['"']) ∧
      ∃ value, SpellsText (literalBody literal) value := by
  rw [decodeInto] at h
  by_cases hquoted : isQuoted literal = false
  · rw [if_pos hquoted] at h
    exact absurd h nofun
  · rw [if_neg hquoted] at h
    refine ⟨isQuoted_iff.mp (Bool.not_eq_false _ ▸ hquoted), ?_⟩
    by_cases hroom : out.length < (literalBody literal).length
    · rw [if_pos hroom] at h
      exact absurd h nofun
    · rw [if_neg hroom] at h
      rcases hloop : decodeBody out 0 (literalBody literal) with error | ⟨out', written⟩
      · rw [hloop] at h
        exact absurd h nofun
      · exact spells_of_decodeBody hloop

/-! ## The readers agree -/

lemma integer_kind_ne (first : Char) (text : Text) :
    (integer first text).kind ≠ .stringLiteral := by
  have hkinds : ∀ isFloat : Bool,
      (if isFloat then Kind.floatLiteral else .integerLiteral) ≠ .stringLiteral := by decide
  exact hkinds _

/-- A scan gives a string only where it starts with a quote. -/
lemma string_of_scan {after : Text} (h : scan c after = ⟨.stringLiteral, rest, true⟩) :
    c = '"' ∧ string after = ⟨.stringLiteral, rest, true⟩ := by
  have hsuffix := scan_suffix c after
  rw [h] at hsuffix
  rw [scan] at h
  by_cases hstart : isIdentStart c = true
  · rw [if_pos hstart, identifier, scan_mk_eq] at h
    exact absurd h.1 (wordKind_ne rfl _)
  · rw [if_neg hstart] at h
    by_cases hdigit : c.isDigit = true
    · rw [if_pos hdigit] at h
      exact absurd (congrArg Scan.kind h) (integer_kind_ne c after)
    · rw [if_neg hdigit] at h
      obtain ⟨text, rfl⟩ := hsuffix
      rcases mem_marks_of_punctuation h with rfl | rfl | hmem
      · exact ⟨rfl, h⟩
      · exact absurd (quoted_kind h) (by decide)
      · have hnone : ∀ token ∈ marks, token.kind ≠ .stringLiteral := by decide
        exact absurd rfl (hnone _ hmem)

/-- A literal with a proper body is the only token of its text. -/
lemma lex_of_spells (h : SpellsText body value)
    (hquote : hasUnescapedQuote body = false) (hline : '\n' ∉ body) :
    lex ('"' :: (body ++ ['"'])) = [⟨.stringLiteral, '"' :: (body ++ ['"'])⟩] ∧
      Accepted ('"' :: (body ++ ['"'])) := by
  have hends : Ends ⟨.stringLiteral, '"' :: (body ++ ['"'])⟩ [] := by
    rw [ends_of_isMark rfl (by decide), List.append_nil]
    exact quoted_of_spells h hquote hline
  have hrun : Run .space ('"' :: (body ++ ['"'])) [⟨.stringLiteral, '"' :: (body ++ ['"'])⟩]
      .space := by
    have htoken := Run.token hends (.done .space)
    rwa [List.append_nil] at htoken
  exact hrun.lexLines

/-- A byte as it is written in a literal. -/
def spellChar (c : Char) : Text :=
  if c = '"' ∨ c = '\\' then ['\\', c] else if c = '\n' then ['\\', 'n'] else [c]

lemma spells_spellChar (c : Char) : SpellsText (spellChar c) [c] := by
  unfold spellChar
  split
  · next hescape =>
    have hcode : unescape c = some c := by rcases hescape with rfl | rfl <;> rfl
    exact Spells.nil.escape hcode
  · split
    · next hline =>
      subst hline
      exact Spells.nil.escape rfl
    · next hescape _ => exact Spells.nil.plain fun hc => hescape (.inr hc)

lemma hasUnescapedQuote_spellChar (c : Char) (rest : Text) :
    hasUnescapedQuote (spellChar c ++ rest) = hasUnescapedQuote rest := by
  unfold spellChar
  split
  · exact hasUnescapedQuote_escape _ _
  · split
    · exact hasUnescapedQuote_escape _ _
    · next hescape _ =>
      rw [not_or] at hescape
      rw [List.cons_append, List.nil_append, hasUnescapedQuote_plain hescape.2,
        beq_eq_false_iff_ne.mpr hescape.1, Bool.false_or]

lemma hasUnescapedQuote_spelled (value : Text) :
    hasUnescapedQuote (value.flatMap spellChar) = false := by
  induction value with
  | nil => rfl
  | cons c value ih => rw [List.flatMap_cons, hasUnescapedQuote_spellChar, ih]

lemma mem_spellChar {d : Char} (h : d ∈ spellChar c) :
    d ≠ '\n' ∧ (d = c ∨ d = '\\' ∨ d = 'n') := by
  unfold spellChar at h
  split at h
  · next hescape => rcases hescape with rfl | rfl <;> simp at h <;> rcases h with rfl | rfl <;> simp
  · split at h
    · simp at h
      rcases h with rfl | rfl <;> simp
    · next hline =>
      obtain rfl : d = c := by simpa using h
      exact ⟨hline, .inl rfl⟩

/-- **The readers of string literals agree.**  A string token without a diagnostic is decoded by
`decodeInto` with any storage of its length without the quotes, and `stringLiteralByteLen` is the
length of the result; a literal that `decodeInto` accepts and that has no quote and no end of line
inside is one such token; and every byte string has a literal that is decoded to it. -/
theorem strings_agree :
    (∀ text lexeme, Produces text ⟨.stringLiteral, lexeme⟩ true →
      ∃ value, (∀ out : Text, lexeme.length - 2 ≤ out.length → decodeInto out lexeme = .ok value) ∧
        stringLiteralByteLen lexeme = some value.length) ∧
    (∀ out literal value, decodeInto out literal = .ok value →
      hasUnescapedQuote (literalBody literal) = false → '\n' ∉ literalBody literal →
        lex literal = [⟨.stringLiteral, literal⟩] ∧ Accepted literal) ∧
    ∀ value : Text, ∃ literal : Text,
      (∀ c ∈ literal, c ∈ value ∨ c ∈ ['"', '\\', 'n']) ∧
      (lex literal = [⟨.stringLiteral, literal⟩] ∧ Accepted literal) ∧
      ∀ out : Text, literal.length - 2 ≤ out.length → decodeInto out literal = .ok value := by
  have hlength : ∀ body : Text, ('"' :: (body ++ ['"'])).length - 2 = body.length := by
    intro body
    simp
  refine ⟨?_, ?_, ?_⟩
  -- a token is a quote, a spelled text and a quote, and the decoder reads what is spelled
  · rintro text lexeme ⟨rest, c, after, -, -, htoken, hclean⟩
    obtain ⟨hkind, rfl⟩ := Token.mk.inj htoken
    have hscan : scan c after = ⟨.stringLiteral, (scan c after).rest, true⟩ := by
      rw [hkind, hclean]
    obtain ⟨rfl, hread⟩ := string_of_scan hscan
    obtain ⟨body, value, hafter, hspells⟩ := spells_of_quoted hread
    have hlexeme : consumed ('"' :: after) (scan '"' after).rest = '"' :: (body ++ ['"']) := by
      have htext : '"' :: after = ('"' :: (body ++ ['"'])) ++ (scan '"' after).rest := by
        conv_lhs => rw [hafter]
        simp
      conv_lhs => rw [htext]
      exact consumed_append _ _
    obtain ⟨hdecode, hcount⟩ := decodeInto_of_spells hspells
    rw [hlexeme, hlength]
    exact ⟨value, hdecode, hcount⟩
  · intro out literal value h hquote hline
    obtain ⟨hliteral, value', hspells⟩ := spells_of_decodeInto h
    rw [hliteral]
    exact lex_of_spells hspells hquote hline
  -- every byte has a spelling without quotes and line ends
  · intro value
    have hspells : SpellsText (value.flatMap spellChar) value :=
      Framework.spells_flatMap fun c _ => spells_spellChar c
    have hmem : ∀ d ∈ value.flatMap spellChar, d ≠ '\n' ∧ (d ∈ value ∨ d = '\\' ∨ d = 'n') := by
      intro d hd
      obtain ⟨c, hc, hd⟩ := List.mem_flatMap.mp hd
      obtain ⟨hne, hwhich⟩ := mem_spellChar hd
      exact ⟨hne, hwhich.imp_left fun h => by rwa [h]⟩
    have hline : '\n' ∉ value.flatMap spellChar := fun h => (hmem _ h).1 rfl
    refine ⟨'"' :: (value.flatMap spellChar ++ ['"']), ?_,
      lex_of_spells hspells (hasUnescapedQuote_spelled value) hline, ?_⟩
    · intro d hd
      rw [List.mem_cons, List.mem_append, List.mem_singleton] at hd
      rcases hd with rfl | hd | rfl
      · exact .inr (by simp)
      · exact (hmem d hd).2.imp_right (by rintro (rfl | rfl) <;> simp)
      · exact .inr (by simp)
    · intro out hroom
      rw [hlength] at hroom
      exact (decodeInto_of_spells hspells).1 out hroom

/-- A literal with an escaped quote behind space, and a literal by itself. -/
theorem strings_agree_escaped :
    (∃ value, (∀ out : Text, 4 ≤ out.length → decodeInto out "\"a\\\"b\"".toList = .ok value) ∧
      stringLiteralByteLen "\"a\\\"b\"".toList = some value.length) ∧
    lex "\"\\n\"".toList = [⟨.stringLiteral, "\"\\n\"".toList⟩] ∧ Accepted "\"\\n\"".toList :=
  ⟨strings_agree.1 " \"a\\\"b\";".toList "\"a\\\"b\"".toList
      ⟨_, '"', "a\\\"b\";".toList, .start, by decide, by decide, by decide⟩,
    strings_agree.2.1 ['-', '-'] "\"\\n\"".toList ['\n'] (by decide) (by decide) (by decide)⟩

end ModernC.Lexer
