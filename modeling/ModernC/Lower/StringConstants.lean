import Mathlib.Data.List.Chain
import ModernC.Framework.StringTexts
import ModernC.Lexer.StringLiterals

/-!
# String constants in the two backends

`lower_c_emitter.zig` and `mir_executable_c.zig` write the bytes of a string constant as a string
literal of C, `lower_llvm_text.zig` writes them as an array constant of LLVM with a zero byte
behind them.  What C and LLVM read there are the bytes again.  `lower_llvm_text.zig` also decodes
literals of the language itself, with a loop of its own.
-/

namespace ModernC.Lower.StringConstants

open Framework Framework.StringTexts
open Lexer (Text DecodeError SpellsText decodeInto isQuoted literalBody unescape)

/-- A string of bytes. -/
abbrev ByteString := {text : Text // ∀ c ∈ text, c.toNat < 256}

/-! ## The C backend -/

/-- The bytes that stand for themselves in a literal of C. -/
def isPlain (byte : Char) : Bool :=
  let n := byte.toNat
  decide (32 ≤ n ∧ n ≤ 33) || decide (35 ≤ n ∧ n ≤ 38) || decide (40 ≤ n ∧ n ≤ 62) ||
    decide (64 ≤ n ∧ n ≤ 91) || decide (93 ≤ n ∧ n ≤ 126)

def appendCStringByte (byte : Char) : Text :=
  match byte with
  | '\\' => ['\\', '\\']
  | '"' => ['\\', '"']
  | '\'' => ['\\', '\'']
  | '?' => ['\\', '?']
  | '\x00' => ['\\', '0', '0', '0']
  | '\n' => ['\\', 'n']
  | '\r' => ['\\', 'r']
  | '\t' => ['\\', 't']
  | byte =>
    if isPlain byte then [byte]
    else
      ['\\', octalDigit (byte.toNat / 64), octalDigit (byte.toNat / 8 % 8),
        octalDigit (byte.toNat % 8)]

/-- `emitStringBacking`: the object that a string constant of an initializer points to. -/
def emitStringBacking (name : Text) (bytes : ByteString) : Text :=
  "static const char ".toList ++ name ++ "[] = ".toList ++
    '"' :: (bytes.val.flatMap appendCStringByte ++ '"' :: ";\n".toList)

/-- `emitCStringBytes`: a literal in an expression.  Its table of escapes is the one above. -/
def emitCStringBytes (bytes : ByteString) : Text :=
  '"' :: (bytes.val.flatMap appendCStringByte ++ ['"'])

/-! ## The LLVM backend -/

inductive EmitError where
  | unsupportedLlvmEmission
deriving DecidableEq

structure LlvmStringBytes where
  escaped : Text
  len : ℕ
deriving DecidableEq

def hexDigit (value : ℕ) : Char :=
  if value < 10 then Char.ofNat ('0'.toNat + value) else Char.ofNat ('A'.toNat + (value - 10))

/-- The bytes that stand for themselves in a constant of LLVM. -/
def isPlainLlvm (byte : Char) : Bool :=
  let n := byte.toNat
  decide (32 ≤ n ∧ n ≤ 33) || decide (35 ≤ n ∧ n ≤ 91) || decide (93 ≤ n ∧ n ≤ 126)

def appendLlvmStringByte (byte : Char) : Text :=
  match byte with
  | '\\' => ['\\', '5', 'C']
  | '"' => ['\\', '2', '2']
  | '\x00' => ['\\', '0', '0']
  | byte =>
    if isPlainLlvm byte then [byte]
    else ['\\', hexDigit (byte.toNat / 16), hexDigit (byte.toNat % 16)]

/-- The bytes are those of a decoded literal already. -/
def llvmCanonicalStringBytes (bytes : Text) : LlvmStringBytes where
  escaped := bytes.flatMap appendLlvmStringByte ++ appendLlvmStringByte '\x00'
  len := bytes.length + 1

/-- What a backslash escapes in a literal of the language. -/
def escapedByte : Char → Option Char
  | '\\' => some '\\'
  | '\'' => some '\''
  | '"' => some '"'
  | '0' => some '\x00'
  | 'n' => some '\n'
  | 'r' => some '\r'
  | 't' => some '\t'
  | _ => none

/-- The loop of `appendLlvmStringLiteralBody` between the quotes. -/
def appendBody (escaped : Text) (len : ℕ) : Text → Except EmitError (Text × ℕ)
  | [] => .ok (escaped, len)
  | c :: rest =>
    if c = '\\' then
      match rest with
      | [] => .error .unsupportedLlvmEmission
      | code :: rest =>
        match escapedByte code with
        | some byte => appendBody (escaped ++ appendLlvmStringByte byte) (len + 1) rest
        | none => .error .unsupportedLlvmEmission
    else appendBody (escaped ++ appendLlvmStringByte c) (len + 1) rest

def appendLlvmStringLiteralBody (escaped literal : Text) (len : ℕ) :
    Except EmitError (Text × ℕ) :=
  if isQuoted literal = false then .error .unsupportedLlvmEmission
  else appendBody escaped len (literalBody literal)

def llvmStringLiteralBytes (literal : Text) : Except EmitError LlvmStringBytes := do
  let (escaped, len) ← appendLlvmStringLiteralBody [] literal 0
  .ok ⟨escaped ++ appendLlvmStringByte '\x00', len + 1⟩

/-! ## What C reads -/

variable {byte : Char} {escaped : Text} {len : ℕ}

/-- A byte that stands for itself is none of the marks of a literal. -/
lemma plain_ne (h : isPlain byte = true) :
    byte ≠ '"' ∧ byte ≠ '\n' ∧ byte ≠ '\\' ∧ byte ≠ '?' := by
  refine ⟨?_, ?_, ?_, ?_⟩
  all_goals
    rintro rfl
    exact absurd h (by decide)

lemma readC_byte (h : byte.toNat < 256) (rest : Text) :
    readC (appendCStringByte byte ++ rest) = push byte (readC rest) := by
  unfold appendCStringByte
  split
  case h_9 =>
    split
    · next hplain =>
      obtain ⟨hquote, hline, hescape, -⟩ := plain_ne hplain
      exact readC_plain rest hquote hline hescape
    · have hread := readEscape_octal h rest
      rw [Char.ofNat_toNat] at hread
      exact readC_escape hread
  all_goals exact readC_escape rfl

/-- **C reads the bytes again**, up to the closing quote. -/
lemma readC_bytes (bytes : ByteString) (rest : Text) :
    readC (bytes.val.flatMap appendCStringByte ++ '"' :: rest) = some (bytes.val, rest) := by
  have hbytes := read_flatMap ('"' :: rest) fun byte hbyte =>
    readC_byte (bytes.property byte hbyte)
  rw [hbytes, readC_quote]
  simp

/-- In what is written every question mark is behind a backslash. -/
def Escaped (text : Text) : Prop := text.IsChain fun a b => b = '?' → a = '\\'

lemma escaped_byte (byte : Char) :
    Escaped (appendCStringByte byte) ∧ (appendCStringByte byte).head? ≠ some '?' := by
  have hoctal : ∀ d : ℕ, octalDigit (d % 8) ≠ '?' := by
    intro d
    have hd : d % 8 < 8 := Nat.mod_lt d (by omega)
    interval_cases d % 8 <;> decide
  unfold appendCStringByte Escaped
  split
  case h_9 =>
    split
    · next hplain => exact ⟨.singleton _, fun h => (plain_ne hplain).2.2.2 (Option.some.inj h)⟩
    · simp [hoctal]
  all_goals simp

lemma escaped_bytes (bytes : Text) :
    Escaped (bytes.flatMap appendCStringByte) ∧
      (bytes.flatMap appendCStringByte).head? ≠ some '?' := by
  induction bytes with
  | nil => exact ⟨.nil, nofun⟩
  | cons byte bytes ih =>
    obtain ⟨hfirst, hhead⟩ := escaped_byte byte
    rw [List.flatMap_cons]
    refine ⟨List.isChain_append.mpr ⟨hfirst, ih.1, ?_⟩, ?_⟩
    · rintro a - b hb rfl
      exact absurd hb ih.2
    · intro hquestion
      rw [List.head?_append, Option.or_eq_some_iff] at hquestion
      rcases hquestion with hquestion | ⟨-, hquestion⟩
      · exact hhead hquestion
      · exact ih.2 hquestion

/-- **No trigraph** is written. -/
lemma not_trigraph (bytes : Text) : ¬['?', '?'] <:+: bytes.flatMap appendCStringByte := by
  rintro ⟨front, back, heq⟩
  have hpair := (escaped_bytes bytes).1
  rw [← heq, List.append_assoc, Escaped, List.isChain_append] at hpair
  replace hpair := hpair.2.1
  exact absurd ((List.isChain_cons_cons.mp hpair).1 rfl) (by decide)

/-! ## What LLVM reads -/

lemma hexDigit_spec {d : ℕ} (h : d < 16) :
    isHexDigit (hexDigit d) = true ∧ digitValue (hexDigit d) = d := by
  interval_cases d <;> decide

lemma plainLlvm_ne (h : isPlainLlvm byte = true) : byte ≠ '"' ∧ byte ≠ '\\' := by
  constructor
  all_goals
    rintro rfl
    exact absurd h (by decide)

lemma readLlvm_byte (h : byte.toNat < 256) (rest : Text) :
    readLlvm (appendLlvmStringByte byte ++ rest) = push byte (readLlvm rest) := by
  unfold appendLlvmStringByte
  split
  case h_4 =>
    split
    · next hplain =>
      obtain ⟨hquote, hescape⟩ := plainLlvm_ne hplain
      exact readLlvm_plain rest hquote hescape
    · obtain ⟨hhigh, hhighValue⟩ := hexDigit_spec (d := byte.toNat / 16) (by omega)
      obtain ⟨hlow, hlowValue⟩ := hexDigit_spec (d := byte.toNat % 16) (by omega)
      have hvalue : ofDigits 16 [hexDigit (byte.toNat / 16), hexDigit (byte.toNat % 16)] =
          byte.toNat := by
        simp only [ofDigits, List.foldl_cons, List.foldl_nil, hhighValue, hlowValue]
        omega
      have hread := readLlvm_hex rest hhigh hlow
      rw [hvalue, Char.ofNat_toNat] at hread
      exact hread
  all_goals exact readLlvm_hex rest (by decide) (by decide)

/-- **LLVM reads the bytes and a zero byte** up to the closing quote, as many as are counted. -/
lemma readLlvm_bytes (bytes : ByteString) (rest : Text) :
    readLlvm ((llvmCanonicalStringBytes bytes.val).escaped ++ '"' :: rest) =
      some (bytes.val ++ ['\x00'], rest) := by
  have hzero : readLlvm (appendLlvmStringByte '\x00' ++ '"' :: rest) =
      push '\x00' (readLlvm ('"' :: rest)) := readLlvm_byte (by decide) _
  have hbytes := read_flatMap (appendLlvmStringByte '\x00' ++ '"' :: rest) fun byte hbyte =>
    readLlvm_byte (bytes.property byte hbyte)
  rw [llvmCanonicalStringBytes, List.append_assoc, hbytes, hzero, readLlvm_quote]
  rfl

/-! ## The literals of the language -/

lemma escapedByte_eq : escapedByte = unescape := rfl

lemma appendBody_plain {rest : Text} {c : Char} (hc : c ≠ '\\') :
    appendBody escaped len (c :: rest) =
      appendBody (escaped ++ appendLlvmStringByte c) (len + 1) rest := by
  cases rest with
  | nil => rw [appendBody.eq_2, if_neg hc]
  | cons code rest => rw [appendBody.eq_3, if_neg hc]

lemma appendBody_escape {rest : Text} {code : Char} (hcode : escapedByte code = some byte) :
    appendBody escaped len ('\\' :: code :: rest) =
      appendBody (escaped ++ appendLlvmStringByte byte) (len + 1) rest := by
  rw [appendBody.eq_3, if_pos rfl, hcode]

/-- **The loop** escapes what the body spells. -/
lemma appendBody_of_spells {body value : Text} (h : SpellsText body value) (escaped : Text)
    (len : ℕ) :
    appendBody escaped len body =
      .ok (escaped ++ value.flatMap appendLlvmStringByte, len + value.length) := by
  induction h generalizing escaped len with
  | nil => simp [appendBody]
  | plain hc _ ih =>
    rw [appendBody_plain hc, ih, List.flatMap_cons, List.append_assoc, List.length_cons]
    congr 2
    omega
  | escape hcode _ ih =>
    rw [appendBody_escape (escapedByte_eq ▸ hcode), ih, List.flatMap_cons, List.append_assoc,
      List.length_cons]
    congr 2
    omega

/-- Where the loop ends without an error, the body spells something. -/
lemma spells_of_appendBody {body : Text} {result : Text × ℕ}
    (h : appendBody escaped len body = .ok result) : ∃ value, SpellsText body value := by
  induction escaped, len, body using appendBody.induct with
  | case1 escaped len => exact ⟨[], .nil⟩
  | case2 escaped len =>
    rw [appendBody.eq_2, if_pos rfl] at h
    exact absurd h nofun
  | case3 escaped len code rest byte hcode ih =>
    rw [appendBody_escape hcode] at h
    obtain ⟨value, hvalue⟩ := ih h
    exact ⟨byte :: value, hvalue.escape (escapedByte_eq ▸ hcode)⟩
  | case4 escaped len code rest hnone =>
    rw [appendBody.eq_3, if_pos rfl, hnone] at h
    exact absurd h nofun
  | case5 escaped len c rest hc ih =>
    rw [appendBody_plain hc] at h
    obtain ⟨value, hvalue⟩ := ih h
    exact ⟨c :: value, hvalue.plain hc⟩

/-- The loop reads literals that `decodeInto` reads, and escapes what is decoded. -/
lemma llvmStringLiteralBytes_eq {out literal : Text} (hroom : literal.length - 2 ≤ out.length) :
    llvmStringLiteralBytes literal =
      match decodeInto out literal with
      | .ok value => .ok (llvmCanonicalStringBytes value)
      | .error _ => .error .unsupportedLlvmEmission := by
  by_cases hspells : ∃ value, isQuoted literal = true ∧ SpellsText (literalBody literal) value
  · obtain ⟨value, hquoted, hvalue⟩ := hspells
    have hliteral := Lexer.isQuoted_iff.mp hquoted
    have hlength : (literalBody literal).length ≤ out.length := by
      rw [hliteral] at hroom
      simpa using hroom
    have hdecode : decodeInto out literal = .ok value := by
      rw [hliteral]
      exact (Lexer.decodeInto_of_spells hvalue).1 out hlength
    rw [hdecode, llvmStringLiteralBytes, appendLlvmStringLiteralBody, if_neg (by simp [hquoted]),
      appendBody_of_spells hvalue]
    simp [llvmCanonicalStringBytes, bind, Except.bind]
  · have hloop : appendLlvmStringLiteralBody [] literal 0 = .error .unsupportedLlvmEmission := by
      rcases hresult : appendLlvmStringLiteralBody [] literal 0 with error | result
      · rfl
      · rw [appendLlvmStringLiteralBody] at hresult
        split at hresult
        · exact absurd hresult nofun
        · next hquoted =>
          obtain ⟨value, hvalue⟩ := spells_of_appendBody hresult
          exact absurd ⟨value, by simpa using hquoted, hvalue⟩ hspells
    rcases hdecode : decodeInto out literal with error | value
    · rw [llvmStringLiteralBytes, hloop]
      rfl
    · obtain ⟨hliteral, value, hvalue⟩ := Lexer.spells_of_decodeInto hdecode
      exact absurd ⟨value, Lexer.isQuoted_iff.mpr hliteral, hvalue⟩ hspells

/-! ## The constants denote the same bytes -/

/-- **String constants denote the same bytes in both backends.**  C reads what is written of a
byte string as exactly these bytes, and finds no trigraph in it; LLVM reads it with one zero byte
behind, and the counted length is that of what LLVM reads; and with the storage that `decodeInto`
asks for, a literal of the language is escaped exactly if it is decoded, and as its decoded bytes
are. -/
theorem constants_denote :
    (∀ (bytes : ByteString) (rest : Text),
      readC (bytes.val.flatMap appendCStringByte ++ '"' :: rest) = some (bytes.val, rest) ∧
        ¬['?', '?'] <:+: bytes.val.flatMap appendCStringByte) ∧
    (∀ (bytes : ByteString) (rest : Text),
      readLlvm ((llvmCanonicalStringBytes bytes.val).escaped ++ '"' :: rest) =
          some (bytes.val ++ ['\x00'], rest) ∧
        (llvmCanonicalStringBytes bytes.val).len = bytes.val.length + 1) ∧
    ∀ out literal : Text, literal.length - 2 ≤ out.length →
      llvmStringLiteralBytes literal =
        match decodeInto out literal with
        | .ok value => .ok (llvmCanonicalStringBytes value)
        | .error _ => .error .unsupportedLlvmEmission :=
  ⟨fun bytes rest => ⟨readC_bytes bytes rest, not_trigraph bytes.val⟩,
    fun bytes rest => ⟨readLlvm_bytes bytes rest, rfl⟩,
    fun _ _ hroom => llvmStringLiteralBytes_eq hroom⟩

/-- An escaped quote in front of a digit. -/
theorem constants_denote_quote :
    llvmStringLiteralBytes "\"\\\"1\"".toList =
      match decodeInto ['-', '-', '-'] "\"\\\"1\"".toList with
      | .ok value => .ok (llvmCanonicalStringBytes value)
      | .error _ => .error .unsupportedLlvmEmission :=
  constants_denote.2.2 ['-', '-', '-'] "\"\\\"1\"".toList (by decide)

end ModernC.Lower.StringConstants
