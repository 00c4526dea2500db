import ModernC.Parser.Tokens
import ModernC.Specialize.Names

/-!
# The lexer

A text is a list of characters, one for each byte of the source.  What is left of the text stands
for the index of the lexer, and a scan says whether it reported anything.
-/

namespace ModernC.Lexer

open ModernC.Parser (Kind)
open Specialize (isIdentStart isIdentContinue)

abbrev Text := List Char

structure Token where
  kind : Kind
  lexeme : Text
deriving DecidableEq

/-- What is scanned: a token of the kind in front of the rest, without a diagnostic if `clean`. -/
structure Scan where
  kind : Kind
  rest : Text
  clean : Bool
deriving DecidableEq

def isWhitespace (c : Char) : Bool := c ∈ [' ', '\t', '\n', '\r', '\x0b', '\x0c']

/-- The byte at the index, and zero at the end. -/
def peek (text : Text) : Char := text.headD '\x00'

/-! ## Words -/

def keywords : List (Text × Kind) :=
  [("alignof".toList, .kwAlignof), ("asm".toList, .kwAsm), ("assert".toList, .kwAssert),
    ("atomic".toList, .kwAtomic), ("bool".toList, .kwBool), ("break".toList, .kwBreak),
    ("closure".toList, .kwClosure), ("comptime".toList, .kwComptime), ("const".toList, .kwConst),
    ("continue".toList, .kwContinue), ("defer".toList, .kwDefer), ("else".toList, .kwElse),
    ("enum".toList, .kwEnum), ("err".toList, .kwErr), ("export".toList, .kwExport),
    ("extern".toList, .kwExtern), ("false".toList, .kwFalse), ("fn".toList, .kwFn),
    ("for".toList, .kwFor), ("if".toList, .kwIf), ("let".toList, .kwLet),
    ("match".toList, .kwMatch), ("mut".toList, .kwMut), ("never".toList, .kwNever),
    ("null".toList, .kwNull), ("ok".toList, .kwOk), ("open".toList, .kwOpen),
    ("overlay".toList, .kwOverlay), ("packed".toList, .kwPacked), ("pub".toList, .kwPub),
    ("return".toList, .kwReturn), ("sat".toList, .kwSat), ("serial".toList, .kwSerial),
    ("sizeof".toList, .kwSizeof), ("struct".toList, .kwStruct), ("switch".toList, .kwSwitch),
    ("true".toList, .kwTrue), ("type".toList, .kwType), ("union".toList, .kwUnion),
    ("uninit".toList, .kwUninit), ("unsafe".toList, .kwUnsafe),
    ("unreachable".toList, .kwUnreachable), ("use".toList, .kwUse), ("var".toList, .kwVar),
    ("void".toList, .kwVoid), ("while".toList, .kwWhile), ("wrap".toList, .kwWrap)]

def keywordKind (lexeme : Text) : Option Kind := keywords.lookup lexeme

/-- `inf` and `nan` are floats. -/
def wordKind (lexeme : Text) : Kind :=
  if lexeme = ['_'] then .underscore
  else if lexeme = "inf".toList ∨ lexeme = "nan".toList then .floatLiteral
  else (keywordKind lexeme).getD .identifier

/-- A word that `first` starts. -/
def identifier (first : Char) (text : Text) : Scan :=
  ⟨wordKind (first :: text.takeWhile isIdentContinue), text.dropWhile isIdentContinue, true⟩

/-! ## Numbers -/

inductive IntegerBase where
  | decimal
  | hex
deriving DecidableEq

def isDigitForBase (c : Char) : IntegerBase → Bool
  | .decimal => c.isDigit
  | .hex => c.isDigit || ('a' ≤ c && c ≤ 'f') || ('A' ≤ c && c ≤ 'F')

def integerSuffixes : List Text :=
  ["u8".toList, "u16".toList, "u32".toList, "u64".toList, "u128".toList, "usize".toList,
    "i8".toList, "i16".toList, "i32".toList, "i64".toList, "i128".toList, "isize".toList]

def isIntegerSuffix (text : Text) : Bool := integerSuffixes.contains text

/-- An underscore in front of a suffix. -/
def integerSuffixAt (text : Text) : Bool :=
  decide (2 ≤ text.length) && peek text == '_' &&
    isIntegerSuffix (text.tail.takeWhile isIdentContinue)

/-- What a loop over digits leaves. -/
structure Digits where
  rest : Text
  sawDigit : Bool
  lastWasUnderscore : Bool
  invalid : Bool

/-- A number of digits that is malformed, or was so before. -/
def Digits.bad (digits : Digits) : Bool :=
  digits.invalid || !digits.sawDigit || digits.lastWasUnderscore

def integerDigits (base : IntegerBase) (sawDigit lastWasUnderscore invalid : Bool) : Text → Digits
  | [] => ⟨[], sawDigit, lastWasUnderscore, invalid⟩
  | c :: rest =>
    if isDigitForBase c base then integerDigits base true false invalid rest
    else if c = '_' then
      if integerSuffixAt (c :: rest) then ⟨c :: rest, sawDigit, lastWasUnderscore, invalid⟩
      else
        integerDigits base sawDigit true
          (invalid || !sawDigit || lastWasUnderscore || !isDigitForBase (peek rest) base) rest
    else ⟨c :: rest, sawDigit, lastWasUnderscore, invalid⟩

/-- The digits of a fraction and of an exponent. -/
def floatDigits (sawDigit lastWasUnderscore invalid : Bool) : Text → Digits
  | [] => ⟨[], sawDigit, lastWasUnderscore, invalid⟩
  | c :: rest =>
    if c.isDigit then floatDigits true false invalid rest
    else if c = '_' then
      if isIdentStart (peek rest) then ⟨c :: rest, sawDigit, lastWasUnderscore, invalid⟩
      else floatDigits sawDigit true (invalid || lastWasUnderscore) rest
    else ⟨c :: rest, sawDigit, lastWasUnderscore, invalid⟩

structure Number where
  rest : Text
  isFloat : Bool
  invalid : Bool

def startsFraction (base : IntegerBase) (text : Text) : Bool :=
  base == .decimal && peek text == '.' && (peek text.tail).isDigit

def fraction (base : IntegerBase) (number : Number) : Number :=
  if startsFraction base number.rest then
    let digits := floatDigits false false number.invalid number.rest.tail
    ⟨digits.rest, true, digits.bad⟩
  else number

def isExponentTail (first second : Char) : Bool :=
  first.isDigit || ((first == '+' || first == '-') && second.isDigit)

def startsExponent (base : IntegerBase) (text : Text) : Bool :=
  base == .decimal && (peek text == 'e' || peek text == 'E') &&
    isExponentTail (peek text.tail) (peek text.tail.tail)

def dropSign (text : Text) : Text :=
  if peek text = '+' ∨ peek text = '-' then text.tail else text

def exponent (base : IntegerBase) (number : Number) : Number :=
  if startsExponent base number.rest then
    let digits := floatDigits false false number.invalid (dropSign number.rest.tail)
    ⟨digits.rest, true, digits.bad⟩
  else number

def numberSuffix (number : Number) : Number :=
  if peek number.rest = '_' then
    let text := number.rest.tail
    if isIdentStart (peek text) then
      ⟨text.dropWhile isIdentContinue, number.isFloat,
        number.invalid || number.isFloat || !isIntegerSuffix (text.takeWhile isIdentContinue)⟩
    else ⟨text, number.isFloat, true⟩
  else if isIdentStart (peek number.rest) then
    ⟨number.rest.dropWhile isIdentContinue, number.isFloat, true⟩
  else number

/-- A number that `first` starts. -/
def integer (first : Char) (text : Text) : Scan :=
  let hex := first == '0' && (peek text == 'x' || peek text == 'X')
  let base := if hex then .hex else .decimal
  let digits := integerDigits base (!hex) false false (if hex then text.tail else text)
  let number := numberSuffix (exponent base (fraction base ⟨digits.rest, false, digits.bad⟩))
  ⟨if number.isFloat then .floatLiteral else .integerLiteral, number.rest, !number.invalid⟩

/-! ## Strings and characters -/

def isEscape (c : Char) : Bool := c ∈ ['\\', '\'', '"', '0', 'n', 'r', 't']

/-- A literal behind its first quote, with the units so far. -/
def quoted (quote : Char) (kind : Kind) (accepts : ℕ → Bool) (units : ℕ) : Text → Scan
  | [] => ⟨.invalid, [], false⟩
  | c :: rest =>
    if c = quote then ⟨kind, rest, accepts units⟩
    else if c = '\n' then ⟨.invalid, c :: rest, false⟩
    else if c = '\\' then
      match rest with
      | [] => ⟨.invalid, [], false⟩
      | escaped :: rest =>
        let scan := quoted quote kind accepts (units + 1) rest
        ⟨scan.kind, scan.rest, isEscape escaped && scan.clean⟩
    else quoted quote kind accepts (units + 1) rest

def string (text : Text) : Scan := quoted '"' .stringLiteral (fun _ => true) 0 text

def char (text : Text) : Scan := quoted '\'' .charLiteral (fun units => units == 1) 0 text

/-! ## Tokens -/

/-- The longer token if the character follows. -/
def oneOrTwo (second : Char) (long short : Kind) (text : Text) : Scan :=
  if text.head? = some second then ⟨long, text.tail, true⟩ else ⟨short, text, true⟩

def punctuation (c : Char) (text : Text) : Scan :=
  match c with
  | '(' => ⟨.lParen, text, true⟩
  | ')' => ⟨.rParen, text, true⟩
  | '{' => ⟨.lBrace, text, true⟩
  | '}' => ⟨.rBrace, text, true⟩
  | '[' => ⟨.lBracket, text, true⟩
  | ']' => ⟨.rBracket, text, true⟩
  | ',' => ⟨.comma, text, true⟩
  | ':' => oneOrTwo ':' .doubleColon .colon text
  | ';' => ⟨.semicolon, text, true⟩
  | '?' => ⟨.question, text, true⟩
  | '#' => ⟨.hash, text, true⟩
  | '@' => ⟨.at, text, true⟩
  | '~' => ⟨.tilde, text, true⟩
  | '^' => ⟨.caret, text, true⟩
  | '+' => ⟨.plus, text, true⟩
  | '%' => ⟨.percent, text, true⟩
  | '.' =>
    if text.head? = some '.' then oneOrTwo '.' .dotDotDot .dotDot text.tail
    else ⟨.dot, text, true⟩
  | '-' => oneOrTwo '>' .arrow .minus text
  | '=' =>
    if text.head? = some '=' then ⟨.equalEqual, text.tail, true⟩
    else oneOrTwo '>' .fatArrow .equal text
  | '!' => oneOrTwo '=' .bangEqual .bang text
  | '<' =>
    if text.head? = some '<' then ⟨.shiftLeft, text.tail, true⟩
    else oneOrTwo '=' .lessEqual .less text
  | '>' =>
    if text.head? = some '>' then ⟨.shiftRight, text.tail, true⟩
    else oneOrTwo '=' .greaterEqual .greater text
  | '&' => oneOrTwo '&' .ampAmp .amp text
  | '|' => oneOrTwo '|' .pipePipe .pipe text
  | '/' => ⟨.slash, text, true⟩
  | '*' => ⟨.star, text, true⟩
  | '"' => string text
  | '\'' => char text
  | _ => ⟨.invalid, text, false⟩

/-- The token that `c` starts. -/
def scan (c : Char) (text : Text) : Scan :=
  if isIdentStart c then identifier c text
  else if c.isDigit then integer c text
  else punctuation c text

/-! ## Space and comments -/

/-- Where the lexer stands between tokens. -/
inductive Mode where
  | space
  | line
  | block
deriving DecidableEq

/-- `skipSpaceAndComments`, and whether every block comment was closed. -/
def skip : Mode → Text → Text × Bool
  | .space, [] => ([], true)
  | .space, '/' :: '/' :: text => skip .line text
  | .space, '/' :: '*' :: text => skip .block text
  | .space, c :: text => if isWhitespace c then skip .space text else (c :: text, true)
  | .line, [] => ([], true)
  | .line, c :: text => if c = '\n' then skip .space text else skip .line text
  | .block, [] => ([], false)
  | .block, '*' :: '/' :: text => skip .space text
  | .block, _ :: text => skip .block text

/-! ## A whole text -/

/-- `splitScalar` at the ends of lines. -/
def splitLines : Text → List Text
  | [] => [[]]
  | c :: text =>
    if c = '\n' then [] :: splitLines text
    else
      match splitLines text with
      | [] => [[c]]
      | line :: lines => (c :: line) :: lines

/-- Tokens with their lines, and whether nothing was reported. -/
structure Lexed where
  tokens : List (ℕ × Token)
  clean : Bool
deriving DecidableEq

/-- The part of a text in front of the rest. -/
def consumed (text rest : Text) : Text := text.take (text.length - rest.length)

def newlines (text : Text) : ℕ := text.count '\n'

/-- The tokens from where the lexer stands.  Each takes a character, so there is fuel enough in the
length of the text. -/
def lexFrom : ℕ → Mode → ℕ → Text → Lexed
  | 0, _, _, _ => ⟨[], true⟩
  | fuel + 1, mode, line, text =>
    let (rest, closed) := skip mode text
    let line := line + newlines (consumed text rest)
    match rest with
    | [] => ⟨[], closed⟩
    | c :: after =>
      let token := scan c after
      let lexeme := consumed (c :: after) token.rest
      let more := lexFrom fuel .space (line + newlines lexeme) token.rest
      ⟨(line, ⟨token.kind, lexeme⟩) :: more.tokens, closed && token.clean && more.clean⟩

/-- The byte order mark. -/
def byteOrderMark : Text := ['\xef', '\xbb', '\xbf']

def dropMark (text : Text) : Text :=
  if byteOrderMark <+: text then text.drop 3 else text

def lexLines (text : Text) : Lexed := lexFrom (text.length + 1) .space 1 (dropMark text)

/-- The tokens of a text. -/
def lex (text : Text) : List Token := (lexLines text).tokens.map Prod.snd

/-- The lexer reports nothing. -/
def Accepted (text : Text) : Prop := (lexLines text).clean = true

instance (text : Text) : Decidable (Accepted text) :=
  inferInstanceAs (Decidable ((lexLines text).clean = true))

end ModernC.Lexer
