import Mathlib.Data.List.DropRight
import ModernC.Lexer.Lexer

/-!
# The formatter

`mcc fmt` works on lines.  It indents a line by the brackets that are open, writes its tokens with
spaces between them, and keeps as they are the lines of a block comment over several lines and,
inside, the lines with comments or with an ambiguous operator.
-/

namespace ModernC.Format

open ModernC.Parser (Kind)
open Lexer (Text Token lexLines splitLines)

/-! ## Indentation -/

def isOpener (kind : Kind) : Bool := kind ∈ [.lBrace, .lParen, .lBracket]

def isCloser (kind : Kind) : Bool := kind ∈ [.rBrace, .rParen, .rBracket]

/-- The state of `computeLineLevels`: the brackets open, the line of the last token and the levels
of the lines so far. -/
structure Levels where
  depth : ℕ
  prevLine : ℕ
  level : ℕ → ℕ

/-- The level of a line with a first token of the kind. -/
def startLevel (depth : ℕ) (kind : Kind) : ℕ := if isCloser kind then depth - 1 else depth

/-- The brackets open behind a token of the kind. -/
def depthAfter (depth : ℕ) (kind : Kind) : ℕ :=
  if isOpener kind then depth + 1 else if isCloser kind then depth - 1 else depth

def Levels.step (levels : Levels) (token : ℕ × Token) : Levels where
  depth := depthAfter levels.depth token.2.kind
  prevLine := token.1
  level := fun line =>
    if levels.prevLine < token.1 then
      if line = token.1 then startLevel levels.depth token.2.kind
      else if levels.prevLine < line ∧ line < token.1 then levels.depth
      else levels.level line
    else levels.level line

def Levels.start : Levels := ⟨0, 0, fun _ => 0⟩

/-- The lines behind the last token keep the depth. -/
def Levels.finish (levels : Levels) (line : ℕ) : ℕ :=
  if levels.prevLine < line then levels.depth else levels.level line

def computeLineLevels (source : Text) : ℕ → ℕ :=
  ((lexLines source).tokens.foldl Levels.step .start).finish

/-- `INDENT` for each level. -/
def indent (level : ℕ) : Text := List.replicate (4 * level) ' '

/-! ## Spacing -/

def ltrim (text : Text) : Text := text.dropWhile (· ∈ [' ', '\t'])

def rtrim (text : Text) : Text := text.rdropWhile (· ∈ [' ', '\t', '\r'])

def hasCommentStart (text : Text) : Bool :=
  decide (['/', '/'] <:+: text) || decide (['/', '*'] <:+: text)

def hasAmbiguousOperator (text : Text) : Bool := text.contains '*' || text.contains '&'

def isWordLike (kind : Kind) : Bool :=
  kind ∈ [.identifier, .integerLiteral, .floatLiteral, .stringLiteral, .charLiteral, .underscore,
    .kwAlignof, .kwAsm, .kwAssert, .kwAtomic, .kwBool, .kwBreak, .kwComptime, .kwConst,
    .kwContinue, .kwDefer, .kwElse, .kwEnum, .kwClosure, .kwErr, .kwExport, .kwExtern, .kwFalse,
    .kwFn, .kwFor, .kwIf, .kwLet, .kwMatch, .kwMut, .kwNever, .kwNull, .kwOk, .kwOpen, .kwOverlay,
    .kwPacked, .kwPub, .kwReturn, .kwSat, .kwSerial, .kwSizeof, .kwStruct, .kwSwitch, .kwTrue,
    .kwType, .kwUnion, .kwUninit, .kwUnsafe, .kwUnreachable, .kwUse, .kwVar, .kwVoid, .kwWhile,
    .kwWrap]

def isBinarySpaced (kind : Kind) : Bool :=
  kind ∈ [.equal, .plus, .minus, .slash, .percent, .pipe, .caret, .equalEqual, .bangEqual, .less,
    .greater, .lessEqual, .greaterEqual, .ampAmp, .pipePipe, .shiftLeft, .shiftRight, .arrow,
    .fatArrow]

def needsSpace (prev cur : Kind) : Bool :=
  if prev ∈ [.lParen, .lBracket] then false
  else if cur ∈ [.rParen, .rBracket, .comma, .semicolon] then false
  else if prev = .lBrace then cur ≠ .rBrace
  else if cur = .rBrace then prev ≠ .lBrace
  else if cur = .lBrace then prev ≠ .dot
  else if prev = .dot ∨ cur = .dot ∨ prev = .doubleColon ∨ cur = .doubleColon then false
  else if prev ∈ [.hash, .at] then false
  else if cur ∈ [.lParen, .lBracket] then false
  else if cur = .colon then false
  else if prev ∈ [.colon, .comma, .semicolon] then true
  else if isBinarySpaced prev || isBinarySpaced cur then true
  else if isWordLike prev && isWordLike cur then true
  else true

/-- The tokens behind one of the kind. -/
def spacedAfter (prev : Kind) : List Token → Text
  | [] => []
  | token :: tokens =>
    (if needsSpace prev token.kind then [' '] else []) ++
      (token.lexeme ++ spacedAfter token.kind tokens)

def spaced : List Token → Text
  | [] => []
  | token :: tokens => token.lexeme ++ spacedAfter token.kind tokens

/-- What `appendNormalizedContent` keeps without a look at the tokens. -/
def isOpaque (content : Text) : Bool := hasCommentStart content || hasAmbiguousOperator content

/-- `appendNormalizedContent`. -/
def normalizedContent (content : Text) : Text :=
  if isOpaque content then content
  else
    let lexed := lexLines content
    let tokens := lexed.tokens.map Prod.snd
    if tokens.any (fun token => token.kind == .invalid) || !lexed.clean || tokens.isEmpty then
      content
    else spaced tokens

/-! ## Block comments -/

/-- Where `lineTouchesBlockComment` stands in a line. -/
inductive Walk where
  | code
  | block
  | quoted (quote : Char)
deriving DecidableEq

/-- Whether the rest of a line touches a block comment, and whether it ends inside one. -/
def walk : Walk → Text → Bool × Bool
  | .code, [] => (false, false)
  | .code, '/' :: '/' :: _ => (false, false)
  | .code, '/' :: '*' :: text => (true, (walk .block text).2)
  | .code, c :: text => if c = '"' ∨ c = '\'' then walk (.quoted c) text else walk .code text
  | .block, [] => (true, true)
  | .block, '*' :: '/' :: text => (true, (walk .code text).2)
  | .block, _ :: text => walk .block text
  | .quoted _, [] => (false, false)
  | .quoted quote, '\\' :: _ :: text => walk (.quoted quote) text
  | .quoted quote, c :: text => if c = quote then walk .code text else walk (.quoted quote) text

def lineTouchesBlockComment (inside : Bool) (line : Text) : Bool × Bool :=
  walk (if inside then .block else .code) line

/-- A line of a block comment over several lines. -/
def isKept (inside : Bool) (line : Text) : Bool :=
  (lineTouchesBlockComment inside line).1 && (inside || (lineTouchesBlockComment inside line).2)

/-! ## The loop over lines -/

def content (line : Text) : Text := rtrim (ltrim line)

/-- A blank line that was held back. -/
def blankLine (pending : Bool) : Text := if pending then ['\n'] else []

/-- The lines from a line number on. -/
def formatLines (level : ℕ → ℕ) : ℕ → Bool → Bool → Bool → List Text → Text
  | _, _, _, _, [] => []
  | lineNo, pending, emitted, inside, line :: lines =>
    let inside' := (lineTouchesBlockComment inside line).2
    if isKept inside line then
      blankLine pending ++ line ++ '\n' :: formatLines level (lineNo + 1) false true inside' lines
    else if content line = [] then
      formatLines level (lineNo + 1) (pending || emitted) emitted inside' lines
    else
      blankLine pending ++ (indent (level lineNo) ++ normalizedContent (content line)) ++
        '\n' :: formatLines level (lineNo + 1) false true inside' lines

def format (source : Text) : Text :=
  formatLines (computeLineLevels source) 1 false false false (splitLines source)

end ModernC.Format
