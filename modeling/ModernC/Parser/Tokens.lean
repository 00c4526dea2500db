import ModernC.Syntax.Ast

/-!
# Tokens

The tokens that the parser reads, without their spans except for the offset of a name.  A list of
tokens is what is left to read, from the current token on; at its end the parser sees `eof`.
-/

namespace ModernC.Parser

open Syntax (Ident)

inductive Kind where
  | eof
  | invalid
  | identifier
  | integerLiteral
  | floatLiteral
  | stringLiteral
  | charLiteral
  | kwAlignof
  | kwAsm
  | kwAssert
  | kwAtomic
  | kwBool
  | kwBreak
  | kwComptime
  | kwConst
  | kwContinue
  | kwDefer
  | kwElse
  | kwEnum
  | kwClosure
  | kwErr
  | kwExport
  | kwExtern
  | kwFalse
  | kwFn
  | kwFor
  | kwIf
  | kwLet
  | kwMatch
  | kwMut
  | kwNever
  | kwNull
  | kwOk
  | kwOpen
  | kwOverlay
  | kwPacked
  | kwPub
  | kwReturn
  | kwSat
  | kwSerial
  | kwSizeof
  | kwStruct
  | kwSwitch
  | kwTrue
  | kwType
  | kwUnion
  | kwUninit
  | kwUnsafe
  | kwUnreachable
  | kwUse
  | kwVar
  | kwVoid
  | kwWhile
  | kwWrap
  | lParen
  | rParen
  | lBrace
  | rBrace
  | lBracket
  | rBracket
  | comma
  | dot
  | colon
  | doubleColon
  | semicolon
  | question
  | hash
  | at
  | underscore
  | plus
  | minus
  | star
  | slash
  | percent
  | amp
  | pipe
  | caret
  | tilde
  | bang
  | equal
  | less
  | greater
  | arrow
  | fatArrow
  | equalEqual
  | bangEqual
  | lessEqual
  | greaterEqual
  | ampAmp
  | pipePipe
  | shiftLeft
  | shiftRight
  | dotDot
  | dotDotDot
deriving DecidableEq

structure Token where
  kind : Kind
  lexeme : String := ""
  offset : ℕ := 0
deriving DecidableEq

abbrev Tokens := List Token

/-- A parse takes tokens off the front, or reports an error. -/
abbrev Parse (α : Type) := Tokens → Option (α × Tokens)

def current : Tokens → Kind
  | [] => .eof
  | token :: _ => token.kind

def currentLexeme : Tokens → String
  | [] => ""
  | token :: _ => token.lexeme

/-- `ident`. -/
def ident (token : Token) : Ident := ⟨token.lexeme, token.offset⟩

/-- `match` and `expectTok`: the tokens after one of the kind. -/
def accept (kind : Kind) (tokens : Tokens) : Option Tokens :=
  if current tokens = kind then some tokens.tail else none

@[simp] lemma current_nil : current [] = .eof := rfl

@[simp] lemma current_cons (token : Token) (tokens : Tokens) :
    current (token :: tokens) = token.kind := rfl

@[simp] lemma currentLexeme_cons (token : Token) (tokens : Tokens) :
    currentLexeme (token :: tokens) = token.lexeme := rfl

@[simp] lemma accept_cons (kind : Kind) (token : Token) (tokens : Tokens) :
    accept kind (token :: tokens) = if token.kind = kind then some tokens else none := rfl

/-- The kinds of tokens that are names. -/
def isSymbol (kind : Kind) : Bool :=
  kind ∈ [.identifier, .kwOk, .kwErr, .kwOpen, .kwType, .kwUse, .kwNever, .kwVoid, .kwBool, .kwWrap,
    .kwSat, .kwSerial, .kwAtomic, .kwSizeof, .kwAlignof]

def expectSymbol : Parse Ident
  | [] => none
  | token :: rest => if isSymbol token.kind then some (ident token, rest) else none

/-- Items with commas between them.  A comma before `close` ends the list. -/
def commaSeparated {α : Type} (item : Parse α) (close : Kind) : ℕ → Parse (List α)
  | 0, _ => none
  | fuel + 1, tokens => do
    let (first, rest) ← item tokens
    match accept .comma rest with
    | none => some ([first], rest)
    | some rest =>
      if current rest = close then some ([first], rest)
      else do
        let (others, rest) ← commaSeparated item close fuel rest
        some (first :: others, rest)

/-- Items that end before `close`, or none. -/
def itemsUntil {α : Type} (item : Parse α) (close : Kind) : Parse (List α) := fun tokens =>
  if current tokens = close then some ([], tokens)
  else commaSeparated item close (tokens.length + 1) tokens

end ModernC.Parser
