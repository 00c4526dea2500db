import ModernC.Layout.Layout
import ModernC.Parser.Tokens

/-!
# The expression parser

A Pratt parser over buffered tokens.  Each level of nesting is `level` over the parser one level
deeper, and the depth guards of the parser bound both the levels and the wrappers of one level.
The parsers of types and of blocks are parameters.
-/

namespace ModernC.Parser

open Syntax (Ident Expr TypeExpr Stmt StructLiteralField BinaryOp UnaryOp)

/-- `max_parse_depth`. -/
def maxParseDepth : ℕ := 256

/-- `max_generic_lookahead_tokens`. -/
def maxGenericLookaheadTokens : ℕ := 1024

/-- What the expression parser calls for types and blocks. -/
structure Subparsers where
  parseType : ℕ → Parse TypeExpr
  parseBlock : ℕ → Parse (List Stmt)

/-! ## Operators -/

structure Infix where
  leftBp : ℕ
  rightBp : ℕ
  op : BinaryOp
deriving DecidableEq

def prefixOperandBp : ℕ := 21

def infixOf : Kind → Option Infix
  | .pipePipe => some ⟨1, 2, .logicalOr⟩
  | .ampAmp => some ⟨3, 4, .logicalAnd⟩
  | .equalEqual => some ⟨5, 6, .eq⟩
  | .bangEqual => some ⟨5, 6, .ne⟩
  | .less => some ⟨7, 8, .lt⟩
  | .lessEqual => some ⟨7, 8, .le⟩
  | .greater => some ⟨7, 8, .gt⟩
  | .greaterEqual => some ⟨7, 8, .ge⟩
  | .pipe => some ⟨9, 10, .bitOr⟩
  | .caret => some ⟨11, 12, .bitXor⟩
  | .amp => some ⟨13, 14, .bitAnd⟩
  | .shiftLeft => some ⟨15, 16, .shl⟩
  | .shiftRight => some ⟨15, 16, .shr⟩
  | .plus => some ⟨17, 18, .add⟩
  | .minus => some ⟨17, 18, .sub⟩
  | .star => some ⟨19, 20, .mul⟩
  | .slash => some ⟨19, 20, .div⟩
  | .percent => some ⟨19, 20, .mod⟩
  | _ => none

/-! ## Generic calls -/

/-- The scan behind a `<`: a closing `>` after a type token and before `(` makes it a generic
call.  Nothing is found out when the lookahead runs out. -/
def scanTypeArgs (depth : ℕ) (sawTypeToken : Bool) : ℕ → Tokens → Option Bool
  | 0, _ => none
  | _ + 1, [] => some false
  | budget + 1, token :: rest =>
    if token.kind ∈ [.eof, .semicolon, .lBrace, .rBrace, .fatArrow, .equal, .lParen] then some false
    else if token.kind = .less then scanTypeArgs (depth + 1) false budget rest
    else if token.kind = .greater then
      if depth = 0 then some (sawTypeToken && decide (current rest = .lParen))
      else scanTypeArgs (depth - 1) true budget rest
    else if token.kind = .shiftRight then
      if depth = 0 then some false
      else if depth = 1 then some (sawTypeToken && decide (current rest = .lParen))
      else scanTypeArgs (depth - 1) true budget rest
    else if token.kind = .comma then
      if sawTypeToken then scanTypeArgs depth false budget rest else some false
    else scanTypeArgs depth true budget rest

def lessStartsGenericCall (tokens : Tokens) : Option Bool :=
  if current tokens = .less then scanTypeArgs 0 false maxGenericLookaheadTokens tokens.tail
  else some false

/-- A `>>` closes one list and leaves a `>`. -/
def consumeGenericClose : Tokens → Option Tokens
  | [] => none
  | token :: rest =>
    if token.kind = .greater then some rest
    else if token.kind = .shiftRight then some ({ token with kind := .greater, lexeme := ">" } :: rest)
    else none

def typeArg (parseType : Parse TypeExpr) : Parse TypeExpr
  | [] => parseType []
  | token :: rest =>
    if token.kind = .integerLiteral then some (.name (ident token), rest)
    else parseType (token :: rest)

/-- A comma is always followed by another argument; at `eof` the list is not closed either way. -/
def finishTypeArgsAfterLess (parseType : Parse TypeExpr) : Parse (List TypeExpr) := fun tokens => do
  let (args, rest) ←
    if current tokens = .greater then some ([], tokens)
    else commaSeparated (typeArg parseType) .eof (tokens.length + 1) tokens
  let rest ← consumeGenericClose rest
  some (args, rest)

/-! ## Calls -/

def isReflectionBuiltinCallee : Expr → Bool
  | .ident name =>
    name.text ∈ ["size_of", "sizeof", "alignof", "field_offset", "field_type", "bit_offset",
      "repr_of"]
  | .grouped inner => isReflectionBuiltinCallee inner
  | _ => false

def startsTypeExpr (kind : Kind) : Bool :=
  kind ∈ [.identifier, .kwBool, .kwNever, .kwVoid, .kwWrap, .kwSat, .kwSerial, .kwAtomic, .dot,
    .question, .kwMut, .kwConst, .star, .lBracket]

/-- The name of a scalar type that is never a value. -/
def scalarTypeNameIdent : Expr → Option Ident
  | .ident name =>
    if name.text ∈ ["PAddr", "VAddr", "DmaAddr"] then none
    else (Layout.scalarLayout name.text).map fun _ => name
  | _ => none

section Level

variable (parseType : Parse TypeExpr) (parseBlock : Parse (List Stmt)) (expr : ℕ → Parse Expr)

def finishReflectionSpecCall (callee : Expr) : Parse Expr := fun tokens => do
  let (typeArg, rest) ← parseType tokens
  let (args, rest) ←
    match accept .comma rest with
    | none => some ([], rest)
    | some rest => itemsUntil (expr 0) .rParen rest
  let rest ← accept .rParen rest
  some (.call callee [typeArg] args, rest)

def finishCall (callee : Expr) (typeArgs : List TypeExpr) : Parse Expr := fun tokens =>
  if typeArgs.isEmpty && isReflectionBuiltinCallee callee && startsTypeExpr (current tokens) then
    finishReflectionSpecCall parseType expr callee tokens
  else do
    let (args, rest) ← itemsUntil (expr 0) .rParen tokens
    let rest ← accept .rParen rest
    some (.call callee typeArgs args, rest)

/-! ## Primaries -/

def startsStructLiteralField (tokens : Tokens) : Bool :=
  current tokens = .dot && isSymbol (current tokens.tail) && current tokens.tail.tail = .equal

def structLiteralField : Parse StructLiteralField := fun tokens => do
  let rest ← accept .dot tokens
  let (name, rest) ← expectSymbol rest
  let rest ← accept .equal rest
  let (value, rest) ← expr 0 rest
  some (.mk name value, rest)

/-- What follows `.`: a struct or array literal, or the name of a case. -/
def parseDotPrimary : Parse Expr := fun tokens =>
  match accept .lBrace tokens with
  | some rest =>
    if startsStructLiteralField rest then do
      let (fields, rest) ←
        commaSeparated (structLiteralField expr) .rBrace (rest.length + 1) rest
      let rest ← accept .rBrace rest
      some (.structLiteral fields, rest)
    else do
      let (items, rest) ← itemsUntil (expr 0) .rBrace rest
      let rest ← accept .rBrace rest
      some (.arrayLiteral items, rest)
  | none => do
    let (name, rest) ← expectSymbol tokens
    some (.enumLiteral name, rest)

/-- An element of a tuple with where it starts. -/
def tupleElement : Parse (ℕ × Expr) := fun tokens => do
  let (value, rest) ← expr 0 tokens
  some ((((tokens.head?).map Token.offset).getD 0, value), rest)

/-- The fields of the struct that a tuple stands for. -/
def tupleFields (elements : List (ℕ × Expr)) : List StructLiteralField :=
  elements.mapIdx fun i element => .mk ⟨"_" ++ toString i, element.1⟩ element.2

/-- What follows `(`: a void literal, a tuple, a cast or a grouped expression. -/
def parseParenPrimary : Parse Expr := fun tokens =>
  match accept .rParen tokens with
  | some rest => some (.voidLiteral, rest)
  | none => do
    let (first, rest) ← tupleElement expr tokens
    match accept .comma rest with
    | some rest => do
      let (others, rest) ← commaSeparated (tupleElement expr) .eof (rest.length + 1) rest
      let rest ← accept .rParen rest
      some (.structLiteral (tupleFields (first :: others)), rest)
    | none => do
      let rest ← accept .rParen rest
      match accept .lParen rest, scalarTypeNameIdent first.2 with
      | some inner, some typeName => do
        let (operand, inner) ← expr 0 inner
        let inner ← accept .rParen inner
        some (.cast operand (.name typeName), inner)
      | _, _ => some (.grouped first.2, rest)

def literal (token : Token) : Option Expr :=
  match token.kind with
  | .integerLiteral => some (.intLiteral token.lexeme)
  | .floatLiteral => some (.floatLiteral token.lexeme)
  | .stringLiteral => some (.stringLiteral token.lexeme)
  | .charLiteral => some (.charLiteral token.lexeme)
  | .kwTrue => some (.boolLiteral true)
  | .kwFalse => some (.boolLiteral false)
  | .kwNull => some .nullLiteral
  | .kwUninit => some .uninitLiteral
  | .kwUnreachable => some .unreachableExpr
  | _ => none

def parsePrimary : Parse Expr
  | [] => none
  | token :: rest =>
    if isSymbol token.kind then some (.ident (ident token), rest)
    else
      match literal token with
      | some value => some (value, rest)
      | none =>
        if token.kind = .dot then parseDotPrimary expr rest
        else if token.kind = .lParen then parseParenPrimary expr rest
        else if token.kind = .lBrace then
          (parseBlock (token :: rest)).map fun (body, rest) => (.block body, rest)
        else none

/-! ## Prefixes -/

def operand (wrap : Expr → Expr) : Parse Expr := fun tokens =>
  (expr prefixOperandBp tokens).map fun (value, rest) => (wrap value, rest)

/-- What a name with a meaning of its own starts. -/
def parsePrefixName (token : Token) (rest : Tokens) : Option (Option (Expr × Tokens)) :=
  if token.kind = .identifier then
    if token.lexeme = "borrow" then
      match accept .kwMut rest with
      | some rest => some (operand expr (.borrowExpr .mutable) rest)
      | none => some (operand expr (.borrowExpr .none) rest)
    else if token.lexeme = "move" then some (operand expr .moveExpr rest)
    else if token.lexeme = "await" then some none
    else none
  else none

def parsePrefix : Parse Expr
  | [] => none
  | token :: rest =>
    if token.kind = .minus then operand expr (.unary .neg) rest
    else if token.kind = .tilde then operand expr (.unary .bitNot) rest
    else if token.kind = .bang then operand expr (.unary .logicalNot) rest
    else if token.kind = .star then operand expr .deref rest
    else if token.kind = .amp then operand expr .addressOf rest
    else
      match parsePrefixName expr token rest with
      | some parsed => parsed
      | none => parsePrimary parseBlock expr (token :: rest)

/-! ## Postfixes -/

/-- What follows `[`: an index or a slice. -/
def finishIndex (base : Expr) : Parse Expr := fun tokens => do
  let (first, rest) ← expr 0 tokens
  match accept .dotDot rest with
  | some rest => do
    let (stop, rest) ← expr 0 rest
    let rest ← accept .rBracket rest
    some (.slice base first stop, rest)
  | none => do
    let rest ← accept .rBracket rest
    some (.index base first, rest)

/-- What follows `.`: a dereference, an element of a tuple or a member. -/
def finishMember (base : Expr) : Parse Expr
  | [] => none
  | token :: rest =>
    if token.kind = .star then some (.deref base, rest)
    else if token.kind = .integerLiteral then
      some (.member base ⟨"_" ++ token.lexeme, token.offset⟩, rest)
    else (expectSymbol (token :: rest)).map fun (name, rest) => (.member base name, rest)

/-- What follows `?`: nothing, or what the error is mapped to. -/
def finishTry (inner : Expr) : Parse Expr := fun tokens =>
  match accept .kwElse tokens with
  | some rest =>
    (parsePrimary parseBlock expr rest).map fun (mapped, rest) =>
      (.tryExpr inner (some mapped), rest)
  | none => some (.tryExpr inner none, tokens)

/-- One wrapper, if a token starts one. -/
def postfixStep (value : Expr) (tokens : Tokens) : Option (Option (Expr × Tokens)) := do
  if ← lessStartsGenericCall tokens then
    let (typeArgs, rest) ← finishTypeArgsAfterLess parseType tokens.tail
    let rest ← accept .lParen rest
    (finishCall parseType expr value typeArgs rest).map some
  else if current tokens = .lParen then
    (finishCall parseType expr value [] tokens.tail).map some
  else if current tokens = .lBracket then (finishIndex expr value tokens.tail).map some
  else if current tokens = .dot then (finishMember value tokens.tail).map some
  else if current tokens = .question then
    (finishTry parseBlock expr value tokens.tail).map some
  else some none

/-- The wrappers around an expression, as many as the depth guard leaves. -/
def parsePostfix : ℕ → Expr → Parse Expr
  | wrappers, value, tokens => do
    match ← postfixStep parseType parseBlock expr value tokens with
    | none => some (value, tokens)
    | some (value, rest) =>
      match wrappers with
      | 0 => none
      | wrappers + 1 => parsePostfix wrappers value rest

/-! ## Infixes -/

/-- One infix operator or cast, if a token starts one that binds as tightly as asked. -/
def infixStep (minBp : ℕ) (left : Expr) (tokens : Tokens) : Option (Option (Expr × Tokens)) :=
  if current tokens = .identifier ∧ currentLexeme tokens = "as" then do
    let (ty, rest) ← parseType tokens.tail
    some (some (.cast left ty, rest))
  else
    match infixOf (current tokens) with
    | none => some none
    | some op =>
      if op.leftBp < minBp then some none
      else do
        let (right, rest) ← expr op.rightBp tokens.tail
        some (some (.binary op.op left right, rest))

/-- The operators of one level, as many as the depth guard leaves, each after its postfixes. -/
def infixLoop (minBp : ℕ) : ℕ → Expr → Parse Expr
  | wrappers, left, tokens => do
    let (left, rest) ← parsePostfix parseType parseBlock expr (maxParseDepth - 1) left tokens
    match ← infixStep parseType expr minBp left rest with
    | none => some (left, rest)
    | some (left, rest) =>
      match wrappers with
      | 0 => none
      | wrappers + 1 => infixLoop minBp wrappers left rest

def level (minBp : ℕ) : Parse Expr := fun tokens => do
  let (left, rest) ← parsePrefix parseBlock expr tokens
  infixLoop parseType parseBlock expr minBp (maxParseDepth - 1) left rest

end Level

/-- An expression, with as many levels left as the depth guard leaves. -/
def parseExpr (sub : Subparsers) : ℕ → ℕ → Parse Expr
  | 0, _ => fun _ => none
  | room + 1, minBp => level (sub.parseType room) (sub.parseBlock room) (parseExpr sub room) minBp

end ModernC.Parser

/-!
## The type parser

`parseType` of `parser.zig`.  Array lengths are expressions and tuple types are interned as
synthesized structs, and both of these are parameters.  The argument list of a generic type is
read as the one of a generic call: `finishTypeArgsAfterLess` at the type parser one level deeper.
-/

namespace ModernC.Parser

open Syntax (Ident Expr TypeExpr Mutability)

/-- What the type parser calls for array lengths and tuple types. -/
structure TypeSubparsers where
  parseExpr : ℕ → Parse Expr
  synthTupleStruct : List TypeExpr → Option Ident

def isContextualNameKeyword (kind : Kind) : Bool :=
  kind ∈ [.kwOk, .kwErr, .kwType, .kwUse, .kwOpen, .kwSat, .kwWrap]

def expectName : Parse Ident
  | [] => none
  | token :: rest =>
    if token.kind = .identifier || isContextualNameKeyword token.kind then some (ident token, rest)
    else none

def parseMutability (tokens : Tokens) : Mutability × Tokens :=
  match accept .kwMut tokens with
  | some rest => (.mutable, rest)
  | none =>
    match accept .kwConst tokens with
    | some rest => (.constant, rest)
    | none => (.none, tokens)

section Level

variable (parseType : Parse TypeExpr) (parseLength : Parse Expr)
  (synthTupleStruct : List TypeExpr → Option Ident)

/-- A child behind an optional mutability. -/
def qualifiedChild (wrap : Mutability → TypeExpr → TypeExpr) : Parse TypeExpr := fun tokens => do
  let (mutability, rest) := parseMutability tokens
  let (child, rest) ← parseType rest
  some (wrap mutability child, rest)

/-- What follows `*`: a trait object or a pointer. -/
def finishPointer : Parse TypeExpr := fun tokens => do
  let (mutability, rest) := parseMutability tokens
  if current rest = .identifier ∧ currentLexeme rest = "dyn" then do
    let (traitName, rest) ← expectName rest.tail
    some (.dynTrait mutability traitName, rest)
  else do
    let (child, rest) ← parseType rest
    some (.pointer mutability child, rest)

/-- What follows `[`: a raw many pointer, a slice or an array. -/
def finishBracket : Parse TypeExpr := fun tokens =>
  match accept .star tokens with
  | some rest => do
    let rest ← accept .rBracket rest
    qualifiedChild parseType .rawManyPointer rest
  | none =>
    match accept .rBracket tokens with
    | some rest => qualifiedChild parseType .slice rest
    | none => do
      let (len, rest) ← parseLength tokens
      let rest ← accept .rBracket rest
      let (child, rest) ← parseType rest
      some (.array len child, rest)

/-- Types with commas between them up to a `)`. -/
def parenTypes : Parse (List TypeExpr) := fun tokens => do
  let (types, rest) ←
    if current tokens = .rParen then some ([], tokens)
    else commaSeparated parseType .eof (tokens.length + 1) tokens
  let rest ← accept .rParen rest
  some (types, rest)

/-- What follows `(`: a parenthesized type or a tuple. -/
def finishTuple : Parse TypeExpr := fun tokens => do
  let (elems, rest) ← parenTypes parseType tokens
  match elems with
  | [] => none
  | [elem] => some (elem, rest)
  | elems => do
    let name ← synthTupleStruct elems
    some (.name name, rest)

/-- What follows `fn` or `closure`. -/
def finishSignature (wrap : List TypeExpr → TypeExpr → TypeExpr) : Parse TypeExpr :=
  fun tokens => do
    let rest ← accept .lParen tokens
    let (params, rest) ← parenTypes parseType rest
    let rest ← accept .arrow rest
    let (ret, rest) ← parseType rest
    some (wrap params ret, rest)

/-- The members of a named type, as many as the depth guard leaves. -/
def memberTypes : ℕ → TypeExpr → Parse TypeExpr
  | wrappers, ty, tokens =>
    match accept .dot tokens with
    | none => some (ty, tokens)
    | some rest => do
      let (field, rest) ← expectSymbol rest
      match wrappers with
      | 0 => none
      | wrappers + 1 => memberTypes wrappers (.member ty field) rest

def namedType : Parse TypeExpr := fun tokens => do
  let (base, rest) ← expectSymbol tokens
  match accept .less rest with
  | none => memberTypes (maxParseDepth - 1) (.name base) rest
  | some rest => do
    let (args, rest) ← finishTypeArgsAfterLess parseType rest
    memberTypes (maxParseDepth - 1) (.generic base args) rest

def typeLevel : Parse TypeExpr
  | [] => none
  | token :: rest =>
    if token.kind = .dot then
      (expectSymbol rest).map fun (name, rest) => (.enumLiteral name, rest)
    else if token.kind = .question then
      (parseType rest).map fun (child, rest) => (.nullable child, rest)
    else if token.kind = .kwMut ∨ token.kind = .kwConst then
      qualifiedChild parseType .qualified (token :: rest)
    else if token.kind = .star then finishPointer parseType rest
    else if token.kind = .lBracket then finishBracket parseType parseLength rest
    else if token.kind = .lParen then finishTuple parseType synthTupleStruct rest
    else if token.kind = .kwFn then finishSignature parseType .fnPointer rest
    else if token.kind = .kwClosure then finishSignature parseType .closureType rest
    else if token.kind = .kwType then some (.name ⟨"type", token.offset⟩, rest)
    else namedType parseType (token :: rest)

end Level

/-- A type, with as many levels left as the depth guard leaves. -/
def parseType (sub : TypeSubparsers) : ℕ → Parse TypeExpr
  | 0 => fun _ => none
  | room + 1 => typeLevel (parseType sub room) (sub.parseExpr room) sub.synthTupleStruct

/-! ## Written type arguments -/

/-- A type argument: an integer literal, a type name or a generic type. -/
inductive TypeArg where
  | integer (token : Token)
  | named (token : Token)
  | generic (base : Token) (args : List TypeArg)

namespace TypeArg

/-- The tokens that are type names: the ones `expectSymbol` takes, less `type`. -/
def isTypeName (token : Token) : Bool := isSymbol token.kind && token.kind != .kwType

/-- Literals and names have the kinds they should, and every argument list has an argument. -/
inductive WellFormed : TypeArg → Prop where
  | integer {token : Token} (h : token.kind = .integerLiteral) : WellFormed (.integer token)
  | named {token : Token} (h : isTypeName token = true) : WellFormed (.named token)
  | generic {base : Token} {args : List TypeArg} (h : isTypeName base = true) (hne : args ≠ [])
      (hargs : ∀ arg ∈ args, WellFormed arg) : WellFormed (.generic base args)

mutual

/-- The type that an argument stands for. -/
def toTypeExpr : TypeArg → TypeExpr
  | .integer token => .name (ident token)
  | .named token => .name (ident token)
  | .generic base args => .generic (ident base) (toTypeExprs args)

def toTypeExprs : List TypeArg → List TypeExpr
  | [] => []
  | arg :: args => arg.toTypeExpr :: toTypeExprs args

end

mutual

/-- How deep the type parser nests to read an argument. -/
def nesting : TypeArg → ℕ
  | .integer _ => 0
  | .named _ => 1
  | .generic _ args => nestings args + 1

def nestings : List TypeArg → ℕ
  | [] => 0
  | arg :: args => max arg.nesting (nestings args)

end

/-- A `>`. -/
def closer : Token := { kind := .greater, lexeme := ">" }

mutual

/-- The tokens of an argument with one `>` for each list it closes. -/
def write : TypeArg → Tokens
  | .integer token => [token]
  | .named token => [token]
  | .generic base args => base :: { kind := .less, lexeme := "<" } :: writeArgs args

/-- The tokens of a list of arguments with the `>` that closes it. -/
def writeArgs : List TypeArg → Tokens
  | [] => [closer]
  | [arg] => arg.write ++ [closer]
  | arg :: next :: args =>
    arg.write ++ { kind := .comma, lexeme := "," } :: writeArgs (next :: args)

end

def isGeneric : TypeArg → Bool
  | .generic _ _ => true
  | _ => false

/-- No generic type in the argument has a generic type as its last argument. -/
inductive LastPlain : TypeArg → Prop where
  | integer {token : Token} : LastPlain (.integer token)
  | named {token : Token} : LastPlain (.named token)
  | generic {base : Token} {args : List TypeArg} (hargs : ∀ arg ∈ args, LastPlain arg)
      (hlast : ∀ last ∈ args.getLast?, last.isGeneric = false) : LastPlain (.generic base args)

end TypeArg

/-- Maximal munch: of adjacent `>` the lexer takes two at a time. -/
def munch : Tokens → Tokens
  | [] => []
  | [token] => [token]
  | first :: second :: rest =>
    if first.kind = .greater ∧ second.kind = .greater then
      { kind := .shiftRight, lexeme := ">>", offset := first.offset } :: munch rest
    else first :: munch (second :: rest)

end ModernC.Parser
