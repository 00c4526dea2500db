import Mathlib.Logic.Function.Basic
import ModernC.Framework.CheckedWords

/-!
# The module loader

Every file that is imported, directly or through others, is read once and recorded with its imports.
In the view of a file that the parser reads, the import statements are blanked.  The tokens of a
file, the resolution of a path and the file system are given.
-/

namespace ModernC.Loader

open Framework

abbrev Bytes := List UInt8

structure Span where
  offset : ℕ
  len : ℕ
  line : ℕ
  column : ℕ
deriving DecidableEq

/-! ## Data -/

inductive LoadError where
  | importNotFound
  | importBudgetExceeded
  | accessDenied
  | inputOutput
deriving DecidableEq

/-- The codes `E_IMPORT_...` -/
inductive ImportCode where
  | invalidString
  | outsideSandbox
  | notFound
  | depthLimit
  | fileLimit
  | totalBytesLimit
deriving DecidableEq

structure Diagnostic where
  code : ImportCode
  span : Span
  fileId : ℕ
deriving DecidableEq

structure LoadLimits where
  maxFiles : ℕ
  maxTotalInputBytes : ℕ
  maxImportDepth : ℕ

structure LoadBudget where
  limits : LoadLimits
  fileCount : ℕ
  totalInputBytes : ℕ
  exhausted : Bool

structure ModuleFile where
  id : ℕ
  canonicalPath : Bytes
  displayPath : Bytes
  depth : ℕ

structure ImportEdge where
  importer : ℕ
  imported : ℕ
  span : Span
deriving DecidableEq

structure SourceFile where
  id : ℕ
  source : Bytes
  parserSource : Bytes

structure PendingFile where
  id : ℕ
  path : Bytes
  displayPath : Bytes
  source : Bytes
  depth : ℕ

structure ResolvedImport where
  path : Bytes
  displayPath : Bytes
  outsideSandbox : Bool

structure ImportRef where
  path : Bytes
  displayPath : Bytes
  span : Span
  start : ℕ
  stop : ℕ
  outsideSandbox : Bool

inductive TokenKind where
  | eof
  | lBrace
  | rBrace
  | identifier
  | stringLiteral
  | semicolon
  | other
deriving DecidableEq

structure Token where
  kind : TokenKind
  lexeme : Bytes
  span : Span

/-- What surrounds the loader. -/
structure Env where
  -- there is a reporter for diagnostics
  reporter : Bool
  tokens : Bytes → List Token
  lexErrors : Bytes → Bool
  -- `resolveImportPath`, for an importing file and the path it asks for
  resolve : Bytes → Bytes → Except LoadError ResolvedImport
  read : Bytes → Option Bytes

/-- The graph that is built, the budget, the table of files and what was reported. -/
structure LoadState where
  files : List ModuleFile
  imports : List ImportEdge
  sources : List SourceFile
  budget : LoadBudget
  discovered : Bytes → Option ℕ
  reported : List Diagnostic

/-! ## Scanning -/

def stripUtf8Bom (source : Bytes) : Bytes :=
  if [0xEF, 0xBB, 0xBF].isPrefixOf source then source.drop 3 else source

/-- The bytes that an escape sequence stands for. -/
def decodeEscape (byte : UInt8) : Option UInt8 :=
  if byte = 92 ∨ byte = 39 ∨ byte = 34 then some byte
  else if byte = 48 then some 0
  else if byte = 110 then some 10
  else if byte = 114 then some 13
  else if byte = 116 then some 9
  else none

/-- The bytes of a string literal without its quotes. -/
def decodeBody : Bytes → Option Bytes
  | [] => some []
  | 92 :: [] => none
  | 92 :: byte :: rest => do
    let decoded ← decodeEscape byte
    let tail ← decodeBody rest
    return decoded :: tail
  | byte :: rest => do
    let tail ← decodeBody rest
    return byte :: tail

/-- `string_literal.decodeInto`, whose storage is always long enough. -/
def decodeInto (literal : Bytes) : Option Bytes :=
  if literal.length < 2 ∨ literal.head? ≠ some 34 ∨ literal.getLast? ≠ some 34 then none
  else decodeBody (literal.drop 1).dropLast

section

variable (env : Env)

/-- An import statement, or the span of a path that is not valid. -/
def scanImport (path : Bytes) (t str semi : Token) : Except LoadError (ImportRef ⊕ Span) :=
  match decodeInto str.lexeme with
  | none => if env.reporter then .ok (.inr str.span) else .error .importNotFound
  | some rel =>
    if rel.contains 0 then
      if env.reporter then .ok (.inr str.span) else .error .importNotFound
    else
      match env.resolve path rel with
      | .error e => .error e
      | .ok resolved => .ok (.inl ⟨resolved.path, resolved.displayPath, t.span, t.span.offset,
          semi.span.offset + semi.span.len, resolved.outsideSandbox⟩)

/-- The bytes of `import`. -/
def importLexeme : Bytes := [105, 109, 112, 111, 114, 116]

/-- The loop over the tokens of a file, at a depth of braces. -/
def scanTokens (path : Bytes) :
    List Token → Int → Except LoadError (List ImportRef × List Span)
  | [], _ => .ok ([], [])
  | t :: rest, depth =>
    if t.kind = .eof then .ok ([], [])
    else if t.kind = .lBrace then scanTokens path rest (depth + 1)
    else if t.kind = .rBrace then scanTokens path rest (depth - 1)
    else if depth = 0 ∧ t.kind = .identifier ∧ t.lexeme = importLexeme then
      match rest with
      | str :: semi :: rest =>
        if str.kind = .stringLiteral ∧ semi.kind = .semicolon then
          match scanImport env path t str semi with
          | .error e => .error e
          | .ok found =>
            match scanTokens path rest depth with
            | .error e => .error e
            | .ok (refs, invalid) =>
              match found with
              | .inl ref => .ok (ref :: refs, invalid)
              | .inr span => .ok (refs, span :: invalid)
        else scanTokens path rest depth
      | _ => .ok ([], [])
    else scanTokens path rest depth

/-- What the lexer itself finds wrong has its own reports, and is an error without a reporter. -/
def scanImports (path : Bytes) (fileId : ℕ) (source : Bytes) :
    Except LoadError (List ImportRef × List Diagnostic) :=
  match scanTokens env path (env.tokens source) 0 with
  | .error e => .error e
  | .ok (refs, invalid) =>
    if !env.reporter && env.lexErrors source then .error .importNotFound
    else .ok (refs, invalid.map fun span => ⟨.invalidString, span, fileId⟩)

/-! ## Blanking -/

def blankRange (source : Bytes) (imp : ImportRef) : Bytes :=
  source.mapIdx fun i byte =>
    if imp.start ≤ i ∧ i < imp.stop ∧ byte ≠ 10 ∧ byte ≠ 13 then 32 else byte

def blanked (imports : List ImportRef) (source : Bytes) : Bytes := imports.foldl blankRange source

/-! ## The budget -/

def LoadState.report (s : LoadState) (diag : Diagnostic) : LoadState :=
  { s with reported := s.reported ++ [diag] }

def rejectBudget (s : LoadState) (diag : Diagnostic) : Except LoadError LoadState :=
  if env.reporter then .ok { s.report diag with budget := { s.budget with exhausted := true } }
  else .error .importBudgetExceeded

/-- Where a file was asked for. -/
structure Origin where
  span : Span
  fileId : ℕ

/-- The origin of the root. -/
def Origin.root : Origin := ⟨⟨0, 0, 1, 1⟩, 0⟩

def reserveFile (s : LoadState) (origin : Origin) (depth inputBytes : ℕ) :
    Except LoadError LoadState :=
  if s.budget.limits.maxImportDepth < depth then
    rejectBudget env s ⟨.depthLimit, origin.span, origin.fileId⟩
  else if s.budget.limits.maxFiles ≤ s.budget.fileCount then
    rejectBudget env s ⟨.fileLimit, origin.span, origin.fileId⟩
  else
    match checkedAdd 64 s.budget.totalInputBytes inputBytes with
    | none => rejectBudget env s ⟨.totalBytesLimit, origin.span, origin.fileId⟩
    | some nextTotal =>
      if s.budget.limits.maxTotalInputBytes < nextTotal then
        rejectBudget env s ⟨.totalBytesLimit, origin.span, origin.fileId⟩
      else .ok { s with budget := { s.budget with
        fileCount := s.budget.fileCount + 1, totalInputBytes := nextTotal } }

/-! ## Recording -/

/-- `recordFile`, with the entry in the table of files. -/
def recordFile (s : LoadState) (path displayPath : Bytes) (depth : ℕ) : LoadState :=
  { s with
    files := s.files ++ [⟨s.files.length, path, displayPath, depth⟩]
    discovered := Function.update s.discovered path (some s.files.length) }

def recordImport (s : LoadState) (importer imported : ℕ) (span : Span) : LoadState :=
  { s with imports := s.imports ++ [⟨importer, imported, span⟩] }

def recordSourceFile (s : LoadState) (id : ℕ) (source parserSource : Bytes) : LoadState :=
  { s with sources := s.sources ++ [⟨id, source, parserSource⟩] }

/-! ## Expansion -/

/-- How the loop over the imports goes on. -/
inductive Next where
  | go (s : LoadState) (child : Option PendingFile)
  | stop (s : LoadState)

/-- An import that cannot be loaded is reported. -/
def refuse (s : LoadState) (code : ImportCode) (item : PendingFile) (imp : ImportRef) :
    Except LoadError Next :=
  if env.reporter then .ok (.go (s.report ⟨code, imp.span, item.id⟩) none)
  else .error .importNotFound

/-- A file is read, reserved and recorded. -/
def loadImport (s : LoadState) (item : PendingFile) (imp : ImportRef) : Except LoadError Next :=
  match env.read imp.path with
  | none => refuse env s .notFound item imp
  | some source =>
    match reserveFile env s ⟨imp.span, item.id⟩ (item.depth + 1) (stripUtf8Bom source).length with
    | .error e => .error e
    | .ok s =>
      if s.budget.exhausted then .ok (.stop s)
      else
        let id := s.files.length
        let s := recordFile s imp.path imp.displayPath (item.depth + 1)
        let s := recordImport s item.id id imp.span
        .ok (.go s (some ⟨id, imp.path, imp.displayPath, source, item.depth + 1⟩))

/-- The body of the loop over the imports of a file. -/
def expandImport (s : LoadState) (item : PendingFile) (imp : ImportRef) : Except LoadError Next :=
  if imp.outsideSandbox then refuse env s .outsideSandbox item imp
  else
    match s.discovered imp.path with
    | some id => .ok (.go (recordImport s item.id id imp.span) none)
    | none =>
      if s.budget.limits.maxImportDepth ≤ item.depth then
        (rejectBudget env s ⟨.depthLimit, imp.span, item.id⟩).map .stop
      else if s.budget.limits.maxFiles ≤ s.budget.fileCount then
        (rejectBudget env s ⟨.fileLimit, imp.span, item.id⟩).map .stop
      else loadImport env s item imp

/-- The loop over the imports of a file, which collects the files to expand next. -/
def expandImports (item : PendingFile) :
    List ImportRef → LoadState → List PendingFile → Except LoadError (LoadState × List PendingFile)
  | [], s, children => .ok (s, children)
  | imp :: imports, s, children =>
    match expandImport env s item imp with
    | .error e => .error e
    | .ok (.go s child) => expandImports item imports s (children ++ child.toList)
    | .ok (.stop s) => .ok (s, children)

/-- The body of the loop over the pending files. -/
def expandFile (s : LoadState) (item : PendingFile) :
    Except LoadError (LoadState × List PendingFile) :=
  let fileSource := stripUtf8Bom item.source
  match scanImports env item.path item.id fileSource with
  | .error e => .error e
  | .ok (imports, reports) =>
    let s := { s with reported := s.reported ++ reports }
    let s := recordSourceFile s item.id fileSource (blanked imports fileSource)
    expandImports env item imports s []

/-- The loop over the pending files, of which the next one stands in front. -/
def expandPending : ℕ → LoadState → List PendingFile → Option (Except LoadError LoadState)
  | 0, _, _ => none
  | _ + 1, s, [] => some (.ok s)
  | fuel + 1, s, item :: pending =>
    if s.budget.exhausted then some (.ok s)
    else
      match expandFile env s item with
      | .error e => some (.error e)
      | .ok (s, children) =>
        if s.budget.exhausted then some (.ok s) else expandPending fuel s (children ++ pending)

def initialState (limits : LoadLimits) : LoadState :=
  { files := [], imports := [], sources := [],
    budget := { limits := limits, fileCount := 0, totalInputBytes := 0, exhausted := false },
    discovered := fun _ => none, reported := [] }

/-- **The expansion of the imports** of a root file. -/
def expandAll (limits : LoadLimits) (path displayPath source : Bytes) :
    Option (Except LoadError LoadState) :=
  match reserveFile env (initialState limits) .root 0 (stripUtf8Bom source).length with
  | .error e => some (.error e)
  | .ok s =>
    if s.budget.exhausted then some (.ok s)
    else
      let s := recordFile s path displayPath 0
      -- a file is pending once, and no more than `max_files` are recorded
      expandPending env (limits.maxFiles + 1) s [⟨0, path, displayPath, source, 0⟩]

end

end ModernC.Loader
