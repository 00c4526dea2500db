import ModernC.Framework.Json

/-!
# Diagnostics as JSON

A reporter holds diagnostics with notes, each at a span of a source.  `appendJson` writes them out
as one JSON document, with separators and nesting written by hand.
-/

namespace ModernC.Diagnostics

open Framework

/-! ## Data -/

structure Span where
  offset : ℕ
  len : ℕ
  line : ℕ
  column : ℕ
  fileId : ℕ

def invalidFileId : ℕ := 2 ^ 32 - 1

inductive Severity where
  | error_
  | warning
deriving DecidableEq

structure Note where
  span : Option Span := none
  message : Bytes

structure Diagnostic where
  severity : Severity
  span : Span
  message : Bytes
  notes : List Note := []

structure SourceView where
  fileId : ℕ
  path : Bytes
  source : Bytes

structure Reporter where
  path : Bytes
  source : Bytes
  sourceViews : Option (List SourceView) := none
  ownedSourceViews : List SourceView := []
  diagnostics : List Diagnostic
  diagnosticOom : Bool := false

/-! ## Places -/

def Reporter.sourceView (r : Reporter) (fileId : ℕ) : Option SourceView :=
  match (r.sourceViews.getD []).find? fun view => view.fileId == fileId with
  | some view => some view
  | none => r.ownedSourceViews.find? fun view => view.fileId == fileId

/-- The view of a span with a file. -/
def Reporter.viewOf (r : Reporter) (span : Span) : Option SourceView :=
  if span.fileId ≠ invalidFileId then r.sourceView span.fileId else none

/-- The path that `mappedSpan` gives; the other fields of a mapped span are those of the span. -/
def Reporter.pathOf (r : Reporter) (span : Span) : Bytes :=
  match r.viewOf span with
  | some view => view.path
  | none => r.path

/-- Where the line of an offset starts. -/
def lineStart (source : Bytes) : ℕ → ℕ
  | 0 => 0
  | start + 1 => if source[start]? = some (ascii '\n') then start + 1 else lineStart source start

/-- Where the line of an offset ends. -/
def lineEnd (source : Bytes) (offset : ℕ) : ℕ :=
  offset + ((source.drop offset).takeWhile fun b => b ≠ ascii '\n' && b ≠ ascii '\r').length

structure SourceLine where
  text : Bytes
  column : ℕ
  highlightLen : ℕ

def isTrimmed (b : UInt8) : Bool := b = ascii ' ' || b = ascii '\t' || b = ascii '\r'

/-- The line of a source that a span starts in, if there is more than blanks in it. -/
def lineOf (source : Bytes) (span : Span) : Option SourceLine :=
  if source.length = 0 then none
  else
    let offset := min span.offset (source.length - 1)
    let start := lineStart source offset
    let line := (source.take (lineEnd source offset)).drop start
    if line.all isTrimmed then none
    else
      let column := if start ≤ span.offset then span.offset - start + 1 else span.column
      let offsetInLine := if 0 < column then column - 1 else 0
      let remaining := if offsetInLine < line.length then line.length - offsetInLine else 0
      some { text := line, column, highlightLen := max 1 (min span.len remaining) }

def Reporter.sourceLine (r : Reporter) (span : Span) : Option SourceLine :=
  lineOf (match r.viewOf span with | some view => view.source | none => r.source) span

/-! ## Messages -/

structure ParsedMessage where
  code : Option Bytes
  message : Bytes

def isCodeByte (b : UInt8) : Bool :=
  (ascii 'A' ≤ b && b ≤ ascii 'Z') || (ascii '0' ≤ b && b ≤ ascii '9') || b = ascii '_'

/-- The code in front of a message, if there is one. -/
def parseDiagnosticMessage (message : Bytes) : ParsedMessage :=
  if asciiBytes "E_" <+: message then
    if ascii ':' ∈ message then
      let code := message.takeWhile (· ≠ ascii ':')
      if code.all isCodeByte then
        { code := some code
          message := (message.drop (code.length + 1)).dropWhile fun b =>
            b = ascii ' ' || b = ascii '\t' }
      else { code := none, message }
    else { code := none, message }
  else { code := none, message }

/-! ## The document -/

def appendJsonString (s : Bytes) : Bytes := writeString s

def appendCaretJsonString (highlightLen : ℕ) : Bytes :=
  ascii '"' :: ascii '^' :: (List.replicate (highlightLen - 1) (ascii '~') ++ [ascii '"'])

def Severity.name : Severity → String
  | .error_ => "error"
  | .warning => "warning"

/-- The path of a place, its line and its column. -/
def appendPlace (r : Reporter) (span : Span) : Bytes :=
  asciiBytes ",\"path\":" ++ appendJsonString (r.pathOf span) ++
    asciiBytes ",\"file\":" ++ appendJsonString (r.pathOf span) ++
    asciiBytes ",\"line\":" ++ decimal span.line ++ asciiBytes ",\"column\":" ++
    decimal span.column

def appendSpan (span : Span) : Bytes :=
  asciiBytes ",\"span\":\x7b\"offset\":" ++ decimal span.offset ++
    asciiBytes ",\"length\":" ++ decimal span.len ++ asciiBytes ",\"line\":" ++
    decimal span.line ++ asciiBytes ",\"column\":" ++ decimal span.column ++ asciiBytes "\x7d"

def appendSource : Option SourceLine → Bytes
  | none => []
  | some line =>
    asciiBytes ",\"source\":\x7b" ++ asciiBytes "\"text\":" ++ appendJsonString line.text ++
      asciiBytes ",\"column\":" ++ decimal line.column ++ asciiBytes ",\"highlight_length\":" ++
      decimal line.highlightLen ++ asciiBytes ",\"caret\":" ++
      appendCaretJsonString line.highlightLen ++ asciiBytes "\x7d"

/-- What a loop appends for the elements of a list, with commas between them. -/
def appendAll {α : Type} (append : α → Bytes) (items : List α) : Bytes :=
  items.zipIdx.flatMap fun (item, i) => (if 0 < i then [ascii ','] else []) ++ append item

def appendNote (r : Reporter) (note : Note) : Bytes :=
  asciiBytes "\x7b\"message\":" ++ appendJsonString note.message ++
    (match note.span with
    | none => []
    | some span => appendPlace r span ++ appendSpan span ++ appendSource (r.sourceLine span)) ++
    asciiBytes "\x7d"

def appendCode : Option Bytes → Bytes
  | none => []
  | some code => asciiBytes ",\"code\":" ++ appendJsonString code

def appendNotes (r : Reporter) (notes : List Note) : Bytes :=
  if 0 < notes.length then
    asciiBytes ",\"notes\":[" ++ appendAll (appendNote r) notes ++ asciiBytes "]"
  else []

def appendDiagnostic (r : Reporter) (diag : Diagnostic) : Bytes :=
  let parsed := parseDiagnosticMessage diag.message
  asciiBytes "\x7b\"severity\":" ++ appendJsonString (asciiBytes diag.severity.name) ++
    asciiBytes ",\"message\":" ++ appendJsonString parsed.message ++ appendPlace r diag.span ++
    appendCode parsed.code ++ appendSpan diag.span ++ appendSource (r.sourceLine diag.span) ++
    appendNotes r diag.notes ++ asciiBytes "\x7d"

/-- What is appended when a diagnostic could not be recorded. -/
def appendOom (r : Reporter) : Bytes :=
  asciiBytes ("\x7b\"severity\":\"error\",\"message\":" ++
    "\"compiler diagnostic allocation failed\",\"path\":") ++ appendJsonString r.path ++ asciiBytes ",\"file\":" ++
    appendJsonString r.path ++ asciiBytes (",\"line\":1,\"column\":1," ++
    "\"code\":\"E_DIAGNOSTIC_OOM\",\"span\":\x7b\"offset\":0,\"length\":0,\"line\":1," ++
    "\"column\":1\x7d\x7d")

def Reporter.errorCount (r : Reporter) : ℕ :=
  (r.diagnostics.countP fun diag => diag.severity = .error_) + if r.diagnosticOom then 1 else 0

def Reporter.warningCount (r : Reporter) : ℕ :=
  r.diagnostics.countP fun diag => diag.severity = .warning

def appendJson (r : Reporter) : Bytes :=
  asciiBytes "\x7b\"diagnostics\":[" ++ appendAll (appendDiagnostic r) r.diagnostics ++
    (if r.diagnosticOom then
      (if 0 < r.diagnostics.length then [ascii ','] else []) ++ appendOom r
    else []) ++
    asciiBytes "],\"error_count\":" ++ decimal r.errorCount ++
    asciiBytes ",\"warning_count\":" ++ decimal r.warningCount ++ asciiBytes "\x7d\n"

end ModernC.Diagnostics
