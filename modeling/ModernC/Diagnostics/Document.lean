import ModernC.Diagnostics.Reporter

/-!
# The document of a reporter

What the document is to say: an element for each diagnostic in order, with the strings as bytes,
and the counts.  `appendJson` writes this document.
-/

namespace ModernC.Diagnostics

open Framework

variable (r : Reporter)

/-! ## What is to be written -/

abbrev Member := Bytes × Json Bytes

def member (name : String) (value : Json Bytes) : Member := (asciiBytes name, value)

def placeMembers (span : Span) : List Member :=
  [member "path" (.string (r.pathOf span)), member "file" (.string (r.pathOf span)),
    member "line" (.number span.line), member "column" (.number span.column)]

def spanMember (span : Span) : Member :=
  member "span" (.object [member "offset" (.number span.offset), member "length" (.number span.len),
    member "line" (.number span.line), member "column" (.number span.column)])

/-- A caret under the first byte and tildes under the others. -/
def caret (highlightLen : ℕ) : Bytes := ascii '^' :: List.replicate (highlightLen - 1) (ascii '~')

def sourceMembers : Option SourceLine → List Member
  | none => []
  | some line =>
    [member "source" (.object [member "text" (.string line.text),
      member "column" (.number line.column), member "highlight_length" (.number line.highlightLen),
      member "caret" (.string (caret line.highlightLen))])]

def noteElement (note : Note) : Json Bytes :=
  .object (member "message" (.string note.message) ::
    match note.span with
    | none => []
    | some span =>
      placeMembers r span ++ spanMember span :: sourceMembers (r.sourceLine span))

def codeMembers : Option Bytes → List Member
  | none => []
  | some code => [member "code" (.string code)]

def noteMembers : List Note → List Member
  | [] => []
  | notes => [member "notes" (.array (notes.map (noteElement r)))]

/-- The element of a diagnostic. -/
def element (diag : Diagnostic) : Json Bytes :=
  .object (member "severity" (.string (asciiBytes diag.severity.name)) ::
    member "message" (.string (parseDiagnosticMessage diag.message).message) ::
    (placeMembers r diag.span ++ (codeMembers (parseDiagnosticMessage diag.message).code ++
      spanMember diag.span :: (sourceMembers (r.sourceLine diag.span) ++
        noteMembers r diag.notes))))

/-- The element for a diagnostic that could not be recorded. -/
def oomElement : Json Bytes :=
  .object [member "severity" (.string (asciiBytes "error")),
    member "message" (.string (asciiBytes "compiler diagnostic allocation failed")),
    member "path" (.string r.path), member "file" (.string r.path), member "line" (.number 1),
    member "column" (.number 1), member "code" (.string (asciiBytes "E_DIAGNOSTIC_OOM")),
    spanMember { offset := 0, len := 0, line := 1, column := 1, fileId := invalidFileId }]

def elements : List (Json Bytes) :=
  r.diagnostics.map (element r) ++ if r.diagnosticOom then [oomElement r] else []

/-- **The document:** the elements in order, and how many errors and warnings there are. -/
def document : Json Bytes :=
  .object [member "diagnostics" (.array (elements r)),
    member "error_count" (.number r.errorCount), member "warning_count" (.number r.warningCount)]

/-! ## It is written -/

lemma appendAll_eq {α : Type} (append : α → Bytes) (toJson : α → Json Bytes)
    (h : ∀ a, append a = (toJson a).write) (items : List α) :
    appendAll append items = writeItems (items.map toJson) := by
  have hrest : ∀ (items : List α) (k : ℕ), 0 < k →
      ((items.zipIdx k).flatMap fun entry =>
        (if 0 < entry.2 then [ascii ','] else []) ++ append entry.1) =
      (items.map toJson).flatMap fun next => ascii ',' :: next.write := by
    intro items
    induction items with
    | nil => exact fun k _ => rfl
    | cons item items ih =>
      intro k hk
      rw [List.zipIdx_cons, List.flatMap_cons, List.map_cons, List.flatMap_cons,
        ih (k + 1) (Nat.succ_pos k)]
      dsimp only
      rw [if_pos hk, h]
      rfl
  cases items with
  | nil => rfl
  | cons item items =>
    rw [appendAll, List.zipIdx_cons, List.flatMap_cons, List.map_cons, writeItems_cons,
      hrest items (0 + 1) Nat.one_pos]
    dsimp only
    rw [if_neg (Nat.lt_irrefl 0), h]
    rfl

/-- A name with a colon behind it. -/
def nameBytes (name : String) : Bytes := writeString (asciiBytes name) ++ [ascii ':']

/-- The names as the texts of the program have them. -/
lemma names_written :
    (asciiBytes ",\"path\":" = ascii ',' :: nameBytes "path" ∧
      asciiBytes ",\"file\":" = ascii ',' :: nameBytes "file" ∧
      asciiBytes ",\"line\":" = ascii ',' :: nameBytes "line" ∧
      asciiBytes ",\"column\":" = ascii ',' :: nameBytes "column" ∧
      asciiBytes ",\"length\":" = ascii ',' :: nameBytes "length" ∧
      asciiBytes ",\"message\":" = ascii ',' :: nameBytes "message" ∧
      asciiBytes ",\"code\":" = ascii ',' :: nameBytes "code" ∧
      asciiBytes ",\"highlight_length\":" = ascii ',' :: nameBytes "highlight_length" ∧
      asciiBytes ",\"caret\":" = ascii ',' :: nameBytes "caret" ∧
      asciiBytes ",\"warning_count\":" = ascii ',' :: nameBytes "warning_count" ∧
      asciiBytes "\"text\":" = nameBytes "text") ∧
    (asciiBytes ",\"span\":\x7b\"offset\":" =
        ascii ',' :: (nameBytes "span" ++ ascii '\x7b' :: nameBytes "offset") ∧
      asciiBytes ",\"source\":\x7b" = ascii ',' :: (nameBytes "source" ++ [ascii '\x7b']) ∧
      asciiBytes "\x7b\"message\":" = ascii '\x7b' :: nameBytes "message" ∧
      asciiBytes "\x7b\"severity\":" = ascii '\x7b' :: nameBytes "severity" ∧
      asciiBytes ",\"notes\":[" = ascii ',' :: (nameBytes "notes" ++ [ascii '[']) ∧
      asciiBytes "\x7b\"diagnostics\":[" =
        ascii '\x7b' :: (nameBytes "diagnostics" ++ [ascii '[']) ∧
      asciiBytes "],\"error_count\":" = ascii ']' :: ascii ',' :: nameBytes "error_count" ∧
      asciiBytes "]" = [ascii ']'] ∧ asciiBytes "\x7d" = [ascii '\x7d'] ∧
      asciiBytes "\x7d\n" = [ascii '\x7d', ascii '\n']) := by
  decide

lemma writeMember_eq (name : String) (value : Json Bytes) :
    writeMember (member name value) = nameBytes name ++ value.write := by
  rw [nameBytes, List.append_assoc]
  rfl

/-- Members behind others. -/
def behind (members : List Member) : Bytes :=
  members.flatMap fun next => ascii ',' :: writeMember next

lemma behind_nil : behind [] = [] := rfl

lemma behind_cons (name : String) (value : Json Bytes) (members : List Member) :
    behind (member name value :: members) =
      ascii ',' :: (nameBytes name ++ (value.write ++ behind members)) := by
  rw [← List.append_assoc, ← writeMember_eq]
  rfl

lemma behind_append (front back : List Member) :
    behind (front ++ back) = behind front ++ behind back := List.flatMap_append

/-- An object is its first member and the others behind it. -/
lemma write_object (name : String) (value : Json Bytes) (members : List Member) :
    (Json.object (member name value :: members)).write =
      ascii '\x7b' :: (nameBytes name ++ (value.write ++ (behind members ++ [ascii '\x7d']))) := by
  rw [Json.write, writeMembers_cons, writeMember_eq]
  simp only [behind, List.append_assoc]

lemma appendPlace_eq (span : Span) : appendPlace r span = behind (placeMembers r span) := by
  obtain ⟨⟨hpath, hfile, hline, hcolumn, -⟩, -⟩ := names_written
  simp only [appendPlace, placeMembers, behind_cons, behind_nil, hpath, hfile, hline, hcolumn,
    write_string, write_number, appendJsonString, List.append_assoc, List.cons_append, List.append_nil]

lemma appendSpan_eq (span : Span) : appendSpan span = behind [spanMember span] := by
  obtain ⟨⟨-, -, hline, hcolumn, hlength, -⟩, hspan, -, -, -, -, -, -, -, hclose, -⟩ :=
    names_written
  simp only [appendSpan, spanMember, behind_cons, behind_nil, hline, hcolumn, hlength, hspan,
    hclose, write_object, write_number, List.append_assoc, List.cons_append, List.append_nil]

lemma caret_written (highlightLen : ℕ) :
    appendCaretJsonString highlightLen = writeString (caret highlightLen) := by
  have htilde : ∀ n, (List.replicate n (ascii '~')).flatMap escapeByte =
      List.replicate n (ascii '~') := by
    intro n
    induction n with
    | zero => rfl
    | succ n ih =>
      rw [List.replicate_succ, List.flatMap_cons, ih]
      rfl
  have hcaret : escapeByte (ascii '^') = [ascii '^'] := by decide
  rw [writeString, caret, List.flatMap_cons, htilde, hcaret]
  rfl

lemma appendSource_eq (line : Option SourceLine) :
    appendSource line = behind (sourceMembers line) := by
  cases line with
  | none => rfl
  | some line =>
    obtain ⟨⟨-, -, -, hcolumn, -, -, -, hhighlight, hcaret, -, htext⟩, -, hsource, -, -, -, -, -,
      -, hclose, -⟩ := names_written
    simp only [appendSource, sourceMembers, behind_cons, behind_nil, hcolumn, hhighlight, hcaret,
      htext, hsource, hclose, caret_written, write_object, write_string, write_number,
      appendJsonString, List.append_assoc, List.cons_append, List.nil_append, List.append_nil]

lemma appendNote_eq (note : Note) : appendNote r note = (noteElement r note).write := by
  obtain ⟨-, -, -, hmessage, -, -, -, -, -, hclose, -⟩ := names_written
  cases hspan : note.span with
  | none =>
    simp only [appendNote, noteElement, hspan, write_object, behind_nil, hmessage, hclose,
      write_string, appendJsonString, List.append_assoc, List.cons_append, List.nil_append]
  | some span =>
    have hmembers : behind (placeMembers r span ++ spanMember span ::
        sourceMembers (r.sourceLine span)) =
        appendPlace r span ++ (appendSpan span ++ appendSource (r.sourceLine span)) := by
      rw [List.append_cons, behind_append, behind_append, appendPlace_eq, appendSpan_eq,
        appendSource_eq, List.append_assoc]
    simp only [appendNote, noteElement, hspan, write_object, hmembers, hmessage, hclose,
      write_string, appendJsonString, List.append_assoc, List.cons_append]

lemma appendCode_eq (code : Option Bytes) : appendCode code = behind (codeMembers code) := by
  obtain ⟨⟨-, -, -, -, -, -, hcode, -⟩, -⟩ := names_written
  cases code with
  | none => rfl
  | some code =>
    simp only [appendCode, codeMembers, behind_cons, behind_nil, hcode, write_string,
      appendJsonString, List.cons_append, List.append_nil]

lemma appendNotes_eq (notes : List Note) : appendNotes r notes = behind (noteMembers r notes) := by
  obtain ⟨-, -, -, -, -, hnotes, -, -, harray, -⟩ := names_written
  cases notes with
  | nil => rfl
  | cons note notes =>
    rw [appendNotes, if_pos (List.length_pos_of_ne_nil (List.cons_ne_nil _ _)),
      appendAll_eq (appendNote r) (noteElement r) (appendNote_eq r)]
    simp only [noteMembers, behind_cons, behind_nil, hnotes, harray, write_array,
      List.append_assoc, List.cons_append, List.nil_append, List.append_nil]

/-- **The element of a diagnostic** is what the loop appends for it. -/
lemma appendDiagnostic_eq (diag : Diagnostic) :
    appendDiagnostic r diag = (element r diag).write := by
  obtain ⟨⟨-, -, -, -, -, hmessage, -⟩, -, -, -, hseverity, -, -, -, -, hclose, -⟩ := names_written
  have hmembers : behind (placeMembers r diag.span ++
      (codeMembers (parseDiagnosticMessage diag.message).code ++
        spanMember diag.span :: (sourceMembers (r.sourceLine diag.span) ++
          noteMembers r diag.notes))) =
      appendPlace r diag.span ++ (appendCode (parseDiagnosticMessage diag.message).code ++
        (appendSpan diag.span ++ (appendSource (r.sourceLine diag.span) ++
          appendNotes r diag.notes))) := by
    rw [← List.singleton_append, behind_append, behind_append, behind_append, behind_append,
      appendPlace_eq, appendCode_eq, appendSpan_eq, appendSource_eq, appendNotes_eq]
  simp only [appendDiagnostic, element, write_object, behind_cons, hmembers, hseverity, hmessage,
    hclose, write_string, appendJsonString, List.append_assoc, List.cons_append]

lemma appendOom_eq : appendOom r = (oomElement r).write := by
  obtain ⟨⟨-, hfile, -⟩, -⟩ := names_written
  have hfront : asciiBytes ("\x7b\"severity\":\"error\",\"message\":" ++
      "\"compiler diagnostic allocation failed\",\"path\":") =
      ascii '\x7b' :: (nameBytes "severity" ++ (writeString (asciiBytes "error") ++
        ascii ',' :: (nameBytes "message" ++
          (writeString (asciiBytes "compiler diagnostic allocation failed") ++
            ascii ',' :: nameBytes "path")))) := by decide
  have hback : asciiBytes (",\"line\":1,\"column\":1," ++
      "\"code\":\"E_DIAGNOSTIC_OOM\",\"span\":\x7b\"offset\":0,\"length\":0,\"line\":1," ++
      "\"column\":1\x7d\x7d") =
      behind [member "line" (.number 1), member "column" (.number 1),
        member "code" (.string (asciiBytes "E_DIAGNOSTIC_OOM")),
        spanMember { offset := 0, len := 0, line := 1, column := 1, fileId := invalidFileId }] ++
      [ascii '\x7d'] := by decide
  simp only [appendOom, hfront, hback, oomElement, write_object, behind_cons, write_string, hfile,
    appendJsonString, List.append_assoc, List.cons_append]

/-- **`appendJson` writes the document**, with the end of a line behind it. -/
theorem appendJson_eq : appendJson r = (document r).write ++ [ascii '\n'] := by
  obtain ⟨⟨-, -, -, -, -, -, -, -, -, hwarning, -⟩, -, -, -, -, -, hdiagnostics, herror, -, -, hend⟩ :=
    names_written
  have hsplit : ∀ (items : List (Json Bytes)) (last : Json Bytes), writeItems (items ++ [last]) =
      writeItems items ++ (if 0 < items.length then [ascii ','] else []) ++ last.write := by
    intro items last
    cases items with
    | nil =>
      simp [writeItems, commaBefore]
    | cons item items =>
      rw [List.cons_append, writeItems_cons, writeItems_cons, List.flatMap_append]
      simp
  have hall : appendAll (appendDiagnostic r) r.diagnostics ++ (if r.diagnosticOom then
      (if 0 < r.diagnostics.length then [ascii ','] else []) ++ appendOom r else []) =
      writeItems (elements r) := by
    rw [appendAll_eq (appendDiagnostic r) (element r) (appendDiagnostic_eq r), elements]
    cases r.diagnosticOom with
    | false => simp
    | true => rw [if_pos rfl, if_pos rfl, hsplit, List.length_map, appendOom_eq, List.append_assoc]
  simp only [appendJson, document, write_object, behind_cons, behind_nil, write_array, write_number,
    hdiagnostics, herror, hwarning, hend, ← hall, List.append_assoc, List.cons_append,
    List.nil_append]

end ModernC.Diagnostics
