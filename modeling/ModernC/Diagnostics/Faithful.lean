import ModernC.Diagnostics.Document

/-!
# When the document is JSON

The writer escapes control characters, quotes and backslashes, and copies every byte from 128 on.
So the document is UTF-8, and says what it is to say, where the messages, the paths and the quoted
lines are UTF-8.  A message that quotes a single byte of a longer character is not.  The main
result is `appendJson_faithful_iff`.
-/

namespace ModernC.Diagnostics

open Framework

variable {r : Reporter}

/-- **The document is faithful:** it is the text of a JSON value, with white space behind it, and
the bytes of the strings of the value are those that the document is to say. -/
def Faithful (r : Reporter) : Prop :=
  ∃ value : Json (List Char), ∃ bytes, Denotes value bytes ∧ value.encoded = document r ∧
    appendJson r = bytes ++ [ascii '\n']

/-- The path of a place and the line quoted there are UTF-8. -/
def PlaceUtf8 (r : Reporter) (span : Span) : Prop :=
  IsUtf8 (r.pathOf span) ∧ ∀ line, r.sourceLine span = some line → IsUtf8 line.text

def NoteUtf8 (r : Reporter) (note : Note) : Prop :=
  IsUtf8 note.message ∧ ∀ span, note.span = some span → PlaceUtf8 r span

def DiagnosticUtf8 (r : Reporter) (diag : Diagnostic) : Prop :=
  IsUtf8 diag.message ∧ PlaceUtf8 r diag.span ∧ ∀ note ∈ diag.notes, NoteUtf8 r note

/-- All messages, paths and quoted lines are UTF-8. -/
def ReporterUtf8 (r : Reporter) : Prop :=
  (∀ diag ∈ r.diagnostics, DiagnosticUtf8 r diag) ∧ (r.diagnosticOom = true → IsUtf8 r.path)

/-! ## Messages -/

lemma isAscii_of_isCodeByte {bytes : Bytes} (h : bytes.all isCodeByte = true) : IsAscii bytes := by
  intro b hb
  have hcode := List.all_eq_true.mp h b hb
  have hle : ∀ b' : UInt8, b'.toNat < 128 → b ≤ b' → b.toNat < 128 := fun b' h' h =>
    Nat.lt_of_le_of_lt (UInt8.le_iff_toNat_le.mp h) h'
  simp only [isCodeByte, Bool.or_eq_true, Bool.and_eq_true, decide_eq_true_eq] at hcode
  rcases hcode with (⟨-, hletter⟩ | ⟨-, hdigit⟩) | rfl
  · exact hle _ (by decide) hletter
  · exact hle _ (by decide) hdigit
  · decide

/-- Blanks in front do not matter. -/
lemma isUtf8_dropWhile (bytes : Bytes) :
    IsUtf8 (bytes.dropWhile fun b => b = ascii ' ' || b = ascii '\t') ↔ IsUtf8 bytes := by
  have hsplit : bytes.takeWhile (fun b => b = ascii ' ' || b = ascii '\t') ++
      bytes.dropWhile (fun b => b = ascii ' ' || b = ascii '\t') = bytes :=
    List.takeWhile_append_dropWhile
  have hascii : IsAscii (bytes.takeWhile fun b => b = ascii ' ' || b = ascii '\t') := by
    intro b hb
    have hblank := List.mem_takeWhile_imp (p := fun b => b = ascii ' ' || b = ascii '\t') hb
    simp only [Bool.or_eq_true, decide_eq_true_eq] at hblank
    rcases hblank with rfl | rfl <;> decide
  conv_rhs => rw [← hsplit]
  exact (hascii.append_iff _).symm

/-- A message with a colon is its front, the colon and what is behind. -/
lemma exists_behind_colon {message : Bytes} (h : ascii ':' ∈ message) :
    ∃ front back, message.takeWhile (· ≠ ascii ':') = front ∧
      message = front ++ ascii ':' :: back := by
  have hsplit : message.takeWhile (· ≠ ascii ':') ++ message.dropWhile (· ≠ ascii ':') = message :=
    List.takeWhile_append_dropWhile
  rcases hrest : message.dropWhile (· ≠ ascii ':') with _ | ⟨b, back⟩
  · rw [hrest, List.append_nil] at hsplit
    rw [← hsplit] at h
    have hne := List.mem_takeWhile_imp (p := fun b => decide (b ≠ ascii ':')) h
    exact absurd rfl (of_decide_eq_true hne)
  · have hnot := List.head_dropWhile_not (fun b => decide (b ≠ ascii ':')) (l := message)
      (by rw [hrest]; exact List.cons_ne_nil _ _)
    simp only [hrest, List.head_cons, decide_eq_false_iff_not, not_not] at hnot
    refine ⟨_, back, rfl, ?_⟩
    rw [hrest, hnot] at hsplit
    exact hsplit.symm

/-- **The code and the message** are UTF-8 where the whole message is. -/
lemma isUtf8_parsed (message : Bytes) :
    (∀ code, (parseDiagnosticMessage message).code = some code → IsUtf8 code) ∧
      (IsUtf8 (parseDiagnosticMessage message).message ↔ IsUtf8 message) := by
  unfold parseDiagnosticMessage
  split
  · split
    · next hcolon =>
      dsimp only
      split
      · next hcode =>
        have hascii := isAscii_of_isCodeByte hcode
        refine ⟨?_, ?_⟩
        · rintro code hsome
          obtain rfl := Option.some.inj hsome
          exact hascii.isUtf8
        · rw [isUtf8_dropWhile]
          obtain ⟨front, back, hfront, hmessage⟩ := exists_behind_colon hcolon
          rw [hfront] at hascii ⊢
          rw [hmessage, ← List.drop_drop, List.drop_left, isUtf8_append_cons (by decide)]
          exact (and_iff_right hascii.isUtf8).symm
      · exact ⟨nofun, Iff.rfl⟩
    · exact ⟨nofun, Iff.rfl⟩
  · exact ⟨nofun, Iff.rfl⟩

/-! ## The document -/

variable {members : List Member}

lemma allUtf8Members_iff :
    AllUtf8Members members ↔ ∀ m ∈ members, IsUtf8 m.1 ∧ m.2.AllUtf8 := by
  induction members with
  | nil => exact iff_of_true trivial nofun
  | cons m members ih =>
    rw [AllUtf8Members, ih, List.forall_mem_cons]

lemma allUtf8Items_iff {items : List (Json Bytes)} :
    AllUtf8Items items ↔ ∀ item ∈ items, item.AllUtf8 := by
  induction items with
  | nil => exact iff_of_true trivial nofun
  | cons item items ih => rw [AllUtf8Items, ih, List.forall_mem_cons]

/-- The members of a list are UTF-8. -/
def MembersUtf8 (members : List Member) : Prop := ∀ m ∈ members, IsUtf8 m.1 ∧ m.2.AllUtf8

lemma allUtf8_object :
    (Json.object members).AllUtf8 ↔ MembersUtf8 members := allUtf8Members_iff

lemma membersUtf8_nil : MembersUtf8 [] ↔ True := iff_of_true nofun trivial

lemma membersUtf8_cons {m : Member} :
    MembersUtf8 (m :: members) ↔ (IsUtf8 m.1 ∧ m.2.AllUtf8) ∧ MembersUtf8 members :=
  List.forall_mem_cons

lemma membersUtf8_append {front back : List Member} :
    MembersUtf8 (front ++ back) ↔ MembersUtf8 front ∧ MembersUtf8 back :=
  List.forall_mem_append

/-- The names in the texts of the program. -/
lemma isUtf8_names :
    IsUtf8 (asciiBytes "path") ∧ IsUtf8 (asciiBytes "file") ∧
    IsUtf8 (asciiBytes "line") ∧ IsUtf8 (asciiBytes "column") ∧
    IsUtf8 (asciiBytes "offset") ∧ IsUtf8 (asciiBytes "length") ∧
    IsUtf8 (asciiBytes "span") ∧ IsUtf8 (asciiBytes "text") ∧
    IsUtf8 (asciiBytes "highlight_length") ∧ IsUtf8 (asciiBytes "caret") ∧
    IsUtf8 (asciiBytes "source") ∧ IsUtf8 (asciiBytes "message") ∧
    IsUtf8 (asciiBytes "code") ∧ IsUtf8 (asciiBytes "notes") ∧
    IsUtf8 (asciiBytes "severity") ∧ IsUtf8 (asciiBytes "diagnostics") ∧
    IsUtf8 (asciiBytes "error_count") ∧ IsUtf8 (asciiBytes "warning_count") := by
  refine ⟨?_, ?_, ?_, ?_, ?_, ?_, ?_, ?_, ?_, ?_, ?_, ?_, ?_, ?_, ?_, ?_, ?_, ?_⟩ <;>
    exact (isAscii_of_all (by decide)).isUtf8

lemma allUtf8_number (n : ℕ) : (Json.number n : Json Bytes).AllUtf8 ↔ True := Iff.rfl

lemma allUtf8_string (bytes : Bytes) : (Json.string bytes).AllUtf8 ↔ IsUtf8 bytes := Iff.rfl

lemma membersUtf8_place (span : Span) :
    MembersUtf8 (placeMembers r span) ↔ IsUtf8 (r.pathOf span) := by
  simp only [placeMembers, member, membersUtf8_cons, membersUtf8_nil, allUtf8_string,
    allUtf8_number, isUtf8_names, and_true, true_and, and_self]

lemma membersUtf8_span (span : Span) : MembersUtf8 [spanMember span] := by
  simp only [spanMember, member, membersUtf8_cons, membersUtf8_nil, allUtf8_object, allUtf8_number,
    isUtf8_names, and_true]

lemma isUtf8_caret (highlightLen : ℕ) : IsUtf8 (caret highlightLen) := by
  apply IsAscii.isUtf8
  intro b hb
  rcases List.mem_cons.mp hb with rfl | hb
  · decide
  · obtain ⟨-, rfl⟩ := List.mem_replicate.mp hb
    decide

lemma membersUtf8_source (line : Option SourceLine) :
    MembersUtf8 (sourceMembers line) ↔ ∀ l, line = some l → IsUtf8 l.text := by
  cases line with
  | none => exact iff_of_true nofun nofun
  | some line =>
    simp only [sourceMembers, member, membersUtf8_cons, membersUtf8_nil, allUtf8_object,
      allUtf8_string, allUtf8_number, isUtf8_names, isUtf8_caret, and_true, true_and,
      Option.some.injEq, forall_eq']

lemma allUtf8_noteElement (note : Note) : (noteElement r note).AllUtf8 ↔ NoteUtf8 r note := by
  rw [noteElement, allUtf8_object, membersUtf8_cons, NoteUtf8]
  cases note.span with
  | none => simp [member, isUtf8_names, membersUtf8_nil, allUtf8_string]
  | some span =>
    dsimp only
    rw [List.append_cons, membersUtf8_append, membersUtf8_append, membersUtf8_place,
      membersUtf8_source, and_iff_left (membersUtf8_span span)]
    simp [member, isUtf8_names, allUtf8_string, PlaceUtf8]

lemma membersUtf8_code {code : Option Bytes} (h : ∀ c, code = some c → IsUtf8 c) :
    MembersUtf8 (codeMembers code) := by
  cases code with
  | none => exact nofun
  | some code =>
    simp only [codeMembers, membersUtf8_cons, membersUtf8_nil, member, isUtf8_names,
      allUtf8_string, h code rfl, and_self]

lemma membersUtf8_notes (notes : List Note) :
    MembersUtf8 (noteMembers r notes) ↔ ∀ note ∈ notes, NoteUtf8 r note := by
  cases notes with
  | nil => exact iff_of_true nofun nofun
  | cons note notes =>
    have harray : (Json.array ((note :: notes).map (noteElement r))).AllUtf8 ↔
        ∀ n ∈ note :: notes, NoteUtf8 r n := by
      rw [Json.AllUtf8, allUtf8Items_iff, List.forall_mem_map]
      exact forall₂_congr fun n _ => allUtf8_noteElement n
    simp only [noteMembers, membersUtf8_cons, membersUtf8_nil, member, isUtf8_names, harray,
      and_true, true_and]

lemma allUtf8_element (diag : Diagnostic) :
    (element r diag).AllUtf8 ↔ DiagnosticUtf8 r diag := by
  have hcode := membersUtf8_code (isUtf8_parsed diag.message).1
  have hseverity : IsUtf8 (asciiBytes diag.severity.name) := by
    apply IsAscii.isUtf8
    cases diag.severity with
    | error_ | warning => exact isAscii_of_all (by decide)
  rw [element, allUtf8_object, membersUtf8_cons, membersUtf8_cons, membersUtf8_append,
    membersUtf8_append, ← List.singleton_append, membersUtf8_append, membersUtf8_append,
    membersUtf8_place, membersUtf8_source, membersUtf8_notes, DiagnosticUtf8, PlaceUtf8]
  simp only [member, allUtf8_string, hseverity, hcode, membersUtf8_span,
    isUtf8_names, true_and, (isUtf8_parsed diag.message).2, and_assoc]

lemma allUtf8_oomElement : (oomElement r).AllUtf8 ↔ IsUtf8 r.path := by
  have hmessage : IsUtf8 (asciiBytes "compiler diagnostic allocation failed") :=
    (isAscii_of_all (by decide)).isUtf8
  have herror : IsUtf8 (asciiBytes "error") := (isAscii_of_all (by decide)).isUtf8
  have hcode : IsUtf8 (asciiBytes "E_DIAGNOSTIC_OOM") :=
    (isAscii_of_all (by decide)).isUtf8
  rw [oomElement, allUtf8_object]
  simp only [member, membersUtf8_cons, membersUtf8_nil, allUtf8_string, allUtf8_number, hmessage,
    herror, hcode, isUtf8_names, true_and, and_true]
  have hspan := membersUtf8_span
    { offset := 0, len := 0, line := 1, column := 1, fileId := invalidFileId }
  rw [membersUtf8_cons, membersUtf8_nil, and_true] at hspan
  rw [and_iff_left hspan, and_self]

/-- **The strings of the document** are UTF-8 where those of the reporter are. -/
lemma allUtf8_document : (document r).AllUtf8 ↔ ReporterUtf8 r := by
  have harray : (Json.array (elements r)).AllUtf8 ↔ ReporterUtf8 r := by
    rw [Json.AllUtf8, allUtf8Items_iff, elements, List.forall_mem_append, List.forall_mem_map,
      ReporterUtf8]
    refine and_congr (forall₂_congr fun diag _ => allUtf8_element diag) ?_
    cases r.diagnosticOom with
    | false => exact iff_of_true (by simp) (by simp)
    | true => simp [allUtf8_oomElement]
  rw [document, allUtf8_object]
  simp only [member, membersUtf8_cons, membersUtf8_nil, allUtf8_number, harray,
    isUtf8_names, true_and, and_true]

/-! ## The condition -/

lemma faithful_iff : Faithful r ↔ ReporterUtf8 r := by
  rw [← allUtf8_document]
  constructor
  · rintro ⟨value, bytes, -, hencoded, -⟩
    rw [← hencoded]
    exact value.allUtf8_encoded
  · intro h
    obtain ⟨value, hvalue⟩ := (document r).exists_encoded h
    refine ⟨value, value.encoded.write, value.denotes_write, hvalue, ?_⟩
    rw [hvalue]
    exact appendJson_eq r

lemma isUtf8_appendJson : IsUtf8 (appendJson r) ↔ ReporterUtf8 r := by
  rw [appendJson_eq, isUtf8_append_singleton (by decide), Json.isUtf8_write, allUtf8_document]

/-- **The document is faithful** exactly where all messages, paths and quoted lines are UTF-8, and
elsewhere it is not even UTF-8. -/
theorem appendJson_faithful_iff (r : Reporter) :
    (Faithful r ↔ ReporterUtf8 r) ∧ (IsUtf8 (appendJson r) ↔ ReporterUtf8 r) :=
  ⟨faithful_iff, isUtf8_appendJson⟩

/-! ## A byte that is quoted -/

/-- What the lexer reports of a byte that starts no token. -/
def unexpectedByte (c : UInt8) (offset : ℕ) : Diagnostic :=
  { severity := .error_
    span := { offset, len := 1, line := 1, column := offset + 1, fileId := invalidFileId }
    message := asciiBytes "E_LEX_UNEXPECTED_BYTE: unexpected byte '" ++ c :: asciiBytes "'" }

lemma not_isUtf8_singleton {b : UInt8} (hb : 128 ≤ b.toNat) : ¬IsUtf8 [b] := by
  rintro ⟨text, htext⟩
  rcases text with _ | ⟨c, text⟩
  · exact absurd htext nofun
  · rw [encode_cons] at htext
    have hlength := congrArg List.length htext
    rw [List.length_append, String.length_utf8EncodeChar] at hlength
    have hpos := c.utf8Size_pos
    have hsize : c.utf8Size = 1 := by
      simp only [List.length_singleton] at hlength
      omega
    have hsmall : c.val.toNat ≤ 127 := UInt32.le_iff_toNat_le.mp (Char.utf8Size_eq_one_iff.mp hsize)
    rcases utf8EncodeChar_cases c with ⟨hlt, hone⟩ | ⟨hle, -⟩
    · rw [hone] at htext
      have hbyte := congrArg UInt8.toNat (List.cons.inj htext).1
      rw [UInt8.toNat_ofNat', Nat.mod_eq_of_lt (by omega)] at hbyte
      omega
    · have hsame : c.toNat = c.val.toNat := rfl
      omega

/-- **A letter with an accent** outside of strings: the lexer quotes the first of its two bytes, and
the document is not UTF-8, though the source is. -/
theorem not_faithful_quotedByte : ∃ r : Reporter, IsUtf8 r.source ∧ IsUtf8 r.path ∧
    r.diagnostics = [unexpectedByte 0xC3 0, unexpectedByte 0xA9 1] ∧
    ¬Faithful r ∧ ¬IsUtf8 (appendJson r) := by
  have hnot : ¬ReporterUtf8
      { path := asciiBytes "a.mc"
        source := [0xC3, 0xA9]
        diagnostics := [unexpectedByte 0xC3 0, unexpectedByte 0xA9 1] } := by
    intro h
    have hmessage := (h.1 _ List.mem_cons_self).1
    have hquote : asciiBytes "E_LEX_UNEXPECTED_BYTE: unexpected byte '" =
        asciiBytes "E_LEX_UNEXPECTED_BYTE: unexpected byte " ++ [ascii '\''] := by decide
    have hend : asciiBytes "'" = [ascii '\''] := by decide
    rw [unexpectedByte, hquote, hend, List.append_assoc, List.singleton_append,
      isUtf8_append_cons (by decide), ← List.singleton_append,
      isUtf8_append_singleton (by decide)] at hmessage
    exact not_isUtf8_singleton (by decide) hmessage.2
  refine ⟨_, ?_, ?_, rfl, fun h => hnot (faithful_iff.mp h),
    fun h => hnot (isUtf8_appendJson.mp h)⟩
  · exact ⟨['\u00e9'], by decide⟩
  · exact (isAscii_of_all (by decide)).isUtf8

end ModernC.Diagnostics
