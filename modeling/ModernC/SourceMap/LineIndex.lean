import Mathlib.Data.List.DropRight
import ModernC.Framework.CheckedWords
import ModernC.Lexer.Loop

/-!
# Rows of a source map

A row tells in which line of the generated C text a source point is.  The lines are looked up in an
index that is read back from the `#line` directives of the text.
-/

namespace ModernC.SourceMap

open Framework
open Lexer (Text splitLines)

/-! ## The program -/

/-- A digit of `{X}`. -/
def hexDigit (n : ℕ) : Char :=
  if n < 10 then Char.ofNat ('0'.toNat + n) else Char.ofNat ('A'.toNat + (n - 10))

def escapeChar (ch : Char) : Text :=
  match ch with
  | '\\' => ['\\', '\\']
  | '"' => ['\\', '"']
  | '\n' => ['\\', 'n']
  | '\r' => ['\\', 'r']
  | '\t' => ['\\', 't']
  | ch =>
    if ch.toNat < 0x20 ∨ ch.toNat = 0x7f then
      ['\\', 'x', hexDigit (ch.toNat / 16), hexDigit (ch.toNat % 16)]
    else [ch]

def appendEscapedString (text : Text) : Text := text.flatMap escapeChar

def linePrefix : Text := ['#', 'l', 'i', 'n', 'e', ' ']

/-- Nothing is written without a path or a line. -/
def appendLineDirective (sourcePath : Option Text) (line : ℕ) : Text :=
  match sourcePath with
  | none => []
  | some path =>
    if line = 0 then []
    else linePrefix ++ Nat.toDigits 10 line ++ [' ', '"'] ++ appendEscapedString path ++
      ['"', '\n']

structure GeneratedLine where
  sourceLine : ℕ
  generatedLine : ℕ
deriving DecidableEq

/-- The loop over the digits, whose value is a word. -/
def readDigits (value : ℕ) (sawDigit : Bool) : Text → Option (ℕ × Bool)
  | [] => some (value, sawDigit)
  | ch :: rest =>
    if ch.isDigit then do
      let scaled ← checkedMul 64 value 10
      let value ← checkedAdd 64 scaled (ch.toNat - '0'.toNat)
      readDigits value true rest
    else some (value, sawDigit)

/-- The line of a directive if the text is one, unless the arithmetic traps. -/
def cLineDirectiveSourceLine (line : Text) : Option (Option ℕ) :=
  if linePrefix <+: line then do
    let (value, sawDigit) ← readDigits 0 false (line.drop linePrefix.length)
    return if sawDigit then some value else none
  else some none

/-- `std.mem.trim(u8, raw_line, "\r")` -/
def trimReturns (rawLine : Text) : Text :=
  (rawLine.dropWhile (· == '\r')).rdropWhile (· == '\r')

/-- The loop over the lines, from the number of a line on. -/
def indexLines (generatedLine : ℕ) : List Text → Option (List GeneratedLine)
  | [] => some []
  | rawLine :: rest => do
    let sourceLine ← cLineDirectiveSourceLine (trimReturns rawLine)
    let entries ← indexLines (generatedLine + 1) rest
    return match sourceLine with
      | some sourceLine => ⟨sourceLine, generatedLine + 1⟩ :: entries
      | none => entries

def buildGeneratedLineIndex (generatedC : Text) : Option (List GeneratedLine) :=
  indexLines 1 (splitLines generatedC)

/-- Both loops go over the whole index. -/
def generatedLineForSource (lineIndex : List GeneratedLine) (sourceLine : ℕ) : ℕ :=
  match lineIndex.find? (·.sourceLine == sourceLine) with
  | some entry => entry.generatedLine
  | none =>
    match lineIndex.find? (·.sourceLine == sourceLine) with
    | some entry => entry.generatedLine
    | none => 0

/-- The `generated_c_line` of a row that `emitEntry` writes for a point of a line. -/
def generatedCLine (generatedC : Text) (sourceLine : ℕ) : Option ℕ := do
  let lineIndex ← buildGeneratedLineIndex generatedC
  return generatedLineForSource lineIndex sourceLine

/-! ## Directives -/

/-- The text is a directive for a line of a file. -/
def Directs (text : Text) (line : ℕ) (path : Text) : Prop :=
  ∃ digits, digits ≠ [] ∧ (∀ c ∈ digits, c.isDigit = true) ∧ Nat.ofDigitChars 10 digits 0 = line ∧
    text = linePrefix ++ digits ++ [' ', '"'] ++ appendEscapedString path ++ ['"']

def leadingDigits (text : Text) : Text := text.takeWhile Char.isDigit

/-- The number that follows the prefix of a directive. -/
def lineNumber (text : Text) : Option ℕ :=
  if linePrefix <+: text ∧ leadingDigits (text.drop linePrefix.length) ≠ [] then
    some (Nat.ofDigitChars 10 (leadingDigits (text.drop linePrefix.length)) 0)
  else none

/-- The number of the line, if it has one, is a word. -/
def IsWordLine (text : Text) : Prop := ∀ number, lineNumber text = some number → number < 2 ^ 64

/-- The first of the lines with a property, from a number on. -/
def FirstAt (holds : Text → Prop) (lines : List Text) (k : ℕ) : Prop :=
  (∃ l, lines[k]? = some l ∧ holds (trimReturns l)) ∧
    ∀ j < k, ∀ l, lines[j]? = some l → ¬ holds (trimReturns l)

/-- The row names the line behind the first directive of the point, or none if there is none. -/
def NamesLine (generatedC path : Text) (line : ℕ) : Prop :=
  ∃ g, generatedCLine generatedC line = some g ∧
    ((∃ k, FirstAt (Directs · line path) (splitLines generatedC) k ∧ g = k + 2) ∨
      (g = 0 ∧ ∀ l ∈ splitLines generatedC, ¬ Directs (trimReturns l) line path))

/-- The numbers of the directives are words, and the first directive of the line is one of the
file. -/
def OwnLineFirst (generatedC path : Text) (line : ℕ) : Prop :=
  (∀ l ∈ splitLines generatedC, IsWordLine (trimReturns l)) ∧
    ∀ k l, FirstAt (lineNumber · = some line) (splitLines generatedC) k →
      (splitLines generatedC)[k]? = some l → Directs (trimReturns l) line path

/-- A directive that was written is read back. -/
def ReadsBack (path : Text) (line : ℕ) : Prop :=
  ∃ text, splitLines (appendLineDirective (some path) line) = [text, []] ∧
    Directs text line path ∧ cLineDirectiveSourceLine (trimReturns text) = some (some line)

/-! ## Reading -/

variable {text path : Text} {value line number k : ℕ} {lines : List Text}
  {entries : List GeneratedLine}

/-- More digits make a larger number. -/
lemma le_ofDigitChars (digits : Text) (value : ℕ) : value ≤ Nat.ofDigitChars 10 digits value := by
  have hpow : 1 ≤ 10 ^ digits.length := Nat.one_le_pow _ _ (by omega)
  calc value ≤ 10 ^ digits.length * value := Nat.le_mul_of_pos_left value hpow
    _ ≤ 10 ^ digits.length * value + Nat.ofDigitChars 10 digits 0 := Nat.le_add_right _ _
    _ = Nat.ofDigitChars 10 digits value := Nat.ofDigitChars_eq_ofDigitChars_zero.symm

/-- The loop has the value of the digits if it is a word. -/
lemma readDigits_eq {sawDigit : Bool} (hvalue : value < 2 ^ 64) : readDigits value sawDigit text =
    if Nat.ofDigitChars 10 (leadingDigits text) value < 2 ^ 64 then
      some (Nat.ofDigitChars 10 (leadingDigits text) value,
        sawDigit || !(leadingDigits text).isEmpty)
    else none := by
  induction text generalizing value sawDigit with
  | nil =>
    have hnone : leadingDigits [] = [] := rfl
    rw [hnone, Nat.ofDigitChars_nil, if_pos hvalue]
    simp [readDigits]
  | cons ch rest ih =>
    rw [readDigits]
    by_cases hdigit : ch.isDigit = true
    · have hdigits : leadingDigits (ch :: rest) = ch :: leadingDigits rest :=
        List.takeWhile_cons_of_pos hdigit
      rw [if_pos hdigit, hdigits, Nat.ofDigitChars_cons]
      by_cases hnext : 10 * value + (ch.toNat - '0'.toNat) < 2 ^ 64
      · have hmul : checkedMul 64 value 10 = some (10 * value) :=
          checkedMul_eq_some.mpr ⟨by omega, Nat.mul_comm _ _⟩
        have hadd : checkedAdd 64 (10 * value) (ch.toNat - '0'.toNat) =
            some (10 * value + (ch.toNat - '0'.toNat)) := checkedAdd_eq_some.mpr ⟨hnext, rfl⟩
        rw [hmul, Option.bind_eq_bind, Option.bind_some, hadd, Option.bind_some, ih hnext]
        simp
      · have hlarge := le_ofDigitChars (leadingDigits rest)
          (10 * value + (ch.toNat - '0'.toNat))
        rw [if_neg (by omega)]
        apply Option.eq_none_iff_forall_ne_some.mpr
        intro result h
        obtain ⟨scaled, hmul, hrest⟩ := Option.bind_eq_some_iff.mp h
        obtain ⟨next, hadd, -⟩ := Option.bind_eq_some_iff.mp hrest
        obtain ⟨-, rfl⟩ := checkedMul_eq_some.mp hmul
        obtain ⟨hlt, -⟩ := checkedAdd_eq_some.mp hadd
        omega
    · have hdigits : leadingDigits (ch :: rest) = [] := List.takeWhile_cons_of_neg hdigit
      rw [if_neg hdigit, hdigits, Nat.ofDigitChars_nil, if_pos hvalue]
      simp

lemma cLineDirectiveSourceLine_eq (h : IsWordLine text) :
    cLineDirectiveSourceLine text = some (lineNumber text) := by
  rw [cLineDirectiveSourceLine]
  by_cases hdirective : linePrefix <+: text
  · rw [if_pos hdirective, readDigits_eq (Nat.two_pow_pos 64)]
    by_cases hdigits : leadingDigits (text.drop linePrefix.length) = []
    · have hnone : lineNumber text = none := if_neg fun h => h.2 hdigits
      rw [hnone, hdigits]
      rfl
    · have hsome : lineNumber text = some _ := if_pos ⟨hdirective, hdigits⟩
      rw [if_pos (h _ hsome), hsome, List.isEmpty_eq_false_iff.mpr hdigits]
      rfl
  · have hnone : lineNumber text = none := if_neg fun h => hdirective h.1
    rw [if_neg hdirective, hnone]

/-- A number that is no word traps. -/
lemma isWordLine_of_eq_some {result : Option ℕ} (h : cLineDirectiveSourceLine text = some result) :
    IsWordLine text := by
  intro number hnumber
  rw [lineNumber] at hnumber
  split at hnumber
  · next hdirective =>
    rw [cLineDirectiveSourceLine, if_pos hdirective.1, readDigits_eq (Nat.two_pow_pos 64)] at h
    obtain rfl := Option.some.inj hnumber
    by_contra hlarge
    rw [if_neg hlarge] at h
    exact absurd h (by simp)
  · exact absurd hnumber (by simp)

/-- A directive carries the number of its line. -/
lemma Directs.lineNumber (h : Directs text line path) : lineNumber text = some line := by
  obtain ⟨digits, hne, hdigits, hvalue, rfl⟩ := h
  have hassoc : linePrefix ++ digits ++ [' ', '"'] ++ appendEscapedString path ++ ['"'] =
      linePrefix ++ (digits ++ ' ' :: ('"' :: (appendEscapedString path ++ ['"']))) := by
    simp
  have hleading : leadingDigits (digits ++ ' ' :: ('"' :: (appendEscapedString path ++ ['"']))) =
      digits := by
    rw [leadingDigits, List.takeWhile_append_of_pos hdigits,
      List.takeWhile_cons_of_neg (by decide), List.append_nil]
  rw [hassoc, SourceMap.lineNumber, List.drop_left, hleading,
    if_pos ⟨List.prefix_append _ _, hne⟩, hvalue]

/-! ## The index -/

/-- The entry of a line with a number. -/
def entryOf (l : Text × ℕ) : Option GeneratedLine :=
  (lineNumber (trimReturns l.1)).map fun number => ⟨number, l.2 + 1⟩

lemma indexLines_eq_some (hwords : ∀ l ∈ lines, IsWordLine (trimReturns l)) (k : ℕ) :
    indexLines k lines = some ((lines.zipIdx k).filterMap entryOf) := by
  induction lines generalizing k with
  | nil => rfl
  | cons l lines ih =>
    rw [indexLines, cLineDirectiveSourceLine_eq (hwords l List.mem_cons_self),
      Option.bind_eq_bind, Option.bind_some,
      ih (fun l hl => hwords l (List.mem_cons_of_mem _ hl)) (k + 1), List.zipIdx_cons]
    cases hnumber : lineNumber (trimReturns l) with
    | none =>
      have hentry : entryOf (l, k) = none := congrArg (Option.map _) hnumber
      rw [List.filterMap_cons_none hentry]
      rfl
    | some number =>
      have hentry : entryOf (l, k) = some ⟨number, k + 1⟩ := congrArg (Option.map _) hnumber
      rw [List.filterMap_cons_some hentry]
      rfl

lemma isWordLine_of_indexLines (h : indexLines k lines = some entries) :
    ∀ l ∈ lines, IsWordLine (trimReturns l) := by
  induction lines generalizing k entries with
  | nil => exact fun l hl => absurd hl List.not_mem_nil
  | cons l lines ih =>
    obtain ⟨sourceLine, hline, hrest⟩ := Option.bind_eq_some_iff.mp h
    obtain ⟨rest, hrest, -⟩ := Option.bind_eq_some_iff.mp hrest
    intro l' hl'
    rcases List.mem_cons.mp hl' with rfl | hl'
    · exact isWordLine_of_eq_some hline
    · exact ih hrest l' hl'

/-- Lines that do not have the property in front. -/
lemma FirstAt.cons {holds : Text → Prop} {l : Text} (hfirst : ¬ holds (trimReturns l))
    (h : FirstAt holds lines k) : FirstAt holds (l :: lines) (k + 1) := by
  refine ⟨h.1, fun j hj l' hl' => ?_⟩
  cases j with
  | zero =>
    obtain rfl := Option.some.inj hl'
    exact hfirst
  | succ j => exact h.2 j (Nat.lt_of_succ_lt_succ hj) l' hl'

/-- The lookup finds the first line with the number, or there is none. -/
lemma generatedLineForSource_entries (line k : ℕ) (lines : List Text) :
    (∃ j, FirstAt (lineNumber · = some line) lines j ∧
      generatedLineForSource ((lines.zipIdx k).filterMap entryOf) line = j + k + 1) ∨
      ((∀ l ∈ lines, lineNumber (trimReturns l) ≠ some line) ∧
        generatedLineForSource ((lines.zipIdx k).filterMap entryOf) line = 0) := by
  induction lines generalizing k with
  | nil => exact .inr ⟨fun l hl => absurd hl List.not_mem_nil, rfl⟩
  | cons l lines ih =>
    rw [List.zipIdx_cons]
    by_cases hfirst : lineNumber (trimReturns l) = some line
    · have hentry : entryOf (l, k) = some ⟨line, k + 1⟩ := congrArg (Option.map _) hfirst
      refine .inl ⟨0, ⟨⟨l, rfl, hfirst⟩, fun j hj => absurd hj (Nat.not_lt_zero j)⟩, ?_⟩
      rw [List.filterMap_cons_some hentry, generatedLineForSource,
        List.find?_cons_of_pos (by simp)]
      dsimp only
      omega
    · have hskip : generatedLineForSource (((l, k) :: lines.zipIdx (k + 1)).filterMap entryOf)
          line = generatedLineForSource ((lines.zipIdx (k + 1)).filterMap entryOf) line := by
        cases hnumber : lineNumber (trimReturns l) with
        | none =>
          have hentry : entryOf (l, k) = none := congrArg (Option.map _) hnumber
          rw [List.filterMap_cons_none hentry]
        | some number =>
          have hentry : entryOf (l, k) = some ⟨number, k + 1⟩ := congrArg (Option.map _) hnumber
          have hne : number ≠ line := fun heq => hfirst (hnumber.trans (congrArg some heq))
          rw [List.filterMap_cons_some hentry, generatedLineForSource, generatedLineForSource,
            List.find?_cons_of_neg (by simpa using hne)]
      rw [hskip]
      rcases ih (k + 1) with ⟨j, hj, heq⟩ | ⟨hnone, heq⟩
      · exact .inl ⟨j + 1, hj.cons hfirst, by omega⟩
      · refine .inr ⟨fun l' hl' => ?_, heq⟩
        rcases List.mem_cons.mp hl' with rfl | hl'
        · exact hfirst
        · exact hnone l' hl'

/-- A text has one first line with a property. -/
lemma FirstAt.unique {holds : Text → Prop} {j : ℕ} (h : FirstAt holds lines k)
    (h' : FirstAt holds lines j) : k = j := by
  obtain ⟨⟨l, hl, hholds⟩, hbefore⟩ := h
  obtain ⟨⟨l', hl', hholds'⟩, hbefore'⟩ := h'
  rcases Nat.lt_trichotomy k j with hlt | heq | hgt
  · exact absurd hholds (hbefore' k hlt l hl)
  · exact heq
  · exact absurd hholds' (hbefore j hgt l' hl')

/-- **Rows name the right line** exactly where the first directive of a line is of the file. -/
lemma namesLine_iff (generatedC path : Text) (line : ℕ) :
    NamesLine generatedC path line ↔ OwnLineFirst generatedC path line := by
  constructor
  · rintro ⟨g, hg, hright⟩
    obtain ⟨entries, hindex, hentries⟩ := Option.bind_eq_some_iff.mp hg
    have hwords := isWordLine_of_indexLines hindex
    refine ⟨hwords, fun k l hk hl => ?_⟩
    rw [buildGeneratedLineIndex, indexLines_eq_some hwords] at hindex
    obtain rfl := Option.some.inj hindex
    have hvalue : g = k + 2 := by
      rcases generatedLineForSource_entries line 1 (splitLines generatedC) with
        ⟨j, hj, heq⟩ | ⟨hnone, -⟩
      · rw [← Option.some.inj hentries, heq, hk.unique hj]
      · obtain ⟨l', hl', hnumber⟩ := hk.1
        exact absurd hnumber (hnone l' (List.mem_of_getElem? hl'))
    rcases hright with ⟨j, ⟨⟨l', hl', hdirects⟩, -⟩, hj⟩ | ⟨hzero, -⟩
    · obtain rfl : k = j := by omega
      obtain rfl : l = l' := Option.some.inj (hl.symm.trans hl')
      exact hdirects
    · omega
  · rintro ⟨hwords, hown⟩
    have hindex := indexLines_eq_some hwords 1
    refine ⟨_, by rw [generatedCLine, buildGeneratedLineIndex, hindex]; rfl, ?_⟩
    rcases generatedLineForSource_entries line 1 (splitLines generatedC) with
      ⟨j, hj, heq⟩ | ⟨hnone, heq⟩
    · obtain ⟨l, hl, -⟩ := hj.1
      refine .inl ⟨j, ⟨⟨l, hl, hown j l hj hl⟩, fun i hi l' hl' hdirects => ?_⟩, heq⟩
      exact hj.2 i hi l' hl' hdirects.lineNumber
    · exact .inr ⟨heq, fun l hl hdirects => hnone l hl hdirects.lineNumber⟩

/-! ## Writing -/

/-- A digit of a number in hexadecimal. -/
lemma hexDigit_ne {n : ℕ} (hn : n < 16) : hexDigit n ≠ '\n' := by
  have hall : ∀ n : Fin 16, hexDigit n ≠ '\n' := by decide
  exact hall ⟨n, hn⟩

/-- What is escaped stays in its line. -/
lemma newline_not_mem_escapeChar (ch : Char) : '\n' ∉ escapeChar ch := by
  unfold escapeChar
  split
  all_goals try decide
  next hnewline _ _ =>
    split
    · next hcontrol =>
      have hhigh := hexDigit_ne (n := ch.toNat / 16) (by omega)
      have hlow := hexDigit_ne (n := ch.toNat % 16) (by omega)
      simp [hhigh.symm, hlow.symm]
    · simpa using fun h => hnewline h.symm

lemma newline_not_mem_appendEscapedString (text : Text) : '\n' ∉ appendEscapedString text := by
  intro h
  obtain ⟨ch, -, hmem⟩ := List.mem_flatMap.mp h
  exact newline_not_mem_escapeChar ch hmem

/-- A text between other characters is not trimmed. -/
lemma trimReturns_eq {first last : Char} (hfirst : first ≠ '\r') (hlast : last ≠ '\r')
    (middle : Text) : trimReturns (first :: (middle ++ [last])) = first :: (middle ++ [last]) := by
  rw [trimReturns, List.dropWhile_cons_of_neg (by simpa using hfirst), ← List.cons_append,
    List.rdropWhile_concat_neg _ _ _ (by simpa using hlast)]

/-- **A directive that is written is read back.** -/
lemma readsBack (path : Text) (hpos : line ≠ 0) (hline : line < 2 ^ 64) : ReadsBack path line := by
  have hdigit : ∀ c ∈ Nat.toDigits 10 line, c.isDigit = true := fun c hc =>
    Nat.isDigit_of_mem_toDigits (by decide) (by decide) hc
  have hdirects : Directs (linePrefix ++ Nat.toDigits 10 line ++ [' ', '"'] ++
      appendEscapedString path ++ ['"']) line path :=
    ⟨_, Nat.toDigits_ne_nil, hdigit, Nat.ofDigitChars_ten_toDigits, rfl⟩
  refine ⟨_, ?_, hdirects, ?_⟩
  · have hnewline : '\n' ∉ linePrefix ++ Nat.toDigits 10 line ++ [' ', '"'] ++
        appendEscapedString path ++ ['"'] := by
      have hnone : '\n' ∉ Nat.toDigits 10 line := fun h =>
        absurd (hdigit _ h) (by decide)
      simp [linePrefix, hnone, newline_not_mem_appendEscapedString]
    rw [appendLineDirective, if_neg hpos]
    have hend : (['"', '\n'] : Text) = ['"'] ++ ['\n'] := rfl
    rw [hend, ← List.append_assoc]
    exact Lexer.splitLines_line hnewline []
  · have htrim := trimReturns_eq (by decide : '#' ≠ '\r') (by decide : '"' ≠ '\r')
      (['l', 'i', 'n', 'e', ' '] ++ Nat.toDigits 10 line ++ [' ', '"'] ++
        appendEscapedString path)
    have hsame : linePrefix ++ Nat.toDigits 10 line ++ [' ', '"'] ++
        appendEscapedString path ++ ['"'] = '#' :: (['l', 'i', 'n', 'e', ' '] ++
          Nat.toDigits 10 line ++ [' ', '"'] ++ appendEscapedString path ++ ['"']) := by
      simp [linePrefix]
    rw [hsame, htrim, ← hsame]
    have hnumber := hdirects.lineNumber
    have hword : IsWordLine (linePrefix ++ Nat.toDigits 10 line ++ [' ', '"'] ++
        appendEscapedString path ++ ['"']) := by
      intro number h
      obtain rfl : line = number := Option.some.inj (hnumber.symm.trans h)
      exact hline
    rw [cLineDirectiveSourceLine_eq hword, hnumber]

/-- **The rows of a source map** name the right lines exactly where the first directive of a line is
of the file, and every directive that is written is read back. -/
theorem namesLine_and_readsBack (generatedC path : Text) (line : UInt64) :
    (NamesLine generatedC path line.toNat ↔ OwnLineFirst generatedC path line.toNat) ∧
      (line ≠ 0 → ReadsBack path line.toNat) := by
  refine ⟨namesLine_iff generatedC path line.toNat, fun hne => readsBack path ?_ line.toNat_lt⟩
  exact fun hzero => hne (UInt64.toNat_inj.mp hzero)

/-- The same line of two files, of which the second is looked up. -/
def twoFiles : Text :=
  appendLineDirective (some ['a']) 3 ++ ['x', ';', '\n'] ++ appendLineDirective (some ['b']) 3 ++
    ['y', ';', '\n']

theorem not_namesLine_twoFiles : ¬ NamesLine twoFiles ['b'] 3 := by
  rw [namesLine_iff]
  rintro ⟨-, hown⟩
  have hline : (splitLines twoFiles)[0]? =
      some ['#', 'l', 'i', 'n', 'e', ' ', '3', ' ', '"', 'a', '"'] := by decide
  have hfirst : FirstAt (lineNumber · = some 3) (splitLines twoFiles) 0 :=
    ⟨⟨_, hline, by decide⟩, fun j hj => absurd hj (Nat.not_lt_zero j)⟩
  obtain ⟨digits, -, -, -, htext⟩ := hown 0 _ hfirst hline
  have hpath : appendEscapedString ['b'] = ['b'] := by decide
  have htrim : trimReturns ['#', 'l', 'i', 'n', 'e', ' ', '3', ' ', '"', 'a', '"'] =
      ['#', 'l', 'i', 'n', 'e', ' ', '3', ' ', '"', 'a', '"'] := by decide
  rw [htrim, hpath] at htext
  have hlast := congrArg (fun text => text.reverse[1]?) htext
  simp at hlast

end ModernC.SourceMap
