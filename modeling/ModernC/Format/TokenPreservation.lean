import ModernC.Format.LineContents

/-!
# Token preservation

The formatter keeps the tokens of a text that the lexer accepts if and only if on none of the lines
that it writes with spaces two tokens join. The main result is `lex_format_iff`.
-/

namespace ModernC.Format

open ModernC.Parser (Kind)
open Lexer

/-- The contents that are written with spaces. -/
def normalizedContents : Bool → List Text → List Text
  | _, [] => []
  | inside, line :: lines =>
    let inside' := (lineTouchesBlockComment inside line).2
    if isKept inside line || isOpaque (content line) then normalizedContents inside' lines
    else content line :: normalizedContents inside' lines

/-- No tokens join on a line that is written with spaces. -/
def StaysApart (inside : Bool) (lines : List Text) : Prop :=
  ∀ text ∈ normalizedContents inside lines, apart (lex text) = true

instance (inside : Bool) (lines : List Text) : Decidable (StaysApart inside lines) :=
  inferInstanceAs (Decidable (∀ text ∈ normalizedContents inside lines, apart (lex text) = true))

/-! ## One line -/

variable {line text : Text} {tokens more : List Token} {mode : Mode} {level : ℕ → ℕ}
  {lines : List Text}

lemma staysApart_of_kept {inside : Bool} (lines : List Text) (h : isKept inside line = true) :
    StaysApart inside (line :: lines) ↔
      StaysApart (lineTouchesBlockComment inside line).2 lines := by
  rw [StaysApart, normalizedContents, if_pos (by rw [h, Bool.true_or]), StaysApart]

lemma staysApart_of_not_kept {inside : Bool} (lines : List Text) (h : isKept inside line = false) :
    StaysApart inside (line :: lines) ↔
      (isOpaque (content line) = false → apart (lex (content line)) = true) ∧
        StaysApart (lineTouchesBlockComment inside line).2 lines := by
  rw [StaysApart, normalizedContents, h, Bool.false_or]
  by_cases hhidden : isOpaque (content line) = true
  · simp [hhidden, StaysApart]
  · simp [hhidden, StaysApart]

lemma newline_not_mem_spacedAfter (h : ∀ token ∈ tokens, Ends token [])
    (prev : Kind) : '\n' ∉ spacedAfter prev tokens := by
  induction tokens generalizing prev with
  | nil => exact nofun
  | cons token tokens ih =>
    have hlexeme := (h token List.mem_cons_self).plain.1
    have hrest := ih (fun next hnext => h next (List.mem_cons_of_mem token hnext)) token.kind
    rw [spacedAfter]
    split <;> simp [hlexeme, hrest]

lemma newline_not_mem_spaced (h : ∀ token ∈ tokens, Ends token []) :
    '\n' ∉ spaced tokens := by
  rcases tokens with _ | ⟨token, tokens⟩
  · exact nofun
  · have hlexeme := (h token List.mem_cons_self).plain.1
    have hrest := newline_not_mem_spacedAfter
      (fun next hnext => h next (List.mem_cons_of_mem token hnext)) token.kind
    simp [spaced, hlexeme, hrest]

/-- What is written for a content is read back if its tokens stay apart. -/
lemma lexIn_written {rest : Text}
    (h : Run .space text tokens mode) (hmode : mode ≠ .block) (hline : '\n' ∉ text)
    (hidden : Bool) (line : ℕ) :
    (lexIn .space line ((if hidden || tokens.isEmpty then text else spaced tokens) ++
        '\n' :: rest)).tokens.map Prod.snd = tokens ++ more ↔
      (hidden = false → apart tokens = true) ∧
        (lexIn .space (line + 1) rest).tokens.map Prod.snd = more := by
  have hread : ∀ {text : Text} {mode : Mode}, Run .space text tokens mode → mode ≠ .block →
      '\n' ∉ text → ((lexIn .space line (text ++ '\n' :: rest)).tokens.map Prod.snd =
        tokens ++ more ↔ (lexIn .space (line + 1) rest).tokens.map Prod.snd = more) := by
    intro text mode hrun hmode hline
    have hnext : mode.next = .space := by
      rcases mode with _ | _ | _
      · rfl
      · rfl
      · exact absurd rfl hmode
    rw [hrun.lexIn_line hline, hnext, List.map_append, List.map_map]
    have hmap : tokens.map (Prod.snd ∘ Prod.mk line) = tokens := List.map_id tokens
    rw [hmap, List.append_cancel_left_eq]
  by_cases hkeep : (hidden || tokens.isEmpty) = true
  · have hapart : hidden = false → apart tokens = true := by
      intro hhidden
      rw [hhidden, Bool.false_or, List.isEmpty_iff] at hkeep
      rw [hkeep]
      rfl
    rw [if_pos hkeep, hread h hmode hline, and_iff_right hapart]
  · rw [if_neg hkeep]
    have hhidden : hidden = false := by simp_all
    rcases hapart : apart tokens with _ | _
    · refine iff_of_false (lexIn_spaced_ne h.valid hapart (blank_cons rfl rest) line more) ?_
      simp [hhidden]
    · have hspaced := run_spaced h.valid hapart
      rw [hread hspaced (by decide) (newline_not_mem_spaced h.valid)]
      simp

/-! ## The lines of a text -/

lemma next_of_ne (h : mode ≠ .block) : mode.next = .space := by
  rcases mode with _ | _ | _
  · rfl
  · rfl
  · exact absurd rfl h

lemma decide_next (mode : Mode) : decide (mode.next = .block) = decide (mode = .block) := by
  cases mode <;> rfl

lemma lexIn_blankLine (pending : Bool) (line : ℕ) (text : Text) :
    ∃ line', lexIn .space line (blankLine pending ++ text) = lexIn .space line' text := by
  cases pending with
  | false => exact ⟨line, rfl⟩
  | true => exact ⟨line + 1, lexIn_newline .space line text⟩

lemma lexIn_indent (level line : ℕ) (text : Text) :
    lexIn .space line (indent level ++ text) = lexIn .space line text := by
  rw [indent]
  induction 4 * level with
  | zero => rfl
  | succ width ih =>
    rw [List.replicate_succ, List.cons_append]
    exact (lexIn_of_skip_line line (by decide : '\n' ∉ [' '])
      (skip_space_cons rfl (List.replicate width ' ' ++ text))).trans ih

/-- A line without text has no tokens. -/
lemma eq_nil_of_content
    (h : Run .space line tokens mode) (hmode : mode ≠ .block) (hcontent : content line = []) :
    tokens = [] := by
  obtain ⟨mode', -, hrun⟩ := run_content h hmode
  rw [hcontent] at hrun
  exact (hrun.lexIn 1).1.symm

lemma lex_content
    (h : Run .space line tokens mode) (hmode : mode ≠ .block) : lex (content line) = tokens := by
  obtain ⟨mode', -, hrun⟩ := run_content h hmode
  exact hrun.lexLines.1

/-- What one line and the text behind it need to keep their tokens.  A blank line is held back only
outside of comments. -/
lemma lexIn_formatLines_cons {mode' : Mode} (h : Run mode line tokens mode')
    (hline : '\n' ∉ line) (hmode : mode ≠ .line) {pending : Bool}
    (hpending : pending = true → mode = .space)
    (ih : ∀ lineNo no pending emitted, (pending = true → mode'.next = .space) →
      ((lexIn mode'.next no (formatLines level lineNo pending emitted
        (decide (mode'.next = .block)) lines)).tokens.map Prod.snd = more ↔
          StaysApart (decide (mode'.next = .block)) lines)) (lineNo no : ℕ) (emitted : Bool) :
    (lexIn mode no (formatLines level lineNo pending emitted (decide (mode = .block))
      (line :: lines))).tokens.map Prod.snd = tokens ++ more ↔
        StaysApart (decide (mode = .block)) (line :: lines) := by
  obtain ⟨hinside, hkept⟩ := isKept_of_run h hline hmode
  rw [← decide_next mode'] at hinside
  -- a line that touches a block comment is kept byte for byte, any other is written anew
  rcases hcase : isKept (decide (mode = .block)) line with _ | _
  · have hnone : ¬(mode = .block ∨ mode' = .block) := by
      rw [← decide_eq_false_iff_not, ← hkept, hcase]
    obtain ⟨hspace, hmode'⟩ : mode = .space ∧ mode' ≠ .block := by
      refine ⟨?_, fun hblock => hnone (.inr hblock)⟩
      rcases mode with _ | _ | _
      · rfl
      · exact absurd rfl hmode
      · exact absurd (.inl rfl) hnone
    subst hspace
    rw [staysApart_of_not_kept lines hcase, hinside, formatLines, hinside, 
      if_neg (Bool.eq_false_iff.mp hcase)]
    rw [lex_content h hmode']
    by_cases hcontent : content line = []
    · obtain rfl := eq_nil_of_content h hmode' hcontent
      rw [if_pos hcontent, List.nil_append, ← next_of_ne hmode',
        ih _ no _ emitted fun _ => next_of_ne hmode']
      exact (and_iff_right fun _ => rfl).symm
    · obtain ⟨mode'', hmode'', hrun⟩ := run_content h hmode'
      rw [if_neg hcontent, List.append_assoc, List.append_assoc]
      obtain ⟨no', hblank⟩ := lexIn_blankLine pending no (indent (level lineNo) ++
        (normalizedContent (content line) ++ '\n' :: formatLines level (lineNo + 1) false true
          (decide (mode'.next = .block)) lines))
      rw [hblank, lexIn_indent, normalizedContent_of_run hrun hmode'',
        lexIn_written hrun hmode'' (newline_not_mem_content hline), ← next_of_ne hmode',
        ih _ _ _ _ fun hfalse => absurd hfalse (by decide)]
  · rw [staysApart_of_kept lines hcase, hinside, formatLines, hinside, if_pos hcase,
      List.append_assoc]
    obtain ⟨no', hblank⟩ : ∃ no', lexIn mode no (blankLine pending ++ (line ++ '\n' ::
        formatLines level (lineNo + 1) false true (decide (mode'.next = .block)) lines)) =
          lexIn mode no' (line ++ '\n' :: formatLines level (lineNo + 1) false true
            (decide (mode'.next = .block)) lines) := by
      cases pending with
      | false => exact ⟨no, rfl⟩
      | true =>
        rw [hpending rfl]
        exact lexIn_blankLine true no _
    rw [hblank, h.lexIn_line hline, List.map_append, List.map_map]
    have hmap : tokens.map (Prod.snd ∘ Prod.mk no') = tokens := List.map_id tokens
    rw [hmap, List.append_cancel_left_eq,
      ih _ _ _ _ fun hfalse => absurd hfalse (by decide)]

/-- **The lines keep their tokens if and only if none join.** -/
theorem lexIn_formatLines
    {rows : List (List Token)} (h : Lines mode lines rows) (hmode : mode ≠ .line)
    (lineNo no : ℕ) {pending : Bool} (hpending : pending = true → mode = .space) (emitted : Bool) :
    (lexIn mode no (formatLines level lineNo pending emitted (decide (mode = .block))
      lines)).tokens.map Prod.snd = rows.flatten ↔ StaysApart (decide (mode = .block)) lines := by
  induction h generalizing lineNo no pending emitted with
  | last h hline hlast =>
    refine lexIn_formatLines_cons h hline hmode hpending ?_ lineNo no emitted
    intro lineNo no pending emitted _
    rw [formatLines, lexIn_nil]
    exact iff_of_true rfl nofun
  | @cons mode mode' line tokens lines rest h hline _ ih =>
    have hnext : mode'.next ≠ .line := by cases mode' <;> decide
    exact lexIn_formatLines_cons h hline hmode hpending
      (fun lineNo no pending emitted hpending => ih hnext lineNo no hpending emitted)
      lineNo no emitted

/-! ## The byte order mark -/

lemma head?_append_ne {rest : Text} {c : Char} (h : text.head? ≠ some c)
    (hrest : rest.head? ≠ some c) : (text ++ rest).head? ≠ some c := by
  rcases text with _ | ⟨d, text⟩
  · exact hrest
  · exact h

lemma head?_spaced (h : ∀ token ∈ tokens, Ends token []) :
    (spaced tokens).head? ≠ some '\xef' := by
  rcases tokens with _ | ⟨token, tokens⟩
  · exact nofun
  · have hends := h token List.mem_cons_self
    have hne := hends.head?_ne_mark
    obtain ⟨c, lexeme, hlexeme, -⟩ := hends
    rw [spaced]
    rw [hlexeme] at hne ⊢
    exact hne

lemma head?_written (h : Run .space text tokens mode) (hidden : Bool) (rest : Text) :
    ((if hidden || tokens.isEmpty then text else spaced tokens) ++ '\n' :: rest).head? ≠
      some '\xef' := by
  refine head?_append_ne ?_ (by simp)
  split
  · exact h.head?_ne_mark
  · exact head?_spaced h.valid

/-- The formatter puts no mark in front. -/
lemma head?_formatLines {rows : List (List Token)}
    (h : Lines mode lines rows) (hmode : mode = .space) (lineNo : ℕ) (pending emitted : Bool) :
    (formatLines level lineNo pending emitted false lines).head? ≠ some '\xef' := by
  have hstep : ∀ (lineNo : ℕ) (pending : Bool) {line : Text} {tokens : List Token} {mode' : Mode}
      {lines : List Text}, Run .space line tokens mode' → '\n' ∉ line →
      (mode' ≠ .block → ∀ lineNo pending,
        (formatLines level lineNo pending emitted false lines).head? ≠ some '\xef') →
      (formatLines level lineNo pending emitted false (line :: lines)).head? ≠ some '\xef' := by
    intro lineNo pending line tokens mode' lines hrun hline ih
    have hblank : (blankLine pending).head? ≠ some '\xef' := by cases pending <;> simp [blankLine]
    obtain ⟨hinside, hkept⟩ := isKept_of_run hrun hline (by decide)
    rw [decide_eq_false (by decide : ¬Mode.space = .block)] at hinside hkept
    rw [formatLines]
    split
    · rw [List.append_assoc]
      exact head?_append_ne hblank (head?_append_ne hrun.head?_ne_mark (by simp))
    · next hcase =>
      have hmode' : mode' ≠ .block := by
        rintro rfl
        exact hcase hkept
      rw [decide_eq_false hmode'] at hinside
      rw [hinside]
      split
      · exact ih hmode' _ _
      · obtain ⟨mode'', hmode'', hcontent⟩ := run_content hrun hmode'
        rw [normalizedContent_of_run hcontent hmode'', List.append_assoc, List.append_assoc]
        refine head?_append_ne hblank (head?_append_ne ?_ (head?_written hcontent _ _))
        rw [indent]
        cases 4 * level lineNo <;> simp [List.replicate_succ]
  induction h generalizing lineNo pending with
  | last h hline _ =>
    subst hmode
    exact hstep lineNo pending h hline fun _ _ _ => nofun
  | cons h hline _ ih =>
    subst hmode
    exact hstep lineNo pending h hline fun hmode' => ih (next_of_ne hmode')

/-- The first line is not indented. -/
lemma level_one {tokens : List (ℕ × Token)} (h : ∀ token ∈ tokens, 1 ≤ token.1) :
    (tokens.foldl Levels.step .start).finish 1 = 0 := by
  have hfold : ∀ {tokens : List (ℕ × Token)} {levels : Levels}, (∀ token ∈ tokens, 1 ≤ token.1) →
      levels.level 1 = 0 → (levels.prevLine < 1 → levels.depth = 0) →
      (tokens.foldl Levels.step levels).finish 1 = 0 := by
    intro tokens
    induction tokens with
    | nil =>
      intro levels _ hlevel hdepth
      rw [List.foldl_nil, Levels.finish]
      split
      · next hline => exact hdepth hline
      · exact hlevel
    | cons token tokens ih =>
      intro levels hlines hlevel hdepth
      have hone := hlines token List.mem_cons_self
      refine ih (fun next hnext => hlines next (List.mem_cons_of_mem token hnext)) ?_ ?_
      · have hstart : levels.prevLine < 1 → startLevel levels.depth token.2.kind = 0 := by
          intro hline
          rw [hdepth hline, startLevel, ite_self]
        simp only [Levels.step]
        split
        · split
          · exact hstart (by omega)
          · split
            · exact hdepth (by omega)
            · exact hlevel
        · exact hlevel
      · intro hline
        exact absurd hone (Nat.not_le_of_lt hline)
  exact hfold h rfl fun _ => rfl

lemma le_line_of_mem {fuel : ℕ} {line : ℕ} {token : ℕ × Token}
    (h : token ∈ (lexFrom fuel mode line text).tokens) : line ≤ token.1 := by
  induction fuel generalizing mode line text with
  | zero => exact absurd h nofun
  | succ fuel ih =>
    rw [lexFrom_succ] at h
    generalize skip mode text = skipped at h
    obtain ⟨_ | ⟨c, rest⟩, closed⟩ := skipped
    · exact absurd h nofun
    · rcases List.mem_cons.mp h with rfl | hmem
      · exact Nat.le_add_right _ _
      · have hle := ih hmem
        omega

lemma computeLineLevels_one (source : Text) : computeLineLevels source 1 = 0 :=
  level_one fun _ htoken => le_line_of_mem htoken

lemma splitLines_mark {body : Text} (h : splitLines body = line :: lines) :
    splitLines (byteOrderMark ++ body) = (byteOrderMark ++ line) :: lines := by
  simp [byteOrderMark, splitLines, h]

lemma lineTouchesBlockComment_mark (line : Text) :
    lineTouchesBlockComment false (byteOrderMark ++ line) = lineTouchesBlockComment false line :=
  walk_code_append fun c hc => by
    have hall : (byteOrderMark.all fun c => decide (c ≠ '/' ∧ c ≠ '"' ∧ c ≠ '\'')) = true := by
      decide
    exact of_decide_eq_true (List.all_eq_true.mp hall c hc)

lemma isKept_mark (line : Text) : isKept false (byteOrderMark ++ line) = isKept false line := by
  rw [isKept, lineTouchesBlockComment_mark, isKept]

lemma content_mark (line : Text) : content (byteOrderMark ++ line) = byteOrderMark ++ rtrim line := by
  have hltrim : ltrim (byteOrderMark ++ line) = byteOrderMark ++ line := rfl
  rw [content, hltrim, rtrim, rtrim]
  induction line using List.reverseRecOn with
  | nil => decide
  | append_singleton line c ih =>
    rw [← List.append_assoc]
    by_cases hc : c ∈ [' ', '\t', '\r']
    · rw [List.rdropWhile_concat_pos _ _ _ (by simpa using hc),
        List.rdropWhile_concat_pos _ _ _ (by simpa using hc)]
      exact ih rfl
    · rw [List.rdropWhile_concat_neg _ _ _ (by simpa using hc),
        List.rdropWhile_concat_neg _ _ _ (by simpa using hc), List.append_assoc]

lemma dropMark_mark (text : Text) : dropMark (byteOrderMark ++ text) = text := by
  rw [dropMark, if_pos (List.prefix_append _ _)]
  rfl

lemma lexLines_mark (h : Run .space text tokens mode) :
    lexLines (byteOrderMark ++ text) = lexLines text := by
  rw [lexLines_eq, dropMark_mark, lexLines_eq, dropMark_of_head? h.head?_ne_mark]

/-- What is written for a first line with a mark. -/
lemma normalizedContent_mark
    (h : Run .space text tokens mode) (hmode : mode ≠ .block) (rest : Text) :
    dropMark (normalizedContent (byteOrderMark ++ text) ++ '\n' :: rest) =
      (if isOpaque (byteOrderMark ++ text) || tokens.isEmpty then text else spaced tokens) ++
        '\n' :: rest := by
  obtain ⟨htokens, hclean⟩ := h.lexLines
  rw [← lexLines_mark h] at htokens hclean
  rw [normalizedContent_of_lexed htokens (hclean.trans (decide_eq_true hmode)) h.valid]
  split
  · rw [List.append_assoc, dropMark_mark]
  · refine dropMark_of_head? (head?_append_ne (head?_spaced h.valid) (by simp))

/-- The first line with a mark. -/
lemma lexIn_formatLines_mark {source : Text} {mode' : Mode}
    (h : Run .space line tokens mode') (hline : '\n' ∉ line) (ih : ∀ lineNo no,
      ((lexIn mode'.next no (formatLines (computeLineLevels source) lineNo false true
        (decide (mode'.next = .block)) lines)).tokens.map Prod.snd = more ↔
          StaysApart (decide (mode'.next = .block)) lines)) :
    (lexIn .space 1 (dropMark (formatLines (computeLineLevels source) 1 false false false
      ((byteOrderMark ++ line) :: lines)))).tokens.map Prod.snd = tokens ++ more ↔
        StaysApart false ((byteOrderMark ++ line) :: lines) := by
  obtain ⟨hinside, hkept⟩ := isKept_of_run h hline (by decide)
  rw [← decide_next mode', decide_eq_false (by decide : ¬Mode.space = .block),
    ← lineTouchesBlockComment_mark] at hinside
  rw [decide_eq_false (by decide : ¬Mode.space = .block), ← isKept_mark] at hkept
  rcases hcase : isKept false (byteOrderMark ++ line) with _ | _
  · have hmode' : mode' ≠ .block := by
      rintro rfl
      exact absurd (hcase.symm.trans hkept) (by decide)
    obtain ⟨mode'', hmode'', hrun⟩ := run_rtrim h hmode'
    have hnewline : '\n' ∉ rtrim line := fun hmem => hline ((List.rdropWhile_prefix _ _).mem hmem)
    have hlex : lex (byteOrderMark ++ rtrim line) = tokens := by
      rw [lex, lexLines_mark hrun]
      exact hrun.lexLines.1
    rw [staysApart_of_not_kept lines hcase, hinside, formatLines, hinside,
      if_neg (Bool.eq_false_iff.mp hcase), content_mark, hlex, if_neg (by simp [byteOrderMark]),
      computeLineLevels_one]
    have hindent : blankLine false ++ (indent 0 ++ normalizedContent (byteOrderMark ++ rtrim line))
        = normalizedContent (byteOrderMark ++ rtrim line) := rfl
    rw [hindent, normalizedContent_mark hrun hmode'', lexIn_written hrun hmode'' hnewline,
      ← next_of_ne hmode', ih]
  · have hwritten : blankLine false ++ (byteOrderMark ++ line) = byteOrderMark ++ line := rfl
    rw [staysApart_of_kept lines hcase, hinside, formatLines, hinside, if_pos hcase, hwritten,
      List.append_assoc, dropMark_mark, h.lexIn_line hline, List.map_append, List.map_map]
    have hmap : tokens.map (Prod.snd ∘ Prod.mk 1) = tokens := List.map_id tokens
    rw [hmap, List.append_cancel_left_eq, ih]

/-! ## The formatter -/

/-- **The tokens are kept if and only if none join on a line that is written with spaces.** -/
theorem lex_format_iff {source : Text} (h : Accepted source) :
    lex (format source) = lex source ↔ StaysApart false (splitLines source) := by
  rw [Accepted, lexLines_eq] at h
  obtain ⟨tokens, mode, hmode, hrun⟩ := exists_run h
  obtain ⟨rows, hlines, rfl⟩ := hrun.lines hmode
  have hlex : lex source = rows.flatten := by
    rw [lex, lexLines_eq]
    exact (hrun.lexIn 1).1
  have hstart : ¬Mode.space = .block := by decide
  rw [hlex, lex, lexLines_eq]
  by_cases hmark : byteOrderMark <+: source
  · obtain ⟨body, rfl⟩ := hmark
    rw [dropMark_mark] at hlines
    rw [format]
    generalize hbody : splitLines body = lines at hlines
    generalize hlevel : byteOrderMark ++ body = source at *
    cases hlines with
    | last h hline hlast =>
      rw [← hlevel, splitLines_mark hbody, hlevel]
      refine lexIn_formatLines_mark h hline fun lineNo no => ?_
      rw [formatLines, lexIn_nil]
      exact iff_of_true rfl nofun
    | @cons _ mode' _ _ _ _ h hline hrest =>
      rw [← hlevel, splitLines_mark hbody, hlevel]
      have hnext : mode'.next ≠ .line := by cases mode' <;> decide
      exact lexIn_formatLines_mark h hline fun lineNo no =>
        lexIn_formatLines hrest hnext lineNo no (fun hfalse => absurd hfalse (by decide)) true
  · have hsource : dropMark source = source := by rw [dropMark, if_neg hmark]
    rw [hsource] at hlines
    rw [format, dropMark_of_head? (head?_formatLines hlines rfl 1 false false),
      ← decide_eq_false hstart]
    exact lexIn_formatLines hlines (by decide) 1 1 (fun _ => rfl) false

/-- A semicolon is put next to what it ends. -/
theorem lex_format_semicolon : lex (format "x . y ;".toList) = lex "x . y ;".toList :=
  (lex_format_iff (by decide)).mpr (by decide)

/-- Two dots become one token. -/
theorem not_lex_format_dots : ¬(Accepted ". .".toList →
    lex (format ". .".toList) = lex ". .".toList) := by
  decide

end ModernC.Format
