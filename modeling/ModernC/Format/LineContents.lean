import ModernC.Format.Spacing

/-!
# What a line keeps

A run over a line says whether the formatter finds it in a block comment.  Trimming a line, and
indenting it, keep its run; so does the content of a line that is written with spaces, if no two
of its tokens join.
-/

namespace ModernC.Format

open ModernC.Parser (Kind)
open Lexer
open Specialize (isIdentContinue)

/-! ## Trimming -/

variable {text line : Text} {tokens : List Token} {mode mode' : Mode}

lemma run_ltrim (h : Run .space text tokens mode) : Run .space (ltrim text) tokens mode:= by
  induction text with
  | nil => exact h
  | cons c text ih =>
    rw [ltrim]
    by_cases hc : c ∈ [' ', '\t']
    · rw [List.dropWhile_cons_of_pos (by simpa using hc)]
      refine ih (h.trimLeft ?_)
      rcases (by simpa using hc : c = ' ' ∨ c = '\t') with rfl | rfl <;> rfl
    · rw [List.dropWhile_cons_of_neg (by simpa using hc)]
      exact h

lemma run_rtrim (h : Run mode text tokens mode') (hmode : mode' ≠ .block) :
    ∃ mode'', mode'' ≠ .block ∧ Run mode (rtrim text) tokens mode'' := by
  induction text using List.reverseRecOn generalizing mode' with
  | nil => exact ⟨mode', hmode, h⟩
  | append_singleton text c ih =>
    rw [rtrim]
    by_cases hc : c ∈ [' ', '\t', '\r']
    · rw [List.rdropWhile_concat_pos _ _ _ (by simpa using hc)]
      have hspace : isWhitespace c = true ∧ c ≠ '\n' := by
        rcases (by simpa using hc : c = ' ' ∨ c = '\t' ∨ c = '\r') with rfl | rfl | rfl <;> decide
      obtain ⟨mode'', hmode'', hrun⟩ := h.trimRight hspace.1 hspace.2 hmode
      exact ih hrun hmode''
    · rw [List.rdropWhile_concat_neg _ _ _ (by simpa using hc)]
      exact ⟨mode', hmode, h⟩

/-- The content of a line has the tokens of the line. -/
lemma run_content (h : Run .space line tokens mode) (hmode : mode ≠ .block) :
    ∃ mode', mode' ≠ .block ∧ Run .space (content line) tokens mode' :=
  run_rtrim (run_ltrim h) hmode

lemma newline_not_mem_ltrim (h : '\n' ∉ text) : '\n' ∉ ltrim text :=
  fun hmem => h (List.dropWhile_suffix _ |>.mem hmem)

lemma newline_not_mem_content (h : '\n' ∉ line) : '\n' ∉ content line :=
  fun hmem => newline_not_mem_ltrim h ((List.rdropWhile_prefix _ _).mem hmem)

/-! ## Block comments -/

lemma walk_code_cons {c : Char} (hslash : c = '/' → text.head? ≠ some '/' ∧ text.head? ≠ some '*')
    (hquote : c ≠ '"' ∧ c ≠ '\'') : walk .code (c :: text) = walk .code text := by
  rw [walk, if_neg (by simp [hquote])]
  · rintro rest hc rfl
    exact (hslash hc).1 rfl
  · rintro rest hc rfl
    exact (hslash hc).2 rfl

lemma walk_code_append {front : Text} (h : ∀ c ∈ front, c ≠ '/' ∧ c ≠ '"' ∧ c ≠ '\'') :
    walk .code (front ++ text) = walk .code text := by
  induction front with
  | nil => rfl
  | cons c front ih =>
    obtain ⟨hslash, hquote⟩ := h c List.mem_cons_self
    rw [List.cons_append, walk_code_cons (fun hc => absurd hc hslash) hquote]
    exact ih fun d hd => h d (List.mem_cons_of_mem c hd)

lemma walk_quoted {quote : Char} {kind kind' : Kind} {accepts : ℕ → Bool} {units : ℕ}
    (hquote : '\\' ≠ quote)
    (h : quoted quote kind accepts units text = ⟨kind', [], true⟩) (rest : Text) :
    walk (.quoted quote) (text ++ rest) = walk .code rest := by
  induction units, text using quoted.induct quote kind accepts with
  | case1 units => exact absurd h (by simp [quoted])
  | case2 units text =>
    rw [quoted_quote] at h
    obtain ⟨-, rfl, -⟩ := scan_mk_eq.mp h
    rw [List.singleton_append, walk, if_pos rfl]
    exact fun _ _ hc _ => hquote hc.symm
  | case3 units text hline =>
    rw [quoted_line hline] at h
    exact absurd h (by simp)
  | case4 units hquote' hline =>
    rw [quoted, if_neg hquote', if_neg hline, if_pos rfl] at h
    exact absurd h (by simp)
  | case5 units escaped text hquote' hline ih =>
    rw [quoted_escape hquote'] at h
    obtain ⟨hkind, hrest, hclean⟩ := scan_mk_eq.mp h
    rw [List.cons_append, List.cons_append, walk]
    refine ih ?_
    rw [← hkind, ← hrest, ← (Bool.and_eq_true_iff.mp hclean).2]
  | case6 units c text hquote' hline hescape ih =>
    rw [quoted_unit hquote' hline hescape] at h
    rw [List.cons_append, walk, if_neg hquote']
    · exact ih h
    · exact fun _ _ hc _ => hescape hc

lemma plain_marks : ∀ mark ∈ marks, mark.kind ≠ .slash →
    ∀ c ∈ mark.lexeme, c ≠ '/' ∧ c ≠ '"' ∧ c ≠ '\'' := by
  have hall : (marks.all fun mark => mark.kind == .slash || mark.lexeme.all fun c =>
      decide (c ≠ '/' ∧ c ≠ '"' ∧ c ≠ '\'')) = true := by decide
  intro mark hmark hkind
  have hlexeme := (Bool.or_eq_true_iff.mp (List.all_eq_true.mp hall mark hmark)).resolve_left
    fun h => hkind (beq_iff_eq.mp h)
  exact fun c hc => of_decide_eq_true (List.all_eq_true.mp hlexeme c hc)

lemma slash_marks : ∀ mark ∈ marks, mark.kind = .slash → mark = ⟨.slash, ['/']⟩ := by
  decide

lemma walk_literal {kind : Kind} {accepts : ℕ → Bool} {quote : Char} {body : Text}
    {kind' : Kind} (hquote : quote = '"' ∨ quote = '\'')
    (h : quoted quote kind accepts 0 body = ⟨kind', [], true⟩) :
    walk .code (quote :: body ++ text) = walk .code text := by
  have hescape : '\\' ≠ quote := by
    rintro rfl
    exact absurd hquote (by decide)
  have hopen : walk .code (quote :: (body ++ text)) = walk (.quoted quote) (body ++ text) := by
    rw [walk, if_pos hquote]
    all_goals
      rintro _ rfl -
      exact absurd hquote (by decide)
  rw [List.cons_append, hopen, walk_quoted hescape h]

/-- A token does not touch a comment. -/
lemma walk_token {token : Token} (h : Ends token text) :
    walk .code (token.lexeme ++ text) = walk .code text := by
  have hends := (ends_iff.mp h).1
  rcases h.cases with hword | hquote | hquote | hmem
  · refine walk_code_append fun c hc => ?_
    have hchar := isNumberChar_of_ends h hword c hc
    refine ⟨?_, ?_, ?_⟩
    all_goals
      rintro rfl
      exact absurd hchar (by decide)
  · obtain ⟨kind, _ | ⟨c, body⟩⟩ := token
    · exact absurd hquote (by simp)
    obtain rfl : c = '"' := hquote
    rw [ends_of_isMark rfl (by decide), List.append_nil] at hends
    exact walk_literal (.inl rfl) hends
  · obtain ⟨kind, _ | ⟨c, body⟩⟩ := token
    · exact absurd hquote (by simp)
    obtain rfl : c = '\'' := hquote
    rw [ends_of_isMark rfl (by decide), List.append_nil] at hends
    exact walk_literal (.inr rfl) hends
  · by_cases hslash : token.kind = .slash
    · obtain rfl := slash_marks token hmem hslash
      exact walk_code_cons (fun _ => ends_slash.mp h) (by decide)
    · exact walk_code_append (plain_marks token hmem hslash)

/-- What a walk through a line finds, by the mode that a run starts in. -/
structure Walked (mode : Mode) (text : Text) (mode' : Mode) : Prop where
  code : mode = .space → (walk .code text).2 = decide (mode' = .block) ∧
    (mode' = .block → (walk .code text).1 = true)
  block : mode = .block → walk .block text = (true, decide (mode' = .block))
  line : mode = .line → mode' = .line

/-- **The walk through a line agrees with the lexer.** -/
theorem walked_of_run
    (h : Run mode text tokens mode') (hline : '\n' ∉ text) : Walked mode text mode' := by
  induction h with
  | done mode =>
    refine ⟨?_, ?_, id⟩
    · rintro rfl
      exact ⟨rfl, nofun⟩
    · rintro rfl
      rfl
  | @space c text tokens mode hc _ ih =>
    have hwalk : walk .code (c :: text) = walk .code text := by
      refine walk_code_cons ?_ ⟨?_, ?_⟩
      all_goals
        rintro rfl
        exact absurd hc (by decide)
    refine ⟨fun _ => ?_, nofun, nofun⟩
    rw [hwalk]
    exact (ih fun hmem => hline (List.mem_cons_of_mem c hmem)).code rfl
  | @token token text tokens mode hends _ ih =>
    refine ⟨fun _ => ?_, nofun, nofun⟩
    rw [walk_token hends]
    exact (ih fun hmem => hline (List.mem_append_right _ hmem)).code rfl
  | @openLine text tokens mode _ ih =>
    have hmode := (ih fun hmem => hline (List.mem_append_right ['/', '/'] hmem)).line rfl
    refine ⟨fun _ => ?_, nofun, nofun⟩
    rw [walk, hmode]
    exact ⟨rfl, nofun⟩
  | @line c text tokens mode hc _ ih =>
    exact ⟨nofun, nofun, fun _ =>
      (ih fun hmem => hline (List.mem_cons_of_mem c hmem)).line rfl⟩
  | closeLine _ _ => exact absurd List.mem_cons_self hline
  | @openBlock text tokens mode _ ih =>
    have hblock := (ih fun hmem => hline (List.mem_append_right ['/', '*'] hmem)).block rfl
    refine ⟨fun _ => ?_, nofun, nofun⟩
    rw [walk, hblock]
    exact ⟨rfl, fun _ => rfl⟩
  | @block c text tokens mode hc _ ih =>
    refine ⟨nofun, fun _ => ?_, nofun⟩
    rw [walk]
    · exact (ih fun hmem => hline (List.mem_cons_of_mem c hmem)).block rfl
    · rintro rest hstar rfl
      exact hc hstar rfl
  | @closeBlock text tokens mode _ ih =>
    have hcode := (ih fun hmem => hline (List.mem_append_right ['*', '/'] hmem)).code rfl
    refine ⟨nofun, fun _ => ?_, nofun⟩
    rw [walk, hcode.1]

/-- The lines that are kept are the ones with an open comment at one of their ends. -/
lemma isKept_of_run (h : Run mode line tokens mode') (hline : '\n' ∉ line) (hmode : mode ≠ .line) :
    (lineTouchesBlockComment (decide (mode = .block)) line).2 = decide (mode' = .block) ∧
      isKept (decide (mode = .block)) line = decide (mode = .block ∨ mode' = .block) := by
  have hwalked := walked_of_run h hline
  rcases mode with _ | _ | _
  · obtain ⟨hinside, htouched⟩ := hwalked.code rfl
    have hwalk : lineTouchesBlockComment (decide (Mode.space = .block)) line = walk .code line := rfl
    rw [isKept, hwalk, hinside]
    refine ⟨rfl, ?_⟩
    by_cases hopen : mode' = .block
    · simp [htouched hopen, hopen]
    · simp [hopen]
  · exact absurd rfl hmode
  · have hblock := hwalked.block rfl
    have hwalk : lineTouchesBlockComment (decide (Mode.block = .block)) line = walk .block line :=
      rfl
    rw [isKept, hwalk, hblock]
    simp

/-! ## Normalized contents -/

/-- A token that is read is not invalid. -/
lemma kind_ne_invalid {token : Token} {rest : Text} (h : Ends token rest) :
    token.kind ≠ .invalid := by
  have hmarks : ∀ mark ∈ marks, mark.kind ≠ .invalid := by decide
  rcases mem_marks_or_isWordLike h with hmem | ⟨hword, -⟩
  · exact hmarks token hmem
  · exact ne_of_isWordLike hword rfl

lemma normalizedContent_of_lexed {content : Text}
    (htokens : (lexLines content).tokens.map Prod.snd = tokens)
    (hclean : (lexLines content).clean = true) (hends : ∀ token ∈ tokens, Ends token []) :
    normalizedContent content =
      if isOpaque content || tokens.isEmpty then content else spaced tokens := by
  have hvalid : tokens.any (fun token => token.kind == .invalid) = false := by
    rw [List.any_eq_false]
    intro token htoken
    simpa using kind_ne_invalid (hends token htoken)
  rw [normalizedContent]
  simp only [htokens, hclean, hvalid, Bool.not_true, Bool.false_or]
  by_cases hhidden : isOpaque content = true
  · simp [hhidden]
  · simp [hhidden]

/-- The tokens of a content are written with spaces, unless it is opaque. -/
lemma normalizedContent_of_run {content : Text}
    (h : Run .space content tokens mode) (hmode : mode ≠ .block) :
    normalizedContent content =
      if isOpaque content || tokens.isEmpty then content else spaced tokens := by
  obtain ⟨htokens, hclean⟩ := h.lexLines
  exact normalizedContent_of_lexed htokens (hclean.trans (decide_eq_true hmode)) h.valid

end ModernC.Format
