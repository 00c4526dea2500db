import ModernC.Lexer.Runs

/-!
# The loop of the lexer

The loop does what a run says: a text with a run has the tokens of the run, and a text that is
accepted has a run.
-/

namespace ModernC.Lexer

/-- The loop with fuel enough. -/
def lexIn (mode : Mode) (line : ℕ) (text : Text) : Lexed :=
  lexFrom (text.length + 1) mode line text

/-! ## Fuel -/

/-- What the loop does behind skipped space. -/
def lexAfter (more : ℕ → Text → Lexed) (line : ℕ) (closed : Bool) : Text → Lexed
  | [] => ⟨[], closed⟩
  | c :: text =>
    let token := scan c text
    let lexeme := consumed (c :: text) token.rest
    let rest := more (line + newlines lexeme) token.rest
    ⟨(line, ⟨token.kind, lexeme⟩) :: rest.tokens, closed && token.clean && rest.clean⟩

lemma lexFrom_succ (fuel : ℕ) (mode : Mode) (line : ℕ) (text : Text) :
    lexFrom (fuel + 1) mode line text =
      lexAfter (lexFrom fuel .space) (line + newlines (consumed text (skip mode text).1))
        (skip mode text).2 (skip mode text).1 := by
  rw [lexFrom]
  rcases skip mode text with ⟨_ | ⟨c, rest⟩, closed⟩
  · rfl
  · rfl

variable {line : ℕ}

variable {text : Text}

lemma lexAfter_congr {more more' : ℕ → Text → Lexed} {closed : Bool}
    (h : ∀ line' rest, rest.length < text.length → more line' rest = more' line' rest) :
    lexAfter more line closed text = lexAfter more' line closed text := by
  rcases text with _ | ⟨c, text⟩
  · rfl
  · have hlength : (scan c text).rest.length < (c :: text).length :=
      Nat.lt_succ_of_le (scan_suffix c text).length_le
    rw [lexAfter, lexAfter, h _ _ hlength]

variable {mode : Mode}

lemma lexFrom_eq {fuel : ℕ} (h : text.length < fuel) :
    lexFrom fuel mode line text = lexIn mode line text := by
  induction fuel using Nat.strong_induction_on generalizing mode line text with
  | _ fuel ih =>
    obtain ⟨fuel, rfl⟩ : ∃ fuel', fuel = fuel' + 1 := ⟨fuel - 1, by omega⟩
    rw [lexIn, lexFrom_succ, lexFrom_succ]
    refine lexAfter_congr fun line' rest hrest => ?_
    have hskip := length_skip_le mode text
    have hlong : lexFrom fuel .space line' rest = lexIn .space line' rest :=
      ih fuel (Nat.lt_succ_self _) (by omega)
    rcases Nat.lt_or_ge text.length fuel with hlt | hge
    · exact hlong.trans (ih text.length (by omega) (by omega)).symm
    · obtain rfl : fuel = text.length := by omega
      rfl

lemma lexIn_eq (mode : Mode) (line : ℕ) (text : Text) :
    lexIn mode line text =
      lexAfter (lexIn .space) (line + newlines (consumed text (skip mode text).1))
        (skip mode text).2 (skip mode text).1 := by
  rw [lexIn, lexFrom_succ]
  refine lexAfter_congr fun line' rest hrest => lexFrom_eq ?_
  have hskip := length_skip_le mode text
  omega

/-! ## Steps -/

lemma consumed_append (front rest : Text) : consumed (front ++ rest) rest = front := by
  rw [consumed, List.length_append, Nat.add_sub_cancel, List.take_left]

lemma newlines_append (text text' : Text) :
    newlines (text ++ text') = newlines text + newlines text' :=
  List.count_append

lemma newlines_of_not_mem (h : '\n' ∉ text) : newlines text = 0 :=
  List.count_eq_zero.mpr h

variable {rest : Text}

lemma consumed_append_of_le {front : Text} (h : rest.length ≤ text.length) :
    consumed (front ++ text) rest = front ++ consumed text rest := by
  have hlength : (front ++ text).length - rest.length =
      front.length + (text.length - rest.length) := by
    rw [List.length_append]
    omega
  rw [consumed, hlength, List.take_length_add_append, consumed]

lemma lexIn_nil (mode : Mode) (line : ℕ) :
    lexIn mode line [] = ⟨[], decide (mode ≠ .block)⟩ := by
  cases mode <;> rfl

variable {mode' : Mode}

/-- A step over skipped characters. -/
lemma lexIn_of_skip (line : ℕ) (front : Text) (h : skip mode (front ++ text) = skip mode' text) :
    lexIn mode line (front ++ text) = lexIn mode' (line + newlines front) text := by
  rw [lexIn_eq, lexIn_eq mode', h, consumed_append_of_le (length_skip_le mode' text),
    newlines_append, Nat.add_assoc]

lemma lexIn_of_skip_line {front : Text} (line : ℕ)
    (hfront : '\n' ∉ front) (h : skip mode (front ++ text) = skip mode' text) :
    lexIn mode line (front ++ text) = lexIn mode' line text := by
  rw [lexIn_of_skip line front h, newlines_of_not_mem hfront, Nat.add_zero]

variable {token : Token}

/-- A step over a token. -/
lemma lexIn_token (h : Ends token rest) (line : ℕ) :
    lexIn .space line (token.lexeme ++ rest) =
      ⟨(line, token) :: (lexIn .space line rest).tokens, (lexIn .space line rest).clean⟩ := by
  have hnewline := newlines_of_not_mem h.plain.1
  obtain ⟨kind, lexeme⟩ := token
  obtain ⟨c, text, rfl, hskip, hscan⟩ := h
  have hconsumed : consumed (c :: (text ++ rest)) rest = c :: text :=
    consumed_append (c :: text) rest
  have hnone : newlines (consumed (c :: (text ++ rest)) (c :: (text ++ rest))) = 0 := by
    rw [consumed, Nat.sub_self]
    rfl
  rw [List.cons_append, lexIn_eq, hskip, hnone, lexAfter]
  simp only [hscan, hconsumed, hnewline, Nat.add_zero, Bool.and_true, Bool.true_and]

/-! ## Runs of the loop -/

variable {c : Char}

lemma skip_space_cons (hc : isWhitespace c = true) (text : Text) :
    skip .space (c :: text) = skip .space text := by
  have hslash : c ≠ '/' := by
    rintro rfl
    exact absurd hc (by decide)
  rw [skip, if_pos hc]
  · exact fun _ h _ => hslash h
  · exact fun _ h _ => hslash h

lemma skip_block_cons (hc : c = '*' → text.head? ≠ some '/') :
    skip .block (c :: text) = skip .block text := by
  rw [skip]
  rintro rest hstar rfl
  exact hc hstar rfl

lemma skip_openLine (text : Text) : skip .space ('/' :: '/' :: text) = skip .line text := by
  rw [skip]

lemma skip_openBlock (text : Text) : skip .space ('/' :: '*' :: text) = skip .block text := by
  rw [skip]

lemma skip_closeBlock (text : Text) : skip .block ('*' :: '/' :: text) = skip .space text := by
  rw [skip]

lemma skip_line_cons (hc : c ≠ '\n') (text : Text) :
    skip .line (c :: text) = skip .line text := by
  rw [skip, if_neg hc]

lemma skip_closeLine (text : Text) : skip .line ('\n' :: text) = skip .space text := by
  rw [skip, if_pos rfl]

/-- **The loop does what a run says.** -/
theorem Run.lexIn {tokens : List Token} (h : Run mode text tokens mode') (line : ℕ) :
    (lexIn mode line text).tokens.map Prod.snd = tokens ∧
      (lexIn mode line text).clean = decide (mode' ≠ .block) := by
  induction h generalizing line with
  | done mode =>
    rw [lexIn_nil]
    exact ⟨rfl, rfl⟩
  | @space c text tokens mode hc _ ih =>
    have hstep := lexIn_of_skip line [c] (skip_space_cons hc text)
    rw [← List.singleton_append, hstep]
    exact ih _
  | token hends _ ih =>
    rw [lexIn_token hends line]
    exact ⟨congrArg _ (ih line).1, (ih line).2⟩
  | @openLine text tokens mode _ ih =>
    have hstep := lexIn_of_skip line ['/', '/'] (skip_openLine text)
    exact (hstep : Lexer.lexIn .space line ('/' :: '/' :: text) = _) ▸ ih _
  | @line c text tokens mode hc _ ih =>
    have hstep := lexIn_of_skip line [c] (skip_line_cons hc text)
    exact (hstep : Lexer.lexIn .line line (c :: text) = _) ▸ ih _
  | @closeLine text tokens mode _ ih =>
    have hstep := lexIn_of_skip line ['\n'] (skip_closeLine text)
    exact (hstep : Lexer.lexIn .line line ('\n' :: text) = _) ▸ ih _
  | @openBlock text tokens mode _ ih =>
    have hstep := lexIn_of_skip line ['/', '*'] (skip_openBlock text)
    exact (hstep : Lexer.lexIn .space line ('/' :: '*' :: text) = _) ▸ ih _
  | @block c text tokens mode hc _ ih =>
    have hstep := lexIn_of_skip line [c] (skip_block_cons hc)
    exact (hstep : Lexer.lexIn .block line (c :: text) = _) ▸ ih _
  | @closeBlock text tokens mode _ ih =>
    have hstep := lexIn_of_skip line ['*', '/'] (skip_closeBlock text)
    exact (hstep : Lexer.lexIn .block line ('*' :: '/' :: text) = _) ▸ ih _

/-- The end of a line takes the loop to the next mode. -/
lemma lexIn_newline (mode : Mode) (line : ℕ) (rest : Text) :
    lexIn mode line ('\n' :: rest) = lexIn mode.next (line + 1) rest := by
  have hskip : skip mode ('\n' :: rest) = skip mode.next rest := by
    rcases mode with _ | _ | _
    · exact skip_space_cons rfl rest
    · exact skip_closeLine rest
    · exact skip_block_cons fun hstar => absurd hstar (by decide)
  exact lexIn_of_skip line ['\n'] hskip

/-- A line in front of the rest. -/
lemma Run.lexIn_line {tokens : List Token}
    (h : Run mode text tokens mode') (hline : '\n' ∉ text) (line : ℕ) (rest : Text) :
    Lexer.lexIn mode line (text ++ '\n' :: rest) =
      ⟨tokens.map (Prod.mk line) ++ (Lexer.lexIn mode'.next (line + 1) rest).tokens,
        (Lexer.lexIn mode'.next (line + 1) rest).clean⟩ := by
  have hblank : Blank ('\n' :: rest) := blank_cons rfl rest
  induction h with
  | done mode => exact lexIn_newline mode line rest
  | @space c text tokens mode hc _ ih =>
    have hfront : '\n' ∉ [c] := fun hmem => hline (List.mem_append_left text hmem)
    exact (lexIn_of_skip_line line hfront (skip_space_cons hc (text ++ '\n' :: rest))).trans
      (ih fun hmem => hline (List.mem_cons_of_mem c hmem))
  | @token token text tokens mode hends _ ih =>
    rw [List.append_assoc, lexIn_token (hblank.ends_append.mpr hends) line,
      ih fun hmem => hline (List.mem_append_right _ hmem)]
    rfl
  | @openLine text tokens mode _ ih =>
    exact (lexIn_of_skip_line line (by decide : '\n' ∉ ['/', '/'])
      (skip_openLine (text ++ '\n' :: rest))).trans
      (ih fun hmem => hline (List.mem_append_right ['/', '/'] hmem))
  | @line c text tokens mode hc _ ih =>
    have hfront : '\n' ∉ [c] := fun hmem => hline (List.mem_append_left text hmem)
    exact (lexIn_of_skip_line line hfront (skip_line_cons hc (text ++ '\n' :: rest))).trans
      (ih fun hmem => hline (List.mem_cons_of_mem c hmem))
  | @closeLine text tokens mode _ ih => exact absurd List.mem_cons_self hline
  | @openBlock text tokens mode _ ih =>
    exact (lexIn_of_skip_line line (by decide : '\n' ∉ ['/', '*'])
      (skip_openBlock (text ++ '\n' :: rest))).trans
      (ih fun hmem => hline (List.mem_append_right ['/', '*'] hmem))
  | @block c text tokens mode hc _ ih =>
    have hfront : '\n' ∉ [c] := fun hmem => hline (List.mem_append_left text hmem)
    have hcomment : c = '*' → (text ++ '\n' :: rest).head? ≠ some '/' := fun hstar hhead =>
      hc hstar ((hblank.head_append (by decide) text).mp hhead)
    exact (lexIn_of_skip_line line hfront (skip_block_cons hcomment)).trans
      (ih fun hmem => hline (List.mem_cons_of_mem c hmem))
  | @closeBlock text tokens mode _ ih =>
    exact (lexIn_of_skip_line line (by decide : '\n' ∉ ['*', '/'])
      (skip_closeBlock (text ++ '\n' :: rest))).trans
      (ih fun hmem => hline (List.mem_append_right ['*', '/'] hmem))

/-- **What the lexer accepts has a run.** -/
theorem exists_run (h : (lexIn mode line text).clean = true) :
    ∃ tokens mode', mode' ≠ .block ∧ Run mode text tokens mode' := by
  induction hlength : text.length using Nat.strong_induction_on generalizing mode line text with
  | _ length ih =>
    subst hlength
    have hstep : ∀ {mode' : Mode} {front rest : Text}, text = front ++ rest → front ≠ [] →
        skip mode text = skip mode' rest →
        ∃ tokens mode'', mode'' ≠ .block ∧ Run mode' rest tokens mode'' := by
      rintro mode' front rest rfl hfront hskip
      rw [lexIn_of_skip line front hskip] at h
      have hpos := List.length_pos_iff.mpr hfront
      exact ih rest.length (by rw [List.length_append]; omega) h rfl
    -- one round for each mode: outside of comments, in a line comment, in a block comment
    rcases mode with _ | _ | _
    · rcases text with _ | ⟨c, text⟩
      · exact ⟨[], .space, by decide, .done _⟩
      · by_cases hspace : isWhitespace c = true
        · obtain ⟨tokens, mode', hmode', hrun⟩ :=
            hstep (List.singleton_append.symm : c :: text = [c] ++ text) (List.cons_ne_nil _ _)
              (skip_space_cons hspace text)
          exact ⟨tokens, mode', hmode', .space hspace hrun⟩
        · by_cases hline : c = '/' ∧ text.head? = some '/'
          · obtain ⟨rfl, hhead⟩ := hline
            obtain ⟨text, rfl⟩ := List.head?_eq_some_iff.mp hhead
            obtain ⟨tokens, mode', hmode', hrun⟩ :=
              hstep (rfl : _ = ['/', '/'] ++ text) (List.cons_ne_nil _ _) (skip_openLine text)
            exact ⟨tokens, mode', hmode', .openLine hrun⟩
          · by_cases hblock : c = '/' ∧ text.head? = some '*'
            · obtain ⟨rfl, hhead⟩ := hblock
              obtain ⟨text, rfl⟩ := List.head?_eq_some_iff.mp hhead
              obtain ⟨tokens, mode', hmode', hrun⟩ :=
                hstep (rfl : _ = ['/', '*'] ++ text) (List.cons_ne_nil _ _) (skip_openBlock text)
              exact ⟨tokens, mode', hmode', .openBlock hrun⟩
            · have hskip : skip .space (c :: text) = (c :: text, true) :=
                skip_space_of_token (by simpa using hspace)
                  fun hc => ⟨fun hhead => hline ⟨hc, hhead⟩, fun hhead => hblock ⟨hc, hhead⟩⟩
              obtain ⟨front, htext⟩ := scan_suffix c text
              rw [lexIn_eq, hskip, lexAfter] at h
              simp only [Bool.true_and, Bool.and_eq_true] at h
              have hlength := (scan_suffix c text).length_le
              obtain ⟨tokens, mode', hmode', hrun⟩ :=
                ih _ (Nat.lt_succ_of_le hlength) h.2 rfl
              have hends : Ends ⟨(scan c text).kind, c :: front⟩ (scan c text).rest := by
                refine ⟨c, front, rfl, by rwa [htext], ?_⟩
                rw [htext, ← h.1]
              have hread := Run.token hends hrun
              rw [List.cons_append, htext] at hread
              exact ⟨_, mode', hmode', hread⟩
    · rcases text with _ | ⟨c, text⟩
      · exact ⟨[], .line, by decide, .done _⟩
      · by_cases hc : c = '\n'
        · subst hc
          obtain ⟨tokens, mode', hmode', hrun⟩ :=
            hstep (rfl : _ = ['\n'] ++ text) (List.cons_ne_nil _ _) (skip_closeLine text)
          exact ⟨tokens, mode', hmode', .closeLine hrun⟩
        · obtain ⟨tokens, mode', hmode', hrun⟩ :=
            hstep (rfl : _ = [c] ++ text) (List.cons_ne_nil _ _) (skip_line_cons hc text)
          exact ⟨tokens, mode', hmode', .line hc hrun⟩
    · rcases text with _ | ⟨c, text⟩
      · rw [lexIn_nil] at h
        exact absurd h (by decide)
      · by_cases hclose : c = '*' ∧ text.head? = some '/'
        · obtain ⟨rfl, hhead⟩ := hclose
          obtain ⟨text, rfl⟩ := List.head?_eq_some_iff.mp hhead
          obtain ⟨tokens, mode', hmode', hrun⟩ :=
            hstep (rfl : _ = ['*', '/'] ++ text) (List.cons_ne_nil _ _) (skip_closeBlock text)
          exact ⟨tokens, mode', hmode', .closeBlock hrun⟩
        · have hc : c = '*' → text.head? ≠ some '/' := fun hstar hhead => hclose ⟨hstar, hhead⟩
          obtain ⟨tokens, mode', hmode', hrun⟩ :=
            hstep (rfl : _ = [c] ++ text) (List.cons_ne_nil _ _) (skip_block_cons hc)
          exact ⟨tokens, mode', hmode', .block hc hrun⟩

/-! ## The byte order mark -/

lemma Run.valid {tokens : List Token}
    (h : Run mode text tokens mode') : ∀ token ∈ tokens, Ends token [] := by
  induction h with
  | token hends _ ih =>
    intro token htoken
    rcases List.mem_cons.mp htoken with rfl | htoken
    · exact (ends_iff.mp hends).1
    · exact ih token htoken
  | done => exact nofun
  | space _ _ ih | openLine _ ih | line _ _ ih | closeLine _ ih | openBlock _ ih | block _ _ ih
  | closeBlock _ ih => exact ih

/-- No token starts with the first byte of the mark. -/
lemma peek_ne_mark (h : Ends token rest) :
    peek token.lexeme ≠ '\xef' := by
  intro hmark
  rcases h.cases with hword | hquote | hquote | hmem
  · rw [hmark] at hword
    exact absurd hword (by decide)
  · rw [hmark] at hquote
    exact absurd hquote (by decide)
  · rw [hmark] at hquote
    exact absurd hquote (by decide)
  · simp only [marks, List.mem_cons, List.not_mem_nil, or_false] at hmem
    casesm* _ ∨ _
    all_goals
      subst hmem
      exact absurd hmark (by decide)

lemma Ends.head?_ne_mark (h : Ends token rest) :
    token.lexeme.head? ≠ some '\xef' := by
  have hpeek := peek_ne_mark h
  obtain ⟨c, lexeme, hlexeme, -⟩ := h
  rw [hlexeme] at hpeek ⊢
  exact fun hhead => hpeek (Option.some.inj hhead)

lemma Run.head?_ne_mark {tokens : List Token}
    (h : Run .space text tokens mode) : text.head? ≠ some '\xef' := by
  intro hhead
  cases h with
  | done => exact absurd hhead nofun
  | space hc _ =>
    obtain rfl := Option.some.inj hhead
    exact absurd hc (by decide)
  | token hends _ =>
    obtain ⟨c, lexeme, hlexeme, -⟩ := id hends
    have hne := hends.head?_ne_mark
    rw [hlexeme] at hhead hne
    exact hne hhead
  | openLine _ | openBlock _ => exact absurd hhead (by simp)

lemma dropMark_of_head? (h : text.head? ≠ some '\xef') : dropMark text = text := by
  rw [dropMark, if_neg]
  rintro ⟨more, rfl⟩
  exact h rfl

lemma lexLines_eq (text : Text) : lexLines text = lexIn .space 1 (dropMark text) := by
  refine lexFrom_eq (Nat.lt_succ_of_le ?_)
  rw [dropMark]
  split
  · rw [List.length_drop]
    exact Nat.sub_le _ _
  · exact le_refl _

/-- The tokens of a text that is read. -/
lemma Run.lexLines {tokens : List Token} (h : Run .space text tokens mode) :
    (lexLines text).tokens.map Prod.snd = tokens ∧
      (lexLines text).clean = decide (mode ≠ .block) := by
  rw [lexLines_eq, dropMark_of_head? h.head?_ne_mark]
  exact h.lexIn 1

/-! ## Lines -/

/-- A text in lines, each with its tokens, with no block comment left open. -/
inductive Lines : Mode → List Text → List (List Token) → Prop
  | last {mode mode' line tokens} (h : Run mode line tokens mode') (hline : '\n' ∉ line)
      (hmode : mode' ≠ .block) : Lines mode [line] [tokens]
  | cons {mode mode' line tokens lines rest} (h : Run mode line tokens mode') (hline : '\n' ∉ line)
      (hrest : Lines mode'.next lines rest) : Lines mode (line :: lines) (tokens :: rest)

lemma splitLines_line {line : Text} (hline : '\n' ∉ line) (rest : Text) :
    splitLines (line ++ '\n' :: rest) = line :: splitLines rest := by
  induction line with
  | nil => rw [List.nil_append, splitLines, if_pos rfl]
  | cons c line ih =>
    have hc : c ≠ '\n' := fun hc => hline (hc ▸ List.mem_cons_self)
    rw [List.cons_append, splitLines, if_neg hc,
      ih fun hmem => hline (List.mem_cons_of_mem c hmem)]

lemma splitLines_last {line : Text} (hline : '\n' ∉ line) : splitLines line = [line] := by
  induction line with
  | nil => rfl
  | cons c line ih =>
    have hc : c ≠ '\n' := fun hc => hline (hc ▸ List.mem_cons_self)
    rw [splitLines, if_neg hc, ih fun hmem => hline (List.mem_cons_of_mem c hmem)]

/-- **A run over a text is a run over each of its lines.** -/
theorem Run.lines {tokens : List Token} (h : Run mode text tokens mode') (hmode : mode' ≠ .block) :
    ∃ rows, Lines mode (splitLines text) rows ∧ tokens = rows.flatten := by
  induction hlength : text.length using Nat.strong_induction_on generalizing mode text tokens with
  | _ length ih =>
    subst hlength
    by_cases hmem : '\n' ∈ text
    · obtain ⟨line, rest, rfl, hline⟩ := List.eq_append_cons_of_mem hmem
      obtain ⟨front, back, middle, rfl, hfront, hback⟩ := h.cut hline
      have hlength : rest.length < (line ++ '\n' :: rest).length := by
        rw [List.length_append, List.length_cons]
        omega
      obtain ⟨rows, hlines, rfl⟩ := ih rest.length hlength hback rfl
      rw [splitLines_line hline]
      exact ⟨front :: rows, .cons hfront hline hlines, by rw [List.flatten_cons]⟩
    · rw [splitLines_last hmem]
      exact ⟨[tokens], .last h hmem hmode, by simp⟩

end ModernC.Lexer
