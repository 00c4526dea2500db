import Mathlib.Data.List.TakeWhile
import ModernC.Lexer.Boundaries

/-!
# Runs of the lexer

A run reads a text from one mode to another and finds tokens on the way.  Runs are what the loop
of the lexer does on texts that it accepts; they can be cut at the end of a line and put together
again there.
-/

namespace ModernC.Lexer

open ModernC.Parser (Kind)
open Specialize (isIdentStart isIdentContinue)

/-! ## What tokens are made of -/

lemma quoted_suffix (quote : Char) (kind : Kind) (accepts : ℕ → Bool) (units : ℕ) (text : Text) :
    (quoted quote kind accepts units text).rest <:+ text := by
  induction units, text using quoted.induct quote kind accepts with
  | case1 units => exact List.suffix_refl _
  | case2 units rest =>
    rw [quoted_quote]
    exact List.suffix_cons _ _
  | case3 units rest hline => rw [quoted_line hline]
  | case4 units hquote hline =>
    rw [quoted, if_neg hquote, if_neg hline, if_pos rfl]
    exact List.nil_suffix
  | case5 units escaped rest hquote hline ih =>
    rw [quoted_escape hquote]
    exact ih.trans ((List.suffix_cons _ _).trans (List.suffix_cons _ _))
  | case6 units c rest hquote hline hescape ih =>
    rw [quoted_unit hquote hline hescape]
    exact ih.trans (List.suffix_cons _ _)

variable {rest : Text}

variable {text : Text}

lemma Spelled.suffix (h : Spelled text rest) : rest <:+ text := by
  obtain ⟨front, rfl, -⟩ := h
  exact List.suffix_append _ _

lemma spelled_digitsOf (first : Char) (text : Text) :
    Spelled text (digitsOf first text).rest := by
  rw [digitsOf]
  split
  · next hhex =>
    simp only [isHex, Bool.and_eq_true, Bool.or_eq_true, beq_iff_eq] at hhex
    have htail : Spelled text text.tail :=
      spelled_tail (by rcases hhex.2 with h | h <;> rw [h] <;> rfl)
    exact htail.trans (spelled_integerDigits _ _ _ _ _)
  · exact spelled_integerDigits _ _ _ _ _

lemma spelled_integer (first : Char) (text : Text) : Spelled text (integer first text).rest :=
  (spelled_digitsOf first text).trans (spelled_numberAfter _ _)

lemma oneOrTwo_suffix (second : Char) (long short : Kind) (text : Text) :
    (oneOrTwo second long short text).rest <:+ text := by
  rw [oneOrTwo]
  split
  · exact List.tail_suffix _
  · exact List.suffix_refl _

lemma punctuation_suffix (c : Char) (text : Text) : (punctuation c text).rest <:+ text := by
  unfold punctuation
  split
  all_goals first
    | exact List.suffix_refl _
    | exact oneOrTwo_suffix _ _ _ _
    | exact quoted_suffix _ _ _ _ _
    | split
      · first
        | exact List.tail_suffix _
        | exact (oneOrTwo_suffix _ _ _ _).trans (List.tail_suffix _)
      · first
        | exact List.suffix_refl _
        | exact oneOrTwo_suffix _ _ _ _

/-- The rest is behind the token. -/
lemma scan_suffix (c : Char) (text : Text) : (scan c text).rest <:+ text := by
  rw [scan]
  split
  · exact List.dropWhile_suffix _
  · split
    · exact (spelled_integer c text).suffix
    · exact punctuation_suffix c text

/-- No literal goes over the end of a line. -/
lemma quoted_newline {quote : Char} {kind kind' : Kind} {accepts : ℕ → Bool} {units : ℕ}
    (hquote : quote ≠ '\n') (h : quoted quote kind accepts units text = ⟨kind', [], true⟩) :
    '\n' ∉ text ∧ text.getLast? = some quote := by
  induction units, text using quoted.induct quote kind accepts with
  | case1 units => exact absurd h (by simp [quoted])
  | case2 units rest =>
    rw [quoted_quote] at h
    obtain ⟨-, rfl, -⟩ := scan_mk_eq.mp h
    simpa using hquote.symm
  | case3 units rest hline =>
    rw [quoted_line hline] at h
    exact absurd h (by simp)
  | case4 units hquote' hline =>
    rw [quoted, if_neg hquote', if_neg hline, if_pos rfl] at h
    exact absurd h (by simp)
  | case5 units escaped rest hquote' hline ih =>
    rw [quoted_escape hquote'] at h
    obtain ⟨hkind, hrest, hclean⟩ := scan_mk_eq.mp h
    obtain ⟨hescape, hclean⟩ := Bool.and_eq_true_iff.mp hclean
    have hread : quoted quote kind accepts (units + 1) rest = ⟨kind', [], true⟩ := by
      rw [← hkind, ← hrest, ← hclean]
    obtain ⟨hnewline, hlast⟩ := ih hread
    have hne : escaped ≠ '\n' := by
      rintro rfl
      exact absurd hescape (by decide)
    have hnil : rest ≠ [] := by
      rintro rfl
      exact absurd hlast (by simp)
    refine ⟨?_, ?_⟩
    · simp [hnewline, hne.symm]
    · rw [List.getLast?_cons_of_ne_nil (List.cons_ne_nil _ _), List.getLast?_cons_of_ne_nil hnil,
        hlast]
  | case6 units c rest hquote' hline hescape ih =>
    rw [quoted_unit hquote' hline hescape] at h
    obtain ⟨hnewline, hlast⟩ := ih h
    have hnil : rest ≠ [] := by
      rintro rfl
      exact absurd hlast (by simp)
    refine ⟨?_, ?_⟩
    · simp [hnewline, Ne.symm hline]
    · rw [List.getLast?_cons_of_ne_nil hnil, hlast]

lemma quoted_kind {quote : Char} {kind kind' : Kind} {accepts : ℕ → Bool} {units : ℕ}
    (h : quoted quote kind accepts units text = ⟨kind', rest, true⟩) :
    kind' = kind := by
  induction units, text using quoted.induct quote kind accepts with
  | case1 units => exact absurd h (by simp [quoted])
  | case2 units text =>
    rw [quoted_quote] at h
    exact (scan_mk_eq.mp h).1.symm
  | case3 units text hline =>
    rw [quoted_line hline] at h
    exact absurd h (by simp)
  | case4 units hquote hline =>
    rw [quoted, if_neg hquote, if_neg hline, if_pos rfl] at h
    exact absurd h (by simp)
  | case5 units escaped text hquote hline ih =>
    rw [quoted_escape hquote] at h
    obtain ⟨hkind, hrest, hclean⟩ := scan_mk_eq.mp h
    refine ih ?_
    rw [← hkind, ← hrest, ← (Bool.and_eq_true_iff.mp hclean).2]
  | case6 units c text hquote hline hescape ih =>
    rw [quoted_unit hquote hline hescape] at h
    exact ih h

variable {c : Char}

lemma isWhitespace_of_isNumberChar (h : isNumberChar c = true) :
    isWhitespace c = false := by
  simp only [isNumberChar, Bool.or_eq_true, List.mem_cons, List.not_mem_nil, or_false,
    decide_eq_true_eq] at h
  rcases h with h | rfl | rfl | rfl
  · exact isWhitespace_of_isIdentContinue h
  · rfl
  · rfl
  · rfl

variable {token : Token}

/-- A word or a number is made of characters of words and numbers. -/
lemma isNumberChar_of_ends (h : Ends token rest)
    (hword : isIdentContinue (peek token.lexeme) = true) :
    ∀ c ∈ token.lexeme, isNumberChar c = true := by
  have hends : Ends token [] := (ends_iff.mp h).1
  obtain ⟨kind, _ | ⟨c, text⟩⟩ := token
  · exact absurd hword nofun
  have htext : ∀ c ∈ text, isNumberChar c = true := by
    by_cases hstart : isIdentStart c = true
    · rw [ends_word hstart, List.append_nil] at hends
      have hdrop : text.dropWhile isIdentContinue = [] := (scan_mk_eq.mp hends).2.1
      exact fun d hd => isNumberChar_of_inside (fun _ h => h) (List.dropWhile_eq_nil_iff.mp hdrop d hd)
    · have hstart' : isIdentStart c = false := by simpa using hstart
      have hdigit : c.isDigit = true := by simpa [isIdentContinue, hstart'] using hword
      rw [ends_number hstart' hdigit, List.append_nil] at hends
      obtain ⟨front, hfront, hspelled⟩ := spelled_integer c text
      rw [hends, List.append_nil] at hfront
      exact hfront ▸ hspelled
  intro d hd
  rcases List.mem_cons.mp hd with rfl | hd
  · exact isNumberChar_of_inside (fun _ h => h) hword
  · exact htext d hd

lemma mark_plain (h : token ∈ marks) :
    ∀ c ∈ token.lexeme, isWhitespace c = false := by
  have hall : (marks.all fun mark => mark.lexeme.all fun c => !isWhitespace c) = true := by decide
  have hmark := List.all_eq_true.mp hall token h
  exact fun c hc => (Bool.not_eq_true' _).mp (List.all_eq_true.mp hmark c hc)

/-- **No token reaches over the end of a line or ends in space.** -/
lemma Ends.plain (h : Ends token rest) :
    '\n' ∉ token.lexeme ∧ ∀ c, token.lexeme.getLast? = some c → isWhitespace c = false := by
  have hall : (∀ c ∈ token.lexeme, isWhitespace c = false) →
      '\n' ∉ token.lexeme ∧ ∀ c, token.lexeme.getLast? = some c → isWhitespace c = false :=
    fun hplain => ⟨fun hmem => absurd (hplain _ hmem) (by decide),
      fun c hc => hplain c (List.mem_of_getLast? hc)⟩
  have hquote : ∀ {quote : Char} {text : Text}, quote ≠ '\n' → isWhitespace quote = false →
      ('\n' ∉ text ∧ text.getLast? = some quote) → '\n' ∉ quote :: text ∧
        ∀ c, (quote :: text).getLast? = some c → isWhitespace c = false := by
    intro quote text hne hspace hread
    refine ⟨by simp [hread.1, hne.symm], fun c hc => ?_⟩
    rw [List.getLast?_cons, hread.2] at hc
    obtain rfl := Option.some.inj hc
    exact hspace
  rcases h.cases with hword | hstart | hstart | hmem
  · exact hall fun c hc => isWhitespace_of_isNumberChar (isNumberChar_of_ends h hword c hc)
  · have hends := (ends_iff.mp h).1
    obtain ⟨kind, _ | ⟨c, text⟩⟩ := token
    · exact absurd hstart (by simp)
    obtain rfl : c = '"' := hstart
    rw [ends_of_isMark rfl (by decide), List.append_nil] at hends
    exact hquote (by decide) rfl (quoted_newline (by decide) hends)
  · have hends := (ends_iff.mp h).1
    obtain ⟨kind, _ | ⟨c, text⟩⟩ := token
    · exact absurd hstart (by simp)
    obtain rfl : c = '\'' := hstart
    rw [ends_of_isMark rfl (by decide), List.append_nil] at hends
    exact hquote (by decide) rfl (quoted_newline (by decide) hends)
  · exact hall (mark_plain hmem)

/-! ## Runs -/

/-- From one mode the text is read to the end in another, with the tokens on the way. -/
inductive Run : Mode → Text → List Token → Mode → Prop
  | done (mode) : Run mode [] [] mode
  | space {c text tokens mode} (hc : isWhitespace c = true) (h : Run .space text tokens mode) :
      Run .space (c :: text) tokens mode
  | token {token text tokens mode} (hends : Ends token text) (h : Run .space text tokens mode) :
      Run .space (token.lexeme ++ text) (token :: tokens) mode
  | openLine {text tokens mode} (h : Run .line text tokens mode) :
      Run .space ('/' :: '/' :: text) tokens mode
  | line {c text tokens mode} (hc : c ≠ '\n') (h : Run .line text tokens mode) :
      Run .line (c :: text) tokens mode
  | closeLine {text tokens mode} (h : Run .space text tokens mode) :
      Run .line ('\n' :: text) tokens mode
  | openBlock {text tokens mode} (h : Run .block text tokens mode) :
      Run .space ('/' :: '*' :: text) tokens mode
  | block {c text tokens mode} (hc : c = '*' → text.head? ≠ some '/')
      (h : Run .block text tokens mode) : Run .block (c :: text) tokens mode
  | closeBlock {text tokens mode} (h : Run .space text tokens mode) :
      Run .block ('*' :: '/' :: text) tokens mode

/-- The mode behind the end of a line. -/
def Mode.next : Mode → Mode
  | .block => .block
  | _ => .space

/-! ### Cutting -/

/-- Nothing that could go on with a token or close a comment comes first. -/
def Blank (rest : Text) : Prop := ∀ c, rest.head? = some c → isWhitespace c = true

lemma blank_cons (h : isWhitespace c = true) (rest : Text) : Blank (c :: rest) := by
  rintro d ⟨⟩
  exact h

lemma Blank.head_append (h : Blank rest) (hc : isWhitespace c = false)
    (text : Text) : (text ++ rest).head? = some c ↔ text.head? = some c := by
  rcases text with _ | ⟨d, text⟩
  · rw [List.nil_append]
    refine ⟨fun hhead => absurd ((h c hhead).symm.trans hc) (by decide), nofun⟩
  · rfl

lemma Blank.halts (h : Blank rest) : Halts rest := by
  rcases rest with _ | ⟨c, rest⟩
  · exact halts_nil
  · by_contra hne
    have hc : isIdentContinue c = true := by simpa [Halts] using hne
    exact absurd ((h c rfl).symm.trans (isWhitespace_of_isIdentContinue hc)) (by decide)

lemma Blank.halts_append (h : Blank rest) :
    Halts (text ++ rest) ↔ Halts text := by
  rcases text with _ | ⟨c, text⟩
  · exact iff_of_true h.halts halts_nil
  · rfl

lemma Blank.startsFraction_append (h : Blank rest) (text : Text) :
    startsFraction .decimal (text ++ rest) = startsFraction .decimal text := by
  refine Lexer.startsFraction_append h.halts fun _ => ?_
  have hdot : peek rest ≠ '.' := by
    rcases rest with _ | ⟨c, rest⟩
    · decide
    · rintro rfl
      exact absurd (h '.' rfl) (by decide)
  simp [startsFraction, hdot]

lemma isWhitespace_of_mem_extensions {kind : Kind} (h : c ∈ extensions kind) :
    isWhitespace c = false := by
  unfold extensions at h
  split at h
  all_goals simp only [List.mem_cons, List.not_mem_nil, or_false] at h
  all_goals first
    | obtain rfl := h
      rfl
    | rcases h with rfl | rfl <;> rfl

/-- Space behind a text changes nothing for the token in front of it. -/
lemma Blank.ends_append (h : Blank rest) :
    Ends token (text ++ rest) ↔ Ends token text := by
  have hstops : Stops token (text ++ rest) ↔ Stops token text := by
    constructor
    · rintro ⟨hword, hfraction, hmark⟩
      refine ⟨fun hc => h.halts_append.mp (hword hc), fun hopen => ?_, fun hmem c hc hhead => ?_⟩
      · rw [← h.startsFraction_append]
        exact hfraction hopen
      · exact hmark hmem c hc ((h.head_append (isWhitespace_of_mem_extensions hc) text).mpr hhead)
    · rintro ⟨hword, hfraction, hmark⟩
      refine ⟨fun hc => h.halts_append.mpr (hword hc), fun hopen => ?_, fun hmem c hc hhead => ?_⟩
      · rw [h.startsFraction_append]
        exact hfraction hopen
      · exact hmark hmem c hc ((h.head_append (isWhitespace_of_mem_extensions hc) text).mp hhead)
  calc Ends token (text ++ rest)
    _ ↔ Ends token [] ∧ Stops token (text ++ rest) := ends_iff
    _ ↔ Ends token [] ∧ Stops token text := by rw [hstops]
    _ ↔ Ends token text := ends_iff.symm

/-- A token in front of the end of a line is in the line. -/
lemma eq_append_of_not_mem {front line : Text} (hfront : '\n' ∉ front)
    (h : front ++ text = line ++ '\n' :: rest) :
    ∃ line', line = front ++ line' ∧ text = line' ++ '\n' :: rest := by
  rcases List.append_eq_append_iff.mp h with ⟨line', rfl, rfl⟩ | ⟨rest', rfl, hrest⟩
  · exact ⟨line', rfl, rfl⟩
  · rcases rest' with _ | ⟨c, rest'⟩
    · exact ⟨[], by simp, by simpa using hrest.symm⟩
    · obtain rfl : '\n' = c := (List.cons.inj hrest).1
      exact absurd (by simp) hfront

variable {tokens : List Token}

/-- **A run is cut at the end of a line.** -/
lemma Run.cut {mode mode' : Mode} {line : Text}
    (h : Run mode (line ++ '\n' :: rest) tokens mode') (hline : '\n' ∉ line) :
    ∃ front back middle, tokens = front ++ back ∧ Run mode line front middle ∧
      Run middle.next rest back mode' := by
  generalize htext : line ++ '\n' :: rest = text at h
  induction h generalizing line with
  | done mode => exact absurd htext (by simp)
  | @space c text tokens mode hc h ih =>
    rcases line with _ | ⟨d, line⟩
    · obtain ⟨rfl, rfl⟩ := List.cons.inj htext
      exact ⟨[], tokens, .space, rfl, .done _, h⟩
    · obtain ⟨rfl, rfl⟩ := List.cons.inj htext
      obtain ⟨front, back, middle, rfl, hfront, hback⟩ :=
        ih (fun hmem => hline (List.mem_cons_of_mem d hmem)) rfl
      exact ⟨front, back, middle, rfl, .space hc hfront, hback⟩
  | @token token text tokens mode hends h ih =>
    obtain ⟨line', rfl, rfl⟩ := eq_append_of_not_mem hends.plain.1 htext.symm
    obtain ⟨front, back, middle, rfl, hfront, hback⟩ :=
      ih (fun hmem => hline (List.mem_append_right _ hmem)) rfl
    exact ⟨token :: front, back, middle, rfl,
      .token ((blank_cons rfl rest).ends_append.mp hends) hfront, hback⟩
  | @openLine text tokens mode h ih =>
    obtain ⟨line', rfl, rfl⟩ :=
      eq_append_of_not_mem (by decide : '\n' ∉ ['/', '/']) htext.symm
    obtain ⟨front, back, middle, rfl, hfront, hback⟩ :=
      ih (fun hmem => hline (List.mem_append_right _ hmem)) rfl
    exact ⟨front, back, middle, rfl, .openLine hfront, hback⟩
  | @line c text tokens mode hc h ih =>
    obtain ⟨line', rfl, rfl⟩ :=
      eq_append_of_not_mem (by simpa using Ne.symm hc : '\n' ∉ [c]) htext.symm
    obtain ⟨front, back, middle, rfl, hfront, hback⟩ :=
      ih (fun hmem => hline (List.mem_append_right _ hmem)) rfl
    exact ⟨front, back, middle, rfl, .line hc hfront, hback⟩
  | @closeLine text tokens mode h ih =>
    rcases line with _ | ⟨d, line⟩
    · obtain ⟨-, rfl⟩ := List.cons.inj htext
      exact ⟨[], tokens, .line, rfl, .done _, h⟩
    · obtain ⟨rfl, -⟩ := List.cons.inj htext
      exact absurd List.mem_cons_self hline
  | @openBlock text tokens mode h ih =>
    obtain ⟨line', rfl, rfl⟩ :=
      eq_append_of_not_mem (by decide : '\n' ∉ ['/', '*']) htext.symm
    obtain ⟨front, back, middle, rfl, hfront, hback⟩ :=
      ih (fun hmem => hline (List.mem_append_right _ hmem)) rfl
    exact ⟨front, back, middle, rfl, .openBlock hfront, hback⟩
  | @block c text tokens mode hc h ih =>
    rcases line with _ | ⟨d, line⟩
    · obtain ⟨rfl, rfl⟩ := List.cons.inj htext
      exact ⟨[], tokens, .block, rfl, .done _, h⟩
    · obtain ⟨rfl, rfl⟩ := List.cons.inj htext
      obtain ⟨front, back, middle, rfl, hfront, hback⟩ :=
        ih (fun hmem => hline (List.mem_cons_of_mem d hmem)) rfl
      refine ⟨front, back, middle, rfl, .block (fun hd hhead => hc hd ?_) hfront, hback⟩
      exact ((blank_cons rfl rest).head_append (by decide) line).mpr hhead
  | @closeBlock text tokens mode h ih =>
    obtain ⟨line', rfl, rfl⟩ :=
      eq_append_of_not_mem (by decide : '\n' ∉ ['*', '/']) htext.symm
    obtain ⟨front, back, middle, rfl, hfront, hback⟩ :=
      ih (fun hmem => hline (List.mem_append_right _ hmem)) rfl
    exact ⟨front, back, middle, rfl, .closeBlock hfront, hback⟩

/-! ### Trimming -/

lemma Run.trimLeft {mode : Mode}
    (h : Run .space (c :: text) tokens mode) (hc : isWhitespace c = true) :
    Run .space text tokens mode := by
  generalize htext : c :: text = all at h
  cases h with
  | done => exact absurd htext (by simp)
  | space hc' h =>
    obtain ⟨rfl, rfl⟩ := List.cons.inj htext
    exact h
  | @token token text' tokens mode hends h =>
    obtain ⟨d, rest, hlexeme, hskip, -⟩ := hends
    rw [hlexeme] at htext
    obtain ⟨rfl, -⟩ := List.cons.inj htext
    have hne : c ≠ '/' := by
      rintro rfl
      exact absurd hc (by decide)
    have hlength := length_skip_le .space (rest ++ text')
    rw [skip, if_pos hc] at hskip
    · rw [hskip] at hlength
      simp only [List.length_cons, List.length_append] at hlength
      omega
    · exact fun _ hslash _ => hne hslash
    · exact fun _ hslash _ => hne hslash
  | openLine h | openBlock h =>
    obtain ⟨rfl, -⟩ := List.cons.inj htext
    exact absurd hc (by decide)

lemma eq_append_of_last {front line : Text} {w : Char}
    (hlast : ∀ c, front.getLast? = some c → c ≠ w) (h : front ++ text = line ++ [w])
    (hfront : front ≠ []) : ∃ line', line = front ++ line' ∧ text = line' ++ [w] := by
  rcases List.append_eq_append_iff.mp h with ⟨line', rfl, rfl⟩ | ⟨rest', rfl, hrest⟩
  · exact ⟨line', rfl, rfl⟩
  · rcases rest' with _ | ⟨c, rest'⟩
    · exact ⟨[], by simp, by simpa using hrest.symm⟩
    · obtain ⟨rfl, hnil⟩ := List.cons.inj hrest
      obtain ⟨rfl, -⟩ := List.append_eq_nil_iff.mp hnil.symm
      exact absurd rfl (hlast w (by simp))

/-- Space at the end of a line can go. -/
lemma Run.trimRight {mode mode' : Mode} {w : Char}
    (h : Run mode (text ++ [w]) tokens mode') (hw : isWhitespace w = true) (hne : w ≠ '\n')
    (hmode : mode' ≠ .block) : ∃ mode'', mode'' ≠ .block ∧ Run mode text tokens mode'' := by
  have hother : ∀ {c}, isWhitespace c = false → c ≠ w := by
    rintro c hc rfl
    exact absurd (hc.symm.trans hw) (by decide)
  have hpair : ∀ {a b}, isWhitespace b = false → ∀ c, [a, b].getLast? = some c → c ≠ w := by
    rintro a b hb c ⟨⟩
    exact hother hb
  have hblank : Blank [w] := blank_cons hw []
  generalize hall : text ++ [w] = all at h
  -- the last byte is space, so it ends no token and no line
  induction h generalizing text with
  | done mode => exact absurd hall (by simp)
  | @space c text' tokens mode hc h ih =>
    rcases text with _ | ⟨d, text⟩
    · obtain ⟨rfl, rfl⟩ := List.cons.inj hall
      exact ⟨_, hmode, h⟩
    · obtain ⟨rfl, rfl⟩ := List.cons.inj hall
      obtain ⟨mode'', hmode'', hrun⟩ := ih hmode rfl
      exact ⟨mode'', hmode'', .space hc hrun⟩
  | @token token text' tokens mode hends h ih =>
    have hlexeme : token.lexeme ≠ [] := by
      obtain ⟨c, rest, hlexeme, -⟩ := hends
      rw [hlexeme]
      exact List.cons_ne_nil _ _
    obtain ⟨line', rfl, rfl⟩ :=
      eq_append_of_last (fun c hc => hother (hends.plain.2 c hc)) hall.symm hlexeme
    obtain ⟨mode'', hmode'', hrun⟩ := ih hmode rfl
    exact ⟨mode'', hmode'', .token (hblank.ends_append.mp hends) hrun⟩
  | @openLine text' tokens mode h ih =>
    obtain ⟨line', rfl, rfl⟩ := eq_append_of_last (hpair rfl)
      (hall.symm : ['/', '/'] ++ text' = _) (by simp)
    obtain ⟨mode'', hmode'', hrun⟩ := ih hmode rfl
    exact ⟨mode'', hmode'', .openLine hrun⟩
  | @line c text' tokens mode hc h ih =>
    rcases text with _ | ⟨d, text⟩
    · obtain ⟨rfl, rfl⟩ := List.cons.inj hall
      exact ⟨_, hmode, h⟩
    · obtain ⟨rfl, rfl⟩ := List.cons.inj hall
      obtain ⟨mode'', hmode'', hrun⟩ := ih hmode rfl
      exact ⟨mode'', hmode'', .line hc hrun⟩
  | @closeLine text' tokens mode h ih =>
    have hlast : ∀ c, ['\n'].getLast? = some c → c ≠ w := by
      rintro c ⟨⟩
      exact hne.symm
    obtain ⟨line', rfl, rfl⟩ := eq_append_of_last hlast (hall.symm : ['\n'] ++ text' = _) (by simp)
    obtain ⟨mode'', hmode'', hrun⟩ := ih hmode rfl
    exact ⟨mode'', hmode'', .closeLine hrun⟩
  | @openBlock text' tokens mode h ih =>
    obtain ⟨line', rfl, rfl⟩ := eq_append_of_last (hpair rfl)
      (hall.symm : ['/', '*'] ++ text' = _) (by simp)
    obtain ⟨mode'', hmode'', hrun⟩ := ih hmode rfl
    exact ⟨mode'', hmode'', .openBlock hrun⟩
  | @block c text' tokens mode hc h ih =>
    rcases text with _ | ⟨d, text⟩
    · obtain ⟨rfl, rfl⟩ := List.cons.inj hall
      cases h
      exact absurd rfl hmode
    · obtain ⟨rfl, rfl⟩ := List.cons.inj hall
      obtain ⟨mode'', hmode'', hrun⟩ := ih hmode rfl
      refine ⟨mode'', hmode'', .block (fun hstar hhead => hc hstar ?_) hrun⟩
      exact (hblank.head_append (by decide) text).mpr hhead
  | @closeBlock text' tokens mode h ih =>
    obtain ⟨line', rfl, rfl⟩ := eq_append_of_last (hpair rfl)
      (hall.symm : ['*', '/'] ++ text' = _) (by simp)
    obtain ⟨mode'', hmode'', hrun⟩ := ih hmode rfl
    exact ⟨mode'', hmode'', .closeBlock hrun⟩

end ModernC.Lexer
