import ModernC.Parser.Expressions

/-!
# The lookahead for generic calls and the parse it predicts

The scan behind a `<` counts how many lists are open.  A `>>` closes two, but the scan takes one
off its count (`scanTypeArgs_closers`), so it is right only where the `>>` ends the whole list.
The parser splits a `>>` and reads every list (`finishTypeArgsAfterLess_writeArgs`).
-/

namespace ModernC.Parser

open Syntax (Ident Expr TypeExpr)
open TypeArg (closer)

/-! ## Closing tokens -/

@[simp] lemma closer_kind : closer.kind = .greater := rfl

/-- The tokens of `n` adjacent `>`. -/
def closers (n : ℕ) : Tokens := munch (List.replicate n closer)

@[simp] lemma closers_zero : closers 0 = [] := rfl

@[simp] lemma closers_one : closers 1 = [closer] := rfl

lemma closers_add_two (n : ℕ) :
    closers (n + 2) = { kind := .shiftRight, lexeme := ">>" } :: closers n := rfl

lemma munch_cons {token : Token} (h : token.kind ≠ .greater) (tokens : Tokens) :
    munch (token :: tokens) = token :: munch tokens := by
  cases tokens with
  | nil => rfl
  | cons second rest => rw [munch, if_neg fun hboth => h hboth.1]

/-- Adjacent `>` in front of another token are munched on their own. -/
lemma munch_replicate {token : Token} (h : token.kind ≠ .greater) (tokens : Tokens) :
    ∀ n, munch (List.replicate n closer ++ token :: tokens) =
      closers n ++ munch (token :: tokens)
  | 0 => rfl
  | 1 => by simp [munch, h]
  | n + 2 => by
    have ih := munch_replicate h tokens n
    rw [closers_add_two, List.cons_append, ← ih]
    rfl

namespace TypeArg

/-! ## The tokens of an argument before its last closing run -/

mutual

/-- How many `>` the text of an argument ends with. -/
def trail : TypeArg → ℕ
  | .integer _ => 0
  | .named _ => 0
  | .generic _ args => trails args + 1

def trails : List TypeArg → ℕ
  | [] => 0
  | [arg] => arg.trail
  | _ :: next :: args => trails (next :: args)

end

mutual

/-- The munched tokens of an argument up to the `>` it ends with. -/
def body : TypeArg → Tokens
  | .integer token => [token]
  | .named token => [token]
  | .generic base args => base :: { kind := .less, lexeme := "<" } :: bodies args

def bodies : List TypeArg → Tokens
  | [] => []
  | [arg] => arg.body
  | arg :: next :: args =>
    arg.body ++ (closers arg.trail ++ { kind := .comma, lexeme := "," } :: bodies (next :: args))

end

mutual

/-- How many `>>` there are among these tokens. -/
def doubles : TypeArg → ℕ
  | .integer _ => 0
  | .named _ => 0
  | .generic _ args => doublesOf args

def doublesOf : List TypeArg → ℕ
  | [] => 0
  | [arg] => arg.doubles
  | arg :: next :: args => arg.doubles + arg.trail / 2 + doublesOf (next :: args)

end

lemma isTypeName_kind {token : Token} (h : isTypeName token = true) :
    isSymbol token.kind = true ∧ token.kind ≠ .kwType := by
  simpa [isTypeName] using h

lemma kind_ne_of_isSymbol {kind kind' : Kind} (h : isSymbol kind = true)
    (h' : isSymbol kind' = false) : kind ≠ kind' := by
  rintro rfl
  rw [h] at h'
  cases h'

lemma isTypeName_ne_greater {token : Token} (h : isTypeName token = true) :
    token.kind ≠ .greater :=
  kind_ne_of_isSymbol (isTypeName_kind h).1 rfl

variable {args : List TypeArg}

lemma munch_writeArgs (hne : args ≠ []) (hargs : ∀ arg ∈ args, ∀ rest,
      munch (arg.write ++ rest) = arg.body ++ munch (List.replicate arg.trail closer ++ rest))
    (rest : Tokens) :
    munch (writeArgs args ++ rest) =
      bodies args ++ munch (List.replicate (trails args + 1) closer ++ rest) := by
  induction args with
  | nil => exact absurd rfl hne
  | cons arg args ih =>
    cases args with
    | nil =>
      rw [writeArgs, bodies, trails, List.append_assoc, hargs arg (by simp), List.replicate_succ']
      simp
    | cons next args =>
      have hcomma : ({ kind := .comma, lexeme := "," } : Token).kind ≠ .greater := by decide
      rw [writeArgs, bodies, trails, List.append_assoc, hargs arg (by simp), List.cons_append,
        munch_replicate hcomma, munch_cons hcomma,
        ih (by simp) fun other hother => hargs other (List.mem_cons_of_mem _ hother)]
      simp

lemma munch_write {arg : TypeArg} (h : WellFormed arg) (rest : Tokens) :
    munch (arg.write ++ rest) = arg.body ++ munch (List.replicate arg.trail closer ++ rest) := by
  induction h generalizing rest with
  | integer h => exact munch_cons (by rw [h]; decide) rest
  | named h => exact munch_cons (isTypeName_ne_greater h) rest
  | generic h hne _ ih =>
    have hless : ({ kind := .less, lexeme := "<" } : Token).kind ≠ .greater := by decide
    simp only [write, body, trail, List.cons_append]
    rw [munch_cons (isTypeName_ne_greater h), munch_cons hless, munch_writeArgs hne ih]

/-- The munched tokens of a list: everything up to its last closing run, and the run. -/
lemma munch_writeArgs_eq (hne : args ≠ []) (hargs : ∀ arg ∈ args, WellFormed arg) :
    munch (writeArgs args) = bodies args ++ closers (trails args + 1) := by
  have h := munch_writeArgs hne (fun arg harg => munch_write (hargs arg harg)) []
  simpa [closers] using h

/-! ## Where the scan goes wrong -/

lemma trail_eq_zero_iff {arg : TypeArg} : arg.trail = 0 ↔ arg.isGeneric = false := by
  cases arg <;> simp [trail, isGeneric]

lemma trails_eq_zero_iff :
    trails args = 0 ↔ ∀ last ∈ args.getLast?, last.isGeneric = false := by
  induction args with
  | nil => simp [trails]
  | cons arg args ih =>
    cases args with
    | nil => simp [trails, trail_eq_zero_iff]
    | cons next args => rw [trails, ih, List.getLast?_cons_cons]

lemma plain_args_iff (hne : args ≠ [])
    (hargs : ∀ arg ∈ args, (LastPlain arg ↔ arg.trail ≤ 1 ∧ arg.doubles = 0)) :
    (∀ arg ∈ args, LastPlain arg) ↔ trails args ≤ 1 ∧ doublesOf args = 0 := by
  induction args with
  | nil => exact absurd rfl hne
  | cons arg args ih =>
    have hfirst := hargs arg (by simp)
    cases args with
    | nil => simpa [trails, doublesOf] using hfirst
    | cons next args =>
      have hothers := ih (by simp) fun other hother => hargs other (List.mem_cons_of_mem _ hother)
      rw [List.forall_mem_cons, hfirst, hothers, trails, doublesOf]
      omega

/-- The scan meets no `>>` before the end of an argument exactly when none of its generic types
ends with one. -/
lemma lastPlain_iff {arg : TypeArg} (h : WellFormed arg) :
    LastPlain arg ↔ arg.trail ≤ 1 ∧ arg.doubles = 0 := by
  induction h with
  | integer _ => exact ⟨fun _ => ⟨Nat.zero_le _, rfl⟩, fun _ => .integer⟩
  | named _ => exact ⟨fun _ => ⟨Nat.zero_le _, rfl⟩, fun _ => .named⟩
  | @generic base args _ hne _ ih =>
    have hargs := plain_args_iff hne ih
    have hlast : trails args = 0 ↔ ∀ last ∈ args.getLast?, last.isGeneric = false :=
      trails_eq_zero_iff
    rw [trail, doubles]
    constructor
    · rintro (_ | _ | ⟨hall, hend⟩)
      exact ⟨by have := hlast.mpr hend; omega, (hargs.mp hall).2⟩
    · rintro ⟨htrail, hdoubles⟩
      have hzero : trails args = 0 := by omega
      exact .generic (hargs.mpr ⟨by omega, hdoubles⟩) (hlast.mp hzero)

end TypeArg

/-! ## The scan -/

section Scan

variable {depth budget : ℕ} {saw : Bool} {following : Tokens}

variable {token : Token}

/-- A token that a type argument starts with is of no other kind. -/
lemma kind_ne_of_type {kind : Kind} (h : isSymbol token.kind = true ∨ token.kind = .integerLiteral)
    (hsymbol : isSymbol kind = false) (hliteral : kind ≠ .integerLiteral) :
    token.kind ≠ kind := by
  rintro rfl
  rcases h with h | h
  · rw [hsymbol] at h
    cases h
  · exact hliteral h

lemma scanTypeArgs_type (h : isSymbol token.kind = true ∨ token.kind = .integerLiteral) :
    scanTypeArgs depth saw (budget + 1) (token :: following) =
      scanTypeArgs depth true budget following := by
  have hstop : token.kind ∉
      [Kind.eof, .semicolon, .lBrace, .rBrace, .fatArrow, .equal, .lParen] := by
    intro hmem
    have hkind : ∀ kind ∈ [Kind.eof, .semicolon, .lBrace, .rBrace, .fatArrow, .equal, .lParen],
        isSymbol kind = false ∧ kind ≠ .integerLiteral := by decide
    exact kind_ne_of_type h (hkind _ hmem).1 (hkind _ hmem).2 rfl
  rw [scanTypeArgs, if_neg hstop, if_neg (kind_ne_of_type h rfl (by decide)),
    if_neg (kind_ne_of_type h rfl (by decide)), if_neg (kind_ne_of_type h rfl (by decide)),
    if_neg (kind_ne_of_type h rfl (by decide))]

lemma scanTypeArgs_less (h : token.kind = .less) :
    scanTypeArgs depth saw (budget + 1) (token :: following) =
      scanTypeArgs (depth + 1) false budget following := by
  simp [scanTypeArgs, h]

lemma scanTypeArgs_comma (h : token.kind = .comma) :
    scanTypeArgs depth true (budget + 1) (token :: following) =
      scanTypeArgs depth false budget following := by
  simp [scanTypeArgs, h]

variable {n : ℕ}

/-- A run of `>` that leaves lists open takes one off the count for each of its tokens. -/
lemma scanTypeArgs_closers (h : n ≤ depth) :
    scanTypeArgs depth true (budget + (closers n).length) (closers n ++ following) =
      scanTypeArgs (depth - n + n / 2) true budget following := by
  induction n using Nat.twoStepInduction generalizing depth with
  | zero => simp
  | one =>
    have hdepth : depth ≠ 0 := by omega
    simp [scanTypeArgs, hdepth]
  | more n ih _ =>
    have hdepth : depth ≠ 0 ∧ depth ≠ 1 := by omega
    have hpred : n ≤ depth - 1 := by omega
    have hrest := ih hpred
    have hcount : depth - 1 - n + n / 2 = depth - (n + 2) + (n + 2) / 2 := by omega
    rw [closers_add_two, List.length_cons, List.cons_append, ← hcount, ← hrest]
    simp [scanTypeArgs, hdepth]

lemma scanTypeArgs_bodies {args : List TypeArg} (hne : args ≠ [])
    (hargs : ∀ arg ∈ args, ∀ (depth budget : ℕ) (saw : Bool) (following : Tokens),
      scanTypeArgs depth saw (budget + arg.body.length) (arg.body ++ following) =
        scanTypeArgs (depth + arg.trail + arg.doubles) true budget following) :
    scanTypeArgs depth saw (budget + (TypeArg.bodies args).length)
        (TypeArg.bodies args ++ following) =
      scanTypeArgs (depth + TypeArg.trails args + TypeArg.doublesOf args) true budget
        following := by
  induction args generalizing depth saw with
  | nil => exact absurd rfl hne
  | cons arg args ih =>
    cases args with
    | nil => exact hargs arg (by simp) depth budget saw following
    | cons next args =>
      have hrest : scanTypeArgs (depth + arg.doubles + arg.trail / 2) false
          (budget + (TypeArg.bodies (next :: args)).length)
          (TypeArg.bodies (next :: args) ++ following) = _ :=
        ih (by simp) fun other hother => hargs other (List.mem_cons_of_mem _ hother)
      have htrail : arg.trail ≤ depth + arg.trail + arg.doubles := by omega
      have hcount : depth + arg.trail + arg.doubles - arg.trail + arg.trail / 2 =
          depth + arg.doubles + arg.trail / 2 := by omega
      have hbudget : budget + (TypeArg.bodies (arg :: next :: args)).length =
          budget + (TypeArg.bodies (next :: args)).length + 1 + (closers arg.trail).length +
            arg.body.length := by
        simp only [TypeArg.bodies, List.length_append, List.length_cons]
        omega
      rw [hbudget, TypeArg.bodies, List.append_assoc, hargs arg (by simp), List.append_assoc,
        scanTypeArgs_closers htrail, hcount, List.cons_append, scanTypeArgs_comma rfl, hrest,
        TypeArg.trails, TypeArg.doublesOf]
      congr 1
      omega

lemma scanTypeArgs_body {arg : TypeArg} (h : arg.WellFormed) (depth budget : ℕ) (saw : Bool)
    (following : Tokens) :
    scanTypeArgs depth saw (budget + arg.body.length) (arg.body ++ following) =
      scanTypeArgs (depth + arg.trail + arg.doubles) true budget following := by
  induction h generalizing depth budget saw following with
  | integer h => exact scanTypeArgs_type (.inr h)
  | named h => exact scanTypeArgs_type (.inl (TypeArg.isTypeName_kind h).1)
  | @generic base args h hne _ ih =>
    have hbudget : budget + (TypeArg.generic base args).body.length =
        budget + (TypeArg.bodies args).length + 1 + 1 := by
      simp only [TypeArg.body, List.length_cons]
      omega
    rw [hbudget, TypeArg.body, List.cons_append, List.cons_append,
      scanTypeArgs_type (.inl (TypeArg.isTypeName_kind h).1), scanTypeArgs_less rfl,
      scanTypeArgs_bodies hne ih, TypeArg.trail, TypeArg.doubles]
    congr 1
    omega

/-- The closing run of a list with no other list open ends the scan where it should. -/
lemma scanTypeArgs_end (h : n ≤ 1) :
    scanTypeArgs n true (budget + (closers (n + 1)).length) (closers (n + 1) ++ following) =
      some (decide (current following = .lParen)) := by
  rcases Nat.le_one_iff_eq_zero_or_eq_one.mp h with rfl | rfl
  · simp [scanTypeArgs]
  · simp [scanTypeArgs, closers_add_two]

/-- Any other closing run leaves the list with the scan still inside it. -/
lemma scanTypeArgs_past {k : ℕ} (h : ¬(n ≤ 1 ∧ k = 0)) :
    ∃ stillOpen, scanTypeArgs (n + k) true (budget + (closers (n + 1)).length)
        (closers (n + 1) ++ following) = scanTypeArgs stillOpen true budget following := by
  by_cases hk : k = 0
  · obtain ⟨m, rfl⟩ : ∃ m, n = m + 2 := ⟨n - 2, by omega⟩
    have hrest : m + 1 ≤ m + 1 := le_refl _
    refine ⟨_, Eq.trans ?_ (scanTypeArgs_closers hrest)⟩
    rw [closers_add_two, hk]
    simp [scanTypeArgs]
  · have hlists : n + 1 ≤ n + k := by omega
    exact ⟨_, scanTypeArgs_closers hlists⟩

end Scan

/-- The token that opens a list. -/
def opener : Token := { kind := .less, lexeme := "<" }

/-- **The lookahead** at a written list that fits its limit: right where no `>>` comes before
the end of the list, and never a yes in front of `(` where one does. -/
theorem lessStartsGenericCall_writeArgs {args : List TypeArg} (hne : args ≠ [])
    (hargs : ∀ arg ∈ args, arg.WellFormed)
    (hlimit : (munch (TypeArg.writeArgs args)).length ≤ maxGenericLookaheadTokens)
    (following : Tokens) :
    ((∀ arg ∈ args, arg.LastPlain) →
      lessStartsGenericCall (opener :: (munch (TypeArg.writeArgs args) ++ following)) =
        some (decide (current following = .lParen))) ∧
    (¬ (∀ arg ∈ args, arg.LastPlain) → current following = .lParen →
      lessStartsGenericCall (opener :: (munch (TypeArg.writeArgs args) ++ following)) ≠
        some true) := by
  rw [TypeArg.munch_writeArgs_eq hne hargs] at hlimit ⊢
  obtain ⟨budget, hbudget⟩ : ∃ budget, maxGenericLookaheadTokens =
      budget + (closers (TypeArg.trails args + 1)).length + (TypeArg.bodies args).length := by
    rw [List.length_append] at hlimit
    exact ⟨maxGenericLookaheadTokens - ((TypeArg.bodies args).length +
      (closers (TypeArg.trails args + 1)).length), by omega⟩
  have hplain := TypeArg.plain_args_iff hne fun arg harg => TypeArg.lastPlain_iff (hargs arg harg)
  have hscan : lessStartsGenericCall (opener :: (TypeArg.bodies args ++
        closers (TypeArg.trails args + 1) ++ following)) =
      scanTypeArgs (TypeArg.trails args + TypeArg.doublesOf args) true
        (budget + (closers (TypeArg.trails args + 1)).length)
        (closers (TypeArg.trails args + 1) ++ following) := by
    have hless : current (opener :: (TypeArg.bodies args ++ closers (TypeArg.trails args + 1) ++
        following)) = .less := rfl
    rw [lessStartsGenericCall, if_pos hless, hbudget, List.tail_cons, List.append_assoc,
      scanTypeArgs_bodies hne fun arg harg => scanTypeArgs_body (hargs arg harg), Nat.zero_add]
  rw [hscan, hplain]
  constructor
  · rintro ⟨htrails, hdoubles⟩
    rw [hdoubles, Nat.add_zero, scanTypeArgs_end htrails]
  · intro hlast hparen
    obtain ⟨stillOpen, hpast⟩ := scanTypeArgs_past hlast
    rw [hpast]
    cases following with
    | nil => cases hparen
    | cons token rest =>
      have hkind : token.kind = .lParen := hparen
      cases budget <;> simp [scanTypeArgs, hkind]

/-! ## Tokens that spell a text of closers -/

/-- `tokens` spell the text `pieces` in front of `following`: a `>>` spells two closers, and a
`>` spells one wherever it comes from. -/
inductive Spells (following : Tokens) : Tokens → Tokens → Prop where
  | done : Spells following following []
  | same {token : Token} {tokens pieces : Tokens} (h : Spells following tokens pieces) :
      Spells following (token :: tokens) (token :: pieces)
  | greater {token piece : Token} {tokens pieces : Tokens} (htoken : token.kind = .greater)
      (hpiece : piece.kind = .greater) (h : Spells following tokens pieces) :
      Spells following (token :: tokens) (piece :: pieces)
  | shiftRight {token piece next : Token} {tokens pieces : Tokens}
      (htoken : token.kind = .shiftRight) (hpiece : piece.kind = .greater)
      (hnext : next.kind = .greater) (h : Spells following tokens pieces) :
      Spells following (token :: tokens) (piece :: next :: pieces)

namespace Spells

variable {following tokens pieces : Tokens} {piece : Token}

lemma munch (following : Tokens) : ∀ pieces : Tokens,
    Spells following (Parser.munch pieces ++ following) pieces
  | [] => .done
  | [_] => .same .done
  | first :: second :: rest => by
    by_cases h : first.kind = .greater ∧ second.kind = .greater
    · rw [Parser.munch, if_pos h]
      exact .shiftRight rfl h.1 h.2 (munch following rest)
    · rw [Parser.munch, if_neg h]
      exact .same (munch following (second :: rest))

lemma length_le (h : Spells following tokens pieces) : pieces.length ≤ 2 * tokens.length := by
  induction h with
  | done => exact Nat.zero_le _
  | same _ ih | greater _ _ _ ih | shiftRight _ _ _ _ ih => simp only [List.length_cons]; omega

lemma eq_following (h : Spells following tokens []) : tokens = following := by
  cases h
  rfl

/-- A token other than a closer is spelled by itself. -/
lemma of_ne_greater (h : Spells following tokens (piece :: pieces))
    (hpiece : piece.kind ≠ .greater) :
    ∃ rest, tokens = piece :: rest ∧ Spells following rest pieces := by
  cases h with
  | same h => exact ⟨_, rfl, h⟩
  | greater _ hkind _ | shiftRight _ hkind _ _ => exact absurd hkind hpiece

/-- **Splitting**: taking one closer leaves tokens that spell what is left of the text. -/
lemma consumeGenericClose (h : Spells following tokens (piece :: pieces))
    (hpiece : piece.kind = .greater) :
    ∃ rest, Parser.consumeGenericClose tokens = some rest ∧ Spells following rest pieces := by
  cases h with
  | same h => exact ⟨_, if_pos hpiece, h⟩
  | greater htoken _ h => exact ⟨_, if_pos htoken, h⟩
  | @shiftRight token _ _ _ _ htoken _ hnext h =>
    have hne : token.kind ≠ .greater := by
      rw [htoken]
      decide
    refine ⟨_, (if_neg hne).trans (if_pos htoken), .greater ?_ hnext h⟩
    rfl

lemma current_closer (h : Spells following tokens (piece :: pieces))
    (hpiece : piece.kind = .greater) :
    current tokens = .greater ∨ current tokens = .shiftRight := by
  cases h with
  | same h => exact .inl hpiece
  | greater htoken _ _ => exact .inl htoken
  | shiftRight htoken _ _ _ => exact .inr htoken

end Spells

/-! ## The parse -/

/-- What can come after an argument: a comma or a closer. -/
def EndsArg (pieces : Tokens) : Prop := current pieces = .comma ∨ current pieces = .greater

lemma Spells.current_ends {following tokens pieces : Tokens} (h : Spells following tokens pieces)
    (hends : EndsArg pieces) :
    current tokens = .comma ∨ current tokens = .greater ∨ current tokens = .shiftRight := by
  cases pieces with
  | nil => rcases hends with hends | hends <;> cases hends
  | cons piece pieces =>
    rcases hends with hcomma | hgreater
    · obtain ⟨rest, rfl, -⟩ := h.of_ne_greater (by
        intro hkind
        rw [current_cons, hkind] at hcomma
        cases hcomma)
      exact .inl hcomma
    · exact .inr (h.current_closer hgreater)

namespace TypeArg

lemma write_eq_cons {arg : TypeArg} (h : WellFormed arg) :
    ∃ token rest, arg.write = token :: rest ∧
      (isSymbol token.kind = true ∨ token.kind = .integerLiteral) := by
  cases h with
  | integer h => exact ⟨_, _, rfl, .inr h⟩
  | named h | generic h _ _ => exact ⟨_, _, rfl, .inl (isTypeName_kind h).1⟩

lemma writeArgs_eq_cons {arg : TypeArg} (h : WellFormed arg) (args : List TypeArg) :
    ∃ token rest, writeArgs (arg :: args) = token :: rest ∧
      (isSymbol token.kind = true ∨ token.kind = .integerLiteral) := by
  obtain ⟨token, rest, hwrite, hkind⟩ := write_eq_cons h
  cases args with
  | nil => exact ⟨token, rest ++ [closer], by rw [writeArgs, hwrite]; rfl, hkind⟩
  | cons next args => exact ⟨token, _, by rw [writeArgs, hwrite]; rfl, hkind⟩

lemma length_writeArgs {args : List TypeArg} (hargs : ∀ arg ∈ args, WellFormed arg) :
    2 * args.length ≤ (writeArgs args).length := by
  induction args with
  | nil => exact Nat.zero_le _
  | cons arg args ih =>
    obtain ⟨token, rest, hwrite, -⟩ := write_eq_cons (hargs arg (by simp))
    cases args with
    | nil => simp [writeArgs, hwrite]
    | cons next args =>
      have hothers := ih fun other hother => hargs other (List.mem_cons_of_mem _ hother)
      simp only [writeArgs, hwrite, List.length_append, List.length_cons] at hothers ⊢
      omega

lemma nesting_le_nestings {args : List TypeArg} {arg : TypeArg} (h : arg ∈ args) :
    arg.nesting ≤ nestings args := by
  induction args with
  | nil => cases h
  | cons other args ih =>
    rw [nestings]
    rcases List.mem_cons.mp h with rfl | h
    · exact le_max_left _ _
    · exact (ih h).trans (le_max_right _ _)

end TypeArg

lemma memberTypes_eq {wrappers : ℕ} {ty : TypeExpr} {tokens : Tokens}
    (h : current tokens ≠ .dot) : memberTypes wrappers ty tokens = some (ty, tokens) := by
  cases wrappers <;> simp [memberTypes, accept, h]

section ReadsArgument

variable {following : Tokens} {item : Parse TypeExpr}

/-- The parser reads the argument in front of whatever may follow an argument. -/
def ReadsArgument (following : Tokens) (item : Parse TypeExpr) (arg : TypeArg) : Prop :=
  ∀ tokens pieces, Spells following tokens (arg.write ++ pieces) → EndsArg pieces →
    ∃ rest, item tokens = some (arg.toTypeExpr, rest) ∧ Spells following rest pieces

variable {tokens : Tokens}

lemma commaSeparated_writeArgs {args : List TypeArg} {pieces : Tokens} {fuel : ℕ}
    (hne : args ≠ []) (hargs : ∀ arg ∈ args, arg.WellFormed)
    (hreads : ∀ arg ∈ args, ReadsArgument following item arg) (hfuel : args.length ≤ fuel)
    (h : Spells following tokens (TypeArg.writeArgs args ++ pieces)) :
    ∃ rest, commaSeparated item .eof fuel tokens = some (TypeArg.toTypeExprs args, rest) ∧
      Spells following rest (closer :: pieces) := by
  induction args generalizing tokens fuel with
  | nil => exact absurd rfl hne
  | cons arg args ih =>
    obtain ⟨fuel, rfl⟩ : ∃ more, fuel = more + 1 := ⟨fuel - 1, by simp at hfuel; omega⟩
    cases args with
    | nil =>
      rw [TypeArg.writeArgs, List.append_assoc] at h
      obtain ⟨rest, hitem, hrest⟩ := hreads arg (by simp) _ _ h (.inr rfl)
      have hclose : current rest ≠ .comma := by
        rcases hrest.current_closer rfl with hkind | hkind <;> rw [hkind] <;> decide
      refine ⟨rest, ?_, hrest⟩
      simp [commaSeparated, hitem, accept, hclose, TypeArg.toTypeExprs]
    | cons next args =>
      rw [TypeArg.writeArgs, List.append_assoc] at h
      obtain ⟨rest, hitem, hrest⟩ := hreads arg (by simp) _ _ h (.inl rfl)
      rw [List.cons_append] at hrest
      obtain ⟨others, rfl, hothers⟩ := hrest.of_ne_greater (by decide)
      have hmore : current others ≠ .eof := by
        obtain ⟨token, tail, hwrite, hkind⟩ :=
          TypeArg.writeArgs_eq_cons (hargs next (by simp)) args
        rw [hwrite, List.cons_append] at hothers
        obtain ⟨_, rfl, -⟩ := hothers.of_ne_greater (kind_ne_of_type hkind rfl (by decide))
        exact kind_ne_of_type hkind rfl (by decide)
      obtain ⟨rest, hrest, hspells⟩ := ih (by simp)
        (fun other hother => hargs other (List.mem_cons_of_mem _ hother))
        (fun other hother => hreads other (List.mem_cons_of_mem _ hother))
        (by simpa using hfuel) hothers
      refine ⟨rest, ?_, hspells⟩
      rw [commaSeparated, hitem]
      simp [hmore, hrest, TypeArg.toTypeExprs]

lemma finishTypeArgsAfterLess_of_reads {parseType : Parse TypeExpr} {args : List TypeArg}
    {pieces : Tokens} (hne : args ≠ []) (hargs : ∀ arg ∈ args, arg.WellFormed)
    (hreads : ∀ arg ∈ args, ReadsArgument following (typeArg parseType) arg)
    (h : Spells following tokens (TypeArg.writeArgs args ++ pieces)) :
    ∃ rest, finishTypeArgsAfterLess parseType tokens = some (TypeArg.toTypeExprs args, rest) ∧
      Spells following rest pieces := by
  have hfuel : args.length ≤ tokens.length + 1 := by
    have hpieces := h.length_le
    have hwritten := TypeArg.length_writeArgs hargs
    rw [List.length_append] at hpieces
    omega
  obtain ⟨arg, others, rfl⟩ := List.exists_cons_of_ne_nil hne
  have hfirst : current tokens ≠ .greater := by
    obtain ⟨token, tail, hwrite, hkind⟩ :=
      TypeArg.writeArgs_eq_cons (hargs arg (by simp)) others
    have hgreater : token.kind ≠ .greater := kind_ne_of_type hkind rfl (by decide)
    rw [hwrite, List.cons_append] at h
    obtain ⟨_, rfl, -⟩ := h.of_ne_greater hgreater
    exact hgreater
  obtain ⟨rest, hlist, hrest⟩ := commaSeparated_writeArgs hne hargs hreads hfuel h
  obtain ⟨left, hclose, hleft⟩ := hrest.consumeGenericClose rfl
  refine ⟨left, ?_, hleft⟩
  rw [finishTypeArgsAfterLess, if_neg hfirst, hlist]
  simp [hclose]

variable {rest : Tokens}

variable {token : Token}

lemma typeLevel_name {parseType : Parse TypeExpr} {parseLength : Parse Expr}
    {synthTupleStruct : List TypeExpr → Option Ident} (h : TypeArg.isTypeName token = true) :
    typeLevel parseType parseLength synthTupleStruct (token :: rest) =
      namedType parseType (token :: rest) := by
  obtain ⟨hsymbol, htype⟩ := TypeArg.isTypeName_kind h
  have hne : ∀ kind, isSymbol kind = false → token.kind ≠ kind :=
    fun _ hkind => TypeArg.kind_ne_of_isSymbol hsymbol hkind
  rw [typeLevel, if_neg (hne .dot rfl), if_neg (hne .question rfl),
    if_neg (not_or.mpr ⟨hne .kwMut rfl, hne .kwConst rfl⟩), if_neg (hne .star rfl),
    if_neg (hne .lBracket rfl), if_neg (hne .lParen rfl), if_neg (hne .kwFn rfl),
    if_neg (hne .kwClosure rfl), if_neg htype]

/-- A type name as an argument is read by `namedType`. -/
lemma typeArg_name (sub : TypeSubparsers) {room : ℕ} (h : TypeArg.isTypeName token = true) :
    typeArg (parseType sub (room + 1)) (token :: rest) =
      (namedType (parseType sub room)) (token :: rest) := by
  have hliteral : token.kind ≠ .integerLiteral :=
    TypeArg.kind_ne_of_isSymbol (TypeArg.isTypeName_kind h).1 rfl
  rw [typeArg, if_neg hliteral, parseType, typeLevel_name h]

lemma namedType_name {parseType : Parse TypeExpr}
    (h : TypeArg.isTypeName token = true) (hless : current rest ≠ .less)
    (hdot : current rest ≠ .dot) :
    namedType parseType (token :: rest) = some (.name (ident token), rest) := by
  simp [namedType, expectSymbol, (TypeArg.isTypeName_kind h).1, accept, hless, memberTypes_eq hdot]

lemma namedType_generic {parseType : Parse TypeExpr} {opening : Token}
    {args : List TypeExpr} (h : TypeArg.isTypeName token = true) (hless : opening.kind = .less)
    (hargs : finishTypeArgsAfterLess parseType tokens = some (args, rest))
    (hdot : current rest ≠ .dot) :
    namedType parseType (token :: opening :: tokens) =
      some (.generic (ident token) args, rest) := by
  simp [namedType, expectSymbol, (TypeArg.isTypeName_kind h).1, hless, hargs,
    memberTypes_eq hdot]

/-- The parser of one argument, as deep as the argument nests. -/
lemma typeArg_reads (sub : TypeSubparsers) {arg : TypeArg} (h : arg.WellFormed) {room : ℕ}
    (hroom : arg.nesting ≤ room) : ReadsArgument following (typeArg (parseType sub room)) arg := by
  induction h generalizing room with
  | integer hkind =>
    intro tokens pieces hspells _
    obtain ⟨rest, rfl, hrest⟩ := hspells.of_ne_greater (by rw [hkind]; decide)
    exact ⟨rest, by rw [typeArg, if_pos hkind]; rfl, hrest⟩
  | named hname =>
    intro tokens pieces hspells hends
    obtain ⟨room, rfl⟩ : ∃ inner, room = inner + 1 := ⟨room - 1, (Nat.sub_add_cancel hroom).symm⟩
    obtain ⟨rest, rfl, hrest⟩ := hspells.of_ne_greater (TypeArg.isTypeName_ne_greater hname)
    have hcurrent := hrest.current_ends hends
    refine ⟨rest, ?_, hrest⟩
    rw [typeArg_name sub hname, namedType_name hname, TypeArg.toTypeExpr]
    all_goals rcases hcurrent with hkind | hkind | hkind <;> rw [hkind] <;> decide
  | @generic base args hname hne hargs ih =>
    intro tokens pieces hspells hends
    rw [TypeArg.nesting] at hroom
    obtain ⟨room, rfl⟩ : ∃ inner, room = inner + 1 := ⟨room - 1, by omega⟩
    obtain ⟨_, rfl, hopen⟩ := hspells.of_ne_greater (TypeArg.isTypeName_ne_greater hname)
    obtain ⟨inner, rfl, hinner⟩ := hopen.of_ne_greater (by decide)
    have hreads : ∀ arg ∈ args, ReadsArgument following (typeArg (parseType sub room)) arg :=
      fun arg harg => ih arg harg ((TypeArg.nesting_le_nestings harg).trans (by omega))
    obtain ⟨rest, hlist, hrest⟩ := finishTypeArgsAfterLess_of_reads hne hargs hreads hinner
    refine ⟨rest, ?_, hrest⟩
    rw [typeArg_name sub hname, namedType_generic hname rfl hlist, TypeArg.toTypeExpr]
    rcases hrest.current_ends hends with hkind | hkind | hkind <;> rw [hkind] <;> decide

end ReadsArgument

/-- **The parse** of a written list within the nesting that is left: it reads the list, whatever
follows it. -/
theorem finishTypeArgsAfterLess_writeArgs (sub : TypeSubparsers) {args : List TypeArg}
    (hne : args ≠ []) (hargs : ∀ arg ∈ args, arg.WellFormed) {room : ℕ}
    (hroom : TypeArg.nestings args ≤ room) (following : Tokens) :
    finishTypeArgsAfterLess (parseType sub room) (munch (TypeArg.writeArgs args) ++ following) =
      some (TypeArg.toTypeExprs args, following) := by
  have hspells : Spells following (munch (TypeArg.writeArgs args) ++ following)
      (TypeArg.writeArgs args ++ []) := by
    rw [List.append_nil]
    exact Spells.munch following _
  have hreads : ∀ arg ∈ args, ReadsArgument following (typeArg (parseType sub room)) arg :=
    fun arg harg => typeArg_reads sub (hargs arg harg)
      ((TypeArg.nesting_le_nestings harg).trans hroom)
  obtain ⟨rest, hlist, hrest⟩ := finishTypeArgsAfterLess_of_reads hne hargs hreads hspells
  rw [hlist, hrest.eq_following]

/-! ## Agreement -/

/-- The lookahead says yes exactly when the parse it predicts reads the list and stands in front
of a `(`. -/
def PredictsParse (sub : TypeSubparsers) (room : ℕ) (args : List TypeArg) (following : Tokens) :
    Prop :=
  lessStartsGenericCall (opener :: (munch (TypeArg.writeArgs args) ++ following)) = some true ↔
    finishTypeArgsAfterLess (parseType sub room)
        (munch (TypeArg.writeArgs args) ++ following) =
      some (TypeArg.toTypeExprs args, following) ∧ current following = .lParen

/-- **Agreement**: the lookahead predicts the parse for all following tokens exactly when no
generic type in the list has a generic type as its last argument. -/
theorem lessStartsGenericCall_agrees_iff (sub : TypeSubparsers) {args : List TypeArg}
    (hne : args ≠ []) (hargs : ∀ arg ∈ args, arg.WellFormed)
    (hlimit : (munch (TypeArg.writeArgs args)).length ≤ maxGenericLookaheadTokens) {room : ℕ}
    (hroom : TypeArg.nestings args ≤ room) :
    (∀ following, PredictsParse sub room args following) ↔ ∀ arg ∈ args, arg.LastPlain := by
  constructor
  · intro hagree
    by_contra hlast
    have hparse := finishTypeArgsAfterLess_writeArgs sub hne hargs hroom [{ kind := .lParen }]
    have hyes := (hagree [{ kind := .lParen }]).mpr ⟨hparse, rfl⟩
    exact (lessStartsGenericCall_writeArgs hne hargs hlimit _).2 hlast rfl hyes
  · intro hlast following
    have hscan := (lessStartsGenericCall_writeArgs hne hargs hlimit following).1 hlast
    have hparse := finishTypeArgsAfterLess_writeArgs sub hne hargs hroom following
    simp only [PredictsParse, hscan, hparse, true_and, Option.some.injEq, decide_eq_true_eq]

/-! ## `f<A<B<C>>>(x)` -/

def nameToken (text : String) : Token := { kind := .identifier, lexeme := text }

/-- The one argument `A<B<C>>`. -/
def nestedArgs : List TypeArg :=
  [.generic (nameToken "A") [.generic (nameToken "B") [.named (nameToken "C")]]]

lemma nestedArgs_wellFormed : ∀ arg ∈ nestedArgs, arg.WellFormed := by
  have hname : ∀ text, TypeArg.isTypeName (nameToken text) = true := fun _ => rfl
  intro arg harg
  rw [List.mem_singleton.mp harg]
  refine .generic (hname _) (List.cons_ne_nil _ _) fun arg harg => ?_
  rw [List.mem_singleton.mp harg]
  refine .generic (hname _) (List.cons_ne_nil _ _) fun arg harg => ?_
  rw [List.mem_singleton.mp harg]
  exact .named (hname _)

/-- A parser of types without array lengths and tuples. -/
def plainSubparsers : TypeSubparsers where
  parseExpr := fun _ _ => none
  synthTupleStruct := fun _ => none

/-- **The defect**: `A<B<C>>` and its closer are the tokens `A < B < C >> >`.  In front of `(` the
parser reads them as the list and the lookahead says no. -/
theorem nestedArgs_not_predicted :
    munch (TypeArg.writeArgs nestedArgs) =
        [nameToken "A", opener, nameToken "B", opener, nameToken "C",
          { kind := .shiftRight, lexeme := ">>" }, closer] ∧
      lessStartsGenericCall (opener :: (munch (TypeArg.writeArgs nestedArgs) ++
        [{ kind := .lParen }])) = some false ∧
      ¬ PredictsParse plainSubparsers 255 nestedArgs [{ kind := .lParen }] := by
  have hscan : lessStartsGenericCall (opener :: (munch (TypeArg.writeArgs nestedArgs) ++
      [{ kind := .lParen }])) = some false := by decide
  have hparse := finishTypeArgsAfterLess_writeArgs plainSubparsers (List.cons_ne_nil _ _)
    nestedArgs_wellFormed (by decide : _ ≤ 255) [{ kind := .lParen }]
  refine ⟨by decide, hscan, fun hpredicts => ?_⟩
  rw [hpredicts.mpr ⟨hparse, rfl⟩] at hscan
  cases hscan

theorem nestedArgs_agrees_iff :
    (∀ following, PredictsParse plainSubparsers 255 nestedArgs following) ↔
      ∀ arg ∈ nestedArgs, arg.LastPlain :=
  lessStartsGenericCall_agrees_iff plainSubparsers (List.cons_ne_nil _ _) nestedArgs_wellFormed
    (by decide) (by decide)

end ModernC.Parser
