import ModernC.Parser.RoundTrip

/-!
# Misread comparisons

A `<` that looks like the start of a generic call ends in an error or in a call with type
arguments.  No later token takes these away again, so the tree that was written does not come
back.
-/

namespace ModernC.Parser

open Syntax (Ident Expr TypeExpr Stmt BinaryOp UnaryOp StructLiteralField)

/-- A call with type arguments somewhere in a tree. -/
inductive HasGeneric : Expr → Prop
  | call {callee typeArgs args} (h : typeArgs ≠ []) : HasGeneric (.call callee typeArgs args)
  | callee {callee typeArgs args} (h : HasGeneric callee) : HasGeneric (.call callee typeArgs args)
  | arg {callee typeArgs args arg} (hmem : arg ∈ args) (h : HasGeneric arg) :
      HasGeneric (.call callee typeArgs args)
  | unary {op value} (h : HasGeneric value) : HasGeneric (.unary op value)
  | deref {value} (h : HasGeneric value) : HasGeneric (.deref value)
  | addressOf {value} (h : HasGeneric value) : HasGeneric (.addressOf value)
  | grouped {inner} (h : HasGeneric inner) : HasGeneric (.grouped inner)
  | field {fields name value} (hmem : StructLiteralField.mk name value ∈ fields)
      (h : HasGeneric value) : HasGeneric (.structLiteral fields)
  | left {op left right} (h : HasGeneric left) : HasGeneric (.binary op left right)
  | right {op left right} (h : HasGeneric right) : HasGeneric (.binary op left right)
  | cast {value ty} (h : HasGeneric value) : HasGeneric (.cast value ty)
  | indexBase {base index} (h : HasGeneric base) : HasGeneric (.index base index)
  | index {base index} (h : HasGeneric index) : HasGeneric (.index base index)
  | sliceBase {base start stop} (h : HasGeneric base) : HasGeneric (.slice base start stop)
  | sliceStart {base start stop} (h : HasGeneric start) : HasGeneric (.slice base start stop)
  | member {base name} (h : HasGeneric base) : HasGeneric (.member base name)
  | tryExpr {operand mapped} (h : HasGeneric operand) : HasGeneric (.tryExpr operand mapped)

lemma not_hasGeneric_of_written {value : Expr} (h : Written value) : ¬HasGeneric value := by
  induction h with
  | ident _ | intLiteral _ => exact nofun
  | grouped _ ih | unary _ _ _ ih | deref _ _ ih | addressOf _ _ ih | member _ _ _ ih => rintro ⟨⟩; exact ih ‹_›
  | binary _ _ _ _ _ ihleft ihright | index _ _ _ ihleft ihright =>
    rintro (_ | _)
    · exact ihleft ‹_›
    · exact ihright ‹_›
  | call _ _ _ ihcallee ihargs =>
    rintro (h | h | ⟨hmem, h⟩)
    · exact h rfl
    · exact ihcallee h
    · exact ihargs _ hmem h

/-- A parse that fails or finds a generic call. -/
def Misread (parsed : Option (Expr × Tokens)) : Prop :=
  ∀ ⦃value rest⦄, parsed = some (value, rest) → HasGeneric value

lemma misread_none : Misread none := nofun

/-- Going on from a misread tree keeps it misread. -/
lemma Misread.bind {parsed : Option (Expr × Tokens)} {next : Expr × Tokens → Option (Expr × Tokens)}
    (h : Misread parsed) (hnext : ∀ value rest, HasGeneric value → Misread (next (value, rest))) :
    Misread (parsed.bind next) := by
  rcases parsed with _ | ⟨value, rest⟩
  · exact misread_none
  · exact hnext value rest (h rfl)

/-! ## Loops go on -/

section Loops

variable {parseType : Parse TypeExpr} {parseBlock : Parse (List Stmt)} {expr : ℕ → Parse Expr}

variable {tokens rest : Tokens} {base value left : Expr} {wrappers minBp : ℕ}

lemma finishCall_misread {callee : Expr} {typeArgs : List TypeExpr}
    (h : HasGeneric callee ∨ typeArgs ≠ []) :
    Misread (finishCall parseType expr callee typeArgs tokens) := by
  intro value rest hcall
  have hany : ∀ typeArgs', HasGeneric callee ∨ typeArgs' ≠ [] → ∀ args,
      HasGeneric (.call callee typeArgs' args) :=
    fun _ h _ => h.elim .callee .call
  rw [finishCall] at hcall
  split at hcall
  · simp only [finishReflectionSpecCall, Option.bind_eq_bind] at hcall
    obtain ⟨⟨typeArg, rest₁⟩, -, hcall⟩ := Option.bind_eq_some_iff.mp hcall
    split at hcall
    all_goals
      obtain ⟨⟨args, rest₂⟩, -, hcall⟩ := Option.bind_eq_some_iff.mp hcall
      obtain ⟨rest₃, -, hcall⟩ := Option.bind_eq_some_iff.mp hcall
      obtain ⟨rfl, -⟩ := Prod.mk.inj (Option.some.inj hcall)
      exact .call (List.cons_ne_nil _ _)
  · simp only [Option.bind_eq_bind, Option.bind_eq_some_iff, Option.some.injEq, Prod.mk.injEq,
      Prod.exists] at hcall
    obtain ⟨args, rest₁, -, rest₂, -, rfl, -⟩ := hcall
    exact hany _ h args

lemma finishIndex_misread (h : HasGeneric base ∨ Misread (expr 0 tokens)) :
    Misread (finishIndex expr base tokens) := by
  intro value rest hindex
  simp only [finishIndex, Option.bind_eq_bind, Option.bind_eq_some_iff, Prod.exists] at hindex
  obtain ⟨first, rest₁, hfirst, hindex⟩ := hindex
  split at hindex
  · simp only [Option.bind_eq_some_iff, Option.some.injEq, Prod.mk.injEq, Prod.exists] at hindex
    obtain ⟨stop, rest₂, -, rest₃, -, rfl, -⟩ := hindex
    exact h.elim .sliceBase fun h => .sliceStart (h hfirst)
  · simp only [Option.bind_eq_some_iff, Option.some.injEq, Prod.mk.injEq] at hindex
    obtain ⟨rest₂, -, rfl, -⟩ := hindex
    exact h.elim .indexBase fun h => .index (h hfirst)

lemma finishMember_misread (h : HasGeneric base) :
    Misread (finishMember base tokens) := by
  intro value rest hmember
  rcases tokens with _ | ⟨token, tokens⟩
  · exact absurd hmember nofun
  · rw [finishMember] at hmember
    split at hmember
    · obtain ⟨rfl, -⟩ := Prod.mk.inj (Option.some.inj hmember)
      exact .deref h
    · split at hmember
      · obtain ⟨rfl, -⟩ := Prod.mk.inj (Option.some.inj hmember)
        exact .member h
      · obtain ⟨⟨name, rest'⟩, -, heq⟩ := Option.map_eq_some_iff.mp hmember
        obtain ⟨rfl, -⟩ := Prod.mk.inj heq
        exact .member h

lemma finishTry_misread {inner : Expr} (h : HasGeneric inner) :
    Misread (finishTry parseBlock expr inner tokens) := by
  intro value rest htry
  rw [finishTry] at htry
  split at htry
  · obtain ⟨⟨mapped, rest'⟩, -, heq⟩ := Option.map_eq_some_iff.mp htry
    obtain ⟨rfl, -⟩ := Prod.mk.inj heq
    exact .tryExpr h
  · obtain ⟨rfl, -⟩ := Prod.mk.inj (Option.some.inj htry)
    exact .tryExpr h

/-- The first item stays the first of the list. -/
lemma mem_commaSeparated_of_first {α : Type} {P : α → Prop} {item : Parse α} {close : Kind}
    {fuel : ℕ} {items : List α} (h : commaSeparated item close fuel tokens = some (items, rest))
    (hfirst : ∀ ⦃first rest⦄, item tokens = some (first, rest) → P first) :
    ∃ item ∈ items, P item := by
  rcases fuel with _ | fuel
  · exact absurd h nofun
  · simp only [commaSeparated, Option.bind_eq_bind, Option.bind_eq_some_iff, Prod.exists] at h
    obtain ⟨first, rest₁, hread, h⟩ := h
    refine ⟨first, ?_, hfirst hread⟩
    split at h
    · obtain ⟨rfl, -⟩ := Prod.mk.inj (Option.some.inj h)
      exact List.mem_cons_self
    · split at h
      · obtain ⟨rfl, -⟩ := Prod.mk.inj (Option.some.inj h)
        exact List.mem_cons_self
      · simp only [Option.bind_eq_some_iff, Option.some.injEq, Prod.mk.injEq, Prod.exists] at h
        obtain ⟨others, rest₂, -, rfl, -⟩ := h
        exact List.mem_cons_self

lemma commaSeparated_ne_nil {α : Type} {item : Parse α} {close : Kind} {fuel : ℕ} {items : List α}
    (h : commaSeparated item close fuel tokens = some (items, rest)) : items ≠ [] := by
  obtain ⟨first, hmem, -⟩ := mem_commaSeparated_of_first h fun _ _ _ => trivial
  exact List.ne_nil_of_mem hmem

/-- The scan takes no empty list of type arguments for a call. -/
lemma current_tail_ne_greater (h : lessStartsGenericCall tokens = some true) :
    current tokens.tail ≠ .greater := by
  intro hgreater
  rw [lessStartsGenericCall] at h
  split at h
  · rcases htail : tokens.tail with _ | ⟨token, rest⟩
    · rw [htail] at hgreater
      exact absurd hgreater (by decide)
    · rw [htail] at hgreater h
      have hscan : scanTypeArgs 0 false maxGenericLookaheadTokens (token :: rest) = some false := by
        rw [current_cons] at hgreater
        simp [maxGenericLookaheadTokens, scanTypeArgs, hgreater]
      exact absurd (hscan.symm.trans h) (by simp)
  · exact absurd h (by simp)

lemma finishTypeArgs_ne_nil {typeArgs : List TypeExpr} (hne : current tokens ≠ .greater)
    (h : finishTypeArgsAfterLess parseType tokens = some (typeArgs, rest)) : typeArgs ≠ [] := by
  simp only [finishTypeArgsAfterLess, if_neg hne, Option.bind_eq_bind, Option.bind_eq_some_iff,
    Option.some.injEq, Prod.mk.injEq, Prod.exists] at h
  obtain ⟨args, rest₁, hargs, rest₂, -, rfl, -⟩ := h
  exact commaSeparated_ne_nil hargs

/-- A postfix of a tree that was misread, or one that a `<` starts. -/
lemma postfixStep_misread {next : Expr}
    (hstep : postfixStep parseType parseBlock expr value tokens = some (some (next, rest)))
    (h : HasGeneric value ∨ lessStartsGenericCall tokens ≠ some false) : HasGeneric next := by
  rw [postfixStep] at hstep
  obtain ⟨generic, hgeneric, hstep⟩ := Option.bind_eq_some_iff.mp hstep
  split at hstep
  · next htrue =>
    subst htrue
    simp only [Option.bind_eq_bind, Option.bind_eq_some_iff, Prod.exists] at hstep
    obtain ⟨typeArgs, rest₁, htypeArgs, rest₂, -, hstep⟩ := hstep
    obtain ⟨parsed, hparsed, heq⟩ := Option.map_eq_some_iff.mp hstep
    obtain rfl := Option.some.inj heq
    exact finishCall_misread
      (.inr (finishTypeArgs_ne_nil (current_tail_ne_greater hgeneric) htypeArgs)) hparsed
  · next hfalse =>
    obtain rfl := Bool.eq_false_iff.mpr hfalse
    have hvalue : HasGeneric value := h.resolve_right (not_not_intro hgeneric)
    split at hstep
    · obtain ⟨parsed, hparsed, heq⟩ := Option.map_eq_some_iff.mp hstep
      obtain rfl := Option.some.inj heq
      exact finishCall_misread (.inl hvalue) hparsed
    · split at hstep
      · obtain ⟨parsed, hparsed, heq⟩ := Option.map_eq_some_iff.mp hstep
        obtain rfl := Option.some.inj heq
        exact finishIndex_misread (.inl hvalue) hparsed
      · split at hstep
        · obtain ⟨parsed, hparsed, heq⟩ := Option.map_eq_some_iff.mp hstep
          obtain rfl := Option.some.inj heq
          exact finishMember_misread hvalue hparsed
        · split at hstep
          · obtain ⟨parsed, hparsed, heq⟩ := Option.map_eq_some_iff.mp hstep
            obtain rfl := Option.some.inj heq
            exact finishTry_misread hvalue hparsed
          · exact absurd hstep (by simp)

lemma notGeneric_of_postfixStep
    (h : postfixStep parseType parseBlock expr value tokens = some none) :
    lessStartsGenericCall tokens = some false := by
  rw [postfixStep] at h
  obtain ⟨generic, hgeneric, h⟩ := Option.bind_eq_some_iff.mp h
  split at h
  · simp only [Option.bind_eq_bind, Option.bind_eq_some_iff, Prod.exists] at h
    obtain ⟨typeArgs, rest₁, -, rest₂, -, h⟩ := h
    obtain ⟨parsed, -, heq⟩ := Option.map_eq_some_iff.mp h
    exact absurd heq (by simp)
  · next hfalse =>
    obtain rfl := Bool.eq_false_iff.mpr hfalse
    exact hgeneric

lemma parsePostfix_misread (h : HasGeneric value ∨ lessStartsGenericCall tokens ≠ some false) :
    Misread (parsePostfix parseType parseBlock expr wrappers value tokens) := by
  induction wrappers generalizing value tokens with
  | zero =>
    intro last rest hlast
    rw [parsePostfix] at hlast
    obtain ⟨step, hstep, hlast⟩ := Option.bind_eq_some_iff.mp hlast
    rcases step with _ | ⟨next, rest'⟩
    · obtain ⟨rfl, -⟩ := Prod.mk.inj (Option.some.inj hlast)
      exact h.resolve_right (not_not_intro (notGeneric_of_postfixStep hstep))
    · exact absurd hlast (by simp)
  | succ wrappers ih =>
    intro last rest hlast
    rw [parsePostfix] at hlast
    obtain ⟨step, hstep, hlast⟩ := Option.bind_eq_some_iff.mp hlast
    rcases step with _ | ⟨next, rest'⟩
    · obtain ⟨rfl, -⟩ := Prod.mk.inj (Option.some.inj hlast)
      exact h.resolve_right (not_not_intro (notGeneric_of_postfixStep hstep))
    · exact ih (.inl (postfixStep_misread hstep h)) hlast

/-- A postfix that is there and brings a generic call in. -/
lemma parsePostfix_misread_of_step
    (h : ∀ ⦃step⦄, postfixStep parseType parseBlock expr value tokens = some step →
      ∃ next rest, step = some (next, rest) ∧ HasGeneric next) :
    Misread (parsePostfix parseType parseBlock expr wrappers value tokens) := by
  intro last rest hlast
  rcases wrappers with _ | wrappers
  all_goals
    rw [parsePostfix] at hlast
    obtain ⟨step, hstep, hlast⟩ := Option.bind_eq_some_iff.mp hlast
    obtain ⟨next, rest', rfl, hnext⟩ := h hstep
  · exact absurd hlast (by simp)
  · exact parsePostfix_misread (.inl hnext) hlast

lemma infixStep_misread {next : Expr}
    (hstep : infixStep parseType expr minBp left tokens = some (some (next, rest)))
    (h : HasGeneric left) : HasGeneric next := by
  rw [infixStep] at hstep
  split at hstep
  · obtain ⟨⟨ty, rest'⟩, -, heq⟩ := Option.bind_eq_some_iff.mp hstep
    obtain ⟨rfl, -⟩ := Prod.mk.inj (Option.some.inj (Option.some.inj heq))
    exact .cast h
  · split at hstep
    · exact absurd hstep (by simp)
    · split at hstep
      · exact absurd hstep (by simp)
      · obtain ⟨⟨right, rest'⟩, -, heq⟩ := Option.bind_eq_some_iff.mp hstep
        obtain ⟨rfl, -⟩ := Prod.mk.inj (Option.some.inj (Option.some.inj heq))
        exact .left h

/-- No operator takes a generic call away. -/
lemma afterPostfix_misread (h : HasGeneric left) :
    Misread (afterPostfix parseType parseBlock expr minBp wrappers (left, tokens)) := by
  induction wrappers generalizing left tokens with
  | zero =>
    intro last rest hlast
    obtain ⟨step, hstep, hlast⟩ := Option.bind_eq_some_iff.mp hlast
    rcases step with _ | ⟨next, rest'⟩
    · obtain ⟨rfl, -⟩ := Prod.mk.inj (Option.some.inj hlast)
      exact h
    · exact absurd hlast (by simp)
  | succ wrappers ih =>
    intro last rest hlast
    obtain ⟨step, hstep, hlast⟩ := Option.bind_eq_some_iff.mp hlast
    rcases step with _ | ⟨next, rest'⟩
    · obtain ⟨rfl, -⟩ := Prod.mk.inj (Option.some.inj hlast)
      exact h
    · simp only [infixLoop_eq] at hlast
      exact (parsePostfix_misread (.inl (infixStep_misread hstep h))).bind (fun _ _ h => ih h) hlast

/-- The right operand of an operator. -/
lemma afterPostfix_misread_right {op : BinaryOp} (hmin : minBp ≤ bindingPower op)
    (h : Misread (expr (bindingPower op + 1) tokens)) :
    Misread (afterPostfix parseType parseBlock expr minBp wrappers
      (left, { kind := opKind op } :: tokens)) := by
  intro last rest hlast
  obtain ⟨step, hstep, hlast⟩ := Option.bind_eq_some_iff.mp hlast
  have hcast : ¬(opKind op = .identifier ∧
      currentLexeme ({ kind := opKind op } :: tokens) = "as") := by
    cases op <;> simp [opKind]
  rw [infixStep, current_cons, if_neg hcast] at hstep
  simp only [infixOf_opKind] at hstep
  rw [if_neg (by omega), List.tail_cons] at hstep
  obtain ⟨⟨right, rest'⟩, hright, heq⟩ := Option.bind_eq_some_iff.mp hstep
  obtain rfl := Option.some.inj heq
  have hbinary : HasGeneric (.binary op left right) := .right (h hright)
  rcases wrappers with _ | wrappers
  · exact absurd hlast (by simp)
  · simp only [infixLoop_eq] at hlast
    exact (parsePostfix_misread (.inl hbinary)).bind (fun _ _ h => afterPostfix_misread h) hlast

lemma scalarTypeNameIdent_of_hasGeneric (h : HasGeneric value) :
    scalarTypeNameIdent value = none := by
  cases h <;> rfl

lemma mem_tupleFields (start : ℕ) (first : Expr) (others : List (ℕ × Expr)) :
    ∃ name, StructLiteralField.mk name first ∈ tupleFields ((start, first) :: others) := by
  rw [tupleFields, List.mapIdx_cons]
  exact ⟨_, List.mem_cons_self⟩

/-- A group, a tuple or a cast keeps the generic call of its first expression. -/
lemma parseParenPrimary_misread (hne : current tokens ≠ .rParen)
    (h : Misread (expr 0 tokens)) : Misread (parseParenPrimary expr tokens) := by
  intro value rest hparen
  have haccept : accept .rParen tokens = none := if_neg hne
  simp only [parseParenPrimary, haccept, tupleElement, Option.bind_eq_bind] at hparen
  obtain ⟨⟨⟨start, first⟩, rest₁⟩, hfirst, hparen⟩ := Option.bind_eq_some_iff.mp hparen
  obtain ⟨⟨first', rest₁'⟩, hread, heq⟩ := Option.bind_eq_some_iff.mp hfirst
  obtain ⟨hpair, rfl⟩ := Prod.mk.inj (Option.some.inj heq)
  obtain ⟨-, rfl⟩ := Prod.mk.inj hpair
  have hgeneric : HasGeneric first' := h hread
  split at hparen
  · obtain ⟨⟨others, rest₂⟩, -, hparen⟩ := Option.bind_eq_some_iff.mp hparen
    obtain ⟨rest₃, -, hparen⟩ := Option.bind_eq_some_iff.mp hparen
    obtain ⟨rfl, -⟩ := Prod.mk.inj (Option.some.inj hparen)
    obtain ⟨name, hmem⟩ := mem_tupleFields start first' others
    exact .field hmem hgeneric
  · obtain ⟨rest₂, -, hparen⟩ := Option.bind_eq_some_iff.mp hparen
    split at hparen
    · next hscalar =>
      exact absurd (hscalar.symm.trans (scalarTypeNameIdent_of_hasGeneric hgeneric)) (by simp)
    · obtain ⟨rfl, -⟩ := Prod.mk.inj (Option.some.inj hparen)
      exact .grouped hgeneric

/-- The arguments of a call. -/
lemma parsePostfix_misread_of_args {callee : Expr}
    (hcallee : isReflectionBuiltinCallee callee = false)
    (h : ∀ ⦃items rest⦄, itemsUntil (expr 0) .rParen tokens = some (items, rest) →
      ∃ item ∈ items, HasGeneric item) :
    Misread (parsePostfix parseType parseBlock expr wrappers callee
      ({ kind := .lParen } :: tokens)) := by
  refine parsePostfix_misread_of_step fun step hstep => ?_
  rw [postfixStep, lessStartsGenericCall_of_ne (by simp)] at hstep
  obtain ⟨parsed, hparsed, rfl⟩ := Option.map_eq_some_iff.mp hstep
  simp only [List.tail_cons, finishCall, hcallee, Bool.and_false, Bool.false_and,
    Bool.false_eq_true, if_false, Option.bind_eq_bind, Option.bind_eq_some_iff, Option.some.injEq,
    Prod.exists] at hparsed
  obtain ⟨items, rest₁, hitems, rest₂, -, rfl⟩ := hparsed
  obtain ⟨item, hmem, hitem⟩ := h hitems
  exact ⟨_, _, rfl, .arg hmem hitem⟩

lemma parsePostfix_misread_of_index (h : Misread (expr 0 tokens)) :
    Misread (parsePostfix parseType parseBlock expr wrappers base
      ({ kind := .lBracket } :: tokens)) := by
  refine parsePostfix_misread_of_step fun step hstep => ?_
  rw [postfixStep, lessStartsGenericCall_of_ne (by simp)] at hstep
  obtain ⟨⟨next, rest⟩, hparsed, rfl⟩ := Option.map_eq_some_iff.mp hstep
  exact ⟨next, rest, rfl, finishIndex_misread (.inr h) hparsed⟩

end Loops

/-! ## Misread trees -/

section Reading

variable (sub : Subparsers)

/-- The parser does not come through the tokens of a tree, or finds a generic call on the way or
right behind them. -/
structure Breaks (value : Expr) : Prop where
  postfixes : ∀ room rest, nesting value ≤ room + 1 → width value < maxParseDepth →
    prefixOperandBp < tightness value →
    ¬(Clear (write value) rest ∧ lessStartsGenericCall rest = some false) →
    Misread (prefixed (sub.parseType room) (sub.parseBlock room) (parseExpr sub room)
      (write value ++ rest))
  operators : ∀ room rest minBp, nesting value ≤ room + 1 → width value < maxParseDepth →
    minBp ≤ tightness value →
    ¬(Clear (write value) rest ∧ lessStartsGenericCall rest = some false) →
    Misread (parseExpr sub (room + 1) minBp (write value ++ rest))

variable {sub}

variable {value : Expr} {room : ℕ} {rest : Tokens} {args : List Expr}

/-- A tree read by a level of its own. -/
lemma Breaks.nested (h : Breaks sub value) (hpos : 1 ≤ nesting value)
    {minBp : ℕ} (hnest : nesting value ≤ room)
    (hwidth : width value < maxParseDepth) (hmin : minBp ≤ tightness value)
    (hbroken : ¬(Clear (write value) rest ∧ lessStartsGenericCall rest = some false)) :
    Misread (parseExpr sub room minBp (write value ++ rest)) := by
  obtain ⟨room, rfl⟩ : ∃ room', room = room' + 1 := ⟨room - 1, by omega⟩
  exact h.operators room rest minBp hnest hwidth hmin hbroken

lemma Breaks.closed (h : Breaks sub value) (hwritten : Written value)
    (hnest : nesting value ≤ room) (hwidth : width value < maxParseDepth)
    (hbroken : ¬Clear (write value) rest) : Misread (parseExpr sub room 0 (write value ++ rest)) :=
  h.nested (one_le_nesting hwritten) hnest hwidth (Nat.zero_le _) fun hclear => hbroken hclear.1

lemma misread_parseExpr_of_prefixed {minBp : ℕ} {tokens : Tokens}
    (h : Misread (prefixed (sub.parseType room) (sub.parseBlock room) (parseExpr sub room) tokens)) :
    Misread (parseExpr sub (room + 1) minBp tokens) := by
  rw [parseExpr, level_eq]
  exact h.bind fun value rest hvalue => afterPostfix_misread hvalue

/-- A tight tree breaks when what is inside it does: a `<` behind it is a postfix of it. -/
lemma breaks_of_postfixes (hreads : Reads sub value) (ht : prefixOperandBp < tightness value)
    (h : ∀ room rest, nesting value ≤ room + 1 → width value < maxParseDepth →
      ¬Clear (write value) rest →
      Misread (prefixed (sub.parseType room) (sub.parseBlock room) (parseExpr sub room)
        (write value ++ rest))) : Breaks sub value := by
  have hpost : ∀ room rest, nesting value ≤ room + 1 → width value < maxParseDepth →
      ¬(Clear (write value) rest ∧ lessStartsGenericCall rest = some false) →
      Misread (prefixed (sub.parseType room) (sub.parseBlock room) (parseExpr sub room)
        (write value ++ rest)) := by
    intro room rest hnest hwidth hbroken
    by_cases hclear : Clear (write value) rest
    · rw [hreads.postfixes room rest hnest hwidth hclear ht]
      exact parsePostfix_misread (.inr fun hgeneric => hbroken ⟨hclear, hgeneric⟩)
    · exact h room rest hnest hwidth hclear
  exact ⟨fun room rest hnest hwidth _ hbroken => hpost room rest hnest hwidth hbroken,
    fun room rest minBp hnest hwidth _ hbroken =>
      misread_parseExpr_of_prefixed (hpost room rest hnest hwidth hbroken)⟩

/-- An operand of a prefix. -/
lemma breaks_of_operand (wrap : Expr → Expr) (kind : Kind) {operandValue : Expr}
    (hkind : ∀ room rest, parsePrefix (sub.parseBlock room) (parseExpr sub room)
        ({ kind } :: rest) = operand (parseExpr sub room) wrap rest)
    (hwrap : ∀ {inner}, HasGeneric inner → HasGeneric (wrap inner))
    (hwrite : write value = { kind } :: write operandValue) (hless : kind ≠ .less)
    (hnesting : nesting value = nesting operandValue + 1) (hwidth : width value = width operandValue)
    (htight : tightness value = prefixOperandBp) (hwritten : Written operandValue)
    (ht : prefixOperandBp ≤ tightness operandValue) (ih : Breaks sub operandValue) :
    Breaks sub value := by
  refine ⟨fun _ _ _ _ h => absurd h (by omega), ?_⟩
  intro room rest minBp hnest hwid hmin hbroken
  have hinner : ¬(Clear (write operandValue) rest ∧ lessStartsGenericCall rest = some false) := by
    rintro ⟨hclear, hgeneric⟩
    refine hbroken ⟨?_, hgeneric⟩
    rw [hwrite]
    exact ⟨lessStartsGenericCall_of_ne hless, hclear⟩
  have hread : Misread (parseExpr sub room prefixOperandBp (write operandValue ++ rest)) :=
    ih.nested (one_le_nesting hwritten) (by omega) (by omega) ht hinner
  refine misread_parseExpr_of_prefixed ?_
  rw [hwrite, List.cons_append, prefixed, hkind, operand]
  refine Misread.bind ?_ fun value rest hvalue => parsePostfix_misread (.inl hvalue)
  intro last rest' hlast
  obtain ⟨⟨inner, rest''⟩, hparsed, heq⟩ := Option.map_eq_some_iff.mp hlast
  obtain ⟨rfl, -⟩ := Prod.mk.inj heq
  exact hwrap (hread hparsed)

/-! ### Arguments -/

lemma commaSeparated_misread {first : Expr} {fuel : ℕ}
    (hreads : ∀ arg ∈ first :: args, Written arg ∧ Breaks sub arg ∧ nesting arg ≤ room ∧
      width arg < maxParseDepth)
    (hbroken : ¬Clear (write first ++ writeMore args) ({ kind := .rParen } :: rest)) :
    ∀ ⦃items rest'⦄, commaSeparated (parseExpr sub room 0) .rParen fuel
        (write first ++ (writeMore args ++ { kind := .rParen } :: rest)) = some (items, rest') →
      ∃ item ∈ items, HasGeneric item := by
  induction args generalizing first fuel with
  | nil =>
    intro items rest' hitems
    rcases fuel with _ | fuel
    · exact absurd hitems (Option.some_ne_none _).symm
    obtain ⟨hwritten, hfirst, hnest, hwidth⟩ := hreads first List.mem_cons_self
    have hclear : ¬Clear (write first) (writeMore [] ++ { kind := .rParen } :: rest) := by
      simpa [writeMore] using hbroken
    have hread := hfirst.closed hwritten hnest hwidth hclear
    exact mem_commaSeparated_of_first hitems fun item rest h => hread h
  | cons arg args ih =>
    intro items rest' hitems
    rcases fuel with _ | fuel
    · exact absurd hitems (Option.some_ne_none _).symm
    obtain ⟨hwritten, hfirst, hnest, hwidth⟩ := hreads first List.mem_cons_self
    by_cases hclear : Clear (write first) (writeMore (arg :: args) ++ { kind := .rParen } :: rest)
    · have hreadsFirst : Reads sub first := reads_of_written hwritten
      have hread := hreadsFirst.closed hwritten hnest hwidth hclear
        (closes_writeMore (arg :: args) rest)
      have hmore : ¬Clear (write arg ++ writeMore args) ({ kind := .rParen } :: rest) := by
        intro h
        refine hbroken (clear_append.mpr ⟨hclear, ?_⟩)
        exact ⟨lessStartsGenericCall_of_ne (by simp), h⟩
      have hwrittenArg := (hreads arg (by simp)).1
      rw [commaSeparated, hread] at hitems
      simp only [writeMore, List.cons_append, List.append_assoc, accept_cons, if_true,
        Option.bind_eq_bind, Option.bind_some, if_neg (current_write_ne_rParen hwrittenArg _)]
        at hitems
      obtain ⟨⟨others, rest''⟩, hothers, heq⟩ := Option.bind_eq_some_iff.mp hitems
      obtain ⟨rfl, -⟩ := Prod.mk.inj (Option.some.inj heq)
      obtain ⟨item, hmem, hitem⟩ := ih
        (fun other hother => hreads other (List.mem_cons_of_mem first hother)) hmore hothers
      exact ⟨item, List.mem_cons_of_mem first hmem, hitem⟩
    · have hread := hfirst.closed hwritten hnest hwidth hclear
      exact mem_commaSeparated_of_first hitems fun item rest h => hread h

lemma itemsUntil_misread (hreads : ∀ arg ∈ args, Written arg ∧ Breaks sub arg ∧ nesting arg ≤ room ∧
      width arg < maxParseDepth) (hbroken : ¬Clear (writeArgs args) ({ kind := .rParen } :: rest)) :
    ∀ ⦃items rest'⦄, itemsUntil (parseExpr sub room 0) .rParen
        (writeArgs args ++ { kind := .rParen } :: rest) = some (items, rest') →
      ∃ item ∈ items, HasGeneric item := by
  intro items rest' hitems
  rcases args with _ | ⟨arg, args⟩
  · exact absurd trivial hbroken
  · have hwritten := (hreads arg List.mem_cons_self).1
    rw [writeArgs, List.append_assoc, itemsUntil, if_neg (current_write_ne_rParen hwritten _)]
      at hitems
    exact commaSeparated_misread hreads hbroken hitems

/-! ### Every written tree -/

lemma breaks_grouped {inner : Expr} (hwritten : Written inner) (ih : Breaks sub inner) :
    Breaks sub (.grouped inner) := by
  refine breaks_of_postfixes (reads_of_written (.grouped hwritten)) (Nat.lt_succ_self _) ?_
  intro room rest hnest hwidth hbroken
  have hinner : ¬Clear (write inner) ({ kind := .rParen } :: rest) := by
    intro h
    refine hbroken ⟨lessStartsGenericCall_of_ne (by simp), clear_append.mpr ⟨h, ?_⟩⟩
    exact ⟨lessStartsGenericCall_of_ne (by simp), trivial⟩
  have hread := ih.closed hwritten (by simpa [nesting] using hnest) hwidth hinner
  have hparen := parseParenPrimary_misread
    (current_write_ne_rParen hwritten ({ kind := .rParen } :: rest)) hread
  have hprefix : parsePrefix (sub.parseBlock room) (parseExpr sub room)
      (write (.grouped inner) ++ rest) =
        parseParenPrimary (parseExpr sub room) (write inner ++ { kind := .rParen } :: rest) := by
    simp [parsePrefix, parsePrefixName, parsePrimary, write, isSymbol, literal]
  rw [prefixed, hprefix]
  exact hparen.bind fun value rest hvalue => parsePostfix_misread (.inl hvalue)

lemma breaks_binary {op : BinaryOp} {left right : Expr} (hleft : Written left)
    (hright : Written right) (htleft : bindingPower op ≤ tightness left)
    (htright : bindingPower op < tightness right) (ihleft : Breaks sub left)
    (ihright : Breaks sub right) : Breaks sub (.binary op left right) := by
  have hpower := bindingPower_lt op
  refine ⟨fun _ _ _ _ h => absurd h (by simp only [tightness]; omega), ?_⟩
  intro room rest minBp hnest hwidth hmin hbroken
  simp only [nesting, width, tightness] at hnest hwidth hmin
  rw [write] at hbroken ⊢
  rw [List.append_assoc, List.cons_append]
  by_cases hclear : Clear (write left) ({ kind := opKind op } :: (write right ++ rest)) ∧
      lessStartsGenericCall ({ kind := opKind op } :: (write right ++ rest)) = some false
  · have hboundOp : Bounded (tightness left) ({ kind := opKind op } :: (write right ++ rest)) := by
      intro op' hop'
      rw [current_cons, infixOf_opKind] at hop'
      obtain rfl := Option.some.inj hop'
      exact htleft
    have hinner : ¬(Clear (write right) rest ∧ lessStartsGenericCall rest = some false) := by
      rintro ⟨hclearRight, hgeneric⟩
      exact hbroken ⟨clear_append.mpr ⟨hclear.1, hclear.2, hclearRight⟩, hgeneric⟩
    rw [(reads_of_written hleft).operators room _ minBp (by omega) (by omega) hclear.1
      (stops_opKind hclear.2) (by omega) hboundOp]
    exact afterPostfix_misread_right hmin
      (ihright.nested (one_le_nesting hright) (by omega) (by omega) htright hinner)
  · exact ihleft.operators room _ minBp (by omega) (by omega) (by omega) hclear

/-- A postfix breaks its tree when what it encloses does, or the tree in front of it. -/
lemma breaks_of_suffix {base : Expr} {opener : Token} {suffix : Tokens}
    (hwrite : write value = write base ++ opener :: suffix) (hopener : opener.kind ≠ .less)
    (hreads : Reads sub value) (hvalue : prefixOperandBp < tightness value)
    (hnesting : nesting base ≤ nesting value) (hwidths : width base ≤ width value)
    (hbase : Written base) (ht : prefixOperandBp < tightness base) (ihbase : Breaks sub base)
    (h : ∀ room rest wrappers, nesting value ≤ room + 1 → width value < maxParseDepth →
      ¬Clear suffix rest →
      Misread (parsePostfix (sub.parseType room) (sub.parseBlock room) (parseExpr sub room)
        wrappers base (opener :: (suffix ++ rest)))) : Breaks sub value := by
  refine breaks_of_postfixes hreads hvalue fun room rest hnest hwidth hbroken => ?_
  rw [hwrite, List.append_assoc, List.cons_append]
  by_cases hclear : Clear (write base) (opener :: (suffix ++ rest))
  · have hreadsBase : Reads sub base := reads_of_written hbase
    rw [hreadsBase.postfixes room _ (by omega) (by omega) hclear ht]
    refine h room rest _ hnest hwidth fun hsuffix => hbroken ?_
    rw [hwrite]
    exact clear_append.mpr ⟨hclear, lessStartsGenericCall_of_ne hopener, hsuffix⟩
  · exact ihbase.postfixes room _ (by omega) (by omega) ht fun h => hclear h.1

lemma breaks_call {callee : Expr} (hcallee : Written callee)
    (ht : prefixOperandBp < tightness callee) (hargs : ∀ arg ∈ args, Written arg)
    (ihcallee : Breaks sub callee) (ihargs : ∀ arg ∈ args, Breaks sub arg) :
    Breaks sub (.call callee [] args) := by
  refine breaks_of_suffix (write_call callee args) (by simp)
    (reads_of_written (.call hcallee ht hargs)) (Nat.lt_succ_self _) (le_max_left _ _)
    (by simp only [width]; omega) hcallee ht ihcallee
    fun room rest wrappers hnest hwidth hbroken => ?_
  simp only [nesting, width] at hnest hwidth
  rw [List.append_assoc]
  refine parsePostfix_misread_of_args (isReflectionBuiltinCallee_of_written hcallee) ?_
  refine itemsUntil_misread (fun arg harg => ⟨hargs arg harg, ihargs arg harg, ?_, ?_⟩)
    fun h => hbroken (clear_append.mpr ⟨h, lessStartsGenericCall_of_ne (by simp), trivial⟩)
  · have hle := nesting_le_of_mem harg
    omega
  · have hle := width_le_of_mem harg
    omega

lemma breaks_index {base index : Expr} (hbase : Written base)
    (ht : prefixOperandBp < tightness base) (hindex : Written index) (ihbase : Breaks sub base)
    (ihindex : Breaks sub index) : Breaks sub (.index base index) := by
  refine breaks_of_suffix (write_index base index) (by simp)
    (reads_of_written (.index hbase ht hindex)) (Nat.lt_succ_self _) (le_max_left _ _)
    (by simp only [width]; omega) hbase ht ihbase fun room rest wrappers hnest hwidth hbroken => ?_
  simp only [nesting, width] at hnest hwidth
  rw [List.append_assoc]
  exact parsePostfix_misread_of_index (ihindex.closed hindex (by omega) (by omega) fun h =>
    hbroken (clear_append.mpr ⟨h, lessStartsGenericCall_of_ne (by simp), trivial⟩))

lemma breaks_member {base : Expr} (name : Ident) (hbase : Written base)
    (ht : prefixOperandBp < tightness base) (ihbase : Breaks sub base) :
    Breaks sub (.member base name) := by
  refine breaks_of_suffix (by rw [write]) (by simp) (reads_of_written (.member name hbase ht))
    (Nat.lt_succ_self _) (by simp [nesting]) (le_max_right _ _) hbase ht ihbase
    fun _ _ _ _ _ hbroken => absurd ?_ hbroken
  exact ⟨lessStartsGenericCall_of_ne (by simp), trivial⟩

/-- **Every written tree breaks at a `<` that the parser takes for a generic call.** -/
theorem breaks_of_written (h : Written value) : Breaks sub value := by
  induction h with
  | ident h =>
    refine breaks_of_postfixes (reads_ident h) (Nat.lt_succ_self _) fun _ _ _ _ hbroken => ?_
    exact absurd ⟨lessStartsGenericCall_of_ne (by simp), trivial⟩ hbroken
  | intLiteral text =>
    refine breaks_of_postfixes (reads_intLiteral text) (Nat.lt_succ_self _) fun _ _ _ _ hbroken => ?_
    exact absurd ⟨lessStartsGenericCall_of_ne (by simp), trivial⟩ hbroken
  | grouped hwritten ih => exact breaks_grouped hwritten ih
  | unary op hwritten ht ih =>
    refine breaks_of_operand (.unary op) (unaryKind op) ?_ .unary rfl ?_ rfl rfl rfl hwritten ht ih
    · intro room rest
      cases op <;> rfl
    · cases op <;> simp [unaryKind]
  | deref hwritten ht ih =>
    exact breaks_of_operand .deref .star (fun _ _ => rfl) .deref rfl (by simp) rfl rfl rfl
      hwritten ht ih
  | addressOf hwritten ht ih =>
    exact breaks_of_operand .addressOf .amp (fun _ _ => rfl) .addressOf rfl (by simp) rfl rfl rfl
      hwritten ht ih
  | binary op hleft hright htleft htright ihleft ihright =>
    exact breaks_binary hleft hright htleft htright ihleft ihright
  | call hcallee ht hargs ihcallee ihargs => exact breaks_call hcallee ht hargs ihcallee ihargs
  | index hbase ht hindex ihbase ihindex => exact breaks_index hbase ht hindex ihbase ihindex
  | member name hbase ht ihbase => exact breaks_member name hbase ht ihbase

/-- What is read past a misread `<` is another tree. -/
lemma parseExpr_write_ne (h : Written value) (hnest : nesting value ≤ room)
    (hwidth : width value < maxParseDepth) (hbroken : ¬Clear (write value) []) :
    parseExpr sub room 0 (write value) ≠ some (value, []) := by
  intro hparse
  have hbreaks : Breaks sub value := breaks_of_written h
  have hmisread := hbreaks.closed h hnest hwidth hbroken
  rw [List.append_nil] at hmisread
  exact not_hasGeneric_of_written h (hmisread hparse)

/-- **Writing and parsing give the tree back exactly if no `<` of it is taken for the start of a
generic call.** -/
theorem parseExpr_write_parenthesize_iff {value : Expr} (h : Plain value) {room : ℕ}
    (hnest : nesting (parenthesize value) ≤ room) (hwidth : width (parenthesize value) < maxParseDepth) :
    (parseExpr sub room 0 (write (parenthesize value)) = some (parenthesize value, []) ∧
      ungroup (parenthesize value) = ungroup value) ↔ Clear (write (parenthesize value)) [] := by
  have hwritten := written_parenthesize h
  constructor
  · rintro ⟨hparse, -⟩
    by_contra hbroken
    exact parseExpr_write_ne hwritten hnest hwidth hbroken hparse
  · intro hclear
    exact ⟨parseExpr_write hwritten hnest hwidth hclear, ungroup_parenthesize h⟩

end Reading

/-! ## A comparison taken for a call -/

def variableNamed (text : String) : Expr := .ident ⟨text, 0⟩

/-- `a < b + c && d`. -/
def sumBelow : Expr :=
  .binary .logicalAnd (.binary .lt (variableNamed "a") (.binary .add (variableNamed "b") (variableNamed "c"))) (variableNamed "d")

def noSubparsers : Subparsers where
  parseType _ _ := none
  parseBlock _ _ := none

lemma plain_variableNamed {text : String} (h : isPlainName ⟨text, 0⟩ = true) : Plain (variableNamed text) :=
  .ident h

theorem sumBelow_parseExpr_write :
    parseExpr noSubparsers maxParseDepth 0 (write (parenthesize sumBelow)) =
        some (parenthesize sumBelow, []) ∧
      ungroup (parenthesize sumBelow) = ungroup sumBelow :=
  (parseExpr_write_parenthesize_iff
    (.binary _ (.binary _ (plain_variableNamed rfl) (.binary _ (plain_variableNamed rfl) (plain_variableNamed rfl)))
      (plain_variableNamed rfl)) (by decide) (by decide)).mpr (by decide)

/-- `a < b && c > (d)`. -/
def groupAbove : Expr :=
  .binary .logicalAnd (.binary .lt (variableNamed "a") (variableNamed "b"))
    (.binary .gt (variableNamed "c") (.grouped (variableNamed "d")))

/-- The scan takes `&&` for a type: no tree comes back from `a < b && c > (d)`. -/
theorem groupAbove_not_parseExpr_write :
    ¬∀ (sub : Subparsers) (value : Expr) (room : ℕ), Plain value →
      nesting (parenthesize value) ≤ room → width (parenthesize value) < maxParseDepth →
      parseExpr sub room 0 (write (parenthesize value)) = some (parenthesize value, []) := by
  intro h
  have hplain : Plain groupAbove :=
    .binary _ (.binary _ (plain_variableNamed rfl) (plain_variableNamed rfl))
      (.binary _ (plain_variableNamed rfl) (.grouped (plain_variableNamed rfl)))
  have hbroken : ¬Clear (write (parenthesize groupAbove)) [] := by
    rintro ⟨-, hless, -⟩
    exact absurd hless (by decide)
  have hread := h noSubparsers groupAbove maxParseDepth hplain (by decide) (by decide)
  exact parseExpr_write_ne (written_parenthesize hplain) (by decide) (by decide) hbroken hread

end ModernC.Parser
