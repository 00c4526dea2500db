import ModernC.Parser.Writing

/-!
# Reading back what was written

The parser reads a written tree back where no `<` of it looks like the start of a generic call.
The invariant of the loops: after the tokens of a tree the parser stands where it would stand had
it been handed the tree, with as many wrappers used up as the tree has at its edge.
-/

namespace ModernC.Parser

open Syntax (Ident Expr TypeExpr Stmt BinaryOp UnaryOp StructLiteralField)

/-! ## Tokens that stop a tree -/

/-- No token in front of `rest` looks like the start of a generic call. -/
def Clear : Tokens → Tokens → Prop
  | [], _ => True
  | token :: tokens, rest =>
    lessStartsGenericCall (token :: tokens ++ rest) = some false ∧ Clear tokens rest

instance decidableClear : (tokens rest : Tokens) → Decidable (Clear tokens rest)
  | [], _ => isTrue trivial
  | token :: tokens, rest =>
    have := decidableClear tokens rest
    inferInstanceAs (Decidable (lessStartsGenericCall (token :: tokens ++ rest) = some false ∧
      Clear tokens rest))

variable {tokens : Tokens} {value : Expr}

lemma clear_append {tokens' rest : Tokens} :
    Clear (tokens ++ tokens') rest ↔ Clear tokens (tokens' ++ rest) ∧ Clear tokens' rest := by
  induction tokens with
  | nil => simp [Clear]
  | cons token tokens ih =>
    simp only [List.cons_append, Clear, ih, List.append_assoc]
    tauto

lemma lessStartsGenericCall_of_ne (h : current tokens ≠ .less) :
    lessStartsGenericCall tokens = some false :=
  if_neg h

/-- No postfix and no cast starts here. -/
structure Stops (tokens : Tokens) : Prop where
  kind : current tokens ≠ .lParen ∧ current tokens ≠ .lBracket ∧ current tokens ≠ .dot ∧
    current tokens ≠ .question
  notGeneric : lessStartsGenericCall tokens = some false
  notCast : ¬(current tokens = .identifier ∧ currentLexeme tokens = "as")

/-- An operator here binds no tighter than `power`. -/
def Bounded (power : ℕ) (tokens : Tokens) : Prop :=
  ∀ op, infixOf (current tokens) = some op → op.leftBp ≤ power

/-- The tokens behind a tree inside brackets. -/
def Closes (tokens : Tokens) : Prop := current tokens ∈ [.rParen, .rBracket, .comma]

lemma Closes.stops (h : Closes tokens) : Stops tokens := by
  simp only [Closes, List.mem_cons, List.not_mem_nil, or_false] at h
  refine ⟨?_, lessStartsGenericCall_of_ne ?_, ?_⟩
  all_goals rcases h with h | h | h <;> simp [h]

lemma Closes.infixOf (h : Closes tokens) : infixOf (current tokens) = none := by
  simp only [Closes, List.mem_cons, List.not_mem_nil, or_false] at h
  rcases h with h | h | h <;> rw [h] <;> rfl

lemma closes_writeMore (args : List Expr) (rest : Tokens) :
    Closes (writeMore args ++ { kind := .rParen } :: rest) := by
  rcases args with _ | ⟨arg, args⟩
  · simp [writeMore, Closes]
  · simp [writeMore, Closes]

lemma stops_opKind {op : BinaryOp}
    (h : lessStartsGenericCall ({ kind := opKind op } :: tokens) = some false) :
    Stops ({ kind := opKind op } :: tokens) := by
  refine ⟨?_, h, ?_⟩
  · cases op <;> simp [opKind]
  · cases op <;> simp [opKind]

/-! ## Loops -/

section Loops

variable (parseType : Parse TypeExpr) (parseBlock : Parse (List Stmt)) (expr : ℕ → Parse Expr)

/-- What an infix loop does after the postfixes. -/
def afterPostfix (minBp wrappers : ℕ) : Expr × Tokens → Option (Expr × Tokens) := fun (left, rest) =>
  (infixStep parseType expr minBp left rest).bind fun
    | none => some (left, rest)
    | some (left, rest) =>
      match wrappers with
      | 0 => none
      | wrappers + 1 => infixLoop parseType parseBlock expr minBp wrappers left rest

lemma infixLoop_eq (minBp wrappers : ℕ) (left : Expr) (tokens : Tokens) :
    infixLoop parseType parseBlock expr minBp wrappers left tokens =
      (parsePostfix parseType parseBlock expr (maxParseDepth - 1) left tokens).bind
        (afterPostfix parseType parseBlock expr minBp wrappers) := by
  rcases wrappers with _ | wrappers
  · rw [infixLoop]
    rfl
  · rw [infixLoop]
    rfl

/-- A prefix with its postfixes. -/
def prefixed : Parse Expr := fun tokens =>
  (parsePrefix parseBlock expr tokens).bind fun (value, rest) =>
    parsePostfix parseType parseBlock expr (maxParseDepth - 1) value rest

lemma level_eq (minBp : ℕ) (tokens : Tokens) :
    level parseType parseBlock expr minBp tokens =
      (prefixed parseType parseBlock expr tokens).bind
        (afterPostfix parseType parseBlock expr minBp (maxParseDepth - 1)) := by
  rw [level, prefixed, Option.bind_assoc]
  congr 1
  funext ⟨value, rest⟩
  exact infixLoop_eq ..

variable {parseType parseBlock expr}

lemma postfixStep_of_stops (h : Stops tokens) :
    postfixStep parseType parseBlock expr value tokens = some none := by
  obtain ⟨⟨hparen, hbracket, hdot, hquestion⟩, hgeneric, -⟩ := h
  rw [postfixStep, hgeneric]
  simp [hparen, hbracket, hdot, hquestion]

variable {wrappers : ℕ} {rest : Tokens}

lemma parsePostfix_of_stops (h : Stops tokens) :
    parsePostfix parseType parseBlock expr wrappers value tokens = some (value, tokens) := by
  rcases wrappers with _ | wrappers
  · rw [parsePostfix, postfixStep_of_stops h]
    rfl
  · rw [parsePostfix, postfixStep_of_stops h]
    rfl

lemma parsePostfix_of_step {next : Expr}
    (h : postfixStep parseType parseBlock expr value tokens = some (some (next, rest))) :
    parsePostfix parseType parseBlock expr (wrappers + 1) value tokens =
      parsePostfix parseType parseBlock expr wrappers next rest := by
  rw [parsePostfix, h]
  rfl

/-- Where no operator binds as tightly as asked, the loop is done. -/
lemma afterPostfix_of_lt {minBp : ℕ}
    (hstops : Stops tokens) (hlt : ∀ op, infixOf (current tokens) = some op → op.leftBp < minBp) :
    afterPostfix parseType parseBlock expr minBp wrappers (value, tokens) = some (value, tokens) := by
  have hstep : infixStep parseType expr minBp value tokens = some none := by
    rw [infixStep, if_neg hstops.notCast]
    rcases hop : infixOf (current tokens) with _ | op
    · rfl
    · simp only
      rw [if_pos (hlt op hop)]
  simp only [afterPostfix, hstep, Option.bind_some]

/-- A binary operator takes one wrapper. -/
lemma afterPostfix_binary {minBp : ℕ} {op : BinaryOp} {left right : Expr}
    (hmin : minBp ≤ bindingPower op)
    (hright : expr (bindingPower op + 1) tokens = some (right, rest)) (hstops : Stops rest) :
    afterPostfix parseType parseBlock expr minBp (wrappers + 1)
        (left, { kind := opKind op } :: tokens) =
      afterPostfix parseType parseBlock expr minBp wrappers (.binary op left right, rest) := by
  have hcast : ¬(opKind op = .identifier ∧
      currentLexeme ({ kind := opKind op } :: tokens) = "as") := by
    cases op <;> simp [opKind]
  have hstep : infixStep parseType expr minBp left ({ kind := opKind op } :: tokens) =
      some (some (.binary op left right, rest)) := by
    rw [infixStep, current_cons, if_neg hcast]
    simp only [infixOf_opKind]
    rw [if_neg (by omega), List.tail_cons, hright]
    rfl
  simp only [afterPostfix, hstep, Option.bind_some]
  rw [infixLoop_eq, parsePostfix_of_stops hstops]
  rfl

/-! ## Postfixes -/

lemma postfixStep_call {callee : Expr} {args : List Expr}
    (hcallee : isReflectionBuiltinCallee callee = false)
    (hargs : itemsUntil (expr 0) .rParen tokens = some (args, { kind := .rParen } :: rest)) :
    postfixStep parseType parseBlock expr callee ({ kind := .lParen } :: tokens) =
      some (some (.call callee [] args, rest)) := by
  rw [postfixStep, lessStartsGenericCall_of_ne (by simp)]
  simp [finishCall, hcallee, hargs]

lemma postfixStep_index {base index : Expr}
    (hindex : expr 0 tokens = some (index, { kind := .rBracket } :: rest)) :
    postfixStep parseType parseBlock expr base ({ kind := .lBracket } :: tokens) =
      some (some (.index base index, rest)) := by
  rw [postfixStep, lessStartsGenericCall_of_ne (by simp)]
  simp [finishIndex, hindex]

lemma postfixStep_member {base : Expr} {name : Ident} :
    postfixStep parseType parseBlock expr base
        ({ kind := .dot } :: ⟨.identifier, name.text, name.offset⟩ :: rest) =
      some (some (.member base name, rest)) := by
  rw [postfixStep, lessStartsGenericCall_of_ne (by simp)]
  simp [finishMember, expectSymbol, isSymbol, ident]

end Loops

/-! ## Written trees -/

lemma isReflectionBuiltinCallee_of_written (h : Written value) :
    isReflectionBuiltinCallee value = false := by
  induction h with
  | ident h =>
    simp only [isPlainName, Bool.and_eq_true, Bool.not_eq_true'] at h
    exact h.1.2
  | grouped _ ih => exact ih
  | _ => rfl

lemma scalarTypeNameIdent_of_written (h : Written value) :
    scalarTypeNameIdent value = none := by
  cases h with
  | ident h =>
    simp only [isPlainName, Bool.and_eq_true, Option.isNone_iff_eq_none] at h
    exact h.2
  | _ => rfl

/-- The first token of a written tree. -/
lemma current_write (h : Written value) (rest : Tokens) :
    current (write value ++ rest) ∈
      [.identifier, .integerLiteral, .lParen, .minus, .tilde, .bang, .star, .amp] := by
  induction h generalizing rest with
  | ident _ | intLiteral _ | grouped _ _ => simp [write]
  | unary op _ _ _ => cases op <;> simp [write, unaryKind]
  | deref _ _ _ | addressOf _ _ _ => simp [write]
  | binary op _ _ _ _ ihleft _ | call _ _ _ ihleft _ | index _ _ _ ihleft _
  | member _ _ _ ihleft => simpa [write] using ihleft _

lemma current_write_ne_rParen (h : Written value) (rest : Tokens) :
    current (write value ++ rest) ≠ .rParen := by
  intro heq
  have hmem := current_write h rest
  rw [heq] at hmem
  simp at hmem

lemma one_le_nesting (h : Written value) : 1 ≤ nesting value := by
  induction h with
  | ident _ | intLiteral _ => exact le_refl _
  | grouped _ _ | unary _ _ _ _ | deref _ _ _ | addressOf _ _ _ => simp [nesting]
  | binary _ _ _ _ _ ihleft _ | call _ _ _ ihleft _ | index _ _ _ ihleft _ => exact ihleft.trans (le_max_left _ _)
  | member _ _ _ ihbase => exact ihbase

lemma length_writeMore (args : List Expr) : args.length ≤ (writeMore args).length := by
  induction args with
  | nil => exact Nat.zero_le _
  | cons arg args ih =>
    simp only [writeMore, List.length_cons, List.length_append]
    omega

/-! ## Reading a tree -/

section Reading

variable (sub : Subparsers)

/-- The parser comes through the tokens of a tree with the tree in hand. -/
structure Reads (value : Expr) : Prop where
  postfixes : ∀ room rest, nesting value ≤ room + 1 → width value < maxParseDepth →
    Clear (write value) rest → prefixOperandBp < tightness value →
    prefixed (sub.parseType room) (sub.parseBlock room) (parseExpr sub room)
        (write value ++ rest) =
      parsePostfix (sub.parseType room) (sub.parseBlock room) (parseExpr sub room)
        (maxParseDepth - 1 - chain value) value rest
  operators : ∀ room rest minBp, nesting value ≤ room + 1 → width value < maxParseDepth →
    Clear (write value) rest → Stops rest → minBp ≤ tightness value →
    Bounded (tightness value) rest →
    parseExpr sub (room + 1) minBp (write value ++ rest) =
      afterPostfix (sub.parseType room) (sub.parseBlock room) (parseExpr sub room) minBp
        (maxParseDepth - 1 - spine value) (value, rest)

variable {sub}

variable {room : ℕ} {rest : Tokens} {args : List Expr}

/-- A tree read by a level of its own. -/
lemma Reads.nested (h : Reads sub value) (hpos : 1 ≤ nesting value) {minBp : ℕ}
    (hnest : nesting value ≤ room) (hwidth : width value < maxParseDepth)
    (hclear : Clear (write value) rest) (hstops : Stops rest) (hmin : minBp ≤ tightness value)
    (hlt : ∀ op, infixOf (current rest) = some op → op.leftBp < minBp) :
    parseExpr sub room minBp (write value ++ rest) = some (value, rest) := by
  obtain ⟨room, rfl⟩ : ∃ room', room = room' + 1 := ⟨room - 1, by omega⟩
  have hbound : Bounded (tightness value) rest := fun op hop => by
    have hop' := hlt op hop
    omega
  rw [h.operators room rest minBp hnest hwidth hclear hstops hmin hbound]
  exact afterPostfix_of_lt hstops hlt

lemma Reads.closed (h : Reads sub value) (hwritten : Written value)
    (hnest : nesting value ≤ room) (hwidth : width value < maxParseDepth)
    (hclear : Clear (write value) rest) (hclose : Closes rest) :
    parseExpr sub room 0 (write value ++ rest) = some (value, rest) :=
  h.nested (one_le_nesting hwritten) hnest hwidth hclear hclose.stops (Nat.zero_le _)
    fun op hop => absurd (hclose.infixOf.symm.trans hop) (by simp)

/-- What reads as a prefix with postfixes reads as an operand. -/
lemma operators_of_prefixed {minBp : ℕ}
    (h : prefixed (sub.parseType room) (sub.parseBlock room) (parseExpr sub room) tokens =
      some (value, rest)) :
    parseExpr sub (room + 1) minBp tokens =
      afterPostfix (sub.parseType room) (sub.parseBlock room) (parseExpr sub room) minBp
        (maxParseDepth - 1) (value, rest) := by
  rw [parseExpr, level_eq, h, Option.bind_some]

/-- A tree tighter than any operator reads when its postfixes do. -/
lemma reads_of_postfixes (hspine : spine value = 0)
    (h : ∀ room rest, nesting value ≤ room + 1 → width value < maxParseDepth →
      Clear (write value) rest →
      prefixed (sub.parseType room) (sub.parseBlock room) (parseExpr sub room)
          (write value ++ rest) =
        parsePostfix (sub.parseType room) (sub.parseBlock room) (parseExpr sub room)
          (maxParseDepth - 1 - chain value) value rest) : Reads sub value := by
  refine ⟨fun room rest hnest hwidth hclear _ => h room rest hnest hwidth hclear, ?_⟩
  intro room rest minBp hnest hwidth hclear hstops hmin hbound
  rw [hspine]
  refine operators_of_prefixed ?_
  rw [h room rest hnest hwidth hclear, parsePostfix_of_stops hstops]

/-- A tree that is an operand of a prefix. -/
lemma reads_of_operand (wrap : Expr → Expr) (kind : Kind) {operandValue : Expr}
    (hkind : ∀ room rest, parsePrefix (sub.parseBlock room) (parseExpr sub room)
        ({ kind } :: rest) = operand (parseExpr sub room) wrap rest)
    (hvalue : value = wrap operandValue) (hwrite : write value = { kind } :: write operandValue)
    (hnesting : nesting value = nesting operandValue + 1) (hwidth : width value = width operandValue)
    (htight : tightness value = prefixOperandBp) (hspine : spine value = 0)
    (hwritten : Written operandValue) (ht : prefixOperandBp ≤ tightness operandValue)
    (ih : Reads sub operandValue) : Reads sub value := by
  refine ⟨fun _ _ _ _ _ h => absurd h (by omega), ?_⟩
  intro room rest minBp hnest hwid hclear hstops hmin hbound
  rw [hwrite] at hclear
  have hread : parseExpr sub room prefixOperandBp (write operandValue ++ rest) =
      some (operandValue, rest) :=
    ih.nested (one_le_nesting hwritten) (by omega) (by omega) hclear.2 hstops ht
      fun op hop => leftBp_lt hop
  rw [hspine, hwrite]
  refine operators_of_prefixed ?_
  rw [prefixed, List.cons_append, hkind, operand, hread, Option.map_some, Option.bind_some, hvalue]
  exact parsePostfix_of_stops hstops

/-! ### Arguments -/

lemma commaSeparated_write {first : Expr} {fuel : ℕ} (hfuel : args.length < fuel)
    (hreads : ∀ arg ∈ first :: args, Written arg ∧ Reads sub arg ∧ nesting arg ≤ room ∧
      width arg < maxParseDepth)
    (hclear : Clear (write first ++ writeMore args) ({ kind := .rParen } :: rest)) :
    commaSeparated (parseExpr sub room 0) .rParen fuel
        (write first ++ (writeMore args ++ { kind := .rParen } :: rest)) =
      some (first :: args, { kind := .rParen } :: rest) := by
  induction args generalizing first fuel with
  | nil =>
    obtain ⟨fuel, rfl⟩ : ∃ fuel', fuel = fuel' + 1 := ⟨fuel - 1, by omega⟩
    obtain ⟨hwritten, hfirst, hnest, hwidth⟩ := hreads first List.mem_cons_self
    obtain ⟨hclearFirst, -⟩ := clear_append.mp hclear
    have hread := hfirst.closed hwritten hnest hwidth hclearFirst (closes_writeMore [] rest)
    rw [commaSeparated, hread]
    simp [writeMore]
  | cons arg args ih =>
    obtain ⟨fuel, rfl⟩ : ∃ fuel', fuel = fuel' + 1 := ⟨fuel - 1, by omega⟩
    obtain ⟨hwritten, hfirst, hnest, hwidth⟩ := hreads first List.mem_cons_self
    obtain ⟨hclearFirst, hclearMore⟩ := clear_append.mp hclear
    have hread := hfirst.closed hwritten hnest hwidth hclearFirst (closes_writeMore (arg :: args) rest)
    have hwrittenArg := (hreads arg (by simp)).1
    have hmore : commaSeparated (parseExpr sub room 0) .rParen fuel
        (write arg ++ (writeMore args ++ { kind := .rParen } :: rest)) =
          some (arg :: args, { kind := .rParen } :: rest) :=
      ih (by simpa using hfuel)
        (fun other hother => hreads other (List.mem_cons_of_mem first hother))
        (by simpa [writeMore, Clear] using hclearMore.2)
    rw [commaSeparated, hread]
    simp [writeMore, current_write_ne_rParen hwrittenArg, hmore]

lemma itemsUntil_write (hreads : ∀ arg ∈ args, Written arg ∧ Reads sub arg ∧ nesting arg ≤ room ∧
      width arg < maxParseDepth) (hclear : Clear (writeArgs args) ({ kind := .rParen } :: rest)) :
    itemsUntil (parseExpr sub room 0) .rParen (writeArgs args ++ { kind := .rParen } :: rest) =
      some (args, { kind := .rParen } :: rest) := by
  rcases args with _ | ⟨arg, args⟩
  · rfl
  · have hwritten := (hreads arg List.mem_cons_self).1
    have hlength := length_writeMore args
    rw [writeArgs, List.append_assoc, itemsUntil, if_neg (current_write_ne_rParen hwritten _)]
    refine commaSeparated_write ?_ hreads hclear
    simp only [List.length_append]
    omega

/-! ### Every written tree -/

lemma reads_ident {id : Ident} (h : isPlainName id = true) : Reads sub (.ident id) := by
  refine reads_of_postfixes rfl fun room rest _ _ _ => ?_
  simp only [isPlainName, List.mem_cons, List.not_mem_nil, or_false, not_or, Bool.and_eq_true,
    decide_eq_true_eq] at h
  obtain ⟨⟨⟨-, hborrow, hmove, hawait⟩, -⟩, -⟩ := h
  simp [prefixed, parsePrefix, parsePrefixName, parsePrimary, write, isSymbol, ident, chain, hborrow,
    hmove, hawait]

lemma reads_intLiteral (text : String) : Reads sub (.intLiteral text) := by
  refine reads_of_postfixes rfl fun room rest _ _ _ => ?_
  simp [prefixed, parsePrefix, parsePrefixName, parsePrimary, write, isSymbol, literal, chain]

lemma reads_grouped {inner : Expr} (hwritten : Written inner) (ih : Reads sub inner) :
    Reads sub (.grouped inner) := by
  refine reads_of_postfixes rfl fun room rest hnest hwidth hclear => ?_
  rw [write, List.cons_append] at hclear
  have hinner : Clear (write inner) ({ kind := .rParen } :: rest) := (clear_append.mp hclear.2).1
  have hread := ih.closed hwritten (by simpa [nesting] using hnest) hwidth hinner (by simp [Closes])
  have hparen := current_write_ne_rParen hwritten ({ kind := .rParen } :: rest)
  have hscalar := scalarTypeNameIdent_of_written hwritten
  have hprimary : parseParenPrimary (parseExpr sub room)
      (write inner ++ { kind := .rParen } :: rest) = some (.grouped inner, rest) := by
    simp [parseParenPrimary, accept, hparen, tupleElement, hread, hscalar]
  simp [prefixed, parsePrefix, parsePrefixName, parsePrimary, write, isSymbol, literal, chain,
    hprimary]

lemma reads_binary {op : BinaryOp} {left right : Expr} (hright : Written right)
    (htleft : bindingPower op ≤ tightness left) (htright : bindingPower op < tightness right)
    (ihleft : Reads sub left) (ihright : Reads sub right) : Reads sub (.binary op left right) := by
  have hpower := bindingPower_lt op
  refine ⟨fun _ _ _ _ _ h => absurd h (by simp only [tightness]; omega), ?_⟩
  intro room rest minBp hnest hwidth hclear hstops hmin hbound
  simp only [nesting, width, tightness] at hnest hwidth hmin hbound
  rw [write] at hclear ⊢
  obtain ⟨hclearLeft, hless, hclearRight⟩ := clear_append.mp hclear
  have hop : Stops ({ kind := opKind op } :: (write right ++ rest)) := stops_opKind hless
  have hboundOp : Bounded (tightness left) ({ kind := opKind op } :: (write right ++ rest)) := by
    intro op' hop'
    rw [current_cons, infixOf_opKind] at hop'
    obtain rfl := Option.some.inj hop'
    exact htleft
  have hreadRight : parseExpr sub room (bindingPower op + 1) (write right ++ rest) =
      some (right, rest) :=
    ihright.nested (one_le_nesting hright) (by omega) (by omega) hclearRight hstops htright
      fun op' hop' => Nat.lt_succ_of_le (hbound op' hop')
  have hspine : maxParseDepth - 1 - spine left =
      maxParseDepth - 1 - spine (.binary op left right) + 1 := by
    simp only [spine]
    omega
  rw [List.append_assoc, List.cons_append,
    ihleft.operators room ({ kind := opKind op } :: (write right ++ rest)) minBp (by omega)
      (by omega) hclearLeft hop (by omega) hboundOp, hspine]
  exact afterPostfix_binary hmin hreadRight hstops

lemma write_call (callee : Expr) (args : List Expr) :
    write (.call callee [] args) =
      write callee ++ { kind := .lParen } :: (writeArgs args ++ [{ kind := .rParen }]) := by
  simp [write]

lemma write_index (base index : Expr) :
    write (.index base index) =
      write base ++ { kind := .lBracket } :: (write index ++ [{ kind := .rBracket }]) := by
  simp [write]

/-- A postfix is read by one more turn of the loop behind its base. -/
lemma reads_of_suffix {base : Expr} {opener : Token} {suffix : Tokens}
    (hwrite : write value = write base ++ opener :: suffix) (hspine : spine value = 0)
    (hchain : chain value = chain base + 1) (hnesting : nesting base ≤ nesting value)
    (hwidths : max (chain value) (width base) ≤ width value)
    (ht : prefixOperandBp < tightness base) (ihbase : Reads sub base)
    (h : ∀ room rest, nesting value ≤ room + 1 → width value < maxParseDepth → Clear suffix rest →
      postfixStep (sub.parseType room) (sub.parseBlock room) (parseExpr sub room) base
        (opener :: (suffix ++ rest)) = some (some (value, rest))) : Reads sub value := by
  refine reads_of_postfixes hspine fun room rest hnest hwidth hclear => ?_
  rw [hwrite] at hclear ⊢
  obtain ⟨hclearBase, -, hsuffix⟩ := clear_append.mp hclear
  have hturn : maxParseDepth - 1 - chain base = maxParseDepth - 1 - chain value + 1 := by omega
  rw [List.append_assoc, ihbase.postfixes room _ (by omega) (by omega) hclearBase ht, hturn]
  exact parsePostfix_of_step (h room rest hnest hwidth hsuffix)

lemma reads_call {callee : Expr} (hcallee : Written callee)
    (ht : prefixOperandBp < tightness callee) (hargs : ∀ arg ∈ args, Written arg)
    (ihcallee : Reads sub callee) (ihargs : ∀ arg ∈ args, Reads sub arg) :
    Reads sub (.call callee [] args) := by
  refine reads_of_suffix (write_call callee args) rfl rfl (le_max_left _ _)
    (by simp only [chain, width]; omega) ht ihcallee fun room rest hnest hwidth hclear => ?_
  simp only [nesting, width] at hnest hwidth
  rw [List.append_assoc]
  refine postfixStep_call (isReflectionBuiltinCallee_of_written hcallee)
    (itemsUntil_write (fun arg harg => ⟨hargs arg harg, ihargs arg harg, ?_, ?_⟩)
      (clear_append.mp hclear).1)
  · have hle := nesting_le_of_mem harg
    omega
  · have hle := width_le_of_mem harg
    omega

lemma reads_index {base index : Expr} (ht : prefixOperandBp < tightness base)
    (hindex : Written index) (ihbase : Reads sub base) (ihindex : Reads sub index) :
    Reads sub (.index base index) := by
  refine reads_of_suffix (write_index base index) rfl rfl (le_max_left _ _)
    (by simp only [chain, width]; omega) ht ihbase fun room rest hnest hwidth hclear => ?_
  simp only [nesting, width] at hnest hwidth
  rw [List.append_assoc]
  exact postfixStep_index (ihindex.closed hindex (by omega) (by omega) (clear_append.mp hclear).1
    (by simp [Closes]))

lemma reads_member {base : Expr} (name : Ident) (ht : prefixOperandBp < tightness base)
    (ihbase : Reads sub base) : Reads sub (.member base name) :=
  reads_of_suffix (by rw [write]) rfl rfl le_rfl (by simp [chain, width]) ht ihbase
    fun _ _ _ _ _ => postfixStep_member

/-- **Every written tree reads.** -/
theorem reads_of_written (h : Written value) : Reads sub value := by
  induction h with
  | ident h => exact reads_ident h
  | intLiteral text => exact reads_intLiteral text
  | grouped hwritten ih => exact reads_grouped hwritten ih
  | unary op hwritten ht ih =>
    refine reads_of_operand (.unary op) (unaryKind op) ?_ rfl rfl rfl rfl rfl rfl
      hwritten ht ih
    intro room rest
    cases op <;> rfl
  | deref hwritten ht ih =>
    exact reads_of_operand .deref .star (fun _ _ => rfl) rfl rfl rfl rfl rfl rfl
      hwritten ht ih
  | addressOf hwritten ht ih =>
    exact reads_of_operand .addressOf .amp (fun _ _ => rfl) rfl rfl rfl rfl rfl
      rfl hwritten ht ih
  | binary op _ hright htleft htright ihleft ihright =>
    exact reads_binary hright htleft htright ihleft ihright
  | call hcallee ht hargs ihcallee ihargs => exact reads_call hcallee ht hargs ihcallee ihargs
  | index _ ht hindex ihbase ihindex => exact reads_index ht hindex ihbase ihindex
  | member name _ ht ihbase => exact reads_member name ht ihbase

/-- **A written tree whose every `<` is a comparison is read back, to the last token.** -/
theorem parseExpr_write (h : Written value) (hnest : nesting value ≤ room)
    (hwidth : width value < maxParseDepth) (hclear : Clear (write value) []) :
    parseExpr sub room 0 (write value) = some (value, []) := by
  have hstops : Stops [] := ⟨by simp, rfl, by simp⟩
  have hreads : Reads sub value := reads_of_written h
  have hread := hreads.nested (one_le_nesting h) hnest hwidth hclear hstops (Nat.zero_le _)
    (by simp [infixOf])
  rwa [List.append_nil] at hread

end Reading

end ModernC.Parser
