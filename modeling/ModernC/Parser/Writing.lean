import ModernC.Parser.Expressions

/-!
# Trees and their tokens

Expression trees of operators, calls, indices, members and groups, written out as tokens.  The
binding powers say where an operand needs parentheses: `parenthesize` puts groups there, and a
tree is `Written` when it has them.
-/

namespace ModernC.Parser

open Syntax (Ident Expr BinaryOp UnaryOp)

/-! ## Operators -/

def opKind : BinaryOp → Kind
  | .logicalOr => .pipePipe
  | .logicalAnd => .ampAmp
  | .eq => .equalEqual
  | .ne => .bangEqual
  | .lt => .less
  | .le => .lessEqual
  | .gt => .greater
  | .ge => .greaterEqual
  | .bitOr => .pipe
  | .bitXor => .caret
  | .bitAnd => .amp
  | .shl => .shiftLeft
  | .shr => .shiftRight
  | .add => .plus
  | .sub => .minus
  | .mul => .star
  | .div => .slash
  | .mod => .percent

/-- How tightly an operator binds. -/
def bindingPower : BinaryOp → ℕ
  | .logicalOr => 1
  | .logicalAnd => 3
  | .eq | .ne => 5
  | .lt | .le | .gt | .ge => 7
  | .bitOr => 9
  | .bitXor => 11
  | .bitAnd => 13
  | .shl | .shr => 15
  | .add | .sub => 17
  | .mul | .div | .mod => 19

def unaryKind : UnaryOp → Kind
  | .neg => .minus
  | .bitNot => .tilde
  | .logicalNot => .bang

lemma infixOf_opKind (op : BinaryOp) :
    infixOf (opKind op) = some ⟨bindingPower op, bindingPower op + 1, op⟩ := by
  cases op <;> rfl

lemma bindingPower_lt (op : BinaryOp) : bindingPower op < prefixOperandBp := by
  cases op <;> decide

lemma leftBp_lt {kind : Kind} {op : Infix} (h : infixOf kind = some op) :
    op.leftBp < prefixOperandBp := by
  unfold infixOf at h
  split at h
  all_goals
    first
    | obtain rfl := Option.some.inj h
      decide
    | exact absurd h nofun

/-! ## Writing -/

mutual

def write : Expr → Tokens
  | .ident id => [⟨.identifier, id.text, id.offset⟩]
  | .intLiteral text => [⟨.integerLiteral, text, 0⟩]
  | .grouped inner => { kind := .lParen } :: write inner ++ [{ kind := .rParen }]
  | .unary op value => { kind := unaryKind op } :: write value
  | .deref value => { kind := .star } :: write value
  | .addressOf value => { kind := .amp } :: write value
  | .binary op left right => write left ++ { kind := opKind op } :: write right
  | .call callee _ args =>
    write callee ++ { kind := .lParen } :: writeArgs args ++ [{ kind := .rParen }]
  | .index base index =>
    write base ++ { kind := .lBracket } :: write index ++ [{ kind := .rBracket }]
  | .member base name =>
    write base ++ [{ kind := .dot }, ⟨.identifier, name.text, name.offset⟩]
  | _ => []

def writeArgs : List Expr → Tokens
  | [] => []
  | arg :: args => write arg ++ writeMore args

/-- The arguments after the first. -/
def writeMore : List Expr → Tokens
  | [] => []
  | arg :: args => { kind := .comma } :: write arg ++ writeMore args

end

/-! ## Parentheses -/

/-- How tightly a tree holds together. -/
def tightness : Expr → ℕ
  | .binary op _ _ => bindingPower op
  | .unary _ _ | .deref _ | .addressOf _ => prefixOperandBp
  | _ => prefixOperandBp + 1

/-- A tree as an operand that has to be as tight as asked. -/
def fit (needed : ℕ) (value : Expr) : Expr :=
  if tightness value < needed then .grouped value else value

mutual

/-- The tree with parentheses where the binding powers require them. -/
def parenthesize : Expr → Expr
  | .grouped inner => .grouped (parenthesize inner)
  | .unary op value => .unary op (fit prefixOperandBp (parenthesize value))
  | .deref value => .deref (fit prefixOperandBp (parenthesize value))
  | .addressOf value => .addressOf (fit prefixOperandBp (parenthesize value))
  | .binary op left right =>
    .binary op (fit (bindingPower op) (parenthesize left))
      (fit (bindingPower op + 1) (parenthesize right))
  | .call callee typeArgs args =>
    .call (fit (prefixOperandBp + 1) (parenthesize callee)) typeArgs (parenthesizeArgs args)
  | .index base index =>
    .index (fit (prefixOperandBp + 1) (parenthesize base)) (parenthesize index)
  | .member base name => .member (fit (prefixOperandBp + 1) (parenthesize base)) name
  | value => value

def parenthesizeArgs : List Expr → List Expr
  | [] => []
  | arg :: args => parenthesize arg :: parenthesizeArgs args

end

/-- An identifier that is no contextual word, reflection builtin or scalar type. -/
def isPlainName (name : Ident) : Bool :=
  name.text ∉ ["as", "borrow", "move", "await"] &&
    !isReflectionBuiltinCallee (.ident name) && (scalarTypeNameIdent (.ident name)).isNone

/-- The trees of the round trip. -/
inductive Plain : Expr → Prop
  | ident {id} (h : isPlainName id = true) : Plain (.ident id)
  | intLiteral (text) : Plain (.intLiteral text)
  | grouped {inner} (h : Plain inner) : Plain (.grouped inner)
  | unary (op) {value} (h : Plain value) : Plain (.unary op value)
  | deref {value} (h : Plain value) : Plain (.deref value)
  | addressOf {value} (h : Plain value) : Plain (.addressOf value)
  | binary (op) {left right} (hleft : Plain left) (hright : Plain right) :
      Plain (.binary op left right)
  | call {callee args} (hcallee : Plain callee) (hargs : ∀ arg ∈ args, Plain arg) :
      Plain (.call callee [] args)
  | index {base index} (hbase : Plain base) (hindex : Plain index) : Plain (.index base index)
  | member {base} (name) (hbase : Plain base) : Plain (.member base name)

/-- A plain tree whose operands are as tight as they have to be. -/
inductive Written : Expr → Prop
  | ident {id} (h : isPlainName id = true) : Written (.ident id)
  | intLiteral (text) : Written (.intLiteral text)
  | grouped {inner} (h : Written inner) : Written (.grouped inner)
  | unary (op) {value} (h : Written value) (ht : prefixOperandBp ≤ tightness value) :
      Written (.unary op value)
  | deref {value} (h : Written value) (ht : prefixOperandBp ≤ tightness value) :
      Written (.deref value)
  | addressOf {value} (h : Written value) (ht : prefixOperandBp ≤ tightness value) :
      Written (.addressOf value)
  | binary (op) {left right} (hleft : Written left) (hright : Written right)
      (htleft : bindingPower op ≤ tightness left) (htright : bindingPower op < tightness right) :
      Written (.binary op left right)
  | call {callee args} (hcallee : Written callee) (ht : prefixOperandBp < tightness callee)
      (hargs : ∀ arg ∈ args, Written arg) : Written (.call callee [] args)
  | index {base index} (hbase : Written base) (ht : prefixOperandBp < tightness base)
      (hindex : Written index) : Written (.index base index)
  | member {base} (name) (hbase : Written base) (ht : prefixOperandBp < tightness base) :
      Written (.member base name)

lemma tightness_fit {needed : ℕ} (h : needed ≤ prefixOperandBp + 1) (value : Expr) :
    needed ≤ tightness (fit needed value) := by
  rw [fit]
  split
  · exact h
  · omega

variable {value arg : Expr} {args : List Expr}

lemma written_fit (needed : ℕ) (h : Written value) : Written (fit needed value) := by
  rw [fit]
  split
  · exact .grouped h
  · exact h

lemma mem_parenthesizeArgs (h : arg ∈ parenthesizeArgs args) :
    ∃ arg' ∈ args, arg = parenthesize arg' := by
  induction args with
  | nil => simp [parenthesizeArgs] at h
  | cons first args ih =>
    rw [parenthesizeArgs] at h
    rcases List.mem_cons.mp h with rfl | h
    · exact ⟨first, List.mem_cons_self, rfl⟩
    · obtain ⟨arg', harg', heq⟩ := ih h
      exact ⟨arg', List.mem_cons_of_mem first harg', heq⟩

/-- **Parentheses where they are required make a tree that can be written.** -/
theorem written_parenthesize (h : Plain value) : Written (parenthesize value) := by
  have hpower : ∀ op, bindingPower op + 1 ≤ prefixOperandBp + 1 := fun op => by
    have hlt := bindingPower_lt op
    omega
  induction h with
  | ident h => exact .ident h
  | intLiteral text => exact .intLiteral text
  | grouped _ ih => exact .grouped ih
  | unary op _ ih => exact .unary op (written_fit _ ih) (tightness_fit (by omega) _)
  | deref _ ih => exact .deref (written_fit _ ih) (tightness_fit (by omega) _)
  | addressOf _ ih => exact .addressOf (written_fit _ ih) (tightness_fit (by omega) _)
  | binary op _ _ ihleft ihright =>
    refine .binary op (written_fit _ ihleft) (written_fit _ ihright)
      (tightness_fit ?_ _) (tightness_fit (hpower op) _)
    have hop := hpower op
    omega
  | call _ _ ihcallee ihargs =>
    refine .call (written_fit _ ihcallee) (tightness_fit (le_refl _) _) fun arg harg => ?_
    obtain ⟨arg', harg', rfl⟩ := mem_parenthesizeArgs harg
    exact ihargs arg' harg'
  | index _ _ ihbase ihindex =>
    exact .index (written_fit _ ihbase) (tightness_fit (le_refl _) _) ihindex
  | member name _ ihbase =>
    exact .member name (written_fit _ ihbase) (tightness_fit (le_refl _) _)

mutual

/-- The tree without its groups. -/
def ungroup : Expr → Expr
  | .grouped inner => ungroup inner
  | .unary op value => .unary op (ungroup value)
  | .deref value => .deref (ungroup value)
  | .addressOf value => .addressOf (ungroup value)
  | .binary op left right => .binary op (ungroup left) (ungroup right)
  | .call callee typeArgs args => .call (ungroup callee) typeArgs (ungroupArgs args)
  | .index base index => .index (ungroup base) (ungroup index)
  | .member base name => .member (ungroup base) name
  | value => value

def ungroupArgs : List Expr → List Expr
  | [] => []
  | arg :: args => ungroup arg :: ungroupArgs args

end

lemma ungroup_fit (needed : ℕ) (value : Expr) : ungroup (fit needed value) = ungroup value := by
  rw [fit]
  split
  · rw [ungroup]
  · rfl

lemma ungroupArgs_parenthesizeArgs (h : ∀ arg ∈ args, ungroup (parenthesize arg) = ungroup arg) :
    ungroupArgs (parenthesizeArgs args) = ungroupArgs args := by
  induction args with
  | nil => rfl
  | cons arg args ih =>
    rw [parenthesizeArgs, ungroupArgs, ungroupArgs, h arg List.mem_cons_self,
      ih fun other hother => h other (List.mem_cons_of_mem arg hother)]

/-- Parentheses are all that is added. -/
lemma ungroup_parenthesize (h : Plain value) :
    ungroup (parenthesize value) = ungroup value := by
  induction h with
  | ident _ | intLiteral _ => rfl
  | grouped _ ih => rw [parenthesize, ungroup, ungroup, ih]
  | unary op _ ih | deref _ ih | addressOf _ ih | member _ _ ih => rw [parenthesize, ungroup, ungroup, ungroup_fit, ih]
  | binary op _ _ ihleft ihright =>
    rw [parenthesize, ungroup, ungroup, ungroup_fit, ungroup_fit, ihleft, ihright]
  | call _ _ ihcallee ihargs =>
    rw [parenthesize, ungroup, ungroup, ungroup_fit, ihcallee, ungroupArgs_parenthesizeArgs ihargs]
  | index _ _ ihbase ihindex =>
    rw [parenthesize, ungroup, ungroup, ungroup_fit, ihbase, ihindex]

/-! ## Depth -/

mutual

/-- How many expressions deep the parser nests. -/
def nesting : Expr → ℕ
  | .grouped inner => nesting inner + 1
  | .unary _ value => nesting value + 1
  | .deref value => nesting value + 1
  | .addressOf value => nesting value + 1
  | .binary _ left right => max (nesting left) (nesting right + 1)
  | .call callee _ args => max (nesting callee) (nestingArgs args + 1)
  | .index base index => max (nesting base) (nesting index + 1)
  | .member base _ => nesting base
  | _ => 1

def nestingArgs : List Expr → ℕ
  | [] => 0
  | arg :: args => max (nesting arg) (nestingArgs args)

end

/-- The operators at the left edge, which one loop reads. -/
def spine : Expr → ℕ
  | .binary _ left _ => spine left + 1
  | _ => 0

/-- The postfixes at the end, which one loop reads. -/
def chain : Expr → ℕ
  | .call callee _ _ => chain callee + 1
  | .index base _ => chain base + 1
  | .member base _ => chain base + 1
  | _ => 0

mutual

/-- The longest loop of a tree. -/
def width : Expr → ℕ
  | .grouped inner => width inner
  | .unary _ value => width value
  | .deref value => width value
  | .addressOf value => width value
  | .binary _ left right => max (spine left + 1) (max (width left) (width right))
  | .call callee _ args => max (chain callee + 1) (max (width callee) (widthArgs args))
  | .index base index => max (chain base + 1) (max (width base) (width index))
  | .member base _ => max (chain base + 1) (width base)
  | _ => 0

def widthArgs : List Expr → ℕ
  | [] => 0
  | arg :: args => max (width arg) (widthArgs args)

end

lemma nesting_le_of_mem (h : arg ∈ args) :
    nesting arg ≤ nestingArgs args := by
  induction args with
  | nil => simp at h
  | cons first args ih =>
    rw [nestingArgs]
    rcases List.mem_cons.mp h with rfl | h
    · omega
    · have hle := ih h
      omega

lemma width_le_of_mem (h : arg ∈ args) :
    width arg ≤ widthArgs args := by
  induction args with
  | nil => simp at h
  | cons first args ih =>
    rw [widthArgs]
    rcases List.mem_cons.mp h with rfl | h
    · omega
    · have hle := ih h
      omega

end ModernC.Parser
