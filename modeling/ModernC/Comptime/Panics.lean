import ModernC.Comptime.Termination
import ModernC.Layout.Reflection

/-!
# Folding that reflects

A fold asks the checker for the layout of a type, and the checker folds the lengths of the arrays
in it.  These folds start in a scope of their own: all calls are left in it, but it does not
reflect. So every fold ends, although a reflection gets past the limit of calls once.  The main
results are `folding_terminates` and `folding_answers_iff`.
-/

namespace ModernC.Comptime

open Eval (ComptimeValue ComptimeFold)
open Framework Framework.GuardedRun
open Syntax (Expr TypeExpr Ident)

/-! ## The checker's reflection -/

/-- What the checker knows when it reflects. -/
structure ReflectEnv where
  decls : Layout.Decls
  constFns : Option (List (String × ComptimeFunction))
  constGlobals : Option (String → Option ComptimeValue)

/-- The scope that the length of an array is folded in. -/
def lengthScope (env : ReflectEnv) : ComptimeScope where
  funcs := env.constFns
  globals := env.constGlobals

/-- The number that a finished fold gives. -/
def usizeOfEnding : Ending ComptimeFold → Option ℕ
  | .done fold => Layout.usizeOf fold
  | _ => none

/-- `comptimeUsizeValue`, folded in a table of this depth. -/
def comptimeUsizeValue (floats : FloatHost) (depth : ℕ) (env : ReflectEnv) (expr : Expr) :
    Option ℕ :=
  if env.constFns.isNone && env.constGlobals.isNone then none
  else usizeOfEnding ((folders floats depth).foldComptimeExpr (lengthScope env) expr).ending

inductive ReflectionKind where
  | size
  | alignment
  | fieldOffset
  | fieldType
  | bitOffset
  | repr

def reflectionKind : Expr → Option ReflectionKind
  | .ident id =>
    if id.text = "size_of" ∨ id.text = "sizeof" then some .size
    else if id.text = "alignof" then some .alignment
    else if id.text = "field_offset" then some .fieldOffset
    else if id.text = "field_type" then some .fieldType
    else if id.text = "bit_offset" then some .bitOffset
    else if id.text = "repr_of" then some .repr
    else none
  | .grouped inner => reflectionKind inner
  | _ => none

def reflectionTypeExprFromArg : Expr → Option TypeExpr
  | .ident id => some (.name id)
  | .grouped inner => reflectionTypeExprFromArg inner
  | _ => none

def reflectionTypeFromCall (typeArgs : List TypeExpr) (args : List Expr) : Option TypeExpr :=
  match typeArgs, args with
  | [ty], _ => some ty
  | _, arg :: _ => reflectionTypeExprFromArg arg
  | _, [] => none

def enumLiteralName : Expr → Option String
  | .enumLiteral id => some id.text
  | .grouped inner => enumLiteralName inner
  | _ => none

def reflectionFieldFromCall (typeArgs : List TypeExpr) (args : List Expr) : Option String :=
  match typeArgs, args with
  | [_], [field] => enumLiteralName field
  | [_], _ => none
  | _, [_, field] => enumLiteralName field
  | _, _ => none

/-- The answer to a reflection call. -/
def comptimeReflect (decls : Layout.Decls) (comptime : Expr → Option ℕ) : Expr → Option ℤ
  | .call callee typeArgs args =>
    (reflectionKind callee).bind fun kind =>
      (reflectionTypeFromCall typeArgs args).bind fun ty =>
        match kind with
        | .size => Layout.Sema.comptimeSizeOf decls comptime ty 0
        | .alignment => Layout.Sema.comptimeAlignOf decls comptime ty 0
        | .fieldOffset =>
          (reflectionFieldFromCall typeArgs args).bind fun field =>
            Layout.Sema.comptimeFieldOffset decls comptime ty field 0
        | .bitOffset =>
          (reflectionFieldFromCall typeArgs args).bind fun field =>
            Layout.Sema.comptimeBitOffset decls comptime ty field 0
        | .repr => Layout.Sema.comptimeReprOf decls comptime ty 0
        | .fieldType => none
  | _ => none

/-- `comptimeReflectThunk`, whose lengths are folded in a table of this depth. -/
def checkerReflection (floats : FloatHost) (depth : ℕ) (env : ReflectEnv) : Expr → Option ℤ :=
  comptimeReflect env.decls (comptimeUsizeValue floats depth env)

/-! ## Termination -/

/-- From a depth on, a run is always the same, and it ends. -/
def SettlesAt {α : Type} (depth : ℕ) (run : ℕ → Run α) : Prop :=
  ∀ n, depth < n → run n = run (depth + 1) ∧ (run n).ending ≠ .unfinished

lemma settlesAt_of_agree {α : Type} {post : α → Prop} {depth : ℕ} {run : ℕ → Run α}
    (h : ∀ n, depth < n → Agree post (run (depth + 1)) (run n)) : SettlesAt depth run := by
  intro n hn
  obtain ⟨heq, hends⟩ := h n hn
  exact ⟨heq.symm, heq ▸ hends.1⟩

/-- `while true {}`. -/
def endlessLoop : Syntax.Stmt := .loop .whileLoop none none (some (.boolLiteral true)) []

/-- **Every fold ends**, within twice its size and, for every call that is left, twice the size of
the registered bodies.  The lengths that a reflection folds do so too; they have all calls left, and
do not reflect again. -/
theorem folding_terminates (floats : FloatHost) (scope : ComptimeScope) (env : ReflectEnv) :
    (∀ expr, SettlesAt (foldingDepth scope (sizeOf expr))
      fun n => (folders floats n).foldComptimeExpr scope expr) ∧
    (∀ expr ty, SettlesAt (foldingDepth scope (sizeOf expr) + 1)
      fun n => (folders floats n).foldComptimeExprExpected scope expr ty) ∧
    (∀ body, SettlesAt (foldingDepth scope (sizeOf body))
      fun n => (folders floats n).foldComptimeStmtSeq scope body) ∧
    (∀ expr n, foldingDepth (lengthScope env) (sizeOf expr) < n →
      comptimeUsizeValue floats n env expr =
        comptimeUsizeValue floats (foldingDepth (lengthScope env) (sizeOf expr) + 1) env expr) ∧
    callsLeft (lengthScope env) = comptimeCallFuel ∧ (lengthScope env).reflect = none := by
  refine ⟨?_, ?_, ?_, fun expr n hn => ?_, rfl, rfl⟩
  · intro expr
    exact settlesAt_of_agree fun n hn =>
      (folders_agree floats hn scope).1 expr (Nat.lt_succ_self _)
  · intro expr ty
    exact settlesAt_of_agree fun n hn =>
      (folders_agree floats hn scope).2.1 expr ty (Nat.lt_succ_self _)
  · intro body
    exact settlesAt_of_agree fun n hn =>
      (folders_agree floats hn scope).2.2 body (Nat.lt_succ_self _)
  · obtain ⟨heq, -⟩ := (folders_agree floats hn (lengthScope env)).1 expr (Nat.lt_succ_self _)
    unfold comptimeUsizeValue
    rw [heq]

/-- A body that loops without end is folded to an end. -/
theorem folding_terminates_loop :
    ((folders default (foldingDepth {} (sizeOf [endlessLoop]) + 1)).foldComptimeStmtSeq {}
      [endlessLoop]).ending ≠ .unfinished :=
  ((folding_terminates default {} ⟨fun _ => none, none, none⟩).2.2.1 [endlessLoop] _
    (Nat.lt_succ_self _)).2

/-! ## Past the limit of calls -/

/-- A `const fn` without parameters that returns `3`. -/
def threeFunction : ComptimeFunction where
  params := []
  returnType := none
  body := some [.ret (some (.intLiteral "3"))]

/-- `g()`. -/
def callOfThree : Expr := .call (.ident { text := "g" }) [] []

/-- `sizeof([g()]u8)`. -/
def sizeOfThreeBytes : Expr :=
  .call (.ident { text := "sizeof" }) [.array callOfThree (.name { text := "u8" })] []

def envOf (funcs : List (String × ComptimeFunction)) : ReflectEnv where
  decls := fun _ => none
  constFns := some funcs
  constGlobals := none

/-- A scope in which no calls are left. -/
def scopeAtLimit (floats : FloatHost) (depth : ℕ) (funcs : List (String × ComptimeFunction)) :
    ComptimeScope where
  funcs := some funcs
  callDepth := comptimeCallFuel
  reflect := some (checkerReflection floats depth (envOf funcs))

/-- The checker folds the length without regard to the limit. -/
lemma checkerReflection_sizeOfThreeBytes (floats : FloatHost) (depth : ℕ)
    (funcs : List (String × ComptimeFunction)) :
    checkerReflection floats depth (envOf funcs) sizeOfThreeBytes =
      (comptimeUsizeValue floats depth (envOf funcs) callOfThree).bind fun len =>
        Layout.comptimeArraySize len 1 := by
  have hbyte : Layout.Sema.comptimeSizeOf (envOf funcs).decls
      (comptimeUsizeValue floats depth (envOf funcs)) (.name { text := "u8" }) 1 = some 1 := by
    rw [Layout.Sema.comptimeSizeOf]
    rfl
  show Layout.Sema.comptimeSizeOf _ _ (.array callOfThree (.name { text := "u8" })) 0 = _
  rw [Layout.Sema.comptimeSizeOf, dif_neg (by decide)]
  simp only [hbyte, zero_add, Option.bind_eq_bind, Option.bind_some]
  rfl

/-- With no calls left, the call of the registered function is left to reflection. -/
lemma fold_sizeOfThreeBytes (funcs : List (String × ComptimeFunction)) :
    ((folders default 9).foldComptimeExpr (scopeAtLimit default 9 funcs) sizeOfThreeBytes).ending =
      .done (foldComptimeReflection (scopeAtLimit default 9 funcs) (.ident { text := "sizeof" })
        [.array callOfThree (.name { text := "u8" })] []) := rfl

lemma foldComptimeReflection_sizeOfThreeBytes (funcs : List (String × ComptimeFunction)) :
    foldComptimeReflection (scopeAtLimit default 9 funcs) (.ident { text := "sizeof" })
        [.array callOfThree (.name { text := "u8" })] [] =
      match checkerReflection default 9 (envOf funcs) sizeOfThreeBytes with
      | some value => .value (.int value)
      | none => .unknown := rfl

/-- **The limit of calls is not kept**: with no calls left, the body of a registered function still
decides what an expression folds to. -/
theorem limit_not_kept :
    ¬ ∀ (floats : FloatHost) (depth : ℕ) (funcs : List (String × ComptimeFunction)) (expr : Expr),
      ((folders floats depth).foldComptimeExpr (scopeAtLimit floats depth funcs) expr).ending =
        ((folders floats depth).foldComptimeExpr (scopeAtLimit floats depth []) expr).ending := by
  intro hlimit
  have heq := hlimit default 9 [("g", threeFunction)] sizeOfThreeBytes
  have hthree : comptimeUsizeValue default 9 (envOf [("g", threeFunction)]) callOfThree = some 3 :=
    rfl
  have hnone : comptimeUsizeValue default 9 (envOf []) callOfThree = none := rfl
  simp only [fold_sizeOfThreeBytes, foldComptimeReflection_sizeOfThreeBytes,
    checkerReflection_sizeOfThreeBytes, hthree, hnone, Option.bind_some, Option.bind_none] at heq
  cases heq

end ModernC.Comptime

/-!
## What stops the folder

A fold that has no answer stops the compiler.  It does so at three steps alone: the negation of the
least `i128` in a narrower signed type, the saturating shift of a negative `i128` to the left, and
the type of a call with more or fewer arguments than the function has parameters.
-/

namespace ModernC.Comptime

open Eval (ComptimeValue ComptimeFold)
open Framework Framework.GuardedRun
open Syntax (Expr TypeExpr Ident Stmt)

/-- A deep enough run answers exactly if it gets past all of its steps. -/
def AnswersIfSafe {α : Type} (depth : ℕ) (run : ℕ → Run α) : Prop :=
  ∀ n, depth < n → ((∃ result, (run n).ending = .done result) ↔ ∀ step ∈ (run n).steps, step.Safe)

lemma answersIfSafe_of_agree {α : Type} {post : α → Prop} {depth : ℕ} {run : ℕ → Run α}
    (h : ∀ n, depth < n → Agree post (run (depth + 1)) (run n)) : AnswersIfSafe depth run := by
  intro n hn
  exact exists_done_iff (settlesAt_of_agree h n hn).2

/-- **A fold has an answer** — a value, a trap or none that is known — **exactly if each of its
steps is safe**. -/
theorem folding_answers_iff (floats : FloatHost) (scope : ComptimeScope) :
    (∀ expr, AnswersIfSafe (foldingDepth scope (sizeOf expr))
      fun n => (folders floats n).foldComptimeExpr scope expr) ∧
    (∀ expr ty, AnswersIfSafe (foldingDepth scope (sizeOf expr) + 1)
      fun n => (folders floats n).foldComptimeExprExpected scope expr ty) ∧
    ∀ body, AnswersIfSafe (foldingDepth scope (sizeOf body))
      fun n => (folders floats n).foldComptimeStmtSeq scope body := by
  refine ⟨?_, ?_, ?_⟩
  · intro expr
    exact answersIfSafe_of_agree fun n hn =>
      (folders_agree floats hn scope).1 expr (Nat.lt_succ_self _)
  · intro expr ty
    exact answersIfSafe_of_agree fun n hn =>
      (folders_agree floats hn scope).2.1 expr ty (Nat.lt_succ_self _)
  · intro body
    exact answersIfSafe_of_agree fun n hn =>
      (folders_agree floats hn scope).2.2 body (Nat.lt_succ_self _)

/-- `-(-170141183460469231731687303715884105728)`. -/
def negatedMin : Expr :=
  .unary .neg (.grouped (.unary .neg (.intLiteral "170141183460469231731687303715884105728")))

/-- `-1 << 0`. -/
def shiftedNegative : Expr := .binary .shl (.unary .neg (.intLiteral "1")) (.intLiteral "0")

def typeNamed (name : String) : TypeExpr := .name { text := name }

/-- `const fn f(x: u8) -> u8 { return x; }`. -/
def identityFunction : ComptimeFunction where
  params := [{ name := { text := "x" }, ty := typeNamed "u8" }]
  returnType := some (typeNamed "u8")
  body := some [.ret (some (.ident { text := "x" }))]

/-- `switch f(1, 2) {}`. -/
def switchOnCall : Stmt :=
  .switch (.call (.ident { text := "f" }) [] [.intLiteral "1", .intLiteral "2"]) []

/-- **Folding stops the compiler** at each of the three steps. -/
theorem folding_panics :
    ((folders default 9).foldComptimeExprExpected {} negatedMin (typeNamed "i64")).ending =
      .panicked ∧
    ((folders default 9).foldComptimeExprExpected {} shiftedNegative
      (.generic { text := "sat" } [typeNamed "i128"])).ending = .panicked ∧
    ((folders default 9).foldComptimeStmtSeq { funcs := some [("f", identityFunction)] }
      [switchOnCall]).ending = .panicked := by
  decide +kernel

end ModernC.Comptime
