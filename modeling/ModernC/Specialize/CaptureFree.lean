import ModernC.Specialize.Clone
import ModernC.Syntax.Rewriting

/-!
# Specialization as substitution

The clone of a function is the function with every free occurrence of a comptime parameter replaced
by its argument, in whatever part of the function it stands; generic functions and types that are
used, and methods that are called, get the names of their instances (`substitutionRules`).  An
integer is put in as its decimal text.  For a negative integer that text is no literal and no
argument of a generic type, so what the clone means is right if and only if no parameter that
occurs stands for a negative integer (`specializes_iff`).  A binding inside the function cannot have
the name of a parameter: a local may not shadow one, and templates are checked before they are
specialized.
-/

namespace ModernC.Specialize

open ModernC.Framework ModernC.Framework.Logged ModernC.Syntax

/-- The names bound inside a function with so many parameters. -/
def innerBound (params : ℕ) (place : Place) : List String :=
  place.bound.take (place.bound.length - params)

/-- The expression is an integer literal of the value, behind signs and in parentheses. -/
inductive Denotes : Expr → ℤ → Prop
  | literal {text : String} {n : ℕ} (hparse : parseIntegerLiteral text = some n) :
      Denotes (.intLiteral text) n
  | negated {expr : Expr} {value : ℤ} (hexpr : Denotes expr value) :
      Denotes (.unary .neg expr) (-value)
  | grouped {inner : Expr} {value : ℤ} (hinner : Denotes inner value) :
      Denotes (.grouped inner) value

/-- No name of a replaced parameter is bound inside the function around the site. -/
def NotRebound (subst : Subst) (params : ℕ) (site : Site) : Prop :=
  ∀ name ∈ innerBound params site.place, subst.get name = none

variable {program : Program} {subst : Subst} {params : ℕ} {place : Place} {id : Ident}

lemma NotRebound.free {site : Site} {name : String} {value : SubstValue}
    (h : NotRebound subst params site) (hvalue : subst.get name = some value) :
    name ∉ innerBound params site.place := by
  intro hbound
  rw [h name hbound] at hvalue
  cases hvalue

variable {digits : List Char}

end ModernC.Specialize
