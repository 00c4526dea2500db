import ModernC.Syntax.WalkRelations

/-!
# Occurrences of names

The occurrences of names in a declaration, in the order a walk meets them.  A walk that renames
identifiers renames their occurrences and changes nothing else about them.
-/

namespace ModernC.Syntax

open ModernC.Framework ModernC.Framework.Logged

/-- How a name is used. -/
inductive OccurrenceKind where
  | ident
  | typeName
  | asmOutput
  /-- The function that a method of an `impl` stands for. -/
  | linkage
deriving DecidableEq

structure Occurrence where
  kind : OccurrenceKind
  place : Place
  name : String
deriving DecidableEq

/-- The walk that changes nothing and notes every occurrence of a name. -/
def occurrenceWalk : Walk Occurrence where
  ident place id := do
    Logged.note ⟨.ident, place, id.text⟩
    pure (.ident id)
  member _ _ walked name := pure (.member walked name)
  call _ _ := pure none
  callee walked := pure walked
  typeName place id := do
    Logged.note ⟨.typeName, place, id.text⟩
    pure (.name id)
  generic _ _ := pure none
  asmOutput place name := do
    Logged.note ⟨.asmOutput, place, name.text⟩
    pure name

/-- The walk that renames identifiers. -/
def renameWalk (rename : Place → String → String) : Walk Empty :=
  { Walk.rebuild Empty with
    ident := fun place id => pure (.ident { id with text := rename place id.text }) }

/-- The functions that the methods of an `impl` stand for. -/
def linkageOccurrences (decl : Decl) : List Occurrence :=
  match decl.kind with
  | .implTrait node => node.methods.map fun method => ⟨.linkage, Place.top, method.mangled⟩
  | _ => []

/-- The names that occur in a declaration.  Names that can only stand for types and traits, in
bounds, as the head of a generic type or in an `impl`, are not among them. -/
def occurrencesOf (decl : Decl) : List Occurrence :=
  (walkDecl occurrenceWalk decl).log ++ linkageOccurrences decl

/-! ## Occurrences of a renamed tree -/

section

variable (rename : Place → String → String)

end

end ModernC.Syntax
