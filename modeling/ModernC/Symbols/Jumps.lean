import ModernC.Symbols.Recording

/-!
# Where the index jumps wrong

One stack of frames and one table serve the names of values and of types of all files.  So the
index jumps wrong where a local has the spelling of a type, where a loop variable or a type
parameter has the spelling of something else, and where the last declaration of a name is not the
one that the file sees.  `jumpsRight_iff_not_crossed` assumes of the files what the parser gives,
`WellSpanned`.
-/

namespace ModernC.Symbols

open ModernC.Framework
open Syntax (Decl ModuleSet declName importableName)

/-- The identifiers of all declarations, in the order of the text. -/
def identifiers (decls : List Decl) : List (Decl × Occurrence) :=
  decls.flatMap fun decl => (occurrencesOf decl).map fun occ => (decl, occ)

/-- The name is one of a parameter or local around the identifier, or of some declaration. -/
def Occurrence.known (decls : List Decl) (occ : Occurrence) : Bool :=
  occ.kept.isSome || (lastDecl decls occ.id.text).isSome

variable {set : ModuleSet} {decl : Decl} {occ : Occurrence}

variable {binding : Binding} {file : Option ℕ}

lemma mem_identifiers {decls : List Decl} :
    (decl, occ) ∈ identifiers decls ↔ decl ∈ decls ∧ occ ∈ occurrencesOf decl := by
  simp [identifiers]

end ModernC.Symbols
