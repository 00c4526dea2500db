import ModernC.Syntax.ManglePrivate
import ModernC.Syntax.Rewriting

/-!
# Names after mangling

A name that no binding around it has stands for the declarations of the name in its own file, or
else for those of other files that are not private.
-/

namespace ModernC.Syntax

open ModernC.Framework

/-! ## Resolution -/

/-- What an occurrence of a name stands for: a binding around it, counted from the innermost, or
a declaration, by its index. -/
inductive Target where
  | bound (depth : ℕ)
  | declared (index : ℕ)

namespace ModuleSet

variable {set : ModuleSet}

/-- The files with new names. -/
def mangled (set : ModuleSet) (order : set.NameOrder) : ModuleSet :=
  { set with decls := set.transformDeclsForFiles order }

/-! ## Renamed declarations -/

variable {name : String} {decl : Decl}

/-- What a declaration shows to the other files, its name apart. -/
structure SameHeader (decl decl' : Decl) : Prop where
  fileId : decl'.fileId = decl.fileId
  isPub : decl'.isPub = decl.isPub
  isPublic : declIsPublic decl' = declIsPublic decl

lemma SameHeader.trans {decl' decl'' : Decl} (h : SameHeader decl decl')
    (h' : SameHeader decl' decl'') : SameHeader decl decl'' :=
  ⟨h'.fileId.trans h.fileId, h'.isPub.trans h.isPub, h'.isPublic.trans h.isPublic⟩

/-- Identifiers are renamed, and everything else is kept. -/
def renameRules (rename : Place → String → String) : Rules where
  ident place id out := out = .ident { id with text := rename place id.text }
  member _ _ base' name out := out = .member base' name
  call _ callee' typeArgs args out := out = .call callee' typeArgs args
  typeName _ id out := out = .name id
  generic base args out := out = .generic base args
  asmOutput _ name out := out = name

lemma follows_renameWalk (rename : Place → String → String) :
    (renameWalk rename).Follows (renameRules rename) where
  ident _ _ := rfl
  member _ _ _ := rfl
  callRewritten _ _ _ _ _ h := by cases h
  callKept _ _ _ _ _ := rfl
  typeName _ _ := rfl
  genericRewritten _ _ _ h := by cases h
  genericKept _ _ _ := rfl
  asmOutput _ _ := rfl

section

variable (order : set.NameOrder)

/-- In a file with new names a declaration is renamed, and from there on its identifiers are. -/
theorem rewrites_mangleDecl {file : ℕ} (hfile : set.originFileIndex decl = some file)
    (hkeys : ((set.renames order).keys.any fun key => key.1 == file) = true) :
    Rewrites (renameRules (renameIdent (set.renames order) file)) .top
      (.decls [renameDecl (set.renames order) file decl])
      (.decls [set.mangleDecl (set.renames order) decl]) := by
  have hmangled : set.mangleDecl (set.renames order) decl =
      (walkDecl (renameWalk (renameIdent (set.renames order) file))
        (renameDecl (set.renames order) file decl)).value := by
    rw [mangleDecl, hfile]
    exact if_pos hkeys
  rw [hmangled]
  exact rewrites_walkDecls (follows_renameWalk _) .top [renameDecl (set.renames order) file decl]

variable {file index : ℕ}

lemma RenamedIn.declared (h : set.RenamedIn file name) :
    name ∈ set.declaredNames :=
  mem_declaredNames_of_mem_files h.2

end

end ModuleSet

end ModernC.Syntax
