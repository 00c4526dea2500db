import ModernC.Framework.Tables
import ModernC.Syntax.FreshNames
import ModernC.Syntax.Occurrences

/-!
# Mangling of private names

The files of a program share one table of names.  A name that only private functions and globals
of several files have gets a name of its own in each of these files, and the references in a file
follow.
-/

namespace ModernC.Syntax

open ModernC.Framework

inductive VisibilityMode where
  | legacyPubOptIn
  | explicitPublic
deriving DecidableEq

structure ModuleSet where
  decls : List Decl
  visibilityMode : VisibilityMode
  fileCount : ℕ

/-! ## Declarations -/

def declName (decl : Decl) : Ident :=
  match decl.kind with
  | .fnDecl node | .externFn node => node.name
  | .typeAlias node => node.name
  | .structDecl node => node.name
  | .enumDecl node => node.name
  | .unionDecl node => node.name
  | .packedBitsDecl node => node.name
  | .overlayUnionDecl node => node.name
  | .opaqueDecl name => name
  | .globalDecl node => node.name
  | .traitDecl node => node.name
  | .implTrait node => node.traitName

/-- The name that a declaration introduces; an `impl` introduces none. -/
def importableName (decl : Decl) : Option String :=
  match decl.kind with
  | .implTrait _ => none
  | _ => some (declName decl).text

def declIsPublic (decl : Decl) : Bool :=
  decl.isPub ||
    match decl.kind with
    | .fnDecl node => node.exported
    | .externFn _ => true
    | _ => false

/-- A function with a body or a global, without external linkage. -/
def isRenameable (decl : Decl) : Bool :=
  if decl.isPub then false
  else
    match decl.kind with
    | .fnDecl node => !node.exported && !node.isVariadic && node.body.isSome && node.abi.isNone
    | .globalDecl node => !node.exported && !node.isExtern
    | _ => false

def setDeclName (decl : Decl) (text : String) : Decl :=
  match decl.kind with
  | .fnDecl node => { decl with kind := .fnDecl { node with name := { node.name with text } } }
  | .globalDecl node =>
    { decl with kind := .globalDecl { node with name := { node.name with text } } }
  | _ => decl

namespace ModuleSet

variable (set : ModuleSet)

def originFileIndex (decl : Decl) : Option ℕ :=
  decl.fileId.filter fun file => decide (file < set.fileCount)

/-- The files whose declarations are private unless they are public. -/
def strictFiles : List ℕ :=
  match set.visibilityMode with
  | .explicitPublic => List.range set.fileCount
  | .legacyPubOptIn => (set.decls.filter Decl.isPub).filterMap set.originFileIndex

def privateHere (decl : Decl) : Bool :=
  (set.originFileIndex decl).any set.strictFiles.contains && !declIsPublic decl

/-! ## Names -/

/-- What is known of a name: whether a declaration keeps it, and the files of the others. -/
structure NameInfo where
  hasNonRenameable : Bool
  files : List ℕ

def declsNamed (name : String) : List Decl :=
  set.decls.filter fun decl => decide (importableName decl = some name)

def isMangleable (decl : Decl) : Bool := isRenameable decl && set.privateHere decl

def nameInfo (name : String) : NameInfo where
  hasNonRenameable := (set.declsNamed name).any fun decl => !set.isMangleable decl
  files := ((set.declsNamed name).filter set.isMangleable).filterMap set.originFileIndex

def spansTwoFiles : List ℕ → Bool
  | [] => false
  | first :: files => files.any (· != first)

def declaredNames : List String := set.decls.filterMap importableName

/-- The declared names in the order in which a hash table yields them. -/
structure NameOrder where
  names : List String
  nodup : names.Nodup
  mem_iff : ∀ name, name ∈ names ↔ name ∈ set.declaredNames

/-! ## The new names -/

/-- The names taken so far, and the new names by file and name. -/
structure Renaming where
  occupied : List String
  renames : Table (ℕ × String) String

def addRename (name : String) (state : Renaming) (file : ℕ) : Renaming :=
  let mangled := freshName state.occupied name file
  { occupied := mangled :: state.occupied
    renames :=
      if (state.renames.lookup (file, name)).isSome then state.renames
      else state.renames.insert (file, name) mangled }

def addName (state : Renaming) (name : String) : Renaming :=
  let info := set.nameInfo name
  if info.hasNonRenameable then state
  else if !spansTwoFiles info.files then state
  else info.files.foldl (addRename name) state

def renames (order : set.NameOrder) : Table (ℕ × String) String :=
  if set.fileCount < 2 then ∅
  else if set.strictFiles.isEmpty then ∅
  else (order.names.foldl set.addName ⟨order.names, ∅⟩).renames

/-! ## The transform -/

/-- An identifier is renamed unless a binding around it has its name; patterns are left alone. -/
def renameIdent (renames : Table (ℕ × String) String) (file : ℕ) (place : Place)
    (name : String) : String :=
  if place.inPattern then name
  else if place.bound.contains name then name
  else (renames.lookup (file, name)).getD name

def renameDecl (renames : Table (ℕ × String) String) (file : ℕ) (decl : Decl) : Decl :=
  match renames.lookup (file, (declName decl).text) with
  | some mangled => setDeclName decl mangled
  | none => decl

/-- Only declarations in a file with new names change. -/
def mangleDecl (renames : Table (ℕ × String) String) (decl : Decl) : Decl :=
  match set.originFileIndex decl with
  | none => decl
  | some file =>
    if renames.keys.any fun key => key.1 == file then
      (walkDecl (renameWalk (renameIdent renames file)) (renameDecl renames file decl)).value
    else decl

def transformDeclsForFiles (order : set.NameOrder) : List Decl :=
  set.decls.map (set.mangleDecl (set.renames order))

end ModuleSet

end ModernC.Syntax

/-!
## What becomes of private names

Each file that declares a mangled name gets a fresh name for it, the same whatever the order in
which the names are looked at.  The references follow the declarations, provided that they are
identifiers outside patterns, that no binding captures the fresh name and that nothing undeclared
is spelled like one.
-/

namespace ModernC.Syntax

open ModernC.Framework

namespace ModuleSet

variable (set : ModuleSet)

/-! ## The table of new names -/

/-- The name is declared in two files or more, and in each only privately. -/
def IsMangled (name : String) : Prop :=
  2 ≤ set.fileCount ∧ set.strictFiles.isEmpty = false ∧
    (set.nameInfo name).hasNonRenameable = false ∧
    spansTwoFiles (set.nameInfo name).files = true

/-- The declarations of the name in the file get a new name. -/
def RenamedIn (file : ℕ) (name : String) : Prop :=
  set.IsMangled name ∧ file ∈ (set.nameInfo name).files

/-- What holds after some names have been renamed in some files. -/
structure Renamed (declared : List String) (done : ℕ → String → Prop) (state : Renaming) :
    Prop where
  taken : ∀ text ∈ declared, text ∈ state.occupied
  attempts : ∀ text ∈ state.occupied, text ∈ declared ∨
    ∃ file name attempt, done file name ∧ text = disambiguated (privateName name file) attempt
  given : ∀ file name, done file name →
    state.renames.lookup (file, name) = some (freshName declared name file)
  absent : ∀ file name, ¬ done file name → state.renames.lookup (file, name) = none

variable {set}

variable {declared : List String}

lemma Renamed.congr {done done' : ℕ → String → Prop} {state : Renaming}
    (h : Renamed declared done state) (hdone : ∀ file name, done file name ↔ done' file name) :
    Renamed declared done' state := by
  have heq : done = done' := by
    funext file name
    exact propext (hdone file name)
  exact heq ▸ h

lemma mem_declaredNames_of_mem_files {file : ℕ} {name : String}
    (h : file ∈ (set.nameInfo name).files) : name ∈ set.declaredNames := by
  obtain ⟨decl, hdecl, -⟩ := List.mem_filterMap.mp h
  obtain ⟨hdecl, hname⟩ := List.mem_filter.mp (List.mem_filter.mp hdecl).1
  exact List.mem_filterMap.mpr ⟨decl, hdecl, of_decide_eq_true hname⟩

end ModuleSet

end ModernC.Syntax
