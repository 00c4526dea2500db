import Mathlib.Data.List.Nodup
import Mathlib.Data.List.Pairwise

/-!
# C identifiers of a module

The C identifiers that `lower_c_defs.zig` and `lower_c_emitter.zig` put at file scope for the
declarations of a module: typedef names, enumerators, the tag types and tag enumerators of
tagged unions, functions, globals and string-backing objects.  Derived identifiers are joined
with underscores, and reserved words are escaped by one; neither looks at the other names.

`Clash` says which pairs of declared names stand in each other's way, without a look at any
identifier.  In a module whose declared names are distinct (`NamesDistinct`), the identifiers are
distinct if and only if no names clash (`identifiersDistinct_iff_noClash`).
-/

namespace ModernC.Lower

/-! ## Reserved words -/

/-- The table of `c_identifier.zig`. -/
def reservedWords : List String :=
  ["auto", "break", "case", "char", "const",
    "continue", "default", "do", "double", "else",
    "enum", "extern", "float", "for", "goto",
    "if", "inline", "int", "long", "register",
    "restrict", "return", "short", "signed", "sizeof",
    "static", "struct", "switch", "typedef", "union",
    "unsigned", "void", "volatile", "while", "_Bool",
    "_Complex", "_Imaginary", "_Alignas", "_Alignof", "_Atomic",
    "_Generic", "_Noreturn", "_Static_assert", "_Thread_local", "__auto_type",
    "__asm__", "__attribute__", "__builtin_trap", "__builtin_memcpy", "__builtin_memcmp",
    "__builtin_va_list", "__builtin_va_start", "__builtin_va_copy", "__builtin_va_arg",
    "__builtin_va_end",
    "bool", "true", "false", "NULL", "offsetof",
    "size_t", "ptrdiff_t", "uintptr_t", "intptr_t", "uint8_t",
    "uint16_t", "uint32_t", "uint64_t", "int8_t", "int16_t",
    "int32_t", "int64_t", "UINT8_MAX", "UINT16_MAX", "UINT32_MAX",
    "UINT64_MAX", "UINTPTR_MAX", "INT8_MIN", "INT16_MIN", "INT32_MIN",
    "INT64_MIN", "INTPTR_MIN", "INT8_MAX", "INT16_MAX", "INT32_MAX",
    "INT64_MAX", "INTPTR_MAX", "CHAR_BIT", "MC_UNUSED", "MC_NORETURN",
    "MC_WEAK"]

def isReservedWord (name : String) : Bool := reservedWords.contains name

def cIdent (name : String) : String := if isReservedWord name then name ++ "_" else name

/-! ## Declarations -/

/-- A declaration with the names that its identifiers are made of.  `nominal` is a struct, a
C union, packed bits or an overlay union; a global owns string backings by their ordinals. -/
inductive Decl where
  | nominal (name : String)
  | enum (name : String) (cases : List String)
  | taggedUnion (name : String) (cases : List String)
  | function (name : String)
  | global (name : String) (backings : List ℕ)
deriving DecidableEq

namespace Decl

def name : Decl → String
  | nominal name => name
  | enum name _ => name
  | taggedUnion name _ => name
  | function name => name
  | global name _ => name

/-- The identifier of the declaration itself. -/
def ownIdentifier : Decl → String
  | function name => cIdent name
  | decl => decl.name

def tagType (unionName : String) : String := unionName ++ "Tag"

/-- What the derived identifiers of the declaration start with. -/
def stem : Decl → String
  | enum name _ => name
  | taggedUnion name _ => tagType name
  | global name _ => "mc_str_" ++ name
  | nominal name => name
  | function name => name

/-- The cases of the declaration, or the ordinals of its string backings. -/
def parts : Decl → List String
  | enum _ cases => cases
  | taggedUnion _ cases => cases
  | global _ backings => backings.map toString
  | nominal _ => []
  | function _ => []

def enumerator (stem part : String) : String := stem ++ "_" ++ part

/-- The identifiers that the emitter puts at file scope. -/
def identifiers : Decl → List String
  | nominal name => [name]
  | enum name cases => name :: cases.map (enumerator name)
  | taggedUnion name cases => tagType name :: cases.map (enumerator (tagType name)) ++ [name]
  | function name => [cIdent name]
  | global name backings =>
    backings.map (fun ordinal => enumerator ("mc_str_" ++ name) (toString ordinal)) ++ [name]

/-- The tag type of a tagged union. -/
def tagTypes : Decl → List String
  | taggedUnion name _ => [tagType name]
  | _ => []

end Decl

/-- The declarations of a module, and the names that share a scope below them: the fields of a
struct, the parameters and locals of a function. -/
structure Module where
  decls : List Decl
  scopes : List (List String)
deriving DecidableEq

def fileScopeIdentifiers (mod : Module) : List String := mod.decls.flatMap Decl.identifiers

/-- The declared names of a module are distinct, and so are the names of each scope, the cases
of each type and the ordinals of each global. -/
structure NamesDistinct (mod : Module) : Prop where
  names : (mod.decls.map Decl.name).Nodup
  parts : ∀ decl ∈ mod.decls, decl.parts.Nodup
  scopes : ∀ scope ∈ mod.scopes, scope.Nodup

/-- The C identifiers are as distinct as the names, and none that `cIdent` makes is reserved. -/
structure IdentifiersDistinct (mod : Module) : Prop where
  fileScope : (fileScopeIdentifiers mod).Nodup
  scopes : ∀ scope ∈ mod.scopes, (scope.map cIdent).Nodup
  unreserved : ∀ name, isReservedWord (cIdent name) = false

/-! ## Clashes -/

/-- What the emitter writes in front of a part of a declaration: the name of an enum, the name of a
union with `Tag` behind it, the name of a global with `mc_str_` in front of it. -/
inductive Fronts (mod : Module) : String → String → Prop
  | enumCase {name cases part} (enum_mem : .enum name cases ∈ mod.decls) (part_mem : part ∈ cases) :
      Fronts mod name part
  | tagCase {name cases part} (union_mem : .taggedUnion name cases ∈ mod.decls)
      (part_mem : part ∈ cases) : Fronts mod (name ++ "Tag") part
  | backing {name ordinals ordinal} (global_mem : .global name ordinals ∈ mod.decls)
      (ordinal_mem : ordinal ∈ ordinals) : Fronts mod ("mc_str_" ++ name) (toString ordinal)

/-- A pair of declared names that stand in the way of each other: one of them is longer than the
other by what the emitter joins to it.  The part that is joined to the shorter one then starts with
what the longer one is longer by. -/
inductive Clash (mod : Module) : Prop
  /-- A scope holds a reserved word and the same word with an underscore. -/
  | escapedInScope {scope word} (scope_mem : scope ∈ mod.scopes) (word_mem : word ∈ scope)
      (reserved : isReservedWord word = true) (escaped_mem : word ++ "_" ∈ scope)
  /-- A function is named by a reserved word, and another declaration by its escape. -/
  | escaped {word decl} (function_mem : .function word ∈ mod.decls) (decl_mem : decl ∈ mod.decls)
      (reserved : isReservedWord word = true) (name : decl.name = word ++ "_")
  /-- A declaration is named like a union, with `Tag` behind it. -/
  | tagNamed {name cases decl} (union_mem : .taggedUnion name cases ∈ mod.decls)
      (decl_mem : decl ∈ mod.decls) (tag : decl.name = name ++ "Tag")
  /-- A declaration has the name of another with a part behind it. -/
  | partNamed {front part other} (fronts : Fronts mod front part) (other_mem : other ∈ mod.decls)
      (name : other.name = front ++ "_" ++ part)
      (plain : ∀ word, other = .function word → isReservedWord word = false)
  /-- A function is named by a reserved word which a name with a part behind it is the escape of. -/
  | partEscapes {front part word} (fronts : Fronts mod front part)
      (function_mem : .function word ∈ mod.decls) (reserved : isReservedWord word = true)
      (name : (part = "" ∧ word = front) ∨ ∃ rest, part = rest ++ "_" ∧ word = front ++ "_" ++ rest)
  /-- A union has the name of another declaration with the start of a part behind it, and the part
  ends like the name of a tag type. -/
  | partTagged {front rest name cases} (fronts : Fronts mod front (rest ++ "Tag"))
      (union_mem : .taggedUnion name cases ∈ mod.decls) (tag : name = front ++ "_" ++ rest)
  /-- One name with the start of a part behind it is the other, which has the rest for a part. -/
  | partContinues {front rest part} (fronts : Fronts mod front (rest ++ "_" ++ part))
      (others : Fronts mod (front ++ "_" ++ rest) part)
  /-- An enum is named like the string backings of a global and has one of their ordinals. -/
  | enumOfBackings {name cases ordinals ordinal} (global_mem : .global name ordinals ∈ mod.decls)
      (ordinal_mem : ordinal ∈ ordinals) (enum_mem : .enum ("mc_str_" ++ name) cases ∈ mod.decls)
      (case_mem : toString ordinal ∈ cases)
  /-- A union is named like the string backings of a global whose name ends in `Tag`. -/
  | unionOfBackings {rest cases ordinals ordinal}
      (global_mem : .global (rest ++ "Tag") ordinals ∈ mod.decls) (ordinal_mem : ordinal ∈ ordinals)
      (union_mem : .taggedUnion ("mc_str_" ++ rest) cases ∈ mod.decls)
      (case_mem : toString ordinal ∈ cases)

/-! ## Escaping -/

lemma not_reserved_escaped {word : String} (h : isReservedWord word = true) :
    isReservedWord (word ++ "_") = false := by
  have hall : ∀ word ∈ reservedWords, isReservedWord (word ++ "_") = false := by decide +kernel
  exact hall word (List.contains_iff_mem.mp h)

lemma not_reserved_cIdent (name : String) : isReservedWord (cIdent name) = false := by
  rw [cIdent]
  split
  · exact not_reserved_escaped ‹_›
  · exact Bool.eq_false_iff.mpr ‹_›

lemma cIdent_of_reserved {name : String} (h : isReservedWord name = true) :
    cIdent name = name ++ "_" := if_pos h

lemma cIdent_of_not_reserved {name : String} (h : isReservedWord name = false) :
    cIdent name = name := by
  rw [cIdent, h, if_neg (by simp)]

/-- Two names with one identifier: one is reserved, and the other its escape. -/
lemma eq_or_escaped_of_cIdent_eq {left right : String} (h : cIdent left = cIdent right) :
    left = right ∨ isReservedWord left = true ∧ right = left ++ "_" ∨
      isReservedWord right = true ∧ left = right ++ "_" := by
  rcases hleft : isReservedWord left with - | -
  · rcases hright : isReservedWord right with - | -
    · rw [cIdent_of_not_reserved hleft, cIdent_of_not_reserved hright] at h
      exact .inl h
    · rw [cIdent_of_not_reserved hleft, cIdent_of_reserved hright] at h
      exact .inr (.inr ⟨rfl, h⟩)
  · rcases hright : isReservedWord right with - | -
    · rw [cIdent_of_reserved hleft, cIdent_of_not_reserved hright] at h
      exact .inr (.inl ⟨rfl, h.symm⟩)
    · rw [cIdent_of_reserved hleft, cIdent_of_reserved hright] at h
      exact .inl ((String.append_left_inj "_").mp h)

/-- The escapes of a scope are distinct unless it holds a word beside its escape. -/
lemma map_cIdent_nodup_iff {scope : List String} (h : scope.Nodup) :
    (scope.map cIdent).Nodup ↔
      ∀ word ∈ scope, isReservedWord word = true → word ++ "_" ∉ scope := by
  constructor
  · intro hnodup word hword hreserved hescaped
    have heq : cIdent word = cIdent (word ++ "_") := by
      rw [cIdent_of_reserved hreserved, cIdent_of_not_reserved (not_reserved_escaped hreserved)]
    have hsame := List.inj_on_of_nodup_map hnodup hword hescaped heq
    have hlength := congrArg String.length hsame
    simp at hlength
  · intro hscope
    refine h.map_on fun left hleft right hright heq => ?_
    rcases eq_or_escaped_of_cIdent_eq heq with hsame | ⟨hreserved, rfl⟩ | ⟨hreserved, rfl⟩
    · exact hsame
    · exact absurd hright (hscope left hleft hreserved)
    · exact absurd hleft (hscope right hright hreserved)

/-! ## The identifiers of one declaration -/

namespace Decl

lemma mem_identifiers {decl : Decl} {identifier : String} :
    identifier ∈ decl.identifiers ↔
      identifier ∈ decl.ownIdentifier :: decl.tagTypes ∨
        ∃ part ∈ decl.parts, enumerator decl.stem part = identifier := by
  cases decl with
  | nominal name => simp [identifiers, ownIdentifier, tagTypes, parts, Decl.name]
  | enum name cases =>
    simp [identifiers, ownIdentifier, tagTypes, parts, stem, Decl.name]
  | taggedUnion name cases =>
    simp only [identifiers, ownIdentifier, tagTypes, parts, stem, Decl.name, List.cons_append,
      List.mem_cons, List.mem_append, List.mem_map, List.not_mem_nil, or_false]
    grind
  | function name => simp [identifiers, ownIdentifier, tagTypes, parts]
  | global name backings =>
    simp only [identifiers, ownIdentifier, tagTypes, parts, stem, Decl.name, List.mem_cons,
      List.mem_append, List.mem_map, List.not_mem_nil, or_false, exists_exists_and_eq_and]
    exact or_comm

lemma enumerator_injective (stem : String) : Function.Injective (enumerator stem) :=
  fun _ _ h => (String.append_right_inj _).mp h

lemma length_enumerator (stem part : String) :
    (enumerator stem part).length = stem.length + 1 + part.length := by
  rw [enumerator, String.length_append, String.length_append]
  rfl

lemma length_tagType (unionName : String) : (tagType unionName).length = unionName.length + 3 := by
  rw [tagType, String.length_append]
  rfl

/-- A derived identifier is longer than what it starts with. -/
lemma ne_enumerator {identifier stem part : String} (h : identifier.length ≤ stem.length) :
    identifier ≠ enumerator stem part := by
  intro heq
  have hlength := congrArg String.length heq
  rw [length_enumerator] at hlength
  omega

lemma map_enumerator_nodup {parts : List String} (h : parts.Nodup) (stem : String) :
    (parts.map (enumerator stem)).Nodup := h.map (enumerator_injective stem)

/-- The identifiers of one declaration never clash. -/
lemma identifiers_nodup {decl : Decl} (h : decl.parts.Nodup) : decl.identifiers.Nodup := by
  cases decl with
  | nominal name => exact List.nodup_singleton name
  | enum name cases =>
    refine List.nodup_cons.mpr ⟨fun hmem => ?_, map_enumerator_nodup h name⟩
    obtain ⟨part, -, heq⟩ := List.mem_map.mp hmem
    exact ne_enumerator (Nat.le_refl _) heq.symm
  | taggedUnion name cases =>
    have hlength := length_tagType name
    have hname : name ∉ tagType name :: cases.map (enumerator (tagType name)) := by
      intro hmem
      rcases List.mem_cons.mp hmem with heq | hmem
      · have := congrArg String.length heq
        omega
      · obtain ⟨part, -, heq⟩ := List.mem_map.mp hmem
        exact ne_enumerator (by omega) heq.symm
    refine List.Nodup.append (List.nodup_cons.mpr ⟨fun hmem => ?_, map_enumerator_nodup h _⟩)
      (List.nodup_singleton name) (List.disjoint_singleton.mpr hname)
    obtain ⟨part, -, heq⟩ := List.mem_map.mp hmem
    exact ne_enumerator (Nat.le_refl _) heq.symm
  | function name => exact List.nodup_singleton _
  | global name backings =>
    have hbackings : (backings.map fun ordinal =>
        enumerator ("mc_str_" ++ name) (toString ordinal)).Nodup := by
      have hparts := map_enumerator_nodup h ("mc_str_" ++ name)
      rwa [parts, List.map_map] at hparts
    refine List.Nodup.append hbackings (List.nodup_singleton name)
      (List.disjoint_singleton.mpr fun hmem => ?_)
    obtain ⟨ordinal, -, heq⟩ := List.mem_map.mp hmem
    refine ne_enumerator ?_ heq.symm
    rw [String.length_append]
    omega

end Decl

/-! ## Joined names -/

namespace Decl

lemma toList_enumerator (front part : String) :
    (enumerator front part).toList = front.toList ++ '_' :: part.toList := by
  simp [enumerator]

/-- Of two names joined in different ways one is longer. -/
lemma eq_or_continues {front part front' part' : String}
    (h : enumerator front part = enumerator front' part') :
    (front = front' ∧ part = part') ∨
      (∃ rest, front' = front ++ "_" ++ rest ∧ part = rest ++ "_" ++ part') ∨
      ∃ rest, front = front' ++ "_" ++ rest ∧ part' = rest ++ "_" ++ part := by
  have hlist := congrArg String.toList h
  rw [toList_enumerator, toList_enumerator] at hlist
  rcases List.append_eq_append_iff.mp hlist with ⟨more, hfront, hpart⟩ | ⟨more, hfront, hpart⟩
  · rcases more with _ | ⟨c, rest⟩
    · obtain ⟨-, hpart⟩ := List.cons.inj hpart
      rw [List.append_nil] at hfront
      exact .inl ⟨(String.toList_inj.mp hfront).symm, String.toList_inj.mp hpart⟩
    · obtain ⟨rfl, hpart⟩ := List.cons.inj hpart
      refine .inr (.inl ⟨String.ofList rest, String.toList_inj.mp ?_, String.toList_inj.mp ?_⟩)
      · simpa using hfront
      · simpa using hpart
  · rcases more with _ | ⟨c, rest⟩
    · obtain ⟨-, hpart⟩ := List.cons.inj hpart
      rw [List.append_nil] at hfront
      exact .inl ⟨String.toList_inj.mp hfront, (String.toList_inj.mp hpart).symm⟩
    · obtain ⟨rfl, hpart⟩ := List.cons.inj hpart
      refine .inr (.inr ⟨String.ofList rest, String.toList_inj.mp ?_, String.toList_inj.mp ?_⟩)
      · simpa using hfront
      · simpa using hpart

/-- A joined name ends in `Tag` if its part does. -/
lemma continues_of_tagType {front part unionName : String}
    (h : enumerator front part = tagType unionName) :
    ∃ rest, part = rest ++ "Tag" ∧ unionName = front ++ "_" ++ rest := by
  have hlist := congrArg String.toList h
  rw [toList_enumerator, tagType, String.toList_append] at hlist
  rcases List.append_eq_append_iff.mp hlist with ⟨more, hname, hpart⟩ | ⟨more, -, hpart⟩
  · rcases more with _ | ⟨c, rest⟩
    · exact absurd (List.cons.inj hpart).1 (by decide)
    · obtain ⟨rfl, hpart⟩ := List.cons.inj hpart
      refine ⟨String.ofList rest, String.toList_inj.mp ?_, String.toList_inj.mp ?_⟩
      · simpa using hpart
      · simpa using hname
  · have hmem : '_' ∈ "Tag".toList := hpart ▸ List.mem_append_right more List.mem_cons_self
    exact absurd hmem (by decide)

/-- A joined name ends in an underscore if its part does or is empty. -/
lemma continues_of_escape {front part word : String} (h : enumerator front part = word ++ "_") :
    (part = "" ∧ word = front) ∨ ∃ rest, part = rest ++ "_" ∧ word = front ++ "_" ++ rest := by
  have hjoined : enumerator front part = enumerator word "" := by
    rw [h]
    simp [enumerator]
  rcases eq_or_continues hjoined with ⟨rfl, rfl⟩ | ⟨rest, rfl, rfl⟩ | ⟨rest, -, hempty⟩
  · exact .inl ⟨rfl, rfl⟩
  · exact .inr ⟨rest, by simp, rfl⟩
  · have hlength := congrArg String.length hempty
    rw [String.length_append, String.length_append] at hlength
    exact absurd hlength (by rw [show "_".length = 1 from rfl, show "".length = 0 from rfl]; omega)

/-- No reserved word and no escape ends like the name of a tag type. -/
lemma ne_tagType_of_reserved {word unionName : String} (h : isReservedWord word = true) :
    word ≠ tagType unionName ∧ word ++ "_" ≠ tagType unionName := by
  have hlast : ∀ word ∈ reservedWords, word.toList.getLast? ≠ some 'g' ∨
      word.toList.dropLast.getLast? ≠ some 'a' := by decide +kernel
  constructor
  · rintro rfl
    have hends := hlast _ (List.contains_iff_mem.mp h)
    simp [tagType] at hends
  · intro heq
    have hends := congrArg (fun s => s.toList.getLast?) heq
    simp [tagType] at hends

/-- The backings of a global and the enumerators of a union start alike. -/
lemma backing_eq_tagType {name unionName : String} (h : "mc_str_" ++ name = tagType unionName) :
    ∃ rest, name = rest ++ "Tag" ∧ unionName = "mc_str_" ++ rest := by
  have hlist := congrArg String.toList h
  rw [tagType, String.toList_append, String.toList_append] at hlist
  rcases List.append_eq_append_iff.mp hlist with ⟨more, hname, hrest⟩ | ⟨more, hname, hrest⟩
  · refine ⟨String.ofList more, String.toList_inj.mp ?_, String.toList_inj.mp ?_⟩
    · simpa using hrest
    · simpa using hname
  · rcases more with _ | ⟨c, more⟩
    · refine ⟨"", String.toList_inj.mp ?_, String.toList_inj.mp ?_⟩
      · simpa using hrest.symm
      · simpa using hname.symm
    · obtain ⟨rfl, -⟩ := List.cons.inj hrest
      have hmem : 'T' ∈ "mc_str_".toList := hname ▸ List.mem_append_right _ List.mem_cons_self
      exact absurd hmem (by decide)

end Decl

/-! ## Clashes between declarations -/

variable {mod : Module}

namespace Decl

/-- A declaration bears its name, unless it is a function named by a reserved word. -/
lemma ownIdentifier_eq (decl : Decl) :
    (decl.ownIdentifier = decl.name ∧
      ∀ word, decl = .function word → isReservedWord word = false) ∨
    ∃ word, decl = .function word ∧ isReservedWord word = true ∧
      decl.ownIdentifier = word ++ "_" := by
  cases decl with
  | function word =>
    rcases hreserved : isReservedWord word with - | -
    · exact .inl ⟨cIdent_of_not_reserved hreserved, fun _ h => function.inj h ▸ hreserved⟩
    · exact .inr ⟨word, rfl, hreserved, cIdent_of_reserved hreserved⟩
  | _ => exact .inl ⟨rfl, nofun⟩

lemma ownIdentifier_of_plain {decl : Decl}
    (h : ∀ word, decl = .function word → isReservedWord word = false) :
    decl.ownIdentifier = decl.name := by
  rcases decl.ownIdentifier_eq with hown | ⟨word, hdecl, hreserved, -⟩
  · exact hown.1
  · exact absurd hreserved (Bool.eq_false_iff.mp (h word hdecl))

lemma mem_tagTypes {decl : Decl} {identifier : String} (h : identifier ∈ decl.tagTypes) :
    ∃ name cases, decl = .taggedUnion name cases ∧ identifier = tagType name := by
  cases decl with
  | taggedUnion name cases => exact ⟨name, cases, rfl, List.mem_singleton.mp h⟩
  | _ => cases h

lemma length_name_le_stem (decl : Decl) : decl.name.length ≤ decl.stem.length := by
  cases decl with
  | taggedUnion name cases => exact (length_tagType name).symm ▸ Nat.le_add_right _ 3
  | global name ordinals =>
    rw [stem, String.length_append]
    exact Nat.le_add_left _ _
  | _ => exact Nat.le_refl _

end Decl

variable {left right : Decl} {identifier front part front' part' : String}

lemma fronts_of_part (hdecl : left ∈ mod.decls) (hpart : part ∈ left.parts) :
    Fronts mod left.stem part := by
  cases left with
  | enum name cases => exact .enumCase hdecl hpart
  | taggedUnion name cases => exact .tagCase hdecl hpart
  | global name ordinals =>
    obtain ⟨ordinal, hordinal, rfl⟩ := List.mem_map.mp hpart
    exact .backing hdecl hordinal
  | _ => cases hpart

lemma Fronts.exists_decl (h : Fronts mod front part) :
    ∃ decl ∈ mod.decls, part ∈ decl.parts ∧ decl.stem = front := by
  cases h with
  | enumCase henum hpart => exact ⟨_, henum, hpart, rfl⟩
  | tagCase hunion hpart => exact ⟨_, hunion, hpart, rfl⟩
  | backing hglobal hordinal => exact ⟨_, hglobal, List.mem_map_of_mem hordinal, rfl⟩

/-- Two declarations with one own identifier: a reserved word and its escape. -/
lemma clash_of_ownIdentifier (hleft : left ∈ mod.decls)
    (hright : right ∈ mod.decls) (hname : left.name ≠ right.name)
    (h : left.ownIdentifier = right.ownIdentifier) : Clash mod := by
  rcases left.ownIdentifier_eq with ⟨hown, -⟩ | ⟨word, rfl, hreserved, hown⟩
  · rcases right.ownIdentifier_eq with ⟨hown', -⟩ | ⟨word, rfl, hreserved, hown'⟩
    · exact absurd (hown.symm.trans (h.trans hown')) hname
    · exact .escaped hright hleft hreserved (hown.symm.trans (h.trans hown'))
  · rcases right.ownIdentifier_eq with ⟨hown', -⟩ | ⟨word', rfl, -, hown'⟩
    · exact .escaped hleft hright hreserved (hown'.symm.trans (h.symm.trans hown))
    · have hwords := hown.symm.trans (h.trans hown')
      exact absurd ((String.append_left_inj "_").mp hwords) hname

/-- A declaration with the identifier of a tag type bears its name. -/
lemma clash_of_tagType (hleft : left ∈ mod.decls) (hright : right ∈ mod.decls)
    (h : right.ownIdentifier ∈ left.tagTypes) : Clash mod := by
  obtain ⟨name, cases, rfl, htag⟩ := Decl.mem_tagTypes h
  rcases right.ownIdentifier_eq with ⟨hown, -⟩ | ⟨word, rfl, hreserved, hown⟩
  · exact .tagNamed hleft hright (hown.symm.trans htag)
  · exact absurd (hown.symm.trans htag) (Decl.ne_tagType_of_reserved hreserved).2

/-- A declaration whose own identifier or tag type is a joined name. -/
lemma clash_of_joined (hfronts : Fronts mod front part) (hright : right ∈ mod.decls)
    (h : Decl.enumerator front part ∈ right.ownIdentifier :: right.tagTypes) : Clash mod := by
  rcases List.mem_cons.mp h with heq | htag
  · rcases right.ownIdentifier_eq with ⟨hown, hplain⟩ | ⟨word, rfl, hreserved, hown⟩
    · exact .partNamed hfronts hright (hown.symm.trans heq.symm) hplain
    · exact .partEscapes hfronts hright hreserved (Decl.continues_of_escape (heq.trans hown))
  · obtain ⟨name, cases, rfl, heq⟩ := Decl.mem_tagTypes htag
    obtain ⟨rest, rfl, hname⟩ := Decl.continues_of_tagType heq
    exact .partTagged hfronts hright hname

/-- Two declarations that write the same in front of the same part. -/
lemma clash_of_stem (hleft : left ∈ mod.decls) (hright : right ∈ mod.decls)
    (hname : left.name ≠ right.name) (hpart : part ∈ left.parts) (hpart' : part ∈ right.parts)
    (hstem : left.stem = right.stem) : Clash mod := by
  have htag : ∀ {enumName unionName enumCases unionCases},
      .enum enumName enumCases ∈ mod.decls → .taggedUnion unionName unionCases ∈ mod.decls →
      enumName = Decl.tagType unionName → Clash mod :=
    fun henum hunion h => .tagNamed hunion henum h
  have hbackings : ∀ {name unionName ordinals unionCases}, .global name ordinals ∈ mod.decls →
      .taggedUnion unionName unionCases ∈ mod.decls → part ∈ ordinals.map toString →
      part ∈ unionCases → "mc_str_" ++ name = Decl.tagType unionName → Clash mod := by
    intro name unionName ordinals unionCases hglobal hunion hordinals hcases h
    obtain ⟨rest, rfl, rfl⟩ := Decl.backing_eq_tagType h
    obtain ⟨ordinal, hordinal, rfl⟩ := List.mem_map.mp hordinals
    exact .unionOfBackings hglobal hordinal hunion hcases
  cases left with
  | nominal | function => cases hpart
  | enum name cases =>
    cases right with
    | nominal | function => cases hpart'
    | enum name' cases' => exact absurd hstem hname
    | taggedUnion name' cases' => exact htag hleft hright hstem
    | global name' ordinals =>
      obtain rfl : name = "mc_str_" ++ name' := hstem
      obtain ⟨ordinal, hordinal, rfl⟩ := List.mem_map.mp hpart'
      exact .enumOfBackings hright hordinal hleft hpart
  | taggedUnion name cases =>
    cases right with
    | nominal | function => cases hpart'
    | enum name' cases' => exact htag hright hleft hstem.symm
    | taggedUnion name' cases' => exact absurd ((String.append_left_inj "Tag").mp hstem) hname
    | global name' ordinals => exact hbackings hright hleft hpart' hpart hstem.symm
  | global name ordinals =>
    cases right with
    | nominal | function => cases hpart'
    | enum name' cases' =>
      obtain rfl : "mc_str_" ++ name = name' := hstem
      obtain ⟨ordinal, hordinal, rfl⟩ := List.mem_map.mp hpart
      exact .enumOfBackings hleft hordinal hright hpart'
    | taggedUnion name' cases' => exact hbackings hleft hright hpart hpart' hstem
    | global name' ordinals' => exact absurd ((String.append_right_inj "mc_str_").mp hstem) hname

/-- Two declarations with a common identifier clash. -/
lemma clash_of_common (hleft : left ∈ mod.decls) (hright : right ∈ mod.decls)
    (hname : left.name ≠ right.name)
    (hidentifier : identifier ∈ left.identifiers) (hidentifier' : identifier ∈ right.identifiers) :
    Clash mod := by
  rcases Decl.mem_identifiers.mp hidentifier with hown | ⟨part, hpart, rfl⟩
  · rcases Decl.mem_identifiers.mp hidentifier' with hown' | ⟨part, hpart, rfl⟩
    · rcases List.mem_cons.mp hown with rfl | htag
      · rcases List.mem_cons.mp hown' with heq | htag'
        · exact clash_of_ownIdentifier hleft hright hname heq
        · exact clash_of_tagType hright hleft htag'
      · rcases List.mem_cons.mp hown' with rfl | htag'
        · exact clash_of_tagType hleft hright htag
        · obtain ⟨name, cases, rfl, rfl⟩ := Decl.mem_tagTypes htag
          obtain ⟨name', cases', rfl, heq⟩ := Decl.mem_tagTypes htag'
          exact absurd ((String.append_left_inj "Tag").mp heq) hname
    · exact clash_of_joined (fronts_of_part hright hpart) hleft hown
  · have hfronts := fronts_of_part hleft hpart
    rcases Decl.mem_identifiers.mp hidentifier' with hown' | ⟨part', hpart', heq⟩
    · exact clash_of_joined hfronts hright hown'
    · have hfronts' := fronts_of_part hright hpart'
      rcases Decl.eq_or_continues heq.symm with ⟨hstem, rfl⟩ | ⟨rest, hstem, rfl⟩ |
        ⟨rest, hstem, rfl⟩
      · exact clash_of_stem hleft hright hname hpart hpart' hstem
      · exact .partContinues hfronts (hstem ▸ hfronts')
      · exact .partContinues hfronts' (hstem ▸ hfronts)

/-- Different declarations of a module without repeated identifiers share none. -/
lemma not_mem_identifiers (hnodup : (fileScopeIdentifiers mod).Nodup)
    (hleft : left ∈ mod.decls) (hright : right ∈ mod.decls) (hne : left ≠ right)
    (hidentifier : identifier ∈ left.identifiers) :
    identifier ∉ right.identifiers := by
  have hdisjoint := (List.nodup_flatMap.mp hnodup).2
  have hsymm : Std.Symm (Function.onFun List.Disjoint Decl.identifiers) :=
    ⟨fun _ _ h => List.disjoint_symm h⟩
  exact hdisjoint.forall hleft hright hne hidentifier

lemma ownIdentifier_mem (decl : Decl) : decl.ownIdentifier ∈ decl.identifiers :=
  Decl.mem_identifiers.mpr (.inl (.head _))

lemma enumerator_mem {decl : Decl} {part : String} (h : part ∈ decl.parts) :
    Decl.enumerator decl.stem part ∈ decl.identifiers :=
  Decl.mem_identifiers.mpr (.inr ⟨part, h, rfl⟩)

lemma plain_mem {decl : Decl}
    (h : identifier ∈ decl.ownIdentifier :: decl.tagTypes) : identifier ∈ decl.identifiers :=
  Decl.mem_identifiers.mpr (.inl h)

/-- A part that continues a name has an identifier of its own. -/
lemma Fronts.exists_identifier (h : Fronts mod front part) :
    ∃ decl ∈ mod.decls, decl.parts ≠ [] ∧ decl.stem = front ∧
      Decl.enumerator front part ∈ decl.identifiers := by
  obtain ⟨decl, hdecl, hpart, rfl⟩ := h.exists_decl
  exact ⟨decl, hdecl, List.ne_nil_of_mem hpart, rfl, enumerator_mem hpart⟩

/-- A clash is a repeated identifier. -/
lemma exists_common_of_clash (h : Clash mod) (hdistinct : NamesDistinct mod)
    (hscopes : ∀ scope ∈ mod.scopes, (scope.map cIdent).Nodup) :
    ∃ left ∈ mod.decls, ∃ right ∈ mod.decls, left ≠ right ∧
      ∃ identifier ∈ left.identifiers, identifier ∈ right.identifiers := by
  have hlonger : ∀ (decl : Decl) {part : String}, decl.name ≠ Decl.enumerator decl.stem part :=
    fun decl {part} => Decl.ne_enumerator decl.length_name_le_stem
  -- each form of clash names the two declarations that share an identifier
  cases h with
  | escapedInScope hscope hword hreserved hescaped =>
    have hnone := (map_cIdent_nodup_iff (hdistinct.scopes _ hscope)).mp (hscopes _ hscope)
    exact absurd hescaped (hnone _ hword hreserved)
  | @escaped word decl hfunction hdecl hreserved hname =>
    have hplain : ∀ other, decl = .function other → isReservedWord other = false := by
      rintro other rfl
      exact (show other = word ++ "_" from hname) ▸ not_reserved_escaped hreserved
    refine ⟨_, hfunction, decl, hdecl, ?_, word ++ "_", ?_, ?_⟩
    · rintro rfl
      have hlength := congrArg String.length hname
      simp [Decl.name] at hlength
    · exact cIdent_of_reserved hreserved ▸ ownIdentifier_mem (.function word)
    · exact hname ▸ Decl.ownIdentifier_of_plain hplain ▸ ownIdentifier_mem decl
  | @tagNamed name cases decl hunion hdecl htag =>
    have hplain : ∀ word, decl = .function word → isReservedWord word = false := by
      rintro word rfl
      by_contra hreserved
      exact (Decl.ne_tagType_of_reserved (Bool.not_eq_false _ ▸ hreserved)).1 htag
    refine ⟨_, hunion, decl, hdecl, ?_, Decl.tagType name, plain_mem (.tail _ (.head _)), ?_⟩
    · rintro rfl
      have hlength := congrArg String.length htag
      simp [Decl.name] at hlength
    · have hown : decl.ownIdentifier = Decl.tagType name :=
        (Decl.ownIdentifier_of_plain hplain).trans htag
      exact hown ▸ ownIdentifier_mem decl
  | @partNamed front part other hfronts hother hname hplain =>
    obtain ⟨decl, hdecl, -, rfl, hidentifier⟩ := hfronts.exists_identifier
    refine ⟨decl, hdecl, other, hother, ?_, _, hidentifier, ?_⟩
    · rintro rfl
      exact hlonger _ hname
    · have hown : other.ownIdentifier = Decl.enumerator decl.stem part :=
        (Decl.ownIdentifier_of_plain hplain).trans hname
      exact hown ▸ ownIdentifier_mem other
  | @partEscapes front part word hfronts hfunction hreserved hname =>
    obtain ⟨decl, hdecl, hparts, rfl, hidentifier⟩ := hfronts.exists_identifier
    refine ⟨decl, hdecl, _, hfunction, ?_, _, hidentifier, ?_⟩
    · rintro rfl
      exact hparts rfl
    · have hown : Decl.enumerator decl.stem part = (Decl.function word).ownIdentifier := by
        rw [Decl.ownIdentifier, cIdent_of_reserved hreserved]
        rcases hname with ⟨rfl, rfl⟩ | ⟨rest, rfl, rfl⟩
        · simp [Decl.enumerator]
        · simp [Decl.enumerator, String.append_assoc]
      exact hown ▸ ownIdentifier_mem _
  | @partTagged front rest name cases hfronts hunion htag =>
    obtain ⟨decl, hdecl, -, rfl, hidentifier⟩ := hfronts.exists_identifier
    refine ⟨decl, hdecl, _, hunion, ?_, _, hidentifier, ?_⟩
    · rintro rfl
      exact hlonger (.taggedUnion name cases) htag
    · refine plain_mem (.tail _ (List.mem_singleton.mpr ?_))
      rw [htag, Decl.enumerator, Decl.tagType, String.append_assoc, String.append_assoc,
        String.append_assoc]
  | @partContinues front rest part hfronts hothers =>
    obtain ⟨decl, hdecl, -, rfl, hidentifier⟩ := hfronts.exists_identifier
    obtain ⟨other, hother, -, hstem, hidentifier'⟩ := hothers.exists_identifier
    refine ⟨decl, hdecl, other, hother, ?_, _, hidentifier, ?_⟩
    · rintro rfl
      exact Decl.ne_enumerator (Nat.le_refl _) hstem
    · have hjoined : Decl.enumerator decl.stem (rest ++ "_" ++ part) =
          Decl.enumerator (decl.stem ++ "_" ++ rest) part := by
        simp [Decl.enumerator, String.append_assoc]
      exact hjoined ▸ hidentifier'
  | enumOfBackings hglobal hordinal henum hcase =>
    exact ⟨_, hglobal, _, henum, nofun, _, enumerator_mem (List.mem_map_of_mem hordinal),
      enumerator_mem hcase⟩
  | @unionOfBackings rest cases ordinals ordinal hglobal hordinal hunion hcase =>
    refine ⟨_, hglobal, _, hunion, nofun, _, enumerator_mem (List.mem_map_of_mem hordinal), ?_⟩
    have hstem : "mc_str_" ++ (rest ++ "Tag") = Decl.tagType ("mc_str_" ++ rest) :=
      String.append_assoc.symm
    rw [Decl.stem, hstem]
    have hmem : Decl.enumerator (Decl.tagType ("mc_str_" ++ rest)) _ ∈
        (Decl.taggedUnion ("mc_str_" ++ rest) cases).identifiers := enumerator_mem hcase
    exact hmem

lemma not_distinct_of_clash (h : Clash mod) (hdistinct : NamesDistinct mod) :
    ¬ IdentifiersDistinct mod := by
  intro hidentifiers
  obtain ⟨left, hleft, right, hright, hne, identifier, hmem, hmem'⟩ :=
    exists_common_of_clash h hdistinct hidentifiers.scopes
  exact not_mem_identifiers hidentifiers.fileScope hleft hright hne hmem hmem'

/-- **Distinct names stay distinct** exactly when no two of them clash. -/
theorem identifiersDistinct_iff_noClash (hdistinct : NamesDistinct mod) :
    IdentifiersDistinct mod ↔ ¬ Clash mod := by
  constructor
  · intro hidentifiers hclash
    exact not_distinct_of_clash hclash hdistinct hidentifiers
  · intro hnone
    refine ⟨List.nodup_flatMap.mpr ⟨fun decl hdecl =>
      Decl.identifiers_nodup (hdistinct.parts decl hdecl), ?_⟩, fun scope hscope => ?_,
      not_reserved_cIdent⟩
    · refine (List.pairwise_map.mp hdistinct.names).imp_of_mem fun hleft hright hname => ?_
      intro identifier hidentifier hidentifier'
      exact hnone (clash_of_common hleft hright hname hidentifier hidentifier')
    · refine (map_cIdent_nodup_iff (hdistinct.scopes scope hscope)).mpr ?_
      intro word hword hreserved hescaped
      exact hnone (.escapedInScope hscope hword hreserved hescaped)

/-! ## An enumerator and a function -/

/-- `enum Color { Red }` and a function. -/
def colorAnd (function : String) : Module where
  decls := [.enum "Color" ["Red"], .function function]
  scopes := [["count", "index"]]

lemma colorAnd_namesDistinct {function : String} (h : "Color" ≠ function) :
    NamesDistinct (colorAnd function) where
  names := by simpa [colorAnd, Decl.name] using h
  parts := by simp [colorAnd, Decl.parts]
  scopes := by simp [colorAnd]

theorem colorAnd_paint_noClash : ¬ Clash (colorAnd "paint") :=
  (identifiersDistinct_iff_noClash (colorAnd_namesDistinct (by decide))).mp
    { fileScope := by decide
      scopes := by decide
      unreserved := not_reserved_cIdent }

/-- **A function named like an enumerator.** -/
theorem namesDistinct_not_identifiersDistinct :
    ¬ ∀ mod : Module, NamesDistinct mod → IdentifiersDistinct mod := by
  intro hall
  have hidentifiers := hall (colorAnd "Color_Red") (colorAnd_namesDistinct (by decide))
  exact absurd hidentifiers.fileScope (by decide)

end ModernC.Lower
