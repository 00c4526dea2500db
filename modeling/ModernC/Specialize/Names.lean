import Mathlib.Data.List.Infix
import ModernC.Framework.Tables
import ModernC.Syntax.Ast

/-!
# Names of instances

A use of a generic declaration is told apart by the declaration and the arguments.  Each gets a
name of its own, the declaration's followed by the arguments; a name that could be mistaken for
such a name is spelled out in hexadecimal digits instead.
-/

namespace ModernC.Specialize

/-- What a parameter of a generic declaration stands for. -/
inductive SubstValue where
  | int (value : ℤ)
  | typeName (name : String)
deriving DecidableEq

abbrev CanonicalGenericArg := SubstValue

structure GenericInstanceKey where
  genericName : String
  genericOffset : ℕ
  args : List CanonicalGenericArg
deriving DecidableEq

/-! ## Identifiers -/

def isIdentStart (c : Char) : Bool := c.isAlpha || c == '_'

def isIdentContinue (c : Char) : Bool := isIdentStart c || c.isDigit

def keywords : List String :=
  ["alignof", "asm", "assert", "atomic", "bool", "break", "closure", "comptime", "const",
    "continue", "defer", "else", "enum", "err", "export", "extern", "false", "fn", "for", "if",
    "let", "match", "mut", "never", "null", "ok", "open", "overlay", "packed", "pub", "return",
    "sat", "serial", "sizeof", "struct", "switch", "true", "type", "union", "uninit", "unsafe",
    "unreachable", "use", "var", "void", "while", "wrap"]

def isWord (text : String) : Bool := text.toList.all isIdentContinue

/-- The lexer reads the text as one identifier. -/
def isIdentifier (text : String) : Bool :=
  text.toList.head?.any isIdentStart && isWord text && !keywords.contains text

/-! ## Mangling -/

def genericNameNeedsEscaping (name : String) : Bool :=
  decide ("__".toList <:+: name.toList) || decide ("mcg_".toList <+: name.toList)

def hexBytes (text : String) : String :=
  String.ofList (text.toUTF8.toList.flatMap fun byte =>
    [Nat.digitChar (byte.toNat / 16), Nat.digitChar (byte.toNat % 16)])

def SubstValue.needsEscaping : SubstValue → Bool
  | .typeName name => genericNameNeedsEscaping name
  | .int _ => false

/-- The name of the instance is spelled out. -/
def isEscaped (base : String) (args : List CanonicalGenericArg) : Bool :=
  genericNameNeedsEscaping base || args.any SubstValue.needsEscaping

/-- What an argument adds to the name. -/
def mangleArg (escaped : Bool) : CanonicalGenericArg → String
  | .typeName name => if escaped then "__t_" ++ hexBytes name else "__" ++ name
  | .int value => if escaped then "__i_" ++ toString value else "__" ++ toString value

def mangleGenericInstance (base : String) (args : List CanonicalGenericArg) : String :=
  let escaped := isEscaped base args
  args.foldl (fun out arg => out ++ mangleArg escaped arg)
    (if escaped then "mcg_" ++ hexBytes base else base)

/-! ## Which names are identifiers -/

/-- An argument that adds only letters, digits and underscores to the name. -/
def SubstValue.isPlain (escaped : Bool) : SubstValue → Bool
  | .typeName name => escaped || isWord name
  | .int value => decide (0 ≤ value)

lemma isWord_append (left right : String) :
    isWord (left ++ right) = (isWord left && isWord right) := by
  rw [isWord, String.toList_append, List.all_append]
  rfl

lemma isIdentContinue_digitChar {digit : ℕ} (h : digit < 16) :
    isIdentContinue (Nat.digitChar digit) = true := by
  have hall : ∀ n ∈ List.range 16, isIdentContinue (Nat.digitChar n) = true := by decide
  exact hall digit (List.mem_range.mpr h)

lemma isWord_hexBytes (text : String) : isWord (hexBytes text) = true := by
  rw [isWord, hexBytes, String.toList_ofList, List.all_flatMap, List.all_eq_true]
  intro byte _
  have hbyte : byte.toNat < 256 := byte.toNat_lt
  rw [List.all_cons, List.all_cons, List.all_nil, isIdentContinue_digitChar (by omega),
    isIdentContinue_digitChar (by omega)]
  rfl

lemma isWord_toString (value : ℤ) : isWord (toString value) = decide (0 ≤ value) := by
  cases value with
  | ofNat n =>
    have hdigits : isWord n.repr = true := by
      rw [isWord, Nat.toList_repr, List.all_eq_true]
      intro c hc
      have hdigit := Nat.isDigit_of_mem_toDigits (by decide) (by decide) hc
      rw [isIdentContinue, hdigit, Bool.or_true]
    rw [decide_eq_true (show 0 ≤ Int.ofNat n from Int.natCast_nonneg n)]
    exact hdigits
  | negSucc n =>
    rw [decide_eq_false (by omega)]
    show isWord ("-" ++ (n + 1).repr) = false
    rw [isWord_append]
    rfl

lemma isWord_mangleArg (escaped : Bool) (arg : CanonicalGenericArg) :
    isWord (mangleArg escaped arg) = arg.isPlain escaped := by
  cases arg with
  | typeName name =>
    cases escaped with
    | true =>
      show isWord ("__t_" ++ hexBytes name) = true
      rw [isWord_append, isWord_hexBytes]
      rfl
    | false =>
      show isWord ("__" ++ name) = isWord name
      rw [isWord_append]
      rfl
  | int value =>
    cases escaped with
    | true =>
      show isWord ("__i_" ++ toString value) = decide (0 ≤ value)
      rw [isWord_append, isWord_toString]
      rfl
    | false =>
      show isWord ("__" ++ toString value) = decide (0 ≤ value)
      rw [isWord_append, isWord_toString]
      rfl

lemma toList_mangleArgs (escaped : Bool) (args : List CanonicalGenericArg) (init : String) :
    (args.foldl (fun out arg => out ++ mangleArg escaped arg) init).toList =
      init.toList ++ args.flatMap fun arg => (mangleArg escaped arg).toList := by
  induction args generalizing init with
  | nil => rw [List.foldl_nil, List.flatMap_nil, List.append_nil]
  | cons arg args ih =>
    rw [List.foldl_cons, ih, String.toList_append, List.flatMap_cons, List.append_assoc]

lemma prefix_toList_append {start tag : String} (h : start.toList <+: tag.toList)
    (text : String) : start.toList <+: (tag ++ text).toList := by
  rw [String.toList_append]
  exact h.trans (List.prefix_append _ _)

lemma separator_prefix_mangleArg (escaped : Bool) (arg : CanonicalGenericArg) :
    "__".toList <+: (mangleArg escaped arg).toList := by
  cases arg with
  | typeName name =>
    cases escaped with
    | true => exact @prefix_toList_append "__" "__t_" (by decide) _
    | false => exact @prefix_toList_append "__" "__" (by decide) _
  | int value =>
    cases escaped with
    | true => exact @prefix_toList_append "__" "__i_" (by decide) _
    | false => exact @prefix_toList_append "__" "__" (by decide) _

/-- No keyword reads like the name of an instance. -/
lemma keyword_not_instance {keyword : String} (h : keyword ∈ keywords) :
    ¬ "__".toList <:+: keyword.toList ∧ ¬ "mcg_".toList <+: keyword.toList := by
  have hall : ∀ keyword ∈ keywords,
      ¬ "__".toList <:+: keyword.toList ∧ ¬ "mcg_".toList <+: keyword.toList := by decide
  exact hall keyword h

/-- The name starts like the declaration's, or like a spelled out name. -/
lemma toList_mangleGenericInstance (base : String) (args : List CanonicalGenericArg) :
    (mangleGenericInstance base args).toList =
      (if isEscaped base args then "mcg_" ++ hexBytes base else base).toList ++
        args.flatMap fun arg => (mangleArg (isEscaped base args) arg).toList :=
  toList_mangleArgs ..

lemma isWord_of_isIdentifier {text : String} (h : isIdentifier text = true) :
    isWord text = true := by
  rw [isIdentifier, Bool.and_eq_true, Bool.and_eq_true] at h
  exact h.1.2

variable {base : String}

lemma isWord_mangleGenericInstance (hbase : isIdentifier base = true)
    (args : List CanonicalGenericArg) :
    isWord (mangleGenericInstance base args) =
      args.all (SubstValue.isPlain (isEscaped base args)) := by
  have hstart : isWord (if isEscaped base args then "mcg_" ++ hexBytes base else base) = true := by
    split
    · rw [isWord_append, isWord_hexBytes]
      rfl
    · exact isWord_of_isIdentifier hbase
  have hargs : ((args.flatMap fun arg => (mangleArg (isEscaped base args) arg).toList).all
      isIdentContinue) = args.all (SubstValue.isPlain (isEscaped base args)) := by
    rw [List.all_flatMap]
    congr 1
    funext arg
    exact isWord_mangleArg _ arg
  rw [isWord, toList_mangleGenericInstance, List.all_append, hargs]
  rw [isWord] at hstart
  rw [hstart, Bool.true_and]

lemma mangleGenericInstance_not_keyword (hbase : isIdentifier base = true)
    (args : List CanonicalGenericArg) : mangleGenericInstance base args ∉ keywords := by
  intro hkeyword
  obtain ⟨hseparator, hspelled⟩ := keyword_not_instance hkeyword
  cases args with
  | nil =>
    by_cases hescaped : isEscaped base [] = true
    · apply hspelled
      rw [toList_mangleGenericInstance, if_pos hescaped]
      exact (@prefix_toList_append "mcg_" "mcg_" List.prefix_rfl _).trans
        (List.prefix_append _ _)
    · have hname : mangleGenericInstance base [] = base := if_neg hescaped
      rw [isIdentifier, Bool.and_eq_true, Bool.not_eq_true', ← Bool.not_eq_true,
        List.contains_iff_mem] at hbase
      exact hbase.2 (hname ▸ hkeyword)
  | cons arg args =>
    apply hseparator
    rw [toList_mangleGenericInstance, List.flatMap_cons]
    exact ((separator_prefix_mangleArg _ arg).trans
      (List.prefix_append _ _)).isInfix.trans (List.suffix_append _ _).isInfix

/-- The name of an instance is an identifier exactly if every argument is plain. -/
theorem isIdentifier_mangleGenericInstance (hbase : isIdentifier base = true)
    (args : List CanonicalGenericArg) :
    isIdentifier (mangleGenericInstance base args) =
      args.all (SubstValue.isPlain (isEscaped base args)) := by
  have hhead : (mangleGenericInstance base args).toList.head?.any isIdentStart = true := by
    rw [toList_mangleGenericInstance]
    split
    · rw [String.toList_append, List.append_assoc]
      rfl
    · rw [isIdentifier, Bool.and_eq_true, Bool.and_eq_true, Option.any_eq_true] at hbase
      obtain ⟨⟨⟨c, hc, hstart⟩, -⟩, -⟩ := hbase
      rw [List.head?_append, hc]
      exact hstart
  have hkeyword : (!keywords.contains (mangleGenericInstance base args)) = true := by
    rw [Bool.not_eq_true', ← Bool.not_eq_true, List.contains_iff_mem]
    exact mangleGenericInstance_not_keyword hbase args
  rw [isIdentifier, hhead, isWord_mangleGenericInstance hbase, hkeyword, Bool.and_true,
    Bool.true_and]

end ModernC.Specialize

/-!
## Registration of instances

Each use of a generic declaration registers the instance it stands for, unless the instance is
there already.  A new instance must lie within the limits, and its name must be neither the name
of a declaration of the program nor the name of an instance with another key.
-/

namespace ModernC.Specialize

open ModernC.Framework ModernC.Syntax

inductive InstantiationKind where
  | function
  | struct
  | union
deriving DecidableEq

/-- A generic declaration. -/
inductive GenericDecl where
  | function (decl : FnDecl)
  | struct (decl : StructDecl)
  | union (decl : UnionDecl)

def GenericDecl.kind : GenericDecl → InstantiationKind
  | .function _ => .function
  | .struct _ => .struct
  | .union _ => .union

def GenericDecl.name : GenericDecl → Ident
  | .function decl => decl.name
  | .struct decl => decl.name
  | .union decl => decl.name

/-- What each parameter stands for; the last value put under a name counts. -/
abbrev Subst := List (String × SubstValue)

/-- A use of a generic declaration. -/
structure Use where
  decl : GenericDecl
  args : List CanonicalGenericArg
  subst : Subst
  fileId : Option ℕ
  attrs : List Attr
  isPub : Bool
  boundFailed : Bool

namespace Use

def kind (use : Use) : InstantiationKind := use.decl.kind

def key (use : Use) : GenericInstanceKey where
  genericName := use.decl.name.text
  genericOffset := use.decl.name.offset
  args := use.args

def mangled (use : Use) : String := mangleGenericInstance use.decl.name.text use.args

end Use

structure Instance extends Use where
  depth : ℕ

structure Rewriter where
  instances : List Instance
  structInstances : List Instance
  unionInstances : List Instance
  linkageKeys : Table String GenericInstanceKey

namespace Rewriter

def empty : Rewriter := ⟨[], [], [], ∅⟩

/-- The instances of a kind, in the order they were registered. -/
def instancesOf (rw : Rewriter) : InstantiationKind → List Instance
  | .function => rw.instances
  | .struct => rw.structInstances
  | .union => rw.unionInstances

def contains (rw : Rewriter) (use : Use) : Bool :=
  (rw.instancesOf use.kind).any fun inst => decide (inst.key = use.key)

def count (rw : Rewriter) : ℕ :=
  rw.instances.length + rw.structInstances.length + rw.unionInstances.length

def append (rw : Rewriter) (inst : Instance) (linkageKeys : Table String GenericInstanceKey) :
    Rewriter :=
  match inst.kind with
  | .function => { rw with instances := rw.instances ++ [inst], linkageKeys }
  | .struct => { rw with structInstances := rw.structInstances ++ [inst], linkageKeys }
  | .union => { rw with unionInstances := rw.unionInstances ++ [inst], linkageKeys }

end Rewriter

structure Limits where
  maxDepth : ℕ := 128
  maxInstances : ℕ := 4096

inductive Failure where
  | monomorphizationLimit (kind : String) (actual limit : ℕ)
  | generatedNameCollision (name : String)
  | internalGenericLinkageCollision (name : String)
deriving DecidableEq

def Failure.message : Failure → String
  | .monomorphizationLimit kind actual limit =>
    "E_MONOMORPHIZATION_LIMIT: monomorphization exceeded " ++ kind ++ " (" ++ toString actual ++
      " > " ++ toString limit ++ "); possible polymorphic recursion or specialization explosion"
  | .generatedNameCollision name =>
    "E_GENERATED_NAME_COLLISION: generic specialization would collide with user declaration `" ++
      name ++ "`"
  | .internalGenericLinkageCollision name =>
    "E_INTERNAL_GENERIC_LINKAGE_COLLISION: unequal generic instance keys produced the same " ++
      "linkage name `" ++ name ++ "`"

def sourceDeclName (decl : Decl) : Option String :=
  match decl.kind with
  | .fnDecl node | .externFn node => some node.name.text
  | .typeAlias node => some node.name.text
  | .structDecl node => some node.name.text
  | .enumDecl node => some node.name.text
  | .unionDecl node => some node.name.text
  | .packedBitsDecl node => some node.name.text
  | .overlayUnionDecl node => some node.name.text
  | .opaqueDecl name => some name.text
  | .globalDecl node => some node.name.text
  | .traitDecl node => some node.name.text
  | .implTrait _ => none

/-- The names that the program declares. -/
def sourceNames (decls : List Decl) : List String := decls.filterMap sourceDeclName

def admitInstance (limits : Limits) (rw : Rewriter) (depth : ℕ) : Except Failure Unit :=
  if depth > limits.maxDepth then
    .error (.monomorphizationLimit "instantiation depth" depth limits.maxDepth)
  else if rw.count ≥ limits.maxInstances then
    .error (.monomorphizationLimit "total specialization count" (rw.count + 1)
      limits.maxInstances)
  else .ok ()

def registerGenericLinkage (names : List String) (linkageKeys : Table String GenericInstanceKey)
    (name : String) (key : GenericInstanceKey) : Except Failure (Table String GenericInstanceKey) :=
  if names.contains name then .error (.generatedNameCollision name)
  else
    match linkageKeys.lookup name with
    | none => .ok (linkageKeys.insert name key)
    | some known =>
      if known = key then .ok linkageKeys else .error (.internalGenericLinkageCollision name)

/-- What rewriting a use does to the registered instances. -/
def register (limits : Limits) (names : List String) (currentDepth : ℕ) (rw : Rewriter)
    (use : Use) : Except Failure Rewriter :=
  if rw.contains use then .ok rw
  else do
    let depth := currentDepth + 1
    admitInstance limits rw depth
    let linkageKeys ← registerGenericLinkage names rw.linkageKeys use.mangled use.key
    pure (rw.append { toUse := use, depth } linkageKeys)

/-- The uses met one after another, each while an instance of some depth is rewritten. -/
def registerAll (limits : Limits) (names : List String) (rw : Rewriter) :
    List (ℕ × Use) → Except Failure Rewriter
  | [] => .ok rw
  | (currentDepth, use) :: uses => do
    let rw ← register limits names currentDepth rw use
    registerAll limits names rw uses

end ModernC.Specialize
