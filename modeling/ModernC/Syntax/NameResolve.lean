import ModernC.Framework.Tables
import ModernC.Syntax.Rewriting

/-!
# Resolution of qualified names

A member `O.m` of a name `O` that owns a member `m` is replaced by the linkage name of the pair.
The pass looks at no scope: an owner's name is reserved, and the checker rejects a binding of
it.  Nothing is replaced in the operands of `asm` and in the arguments of contracts.
-/

namespace ModernC.Syntax

open ModernC.Framework

structure QualifiedSymbol where
  owner : Ident
  ownerFile : Option ℕ := none
  member : Ident
  linkageName : String
deriving DecidableEq

abbrev QualifiedMap := Table (String × String) String

def qualifiedMap (symbols : List QualifiedSymbol) : QualifiedMap :=
  symbols.foldl (fun map symbol =>
    map.insert (symbol.owner.text, symbol.member.text) symbol.linkageName) ∅

inductive ResolveError where
  | invalidModuleGraph
deriving DecidableEq

/-- The files of a module graph. -/
abbrev ModuleGraph := List ℕ

def fileForSpan (graph : ModuleGraph) (file : Option ℕ) : Option ℕ :=
  file.filter fun id => graph.contains id

/-- What becomes of a member of a base, as it was and as it was walked. -/
abbrev MemberRule := Place → Expr → Expr → Ident → Expr

def resolveMember (symbols : QualifiedMap) : MemberRule := fun place _ walked name =>
  if place.inAsm || place.inContract then .member walked name
  else
    match walked with
    | .ident owner =>
      match symbols.lookup (owner.text, name.text) with
      | some linkageName => .ident { text := linkageName, offset := owner.offset }
      | none => .member walked name
    | _ => .member walked name

/-- The walk that rewrites members only. -/
def memberWalk (rule : MemberRule) : Walk Empty :=
  { Walk.rebuild Empty with
    member := fun place base walked name => pure (rule place base walked name) }

def resolveDecls (symbols : QualifiedMap) (decls : List Decl) : List Decl :=
  (walkDecls (memberWalk (resolveMember symbols)) decls).value

def transformDeclsWithSymbols (decls : List Decl) (symbols : List QualifiedSymbol)
    (graph : Option ModuleGraph) : Except ResolveError (List Decl) :=
  if graph.any fun graph => symbols.any fun symbol => (fileForSpan graph symbol.ownerFile).isNone
  then .error .invalidModuleGraph
  else .ok (resolveDecls (qualifiedMap symbols) decls)

/-! ## Rewriting by binding -/

/-- What becomes of a member of a base, which is rewritten first. -/
inductive ResolvesMember (symbols : QualifiedMap) (place : Place) :
    Expr → Expr → Ident → Expr → Prop
  /-- A member in the table, of a name that is not bound. -/
  | resolved {owner : Ident} {base : Expr} {name : Ident} {linkageName : String}
      (hsymbol : symbols.lookup (owner.text, name.text) = some linkageName)
      (hfree : owner.text ∉ place.bound) :
      ResolvesMember symbols place (.ident owner) base name
        (.ident { text := linkageName, offset := owner.offset })
  /-- Any other member keeps its name. -/
  | kept {base base' : Expr} {name : Ident}
      (hkept : ∀ owner, base = .ident owner →
        symbols.lookup (owner.text, name.text) = none ∨ owner.text ∈ place.bound) :
      ResolvesMember symbols place base base' name (.member base' name)

/-- Nothing is said of the operands of `asm`, of the arguments of contracts and of members of a base
that was itself replaced. -/
def LeftOpen (place : Place) (base base' : Expr) : Prop :=
  place.inAsm = true ∨ place.inContract = true ∨
    (∀ id, base ≠ .ident id) ∧ ∃ id, base' = .ident id

/-- Members are resolved, and everything else is kept. -/
def resolveRules (symbols : QualifiedMap) : Rules where
  ident _ id out := out = .ident id
  member place base base' name out :=
    LeftOpen place base base' ∨ ResolvesMember symbols place base base' name out
  call _ callee typeArgs args out := out = .call callee typeArgs args
  typeName _ id out := out = .name id
  generic base args out := out = .generic base args
  asmOutput _ name out := out = name

/-- The name that a member expression is a member of is not bound if the table has the pair. -/
def OwnerReserved (symbols : QualifiedMap) : Site → Prop
  | .member place (.ident owner) name =>
    (symbols.lookup (owner.text, name.text)).isSome → owner.text ∉ place.bound
  | _ => True

variable {symbols : QualifiedMap}

lemma resolveMember_of_not_isIdent {place : Place} {base walked : Expr} {name : Ident}
    (h : ∀ id, walked ≠ .ident id) :
    resolveMember symbols place base walked name = .member walked name := by
  unfold resolveMember
  split
  · rfl
  · split
    · exact absurd rfl (h _)
    · rfl

/-- The rule of the pass is the rule by binding where the owner is reserved. -/
lemma resolvesMember_resolveMember {place : Place} {base base' : Expr} {name : Ident}
    (hbase : ∀ id, base = .ident id → base' = base)
    (hreserved : OwnerReserved symbols (.member place base name)) :
    LeftOpen place base base' ∨ ResolvesMember symbols place base base' name
      (resolveMember symbols place base base' name) := by
  by_cases hopen : LeftOpen place base base'
  · exact .inl hopen
  · obtain ⟨hasm, hrest⟩ := not_or.mp hopen
    obtain ⟨hcontract, hchain⟩ := not_or.mp hrest
    refine .inr ?_
    by_cases hident : ∃ owner, base = .ident owner
    · obtain ⟨owner, rfl⟩ := hident
      obtain rfl := hbase owner rfl
      rw [resolveMember, if_neg (by simp [hasm, hcontract])]
      cases hlookup : symbols.lookup (owner.text, name.text) with
      | none => exact .kept fun _ hsame => .inl (by cases hsame; exact hlookup)
      | some linkageName => exact .resolved hlookup (hreserved (by rw [hlookup]; rfl))
    · have hnot : ∀ id, base ≠ .ident id := fun id hid => hident ⟨id, hid⟩
      rw [resolveMember_of_not_isIdent fun id hid => hchain ⟨hnot, id, hid⟩]
      exact .kept fun owner hsame => absurd hsame (hnot owner)

lemma follows_memberWalk : (memberWalk (resolveMember symbols)).Follows
    ((resolveRules symbols).given (OwnerReserved symbols)) where
  ident _ _ _ := rfl
  member _ _ _ := resolvesMember_resolveMember fun id hid => by rw [hid]; rfl
  callRewritten _ _ _ _ _ h := by cases h
  callKept _ _ _ _ _ := rfl
  typeName _ _ _ := rfl
  genericRewritten _ _ _ h := by cases h
  genericKept _ _ _ := rfl
  asmOutput _ _ _ := rfl

/-- **Qualified names.** Where the files of the owners are known and owners are reserved, the pass
replaces a member of a name exactly if the table holds the pair, at every place where an expression
can stand, and keeps everything else. -/
theorem transform_rewrites (decls : List Decl) (symbols : List QualifiedSymbol)
    (graph : Option ModuleGraph)
    (hgraph : ∀ files ∈ graph, ∀ symbol ∈ symbols, ∃ file ∈ symbol.ownerFile, file ∈ files)
    (hreserved : Everywhere (OwnerReserved (qualifiedMap symbols)) (.decls decls)) :
    ∃ decls', transformDeclsWithSymbols decls symbols graph = .ok decls' ∧
      Rewrites (resolveRules (qualifiedMap symbols)) .top (.decls decls) (.decls decls') := by
  have hvalid : ¬ (graph.any fun graph =>
      symbols.any fun symbol => (fileForSpan graph symbol.ownerFile).isNone) = true := by
    rw [Option.any_eq_true]
    rintro ⟨files, hfiles, hsome⟩
    obtain ⟨symbol, hsymbol, hnone⟩ := List.any_eq_true.mp hsome
    obtain ⟨file, hfile, hmem⟩ := hgraph files hfiles symbol hsymbol
    rw [fileForSpan, Option.mem_def.mp hfile, Option.isNone_iff_eq_none,
      Option.filter_eq_none_iff] at hnone
    exact hnone file rfl (List.contains_iff_mem.mpr hmem)
  refine ⟨resolveDecls (qualifiedMap symbols) decls, ?_, ?_⟩
  · rw [transformDeclsWithSymbols, if_neg hvalid]
  · exact (rewrites_walkDecls follows_memberWalk .top decls).of_given hreserved

/-! ## A reserved name that is bound -/

/-- `fn read(name: Settings) -> u32 { return Config.limit; }`. -/
def readLimit (name : String) : Decl where
  kind := .fnDecl
    { name := { text := "read" }
      params := [{ name := { text := name }, ty := .name { text := "Settings" } }]
      returnType := some (.name { text := "u32" })
      body := some [.ret (some (.member (.ident { text := "Config" }) { text := "limit" }))] }

def configLimit : QualifiedSymbol where
  owner := { text := "Config" }
  member := { text := "limit" }
  linkageName := "Config__limit"

theorem transform_rewrites_readLimit :
    ∃ decls', transformDeclsWithSymbols [readLimit "settings"] [configLimit] none = .ok decls' ∧
      Rewrites (resolveRules (qualifiedMap [configLimit])) .top (.decls [readLimit "settings"])
        (.decls decls') := by
  apply transform_rewrites
  · intro files hfiles
    exact absurd hfiles (Option.not_mem_none files)
  · repeat' first
      | exact fun site hsite => absurd hsite (Option.not_mem_none site)
      | exact List.forall_mem_nil _
      | refine List.forall_mem_cons.mpr ⟨?_, ?_⟩
      | refine EverywhereAt.node ?_ ?_
    all_goals
      intro site hsite
      cases hsite
      first
      | trivial
      | exact fun _ => by decide

/-- The member of a parameter `Config` is replaced as well. -/
theorem transform_not_rewrites_shadowed :
    ¬ ∃ decls', transformDeclsWithSymbols [readLimit "Config"] [configLimit] none = .ok decls' ∧
      Rewrites (resolveRules (qualifiedMap [configLimit])) .top (.decls [readLimit "Config"])
        (.decls decls') := by
  rintro ⟨decls', hdecls, hrewrites⟩
  obtain rfl := Except.ok.inj hdecls
  cases hrewrites with | declsCons _ hkind _ =>
  cases hkind with | fnDecl hfn =>
  cases hfn with | fn _ _ hbody =>
  cases hbody with | blocksCons hbody _ =>
  cases hbody with | blockCons hstmt _ =>
  cases hstmt with | ret hvalue =>
  cases hvalue with | exprsCons hmember _ =>
  cases hmember with | member _ hrule =>
  rcases hrule with (hasm | hcontract | ⟨hnot, -⟩) | hresolves
  · exact absurd hasm Bool.false_ne_true
  · exact absurd hcontract Bool.false_ne_true
  · exact hnot _ rfl
  · cases hresolves with | resolved _ hfree => exact hfree List.mem_cons_self

end ModernC.Syntax
