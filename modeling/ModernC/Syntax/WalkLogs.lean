import ModernC.Syntax.WalkRelations

/-!
# What a walk notes

If whatever a walk does at a node notes only entries with some property, then the whole walk
does.
-/

namespace ModernC.Syntax

open ModernC.Framework ModernC.Framework.Logged

variable {ω : Type}

/-- Whatever the walk does at a node notes only entries with the property. -/
structure NotesOnly (walk : Walk ω) (holds : ω → Prop) : Prop where
  ident : ∀ place id, Notes holds (walk.ident place id)
  member : ∀ place base walked name, Notes holds (walk.member place base walked name)
  call : ∀ callee args, (∀ arg ∈ args, Notes holds arg) → Notes holds (walk.call callee args)
  callee : ∀ walked, Notes holds (walk.callee walked)
  typeName : ∀ place id, Notes holds (walk.typeName place id)
  generic : ∀ base args, (∀ arg ∈ args, Notes holds arg) → Notes holds (walk.generic base args)
  asmOutput : ∀ place name, Notes holds (walk.asmOutput place name)

/-- A walk notes only entries with the property. -/
def notesRelation (walk : Walk ω) (holds : ω → Prop) : WalkRelation ω ω where
  rewriting := Walk.rebuild Empty
  noting := walk
  left := walk
  right := walk
  rel _ noted _ _ := Notes holds noted

section

variable {walk : Walk ω} {holds : ω → Prop} (hwalk : NotesOnly walk holds)

include hwalk

lemma lawful_notesRelation : (notesRelation walk holds).Lawful where
  pure _ b _ := notes_pure b
  bind hx hf := (notes_bind _ _).mpr ⟨hx, hf⟩
  ident := hwalk.ident
  member place base name hbase := by
    show Notes holds (walkExpr walk place (.member base name))
    rw [walkExpr, notes_bind]
    exact ⟨hbase, hwalk.member place base _ name⟩
  call place callee typeArgs args hcallee htypes hargs := by
    show Notes holds (walkExpr walk place (.call callee typeArgs args))
    have hall : ∀ arg ∈ walkExprs walk place args, Notes holds arg := by
      rw [walkExprs_eq_map]
      exact List.forall_mem_map.mpr hargs
    have hallTypes : ∀ ty ∈ walkTypes walk place typeArgs, Notes holds ty := by
      rw [walkTypes_eq_map]
      exact List.forall_mem_map.mpr htypes
    rw [walkExpr, notes_bind]
    refine ⟨hwalk.call callee _ hall, ?_⟩
    split
    · exact notes_pure _
    · simp only [notes_bind, notes_pure, and_true, notes_all]
      exact ⟨hcallee, hwalk.callee _, hallTypes, hall⟩
  typeName := hwalk.typeName
  generic place base args htypes := by
    show Notes holds (walkType walk place (.generic base args))
    have hall : ∀ ty ∈ walkTypes walk place args, Notes holds ty := by
      rw [walkTypes_eq_map]
      exact List.forall_mem_map.mpr htypes
    rw [walkType, notes_bind]
    refine ⟨hwalk.generic base _ hall, ?_⟩
    split
    · exact notes_pure _
    · simp only [notes_bind, notes_pure, and_true, notes_all]
      exact hall
  asmOutput := hwalk.asmOutput

/-! ## Declarations -/

lemma notes_walkAttrs (place : Place) (attrs : List Attr) :
    Notes holds (walkAttrs walk place attrs) :=
  (lawful_notesRelation hwalk).atAttrs place attrs

lemma notes_walkFnSignature (decl : FnDecl) : Notes holds (walkFnSignature walk decl) :=
  (lawful_notesRelation hwalk).atFnSignature .top decl

lemma notes_walkFn (decl : FnDecl) : Notes holds (walkFn walk decl) :=
  (lawful_notesRelation hwalk).atFn .top decl

lemma notes_walkStruct (decl : StructDecl) : Notes holds (walkStruct walk decl) :=
  (lawful_notesRelation hwalk).atStruct .top decl

lemma notes_walkUnion (decl : UnionDecl) : Notes holds (walkUnion walk decl) :=
  (lawful_notesRelation hwalk).atUnion .top decl

lemma notes_walkDecl (decl : Decl) : Notes holds (walkDecl walk decl) :=
  (lawful_notesRelation hwalk).atDecl .top decl

end

end ModernC.Syntax
