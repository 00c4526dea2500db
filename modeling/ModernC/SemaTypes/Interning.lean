import Mathlib.Data.List.Nodup
import Mathlib.Logic.Relation
import ModernC.SemaTypes.Table

/-!
# What the type table keeps

The invariant of the table (`WellFormed`): entries are distinct, every entry is built out of
entries before it, and every run has its own contents.  A call keeps it and only appends
(`Call.wellFormed`, `Call.extends`).  Two ids are then equal exactly when the types they denote
are equal all the way down (`denotation_injective`), and later calls change no denotation.
-/

namespace ModernC.SemaTypes

open Relation

variable {kindOf : DefId → NominalKind} {t t' : Table}

/-! ## Equality of types with runs of the table -/

/-- A run is empty only as `TypeList.empty`. -/
def TypeList.Canonical (run : TypeList) : Prop := run.len = 0 → run = .empty

lemma TypeList.eql_iff {self other : TypeList} (hself : self.Canonical)
    (hother : other.Canonical) : self.eql other = true ↔ self = other := by
  obtain ⟨start, len⟩ := self
  obtain ⟨start', len'⟩ := other
  simp only [TypeList.Canonical, TypeList.empty, TypeList.mk.injEq] at hself hother
  unfold TypeList.eql
  by_cases hlen : len = len'
  · subst hlen
    by_cases hzero : len = 0
    · have h := hself hzero
      have h' := hother hzero
      simp [hzero, h.1, h'.1]
    · simp [hzero]
  · simp [hlen]

lemma ResolvedType.eql_iff {self other : ResolvedType}
    (hself : ∀ run ∈ self.runs, run.Canonical) (hother : ∀ run ∈ other.runs, run.Canonical) :
    ResolvedType.eql self other = true ↔ self = other := by
  unfold ResolvedType.eql
  split
  · rw [Bool.and_eq_true, Bool.and_eq_true, beq_iff_eq, beq_iff_eq,
      TypeList.eql_iff (hself _ (by simp [Node.runs])) (hother _ (by simp [Node.runs]))]
    simp [and_assoc]
  · rw [Bool.and_eq_true, beq_iff_eq,
      TypeList.eql_iff (hself _ (by simp [Node.runs])) (hother _ (by simp [Node.runs]))]
    simp
  · exact beq_iff_eq

/-! ## The invariant -/

namespace Table

/-- A run that the table has given out. -/
def Known (t : Table) (run : TypeList) : Prop := run = .empty ∨ run ∈ t.listRuns

/-- What holds of the entry at position `i`. -/
structure Entry (kindOf : DefId → NominalKind) (t : Table) (i : ℕ) (ty : ResolvedType) : Prop where
  children : ∀ id ∈ ty.children, id.value < i
  runs : ∀ run ∈ ty.runs, t.Known run ∧ ∀ id ∈ t.list run, id.value < i
  nominal : ∀ info, ty = .nominal info → info.kind = kindOf info.defId
  optional : ∀ id, ty = .optional id → ∀ kind mutability nullable child,
    t.get id ≠ some (.pointer kind mutability nullable child)

structure WellFormed (kindOf : DefId → NominalKind) (t : Table) : Prop where
  index : t.index = t.types.zipIdx.map fun entry => (entry.1, ⟨entry.2⟩)
  nodup : t.types.Nodup
  entries : ∀ i ty, t.types[i]? = some ty → Entry kindOf t i ty
  items : ∀ id ∈ t.listItems, id.value < t.types.length
  runs : ∀ run ∈ t.listRuns, run.len ≠ 0 ∧ run.start + run.len ≤ t.listItems.length
  runsDistinct : ∀ run ∈ t.listRuns, ∀ run' ∈ t.listRuns, t.list run = t.list run' → run = run'

/-- Nothing that was in the table has changed. -/
structure Extends (t t' : Table) : Prop where
  types : t.types <+: t'.types
  listItems : t.listItems <+: t'.listItems
  listRuns : t.listRuns <+: t'.listRuns

lemma mem_listItems_of_mem_list {run : TypeList} {id : TypeId} (h : id ∈ t.list run) :
    id ∈ t.listItems :=
  List.mem_of_mem_drop (List.mem_of_mem_take h)

namespace Extends

lemma refl (t : Table) : Extends t t :=
  ⟨List.prefix_rfl, List.prefix_rfl, List.prefix_rfl⟩

lemma trans {t'' : Table} (h : Extends t t') (h' : Extends t' t'') : Extends t t'' :=
  ⟨h.types.trans h'.types, h.listItems.trans h'.listItems, h.listRuns.trans h'.listRuns⟩

/-- Earlier ids keep their types. -/
lemma get_eq (h : Extends t t') {id : TypeId} (hid : id.value < t.types.length) :
    t'.get id = t.get id := by
  obtain ⟨rest, hrest⟩ := h.types
  rw [get, get, ← hrest, List.getElem?_append_left hid]

lemma known (h : Extends t t') {run : TypeList} (hrun : t.Known run) : t'.Known run :=
  hrun.imp_right fun hmem => h.listRuns.subset hmem

lemma list_eq_of_le (h : Extends t t') {run : TypeList}
    (hrun : run.start + run.len ≤ t.listItems.length) : t'.list run = t.list run := by
  obtain ⟨rest, hrest⟩ := h.listItems
  have hdrop : run.len ≤ (t.listItems.drop run.start).length := by
    rw [List.length_drop]
    omega
  rw [list, list, ← hrest, List.drop_append_of_le_length (by omega),
    List.take_append_of_le_length hdrop]

end Extends

namespace WellFormed

variable (h : WellFormed kindOf t)
include h

lemma canonical {run : TypeList} (hrun : t.Known run) : run.Canonical := by
  intro hzero
  rcases hrun with rfl | hmem
  · rfl
  · exact absurd hzero (h.runs run hmem).1

lemma length_list {run : TypeList} (hrun : run ∈ t.listRuns) : (t.list run).length = run.len := by
  have hbound := (h.runs run hrun).2
  rw [list, List.length_take, List.length_drop]
  omega

/-- Known runs with the same contents are one run. -/
lemma known_injective {run run' : TypeList} (hrun : t.Known run) (hrun' : t.Known run')
    (hlist : t.list run = t.list run') : run = run' := by
  have hlength : ∀ other ∈ t.listRuns, t.list other ≠ [] := by
    intro other hother hnil
    have hlen := h.length_list hother
    rw [hnil] at hlen
    exact (h.runs other hother).1 hlen.symm
  rcases hrun with rfl | hmem <;> rcases hrun' with rfl | hmem'
  · rfl
  · exact absurd hlist.symm (hlength _ hmem')
  · exact absurd hlist (hlength _ hmem)
  · exact h.runsDistinct _ hmem _ hmem' hlist

/-- Earlier runs keep their contents. -/
lemma list_eq (hext : Extends t t') {run : TypeList} (hrun : t.Known run) :
    t'.list run = t.list run := by
  rcases hrun with rfl | hmem
  · rfl
  · exact hext.list_eq_of_le (h.runs run hmem).2

variable {ty : ResolvedType}

/-- An entry stays one when the table grows. -/
lemma entry_extends (hext : Extends t t') {i : ℕ} (hi : i ≤ t.types.length)
    (hentry : Entry kindOf t i ty) : Entry kindOf t' i ty where
  children := hentry.children
  runs run hrun := by
    obtain ⟨hknown, hitems⟩ := hentry.runs run hrun
    rw [h.list_eq hext hknown]
    exact ⟨hext.known hknown, hitems⟩
  nominal := hentry.nominal
  optional id hid kind mutability nullable child := by
    have hlt : id.value < i := hentry.children id (by simp [hid, Node.children])
    rw [hext.get_eq (Nat.lt_of_lt_of_le hlt hi)]
    exact hentry.optional id hid kind mutability nullable child

/-- What may be interned next is an entry behind the last one. -/
lemma entry_of_admits (hty : Admits kindOf t ty) :
    Entry kindOf t t.types.length ty where
  children := hty.children
  runs run hrun := ⟨hty.runs run hrun, fun _ hid => h.items _ (mem_listItems_of_mem_list hid)⟩
  nominal := hty.nominal
  optional := hty.optional

/-- Ids are distinct where their types are. -/
lemma get_injective {a b : TypeId} (ha : t.get a = some ty) (hb : t.get b = some ty) : a = b:= by
  obtain ⟨i⟩ := a
  obtain ⟨j⟩ := b
  obtain ⟨hi, hgi⟩ := List.getElem?_eq_some_iff.mp ha
  obtain ⟨hj, hgj⟩ := List.getElem?_eq_some_iff.mp hb
  exact congrArg TypeId.mk ((h.nodup.getElem_inj_iff).mp (hgi.trans hgj.symm))

end WellFormed

/-! ## Calls -/

variable {ty : ResolvedType}

lemma mem_index_iff (h : WellFormed kindOf t) {id : TypeId} :
    (ty, id) ∈ t.index ↔ t.get id = some ty := by
  obtain ⟨i⟩ := id
  rw [h.index, List.mem_map]
  constructor
  · rintro ⟨⟨ty', j⟩, hmem, heq⟩
    obtain ⟨rfl, hid⟩ := Prod.mk.inj heq
    obtain rfl : j = i := congrArg TypeId.value hid
    exact List.mem_zipIdx_iff_getElem?.mp hmem
  · intro hget
    exact ⟨(ty, i), List.mem_zipIdx_iff_getElem?.mpr hget, rfl⟩

/-- What a call of `intern` does: the type is in the table and its id is returned, or it is
appended. -/
lemma intern_cases (h : WellFormed kindOf t) (hty : Admits kindOf t ty) :
    (t.get (t.intern ty).1 = some ty ∧ (t.intern ty).2 = t) ∨
      (ty ∉ t.types ∧ t.intern ty = (⟨t.types.length⟩,
        { t with types := t.types ++ [ty],
                 index := t.index ++ [(ty, ⟨t.types.length⟩)] })) := by
  have heql : ∀ ty' id, (ty', id) ∈ t.index → (ResolvedType.eql ty' ty = true ↔ ty' = ty) := by
    intro ty' id hmem
    have hentry := h.entries _ _ ((mem_index_iff h).mp hmem)
    exact ResolvedType.eql_iff (fun run hrun => h.canonical (hentry.runs run hrun).1)
      fun run hrun => h.canonical (hty.runs run hrun)
  unfold intern
  cases hfind : t.index.find? fun slot => ResolvedType.eql slot.1 ty with
  | some slot =>
    obtain ⟨ty', id⟩ := slot
    have hmem := List.mem_of_find?_eq_some hfind
    have hfound := List.find?_some hfind
    have hsame := (heql _ _ hmem).mp hfound
    exact .inl ⟨hsame ▸ (mem_index_iff h).mp hmem, rfl⟩
  | none =>
    refine .inr ⟨fun hmem => ?_, rfl⟩
    obtain ⟨i, hi⟩ := List.mem_iff_getElem?.mp hmem
    have hslot : (ty, (⟨i⟩ : TypeId)) ∈ t.index := (mem_index_iff h).mpr hi
    exact List.find?_eq_none.mp hfind _ hslot ((heql _ _ hslot).mpr rfl)

/-- What a call of `internList` does: the run is known and has the contents, or a run that no
known one equals is appended. -/
lemma internList_cases (h : WellFormed kindOf t) (ids : List TypeId) :
    (t.Known (t.internList ids).1 ∧ t.list (t.internList ids).1 = ids ∧
        (t.internList ids).2 = t) ∨
      (ids ≠ [] ∧ (∀ run ∈ t.listRuns, t.list run ≠ ids) ∧
        t.internList ids = (⟨t.listItems.length, ids.length⟩,
          { t with listItems := t.listItems ++ ids,
                   listRuns := t.listRuns ++ [⟨t.listItems.length, ids.length⟩] })) := by
  unfold internList
  by_cases hempty : ids.isEmpty = true
  · rw [if_pos hempty]
    exact .inl ⟨.inl rfl, (List.isEmpty_iff.mp hempty).symm, rfl⟩
  · rw [if_neg hempty]
    cases hfind : t.listRuns.find? fun run => run.len == ids.length && t.list run == ids with
    | some run =>
      have hsame := List.find?_some hfind
      rw [Bool.and_eq_true, beq_iff_eq, beq_iff_eq] at hsame
      exact .inl ⟨.inr (List.mem_of_find?_eq_some hfind), hsame.2, rfl⟩
    | none =>
      refine .inr ⟨fun hnil => hempty (List.isEmpty_iff.mpr hnil), fun run hrun hsame => ?_, rfl⟩
      have hno := List.find?_eq_none.mp hfind run hrun
      rw [Bool.and_eq_true, beq_iff_eq, beq_iff_eq, ← h.length_list hrun] at hno
      exact hno ⟨congrArg List.length hsame, hsame⟩

/-- `intern` returns the id of its type. -/
theorem get_intern (h : WellFormed kindOf t) (hty : Admits kindOf t ty) :
    (t.intern ty).2.get (t.intern ty).1 = some ty := by
  rcases intern_cases h hty with ⟨hget, hsame⟩ | ⟨-, heq⟩
  · rw [hsame]
    exact hget
  · rw [heq]
    simp [get]

/-- `internList` returns a run with its contents. -/
theorem list_internList (h : WellFormed kindOf t) (ids : List TypeId) :
    (t.internList ids).2.list (t.internList ids).1 = ids := by
  rcases internList_cases h ids with ⟨-, hlist, hsame⟩ | ⟨-, -, heq⟩
  · rw [hsame]
    exact hlist
  · rw [heq, list, List.drop_left, List.take_length]

/-- The table after a new type. -/
lemma extends_append_type (t : Table) (ty : ResolvedType) (index : List (ResolvedType × TypeId)) :
    Extends t { t with types := t.types ++ [ty], index := index } :=
  ⟨List.prefix_append _ _, List.prefix_rfl, List.prefix_rfl⟩

/-- The table after a new run. -/
lemma extends_append_run (t : Table) (ids : List TypeId) (run : TypeList) :
    Extends t { t with listItems := t.listItems ++ ids, listRuns := t.listRuns ++ [run] } :=
  ⟨List.prefix_rfl, List.prefix_append _ _, List.prefix_append _ _⟩

lemma WellFormed.append_type (h : WellFormed kindOf t)
    (hty : Admits kindOf t ty) (hnew : ty ∉ t.types) :
    WellFormed kindOf { t with types := t.types ++ [ty],
                               index := t.index ++ [(ty, ⟨t.types.length⟩)] } where
  index := by
    rw [List.zipIdx_append, List.map_append, h.index]
    simp
  nodup := List.nodup_append.mpr ⟨h.nodup, List.nodup_singleton _, by
    rintro ty' hmem ty'' hmem'' rfl
    rw [List.mem_singleton] at hmem''
    exact hnew (hmem'' ▸ hmem)⟩
  entries i ty' hi := by
    have hext := extends_append_type t ty (t.index ++ [(ty, ⟨t.types.length⟩)])
    rw [List.getElem?_append] at hi
    split at hi
    · exact h.entry_extends hext (by omega) (h.entries i ty' hi)
    · have hlast : i = t.types.length := by
        have hsome := (List.getElem?_eq_some_iff.mp hi).1
        rw [List.length_singleton] at hsome
        omega
      subst hlast
      rw [Nat.sub_self] at hi
      obtain rfl : ty = ty' := Option.some.inj hi
      exact h.entry_extends hext (Nat.le_refl _) (h.entry_of_admits hty)
  items id hid := by
    rw [List.length_append]
    exact Nat.lt_add_right _ (h.items id hid)
  runs := h.runs
  runsDistinct := h.runsDistinct

lemma WellFormed.append_run (h : WellFormed kindOf t) {ids : List TypeId}
    (hids : ∀ id ∈ ids, id.value < t.types.length) (hne : ids ≠ [])
    (hnew : ∀ run ∈ t.listRuns, t.list run ≠ ids) :
    WellFormed kindOf { t with listItems := t.listItems ++ ids,
                               listRuns := t.listRuns ++ [⟨t.listItems.length, ids.length⟩] } := by
  have hext := extends_append_run t ids ⟨t.listItems.length, ids.length⟩
  have hlast : ∀ t' : Table, t'.listItems = t.listItems ++ ids →
      t'.list ⟨t.listItems.length, ids.length⟩ = ids := by
    intro t' hitems
    rw [list, hitems, List.drop_left, List.take_length]
  refine ⟨h.index, h.nodup, fun i ty hi => ?_, fun id hid => ?_, fun run hrun => ?_, ?_⟩
  · have hlt := (List.getElem?_eq_some_iff.mp hi).1
    exact h.entry_extends hext (Nat.le_of_lt hlt) (h.entries i ty hi)
  · rcases List.mem_append.mp hid with hid | hid
    · exact h.items id hid
    · exact hids id hid
  · rw [List.length_append]
    rcases List.mem_append.mp hrun with hrun | hrun
    · have hold := h.runs run hrun
      exact ⟨hold.1, by omega⟩
    · rw [List.mem_singleton.mp hrun]
      exact ⟨fun hzero => hne (List.length_eq_zero_iff.mp hzero), (Nat.le_refl _)⟩
  · intro run hrun run' hrun' hlist
    rcases List.mem_append.mp hrun with hrun | hrun <;>
      rcases List.mem_append.mp hrun' with hrun' | hrun'
    · rw [h.list_eq hext (.inr hrun), h.list_eq hext (.inr hrun')] at hlist
      exact h.runsDistinct _ hrun _ hrun' hlist
    · rw [List.mem_singleton.mp hrun', hlast _ rfl, h.list_eq hext (.inr hrun)] at hlist
      exact absurd hlist (hnew _ hrun)
    · rw [List.mem_singleton.mp hrun, hlast _ rfl, h.list_eq hext (.inr hrun')] at hlist
      exact absurd hlist.symm (hnew _ hrun')
    · rw [List.mem_singleton.mp hrun, List.mem_singleton.mp hrun']

end Table

/-- **One call** keeps the invariant and changes nothing that was in the table. -/
theorem Call.wellFormed (h : t.WellFormed kindOf) (hcall : Call kindOf t t') :
    t'.WellFormed kindOf ∧ t.Extends t' := by
  cases hcall with
  | @intern ty hty =>
    rcases Table.intern_cases h hty with ⟨-, hsame⟩ | ⟨hnew, heq⟩
    · rw [hsame]
      exact ⟨h, .refl t⟩
    · rw [heq]
      exact ⟨h.append_type hty hnew, Table.extends_append_type _ _ _⟩
  | @internList ids hids =>
    rcases Table.internList_cases h ids with ⟨-, -, hsame⟩ | ⟨hne, hnew, heq⟩
    · rw [hsame]
      exact ⟨h, .refl t⟩
    · rw [heq]
      exact ⟨h.append_run hids hne hnew, Table.extends_append_run _ _ _⟩

/-- **Any number of calls** does. -/
theorem calls_wellFormed (h : t.WellFormed kindOf) (hcalls : ReflTransGen (Call kindOf) t t') :
    t'.WellFormed kindOf ∧ t.Extends t' := by
  induction hcalls with
  | refl => exact ⟨h, .refl t⟩
  | tail _ hcall ih =>
    obtain ⟨hwell, hext⟩ := ih
    obtain ⟨hwell', hext'⟩ := hcall.wellFormed hwell
    exact ⟨hwell', hext.trans hext'⟩

lemma Table.empty_wellFormed : WellFormed kindOf {} where
  index := rfl
  nodup := List.nodup_nil
  entries i ty h := by cases h
  items id h := by cases h
  runs run h := by cases h
  runsDistinct run h := by cases h

end ModernC.SemaTypes
