import Mathlib.Algebra.BigOperators.Group.List.Basic
import Mathlib.Algebra.GroupWithZero.Nat
import Mathlib.Data.List.Induction
import ModernC.Loader.Loader

/-!
# What the expansion keeps

The files that are recorded are numbered in the order in which they are found, each path once.  What
they take of the budget is what they hold.
-/

namespace ModernC.Loader

open Framework

variable {env : Env} {s s' : LoadState} {item : PendingFile} {imp : ImportRef}

/-! ## Blanked files -/

/-- A place in an import statement. -/
def InImport (imports : List ImportRef) (i : ℕ) : Prop :=
  ∃ imp ∈ imports, imp.start ≤ i ∧ i < imp.stop

/-- A source with its imports blanked. -/
structure IsBlanked (imports : List ImportRef) (source view : Bytes) : Prop where
  length_eq : view.length = source.length
  outside : ∀ i : ℕ, ¬InImport imports i → view[i]? = source[i]?
  inside : ∀ (i : ℕ) (byte : UInt8), InImport imports i → source[i]? = some byte → byte ≠ 10 →
    byte ≠ 13 → view[i]? = some 32
  newline : ∀ (i : ℕ) (byte : UInt8), byte = 10 ∨ byte = 13 →
    (view[i]? = some byte ↔ source[i]? = some byte)

lemma isBlanked_nil (source : Bytes) : IsBlanked [] source source := by
  refine ⟨rfl, fun _ _ => rfl, fun i byte h => ?_, fun _ _ _ => Iff.rfl⟩
  obtain ⟨imp, hmem, -⟩ := h
  exact absurd hmem List.not_mem_nil

lemma blankRange_getElem? (source : Bytes) (imp : ImportRef) (i : ℕ) :
    (blankRange source imp)[i]? = source[i]?.map fun byte =>
      if imp.start ≤ i ∧ i < imp.stop ∧ byte ≠ 10 ∧ byte ≠ 13 then 32 else byte :=
  List.getElem?_mapIdx

variable {source : Bytes}

/-- One more import is blanked. -/
lemma IsBlanked.snoc {imports : List ImportRef} {view : Bytes}
    (h : IsBlanked imports source view) (imp : ImportRef) :
    IsBlanked (imports ++ [imp]) source (blankRange view imp) := by
  have hsnoc : ∀ i, InImport (imports ++ [imp]) i ↔
      InImport imports i ∨ (imp.start ≤ i ∧ i < imp.stop) := by
    intro i
    simp only [InImport, List.mem_append, List.mem_singleton, or_and_right, exists_or,
      exists_eq_left]
  constructor
  · rw [blankRange, List.length_mapIdx, h.length_eq]
  · intro i hout
    rw [hsnoc, not_or] at hout
    rw [blankRange_getElem?, h.outside i hout.1]
    rcases source[i]? with _ | byte
    · rfl
    · rw [Option.map_some, if_neg fun hin => hout.2 ⟨hin.1, hin.2.1⟩]
  · intro i byte hin hbyte hlf hcr
    rw [blankRange_getElem?]
    by_cases hbefore : InImport imports i
    · rw [h.inside i byte hbefore hbyte hlf hcr, Option.map_some]
      split <;> rfl
    · have hnew := ((hsnoc i).mp hin).resolve_left hbefore
      rw [h.outside i hbefore, hbyte, Option.map_some, if_pos ⟨hnew.1, hnew.2, hlf, hcr⟩]
  · intro i byte hnewline
    rw [← h.newline i byte hnewline, blankRange_getElem?]
    rcases view[i]? with _ | old
    · exact Iff.rfl
    · rw [Option.map_some]
      split
      · next hin =>
        refine iff_of_false ?_ ?_
        · rintro hspace
          rcases hnewline with rfl | rfl
          · exact absurd (Option.some.inj hspace) (by decide)
          · exact absurd (Option.some.inj hspace) (by decide)
        · rintro hsame
          obtain rfl := Option.some.inj hsame
          rcases hnewline with rfl | rfl
          · exact hin.2.2.1 rfl
          · exact hin.2.2.2 rfl
      · exact Iff.rfl

/-- **The view of the parser** is the source with its imports blanked. -/
lemma isBlanked_blanked (imports : List ImportRef) (source : Bytes) :
    IsBlanked imports source (blanked imports source) := by
  induction imports using List.reverseRecOn with
  | nil => exact isBlanked_nil source
  | append_singleton imports imp ih =>
    rw [blanked, List.foldl_append]
    exact ih.snoc imp

/-! ## The import graph -/

/-- The root file. -/
structure Root where
  path : Bytes
  source : Bytes

/-- The bytes of a path, as the loader finds them. -/
def contentOf (env : Env) (root : Root) (path : Bytes) : Bytes :=
  if path = root.path then root.source else (env.read path).getD []

/-- The imports of a file. -/
def refsOf (env : Env) (path source : Bytes) : List ImportRef :=
  match scanTokens env path (env.tokens source) 0 with
  | .ok (refs, _) => refs
  | .error _ => []

/-- A file imports another. -/
def Imports (env : Env) (root : Root) (path path' : Bytes) : Prop :=
  ∃ imp ∈ refsOf env path (stripUtf8Bom (contentOf env root path)), imp.path = path'

lemma scanImports_eq_ok {path : Bytes} {fileId : ℕ} {refs : List ImportRef}
    {reports : List Diagnostic} (h : scanImports env path fileId source = .ok (refs, reports)) :
    refsOf env path source = refs := by
  rw [scanImports] at h
  split at h
  · exact absurd h nofun
  · next refs' invalid hscan =>
    split at h
    · exact absurd h nofun
    · rw [refsOf, hscan, ← (Prod.mk.inj (Except.ok.inj h)).1]

/-! ## The invariant -/

/-- What a file that was found is recorded as. -/
def PendingFile.file (item : PendingFile) : ModuleFile :=
  ⟨item.id, item.path, item.displayPath, item.depth⟩

/-- What a file takes of the budget. -/
def PendingFile.bytes (item : PendingFile) : ℕ := (stripUtf8Bom item.source).length

/-- The files that were found, in their order. -/
structure Known (env : Env) (root : Root) (limits : LoadLimits) (s : LoadState)
    (items : List PendingFile) : Prop where
  files_eq : s.files = items.map PendingFile.file
  id_eq : ∀ (i : ℕ) (item : PendingFile), items[i]? = some item → item.id = i
  nodup : (items.map PendingFile.path).Nodup
  discovered : ∀ p id, s.discovered p = some id ↔ (items.map PendingFile.path)[id]? = some p
  content : ∀ item ∈ items, item.source = contentOf env root item.path
  limits_eq : s.budget.limits = limits
  fileCount_eq : s.budget.fileCount = items.length
  bytes_eq : s.budget.totalInputBytes = (items.map PendingFile.bytes).sum
  fileCount_le : items.length ≤ limits.maxFiles
  bytes_le : (items.map PendingFile.bytes).sum ≤ limits.maxTotalInputBytes
  depth_le : ∀ item ∈ items, item.depth ≤ limits.maxImportDepth
  reached : ∀ item ∈ items, Relation.ReflTransGen (Imports env root) root.path item.path
  failed : s.budget.exhausted = true → s.reported ≠ []

variable {root : Root} {limits : LoadLimits} {items : List PendingFile}

lemma rejectBudget_eq_ok {diag : Diagnostic} (h : rejectBudget env s diag = .ok s') :
    s' = { s.report diag with budget := { s.budget with exhausted := true } } := by
  rw [rejectBudget] at h
  split at h
  · exact (Except.ok.inj h).symm
  · exact absurd h nofun

/-- A reservation takes what it asks for, or it exhausts the budget. -/
lemma reserveFile_cases {origin : Origin} {depth inputBytes : ℕ}
    (h : reserveFile env s origin depth inputBytes = .ok s') :
    (∃ diag, s' = { s.report diag with budget := { s.budget with exhausted := true } }) ∨
      (depth ≤ s.budget.limits.maxImportDepth ∧ s.budget.fileCount < s.budget.limits.maxFiles ∧
        s.budget.totalInputBytes + inputBytes ≤ s.budget.limits.maxTotalInputBytes ∧
        s' = { s with budget := { s.budget with
          fileCount := s.budget.fileCount + 1
          totalInputBytes := s.budget.totalInputBytes + inputBytes } }) := by
  rw [reserveFile] at h
  split at h
  · exact .inl ⟨_, rejectBudget_eq_ok h⟩
  · next hdepth =>
    split at h
    · exact .inl ⟨_, rejectBudget_eq_ok h⟩
    · next hfiles =>
      split at h
      · exact .inl ⟨_, rejectBudget_eq_ok h⟩
      · next nextTotal hnext =>
        obtain ⟨-, rfl⟩ := checkedAdd_eq_some.mp hnext
        split at h
        · exact .inl ⟨_, rejectBudget_eq_ok h⟩
        · next hbytes =>
          exact .inr ⟨Nat.le_of_not_lt hdepth, Nat.lt_of_not_le hfiles, Nat.le_of_not_lt hbytes,
            (Except.ok.inj h).symm⟩

lemma Known.report (hknown : Known env root limits s items) (diag : Diagnostic) :
    Known env root limits (s.report diag) items :=
  ⟨hknown.files_eq, hknown.id_eq, hknown.nodup, hknown.discovered, hknown.content,
    hknown.limits_eq, hknown.fileCount_eq, hknown.bytes_eq, hknown.fileCount_le, hknown.bytes_le,
    hknown.depth_le, hknown.reached, fun _ => List.concat_ne_nil diag s.reported⟩

/-- The budget is exhausted, and something was reported. -/
lemma Known.exhaust (hknown : Known env root limits s items) (diag : Diagnostic) :
    Known env root limits
      { s.report diag with budget := { s.budget with exhausted := true } } items :=
  ⟨hknown.files_eq, hknown.id_eq, hknown.nodup, hknown.discovered, hknown.content,
    hknown.limits_eq, hknown.fileCount_eq, hknown.bytes_eq, hknown.fileCount_le, hknown.bytes_le,
    hknown.depth_le, hknown.reached, fun _ => List.concat_ne_nil diag s.reported⟩

lemma Known.recordImport (hknown : Known env root limits s items) (importer imported : ℕ)
    (span : Span) : Known env root limits (recordImport s importer imported span) items :=
  ⟨hknown.files_eq, hknown.id_eq, hknown.nodup, hknown.discovered, hknown.content,
    hknown.limits_eq, hknown.fileCount_eq, hknown.bytes_eq, hknown.fileCount_le, hknown.bytes_le,
    hknown.depth_le, hknown.reached, hknown.failed⟩

/-- **A new file** is recorded under the next number. -/
lemma Known.recordFile (hknown : Known env root limits s items) (displayPath : Bytes)
    {path : Bytes} {depth : ℕ} (hnew : s.discovered path = none)
    (hsource : source = contentOf env root path) (hdepth : depth ≤ limits.maxImportDepth)
    (hfiles : s.budget.fileCount < limits.maxFiles)
    (hbytes : s.budget.totalInputBytes + (stripUtf8Bom source).length ≤ limits.maxTotalInputBytes)
    (hreached : Relation.ReflTransGen (Imports env root) root.path path) :
    Known env root limits
      (Loader.recordFile { s with budget := { s.budget with
        fileCount := s.budget.fileCount + 1
        totalInputBytes := s.budget.totalInputBytes + (stripUtf8Bom source).length } }
        path displayPath depth)
      (items ++ [⟨s.files.length, path, displayPath, source, depth⟩]) := by
  have hlength : s.files.length = items.length := by rw [hknown.files_eq, List.length_map]
  have hcount := hknown.fileCount_eq
  have htotal := hknown.bytes_eq
  have hsum : (items ++ [(⟨s.files.length, path, displayPath, source, depth⟩ : PendingFile)]).map
      PendingFile.bytes = items.map PendingFile.bytes ++ [(stripUtf8Bom source).length] := by
    rw [List.map_append]
    rfl
  have hnotMem : path ∉ items.map PendingFile.path := by
    intro hmem
    obtain ⟨i, hi⟩ := List.mem_iff_getElem?.mp hmem
    exact nomatch hnew.symm.trans ((hknown.discovered path i).mpr hi)
  refine ⟨?_, ?_, ?_, ?_, ?_, hknown.limits_eq, ?_, ?_, ?_, ?_, ?_, ?_, hknown.failed⟩
  · rw [List.map_append, ← hknown.files_eq]
    rfl
  · intro i item hitem
    rw [List.getElem?_append] at hitem
    split at hitem
    · exact hknown.id_eq i item hitem
    · next hge =>
      obtain ⟨hlt, rfl⟩ := List.getElem?_eq_some_iff.mp hitem
      rw [List.length_singleton] at hlt
      simp only [List.getElem_singleton]
      omega
  · rw [List.map_append, List.map_singleton, List.nodup_append]
    refine ⟨hknown.nodup, List.pairwise_singleton .., fun p hp q hq => ?_⟩
    obtain rfl := List.mem_singleton.mp hq
    rintro rfl
    exact hnotMem hp
  -- the new path is found under the new number, every other one where it was
  · intro p id
    rw [List.map_append, List.map_singleton, List.getElem?_append, List.length_map]
    by_cases hp : p = path
    · subst hp
      have hself : (Loader.recordFile { s with budget := { s.budget with
          fileCount := s.budget.fileCount + 1
          totalInputBytes := s.budget.totalInputBytes + (stripUtf8Bom source).length } }
          p displayPath depth).discovered p = some s.files.length := Function.update_self ..
      rw [hself, hlength]
      constructor
      · intro h
        obtain rfl := Option.some.inj h
        rw [if_neg (Nat.lt_irrefl _), Nat.sub_self]
        rfl
      · intro h
        split at h
        · exact absurd (List.mem_of_getElem? h) hnotMem
        · next hge =>
          obtain ⟨hlt, -⟩ := List.getElem?_eq_some_iff.mp h
          rw [List.length_singleton] at hlt
          congr 1
          omega
    · have hother : (Loader.recordFile { s with budget := { s.budget with
          fileCount := s.budget.fileCount + 1
          totalInputBytes := s.budget.totalInputBytes + (stripUtf8Bom source).length } }
          path displayPath depth).discovered p = s.discovered p := Function.update_of_ne hp _ _
      rw [hother, hknown.discovered]
      split
      · exact Iff.rfl
      · next hge =>
        refine iff_of_false (fun h => ?_) fun h => hp ?_
        · obtain ⟨hlt, -⟩ := List.getElem?_eq_some_iff.mp h
          rw [List.length_map] at hlt
          exact hge hlt
        · exact (List.mem_singleton.mp (List.mem_of_getElem? h))
  · intro item hitem
    rcases List.mem_append.mp hitem with hold | hnew'
    · exact hknown.content item hold
    · obtain rfl := List.mem_singleton.mp hnew'
      exact hsource
  · rw [List.length_append, List.length_singleton, ← hcount]
    rfl
  · rw [hsum, List.sum_append, List.sum_singleton, ← htotal]
    rfl
  · rw [List.length_append, List.length_singleton]
    omega
  · rw [hsum, List.sum_append, List.sum_singleton]
    omega
  · intro item hitem
    rcases List.mem_append.mp hitem with hold | hnew'
    · exact hknown.depth_le item hold
    · obtain rfl := List.mem_singleton.mp hnew'
      exact hdepth
  · intro item hitem
    rcases List.mem_append.mp hitem with hold | hnew'
    · exact hknown.reached item hold
    · obtain rfl := List.mem_singleton.mp hnew'
      exact hreached

end ModernC.Loader

/-!
## The import graph

The imports of a file are refused, or they become edges to the files that they name, which are then
known.  The loop over them stops where the budget ends.
-/

namespace ModernC.Loader

open Framework

variable {env : Env} {root : Root} {limits : LoadLimits} {s s' : LoadState}
  {items done pending : List PendingFile} {item : PendingFile} {imp : ImportRef}

/-! ## One import -/

/-- An edge that stands for an import of a file. -/
structure EdgeTo (s : LoadState) (item : PendingFile) (imp : ImportRef) (e : ImportEdge) :
    Prop where
  inside : imp.outsideSandbox = false
  importer : e.importer = item.id
  span : e.span = imp.span
  imported : s.discovered imp.path = some e.imported

/-- What became of an import. -/
inductive ImportStep (env : Env) (root : Root) (limits : LoadLimits) (s : LoadState)
    (items : List PendingFile) (item : PendingFile) (imp : ImportRef) : Next → Prop where
  | refused (diag : Diagnostic) :
      ImportStep env root limits s items item imp (.go (s.report diag) none)
  | known {id : ℕ} : imp.outsideSandbox = false → s.discovered imp.path = some id →
      ImportStep env root limits s items item imp (.go (recordImport s item.id id imp.span) none)
  | loaded {s' : LoadState} {child : PendingFile} : imp.outsideSandbox = false →
      Known env root limits s' (items ++ [child]) → s'.sources = s.sources →
      s'.reported = s.reported → s'.imports = s.imports ++ [⟨item.id, child.id, imp.span⟩] →
      s'.discovered imp.path = some child.id → s'.budget.exhausted = s.budget.exhausted →
      ImportStep env root limits s items item imp (.go s' (some child))
  | stop {s' : LoadState} : Known env root limits s' items → s'.sources = s.sources →
      s'.imports = s.imports → s'.reported ≠ [] →
      ImportStep env root limits s items item imp (.stop s')

/-- The imports of a file that was found. -/
def PendingFile.refs (env : Env) (item : PendingFile) : List ImportRef :=
  refsOf env item.path (stripUtf8Bom item.source)

variable {next : Next}

lemma refuse_eq_ok {code : ImportCode} (h : refuse env s code item imp = .ok next) :
    ∃ diag, next = .go (s.report diag) none := by
  rw [refuse] at h
  split at h
  · exact ⟨_, (Except.ok.inj h).symm⟩
  · exact absurd h nofun

/-- The budget ends the loop. -/
lemma Known.stop (hknown : Known env root limits s items) {diag : Diagnostic}
    (h : (rejectBudget env s diag).map .stop = .ok next) :
    ImportStep env root limits s items item imp next := by
  rcases hreject : rejectBudget env s diag with e | s'
  · rw [hreject] at h
    exact absurd h nofun
  · rw [hreject] at h
    obtain rfl := Except.ok.inj h
    rw [rejectBudget_eq_ok hreject]
    exact .stop (hknown.exhaust diag) rfl rfl (List.concat_ne_nil diag s.reported)

/-- The path of a known file is in the table. -/
lemma Known.discovered_path (hknown : Known env root limits s items) (hitem : item ∈ items) :
    s.discovered item.path = some item.id := by
  obtain ⟨i, hi⟩ := List.mem_iff_getElem?.mp hitem
  rw [hknown.discovered, List.getElem?_map, hknown.id_eq i item hi, hi]
  rfl

/-- **One import** is refused, known or loaded, or it ends the loop. -/
lemma Known.expandImport (hknown : Known env root limits s items)
    (hgoing : s.budget.exhausted = false) (hroot : (s.discovered root.path).isSome)
    (hitem : item ∈ items) (himp : imp ∈ item.refs env)
    (h : expandImport env s item imp = .ok next) :
    ImportStep env root limits s items item imp next := by
  rw [Loader.expandImport] at h
  -- the sandbox first, then what was discovered, then the budget
  split at h
  · obtain ⟨diag, rfl⟩ := refuse_eq_ok h
    exact .refused diag
  · next houtside =>
    have hinside : imp.outsideSandbox = false := Bool.eq_false_iff.mpr houtside
    split at h
    · next id hid =>
      obtain rfl := Except.ok.inj h
      exact .known hinside hid
    · next hnone =>
      split at h
      · exact hknown.stop h
      · split at h
        · exact hknown.stop h
        · rw [loadImport] at h
          split at h
          · obtain ⟨diag, rfl⟩ := refuse_eq_ok h
            exact .refused diag
          · next source hread =>
            split at h
            · exact absurd h nofun
            · next s₁ hreserve =>
              rcases reserveFile_cases hreserve with ⟨diag, rfl⟩ | ⟨hdepth, hfiles, hbytes, rfl⟩
              · rw [if_pos rfl] at h
                obtain rfl := Except.ok.inj h
                exact .stop (hknown.exhaust diag) rfl rfl (List.concat_ne_nil diag s.reported)
              · split at h
                · next hexhausted => exact nomatch hgoing.symm.trans hexhausted
                · obtain rfl := Except.ok.inj h
                  have hcontent : source = contentOf env root imp.path := by
                    have hne : imp.path ≠ root.path := by
                      intro heq
                      rw [heq] at hnone
                      rw [hnone] at hroot
                      exact nomatch hroot
                    rw [contentOf, if_neg hne, hread]
                    rfl
                  have hreached : Relation.ReflTransGen (Imports env root) root.path imp.path := by
                    refine (hknown.reached item hitem).tail ⟨imp, ?_, rfl⟩
                    rw [← hknown.content item hitem]
                    exact himp
                  rw [hknown.limits_eq] at hdepth hfiles hbytes
                  have hknown' := hknown.recordFile imp.displayPath hnone hcontent hdepth
                    hfiles hbytes hreached
                  exact .loaded hinside (hknown'.recordImport ..) rfl rfl rfl
                    (Function.update_self ..) rfl

/-! ## The imports of a file -/

/-- More files are known. -/
def LoadState.Extends (s s' : LoadState) : Prop :=
  ∀ p id, s.discovered p = some id → s'.discovered p = some id

lemma Known.extends {new : List PendingFile} (hknown : Known env root limits s items)
    (hknown' : Known env root limits s' (items ++ new)) : s.Extends s' := by
  intro p id hid
  rw [hknown.discovered] at hid
  obtain ⟨hlt, -⟩ := List.getElem?_eq_some_iff.mp hid
  rw [hknown'.discovered, List.map_append, List.getElem?_append_left hlt, hid]

/-- The number of a path. -/
def LoadState.fileId (s : LoadState) (path : Bytes) : ℕ := (s.discovered path).getD 0

/-- The edge that an import asks for. -/
def edgeFor (s : LoadState) (importer : ℕ) (imp : ImportRef) : ImportEdge :=
  ⟨importer, s.fileId imp.path, imp.span⟩

/-- An import of a file that was found. -/
structure Resolved (s : LoadState) (imp : ImportRef) : Prop where
  inside : imp.outsideSandbox = false
  found : (s.discovered imp.path).isSome

lemma Resolved.extends (h : Resolved s imp) (hextends : s.Extends s') : Resolved s' imp := by
  obtain ⟨id, hid⟩ := Option.isSome_iff_exists.mp h.found
  exact ⟨h.inside, Option.isSome_iff_exists.mpr ⟨id, hextends _ id hid⟩⟩

lemma Resolved.edgeFor_eq (h : Resolved s imp) (hextends : s.Extends s') (importer : ℕ) :
    edgeFor s' importer imp = edgeFor s importer imp := by
  obtain ⟨id, hid⟩ := Option.isSome_iff_exists.mp h.found
  rw [edgeFor, edgeFor, LoadState.fileId, LoadState.fileId, hid, hextends _ id hid]

lemma EdgeTo.extends {e : ImportEdge} (h : EdgeTo s item imp e) (hextends : s.Extends s') :
    EdgeTo s' item imp e :=
  ⟨h.inside, h.importer, h.span, hextends _ _ h.imported⟩

/-- What the loop over some imports of a file does. -/
structure Expands (env : Env) (root : Root) (limits : LoadLimits) (item : PendingFile)
    (refs : List ImportRef) (s : LoadState) (items : List PendingFile) (s' : LoadState)
    (new : List PendingFile) (edges : List ImportEdge) : Prop where
  known : Known env root limits s' (items ++ new)
  sources : s'.sources = s.sources
  imports : s'.imports = s.imports ++ edges
  sound : ∀ e ∈ edges, ∃ imp ∈ refs, EdgeTo s' item imp e
  complete : s'.reported = [] → s.reported = [] ∧ edges = refs.map (edgeFor s' item.id) ∧
    ∀ imp ∈ refs, Resolved s' imp

/-- One import before the others. -/
lemma Expands.cons {refs : List ImportRef} {s₁ : LoadState} {new new' : List PendingFile}
    {edges edges' : List ImportEdge} (hknown : Known env root limits s₁ (items ++ new))
    (hsources : s₁.sources = s.sources) (himports : s₁.imports = s.imports ++ edges)
    (hsound : ∀ e ∈ edges, EdgeTo s₁ item imp e)
    (hcomplete : s₁.reported = [] → s.reported = [] ∧ edges = [edgeFor s₁ item.id imp] ∧
      Resolved s₁ imp)
    (hrest : Expands env root limits item refs s₁ (items ++ new) s' new' edges') :
    Expands env root limits item (imp :: refs) s items s' (new ++ new') (edges ++ edges') := by
  have hextends := hknown.extends hrest.known
  refine ⟨List.append_assoc items new new' ▸ hrest.known, hrest.sources.trans hsources, ?_, ?_, ?_⟩
  · rw [hrest.imports, himports, List.append_assoc]
  · intro e he
    rcases List.mem_append.mp he with hfirst | hlater
    · exact ⟨imp, List.mem_cons_self, (hsound e hfirst).extends hextends⟩
    · obtain ⟨imp', hmem, hedge⟩ := hrest.sound e hlater
      exact ⟨imp', List.mem_cons_of_mem imp hmem, hedge⟩
  · intro hnone
    obtain ⟨hnone₁, hedges', hresolved'⟩ := hrest.complete hnone
    obtain ⟨hnone₀, hedges, hresolved⟩ := hcomplete hnone₁
    refine ⟨hnone₀, ?_, List.forall_mem_cons.mpr ⟨hresolved.extends hextends, hresolved'⟩⟩
    rw [hedges, hedges', List.map_cons, hresolved.edgeFor_eq hextends]
    rfl

lemma Known.expandImports {refs : List ImportRef} {children children' : List PendingFile}
    (hknown : Known env root limits s items) (hgoing : s.budget.exhausted = false)
    (hroot : (s.discovered root.path).isSome) (hitem : item ∈ items)
    (hrefs : ∀ imp ∈ refs, imp ∈ item.refs env)
    (h : expandImports env item refs s children = .ok (s', children')) :
    ∃ new edges, children' = children ++ new ∧
      Expands env root limits item refs s items s' new edges := by
  -- what is known after one import is what the next one starts with
  induction refs generalizing s items children with
  | nil =>
    obtain ⟨rfl, rfl⟩ := Prod.mk.inj (Except.ok.inj h)
    refine ⟨[], [], (List.append_nil _).symm, ⟨?_, rfl, (List.append_nil _).symm, nofun, ?_⟩⟩
    · rwa [List.append_nil]
    · exact fun hnone => ⟨hnone, rfl, nofun⟩
  | cons imp refs ih =>
    have hrest : ∀ imp ∈ refs, imp ∈ item.refs env := fun imp' himp' =>
      hrefs imp' (List.mem_cons_of_mem imp himp')
    rw [Loader.expandImports] at h
    split at h
    · exact absurd h nofun
    · next s₁ child hstep =>
      have hcase := hknown.expandImport hgoing hroot hitem (hrefs imp List.mem_cons_self) hstep
      cases hcase with
      | refused diag =>
        obtain ⟨new, edges, hchildren, hexpands⟩ :=
          ih (hknown.report diag) hgoing hroot hitem hrest h
        have hknown₁ : Known env root limits (s.report diag) (items ++ []) :=
          (List.append_nil items).symm ▸ hknown.report diag
        refine ⟨[] ++ new, [] ++ edges, ?_, .cons hknown₁ rfl (List.append_nil _).symm nofun ?_ ?_⟩
        · rw [hchildren]
          simp
        · exact fun hnone => absurd hnone (List.concat_ne_nil diag s.reported)
        · rwa [List.append_nil]
      | @known id hinside hid =>
        obtain ⟨new, edges, hchildren, hexpands⟩ :=
          ih (hknown.recordImport ..) hgoing hroot hitem hrest h
        have hknown₁ :
            Known env root limits (Loader.recordImport s item.id id imp.span) (items ++ []) :=
          (List.append_nil items).symm ▸ hknown.recordImport ..
        refine ⟨[] ++ new, [⟨item.id, id, imp.span⟩] ++ edges, ?_,
          .cons hknown₁ rfl rfl ?_ ?_ ?_⟩
        · rw [hchildren]
          simp
        · intro e he
          obtain rfl := List.mem_singleton.mp he
          exact ⟨hinside, rfl, rfl, hid⟩
        · intro hnone
          refine ⟨hnone, ?_, hinside, Option.isSome_iff_exists.mpr ⟨id, hid⟩⟩
          have hfileId : (Loader.recordImport s item.id id imp.span).fileId imp.path = id := by
            rw [LoadState.fileId]
            exact congrArg (Option.getD · 0) hid
          rw [edgeFor, hfileId]
        · rwa [List.append_nil]
      | @loaded _ child hinside hknown₁ hsources hreported himports hid hexhausted =>
        have hroot₁ : (s₁.discovered root.path).isSome := by
          obtain ⟨id, hid⟩ := Option.isSome_iff_exists.mp hroot
          exact Option.isSome_iff_exists.mpr ⟨id, hknown.extends hknown₁ _ id hid⟩
        obtain ⟨new, edges, hchildren, hexpands⟩ := ih hknown₁ (hexhausted.trans hgoing) hroot₁
          (List.mem_append_left _ hitem) hrest h
        refine ⟨[child] ++ new, [⟨item.id, child.id, imp.span⟩] ++ edges, ?_,
          .cons hknown₁ hsources himports ?_ ?_ hexpands⟩
        · rw [hchildren, List.append_assoc]
          rfl
        · intro e he
          obtain rfl := List.mem_singleton.mp he
          exact ⟨hinside, rfl, rfl, hid⟩
        · intro hnone
          refine ⟨hreported ▸ hnone, ?_, hinside, Option.isSome_iff_exists.mpr ⟨child.id, hid⟩⟩
          rw [edgeFor, LoadState.fileId, hid]
          rfl
    · next s₁ hstep =>
      obtain ⟨rfl, rfl⟩ := Prod.mk.inj (Except.ok.inj h)
      have hcase := hknown.expandImport hgoing hroot hitem (hrefs imp List.mem_cons_self) hstep
      cases hcase with
      | stop hknown₁ hsources himports hreported =>
        refine ⟨[], [], (List.append_nil _).symm, ⟨?_, hsources, ?_, nofun, ?_⟩⟩
        · rwa [List.append_nil]
        · rw [himports, List.append_nil]
        · exact fun hnone => absurd hnone hreported

end ModernC.Loader
