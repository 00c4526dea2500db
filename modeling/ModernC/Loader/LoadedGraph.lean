import ModernC.Loader.ImportGraph

/-!
# The loaded graph

The expansion comes to an end.  It stays within its budget, and unless it fails it has recorded the
files that the root reaches, each once, with the imports of these files and no others.  The main
result, `expandAll_loaded`, holds for every file system and all limits.
-/

namespace ModernC.Loader

open Framework

variable {env : Env} {root : Root} {limits : LoadLimits} {s s' : LoadState}
  {items done pending : List PendingFile} {item : PendingFile}

/-! ## The loop -/

/-- What is recorded of a file that was expanded. -/
def PendingFile.recorded (env : Env) (item : PendingFile) : SourceFile :=
  ⟨item.id, stripUtf8Bom item.source, blanked (item.refs env) (stripUtf8Bom item.source)⟩

/-- The edges of a file. -/
def PendingFile.edges (env : Env) (s : LoadState) (item : PendingFile) : List ImportEdge :=
  (item.refs env).map (edgeFor s item.id)

/-- What holds between the files that are expanded. -/
structure Loading (env : Env) (root : Root) (limits : LoadLimits) (s : LoadState)
    (items done pending : List PendingFile) : Prop where
  known : Known env root limits s items
  found : (s.discovered root.path).isSome
  perm : (done ++ pending).Perm items
  sources : s.sources = done.map (PendingFile.recorded env)
  sound : ∀ e ∈ s.imports, ∃ item ∈ done, ∃ imp ∈ item.refs env, EdgeTo s item imp e
  complete : s.reported = [] → s.imports = done.flatMap (PendingFile.edges env s) ∧
    ∀ item ∈ done, ∀ imp ∈ item.refs env, Resolved s imp

/-- The scan of a file leaves the graph as it is. -/
lemma Known.scanned (hknown : Known env root limits s items) (reports : List Diagnostic)
    (sources : List SourceFile) :
    Known env root limits { s with reported := s.reported ++ reports, sources := sources } items :=
  ⟨hknown.files_eq, hknown.id_eq, hknown.nodup, hknown.discovered, hknown.content,
    hknown.limits_eq, hknown.fileCount_eq, hknown.bytes_eq, hknown.fileCount_le, hknown.bytes_le,
    hknown.depth_le, hknown.reached,
    fun h hnil => hknown.failed h (List.append_eq_nil_iff.mp hnil).1⟩

/-- **One file** is expanded. -/
lemma Loading.expandFile {children : List PendingFile}
    (hloading : Loading env root limits s items done (item :: pending))
    (hgoing : s.budget.exhausted = false)
    (h : expandFile env s item = .ok (s', children)) :
    ∃ new, Loading env root limits s' (items ++ new) (done ++ [item]) (children ++ pending) := by
  have hitem : item ∈ items := hloading.perm.mem_iff.mp (by simp)
  rw [Loader.expandFile] at h
  dsimp only at h
  split at h
  · exact absurd h nofun
  · next imports reports hscan =>
    have hrefs : item.refs env = imports := scanImports_eq_ok hscan
    have hknown := hloading.known.scanned reports (s.sources ++
      [⟨item.id, stripUtf8Bom item.source, blanked imports (stripUtf8Bom item.source)⟩])
    -- the imports are expanded from the state in which the file has been scanned
    obtain ⟨new, edges, hchildren, hexpands⟩ := hknown.expandImports hgoing hloading.found hitem
      (fun imp himp => hrefs ▸ himp) h
    have hextends : s.Extends s' := hloading.known.extends hexpands.known
    refine ⟨new, hexpands.known, ?_, ?_, ?_, ?_, ?_⟩
    · obtain ⟨id, hid⟩ := Option.isSome_iff_exists.mp hloading.found
      exact Option.isSome_iff_exists.mpr ⟨id, hextends _ id hid⟩
    · rw [hchildren, List.nil_append]
      have hfront : (done ++ [item] ++ (new ++ pending)).Perm
          (done ++ item :: pending ++ new) := by
        rw [List.append_assoc, List.append_assoc]
        refine List.Perm.append_left done ?_
        exact (List.perm_append_comm : (new ++ pending).Perm (pending ++ new)).cons item
      exact hfront.trans (hloading.perm.append_right new)
    · rw [hexpands.sources, List.map_append, ← hloading.sources, List.map_singleton,
        PendingFile.recorded, hrefs]
    · intro e he
      rw [hexpands.imports] at he
      rcases List.mem_append.mp he with hold | hnew
      · obtain ⟨item', hitem', imp, himp, hedge⟩ := hloading.sound e hold
        exact ⟨item', List.mem_append_left _ hitem', imp, himp, hedge.extends hextends⟩
      · obtain ⟨imp, himp, hedge⟩ := hexpands.sound e hnew
        exact ⟨item, by simp, imp, hrefs ▸ himp, hedge⟩
    · intro hnone
      obtain ⟨hnone₁, hedges, hresolved⟩ := hexpands.complete hnone
      have hnone₀ : s.reported = [] := (List.append_eq_nil_iff.mp hnone₁).1
      obtain ⟨himports, hdone⟩ := hloading.complete hnone₀
      constructor
      · have hold : done.flatMap (PendingFile.edges env s') =
            done.flatMap (PendingFile.edges env s) := by
          refine List.flatMap_congr fun item' hitem' => ?_
          refine List.map_congr_left fun imp himp => ?_
          exact (hdone item' hitem' imp himp).edgeFor_eq hextends item'.id
        rw [hexpands.imports, List.flatMap_append, hold, ← himports, hedges]
        simp [PendingFile.edges, hrefs]
      · intro item' hitem' imp himp
        rcases List.mem_append.mp hitem' with hold | hnew
        · exact (hdone item' hold imp himp).extends hextends
        · obtain rfl := List.mem_singleton.mp hnew
          exact hresolved imp (hrefs ▸ himp)

/-- **The loop ends**, since no file is pending twice. -/
lemma Loading.expandPending {fuel : ℕ} (hloading : Loading env root limits s items done pending)
    (hfuel : limits.maxFiles < fuel + done.length) :
    ∃ result, expandPending env fuel s pending = some result ∧
      ∀ s', result = .ok s' → ∃ items done pending,
        Loading env root limits s' items done pending ∧ (s'.reported = [] → pending = []) := by
  induction fuel generalizing s items done pending with
  | zero =>
    have hcount := hloading.perm.length_eq
    have hle := hloading.known.fileCount_le
    rw [List.length_append] at hcount
    omega
  | succ fuel ih =>
    rcases pending with _ | ⟨item, pending⟩
    · refine ⟨.ok s, rfl, fun s' hs' => ?_⟩
      obtain rfl := Except.ok.inj hs'
      exact ⟨items, done, [], hloading, fun _ => rfl⟩
    · rw [Loader.expandPending]
      by_cases hgoing : s.budget.exhausted = true
      · rw [if_pos hgoing]
        refine ⟨.ok s, rfl, fun s' hs' => ?_⟩
        obtain rfl := Except.ok.inj hs'
        exact ⟨items, done, _, hloading, fun hnone =>
          absurd hnone (hloading.known.failed hgoing)⟩
      · rw [if_neg hgoing]
        rcases hfile : Loader.expandFile env s item with e | ⟨s₁, children⟩
        · exact ⟨.error e, rfl, nofun⟩
        · obtain ⟨new, hloading₁⟩ :=
            hloading.expandFile (Bool.not_eq_true _ ▸ hgoing) hfile
          dsimp only
          by_cases hexhausted : s₁.budget.exhausted = true
          · rw [if_pos hexhausted]
            refine ⟨.ok s₁, rfl, fun s' hs' => ?_⟩
            obtain rfl := Except.ok.inj hs'
            exact ⟨_, _, _, hloading₁, fun hnone =>
              absurd hnone (hloading₁.known.failed hexhausted)⟩
          · rw [if_neg hexhausted]
            refine ih hloading₁ ?_
            rw [List.length_append, List.length_singleton]
            omega

/-! ## The result -/

/-- The path of a file. -/
def LoadState.path (s : LoadState) (id : ℕ) : Bytes :=
  (s.files[id]?.map ModuleFile.canonicalPath).getD []

/-- The imports of a file that was recorded. -/
def importsOf (env : Env) (s : LoadState) (src : SourceFile) : List ImportRef :=
  refsOf env (s.path src.id) src.source

/-- A file as it is loaded, without its byte order mark. -/
def loadedSource (env : Env) (root : Root) (path : Bytes) : Bytes :=
  stripUtf8Bom (contentOf env root path)

/-- **What the expansion has recorded** when it returns. -/
structure Loaded (env : Env) (root : Root) (limits : LoadLimits) (s : LoadState) : Prop where
  ids : ∀ (i : ℕ) (file : ModuleFile), s.files[i]? = some file → file.id = i
  once : (s.files.map ModuleFile.canonicalPath).Nodup
  reached : ∀ file ∈ s.files,
    Relation.ReflTransGen (Imports env root) root.path file.canonicalPath
  files_le : s.files.length ≤ limits.maxFiles
  bytes_le : (s.files.map fun file => (loadedSource env root file.canonicalPath).length).sum ≤
    limits.maxTotalInputBytes
  depth_le : ∀ file ∈ s.files, file.depth ≤ limits.maxImportDepth
  blanked : ∀ src ∈ s.sources, src.source = loadedSource env root (s.path src.id) ∧
    IsBlanked (importsOf env s src) src.source src.parserSource
  sound : ∀ e ∈ s.imports, ∃ src ∈ s.sources, ∃ imp ∈ importsOf env s src,
    e.importer = src.id ∧ e.span = imp.span ∧ e.imported < s.files.length ∧
      s.path e.imported = imp.path
  failed : s.budget.exhausted = true → s.reported ≠ []
  all : s.reported = [] → ∀ path, Relation.ReflTransGen (Imports env root) root.path path →
    path ∈ s.files.map ModuleFile.canonicalPath
  complete : s.reported = [] → (s.sources.map SourceFile.id).Perm (List.range s.files.length) ∧
    s.imports = s.sources.flatMap (fun src =>
      (importsOf env s src).map fun imp => ⟨src.id, s.fileId imp.path, imp.span⟩) ∧
    ∀ src ∈ s.sources, ∀ imp ∈ importsOf env s src,
      s.fileId imp.path < s.files.length ∧ s.path (s.fileId imp.path) = imp.path

lemma Known.path_eq (hknown : Known env root limits s items) (hitem : item ∈ items) :
    s.path item.id = item.path := by
  obtain ⟨i, hi⟩ := List.mem_iff_getElem?.mp hitem
  rw [LoadState.path, hknown.files_eq, List.getElem?_map, hknown.id_eq i item hi, hi]
  rfl

lemma Known.path_discovered (hknown : Known env root limits s items) {p : Bytes} {id : ℕ}
    (hid : s.discovered p = some id) : id < s.files.length ∧ s.path id = p := by
  rw [hknown.discovered] at hid
  have hpath : s.files[id]?.map ModuleFile.canonicalPath = some p := by
    rw [hknown.files_eq, List.getElem?_map, Option.map_map]
    rwa [List.getElem?_map] at hid
  obtain ⟨hlt, -⟩ := List.getElem?_eq_some_iff.mp hid
  rw [List.length_map] at hlt
  refine ⟨?_, by rw [LoadState.path, hpath]; rfl⟩
  rwa [hknown.files_eq, List.length_map]

/-- Every file that the root reaches is found. -/
lemma Loading.found_of_reaches (hloading : Loading env root limits s items done [])
    (hnone : s.reported = []) {path : Bytes}
    (hpath : Relation.ReflTransGen (Imports env root) root.path path) :
    (s.discovered path).isSome := by
  induction hpath with
  | refl => exact hloading.found
  | tail _ himports ih =>
    obtain ⟨imp, himp, rfl⟩ := himports
    obtain ⟨id, hid⟩ := Option.isSome_iff_exists.mp ih
    obtain ⟨item, hitem, rfl⟩ :=
      List.mem_map.mp (List.mem_of_getElem? ((hloading.known.discovered _ id).mp hid))
    have hdone : item ∈ done := by
      have hperm := hloading.perm.mem_iff.mpr hitem
      rwa [List.append_nil] at hperm
    rw [← hloading.known.content item hitem] at himp
    exact ((hloading.complete hnone).2 item hdone imp himp).found

lemma Loading.loaded (hloading : Loading env root limits s items done pending)
    (hpending : s.reported = [] → pending = []) : Loaded env root limits s := by
  have hknown := hloading.known
  have hdone : ∀ item ∈ done, item ∈ items := fun item hitem =>
    hloading.perm.mem_iff.mp (List.mem_append_left _ hitem)
  have hsource : ∀ item ∈ items,
      stripUtf8Bom item.source = loadedSource env root item.path := fun item hitem => by
    rw [loadedSource, hknown.content item hitem]
  have himports : ∀ item ∈ done, importsOf env s (item.recorded env) = item.refs env := by
    intro item hitem
    have hpath : s.path (item.recorded env).id = item.path := hknown.path_eq (hdone item hitem)
    rw [importsOf, hpath]
    rfl
  have hpaths : s.files.map ModuleFile.canonicalPath = items.map PendingFile.path := by
    rw [hknown.files_eq, List.map_map]
    rfl
  have hlength : s.files.length = items.length := by rw [hknown.files_eq, List.length_map]
  constructor
  · intro i file hfile
    rw [hknown.files_eq, List.getElem?_map] at hfile
    obtain ⟨item, hitem, rfl⟩ := Option.map_eq_some_iff.mp hfile
    exact hknown.id_eq i item hitem
  · rw [hpaths]
    exact hknown.nodup
  · intro file hfile
    rw [hknown.files_eq] at hfile
    obtain ⟨item, hitem, rfl⟩ := List.mem_map.mp hfile
    exact hknown.reached item hitem
  · rw [hlength]
    exact hknown.fileCount_le
  · have hbytes : (s.files.map fun file => (loadedSource env root file.canonicalPath).length) =
        items.map PendingFile.bytes := by
      rw [hknown.files_eq, List.map_map]
      refine List.map_congr_left fun item hitem => ?_
      exact congrArg List.length (hsource item hitem).symm
    rw [hbytes]
    exact hknown.bytes_le
  · intro file hfile
    rw [hknown.files_eq] at hfile
    obtain ⟨item, hitem, rfl⟩ := List.mem_map.mp hfile
    exact hknown.depth_le item hitem
  · intro src hsrc
    rw [hloading.sources] at hsrc
    obtain ⟨item, hitem, rfl⟩ := List.mem_map.mp hsrc
    refine ⟨?_, ?_⟩
    · have hpath : s.path (item.recorded env).id = item.path := hknown.path_eq (hdone item hitem)
      rw [hpath]
      exact hsource item (hdone item hitem)
    · rw [himports item hitem]
      exact isBlanked_blanked _ _
  · intro e he
    obtain ⟨item, hitem, imp, himp, hedge⟩ := hloading.sound e he
    refine ⟨item.recorded env, ?_, imp, ?_, hedge.importer, hedge.span,
      hknown.path_discovered hedge.imported⟩
    · rw [hloading.sources]
      exact List.mem_map_of_mem hitem
    · rwa [himports item hitem]
  · exact hknown.failed
  -- nothing is left to expand, so what is reached has been found
  · intro hnone path hpath
    have hend := hloading
    rw [hpending hnone] at hend
    obtain ⟨id, hid⟩ := Option.isSome_iff_exists.mp (hend.found_of_reaches hnone hpath)
    rw [hpaths]
    exact List.mem_of_getElem? ((hknown.discovered path id).mp hid)
  -- each recorded file was expanded once, and its imports were resolved then
  · intro hnone
    obtain ⟨hedges, hresolved⟩ := hloading.complete hnone
    have hperm := hloading.perm
    rw [hpending hnone, List.append_nil] at hperm
    refine ⟨?_, ?_, ?_⟩
    · have hids : s.sources.map SourceFile.id = done.map PendingFile.id := by
        rw [hloading.sources, List.map_map]
        rfl
      have hrange : items.map PendingFile.id = List.range items.length := by
        refine List.ext_getElem? fun i => ?_
        rw [List.getElem?_map]
        rcases hi : items[i]? with _ | item
        · rw [List.getElem?_eq_none_iff] at hi
          rw [List.getElem?_eq_none (by rwa [List.length_range])]
          rfl
        · obtain ⟨hlt, -⟩ := List.getElem?_eq_some_iff.mp hi
          rw [List.getElem?_range hlt, Option.map_some, hknown.id_eq i item hi]
      rw [hids, hlength, ← hrange]
      exact hperm.map _
    · rw [hedges, hloading.sources, List.flatMap_map]
      refine List.flatMap_congr fun item hitem => ?_
      rw [himports item hitem]
      rfl
    · intro src hsrc imp himp
      rw [hloading.sources] at hsrc
      obtain ⟨item, hitem, rfl⟩ := List.mem_map.mp hsrc
      rw [himports item hitem] at himp
      obtain ⟨id, hid⟩ := Option.isSome_iff_exists.mp (hresolved item hitem imp himp).found
      have hfileId : s.fileId imp.path = id := by rw [LoadState.fileId, hid]; rfl
      rw [hfileId]
      exact hknown.path_discovered hid

/-! ## The root -/

/-- Nothing is found yet. -/
lemma known_initialState (env : Env) (root : Root) (limits : LoadLimits) :
    Known env root limits (initialState limits) [] := by
  refine ⟨rfl, nofun, List.nodup_nil, ?_, nofun, rfl, rfl, rfl, Nat.zero_le _, Nat.zero_le _,
    nofun, nofun, nofun⟩
  intro p id
  exact iff_of_false nofun nofun

/-- The root is pending first. -/
lemma Known.loading (hknown : Known env root limits s [item]) (hpath : item.path = root.path)
    (hsources : s.sources = []) (himports : s.imports = []) :
    Loading env root limits s [item] [] [item] := by
  refine ⟨hknown, ?_, .refl _, hsources, ?_, fun _ => ⟨himports, nofun⟩⟩
  · rw [← hpath, hknown.discovered_path List.mem_cons_self]
    rfl
  · rw [himports]
    exact nofun

/-- An expansion that does not start has nothing pending. -/
lemma loading_refused (env : Env) (root : Root) (limits : LoadLimits) (diag : Diagnostic) :
    Loaded env root limits { (initialState limits).report diag with
      budget := { (initialState limits).budget with exhausted := true } } := by
  refine ⟨nofun, List.nodup_nil, nofun, Nat.zero_le _, Nat.zero_le _, nofun, nofun, nofun,
    fun _ => List.concat_ne_nil diag [], ?_, ?_⟩
  · exact fun hnone => absurd hnone (List.concat_ne_nil diag [])
  · exact fun hnone => absurd hnone (List.concat_ne_nil diag [])

/-- **The expansion** of the imports of a root file ends, with an error or with the loaded graph. -/
theorem expandAll_loaded (env : Env) (limits : LoadLimits) (path displayPath source : Bytes) :
    ∃ result, expandAll env limits path displayPath source = some result ∧
      ∀ s, result = .ok s → Loaded env ⟨path, source⟩ limits s := by
  rw [expandAll]
  rcases hreserve : reserveFile env (initialState limits) .root 0 (stripUtf8Bom source).length with
    e | s₀
  · exact ⟨.error e, rfl, nofun⟩
  · rcases reserveFile_cases hreserve with ⟨diag, rfl⟩ | ⟨hdepth, hfiles, hbytes, rfl⟩
    · refine ⟨.ok _, rfl, fun s hs => ?_⟩
      obtain rfl := Except.ok.inj hs
      exact loading_refused env ⟨path, source⟩ limits diag
    · have hroot : source = contentOf env ⟨path, source⟩ path := by rw [contentOf, if_pos rfl]
      have hknown := (known_initialState env ⟨path, source⟩ limits).recordFile displayPath rfl hroot
        hdepth hfiles hbytes .refl
      have hloading := hknown.loading rfl rfl rfl
      obtain ⟨result, hresult, hloaded⟩ := hloading.expandPending (Nat.lt_succ_self limits.maxFiles)
      refine ⟨result, hresult, fun s hs => ?_⟩
      obtain ⟨items, done, pending, hloading, hpending⟩ := hloaded s hs
      exact hloading.loaded hpending

/-- Every file reads `import "a";`, and there is no other file. -/
def lonelyEnv : Env where
  reporter := true
  tokens _ := [⟨.identifier, importLexeme, ⟨0, 6, 1, 1⟩⟩, ⟨.stringLiteral, [34, 97, 34],
    ⟨7, 3, 1, 8⟩⟩, ⟨.semicolon, [59], ⟨10, 1, 1, 11⟩⟩]
  lexErrors _ := false
  resolve _ path := .ok ⟨path, path, false⟩
  read _ := none

/-- The root, behind a byte order mark. -/
def markedRoot : Root :=
  ⟨[114], [0xEF, 0xBB, 0xBF] ++ importLexeme ++ [32, 34, 97, 34, 59, 10]⟩

/-- The view of the parser has lost the byte order mark, and an import that was refused no edge. -/
theorem markedRoot_shortened : ∃ s,
    expandAll lonelyEnv ⟨4, 64, 4⟩ markedRoot.path [] markedRoot.source = some (.ok s) ∧
      ∃ src ∈ s.sources,
        src.parserSource.length ≠ (contentOf lonelyEnv markedRoot (s.path src.id)).length ∧
        importsOf lonelyEnv s src ≠ [] ∧ s.imports = [] :=
  ⟨_, rfl, _, List.mem_cons_self, by decide, nofun, rfl⟩

end ModernC.Loader
