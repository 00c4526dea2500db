import Mathlib.Data.Nat.Notation
import Mathlib.Logic.Function.Basic
import ModernC.Framework.Programs

/-!
# The artifact publisher

`artifact_publisher.zig` writes an artifact and its metadata sidecar.  Each file is staged in a
temporary one and then replaced in a single indivisible operation; the two together are not.
The functions are programs over the file operations that they perform.  Any operation may fail,
and the process may be killed between two operations.

The metadata of a bundle are the bytes that `artifact_model.zig` renders.  Temporary files of
atomic replacements have fresh names and are not part of the file system here; their contents
stand in the operation that commits them.
-/

namespace ModernC.Publisher

open Framework

/-! ## The file system -/

abbrev Path := String

abbrev Bytes := List UInt8

inductive Entry where
  | file (bytes : Bytes)
  | directory
deriving DecidableEq

inductive FileKind where
  | file
  | directory
deriving DecidableEq

def Entry.kind : Entry → FileKind
  | .file _ => .file
  | .directory => .directory

abbrev FileSystem := Path → Option Entry

/-! ## File operations -/

inductive FileError where
  | fileNotFound
  | brokenPipe
  | other (name : String)
deriving DecidableEq

/-- `@errorName`. -/
def FileError.name : FileError → String
  | .fileNotFound => "FileNotFound"
  | .brokenPipe => "BrokenPipe"
  | .other name => name

/-- File operations and the messages on the error stream. -/
inductive FileOp where
  | stat (path : Path)
  | read (path : Path) (limit : ℕ)
  | create (path : Path)
  | write (path : Path) (bytes : Bytes)
  | replace (path : Path) (bytes : Bytes)
  | rename (source target : Path)
  | delete (path : Path)
  | stdout (bytes : Bytes)
  | print (message : String)
deriving DecidableEq

def FileOp.Value : FileOp → Type
  | .stat _ => FileKind
  | .read _ _ => Bytes
  | _ => Unit

abbrev Answer (op : FileOp) : Type := Except FileError op.Value

/-- The operations that answer that there is no such file. -/
def FileOp.seeksFile : FileOp → Bool
  | .stat _ | .read _ _ | .delete _ => true
  | _ => false

/-- The files, and how many operations have failed. -/
structure State where
  files : FileSystem
  failures : ℕ

/-- What a file operation may do.  It may fail in any state, with any error; `fileNotFound` from
an operation that looks for a file, and a broken pipe, are answers and no failures. -/
inductive Acts : World FileOp Answer State
  | stat {path entry s} (found : s.files path = some entry) : Acts (.stat path) s (.ok entry.kind) s
  | read {path limit bytes s} (found : s.files path = some (.file bytes))
      (fits : bytes.length ≤ limit) : Acts (.read path limit) s (.ok bytes) s
  | create {path s} : Acts (.create path) s (.ok ()) s
  | write {path bytes s} : Acts (.write path bytes) s (.ok ()) s
  | replace {path bytes s} (target : s.files path ≠ some .directory) :
      Acts (.replace path bytes) s (.ok ())
        { s with files := Function.update s.files path (some (.file bytes)) }
  | rename {source target entry s} (found : s.files source = some entry)
      (free : s.files target ≠ some .directory) :
      Acts (.rename source target) s (.ok ())
        { s with
          files := Function.update (Function.update s.files source none) target (some entry) }
  | delete {path bytes s} (found : s.files path = some (.file bytes)) :
      Acts (.delete path) s (.ok ()) { s with files := Function.update s.files path none }
  | absent {op s} {path : Path}
      (seeks : op = .stat path ∨ (∃ limit, op = .read path limit) ∨ op = .delete path)
      (missing : s.files path = none) : Acts op s (.error .fileNotFound) s
  | stdout {bytes s} : Acts (.stdout bytes) s (.ok ()) s
  | brokenPipe {bytes s} : Acts (.stdout bytes) s (.error .brokenPipe) s
  | print {message s} : Acts (.print message) s (.ok ()) s
  | fails {op s error} (fallible : ∀ message, op ≠ .print message)
      (failure : error = .fileNotFound → op.seeksFile = false) :
      Acts op s (.error error) { s with failures := s.failures + 1 }

/-! ## The publisher -/

inductive PublishError where
  | outputWriteFailed
  | file (error : FileError)
deriving DecidableEq

def PublishError.name : PublishError → String
  | .outputWriteFailed => "OutputWriteFailed"
  | .file error => error.name

abbrev Publish := ExceptT PublishError (Program FileOp Answer)

def attempt (op : FileOp) : Publish (Answer op) := ExceptT.lift (.operation op)

/-- A message on the error stream. -/
def report (message : String) : Publish Unit := do
  let _ ← attempt (.print message)
  pure ()

/-- A message on the error stream, then `OutputWriteFailed`. -/
def failWith {α : Type} (message : String) : Publish α := do
  report message
  throw .outputWriteFailed

def unableTo (action label : String) (path : Path) (error : String) : String :=
  "error: unable to " ++ action ++ " " ++ label ++ " \"" ++ path ++ "\": " ++ error ++ "\n"

/-- An operation whose every error is reported and becomes `OutputWriteFailed`. -/
def attemptTo (action label : String) (path : Path) (op : FileOp) : Publish op.Value := do
  match ← attempt op with
  | .ok value => pure value
  | .error error => failWith (unableTo action label path error.name)

/-- `max_metadata_bytes`. -/
def maxMetadataBytes : ℕ := 512 * 1024 * 1024

def metadataPath (outputPath : Path) : Path := outputPath ++ ".mcmeta"

def writeStdout (bytes : Bytes) : Publish Unit := do
  match ← attempt (.stdout bytes) with
  | .ok _ => pure ()
  | .error .brokenPipe => pure ()
  | .error error => throw (.file error)

/-- Creates the temporary file of an atomic replacement and writes it. -/
def stage (label : String) (path : Path) (bytes : Bytes) : Publish Unit := do
  let _ ← attemptTo "write" label path (.create path)
  let _ ← attemptTo "write" label path (.write path bytes)
  pure ()

def commit (label : String) (path : Path) (bytes : Bytes) : Publish Unit := do
  let _ ← attemptTo "commit" label path (.replace path bytes)
  pure ()

def writeOutputPath (path : Path) (bytes : Bytes) : Publish Unit := do
  stage "output" path bytes
  commit "output" path bytes

def ensureReplaceTargetNotDirectory (path : Path) (label : String) : Publish Unit := do
  match ← attempt (.stat path) with
  | .ok .directory =>
    failWith ("error: unable to replace " ++ label ++ " \"" ++ path ++
      "\": destination is a directory\n")
  | .ok .file => pure ()
  | .error .fileNotFound => pure ()
  | .error error => failWith (unableTo "inspect" label path error.name)

inductive MetadataSidecarSnapshot where
  | absent
  | present (bytes : Bytes)
deriving DecidableEq

def snapshotMetadataSidecar (path : Path) : Publish MetadataSidecarSnapshot := do
  match ← attempt (.read path maxMetadataBytes) with
  | .ok bytes => pure (.present bytes)
  | .error .fileNotFound => pure .absent
  | .error error => failWith (unableTo "snapshot" "metadata sidecar" path error.name)

def restoreMetadataSidecar (path : Path) : MetadataSidecarSnapshot → Publish Unit
  | .absent => do
    match ← attempt (.delete path) with
    | .ok _ => pure ()
    | .error .fileNotFound => pure ()
    | .error error => failWith (unableTo "remove" "rolled-back metadata sidecar" path error.name)
  | .present bytes => writeOutputPath path bytes

/-- The checks of both destinations and the snapshot, before anything is staged. -/
def prepare (path : Path) (label : String) : Publish MetadataSidecarSnapshot := do
  ensureReplaceTargetNotDirectory path label
  ensureReplaceTargetNotDirectory (metadataPath path) "metadata sidecar"
  snapshotMetadataSidecar (metadataPath path)

/-- Makes the artifact visible; if that fails, restores the sidecar.  An error of the rollback
is reported, and the error of the publication stands. -/
def commitOrRollBack (path : Path) (label : String) (snapshot : MetadataSidecarSnapshot)
    (op : FileOp) : Publish Unit := do
  match ← attempt op with
  | .ok _ => pure ()
  | .error error =>
    report (unableTo "commit" label path error.name)
    tryCatch (restoreMetadataSidecar (metadataPath path) snapshot) fun error =>
      report ("error: unable to roll back metadata sidecar \"" ++ metadataPath path ++
        "\" after " ++ label ++ " commit failure: " ++ error.name ++ "\n")
    throw .outputWriteFailed

/-- Publishes the sidecar before the artifact, which is the visible commit point. -/
def writeArtifactWithMetadata (bytes : Bytes) (outputPath : Option Path) (metadata : Bytes) :
    Publish Unit :=
  match outputPath with
  | none => writeStdout bytes
  | some path => do
    let snapshot ← prepare path "output"
    stage "metadata sidecar" (metadataPath path) metadata
    stage "output" path bytes
    commit "metadata sidecar" (metadataPath path) metadata
    commitOrRollBack path "output" snapshot (.replace path bytes)

/-- The same for an artifact that another tool has left in a temporary file. -/
def publishExistingFileWithMetadata (tmpPath outputPath : Path) (metadata : Bytes)
    (artifactLabel : String) : Publish Unit := do
  let snapshot ← prepare outputPath artifactLabel
  stage "metadata sidecar" (metadataPath outputPath) metadata
  commit "metadata sidecar" (metadataPath outputPath) metadata
  commitOrRollBack outputPath artifactLabel snapshot (.rename tmpPath outputPath)

/-- The name of a temporary file of a build. -/
def buildTempPath (outputPath : Path) (pid thread attempt : ℕ) (suffix : String) : Path :=
  outputPath ++ ".mc-build-" ++ toString pid ++ "-" ++ toString thread ++ "-" ++
    toString attempt ++ "." ++ suffix

end ModernC.Publisher

/-!
## Publication is all or nothing

Up to the commit of the sidecar nothing changes; from there to the commit of the artifact only
the sidecar has changed, and the snapshot restores it.  A rollback can itself only fail by a
second failing operation.
-/

namespace ModernC.Publisher

open Framework Framework.Program

/-! ## Rules for single operations -/

variable {inv : State → Prop} {s : State}

variable {op : FileOp} {label : String} {path : Path} {last : State}
  {snapshot : MetadataSidecarSnapshot}

lemma meets_attemptBind {α : Type} {f : Answer op → Publish α}
    {post : Except PublishError α → State → Prop} (hinv : inv s)
    (h : ∀ answer last, Acts op s answer last → Meets Acts inv post (f answer).run last) :
    Meets Acts inv post (attempt op >>= f).run s :=
  ⟨hinv, fun answer last hacts => h answer last hacts⟩

lemma meets_reportBind {α : Type} {message : String} {f : Unit → Publish α}
    {post : Except PublishError α → State → Prop} (hinv : inv s)
    (h : Meets Acts inv post (f ()).run s) :
    Meets Acts inv post (report message >>= f).run s := by
  refine ⟨hinv, fun answer last hacts => ?_⟩
  have hlast : last = s := by
    cases hacts with
    | print => rfl
    | absent hseeks => simp at hseeks
    | fails hfallible => exact absurd rfl (hfallible message)
  rw [hlast]
  exact h

lemma meets_failWith {α : Type} {message : String} {post : Except PublishError α → State → Prop}
    (hinv : inv s) (hpost : post (.error .outputWriteFailed) s) :
    Meets Acts inv post (failWith message).run s :=
  meets_reportBind hinv (meets_throw hinv hpost)

/-- An operation that is reported on failure: the sequence goes on after success only. -/
lemma meets_attemptToBind {α : Type} {action : String}
    {f : op.Value → Publish α} {post : Except PublishError α → State → Prop} (hinv : inv s)
    (hok : ∀ value last, Acts op s (.ok value) last → Meets Acts inv post (f value).run last)
    (herror : ∀ error last, Acts op s (.error error) last →
      inv last ∧ post (.error .outputWriteFailed) last) :
    Meets Acts inv post (attemptTo action label path op >>= f).run s := by
  refine meets_exceptBind (meets_attemptBind hinv fun answer last hacts => ?_)
  rcases answer with error | value
  · obtain ⟨hlast, hpost⟩ := herror error last hacts
    exact meets_failWith hlast hpost
  · have h := hok value last hacts
    exact meets_ok h.holds h

/-- An error of an operation leaves the files. -/
lemma files_of_acts_error {error : FileError}
    (h : Acts op s (.error error) last) : last.files = s.files := by
  cases h <;> rfl

/-- An error of an operation that does not look for a file is a failure. -/
lemma failures_of_acts_error {error : FileError}
    (hseeks : op.seeksFile = false) (hstdout : ∀ bytes, op ≠ .stdout bytes)
    (h : Acts op s (.error error) last) : last.failures = s.failures + 1 := by
  cases h with
  | absent hop =>
    rcases hop with rfl | ⟨limit, rfl⟩ | rfl <;> simp [FileOp.seeksFile] at hseeks
  | brokenPipe => exact absurd rfl (hstdout _)
  | fails => rfl

/-! ## The steps of a publication -/

lemma absent_of_acts {op : FileOp} {last : State}
    (hop : op = .stat path ∨ ∃ limit, op = .read path limit)
    (hacts : Acts op s (.error .fileNotFound) last) : last = s ∧ s.files path = none := by
  cases hacts with
  | absent hseeks hmissing => rcases hop with rfl | ⟨limit, rfl⟩ <;> simp_all
  | fails _ hfailure => rcases hop with rfl | ⟨limit, rfl⟩ <;> simp [FileOp.seeksFile] at hfailure

lemma meets_ensureReplaceTargetNotDirectory (hinv : ∀ last, last.files = s.files → inv last) :
    Meets Acts inv
      (fun result last => last.files = s.files ∧
        outcome (fun _ => last = s ∧ s.files path ≠ some .directory) (fun _ => True) result)
      (ensureReplaceTargetNotDirectory path label).run s := by
  refine meets_attemptBind (hinv s rfl) fun answer last hacts => ?_
  rcases answer with error | kind
  · have hfiles := files_of_acts_error hacts
    cases error with
    | fileNotFound =>
      obtain ⟨hlast, hnone⟩ := absent_of_acts (.inl rfl) hacts
      exact meets_ok (hinv last hfiles) ⟨hfiles, hlast, by rw [hnone]; simp⟩
    | brokenPipe | other name => exact meets_failWith (hinv last hfiles) ⟨hfiles, trivial⟩
  · cases hacts with
    | @stat _ entry _ hfound =>
      cases entry with
      | file bytes => exact meets_ok (hinv s rfl) ⟨rfl, rfl, by rw [hfound]; simp⟩
      | directory => exact meets_failWith (hinv s rfl) ⟨rfl, trivial⟩

/-- What the sidecar was: nothing, or a file. -/
def MetadataSidecarSnapshot.entry : MetadataSidecarSnapshot → Option Entry
  | .absent => none
  | .present bytes => some (.file bytes)

lemma meets_snapshotMetadataSidecar (hinv : ∀ last, last.files = s.files → inv last) :
    Meets Acts inv
      (fun result last => last.files = s.files ∧
        outcome (fun snapshot => last = s ∧ snapshot.entry = s.files path) (fun _ => True) result)
      (snapshotMetadataSidecar path).run s := by
  refine meets_attemptBind (hinv s rfl) fun answer last hacts => ?_
  rcases answer with error | bytes
  · have hfiles := files_of_acts_error hacts
    cases error with
    | fileNotFound =>
      obtain ⟨hlast, hnone⟩ := absent_of_acts (.inr ⟨_, rfl⟩) hacts
      exact meets_ok (hinv last hfiles) ⟨hfiles, hlast, hnone.symm⟩
    | brokenPipe | other name => exact meets_failWith (hinv last hfiles) ⟨hfiles, trivial⟩
  · cases hacts with
    | read hfound hfits => exact meets_ok (hinv s rfl) ⟨rfl, rfl, hfound.symm⟩

/-- Staging leaves the files. -/
lemma meets_stage {bytes : Bytes} (hinv : ∀ last, last.files = s.files → inv last) :
    Meets Acts inv
      (fun result last => last.files = s.files ∧
        outcome (fun _ => last = s) (fun _ => s.failures < last.failures) result)
      (stage label path bytes).run s := by
  refine meets_attemptToBind (hinv s rfl) (fun _ last hacts => ?_) fun error last hacts => ?_
  · cases hacts
    refine meets_attemptToBind (hinv s rfl) (fun _ last hacts => ?_) fun error last hacts => ?_
    · cases hacts
      exact meets_ok (hinv s rfl) ⟨rfl, rfl⟩
    · have hfiles := files_of_acts_error hacts
      have hfailures := failures_of_acts_error rfl (by simp) hacts
      exact ⟨hinv last hfiles, hfiles, by simp only [outcome_error]; omega⟩
  · have hfiles := files_of_acts_error hacts
    have hfailures := failures_of_acts_error rfl (by simp) hacts
    exact ⟨hinv last hfiles, hfiles, by simp only [outcome_error]; omega⟩

/-- A commit replaces one file. -/
lemma meets_commit {bytes : Bytes} (hbefore : inv s)
    (hfailed : ∀ last, last.files = s.files → inv last)
    (hdone : inv { s with files := Function.update s.files path (some (.file bytes)) }) :
    Meets Acts inv
      (fun result last => outcome
        (fun _ => last = { s with files := Function.update s.files path (some (.file bytes)) })
        (fun _ => last.files = s.files ∧ s.failures < last.failures) result)
      (commit label path bytes).run s := by
  refine meets_attemptToBind hbefore (fun _ last hacts => ?_) fun error last hacts => ?_
  · cases hacts
    exact meets_ok hdone rfl
  · have hfiles := files_of_acts_error hacts
    have hfailures := failures_of_acts_error rfl (by simp) hacts
    exact ⟨hfailed last hfiles, hfiles, by omega⟩

/-- The rollback puts the snapshot back unless one more operation fails. -/
lemma meets_restoreMetadataSidecar
    (hinv : ∀ last, (∀ other, other ≠ path → last.files other = s.files other) → inv last) :
    Meets Acts inv
      (fun result last => (∀ other, other ≠ path → last.files other = s.files other) ∧
        outcome (fun _ => last.files path = snapshot.entry) (fun _ => s.failures < last.failures)
          result)
      (restoreMetadataSidecar path snapshot).run s := by
  have hkeeps : ∀ last : State, last.files = s.files →
      ∀ other, other ≠ path → last.files other = s.files other :=
    fun last hfiles other _ => by rw [hfiles]
  have hsame : ∀ last : State, last.files = s.files → inv last :=
    fun last hfiles => hinv last (hkeeps last hfiles)
  have hupdates : ∀ entry, ∀ other, other ≠ path →
      Function.update s.files path entry other = s.files other :=
    fun entry other hother => Function.update_of_ne hother entry s.files
  cases snapshot with
  | absent =>
    refine meets_attemptBind (hsame s rfl) fun answer last hacts => ?_
    rcases answer with error | value
    · have hfiles := files_of_acts_error hacts
      cases hacts with
      | absent hseeks hmissing =>
        simp only [FileOp.delete.injEq, reduceCtorEq, exists_false, false_or] at hseeks
        exact meets_ok (hsame s rfl) ⟨hkeeps s rfl, by rw [outcome_ok, hseeks]; exact hmissing⟩
      | fails hfallible hfailure =>
        cases error with
        | fileNotFound => simp [FileOp.seeksFile] at hfailure
        | brokenPipe | other name =>
          exact meets_failWith (hsame _ hfiles) ⟨hkeeps _ hfiles, Nat.lt_succ_self _⟩
    · cases hacts
      exact meets_ok (hinv _ (hupdates none)) ⟨hupdates none, Function.update_self ..⟩
  | present bytes =>
    refine meets_exceptBind ((meets_stage hsame).mono fun result last hlast hstaged => ?_)
    rcases result with error | value
    · exact ⟨hkeeps last hstaged.1, hstaged.2⟩
    · have hstate : last = s := hstaged.2
      rw [hstate, outcome_ok]
      refine (meets_commit (hsame s rfl) hsame (hinv _ (hupdates _))).mono fun result last _ h => ?_
      rcases result with error | value
      · exact ⟨hkeeps last h.1, h.2⟩
      · rw [outcome_ok] at h
        rw [h]
        exact ⟨hupdates _, Function.update_self ..⟩

/-- A rollback that fails is reported and goes on. -/
lemma meets_rollBack {message : PublishError → String}
    (hinv : ∀ last, (∀ other, other ≠ path → last.files other = s.files other) → inv last) :
    Meets Acts inv
      (fun _ last => (∀ other, other ≠ path → last.files other = s.files other) ∧
        (last.failures ≤ s.failures → last.files path = snapshot.entry))
      (tryCatch (restoreMetadataSidecar path snapshot) fun error =>
        report (message error)).run s := by
  refine meets_tryCatch ((meets_restoreMetadataSidecar hinv).mono fun result last hlast h => ?_)
  rcases result with error | value
  · have hmore : s.failures < last.failures := h.2
    exact meets_reportBind hlast (meets_ok hlast ⟨h.1, fun hfew => absurd hfew (by omega)⟩)
  · exact ⟨h.1, fun _ => h.2⟩

/-! ## The two files together -/

/-- The artifact is the previous one, or the new one beside its matching sidecar. -/
def VisibleWithSidecar (before : FileSystem) (path : Path) (artifact : Option Entry)
    (metadata : Bytes) (files : FileSystem) : Prop :=
  files path = before path ∨
    files path = artifact ∧ files (metadataPath path) = some (.file metadata)

/-- Both files are new after a success, and both are as before after an error. -/
def AllOrNothing (before : FileSystem) (path : Path) (artifact : Option Entry) (metadata : Bytes)
    (result : Except PublishError Unit) (files : FileSystem) : Prop :=
  outcome
    (fun _ => files path = artifact ∧ files (metadataPath path) = some (.file metadata))
    (fun _ => files path = before path ∧ files (metadataPath path) = before (metadataPath path))
    result

lemma metadataPath_ne (path : Path) : metadataPath path ≠ path := by
  intro h
  have hlength := congrArg String.length h
  rw [metadataPath, String.length_append] at hlength
  have hsuffix : ".mcmeta".length = 7 := by decide
  omega

/-- The only caller that publishes an existing file takes the file from `buildTempPath`. -/
lemma buildTempPath_ne_metadataPath (path : Path) (pid thread attempt : ℕ) (suffix : String) :
    buildTempPath path pid thread attempt suffix ≠ metadataPath path := by
  intro h
  have hchars := congrArg String.toList h
  simp only [buildTempPath, metadataPath, String.toList_append, List.append_assoc,
    List.append_cancel_left_eq] at hchars
  have hfourth := congrArg (·[3]?) hchars
  simp at hfourth

variable {before : FileSystem} {path : Path} {artifact : Option Entry} {metadata : Bytes}

/-- A guarantee of a publication: what is visible on the way, and the result with one failure. -/
abbrev Publishes (before : FileSystem) (path : Path) (artifact : Option Entry) (metadata : Bytes)
    (program : Publish Unit) (s : State) : Prop :=
  Meets Acts (fun last => VisibleWithSidecar before path artifact metadata last.files)
    (fun result last => last.failures ≤ 1 →
      AllOrNothing before path artifact metadata result last.files) program.run s

/-- The last commit, with the sidecar in place. -/
lemma publishes_commitOrRollBack (hsnapshot : snapshot.entry = before (metadataPath path))
    (hfiles : s.files = Function.update before (metadataPath path) (some (.file metadata)))
    (hseeks : op.seeksFile = false) (hstdout : ∀ bytes, op ≠ .stdout bytes)
    (hop : ∀ value last, Acts op s (.ok value) last →
      last.files path = artifact ∧ last.files (metadataPath path) = some (.file metadata)) :
    Publishes before path artifact metadata (commitOrRollBack path label snapshot op) s := by
  have hpath : s.files path = before path := by
    rw [hfiles, Function.update_of_ne (metadataPath_ne path).symm]
  refine meets_attemptBind (.inl hpath) fun answer last hacts => ?_
  rcases answer with error | value
  · have hlast : last.files path = before path := by rw [files_of_acts_error hacts, hpath]
    have hfailures := failures_of_acts_error hseeks hstdout hacts
    have hinv : ∀ final : State,
        (∀ other, other ≠ metadataPath path → final.files other = last.files other) →
        VisibleWithSidecar before path artifact metadata final.files :=
      fun final hkeeps => .inl ((hkeeps path (metadataPath_ne path).symm).trans hlast)
    have hkept : ∀ final : State,
        (∀ other, other ≠ metadataPath path → final.files other = last.files other) →
        final.files path = before path :=
      fun final hkeeps => (hkeeps path (metadataPath_ne path).symm).trans hlast
    refine meets_reportBind (.inl hlast) (meets_exceptBind (Meets.mono (meets_rollBack hinv)
      fun result final hfinal h => ?_))
    have hrestored := h.2
    rcases result with error | value
    · exact fun hfew => ⟨hkept final h.1, (hrestored (by omega)).trans hsnapshot⟩
    · rw [outcome_ok]
      exact meets_throw hfinal fun hfew =>
        ⟨hkept final h.1, (hrestored (by omega)).trans hsnapshot⟩
  · have hnew := hop value last hacts
    exact meets_ok (.inr hnew) fun _ => hnew

/-! ## The publications -/

/-- The checks and the snapshot leave the files, and the snapshot is of the sidecar. -/
lemma meets_prepare (hinv : ∀ last, last.files = s.files → inv last) :
    Meets Acts inv
      (fun result last => last.files = s.files ∧
        outcome (fun snapshot => last = s ∧ snapshot.entry = s.files (metadataPath path) ∧
          s.files path ≠ some .directory) (fun _ => True) result)
      (prepare path label).run s := by
  refine meets_exceptBind ((meets_ensureReplaceTargetNotDirectory hinv).mono
    fun result last _ houtput => ?_)
  rcases result with error | value
  · exact houtput
  obtain ⟨rfl, houtput⟩ := houtput.2
  refine meets_exceptBind ((meets_ensureReplaceTargetNotDirectory hinv).mono
    fun result last _ hsidecar => ?_)
  rcases result with error | value
  · exact hsidecar
  obtain ⟨rfl, -⟩ := hsidecar.2
  refine (meets_snapshotMetadataSidecar hinv).mono fun result last _ h => ⟨h.1, ?_⟩
  rcases result with error | snapshot
  · trivial
  · exact ⟨h.2.1, h.2.2, houtput⟩

/-- A publication request. -/
inductive Request where
  | bytes (artifact : Bytes) (outputPath : Option Path)
  | existing (tmpPath outputPath : Path) (artifactLabel : String)
deriving DecidableEq

def Request.publish (metadata : Bytes) : Request → Publish Unit
  | .bytes artifact outputPath => writeArtifactWithMetadata artifact outputPath metadata
  | .existing tmpPath outputPath artifactLabel =>
    publishExistingFileWithMetadata tmpPath outputPath metadata artifactLabel

def Request.outputPath : Request → Option Path
  | .bytes _ outputPath => outputPath
  | .existing _ outputPath _ => some outputPath

/-- The artifact that is to be published. -/
def Request.newArtifact (before : FileSystem) : Request → Option Entry
  | .bytes artifact _ => some (.file artifact)
  | .existing tmpPath _ _ => before tmpPath

/-- The temporary file is not the sidecar. -/
def Request.Distinct : Request → Prop
  | .bytes _ _ => True
  | .existing tmpPath outputPath _ => tmpPath ≠ metadataPath outputPath

lemma visible_of_same (h : last.files = before) :
    VisibleWithSidecar before path artifact metadata last.files :=
  .inl (by rw [h])

/-- An error before the first commit. -/
lemma allOrNothing_of_same (h : last.files = before) (error : PublishError) :
    AllOrNothing before path artifact metadata (.error error) last.files :=
  ⟨by rw [h], by rw [h]⟩

/-- Both commits, when everything is staged. -/
lemma publishes_commits
    (hsnapshot : snapshot.entry = before (metadataPath path)) (hseeks : op.seeksFile = false)
    (hstdout : ∀ bytes, op ≠ .stdout bytes) (hop : ∀ value last,
      Acts op ⟨Function.update before (metadataPath path) (some (.file metadata)), 0⟩
        (.ok value) last →
      last.files path = artifact ∧ last.files (metadataPath path) = some (.file metadata)) :
    Publishes before path artifact metadata (do
      commit "metadata sidecar" (metadataPath path) metadata
      commitOrRollBack path label snapshot op) ⟨before, 0⟩ := by
  have hpath := Function.update_of_ne (metadataPath_ne path).symm (some (.file metadata)) before
  refine meets_exceptBind ((meets_commit (visible_of_same rfl) (fun _ => visible_of_same)
    (.inl hpath)).mono fun result last _ hcommitted => ?_)
  rcases result with error | value
  · exact fun _ => allOrNothing_of_same hcommitted.1 error
  have hlast : last = ⟨Function.update before (metadataPath path) (some (.file metadata)), 0⟩ :=
    hcommitted
  rw [hlast]
  exact publishes_commitOrRollBack hsnapshot rfl hseeks hstdout hop

lemma publishes_writeArtifactWithMetadata (bytes : Bytes) :
    Publishes before path (some (.file bytes)) metadata
      (writeArtifactWithMetadata bytes (some path) metadata) ⟨before, 0⟩ := by
  refine meets_exceptBind ((meets_prepare fun _ => visible_of_same).mono
    fun result last _ hprepared => ?_)
  rcases result with error | snapshot
  · exact fun _ => allOrNothing_of_same hprepared.1 error
  obtain ⟨rfl, hsnapshot, -⟩ := hprepared.2
  refine meets_exceptBind ((meets_stage fun _ => visible_of_same).mono
    fun result last _ hstaged => ?_)
  rcases result with error | value
  · exact fun _ => allOrNothing_of_same hstaged.1 error
  obtain rfl : last = ⟨before, 0⟩ := hstaged.2
  refine meets_exceptBind ((meets_stage fun _ => visible_of_same).mono
    fun result last _ hstaged => ?_)
  rcases result with error | value
  · exact fun _ => allOrNothing_of_same hstaged.1 error
  obtain rfl : last = ⟨before, 0⟩ := hstaged.2
  refine publishes_commits hsnapshot rfl (by simp) fun value last hacts => ?_
  cases hacts
  simp [metadataPath_ne]

/-- A rename moves the temporary file, which the sidecar has not replaced. -/
lemma publishes_publishExistingFileWithMetadata {tmpPath : Path}
    (htmp : tmpPath ≠ metadataPath path) :
    Publishes before path (before tmpPath) metadata
      (publishExistingFileWithMetadata tmpPath path metadata label) ⟨before, 0⟩ := by
  refine meets_exceptBind ((meets_prepare fun _ => visible_of_same).mono
    fun result last _ hprepared => ?_)
  rcases result with error | snapshot
  · exact fun _ => allOrNothing_of_same hprepared.1 error
  obtain ⟨rfl, hsnapshot, -⟩ := hprepared.2
  refine meets_exceptBind ((meets_stage fun _ => visible_of_same).mono
    fun result last _ hstaged => ?_)
  rcases result with error | value
  · exact fun _ => allOrNothing_of_same hstaged.1 error
  obtain rfl : last = ⟨before, 0⟩ := hstaged.2
  refine publishes_commits hsnapshot rfl (by simp) fun value last hacts => ?_
  cases hacts with
  | rename hfound hfree =>
    have htarget : before tmpPath = some _ := (Function.update_of_ne htmp ..).symm.trans hfound
    simp [htarget, metadataPath_ne, htmp.symm]

/-- **Publication is all or nothing.**  Wherever the process is killed, the new artifact is
visible only beside its sidecar; and a publication in which at most one operation failed has
either published both files or changed neither. -/
theorem publication_allOrNothing (request : Request) (metadata : Bytes) (before : FileSystem)
    {path : Path} (hpath : request.outputPath = some path) (hdistinct : request.Distinct) :
    (∀ rest s, Reaches Acts (request.publish metadata).run ⟨before, 0⟩ rest s →
      VisibleWithSidecar before path (request.newArtifact before) metadata s.files) ∧
    ∀ result s, Reaches Acts (request.publish metadata).run ⟨before, 0⟩ (.done result) s →
      s.failures ≤ 1 →
        AllOrNothing before path (request.newArtifact before) metadata result s.files := by
  have hpublishes : Publishes before path (request.newArtifact before) metadata
      (request.publish metadata) ⟨before, 0⟩ := by
    cases request with
    | bytes artifact outputPath =>
      obtain rfl : outputPath = some path := hpath
      exact publishes_writeArtifactWithMetadata artifact
    | existing tmpPath outputPath label =>
      obtain rfl : outputPath = path := Option.some.inj hpath
      exact publishes_publishExistingFileWithMetadata hdistinct
  exact ⟨fun rest s hreaches => (hpublishes.reaches hreaches).holds,
    fun result s hreaches => (hpublishes.reaches hreaches).2⟩

/-! ## An executable that is published for the first time -/

def linkedFiles : FileSystem := Function.update (fun _ => none) "a.out.tmp" (some (.file [127]))

def publishedFiles : FileSystem :=
  Function.update
    (Function.update (Function.update linkedFiles "a.out.mcmeta" (some (.file [35]))) "a.out.tmp"
      none) "a.out" (some (.file [127]))

lemma linkedFiles_reach_publishedFiles :
    Reaches Acts ((Request.existing "a.out.tmp" "a.out" "executable").publish [35]).run
      ⟨linkedFiles, 0⟩ (.done (.ok ())) ⟨publishedFiles, 0⟩ := by
  have hsidecar : linkedFiles "a.out.mcmeta" = none := by decide
  have hlinked : Function.update linkedFiles "a.out.mcmeta" (some (.file [35])) "a.out.tmp" =
      some (.file [127]) := by decide
  refine .step (.absent (.inl rfl) (by decide)) (.step (.absent (.inl rfl) hsidecar) ?_)
  refine .step (.absent (.inr (.inl ⟨_, rfl⟩)) hsidecar) (.step .create (.step .write ?_))
  exact .step (.replace (by decide)) (.step (.rename hlinked (by decide)) (.start _ _))

theorem publication_allOrNothing_executable :
    AllOrNothing linkedFiles "a.out" (some (.file [127])) [35] (.ok ()) publishedFiles :=
  (publication_allOrNothing (.existing "a.out.tmp" "a.out" "executable") [35] linkedFiles rfl
    (fun h => absurd h (by decide))).2 _ _ linkedFiles_reach_publishedFiles (by decide)

end ModernC.Publisher
