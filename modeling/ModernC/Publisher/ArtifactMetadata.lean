import Mathlib.Data.List.Nodup
import ModernC.Framework.Json

/-!
# The metadata of an artifact

`artifact_model.zig` renders a bundle as a line for each of its fields that has a value.  The text
tells bundles apart: no value has a line end in it, and no name an equals sign.
-/

namespace ModernC.Publisher

open Framework

/-! ## Records -/

section

variable {sep : UInt8} {front front' rest rest' : Bytes}
  {fields fields' : List (Bytes × Option Bytes)}

/-- A line for each field that has a value. -/
def renderFields (fields : List (Bytes × Option Bytes)) : Bytes :=
  fields.flatMap fun (name, value) =>
    (value.map fun value => name ++ ascii '=' :: (value ++ [ascii '\n'])).getD []

/-- The value of a field has no line end in it. -/
def OnOneLine (field : Bytes × Option Bytes) : Prop := ∀ value ∈ field.2, ascii '\n' ∉ value

lemma cut_inj (h : sep ∉ front) (h' : sep ∉ front')
    (heq : front ++ sep :: rest = front' ++ sep :: rest') : front = front' ∧ rest = rest' := by
  induction front generalizing front' with
  | nil =>
    rcases front' with _ | ⟨b, front'⟩
    · exact ⟨rfl, (List.cons.inj heq).2⟩
    · exact absurd (List.cons.inj heq).1 fun hb => h' (hb ▸ List.mem_cons_self)
  | cons b front ih =>
    rcases front' with _ | ⟨b', front'⟩
    · exact absurd (List.cons.inj heq).1.symm fun hb => h (hb ▸ List.mem_cons_self)
    · obtain ⟨rfl, htail⟩ := List.cons.inj heq
      obtain ⟨rfl, hrest⟩ := ih (fun hb => h (List.mem_cons_of_mem _ hb))
        (fun hb => h' (List.mem_cons_of_mem _ hb)) htail
      exact ⟨rfl, hrest⟩

/-- The first line of some fields has the name of one of them. -/
lemma mem_of_renderFields (h : ∀ name ∈ fields.map Prod.fst, ascii '=' ∉ name)
    (hfront : ascii '=' ∉ front) (heq : renderFields fields = front ++ ascii '=' :: rest) :
    front ∈ fields.map Prod.fst := by
  induction fields with
  | nil => simp [renderFields] at heq
  | cons field fields ih =>
    obtain ⟨name, - | value⟩ := field
    · exact List.mem_cons_of_mem _ (ih (List.forall_mem_cons.mp h).2 heq)
    · rw [renderFields, List.flatMap_cons] at heq
      simp only [Option.map_some, Option.getD_some, List.append_assoc, List.cons_append] at heq
      rw [← (cut_inj (h _ List.mem_cons_self) hfront heq).1]
      exact List.mem_cons_self

/-- **Records with the same names are told by their texts.** -/
lemma renderFields_inj (hnames : fields.map Prod.fst = fields'.map Prod.fst)
    (hnodup : (fields.map Prod.fst).Nodup) (h : ∀ name ∈ fields.map Prod.fst, ascii '=' ∉ name)
    (hline : ∀ field ∈ fields, OnOneLine field) (hline' : ∀ field ∈ fields', OnOneLine field)
    (heq : renderFields fields = renderFields fields') : fields = fields' := by
  induction fields generalizing fields' with
  | nil => exact (List.map_eq_nil_iff.mp hnames.symm).symm
  | cons field fields ih =>
    rcases fields' with _ | ⟨⟨name, value'⟩, fields'⟩
    · cases hnames
    obtain ⟨name, value⟩ := field
    obtain ⟨rfl, hrest⟩ := List.cons.inj hnames
    obtain ⟨hnot, hdistinct⟩ := List.nodup_cons.mp hnodup
    obtain ⟨hname, hothers⟩ := List.forall_mem_cons.mp h
    obtain ⟨hvalue, htail⟩ := List.forall_mem_cons.mp hline
    obtain ⟨hvalue', htail'⟩ := List.forall_mem_cons.mp hline'
    have ih := ih hrest hdistinct hothers htail htail'
    rw [renderFields, renderFields, List.flatMap_cons, List.flatMap_cons] at heq
    rcases value with - | value <;> rcases value' with - | value' <;>
      simp only [Option.map_some, Option.map_none, Option.getD_some, Option.getD_none,
        List.append_assoc, List.cons_append, List.nil_append] at heq
    · rw [ih heq]
    · exact absurd (mem_of_renderFields hothers hname heq) hnot
    · exact absurd (hrest ▸ mem_of_renderFields (hrest ▸ hothers) hname heq.symm) hnot
    · obtain ⟨rfl, hmore⟩ := cut_inj (hvalue _ rfl) (hvalue' _ rfl) (cut_inj hname hname heq).2
      rw [ih hmore]

/-- Codes of which none starts another are read from left to right. -/
lemma flatMap_injective {code : UInt8 → Bytes} (hne : ∀ b, code b ≠ [])
    (hinj : ∀ b b' rest rest', code b ++ rest = code b' ++ rest' → b = b' ∧ rest = rest') :
    Function.Injective (List.flatMap code) := by
  intro bytes bytes' h
  induction bytes generalizing bytes' with
  | nil =>
    rcases bytes' with _ | ⟨b', bytes'⟩
    · rfl
    · exact absurd (List.append_eq_nil_iff.mp h.symm).1 (hne b')
  | cons b bytes ih =>
    rcases bytes' with _ | ⟨b', bytes'⟩
    · exact absurd (List.append_eq_nil_iff.mp h).1 (hne b)
    · obtain ⟨rfl, hrest⟩ := hinj b b' _ _ h
      rw [ih hrest]

end

/-! ## The program -/

abbrev Sha256Digest := Vector UInt8 32

structure ArtifactBundle where
  artifactKind : Option Bytes := none
  backendName : Option Bytes := none
  generatedArtifactSha256 : Sha256Digest
  sourceMapGeneratedArtifactSha256 : Option Sha256Digest := none
  sourceMapPayloadSha256 : Option Sha256Digest := none
  mirFactsSha256 : Option Sha256Digest := none
  sourceSha256 : Option Sha256Digest := none
  compilerVersion : Option Bytes := none
  targetArch : Option Bytes := none
  profile : Option Bytes := none
  checksOptimize : Option Bool := none
  checksKsan : Option Bool := none
  checksMsan : Option Bool := none
  checksCsan : Option Bool := none
  stubAsm : Option Bool := none
  linuxKernel : Option Bool := none
  toolchainIdentity : Option Bytes := none

def hexByte (b : UInt8) : Bytes := [hexDigit (b.toNat / 16), hexDigit (b.toNat % 16)]

/-- The bytes that are escaped, with what stands behind the backslash. -/
def escapes : List (UInt8 × UInt8) :=
  [('\\', '\\'), ('\n', 'n'), ('\r', 'r'), ('\t', 't'), (' ', 's')].map fun (c, e) =>
    (ascii c, ascii e)

/-- A pass of `appendEscapedMetadataValue`. -/
def escapedByte (b : UInt8) : Bytes :=
  match escapes.lookup b with
  | some e => [ascii '\\', e]
  | none => [b]

def stringHeader (name : String) (value : Option Bytes) : Bytes × Option Bytes :=
  (asciiBytes ("# " ++ name), value.map (List.flatMap escapedByte))

def digestHeader (name : String) (value : Option Sha256Digest) : Bytes × Option Bytes :=
  (asciiBytes ("# " ++ name), value.map fun digest => digest.toList.flatMap hexByte)

def boolHeader (name : String) (value : Option Bool) : Bytes × Option Bytes :=
  (asciiBytes ("# " ++ name), value.map fun flag => asciiBytes (if flag then "true" else "false"))

def artifactBundleHeaders (bundle : ArtifactBundle) : List (Bytes × Option Bytes) :=
  [stringHeader "artifact_kind" bundle.artifactKind,
    stringHeader "backend" bundle.backendName,
    digestHeader "generated_artifact_sha256" (some bundle.generatedArtifactSha256),
    digestHeader "source_map_generated_artifact_sha256" bundle.sourceMapGeneratedArtifactSha256,
    digestHeader "source_map_payload_sha256" bundle.sourceMapPayloadSha256,
    digestHeader "mir_facts_sha256" bundle.mirFactsSha256,
    digestHeader "source_sha256" bundle.sourceSha256,
    stringHeader "compiler_version" bundle.compilerVersion,
    stringHeader "target_arch" bundle.targetArch,
    stringHeader "lower_profile" bundle.profile,
    boolHeader "lower_checks_optimize" bundle.checksOptimize,
    boolHeader "lower_checks_ksan" bundle.checksKsan,
    boolHeader "lower_checks_msan" bundle.checksMsan,
    boolHeader "lower_checks_csan" bundle.checksCsan,
    boolHeader "lower_stub_asm" bundle.stubAsm,
    boolHeader "lower_linux_kernel" bundle.linuxKernel,
    stringHeader "toolchain_identity" bundle.toolchainIdentity]

inductive ArtifactBundleFormat where
  | metadataSidecar
  | sourceMap

def ArtifactBundleFormat.magic : ArtifactBundleFormat → Bytes
  | metadataSidecar => asciiBytes "# mcmeta v1\n"
  | sourceMap => asciiBytes "# mcmap v1\n"

/-- `appendArtifactBundle` -/
def artifactBundle (bundle : ArtifactBundle) (format : ArtifactBundleFormat) : Bytes :=
  format.magic ++ renderFields (artifactBundleHeaders bundle)

/-! ## Values -/

lemma mem_escapes {b e : UInt8} (h : escapes.lookup b = some e) : (b, e) ∈ escapes := by
  obtain ⟨front, rest, heq, -⟩ := List.lookup_eq_some_iff.mp h
  rw [heq]
  exact List.mem_append_right _ List.mem_cons_self

lemma escapedByte_injective : Function.Injective (List.flatMap escapedByte) := by
  refine flatMap_injective (fun b => ?_) fun b b' rest rest' h => ?_
  · rw [escapedByte]
    split <;> exact List.cons_ne_nil _ _
  · have hplain : escapes.lookup (ascii '\\') ≠ none := by decide
    rw [escapedByte, escapedByte] at h
    rcases hb : escapes.lookup b with _ | e <;> rcases hb' : escapes.lookup b' with _ | e' <;>
      rw [hb, hb'] at h
    · exact List.cons.inj h
    · exact absurd ((List.cons.inj h).1 ▸ hb) hplain
    · exact absurd ((List.cons.inj h).1.symm ▸ hb') hplain
    · obtain ⟨he, hrest⟩ := List.cons.inj (List.cons.inj h).2
      have hnodup : (escapes.map Prod.snd).Nodup := by decide
      have hsame := List.inj_on_of_nodup_map hnodup (mem_escapes hb) (mem_escapes hb') he
      exact ⟨congrArg Prod.fst hsame, hrest⟩

lemma hexByte_injective : Function.Injective (List.flatMap hexByte) := by
  have hdigit : ∀ n < 16, ∀ m < 16, hexDigit n = hexDigit m → n = m := by decide
  refine flatMap_injective (fun b => List.cons_ne_nil _ _) fun b b' rest rest' h => ?_
  obtain ⟨hhigh, h⟩ := List.cons.inj h
  obtain ⟨hlow, hrest⟩ := List.cons.inj h
  have hlt := b.toNat_lt
  have hlt' := b'.toNat_lt
  have hhigh := hdigit _ (by omega) _ (by omega) hhigh
  have hlow := hdigit _ (by omega) _ (by omega) hlow
  exact ⟨UInt8.toNat_inj.mp (by omega), hrest⟩

def bareBundle : ArtifactBundle where
  generatedArtifactSha256 := .replicate 32 0

lemma onOneLine_headers (bundle : ArtifactBundle) :
    ∀ field ∈ artifactBundleHeaders bundle, OnOneLine field := by
  have hcodes : ∀ p ∈ escapes, ascii '\n' ∉ [ascii '\\', p.2] := by simp [escapes, ascii]
  have hdigits : ∀ n < 16, ascii '\n' ≠ hexDigit n := by decide
  have hstring : ∀ name value, OnOneLine (stringHeader name value) := by
    intro name value text htext hmem
    obtain ⟨bytes, -, rfl⟩ := Option.map_eq_some_iff.mp htext
    obtain ⟨b, -, hb⟩ := List.mem_flatMap.mp hmem
    rw [escapedByte] at hb
    rcases he : escapes.lookup b with _ | e <;> rw [he] at hb
    · obtain rfl := List.mem_singleton.mp hb
      exact absurd he (by decide)
    · exact hcodes _ (mem_escapes he) hb
  have hdigest : ∀ name value, OnOneLine (digestHeader name value) := by
    intro name value text htext hmem
    obtain ⟨digest, -, rfl⟩ := Option.map_eq_some_iff.mp htext
    obtain ⟨b, -, hb⟩ := List.mem_flatMap.mp hmem
    have hlt := b.toNat_lt
    rcases List.mem_pair.mp hb with hb | hb <;> exact hdigits _ (by omega) hb
  have hbool : ∀ name value, OnOneLine (boolHeader name value) := by
    intro name value text htext
    obtain ⟨flag, -, rfl⟩ := Option.map_eq_some_iff.mp htext
    cases flag <;> decide
  simp [artifactBundleHeaders, hstring, hdigest, hbool]

/-- **The text of a bundle tells its format and all of its fields.** -/
theorem artifactBundle_inj {bundle bundle' : ArtifactBundle}
    {format format' : ArtifactBundleFormat} :
    artifactBundle bundle format = artifactBundle bundle' format' ↔
      bundle = bundle' ∧ format = format' := by
  refine ⟨fun h => ?_, by rintro ⟨rfl, rfl⟩; rfl⟩
  obtain rfl : format = format' := by
    cases format <;> cases format'
    · rfl
    · have hletter : some (ascii 'e') = some (ascii 'a') := congrArg (·[5]?) h
      exact absurd hletter (by decide)
    · have hletter : some (ascii 'a') = some (ascii 'e') := congrArg (·[5]?) h
      exact absurd hletter (by decide)
    · rfl
  have hnodup : ((artifactBundleHeaders bareBundle).map Prod.fst).Nodup := by decide
  have hnames : ∀ name ∈ (artifactBundleHeaders bareBundle).map Prod.fst, ascii '=' ∉ name := by
    decide
  have hsame : (artifactBundleHeaders bundle).map Prod.fst =
    (artifactBundleHeaders bundle').map Prod.fst := rfl
  have hheaders := renderFields_inj hsame hnodup hnames (onOneLine_headers bundle)
    (onOneLine_headers bundle') (List.append_cancel_left h)
  refine ⟨?_, rfl⟩
  have hbool : Function.Injective fun flag : Bool =>
      asciiBytes (if flag then "true" else "false") := by
    intro flag flag'
    cases flag <;> cases flag' <;> decide
  have hdigest : Function.Injective fun digest : Sha256Digest => digest.toList.flatMap hexByte :=
    fun digest digest' h => Vector.toList_inj.mp (hexByte_injective h)
  simp only [artifactBundleHeaders, stringHeader, digestHeader, boolHeader, List.cons.injEq,
    Prod.mk.injEq, true_and, and_true, (Option.map_injective escapedByte_injective).eq_iff,
    (Option.map_injective hdigest).eq_iff, (Option.map_injective hbool).eq_iff,
    Option.some_inj] at hheaders
  cases bundle
  cases bundle'
  simpa only [ArtifactBundle.mk.injEq] using hheaders

end ModernC.Publisher
