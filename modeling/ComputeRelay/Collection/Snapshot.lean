import Mathlib.Tactic
import ComputeRelay.Lib.Json
import ComputeRelay.Lib.KeySort
import ComputeRelay.RunnerPlan.ParseResult

/-!
# The snapshot of a result

`BuildSnapshot` and `ValidateSnapshot` of `internal/collection/manifest.go`, with the data of
`internal/collection/model.go`. A snapshot is built from three inventories: the outputs the frozen
specification declares, the artifacts the runner's result lists, and the provider's catalog. A
pinned snapshot is validated by building it again from its own files.
-/

namespace ComputeRelay
namespace Collection

open Text Domain Provider Admission RunnerPlan Fallible

/-! ### Data -/

def manifestPath : String := "control/execution-result.json"

def maxSnapshotBytes : ℕ := 16 * 2 ^ 20

/-- 10,000 payload files and four control files. -/
def maxFiles : ℤ := 10004

/-- Encoders and decoders of the standard library. -/
structure Reader where
  codec : Codec
  /-- A SHA-256 digest in hexadecimal is a valid one. -/
  hex : ∀ text, validSHA256Digest (codec.digest text) = true
  /-- `json.Unmarshal` into a specification. -/
  spec : String → Option Spec
  /-- The decoding of a result document. -/
  result : String → Option ResultDocument

structure Lease where
  workspaceID : String
  jobID : String
  attemptID : String
  operationID : String
  generation : ℤ
  fence : String
  until_ : ℤ
  attemptRevision : ℕ
  deriving DecidableEq

def Lease.valid (l : Lease) : Bool :=
  validOpaqueID l.workspaceID && validOpaqueID l.jobID && validOpaqueID l.attemptID &&
  validOpaqueID l.operationID && 0 < l.generation && validOpaqueID l.fence &&
  32 ≤ l.fence.utf8ByteSize && l.until_ ≠ zeroTime && 0 < l.attemptRevision

structure BindingSnapshot where
  binding : ProviderBinding
  accountScope : String
  credentialRef : String
  deriving DecidableEq

def BindingSnapshot.valid (s : BindingSnapshot) : Bool :=
  s.binding.validate && validOpaqueID s.accountScope && s.credentialRef.utf8ByteSize ≤ 1030 &&
  s.credentialRef.toList.all fun c => c ≠ '\x00' && c ≠ '\r' && c ≠ '\n'

inductive Role
  | manifest | output | log | provenance
  deriving DecidableEq

def Role.word : Role → String
  | .manifest => "manifest"
  | .output => "output"
  | .log => "log"
  | .provenance => "provenance"

structure File where
  id : String
  path : String
  role : Role
  object : ObjectMetadata
  mediaType : String
  deriving DecidableEq

structure Snapshot where
  manifest : String
  files : List File
  deriving DecidableEq

structure Work where
  lease : Lease
  plan : Plan
  binding : BindingSnapshot
  observation : Observation
  snapshot : Option Snapshot := none

def Work.valid (c : Codec) (w : Work) : Bool :=
  let id := w.plan.job.identity
  w.lease.valid && w.plan.job.validate c && w.binding.valid &&
  w.plan.job.binding = w.binding.binding && w.observation.validate w.observation.remote &&
  w.observation.remote.identity = id && w.observation.execution.terminal &&
  id.workspaceID = w.lease.workspaceID && id.jobID = w.lease.jobID &&
  id.attemptID = w.lease.attemptID

/-- Durations in nanoseconds. -/
structure Config where
  maxBytes : ℤ
  maxFiles : ℤ
  workers : ℤ
  timeout : ℤ
  pollDelay : ℤ

def defaultConfig : Config where
  maxBytes := 4 * 2 ^ 30
  maxFiles := Collection.maxFiles
  workers := 2
  timeout := 600 * Rfc3339.second
  pollDelay := Rfc3339.second

def Config.valid (c : Config) : Bool :=
  0 < c.maxBytes && c.maxBytes ≤ 4 * 2 ^ 30 && 1 ≤ c.maxFiles && c.maxFiles ≤ Collection.maxFiles &&
  1 ≤ c.workers && c.workers ≤ 16 && Rfc3339.second ≤ c.timeout &&
  c.timeout ≤ 1800 * Rfc3339.second && 1000000 ≤ c.pollDelay && c.pollDelay ≤ 60 * Rfc3339.second

/-- One entry of a provider's catalog. -/
structure Artifact where
  remote : RemoteReference
  path : String
  bytes : ℤ
  sha256 : String
  deriving DecidableEq

def Artifact.validate (a : Artifact) (expected : RemoteReference) : Bool :=
  expected.validate && a.remote = expected && safeArtifactPath a.path && 0 ≤ a.bytes &&
  validSHA256Digest a.sha256

/-! ### Failures -/

/-- A `Failure`, or `ErrInvalid`. -/
inductive Refusal
  | invalid
  | failure (code : ErrorCode) (invalid : Bool) (reason : String)
  deriving DecidableEq

/-- `failureAt` -/
def failureAt (code : ErrorCode) (invalid : Bool) (reason : String) : Refusal :=
  .failure code invalid reason

/-- `failure`: the reason follows from the code. -/
def failure (code : ErrorCode) (invalid : Bool) : Refusal :=
  failureAt code invalid <| match code with
    | .remoteIdentityMismatch => "artifact_remote_identity_mismatch"
    | .resultManifestMissing => "artifact_manifest_missing"
    | .artifactDigestMismatch => "artifact_digest_mismatch"
    | .artifactMissing => "artifact_output_missing"
    | .artifactCollectionFailed => "artifact_catalog_invalid"
    | _ => "artifact_request_invalid"

/-! ### Texts that are hashed -/

def identityJson (id : Identity) : Json :=
  .obj [("InstallationID", .str id.installationID), ("WorkspaceID", .str id.workspaceID),
    ("JobID", .str id.jobID), ("AttemptID", .str id.attemptID), ("InstanceID", .str id.instanceID),
    ("IntentID", .str id.intentID), ("ResourceKey", .str id.resourceKey), ("Nonce", .str id.nonce),
    ("BundleSHA256", .str id.bundleSHA256),
    ("InputManifestSHA256", .str id.inputManifestSHA256)]

/-- A reference that was read from a journal, so that its texts are UTF-8. -/
def remoteJson (r : RemoteReference) : Json :=
  .obj [("Identity", identityJson r.identity), ("Resource", .str r.resource.text),
    ("Version", .str r.version.text)]

/-- `FileIdentity` -/
def fileIdentity (x : Reader) (remote : RemoteReference) (path : String) (size : ℤ)
    (digest : String) : String :=
  "art_" ++ x.codec.digest
    (Json.marshal Json.escapeHTML (.obj [("Version", .str "collection-file/v1"),
    ("Remote", remoteJson remote), ("Path", .str path), ("Bytes", .int size),
    ("Digest", .str digest)]))

def objectJson (o : ObjectMetadata) : Json :=
  .obj [("object_id", .str o.id), ("workspace_id", .str o.workspaceID), ("bytes", .int o.bytes),
    ("sha256", .str o.sha256)]

/-- An empty media type is left out. -/
def File.toJson (f : File) : Json :=
  .obj ([("artifact_id", .str f.id), ("path", .str f.path), ("role", .str f.role.word),
    ("object", objectJson f.object)] ++
    if f.mediaType = "" then [] else [("media_type", .str f.mediaType)])

def Snapshot.toJson (s : Snapshot) : Json :=
  .obj [("manifest", .str s.manifest), ("files", .arr (s.files.map File.toJson))]

/-- `Digest`; a snapshot that is too large has none. -/
def Snapshot.digest (x : Reader) (s : Snapshot) : String :=
  let raw := Json.marshal Json.escapeHTML s.toJson
  if maxSnapshotBytes < raw.utf8ByteSize then "" else x.codec.digest raw

/-! ### Building a snapshot -/

def parseManifest (x : Reader) (w : Work) (raw : String) :
    Except Refusal (ResultDocument × Spec) := do
  ensure (w.valid x.codec) .invalid
  let m ← (parseResult x.result w.plan.job.identity raw).mapError fun
    | .identity => failure .remoteIdentityMismatch true
    | .invalid => failureAt .artifactCollectionFailed true "artifact_manifest_invalid"
  let spec ← expect (x.spec w.plan.job.specification) .invalid
  ensure (m.resourceCheck.gpuRequired = (spec.resources.accelerator = .gpu))
    (failureAt .artifactCollectionFailed true "artifact_manifest_invalid")
  pure (m, spec)

/-- `byPath` -/
def byPath (catalog : List Artifact) (path : String) : Option Artifact :=
  catalog.find? fun a => a.path = path

/-- The files selected so far and their bytes. -/
structure Draft where
  files : List File
  total : ℤ

def file (x : Reader) (w : Work) (a : Artifact) (role : Role) (media : String) : File :=
  let id := fileIdentity x w.observation.remote a.path a.bytes a.sha256
  ⟨id, a.path, role, ⟨id, w.lease.workspaceID, a.bytes, a.sha256⟩, media⟩

/-- `add` -/
def Draft.add (x : Reader) (w : Work) (cfg : Config) (d : Draft) (a : Artifact) (role : Role)
    (media : String) : Except Refusal Draft := do
  ensure (a.bytes ≤ cfg.maxBytes - d.total)
    (failureAt .artifactCollectionFailed false "artifact_byte_limit")
  ensure (d.files.length < cfg.maxFiles)
    (failureAt .artifactCollectionFailed false "artifact_file_limit")
  pure ⟨d.files ++ [file x w a role media], d.total + a.bytes⟩

/-- Whether an output is declared by this entry of the specification. -/
def declares (o : Output) (path : String) : Bool :=
  if o.kind = some .directory then (o.path.toList ++ ['/']).isPrefixOf path.toList
  else path = o.path

/-- `matched`: the first entry that declares an output. -/
def declaredBy (outputs : List Output) (path : String) : Option ℕ :=
  outputs.findIdx? fun o => declares o path

/-- `MaxBytes` of an entry; 0 is no limit. -/
def limit (outputs : List Output) (i : ℕ) : ℤ := (outputs[i]?.bind fun o => o.maxBytes).getD 0

/-- The files selected so far, with `counts` and `sizes` of each entry of the specification. -/
structure Tally where
  draft : Draft
  counts : ℕ → ℕ
  sizes : ℕ → ℤ

def outputPath (path : String) : String := "outputs/" ++ path

/-- One artifact of the result. -/
def collect (x : Reader) (w : Work) (cfg : Config) (catalog : List Artifact) (outputs : List Output)
    (t : Tally) (a : ReportedArtifact) : Except Refusal Tally := do
  let i ← expect (declaredBy outputs a.path)
    (failureAt .artifactCollectionFailed true "artifact_output_undeclared")
  ensure (limit outputs i ≤ 0 || a.bytes ≤ limit outputs i - t.sizes i)
    (failureAt .artifactCollectionFailed false "artifact_byte_limit")
  let listed ← expect (byPath catalog (outputPath a.path)) (failure .artifactMissing false)
  ensure (listed.bytes = a.bytes && listed.sha256 = a.sha256) (failure .artifactDigestMismatch true)
  let d ← t.draft.add x w cfg listed .output (a.mediaType.getD "")
  pure ⟨d, Function.update t.counts i (t.counts i + 1),
    Function.update t.sizes i (t.sizes i + a.bytes)⟩

structure ControlFile where
  path : String
  role : Role
  media : String
  max : ℤ

/-- The control files that are published next to the result. -/
def controlFiles : List ControlFile :=
  [⟨"control/stdout.log", .log, "text/plain", 20 * 2 ^ 20⟩,
   ⟨"control/stderr.log", .log, "text/plain", 20 * 2 ^ 20⟩,
   ⟨"control/environment.json", .provenance, "application/json", 2 ^ 20⟩]

def addControl (x : Reader) (w : Work) (cfg : Config) (catalog : List Artifact) (d : Draft)
    (c : ControlFile) : Except Refusal Draft :=
  match byPath catalog c.path with
  | none => pure d
  | some a => do
    ensure (a.bytes ≤ c.max) (failureAt .artifactCollectionFailed false "artifact_byte_limit")
    d.add x w cfg a c.role c.media

/-- Every required output has a file. -/
def present (outputs : List Output) (counts : ℕ → ℕ) : Bool :=
  outputs.zipIdx.all fun o => !o.1.required || counts o.2 ≠ 0

def buildSnapshot (x : Reader) (w : Work) (raw : String) (catalog : List Artifact) (cfg : Config) :
    Except Refusal Snapshot := do
  ensure cfg.valid .invalid
  ensure (catalog.length ≤ cfg.maxFiles)
    (failureAt .artifactCollectionFailed true "artifact_file_limit")
  let r ← parseManifest x w raw
  ensure (catalog.all fun a => a.validate w.observation.remote)
    (failure .remoteIdentityMismatch true)
  ensure (collisionFree (catalog.map (·.path)))
    (failureAt .artifactCollectionFailed true "artifact_path_invalid")
  let control ← expect (byPath catalog manifestPath) (failure .resultManifestMissing false)
  ensure (control.bytes = raw.utf8ByteSize && control.sha256 = x.codec.digest raw)
    (failure .artifactDigestMismatch true)
  let d ← Draft.add x w cfg ⟨[], 0⟩ control .manifest "application/json"
  let t ← r.1.artifacts.foldlM (collect x w cfg catalog r.2.outputs) ⟨d, fun _ => 0, fun _ => 0⟩
  ensure (collisionFree (r.1.artifacts.map (·.path)))
    (failureAt .artifactCollectionFailed true "artifact_path_invalid")
  ensure (r.1.phase ≠ .completed || present r.2.outputs t.counts) (failure .artifactMissing false)
  let d ← controlFiles.foldlM (addControl x w cfg catalog) t.draft
  let s : Snapshot := ⟨raw, KeySort.sortBy (·.path) d.files⟩
  ensure (validSHA256Digest (s.digest x)) .invalid
  pure s

/-! ### Validating a pinned snapshot -/

/-- The catalog entry a file came from. -/
def File.artifact (w : Work) (f : File) : Artifact :=
  ⟨w.observation.remote, f.path, f.object.bytes, f.object.sha256⟩

def validateSnapshot (x : Reader) (w : Work) (s : Snapshot) : Except Refusal Unit := do
  ensure (s.files.length ≠ 0 && s.files.length ≤ maxFiles &&
    s.manifest.utf8ByteSize ≤ maxManifestBytes && validSHA256Digest (s.digest x)) .invalid
  ensure (s.files.all fun f => f.object.valid &&
    f.object.workspaceID = w.lease.workspaceID) .invalid
  let rebuilt ←
    (buildSnapshot x w s.manifest (s.files.map (File.artifact w)) defaultConfig).mapError
    fun _ => .invalid
  ensure (rebuilt.digest x = s.digest x) .invalid

end Collection
end ComputeRelay
