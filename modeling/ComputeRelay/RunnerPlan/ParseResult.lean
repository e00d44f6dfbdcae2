import Mathlib.Tactic
import ComputeRelay.Lib.Ancestry
import ComputeRelay.Lib.Fallible
import ComputeRelay.Admission.Spec
import ComputeRelay.Provider.Contract
import ComputeRelay.Runner.Result

/-!
# Reading the runner's result

`ParseResult` of `internal/provider/runnerplan/result.go`. A document is read into the values that
the schema types; `schema` is what the schema asks of them, and the rest is what the function checks
itself. The reader is a parameter: it stands for the decoding of the text, for the types and closed
property sets of the schema and for its date format.
-/

namespace ComputeRelay
namespace RunnerPlan

open Text Domain Provider Admission Runner Fallible

def maxManifestBytes : ℕ := 2 ^ 20

structure ReportedArtifact where
  path : String
  bytes : ℤ
  sha256 : String
  mediaType : Option String := none
  deriving DecidableEq

structure ReportedError where
  code : ErrorCode
  message : String
  stage : FailureStage
  details : Option (List (String × String)) := none

structure ReportedCheck where
  gpuRequired : Bool
  gpuVerified : Bool
  deviceName : Option String := none
  cudaVersion : Option String := none
  framework : Option String := none

/-- The result document of an attempt. -/
structure ResultDocument where
  manifestVersion : String
  jobID : String
  attemptID : String
  attemptNonce : String
  runnerVersion : String
  bundleSHA256 : String
  inputManifestSHA256 : String
  startedAt : ℤ
  finishedAt : ℤ
  phase : ResultPhase
  exitCode : Option ℤ
  timedOut : Bool
  resourceCheck : ReportedCheck
  artifacts : List ReportedArtifact
  error : Option ReportedError

/-! ### The schema -/

def ReportedArtifact.schema (a : ReportedArtifact) : Bool :=
  relativeFilePath a.path && within 0 4294967296 a.bytes && sha256Pattern a.sha256 &&
    a.mediaType.all fun text => points text 1 255

def ReportedError.schema (e : ReportedError) : Bool :=
  points e.message 1 2048 &&
    e.details.all fun details => details.length ≤ 32 && details.all fun entry =>
      points entry.2 0 1024

def ReportedCheck.schema (c : ReportedCheck) : Bool :=
  c.deviceName.all (fun text => points text 1 256) &&
  c.cudaVersion.all (fun text => points text 1 128) &&
  c.framework.all fun text => points text 1 128

def noncePattern (s : String) : Bool :=
  points s 16 256 &&
    s.toList.all (ascii fun b => alphanumeric b || b = 46 || b = 95 || b = 58 || b = 45)

def ResultDocument.schema (d : ResultDocument) : Bool :=
  d.manifestVersion = "1" && objectIDPattern d.jobID && objectIDPattern d.attemptID &&
  noncePattern d.attemptNonce && points d.runnerVersion 1 128 && sha256Pattern d.bundleSHA256 &&
  sha256Pattern d.inputManifestSHA256 && d.exitCode.all (within (-2147483648) 2147483647) &&
  d.resourceCheck.schema && d.artifacts.length ≤ 10000 && d.artifacts.all ReportedArtifact.schema &&
  d.error.all ReportedError.schema &&
  (d.phase ≠ .completed || (d.exitCode = some 0 && !d.timedOut && d.error.isNone)) &&
  (d.phase ≠ .timedOut || d.timedOut) &&
  (d.phase ≠ .completed || !d.resourceCheck.gpuRequired || d.resourceCheck.gpuVerified)

/-! ### The checks of the function -/

inductive ResultFailure
  | invalid | identity
  deriving DecidableEq

/-- `ValidateManifestIdentity`, after the identity itself has been validated. -/
def ResultDocument.identifies (d : ResultDocument) (expected : Identity) : Bool :=
  d.manifestVersion = "1" && d.jobID = expected.jobID && d.attemptID = expected.attemptID &&
  d.attemptNonce = expected.nonce && d.bundleSHA256 = expected.bundleSHA256 &&
  d.inputManifestSHA256 = expected.inputManifestSHA256

/-- A safe path of printable ASCII characters. -/
def printablePath (path : String) : Bool :=
  safeArtifactPath path && path.toList.all fun c => 32 ≤ c.toNat && c.toNat ≤ 126

/-- No path is another one's directory or equals it, whatever the case of its letters. -/
def collisionFree (paths : List String) : Bool :=
  paths.all printablePath &&
    Ancestry.scan [] (KeySort.sortBy id (paths.map String.toLower))

def parseResult (read : String → Option ResultDocument) (expected : Identity) (raw : String) :
    Except ResultFailure ResultDocument := do
  ensure (1 ≤ raw.utf8ByteSize && raw.utf8ByteSize ≤ maxManifestBytes) .invalid
  let d ← expect (read raw) .invalid
  ensure d.schema .invalid
  ensure expected.validate .invalid
  ensure (d.identifies expected) .identity
  ensure (d.startedAt ≤ d.finishedAt && d.timedOut = (d.phase = .timedOut) &&
    (d.phase = .completed || d.error.isSome)) .invalid
  ensure (collisionFree (d.artifacts.map (·.path))) .invalid
  pure d

theorem parseResult_size {read : String → Option ResultDocument} {expected : Identity}
    {raw : String} {d : ResultDocument} (h : parseResult read expected raw = .ok d) :
    raw.utf8ByteSize ≤ maxManifestBytes := by
  simp only [parseResult, bind_eq_ok, ensure_eq_ok, Bool.and_eq_true, decide_eq_true_eq] at h
  obtain ⟨-, ⟨-, hsize⟩, -⟩ := h
  exact hsize

/-! ### Paths that stay apart -/

theorem collisionFree_iff (paths : List String) :
    collisionFree paths = true ↔
      (∀ p ∈ paths, printablePath p = true) ∧
        (paths.map String.toLower).Pairwise Ancestry.Apart := by
  rw [collisionFree, Bool.and_eq_true, List.all_eq_true, Ancestry.scan_sortBy]

theorem nodup_of_collisionFree {paths : List String} (h : collisionFree paths = true) :
    paths.Nodup := by
  have hapart := ((collisionFree_iff paths).mp h).2
  rw [List.pairwise_map] at hapart
  exact hapart.imp fun hab heq => hab.1.1 (congrArg String.toLower heq)

/-- Some of the paths stay apart if all do. -/
theorem collisionFree_of_subset {paths chosen : List String} (h : collisionFree paths = true)
    (hsub : chosen ⊆ paths) (hnodup : chosen.Nodup) : collisionFree chosen = true := by
  obtain ⟨hprintable, hapart⟩ := (collisionFree_iff paths).mp h
  refine (collisionFree_iff chosen).mpr ⟨fun p hp => hprintable p (hsub hp), ?_⟩
  rw [List.pairwise_map] at hapart ⊢
  exact Ancestry.pairwise_of_subperm Ancestry.Apart.symm (hnodup.subperm hsub) hapart

end RunnerPlan
end ComputeRelay
