import Mathlib.Tactic
import ComputeRelay.Lib.Json
import ComputeRelay.Runner.Contract

/-!
# The result the runner writes

The record that `execute` fills and `atomic_json` writes as `execution-result.json`, with the fixed
failures of the runner. `toJson` lists the members in the order in which the code adds them; of two
that the redactor gives one name, the later one stays.
-/

namespace ComputeRelay
namespace Runner

def runnerVersion : String := "0.1.0"

inductive FailureCode
  | invalidJobSpec | unsupportedCapability | invalidInputPath | resourceRequirementUnsatisfied
  | inputFetchFailed | inputChanged | inputDigestMismatch | inputTooLarge | dependencySetupFailed
  | commandFailed | remoteTimeout | providerExecutionLost | artifactMissing
  | artifactCollectionFailed
  deriving DecidableEq

def FailureCode.word : FailureCode → String
  | .invalidJobSpec => "INVALID_JOB_SPEC"
  | .unsupportedCapability => "UNSUPPORTED_CAPABILITY"
  | .invalidInputPath => "INVALID_INPUT_PATH"
  | .resourceRequirementUnsatisfied => "RESOURCE_REQUIREMENT_UNSATISFIED"
  | .inputFetchFailed => "INPUT_FETCH_FAILED"
  | .inputChanged => "INPUT_CHANGED"
  | .inputDigestMismatch => "INPUT_DIGEST_MISMATCH"
  | .inputTooLarge => "INPUT_TOO_LARGE"
  | .dependencySetupFailed => "DEPENDENCY_SETUP_FAILED"
  | .commandFailed => "COMMAND_FAILED"
  | .remoteTimeout => "REMOTE_TIMEOUT"
  | .providerExecutionLost => "PROVIDER_EXECUTION_LOST"
  | .artifactMissing => "ARTIFACT_MISSING"
  | .artifactCollectionFailed => "ARTIFACT_COLLECTION_FAILED"

inductive Stage
  | validation | inputPreparation | execution | results
  deriving DecidableEq

def Stage.word : Stage → String
  | .validation => "validation"
  | .inputPreparation => "input_preparation"
  | .execution => "execution"
  | .results => "results"

structure Failure where
  code : FailureCode := .invalidJobSpec
  stage : Stage := .validation
  message : String := "Invalid runner manifest"
  deriving DecidableEq

/-- The part of `execute` that is under way. -/
inductive RunnerPhase
  | preparation | resourceCheck | setup | payload
  deriving DecidableEq

def RunnerPhase.word : RunnerPhase → String
  | .preparation => "preparation"
  | .resourceCheck => "resource_check"
  | .setup => "setup"
  | .payload => "payload"

/-- How the attempt ended. -/
inductive ResultPhase
  | completed | failed | timedOut | cancelled | setupFailed | resourceCheckFailed
  deriving DecidableEq

def ResultPhase.word : ResultPhase → String
  | .completed => "completed"
  | .failed => "failed"
  | .timedOut => "timed_out"
  | .cancelled => "cancelled"
  | .setupFailed => "setup_failed"
  | .resourceCheckFailed => "resource_check_failed"

/-- `Failure.wire`, with the phase that `execute` adds to failures of its body. -/
structure WireError where
  failure : Failure
  runnerPhase : Option RunnerPhase := none
  deriving DecidableEq

/-- What the probe saw of the accelerator. -/
structure Device where
  deviceName : String
  cudaVersion : String
  framework : String
  deriving DecidableEq

structure ResourceCheck where
  gpuRequired : Bool
  gpuVerified : Bool
  device : Option Device := none
  deriving DecidableEq

structure Artifact where
  path : String
  bytes : ℕ
  sha256 : String
  deriving DecidableEq

structure Result where
  jobID : String
  attemptID : String
  attemptNonce : String
  inputManifestSHA256 : String
  bundleSHA256 : String
  startedAt : String
  finishedAt : String
  phase : ResultPhase
  exitCode : Option ℤ
  timedOut : Bool
  resourceCheck : ResourceCheck
  artifacts : List Artifact
  error : Option WireError
  deriving DecidableEq

/-! ### The document -/

def WireError.toJson (e : WireError) : Json :=
  .obj ([("code", .str e.failure.code.word), ("stage", .str e.failure.stage.word),
      ("message", .str e.failure.message)] ++
    (e.runnerPhase.map fun p => ("details", .obj [("runner_phase", .str p.word)])).toList)

def ResourceCheck.toJson (c : ResourceCheck) : Json :=
  .obj ([("gpu_required", .bool c.gpuRequired), ("gpu_verified", .bool c.gpuVerified)] ++
    (c.device.map fun d => ("device_name", .str d.deviceName)).toList ++
    (c.device.map fun d => ("cuda_version", .str d.cudaVersion)).toList ++
    (c.device.map fun d => ("framework", .str d.framework)).toList)

def Artifact.toJson (a : Artifact) : Json :=
  .obj [("path", .str a.path), ("bytes", .int a.bytes), ("sha256", .str a.sha256)]

def exitCodeJson : Option ℤ → Json
  | none => .null
  | some n => .int n

def errorJson : Option WireError → Json
  | none => .null
  | some e => e.toJson

def Result.members (r : Result) : List (String × Json) :=
  [("manifest_version", .str "1"), ("runner_version", .str runnerVersion), ("job_id", .str r.jobID),
    ("attempt_id", .str r.attemptID), ("attempt_nonce", .str r.attemptNonce),
    ("input_manifest_sha256", .str r.inputManifestSHA256),
    ("bundle_sha256", .str r.bundleSHA256), ("started_at", .str r.startedAt),
    ("finished_at", .str r.finishedAt), ("phase", .str r.phase.word),
    ("exit_code", exitCodeJson r.exitCode), ("timed_out", .bool r.timedOut),
    ("resource_check", r.resourceCheck.toJson),
    ("artifacts", .arr (r.artifacts.map Artifact.toJson)), ("error", errorJson r.error)]

def Result.toJson (r : Result) : Json := .obj r.members

end Runner
end ComputeRelay
