import Mathlib.Tactic
import ComputeRelay.Packaging.Manifest
import ComputeRelay.Runner.Contract

/-!
# From a frozen plan to the runner's manifest

`runnerCompatible` of `internal/dispatch/inputs.go`, the last check before a job is dispatched, and
`Build` of `internal/provider/runnerplan/runnerplan.go`, which writes the manifest that the runner
reads.
-/

namespace ComputeRelay
namespace RunnerPlan

open Text Paths Admission Provider

/-! ### The check before dispatch -/

/-- The paths that `runnerCompatible` takes. -/
def runnerPath (p : String) : Bool :=
  p ≠ "." && p.utf8ByteSize ≤ 240 && (components p).length ≤ 32 && Packaging.validPath p &&
    (components p).all fun part => lowercase part ∉
      [".compute-relay".toList, ".git".toList, ".ssh".toList, ".env".toList]

def disjointRunnerPaths (paths : List String) : Bool := PathSet.disjoint (paths.map components)

/-- Environment names that `runnerCompatible` refuses. -/
def incompatibleVariable (key : String) : Bool :=
  let u := uppercase key.toList
  ["CC_", "PYTHON", "PIP_", "LD_", "DYLD_", "CUDA_", "NVIDIA_", "AWS_", "KAGGLE_"].any
      (fun lead => lead.toList.isPrefixOf u) ||
    ["TOKEN", "SECRET", "PASSWORD", "CREDENTIAL", "API_KEY", "PROXY"].any
      (fun word => occursIn word.toList u) ||
    ["PATH", "HOME", "TMPDIR", "VIRTUAL_ENV", "BASH_ENV", "ENV", "SHELLOPTS", "BASHOPTS"].any
      (·.toList = u)

/-- `Spec.Execution.WorkingDirectory`, `.` when left out. -/
def workingDirectory (e : Execution) : String := e.workingDirectory.getD "."

def runnerCompatible (spec : Spec) (m : Packaging.Manifest) : Bool :=
  let e := spec.execution
  let wd := workingDirectory e
  e.command.all noNul &&
  (match e.command, e.kind with
    | [], _ => false
    | cmd :: _, .python => cmd = "python" || cmd = "python3"
    | cmd :: _, .shell => cmd = "bash" || cmd = "sh") &&
  (wd = "." || runnerPath wd) &&
  (wd = "." || m.files.any fun f => (wd.toList ++ ['/']).isPrefixOf f.path.toList) &&
  ((e.dependencies.bind (·.pythonRequirements)).all fun req => m.files.any (·.path = req)) &&
  spec.inputs.all (fun i => runnerPath i.target) && spec.outputs.all (fun o => runnerPath o.path) &&
  disjointRunnerPaths (spec.inputs.map (·.target)) &&
  disjointRunnerPaths (spec.outputs.map (·.path)) &&
  (e.environment.getD []).all fun entry => !incompatibleVariable entry.1 && noNul entry.2

/-! ### The manifest -/

def bundlePath : String := "code.bin"

/-- `InputPath`: `input-` and the index in at least three digits. -/
def inputPath (i : ℕ) : String :=
  String.ofList (['i', 'n', 'p', 'u', 't', '-'] ++
    (List.replicate (3 - (Nat.toDigits 10 i).length) '0' ++ Nat.toDigits 10 i) ++
    ['.', 'b', 'i', 'n'])

/-- One input of the specification matches the frozen one at its place. -/
def matches_ (i : Input) (frozen : FrozenInput) : Bool :=
  match i.source with
  | .object id _ => id = frozen.object.id && i.name = frozen.name && i.target = frozen.target
  | .https _ _ => false

def inputEntry (n : ℕ) (i : Input) (frozen : FrozenInput) : Runner.InputEntry where
  name := i.name
  target := i.target
  file := ⟨inputPath n, frozen.object.bytes, frozen.object.sha256⟩

/-- The loop over the inputs, from index `n` on. -/
def buildInputs : ℕ → List Input → List FrozenInput → Option (List Runner.InputEntry)
  | _, [], _ => some []
  | n, i :: rest, frozen :: more =>
    if matches_ i frozen then (buildInputs (n + 1) rest more).map
      (inputEntry n i frozen :: ·) else none
  | _, _ :: _, [] => none

/-- `Build`, for a reader of job requests. -/
def build (read : String → Option Spec) (plan : Plan) : Option (Runner.Manifest × Spec) := do
  let inputs ← plan.job.inputs
  let spec ← parse read plan.job.specification
  if spec.profile = plan.job.binding.profile && spec.bundle.objectID = inputs.bundle.id &&
      spec.timeouts.remoteWallSeconds = plan.job.wallSeconds &&
      spec.inputs.length = inputs.inputs.length then
    let entries ← buildInputs 0 spec.inputs inputs.inputs
    some ({
      manifestVersion := "compute-relay/runner/v1"
      jobID := plan.job.identity.jobID
      attemptID := plan.job.identity.attemptID
      attemptNonce := plan.job.identity.nonce
      inputManifestSHA256 := plan.job.identity.inputManifestSHA256
      bundle := ⟨bundlePath, inputs.bundle.bytes, inputs.bundle.sha256⟩
      inputs := entries
      execution := spec.execution
      outputs := spec.outputs
      resources := spec.resources
      network := spec.network
      timeouts := spec.timeouts
      workloadSecrets := spec.workloadSecrets
      executionControl := if spec.separateStart then some .prepareThenStart else none }, spec)
  else none

/-- The request as `ResolveJob` freezes it: every source becomes the frozen object at its place. -/
def resolveSources (s : Spec) (inputs : InputSnapshot) : Option Spec :=
  if s.inputs.length = inputs.inputs.length then
    some { s with
      inputs := List.zipWith (fun i frozen => { i with source := .object frozen.object.id none })
        s.inputs inputs.inputs }
  else none

/-! ### Its text -/

def fileMembers (e : Runner.Entry) : List (String × Json) :=
  [("bytes", .int e.bytes), ("path", .str e.path), ("sha256", .str e.sha256)]

def inputJson (i : Runner.InputEntry) : Json :=
  .obj [("bytes", .int i.file.bytes), ("name", .str i.name), ("path", .str i.file.path),
    ("sha256", .str i.file.sha256), ("target", .str i.target)]

/-- The document that `Build` returns; the manifests it builds supply no limits. -/
def manifestJson (m : Runner.Manifest) : Json :=
  .obj ([("attempt_id", .str m.attemptID), ("attempt_nonce", .str m.attemptNonce),
      ("bundle", .obj (fileMembers m.bundle)), ("execution", m.execution.toJson)] ++
    member "execution_control" (fun c => .str (ExecutionControl.word c)) m.executionControl ++
    [("input_manifest_sha256", .str m.inputManifestSHA256),
      ("inputs", .arr (m.inputs.map inputJson)), ("job_id", .str m.jobID),
      ("manifest_version", .str m.manifestVersion), ("network", m.network.toJson),
      ("outputs", outputsJson m.outputs), ("resources", m.resources.toJson),
      ("timeouts", m.timeouts.toJson)] ++
    member "workload_secrets" slotsJson m.workloadSecrets)

/-- The manifest as `json.Marshal` writes it. -/
def marshalManifest (m : Runner.Manifest) : String := Json.marshal Json.escapeHTML (manifestJson m)

end RunnerPlan
end ComputeRelay
