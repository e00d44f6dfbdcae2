import Mathlib.Tactic
import ComputeRelay.Lib.PathSet
import ComputeRelay.Lib.Rfc3339
import ComputeRelay.Admission.Spec

/-!
# The contract of the remote runner

`runner/python/relay_runner/contract.py`: what the runner requires of the manifest it is handed. The
lengths count UTF-8 bytes, as `text` does. Every refused check raises the same `Failure()`, so a
check is a Boolean and `validate` answers the limits of the attempt or nothing. The parts that the
relay copies from the job keep the types they have there; `fields` and the `type(...) is` checks are
then the types.
-/

namespace ComputeRelay
namespace Runner

open Text Paths Admission Provider

def version : String := "compute-relay/runner/v1"

def maxManifest : ℕ := 2 ^ 20

structure Limits where
  bundleBytes : ℤ
  expandedBytes : ℤ
  inputBytes : ℤ
  artifactBytes : ℤ
  artifactFiles : ℤ
  stdoutBytes : ℤ
  stderrBytes : ℤ
  deriving DecidableEq

def defaultLimits : Limits :=
  ⟨100 * 2 ^ 20, 500 * 2 ^ 20, 4 * 2 ^ 30, 4 * 2 ^ 30, 10000, 20 * 2 ^ 20, 20 * 2 ^ 20⟩

/-- The limits of a manifest: any of them may be left out. -/
structure SuppliedLimits where
  bundleBytes : Option ℤ := none
  expandedBytes : Option ℤ := none
  inputBytes : Option ℤ := none
  artifactBytes : Option ℤ := none
  artifactFiles : Option ℤ := none
  stdoutBytes : Option ℤ := none
  stderrBytes : Option ℤ := none
  deriving DecidableEq

structure Entry where
  path : String
  bytes : ℤ
  sha256 : String
  deriving DecidableEq

structure InputEntry where
  name : String
  target : String
  file : Entry
  deriving DecidableEq

structure Manifest where
  manifestVersion : String
  jobID : String
  attemptID : String
  attemptNonce : String
  bundle : Entry
  inputs : List InputEntry
  inputManifestSHA256 : String
  execution : Execution
  resources : Resources
  network : Internet
  timeouts : Timeouts
  outputs : List Output
  limits : SuppliedLimits := {}
  executionControl : Option ExecutionControl := none
  workloadSecrets : Option (List Slot) := none
  deriving DecidableEq

/-! ### Texts and paths -/

/-- `text` -/
def text (value : String) (maximum : ℕ) : Bool :=
  0 < value.utf8ByteSize && value.utf8ByteSize ≤ maximum && noNul value

def protectedNames : List Component :=
  [".compute-relay".toList, ".git".toList, ".ssh".toList, ".env".toList]

/-- The characters that `relative` takes: printable ASCII without the characters `\:*?"<>|`. -/
def pathChar (c : Char) : Bool :=
  32 ≤ c.toNat && c.toNat < 127 && c ∉ ['\\', ':', '*', '?', '"', '<', '>', '|']

def relative (value : String) (dot : Bool) : Bool :=
  text value 240 &&
    ((value = "." && dot) ||
      (value.toList.all pathChar && (components value).length ≤ 32 &&
        (components value).all fun part => portable part && lowercase part ∉ protectedNames))

/-- `disjoint` -/
def disjoint (paths : List String) : Bool :=
  paths.all (relative · false) && PathSet.disjoint (paths.map components)

def argv (value : List String) (maximum : ℕ) : Bool :=
  1 ≤ value.length && value.length ≤ maximum && value.all (text · 4096)

/-- `[A-Za-z0-9][A-Za-z0-9._:-]{0,127}` -/
def idPattern (s : String) : Bool :=
  pattern alphanumeric (fun b => alphanumeric b || b = 46 || b = 95 || b = 58 || b = 45) 128 s

/-- `[A-Za-z0-9._:-]{16,256}` -/
def noncePattern (s : String) : Bool :=
  16 ≤ s.toList.length && s.toList.length ≤ 256 &&
    s.toList.all (ascii fun b => alphanumeric b || b = 46 || b = 95 || b = 58 || b = 45)

/-- `[a-f0-9]{64}` -/
def digestPattern (s : String) : Bool :=
  s.toList.length = 64 && s.toList.all (ascii fun b => digit b || (97 ≤ b && b ≤ 102))

/-- A whole second of UTC after year 1, as the pattern and `datetime.strptime` read it. -/
def utcTime (raw : String) : Option ℤ :=
  if deadlinePattern raw then (Rfc3339.parse raw).filter (1 < Rfc3339.year ·) else none

/-! ### The manifest -/

/-- A supplied limit lies between 1 and the default. -/
def supplied (value : Option ℤ) (default_ : ℤ) : Bool := value.all (within 1 default_)

def SuppliedLimits.valid (s : SuppliedLimits) : Bool :=
  supplied s.bundleBytes defaultLimits.bundleBytes &&
  supplied s.expandedBytes defaultLimits.expandedBytes &&
  supplied s.inputBytes defaultLimits.inputBytes &&
  supplied s.artifactBytes defaultLimits.artifactBytes &&
  supplied s.artifactFiles defaultLimits.artifactFiles &&
  supplied s.stdoutBytes defaultLimits.stdoutBytes &&
  supplied s.stderrBytes defaultLimits.stderrBytes

def SuppliedLimits.resolve (s : SuppliedLimits) : Limits where
  bundleBytes := s.bundleBytes.getD defaultLimits.bundleBytes
  expandedBytes := s.expandedBytes.getD defaultLimits.expandedBytes
  inputBytes := s.inputBytes.getD defaultLimits.inputBytes
  artifactBytes := s.artifactBytes.getD defaultLimits.artifactBytes
  artifactFiles := s.artifactFiles.getD defaultLimits.artifactFiles
  stdoutBytes := s.stdoutBytes.getD defaultLimits.stdoutBytes
  stderrBytes := s.stderrBytes.getD defaultLimits.stderrBytes

def slotsValid (slots : List Slot) : Bool :=
  1 ≤ slots.length && slots.length ≤ 8 && (slots.map (·.name)).Nodup &&
  slots.all fun s =>
    pattern lower (fun b => lower b || digit b || b = 95) 32 s.name &&
      (s.exposure = "file" || s.exposure = "file_and_local_process_arguments")

def Entry.valid (e : Entry) (maximum : ℤ) : Bool :=
  relative e.path false && within 0 maximum e.bytes && digestPattern e.sha256

/-- Environment names that the runner does not pass on. -/
def refusedVariable (key : String) : Bool :=
  let u := uppercase key.toList
  ["CC_", "PYTHON", "PIP_", "LD_", "CUDA_", "NVIDIA_", "AWS_", "KAGGLE_"].any
      (fun lead => lead.toList.isPrefixOf u) ||
    ["PATH", "HOME", "TMPDIR", "VIRTUAL_ENV", "BASH_ENV", "ENV", "SHELLOPTS", "BASHOPTS"].any
      (·.toList = u) ||
    ["TOKEN", "SECRET", "PASSWORD", "CREDENTIAL", "API_KEY", "PROXY"].any
      (fun word => occursIn word.toList u)

def environmentValid (env : List (String × String)) : Bool :=
  env.length ≤ 64 && env.all fun entry =>
    environmentName entry.1 && !refusedVariable entry.1 && entry.2.utf8ByteSize ≤ 4096 &&
      noNul entry.2

/-- The interpreter that a command of this kind starts. -/
def interpreters : Kind → List String
  | .python => ["python", "python3"]
  | .shell => ["bash", "sh"]

def executionValid (e : Execution) : Bool :=
  argv e.command 64 && e.command.head?.any (· ∈ interpreters e.kind) &&
  relative (e.workingDirectory.getD ".") true && environmentValid (e.environment.getD []) &&
  (let deps := e.dependencies.getD {}
   deps.pythonRequirements.all (relative · false) &&
    deps.shellSetup.all fun commands => e.kind = .shell && commands.length ≤ 32 &&
      commands.all (argv · 32))

def resourcesValid (r : Resources) : Bool :=
  match r.accelerator with
  | .gpu => r.minimumGPUCount.any (within 1 8) &&
    r.minimumGPUMemoryBytes.all (within 1 274877906944)
  | .cpu => r.minimumGPUCount.isNone && r.minimumGPUMemoryBytes.isNone

def timeoutsValid (t : Timeouts) : Bool :=
  t.executionDeadline.all (fun raw => (utcTime raw).isSome) &&
  within 1 604800 t.remoteWallSeconds && within 1 21600 t.setupSeconds &&
  within 1 3600 t.finalizationGraceSeconds &&
  t.setupSeconds + t.finalizationGraceSeconds < t.remoteWallSeconds

def outputsValid (outputs : List Output) (artifactBytes : ℤ) : Bool :=
  1 ≤ outputs.length && outputs.length ≤ 64 &&
  (outputs.all fun o => relative o.path false && o.maxBytes.all (within 1 artifactBytes)) &&
  disjoint (outputs.map (·.path))

def inputsValid (inputs : List InputEntry) (inputBytes : ℤ) : Bool :=
  inputs.length ≤ 256 && (inputs.map (·.name)).Nodup &&
  (inputs.all fun i => inputNamePattern i.name && i.file.valid (2 * 2 ^ 30)) &&
  (inputs.map (·.file.bytes)).sum ≤ inputBytes && disjoint (inputs.map (·.target))

/-- `validate` -/
def validate (m : Manifest) : Option Limits :=
  let limits := m.limits.resolve
  if m.executionControl.all (· = .prepareThenStart) &&
      (m.workloadSecrets.all fun slots =>
        m.executionControl = some .prepareThenStart && slotsValid slots) &&
      m.manifestVersion = version && idPattern m.jobID && idPattern m.attemptID &&
      noncePattern m.attemptNonce && digestPattern m.inputManifestSHA256 && m.limits.valid &&
      m.bundle.valid limits.bundleBytes && inputsValid m.inputs limits.inputBytes &&
      executionValid m.execution && resourcesValid m.resources && timeoutsValid m.timeouts &&
      outputsValid m.outputs limits.artifactBytes then
    some limits
  else none

/-- `load`, for a JSON reader `loads`. -/
def load (loads : String → Option Manifest) (raw : String) : Option (Manifest × Limits) :=
  if raw.utf8ByteSize ≤ maxManifest then
    (loads raw).bind fun m => (validate m).map (m, ·)
  else none

end Runner
end ComputeRelay
