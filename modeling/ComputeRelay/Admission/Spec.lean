import Mathlib.Tactic
import ComputeRelay.Lib.Json
import ComputeRelay.Lib.PathSet
import ComputeRelay.Provider.Contract

/-!
# Job specifications

The document of `api/schemas/job-spec.v1alpha1.schema.json`, with the checks of the schema and of
`semantic` in `internal/admission/spec.go`. The record has one field for each property; an optional
property is an `Option`, and the words an enumeration allows are a type. What is left of the schema
are its lengths, which count code points, its counts, patterns and conditions.

`toJson` is the document back again, members in the order in which the encoder sorts them, so that
`canonical` is the text that `canonicalJSON` keeps.
-/

namespace ComputeRelay
namespace Admission

open Text Paths Domain Provider

def maxRequestBytes : ℕ := 2 ^ 20

def apiVersion : String := "compute-connector/v1alpha1"

inductive Kind
  | python | shell
  deriving DecidableEq

inductive Accelerator
  | cpu | gpu
  deriving DecidableEq

inductive Internet
  | disabled | required
  deriving DecidableEq

inductive OutputKind
  | file | directory
  deriving DecidableEq

inductive ExecutionControl
  | combined | prepareThenStart
  deriving DecidableEq

inductive ResultCollection
  | automatic | manual
  deriving DecidableEq

structure Dependencies where
  pythonRequirements : Option String := none
  shellSetup : Option (List (List String)) := none
  deriving DecidableEq

structure Execution where
  kind : Kind
  command : List String
  workingDirectory : Option String := none
  environment : Option (List (String × String)) := none
  dependencies : Option Dependencies := none
  deriving DecidableEq

inductive Source
  | object (objectID : String) (expected : Option (String × ℤ))
  | https (url : String) (expectedSHA256 : Option String)
  deriving DecidableEq

structure Input where
  name : String
  source : Source
  target : String
  deriving DecidableEq

structure Output where
  path : String
  kind : Option OutputKind := none
  required : Bool
  maxBytes : Option ℤ := none
  deriving DecidableEq

structure Resources where
  accelerator : Accelerator
  minimumGPUCount : Option ℤ := none
  minimumGPUMemoryBytes : Option ℤ := none
  deriving DecidableEq

structure Timeouts where
  executionDeadline : Option String := none
  remoteWallSeconds : ℤ
  setupSeconds : ℤ
  finalizationGraceSeconds : ℤ
  deriving DecidableEq

/-- An object of the workspace, with the digest and size it must have when both are given. -/
structure ObjectReference where
  objectID : String
  expected : Option (String × ℤ) := none
  deriving DecidableEq

structure ApplicationImage where
  objectID : String
  sha256 : String
  bytes : ℤ
  deriving DecidableEq

structure Retention where
  afterCollectionSeconds : Option ℤ := none
  uncollectedMaxSeconds : Option ℤ := none
  deriving DecidableEq

structure Spec where
  apiVersion : String
  name : String
  profile : String
  labels : Option (List (String × String)) := none
  bundle : ObjectReference
  applicationImage : Option ApplicationImage := none
  execution : Execution
  inputs : List Input
  outputs : List Output
  resources : Resources
  network : Internet
  timeouts : Timeouts
  resultCollection : Option ResultCollection := none
  retention : Option Retention := none
  executionControl : Option ExecutionControl := none
  workloadSecrets : Option (List Slot) := none
  deriving DecidableEq

/-! ### The schema -/

/-- Between `low` and `high` code points. -/
def points (s : String) (low high : ℕ) : Bool := low ≤ s.toList.length && s.toList.length ≤ high

/-- A first character of one class, then others of another, at most `high` in all. -/
def pattern (first rest : UInt8 → Bool) (high : ℕ) (s : String) : Bool :=
  match s.toList with
  | [] => false
  | c :: cs => ascii first c && cs.all (ascii rest) && (c :: cs).length ≤ high

def alphanumeric (b : UInt8) : Bool := letter b || digit b

def profileName : String → Bool :=
  pattern (fun b => lower b || digit b)
    (fun b => lower b || digit b || b = 46 || b = 95 || b = 45) 128

def labelKey : String → Bool :=
  pattern (fun b => lower b || digit b)
    (fun b => lower b || digit b || b = 46 || b = 95 || b = 47 || b = 45) 64

def environmentName : String → Bool :=
  pattern (fun b => letter b || b = 95) (fun b => alphanumeric b || b = 95) 128

def inputNamePattern : String → Bool :=
  pattern alphanumeric (fun b => alphanumeric b || b = 46 || b = 95 || b = 45) 64

def objectIDPattern : String → Bool :=
  pattern alphanumeric (fun b => alphanumeric b || b = 46 || b = 95 || b = 58 || b = 45) 128

def sha256Pattern (s : String) : Bool :=
  s.toList.length = 64 && s.toList.all (ascii fun b => digit b || (97 ≤ b && b ≤ 102))

/-- `relative_file_path`: no empty and no dot segment, no drive letter, no backslash and no control
character. -/
def relativeFilePath (s : String) : Bool :=
  points s 1 1024 &&
  (match s.toList with
    | c :: ':' :: _ => !ascii letter c
    | _ => true) &&
  s.toList.all (fun c => c ≠ '\\' && 32 ≤ c.toNat) &&
  (components s).all fun part => part ≠ [] && part ≠ ['.'] && part ≠ ['.', '.']

def relativePath (s : String) : Bool := s = "." || relativeFilePath s

/-- The digits of `YYYY-MM-DDTHH:MM:SSZ`. -/
def deadlinePattern (s : String) : Bool :=
  match s.toList with
  | [y1, y2, y3, y4, '-', m1, m2, '-', d1, d2, 'T', h1, h2, ':', n1, n2, ':', s1, s2, 'Z'] =>
    [y1, y2, y3, y4, m1, m2, d1, d2, h1, h2, n1, n2, s1, s2].all (ascii digit)
  | _ => false

def argument (arg : String) : Bool := points arg 1 4096

def Dependencies.schema (d : Dependencies) : Bool :=
  d.pythonRequirements.all relativeFilePath &&
  d.shellSetup.all fun commands => commands.length ≤ 32 &&
    commands.all fun cmd => 1 ≤ cmd.length && cmd.length ≤ 32 && cmd.all argument

def Execution.schema (e : Execution) : Bool :=
  1 ≤ e.command.length && e.command.length ≤ 64 && e.command.all argument &&
  e.workingDirectory.all relativePath &&
  (e.environment.all fun env => (env.map (·.1)).Nodup && env.length ≤ 64 &&
    env.all fun entry => environmentName entry.1 && points entry.2 0 4096) &&
  (e.dependencies.all fun d => d.schema && (e.kind ≠ .python || d.shellSetup.isNone))

def expectedSchema (expected : Option (String × ℤ)) : Bool :=
  expected.all fun e => sha256Pattern e.1 && 0 ≤ e.2

def Source.schema : Source → Bool
  | .object id expected => objectIDPattern id && expectedSchema expected
  | .https url expected => points url 0 4096 && "https://".toList.isPrefixOf url.toList &&
      expected.all sha256Pattern

def Input.schema (i : Input) : Bool :=
  inputNamePattern i.name && i.source.schema && relativeFilePath i.target

def within (low high : ℤ) (n : ℤ) : Bool := low ≤ n && n ≤ high

def Output.schema (o : Output) : Bool :=
  relativeFilePath o.path && o.maxBytes.all (within 1 4294967296)

def Resources.schema (r : Resources) : Bool :=
  r.minimumGPUCount.all (within 1 8) && r.minimumGPUMemoryBytes.all (within 1 274877906944) &&
  match r.accelerator with
  | .gpu => r.minimumGPUCount.isSome
  | .cpu => r.minimumGPUCount.isNone && r.minimumGPUMemoryBytes.isNone

def Timeouts.schema (t : Timeouts) : Bool :=
  t.executionDeadline.all deadlinePattern && within 1 604800 t.remoteWallSeconds &&
  within 1 21600 t.setupSeconds && within 1 3600 t.finalizationGraceSeconds

def slotSchema (s : Slot) : Bool :=
  pattern lower (fun b => lower b || digit b || b = 95) 32 s.name &&
    (s.exposure = "file" || s.exposure = "file_and_local_process_arguments")

def Spec.schema (s : Spec) : Bool :=
  s.apiVersion = Admission.apiVersion && points s.name 1 128 && profileName s.profile &&
  (s.labels.all fun labels => (labels.map (·.1)).Nodup && labels.length ≤ 32 &&
    labels.all fun entry => labelKey entry.1 && points entry.2 0 256) &&
  objectIDPattern s.bundle.objectID && expectedSchema s.bundle.expected &&
  (s.applicationImage.all fun image => objectIDPattern image.objectID &&
    sha256Pattern image.sha256 && within 1 2147483648 image.bytes) &&
  s.execution.schema && s.inputs.length ≤ 256 && s.inputs.all Input.schema &&
  1 ≤ s.outputs.length && s.outputs.length ≤ 64 && s.outputs.all Output.schema &&
  s.resources.schema && s.timeouts.schema &&
  (s.retention.all fun r =>
    (r.afterCollectionSeconds.isSome || r.uncollectedMaxSeconds.isSome) &&
    r.afterCollectionSeconds.all (within 0 2592000) &&
    r.uncollectedMaxSeconds.all (within 1 2592000)) &&
  (s.workloadSecrets.all fun slots => 1 ≤ slots.length && slots.length ≤ 8 && slots.Nodup &&
    slots.all slotSchema && s.executionControl = some .prepareThenStart)

/-! ### The rules beyond the schema -/

def Spec.separateStart (s : Spec) : Bool := s.executionControl = some .prepareThenStart

/-- `Spec.Deadline`: Go's zero time when no deadline is given. -/
def Spec.deadline (s : Spec) : ℤ :=
  (Rfc3339.parse (s.timeouts.executionDeadline.getD "")).getD zeroTime

def validObjectExpectation (expected : Option (String × ℤ)) : Bool :=
  expected.all fun e => validSHA256Digest e.1 && 0 ≤ e.2

/-- One target equals or contains an earlier one. -/
def overlaps (paths : List String) (next : String) : Bool :=
  paths.any fun p => overlap next.toLower p.toLower

def noNul (s : String) : Bool := '\x00' ∉ s.toList

/-- Environment names that are refused whatever runs the job. -/
def reservedVariable (key : String) : Bool :=
  let u := uppercase key.toList
  ["CC_", "LD_", "DYLD_"].any (fun lead => lead.toList.isPrefixOf u) ||
    ["PATH", "HOME", "PYTHONPATH", "PYTHONHOME", "VIRTUAL_ENV", "KAGGLE_API_TOKEN", "KAGGLE_KEY",
      "KAGGLE_USERNAME"].any (·.toList = u)

def semanticInputs : List String → List String → List Input → Bool
  | _, _, [] => true
  | names, targets, i :: rest =>
    (match i.source with
      | .object _ expected => validObjectExpectation expected
      | .https _ _ => true) &&
    i.name.toLower ∉ names && !overlaps targets i.target &&
      semanticInputs (i.name.toLower :: names) (targets ++ [i.target]) rest

def semanticOutputs : List String → List Output → Bool
  | _, [] => true
  | targets, o :: rest => !overlaps targets o.path && semanticOutputs (targets ++ [o.path]) rest

def semantic (s : Spec) : Bool :=
  validObjectExpectation s.bundle.expected &&
  (s.applicationImage.all fun image => validOpaqueID image.objectID &&
    validSHA256Digest image.sha256 && 1 ≤ image.bytes && image.bytes ≤ 2 * 2 ^ 30) &&
  validSlots (s.workloadSecrets.getD []) &&
  (s.workloadSecrets.getD [] = [] || s.separateStart) &&
  (s.timeouts.executionDeadline.all fun raw =>
    2 ≤ Rfc3339.year s.deadline && Rfc3339.format s.deadline = raw) &&
  !blank s.name &&
  s.timeouts.setupSeconds + s.timeouts.finalizationGraceSeconds < s.timeouts.remoteWallSeconds &&
  ((s.execution.environment.getD []).all fun entry =>
    !reservedVariable entry.1 && noNul entry.2) &&
  s.execution.command.all noNul &&
  ((s.execution.dependencies.bind (·.shellSetup)).getD []).all (·.all noNul) &&
  semanticInputs [] [] s.inputs && semanticOutputs [] s.outputs

/-! ### The document -/

/-- A member that is there when the value is. -/
def member {α : Type} (name : String) (toJson : α → Json) (value : Option α) :
    List (String × Json) :=
  (value.map fun v => (name, toJson v)).toList

def Kind.word : Kind → String
  | .python => "python"
  | .shell => "shell"

def Accelerator.word : Accelerator → String
  | .cpu => "cpu"
  | .gpu => "gpu"

def Internet.word : Internet → String
  | .disabled => "disabled"
  | .required => "required"

def OutputKind.word : OutputKind → String
  | .file => "file"
  | .directory => "directory"

def ExecutionControl.word : ExecutionControl → String
  | .combined => "combined"
  | .prepareThenStart => "prepare_then_start"

def ResultCollection.word : ResultCollection → String
  | .automatic => "automatic"
  | .manual => "manual"

/-- An object whose values are texts. -/
def texts (entries : List (String × String)) : Json :=
  .obj (entries.map fun e => (e.1, .str e.2))

def arguments (args : List String) : Json := .arr (args.map .str)

def Dependencies.toJson (d : Dependencies) : Json :=
  .obj (member "python_requirements" .str d.pythonRequirements ++
    member "shell_setup" (fun commands => .arr (commands.map arguments)) d.shellSetup)

def Execution.toJson (e : Execution) : Json :=
  .obj ([("command", arguments e.command)] ++
    member "dependencies" Dependencies.toJson e.dependencies ++
    member "environment" texts e.environment ++ [("kind", .str e.kind.word)] ++
    member "working_directory" .str e.workingDirectory)

def expectedJson (expected : Option (String × ℤ)) : List (String × Json) :=
  match expected with
  | none => []
  | some (sha256, bytes) => [("bytes", .int bytes), ("sha256", .str sha256)]

def Source.toJson : Source → Json
  | .object id expected =>
    .obj (expectedJson expected ++ [("kind", .str "object"), ("object_id", .str id)])
  | .https url expected =>
    .obj (member "expected_sha256" .str expected ++ [("kind", .str "https"), ("url", .str url)])

def Input.toJson (i : Input) : Json :=
  .obj [("name", .str i.name), ("source", i.source.toJson), ("target", .str i.target)]

def Output.toJson (o : Output) : Json :=
  .obj (member "kind" (fun k => .str (OutputKind.word k)) o.kind ++
    member "max_bytes" .int o.maxBytes ++ [("path", .str o.path), ("required", .bool o.required)])

def outputsJson (outputs : List Output) : Json := .arr (outputs.map Output.toJson)

def Resources.toJson (r : Resources) : Json :=
  .obj ([("accelerator", .str r.accelerator.word)] ++
    member "minimum_gpu_count" .int r.minimumGPUCount ++
    member "minimum_gpu_memory_bytes" .int r.minimumGPUMemoryBytes)

def Internet.toJson (n : Internet) : Json := .obj [("remote_internet", .str n.word)]

def Timeouts.toJson (t : Timeouts) : Json :=
  .obj (member "execution_deadline" .str t.executionDeadline ++
    [("finalization_grace_seconds", .int t.finalizationGraceSeconds),
      ("remote_wall_seconds", .int t.remoteWallSeconds), ("setup_seconds", .int t.setupSeconds)])

def slotsJson (slots : List Slot) : Json :=
  .arr (slots.map fun s => .obj [("exposure", .str s.exposure), ("name", .str s.name)])

def Spec.toJson (s : Spec) : Json :=
  .obj ([("api_version", .str s.apiVersion)] ++
    member "application_image" (fun image : ApplicationImage =>
      .obj [("bytes", .int image.bytes), ("object_id", .str image.objectID),
        ("sha256", .str image.sha256)]) s.applicationImage ++
    [("bundle", .obj (expectedJson s.bundle.expected ++
      [("object_id", .str s.bundle.objectID)])), ("execution", s.execution.toJson)] ++
    member "execution_control" (fun c => .str (ExecutionControl.word c)) s.executionControl ++
    [("inputs", .arr (s.inputs.map Input.toJson))] ++ member "labels" texts s.labels ++
    [("name", .str s.name), ("network", s.network.toJson), ("outputs", outputsJson s.outputs),
      ("profile", .str s.profile), ("resources", s.resources.toJson)] ++
    member "result_collection" (fun c => .str (ResultCollection.word c)) s.resultCollection ++
    member "retention" (fun r : Retention =>
      .obj (member "after_collection_seconds" .int r.afterCollectionSeconds ++
        member "uncollected_max_seconds" .int r.uncollectedMaxSeconds)) s.retention ++
    [("timeouts", s.timeouts.toJson)] ++ member "workload_secrets" slotsJson s.workloadSecrets)

def Spec.canonical (s : Spec) : String := Json.marshal Json.escapeHTML s.toJson

/-- `Parse`, for a reader that turns a text into the document it spells. -/
def parse (read : String → Option Spec) (raw : String) : Option Spec :=
  if raw = "" || maxRequestBytes < raw.utf8ByteSize then none
  else match read raw with
    | none => none
    | some s =>
      if s.canonical.utf8ByteSize ≤ maxRequestBytes && s.schema && semantic s then some s else none

end Admission
end ComputeRelay
