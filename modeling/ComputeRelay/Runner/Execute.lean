import Mathlib.Tactic
import ComputeRelay.Runner.Result

/-!
# One attempt of the runner

`execute` of `runner/python/relay_runner/main.py`. Its body is a list of instructions, each with
what the machine answers there: a check of the budgets, a statement that may raise, a command with
its outcome, the verdict of the GPU probe. `Attempt` holds those answers and the value of the
cancellation flag at each of its reads, so an attempt is a run of `execute` and every attempt is
possible. The handlers after the body read the flag again.
-/

namespace ComputeRelay
namespace Runner

/-- What a statement of the body raises: a failure, one of the errors that the second handler names,
or anything else, which leaves `execute` without a result. -/
inductive Raised
  | failure (f : Failure)
  | listed
  | escaping
  deriving DecidableEq

/-- A statement without an effect on the result. -/
inductive Plain
  /-- `check()`, and whether its time budget is spent. -/
  | check (expired : Bool)
  | statement (raised : Option Raised)

/-- What `process.run` reports. -/
structure CommandOutcome where
  exitCode : Option ℤ
  timedOut : Bool
  cancelled : Bool
  reaped : Bool

inductive Label
  | resourceCheck | setup | payload
  deriving DecidableEq

inductive Instruction
  | plain (p : Plain)
  /-- `phase = …` -/
  | enter (phase : RunnerPhase)
  /-- The end of `command(…)`, after its own check. -/
  | command (label : Label) (answer : Except Raised CommandOutcome)
  /-- The end of `probe`: the accelerator that was required, or what the checks on it raise. -/
  | verify (answer : Except Raised Device)

/-- The variables of the body that the handlers and the result read. -/
structure Progress where
  phase : RunnerPhase := .preparation
  exitCode : Option ℤ := none
  gpuVerified : Bool := false
  device : Option Device := none
  /-- How often the cancellation flag has been read. -/
  reads : ℕ := 0

def terminationRequested : Failure := ⟨.commandFailed, .execution, "Runner termination requested"⟩

def budgetExceeded : Failure := ⟨.remoteTimeout, .execution, "Runner time budget exceeded"⟩

/-- What a command raises after it ended. -/
def CommandOutcome.raised (label : Label) (o : CommandOutcome) : Option Raised :=
  if o.cancelled then some (.failure terminationRequested)
  else if o.timedOut then some (.failure budgetExceeded)
  else if !o.reaped then
    some (.failure ⟨.providerExecutionLost, .execution, "Process termination not established"⟩)
  else if o.exitCode ≠ some 0 then
    some (.failure ⟨if label = .setup then .dependencySetupFailed else .commandFailed, .execution,
      "Declared command failed"⟩)
  else none

/-- One instruction, with the flag's value at each read and whether a GPU is required. -/
def Instruction.step (flag : ℕ → Bool) (gpu : Bool) (s : Progress) :
    Instruction → Progress × Option Raised
  | .plain (.check expired) =>
    ({ s with reads := s.reads + 1 },
      if flag s.reads then some (.failure terminationRequested)
      else if expired then some (.failure budgetExceeded) else none)
  | .plain (.statement raised) => (s, raised)
  | .enter phase => ({ s with phase := phase }, none)
  | .command _ (.error e) => (s, some e)
  | .command label (.ok o) =>
    (if label = .payload then { s with exitCode := o.exitCode } else s, o.raised label)
  | .verify answer =>
    if gpu then
      match answer with
      | .error e => (s, some e)
      | .ok device => ({ s with gpuVerified := true, device := some device }, none)
    else (s, none)

/-- The instructions up to the first that raises. -/
def perform (flag : ℕ → Bool) (gpu : Bool) : Progress → List Instruction → Progress × Option Raised
  | s, [] => (s, none)
  | s, i :: rest =>
    match i.step flag gpu s with
    | (t, none) => perform flag gpu t rest
    | (t, some e) => (t, some e)

/-! ### Attempts -/

/-- One call of `command`: whether its budget is spent, and what the command answers. -/
structure Call where
  expired : Bool
  answer : Except Raised CommandOutcome

def Call.instructions (label : Label) (c : Call) : List Instruction :=
  [.plain (.check c.expired), .command label c.answer]

/-- One call of `probe`: its command, the statements that read the observation, the verdict. -/
structure Probe where
  call : Call
  reading : List Plain
  verdict : Except Raised Device

def Probe.instructions (p : Probe) : List Instruction :=
  p.call.instructions .resourceCheck ++ p.reading.map .plain ++ [.verify p.verdict]

/-- A statement of the setup, or one of its commands. -/
inductive SetupStep
  | plain (p : Plain)
  | command (c : Call)

def SetupStep.instructions : SetupStep → List Instruction
  | .plain p => [.plain p]
  | .command c => c.instructions .setup

/-- How the removal of the secret files ends. -/
inductive Removal
  | removed | osError | escaping
  deriving DecidableEq

/-- What `artifacts` answers. -/
inductive Collection
  | collected (artifacts : List Artifact)
  | failure (f : Failure)
  | listed
  | escaping

/-- A run of `execute`, as the machine answers. -/
structure Attempt where
  manifest : Manifest
  /-- The first statement has loaded the text of `json.dumps(manifest)`. -/
  loaded : Bool
  startedAt : String
  finishedAt : String
  /-- The cancellation flag at its reads, the first one first. -/
  flag : ℕ → Bool
  preparation : List Plain
  before : Probe
  setup : List SetupStep
  /-- The second probe, for a job with dependencies. -/
  after : Option Probe
  setupExpired : Bool
  launch : List Plain
  payload : Call
  removal : Removal
  collection : Collection
  /-- The redactor of the attempt's secrets, on one text. -/
  redact : String → String
  /-- The logs were closed, no secret was left in the document and the files were written. -/
  published : Bool

def Attempt.gpuRequired (a : Attempt) : Bool := a.manifest.resources.accelerator = .gpu

/-- The `try` block up to the assignment of `completed`. -/
def Attempt.body (a : Attempt) : List Instruction :=
  a.preparation.map .plain ++ [.enter .resourceCheck] ++ a.before.instructions ++
    [.enter .setup] ++ a.setup.flatMap SetupStep.instructions ++
    (match a.after with
      | none => []
      | some p => .enter .resourceCheck :: p.instructions) ++
    [.plain (.check a.setupExpired), .enter .payload] ++ a.launch.map .plain ++
    a.payload.instructions .payload

def Attempt.ended (a : Attempt) : Progress × Option Raised :=
  perform a.flag a.gpuRequired {} a.body

/-- The result as the body leaves it. -/
def Attempt.initial (a : Attempt) (s : Progress) : Result where
  jobID := a.manifest.jobID
  attemptID := a.manifest.attemptID
  attemptNonce := a.manifest.attemptNonce
  inputManifestSHA256 := a.manifest.inputManifestSHA256
  bundleSHA256 := a.manifest.bundle.sha256
  startedAt := a.startedAt
  finishedAt := a.startedAt
  phase := .failed
  exitCode := s.exitCode
  timedOut := false
  resourceCheck := ⟨a.gpuRequired, s.gpuVerified, s.device⟩
  artifacts := []
  error := none

/-! ### The handlers -/

/-- The phase of a failed body: the flag is read once. -/
def Attempt.failedPhase (a : Attempt) (s : Progress) (f : Failure) : ResultPhase :=
  if a.flag s.reads then .cancelled
  else if f.code = .remoteTimeout then .timedOut
  else if s.phase = .setup then .setupFailed
  else if s.phase = .resourceCheck then .resourceCheckFailed
  else .failed

/-- `except Failure`: the flag is read for the phase, and once more for a failed resource check. -/
def Attempt.handleFailure (a : Attempt) (s : Progress) (f : Failure) : Result :=
  if s.phase = .resourceCheck && f.code ≠ .remoteTimeout && !a.flag (s.reads + 1) then
    { a.initial s with
      phase := a.failedPhase s f
      timedOut := f.code = .remoteTimeout
      resourceCheck := ⟨a.gpuRequired, false, s.device⟩
      error := some ⟨⟨.resourceRequirementUnsatisfied, .validation,
        "Required environment or GPU check failed"⟩, some s.phase⟩ }
  else
    { a.initial s with
      phase := a.failedPhase s f
      timedOut := f.code = .remoteTimeout
      error := some ⟨f, some s.phase⟩ }

/-- `except (OSError, …)` -/
def Attempt.handleListed (a : Attempt) (s : Progress) : Result :=
  { a.initial s with
    phase := if s.phase = .setup then .setupFailed else .failed
    error := some ⟨⟨if s.phase = .setup then .dependencySetupFailed else .inputFetchFailed,
      if s.phase = .setup then .execution else .inputPreparation,
      "Runner preparation unavailable"⟩, some s.phase⟩ }

/-- The result after the `try` block, unless an error left it. -/
def Attempt.afterBody (a : Attempt) : Option Result :=
  match a.ended with
  | (s, none) => some { a.initial s with phase := .completed }
  | (s, some (.failure f)) => some (a.handleFailure s f)
  | (s, some .listed) => some (a.handleListed s)
  | (_, some .escaping) => none

/-- A change that does not replace an earlier failure. -/
def Result.unlessFailed (r : Result) (change : Result → Result) : Result :=
  if r.error = none then change r else r

/-- Remove the secret files. -/
def Attempt.removeSecrets (a : Attempt) (r : Result) : Option Result :=
  match a.removal with
  | .removed => some r
  | .osError => some (r.unlessFailed fun r =>
      { r with
        phase := .failed
        error := some ⟨⟨.commandFailed, .execution, "Workload secret cleanup unavailable"⟩, none⟩ })
  | .escaping => none

/-- The outputs could not be collected for a reason that is not kept. -/
def Result.collectionFailed (r : Result) : Result :=
  { r with
    phase := .failed
    error := some ⟨⟨.artifactCollectionFailed, .results,
      "Required outputs unsafe or over limits"⟩, none⟩ }

/-- Collect the outputs. -/
def Attempt.collect (a : Attempt) (r : Result) : Option Result :=
  match a.collection with
  | .collected artifacts => some { r with artifacts := artifacts }
  | .failure f => some (r.unlessFailed fun r =>
      if f.code = .artifactMissing ∨ f.code = .remoteTimeout then
        { r with
          phase := if f.code = .remoteTimeout then .timedOut else .failed
          timedOut := f.code = .remoteTimeout
          error := some ⟨f, none⟩ }
      else r.collectionFailed)
  | .listed => some (r.unlessFailed Result.collectionFailed)
  | .escaping => none

/-- The result that `execute` returns. -/
def Attempt.result (a : Attempt) : Option Result := do
  let r ← a.afterBody
  let r ← a.removeSecrets r
  let r ← a.collect r
  some { r with finishedAt := a.finishedAt }

/-- `execute`: the document in `execution-result.json`, if one is written. -/
def execute (a : Attempt) : Option Json :=
  if a.loaded && a.published then a.result.map fun r => r.toJson.mapText a.redact else none

end Runner
end ComputeRelay
