import Mathlib.Tactic
import ComputeRelay.Lib.Octets
import ComputeRelay.Lib.Rfc3339
import ComputeRelay.Domain.AttemptState
import ComputeRelay.Domain.Problem

/-!
# What providers are asked and what they answer

The frozen plan, the staging answer, the remote reference, the submission outcome and the
observation of `internal/provider/contract.go`, `preparation.go`, `start.go` and `absence.go`, with
the checks of `validate.go`.

`Codec` holds what the standard library computes on texts: JSON encodings and the SHA-256 digest.
Nothing is assumed of them, so every result holds for every encoder and every digest. Times are
nanoseconds since the Unix epoch in UTC, as every clock of the runtime hands them out. A nil and an
empty slice are one empty list, so the `Clone` methods, which only cut aliases, are identities.

The texts by which a provider names a resource and its version may be any bytes that `safeText`
takes. Where an answer is stored as JSON, `reread` is what is read back of it.
-/

namespace ComputeRelay
namespace Provider

open Domain Text

def maxRemoteWallSeconds : ℤ := 7 * 24 * 60 * 60

structure Identity where
  installationID : String
  workspaceID : String
  jobID : String
  attemptID : String
  instanceID : String
  intentID : String
  resourceKey : String
  nonce : String
  bundleSHA256 : String
  inputManifestSHA256 : String
  deriving DecidableEq

def Identity.validate (id : Identity) : Bool :=
  validOpaqueID id.installationID && validOpaqueID id.workspaceID && validOpaqueID id.jobID &&
  validOpaqueID id.attemptID && validOpaqueID id.instanceID && validOpaqueID id.intentID &&
  validOpaqueID id.resourceKey && validOpaqueID id.nonce && 16 ≤ id.nonce.utf8ByteSize &&
  validSHA256Digest id.bundleSHA256 && validSHA256Digest id.inputManifestSHA256

/-! ### Frozen inputs -/

structure ObjectMetadata where
  id : String
  workspaceID : String
  bytes : ℤ
  sha256 : String
  deriving DecidableEq

def ObjectMetadata.valid (m : ObjectMetadata) : Bool :=
  validOpaqueID m.id && validOpaqueID m.workspaceID && 0 ≤ m.bytes && validSHA256Digest m.sha256

structure FrozenInput where
  name : String
  target : String
  object : ObjectMetadata
  deriving DecidableEq

structure InputSnapshot where
  bundle : ObjectMetadata
  inputs : List FrozenInput
  applicationImage : Option ObjectMetadata := none
  deriving DecidableEq

/-- `SafeArtifactPath`: a relative path without dot segments, control characters, `\` or `:`. -/
def safeArtifactPath (path : String) : Bool :=
  path ≠ "" && path.utf8ByteSize ≤ 1024 && allBytes (fun c => c ≠ 92 && c ≠ 58) path &&
  (bytes path).head? ≠ some 47 && allBytes printable path &&
  ((bytes path).splitOn 47).all fun part => part ≠ [] && part ≠ [46] && part ≠ [46, 46]

/-- A letter or digit, then letters, digits and `._-`. -/
def inputName (name : String) : Bool :=
  match bytes name with
  | [] => true
  | b :: bs => (letter b || digit b) &&
      bs.all fun c => letter c || digit c || c = 46 || c = 95 || c = 45

/-- One lowercased target equals or contains the other. -/
def overlap (p q : String) : Bool :=
  q = p || (bytes p ++ [47]).isPrefixOf (bytes q) || (bytes q ++ [47]).isPrefixOf (bytes p)

/-- The checks on one input, given the names, targets and bytes of those before it. -/
def FrozenInput.accepts (w : String) (names paths : List String) (total : ℤ) (i : FrozenInput) :
    Bool :=
  i.object.valid && i.object.workspaceID = w && i.object.bytes ≤ 2 * 2 ^ 30 &&
  i.object.bytes ≤ 4 * 2 ^ 30 - total && safeArtifactPath i.target &&
  1 ≤ i.name.utf8ByteSize && i.name.utf8ByteSize ≤ 64 && i.name.toLower ∉ names &&
  inputName i.name && allBytes (fun c => 32 ≤ c && c < 127) i.target &&
  paths.all fun old => !overlap i.target.toLower old

/-- The loop over the inputs. -/
def inputsValid (w : String) : List String → List String → ℤ → List FrozenInput → Bool
  | _, _, _, [] => true
  | names, paths, total, i :: rest =>
    i.accepts w names paths total &&
      inputsValid w (i.name.toLower :: names) (paths ++ [i.target.toLower])
        (total + i.object.bytes) rest

def InputSnapshot.validate (s : InputSnapshot) (w : String) : Bool :=
  s.bundle.valid && s.bundle.workspaceID = w && s.bundle.bytes ≤ 100 * 2 ^ 20 &&
  s.inputs.length ≤ 256 &&
  (match s.applicationImage with
    | none => true
    | some image => image.valid && image.workspaceID = w && 1 ≤ image.bytes &&
        image.bytes ≤ 2 * 2 ^ 30) &&
  inputsValid w [] [] 0 s.inputs

/-! ### Plans and staging -/

structure ProviderBinding where
  profile : String
  providerInstanceID : String
  configurationRevision : String
  deriving DecidableEq

def ProviderBinding.validate (b : ProviderBinding) : Bool :=
  !blank b.profile && validOpaqueID b.providerInstanceID && !blank b.configurationRevision

structure ResolvedJob where
  identity : Identity
  binding : ProviderBinding
  specification : String
  specificationSHA256 : String
  required : List String
  wallSeconds : ℤ
  inputs : Option InputSnapshot
  deriving DecidableEq

structure Plan where
  job : ResolvedJob
  verifyAfterStart : List String
  deriving DecidableEq

structure Prepared where
  verificationSHA256 : String := ""
  manifestSHA256 : String := ""
  identity : Identity
  preparationID : String
  planSHA256 : String
  resource : Octets
  ready : Bool
  private_ : Bool
  deriving DecidableEq

def Prepared.reread (p : Prepared) : Prepared := { p with resource := p.resource.reread }

/-- One line of the input manifest. -/
structure InputEntry where
  bytes : ℤ
  name : String
  sha256 : String
  target : String

/-- The encoders of the standard library. `none` is an encoding error. -/
structure Codec where
  /-- `json.Valid` -/
  jsonValid : String → Bool
  /-- `provider.Digest`: the SHA-256 digest in hexadecimal. -/
  digest : String → String
  /-- `json.Marshal` of a plan. -/
  marshalPlan : Plan → Option String
  /-- The encoder of `InputDigest`, without HTML escaping and without the final newline. -/
  encodeEntries : List InputEntry → Option String
  /-- `json.Marshal` of the readiness record of a staging answer. -/
  marshalReadiness : Prepared → String

variable (c : Codec)

def InputSnapshot.inputDigest (s : InputSnapshot) : String :=
  let values := s.inputs.map fun i => InputEntry.mk i.object.bytes i.name i.object.sha256 i.target
  ((c.encodeEntries (values.mergeSort fun a b => a.target ≤ b.target)).map c.digest).getD ""

def Plan.digest (p : Plan) : String := ((c.marshalPlan p).map c.digest).getD ""

def capabilityBatchExecution : String := "batch_execution"

/-- A nonempty list of distinct, bounded names that contains the finite batch capability. -/
def capabilitiesValid (required : List String) : Bool :=
  1 ≤ required.length && required.length ≤ 64 &&
  required.all (fun name => !blank name && name.utf8ByteSize ≤ 128) && required.Nodup &&
  capabilityBatchExecution ∈ required

def ResolvedJob.validate (job : ResolvedJob) : Bool :=
  job.identity.validate && job.binding.validate &&
  job.binding.providerInstanceID = job.identity.instanceID &&
  0 < job.wallSeconds && job.wallSeconds ≤ maxRemoteWallSeconds &&
  1 ≤ job.specification.utf8ByteSize && job.specification.utf8ByteSize ≤ 2 ^ 20 &&
  c.jsonValid job.specification && (trimSpace job.specification).toList.head? = some '{' &&
  c.digest job.specification = job.specificationSHA256 &&
  (match job.inputs with
    | none => true
    | some s => s.validate job.identity.workspaceID &&
        s.bundle.sha256 = job.identity.bundleSHA256 &&
        s.inputDigest c = job.identity.inputManifestSHA256) &&
  capabilitiesValid job.required

/-- `safeText`: not blank, bounded, no control characters. -/
def safeText (s : Octets) (max : ℕ) : Bool :=
  !s.runes.all isSpace && s.length ≤ max && s.runes.all fun c => !(c.toNat < 32 || c.toNat = 127)

def Prepared.validate (p : Prepared) (plan : Plan) (id : String) : Bool :=
  plan.job.validate c && validOpaqueID id && p.identity = plan.job.identity &&
  p.preparationID = id && p.planSHA256 = plan.digest c && safeText p.resource 1024

/-- The digest of the whole staging answer, once it is ready, private and verified. -/
def Prepared.readinessRevision (p : Prepared) : String :=
  if p.ready && p.private_ && validSHA256Digest p.verificationSHA256 &&
      validSHA256Digest p.manifestSHA256 then
    c.digest (c.marshalReadiness p)
  else ""

/-! ### Remote answers -/

structure RemoteReference where
  identity : Identity
  resource : Octets
  version : Octets
  deriving DecidableEq

def RemoteReference.reread (r : RemoteReference) : RemoteReference :=
  { r with resource := r.resource.reread, version := r.version.reread }

def RemoteReference.utf8 (r : RemoteReference) : Bool := r.resource.utf8 && r.version.utf8

theorem RemoteReference.reread_eq_iff {r : RemoteReference} : r.reread = r ↔ r.utf8 = true := by
  cases r
  simp [RemoteReference.reread, RemoteReference.utf8, Octets.utf8_iff]

def RemoteReference.validate (r : RemoteReference) : Bool :=
  r.identity.validate && safeText r.resource 1024 && safeText r.version 256

inductive SubmissionStatus
  | accepted | rejected | unknown
  deriving DecidableEq

structure SubmissionOutcome where
  status : SubmissionStatus
  remote : Option RemoteReference := none
  problem : Option Problem := none

def SubmissionOutcome.validate (o : SubmissionOutcome) (expected : Identity) : Bool :=
  expected.validate &&
  (match o.remote with
    | none => true
    | some r => r.identity = expected && r.validate) &&
  (match o.problem with
    | none => true
    | some p => p.validate) &&
  match o.status with
  | .accepted => o.remote.isSome && o.problem.isNone
  | .rejected => o.remote.isNone &&
      match o.problem with
      | none => false
      | some p => !p.computeMayHaveStarted
  | .unknown =>
    match o.problem with
    | none => false
    | some p => p.computeMayHaveStarted && !p.safeOperationRetry &&
        p.recommendedAction = .reconcile

structure Observation where
  remote : RemoteReference
  execution : ExecutionState
  rawState : String
  remoteActivity : RemoteActivityState
  releaseEvidence : ReleaseEvidence
  observedAt : ℤ
  deriving DecidableEq

def Observation.reread (o : Observation) : Observation := { o with remote := o.remote.reread }

/-- Go's zero time, January 1 of year 1. -/
def zeroTime : ℤ := -62135596800 * Rfc3339.second

def Observation.validate (o : Observation) (expected : RemoteReference) : Bool :=
  expected.validate && o.remote = expected && o.observedAt ≠ zeroTime && safeText o.rawState 1024 &&
  !(o.execution.terminal && o.remoteActivity ≠ .inactive) &&
  o.remoteActivity ≠ .notStarted && o.execution ≠ .notSubmitted &&
  !(!o.execution.terminal && o.remoteActivity = .inactive) &&
  !(o.releaseEvidence = .notApplicable ||
    ((o.releaseEvidence = .confirmed || o.releaseEvidence = .providerReported) &&
      !o.execution.terminal))

/-- Proof that the exact accepted resource is absent. -/
structure RemoteAbsence where
  remote : RemoteReference
  observedAt : ℤ
  deriving DecidableEq

/-! ### Start authority -/

structure Slot where
  name : String
  exposure : String
  deriving DecidableEq

/-- `ValidName`: a lowercase letter, then lowercase letters, digits and `_`, at most 32 bytes. -/
def validSlotName (name : String) : Bool :=
  match bytes name with
  | [] => false
  | b :: bs => name.utf8ByteSize ≤ 32 && lower b && bs.all fun c => lower c || digit c || c = 95

def validSlots (slots : List Slot) : Bool :=
  slots.length ≤ 8 && (slots.map (·.name)).Nodup &&
  slots.all fun s => validSlotName s.name &&
    (s.exposure = "file" || s.exposure = "file_and_local_process_arguments")

/-- `CanonicalTime`: a whole second in UTC, written the one canonical way. -/
def canonicalTime (raw : String) : Option ℤ :=
  match Rfc3339.parse raw with
  | none => none
  | some at_ => if 2 ≤ Rfc3339.year at_ ∧ Rfc3339.format at_ = raw then some at_ else none

structure SecretAuthorization where
  authorizationID : String
  expiresAt : String
  slots : List Slot
  deriving DecidableEq

structure StartAuthorization where
  secrets : Option SecretAuthorization := none
  authorizationID : String
  readinessRevision : String
  maxRemoteWallSeconds : ℤ
  executionDeadline : String
  startBefore : String
  deriving DecidableEq

def StartAuthorization.validate (s : StartAuthorization) (p : Prepared) : Bool :=
  match canonicalTime s.executionDeadline, canonicalTime s.startBefore with
  | some deadline, some before =>
    validOpaqueID s.authorizationID && validSHA256Digest s.readinessRevision &&
    s.readinessRevision = p.readinessRevision c && 1 ≤ s.maxRemoteWallSeconds &&
    s.maxRemoteWallSeconds ≤ Provider.maxRemoteWallSeconds && before ≤ deadline &&
    (match s.secrets with
      | none => true
      | some secrets =>
        match canonicalTime secrets.expiresAt with
        | none => false
        | some expires => validOpaqueID secrets.authorizationID && before ≤ expires &&
            secrets.slots ≠ [] && validSlots secrets.slots)
  | _, _ => false

/-- `provider.Problem`, which panics on a definition that does not validate; each caller passes a
code with its own stage and a fixed message. -/
def problem (code : ErrorCode) (stage : FailureStage) (message : String) : Problem :=
  draft code message stage

end Provider
end ComputeRelay
