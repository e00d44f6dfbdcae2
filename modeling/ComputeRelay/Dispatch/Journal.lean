import Mathlib.Tactic
import ComputeRelay.Scheduler.Capacity

/-!
# The dispatch journal

The recovery evidence of one attempt (`internal/dispatch/model.go`): its phase, the frozen plan, the
staging answer, the submission intent, the accepted remote reference, the last observation and the
last problem.

* `Journal.valid` is the check every stored journal passes; `Journal.valid_planned` and
  `Journal.valid_unplanned` read it for a journal with and without a plan.
* `Journal.remoteAbsence` binds the time of an absence report to the accepted reference.

A phase is one of ten values; the check that a stored text is one of them is the type itself.
-/

namespace ComputeRelay
namespace Dispatch

open Domain Provider Scheduler

def maxJournalBytes : ℕ := 2 * 2 ^ 20
def maxFailures : ℤ := 5
def maxInt64 : ℤ := 2 ^ 63 - 1

inductive Phase
  | local_ | staging | ready | submitting | submitted | rejected | collectible | attention | failed
  | prevented
  deriving DecidableEq

structure Journal where
  version : ℤ := 0
  phase : Phase
  plan : Option Plan := none
  preparationID : String := ""
  preparationObservationStarted : Option ℤ := none
  prepared : Option Prepared := none
  submitStarted : Bool := false
  submissionProblem : Option Problem := none
  submissionAbsenceObservedAt : Option ℤ := none
  submissionResourceName : String := ""
  ownerSubmissionPresent : Bool := false
  startAuthorization : Option StartAuthorization := none
  remote : Option RemoteReference := none
  observation : Option Observation := none
  problem : Option Problem := none
  failures : ℤ := 0
  deriving DecidableEq

/-- The encoders of the provider contract and the size of an encoded journal. -/
structure Codec extends Provider.Codec where
  journalBytes : Journal → Option ℕ

def localFailureDetail : String := "local_failure_started"
def remoteAbsenceDetail : String := "remote_absence_observed_at"

/-- `journalTime`: a text that names a valid time. -/
def journalTime (raw : String) : Option ℤ := (Rfc3339.parse raw).filter validTime

namespace Journal

/-- What is read back of a journal that is stored as JSON. -/
def reread (j : Journal) : Journal :=
  { j with
    prepared := j.prepared.map Prepared.reread
    remote := j.remote.map RemoteReference.reread
    observation := j.observation.map Observation.reread }

def recoverable (j : Journal) : Bool :=
  j.phase = .staging || j.phase = .ready || j.phase = .submitting || j.phase = .submitted

/-- `journalDetail`: a private detail of the last problem. -/
def detail (j : Journal) (key : String) : String :=
  match j.problem with
  | none => ""
  | some p => p.detail key

/-- The absence report, for the accepted reference of the journal. -/
def remoteAbsence (j : Journal) : Option RemoteAbsence :=
  match j.remote, j.problem with
  | some r, some p =>
    if j.phase = .attention ∧ p.code = .remoteExecutionUnresolved ∧
        p.publicDetails.get reasonDetail = "remote_not_found" then
      (journalTime (j.detail remoteAbsenceDetail)).map fun observedAt => ⟨r, observedAt⟩
    else none
  | _, _ => none

variable (c : Provider.Codec) (j : Journal)

/-- The submission fields exist only behind a submission intent. -/
def submissionRule : Bool :=
  j.submissionProblem.all (fun p => j.submitStarted && p.validate) &&
  (j.submissionResourceName = "" ||
    (j.submitStarted && validResourceName j.submissionResourceName)) &&
  j.submissionAbsenceObservedAt.all
    (fun t => j.submitStarted && validTime t && j.submissionResourceName ≠ "")

/-- Private timestamps of the last problem are readable. -/
def detailRule : Bool :=
  (j.detail localFailureDetail = "" || (journalTime (j.detail localFailureDetail)).isSome) &&
  (j.detail remoteAbsenceDetail = "" || j.remoteAbsence.isSome)

def preparationRule : Bool :=
  j.preparationObservationStarted.all (fun t => validTime t && j.plan.isSome)

def startRule : Bool :=
  j.startAuthorization.all fun s => j.submitStarted && j.prepared.any (s.validate c ·)

def countRule : Bool :=
  0 ≤ j.version && 0 ≤ j.failures && j.failures ≤ maxFailures &&
  !(j.phase = .prevented && j.submitStarted)

/-- The rules of a journal without a plan. -/
def unplannedRule : Bool :=
  (j.phase = .local_ || j.phase = .failed || j.phase = .prevented) && j.preparationID = "" &&
  !j.submitStarted && j.prepared.isNone && j.remote.isNone && j.observation.isNone

/-- The rules of a journal with a plan, in the order of the source. -/
def plannedRule (plan : Plan) : Bool :=
  plan.job.validate c && plan.job.inputs.any (·.validate plan.job.identity.workspaceID) &&
  validOpaqueID j.preparationID &&
  j.prepared.all (·.validate c plan j.preparationID) &&
  (!(j.phase = .ready || j.submitStarted) || j.prepared.any fun p => p.ready && p.private_) &&
  !(j.phase = .local_ || j.phase = .failed || j.version = 0) &&
  !((j.phase = .staging || j.phase = .ready) && j.submitStarted) &&
  !((j.phase = .submitting || j.phase = .rejected) && (j.remote.isSome || j.observation.isSome)) &&
  j.prepared.all (fun p => p.private_ || j.phase = .attention || j.phase = .prevented) &&
  (j.phase ≠ .collectible || j.observation.any (·.execution.terminal)) &&
  (j.phase ≠ .submitted || j.observation.all (!·.execution.terminal)) &&
  (!(j.phase = .submitting || j.phase = .submitted || j.phase = .rejected ||
    j.phase = .collectible) || j.submitStarted) &&
  j.remote.all (fun r => j.submitStarted && r.validate && r.identity = plan.job.identity) &&
  (!(j.phase = .submitted || j.phase = .collectible) || j.remote.isSome) &&
  j.observation.all (fun o => j.remote.any (o.validate ·))

/-- `Journal.Valid`. -/
def valid : Bool :=
  j.submissionRule && j.detailRule && j.preparationRule && j.startRule c && j.countRule &&
  (match j.plan with
    | none => j.unplannedRule
    | some plan => j.plannedRule c plan) &&
  j.problem.all (·.validate)

variable {c j}

theorem valid_planned (hv : j.valid c = true) {plan : Plan} (hp : j.plan = some plan) :
    j.plannedRule c plan = true := by
  simp only [valid, hp, Bool.and_eq_true] at hv
  exact hv.1.2

theorem valid_unplanned (hv : j.valid c = true) (hp : j.plan = none) : j.unplannedRule = true := by
  simp only [valid, hp, Bool.and_eq_true] at hv
  exact hv.1.2

end Journal

/-! ### Actions -/

inductive Kind
  | beginPreparation | preparationSeen | endUnconfirmedPreparation | beginSubmission
  | submissionSeen | observationSeen | remoteAbsenceSeen | fault | preventDispatch | expireDispatch
  | refuseNewWork | requestReconciliation | submissionAbsenceSeen | ownerSubmissionAbsent
  deriving DecidableEq

/-- The kinds that go through an operation of a client, never through `CommitDispatch`. -/
def controlOnly (k : Kind) : Bool :=
  k = .preventDispatch || k = .requestReconciliation || k = .ownerSubmissionAbsent

/-- One step offered to the journal; `code` is `none` for a text outside the taxonomy. -/
structure Action where
  kind : Kind
  refusalReason : String := ""
  secretsAvailable : Bool := false
  plan : Option Plan := none
  preparationID : String := ""
  prepared : Option Prepared := none
  submission : Option SubmissionOutcome := none
  absence : Option RemoteAbsence := none
  observation : Option Observation := none
  code : Option ErrorCode := none
  reason : String := ""
  cause : String := ""
  details : Option Details := none
  resourceName : String := ""
  ownerPresent : Bool := false
  startAuthorization : Option StartAuthorization := none
  preparationExpired : Bool := false

/-- The facts a step appends to the event log. -/
inductive EventType
  | reconciliationDeferred | cancellationRequested | reconciliationRequested | preparationIntended
  | providerStagingReady | preparationObserved | submissionIntentRecorded | submissionAccepted
  | submissionRejected | submissionUnknown | executionObserved
  deriving DecidableEq

/-- `ErrInvalid`, `ErrConflict` and `ErrStaleObservation`. -/
inductive Err
  | invalid | conflict | staleObservation
  deriving DecidableEq

end Dispatch
end ComputeRelay
