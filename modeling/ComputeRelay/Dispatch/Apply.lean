import Mathlib.Tactic
import ComputeRelay.Dispatch.Journal

/-!
# The journal state machine

`apply` is `dispatch.Apply` (`internal/dispatch/transition.go`): from a journal, an attempt state,
an action and a time it computes the next journal, the next state and an event, or refuses.

* `step` is the switch over the kinds of action; each branch is a function of its own under the
  name of its kind.
* `finish` is what every branch ends with: details of the first submission problem are kept, the
  version goes up by one, and the result must be a valid journal and a permitted move.

The working copy the source decodes from JSON is the old journal itself. A refused step returns an
error and nothing else.
-/

namespace ComputeRelay
namespace Dispatch

open Domain Provider Scheduler

/-- Two complete inventories separated by this grace resolve a lost submission reply. -/
def submissionAbsenceGrace : ℤ := 2 * Rfc3339.minute
/-- Local failures have no provider mutation to reconcile and may wait. -/
def localFailureBudget : ℤ := 10 * Rfc3339.minute

/-- What one branch of the switch hands to `finish`. -/
structure Draft where
  journal : Journal
  next : AttemptState
  event : EventType

/-- A cancellation that is neither settled nor handed to the operator. -/
def cancellationPending (s : AttemptState) : Bool :=
  s.cancellation = .requested || s.cancellation = .requesting || s.cancellation = .accepted

/-- Staging was intended and never confirmed. -/
def unconfirmedPreparation (j : Journal) : Bool :=
  j.phase = .staging && j.plan.isSome && j.prepared.isNone && !j.submitStarted

/-! ### Problem texts -/

/-- Stage, message and recommended action of the codes the journal records. -/
def problemText : ErrorCode → Option (FailureStage × String × RecommendedAction)
  | .inputFetchFailed | .inputNotFound | .inputDigestMismatch | .inputTooLarge =>
    some (.inputPreparation, "Input snapshot could not be prepared or verified.", .fixRequest)
  | .unsupportedCapability | .resourceRequirementUnsatisfied | .invalidInputPath =>
    some (.validation,
      "The frozen job cannot satisfy required capabilities or runner constraints.", .fixRequest)
  | .configurationInvalid | .stateStoreUnavailable =>
    some (.localRuntime,
      "The frozen configuration or local store is unavailable; no fallback was selected.",
      .configure)
  | .providerAuthFailed | .providerAccessDenied =>
    some (.authentication, "The frozen provider account binding could not be verified.",
      .configure)
  | .privateStagingUnavailable | .stagingFailed | .stagingNotReady =>
    some (.providerPreparation,
      "Private staging identity or readiness is unresolved; creation was not repeated.",
      .reconcile)
  | .providerRejected | .providerRateLimited | .quotaExhausted =>
    some (.submission,
      "Provider proved non-acceptance; another compute request requires explicit operator action.",
      .inspectProvider)
  | .providerSubmissionUnknown =>
    some (.submission,
      "Submission may have been accepted; reconcile the recorded identity without resubmitting.",
      .reconcile)
  | .remoteExecutionUnresolved =>
    some (.operation, "Provider observation is unresolved; no new execution was requested.",
      .reconcile)
  | .providerStateUnknown | .providerUnreachable | .remoteIdentityMismatch =>
    some (.observation, "Provider observation is unresolved; no new execution was requested.",
      .reconcile)
  | _ => none

/-- `problem`: controlled text for a code, or nothing for a code the journal does not record. -/
def problem (code : ErrorCode) (may : Bool) : Option Problem :=
  if code = .remoteTimeout then
    some ((Provider.problem code .execution
      "Execution authorization deadline has expired; no new execution was requested.").withDetail
        reasonDetail "absolute_deadline_expired")
  else
    (problemText code).bind fun (stage, message, action) =>
      (newProblem code message stage).bind fun p =>
        let p := (p.withRetrySemantics false may).withRecommendedAction action
        if p.validate then some p else none

/-! ### The branches -/

/-- The message for a refusal reason, with the reason it is recorded under. -/
def refusalText (reason : String) : Option (String × String) :=
  if reason = "" ∨ reason = "host_unhealthy" then
    some ("host_unhealthy", "Host health refuses new preparation or execution.")
  else if reason ∈ ["remote_staging_dataset_limit", "remote_kernel_limit",
      "remote_attempt_container_limit", "remote_resource_scope_unknown",
      "remote_shared_dataset_limit"] then
    some (reason, "Retained or unconfirmed remote resources fill the operator count budget.")
  else if reason = "host_image_count_limit" then
    some (reason, "Retained application images fill the operator count budget.")
  else if reason = "host_storage_limit" then
    some (reason, "Host storage budget refuses new preparation or execution.")
  else if reason = "host_storage_unknown" then
    some (reason, "Host storage observation is incomplete or stale.")
  else none

def refuseNewWork (old : Journal) (state : AttemptState) (a : Action) : Except Err Draft :=
  if old.submitStarted ∨ (old.phase ≠ .local_ ∧ old.phase ≠ .ready) ∨
      state.cancellation ≠ .notRequested ∨ state.execution ≠ .notSubmitted ∨
      state.remoteActivity ≠ .notStarted then .error .conflict
  else match refusalText a.refusalReason with
    | none => .error .invalid
    | some (reason, message) =>
      if a.cause ≠ "" ∧ !validReason a.cause then .error .invalid
      else
        let p := ((Provider.problem .resourceRequirementUnsatisfied .validation message).withDetail
          reasonDetail reason).withRecommendedAction .wait
        let p := if a.cause = "" then p else p.withDetail causeDetail a.cause
        .ok {
          journal := { old with problem := some p }
          -- a prepared hold keeps its state: its unused start grant is not consumed
          next := if old.plan.isNone then { state with orchestration := .queued } else state
          event := .reconciliationDeferred }

/-- `PreventDispatch` and `ExpireDispatch`. -/
def preventDispatch (old : Journal) (state : AttemptState) (a : Action) : Except Err Draft :=
  if old.submitStarted ∨ state.orchestration.terminal ∨ state.execution ≠ .notSubmitted ∨
      (state.remoteActivity ≠ .notStarted ∧ state.remoteActivity ≠ .inactive) then .error .conflict
  else if a.kind = .expireDispatch then
    if state.cancellation ≠ .notRequested then .error .conflict
    else .ok {
      journal := { old with
        phase := .prevented
        problem :=
          if a.preparationExpired then
            some ((Provider.problem .remoteTimeout .execution
              "Preparation hold has expired; no new execution was requested.").withDetail
                reasonDetail "preparation_expired")
          else problem .remoteTimeout false }
      next := { state with
        orchestration := .timedOut, cancellation := .notRequested
        releaseEvidence := .notApplicable, deadlineExceeded := true }
      event := .reconciliationDeferred }
  else .ok {
    journal := { old with phase := .prevented }
    next := { state with
      orchestration := .cancelled, cancellation := .prevented, releaseEvidence := .notApplicable }
    event := .cancellationRequested }

/-- Reconciliation stays closed once the remote is gone, the attempt is over or the recorded
problem is permanent. -/
def reconciliationClosed (old : Journal) (state : AttemptState) : Bool :=
  old.remoteAbsence.isSome || state.execution.terminal || state.orchestration.terminal ||
  old.problem.any (fun p => p.code = .remoteIdentityMismatch || p.code = .privateStagingUnavailable)

def requestReconciliation (old : Journal) (state : AttemptState) (a : Action) : Except Err Draft :=
  if a.ownerPresent ∧ (old.phase ≠ .attention ∨ !old.submitStarted ∨ old.remote.isSome ∨
      state.execution ≠ .unknown ∨ a.resourceName = "" ∨
      a.resourceName ≠ old.submissionResourceName) then .error .conflict
  else if reconciliationClosed old state then .error .conflict
  else
    let j := if a.ownerPresent then
        { old with ownerSubmissionPresent := true, submissionAbsenceObservedAt := none }
      else old
    let next := { state with
      orchestration := if cancellationPending state then .cancelling else .reconciling }
    if !old.submitStarted then
      if (old.phase ≠ .attention ∧ old.phase ≠ .staging ∧ old.phase ≠ .ready) ∨
          state.execution ≠ .notSubmitted ∨ state.remoteActivity ≠ .notStarted ∨
          state.cancellation ≠ .notRequested ∨ state.deadlineExceeded ∨
          (state.orchestration ≠ .needsAttention ∧ state.orchestration ≠ .preparing ∧
            state.orchestration ≠ .reconciling) then .error .conflict
      else
        -- the observer path with the original preparation intent; no mutation is rearmed
        .ok ⟨{ j with phase := .staging, failures := 0, problem := none }, next,
          .reconciliationRequested⟩
    else if old.phase ≠ .attention ∧ old.phase ≠ .submitting ∧ old.phase ≠ .submitted then
      .error .conflict
    else
      .ok ⟨{ j with
        phase := if old.remote.isSome then .submitted else .submitting
        failures := 0, problem := none }, next, .reconciliationRequested⟩

def beginPreparation (c : Codec) (old : Journal) (state : AttemptState) (a : Action) :
    Except Err Draft :=
  match a.plan with
  | none => .error .conflict
  | some plan =>
    if old.phase ≠ .local_ ∨ old.plan.isSome ∨ !localOnly state ∨ plan.job.inputs.isNone ∨
        !plan.job.validate c.toCodec ∨ !validOpaqueID a.preparationID then .error .conflict
    else .ok {
      journal := { old with
        plan := some plan, preparationID := a.preparationID, phase := .staging
        problem := none, failures := 0 }
      next := { state with orchestration := .preparing }
      event := .preparationIntended }

def preparationSeen (c : Codec) (old : Journal) (state : AttemptState) (a : Action) :
    Except Err Draft :=
  match a.prepared, old.plan with
  | some p, some plan =>
    if old.phase ≠ .staging ∨ old.submitStarted ∨
        !p.validate c.toCodec plan old.preparationID ∨
        old.prepared.any (·.resource ≠ p.resource) then .error .conflict
    else if !p.private_ then
      -- the discovered resource is kept for inspection, never submitted
      .ok {
        journal := { old with
          prepared := some p, failures := 0, phase := .attention
          problem := problem .privateStagingUnavailable false }
        next := { state with orchestration := .needsAttention }
        event := .preparationObserved }
    else .ok {
      journal := { old with
        prepared := some p, problem := none, failures := 0
        phase := if p.ready then .ready else old.phase }
      next := { state with orchestration := .preparing }
      event := if p.ready then .providerStagingReady else .preparationObserved }
  | _, _ => .error .conflict

/-- The cause recorded when unconfirmed staging ends: the latest one, or the one already known. -/
def endCause (old : Journal) (a : Action) : String :=
  if a.cause = "" then (old.problem.map (·.publicDetails.get causeDetail)).getD "" else a.cause

/-- The step that failed first, when the last problem names one. -/
def firstCause (old : Journal) : String :=
  (old.problem.map (·.publicDetails.get reasonDetail)).getD ""

def endUnconfirmedPreparation (old : Journal) (state : AttemptState) (a : Action) :
    Except Err Draft :=
  if old.phase ≠ .staging ∨ old.plan.isNone ∨ old.prepared.isSome ∨ old.submitStarted ∨
      state.orchestration.terminal ∨ state.execution ≠ .notSubmitted ∨
      state.remoteActivity ≠ .notStarted ∨ state.cancellation ≠ .notRequested then .error .conflict
  else
    let p := ((Provider.problem .stagingNotReady .providerPreparation
      ("Private staging could not be confirmed within the observation budget; " ++
        "no execution was submitted.")).withDetail reasonDetail
          "staging_unconfirmed").withRecommendedAction .fixRequest
    let p := if firstCause old = "" then p else p.withDetail firstCauseDetail (firstCause old)
    let cause := endCause old a
    if cause ≠ "" ∧ (p.withDetail causeDetail cause).publicDetails.get causeDetail ≠ cause then
      .error .invalid
    else .ok {
      journal := { old with
        phase := .prevented
        problem := some (if cause = "" then p else p.withDetail causeDetail cause) }
      next := { state with orchestration := .failed, releaseEvidence := .notApplicable }
      event := .reconciliationDeferred }

def beginSubmission (old : Journal) (state : AttemptState) (a : Action) : Except Err Draft :=
  if old.phase ≠ .ready ∨ old.submitStarted ∨
      !old.prepared.any (fun p => p.ready && p.private_) ∨ !localOnly state ∨
      state.cancellation ≠ .notRequested then .error .conflict
  else .ok {
    journal := { old with
      submitStarted := true
      startAuthorization :=
        if a.startAuthorization.isSome then a.startAuthorization else old.startAuthorization
      phase := .submitting, problem := none, failures := 0 }
    next := { state with
      orchestration := .dispatching, execution := .unknown, remoteActivity := .possible }
    event := .submissionIntentRecorded }

/-- The code a rejection is recorded under. -/
def rejectionCode (p : Problem) : ErrorCode :=
  match p.code with
  | .providerRateLimited | .quotaExhausted | .providerAuthFailed | .providerAccessDenied
  | .remoteTimeout => p.code
  | _ => .providerRejected

/-- Replace the details of a recorded problem. -/
def withDetails (p : Option Problem) (d : Details) : Option Problem :=
  p.map fun p => { p with details := d }

/-- A proven non-acceptance: the attempt ends without remote activity. -/
def rejected (j : Journal) (state : AttemptState) (problem? : Option Problem) : Draft :=
  let code := (problem?.map rejectionCode).getD .providerRejected
  let next := { state with
    orchestration := if code = .remoteTimeout then .timedOut else .failed
    execution := .notSubmitted, remoteActivity := .inactive, releaseEvidence := .notApplicable
    deadlineExceeded := if code = .remoteTimeout then true else state.deadlineExceeded }
  { journal := { j with
      phase := .rejected
      problem := match problem? with
        | none => problem code false
        -- only the adapter's closed reason survives
        | some p => withDetails (problem code false) p.publicDetails }
    next := if state.cancellation ≠ .notRequested then
        -- explicit non-acceptance, not a not-found lookup, proves prevention
        { next with orchestration := .cancelled, cancellation := .prevented }
      else next
    event := .submissionRejected }

/-- An accepted submission pins its reference; it does not imply that the provider started. -/
def accepted (j : Journal) (state : AttemptState) (remote : Option RemoteReference) : Draft :=
  { journal := { j with remote := remote, phase := .submitted, problem := none, failures := 0 }
    next := { state with
      orchestration := if cancellationPending state then .cancelling else .submitted }
    event := .submissionAccepted }

/-- An ambiguous reply is recorded with its first problem and the name it carries. -/
def ambiguous (j : Journal) (state : AttemptState) (problem? : Option Problem) : Draft :=
  let unknown := problem .providerSubmissionUnknown true
  { journal := match problem? with
      | none => { j with problem := unknown }
      | some p =>
        let recorded := withDetails unknown p.publicDetails
        { j with
          problem := recorded
          submissionProblem := if j.submissionProblem.isNone then recorded
            else j.submissionProblem
          submissionResourceName := p.publicDetails.get resourceNameDetail }
    next := { state with orchestration := .reconciling }
    event := .submissionUnknown }

/-- Apply a submission outcome to the working copy `j` of `old`. -/
def settle (old j : Journal) (state : AttemptState) (kind : Kind)
    (submission : Option SubmissionOutcome) : Except Err Draft :=
  match submission, old.plan with
  | some o, some plan =>
    if (old.phase ≠ .submitting ∧ kind ≠ .ownerSubmissionAbsent) ∨ !old.submitStarted ∨
        old.remote.isSome ∨ !o.validate plan.job.identity then .error .conflict
    else match o.status with
      | .accepted => .ok (accepted j state o.remote)
      | .rejected => .ok (rejected j state o.problem)
      | .unknown => .ok (ambiguous j state o.problem)
  | _, _ => .error .conflict

/-- The outcome an absence report stands for. -/
def absentOutcome (kind : Kind) (name : String) : SubmissionOutcome where
  status := .rejected
  problem := some (((Provider.problem .providerRejected .submission
    "Submission resolved absent; a replacement requires a new attempt").withDetail reasonDetail
      (if kind = .ownerSubmissionAbsent then "submission_absent_owner_confirmed"
        else "submission_absent_owned_list")).withDetail resourceNameDetail name)

/-- The first inventory without the name, or one within the grace, only defers. -/
def absenceDeferred (old : Journal) (state : AttemptState) (name : String) (now : ℤ) : Draft where
  journal := { old with
    submissionResourceName := name
    submissionAbsenceObservedAt := if old.submissionAbsenceObservedAt.isNone then some now
      else old.submissionAbsenceObservedAt
    phase := .submitting
    failures := max 1 old.failures
    problem := (problem .providerSubmissionUnknown true).map fun p =>
      (p.withDetail reasonDetail "submission_absence_confirming").withDetail resourceNameDetail
        name }
  next := { state with orchestration := .reconciling }
  event := .reconciliationDeferred

/-- The grace since the first inventory is over. -/
def graceOver (old : Journal) (now : ℤ) : Bool :=
  old.submissionAbsenceObservedAt.any fun t => t + submissionAbsenceGrace ≤ now

/-- `SubmissionSeen`, `SubmissionAbsenceSeen` and `OwnerSubmissionAbsent`. -/
def submissionReported (old : Journal) (state : AttemptState) (a : Action) (now : ℤ) :
    Except Err Draft :=
  if a.kind = .submissionSeen then settle old old state a.kind a.submission
  else if (old.phase ≠ .submitting ∧ old.phase ≠ .attention) ∨ !old.submitStarted ∨
      old.remote.isSome ∨ (a.kind = .submissionAbsenceSeen ∧ old.ownerSubmissionPresent) ∨
      state.execution ≠ .unknown ∨ state.orchestration.terminal ∨
      !validResourceName a.resourceName ∨
      (old.submissionResourceName ≠ "" ∧ old.submissionResourceName ≠ a.resourceName) then
    .error .conflict
  else if a.kind ≠ .ownerSubmissionAbsent ∧ !graceOver old now then
    .ok (absenceDeferred old state a.resourceName now)
  else
    settle old { old with submissionResourceName := a.resourceName } state a.kind
      (some (absentOutcome a.kind a.resourceName))

/-- The problem an absence report records. -/
def absenceProblem (t : ℤ) : Problem :=
  ((((Provider.problem .remoteExecutionUnresolved .operation
    "The exact remote resource is absent; final execution outcome and results remain unknown"
      ).withDetail reasonDetail "remote_not_found").withDetail remoteAbsenceDetail
        (Rfc3339.formatNano t)).withRetrySemantics false true).withRecommendedAction
          .inspectProvider

def remoteAbsenceSeen (old : Journal) (state : AttemptState) (a : Action) (now : ℤ) :
    Except Err Draft :=
  match old.remote, a.absence with
  | some remote, some absence =>
    if old.phase ≠ .submitted ∨ absence.remote ≠ remote ∨ !validTime absence.observedAt ∨
        now < absence.observedAt ∨
        old.observation.any (fun o => absence.observedAt ≤ o.observedAt) then .error .conflict
    else .ok {
      journal := { old with
        phase := .attention
        problem := some (absenceProblem absence.observedAt) }
      next := { state with
        orchestration := .needsAttention, execution := .unknown, remoteActivity := .inactive
        releaseEvidence := .providerReported
        cancellation := if cancellationPending state then .manual else state.cancellation }
      event := .reconciliationDeferred }
  | _, _ => .error .conflict

/-- The state an observation asks for. -/
def observedState (state : AttemptState) (obs : Observation) : AttemptState :=
  let next : AttemptState :=
    if obs.execution = .unknown then
      -- an uncertain poll does not erase earlier evidence
      { state with orchestration := .reconciling }
    else if obs.execution.terminal then
      { state with
        execution := obs.execution, remoteActivity := obs.remoteActivity
        releaseEvidence := obs.releaseEvidence, orchestration := .collecting
        deadlineExceeded := if obs.execution = .timedOut then true else state.deadlineExceeded
        cancellation :=
          if state.cancellation = .notRequested then .notRequested
          else if obs.execution = .cancelled then .confirmed
          else .tooLate }
    else
      { state with
        execution := obs.execution, remoteActivity := obs.remoteActivity
        releaseEvidence := obs.releaseEvidence
        orchestration := if obs.execution = .running ∨ obs.execution = .starting then .running
          else .submitted }
  if obs.execution.terminal then next
  else if state.cancellation = .manual then { next with orchestration := .needsAttention }
  else if cancellationPending state then { next with orchestration := .cancelling }
  else next

/-- The bounded summary kept in place of a provider's own state text. -/
def executionText : ExecutionState → String
  | .notSubmitted => "not_submitted"
  | .unknown => "unknown"
  | .queued => "queued"
  | .starting => "starting"
  | .running => "running"
  | .succeeded => "succeeded"
  | .failed => "failed"
  | .cancelled => "cancelled"
  | .timedOut => "timed_out"

def observationSeen (old : Journal) (state : AttemptState) (a : Action) (now : ℤ) :
    Except Err Draft :=
  match old.remote, a.observation with
  | some remote, some obs =>
    if old.phase ≠ .submitted ∨ !obs.validate remote then .error .conflict
    else if now < obs.observedAt ∨ old.observation.any (fun o => obs.observedAt ≤ o.observedAt) then
      .error .staleObservation
    else
      let next := observedState state obs
      if !validateAttemptStateTransition state next then .error .staleObservation
      else
        let j := { old with
          phase := if obs.execution.terminal then .collectible else old.phase
          observation := some { obs with rawState := executionText obs.execution } }
        if obs.execution = .unknown then
          let failures := min (old.failures + 1) maxFailures
          let j := { j with failures := failures, problem := problem .providerStateUnknown true }
          if failures = maxFailures then
            .ok {
              journal := { j with phase := .attention }
              next := { next with
                orchestration := .needsAttention
                cancellation := if cancellationPending state then .manual else next.cancellation }
              event := .executionObserved }
          else .ok ⟨j, next, .executionObserved⟩
        else .ok ⟨{ j with problem := none, failures := 0 }, next, .executionObserved⟩
  | _, _ => .error .conflict

/-- The details of a fault replace the problem's own, cut down to what may be published. -/
def faultDetails (p : Problem) (a : Action) : Problem :=
  match a.details with
  | none => p
  | some d => { p with details := ({ p with details := d } : Problem).publicDetails }

/-- The reason of a fault: its own, or the one of the step that failed first at this stage. -/
def faultReason (old : Journal) (p : Problem) (a : Action) : String :=
  if a.reason ≠ "" then a.reason
  else match old.problem with
    | none => ""
    | some q => if q.stage = p.stage then q.publicDetails.get reasonDetail else ""

/-- Record a value under a key, or refuse it when it may not be published there. -/
def publish (p : Problem) (key value : String) : Except Err Problem :=
  if value = "" then .ok p
  else if (p.withDetail key value).publicDetails.get key ≠ value then .error .invalid
  else .ok (p.withDetail key value)

/-- The recorded name of a lost submission, as far as a fault reports one. -/
def faultName (old : Journal) (p : Problem) (a : Action) : String :=
  if a.details.isSome ∧ old.submitStarted ∧ old.remote.isNone ∧
    p.detail resourceNameDetail ≠ "" then
    p.detail resourceNameDetail
  else old.submissionResourceName

def permanentFault (code : ErrorCode) : Bool :=
  code = .remoteIdentityMismatch || code = .privateStagingUnavailable

/-- Before a plan exists these codes cannot be cured by waiting. -/
def permanentLocalFault (code : ErrorCode) : Bool :=
  permanentFault code || code = .inputNotFound || code = .inputDigestMismatch ||
  code = .inputTooLarge || code = .invalidInputPath || code = .unsupportedCapability ||
  code = .resourceRequirementUnsatisfied

/-- A fault before any plan: wait within the budget, then fail. -/
def localFault (j old : Journal) (state : AttemptState) (code : ErrorCode) (p : Problem)
    (now : ℤ) : Draft :=
  let started := (journalTime (old.detail localFailureDetail)).getD now
  let p := p.withDetail localFailureDetail (Rfc3339.formatNano started)
  if permanentLocalFault code ∨ started + localFailureBudget ≤ now then
    { journal := { j with
        phase := .failed
        problem := some (if p.recommendedAction = .reconcile then
          p.withRecommendedAction .fixRequest else p) }
      next := { state with orchestration := .failed, releaseEvidence := .notApplicable }
      event := .reconciliationDeferred }
  else
    { journal := { j with
        problem := some ((p.withRecommendedAction .wait).withRetrySemantics true false) }
      next := { state with orchestration := .queued }
      event := .reconciliationDeferred }

/-- A fault behind a plan: observe again, or ask for attention once failures are exhausted. -/
def remoteFault (j old : Journal) (state : AttemptState) (code : ErrorCode) (p : Problem) : Draft :=
  if permanentFault code ∨ (j.failures = maxFailures ∧ !unconfirmedPreparation old) then
    { journal := { j with phase := .attention, problem := some p }
      next := { state with
        orchestration := .needsAttention
        cancellation := if cancellationPending state then .manual else state.cancellation }
      event := .reconciliationDeferred }
  else
    { journal := { j with problem := some p }
      next := { state with
        orchestration := if old.submitStarted then .reconciling else .preparing }
      event := .reconciliationDeferred }

def fault (old : Journal) (state : AttemptState) (a : Action) (now : ℤ) : Except Err Draft :=
  if old.phase = .rejected ∨ old.phase = .failed ∨ old.phase = .collectible ∨
      old.phase = .attention ∨ old.phase = .prevented then .error .conflict
  else match a.code with
    | none => .error .invalid
    | some code =>
      match problem code old.submitStarted with
      | none => .error .invalid
      | some p =>
        let p := faultDetails p a
        let j := { old with
          preparationObservationStarted :=
            if unconfirmedPreparation old ∧ old.preparationObservationStarted.isNone then some now
            else old.preparationObservationStarted
          failures := min (old.failures + 1) maxFailures
          submissionResourceName := faultName old p a }
        (publish p reasonDetail (faultReason old p a)).bind fun p =>
          (publish p causeDetail a.cause).bind fun p =>
            .ok (if old.plan.isNone then localFault j old state code p now
              else remoteFault j old state code p)

/-! ### The whole machine -/

/-- The switch over the kinds of action. -/
def step (c : Codec) (old : Journal) (state : AttemptState) (a : Action) (now : ℤ) :
    Except Err Draft :=
  match a.kind with
  | .refuseNewWork => refuseNewWork old state a
  | .preventDispatch | .expireDispatch => preventDispatch old state a
  | .requestReconciliation => requestReconciliation old state a
  | .beginPreparation => beginPreparation c old state a
  | .preparationSeen => preparationSeen c old state a
  | .endUnconfirmedPreparation => endUnconfirmedPreparation old state a
  | .beginSubmission => beginSubmission old state a
  | .submissionSeen | .submissionAbsenceSeen | .ownerSubmissionAbsent =>
    submissionReported old state a now
  | .remoteAbsenceSeen => remoteAbsenceSeen old state a now
  | .observationSeen => observationSeen old state a now
  | .fault => fault old state a now

/-- Details of the first submission problem fill the gaps of the recorded one. -/
def keepSubmissionDetails (p first : Problem) : Problem :=
  first.publicDetails.keys.foldl (fun p key =>
    if key ≠ reasonDetail ∧ p.detail key = "" then
      p.withDetail key (first.publicDetails.get key)
    else p) p

/-- A recorded problem with the details of the first submission problem. -/
def keptProblem (j : Journal) (p : Problem) : Problem :=
  match j.submissionProblem with
  | none => p
  | some first => keepSubmissionDetails p first

/-- The recorded problem after the switch. -/
def finalProblem (j : Journal) : Option Problem :=
  j.problem.map fun p =>
    if j.submissionResourceName = "" then keptProblem j p
    else (keptProblem j p).withDetail resourceNameDetail j.submissionResourceName

/-- The journal a step commits. -/
def committed (j : Journal) : Journal :=
  { j with problem := finalProblem j, version := j.version + 1 }

section Committed

variable (j : Journal)

@[simp] theorem committed_phase : (committed j).phase = j.phase := rfl
@[simp] theorem committed_plan : (committed j).plan = j.plan := rfl
@[simp] theorem committed_preparationID : (committed j).preparationID = j.preparationID := rfl
@[simp] theorem committed_prepared : (committed j).prepared = j.prepared := rfl
@[simp] theorem committed_submitStarted : (committed j).submitStarted = j.submitStarted := rfl
@[simp] theorem committed_remote : (committed j).remote = j.remote := rfl
@[simp] theorem committed_observation : (committed j).observation = j.observation := rfl
@[simp] theorem committed_failures : (committed j).failures = j.failures := rfl
@[simp] theorem committed_version : (committed j).version = j.version + 1 := rfl
@[simp] theorem committed_submissionResourceName :
    (committed j).submissionResourceName = j.submissionResourceName := rfl
@[simp] theorem committed_submissionAbsenceObservedAt :
    (committed j).submissionAbsenceObservedAt = j.submissionAbsenceObservedAt := rfl
@[simp] theorem committed_ownerSubmissionPresent :
    (committed j).ownerSubmissionPresent = j.ownerSubmissionPresent := rfl
@[simp] theorem committed_startAuthorization :
    (committed j).startAuthorization = j.startAuthorization := rfl

end Committed

/-- Filling the gaps leaves every other detail alone. -/
theorem detail_keepSubmissionDetails (p first : Problem) {key : String}
    (h : key ∉ first.publicDetails.keys) :
    (keepSubmissionDetails p first).detail key = p.detail key := by
  unfold keepSubmissionDetails
  generalize first.publicDetails.keys = keys at h
  induction keys generalizing p with
  | nil => rfl
  | cons k keys ih =>
    rw [List.mem_cons, not_or] at h
    rw [List.foldl_cons, ih _ h.2]
    split_ifs
    · exact Problem.detail_withDetail_of_ne p _ h.1
    · rfl

theorem detail_committed {j : Journal} {p : Problem} (hp : j.problem = some p) {key : String}
    (hkey : key ∉ publicKeys) : (committed j).detail key = p.detail key := by
  have hname : key ≠ resourceNameDetail := fun h => hkey (by simp [h, publicKeys])
  have hkept : (keptProblem j p).detail key = p.detail key := by
    unfold keptProblem
    split
    · rfl
    · exact detail_keepSubmissionDetails p _ fun h => hkey (Problem.mem_publicKeys_of_mem _ h)
  simp only [committed, Journal.detail, finalProblem, hp, Option.map_some]
  split_ifs
  · exact hkept
  · rw [Problem.detail_withDetail_of_ne _ _ hname]
    exact hkept

def finish (c : Codec) (state : AttemptState) (d : Draft) :
    Except Err (Journal × AttemptState × EventType) :=
  if (committed d.journal).valid c.toCodec && validateAttemptStateTransition state d.next then
    .ok (committed d.journal, d.next, d.event)
  else .error .invalid

/-- What `Apply` asks of its arguments before it looks at the action. -/
def admissible (c : Codec) (old : Journal) (state : AttemptState) (now : ℤ) : Bool :=
  old.valid c.toCodec && state.validate && validTime now && old.version ≠ maxInt64 &&
  (c.journalBytes old).any (· ≤ maxJournalBytes)

/-- `dispatch.Apply`. -/
def apply (c : Codec) (old : Journal) (state : AttemptState) (a : Action) (now : ℤ) :
    Except Err (Journal × AttemptState × EventType) :=
  if !admissible c old state now then .error .invalid
  else (step c old state a now).bind (finish c state)

end Dispatch
end ComputeRelay
