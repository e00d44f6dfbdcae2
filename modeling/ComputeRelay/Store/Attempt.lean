import Mathlib.Tactic
import ComputeRelay.Lib.Fallible
import ComputeRelay.Dispatch.Control
import ComputeRelay.Store.Lease
import ComputeRelay.Store.Ledger

/-!
# The records of one attempt

Everything the store keeps for one attempt and the transactions on it
(`internal/store/sqlite/dispatch.go`, `dispatch_lease.go`, `authorization_dispatch.go`,
`execution_gate_dispatch.go`, `operations_actions.go`, `operations_dispatch.go`, `collection.go`,
`cleanup.go`, `scheduler.go`).

* `Records` is the state: the attempt row, the barrier, the journal row, the dispatch lease, the
  grants and the ledger.
* `loadDispatch` and `controlWork` are the two readers that cross-check the records.
* `commitDispatch`, `consumeAuthorization`, `commitCancellation`, `renewDispatch` and
  `yieldDispatch` are what a worker does through its handle; `admitCancellation`,
  `admitReconciliation` and the edits of collection, cleanup and retention are the controls.
* `perform` is one transaction, `Records.step` the same under the store's clock.

Policies that only refuse (host health, storage, quotas, resource counts) and the rows of operations
are left open, so more transactions go through here than in the store. The triggers that refuse an
update of the ledger are in `Store/Ledger`.
-/

namespace ComputeRelay
namespace Store

open Domain Provider Scheduler Dispatch Fallible

/-- A check that stops a transaction. -/
def require (p : Bool) (e : Err) : Except Err Unit := if p then .ok () else .error e

@[simp] theorem require_eq_ok {p : Bool} {e : Err} {u : Unit} : require p e = .ok u ↔ p = true := by
  cases p <;> simp [require]

theorem require_eq_error {p : Bool} {e e' : Err} :
    require p e = .error e' ↔ p = false ∧ e = e' := by
  cases p <;> simp [require]

/-! ### Rows -/

def maxUint64 : ℤ := 2 ^ 64 - 1

/-- The row of the attempt. -/
structure Attempt where
  state : AttemptState
  revision : ℤ
  updatedAt : ℤ
  deriving DecidableEq

/-- `Attempt.Transition`: a move to the same state changes nothing. -/
def Attempt.transition (a : Attempt) (next : AttemptState) (now : ℤ) : Option Attempt :=
  if !validateAttemptStateTransition a.state next then none
  else if a.state = next then some a
  else if now < a.updatedAt ∨ a.revision = maxUint64 then none
  else some ⟨next, a.revision + 1, now⟩

structure Records where
  floor : ℤ
  attempt : Attempt
  /-- The job names this attempt as its active one. -/
  active : Bool
  barrier : Bool
  /-- The row of `dispatch_journals`, as it was encoded; there is none before the first version. -/
  journal : Option Journal
  lease : Option LeaseRow
  grants : Grants
  ledger : Ledger
  deriving DecidableEq

/-- A claim as the scheduler hands it out, without the quota warning. -/
structure Claim where
  workspaceID : String
  jobID : String
  attemptID : String
  sequence : ℤ
  owner : String
  generation : ℤ
  fence : String
  expiresAt : ℤ
  attemptRevision : ℤ
  accountScope : String
  providerInstanceID : String
  deriving DecidableEq

def Claim.valid (k : Claim) : Bool :=
  validOpaqueID k.workspaceID && validOpaqueID k.jobID && validOpaqueID k.attemptID &&
  0 < k.sequence && validOpaqueID k.owner && 0 < k.generation && validSHA256Digest k.fence &&
  validTime k.expiresAt && 0 < k.attemptRevision && validOpaqueID k.accountScope &&
  validOpaqueID k.providerInstanceID

/-- `dispatchLease`. -/
def Claim.lease (k : Claim) : WorkLease := ⟨k.owner, k.fence, k.generation, none, none⟩

structure Handle where
  claim : Claim
  version : ℤ
  deriving DecidableEq

/-- `dispatch.Work`, without the frozen job. -/
structure Work where
  attempt : Attempt
  journal : Journal
  gate : Option Gate := none

/-- The errors of `dispatch.Apply` as the store passes them on. -/
def ofDispatch : Dispatch.Err → Err
  | .invalid => .dispatchInvalid
  | .conflict => .dispatchConflict
  | .staleObservation => .staleObservation

section Readers

variable (c : Codec) (r : FrozenJob)

/-- The encoded journal is not too long. -/
def fits (j : Journal) : Bool := (c.journalBytes j).any (· ≤ maxJournalBytes)

/-- `loadJournal`. -/
def loadJournal (x : Records) : Except Err Journal :=
  match x.journal with
  | none => .ok localJournal
  | some j => do
    require (fits c j && j.reread.valid c.toDispatch.toCodec) .corrupt
    pure j.reread

/-- `ownedDispatchClaim`; a claim of another attempt does not own this one. -/
def ownedDispatchClaim (x : Records) (k : Claim) (now : ℤ) : Except Err Unit := do
  require k.valid .schedulerInvalid
  require (k.sequence = r.sequence && k.workspaceID = r.workspaceID && k.jobID = r.jobID &&
    k.attemptID = r.attemptID) .leaseLost
  let _ ← checkWorkLease .dispatch x.lease k.lease now
  require x.active .leaseLost
  require (k.accountScope = r.accountScope && k.providerInstanceID = r.providerInstanceID)
    .leaseLost
  require (x.attempt.revision = k.attemptRevision) .leaseLost
  require (x.attempt.updatedAt ≤ now) .corrupt

def capabilityGPU : String := "gpu"

/-- `matchesFrozenPlan`. -/
def matchesFrozenPlan (plan : Plan) (operation : String) : Bool :=
  r.resolved.any fun (job, id) => operation = id && plan.job = job &&
    plan.verifyAfterStart.length ≤ 1 &&
    plan.verifyAfterStart.all fun name => name = capabilityGPU && r.gpu

/-- A journal that ended before any plan. -/
def endedLocally (j : Journal) : Bool := j.phase = .failed || j.phase = .prevented

/-- What the gate must say about a journal with a plan. -/
def gateAgrees (j : Journal) (gate : Option Gate) : Bool :=
  gate.any fun g =>
    !j.prepared.any (fun p => p.ready && p.readinessRevision c.toDispatch.toCodec ≠ g.readyRevision)
    && if j.submitStarted then
        g.startReceipt.any (·.receiptStatus = .consumed) && j.startAuthorization.isSome &&
          j.startAuthorization = g.start
      else !g.startReceipt.any (·.receiptStatus = .consumed)

/-- The checks of `loadDispatch` behind the gate. -/
def checkLoaded (x : Records) (j : Journal) (gate : Option Gate) (now : ℤ) : Except Err Unit :=
  match j.plan with
  | none => require (endedLocally j || localOnly x.attempt.state) .phaseGate
  | some plan => do
    require (!r.separateStart || gateAgrees c j gate) .corrupt
    require ((dispatchAuthorization r x.grants gate now).toOption = some .consumed) .corrupt
    require (matchesFrozenPlan r plan j.preparationID) .corrupt
    require (checkDispatchLedger c r x.ledger j plan) .corrupt

/-- `loadDispatch`. -/
def loadDispatch (x : Records) (k : Claim) (now : ℤ) : Except Err Work := do
  ownedDispatchClaim r x k now
  let j ← loadJournal c x
  require (j.plan.isNone || x.barrier) .corrupt
  require (j.plan.isSome || !x.barrier || endedLocally j) .corrupt
  let gate ← loadExecutionGate r x.grants now
  checkLoaded c r x j gate now
  pure ⟨x.attempt, j, gate⟩

/-- `controlWork`: the journal, without the checks of a lease and of the gate. -/
def controlWork (x : Records) : Except Err Journal := do
  let j ← loadJournal c x
  match j.plan with
  | none => do
    require (!x.barrier || endedLocally j) .unresolved
    pure j
  | some plan => do
    require (x.barrier && matchesFrozenPlan r plan j.preparationID) .corrupt
    require (checkDispatchLedger c r x.ledger j plan) .corrupt
    pure j

end Readers

/-! ### Writing -/

/-- `schedulerTransition` and `controlState`, which differ in the error they report. -/
def writeState (x : Records) (next : AttemptState) (now : ℤ) (e : Err) : Except Err Records :=
  match x.attempt.transition next now with
  | none => .error e
  | some a => do
    require (a.revision ≤ maxInt64) e
    pure { x with attempt := a }

def schedulerTransition (x : Records) (next : AttemptState) (now : ℤ) : Except Err Records :=
  writeState x next now .schedulerInvalid

def controlState (x : Records) (next : AttemptState) (now : ℤ) : Except Err Records :=
  writeState x next now .operationState

/-- The insert or update of the journal row, guarded by the version that was read. -/
def writeJournal (x : Records) (version : ℤ) (next : Journal) (e : Err) : Except Err Records := do
  require (if version = 0 then x.journal.isNone else x.journal.any (·.version = version)) e
  pure { x with journal := some next }

section Transactions

variable (c : Codec) (r : FrozenJob)

/-- `controlJournal`. -/
def controlJournal (x : Records) (old next : Journal) : Except Err Records := do
  require (next.valid c.toDispatch.toCodec && next.version = old.version + 1 &&
    fits c next) .invalid
  writeJournal x old.version next .changed

/-- The part of `newMutationPolicy` that reads the attempt. -/
def newMutationPolicy (work : Work) (now : ℤ) : Except Err Unit := do
  require (!(r.expired now || work.gate.any (·.expired now))) .expired
  require (localOnly work.attempt.state) .policy

/-- The gate learns the revision of the first ready and private staging answer. -/
def recordReady (grants : Grants) (g : Gate) (p : Prepared) (now : ℤ) : Except Err Grants := do
  let revision := p.readinessRevision c.toDispatch.toCodec
  require (validSHA256Digest revision) .dispatchInvalid
  if g.readyRevision ≠ "" then
    require (g.readyRevision = revision) .dispatchConflict
    pure grants
  else
    match grants.prepare with
    | none => .error .dispatchConflict
    | some q => do
      require (q.readyRevision.isNone && q.consumedAt.isSome) .dispatchConflict
      pure { grants with
        prepare := some { q with readyRevision := some revision, readyAt := some now } }

/-- The secret of a start is consumed when its material is at hand. -/
def spendSecret (grants : Grants) (secret : Option SecretGrant) (available : Bool) (now : ℤ) :
    Except Err Grants :=
  match secret with
  | none => .ok grants
  | some _ => do
    require available .secretUnavailable
    grants.consumeGrant .secret now .secretUnavailable

/-- The authority to start is consumed with the intent; the secret first, at the same instant. -/
def consumeStart (grants : Grants) (g : Gate) (j : Journal) (a : Action) (now : ℤ) :
    Except Err (Grants × Action) :=
  match g.start, g.startReceipt, j.prepared with
  | some start, some receipt, some p => do
    require (receipt.receiptStatus = .granted && start.validate c.toDispatch.toCodec p) .policy
    let id := (start.secrets.map (·.authorizationID)).getD ""
    let secret ← secretForStart r grants.secret id g.readyRevision now
    let grants ← spendSecret grants secret a.secretsAvailable now
    let grants ← grants.consumeGrant .start now .dispatchConflict
    pure (grants, { a with startAuthorization := some start })
  | _, _, _ => .error .policy

/-- `commitGateStep`: the grants and the action after it. -/
def commitGateStep (grants : Grants) (work : Work) (a : Action) (now : ℤ) :
    Except Err (Grants × Action) :=
  if !r.separateStart then do
    require a.startAuthorization.isNone .dispatchInvalid
    pure (grants, a)
  else match work.gate with
    | none => .error .policy
    | some g =>
      match a.kind, a.prepared with
      | .preparationSeen, some p =>
        if p.ready && p.private_ then do
          let grants ← recordReady c grants g p now
          pure (grants, a)
        else pure (grants, a)
      | .beginSubmission, _ => consumeStart c r grants g work.journal a now
      | _, _ => pure (grants, a)

/-- The last step of an expiry says which of the two deadlines is over. -/
def preparationExpired (gate : Option Gate) (now : ℤ) : Bool :=
  match gate with
  | none => false
  | some g =>
    !r.expired now && instant g.request.readyUntil ≤ now &&
      g.start.all fun s => instant g.request.readyUntil ≤ instant s.executionDeadline

/-- What `CommitDispatch` asks of an action before the gate. -/
def checkAction (x : Records) (work : Work) (a : Action) (now : ℤ) : Except Err Action :=
  match a.kind with
  | .expireDispatch => do
    require (r.expired now || work.gate.any (·.expired now)) .dispatchInvalid
    pure { a with preparationExpired := preparationExpired r work.gate now }
  | .beginPreparation => do
    let status ← dispatchAuthorization r x.grants work.gate now
    require (status = .consumed) .policy
    newMutationPolicy r work now
    match a.plan with
    | none => .error .dispatchInvalid
    | some plan => do
      require (matchesFrozenPlan r plan a.preparationID) .dispatchConflict
      pure a
  | .beginSubmission => do
    let status ← dispatchAuthorization r x.grants work.gate now
    require (status = .consumed) .policy
    newMutationPolicy r work now
    pure a
  | _ => pure a

/-- The polls of a pending cancellation are exhausted (`finishObservedOperations`). -/
def finishObservedOperations (x : Records) (kind : Kind) (exhausted : Bool) (now : ℤ) :
    Except Err Records :=
  if kind = .observationSeen && exhausted && !x.attempt.state.execution.terminal &&
      x.attempt.state.cancellation ≠ .manual then
    controlState x (handedOver x.attempt.state) now
  else pure x

/-- The result of `dispatch.Apply` as the store takes it over. -/
def applied (work : Work) (a : Action) (now : ℤ) : Except Err (Journal × AttemptState) :=
  match apply c.toDispatch work.journal work.attempt.state a now with
  | .error e => .error (ofDispatch e)
  | .ok (next, state, _) => do
    require (fits c next) .dispatchInvalid
    pure (next, state)

/-- The handle of the work as it is now, under the same lease. -/
def Handle.refresh (h : Handle) (x : Records) (version : ℤ) : Handle :=
  { claim := { h.claim with attemptRevision := x.attempt.revision }, version }

/-- `loadDispatch` and `checkHandle`. -/
def loadHandle (x : Records) (h : Handle) (now : ℤ) : Except Err Work := do
  let work ← loadDispatch c r x h.claim now
  require (h.version = work.journal.version) .dispatchConflict
  pure work

/-- `CommitDispatch`. -/
def commitDispatch (x : Records) (h : Handle) (a : Action) (exhausted : Bool) (now : ℤ) :
    Except Err (Records × Handle) := do
  require (!controlOnly a.kind) .dispatchInvalid
  let work ← loadHandle c r x h now
  let a ← checkAction r x work a now
  let (grants, a) ← commitGateStep c r x.grants work a now
  let (next, state) ← applied c work a now
  let ledger ← writeDispatchLedger c r x.ledger next a.kind
  let x := { x with grants, ledger, barrier := x.barrier || a.kind = .beginPreparation }
  let x ← schedulerTransition x state now
  let x ← writeJournal x h.version next .dispatchConflict
  let x ← finishObservedOperations x a.kind exhausted now
  pure (x, h.refresh x next.version)

/-- `ConsumeAuthorization`. -/
def consumeAuthorization (x : Records) (h : Handle) (now : ℤ) : Except Err (Records × Handle) := do
  let work ← loadHandle c r x h now
  require (work.journal.phase = .local_ && work.journal.plan.isNone) .dispatchConflict
  newMutationPolicy r work now
  let status ← dispatchAuthorization r x.grants work.gate now
  if status = .granted then
    let kind := if work.gate.isSome then .prepare else .execution
    let grants ← x.grants.consumeGrant kind now .dispatchConflict
    pure ({ x with grants }, h)
  else pure (x, h)

/-- `CommitCancellation`, for the pending request of the attempt. -/
def commitCancellation (x : Records) (h : Handle) (report : CancellationReport) (now : ℤ) :
    Except Err (Records × Handle) := do
  let work ← loadHandle c r x h now
  let s := work.attempt.state
  match work.journal.remote with
  | none => .error .dispatchConflict
  | some remote => do
    require (work.journal.phase = .submitted) .dispatchConflict
    match report with
    | .begun => do
      require (s.cancellation = .requested) .dispatchConflict
      let x ← controlState x { s with cancellation := .requesting } now
      pure (x, h.refresh x h.version)
    | .acknowledged => do
      require (s.cancellation = .requesting) .dispatchConflict
      let x ← controlState x { s with cancellation := .accepted } now
      pure (x, h.refresh x h.version)
    | .unsupported => do
      let x ← controlState x (handedOver s) now
      pure (x, h.refresh x h.version)
    | .confirmed => do
      let (next, state) ← applied c work
        { kind := .observationSeen, observation := some (cancelledObservation remote now) } now
      let x ← controlJournal c x work.journal next
      let x ← controlState x state now
      pure (x, h.refresh x next.version)

/-- `RenewDispatch`. -/
def renewDispatch (x : Records) (h : Handle) (ttl now : ℤ) : Except Err (Records × Handle) := do
  let _ ← loadHandle c r x h now
  let row ← renewWorkLease .dispatch x.lease h.claim.lease now ttl
  pure ({ x with lease := some row },
    { h with claim := { h.claim with expiresAt := ofMilli row.untilMs } })

/-- `YieldDispatch`. -/
def yieldDispatch (x : Records) (h : Handle) (delay now : ℤ) : Except Err Records := do
  let _ ← loadHandle c r x h now
  require (validTime (now + delay)) .schedulerInvalid
  let row ← releaseWorkLease .dispatch x.lease h.claim.lease now
  pure { x with lease := some row }

/-- The claim of a lease row, for the attempt as it is now. -/
def claimOf (x : Records) (row : LeaseRow) : Claim where
  workspaceID := r.workspaceID
  jobID := r.jobID
  attemptID := r.attemptID
  sequence := r.sequence
  owner := row.owner
  generation := row.generation
  fence := row.fence
  expiresAt := ofMilli row.untilMs
  attemptRevision := x.attempt.revision
  accountScope := r.accountScope
  providerInstanceID := r.providerInstanceID

/-- `ClaimNext`, once the scheduler has selected the attempt. -/
def claimNext (x : Records) (owner fence : String) (ttl now : ℤ) : Except Err Records := do
  require (x.active && !x.barrier && localOnly x.attempt.state) .phaseGate
  require (x.attempt.updatedAt ≤ now) .corrupt
  let row ← claimWorkLease .dispatch x.lease ⟨owner, "", 0, none, none⟩ fence now ttl
  schedulerTransition { x with lease := some row } (claimedState x.attempt.state) now

/-- `ClaimRecovery`, once the query has found the attempt. -/
def claimRecovery (x : Records) (owner fence : String) (ttl now : ℤ) : Except Err Records := do
  require (x.active && x.barrier && x.journal.any (·.recoverable) &&
    !x.attempt.state.orchestration.terminal) .phaseGate
  require (x.attempt.updatedAt ≤ now) .corrupt
  let row ← claimWorkLease .dispatch x.lease ⟨owner, "", 0, none, none⟩ fence now ttl
  let x := { x with lease := some row }
  let _ ← loadDispatch c r x (claimOf r x row) now
  schedulerTransition x x.attempt.state now

/-! ### Controls -/

/-- `dispatch.Apply` in a control transaction. -/
def appliedControl (x : Records) (j : Journal) (a : Action) (now : ℤ) :
    Except Err (Journal × AttemptState) :=
  match apply c.toDispatch j x.attempt.state a now with
  | .error e => .error (ofDispatch e)
  | .ok (next, state, _) => .ok (next, state)

/-- A first request is recorded before its outcome. -/
def requestLate (x : Records) (now : ℤ) : Except Err Records :=
  if x.attempt.state.cancellation = .notRequested then
    controlState x { x.attempt.state with cancellation := .requested } now
  else .ok x

/-- A cancellation that arrives after the execution has ended. -/
def cancelLate (x : Records) (now : ℤ) : Except Err Records := do
  let s := x.attempt.state
  let x ← requestLate x now
  controlState x { s with cancellation := lateCancellation s } now

/-- A cancellation before any submission. -/
def cancelUnsubmitted (x : Records) (j : Journal) (now : ℤ) : Except Err Records := do
  let (next, state) ← appliedControl c x j { kind := .preventDispatch } now
  let x ← controlJournal c x j next
  controlState x state now

/-- A cancellation behind a submission intent; the recovery path of a journal in attention is
reopened, or the request goes back to the operator. -/
def cancelSubmitted (x : Records) (j : Journal) (uninvoked : Bool) (now : ℤ) :
    Except Err Records := do
  let s := x.attempt.state
  require (s.cancellation = .notRequested || (s.cancellation = .manual && uninvoked))
    .operationState
  let x ← controlState x { s with cancellation := .requested, orchestration := .cancelling } now
  if j.phase = .attention then
    match appliedControl c x j { kind := .requestReconciliation } now with
    | .error _ => controlState x (handedOver x.attempt.state) now
    | .ok (next, _) => controlJournal c x j next
  else pure x

/-- `admitCancellation`. -/
def admitCancellation (x : Records) (uninvoked : Bool) (now : ℤ) : Except Err Records :=
  if x.attempt.state.orchestration.terminal then pure x
  else do
    require x.active .changed
    let j ← controlWork c r x
    if x.attempt.state.execution.terminal then cancelLate x now
    else if !j.submitStarted then cancelUnsubmitted c x j now
    else cancelSubmitted c x j uninvoked now

/-- How an operator resolves a lost submission. -/
inductive Resolution
  | present | absent
  deriving DecidableEq

/-- The action a reconciliation request stands for. -/
def reconciliationAction : Option (Resolution × String) → Action
  | none => { kind := .requestReconciliation }
  | some (.present, name) =>
    { kind := .requestReconciliation, resourceName := name, ownerPresent := true }
  | some (.absent, name) => { kind := .ownerSubmissionAbsent, resourceName := name }

/-- Only an owner's report of absence is recorded in the ledger. -/
def reconciledLedger (l : Ledger) (next : Journal) (kind : Kind) : Except Err Ledger :=
  if kind = .ownerSubmissionAbsent then writeDispatchLedger c r l next kind else .ok l

/-- `admitReconciliation`. -/
def admitReconciliation (x : Records) (resolution : Option (Resolution × String)) (now : ℤ) :
    Except Err Records :=
  let s := x.attempt.state
  if s.orchestration.terminal || s.execution.terminal then pure x
  else do
    require x.active .changed
    let j ← controlWork c r x
    require (resolution.all fun (_, name) => j.phase = .attention && j.submitStarted &&
      j.remote.isNone && s.execution = .unknown && name = j.submissionResourceName) .operationState
    let a := reconciliationAction resolution
    let (next, state) ← appliedControl c x j a now
    let ledger ← reconciledLedger c r x.ledger next a.kind
    let x ← controlJournal c { x with ledger } j next
    controlState x state now

/-- `collectionCondition`: the journal shows the condition of the collection. -/
def collectionCondition (x : Records) (problem : Option Problem) : Except Err Records := do
  let j ← controlWork c r x
  require (j.version ≠ maxInt64) .conflict
  controlJournal c x j { j with version := j.version + 1, problem }

/-! ### Collection, cleanup and retention -/

/-- The orchestration a published result leaves behind; `completed` is the runner's own phase. -/
def finalOrchestration (s : AttemptState) (completed : Bool) : OrchestrationState :=
  let ordinary := s.cancellation = .notRequested || s.cancellation = .tooLate
  match s.execution with
  | .succeeded => if ordinary then (if completed then .succeeded else .failed) else .needsAttention
  | .failed => if ordinary then .failed else .needsAttention
  | .timedOut => if ordinary then .timedOut else .needsAttention
  | .cancelled => if s.cancellation = .confirmed then .cancelled else .needsAttention
  | _ => .needsAttention

/-- `collection.FinalState`. -/
def finalState (s : AttemptState) (completed : Bool) : Except Err AttemptState := do
  require (s.execution.terminal && !s.orchestration.terminal && s.result = .collecting)
    .collectionInvalid
  let next := { s with
    result := .available
    orchestration := finalOrchestration s completed
    deadlineExceeded := s.deadlineExceeded ||
      (s.execution = .timedOut && finalOrchestration s completed = .timedOut) }
  require next.validate .collectionInvalid
  pure next

/-- The edits of the attempt on behalf of collection, cleanup and retention. -/
inductive CollectionEdit
  | claim
  | complete (completed : Bool)
  | fail (invalid : Bool) (p : Problem)
  | discard (p : Problem)
  | cleaned
  | expire

/-- `checkedCollection`, as far as it reads the attempt. -/
def collecting (s : AttemptState) : Bool := s.result = .collecting && s.orchestration = .collecting

/-- The attempt may be collected (`ClaimCollection`). -/
def collectible (s : AttemptState) (j : Journal) : Bool :=
  !s.orchestration.terminal && s.execution.terminal && j.phase = .collectible &&
  j.observation.any (·.execution = s.execution) &&
  (s.result = .notAvailable || s.result = .collecting || s.result = .incomplete ||
    s.result = .invalid)

/-- `ClaimCollection`, `CompleteCollection`, `FailCollection`, `discardPendingCollection`, the end
of a cleanup that discards, and `tombstoneResult`. -/
def editCollection (x : Records) (edit : CollectionEdit) (now : ℤ) : Except Err Records :=
  let s := x.attempt.state
  match edit with
  | .claim => do
    let j ← controlWork c r x
    require (x.attempt.updatedAt ≤ now) .corrupt
    require (collectible s j) .collectionInvalid
    controlState x { s with result := .collecting, orchestration := .collecting } now
  | .complete completed => do
    require (collecting s) .collectionLeaseLost
    require (x.attempt.updatedAt ≤ now) .corrupt
    let next ← finalState s completed
    let x ← controlState x next now
    collectionCondition c r x none
  | .fail invalid p => do
    require (collecting s) .collectionLeaseLost
    require (x.attempt.updatedAt ≤ now) .corrupt
    let x ← controlState x { s with
      orchestration := .needsAttention, result := if invalid then .invalid else .incomplete } now
    collectionCondition c r x (some p)
  | .discard p => do
    let x ← controlState x { s with
      orchestration := .needsAttention
      result := if s.result = .collecting then .incomplete else s.result } now
    collectionCondition c r x (some p)
  | .cleaned =>
    if s.orchestration = .collecting then
      controlState x { s with orchestration := .needsAttention } now
    else pure x
  | .expire => do
    require (s.result = .available) .corrupt
    writeState x { s with result := .expired } now .invalid

/-- `RetryAllowed`. -/
def retryAllowed (s : AttemptState) : Bool :=
  s.validate && (s.remoteActivity = .notStarted || s.remoteActivity = .inactive) &&
  s.execution ≠ .succeeded && s.orchestration.terminal &&
  (s.execution = .notSubmitted || s.execution.terminal)

/-- A retry, as far as it concerns the old attempt: the job names another one. -/
def retry (x : Records) : Except Err Records := do
  require x.active .changed
  require (retryAllowed x.attempt.state) .unresolved
  pure { x with active := false }

/-! ### Grants -/

/-- `AuthorizeExecution` for an attempt and a wall budget. -/
def authorizeExecution (x : Records) (attemptID : String) (wallSeconds : ℤ) (id : FreshID)
    (now : ℤ) : Except Err Records := do
  require (x.active && attemptID = r.attemptID) .gateConflict
  require (!r.expired now) .expired
  require (!r.separateStart && localOnly x.attempt.state && x.attempt.updatedAt ≤ now) .gateState
  require (r.remoteWallSeconds = wallSeconds) .gateRequest
  require x.grants.execution.isNone .gateConflict
  require (!x.barrier && x.journal.isNone) .gateState
  match r.inputsSHA256 with
  | none => .error .inputs
  | some inputs =>
    pure { x with grants := { x.grants with execution := some {
      toGrant := .fresh id now, binding := r.profile, account := r.accountScope, inputs
      nonce := r.attemptNonce, wallSeconds } } }

/-- `gateRecord`. -/
def gateRecord (x : Records) (attemptID : String) (now : ℤ) : Except Err Unit := do
  require (x.active && attemptID = r.attemptID) .gateConflict
  require (r.separateStart && localOnly x.attempt.state) .gateState
  require (x.attempt.updatedAt ≤ now) .corrupt
  require (!r.expired now) .expired

/-- `PrepareExecution`. -/
def prepareExecution (x : Records) (q : PrepareRequest) (id : FreshID) (now : ℤ) :
    Except Err Records := do
  require q.validate .gateRequest
  gateRecord r x q.attemptID now
  let until_ := instant q.readyUntil
  require (now < until_) .expired
  require (until_ ≤ now + maxReadyHold && r.deadline.all (until_ ≤ ·)) .gateRequest
  let j ← controlWork c r x
  require (j.phase = .local_ && j.version = 0) .gateState
  require x.grants.prepare.isNone .gateConflict
  match r.inputsSHA256 with
  | none => .error .inputs
  | some inputs => do
    require (1 ≤ r.objectBytes && r.objectBytes ≤ q.maxStagedBytes) .gateRequest
    pure { x with grants := { x.grants with prepare := some {
      toGrant := .fresh id now, request := q, binding := r.profile
      account := r.accountScope, inputs, nonce := r.attemptNonce
      reservedBytes := r.objectBytes, readyUntilMs := unixMilli until_ } } }

/-- What `StartExecution` asks of the gate and the journal. -/
def startable (x : Records) (q : StartRequest) (g : Gate) (now : ℤ) : Except Err Unit := do
  require (g.preparation.receiptStatus = .consumed && g.readyAt.isSome) .gateState
  require g.start.isNone .gateConflict
  require (!g.expired now) .expired
  require (g.readyRevision = q.readinessRevision) .gateConflict
  let j ← controlWork c r x
  require (j.phase = .ready && !j.submitStarted && j.prepared.any fun p =>
    p.readinessRevision c.toDispatch.toCodec = g.readyRevision) .gateState

/-- `StartExecution`. -/
def startExecution (x : Records) (q : StartRequest) (id : FreshID) (secretAvailable : Bool)
    (now : ℤ) : Except Err Records := do
  require q.validate .gateRequest
  gateRecord r x q.attemptID now
  let gate ← loadExecutionGate r x.grants now
  match gate with
  | none => .error .gateState
  | some g => do
    startable c r x q g now
    let stop := instant q.executionDeadline
    require (now < stop) .expired
    require (r.setupSeconds + r.finalizationGraceSeconds < q.maxRemoteWallSeconds &&
      q.maxRemoteWallSeconds ≤ r.remoteWallSeconds &&
      stop ≤ now + q.maxRemoteWallSeconds * Rfc3339.second &&
        r.deadline.all (stop ≤ ·)) .gateRequest
    let secret ← secretForStart r x.grants.secret q.secretAuthorizationID q.readinessRevision now
    require (secret.isNone || secretAvailable) .secretUnavailable
    pure { x with grants := { x.grants with start := some {
      toGrant := .fresh id now, request := q } } }

/-- `SupplyWorkloadSecrets`. -/
def supplyWorkloadSecrets (x : Records) (m : Metadata) (id : FreshID) (now : ℤ) :
    Except Err Records := do
  require m.validate .secretRequest
  gateRecord r x m.attemptID now
  require (matchSecretSlots r.workloadSecrets m) .secretRequest
  let gate ← loadExecutionGate r x.grants now
  require (gate.any fun g => g.readyAt.isSome && g.readyRevision = m.readinessRevision &&
    !g.expired now) .secretState
  let j ← controlWork c r x
  require (j.phase = .ready && !j.submitStarted) .secretState
  let until_ := instant m.expiresAt
  require (now < until_ && until_ ≤ now + maxLifetime) .secretRequest
  require x.grants.secret.isNone .secretConflict
  pure { x with grants := { x.grants with secret := some {
    toGrant := .fresh id now (some (unixMilli until_)), metadata := m } } }

/-- `RevokeWorkloadSecrets`. -/
def revokeWorkloadSecrets (x : Records) (id : String) (now : ℤ) : Except Err Records := do
  let s ← loadSecret r x.grants.secret now
  require (s.authorizationID = id) .secretNotFound
  require ((s.current now).status ≠ .revoked) .secretConflict
  require (s.consumedAt.isNone && s.revokedAt.isNone) .secretState
  pure { x with grants := { x.grants with secret := some { s with
    status := .revoked
    revokedAt := some now
    revocation := some { s.current now with status := .revoked, revokedAt := some now } } } }

/-! ### The machine -/

/-- The transactions on one attempt. -/
inductive Request
  | authorize (attemptID : String) (wallSeconds : ℤ) (id : FreshID)
  | prepare (q : PrepareRequest) (id : FreshID)
  | start (q : StartRequest) (id : FreshID) (secretAvailable : Bool)
  | supply (m : Metadata) (id : FreshID)
  | revoke (id : String)
  | claimNext (owner fence : String) (ttl : ℤ)
  | claimRecovery (owner fence : String) (ttl : ℤ)
  | load (k : Claim)
  | renew (h : Handle) (ttl : ℤ)
  | yield (h : Handle) (delay : ℤ)
  | consume (h : Handle)
  | commit (h : Handle) (a : Action) (exhausted : Bool)
  | cancelled (h : Handle) (report : CancellationReport)
  | cancel (uninvoked : Bool)
  | reconcile (resolution : Option (Resolution × String))
  | collect (edit : CollectionEdit)
  | retry

/-- A transaction without a handle to return. -/
def silent (x : Except Err Records) : Except Err (Records × Option Handle) :=
  x.map fun y => (y, none)

/-- A transaction that returns the handle to go on with. -/
def issuing (x : Except Err (Records × Handle)) : Except Err (Records × Option Handle) :=
  x.map fun y => (y.1, some y.2)

/-- `LoadDispatch`. -/
def loadWork (x : Records) (k : Claim) (now : ℤ) : Except Err (Records × Handle) := do
  let work ← loadDispatch c r x k now
  pure (x, ⟨k, work.journal.version⟩)

/-- One transaction at a time the clock hands out. -/
def perform (x : Records) (now : ℤ) : Request → Except Err (Records × Option Handle)
  | .authorize attemptID wallSeconds id =>
    silent (authorizeExecution r x attemptID wallSeconds id now)
  | .prepare q id => silent (prepareExecution c r x q id now)
  | .start q id secretAvailable => silent (startExecution c r x q id secretAvailable now)
  | .supply m id => silent (supplyWorkloadSecrets c r x m id now)
  | .revoke id => silent (revokeWorkloadSecrets r x id now)
  | .claimNext owner fence ttl => silent (claimNext x owner fence ttl now)
  | .claimRecovery owner fence ttl => silent (claimRecovery c r x owner fence ttl now)
  | .load k => issuing (loadWork c r x k now)
  | .renew h ttl => issuing (renewDispatch c r x h ttl now)
  | .yield h delay => silent (yieldDispatch c r x h delay now)
  | .consume h => issuing (consumeAuthorization c r x h now)
  | .commit h a exhausted => issuing (commitDispatch c r x h a exhausted now)
  | .cancelled h report => issuing (commitCancellation c r x h report now)
  | .cancel uninvoked => silent (admitCancellation c r x uninvoked now)
  | .reconcile resolution => silent (admitReconciliation c r x resolution now)
  | .collect edit => silent (editCollection c r x edit now)
  | .retry => silent (retry x)

/-- A request and the reading of the wall clock it meets. -/
structure Tx where
  wall : ℤ
  request : Request

/-- One transaction under the clock of the store; a failed one leaves no trace. -/
def Records.transact (x : Records) (tx : Tx) : Except Err (Records × Option Handle) := do
  let (now, next) ← write x.floor tx.wall
  let (y, h) ← perform c r x now tx.request
  pure ({ y with floor := next }, h)

def Records.step (x : Records) (tx : Tx) : Option Records :=
  (x.transact c r tx).toOption.map (·.1)

end Transactions

/-- The records of an attempt as the transaction that admits it leaves them. -/
def admitted (now : ℤ) : Records where
  floor := nextFloor now
  attempt := ⟨initialAttemptState, 1, now⟩
  active := true
  barrier := false
  journal := none
  lease := none
  grants := {}
  ledger := {}

end Store
end ComputeRelay
