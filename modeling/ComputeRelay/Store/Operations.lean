import Mathlib.Tactic
import ComputeRelay.Store.Handles

/-!
# Control operations

Requests to cancel or to reconcile an attempt are durable operations
(`internal/store/sqlite/operations_records.go`, `operations_admission.go`, `operations_actions.go`,
`operations_dispatch.go`). This layer adds their rows and receipts to the records of the attempt and
decides what `Store/Attempt` leaves open: whether an earlier cancellation never reached the
provider, and whether the polls of a pending one are exhausted.

* `Operation`, `saveOperation` and `finishControl` are the rows and how they change.
* `Controlled` is the state, `Controlled.step` one transaction; `step_records` projects it to the
  machine of `Store/Attempt`.
* `one_stop_invocation` is the main result: a provider is asked at most once to stop an attempt.

The partial unique index over started cancellations is not part of the model: the result does not
depend on it.
-/

namespace ComputeRelay
namespace Store

open Domain Provider Scheduler Dispatch Fallible

/-! ### Rows -/

inductive OperationKind
  | cancel | retryCompute | reconcile | collect | cleanup
  deriving DecidableEq

inductive OperationStatus
  | accepted | running | succeeded | failed | manualRequired
  deriving DecidableEq

def OperationStatus.terminal : OperationStatus → Bool
  | .succeeded | .failed | .manualRequired => true
  | .accepted | .running => false

/-- `operationTransitions`. -/
def operationTransitions : OperationStatus → OperationStatus → Bool
  | .accepted, .accepted => false
  | .accepted, _ => true
  | .running, next => next.terminal
  | _, _ => false

inductive Effect
  | pending | remoteDeleted | alreadyAbsent | dispatchPrevented | cancellationRequested
  | cancellationConfirmed | tooLate | observationRefreshed | submissionResolvedAbsent
  | collectionRequested | resultsAvailable | newAttemptCreated | manualRequired | failed
  deriving DecidableEq

/-- A row of `operations` for one attempt. -/
structure Operation where
  id : String
  kind : OperationKind
  updatedAt : ℤ
  status : OperationStatus := .accepted
  effect : Effect := .pending
  revision : ℤ := 1
  /-- The column `cancel_started`. -/
  started : Bool := false
  /-- The events `execution.observed` that carry this operation. -/
  polls : ℤ := 0
  deriving DecidableEq

namespace Operation

def pending (o : Operation) : Bool := !o.status.terminal

/-- `Record.Validate`: the effects a status goes with. -/
def recordValid (o : Operation) : Bool :=
  match o.status with
  | .accepted => o.effect = .pending || (o.kind = .collect && o.effect = .collectionRequested)
  | .running => (o.kind = .cancel && o.effect = .cancellationRequested) ||
      (o.kind = .cleanup && o.effect = .pending)
  | .failed => o.effect = .failed
  | .manualRequired => o.kind ≠ .cleanup && o.effect = .manualRequired
  | .succeeded =>
    match o.kind with
    | .cleanup => o.effect = .remoteDeleted || o.effect = .alreadyAbsent
    | .cancel => o.effect = .dispatchPrevented || o.effect = .cancellationConfirmed ||
        o.effect = .tooLate
    | .retryCompute => o.effect = .newAttemptCreated
    | .reconcile => o.effect = .observationRefreshed || o.effect = .submissionResolvedAbsent
    | .collect => o.effect = .resultsAvailable

/-- `Operation.Transition` to another status. -/
def transition (o : Operation) (next : OperationStatus) (now : ℤ) : Option Operation :=
  if operationTransitions o.status next && o.updatedAt ≤ now && o.revision ≠ maxUint64 then
    some { o with status := next, revision := o.revision + 1, updatedAt := now }
  else none

/-- A request that ended before the provider was asked, and that a later one may replace. -/
def spent (o : Operation) : Bool :=
  (o.status = .failed || o.status = .manualRequired) && !o.started

end Operation

/-- `saveOperation`; the identifier selects one row. -/
def saveOperation (ops : List Operation) (before after : Operation) :
    Except Err (List Operation) := do
  require (after.recordValid && after.revision = before.revision + 1 && after.revision ≤ maxInt64 &&
    (!before.started || after.started)) .invalid
  require (ops.any fun o => o.id = before.id && o.revision = before.revision) .changed
  pure (ops.map fun o => if o.id = before.id then after else o)

/-- The end of an operation, up to the row. -/
def finished (o : Operation) (status : OperationStatus) (effect : Effect) (now : ℤ) :
    Except Err Operation :=
  if o.status.terminal then .error .changed
  else match o.transition status now with
    | none => .error .invalid
    | some next => .ok { next with effect }

/-- `finishControl`. -/
def finishControl (ops : List Operation) (before : Operation) (status : OperationStatus)
    (effect : Effect) (now : ℤ) : Except Err (List Operation) := do
  let after ← finished before status effect now
  saveOperation ops before after

/-- `insertOperation`; identifiers are unique. -/
def insertOperation (ops : List Operation) (o : Operation) : Except Err (List Operation) := do
  require (ops.all (·.id ≠ o.id)) .conflict
  pure (ops ++ [o])

/-! ### Observed evidence -/

/-- The end of a row as `saveOperation` accepts it. -/
def settledRow (o : Operation) (status : OperationStatus) (effect : Effect) (now : ℤ) :
    Except Err Operation := do
  let after ← finished o status effect now
  require (after.recordValid && after.revision ≤ maxInt64) .invalid
  pure after

/-- The evidence that ends a pending cancellation. -/
def cancellationResult : CancellationState → Option (OperationStatus × Effect)
  | .confirmed => some (.succeeded, .cancellationConfirmed)
  | .prevented => some (.succeeded, .dispatchPrevented)
  | .tooLate => some (.succeeded, .tooLate)
  | .manual => some (.manualRequired, .manualRequired)
  | _ => none

/-- The evidence that ends a pending reconciliation. -/
def reconciliationResult (j : Journal) (kind : Option Kind) : Option (OperationStatus × Effect) :=
  if j.phase = .attention then some (.manualRequired, .manualRequired)
  else if (kind = some .preparationSeen && !j.submitStarted && j.prepared.isSome) ||
      (kind = some .submissionSeen && j.remote.isSome) ||
      (kind = some .submissionAbsenceSeen && j.phase = .rejected) ||
      (kind = some .observationSeen && j.observation.any (·.execution ≠ .unknown)) then
    some (.succeeded, .observationRefreshed)
  else none

/-- One more poll of a request that is still open. -/
def polled (y : Records) (kind : Option Kind) (o : Operation) : Operation :=
  if kind = some .observationSeen && !y.attempt.state.execution.terminal &&
      (y.attempt.state.cancellation ≠ .manual || maxFailures ≤ o.polls + 1) then
    { o with polls := o.polls + 1 }
  else o

/-- The end of a row on some evidence; a submission found absent is named as such. -/
def settleOn (o : Operation) (resolved : Bool) (now : ℤ) :
    Option (OperationStatus × Effect) → Except Err Operation
  | none => .ok o
  | some (status, effect) =>
    settledRow o status (if resolved then .submissionResolvedAbsent else effect) now

/-- One round of `finishObservedOperations`, for the records that the evidence leaves behind. -/
def observedRow (y : Records) (kind : Option Kind) (now : ℤ) (o : Operation) :
    Except Err Operation :=
  let resolved := kind = some .submissionAbsenceSeen && y.current.phase = .rejected
  if !o.pending then .ok o
  else match o.kind with
    | .cancel =>
      settleOn (polled y kind o) resolved now (cancellationResult y.attempt.state.cancellation)
    | .reconcile => settleOn o resolved now (reconciliationResult y.current kind)
    | _ => .ok o

/-- `finishObservedOperations`, on the rows. -/
def observedRows (y : Records) (kind : Option Kind) (now : ℤ) (ops : List Operation) :
    Except Err (List Operation) :=
  ops.mapM (observedRow y kind now)

/-- The next poll is the last one a pending cancellation may ask for. -/
def exhausted (ops : List Operation) : Bool :=
  ops.any fun o => o.kind = .cancel && o.pending && maxFailures ≤ o.polls + 1

/-! ### The stop request -/

/-- What a worker commits about the one stop request it may send. -/
inductive CancellationAction
  | begin
  | code (c : ErrorCode)
  | outcome (status : CancellationState) (terminationConfirmed : Bool)
  deriving DecidableEq

/-- `CancellationOutcome.Validate`. -/
def outcomeValid (status : CancellationState) (terminationConfirmed : Bool) : Bool :=
  match status with
  | .confirmed => terminationConfirmed
  | .accepted | .tooLate | .manual => !terminationConfirmed
  | _ => false

/-- What an action reports to the records; `none` is refused. -/
def CancellationAction.report : CancellationAction → Option CancellationReport
  | .begin => some .begun
  | .code c =>
    if c = .remoteCancelUnsupported ∨
      c = .remoteExecutionUnresolved then some .unsupported else none
  | .outcome status confirmed =>
    if !outcomeValid status confirmed then none
    else match status with
      | .confirmed => some .confirmed
      | .manual => some .unsupported
      | _ => some .acknowledged

/-- The permit of an action: the stop request is sent once, and only then has an outcome. -/
def CancellationAction.permitted (o : Operation) : CancellationAction → Bool
  | .begin => !o.started && o.status = .accepted
  | .code _ => true
  | .outcome _ _ => o.started

/-- What an action does to the row of its operation. -/
def stoppedRows (ops : List Operation) (o : Operation) (now : ℤ) :
    CancellationAction → Except Err (List Operation)
  | .begin =>
    match o.transition .running now with
    | none => .error .invalid
    | some next =>
      saveOperation ops o { next with started := true, effect := .cancellationRequested }
  | .code _ => finishControl ops o .manualRequired .manualRequired now
  | .outcome .confirmed _ => finishControl ops o .succeeded .cancellationConfirmed now
  | .outcome .manual _ => finishControl ops o .manualRequired .manualRequired now
  | .outcome _ _ => .ok ops

/-- The evidence an action carries. -/
def CancellationAction.evidence : CancellationAction → Option Kind
  | .outcome .confirmed _ => some .observationSeen
  | _ => none

/-- `pendingCancellation`. -/
def pendingCancellation (ops : List Operation) : Option Operation :=
  ops.find? fun o => o.kind = .cancel && o.pending

/-! ### Admission -/

/-- A receipt of an admitted request, by its idempotency key. -/
structure OperationReceipt where
  kind : OperationKind
  key : String
  hash : String
  subject : String
  deriving DecidableEq

/-- `replayOperation`: whether the request was admitted before. -/
def replayOperation (receipts : List OperationReceipt) (kind : OperationKind) (key hash : String) :
    Except Err Bool :=
  match receipts.find? fun r => r.kind = kind && r.key = key with
  | none => .ok false
  | some r => if r.hash = hash then .ok true else .error .conflict

/-- The operation a new request of its kind joins. -/
def coalesced (ops : List Operation) (kind : OperationKind) : Option Operation :=
  if kind = .cancel then
    (ops.filter fun o => o.kind = .cancel && (o.status = .accepted || o.status = .running ||
      o.status = .succeeded || o.started)).getLast?
  else ops.find? fun o => o.kind = kind && o.pending

/-- Every other cancellation ended before the provider was asked, and there is one. -/
def uninvoked (ops : List Operation) (id : String) : Bool :=
  let others := ops.filter fun o => o.kind = .cancel && o.id ≠ id
  others.any (fun o => !o.started && (o.status = .failed || o.status = .manualRequired)) &&
  !others.any fun o => o.started || o.status = .accepted || o.status = .running ||
    o.status = .succeeded

/-- How admission leaves the row of a cancellation, from the records before and after it. -/
def cancellationSettled (x y : Records) : Option (OperationStatus × Effect) :=
  let s := x.attempt.state
  if s.orchestration.terminal then some (.succeeded, .tooLate)
  else if s.execution.terminal then
    some (.succeeded, if s.execution = .cancelled then .cancellationConfirmed else .tooLate)
  else if !x.current.submitStarted then some (.succeeded, .dispatchPrevented)
  -- a recovery path that cannot be reopened hands the request back at once
  else if y.attempt.state.cancellation = .manual then some (.manualRequired, .manualRequired)
  else none

/-- How admission leaves the row of a reconciliation. -/
def reconciliationSettled (x : Records) (resolution : Option (Resolution × String)) :
    Option (OperationStatus × Effect) :=
  let s := x.attempt.state
  if s.orchestration.terminal || s.execution.terminal then some (.succeeded, .observationRefreshed)
  else match resolution with
    | some (.absent, _) => some (.succeeded, .submissionResolvedAbsent)
    | _ => none

/-- The row of a new operation after its admission. -/
def admittedRow (ops : List Operation) (o : Operation) (now : ℤ) :
    Option (OperationStatus × Effect) → Except Err (List Operation)
  | none => .ok ops
  | some (status, effect) => finishControl ops o status effect now

/-- The records of an attempt with its operations. -/
structure Controlled where
  records : Records
  operations : List Operation := []
  receipts : List OperationReceipt := []
  deriving DecidableEq

/-- The transactions on an attempt and its operations. -/
inductive Command
  | work (q : Request)
  | commit (h : Handle) (a : Action)
  | stop (h : Handle) (id : String) (action : CancellationAction)
  | cancel (id : FreshID) (key hash : String)
  | hostHealthStop (id : FreshID)
  | reconcile (id : FreshID) (key hash : String) (resolution : Option (Resolution × String))

/-- The requests that go with rows of operations. -/
def Request.operational : Request → Bool
  | .commit .. | .cancelled .. | .cancel .. | .reconcile .. => true
  | _ => false

section Transactions

variable (c : Codec) (r : FrozenJob)

/-- A new cancellation, behind every check of its origin. -/
def newCancellation (x : Controlled) (id : FreshID) (now : ℤ) :
    Except Err (Records × List Operation) := do
  let o : Operation := { id := id.1, kind := .cancel, updatedAt := now }
  let ops ← insertOperation x.operations o
  let y ← admitCancellation c r x.records (uninvoked ops id.1) now
  let ops ← admittedRow ops o now (cancellationSettled x.records y)
  pure (y, ops)

/-- A new reconciliation. -/
def newReconciliation (x : Controlled) (id : FreshID) (resolution : Option (Resolution × String))
    (now : ℤ) : Except Err (Records × List Operation) := do
  let o : Operation := { id := id.1, kind := .reconcile, updatedAt := now }
  let ops ← insertOperation x.operations o
  let y ← admitReconciliation c r x.records resolution now
  let ops ← admittedRow ops o now (reconciliationSettled x.records resolution)
  pure (y, ops)

/-- `AdmitOperation`: a replay changes nothing, a request that joins another one only leaves a
receipt. -/
def admitOperation (x : Controlled) (kind : OperationKind) (id : FreshID) (key hash : String)
    (resolved : Bool) (now : ℤ) (create : Except Err (Records × List Operation)) :
    Except Err Controlled := do
  let seen ← replayOperation x.receipts kind key hash
  if seen then pure x
  else do
    require (x.records.attempt.updatedAt ≤ now) .corrupt
    match coalesced x.operations kind with
    | some o => do
      require (!resolved) .conflict
      pure { x with receipts := x.receipts ++ [⟨kind, key, hash, o.id⟩] }
    | none => do
      let (records, operations) ← create
      pure { records, operations, receipts := x.receipts ++ [⟨kind, key, hash, id.1⟩] }

/-- `CommitCancellation`. -/
def commitStop (x : Controlled) (h : Handle) (id : String) (action : CancellationAction) (now : ℤ) :
    Except Err Controlled :=
  match pendingCancellation x.operations, action.report with
  | some o, some report => do
    require (o.id = id) .dispatchConflict
    require (action.permitted o) .dispatchConflict
    let (records, _) ← commitCancellation c r x.records h report now
    let ops ← stoppedRows x.operations o now action
    let operations ← observedRows records action.evidence now ops
    pure { x with records, operations }
  | _, _ => .error .dispatchConflict

/-- The host is asked to stop an execution that may run, when nobody has asked before. -/
def requestHostHealthStop (x : Controlled) (id : FreshID) (now : ℤ) : Except Err Controlled := do
  require (x.records.attempt.state.cancellation = .notRequested && x.records.current.plan.isSome &&
    x.records.current.submitStarted && x.operations.all (·.kind ≠ .cancel)) .operationState
  let (records, operations) ← newCancellation c r x id now
  pure { x with records, operations }

/-- One transaction at a time the clock hands out. -/
def performCommand (x : Controlled) (now : ℤ) : Command → Except Err Controlled
  | .work q => do
    require (!q.operational) .invalid
    let (records, _) ← perform c r x.records now q
    pure { x with records }
  | .commit h a => do
    let (records, _) ← commitDispatch c r x.records h a (exhausted x.operations) now
    let operations ← observedRows records (some a.kind) now x.operations
    pure { x with records, operations }
  | .stop h id action => commitStop c r x h id action now
  | .cancel id key hash =>
    admitOperation x .cancel id key hash false now (newCancellation c r x id now)
  | .hostHealthStop id => requestHostHealthStop c r x id now
  | .reconcile id key hash resolution =>
    admitOperation x .reconcile id key hash resolution.isSome now
      (newReconciliation c r x id resolution now)

/-- A command and the reading of the wall clock it meets. -/
structure CommandTx where
  wall : ℤ
  command : Command

/-- One command under the clock of the store. -/
def Controlled.step (x : Controlled) (tx : CommandTx) : Option Controlled :=
  match write x.records.floor tx.wall with
  | .error _ => none
  | .ok (now, floor) =>
    (performCommand c r x now tx.command).toOption.map fun y =>
      { y with records := { y.records with floor } }

end Transactions

/-! ### The layer below -/

section Projection

variable {c : Codec} {r : FrozenJob} {x y : Controlled} {now : ℤ}

theorem step_of_perform {x y : Records} {wall floor : ℤ} {q : Request} {h? : Option Handle}
    (hw : write x.floor wall = .ok (now, floor)) (hp : perform c r x now q = .ok (y, h?)) :
    x.step c r ⟨wall, q⟩ = some { y with floor } := by
  refine step_eq_some.mpr ⟨h?, ?_⟩
  simp only [Records.transact, bind_eq_ok, pure_eq_ok, Prod.mk.injEq, Prod.exists]
  exact ⟨now, floor, hw, y, h?, hp, rfl, rfl⟩

theorem admitOperation_ok {kind : OperationKind} {id : FreshID} {key hash : String}
    {resolved : Bool} {create : Except Err (Records × List Operation)}
    (h : admitOperation x kind id key hash resolved now create = .ok y) :
    (y.records = x.records ∧ y.operations = x.operations) ∨
      (coalesced x.operations kind = none ∧ create = .ok (y.records, y.operations)) := by
  simp only [admitOperation, bind_eq_ok] at h
  obtain ⟨seen, -, h⟩ := h
  split_ifs at h
  · cases h
    exact Or.inl ⟨rfl, rfl⟩
  · simp only [bind_eq_ok] at h
    obtain ⟨-, -, h⟩ := h
    split at h
    · simp only [bind_eq_ok, pure_eq_ok] at h
      obtain ⟨-, -, rfl⟩ := h
      exact Or.inl ⟨rfl, rfl⟩
    · rename_i hnone
      simp only [bind_eq_ok, pure_eq_ok, Prod.exists] at h
      obtain ⟨records, ops, hcreate, rfl⟩ := h
      exact Or.inr ⟨hnone, hcreate⟩

theorem newCancellation_ok {id : FreshID} {records : Records} {ops : List Operation}
    (h : newCancellation c r x id now = .ok (records, ops)) :
    (∃ flag, admitCancellation c r x.records flag now = .ok records) ∧
      ∃ ops', insertOperation x.operations { id := id.1, kind := .cancel, updatedAt := now } =
        .ok ops' ∧
        admittedRow ops' { id := id.1, kind := .cancel, updatedAt := now } now
          (cancellationSettled x.records records) = .ok ops := by
  simp only [newCancellation, bind_eq_ok, pure_eq_ok, Prod.mk.injEq] at h
  obtain ⟨ops', hins, records', hperf, ops'', hrow, rfl, rfl⟩ := h
  exact ⟨⟨_, hperf⟩, ops', hins, hrow⟩

theorem newReconciliation_ok {id : FreshID} {resolution : Option (Resolution × String)}
    {records : Records} {ops : List Operation}
    (h : newReconciliation c r x id resolution now = .ok (records, ops)) :
    admitReconciliation c r x.records resolution now = .ok records ∧
      ∃ ops', insertOperation x.operations { id := id.1, kind := .reconcile, updatedAt := now } =
          .ok ops' ∧
        admittedRow ops' { id := id.1, kind := .reconcile, updatedAt := now } now
          (reconciliationSettled x.records resolution) = .ok ops := by
  simp only [newReconciliation, bind_eq_ok, pure_eq_ok, Prod.mk.injEq] at h
  obtain ⟨ops', hins, records', hperf, ops'', hrow, rfl, rfl⟩ := h
  exact ⟨hperf, ops', hins, hrow⟩

theorem commitStop_ok {h : Handle} {id : String} {action : CancellationAction}
    (hs : commitStop c r x h id action now = .ok y) :
    ∃ o report h' ops, pendingCancellation x.operations = some o ∧ action.permitted o = true ∧
      commitCancellation c r x.records h report now = .ok (y.records, h') ∧
      stoppedRows x.operations o now action = .ok ops ∧
      observedRows y.records action.evidence now ops = .ok y.operations := by
  unfold commitStop at hs
  split at hs
  · rename_i o report ho hreport
    simp only [bind_eq_ok, require_eq_ok, pure_eq_ok, Prod.exists] at hs
    obtain ⟨-, -, -, hpermit, records, h', hcommit, ops, hops, operations, hrows, rfl⟩ := hs
    exact ⟨o, report, h', ops, ho, hpermit, hcommit, hops, hrows⟩
  · cases hs

theorem requestHostHealthStop_ok {id : FreshID} (h : requestHostHealthStop c r x id now = .ok y) :
    (∀ o ∈ x.operations, o.kind ≠ .cancel) ∧
      newCancellation c r x id now = .ok (y.records, y.operations) := by
  simp only [requestHostHealthStop, bind_eq_ok, require_eq_ok, pure_eq_ok, Prod.exists,
    Bool.and_eq_true, List.all_eq_true, decide_eq_true_eq] at h
  obtain ⟨-, ⟨-, hnone⟩, records, ops, hnew, rfl⟩ := h
  exact ⟨hnone, hnew⟩

/-- A command changes no more of the records than the clock, or is a transaction of the layer
below. -/
theorem performCommand_records {k : Command} (h : performCommand c r x now k = .ok y) :
    y.records = x.records ∨ ∃ q h?, perform c r x.records now q = .ok (y.records, h?) := by
  cases k with
  | work q =>
    simp only [performCommand, bind_eq_ok, pure_eq_ok, Prod.exists] at h
    obtain ⟨-, -, records, h?, hp, rfl⟩ := h
    exact Or.inr ⟨q, h?, hp⟩
  | commit handle a =>
    simp only [performCommand, bind_eq_ok, pure_eq_ok, Prod.exists] at h
    obtain ⟨records, h', hc, ops, -, rfl⟩ := h
    exact Or.inr ⟨.commit handle a (exhausted x.operations),
      some h', by simp [perform, hc, issuing, Except.map]⟩
  | stop handle id action =>
    obtain ⟨o, report, h', ops, -, -, hc, -⟩ := commitStop_ok h
    exact Or.inr ⟨.cancelled handle report, some h', by simp [perform, hc, issuing, Except.map]⟩
  | cancel id key hash =>
    rcases admitOperation_ok h with ⟨hr, -⟩ | ⟨-, hnew⟩
    · exact Or.inl hr
    · obtain ⟨⟨flag, hperf⟩, -⟩ := newCancellation_ok hnew
      exact Or.inr ⟨.cancel flag, none, by simp [perform, hperf, silent, Except.map]⟩
  | hostHealthStop id =>
    obtain ⟨-, hnew⟩ := requestHostHealthStop_ok h
    obtain ⟨⟨flag, hperf⟩, -⟩ := newCancellation_ok hnew
    exact Or.inr ⟨.cancel flag, none, by simp [perform, hperf, silent, Except.map]⟩
  | reconcile id key hash resolution =>
    rcases admitOperation_ok h with ⟨hr, -⟩ | ⟨-, hnew⟩
    · exact Or.inl hr
    · obtain ⟨hperf, -⟩ := newReconciliation_ok hnew
      exact Or.inr ⟨.reconcile resolution, none, by simp [perform, hperf, silent, Except.map]⟩

theorem step_ok {tx : CommandTx} (h : x.step c r tx = some y) :
    ∃ now z, write x.records.floor tx.wall = .ok (now, y.records.floor) ∧
      performCommand c r x now tx.command = .ok z ∧
      y = { z with records := { z.records with floor := y.records.floor } } := by
  unfold Controlled.step at h
  split at h
  · cases h
  · rename_i now floor hw
    obtain ⟨z, hz, rfl⟩ := Option.map_eq_some_iff.mp h
    exact ⟨now, z, hw, toOption_eq_some hz, rfl⟩

/-- **Projection.** The records of a controlled attempt run on the machine of the layer below. -/
theorem step_records {tx : CommandTx} (h : x.step c r tx = some y) :
    y.records = { x.records with floor := y.records.floor } ∨
      ∃ q, x.records.step c r ⟨tx.wall, q⟩ = some y.records := by
  obtain ⟨now, z, hw, hz, hy⟩ := step_ok h
  rcases performCommand_records hz with hrecords | ⟨q, h?, hp⟩
  · refine Or.inl ?_
    rw [hy, hrecords]
  · refine Or.inr ⟨q, ?_⟩
    rw [step_of_perform hw hp, hy]

end Projection

/-! ### How rows change -/

/-- A later state of a row: a request that never reached the provider stays as it ended, and a stop
request that was sent stays sent. -/
structure Operation.Evolves (o o' : Operation) : Prop where
  id : o'.id = o.id
  kind : o'.kind = o.kind
  spent : o.spent = true → o'.spent = true
  started : o.started = true → o'.started = true
  begun : o'.started = true → o.started = true ∨ o.kind = .cancel

theorem Operation.Evolves.refl (o : Operation) : o.Evolves o :=
  ⟨rfl, rfl, fun h => h, fun h => h, Or.inl⟩

theorem Operation.Evolves.trans {a b d : Operation} (h : a.Evolves b) (h' : b.Evolves d) :
    a.Evolves d where
  id := h'.id.trans h.id
  kind := h'.kind.trans h.kind
  spent hs := h'.spent (h.spent hs)
  started hs := h'.started (h.started hs)
  begun hs := by
    rcases h'.begun hs with hb | hb
    · exact h.begun hb
    · exact Or.inr (h.kind ▸ hb)

/-- Row by row a later state. -/
def Evolved (ops ops' : List Operation) : Prop := List.Forall₂ Operation.Evolves ops ops'

theorem Evolved.refl (ops : List Operation) : Evolved ops ops :=
  List.forall₂_same.mpr fun o _ => .refl o

theorem Evolved.trans {a b d : List Operation} (h : Evolved a b) (h' : Evolved b d) :
    Evolved a d := by
  induction h generalizing d with
  | nil =>
    cases h'
    exact .nil
  | cons hab _ ih =>
    cases h' with
    | cons hbd htail => exact .cons (hab.trans hbd) (ih htail)

section Rows

variable {ops ops' : List Operation} {o after : Operation} {now : ℤ}

theorem finished_ok {status : OperationStatus} {effect : Effect}
    (h : finished o status effect now = .ok after) : o.pending = true ∧ after.id = o.id ∧
      after.kind = o.kind ∧ after.started = o.started ∧ after.status = status := by
  unfold finished at h
  split_ifs at h with hterm
  split at h
  · cases h
  · rename_i next hnext
    unfold Operation.transition at hnext
    split_ifs at hnext
    cases hnext
    cases h
    exact ⟨by simpa [Operation.pending] using hterm, rfl, rfl, rfl, rfl⟩

theorem Operation.spent_of_pending (h : o.pending = true) : o.spent = false := by
  unfold Operation.pending OperationStatus.terminal at h
  unfold Operation.spent
  cases hs : o.status <;> simp_all

theorem evolves_finished {status : OperationStatus} {effect : Effect}
    (h : finished o status effect now = .ok after) : o.Evolves after := by
  obtain ⟨hpending, hid, hkind, hstarted, -⟩ := finished_ok h
  refine ⟨hid, hkind, fun hs => ?_, fun hs => hstarted.trans hs, fun hs => Or.inl (hstarted ▸ hs)⟩
  rw [Operation.spent_of_pending hpending] at hs
  cases hs

/-- Rows are selected by an identifier that no two of them share. -/
theorem evolved_save (hid : (ops.map (·.id)).Nodup) (ho : o ∈ ops) (he : o.Evolves after)
    (h : saveOperation ops o after = .ok ops') : Evolved ops ops' := by
  simp only [saveOperation, bind_eq_ok, pure_eq_ok] at h
  obtain ⟨-, -, -, -, rfl⟩ := h
  refine List.forall₂_map_right_iff.mpr (List.forall₂_same.mpr fun p hp => ?_)
  split_ifs with hsame
  · obtain rfl : p = o := List.inj_on_of_nodup_map hid hp ho hsame
    exact he
  · exact .refl p

theorem evolved_finish {status : OperationStatus} {effect : Effect} (hid : (ops.map (·.id)).Nodup)
    (ho : o ∈ ops) (h : finishControl ops o status effect now = .ok ops') : Evolved ops ops' := by
  simp only [finishControl, bind_eq_ok] at h
  obtain ⟨after, hafter, hsave⟩ := h
  exact evolved_save hid ho (evolves_finished hafter) hsave

theorem evolves_settled {status : OperationStatus} {effect : Effect}
    (h : settledRow o status effect now = .ok after) : o.Evolves after := by
  simp only [settledRow, bind_eq_ok, pure_eq_ok] at h
  obtain ⟨a, ha, -, -, rfl⟩ := h
  exact evolves_finished ha

theorem evolves_polled (y : Records) (kind : Option Kind) (o : Operation) :
    o.Evolves (polled y kind o) := by
  unfold polled
  split_ifs
  · exact ⟨rfl, rfl, id, id, Or.inl⟩
  · exact .refl o

theorem evolves_settleOn {resolved : Bool} {result : Option (OperationStatus × Effect)}
    (h : settleOn o resolved now result = .ok after) : o.Evolves after := by
  cases result with
  | none =>
    cases h
    exact .refl o
  | some result => exact evolves_settled h

theorem evolves_observed {y : Records} {kind : Option Kind}
    (h : observedRow y kind now o = .ok after) : o.Evolves after := by
  simp only [observedRow] at h
  split_ifs at h
  · cases h
    exact .refl o
  · split at h
    · exact (evolves_polled y kind o).trans (evolves_settleOn h)
    · exact evolves_settleOn h
    · cases h
      exact .refl o

theorem mapM_eq_ok {α β : Type} {f : α → Except Err β} {l : List α} {l' : List β}
    (h : l.mapM f = .ok l') : List.Forall₂ (fun a b => f a = .ok b) l l' := by
  induction l generalizing l' with
  | nil =>
    cases h
    exact .nil
  | cons a l ih =>
    simp only [List.mapM_cons, bind_eq_ok, pure_eq_ok] at h
    obtain ⟨b, hb, bs, hbs, rfl⟩ := h
    exact .cons hb (ih hbs)

theorem evolved_observed {y : Records} {kind : Option Kind}
    (h : observedRows y kind now ops = .ok ops') : Evolved ops ops' :=
  (mapM_eq_ok h).imp fun _ _ => evolves_observed

end Rows

/-! ### One permit -/

/-- At most the last cancellation may still reach the provider, or has. -/
structure OnePermit (ops : List Operation) : Prop where
  ids : (ops.map (·.id)).Nodup
  replaced : ops.Pairwise fun a b => a.kind = .cancel → b.kind = .cancel → a.spent = true
  cancels : ∀ o ∈ ops, o.started = true → o.kind = .cancel

/-- The stop request was sent. -/
def Invoked (ops : List Operation) : Prop := ∃ o ∈ ops, o.started = true

section Permit

variable {ops ops' : List Operation} {o : Operation} {now : ℤ}

theorem Evolved.exists_of_mem (h : Evolved ops ops') {p : Operation} (hp : p ∈ ops') :
    ∃ o ∈ ops, o.Evolves p := by
  induction h with
  | nil => cases hp
  | cons hab _ ih =>
    rcases List.mem_cons.mp hp with rfl | hp
    · exact ⟨_, by simp, hab⟩
    · obtain ⟨o, ho, hop⟩ := ih hp
      exact ⟨o, by simp [ho], hop⟩

theorem Evolved.map_id (h : Evolved ops ops') : ops'.map (·.id) = ops.map (·.id) := by
  induction h with
  | nil => rfl
  | cons hab _ ih => simp [hab.id, ih]

theorem Evolved.replaced (h : Evolved ops ops')
    (hp : ops.Pairwise fun a b => a.kind = .cancel → b.kind = .cancel → a.spent = true) :
    ops'.Pairwise fun a b => a.kind = .cancel → b.kind = .cancel → a.spent = true := by
  induction h with
  | nil => exact .nil
  | cons hab htail ih =>
    rw [List.pairwise_cons] at hp ⊢
    refine ⟨fun p hmem hk hk' => ?_, ih hp.2⟩
    obtain ⟨q, hq, hqp⟩ := Evolved.exists_of_mem htail hmem
    exact hab.spent (hp.1 q hq (hab.kind ▸ hk) (hqp.kind ▸ hk'))

/-- **Step lemma** for rows that only evolve. -/
theorem OnePermit.evolved (h : OnePermit ops) (he : Evolved ops ops') : OnePermit ops' where
  ids := he.map_id ▸ h.ids
  replaced := he.replaced h.replaced
  cancels p hp hs := by
    obtain ⟨o, ho, hop⟩ := he.exists_of_mem hp
    rw [hop.kind]
    rcases hop.begun hs with hs' | hk
    · exact h.cancels o ho hs'
    · exact hk

theorem Invoked.evolved (h : Invoked ops) (he : Evolved ops ops') : Invoked ops' := by
  induction he with
  | nil => exact h
  | cons hab _ ih =>
    obtain ⟨o, ho, hs⟩ := h
    rcases List.mem_cons.mp ho with rfl | ho
    · exact ⟨_, by simp, hab.started hs⟩
    · obtain ⟨p, hp, hps⟩ := ih ⟨o, ho, hs⟩
      exact ⟨p, by simp [hp], hps⟩

theorem insertOperation_ok (h : insertOperation ops o = .ok ops') :
    (∀ p ∈ ops, p.id ≠ o.id) ∧ ops' = ops ++ [o] := by
  simp only [insertOperation, bind_eq_ok, require_eq_ok, pure_eq_ok, List.all_eq_true,
    decide_eq_true_eq] at h
  obtain ⟨-, hfresh, rfl⟩ := h
  exact ⟨hfresh, rfl⟩

/-- **Step lemma** for a new row: a cancellation is admitted when every earlier one is spent. -/
theorem OnePermit.insert (h : OnePermit ops) (hins : insertOperation ops o = .ok ops')
    (hstarted : o.started = false)
    (hspent : o.kind = .cancel → ∀ p ∈ ops, p.kind = .cancel → p.spent = true) :
    OnePermit ops' := by
  obtain ⟨hfresh, rfl⟩ := insertOperation_ok hins
  refine ⟨?_, ?_, ?_⟩
  · rw [List.map_append, List.nodup_append]
    refine ⟨h.ids, by simp, ?_⟩
    simp only [List.mem_map, List.map_cons, List.map_nil, List.mem_singleton]
    rintro - ⟨p, hp, rfl⟩ - rfl
    exact hfresh p hp
  · rw [List.pairwise_append]
    refine ⟨h.replaced, by simp, fun a ha b hb hk hk' => ?_⟩
    obtain rfl := List.mem_singleton.mp hb
    exact hspent hk' a ha hk
  · intro p hp hs
    rcases List.mem_append.mp hp with hp | hp
    · exact h.cancels p hp hs
    · obtain rfl := List.mem_singleton.mp hp
      rw [hstarted] at hs
      cases hs

/-- A new row and its end. -/
theorem OnePermit.admitted {result : Option (OperationStatus × Effect)} {rows : List Operation}
    (h : OnePermit ops) (hins : insertOperation ops o = .ok ops') (hstarted : o.started = false)
    (hspent : o.kind = .cancel → ∀ p ∈ ops, p.kind = .cancel → p.spent = true)
    (hrow : admittedRow ops' o now result = .ok rows) :
    OnePermit rows ∧ (Invoked ops → Invoked rows) := by
  have hpermit := h.insert hins hstarted hspent
  have hmem : o ∈ ops' := by simp [(insertOperation_ok hins).2]
  have hevolved : Evolved ops' rows := by
    cases result with
    | none =>
      cases hrow
      exact .refl ops'
    | some result => exact evolved_finish hpermit.ids hmem hrow
  refine ⟨hpermit.evolved hevolved, fun ⟨p, hp, hs⟩ => Invoked.evolved ⟨p, ?_, hs⟩ hevolved⟩
  simp [(insertOperation_ok hins).2, hp]

/-- A cancellation that joins no other one meets only spent ones. -/
theorem spent_of_coalesced (h : coalesced ops .cancel = none) :
    ∀ p ∈ ops, p.kind = .cancel → p.spent = true := by
  intro p hp hk
  simp only [coalesced, if_true, List.getLast?_eq_none_iff, List.filter_eq_nil_iff] at h
  have hnot := h p hp
  unfold Operation.spent
  cases hs : p.status <;> simp_all

theorem pendingCancellation_mem (h : pendingCancellation ops = some o) :
    o ∈ ops ∧ o.kind = .cancel ∧ o.pending = true := by
  have hpred := List.find?_some h
  simp only [Bool.and_eq_true, decide_eq_true_eq] at hpred
  exact ⟨List.mem_of_find?_eq_some h, hpred⟩

theorem evolved_stopped {action : CancellationAction} (h : OnePermit ops) (ho : o ∈ ops)
    (hk : o.kind = .cancel) (hp : o.pending = true)
    (hs : stoppedRows ops o now action = .ok ops') : Evolved ops ops' := by
  cases action with
  | begin =>
    simp only [stoppedRows] at hs
    split at hs
    · cases hs
    · rename_i next hnext
      unfold Operation.transition at hnext
      split_ifs at hnext
      cases hnext
      refine evolved_save h.ids ho ?_ hs
      refine ⟨rfl, rfl, fun hspent => ?_, fun _ => rfl, fun _ => Or.inr hk⟩
      rw [Operation.spent_of_pending hp] at hspent
      cases hspent
  | code code => exact evolved_finish h.ids ho hs
  | outcome status confirmed =>
    cases status with
    | confirmed | manual => exact evolved_finish h.ids ho hs
    | _ =>
      cases hs
      exact .refl ops

theorem OnePermit.not_invoked (h : OnePermit ops) (ho : o ∈ ops) (hk : o.kind = .cancel)
    (hp : o.pending = true) (hs : o.started = false) : ¬Invoked ops := by
  rintro ⟨p, hmem, hstarted⟩
  have hpk := h.cancels p hmem hstarted
  have hpspent : p.spent = false := by simp [Operation.spent, hstarted]
  have hospent := Operation.spent_of_pending hp
  obtain ⟨i, hi, rfl⟩ := List.getElem_of_mem ho
  obtain ⟨j, hj, rfl⟩ := List.getElem_of_mem hmem
  have hpair := List.pairwise_iff_getElem.mp h.replaced
  -- whichever of the two rows is the older one would be spent
  rcases Nat.lt_trichotomy i j with hij | hij | hij
  · rw [hpair i j hi hj hij hk hpk] at hospent
    cases hospent
  · subst hij
    rw [hs] at hstarted
    cases hstarted
  · rw [hpair j i hj hi hij hpk hk] at hpspent
    cases hpspent

theorem invoked_of_begin (ho : o ∈ ops) (hs : stoppedRows ops o now .begin = .ok ops') :
    Invoked ops' := by
  simp only [stoppedRows] at hs
  split at hs
  · cases hs
  · simp only [saveOperation, bind_eq_ok, pure_eq_ok] at hs
    obtain ⟨-, -, -, -, rfl⟩ := hs
    exact ⟨_, List.mem_map_of_mem ho, by simp⟩

end Permit

section Result

variable {c : Codec} {r : FrozenJob} {x y : Controlled} {now : ℤ}

/-- **Step lemma.** Every command keeps the permit, and a sent stop request stays sent. -/
theorem performCommand_permit {k : Command} (h : OnePermit x.operations)
    (hk : performCommand c r x now k = .ok y) :
    OnePermit y.operations ∧ (Invoked x.operations → Invoked y.operations) := by
  cases k with
  | work q =>
    simp only [performCommand, bind_eq_ok, pure_eq_ok, Prod.exists] at hk
    obtain ⟨-, -, records, h?, -, rfl⟩ := hk
    exact ⟨h, fun hi => hi⟩
  | commit handle a =>
    simp only [performCommand, bind_eq_ok, pure_eq_ok, Prod.exists] at hk
    obtain ⟨records, h', -, ops, hrows, rfl⟩ := hk
    have he := evolved_observed hrows
    exact ⟨h.evolved he, fun hi => hi.evolved he⟩
  | stop handle id action =>
    obtain ⟨o, report, h', ops, hpending, -, -, hstop, hrows⟩ := commitStop_ok hk
    obtain ⟨ho, hkind, hp⟩ := pendingCancellation_mem hpending
    have he := (evolved_stopped h ho hkind hp hstop).trans (evolved_observed hrows)
    exact ⟨h.evolved he, fun hi => hi.evolved he⟩
  | cancel id key hash =>
    rcases admitOperation_ok hk with ⟨-, hops⟩ | ⟨hnone, hnew⟩
    · rw [hops]
      exact ⟨h, fun hi => hi⟩
    · obtain ⟨-, ops', hins, hrow⟩ := newCancellation_ok hnew
      exact h.admitted hins rfl (fun _ => spent_of_coalesced hnone) hrow
  | hostHealthStop id =>
    obtain ⟨hnone, hnew⟩ := requestHostHealthStop_ok hk
    obtain ⟨-, ops', hins, hrow⟩ := newCancellation_ok hnew
    exact h.admitted hins rfl (fun _ p hp hpk => absurd hpk (hnone p hp)) hrow
  | reconcile id key hash resolution =>
    rcases admitOperation_ok hk with ⟨-, hops⟩ | ⟨-, hnew⟩
    · rw [hops]
      exact ⟨h, fun hi => hi⟩
    · obtain ⟨-, ops', hins, hrow⟩ := newReconciliation_ok hnew
      exact h.admitted hins rfl (fun hcancel => by cases hcancel) hrow

/-- The commands that send the stop request. -/
def Command.begins : Command → Bool
  | .stop _ _ .begin => true
  | _ => false

/-- The stop request is sent where none was, and is on record from then on. -/
theorem performCommand_begins {k : Command} (h : OnePermit x.operations)
    (hk : performCommand c r x now k = .ok y) (hb : k.begins = true) :
    ¬Invoked x.operations ∧ Invoked y.operations := by
  unfold Command.begins at hb
  split at hb
  · obtain ⟨o, report, h', ops, hpending, hpermit, -, hstop, hrows⟩ := commitStop_ok hk
    obtain ⟨ho, hkind, hp⟩ := pendingCancellation_mem hpending
    simp only [CancellationAction.permitted, Bool.and_eq_true, Bool.not_eq_true'] at hpermit
    exact ⟨h.not_invoked ho hkind hp hpermit.1,
      (invoked_of_begin ho hstop).evolved (evolved_observed hrows)⟩
  · cases hb

/-- **At most one stop request.** Over the whole history of an attempt, whatever cancellations are
admitted, replaced, polled or handed back, the worker that is told to ask the provider to stop is
told so at most once. -/
theorem one_stop_invocation (c : Codec) (r : FrozenJob) (now : ℤ) (txs : List CommandTx) :
    (Run.accepted (Controlled.step c r) { records := admitted now } txs).countP
      (fun tx => tx.command.begins) ≤ 1 := by
  refine (Run.accepted_countP_le_one_of (P := fun x : Controlled => OnePermit x.operations)
    (q := fun x : Controlled => Invoked x.operations) ⟨by simp, by simp, by simp⟩ ?_ ?_ ?_ txs).1
  · intro x tx y hx hs
    obtain ⟨now, z, -, hz, hy⟩ := step_ok hs
    rw [hy]
    exact (performCommand_permit hx hz).1
  · intro x tx y hx hs hb
    obtain ⟨now, z, -, hz, hy⟩ := step_ok hs
    have hz := performCommand_begins hx hz hb
    rw [hy]
    exact hz
  · intro x tx y hx hs hi
    obtain ⟨now, z, -, hz, hy⟩ := step_ok hs
    rw [hy]
    exact (performCommand_permit hx hz).2 hi

/-- The commands that run the sample to a submitted attempt, cancel it twice under different keys
(the second request joins the first) and ask for the stop twice. -/
def sampleCancelled : List CommandTx :=
  ([.work (.authorize "attempt" 10 sampleID), .work sampleLease.request,
    .work (.consume sampleHandle),
    .commit ⟨sampleClaim 2, 0⟩
      { kind := .beginPreparation, plan := some samplePlan, preparationID := "intent" },
    .commit ⟨sampleClaim 2, 1⟩ { kind := .preparationSeen, prepared := some samplePrepared },
    .commit ⟨sampleClaim 2, 2⟩ { kind := .beginSubmission },
    .commit ⟨sampleClaim 3, 3⟩
      { kind := .submissionSeen,
        submission := some { status := .accepted, remote := some sampleRemote } },
    .cancel sampleID "key" "hash", .cancel sampleID "other" "hash",
    .stop ⟨sampleClaim 5, 4⟩ "authorization" .begin,
    .stop ⟨sampleClaim 6, 4⟩ "authorization" .begin] : List Command).map fun k => ⟨0, k⟩

-- only the first of the two requests to stop is accepted
example : ((Run.accepted (Controlled.step sampleEncoders (sampleJob false))
    { records := admitted 0 } sampleCancelled).map fun tx => tx.command.begins) =
    List.replicate 9 false ++ [true] := by
  decide +kernel

end Result

end Store
end ComputeRelay
