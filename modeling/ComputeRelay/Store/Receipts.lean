import Mathlib.Tactic
import ComputeRelay.Lib.Run
import ComputeRelay.Store.Operations

/-!
# Operations and receipts of the whole store

The tables `operations` and `receipts` with every transaction that writes them: `AdmitOperation` and
`admitCleanupOperation` (`internal/store/sqlite/operations_admission.go`), the first collection
ticket (`ensureInitialCollection`, `collection.go`), the cleanup that a retention rule schedules
(`ScheduleRetention`, `remote_retention.go`), the stop of a critical host (`host_health_stop.go`),
and `saveOperation` (`operations_records.go`), through which every other transaction changes a row.

A key is one of a workspace and a kind, so these tables are those of all jobs and attempts. What a
transaction reads in other tables is its `Reads`, and nothing is assumed about it: the checks may
refuse, and a new operation may be settled at once, in every way.

* `step` is one transaction, `Sound` the invariant of the tables.
* `requests_idempotent`: the answers to one key are one operation, another request under it is a
  conflict, receipts stay as they are, and an attempt has at most one pending operation of a kind.

The unique index over pending operations is not part of the model: the result does not depend on it.
-/

namespace ComputeRelay
namespace Store
namespace Receipts

open Text Domain Provider Scheduler Dispatch Fallible

/-! ### Requests -/

structure Request where
  attemptID : String
  reason : String := ""
  discardUncollected : Bool := false
  submissionResolution : String := ""
  resourceName : String := ""
  deriving DecidableEq

/-- `unicode.IsControl`. -/
def isControl (c : Char) : Bool := c.toNat < 32 || (127 ≤ c.toNat && c.toNat < 160)

def Request.validate (r : Request) (kind : OperationKind) : Bool :=
  ((r.submissionResolution = "" && r.resourceName = "") ||
    (kind = .reconcile &&
      (r.submissionResolution = "absent" || r.submissionResolution = "present") &&
      validResourceName r.resourceName)) &&
  validOpaqueID r.attemptID && r.reason.utf8ByteSize ≤ 512 &&
  r.reason.toList.all (fun c => !isControl c) &&
  (kind = .cleanup || !r.discardUncollected) && (kind ≠ .retryCompute || !blank r.reason)

structure Command where
  workspaceID : String
  tokenID : String
  jobID : String
  kind : OperationKind
  request : Request
  keyDigest : String
  requestHash : String
  /-- The inputs of a retry are given. -/
  inputs : Bool := false
  limitsValid : Bool := true
  deriving DecidableEq

/-- The attempt of an operation. -/
structure Target where
  workspaceID : String
  jobID : String
  attemptID : String
  deriving DecidableEq

def Command.target (c : Command) : Target := ⟨c.workspaceID, c.jobID, c.request.attemptID⟩

/-- `Command.Validate`; `digest` is `Request.Digest`. -/
def Command.validate (digest : String → OperationKind → Request → String) (c : Command) : Bool :=
  validOpaqueID c.jobID && c.request.validate c.kind &&
  digest c.jobID c.kind c.request = c.requestHash &&
  validOpaqueID c.workspaceID && c.tokenID ≠ "" && validSHA256Digest c.keyDigest && c.limitsValid &&
  decide (c.kind = .retryCompute) = c.inputs

/-- The columns that select a receipt of the namespace `operation`. -/
structure Key where
  workspaceID : String
  kind : OperationKind
  key : String
  deriving DecidableEq

def Command.receiptKey (c : Command) : Key := ⟨c.workspaceID, c.kind, c.keyDigest⟩

/-! ### Tables -/

/-- A row of `operations`. -/
structure Row where
  target : Target
  operation : Operation
  deriving DecidableEq

def Row.workspaceID (r : Row) : String := r.target.workspaceID

def Row.pending (r : Row) : Bool := r.operation.pending

/-- The row is a pending operation of this kind for this attempt. -/
def Row.pendingFor (t : Target) (kind : OperationKind) (r : Row) : Bool :=
  r.target = t && r.operation.kind = kind && r.pending

structure Receipt where
  key : Key
  requestHash : String
  /-- The record as it was when it was saved. -/
  saved : Row
  deriving DecidableEq

structure Tables where
  operations : List Row := []
  receipts : List Receipt := []
  deriving DecidableEq

/-- What the transaction reads elsewhere, and what it draws from the clock and the random source. -/
structure Reads where
  now : ℤ
  id : FreshID
  /-- `actorInTx` -/
  actor : Except Err Unit
  /-- `schedulerControl`, `controlTarget`, `actionableAttempt` and the clock of the attempt. -/
  target : Except Err Unit
  /-- The deadline and the inputs of a retry, and `controlLimit`. -/
  limits : Except Err Unit
  /-- `eligibleCleanup`, but for the pending operations, and `snapshotCleanupResources`. -/
  eligible : Except Err Unit
  /-- The results were not collected. -/
  uncollected : Bool
  /-- How the action leaves the new operation: accepted, or settled at once. -/
  outcome : Except Err (Option (OperationStatus × Effect))

namespace Tables

/-! ### Receipts -/

/-- `replayOrCreate`: the saved receipt of the key, or the table with a new one. -/
def replayOrCreate (receipts : List Receipt) (key : Key) (hash : String) (creation : Option Row) :
    Except Err (Option Row × List Receipt) :=
  match receipts.find? (·.key = key) with
  | some r => if r.requestHash = hash then .ok (some r.saved, receipts) else .error .conflict
  | none =>
    match creation with
    | none => .ok (none, receipts)
    | some row => .ok (none, receipts ++ [⟨key, hash, row⟩])

/-- `loadOperation`; the identifier of an operation is one of its workspace. -/
def loadOperation (x : Tables) (w id : String) : Except Err Row :=
  match x.operations.find? fun r => r.workspaceID = w && r.operation.id = id with
  | some r => .ok r
  | none => .error .notFound

/-- `replayOperation`. -/
def replayOperation (x : Tables) (key : Key) (hash : String) : Except Err (Option Row) := do
  let (prior, _) ← replayOrCreate x.receipts key hash none
  match prior with
  | none => pure none
  | some saved => do
    require (saved.workspaceID = key.workspaceID && saved.operation.kind = key.kind) .corrupt
    match x.loadOperation key.workspaceID saved.operation.id with
    | .error .notFound => .error .corrupt
    | .error e => .error e
    | .ok current => do
      require (current.target = saved.target) .corrupt
      pure (some saved)

/-- `saveOperationReceipt`; a receipt that was there already is not reported. -/
def saveOperationReceipt (x : Tables) (c : Command) (row : Row) : Except Err Tables := do
  let (_, receipts) ← replayOrCreate x.receipts c.receiptKey c.requestHash (some row)
  pure { x with receipts }

/-! ### Rows -/

/-- `insertOperation`; the identifier is unique in the workspace. -/
def insertOperation (x : Tables) (row : Row) : Except Err Tables := do
  require (row.operation.recordValid && row.operation.revision = 1 &&
    row.operation.status = .accepted) .invalid
  require (x.operations.all fun r =>
    r.workspaceID ≠ row.workspaceID || r.operation.id ≠ row.operation.id) .conflict
  pure { x with operations := x.operations ++ [row] }

/-- `saveOperation`, on a row that was loaded. -/
def saveOperation (x : Tables) (before after : Row) : Except Err Tables := do
  require (after.operation.recordValid &&
    after.operation.revision = before.operation.revision + 1 &&
    after.operation.revision ≤ maxInt64 && after.operation.id = before.operation.id &&
    after.target = before.target && after.operation.kind = before.operation.kind &&
    (!before.operation.started || after.operation.started)) .invalid
  require (operationTransitions before.operation.status after.operation.status &&
    before.operation.updatedAt ≤ after.operation.updatedAt) .invalid
  require (before ∈ x.operations) .changed
  pure { x with operations := x.operations.map fun r => if r = before then after else r }

/-- `finishControl`. -/
def finishControl (x : Tables) (before : Row) (status : OperationStatus) (effect : Effect)
    (now : ℤ) : Except Err (Tables × Row) := do
  require (!before.operation.status.terminal) .changed
  let after : Row := { before with operation := { before.operation with
    status, effect, revision := before.operation.revision + 1, updatedAt := now } }
  let x ← x.saveOperation before after
  pure (x, after)

/-- How the action of the kind leaves the row it was given. -/
def settle (x : Tables) (row : Row) (now : ℤ) :
    Option (OperationStatus × Effect) → Except Err (Tables × Row)
  | none => .ok (x, row)
  | some (status, effect) => x.finishControl row status effect now

/-! ### Admission -/

/-- What a coalesced request is answered with, and what it is not. -/
structure Answer where
  record : Row
  replay : Bool
  deriving DecidableEq

/-- The operations that a request of its kind joins. -/
def joins (kind : OperationKind) (o : Operation) : Bool :=
  match kind with
  | .cancel => o.status = .accepted || o.status = .running || o.status = .succeeded || o.started
  | .cleanup => o.status = .accepted || o.status = .running || o.status = .succeeded
  | _ => o.status = .accepted || o.status = .running

/-- The query for an operation to join: the latest one of a cancellation or a cleanup. -/
def existing (x : Tables) (t : Target) (kind : OperationKind) : Option Row :=
  let rows := x.operations.filter fun r =>
    r.target = t && r.operation.kind = kind && joins kind r.operation
  if kind = .cancel || kind = .cleanup then rows.getLast? else rows.head?

/-- A cleanup of the attempt is pending. -/
def cleaning (x : Tables) (t : Target) : Bool := x.operations.any (·.pendingFor t .cleanup)

def newRow (t : Target) (kind : OperationKind) (id : String) (now : ℤ) : Row where
  target := t
  operation := { id, kind, updatedAt := now
                 effect := if kind = .collect then .collectionRequested else .pending }

/-- The pending operations of `eligibleCleanupAttempt`. -/
def busy (x : Tables) (t : Target) (discard : Bool) : Bool :=
  x.operations.any fun r => r.target = t && r.pending && (r.operation.kind ≠ .collect || !discard)

/-- `discardPendingCollection`, on the rows. -/
def discardPendingCollection (x : Tables) (t : Target) (now : ℤ) : Except Err Tables :=
  match x.operations.find? (·.pendingFor t .collect) with
  | none => .ok x
  | some row => do
    let (x, _) ← x.finishControl row .failed .failed now
    pure x

/-- A cleanup that may lose results ends the collection of results that were not collected. -/
def discardedCollection (x : Tables) (c : Command) (q : Reads) : Except Err Tables :=
  if c.request.discardUncollected && q.uncollected then x.discardPendingCollection c.target q.now
  else .ok x

/-- `admitCleanupOperation`. -/
def admitCleanupOperation (x : Tables) (c : Command) (q : Reads) : Except Err (Tables × Row) := do
  require (c.kind = .cleanup) .invalid
  require (!x.busy c.target c.request.discardUncollected) .busy
  q.eligible
  let row := newRow c.target .cleanup q.id.1 q.now
  let x ← x.insertOperation row
  let x ← x.discardedCollection c q
  let x ← x.saveOperationReceipt c row
  pure (x, row)

/-- The action of a kind on its new operation. -/
def act (x : Tables) (c : Command) (q : Reads) : Except Err (Tables × Row) := do
  let row := newRow c.target c.kind q.id.1 q.now
  let x ← x.insertOperation row
  let outcome ← q.outcome
  let (x, row) ← x.settle row q.now outcome
  let x ← x.saveOperationReceipt c row
  pure (x, row)

def admitted (x : Tables) (c : Command) (q : Reads) : Except Err (Tables × Row) :=
  if c.kind = .cleanup then x.admitCleanupOperation c q else x.act c q

/-- `AdmitOperation`, for a key without a receipt. -/
def create (x : Tables) (c : Command) (q : Reads) : Except Err (Tables × Answer) := do
  q.target
  match x.existing c.target c.kind with
  | some row => do
    require (c.request.submissionResolution = "") .busy
    let x ← x.saveOperationReceipt c row
    pure (x, ⟨row, true⟩)
  | none => do
    require (!x.cleaning c.target) .busy
    q.limits
    let (x, row) ← x.admitted c q
    pure (x, ⟨row, false⟩)

section Machine

variable (digest : String → OperationKind → Request → String)

/-- `AdmitOperation`. -/
def admitOperation (x : Tables) (c : Command) (q : Reads) : Except Err (Tables × Answer) := do
  require (c.validate digest) .invalid
  q.actor
  let prior ← x.replayOperation c.receiptKey c.requestHash
  match prior with
  | some saved => pure (x, ⟨saved, true⟩)
  | none => x.create c q

/-- `ensureInitialCollection`, for the attempt that its query selects. -/
def ensureInitialCollection (x : Tables) (t : Target) (q : Reads) : Except Err Tables := do
  require (!x.operations.any fun r => r.target = t && r.operation.kind = .collect) .operationState
  q.target
  x.insertOperation (newRow t .collect q.id.1 q.now)

/-- The command of a retention rule; the key is a digest of the attempt and the rule. -/
def retentionCommand (t : Target) (uncollected : Bool) (key : String) : Command :=
  let request : Request :=
    { attemptID := t.attemptID, discardUncollected := uncollected, reason := "declared retention" }
  { workspaceID := t.workspaceID, tokenID := "retention_policy", jobID := t.jobID, kind := .cleanup
    request, keyDigest := key, requestHash := digest t.jobID .cleanup request }

/-- `ScheduleRetention`, for the due rule that it admits. No receipt is looked up first. -/
def scheduleRetention (x : Tables) (t : Target) (uncollected : Bool) (key : String) (q : Reads) :
    Except Err (Tables × Row) := do
  require (!x.operations.any fun r => r.target = t && r.operation.kind = .cleanup &&
    joins .cleanup r.operation) .operationState
  q.target
  let c := retentionCommand digest t uncollected key
  require (c.validate digest) .invalid
  x.admitCleanupOperation c q

/-- The stop of a critical host: a cancellation without a receipt, once for an attempt. -/
def hostCriticalStop (x : Tables) (t : Target) (q : Reads) : Except Err Tables := do
  q.target
  require (!x.operations.any fun r => r.target = t && (r.operation.kind = .cancel ||
    (r.operation.kind = .cleanup && r.pending))) .operationState
  let row := newRow t .cancel q.id.1 q.now
  let x ← x.insertOperation row
  let outcome ← q.outcome
  let (x, _) ← x.settle row q.now outcome
  pure x

end Machine

end Tables

inductive Transaction
  | request (c : Command) (q : Reads)
  | ticket (t : Target) (q : Reads)
  | retention (t : Target) (uncollected : Bool) (key : String) (q : Reads)
  | hostStop (t : Target) (q : Reads)
  | save (before after : Row)

/-- One transaction; `none` leaves the tables as they are. -/
def step (digest : String → OperationKind → Request → String) (x : Tables) :
    Transaction → Option Tables
  | .request c q => (x.admitOperation digest c q).toOption.map (·.1)
  | .ticket t q => (x.ensureInitialCollection t q).toOption
  | .retention t uncollected key q =>
    (x.scheduleRetention digest t uncollected key q).toOption.map (·.1)
  | .hostStop t q => (x.hostCriticalStop t q).toOption
  | .save before after => (x.saveOperation before after).toOption

/-! ### What a transaction does to the tables -/

/-- Two rows are one operation. -/
def Row.Same (r s : Row) : Prop :=
  r.target = s.target ∧ r.operation.id = s.operation.id ∧ r.operation.kind = s.operation.kind

/-- One change of a table. -/
inductive Edit (x : Tables) : Tables → Prop
  | insert (row : Row)
      (fresh : ∀ r ∈ x.operations, r.workspaceID ≠ row.workspaceID ∨
        r.operation.id ≠ row.operation.id)
      (free : ∀ r ∈ x.operations, r.pendingFor row.target row.operation.kind = false) :
      Edit x { x with operations := x.operations ++ [row] }
  | save (before after : Row) (same : after.Same before)
      (alive : after.pending = true → before.pending = true) (mem : before ∈ x.operations) :
      Edit x { x with operations := x.operations.map fun r => if r = before then after else r }
  | receipt (key : Key) (hash : String) (row : Row) (miss : ∀ r ∈ x.receipts, r.key ≠ key)
      (workspace : row.workspaceID = key.workspaceID) (kind : row.operation.kind = key.kind)
      (owner : ∃ r ∈ x.operations, row.Same r) :
      Edit x { x with receipts := x.receipts ++ [⟨key, hash, row⟩] }

/-- Changes one after another. -/
def Edits : Tables → Tables → Prop := Relation.ReflTransGen Edit

namespace Tables

variable {x y : Tables} {row : Row}

theorem insertOperation_ok (h : x.insertOperation row = .ok y)
    (free : ∀ r ∈ x.operations, r.pendingFor row.target row.operation.kind = false) :
    Edit x y ∧ row ∈ y.operations ∧ y.receipts = x.receipts := by
  simp only [insertOperation, bind_eq_ok, require_eq_ok, pure_eq_ok, List.all_eq_true,
    Bool.or_eq_true, decide_eq_true_eq] at h
  obtain ⟨-, -, -, fresh, rfl⟩ := h
  exact ⟨.insert row fresh free, List.mem_append_right _ (List.mem_singleton_self row), rfl⟩

/-- A status is left for a later one, and a terminal one for none. -/
theorem pending_of_transition {s t : OperationStatus} (h : operationTransitions s t = true) :
    s.terminal = false := by
  cases s <;> cases t <;> first | rfl | cases h

theorem saveOperation_ok {before after : Row} (h : x.saveOperation before after = .ok y) :
    Edit x y ∧ after.Same before ∧ y.receipts = x.receipts ∧
      y.operations = x.operations.map fun r => if r = before then after else r := by
  simp only [saveOperation, bind_eq_ok, require_eq_ok, pure_eq_ok, Bool.and_eq_true,
    decide_eq_true_eq] at h
  obtain ⟨-, ⟨⟨⟨⟨-, hid⟩, htarget⟩, hkind⟩, -⟩, -, ⟨htrans, -⟩, -, hmem, rfl⟩ := h
  have hsame : after.Same before := ⟨htarget, hid, hkind⟩
  refine ⟨.save before after hsame (fun _ => ?_) hmem, hsame, rfl, rfl⟩
  rw [Row.pending, Operation.pending, pending_of_transition htrans]
  rfl

theorem exists_same_save {before after r s : Row} (hsame : after.Same before) (hr : r.Same s)
    (hs : s ∈ x.operations) :
    ∃ s' ∈ x.operations.map fun r => if r = before then after else r, r.Same s' := by
  refine ⟨_, List.mem_map_of_mem hs, ?_⟩
  split_ifs with heq
  · subst heq
    exact ⟨hr.1.trans hsame.1.symm, hr.2.1.trans hsame.2.1.symm, hr.2.2.trans hsame.2.2.symm⟩
  · exact hr

theorem finishControl_ok {before after : Row} {status : OperationStatus} {effect : Effect} {now : ℤ}
    (h : x.finishControl before status effect now = .ok (y, after)) :
    Edit x y ∧ after.Same before ∧ y.receipts = x.receipts ∧
      y.operations = x.operations.map fun r => if r = before then after else r := by
  simp only [finishControl, bind_eq_ok, require_eq_ok, pure_eq_ok, Prod.mk.injEq] at h
  obtain ⟨-, -, z, hsave, rfl, rfl⟩ := h
  exact saveOperation_ok hsave

theorem settle_ok {after : Row} {now : ℤ} {outcome : Option (OperationStatus × Effect)}
    (hmem : row ∈ x.operations) (h : x.settle row now outcome = .ok (y, after)) :
    Edits x y ∧ after.Same row ∧ y.receipts = x.receipts ∧ ∃ r ∈ y.operations, after.Same r := by
  cases outcome with
  | none =>
    cases h
    exact ⟨.refl, ⟨rfl, rfl, rfl⟩, rfl, row, hmem, rfl, rfl, rfl⟩
  | some o =>
    obtain ⟨hedit, hsame, hreceipts, hops⟩ := finishControl_ok h
    exact ⟨.single hedit, hsame, hreceipts, hops ▸ exists_same_save hsame hsame hmem⟩

theorem discardPendingCollection_ok {t : Target} {now : ℤ} {r : Row}
    (hr : ∃ s ∈ x.operations, r.Same s) (h : x.discardPendingCollection t now = .ok y) :
    Edits x y ∧ y.receipts = x.receipts ∧ ∃ s ∈ y.operations, r.Same s := by
  unfold discardPendingCollection at h
  split at h
  · cases h
    exact ⟨.refl, rfl, hr⟩
  · simp only [bind_eq_ok, pure_eq_ok, Prod.exists] at h
    obtain ⟨z, after, hfinish, rfl⟩ := h
    obtain ⟨hedit, hsame, hreceipts, hops⟩ := finishControl_ok hfinish
    obtain ⟨s, hs, hrs⟩ := hr
    exact ⟨.single hedit, hreceipts, hops ▸ exists_same_save hsame hrs hs⟩

/-- The receipt of an answer is there, whether it was there before or not; a receipt of another
request is a conflict. -/
theorem saveOperationReceipt_ok {c : Command} (hworkspace : row.workspaceID = c.workspaceID)
    (hkind : row.operation.kind = c.kind) (howner : ∃ r ∈ x.operations, row.Same r)
    (h : x.saveOperationReceipt c row = .ok y) :
    Edits x y ∧ ∃ r ∈ y.receipts, r.key = c.receiptKey ∧ r.requestHash = c.requestHash ∧
      ((∀ s ∈ x.receipts, s.key ≠ c.receiptKey) → r.saved = row) := by
  simp only [saveOperationReceipt, bind_eq_ok, pure_eq_ok, Prod.exists] at h
  obtain ⟨prior, receipts, hsave, rfl⟩ := h
  unfold replayOrCreate at hsave
  split at hsave
  · rename_i r hfind
    split_ifs at hsave with hhash
    cases hsave
    have hkey : r.key = c.receiptKey := by simpa using List.find?_some hfind
    exact ⟨.refl, r, List.mem_of_find?_eq_some hfind, hkey, hhash,
      fun hmiss => absurd hkey (hmiss r (List.mem_of_find?_eq_some hfind))⟩
  · rename_i hfind
    cases hsave
    have hmiss : ∀ r ∈ x.receipts, r.key ≠ c.receiptKey := by simpa using hfind
    exact ⟨.single (.receipt c.receiptKey c.requestHash row hmiss hworkspace hkind howner),
      ⟨c.receiptKey, c.requestHash, row⟩, by simp, rfl, rfl, fun _ => rfl⟩

/-- The receipt that a request leaves: of its key and its hash, and of its answer where there was
none. -/
def Answered (x y : Tables) (c : Command) (row : Row) : Prop :=
  Edits x y ∧ ∃ r ∈ y.receipts, r.key = c.receiptKey ∧ r.requestHash = c.requestHash ∧
    ((∀ s ∈ x.receipts, s.key ≠ c.receiptKey) → r.saved = row)

theorem admitCleanupOperation_ok {c : Command} {q : Reads}
    (h : x.admitCleanupOperation c q = .ok (y, row)) : Answered x y c row := by
  simp only [admitCleanupOperation, bind_eq_ok, require_eq_ok, pure_eq_ok, Bool.not_eq_true',
    Prod.mk.injEq, decide_eq_true_eq] at h
  obtain ⟨-, hkind, -, hbusy, -, -, z, hinsert, u, hdiscard, v, hreceipt, rfl, rfl⟩ := h
  have free : ∀ r ∈ x.operations, r.pendingFor c.target .cleanup = false := by
    intro r hr
    rw [← Bool.not_eq_true]
    intro hpending
    simp only [Row.pendingFor, Bool.and_eq_true, decide_eq_true_eq] at hpending
    obtain ⟨⟨htarget, hcleanup⟩, hpending⟩ := hpending
    refine List.any_eq_false.mp hbusy r hr ?_
    simp [htarget, hcleanup, hpending]
  obtain ⟨hedit, hmem, hsame⟩ := insertOperation_ok hinsert free
  have hrow :
      (newRow c.target .cleanup q.id.1 q.now).Same (newRow c.target .cleanup q.id.1 q.now) :=
    ⟨rfl, rfl, rfl⟩
  obtain ⟨hedits, hsame', howner⟩ : Edits z u ∧ u.receipts = z.receipts ∧
      ∃ s ∈ u.operations, (newRow c.target .cleanup q.id.1 q.now).Same s := by
    unfold discardedCollection at hdiscard
    split_ifs at hdiscard
    · exact discardPendingCollection_ok ⟨_, hmem, hrow⟩ hdiscard
    · cases hdiscard
      exact ⟨.refl, rfl, _, hmem, hrow⟩
  obtain ⟨hlast, r, hr, hkey, hhash, hsaved⟩ :=
    saveOperationReceipt_ok rfl hkind.symm howner hreceipt
  refine ⟨(Relation.ReflTransGen.head hedit hedits).trans hlast, r, hr, hkey, hhash,
    fun hmiss => ?_⟩
  exact hsaved (by rwa [hsame', hsame])

theorem act_ok {c : Command} {q : Reads}
    (free : ∀ r ∈ x.operations, r.pendingFor c.target c.kind = false)
    (h : x.act c q = .ok (y, row)) : Answered x y c row := by
  simp only [act, bind_eq_ok, pure_eq_ok, Prod.exists, Prod.mk.injEq] at h
  obtain ⟨z, hinsert, outcome, -, u, after, hsettle, v, hreceipt, rfl, rfl⟩ := h
  obtain ⟨hedit, hmem, hsame⟩ := insertOperation_ok hinsert free
  obtain ⟨hedits, hafter, hsame', howner⟩ := settle_ok hmem hsettle
  have hworkspace : after.workspaceID = c.workspaceID := congrArg Target.workspaceID hafter.1
  obtain ⟨hlast, r, hr, hkey, hhash, hsaved⟩ :=
    saveOperationReceipt_ok hworkspace hafter.2.2 howner hreceipt
  refine ⟨(Relation.ReflTransGen.head hedit hedits).trans hlast, r, hr, hkey, hhash,
    fun hmiss => ?_⟩
  exact hsaved (by rwa [hsame', hsame])

/-- A pending operation of its kind would have been joined. -/
theorem free_of_existing {t : Target} {kind : OperationKind} (h : x.existing t kind = none) :
    ∀ r ∈ x.operations, r.pendingFor t kind = false := by
  have hempty : (x.operations.filter fun r =>
      r.target = t && r.operation.kind = kind && joins kind r.operation) = [] := by
    unfold existing at h
    dsimp only at h
    split_ifs at h
    · exact List.getLast?_eq_none_iff.mp h
    · exact List.head?_eq_none_iff.mp h
  intro r hr
  rw [← Bool.not_eq_true]
  intro hpending
  have hjoin := List.filter_eq_nil_iff.mp hempty r hr
  simp only [Row.pendingFor, Row.pending, Operation.pending, Bool.and_eq_true,
    decide_eq_true_eq] at hpending
  obtain ⟨⟨rfl, rfl⟩, hstatus⟩ := hpending
  refine hjoin ?_
  cases hs : r.operation.status <;> cases hk : r.operation.kind <;>
    simp_all [joins, OperationStatus.terminal]

theorem existing_mem {t : Target} {kind : OperationKind} (h : x.existing t kind = some row) :
    row ∈ x.operations ∧ row.target = t ∧ row.operation.kind = kind := by
  have hmem : row ∈ x.operations.filter fun r =>
      r.target = t && r.operation.kind = kind && joins kind r.operation := by
    unfold existing at h
    dsimp only at h
    split_ifs at h
    · exact List.mem_of_getLast? h
    · exact List.mem_of_head? h
  simp only [List.mem_filter, Bool.and_eq_true, decide_eq_true_eq] at hmem
  exact ⟨hmem.1, hmem.2.1⟩

theorem create_ok {c : Command} {q : Reads} {a : Answer} (h : x.create c q = .ok (y, a)) :
    Answered x y c a.record := by
  simp only [create, bind_eq_ok] at h
  obtain ⟨-, -, h⟩ := h
  split at h
  · rename_i row hexisting
    simp only [bind_eq_ok, pure_eq_ok, Prod.mk.injEq] at h
    obtain ⟨-, -, z, hreceipt, rfl, rfl⟩ := h
    obtain ⟨hmem, htarget, hkind⟩ := existing_mem hexisting
    exact saveOperationReceipt_ok (congrArg Target.workspaceID htarget) hkind
      ⟨row, hmem, rfl, rfl, rfl⟩ hreceipt
  · rename_i hexisting
    simp only [bind_eq_ok, pure_eq_ok, Prod.exists, Prod.mk.injEq] at h
    obtain ⟨-, -, -, -, z, row, hadmitted, rfl, rfl⟩ := h
    unfold admitted at hadmitted
    split_ifs at hadmitted
    · exact admitCleanupOperation_ok hadmitted
    · exact act_ok (free_of_existing hexisting) hadmitted

end Tables

section Machine

variable {digest : String → OperationKind → Request → String} {x y : Tables}

open Tables

/-- A miss has no receipt of the key; a hit answers the saved record of this request. -/
theorem replayOperation_ok {key : Key} {hash : String} {prior : Option Row}
    (h : x.replayOperation key hash = .ok prior) :
    (prior = none ∧ ∀ r ∈ x.receipts, r.key ≠ key) ∨
      ∃ r ∈ x.receipts, r.key = key ∧ r.requestHash = hash ∧ prior = some r.saved := by
  simp only [Tables.replayOperation, replayOrCreate, bind_eq_ok, Prod.exists] at h
  obtain ⟨found, receipts, hfind, h⟩ := h
  split at hfind
  · rename_i r hr
    split_ifs at hfind with hhash
    cases hfind
    simp only [bind_eq_ok] at h
    obtain ⟨-, -, h⟩ := h
    split at h
    · cases h
    · cases h
    · simp only [bind_eq_ok, pure_eq_ok] at h
      obtain ⟨-, -, rfl⟩ := h
      exact Or.inr ⟨r, List.mem_of_find?_eq_some hr, by simpa using List.find?_some hr, hhash, rfl⟩
  · rename_i hr
    cases hfind
    cases h
    exact Or.inl ⟨rfl, by simpa using hr⟩

/-- Every answer is the saved record of a receipt of its request. -/
theorem admitOperation_ok {c : Command} {q : Reads} {a : Answer}
    (h : x.admitOperation digest c q = .ok (y, a)) :
    Edits x y ∧ ∃ r ∈ y.receipts, r.key = c.receiptKey ∧ r.requestHash = c.requestHash ∧
      r.saved = a.record := by
  simp only [Tables.admitOperation, bind_eq_ok] at h
  obtain ⟨-, -, -, -, prior, hprior, h⟩ := h
  rcases replayOperation_ok hprior with ⟨rfl, hmiss⟩ | ⟨r, hr, hkey, hhash, rfl⟩
  · obtain ⟨hedits, r, hr, hkey, hhash, hsaved⟩ := create_ok h
    exact ⟨hedits, r, hr, hkey, hhash, hsaved hmiss⟩
  · cases h
    exact ⟨.refl, r, hr, hkey, hhash, rfl⟩

theorem step_edits {a : Transaction} (h : step digest x a = some y) : Edits x y := by
  cases a with
  | request c q =>
    simp only [step, Option.map_eq_some_iff, Prod.exists] at h
    obtain ⟨y', a, h, rfl⟩ := h
    exact (admitOperation_ok (toOption_eq_some h)).1
  | ticket t q =>
    have h := toOption_eq_some h
    simp only [Tables.ensureInitialCollection, bind_eq_ok, require_eq_ok, Bool.not_eq_true'] at h
    obtain ⟨-, hnone, -, -, hinsert⟩ := h
    refine .single (Tables.insertOperation_ok hinsert fun r hr => ?_).1
    have := List.any_eq_false.mp hnone r hr
    simp only [Bool.and_eq_true, decide_eq_true_eq] at this
    simp only [newRow, Row.pendingFor, Bool.and_eq_false_iff, decide_eq_false_iff_not]
    tauto
  | retention t uncollected key q =>
    simp only [step, Option.map_eq_some_iff, Prod.exists] at h
    obtain ⟨y', row, h, rfl⟩ := h
    have h := toOption_eq_some h
    simp only [Tables.scheduleRetention, bind_eq_ok] at h
    obtain ⟨-, -, -, -, -, -, hcleanup⟩ := h
    exact (Tables.admitCleanupOperation_ok hcleanup).1
  | hostStop t q =>
    have h := toOption_eq_some h
    simp only [hostCriticalStop, bind_eq_ok, require_eq_ok, pure_eq_ok, Bool.not_eq_true',
      Prod.exists] at h
    obtain ⟨-, -, -, hnone, z, hinsert, outcome, -, u, after, hsettle, rfl⟩ := h
    have free : ∀ r ∈ x.operations, r.pendingFor t .cancel = false := by
      intro r hr
      have := List.any_eq_false.mp hnone r hr
      simp only [Bool.and_eq_true, Bool.or_eq_true, decide_eq_true_eq] at this
      simp only [Row.pendingFor, Bool.and_eq_false_iff, decide_eq_false_iff_not]
      tauto
    obtain ⟨hedit, hmem, -⟩ := Tables.insertOperation_ok hinsert free
    exact .head hedit (settle_ok hmem hsettle).1
  | save before after =>
    exact .single (Tables.saveOperation_ok (toOption_eq_some h)).1

/-! ### The invariant -/

/-- The identity of an operation: its identifier in its workspace. -/
def Row.name (r : Row) : String × String := (r.workspaceID, r.operation.id)

structure Sound (x : Tables) : Prop where
  /-- Identifiers are unique. -/
  names : (x.operations.map Row.name).Nodup
  /-- An attempt has at most one pending operation of a kind. -/
  pending : ∀ t kind, x.operations.countP (·.pendingFor t kind) ≤ 1
  /-- A key has at most one receipt. -/
  keys : (x.receipts.map (·.key)).Nodup
  /-- A receipt names an operation of its workspace and kind. -/
  owners : ∀ r ∈ x.receipts, r.saved.workspaceID = r.key.workspaceID ∧
    r.saved.operation.kind = r.key.kind ∧ ∃ s ∈ x.operations, r.saved.Same s

theorem Sound.empty : Sound {} :=
  ⟨List.nodup_nil, fun _ _ => Nat.zero_le _, List.nodup_nil, by simp⟩

theorem Row.Same.name {r s : Row} (h : r.Same s) : r.name = s.name := by
  rw [Row.name, Row.name, Row.workspaceID, Row.workspaceID, h.1, h.2.1]

theorem Sound.edit (hx : Sound x) (h : Edit x y) : Sound y := by
  cases h with
  | insert row fresh free =>
    refine ⟨?_, fun t kind => ?_, hx.keys, fun r hr => ?_⟩
    · rw [List.map_append, List.map_singleton, List.nodup_append]
      refine ⟨hx.names, List.nodup_singleton _, ?_⟩
      intro n hn m hm heq
      obtain ⟨r, hr, rfl⟩ := List.mem_map.mp hn
      rw [List.mem_singleton.mp hm, Row.name, Row.name, Prod.mk.injEq] at heq
      exact (fresh r hr).elim (fun hne => hne heq.1) (fun hne => hne heq.2)
    · rw [List.countP_append, List.countP_singleton]
      split_ifs with hrow
      · simp only [Row.pendingFor, Bool.and_eq_true, decide_eq_true_eq] at hrow
        obtain ⟨⟨rfl, rfl⟩, -⟩ := hrow
        have hzero : x.operations.countP (·.pendingFor row.target row.operation.kind) = 0 := by
          rw [List.countP_eq_zero]
          exact fun r hr => by rw [free r hr]; decide
        omega
      · exact hx.pending t kind
    · obtain ⟨hw, hk, s, hs, hsame⟩ := hx.owners r hr
      exact ⟨hw, hk, s, List.mem_append_left _ hs, hsame⟩
  | save before after same alive mem =>
    refine ⟨?_, fun t kind => ?_, hx.keys, fun r hr => ?_⟩
    · rw [List.map_map]
      have hname : Row.name ∘ (fun r => if r = before then after else r) = Row.name := by
        funext r
        rw [Function.comp_apply]
        split_ifs with heq
        · rw [same.name, heq]
        · rfl
      rw [hname]
      exact hx.names
    · refine le_trans ?_ (hx.pending t kind)
      rw [List.countP_map]
      refine List.countP_mono_left fun r _ hr => ?_
      rw [Function.comp_apply] at hr
      split_ifs at hr with heq
      · subst heq
        simp only [Row.pendingFor, Bool.and_eq_true, decide_eq_true_eq] at hr ⊢
        obtain ⟨⟨ht, hk⟩, hp⟩ := hr
        exact ⟨⟨same.1.symm.trans ht, same.2.2.symm.trans hk⟩, alive hp⟩
      · exact hr
    · obtain ⟨hw, hk, s, hs, hsame⟩ := hx.owners r hr
      exact ⟨hw, hk, exists_same_save same hsame hs⟩
  | receipt key hash row miss workspace kind owner =>
    refine ⟨hx.names, hx.pending, ?_, fun r hr => ?_⟩
    · rw [List.map_append, List.map_singleton, List.nodup_append]
      refine ⟨hx.keys, List.nodup_singleton _, ?_⟩
      intro k hk m hm heq
      obtain ⟨r, hr, rfl⟩ := List.mem_map.mp hk
      exact miss r hr (heq.trans (List.mem_singleton.mp hm))
    · rcases List.mem_append.mp hr with hr | hr
      · exact hx.owners r hr
      · rw [List.mem_singleton.mp hr]
        exact ⟨workspace, kind, owner⟩

theorem Sound.edits (hx : Sound x) (h : Edits x y) : Sound y := by
  induction h with
  | refl => exact hx
  | tail _ hedit ih => exact ih.edit hedit

theorem receipts_edits (h : Edits x y) : x.receipts <+: y.receipts := by
  induction h with
  | refl => exact List.prefix_rfl
  | tail _ hedit ih =>
    cases hedit with
    | insert row fresh free => exact ih
    | save before after same alive mem => exact ih
    | receipt key hash row miss workspace kind owner => exact ih.trans (List.prefix_append _ _)

theorem edits_run (as : List Transaction) : Edits x (Run.run (step digest) x as) := by
  refine Run.run_rel (R := Edits) (P := fun _ => True) (fun _ => .refl)
    (fun _ _ _ => Relation.ReflTransGen.trans) trivial ?_ as
  exact fun _ _ _ _ h => ⟨trivial, step_edits h⟩

/-- In sound tables a key selects its receipt. -/
theorem Sound.find (hx : Sound x) {r : Receipt} (hr : r ∈ x.receipts) :
    x.receipts.find? (·.key = r.key) = some r := by
  cases hfind : x.receipts.find? (·.key = r.key) with
  | none =>
    have := List.find?_eq_none.mp hfind r hr
    simp at this
  | some s =>
    have hkey : s.key = r.key := by simpa using List.find?_some hfind
    rw [List.inj_on_of_nodup_map hx.keys (List.mem_of_find?_eq_some hfind) hr hkey]

/-- In sound tables the operation of a receipt can be loaded. -/
theorem Sound.load (hx : Sound x) {r : Receipt} (hr : r ∈ x.receipts) :
    ∃ row, x.loadOperation r.key.workspaceID r.saved.operation.id = .ok row ∧
      row.target = r.saved.target := by
  obtain ⟨hw, -, s, hs, hsame⟩ := hx.owners r hr
  unfold loadOperation
  cases hfind : x.operations.find? fun t =>
      t.workspaceID = r.key.workspaceID && t.operation.id = r.saved.operation.id with
  | none =>
    have := List.find?_eq_none.mp hfind s hs
    rw [← hw] at this
    simp [Row.workspaceID, hsame.1, hsame.2.1] at this
  | some t =>
    have ht := List.find?_some hfind
    simp only [Bool.and_eq_true, decide_eq_true_eq] at ht
    have hname : t.name = s.name := by
      rw [← hsame.name, Row.name, Row.name, ht.1, ht.2, hw]
    obtain rfl := List.inj_on_of_nodup_map hx.names (List.mem_of_find?_eq_some hfind) hs hname
    exact ⟨t, rfl, hsame.1.symm⟩

/-- A key with a receipt: its request is answered with what was saved, any other is a conflict. -/
theorem Sound.replay (hx : Sound x) {r : Receipt} (hr : r ∈ x.receipts) (hash : String) :
    x.replayOperation r.key hash =
      if r.requestHash = hash then .ok (some r.saved) else .error .conflict := by
  obtain ⟨row, hload, htarget⟩ := hx.load hr
  obtain ⟨hw, hk, -⟩ := hx.owners r hr
  rw [Tables.replayOperation, replayOrCreate, hx.find hr]
  dsimp only
  split_ifs
  · simp [bind, Except.bind, require, hw, hk, hload, htarget, pure, Except.pure]
  · rfl

/-- A request under a key with a receipt. -/
theorem Sound.admit (hx : Sound x) {r : Receipt} (hr : r ∈ x.receipts) {c : Command} {q : Reads}
    (hkey : c.receiptKey = r.key) (hvalid : c.validate digest = true) (hactor : q.actor = .ok ()) :
    (c.requestHash = r.requestHash → x.admitOperation digest c q = .ok (x, ⟨r.saved, true⟩)) ∧
      (c.requestHash ≠ r.requestHash → x.admitOperation digest c q = .error .conflict) := by
  have hreplay := hx.replay hr c.requestHash
  rw [← hkey] at hreplay
  constructor
  · intro heq
    rw [if_pos heq.symm] at hreplay
    simp [Tables.admitOperation, bind, Except.bind, require, hvalid, hactor, hreplay, pure,
      Except.pure]
  · intro hne
    rw [if_neg (Ne.symm hne)] at hreplay
    simp [Tables.admitOperation, bind, Except.bind, require, hvalid, hactor, hreplay]

variable (digest) in
/-- **Requests are idempotent and coalesced**, over every order of requests, tickets, scheduled
cleanups, host stops and changes of rows. In every state an attempt has at most one pending
operation of a kind, and receipts are only ever added. Once a request has been answered, its key
belongs to that answer: every later answer to the key is the same record, to the same request again;
another request is a conflict, and no scheduled cleanup of another request gets the key. A key that
a scheduled cleanup has used answers requests in the same way. -/
theorem requests_idempotent (as : List Transaction) :
    let x := Run.run (step digest) {} as
    (∀ t kind, x.operations.countP (·.pendingFor t kind) ≤ 1) ∧
    (∀ bs, x.receipts <+: (Run.run (step digest) x bs).receipts) ∧
    (∀ c q y a, x.admitOperation digest c q = .ok (y, a) → ∀ bs c' q',
      c'.receiptKey = c.receiptKey → let z := Run.run (step digest) y bs
      (∀ z' a', z.admitOperation digest c' q' = .ok (z', a') →
        c'.requestHash = c.requestHash ∧ a'.record = a.record ∧ z' = z) ∧
      (c'.validate digest = true → q'.actor = .ok () →
        (c'.requestHash = c.requestHash →
          z.admitOperation digest c' q' = .ok (z, ⟨a.record, true⟩)) ∧
        (c'.requestHash ≠ c.requestHash → z.admitOperation digest c' q' = .error .conflict)) ∧
      (c'.requestHash ≠ c.requestHash →
        ∀ z' row, z.admitCleanupOperation c' q' ≠ .ok (z', row))) ∧
    ∀ c q y row, x.admitCleanupOperation c q = .ok (y, row) → ∀ bs c' q',
      c'.receiptKey = c.receiptKey → c'.validate digest = true → q'.actor = .ok () →
      let z := Run.run (step digest) y bs
      (c'.requestHash = c.requestHash →
        ∃ record, z.admitOperation digest c' q' = .ok (z, ⟨record, true⟩)) ∧
      (c'.requestHash ≠ c.requestHash → z.admitOperation digest c' q' = .error .conflict) := by
  intro x
  have hx : Sound x := Sound.empty.edits (edits_run as)
  refine ⟨hx.pending, fun bs => receipts_edits (edits_run bs), ?_, fun c q y row h bs c' q' hkey
    hvalid hactor => ?_⟩
  rotate_left
  · obtain ⟨hxy, r, hr, hrkey, hrhash, -⟩ := Tables.admitCleanupOperation_ok h
    intro z
    have hyz : Edits y z := edits_run bs
    have hz : Sound z := (hx.edits hxy).edits hyz
    have hadmit := hz.admit ((receipts_edits hyz).subset hr) (hkey.trans hrkey.symm) hvalid hactor
    rw [hrhash] at hadmit
    exact ⟨fun heq => ⟨r.saved, hadmit.1 heq⟩, hadmit.2⟩
  intro c q y a h bs c' q' hkey z
  obtain ⟨hxy, r, hr, hrkey, hrhash, hsaved⟩ := admitOperation_ok h
  have hyz : Edits y z := edits_run bs
  have hz : Sound z := (hx.edits hxy).edits hyz
  have hrz : r ∈ z.receipts := (receipts_edits hyz).subset hr
  have hreplay := hz.replay hrz c'.requestHash
  rw [hrkey, ← hkey, hrhash, hsaved] at hreplay
  refine ⟨fun z' a' h' => ?_, fun hvalid hactor => ?_, fun hne z' row h' => ?_⟩
  · simp only [Tables.admitOperation, bind_eq_ok] at h'
    obtain ⟨-, -, -, -, prior, hprior, h'⟩ := h'
    rw [hreplay] at hprior
    split_ifs at hprior with heq
    cases hprior
    cases h'
    exact ⟨heq.symm, rfl, rfl⟩
  · have hadmit := hz.admit hrz (hkey.trans hrkey.symm) hvalid hactor
    rw [hrhash, hsaved] at hadmit
    exact hadmit
  · obtain ⟨hzz', s, hs, hskey, hshash, -⟩ := Tables.admitCleanupOperation_ok h'
    have hz' := hz.edits hzz'
    have hrz' := (receipts_edits hzz').subset hrz
    have heq := List.inj_on_of_nodup_map hz'.keys hs hrz' (hskey.trans (hkey.trans hrkey.symm))
    exact hne (by rw [← hshash, heq, hrhash])

end Machine

/-! ### One request, twice -/

def sampleDigest : String := String.ofList (List.replicate 64 'a')

def sampleCommand (reason : String) : Command where
  workspaceID := "workspace"
  tokenID := "token"
  jobID := "job"
  kind := .reconcile
  request := { attemptID := "attempt", reason }
  keyDigest := sampleDigest
  requestHash := reason

def sampleReads : Reads where
  now := 0
  id := ⟨"op_1", by decide⟩
  actor := .ok ()
  target := .ok ()
  limits := .ok ()
  eligible := .ok ()
  uncollected := false
  outcome := .ok none

/-- A reconciliation is admitted; the same request is answered again, and another one under its key
is a conflict. -/
theorem requests_idempotent_reconciliation :
    let digest := fun _ _ (r : Request) => r.reason
    ∃ y a, Tables.admitOperation digest {} (sampleCommand "look") sampleReads = .ok (y, a) ∧
      y.admitOperation digest (sampleCommand "look") sampleReads = .ok (y, ⟨a.record, true⟩) ∧
      y.admitOperation digest (sampleCommand "again") sampleReads = .error .conflict := by
  intro digest
  have h : Tables.admitOperation digest {} (sampleCommand "look") sampleReads =
      .ok (⟨[Tables.newRow ⟨"workspace", "job", "attempt"⟩ .reconcile "op_1" 0],
        [⟨⟨"workspace", .reconcile, sampleDigest⟩, "look",
          Tables.newRow ⟨"workspace", "job", "attempt"⟩ .reconcile "op_1" 0⟩]⟩,
        ⟨Tables.newRow ⟨"workspace", "job", "attempt"⟩ .reconcile "op_1" 0, false⟩) := by
    decide
  have hkey := (requests_idempotent digest []).2.2.1 _ _ _ _ h []
  exact ⟨_, _, h, ((hkey _ sampleReads rfl).2.1 (by decide) rfl).1 rfl,
    ((hkey (sampleCommand "again") sampleReads rfl).2.1 (by decide) rfl).2 (by decide)⟩

end Receipts
end Store
end ComputeRelay
