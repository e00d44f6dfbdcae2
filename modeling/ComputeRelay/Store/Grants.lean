import Mathlib.Tactic
import ComputeRelay.Dispatch.Journal
import ComputeRelay.Store.Clock

/-!
# Grants of one attempt

The rows of the table `attempt_grants` that belong to one attempt, at most one of each kind, with
the receipts written beside them: the execution grant of an ordinary job
(`internal/store/sqlite/authorization.go`), the prepare and start grants of a job with a separate
start (`execution_gate.go`) and the grant of its workload secrets (`workload_secrets.go`).

* `Grant.consume` is `consumeGrant` of `receipts.go`, the only way to consume a row.
* `loadSecret`, `loadExecutionGate` and `dispatchAuthorization` read the rows back. Their checks are
  the predicates `agrees` (what never changes), `past` and `traced` (what happened since) of each
  kind of row; a row that fails one is reported as corrupt.
* `Grants.gate` is the gate the rows describe; `gate_of_load` says that a gate that loads is it.

Rows are selected by workspace, job and attempt, so these columns are not repeated in them.
-/

namespace ComputeRelay
namespace Store

open Domain Provider Scheduler

/-- What admission freezes for one attempt, as far as dispatch and its authority read it. -/
structure FrozenJob where
  sequence : ℤ
  workspaceID : String
  jobID : String
  attemptID : String
  attemptNonce : String
  /-- The encoded profile. -/
  profile : String
  accountScope : String
  providerInstanceID : String
  /-- `authorizationInputs`; `none` when an input has no pinned bytes. -/
  inputsSHA256 : Option String
  /-- The bytes of all pinned objects. -/
  objectBytes : ℤ
  separateStart : Bool
  workloadSecrets : List Slot
  /-- `Spec.Deadline`; `none` is the zero time. -/
  deadline : Option ℤ
  remoteWallSeconds : ℤ
  setupSeconds : ℤ
  finalizationGraceSeconds : ℤ
  gpu : Bool
  /-- What `dispatch.ResolveJob` computes from the frozen record; `none` when it fails. -/
  resolved : Option (ResolvedJob × String)
  deriving DecidableEq

/-- `Spec.Expired`. -/
def FrozenJob.expired (r : FrozenJob) (now : ℤ) : Bool := r.deadline.any (· ≤ now)

/-- `time.Parse` of a text that was checked before; the zero time otherwise. -/
def instant (raw : String) : ℤ := (Rfc3339.parse raw).getD zeroTime

/-- An identifier as `randomID` hands it out. -/
def FreshID := { id : String // validOpaqueID id = true }

/-! ### Rows -/

inductive GrantStatus
  | granted | consumed | revoked
  deriving DecidableEq

/-- The columns every kind of grant has. -/
structure Grant where
  authorizationID : String
  createdAt : ℤ
  status : GrantStatus := .granted
  consumedAt : Option ℤ := none
  revokedAt : Option ℤ := none
  expiresAtMs : Option ℤ := none
  deriving DecidableEq

namespace Grant

/-- `consumeGrant`, on the row of its kind. -/
def consume (g : Grant) (now : ℤ) : Option Grant :=
  if g.status = .granted ∧ g.consumedAt = none ∧ g.revokedAt = none ∧
      g.expiresAtMs.all (unixMilli now < ·) then
    some { g with status := .consumed, consumedAt := some now }
  else none

variable {g g' : Grant} {now : ℤ}

theorem consume_eq_some : g.consume now = some g' ↔
    (g.status = .granted ∧ g.consumedAt = none ∧ g.revokedAt = none ∧
      g.expiresAtMs.all (unixMilli now < ·) = true) ∧
      g' = { g with status := .consumed, consumedAt := some now } := by
  simp only [consume, Option.ite_none_right_eq_some, Option.some.injEq]
  exact and_congr_right fun _ => eq_comm

/-- The status a receipt shows: only the time of consumption decides. -/
def receiptStatus (g : Grant) : GrantStatus := if g.consumedAt.isSome then .consumed else .granted

/-- `GateReceipt.Validate`, on the saved receipt and on the one shown. -/
def receiptValid (g : Grant) : Bool :=
  validOpaqueID g.authorizationID && g.createdAt ≠ zeroTime && g.consumedAt.all (g.createdAt ≤ ·)

/-- No time of the receipt is after `now`. -/
def past (g : Grant) (now : ℤ) : Bool := g.createdAt ≤ now && g.consumedAt.all (· ≤ now)

/-- A new row. -/
def fresh (id : FreshID) (now : ℤ) (expiresAtMs : Option ℤ := none) : Grant where
  authorizationID := id.1
  createdAt := now
  expiresAtMs := expiresAtMs

theorem receiptValid_fresh (id : FreshID) (hnow : now ≠ zeroTime) (expires : Option ℤ) :
    (fresh id now expires).receiptValid = true := by
  simp [fresh, receiptValid, hnow, id.2]

theorem past_mono {later : ℤ} (h : g.past now = true) (hle : now ≤ later) :
    g.past later = true := by
  simp only [past, Bool.and_eq_true, decide_eq_true_eq, Option.all_eq_true] at h ⊢
  exact ⟨h.1.trans hle, fun t ht => (h.2 t ht).trans hle⟩

theorem receiptValid_consume (h : g.consume now = some g') (hv : g.receiptValid = true)
    (hp : g.past now = true) : g'.receiptValid = true ∧ g'.past now = true := by
  obtain ⟨-, rfl⟩ := consume_eq_some.mp h
  simp only [receiptValid, past, Bool.and_eq_true, decide_eq_true_eq] at hv hp ⊢
  exact ⟨⟨hv.1, by simpa using hp.1⟩, hp.1, by simp⟩

end Grant

/-- The grant of an ordinary job. -/
structure ExecutionGrant extends Grant where
  binding : String
  account : String
  inputs : String
  nonce : String
  wallSeconds : ℤ
  deriving DecidableEq

def maxPreparationSeconds : ℤ := 3600
def maxReadyHold : ℤ := Rfc3339.hour
def maxStagedBytes : ℤ := 4 * 2 ^ 30 + 100 * 2 ^ 20

structure PrepareRequest where
  attemptID : String
  maxPreparationSeconds : ℤ
  readyUntil : String
  maxStagedBytes : ℤ
  authorizePrivateStaging : Bool
  deriving DecidableEq

def PrepareRequest.validate (q : PrepareRequest) : Bool :=
  validOpaqueID q.attemptID && 1 ≤ q.maxPreparationSeconds &&
  q.maxPreparationSeconds ≤ Store.maxPreparationSeconds && (canonicalTime q.readyUntil).isSome &&
  1 ≤ q.maxStagedBytes && q.maxStagedBytes ≤ Store.maxStagedBytes && q.authorizePrivateStaging

/-- The grant to stage inputs and hold them ready. -/
structure PrepareGrant extends Grant where
  request : PrepareRequest
  binding : String
  account : String
  inputs : String
  nonce : String
  reservedBytes : ℤ
  readyUntilMs : ℤ
  readyRevision : Option String := none
  readyAt : Option ℤ := none
  deriving DecidableEq

structure StartRequest where
  /-- Empty for a job without workload secrets. -/
  secretAuthorizationID : String
  attemptID : String
  readinessRevision : String
  maxRemoteWallSeconds : ℤ
  executionDeadline : String
  authorizeCompute : Bool
  deriving DecidableEq

def StartRequest.validate (q : StartRequest) : Bool :=
  (q.secretAuthorizationID = "" || validOpaqueID q.secretAuthorizationID) &&
  validOpaqueID q.attemptID && validSHA256Digest q.readinessRevision &&
  1 ≤ q.maxRemoteWallSeconds && q.maxRemoteWallSeconds ≤ Provider.maxRemoteWallSeconds &&
  (canonicalTime q.executionDeadline).isSome && q.authorizeCompute

/-- The grant to start the staged work once. -/
structure StartGrant extends Grant where
  request : StartRequest
  deriving DecidableEq

/-! ### Workload secrets -/

def maxLifetime : ℤ := 24 * Rfc3339.hour

/-- What is kept of supplied secrets: never a value. -/
structure Metadata where
  attemptID : String
  readinessRevision : String
  expiresAt : String
  names : List String
  deriving DecidableEq

def Metadata.validate (m : Metadata) : Bool :=
  validOpaqueID m.attemptID && validSHA256Digest m.readinessRevision &&
  (canonicalTime m.expiresAt).isSome && 1 ≤ m.names.length && m.names.length ≤ 8 &&
  m.names.all validSlotName && m.names.IsChain (· < ·)

inductive SecretStatus
  | granted | consumed | revoked | expired
  deriving DecidableEq

structure SecretReceipt where
  authorizationID : String
  metadata : Metadata
  status : SecretStatus
  createdAt : ℤ
  consumedAt : Option ℤ
  revokedAt : Option ℤ
  deriving DecidableEq

def SecretReceipt.validate (s : SecretReceipt) : Bool :=
  validOpaqueID s.authorizationID && s.metadata.validate && s.createdAt ≠ zeroTime &&
  decide (s.status = .consumed) = s.consumedAt.isSome &&
  decide (s.status = .revoked) = s.revokedAt.isSome &&
  s.consumedAt.all (s.createdAt ≤ ·) && s.revokedAt.all (s.createdAt ≤ ·)

/-- The grant of workload secrets, with the receipt of its revocation. -/
structure SecretGrant extends Grant where
  metadata : Metadata
  revocation : Option SecretReceipt := none
  deriving DecidableEq

namespace SecretGrant

variable (r : FrozenJob) (s : SecretGrant) (now : ℤ)

/-- The receipt as it was first written. -/
def original : SecretReceipt where
  authorizationID := s.authorizationID
  metadata := s.metadata
  status := .granted
  createdAt := s.createdAt
  consumedAt := none
  revokedAt := none

/-- The receipt with what has happened since. -/
def current : SecretReceipt :=
  match s.consumedAt, s.revokedAt with
  | some at_, _ => { s.original with status := .consumed, consumedAt := some at_ }
  | none, some at_ => { s.original with status := .revoked, revokedAt := some at_ }
  | none, none =>
    if instant s.metadata.expiresAt ≤ now then { s.original with status := .expired }
    else s.original

/-- The checks on the receipt and the columns that never change. -/
def agrees : Bool :=
  s.original.validate && s.metadata.attemptID = r.attemptID &&
  s.expiresAtMs = some (unixMilli (instant s.metadata.expiresAt)) &&
  s.createdAt < instant s.metadata.expiresAt &&
  instant s.metadata.expiresAt ≤ s.createdAt + maxLifetime

/-- The checks on consumption and revocation. -/
def traced : Bool :=
  s.createdAt ≤ now && !(s.consumedAt.isSome && s.revokedAt.isSome) &&
  s.consumedAt.all (· ≤ now) && s.revokedAt.all (· ≤ now) &&
  (s.revokedAt.isNone || s.revocation = some (s.current now)) && (s.current now).validate

end SecretGrant

/-- `loadSecret`: the row, whose receipts are `SecretGrant.original` and `SecretGrant.current`. -/
def loadSecret (r : FrozenJob) (row : Option SecretGrant) (now : ℤ) : Except Err SecretGrant :=
  match row with
  | none => .error .secretNotFound
  | some s => if s.agrees r && s.traced now then .ok s else .error .corrupt

/-- The supplied names are those of the declared slots. -/
def matchSecretSlots (slots : List Slot) (m : Metadata) : Bool :=
  slots ≠ [] && validSlots slots && (slots.map (·.name)).mergeSort (· ≤ ·) = m.names

/-- `secretForStart`: the secret a start needs, still granted. -/
def secretForStart (r : FrozenJob) (row : Option SecretGrant) (id revision : String) (now : ℤ) :
    Except Err (Option SecretGrant) :=
  if r.workloadSecrets = [] then
    if id ≠ "" then .error .secretRequest else .ok none
  else if !validOpaqueID id then .error .secretUnavailable
  else match loadSecret r row now with
    | .error .secretNotFound => .error .secretUnavailable
    | .error e => .error e
    | .ok s =>
      if s.authorizationID ≠ id ∨ (s.current now).status ≠ .granted ∨
          s.metadata.readinessRevision ≠ revision ∨ instant s.metadata.expiresAt ≤ now ∨
          !matchSecretSlots r.workloadSecrets s.metadata then .error .secretUnavailable
      else .ok (some s)

/-! ### The execution gate -/

/-- `executionauth.Gate`: the authority of a job with a separate start. -/
structure Gate where
  preparation : Grant
  request : PrepareRequest
  stagedBytes : ℤ
  readyRevision : String
  readyAt : Option ℤ
  start : Option StartAuthorization := none
  startReceipt : Option Grant := none
  deriving DecidableEq

/-- `Gate.Expired`: `startBefore` is the earliest of the hold, the deadline and the secret's
expiry. -/
def Gate.expired (g : Gate) (now : ℤ) : Bool :=
  instant g.request.readyUntil ≤ now || g.start.any fun s => instant s.startBefore ≤ now

/-- The grants of one attempt. -/
structure Grants where
  execution : Option ExecutionGrant := none
  prepare : Option PrepareGrant := none
  start : Option StartGrant := none
  secret : Option SecretGrant := none
  deriving DecidableEq

namespace PrepareGrant

variable (r : FrozenJob) (p : PrepareGrant) (now : ℤ)

/-- The checks on the request, the receipt and the columns that never change. -/
def agrees : Bool :=
  p.request.validate && p.request.attemptID = r.attemptID && r.inputsSHA256 = some p.inputs &&
  p.binding = r.profile && p.account = r.accountScope && p.nonce = r.attemptNonce &&
  p.reservedBytes = r.objectBytes && p.reservedBytes ≤ p.request.maxStagedBytes &&
  p.readyUntilMs = unixMilli (instant p.request.readyUntil) &&
  p.createdAt < instant p.request.readyUntil &&
  instant p.request.readyUntil ≤ p.createdAt + maxReadyHold

/-- The checks on the recorded readiness. -/
def readyTraced : Bool :=
  match p.readyRevision, p.readyAt with
  | none, none => true
  | some revision, some at_ =>
    validSHA256Digest revision && p.consumedAt.any (· ≤ at_) && at_ ≤ now
  | _, _ => false

def sound : Bool := p.receiptValid && p.agrees r && p.past now && p.readyTraced now

/-- The gate before a start is granted. -/
def gate : Gate where
  preparation := p.toGrant
  request := p.request
  stagedBytes := p.reservedBytes
  readyRevision := p.readyRevision.getD ""
  readyAt := p.readyAt

end PrepareGrant

namespace StartGrant

variable (r : FrozenJob) (p : PrepareGrant) (s : StartGrant)

/-- The checks on the request and the receipt against the preparation. -/
def agrees : Bool :=
  s.request.validate && s.request.attemptID = r.attemptID &&
  s.request.readinessRevision = p.readyRevision.getD "" && p.readyAt.any (· ≤ s.createdAt) &&
  s.request.maxRemoteWallSeconds ≤ r.remoteWallSeconds &&
  s.createdAt < instant s.request.executionDeadline &&
  instant s.request.executionDeadline ≤
    s.createdAt + s.request.maxRemoteWallSeconds * Rfc3339.second &&
  r.deadline.all (instant s.request.executionDeadline ≤ ·) &&
  s.createdAt < instant p.request.readyUntil

/-- The start must be sent before the hold and the execution deadline are over. -/
def stop : ℤ := min (instant p.request.readyUntil) (instant s.request.executionDeadline)

/-- The start was granted with this secret. -/
def secretMatches (x : SecretGrant) : Bool :=
  s.request.secretAuthorizationID = x.authorizationID &&
  x.metadata.readinessRevision = p.readyRevision.getD "" &&
  matchSecretSlots r.workloadSecrets x.metadata && s.createdAt < instant x.metadata.expiresAt &&
  x.createdAt ≤ s.createdAt

/-- The checks on the secret behind a start, which is consumed with it, at the same instant. -/
def secretAgrees (x : SecretGrant) (now : ℤ) : Bool :=
  s.secretMatches r p x &&
  (if s.consumedAt.isSome then (x.current now).status = .consumed && x.consumedAt = s.consumedAt
    else (x.current now).status ≠ .consumed)

/-- The start authority that goes into the journal. -/
def authorization (secret : Option SecretGrant) : StartAuthorization where
  authorizationID := s.authorizationID
  readinessRevision := s.request.readinessRevision
  maxRemoteWallSeconds := s.request.maxRemoteWallSeconds
  executionDeadline := s.request.executionDeadline
  startBefore := Rfc3339.format (match secret with
    | none => s.stop p
    | some x => min (s.stop p) (instant x.metadata.expiresAt))
  secrets := secret.map fun x => ⟨x.authorizationID, x.metadata.expiresAt, r.workloadSecrets⟩

end StartGrant

/-- The secret behind a start grant, checked against it. -/
def startSecret (r : FrozenJob) (g : Grants) (p : PrepareGrant) (s : StartGrant) (now : ℤ) :
    Except Err (Option SecretGrant) :=
  if r.workloadSecrets ≠ [] then
    (loadSecret r g.secret now).bind fun x =>
      if s.secretAgrees r p x now then .ok (some x) else .error .corrupt
  else if s.request.secretAuthorizationID ≠ "" then .error .corrupt
  else .ok none

/-- The gate with a start granted. -/
def PrepareGrant.started (r : FrozenJob) (p : PrepareGrant) (s : StartGrant)
    (secret : Option SecretGrant) : Gate :=
  { p.gate with start := some (s.authorization r p secret), startReceipt := some s.toGrant }

/-- `loadExecutionGate`. -/
def loadExecutionGate (r : FrozenJob) (g : Grants) (now : ℤ) : Except Err (Option Gate) :=
  if !r.separateStart then .ok none
  else match g.prepare with
    | none => .ok none
    | some p =>
      if !p.sound r now then .error .corrupt
      else match g.start with
        | none => .ok (some p.gate)
        | some s =>
          if !(s.receiptValid && s.agrees r p && s.past now) then .error .corrupt
          else (startSecret r g p s now).map fun secret => some (p.started r s secret)

/-! ### Authority to dispatch -/

/-- The checks on an execution grant. -/
def ExecutionGrant.agrees (r : FrozenJob) (e : ExecutionGrant) : Bool :=
  r.inputsSHA256 = some e.inputs && e.binding = r.profile && e.account = r.accountScope &&
  e.nonce = r.attemptNonce && e.wallSeconds = r.remoteWallSeconds

def ExecutionGrant.traced (e : ExecutionGrant) (now : ℤ) : Bool :=
  validTime e.createdAt && decide (e.status = .consumed) = e.consumedAt.isSome &&
  e.createdAt ≤ now && e.consumedAt.all (fun used => e.createdAt ≤ used && used ≤ now)

/-- `dispatchAuthorization`. -/
def dispatchAuthorization (r : FrozenJob) (g : Grants) (gate : Option Gate) (now : ℤ) :
    Except Err GrantStatus :=
  if r.separateStart then
    match gate with
    | none => .error .policy
    | some gate => .ok gate.preparation.receiptStatus
  else match g.execution with
    | none => .error .policy
    | some e =>
      if !e.agrees r then .error .corrupt
      else if e.status = .revoked then .error .policy
      else if !e.traced now then .error .corrupt
      else .ok e.status

/-! ### Consumption -/

inductive GrantKind
  | execution | prepare | start | secret
  deriving DecidableEq

namespace Grants

/-- The common columns of the row of a kind. -/
def row (g : Grants) : GrantKind → Option Grant
  | .execution => g.execution.map (·.toGrant)
  | .prepare => g.prepare.map (·.toGrant)
  | .start => g.start.map (·.toGrant)
  | .secret => g.secret.map (·.toGrant)

/-- The update behind `consumeGrant`, when it affects the row of its kind. -/
def consumed (g : Grants) (now : ℤ) : GrantKind → Option Grants
  | .execution => g.execution.bind fun e => (e.toGrant.consume now).map fun q =>
      { g with execution := some { e with toGrant := q } }
  | .prepare => g.prepare.bind fun p => (p.toGrant.consume now).map fun q =>
      { g with prepare := some { p with toGrant := q } }
  | .start => g.start.bind fun s => (s.toGrant.consume now).map fun q =>
      { g with start := some { s with toGrant := q } }
  | .secret => g.secret.bind fun x => (x.toGrant.consume now).map fun q =>
      { g with secret := some { x with toGrant := q } }

/-- `consumeGrant`. -/
def consumeGrant (g : Grants) (kind : GrantKind) (now : ℤ) (unavailable : Err) :
    Except Err Grants :=
  match g.consumed now kind with
  | none => .error unavailable
  | some g' => .ok g'

/-- The gate the rows describe. -/
def gate (r : FrozenJob) (g : Grants) : Option Gate :=
  if r.separateStart then
    g.prepare.map fun p =>
      match g.start with
      | none => p.gate
      | some s => p.started r s (if r.workloadSecrets = [] then none else g.secret)
  else none

end Grants

section Loads

variable {r : FrozenJob} {g : Grants} {now : ℤ}

theorem loadSecret_eq_ok {row : Option SecretGrant} {x : SecretGrant} :
    loadSecret r row now = .ok x ↔
      row = some x ∧ x.agrees r = true ∧ x.traced now = true := by
  cases row with
  | none => simp [loadSecret]
  | some y =>
    simp only [loadSecret, Option.some.injEq]
    split_ifs with h
    · rw [Bool.and_eq_true] at h
      constructor
      · rintro ⟨⟩
        exact ⟨rfl, h⟩
      · rintro ⟨rfl, -⟩
        rfl
    · constructor
      · rintro ⟨⟩
      · rintro ⟨rfl, ha, ht⟩
        simp [ha, ht] at h

theorem startSecret_eq_ok {p : PrepareGrant} {s : StartGrant} {secret : Option SecretGrant} :
    startSecret r g p s now = .ok secret ↔
      if r.workloadSecrets = [] then s.request.secretAuthorizationID = "" ∧ secret = none
      else ∃ x, secret = some x ∧ g.secret = some x ∧ x.agrees r = true ∧ x.traced now = true ∧
        s.secretAgrees r p x now = true := by
  by_cases hs : r.workloadSecrets = []
  · by_cases hq : s.request.secretAuthorizationID = "" <;> simp [startSecret, hs, hq, eq_comm]
  · simp only [startSecret, hs, ne_eq, not_false_eq_true, if_true, if_false]
    constructor
    · intro h
      cases hl : loadSecret r g.secret now with
      | error e => rw [hl] at h; cases h
      | ok x =>
        rw [hl] at h
        simp only [Except.bind] at h
        split_ifs at h with hx
        cases h
        obtain ⟨hrow, ha, ht⟩ := loadSecret_eq_ok.mp hl
        exact ⟨x, rfl, hrow, ha, ht, hx⟩
    · rintro ⟨x, rfl, hrow, ha, ht, hx⟩
      rw [loadSecret_eq_ok.mpr ⟨hrow, ha, ht⟩]
      simp [Except.bind, hx]

theorem gate_of_load {gate : Option Gate} (h : loadExecutionGate r g now = .ok gate) :
    gate = g.gate r := by
  unfold loadExecutionGate at h
  unfold Grants.gate
  cases hr : r.separateStart with
  | false => simpa [hr] using h.symm
  | true =>
    simp only [hr, Bool.not_true, Bool.false_eq_true, if_false, if_true] at h ⊢
    cases hp : g.prepare with
    | none => simpa [hp] using h.symm
    | some p =>
      simp only [hp] at h
      split_ifs at h with hsound
      cases hs : g.start with
      | none => simpa [hs] using h.symm
      | some s =>
        simp only [hs] at h
        split_ifs at h with hstart
        cases hx : startSecret r g p s now with
        | error e => rw [hx] at h; cases h
        | ok secret =>
          rw [hx] at h
          have hsec := startSecret_eq_ok.mp hx
          simp only [Except.map, Except.ok.injEq] at h
          rw [← h]
          split_ifs at hsec with hslots
          · simp [hslots, hsec.2]
          · obtain ⟨x, rfl, hrow, -⟩ := hsec
            simp [hslots, hrow]

end Loads

end Store
end ComputeRelay
