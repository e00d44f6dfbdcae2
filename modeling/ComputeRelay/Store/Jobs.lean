import Mathlib.Tactic
import ComputeRelay.Lib.Rows
import ComputeRelay.Store.Coherence

/-!
# Jobs and their attempts

The store as a table of jobs, each with the table of its attempts: admission of a job, the
transactions of `Store.Attempt` on any of its attempts, current or historical, and `retryInputs` and
`createRetry` of `internal/store/sqlite/operations_admission.go`, which make a new attempt the
active one. All of them share the clock of the store.

* `perform_historical`: a historical attempt keeps its outcome under every transaction.
* `attempt_run`: seen from one attempt, a run of the store is a run of `Records.step`, so that what
  holds along those runs holds of every attempt of the store.
* `retries_run_after_settled_work`: in every state of the store, only the active attempt of a job
  may still run, and a retry is admitted only where the journal proves the outcome of the attempt
  before.

What only refuses a retry is left open: replayed receipts, limits, the profile's owner, host caches,
application images and storage.
-/

namespace ComputeRelay
namespace Store

open Domain Provider Scheduler Dispatch Fallible

/-! ### Tables -/

structure ObjectMetadata where
  workspaceID : String
  id : String
  bytes : ℤ
  sha256 : String
  deriving DecidableEq

/-- An attempt of a job; `records.active` is the pointer of the job. -/
structure AttemptRow where
  frozen : FrozenJob
  number : ℤ
  records : Records
  deriving DecidableEq

structure Job where
  workspaceID : String
  jobID : String
  /-- The number of inputs of the specification. -/
  inputs : ℕ
  applicationImage : Bool
  objects : List ObjectMetadata
  attempts : List AttemptRow
  deriving DecidableEq

structure Jobs where
  floor : ℤ := 0
  jobs : List Job := []
  deriving DecidableEq

/-! ### Retry -/

def maxUint32 : ℤ := 2 ^ 32 - 1

/-- What the random source and the queue give a new attempt. -/
structure NewAttempt where
  attemptID : FreshID
  nonce : String
  sequence : ℤ
  resolved : Option (ResolvedJob × String)

/-- The frozen job of a retry differs in the identity of its attempt only. -/
def FrozenJob.renewed (r : FrozenJob) (n : NewAttempt) : FrozenJob :=
  { r with
    attemptID := n.attemptID.1
    attemptNonce := n.nonce
    sequence := n.sequence
    resolved := n.resolved }

/-- The part of `retryInputs` that reads the journal. -/
def journalProves (s : AttemptState) (j : Journal) : Bool :=
  if j.submitStarted then
    if s.execution = .notSubmitted then j.phase = .rejected
    else j.remote.isSome &&
      j.observation.any fun o => o.execution.terminal && o.execution = s.execution
  else s.execution = .notSubmitted

/-- `retainedInputQuery` finds the very object. -/
def retainedObject (retained : List ObjectMetadata) (o : ObjectMetadata) : Bool :=
  retained.find? (fun m => m.workspaceID = o.workspaceID && m.id = o.id) = some o

/-- What a client proved by an earlier `RetryInputs`, and the rows the transaction meets. -/
structure RetryRequest where
  attemptID : String
  seen : ℤ × Attempt
  objects : List ObjectMetadata
  /-- The retained objects of the store. -/
  retained : List ObjectMetadata
  new : NewAttempt

section Transactions

variable (c : Codec)

/-- `retryInputs`. -/
def retryInputs (job : Job) (row : AttemptRow) (retained : List ObjectMetadata) :
    Except Err Unit := do
  require row.records.active .changed
  require (retryAllowed row.records.attempt.state) .unresolved
  let j ← controlWork c row.frozen row.records
  require (journalProves row.records.attempt.state j) .unresolved
  require (job.objects.length = 1 + job.inputs + if job.applicationImage then 1 else 0) .inputs
  require (job.objects.all (retainedObject retained)) .inputs

/-- `createRetry`: the job names the new attempt, and the old one keeps its rows. -/
def createRetry (job : Job) (row : AttemptRow) (new : NewAttempt) (now : ℤ) :
    Except Err (AttemptRow × AttemptRow) := do
  require (row.number ≠ maxUint32) .changed
  require (job.attempts.all (·.frozen.attemptID ≠ new.attemptID.1)) .conflict
  let x ← retry row.records
  pure ({ row with records := { x with floor := nextFloor now } },
    { frozen := row.frozen.renewed new, number := row.number + 1, records := admitted now })

/-- `AdmitOperation` of a retry. -/
def admitRetry (job : Job) (q : RetryRequest) (now : ℤ) (row : AttemptRow) :
    Except Err (AttemptRow × AttemptRow) := do
  require (row.records.attempt.updatedAt ≤ now) .corrupt
  require (!row.frozen.expired now) .expired
  retryInputs c job row q.retained
  require (q.seen = (row.number, row.records.attempt) && q.objects.length = job.objects.length)
    .changed
  require (q.objects = job.objects) .inputs
  createRetry job row q.new now

def Job.retry (job : Job) (q : RetryRequest) (now : ℤ) : Except Err (Job × Option Handle) := do
  let (attempts, new) ← Rows.edit (fun row => row.frozen.attemptID = q.attemptID)
    (admitRetry c job q now) .notFound job.attempts
  pure ({ job with attempts := attempts ++ [new] }, none)

/-! ### The machine -/

/-- A transaction on one attempt, which is not a retry. -/
def AttemptRow.work (q : Request) (now : ℤ) (row : AttemptRow) :
    Except Err (AttemptRow × Option Handle) := do
  require (!q.retries) .invalid
  let (y, h) ← perform c row.frozen row.records now q
  pure ({ row with records := { y with floor := nextFloor now } }, h)

def Job.work (job : Job) (attemptID : String) (q : Request) (now : ℤ) :
    Except Err (Job × Option Handle) := do
  let (attempts, h) ← Rows.edit (fun row => row.frozen.attemptID = attemptID)
    (AttemptRow.work c q now) .notFound job.attempts
  pure ({ job with attempts }, h)

/-- The transactions of the store on its jobs. -/
inductive JobRequest
  | admitJob (r : FrozenJob) (inputs : ℕ) (applicationImage : Bool) (objects : List ObjectMetadata)
  | work (workspaceID jobID attemptID : String) (q : Request)
  | retry (workspaceID jobID : String) (q : RetryRequest)

/-- A new job, with its first attempt. -/
def Jobs.admitJob (s : Jobs) (r : FrozenJob) (inputs : ℕ) (applicationImage : Bool)
    (objects : List ObjectMetadata) (now : ℤ) : Except Err (List Job × Option Handle) := do
  require (s.jobs.all fun job => !(job.workspaceID = r.workspaceID && job.jobID = r.jobID))
    .conflict
  pure (s.jobs ++
    [{ workspaceID := r.workspaceID, jobID := r.jobID, inputs, applicationImage, objects
       attempts := [{ frozen := r, number := 1, records := admitted now }] }], none)

def Jobs.perform (s : Jobs) (now : ℤ) : JobRequest → Except Err (List Job × Option Handle)
  | .admitJob r inputs applicationImage objects => s.admitJob r inputs applicationImage objects now
  | .work workspaceID jobID attemptID q =>
    Rows.edit (fun job => job.workspaceID = workspaceID && job.jobID = jobID)
      (fun job => job.work c attemptID q now) .notFound s.jobs
  | .retry workspaceID jobID q =>
    Rows.edit (fun job => job.workspaceID = workspaceID && job.jobID = jobID)
      (fun job => job.retry c q now) .notFound s.jobs

/-- A request and the reading of the wall clock it meets. -/
structure JobTx where
  wall : ℤ
  request : JobRequest

/-- One transaction under the clock of the store; a failed one leaves no trace. -/
def Jobs.transact (s : Jobs) (tx : JobTx) : Except Err (Jobs × Option Handle) := do
  let (now, next) ← write s.floor tx.wall
  let (jobs, h) ← s.perform c now tx.request
  pure ({ floor := next, jobs }, h)

def Jobs.step (s : Jobs) (tx : JobTx) : Option Jobs := (s.transact c tx).toOption.map (·.1)

end Transactions

/-! ### A historical attempt keeps its outcome -/

section Historical

variable {c : Codec} {r : FrozenJob} {x y : Records} {now : ℤ} {q : Request} {h? : Option Handle}

theorem writeState_moves {next : AttemptState} {e : Err} (h : writeState x next now e = .ok y) :
    x.attempt.state.Moves next := by
  unfold writeState at h
  split at h
  · cases h
  · rename_i a ha
    unfold Attempt.transition at ha
    split_ifs at ha with hv
    all_goals exact (AttemptState.moves_iff _ _).mp (by simpa using hv)

theorem not_controlState_needsAttention {next : AttemptState}
    (ht : x.attempt.state.orchestration.terminal = true)
    (hn : next.orchestration = .needsAttention) : controlState x next now ≠ .ok y := by
  intro h
  have heq := (writeState_moves h).orchestration_eq ht
  rw [← heq, hn] at ht
  cases ht

/-- Collection, cleanup and retention of a settled attempt: only its result may expire. -/
theorem editCollection_settled {edit : CollectionEdit}
    (ht : x.attempt.state.orchestration.terminal = true)
    (hc : editCollection c r x edit now = .ok y) : y.attempt.state = x.attempt.state ∨
      y.attempt.state.validate = true ∧
        y.attempt.state = { x.attempt.state with result := .expired } := by
  have hnc : x.attempt.state.orchestration ≠ .collecting := fun h => by rw [h] at ht; cases ht
  cases edit with
  | claim =>
    simp only [editCollection, collectible, bind_eq_ok, require_eq_ok, Bool.and_eq_true,
      Bool.not_eq_true'] at hc
    obtain ⟨j, -, -, -, -, ⟨⟨⟨⟨hnt, -⟩, -⟩, -⟩, -⟩, -⟩ := hc
    rw [ht] at hnt
    cases hnt
  | complete completed =>
    simp only [editCollection, collecting, bind_eq_ok, require_eq_ok, Bool.and_eq_true,
      decide_eq_true_eq] at hc
    obtain ⟨-, ⟨-, ho⟩, -⟩ := hc
    exact absurd ho hnc
  | fail invalid p =>
    simp only [editCollection, collecting, bind_eq_ok, require_eq_ok, Bool.and_eq_true,
      decide_eq_true_eq] at hc
    obtain ⟨-, ⟨-, ho⟩, -⟩ := hc
    exact absurd ho hnc
  | discard p =>
    simp only [editCollection, bind_eq_ok] at hc
    obtain ⟨x1, hx1, -⟩ := hc
    exact absurd hx1 (not_controlState_needsAttention ht rfl)
  | cleaned =>
    simp only [editCollection, if_neg hnc, pure_eq_ok] at hc
    exact Or.inl (by rw [hc])
  | expire =>
    simp only [editCollection, bind_eq_ok] at hc
    obtain ⟨-, -, hc⟩ := hc
    obtain ⟨a, rfl, ha, -⟩ := writeState_ok hc
    exact Or.inr ⟨by rw [ha]; exact (writeState_moves hc).next, ha⟩

/-- **Historical attempts.** No transaction on a settled attempt that is not the active one changes
anything of its state but an available result, which may expire. -/
theorem perform_historical (hx : x.active = false)
    (ht : x.attempt.state.orchestration.terminal = true)
    (hp : perform c r x now q = .ok (y, h?)) : y.attempt.state = x.attempt.state ∨
      y.attempt.state.validate = true ∧
        y.attempt.state = { x.attempt.state with result := .expired } := by
  -- a transaction that asks for the active attempt is refused
  have hno : x.active = true → False := fun h => by rw [hx] at h; cases h
  have hhandle : ∀ h, q.handle = some h → False := fun h hq => hno (perform_uses hq hp).1.active
  cases q with
  | authorize =>
    have hc := (silent_ok hp).1
    simp [authorizeExecution, bind_eq_ok, require_eq_ok, hx] at hc
  | prepare =>
    have hc := (silent_ok hp).1
    simp [prepareExecution, gateRecord, bind_eq_ok, require_eq_ok, hx] at hc
  | start =>
    have hc := (silent_ok hp).1
    simp [startExecution, gateRecord, bind_eq_ok, require_eq_ok, hx] at hc
  | supply =>
    have hc := (silent_ok hp).1
    simp [supplyWorkloadSecrets, gateRecord, bind_eq_ok, require_eq_ok, hx] at hc
  | revoke =>
    have hc := (silent_ok hp).1
    simp only [revokeWorkloadSecrets, bind_eq_ok, pure_eq_ok] at hc
    obtain ⟨_, -, -, -, -, -, -, -, rfl⟩ := hc
    exact Or.inl rfl
  | claimNext =>
    have hc := (silent_ok hp).1
    simp [claimNext, bind_eq_ok, require_eq_ok, hx] at hc
  | claimRecovery =>
    have hc := (silent_ok hp).1
    simp [claimRecovery, bind_eq_ok, require_eq_ok, hx] at hc
  | load k =>
    obtain ⟨h, hl, -⟩ := issuing_ok hp
    simp only [loadWork, bind_eq_ok] at hl
    obtain ⟨work, hw, -⟩ := hl
    exact (hno (loadDispatch_ok hw).2.active).elim
  | renew h => exact (hhandle h rfl).elim
  | yield h => exact (hhandle h rfl).elim
  | consume h => exact (hhandle h rfl).elim
  | commit h => exact (hhandle h rfl).elim
  | cancelled h => exact (hhandle h rfl).elim
  | cancel =>
    have hc := (silent_ok hp).1
    rw [admitCancellation, if_pos ht, pure_eq_ok] at hc
    exact Or.inl (by rw [hc])
  | reconcile =>
    have hc := (silent_ok hp).1
    simp only [admitReconciliation, ht, Bool.true_or, if_true, pure_eq_ok] at hc
    exact Or.inl (by rw [hc])
  | collect => exact editCollection_settled ht (silent_ok hp).1
  | retry =>
    have hc := (silent_ok hp).1
    simp [retry, bind_eq_ok, require_eq_ok, hx] at hc

theorem retryAllowed_iff {s : AttemptState} : retryAllowed s = true ↔
    s.validate = true ∧ (s.remoteActivity = .notStarted ∨ s.remoteActivity = .inactive) ∧
      s.execution ≠ .succeeded ∧ s.orchestration.terminal = true ∧
      (s.execution = .notSubmitted ∨ s.execution.terminal = true) := by
  simp only [retryAllowed, Bool.and_eq_true, Bool.or_eq_true, decide_eq_true_eq, and_assoc]

/-- A historical attempt stays one a retry may follow. -/
theorem retryAllowed_perform (hx : x.active = false) (ha : retryAllowed x.attempt.state = true)
    (hp : perform c r x now q = .ok (y, h?)) : retryAllowed y.attempt.state = true := by
  obtain ⟨-, hact, hexec, hterm, hdone⟩ := retryAllowed_iff.mp ha
  rcases perform_historical hx hterm hp with hy | ⟨hv, hy⟩
  · rw [hy]
    exact ha
  · refine retryAllowed_iff.mpr ⟨hv, ?_⟩
    rw [hy]
    exact ⟨hact, hexec, hterm, hdone⟩

/-- An attempt a retry may follow holds no account, behind a barrier or not. -/
theorem holdsAccount_of_retryAllowed {s : AttemptState} (h : retryAllowed s = true)
    (barrier : Bool) : holdsAccount s barrier = false := by
  obtain ⟨hv, -, -, hterm, -⟩ := retryAllowed_iff.mp h
  have hreleased : s.remoteActivity = .inactive ∨ (s.orchestration.terminal = true ∧
      s.execution = .notSubmitted ∧ s.remoteActivity = .notStarted) := released_of_terminal hv hterm
  unfold holdsAccount
  rw [hv, if_neg (by simp), if_pos hreleased]

end Historical

/-! ### Runs of the store -/

section Runs

variable {c : Codec} {s t : Jobs} {job job' : Job} {row row' new : AttemptRow} {now : ℤ}
variable {tx : JobTx} {h? : Option Handle}

theorem Jobs.step_ok (hs : s.step c tx = some t) : ∃ now h?,
    write s.floor tx.wall = .ok (now, t.floor) ∧ s.perform c now tx.request = .ok (t.jobs, h?) := by
  obtain ⟨⟨t, h?⟩, ht, rfl⟩ := Option.map_eq_some_iff.mp hs
  have ht := toOption_eq_some ht
  simp only [Jobs.transact, bind_eq_ok, pure_eq_ok, Prod.mk.injEq, Prod.exists] at ht
  obtain ⟨now, next, hw, jobs, h, hp, rfl, rfl⟩ := ht
  exact ⟨now, h, hw, hp⟩

theorem AttemptRow.work_ok {q : Request} (h : AttemptRow.work c q now row = .ok (row', h?)) :
    ∃ y, q.retries = false ∧ Store.perform c row.frozen row.records now q = .ok (y, h?) ∧
      row' = { row with records := { y with floor := nextFloor now } } := by
  simp only [AttemptRow.work, bind_eq_ok, require_eq_ok, pure_eq_ok, Prod.mk.injEq, Prod.exists,
    Bool.not_eq_true'] at h
  obtain ⟨-, hq, y, h', hp, rfl, rfl⟩ := h
  exact ⟨y, hq, hp, rfl⟩

/-- An admitted retry: what it has checked, the old attempt and the new one. -/
theorem admitRetry_ok {q : RetryRequest} (h : admitRetry c job q now row = .ok (row', new)) :
    row.records.active = true ∧ retryAllowed row.records.attempt.state = true ∧
      journalProves row.records.attempt.state row.records.current = true ∧
      row' = { row with records := { row.records with active := false, floor := nextFloor now } } ∧
      new = { frozen := row.frozen.renewed q.new, number := row.number + 1
              records := admitted now } := by
  simp only [admitRetry, retryInputs, createRetry, retry, bind_eq_ok, require_eq_ok, pure_eq_ok,
    Prod.mk.injEq] at h
  obtain ⟨-, -, -, -, -, ⟨-, hactive, -, hallowed, j, hj, -, hproof, -⟩, -, -, -, -, -, -, -, -, x,
    ⟨-, -, -, -, rfl⟩, rfl, rfl⟩ := h
  obtain ⟨-, rfl⟩ := controlWork_ok hj
  exact ⟨hactive, hallowed, hproof, rfl, rfl⟩

theorem Job.work_ok {attemptID : String} {q : Request}
    (h : job.work c attemptID q now = .ok (job', h?)) : ∃ attempts,
      Rows.edit (fun row => row.frozen.attemptID = attemptID) (AttemptRow.work c q now) .notFound
        job.attempts = .ok (attempts, h?) ∧ job' = { job with attempts } := by
  simp only [Job.work, bind_eq_ok, pure_eq_ok, Prod.mk.injEq, Prod.exists] at h
  obtain ⟨attempts, h', he, rfl, rfl⟩ := h
  exact ⟨attempts, he, rfl⟩

theorem Job.retry_ok {q : RetryRequest} (h : job.retry c q now = .ok (job', h?)) :
    ∃ attempts new, Rows.edit (fun row => row.frozen.attemptID = q.attemptID)
        (admitRetry c job q now) .notFound job.attempts = .ok (attempts, new) ∧
      job' = { job with attempts := attempts ++ [new] } := by
  simp only [Job.retry, bind_eq_ok, pure_eq_ok, Prod.mk.injEq, Prod.exists] at h
  obtain ⟨attempts, new, he, rfl, -⟩ := h
  exact ⟨attempts, new, he, rfl⟩

/-- What holds of all attempts before a transaction goes over to all attempts after it, when it does
so for the attempts that stay, for new ones and for the one the transaction works on. -/
theorem Jobs.step_forall {P Q : AttemptRow → Prop} (hs : s.step c tx = some t)
    (h : ∀ job ∈ s.jobs, ∀ row ∈ job.attempts, P row) (hstay : ∀ row, P row → Q row)
    (hnew : ∀ now r number, write s.floor tx.wall = .ok (now, t.floor) →
      Q { frozen := r, number, records := admitted now })
    (hwork : ∀ now q row y h?, write s.floor tx.wall = .ok (now, t.floor) → P row →
      Store.perform c row.frozen row.records now q = .ok (y, h?) →
      Q { row with records := { y with floor := nextFloor now } }) :
    ∀ job ∈ t.jobs, ∀ row ∈ job.attempts, Q row := by
  obtain ⟨now, h?, hw, hp⟩ := Jobs.step_ok hs
  have hstayJob : ∀ job : Job, (∀ row ∈ job.attempts, P row) → ∀ row ∈ job.attempts, Q row :=
    fun job hjob row hrow => hstay row (hjob row hrow)
  cases hq : tx.request with
  | admitJob r inputs applicationImage objects =>
    simp only [hq, Jobs.perform, Jobs.admitJob, bind_eq_ok, pure_eq_ok, Prod.mk.injEq] at hp
    obtain ⟨-, -, hjobs, -⟩ := hp
    rw [← hjobs]
    intro job hjob
    rcases List.mem_append.mp hjob with hjob | hjob
    · exact hstayJob job (h job hjob)
    · rw [List.mem_singleton] at hjob
      subst hjob
      simpa using hnew now r 1 hw
  | work workspaceID jobID attemptID q =>
    rw [hq] at hp
    refine Rows.edit_forall hp h hstayJob fun job job' hjob he => ?_
    obtain ⟨attempts, hedit, rfl⟩ := Job.work_ok he
    refine Rows.edit_forall hedit hjob hstay fun row row' hrow he => ?_
    obtain ⟨y, -, hy, rfl⟩ := AttemptRow.work_ok he
    exact hwork now q row y _ hw hrow hy
  | retry workspaceID jobID q =>
    rw [hq] at hp
    refine Rows.edit_forall hp h hstayJob fun job job' hjob he => ?_
    obtain ⟨attempts, new, hedit, rfl⟩ := Job.retry_ok he
    intro row hrow
    rcases List.mem_append.mp hrow with hrow | hrow
    · refine Rows.edit_forall hedit hjob hstay (fun row row' hrow he => ?_) row hrow
      obtain ⟨hactive, hallowed, -, rfl, -⟩ := admitRetry_ok he
      -- seen from the old attempt, this is the retry of the attempt's own machine
      refine hwork now .retry row { row.records with active := false } none hw hrow ?_
      simp [Store.perform, silent, Store.retry, require, hactive, hallowed]
      rfl
    · obtain ⟨row', -, row'', -, he⟩ := Rows.edit_mem hedit
      obtain ⟨-, -, -, -, rfl⟩ := admitRetry_ok he
      rw [List.mem_singleton] at hrow
      subst hrow
      exact hnew now _ _ hw

/-- The records of an attempt are those of a run of its own machine, under the clock of the
store. -/
def AttemptRow.Reached (c : Codec) (floor : ℤ) (row : AttemptRow) : Prop :=
  0 ≤ row.records.floor ∧ row.records.floor ≤ floor ∧
    ∃ now txs, row.records = Run.run (Records.step c row.frozen) (admitted now) txs

theorem AttemptRow.Reached.mono {floor later : ℤ} (h : row.Reached c floor) (hle : floor ≤ later) :
    row.Reached c later := ⟨h.1, h.2.1.trans hle, h.2.2⟩

/-- A transaction of the store is one of the attempt, with the time of the store for a wall
clock. -/
theorem AttemptRow.Reached.perform {q : Request} {y : Records} {floor wall next : ℤ}
    (hr : row.Reached c floor) (hw : write floor wall = .ok (now, next))
    (hp : Store.perform c row.frozen row.records now q = .ok (y, h?)) :
    { row with records := { y with floor := nextFloor now } }.Reached c next := by
  obtain ⟨h0, hle, start, txs, hrun⟩ := hr
  have hown : write row.records.floor now = .ok (now, next) := write_again hw h0 hle
  obtain ⟨-, -, hnext, hv⟩ := write_eq_ok hw
  refine ⟨?_, hnext.ge, start, txs ++ [⟨now, q⟩], ?_⟩
  · exact nextFloor_nonneg ((validTime_iff now).mp hv).1
  · have hstep : row.records.step c row.frozen ⟨now, q⟩ = some { y with floor := next } := by
      refine step_eq_some.mpr ⟨h?, ?_⟩
      simp only [Records.transact, bind_eq_ok, pure_eq_ok, Prod.mk.injEq, Prod.exists]
      exact ⟨now, next, hown, y, h?, hp, rfl, rfl⟩
    rw [Run.run_concat, ← hrun, hstep, hnext]
    rfl

/-- **One attempt of many.** Along every run of the store, the records of each attempt are reached
by a run of the attempt's own machine. -/
theorem attempt_run (c : Codec) (txs : List JobTx) :
    ∀ job ∈ (Run.run (Jobs.step c) {} txs).jobs, ∀ row ∈ job.attempts,
      row.Reached c (Run.run (Jobs.step c) {} txs).floor := by
  refine Run.run_invariant (P := fun s : Jobs => ∀ job ∈ s.jobs, ∀ row ∈ job.attempts,
    row.Reached c s.floor) (by simp) ?_ txs
  intro s tx t h hs
  refine Jobs.step_forall hs h (fun row hrow => ?_) (fun now r number hw => ?_)
    fun now q row y h? hw hrow hp => hrow.perform hw hp
  · obtain ⟨now, h?, hw, -⟩ := Jobs.step_ok hs
    exact hrow.mono (floor_le_of_write hw)
  · obtain ⟨-, -, hnext, hv⟩ := write_eq_ok hw
    exact ⟨nextFloor_nonneg ((validTime_iff now).mp hv).1, hnext.ge, now, [], rfl⟩

/-! ### Retries -/

/-- Exactly one attempt of the job is the active one, and a retry may follow each of the others. -/
structure Job.Settled (job : Job) : Prop where
  pointer : job.attempts.countP (fun row => row.records.active) = 1
  history : ∀ row ∈ job.attempts, row.records.active = false →
    retryAllowed row.records.attempt.state = true

theorem Job.Settled.work {attemptID : String} {q : Request} (h : job.Settled)
    (hw : job.work c attemptID q now = .ok (job', h?)) : job'.Settled := by
  obtain ⟨attempts, he, rfl⟩ := Job.work_ok hw
  constructor
  · rw [← h.pointer]
    refine Rows.edit_countP he fun row row' he => ?_
    obtain ⟨y, hq, hy, rfl⟩ := AttemptRow.work_ok he
    exact (perform_kept hq hy).active
  · refine Rows.edit_forall he h.history (fun _ hrow => hrow) fun row row' hrow he hinactive => ?_
    obtain ⟨y, hq, hy, rfl⟩ := AttemptRow.work_ok he
    have hx : row.records.active = false := (perform_kept hq hy).active ▸ hinactive
    have hy := retryAllowed_perform hx (hrow hx) hy
    exact hy

theorem Job.Settled.retry {q : RetryRequest} (h : job.Settled)
    (hr : job.retry c q now = .ok (job', h?)) : job'.Settled := by
  obtain ⟨attempts, new, he, rfl⟩ := Job.retry_ok hr
  obtain ⟨row0, -, row0', -, hrow0⟩ := Rows.edit_mem he
  obtain ⟨-, -, -, -, rfl⟩ := admitRetry_ok hrow0
  constructor
  · -- the old attempt gives the pointer away, the new one has it
    have hleave := Rows.edit_countP_leave (q := fun row : AttemptRow => row.records.active) he
      fun row row' he => by
        obtain ⟨hactive, -, -, rfl, -⟩ := admitRetry_ok he
        exact ⟨hactive, rfl⟩
    rw [h.pointer] at hleave
    simp only [List.countP_append, List.countP_singleton]
    simp only [admitted, if_true]
    omega
  · intro row hrow hinactive
    rcases List.mem_append.mp hrow with hrow | hrow
    · refine Rows.edit_forall he h.history (fun _ hrow => hrow) (fun row row' _ he _ => ?_) row hrow
        hinactive
      obtain ⟨-, hallowed, -, rfl, -⟩ := admitRetry_ok he
      exact hallowed
    · rw [List.mem_singleton] at hrow
      subst hrow
      cases hinactive

theorem settled_step (h : ∀ job ∈ s.jobs, job.Settled) (hs : s.step c tx = some t) :
    ∀ job ∈ t.jobs, job.Settled := by
  obtain ⟨now, h?, -, hp⟩ := Jobs.step_ok hs
  cases hq : tx.request with
  | admitJob r inputs applicationImage objects =>
    simp only [hq, Jobs.perform, Jobs.admitJob, bind_eq_ok, pure_eq_ok, Prod.mk.injEq] at hp
    obtain ⟨-, -, hjobs, -⟩ := hp
    rw [← hjobs]
    intro job hjob
    rcases List.mem_append.mp hjob with hjob | hjob
    · exact h job hjob
    · rw [List.mem_singleton] at hjob
      subst hjob
      exact ⟨by simp [admitted], by simp [admitted]⟩
  | work workspaceID jobID attemptID q =>
    rw [hq] at hp
    exact Rows.edit_forall hp h (fun _ hjob => hjob) fun job job' hjob he => hjob.work he
  | retry workspaceID jobID q =>
    rw [hq] at hp
    exact Rows.edit_forall hp h (fun _ hjob => hjob) fun job job' hjob he => hjob.retry he

/-- At most one attempt of the job can still make progress. -/
theorem Job.Settled.one_live (h : job.Settled) :
    job.attempts.countP (fun row => !row.records.attempt.state.orchestration.terminal) ≤ 1 := by
  rw [← h.pointer]
  refine List.countP_mono_left fun row hrow hlive => ?_
  by_contra hinactive
  obtain ⟨-, -, -, hterm, -⟩ := retryAllowed_iff.mp (h.history row hrow (by simpa using hinactive))
  simp [hterm] at hlive

/-- What the journal of the attempt before says when a retry is admitted. -/
theorem journalProves_cases {s : AttemptState} {j : Journal} (h : journalProves s j = true) :
    j.submitStarted = false ∧ s.execution = .notSubmitted ∨
      j.phase = .rejected ∧ s.execution = .notSubmitted ∨
      ∃ o, j.observation = some o ∧ o.execution.terminal = true ∧ o.execution = s.execution := by
  unfold journalProves at h
  split_ifs at h with hsub hexec
  · exact Or.inr (Or.inl ⟨by simpa using h, hexec⟩)
  · simp only [Bool.and_eq_true, Option.any_eq_true, decide_eq_true_eq] at h
    exact Or.inr (Or.inr h.2)
  · exact Or.inl ⟨by simpa using hsub, by simpa using h⟩

/-- **Retries never run beside or re-run finished work.** In every state of the store, every attempt
of a job other than its active one is settled without success and holds no account, so that at most
one attempt of the job is not settled; and a retry is admitted only for the active attempt of the
job it names, where its journal proves that nothing was submitted, that the submission was rejected,
or how the execution ended. -/
theorem retries_run_after_settled_work (c : Codec) (txs : List JobTx) :
    (∀ job ∈ (Run.run (Jobs.step c) {} txs).jobs,
      job.attempts.countP (fun row => row.records.active) = 1 ∧
      (∀ row ∈ job.attempts, row.records.active = false →
        row.records.attempt.state.orchestration.terminal = true ∧
        (row.records.attempt.state.execution = .notSubmitted ∨
          row.records.attempt.state.execution.terminal = true) ∧
        row.records.attempt.state.execution ≠ .succeeded ∧
        (row.records.attempt.state.remoteActivity = .notStarted ∨
          row.records.attempt.state.remoteActivity = .inactive) ∧
        ∀ barrier, holdsAccount row.records.attempt.state barrier = false) ∧
      job.attempts.countP (fun row => !row.records.attempt.state.orchestration.terminal) ≤ 1) ∧
    ∀ wall workspaceID jobID q t,
      (Run.run (Jobs.step c) {} txs).step c ⟨wall, .retry workspaceID jobID q⟩ = some t →
      ∃ job ∈ (Run.run (Jobs.step c) {} txs).jobs,
        job.workspaceID = workspaceID ∧ job.jobID = jobID ∧ ∃ row ∈ job.attempts,
        row.frozen.attemptID = q.attemptID ∧ row.records.active = true ∧
        (row.records.current.submitStarted = false ∧
            row.records.attempt.state.execution = .notSubmitted ∨
          row.records.current.phase = .rejected ∧
            row.records.attempt.state.execution = .notSubmitted ∨
          ∃ o, row.records.current.observation = some o ∧ o.execution.terminal = true ∧
            o.execution = row.records.attempt.state.execution) := by
  have hrun : ∀ job ∈ (Run.run (Jobs.step c) {} txs).jobs, job.Settled :=
    Run.run_invariant (P := fun s : Jobs => ∀ job ∈ s.jobs, job.Settled) (by simp)
      (fun s tx t h hs => settled_step h hs) txs
  refine ⟨fun job hjob => ⟨(hrun job hjob).pointer, fun row hrow hinactive => ?_,
    (hrun job hjob).one_live⟩, fun wall workspaceID jobID q t hs => ?_⟩
  · have hallowed := (hrun job hjob).history row hrow hinactive
    obtain ⟨-, hact, hexec, hterm, hdone⟩ := retryAllowed_iff.mp hallowed
    exact ⟨hterm, hdone, hexec, hact, holdsAccount_of_retryAllowed hallowed⟩
  · obtain ⟨now, h?, -, hp⟩ := Jobs.step_ok hs
    obtain ⟨job, hjob, job', hnames, hretry⟩ := Rows.edit_mem hp
    rw [Bool.and_eq_true, decide_eq_true_eq, decide_eq_true_eq] at hnames
    obtain ⟨attempts, new, he, -⟩ := Job.retry_ok hretry
    obtain ⟨row, hrow, row', hid, hnew⟩ := Rows.edit_mem he
    obtain ⟨hactive, -, hproof, -⟩ := admitRetry_ok hnew
    exact ⟨job, hjob, hnames.1, hnames.2, row, hrow, by simpa using hid, hactive,
      journalProves_cases hproof⟩

/-! A job whose first attempt is cancelled before anything is submitted, and its retry. -/

def sampleObject : ObjectMetadata := ⟨"workspace", "bundle", 8, emptyObjectSHA256⟩

def samplePrevented : Attempt where
  state := { initialAttemptState with
    orchestration := .cancelled, cancellation := .prevented, releaseEvidence := .notApplicable }
  revision := 2
  updatedAt := 0

def sampleRetry : RetryRequest where
  attemptID := "attempt"
  seen := (1, samplePrevented)
  objects := [sampleObject]
  retained := [sampleObject]
  new := { attemptID := ⟨"second", by decide⟩, nonce := "fedcba9876543210", sequence := 2
           resolved := none }

def sampleRetried : List JobTx :=
  ([.admitJob (sampleJob false) 0 false [sampleObject],
    -- not before the outcome of the first attempt is settled
    .retry "workspace" "job" sampleRetry,
    .work "workspace" "job" "attempt" (.cancel true),
    .retry "workspace" "job" sampleRetry,
    -- and not again for an attempt that is no longer the active one
    .retry "workspace" "job" sampleRetry,
    .work "workspace" "job" "attempt" sampleLease.request,
    .work "workspace" "job" "second" sampleLease.request] : List JobRequest).map fun q => ⟨0, q⟩

example : ((Run.run (Jobs.step sampleEncoders) {} sampleRetried).jobs.map fun job =>
    job.attempts.map fun row =>
      (row.frozen.attemptID, row.records.active, row.records.attempt.state.orchestration)) =
    [[("attempt", false, .cancelled), ("second", true, .preparing)]] := by
  decide +kernel

end Runs

end Store
end ComputeRelay
