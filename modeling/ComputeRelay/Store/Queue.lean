import Mathlib.Tactic
import ComputeRelay.Dispatch.Control
import ComputeRelay.Scheduler.Select
import ComputeRelay.Store.Lease

/-!
# The queue of attempts

The rows of the scheduler's queue and the transactions that claim, renew, yield, advance and control
them: `ClaimNext` (`internal/store/sqlite/scheduler.go`), `ClaimRecovery`, `RenewDispatch` and
`YieldDispatch` (`dispatch_lease.go`), `CommitDispatch` (`dispatch.go`) and the control requests
(`operations_actions.go`, `operations_dispatch.go`). Settings and policies are fixed; a row keeps
its account, its resource and their limits.

* `Queue.step` is one transaction at a time that is not before the last one. Where a transaction has
  further reasons to refuse (grants, host policies, pending operations), they are left out, so more
  steps are considered than the store lets through.
* `Row.holds_of_control` and its companions say that no step but `ClaimNext` makes a row a holder.
* `no_overcommit` is the main result: accounts and resources stay within their limits.
-/

namespace ComputeRelay
namespace Store

open Domain Scheduler Dispatch

/-! ### Rows -/

/-- A row of the queue joined with its attempt, its journal and its lease. The state of an attempt
is always a valid one. -/
structure Row (κ : Type) extends Scheduler.Identity where
  sequence : ℤ
  accountScope : String
  providerInstanceID : String
  policy : AccountPolicy
  resource : String
  wallSeconds : ℤ
  resourceKind : String
  resourceScope : String
  resourceMaxActive : ℤ
  activeAttempt : Bool
  workspaceEnabled : Bool
  authorizationGranted : Bool
  notBeforeMs : ℤ
  quota : κ
  barrier : Bool
  lease : Option LeaseRow
  journal : Journal
  state : AttemptState
  stateValid : state.validate = true

variable {κ : Type}

/-- The expiry of a lease that is held, the zero time otherwise. -/
def leaseUntil (lease : Option LeaseRow) : ℤ :=
  match lease with
  | some l => if l.held then ofMilli l.untilMs else Provider.zeroTime
  | none => Provider.zeroTime

/-- The row as `schedulerSnapshot` hands it to `Select`. -/
def Row.candidate (r : Row κ) : Candidate κ where
  toIdentity := r.toIdentity
  sequence := r.sequence
  state := r.state
  activeAttempt := r.activeAttempt
  workspaceEnabled := r.workspaceEnabled
  accountScope := r.accountScope
  providerInstanceID := r.providerInstanceID
  policy := r.policy
  resource := r.resource
  wallSeconds := r.wallSeconds
  dispatchBarrier := r.barrier
  leaseUntil := leaseUntil r.lease
  notBefore := if 0 < r.notBeforeMs then ofMilli r.notBeforeMs else Provider.zeroTime
  quota := r.quota
  resourceKind := r.resourceKind
  resourceScope := r.resourceScope
  resourceMaxActive := r.resourceMaxActive
  authorizationGranted := r.authorizationGranted

/-- The row holds capacity of its account and of its resource. -/
def Row.holds (r : Row κ) (now : ℤ) : Bool := holdsCapacity r.candidate now

/-- The lease of the row is held and has not expired. -/
def Row.live (r : Row κ) (now : ℤ) : Bool := r.lease.any fun l => l.live now

/-- The row is part of the snapshot. -/
def Row.outstanding (r : Row κ) (now : ℤ) : Bool :=
  !r.state.orchestration.terminal || r.lease.any fun l => l.held && unixMilli now < l.untilMs

/-- What `loadDispatch` and `controlWork` ask of the journal and the barrier. -/
def Row.agrees (c : Dispatch.Codec) (r : Row κ) : Bool :=
  r.journal.valid c.toCodec &&
  (if r.journal.plan.isSome then r.barrier
   else !r.barrier || r.journal.phase = .failed || r.journal.phase = .prevented)

/-- `loadDispatch` on top of `agrees`: without a plan the row must still be local. -/
def Row.loads (c : Dispatch.Codec) (r : Row κ) : Bool :=
  r.agrees c && (r.journal.plan.isSome || r.journal.phase = .failed ||
    r.journal.phase = .prevented || localOnly r.state)

/-- A step of the pair of the row. -/
def Row.control (c : Dispatch.Codec) (r : Row κ) (l : Control) : Option (Row κ) :=
  match h : Dispatch.control c (r.journal, r.state) l with
  | none => none
  | some y => some { r with
      journal := y.1
      state := y.2
      stateValid := validate_of_moves (control_moves h) r.stateValid }

/-! ### Transactions -/

/-- What the owner of a lease commits: an action, a report on the stop request, the end of the
polls. -/
inductive WorkerStep
  | commit (a : Action)
  | report (r : CancellationReport)
  | exhausted

def WorkerStep.control (now : ℤ) : WorkerStep → Control
  | .commit a => .act a now
  | .report r => .report r now
  | .exhausted => .exhausted

def WorkerStep.allowed : WorkerStep → Bool
  | .commit a => !controlOnly a.kind
  | _ => true

def WorkerStep.setsBarrier : WorkerStep → Bool
  | .commit a => a.kind = .beginPreparation
  | _ => false

/-- What a client asks for: an action of a control kind, or a cancellation. -/
inductive OperatorStep
  | act (a : Action)
  | cancel (uninvoked : Bool)

def OperatorStep.control (now : ℤ) : OperatorStep → Control
  | .act a => .act a now
  | .cancel uninvoked => .cancel uninvoked now

def OperatorStep.allowed : OperatorStep → Bool
  | .act a => controlOnly a.kind
  | .cancel _ => true

/-- Columns that other transactions change. -/
structure Amendment (κ : Type) where
  activeAttempt : Bool
  workspaceEnabled : Bool
  authorizationGranted : Bool
  notBeforeMs : ℤ
  quota : κ

inductive Event (κ : Type)
  | claimNext (owner fence : String)
  | claimRecovery (i : ℕ) (owner fence : String)
  | renew (i : ℕ) (lease : WorkLease)
  | yield (i : ℕ) (lease : WorkLease) (delay : ℤ)
  | work (i : ℕ) (lease : WorkLease) (s : WorkerStep)
  | operate (i : ℕ) (s : OperatorStep)
  | amend (i : ℕ) (a : Amendment κ)
  | enqueue (r : Row κ)

structure Queue (κ : Type) where
  time : ℤ
  lastWorkspace : String
  rows : List (Row κ)

section Transactions

variable (c : Dispatch.Codec) (settings : Settings) (decideQuota : DecideQuota κ)

/-- The outstanding rows with their place in the queue. -/
def Queue.snapshot (x : Queue κ) (now : ℤ) : List (Row κ × ℕ) :=
  x.rows.zipIdx.filter fun p => p.1.outstanding now

/-- `Select` on the snapshot. -/
def Queue.select (x : Queue κ) (now : ℤ) : Except SelectErr (Option ℕ × View) :=
  Scheduler.select decideQuota settings now ((x.snapshot now).map fun p => p.1.candidate)
    x.lastWorkspace

/-- The lease a worker asks for. -/
def wantedLease (owner : String) : WorkLease := ⟨owner, "", 0, none, none⟩

/-- The claim of a row that `Select` has chosen. -/
def Row.claim (r : Row κ) (owner fence : String) (now : ℤ) : Option (Row κ) :=
  (claimWorkLease .dispatch r.lease (wantedLease owner) fence now
    settings.leaseDuration).toOption.bind fun lease =>
      if h : validateAttemptStateTransition r.state (claimedState r.state) = true then
        some { r with
          lease := some lease
          state := claimedState r.state
          stateValid := ((AttemptState.moves_iff ..).mp h).next }
      else none

/-- `ClaimNext`. -/
def Queue.claimNext (x : Queue κ) (owner fence : String) (now : ℤ) : Option (Queue κ) :=
  if !validOpaqueID owner then none
  else match x.select settings decideQuota now with
    | .error _ => none
    | .ok (chosen, _) =>
      (chosen.bind fun k => (x.snapshot now)[k]?).bind fun (r, i) =>
        (r.claim settings owner fence now).map fun r' =>
          { x with rows := x.rows.set i r', lastWorkspace := r.workspaceID }

/-- The rows `ClaimRecovery` looks for. -/
def Row.recoverable (r : Row κ) (now : ℤ) : Bool :=
  r.activeAttempt && r.barrier &&
  (r.journal.phase = .staging || r.journal.phase = .ready || r.journal.phase = .submitting ||
    r.journal.phase = .submitted) &&
  !r.state.orchestration.terminal && decide (r.notBeforeMs ≤ unixMilli now) &&
  r.lease.all fun l => !l.held || l.untilMs ≤ unixMilli now

/-- `ClaimRecovery` of one of the recoverable rows; the state stays as it is. -/
def Row.recover (r : Row κ) (owner fence : String) (now : ℤ) : Option (Row κ) :=
  if !validOpaqueID owner ∨ !r.recoverable now ∨ !r.loads c then none
  else (claimWorkLease .dispatch r.lease (wantedLease owner) fence now
    settings.leaseDuration).toOption.map fun lease => { r with lease := some lease }

/-- `RenewDispatch`. -/
def Row.renew (r : Row κ) (want : WorkLease) (now : ℤ) : Option (Row κ) :=
  if !r.loads c then none
  else (renewWorkLease .dispatch r.lease want now settings.leaseDuration).toOption.map fun lease =>
    { r with lease := some lease }

/-- `YieldDispatch`: the state and the barrier stay, only the lease is released. -/
def Row.yield (r : Row κ) (want : WorkLease) (delay now : ℤ) : Option (Row κ) :=
  if delay < 0 ∨ 3600 * Rfc3339.second < delay ∨ !r.loads c ∨ !validTime (now + delay) then none
  else (releaseWorkLease .dispatch r.lease want now).toOption.map fun lease =>
    { r with lease := some lease, notBeforeMs := unixMilli (now + delay) }

/-- `CommitDispatch` and `CommitCancellation` by the owner of the lease. -/
def Row.work (r : Row κ) (want : WorkLease) (s : WorkerStep) (now : ℤ) : Option (Row κ) :=
  if !s.allowed ∨ !r.loads c then none
  else (checkWorkLease .dispatch r.lease want now).toOption.bind fun _ =>
    (r.control c (s.control now)).map fun r' => { r' with barrier := r.barrier || s.setsBarrier }

/-- A control request; it holds no lease. -/
def Row.operate (r : Row κ) (s : OperatorStep) (now : ℤ) : Option (Row κ) :=
  if !s.allowed ∨ !r.agrees c then none else r.control c (s.control now)

def Row.amend (r : Row κ) (a : Amendment κ) : Row κ :=
  { r with
    activeAttempt := a.activeAttempt
    workspaceEnabled := a.workspaceEnabled
    authorizationGranted := a.authorizationGranted
    notBeforeMs := a.notBeforeMs
    quota := a.quota }

/-- A row as it is admitted: not planned, not claimed, in the initial state. -/
def Row.fresh (r : Row κ) : Bool :=
  !r.barrier && r.lease.isNone && decide (r.state = initialAttemptState)

def Queue.update (x : Queue κ) (i : ℕ) (f : Row κ → Option (Row κ)) : Option (Queue κ) :=
  x.rows[i]?.bind fun r => (f r).map fun r' => { x with rows := x.rows.set i r' }

/-- One transaction. -/
def Queue.event (x : Queue κ) (now : ℤ) : Event κ → Option (Queue κ)
  | .claimNext owner fence => x.claimNext settings decideQuota owner fence now
  | .claimRecovery i owner fence =>
    match x.select settings decideQuota now with
    | .error _ => none
    | .ok (_, view) =>
      if settings.maxWorkers ≤ view.liveWorkers then none
      else x.update i fun r => r.recover c settings owner fence now
  | .renew i lease => x.update i fun r => r.renew c settings lease now
  | .yield i lease delay => x.update i fun r => r.yield c lease delay now
  | .work i lease s => x.update i fun r => r.work c lease s now
  | .operate i s => x.update i fun r => r.operate c s now
  | .amend i a => x.update i fun r => some (r.amend a)
  | .enqueue r => if r.fresh then some { x with rows := x.rows ++ [r] } else none

/-- One transaction, at a valid time that is not before the last one. -/
def Queue.step (x : Queue κ) (l : ℤ × Event κ) : Option (Queue κ) :=
  if l.1 < x.time ∨ !validTime l.1 then none
  else (x.event c settings decideQuota l.1 l.2).map fun y => { y with time := l.1 }

end Transactions

/-! ### Who becomes a holder -/

section Holders

variable {c : Dispatch.Codec} {r r' : Row κ} {now : ℤ}

theorem lt_leaseUntil_iff (hnow : 0 ≤ now) (lease : Option LeaseRow) :
    now < leaseUntil lease ↔ lease.any (fun l => l.live now) = true := by
  have hzero : Provider.zeroTime < 0 := by decide
  cases lease with
  | none => simp [leaseUntil]; omega
  | some l =>
    cases hl : l.held
    · simp [leaseUntil, hl, LeaseRow.live]; omega
    · simp [leaseUntil, hl, LeaseRow.live]

theorem Row.holds_iff (hnow : 0 ≤ now) : r.holds now = true ↔
    (r.live now = true ∧ localOnly r.state = true) ∨ holdsAccount r.state r.barrier = true := by
  simp only [Row.holds, holdsCapacity, Bool.or_eq_true, Bool.and_eq_true, decide_eq_true_eq,
    Row.candidate, lt_leaseUntil_iff hnow, Row.live]

theorem holdsAccount_of_released {s : AttemptState} (hv : s.validate = true) (h : Released s)
    (b : Bool) : holdsAccount s b = false := by
  unfold holdsAccount
  rw [hv]
  rcases h with h | ⟨h1, h2, h3⟩
  · simp [h]
  · simp [h1, h2, h3]

theorem localOnly_of_released {s : AttemptState} (h : Released s) : localOnly s = false := by
  unfold localOnly
  rcases h with h | ⟨h1, -, -⟩
  · simp [h]
  · cases ho : s.orchestration <;> simp_all [OrchestrationState.terminal]

theorem Row.not_holds_of_released (hnow : 0 ≤ now) (h : Released r.state) :
    r.holds now = false := by
  rw [Bool.eq_false_iff, ne_eq, Row.holds_iff hnow]
  simp [localOnly_of_released h, holdsAccount_of_released r.stateValid h]

/-- Behind the barrier a row holds until its state is released. -/
theorem Row.holds_barrier_iff (hnow : 0 ≤ now) (hb : r.barrier = true) :
    r.holds now = true ↔ ¬Released r.state := by
  constructor
  · intro h hr
    rw [Row.not_holds_of_released hnow hr] at h
    cases h
  · intro hr
    rw [Row.holds_iff hnow, hb]
    refine .inr ?_
    rw [← Bool.not_eq_false, holdsAccount_barrier_eq_false_iff r.stateValid]
    exact hr

/-- The frozen columns of a row. -/
structure Row.Frozen (r r' : Row κ) : Prop where
  accountScope : r'.accountScope = r.accountScope
  policy : r'.policy = r.policy
  resourceScope : r'.resourceScope = r.resourceScope
  resourceMaxActive : r'.resourceMaxActive = r.resourceMaxActive

theorem Row.control_eq_some {l : Control} (h : r.control c l = some r') :
    Dispatch.control c (r.journal, r.state) l = some (r'.journal, r'.state) ∧
      r'.barrier = r.barrier ∧ r'.lease = r.lease ∧ r.Frozen r' := by
  unfold Row.control at h
  split at h
  · cases h
  · rename_i y hy
    cases h
    exact ⟨hy, rfl, rfl, rfl, rfl, rfl, rfl⟩

theorem Row.work_eq_some {want : WorkLease} {s : WorkerStep} (h : r.work c want s now = some r') :
    r.loads c = true ∧ r.live now = true ∧
      Dispatch.control c (r.journal, r.state) (s.control now) = some (r'.journal, r'.state) ∧
      r'.barrier = (r.barrier || s.setsBarrier) ∧ r.Frozen r' := by
  unfold Row.work at h
  split_ifs at h with hguard
  simp only [not_or, Bool.not_eq_true', Bool.not_eq_false] at hguard
  obtain ⟨lease, hlease, h⟩ := Option.bind_eq_some_iff.mp h
  obtain ⟨r₁, hr₁, rfl⟩ := Option.map_eq_some_iff.mp h
  obtain ⟨hcontrol, -, -, hfrozen⟩ := Row.control_eq_some hr₁
  obtain ⟨hrow, hlive, -⟩ := checkWorkLease_eq_ok.mp (toOption_eq_some hlease)
  exact ⟨hguard.2, by simp [Row.live, hrow, hlive], hcontrol, rfl, hfrozen.1, hfrozen.2, hfrozen.3,
    hfrozen.4⟩

theorem Row.operate_eq_some {s : OperatorStep} (h : r.operate c s now = some r') :
    s.allowed = true ∧ r.agrees c = true ∧
      Dispatch.control c (r.journal, r.state) (s.control now) = some (r'.journal, r'.state) ∧
      r'.barrier = r.barrier ∧ r'.lease = r.lease ∧ r.Frozen r' := by
  unfold Row.operate at h
  split_ifs at h with hguard
  simp only [not_or, Bool.not_eq_true', Bool.not_eq_false] at hguard
  exact ⟨hguard.1, hguard.2, Row.control_eq_some h⟩

theorem released_of_stopped {s : AttemptState} {o : OrchestrationState} (k : CancellationState)
    (e : ReleaseEvidence) (deadline : Bool) (ho : o.terminal = true)
    (he : s.execution = .notSubmitted)
    (ha : s.remoteActivity = .notStarted ∨ s.remoteActivity = .inactive) :
    Released { s with orchestration := o, cancellation := k, releaseEvidence := e,
                      deadlineExceeded := deadline } :=
  ha.elim (fun h => .inr ⟨ho, he, h⟩) .inl

/-- On a closed journal without a submission only a stop is accepted. -/
theorem released_of_closed {j : Journal} {s : AttemptState} {a : Action} {d : Draft}
    (hd : StepCase c j s a now d) (hphase : j.phase = .failed ∨ j.phase = .prevented)
    (hs : j.submitStarted = false) : Released d.next := by
  cases hd with
  | prevented _ _ _ execution activity | expired _ _ _ _ execution activity _ =>
    exact released_of_stopped _ _ _ rfl execution activity
  | _ => rcases hphase with hp | hp <;> simp_all [Phase.open_]

theorem released_of_controlOnly {j : Journal} {s : AttemptState} {a : Action} {d : Draft}
    (hd : StepCase c j s a now d) (hv : j.valid c.toCodec = true) (hplan : j.plan = none)
    (hk : controlOnly a.kind = true) : Released d.next := by
  have hs := unstarted_of_unplanned hv hplan
  have hphase : j.phase = .local_ ∨ j.phase = .failed ∨ j.phase = .prevented := by
    by_contra hp
    simp only [not_or] at hp
    obtain ⟨plan, hsome, -⟩ := planned_of_phase hv hp
    rw [hplan] at hsome
    cases hsome
  cases hd with
  | prevented _ _ _ execution activity =>
    exact released_of_stopped _ _ _ rfl execution activity
  | reobserved _ _ _ _ phase =>
    rcases hphase with hp | hp | hp <;> simp [hp] at phase
  | _ => simp_all [controlOnly]

/-- The step of the pair behind an accepted action. -/
theorem stepCase_of_act {j j' : Journal} {s t : AttemptState} {a : Action}
    (h : Dispatch.control c (j, s) (.act a now) = some (j', t)) :
    ∃ d, StepCase c j s a now d ∧ t = d.next := by
  obtain ⟨e, he⟩ := advance_eq_some h
  obtain ⟨-, d, hd, -, ht, -⟩ := apply_ok he
  exact ⟨d, hd, ht⟩

theorem submitted_of_report {x y : Config} {report : CancellationReport}
    (h : Dispatch.control c x (.report report now) = some y) : x.1.phase = .submitted := by
  simp only [Dispatch.control, Dispatch.commitCancellation] at h
  split at h
  · cases h
  · rw [Option.ite_none_left_eq_some, not_not] at h
    exact h.1

/-- A cancellation of a journal without a plan changes nothing, stops the dispatch, or edits the
cancellation of an execution that has ended. -/
theorem requestCancellation_unplanned {j j' : Journal} {s t : AttemptState} {uninvoked : Bool}
    (hv : j.valid c.toCodec = true) (hplan : j.plan = none)
    (h : requestCancellation c (j, s) uninvoked now = some (j', t)) :
    t = s ∨ Released t ∨ (s.execution.terminal = true ∧ ∃ k, t = { s with cancellation := k }) := by
  have hs := unstarted_of_unplanned hv hplan
  unfold requestCancellation at h
  dsimp only at h
  split_ifs at h with hterm hexec hfirst hstarted
  · cases h
    exact .inl rfl
  · obtain ⟨u, hu, h⟩ := Option.bind_eq_some_iff.mp h
    obtain ⟨rfl, -⟩ := transition_eq_some hu
    obtain ⟨heq, -⟩ := edit_eq_some h
    exact .inr (.inr ⟨hexec, _, (Prod.mk.inj heq).2⟩)
  · obtain ⟨u, hu, h⟩ := Option.bind_eq_some_iff.mp h
    cases hu
    obtain ⟨heq, -⟩ := edit_eq_some h
    exact .inr (.inr ⟨hexec, _, (Prod.mk.inj heq).2⟩)
  · obtain ⟨e, he⟩ := advance_eq_some h
    obtain ⟨-, d, hd, -, hnext, -⟩ := apply_ok he
    refine .inr (.inl ?_)
    rw [show t = d.next from hnext]
    exact released_of_controlOnly hd hv hplan rfl
  all_goals simp [hs] at hstarted

theorem holdsAccount_cancellation {s : AttemptState} {k : CancellationState} {b : Bool}
    (hs : s.validate = true) (ht : ({ s with cancellation := k } : AttemptState).validate = true) :
    holdsAccount { s with cancellation := k } b = holdsAccount s b := by
  simp only [holdsAccount, hs, ht]

theorem Row.plan_of_agrees (h : r.agrees c = true) (hb : r.barrier = false) :
    r.journal.valid c.toCodec = true ∧ r.journal.plan = none := by
  simp only [Row.agrees, Bool.and_eq_true] at h
  refine ⟨h.1, ?_⟩
  cases hplan : r.journal.plan with
  | none => rfl
  | some plan => simp [hplan, hb] at h

/-- Behind the barrier no move of the state makes a row a holder. -/
theorem Row.holds_of_moves (hnow : 0 ≤ now) (hb : r.barrier = true) (hb' : r'.barrier = true)
    (hm : Relation.ReflTransGen AttemptState.Moves r.state r'.state) (h : r'.holds now = true) :
    r.holds now = true := by
  rw [Row.holds_barrier_iff hnow hb'] at h
  rw [Row.holds_barrier_iff hnow hb]
  exact fun hr => h (released_of_moves hm hr)

/-- No commit of a lease owner makes a row a holder: the local row it starts from is one already. -/
theorem Row.holds_of_work (hnow : 0 ≤ now) {want : WorkLease} {s : WorkerStep}
    (hw : r.work c want s now = some r') (h : r'.holds now = true) : r.holds now = true := by
  obtain ⟨hloads, hlive, hcontrol, hbarrier, -⟩ := Row.work_eq_some hw
  simp only [Row.loads, Bool.and_eq_true] at hloads
  cases hb : r.barrier with
  | true => exact Row.holds_of_moves hnow hb (by simp [hbarrier, hb]) (control_moves hcontrol) h
  | false =>
    obtain ⟨hv, hplan⟩ := Row.plan_of_agrees hloads.1 hb
    by_cases hlocal : localOnly r.state = true
    · exact (Row.holds_iff hnow).mpr (.inl ⟨hlive, hlocal⟩)
    · -- the journal is closed, so the step can only be a stop
      have hphase : r.journal.phase = .failed ∨ r.journal.phase = .prevented := by
        simpa [hplan, hlocal] using hloads.2
      have hrel : Released r'.state := by
        cases s with
        | commit a =>
          obtain ⟨d, hd, hnext⟩ := stepCase_of_act hcontrol
          rw [hnext]
          exact released_of_closed hd hphase (unstarted_of_unplanned hv hplan)
        | report report =>
          have hsub : r.journal.phase = .submitted := submitted_of_report hcontrol
          rcases hphase with hp | hp <;> simp [hp] at hsub
        | exhausted =>
          simp only [WorkerStep.control, Dispatch.control, exhaustPolls,
            Option.ite_none_right_eq_some] at hcontrol
          rcases hphase with hp | hp <;> simp [hp] at hcontrol
      rw [Row.not_holds_of_released hnow hrel] at h
      cases h

theorem Row.holds_of_operate (hnow : 0 ≤ now) {s : OperatorStep}
    (ho : r.operate c s now = some r') (h : r'.holds now = true) : r.holds now = true := by
  obtain ⟨hallowed, hagrees, hcontrol, hbarrier, hlease, -⟩ := Row.operate_eq_some ho
  cases hb : r.barrier with
  | true => exact Row.holds_of_moves hnow hb (by rw [hbarrier, hb]) (control_moves hcontrol) h
  | false =>
    obtain ⟨hv, hplan⟩ := Row.plan_of_agrees hagrees hb
    have hcases : r'.state = r.state ∨ Released r'.state ∨ (r.state.execution.terminal = true ∧
        ∃ k, r'.state = { r.state with cancellation := k }) := by
      cases s with
      | act a =>
        obtain ⟨d, hd, hnext⟩ := stepCase_of_act hcontrol
        refine .inr (.inl ?_)
        rw [hnext]
        exact released_of_controlOnly hd hv hplan hallowed
      | cancel uninvoked => exact requestCancellation_unplanned hv hplan hcontrol
    have hlive : r'.live now = r.live now := by simp only [Row.live, hlease]
    rcases hcases with hs | hrel | ⟨hterm, k, hs⟩
    · rw [Row.holds_iff hnow] at h ⊢
      rwa [hlive, hbarrier, hs] at h
    · rw [Row.not_holds_of_released hnow hrel] at h
      cases h
    · have hvalid := r'.stateValid
      rw [Row.holds_iff hnow] at h ⊢
      rw [hs] at h hvalid
      rcases h with ⟨-, hlocal⟩ | h
      · simp only [localOnly, Bool.and_eq_true, decide_eq_true_eq] at hlocal
        simp [hlocal, ExecutionState.terminal] at hterm
      · rw [holdsAccount_cancellation r.stateValid hvalid, hbarrier] at h
        exact .inr h

/-- A row changes without becoming a holder. -/
structure Row.Quiet (now : ℤ) (r r' : Row κ) : Prop where
  frozen : r.Frozen r'
  holds : r'.holds now = true → r.holds now = true

/-- A change of the lease alone, where it was live before if it is live after. -/
theorem Row.quiet_of_lease (hnow : 0 ≤ now) (hfrozen : r.Frozen r') (hstate : r'.state = r.state)
    (hbarrier : r'.barrier = r.barrier) (hlive : r'.live now = true → r.live now = true) :
    r.Quiet now r' := by
  refine ⟨hfrozen, fun h => ?_⟩
  rw [Row.holds_iff hnow, hstate, hbarrier] at h
  rw [Row.holds_iff hnow]
  exact h.imp_left fun h => ⟨hlive h.1, h.2⟩

variable {settings : Settings}

theorem Row.quiet_of_renew (hnow : 0 ≤ now) {want : WorkLease}
    (h : r.renew c settings want now = some r') : r.Quiet now r' := by
  unfold Row.renew at h
  split_ifs at h
  obtain ⟨l, hl, rfl⟩ := Option.map_eq_some_iff.mp h
  obtain ⟨old, hcheck, -, -⟩ := renewWorkLease_eq_ok (toOption_eq_some hl)
  obtain ⟨hrow, hlive, -⟩ := checkWorkLease_eq_ok.mp hcheck
  exact Row.quiet_of_lease hnow ⟨rfl, rfl, rfl, rfl⟩ rfl rfl
    fun _ => by simp [Row.live, hrow, hlive]

theorem Row.quiet_of_yield (hnow : 0 ≤ now) {want : WorkLease} {delay : ℤ}
    (h : r.yield c want delay now = some r') : r.Quiet now r' := by
  unfold Row.yield at h
  split_ifs at h
  obtain ⟨l, hl, rfl⟩ := Option.map_eq_some_iff.mp h
  obtain ⟨old, hcheck, -⟩ := releaseWorkLease_eq_ok (toOption_eq_some hl)
  obtain ⟨hrow, hlive, -⟩ := checkWorkLease_eq_ok.mp hcheck
  exact Row.quiet_of_lease hnow ⟨rfl, rfl, rfl, rfl⟩ rfl rfl
    fun _ => by simp [Row.live, hrow, hlive]

/-- A recovered row is behind the barrier, where the lease does not matter. -/
theorem Row.quiet_of_recover (hnow : 0 ≤ now) {owner fence : String}
    (h : r.recover c settings owner fence now = some r') : r.Quiet now r' := by
  unfold Row.recover at h
  split_ifs at h with hguard
  simp only [not_or, Bool.not_eq_true', Bool.not_eq_false] at hguard
  have hb : r.barrier = true := by
    have := hguard.2.1
    simp only [Row.recoverable, Bool.and_eq_true] at this
    exact this.1.1.1.1.2
  obtain ⟨l, -, rfl⟩ := Option.map_eq_some_iff.mp h
  exact ⟨⟨rfl, rfl, rfl, rfl⟩, Row.holds_of_moves hnow hb hb .refl⟩

theorem Row.quiet_of_amend (hnow : 0 ≤ now) (r : Row κ) (a : Amendment κ) :
    r.Quiet now (r.amend a) :=
  Row.quiet_of_lease hnow ⟨rfl, rfl, rfl, rfl⟩ rfl rfl id

theorem Row.quiet_of_work (hnow : 0 ≤ now) {want : WorkLease} {s : WorkerStep}
    (h : r.work c want s now = some r') : r.Quiet now r' :=
  ⟨(Row.work_eq_some h).2.2.2.2, Row.holds_of_work hnow h⟩

theorem Row.quiet_of_operate (hnow : 0 ≤ now) {s : OperatorStep}
    (h : r.operate c s now = some r') : r.Quiet now r' :=
  ⟨(Row.operate_eq_some h).2.2.2.2.2, Row.holds_of_operate hnow h⟩

end Holders

/-! ### Accounts and resources -/

/-- Accounts and resources are within the limits at time `t`: of the settings, and of every
holder. -/
structure Queue.Fits (settings : Settings) (x : Queue κ) (t : ℤ) : Prop where
  account : ∀ a, Reservation.Fits settings.maxActivePerAccount (fun r => r.policy.maxActive)
    (onAccount t a) (x.rows.map Row.candidate)
  resource : ∀ scope ≠ "", Reservation.Fits settings.maxActivePerAccount
    (fun r => r.resourceMaxActive) (onResource t scope) (x.rows.map Row.candidate)

section Fits

variable {settings : Settings} {x y : Queue κ} {now : ℤ}

theorem holdsCapacity_of_le {r : Candidate κ} {t u : ℤ} (hle : t ≤ u)
    (h : holdsCapacity r u = true) : holdsCapacity r t = true := by
  simp only [holdsCapacity, Bool.or_eq_true, Bool.and_eq_true, decide_eq_true_eq] at h ⊢
  exact h.imp_left fun h => ⟨by omega, h.2⟩

/-- Time alone frees capacity: leases expire. -/
theorem Queue.Fits.later {t u : ℤ} (h : x.Fits settings t) (hle : t ≤ u) : x.Fits settings u where
  account a := (h.account a).mono fun r _ hr => by
    simp only [onAccount, Bool.and_eq_true] at hr ⊢
    exact ⟨holdsCapacity_of_le hle hr.1, hr.2⟩
  resource scope hs := (h.resource scope hs).mono fun r _ hr => by
    simp only [onResource, Bool.and_eq_true] at hr ⊢
    exact ⟨holdsCapacity_of_le hle hr.1, hr.2⟩

/-- A quiet change of one row. -/
theorem Queue.Fits.set {i : ℕ} {r r' : Row κ} (h : x.Fits settings now) (hi : x.rows[i]? = some r)
    (hq : r.Quiet now r') (hy : y.rows = x.rows.set i r') : y.Fits settings now := by
  have hmap : (x.rows.map Row.candidate)[i]? = some r.candidate := by simp [hi]
  constructor
  · intro a
    rw [hy, List.map_set]
    refine (h.account a).set hmap fun hr => ?_
    simp only [onAccount, Bool.and_eq_true, decide_eq_true_eq] at hr ⊢
    exact ⟨⟨hq.holds hr.1, hq.frozen.accountScope.symm.trans hr.2⟩,
      (congrArg AccountPolicy.maxActive hq.frozen.policy).ge⟩
  · intro scope hs
    rw [hy, List.map_set]
    refine (h.resource scope hs).set hmap fun hr => ?_
    simp only [onResource, Bool.and_eq_true, decide_eq_true_eq] at hr ⊢
    exact ⟨⟨hq.holds hr.1, hq.frozen.resourceScope.symm.trans hr.2⟩,
      hq.frozen.resourceMaxActive.ge⟩

theorem Queue.Fits.update {i : ℕ} {f : Row κ → Option (Row κ)} (h : x.Fits settings now)
    (hq : ∀ r r', f r = some r' → r.Quiet now r') (hy : x.update i f = some y) :
    y.Fits settings now := by
  obtain ⟨r, hi, hy⟩ := Option.bind_eq_some_iff.mp hy
  obtain ⟨r', hr', rfl⟩ := Option.map_eq_some_iff.mp hy
  exact h.set hi (hq r r' hr') rfl

/-! ### The claim -/

/-- Every holder is part of the snapshot: a row that is left out has ended and holds nothing. -/
theorem Row.outstanding_of_holds (hnow : 0 ≤ now) {r : Row κ} (h : r.holds now = true) :
    r.outstanding now = true := by
  cases ho : r.state.orchestration.terminal with
  | false => simp [Row.outstanding, ho]
  | true =>
    rw [Row.not_holds_of_released hnow (released_of_terminal r.stateValid ho)] at h
    cases h

theorem Queue.snapshot_candidates (x : Queue κ) (now : ℤ) :
    (x.snapshot now).map (fun p => p.1.candidate) =
      (x.rows.filter fun r => r.outstanding now).map Row.candidate := by
  have hfst : (x.snapshot now).map Prod.fst = x.rows.filter fun r => r.outstanding now := by
    rw [Queue.snapshot, ← List.zipIdx_map_fst 0 x.rows, List.filter_map, List.zipIdx_map_fst]
    rfl
  rw [← hfst, List.map_map]
  rfl

theorem Queue.row_of_snapshot {k i : ℕ} {r : Row κ} (h : (x.snapshot now)[k]? = some (r, i)) :
    x.rows[i]? = some r := by
  have hmem := (List.mem_filter.mp (List.mem_of_getElem? h)).1
  exact (List.mem_zipIdx_iff_getElem?).mp hmem

/-- The snapshot shows `Select` all holders, so the room it finds is room in the queue. -/
theorem Queue.room_of_snapshot (hnow : 0 ≤ now) {r : Candidate κ}
    (h : Room settings now ((x.snapshot now).map fun p => p.1.candidate) r) :
    Room settings now (x.rows.map Row.candidate) r := by
  have haccount : ∀ a, (((x.snapshot now).map fun p => p.1.candidate).filter (onAccount now a)) =
      (x.rows.map Row.candidate).filter (onAccount now a) := by
    intro a
    rw [Queue.snapshot_candidates]
    refine Reservation.filter_map_filter fun r _ hr => Row.outstanding_of_holds hnow ?_
    simp only [onAccount, Bool.and_eq_true] at hr
    exact hr.1
  have hresource : ∀ a, (((x.snapshot now).map fun p => p.1.candidate).filter
      (onResource now a)) = (x.rows.map Row.candidate).filter (onResource now a) := by
    intro a
    rw [Queue.snapshot_candidates]
    refine Reservation.filter_map_filter fun r _ hr => Row.outstanding_of_holds hnow ?_
    simp only [onResource, Bool.and_eq_true] at hr
    exact hr.1
  obtain ⟨h1, h2, h3, h4⟩ := h
  simp only [Reservation.limit, List.countP_eq_length_filter, haccount, hresource] at h1 h2 h3 h4
  refine ⟨?_, ?_, ?_, ?_⟩ <;>
    simpa only [Reservation.limit, List.countP_eq_length_filter] using ‹_›

theorem Row.claim_frozen {r r' : Row κ} {owner fence : String}
    (h : r.claim settings owner fence now = some r') : r.Frozen r' := by
  obtain ⟨l, -, h⟩ := Option.bind_eq_some_iff.mp h
  split_ifs at h
  cases h
  exact ⟨rfl, rfl, rfl, rfl⟩

/-- A chosen row joins the holders of its account and its resource, and of no other. -/
theorem Queue.Fits.claim {i : ℕ} {r r' : Row κ} (h : x.Fits settings now)
    (hi : x.rows[i]? = some r) (hroom : Room settings now (x.rows.map Row.candidate) r.candidate)
    (hf : r.Frozen r') (hy : y.rows = x.rows.set i r') : y.Fits settings now := by
  have hmap : (x.rows.map Row.candidate)[i]? = some r.candidate := by simp [hi]
  constructor
  · intro a
    rw [hy, List.map_set]
    by_cases ha : r.accountScope = a
    · subst ha
      refine Reservation.Fits.acquire hroom.account ?_
      exact hroom.ownAccount.trans_eq (congrArg AccountPolicy.maxActive hf.policy).symm
    · refine (h.account a).set hmap fun hr => ?_
      simp only [onAccount, Bool.and_eq_true, decide_eq_true_eq] at hr
      exact absurd (hf.accountScope.symm.trans hr.2) ha
  · intro scope hs
    rw [hy, List.map_set]
    by_cases ha : r.resourceScope = scope
    · subst ha
      refine Reservation.Fits.acquire (hroom.resource hs) ?_
      exact (hroom.ownResource hs).trans_eq hf.resourceMaxActive.symm
    · refine (h.resource scope hs).set hmap fun hr => ?_
      simp only [onResource, Bool.and_eq_true, decide_eq_true_eq] at hr
      exact absurd (hf.resourceScope.symm.trans hr.2) ha

variable {c : Dispatch.Codec} {decideQuota : DecideQuota κ}

theorem Queue.Fits.claimNext {owner fence : String} (hnow : 0 ≤ now) (h : x.Fits settings now)
    (hy : x.claimNext settings decideQuota owner fence now = some y) : y.Fits settings now := by
  unfold Queue.claimNext at hy
  split_ifs at hy
  split at hy
  · cases hy
  · rename_i chosen view hselect
    obtain ⟨⟨r, i⟩, hchosen, hrow⟩ := Option.bind_eq_some_iff.mp hy
    obtain ⟨k, rfl, hk⟩ := Option.bind_eq_some_iff.mp hchosen
    obtain ⟨r', hclaim, rfl⟩ := Option.map_eq_some_iff.mp hrow
    obtain ⟨cand, hcand, -, hroom⟩ := select_room hselect
    obtain rfl : r.candidate = cand := by simpa [hk] using hcand
    exact h.claim (Queue.row_of_snapshot hk) (Queue.room_of_snapshot hnow hroom)
      (Row.claim_frozen hclaim) rfl

theorem Row.not_holds_of_fresh {r : Row κ} (hnow : 0 ≤ now) (h : r.fresh = true) :
    r.holds now = false := by
  simp only [Row.fresh, Bool.and_eq_true, Bool.not_eq_true', Option.isNone_iff_eq_none,
    decide_eq_true_eq] at h
  obtain ⟨⟨hb, hl⟩, hs⟩ := h
  have hidle : holdsAccount initialAttemptState false = false := by decide
  rw [Bool.eq_false_iff, ne_eq, Row.holds_iff hnow]
  simp [Row.live, hl, hs, hb, hidle]

theorem Queue.Fits.enqueue {r : Row κ} (h : x.Fits settings now) (hr : r.holds now = false)
    (hy : y.rows = x.rows ++ [r]) : y.Fits settings now := by
  have hnot : holdsCapacity r.candidate now = false := hr
  constructor
  · intro a
    rw [hy, List.map_append]
    exact (h.account a).append (by simp [onAccount, hnot])
  · intro scope hs
    rw [hy, List.map_append]
    exact (h.resource scope hs).append (by simp [onResource, hnot])

/-- One transaction keeps accounts and resources within their limits. -/
theorem Queue.Fits.event {e : Event κ} (hnow : 0 ≤ now) (h : x.Fits settings now)
    (hy : x.event c settings decideQuota now e = some y) : y.Fits settings now := by
  cases e with
  | claimNext owner fence => exact h.claimNext hnow hy
  | claimRecovery i owner fence =>
    simp only [Queue.event] at hy
    split at hy
    · cases hy
    · split_ifs at hy
      exact h.update (fun _ _ hr => Row.quiet_of_recover hnow hr) hy
  | renew i lease => exact h.update (fun _ _ hr => Row.quiet_of_renew hnow hr) hy
  | yield i lease delay => exact h.update (fun _ _ hr => Row.quiet_of_yield hnow hr) hy
  | work i lease s => exact h.update (fun _ _ hr => Row.quiet_of_work hnow hr) hy
  | operate i s => exact h.update (fun _ _ hr => Row.quiet_of_operate hnow hr) hy
  | amend i a =>
    refine h.update (fun r r' hr => ?_) hy
    cases hr
    exact Row.quiet_of_amend hnow r a
  | enqueue r =>
    simp only [Queue.event, Option.ite_none_right_eq_some, Option.some.injEq] at hy
    obtain ⟨hfresh, rfl⟩ := hy
    exact h.enqueue (Row.not_holds_of_fresh hnow hfresh) rfl

theorem Queue.Fits.step {l : ℤ × Event κ} (h : x.Fits settings x.time)
    (hy : x.step c settings decideQuota l = some y) : y.Fits settings y.time := by
  simp only [Queue.step, Option.ite_none_left_eq_some, not_or, not_lt, Bool.not_eq_true',
    Bool.not_eq_false] at hy
  obtain ⟨⟨htime, hvalid⟩, hy⟩ := hy
  obtain ⟨z, hz, rfl⟩ := Option.map_eq_some_iff.mp hy
  have hnow : 0 ≤ l.1 := ((validTime_iff _).mp hvalid).1
  have hfits := (h.later htime).event hnow hz
  exact ⟨hfits.account, hfits.resource⟩

end Fits

/-- **No account and no machine is over-committed.** For fixed settings, in every queue reached by
transactions at times that never decrease, and at every time from the last of them on, the holders
of an account are at most as many as the settings and the smallest limit among these holders allow,
and so are the holders of a resource; provided both held at the start. -/
theorem no_overcommit (c : Dispatch.Codec) (settings : Settings) (decideQuota : DecideQuota κ)
    (x₀ : Queue κ) (h₀ : x₀.Fits settings x₀.time) (ls : List (ℤ × Event κ)) (t : ℤ) :
    let x := Run.run (Queue.step c settings decideQuota) x₀ ls
    x.time ≤ t → x.Fits settings t := by
  intro x ht
  have h : x.Fits settings x.time :=
    Run.run_invariant (P := fun x : Queue κ => x.Fits settings x.time) h₀
      (fun _ _ _ hx hy => hx.step hy) ls
  exact h.later ht

theorem Queue.fits_of_idle {settings : Settings} {x : Queue κ} {t : ℤ}
    (hs : 0 ≤ settings.maxActivePerAccount) (h : ∀ r ∈ x.rows, r.holds t = false) :
    x.Fits settings t := by
  have hidle : ∀ k ∈ x.rows.map Row.candidate, holdsCapacity k t = false := by
    intro k hk
    obtain ⟨r, hr, rfl⟩ := List.mem_map.mp hk
    exact h r hr
  constructor
  · intro a
    exact Reservation.fits_of_idle hs fun k hk => by simp [onAccount, hidle k hk]
  · intro scope _
    exact Reservation.fits_of_idle hs fun k hk => by simp [onResource, hidle k hk]

def sampleSettings : Settings where
  paused := false
  maxWorkers := 4
  maxActivePerAccount := 1
  leaseDuration := 30 * Rfc3339.second
  quotaFreshFor := 300 * Rfc3339.second
  blockedRecheck := 300 * Rfc3339.second

/-- A newly admitted attempt of the account `account`. -/
def sampleRow (sequence : ℤ) (attempt : String) : Row Unit where
  workspaceID := "workspace"
  jobID := "job"
  attemptID := attempt
  sequence := sequence
  accountScope := "account"
  providerInstanceID := "instance"
  policy := ⟨false, 1, false⟩
  resource := "cpu"
  wallSeconds := 60
  resourceKind := ""
  resourceScope := ""
  resourceMaxActive := 0
  activeAttempt := true
  workspaceEnabled := true
  authorizationGranted := true
  notBeforeMs := 0
  quota := ()
  barrier := false
  lease := none
  journal := localJournal
  state := initialAttemptState
  stateValid := by decide

def sampleQueue : Queue Unit := ⟨0, "", [sampleRow 1 "first", sampleRow 2 "second"]⟩

/-- The sample account has room for one attempt, so the second claim finds none. -/
theorem no_overcommit_sample :
    let x := Run.run (Queue.step sampleCodec sampleSettings fun _ _ _ _ _ _ => (.eligible, none))
      sampleQueue [(1, .claimNext "worker" "f1"), (2, .claimNext "worker" "f2")]
    x.rows.map (fun r => r.holds 2) = [true, false] ∧ x.Fits sampleSettings 2 := by
  have h := no_overcommit sampleCodec sampleSettings (fun _ _ _ _ _ _ => (.eligible, none))
    sampleQueue (Queue.fits_of_idle (by decide) (by decide))
    [(1, .claimNext "worker" "f1"), (2, .claimNext "worker" "f2")] 2
  have hrun : ∀ x, Run.run (Queue.step sampleCodec sampleSettings
      fun _ _ _ _ _ _ => (.eligible, none)) sampleQueue
        [(1, .claimNext "worker" "f1"), (2, .claimNext "worker" "f2")] = x →
      x.time ≤ 2 ∧ x.rows.map (fun r => r.holds 2) = [true, false] := by
    rintro x rfl
    decide +kernel
  generalize Run.run (Queue.step sampleCodec sampleSettings fun _ _ _ _ _ _ => (.eligible, none))
    sampleQueue [(1, .claimNext "worker" "f1"), (2, .claimNext "worker" "f2")] = x at h hrun ⊢
  exact ⟨(hrun x rfl).2, h (hrun x rfl).1⟩

end Store
end ComputeRelay
