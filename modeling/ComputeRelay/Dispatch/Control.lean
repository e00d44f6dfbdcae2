import Mathlib.Tactic
import ComputeRelay.Dispatch.Release

/-!
# The journal under control requests

The journal machine together with what the store does to the same pair on behalf of an operator:
`admitCancellation` (`internal/store/sqlite/operations_actions.go`), `CommitCancellation` and the
exhausted polls of `finishObservedOperations` (`operations_dispatch.go`), and the claim of a local
row by the scheduler.

* `control` is one step, `initialConfig` the pair of a newly admitted attempt.
* `Stage` says which states go with which journals: not planned yet, staged, lost in submission,
  bound to a remote, gone, or closed.
* `control_coupled` proves that one step keeps a valid pair at one of the stages, `run_coupled`
  that every run does.

A pending operation row is asked for by some of these requests; which rows exist is left open here,
so more requests are considered than the store lets through.
-/

namespace ComputeRelay
namespace Dispatch

open Domain Provider Scheduler

/-! ### Control requests -/

/-- `Attempt.Transition`, as far as the state goes. -/
def transition (s t : AttemptState) : Option AttemptState :=
  if validateAttemptStateTransition s t then some t else none

/-- A cancellation handed back to the operator. -/
def handedOver (s : AttemptState) : AttemptState :=
  { s with cancellation := .manual, orchestration := .needsAttention }

/-- The evidence a late request meets. -/
def lateCancellation (s : AttemptState) : CancellationState :=
  if s.execution = .cancelled then .confirmed else .tooLate

/-- The recovery path of a journal in attention is reopened; when that is refused the cancellation
goes back to the operator. -/
def reopenCancelled (c : Codec) (j : Journal) (s : AttemptState) (now : ℤ) : Option Config :=
  match apply c j s { kind := .requestReconciliation } now with
  | .ok (next, _, _) => some (next, s)
  | .error _ => (transition s (handedOver s)).map fun t => (j, t)

/-- `admitCancellation`. `uninvoked` is the durable proof that an earlier request, now with the
operator, never reached the provider. -/
def requestCancellation (c : Codec) (x : Config) (uninvoked : Bool) (now : ℤ) : Option Config :=
  let (j, s) := x
  if s.orchestration.terminal then some x
  else if s.execution.terminal then
    let pending := if s.cancellation = .notRequested then
        transition s { s with cancellation := .requested }
      else some s
    pending.bind fun t =>
      (transition t { t with cancellation := lateCancellation s }).map fun u => (j, u)
  else if !j.submitStarted then advance c x ({ kind := .preventDispatch }, now)
  else if (s.cancellation = .manual ∧ !uninvoked) ∨
      (s.cancellation ≠ .manual ∧ s.cancellation ≠ .notRequested) then none
  else
    (transition s { s with cancellation := .requested, orchestration := .cancelling }).bind fun t =>
      if j.phase = .attention then reopenCancelled c j t now else some (j, t)

/-- What the worker reports about the one stop request it may send. -/
inductive CancellationReport
  | begun | acknowledged | unsupported | confirmed
  deriving DecidableEq

/-- The observation a confirmed cancellation stands for. -/
def cancelledObservation (r : RemoteReference) (now : ℤ) : Observation where
  remote := r
  execution := .cancelled
  rawState := executionText .cancelled
  remoteActivity := .inactive
  releaseEvidence := .notObservable
  observedAt := now

/-- `CommitCancellation`. -/
def commitCancellation (c : Codec) (x : Config) (report : CancellationReport) (now : ℤ) :
    Option Config :=
  let (j, s) := x
  match j.remote with
  | none => none
  | some r =>
    if j.phase ≠ .submitted then none
    else match report with
      | .begun =>
        if s.cancellation ≠ .requested then none
        else (transition s { s with cancellation := .requesting }).map fun t => (j, t)
      | .acknowledged =>
        -- neither an acknowledgement nor a too-late hint is a terminal outcome
        if s.cancellation ≠ .requesting then none
        else (transition s { s with cancellation := .accepted }).map fun t => (j, t)
      | .unsupported => (transition s (handedOver s)).map fun t => (j, t)
      | .confirmed => advance c x
          ({ kind := .observationSeen, observation := some (cancelledObservation r now) }, now)

/-- The polls of one cancellation are exhausted (`finishObservedOperations`). -/
def exhaustPolls (x : Config) : Option Config :=
  if x.1.phase = .submitted ∧ !x.2.execution.terminal ∧ x.2.cancellation ≠ .manual then
    (transition x.2 (handedOver x.2)).map fun t => (x.1, t)
  else none

/-- What may happen to the pair of one attempt. -/
inductive Control
  | act (a : Action) (now : ℤ)
  | cancel (uninvoked : Bool) (now : ℤ)
  | report (r : CancellationReport) (now : ℤ)
  | exhausted
  | claim

def control (c : Codec) (x : Config) : Control → Option Config
  | .act a now => advance c x (a, now)
  | .cancel uninvoked now => requestCancellation c x uninvoked now
  | .report r now => commitCancellation c x r now
  | .exhausted => exhaustPolls x
  | .claim =>
    if x.1.plan.isNone && localOnly x.2 then
      (transition x.2 (claimedState x.2)).map fun t => (x.1, t)
    else none

/-- A newly admitted attempt. -/
def initialConfig : Config := (localJournal, initialAttemptState)

theorem transition_eq_some {s t u : AttemptState} (h : transition s t = some u) :
    u = t ∧ s.Moves t := by
  simp only [transition, Option.ite_none_right_eq_some, AttemptState.moves_iff,
    Option.some.injEq] at h
  exact ⟨h.2.symm, h.1⟩

theorem edit_eq_some {j : Journal} {s t : AttemptState} {y : Config}
    (h : ((transition s t).map fun u => (j, u)) = some y) : y = (j, t) ∧ s.Moves t := by
  obtain ⟨u, hu, rfl⟩ := Option.map_eq_some_iff.mp h
  obtain ⟨rfl, hm⟩ := transition_eq_some hu
  exact ⟨rfl, hm⟩

/-! ### Stages -/

/-- Before a submission nothing but the orchestration has moved. -/
structure Unsubmitted (s : AttemptState) : Prop where
  execution : s.execution = .notSubmitted
  remoteActivity : s.remoteActivity = .notStarted
  releaseEvidence : s.releaseEvidence = .unknown
  cancellation : s.cancellation = .notRequested
  result : s.result = .notAvailable
  deadline : s.deadlineExceeded = false

/-- Submitted without a reference: the reply is missing or ambiguous. -/
structure Lost (s : AttemptState) : Prop where
  execution : s.execution = .unknown
  remoteActivity : s.remoteActivity = .possible
  releaseEvidence : s.releaseEvidence = .unknown
  cancellation : s.cancellation ∈ [.notRequested, .requested, .manual]
  orchestration : s.orchestration ∈ [.dispatching, .reconciling, .cancelling, .needsAttention]
  result : s.result = .notAvailable
  deadline : s.deadlineExceeded = false

/-- Submitted with a reference and not known to have ended. -/
structure Bound (s : AttemptState) : Prop where
  execution : s.execution ∈ [.unknown, .queued, .starting, .running]
  remoteActivity : s.remoteActivity ∈ [.possible, .active]
  releaseEvidence : s.releaseEvidence ∈ [.unknown, .notObservable]
  cancellation : s.cancellation ∈ [.notRequested, .requested, .requesting, .accepted, .manual]
  orchestration :
    s.orchestration ∈ [.submitted, .running, .reconciling, .cancelling, .needsAttention]
  result : s.result = .notAvailable
  deadline : s.deadlineExceeded = false

/-- Which states go with which journals. -/
inductive Stage (j : Journal) (s : AttemptState) : Prop
  | unplanned (phase : j.phase = .local_) (plan : j.plan = none)
      (orchestration : s.orchestration ∈ [.queued, .preparing]) (state : Unsubmitted s)
  | staging (phase : j.phase ∈ [.staging, .ready, .attention]) (plan : j.plan ≠ none)
      (started : j.submitStarted = false)
      (orchestration : s.orchestration ∈
        if j.phase = .attention then [.needsAttention] else [.preparing, .reconciling])
      (state : Unsubmitted s)
  | lost (phase : j.phase ∈ [.submitting, .attention]) (started : j.submitStarted = true)
      (unbound : j.remote = none) (state : Lost s)
  | bound (phase : j.phase ∈ [.submitted, .attention]) (started : j.submitStarted = true)
      (remote : j.remote ≠ none) (state : Bound s)
  | gone (phase : j.phase = .attention) (started : j.submitStarted = true)
      (absence : j.remoteAbsence ≠ none)
  | closed (phase : j.phase ∈ [.rejected, .collectible, .failed, .prevented])

theorem stage_initial : Stage localJournal initialAttemptState :=
  .unplanned rfl rfl (by decide) ⟨rfl, rfl, rfl, rfl, rfl, rfl⟩

section Inversion

variable {j : Journal} {s : AttemptState}

theorem Stage.of_local (h : Stage j s) (hp : j.phase = .local_) :
    j.plan = none ∧ s.orchestration ∈ [.queued, .preparing] ∧ Unsubmitted s := by
  cases h with
  | unplanned _ plan orchestration state => exact ⟨plan, orchestration, state⟩
  | _ => simp_all

theorem Stage.of_staging (h : Stage j s) (hs : j.submitStarted = false)
    (hp : j.phase = .staging ∨ j.phase = .ready ∨ j.phase = .attention) :
    j.plan ≠ none ∧
      (s.orchestration ∈
        if j.phase = .attention then [.needsAttention] else [.preparing, .reconciling]) ∧
      Unsubmitted s := by
  cases h with
  | staging _ plan _ orchestration state => exact ⟨plan, orchestration, state⟩
  | _ => rcases hp with hp | hp | hp <;> simp_all

theorem Stage.of_submitting (h : Stage j s) (hp : j.phase = .submitting) :
    j.submitStarted = true ∧ j.remote = none ∧ Lost s := by
  cases h with
  | lost _ started unbound state => exact ⟨started, unbound, state⟩
  | _ => simp_all

theorem Stage.of_submitted (h : Stage j s) (hp : j.phase = .submitted) :
    j.submitStarted = true ∧ j.remote ≠ none ∧ Bound s := by
  cases h with
  | bound _ started remote state => exact ⟨started, remote, state⟩
  | _ => simp_all

/-- A submitted journal without a reference that is still open has a lost reply. -/
theorem Stage.of_unbound (h : Stage j s) (hs : j.submitStarted = true) (hr : j.remote = none)
    (hp : j.phase = .submitting ∨ j.phase = .attention) : Lost s := by
  cases h with
  | lost _ _ _ state => exact state
  | gone _ _ absence => exact absurd (remoteAbsence_of_unbound hr) absence
  | _ => rcases hp with hp | hp <;> simp_all

/-- An open journal behind a submission is lost or bound. -/
theorem Stage.of_started (h : Stage j s) (hs : j.submitStarted = true)
    (hp : j.phase = .attention ∨ j.phase = .submitting ∨ j.phase = .submitted)
    (ha : j.remoteAbsence = none) :
    (j.remote = none ∧ Lost s) ∨ (j.remote ≠ none ∧ Bound s) := by
  cases h with
  | lost _ _ unbound state => exact Or.inl ⟨unbound, state⟩
  | bound _ _ remote state => exact Or.inr ⟨remote, state⟩
  | gone _ _ absence => exact absurd ha absence
  | _ => rcases hp with hp | hp | hp <;> simp_all

end Inversion

/-! ### One step of the journal -/

section Edits

variable {s t : AttemptState}

/-- Only the orchestration may differ for a state to stay unsubmitted. -/
theorem Unsubmitted.orchestrate (h : Unsubmitted s) (o : OrchestrationState) :
    Unsubmitted { s with orchestration := o } :=
  ⟨h.execution, h.remoteActivity, h.releaseEvidence, h.cancellation, h.result, h.deadline⟩

theorem Lost.edit (h : Lost s) {o : OrchestrationState} {k : CancellationState}
    (ho : o ∈ [.dispatching, .reconciling, .cancelling, .needsAttention])
    (hk : k ∈ [.notRequested, .requested, .manual]) :
    Lost { s with orchestration := o, cancellation := k } :=
  ⟨h.execution, h.remoteActivity, h.releaseEvidence, hk, ho, h.result, h.deadline⟩

theorem Bound.edit (h : Bound s) {o : OrchestrationState} {k : CancellationState}
    (ho : o ∈ [.submitted, .running, .reconciling, .cancelling, .needsAttention])
    (hk : k ∈ [.notRequested, .requested, .requesting, .accepted, .manual]) :
    Bound { s with orchestration := o, cancellation := k } :=
  ⟨h.execution, h.remoteActivity, h.releaseEvidence, hk, ho, h.result, h.deadline⟩

/-- An accepted reply binds a lost submission. -/
theorem Lost.bound (h : Lost s) {o : OrchestrationState}
    (ho : o ∈ [.submitted, .running, .reconciling, .cancelling, .needsAttention]) :
    Bound { s with orchestration := o } where
  execution := by simp [h.execution]
  remoteActivity := by simp [h.remoteActivity]
  releaseEvidence := by simp [h.releaseEvidence]
  cancellation := by
    have hk := h.cancellation
    simp only [List.mem_cons, List.not_mem_nil, or_false] at hk ⊢
    tauto
  orchestration := ho
  result := h.result
  deadline := h.deadline

/-- Handing a pending cancellation over keeps the cancellations of each stage. -/
theorem handed_mem_lost (h : Lost s) :
    (if cancellationPending s then CancellationState.manual else s.cancellation) ∈
      [CancellationState.notRequested, .requested, .manual] := by
  split_ifs
  · simp
  · exact h.cancellation

theorem handed_mem_bound (h : Bound s) :
    (if cancellationPending s then CancellationState.manual else s.cancellation) ∈
      [CancellationState.notRequested, .requested, .requesting, .accepted, .manual] := by
  split_ifs
  · simp
  · exact h.cancellation

end Edits

/-- The orchestration a nonterminal observation asks for. -/
def observedOrchestration (s : AttemptState) (obs : Observation) : OrchestrationState :=
  if s.cancellation = .manual then .needsAttention
  else if cancellationPending s then .cancelling
  else if obs.execution = .unknown then .reconciling
  else if obs.execution = .running ∨ obs.execution = .starting then .running
  else .submitted

/-- A nonterminal observation moves the orchestration, and the evidence unless it is uncertain. -/
theorem observedState_nonterminal (s : AttemptState) {obs : Observation}
    (ht : obs.execution.terminal = false) : observedState s obs =
      if obs.execution = .unknown then { s with orchestration := observedOrchestration s obs }
      else { s with
        execution := obs.execution, remoteActivity := obs.remoteActivity
        releaseEvidence := obs.releaseEvidence
        orchestration := observedOrchestration s obs } := by
  unfold observedState observedOrchestration
  simp only [ht, Bool.false_eq_true, if_false]
  by_cases hu : obs.execution = .unknown <;> by_cases hk : s.cancellation = .manual <;>
    cases hp : cancellationPending s <;> simp [hu, hk]

theorem observedOrchestration_mem (s : AttemptState) (obs : Observation) :
    observedOrchestration s obs ∈
      [.submitted, .running, .reconciling, .cancelling, .needsAttention] := by
  unfold observedOrchestration
  split_ifs <;> simp

/-- A nonterminal observation keeps a bound state bound. -/
theorem Bound.observed {s : AttemptState} (h : Bound s) {obs : Observation} {r : RemoteReference}
    (hv : obs.validate r = true) (hm : s.Moves (observedState s obs))
    (ht : obs.execution.terminal = false) : Bound (observedState s obs) := by
  rw [observedState_nonterminal s ht] at hm ⊢
  have ho := observedOrchestration_mem s obs
  split_ifs at hm ⊢ with hu
  · exact ⟨h.execution, h.remoteActivity, h.releaseEvidence, h.cancellation, ho, h.result,
      h.deadline⟩
  simp only [Observation.validate, Bool.and_eq_true, decide_eq_true_eq, ht, Bool.not_false,
    Bool.and_true, Bool.true_and, Bool.not_eq_true', Bool.or_eq_false_iff, decide_eq_false_iff_not,
    ne_eq] at hv
  obtain ⟨⟨⟨⟨-, hn⟩, hx⟩, hi⟩, he⟩ := hv
  refine ⟨?_, ?_, ?_, h.cancellation, ho, h.result, h.deadline⟩
  · cases hex : obs.execution <;> simp_all [ExecutionState.terminal]
  · -- the table leads from possible and active only to active and inactive
    have hr := hm.remoteActivity
    have hs := h.remoteActivity
    cases hrs : s.remoteActivity <;> cases hro : obs.remoteActivity <;>
      simp_all [validateTransition, remoteActivityTransitions]
  · cases hre : obs.releaseEvidence <;> simp_all

section Step

variable {c : Codec} {old : Journal} {s : AttemptState} {a : Action} {now : ℤ} {d : Draft}

theorem reopened_mem (s : AttemptState) :
    (if cancellationPending s then OrchestrationState.cancelling else .reconciling) =
        .cancelling ∨
      (if cancellationPending s then OrchestrationState.cancelling else .reconciling) =
        .reconciling := by
  split_ifs <;> simp

theorem Stage.localFault (h : Stage old s) (hopen : old.phase.open_) (hplan : old.plan = none)
    (hs : old.submitStarted = false) (name : String) (code : ErrorCode) (p : Problem) :
    Stage (committed (localFault (faultJournal old name now) old s code p now).journal)
      (localFault (faultJournal old name now) old s code p now).next := by
  obtain ⟨hrej, hfail, hcol, hatt, hprev⟩ := hopen
  cases h with
  | unplanned phase _ _ state =>
    obtain ⟨q, hd | hd⟩ := localFault_cases (faultJournal old name now) old s code p now <;> rw [hd]
    · exact .closed (by simp)
    · exact .unplanned phase hplan (by simp) (state.orchestrate _)
  | staging _ plan => exact absurd hplan plan
  | closed phase => simp_all
  | lost _ started | bound _ started | gone _ started =>
    rw [hs] at started
    cases started

theorem Stage.remoteFault (h : Stage old s) (hopen : old.phase.open_) (hplan : old.plan ≠ none)
    (name : String) (code : ErrorCode) (p : Problem) :
    Stage (committed (remoteFault (faultJournal old name now) old s code p).journal)
      (remoteFault (faultJournal old name now) old s code p).next := by
  obtain ⟨hrej, hfail, hcol, hatt, hprev⟩ := hopen
  cases h with
  | unplanned _ plan => exact absurd plan hplan
  | gone phase => exact absurd phase hatt
  | closed phase => simp_all
  | staging phase plan started _ state =>
    rcases remoteFault_cases (faultJournal old name now) old s code p with hd | hd <;> rw [hd]
    · have hk : cancellationPending s = false := by simp [cancellationPending, state.cancellation]
      refine .staging (by simp) plan started (by simp) ?_
      simpa [hk] using state.orchestrate .needsAttention
    · exact .staging (by simpa using phase) plan started (by simp [started, hatt])
        (state.orchestrate _)
  | lost phase started unbound state =>
    rcases remoteFault_cases (faultJournal old name now) old s code p with hd | hd <;> rw [hd]
    · exact .lost (by simp) started unbound (state.edit (by simp) (handed_mem_lost state))
    · exact .lost (by simpa using phase) started unbound
        (state.edit (by simp [started]) state.cancellation)
  | bound phase started remote state =>
    rcases remoteFault_cases (faultJournal old name now) old s code p with hd | hd <;> rw [hd]
    · exact .bound (by simp) started remote (state.edit (by simp) (handed_mem_bound state))
    · exact .bound (by simpa using phase) started remote
        (state.edit (by simp [started]) state.cancellation)

/-- An accepted observation closes the journal, keeps it bound or exhausts the polls. -/
theorem Stage.observed (h : Stage old s) (hp : old.phase = .submitted) {obs : Observation}
    {r : RemoteReference} {j : Journal} {t : AttemptState} (hv : obs.validate r = true)
    (hm : s.Moves (observedState s obs))
    (hj : ∃ p n, j = { old with
      phase := if obs.execution.terminal then .collectible
        else if obs.execution = .unknown ∧ n = maxFailures then .attention else .submitted,
      observation := some { obs with rawState := executionText obs.execution },
      problem := p, failures := n })
    (ht : t = observedState s obs ∨ (obs.execution = .unknown ∧ j.phase = .attention ∧
      t = { observedState s obs with
        orchestration := .needsAttention,
        cancellation := if cancellationPending s then .manual
          else (observedState s obs).cancellation })) : Stage (committed j) t := by
  obtain ⟨hs, hr, hb⟩ := h.of_submitted hp
  obtain ⟨p, n, rfl⟩ := hj
  cases hterm : obs.execution.terminal with
  | true => exact .closed (by simp)
  | false =>
    have hbound := hb.observed hv hm hterm
    refine .bound ?_ hs hr ?_
    · simp only [committed_phase]
      split_ifs <;> simp_all
    · rcases ht with rfl | ⟨-, -, rfl⟩
      · exact hbound
      · refine hbound.edit (by simp) ?_
        split_ifs
        · simp
        · exact hbound.cancellation

theorem StepCase.stage (h : Stage old s) (hold : old.valid c.toCodec = true)
    (hc : StepCase c old s a now d) (hv : (committed d.journal).valid c.toCodec = true) :
    Stage (committed d.journal) d.next := by
  cases hc with
  | prevented | expired | abandoned | rejected | absent | disowned =>
    exact .closed (by simp [Dispatch.rejected])
  | refused p kind started phase =>
    rcases phase with hp | hp
    · obtain ⟨hplan, -, hu⟩ := h.of_local hp
      refine .unplanned hp hplan (by simp [hplan]) ?_
      simpa [hplan] using hu.orchestrate .queued
    · obtain ⟨hplan, ho, hu⟩ := h.of_staging started (.inr (.inl hp))
      have hsome : old.plan.isNone = false := by
        simpa [Option.isSome_iff_ne_none] using hplan
      refine .staging (by simp [hp]) hplan started ?_ ?_
      · simpa [hsome, hp] using ho
      · simpa [hsome] using hu
  | reobserved kind owner open_ started phase =>
    obtain ⟨hplan, -, hu⟩ := h.of_staging started (by tauto)
    refine .staging (by simp) hplan started (by simp) (hu.orchestrate _)
  | reopened j kind journal open_ started phase =>
    have hfields : j.submitStarted = old.submitStarted ∧ j.remote = old.remote := by
      rcases journal with ⟨-, rfl⟩ | ⟨-, -, -, -, -, -, rfl⟩ <;> exact ⟨rfl, rfl⟩
    have habs : old.remoteAbsence = none := by
      simp only [reconciliationClosed, Bool.or_eq_false_iff, Option.isSome_eq_false_iff,
        Option.isNone_iff_eq_none] at open_
      exact open_.1.1.1
    rcases h.of_started started phase habs with ⟨hr, hl⟩ | ⟨hr, hb⟩
    · refine .lost (by simp [hr]) (hfields.1.trans started) (hfields.2.trans hr) ?_
      refine hl.edit ?_ hl.cancellation
      rcases reopened_mem s with ho | ho <;> simp [ho]
    · refine .bound ?_ (hfields.1.trans started) (by rw [committed_remote, hfields.2]; exact hr) ?_
      · simp [Option.isSome_iff_ne_none.mpr hr]
      · refine hb.edit ?_ hb.cancellation
        rcases reopened_mem s with ho | ho <;> simp [ho]
  | intended plan kind offer phase fresh =>
    obtain ⟨-, -, hu⟩ := h.of_local phase
    have started := unstarted_of_unplanned hold fresh
    exact .staging (by simp) (by simp) started (by simp) (hu.orchestrate _)
  | exposed plan p kind answer planned phase started =>
    obtain ⟨hplan, -, hu⟩ := h.of_staging started (.inl phase)
    exact .staging (by simp) hplan started (by simp) (hu.orchestrate _)
  | staged plan p kind answer planned phase started =>
    obtain ⟨hplan, -, hu⟩ := h.of_staging started (.inl phase)
    refine .staging ?_ hplan started ?_ (hu.orchestrate _) <;>
      by_cases hr : p.ready = true <;> simp [hr, phase]
  | submitted p kind phase started =>
    obtain ⟨-, -, hu⟩ := h.of_staging started (.inr (.inl phase))
    have hremote := remote_of_submitting hv rfl
    exact .lost (by simp) rfl hremote ⟨rfl, rfl, hu.releaseEvidence, by simp [hu.cancellation],
      by simp, hu.result, hu.deadline⟩
  | accepted plan o remote kind offer phase started =>
    obtain ⟨-, -, hl⟩ := h.of_submitting phase
    refine .bound (by simp [Dispatch.accepted]) started (by simp [Dispatch.accepted]) ?_
    refine hl.bound ?_
    split_ifs <;> simp
  | ambiguous plan o p kind offer phase started unbound =>
    obtain ⟨-, -, hl⟩ := h.of_submitting phase
    exact .lost (by simp [Dispatch.ambiguous, phase]) started unbound
      (hl.edit (by simp) hl.cancellation)
  | absenceNoted kind phase started unbound =>
    exact .lost (by simp [absenceDeferred]) started unbound
      ((h.of_unbound started unbound phase).edit (by simp)
        (h.of_unbound started unbound phase).cancellation)
  | vanished absence p kind offer phase bound time past later code report =>
    refine .gone rfl (h.of_submitted phase).1 (remoteAbsence_of_detail hv time ?_)
    rw [detail_committed rfl (by decide), report]
  | observed remote obs j t kind offer phase bound valid past later moves journal next =>
    exact h.observed phase valid moves journal next
  | localFault name code p kind offer phase fresh =>
    exact h.localFault phase fresh (unstarted_of_unplanned hold fresh) name code p
  | remoteFault name code p plan kind offer phase planned =>
    exact h.remoteFault phase (by simp [planned]) name code p

end Step

/-! ### One control step -/

/-- A valid journal and a valid state at one of the stages. -/
structure Coupled (c : Provider.Codec) (x : Config) : Prop where
  journal : x.1.valid c = true
  state : x.2.validate = true
  stage : Stage x.1 x.2

theorem coupled_initial (c : Provider.Codec) : Coupled c initialConfig :=
  ⟨rfl, by decide, stage_initial⟩

section Controls

variable {c : Codec} {j : Journal} {s t : AttemptState} {x y : Config}

/-- With a terminal execution the stage no longer depends on the state. -/
theorem Stage.of_terminal (h : Stage j s) (he : s.execution.terminal = true) (t : AttemptState) :
    Stage j t := by
  cases h with
  | unplanned _ _ _ state | staging _ _ _ _ state =>
    simp [state.execution, ExecutionState.terminal] at he
  | lost _ _ _ state => simp [state.execution, ExecutionState.terminal] at he
  | bound _ _ _ state =>
    have hx := state.execution
    cases hs : s.execution <;> simp_all [ExecutionState.terminal]
  | gone phase started absence => exact .gone phase started absence
  | closed phase => exact .closed phase

/-- A cancellation may be requested or handed over at every stage behind a submission. -/
theorem Stage.cancel (h : Stage j s) (hv : j.valid c.toCodec = true)
    (hs : j.submitStarted = true) {k : CancellationState} {o : OrchestrationState}
    (hk : k = .requested ∨ k = .manual) (ho : o = .cancelling ∨ o = .needsAttention) :
    Stage j { s with cancellation := k, orchestration := o } := by
  cases h with
  | unplanned _ plan =>
    rw [unstarted_of_unplanned hv plan] at hs
    cases hs
  | staging _ _ started =>
    rw [hs] at started
    cases started
  | lost phase started unbound state =>
    exact .lost phase started unbound
      (state.edit (by rcases ho with rfl | rfl <;> simp) (by rcases hk with rfl | rfl <;> simp))
  | bound phase started remote state =>
    exact .bound phase started remote
      (state.edit (by rcases ho with rfl | rfl <;> simp) (by rcases hk with rfl | rfl <;> simp))
  | gone phase started absence => exact .gone phase started absence
  | closed phase => exact .closed phase

theorem Coupled.advance {l : Action × ℤ} (h : Coupled c.toCodec x) (hy : advance c x l = some y) :
    Coupled c.toCodec y := by
  obtain ⟨e, he⟩ := advance_eq_some hy
  obtain ⟨-, d, hd, hj, ht, -, hv, hm⟩ := apply_ok he
  obtain ⟨j, t⟩ := y
  subst hj ht
  exact ⟨hv, hm.next, hd.stage h.stage h.journal hv⟩

theorem Coupled.edit (h : Coupled c.toCodec (j, s)) (hm : s.Moves t) (hstage : Stage j t) :
    Coupled c.toCodec (j, t) :=
  ⟨h.journal, hm.next, hstage⟩

/-- Reopening a journal with a requested cancellation leaves the state as it is. -/
theorem StepCase.next_of_reopened {a : Action} {now : ℤ} {d : Draft} (hd : StepCase c j s a now d)
    (hk : a.kind = .requestReconciliation) (hs : j.submitStarted = true)
    (hc : s.cancellation = .requested) (ho : s.orchestration = .cancelling) : d.next = s := by
  obtain ⟨o, execution, result, k, activity, evidence, deadline⟩ := s
  obtain rfl : k = .requested := hc
  obtain rfl : o = .cancelling := ho
  cases hd with
  | reopened => rfl
  | _ => simp_all

theorem Coupled.reopenCancelled {now : ℤ} (h : Coupled c.toCodec (j, s))
    (hs : j.submitStarted = true) (hc : s.cancellation = .requested)
    (ho : s.orchestration = .cancelling) (hy : reopenCancelled c j s now = some y) :
    Coupled c.toCodec y := by
  unfold Dispatch.reopenCancelled at hy
  split at hy
  · next next t e happ =>
    obtain ⟨-, d, hd, rfl, -, -, hv, -⟩ := apply_ok happ
    cases hy
    refine ⟨hv, h.state, ?_⟩
    have hstage := hd.stage h.stage h.journal hv
    rwa [hd.next_of_reopened rfl hs hc ho] at hstage
  · obtain ⟨rfl, hm⟩ := edit_eq_some hy
    exact h.edit hm (h.stage.cancel h.journal hs (.inr rfl) (.inr rfl))

/-- A requested cancellation behind a submission. -/
theorem Coupled.requested (h : Coupled c.toCodec (j, s)) (hs : j.submitStarted = true)
    (ht : transition s { s with cancellation := .requested, orchestration := .cancelling } =
      some t) :
    Coupled c.toCodec (j, t) ∧ t.cancellation = .requested ∧ t.orchestration = .cancelling := by
  obtain ⟨rfl, hm⟩ := transition_eq_some ht
  exact ⟨h.edit hm (h.stage.cancel h.journal hs (.inl rfl) (.inl rfl)), rfl, rfl⟩

theorem Coupled.requestCancellation {uninvoked : Bool} {now : ℤ} (h : Coupled c.toCodec x)
    (hy : requestCancellation c x uninvoked now = some y) : Coupled c.toCodec y := by
  obtain ⟨j, s⟩ := x
  unfold Dispatch.requestCancellation at hy
  dsimp only at hy
  split_ifs at hy with hterm hexec hfirst hstarted hrefused hattention
  · cases hy
    exact h
  · obtain ⟨t, ht, hy⟩ := Option.bind_eq_some_iff.mp hy
    obtain ⟨rfl, -⟩ := transition_eq_some ht
    obtain ⟨rfl, hm⟩ := edit_eq_some hy
    exact ⟨h.journal, hm.next, h.stage.of_terminal hexec _⟩
  · obtain ⟨t, ht, hy⟩ := Option.bind_eq_some_iff.mp hy
    cases ht
    obtain ⟨rfl, hm⟩ := edit_eq_some hy
    exact ⟨h.journal, hm.next, h.stage.of_terminal hexec _⟩
  · exact h.advance hy
  · obtain ⟨t, ht, hy⟩ := Option.bind_eq_some_iff.mp hy
    have hs : j.submitStarted = true := by simpa using hstarted
    obtain ⟨hreq, hk, ho⟩ := h.requested hs ht
    exact hreq.reopenCancelled hs hk ho hy
  · obtain ⟨t, ht, hy⟩ := Option.bind_eq_some_iff.mp hy
    cases hy
    exact (h.requested (by simpa using hstarted) ht).1

theorem Coupled.commitCancellation {r : CancellationReport} {now : ℤ} (h : Coupled c.toCodec x)
    (hy : commitCancellation c x r now = some y) : Coupled c.toCodec y := by
  obtain ⟨j, s⟩ := x
  unfold Dispatch.commitCancellation at hy
  dsimp only at hy
  split at hy
  · cases hy
  · rw [Option.ite_none_left_eq_some, not_not] at hy
    obtain ⟨hphase, hy⟩ := hy
    obtain ⟨hs, hr, hb⟩ := h.stage.of_submitted hphase
    have hmem : j.phase ∈ [Phase.submitted, .attention] := by simp [hphase]
    cases r with
    | begun =>
      simp only [Option.ite_none_left_eq_some] at hy
      obtain ⟨rfl, hm⟩ := edit_eq_some hy.2
      exact h.edit hm (.bound hmem hs hr (hb.edit hb.orchestration (by simp)))
    | acknowledged =>
      simp only [Option.ite_none_left_eq_some] at hy
      obtain ⟨rfl, hm⟩ := edit_eq_some hy.2
      exact h.edit hm (.bound hmem hs hr (hb.edit hb.orchestration (by simp)))
    | unsupported =>
      obtain ⟨rfl, hm⟩ := edit_eq_some hy
      exact h.edit hm (h.stage.cancel h.journal hs (.inr rfl) (.inr rfl))
    | confirmed => exact h.advance hy

theorem Coupled.exhaustPolls (h : Coupled c.toCodec x) (hy : exhaustPolls x = some y) :
    Coupled c.toCodec y := by
  simp only [Dispatch.exhaustPolls, Option.ite_none_right_eq_some] at hy
  obtain ⟨⟨hphase, -⟩, hy⟩ := hy
  obtain ⟨rfl, hm⟩ := edit_eq_some hy
  have hs := (h.stage.of_submitted hphase).1
  exact h.edit hm (h.stage.cancel h.journal hs (.inr rfl) (.inr rfl))

/-- A claim moves the orchestration of a row that is still local. -/
theorem Stage.claimed (h : Stage j s) (hv : j.valid c.toCodec = true) (hp : j.plan = none) :
    Stage j (claimedState s) := by
  have hs := unstarted_of_unplanned hv hp
  cases h with
  | unplanned phase plan _ state =>
    exact .unplanned phase plan (by simp [claimedState]) (state.orchestrate _)
  | staging _ plan => exact absurd hp plan
  | lost _ started | bound _ started | gone _ started =>
    rw [hs] at started
    cases started
  | closed phase => exact .closed phase

/-- **One control step keeps the pair coupled.** -/
theorem control_coupled {l : Control} (h : Coupled c.toCodec x) (hy : control c x l = some y) :
    Coupled c.toCodec y := by
  cases l with
  | act a now => exact h.advance hy
  | cancel uninvoked now => exact h.requestCancellation hy
  | report r now => exact h.commitCancellation hy
  | exhausted => exact h.exhaustPolls hy
  | claim =>
    simp only [control, Option.ite_none_right_eq_some, Bool.and_eq_true,
      Option.isNone_iff_eq_none] at hy
    obtain ⟨⟨hplan, -⟩, hy⟩ := hy
    obtain ⟨rfl, hm⟩ := edit_eq_some hy
    exact h.edit hm (h.stage.claimed h.journal hplan)

end Controls

/-! ### The state along a control step -/

section Moves

variable {c : Codec} {x y : Config}

theorem advance_moves {l : Action × ℤ} (hy : advance c x l = some y) : x.2.Moves y.2 := by
  obtain ⟨e, he⟩ := advance_eq_some hy
  obtain ⟨-, d, -, -, -, -, -, hm⟩ := apply_ok he
  exact hm

theorem requestCancellation_moves {uninvoked : Bool} {now : ℤ}
    (hy : requestCancellation c x uninvoked now = some y) :
    Relation.ReflTransGen AttemptState.Moves x.2 y.2 := by
  obtain ⟨j, s⟩ := x
  unfold requestCancellation at hy
  dsimp only at hy
  split_ifs at hy with hterm hexec hfirst hstarted hrefused hattention
  · cases hy
    exact .refl
  · obtain ⟨t, ht, hy⟩ := Option.bind_eq_some_iff.mp hy
    obtain ⟨rfl, hm⟩ := transition_eq_some ht
    obtain ⟨rfl, hm'⟩ := edit_eq_some hy
    exact .tail (.single hm) hm'
  · obtain ⟨t, ht, hy⟩ := Option.bind_eq_some_iff.mp hy
    cases ht
    obtain ⟨rfl, hm⟩ := edit_eq_some hy
    exact .single hm
  · exact .single (advance_moves hy)
  · obtain ⟨t, ht, hy⟩ := Option.bind_eq_some_iff.mp hy
    obtain ⟨rfl, hm⟩ := transition_eq_some ht
    unfold reopenCancelled at hy
    split at hy
    · cases hy
      exact .single hm
    · obtain ⟨rfl, hm'⟩ := edit_eq_some hy
      exact .tail (.single hm) hm'
  · obtain ⟨t, ht, hy⟩ := Option.bind_eq_some_iff.mp hy
    obtain ⟨rfl, hm⟩ := transition_eq_some ht
    cases hy
    exact .single hm

theorem commitCancellation_moves {r : CancellationReport} {now : ℤ}
    (hy : commitCancellation c x r now = some y) : x.2.Moves y.2 := by
  obtain ⟨j, s⟩ := x
  unfold commitCancellation at hy
  dsimp only at hy
  split at hy
  · cases hy
  · rw [Option.ite_none_left_eq_some] at hy
    obtain ⟨-, hy⟩ := hy
    cases r with
    | begun | acknowledged =>
      simp only [Option.ite_none_left_eq_some] at hy
      obtain ⟨rfl, hm⟩ := edit_eq_some hy.2
      exact hm
    | unsupported =>
      obtain ⟨rfl, hm⟩ := edit_eq_some hy
      exact hm
    | confirmed => exact advance_moves hy

theorem control_moves {l : Control} (hy : control c x l = some y) :
    Relation.ReflTransGen AttemptState.Moves x.2 y.2 := by
  cases l with
  | act a now => exact .single (advance_moves hy)
  | cancel uninvoked now => exact requestCancellation_moves hy
  | report r now => exact .single (commitCancellation_moves hy)
  | exhausted =>
    simp only [control, exhaustPolls, Option.ite_none_right_eq_some] at hy
    obtain ⟨rfl, hm⟩ := edit_eq_some hy.2
    exact .single hm
  | claim =>
    simp only [control, Option.ite_none_right_eq_some] at hy
    obtain ⟨rfl, hm⟩ := edit_eq_some hy.2
    exact .single hm

theorem validate_of_moves {s t : AttemptState} (h : Relation.ReflTransGen AttemptState.Moves s t)
    (hs : s.validate = true) : t.validate = true := by
  induction h with
  | refl => exact hs
  | tail _ hm _ => exact hm.next

theorem released_of_moves {s t : AttemptState} (h : Relation.ReflTransGen AttemptState.Moves s t)
    (hs : Released s) : Released t := by
  induction h with
  | refl => exact hs
  | tail _ hm ih => exact ih.moves hm

end Moves

/-- **Every reachable pair is coupled.** -/
theorem run_coupled (c : Codec) (ls : List Control) :
    Coupled c.toCodec (Run.run (control c) initialConfig ls) :=
  Run.run_invariant (P := Coupled c.toCodec) (coupled_initial c.toCodec)
    (fun _ _ _ h hy => control_coupled h hy) ls

end Dispatch
end ComputeRelay
