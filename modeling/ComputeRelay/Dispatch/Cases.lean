import Mathlib.Tactic
import ComputeRelay.Dispatch.Apply

/-!
# What a step can do

`StepCase` lists the accepted outcomes of `step`, one constructor for each, with the guards the
source has checked on the way. `step_cases` is the inversion: every accepted step is one of them.
Every invariant of the journal is proved by cases on `StepCase` and never unfolds a branch again.
-/

namespace ComputeRelay
namespace Dispatch

open Domain Provider Scheduler

/-- The working copy of a fault: the failure count goes up, the observation budget starts. -/
def faultJournal (old : Journal) (name : String) (now : ℤ) : Journal :=
  { old with
    preparationObservationStarted :=
      if unconfirmedPreparation old ∧ old.preparationObservationStarted.isNone then some now
      else old.preparationObservationStarted
    failures := min (old.failures + 1) maxFailures
    submissionResourceName := name }

section FaultJournal

variable (old : Journal) (name : String) (now : ℤ)

@[simp] theorem faultJournal_phase : (faultJournal old name now).phase = old.phase := rfl
@[simp] theorem faultJournal_plan : (faultJournal old name now).plan = old.plan := rfl
@[simp] theorem faultJournal_submitStarted :
    (faultJournal old name now).submitStarted = old.submitStarted := rfl
@[simp] theorem faultJournal_remote : (faultJournal old name now).remote = old.remote := rfl
@[simp] theorem faultJournal_submissionResourceName :
    (faultJournal old name now).submissionResourceName = name := rfl
@[simp] theorem faultJournal_submissionAbsenceObservedAt :
    (faultJournal old name now).submissionAbsenceObservedAt = old.submissionAbsenceObservedAt := rfl
@[simp] theorem faultJournal_ownerSubmissionPresent :
    (faultJournal old name now).ownerSubmissionPresent = old.ownerSubmissionPresent := rfl

end FaultJournal

/-- The resource name a fault reports, as far as it may be published. -/
def Action.reportedName (a : Action) : String :=
  match a.details with
  | none => ""
  | some d => if validResourceName (d.get resourceNameDetail) then d.get resourceNameDetail else ""

/-- A fault keeps the recorded name or replaces it by the one it reports. -/
def faultNames (old : Journal) (a : Action) (name : String) : Prop :=
  name = old.submissionResourceName ∨
    (old.submitStarted = true ∧ old.remote = none ∧ name ≠ "" ∧ name = a.reportedName)

/-- The phases in which a fault is recorded. -/
def Phase.open_ (p : Phase) : Prop :=
  p ≠ .rejected ∧ p ≠ .failed ∧ p ≠ .collectible ∧ p ≠ .attention ∧ p ≠ .prevented

/-- The outcomes of the switch. -/
inductive StepCase (c : Codec) (old : Journal) (s : AttemptState) (a : Action) (now : ℤ) :
    Draft → Prop
  | refused (p : Problem) (kind : a.kind = .refuseNewWork) (started : old.submitStarted = false)
      (phase : old.phase = .local_ ∨ old.phase = .ready)
      (cancellation : s.cancellation = .notRequested) (execution : s.execution = .notSubmitted)
      (activity : s.remoteActivity = .notStarted) :
      StepCase c old s a now ⟨{ old with problem := some p },
        if old.plan.isNone then { s with orchestration := .queued } else s,
        .reconciliationDeferred⟩
  | prevented (kind : a.kind = .preventDispatch) (started : old.submitStarted = false)
      (orchestration : s.orchestration.terminal = false) (execution : s.execution = .notSubmitted)
      (activity : s.remoteActivity = .notStarted ∨ s.remoteActivity = .inactive) :
      StepCase c old s a now ⟨{ old with phase := .prevented },
        { s with orchestration := .cancelled, cancellation := .prevented,
                 releaseEvidence := .notApplicable },
        .cancellationRequested⟩
  | expired (p : Option Problem) (kind : a.kind = .expireDispatch)
      (started : old.submitStarted = false)
      (orchestration : s.orchestration.terminal = false) (execution : s.execution = .notSubmitted)
      (activity : s.remoteActivity = .notStarted ∨ s.remoteActivity = .inactive)
      (cancellation : s.cancellation = .notRequested) :
      StepCase c old s a now ⟨{ old with phase := .prevented, problem := p },
        { s with orchestration := .timedOut, cancellation := .notRequested,
                 releaseEvidence := .notApplicable, deadlineExceeded := true },
        .reconciliationDeferred⟩
  | reobserved (kind : a.kind = .requestReconciliation) (owner : a.ownerPresent = false)
      (open_ : reconciliationClosed old s = false) (started : old.submitStarted = false)
      (phase : old.phase = .attention ∨ old.phase = .staging ∨ old.phase = .ready)
      (execution : s.execution = .notSubmitted) (activity : s.remoteActivity = .notStarted)
      (cancellation : s.cancellation = .notRequested) (deadline : s.deadlineExceeded = false)
      (orchestration : s.orchestration = .needsAttention ∨ s.orchestration = .preparing ∨
        s.orchestration = .reconciling) :
      StepCase c old s a now ⟨{ old with phase := .staging, failures := 0, problem := none },
        { s with orchestration := .reconciling }, .reconciliationRequested⟩
  | reopened (j : Journal) (kind : a.kind = .requestReconciliation)
      (journal : (a.ownerPresent = false ∧ j = old) ∨
        (a.ownerPresent = true ∧ old.phase = .attention ∧ old.remote = none ∧
          s.execution = .unknown ∧ a.resourceName ≠ "" ∧
          a.resourceName = old.submissionResourceName ∧
          j = { old with ownerSubmissionPresent := true, submissionAbsenceObservedAt := none }))
      (open_ : reconciliationClosed old s = false) (started : old.submitStarted = true)
      (phase : old.phase = .attention ∨ old.phase = .submitting ∨ old.phase = .submitted) :
      StepCase c old s a now
        ⟨{ j with phase := if old.remote.isSome then .submitted else .submitting,
                  failures := 0, problem := none },
        { s with orchestration := if cancellationPending s then .cancelling else .reconciling },
        .reconciliationRequested⟩
  | intended (plan : Plan) (kind : a.kind = .beginPreparation) (offer : a.plan = some plan)
      (phase : old.phase = .local_) (fresh : old.plan = none) (state : localOnly s = true)
      (inputs : plan.job.inputs ≠ none) (job : plan.job.validate c.toCodec = true)
      (id : validOpaqueID a.preparationID = true) :
      StepCase c old s a now
        ⟨{ old with plan := some plan, preparationID := a.preparationID, phase := .staging,
                    problem := none, failures := 0 },
        { s with orchestration := .preparing }, .preparationIntended⟩
  | exposed (plan : Plan) (p : Prepared) (kind : a.kind = .preparationSeen)
      (answer : a.prepared = some p) (planned : old.plan = some plan)
      (phase : old.phase = .staging) (started : old.submitStarted = false)
      (valid : p.validate c.toCodec plan old.preparationID = true)
      (same : ∀ q, old.prepared = some q → q.resource = p.resource)
      (exposed : p.private_ = false) :
      StepCase c old s a now
        ⟨{ old with prepared := some p, failures := 0, phase := .attention,
                    problem := problem .privateStagingUnavailable false },
        { s with orchestration := .needsAttention }, .preparationObserved⟩
  | staged (plan : Plan) (p : Prepared) (kind : a.kind = .preparationSeen)
      (answer : a.prepared = some p) (planned : old.plan = some plan)
      (phase : old.phase = .staging) (started : old.submitStarted = false)
      (valid : p.validate c.toCodec plan old.preparationID = true)
      (same : ∀ q, old.prepared = some q → q.resource = p.resource)
      (hidden : p.private_ = true) :
      StepCase c old s a now
        ⟨{ old with prepared := some p, problem := none, failures := 0,
                    phase := if p.ready then .ready else old.phase },
        { s with orchestration := .preparing },
        if p.ready then .providerStagingReady else .preparationObserved⟩
  | abandoned (p : Problem) (kind : a.kind = .endUnconfirmedPreparation)
      (phase : old.phase = .staging) (planned : old.plan ≠ none)
      (unprepared : old.prepared = none) (started : old.submitStarted = false)
      (orchestration : s.orchestration.terminal = false) (execution : s.execution = .notSubmitted)
      (activity : s.remoteActivity = .notStarted) (cancellation : s.cancellation = .notRequested) :
      StepCase c old s a now ⟨{ old with phase := .prevented, problem := some p },
        { s with orchestration := .failed, releaseEvidence := .notApplicable },
        .reconciliationDeferred⟩
  | submitted (p : Prepared) (kind : a.kind = .beginSubmission) (phase : old.phase = .ready)
      (started : old.submitStarted = false) (prepared : old.prepared = some p)
      (ready : p.ready = true) (hidden : p.private_ = true) (state : localOnly s = true) :
      StepCase c old s a now
        ⟨{ old with
            submitStarted := true,
            startAuthorization := if a.startAuthorization.isSome then a.startAuthorization
              else old.startAuthorization,
            phase := .submitting, problem := none, failures := 0 },
        { s with orchestration := .dispatching, execution := .unknown,
                 remoteActivity := .possible },
        .submissionIntentRecorded⟩
  | accepted (plan : Plan) (o : SubmissionOutcome) (remote : RemoteReference)
      (kind : a.kind = .submissionSeen) (offer : a.submission = some o)
      (phase : old.phase = .submitting) (started : old.submitStarted = true)
      (unbound : old.remote = none) (planned : old.plan = some plan)
      (valid : o.validate plan.job.identity = true) (remote_eq : o.remote = some remote)
      (status : o.status = .accepted) : StepCase c old s a now (accepted old s (some remote))
  | rejected (plan : Plan) (o : SubmissionOutcome) (p : Problem)
      (kind : a.kind = .submissionSeen) (offer : a.submission = some o)
      (phase : old.phase = .submitting) (started : old.submitStarted = true)
      (unbound : old.remote = none) (planned : old.plan = some plan)
      (valid : o.validate plan.job.identity = true) (status : o.status = .rejected)
      (problem_eq : o.problem = some p) :
      StepCase c old s a now (rejected old s (some p))
  | ambiguous (plan : Plan) (o : SubmissionOutcome) (p : Problem)
      (kind : a.kind = .submissionSeen) (offer : a.submission = some o)
      (phase : old.phase = .submitting) (started : old.submitStarted = true)
      (unbound : old.remote = none) (planned : old.plan = some plan)
      (valid : o.validate plan.job.identity = true) (status : o.status = .unknown)
      (problem_eq : o.problem = some p) :
      StepCase c old s a now (ambiguous old s (some p))
  | absenceNoted (kind : a.kind = .submissionAbsenceSeen)
      (phase : old.phase = .submitting ∨ old.phase = .attention)
      (started : old.submitStarted = true) (unbound : old.remote = none)
      (owner : old.ownerSubmissionPresent = false) (execution : s.execution = .unknown)
      (orchestration : s.orchestration.terminal = false)
      (name : validResourceName a.resourceName = true)
      (same : old.submissionResourceName = "" ∨ old.submissionResourceName = a.resourceName)
      (grace : graceOver old now = false) :
      StepCase c old s a now (absenceDeferred old s a.resourceName now)
  | absent (first : ℤ) (kind : a.kind = .submissionAbsenceSeen) (phase : old.phase = .submitting)
      (started : old.submitStarted = true) (unbound : old.remote = none)
      (owner : old.ownerSubmissionPresent = false) (execution : s.execution = .unknown)
      (orchestration : s.orchestration.terminal = false)
      (name : validResourceName a.resourceName = true)
      (same : old.submissionResourceName = "" ∨ old.submissionResourceName = a.resourceName)
      (seen : old.submissionAbsenceObservedAt = some first)
      (grace : first + submissionAbsenceGrace ≤ now) :
      StepCase c old s a now (rejected { old with submissionResourceName := a.resourceName } s
        (absentOutcome a.kind a.resourceName).problem)
  | disowned (kind : a.kind = .ownerSubmissionAbsent)
      (phase : old.phase = .submitting ∨ old.phase = .attention)
      (started : old.submitStarted = true) (unbound : old.remote = none)
      (execution : s.execution = .unknown) (orchestration : s.orchestration.terminal = false)
      (name : validResourceName a.resourceName = true)
      (same : old.submissionResourceName = "" ∨ old.submissionResourceName = a.resourceName) :
      StepCase c old s a now (rejected { old with submissionResourceName := a.resourceName } s
        (absentOutcome a.kind a.resourceName).problem)
  | vanished (absence : RemoteAbsence) (p : Problem) (kind : a.kind = .remoteAbsenceSeen)
      (offer : a.absence = some absence) (phase : old.phase = .submitted)
      (bound : old.remote = some absence.remote) (time : validTime absence.observedAt = true)
      (past : absence.observedAt ≤ now)
      (later : ∀ o, old.observation = some o → o.observedAt < absence.observedAt)
      (code : p.code = .remoteExecutionUnresolved)
      (report : p.detail remoteAbsenceDetail = Rfc3339.formatNano absence.observedAt) :
      StepCase c old s a now ⟨{ old with phase := .attention, problem := some p },
        { s with orchestration := .needsAttention, execution := .unknown,
                 remoteActivity := .inactive, releaseEvidence := .providerReported,
                 cancellation := if cancellationPending s then .manual else s.cancellation },
        .reconciliationDeferred⟩
  | observed (remote : RemoteReference) (obs : Observation) (j : Journal) (t : AttemptState)
      (kind : a.kind = .observationSeen) (offer : a.observation = some obs)
      (phase : old.phase = .submitted) (bound : old.remote = some remote)
      (valid : obs.validate remote = true) (past : obs.observedAt ≤ now)
      (later : ∀ o, old.observation = some o → o.observedAt < obs.observedAt)
      (moves : s.Moves (observedState s obs))
      (journal : ∃ p n, j = { old with
        phase := if obs.execution.terminal then .collectible
          else if obs.execution = .unknown ∧ n = maxFailures then .attention else .submitted,
        observation := some { obs with rawState := executionText obs.execution },
        problem := p, failures := n })
      (next : t = observedState s obs ∨ (obs.execution = .unknown ∧ j.phase = .attention ∧
        t = { observedState s obs with
          orchestration := .needsAttention,
          cancellation := if cancellationPending s then .manual
            else (observedState s obs).cancellation })) :
      StepCase c old s a now ⟨j, t, .executionObserved⟩
  | localFault (name : String) (code : ErrorCode) (p : Problem) (kind : a.kind = .fault)
      (offer : a.code = some code) (phase : old.phase.open_) (fresh : old.plan = none)
      (names : faultNames old a name) :
      StepCase c old s a now (localFault (faultJournal old name now) old s code p now)
  | remoteFault (name : String) (code : ErrorCode) (p : Problem) (plan : Plan)
      (kind : a.kind = .fault) (offer : a.code = some code) (phase : old.phase.open_)
      (planned : old.plan = some plan)
      (names : faultNames old a name) :
      StepCase c old s a now (remoteFault (faultJournal old name now) old s code p)

section Faults

variable (j old : Journal) (s : AttemptState) (code : ErrorCode) (p : Problem) (now : ℤ)

/-- A fault before any plan fails the attempt or sends it back to the queue. -/
theorem localFault_cases : ∃ q : Problem,
    localFault j old s code p now = ⟨{ j with phase := .failed, problem := some q },
      { s with orchestration := .failed, releaseEvidence := .notApplicable },
      .reconciliationDeferred⟩ ∨
    localFault j old s code p now = ⟨{ j with problem := some q },
      { s with orchestration := .queued }, .reconciliationDeferred⟩ := by
  unfold localFault
  dsimp only
  split_ifs
  · exact ⟨_, Or.inl rfl⟩
  · exact ⟨_, Or.inl rfl⟩
  · exact ⟨_, Or.inr rfl⟩

/-- A fault behind a plan asks for attention or is observed again. -/
theorem remoteFault_cases :
    remoteFault j old s code p = ⟨{ j with phase := .attention, problem := some p },
      { s with orchestration := .needsAttention,
               cancellation := if cancellationPending s then .manual else s.cancellation },
      .reconciliationDeferred⟩ ∨
    remoteFault j old s code p = ⟨{ j with problem := some p },
      { s with orchestration := if old.submitStarted then .reconciling else .preparing },
      .reconciliationDeferred⟩ := by
  unfold remoteFault
  by_cases h : permanentFault code ∨ (j.failures = maxFailures ∧ !unconfirmedPreparation old)
  · exact Or.inl (if_pos h)
  · exact Or.inr (if_neg h)

end Faults

/-! ### The inversion, branch by branch -/

/-- A guarded computation that succeeds has passed its guard. -/
theorem ok_of_guard {ε α : Type} {p : Prop} [Decidable p] {e : ε} {x : Except ε α} {r : α}
    (h : (if p then .error e else x) = Except.ok r) : ¬p ∧ x = .ok r := by
  by_cases hp : p
  · rw [if_pos hp] at h
    cases h
  · rw [if_neg hp] at h
    exact ⟨hp, h⟩

section Inversion

variable {c : Codec} {old : Journal} {s : AttemptState} {a : Action} {now : ℤ} {d : Draft}

theorem refuseNewWork_cases (hk : a.kind = .refuseNewWork) (h : refuseNewWork old s a = .ok d) :
    StepCase c old s a now d := by
  obtain ⟨hg, h⟩ := ok_of_guard h
  simp only [not_or, not_and_or, not_not, Bool.not_eq_true] at hg
  obtain ⟨hs, hp, hc, he, hr⟩ := hg
  split at h
  · cases h
  · obtain ⟨-, h⟩ := ok_of_guard h
    cases h
    exact .refused _ hk hs hp hc he hr

theorem preventDispatch_cases (hk : a.kind = .preventDispatch ∨ a.kind = .expireDispatch)
    (h : preventDispatch old s a = .ok d) : StepCase c old s a now d := by
  obtain ⟨hg, h⟩ := ok_of_guard h
  simp only [not_or, not_and_or, not_not, Bool.not_eq_true] at hg
  obtain ⟨hs, ho, he, hr⟩ := hg
  by_cases hx : a.kind = .expireDispatch
  · rw [if_pos hx] at h
    obtain ⟨hc, h⟩ := ok_of_guard h
    cases h
    exact .expired _ hx hs ho he hr (not_not.mp hc)
  · rw [if_neg hx] at h
    cases h
    exact .prevented (hk.resolve_right hx) hs ho he hr

theorem requestReconciliation_cases (hk : a.kind = .requestReconciliation)
    (h : requestReconciliation old s a = .ok d) : StepCase c old s a now d := by
  obtain ⟨hown, h⟩ := ok_of_guard h
  obtain ⟨hopen, h⟩ := ok_of_guard h
  simp only [not_and, not_or, not_not, Bool.not_eq_true', Bool.not_eq_false, Bool.not_eq_true,
    Option.isSome_eq_false_iff, Option.isNone_iff_eq_none] at hown hopen
  cases hs : old.submitStarted with
  | false =>
    simp only [hs, Bool.not_false, if_true] at h
    have hno : a.ownerPresent = false := by
      cases hp : a.ownerPresent
      · rfl
      · exact absurd (hown hp).2.1 (by simp [hs])
    obtain ⟨hg, h⟩ := ok_of_guard h
    simp only [not_or, not_and_or, not_not, Bool.not_eq_true] at hg
    obtain ⟨hp, he, hr, hc, hd, ho⟩ := hg
    have hpend : cancellationPending s = false := by simp [cancellationPending, hc]
    simp only [hno, hpend, Bool.false_eq_true, if_false] at h
    cases h
    exact .reobserved hk hno hopen hs hp he hr hc hd ho
  | true =>
    simp only [hs, Bool.not_true, Bool.false_eq_true, if_false] at h
    obtain ⟨hp, h⟩ := ok_of_guard h
    simp only [not_and_or, not_not] at hp
    cases h
    refine .reopened _ hk ?_ hopen hs hp
    cases hp : a.ownerPresent with
    | false => exact Or.inl ⟨rfl, rfl⟩
    | true =>
      obtain ⟨h1, -, h2, h3, h4, h5⟩ := hown hp
      exact Or.inr ⟨rfl, h1, h2, h3, h4, h5, by simp [hs]⟩

theorem beginPreparation_cases (hk : a.kind = .beginPreparation)
    (h : beginPreparation c old s a = .ok d) : StepCase c old s a now d := by
  unfold beginPreparation at h
  cases hp : a.plan with
  | none => simp [hp] at h
  | some plan =>
    simp only [hp] at h
    obtain ⟨hg, h⟩ := ok_of_guard h
    simp only [not_or, not_not, Bool.not_eq_true', Bool.not_eq_false, Bool.not_eq_true,
      Option.isSome_eq_false_iff, Option.isNone_iff_eq_none] at hg
    obtain ⟨h1, h2, h3, h4, h5, h6⟩ := hg
    cases h
    exact .intended plan hk hp h1 h2 h3 h4 h5 h6

theorem preparationSeen_cases (hk : a.kind = .preparationSeen)
    (h : preparationSeen c old s a = .ok d) : StepCase c old s a now d := by
  unfold preparationSeen at h
  split at h
  · next p plan hp hplan =>
    obtain ⟨hg, h⟩ := ok_of_guard h
    simp only [not_or, not_not, Bool.not_eq_true', Bool.not_eq_false, Bool.not_eq_true,
      Option.any_eq_false, decide_eq_false_iff_not] at hg
    obtain ⟨h1, h2, h3, h4⟩ := hg
    have hsame : ∀ q, old.prepared = some q → q.resource = p.resource := by
      intro q hq
      simpa using h4 q hq
    cases hpriv : p.private_ with
    | false =>
      simp only [hpriv, Bool.not_false, if_true] at h
      cases h
      exact .exposed plan p hk hp hplan h1 h2 h3 hsame hpriv
    | true =>
      simp only [hpriv, Bool.not_true, Bool.false_eq_true, if_false] at h
      cases h
      exact .staged plan p hk hp hplan h1 h2 h3 hsame hpriv
  · cases h

theorem endUnconfirmedPreparation_cases (hk : a.kind = .endUnconfirmedPreparation)
    (h : endUnconfirmedPreparation old s a = .ok d) : StepCase c old s a now d := by
  obtain ⟨hg, h⟩ := ok_of_guard h
  simp only [not_or, not_not, Bool.not_eq_true, Option.isSome_eq_false_iff,
    Option.isNone_iff_eq_none] at hg
  obtain ⟨h1, h2, h3, h4, h5, h6, h7, h8⟩ := hg
  obtain ⟨-, h⟩ := ok_of_guard h
  cases h
  exact .abandoned _ hk h1 h2 h3 h4 h5 h6 h7 h8

theorem beginSubmission_cases (hk : a.kind = .beginSubmission)
    (h : beginSubmission old s a = .ok d) : StepCase c old s a now d := by
  obtain ⟨hg, h⟩ := ok_of_guard h
  simp only [not_or, not_not, Bool.not_eq_true', Bool.not_eq_false, Bool.not_eq_true,
    Option.any_eq_true, Bool.and_eq_true] at hg
  obtain ⟨h1, h2, ⟨p, hp, hready, hpriv⟩, h4, -⟩ := hg
  cases h
  exact .submitted p hk h1 h2 hp hready hpriv h4

/-- Settling a submission passes the checks on the outcome and follows its status. -/
theorem settle_ok {j : Journal} {kind : Kind} {o : SubmissionOutcome}
    (h : settle old j s kind (some o) = .ok d) :
    ∃ plan, old.plan = some plan ∧ (old.phase = .submitting ∨ kind = .ownerSubmissionAbsent) ∧
      old.submitStarted = true ∧ old.remote = none ∧ o.validate plan.job.identity = true ∧
      ((o.status = .accepted ∧ d = accepted j s o.remote) ∨
        (o.status = .rejected ∧ d = rejected j s o.problem) ∨
        (o.status = .unknown ∧ d = ambiguous j s o.problem)) := by
  unfold settle at h
  split at h
  · next o' plan ho hplan =>
    cases ho
    obtain ⟨hg, h⟩ := ok_of_guard h
    simp only [not_or, not_and_or, not_not, Bool.not_eq_true', Bool.not_eq_false,
      Bool.not_eq_true, Option.isSome_eq_false_iff, Option.isNone_iff_eq_none] at hg
    obtain ⟨h1, h2, h3, h4⟩ := hg
    refine ⟨plan, hplan, h1, h2, h3, h4, ?_⟩
    split at h
    · next hst => cases h; exact Or.inl ⟨hst, rfl⟩
    · next hst => cases h; exact Or.inr (Or.inl ⟨hst, rfl⟩)
    · next hst => cases h; exact Or.inr (Or.inr ⟨hst, rfl⟩)
  · cases h

theorem remote_of_accepted {o : SubmissionOutcome} {id : Identity} (hv : o.validate id = true)
    (hs : o.status = .accepted) : ∃ r, o.remote = some r := by
  simp only [SubmissionOutcome.validate, hs, Bool.and_eq_true] at hv
  exact Option.isSome_iff_exists.mp hv.2.1

theorem problem_of_not_accepted {o : SubmissionOutcome} {id : Identity}
    (hv : o.validate id = true) (hs : o.status = .rejected ∨ o.status = .unknown) :
    ∃ p, o.problem = some p := by
  cases hp : o.problem with
  | some p => exact ⟨p, rfl⟩
  | none => rcases hs with hs | hs <;> simp [SubmissionOutcome.validate, hs, hp] at hv

theorem submissionReported_cases (hk : a.kind = .submissionSeen ∨ a.kind = .submissionAbsenceSeen ∨
    a.kind = .ownerSubmissionAbsent) (h : submissionReported old s a now = .ok d) :
    StepCase c old s a now d := by
  unfold submissionReported at h
  by_cases hseen : a.kind = .submissionSeen
  · rw [if_pos hseen] at h
    cases ho : a.submission with
    | none => simp [ho, settle] at h
    | some o =>
      rw [ho] at h
      obtain ⟨plan, hplan, hph, hs, hr, hv, hd⟩ := settle_ok h
      have hph := hph.resolve_right (by simp [hseen])
      rcases hd with ⟨hst, rfl⟩ | ⟨hst, rfl⟩ | ⟨hst, rfl⟩
      · obtain ⟨r, hr'⟩ := remote_of_accepted hv hst
        rw [hr']
        exact .accepted plan o r hseen ho hph hs hr hplan hv hr' hst
      · obtain ⟨p, hp⟩ := problem_of_not_accepted hv (Or.inl hst)
        rw [hp]
        exact .rejected plan o p hseen ho hph hs hr hplan hv hst hp
      · obtain ⟨p, hp⟩ := problem_of_not_accepted hv (Or.inr hst)
        rw [hp]
        exact .ambiguous plan o p hseen ho hph hs hr hplan hv hst hp
  · rw [if_neg hseen] at h
    obtain ⟨hg, h⟩ := ok_of_guard h
    simp only [not_or, not_and_or, not_not, Bool.not_eq_true', Bool.not_eq_false,
      Bool.not_eq_true, Option.isSome_eq_false_iff, Option.isNone_iff_eq_none] at hg
    obtain ⟨h1, h2, h3, h4, h5, h6, h7, h8⟩ := hg
    by_cases hown : a.kind = .ownerSubmissionAbsent
    · rw [if_neg (fun hc => hc.1 hown)] at h
      obtain ⟨-, -, -, -, -, -, hd⟩ := settle_ok h
      rcases hd with ⟨hst, -⟩ | ⟨-, rfl⟩ | ⟨hst, -⟩
      · cases hst
      · exact .disowned hown h1 h2 h3 h5 h6 h7 h8
      · cases hst
    · have habs : a.kind = .submissionAbsenceSeen := by tauto
      have hpresent := h4.resolve_left (fun hne => hne habs)
      cases hgrace : graceOver old now with
      | false =>
        rw [if_pos ⟨hown, by simp [hgrace]⟩] at h
        cases h
        exact .absenceNoted habs h1 h2 h3 hpresent h5 h6 h7 h8 hgrace
      | true =>
        rw [if_neg (by simp [hgrace])] at h
        obtain ⟨-, -, hph, -, -, -, hd⟩ := settle_ok h
        obtain ⟨t, ht, hle⟩ := (Option.any_eq_true ..).mp hgrace
        rcases hd with ⟨hst, -⟩ | ⟨-, rfl⟩ | ⟨hst, -⟩
        · cases hst
        · exact .absent t habs (hph.resolve_right hown) h2 h3 hpresent h5 h6 h7 h8 ht
            (by simpa using hle)
        · cases hst

theorem remoteAbsenceSeen_cases (hk : a.kind = .remoteAbsenceSeen)
    (h : remoteAbsenceSeen old s a now = .ok d) : StepCase c old s a now d := by
  unfold remoteAbsenceSeen at h
  split at h
  · next remote absence hr ha =>
    obtain ⟨hg, h⟩ := ok_of_guard h
    simp only [not_or, not_not, Bool.not_eq_true', Bool.not_eq_false, Bool.not_eq_true, not_lt,
      Option.any_eq_false, decide_eq_false_iff_not, not_le] at hg
    obtain ⟨h1, h2, h3, h4, h5⟩ := hg
    cases h
    refine .vanished absence _ hk ha h1 (h2 ▸ hr) h3 h4 ?_ rfl ?_
    · intro o ho
      exact h5 o ho
    · exact Problem.detail_withDetail ..
  · cases h

/-- The journal and the state an accepted observation leaves. -/
theorem observationSeen_cases (hk : a.kind = .observationSeen)
    (h : observationSeen old s a now = .ok d) : StepCase c old s a now d := by
  unfold observationSeen at h
  split at h
  · next remote obs hr ho =>
    obtain ⟨hg, h⟩ := ok_of_guard h
    obtain ⟨hstale, h⟩ := ok_of_guard h
    obtain ⟨hmv, h⟩ := ok_of_guard h
    simp only [not_or, not_not, Bool.not_eq_true', Bool.not_eq_false, Bool.not_eq_true, not_lt,
      Option.any_eq_false, decide_eq_false_iff_not, not_le] at hg hstale hmv
    have hm := (AttemptState.moves_iff _ _).mp hmv
    have hlater : ∀ o, old.observation = some o → o.observedAt < obs.observedAt := fun o ho' =>
      hstale.2 o ho'
    by_cases hu : obs.execution = .unknown
    · rw [if_pos hu] at h
      by_cases hf : min (old.failures + 1) maxFailures = maxFailures
      · rw [if_pos hf] at h
        cases h
        refine .observed remote obs _ _ hk ho hg.1 hr hg.2 hstale.1 hlater hm
          ⟨problem .providerStateUnknown true, maxFailures, ?_⟩ (Or.inr ⟨hu, rfl, rfl⟩)
        simp [hu, hf, ExecutionState.terminal]
      · rw [if_neg hf] at h
        cases h
        refine .observed remote obs _ _ hk ho hg.1 hr hg.2 hstale.1 hlater hm
          ⟨problem .providerStateUnknown true, min (old.failures + 1) maxFailures, ?_⟩ (Or.inl rfl)
        simp [hu, hf, hg.1, ExecutionState.terminal]
    · rw [if_neg hu] at h
      cases h
      refine .observed remote obs _ _ hk ho hg.1 hr hg.2 hstale.1 hlater hm ⟨none, 0, ?_⟩
        (Or.inl rfl)
      simp [hu, hg.1]
  · cases h

theorem faultName_names (p : Problem) : faultNames old a (faultName old (faultDetails p a) a) := by
  unfold faultName
  split_ifs with hg
  · obtain ⟨hd, hs, hr, hne⟩ := hg
    refine Or.inr ⟨hs, Option.isNone_iff_eq_none.mp hr, hne, ?_⟩
    obtain ⟨det, hdet⟩ := Option.isSome_iff_exists.mp hd
    simp only [faultDetails, hdet, Action.reportedName]
    exact Problem.publicDetails_resourceName { p with details := det }
  · exact Or.inl rfl

theorem fault_cases (hk : a.kind = .fault) (h : fault old s a now = .ok d) :
    StepCase c old s a now d := by
  obtain ⟨hg, h⟩ := ok_of_guard h
  simp only [not_or] at hg
  split at h
  · cases h
  · next code hcode =>
    split at h
    · cases h
    · next p hp =>
      dsimp only at h
      cases h1 : publish (faultDetails p a) reasonDetail (faultReason old (faultDetails p a) a) with
      | error e => simp [h1, Except.bind] at h
      | ok q =>
        cases h2 : publish q causeDetail a.cause with
        | error e => simp [h1, h2, Except.bind] at h
        | ok r =>
          simp only [h1, h2, Except.bind, Except.ok.injEq] at h
          subst h
          by_cases hplan : old.plan = none
          · rw [if_pos (by simp [hplan])]
            exact .localFault _ code r hk hcode hg hplan (faultName_names p)
          · obtain ⟨plan, hplan⟩ := Option.ne_none_iff_exists'.mp hplan
            rw [if_neg (by simp [hplan])]
            exact .remoteFault _ code r plan hk hcode hg hplan (faultName_names p)

/-- **Inversion**: every accepted step is one of the listed cases. -/
theorem step_cases (h : step c old s a now = .ok d) : StepCase c old s a now d := by
  unfold step at h
  split at h
  · next hk => exact refuseNewWork_cases hk h
  · next hk => exact preventDispatch_cases (Or.inl hk) h
  · next hk => exact preventDispatch_cases (Or.inr hk) h
  · next hk => exact requestReconciliation_cases hk h
  · next hk => exact beginPreparation_cases hk h
  · next hk => exact preparationSeen_cases hk h
  · next hk => exact endUnconfirmedPreparation_cases hk h
  · next hk => exact beginSubmission_cases hk h
  · next hk => exact submissionReported_cases (Or.inl hk) h
  · next hk => exact submissionReported_cases (Or.inr (Or.inl hk)) h
  · next hk => exact submissionReported_cases (Or.inr (Or.inr hk)) h
  · next hk => exact remoteAbsenceSeen_cases hk h
  · next hk => exact observationSeen_cases hk h
  · next hk => exact fault_cases hk h

end Inversion

end Dispatch
end ComputeRelay
