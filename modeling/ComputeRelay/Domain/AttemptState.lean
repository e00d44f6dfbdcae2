import Mathlib.Tactic

/-!
# The state of one attempt

`AttemptState` (`internal/domain/attempt_state.go`) keeps seven dimensions side by side: what the
local runtime is doing, what the provider has established about the execution, the local results,
the cancellation, the remote activity, the release evidence and the deadline.

* `AttemptState.validate` is the cross-dimension check, one named rule for each block of the source.
* the `…Transitions` tables (`internal/domain/state_types.go`) list the permitted moves of each
  dimension.
* `validateAttemptStateTransition` (`internal/domain/transition.go`) asks for two valid states and
  a permitted move in every dimension, with one exception for a remote resource found absent;
  `AttemptState.moves_iff` reads it as the named rules of `AttemptState.Moves`.

The error texts of the two checks are read by no caller and are left out: a check is a `Bool`.
-/

namespace ComputeRelay
namespace Domain

/-- What the local runtime is doing. -/
inductive OrchestrationState
  | queued | preparing | dispatching | submitted | running | collecting | blocked | reconciling
  | cancelling | needsAttention | succeeded | failed | cancelled | timedOut
  deriving DecidableEq

/-- What provider or runner evidence has established. -/
inductive ExecutionState
  | notSubmitted | unknown | queued | starting | running | succeeded | failed | cancelled | timedOut
  deriving DecidableEq

/-- Verified local artifact availability. -/
inductive ResultState
  | notAvailable | collecting | available | incomplete | invalid | expired
  deriving DecidableEq

/-- Intent and evidence of a cancellation. -/
inductive CancellationState
  | notRequested | requested | requesting | accepted | prevented | confirmed | tooLate | manual
  deriving DecidableEq

/-- Whether the attempt has or may have active remote compute. -/
inductive RemoteActivityState
  | notStarted | unknown | possible | active | inactive
  deriving DecidableEq

/-- Hardware-release evidence, separate from execution. -/
inductive ReleaseEvidence
  | unknown | notApplicable | notObservable | providerReported | confirmed
  deriving DecidableEq

def OrchestrationState.terminal : OrchestrationState → Bool
  | .succeeded | .failed | .cancelled | .timedOut => true
  | _ => false

def ExecutionState.terminal : ExecutionState → Bool
  | .succeeded | .failed | .cancelled | .timedOut => true
  | _ => false

/-! ### The transition tables -/

def orchestrationTransitions : OrchestrationState → List OrchestrationState
  | .queued => [.preparing, .blocked, .cancelled, .failed, .timedOut]
  | .preparing => [.queued, .dispatching, .blocked, .reconciling, .cancelling, .needsAttention,
      .failed, .cancelled, .timedOut]
  | .dispatching => [.submitted, .running, .collecting, .reconciling, .cancelling, .needsAttention,
      .failed, .cancelled, .timedOut]
  | .submitted => [.running, .collecting, .reconciling, .cancelling, .needsAttention, .failed,
      .cancelled, .timedOut]
  | .running => [.collecting, .reconciling, .cancelling, .needsAttention, .failed, .cancelled,
      .timedOut]
  | .collecting => [.succeeded, .failed, .cancelled, .timedOut, .blocked, .reconciling,
      .needsAttention]
  | .blocked => [.queued, .preparing, .dispatching, .reconciling, .cancelling, .needsAttention,
      .failed, .cancelled, .timedOut]
  | .reconciling => [.preparing, .dispatching, .submitted, .running, .collecting, .blocked,
      .cancelling, .needsAttention, .failed, .cancelled, .timedOut]
  | .cancelling => [.collecting, .reconciling, .needsAttention, .succeeded, .failed, .cancelled,
      .timedOut]
  | .needsAttention => [.submitted, .running, .collecting, .reconciling, .cancelling, .succeeded,
      .failed, .cancelled, .timedOut]
  | .succeeded | .failed | .cancelled | .timedOut => []

def executionTransitions : ExecutionState → List ExecutionState
  | .notSubmitted => [.unknown, .queued, .starting, .running, .succeeded, .failed, .cancelled,
      .timedOut]
  | .unknown => [.notSubmitted, .queued, .starting, .running, .succeeded, .failed, .cancelled,
      .timedOut]
  | .queued => [.starting, .running, .succeeded, .failed, .cancelled, .timedOut]
  | .starting => [.running, .succeeded, .failed, .cancelled, .timedOut]
  | .running => [.succeeded, .failed, .cancelled, .timedOut]
  | .succeeded | .failed | .cancelled | .timedOut => []

def resultTransitions : ResultState → List ResultState
  | .notAvailable => [.collecting, .expired]
  | .collecting => [.available, .incomplete, .invalid, .expired]
  | .available => [.expired]
  | .incomplete => [.collecting, .expired]
  | .invalid => [.collecting, .expired]
  | .expired => []

def cancellationTransitions : CancellationState → List CancellationState
  | .notRequested => [.requested, .prevented]
  | .requested => [.requesting, .accepted, .prevented, .confirmed, .tooLate, .manual]
  | .requesting => [.accepted, .confirmed, .tooLate, .manual]
  | .accepted => [.confirmed, .tooLate, .manual]
  | .prevented | .confirmed | .tooLate => []
  | .manual => [.requested, .confirmed, .tooLate]

def remoteActivityTransitions : RemoteActivityState → List RemoteActivityState
  | .notStarted => [.unknown, .possible, .active, .inactive]
  | .unknown => [.possible, .active, .inactive]
  | .possible => [.active, .inactive]
  | .active => [.inactive]
  | .inactive => []

def releaseEvidenceTransitions : ReleaseEvidence → List ReleaseEvidence
  | .unknown => [.notApplicable, .notObservable, .providerReported, .confirmed]
  | .notApplicable => []
  | .notObservable => [.providerReported, .confirmed]
  | .providerReported => [.confirmed]
  | .confirmed => []

/-- One dimension may stay or follow an edge of its table. -/
def validateTransition {T : Type} [DecidableEq T] (current next : T) (graph : T → List T) : Bool :=
  current = next || next ∈ graph current

@[simp] theorem validateTransition_self {T : Type} [DecidableEq T] (x : T) (graph : T → List T) :
    validateTransition x x graph = true := by
  simp [validateTransition]

/-- A state without edges is never left. -/
theorem eq_of_validateTransition {T : Type} [DecidableEq T] {x y : T} {graph : T → List T}
    (h : validateTransition x y graph = true) (hx : graph x = []) : y = x := by
  simp only [validateTransition, hx, List.not_mem_nil, decide_false, Bool.or_false,
    decide_eq_true_eq] at h
  exact h.symm

/-! ### The state and its validity -/

structure AttemptState where
  orchestration : OrchestrationState
  execution : ExecutionState
  result : ResultState
  cancellation : CancellationState
  remoteActivity : RemoteActivityState
  releaseEvidence : ReleaseEvidence
  deadlineExceeded : Bool
  deriving DecidableEq

/-- The state of a newly admitted attempt before remote side effects. -/
def initialAttemptState : AttemptState where
  orchestration := .queued
  execution := .notSubmitted
  result := .notAvailable
  cancellation := .notRequested
  remoteActivity := .notStarted
  releaseEvidence := .unknown
  deadlineExceeded := false

namespace AttemptState

/-- Execution against remote activity. -/
def activityRule (s : AttemptState) : Bool :=
  match s.execution with
  | .notSubmitted => s.remoteActivity ≠ .possible ∧ s.remoteActivity ≠ .active
  | .queued | .starting | .running => s.remoteActivity ≠ .notStarted ∧ s.remoteActivity ≠ .inactive
  | .succeeded | .failed | .cancelled | .timedOut => s.remoteActivity = .inactive
  | .unknown => true

/-- Results need terminal execution evidence and an orchestration that is still collecting. -/
def resultRule (s : AttemptState) : Bool :=
  (s.result = .notAvailable || s.execution.terminal) &&
  match s.result with
  | .collecting => s.orchestration ∈ [.collecting, .reconciling, .needsAttention]
  | .incomplete | .invalid =>
    s.orchestration ∈ [.collecting, .reconciling, .needsAttention, .failed]
  | _ => true

/-- What each settled cancellation claims about the execution. -/
def cancellationRule (s : AttemptState) : Bool :=
  match s.cancellation with
  | .prevented => s.execution = .notSubmitted ∧
      (s.remoteActivity = .notStarted ∨ s.remoteActivity = .inactive)
  | .confirmed => s.execution = .cancelled ∧ s.remoteActivity = .inactive
  | .tooLate => s.execution.terminal
  | _ => true

/-- What each release evidence claims. -/
def releaseRule (s : AttemptState) : Bool :=
  match s.releaseEvidence with
  | .notApplicable => s.execution = .notSubmitted ∧ s.orchestration.terminal
  | .providerReported | .confirmed => s.remoteActivity = .inactive
  | _ => true

/-- A settled orchestration that is not a cancellation leaves none pending. -/
def uncancelled (s : AttemptState) : Bool :=
  s.cancellation = .notRequested ∨ s.cancellation = .tooLate

/-- What each orchestration state claims. -/
def orchestrationRule (s : AttemptState) : Bool :=
  match s.orchestration with
  | .submitted => s.execution ≠ .notSubmitted ∧ s.remoteActivity ≠ .notStarted ∧
      s.remoteActivity ≠ .inactive
  | .running => s.execution = .starting ∨ s.execution = .running
  | .collecting => s.execution.terminal
  | .succeeded => s.execution = .succeeded ∧ (s.result = .available ∨ s.result = .expired) ∧
      s.uncancelled
  | .failed => (s.execution = .notSubmitted ∨ s.execution = .succeeded ∨ s.execution = .failed) ∧
      s.uncancelled
  | .cancelled => (s.cancellation = .prevented ∨ s.cancellation = .confirmed) ∧
      (s.execution = .notSubmitted ∨ s.execution = .cancelled)
  | .timedOut => s.uncancelled ∧ s.deadlineExceeded ∧
      (s.execution = .notSubmitted ∨ s.execution = .timedOut)
  | _ => true

/-- A terminal orchestration leaves no remote activity open. -/
def terminalRule (s : AttemptState) : Bool :=
  !s.orchestration.terminal || s.remoteActivity = .inactive || s.remoteActivity = .notStarted

/-- The check of `AttemptState.Validate`: true when it returns no error. -/
def validate (s : AttemptState) : Bool :=
  s.activityRule && s.resultRule && s.cancellationRule && s.releaseRule && s.orchestrationRule &&
    s.terminalRule

end AttemptState

/-- A move of the whole state: both ends valid and every dimension on its table. The execution may
also return to unknown when the exact remote resource is found absent. -/
def validateAttemptStateTransition (current next : AttemptState) : Bool :=
  current.validate && next.validate &&
  validateTransition current.orchestration next.orchestration orchestrationTransitions &&
  (validateTransition current.execution next.execution executionTransitions ||
    -- exact resource absence ends activity without inventing an exit outcome
    ((current.execution = .queued || current.execution = .starting ||
        current.execution = .running) &&
      next.execution = .unknown && next.orchestration = .needsAttention &&
      next.remoteActivity = .inactive && next.releaseEvidence = .providerReported)) &&
  validateTransition current.result next.result resultTransitions &&
  validateTransition current.cancellation next.cancellation cancellationTransitions &&
  validateTransition current.remoteActivity next.remoteActivity remoteActivityTransitions &&
  validateTransition current.releaseEvidence next.releaseEvidence releaseEvidenceTransitions &&
  !(current.deadlineExceeded && !next.deadlineExceeded)

/-! ### Reading the checks -/

namespace AttemptState

theorem validate_iff (s : AttemptState) :
    s.validate = true ↔ s.activityRule = true ∧ s.resultRule = true ∧ s.cancellationRule = true ∧
      s.releaseRule = true ∧ s.orchestrationRule = true ∧ s.terminalRule = true := by
  simp only [validate, Bool.and_eq_true, and_assoc]

/-- The remote resource was found absent: the execution returns to unknown. -/
def foundAbsent (s t : AttemptState) : Prop :=
  (s.execution = .queued ∨ s.execution = .starting ∨ s.execution = .running) ∧
    t.execution = .unknown ∧ t.orchestration = .needsAttention ∧ t.remoteActivity = .inactive ∧
    t.releaseEvidence = .providerReported

/-- The rules of a move, one per field. -/
structure Moves (s t : AttemptState) : Prop where
  current : s.validate = true
  next : t.validate = true
  orchestration : validateTransition s.orchestration t.orchestration orchestrationTransitions = true
  execution : validateTransition s.execution t.execution executionTransitions = true ∨
    s.foundAbsent t
  result : validateTransition s.result t.result resultTransitions = true
  cancellation : validateTransition s.cancellation t.cancellation cancellationTransitions = true
  remoteActivity :
    validateTransition s.remoteActivity t.remoteActivity remoteActivityTransitions = true
  releaseEvidence :
    validateTransition s.releaseEvidence t.releaseEvidence releaseEvidenceTransitions = true
  deadline : s.deadlineExceeded = true → t.deadlineExceeded = true

/-- The check of the source is the conjunction of the named rules. -/
theorem moves_iff (s t : AttemptState) :
    validateAttemptStateTransition s t = true ↔ s.Moves t := by
  simp only [validateAttemptStateTransition, Bool.and_eq_true, Bool.or_eq_true, decide_eq_true_eq,
    Bool.not_eq_true', Bool.and_eq_false_iff, Bool.not_eq_false', and_assoc]
  constructor
  · rintro ⟨h1, h2, h3, h4, h5, h6, h7, h8, h9⟩
    refine ⟨h1, h2, h3, ?_, h5, h6, h7, h8, ?_⟩
    · rcases h4 with h4 | ⟨he, h4⟩
      · exact Or.inl h4
      · exact Or.inr ⟨or_assoc.mp he, h4⟩
    · intro hd
      rcases h9 with h9 | h9
      · rw [hd] at h9
        cases h9
      · exact h9
  · intro h
    refine ⟨h.current, h.next, h.orchestration, ?_, h.result, h.cancellation, h.remoteActivity,
      h.releaseEvidence, ?_⟩
    · rcases h.execution with he | ⟨he, ht⟩
      · exact Or.inl he
      · exact Or.inr ⟨or_assoc.mpr he, ht⟩
    · cases hd : s.deadlineExceeded
      · exact Or.inl rfl
      · exact Or.inr (h.deadline hd)

theorem Moves.orchestration_eq {s t : AttemptState} (h : s.Moves t)
    (hs : s.orchestration.terminal = true) : t.orchestration = s.orchestration := by
  refine eq_of_validateTransition h.orchestration ?_
  cases ho : s.orchestration <;> simp_all [OrchestrationState.terminal, orchestrationTransitions]

theorem Moves.inactive {s t : AttemptState} (h : s.Moves t) (hs : s.remoteActivity = .inactive) :
    t.remoteActivity = .inactive := by
  rw [← hs]
  exact eq_of_validateTransition h.remoteActivity (by rw [hs]; rfl)

end AttemptState

end Domain
end ComputeRelay
