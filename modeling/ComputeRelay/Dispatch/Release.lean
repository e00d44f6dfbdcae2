import Mathlib.Tactic
import ComputeRelay.Dispatch.OneShot
import ComputeRelay.Dispatch.Validity

/-!
# Capacity is released only on evidence

The journal, the attempt state and the capacity predicate, along runs of `apply` interleaved with
cancellation edits.

* `Label`, `advanceEdited`: an action at a time, an edit of the cancellation, or the claim of a
  local row by the scheduler.
* `Evidence` relates the phase of the journal to the state; `apply_evidence` and `edit_evidence`
  prove that one step keeps it, `run_evidence` that a run does.
* `capacity_released_on_evidence` is the main result.
-/

namespace ComputeRelay
namespace Dispatch

open Domain Provider Scheduler

/-! ### Edited runs -/

/-- A cancellation edit: the cancellation moves to a pending or manual value and the orchestration
stays, turns to cancelling or asks for attention; `Attempt.Transition` accepts the move. -/
def cancellationEdit (s t : AttemptState) : Bool :=
  validateAttemptStateTransition s t &&
  (t.cancellation = .requested || t.cancellation = .requesting || t.cancellation = .accepted ||
    t.cancellation = .manual) &&
  (t.orchestration = s.orchestration || t.orchestration = .cancelling ||
    t.orchestration = .needsAttention) &&
  t.execution = s.execution && t.result = s.result && t.remoteActivity = s.remoteActivity &&
  t.releaseEvidence = s.releaseEvidence && t.deadlineExceeded = s.deadlineExceeded

/-- What may happen to a journal and its attempt. -/
inductive Label
  | act (a : Action) (now : ℤ)
  | edit (t : AttemptState)
  | claim

/-- The state a claimed local row is moved to. -/
def claimedState (s : AttemptState) : AttemptState := { s with orchestration := .preparing }

/-- One step of an edited run. A claim starts the preparation of a local row without a plan. -/
def advanceEdited (c : Codec) (x : Config) : Label → Option Config
  | .act a now => advance c x (a, now)
  | .edit t => if cancellationEdit x.2 t then some (x.1, t) else none
  | .claim =>
    if x.1.plan.isNone && localOnly x.2 &&
        validateAttemptStateTransition x.2 (claimedState x.2) then some (x.1, claimedState x.2)
    else none

/-! ### What a released account rests on -/

/-- The journal justifies inactive remote activity: a proven rejection, a terminal observation of
the accepted remote, or a report that exactly this remote is absent. -/
def Settled (j : Journal) : Prop :=
  j.phase = .rejected ∨ j.phase = .collectible ∨ j.remoteAbsence ≠ none

/-- How the phase of the journal and the attempt state hang together. -/
structure Evidence (c : Provider.Codec) (x : Config) : Prop where
  journal : x.1.valid c = true
  state : x.2.validate = true
  unsubmitted : x.1.submitStarted = false → x.2.execution = .notSubmitted ∧
    x.2.remoteActivity = .notStarted ∧
    (x.2.orchestration.terminal = true ↔ x.1.phase = .prevented ∨ x.1.phase = .failed)
  begun : x.1.submitStarted = true → x.2.remoteActivity ≠ .notStarted
  settled : x.1.submitStarted = true → x.2.remoteActivity = .inactive → Settled x.1

/-- An unsettled journal still has possible activity. -/
theorem Evidence.active {c : Provider.Codec} {x : Config} (h : Evidence c x)
    (hs : x.1.submitStarted = true) (hn : ¬Settled x.1) : x.2.remoteActivity ≠ .inactive :=
  fun hr => hn (h.settled hs hr)

theorem not_settled_of_phase {j : Journal} (h1 : j.phase ≠ .rejected) (h2 : j.phase ≠ .collectible)
    (h3 : j.remoteAbsence = none) : ¬Settled j := by
  rintro (h | h | h)
  exacts [h1 h, h2 h, h h3]

/-! ### One step -/

/-- Started remote activity never returns to not started. -/
theorem begun_moves {s t : AttemptState} (hm : s.Moves t) (hs : s.remoteActivity ≠ .notStarted) :
    t.remoteActivity ≠ .notStarted := by
  intro ht
  have h := hm.remoteActivity
  rw [ht] at h
  cases hr : s.remoteActivity <;> rw [hr] at h hs <;> first | exact hs rfl | cases h

section Step

variable {c : Codec} {old j : Journal} {s t : AttemptState} {a : Action} {now : ℤ}

/-- A step before the submission keeps the evidence when it leaves the execution alone and ends
the orchestration exactly in the two closed phases. -/
theorem Evidence.of_unstarted (h : Evidence c.toCodec (old, s)) (hv : j.valid c.toCodec = true)
    (hm : s.Moves t) (hold : old.submitStarted = false) (hj : j.submitStarted = false)
    (he : t.execution = s.execution) (hr : t.remoteActivity = s.remoteActivity)
    (ho : t.orchestration.terminal = true ↔ j.phase = .prevented ∨ j.phase = .failed) :
    Evidence c.toCodec (j, t) where
  journal := hv
  state := hm.next
  unsubmitted _ := ⟨he.trans (h.unsubmitted hold).1, hr.trans (h.unsubmitted hold).2.1, ho⟩
  begun hs := by rw [hj] at hs; cases hs
  settled hs := by rw [hj] at hs; cases hs

/-- A step behind the submission keeps the evidence when it justifies inactive activity. -/
theorem Evidence.of_started (h : Evidence c.toCodec (old, s)) (hv : j.valid c.toCodec = true)
    (hm : s.Moves t) (hold : old.submitStarted = true) (hj : j.submitStarted = true)
    (hset : t.remoteActivity = .inactive → Settled j) : Evidence c.toCodec (j, t) where
  journal := hv
  state := hm.next
  unsubmitted hs := by rw [hj] at hs; cases hs
  begun _ := begun_moves hm (h.begun hold)
  settled _ := hset

/-- A step over an unsettled journal that leaves the remote activity alone keeps the evidence. -/
theorem Evidence.of_unsettled (h : Evidence c.toCodec (old, s)) (hv : j.valid c.toCodec = true)
    (hm : s.Moves t) (hold : old.submitStarted = true) (hj : j.submitStarted = true)
    (hn : ¬Settled old) (hr : t.remoteActivity = s.remoteActivity) : Evidence c.toCodec (j, t) :=
  h.of_started hv hm hold hj fun hi => absurd (hr.symm.trans hi) (h.active hold hn)

theorem not_settled_submitting (h : old.phase = .submitting) : ¬Settled old :=
  not_settled_of_phase (by simp [h]) (by simp [h]) (remoteAbsence_of_phase (by simp [h]))

theorem not_settled_submitted (h : old.phase = .submitted) : ¬Settled old :=
  not_settled_of_phase (by simp [h]) (by simp [h]) (remoteAbsence_of_phase (by simp [h]))

theorem not_settled_open (h : old.phase.open_) : ¬Settled old :=
  not_settled_of_phase h.1 h.2.2.1 (remoteAbsence_of_phase h.2.2.2.1)

/-- An open reconciliation reopens no settled journal. -/
theorem not_settled_reopened (h : reconciliationClosed old s = false)
    (hp : old.phase = .attention ∨ old.phase = .submitting ∨ old.phase = .submitted) :
    ¬Settled old := by
  simp only [reconciliationClosed, Bool.or_eq_false_iff, Option.isSome_eq_false_iff,
    Option.isNone_iff_eq_none] at h
  refine not_settled_of_phase ?_ ?_ h.1.1.1 <;> rcases hp with hp | hp | hp <;> simp [hp]

/-- What an observation leaves of the remote activity: inactive exactly with a terminal execution,
unless the observation is uncertain. -/
theorem remoteActivity_observedState (s : AttemptState) (obs : Observation) :
    (observedState s obs).remoteActivity =
      if obs.execution = .unknown then s.remoteActivity else obs.remoteActivity := by
  unfold observedState
  dsimp only
  split_ifs <;> rfl

theorem terminal_of_inactive {obs : Observation} {r : RemoteReference}
    (hv : obs.validate r = true) (hi : obs.remoteActivity = .inactive) :
    obs.execution.terminal = true := by
  by_contra ht
  simp [Observation.validate, hi, ht] at hv

theorem StepCase.evidence {d : Draft} (h : Evidence c.toCodec (old, s))
    (hc : StepCase c old s a now d) (hv : (committed d.journal).valid c.toCodec = true)
    (hm : s.Moves d.next) : Evidence c.toCodec (committed d.journal, d.next) := by
  cases hc with
  | refused p kind started phase =>
    refine h.of_unstarted hv hm started started (by split_ifs <;> rfl) (by split_ifs <;> rfl) ?_
    have hopen := (h.unsubmitted started).2.2
    split_ifs
    · rcases phase with hp | hp <;> simp [hp, OrchestrationState.terminal]
    · exact hopen
  | prevented kind started | expired p kind started =>
    exact h.of_unstarted hv hm started started rfl rfl (by simp [OrchestrationState.terminal])
  | reobserved kind owner open_ started =>
    exact h.of_unstarted hv hm started started rfl rfl (by simp [OrchestrationState.terminal])
  | abandoned p kind phase planned unprepared started =>
    exact h.of_unstarted hv hm started started rfl rfl (by simp [OrchestrationState.terminal])
  | intended plan kind offer phase fresh =>
    have started := unstarted_of_unplanned h.journal fresh
    exact h.of_unstarted hv hm started started rfl rfl (by simp [OrchestrationState.terminal])
  | exposed plan p kind answer planned phase started =>
    exact h.of_unstarted hv hm started started rfl rfl (by simp [OrchestrationState.terminal])
  | staged plan p kind answer planned phase started =>
    refine h.of_unstarted hv hm started started rfl rfl ?_
    by_cases hr : p.ready = true <;> simp [hr, phase, OrchestrationState.terminal]
  | reopened j kind journal open_ started phase =>
    refine h.of_unsettled hv hm started ?_ (not_settled_reopened open_ phase) rfl
    rcases journal with ⟨-, rfl⟩ | ⟨-, -, -, -, -, -, rfl⟩ <;> exact started
  | submitted p kind phase started =>
    exact ⟨hv, hm.next, by simp, by simp, by simp⟩
  | accepted plan o remote kind offer phase started =>
    exact h.of_unsettled hv hm started started (not_settled_submitting phase) rfl
  | ambiguous plan o p kind offer phase started =>
    exact h.of_unsettled hv hm started started (not_settled_submitting phase) rfl
  | rejected plan o p kind offer phase started =>
    exact h.of_started hv hm started started fun _ => Or.inl rfl
  | absent first kind phase started =>
    exact h.of_started hv hm started started fun _ => Or.inl rfl
  | disowned kind phase started =>
    exact h.of_started hv hm started started fun _ => Or.inl rfl
  | absenceNoted kind phase started unbound =>
    refine h.of_unsettled hv hm started started ?_ rfl
    refine not_settled_of_phase ?_ ?_ (remoteAbsence_of_unbound unbound) <;>
      rcases phase with hp | hp <;> simp [hp]
  | vanished absence p kind offer phase bound time past later code report =>
    have started := started_of_phase h.journal (.inr (.inl phase))
    refine h.of_started hv hm started started fun _ => .inr (.inr ?_)
    refine remoteAbsence_of_detail hv time ?_
    rw [detail_committed rfl (by decide), report]
  | observed remote obs j t kind offer phase bound valid past later moves journal next =>
    have started := started_of_phase h.journal (.inr (.inl phase))
    obtain ⟨p, n, rfl⟩ := journal
    refine h.of_started hv hm started started fun hi => ?_
    -- the exhausted poll changes neither the activity nor the execution
    have hobs : (observedState s obs).remoteActivity = .inactive := by
      rcases next with rfl | ⟨-, -, rfl⟩ <;> exact hi
    rw [remoteActivity_observedState] at hobs
    split_ifs at hobs with hu
    · exact absurd hobs (h.active started (not_settled_submitted phase))
    · refine .inr (.inl ?_)
      simp [terminal_of_inactive valid hobs]
  | localFault name code p kind offer phase fresh =>
    have started := unstarted_of_unplanned h.journal fresh
    obtain ⟨q, hd | hd⟩ := localFault_cases (faultJournal old name now) old s code p now <;>
      rw [hd] at hv hm ⊢
    · exact h.of_unstarted hv hm started started rfl rfl (by simp [OrchestrationState.terminal])
    · refine h.of_unstarted hv hm started started rfl rfl ?_
      simp [OrchestrationState.terminal, phase.2.1, phase.2.2.2.2]
  | remoteFault name code p plan kind offer phase =>
    cases started : old.submitStarted with
    | true =>
      rcases remoteFault_cases (faultJournal old name now) old s code p with hd | hd <;>
        rw [hd] at hv hm ⊢ <;>
        exact h.of_unsettled hv hm started started (not_settled_open phase) rfl
    | false =>
      rcases remoteFault_cases (faultJournal old name now) old s code p with hd | hd <;>
        rw [hd] at hv hm ⊢
      · exact h.of_unstarted hv hm started started rfl rfl (by simp [OrchestrationState.terminal])
      · refine h.of_unstarted hv hm started started rfl rfl ?_
        simp [OrchestrationState.terminal, phase.2.1, phase.2.2.2.2, started]

end Step

/-! ### Runs -/

/-- An edit is a permitted move that leaves the execution and the remote activity alone and ends
no orchestration. -/
theorem cancellationEdit_spec {s t : AttemptState} (h : cancellationEdit s t = true) :
    s.Moves t ∧ t.execution = s.execution ∧ t.remoteActivity = s.remoteActivity ∧
      t.orchestration.terminal = s.orchestration.terminal := by
  simp only [cancellationEdit, Bool.and_eq_true, Bool.or_eq_true, decide_eq_true_eq,
    AttemptState.moves_iff] at h
  obtain ⟨⟨⟨⟨⟨⟨⟨hm, -⟩, ho⟩, he⟩, -⟩, hr⟩, -⟩, -⟩ := h
  refine ⟨hm, he, hr, ?_⟩
  cases hs : s.orchestration.terminal with
  | true => rw [hm.orchestration_eq hs, hs]
  | false =>
    rcases ho with (ho | ho) | ho
    · rw [ho, hs]
    · rw [ho]
      rfl
    · rw [ho]
      rfl

section Edited

variable {c : Codec} {x y : Config}

/-- An edit keeps the evidence of the journal it leaves alone. -/
theorem Evidence.of_edit (h : Evidence c.toCodec x) {t : AttemptState} (hm : x.2.Moves t)
    (he : t.execution = x.2.execution) (hr : t.remoteActivity = x.2.remoteActivity)
    (ho : t.orchestration.terminal = x.2.orchestration.terminal) :
    Evidence c.toCodec (x.1, t) where
  journal := h.journal
  state := hm.next
  unsubmitted hs := by
    obtain ⟨h1, h2, h3⟩ := h.unsubmitted hs
    exact ⟨he.trans h1, hr.trans h2, by rw [ho]; exact h3⟩
  begun hs := by rw [hr]; exact h.begun hs
  settled hs hi := h.settled hs (hr.symm.trans hi)

/-- A claimed row was local before and stays open. -/
theorem claimed_spec {s : AttemptState} (h : localOnly s = true) :
    (claimedState s).orchestration.terminal = s.orchestration.terminal := by
  simp only [localOnly, Bool.and_eq_true, Bool.or_eq_true, decide_eq_true_eq] at h
  rcases h.2 with (ho | ho) | ho <;> simp [claimedState, ho, OrchestrationState.terminal]

theorem advanceEdited_moves {l : Label} (h : advanceEdited c x l = some y) : x.2.Moves y.2 := by
  cases l with
  | act a now =>
    obtain ⟨e, he⟩ := advance_eq_some h
    obtain ⟨-, d, -, -, -, -, -, hm⟩ := apply_ok he
    exact hm
  | edit t =>
    simp only [advanceEdited, Option.ite_none_right_eq_some, Option.some.injEq] at h
    obtain ⟨hedit, rfl⟩ := h
    exact (cancellationEdit_spec hedit).1
  | claim =>
    simp only [advanceEdited, Option.ite_none_right_eq_some, Option.some.injEq, Bool.and_eq_true,
      AttemptState.moves_iff] at h
    obtain ⟨⟨-, hm⟩, rfl⟩ := h
    exact hm

theorem advanceEdited_evidence {l : Label} (hx : Evidence c.toCodec x)
    (h : advanceEdited c x l = some y) : Evidence c.toCodec y := by
  cases l with
  | act a now =>
    obtain ⟨e, he⟩ := advance_eq_some h
    obtain ⟨-, d, hd, hj, ht, -, hv, hm⟩ := apply_ok he
    obtain ⟨j, t⟩ := y
    subst hj ht
    exact hd.evidence hx hv hm
  | edit t =>
    simp only [advanceEdited, Option.ite_none_right_eq_some, Option.some.injEq] at h
    obtain ⟨hedit, rfl⟩ := h
    obtain ⟨hm, he, hr, ho⟩ := cancellationEdit_spec hedit
    exact hx.of_edit hm he hr ho
  | claim =>
    simp only [advanceEdited, Option.ite_none_right_eq_some, Option.some.injEq, Bool.and_eq_true,
      AttemptState.moves_iff] at h
    obtain ⟨⟨⟨-, hlocal⟩, hm⟩, rfl⟩ := h
    exact hx.of_edit hm rfl rfl (claimed_spec hlocal)

end Edited

theorem evidence_local (c : Provider.Codec) {s : AttemptState} (hs : localOnly s = true) :
    Evidence c (localJournal, s) := by
  simp only [localOnly, Bool.and_eq_true, Bool.or_eq_true, decide_eq_true_eq] at hs
  obtain ⟨⟨⟨⟨⟨⟨hv, -⟩, -⟩, he⟩, hr⟩, -⟩, ho⟩ := hs
  refine ⟨rfl, hv, fun _ => ⟨he, hr, ?_⟩, by simp [localJournal], by simp [localJournal]⟩
  rcases ho with (ho | ho) | ho <;> simp [ho, localJournal, OrchestrationState.terminal]

theorem run_evidence (c : Codec) {s : AttemptState} (hs : localOnly s = true) (ls : List Label) :
    Evidence c.toCodec (Run.run (advanceEdited c) (localJournal, s) ls) :=
  Run.run_invariant (P := Evidence c.toCodec) (evidence_local c.toCodec hs)
    (fun _ _ _ h hstep => advanceEdited_evidence h hstep) ls

/-- A released account stays released along a run. -/
theorem run_released (c : Codec) {x : Config} (hx : holdsAccount x.2 true = false)
    (ls : List Label) : holdsAccount (Run.run (advanceEdited c) x ls).2 true = false :=
  Run.run_invariant (P := fun y : Config => holdsAccount y.2 true = false) hx
    (fun _ _ _ h hstep => holdsAccount_mono (advanceEdited_moves hstep) h) ls

/-- An account released behind a submission intent rests on one of three pieces of evidence. -/
theorem Evidence.released_started {c : Provider.Codec} {x : Config} (h : Evidence c x)
    (hs : x.1.submitStarted = true) (hr : holdsAccount x.2 true = false) :
    x.1.phase = .rejected ∨
      (∃ o, x.1.observation = some o ∧ o.execution.terminal = true ∧ x.1.remote = some o.remote) ∨
      ∃ r, x.1.remoteAbsence = some r ∧ x.1.remote = some r.remote := by
  rw [holdsAccount_barrier_eq_false_iff h.state] at hr
  have hi : x.2.remoteActivity = .inactive := by
    rcases hr with hi | ⟨-, -, hn⟩
    · exact hi
    · exact absurd hn (h.begun hs)
  rcases h.settled hs hi with hp | hp | hp
  · exact .inl hp
  · exact .inr (.inl (observation_of_collectible h.journal hp))
  · obtain ⟨r, hr⟩ := Option.ne_none_iff_exists'.mp hp
    exact .inr (.inr ⟨r, hr, remote_of_remoteAbsence hr⟩)

/-- A planned attempt without a submission intent is released exactly by prevention. -/
theorem Evidence.released_unstarted {c : Provider.Codec} {x : Config} (h : Evidence c x)
    (hp : x.1.plan ≠ none) (hs : x.1.submitStarted = false) :
    holdsAccount x.2 true = false ↔ x.1.phase = .prevented := by
  obtain ⟨he, hr, ho⟩ := h.unsubmitted hs
  obtain ⟨plan, hplan⟩ := Option.ne_none_iff_exists'.mp hp
  have hfailed : x.1.phase ≠ .failed := by
    intro hf
    have hrule := Journal.valid_planned h.journal hplan
    simp [Journal.plannedRule, hf] at hrule
  rw [holdsAccount_barrier_eq_false_iff h.state, Released, hr]
  simp [he, ho, hfailed]

/-- **Capacity is released only on evidence and never re-acquired.** In every run of `apply` from a
local journal and a local state, interleaved in any order with cancellation edits and claims:

* behind a submission intent the account is free only after a proven rejection, a terminal
  observation of exactly the accepted remote, or an absence report of exactly that remote;
* before the submission intent of a planned attempt it is free exactly when dispatch is prevented;
* once free it is free in every later state. -/
theorem capacity_released_on_evidence (c : Codec) (s : AttemptState) (hs : localOnly s = true)
    (ls : List Label) :
    let x := Run.run (advanceEdited c) (localJournal, s) ls
    (x.1.submitStarted = true → holdsAccount x.2 true = false →
      x.1.phase = .rejected ∨
      (∃ o, x.1.observation = some o ∧ o.execution.terminal = true ∧ x.1.remote = some o.remote) ∨
      ∃ r, x.1.remoteAbsence = some r ∧ x.1.remote = some r.remote) ∧
    (x.1.plan ≠ none → x.1.submitStarted = false →
      (holdsAccount x.2 true = false ↔ x.1.phase = .prevented)) ∧
    (holdsAccount x.2 true = false → ∀ later,
      holdsAccount (Run.run (advanceEdited c) x later).2 true = false) := by
  intro x
  have h : Evidence c.toCodec x := run_evidence c hs ls
  exact ⟨h.released_started, h.released_unstarted, fun hr later => run_released c hr later⟩

/-! ### A sample attempt -/

/-- The SHA-256 digests of the empty object and the empty list. -/
def emptyObjectSHA256 : String :=
  "44136fa355b3678a1146ad16f7e8649e94fb4fc21fe77e8310c060f61caaff8a"
def emptyListSHA256 : String :=
  "4f53cda18c2baa0c0354bb5f9a3ecbe5ed12ab4d8e11ba873c2f11161202b945"

/-- Encoders for the sample: its specification is the empty object and its input list is empty; a
plan is written as the empty object, since only equality with its own digest is ever asked of it. -/
def sampleCodec : Codec where
  jsonValid text := text = "\x7b\x7d"
  digest text := if text = "[]" then emptyListSHA256 else emptyObjectSHA256
  marshalPlan _ := some "\x7b\x7d"
  encodeEntries _ := some "[]"
  marshalReadiness _ := "\x7b\x7d"
  journalBytes _ := some 4096

def sampleIdentity : Identity where
  installationID := "installation"
  workspaceID := "workspace"
  jobID := "job"
  attemptID := "attempt"
  instanceID := "instance"
  intentID := "intent"
  resourceKey := "resource"
  nonce := "0123456789abcdef"
  bundleSHA256 := emptyObjectSHA256
  inputManifestSHA256 := emptyListSHA256

def samplePlan : Plan where
  job := {
    identity := sampleIdentity
    binding := ⟨"fixture", "instance", "revision"⟩
    specification := "\x7b\x7d"
    specificationSHA256 := emptyObjectSHA256
    required := [capabilityBatchExecution]
    wallSeconds := 10
    inputs := some { bundle := ⟨"code", "workspace", 8, emptyObjectSHA256⟩, inputs := [] } }
  verifyAfterStart := []

def samplePrepared : Prepared where
  identity := sampleIdentity
  preparationID := "intent"
  planSHA256 := emptyObjectSHA256
  resource := "staging"
  ready := true
  private_ := true

def sampleRemote : RemoteReference := ⟨sampleIdentity, "kernel", "1"⟩

/-- Prepare, see private staging ready, submit. -/
def sampleSubmission : List (Action × ℤ) :=
  [({ kind := .beginPreparation, plan := some samplePlan, preparationID := "intent" }, 0),
   ({ kind := .preparationSeen, prepared := some samplePrepared }, 0),
   ({ kind := .beginSubmission }, 0)]

/-- The provider's reply to the sample is lost, but names the kernel it may have created. -/
def sampleLostReply : Action where
  kind := .submissionSeen
  submission := some {
    status := .unknown
    problem := some {
      code := .providerSubmissionUnknown
      message := "No reply."
      stage := .submission
      computeMayHaveStarted := true
      recommendedAction := .reconcile
      details := (∅ : Details).insert resourceNameDetail "kernel" } }

/-- The sample is accepted and then reported absent. -/
def sampleAbsence : List Label :=
  sampleSubmission.map (fun l => .act l.1 l.2) ++
    [.act { kind := .submissionSeen,
            submission := some { status := .accepted, remote := some sampleRemote } } 0,
     .act { kind := .remoteAbsenceSeen, absence := some ⟨sampleRemote, 5⟩ } 5]

theorem capacity_released_by_absence :
    let x := Run.run (advanceEdited sampleCodec) (localJournal, initialAttemptState) sampleAbsence
    localOnly initialAttemptState = true ∧ x.1.submitStarted = true ∧
      (∃ r, x.1.remoteAbsence = some r ∧ x.1.remote = some r.remote) ∧
      ∀ later, holdsAccount (Run.run (advanceEdited sampleCodec) x later).2 true = false := by
  have hlocal : localOnly initialAttemptState = true := by decide
  have h := capacity_released_on_evidence sampleCodec initialAttemptState hlocal sampleAbsence
  have hrun : ∀ x, Run.run (advanceEdited sampleCodec) (localJournal, initialAttemptState)
      sampleAbsence = x → x.1.submitStarted = true ∧ holdsAccount x.2 true = false ∧
        x.1.phase ≠ .rejected ∧ x.1.observation = none := by
    rintro x rfl
    decide +kernel
  generalize Run.run (advanceEdited sampleCodec) (localJournal, initialAttemptState)
    sampleAbsence = x at h hrun ⊢
  obtain ⟨hstarted, hfree, hphase, hunobserved⟩ := hrun x rfl
  refine ⟨hlocal, hstarted, ?_, h.2.2 hfree⟩
  rcases h.1 hstarted hfree with hp | ⟨o, ho, -⟩ | hr
  · exact absurd hp hphase
  · rw [hunobserved] at ho
    cases ho
  · exact hr

end Dispatch
end ComputeRelay
