import Mathlib.Tactic
import ComputeRelay.Dispatch.Release
import ComputeRelay.Dispatch.Validity

/-!
# The phase of the journal and the state of the attempt

The scheduler, the collection and the cleanup read the attempt state, the dispatcher reads the phase
of the journal. Both are written by `apply` alone.

* `Agrees` is what holds between the two, `StepCase.agrees` keeps it along one step.
* `StepCase.observation` says which observation the journal holds after a step.
* `phase_state_agree` is the result for every run.
-/

namespace ComputeRelay
namespace Dispatch

open Domain Provider Scheduler

/-- What the phase says about the state, and the other way round. -/
structure Agrees (x : Config) : Prop where
  unstarted : x.1.submitStarted = false →
    x.2.execution = .notSubmitted ∧ x.2.remoteActivity = .notStarted
  unbound : x.1.submitStarted = true → x.1.remote = none → x.1.phase ≠ .rejected →
    x.2.execution = .unknown ∧ x.2.remoteActivity = .possible
  collectible : x.1.phase = .collectible ↔ x.2.execution.terminal = true
  closed : x.2.orchestration.terminal = true ↔
    x.1.phase = .failed ∨ x.1.phase = .prevented ∨ x.1.phase = .rejected
  attention : x.1.phase = .attention → x.2.orchestration = .needsAttention

theorem agrees_local : Agrees (localJournal, initialAttemptState) := by
  constructor <;> simp [localJournal, initialAttemptState, ExecutionState.terminal,
    OrchestrationState.terminal]

section Step

variable {c : Codec} {old j : Journal} {s t : AttemptState} {a : Action} {now : ℤ} {d : Draft}
  {e : EventType}

/-- A step that binds nothing and leaves execution and activity as they are. -/
theorem Agrees.of_frame (h : Agrees (old, s)) (hstarted : j.submitStarted = old.submitStarted)
    (hremote : j.remote = old.remote) (hexecution : t.execution = s.execution)
    (hactivity : t.remoteActivity = s.remoteActivity) (hrejected : old.phase ≠ .rejected)
    (hcollectible : j.phase = .collectible ↔ old.phase = .collectible)
    (hclosed : t.orchestration.terminal = true ↔
      j.phase = .failed ∨ j.phase = .prevented ∨ j.phase = .rejected)
    (hattention : j.phase = .attention → t.orchestration = .needsAttention) : Agrees (j, t) where
  unstarted hs := by
    rw [hexecution, hactivity]
    exact h.unstarted (hstarted.symm.trans hs)
  unbound hs hr _ := by
    rw [hexecution, hactivity]
    exact h.unbound (hstarted.symm.trans hs) (hremote.symm.trans hr) hrejected
  collectible := by
    rw [hexecution]
    exact hcollectible.trans h.collectible
  closed := hclosed
  attention := hattention

/-- Without a submission no phase but the early ones is possible. -/
theorem phase_of_unstarted (hv : old.valid c.toCodec = true) (hs : old.submitStarted = false) :
    old.phase ≠ .rejected ∧ old.phase ≠ .collectible := by
  constructor <;> intro hp
  · have := started_of_phase hv (by simp [hp])
    simp [hs] at this
  · have := started_of_phase hv (by simp [hp])
    simp [hs] at this

theorem agrees_rejected (hs : j.submitStarted = true) (p : Option Problem) :
    Agrees ((rejected j s p).journal, (rejected j s p).next) := by
  unfold rejected
  constructor
  · simp [hs]
  · simp
  · split_ifs <;> simp [ExecutionState.terminal]
  · simp only [reduceCtorEq, or_true, iff_true]
    split_ifs <;> rfl
  · simp

/-- An observation does not end the orchestration, and it ends the execution if it reports so. -/
theorem terminal_observedState (hs : s.execution.terminal = false) (obs : Observation) :
    (observedState s obs).execution.terminal = obs.execution.terminal ∧
      (observedState s obs).orchestration.terminal = false := by
  unfold observedState
  by_cases hu : obs.execution = .unknown
  · have hnot : obs.execution.terminal = false := by rw [hu]; rfl
    rw [if_pos hu, hnot]
    constructor <;> split_ifs <;> first | exact hs | rfl
  · rw [if_neg hu]
    cases hterm : obs.execution.terminal
    · constructor <;> simp only [Bool.false_eq_true, if_false] <;> split_ifs <;>
        first | exact hterm | rfl
    · exact ⟨hterm, rfl⟩

/-- One step keeps the agreement. For an observation the last fact is read off the step itself. -/
theorem StepCase.agrees (h : Agrees (old, s)) (hv : old.valid c.toCodec = true)
    (hd : StepCase c old s a now d)
    (hattention : a.kind = .observationSeen → d.journal.phase = .attention →
      d.next.orchestration = .needsAttention) : Agrees (d.journal, d.next) := by
  cases hd with
  | refused p kind started phase =>
    have hclosed := h.closed
    refine h.of_frame rfl rfl ?_ ?_ ?_ Iff.rfl ?_ ?_
    · split_ifs <;> rfl
    · split_ifs <;> rfl
    · rcases phase with hp | hp <;> simp [hp]
    · split_ifs
      · rcases phase with hp | hp <;> simp [hp, OrchestrationState.terminal]
      · exact hclosed
    · rcases phase with hp | hp <;> simp [hp]
  | prevented kind started =>
    have hphase := phase_of_unstarted hv started
    refine h.of_frame rfl rfl rfl rfl hphase.1 ?_ ?_ ?_ <;>
      simp [hphase, OrchestrationState.terminal]
  | expired p kind started =>
    have hphase := phase_of_unstarted hv started
    refine h.of_frame rfl rfl rfl rfl hphase.1 ?_ ?_ ?_ <;>
      simp [hphase, OrchestrationState.terminal]
  | reobserved kind owner open_ started =>
    have hphase := phase_of_unstarted hv started
    refine h.of_frame rfl rfl rfl rfl hphase.1 ?_ ?_ ?_ <;>
      simp [hphase, OrchestrationState.terminal]
  | reopened j kind journal open_ started phase =>
    have hj : j.submitStarted = old.submitStarted ∧ j.remote = old.remote := by
      rcases journal with ⟨-, rfl⟩ | ⟨-, -, -, -, -, -, rfl⟩ <;> exact ⟨rfl, rfl⟩
    refine h.of_frame hj.1 hj.2 rfl rfl ?_ ?_ ?_ ?_
    · rcases phase with hp | hp | hp <;> simp [hp]
    · rcases phase with hp | hp | hp <;> cases old.remote <;> simp [hp]
    · cases old.remote <;> cases cancellationPending s <;> simp [OrchestrationState.terminal]
    · cases old.remote <;> simp
  | intended plan kind offer phase =>
    refine h.of_frame rfl rfl rfl rfl ?_ ?_ ?_ ?_ <;> simp [phase, OrchestrationState.terminal]
  | exposed plan p kind answer planned phase =>
    refine h.of_frame rfl rfl rfl rfl ?_ ?_ ?_ ?_ <;> simp [phase, OrchestrationState.terminal]
  | staged plan p kind answer planned phase =>
    refine h.of_frame rfl rfl rfl rfl ?_ ?_ ?_ ?_ <;> cases p.ready <;>
      simp [phase, OrchestrationState.terminal]
  | abandoned p kind phase =>
    refine h.of_frame rfl rfl rfl rfl ?_ ?_ ?_ ?_ <;> simp [phase, OrchestrationState.terminal]
  | submitted p kind phase =>
    constructor <;> simp [ExecutionState.terminal, OrchestrationState.terminal]
  | accepted plan o remote kind offer phase started unbound =>
    have hexecution : s.execution = .unknown := (h.unbound started unbound (by simp [phase])).1
    by_cases hp : cancellationPending s = true <;> constructor <;>
      simp [Dispatch.accepted, hp, started, hexecution, ExecutionState.terminal,
        OrchestrationState.terminal]
  | rejected plan o p kind offer phase started => exact agrees_rejected started _
  | ambiguous plan o p kind offer phase =>
    refine h.of_frame rfl rfl rfl rfl ?_ ?_ ?_ ?_ <;>
      simp [phase, Dispatch.ambiguous, OrchestrationState.terminal]
  | absenceNoted kind phase =>
    refine h.of_frame rfl rfl rfl rfl ?_ ?_ ?_ ?_ <;> rcases phase with hp | hp <;>
      simp [hp, absenceDeferred, OrchestrationState.terminal]
  | absent first kind phase started =>
    exact agrees_rejected (j := { old with submissionResourceName := a.resourceName }) started _
  | disowned kind phase started =>
    exact agrees_rejected (j := { old with submissionResourceName := a.resourceName }) started _
  | vanished absence p kind offer phase bound =>
    have hstarted := started_of_phase hv (.inr (.inl phase))
    constructor <;> simp [bound, hstarted, ExecutionState.terminal, OrchestrationState.terminal]
  | observed remote obs j t kind offer phase bound valid past later moves journal next =>
    have hs : s.execution.terminal = false := by
      have := h.collectible
      simpa [phase] using this
    obtain ⟨hexecution, horchestration⟩ := terminal_observedState hs obs
    have ht : t.execution.terminal = obs.execution.terminal ∧ t.orchestration.terminal = false := by
      rcases next with rfl | ⟨-, -, rfl⟩
      · exact ⟨hexecution, horchestration⟩
      · exact ⟨hexecution, rfl⟩
    have hstarted := started_of_phase hv (.inr (.inl phase))
    obtain ⟨p, n, hj⟩ := journal
    have hattention' := hattention kind
    dsimp only at hattention'
    refine ⟨?_, ?_, ?_, ?_, hattention'⟩
    · simp [hj, hstarted]
    · simp [hj, bound]
    · rw [ht.1, hj]
      cases obs.execution.terminal
      · simp only [Bool.false_eq_true, if_false, iff_false]
        split_ifs <;> simp
      · simp
    · rw [ht.2, hj]
      simp only [Bool.false_eq_true, false_iff]
      split_ifs <;> simp
  | localFault name code p kind offer phase fresh =>
    obtain ⟨q, hd | hd⟩ := localFault_cases (faultJournal old name now) old s code p now
    · rw [hd]
      refine h.of_frame rfl rfl rfl rfl phase.1 ?_ ?_ ?_ <;>
        simp [phase.2.2.1, OrchestrationState.terminal]
    · rw [hd]
      refine h.of_frame rfl rfl rfl rfl phase.1 Iff.rfl ?_ ?_
      · simp [OrchestrationState.terminal, phase.1, phase.2.1, phase.2.2.2.2]
      · simp [phase.2.2.2.1]
  | remoteFault name code p plan kind offer phase =>
    rcases remoteFault_cases (faultJournal old name now) old s code p with hd | hd
    · rw [hd]
      refine h.of_frame rfl rfl rfl rfl phase.1 ?_ ?_ ?_ <;>
        simp [phase.2.2.1, OrchestrationState.terminal]
    · rw [hd]
      refine h.of_frame rfl rfl rfl rfl phase.1 Iff.rfl ?_ ?_
      · cases old.submitStarted <;>
          simp [OrchestrationState.terminal, phase.1, phase.2.1, phase.2.2.2.2]
      · simp [phase.2.2.2.1]

/-- An observation that asks for attention says so in the state as well. -/
theorem attention_of_observation (h : observationSeen old s a now = .ok d)
    (hphase : d.journal.phase = .attention) : d.next.orchestration = .needsAttention := by
  unfold observationSeen at h
  split at h
  · next remote obs hr ho =>
    obtain ⟨hg, h⟩ := ok_of_guard h
    obtain ⟨-, h⟩ := ok_of_guard h
    obtain ⟨-, h⟩ := ok_of_guard h
    have hsubmitted : old.phase = .submitted := by
      by_contra hne
      exact hg (.inl hne)
    have hquiet : (if obs.execution.terminal = true then Phase.collectible else old.phase) ≠
        .attention := by
      split_ifs <;> simp [hsubmitted]
    by_cases hu : obs.execution = .unknown
    · rw [if_pos hu] at h
      by_cases hf : min (old.failures + 1) maxFailures = maxFailures
      · rw [if_pos hf] at h
        cases h
        rfl
      · rw [if_neg hf] at h
        cases h
        exact absurd hphase hquiet
    · rw [if_neg hu] at h
      cases h
      exact absurd hphase hquiet
  · cases h

/-- The observation a journal holds is the last one that was accepted. -/
theorem StepCase.observation (hd : StepCase c old s a now d) :
    (a.kind ≠ .observationSeen ∧ d.journal.observation = old.observation) ∨
    ∃ obs, a.kind = .observationSeen ∧ a.observation = some obs ∧ obs.observedAt ≤ now ∧
      (∀ o, old.observation = some o → o.observedAt < obs.observedAt) ∧
      (∃ o, d.journal.observation = some o ∧ o.observedAt = obs.observedAt) ∧
      (obs.execution = .unknown → d.next.execution = s.execution ∧
        d.next.remoteActivity = s.remoteActivity ∧ d.next.releaseEvidence = s.releaseEvidence) := by
  cases hd with
  | observed remote obs j t kind offer _ _ _ past later _ journal next =>
    obtain ⟨p, n, rfl⟩ := journal
    refine .inr ⟨obs, kind, offer, past, later, ⟨_, rfl, rfl⟩, fun hu => ?_⟩
    have hkept : (observedState s obs).execution = s.execution ∧
        (observedState s obs).remoteActivity = s.remoteActivity ∧
        (observedState s obs).releaseEvidence = s.releaseEvidence := by
      unfold observedState
      rw [if_pos hu]
      split_ifs <;> exact ⟨rfl, rfl, rfl⟩
    rcases next with rfl | ⟨-, -, rfl⟩ <;> exact hkept
  | reopened j kind journal =>
    rcases journal with ⟨-, rfl⟩ | ⟨-, -, -, -, -, -, rfl⟩ <;> exact .inl ⟨by simp [kind], rfl⟩
  | localFault name code p kind =>
    obtain ⟨q, hd | hd⟩ := localFault_cases (faultJournal old name now) old s code p now <;>
      rw [hd] <;> exact .inl ⟨by simp [kind], rfl⟩
  | remoteFault name code p plan kind =>
    rcases remoteFault_cases (faultJournal old name now) old s code p with hd | hd <;>
      rw [hd] <;> exact .inl ⟨by simp [kind], rfl⟩
  | _ => exact .inl ⟨by simp_all, rfl⟩

theorem apply_attention (h : apply c old s a now = .ok (j, t, e)) (hk : a.kind = .observationSeen)
    (hphase : j.phase = .attention) : t.orchestration = .needsAttention := by
  obtain ⟨-, h⟩ := ok_of_guard h
  cases hstep : step c old s a now with
  | error err =>
    rw [hstep] at h
    cases h
  | ok d =>
    rw [hstep] at h
    simp only [Except.bind, finish] at h
    split_ifs at h
    cases h
    rw [step, hk] at hstep
    exact attention_of_observation hstep hphase

/-- An accepted call keeps the agreement and leaves a valid journal. -/
theorem advance_agrees {x y : Config} {l : Action × ℤ} (hx : Agrees x)
    (h : advance c x l = some y) : Agrees y ∧ y.1.valid c.toCodec = true := by
  obtain ⟨e, he⟩ := advance_eq_some h
  obtain ⟨hadm, d, hd, hj, ht, -, hv, -⟩ := apply_ok he
  have hold := (admissible_iff.mp hadm).1
  have hattention : l.1.kind = .observationSeen → d.journal.phase = .attention →
      d.next.orchestration = .needsAttention := by
    intro hk hphase
    rw [← ht]
    exact apply_attention he hk (by rw [hj]; exact hphase)
  obtain ⟨h1, h2, h3, h4, h5⟩ := hd.agrees hx hold hattention
  obtain ⟨j, t⟩ := y
  dsimp only at hj ht
  rw [hj, ht]
  exact ⟨⟨h1, h2, h3, h4, h5⟩, hj ▸ hv⟩

end Step

/-- The time an offered observation was made. -/
def observedAt (l : Action × ℤ) : Option ℤ :=
  if l.1.kind = .observationSeen then l.1.observation.map fun obs => obs.observedAt else none

/-- The accepted observations are in order, and the journal holds the last of them. -/
def InOrder (hist : List (Action × ℤ)) (x : Config) : Prop :=
  (hist.filterMap observedAt).Pairwise (· < ·) ∧ (∀ l ∈ hist, ∀ t ∈ observedAt l, t ≤ l.2) ∧
    ∀ t ∈ hist.filterMap observedAt, ∃ o, x.1.observation = some o ∧ t ≤ o.observedAt

theorem inOrder_advance {c : Codec} {hist : List (Action × ℤ)} {x y : Config} {l : Action × ℤ}
    (hx : InOrder hist x) (h : advance c x l = some y) : InOrder (hist ++ [l]) y := by
  obtain ⟨hsorted, hpast, hlast⟩ := hx
  obtain ⟨e, he⟩ := advance_eq_some h
  obtain ⟨-, d, hd, hj, -⟩ := apply_ok he
  have hobs : y.1.observation = d.journal.observation := by rw [hj]; rfl
  rcases hd.observation with ⟨hk, hsame⟩ | ⟨obs, hk, ho, hnow, hlater, ⟨o, hod, hot⟩, -⟩
  · have hnone : observedAt l = none := by simp [observedAt, hk]
    refine ⟨by simpa [hnone] using hsorted, ?_, ?_⟩
    · intro m hm t ht
      rcases List.mem_append.mp hm with hm | hm
      · exact hpast m hm t ht
      · rw [List.mem_singleton.mp hm, hnone] at ht
        cases ht
    · rw [List.filterMap_append, hobs, hsame]
      simpa [hnone] using hlast
  · have hsome : observedAt l = some obs.observedAt := by simp [observedAt, hk, ho]
    have hbelow : ∀ t ∈ hist.filterMap observedAt, t < obs.observedAt := by
      intro t ht
      obtain ⟨o', ho', hle⟩ := hlast t ht
      exact hle.trans_lt (hlater o' ho')
    refine ⟨?_, ?_, ?_⟩
    · rw [List.filterMap_append, List.pairwise_append]
      refine ⟨hsorted, by simp [hsome], fun t ht u hu => ?_⟩
      obtain rfl : u = obs.observedAt := by simpa [hsome] using hu
      exact hbelow t ht
    · intro m hm t ht
      rcases List.mem_append.mp hm with hm | hm
      · exact hpast m hm t ht
      · rw [List.mem_singleton.mp hm] at ht ⊢
        rw [hsome] at ht
        cases ht
        exact hnow
    · intro t ht
      refine ⟨o, by rw [hobs, hod], ?_⟩
      rw [hot]
      rw [List.filterMap_append, List.mem_append] at ht
      rcases ht with ht | ht
      · exact (hbelow t ht).le
      · obtain rfl : t = obs.observedAt := by simpa [hsome] using ht
        exact le_rfl

theorem run_agrees (c : Codec) (as : List (Action × ℤ)) :
    let x := Run.run (advance c) (localJournal, initialAttemptState) as
    Agrees x ∧ x.1.valid c.toCodec = true :=
  Run.run_invariant (P := fun x : Config => Agrees x ∧ x.1.valid c.toCodec = true)
    ⟨agrees_local, local_valid _⟩ (fun _ _ _ hx hy => advance_agrees hx.1 hy) as

theorem run_inOrder (c : Codec) (x : Config) (as : List (Action × ℤ)) :
    InOrder (Run.accepted (advance c) x as) (Run.run (advance c) x as) :=
  Run.run_history (P := InOrder) (by simp [InOrder]) (fun _ _ _ _ hx hy => inOrder_advance hx hy) as

/-- **Phase and state always agree**, in every run from a local journal, whatever is offered:

* before a submission nothing is submitted and nothing has started remotely; while the submission is
  under way the execution is unknown, remote activity possible and nothing is bound;
* a journal is collectible exactly when the execution has ended, and the orchestration has ended
  exactly in the phases `failed`, `prevented` and `rejected`; attention is asked for in both;
* a failed journal has no plan, and the failures stay within their bound;
* the accepted observations get later and later, none is from the future, and one that does not know
  the execution leaves execution, activity and release evidence as they were. -/
theorem phase_state_agree (c : Codec) (as : List (Action × ℤ)) :
    let x := Run.run (advance c) (localJournal, initialAttemptState) as
    let hist := Run.accepted (advance c) (localJournal, initialAttemptState) as
    (x.1.submitStarted = false →
      x.2.execution = .notSubmitted ∧ x.2.remoteActivity = .notStarted) ∧
    (x.1.phase = .submitting →
      x.2.execution = .unknown ∧ x.2.remoteActivity = .possible ∧ x.1.remote = none) ∧
    (x.1.phase = .collectible ↔ x.2.execution.terminal = true) ∧
    (x.2.orchestration.terminal = true ↔
      x.1.phase = .failed ∨ x.1.phase = .prevented ∨ x.1.phase = .rejected) ∧
    (x.1.phase = .attention → x.2.orchestration = .needsAttention) ∧
    (x.1.phase = .failed → x.1.plan = none) ∧
    x.1.failures ≤ maxFailures ∧
    (hist.filterMap observedAt).Pairwise (· < ·) ∧
    (∀ l ∈ hist, ∀ t ∈ observedAt l, t ≤ l.2) ∧
    ∀ a now j t e obs, apply c x.1 x.2 a now = .ok (j, t, e) → a.kind = .observationSeen →
      a.observation = some obs → obs.execution = .unknown →
      t.execution = x.2.execution ∧ t.remoteActivity = x.2.remoteActivity ∧
        t.releaseEvidence = x.2.releaseEvidence := by
  intro x hist
  obtain ⟨hx, hv⟩ : Agrees x ∧ x.1.valid c.toCodec = true := run_agrees c as
  obtain ⟨hsorted, hpast, -⟩ : InOrder hist x := run_inOrder c _ as
  refine ⟨hx.unstarted, fun hp => ?_, hx.collectible, hx.closed, hx.attention, fun hp => ?_,
    (Journal.countRule_iff.mp (Journal.sound_of_valid hv).count).2.2.1, hsorted, hpast, ?_⟩
  · have hunbound := remote_of_submitting hv hp
    obtain ⟨he, ha⟩ := hx.unbound (started_of_phase hv (.inl hp)) hunbound (by simp [hp])
    exact ⟨he, ha, hunbound⟩
  · cases hplan : x.1.plan with
    | none => rfl
    | some plan => exact absurd hp (Journal.planned_of_valid hv hplan).phase.2.1
  · intro a now j t e obs h hk ho hu
    obtain ⟨-, d, hd, -, ht, -⟩ := apply_ok h
    rw [ht]
    rcases hd.observation with ⟨hne, -⟩ | ⟨obs', -, ho', -, -, -, hkept⟩
    · exact absurd hk hne
    · obtain rfl : obs' = obs := Option.some.inj (ho'.symm.trans ho)
      exact hkept hu

def sampleReply : Action where
  kind := .submissionSeen
  submission := some { status := .accepted, remote := some sampleRemote }

/-- A poll of the sample that does not know the execution. -/
def sampleUncertain : Action where
  kind := .observationSeen
  observation := some {
    remote := sampleRemote
    execution := .unknown
    rawState := "unknown"
    remoteActivity := .possible
    releaseEvidence := .unknown
    observedAt := 3 }

/-- The sample while it is submitted, and after an accepted reply and an uncertain poll. -/
theorem phase_state_agree_sample :
    let x := Run.run (advance sampleCodec) (localJournal, initialAttemptState) sampleSubmission
    let y := Run.run (advance sampleCodec) (localJournal, initialAttemptState)
      (sampleSubmission ++ [(sampleReply, 0)])
    (x.1.phase = .submitting ∧ x.2.execution = .unknown ∧ x.2.remoteActivity = .possible ∧
      x.1.remote = none) ∧
    ∃ j t e, apply sampleCodec y.1 y.2 sampleUncertain 4 = .ok (j, t, e) ∧
      t.execution = y.2.execution ∧ t.remoteActivity = y.2.remoteActivity := by
  intro x y
  have hx : x.1.phase = .submitting := by decide +kernel
  have hy : (apply sampleCodec y.1 y.2 sampleUncertain 4).toOption.isSome = true := by
    decide +kernel
  have hkept : ∀ as z, Run.run (advance sampleCodec) (localJournal, initialAttemptState) as = z →
      ∀ j t e, apply sampleCodec z.1 z.2 sampleUncertain 4 = .ok (j, t, e) →
        t.execution = z.2.execution ∧ t.remoteActivity = z.2.remoteActivity := by
    rintro as _ rfl j t e h
    obtain ⟨hexecution, hactivity, -⟩ :=
      (phase_state_agree sampleCodec as).2.2.2.2.2.2.2.2.2 sampleUncertain 4 j t e _ h rfl rfl rfl
    exact ⟨hexecution, hactivity⟩
  refine ⟨⟨hx, (phase_state_agree sampleCodec sampleSubmission).2.1 hx⟩, ?_⟩
  cases h : apply sampleCodec y.1 y.2 sampleUncertain 4 with
  | error e => simp [h, Except.toOption] at hy
  | ok r => exact ⟨r.1, r.2.1, r.2.2, rfl, hkept _ y rfl r.1 r.2.1 r.2.2 h⟩

end Dispatch
end ComputeRelay
