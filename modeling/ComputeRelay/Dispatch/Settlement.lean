import Mathlib.Tactic
import ComputeRelay.Dispatch.Control

/-!
# Settling a lost submission

A submission whose reply was lost may be settled as rejected by the owner's attestation, by a
rejected outcome of the provider, or by a second inventory without its name.

* `Settles` lists the three reports, `step_of_settles` computes the draft they share.
* `moves_rejected_iff`: the table of cancellations has no edge from manual to prevented, so the
  draft is a permitted move exactly when the cancellation is not with the operator.
* `settlement_iff` is the result for every reachable pair and `settlement_refused_manual` the run
  that ends where no report is accepted.
-/

namespace ComputeRelay
namespace Dispatch

open Domain Provider Scheduler

/-- The reports that settle a lost submission. -/
inductive Settles (j : Journal) (a : Action) (now : ℤ) : Prop
  | owner (kind : a.kind = .ownerSubmissionAbsent)
      (phase : j.phase = .attention ∨ j.phase = .submitting)
      (recorded : j.submissionResourceName ≠ "") (name : a.resourceName = j.submissionResourceName)
  | rejection (plan : Plan) (o : SubmissionOutcome) (kind : a.kind = .submissionSeen)
      (phase : j.phase = .submitting) (offer : a.submission = some o) (planned : j.plan = some plan)
      (valid : o.validate plan.job.identity = true) (status : o.status = .rejected)
  | inventory (first : ℤ) (kind : a.kind = .submissionAbsenceSeen) (phase : j.phase = .submitting)
      (name : a.resourceName = j.submissionResourceName)
      (seen : j.submissionAbsenceObservedAt = some first)
      (grace : first + submissionAbsenceGrace ≤ now) (owner : j.ownerSubmissionPresent = false)

section Draft

variable {c : Codec} {j : Journal} {s : AttemptState} {a : Action} {now : ℤ}

theorem identity_of_planned {plan : Plan} (h : j.Planned c.toCodec plan) :
    plan.job.identity.validate = true := by
  have hjob := h.job
  simp only [ResolvedJob.validate, Bool.and_eq_true] at hjob
  exact hjob.1.1.1.1.1.1.1.1.1.1.1

theorem recorded_name_valid (hv : j.valid c.toCodec = true) (hn : j.submissionResourceName ≠ "") :
    validResourceName j.submissionResourceName = true := by
  have h := (Journal.sound_of_valid hv).submission
  simp only [Journal.submissionRule, Bool.and_eq_true, Bool.or_eq_true, decide_eq_true_eq, hn,
    false_or] at h
  exact h.1.2.2

theorem recorded_of_seen (hv : j.valid c.toCodec = true) {first : ℤ}
    (hseen : j.submissionAbsenceObservedAt = some first) : j.submissionResourceName ≠ "" := by
  have h := (Journal.sound_of_valid hv).submission
  simp only [Journal.submissionRule, Bool.and_eq_true, hseen, Option.all_some,
    decide_eq_true_eq] at h
  exact h.2.2

/-- The outcome an absence report stands for passes the provider's own check. -/
theorem absentOutcome_validate (kind : Kind) (name : String) {id : Identity}
    (hid : id.validate = true) : (absentOutcome kind name).validate id = true := by
  have hbase : (Provider.problem .providerRejected .submission
      "Submission resolved absent; a replacement requires a new attempt").validate = true := by
    decide
  have hproblem := Problem.validate_withDetail (Problem.validate_withDetail hbase
    (show Text.blank reasonDetail = false by decide)
    (if kind = .ownerSubmissionAbsent then "submission_absent_owner_confirmed"
      else "submission_absent_owned_list"))
    (show Text.blank resourceNameDetail = false by decide) name
  simp only [SubmissionOutcome.validate, absentOutcome, hid, hproblem]
  rfl

theorem absentOutcome_problem (kind : Kind) (name : String) :
    ∃ p, (absentOutcome kind name).problem = some p :=
  ⟨_, rfl⟩

theorem settle_rejected {plan : Plan} {o : SubmissionOutcome} {kind : Kind}
    (hs : j.submitStarted = true) (hr : j.remote = none) (hplan : j.plan = some plan)
    (hphase : j.phase = .submitting ∨ kind = .ownerSubmissionAbsent)
    (hv : o.validate plan.job.identity = true) (hstatus : o.status = .rejected) :
    settle j j s kind (some o) = .ok (rejected j s o.problem) := by
  have hguard : ¬((j.phase ≠ .submitting ∧ kind ≠ .ownerSubmissionAbsent) ∨ !j.submitStarted ∨
      j.remote.isSome ∨ !o.validate plan.job.identity) := by
    rcases hphase with hp | hp <;> simp [hp, hs, hr, hv]
  simp only [settle, hplan, if_neg hguard, hstatus]

theorem step_of_settles (hv : j.valid c.toCodec = true) (hs : j.submitStarted = true)
    (hr : j.remote = none) (he : s.execution = .unknown) (ho : s.orchestration.terminal = false)
    (ha : Settles j a now) : ∃ p, step c j s a now = .ok (rejected j s (some p)) := by
  obtain ⟨plan, hplan, hplanned⟩ := planned_of_started hv hs
  have hid := identity_of_planned hplanned
  cases ha with
  | owner kind phase recorded name =>
    have hname := recorded_name_valid hv recorded
    obtain ⟨p, hp⟩ := absentOutcome_problem .ownerSubmissionAbsent j.submissionResourceName
    refine ⟨p, ?_⟩
    simp only [step, kind, submissionReported, name]
    rw [if_neg (by simp), if_neg ?_, if_neg (by simp)]
    · rw [← hp]
      exact settle_rejected hs hr hplan (.inr rfl) (absentOutcome_validate _ _ hid) rfl
    · rcases phase with hp | hp <;> simp [hp, hs, hr, he, ho, hname]
  | rejection plan' o kind phase offer planned valid status =>
    have hproblem : ∃ p, o.problem = some p := by
      cases hp : o.problem with
      | none => simp [SubmissionOutcome.validate, status, hp] at valid
      | some p => exact ⟨p, rfl⟩
    obtain ⟨p, hp⟩ := hproblem
    refine ⟨p, ?_⟩
    simp only [step, kind, submissionReported, if_true, offer]
    rw [settle_rejected hs hr planned (.inl phase) valid status, hp]
  | inventory first kind phase name seen grace owner =>
    have recorded := recorded_of_seen hv seen
    have hname := recorded_name_valid hv recorded
    obtain ⟨p, hp⟩ := absentOutcome_problem .submissionAbsenceSeen j.submissionResourceName
    refine ⟨p, ?_⟩
    simp only [step, kind, submissionReported, name]
    rw [if_neg (by simp), if_neg ?_, if_neg ?_]
    · rw [← hp]
      exact settle_rejected hs hr hplan (.inl phase) (absentOutcome_validate _ _ hid) rfl
    · simp [graceOver, seen, grace]
    · simp [phase, hs, hr, he, ho, hname, owner]

end Draft

/-! ### The committed rejection -/

theorem recorded_rejectionCode (p : Problem) : recorded (rejectionCode p) = true := by
  unfold rejectionCode
  split <;> simp_all [recorded, problemText]

/-- The problem a rejection records: a text of its own and only public details. -/
theorem problem_rejected (j : Journal) (s : AttemptState) (p : Problem) :
    ∃ q : Problem, (rejected j s (some p)).journal.problem =
      some { q with details := p.publicDetails } ∧ q.validate = true := by
  obtain ⟨q, hq⟩ : ∃ q, problem (rejectionCode p) false = some q := by
    rw [← Option.isSome_iff_exists, isSome_problem]
    exact recorded_rejectionCode p
  exact ⟨q, by simp [rejected, withDetails, hq], problem_validate hq⟩

theorem valid_rejected {c : Provider.Codec} {j : Journal} (s : AttemptState) (p : Problem)
    (hv : j.valid c = true) (hs : j.submitStarted = true) (hr : j.remote = none) :
    (committed (rejected j s (some p)).journal).valid c = true := by
  obtain ⟨plan, hplan, h⟩ := planned_of_started hv hs
  have hsound := Journal.sound_of_valid hv
  obtain ⟨q, hq, hqv⟩ := problem_rejected j s p
  have hunobserved := unobserved_of_unbound h hr
  obtain ⟨r, hprepared, hready, hhidden⟩ := h.staged (.inr hs)
  refine Journal.valid_of_planned hplan ?_ ?_
  · refine sound_committed hsound.submission (detailRule_committed ?_) hsound.preparation
      hsound.start ?_ ?_
    · intro x hx
      cases hq.symm.trans hx
      exact ⟨p.detail_publicDetails_of_notMem (by decide),
        p.detail_publicDetails_of_notMem (by decide)⟩
    · obtain ⟨h1, h2, h3, -⟩ := Journal.countRule_iff.mp hsound.count
      exact Journal.countRule_iff.mpr ⟨h1, h2, h3, nofun⟩
    · intro x hx
      cases hq.symm.trans hx
      exact Problem.validate_details hqv p.keysOk_publicDetails
  · have hversion : 0 ≤ j.version := (Journal.countRule_iff.mp hsound.count).1
    exact {
      job := h.job
      inputs := h.inputs
      id := h.id
      prepared := h.prepared
      staged := fun _ => ⟨r, hprepared, hready, hhidden⟩
      phase := ⟨by simp [rejected], by simp [rejected], by simp [rejected]; omega⟩
      unstarted := by simp [rejected]
      unbound := fun _ => ⟨hr, hunobserved⟩
      hidden := fun x hx => by cases hprepared.symm.trans hx; exact .inl hhidden
      ended := by simp [rejected]
      running := by simp [rejected]
      started := fun _ => hs
      remote := h.remote
      bound := by simp [rejected]
      observed := h.observed }

/-- **The missing edge.** From a lost submission a rejection is a permitted move exactly when the
cancellation is not with the operator. -/
theorem moves_rejected_iff {s : AttemptState} (hv : s.validate = true) (h : Lost s) (j : Journal)
    (p : Problem) : s.Moves (rejected j s (some p)).next ↔ s.cancellation ≠ .manual := by
  constructor
  · intro hm hk
    have hedge := hm.cancellation
    simp [rejected, hk, validateTransition, cancellationTransitions] at hedge
  · intro hk
    obtain ⟨o, execution, result, k, activity, evidence, deadline⟩ := s
    obtain ⟨rfl, rfl, rfl, hc, ho, rfl, rfl⟩ := h
    dsimp only at hk hc ho hv
    rw [← AttemptState.moves_iff]
    simp only [List.mem_cons, List.not_mem_nil, or_false] at hc ho
    by_cases ht : rejectionCode p = .remoteTimeout <;> rcases hc with rfl | rfl | rfl <;>
      first
      | exact absurd rfl hk
      | rcases ho with rfl | rfl | rfl | rfl <;> simp only [rejected, Option.map_some,
          Option.getD_some, ht, if_true, if_false, ne_eq, not_true_eq_false, reduceCtorEq,
          not_false_eq_true] <;> decide

/-! ### Every reachable pair -/

theorem terminal_rejected (j : Journal) (s : AttemptState) (p : Option Problem) :
    (rejected j s p).next.orchestration.terminal = true := by
  unfold rejected
  dsimp only
  split_ifs <;> rfl

section Outcome

variable {c : Codec} {x : Config} {a : Action} {now : ℤ}

/-- With the cancellation elsewhere the report settles the submission. -/
theorem Coupled.settles_ok (h : Coupled c.toCodec x) (hadm : admissible c x.1 x.2 now = true)
    (hs : x.1.submitStarted = true) (hr : x.1.remote = none) (he : x.2.execution = .unknown)
    (ho : x.2.orchestration.terminal = false) (hl : Lost x.2) (ha : Settles x.1 a now)
    (hk : x.2.cancellation ≠ .manual) : ∃ j t e, apply c x.1 x.2 a now = .ok (j, t, e) ∧
      j.phase = .rejected ∧ t.orchestration.terminal = true := by
  obtain ⟨p, hp⟩ := step_of_settles h.journal hs hr he ho ha
  have hmoves := (moves_rejected_iff h.state hl x.1 p).mpr hk
  exact ⟨_, _, _, apply_eq_ok hadm hp (valid_rejected x.2 p h.journal hs hr) hmoves, rfl,
    terminal_rejected x.1 x.2 (some p)⟩

/-- With the operator holding the cancellation every report is refused as invalid. -/
theorem Coupled.settles_invalid (h : Coupled c.toCodec x) (hadm : admissible c x.1 x.2 now = true)
    (hs : x.1.submitStarted = true) (hr : x.1.remote = none) (he : x.2.execution = .unknown)
    (ho : x.2.orchestration.terminal = false) (hl : Lost x.2) (ha : Settles x.1 a now)
    (hk : x.2.cancellation = .manual) : apply c x.1 x.2 a now = .error .invalid := by
  obtain ⟨p, hp⟩ := step_of_settles h.journal hs hr he ho ha
  exact apply_eq_invalid hadm hp fun hm => (moves_rejected_iff h.state hl x.1 p).mp hm hk

theorem Settles.phase (ha : Settles x.1 a now) :
    x.1.phase = .submitting ∨ x.1.phase = .attention := by
  cases ha with
  | owner _ phase => exact phase.symm
  | rejection _ _ _ phase | inventory _ _ phase => exact .inl phase

end Outcome

/-- **When a lost submission can be settled.** In every pair reachable from a new attempt, with the
submission intent recorded, no reference, an unknown execution and an open orchestration, each of
the three reports settles the submission as rejected, with a terminal orchestration, exactly when
the cancellation is not with the operator; otherwise it is refused as invalid. -/
theorem settlement_iff (c : Codec) (ls : List Control) (a : Action) (now : ℤ) :
    let x := Run.run (control c) initialConfig ls
    validTime now = true → x.1.version ≠ maxInt64 →
    (∃ n, c.journalBytes x.1 = some n ∧ n ≤ maxJournalBytes) →
    x.1.submitStarted = true → x.1.remote = none → x.2.execution = .unknown →
    x.2.orchestration.terminal = false → Settles x.1 a now →
    ((∃ j t e, apply c x.1 x.2 a now = .ok (j, t, e) ∧ j.phase = .rejected ∧
        t.orchestration.terminal = true) ↔ x.2.cancellation ≠ .manual) ∧
      (x.2.cancellation = .manual → apply c x.1 x.2 a now = .error .invalid) := by
  intro x hnow hversion hsize hs hr he ho ha
  have h : Coupled c.toCodec x := run_coupled c ls
  have hadm : admissible c x.1 x.2 now = true :=
    admissible_iff.mpr ⟨h.journal, h.state, hnow, hversion, hsize⟩
  have hl : Lost x.2 := h.stage.of_unbound hs hr ha.phase
  refine ⟨⟨?_, h.settles_ok hadm hs hr he ho hl ha⟩, h.settles_invalid hadm hs hr he ho hl ha⟩
  rintro ⟨j, t, e, hok, -⟩ hk
  rw [h.settles_invalid hadm hs hr he ho hl ha hk] at hok
  cases hok

/-- The sample up to its lost reply. -/
def sampleLost : List Control :=
  sampleSubmission.map (fun l => .act l.1 l.2) ++ [.act sampleLostReply 0]

def sampleOwnerAbsent : Action := { kind := .ownerSubmissionAbsent, resourceName := "kernel" }

theorem settlement_of_lost_sample :
    let x := Run.run (control sampleCodec) initialConfig sampleLost
    ∃ j t e, apply sampleCodec x.1 x.2 sampleOwnerAbsent 0 = .ok (j, t, e) ∧
      j.phase = .rejected ∧ t.orchestration.terminal = true := by
  have h := settlement_iff sampleCodec sampleLost sampleOwnerAbsent 0
  have hrun : ∀ x, Run.run (control sampleCodec) initialConfig sampleLost = x →
      (x.1.version ≠ maxInt64 ∧ x.1.submitStarted = true ∧ x.1.remote = none ∧
        x.2.execution = .unknown ∧ x.2.orchestration.terminal = false) ∧
      (x.1.phase = .submitting ∧ x.1.submissionResourceName = "kernel") ∧
      x.2.cancellation = .notRequested := by
    rintro x rfl
    decide +kernel
  generalize Run.run (control sampleCodec) initialConfig sampleLost = x at h hrun ⊢
  obtain ⟨⟨hversion, hs, hr, he, ho⟩, ⟨hphase, hname⟩, hk⟩ := hrun x rfl
  refine (h (by decide) hversion ⟨4096, rfl, by decide⟩ hs hr he ho ?_).1.mpr (by simp [hk])
  exact .owner rfl (.inr hphase) (by simp [hname]) hname.symm

/-- The lost sample is cancelled, five observations fail, the operator reconciles and one inventory
does not list the kernel. -/
def sampleManual : List Control :=
  sampleLost ++ [.cancel false 0] ++
    List.replicate 5 (.act { kind := .fault, code := some .providerUnreachable } 0) ++
    [.act { kind := .requestReconciliation } 0,
     .act { kind := .submissionAbsenceSeen, resourceName := "kernel" } 0]

def sampleRejection : SubmissionOutcome where
  status := .rejected
  problem := some { code := .providerRejected, message := "Refused.", stage := .submission }

/-- **A lost submission that cannot be settled.** Cancelled, exhausted and reconciled, the sample
meets every condition of the three reports, and each of them is refused as invalid. -/
theorem settlement_refused_manual :
    let x := Run.run (control sampleCodec) initialConfig sampleManual
    let now := submissionAbsenceGrace
    let reports : List Action := [sampleOwnerAbsent,
      { kind := .submissionSeen, submission := some sampleRejection },
      { kind := .submissionAbsenceSeen, resourceName := "kernel" }]
    (x.1.submitStarted = true ∧ x.1.remote = none ∧ x.2.execution = .unknown ∧
      x.2.orchestration.terminal = false ∧ admissible sampleCodec x.1 x.2 now = true) ∧
    ∀ a ∈ reports, Settles x.1 a now ∧ apply sampleCodec x.1 x.2 a now = .error .invalid := by
  have h := run_coupled sampleCodec sampleManual
  have hrun : ∀ x, Run.run (control sampleCodec) initialConfig sampleManual = x →
      (x.1.submitStarted = true ∧ x.1.remote = none ∧ x.2.execution = .unknown ∧
        x.2.orchestration.terminal = false ∧
        admissible sampleCodec x.1 x.2 submissionAbsenceGrace = true) ∧
      (x.1.phase = .submitting ∧ x.1.submissionResourceName = "kernel" ∧
        x.1.submissionAbsenceObservedAt = some 0 ∧ x.1.ownerSubmissionPresent = false ∧
        x.1.plan = some samplePlan) ∧
      x.2.cancellation = .manual := by
    rintro x rfl
    decide +kernel
  have hvalid : sampleRejection.validate samplePlan.job.identity = true := by decide
  generalize Run.run (control sampleCodec) initialConfig sampleManual = x at h hrun ⊢
  obtain ⟨⟨hs, hr, he, ho, hadm⟩, ⟨hphase, hname, hseen, howner, hplan⟩, hk⟩ := hrun x rfl
  refine ⟨⟨hs, hr, he, ho, hadm⟩, fun a ha => ?_⟩
  have hsettles : Settles x.1 a submissionAbsenceGrace := by
    simp only [List.mem_cons, List.not_mem_nil, or_false] at ha
    rcases ha with rfl | rfl | rfl
    · exact .owner rfl (.inr hphase) (by simp [hname]) hname.symm
    · exact .rejection samplePlan sampleRejection rfl hphase rfl hplan hvalid rfl
    · exact .inventory 0 rfl hphase hname.symm hseen (by simp) howner
  have hl := h.stage.of_unbound hs hr (.inl hphase)
  exact ⟨hsettles, h.settles_invalid hadm hs hr he ho hl hsettles hk⟩

end Dispatch
end ComputeRelay
