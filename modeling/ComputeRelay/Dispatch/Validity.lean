import Mathlib.Tactic
import ComputeRelay.Dispatch.Cases

/-!
# Valid journals, read and built

`Journal.valid` is one conjunction over sixteen fields. This module reads it and rebuilds it.

* `Journal.Planned` names the rules of a journal with a plan, `Journal.plannedRule_iff` and
  `Journal.valid_iff` connect them with the check.
* `validate_finalProblem` and `detail_committed_of_public` say that what `committed` adds to a
  problem never spoils it.
* `apply_eq_ok` and `apply_eq_invalid` are the two ways a draft ends.
-/

namespace ComputeRelay
namespace Dispatch

open Domain Provider Scheduler

/-! ### Reading -/

namespace Journal

/-- The rules of a journal with a plan, one per check. -/
structure Planned (c : Provider.Codec) (j : Journal) (plan : Plan) : Prop where
  job : plan.job.validate c = true
  inputs : plan.job.inputs.any (·.validate plan.job.identity.workspaceID) = true
  id : validOpaqueID j.preparationID = true
  prepared : ∀ p, j.prepared = some p → p.validate c plan j.preparationID = true
  staged : j.phase = .ready ∨ j.submitStarted = true →
    ∃ p, j.prepared = some p ∧ p.ready = true ∧ p.private_ = true
  phase : j.phase ≠ .local_ ∧ j.phase ≠ .failed ∧ j.version ≠ 0
  unstarted : j.phase = .staging ∨ j.phase = .ready → j.submitStarted = false
  unbound : j.phase = .submitting ∨ j.phase = .rejected → j.remote = none ∧ j.observation = none
  hidden : ∀ p, j.prepared = some p →
    p.private_ = true ∨ j.phase = .attention ∨ j.phase = .prevented
  ended : j.phase = .collectible → ∃ o, j.observation = some o ∧ o.execution.terminal = true
  running : j.phase = .submitted → ∀ o, j.observation = some o → o.execution.terminal = false
  started : j.phase = .submitting ∨ j.phase = .submitted ∨ j.phase = .rejected ∨
    j.phase = .collectible → j.submitStarted = true
  remote : ∀ r, j.remote = some r →
    j.submitStarted = true ∧ r.validate = true ∧ r.identity = plan.job.identity
  bound : j.phase = .submitted ∨ j.phase = .collectible → j.remote ≠ none
  observed : ∀ o, j.observation = some o → ∃ r, j.remote = some r ∧ o.validate r = true

variable {c : Provider.Codec} {j : Journal}

theorem plannedRule_iff {plan : Plan} : j.plannedRule c plan = true ↔ j.Planned c plan := by
  have himp : ∀ a b : Bool, (!a || b) = true ↔ (a = true → b = true) := by decide
  have hnand : ∀ a b : Bool, (!(a && b)) = true ↔ (a = true → b = false) := by decide
  have hnor : ∀ a b : Bool, (!(a || b)) = true ↔ a = false ∧ b = false := by decide
  simp only [plannedRule, Bool.and_eq_true, himp, hnand, hnor, Bool.or_eq_true,
    Bool.or_eq_false_iff, decide_eq_true_eq, decide_eq_false_iff_not, Option.all_eq_true,
    Option.any_eq_true (p := fun p : Prepared => p.ready && p.private_),
    Option.any_eq_true (p := fun o : Observation => o.execution.terminal),
    Bool.not_eq_true', Option.isSome_eq_false_iff, Option.isNone_iff_eq_none,
    Option.isSome_iff_ne_none, or_assoc, and_assoc, ne_eq, ← imp_iff_not_or]
  constructor
  · rintro ⟨h1, h2, h3, h4, h5, h6, h7, h8, h9, h10, h11, h12, h13, h14, h15, h16, h17⟩
    exact ⟨h1, h2, h3, h4, h5, ⟨h6, h7, h8⟩, h9, h10, h11, h12, h13, h14, h15, h16,
      fun o ho => (Option.any_eq_true ..).mp (h17 o ho)⟩
  · intro h
    exact ⟨h.job, h.inputs, h.id, h.prepared, h.staged, h.phase.1, h.phase.2.1, h.phase.2.2,
      h.unstarted, h.unbound, h.hidden, h.ended, h.running, h.started, h.remote, h.bound,
      fun o ho => (Option.any_eq_true ..).mpr (h.observed o ho)⟩

theorem countRule_iff : j.countRule = true ↔ 0 ≤ j.version ∧ 0 ≤ j.failures ∧
    j.failures ≤ maxFailures ∧ (j.phase = .prevented → j.submitStarted = false) := by
  simp [countRule, and_assoc, imp_iff_not_or]

/-- The rules that do not depend on the plan. -/
structure Sound (c : Provider.Codec) (j : Journal) : Prop where
  submission : j.submissionRule = true
  detail : j.detailRule = true
  preparation : j.preparationRule = true
  start : j.startRule c = true
  count : j.countRule = true
  problem : ∀ p, j.problem = some p → p.validate = true

theorem sound_of_valid (h : j.valid c = true) : j.Sound c := by
  simp only [valid, Bool.and_eq_true, Option.all_eq_true] at h
  exact ⟨h.1.1.1.1.1.1, h.1.1.1.1.1.2, h.1.1.1.1.2, h.1.1.1.2, h.1.1.2, h.2⟩

theorem planned_of_valid (h : j.valid c = true) {plan : Plan} (hp : j.plan = some plan) :
    j.Planned c plan :=
  plannedRule_iff.mp (valid_planned h hp)

theorem valid_of_planned {plan : Plan} (hp : j.plan = some plan) (hs : j.Sound c)
    (h : j.Planned c plan) : j.valid c = true := by
  simp only [valid, hp, Bool.and_eq_true, Option.all_eq_true]
  exact ⟨⟨⟨⟨⟨⟨hs.submission, hs.detail⟩, hs.preparation⟩, hs.start⟩, hs.count⟩,
    plannedRule_iff.mpr h⟩, hs.problem⟩

theorem valid_of_unplanned (hp : j.plan = none) (hs : j.Sound c) (h : j.unplannedRule = true) :
    j.valid c = true := by
  simp only [valid, hp, Bool.and_eq_true, Option.all_eq_true]
  exact ⟨⟨⟨⟨⟨⟨hs.submission, hs.detail⟩, hs.preparation⟩, hs.start⟩, hs.count⟩, h⟩, hs.problem⟩

end Journal

section Reading

variable {c : Provider.Codec} {j : Journal}

theorem unstarted_of_unplanned (hv : j.valid c = true) (hp : j.plan = none) :
    j.submitStarted = false := by
  have h := Journal.valid_unplanned hv hp
  simp only [Journal.unplannedRule, Bool.and_eq_true, Bool.not_eq_true'] at h
  exact h.1.1.1.2

theorem planned_of_phase (hv : j.valid c = true)
    (hp : j.phase ≠ .local_ ∧ j.phase ≠ .failed ∧ j.phase ≠ .prevented) :
    ∃ plan, j.plan = some plan ∧ j.Planned c plan := by
  cases hplan : j.plan with
  | none =>
    have h := Journal.valid_unplanned hv hplan
    simp [Journal.unplannedRule, hp] at h
  | some plan => exact ⟨plan, rfl, Journal.planned_of_valid hv hplan⟩

theorem planned_of_started (hv : j.valid c = true) (hs : j.submitStarted = true) :
    ∃ plan, j.plan = some plan ∧ j.Planned c plan := by
  cases hplan : j.plan with
  | none =>
    rw [unstarted_of_unplanned hv hplan] at hs
    cases hs
  | some plan => exact ⟨plan, rfl, Journal.planned_of_valid hv hplan⟩

/-- A collectible journal holds a terminal observation of its accepted reference. -/
theorem observation_of_collectible (hv : j.valid c = true) (hp : j.phase = .collectible) :
    ∃ o, j.observation = some o ∧ o.execution.terminal = true ∧ j.remote = some o.remote := by
  obtain ⟨plan, -, h⟩ := planned_of_phase hv (by simp [hp])
  obtain ⟨o, ho, hterm⟩ := h.ended hp
  obtain ⟨r, hr, hval⟩ := h.observed o ho
  refine ⟨o, ho, hterm, ?_⟩
  simp only [Observation.validate, Bool.and_eq_true, decide_eq_true_eq] at hval
  rw [hr, hval.1.1.1.1.1.1.1.2]

theorem started_of_phase (hv : j.valid c = true)
    (hp : j.phase = .submitting ∨ j.phase = .submitted ∨ j.phase = .rejected ∨
      j.phase = .collectible) : j.submitStarted = true := by
  have hphase : j.phase ≠ .local_ ∧ j.phase ≠ .failed ∧ j.phase ≠ .prevented := by
    rcases hp with hp | hp | hp | hp <;> simp [hp]
  obtain ⟨plan, -, h⟩ := planned_of_phase hv hphase
  exact h.started hp

theorem remote_of_submitting (hv : j.valid c = true) (hp : j.phase = .submitting) :
    j.remote = none := by
  obtain ⟨plan, -, h⟩ := planned_of_phase hv (by simp [hp])
  exact (h.unbound (.inl hp)).1

theorem unobserved_of_unbound {plan : Plan} (h : j.Planned c plan) (hr : j.remote = none) :
    j.observation = none := by
  by_contra ho
  obtain ⟨o, ho⟩ := Option.ne_none_iff_exists'.mp ho
  obtain ⟨r, hr', -⟩ := h.observed o ho
  rw [hr] at hr'
  cases hr'

theorem journalTime_formatNano {t : ℤ} (h : validTime t = true) :
    journalTime (Rfc3339.formatNano t) = some t := by
  have hy := h
  simp only [validTime, Bool.and_eq_true, decide_eq_true_eq] at hy
  rw [journalTime, Rfc3339.parse_formatNano (by omega) (by omega), Option.filter_some, if_pos h]

theorem remoteAbsence_of_detail (hv : j.valid c = true) {t : ℤ} (ht : validTime t = true)
    (hd : j.detail remoteAbsenceDetail = Rfc3339.formatNano t) : j.remoteAbsence ≠ none := by
  have hne : Rfc3339.formatNano t ≠ "" := by
    intro h
    have hread := journalTime_formatNano ht
    rw [h, show journalTime "" = none by decide] at hread
    cases hread
  have hrule := (Journal.sound_of_valid hv).detail
  simp only [Journal.detailRule, Bool.and_eq_true, Bool.or_eq_true, decide_eq_true_eq, hd, hne,
    false_or] at hrule
  exact Option.isSome_iff_ne_none.mp hrule.2

end Reading

/-! ### Absence reports -/

theorem remoteAbsence_of_phase {j : Journal} (h : j.phase ≠ .attention) :
    j.remoteAbsence = none := by
  unfold Journal.remoteAbsence
  split
  · rw [if_neg fun hc => h hc.1]
  · rfl

theorem remoteAbsence_of_unbound {j : Journal} (h : j.remote = none) : j.remoteAbsence = none := by
  simp [Journal.remoteAbsence, h]

theorem remote_of_remoteAbsence {j : Journal} {x : RemoteAbsence} (h : j.remoteAbsence = some x) :
    j.remote = some x.remote := by
  unfold Journal.remoteAbsence at h
  split at h
  · next r p hr hp =>
    split_ifs at h
    obtain ⟨t, -, rfl⟩ := Option.map_eq_some_iff.mp h
    exact hr
  · cases h

/-! ### Building -/

theorem problem_validate {code : ErrorCode} {may : Bool} {p : Problem}
    (h : problem code may = some p) : p.validate = true := by
  unfold problem at h
  split_ifs at h
  · cases h
    subst code
    decide
  · obtain ⟨⟨stage, message, action⟩, -, h⟩ := Option.bind_eq_some_iff.mp h
    obtain ⟨q, -, h⟩ := Option.bind_eq_some_iff.mp h
    simp only [Option.ite_none_right_eq_some, Option.some.injEq] at h
    obtain ⟨hv, rfl⟩ := h
    exact hv

/-- The codes the journal has a text for. -/
def recorded (code : ErrorCode) : Bool := code = .remoteTimeout || (problemText code).isSome

/-- Every text is a text, at the stage of its code. -/
theorem problemText_spec {code : ErrorCode} {stage : FailureStage} {message : String}
    {action : RecommendedAction} (h : problemText code = some (stage, message, action)) :
    Text.blank message = false ∧ stage = defaultFailureStage code.category := by
  cases code <;> cases h <;> exact ⟨by decide, rfl⟩

theorem isSome_problem (code : ErrorCode) (may : Bool) :
    (problem code may).isSome = recorded code := by
  unfold problem recorded
  by_cases ht : code = .remoteTimeout
  · simp [ht]
  · simp only [ht, decide_false, Bool.false_or]
    cases htext : problemText code with
    | none => rfl
    | some x =>
      obtain ⟨stage, message, action⟩ := x
      obtain ⟨hb, hs⟩ := problemText_spec htext
      simp [newProblem, draft, Problem.validate, Problem.withRetrySemantics,
        Problem.withRecommendedAction, Text.blank_trimSpace, hb, hs]

theorem detail_problem {code : ErrorCode} {may : Bool} {p : Problem}
    (h : problem code may = some p) {key : String} (hk : key ≠ reasonDetail) :
    p.detail key = "" := by
  unfold problem at h
  split_ifs at h
  · cases h
    rw [Problem.detail_withDetail_of_ne _ _ hk]
    rfl
  · obtain ⟨⟨stage, message, action⟩, -, h⟩ := Option.bind_eq_some_iff.mp h
    obtain ⟨q, hq, h⟩ := Option.bind_eq_some_iff.mp h
    simp only [newProblem, Option.ite_none_right_eq_some, Option.some.injEq] at hq h
    obtain ⟨-, rfl⟩ := hq
    obtain ⟨-, rfl⟩ := h
    rfl

theorem validate_keepSubmissionDetails {p : Problem} (h : p.validate = true) (first : Problem) :
    (keepSubmissionDetails p first).validate = true := by
  unfold keepSubmissionDetails
  have hkeys : ∀ key ∈ first.publicDetails.keys, Text.blank key = false := fun key hk =>
    Problem.blank_of_mem_publicKeys key (first.mem_publicKeys_of_mem hk)
  generalize first.publicDetails.keys = keys at hkeys
  induction keys generalizing p with
  | nil => exact h
  | cons k keys ih =>
    rw [List.foldl_cons]
    refine ih ?_ fun key hk => hkeys key (List.mem_cons_of_mem _ hk)
    split_ifs
    · exact Problem.validate_withDetail h (hkeys k (List.mem_cons_self ..)) _
    · exact h

/-- Filling the gaps touches neither the code nor the reason. -/
theorem keepSubmissionDetails_spec (p first : Problem) :
    (keepSubmissionDetails p first).code = p.code ∧
      (keepSubmissionDetails p first).detail reasonDetail = p.detail reasonDetail := by
  unfold keepSubmissionDetails
  generalize first.publicDetails.keys = keys
  induction keys generalizing p with
  | nil => exact ⟨rfl, rfl⟩
  | cons k keys ih =>
    rw [List.foldl_cons]
    split_ifs with hk
    · obtain ⟨hcode, hreason⟩ := ih (p.withDetail k (first.publicDetails.get k))
      exact ⟨hcode, hreason.trans (Problem.detail_withDetail_of_ne p _ (Ne.symm hk.1))⟩
    · exact ih p

theorem problem_committed {j : Journal} {p : Problem} (hp : j.problem = some p) :
    ∃ q, (committed j).problem = some q ∧ q.code = p.code ∧
      q.detail reasonDetail = p.detail reasonDetail := by
  have hkept : (keptProblem j p).code = p.code ∧
      (keptProblem j p).detail reasonDetail = p.detail reasonDetail := by
    unfold keptProblem
    split
    · exact ⟨rfl, rfl⟩
    · exact keepSubmissionDetails_spec p _
  simp only [committed, finalProblem, hp, Option.map_some]
  split_ifs
  · exact ⟨_, rfl, hkept⟩
  · exact ⟨_, rfl, hkept.1, (Problem.detail_withDetail_of_ne _ _ (by decide)).trans hkept.2⟩

/-- What `committed` adds to a problem keeps it valid. -/
theorem validate_finalProblem {j : Journal} (h : ∀ p, j.problem = some p → p.validate = true) :
    ∀ p, (committed j).problem = some p → p.validate = true := by
  intro p hp
  obtain ⟨q, hq, rfl⟩ := Option.map_eq_some_iff.mp hp
  have hkept : (keptProblem j q).validate = true := by
    unfold keptProblem
    split
    · exact h q hq
    · exact validate_keepSubmissionDetails (h q hq) _
  split_ifs
  · exact hkept
  · exact Problem.validate_withDetail hkept (by decide) _

/-- A problem without private details leaves nothing to read. -/
theorem detailRule_committed {j : Journal} (h : ∀ p, j.problem = some p →
    p.detail localFailureDetail = "" ∧ p.detail remoteAbsenceDetail = "") :
    (committed j).detailRule = true := by
  have hempty : (committed j).detail localFailureDetail = "" ∧
      (committed j).detail remoteAbsenceDetail = "" := by
    cases hp : j.problem with
    | none => simp [committed, Journal.detail, finalProblem, hp]
    | some p =>
      rw [detail_committed hp (by decide), detail_committed hp (by decide)]
      exact h p hp
  simp [Journal.detailRule, hempty]

/-- The rules a committed journal inherits from its draft. -/
theorem sound_committed {c : Provider.Codec} {j : Journal} (hsub : j.submissionRule = true)
    (hdetail : (committed j).detailRule = true) (hprep : j.preparationRule = true)
    (hstart : j.startRule c = true) (hcount : j.countRule = true)
    (hproblem : ∀ p, j.problem = some p → p.validate = true) : (committed j).Sound c where
  submission := hsub
  detail := hdetail
  preparation := hprep
  start := hstart
  count := by
    obtain ⟨h1, h2, h3, h4⟩ := Journal.countRule_iff.mp hcount
    have hversion : 0 ≤ j.version + 1 := by omega
    exact Journal.countRule_iff.mpr ⟨hversion, h2, h3, h4⟩
  problem := validate_finalProblem hproblem

section Ends

variable {c : Codec} {old : Journal} {s : AttemptState} {a : Action} {now : ℤ} {d : Draft}

theorem apply_eq_ok (hadm : admissible c old s now = true) (hstep : step c old s a now = .ok d)
    (hv : (committed d.journal).valid c.toCodec = true) (hm : s.Moves d.next) :
    apply c old s a now = .ok (committed d.journal, d.next, d.event) := by
  have hmove := (AttemptState.moves_iff s d.next).mpr hm
  simp [apply, hadm, hstep, Except.bind, finish, hv, hmove]

theorem apply_eq_invalid (hadm : admissible c old s now = true)
    (hstep : step c old s a now = .ok d) (hm : ¬s.Moves d.next) :
    apply c old s a now = .error .invalid := by
  have hmove : validateAttemptStateTransition s d.next = false := by
    rw [← Bool.not_eq_true, AttemptState.moves_iff]
    exact hm
  simp [apply, hadm, hstep, Except.bind, finish, hmove]

end Ends

end Dispatch
end ComputeRelay
