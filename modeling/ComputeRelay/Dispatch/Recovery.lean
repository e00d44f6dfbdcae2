import Mathlib.Tactic
import ComputeRelay.Dispatch.Control

/-!
# Recovery actions are never refused

At every reachable pair the actions that carry recovery forward find the edges they need: a fault in
the five working phases, a terminal observation and an absence report of the accepted remote.

* `Clean` problems carry only public details; `step_fault` computes the draft of a fault from one.
* `valid_localFault`, `valid_remoteFault`, `valid_ended` and `valid_vanished` are the journals the
  drafts commit, `Unsubmitted.…`, `Lost.…` and `Bound.…` the moves of the state, stage by stage.
* `recovery_accepted` is the main result.
-/

namespace ComputeRelay
namespace Dispatch

open Domain Provider Scheduler

/-! ### The problem a fault records -/

/-- A valid problem without private details. -/
structure Clean (p : Problem) : Prop where
  valid : p.validate = true
  detail : ∀ key, key ∉ publicKeys → p.detail key = ""

theorem clean_problem {code : ErrorCode} {may : Bool} {p : Problem}
    (h : problem code may = some p) : Clean p :=
  ⟨problem_validate h, fun _ hk => detail_problem h fun hr => hk (by simp [hr, publicKeys])⟩

theorem Clean.faultDetails {p : Problem} (h : Clean p) (a : Action) : Clean (faultDetails p a) := by
  unfold Dispatch.faultDetails
  split
  · exact h
  · exact ⟨Problem.validate_details h.valid (Problem.keysOk_publicDetails _),
      fun _ hk => Problem.detail_publicDetails_of_notMem _ hk⟩

theorem Clean.withDetail {p : Problem} (h : Clean p) {key : String} (hk : key ∈ publicKeys)
    (value : String) : Clean (p.withDetail key value) where
  valid := Problem.validate_withDetail h.valid (Problem.blank_of_mem_publicKeys key hk) value
  detail other ho := by
    have hne : other ≠ key := by
      rintro rfl
      exact ho hk
    rw [Problem.detail_withDetail_of_ne p value hne]
    exact h.detail other ho

theorem publish_reason {p : Problem} (h : Clean p) {key value : String}
    (hkey : key = reasonDetail ∨ key = causeDetail) (hv : value = "" ∨ validReason value = true) :
    ∃ q, publish p key value = .ok q ∧ Clean q := by
  unfold publish
  by_cases hempty : value = ""
  · exact ⟨p, if_pos hempty, h⟩
  have hreason := hv.resolve_left hempty
  have hget : (p.withDetail key value).publicDetails.get key = value := by
    rcases hkey with rfl | rfl
    · rw [Problem.publicDetails_reason, Problem.detail_withDetail, if_pos hreason]
    · rw [Problem.publicDetails_cause, Problem.detail_withDetail, if_pos hreason]
  refine ⟨p.withDetail key value, ?_, h.withDetail ?_ value⟩
  · rw [if_neg hempty, if_neg (not_not.mpr hget)]
  · rcases hkey with rfl | rfl <;> simp [publicKeys]

theorem faultReason_valid (old : Journal) (p : Problem) {a : Action}
    (ha : a.reason = "" ∨ validReason a.reason = true) :
    faultReason old p a = "" ∨ validReason (faultReason old p a) = true := by
  unfold faultReason
  split_ifs with hr
  · exact ha
  · split
    · exact .inl rfl
    · split_ifs
      · rw [Problem.publicDetails_reason]
        split_ifs with hv
        · exact .inr hv
        · exact .inl rfl
      · exact .inl rfl

/-- The name a fault leaves: the old one, or a proper one for a submission without a reference. -/
def NamedBy (old : Journal) (name : String) : Prop :=
  name = old.submissionResourceName ∨
    (old.submitStarted = true ∧ old.remote = none ∧ validResourceName name = true)

theorem faultName_spec (old : Journal) {p : Problem} (a : Action) :
    NamedBy old (faultName old (faultDetails p a) a) := by
  unfold faultName
  split_ifs with h
  · obtain ⟨hd, hs, hr, hne⟩ := h
    refine .inr ⟨hs, Option.isNone_iff_eq_none.mp hr, ?_⟩
    obtain ⟨d, hdet⟩ := Option.isSome_iff_exists.mp hd
    have hval : (faultDetails p a).detail resourceNameDetail =
        ({ p with details := d } : Problem).publicDetails.get resourceNameDetail := by
      simp [faultDetails, hdet, Problem.detail]
    rw [hval, Problem.publicDetails_resourceName] at hne ⊢
    split_ifs at hne ⊢ with hv
    · exact hv
    · exact absurd rfl hne
  · exact .inl rfl

theorem step_fault (c : Codec) {old : Journal} (s : AttemptState) {a : Action} (now : ℤ)
    {code : ErrorCode} {p : Problem} (hk : a.kind = .fault) (hcode : a.code = some code)
    (hp : problem code old.submitStarted = some p) (hopen : old.phase.open_)
    (hreason : a.reason = "" ∨ validReason a.reason = true)
    (hcause : a.cause = "" ∨ validReason a.cause = true) :
    ∃ q name, Clean q ∧ NamedBy old name ∧ step c old s a now = .ok
      (if old.plan.isNone then localFault (faultJournal old name now) old s code q now
        else remoteFault (faultJournal old name now) old s code q) := by
  obtain ⟨q, hq, hclean⟩ := publish_reason ((clean_problem hp).faultDetails a) (.inl rfl)
    (faultReason_valid old (faultDetails p a) hreason)
  obtain ⟨r, hr, hrclean⟩ := publish_reason hclean (.inr rfl) hcause
  refine ⟨r, faultName old (faultDetails p a) a, hrclean, faultName_spec old a, ?_⟩
  obtain ⟨h1, h2, h3, h4, h5⟩ := hopen
  simp only [step, hk, fault, h1, h2, h3, h4, h5, or_self, if_false, hcode, hp, hq, hr, Except.bind]
  rfl

/-! ### The journals -/

section Journals

variable {c : Provider.Codec} {j : Journal} {now : ℤ} {name : String}

theorem submissionRule_faultJournal (now : ℤ) (h : j.Sound c) (hn : NamedBy j name) :
    (faultJournal j name now).submissionRule = true := by
  have hsub := h.submission
  rcases hn with rfl | ⟨hs, -, hv⟩
  · exact hsub
  · have hne := validResourceName_ne_empty hv
    simp only [Journal.submissionRule, Bool.and_eq_true, faultJournal, hs, Bool.true_and] at hsub ⊢
    refine ⟨⟨hsub.1.1, by simp [hv]⟩, ?_⟩
    cases ht : j.submissionAbsenceObservedAt with
    | none => rfl
    | some t =>
      have hold := hsub.2
      rw [ht, Option.all_some, Bool.and_eq_true] at hold
      simp [hold.1, hne]

theorem preparationRule_faultJournal (name : String) (h : j.Sound c)
    (hnow : validTime now = true) :
    (faultJournal j name now).preparationRule = true := by
  have hprep := h.preparation
  simp only [Journal.preparationRule, faultJournal] at hprep ⊢
  split_ifs with hu
  · simp only [unconfirmedPreparation, Bool.and_eq_true] at hu
    simp [hnow, hu.1.1.1.2]
  · exact hprep

theorem countRule_faultJournal (name : String) (now : ℤ) (h : j.Sound c) :
    (faultJournal j name now).countRule = true := by
  obtain ⟨h1, h2, -, h4⟩ := Journal.countRule_iff.mp h.count
  have hnew : 0 ≤ min (j.failures + 1) maxFailures ∧
      min (j.failures + 1) maxFailures ≤ maxFailures := by
    simp only [maxFailures]
    omega
  exact Journal.countRule_iff.mpr ⟨h1, hnew.1, hnew.2, h4⟩

theorem valid_remoteFault (s : AttemptState) (code : ErrorCode) {p : Problem}
    (hv : j.valid c = true) (hnow : validTime now = true) (hn : NamedBy j name) (hp : Clean p)
    (hplan : j.plan ≠ none) :
    (committed (remoteFault (faultJournal j name now) j s code p).journal).valid c = true := by
  obtain ⟨plan, hplan⟩ := Option.ne_none_iff_exists'.mp hplan
  have hsound := Journal.sound_of_valid hv
  have h := Journal.planned_of_valid hv hplan
  have hversion : j.version + 1 ≠ 0 := by
    have := (Journal.countRule_iff.mp hsound.count).1
    omega
  have hprivate : ∀ q : Problem, some p = some q →
      q.detail localFailureDetail = "" ∧ q.detail remoteAbsenceDetail = "" := by
    rintro q ⟨⟩
    exact ⟨hp.detail _ (by decide), hp.detail _ (by decide)⟩
  have hproblem : ∀ q : Problem, some p = some q → q.validate = true := by
    rintro q ⟨⟩
    exact hp.valid
  have hsub := submissionRule_faultJournal now hsound hn
  have hprep := preparationRule_faultJournal name hsound hnow
  have hcount := countRule_faultJournal name now hsound
  rcases remoteFault_cases (faultJournal j name now) j s code p with hd | hd <;> rw [hd]
  · refine Journal.valid_of_planned hplan (sound_committed hsub (detailRule_committed hprivate)
      hprep hsound.start ?_ hproblem) ?_
    · obtain ⟨h1, h2, h3, -⟩ := Journal.countRule_iff.mp hcount
      exact Journal.countRule_iff.mpr ⟨h1, h2, h3, by rintro ⟨⟩⟩
    · exact {
        job := h.job
        inputs := h.inputs
        id := h.id
        prepared := h.prepared
        staged := fun hs => h.staged (.inr (hs.resolve_left (by simp)))
        phase := ⟨by simp, by simp, hversion⟩
        unstarted := by simp
        unbound := by simp
        hidden := fun _ _ => .inr (.inl rfl)
        ended := by simp
        running := by simp
        started := by simp
        remote := h.remote
        bound := by simp
        observed := h.observed }
  · refine Journal.valid_of_planned hplan (sound_committed hsub (detailRule_committed hprivate)
      hprep hsound.start hcount hproblem) ?_
    exact { h with phase := ⟨h.phase.1, h.phase.2.1, hversion⟩ }

theorem validTime_firstFailure (j : Journal) (hnow : validTime now = true) :
    validTime ((journalTime (j.detail localFailureDetail)).getD now) = true := by
  cases h : journalTime (j.detail localFailureDetail) with
  | none => exact hnow
  | some t =>
    obtain ⟨-, ht⟩ := Option.filter_eq_some_iff.mp h
    exact ht

/-- A problem whose only private detail is the time of the first local failure. -/
theorem detailRule_localFailure {t : ℤ} (ht : validTime t = true) {p : Problem}
    (hp : j.problem = some p) (hlocal : p.detail localFailureDetail = Rfc3339.formatNano t)
    (hremote : p.detail remoteAbsenceDetail = "") : (committed j).detailRule = true := by
  simp only [Journal.detailRule,
    detail_committed hp (show localFailureDetail ∉ publicKeys by decide),
    detail_committed hp (show remoteAbsenceDetail ∉ publicKeys by decide), hlocal, hremote,
    journalTime_formatNano ht]
  simp

/-- The problem of a local fault: the time of the first failure is its only private detail. -/
theorem problem_localFault (j old : Journal) (s : AttemptState) (code : ErrorCode) {p : Problem}
    (now : ℤ) (hp : Clean p) : ∃ q,
      (localFault j old s code p now).journal.problem = some q ∧ q.validate = true ∧
      q.detail localFailureDetail =
        Rfc3339.formatNano ((journalTime (old.detail localFailureDetail)).getD now) ∧
      q.detail remoteAbsenceDetail = "" := by
  have hvalid := Problem.validate_withDetail hp.valid
    (show Text.blank localFailureDetail = false by decide)
    (Rfc3339.formatNano ((journalTime (old.detail localFailureDetail)).getD now))
  have hremote : ∀ value, (p.withDetail localFailureDetail value).detail remoteAbsenceDetail = "" :=
    fun value => (Problem.detail_withDetail_of_ne p value (by decide)).trans
      (hp.detail _ (by decide))
  simp only [Problem.validate, Bool.and_eq_true] at hvalid
  unfold localFault
  dsimp only
  split_ifs
  all_goals refine ⟨_, rfl, ?_, Problem.detail_withDetail .., hremote _⟩
  all_goals simp only [Problem.validate, Bool.and_eq_true]
  · exact ⟨⟨hvalid.1.1, by simp [Problem.withRecommendedAction]⟩, hvalid.2⟩
  · exact hvalid
  · exact ⟨⟨hvalid.1.1, by simp [Problem.withRecommendedAction, Problem.withRetrySemantics]⟩,
      hvalid.2⟩

theorem valid_localFault (s : AttemptState) (code : ErrorCode) {p : Problem}
    (hv : j.valid c = true) (hnow : validTime now = true) (hn : NamedBy j name) (hp : Clean p)
    (hplan : j.plan = none) :
    (committed (localFault (faultJournal j name now) j s code p now).journal).valid c = true := by
  have hsound := Journal.sound_of_valid hv
  have hrule := Journal.valid_unplanned hv hplan
  obtain ⟨q, hq, hqv, hlocal, hremote⟩ :=
    problem_localFault (faultJournal j name now) j s code now hp
  have htime := validTime_firstFailure j hnow
  have hsub := submissionRule_faultJournal now hsound hn
  have hprep := preparationRule_faultJournal name hsound hnow
  have hcount := countRule_faultJournal name now hsound
  have hdetail := detailRule_localFailure htime hq hlocal hremote
  have hproblem : ∀ x, (localFault (faultJournal j name now) j s code p now).journal.problem =
      some x → x.validate = true := by
    intro x hx
    cases hq.symm.trans hx
    exact hqv
  simp only [Journal.unplannedRule, Bool.and_eq_true] at hrule
  obtain ⟨r, hd | hd⟩ := localFault_cases (faultJournal j name now) j s code p now <;>
    rw [hd] at hdetail hproblem ⊢
  · refine Journal.valid_of_unplanned hplan
      (sound_committed hsub hdetail hprep hsound.start ?_ hproblem) ?_
    · obtain ⟨h1, h2, h3, -⟩ := Journal.countRule_iff.mp hcount
      exact Journal.countRule_iff.mpr ⟨h1, h2, h3, by rintro ⟨⟩⟩
    · simp only [Journal.unplannedRule, Bool.and_eq_true]
      exact ⟨⟨⟨⟨⟨rfl, hrule.1.1.1.1.2⟩, hrule.1.1.1.2⟩, hrule.1.1.2⟩, hrule.1.2⟩, hrule.2⟩
  · refine Journal.valid_of_unplanned hplan
      (sound_committed hsub hdetail hprep hsound.start hcount hproblem) ?_
    simp only [Journal.unplannedRule, Bool.and_eq_true]
    exact hrule

/-- The stored observation keeps a summary in place of the provider's own text. -/
theorem validate_summary {obs : Observation} {r : RemoteReference} (h : obs.validate r = true) :
    ({ obs with rawState := executionText obs.execution } : Observation).validate r = true := by
  have htext : safeText (executionText obs.execution) 1024 = true := by
    cases obs.execution <;> decide
  simp only [Observation.validate, Bool.and_eq_true] at h ⊢
  exact ⟨⟨⟨⟨⟨⟨h.1.1.1.1.1.1, htext⟩, h.1.1.1.1.2⟩, h.1.1.1.2⟩, h.1.1.2⟩, h.1.2⟩, h.2⟩

theorem valid_ended {r : RemoteReference} {obs : Observation} (hv : j.valid c = true)
    (hphase : j.phase = .submitted) (hr : j.remote = some r) (hobs : obs.validate r = true)
    (hterm : obs.execution.terminal = true) :
    (committed { j with
      phase := .collectible
      observation := some { obs with rawState := executionText obs.execution }
      problem := none, failures := 0 }).valid c = true := by
  obtain ⟨plan, hplan, h⟩ := planned_of_phase hv (by simp [hphase])
  have hsound := Journal.sound_of_valid hv
  have hs := started_of_phase hv (.inr (.inl hphase))
  obtain ⟨hversion, -, -, -⟩ := Journal.countRule_iff.mp hsound.count
  have hnew : j.version + 1 ≠ 0 := by omega
  obtain ⟨p, hp, hready, hhidden⟩ := h.staged (.inr hs)
  refine Journal.valid_of_planned hplan (sound_committed hsound.submission
    (detailRule_committed ?_) hsound.preparation hsound.start ?_ ?_) ?_
  · intro q hq
    cases hq
  · have hzero : (0 : ℤ) ≤ maxFailures := by decide
    exact Journal.countRule_iff.mpr ⟨hversion, le_rfl, hzero, nofun⟩
  · intro q hq
    cases hq
  · exact {
      job := h.job
      inputs := h.inputs
      id := h.id
      prepared := h.prepared
      staged := fun _ => ⟨p, hp, hready, hhidden⟩
      phase := ⟨by simp, by simp, hnew⟩
      unstarted := by simp
      unbound := by simp
      hidden := fun q hq => by cases hp.symm.trans hq; exact .inl hhidden
      ended := fun _ => ⟨_, rfl, hterm⟩
      running := by simp
      started := fun _ => hs
      remote := h.remote
      bound := fun _ => by simp [hr]
      observed := fun o ho => by cases ho; exact ⟨r, hr, validate_summary hobs⟩ }

/-- A report with its time and its reason is read back from the committed journal. -/
theorem remoteAbsence_committed {r : RemoteReference} {p : Problem} {t : ℤ}
    (hr : j.remote = some r) (hphase : j.phase = .attention) (hp : j.problem = some p)
    (hcode : p.code = .remoteExecutionUnresolved)
    (hreason : p.detail reasonDetail = "remote_not_found") (ht : validTime t = true)
    (hreport : p.detail remoteAbsenceDetail = Rfc3339.formatNano t) :
    (committed j).remoteAbsence = some ⟨r, t⟩ := by
  obtain ⟨q, hq, hqcode, hqreason⟩ := problem_committed hp
  have hdetail := detail_committed hp (show remoteAbsenceDetail ∉ publicKeys by decide)
  have hpublic : q.publicDetails.get reasonDetail = "remote_not_found" := by
    rw [Problem.publicDetails_reason, hqreason, hreason, if_pos (by decide)]
  simp only [Journal.remoteAbsence, committed_remote, hr, hq, committed_phase, hphase, hqcode,
    hcode, hpublic, hdetail, hreport, journalTime_formatNano ht]
  rfl

theorem valid_vanished {r : RemoteReference} {p : Problem} {t : ℤ} (hv : j.valid c = true)
    (hphase : j.phase = .submitted) (hr : j.remote = some r) (hvalid : p.validate = true)
    (hcode : p.code = .remoteExecutionUnresolved)
    (hreason : p.detail reasonDetail = "remote_not_found")
    (hlocal : p.detail localFailureDetail = "") (ht : validTime t = true)
    (hreport : p.detail remoteAbsenceDetail = Rfc3339.formatNano t) :
    (committed { j with phase := .attention, problem := some p }).valid c = true := by
  obtain ⟨plan, hplan, h⟩ := planned_of_phase hv (by simp [hphase])
  have hsound := Journal.sound_of_valid hv
  obtain ⟨hversion, h2, h3, -⟩ := Journal.countRule_iff.mp hsound.count
  have hnew : j.version + 1 ≠ 0 := by omega
  have habsence : (committed { j with phase := .attention, problem := some p }).remoteAbsence =
      some ⟨r, t⟩ := remoteAbsence_committed hr rfl rfl hcode hreason ht hreport
  have hdetail : (committed { j with phase := .attention, problem := some p }).detailRule =
      true := by
    have hread : (committed { j with phase := .attention, problem := some p }).detail
        localFailureDetail = "" := (detail_committed rfl (by decide)).trans hlocal
    simp [Journal.detailRule, habsence, hread]
  refine Journal.valid_of_planned hplan (sound_committed hsound.submission hdetail
    hsound.preparation hsound.start ?_ ?_) ?_
  · exact Journal.countRule_iff.mpr ⟨hversion, h2, h3, by rintro ⟨⟩⟩
  · rintro q ⟨⟩
    exact hvalid
  · exact {
      job := h.job
      inputs := h.inputs
      id := h.id
      prepared := h.prepared
      staged := fun hs => h.staged (.inr (hs.resolve_left (by simp)))
      phase := ⟨by simp, by simp, hnew⟩
      unstarted := by simp
      unbound := by simp
      hidden := fun _ _ => .inr (.inl rfl)
      ended := by simp
      running := by simp
      started := by simp
      remote := h.remote
      bound := by simp
      observed := h.observed }

end Journals

/-! ### The states -/

section States

variable {s : AttemptState} {o : OrchestrationState} {k : CancellationState}

/-- The orchestration may turn to a state that claims nothing, and the cancellation to one that is
not settled, as long as no result and no final release evidence exist. -/
theorem validate_edit (hv : s.validate = true) (hresult : s.result = .notAvailable)
    (hrelease : s.releaseEvidence ≠ .notApplicable)
    (ho : o ∈ [.queued, .preparing, .reconciling, .cancelling, .needsAttention])
    (hk : k ∈ [.notRequested, .requested, .requesting, .accepted, .manual]) :
    ({ s with orchestration := o, cancellation := k } : AttemptState).validate = true := by
  obtain ⟨h1, -, -, h4, -, -⟩ := (AttemptState.validate_iff s).mp hv
  refine (AttemptState.validate_iff _).mpr ⟨h1, ?_, ?_, ?_, ?_, ?_⟩
  · simp [AttemptState.resultRule, hresult]
  · simp only [List.mem_cons, List.not_mem_nil, or_false] at hk
    rcases hk with rfl | rfl | rfl | rfl | rfl <;> rfl
  · unfold AttemptState.releaseRule at h4 ⊢
    split at h4 <;> simp_all
  · simp only [List.mem_cons, List.not_mem_nil, or_false] at ho
    rcases ho with rfl | rfl | rfl | rfl | rfl <;> rfl
  · simp only [List.mem_cons, List.not_mem_nil, or_false] at ho
    rcases ho with rfl | rfl | rfl | rfl | rfl <;> rfl

/-- Such an edit is a move when its two edges exist. -/
theorem moves_edit (hv : s.validate = true) (hresult : s.result = .notAvailable)
    (hrelease : s.releaseEvidence ≠ .notApplicable)
    (ho : o ∈ [.queued, .preparing, .reconciling, .cancelling, .needsAttention])
    (hk : k ∈ [.notRequested, .requested, .requesting, .accepted, .manual])
    (hoe : validateTransition s.orchestration o orchestrationTransitions = true)
    (hke : validateTransition s.cancellation k cancellationTransitions = true) :
    s.Moves { s with orchestration := o, cancellation := k } where
  current := hv
  next := validate_edit hv hresult hrelease ho hk
  orchestration := hoe
  execution := .inl (validateTransition_self ..)
  result := validateTransition_self ..
  cancellation := hke
  remoteActivity := validateTransition_self ..
  releaseEvidence := validateTransition_self ..
  deadline := id

/-- A pending cancellation may be handed over. -/
theorem handed_edge (s : AttemptState) :
    validateTransition s.cancellation
      (if cancellationPending s then .manual else s.cancellation) cancellationTransitions =
        true := by
  split_ifs with hp
  · simp only [cancellationPending, Bool.or_eq_true, decide_eq_true_eq] at hp
    rcases hp with (hp | hp) | hp <;> rw [hp] <;> decide
  · exact validateTransition_self ..

/-- From every orchestration of a lost or bound submission a fault finds its two edges. -/
theorem started_edges
    (ho : s.orchestration ∈ [.dispatching, .reconciling, .cancelling, .needsAttention, .submitted,
      .running]) :
    validateTransition s.orchestration .needsAttention orchestrationTransitions = true ∧
      validateTransition s.orchestration .reconciling orchestrationTransitions = true := by
  simp only [List.mem_cons, List.not_mem_nil, or_false] at ho
  rcases ho with ho | ho | ho | ho | ho | ho <;> rw [ho] <;> decide

theorem Lost.moves_remoteFault {j old : Journal} (h : Lost s) (hv : s.validate = true)
    (hs : old.submitStarted = true) (code : ErrorCode) (p : Problem) :
    s.Moves (remoteFault j old s code p).next := by
  have hmem := h.orchestration
  obtain ⟨h1, h2⟩ := started_edges (s := s)
    (by simp only [List.mem_cons, List.not_mem_nil, or_false] at hmem ⊢; tauto)
  have hrel : s.releaseEvidence ≠ .notApplicable := by simp [h.releaseEvidence]
  rcases remoteFault_cases j old s code p with hd | hd <;> rw [hd]
  · refine moves_edit hv h.result hrel (by simp) ?_ h1 (handed_edge s)
    have hk := handed_mem_lost h
    simp only [List.mem_cons, List.not_mem_nil, or_false] at hk ⊢
    tauto
  · have hk := h.cancellation
    refine moves_edit hv h.result hrel (by simp [hs]) ?_ (by simpa [hs] using h2)
      (validateTransition_self ..)
    simp only [List.mem_cons, List.not_mem_nil, or_false] at hk ⊢
    tauto

theorem Bound.releaseEvidence_ne (h : Bound s) : s.releaseEvidence ≠ .notApplicable := by
  have hr := h.releaseEvidence
  intro he
  simp [he] at hr

theorem Bound.moves_remoteFault {j old : Journal} (h : Bound s) (hv : s.validate = true)
    (hs : old.submitStarted = true) (code : ErrorCode) (p : Problem) :
    s.Moves (remoteFault j old s code p).next := by
  have hmem := h.orchestration
  obtain ⟨h1, h2⟩ := started_edges (s := s)
    (by simp only [List.mem_cons, List.not_mem_nil, or_false] at hmem ⊢; tauto)
  rcases remoteFault_cases j old s code p with hd | hd <;> rw [hd]
  · exact moves_edit hv h.result h.releaseEvidence_ne (by simp) (handed_mem_bound h) h1
      (handed_edge s)
  · exact moves_edit hv h.result h.releaseEvidence_ne (by simp [hs]) h.cancellation
      (by simpa [hs] using h2) (validateTransition_self ..)

theorem Unsubmitted.moves_remoteFault {j old : Journal} (h : Unsubmitted s) (hv : s.validate = true)
    (ho : s.orchestration ∈ [.preparing, .reconciling]) (hs : old.submitStarted = false)
    (code : ErrorCode) (p : Problem) : s.Moves (remoteFault j old s code p).next := by
  have hedges : validateTransition s.orchestration .needsAttention orchestrationTransitions = true ∧
      validateTransition s.orchestration .preparing orchestrationTransitions = true := by
    simp only [List.mem_cons, List.not_mem_nil, or_false] at ho
    rcases ho with ho | ho <;> rw [ho] <;> decide
  have hrel : s.releaseEvidence ≠ .notApplicable := by simp [h.releaseEvidence]
  have hpending : cancellationPending s = false := by simp [cancellationPending, h.cancellation]
  rcases remoteFault_cases j old s code p with hd | hd <;> rw [hd]
  · exact moves_edit hv h.result hrel (by simp) (by simp [hpending, h.cancellation]) hedges.1
      (handed_edge s)
  · exact moves_edit hv h.result hrel (by simp [hs]) (by simp [h.cancellation])
      (by simpa [hs] using hedges.2) (validateTransition_self ..)

theorem Unsubmitted.moves_localFault {j old : Journal} (h : Unsubmitted s) (hv : s.validate = true)
    (ho : s.orchestration ∈ [.queued, .preparing]) (code : ErrorCode) (p : Problem) (now : ℤ) :
    s.Moves (localFault j old s code p now).next := by
  obtain ⟨orch, execution, result, cancellation, activity, evidence, deadline⟩ := s
  obtain ⟨rfl, rfl, rfl, rfl, rfl, rfl⟩ := h
  simp only [List.mem_cons, List.not_mem_nil, or_false] at ho
  obtain ⟨q, hd | hd⟩ := localFault_cases j old ⟨orch, .notSubmitted, .notAvailable, .notRequested,
    .notStarted, .unknown, false⟩ code p now <;>
    rw [hd, ← AttemptState.moves_iff] <;> rcases ho with rfl | rfl <;> rfl

theorem observedState_terminal (s : AttemptState) {obs : Observation}
    (ht : obs.execution.terminal = true) : observedState s obs = { s with
      execution := obs.execution, remoteActivity := obs.remoteActivity
      releaseEvidence := obs.releaseEvidence, orchestration := .collecting
      deadlineExceeded := if obs.execution = .timedOut then true else s.deadlineExceeded
      cancellation :=
        if s.cancellation = .notRequested then .notRequested
        else if obs.execution = .cancelled then .confirmed
        else .tooLate } := by
  have hu : obs.execution ≠ .unknown := by
    intro h
    simp [h, ExecutionState.terminal] at ht
  simp [observedState, ht, hu]

/-- From every bound state a terminal observation finds its edges. -/
theorem Bound.moves_ended (h : Bound s) (hv : s.validate = true) {obs : Observation}
    {r : RemoteReference} (hobs : obs.validate r = true) (ht : obs.execution.terminal = true)
    (hrel : validateTransition s.releaseEvidence obs.releaseEvidence releaseEvidenceTransitions =
      true) : s.Moves (observedState s obs) := by
  have hactivity : obs.remoteActivity = .inactive := by
    by_contra hne
    simp [Observation.validate, ht, hne] at hobs
  have hevidence : obs.releaseEvidence ≠ .notApplicable := by
    intro he
    simp [Observation.validate, he] at hobs
  have ho := h.orchestration
  have hk := h.cancellation
  have hx := h.execution
  have hra := h.remoteActivity
  simp only [List.mem_cons, List.not_mem_nil, or_false] at ho hk hx hra
  rw [observedState_terminal s ht]
  refine ⟨hv, (AttemptState.validate_iff _).mpr ⟨?_, ?_, ?_, ?_, ?_, ?_⟩, ?_, .inl ?_, ?_, ?_, ?_,
    hrel, ?_⟩
  · cases he : obs.execution <;> simp_all [AttemptState.activityRule, ExecutionState.terminal]
  · simp [AttemptState.resultRule, h.result]
  · -- a pending cancellation ends confirmed or too late, as the execution says
    by_cases hn : s.cancellation = .notRequested
    · simp [AttemptState.cancellationRule, hn]
    · by_cases hc : obs.execution = .cancelled <;>
        simp [AttemptState.cancellationRule, hn, hc, ht, hactivity]
  · cases he : obs.releaseEvidence <;> simp_all [AttemptState.releaseRule]
  · simp [AttemptState.orchestrationRule, ht]
  · simp [AttemptState.terminalRule, OrchestrationState.terminal]
  · rcases ho with ho | ho | ho | ho | ho <;> rw [ho] <;> rfl
  · rcases hx with hx | hx | hx | hx <;> rw [hx] <;> cases he : obs.execution <;>
      simp_all [ExecutionState.terminal] <;> rfl
  · exact validateTransition_self ..
  · rcases hk with hk | hk | hk | hk | hk <;> rw [hk] <;>
      by_cases hc : obs.execution = .cancelled <;> simp [hc] <;> rfl
  · rw [hactivity]
    rcases hra with hra | hra <;> rw [hra] <;> rfl
  · intro hd
    simp [hd]

/-- From every bound state the report of the absent remote finds its edges. -/
theorem Bound.moves_vanished (h : Bound s) (hv : s.validate = true) : s.Moves { s with
      orchestration := .needsAttention, execution := .unknown
      remoteActivity := .inactive, releaseEvidence := .providerReported
      cancellation := if cancellationPending s then .manual else s.cancellation } := by
  have ho := h.orchestration
  have hk := handed_mem_bound h
  have hx := h.execution
  have hra := h.remoteActivity
  have hre := h.releaseEvidence
  simp only [List.mem_cons, List.not_mem_nil, or_false] at ho hx hra hre hk
  refine ⟨hv, (AttemptState.validate_iff _).mpr ⟨rfl, ?_, ?_, rfl, rfl, rfl⟩, ?_, ?_,
    validateTransition_self .., handed_edge s, ?_, ?_, id⟩
  · simp [AttemptState.resultRule, h.result]
  · generalize (if cancellationPending s then CancellationState.manual else s.cancellation) = k
      at hk ⊢
    rcases hk with rfl | rfl | rfl | rfl | rfl <;> rfl
  · rcases ho with ho | ho | ho | ho | ho <;> rw [ho] <;> rfl
  · -- a known execution returns to unknown by the exception for absent resources
    rcases hx with hx | hx
    · exact .inl (by rw [hx]; rfl)
    · exact .inr ⟨hx, rfl, rfl, rfl, rfl⟩
  · rcases hra with hra | hra <;> rw [hra] <;> rfl
  · rcases hre with hre | hre <;> rw [hre] <;> rfl

end States

/-! ### Every reachable pair -/

section Accepted

variable {c : Codec} {x : Config} {a : Action} {now : ℤ}

theorem open_of_working
    (h : x.1.phase ∈ [Phase.local_, .staging, .ready, .submitting, .submitted]) :
    x.1.phase.open_ := by
  simp only [List.mem_cons, List.not_mem_nil, or_false] at h
  rcases h with h | h | h | h | h <;> simp [Phase.open_, h]

theorem not_closed_of_open {p : Phase} (h : p.open_) :
    p ∉ [Phase.rejected, .collectible, .failed, .prevented] := by
  obtain ⟨hrejected, hfailed, hcollectible, -, hprevented⟩ := h
  simp [hrejected, hfailed, hcollectible, hprevented]

theorem Coupled.fault_ok (h : Coupled c.toCodec x) (hadm : admissible c x.1 x.2 now = true)
    {code : ErrorCode} {p : Problem} (hk : a.kind = .fault) (hcode : a.code = some code)
    (hp : problem code x.1.submitStarted = some p)
    (hreason : a.reason = "" ∨ validReason a.reason = true)
    (hcause : a.cause = "" ∨ validReason a.cause = true)
    (hphase : x.1.phase ∈ [Phase.local_, .staging, .ready, .submitting, .submitted]) :
    ∃ r, apply c x.1 x.2 a now = .ok r := by
  have hopen := open_of_working hphase
  have hnow := (admissible_iff.mp hadm).2.2.1
  obtain ⟨q, name, hclean, hname, hstep⟩ :=
    step_fault c x.2 now hk hcode hp hopen hreason hcause
  by_cases hplan : x.1.plan = none
  · rw [if_pos (by simp [hplan])] at hstep
    refine ⟨_, apply_eq_ok hadm hstep (valid_localFault x.2 code h.journal hnow hname hclean hplan)
      ?_⟩
    cases h.stage with
    | unplanned _ _ orchestration state => exact state.moves_localFault h.state orchestration ..
    | staging _ plan => exact absurd hplan plan
    | lost _ started | bound _ started | gone _ started =>
      rw [unstarted_of_unplanned h.journal hplan] at started
      cases started
    | closed phase => exact absurd phase (not_closed_of_open hopen)
  · rw [if_neg (by simpa using hplan)] at hstep
    refine ⟨_, apply_eq_ok hadm hstep (valid_remoteFault x.2 code h.journal hnow hname hclean hplan)
      ?_⟩
    cases h.stage with
    | unplanned _ plan => exact absurd plan hplan
    | staging _ _ started orchestration state =>
      rw [if_neg hopen.2.2.2.1] at orchestration
      exact state.moves_remoteFault h.state orchestration started ..
    | lost _ started _ state => exact state.moves_remoteFault h.state started ..
    | bound _ started _ state => exact state.moves_remoteFault h.state started ..
    | gone phase => exact absurd phase hopen.2.2.2.1
    | closed phase => exact absurd phase (not_closed_of_open hopen)

theorem step_ended {j : Journal} {s : AttemptState} {obs : Observation} {r : RemoteReference}
    (hk : a.kind = .observationSeen) (hoffer : a.observation = some obs)
    (hphase : j.phase = .submitted) (hr : j.remote = some r) (hobs : obs.validate r = true)
    (ht : obs.execution.terminal = true)
    (hlater : ∀ o, j.observation = some o → o.observedAt < obs.observedAt)
    (hpast : obs.observedAt ≤ now) (hm : s.Moves (observedState s obs)) :
    step c j s a now = .ok ⟨{ j with
      phase := .collectible
      observation := some { obs with rawState := executionText obs.execution }
      problem := none, failures := 0 }, observedState s obs, .executionObserved⟩ := by
  have hu : obs.execution ≠ .unknown := by
    intro h
    simp [h, ExecutionState.terminal] at ht
  have hstale : ¬(now < obs.observedAt ∨
      j.observation.any (fun o => obs.observedAt ≤ o.observedAt) = true) := by
    rintro (h | h)
    · omega
    · obtain ⟨o, ho, hle⟩ := (Option.any_eq_true ..).mp h
      have := hlater o ho
      simp only [decide_eq_true_eq] at hle
      omega
  have hmove := (AttemptState.moves_iff s (observedState s obs)).mpr hm
  simp only [step, hk, observationSeen, hr, hoffer]
  rw [if_neg (by simp [hphase, hobs]), if_neg hstale, if_neg (by simp [hmove])]
  simp [ht, hu]

theorem Coupled.ended_ok (h : Coupled c.toCodec x) (hadm : admissible c x.1 x.2 now = true)
    {obs : Observation} {r : RemoteReference} (hk : a.kind = .observationSeen)
    (hoffer : a.observation = some obs) (hphase : x.1.phase = .submitted)
    (hr : x.1.remote = some r) (hobs : obs.validate r = true)
    (ht : obs.execution.terminal = true)
    (hlater : ∀ o, x.1.observation = some o → o.observedAt < obs.observedAt)
    (hpast : obs.observedAt ≤ now)
    (hrel : validateTransition x.2.releaseEvidence obs.releaseEvidence releaseEvidenceTransitions =
      true) : ∃ j t e, apply c x.1 x.2 a now = .ok (j, t, e) ∧ j.phase = .collectible := by
  have hb := (h.stage.of_submitted hphase).2.2
  have hm := hb.moves_ended h.state hobs ht hrel
  exact ⟨_, _, _, apply_eq_ok hadm (step_ended hk hoffer hphase hr hobs ht hlater hpast hm)
    (valid_ended h.journal hphase hr hobs ht) hm, rfl⟩

theorem validate_absenceProblem (t : ℤ) : (absenceProblem t).validate = true := by
  have hbase : (((Provider.problem .remoteExecutionUnresolved .operation
      "The exact remote resource is absent; final execution outcome and results remain unknown"
        ).withRetrySemantics false true).withRecommendedAction .inspectProvider).validate =
          true := by decide
  exact Problem.validate_withDetail (Problem.validate_withDetail hbase
    (show Text.blank reasonDetail = false by decide) "remote_not_found")
    (show Text.blank remoteAbsenceDetail = false by decide) _

theorem Coupled.vanished_ok (h : Coupled c.toCodec x) (hadm : admissible c x.1 x.2 now = true)
    {absence : RemoteAbsence} (hk : a.kind = .remoteAbsenceSeen)
    (hoffer : a.absence = some absence) (hphase : x.1.phase = .submitted)
    (hr : x.1.remote = some absence.remote) (htime : validTime absence.observedAt = true)
    (hlater : ∀ o, x.1.observation = some o → o.observedAt < absence.observedAt)
    (hpast : absence.observedAt ≤ now) :
    ∃ j t e, apply c x.1 x.2 a now = .ok (j, t, e) ∧ j.phase = .attention ∧
      j.remoteAbsence = some absence := by
  have hb := (h.stage.of_submitted hphase).2.2
  have hguard : ¬(x.1.phase ≠ .submitted ∨ absence.remote ≠ absence.remote ∨
      (!validTime absence.observedAt) = true ∨ now < absence.observedAt ∨
      x.1.observation.any (fun o => absence.observedAt ≤ o.observedAt) = true) := by
    rintro (hc | hc | hc | hc | hc)
    · exact hc hphase
    · exact hc rfl
    · simp [htime] at hc
    · omega
    · obtain ⟨o, ho, hle⟩ := (Option.any_eq_true ..).mp hc
      have := hlater o ho
      simp only [decide_eq_true_eq] at hle
      omega
  have hstep : step c x.1 x.2 a now = .ok ⟨{ x.1 with
      phase := .attention, problem := some (absenceProblem absence.observedAt) }, { x.2 with
        orchestration := .needsAttention, execution := .unknown
        remoteActivity := .inactive, releaseEvidence := .providerReported
        cancellation := if cancellationPending x.2 then .manual else x.2.cancellation },
      .reconciliationDeferred⟩ := by
    simp only [step, hk, remoteAbsenceSeen, hr, hoffer]
    rw [if_neg hguard]
  have hreport : (absenceProblem absence.observedAt).detail remoteAbsenceDetail =
      Rfc3339.formatNano absence.observedAt := Problem.detail_withDetail ..
  have hreason : (absenceProblem absence.observedAt).detail reasonDetail = "remote_not_found" :=
    (Problem.detail_withDetail_of_ne _ _ (by decide)).trans (Problem.detail_withDetail ..)
  have hlocal : (absenceProblem absence.observedAt).detail localFailureDetail = "" :=
    (Problem.detail_withDetail_of_ne _ _ (by decide)).trans
      (Problem.detail_withDetail_of_ne _ _ (by decide))
  refine ⟨_, _, _, apply_eq_ok hadm hstep (valid_vanished h.journal hphase hr
    (validate_absenceProblem _) rfl hreason hlocal htime hreport) (hb.moves_vanished h.state), rfl,
    ?_⟩
  exact remoteAbsence_committed hr rfl rfl rfl hreason htime hreport

end Accepted

/-- **Recovery actions are accepted.** In every pair reachable from a new attempt, at a valid time
and below the limits on the version and the size: a fault with a known code and closed reasons is
committed in each working phase; in phase `submitted` a terminal observation of the recorded remote,
later than the last one and not from the future, whose evidence the current one leads to, makes the
journal collectible, and an absence report of the recorded remote under the same condition, at a
valid time, is recorded and hands the journal to the operator. -/
theorem recovery_accepted (c : Codec) (ls : List Control) (a : Action) (now : ℤ) :
    let x := Run.run (control c) initialConfig ls
    validTime now = true → x.1.version ≠ maxInt64 →
    (∃ n, c.journalBytes x.1 = some n ∧ n ≤ maxJournalBytes) →
    (∀ code, a.kind = .fault → a.code = some code → problem code x.1.submitStarted ≠ none →
      (a.reason = "" ∨ validReason a.reason = true) →
      (a.cause = "" ∨ validReason a.cause = true) →
      x.1.phase ∈ [Phase.local_, .staging, .ready, .submitting, .submitted] →
      ∃ r, apply c x.1 x.2 a now = .ok r) ∧
    (∀ obs r, a.kind = .observationSeen → a.observation = some obs → x.1.phase = .submitted →
      x.1.remote = some r → obs.validate r = true → obs.execution.terminal = true →
      (∀ o, x.1.observation = some o → o.observedAt < obs.observedAt) → obs.observedAt ≤ now →
      validateTransition x.2.releaseEvidence obs.releaseEvidence releaseEvidenceTransitions =
        true →
      ∃ j t e, apply c x.1 x.2 a now = .ok (j, t, e) ∧ j.phase = .collectible) ∧
    (∀ absence, a.kind = .remoteAbsenceSeen → a.absence = some absence → x.1.phase = .submitted →
      x.1.remote = some absence.remote → validTime absence.observedAt = true →
      (∀ o, x.1.observation = some o → o.observedAt < absence.observedAt) →
      absence.observedAt ≤ now →
      ∃ j t e, apply c x.1 x.2 a now = .ok (j, t, e) ∧ j.phase = .attention ∧
        j.remoteAbsence = some absence) := by
  intro x hnow hversion hsize
  have h : Coupled c.toCodec x := run_coupled c ls
  have hadm : admissible c x.1 x.2 now = true :=
    admissible_iff.mpr ⟨h.journal, h.state, hnow, hversion, hsize⟩
  refine ⟨?_, ?_, ?_⟩
  · intro code hk hcode hknown hreason hcause hphase
    obtain ⟨p, hp⟩ := Option.ne_none_iff_exists'.mp hknown
    exact h.fault_ok hadm hk hcode hp hreason hcause hphase
  · intro obs r hk hoffer hphase hr hobs ht hlater hpast hrel
    exact h.ended_ok hadm hk hoffer hphase hr hobs ht hlater hpast hrel
  · intro absence hk hoffer hphase hr htime hlater hpast
    exact h.vanished_ok hadm hk hoffer hphase hr htime hlater hpast

/-- The sample with its submission accepted and a cancellation asked for. -/
def sampleAccepted : List Control :=
  sampleSubmission.map (fun l => .act l.1 l.2) ++
    [.act { kind := .submissionSeen,
            submission := some { status := .accepted, remote := some sampleRemote } } 0,
     .cancel false 0]

/-- The remote of the sample is gone. -/
def sampleVanished (t : ℤ) : Action :=
  { kind := .remoteAbsenceSeen, absence := some ⟨sampleRemote, t⟩ }

theorem recovery_of_vanished_sample :
    let x := Run.run (control sampleCodec) initialConfig sampleAccepted
    ∃ j t e, apply sampleCodec x.1 x.2 (sampleVanished 5) 5 = .ok (j, t, e) ∧
      j.phase = .attention ∧ j.remoteAbsence = some ⟨sampleRemote, 5⟩ := by
  have h := recovery_accepted sampleCodec sampleAccepted (sampleVanished 5) 5
  have hrun : ∀ x, Run.run (control sampleCodec) initialConfig sampleAccepted = x →
      x.1.version ≠ maxInt64 ∧ x.1.phase = .submitted ∧ x.1.remote = some sampleRemote ∧
        x.1.observation = none := by
    rintro x rfl
    decide +kernel
  generalize Run.run (control sampleCodec) initialConfig sampleAccepted = x at h hrun ⊢
  obtain ⟨hversion, hphase, hremote, hobs⟩ := hrun x rfl
  refine (h (by decide) hversion ⟨4096, rfl, by decide⟩).2.2 ⟨sampleRemote, 5⟩ rfl rfl hphase
    hremote (by decide) ?_ (by decide)
  intro o ho
  rw [hobs] at ho
  cases ho

/-- **An absence report that is refused.** Before the first observation every time is later than the
last one, and a report dated before 1970 is a conflict. -/
theorem recovery_refused_before_epoch :
    let x := Run.run (control sampleCodec) initialConfig sampleAccepted
    validTime 5 = true ∧ x.1.version ≠ maxInt64 ∧
      (sampleCodec.journalBytes x.1).any (· ≤ maxJournalBytes) = true ∧
      x.1.phase = .submitted ∧ x.1.remote = some sampleRemote ∧ x.1.observation = none ∧
      (-1 : ℤ) ≤ 5 ∧
      apply sampleCodec x.1 x.2 (sampleVanished (-1)) 5 = .error .conflict := by
  decide +kernel

end Dispatch
end ComputeRelay
