import Mathlib.Tactic
import ComputeRelay.Dispatch.OneShot

/-!
# What a step leaves for the store to record

The store keeps independent records of what a journal has planned, staged, submitted and bound.
`Recorded` sorts the accepted steps by what they do to these fields: one kind of step plans, one
stages, one submits, three report a submission, and all others leave the fields alone.
`apply_recorded` is the inversion the store's invariants are proved with.
-/

namespace ComputeRelay
namespace Dispatch

open Domain Provider Scheduler

/-- The fields the store cross-checks are the same. -/
structure SameRecords (old j : Journal) : Prop where
  plan : j.plan = old.plan
  preparationID : j.preparationID = old.preparationID
  prepared : j.prepared = old.prepared
  submitStarted : j.submitStarted = old.submitStarted
  startAuthorization : j.startAuthorization = old.startAuthorization
  remote : j.remote = old.remote

/-- The steps that report a submission. -/
def Kind.reports (k : Kind) : Prop :=
  k = .submissionSeen ∨ k = .submissionAbsenceSeen ∨ k = .ownerSubmissionAbsent

/-- The reference a step reports. -/
def Action.accepts (a : Action) : Option RemoteReference :=
  if a.kind = .submissionSeen then
    a.submission.bind fun o => if o.status = .accepted then o.remote else none
  else none

/-- The accepted steps by what they record. -/
inductive Recorded (old : Journal) (a : Action) (j : Journal) : Prop
  | kept (plans : a.kind ≠ .beginPreparation) (stages : a.kind ≠ .preparationSeen)
      (submits : a.kind ≠ .beginSubmission) (reports : ¬a.kind.reports)
      (same : SameRecords old j)
      (unrejected : old.submitStarted = true → old.phase ≠ .rejected ∧ j.phase ≠ .rejected)
  | planned (plan : Plan) (kind : a.kind = .beginPreparation) (offer : a.plan = some plan)
      (phase : old.phase = .local_) (fresh : old.plan = none)
      (journal : SameRecords { old with plan := some plan, preparationID := a.preparationID } j)
  | staged (plan : Plan) (p : Prepared) (kind : a.kind = .preparationSeen)
      (offer : a.prepared = some p) (plan_eq : old.plan = some plan)
      (unstarted : old.submitStarted = false)
      (resource : ∀ q, old.prepared = some q → q.resource = p.resource)
      (journal : SameRecords { old with prepared := some p } j)
      (phase : j.phase = .ready → p.ready = true ∧ p.private_ = true)
  | submitted (p : Prepared) (kind : a.kind = .beginSubmission) (phase : old.phase = .ready)
      (unstarted : old.submitStarted = false) (prepared : old.prepared = some p)
      (ready : p.ready = true) (hidden : p.private_ = true)
      (journal : SameRecords { old with
        submitStarted := true
        startAuthorization := if a.startAuthorization.isSome then a.startAuthorization
          else old.startAuthorization } j)
      (phase_eq : j.phase = .submitting)
  | reported (remote : Option RemoteReference) (kind : a.kind.reports)
      (started : old.submitStarted = true) (unbound : old.remote = none)
      (journal : SameRecords { old with remote := remote } j)
      (offer : remote = a.accepts)

namespace Recorded

variable {old j : Journal} {a : Action}

theorem plan_cases (h : Recorded old a j) :
    (a.kind = .beginPreparation ∧ j.plan = a.plan ∧ j.preparationID = a.preparationID ∧
      j.plan.isSome = true) ∨
    (a.kind ≠ .beginPreparation ∧ j.plan = old.plan ∧ j.preparationID = old.preparationID) := by
  cases h with
  | kept plans stages submits reports same => exact Or.inr ⟨plans, same.plan, same.preparationID⟩
  | planned plan kind offer phase fresh journal =>
    exact Or.inl ⟨kind, journal.plan.trans offer.symm,
      journal.preparationID, by simp [journal.plan]⟩
  | staged plan p kind offer plan_eq unstarted resource journal =>
    exact Or.inr ⟨by simp [kind], journal.plan, journal.preparationID⟩
  | submitted p kind phase unstarted prepared ready hidden journal =>
    exact Or.inr ⟨by simp [kind], journal.plan, journal.preparationID⟩
  | reported remote kind started unbound journal =>
    refine Or.inr ⟨?_, journal.plan, journal.preparationID⟩
    rintro hk
    simp [Kind.reports, hk] at kind

theorem prepared_cases (h : Recorded old a j) :
    (a.kind = .preparationSeen ∧ ∃ p, a.prepared = some p ∧ j.prepared = some p) ∨
    (a.kind ≠ .preparationSeen ∧ j.prepared = old.prepared) := by
  cases h with
  | kept plans stages submits reports same => exact Or.inr ⟨stages, same.prepared⟩
  | planned plan kind offer phase fresh journal => exact Or.inr ⟨by simp [kind], journal.prepared⟩
  | staged plan p kind offer plan_eq unstarted resource journal =>
    exact Or.inl ⟨kind, p, offer, journal.prepared⟩
  | submitted p kind phase unstarted prepared ready hidden journal =>
    exact Or.inr ⟨by simp [kind], journal.prepared⟩
  | reported remote kind started unbound journal =>
    refine Or.inr ⟨?_, journal.prepared⟩
    rintro hk
    simp [Kind.reports, hk] at kind

theorem prepared_eq (h : Recorded old a j) (hk : a.kind = .preparationSeen) :
    j.prepared = a.prepared := by
  rcases h.prepared_cases with ⟨-, p, hp, hp'⟩ | ⟨hk', -⟩
  · rw [hp, hp']
  · exact absurd hk hk'

theorem of_accepts {remote : RemoteReference} (h : Recorded old a j)
    (ha : a.accepts = some remote) :
    a.kind = .submissionSeen ∧ j.submitStarted = true ∧ j.remote = some remote := by
  have hkind : a.kind = .submissionSeen := by
    by_contra hne
    simp [Action.accepts, hne] at ha
  cases h with
  | kept _ _ _ reports => exact absurd (.inl hkind) reports
  | planned _ kind | staged _ _ kind | submitted _ kind => simp [hkind] at kind
  | reported _ _ started _ journal offer =>
    exact ⟨hkind, journal.submitStarted.trans started, journal.remote.trans (offer.trans ha)⟩

/-- The reference of a journal is an older one or the one that was reported. -/
theorem remote_cases (h : Recorded old a j) :
    j.remote = old.remote ∨ j.remote = a.accepts := by
  cases h with
  | kept _ _ _ _ same => exact .inl same.remote
  | planned _ _ _ _ _ journal => exact .inl journal.remote
  | staged _ _ _ _ _ _ _ journal => exact .inl journal.remote
  | submitted _ _ _ _ _ _ _ journal => exact .inl journal.remote
  | reported remote _ _ _ journal offer => exact .inr (journal.remote.trans offer)

/-- One kind of step submits, with the authority it is given. -/
theorem submit_cases (h : Recorded old a j) :
    (a.kind = .beginSubmission ∧ j.submitStarted = true ∧
      (a.startAuthorization.isSome = true → j.startAuthorization = a.startAuthorization)) ∨
    (a.kind ≠ .beginSubmission ∧ j.submitStarted = old.submitStarted ∧
      j.startAuthorization = old.startAuthorization) := by
  cases h with
  | kept plans stages submits reports same =>
    exact Or.inr ⟨submits, same.submitStarted, same.startAuthorization⟩
  | planned plan kind offer phase fresh journal =>
    exact Or.inr ⟨by simp [kind], journal.submitStarted, journal.startAuthorization⟩
  | staged plan p kind offer plan_eq unstarted resource journal =>
    exact Or.inr ⟨by simp [kind], journal.submitStarted, journal.startAuthorization⟩
  | submitted p kind phase unstarted prepared ready hidden journal =>
    exact Or.inl ⟨kind, journal.submitStarted,
      fun hs => journal.startAuthorization.trans (if_pos hs)⟩
  | reported remote kind started unbound journal =>
    refine Or.inr ⟨?_, journal.submitStarted, journal.startAuthorization⟩
    rintro hk
    simp [Kind.reports, hk] at kind

end Recorded

section Inversion

variable {c : Codec} {old j : Journal} {s t : AttemptState} {a : Action} {now : ℤ} {e : EventType}
variable {d : Draft}

theorem StepCase.recorded (h : StepCase c old s a now d) :
    Recorded old a (committed d.journal) := by
  cases h with
  | refused _ kind started | prevented kind started | expired _ kind started
  | abandoned _ kind _ _ _ started =>
    refine .kept (by simp [kind]) (by simp [kind]) (by simp [kind]) (by simp [kind, Kind.reports])
      ⟨rfl, rfl, rfl, rfl, rfl, rfl⟩ ?_
    simp [started]
  | reobserved kind _ _ started =>
    refine .kept (by simp [kind]) (by simp [kind]) (by simp [kind]) (by simp [kind, Kind.reports])
      ⟨rfl, rfl, rfl, rfl, rfl, rfl⟩ ?_
    simp [started]
  | reopened j kind journal _ started phase =>
    refine .kept (by simp [kind]) (by simp [kind]) (by simp [kind]) (by simp [kind, Kind.reports])
      ?_ fun _ => ⟨?_, ?_⟩
    · rcases journal with ⟨-, rfl⟩ | ⟨-, -, -, -, -, -, rfl⟩ <;>
        exact ⟨rfl, rfl, rfl, rfl, rfl, rfl⟩
    · rcases phase with hp | hp | hp <;> simp [hp]
    · simp only [committed_phase]
      split_ifs <;> simp
  | intended plan kind offer phase fresh =>
    exact .planned plan kind offer phase fresh ⟨rfl, rfl, rfl, rfl, rfl, rfl⟩
  | exposed plan p kind answer planned phase started valid same =>
    exact .staged plan p kind answer planned started same ⟨rfl, rfl, rfl, rfl, rfl, rfl⟩ (by simp)
  | staged plan p kind answer planned phase started valid same hidden =>
    refine .staged plan p kind answer planned started same ⟨rfl, rfl, rfl, rfl, rfl, rfl⟩ ?_
    intro hp
    by_cases hr : p.ready = true
    · exact ⟨hr, hidden⟩
    · simp [hr, phase] at hp
  | submitted p kind phase started prepared ready hidden =>
    exact .submitted p kind phase started prepared ready hidden ⟨rfl, rfl, rfl, rfl, rfl, rfl⟩ rfl
  | accepted plan o remote kind offer _ started unbound _ _ remote_eq status =>
    exact .reported (some remote) (Or.inl kind) started unbound ⟨rfl, rfl, rfl, rfl, rfl, rfl⟩
      (by simp [Action.accepts, kind, offer, status, remote_eq])
  | rejected plan o p kind offer _ started unbound _ _ status
  | ambiguous plan o p kind offer _ started unbound _ _ status =>
    exact .reported none (Or.inl kind) started unbound ⟨rfl, rfl, rfl, rfl, rfl, unbound⟩
      (by simp [Action.accepts, offer, status])
  | absenceNoted kind _ started unbound | absent _ kind _ started unbound =>
    exact .reported none (Or.inr (Or.inl kind)) started unbound ⟨rfl, rfl, rfl, rfl, rfl, unbound⟩
      (by simp [Action.accepts, kind])
  | disowned kind _ started unbound =>
    exact .reported none (Or.inr (Or.inr kind)) started unbound ⟨rfl, rfl, rfl, rfl, rfl, unbound⟩
      (by simp [Action.accepts, kind])
  | vanished absence p kind _ phase =>
    exact .kept (by simp [kind]) (by simp [kind]) (by simp [kind]) (by simp [kind, Kind.reports])
      ⟨rfl, rfl, rfl, rfl, rfl, rfl⟩ fun _ => ⟨by simp [phase], by simp⟩
  | observed remote obs j t kind _ phase _ _ _ _ _ journal =>
    obtain ⟨p, n, rfl⟩ := journal
    refine .kept (by simp [kind]) (by simp [kind]) (by simp [kind]) (by simp [kind, Kind.reports])
      ⟨rfl, rfl, rfl, rfl, rfl, rfl⟩ fun _ => ⟨by simp [phase], ?_⟩
    simp only [committed_phase]
    split_ifs <;> simp
  | localFault name code p kind _ phase =>
    obtain ⟨q, hd | hd⟩ :=
      localFault_cases (faultJournal old name now) old s code p now <;> rw [hd] <;>
      exact .kept (by simp [kind]) (by simp [kind]) (by simp [kind])
        (by simp [kind, Kind.reports]) ⟨rfl, rfl, rfl, rfl, rfl, rfl⟩
        fun _ => ⟨phase.1, by simp [phase.1]⟩
  | remoteFault name code p plan kind _ phase =>
    rcases remoteFault_cases (faultJournal old name now) old s code p with hd | hd <;> rw [hd] <;>
      exact .kept (by simp [kind]) (by simp [kind]) (by simp [kind])
        (by simp [kind, Kind.reports]) ⟨rfl, rfl, rfl, rfl, rfl, rfl⟩
        fun _ => ⟨phase.1, by simp [phase.1]⟩

/-- **Inversion** for the store: what an accepted action records. -/
theorem apply_recorded (h : apply c old s a now = .ok (j, t, e)) : Recorded old a j := by
  obtain ⟨-, d, hd, rfl, -⟩ := apply_ok h
  exact hd.recorded

theorem apply_version (h : apply c old s a now = .ok (j, t, e)) : j.version = old.version + 1 := by
  obtain ⟨-, d, hd, rfl, -⟩ := apply_ok h
  rw [committed_version, hd.version_eq]

end Inversion

end Dispatch
end ComputeRelay
