import Mathlib.Tactic
import ComputeRelay.Lib.Fallible
import ComputeRelay.Lib.Run
import ComputeRelay.Dispatch.OneShot
import ComputeRelay.Dispatch.Validity
import ComputeRelay.Dispatch.Release

/-!
# The budget of local failures

A fault before any plan waits for `localFailureBudget` from the first one on. The time of the first
fault is kept in the details of the recorded problem, and the next fault takes it from there.

A refusal of new work writes a problem of its own without that time, so after a refusal the budget
starts again (`refusal_restarts_budget`). In runs in which no refusal meets a recorded time, the
first fault's time stays and every fault behind the budget fails the attempt
(`local_failures_end_in_budget`). What the attempt state is at each step does not matter: others may
change it in between.
-/

namespace ComputeRelay
namespace Dispatch

open Domain Provider Scheduler

/-- Offer an action at a time to the journal of an attempt that is in some state. -/
def offer (c : Codec) (j : Journal) (l : AttemptState × Action × ℤ) : Option Journal :=
  match apply c j l.1 l.2.1 l.2.2 with
  | .ok (next, _, _) => some next
  | .error _ => none

/-- When the first local failure was, as the journal has it. -/
def localFailureStarted (j : Journal) : Option ℤ := journalTime (j.detail localFailureDetail)

section Step

variable {c : Codec} {old j : Journal} {s t : AttemptState} {a : Action} {now : ℤ} {e : EventType}

theorem apply_step (h : apply c old s a now = .ok (j, t, e)) :
    admissible c old s now = true ∧ ∃ d, step c old s a now = .ok d ∧ j = committed d.journal := by
  obtain ⟨hadm, h⟩ := ok_of_guard h
  simp only [Bool.not_eq_true', Bool.not_eq_false] at hadm
  refine ⟨hadm, ?_⟩
  cases hd : step c old s a now with
  | error err =>
    rw [hd] at h
    cases h
  | ok d =>
    rw [hd] at h
    simp only [Except.bind, finish] at h
    split_ifs at h
    cases h
    exact ⟨d, rfl, rfl⟩

theorem offer_eq_some {l : AttemptState × Action × ℤ} (h : offer c old l = some j) :
    ∃ t e, apply c old l.1 l.2.1 l.2.2 = .ok (j, t, e) := by
  unfold offer at h
  split at h
  · next next t e he =>
    cases h
    exact ⟨t, e, he⟩
  · cases h

theorem refuse_started (hk : a.kind = .refuseNewWork) (hp : old.plan = none)
    (h : apply c old s a now = .ok (j, t, e)) : j.plan = none ∧ localFailureStarted j = none := by
  obtain ⟨-, d, hd, rfl⟩ := apply_step h
  simp only [step, hk] at hd
  obtain ⟨-, hd⟩ := ok_of_guard hd
  split at hd
  · cases hd
  · next reason message _ =>
    obtain ⟨-, hd⟩ := ok_of_guard hd
    cases hd
    have hdetail : ∀ p : Problem, p.detail localFailureDetail = "" →
        localFailureStarted (committed { old with problem := some p }) = none := by
      intro p hp
      rw [localFailureStarted, detail_committed rfl (by decide), hp]
      decide
    refine ⟨hp, hdetail _ ?_⟩
    have hreason :
        ((Provider.problem .resourceRequirementUnsatisfied .validation message).withDetail
        reasonDetail reason).detail localFailureDetail = "" := by
      rw [Problem.detail_withDetail_of_ne _ _ (by decide)]
      exact Details.get_empty _
    split_ifs
    · exact hreason
    · rw [Problem.detail_withDetail_of_ne _ _ (by decide)]
      exact hreason

theorem localFault_started (j : Journal) (code : ErrorCode) (p : Problem)
    (hstarted : validTime ((localFailureStarted old).getD now) = true) :
    localFailureStarted (committed (localFault j old s code p now).journal) =
        some ((localFailureStarted old).getD now) ∧
      ((localFailureStarted old).getD now + localFailureBudget ≤ now →
        (localFault j old s code p now).journal.phase = .failed) := by
  have hread : ∀ (j : Journal) (q : Problem), q.detail localFailureDetail =
      Rfc3339.formatNano ((localFailureStarted old).getD now) →
      localFailureStarted (committed { j with problem := some q }) =
        some ((localFailureStarted old).getD now) := by
    intro j q hq
    rw [localFailureStarted, detail_committed rfl (by decide), hq, journalTime_formatNano hstarted]
  unfold localFault
  simp only
  split_ifs with hend hreconcile
  · exact ⟨hread { j with phase := .failed } _ (by simp [localFailureStarted]), fun _ => rfl⟩
  · exact ⟨hread { j with phase := .failed } _ (by simp [localFailureStarted]), fun _ => rfl⟩
  · exact ⟨hread j _ (by simp [localFailureStarted]), fun hle => absurd (.inr hle) hend⟩

theorem validTime_of_localFailureStarted {t : ℤ} (h : localFailureStarted old = some t) :
    validTime t = true := by
  rw [localFailureStarted, journalTime, Option.filter_eq_some_iff] at h
  exact h.2

theorem fault_unplanned {d : Draft} (hp : old.plan = none) (h : fault old s a now = .ok d) :
    ∃ name code p, d = localFault (faultJournal old name now) old s code p now := by
  obtain ⟨-, h⟩ := ok_of_guard h
  split at h
  · cases h
  · next code _ =>
    split at h
    · cases h
    · dsimp only at h
      obtain ⟨q, -, h⟩ := Fallible.bind_eq_ok.mp h
      obtain ⟨r, -, h⟩ := Fallible.bind_eq_ok.mp h
      rw [if_pos (by simp [hp])] at h
      exact ⟨_, code, r, (Except.ok.inj h).symm⟩

/-- A fault without a plan keeps the time of the first one, or is the first one, and fails the
attempt behind the budget. -/
theorem fault_started (hk : a.kind = .fault) (hp : old.plan = none)
    (h : apply c old s a now = .ok (j, t, e)) :
    j.plan = none ∧ localFailureStarted j = some ((localFailureStarted old).getD now) ∧
      ((localFailureStarted old).getD now + localFailureBudget ≤ now → j.phase = .failed) := by
  obtain ⟨hadm, d, hd, rfl⟩ := apply_step h
  have hstarted : validTime ((localFailureStarted old).getD now) = true := by
    cases hold : localFailureStarted old with
    | none => exact (admissible_iff.mp hadm).2.2.1
    | some t => exact validTime_of_localFailureStarted hold
  simp only [step, hk] at hd
  obtain ⟨name, code, p, rfl⟩ := fault_unplanned hp hd
  have hplan : (localFault (faultJournal old name now) old s code p now).journal.plan = none := by
    obtain ⟨q, hd | hd⟩ := localFault_cases (faultJournal old name now) old s code p now <;>
      rw [hd] <;> exact hp
  exact ⟨hplan, localFault_started _ code p hstarted⟩

end Step

/-! ### Runs -/

def isFault (l : AttemptState × Action × ℤ) : Bool := l.2.1.kind = .fault

/-- No refusal of new work comes to a journal that has the time of a local failure. -/
def KeepsStart (j : Journal) (l : AttemptState × Action × ℤ) : Prop :=
  l.2.1.kind = .refuseNewWork → localFailureStarted j = none

instance (j : Journal) (l : AttemptState × Action × ℤ) : Decidable (KeepsStart j l) :=
  inferInstanceAs (Decidable (_ → _))

/-- The journal has the time of the first accepted fault. -/
structure Since (hist : List (AttemptState × Action × ℤ)) (j : Journal) : Prop where
  plan : j.plan = none
  started : localFailureStarted j = (hist.find? isFault).map (·.2.2)

theorem since_local : Since [] localJournal := ⟨rfl, by decide⟩

theorem Since.offer {c : Codec} {hist : List (AttemptState × Action × ℤ)} {j next : Journal}
    {l : AttemptState × Action × ℤ} (h : Since hist j) (hkeep : KeepsStart j l)
    (hkind : l.2.1.kind = .fault ∨ l.2.1.kind = .refuseNewWork) (hnext : offer c j l = some next) :
    Since (hist ++ [l]) next := by
  obtain ⟨t, e, happ⟩ := offer_eq_some hnext
  rcases hkind with hk | hk
  · obtain ⟨hplan, hstarted, -⟩ := fault_started hk h.plan happ
    refine ⟨hplan, ?_⟩
    rw [hstarted, h.started, List.find?_append]
    cases hist.find? isFault with
    | none => simp [isFault, hk]
    | some first => rfl
  · obtain ⟨hplan, hstarted⟩ := refuse_started hk h.plan happ
    refine ⟨hplan, ?_⟩
    have hnone := (h.started.symm.trans (hkeep hk))
    rw [Option.map_eq_none_iff] at hnone
    rw [hstarted, List.find?_append, hnone]
    simp [isFault, hk]

theorem run_since (c : Codec) (ls : List (AttemptState × Action × ℤ))
    (hkinds : ∀ l ∈ ls, l.2.1.kind = .fault ∨ l.2.1.kind = .refuseNewWork)
    (hkeep : Run.Along (offer c) KeepsStart localJournal ls) :
    Since (Run.accepted (offer c) localJournal ls) (Run.run (offer c) localJournal ls) :=
  Run.along_history (P := Since) since_local (fun _ _ _ _ h hg hnext => h.offer hg.1 hg.2 hnext) ls
    (Run.along_and hkinds hkeep)

/-- The provider cannot be reached. -/
def unreachable : Action := { kind := .fault, code := some .providerUnreachable }

/-- **Local failures end within their budget.** In every run of faults and refusals from a local
journal in which no refusal comes to a journal that has the time of a local failure, the journal
keeps the time of the first accepted fault, and every fault accepted a budget after it leaves the
journal failed. -/
theorem local_failures_end_in_budget (c : Codec) (ls : List (AttemptState × Action × ℤ))
    (hkinds : ∀ l ∈ ls, l.2.1.kind = .fault ∨ l.2.1.kind = .refuseNewWork)
    (hkeep : Run.Along (offer c) KeepsStart localJournal ls) (first : AttemptState × Action × ℤ)
    (hfirst : (Run.accepted (offer c) localJournal ls).find? isFault = some first) :
    let j := Run.run (offer c) localJournal ls
    localFailureStarted j = some first.2.2 ∧
      ∀ s a now next t e, a.kind = .fault → first.2.2 + localFailureBudget ≤ now →
        apply c j s a now = .ok (next, t, e) → next.phase = .failed := by
  intro j
  have hsince := run_since c ls hkinds hkeep
  have hstarted : localFailureStarted j = some first.2.2 := by
    rw [hsince.started, hfirst, Option.map_some]
  refine ⟨hstarted, fun s a now next t e hk hbudget happ => ?_⟩
  refine (fault_started hk hsince.plan happ).2.2 ?_
  rw [hstarted, Option.getD_some]
  exact hbudget

/-- An unreachable provider at the start, and again a budget later. -/
theorem second_unreachable_fails :
    let ls := [(initialAttemptState, unreachable, 0)]
    let j := Run.run (offer sampleCodec) localJournal ls
    localFailureStarted j = some 0 ∧
      ∃ next, offer sampleCodec j (initialAttemptState, unreachable, localFailureBudget) =
        some next ∧
        next.phase = .failed := by
  intro ls j
  have hrun : Run.Along (offer sampleCodec) KeepsStart localJournal ls ∧
      ((Run.accepted (offer sampleCodec) localJournal ls).find? isFault).map (·.2.2) = some 0 ∧
      (offer sampleCodec j (initialAttemptState, unreachable, localFailureBudget)).isSome =
        true := by
    decide +kernel
  obtain ⟨hkeep, hfirst, hsome⟩ := hrun
  obtain ⟨first, hfind, htime⟩ := Option.map_eq_some_iff.mp hfirst
  obtain ⟨next, hnext⟩ := Option.isSome_iff_exists.mp hsome
  obtain ⟨t, e, happ⟩ := offer_eq_some hnext
  obtain ⟨hstarted, hfails⟩ :=
    local_failures_end_in_budget sampleCodec ls (by decide) hkeep first hfind
  rw [htime] at hstarted hfails
  exact ⟨hstarted, next, hnext, hfails _ _ _ _ _ _ rfl (by decide) happ⟩

/-- **The budget starts again.** A refusal between two faults takes away the time of the first one,
and the second one, a whole budget later, leaves the journal local. -/
theorem refusal_restarts_budget :
    let ls := [(initialAttemptState, unreachable, 0),
      (initialAttemptState, { kind := .refuseNewWork }, 5 * Rfc3339.minute)]
    let j := Run.run (offer sampleCodec) localJournal ls
    (Run.accepted (offer sampleCodec) localJournal ls).map (·.2.2) = [0, 5 * Rfc3339.minute] ∧
      localFailureStarted j = none ∧
      ∃ next, offer sampleCodec j (initialAttemptState, unreachable, localFailureBudget) =
        some next ∧
        next.phase = .local_ ∧ localFailureStarted next = some localFailureBudget := by
  intro ls j
  have hrun : (Run.accepted (offer sampleCodec) localJournal ls).map (·.2.2) =
        [0, 5 * Rfc3339.minute] ∧ localFailureStarted j = none ∧
      (offer sampleCodec j (initialAttemptState, unreachable, localFailureBudget)).any (fun next =>
        next.phase = .local_ && localFailureStarted next = some localFailureBudget) = true := by
    decide +kernel
  obtain ⟨haccepted, hlost, hlast⟩ := hrun
  obtain ⟨next, hnext, hphase⟩ := (Option.any_eq_true ..).mp hlast
  rw [Bool.and_eq_true, decide_eq_true_eq, decide_eq_true_eq] at hphase
  exact ⟨haccepted, hlost, next, hnext, hphase⟩

end Dispatch
end ComputeRelay
