import Mathlib.Tactic
import ComputeRelay.Provider.Contract

/-!
# Capacity held by an attempt

`ValidTime` of `internal/scheduler/model.go` and the two predicates of
`internal/scheduler/select.go` that read an attempt state: `localOnly` (safe to reclaim for
preparation) and `holdsAccount` (counts against its account).

The main result is `holdsAccount_mono`: along any permitted move of the state, an attempt that has
released its account never holds it again.
-/

namespace ComputeRelay
namespace Scheduler

open Domain

/-- `ValidTime`: a nonzero time of the years 1970 to 9998. -/
def validTime (t : ℤ) : Bool :=
  t ≠ Provider.zeroTime && 1970 ≤ Rfc3339.year t && Rfc3339.year t < 9999

/-- The valid times are the nanoseconds from the epoch to the start of the year 9999. -/
theorem validTime_iff (t : ℤ) : validTime t = true ↔ 0 ≤ t ∧ t < 253370764800 * Rfc3339.second := by
  have h1970 := Rfc3339.le_year_iff 1970 t
  have h9999 := Rfc3339.le_year_iff 9999 t
  rw [show Civil.daysBeforeYear 1970 * Rfc3339.day = 0 by decide] at h1970
  rw [show Civil.daysBeforeYear 9999 * Rfc3339.day = 253370764800 * Rfc3339.second by decide]
    at h9999
  simp only [validTime, Bool.and_eq_true, decide_eq_true_eq, ne_eq]
  have hzero : Provider.zeroTime < 0 := by decide
  constructor
  · rintro ⟨⟨-, h1⟩, h2⟩
    exact ⟨h1970.mp h1, not_le.mp fun h => absurd (h9999.mpr h) (by omega)⟩
  · rintro ⟨h1, h2⟩
    refine ⟨⟨by omega, h1970.mpr h1⟩, ?_⟩
    by_contra h
    exact absurd (h9999.mp (by omega)) (by omega)

/-- Safe to reclaim for preparation, even when the worker disappeared. -/
def localOnly (s : AttemptState) : Bool :=
  s.validate && !s.deadlineExceeded && s.cancellation = .notRequested &&
  s.execution = .notSubmitted && s.remoteActivity = .notStarted && s.result = .notAvailable &&
  (s.orchestration = .queued || s.orchestration = .preparing || s.orchestration = .blocked)

/-- Independent of worker leases: a potentially active remote execution holds its account. -/
def holdsAccount (s : AttemptState) (barrier : Bool) : Bool :=
  if !s.validate then true
  else if s.remoteActivity = .inactive ∨ (s.orchestration.terminal ∧
      s.execution = .notSubmitted ∧ s.remoteActivity = .notStarted) then false
  else if barrier then true
  else if s.remoteActivity ≠ .notStarted then true
  else match s.orchestration with
    | .dispatching | .submitted | .running | .cancelling | .reconciling | .needsAttention => true
    | _ => s.execution ≠ .notSubmitted

/-- A state that has released its account even behind a dispatch barrier. -/
def Released (s : AttemptState) : Prop :=
  s.remoteActivity = .inactive ∨ (s.orchestration.terminal = true ∧
    s.execution = .notSubmitted ∧ s.remoteActivity = .notStarted)

theorem holdsAccount_barrier_eq_false_iff {s : AttemptState} (hv : s.validate = true) :
    holdsAccount s true = false ↔ Released s := by
  unfold holdsAccount Released
  rw [hv]
  by_cases h : s.remoteActivity = .inactive <;> simp [h]

theorem notSubmitted_of_terminal {s : AttemptState} (hv : s.validate = true)
    (ho : s.orchestration.terminal = true) (hr : s.remoteActivity = .notStarted) :
    s.execution = .notSubmitted := by
  obtain ⟨hact, -, -, -, horch, -⟩ := (AttemptState.validate_iff s).mp hv
  cases he : s.execution <;> cases hs : s.orchestration <;>
    simp_all [AttemptState.activityRule, AttemptState.orchestrationRule,
      OrchestrationState.terminal]

theorem released_of_terminal {s : AttemptState} (hv : s.validate = true)
    (ho : s.orchestration.terminal = true) : Released s := by
  have hterm := ((AttemptState.validate_iff s).mp hv).2.2.2.2.2
  simp only [AttemptState.terminalRule, ho, Bool.not_true, Bool.false_or, Bool.or_eq_true,
    decide_eq_true_eq] at hterm
  rcases hterm with hi | hn
  · exact Or.inl hi
  · exact Or.inr ⟨ho, notSubmitted_of_terminal hv ho hn, hn⟩

/-- Every permitted move keeps a released account released. -/
theorem Released.moves {s t : AttemptState} (h : Released s) (hm : s.Moves t) : Released t := by
  rcases h with hr | ⟨ho, -, -⟩
  · exact Or.inl (hm.inactive hr)
  · exact released_of_terminal hm.next (by rw [hm.orchestration_eq ho]; exact ho)

/-- **Capacity once released is never re-acquired** along permitted moves of the state. -/
theorem holdsAccount_mono {s t : AttemptState} (hm : s.Moves t)
    (h : holdsAccount s true = false) : holdsAccount t true = false := by
  rw [holdsAccount_barrier_eq_false_iff hm.current] at h
  rw [holdsAccount_barrier_eq_false_iff hm.next]
  exact h.moves hm

end Scheduler
end ComputeRelay
