import Mathlib.Tactic
import ComputeRelay.Scheduler.Capacity

/-!
# The clock of the store

`Store.write` of `internal/store/sqlite/clock.go`: every transaction samples the wall clock once it
owns the writer slot, never takes a time below the persisted floor, and persists the floor for the
next one, in milliseconds rounded up. A transaction that fails is rolled back with its floor.

`commits_sorted` is the main result: whatever the wall clock reads, the times of the committed
transactions never decrease.
-/

namespace ComputeRelay
namespace Store

open Scheduler

/-- The errors of the store and of the ports it implements. -/
inductive Err
  | invalid | corrupt | conflict
  | schedulerInvalid | leaseLost | phaseGate
  | collectionLeaseLost | cleanupLeaseLost
  | dispatchInvalid | dispatchConflict | staleObservation | policy
  | expired | gateRequest | gateState | gateConflict | inputs
  | secretRequest | secretNotFound | secretConflict | secretState | secretUnavailable
  | operationState | changed | unresolved | collectionInvalid | notFound | busy | uncollected
  | cacheInvalid | cacheConflict | cacheUnknown | storageIneligible | imageState | digestMismatch
  | storageUnknown | storageHardLimit | storageInvalid
  | retentionInvalid | pinned | releaseConflict
  deriving DecidableEq

/-- Nanoseconds of a millisecond. -/
def milli : ℤ := 1000000

/-- `Time.UnixMilli`. -/
def unixMilli (t : ℤ) : ℤ := t / milli

/-- `time.UnixMilli`. -/
def ofMilli (n : ℤ) : ℤ := n * milli

theorem ofMilli_le_iff {n t : ℤ} : ofMilli n ≤ t ↔ n ≤ unixMilli t :=
  (Int.le_ediv_iff_mul_le (by decide)).symm

/-- A stored expiry is compared in Go with the nanosecond clock, in SQL with its milliseconds; the
two comparisons agree. -/
theorem lt_ofMilli_iff {n t : ℤ} : t < ofMilli n ↔ unixMilli t < n := by
  rw [← not_le, ofMilli_le_iff, not_le]

theorem unixMilli_mono {t u : ℤ} (h : t ≤ u) : unixMilli t ≤ unixMilli u :=
  Int.ediv_le_ediv (by decide) h

/-- The floor for the next transaction. -/
def nextFloor (now : ℤ) : ℤ :=
  unixMilli now + if now % milli ≠ 0 then 1 else 0

/-- The floor rounds up, so it never understates a write of full precision. -/
theorem le_ofMilli_nextFloor (now : ℤ) : now ≤ ofMilli (nextFloor now) := by
  have hdiv : milli * (now / milli) + now % milli = now := Int.mul_ediv_add_emod now milli
  have hlt : now % milli < milli := Int.emod_lt_of_pos now (by decide)
  simp only [ofMilli, nextFloor, unixMilli, milli] at *
  split_ifs <;> omega

/-- `Store.write`, up to the transaction's own work: the time it hands over and the floor it
persists. -/
def write (floor wall : ℤ) : Except Err (ℤ × ℤ) :=
  if !validTime wall then .error .schedulerInvalid
  else if floor < 0 then .error .corrupt
  else
    let now := max wall (ofMilli floor)
    if !validTime (ofMilli (nextFloor now)) then .error .schedulerInvalid
    else .ok (now, nextFloor now)

theorem write_eq_ok {floor wall now next : ℤ} (h : write floor wall = .ok (now, next)) :
    ofMilli floor ≤ now ∧ wall ≤ now ∧ next = nextFloor now ∧ validTime now = true := by
  simp only [write] at h
  split_ifs at h with hwall hfloor hnext
  simp only [Except.ok.injEq, Prod.mk.injEq] at h
  obtain ⟨rfl, rfl⟩ := h
  refine ⟨le_max_right .., le_max_left .., rfl, ?_⟩
  have h1 := (validTime_iff _).mp (by simpa using hwall)
  have h2 := (validTime_iff _).mp (by simpa using hnext)
  have h3 := le_ofMilli_nextFloor (max wall (ofMilli floor))
  exact (validTime_iff _).mpr ⟨h1.1.trans (le_max_left ..), h3.trans_lt h2.2⟩

theorem nextFloor_nonneg {now : ℤ} (h : 0 ≤ now) : 0 ≤ nextFloor now := by
  have hdiv : 0 ≤ unixMilli now := Int.ediv_nonneg h (by decide)
  unfold nextFloor
  split_ifs <;> omega

theorem floor_le_of_write {floor wall now next : ℤ} (h : write floor wall = .ok (now, next)) :
    floor ≤ next := by
  obtain ⟨hle, -, rfl, -⟩ := write_eq_ok h
  have := hle.trans (le_ofMilli_nextFloor now)
  simp only [ofMilli, milli] at this
  omega

/-- A reader with an older floor takes a time of the store as it is. -/
theorem write_again {floor own wall now next : ℤ} (h : write floor wall = .ok (now, next))
    (h0 : 0 ≤ own) (hown : own ≤ floor) : write own now = .ok (now, next) := by
  obtain ⟨hle, -, rfl, hv⟩ := write_eq_ok h
  have hmax : max now (ofMilli own) = now :=
    max_eq_left ((mul_le_mul_of_nonneg_right hown (by decide)).trans hle)
  simp only [write] at h ⊢
  split_ifs at h with hwall hfloor hnext
  simp only [Except.ok.injEq, Prod.mk.injEq] at h
  rw [h.1] at hnext
  simp [hv, h0, hmax, hnext]

/-- One transaction: the reading of the wall clock, and whether the work behind it succeeds. -/
structure Transaction where
  wall : ℤ
  succeeds : Bool

/-- The times of the committed transactions, from a persisted floor. -/
def commits : ℤ → List Transaction → List ℤ
  | _, [] => []
  | floor, tx :: txs =>
    match write floor tx.wall with
    | .error _ => commits floor txs
    | .ok (now, next) => if tx.succeeds then now :: commits next txs else commits floor txs

theorem floor_le_of_mem_commits {floor t : ℤ} {txs : List Transaction}
    (h : t ∈ commits floor txs) : ofMilli floor ≤ t := by
  induction txs generalizing floor with
  | nil => cases h
  | cons tx txs ih =>
    unfold commits at h
    split at h
    · exact ih h
    · rename_i now next hw
      obtain ⟨hle, -, rfl, -⟩ := write_eq_ok hw
      split_ifs at h
      · rcases List.mem_cons.mp h with rfl | h
        · exact hle
        · exact hle.trans ((le_ofMilli_nextFloor now).trans (ih h))
      · exact ih h

/-- Committed transactions see times that never decrease, for arbitrary readings of the clock. -/
theorem commits_sorted (floor : ℤ) (txs : List Transaction) :
    (commits floor txs).Pairwise (· ≤ ·) := by
  induction txs generalizing floor with
  | nil => exact List.Pairwise.nil
  | cons tx txs ih =>
    unfold commits
    split
    · exact ih floor
    · rename_i now next hw
      obtain ⟨-, -, rfl, -⟩ := write_eq_ok hw
      split_ifs
      · refine List.pairwise_cons.mpr ⟨fun t ht => ?_, ih _⟩
        exact (le_ofMilli_nextFloor now).trans (floor_le_of_mem_commits ht)
      · exact ih floor

end Store
end ComputeRelay
