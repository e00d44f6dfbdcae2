import Mathlib.Tactic

/-!
# The civil calendar

Days are counted from 1970-01-01 in the proleptic Gregorian calendar.

* `daysBeforeYear y` is the day number of January 1 of year `y`; `yearOfDay` inverts it by an
  estimate that is at most one year off.
* `civilOfDay` splits a day number into year, month and day of month and `dayOfCivil` puts it
  together again: `dayOfCivil_civilOfDay`.
* `civilOfDay_proper` says that the split is a date of the calendar, leap days included.
-/

namespace Civil

/-- The day number of January 1 of year `y`. -/
def daysBeforeYear (y : ℤ) : ℤ :=
  365 * (y - 1) + (y - 1) / 4 - (y - 1) / 100 + (y - 1) / 400 - 719162

/-- The Gregorian leap rule. -/
def leap (y : ℤ) : Bool := y % 4 = 0 ∧ (y % 100 ≠ 0 ∨ y % 400 = 0)

/-- Passing to the next year moves a floor quotient exactly at the multiples. -/
theorem ediv_eq_pred_ediv_add (y : ℤ) {k : ℤ} (hk : 0 < k) :
    y / k = (y - 1) / k + (if y % k = 0 then 1 else 0) := by
  split_ifs with h
  · obtain ⟨c, rfl⟩ := Int.dvd_of_emod_eq_zero h
    rw [Int.mul_ediv_cancel_left c hk.ne', show k * c - 1 = k * (c - 1) + (k - 1) by ring,
      Int.mul_add_ediv_left _ _ hk.ne', Int.ediv_eq_zero_of_lt (by omega) (by omega)]
    ring
  · have hlt := Int.emod_lt_of_pos y hk
    have hpos := Int.emod_nonneg y hk.ne'
    have hy : y - 1 = k * (y / k) + (y % k - 1) := by
      have := Int.mul_ediv_add_emod y k
      linarith
    rw [hy, Int.mul_add_ediv_left _ _ hk.ne',
      Int.ediv_eq_zero_of_lt (a := y % k - 1) (by omega) (by omega)]
    ring

theorem daysBeforeYear_succ (y : ℤ) :
    daysBeforeYear (y + 1) = daysBeforeYear y + 365 + (if leap y then 1 else 0) := by
  have h4 := ediv_eq_pred_ediv_add y (k := 4) (by norm_num)
  have h100 := ediv_eq_pred_ediv_add y (k := 100) (by norm_num)
  have h400 := ediv_eq_pred_ediv_add y (k := 400) (by norm_num)
  have hd1 : y % 100 = 0 → y % 4 = 0 := by omega
  have hd2 : y % 400 = 0 → y % 100 = 0 := by omega
  simp only [daysBeforeYear, leap, add_sub_cancel_right, h4, h100, h400, decide_eq_true_eq]
  by_cases c4 : y % 4 = 0 <;> by_cases c100 : y % 100 = 0 <;> by_cases c400 : y % 400 = 0 <;>
    simp_all <;> ring

/-- The year that contains day `z`. -/
def yearOfDay (z : ℤ) : ℤ :=
  let y := (z + 719162) * 400 / 146097 + 1
  if daysBeforeYear (y + 1) ≤ z then y + 1 else y

theorem daysBeforeYear_yearOfDay (z : ℤ) :
    daysBeforeYear (yearOfDay z) ≤ z ∧ z < daysBeforeYear (yearOfDay z + 1) := by
  unfold yearOfDay
  dsimp only
  split_ifs with h
  · refine ⟨h, ?_⟩
    rw [daysBeforeYear_succ]
    unfold daysBeforeYear at *
    split_ifs <;> omega
  · refine ⟨?_, not_le.mp h⟩
    unfold daysBeforeYear
    omega

theorem daysBeforeYear_strictMono : StrictMono daysBeforeYear := by
  refine strictMono_int_of_lt_succ fun y => ?_
  rw [daysBeforeYear_succ]
  split_ifs <;> omega

/-- A day belongs to year `y` or a later one from January 1 of `y` on. -/
theorem le_yearOfDay_iff (y z : ℤ) : y ≤ yearOfDay z ↔ daysBeforeYear y ≤ z := by
  obtain ⟨hlo, hhi⟩ := daysBeforeYear_yearOfDay z
  constructor
  · intro h
    exact (daysBeforeYear_strictMono.monotone h).trans hlo
  · intro h
    have hlt := daysBeforeYear_strictMono.lt_iff_lt.mp (h.trans_lt hhi)
    omega

/-! ### Months -/

/-- The lengths of the months of a year. -/
def monthLengths (lp : Bool) : List ℕ :=
  [31, if lp then 29 else 28, 31, 30, 31, 30, 31, 31, 30, 31, 30, 31]

theorem monthLengths_sum (lp : Bool) : (monthLengths lp).sum = 365 + (if lp then 1 else 0) := by
  cases lp <;> rfl

/-- Walk along consecutive spans: the span that contains position `n` and the rest within it. -/
def locate : List ℕ → ℕ → ℕ × ℕ
  | [], n => (0, n)
  | l :: ls, n => if n < l then (0, n) else ((locate ls (n - l)).1 + 1, (locate ls (n - l)).2)

/-- The rest lies within the span found, and the spans before it make up the difference. -/
theorem locate_spec (ls : List ℕ) {n : ℕ} (h : n < ls.sum) :
    (locate ls n).1 < ls.length ∧ (locate ls n).2 < ls.getD (locate ls n).1 0 ∧
      (ls.take (locate ls n).1).sum + (locate ls n).2 = n := by
  induction ls generalizing n with
  | nil => simp at h
  | cons l ls ih =>
    simp only [locate]
    split_ifs with hl
    · simpa using hl
    · have hn : n - l < ls.sum := by
        rw [List.sum_cons] at h
        omega
      obtain ⟨h1, h2, h3⟩ := ih hn
      refine ⟨by simpa using h1, by simpa using h2, ?_⟩
      simp only [List.take_succ_cons, List.sum_cons]
      omega

/-- The number of days of month `m`, counted from 1; a month off the calendar has none. -/
def daysIn (lp : Bool) (m : ℕ) : ℕ := (monthLengths lp).getD (m - 1) 0

theorem daysIn_le (lp : Bool) {m : ℕ} (hm : m - 1 < 12) : daysIn lp m ≤ 31 := by
  unfold daysIn
  generalize m - 1 = k at hm
  interval_cases k <;> cases lp <;> decide

/-! ### Dates -/

structure Date where
  year : ℤ
  month : ℕ
  day : ℕ
  deriving DecidableEq

/-- The days of the calendar. -/
def Date.Proper (c : Date) : Prop :=
  1 ≤ c.month ∧ c.month ≤ 12 ∧ 1 ≤ c.day ∧ c.day ≤ daysIn (leap c.year) c.month

instance (c : Date) : Decidable c.Proper := inferInstanceAs (Decidable (_ ∧ _ ∧ _ ∧ _))

/-- The date of a day number. -/
def civilOfDay (z : ℤ) : Date :=
  let y := yearOfDay z
  let p := locate (monthLengths (leap y)) (z - daysBeforeYear y).toNat
  ⟨y, p.1 + 1, p.2 + 1⟩

/-- The day number of a date. -/
def dayOfCivil (c : Date) : ℤ :=
  daysBeforeYear c.year + ((monthLengths (leap c.year)).take (c.month - 1)).sum + (c.day - 1)

@[simp] theorem civilOfDay_year (z : ℤ) : (civilOfDay z).year = yearOfDay z := rfl

theorem yearDay_lt (z : ℤ) :
    (z - daysBeforeYear (yearOfDay z)).toNat < (monthLengths (leap (yearOfDay z))).sum := by
  obtain ⟨hlo, hhi⟩ := daysBeforeYear_yearOfDay z
  rw [daysBeforeYear_succ] at hhi
  rw [monthLengths_sum]
  split_ifs at hhi ⊢ <;> omega

theorem dayOfCivil_civilOfDay (z : ℤ) : dayOfCivil (civilOfDay z) = z := by
  have hlo := (daysBeforeYear_yearOfDay z).1
  have hsum := (locate_spec _ (yearDay_lt z)).2.2
  simp only [dayOfCivil, civilOfDay, Nat.add_sub_cancel, Nat.cast_add, Nat.cast_one]
  omega

theorem civilOfDay_proper (z : ℤ) : (civilOfDay z).Proper := by
  obtain ⟨hidx, hday, -⟩ := locate_spec _ (yearDay_lt z)
  have hlen : (monthLengths (leap (yearOfDay z))).length = 12 := rfl
  refine ⟨Nat.le_add_left _ _, by simpa [civilOfDay, hlen] using hidx, Nat.le_add_left _ _, ?_⟩
  simpa [civilOfDay, daysIn] using hday

example : civilOfDay 19782 = ⟨2024, 2, 29⟩ := by decide

end Civil
