import Mathlib.Tactic

/-!
# Reservations under limits

Rows of a table compete for a resource. `holds` says which of them hold a unit of it, and each
holder brings a limit of its own besides the common cap, so the table `Fits` when the number of
holders is at most the cap and at most every holder's limit.

The rules say how `Fits` is kept: when fewer rows hold (`Fits.mono`), when one row changes without
acquiring (`Fits.set`), when a row that does not hold is added (`Fits.append`), and when a row
acquires behind a test of the room that is left (`Fits.acquire`).
-/

namespace Reservation

variable {ρ : Type*} {cap : ℤ} {lim : ρ → ℤ} {holds : ρ → Bool} {rows : List ρ}

/-- The tightest of the cap and the limits of the holders. -/
def limit (cap : ℤ) (lim : ρ → ℤ) (holds : ρ → Bool) (rows : List ρ) : ℤ :=
  ((rows.filter holds).map lim).foldr min cap

theorem le_foldr_min {n : ℤ} {ls : List ℤ} : n ≤ ls.foldr min cap ↔ n ≤ cap ∧ ∀ l ∈ ls, n ≤ l := by
  induction ls with
  | nil => simp
  | cons l ls ih => simp [ih, and_left_comm]

theorem le_limit_iff {n : ℤ} :
    n ≤ limit cap lim holds rows ↔ n ≤ cap ∧ ∀ r ∈ rows, holds r = true → n ≤ lim r := by
  simp only [limit, le_foldr_min, List.forall_mem_map, List.mem_filter, and_imp]

/-- No more holders than the cap and each of their limits allow. -/
def Fits (cap : ℤ) (lim : ρ → ℤ) (holds : ρ → Bool) (rows : List ρ) : Prop :=
  (rows.countP holds : ℤ) ≤ limit cap lim holds rows

theorem fits_of_idle (hcap : 0 ≤ cap) (h : ∀ r ∈ rows, holds r = false) :
    Fits cap lim holds rows := by
  have hnone : ∀ r ∈ rows, ¬holds r = true := fun r hr => by simp [h r hr]
  refine le_limit_iff.mpr ⟨?_, fun r hr hh => absurd hh (hnone r hr)⟩
  rw [List.countP_eq_zero.mpr hnone]
  exact hcap

/-- Rows that hold nothing do not matter. -/
theorem filter_map_filter {σ : Type*} {f : σ → ρ} {q : σ → Bool} {xs : List σ}
    (h : ∀ x ∈ xs, holds (f x) = true → q x = true) :
    ((xs.filter q).map f).filter holds = (xs.map f).filter holds := by
  rw [List.filter_map, List.filter_map, List.filter_filter]
  refine congrArg (List.map f) (List.filter_congr fun x hx => ?_)
  cases hh : holds (f x) with
  | false => simp [hh]
  | true => simp [hh, h x hx hh]

theorem Fits.mono {holds' : ρ → Bool} (h : Fits cap lim holds rows)
    (hle : ∀ r ∈ rows, holds' r = true → holds r = true) : Fits cap lim holds' rows := by
  obtain ⟨hcap, hlim⟩ := le_limit_iff.mp h
  have hcount : (rows.countP holds' : ℤ) ≤ rows.countP holds := by
    exact_mod_cast List.countP_mono_left hle
  exact le_limit_iff.mpr ⟨hcount.trans hcap, fun r hr hh => hcount.trans (hlim r hr (hle r hr hh))⟩

section Update

variable {r r' : ρ} {i : ℕ}

theorem countP_set_le (h : rows[i]? = some r) (hk : holds r' = true → holds r = true) :
    (rows.set i r').countP holds ≤ rows.countP holds := by
  induction rows generalizing i with
  | nil => cases h
  | cons a as ih =>
    cases i with
    | zero =>
      cases h
      simp only [List.set_cons_zero, List.countP_cons]
      split_ifs with h1 h2
      · exact le_rfl
      · exact absurd (hk h1) h2
      · omega
      · exact le_rfl
    | succ i =>
      simp only [List.set_cons_succ, List.countP_cons]
      exact Nat.add_le_add_right (ih h) _

theorem countP_set_le_succ (rows : List ρ) (i : ℕ) (r' : ρ) :
    (rows.set i r').countP holds ≤ rows.countP holds + 1 := by
  induction rows generalizing i with
  | nil => simp
  | cons a as ih =>
    cases i with
    | zero =>
      simp only [List.set_cons_zero, List.countP_cons]
      split_ifs <;> omega
    | succ i =>
      have := ih i
      simp only [List.set_cons_succ, List.countP_cons]
      omega

/-- One row changes and does not acquire. -/
theorem Fits.set (h : Fits cap lim holds rows) (hi : rows[i]? = some r)
    (hk : holds r' = true → holds r = true ∧ lim r ≤ lim r') :
    Fits cap lim holds (rows.set i r') := by
  obtain ⟨hcap, hlim⟩ := le_limit_iff.mp h
  have hcount : ((rows.set i r').countP holds : ℤ) ≤ rows.countP holds := by
    exact_mod_cast countP_set_le hi fun hr' => (hk hr').1
  refine le_limit_iff.mpr ⟨hcount.trans hcap, fun x hx hh => hcount.trans ?_⟩
  rcases List.mem_or_eq_of_mem_set hx with hx | rfl
  · exact hlim x hx hh
  · obtain ⟨hr, hle⟩ := hk hh
    exact (hlim r (List.mem_of_getElem? hi) hr).trans hle

/-- One row acquires where there is room, also under its own limit. -/
theorem Fits.acquire (room : (rows.countP holds : ℤ) < limit cap lim holds rows)
    (own : (rows.countP holds : ℤ) < lim r') : Fits cap lim holds (rows.set i r') := by
  obtain ⟨hcap, hlim⟩ := le_limit_iff.mp (Int.add_one_le_of_lt room)
  have hcount : ((rows.set i r').countP holds : ℤ) ≤ rows.countP holds + 1 := by
    exact_mod_cast countP_set_le_succ rows i r'
  refine le_limit_iff.mpr ⟨hcount.trans hcap, fun x hx hh => hcount.trans ?_⟩
  rcases List.mem_or_eq_of_mem_set hx with hx | rfl
  · exact hlim x hx hh
  · exact own

theorem Fits.append (h : Fits cap lim holds rows) (hr : holds r = false) :
    Fits cap lim holds (rows ++ [r]) := by
  simpa [Fits, limit, List.filter_append, hr] using h

end Update

end Reservation
