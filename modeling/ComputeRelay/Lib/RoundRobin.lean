import Mathlib.Tactic

/-!
# Taking turns

Claimants of a linear order are served one at a time, the next one above the last one served, and
the least of all when none is above (`Next`). Who wants a turn may change between turns in any way.

`search_next` says that two searches through an increasing list find the next one.
`served_between` is the fairness of it: nobody is served twice while another one keeps wanting a
turn, unless that other one is served in between.
-/

namespace RoundRobin

variable {α β : Type*} [LinearOrder α]

/-- The least above `last` of those that want a turn, and the least of all if none is above. -/
structure Next (wants : α → Prop) (last u : α) : Prop where
  mem : wants u
  above : ∀ x, wants x → last < x → last < u ∧ u ≤ x
  least : ¬last < u → ∀ x, wants x → u ≤ x

section Search

variable {l : List β} {key : β → α}

/-- A search finds the least there is. -/
theorem le_of_find (h : l.Pairwise fun x y => key x < key y) {p : β → Bool} {x : β}
    (hx : l.find? p = some x) : ∀ y ∈ l, p y = true → key x ≤ key y := by
  obtain ⟨-, as, bs, rfl, has⟩ := List.find?_eq_some_iff_append.mp hx
  intro y hy hp
  rcases List.mem_append.mp hy with hy | hy
  · have := has y hy
    simp [hp] at this
  · rcases List.mem_cons.mp hy with rfl | hy
    · exact le_rfl
    · exact ((List.pairwise_cons.mp (List.pairwise_append.mp h).2.1).1 y hy).le

/-- First those above the last one, then all. -/
theorem search_next (h : l.Pairwise fun x y => key x < key y) {p q : β → Bool} {last : α}
    (hq : ∀ y, q y = true ↔ last < key y ∧ p y = true) {x : β}
    (hx : (l.find? q).or (l.find? p) = some x) :
    Next (fun w => ∃ y ∈ l, p y = true ∧ key y = w) last (key x) := by
  rcases Option.or_eq_some_iff.mp hx with hx | ⟨hnone, hx⟩
  · have hlast := (hq x).mp (List.find?_some hx)
    refine ⟨⟨x, List.mem_of_find?_eq_some hx, hlast.2, rfl⟩, ?_, fun hnot => absurd hlast.1 hnot⟩
    rintro _ ⟨y, hy, hpy, rfl⟩ hlt
    exact ⟨hlast.1, le_of_find h hx y hy ((hq y).mpr ⟨hlt, hpy⟩)⟩
  · refine ⟨⟨x, List.mem_of_find?_eq_some hx, List.find?_some hx, rfl⟩, ?_, ?_⟩
    · rintro _ ⟨y, hy, hpy, rfl⟩ hlt
      exact absurd ((hq y).mpr ⟨hlt, hpy⟩) (List.find?_eq_none.mp hnone y hy)
    · rintro - _ ⟨y, hy, hpy, rfl⟩
      exact le_of_find h hx y hy hpy

end Search

/-- Going up from `w`, and from the top on to the bottom, `c` comes before `v`. -/
def Before (w c v : α) : Prop := if w < v then w ≤ c ∧ c < v else w ≤ c ∨ c < v

theorem before_self (w v : α) : Before w w v := by
  unfold Before
  split_ifs with hlt
  · exact ⟨le_rfl, hlt⟩
  · exact .inl le_rfl

/-- As long as `v` wants a turn and does not get it, the turns stay strictly between `w` and `v`. -/
theorem Next.before {wants : α → Prop} {w c u v : α} (h : Next wants c u) (hv : wants v)
    (hc : Before w c v) (hvw : v ≠ w) (huv : u ≠ v) : Before w u v ∧ u ≠ w := by
  unfold Before at *
  split_ifs at * with hlt
  · obtain ⟨hwc, hcv⟩ := hc
    obtain ⟨hcu, hle⟩ := h.above v hv hcv
    have hwu := hwc.trans_lt hcu
    exact ⟨⟨hwu.le, lt_of_le_of_ne hle huv⟩, hwu.ne'⟩
  · have hvw' : v < w := lt_of_le_of_ne (not_lt.mp hlt) hvw
    by_cases hcu : c < u ∧ w ≤ c
    · have hwu := hcu.2.trans_lt hcu.1
      exact ⟨.inl hwu.le, hwu.ne'⟩
    · -- the turn wraps around, or has done so before
      have hle : u ≤ v := by
        rcases hc with hwc | hcv
        · exact h.least (fun hlt => hcu ⟨hlt, hwc⟩) v hv
        · exact (h.above v hv hcv).2
      have huv' := lt_of_le_of_ne hle huv
      exact ⟨.inr huv', (huv'.trans hvw').ne⟩

/-- **Fairness**: who is served twice while another one keeps wanting a turn, has let that other one
have a turn in between. -/
theorem served_between (served : ℕ → Option α) (cursor : ℕ → α) (wants : ℕ → α → Prop)
    (hcursor : ∀ n, cursor (n + 1) = (served n).getD (cursor n))
    (hnext : ∀ n u, served n = some u → Next (wants n) (cursor n) u) {i j : ℕ} (hij : i < j)
    {w v : α} (hvw : v ≠ w) (hi : served i = some w) (hj : served j = some w)
    (hwants : ∀ k, i < k → k ≤ j → served k ≠ none → wants k v) :
    ∃ k, i < k ∧ k < j ∧ served k = some v := by
  by_contra hnot
  have hnever : ∀ k, i < k → k < j → served k ≠ some v := fun k hik hkj hk => hnot ⟨k, hik, hkj, hk⟩
  -- the cursor stays between `w` and `v` after the first of the two turns
  have hbefore : ∀ k, i < k → k ≤ j → Before w (cursor k) v := by
    intro k hik
    induction k, hik using Nat.le_induction with
    | base =>
      intro _
      rw [hcursor, hi]
      exact before_self w v
    | succ k hik ih =>
      intro hkj
      have hk := ih (by omega)
      rw [hcursor]
      cases hs : served k with
      | none => exact hk
      | some u =>
        have huv : u ≠ v := fun h => hnever k hik (by omega) (h ▸ hs)
        exact ((hnext k u hs).before (hwants k hik (by omega) (by simp [hs])) hk hvw huv).1
  exact ((hnext j w hj).before (hwants j hij le_rfl (by simp [hj])) (hbefore j hij le_rfl) hvw
    hvw.symm).2 rfl

end RoundRobin
