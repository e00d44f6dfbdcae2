import Mathlib.Tactic

/-!
# Sorting by a text

Values sorted by a text of theirs, their key. Where no two keys are equal, the sorted list is the
only one: it does not matter how ties would be broken (`eq_sortBy`) nor in which order the values
came (`sortBy_congr`).
-/

namespace KeySort

variable {α : Type} (key : α → String)

def sortBy (l : List α) : List α := l.mergeSort fun a b => decide (key a ≤ key b)

theorem sortBy_perm (l : List α) : (sortBy key l).Perm l := List.mergeSort_perm _ _

theorem pairwise_sortBy (l : List α) : (sortBy key l).Pairwise fun a b => key a ≤ key b := by
  refine (List.pairwise_mergeSort ?_ ?_ l).imp of_decide_eq_true
  · intro a b c hab hbc
    exact decide_eq_true (String.le_trans (of_decide_eq_true hab) (of_decide_eq_true hbc))
  · intro a b
    rw [Bool.or_eq_true, decide_eq_true_eq, decide_eq_true_eq]
    exact String.le_total (key a) (key b)

/-- Keys that do not decrease and differ increase. -/
theorem increasing_of_nodup {l : List α} (h : l.Pairwise fun a b => key a ≤ key b)
    (hnodup : (l.map key).Nodup) : l.Pairwise fun a b => key a < key b := by
  rw [List.nodup_iff_pairwise_ne, List.pairwise_map] at hnodup
  refine (h.and hnodup).imp ?_
  rintro a b ⟨hle, hne⟩
  exact String.not_le.mp fun hge => hne (String.le_antisymm hle hge)

theorem increasing_sortBy {l : List α} (hnodup : (l.map key).Nodup) :
    (sortBy key l).Pairwise fun a b => key a < key b :=
  increasing_of_nodup key (pairwise_sortBy key l)
    (((sortBy_perm key l).map key).nodup_iff.mpr hnodup)

/-- Values in the order of different keys are determined by which they are. -/
theorem eq_of_increasing {l l' : List α} (hperm : l.Perm l')
    (h : l.Pairwise fun a b => key a < key b) (h' : l'.Pairwise fun a b => key a < key b) :
    l = l' :=
  hperm.eq_of_pairwise (fun _ _ _ _ hab hba => absurd hba (String.lt_asymm hab)) h h'

/-- However ties are broken, differing keys leave one sorted list. -/
theorem eq_sortBy {l l' : List α} (hnodup : (l.map key).Nodup) (hperm : l'.Perm l)
    (h' : l'.Pairwise fun a b => key a ≤ key b) : l' = sortBy key l :=
  eq_of_increasing key (hperm.trans (sortBy_perm key l).symm)
    (increasing_of_nodup key h' ((hperm.map key).nodup_iff.mpr hnodup))
    (increasing_sortBy key hnodup)

theorem sortBy_congr {l l' : List α} (hnodup : (l.map key).Nodup) (hperm : l'.Perm l) :
    sortBy key l' = sortBy key l :=
  eq_sortBy key hnodup ((sortBy_perm key l').trans hperm) (pairwise_sortBy key l')

end KeySort
