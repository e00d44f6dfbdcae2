import Mathlib.Tactic

/-!
# Tables of largest amounts

A finite map that keeps, for every key, the largest amount that was put under it: `m[k] = max(m[k],
v)`, where a missing key reads zero. The table is an association list, `peak` reads it and `total`
adds up the entries of some keys.

`Adds news m n` says that `n` is `m` with the amounts `news` added under keys of their own: every
total grows by exactly theirs. It comes from raising keys that read zero (`Adds.raiseAll`) and
survives raising any other key (`Adds.raise`).
-/

namespace Peaks

section Total

variable {κ : Type*} {m : List (κ × ℤ)} {w : κ → Bool}

/-- The sum of the entries whose key satisfies `w`. -/
def total (w : κ → Bool) (m : List (κ × ℤ)) : ℤ := (m.map fun e => if w e.1 then e.2 else 0).sum

@[simp] theorem total_nil : total w ([] : List (κ × ℤ)) = 0 := rfl

@[simp] theorem total_cons (e : κ × ℤ) :
    total w (e :: m) = (if w e.1 then e.2 else 0) + total w m := by
  simp [total]

end Total

variable {κ : Type*} [DecidableEq κ]

/-- `m[k] = max(m[k], v)`. -/
def raise (k : κ) (v : ℤ) : List (κ × ℤ) → List (κ × ℤ)
  | [] => [(k, max 0 v)]
  | e :: m => if e.1 = k then (e.1, max e.2 v) :: m else e :: raise k v m

/-- `m[k]`. -/
def peak (k : κ) : List (κ × ℤ) → ℤ
  | [] => 0
  | e :: m => if e.1 = k then e.2 else peak k m

section Raise

variable {m : List (κ × ℤ)} {k j : κ} {v : ℤ} {w : κ → Bool}

theorem peak_raise : peak j (raise k v m) = if j = k then max (peak k m) v else peak j m := by
  induction m with
  | nil =>
    simp only [raise, peak, eq_comm (a := k)]
  | cons e m ih =>
    unfold raise
    by_cases he : e.1 = k
    · rw [if_pos he]
      by_cases hj : j = k
      · simp [peak, he, hj]
      · have hne : e.1 ≠ j := fun h => hj (h.symm.trans he)
        simp [peak, hne, hj]
    · rw [if_neg he]
      by_cases hj : e.1 = j
      · have hjk : j ≠ k := fun h => he (hj.trans h)
        simp [peak, hj, hjk]
      · simp only [peak, hj, if_false, ih, he]

theorem total_raise :
    total w (raise k v m) = total w m + if w k then max (peak k m) v - peak k m else 0 := by
  induction m with
  | nil => simp [raise, peak]
  | cons e m ih =>
    unfold raise
    by_cases he : e.1 = k
    · rw [if_pos he, total_cons, total_cons]
      simp only [peak, he, if_true]
      split <;> ring
    · rw [if_neg he, total_cons, total_cons, ih]
      simp only [peak, he, if_false]
      ring

theorem nonneg_raise (h : ∀ e ∈ m, 0 ≤ e.2) : ∀ e ∈ raise k v m, 0 ≤ e.2 := by
  induction m with
  | nil =>
    intro e he
    rw [List.mem_singleton.mp he]
    exact le_max_left ..
  | cons f m ih =>
    obtain ⟨hf, hm⟩ := List.forall_mem_cons.mp h
    unfold raise
    split_ifs
    · exact List.forall_mem_cons.mpr ⟨hf.trans (le_max_left ..), hm⟩
    · exact List.forall_mem_cons.mpr ⟨hf, ih hm⟩

theorem map_fst_raise : (raise k v m).map Prod.fst =
    if k ∈ m.map Prod.fst then m.map Prod.fst else m.map Prod.fst ++ [k] := by
  induction m with
  | nil => simp [raise]
  | cons e m ih =>
    unfold raise
    by_cases he : e.1 = k
    · simp [he]
    · rw [if_neg he, List.map_cons, ih, List.map_cons]
      have hmem : k ∈ e.1 :: m.map Prod.fst ↔ k ∈ m.map Prod.fst := by
        simp [List.mem_cons, Ne.symm he]
      simp only [hmem]
      split <;> rfl

theorem nodup_raise (h : (m.map Prod.fst).Nodup) : ((raise k v m).map Prod.fst).Nodup := by
  rw [map_fst_raise]
  split_ifs with hk
  · exact h
  · exact List.nodup_append.mpr ⟨h, List.nodup_singleton k, by
      intro a ha b hb hab
      rw [List.mem_singleton.mp hb] at hab
      exact hk (hab ▸ ha)⟩

theorem peak_of_mem {e : κ × ℤ} (h : (m.map Prod.fst).Nodup) (he : e ∈ m) : peak e.1 m = e.2 := by
  induction m with
  | nil => cases he
  | cons f m ih =>
    rw [List.map_cons, List.nodup_cons] at h
    rcases List.mem_cons.mp he with rfl | he
    · simp [peak]
    · have hne : f.1 ≠ e.1 := fun hf => h.1 (hf ▸ List.mem_map_of_mem he)
      rw [peak, if_neg hne, ih h.2 he]

end Raise

/-! ### Raising one amount after the other -/

section Fold

variable {α : Type*} {key : α → κ} {amount : α → ℤ} {m : List (κ × ℤ)} {k : κ} {v : ℤ}

theorem le_peak_raise {j : κ} : peak k m ≤ peak k (raise j v m) := by
  rw [peak_raise]
  split_ifs with h
  · rw [h]
    exact le_max_left ..
  · rfl

theorem peak_foldl_raise {as : List α} (h : ∀ a ∈ as, key a ≠ k) :
    peak k (as.foldl (fun m a => raise (key a) (amount a) m) m) = peak k m := by
  induction as generalizing m with
  | nil => rfl
  | cons a as ih =>
    obtain ⟨ha, has⟩ := List.forall_mem_cons.mp h
    rw [List.foldl_cons, ih has, peak_raise, if_neg (Ne.symm ha)]

theorem le_peak_foldl_raise (key : α → κ) (amount : α → ℤ) {as : List α} {a : α} (ha : a ∈ as) :
    amount a ≤ peak (key a) (as.foldl (fun m a => raise (key a) (amount a) m) m) := by
  induction as generalizing m with
  | nil => cases ha
  | cons b as ih =>
    rw [List.foldl_cons]
    rcases List.mem_cons.mp ha with rfl | ha
    · have hmono : ∀ (as : List α) (m : List (κ × ℤ)),
          peak (key a) m ≤ peak (key a) (as.foldl (fun m a => raise (key a) (amount a) m) m) := by
        intro as
        induction as with
        | nil => exact fun m => le_rfl
        | cons b as ih => exact fun m => le_peak_raise.trans (ih _)
      refine le_trans ?_ (hmono as _)
      rw [peak_raise, if_pos rfl]
      exact le_max_right ..
    · exact ih ha

theorem nonneg_foldl_raise {as : List α} (h : ∀ e ∈ m, 0 ≤ e.2) :
    ∀ e ∈ as.foldl (fun m a => raise (key a) (amount a) m) m, 0 ≤ e.2 := by
  induction as generalizing m with
  | nil => exact h
  | cons a as ih => exact ih (nonneg_raise h)

theorem nodup_foldl_raise {as : List α} (h : (m.map Prod.fst).Nodup) :
    ((as.foldl (fun m a => raise (key a) (amount a) m) m).map Prod.fst).Nodup := by
  induction as generalizing m with
  | nil => exact h
  | cons a as ih => exact ih (nodup_raise h)

end Fold

/-! ### New keys -/

/-- The second table is the first with the amounts `news` under keys of their own. -/
structure Adds (news m n : List (κ × ℤ)) : Prop where
  total : ∀ w, total w n = total w m + total w news
  peak : ∀ j, j ∉ news.map Prod.fst → peak j n = peak j m

section Adds

variable {news m n : List (κ × ℤ)} {k : κ} {v : ℤ}

theorem Adds.refl (m : List (κ × ℤ)) : Adds [] m m := ⟨fun _ => by simp, fun _ _ => rfl⟩

/-- Raising any other key keeps the amounts apart. -/
theorem Adds.raise (h : Adds news m n) (hk : k ∉ news.map Prod.fst) (v : ℤ) :
    Adds news (raise k v m) (raise k v n) := by
  refine ⟨fun w => ?_, fun j hj => ?_⟩
  · rw [total_raise, total_raise, h.total w, h.peak k hk]
    ring
  · rw [peak_raise, peak_raise, h.peak k hk, h.peak j hj]

/-- An amount under a key that reads zero is added as it is. -/
theorem Adds.concat (h : Adds news m n) (hk : Peaks.peak k n = 0) (hv : 0 ≤ v) :
    Adds (news ++ [(k, v)]) m (Peaks.raise k v n) := by
  refine ⟨fun w => ?_, fun j hj => ?_⟩
  · rw [total_raise, h.total w, hk]
    simp only [Peaks.total, List.map_append, List.sum_append, List.map_cons, List.map_nil,
      List.sum_singleton, max_eq_right hv, sub_zero]
    ring
  · simp only [List.map_append, List.mem_append, not_or, List.map_cons, List.map_nil,
      List.mem_singleton] at hj
    rw [peak_raise, if_neg hj.2, h.peak j hj.1]

/-- Raising other keys one after the other keeps the amounts apart. -/
theorem Adds.foldl_raise {α : Type*} {key : α → κ} {amount : α → ℤ} {as : List α}
    (h : Adds news m n) (has : ∀ a ∈ as, key a ∉ news.map Prod.fst) :
    Adds news (as.foldl (fun m a => Peaks.raise (key a) (amount a) m) m)
      (as.foldl (fun m a => Peaks.raise (key a) (amount a) m) n) := by
  induction as generalizing m n with
  | nil => exact h
  | cons a as ih =>
    obtain ⟨ha, has⟩ := List.forall_mem_cons.mp has
    exact ih (h.raise ha _) has

/-- Amounts under keys of their own that the table does not know are added as they are. -/
theorem adds_foldl_raise {α : Type*} {key : α → κ} {amount : α → ℤ} {as : List α}
    (hnew : ∀ a ∈ as, Peaks.peak (key a) m = 0) (hkeys : (as.map key).Nodup)
    (hv : ∀ a ∈ as, 0 ≤ amount a) :
    Adds (as.map fun a => (key a, amount a)) m
      (as.foldl (fun m a => Peaks.raise (key a) (amount a) m) m) := by
  induction as using List.reverseRecOn with
  | nil => exact Adds.refl m
  | append_singleton as a ih =>
    rw [List.map_append, List.nodup_append] at hkeys
    have ih' := ih (fun b hb => hnew b (List.mem_append_left _ hb)) hkeys.1
      fun b hb => hv b (List.mem_append_left _ hb)
    rw [List.foldl_append, List.map_append]
    refine ih'.concat ?_ (hv a (List.mem_append_right _ (List.mem_singleton_self a)))
    rw [peak_foldl_raise fun b hb hba => ?_]
    · exact hnew a (List.mem_append_right _ (List.mem_singleton_self a))
    · exact hkeys.2.2 (key b) (List.mem_map_of_mem hb) (key a) (by simp) hba

end Adds

end Peaks
