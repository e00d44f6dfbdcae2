import Mathlib.Tactic

/-!
# Runs of a partial step function

A machine offers labels to `step : σ → α → Option σ`, which accepts or refuses each of them.

* `run` offers a list of labels one after another and skips the refused ones; `accepted` is the
  list of those that were accepted.
* `run_history` is the induction rule for facts about a state and the labels accepted so far;
  `run_invariant` forgets the labels, and `run_rel` compares the two ends of a run.
* `Along` asks something of every accepted label at the state it is accepted in, and `along_history`
  is the induction rule for such runs.
* `accepted_countP_le_one` is the rule for one-shot labels: a label that is accepted only before a
  flag is set, and that sets it for good, is accepted at most once.
-/

namespace Run

variable {σ α : Type*} (step : σ → α → Option σ)

/-- The state after a list of labels. -/
def run : σ → List α → σ
  | s, [] => s
  | s, a :: as => run ((step s a).getD s) as

/-- The labels of a list that are accepted on the way. -/
def accepted : σ → List α → List α
  | _, [] => []
  | s, a :: as =>
    match step s a with
    | none => accepted s as
    | some t => a :: accepted t as

variable {step}

@[simp] theorem run_nil (s : σ) : run step s [] = s := rfl

@[simp] theorem accepted_nil (s : σ) : accepted step s [] = [] := rfl

theorem run_append (s : σ) (as bs : List α) :
    run step s (as ++ bs) = run step (run step s as) bs := by
  induction as generalizing s with
  | nil => rfl
  | cons a as ih => exact ih _

theorem accepted_append (s : σ) (as bs : List α) :
    accepted step s (as ++ bs) = accepted step s as ++ accepted step (run step s as) bs := by
  induction as generalizing s with
  | nil => rfl
  | cons a as ih =>
    cases h : step s a with
    | none => simp [accepted, run, h, ih]
    | some t => simp [accepted, run, h, ih]

theorem run_concat (s : σ) (as : List α) (a : α) :
    run step s (as ++ [a]) = (step (run step s as) a).getD (run step s as) := by
  rw [run_append]
  rfl

theorem accepted_concat_of_some {s t : σ} {as : List α} {a : α}
    (h : step (run step s as) a = some t) :
    accepted step s (as ++ [a]) = accepted step s as ++ [a] := by
  rw [accepted_append]
  simp [accepted, h]

theorem accepted_concat_of_none {s : σ} {as : List α} {a : α}
    (h : step (run step s as) a = none) : accepted step s (as ++ [a]) = accepted step s as := by
  rw [accepted_append]
  simp [accepted, h]

/-- **Induction over runs**, for facts about a state and the labels accepted so far. -/
theorem run_history {P : List α → σ → Prop} {s : σ} (h0 : P [] s)
    (hstep : ∀ hist t a u, P hist t → step t a = some u → P (hist ++ [a]) u) (as : List α) :
    P (accepted step s as) (run step s as) := by
  induction as using List.reverseRecOn with
  | nil => exact h0
  | append_singleton as a ih =>
    rw [run_concat]
    cases h : step (run step s as) a with
    | none => rw [accepted_concat_of_none h]; exact ih
    | some t => rw [accepted_concat_of_some h]; exact hstep _ _ _ _ ih h

variable (step) in
/-- Every accepted label of the list satisfies `G` where it is accepted. -/
def Along (G : σ → α → Prop) : σ → List α → Prop
  | _, [] => True
  | s, a :: as => ((step s a).isSome = true → G s a) ∧ Along G ((step s a).getD s) as

instance decidableAlong {G : σ → α → Prop} [∀ s a, Decidable (G s a)] :
    ∀ s as, Decidable (Along step G s as)
  | _, [] => inferInstanceAs (Decidable True)
  | s, a :: as =>
    have := decidableAlong (G := G) ((step s a).getD s) as
    inferInstanceAs (Decidable (_ ∧ _))

theorem along_append {G : σ → α → Prop} (s : σ) (as bs : List α) :
    Along step G s (as ++ bs) ↔ Along step G s as ∧ Along step G (run step s as) bs := by
  induction as generalizing s with
  | nil => simp [Along]
  | cons a as ih => simp [Along, run, ih, and_assoc]

/-- What holds of every label of the list can be asked of the accepted ones. -/
theorem along_and {G : σ → α → Prop} {Q : α → Prop} {s : σ} {as : List α} (hQ : ∀ a ∈ as, Q a)
    (h : Along step G s as) : Along step (fun t a => G t a ∧ Q a) s as := by
  induction as generalizing s with
  | nil => trivial
  | cons a as ih =>
    exact ⟨fun hs => ⟨h.1 hs, hQ a List.mem_cons_self⟩,
      ih (fun b hb => hQ b (List.mem_cons_of_mem _ hb)) h.2⟩

/-- Induction over runs whose accepted labels all satisfy `G`. -/
theorem along_history {G : σ → α → Prop} {P : List α → σ → Prop} {s : σ} (h0 : P [] s)
    (hstep : ∀ hist t a u, P hist t → G t a → step t a = some u → P (hist ++ [a]) u)
    (as : List α) (h : Along step G s as) : P (accepted step s as) (run step s as) := by
  induction as using List.reverseRecOn with
  | nil => exact h0
  | append_singleton as a ih =>
    obtain ⟨has, ha, -⟩ := (along_append s as [a]).mp h
    rw [run_concat]
    cases hs : step (run step s as) a with
    | none => rw [accepted_concat_of_none hs]; exact ih has
    | some t =>
      rw [accepted_concat_of_some hs]
      exact hstep _ _ _ _ (ih has) (ha (by simp [hs])) hs

/-- A property of the start that every accepted step keeps holds along the run. -/
theorem run_invariant {P : σ → Prop} {s : σ} (h0 : P s)
    (hstep : ∀ t a u, P t → step t a = some u → P u) (as : List α) : P (run step s as) :=
  run_history (P := fun _ t => P t) h0 (fun _ t a u ht h => hstep t a u ht h) as

/-- A reflexive and transitive relation that every accepted step respects holds between the ends
of a run, provided `P` holds at its start and is kept. -/
theorem run_rel {R : σ → σ → Prop} {P : σ → Prop} (hrefl : ∀ s, R s s)
    (htrans : ∀ s t u, R s t → R t u → R s u) {s : σ} (h0 : P s)
    (hstep : ∀ t a u, P t → step t a = some u → P u ∧ R t u) (as : List α) :
    R s (run step s as) := by
  have h : P (run step s as) ∧ R s (run step s as) := by
    refine run_invariant (P := fun t => P t ∧ R s t) ⟨h0, hrefl s⟩ ?_ as
    rintro t a u ⟨ht, hr⟩ hu
    obtain ⟨hpu, hru⟩ := hstep t a u ht hu
    exact ⟨hpu, htrans s t u hr hru⟩
  exact h.2

/-- **One-shot labels**: along a run that keeps `P`, when a label of class `p` is accepted only
where `q` fails, leads to `q`, and `q` is never left, at most one label of the class is accepted;
and once one is, `q` holds. -/
theorem accepted_countP_le_one_of {p : α → Bool} {P q : σ → Prop} {s : σ} (h0 : P s)
    (hstep : ∀ t a u, P t → step t a = some u → P u)
    (hbefore : ∀ t a u, P t → step t a = some u → p a = true → ¬q t ∧ q u)
    (hkeep : ∀ t a u, P t → step t a = some u → q t → q u) (as : List α) :
    (accepted step s as).countP p ≤ 1 ∧
      (0 < (accepted step s as).countP p → q (run step s as)) := by
  suffices h : P (run step s as) ∧ (accepted step s as).countP p ≤ 1 ∧
      (0 < (accepted step s as).countP p → q (run step s as)) from h.2
  refine run_history (P := fun hist t => P t ∧ hist.countP p ≤ 1 ∧ (0 < hist.countP p → q t))
    ⟨h0, by simp, by simp⟩ ?_ as
  rintro hist t a u ⟨ht, hle, hq⟩ hu
  refine ⟨hstep t a u ht hu, ?_⟩
  by_cases hp : p a = true
  · obtain ⟨hnq, hqu⟩ := hbefore t a u ht hu hp
    have hzero : hist.countP p = 0 := by
      by_contra hne
      exact hnq (hq (Nat.pos_of_ne_zero hne))
    simp [List.countP_append, hzero, hp, hqu]
  · simp only [List.countP_append, List.countP_singleton, hp]
    exact ⟨by simpa using hle, fun hpos => hkeep t a u ht hu (hq (by simpa using hpos))⟩

/-- One-shot labels, where no invariant is needed. -/
theorem accepted_countP_le_one {p : α → Bool} {q : σ → Prop} {s : σ}
    (hbefore : ∀ t a u, step t a = some u → p a = true → ¬q t ∧ q u)
    (hkeep : ∀ t a u, step t a = some u → q t → q u) (as : List α) :
    (accepted step s as).countP p ≤ 1 ∧
      (0 < (accepted step s as).countP p → q (run step s as)) :=
  accepted_countP_le_one_of (P := fun _ => True) trivial (fun _ _ _ _ _ => trivial)
    (fun t a u _ => hbefore t a u) (fun t a u _ => hkeep t a u) as

end Run
