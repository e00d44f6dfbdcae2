import Mathlib.Tactic

/-!
# Computations that may stop with an error

Inversion of `Except` blocks: what an answer, or an error, of a computation says about its parts.
`foldlM_done` is the induction rule for a loop whose body may stop it, and `foldlM_follow` compares
two such loops. `ensure` and `expect` are the two ways to stop.
-/

namespace Fallible

universe u v

variable {ε : Type u} {α β : Type v}

theorem bind_eq_ok {x : Except ε α} {f : α → Except ε β} {b : β} :
    (x >>= f) = .ok b ↔ ∃ a, x = .ok a ∧ f a = .ok b := by
  cases x with
  | error e =>
    constructor
    · intro h
      cases h
    · rintro ⟨a, h, -⟩
      cases h
  | ok a =>
    constructor
    · intro h
      exact ⟨a, rfl, h⟩
    · rintro ⟨a', h, hf⟩
      cases h
      exact hf

theorem bind_eq_error {x : Except ε α} {f : α → Except ε β} {e : ε} :
    (x >>= f) = .error e ↔ x = .error e ∨ ∃ a, x = .ok a ∧ f a = .error e := by
  cases x with
  | error e' =>
    constructor
    · intro h
      cases h
      exact Or.inl rfl
    · rintro (h | ⟨a, h, -⟩) <;> cases h
      rfl
  | ok a =>
    constructor
    · intro h
      exact Or.inr ⟨a, rfl, h⟩
    · rintro (h | ⟨a', h, hf⟩)
      · cases h
      · cases h
        exact hf

theorem mapError_eq_ok {ε' : Type u} {x : Except ε α} {f : ε → ε'} {a : α} :
    x.mapError f = .ok a ↔ x = .ok a := by
  cases x <;> simp [Except.mapError]

theorem pure_eq_ok {a b : α} : (pure a : Except ε α) = .ok b ↔ a = b := by
  constructor
  · intro h
    cases h
    rfl
  · rintro rfl
    rfl

/-! ### Loops -/

variable {σ : Type v} {body : σ → α → Except ε σ} {s t : σ} {as : List α}

/-- What the body keeps of the state and the part of the list that is done, the loop keeps. -/
theorem foldlM_done {P : List α → σ → Prop}
    (hbody : ∀ done a s t, a ∈ as → P done s → body s a = .ok t → P (done ++ [a]) t)
    {done : List α} (h0 : P done s) (h : as.foldlM body s = .ok t) : P (done ++ as) t := by
  induction as generalizing s done with
  | nil =>
    rw [List.foldlM_nil, pure_eq_ok] at h
    rw [List.append_nil]
    exact h ▸ h0
  | cons a as ih =>
    rw [List.foldlM_cons, bind_eq_ok] at h
    obtain ⟨m, hm, h⟩ := h
    rw [List.append_cons]
    exact ih (fun done b s t hb => hbody done b s t (List.mem_cons_of_mem _ hb))
      (hbody done a s m (List.mem_cons_self ..) h0 hm) h

/-- The same, where the body is told that the elements before it were the first ones. -/
theorem foldlM_along {P : List α → σ → Prop} (h0 : P [] s)
    (hbody : ∀ done a s t, done ++ [a] <+: as → P done s → body s a = .ok t → P (done ++ [a]) t)
    (h : as.foldlM body s = .ok t) : P as t := by
  refine foldlM_done (P := fun done s => done <+: as → P done s) ?_ (fun _ => h0) h
    (List.prefix_refl _)
  intro done a s t _ hdone hstep hlead
  exact hbody done a s t hlead (hdone ((List.prefix_append done [a]).trans hlead)) hstep

theorem foldlM_invariant {P : σ → Prop} (hbody : ∀ s a t, a ∈ as → P s → body s a = .ok t → P t)
    (h0 : P s) (h : as.foldlM body s = .ok t) : P t :=
  foldlM_along (P := fun _ => P) h0 (fun _ a s t hdone => hbody s a t (hdone.subset (by simp))) h

/-- A loop that ends also ends with a body that does the same wherever the first one goes on. -/
theorem foldlM_follow {body' : σ → α → Except ε σ}
    (hbody : ∀ s a t, a ∈ as → body s a = .ok t → body' s a = .ok t)
    (h : as.foldlM body s = .ok t) : as.foldlM body' s = .ok t := by
  induction as generalizing s with
  | nil => exact h
  | cons a as ih =>
    rw [List.foldlM_cons, bind_eq_ok] at h ⊢
    obtain ⟨m, hm, h⟩ := h
    exact ⟨m, hbody s a m (List.mem_cons_self ..) hm,
      ih (fun s b t hb => hbody s b t (List.mem_cons_of_mem _ hb)) h⟩

/-! ### Checks -/

/-- Go on only if a check holds. -/
def ensure {ε : Type u} (p : Bool) (e : ε) : Except ε Unit := if p then .ok () else .error e

theorem ensure_eq_ok {ε : Type u} {p : Bool} {e : ε} {x : Unit} :
    ensure p e = .ok x ↔ p = true := by
  unfold ensure
  split
  · next hp => exact iff_of_true rfl hp
  · next hp => exact iff_of_false (by simp) hp

/-- Go on only with a value. -/
def expect (x : Option α) (e : ε) : Except ε α := x.elim (.error e) .ok

theorem expect_eq_ok {x : Option α} {e : ε} {a : α} : expect x e = .ok a ↔ x = some a := by
  cases x with
  | none => exact iff_of_false (by simp [expect]) (by simp)
  | some b => simp [expect]

end Fallible
