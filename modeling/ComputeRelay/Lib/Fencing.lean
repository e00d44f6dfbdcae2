import Mathlib.Tactic
import ComputeRelay.Lib.Run

/-!
# Optimistic concurrency

Readers of a shared state take a token along with what they see, and come back with it later. A
machine is `Fenced` when no step lowers the token and a step that changes the view raises it. Then a
token that is still the current one vouches for the view it was taken with (`Fenced.view_run`), and
a step that changes the view outdates every token taken before it, for good
(`Fenced.token_ne_of_edit`).
-/

namespace Fencing

open Run

variable {σ α τ β : Type*} [PartialOrder τ]

/-- No step lowers the token, and the view changes only when the token does. -/
structure Fenced (step : σ → α → Option σ) (token : σ → τ) (view : σ → β) : Prop where
  mono : ∀ {s t : σ} {a : α}, step s a = some t → token s ≤ token t
  view : ∀ {s t : σ} {a : α}, step s a = some t → token t = token s → view t = view s

namespace Fenced

variable {step : σ → α → Option σ} {token : σ → τ} {view : σ → β}

theorem token_run (h : Fenced step token view) (s : σ) (as : List α) :
    token s ≤ token (run step s as) :=
  run_rel (R := fun s t => token s ≤ token t) (P := fun _ => True) (fun _ => le_rfl)
    (fun _ _ _ => le_trans) trivial (fun _ _ _ _ hs => ⟨trivial, h.mono hs⟩) as

/-- A token that is still current vouches for the view it was taken with. -/
theorem view_run (h : Fenced step token view) {s : σ} {as : List α}
    (ht : token (run step s as) = token s) : view (run step s as) = view s := by
  induction as generalizing s with
  | nil => rfl
  | cons a as ih =>
    cases hs : step s a with
    | none =>
      simp only [run, hs, Option.getD_none] at ht ⊢
      exact ih ht
    | some t =>
      simp only [run, hs, Option.getD_some] at ht ⊢
      -- the token has not moved at either end, so not in the middle
      have hmid : token t = token s := le_antisymm (ht ▸ h.token_run t as) (h.mono hs)
      exact (ih (ht.trans hmid.symm)).trans (h.view hs hmid)

/-- A step that changes the view raises the token. -/
theorem token_lt (h : Fenced step token view) {s t : σ} {a : α} (hs : step s a = some t)
    (hv : view t ≠ view s) : token s < token t :=
  lt_of_le_of_ne (h.mono hs) fun he => hv (h.view hs he.symm)

/-- A step that changes the view outdates every token taken before it. -/
theorem token_ne_of_edit (h : Fenced step token view) {s t : σ} {as bs : List α} {a : α}
    (hs : step (run step s as) a = some t) (hv : view t ≠ view (run step s as)) :
    token (run step t bs) ≠ token s :=
  ((h.token_run s as).trans_lt ((h.token_lt hs hv).trans_le (h.token_run t bs))).ne'

end Fenced

end Fencing
