import Mathlib.Tactic

/-!
# Searching a text that comes in chunks

The search looks at each chunk together with the last `keep` elements before it. Whatever it finds
is in the text (`of_rejects`), and it finds everything that has at most `keep + 1` elements,
wherever the chunks are cut (`rejects_of_short`).
-/

namespace Overlap

variable {α : Type} (keep : ℕ) (hit : List α → Bool)

/-- The end of a text that is kept. -/
def lastOf (text : List α) : List α := text.drop (text.length - keep)

/-- The end that is kept after the chunk, unless there is a hit. -/
def check (tail chunk : List α) : Option (List α) :=
  if hit (tail ++ chunk) then none else some (lastOf keep (tail ++ chunk))

def rejects (chunks : List (List α)) : Bool := (chunks.foldlM (check keep hit) []).isNone

variable {keep hit} {L : List α → Prop} {text chunk tail : List α}

@[simp] theorem lastOf_nil : lastOf keep ([] : List α) = [] := List.drop_nil

/-- What is kept of a text is what is kept of its kept end. -/
theorem lastOf_append (text chunk : List α) :
    lastOf keep (lastOf keep text ++ chunk) = lastOf keep (text ++ chunk) := by
  unfold lastOf
  rw [List.length_append, List.length_drop, List.length_append]
  by_cases h : text.length ≤ keep
  · have hzero : text.length - keep = 0 := by omega
    rw [hzero, List.drop_zero, Nat.sub_zero]
  · rw [List.drop_append, List.drop_append, List.drop_drop, List.length_drop]
    congr 2 <;> omega

theorem lastOf_suffix (text : List α) : lastOf keep text <:+ text := List.drop_suffix _ _

/-- What ends behind the kept end and is not longer than it, with one element more, lies within the
window. -/
theorem infix_window {w before after : List α} (htext : text ++ chunk = before ++ w ++ after)
    (hend : after.length < chunk.length) (hw : w.length ≤ keep + 1) :
    w <:+: lastOf keep text ++ chunk := by
  have hlength := congrArg List.length htext
  simp only [List.length_append] at hlength
  have hwindow : lastOf keep text ++ chunk = (text ++ chunk).drop (text.length - keep) := by
    rw [List.drop_append_of_le_length (by omega), lastOf]
  rw [hwindow, htext, List.append_assoc, List.drop_append_of_le_length (by omega)]
  exact ⟨before.drop _, after, by rw [List.append_assoc]⟩

/-- Nothing short is in a text that was let through. -/
def Clear (keep : ℕ) (L : List α → Prop) (text : List α) : Prop :=
  ∀ w, w <:+: text → w.length ≤ keep + 1 → ¬ L w

section

variable (hhit : ∀ b, hit b = true ↔ ∃ w, w <:+: b ∧ L w)
include hhit

theorem Clear.check (h : Clear keep L text)
    (hcheck : check keep hit (lastOf keep text) chunk = some tail) :
    Clear keep L (text ++ chunk) ∧ tail = lastOf keep (text ++ chunk) := by
  unfold Overlap.check at hcheck
  split_ifs at hcheck with hfound
  refine ⟨fun w hw hshort hL => ?_, by rw [← Option.some.inj hcheck, lastOf_append]⟩
  obtain ⟨before, after, htext⟩ := hw
  by_cases hend : after.length < chunk.length
  · exact hfound ((hhit _).mpr ⟨w, infix_window htext.symm hend hshort, hL⟩)
  · -- it ends before the chunk
    refine h w ?_ hshort hL
    have hlength := congrArg List.length htext
    simp only [List.length_append] at hlength
    have hall : before ++ w <+: text ++ chunk := ⟨after, htext⟩
    have hpre : before ++ w <+: text := by
      refine List.prefix_of_prefix_length_le hall (List.prefix_append _ _) ?_
      rw [List.length_append]
      omega
    exact (List.suffix_append before w).isInfix.trans hpre.isInfix

/-- The search over some chunks that are let through. -/
theorem foldlM_check {chunks : List (List α)} (h : Clear keep L text)
    (hfold : chunks.foldlM (Overlap.check keep hit) (lastOf keep text) = some tail) :
    Clear keep L (text ++ chunks.flatten) ∧ tail = lastOf keep (text ++ chunks.flatten) := by
  induction chunks generalizing text with
  | nil =>
    rw [List.foldlM_nil] at hfold
    rw [List.flatten_nil, List.append_nil]
    exact ⟨h, (Option.some.inj hfold).symm⟩
  | cons chunk rest ih =>
    rw [List.foldlM_cons] at hfold
    obtain ⟨tail', hcheck, hrest⟩ := Option.bind_eq_some_iff.mp hfold
    obtain ⟨hclear, rfl⟩ := h.check hhit hcheck
    rw [List.flatten_cons, ← List.append_assoc]
    exact ih hclear hrest

/-- What the search finds is in the text. -/
theorem exists_of_foldlM_none {chunks : List (List α)} (htail : tail <:+ text)
    (hfold : chunks.foldlM (Overlap.check keep hit) tail = none) :
    ∃ w, w <:+: text ++ chunks.flatten ∧ L w := by
  induction chunks generalizing text tail with
  | nil => cases hfold
  | cons chunk rest ih =>
    rw [List.flatten_cons, ← List.append_assoc]
    have hwindow : tail ++ chunk <:+ text ++ chunk := by
      obtain ⟨front, rfl⟩ := htail
      exact ⟨front, (List.append_assoc ..).symm⟩
    rw [List.foldlM_cons] at hfold
    by_cases hfound : hit (tail ++ chunk) = true
    · obtain ⟨w, hw, hL⟩ := (hhit _).mp hfound
      exact ⟨w, (hw.trans hwindow.isInfix).trans (List.prefix_append _ _).isInfix, hL⟩
    · rw [Overlap.check, if_neg hfound] at hfold
      exact ih ((lastOf_suffix _).trans hwindow) hfold

theorem of_rejects {chunks : List (List α)} (h : rejects keep hit chunks = true) :
    ∃ w, w <:+: chunks.flatten ∧ L w :=
  exists_of_foldlM_none hhit (List.suffix_refl []) (Option.isNone_iff_eq_none.mp h)

theorem rejects_of_short {chunks : List (List α)} (hempty : ¬ L []) {w : List α}
    (hw : w <:+: chunks.flatten)
    (hshort : w.length ≤ keep + 1) (hL : L w) : rejects keep hit chunks = true := by
  unfold rejects
  cases hfold : chunks.foldlM (Overlap.check keep hit) [] with
  | none => rfl
  | some tail =>
    have hnone : Clear keep L [] := fun w hw _ hL => hempty (List.infix_nil.mp hw ▸ hL)
    rw [← lastOf_nil] at hfold
    have hclear := (foldlM_check hhit hnone hfold).1
    exact absurd hL (hclear w hw hshort)

end

end Overlap
