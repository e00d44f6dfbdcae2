import Mathlib.Tactic

/-!
# Greedy selection from a list

`pick stop ok before as` goes through `as` once. It ends when `stop` holds of what was picked so
far, and picks an item when `ok` does; both see the items picked before, in order.

Where `ok` can only be lost by picking more, a pick is the first of all items that could be picked
in its place (`rel_of_split`), so a sorted list is picked in its order and nothing is passed over.
-/

namespace Greedy

variable {α : Type*} (stop : List α → Bool) (ok : List α → α → Bool)

def pick : List α → List α → List α
  | _, [] => []
  | before, a :: as =>
    if stop before then []
    else if ok before a then a :: pick (before ++ [a]) as
    else pick before as

variable {stop ok}

theorem pick_sublist (before as : List α) : (pick stop ok before as).Sublist as := by
  induction as generalizing before with
  | nil => exact List.nil_sublist _
  | cons a as ih =>
    unfold pick
    split_ifs
    · exact List.nil_sublist _
    · exact (ih _).cons_cons a
    · exact (ih _).cons a

/-- Each pick is allowed, and made before the end. -/
theorem of_split {before as pre post : List α} {b : α}
    (h : pick stop ok before as = pre ++ b :: post) :
    stop (before ++ pre) = false ∧ ok (before ++ pre) b = true := by
  induction as generalizing before pre with
  | nil => simp [pick] at h
  | cons a as ih =>
    unfold pick at h
    split_ifs at h with hstop hok
    · simp at h
    · cases pre with
      | nil =>
        obtain ⟨rfl, -⟩ := List.cons.inj h
        rw [List.append_nil]
        exact ⟨Bool.eq_false_iff.mpr hstop, hok⟩
      | cons p pre =>
        obtain ⟨rfl, htail⟩ := List.cons.inj h
        rw [List.append_cons]
        exact ih htail
    · exact ih h

theorem pairwise_of_append {R : α → α → Prop} {l : List α}
    (h : ∀ pre b post, l = pre ++ b :: post → ∀ c ∈ post, R b c) : l.Pairwise R := by
  induction l with
  | nil => exact .nil
  | cons a l ih =>
    refine List.pairwise_cons.mpr ⟨h [] a l rfl, ih fun pre b post hl => h (a :: pre) b post ?_⟩
    rw [hl, List.cons_append]

section Antitone

variable (hanti : ∀ l m a, ok (l ++ m) a = true → ok l a = true)
  (hself : ∀ l a, ok (l ++ [a]) a = false)
include hanti hself

/-- A pick from a sorted list comes first among the items that are allowed in its place. -/
theorem rel_of_split {R : α → α → Prop} {before as pre post : List α} {b : α}
    (hR : ∀ a, R a a) (hsorted : as.Pairwise R)
    (h : pick stop ok before as = pre ++ b :: post) {a : α}
    (ha : a ∈ as) (hok : ok (before ++ pre) a = true) : R b a := by
  induction as generalizing before pre with
  | nil => cases ha
  | cons x xs ih =>
    obtain ⟨hfirst, hrest⟩ := List.pairwise_cons.mp hsorted
    unfold pick at h
    split_ifs at h with hstop hx
    · simp at h
    · cases pre with
      | nil =>
        obtain ⟨rfl, -⟩ := List.cons.inj h
        rcases List.mem_cons.mp ha with rfl | ha
        · exact hR a
        · exact hfirst a ha
      | cons p pre =>
        obtain ⟨rfl, htail⟩ := List.cons.inj h
        rw [List.append_cons] at hok
        rcases List.mem_cons.mp ha with rfl | ha
        · exact absurd (hanti _ _ _ hok) (by simp [hself])
        · exact ih hrest htail ha hok
    · rcases List.mem_cons.mp ha with rfl | ha
      · exact absurd (hanti _ _ _ hok) hx
      · exact ih hrest h ha hok

omit hself in
/-- What holds between a pick and the items that are allowed in its place holds between the
picks. -/
theorem pairwise_of_split {R : α → α → Prop} {before as : List α}
    (h : ∀ pre b post, pick stop ok before as = pre ++ b :: post →
      ∀ a ∈ as, ok (before ++ pre) a = true → R b a) : (pick stop ok before as).Pairwise R := by
  refine pairwise_of_append fun pre b post hsplit c hc => ?_
  have hsub : (pick stop ok before as).Sublist as := pick_sublist before as
  have hmem : c ∈ as := hsub.subset (by simp [hsplit, hc])
  obtain ⟨mid, rest, rfl⟩ := List.append_of_mem hc
  have hlater := (of_split (show pick stop ok before as = (pre ++ b :: mid) ++ c :: rest by
    simpa using hsplit)).2
  rw [← List.append_assoc] at hlater
  exact h pre b _ hsplit c hmem (hanti _ _ _ hlater)

end Antitone

/-- While nothing stops the selection, every item is picked or was not allowed in its turn. -/
theorem exists_of_mem {before as : List α}
    (hstop : ∀ l, l.Sublist as → stop (before ++ l) = false) {a : α} (ha : a ∈ as) :
    ∃ pre post, pick stop ok before as = pre ++ post ∧
      (ok (before ++ pre) a = false ∨ post.head? = some a) := by
  induction as generalizing before with
  | nil => cases ha
  | cons x xs ih =>
    have hgo : stop before = false := by simpa using hstop [] (List.nil_sublist _)
    unfold pick
    rw [if_neg (by simp [hgo])]
    by_cases hx : ok before x = true
    · rw [if_pos hx]
      rcases List.mem_cons.mp ha with rfl | ha
      · exact ⟨[], _, rfl, .inr rfl⟩
      · obtain ⟨pre, post, hpick, hend⟩ := ih
          (fun l hl => by rw [← List.append_cons]; exact hstop (x :: l) (hl.cons_cons x)) ha
        exact ⟨x :: pre, post, by rw [hpick, List.cons_append], by simpa using hend⟩
    · rw [if_neg hx]
      rcases List.mem_cons.mp ha with rfl | ha
      · exact ⟨[], _, rfl, .inl (by simpa using hx)⟩
      · exact ih (fun l hl => hstop l (hl.cons x)) ha

end Greedy
