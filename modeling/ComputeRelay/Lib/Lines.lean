import Mathlib.Tactic

/-!
# Lines of a text that comes in pieces

`cut s` divides a text at every `s` into the lines that are complete and the rest behind the last
`s`. A reader that keeps the rest and puts the next piece behind it sees the lines of the whole text
(`cut_append`).
-/

namespace Lines

variable {α : Type*} [DecidableEq α]

/-- The complete lines, without their ends, and the rest. -/
def cut (s : α) : List α → List (List α) × List α
  | [] => ([], [])
  | b :: t =>
    if b = s then ([] :: (cut s t).1, (cut s t).2)
    else match (cut s t).1 with
      | [] => ([], b :: (cut s t).2)
      | l :: ls => ((b :: l) :: ls, (cut s t).2)

variable {s b : α} {t t' : List α}

theorem cut_end (s : α) (t : List α) : cut s (s :: t) = ([] :: (cut s t).1, (cut s t).2) := by
  simp [cut]

theorem cut_of_nil (hb : b ≠ s) (h : (cut s t).1 = []) :
    cut s (b :: t) = ([], b :: (cut s t).2) := by
  rw [cut, if_neg hb, h]

theorem cut_of_cons (hb : b ≠ s) {l : List α} {ls : List (List α)} (h : (cut s t).1 = l :: ls) :
    cut s (b :: t) = ((b :: l) :: ls, (cut s t).2) := by
  rw [cut, if_neg hb, h]

theorem cut_append (s : α) (t t' : List α) :
    cut s (t ++ t') =
    ((cut s t).1 ++ (cut s ((cut s t).2 ++ t')).1, (cut s ((cut s t).2 ++ t')).2) := by
  induction t with
  | nil => simp [cut]
  | cons b t ih =>
    rw [List.cons_append]
    by_cases hb : b = s
    · subst hb
      rw [cut_end, cut_end, ih]
      simp
    · cases hls : (cut s t).1 with
      | nil =>
        rw [hls, List.nil_append] at ih
        rw [cut_of_nil hb hls, List.nil_append, List.cons_append]
        cases hrest : (cut s ((cut s t).2 ++ t')).1 with
        | nil =>
          rw [cut_of_nil hb (by rw [ih]; exact hrest), cut_of_nil hb hrest, ih]
        | cons l ls =>
          rw [cut_of_cons hb (by rw [ih]; exact hrest), cut_of_cons hb hrest, ih]
      | cons l ls =>
        rw [hls] at ih
        rw [cut_of_cons hb hls, cut_of_cons hb (by rw [ih]; rfl), ih]
        rfl

/-- No line holds an end, and neither does the rest. -/
theorem not_mem_cut (s : α) (t : List α) : (∀ l ∈ (cut s t).1, s ∉ l) ∧ s ∉ (cut s t).2 := by
  induction t with
  | nil => simp [cut]
  | cons b t ih =>
    obtain ⟨hlines, hrest⟩ := ih
    by_cases hb : b = s
    · subst hb
      rw [cut_end]
      simpa using ⟨hlines, hrest⟩
    · have hsb : s ≠ b := fun h => hb h.symm
      cases hls : (cut s t).1 with
      | nil =>
        rw [cut_of_nil hb hls]
        simpa [hsb] using hrest
      | cons l ls =>
        rw [hls] at hlines
        rw [cut_of_cons hb hls]
        refine ⟨fun l' hl' => ?_, hrest⟩
        rcases List.mem_cons.mp hl' with rfl | hl'
        · simpa [hsb] using hlines l (by simp)
        · exact hlines l' (by simp [hl'])

theorem cut_of_not_mem (h : s ∉ t) : cut s t = ([], t) := by
  induction t with
  | nil => rfl
  | cons b t ih =>
    have hb : b ≠ s := fun hb => h (by simp [hb])
    have ht := ih fun ht => h (by simp [ht])
    rw [cut_of_nil hb (by rw [ht]), ht]

/-- The first line ends at the first end. -/
theorem cut_line {w : List α} (h : s ∉ w) (t : List α) :
    cut s (w ++ s :: t) = (w :: (cut s t).1, (cut s t).2) := by
  rw [cut_append, cut_of_not_mem h]
  dsimp only
  induction w with
  | nil => simp [cut_end]
  | cons b w ih =>
    have hb : b ≠ s := fun hb => h (by simp [hb])
    have hw := ih fun hw => h (by simp [hw])
    rw [List.nil_append, Prod.mk.injEq] at hw
    rw [List.cons_append, cut_of_cons hb hw.1, hw.2, List.nil_append]

/-- Nothing of the text is lost. -/
theorem join_cut (s : α) (t : List α) :
    ((cut s t).1.map (· ++ [s])).flatten ++ (cut s t).2 = t := by
  induction t with
  | nil => rfl
  | cons b t ih =>
    by_cases hb : b = s
    · subst hb
      rw [cut_end, List.map_cons, List.flatten_cons, List.append_assoc, ih]
      rfl
    · cases hls : (cut s t).1 with
      | nil =>
        rw [hls] at ih
        rw [cut_of_nil hb hls]
        exact congrArg (b :: ·) ih
      | cons l ls =>
        rw [hls] at ih
        rw [cut_of_cons hb hls]
        exact congrArg (b :: ·) ih

/-- Lines that end in their only end can be told apart in the text. -/
theorem eq_of_flatten_eq {as bs : List (List α)} (has : ∀ l ∈ as, ∃ y, l = y ++ [s] ∧ s ∉ y)
    (hbs : ∀ l ∈ bs, ∃ y, l = y ++ [s] ∧ s ∉ y) (h : as.flatten = bs.flatten) : as = bs := by
  induction as generalizing bs with
  | nil =>
    cases bs with
    | nil => rfl
    | cons b bs =>
      obtain ⟨y, rfl, -⟩ := hbs b (by simp)
      simp at h
  | cons a as ih =>
    obtain ⟨y, rfl, hy⟩ := has a (by simp)
    cases bs with
    | nil => simp at h
    | cons b bs =>
      obtain ⟨z, rfl, hz⟩ := hbs b (by simp)
      simp only [List.flatten_cons, List.append_assoc, List.singleton_append] at h
      have hcut := congrArg (cut s) h
      rw [cut_line hy, cut_line hz] at hcut
      obtain rfl : y = z := (List.cons.inj (Prod.mk.inj hcut).1).1
      rw [List.append_cancel_left_eq, List.cons.injEq] at h
      rw [ih (fun l hl => has l (by simp [hl])) (fun l hl => hbs l (by simp [hl])) h.2]

end Lines
