import Mathlib.Tactic

/-!
# Editing one row of a table

A table is a list of rows in the order of their insertion. `edit p f` rewrites the first row that
satisfies `p` by a fallible `f`, which also returns a value; `missing` is the error when there is no
such row. `edit_eq_ok` is the inversion rule: the table is cut at the row that was rewritten, so
facts about all rows (`edit_forall`) and about their number (`edit_countP`) follow from facts about
one.
-/

namespace Rows

variable {α β ε : Type*}

/-- Rewrites the first row that satisfies `p`. -/
def edit (p : α → Bool) (f : α → Except ε (α × β)) (missing : ε) :
    List α → Except ε (List α × β)
  | [] => .error missing
  | a :: as =>
    if p a then (f a).map fun (b, v) => (b :: as, v)
    else (edit p f missing as).map fun (bs, v) => (a :: bs, v)

section Inversion

variable {p : α → Bool} {f : α → Except ε (α × β)} {e : ε} {l l' : List α} {v : β}

theorem edit_eq_ok (h : edit p f e l = .ok (l', v)) :
    ∃ pre a b post, l = pre ++ a :: post ∧ p a = true ∧ f a = .ok (b, v) ∧
      l' = pre ++ b :: post := by
  induction l generalizing l' with
  | nil => cases h
  | cons a as ih =>
    unfold edit at h
    split_ifs at h with ha
    · cases hf : f a with
      | error e => rw [hf] at h; cases h
      | ok r =>
        rw [hf] at h
        cases h
        exact ⟨[], a, r.1, as, rfl, ha, hf, rfl⟩
    · cases he : edit p f e as with
      | error e => rw [he] at h; cases h
      | ok r =>
        rw [he] at h
        cases h
        obtain ⟨pre, b, b', post, rfl, hb, hf, hl⟩ := ih he
        exact ⟨a :: pre, b, b', post, rfl, hb, hf, by simp [hl]⟩

/-- The row that was rewritten is a row of the table. -/
theorem edit_mem (h : edit p f e l = .ok (l', v)) :
    ∃ a ∈ l, ∃ b, p a = true ∧ f a = .ok (b, v) := by
  obtain ⟨pre, a, b, post, rfl, ha, hf, -⟩ := edit_eq_ok h
  exact ⟨a, by simp, b, ha, hf⟩

/-- What holds of every row goes over to the edited table, in a weaker form for the rows that
stay. -/
theorem edit_forall {P Q : α → Prop} (h : edit p f e l = .ok (l', v)) (hl : ∀ a ∈ l, P a)
    (hstay : ∀ a, P a → Q a) (hf : ∀ a b, P a → f a = .ok (b, v) → Q b) : ∀ a ∈ l', Q a := by
  obtain ⟨pre, a, b, post, rfl, -, hab, rfl⟩ := edit_eq_ok h
  have hb : Q b := hf a b (hl a (by simp)) hab
  intro d hd
  rcases List.mem_append.mp hd with hd | hd
  · exact hstay d (hl d (by simp [hd]))
  · rcases List.mem_cons.mp hd with rfl | hd
    · exact hb
    · exact hstay d (hl d (by simp [hd]))

/-- The rows that satisfy `q` keep their number when the rewritten row keeps `q`. -/
theorem edit_countP {q : α → Bool} (h : edit p f e l = .ok (l', v))
    (hf : ∀ a b, f a = .ok (b, v) → q b = q a) : l'.countP q = l.countP q := by
  obtain ⟨pre, a, b, post, rfl, -, hab, rfl⟩ := edit_eq_ok h
  simp [List.countP_append, List.countP_cons, hf a b hab]

/-- One fewer row satisfies `q` when the rewritten row leaves it. -/
theorem edit_countP_leave {q : α → Bool} (h : edit p f e l = .ok (l', v))
    (hf : ∀ a b, f a = .ok (b, v) → q a = true ∧ q b = false) :
    l'.countP q + 1 = l.countP q := by
  obtain ⟨pre, a, b, post, rfl, -, hab, rfl⟩ := edit_eq_ok h
  obtain ⟨ha, hb⟩ := hf a b hab
  simp [List.countP_append, ha, hb, Nat.add_assoc]

/-- Row by row, an edited table is the old one but for the row that was rewritten. -/
theorem edit_forall₂ {R : α → α → Prop} (h : edit p f e l = .ok (l', v)) (hrefl : ∀ a, R a a)
    (hf : ∀ a b, p a = true → f a = .ok (b, v) → R a b) : List.Forall₂ R l l' := by
  obtain ⟨pre, a, b, post, rfl, ha, hab, rfl⟩ := edit_eq_ok h
  exact List.rel_append (List.forall₂_same.mpr fun x _ => hrefl x)
    (.cons (hf a b ha hab) (List.forall₂_same.mpr fun x _ => hrefl x))

/-- The only row that satisfies `p` is the one that is rewritten. -/
theorem edit_isOk_iff {a : α} (ha : a ∈ l) (hp : ∀ x ∈ l, p x = true ↔ x = a) :
    (∃ r, edit p f e l = .ok r) ↔ ∃ r, f a = .ok r := by
  induction l with
  | nil => cases ha
  | cons x xs ih =>
    unfold edit
    by_cases hx : p x = true
    · obtain rfl := (hp x List.mem_cons_self).mp hx
      rw [if_pos hx]
      cases f x <;> simp [Except.map]
    · rw [if_neg hx]
      have hmem : a ∈ xs := by
        rcases List.mem_cons.mp ha with rfl | hmem
        · exact absurd ((hp a List.mem_cons_self).mpr rfl) hx
        · exact hmem
      rw [← ih hmem fun y hy => hp y (List.mem_cons_of_mem _ hy)]
      cases edit p f e xs <;> simp [Except.map]

end Inversion

theorem exists_old {R : α → β → Prop} {l : List α} {l' : List β} (h : List.Forall₂ R l l') {b : β}
    (hb : b ∈ l') :
    ∃ a ∈ l, R a b := by
  induction h with
  | nil => cases hb
  | cons hR _ ih =>
    rcases List.mem_cons.mp hb with rfl | hb
    · exact ⟨_, List.mem_cons_self, hR⟩
    · obtain ⟨a, ha, hab⟩ := ih hb
      exact ⟨a, List.mem_cons_of_mem _ ha, hab⟩

theorem exists_new {R : α → α → Prop} {l l' : List α} (h : List.Forall₂ R l l') {a : α}
    (ha : a ∈ l) : ∃ b ∈ l', R a b := by
  obtain ⟨b, hb, hR⟩ := exists_old h.flip ha
  exact ⟨b, hb, hR⟩

/-- What holds between any two rows goes over to a table that is related to the old one row by
row. -/
theorem pairwise_of_forall₂ {R P : α → α → Prop} {l l' : List α} (h : List.Forall₂ R l l')
    (hl : l.Pairwise P) (hR : ∀ a a' b b', R a a' → R b b' → P a b → P a' b') : l'.Pairwise P := by
  induction h with
  | nil => exact .nil
  | @cons a a' as as' ha has ih =>
    obtain ⟨hfirst, hrest⟩ := List.pairwise_cons.mp hl
    refine List.pairwise_cons.mpr ⟨fun b' hb' => ?_, ih hrest⟩
    obtain ⟨b, hb, hbb'⟩ := exists_old has hb'
    exact hR a a' b b' ha hbb' (hfirst b hb)

/-- Two changes of a table, row by row. -/
theorem forall₂_trans {R : α → α → Prop} (hR : ∀ a b c, R a b → R b c → R a c) {l l' l'' : List α}
    (h : List.Forall₂ R l l') (h' : List.Forall₂ R l' l'') : List.Forall₂ R l l'' := by
  induction h generalizing l'' with
  | nil => exact h'
  | cons hab _ ih =>
    cases h' with
    | cons hbc hrest => exact .cons (hR _ _ _ hab hbc) (ih hrest)

end Rows
