import Mathlib.Tactic
import ComputeRelay.Lib.Lines

/-!
# Line ends in a text that comes in pieces

A line may end in CR, in LF or in CR LF. Who makes each of them one LF piece by piece sees a CR LF
that is divided between two pieces as two line ends. `marked` is a text that says of every character
whether it is the first of its piece, `strip` is the text with its line ends made LF, and `divided`
counts the CR LF that are divided, separately for every stretch between two characters that end no
line. The pieces matter through these counts and nothing else (`strip_eq_iff`).
-/

namespace LineEnds

/-- The characters of one piece, the first of them marked. -/
def marks : List Char → List (Char × Bool)
  | [] => []
  | c :: t => (c, true) :: t.map (·, false)

/-- The characters of some pieces, the first of each marked. -/
def marked (xs : List (List Char)) : List (Char × Bool) := (xs.map marks).flatten

/-- The text with one kind of line end; `after` says that a CR came just before. -/
def strip : Bool → List (Char × Bool) → List Char
  | _, [] => []
  | after, (c, first) :: t =>
    if c = '\r' then '\n' :: strip true t
    else if c = '\n' && after && !first then strip false t
    else c :: strip false t

/-- The number of CR LF that are divided, in every stretch of line ends. -/
def divided : ℕ → Bool → List (Char × Bool) → List ℕ
  | n, _, [] => [n]
  | n, after, (c, first) :: t =>
    if c = '\r' then divided n true t
    else if c = '\n' then divided (n + if after && first then 1 else 0) false t
    else n :: divided 0 false t

theorem map_fst_marks (t : List Char) : (marks t).map Prod.fst = t := by
  cases t with
  | nil => rfl
  | cons c t => simp [marks, Function.comp_def]

theorem map_fst_marked (xs : List (List Char)) : (marked xs).map Prod.fst = xs.flatten := by
  induction xs with
  | nil => rfl
  | cons t ts ih =>
    rw [marked, List.map_cons, List.flatten_cons, List.map_append, map_fst_marks]
    exact congrArg (t ++ ·) ih

variable {m m' : List (Char × Bool)}

/-! ### Equations -/

theorem strip_cr (after first : Bool) (t : List (Char × Bool)) :
    strip after (('\r', first) :: t) = '\n' :: strip true t := by
  simp [strip]

theorem strip_lf (after first : Bool) (t : List (Char × Bool)) :
    strip after (('\n', first) :: t) =
      List.replicate (if after && !first then 0 else 1) '\n' ++ strip false t := by
  cases after <;> cases first <;> simp [strip]

theorem strip_other {c : Char} (hr : c ≠ '\r') (hn : c ≠ '\n') (after first : Bool)
    (t : List (Char × Bool)) : strip after ((c, first) :: t) = c :: strip false t := by
  simp [strip, hr, hn]

theorem divided_cr (n : ℕ) (after first : Bool) (t : List (Char × Bool)) :
    divided n after (('\r', first) :: t) = divided n true t := by
  simp [divided]

theorem divided_lf (n : ℕ) (after first : Bool) (t : List (Char × Bool)) :
    divided n after (('\n', first) :: t) =
      divided (n + if after && first then 1 else 0) false t := by
  simp [divided]

theorem divided_other {c : Char} (hr : c ≠ '\r') (hn : c ≠ '\n') (n : ℕ) (after first : Bool)
    (t : List (Char × Bool)) : divided n after ((c, first) :: t) = n :: divided 0 false t := by
  simp [divided, hr, hn]

/-! ### What the pieces change -/

theorem replicate_append_cons_eq_iff {c : Char} (hc : c ≠ '\n') {a b : ℕ} {s t : List Char} :
    List.replicate a '\n' ++ c :: s = List.replicate b '\n' ++ c :: t ↔ a = b ∧ s = t := by
  induction a generalizing b with
  | zero =>
    cases b with
    | zero => simp
    | succ b => simp [List.replicate_succ, hc]
  | succ a ih =>
    cases b with
    | zero => simp [List.replicate_succ, Ne.symm hc]
    | succ b => simp [List.replicate_succ, ih]

theorem replicate_append_cons (a : ℕ) (s : List Char) :
    List.replicate a '\n' ++ '\n' :: s = List.replicate (a + 1) '\n' ++ s := by
  rw [List.replicate_succ', List.append_assoc]
  rfl

/-- Two ways to divide a text agree up to `n` and `n'` more line ends and the `e` that both have. -/
theorem replicate_strip_eq_iff (h : m.map Prod.fst = m'.map Prod.fst) (after : Bool) (n n' e : ℕ) :
    List.replicate (n + e) '\n' ++ strip after m = List.replicate (n' + e) '\n' ++ strip after m' ↔
      divided n after m = divided n' after m' := by
  induction m generalizing m' after n n' e with
  | nil =>
    obtain rfl : m' = [] := by simpa using h.symm
    simp [strip, divided]
  | cons x t ih =>
    obtain ⟨c, first⟩ := x
    cases m' with
    | nil => simp at h
    | cons x' t' =>
      obtain ⟨c', first'⟩ := x'
      obtain ⟨rfl, ht⟩ : c = c' ∧ t.map Prod.fst = t'.map Prod.fst := by simpa using h
      by_cases hr : c = '\r'
      · subst hr
        rw [strip_cr, strip_cr, divided_cr, divided_cr, replicate_append_cons,
          replicate_append_cons]
        exact ih ht true n n' (e + 1)
      by_cases hn : c = '\n'
      · subst hn
        rw [strip_lf, strip_lf, divided_lf, divided_lf, ← List.append_assoc, ← List.append_assoc,
          List.replicate_append_replicate, List.replicate_append_replicate]
        -- behind a CR only a divided LF counts, elsewhere every LF does
        cases after with
        | true =>
          rw [← ih ht false (n + if true && first then 1 else 0) (n' + if true &&
            first' then 1 else 0) e]
          cases first <;> cases first' <;> simp [Nat.add_right_comm]
        | false => exact ih ht false n n' (e + 1)
      · rw [strip_other hr hn, strip_other hr hn, divided_other hr hn, divided_other hr hn,
          replicate_append_cons_eq_iff hn, List.cons.injEq]
        exact and_congr (by omega) (by simpa using ih ht false 0 0 0)

/-- The pieces of a text matter through the CR LF that they divide. -/
theorem strip_eq_iff (h : m.map Prod.fst = m'.map Prod.fst) :
    strip false m = strip false m' ↔ divided 0 false m = divided 0 false m' := by
  simpa using replicate_strip_eq_iff h false 0 0 0

/-- The lines that are not empty, and what is behind the last line end. -/
def words (t : List Char) : List (List Char) × List Char :=
  (((Lines.cut '\n' t).1).filter (· ≠ []), (Lines.cut '\n' t).2)

theorem words_line {w : List Char} (hw : '\n' ∉ w) (t : List Char) :
    words (w ++ '\n' :: t) = ([w].filter (· ≠ []) ++ (words t).1, (words t).2) := by
  rw [words, Lines.cut_line hw, ← List.singleton_append, List.filter_append]
  rfl

/-- Lines that are not empty are the same in all pieces. -/
theorem words_strip (h : m.map Prod.fst = m'.map Prod.fst) {after : Bool} {w : List Char}
    (hw : '\n' ∉ w)
    (hafter : after = true → w = []) :
    words (w ++ strip after m) = words (w ++ strip after m') := by
  induction m generalizing m' after w with
  | nil =>
    obtain rfl : m' = [] := by simpa using h.symm
    rfl
  | cons x t ih =>
    obtain ⟨c, first⟩ := x
    cases m' with
    | nil => simp at h
    | cons x' t' =>
      obtain ⟨c', first'⟩ := x'
      obtain ⟨rfl, ht⟩ : c = c' ∧ t.map Prod.fst = t'.map Prod.fst := by simpa using h
      by_cases hr : c = '\r'
      · subst hr
        have hrest : words (strip true t) = words (strip true t') :=
          ih ht List.not_mem_nil fun _ => rfl
        rw [strip_cr, strip_cr, words_line hw, words_line hw, hrest]
      by_cases hn : c = '\n'
      · subst hn
        have hrest : words (strip false t) = words (strip false t') :=
          ih ht List.not_mem_nil (by simp)
        have hend (t : List Char) : words ('\n' :: t) = words t := words_line List.not_mem_nil t
        cases after with
        | true =>
          rw [hafter rfl, strip_lf, strip_lf]
          cases first <;> cases first' <;> simpa [hend] using hrest
        | false =>
          rw [strip_lf, strip_lf]
          simp only [Bool.false_and, Bool.false_eq_true, if_false, List.replicate_one,
            List.singleton_append]
          rw [words_line hw, words_line hw, hrest]
      · have hw' : '\n' ∉ w ++ [c] := by simpa [hw] using Ne.symm hn
        rw [strip_other hr hn, strip_other hr hn]
        simpa using ih ht hw' (by simp)

end LineEnds
