import Mathlib.Tactic

/-!
# Regular expressions in pieces

A pattern is a list of pieces: one of some words, or a run of elements of a class with bounds on its
length. `Fits` is the language of a pattern. `search` looks for a match anywhere in a text, and
finds one exactly when a part of the text is in the language (`search_iff`).
-/

namespace Regexp

variable {α : Type}

inductive Piece (α : Type)
  | words (ws : List (List α))
  /-- At least `lo` elements of the class, and at most `hi`. -/
  | run (p : α → Bool) (lo : ℕ) (hi : Option ℕ)

/-- A piece that is there once, and one that may be missing. -/
def word (w : List α) : Piece α := .words [w]

def one (p : α → Bool) : Piece α := .run p 1 (some 1)

def optional (p : α → Bool) : Piece α := .run p 0 (some 1)

def many (p : α → Bool) : Piece α := .run p 0 none

/-- The texts of a piece. -/
def Piece.Takes : Piece α → List α → Prop
  | .words ws, w => w ∈ ws
  | .run p lo hi, w => w.all p = true ∧ lo ≤ w.length ∧ ∀ n ∈ hi, w.length ≤ n

/-- The texts of a pattern. -/
def Fits : List (Piece α) → List α → Prop
  | [], w => w = []
  | q :: qs, w => ∃ u v, w = u ++ v ∧ q.Takes u ∧ Fits qs v

/-- What may be left of a text after a run. -/
def runRests (p : α → Bool) : ℕ → Option ℕ → List α → List (List α)
  | lo, _, [] => if lo = 0 then [[]] else []
  | lo, hi, c :: b =>
    (if lo = 0 then [c :: b] else []) ++
      if p c && hi ≠ some 0 then runRests p (lo - 1) (hi.map (· - 1)) b else []

variable [DecidableEq α]

/-- What may be left of a text after a piece. -/
def Piece.rests : Piece α → List α → List (List α)
  | .words ws, b => (ws.filter (·.isPrefixOf b)).map fun w => b.drop w.length
  | .run p lo hi, b => runRests p lo hi b

/-- There is a match at the head of the text. -/
def atHead : List (Piece α) → List α → Bool
  | [], _ => true
  | q :: qs, b => (q.rests b).any (atHead qs)

/-- There is a match in the text. -/
def search (qs : List (Piece α)) (b : List α) : Bool := b.tails.any (atHead qs)

omit [DecidableEq α] in
theorem mem_runRests {p : α → Bool} {lo : ℕ} {hi : Option ℕ} {b r : List α} :
    r ∈ runRests p lo hi b ↔ ∃ w, b = w ++ r ∧ (Piece.run p lo hi).Takes w := by
  induction b generalizing lo hi with
  | nil =>
    simp only [runRests, Piece.Takes, List.mem_ite_nil_right]
    constructor
    · rintro ⟨hlo, h⟩
      obtain rfl := List.mem_singleton.mp h
      exact ⟨[], rfl, rfl, by simp [hlo], by simp⟩
    · rintro ⟨w, hb, -, hlo, -⟩
      obtain ⟨rfl, rfl⟩ := List.append_eq_nil_iff.mp hb.symm
      have hzero : lo = 0 := by simpa using hlo
      simp [hzero]
  | cons c b ih =>
    simp only [runRests, List.mem_append, List.mem_ite_nil_right, Bool.and_eq_true,
      decide_eq_true_eq]
    constructor
    · rintro (⟨hlo, h⟩ | ⟨hc, h⟩)
      · obtain rfl := List.mem_singleton.mp h
        exact ⟨[], rfl, rfl, by simp [hlo], by simp⟩
      · obtain ⟨w, rfl, hall, hlo, hhi⟩ := ih.mp h
        refine ⟨c :: w, rfl, by simp [hc.1, hall], by simp only [List.length_cons]; omega,
          fun n hn => ?_⟩
        obtain rfl := Option.mem_def.mp hn
        have hpositive : n ≠ 0 := fun hzero => hc.2 (by rw [hzero])
        have := hhi (n - 1) rfl
        simp only [List.length_cons]
        omega
    · rintro ⟨w, hb, hall, hlo, hhi⟩
      cases w with
      | nil =>
        left
        have hzero : lo = 0 := by simpa using hlo
        exact ⟨hzero, by simpa using hb.symm⟩
      | cons d w =>
        right
        obtain ⟨rfl, rfl⟩ := List.cons.inj hb
        rw [List.all_cons, Bool.and_eq_true] at hall
        have hbound : hi ≠ some 0 := fun hzero => by simpa using hhi 0 hzero
        refine ⟨⟨hall.1, hbound⟩, ih.mpr ⟨w, rfl, hall.2, ?_, fun n hn => ?_⟩⟩
        · simp only [List.length_cons] at hlo
          omega
        obtain ⟨m, hm, rfl⟩ := Option.map_eq_some_iff.mp (Option.mem_def.mp hn)
        have := hhi m hm
        simp only [List.length_cons] at this
        omega

theorem mem_rests {q : Piece α} {b r : List α} : r ∈ q.rests b ↔ ∃ w, b = w ++ r ∧ q.Takes w := by
  cases q with
  | run p lo hi => exact mem_runRests
  | words ws =>
    simp only [Piece.rests, List.mem_map, List.mem_filter, List.isPrefixOf_iff_prefix, Piece.Takes]
    constructor
    · rintro ⟨w, ⟨hw, rest, rfl⟩, rfl⟩
      exact ⟨w, by rw [List.drop_left], hw⟩
    · rintro ⟨w, rfl, hw⟩
      exact ⟨w, ⟨hw, List.prefix_append _ _⟩, List.drop_left⟩

theorem atHead_iff {qs : List (Piece α)} {b : List α} : atHead qs b = true ↔ ∃ w r, b = w ++ r ∧
    Fits qs w := by
  induction qs generalizing b with
  | nil => simp [atHead, Fits]
  | cons q qs ih =>
    simp only [atHead, List.any_eq_true, mem_rests, ih, Fits]
    constructor
    · rintro ⟨_, ⟨u, rfl, hu⟩, v, r, rfl, hv⟩
      exact ⟨u ++ v, r, (List.append_assoc ..).symm, u, v, rfl, hu, hv⟩
    · rintro ⟨_, r, rfl, u, v, rfl, hu, hv⟩
      exact ⟨v ++ r, ⟨u, List.append_assoc .., hu⟩, v, r, rfl, hv⟩

/-- **A search finds exactly what is there.** -/
theorem search_iff {qs : List (Piece α)} {b : List α} : search qs b = true ↔ ∃ w, w <:+: b ∧
    Fits qs w := by
  simp only [search, List.any_eq_true, List.mem_tails, atHead_iff]
  constructor
  · rintro ⟨_, ⟨front, rfl⟩, w, r, rfl, hw⟩
    exact ⟨w, ⟨front, r, List.append_assoc ..⟩, hw⟩
  · rintro ⟨w, ⟨front, r, rfl⟩, hw⟩
    exact ⟨w ++ r, ⟨front, (List.append_assoc ..).symm⟩, w, r, rfl, hw⟩

end Regexp
