import Mathlib.Tactic

/-!
# Bounded sequential readers

A tape holds what is still to be read and how much of it may be read. `read` takes an exact number
of symbols. `readIn` takes them in pieces of a fixed size and feeds each piece to a loop body; by
`readIn_read` it takes what `read` takes, and `readIn_append` says that collecting the pieces gives
the same symbols. `readIn_fold` is the loop as a fold over the pieces.
-/

structure Tape (α : Type*) where
  rest : List α
  left : ℕ

namespace Tape

universe u

variable {α σ : Type u}

/-- Read exactly `n` symbols. -/
def read (t : Tape α) (n : ℕ) : Option (List α × Tape α) :=
  if n ≤ t.rest.length ∧ n ≤ t.left then some (t.rest.take n, ⟨t.rest.drop n, t.left - n⟩) else none

variable {t u : Tape α} {n : ℕ} {data : List α}

theorem read_eq_some : t.read n = some (data, u) ↔
    data.length = n ∧ t.rest = data ++ u.rest ∧ t.left = n + u.left := by
  unfold read
  constructor
  · intro h
    split_ifs at h with hn
    simp only [Option.some.injEq, Prod.mk.injEq] at h
    obtain ⟨rfl, rfl⟩ := h
    exact ⟨by simp [hn.1], (List.take_append_drop n t.rest).symm, by simp only; omega⟩
  · rintro ⟨rfl, hrest, hleft⟩
    rw [if_pos (by rw [hrest, List.length_append]; omega), hrest, List.take_left', List.drop_left',
      hleft, Nat.add_sub_cancel_left] <;> rfl

theorem read_zero (t : Tape α) : t.read 0 = some ([], t) :=
  read_eq_some.mpr ⟨rfl, rfl, (Nat.zero_add _).symm⟩

theorem read_add {m : ℕ} {more : List α} {v : Tape α} (h : t.read m = some (data, u))
    (h' : u.read n = some (more, v)) : t.read (m + n) = some (data ++ more, v) := by
  rw [read_eq_some] at *
  obtain ⟨rfl, hrest, hleft⟩ := h
  obtain ⟨rfl, hrest', hleft'⟩ := h'
  refine ⟨List.length_append, ?_, by omega⟩
  rw [hrest, hrest', List.append_assoc]

theorem read_split {m : ℕ} (h : t.read (m + n) = some (data, u)) :
    ∃ v, t.read m = some (data.take m, v) ∧ v.read n = some (data.drop m, u) := by
  rw [read_eq_some] at h
  obtain ⟨hlen, hrest, hleft⟩ := h
  refine ⟨⟨data.drop m ++ u.rest, n + u.left⟩, ?_, ?_⟩
  · rw [read_eq_some]
    refine ⟨by rw [List.length_take]; omega, ?_, by simp only; omega⟩
    rw [hrest, ← List.append_assoc, List.take_append_drop]
  · rw [read_eq_some]
    exact ⟨by rw [List.length_drop]; omega, rfl, rfl⟩

/-! ### Reading in pieces -/

/-- Read `n` symbols in pieces of at most `size + 1`, each handed to the body. No loop takes more
rounds than symbols, so `n` rounds are enough. -/
def pieces (size : ℕ) (body : σ → List α → Option σ) : ℕ → ℕ → σ → Tape α → Option (σ × Tape α)
  | _, 0, s, t => some (s, t)
  | 0, _ + 1, _, _ => none
  | rounds + 1, n + 1, s, t => do
    let (data, t) ← t.read (min (size + 1) (n + 1))
    let s ← body s data
    pieces size body rounds (n + 1 - min (size + 1) (n + 1)) s t

def readIn (size : ℕ) (body : σ → List α → Option σ) (n : ℕ) (s : σ) (t : Tape α) :
    Option (σ × Tape α) := pieces size body n n s t

variable {size rounds : ℕ} {body : σ → List α → Option σ} {s s' : σ}

theorem pieces_zero (s : σ) (t : Tape α) : pieces size body rounds 0 s t = some (s, t) := by
  cases rounds <;> rfl

theorem pieces_read (kept : σ → List α)
    (hbody : ∀ s data s', body s data = some s' → kept s' = kept s ++ data)
    (h : pieces size body rounds n s t = some (s', u)) :
    ∃ data, t.read n = some (data, u) ∧ kept s' = kept s ++ data := by
  induction rounds generalizing n s t with
  | zero =>
    rcases n with - | n
    · rw [pieces_zero, Option.some.injEq, Prod.mk.injEq] at h
      exact ⟨[], h.2 ▸ read_zero t, by rw [← h.1, List.append_nil]⟩
    · cases h
  | succ rounds ih =>
    rcases n with - | n
    · rw [pieces_zero, Option.some.injEq, Prod.mk.injEq] at h
      exact ⟨[], h.2 ▸ read_zero t, by rw [← h.1, List.append_nil]⟩
    · rw [pieces] at h
      simp only [bind, Option.bind_eq_some_iff] at h
      obtain ⟨⟨data, v⟩, hread, m, hm, h⟩ := h
      obtain ⟨more, hmore, hkept⟩ := ih h
      refine ⟨data ++ more, ?_, ?_⟩
      · rw [show n + 1 = min (size + 1) (n + 1) + (n + 1 - min (size + 1) (n + 1)) by omega]
        exact read_add hread hmore
      · rw [hkept, hbody s data m hm, List.append_assoc]

theorem pieces_append {kept : List α} (hrounds : n ≤ rounds) (h : t.read n = some (data, u)) :
    pieces size (fun kept data => some (kept ++ data)) rounds n kept t =
      some (kept ++ data, u) := by
  induction rounds generalizing n kept t data with
  | zero =>
    obtain rfl : n = 0 := by omega
    rw [read_zero, Option.some.injEq, Prod.mk.injEq] at h
    obtain ⟨rfl, rfl⟩ := h
    rw [pieces, List.append_nil]
  | succ rounds ih =>
    cases n with
    | zero =>
      rw [read_zero, Option.some.injEq, Prod.mk.injEq] at h
      obtain ⟨rfl, rfl⟩ := h
      rw [pieces, List.append_nil]
    | succ n =>
      have hsum : n + 1 = min (size + 1) (n + 1) + (n + 1 - min (size + 1) (n + 1)) := by omega
      rw [hsum] at h
      obtain ⟨v, hfirst, hrest⟩ := read_split h
      rw [pieces, hfirst]
      refine (ih (by omega) hrest).trans ?_
      rw [List.append_assoc, List.take_append_drop]

theorem pieces_fold (hrounds : n ≤ rounds) (h : t.read n = some (data, u)) :
    ∃ chunks : List (List α), chunks.flatten = data ∧ (∀ c ∈ chunks, c ≠ []) ∧
      pieces size body rounds n s t = (chunks.foldlM body s).map fun s' => (s', u) := by
  induction rounds generalizing n s t data with
  | zero =>
    obtain rfl : n = 0 := by omega
    rw [read_zero, Option.some.injEq, Prod.mk.injEq] at h
    obtain ⟨rfl, rfl⟩ := h
    exact ⟨[], rfl, by simp, rfl⟩
  | succ rounds ih =>
    cases n with
    | zero =>
      rw [read_zero, Option.some.injEq, Prod.mk.injEq] at h
      obtain ⟨rfl, rfl⟩ := h
      exact ⟨[], rfl, by simp, rfl⟩
    | succ n =>
      have hsum : n + 1 = min (size + 1) (n + 1) + (n + 1 - min (size + 1) (n + 1)) := by omega
      have hlength : data.length = n + 1 := (read_eq_some.mp h).1
      rw [hsum] at h
      obtain ⟨v, hfirst, hrest⟩ := read_split h
      have hne : data.take (min (size + 1) (n + 1)) ≠ [] := by
        rw [ne_eq, List.take_eq_nil_iff, ← List.length_eq_zero_iff]
        omega
      rw [pieces, hfirst]
      show ∃ chunks : List (List α), _ ∧ _ ∧ (body s _).bind _ = _
      cases hbody : body s (data.take (min (size + 1) (n + 1))) with
      | none =>
        -- the rest may be cut in any way
        obtain ⟨chunks, hflat, hchunks, -⟩ := ih (s := s) (by omega) hrest
        refine ⟨data.take _ :: chunks, by rw [List.flatten_cons, hflat, List.take_append_drop],
          List.forall_mem_cons.mpr ⟨hne, hchunks⟩, ?_⟩
        rw [List.foldlM_cons, hbody]
        rfl
      | some s' =>
        obtain ⟨chunks, hflat, hchunks, hfold⟩ := ih (s := s') (by omega) hrest
        refine ⟨data.take _ :: chunks, by rw [List.flatten_cons, hflat, List.take_append_drop],
          List.forall_mem_cons.mpr ⟨hne, hchunks⟩, ?_⟩
        rw [List.foldlM_cons, hbody]
        exact hfold

/-- A loop that keeps all it reads, whatever else it does, reads what `read` reads. -/
theorem readIn_read (kept : σ → List α)
    (hbody : ∀ s data s', body s data = some s' → kept s' = kept s ++ data)
    (h : readIn size body n s t = some (s', u)) :
    ∃ data, t.read n = some (data, u) ∧ kept s' = kept s ++ data :=
  pieces_read kept hbody h

theorem readIn_append {kept : List α} (h : t.read n = some (data, u)) :
    readIn size (fun kept data => some (kept ++ data)) n kept t = some (kept ++ data, u) :=
  pieces_append le_rfl h

theorem readIn_fold (size : ℕ) (body : σ → List α → Option σ) (s : σ)
    (h : t.read n = some (data, u)) :
    ∃ chunks : List (List α), chunks.flatten = data ∧ (∀ c ∈ chunks, c ≠ []) ∧
      readIn size body n s t = (chunks.foldlM body s).map fun s' => (s', u) :=
  pieces_fold le_rfl h

end Tape
