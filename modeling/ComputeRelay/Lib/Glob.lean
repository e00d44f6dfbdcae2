import Mathlib.Tactic

/-!
# Patterns with wildcards

A pattern for a path is a list of tokens. Some tokens stand for any number of components, and every
other one for one component that it accepts: `Covers`. `reaches` decides with one row per token
whether the pattern covers a path or one of the directories above it; a row tells for each beginning
of the path whether the tokens so far cover it (`rows_iff`).

`Shell` has the patterns of one component, with the wildcards `*`, `?` and `[...]`.
-/

namespace Glob

section Rows

variable {τ α : Type*} (wild : τ → Bool) (accepts : τ → α → Bool)

/-- The pattern covers the path. -/
inductive Covers : List τ → List α → Prop
  | nil : Covers [] []
  | none {t : τ} {ts : List τ} {ps : List α} : wild t = true → Covers ts ps → Covers (t :: ts) ps
  | more {t : τ} {ts : List τ} {p : α} {ps : List α} : wild t = true → Covers (t :: ts) ps →
      Covers (t :: ts) (p :: ps)
  | one {t : τ} {ts : List τ} {p : α} {ps : List α} : wild t = false → accepts t p = true →
    Covers ts ps →
      Covers (t :: ts) (p :: ps)

/-- The row after a wild token: `before` is the last entry of the new row. -/
def wildRow (before : Bool) : List Bool → List Bool
  | [] => []
  | d :: row => (d || before) :: wildRow (d || before) row

/-- The row after another token, without its first entry. -/
def oneRow (t : τ) : List Bool → List α → List Bool
  | d :: row, p :: ps => (d && accepts t p) :: oneRow t row ps
  | _, _ => []

def nextRow (ps : List α) (row : List Bool) (t : τ) : List Bool :=
  if wild t then wildRow false row else false :: oneRow accepts t row ps

def rows (ts : List τ) (ps : List α) : List Bool :=
  ts.foldl (nextRow wild accepts ps) (true :: List.replicate ps.length false)

/-- The pattern covers a beginning of the path. -/
def reaches (ts : List τ) (ps : List α) : Bool := (rows wild accepts ts ps).any id

variable {wild accepts} {t : τ} {ts us : List τ} {p : α} {ps : List α}

theorem covers_nil_iff : Covers wild accepts [] ps ↔ ps = [] := by
  constructor
  · rintro ⟨⟩
    rfl
  · rintro rfl
    exact .nil

theorem covers_wild_iff (ht : wild t = true) (ps : List α) :
    Covers wild accepts (t :: ts) ps ↔ ∃ qs rs, ps = qs ++ rs ∧ Covers wild accepts ts rs := by
  constructor
  · intro h
    induction ps with
    | nil =>
      cases h with
      | none _ h => exact ⟨[], [], rfl, h⟩
    | cons p ps ih =>
      cases h with
      | none _ h => exact ⟨[], p :: ps, rfl, h⟩
      | more _ h =>
        obtain ⟨qs, rs, rfl, hrest⟩ := ih h
        exact ⟨p :: qs, rs, rfl, hrest⟩
      | one hf => simp [ht] at hf
  · rintro ⟨qs, rs, rfl, h⟩
    induction qs with
    | nil => exact .none ht h
    | cons q qs ih => exact .more ht ih

theorem covers_one_iff (ht : wild t = false) :
    Covers wild accepts (t :: ts) ps ↔ ∃ p qs, ps = p :: qs ∧ accepts t p = true ∧
      Covers wild accepts ts qs := by
  constructor
  · intro h
    cases h with
    | none hf => simp [ht] at hf
    | more hf => simp [ht] at hf
    | one _ ha h => exact ⟨_, _, rfl, ha, h⟩
  · rintro ⟨p, qs, rfl, ha, h⟩
    exact .one ht ha h

/-- The two parts of a pattern cover two parts of the path. -/
theorem covers_append_iff (ts us : List τ) (ps : List α) :
    Covers wild accepts (ts ++ us) ps ↔
      ∃ qs rs, ps = qs ++ rs ∧ Covers wild accepts ts qs ∧ Covers wild accepts us rs := by
  induction ts generalizing ps with
  | nil => simp [covers_nil_iff]
  | cons t ts ih =>
    rw [List.cons_append]
    cases ht : wild t with
    | true =>
      simp only [covers_wild_iff ht, ih]
      constructor
      · rintro ⟨xs, _, rfl, qs, rs, rfl, hq, hr⟩
        exact ⟨xs ++ qs, rs, (List.append_assoc ..).symm, ⟨xs, qs, rfl, hq⟩, hr⟩
      · rintro ⟨_, rs, rfl, ⟨xs, qs, rfl, hq⟩, hr⟩
        exact ⟨xs, qs ++ rs, List.append_assoc .., qs, rs, rfl, hq, hr⟩
    | false =>
      simp only [covers_one_iff ht, ih]
      constructor
      · rintro ⟨p, _, rfl, ha, qs, rs, rfl, hq, hr⟩
        exact ⟨p :: qs, rs, rfl, ⟨p, qs, rfl, ha, hq⟩, hr⟩
      · rintro ⟨_, rs, rfl, ⟨p, qs, rfl, ha, hq⟩, hr⟩
        exact ⟨p, qs ++ rs, rfl, ha, qs, rs, rfl, hq, hr⟩

theorem covers_concat_wild (ht : wild t = true) :
    Covers wild accepts (ts ++ [t]) ps ↔ ∃ qs, qs <+: ps ∧ Covers wild accepts ts qs := by
  simp only [covers_append_iff, covers_wild_iff ht, covers_nil_iff]
  constructor
  · rintro ⟨qs, rs, rfl, hq, -⟩
    exact ⟨qs, List.prefix_append _ _, hq⟩
  · rintro ⟨qs, ⟨rs, rfl⟩, hq⟩
    exact ⟨qs, rs, rfl, hq, rs, [], (List.append_nil _).symm, rfl⟩

theorem covers_concat_one (ht : wild t = false) :
    Covers wild accepts (ts ++ [t]) (ps ++ [p]) ↔ Covers wild accepts ts ps ∧
      accepts t p = true := by
  simp only [covers_append_iff, covers_one_iff ht, covers_nil_iff]
  constructor
  · rintro ⟨qs, rs, heq, hq, p', _, rfl, ha, rfl⟩
    obtain ⟨rfl, hlast⟩ := List.append_inj' heq rfl
    obtain rfl : p = p' := List.singleton_inj.mp hlast
    exact ⟨hq, ha⟩
  · rintro ⟨hq, ha⟩
    exact ⟨ps, [p], rfl, hq, p, [], rfl, ha, rfl⟩

theorem not_covers_concat_nil (ht : wild t = false) : ¬ Covers wild accepts (ts ++ [t]) [] := by
  simp only [covers_append_iff, covers_one_iff ht, covers_nil_iff]
  rintro ⟨qs, rs, heq, -, p, _, rfl, -, -⟩
  simp at heq

/-! ### Rows -/

/-- The entries of a row are about the path `done` and its continuations along `ps`. -/
inductive Row (f : List α → Prop) : List α → List α → List Bool → Prop
  | last {done : List α} {d : Bool} : (d = true ↔ f done) → Row f done [] [d]
  | cons {done : List α} {p : α} {ps : List α} {d : Bool} {row : List Bool} :
      (d = true ↔ f done) → Row f (done ++ [p]) ps row → Row f done (p :: ps) (d :: row)

theorem row_start (ps : List α) :
    Row (Covers wild accepts ([] : List τ)) [] ps (true :: List.replicate ps.length false) := by
  have hrest (done ps : List α) (hdone : done ≠ []) :
      Row (Covers wild accepts ([] : List τ)) done ps (List.replicate (ps.length + 1) false) := by
    induction ps generalizing done with
    | nil => exact .last (by simpa [covers_nil_iff] using hdone)
    | cons p ps ih => exact .cons (by simpa [covers_nil_iff] using hdone) (ih _ (by simp))
  cases ps with
  | nil => exact .last (by simp [covers_nil_iff])
  | cons p ps => exact .cons (by simp [covers_nil_iff]) (hrest [p] ps (by simp))

theorem row_wild {f : List α → Prop} {before : Bool} {done : List α} {row : List Bool}
    (h : Row f done ps row) (hbefore : before = true ↔ ∃ q, q <+: done ∧ q ≠ done ∧ f q) :
    Row (fun q => ∃ q', q' <+: q ∧ f q') done ps (wildRow before row) := by
  -- the entry that is written now is the one before for the entry after it
  have hnow {d before : Bool} {done : List α} (hd : d = true ↔ f done)
      (hbefore : before = true ↔ ∃ q, q <+: done ∧ q ≠ done ∧ f q) :
      (d || before) = true ↔ ∃ q', q' <+: done ∧ f q' := by
    rw [Bool.or_eq_true, hd, hbefore]
    constructor
    · rintro (h | ⟨q, hq, -, h⟩)
      · exact ⟨done, List.prefix_refl _, h⟩
      · exact ⟨q, hq, h⟩
    · rintro ⟨q, hq, h⟩
      by_cases heq : q = done
      · exact .inl (heq ▸ h)
      · exact .inr ⟨q, hq, heq, h⟩
  induction h generalizing before with
  | last hd => exact .last (hnow hd hbefore)
  | cons hd _ ih =>
    refine .cons (hnow hd hbefore) (ih ((hnow hd hbefore).trans (exists_congr fun q => ?_)))
    rw [List.prefix_concat_iff]
    constructor
    · rintro ⟨hq, hf⟩
      refine ⟨.inr hq, ?_, hf⟩
      rintro rfl
      simpa using hq.length_le
    · rintro ⟨hq, hne, hf⟩
      exact ⟨hq.resolve_left hne, hf⟩

theorem row_one {f g : List α → Prop} (hg : ∀ q p, g (q ++ [p]) ↔ f q ∧ accepts t p = true)
    {done : List α} {row : List Bool} (h : Row f done (p :: ps) row) :
    Row g (done ++ [p]) ps (oneRow accepts t row (p :: ps)) := by
  induction ps generalizing done p row with
  | nil =>
    cases h with
    | cons hd h =>
      cases h with
      | last _ =>
        refine .last ?_
        rw [Bool.and_eq_true, hd, hg]
  | cons p' ps ih =>
    cases h with
    | cons hd h =>
      refine .cons ?_ (ih h)
      rw [Bool.and_eq_true, hd, hg]

theorem row_next {row : List Bool} (t : τ) (h : Row (Covers wild accepts ts) [] ps row) :
    Row (Covers wild accepts (ts ++ [t])) [] ps (nextRow wild accepts ps row t) := by
  unfold nextRow
  cases ht : wild t with
  | true =>
    rw [if_pos rfl, show Covers wild accepts (ts ++ [t]) = fun q => ∃ q', q' <+: q ∧
      Covers wild accepts ts q' from
      funext fun q => propext (covers_concat_wild ht)]
    refine row_wild h (iff_of_false Bool.false_ne_true ?_)
    rintro ⟨q, hq, hne, -⟩
    exact hne (List.prefix_nil.mp hq)
  | false =>
    rw [if_neg Bool.false_ne_true]
    have hstart : false = true ↔ Covers wild accepts (ts ++ [t]) [] :=
      iff_of_false Bool.false_ne_true (not_covers_concat_nil ht)
    cases ps with
    | nil =>
      cases h with
      | last _ => exact .last hstart
    | cons p ps => exact .cons hstart (row_one (fun q p => covers_concat_one ht) h)

theorem row_rows (ts : List τ) (ps : List α) :
    Row (Covers wild accepts ts) [] ps (rows wild accepts ts ps) := by
  induction ts using List.reverseRecOn with
  | nil => exact row_start ps
  | append_singleton ts t ih =>
    rw [rows, List.foldl_append]
    exact row_next t ih

theorem any_row_iff {f : List α → Prop} {done : List α} {row : List Bool} (h : Row f done ps row) :
    row.any id = true ↔ ∃ q, q <+: ps ∧ f (done ++ q) := by
  induction h with
  | last hd => simp [hd]
  | @cons done p ps d row hd _ ih =>
    rw [List.any_cons, Bool.or_eq_true, ih, id_eq, hd]
    constructor
    · rintro (hf | ⟨q, hq, hf⟩)
      · exact ⟨[], List.nil_prefix, by rwa [List.append_nil]⟩
      · exact ⟨p :: q, List.cons_prefix_cons.mpr ⟨rfl, hq⟩, by simpa using hf⟩
    · rintro ⟨q, hq, hf⟩
      cases q with
      | nil => exact .inl (by rwa [List.append_nil] at hf)
      | cons p' q =>
        obtain ⟨rfl, htail⟩ := List.cons_prefix_cons.mp hq
        exact .inr ⟨q, htail, by simpa using hf⟩

/-- **The rows decide whether the pattern covers a beginning of the path.** -/
theorem reaches_iff (ts : List τ) (ps : List α) :
    reaches wild accepts ts ps = true ↔ ∃ q, q <+: ps ∧ Covers wild accepts ts q :=
  any_row_iff (row_rows ts ps)

theorem reaches_append (h : reaches wild accepts ts ps = true) (qs : List α) :
    reaches wild accepts ts (ps ++ qs) = true := by
  obtain ⟨q, hq, hcovers⟩ := (reaches_iff ts ps).mp h
  exact (reaches_iff ts _).mpr ⟨q, hq.trans (List.prefix_append _ _), hcovers⟩

end Rows

/-! ### One component

The shell patterns of the `path` package of Go: `*` is any sequence without a slash, `?` any
character but a slash, `[...]` a class of characters, and a backslash takes the next character as it
is.
-/

namespace Shell

inductive Term
  | star
  | one
  | char (c : Char)
  | class_ (negated : Bool) (ranges : List (Char × Char))

/-- Where a pattern is read. -/
inductive Mode
  | text
  | quoted
  /-- After `[`. -/
  | opened
  /-- Before the first character of a range. -/
  | item (negated : Bool) (ranges : List (Char × Char))
  | quotedItem (negated : Bool) (ranges : List (Char × Char))
  /-- After the first character of a range. -/
  | lower (negated : Bool) (ranges : List (Char × Char)) (lo : Char)
  | upper (negated : Bool) (ranges : List (Char × Char)) (lo : Char)
  | quotedUpper (negated : Bool) (ranges : List (Char × Char)) (lo : Char)

/-- A character where a range begins; a class has at least one. -/
def item (terms : List Term) (negated : Bool) (ranges : List (Char × Char)) (c : Char) :
    Option (List Term × Mode) :=
  if c = ']' && !ranges.isEmpty then some (terms ++ [.class_ negated ranges], .text)
  else if c = '-' || c = ']' then none
  else if c = '\\' then some (terms, .quotedItem negated ranges)
  else some (terms, .lower negated ranges c)

def step : List Term × Mode → Char → Option (List Term × Mode)
  | (terms, .text), c =>
    if c = '*' then some (terms ++ [.star], .text)
    else if c = '?' then some (terms ++ [.one], .text)
    else if c = '\\' then some (terms, .quoted)
    else if c = '[' then some (terms, .opened)
    else some (terms ++ [.char c], .text)
  | (terms, .quoted), c => some (terms ++ [.char c], .text)
  | (terms, .opened), c => if c = '^' then some (terms, .item true []) else item terms false [] c
  | (terms, .item negated ranges), c => item terms negated ranges c
  | (terms, .quotedItem negated ranges), c => some (terms, .lower negated ranges c)
  | (terms, .lower negated ranges lo), c =>
    if c = '-' then some (terms, .upper negated ranges lo)
    else item terms negated (ranges ++ [(lo, lo)]) c
  | (terms, .upper negated ranges lo), c =>
    if c = '-' || c = ']' then none
    else if c = '\\' then some (terms, .quotedUpper negated ranges lo)
    else some (terms, .item negated (ranges ++ [(lo, c)]))
  | (terms, .quotedUpper negated ranges lo), c => some (terms, .item negated (ranges ++ [(lo, c)]))

/-- The terms of a pattern that is well formed. -/
def parse (pattern : List Char) : Option (List Term) :=
  match pattern.foldlM step ([], .text) with
  | some (terms, .text) => some terms
  | _ => none

def Term.accepts (c : Char) : Term → Bool
  | .star => false
  | .one => c ≠ '/'
  | .char d => c = d
  | .class_ negated ranges => negated != ranges.any fun r => r.1 ≤ c && c ≤ r.2

/-- A star, and what comes behind it. -/
def afterStar (rest : List Char → Bool) : List Char → Bool
  | [] => rest []
  | c :: cs => rest (c :: cs) || (c ≠ '/' && afterStar rest cs)

def accepts : List Term → List Char → Bool
  | [], cs => cs.isEmpty
  | .star :: terms, cs => afterStar (accepts terms) cs
  | _ :: _, [] => false
  | t :: terms, c :: cs => t.accepts c && accepts terms cs

/-- `path.Match`, with its error as `none`. -/
def pathMatch (pattern name : List Char) : Option Bool :=
  (parse pattern).map fun terms => accepts terms name

example : pathMatch "draft?.[a-y]*".toList "draft7.txt".toList = some true := by decide

example : pathMatch "[a-".toList [] = none := by decide

end Shell

end Glob
