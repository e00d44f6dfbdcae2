import Mathlib.Tactic

/-!
# Scanning a text for matches from the left

A matcher says how long the match at the head of a text is. `sub` replaces matches from left to
right by a marker, `finditer` lists where they are, and `found` says whether there is one at all; a
match is not searched for others. `skipAt` is how much of a match is left when the scan comes to a
position.

* `skipAt_retreat`: a cut moved back out of the listed matches is between matches for the scan.
* `infix_sub`, `prefix_sub` and `suffix_sub`: what has no byte of the marker in the output is in the
  input, and the scan left it alone.
* `suffix_unmatched`: if a cut divides no match, no pattern that begins in what the scan left alone
  before the cut ends behind it.

`anyOf` matches the first of some words; no word that is foreign to the marker is left behind by
`sub` (`not_infix_sub`). `run`, `seq` and `orElse` build matchers for patterns whose repetitions
never have to give back what they took.
-/

namespace Scan

variable {α : Type*}

/-- The length of the match at the head of a text. -/
abbrev Matcher (α : Type*) := List α → Option ℕ

/-- The matches are replaced by the marker; `skip` more elements belong to a match already. -/
def sub (p : Matcher α) (marker : List α) : ℕ → List α → List α
  | _, [] => []
  | k + 1, _ :: r => sub p marker k r
  | 0, b :: r =>
    match p (b :: r) with
    | some (n + 1) => marker ++ sub p marker n r
    | _ => b :: sub p marker 0 r

/-- Where the matches begin and end, counted from `pos`. -/
def finditer (p : Matcher α) : ℕ → ℕ → List α → List (ℕ × ℕ)
  | _, _, [] => []
  | pos, k + 1, _ :: r => finditer p (pos + 1) k r
  | pos, 0, b :: r =>
    match p (b :: r) with
    | some (n + 1) => (pos, pos + (n + 1)) :: finditer p (pos + 1) n r
    | _ => finditer p (pos + 1) 0 r

/-- There is a match somewhere. -/
def found (p : Matcher α) : List α → Bool
  | [] => (p []).isSome
  | b :: r => (p (b :: r)).isSome || found p r

/-- What is left of a match when the scan comes to a position. -/
def skipAt (p : Matcher α) : ℕ → List α → ℕ → ℕ
  | k, _, 0 => k
  | _, [], _ + 1 => 0
  | k + 1, _ :: r, c + 1 => skipAt p k r c
  | 0, b :: r, c + 1 =>
    match p (b :: r) with
    | some (n + 1) => skipAt p n r c
    | _ => skipAt p 0 r c

section SkipAt

variable {p : Matcher α} {k c : ℕ} {d e : List α}

@[simp] theorem skipAt_zero : skipAt p k d 0 = k := by
  cases d <;> rfl

/-- Inside a match the count goes down. -/
theorem skipAt_of_le (hc : c ≤ k) (hd : c ≤ d.length) : skipAt p k d c = k - c := by
  induction d generalizing k c with
  | nil =>
    obtain rfl : c = 0 := by simpa using hd
    simp
  | cons b r ih =>
    cases c with
    | zero => simp
    | succ c =>
      obtain ⟨k, rfl⟩ : ∃ j, k = j + 1 := ⟨k - 1, by omega⟩
      rw [skipAt, ih (by omega) (by simpa using hd)]
      omega

/-- The scan goes on from any position with what it has there. -/
theorem skipAt_append (q : ℕ) :
    skipAt p k (d ++ e) (d.length + q) = skipAt p (skipAt p k (d ++ e) d.length) e q := by
  induction d generalizing k with
  | nil => simp
  | cons b r ih =>
    rw [List.length_cons, Nat.add_right_comm, List.cons_append]
    cases k with
    | succ k => exact ih
    | zero =>
      simp only [skipAt]
      split
      · exact ih
      · exact ih

end SkipAt

/-- A matcher whose matches are not empty and are seen as soon as they are complete. -/
structure Local (p : Matcher α) : Prop where
  bounds : ∀ {x n}, p x = some n → 0 < n ∧ n ≤ x.length
  complete : ∀ {d e n}, p (d ++ e) = some n → n ≤ d.length → p d = some n
  absent : ∀ {d e}, p (d ++ e) = none → p d = none

/-! ### Listed matches -/

section Finditer

variable {p : Matcher α} {d : List α}

/-- The matches come one after the other. -/
theorem finditer_sorted (pos k : ℕ) :
    (∀ m ∈ finditer p pos k d, pos + k ≤ m.1 ∧ m.1 < m.2) ∧
      (finditer p pos k d).Pairwise fun m m' => m.2 ≤ m'.1 := by
  induction d generalizing pos k with
  | nil => simp [finditer]
  | cons b r ih =>
    cases k with
    | succ k =>
      obtain ⟨hlo, hsorted⟩ := ih (pos + 1) k
      refine ⟨fun m hm => ?_, hsorted⟩
      obtain ⟨h1, h2⟩ := hlo m hm
      exact ⟨by omega, h2⟩
    | zero =>
      simp only [finditer]
      split
      · next n _ =>
        obtain ⟨hlo, hsorted⟩ := ih (pos + 1) n
        refine ⟨List.forall_mem_cons.mpr ⟨⟨by omega, by dsimp only; omega⟩, fun m hm => ?_⟩,
          List.pairwise_cons.mpr ⟨fun m hm => ?_, hsorted⟩⟩
        · obtain ⟨h1, h2⟩ := hlo m hm
          exact ⟨by omega, h2⟩
        · have := (hlo m hm).1
          dsimp only
          omega
      · obtain ⟨hlo, hsorted⟩ := ih (pos + 1) 0
        refine ⟨fun m hm => ?_, hsorted⟩
        obtain ⟨h1, h2⟩ := hlo m hm
        exact ⟨by omega, h2⟩

/-- A position that no listed match contains is one where the scan is between matches. -/
theorem skipAt_eq_zero (c pos k : ℕ) (hk : k ≤ c) (hc : c ≤ d.length)
    (h : ∀ m ∈ finditer p pos k d, ¬ (m.1 < pos + c ∧ pos + c < m.2)) : skipAt p k d c = 0 := by
  induction d generalizing pos k c with
  | nil =>
    obtain rfl : c = 0 := by simpa using hc
    simpa using hk
  | cons b r ih =>
    cases c with
    | zero => simpa using hk
    | succ c =>
      cases k with
      | succ k =>
        refine ih c (pos + 1) k (by omega) (by simpa using hc) fun m hm hin => h m hm ?_
        omega
      | zero =>
        simp only [skipAt]
        simp only [finditer] at h
        split
        · next n hn =>
          simp only [hn] at h
          obtain ⟨hhead, htail⟩ := List.forall_mem_cons.mp h
          refine ih c (pos + 1) n (by dsimp only at hhead; omega) (by simpa using hc)
            fun m hm hin => htail m hm ?_
          omega
        · next hn =>
          have hfin : ∀ m ∈ finditer p (pos + 1) 0 r,
              ¬ (m.1 < pos + (c + 1) ∧ pos + (c + 1) < m.2) := by
            intro m hm
            refine h m ?_
            split
            · next n hn' => exact absurd hn' (hn n)
            · exact hm
          refine ih c (pos + 1) 0 (by omega) (by simpa using hc) fun m hm hin => hfin m hm ?_
          omega

/-- A cut inside a match goes back to its start. -/
def retreat (spans : List (ℕ × ℕ)) (cut : ℕ) : ℕ :=
  spans.foldl (fun cut m => if m.1 < cut ∧ cut < m.2 then m.1 else cut) cut

theorem retreat_le (ms : List (ℕ × ℕ)) (cut : ℕ) : retreat ms cut ≤ cut := by
  induction ms generalizing cut with
  | nil => exact le_rfl
  | cons m ms ih =>
    refine (ih _).trans ?_
    dsimp only
    split_ifs with h
    · exact h.1.le
    · exact le_rfl

theorem le_retreat {ms : List (ℕ × ℕ)} {cut c : ℕ} (h : ∀ m ∈ ms, c ≤ m.1) (hc : c ≤ cut) :
    c ≤ retreat ms cut := by
  induction ms generalizing cut with
  | nil => exact hc
  | cons m ms ih =>
    obtain ⟨hm, hms⟩ := List.forall_mem_cons.mp h
    refine ih hms ?_
    dsimp only
    split_ifs
    · exact hm
    · exact hc

theorem retreat_of_outside {ms : List (ℕ × ℕ)} {cut : ℕ} (h : ∀ m ∈ ms, ¬ (m.1 < cut ∧ cut < m.2)) :
    retreat ms cut = cut := by
  induction ms with
  | nil => rfl
  | cons m ms ih =>
    obtain ⟨hm, hms⟩ := List.forall_mem_cons.mp h
    rw [retreat, List.foldl_cons, if_neg hm]
    exact ih hms

/-- After that no match contains the cut. -/
theorem retreat_outside {ms : List (ℕ × ℕ)} (h : ms.Pairwise fun m m' => m.2 ≤ m'.1)
    (hpos : ∀ m ∈ ms, m.1 < m.2) (cut : ℕ) :
    ∀ m ∈ ms, ¬ (m.1 < retreat ms cut ∧ retreat ms cut < m.2) := by
  induction ms with
  | nil => simp
  | cons m ms ih =>
    obtain ⟨hm, hms⟩ := List.pairwise_cons.mp h
    obtain ⟨hm0, hms0⟩ := List.forall_mem_cons.mp hpos
    by_cases hin : m.1 < cut ∧ cut < m.2
    · -- The other matches begin behind this one, so the cut stays at its start.
      have hret : retreat (m :: ms) cut = m.1 := by
        rw [retreat, List.foldl_cons, if_pos hin]
        refine retreat_of_outside fun m' hm' => ?_
        have := hm m' hm'
        omega
      rw [hret]
      refine List.forall_mem_cons.mpr ⟨by omega, fun m' hm' => ?_⟩
      have := hm m' hm'
      omega
    · have hret : retreat (m :: ms) cut = retreat ms cut := by
        rw [retreat, List.foldl_cons, if_neg hin]
        rfl
      rw [hret]
      refine List.forall_mem_cons.mpr ⟨?_, ih hms hms0⟩
      -- If a later match moved the cut, it moved behind this match.
      rcases lt_or_ge cut m.2 with hlt | hge
      · have hle := retreat_le ms cut
        omega
      · have hstay : m.2 ≤ retreat ms cut := le_retreat hm hge
        omega

/-- A cut moved out of the matches is between them for the scan. -/
theorem skipAt_retreat {cut : ℕ} (hcut : cut ≤ d.length) :
    skipAt p 0 d (retreat (finditer p 0 0 d) cut) = 0 := by
  obtain ⟨hpos, hsorted⟩ := finditer_sorted (p := p) (d := d) 0 0
  refine skipAt_eq_zero _ 0 0 (Nat.zero_le _) ((retreat_le _ _).trans hcut) ?_
  simpa using retreat_outside hsorted (fun m hm => (hpos m hm).2) cut

end Finditer

/-! ### Replaced matches -/

section Sub

variable {p : Matcher α} {marker : List α}

/-- A prefix of the output without an element of the marker is a prefix of the input. -/
theorem prefix_sub (hne : marker ≠ []) {d x : List α}
    (h : x <+: sub p marker 0 d) (hx : ∀ b ∈ x, b ∉ marker) : x <+: d := by
  induction d generalizing x with
  | nil => simpa [sub] using h
  | cons b r ih =>
    cases x with
    | nil => exact List.nil_prefix
    | cons c x =>
      simp only [sub] at h
      split at h
      · obtain ⟨m, ms, rfl⟩ := List.exists_cons_of_ne_nil hne
        rw [List.cons_append, List.cons_prefix_cons] at h
        exact absurd List.mem_cons_self (h.1 ▸ hx c List.mem_cons_self)
      · rw [List.cons_prefix_cons] at h
        rw [h.1, List.cons_prefix_cons]
        exact ⟨rfl, ih h.2 fun b hb => hx b (List.mem_cons_of_mem _ hb)⟩

/-- An output without an element of the marker is the input. -/
theorem sub_eq_input (hne : marker ≠ []) {d : List α}
    (h : ∀ b ∈ sub p marker 0 d, b ∉ marker) : sub p marker 0 d = d := by
  induction d with
  | nil => rfl
  | cons b r ih =>
    simp only [sub] at h ⊢
    split at h
    · obtain ⟨m, ms, rfl⟩ := List.exists_cons_of_ne_nil hne
      exact absurd List.mem_cons_self (h m (by simp))
    · rw [ih fun c hc => h c (List.mem_cons_of_mem _ hc)]

/-- A suffix of the output without an element of the marker is a suffix of the input, and the scan
came to it between two matches and replaced nothing in it. -/
theorem suffix_sub (hne : marker ≠ []) {d x : List α} {k : ℕ}
    (h : x <:+ sub p marker k d) (hx : ∀ b ∈ x, b ∉ marker) :
    ∃ d', d = d' ++ x ∧ (x ≠ [] → skipAt p k d d'.length = 0) ∧ sub p marker 0 x = x := by
  induction d generalizing k with
  | nil =>
    obtain rfl : x = [] := by simpa [sub] using h
    exact ⟨[], rfl, fun hx => absurd rfl hx, rfl⟩
  | cons b r ih =>
    cases k with
    | succ k =>
      obtain ⟨d', rfl, hskip, hsub⟩ := ih h
      exact ⟨b :: d', rfl, hskip, hsub⟩
    | zero =>
      simp only [sub] at h
      split at h
      · next n hn =>
        -- The marker's last element is not in `x`, so `x` is behind it.
        have hr : x <:+ sub p marker n r := by
          rcases List.suffix_or_suffix_of_suffix h
            (List.suffix_append marker (sub p marker n r)) with
            hr | ⟨t, rfl⟩
          · exact hr
          · rcases List.eq_nil_or_concat t with rfl | ⟨t', m, rfl⟩
            · exact List.suffix_refl _
            · have hm : m ∈ marker := by
                obtain ⟨u, hu⟩ := h
                have hlast : u ++ (t' ++ [m]) = marker := by
                  rw [← List.append_assoc] at hu
                  exact List.append_cancel_right (by simpa [List.append_assoc] using hu)
                rw [← hlast]
                simp
              exact absurd hm (hx m (by simp))
        obtain ⟨d', rfl, hskip, hsub⟩ := ih hr
        refine ⟨b :: d', rfl, fun hxne => ?_, hsub⟩
        simp only [List.length_cons, skipAt, hn]
        exact hskip hxne
      · next hn =>
        rcases List.suffix_cons_iff.mp h with heq | hr
        · -- All of the text is left alone.
          have hrest : sub p marker 0 r = r := sub_eq_input hne fun c hc =>
            hx c (heq ▸ List.mem_cons_of_mem _ hc)
          rw [hrest] at heq
          subst heq
          refine ⟨[], rfl, fun _ => rfl, ?_⟩
          simp only [sub]
          rw [hrest]
        · obtain ⟨d', rfl, hskip, hsub⟩ := ih hr
          refine ⟨b :: d', rfl, fun hxne => ?_, hsub⟩
          simp only [List.length_cons, skipAt]
          exact hskip hxne

/-- What is in the output without an element of the marker is in the input, where the scan found no
match. -/
theorem infix_sub (hne : marker ≠ []) {d u z v : List α} {k : ℕ}
    (h : sub p marker k d = u ++ z ++ v) (hz : ∀ b ∈ z, b ∉ marker) (hz0 : z ≠ []) :
    ∃ d₁ d₂, d = d₁ ++ (z ++ d₂) ∧ ∀ n, p (z ++ d₂) ≠ some (n + 1) := by
  induction d generalizing k u with
  | nil =>
    rw [sub] at h
    exact absurd h.symm (by simp [hz0])
  | cons b r ih =>
    cases k with
    | succ k =>
      obtain ⟨d₁, d₂, rfl, hp⟩ := ih h
      exact ⟨b :: d₁, d₂, rfl, hp⟩
    | zero =>
      simp only [sub] at h
      split at h
      · next n _ =>
        -- `z` begins behind the marker.
        have hlen : marker.length ≤ u.length := by
          by_contra hlt
          obtain ⟨c, z', rfl⟩ := List.exists_cons_of_ne_nil hz0
          have hc : (marker ++ sub p marker n r)[u.length]? = some c := by
            rw [h]
            simp
          rw [List.getElem?_append_left (by omega)] at hc
          exact hz c List.mem_cons_self (List.mem_of_getElem? hc)
        have hdrop := congrArg (List.drop marker.length) h
        rw [List.drop_left, List.append_assoc, List.drop_append_of_le_length hlen,
          ← List.append_assoc] at hdrop
        obtain ⟨d₁, d₂, rfl, hp⟩ := ih hdrop
        exact ⟨b :: d₁, d₂, rfl, hp⟩
      · next hn =>
        cases u with
        | cons c u =>
          obtain ⟨d₁, d₂, rfl, hp⟩ := ih (List.cons.inj h).2
          exact ⟨b :: d₁, d₂, rfl, hp⟩
        | nil =>
          obtain ⟨c, z', rfl⟩ := List.exists_cons_of_ne_nil hz0
          rw [List.nil_append, List.cons_append, List.cons.injEq] at h
          obtain ⟨rfl, hrest⟩ := h
          obtain ⟨d₂, rfl⟩ := prefix_sub hne (p := p) (d := r) (x := z') ⟨v, hrest.symm⟩
            fun c hc => hz c (List.mem_cons_of_mem _ hc)
          exact ⟨[], d₂, rfl, hn⟩

end Sub

/-! ### Cuts -/

section Cut

variable {p : Matcher α} {d e : List α} {k : ℕ}

/-- If the scan of the whole text is between matches at the cut, the scan of the part before it is
the same. -/
theorem skipAt_lead (hp : Local p) (hcut : skipAt p k (d ++ e) d.length = 0) {c : ℕ}
    (hc : c ≤ d.length) : skipAt p k (d ++ e) c = skipAt p k d c := by
  induction d generalizing k c with
  | nil =>
    obtain rfl : c = 0 := by simpa using hc
    simp
  | cons b r ih =>
    cases c with
    | zero => simp
    | succ c =>
      have hc' : c ≤ r.length := by simpa using hc
      cases k with
      | succ k => exact ih hcut hc'
      | zero =>
        simp only [List.length_cons, List.cons_append, skipAt] at hcut ⊢
        cases hpx : p (b :: (r ++ e)) with
        | none =>
          have hnone : p (b :: r) = none := hp.absent (e := e) (by simpa using hpx)
          simp only [hpx] at hcut
          simp only [hnone]
          exact ih hcut hc'
        | some n =>
          have hn := hp.bounds hpx
          obtain ⟨n, rfl⟩ : ∃ m, n = m + 1 := ⟨n - 1, by omega⟩
          simp only [hpx] at hcut
          have hle : n ≤ r.length := by
            by_contra hlt
            rw [skipAt_of_le (by omega) (by simp)] at hcut
            omega
          have hsome : p (b :: r) = some (n + 1) :=
            hp.complete (e := e) (by simpa using hpx) (by simpa using hle)
          simp only [hsome]
          exact ih hcut hc'

/-- **A cut that divides no match divides no pattern.** What the scan left alone before the cut does
not begin a match that ends behind it. -/
theorem suffix_unmatched (hp : Local p) {marker x : List α} (hne : marker ≠ [])
    (hcut : skipAt p 0 (d ++ e) d.length = 0)
    (hx : x <:+ sub p marker 0 d) (hx0 : x ≠ []) (hxbad : ∀ b ∈ x, b ∉ marker)
    (hmatch : p (x ++ e) ≠ none) : False := by
  obtain ⟨d', rfl, hskip, hsub⟩ := suffix_sub hne hx hxbad
  have hnone : ∀ n, p x ≠ some (n + 1) := by
    intro n hn
    obtain ⟨b, r, rfl⟩ := List.exists_cons_of_ne_nil hx0
    obtain ⟨m, ms, rfl⟩ := List.exists_cons_of_ne_nil hne
    simp only [sub, hn, List.cons_append, List.cons.injEq] at hsub
    exact hxbad b List.mem_cons_self (hsub.1 ▸ List.mem_cons_self)
  have hzero : skipAt p 0 (d' ++ x ++ e) d'.length = 0 := by
    rw [skipAt_lead hp hcut (by simp)]
    exact hskip hx0
  rw [List.append_assoc, List.length_append, skipAt_append] at hcut
  rw [List.append_assoc] at hzero
  rw [hzero] at hcut
  obtain ⟨n, hn⟩ := Option.ne_none_iff_exists'.mp hmatch
  have hn0 := hp.bounds hn
  obtain ⟨n, rfl⟩ : ∃ m, n = m + 1 := ⟨n - 1, by omega⟩
  obtain ⟨b, r, rfl⟩ := List.exists_cons_of_ne_nil hx0
  simp only [List.length_cons, List.cons_append, skipAt] at hcut
  rw [List.cons_append] at hn
  simp only [hn] at hcut
  have hle : n ≤ r.length := by
    by_contra hlt
    rw [skipAt_of_le (by omega) (by simp)] at hcut
    omega
  exact hnone n (hp.complete (e := e) (by simpa using hn) (by simpa using hle))

end Cut

/-! ### Words -/

theorem sub_of_not_found {p : Matcher α} {marker d : List α} (h : found p d = false) :
    sub p marker 0 d = d := by
  induction d with
  | nil => rfl
  | cons b r ih =>
    rw [found, Bool.or_eq_false_iff] at h
    have hnone : p (b :: r) = none := by simpa using h.1
    simp only [sub, hnone]
    rw [ih h.2]

/-- Nothing foreign to the marker comes up in the output that was not in the input. -/
theorem infix_of_infix_sub {p : Matcher α} {marker w d : List α} (hne : marker ≠ []) (hw : w ≠ [])
    (hforeign : ∀ b ∈ w, b ∉ marker) (h : w <:+: sub p marker 0 d) : w <:+: d := by
  obtain ⟨u, v, huv⟩ := h
  obtain ⟨d₁, d₂, rfl, -⟩ :=
    infix_sub hne huv.symm hforeign hw
  exact ⟨d₁, d₂, by rw [List.append_assoc]⟩

theorem finditer_of_not_found {p : Matcher α} {d : List α} (pos : ℕ) (h : found p d = false) :
    finditer p pos 0 d = [] := by
  induction d generalizing pos with
  | nil => rfl
  | cons b r ih =>
    rw [found, Bool.or_eq_false_iff] at h
    have hnone : p (b :: r) = none := by simpa using h.1
    simp only [finditer, hnone]
    exact ih (pos + 1) h.2

section Words

variable [DecidableEq α]

/-- The first of the words that the text begins with. -/
def anyOf (words : List (List α)) : Matcher α := fun d =>
  (words.find? fun w => w.isPrefixOf d).map List.length

variable {words : List (List α)}

theorem anyOf_eq_none {d : List α} : anyOf words d = none ↔ ∀ w ∈ words, ¬ w <+: d := by
  simp [anyOf]

/-- A word that fits before the end of a text is found there whatever follows. -/
theorem anyOf_local (hne : ∀ w ∈ words, w ≠ []) : Local (anyOf words) where
  bounds := by
    intro d n h
    obtain ⟨w, hw, rfl⟩ := Option.map_eq_some_iff.mp h
    have hmem := List.mem_of_find?_eq_some hw
    have hpre := List.find?_some hw
    rw [List.isPrefixOf_iff_prefix] at hpre
    exact ⟨List.length_pos_iff.mpr (hne w hmem), hpre.length_le⟩
  complete := by
    intro d e n h hn
    obtain ⟨w, hw, rfl⟩ := Option.map_eq_some_iff.mp h
    obtain ⟨hpre, before, after, hsplit, hbefore⟩ := List.find?_eq_some_iff_append.mp hw
    refine Option.map_eq_some_iff.mpr ⟨w, List.find?_eq_some_iff_append.mpr
      ⟨?_, before, after, hsplit, fun v hv => ?_⟩, rfl⟩
    · rw [List.isPrefixOf_iff_prefix] at hpre ⊢
      exact List.prefix_of_prefix_length_le hpre (List.prefix_append d e) hn
    · have hnot := hbefore v hv
      rw [Bool.not_eq_true', ← Bool.not_eq_true, List.isPrefixOf_iff_prefix] at hnot ⊢
      exact fun hv => hnot (hv.trans (List.prefix_append d e))
  absent := by
    intro d e h
    rw [anyOf_eq_none] at h ⊢
    exact fun w hw hpre => h w hw (hpre.trans (List.prefix_append d e))

theorem isSome_anyOf {d : List α} : (anyOf words d).isSome = true ↔ ∃ w ∈ words, w <+: d := by
  simp [anyOf]

theorem found_anyOf {d : List α} : found (anyOf words) d = true ↔ ∃ w ∈ words, w <:+: d := by
  induction d with
  | nil =>
    rw [found, isSome_anyOf]
    simp
  | cons b r ih =>
    rw [found, Bool.or_eq_true, isSome_anyOf, ih]
    simp only [List.infix_cons_iff]
    constructor
    · rintro (⟨w, hw, h⟩ | ⟨w, hw, h⟩)
      · exact ⟨w, hw, .inl h⟩
      · exact ⟨w, hw, .inr h⟩
    · rintro ⟨w, hw, h | h⟩
      · exact .inl ⟨w, hw, h⟩
      · exact .inr ⟨w, hw, h⟩

/-- No word that is foreign to the marker is left. -/
theorem not_infix_sub {marker w d : List α} (hwords : ∀ w ∈ words, w ≠ []) (hne : marker ≠ [])
    (hw : w ∈ words) (hforeign : ∀ b ∈ w, b ∉ marker) : ¬ w <:+: sub (anyOf words) marker 0 d := by
  rintro ⟨u, v, huv⟩
  obtain ⟨d₁, d₂, -, hp⟩ :=
    infix_sub hne huv.symm hforeign (hwords w hw)
  cases hmatch : anyOf words (w ++ d₂) with
  | none => exact anyOf_eq_none.mp hmatch w hw (List.prefix_append w d₂)
  | some n =>
    have hpos := ((anyOf_local hwords).bounds hmatch).1
    exact hp (n - 1) (by rw [hmatch, Nat.sub_add_cancel hpos])

end Words

/-! ### Patterns -/

/-- Between `low` and `high` elements of a class, as many as there are. -/
def run (q : α → Bool) (low : ℕ) (high : Option ℕ) : Matcher α := fun d =>
  let n := (d.takeWhile q).length
  if low ≤ n then some (high.elim n (min n)) else none

/-- The elements of the classes, one after the other. -/
def each : List (α → Bool) → Matcher α
  | [], _ => some 0
  | _ :: _, [] => none
  | q :: qs, b :: r => if q b then (each qs r).map (· + 1) else none

def seq (p q : Matcher α) : Matcher α := fun d =>
  (p d).bind fun n => (q (d.drop n)).map (n + ·)

def orElse (p q : Matcher α) : Matcher α := fun d => (p d).or (q d)

/-! ### Matches that stop before an element -/

/-- No match covers the element. -/
def Avoids (p : Matcher α) (x : α) : Prop := ∀ d n, p d = some n → x ∉ d.take n

section Avoids

variable {p p' : Matcher α} {x : α}

theorem avoids_run {q : α → Bool} (hq : q x = false) (low : ℕ) (high : Option ℕ) :
    Avoids (run q low high) x := by
  intro d n h hx
  simp only [run] at h
  have hle : n ≤ (d.takeWhile q).length := by
    split_ifs at h
    · obtain rfl := Option.some_inj.mp h
      cases high with
      | none => exact le_refl _
      | some m => exact Nat.min_le_left _ _
  have hlead : d.take n <+: d.takeWhile q :=
    List.prefix_of_prefix_length_le (List.take_prefix n d) (List.takeWhile_prefix q)
      ((List.length_take_le n d).trans hle)
  have hxq := List.all_eq_true.mp List.all_takeWhile x (hlead.subset hx)
  rw [hq] at hxq
  cases hxq

theorem avoids_each {qs : List (α → Bool)} (hqs : ∀ q ∈ qs, q x = false) : Avoids (each qs) x := by
  intro d n h hx
  induction qs generalizing d n with
  | nil =>
    obtain rfl : 0 = n := Option.some_inj.mp h
    simp at hx
  | cons q qs ih =>
    cases d with
    | nil => cases h
    | cons b r =>
      simp only [each] at h
      split_ifs at h with hb
      obtain ⟨m, hm, rfl⟩ := Option.map_eq_some_iff.mp h
      rw [List.take_succ_cons] at hx
      rcases List.mem_cons.mp hx with rfl | hx
      · rw [hqs q (by simp)] at hb
        cases hb
      · exact ih (fun q' hq' => hqs q' (by simp [hq'])) r m hm hx

theorem Avoids.seq (hp : Avoids p x) (hp' : Avoids p' x) : Avoids (seq p p') x := by
  intro d n h hx
  obtain ⟨m, hm, hrest⟩ := Option.bind_eq_some_iff.mp h
  obtain ⟨k, hk, rfl⟩ := Option.map_eq_some_iff.mp hrest
  rw [List.take_add] at hx
  rcases List.mem_append.mp hx with hx | hx
  · exact hp d m hm hx
  · exact hp' (d.drop m) k hk hx

theorem Avoids.orElse (hp : Avoids p x) (hp' : Avoids p' x) : Avoids (orElse p p') x := by
  intro d n h
  rcases Option.or_eq_some_iff.mp h with h | ⟨-, h⟩
  · exact hp d n h
  · exact hp' d n h

theorem sub_singleton (hp : Avoids p x) (marker : List α) : sub p marker 0 [x] = [x] := by
  rw [sub]
  split
  · next n hn => exact absurd (by simp) (hp [x] (n + 1) hn)
  · rfl

/-- A text begins with what it began with, or with a marker. -/
theorem sub_cons_head (p : Matcher α) {b c : α} (ms r : List α) {P : α → Prop}
    (hb : P b) (hc : P c) : ∃ b' r', sub p (c :: ms) 0 (b :: r) = b' :: r' ∧ P b' := by
  rw [sub]
  split
  · exact ⟨c, _, rfl, hc⟩
  · exact ⟨b, _, rfl, hb⟩

/-- An element at the end that no match covers stays at the end. -/
theorem sub_append_singleton (hp : Avoids p x) {marker : List α} (hm : x ∉ marker)
    {l : List α} (hl : x ∉ l)
    {k : ℕ} (hk : k ≤ l.length) : ∃ y, sub p marker k (l ++ [x]) = y ++ [x] ∧ x ∉ y := by
  induction l generalizing k with
  | nil =>
    obtain rfl : k = 0 := by simpa using hk
    exact ⟨[], sub_singleton hp marker, by simp⟩
  | cons b r ih =>
    obtain ⟨hb, hr⟩ : x ≠ b ∧ x ∉ r := by simpa using hl
    cases k with
    | succ k => exact ih hr (by simpa using hk)
    | zero =>
      rw [List.cons_append, sub]
      split
      · next n hn =>
        have hn' : n ≤ r.length := by
          by_contra hlong
          refine hp _ _ hn ?_
          rw [List.take_of_length_le (by simp; omega)]
          simp
        obtain ⟨y, hy, hxy⟩ := ih hr hn'
        exact ⟨marker ++ y, by rw [hy, List.append_assoc], by simp [hm, hxy]⟩
      · obtain ⟨y, hy, hxy⟩ := ih hr (Nat.zero_le _)
        exact ⟨b :: y, by rw [hy, List.cons_append], by simp [hb, hxy]⟩

end Avoids

end Scan
