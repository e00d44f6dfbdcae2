import Mathlib.Data.List.DropRight
import Mathlib.Tactic

/-!
# Portable relative paths

A path is a list of components. `portable` is the component check that keeps a name the same on
every file system, and `PathSet` collects paths that stay apart on one that ignores case: no path is
another one's directory and no directory has two spellings (`Apart`). `disjoint_iff` is that a list
of paths can be collected exactly when they stay apart pairwise.
-/

namespace Paths

/-- One component of a path. -/
abbrev Component := List Char

instance : LawfulBEq Component := inferInstance

instance : LawfulBEq (List Component) := inferInstance

def lowercase (cs : List Char) : List Char := cs.map Char.toLower

def uppercase (cs : List Char) : List Char := cs.map Char.toUpper

/-- The components between slashes. -/
def components (path : String) : List Component := path.toList.splitOn '/'

theorem mem_of_mem_components {path : String} {part : Component} {c : Char}
    (h : part ∈ components path) (hc : c ∈ part) : c ∈ path.toList := by
  have hmem (parts : List Component) (h : part ∈ parts) : c ∈ ['/'].intercalate parts := by
    induction parts with
    | nil => cases h
    | cons first rest ih =>
      cases rest with
      | nil => simp_all
      | cons second rest =>
        rw [List.intercalate_cons_cons]
        rcases List.mem_cons.mp h with rfl | h
        · simp [hc]
        · simp [ih h]
  have hall : ['/'].intercalate (components path) = path.toList := List.intercalate_splitOn '/'
  rw [← hall]
  exact hmem _ h

/-- Without the blanks and dots at its end. -/
def trimBlanks (cs : List Char) : List Char := cs.rdropWhile fun c => c = ' ' || c = '.'

/-- `COM0` to `COM9` and `LPT0` to `LPT9`. -/
def numberedDevice : List Char → Bool
  | [a, b, c, d] => (([a, b, c] = ['C', 'O', 'M'] || [a, b, c] = ['L', 'P', 'T'])) && d.isDigit
  | _ => false

/-- Names that are devices on some systems, before any extension. -/
def deviceName (part : Component) : Bool :=
  let base := uppercase (part.takeWhile (· ≠ '.'))
  base ∈ ["CON".toList, "PRN".toList, "AUX".toList, "NUL".toList, "CONIN$".toList,
    "CONOUT$".toList] || numberedDevice base

def portable (part : Component) : Bool :=
  part ≠ [] && part ≠ ['.'] && part ≠ ['.', '.'] && part.length ≤ 100 && trimBlanks part = part &&
    !deviceName part

/-- The directories and paths taken so far: the spelling of each under its lowercase form, and the
lowercase forms of the paths themselves. -/
structure PathSet where
  names : List (List Component × List Component)
  leaves : List (List Component)

namespace PathSet

def empty : PathSet := ⟨[], []⟩

def key (path : List Component) : List Component := path.map lowercase

/-- Take one directory of a path, or the path itself. -/
def enter (t : PathSet) (path : List Component) (last : Bool) : Option PathSet :=
  if key path ∈ t.leaves || (t.names.lookup (key path)).any (· ≠ path) then none
  else if last then
    if (t.names.lookup (key path)).isSome then none
    else some ⟨(key path, path) :: t.names, key path :: t.leaves⟩
  else some ⟨(key path, path) :: t.names, t.leaves⟩

/-- Take a path after each of its directories. -/
def add (t : PathSet) (path : List Component) : Option PathSet :=
  (List.range path.length).foldlM
    (fun t n => t.enter (path.take (n + 1)) (n + 1 = path.length)) t

/-- The paths can be taken one after the other. -/
def disjoint (paths : List (List Component)) : Bool := (paths.foldlM add empty).isSome

/-! ### What a path set has taken -/

/-- The set has taken these directories, under the spelling they have, and these whole paths. -/
structure Holds (t : PathSet) (dirs whole : List Component → Prop) : Prop where
  lookup : ∀ k v, t.names.lookup k = some v ↔ dirs v ∧ key v = k
  leaf : ∀ k, k ∈ t.leaves ↔ ∃ v, whole v ∧ key v = k

theorem holds_empty : Holds empty (fun _ => False) (fun _ => False) :=
  ⟨by simp [empty], by simp [empty]⟩

variable {t u : PathSet} {dirs whole : List Component → Prop} {q : List Component} {last : Bool}

/-- Whether a directory, or a whole path, can be taken. -/
def Free (dirs whole : List Component → Prop) (q : List Component) (last : Bool) : Prop :=
  (∀ v, whole v → key v ≠ key q) ∧ (∀ v, dirs v → key v = key q → v = q) ∧ (last = true → ¬ dirs q)

theorem Holds.enter_isSome (h : Holds t dirs whole) :
    (t.enter q last).isSome = true ↔ Free dirs whole q last := by
  have hleaf : key q ∈ t.leaves ↔ ∃ v, whole v ∧ key v = key q := h.leaf _
  have hname : (t.names.lookup (key q)).any (· ≠ q) = true ↔
      ∃ v, dirs v ∧ key v = key q ∧ v ≠ q := by
    cases hl : t.names.lookup (key q) with
    | none =>
      refine iff_of_false (by simp) ?_
      rintro ⟨v, hv, hk, -⟩
      have := (h.lookup (key q) v).mpr ⟨hv, hk⟩
      simp [hl] at this
    | some w =>
      simp only [Option.any_some, decide_eq_true_eq]
      constructor
      · exact fun hne => ⟨w, ((h.lookup _ w).mp hl).1, ((h.lookup _ w).mp hl).2, hne⟩
      · rintro ⟨v, hv, hk, hne⟩
        have := (h.lookup (key q) v).mpr ⟨hv, hk⟩
        rw [hl, Option.some.injEq] at this
        exact this ▸ hne
  have htaken : (t.names.lookup (key q)).isSome = true ↔ ∃ v, dirs v ∧ key v = key q := by
    rw [Option.isSome_iff_exists]
    exact exists_congr fun v => h.lookup _ v
  have hfree : ¬ (decide (key q ∈ t.leaves) || (t.names.lookup (key q)).any (· ≠ q)) = true →
      (∀ v, whole v → key v ≠ key q) ∧ ∀ v, dirs v → key v = key q → v = q := by
    rw [Bool.or_eq_true, decide_eq_true_eq, hleaf, hname]
    intro hno
    refine ⟨fun v hv hk => hno (.inl ⟨v, hv, hk⟩), fun v hv hk => ?_⟩
    by_contra hne
    exact hno (.inr ⟨v, hv, hk, hne⟩)
  unfold enter Free
  split_ifs with hrefused hlast htaken'
  · refine iff_of_false (by simp) ?_
    rintro ⟨hwhole, hdirs, -⟩
    rw [Bool.or_eq_true, decide_eq_true_eq, hleaf, hname] at hrefused
    rcases hrefused with ⟨v, hv, hk⟩ | ⟨v, hv, hk, hne⟩
    · exact hwhole v hv hk
    · exact hne (hdirs v hv hk)
  · refine iff_of_false (by simp) ?_
    rintro ⟨-, hdirs, hnew⟩
    obtain ⟨v, hv, hk⟩ := htaken.mp htaken'
    exact hnew hlast (hdirs v hv hk ▸ hv)
  · refine iff_of_true rfl ⟨(hfree hrefused).1, (hfree hrefused).2, fun _ hq => htaken' ?_⟩
    exact htaken.mpr ⟨q, hq, rfl⟩
  · exact iff_of_true rfl ⟨(hfree hrefused).1, (hfree hrefused).2, fun h => absurd h hlast⟩

theorem Holds.enter (h : Holds t dirs whole) (he : t.enter q last = some u) :
    Holds u (fun v => dirs v ∨ v = q) (fun v => whole v ∨ (last = true ∧ v = q)) := by
  have hfree := h.enter_isSome.mp (he ▸ rfl : (t.enter q last).isSome = true)
  have hnames : u.names = (key q, q) :: t.names ∧
      u.leaves = if last then key q :: t.leaves else t.leaves := by
    unfold PathSet.enter at he
    split_ifs at he with hrefused hlast htaken
    · obtain rfl := Option.some.inj he
      simp [hlast]
    · obtain rfl := Option.some.inj he
      simp [hlast]
  constructor
  · intro k v
    rw [hnames.1, List.lookup_cons]
    by_cases hk : k = key q
    · subst hk
      simp only [beq_self_eq_true]
      constructor
      · intro hv
        obtain rfl := Option.some.inj hv
        exact ⟨.inr rfl, rfl⟩
      · rintro ⟨hv | rfl, hkey⟩
        · rw [hfree.2.1 v hv hkey]
        · rfl
    · rw [show (k == key q) = false by simpa using hk]
      rw [h.lookup]
      constructor
      · exact fun hv => ⟨.inl hv.1, hv.2⟩
      · rintro ⟨hv | rfl, hkey⟩
        · exact ⟨hv, hkey⟩
        · exact absurd hkey.symm hk
  · intro k
    rw [hnames.2]
    cases last with
    | false => simpa using h.leaf k
    | true =>
      simp only [if_true, List.mem_cons, h.leaf k, true_and]
      constructor
      · rintro (rfl | ⟨v, hv, hk⟩)
        · exact ⟨q, .inr rfl, rfl⟩
        · exact ⟨v, .inl hv, hk⟩
      · rintro ⟨v, hv | rfl, hk⟩
        · exact .inr ⟨v, hv, hk⟩
        · exact .inl hk.symm

/-- The directories of a path up to its `m`-th component. -/
def Leads (q : List Component) (m : ℕ) (v : List Component) : Prop :=
  ∃ n, 0 < n ∧ n ≤ m ∧ v = q.take n

theorem length_of_key {v w : List Component} (h : key v = key w) : v.length = w.length := by
  simpa [key] using congrArg List.length h

/-- The shorter directories of the same path never stand in the way. -/
theorem free_leads {m : ℕ} (hm : m + 1 ≤ q.length) (last : Bool) :
    Free (fun v => dirs v ∨ Leads q m v) whole (q.take (m + 1)) last ↔
      Free dirs whole (q.take (m + 1)) last := by
  have hlead : ∀ v, Leads q m v → key v ≠ key (q.take (m + 1)) := by
    rintro v ⟨n, -, hn, rfl⟩ hk
    have hlen := length_of_key hk
    rw [List.length_take, List.length_take] at hlen
    omega
  constructor
  · rintro ⟨hwhole, hdirs, hnew⟩
    exact ⟨hwhole, fun v hv => hdirs v (.inl hv), fun hl hq => hnew hl (.inl hq)⟩
  · rintro ⟨hwhole, hdirs, hnew⟩
    refine ⟨hwhole, ?_, ?_⟩
    · rintro v (hv | hv) hk
      · exact hdirs v hv hk
      · exact absurd hk (hlead v hv)
    · rintro hl (hq | hq)
      · exact hnew hl hq
      · exact hlead _ hq rfl

theorem Holds.congr {dirs' whole' : List Component → Prop} (h : Holds t dirs whole)
    (hdirs : ∀ v, dirs v ↔ dirs' v) (hwhole : ∀ v, whole v ↔ whole' v) : Holds t dirs' whole' := by
  rw [← funext fun v => propext (hdirs v), ← funext fun v => propext (hwhole v)]
  exact h

/-- The loop of `add` over the first `m` components. -/
def addUpTo (t : PathSet) (q : List Component) (m : ℕ) : Option PathSet :=
  (List.range m).foldlM (fun t n => t.enter (q.take (n + 1)) (n + 1 = q.length)) t

theorem addUpTo_succ (t : PathSet) (q : List Component) (m : ℕ) :
    t.addUpTo q (m + 1) =
      (t.addUpTo q m).bind fun u => u.enter (q.take (m + 1)) (m + 1 = q.length) := by
  rw [addUpTo, List.range_succ, List.foldlM_append]
  refine congrArg (Option.bind _) (funext fun u => ?_)
  simp only [List.foldlM_cons, List.foldlM_nil, bind_pure]

theorem Holds.addUpTo (h : Holds t dirs whole) {m : ℕ} (hm : m ≤ q.length) :
    ((t.addUpTo q m).isSome = true ↔
        ∀ n, 0 < n → n ≤ m → Free dirs whole (q.take n) (n = q.length)) ∧
      ∀ u, t.addUpTo q m = some u → Holds u (fun v => dirs v ∨ Leads q m v)
        (fun v => whole v ∨ (m = q.length ∧ q ≠ [] ∧ v = q)) := by
  induction m with
  | zero =>
    refine ⟨iff_of_true rfl fun n h0 hn => by omega, fun u hu => ?_⟩
    obtain rfl := Option.some.inj hu
    refine h.congr (fun v => ⟨.inl, ?_⟩) (fun v => ⟨.inl, ?_⟩)
    · rintro (hv | ⟨n, h0, hn, -⟩)
      · exact hv
      · omega
    · rintro (hv | ⟨hlen, hq, -⟩)
      · exact hv
      · exact absurd (List.length_eq_zero_iff.mp hlen.symm) hq
  | succ m ih =>
    obtain ⟨hsome, hholds⟩ := ih (by omega)
    rw [addUpTo_succ]
    cases hprev : t.addUpTo q m with
    | none =>
      rw [hprev] at hsome
      refine ⟨iff_of_false (by simp) fun hall => ?_, fun u hu => by simp at hu⟩
      exact absurd (hsome.mpr fun n h0 hn => hall n h0 (by omega)) (by simp)
    | some w =>
      have hw : Holds w (fun v => dirs v ∨ Leads q m v) whole := (hholds w hprev).congr
        (fun _ => Iff.rfl) (fun v => ⟨fun hv => hv.resolve_right fun hq => by omega, .inl⟩)
      rw [hprev] at hsome
      have hfirst := hsome.mp rfl
      rw [Option.bind_some]
      constructor
      · rw [hw.enter_isSome, free_leads hm]
        constructor
        · intro hfree n h0 hn
          rcases Nat.lt_or_ge m n with hlt | hle
          · obtain rfl : n = m + 1 := by omega
            exact hfree
          · exact hfirst n h0 hle
        · exact fun hall => hall (m + 1) (by omega) le_rfl
      · intro u hu
        refine (hw.enter hu).congr (fun v => ?_) (fun v => ?_)
        · constructor
          · rintro ((hv | ⟨n, h0, hn, rfl⟩) | rfl)
            · exact .inl hv
            · exact .inr ⟨n, h0, by omega, rfl⟩
            · exact .inr ⟨m + 1, by omega, le_rfl, rfl⟩
          · rintro (hv | ⟨n, h0, hn, rfl⟩)
            · exact .inl (.inl hv)
            · rcases Nat.lt_or_ge m n with hlt | hle
              · obtain rfl : n = m + 1 := by omega
                exact .inr rfl
              · exact .inl (.inr ⟨n, h0, hle, rfl⟩)
        · refine or_congr_right ?_
          rw [decide_eq_true_eq]
          constructor
          · rintro ⟨hlen, rfl⟩
            rw [hlen, List.take_length]
            exact ⟨rfl, fun hnil => by simp [hnil] at hlen, rfl⟩
          · rintro ⟨hlen, -, rfl⟩
            rw [hlen, List.take_length]
            exact ⟨rfl, rfl⟩

/-- Two paths stay apart: directories that they share up to case have one spelling, and neither path
is a directory of the other or equal to it. -/
def Apart (p q : List Component) : Prop :=
  ∀ n, 0 < n → n ≤ p.length → n ≤ q.length → key (p.take n) = key (q.take n) →
    p.take n = q.take n ∧ n < p.length ∧ n < q.length

theorem Apart.symm {p q : List Component} (h : Apart p q) : Apart q p := by
  intro n h0 hq hp hk
  obtain ⟨heq, hlp, hlq⟩ := h n h0 hp hq hk.symm
  exact ⟨heq.symm, hlq, hlp⟩

/-- A path can be taken after others exactly when it stays apart from each of them. -/
theorem free_iff_apart {ps : List (List Component)} :
    (∀ n, 0 < n → n ≤ q.length →
      Free (fun v => ∃ p ∈ ps, Leads p p.length v) (· ∈ ps) (q.take n) (n = q.length)) ↔
      ∀ p ∈ ps, Apart p q := by
  constructor
  · intro hfree p hp n h0 hnp hnq hk
    obtain ⟨hwhole, hdirs, hnew⟩ := hfree n h0 hnq
    have heq := hdirs (p.take n) ⟨p, hp, n, h0, hnp, rfl⟩ hk
    refine ⟨heq, lt_of_le_of_ne hnp fun hn => ?_, lt_of_le_of_ne hnq fun hn => ?_⟩
    · rw [hn, List.take_length] at hk
      exact hwhole p hp (by rw [hk, hn])
    · exact hnew (decide_eq_true hn) ⟨p, hp, n, h0, hnp, heq.symm⟩
  · intro hapart n h0 hnq
    refine ⟨fun p hp hk => ?_, ?_, ?_⟩
    · have hlen : p.length = n := by simpa [hnq] using length_of_key hk
      have := hapart p hp n h0 hlen.ge hnq (by rw [← hlen, List.take_length, hlen]; exact hk)
      omega
    · rintro v ⟨p, hp, m, hm0, hmp, rfl⟩ hk
      have hlen : m = n := by simpa [hmp, hnq] using length_of_key hk
      subst hlen
      exact (hapart p hp m hm0 hmp hnq hk).1
    · rintro hn ⟨p, hp, m, hm0, hmp, hq⟩
      have hlen : n = m := by simpa [hmp, hnq] using congrArg List.length hq
      subst hlen
      have := hapart p hp n h0 hmp hnq (by rw [hq])
      have hn' := of_decide_eq_true hn
      omega

theorem holds_foldlM {ps : List (List Component)} (hne : ∀ p ∈ ps, p ≠ []) :
    ((ps.foldlM add empty).isSome = true ↔ ps.Pairwise Apart) ∧
      ∀ u, ps.foldlM add empty = some u →
        Holds u (fun v => ∃ p ∈ ps, Leads p p.length v) (fun v => v ∈ ps) := by
  induction ps using List.reverseRecOn with
  | nil =>
    refine ⟨iff_of_true rfl .nil, fun u hu => ?_⟩
    obtain rfl := Option.some.inj hu
    exact holds_empty.congr (by simp) (by simp)
  | append_singleton ps q ih =>
    obtain ⟨hsome, hholds⟩ := ih fun p hp => hne p (List.mem_append_left _ hp)
    have hq : q ≠ [] := hne q (by simp)
    have hfold : (ps ++ [q]).foldlM add empty =
        (ps.foldlM add empty).bind fun u => u.addUpTo q q.length := by
      rw [List.foldlM_append]
      refine congrArg (Option.bind _) (funext fun u => ?_)
      simp only [List.foldlM_cons, List.foldlM_nil, bind_pure]
      rfl
    have hpairwise : (ps ++ [q]).Pairwise Apart ↔ ps.Pairwise Apart ∧ ∀ p ∈ ps, Apart p q := by
      simp [List.pairwise_append]
    rw [hfold, hpairwise]
    cases hprev : ps.foldlM add empty with
    | none =>
      rw [hprev] at hsome
      exact ⟨iff_of_false (by simp) fun h => absurd (hsome.mpr h.1) (by simp),
        fun u hu => by simp at hu⟩
    | some w =>
      rw [hprev] at hsome
      have hw := hholds w hprev
      obtain ⟨hadd, hnext⟩ := hw.addUpTo (q := q) le_rfl
      rw [Option.bind_some]
      refine ⟨?_, fun u hu => (hnext u hu).congr (fun v => ?_) (fun v => ?_)⟩
      · rw [hadd, free_iff_apart]
        exact ⟨fun h => ⟨hsome.mp rfl, h⟩, fun h => h.2⟩
      · simp [or_and_right, exists_or]
      · simp [hq]

/-- Paths can be taken one after the other exactly when they stay apart pairwise. -/
theorem disjoint_iff {ps : List (List Component)} (hne : ∀ p ∈ ps, p ≠ []) :
    disjoint ps = true ↔ ps.Pairwise Apart :=
  (holds_foldlM hne).1

end PathSet

end Paths
