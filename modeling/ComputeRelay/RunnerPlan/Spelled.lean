import Mathlib.Tactic
import ComputeRelay.Lib.Assoc
import ComputeRelay.RunnerPlan.Build

/-!
# Path rules in three spellings

`disjointRunnerPaths` of `internal/dispatch/inputs.go`, `paths.add` of `internal/packaging/types.go`
and `disjoint` of the runner's `contract.py`, each with its own maps from folded spellings to
spellings. A path set keeps components where these keep texts; `spell` takes one to the other
(`enter_spell`), so the three are the one rule of `PathSet.disjoint_iff`, which does not depend on
an order.
-/

namespace ComputeRelay
namespace RunnerPlan

open Text Paths

/-! ### The three implementations -/

/-- The spelling of each directory and path under its folded form, and the folded forms of the
paths. -/
structure Spelled where
  names : List (List Char × List Char) := []
  leaves : List (List Char) := []

namespace Spelled

/-- The inner loop of `disjointRunnerPaths`. -/
def addRunnerPath (s : Spelled) (path : String) : Option Spelled :=
  let parts := components path
  (List.range' 1 parts.length).foldlM (fun s n =>
    let lead := ['/'].intercalate (parts.take n)
    let key := lowercase lead
    let prior := s.names.lookup key
    if key ∈ s.leaves || prior.any (· ≠ lead) then none
    else if n = parts.length then
      if prior.isSome then none else some ⟨(key, lead) :: s.names, key :: s.leaves⟩
    else some ⟨(key, lead) :: s.names, s.leaves⟩) s

/-- `disjointRunnerPaths` -/
def disjointRunnerPaths (paths : List String) : Bool := (paths.foldlM addRunnerPath {}).isSome

/-- The loop of `paths.add` over the parts of a name. -/
def addParts (s : Spelled) (lead : List Char) : List Component → Option Spelled
  | [] => some s
  | part :: rest =>
    let lead := (if lead ≠ [] then lead ++ ['/'] else lead) ++ part
    let key := lowercase lead
    if (s.names.lookup key).any (· ≠ lead) then none
    else if key ∈ s.leaves then none
    else if rest = [] then
      if (s.names.lookup key).isSome then none
      else addParts ⟨(key, lead) :: s.names, key :: s.leaves⟩ lead rest
    else addParts ⟨(key, lead) :: s.names, s.leaves⟩ lead rest

/-- The names that `paths.add` takes at all. -/
def packaged (name : String) : Bool :=
  name ≠ "." && name.utf8ByteSize ≤ 240 && Packaging.validPath name &&
    !Packaging.defaultExcluded name

/-- `paths.add`; `leaves` are its files. -/
def add (s : Spelled) (name : String) : Option Spelled :=
  if packaged name then addParts s [] (components name) else none

/-- The names are added one after the other. -/
def addAll (names : List String) : Bool := (names.foldlM add {}).isSome

/-- The body of the loop of `disjoint`. -/
def require (s : Spelled) (name : String) : Option Spelled :=
  if Runner.relative name false then
    let parts := components name
    (List.range' 1 parts.length).foldlM (fun s n =>
      let lead := ['/'].intercalate (parts.take n)
      let key := lowercase lead
      if key ∉ s.leaves && (s.names.lookup key).getD lead = lead then
        if n = parts.length then
          if (s.names.lookup key).isNone then some ⟨(key, lead) :: s.names,
            key :: s.leaves⟩ else none
        else some ⟨(key, lead) :: s.names, s.leaves⟩
      else none) s
  else none

/-- `disjoint` -/
def disjoint (paths : List String) : Bool := (paths.foldlM require {}).isSome

/-! ### Spelling out a path set -/

/-- The text of some components. -/
def join (q : List Component) : List Char := ['/'].intercalate q

/-- Components as they come from a text. -/
def Clean (q : List Component) : Prop := q ≠ [] ∧ ∀ part ∈ q, '/' ∉ part

theorem join_inj {p q : List Component} (hp : Clean p) (hq : Clean q) (h : join p = join q) :
    p = q := by
  rw [← List.splitOn_intercalate '/' hp.2 hp.1, ← List.splitOn_intercalate '/' hq.2 hq.1]
  exact congrArg (List.splitOn '/') h

theorem not_mem_splitOn {text part : List Char} (h : part ∈ text.splitOn '/') : '/' ∉ part := by
  induction text generalizing part with
  | nil =>
    obtain rfl : part = [] := by simpa using h
    simp
  | cons c text ih =>
    rw [List.splitOn, List.splitOnP_cons_eq_if_modifyHead] at h
    split_ifs at h with hc
    · rcases List.mem_cons.mp h with rfl | h
      · simp
      · exact ih h
    · cases hparts : text.splitOnP (· == '/') with
      | nil => exact absurd hparts (List.splitOnP_ne_nil _ _)
      | cons q qs =>
        rw [hparts, List.modifyHead_cons] at h
        have hq : ∀ part ∈ q :: qs, '/' ∉ part :=
          fun part hpart => ih (by rw [List.splitOn, hparts]; exact hpart)
        rcases List.mem_cons.mp h with rfl | h
        · have hne : '/' ≠ c := fun hne => hc (beq_iff_eq.mpr hne.symm)
          simpa [hne] using hq q (by simp)
        · exact hq part (by simp [h])

theorem clean_components (path : String) : Clean (components path) :=
  ⟨List.splitOnP_ne_nil _ _, fun _ => not_mem_splitOn⟩

theorem Clean.take {q : List Component} (h : Clean q) {n : ℕ} (hn : 0 < n) : Clean (q.take n) := by
  refine ⟨fun hnil => ?_, fun part hpart => h.2 part (List.mem_of_mem_take hpart)⟩
  rcases List.take_eq_nil_iff.mp hnil with hzero | hzero
  · omega
  · exact h.1 hzero

theorem slash_of_toLower {c : Char} (h : c.toLower = '/') : c = '/' := by
  delta Char.toLower at h
  split_ifs at h with hupper
  · have hrange : 65 ≤ c.toNat ∧ c.toNat ≤ 90 := by
      simpa [UInt32.le_iff_toNat_le] using hupper
    have hcode : (c.toNat + 32) % 4294967296 = 47 := by simpa using congrArg Char.toNat h
    omega
  · exact h

theorem Clean.key {q : List Component} (h : Clean q) : Clean (PathSet.key q) := by
  refine ⟨by simpa [PathSet.key] using h.1, fun part hpart hslash => ?_⟩
  obtain ⟨part', hpart', rfl⟩ := List.mem_map.mp hpart
  obtain ⟨c, hc, hlower⟩ := List.mem_map.mp hslash
  rw [slash_of_toLower hlower] at hc
  exact h.2 part' hpart' hc

theorem lowercase_join (q : List Component) : lowercase (join q) = join (PathSet.key q) := by
  induction q with
  | nil => rfl
  | cons p q ih =>
    cases q with
    | nil => simp [join, PathSet.key, lowercase]
    | cons p' q =>
      simp only [join, PathSet.key, List.map_cons, List.intercalate_cons_cons] at ih ⊢
      rw [lowercase, List.map_append, List.map_append]
      exact congrArg _ ih

/-- The entries of a path set come from texts. -/
structure Tidy (t : PathSet) : Prop where
  names : ∀ e ∈ t.names, Clean e.1 ∧ Clean e.2
  leaves : ∀ k ∈ t.leaves, Clean k

/-- The maps of a path set, with texts for components. -/
def spell (t : PathSet) : Spelled where
  names := t.names.map fun e => (join e.1, join e.2)
  leaves := t.leaves.map join

variable {t : PathSet} {q : List Component}

theorem mem_leaves_spell (ht : Tidy t) (hq : Clean q) :
    lowercase (join q) ∈ (spell t).leaves ↔ PathSet.key q ∈ t.leaves := by
  rw [lowercase_join, spell, List.mem_map]
  constructor
  · rintro ⟨k, hk, heq⟩
    rwa [join_inj (ht.leaves k hk) hq.key heq] at hk
  · exact fun hk => ⟨_, hk, rfl⟩

theorem lookup_join {es : List (List Component × List Component)} (hes : ∀ e ∈ es, Clean e.1)
    (hq : Clean q) :
    (es.map fun e => (join e.1, join e.2)).lookup (join q) = (es.lookup q).map join := by
  induction es with
  | nil => rfl
  | cons e es ih =>
    obtain ⟨k, v⟩ := e
    rw [List.forall_mem_cons] at hes
    have hsame : (join q == join k) = (q == k) := by
      rw [Bool.eq_iff_iff, beq_iff_eq, beq_iff_eq]
      exact ⟨join_inj hq hes.1, congrArg join⟩
    rw [List.map_cons, List.lookup_cons, List.lookup_cons, hsame]
    cases q == k with
    | true => rfl
    | false => exact ih hes.2

theorem lookup_spell (ht : Tidy t) (hq : Clean q) :
    (spell t).names.lookup (lowercase (join q)) = (t.names.lookup (PathSet.key q)).map join := by
  rw [lowercase_join]
  exact lookup_join (fun e he => (ht.names e he).1) hq.key

theorem any_lookup_spell (ht : Tidy t) (hq : Clean q) :
    ((spell t).names.lookup (lowercase (join q))).any (· ≠ join q) =
      (t.names.lookup (PathSet.key q)).any (· ≠ q) := by
  rw [lookup_spell ht hq]
  cases hlookup : t.names.lookup (PathSet.key q) with
  | none => rfl
  | some v =>
    have hv := (ht.names _ (Assoc.mem_of_lookup hlookup)).2
    simp only [Option.map_some, Option.any_some, decide_eq_decide]
    exact not_congr ⟨join_inj hv hq, congrArg join⟩

/-- What the three do with one directory, or with the path itself. -/
def enter (s : Spelled) (lead : List Char) (last : Bool) : Option Spelled :=
  if lowercase lead ∈ s.leaves || (s.names.lookup (lowercase lead)).any (· ≠ lead) then none
  else if last then
    if (s.names.lookup (lowercase lead)).isSome then none
    else some ⟨(lowercase lead, lead) :: s.names, lowercase lead :: s.leaves⟩
  else some ⟨(lowercase lead, lead) :: s.names, s.leaves⟩

theorem enter_spell (ht : Tidy t) (hq : Clean q) (last : Bool) :
    (spell t).enter (join q) last = (t.enter q last).map spell := by
  have hleaf : decide (lowercase (join q) ∈ (spell t).leaves) = decide (PathSet.key q ∈ t.leaves) :=
    decide_eq_decide.mpr (mem_leaves_spell ht hq)
  unfold enter PathSet.enter
  rw [hleaf, any_lookup_spell ht hq, lookup_spell ht hq, Option.isSome_map, lowercase_join]
  split_ifs <;> rfl

theorem Tidy.enter {u : PathSet} {last : Bool} (ht : Tidy t) (hq : Clean q)
    (h : t.enter q last = some u) : Tidy u := by
  unfold PathSet.enter at h
  split_ifs at h
  all_goals
    cases h
    constructor
    · simp only [List.forall_mem_cons]
      exact ⟨⟨hq.key, hq⟩, ht.names⟩
  · simp only [List.forall_mem_cons]
    exact ⟨hq.key, ht.leaves⟩
  · exact ht.leaves

/-- The loop over the directories of a path, from the `done` ones on. -/
theorem walk_spell (ht : Tidy t) {ns : List ℕ} (hq : Clean q) :
    ns.foldlM (fun (s : Spelled) n => s.enter (join (q.take (n + 1))) (n + 1 = q.length))
      (spell t) =
      (ns.foldlM (fun (t : PathSet) n => t.enter (q.take (n + 1)) (n + 1 = q.length)) t).map spell ∧
    ∀ u, ns.foldlM (fun (t : PathSet) n => t.enter (q.take (n + 1)) (n + 1 = q.length)) t =
      some u → Tidy u := by
  induction ns generalizing t with
  | nil =>
    refine ⟨rfl, fun u hu => ?_⟩
    cases hu
    exact ht
  | cons n ns ih =>
    have hlead := hq.take (Nat.succ_pos n)
    rw [List.foldlM_cons, List.foldlM_cons, enter_spell ht hlead]
    cases hstep : t.enter (q.take (n + 1)) (n + 1 = q.length) with
    | none => exact ⟨rfl, fun u hu => by cases hu⟩
    | some u => exact ih (ht.enter hlead hstep)

/-! ### The three loops -/

/-- The loop over the directories of a path. -/
def walk (s : Spelled) (q : List Component) : Option Spelled :=
  (List.range q.length).foldlM (fun s n => s.enter (join (q.take (n + 1))) (n + 1 = q.length)) s

theorem walk_eq (ht : Tidy t) (hq : Clean q) :
    (spell t).walk q = (t.add q).map spell ∧ ∀ u, t.add q = some u → Tidy u :=
  walk_spell ht hq

theorem addRunnerPath_eq (s : Spelled) (path : String) :
    s.addRunnerPath path = s.walk (components path) := by
  rw [addRunnerPath, walk, List.range'_eq_map_range, List.foldlM_map]
  congr 1
  funext s n
  rw [Nat.add_comm 1 n, enter]
  simp only [decide_eq_true_eq]
  rfl

theorem require_eq (s : Spelled) (path : String) :
    s.require path = if Runner.relative path false then s.walk (components path) else none := by
  rw [require]
  refine if_congr Iff.rfl ?_ rfl
  dsimp only
  rw [walk, List.range'_eq_map_range, List.foldlM_map]
  congr 1
  funext s n
  rw [Nat.add_comm 1 n]
  have hlead : ['/'].intercalate ((components path).take (n + 1)) =
      join ((components path).take (n + 1)) := rfl
  rw [hlead]
  generalize join ((components path).take (n + 1)) = lead
  unfold enter
  -- `names.get(key, prefix) == prefix` and "there and other" are opposites
  cases hname : s.names.lookup (lowercase lead) with
  | none => by_cases hleaf : lowercase lead ∈ s.leaves <;> simp [hleaf]
  | some v => by_cases hleaf : lowercase lead ∈ s.leaves <;> by_cases hv : v = lead <;>
    simp [hleaf, hv]

theorem join_concat {done : List Component} (part : Component) :
    join (done ++ [part]) = (if done ≠ [] then join done ++ ['/'] else []) ++ part := by
  induction done with
  | nil => simp [join]
  | cons p ps ih =>
    cases ps with
    | nil => simp [join]
    | cons p' ps =>
      simp only [join, List.cons_append, List.intercalate_cons_cons] at ih ⊢
      rw [ih]
      simp

theorem join_eq_nil_iff {q : List Component} (hne : ∀ part ∈ q, part ≠ []) :
    join q = [] ↔ q = [] := by
  constructor
  · intro h
    cases q with
    | nil => rfl
    | cons p q =>
      have hp := hne p List.mem_cons_self
      cases q with
      | nil => exact absurd (by simpa [join] using h) hp
      | cons p' q => simp [join, List.intercalate_cons_cons] at h
  · rintro rfl
    rfl

/-- The two checks in the other order. -/
theorem addParts_cons (s : Spelled) (lead : List Char) (part : Component) (rest : List Component) :
    s.addParts lead (part :: rest) =
      (s.enter ((if lead ≠ [] then lead ++ ['/'] else lead) ++ part) (rest = [])).bind
        fun s => s.addParts ((if lead ≠ [] then lead ++ ['/'] else lead) ++ part) rest := by
  rw [addParts, enter]
  generalize (if lead ≠ [] then lead ++ ['/'] else lead) ++ part = lead'
  by_cases hname : (s.names.lookup (lowercase lead')).any (· ≠ lead') = true
  · rw [if_pos hname, if_pos (by rw [hname, Bool.or_true])]
    rfl
  by_cases hleaf : lowercase lead' ∈ s.leaves
  · rw [if_neg hname, if_pos hleaf, if_pos (by simp [hleaf])]
    rfl
  have hfree : ¬ (decide (lowercase lead' ∈ s.leaves) ||
      (s.names.lookup (lowercase lead')).any (· ≠ lead')) = true := by
    rw [decide_eq_false hleaf, Bool.false_or]
    exact hname
  rw [if_neg hname, if_neg hleaf, if_neg hfree]
  by_cases hrest : rest = []
  · rw [if_pos hrest, if_pos (decide_eq_true hrest)]
    split_ifs <;> rfl
  · rw [if_neg hrest, if_neg (by simpa using hrest)]
    rfl

theorem addParts_eq {q done rest : List Component} (hq : done ++ rest = q)
    (hne : ∀ part ∈ q, part ≠ []) (s : Spelled) :
    s.addParts (join done) rest =
      (List.range' done.length rest.length).foldlM
        (fun s n => s.enter (join (q.take (n + 1))) (n + 1 = q.length)) s := by
  induction rest generalizing done s with
  | nil => rfl
  | cons part rest ih =>
    have hlead : (if join done ≠ [] then join done ++ ['/'] else join done) ++ part =
        join (done ++ [part]) := by
      have hdone := join_eq_nil_iff fun part hpart => hne part (hq ▸ List.mem_append_left _ hpart)
      rw [join_concat]
      by_cases h : done = []
      · subst h
        rfl
      · rw [if_pos (mt hdone.mp h), if_pos h]
    have htake : q.take (done.length + 1) = done ++ [part] := by
      rw [← hq, List.take_append]
      simp
    have hlast : decide (done.length + 1 = q.length) = decide (rest = []) := by
      rw [← hq, decide_eq_decide]
      cases rest <;> simp
    have hrec := @ih (done ++ [part]) (by rw [← hq]; simp)
    rw [List.length_append, List.length_singleton] at hrec
    rw [addParts_cons, List.length_cons, List.range'_succ, List.foldlM_cons, htake, hlast, hlead]
    exact congrArg (Option.bind _) (funext hrec)

theorem add_eq (s : Spelled) (name : String) :
    s.add name = if packaged name then s.walk (components name) else none := by
  rw [add]
  split_ifs with h
  · have hne : ∀ part ∈ components name, part ≠ [] := by
      simp only [packaged, Packaging.validPath, Bool.and_eq_true, Bool.or_eq_true,
        decide_eq_true_eq, List.all_eq_true] at h
      intro part hpart
      have hportable := (h.1.2.resolve_left h.1.1.1).2 part hpart
      simp only [portable, Bool.and_eq_true, decide_eq_true_eq] at hportable
      exact hportable.1.1.1.1.1
    rw [walk, List.range_eq_range']
    exact addParts_eq (List.nil_append _) hne s
  · rfl

/-! ### The rule -/

section Loop

variable {f : Spelled → String → Option Spelled} {g : String → Bool}
  (hf : ∀ s p, f s p = if g p then s.walk (components p) else none) {paths : List String}
include hf

/-- Adding paths one after the other, with texts and with components. -/
theorem foldlM_spell (hg : ∀ p ∈ paths, g p = true) (ht : Tidy t) :
    paths.foldlM f (spell t) = ((paths.map components).foldlM PathSet.add t).map spell := by
  induction paths generalizing t with
  | nil => rfl
  | cons p ps ih =>
    obtain ⟨hwalk, htidy⟩ := walk_eq ht (clean_components p)
    rw [List.foldlM_cons, List.map_cons, List.foldlM_cons, hf,
      if_pos (hg p List.mem_cons_self), hwalk]
    cases hadd : t.add (components p) with
    | none => rfl
    | some u => exact ih (fun q hq => hg q (List.mem_cons_of_mem _ hq)) (htidy u hadd)

theorem foldlM_refused {p : String} (hp : p ∈ paths) (hg : g p = false) (s : Spelled) :
    paths.foldlM f s = none := by
  induction paths generalizing s with
  | nil => cases hp
  | cons q qs ih =>
    rw [List.foldlM_cons]
    rcases List.mem_cons.mp hp with rfl | hp
    · rw [hf, if_neg (by rw [hg]; exact Bool.false_ne_true)]
      rfl
    · cases f s q with
      | none => rfl
      | some s' => exact ih hp s'

theorem isSome_foldlM (paths : List String) :
    (paths.foldlM f {}).isSome = (paths.all g && PathSet.disjoint (paths.map components)) := by
  by_cases hg : ∀ p ∈ paths, g p = true
  · have hempty : Tidy PathSet.empty :=
      ⟨fun _ h => absurd h List.not_mem_nil, fun _ h => absurd h List.not_mem_nil⟩
    have hspell := foldlM_spell hf hg hempty
    rw [show spell PathSet.empty = {} from rfl] at hspell
    rw [hspell, Option.isSome_map, PathSet.disjoint, List.all_eq_true.mpr hg, Bool.true_and]
  · obtain ⟨p, hp, hrefused⟩ : ∃ p ∈ paths, g p = false := by simpa using hg
    have hall : paths.all g = false := List.all_eq_false.mpr ⟨p, hp, by simp [hrefused]⟩
    rw [foldlM_refused hf hp hrefused, hall]
    rfl

end Loop

theorem disjointRunnerPaths_eq (paths : List String) :
    disjointRunnerPaths paths = RunnerPlan.disjointRunnerPaths paths := by
  have hloop := isSome_foldlM (f := addRunnerPath) (g := fun _ => true)
    (fun s p => by rw [addRunnerPath_eq, if_pos rfl]) paths
  rw [disjointRunnerPaths, hloop, List.all_eq_true.mpr fun _ _ => rfl, Bool.true_and,
    RunnerPlan.disjointRunnerPaths]

theorem addAll_eq (paths : List String) :
    addAll paths = (paths.all packaged && PathSet.disjoint (paths.map components)) :=
  isSome_foldlM add_eq paths

theorem disjoint_eq (paths : List String) : disjoint paths = Runner.disjoint paths :=
  isSome_foldlM require_eq paths

/-- No two paths are equal but for case, none is a directory of another but for case, and a
directory that two have in common but for case has one spelling. -/
structure Separate (p q : String) : Prop where
  unequal : lowercase p.toList ≠ lowercase q.toList
  first : ¬ ((components p).length < (components q).length ∧
    (components p).map lowercase <+: (components q).map lowercase)
  second : ¬ ((components q).length < (components p).length ∧
    (components q).map lowercase <+: (components p).map lowercase)
  spelling : ∀ n, 0 < n → n < (components p).length → n < (components q).length →
    ((components p).take n).map lowercase = ((components q).take n).map lowercase →
    (components p).take n = (components q).take n

theorem join_components (p : String) : join (components p) = p.toList := List.intercalate_splitOn _

theorem equal_fold_iff (p q : String) :
    lowercase p.toList = lowercase q.toList ↔ PathSet.key (components p) =
      PathSet.key (components q) := by
  rw [← join_components p, ← join_components q, lowercase_join, lowercase_join]
  exact ⟨join_inj (clean_components p).key (clean_components q).key, congrArg join⟩

theorem separate_iff (p q : String) :
    Separate p q ↔ PathSet.Apart (components p) (components q) := by
  constructor
  · intro h n h0 hp hq hkey
    have hlt_of_prefix : n = (components p).length → False := by
      rintro rfl
      rw [List.take_length] at hkey
      rcases lt_or_eq_of_le hq with hlt | heq
      · refine h.first ⟨hlt, ?_⟩
        rw [show (components p).map lowercase = _ from hkey, PathSet.key, List.map_take]
        exact List.take_prefix _ _
      · rw [heq, List.take_length] at hkey
        exact h.unequal ((equal_fold_iff p q).mpr hkey)
    have hlt_of_prefix' : n = (components q).length → False := by
      rintro rfl
      rw [List.take_length] at hkey
      rcases lt_or_eq_of_le hp with hlt | heq
      · refine h.second ⟨hlt, ?_⟩
        rw [← show _ = (components q).map lowercase from hkey, PathSet.key, List.map_take]
        exact List.take_prefix _ _
      · rw [heq, List.take_length] at hkey
        exact h.unequal ((equal_fold_iff p q).mpr hkey)
    have hp' := lt_of_le_of_ne hp hlt_of_prefix
    have hq' := lt_of_le_of_ne hq hlt_of_prefix'
    exact ⟨h.spelling n h0 hp' hq' hkey, hp', hq'⟩
  · intro h
    have hpos (p : String) : 0 < (components p).length :=
      List.length_pos_iff.mpr (clean_components p).1
    have hbegin {p q : String} (hlt : (components p).length < (components q).length)
        (hpre : (components p).map lowercase <+: (components q).map lowercase) :
        PathSet.key ((components p).take (components p).length) =
          PathSet.key ((components q).take (components p).length) := by
      have := List.prefix_iff_eq_take.mp hpre
      rw [List.take_length, PathSet.key, this, PathSet.key, List.map_take, List.length_map]
    refine ⟨fun heq => ?_, ?_, ?_, fun n h0 hp hq hkey => ?_⟩
    · have hkey := (equal_fold_iff p q).mp heq
      have hlen := PathSet.length_of_key hkey
      have := h (components p).length (hpos p) le_rfl hlen.le
        (by rw [List.take_length, hlen, List.take_length]; exact hkey)
      omega
    · rintro ⟨hlt, hpre⟩
      have := h _ (hpos p) le_rfl hlt.le (hbegin hlt hpre)
      omega
    · rintro ⟨hlt, hpre⟩
      have := h _ (hpos q) hlt.le le_rfl (hbegin hlt hpre).symm
      omega
    · exact (h n h0 hp.le hq.le hkey).1

theorem disjoint_components_iff (paths : List String) :
    PathSet.disjoint (paths.map components) = true ↔ paths.Pairwise Separate := by
  have hne : ∀ q ∈ paths.map components, q ≠ [] := by
    intro q hq
    obtain ⟨p, -, rfl⟩ := List.mem_map.mp hq
    exact (clean_components p).1
  rw [PathSet.disjoint_iff hne, List.pairwise_map]
  exact ⟨fun h => h.imp fun {p q} => (separate_iff p q).mpr, fun h => h.imp fun {p q} =>
    (separate_iff p q).mp⟩

/-- The answer of each implementation, by the rule. -/
theorem answers_iff {paths : List String}
    (hvalid : ∀ p ∈ paths, packaged p = true ∧ Runner.relative p false = true) :
    (disjointRunnerPaths paths = true ↔ paths.Pairwise Separate) ∧
      (addAll paths = true ↔ paths.Pairwise Separate) ∧
      (disjoint paths = true ↔ paths.Pairwise Separate) := by
  rw [← disjoint_components_iff, disjointRunnerPaths_eq, RunnerPlan.disjointRunnerPaths,
    addAll_eq, disjoint_eq,
    Runner.disjoint, List.all_eq_true.mpr fun p hp => (hvalid p hp).1,
      List.all_eq_true.mpr fun p hp => (hvalid p hp).2,
    Bool.true_and]
  exact ⟨Iff.rfl, Iff.rfl, Iff.rfl⟩

/-- The three implementations take the same lists of paths that are valid for all of them, those in
which any two paths are separate, in any order. -/
theorem path_rules_agree (paths : List String)
    (hvalid : ∀ p ∈ paths, packaged p = true ∧ Runner.relative p false = true) :
    (disjointRunnerPaths paths = true ↔ paths.Pairwise Separate) ∧
      (addAll paths = true ↔ paths.Pairwise Separate) ∧
      (disjoint paths = true ↔ paths.Pairwise Separate) ∧
      ∀ paths', paths'.Perm paths → disjointRunnerPaths paths' = disjointRunnerPaths paths ∧
        addAll paths' = addAll paths ∧ disjoint paths' = disjoint paths := by
  obtain ⟨hdispatch, hpackaging, hrunner⟩ := answers_iff hvalid
  refine ⟨hdispatch, hpackaging, hrunner, fun paths' hperm => ?_⟩
  obtain ⟨hdispatch', hpackaging', hrunner'⟩ :=
    answers_iff fun p hp => hvalid p (hperm.mem_iff.mp hp)
  have hsymm {p q : String} (h : Separate p q) : Separate q p :=
    (separate_iff q p).mpr ((separate_iff p q).mp h).symm
  have hsame : paths'.Pairwise Separate ↔ paths.Pairwise Separate := hperm.pairwise_iff hsymm
  exact ⟨Bool.eq_iff_iff.mpr (hdispatch'.trans (hsame.trans hdispatch.symm)),
    Bool.eq_iff_iff.mpr (hpackaging'.trans (hsame.trans hpackaging.symm)),
    Bool.eq_iff_iff.mpr (hrunner'.trans (hsame.trans hrunner.symm))⟩

/-- Two directories with one spelling, and with two. -/
theorem src_rules_agree :
    disjointRunnerPaths ["src/a.py", "src/b.py"] = true ∧ addAll ["src/a.py", "src/b.py"] = true ∧
      disjoint ["src/b.py", "src/a.py"] = true ∧ ¬ ["src/a.py", "SRC/b.py"].Pairwise Separate := by
  have hvalid : ∀ p ∈ ["src/a.py", "src/b.py"], packaged p = true ∧
      Runner.relative p false = true := by
    decide +kernel
  have hvalid' : ∀ p ∈ ["src/a.py", "SRC/b.py"], packaged p = true ∧
      Runner.relative p false = true := by
    decide +kernel
  have hdispatch : disjointRunnerPaths ["src/a.py", "src/b.py"] = true := by decide +kernel
  have hrule := (path_rules_agree _ hvalid).1.mp hdispatch
  refine ⟨hdispatch, (path_rules_agree _ hvalid).2.1.mpr hrule, ?_, ?_⟩
  · rw [((path_rules_agree _ hvalid).2.2.2 _ (List.Perm.swap _ _ _)).2.2]
    exact (path_rules_agree _ hvalid).2.2.1.mpr hrule
  · rw [← (path_rules_agree _ hvalid').1]
    decide +kernel

end Spelled

end RunnerPlan
end ComputeRelay
