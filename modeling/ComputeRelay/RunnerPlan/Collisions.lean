import Mathlib.Tactic
import ComputeRelay.RunnerPlan.ParseResult
import ComputeRelay.RunnerPlan.Spelled

/-!
# Collisions on sorted names

`collisionFree` of `internal/collection/manifest.go` and the path loop of `ParseResult` sort the
folded names and look each one up, and all that stands before one of its slashes, among those before
it. The first finds the slashes by index, the second by joining components. Both go through the same
names (`prefixesFree_eq`, `partsFree_eq`), so both are the comparison of every pair of paths
(`Ancestry.scan_sortBy`).
-/

namespace ComputeRelay
namespace RunnerPlan
namespace Collisions

open Paths Spelled

/-! ### The two implementations -/

/-- `strings.IndexByte(name, '/')` -/
def indexSlash (name : List Char) : Option ℕ := name.findIdx? (· = '/')

theorem lt_of_indexSlash {name : List Char} {n : ℕ} (h : indexSlash name = some n) :
    n < name.length :=
  (List.findIdx?_eq_some_iff_getElem.mp h).1

/-- The loop of `collisionFree` over the slashes of a name, at the one with index `i`. -/
def prefixesFree (seen : List String) (name : List Char) (i : ℕ) : Bool :=
  if String.ofList (name.take i) ∈ seen then false
  else
    match h : indexSlash (name.drop (i + 1)) with
    | none => true
    | some next => prefixesFree seen name (i + (next + 1))
termination_by name.length - i
decreasing_by
  have := lt_of_indexSlash h
  rw [List.length_drop] at this
  omega

/-- The loop of `collisionFree` over the sorted names. -/
def namesFree : List String → List String → Bool
  | _, [] => true
  | seen, name :: rest =>
    if name ∈ seen then false
    else if !(indexSlash name.toList).all (prefixesFree seen name.toList) then false
    else namesFree (name :: seen) rest

/-- `collisionFree` -/
def collisionFree (paths : List String) : Bool :=
  paths.all printablePath && namesFree [] (KeySort.sortBy id (paths.map String.toLower))

/-- The loop of `ParseResult` over the sorted paths. -/
def partsFree : List String → List String → Bool
  | _, [] => true
  | seen, path :: rest =>
    let parts := components path
    if path ∈ seen then false
    else if (List.range' 1 (parts.length - 1)).any fun i =>
        String.ofList (join (parts.take i)) ∈ seen then false
    else partsFree (path :: seen) rest

/-- The paths that `ParseResult` takes. -/
def resultPaths (paths : List String) : Bool :=
  paths.all printablePath && partsFree [] (KeySort.sortBy id (paths.map String.toLower))

/-! ### Both look up what stands before a slash -/

theorem heads_of_not_mem {cs : List Char} (h : '/' ∉ cs) : Ancestry.heads cs = [] := by
  induction cs with
  | nil => rfl
  | cons c cs ih =>
    have hc : c ≠ '/' := fun hc => h (by simp [hc])
    rw [Ancestry.heads, if_neg hc, ih fun hcs => h (by simp [hcs])]
    rfl

theorem heads_slash (cs : List Char) :
    Ancestry.heads ('/' :: cs) = [] :: (Ancestry.heads cs).map ('/' :: ·) := rfl

theorem heads_append {lead : List Char} (h : '/' ∉ lead) (cs : List Char) :
    Ancestry.heads (lead ++ cs) = (Ancestry.heads cs).map (lead ++ ·) := by
  induction lead with
  | nil => simp
  | cons c lead ih =>
    have hc : c ≠ '/' := fun hc => h (by simp [hc])
    rw [List.cons_append, Ancestry.heads, if_neg hc, ih fun hlead => h (by simp [hlead]),
      List.nil_append, List.map_map]
    rfl

theorem indexSlash_none {cs : List Char} (h : indexSlash cs = none) : '/' ∉ cs := by
  intro hmem
  simpa using List.findIdx?_eq_none_iff.mp h '/' hmem

theorem indexSlash_some {cs : List Char} {n : ℕ} (h : indexSlash cs = some n) :
    ∃ lead rest, cs = lead ++ '/' :: rest ∧ '/' ∉ lead ∧ lead.length = n := by
  obtain ⟨hn, hslash, hbefore⟩ := List.findIdx?_eq_some_iff_getElem.mp h
  refine ⟨cs.take n, cs.drop (n + 1), ?_, ?_, by simp [hn.le]⟩
  · rw [← of_decide_eq_true hslash, ← List.drop_eq_getElem_cons hn, List.take_append_drop]
  · intro hmem
    obtain ⟨j, hj, hget⟩ := List.getElem_of_mem hmem
    rw [List.length_take] at hj
    have := hbefore j (by omega)
    rw [List.getElem_take] at hget
    simp [hget] at this

/-- From a slash on, the names before that slash and before the later ones are looked up. -/
theorem prefixesFree_eq {seen : List String} {lead rest : List Char} {name : List Char}
    (hname : name = lead ++ '/' :: rest) :
    prefixesFree seen name lead.length =
      ((Ancestry.heads ('/' :: rest)).map (lead ++ ·)).all fun head =>
        String.ofList head ∉ seen := by
  induction hlen : rest.length using Nat.strong_induction_on generalizing lead rest with
  | _ n ih =>
    subst hlen
    have htake : name.take lead.length = lead := by rw [hname, List.take_left]
    have hdrop : name.drop (lead.length + 1) = rest := by rw [hname]; simp
    rw [prefixesFree, htake, heads_slash, List.map_cons, List.append_nil, List.all_cons]
    by_cases hseen : String.ofList lead ∈ seen
    · simp [hseen]
    · rw [if_neg hseen, decide_eq_true hseen, Bool.true_and]
      split
      · next hnone =>
        rw [hdrop] at hnone
        rw [heads_of_not_mem (indexSlash_none hnone)]
        rfl
      · next next hsome =>
        rw [hdrop] at hsome
        obtain ⟨lead', rest', hrest, hlead', rfl⟩ := indexSlash_some hsome
        have hmove : name = (lead ++ '/' :: lead') ++ '/' :: rest' := by rw [hname, hrest]; simp
        have hrec := ih rest'.length (by rw [hrest]; simp; omega) hmove rfl
        rw [show lead.length + (lead'.length + 1) = (lead ++ '/' :: lead').length by simp, hrec,
          hrest, heads_append hlead', List.map_map, List.map_map]
        simp [Function.comp_def]

theorem namesFree_eq (seen names : List String) :
    namesFree seen names = Ancestry.scan seen names := by
  induction names generalizing seen with
  | nil => rfl
  | cons name rest ih =>
    have hheads : (indexSlash name.toList).all (prefixesFree seen name.toList) =
        (Ancestry.above name).all (· ∉ seen) := by
      cases hindex : indexSlash name.toList with
      | none => rw [Ancestry.above, heads_of_not_mem (indexSlash_none hindex)]; rfl
      | some n =>
        obtain ⟨lead, rest, hname, hlead, rfl⟩ := indexSlash_some hindex
        rw [Option.all_some, prefixesFree_eq hname, Ancestry.above, hname,
          heads_append hlead, List.all_map, List.all_map, List.all_map]
        rfl
    rw [namesFree, Ancestry.scan, hheads, ih]
    by_cases hseen : name ∈ seen
    · simp [hseen]
    · cases (Ancestry.above name).all (· ∉ seen) <;> simp [hseen]

theorem join_cons {p : Component} {q : List Component} (hq : q ≠ []) :
    join (p :: q) = p ++ '/' :: join q := by
  cases q with
  | nil => exact absurd rfl hq
  | cons p' q => simp [join, List.intercalate_cons_cons]

/-- What stands before a slash is the text of some first components. -/
theorem heads_join {q : List Component} (hq : Clean q) :
    Ancestry.heads (join q) = (List.range' 1 (q.length - 1)).map fun i => join (q.take i) := by
  induction q with
  | nil => exact absurd rfl hq.1
  | cons p q ih =>
    obtain ⟨hp, hrest⟩ := List.forall_mem_cons.mp hq.2
    cases q with
    | nil => simpa [join] using heads_of_not_mem hp
    | cons p' q =>
      have htake : ∀ i ∈ List.range' 1 q.length,
          p ++ '/' :: join ((p' :: q).take i) = join ((p :: p' :: q).take (1 + i)) := by
        intro i hi
        have hpos : 1 ≤ i := (List.mem_range'_1.mp hi).1
        rw [Nat.add_comm 1 i, List.take_succ_cons, join_cons]
        exact (Clean.take ⟨List.cons_ne_nil _ _, hrest⟩ hpos).1
      have hlength : (p :: p' :: q).length - 1 = q.length + 1 := rfl
      rw [join_cons (List.cons_ne_nil _ _), heads_append hp, heads_slash,
        ih ⟨List.cons_ne_nil _ _, hrest⟩, hlength,
        List.range'_succ, List.map_cons, List.map_cons, ← List.map_add_range', List.map_map,
          List.map_map, List.map_map]
      exact congrArg₂ List.cons (by simp [join]) (List.map_congr_left htake)

theorem partsFree_eq (seen paths : List String) :
    partsFree seen paths = Ancestry.scan seen paths := by
  induction paths generalizing seen with
  | nil => rfl
  | cons path rest ih =>
    have hheads : Ancestry.above path =
        (List.range' 1 ((components path).length - 1)).map fun i =>
          String.ofList (join ((components path).take i)) := by
      rw [Ancestry.above, ← join_components path, heads_join (clean_components path), List.map_map]
      rfl
    rw [partsFree, Ancestry.scan, hheads, ih, List.all_map]
    have hopposite : ((List.range' 1 ((components path).length - 1)).any fun i =>
        String.ofList (join ((components path).take i)) ∈ seen) =
        !(List.range' 1 ((components path).length - 1)).all
          ((fun x => decide (x ∉ seen)) ∘ fun i =>
            String.ofList (join ((components path).take i))) := by
      rw [List.any_eq_not_all_not]
      simp [Function.comp_def]
    rw [hopposite]
    by_cases hseen : path ∈ seen
    · simp [hseen]
    · cases (List.range' 1 ((components path).length - 1)).all
        ((fun x => decide (x ∉ seen)) ∘ fun i => String.ofList (join ((components path).take i)))
          <;> simp [hseen]

/-! ### The rule -/

/-- One path is a directory of the other, but for case. -/
def Over (p q : String) : Prop :=
  (components p).length < (components q).length ∧
    (components p).map lowercase <+: (components q).map lowercase

/-- Two paths do not collide: they are not equal but for case, and neither is a directory of the
other but for case. -/
def Uncrossed (p q : String) : Prop :=
  lowercase p.toList ≠ lowercase q.toList ∧ ¬ Over p q ∧ ¬ Over q p

instance (p q : String) : Decidable (Over p q) := inferInstanceAs (Decidable (_ ∧ _))

instance (p q : String) : Decidable (Uncrossed p q) := inferInstanceAs (Decidable (_ ∧ _ ∧ _))

theorem toList_toLower (p : String) : p.toLower.toList = lowercase p.toList := String.toList_map

theorem mem_above_iff (p q : String) : p.toLower ∈ Ancestry.above q.toLower ↔ Over p q := by
  have hheads : Ancestry.heads (lowercase q.toList) =
      (List.range' 1 ((components q).length - 1)).map fun i =>
        join ((PathSet.key (components q)).take i) := by
    rw [← join_components q, lowercase_join, heads_join (clean_components q).key, PathSet.key,
      List.length_map]
  have hlower : lowercase p.toList = join (PathSet.key (components p)) := by
    rw [← lowercase_join, join_components]
  rw [Ancestry.above, toList_toLower, List.mem_map, hheads]
  constructor
  · rintro ⟨head, hhead, heq⟩
    obtain ⟨i, hi, rfl⟩ := List.mem_map.mp hhead
    have hrange := List.mem_range'_1.mp hi
    have htext : join ((PathSet.key (components q)).take i) =
        join (PathSet.key (components p)) := by
      rw [← hlower, ← toList_toLower, ← heq, String.toList_ofList]
    have hkey := join_inj ((clean_components q).key.take hrange.1) (clean_components p).key htext
    have hlength : (components p).length = i := by
      have hlen := congrArg List.length hkey
      simp only [PathSet.key, List.length_take, List.length_map] at hlen
      omega
    refine ⟨by omega, ?_⟩
    rw [show (components p).map lowercase = PathSet.key (components p) from rfl, ← hkey]
    exact List.take_prefix _ _
  · rintro ⟨hlt, hbegin⟩
    have hpos : 0 < (components p).length := List.length_pos_iff.mpr (clean_components p).1
    have hkey := List.prefix_iff_eq_take.mp hbegin
    rw [List.length_map] at hkey
    refine ⟨lowercase p.toList,
      List.mem_map.mpr ⟨(components p).length, List.mem_range'_1.mpr ⟨hpos, by omega⟩, ?_⟩, ?_⟩
    · rw [hlower]
      exact congrArg join hkey.symm
    · rw [← toList_toLower, String.ofList_toList]

theorem apart_iff (p q : String) : Ancestry.Apart p.toLower q.toLower ↔ Uncrossed p q := by
  have hsame : p.toLower = q.toLower ↔ lowercase p.toList = lowercase q.toList := by
    rw [← toList_toLower, ← toList_toLower, String.toList_inj]
  simp only [Ancestry.Apart, Ancestry.Clear, Uncrossed, mem_above_iff, ne_eq,
    eq_comm (a := q.toLower), hsame]
  constructor
  · rintro ⟨⟨hne, hpq⟩, -, hqp⟩
    exact ⟨hne, hpq, hqp⟩
  · rintro ⟨hne, hpq, hqp⟩
    exact ⟨⟨hne, hpq⟩, hne, hqp⟩

/-- On every list of paths, the check of the collector and the loop of `ParseResult` are the
comparison of any two paths. -/
theorem sorted_checks_agree (paths : List String) :
    (collisionFree paths = true ↔ (∀ p ∈ paths, printablePath p = true) ∧
      paths.Pairwise Uncrossed) ∧
      resultPaths paths = collisionFree paths := by
  have hscan : collisionFree paths = RunnerPlan.collisionFree paths := by
    rw [collisionFree, namesFree_eq, RunnerPlan.collisionFree]
  constructor
  · rw [hscan, collisionFree_iff, List.pairwise_map]
    exact and_congr_right fun _ =>
      ⟨fun h => h.imp fun {p q} => (apart_iff p q).mp, fun h => h.imp fun {p q} =>
        (apart_iff p q).mpr⟩
  · rw [resultPaths, collisionFree, partsFree_eq, namesFree_eq]

theorem out_checks_agree :
    collisionFree ["out/a.txt", "out/b.txt"] = true ∧
      resultPaths ["out/a.txt", "out/b.txt"] = true ∧
      collisionFree ["out/b.txt", "OUT"] = false := by
  have hfree : collisionFree ["out/a.txt", "out/b.txt"] = true :=
    (sorted_checks_agree _).1.mpr ⟨by decide +kernel, by decide +kernel⟩
  refine ⟨hfree, (sorted_checks_agree _).2.trans hfree, Bool.eq_false_iff.mpr fun h => ?_⟩
  exact absurd ((sorted_checks_agree _).1.mp h).2 (by decide +kernel)

end Collisions
end RunnerPlan
end ComputeRelay
