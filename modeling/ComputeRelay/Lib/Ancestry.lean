import Mathlib.Tactic
import ComputeRelay.Lib.KeySort

/-!
# Names that stay apart

A name is a text; the parts of it before each slash are the names `above` it. `scan` goes through
names and refuses one that it has seen, or that has seen a name above it. It looks back only, so it
depends on the order; on sorted names it finds every pair of which one is the other or is above it
(`scan_sortBy`), because a name is greater than those above it.
-/

namespace Ancestry

/-- What stands before each slash. -/
def heads : List Char → List (List Char)
  | [] => []
  | c :: cs => (if c = '/' then [[]] else []) ++ (heads cs).map (c :: ·)

def above (name : String) : List String := (heads name.toList).map String.ofList

/-- No name has been seen before, nor one above it. -/
def scan : List String → List String → Bool
  | _, [] => true
  | seen, name :: rest =>
    name ∉ seen && (above name).all (· ∉ seen) && scan (name :: seen) rest

/-- What is asked of a name and one before it. -/
def Clear (before name : String) : Prop := before ≠ name ∧ before ∉ above name

/-- Neither name is the other or above it. -/
def Apart (a b : String) : Prop := Clear a b ∧ Clear b a

theorem Apart.symm {a b : String} (h : Apart a b) : Apart b a := ⟨h.2, h.1⟩

theorem lt_of_mem_heads {cs head : List Char} (h : head ∈ heads cs) : head < cs := by
  induction cs generalizing head with
  | nil => cases h
  | cons c cs ih =>
    rcases List.mem_append.mp h with h | h
    · split at h
      · rw [List.mem_singleton.mp h]
        exact List.nil_lt_cons c cs
      · cases h
    · obtain ⟨rest, hrest, rfl⟩ := List.mem_map.mp h
      exact List.cons_lt_cons_iff.mpr (.inr ⟨rfl, ih hrest⟩)

theorem lt_of_mem_above {a name : String} (h : a ∈ above name) : a < name := by
  obtain ⟨head, hhead, rfl⟩ := List.mem_map.mp h
  show (String.ofList head).toList < name.toList
  rw [String.toList_ofList]
  exact lt_of_mem_heads hhead

theorem scan_iff (names seen : List String) :
    scan seen names = true ↔
      (∀ name ∈ names, ∀ s ∈ seen, Clear s name) ∧ names.Pairwise Clear := by
  induction names generalizing seen with
  | nil => simp [scan]
  | cons name rest ih =>
    simp only [scan, Bool.and_eq_true, decide_eq_true_eq, List.all_eq_true, ih,
      List.forall_mem_cons, List.pairwise_cons, Clear]
    constructor
    · rintro ⟨⟨hnew, habove⟩, hrest, hpairs⟩
      refine ⟨⟨fun s hs => ⟨?_, ?_⟩, fun n hn s hs => (hrest n hn).2 s hs⟩, ?_, hpairs⟩
      · rintro rfl
        exact hnew hs
      · exact fun hmem => habove s hmem hs
      · exact fun n hn => (hrest n hn).1
    · rintro ⟨⟨hname, hseen⟩, hfirst, hpairs⟩
      refine ⟨⟨fun hmem => (hname name hmem).1 rfl, fun a ha hmem => (hname a hmem).2 ha⟩, ?_,
        hpairs⟩
      exact fun n hn => ⟨hfirst n hn, hseen n hn⟩

theorem scan_sortBy (names : List String) :
    scan [] (KeySort.sortBy id names) = true ↔ names.Pairwise Apart := by
  have hsorted := KeySort.pairwise_sortBy id names
  rw [scan_iff, ← (KeySort.sortBy_perm id names).pairwise_iff Apart.symm]
  constructor
  · rintro ⟨-, hclear⟩
    refine (hsorted.and hclear).imp ?_
    rintro a b ⟨hle, hab⟩
    refine ⟨hab, hab.1.symm, fun hmem => ?_⟩
    exact String.not_le.mpr (lt_of_mem_above hmem) hle
  · intro hapart
    exact ⟨fun _ _ s hs => absurd hs List.not_mem_nil, hapart.imp fun h => h.1⟩

theorem pairwise_of_subperm {α : Type} {r : α → α → Prop} (hsymm : ∀ {a b}, r a b → r b a)
    {all chosen : List α} (h : chosen.Subperm all) (hall : all.Pairwise r) : chosen.Pairwise r := by
  obtain ⟨l, hperm, hsub⟩ := h
  exact (hperm.pairwise_iff hsymm).mp (hall.sublist hsub)

end Ancestry
