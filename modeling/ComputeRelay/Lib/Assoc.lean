import Mathlib.Tactic

/-!
# Association lists

Lists of pairs that are read with `List.lookup`. Where no key stands twice, reading a key and
finding a pair in the list are the same.
-/

namespace Assoc

variable {κ ν : Type*} [BEq κ] [LawfulBEq κ] {l : List (κ × ν)}

theorem mem_of_lookup {k : κ} {v : ν} (h : l.lookup k = some v) : (k, v) ∈ l := by
  obtain ⟨l₁, l₂, rfl, -⟩ := List.lookup_eq_some_iff.mp h
  simp

theorem lookup_eq_some (h : (l.map (·.1)).Nodup) {k : κ} {v : ν} :
    l.lookup k = some v ↔ (k, v) ∈ l := by
  refine ⟨mem_of_lookup, fun hmem => ?_⟩
  obtain ⟨l₁, l₂, rfl⟩ := List.append_of_mem hmem
  refine List.lookup_eq_some_iff.mpr ⟨l₁, l₂, rfl, fun other hother => ?_⟩
  rw [List.map_append, List.nodup_append] at h
  rw [bne_iff_ne]
  exact fun heq => h.2.2 _ (List.mem_map_of_mem hother) _ (by simp) heq.symm

theorem value_unique (h : (l.map (·.1)).Nodup) {k : κ} {v v' : ν} (hv : (k, v) ∈ l)
    (hv' : (k, v') ∈ l) : v = v' :=
  Option.some.inj (((lookup_eq_some h).mpr hv).symm.trans ((lookup_eq_some h).mpr hv'))

theorem not_mem_of_lookup_none {k : κ} (h : l.lookup k = none) : k ∉ l.map (·.1) := by
  rw [List.lookup_eq_none_iff] at h
  intro hmem
  obtain ⟨p, hp, rfl⟩ := List.mem_map.mp hmem
  exact absurd (h p hp) (by simp)

end Assoc
