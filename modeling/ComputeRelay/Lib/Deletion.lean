import Mathlib.Tactic

/-!
# Deleting shared objects behind a fence

Objects are owned by keys, and users hold keys. An object is *doomed* from the moment its deletion
is decided until the deletion is settled. `Fence` says that a doomed object is never in use: it has
an owner, it has only one, and nobody holds that key.

Three rules keep a fence: a key is taken only while none of its objects is doomed (`Fence.hold`), an
object is doomed only while its owner is not held (`Fence.doom`), and a new object belongs to no
other key (`Fence.own`). The last rule asks nothing of the doomed objects, since a doomed object
already has its one owner.
-/

namespace Deletion

variable {κ ο : Type*}

/-- A doomed object has exactly one owner, and nobody holds it. -/
structure Fence (owns : κ → ο → Prop) (held : κ → Prop) (doomed : ο → Prop) : Prop where
  sole : ∀ k k' o, owns k o → owns k' o → k = k'
  owned : ∀ o, doomed o → ∃ k, owns k o
  free : ∀ k o, owns k o → doomed o → ¬ held k

variable {owns owns' : κ → ο → Prop} {held held' : κ → Prop} {doomed doomed' : ο → Prop}

/-- Keys are released, or taken while none of their objects is doomed. -/
theorem Fence.hold (h : Fence owns held doomed)
    (hheld : ∀ k, held' k → held k ∨ ∀ o, owns k o → ¬ doomed o) : Fence owns held' doomed where
  sole := h.sole
  owned := h.owned
  free k o ho hd hk := by
    rcases hheld k hk with hk | hk
    · exact h.free k o ho hd hk
    · exact hk o ho hd

/-- Deletions are settled, or decided while an owner of the object is not held. -/
theorem Fence.doom (h : Fence owns held doomed)
    (hdoomed : ∀ o, doomed' o → doomed o ∨ ∃ k, owns k o ∧ ¬ held k) :
    Fence owns held doomed' where
  sole := h.sole
  owned o hd := by
    rcases hdoomed o hd with hd | ⟨k, ho, -⟩
    · exact h.owned o hd
    · exact ⟨k, ho⟩
  free k o ho hd := by
    rcases hdoomed o hd with hd | ⟨k', ho', hk'⟩
    · exact h.free k o ho hd
    · rwa [h.sole k k' o ho ho']

/-- A key gets an object that no other key owns, even if the object is doomed. -/
theorem Fence.own {a : κ} {b : ο} (h : Fence owns held doomed)
    (howns : ∀ k o, owns' k o ↔ owns k o ∨ k = a ∧ o = b) (hsole : ∀ k, owns k b → k = a) :
    Fence owns' held doomed where
  sole k k' o ho ho' := by
    rcases (howns k o).mp ho with ho | ⟨hk, ho⟩ <;> rcases (howns k' o).mp ho' with ho' | ⟨hk', ho'⟩
    · exact h.sole k k' o ho ho'
    · exact (hsole k (ho' ▸ ho)).trans hk'.symm
    · exact hk.trans (hsole k' (ho ▸ ho')).symm
    · exact hk.trans hk'.symm
  owned o hd := by
    obtain ⟨k, ho⟩ := h.owned o hd
    exact ⟨k, (howns k o).mpr (Or.inl ho)⟩
  free k o ho hd := by
    rcases (howns k o).mp ho with ho | ⟨rfl, rfl⟩
    · exact h.free k o ho hd
    · obtain ⟨k', ho'⟩ := h.owned o hd
      have heq := hsole k' ho'
      subst heq
      exact h.free k' o ho' hd

end Deletion
