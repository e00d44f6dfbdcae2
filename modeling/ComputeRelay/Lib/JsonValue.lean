import Mathlib.Tactic
import ComputeRelay.Lib.JsonText
import ComputeRelay.Lib.KeySort

/-!
# The value of a JSON text

A `Value` is what a text means: numbers are rational numbers, strings are characters, and an object
is a partial function of its keys, so that neither the order of members nor the spelling of anything
is left. `value` gives the value of a document.

* `sorted` puts the members of every object in the order of their keys; on documents without double
  keys it changes no value (`value_sorted`).
* `value_injOn_ordered`: documents in that order are equal when their values are.
-/

namespace Json

inductive Value
  | null
  | bool (b : Bool)
  | num (q : ℚ)
  | str (s : String)
  | arr (items : List Value)
  | obj (members : String → Option Value)

mutual

def value : Json → Value
  | null => .null
  | bool b => .bool b
  | int n => .num n
  | str s => .str s
  | arr items => .arr (valueItems items)
  | obj members => .obj (valueMembers members)

def valueItems : List Json → List Value
  | [] => []
  | j :: rest => value j :: valueItems rest

def valueMembers : List (String × Json) → String → Option Value
  | [], _ => none
  | (k, j) :: rest, key => if key = k then some (value j) else valueMembers rest key

end

/-! ### Sorted members -/

mutual

/-- The members of every object in the order of their keys. -/
def sorted : Json → Json
  | null => null
  | bool b => bool b
  | int n => int n
  | str s => str s
  | arr items => arr (sortedItems items)
  | obj members => obj (KeySort.sortBy (·.1) (sortedMembers members))

def sortedItems : List Json → List Json
  | [] => []
  | j :: rest => sorted j :: sortedItems rest

/-- The members, each of them sorted. -/
def sortedMembers : List (String × Json) → List (String × Json)
  | [] => []
  | (k, j) :: rest => (k, sorted j) :: sortedMembers rest

end

mutual

/-- No object has two members with one key. -/
def distinct : Json → Bool
  | arr items => distinctItems items
  | obj members => (members.map (·.1)).Nodup && distinctMembers members
  | _ => true

def distinctItems : List Json → Bool
  | [] => true
  | j :: rest => distinct j && distinctItems rest

def distinctMembers : List (String × Json) → Bool
  | [] => true
  | (_, j) :: rest => distinct j && distinctMembers rest

end

mutual

/-- The keys of every object increase. -/
def ordered : Json → Prop
  | arr items => orderedItems items
  | obj members => (members.map (·.1)).Pairwise (· < ·) ∧ orderedMembers members
  | _ => True

def orderedItems : List Json → Prop
  | [] => True
  | j :: rest => ordered j ∧ orderedItems rest

def orderedMembers : List (String × Json) → Prop
  | [] => True
  | (_, j) :: rest => ordered j ∧ orderedMembers rest

end

theorem orderedMembers_iff {members : List (String × Json)} :
    orderedMembers members ↔ ∀ m ∈ members, ordered m.2 := by
  induction members with
  | nil => simp [orderedMembers]
  | cons m rest ih =>
    obtain ⟨k, j⟩ := m
    simp [orderedMembers, ih]

theorem map_fst_sortedMembers (members : List (String × Json)) :
    (sortedMembers members).map (·.1) = members.map (·.1) := by
  induction members with
  | nil => rfl
  | cons m rest ih =>
    obtain ⟨k, j⟩ := m
    rw [sortedMembers, List.map_cons, List.map_cons, ih]

theorem valueMembers_perm {as bs : List (String × Json)} (h : as.Perm bs)
    (hnodup : (as.map (·.1)).Nodup) : valueMembers as = valueMembers bs := by
  induction h with
  | nil => rfl
  | cons m h ih =>
    obtain ⟨k, j⟩ := m
    rw [List.map_cons, List.nodup_cons] at hnodup
    funext key
    rw [valueMembers, valueMembers, ih hnodup.2]
  | swap m m' rest =>
    obtain ⟨k, j⟩ := m
    obtain ⟨k', j'⟩ := m'
    simp only [List.map_cons, List.nodup_cons, List.mem_cons, not_or] at hnodup
    funext key
    simp only [valueMembers]
    by_cases h1 : key = k
    · rw [if_pos h1, if_neg (fun h2 : key = k' => hnodup.1.1 (h2.symm.trans h1)), if_pos h1]
    · rw [if_neg h1, if_neg h1]
  | trans h h' ih ih' =>
    exact (ih hnodup).trans (ih' ((h.map _).nodup_iff.mp hnodup))

mutual

theorem value_sorted : ∀ {j : Json}, distinct j = true → (sorted j).value = j.value
  | null, _ => rfl
  | bool _, _ => rfl
  | int _, _ => rfl
  | str _, _ => rfl
  | arr items, h => by
    rw [distinct] at h
    rw [sorted, value, value, valueItems_sorted h]
  | obj members, h => by
    rw [distinct, Bool.and_eq_true, decide_eq_true_eq] at h
    rw [sorted, value, value, ← valueMembers_sorted h.2]
    refine congrArg Value.obj (valueMembers_perm (KeySort.sortBy_perm _ _) ?_)
    exact ((KeySort.sortBy_perm _ _).map _).nodup_iff.mpr (map_fst_sortedMembers members ▸ h.1)

theorem valueItems_sorted : ∀ {items : List Json}, distinctItems items = true →
    valueItems (sortedItems items) = valueItems items
  | [], _ => rfl
  | j :: rest, h => by
    rw [distinctItems, Bool.and_eq_true] at h
    rw [sortedItems, valueItems, valueItems, value_sorted h.1, valueItems_sorted h.2]

theorem valueMembers_sorted : ∀ {members : List (String × Json)}, distinctMembers members = true →
    valueMembers (sortedMembers members) = valueMembers members
  | [], _ => rfl
  | (k, j) :: rest, h => by
    rw [distinctMembers, Bool.and_eq_true] at h
    funext key
    rw [sortedMembers, valueMembers, valueMembers, value_sorted h.1, valueMembers_sorted h.2]

end

mutual

theorem ordered_sorted : ∀ {j : Json}, distinct j = true → ordered (sorted j)
  | null, _ => trivial
  | bool _, _ => trivial
  | int _, _ => trivial
  | str _, _ => trivial
  | arr items, h => by
    rw [distinct] at h
    exact orderedItems_sorted h
  | obj members, h => by
    rw [distinct, Bool.and_eq_true, decide_eq_true_eq] at h
    refine ⟨?_, ?_⟩
    · rw [List.pairwise_map]
      exact KeySort.increasing_sortBy _ (map_fst_sortedMembers members ▸ h.1)
    · rw [orderedMembers_iff]
      intro m hm
      exact orderedMembers_iff.mp (orderedMembers_sorted h.2) m
        ((KeySort.sortBy_perm _ _).mem_iff.mp hm)

theorem orderedItems_sorted : ∀ {items : List Json}, distinctItems items = true →
    orderedItems (sortedItems items)
  | [], _ => trivial
  | j :: rest, h => by
    rw [distinctItems, Bool.and_eq_true] at h
    exact ⟨ordered_sorted h.1, orderedItems_sorted h.2⟩

theorem orderedMembers_sorted : ∀ {members : List (String × Json)},
    distinctMembers members = true → orderedMembers (sortedMembers members)
  | [], _ => trivial
  | (k, j) :: rest, h => by
    rw [distinctMembers, Bool.and_eq_true] at h
    exact ⟨ordered_sorted h.1, orderedMembers_sorted h.2⟩

end

/-! ### A sorted document is its value -/

theorem valueMembers_eq_none {members : List (String × Json)} {key : String}
    (h : key ∉ members.map (·.1)) : valueMembers members key = none := by
  induction members with
  | nil => rfl
  | cons m rest ih =>
    obtain ⟨k, j⟩ := m
    rw [List.map_cons, List.mem_cons, not_or] at h
    rw [valueMembers, if_neg h.1, ih h.2]

/-- The first key of an object is not below the least key of one with the same value. -/
theorem not_lt_of_valueMembers {k k' : String} {j j' : Json} {rest rest' : List (String × Json)}
    (h' : (((k', j') :: rest').map (·.1)).Pairwise (· < ·))
    (heq : valueMembers ((k, j) :: rest) = valueMembers ((k', j') :: rest')) : ¬ k < k' := by
  intro hlt
  have hout : k ∉ ((k', j') :: rest').map (·.1) := by
    intro hk
    rcases List.mem_cons.mp hk with hk | hk
    · exact String.lt_irrefl k' (Eq.subst (motive := (· < k')) hk hlt)
    · exact String.lt_irrefl k (String.lt_trans hlt ((List.pairwise_cons.mp h').1 k hk))
  have := congrFun heq k
  rw [valueMembers_eq_none hout, valueMembers, if_pos rfl] at this
  cases this

/-- Two objects with increasing keys and one value have the same first key, and the rest of them has
one value too. -/
theorem valueMembers_cons {k k' : String} {j j' : Json} {rest rest' : List (String × Json)}
    (h : (((k, j) :: rest).map (·.1)).Pairwise (· < ·))
    (h' : (((k', j') :: rest').map (·.1)).Pairwise (· < ·))
    (heq : valueMembers ((k, j) :: rest) = valueMembers ((k', j') :: rest')) :
    k = k' ∧ value j = value j' ∧ valueMembers rest = valueMembers rest' := by
  have hmin := not_lt_of_valueMembers h' heq
  have hmin' := not_lt_of_valueMembers h heq.symm
  rw [List.map_cons, List.pairwise_cons] at h h'
  obtain rfl : k = k' := String.le_antisymm (String.not_lt.mp hmin') (String.not_lt.mp hmin)
  have hhead := congrFun heq k
  rw [valueMembers, valueMembers, if_pos rfl, if_pos rfl] at hhead
  refine ⟨rfl, Option.some.inj hhead, funext fun key => ?_⟩
  by_cases hkey : key = k
  · subst hkey
    rw [valueMembers_eq_none fun hk => String.lt_irrefl key (h.1 key hk),
      valueMembers_eq_none fun hk => String.lt_irrefl key (h'.1 key hk)]
  · have := congrFun heq key
    rwa [valueMembers, valueMembers, if_neg hkey, if_neg hkey] at this

mutual

/-- **Documents in the order of their keys are equal when their values are.** -/
theorem value_injOn_ordered : ∀ {i j : Json}, ordered i → ordered j → i.value = j.value → i = j
  | null, j, _, _, h => by cases j <;> simp_all [value]
  | bool _, j, _, _, h => by cases j <;> simp_all [value]
  | int _, j, _, _, h => by cases j <;> simp_all [value]
  | str _, j, _, _, h => by cases j <;> simp_all [value]
  | arr items, j, hi, hj, h => by
    cases j with
    | arr items' =>
      rw [value, value, Value.arr.injEq] at h
      rw [valueItems_injOn_ordered hi hj h]
    | _ => simp [value] at h
  | obj members, j, hi, hj, h => by
    cases j with
    | obj members' =>
      rw [value, value, Value.obj.injEq] at h
      rw [valueMembers_injOn_ordered hi.2 hj.2 hi.1 hj.1 h]
    | _ => simp [value] at h

theorem valueItems_injOn_ordered : ∀ {is js : List Json}, orderedItems is → orderedItems js →
    valueItems is = valueItems js → is = js
  | [], [], _, _, _ => rfl
  | [], _ :: _, _, _, h => by cases h
  | _ :: _, [], _, _, h => by cases h
  | i :: is, j :: js, hi, hj, h => by
    rw [valueItems, valueItems, List.cons.injEq] at h
    rw [value_injOn_ordered hi.1 hj.1 h.1, valueItems_injOn_ordered hi.2 hj.2 h.2]

theorem valueMembers_injOn_ordered : ∀ {ms ns : List (String × Json)}, orderedMembers ms →
    orderedMembers ns → (ms.map (·.1)).Pairwise (· < ·) → (ns.map (·.1)).Pairwise (· < ·) →
      valueMembers ms = valueMembers ns → ms = ns
  | [], [], _, _, _, _, _ => rfl
  | [], (k, _) :: _, _, _, _, _, h => by
    have := congrFun h k
    rw [valueMembers, valueMembers, if_pos rfl] at this
    cases this
  | (k, _) :: _, [], _, _, _, _, h => by
    have := congrFun h k
    rw [valueMembers, valueMembers, if_pos rfl] at this
    cases this
  | (k, i) :: ms, (k', j) :: ns, hi, hj, hm, hn, h => by
    obtain ⟨hkey, hhead, hrest⟩ := valueMembers_cons hm hn h
    rw [hkey, value_injOn_ordered hi.1 hj.1 hhead,
      valueMembers_injOn_ordered hi.2 hj.2 hm.tail hn.tail hrest]

end

end Json
