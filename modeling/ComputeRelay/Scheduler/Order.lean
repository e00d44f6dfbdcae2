import Mathlib.Data.String.Basic
import Mathlib.Tactic
import ComputeRelay.Lib.KeySort
import ComputeRelay.Lib.RoundRobin
import ComputeRelay.Scheduler.Select

/-!
# The order of starts

What `Select` does with the order of the rows and of the workspaces.

* `scanRows_eq` says when the pass accepts its rows and what it then holds, as folds over the rows.
* `IsHead` is the head of a workspace, the startable row with the lowest sequence number; the pass
  finds it (`heads_iff`).
* `selectRow_perm`: the chosen row and the view are the same for every order of the rows.
* `select_next`: the chosen workspace is the next one after the last one served.
-/

namespace ComputeRelay
namespace Scheduler

open Domain

variable {κ : Type} {now : ℤ}

/-! ### The pass as folds -/

/-- The rows the pass accepts. -/
def Acceptable (rows : List (Candidate κ)) : Prop :=
  (∀ r ∈ rows, r.valid = true) ∧ (rows.map fun r => r.sequence).Nodup

theorem acceptable_perm {rows rows' : List (Candidate κ)} (h : rows'.Perm rows) :
    Acceptable rows' ↔ Acceptable rows := by
  unfold Acceptable
  rw [(h.map _).nodup_iff]
  simp only [h.mem_iff]

/-- The state of the pass after the rows from index `i` on. -/
def Scan.after (now : ℤ) (s : Scan κ) (i : ℕ) (rs : List (Candidate κ)) : Scan κ where
  view := rs.foldl (countRow now) s.view
  heads := (rs.zipIdx i).foldl (fun heads p => noteHead now heads p.1 p.2) s.heads
  seen := (rs.map fun r => r.sequence).reverse ++ s.seen

open Classical in
theorem scanRows_eq (s : Scan κ) (i : ℕ) (rs : List (Candidate κ)) :
    scanRows now s i rs =
      if Acceptable rs ∧ ∀ r ∈ rs, r.sequence ∉ s.seen then .ok (s.after now i rs)
      else .error .invalid := by
  induction rs generalizing s i with
  | nil =>
    rw [if_pos ⟨⟨by simp, by simp⟩, by simp⟩]
    rfl
  | cons r rs ih =>
    rw [scanRows, scanRow]
    by_cases hbad : !r.valid ∨ r.sequence ∈ s.seen
    · rw [if_pos hbad, if_neg]
      · rfl
      · rintro ⟨⟨hvalid, -⟩, hfresh⟩
        have := hvalid r (List.mem_cons_self ..)
        exact hbad.elim (by simp [this]) (hfresh r (List.mem_cons_self ..))
    · rw [if_neg hbad]
      simp only [not_or, Bool.not_eq_true', Bool.not_eq_false] at hbad
      change scanRows now _ (i + 1) rs = _
      rw [ih]
      have hiff : (Acceptable rs ∧ ∀ x ∈ rs, x.sequence ∉ r.sequence :: s.seen) ↔
          (Acceptable (r :: rs) ∧ ∀ x ∈ r :: rs, x.sequence ∉ s.seen) := by
        simp only [Acceptable, List.map_cons, List.nodup_cons, List.mem_map, List.forall_mem_cons,
          not_exists, not_and]
        simp only [List.mem_cons, not_or]
        constructor
        · rintro ⟨⟨hvalid, hnodup⟩, hfresh⟩
          exact ⟨⟨⟨hbad.1, hvalid⟩, fun x hx => (hfresh x hx).1, hnodup⟩, hbad.2,
            fun x hx => (hfresh x hx).2⟩
        · rintro ⟨⟨⟨-, hvalid⟩, hne, hnodup⟩, -, hfresh⟩
          exact ⟨⟨hvalid, hnodup⟩, fun x hx => ⟨hne x hx, hfresh x hx⟩⟩
      rw [if_congr hiff rfl rfl]
      simp [Scan.after, List.zipIdx_cons]

/-! ### The view does not depend on the order -/

theorem lower_apply (limits : String → Option ℤ) (key : String) (limit : ℤ) (a : String) :
    lower limits key limit a =
      if a = key then some ((limits key).elim limit (min limit)) else limits a := by
  unfold lower
  cases hold : limits key with
  | none => by_cases ha : a = key <;> simp [ha]
  | some old =>
    by_cases hlt : limit < old
    · by_cases ha : a = key <;> simp [ha, hlt, min_eq_left hlt.le]
    · by_cases ha : a = key
      · simp [ha, hlt, hold, min_eq_right (not_lt.mp hlt)]
      · simp [ha, hlt]

theorem lower_comm (limits : String → Option ℤ) (k k' : String) (m m' : ℤ) :
    lower (lower limits k m) k' m' = lower (lower limits k' m') k m := by
  funext a
  simp only [lower_apply]
  by_cases hk : k = k'
  · subst hk
    by_cases ha : a = k
    · cases limits k <;> simp [ha, min_comm, min_left_comm]
    · simp [ha]
  · have hk' : ¬k' = k := fun h => hk h.symm
    by_cases ha : a = k
    · subst ha
      simp [hk]
    · by_cases ha' : a = k'
      · subst ha'
        simp [hk']
      · simp [ha, ha']

/-- One more reservation of a key. -/
def bump (key : String) (counts : String → ℕ) : String → ℕ :=
  Function.update counts key (counts key + 1)

theorem bump_comm (counts : String → ℕ) (k k' : String) :
    bump k' (bump k counts) = bump k (bump k' counts) := by
  by_cases hk : k = k'
  · rw [hk]
  · have hk' : ¬k' = k := fun h => hk h.symm
    unfold bump
    rw [Function.update_of_ne hk', Function.update_of_ne hk, Function.update_comm hk]

def mark (key : String) (marks : String → Bool) : String → Bool := Function.update marks key true

theorem mark_comm (marks : String → Bool) (k k' : String) :
    mark k' (mark k marks) = mark k (mark k' marks) := by
  by_cases hk : k = k'
  · rw [hk]
  · exact Function.update_comm hk ..

/-- Two changes that commute still do so where each is made on a condition. -/
theorem optional_comm {σ : Type} {f g : σ → σ} (h : ∀ x, g (f x) = f (g x)) (p q : Prop)
    [Decidable p] [Decidable q] (x : σ) :
    (if q then g (if p then f x else x) else if p then f x else x) =
      if p then f (if q then g x else x) else if q then g x else x := by
  by_cases hp : p <;> by_cases hq : q <;> simp [hp, hq, h]

/-- The row holds capacity of a resource that is known by its scope. -/
def holdsScope (now : ℤ) (r : Candidate κ) : Bool :=
  holdsCapacity r now && decide (r.resourceKind ≠ "") && decide (r.resourceScope ≠ "")

/-- The row holds capacity of a resource whose scope is not known. -/
def lacksScope (now : ℤ) (r : Candidate κ) : Bool :=
  holdsCapacity r now && decide (r.resourceKind ≠ "") && decide (r.resourceScope = "")

theorem countRow_eq (v : View) (r : Candidate κ) :
    countRow now v r = { v with
      liveWorkers := v.liveWorkers + if now < r.leaseUntil then 1 else 0
      accountReservations :=
        if holdsCapacity r now then bump r.accountScope v.accountReservations
        else v.accountReservations
      activeAccountLimits :=
        if holdsCapacity r now then lower v.activeAccountLimits r.accountScope r.policy.maxActive
        else v.activeAccountLimits
      resourceReservations :=
        if holdsScope now r then bump r.resourceScope v.resourceReservations
        else v.resourceReservations
      activeResourceLimits :=
        if holdsScope now r then lower v.activeResourceLimits r.resourceScope r.resourceMaxActive
        else v.activeResourceLimits
      unresolvedResources :=
        if lacksScope now r then mark r.resourceKind v.unresolvedResources
        else v.unresolvedResources } := by
  unfold countRow reserve holdsScope lacksScope
  by_cases hlive : now < r.leaseUntil <;> by_cases hh : holdsCapacity r now = true <;>
    by_cases hk : r.resourceKind = "" <;> by_cases hs : r.resourceScope = "" <;>
    simp [hlive, hh, hk, hs, bump, mark]

theorem countRow_comm (v : View) (r r' : Candidate κ) :
    countRow now (countRow now v r) r' = countRow now (countRow now v r') r := by
  simp only [countRow_eq]
  congr 1
  · exact add_right_comm ..
  · exact optional_comm (fun x => bump_comm x _ _) _ _ _
  · exact optional_comm (fun x => bump_comm x _ _) _ _ _
  · exact optional_comm (f := fun x => lower x _ _) (g := fun x => lower x _ _)
      (fun x => lower_comm x _ _ _ _) _ _ _
  · exact optional_comm (f := fun x => lower x _ _) (g := fun x => lower x _ _)
      (fun x => lower_comm x _ _ _ _) _ _ _
  · exact optional_comm (fun x => mark_comm x _ _) _ _ _

theorem view_perm {rows rows' : List (Candidate κ)} (h : rows'.Perm rows) (v : View) :
    rows'.foldl (countRow now) v = rows.foldl (countRow now) v :=
  h.foldl_eq' (fun r _ r' _ v => countRow_comm v r r') v

/-! ### The head of a workspace -/

/-- The startable row of a workspace with the lowest sequence number. -/
structure IsHead (now : ℤ) (rows : List (Candidate κ)) (w : String) (r : Candidate κ) : Prop where
  mem : r ∈ rows
  startable : r.startable now = true
  workspace : r.workspaceID = w
  first : ∀ x ∈ rows, x.startable now = true → x.workspaceID = w → r.sequence ≤ x.sequence

theorem isHead_perm {rows rows' : List (Candidate κ)} (h : rows'.Perm rows) {w : String}
    {r : Candidate κ} : IsHead now rows' w r ↔ IsHead now rows w r := by
  constructor
  · rintro ⟨hmem, hstart, hw, hfirst⟩
    exact ⟨h.mem_iff.mp hmem, hstart, hw, fun x hx => hfirst x (h.mem_iff.mpr hx)⟩
  · rintro ⟨hmem, hstart, hw, hfirst⟩
    exact ⟨h.mem_iff.mpr hmem, hstart, hw, fun x hx => hfirst x (h.mem_iff.mp hx)⟩

/-- No row read so far comes before the head of the workspace; without a head there is none. -/
def Leads (now : ℤ) (done : List (Candidate κ)) (w : String) : Option (Candidate κ × ℕ) → Prop
  | none => ∀ x ∈ done, x.startable now = true → x.workspaceID ≠ w
  | some p => ∀ x ∈ done, x.startable now = true → x.workspaceID = w → p.1.sequence ≤ x.sequence

theorem Leads.skip {done : List (Candidate κ)} {w : String} {o : Option (Candidate κ × ℕ)}
    {r : Candidate κ} (h : Leads now done w o)
    (hr : r.startable now = true → r.workspaceID = w → ∃ p ∈ o, p.1.sequence ≤ r.sequence) :
    Leads now (done ++ [r]) w o := by
  cases o with
  | none =>
    intro x hx hstart hw
    rcases List.mem_append.mp hx with hx | hx
    · exact h x hx hstart hw
    · obtain rfl := List.mem_singleton.mp hx
      obtain ⟨p, hp, -⟩ := hr hstart hw
      cases hp
  | some q =>
    intro x hx hstart hw
    rcases List.mem_append.mp hx with hx | hx
    · exact h x hx hstart hw
    · obtain rfl := List.mem_singleton.mp hx
      obtain ⟨p, hp, hle⟩ := hr hstart hw
      cases hp
      exact hle

theorem Leads.noteHead {done : List (Candidate κ)} {heads : String → Option (Candidate κ × ℕ)}
    (h : ∀ w, Leads now done w (heads w)) (r : Candidate κ) (i : ℕ) (w : String) :
    Leads now (done ++ [r]) w (noteHead now heads r i w) := by
  unfold Scheduler.noteHead
  split_ifs with hnew
  · simp only [Bool.and_eq_true] at hnew
    by_cases hw : w = r.workspaceID
    · -- the row becomes the head, and the old head was behind it
      subst hw
      rw [Function.update_self]
      intro x hx hstart hxw
      rcases List.mem_append.mp hx with hx | hx
      · have hold := h r.workspaceID
        cases hp : heads r.workspaceID with
        | none =>
          rw [hp] at hold
          exact absurd hxw (hold x hx hstart)
        | some p =>
          rw [hp] at hold hnew
          have hlt : r.sequence < p.1.sequence := by simpa using hnew.2
          exact hlt.le.trans (hold x hx hstart hxw)
      · rw [List.mem_singleton.mp hx]
    · rw [Function.update_of_ne hw]
      exact (h w).skip fun _ hrw => absurd hrw.symm hw
  · refine (h w).skip fun hstart hrw => ?_
    subst hrw
    cases hp : heads r.workspaceID with
    | none => simp [hstart, hp] at hnew
    | some p => exact ⟨p, rfl, by simpa [hstart, hp] using hnew⟩

theorem leads_fold (rs : List (Candidate κ)) :
    ∀ (done : List (Candidate κ)) (i : ℕ) (heads : String → Option (Candidate κ × ℕ)),
      (∀ w, Leads now done w (heads w)) → ∀ w, Leads now (done ++ rs) w
        ((rs.zipIdx i).foldl (fun heads p => noteHead now heads p.1 p.2) heads w) := by
  induction rs with
  | nil => simp
  | cons r rs ih =>
    intro done i heads h w
    rw [List.zipIdx_cons, List.foldl_cons, List.append_cons]
    exact ih _ _ _ (Leads.noteHead h r i) w

section Heads

variable {settings : Settings} {rows rows' : List (Candidate κ)} {s s' : Scan κ}

theorem scanRows_of_acceptable (now : ℤ) (settings : Settings) (h : Acceptable rows) :
    scanRows now { view := { maxWorkers := settings.maxWorkers } } 0 rows =
      .ok (Scan.after now { view := { maxWorkers := settings.maxWorkers } } 0 rows) := by
  rw [scanRows_eq, if_pos ⟨h, by simp⟩]

theorem scanRows_of_not_acceptable (now : ℤ) (settings : Settings) (h : ¬Acceptable rows) :
    scanRows now { view := { maxWorkers := settings.maxWorkers } } 0 rows = .error .invalid := by
  rw [scanRows_eq, if_neg fun hok => h hok.1]

theorem scanRows_ok
    (h : scanRows now { view := { maxWorkers := settings.maxWorkers } } 0 rows = .ok s) :
    Acceptable rows ∧
      s = Scan.after now { view := { maxWorkers := settings.maxWorkers } } 0 rows := by
  rw [scanRows_eq] at h
  split_ifs at h with hok
  cases h
  exact ⟨hok.1, rfl⟩

theorem heads_iff
    (h : scanRows now { view := { maxWorkers := settings.maxWorkers } } 0 rows = .ok s)
    {w : String} {r : Candidate κ} : (∃ i, s.heads w = some (r, i)) ↔ IsHead now rows w r := by
  obtain ⟨⟨-, hnodup⟩, hs⟩ := scanRows_ok h
  have hreads := scan_reads h
  have hleads : Leads now rows w (s.heads w) := by
    rw [hs]
    exact leads_fold rows [] 0 _ (fun w => by simp [Leads]) w
  have hhead : ∀ x i, s.heads w = some (x, i) → IsHead now rows w x := by
    intro x i hx
    obtain ⟨hi, hstart, hw⟩ := hreads.heads w x i hx
    rw [hx] at hleads
    exact ⟨List.mem_of_getElem? hi, hstart, hw, hleads⟩
  constructor
  · rintro ⟨i, hi⟩
    exact hhead r i hi
  · intro hr
    cases hp : s.heads w with
    | none =>
      rw [hp] at hleads
      exact absurd hr.workspace (hleads r hr.mem hr.startable)
    | some p =>
      have hx := hhead p.1 p.2 hp
      have heq : p.1 = r := List.inj_on_of_nodup_map hnodup hx.mem hr.mem
        (le_antisymm (hx.first r hr.mem hr.startable hr.workspace)
          (hr.first p.1 hx.mem hx.startable hx.workspace))
      exact ⟨p.2, by rw [← heq]⟩

/-- The heads in the order of their workspaces, as rows. -/
def headRows (rows : List (Candidate κ)) (s : Scan κ) : List (Candidate κ) :=
  (orderedHeads rows s).map Prod.fst

theorem headRows_eq (rows : List (Candidate κ)) (s : Scan κ) :
    headRows rows s = (spaces rows s).filterMap fun w => (s.heads w).map Prod.fst :=
  List.map_filterMap

theorem nodup_spaces (rows : List (Candidate κ)) (s : Scan κ) :
    ((rows.map fun r => r.workspaceID).dedup.filter fun w => (s.heads w).isSome).Nodup :=
  (List.nodup_dedup _).filter _

theorem increasing_spaces (rows : List (Candidate κ)) (s : Scan κ) :
    (spaces rows s).Pairwise fun a b => a < b :=
  KeySort.increasing_sortBy id (by rw [List.map_id]; exact nodup_spaces rows s)

theorem increasing_orderedHeads (h : s.Reads now rows) :
    (orderedHeads rows s).Pairwise fun x y => x.1.workspaceID < y.1.workspaceID := by
  refine (increasing_spaces rows s).filterMap s.heads fun w w' hlt x hx x' hx' => ?_
  rw [(h.heads w x.1 x.2 hx).2.2, (h.heads w' x'.1 x'.2 hx').2.2]
  exact hlt

theorem headRows_perm (hp : rows'.Perm rows)
    (h : scanRows now { view := { maxWorkers := settings.maxWorkers } } 0 rows = .ok s)
    (h' : scanRows now { view := { maxWorkers := settings.maxWorkers } } 0 rows' = .ok s') :
    headRows rows' s' = headRows rows s := by
  have hheads : ∀ w, (s'.heads w).map Prod.fst = (s.heads w).map Prod.fst := by
    intro w
    refine Option.ext fun r => ?_
    have := (heads_iff h').trans ((isHead_perm hp).trans (heads_iff h (w := w) (r := r)).symm)
    simpa [Option.map_eq_some_iff] using this
  have hsome : ∀ w, (s'.heads w).isSome = (s.heads w).isSome := by
    intro w
    rw [← Option.isSome_map (f := Prod.fst), hheads, Option.isSome_map]
  have hspaces : spaces rows' s' = spaces rows s := by
    refine KeySort.sortBy_congr id (by rw [List.map_id]; exact nodup_spaces rows s) ?_
    simp only [hsome]
    exact ((hp.map _).dedup).filter _
  rw [headRows_eq, headRows_eq, hspaces]
  exact List.filterMap_congr fun w _ => hheads w

end Heads

/-! ### The choice -/

section Choice

variable (decideQuota : DecideQuota κ) (settings : Settings) (now : ℤ)

/-- `Select` with the chosen row in place of its index. -/
def selectRow (rows : List (Candidate κ)) (last : String) :
    Except SelectErr (Option (Candidate κ) × View) :=
  (select decideQuota settings now rows last).map fun p => (p.1.bind fun i => rows[i]?, p.2)

def eligible (v : View) (r : Candidate κ) : Bool :=
  decide ((judge decideQuota settings now v r).1 = .eligible)

/-- The first eligible head behind the workspace served last, or the first one of all. -/
def turn (v : View) (last : String) (heads : List (Candidate κ)) : Option (Candidate κ) :=
  (heads.find? fun r => decide (last < r.workspaceID) && eligible decideQuota settings now v r).or
    (heads.find? (eligible decideQuota settings now v))

variable {decideQuota settings now} {rows rows' : List (Candidate κ)} {last : String}

/-- The choice among the heads with their indices is the choice among the heads. -/
theorem bind_chosen {s : Scan κ} (hs : s.Reads now rows) (p q : Candidate κ → Bool) :
    ((((orderedHeads rows s).find? fun h => p h.1).or
      ((orderedHeads rows s).find? fun h => q h.1)).map
      Prod.snd).bind (fun i => rows[i]?) = ((headRows rows s).find? p).or
        ((headRows rows s).find? q) := by
  have hfind : ∀ p : Candidate κ → Bool, (headRows rows s).find? p =
      ((orderedHeads rows s).find? fun h => p h.1).map Prod.fst := by
    intro p
    rw [headRows, List.find?_map]
    rfl
  rw [hfind p, hfind q]
  have hindex : ∀ p : Candidate κ →
      Bool, ∀ h, ((orderedHeads rows s).find? fun h => p h.1) = some h →
      rows[h.2]? = some h.1 := by
    intro p h hfound
    obtain ⟨w, -, hw⟩ := List.mem_filterMap.mp (List.mem_of_find?_eq_some hfound)
    exact (hs.heads w h.1 h.2 hw).1
  cases hp : (orderedHeads rows s).find? fun h => p h.1 with
  | some h => simp [hindex p h hp]
  | none =>
    cases hq : (orderedHeads rows s).find? fun h => q h.1 with
    | some h => simp [hindex q h hq]
    | none => rfl

theorem selectRow_eq : selectRow decideQuota settings now rows last =
    if !settings.valid ∨ !validTime now ∨ (last ≠ "" ∧ !validOpaqueID last) then .error .invalid
    else if scanLimit < rows.length then .error .scanLimit
    else match scanRows now { view := { maxWorkers := settings.maxWorkers } } 0 rows with
      | .error e => .error e
      | .ok s => .ok (turn decideQuota settings now s.view last (headRows rows s),
          { s.view with
            heads := (headRows rows s).map fun r =>
              status decideQuota settings now s.view r }) := by
  unfold selectRow select
  split_ifs
  · rfl
  · rfl
  · cases hs : scanRows now { view := { maxWorkers := settings.maxWorkers } } 0 rows with
    | error e => rfl
    | ok s =>
      simp only [Except.map, Except.ok.injEq, Prod.mk.injEq]
      refine ⟨bind_chosen (scan_reads hs)
        (fun r => decide (last < r.workspaceID) && eligible decideQuota settings now s.view r)
        (eligible decideQuota settings now s.view), ?_⟩
      rw [headRows, List.map_map]
      rfl

/-- The chosen row and the view are the same for every order of the rows. -/
theorem selectRow_perm (h : rows'.Perm rows) :
    selectRow decideQuota settings now rows' last =
      selectRow decideQuota settings now rows last := by
  rw [selectRow_eq, selectRow_eq, h.length_eq]
  by_cases hok : Acceptable rows
  · have hs := scanRows_of_acceptable now settings hok
    have hs' := scanRows_of_acceptable now settings ((acceptable_perm h).mpr hok)
    have hview : (Scan.after now { view := { maxWorkers := settings.maxWorkers } } 0 rows').view =
        (Scan.after now { view := { maxWorkers := settings.maxWorkers } } 0 rows).view :=
      view_perm h _
    rw [hs, hs']
    simp only [headRows_perm h hs hs', hview]
  · have hs := scanRows_of_not_acceptable now settings hok
    have hs' := scanRows_of_not_acceptable now settings (mt (acceptable_perm h).mp hok)
    rw [hs, hs']

/-- A choice of an index is the choice of the row there. -/
theorem selectRow_of_select {i : ℕ} {view : View}
    (h : select decideQuota settings now rows last = .ok (some i, view)) :
    ∃ r, rows[i]? = some r ∧ selectRow decideQuota settings now rows last = .ok (some r, view) := by
  obtain ⟨r, hr, -⟩ := select_room h
  exact ⟨r, hr, by simp [selectRow, h, Except.map, hr]⟩

theorem selectRow_ok {o : Option (Candidate κ)} {view : View}
    (h : selectRow decideQuota settings now rows last = .ok (o, view)) :
    ∃ s, scanRows now { view := { maxWorkers := settings.maxWorkers } } 0 rows = .ok s ∧
      turn decideQuota settings now s.view last (headRows rows s) = o ∧
      view.heads = (headRows rows s).map (status decideQuota settings now s.view) := by
  rw [selectRow_eq] at h
  split_ifs at h
  cases hs : scanRows now { view := { maxWorkers := settings.maxWorkers } } 0 rows with
  | error e =>
    rw [hs] at h
    cases h
  | ok s =>
    rw [hs] at h
    cases h
    exact ⟨s, rfl, rfl, rfl⟩

/-- **First in, first out**: the chosen row is the head of its workspace. -/
theorem selectRow_isHead {r : Candidate κ} {view : View}
    (h : selectRow decideQuota settings now rows last = .ok (some r, view)) :
    IsHead now rows r.workspaceID r := by
  obtain ⟨s, hs, hturn, -⟩ := selectRow_ok h
  have hmem : r ∈ headRows rows s := by
    rcases Option.or_eq_some_iff.mp hturn with hr | ⟨-, hr⟩ <;> exact List.mem_of_find?_eq_some hr
  obtain ⟨⟨x, i⟩, hx, rfl⟩ := List.mem_map.mp hmem
  obtain ⟨w, -, hw⟩ := List.mem_filterMap.mp hx
  have hhead := (heads_iff hs).mp ⟨i, hw⟩
  rw [← hhead.workspace] at hhead
  exact hhead

/-- The workspace has an eligible head. -/
def View.Ready (v : View) (w : String) : Prop :=
  ∃ h ∈ v.heads, h.workspaceID = w ∧ h.reason = .eligible

/-- **Round robin**: the chosen workspace is the next one with an eligible head. -/
theorem selectRow_next {r : Candidate κ} {view : View}
    (h : selectRow decideQuota settings now rows last = .ok (some r, view)) :
    RoundRobin.Next view.Ready last r.workspaceID := by
  obtain ⟨s, hs, hturn, hview⟩ := selectRow_ok h
  have hincreasing : (headRows rows s).Pairwise fun x y => x.workspaceID < y.workspaceID :=
    List.pairwise_map.mpr (increasing_orderedHeads (scan_reads hs))
  have hready : view.Ready = fun w => ∃ x ∈ headRows rows s,
      eligible decideQuota settings now s.view x = true ∧ x.workspaceID = w := by
    funext w
    simp only [View.Ready, hview, List.mem_map, eligible, decide_eq_true_eq, eq_iff_iff]
    constructor
    · rintro ⟨_, ⟨x, hx, rfl⟩, hw, hreason⟩
      exact ⟨x, hx, hreason, hw⟩
    · rintro ⟨x, hx, hreason, hw⟩
      exact ⟨_, ⟨x, hx, rfl⟩, hw, hreason⟩
  rw [hready]
  exact RoundRobin.search_next hincreasing
    (fun y => by rw [Bool.and_eq_true, decide_eq_true_eq]) hturn

end Choice

end Scheduler
end ComputeRelay
