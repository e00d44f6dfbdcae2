import Mathlib.Tactic
import ComputeRelay.Lib.Reservation
import ComputeRelay.Scheduler.Capacity

/-!
# Selection of the next attempt

`Select` of `internal/scheduler/select.go` with the records of `internal/scheduler/model.go`: one
pass over the rows of the queue counts the reservations and finds the head of every workspace, then
the heads are judged in the order of their workspaces, and one eligible head is chosen, round robin
after the workspace served last.

The quota record of a row and the verdict of `Quota.Decide` on it are parameters.

* `scanRows` is the first pass; `View.Counts` and `Scan.Reads` say what it leaves in its maps, and
  `scan_reads` proves it.
* `select_room` is the main result: a chosen row was startable, and its account and its resource
  have room for one more holder under every limit in force.
-/

namespace ComputeRelay
namespace Scheduler

open Domain

/-! ### Records -/

def scanLimit : ℕ := 100000

structure Settings where
  paused : Bool
  maxWorkers : ℤ
  maxActivePerAccount : ℤ
  leaseDuration : ℤ
  quotaFreshFor : ℤ
  blockedRecheck : ℤ
  deriving DecidableEq

/-- A whole number of milliseconds between one second and `most`. -/
def validPeriod (t most : ℤ) : Bool :=
  Rfc3339.second ≤ t && t ≤ most && t % 1000000 = 0

def Settings.valid (s : Settings) : Bool :=
  0 < s.maxWorkers && s.maxWorkers ≤ 64 && 0 < s.maxActivePerAccount &&
  s.maxActivePerAccount ≤ 64 && validPeriod s.leaseDuration (300 * Rfc3339.second) &&
  validPeriod s.quotaFreshFor (3600 * Rfc3339.second) &&
  validPeriod s.blockedRecheck (3600 * Rfc3339.second)

structure AccountPolicy where
  disabled : Bool
  maxActive : ℤ
  strictQuota : Bool
  deriving DecidableEq

def AccountPolicy.valid (p : AccountPolicy) : Bool := 0 < p.maxActive && p.maxActive ≤ 64

structure Identity where
  workspaceID : String
  jobID : String
  attemptID : String
  deriving DecidableEq

def Identity.valid (i : Identity) : Bool :=
  validOpaqueID i.workspaceID && validOpaqueID i.jobID && validOpaqueID i.attemptID

inductive Reason
  | eligible | authorizationRequired | paused | workerLimit | accountLimit | resourceLimit
  | resourceUnverified | resourceUnresolved | accountDisabled | workspaceDisabled | deferred
  | quotaUnknown | quotaStale | quotaUnavailable | quotaExhausted | quotaInsufficient
  | quotaUncertain
  deriving DecidableEq

/-- A row of the queue as the transaction sees it. -/
structure Candidate (κ : Type) extends Identity where
  sequence : ℤ
  state : AttemptState
  activeAttempt : Bool
  workspaceEnabled : Bool
  accountScope : String
  providerInstanceID : String
  policy : AccountPolicy
  resource : String
  wallSeconds : ℤ
  dispatchBarrier : Bool
  leaseUntil : ℤ
  notBefore : ℤ
  quota : κ
  resourceKind : String
  resourceScope : String
  resourceMaxActive : ℤ
  authorizationGranted : Bool

structure QueueStatus extends Identity where
  sequence : ℤ
  accountScope : String
  resourceScope : String
  reason : Reason
  warning : Option Reason
  notBefore : ℤ
  deriving DecidableEq

/-- The maps of the Go record are functions, zero or absent where nothing was written. -/
structure View where
  maxWorkers : ℤ
  liveWorkers : ℕ := 0
  accountReservations : String → ℕ := fun _ => 0
  resourceReservations : String → ℕ := fun _ => 0
  activeAccountLimits : String → Option ℤ := fun _ => none
  activeResourceLimits : String → Option ℤ := fun _ => none
  unresolvedResources : String → Bool := fun _ => false
  heads : List QueueStatus := []

inductive SelectErr
  | invalid | scanLimit
  deriving DecidableEq

variable {κ : Type}

/-- `HoldsCapacity`: claimed preparation, and possibly active or held remote work. -/
def holdsCapacity (c : Candidate κ) (now : ℤ) : Bool :=
  (now < c.leaseUntil && localOnly c.state) || holdsAccount c.state c.dispatchBarrier

/-- The checks `Select` makes of each row, besides the uniqueness of its sequence number. -/
def Candidate.valid (r : Candidate κ) : Bool :=
  r.toIdentity.valid && 0 < r.sequence && r.state.validate && validOpaqueID r.accountScope &&
  validOpaqueID r.providerInstanceID && r.policy.valid &&
    (r.resource = "cpu" || r.resource = "gpu") &&
  1 ≤ r.wallSeconds && r.wallSeconds ≤ Provider.maxRemoteWallSeconds &&
  (r.leaseUntil = Provider.zeroTime || validTime r.leaseUntil) &&
  (r.notBefore = Provider.zeroTime || validTime r.notBefore) &&
  if r.resourceKind ≠ "" then
    validOpaqueID r.resourceKind && 1 ≤ r.resourceMaxActive && r.resourceMaxActive ≤ 64 &&
    (r.resourceScope = "" || validOpaqueID r.resourceScope)
  else r.resourceScope = "" && r.resourceMaxActive = 0

/-! ### The pass over the rows -/

/-- The working data of the pass: the view, the head of each workspace with its index, and the
sequence numbers seen. -/
structure Scan (κ : Type) where
  view : View
  heads : String → Option (Candidate κ × ℕ) := fun _ => none
  seen : List ℤ := []

/-- `limit, ok := limits[key]; !ok || limit' < limit` -/
def lower (limits : String → Option ℤ) (key : String) (limit : ℤ) : String → Option ℤ :=
  match limits key with
  | none => Function.update limits key (some limit)
  | some old => if limit < old then Function.update limits key (some limit) else limits

/-- The reservations of one holder. -/
def reserve (v : View) (r : Candidate κ) : View :=
  let v := { v with
    accountReservations := Function.update v.accountReservations r.accountScope
      (v.accountReservations r.accountScope + 1)
    activeAccountLimits := lower v.activeAccountLimits r.accountScope r.policy.maxActive }
  if r.resourceKind = "" then v
  else if r.resourceScope = "" then
    { v with unresolvedResources := Function.update v.unresolvedResources r.resourceKind true }
  else { v with
    resourceReservations := Function.update v.resourceReservations r.resourceScope
      (v.resourceReservations r.resourceScope + 1)
    activeResourceLimits := lower v.activeResourceLimits r.resourceScope r.resourceMaxActive }

/-- A row that may be started: the active attempt, idle, behind no barrier and local. -/
def Candidate.startable (r : Candidate κ) (now : ℤ) : Bool :=
  r.activeAttempt && !decide (now < r.leaseUntil) && !r.dispatchBarrier && localOnly r.state

/-- The reservations and the live worker of one row. -/
def countRow (now : ℤ) (v : View) (r : Candidate κ) : View :=
  let v := if now < r.leaseUntil then { v with liveWorkers := v.liveWorkers + 1 } else v
  if holdsCapacity r now then reserve v r else v

/-- A startable row becomes the head of its workspace if no earlier one is. -/
def noteHead (now : ℤ) (heads : String → Option (Candidate κ × ℕ)) (r : Candidate κ) (i : ℕ) :
    String → Option (Candidate κ × ℕ) :=
  let earlier := (heads r.workspaceID).all fun prior => decide (r.sequence < prior.1.sequence)
  if r.startable now && earlier then Function.update heads r.workspaceID (some (r, i)) else heads

/-- One row of the pass. -/
def scanRow (now : ℤ) (s : Scan κ) (r : Candidate κ) (i : ℕ) : Except SelectErr (Scan κ) :=
  if !r.valid ∨ r.sequence ∈ s.seen then .error .invalid
  else .ok {
    view := countRow now s.view r
    heads := noteHead now s.heads r i
    seen := r.sequence :: s.seen }

def scanRows (now : ℤ) : Scan κ → ℕ → List (Candidate κ) → Except SelectErr (Scan κ)
  | s, _, [] => .ok s
  | s, i, r :: rs => (scanRow now s r i).bind fun s' => scanRows now s' (i + 1) rs

/-! ### The judgement of the heads -/

/-- `EffectiveLimits`: the limits of the row and of the settings, and those of the holders. -/
def effectiveLimits (c : Candidate κ) (settings : Settings) (v : View) : ℤ × ℤ :=
  let account := min settings.maxActivePerAccount c.policy.maxActive
  let resource := min settings.maxActivePerAccount c.resourceMaxActive
  (match v.activeAccountLimits c.accountScope with
    | some active => min account active
    | none => account,
   match v.activeResourceLimits c.resourceScope with
    | some active => min resource active
    | none => resource)

/-- The verdict of `Quota.Decide` and its warning, from the quota of the row, the resource, the
seconds of wall time, strictness, the freshness and the time. -/
abbrev DecideQuota (κ : Type) := κ → String → ℤ → Bool → ℤ → ℤ → Reason × Option Reason

section Judge

variable (decideQuota : DecideQuota κ) (settings : Settings) (now : ℤ)

/-- The reason a head waits, or that it is eligible. -/
def judge (v : View) (r : Candidate κ) : Reason × Option Reason :=
  let (limit, resourceLimit) := effectiveLimits r settings v
  if !r.authorizationGranted then (.authorizationRequired, none)
  else if settings.paused then (.paused, none)
  else if !r.workspaceEnabled then (.workspaceDisabled, none)
  else if r.policy.disabled then (.accountDisabled, none)
  else if now < r.notBefore then (.deferred, none)
  else if r.resourceKind ≠ "" ∧ r.resourceScope = "" then (.resourceUnverified, none)
  else if r.resourceKind ≠ "" ∧ v.unresolvedResources r.resourceKind then
    (.resourceUnresolved, none)
  else if settings.maxWorkers ≤ v.liveWorkers then (.workerLimit, none)
  else if limit ≤ v.accountReservations r.accountScope then (.accountLimit, none)
  else if r.resourceScope ≠ "" ∧ resourceLimit ≤ v.resourceReservations r.resourceScope then
    (.resourceLimit, none)
  else decideQuota r.quota r.resource r.wallSeconds r.policy.strictQuota settings.quotaFreshFor now

def status (v : View) (r : Candidate κ) : QueueStatus where
  toIdentity := r.toIdentity
  sequence := r.sequence
  accountScope := r.accountScope
  resourceScope := r.resourceScope
  reason := (judge decideQuota settings now v r).1
  warning := (judge decideQuota settings now v r).2
  notBefore := r.notBefore

/-- The workspaces with a head, in order. -/
def spaces (rows : List (Candidate κ)) (s : Scan κ) : List String :=
  ((rows.map fun r => r.workspaceID).dedup.filter fun w => (s.heads w).isSome).mergeSort
    fun a b => decide (a ≤ b)

/-- The heads in the order of their workspaces. -/
def orderedHeads (rows : List (Candidate κ)) (s : Scan κ) : List (Candidate κ × ℕ) :=
  (spaces rows s).filterMap s.heads

/-- `Select`: the index of the chosen row, if any, and the view. -/
def select (rows : List (Candidate κ)) (last : String) : Except SelectErr (Option ℕ × View) :=
  if !settings.valid ∨ !validTime now ∨ (last ≠ "" ∧ !validOpaqueID last) then .error .invalid
  else if scanLimit < rows.length then .error .scanLimit
  else match scanRows now { view := { maxWorkers := settings.maxWorkers } } 0 rows with
    | .error e => .error e
    | .ok s =>
      let heads := orderedHeads rows s
      let eligible := fun (h : Candidate κ × ℕ) =>
        decide ((judge decideQuota settings now s.view h.1).1 = .eligible)
      let view := { s.view with
        heads := heads.map fun h => status decideQuota settings now s.view h.1 }
      let chosen := (heads.find? fun h => decide (last < h.1.workspaceID) && eligible h).or
        (heads.find? eligible)
      .ok (chosen.map Prod.snd, view)

end Judge

/-! ### What the pass leaves in its maps -/

/-- The row holds capacity of the account. -/
def onAccount (now : ℤ) (a : String) (r : Candidate κ) : Bool :=
  holdsCapacity r now && decide (r.accountScope = a)

/-- The row holds capacity of the resource. -/
def onResource (now : ℤ) (scope : String) (r : Candidate κ) : Bool :=
  holdsCapacity r now && decide (r.resourceScope = scope)

theorem lower_self (limits : String → Option ℤ) (key : String) (limit : ℤ) :
    ∃ m, lower limits key limit key = some m ∧ m ≤ limit := by
  cases hold : limits key with
  | none => exact ⟨limit, by simp [lower, hold], le_rfl⟩
  | some old =>
    by_cases hlt : limit < old
    · exact ⟨limit, by simp [lower, hold, hlt], le_rfl⟩
    · exact ⟨old, by simp [lower, hold, hlt], not_lt.mp hlt⟩

theorem lower_of_some {limits : String → Option ℤ} (key : String) (limit : ℤ) {a : String} {m : ℤ}
    (h : limits a = some m) : ∃ m', lower limits key limit a = some m' ∧ m' ≤ m := by
  by_cases ha : a = key
  · subst ha
    by_cases hlt : limit < m
    · exact ⟨limit, by simp [lower, h, hlt], hlt.le⟩
    · exact ⟨m, by simp [lower, h, hlt], le_rfl⟩
  · refine ⟨m, ?_, le_rfl⟩
    cases hold : limits key with
    | none => simp [lower, hold, ha, h]
    | some old =>
      simp only [lower, hold]
      split_ifs
      · simp [ha, h]
      · exact h

/-- What a view knows of the rows read so far. -/
structure View.Counts (now : ℤ) (done : List (Candidate κ)) (v : View) : Prop where
  account : ∀ a, v.accountReservations a = done.countP (onAccount now a)
  accountLimit : ∀ r ∈ done, holdsCapacity r now = true →
    ∃ m, v.activeAccountLimits r.accountScope = some m ∧ m ≤ r.policy.maxActive
  resource : ∀ scope ≠ "", v.resourceReservations scope = done.countP (onResource now scope)
  resourceLimit : ∀ r ∈ done, holdsCapacity r now = true → r.resourceScope ≠ "" →
    ∃ m, v.activeResourceLimits r.resourceScope = some m ∧ m ≤ r.resourceMaxActive

section Reserve

variable {now : ℤ} {done : List (Candidate κ)} {v : View} {r : Candidate κ}

theorem View.Counts.skip (h : v.Counts now done) (hr : holdsCapacity r now = false) :
    v.Counts now (done ++ [r]) where
  account a := by simp [h.account a, onAccount, hr]
  accountLimit x hx hh := by
    rcases List.mem_append.mp hx with hx | hx
    · exact h.accountLimit x hx hh
    · obtain rfl : x = r := by simpa using hx
      rw [hr] at hh
      cases hh
  resource scope hs := by simp [h.resource scope hs, onResource, hr]
  resourceLimit x hx hh := by
    rcases List.mem_append.mp hx with hx | hx
    · exact h.resourceLimit x hx hh
    · obtain rfl : x = r := by simpa using hx
      rw [hr] at hh
      cases hh

theorem reserve_accountReservations : (reserve v r).accountReservations =
    Function.update v.accountReservations r.accountScope
      (v.accountReservations r.accountScope + 1) := by
  unfold reserve
  dsimp only
  split_ifs <;> rfl

theorem reserve_activeAccountLimits : (reserve v r).activeAccountLimits =
    lower v.activeAccountLimits r.accountScope r.policy.maxActive := by
  unfold reserve
  dsimp only
  split_ifs <;> rfl

theorem reserve_of_unscoped (hs : r.resourceScope = "") :
    (reserve v r).resourceReservations = v.resourceReservations ∧
      (reserve v r).activeResourceLimits = v.activeResourceLimits := by
  unfold reserve
  dsimp only
  split_ifs <;> exact ⟨rfl, rfl⟩

theorem reserve_of_scoped (hk : r.resourceKind ≠ "") (hs : r.resourceScope ≠ "") :
    (reserve v r).resourceReservations = Function.update v.resourceReservations r.resourceScope
        (v.resourceReservations r.resourceScope + 1) ∧
      (reserve v r).activeResourceLimits =
        lower v.activeResourceLimits r.resourceScope r.resourceMaxActive := by
  unfold reserve
  dsimp only
  rw [if_neg hk, if_neg hs]
  exact ⟨rfl, rfl⟩

/-- Counting one more row under its key. -/
theorem update_count {counts : String → ℕ} (key : Candidate κ → String)
    (hr : holdsCapacity r now = true) {a : String}
    (h : counts a = done.countP fun x => holdsCapacity x now && decide (key x = a)) :
    Function.update counts (key r) (counts (key r) + 1) a =
      (done ++ [r]).countP fun x => holdsCapacity x now && decide (key x = a) := by
  by_cases ha : a = key r
  · subst ha
    simp [h, List.countP_append, hr]
  · have hne : ¬key r = a := fun h => ha h.symm
    simp [Function.update_of_ne ha, h, List.countP_append, hne]

/-- Lowering the limit of one key keeps a bound for every row, and has one for the new row. -/
theorem lower_bound {limits : String → Option ℤ} (key : Candidate κ → String)
    (lim : Candidate κ → ℤ) {x : Candidate κ} (hx : x ∈ done ++ [r])
    (h : x ∈ done → ∃ m, limits (key x) = some m ∧ m ≤ lim x) :
    ∃ m, lower limits (key r) (lim r) (key x) = some m ∧ m ≤ lim x := by
  rcases List.mem_append.mp hx with hx | hx
  · obtain ⟨m, hm, hle⟩ := h hx
    obtain ⟨m', hm', hle'⟩ := lower_of_some (key r) (lim r) hm
    exact ⟨m', hm', hle'.trans hle⟩
  · obtain rfl : x = r := by simpa using hx
    exact lower_self ..

theorem View.Counts.reserve (h : v.Counts now done) (hr : holdsCapacity r now = true)
    (hkind : r.resourceKind = "" → r.resourceScope = "") :
    (reserve v r).Counts now (done ++ [r]) where
  account a := by
    rw [reserve_accountReservations]
    exact update_count (fun x => x.accountScope) hr (h.account a)
  accountLimit x hx hh := by
    rw [reserve_activeAccountLimits]
    exact lower_bound (fun x => x.accountScope) (fun x => x.policy.maxActive) hx
      fun hd => h.accountLimit x hd hh
  resource scope hs := by
    by_cases hscope : r.resourceScope = ""
    · rw [(reserve_of_unscoped hscope).1, h.resource scope hs, List.countP_append]
      simp [onResource, hscope, hs.symm]
    · rw [(reserve_of_scoped (mt hkind hscope) hscope).1]
      exact update_count (fun x => x.resourceScope) hr (h.resource scope hs)
  resourceLimit x hx hh hs := by
    by_cases hscope : r.resourceScope = ""
    · rw [(reserve_of_unscoped hscope).2]
      rcases List.mem_append.mp hx with hx | hx
      · exact h.resourceLimit x hx hh hs
      · obtain rfl : x = r := by simpa using hx
        exact absurd hscope hs
    · rw [(reserve_of_scoped (mt hkind hscope) hscope).2]
      exact lower_bound (fun x => x.resourceScope) (fun x => x.resourceMaxActive) hx
        fun hd => h.resourceLimit x hd hh hs

end Reserve

/-- What the pass knows after the rows `done`. -/
structure Scan.Reads (now : ℤ) (done : List (Candidate κ)) (s : Scan κ) : Prop where
  counts : s.view.Counts now done
  heads : ∀ w r i, s.heads w = some (r, i) →
    done[i]? = some r ∧ r.startable now = true ∧ r.workspaceID = w

section Pass

variable {now : ℤ} {done : List (Candidate κ)} {s s' : Scan κ}

theorem unscoped_of_valid {r : Candidate κ} (h : r.valid = true) (hk : r.resourceKind = "") :
    r.resourceScope = "" := by
  unfold Candidate.valid at h
  rw [Bool.and_eq_true, if_neg (by simp [hk])] at h
  exact of_decide_eq_true (Bool.and_elim_left h.2)

theorem View.Counts.countRow {v : View} {r : Candidate κ} (h : v.Counts now done)
    (hr : r.valid = true) : (countRow now v r).Counts now (done ++ [r]) := by
  have hlive : View.Counts now done
      (if now < r.leaseUntil then { v with liveWorkers := v.liveWorkers + 1 } else v) := by
    split_ifs
    · exact ⟨h.account, h.accountLimit, h.resource, h.resourceLimit⟩
    · exact h
  unfold Scheduler.countRow
  by_cases hh : holdsCapacity r now = true
  · rw [if_pos hh]
    exact hlive.reserve hh (unscoped_of_valid hr)
  · rw [if_neg hh]
    exact hlive.skip (by simpa using hh)

theorem noteHead_eq_some {heads : String → Option (Candidate κ × ℕ)} {r x : Candidate κ} {i j : ℕ}
    {w : String} (h : noteHead now heads r i w = some (x, j)) :
    heads w = some (x, j) ∨ (x = r ∧ j = i ∧ r.startable now = true ∧ r.workspaceID = w) := by
  unfold noteHead at h
  split_ifs at h with hstart
  · rw [Bool.and_eq_true] at hstart
    by_cases hw : w = r.workspaceID
    · subst hw
      simp only [Function.update_self, Option.some.injEq, Prod.mk.injEq] at h
      exact .inr ⟨h.1.symm, h.2.symm, hstart.1, rfl⟩
    · rw [Function.update_of_ne hw] at h
      exact .inl h
  · exact .inl h

theorem scanRow_reads {r : Candidate κ} (h : s.Reads now done)
    (hs : scanRow now s r done.length = .ok s') : s'.Reads now (done ++ [r]) := by
  unfold scanRow at hs
  split_ifs at hs with hbad
  simp only [not_or, Bool.not_eq_true', Bool.not_eq_false] at hbad
  cases hs
  refine ⟨h.counts.countRow hbad.1, fun w x i hx => ?_⟩
  rcases noteHead_eq_some hx with hx | ⟨rfl, rfl, hstart, hw⟩
  · obtain ⟨hi, hstart, hw⟩ := h.heads w x i hx
    refine ⟨?_, hstart, hw⟩
    rw [List.getElem?_append_left (List.getElem?_eq_some_iff.mp hi).1]
    exact hi
  · exact ⟨by simp, hstart, hw⟩

theorem scanRows_reads (done : List (Candidate κ)) {rs : List (Candidate κ)}
    (h : s.Reads now done)
    (hs : scanRows now s done.length rs = .ok s') : s'.Reads now (done ++ rs) := by
  induction rs generalizing s done with
  | nil =>
    cases hs
    simpa using h
  | cons r rs ih =>
    rw [scanRows] at hs
    cases ht : scanRow now s r done.length with
    | error e =>
      rw [ht] at hs
      cases hs
    | ok t =>
      rw [ht] at hs
      rw [List.append_cons]
      refine ih _ (scanRow_reads h ht) ?_
      rwa [List.length_append, List.length_singleton]

/-- The pass over all rows, from an empty view. -/
theorem scan_reads {settings : Settings} {rows : List (Candidate κ)}
    (hs : scanRows now { view := { maxWorkers := settings.maxWorkers } } 0 rows = .ok s') :
    s'.Reads now rows := by
  refine scanRows_reads [] ⟨⟨?_, ?_, ?_, ?_⟩, ?_⟩ hs <;> simp

end Pass

/-! ### What a choice means -/

section Choice

variable {decideQuota : DecideQuota κ} {settings : Settings} {now : ℤ}

/-- There is room for one more holder under the settings, the limits of all holders and the limit
of the row itself. -/
structure Room (settings : Settings) (now : ℤ) (rows : List (Candidate κ)) (r : Candidate κ) :
    Prop where
  account : (rows.countP (onAccount now r.accountScope) : ℤ) <
    Reservation.limit settings.maxActivePerAccount (fun x => x.policy.maxActive)
      (onAccount now r.accountScope) rows
  ownAccount : (rows.countP (onAccount now r.accountScope) : ℤ) < r.policy.maxActive
  resource : r.resourceScope ≠ "" → (rows.countP (onResource now r.resourceScope) : ℤ) <
    Reservation.limit settings.maxActivePerAccount (fun x => x.resourceMaxActive)
      (onResource now r.resourceScope) rows
  ownResource : r.resourceScope ≠ "" →
    (rows.countP (onResource now r.resourceScope) : ℤ) < r.resourceMaxActive

/-- An eligible head is below both effective limits. -/
theorem lt_of_eligible {v : View} {r : Candidate κ}
    (h : (judge decideQuota settings now v r).1 = .eligible) :
    (v.accountReservations r.accountScope : ℤ) < (effectiveLimits r settings v).1 ∧
      (r.resourceScope ≠ "" →
        (v.resourceReservations r.resourceScope : ℤ) < (effectiveLimits r settings v).2) := by
  unfold judge at h
  dsimp only at h
  split_ifs at h with _ _ _ _ _ _ _ _ haccount hresource
  refine ⟨not_le.mp haccount, fun hs => ?_⟩
  by_contra hle
  exact hresource ⟨hs, not_lt.mp hle⟩

theorem lt_effectiveLimits {v : View} {r : Candidate κ} {n : ℤ} :
    (n < (effectiveLimits r settings v).1 → n < settings.maxActivePerAccount ∧
      n < r.policy.maxActive ∧ ∀ m, v.activeAccountLimits r.accountScope = some m → n < m) ∧
    (n < (effectiveLimits r settings v).2 → n < settings.maxActivePerAccount ∧
      n < r.resourceMaxActive ∧ ∀ m, v.activeResourceLimits r.resourceScope = some m → n < m) := by
  unfold effectiveLimits
  constructor
  · cases v.activeAccountLimits r.accountScope <;> simp
  · cases v.activeResourceLimits r.resourceScope <;> simp

/-- Room under the cap and under the limit of every holder, from a bound on the holders' key. -/
theorem lt_limit {cap n : ℤ} {lim : Candidate κ → ℤ} {p : Candidate κ → Bool}
    {rows : List (Candidate κ)} (hcap : n < cap)
    (h : ∀ x ∈ rows, p x = true → n < lim x) : n < Reservation.limit cap lim p rows :=
  Int.lt_of_add_one_le (Reservation.le_limit_iff.mpr
    ⟨Int.add_one_le_of_lt hcap, fun x hx hp => Int.add_one_le_of_lt (h x hx hp)⟩)

theorem room_of_eligible {rows : List (Candidate κ)} {v : View} {r : Candidate κ}
    (hv : v.Counts now rows) (h : (judge decideQuota settings now v r).1 = .eligible) :
    Room settings now rows r := by
  obtain ⟨haccount, hresource⟩ := lt_of_eligible h
  obtain ⟨hcap, hown, hall⟩ := lt_effectiveLimits.1 haccount
  rw [hv.account] at hcap hown hall
  have hscoped := fun hs => lt_effectiveLimits.2 (hresource hs)
  refine ⟨lt_limit hcap fun x hx hp => ?_, hown, fun hs => ?_, fun hs => ?_⟩
  · simp only [onAccount, Bool.and_eq_true, decide_eq_true_eq] at hp
    obtain ⟨m, hm, hle⟩ := hv.accountLimit x hx hp.1
    rw [hp.2] at hm
    exact (hall m hm).trans_le hle
  · obtain ⟨hcap, -, hall⟩ := hscoped hs
    rw [hv.resource _ hs] at hcap hall
    refine lt_limit hcap fun x hx hp => ?_
    simp only [onResource, Bool.and_eq_true, decide_eq_true_eq] at hp
    obtain ⟨m, hm, hle⟩ := hv.resourceLimit x hx hp.1 (by rw [hp.2]; exact hs)
    rw [hp.2] at hm
    exact (hall m hm).trans_le hle
  · have hown := (hscoped hs).2.1
    rwa [hv.resource _ hs] at hown

/-- **What a choice means.** The chosen row was startable, and its account and its resource have
room for one more holder. -/
theorem select_room {rows : List (Candidate κ)} {last : String} {i : ℕ} {view : View}
    (h : select decideQuota settings now rows last = .ok (some i, view)) :
    ∃ r, rows[i]? = some r ∧ r.startable now = true ∧ Room settings now rows r := by
  unfold select at h
  split_ifs at h
  cases hs : scanRows now { view := { maxWorkers := settings.maxWorkers } } 0 rows with
  | error e => simp [hs] at h
  | ok s =>
    have hreads := scan_reads hs
    simp only [hs, Except.ok.injEq, Prod.mk.injEq] at h
    obtain ⟨⟨r, j⟩, hchosen, rfl⟩ := Option.map_eq_some_iff.mp h.1
    -- both searches return an eligible head
    have hfound : (r, j) ∈ orderedHeads rows s ∧
        (judge decideQuota settings now s.view r).1 = .eligible := by
      rcases Option.or_eq_some_iff.mp hchosen with hc | ⟨-, hc⟩
      · have hp := List.find?_some hc
        simp only [Bool.and_eq_true, decide_eq_true_eq] at hp
        exact ⟨List.mem_of_find?_eq_some hc, hp.2⟩
      · exact ⟨List.mem_of_find?_eq_some hc, by simpa using List.find?_some hc⟩
    obtain ⟨w, -, hw⟩ := List.mem_filterMap.mp hfound.1
    obtain ⟨hi, hstart, -⟩ := hreads.heads w r j hw
    exact ⟨r, hi, hstart, room_of_eligible hreads.counts hfound.2⟩

end Choice

end Scheduler
end ComputeRelay
