import Mathlib.Tactic
import ComputeRelay.Scheduler.Order
import ComputeRelay.Store.Queue

/-!
# The turns of the workspaces

Successive `ClaimNext` transactions (`internal/store/sqlite/scheduler.go`). Between two of them the
rows, the settings and the time may become anything; only the cursor, the workspace that was served
last, is what the last successful claim has left.

`fifo_round_robin` is the main result: within a workspace the rows are claimed first in, first out,
in whatever order they are read, and the workspaces take turns.
-/

namespace ComputeRelay
namespace Store

open Scheduler

variable {κ : Type}

/-- One call of `ClaimNext` and the data it finds. -/
structure Turn (κ : Type) where
  settings : Settings
  rows : List (Row κ)
  owner : String
  fence : String
  now : ℤ

section Turns

variable (decideQuota : DecideQuota κ)

/-- What the call finds, with the cursor that is stored. -/
def Turn.queue (t : Turn κ) (cursor : String) : Queue κ := ⟨t.now, cursor, t.rows⟩

/-- The workspace whose row the call claims; it becomes the cursor. -/
def Turn.claimed (t : Turn κ) (cursor : String) : Option String :=
  ((t.queue cursor).claimNext t.settings decideQuota t.owner t.fence t.now).map
    fun x => x.lastWorkspace

/-- The cursor before the turn `n`. -/
def cursorAt (turns : ℕ → Turn κ) (cursor : String) : ℕ → String
  | 0 => cursor
  | n + 1 => ((turns n).claimed decideQuota (cursorAt turns cursor n)).getD
    (cursorAt turns cursor n)

/-- The workspace claimed at the turn `n`, if any. -/
def claimedAt (turns : ℕ → Turn κ) (cursor : String) (n : ℕ) : Option String :=
  (turns n).claimed decideQuota (cursorAt decideQuota turns cursor n)

/-- The selection of the turn `n` finds an eligible head of the workspace. -/
def ReadyAt (turns : ℕ → Turn κ) (cursor : String) (n : ℕ) (w : String) : Prop :=
  ∀ chosen view, ((turns n).queue (cursorAt decideQuota turns cursor n)).select (turns n).settings
    decideQuota (turns n).now = .ok (chosen, view) → view.Ready w

variable {decideQuota}

/-- A claim is of the row that `Select` has chosen. -/
theorem Queue.claimNext_chosen {settings : Settings} {x y : Queue κ}
    {owner fence : String} {now : ℤ}
    (h : x.claimNext settings decideQuota owner fence now = some y) :
    ∃ i view r, x.select settings decideQuota now = .ok (some i, view) ∧
      ((x.snapshot now).map fun p => p.1.candidate)[i]? = some r ∧
        y.lastWorkspace = r.workspaceID := by
  unfold Queue.claimNext at h
  split_ifs at h
  cases hselect : x.select settings decideQuota now with
  | error e => simp [hselect] at h
  | ok p =>
    obtain ⟨chosen, view⟩ := p
    simp only [hselect, Option.bind_eq_some_iff, Option.map_eq_some_iff, Prod.exists] at h
    obtain ⟨r, k, ⟨i, rfl, hi⟩, r', -, rfl⟩ := h
    exact ⟨i, view, r.candidate, rfl, by simp [hi], rfl⟩

theorem Turn.claimed_next {t : Turn κ} {cursor w : String}
    (h : t.claimed decideQuota cursor = some w) :
    ∃ i view, (t.queue cursor).select t.settings decideQuota t.now = .ok (some i, view) ∧
      RoundRobin.Next view.Ready cursor w := by
  obtain ⟨x, hx, rfl⟩ := Option.map_eq_some_iff.mp h
  obtain ⟨i, view, r, hselect, hr, hlast⟩ := Queue.claimNext_chosen hx
  obtain ⟨r', hr', hrow⟩ := selectRow_of_select hselect
  obtain rfl : r' = r := Option.some.inj (hr'.symm.trans hr)
  exact ⟨i, view, hselect, hlast ▸ selectRow_next hrow⟩

variable (decideQuota) in
/-- The selection of the turn `n` shows an eligible head of the workspace. -/
def ShownAt (turns : ℕ → Turn κ) (cursor : String) (n : ℕ) (w : String) : Prop :=
  ∃ chosen view, ((turns n).queue (cursorAt decideQuota turns cursor n)).select (turns n).settings
    decideQuota (turns n).now = .ok (chosen, view) ∧ view.Ready w

/-- Nobody is claimed twice while another one is ready, unless that other one is claimed in
between. -/
theorem claimed_between {turns : ℕ → Turn κ} {cursor : String} {i j : ℕ} (hij : i < j)
    {w v : String} (hvw : v ≠ w) (hi : claimedAt decideQuota turns cursor i = some w)
    (hj : claimedAt decideQuota turns cursor j = some w)
    (hready : ∀ k, i < k → k ≤ j → ReadyAt decideQuota turns cursor k v) :
    ∃ k, i < k ∧ k < j ∧ claimedAt decideQuota turns cursor k = some v := by
  refine RoundRobin.served_between (claimedAt decideQuota turns cursor)
    (cursorAt decideQuota turns cursor) (ShownAt decideQuota turns cursor) (fun n => rfl)
    (fun n u hu => ?_) hij hvw hi hj fun k hik hkj hk => ?_
  · obtain ⟨i, view, hselect, hnext⟩ := Turn.claimed_next hu
    have hshown : ShownAt decideQuota turns cursor n = view.Ready := by
      funext x
      simp [ShownAt, hselect]
    rw [hshown]
    exact hnext
  · obtain ⟨u, hu⟩ := Option.ne_none_iff_exists'.mp hk
    obtain ⟨i, view, hselect, -⟩ := Turn.claimed_next hu
    exact ⟨_, view, hselect, hready k hik hkj _ view hselect⟩

variable (decideQuota) in
/-- **First in, first out within a workspace, round robin across workspaces.**

The row that `Select` chooses is the startable row of its workspace with the lowest sequence number,
and it is the only row with that number. The chosen row and the view are the same for every order of
the rows. And whatever happens to the rows between the calls of `ClaimNext`: no workspace is claimed
twice while another one had an eligible head at every selection after the first claim up to the
second, unless that other one was claimed in between. -/
theorem fifo_round_robin :
    (∀ settings now (rows : List (Candidate κ)) last i view,
      select decideQuota settings now rows last = .ok (some i, view) →
      ∃ r, rows[i]? = some r ∧ IsHead now rows r.workspaceID r ∧
        ∀ x ∈ rows, x.sequence = r.sequence → x = r) ∧
    (∀ settings now (rows rows' : List (Candidate κ)) last, rows'.Perm rows →
      selectRow decideQuota settings now rows' last =
        selectRow decideQuota settings now rows last) ∧
    ∀ (turns : ℕ → Turn κ) cursor i j w v, i < j → v ≠ w →
      claimedAt decideQuota turns cursor i = some w →
      claimedAt decideQuota turns cursor j = some w →
      (∀ k, i < k → k ≤ j → ReadyAt decideQuota turns cursor k v) →
      ∃ k, i < k ∧ k < j ∧ claimedAt decideQuota turns cursor k = some v := by
  refine ⟨fun settings now rows last i view h => ?_, fun _ _ _ _ _ h => selectRow_perm h,
    fun turns cursor i j w v hij hvw hi hj hready => claimed_between hij hvw hi hj hready⟩
  obtain ⟨r, hr, hrow⟩ := selectRow_of_select h
  obtain ⟨s, hs, -⟩ := selectRow_ok hrow
  have hhead := selectRow_isHead hrow
  exact ⟨r, hr, hhead, fun x hx heq =>
    List.inj_on_of_nodup_map (scanRows_ok hs).1.2 hx hhead.mem heq⟩

end Turns

/-- Two workspaces with one new attempt each. -/
def sampleTurn : Turn Unit where
  settings := sampleSettings
  rows := [{ sampleRow 1 "first" with workspaceID := "b" },
    { sampleRow 2 "second" with workspaceID := "a", accountScope := "other" }]
  owner := "worker"
  fence := "fence"
  now := 1

def turnScan : Scan Unit :=
  Scan.after 1 { view := { maxWorkers := sampleSettings.maxWorkers } } 0
    (sampleTurn.rows.map fun r => r.candidate)

theorem spaces_sample :
    spaces (sampleTurn.rows.map fun r => r.candidate) turnScan = ["a", "b"] := by
  refine (KeySort.eq_sortBy id ?_ ?_ ?_).symm
  · decide
  · decide
  · decide

/-- What `Select` answers there, for a cursor. -/
def sampleChoice (last : String) : Option ℕ :=
  let heads := ["a", "b"].filterMap turnScan.heads
  let ready := eligible (fun _ _ _ _ _ _ => (.eligible, none)) sampleSettings 1 turnScan.view
  ((heads.find? fun h => decide (last < h.1.workspaceID) && ready h.1).or
    (heads.find? fun h => ready h.1)).map Prod.snd

theorem select_sample {last : String} (hlast : last = "" ∨ Domain.validOpaqueID last = true) :
    (sampleTurn.queue last).select sampleTurn.settings (fun _ _ _ _ _ _ => (.eligible, none))
        sampleTurn.now =
      .ok (sampleChoice last, { turnScan.view with
        heads := (["a", "b"].filterMap turnScan.heads).map fun h =>
          status (fun _ _ _ _ _ _ => (.eligible, none)) sampleSettings 1 turnScan.view h.1 }) := by
  have hsnapshot : ((sampleTurn.queue last).snapshot sampleTurn.now).map (fun p => p.1.candidate) =
      sampleTurn.rows.map fun r => r.candidate := rfl
  have hscan :
      scanRows sampleTurn.now { view := { maxWorkers := sampleTurn.settings.maxWorkers } } 0
      (sampleTurn.rows.map fun r => r.candidate) = .ok turnScan := rfl
  have hsettings : sampleTurn.settings.valid = true := by decide
  have hnow : Scheduler.validTime sampleTurn.now = true := by decide
  rw [Queue.select, hsnapshot, select, hscan]
  simp only [orderedHeads, spaces_sample]
  rw [if_neg (by rcases hlast with rfl | hlast <;> simp [Turn.queue, *]), if_neg (by decide)]
  rfl

theorem claimed_sample :
    let claimed := sampleTurn.claimed fun _ _ _ _ _ _ => (.eligible, none)
    claimed "" = some "a" ∧ claimed "a" = some "b" ∧ claimed "b" = some "a" := by
  have hvalid : Domain.validOpaqueID "a" = true ∧ Domain.validOpaqueID "b" = true := by decide
  simp only [Turn.claimed, Queue.claimNext]
  rw [select_sample (.inl rfl), select_sample (.inr hvalid.1), select_sample (.inr hvalid.2)]
  decide +kernel

/-- Two workspaces that are always ready. The second row is the head of its workspace, it is chosen
in both orders of the rows, and the workspace of the first row is claimed between two claims of the
other one. -/
theorem fifo_round_robin_sample :
    let dq : DecideQuota Unit := fun _ _ _ _ _ _ => (.eligible, none)
    let rows := sampleTurn.rows.map fun r => r.candidate
    (∃ r, rows[1]? = some r ∧ IsHead sampleTurn.now rows r.workspaceID r) ∧
      selectRow dq sampleTurn.settings sampleTurn.now rows.reverse "" =
        selectRow dq sampleTurn.settings sampleTurn.now rows "" ∧
      claimedAt dq (fun _ => sampleTurn) "" 0 = some "a" ∧
      claimedAt dq (fun _ => sampleTurn) "" 2 = some "a" ∧
      ∃ k, 0 < k ∧ k < 2 ∧ claimedAt dq (fun _ => sampleTurn) "" k = some "b" := by
  intro dq rows
  obtain ⟨hfifo, horder, hturns⟩ := fifo_round_robin dq
  obtain ⟨h0, h1, h2⟩ := claimed_sample
  have hcursor1 : cursorAt dq (fun _ => sampleTurn) "" 1 = "a" := by simp [cursorAt, dq, h0]
  have hcursor2 : cursorAt dq (fun _ => sampleTurn) "" 2 = "b" := by
    rw [cursorAt, hcursor1]
    simp [dq, h1]
  have hfirst : claimedAt dq (fun _ => sampleTurn) "" 0 = some "a" := h0
  have hsecond : claimedAt dq (fun _ => sampleTurn) "" 2 = some "a" := by
    rw [claimedAt, hcursor2]
    exact h2
  refine ⟨?_, horder _ _ _ _ "" (List.reverse_perm rows), hfirst, hsecond,
    hturns _ "" 0 2 "a" "b" (by decide) (by decide) hfirst hsecond fun k hk hk2 chosen view h => ?_⟩
  · have hchoice : sampleChoice "" = some 1 := by decide +kernel
    have hselect := select_sample (.inl rfl)
    rw [hchoice] at hselect
    obtain ⟨r, hr, hhead, -⟩ := hfifo _ _ _ _ _ _ hselect
    exact ⟨r, hr, hhead⟩
  · have hvalid : Domain.validOpaqueID (cursorAt dq (fun _ => sampleTurn) "" k) = true := by
      interval_cases k
      · rw [hcursor1]
        decide
      · rw [hcursor2]
        decide
    cases (select_sample (.inr hvalid)).symm.trans h
    show ∃ h ∈ _, _
    decide +kernel

end Store
end ComputeRelay
