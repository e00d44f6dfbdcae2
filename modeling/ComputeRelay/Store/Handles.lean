import Mathlib.Tactic
import ComputeRelay.Dispatch.Release
import ComputeRelay.Lib.Fencing
import ComputeRelay.Store.Change

/-!
# No lost updates

A worker reads an attempt, computes for a while and commits through the handle it was issued. The
handle carries the version of the journal and the revision of the attempt row, and the two together
are the token of `Lib/Fencing`: every transaction that changes the journal takes the version up,
every transaction that changes the attempt row takes the revision up.

* `fenced` instantiates the library; `perform_uses` and `perform_issues` say what a handle stood for
  when it was issued and what it is checked against when it is used.
* `no_lost_update` is the main result.
-/

namespace ComputeRelay
namespace Store

open Domain Provider Scheduler Dispatch Fallible

/-- The handle a transaction presents. -/
def Request.handle : Request → Option Handle
  | .renew h _ | .yield h _ | .consume h | .commit h _ _ | .cancelled h _ => some h
  | _ => none

/-- The transactions that commit a step of the journal. -/
def Request.commits : Request → Bool
  | .commit _ _ _ => true
  | _ => false

/-- Journal version and attempt revision. -/
def Records.token (x : Records) : ℤ × ℤ := (x.current.version, x.attempt.revision)

/-- What a worker computes from. -/
def Records.view (x : Records) : Journal × Attempt := (x.current, x.attempt)

section Fence

variable {c : Codec} {r : FrozenJob} {x y : Records} {now : ℤ} {o : Action → Prop}

theorem Attempt.Follows.fenced {a b : Attempt} (h : a.Follows b now) :
    a.revision ≤ b.revision ∧ (b.revision = a.revision → b = a) := by
  rcases h with rfl | ⟨hlt, -⟩
  · exact ⟨le_rfl, fun _ => rfl⟩
  · exact ⟨hlt.le, fun he => absurd he hlt.ne'⟩

/-- A change of the journal raises its version, a change of the attempt its revision. -/
theorem Change.fenced (h : Change c r x now o y) :
    x.token ≤ y.token ∧ (y.token = x.token → y.view = x.view) := by
  cases h with
  | moved a lease follows =>
    obtain ⟨hle, heq⟩ := follows.fenced
    refine ⟨⟨le_rfl, hle⟩, fun ht => ?_⟩
    have ha : a = x.attempt := heq (congrArg Prod.snd ht)
    simp [Records.view, Records.current, ha]
  | retired | granted => exact ⟨le_rfl, fun _ => rfl⟩
  | controlled next l a edit follows =>
    have hver : next.version = x.current.version + 1 := edit.version
    refine ⟨⟨?_, follows.fenced.1⟩, fun ht => ?_⟩
    · show x.current.version ≤ next.version
      omega
    · have : next.version = x.current.version := congrArg Prod.fst ht
      omega
  | committed act next g l a offered commit follows =>
    have hver : next.version = x.current.version + 1 := commit.version
    refine ⟨⟨?_, follows.fenced.1⟩, fun ht => ?_⟩
    · show x.current.version ≤ next.version
      omega
    · have : next.version = x.current.version := congrArg Prod.fst ht
      omega

theorem fenced (c : Codec) (r : FrozenJob) :
    Fencing.Fenced (Records.step c r) Records.token Records.view where
  mono hs := by
    obtain ⟨now, z, -, -, -, hz, hy⟩ := step_change hs
    rw [hy]
    exact hz.fenced.1
  view hs ht := by
    obtain ⟨now, z, -, -, -, hz, hy⟩ := step_change hs
    rw [hy] at ht ⊢
    exact hz.fenced.2 ht

end Fence

/-! ### Handles -/

section Handles

variable {c : Codec} {r : FrozenJob} {x y : Records} {h : Handle} {now : ℤ} {q : Request}
variable {h? : Option Handle} {o : Action → Prop}

/-- A handle is good for the records it was issued with, or for others with the same token. -/
def Handle.Matches (h : Handle) (x : Records) : Prop :=
  (h.version, h.claim.attemptRevision) = x.token

/-- A transaction with a handle checks its lease and its token. -/
theorem perform_uses (hq : q.handle = some h) (hp : perform c r x now q = .ok (y, h?)) :
    Loaded c r x h.claim now ∧ h.Matches x := by
  have key : ∃ work, loadHandle c r x h now = .ok work := by
    cases q with
    | renew h ttl =>
      cases hq
      obtain ⟨h', hl, -⟩ := issuing_ok hp
      simp only [renewDispatch, bind_eq_ok] at hl
      obtain ⟨work, hw, -⟩ := hl
      exact ⟨work, hw⟩
    | yield h delay =>
      cases hq
      have hl := (silent_ok hp).1
      simp only [yieldDispatch, bind_eq_ok] at hl
      obtain ⟨work, hw, -⟩ := hl
      exact ⟨work, hw⟩
    | consume h =>
      cases hq
      obtain ⟨h', hl, -⟩ := issuing_ok hp
      simp only [consumeAuthorization, bind_eq_ok] at hl
      obtain ⟨work, hw, -⟩ := hl
      exact ⟨work, hw⟩
    | commit h a exhausted =>
      cases hq
      obtain ⟨h', hl, -⟩ := issuing_ok hp
      simp only [commitDispatch, bind_eq_ok] at hl
      obtain ⟨-, -, work, hw, -⟩ := hl
      exact ⟨work, hw⟩
    | cancelled h report =>
      cases hq
      obtain ⟨h', hl, -⟩ := issuing_ok hp
      simp only [commitCancellation, bind_eq_ok] at hl
      obtain ⟨work, hw, -⟩ := hl
      exact ⟨work, hw⟩
    | _ => cases hq
  obtain ⟨work, hw⟩ := key
  obtain ⟨-, hloaded, hv⟩ := loadHandle_ok hw
  exact ⟨hloaded, by rw [Handle.Matches, Records.token, hv, hloaded.revision]⟩

theorem commitCancellation_issues {g : Handle} {report : CancellationReport}
    (hc : commitCancellation c r x g report now = .ok (y, h)) : h.Matches y := by
  simp only [commitCancellation, bind_eq_ok] at hc
  obtain ⟨work, hw, hc⟩ := hc
  obtain ⟨rfl, hloaded, hv⟩ := loadHandle_ok hw
  split at hc
  · cases hc
  simp only [bind_eq_ok] at hc
  obtain ⟨-, -, hc⟩ := hc
  cases report with
  | begun | acknowledged =>
    simp only [bind_eq_ok, pure_eq_ok, Prod.mk.injEq] at hc
    obtain ⟨-, -, x1, hx1, rfl, rfl⟩ := hc
    obtain ⟨att, rfl, -⟩ := controlState_ok hx1
    simp [Handle.Matches, Handle.refresh, Records.token, Records.current, hv]
  | unsupported =>
    simp only [bind_eq_ok, pure_eq_ok, Prod.mk.injEq] at hc
    obtain ⟨x1, hx1, rfl, rfl⟩ := hc
    obtain ⟨att, rfl, -⟩ := controlState_ok hx1
    simp [Handle.Matches, Handle.refresh, Records.token, Records.current, hv]
  | confirmed =>
    simp only [bind_eq_ok, pure_eq_ok, Prod.mk.injEq, Prod.exists] at hc
    obtain ⟨next, state, -, x1, hx1, x2, hx2, rfl, rfl⟩ := hc
    obtain ⟨rfl, -⟩ := controlJournal_ok hx1
    obtain ⟨att, rfl, -⟩ := controlState_ok hx2
    rfl

/-- A handle stands for the records it is issued with. -/
theorem perform_issues (hp : perform c r x now q = .ok (y, some h)) : h.Matches y := by
  cases q with
  | load k =>
    obtain ⟨h', hl, hh⟩ := issuing_ok hp
    obtain rfl : h = h' := by simpa using hh
    simp only [loadWork, bind_eq_ok, pure_eq_ok, Prod.mk.injEq] at hl
    obtain ⟨work, hw, rfl, rfl⟩ := hl
    obtain ⟨rfl, hloaded⟩ := loadDispatch_ok hw
    simp [Handle.Matches, Records.token, hloaded.revision]
  | renew g ttl =>
    obtain ⟨h', hl, hh⟩ := issuing_ok hp
    obtain rfl : h = h' := by simpa using hh
    simp only [renewDispatch, bind_eq_ok, pure_eq_ok, Prod.mk.injEq] at hl
    obtain ⟨work, hw, row, -, rfl, rfl⟩ := hl
    obtain ⟨-, hloaded, hv⟩ := loadHandle_ok hw
    simp [Handle.Matches, Records.token, Records.current, hloaded.revision, hv]
  | consume g =>
    obtain ⟨h', hl, hh⟩ := issuing_ok hp
    obtain rfl : h = h' := by simpa using hh
    simp only [consumeAuthorization, bind_eq_ok] at hl
    obtain ⟨work, hw, -, -, -, -, status, -, hl⟩ := hl
    obtain ⟨-, hloaded, hv⟩ := loadHandle_ok hw
    -- neither branch touches the journal or the attempt
    split_ifs at hl <;> simp only [bind_eq_ok, pure_eq_ok, Prod.mk.injEq] at hl
    · obtain ⟨g, -, rfl, rfl⟩ := hl
      simp [Handle.Matches, Records.token, Records.current, hloaded.revision, hv]
    · obtain ⟨g, -, rfl, rfl⟩ := hl
      simp [Handle.Matches, Records.token, Records.current, hloaded.revision, hv]
    · obtain ⟨rfl, rfl⟩ := hl
      simp [Handle.Matches, Records.token, Records.current, hloaded.revision, hv]
  | commit g a exhausted =>
    obtain ⟨h', hl, hh⟩ := issuing_ok hp
    obtain rfl : h = h' := by simpa using hh
    simp only [commitDispatch, bind_eq_ok, pure_eq_ok, Prod.mk.injEq, Prod.exists] at hl
    obtain ⟨-, -, work, -, a1, -, g', a2, -, next, state, -, l, -, x1, -, x2, hx2, x3, hx3, rfl,
      rfl⟩ := hl
    obtain rfl := writeJournal_ok hx2
    obtain ⟨att, rfl, -⟩ := finishObservedOperations_ok hx3
    rfl
  | cancelled g report =>
    obtain ⟨h', hl, hh⟩ := issuing_ok hp
    obtain rfl : h = h' := by simpa using hh
    exact commitCancellation_issues hl
  | _ => cases (silent_ok hp).2

/-- The work lease a transaction presents is the current one. -/
def Records.owned (x : Records) (k : Claim) (now : ℤ) : Prop :=
  ∃ row, x.lease = some row ∧ row.live now = true ∧ row.toWorkLease = k.lease

/-- No transaction makes an attempt the active one again. -/
theorem Change.active (h : Change c r x now o y) (hx : x.active = false) : y.active = false := by
  cases h <;> first | exact hx | rfl

theorem retired_run (hx : x.active = false) (txs : List Tx) :
    (Run.run (Records.step c r) x txs).active = false := by
  refine Run.run_invariant (P := fun x : Records => x.active = false) hx
    (fun s t a hs hstep => ?_) txs
  obtain ⟨now, z, -, -, -, hz, hy⟩ := step_change hstep
  rw [hy]
  exact hz.active hs

end Handles

/-! ### The result -/

section Result

variable {c : Codec} {r : FrozenJob} {x y z : Records} {h : Handle} {tx : Tx}

theorem step_eq_some : x.step c r tx = some y ↔ ∃ h?, x.transact c r tx = .ok (y, h?) := by
  unfold Records.step
  cases x.transact c r tx with
  | error e => simp [Except.toOption]
  | ok p => simp [Except.toOption, Prod.ext_iff]

/-- An accepted transaction with a handle found its lease live and its token current. -/
theorem step_uses (hq : tx.request.handle = some h) (hs : x.step c r tx = some y) :
    h.Matches x ∧ x.active = true ∧
      ∃ now, write x.floor tx.wall = .ok (now, y.floor) ∧ x.owned h.claim now := by
  obtain ⟨h?, ht⟩ := step_eq_some.mp hs
  obtain ⟨now, z, hw, hp, -⟩ := transact_eq_ok ht
  obtain ⟨hloaded, hm⟩ := perform_uses hq hp
  exact ⟨hm, hloaded.active, now, hw, hloaded.lease⟩

theorem transact_issues (ht : x.transact c r tx = .ok (y, some h)) : h.Matches y := by
  obtain ⟨now, z, -, hp, hy⟩ := transact_eq_ok ht
  have hz : h.Matches z := perform_issues hp
  rw [hy]
  exact hz

theorem step_commit (hq : tx.request.commits = true) (hs : x.step c r tx = some y) :
    x.current.version < y.current.version := by
  obtain ⟨h?, ht⟩ := step_eq_some.mp hs
  obtain ⟨now, z, -, hp, hy⟩ := transact_eq_ok ht
  have hver : z.current.version = x.current.version + 1 := by
    cases hr : tx.request with
    | commit h a exhausted =>
      rw [hr] at hp
      obtain ⟨h', hl, -⟩ := issuing_ok hp
      obtain ⟨act, next, g, l, att, rfl, -, hcommit, -⟩ := commitDispatch_ok hl
      exact hcommit.version
    | _ => simp [hr, Request.commits] at hq
  have hsame : y.current = z.current := by rw [hy]; rfl
  rw [hsame, hver]
  exact lt_add_one _

/-- A handle that matches now and did when it was issued has seen no change in between. -/
theorem view_of_matches {past rest : List Tx} (hx : h.Matches x)
    (hy : h.Matches (Run.run (Records.step c r) x (past ++ rest))) :
    (Run.run (Records.step c r) x past).view = x.view := by
  have hf := fenced c r
  rw [Run.run_append] at hy
  have htoken :
      x.token = (Run.run (Records.step c r) (Run.run (Records.step c r) x past) rest).token :=
    hx.symm.trans hy
  refine hf.view_run (le_antisymm ?_ (hf.token_run x past))
  exact htoken ▸ hf.token_run _ rest

end Result

/-- **No lost update.** Take a handle from the transaction that issues it, any transactions after
that, and a transaction that presents the handle.

If it is accepted, the journal and the attempt are those the handle was issued with and have been
all the time in between, and the handle's lease is the current one and live. A commit raises the
version of the journal. A transaction that changes the journal or the attempt, or retires the
attempt, is the end of the handle. -/
theorem no_lost_update (c : Codec) (r : FrozenJob) {x x₁ : Records} {issue : Tx} {h : Handle}
    (hissue : x.transact c r issue = .ok (x₁, some h)) :
    let later := Run.run (Records.step c r) x₁
    (∀ past rest tx z, tx.request.handle = some h →
      (later (past ++ rest)).step c r tx = some z →
      (later past).current = x₁.current ∧ (later past).attempt = x₁.attempt ∧
      ∃ now, write (later (past ++ rest)).floor tx.wall = .ok (now, z.floor) ∧
        (later (past ++ rest)).owned h.claim now) ∧
    (∀ past tx z, tx.request.commits = true → (later past).step c r tx = some z →
      (later past).current.version < z.current.version) ∧
    ∀ past edit z, (later past).step c r edit = some z →
      z.current ≠ (later past).current ∨ z.attempt ≠ (later past).attempt ∨ z.active = false →
      ∀ rest tx, tx.request.handle = some h →
        (Run.run (Records.step c r) z rest).step c r tx = none := by
  intro later
  have hx : h.Matches x₁ := transact_issues hissue
  refine ⟨fun past rest tx z hq hs => ?_, fun past tx z hq hs => step_commit hq hs,
    fun past edit z hedit hchange rest tx hq => ?_⟩
  · obtain ⟨hm, -, hlease⟩ := step_uses hq hs
    have hv := view_of_matches hx hm
    exact ⟨congrArg Prod.fst hv, congrArg Prod.snd hv, hlease⟩
  · rw [Option.eq_none_iff_forall_not_mem]
    intro w hw
    obtain ⟨hm, hactive, -⟩ := step_uses hq hw
    by_cases hv : z.view = (later past).view
    · -- only the retirement is left
      have hretired : z.active = false := by
        rcases hchange with hc | ha | hret
        · exact absurd (congrArg Prod.fst hv) hc
        · exact absurd (congrArg Prod.snd hv) ha
        · exact hret
      rw [retired_run hretired] at hactive
      cases hactive
    · exact (fenced c r).token_ne_of_edit hedit hv (hm.symm.trans hx)

/-! ### A sample attempt -/

def sampleEncoders : Codec where
  toDispatch := sampleCodec
  executionRef resource version := resource.text ++ "@" ++ version.text

def sampleJob (separateStart : Bool) : FrozenJob where
  sequence := 1
  workspaceID := "workspace"
  jobID := "job"
  attemptID := "attempt"
  attemptNonce := "0123456789abcdef"
  profile := "fixture"
  accountScope := "account"
  providerInstanceID := "instance"
  inputsSHA256 := some emptyListSHA256
  objectBytes := 8
  separateStart
  workloadSecrets := []
  deadline := none
  remoteWallSeconds := 10
  setupSeconds := 1
  finalizationGraceSeconds := 1
  gpu := false
  resolved := some (samplePlan.job, "intent")

def sampleStep (separateStart : Bool) : Records → Tx → Option Records :=
  Records.step sampleEncoders (sampleJob separateStart)

def sampleID : FreshID := ⟨"authorization", by decide⟩

def sampleLease : Tx := ⟨0, .claimNext "worker" emptyObjectSHA256 (60 * Rfc3339.second)⟩

/-- The claim of the worker that holds the lease, for some revision of the attempt. -/
def sampleClaim (attemptRevision : ℤ) : Claim where
  workspaceID := "workspace"
  jobID := "job"
  attemptID := "attempt"
  sequence := 1
  owner := "worker"
  generation := 1
  fence := emptyObjectSHA256
  expiresAt := 60 * Rfc3339.second
  attemptRevision
  accountScope := "account"
  providerInstanceID := "instance"

def sampleHandle : Handle := ⟨sampleClaim 2, 0⟩

/-- The sample, authorized and claimed. -/
def sampleClaimed : Records :=
  Run.run (sampleStep false) (admitted 0) [⟨0, .authorize "attempt" 10 sampleID⟩, sampleLease]

/-- The handle of the sample works until the job is cancelled, and never again after that. -/
theorem cancelled_sample_refuses_handle : ∃ x₁ z,
    sampleClaimed.transact sampleEncoders (sampleJob false) ⟨0, .load (sampleClaim 2)⟩ =
      .ok (x₁, some sampleHandle) ∧
    (sampleStep false x₁ ⟨0, .consume sampleHandle⟩).isSome = true ∧
    sampleStep false x₁ ⟨0, .cancel false⟩ = some z ∧ z.current ≠ x₁.current ∧
    ∀ rest tx, tx.request.handle = some sampleHandle →
      sampleStep false (Run.run (sampleStep false) z rest) tx = none := by
  have hrun : (sampleClaimed.transact sampleEncoders (sampleJob false)
      ⟨0, .load (sampleClaim 2)⟩).toOption.any fun p => p.2 = some sampleHandle ∧
        (sampleStep false p.1 ⟨0, .consume sampleHandle⟩).isSome = true ∧
        (sampleStep false p.1 ⟨0, .cancel false⟩).any (·.current ≠ p.1.current) = true := by
    decide
  simp only [Option.any_eq_true, decide_eq_true_eq] at hrun
  obtain ⟨⟨x₁, h?⟩, hx, rfl, hconsume, z, hz, hne⟩ := hrun
  have hissue := toOption_eq_some hx
  exact ⟨x₁, z, hissue, hconsume, hz, hne,
    (no_lost_update sampleEncoders (sampleJob false) hissue).2.2 [] ⟨0, .cancel false⟩ z hz
      (Or.inl hne)⟩

end Store
end ComputeRelay
