import Mathlib.Tactic
import ComputeRelay.Store.Handles

/-!
# The records of an attempt agree

Five tables hold the records of one attempt, and different branches of different transactions write
them. `Coherent` says that they agree: the barrier is up exactly behind a plan, the authority to
prepare is consumed when there is a plan, and the start grant is consumed exactly when the journal
has a submission intent.

* `Change.coherent` is the step lemma, by cases on what transactions do; `coherent_run` is the same
  for whole runs from admission.
* `later_run` says that the grants only go forward along a run.
* `authority_with_intent` puts the two together.
-/

namespace ComputeRelay
namespace Store

open Domain Provider Scheduler Dispatch

/-- The records agree, and none of their times is after `t`. -/
structure Coherent (c : Codec) (r : FrozenJob) (x : Records) (t : ℤ) : Prop where
  grants : x.grants.Sound r t
  updated : x.attempt.updatedAt ≤ t
  barrier : x.barrier = x.current.plan.isSome
  plan : ∀ plan, x.current.plan = some plan →
    matchesFrozenPlan r plan x.current.preparationID = true ∧ x.grants.Authorized r
  submitted : r.separateStart = true → (x.current.submitStarted = true ↔ x.grants.StartUsed)
  authority : r.separateStart = true → x.current.submitStarted = true →
    x.current.startAuthorization = x.grants.startAuthorization r ∧
      x.current.startAuthorization.isSome = true

section Steps

variable {c : Codec} {r : FrozenJob} {x y : Records} {now t : ℤ} {o : Action → Prop}

theorem Coherent.mono (h : Coherent c r x t) (hle : t ≤ now) : Coherent c r x now :=
  { h with grants := h.grants.mono hle, updated := h.updated.trans hle }

theorem coherent_admitted (c : Codec) (r : FrozenJob) (now : ℤ) :
    Coherent c r (admitted now) (ofMilli (admitted now).floor) where
  grants := .empty r _
  updated := le_ofMilli_nextFloor now
  barrier := rfl
  plan := by rintro plan ⟨⟩
  submitted _ := by simp [admitted, Records.current, localJournal, Grants.StartUsed]
  authority _ hs := by cases hs

theorem Attempt.Follows.updated_le {a b : Attempt} (h : a.Follows b now) (ha : a.updatedAt ≤ now) :
    b.updatedAt ≤ now := by
  rcases h with rfl | ⟨-, -, hb⟩
  · exact ha
  · exact hb.le

theorem Grants.StartUsed.ne_none {g : Grants} (h : g.StartUsed) : g.start ≠ none := by
  obtain ⟨s, hs, -⟩ := h
  simp [hs]

theorem Grants.start_ne_none {g : Grants} (h : (g.startAuthorization r).isSome = true) :
    g.start ≠ none := by
  intro hs
  unfold Grants.startAuthorization Grants.gate at h
  cases hr : r.separateStart <;> cases hp : g.prepare <;> simp [hr, hp, hs, PrepareGrant.gate] at h

theorem Coherent.granted {g : Grants} (h : Coherent c r x now) (ht : validTime now = true)
    (step : Granting r x.grants now g) : Coherent c r { x with grants := g } now where
  grants := step.sound h.grants ht
  updated := h.updated
  barrier := h.barrier
  plan plan hp := by
    obtain ⟨hmatch, hauth⟩ := h.plan plan hp
    exact ⟨hmatch, hauth.later (step.later h.grants)⟩
  submitted hr := (h.submitted hr).trans step.startUsed.symm
  authority hr hs := by
    obtain ⟨heq, hsome⟩ := h.authority hr hs
    have hstart := ((h.submitted hr).mp hs).ne_none
    exact ⟨heq.trans (step.startAuthorization h.grants hstart).symm, hsome⟩

theorem Coherent.controlled {next : Journal} {l : Ledger} {a : Attempt} (h : Coherent c r x now)
    (edit : ControlEdit c r x next l) (follows : x.attempt.Follows a now) :
    Coherent c r { x with journal := some next, ledger := l, attempt := a } now where
  grants := h.grants
  updated := follows.updated_le h.updated
  barrier := h.barrier.trans (congrArg Option.isSome edit.same.plan.symm)
  plan plan hp := by
    have hprep : next.preparationID = x.current.preparationID := edit.same.preparationID
    obtain ⟨hmatch, hauth⟩ := h.plan plan (edit.same.plan.symm.trans hp)
    exact ⟨by rw [← hprep] at hmatch; exact hmatch, hauth⟩
  submitted hr := by
    have hs : next.submitStarted = x.current.submitStarted := edit.same.submitStarted
    rw [← h.submitted hr, ← hs]
    rfl
  authority hr hs := by
    obtain ⟨heq, hsome⟩ := h.authority hr (edit.same.submitStarted.symm.trans hs)
    have hauth : next.startAuthorization = x.current.startAuthorization :=
      edit.same.startAuthorization
    rw [← hauth] at heq hsome
    exact ⟨heq, hsome⟩

/-- A worker commits a step of the journal. -/
theorem Coherent.committed {act : Action} {next : Journal} {g : Grants} {l : Ledger} {a : Attempt}
    (h : Coherent c r x now) (commit : Commit c r x now act next g l)
    (follows : x.attempt.Follows a now) :
    Coherent c r { x with
      journal := some next, grants := g, ledger := l, attempt := a
      barrier := x.barrier || act.kind = .beginPreparation } now where
  grants := commit.step.sound h.grants
  updated := follows.updated_le h.updated
  barrier := by
    show (x.barrier || decide (act.kind = .beginPreparation)) = next.plan.isSome
    rcases commit.recorded.plan_cases with ⟨hk, -, -, hsome⟩ | ⟨hk, hplan, -⟩
    · simp [hk, hsome]
    · simp [hk, hplan, h.barrier]
  plan plan hp := by
    have hp : next.plan = some plan := hp
    show matchesFrozenPlan r plan next.preparationID = true ∧ g.Authorized r
    rcases commit.recorded.plan_cases with ⟨hk, hplan, hid, -⟩ | ⟨hk, hplan, hid⟩
    · obtain ⟨plan', hoffer, hauth, hmatch⟩ := commit.plans hk
      obtain rfl : plan' = plan := by simpa [hplan, hoffer] using hp
      exact ⟨hid ▸ hmatch, (h.grants.authorized_iff.mp hauth).later commit.step.later⟩
    · obtain ⟨hmatch, hauth⟩ := h.plan plan (hplan ▸ hp)
      exact ⟨hid ▸ hmatch, hauth.later commit.step.later⟩
  submitted hr := by
    show next.submitStarted = true ↔ g.StartUsed
    rcases commit.recorded.submit_cases with ⟨hk, hs, -⟩ | ⟨hk, hs, -⟩
    · exact iff_of_true hs (commit.submits hr hk).1
    · rw [hs, commit.keeps hk, h.submitted hr]
  authority hr hs := by
    have hs : next.submitStarted = true := hs
    show next.startAuthorization = g.startAuthorization r ∧ next.startAuthorization.isSome = true
    rcases commit.recorded.submit_cases with ⟨hk, -, hauth⟩ | ⟨hk, hold, hauth⟩
    · -- the authority is the one the gate rebuilt before this step, which keeps it
      obtain ⟨-, heq, hsome⟩ := commit.submits hr hk
      have hstart := Grants.start_ne_none (heq ▸ hsome)
      rw [hauth hsome, commit.step.startAuthorization h.grants hstart]
      exact ⟨heq, hsome⟩
    · rw [hold] at hs
      obtain ⟨heq, hsome⟩ := h.authority hr hs
      have hstart := ((h.submitted hr).mp hs).ne_none
      rw [hauth, commit.step.startAuthorization h.grants hstart]
      exact ⟨heq, hsome⟩

/-- **Step lemma.** Transactions keep the records coherent. -/
theorem Change.coherent (hc : Change c r x now o y) (ht : validTime now = true)
    (h : Coherent c r x now) : Coherent c r y now := by
  cases hc with
  | moved a lease follows => exact { h with updated := follows.updated_le h.updated }
  | retired => exact { h with }
  | granted g step => exact h.granted ht step
  | controlled next l a edit follows => exact h.controlled edit follows
  | committed act next g l a offered commit follows => exact h.committed commit follows

/-- The grants only go forward. -/
theorem Change.later (hc : Change c r x now o y) (h : Coherent c r x now) :
    x.grants.Later y.grants := by
  cases hc with
  | granted g step => exact step.later h.grants
  | committed act next g l a offered commit follows => exact commit.step.later
  | moved | retired | controlled => exact .refl x.grants

/-- The records of a state of the store. -/
def Records.Coheres (c : Codec) (r : FrozenJob) (x : Records) : Prop :=
  Coherent c r x (ofMilli x.floor)

theorem step_coheres {tx : Tx} (h : x.Coheres c r) (hs : x.step c r tx = some y) :
    y.Coheres c r ∧ x.grants.Later y.grants := by
  obtain ⟨now, z, hfloor, hnow, ht, hchange, hy⟩ := step_change hs
  have hx : Coherent c r x now := h.mono hfloor
  have hz : Coherent c r z (ofMilli y.floor) := (hchange.coherent ht hx).mono hnow
  have hlater := hchange.later hx
  rw [hy]
  exact ⟨{ hz with }, hlater⟩

theorem coheres_run (h : x.Coheres c r) (txs : List Tx) :
    (Run.run (Records.step c r) x txs).Coheres c r :=
  Run.run_invariant (P := Records.Coheres c r) h (fun _ _ _ h hs => (step_coheres h hs).1) txs

theorem later_run (h : x.Coheres c r) (txs : List Tx) :
    x.grants.Later (Run.run (Records.step c r) x txs).grants :=
  Run.run_rel (R := fun x y : Records => x.grants.Later y.grants) (P := Records.Coheres c r)
    (fun _ => .refl _) (fun _ _ _ => .trans) h (fun _ _ _ h hs => step_coheres h hs) txs

/-- The start grant and the secret of a job that declares secrets are consumed at the same instant,
while the secret is neither revoked nor expired. -/
theorem Grants.Sound.secret_with_start {g : Grants} (h : g.Sound r t)
    (hslots : r.workloadSecrets ≠ []) : g.secret.bind (·.consumedAt) = g.start.bind (·.consumedAt) ∧
      ∀ w u, g.secret = some w → w.consumedAt = some u →
        w.status = .consumed ∧ w.revokedAt = none ∧ u < instant w.metadata.expiresAt := by
  constructor
  · cases hs : g.start with
    | none =>
      cases hw : g.secret with
      | none => rfl
      | some w => exact h.unused hs w hw
    | some s =>
      obtain ⟨p, hp, -⟩ := h.start s hs
      have hpair := h.paired s p hs hp
      rw [if_neg hslots] at hpair
      obtain ⟨w, hw, -, hc⟩ := hpair
      simp [hw, hc]
  · intro w u hw hu
    obtain ⟨-, htraced, htidy, hexp⟩ := h.secret w hw
    refine ⟨htidy.consumed.mpr (by simp [hu]), ?_, hexp u hu⟩
    exact htraced.exclusive.resolve_left (by simp [hu])

end Steps

/-- **Authority is consumed with the intent it permits**, in every state that a run from admission
reaches.

In all that follows a row that is consumed or revoked stays as it is. There is a plan only when the
grant that permits preparation is consumed. For a job with a separate start, the start grant is
consumed exactly when the journal has a submission intent, which then carries the authority the rows
describe; and the secrets of such a job are consumed at the same instant, before they are revoked or
expire. -/
theorem authority_with_intent (c : Codec) (r : FrozenJob) (now : ℤ) (txs : List Tx) :
    let x := Run.run (Records.step c r) (admitted now) txs
    (∀ rest k a, x.grants.row k = some a →
      ∃ b, (Run.run (Records.step c r) x rest).grants.row k = some b ∧ a.Later b) ∧
    (x.current.plan.isSome = true → x.grants.Authorized r) ∧
    (r.separateStart = true →
      (x.grants.StartUsed ↔ x.current.submitStarted = true) ∧
      (x.current.submitStarted = true → x.current.startAuthorization.isSome = true ∧
        x.current.startAuthorization = x.grants.startAuthorization r) ∧
      (r.workloadSecrets ≠ [] →
        x.grants.secret.bind (·.consumedAt) = x.grants.start.bind (·.consumedAt) ∧
        ∀ w u, x.grants.secret = some w → w.consumedAt = some u →
          w.status = .consumed ∧ w.revokedAt = none ∧ u < instant w.metadata.expiresAt)) := by
  intro x
  have hx : x.Coheres c r := coheres_run (coherent_admitted c r now) txs
  refine ⟨fun rest => later_run hx rest, fun hplan => ?_,
    fun hr => ⟨(hx.submitted hr).symm, ?_, ?_⟩⟩
  · obtain ⟨plan, hplan⟩ := Option.isSome_iff_exists.mp hplan
    exact (hx.plan plan hplan).2
  · exact fun hs => (hx.authority hr hs).symm
  · exact hx.grants.secret_with_start

def sampleSecretJob : FrozenJob := { sampleJob true with workloadSecrets := [⟨"token", "file"⟩] }

/-- Eight seconds after the samples begin. -/
def sampleDeadline : String := "1970-01-01T00:00:08Z"

/-- A staging answer that was verified. -/
def sampleVerified : Prepared :=
  { samplePrepared with verificationSHA256 := emptyObjectSHA256, manifestSHA256 := emptyListSHA256 }

/-- A job with a separate start, up to the staging that is ready. -/
def sampleReady : List Tx :=
  [⟨0, .prepare ⟨"attempt", 60, sampleDeadline, 1024, true⟩ sampleID⟩, sampleLease,
   ⟨0, .consume ⟨sampleClaim 2, 0⟩⟩,
   ⟨0, .commit ⟨sampleClaim 2, 0⟩
     { kind := .beginPreparation, plan := some samplePlan, preparationID := "intent" } false⟩,
   ⟨0, .commit ⟨sampleClaim 2, 1⟩
     { kind := .preparationSeen, prepared := some sampleVerified } false⟩]

/-- The secret is supplied, the start granted and sent. -/
def sampleStarted : List Tx :=
  [⟨0, .supply ⟨"attempt", emptyObjectSHA256, sampleDeadline, ["token"]⟩ sampleID⟩,
   ⟨0, .start ⟨"authorization", "attempt", emptyObjectSHA256, 10, sampleDeadline, true⟩
     sampleID true⟩,
   ⟨1, .commit ⟨sampleClaim 2, 2⟩ { kind := .beginSubmission, secretsAvailable := true } false⟩]

/-- A start with a secret uses both grants at the instant of the submission, for good. -/
theorem started_sample_consumes_authority :
    let x := Run.run (Records.step sampleEncoders sampleSecretJob) (admitted 0)
      (sampleReady ++ sampleStarted)
    x.current.submitStarted = true ∧ x.grants.StartUsed ∧ x.grants.Authorized sampleSecretJob ∧
      x.current.startAuthorization = x.grants.startAuthorization sampleSecretJob ∧
      (∃ w, x.grants.secret = some w ∧ w.consumedAt = some 1 ∧ w.revokedAt = none) ∧
      ∀ rest a, x.grants.row .start = some a →
        ∃ b, (Run.run (Records.step sampleEncoders sampleSecretJob) x rest).grants.row .start =
          some b ∧ a.Later b := by
  have h := authority_with_intent sampleEncoders sampleSecretJob 0 (sampleReady ++ sampleStarted)
  have hrun : ∀ x, Run.run (Records.step sampleEncoders sampleSecretJob) (admitted 0)
      (sampleReady ++ sampleStarted) = x → x.current.submitStarted = true ∧
        x.current.plan.isSome = true ∧ x.grants.secret.any (·.consumedAt = some 1) = true := by
    rintro x rfl
    decide +kernel
  generalize Run.run (Records.step sampleEncoders sampleSecretJob) (admitted 0)
    (sampleReady ++ sampleStarted) = x at h hrun ⊢
  obtain ⟨hstarted, hplan, hsecret⟩ := hrun x rfl
  simp only [Option.any_eq_true, decide_eq_true_eq] at hsecret
  obtain ⟨w, hw, hconsumed⟩ := hsecret
  obtain ⟨hlater, hauth, hstart⟩ := h
  obtain ⟨hused, hsame, hsecrets⟩ := hstart rfl
  obtain ⟨-, hrevoked, -⟩ := (hsecrets (by simp [sampleSecretJob])).2 w 1 hw hconsumed
  exact ⟨hstarted, hused.mpr hstarted, hauth hplan, (hsame hstarted).2,
    ⟨w, hw, hconsumed, hrevoked⟩, fun rest a => hlater rest .start a⟩

end Store
end ComputeRelay
