import Mathlib.Tactic
import ComputeRelay.Dispatch.Recorded
import ComputeRelay.Dispatch.Validity
import ComputeRelay.Store.Grants

/-!
# The dispatch ledger

The rows of `provider_resources` and `submission_intents` that record, independently of the journal,
what was created and submitted for one attempt (`internal/store/sqlite/dispatch_ledger.go`).

* `writeDispatchLedger` records a step of the journal, `checkDispatchLedger` compares the rows with
  the journal before it is trusted.
* `Ledger.Matches` is what a passed check says; `matches_write` is the step lemma: what is written
  for a step is what the check expects of the next journal.

Rows are found by the operation they were inserted for, which is unique per purpose. A row holds its
identity as a value; the columns the source repeats from it are not stored twice. The triggers on
the updates of a resource are part of the model: its reference does not change, and its readiness
does not go back (`Resource.keeps`).
-/

namespace ComputeRelay
namespace Store

open Domain Provider Dispatch

inductive Readiness
  | unknown | pending | ready
  deriving DecidableEq

/-- A row of `provider_resources`. -/
structure Resource where
  operationID : String
  accountScope : String
  identity : Provider.Identity
  planSHA256 : String
  resourceRef : Octets := ""
  readiness : Readiness := .unknown
  deriving DecidableEq

inductive IntentStatus
  | started | accepted | rejected | unknown
  deriving DecidableEq

/-- A row of `submission_intents`. -/
structure SubmissionIntent where
  intentID : String
  sequence : ℤ
  identity : Provider.Identity
  prepared : Option Prepared
  status : IntentStatus := .started
  remote : Option RemoteReference := none
  deriving DecidableEq

/-- The rows of one attempt. -/
structure Ledger where
  staging : Option Resource := none
  execution : Option Resource := none
  intent : Option SubmissionIntent := none
  deriving DecidableEq

/-- The encoders of the journal, with the one that names an accepted execution. -/
structure Codec extends toDispatch : Dispatch.Codec where
  /-- `executionRef`: the encoded resource and version of a reference. -/
  executionRef : Octets → Octets → String

variable (c : Codec) (r : FrozenJob)

/-- `insertResource`. -/
def resourceOf (plan : Plan) (operation : String) : Resource where
  operationID := operation
  accountScope := r.accountScope
  identity := plan.job.identity
  planSHA256 := plan.digest c.toDispatch.toCodec

/-- The readiness a staging answer is recorded with. -/
def preparedReadiness (p : Prepared) : Readiness := if p.ready then .ready else .pending

/-- The status and the reference a submission is recorded with. -/
def reportedStatus (j : Journal) : IntentStatus :=
  if j.remote.isSome then .accepted else if j.phase = .rejected then .rejected else .unknown

/-- An update of the one row with this operation, when there is one. -/
def Resource.update (row : Option Resource) (operation : String) (set : Resource → Resource) :
    Option Resource :=
  row.map fun x => if x.operationID = operation then set x else x

/-- The triggers `resource_reference` and `resource_readiness`: a reference is not replaced, and
what is ready stays so. -/
def Resource.keeps (x : Resource) (ref : Octets) (readiness : Readiness) : Bool :=
  (x.resourceRef = "" || ref = x.resourceRef) && (x.readiness ≠ .ready || readiness = .ready)

/-- What a staging answer writes. -/
def Ledger.staged (l : Ledger) (j : Journal) (p : Prepared) : Except Err Ledger :=
  if l.staging.any (·.operationID = j.preparationID) then
    if l.staging.all (·.keeps p.resource (preparedReadiness p)) then
      .ok { l with staging := Resource.update l.staging j.preparationID fun x =>
        { x with resourceRef := p.resource, readiness := preparedReadiness p } }
    else .error .conflict
  else .error .corrupt

/-- What a submission intent writes; both inserts are refused when their row exists. -/
def Ledger.submitted (l : Ledger) (j : Journal) (plan : Plan) : Except Err Ledger :=
  if l.execution.isSome ∨ l.intent.isSome then .error .conflict
  else .ok { l with
    execution := some (resourceOf c r plan plan.job.identity.intentID)
    intent := some {
      intentID := plan.job.identity.intentID, sequence := r.sequence
      identity := plan.job.identity, prepared := j.prepared } }

/-- What a submission report writes. -/
def Ledger.reported (l : Ledger) (j : Journal) (plan : Plan) : Except Err Ledger :=
  match l.intent with
  | none => .error .dispatchConflict
  | some i =>
    if i.intentID ≠ plan.job.identity.intentID ∨ (i.status ≠ .started ∧ i.status ≠ .unknown) then
      .error .dispatchConflict
    else .ok { l with
      intent := some { i with status := reportedStatus j, remote := j.remote }
      execution := match j.remote with
        | none => l.execution
        | some remote => Resource.update l.execution plan.job.identity.intentID fun x =>
          { x with
            resourceRef := c.executionRef remote.resource remote.version
            readiness := .ready } }

/-- `writeDispatchLedger`, for the journal after the step. -/
def writeDispatchLedger (l : Ledger) (j : Journal) (kind : Kind) : Except Err Ledger :=
  match j.plan with
  | none => .ok l
  | some plan =>
    match kind with
    | .beginPreparation =>
      if l.staging.isSome then .error .conflict
      else .ok { l with staging := some (resourceOf c r plan j.preparationID) }
    | .preparationSeen =>
      match j.prepared with
      | none => .error .corrupt
      | some p => l.staged j p
    | .beginSubmission => l.submitted c r j plan
    | .submissionSeen | .submissionAbsenceSeen | .ownerSubmissionAbsent => l.reported c j plan
    | _ => .ok l

/-- The comparison of one resource row. -/
def checkResource (row : Option Resource) (plan : Plan) (operation : String) (ref : Octets)
    (readiness : Readiness) : Bool :=
  row.any fun x => x.operationID = operation && x.accountScope = r.accountScope &&
    x.identity = plan.job.identity && x.planSHA256 = plan.digest c.toDispatch.toCodec &&
    x.resourceRef = ref && x.readiness = readiness

/-- The comparison of the submission rows. -/
def checkSubmission (l : Ledger) (j : Journal) (plan : Plan) : Bool :=
  l.intent.any fun i =>
    i.intentID = plan.job.identity.intentID && i.sequence = r.sequence &&
    i.identity = plan.job.identity && i.prepared = j.prepared && i.remote = j.remote &&
    match j.remote with
    | some remote => i.status = .accepted &&
        checkResource c r l.execution plan plan.job.identity.intentID
          (c.executionRef remote.resource remote.version) .ready
    | none =>
      (if j.phase = .rejected then i.status = .rejected
        else i.status = .started || i.status = .unknown) &&
      checkResource c r l.execution plan plan.job.identity.intentID "" .unknown

/-- The reference and readiness the staging row must show. -/
def stagingRef (j : Journal) : Octets := (j.prepared.map (·.resource)).getD ""
def stagingReadiness (j : Journal) : Readiness := (j.prepared.map preparedReadiness).getD .unknown

/-- `checkDispatchLedger`, for a journal with this plan; a failure is reported as corrupt. -/
def checkDispatchLedger (l : Ledger) (j : Journal) (plan : Plan) : Bool :=
  checkResource c r l.staging plan j.preparationID (stagingRef j) (stagingReadiness j) &&
  (!j.submitStarted || checkSubmission c r l j plan)

/-! ### What is written is what is checked -/

section Matches

variable {c r}

/-- The rows pass the check of the journal, when it has a plan. -/
def Ledger.Matches (c : Codec) (r : FrozenJob) (l : Ledger) (j : Journal) : Prop :=
  ∀ plan, j.plan = some plan → checkDispatchLedger c r l j plan = true

variable {l l' : Ledger} {old j : Journal} {a : Action}

theorem checkDispatchLedger_iff {plan : Plan} : checkDispatchLedger c r l j plan = true ↔
    checkResource c r l.staging plan j.preparationID (stagingRef j) (stagingReadiness j) = true ∧
      (j.submitStarted = true → checkSubmission c r l j plan = true) := by
  simp only [checkDispatchLedger, Bool.and_eq_true, Bool.or_eq_true, Bool.not_eq_true']
  cases j.submitStarted <;> simp

theorem checkResource_some {x : Resource} {plan : Plan} {operation : String}
    {ref : Octets} {readiness : Readiness} :
    checkResource c r (some x) plan operation ref readiness = true ↔
      x = { resourceOf c r plan operation with resourceRef := ref, readiness := readiness } := by
  cases x
  simp [checkResource, resourceOf, and_assoc]

theorem checkResource_iff {row : Option Resource} {plan : Plan} {operation : String}
    {ref : Octets} {readiness : Readiness} :
    checkResource c r row plan operation ref readiness = true ↔
      row =
        some { resourceOf c r plan operation with resourceRef := ref, readiness := readiness } := by
  cases row with
  | none => simp [checkResource]
  | some x => rw [checkResource_some, Option.some.injEq]

/-- Only the recorded fields matter, and whether a submission was rejected. -/
theorem Ledger.Matches.of_same (h : l.Matches c r old) (hs : SameRecords old j)
    (hp : old.submitStarted = true → (j.phase = .rejected ↔ old.phase = .rejected)) :
    l.Matches c r j := by
  intro plan hplan
  have hold := checkDispatchLedger_iff.mp (h plan (hs.plan ▸ hplan))
  rw [checkDispatchLedger_iff]
  refine ⟨?_, fun hstart => ?_⟩
  · simpa only [stagingRef, stagingReadiness, hs.preparationID, hs.prepared] using hold.1
  · rw [hs.submitStarted] at hstart
    have hsub := hold.2 hstart
    simpa only [checkSubmission, hs.prepared, hs.remote, hp hstart] using hsub

/-- Rows that carry a plan's resources carry no others. -/
theorem matches_unplanned (h : j.plan = none) : l.Matches c r j := by
  intro plan hplan
  rw [h] at hplan
  cases hplan

/-- The rows after a report are those the next journal expects. -/
theorem checkSubmission_reported {plan : Plan} (hold : checkSubmission c r l old plan = true)
    (hunbound : old.remote = none) (hp : j.prepared = old.prepared)
    (hw : l.reported c j plan = .ok l') :
    l'.staging = l.staging ∧ checkSubmission c r l' j plan = true := by
  cases hi : l.intent with
  | none => simp [Ledger.reported, hi] at hw
  | some i =>
    simp only [Ledger.reported, hi] at hw
    split_ifs at hw with hg
    cases hw
    refine ⟨rfl, ?_⟩
    simp only [checkSubmission, hi, hunbound, Option.any_some, Bool.and_eq_true,
      decide_eq_true_eq] at hold
    obtain ⟨⟨⟨⟨⟨h1, h2⟩, h3⟩, h4⟩, -⟩, -, h5⟩ := hold
    simp only [checkSubmission, Option.any_some, Bool.and_eq_true, decide_eq_true_eq,
      h1, h2, h3, h4, hp, true_and]
    cases hr : j.remote with
    | none =>
      simp only [reportedStatus, hr, Option.isSome_none, Bool.false_eq_true, if_false, h5]
      split_ifs <;> simp
    | some remote =>
      simp [reportedStatus, hr, checkResource_iff.mp h5, checkResource_iff, Resource.update,
        resourceOf]

/-- **Step lemma.** What is written for an accepted step is what the check expects of the next
journal. -/
theorem matches_write (h : l.Matches c r old) (hv : old.valid c.toDispatch.toCodec = true)
    (hrec : Recorded old a j) (hw : writeDispatchLedger c r l j a.kind = .ok l') :
    l'.Matches c r j := by
  cases hrec with
  | kept plans stages submits reports same unrejected =>
    have hl : l' = l := by
      simp only [Kind.reports, not_or] at reports
      unfold writeDispatchLedger at hw
      cases hplan : j.plan with
      | none => simpa [hplan] using hw.symm
      | some plan =>
        simp only [hplan] at hw
        cases hk : a.kind <;> simp_all
    rw [hl]
    exact h.of_same same fun hs => iff_of_false (unrejected hs).2 (unrejected hs).1
  | planned plan kind offer phase fresh journal =>
    intro plan' hplan
    have hu := Journal.valid_unplanned hv fresh
    simp only [Journal.unplannedRule, Bool.and_eq_true, Option.isNone_iff_eq_none,
      Bool.not_eq_true'] at hu
    obtain ⟨⟨⟨⟨-, hstart⟩, hprep⟩, -⟩, -⟩ := hu
    have hp : j.plan = some plan := journal.plan
    obtain rfl : plan = plan' := by simpa [hp] using hplan
    simp only [writeDispatchLedger, hp, kind] at hw
    split_ifs at hw
    cases hw
    rw [checkDispatchLedger_iff]
    refine ⟨?_, ?_⟩
    · simp [checkResource_iff, stagingRef, stagingReadiness, journal.prepared, hprep, resourceOf]
    · simp [journal.submitStarted, hstart]
  | staged plan p kind offer plan_eq unstarted resource journal phase =>
    intro plan' hplan
    have hp : j.plan = some plan := journal.plan.trans plan_eq
    obtain rfl : plan = plan' := by simpa [hp] using hplan
    have hq : j.prepared = some p := journal.prepared
    have hold := (checkDispatchLedger_iff.mp (h plan plan_eq)).1
    rw [checkResource_iff] at hold
    simp only [writeDispatchLedger, hp, kind, hq, Ledger.staged] at hw
    split_ifs at hw
    cases hw
    rw [checkDispatchLedger_iff]
    refine ⟨?_, ?_⟩
    · simp [checkResource_iff, stagingRef, stagingReadiness, hq, hold, Resource.update, resourceOf,
        journal.preparationID]
    · simp [journal.submitStarted, unstarted]
  | submitted p kind phase unstarted prepared ready hidden journal phase_eq =>
    intro plan hplan
    have hplan' : old.plan = some plan := journal.plan ▸ hplan
    have hold := (checkDispatchLedger_iff.mp (h plan hplan')).1
    have hbound : old.remote = none := by
      by_contra hne
      obtain ⟨remote, hr⟩ := Option.ne_none_iff_exists'.mp hne
      exact absurd ((Journal.planned_of_valid hv hplan').remote remote hr).1 (by simp [unstarted])
    simp only [writeDispatchLedger, hplan, kind, Ledger.submitted] at hw
    split_ifs at hw
    cases hw
    rw [checkDispatchLedger_iff]
    refine ⟨?_, fun _ => ?_⟩
    · simpa only [stagingRef, stagingReadiness, journal.preparationID, journal.prepared] using hold
    · simp [checkSubmission, journal.remote, hbound, phase_eq, checkResource_iff, resourceOf]
  | reported remote kind started unbound journal _ =>
    intro plan hplan
    have hplan' : old.plan = some plan := journal.plan ▸ hplan
    have hold := checkDispatchLedger_iff.mp (h plan hplan')
    have hw' : l.reported c j plan = .ok l' := by
      simp only [writeDispatchLedger, hplan] at hw
      rcases kind with hk | hk | hk <;> simpa [hk] using hw
    obtain ⟨hl, hsub⟩ := checkSubmission_reported (hold.2 started) unbound journal.prepared hw'
    rw [checkDispatchLedger_iff]
    refine ⟨?_, fun _ => hsub⟩
    simpa only [stagingRef, stagingReadiness, hl, journal.preparationID, journal.prepared]
      using hold.1

end Matches

end Store
end ComputeRelay
